import GnunetWeb.FileSharing.Download

/-!
# Downloads are delivered

The runs of several downloads, whose reports, puts, loops and transactions can come in any
order.

Proved here:

* `Clean.steps`: each download keeps a file of its own;
* `cells_view`: the cells of a download are what some of its first reports make of them;
* `weight_step`: there are only so many steps until the next report;
* `downloads_delivered`: then all reports have been dealt with.
-/

namespace GnunetWeb.Downloads

open EventSystem FileStorage IndexedDB

/-! ## Undisturbed runs -/

/-- No put is lost, no request fails, and the key generator is not exhausted. -/
def Undisturbed (st : State) : Event → Prop
  | .put download => feeds.HasRoom st.downloads download
  | .transact =>
    match st.jobs with
    | .create _ :: _ => st.files.generator ≤ maxGenerated
    | _ => True
  | .fail => False
  | .startDownload _ | .progress _ _ | .resume _ => True

instance (st : State) (e : Event) : Decidable (Undisturbed st e) :=
  match e with
  | .put download => inferInstanceAs (Decidable (feeds.HasRoom st.downloads download))
  | .transact =>
    match st with
    | ⟨_, .create _ :: _, files⟩ => inferInstanceAs (Decidable (files.generator ≤ maxGenerated))
    | ⟨_, [], _⟩ | ⟨_, .write _ _ _ :: _, _⟩ | ⟨_, .createObjectUrl _ _ :: _, _⟩ => .isTrue trivial
  | .fail => .isFalse id
  | .startDownload _ | .progress _ _ | .resume _ => .isTrue trivial

/-- Each download has a file of its own. -/
structure Clean (os : List Info) (st : State) : Prop where
  accounts : feeds.Accounts Info.cctx (Taken st.files st.jobs) os st.downloads
  handles : ∀ (key key' : Nat) (dl dl' : Download) (k : Nat), st.downloads[key]? = some dl →
    st.downloads[key']? = some dl' → dl.block.handle = some k → dl'.block.handle = some k →
      key = key'
  jobs : ∀ job ∈ st.jobs, job.download < st.downloads.length

theorem cctx_of_parseProgressInfo {heap : List UInt8} {info : ProgressInfo} {parsed : Info}
    (h : parseProgressInfo heap info = some parsed) : parsed.cctx = info.cctx := by
  rw [parseProgressInfo] at h
  split_ifs at h
  all_goals
    cases h
    rfl

theorem generator_free (files : ObjectStore Blob) : files.get files.generator = none := by
  cases h : files.get files.generator with
  | none => rfl
  | some blob => exact absurd (files.below _ (ObjectStore.get_eq_some.mp h)) (Nat.lt_irrefl _)

namespace Clean

variable {os os' : List Info} {st st' : State}

theorem init (files : ObjectStore Blob) : Clean [] (State.init files) where
  accounts := .nil
  handles _ _ _ _ _ h := nomatch h
  jobs _ h := nomatch h

theorem startDownload (h : Clean os st) (early : List (List UInt8 × ProgressInfo)) :
    Clean (os ++ (st.startDownload early).2) (st.startDownload early).1 := by
  have hcctx : ∀ info ∈ (st.startDownload early).2, info.cctx = st.downloads.length := by
    intro info hinfo
    obtain ⟨r, -, hr⟩ := List.mem_filterMap.mp hinfo
    exact cctx_of_parseProgressInfo hr
  have hjobs : st.jobs.filter (fun job => job.download = st.downloads.length) = [] :=
    List.filter_eq_nil_iff.mpr fun job hjob => by simpa using Nat.ne_of_lt (h.jobs job hjob)
  have hframe : feeds.Accounts Info.cctx
      (Taken st.files (st.jobs ++ [.create st.downloads.length])) os st.downloads := by
    refine h.accounts.mono fun key dl infos hdl htaken => htaken.frame (fun job hjob => ?_)
      fun k blob _ hblob => hblob
    have hlt : key < st.downloads.length := (List.getElem?_eq_some_iff.mp hdl).1
    exact List.mem_singleton.mp hjob ▸ Nat.ne_of_gt hlt
  refine ⟨hframe.add hcctx rfl ⟨[], rfl, nofun, rfl, ?_⟩,
    fun key key' dl dl' k hdl hdl' hk hk' => ?_, fun job hjob => ?_⟩
  · rw [List.filter_append, hjobs]
    simpa [Job.download, blocks] using Follows.opening
  · obtain ⟨-, rfl⟩ | hdl := getElem?_concat_cases hdl
    · cases hk
    · obtain ⟨-, rfl⟩ | hdl' := getElem?_concat_cases hdl'
      · cases hk'
      · exact h.handles key key' dl dl' k hdl hdl' hk hk'
  · rw [State.startDownload, List.length_append]
    obtain hjob | hjob := List.mem_append.mp hjob
    · exact Nat.lt_succ_of_lt (h.jobs job hjob)
    · rw [List.mem_singleton.mp hjob]
      exact Nat.lt_succ_self _

/-- The handles when one download changes, and keeps its handle. -/
theorem handles_set (h : Clean os st) {key : Nat} {dl dl' : Download}
    (hdl : st.downloads[key]? = some dl) (hhandle : dl'.block.handle = dl.block.handle)
    {i j : Nat} {d d' : Download} {k : Nat} (hd : (st.downloads.set key dl')[i]? = some d)
    (hd' : (st.downloads.set key dl')[j]? = some d') (hk : d.block.handle = some k)
    (hk' : d'.block.handle = some k) : i = j := by
  have hget : ∀ (i : Nat) (d : Download), (st.downloads.set key dl')[i]? = some d →
      ∃ d', st.downloads[i]? = some d' ∧ d.block.handle = d'.block.handle := by
    intro i d hd
    obtain ⟨rfl, rfl⟩ | ⟨-, hd⟩ := getElem?_set_cases hd
    · exact ⟨dl, hdl, hhandle⟩
    · exact ⟨d, hd, rfl⟩
  obtain ⟨e, he, hke⟩ := hget i d hd
  obtain ⟨e', he', hke'⟩ := hget j d' hd'
  exact h.handles i j e e' k he he' (hke ▸ hk) (hke' ▸ hk')

theorem progressCallback (h : Clean os st) (info : Info) :
    Clean (os ++ (st.progressCallback info).2) (st.progressCallback info).1 where
  accounts := h.accounts.tell info fun _ _ htaken => htaken
  handles i j d d' k hd hd' hk hk' := by
    rw [State.progressCallback, FeedIn.tell] at hd hd'
    split at hd
    · next dl hdl =>
      rw [hdl] at hd'
      have hhandle : (feeds.setFeed dl ((feeds.feed dl).report info)).block.handle =
          dl.block.handle := rfl
      exact h.handles_set hdl hhandle hd hd' hk hk'
    · next hnone =>
      rw [hnone] at hd'
      exact h.handles i j d d' k hd hd' hk hk'
  jobs job hjob := (feeds.length_tell Info.cctx st.downloads info).symm ▸ h.jobs job hjob

theorem put (h : Clean os st) {download : Nat} {downloads : List Download}
    (hput : feeds.putNext st.downloads download = some downloads)
    (hroom : feeds.HasRoom st.downloads download) : Clean os { st with downloads } where
  accounts := h.accounts.putNext hput hroom fun _ _ _ htaken hfeed => htaken.put hfeed
  handles i j d d' k hd hd' hk hk' := by
    obtain ⟨dl, hdl, hput⟩ := Option.bind_eq_some_iff.mp hput
    obtain ⟨feed, -, rfl⟩ := Option.map_eq_some_iff.mp hput
    have hhandle : (feeds.setFeed dl feed).block.handle = dl.block.handle := rfl
    exact h.handles_set hdl hhandle hd hd' hk hk'
  jobs job hjob := (FeedIn.length_putNext hput).symm ▸ h.jobs job hjob

theorem resume (h : Clean os st) {key : Nat} {dl dl' : Download} {new : List Job}
    (hdl : st.downloads[key]? = some dl) (hr : dl.resume key = some (dl', new)) :
    Clean os { st with downloads := st.downloads.set key dl', jobs := st.jobs ++ new } := by
  have hparts : (∀ job ∈ new, job.download = key) ∧ dl'.block.handle = dl.block.handle := by
    obtain ⟨infos, htaken, -⟩ := h.accounts.taken key dl hdl
    exact (htaken.resume hr).2
  refine ⟨?_, fun i j d d' k hd hd' hk hk' => h.handles_set hdl hparts.2 hd hd' hk hk',
    fun job hjob => ?_⟩
  · exact h.accounts.take hdl (fun infos htaken => (htaken.resume hr).1)
      fun i d infos hne _ htaken => htaken.frame (fun job hjob => hparts.1 job hjob ▸ Ne.symm hne)
        fun k blob _ hblob => hblob
  · rw [List.length_set]
    obtain hjob | hjob := List.mem_append.mp hjob
    · exact h.jobs job hjob
    · exact hparts.1 job hjob ▸ (List.getElem?_eq_some_iff.mp hdl).1

theorem transact (h : Clean os st) {job : Job} {jobs : List Job} (hjobs : st.jobs = job :: jobs)
    (hroom : ∀ key, job = .create key → st.files.generator ≤ maxGenerated) :
    Clean os ({ st with jobs }.finish job (job.perform st.files)) := by
  have hlt : job.download < st.downloads.length :=
    h.jobs job (hjobs ▸ List.mem_cons_self)
  obtain ⟨own, hown⟩ : ∃ own, st.downloads[job.download]? = some own :=
    ⟨_, List.getElem?_eq_getElem hlt⟩
  obtain ⟨shown, hfile⟩ : ∃ shown, Follows st.files job.download own.block
      (job :: jobs.filter fun job' => job'.download = job.download) (blocks shown) := by
    obtain ⟨_, ⟨shown, -, -, -, hfile⟩, -⟩ := h.accounts.taken _ _ hown
    rw [hjobs, List.filter_cons_of_pos (by simp)] at hfile
    exact ⟨shown, hfile⟩
  have hget : ∀ (key : Nat) (dl : Download), (st.downloads.set job.download
        { own with block := own.block.receive (job.perform st.files).2 })[key]? = some dl →
      key = job.download ∧
        dl = { own with block := own.block.receive (job.perform st.files).2 } ∨
      key ≠ job.download ∧ st.downloads[key]? = some dl := fun _ _ => getElem?_set_cases
  have hnew : ∀ (key : Nat) (dl : Download) (k : Nat), st.downloads[key]? = some dl →
      key ≠ job.download → dl.block.handle = some k →
      (own.block.receive (job.perform st.files).2).handle ≠ some k := by
    intro key dl k hdl hkey hk hk'
    obtain he | he | he := hfile.handle_receive
    · exact hkey (h.handles _ _ _ _ k hdl hown hk (he.symm.trans hk'))
    · obtain ⟨_, ⟨_, -, -, -, hother⟩, -⟩ := h.accounts.taken key dl hdl
      obtain ⟨blob, hblob⟩ := hother.get hk
      obtain rfl := Option.some.inj (he.symm.trans hk')
      exact absurd (hblob.symm.trans (generator_free _)) nofun
    · cases he.symm.trans hk'
  rw [State.finish, modify_of_some hown]
  refine ⟨?_, fun key key' dl dl' k hdl hdl' hk hk' => ?_, fun j hj => ?_⟩
  · refine h.accounts.take hown (fun infos htaken => ⟨[], ?_, rfl⟩)
      fun key dl infos hkey hdl htaken => ?_
    · obtain ⟨shown, rfl, hstop, hcells, hfile⟩ := htaken
      rw [hjobs, List.filter_cons_of_pos (by simp)] at hfile
      rw [List.append_nil]
      exact ⟨shown, by rw [GoBlock.stopped_receive], by rwa [GoBlock.stopped_receive], hcells,
        hfile.receive hroom⟩
    · obtain ⟨shown', htaken', hstop', hcells', hother⟩ := htaken
      rw [hjobs, List.filter_cons_of_neg (by simpa using Ne.symm hkey)] at hother
      refine ⟨shown', htaken', hstop', hcells', hother.frame fun k blob hk hblob => ?_⟩
      exact hfile.perform_other
        (fun hk' => hkey (h.handles _ _ _ _ k hdl hown hk hk')) hblob
  · obtain ⟨rfl, rfl⟩ | ⟨hkey, hdl⟩ := hget key dl hdl
    · obtain ⟨rfl, -⟩ | ⟨hkey', hdl'⟩ := hget key' dl' hdl'
      · rfl
      · exact absurd hk (hnew key' dl' k hdl' hkey' hk')
    · obtain ⟨rfl, rfl⟩ | ⟨hkey', hdl'⟩ := hget key' dl' hdl'
      · exact absurd hk' (hnew key dl k hdl hkey hk)
      · exact h.handles key key' dl dl' k hdl hdl' hk hk'
  · rw [List.length_set]
    exact h.jobs j (hjobs ▸ List.mem_cons_of_mem _ hj)

theorem steps {e : Event} (h : Clean os st) (hok : Undisturbed st e)
    (hst : step st e = some (st', os')) : Clean (os ++ os') st' := by
  cases e with
  | startDownload early =>
    cases hst
    exact h.startDownload early
  | progress heap info =>
    rw [step] at hst
    split at hst
    · next info _ =>
      have hcallback := h.progressCallback info
      rwa [Option.some.inj hst] at hcallback
    · cases hst
      rwa [List.append_nil]
  | put download =>
    obtain ⟨_, hput, hst⟩ := Option.map_eq_some_iff.mp hst
    cases hst
    obtain ⟨downloads, hnext, rfl⟩ := Option.map_eq_some_iff.mp hput
    rw [List.append_nil]
    exact h.put hnext hok
  | resume download =>
    obtain ⟨_, hresume, hst⟩ := Option.map_eq_some_iff.mp hst
    cases hst
    obtain ⟨dl, hdl, hresume⟩ := Option.bind_eq_some_iff.mp hresume
    obtain ⟨⟨dl', new⟩, hr, rfl⟩ := Option.map_eq_some_iff.mp hresume
    rw [List.append_nil]
    exact h.resume hdl hr
  | transact =>
    obtain ⟨_, htransact, hst⟩ := Option.map_eq_some_iff.mp hst
    cases hst
    rw [List.append_nil]
    rw [State.transact] at htransact
    split at htransact
    · cases htransact
    · next job jobs hjobs =>
      cases htransact
      refine h.transact hjobs fun key hkey => ?_
      rw [Undisturbed, hjobs, hkey] at hok
      exact hok
  | fail => exact hok.elim

end Clean

variable {files : ObjectStore Blob} {es : List Event} {os : List Info} {st : State}

theorem clean_of_run (h : (system files).Run Undisturbed es os st) : Clean os st :=
  h.history (fun _ _ _ _ _ hclean hok hst => hclean.steps hok hst) (Clean.init files)

/-- **A download shows its reports in their order.**  In a run without disturbances, whatever
other downloads do meanwhile, the cells of a download are what some of its first reports make
of them.  If they hold an object, it is made of the blocks before some `:download-completed`,
and if these agree with a file and cover it, it is that file. -/
theorem cells_view (h : (system files).Run Undisturbed es os st) {key : Nat} {dl : Download}
    (hdl : st.downloads[key]? = some dl) :
    (∃ before after, reports os key = before ++ after ∧ dl.cells = view before) ∧
      ∀ blob, dl.cells.object = some blob → ∃ before info after,
        reports os key = before ++ info :: after ∧ info.status = .downloadCompleted ∧
        blob = ⟨octetStream, Patch.applyAll 0 (blocks before)⟩ ∧
        ∀ F : List UInt8,
          (∀ p ∈ blocks before,
            p.stop ≤ F.length ∧ p.data = (F.drop p.offset).take p.data.length) →
          (∀ i < F.length, ∃ p ∈ blocks before, p.Covers i) → blob = ⟨octetStream, F⟩ := by
  obtain ⟨_, ⟨taken, rfl, -, hcells, -⟩, htaken⟩ := (clean_of_run h).accounts.taken key dl hdl
  have htaken : taken ++ dl.block.stopped ++ dl.feed.pending = reports os key := htaken
  refine ⟨⟨taken, dl.block.stopped ++ dl.feed.pending, ?_, hcells⟩, fun blob hblob => ?_⟩
  · rw [← htaken, List.append_assoc]
  · rw [hcells] at hblob
    obtain ⟨before, info, after, rfl, hinfo, rfl⟩ := view_object hblob
    refine ⟨before, info, after ++ dl.block.stopped ++ dl.feed.pending, ?_, hinfo, rfl, ?_⟩
    · rw [← htaken]
      simp only [List.append_assoc, List.cons_append]
    · intro F hagree hcover
      rw [Patch.applyAll_eq 0 hagree hcover]

/-- The reports of the run below. -/
def twoBlocks : List Info :=
  [parseProgressDownload .downloadStart ⟨7, 0, 3, 0, 0, 0, 0, 0⟩,
    parseDownloadProgress [8, 2, 3] ⟨10, 0, 3, 2, 1, 1, 2, 0⟩,
    parseDownloadProgress [1] ⟨10, 0, 3, 3, 0, 0, 1, 0⟩]

/-- Two downloads are started, and the second block of the first one comes before the first. -/
theorem undisturbed_two_blocks : ∃ os st dl, (system .empty).Run Undisturbed
      [.startDownload [], .startDownload [], .progress [] ⟨7, 0, 3, 0, 0, 0, 0, 0⟩, .transact,
        .put 0, .resume 0, .progress [8, 2, 3] ⟨10, 0, 3, 2, 1, 1, 2, 0⟩, .put 0,
        .progress [1] ⟨10, 0, 3, 3, 0, 0, 1, 0⟩, .put 0, .transact, .resume 1, .resume 0,
        .progress [] ⟨12, 0, 3, 3, 0, 0, 0, 0⟩, .transact, .put 0, .resume 0, .transact,
        .transact, .resume 0] os st ∧
    st.downloads[0]? = some dl ∧ dl.cells.object = some ⟨octetStream, [1, 2, 3]⟩ ∧
    reports os 0 =
      twoBlocks ++ [parseProgressDownload .downloadCompleted ⟨12, 0, 3, 3, 0, 0, 0, 0⟩] ∧
    (∀ key, st.put key = none ∧ st.resume key = none) ∧ st.transact = none := by
  refine ⟨_, _, _, .of_restrict (Steps.of_exec (fun _ _ => trivial) rfl), rfl, rfl, rfl,
    fun key => ?_, rfl⟩
  match key with
  | 0 => exact ⟨rfl, rfl⟩
  | 1 => exact ⟨rfl, rfl⟩
  | _ + 2 => exact ⟨rfl, rfl⟩

theorem cells_view_two_blocks : ∃ (os : List Info) (st : State) (dl : Download),
    st.downloads[0]? = some dl ∧
    dl.cells.object = some ⟨octetStream, [1, 2, 3]⟩ ∧
    ∃ before after, reports os 0 = before ++ after ∧ dl.cells = view before := by
  obtain ⟨os, st, dl, hrun, hdl, hobject, -⟩ := undisturbed_two_blocks
  exact ⟨os, st, dl, hdl, hobject, (cells_view hrun hdl).1⟩

/-! ## Steps that are left -/

/-- The steps that no report begins. -/
def Internal (_ : State) : Event → Prop
  | .put _ | .resume _ | .transact | .fail => True
  | .startDownload _ | .progress _ _ => False

def Quiescent (st : State) : Prop :=
  (∀ key, st.put key = none ∧ st.resume key = none) ∧ st.transact = none

def GoBlock.weight : GoBlock → Nat
  | opening | linking _ _ => 2
  | opened _ | linked _ _ _ => 1
  | looping _ | failed => 0

def Download.weight (dl : Download) : Nat := dl.feed.weight + dl.block.weight

def State.weight (st : State) : Nat := (st.downloads.map Download.weight).sum + st.jobs.length

theorem weight_receive_le (block : GoBlock) (calls : List Call) :
    (block.receive calls).weight ≤ block.weight := by
  rw [GoBlock.receive.eq_def]
  split
  all_goals simp [GoBlock.weight]

theorem length_blocks_le (infos : List Info) : (blocks infos).length ≤ infos.length :=
  List.length_filterMap_le _ _

theorem weight_loop {dl dl' : Download} {key : Nat} {handle : Option Nat} {jobs : List Job}
    (h : dl.loop key handle = some (dl', jobs)) : dl'.weight + jobs.length < dl.feed.weight := by
  obtain ⟨⟨channel, infos, stop⟩, hr, h⟩ := Option.map_eq_some_iff.mp h
  have hlt := Feed.weight_resumeUntil hr
  have hle := length_blocks_le infos
  have hwrites : (handle.toList.flatMap fun k => (blocks infos).map (Job.write key k)).length ≤
      infos.length := by
    cases handle with
    | none => exact Nat.zero_le _
    | some k => simpa using hle
  cases stop with
  | none =>
    cases h
    simp only [Download.weight, GoBlock.weight, Option.toList_none, List.length_nil] at hlt ⊢
    omega
  | some info =>
    cases handle with
    | none =>
      cases h
      simp only [Download.weight, GoBlock.weight, Option.toList_some,
        List.length_singleton] at hlt ⊢
      omega
    | some k =>
      cases h
      simp only [Download.weight, GoBlock.weight, Option.toList_some,
        List.length_singleton, List.length_append] at hlt hwrites ⊢
      omega

theorem weight_resume {dl dl' : Download} {key : Nat} {jobs : List Job}
    (h : dl.resume key = some (dl', jobs)) : dl'.weight + jobs.length < dl.weight := by
  have hle : dl.feed.weight ≤ dl.weight := Nat.le_add_right _ _
  rw [Download.resume] at h
  split at h
  · exact Nat.lt_of_lt_of_le (weight_loop h) hle
  · exact Nat.lt_of_lt_of_le (weight_loop h) hle
  · exact Nat.lt_of_lt_of_le (weight_loop h) hle
  all_goals cases h

theorem weight_finish_lt {job : Job} {jobs : List Job} (hjobs : st.jobs = job :: jobs)
    (r : ObjectStore Blob × List Call) :
    ({ st with jobs }.finish job r).weight < st.weight := by
  have hle := sum_modify_le Download.weight
    (f := fun dl => { dl with block := dl.block.receive r.2 })
    (fun dl => Nat.add_le_add_left (weight_receive_le _ _) _) st.downloads job.download
  rw [State.weight, State.weight, hjobs, List.length_cons]
  exact Nat.add_lt_add_of_le_of_lt hle (Nat.lt_succ_self _)

/-- **Each step of the system leaves fewer.** -/
theorem weight_step {e : Event} {st' : State} {os' : List Info} (he : Internal st e)
    (hst : step st e = some (st', os')) : st'.weight < st.weight := by
  cases e with
  | startDownload early => exact he.elim
  | progress heap info => exact he.elim
  | put download =>
    obtain ⟨_, hput, hst⟩ := Option.map_eq_some_iff.mp hst
    cases hst
    obtain ⟨downloads, hnext, rfl⟩ := Option.map_eq_some_iff.mp hput
    refine Nat.add_lt_add_right (FeedIn.weight_putNext (L := feeds) (w := Download.weight)
      (fun _ _ hfeed => ?_) hnext) _
    exact Nat.add_lt_add_right (Feed.weight_put hfeed) _
  | resume download =>
    obtain ⟨_, hresume, hst⟩ := Option.map_eq_some_iff.mp hst
    cases hst
    obtain ⟨dl, hdl, hresume⟩ := Option.bind_eq_some_iff.mp hresume
    obtain ⟨⟨dl', new⟩, hr, rfl⟩ := Option.map_eq_some_iff.mp hresume
    have hlt := sum_set_lt Download.weight hdl (weight_resume hr)
    simp only [State.weight, List.length_append]
    omega
  | transact =>
    obtain ⟨_, htransact, hst⟩ := Option.map_eq_some_iff.mp hst
    cases hst
    rw [State.transact] at htransact
    split at htransact
    · cases htransact
    · next hjobs =>
      cases htransact
      exact weight_finish_lt hjobs _
  | fail =>
    obtain ⟨_, hfail, hst⟩ := Option.map_eq_some_iff.mp hst
    cases hst
    rw [State.fail] at hfail
    split at hfail
    · cases hfail
    · next hjobs =>
      cases hfail
      exact weight_finish_lt hjobs _

theorem idle_of_loop {dl : Download} {key : Nat} {handle : Option Nat}
    (h : dl.loop key handle = none) : dl.feed.channel.reader.runs = false := by
  by_contra hruns
  have hruns : dl.feed.channel.reader.runs := by simpa using hruns
  have hr := Option.map_eq_none_iff.mp h
  rw [Channel.resumeUntil, if_pos hruns] at hr
  split at hr
  · cases hr
  · cases hr

/-- **A state without a step has dealt with all reports.** -/
theorem Taken.of_quiescent {jobs : List Job} {key : Nat} {dl : Download} {infos : List Info}
    (h : Taken files jobs key dl infos) (htaken : infos ++ dl.feed.pending = reports os key)
    (hjobs : jobs = []) (hput : dl.feed.put = none) (hresume : dl.resume key = none) :
    dl.cells = view (reports os key) := by
  obtain ⟨taken, rfl, hstop, hcells, hfile⟩ := h
  have hshown : dl.block.stopped = [] → dl.feed.channel.reader.runs = false →
      dl.cells = view (reports os key) := by
    intro hnone hruns
    rw [hcells, ← htaken, hnone, Feed.pending_of_idle hput hruns, List.append_nil,
      List.append_nil]
  rw [hjobs, List.filter_nil] at hfile
  obtain ⟨feed, block, cells⟩ := dl
  generalize hl : ([] : List Job) = own at hfile
  generalize blocks taken = written at hfile
  cases hfile with
  | opening => cases hl
  | opened => exact hshown rfl (idle_of_loop hresume)
  | looping => exact hshown rfl (idle_of_loop hresume)
  | linking => exact absurd hl.symm (by simp)
  | @linked k info done hget =>
    have hruns : feed.channel.reader.runs = false :=
      by
      have hloop : Download.loop ⟨feed, .linked k info _, .finish _ info⟩ key (some k) = none :=
        hresume
      exact idle_of_loop hloop
    exact absurd ((hstop info List.mem_cons_self).2.symm.trans hruns) (by decide)

/-- **Downloads are delivered.**  After a run without disturbances, there are at most
`st.weight` steps until a report or another download begins.  When there is none left, the
cells of every download are what all of its reports make of them; if its blocks before a
`:download-completed` agree with a file and cover it, and no other one and no `:download-start`
comes after, the download is complete, and its object is the file. -/
theorem downloads_delivered (h : (system files).Run Undisturbed es os st) :
    (∀ es' os' st', (system files).Steps Internal st es' os' st' → es'.length ≤ st.weight) ∧
      (Quiescent st → ∀ key dl, st.downloads[key]? = some dl →
        dl.cells = view (reports os key) ∧
          ∀ (before : List Info) (done : Info) (after : List Info) (F : List UInt8),
            reports os key = before ++ done :: after → done.status = .downloadCompleted →
            (∀ info ∈ after,
              info.status ≠ .downloadCompleted ∧ info.status ≠ .downloadStart) →
            (∀ p ∈ blocks before,
              p.stop ≤ F.length ∧ p.data = (F.drop p.offset).take p.data.length) →
            (∀ i < F.length, ∃ p ∈ blocks before, p.Covers i) →
              dl.cells.state = .complete ∧ dl.cells.object = some ⟨octetStream, F⟩) := by
  refine ⟨fun es' os' st' hsteps => ?_, fun hquiet key dl hdl => ?_⟩
  · have := hsteps.length_le State.weight fun _ _ _ _ he hst => weight_step he hst
    omega
  · obtain ⟨hput, hresume⟩ := hquiet.1 key
    rw [State.put, Option.map_eq_none_iff] at hput
    rw [State.resume, hdl, Option.bind_some, Option.map_eq_none_iff] at hresume
    have hjobs : st.jobs = [] := by
      have htransact := hquiet.2
      rw [State.transact] at htransact
      split at htransact
      · assumption
      · cases htransact
    obtain ⟨infos, hinfos, htaken⟩ := (clean_of_run h).accounts.taken key dl hdl
    have hcells := hinfos.of_quiescent htaken hjobs (FeedIn.putNext_none hput hdl) hresume
    refine ⟨hcells, fun before done after F hreports hdone hafter hagree hcover => ?_⟩
    rw [hcells, hreports]
    obtain ⟨hstate, hobject⟩ := view_after before hdone hafter
    rw [Patch.applyAll_eq 0 hagree hcover] at hobject
    exact ⟨hstate, hobject⟩

theorem downloads_delivered_two_blocks : ∃ (st : State) (dl : Download),
    st.downloads[0]? = some dl ∧ Quiescent st ∧ dl.cells.state = .complete ∧
    dl.cells.object = some ⟨octetStream, [1, 2, 3]⟩ := by
  obtain ⟨os, st, dl, hrun, hdl, -, hreports, hquiet⟩ := undisturbed_two_blocks
  exact ⟨st, dl, hdl, hquiet, ((downloads_delivered hrun).2 hquiet 0 dl hdl).2 twoBlocks _ []
    [1, 2, 3] hreports rfl nofun (by decide) (by decide)⟩

end GnunetWeb.Downloads
