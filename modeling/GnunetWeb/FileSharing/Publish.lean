import GnunetWeb.FileSharing.Download
import GnunetWeb.Library.KeyedFeeds

/-!
# Publishes

`start-publish` of `index.cljs.hl`, over that of `filesharing.cljs`.  A publish reports to its
callback, which puts the report into the channel of the publish; a loop for each publish takes
from its channel and shows the reports.  All publishes are shown in the same three cells, those
of `ui-publish`.

Proved here:

* `Handled.steps`: no report is lost, and each publish is shown in its order;
* `publishes_shown`: the cells are what the reports make of them, in some order;
* `uri_own`: with one publish at a time the URI is that of the last one;
* `uri_of_other`: a run in which it is not.
-/

namespace GnunetWeb.Publishes

open EventSystem
open Downloads (Progress)

inductive Status where
  | publishStart
  | publishProgress
  | publishCompleted
  deriving DecidableEq

structure Info where
  status : Status
  cctx : Nat
  size : Nat
  completed : Nat
  uri : Option String
  completes : uri.isSome ↔ status = .publishCompleted

/-- What `GNUNET_FS_ProgressInfo` holds about a publish. -/
structure ProgressInfo where
  status : Nat
  cctx : Nat
  size : Nat
  completed : Nat
  chkUri : String

def statusPublishStart : Nat := 0

def statusPublishProgress : Nat := 3

def statusPublishCompleted : Nat := 5

def parseProgressPublish (status : Status) (info : ProgressInfo) : Info where
  status := status
  cctx := info.cctx
  size := info.size
  completed := info.completed
  uri := if status = .publishCompleted then some info.chkUri else none
  completes := by
    split
    · next h => exact ⟨fun _ => h, fun _ => rfl⟩
    · next h => exact ⟨nofun, fun hs => absurd hs h⟩

/-- `parse-progress-info` for the reports about publishes -/
def parseProgressInfo (info : ProgressInfo) : Option Info :=
  if info.status = statusPublishStart then some (parseProgressPublish .publishStart info)
  else if info.status = statusPublishProgress then
    some (parseProgressPublish .publishProgress info)
  else if info.status = statusPublishCompleted then
    some (parseProgressPublish .publishCompleted info)
  else none

/-! ## Cells -/

inductive PublishState where
  | inactive
  | active
  | complete
  deriving DecidableEq

/-- `publish-state`, `publish-progress` and `publish-uri` of `ui-publish` -/
structure Cells where
  state : PublishState
  progress : Progress
  uri : Option String
  deriving DecidableEq

def Cells.init : Cells := ⟨.inactive, .zero, none⟩

/-- The loop body. -/
def Cells.show (cells : Cells) (info : Info) : Cells :=
  match info.status with
  | .publishStart => { cells with state := .active }
  | .publishProgress =>
    { cells with progress := if info.size = 0 then .zero else .quotient info.completed info.size }
  | .publishCompleted => { cells with state := .complete, uri := info.uri }

/-- The cells after the reports, one after the other. -/
def view (infos : List Info) : Cells := infos.foldl Cells.show .init

/-! ## The system -/

/-- `register-object` gives no key twice, so that a publish is known by its key, which is its
place in `publishes`. -/
structure State where
  publishes : List (Feed Info 1)
  cells : Cells

inductive Event where
  /-- `early` is what `GNUNET_FS_publish_start` reports before it returns -/
  | startPublish (early : List ProgressInfo)
  | progress (info : ProgressInfo)
  /-- the next block `(go (>! ch info))` of a publish begins -/
  | put (publish : Nat)
  /-- the loop of a publish is resumed -/
  | resume (publish : Nat)

/-- A publish has nothing but its feed. -/
def feeds : FeedIn (Feed Info 1) Info 1 := ⟨id, fun _ feed => feed, fun _ _ => rfl⟩

namespace State

def init : State := ⟨[], .init⟩

def startPublish (st : State) (early : List ProgressInfo) : State × List Info :=
  let key := st.publishes.length
  let infos := early.filterMap fun info => parseProgressInfo { info with cctx := key }
  ({ st with publishes := st.publishes ++ [⟨.new, infos⟩] }, infos)

/-- `progress-callback`, which fails for a callback that is not registered. -/
def progressCallback (st : State) (info : Info) : State × List Info :=
  let r := feeds.tell Info.cctx st.publishes info
  ({ st with publishes := r.1 }, r.2)

def put (st : State) (publish : Nat) : Option State :=
  (feeds.putNext st.publishes publish).map fun publishes => { st with publishes }

/-- The loop of `start-publish`, until there is nothing to take. -/
def resume (st : State) (publish : Nat) : Option State :=
  st.publishes[publish]?.bind fun feed => feed.channel.resume.map fun r =>
    { publishes := st.publishes.set publish { feed with channel := r.1 }
      cells := r.2.foldl Cells.show st.cells }

end State

/-- The outputs are what the callbacks of the publishes are called with. -/
def step (st : State) : Event → Option (State × List Info)
  | .startPublish early => some (st.startPublish early)
  | .progress info =>
    match parseProgressInfo info with
    | some info => some (st.progressCallback info)
    | none => some (st, [])
  | .put publish => (st.put publish).map fun st => (st, [])
  | .resume publish => (st.resume publish).map fun st => (st, [])

def system : EventSystem State Event Info := ⟨.init, step⟩

/-- The reports for a publish. -/
def reports (os : List Info) (publish : Nat) : List Info := valuesFor Info.cctx os publish

/-- No put is lost. -/
def Undisturbed (st : State) : Event → Prop
  | .put publish => feeds.HasRoom st.publishes publish
  | .startPublish _ | .progress _ | .resume _ => True

instance (st : State) (e : Event) : Decidable (Undisturbed st e) :=
  match e with
  | .put publish => inferInstanceAs (Decidable (feeds.HasRoom st.publishes publish))
  | .startPublish _ | .progress _ | .resume _ => .isTrue trivial

/-! ## Every report is shown -/

theorem cctx_of_parseProgressInfo {info : ProgressInfo} {parsed : Info}
    (h : parseProgressInfo info = some parsed) : parsed.cctx = info.cctx := by
  rw [parseProgressInfo] at h
  split_ifs at h
  all_goals
    cases h
    rfl

/-- The cells show `handled`, and the feeds have the rest of the reports. -/
structure Handled (os : List Info) (st : State) (handled : List Info) : Prop where
  cells : st.cells = view handled
  accounts : feeds.Accounts Info.cctx (fun key _ infos => infos = reports handled key) os
    st.publishes
  known : ∀ info ∈ handled, info.cctx < st.publishes.length

namespace Handled

variable {os os' handled : List Info} {st st' : State}

theorem init : Handled [] .init [] where
  cells := rfl
  accounts := .nil
  known _ h := nomatch h

theorem feeds (h : Handled os st handled) {key : Nat} {feed : Feed Info 1}
    (hfeed : st.publishes[key]? = some feed) :
    reports handled key ++ feed.pending = reports os key := by
  obtain ⟨_, rfl, hbalance⟩ := h.accounts.taken key feed hfeed
  exact hbalance

theorem startPublish (h : Handled os st handled) (early : List ProgressInfo) :
    Handled (os ++ (st.startPublish early).2) (st.startPublish early).1 handled where
  cells := h.cells
  accounts := by
    refine h.accounts.add (fun info hinfo => ?_) rfl ?_
    · obtain ⟨r, -, hr⟩ := List.mem_filterMap.mp hinfo
      exact cctx_of_parseProgressInfo hr
    · exact (valuesFor_other fun info hi => Nat.ne_of_lt (h.known info hi)).symm
  known info hinfo := by
    rw [State.startPublish, List.length_append]
    exact Nat.lt_succ_of_lt (h.known info hinfo)

theorem progressCallback (h : Handled os st handled) (info : Info) :
    Handled (os ++ (st.progressCallback info).2) (st.progressCallback info).1 handled where
  cells := h.cells
  accounts := h.accounts.tell info fun _ _ hinfos => hinfos
  known i hi := (Publishes.feeds.length_tell Info.cctx st.publishes info).symm ▸ h.known i hi

theorem put (h : Handled os st handled) {publish : Nat} {publishes : List (Feed Info 1)}
    (hput : Publishes.feeds.putNext st.publishes publish = some publishes)
    (hroom : Publishes.feeds.HasRoom st.publishes publish) :
    Handled os { st with publishes } handled where
  cells := h.cells
  accounts := h.accounts.putNext hput hroom fun _ _ _ hinfos _ => hinfos
  known i hi := (FeedIn.length_putNext hput).symm ▸ h.known i hi

/-- The loop of a publish takes all that is in its channel. -/
theorem resume (h : Handled os st handled) {publish : Nat} (hst : st.resume publish = some st') :
    ∃ infos, Handled os st' (handled ++ infos) := by
  obtain ⟨feed, hfeed, hst⟩ := Option.bind_eq_some_iff.mp hst
  obtain ⟨⟨channel, infos⟩, hr, rfl⟩ := Option.map_eq_some_iff.mp hst
  obtain ⟨-, hnone, rfl⟩ := Channel.of_resume hr
  have hinfos : ∀ info ∈ feed.channel.inFlight, info.cctx = publish := fun info hinfo =>
    h.accounts.key_pending hfeed info (List.mem_append_left _ hinfo)
  have hpending : feed.channel.inFlight ++ { feed with channel }.pending = feed.pending := by
    rw [Feed.pending, hnone]
    rfl
  refine ⟨feed.channel.inFlight, ?_, ?_, fun info hinfo => ?_⟩
  · rw [h.cells, view, view, List.foldl_append]
  · refine h.accounts.take hfeed (fun infos hi => ⟨feed.channel.inFlight, ?_, hpending⟩)
      fun key _ infos hne _ hi => ?_
    · rw [hi, reports, reports, valuesFor_append, valuesFor_own hinfos]
    · have hother : valuesFor Info.cctx feed.channel.inFlight key = [] :=
        valuesFor_other fun info hinfo => hinfos info hinfo ▸ Ne.symm hne
      rw [hi, reports, reports, valuesFor_append, hother, List.append_nil]
  · rw [List.length_set]
    obtain hinfo | hinfo := List.mem_append.mp hinfo
    · exact h.known info hinfo
    · exact hinfos info hinfo ▸ (List.getElem?_eq_some_iff.mp hfeed).1

/-- **No report is lost**: the step takes the next reports of one publish, or none. -/
theorem steps {e : Event} (h : Handled os st handled) (hok : Undisturbed st e)
    (hst : step st e = some (st', os')) : ∃ infos, Handled (os ++ os') st' (handled ++ infos) := by
  cases e with
  | startPublish early =>
    cases hst
    exact ⟨[], (List.append_nil handled).symm ▸ h.startPublish early⟩
  | progress info =>
    refine ⟨[], ?_⟩
    rw [List.append_nil]
    rw [step] at hst
    split at hst
    · next info _ =>
      have hcallback := h.progressCallback info
      rwa [Option.some.inj hst] at hcallback
    · cases hst
      rwa [List.append_nil]
  | put publish =>
    obtain ⟨_, hput, hst⟩ := Option.map_eq_some_iff.mp hst
    cases hst
    obtain ⟨publishes, hnext, rfl⟩ := Option.map_eq_some_iff.mp hput
    refine ⟨[], ?_⟩
    rw [List.append_nil, List.append_nil]
    exact h.put hnext hok
  | resume publish =>
    obtain ⟨_, hresume, hst⟩ := Option.map_eq_some_iff.mp hst
    cases hst
    rw [List.append_nil]
    exact h.resume hresume

end Handled

theorem handled_of_run {es : List Event} {os : List Info} {st : State}
    (h : system.Run Undisturbed es os st) : ∃ handled, Handled os st handled :=
  h.history (P := fun os st => ∃ handled, Handled os st handled)
    (fun _ _ _ _ _ ⟨_, hhandled⟩ hok hst => (hhandled.steps hok hst).imp' _ fun _ h => h)
    ⟨[], .init⟩

/-! ## Steps that are left -/

/-- The steps that no report begins. -/
def Internal (_ : State) : Event → Prop
  | .put _ | .resume _ => True
  | .startPublish _ | .progress _ => False

def Quiescent (st : State) : Prop := ∀ key, st.put key = none ∧ st.resume key = none

def State.weight (st : State) : Nat := (st.publishes.map Feed.weight).sum

/-- **Each step of the system leaves fewer.** -/
theorem weight_step {e : Event} {st st' : State} {os : List Info} (he : Internal st e)
    (hst : step st e = some (st', os)) : st'.weight < st.weight := by
  cases e with
  | startPublish early => exact he.elim
  | progress info => exact he.elim
  | put publish =>
    obtain ⟨_, hput, hst⟩ := Option.map_eq_some_iff.mp hst
    cases hst
    obtain ⟨publishes, hnext, rfl⟩ := Option.map_eq_some_iff.mp hput
    exact FeedIn.weight_putNext (L := feeds) (w := Feed.weight) (fun _ _ => Feed.weight_put) hnext
  | resume publish =>
    obtain ⟨_, hresume, hst⟩ := Option.map_eq_some_iff.mp hst
    cases hst
    obtain ⟨feed, hfeed, hresume⟩ := Option.bind_eq_some_iff.mp hresume
    obtain ⟨⟨channel, infos⟩, hr, rfl⟩ := Option.map_eq_some_iff.mp hresume
    exact sum_set_lt (n := 0) Feed.weight hfeed (Feed.weight_resume hr)

/-- A feed of a quiescent state has nothing pending. -/
theorem Quiescent.pending {st : State} (h : Quiescent st) {key : Nat} {feed : Feed Info 1}
    (hfeed : st.publishes[key]? = some feed) : feed.pending = [] := by
  obtain ⟨hput, hresume⟩ := h key
  rw [State.put, Option.map_eq_none_iff] at hput
  rw [State.resume, hfeed, Option.bind_some, Option.map_eq_none_iff] at hresume
  refine Feed.pending_of_idle (FeedIn.putNext_none hput hfeed) ?_
  by_contra hruns
  rw [Channel.resume, if_pos (by simpa using hruns)] at hresume
  cases hresume

variable {es : List Event} {os : List Info} {st : State}

/-- **The reports of all publishes are shown**, in some order that is that of each publish.
There are at most `st.weight` steps until a report or another publish begins, and when there
is none left no report is missing. -/
theorem publishes_shown (h : system.Run Undisturbed es os st) :
    (∃ handled, st.cells = view handled ∧
      (∀ key, reports handled key <+: reports os key) ∧
      (Quiescent st → ∀ key, reports handled key = reports os key)) ∧
    ∀ es' os' st', system.Steps Internal st es' os' st' → es'.length ≤ st.weight := by
  constructor
  · obtain ⟨handled, hhandled⟩ := handled_of_run h
    have hunknown : ∀ key, st.publishes[key]? = none → reports handled key = reports os key := by
      intro key hkey
      have hle := List.getElem?_eq_none_iff.mp hkey
      have hnone : ∀ l : List Info, (∀ info ∈ l, info.cctx < st.publishes.length) →
          reports l key = [] := fun l hl =>
        valuesFor_other fun info hi => Nat.ne_of_lt (Nat.lt_of_lt_of_le (hl info hi) hle)
      rw [hnone handled hhandled.known, hnone os hhandled.accounts.known]
    refine ⟨handled, hhandled.cells, fun key => ?_, fun hquiet key => ?_⟩
    · cases hfeed : st.publishes[key]? with
      | none => exact hunknown key hfeed ▸ List.prefix_rfl
      | some feed => exact ⟨feed.pending, hhandled.feeds hfeed⟩
    · cases hfeed : st.publishes[key]? with
      | none => exact hunknown key hfeed
      | some feed =>
        rw [← hhandled.feeds hfeed, hquiet.pending hfeed, List.append_nil]
  · intro es' os' st' hsteps
    have := hsteps.length_le State.weight fun _ _ _ _ he hst => weight_step he hst
    omega

/-! ## One publish at a time -/

/-- A publish is started when the reports of the others have been shown, and these make no
more. -/
def OneAtATime (st : State) : Event → Prop
  | .startPublish _ => ∀ feed ∈ st.publishes, feed.pending = []
  | .progress info => info.cctx + 1 = st.publishes.length
  | .put _ | .resume _ => True

/-- The reports that are shown are those of earlier publishes, and then those of the last. -/
structure Alone (os : List Info) (st : State) (earlier own : List Info) : Prop where
  handled : Handled os st (earlier ++ own)
  earlier : ∀ info ∈ earlier, info.cctx + 1 < st.publishes.length
  own : ∀ info ∈ own, info.cctx + 1 = st.publishes.length
  quiet : ∀ key feed, st.publishes[key]? = some feed → key + 1 < st.publishes.length →
    feed.pending = []

namespace Alone

variable {os os' earlier own infos : List Info} {st st' : State}

/-- A step that starts no publish, and reports for none but the last one. -/
theorem steps (h : Alone os st earlier own) (hlen : st'.publishes.length = st.publishes.length)
    (hos : ∀ info ∈ os', info.cctx + 1 = st.publishes.length)
    (hhandled : Handled (os ++ os') st' (earlier ++ own ++ infos)) :
    Alone (os ++ os') st' earlier (own ++ infos) := by
  have hnone : ∀ key feed', st'.publishes[key]? = some feed' → key + 1 < st.publishes.length →
      reports infos key = [] ∧ feed'.pending = [] := by
    intro key feed' hfeed' hkey
    obtain ⟨feed, hfeed⟩ : ∃ feed, st.publishes[key]? = some feed :=
      ⟨_, List.getElem?_eq_getElem (Nat.lt_of_succ_lt hkey)⟩
    have hbefore := h.handled.feeds hfeed
    have hafter := hhandled.feeds hfeed'
    have hother : valuesFor Info.cctx os' key = [] := valuesFor_other fun info hi => by
      have := hos info hi
      omega
    rw [h.quiet key feed hfeed hkey, List.append_nil, reports, reports] at hbefore
    rw [reports, reports, valuesFor_append infos, valuesFor_append os', hbefore, hother,
      List.append_assoc, List.append_right_inj] at hafter
    exact List.append_eq_nil_iff.mp hafter
  refine ⟨by rwa [← List.append_assoc], hlen ▸ h.earlier, ?_, fun key feed hfeed hkey => ?_⟩
  · refine List.forall_mem_append.mpr ⟨hlen ▸ h.own, fun info hi => ?_⟩
    have hlt : info.cctx < st'.publishes.length :=
      hhandled.known info (List.mem_append_right _ hi)
    by_contra hne
    obtain ⟨feed, hfeed⟩ : ∃ feed, st'.publishes[info.cctx]? = some feed :=
      ⟨_, List.getElem?_eq_getElem hlt⟩
    have hreports := (hnone info.cctx feed hfeed (by omega)).1
    have hmem : info ∈ reports infos info.cctx := List.mem_filter.mpr ⟨hi, by simp⟩
    rw [hreports] at hmem
    cases hmem
  · exact (hnone key feed hfeed (hlen ▸ hkey)).2

/-- A new publish is the last one. -/
theorem startPublish (h : Alone os st earlier own)
    (hquiet : ∀ feed ∈ st.publishes, feed.pending = []) (early : List ProgressInfo) :
    Alone (os ++ (st.startPublish early).2) (st.startPublish early).1 (earlier ++ own) [] := by
  have hlen : (st.startPublish early).1.publishes.length = st.publishes.length + 1 := by
    rw [State.startPublish, List.length_append, List.length_singleton]
  refine ⟨?_, fun info hi => ?_, nofun, fun key feed hfeed hkey => ?_⟩
  · rw [List.append_nil]
    exact h.handled.startPublish early
  · have := h.handled.known info hi
    omega
  · have hlt : key < st.publishes.length := by omega
    exact hquiet feed (List.mem_of_getElem? ((List.getElem?_append_left hlt).symm.trans hfeed))

/-- What a step does to the publishes that is no start. -/
theorem step_own {e : Event} (hok : OneAtATime st e) (he : ∀ early, e ≠ .startPublish early)
    (hst : step st e = some (st', os')) : st'.publishes.length = st.publishes.length ∧
      ∀ info ∈ os', info.cctx + 1 = st.publishes.length := by
  cases e with
  | startPublish early => exact absurd rfl (he early)
  | progress info =>
    rw [step] at hst
    split at hst
    · next parsed hparsed =>
      cases hst
      refine ⟨feeds.length_tell Info.cctx st.publishes parsed, fun i hi => ?_⟩
      rw [FeedIn.of_mem_tell hi, cctx_of_parseProgressInfo hparsed]
      exact hok
    · cases hst
      exact ⟨rfl, nofun⟩
  | put publish =>
    obtain ⟨_, hput, hst⟩ := Option.map_eq_some_iff.mp hst
    cases hst
    obtain ⟨publishes, hnext, rfl⟩ := Option.map_eq_some_iff.mp hput
    exact ⟨FeedIn.length_putNext hnext, nofun⟩
  | resume publish =>
    obtain ⟨_, hresume, hst⟩ := Option.map_eq_some_iff.mp hst
    cases hst
    obtain ⟨feed, hfeed, hresume⟩ := Option.bind_eq_some_iff.mp hresume
    obtain ⟨r, -, rfl⟩ := Option.map_eq_some_iff.mp hresume
    exact ⟨List.length_set, nofun⟩

end Alone

/-- The allowed steps. -/
def UndisturbedAlone (st : State) (e : Event) : Prop := Undisturbed st e ∧ OneAtATime st e

theorem alone_of_run (h : system.Run UndisturbedAlone es os st) :
    ∃ earlier own, Alone os st earlier own := by
  refine h.history (P := fun os st => ∃ earlier own, Alone os st earlier own) ?_
    ⟨[], [], .init, nofun, nofun, nofun⟩
  rintro os st e st' os' ⟨earlier, own, halone⟩ ⟨hok, hone⟩ hst
  by_cases he : ∃ early, e = .startPublish early
  · obtain ⟨early, rfl⟩ := he
    cases hst
    exact ⟨_, _, halone.startPublish hone early⟩
  · obtain ⟨hlen, hos⟩ := Alone.step_own hone (fun early h => he ⟨early, h⟩) hst
    obtain ⟨infos, hhandled⟩ := halone.handled.steps hok hst
    exact ⟨_, _, halone.steps hlen hos hhandled⟩

/-- Reports after which the state is complete have set the URI. -/
theorem uri_of_complete {cells : Cells} (hcells : cells.state ≠ .complete) {infos : List Info}
    (h : (infos.foldl Cells.show cells).state = .complete) : ∃ done ∈ infos,
      done.status = .publishCompleted ∧ (infos.foldl Cells.show cells).uri = done.uri := by
  induction infos using List.reverseRecOn with
  | nil => exact absurd h hcells
  | append_singleton infos info ih =>
    rw [List.foldl_append, List.foldl_cons, List.foldl_nil] at h ⊢
    cases hs : info.status with
    | publishStart =>
      rw [Cells.show, hs] at h
      cases h
    | publishProgress =>
      rw [Cells.show, hs] at h ⊢
      obtain ⟨done, hdone, hcompleted, huri⟩ := ih h
      exact ⟨done, List.mem_append_left _ hdone, hcompleted, huri⟩
    | publishCompleted =>
      refine ⟨info, List.mem_append_right _ List.mem_cons_self, hs, ?_⟩
      rw [Cells.show, hs]

/-- **With one publish at a time the URI is its own.**  The cells are what all reports of the
earlier publishes and then some of the first reports of the last one make of them.  As soon as
the `:publish-start` of the last publish is shown, the state is complete only with the URI that
this publish has reported. -/
theorem uri_own (h : system.Run UndisturbedAlone es os st) {key : Nat}
    (hlast : key + 1 = st.publishes.length) : ∃ earlier own,
      st.cells = view (earlier ++ own) ∧
      (∀ info ∈ earlier, info.cctx < key) ∧
      (∀ key' < key, reports earlier key' = reports os key') ∧
      own <+: reports os key ∧
      (Quiescent st → own = reports os key) ∧
      ∀ start rest, own = start :: rest → start.status = .publishStart →
        st.cells.state = .complete → ∃ done ∈ rest,
          done.status = .publishCompleted ∧ st.cells.uri = done.uri := by
  obtain ⟨earlier, own, halone⟩ := alone_of_run h
  have hsplit : ∀ key', reports (earlier ++ own) key' =
      reports earlier key' ++ reports own key' := fun key' => valuesFor_append own
  have hearlier : ∀ info ∈ earlier, info.cctx < key := fun info hi => by
    have := halone.earlier info hi
    omega
  have hlater : ∀ info ∈ own, info.cctx = key := fun info hi => by
    have := halone.own info hi
    omega
  obtain ⟨feed, hfeed⟩ : ∃ feed, st.publishes[key]? = some feed :=
    ⟨_, List.getElem?_eq_getElem (hlast ▸ Nat.lt_succ_self key)⟩
  have hown : own ++ feed.pending = reports os key := by
    have hnone : reports earlier key = [] :=
      valuesFor_other fun info hi => Nat.ne_of_lt (hearlier info hi)
    rw [← halone.handled.feeds hfeed, hsplit, hnone, List.nil_append]
    exact congrArg (· ++ feed.pending) (valuesFor_own hlater).symm
  refine ⟨earlier, own, halone.handled.cells, hearlier, fun key' hkey => ?_, ⟨_, hown⟩,
    fun hquiet => ?_, ?_⟩
  · obtain ⟨feed', hfeed'⟩ : ∃ feed', st.publishes[key']? = some feed' :=
      ⟨_, List.getElem?_eq_getElem (by omega)⟩
    have hnone : reports own key' = [] :=
      valuesFor_other fun info hi => hlater info hi ▸ Nat.ne_of_gt hkey
    rw [← halone.handled.feeds hfeed', halone.quiet key' feed' hfeed' (by omega), hsplit, hnone,
      List.append_nil, List.append_nil]
  · rw [← hown, hquiet.pending hfeed, List.append_nil]
  · rintro start rest rfl hstart hcomplete
    rw [halone.handled.cells, view, List.foldl_append, List.foldl_cons] at hcomplete ⊢
    refine uri_of_complete ?_ hcomplete
    rw [Cells.show, hstart]
    exact nofun

instance (st : State) (e : Event) : Decidable (OneAtATime st e) :=
  match e with
  | .startPublish _ => inferInstanceAs (Decidable (∀ feed ∈ st.publishes, _))
  | .progress info => inferInstanceAs (Decidable (info.cctx + 1 = st.publishes.length))
  | .put _ | .resume _ => .isTrue trivial

instance (st : State) (e : Event) : Decidable (UndisturbedAlone st e) :=
  inferInstanceAs (Decidable (_ ∧ _))

/-- Two files one after the other. -/
theorem undisturbed_two_files : ∃ os st, system.Run UndisturbedAlone
      [.startPublish [⟨0, 0, 3, 0, ""⟩], .put 0, .resume 0, .progress ⟨5, 0, 3, 3, "A"⟩, .put 0,
        .resume 0, .startPublish [⟨0, 0, 4, 0, ""⟩], .put 1, .resume 1, .progress ⟨3, 1, 4, 1, ""⟩,
        .put 1, .progress ⟨5, 1, 4, 4, "B"⟩, .put 1, .resume 1] os st ∧
    Quiescent st ∧ st.publishes.length = 2 ∧
    st.cells = ⟨.complete, .quotient 1 4, some "B"⟩ ∧
    reports os 1 = [parseProgressPublish .publishStart ⟨0, 1, 4, 0, ""⟩,
      parseProgressPublish .publishProgress ⟨3, 1, 4, 1, ""⟩,
      parseProgressPublish .publishCompleted ⟨5, 1, 4, 4, "B"⟩] := by
  refine ⟨_, _, .of_restrict (Steps.of_exec (fun _ _ => trivial) rfl), fun key => ?_, rfl, rfl, rfl⟩
  match key with
  | 0 => exact ⟨rfl, rfl⟩
  | 1 => exact ⟨rfl, rfl⟩
  | _ + 2 => exact ⟨rfl, rfl⟩

theorem publishes_shown_two : ∃ (os : List Info) (st : State) (handled : List Info),
    st.cells = view handled ∧
    st.cells = ⟨.complete, .quotient 1 4, some "B"⟩ ∧ (reports os 1).length = 3 ∧
    reports handled 1 = reports os 1 := by
  obtain ⟨os, st, hrun, hquiet, -, hcells, hreports⟩ := undisturbed_two_files
  obtain ⟨⟨handled, hview, -, hall⟩, -⟩ := publishes_shown (hrun.mono fun _ _ h => h.1)
  exact ⟨os, st, handled, hview, hcells, hreports ▸ rfl, hall hquiet 1⟩

theorem uri_own_two : ∃ (os : List Info) (st : State) (earlier own : List Info) (done : Info),
    st.cells = view (earlier ++ own) ∧ reports earlier 0 = reports os 0 ∧ own.length = 3 ∧
    st.cells.state = .complete ∧ done.status = .publishCompleted ∧ st.cells.uri = done.uri ∧
    done.cctx = 1 := by
  obtain ⟨os, st, hrun, hquiet, hlen, hcells, hreports⟩ := undisturbed_two_files
  obtain ⟨earlier, own, hview, -, hbefore, -, hall, huri⟩ :=
    uri_own hrun (show 1 + 1 = st.publishes.length from hlen.symm)
  have hstate : st.cells.state = .complete := congrArg Cells.state hcells
  obtain ⟨done, hdone, hcompleted, he⟩ := huri _ _ ((hall hquiet).trans hreports) rfl hstate
  refine ⟨os, st, earlier, own, done, hview, hbefore 0 Nat.one_pos, ?_, hstate, hcompleted, he,
    ?_⟩
  · rw [hall hquiet, hreports]
    rfl
  obtain rfl | hdone := List.mem_cons.mp hdone
  · rfl
  · rw [List.mem_singleton.mp hdone]
    rfl

/-- A run in which it is not: the second publish has only begun. -/
theorem uri_of_other : ∃ os st, system.Run Undisturbed
      [.startPublish [⟨0, 0, 3, 0, ""⟩], .startPublish [⟨0, 0, 4, 0, ""⟩], .put 0, .put 1,
        .resume 0, .resume 1, .progress ⟨5, 0, 3, 3, "A"⟩, .put 0, .resume 0] os st ∧
    Quiescent st ∧ st.cells = ⟨.complete, .zero, some "A"⟩ ∧
    reports os 1 = [parseProgressPublish .publishStart ⟨0, 1, 4, 0, ""⟩] := by
  refine ⟨_, _, .of_restrict (Steps.of_exec (fun _ _ => trivial) rfl), fun key => ?_, rfl, rfl⟩
  match key with
  | 0 => exact ⟨rfl, rfl⟩
  | 1 => exact ⟨rfl, rfl⟩
  | _ + 2 => exact ⟨rfl, rfl⟩

end GnunetWeb.Publishes
