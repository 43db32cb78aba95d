import GnunetWeb.FileStorage
import GnunetWeb.Library.EventSystem
import GnunetWeb.Library.KeyedFeeds

/-!
# Downloads

`start-download` of `index.cljs.hl`, over those of `filesharing.cljs` and `filestorage.cljs`.
A download reports to its callback, which puts the report into the channel of the download.  A
loop for each download takes from its channel: it writes the blocks of the file, and shows the
progress in its cells.  When the download is completed, it waits for a URL of the file.  The
transactions of all downloads run one at a time, in the order in which they were opened.

Proved here:

* `view_object`, `view_after`: what the reports make of the cells, one after the other;
* `Job.perform_commits`: what a transaction does is what its script commits;
* `Taken.put`, `Taken.resume`, `Follows.receive`: the steps of a download;
* `Taken.frame`, `Follows.perform_other`: those of the others.
-/

namespace GnunetWeb.Downloads

open EventSystem FileStorage IndexedDB IndexedDB.Transaction

inductive Status where
  | downloadStart
  | downloadProgress
  | downloadCompleted
  | downloadActive
  | downloadInactive
  deriving DecidableEq

/-- What `parse-progress-download` adds to a `:download-progress`. -/
structure Block where
  depth : Nat
  patch : Patch UInt8

structure Info where
  status : Status
  cctx : Nat
  size : Nat
  completed : Nat
  block : Option Block
  progress : block.isSome → status = .downloadProgress

/-- What `GNUNET_FS_ProgressInfo` holds about a download; `data` is a place in the heap. -/
structure ProgressInfo where
  status : Nat
  cctx : Nat
  size : Nat
  completed : Nat
  data : Nat
  offset : Nat
  dataLen : Nat
  depth : Nat

def statusDownloadStart : Nat := 7

def statusDownloadProgress : Nat := 10

def statusDownloadCompleted : Nat := 12

def statusDownloadActive : Nat := 14

def statusDownloadInactive : Nat := 15

/-- `parse-progress-download` for a status without a block -/
def parseProgressDownload (status : Status) (info : ProgressInfo) : Info :=
  ⟨status, info.cctx, info.size, info.completed, none, nofun⟩

/-- `parse-progress-download` for `:download-progress`, which copies the data out of the heap. -/
def parseDownloadProgress (heap : List UInt8) (info : ProgressInfo) : Info :=
  ⟨.downloadProgress, info.cctx, info.size, info.completed,
    some ⟨info.depth, ⟨info.offset, (heap.drop info.data).take info.dataLen⟩⟩, fun _ => rfl⟩

/-- `parse-progress-info` for the reports about downloads -/
def parseProgressInfo (heap : List UInt8) (info : ProgressInfo) : Option Info :=
  if info.status = statusDownloadStart then some (parseProgressDownload .downloadStart info)
  else if info.status = statusDownloadProgress then some (parseDownloadProgress heap info)
  else if info.status = statusDownloadCompleted then
    some (parseProgressDownload .downloadCompleted info)
  else if info.status = statusDownloadActive then some (parseProgressDownload .downloadActive info)
  else if info.status = statusDownloadInactive then
    some (parseProgressDownload .downloadInactive info)
  else none

/-- What the loop writes of a report. -/
def Info.written (info : Info) : Option (Patch UInt8) :=
  info.block.bind fun block => if block.depth = 0 then some block.patch else none

def blocks (infos : List Info) : List (Patch UInt8) := infos.filterMap Info.written

/-! ## Cells -/

inductive DownloadState where
  | inactive
  | downloading
  | complete
  deriving DecidableEq

/-- What `progress-cell` holds: zero, or `(/ completed size)`. -/
inductive Progress where
  | zero
  | quotient (completed size : Nat)
  deriving DecidableEq

/-- What one call of `start-download` has put into its cells.  `object` is the blob that the URL
in `object-cell` stands for. -/
structure Cells where
  state : DownloadState
  progress : Progress
  object : Option Blob
  deriving DecidableEq

def Cells.init : Cells := ⟨.inactive, .zero, none⟩

def Info.shown (info : Info) : Progress :=
  if info.size = 0 then .zero else .quotient info.completed info.size

/-- The loop body for a report that is no `:download-completed`, apart from the write. -/
def Cells.show (cells : Cells) (info : Info) : Cells :=
  { cells with
    state := if info.status = .downloadStart then .downloading else cells.state
    progress := info.shown }

/-- The rest of the loop body for a `:download-completed`. -/
def Cells.finish (object : Option Blob) (info : Info) : Cells := ⟨.complete, info.shown, object⟩

/-! ## The go block -/

/-- Where the go block of `start-download` is. -/
inductive GoBlock where
  /-- it waits for `file-ch` -/
  | opening
  | opened (handle : Option Nat)
  /-- it waits for the channel of the download -/
  | looping (handle : Option Nat)
  /-- it waits for the channel of `create-object-url` -/
  | linking (handle : Nat) (info : Info)
  | linked (handle : Nat) (info : Info) (object : Option Blob)
  /-- an exception has ended it -/
  | failed

/-- The transactions, with the download that has opened them. -/
inductive Job where
  | create (download : Nat)
  | write (download handle : Nat) (patch : Patch UInt8)
  | createObjectUrl (download handle : Nat)

def Job.download : Job → Nat
  | create download | write download _ _ | createObjectUrl download _ => download

def octetStream : String := "application/octet-stream"

def Job.script : Job → Script Blob Call Unit
  | create _ => FileStorage.create octetStream
  | write _ handle patch => FileStorage.write handle patch.offset patch.data
  | createObjectUrl _ handle => FileStorage.createObjectUrl handle

/-- What a transaction makes of the files, and what goes into the channel of its call.  A blob
that is not there throws. -/
def Job.perform (files : ObjectStore Blob) : Job → ObjectStore Blob × List Call
  | create _ =>
    if files.generator ≤ maxGenerated then
      (files.add (newBlob octetStream []), [.handle files.generator, .close])
    else (files, [.close])
  | write _ handle patch =>
    match files.get handle with
    | some blob => (files.put handle (writtenBlob blob patch.offset patch.data), [])
    | none => (files, [])
  | createObjectUrl _ handle =>
    match files.get handle with
    | some blob => (files, [.objectUrl blob, .close])
    | none => (files, [])

/-- What goes into the channel of a call whose request fails: only `create` closes it. -/
def Job.fail : Job → List Call
  | create _ => [.close]
  | write _ _ _ | createObjectUrl _ _ => []

/-- The go block gets what is first in the channel that it waits for. -/
def GoBlock.receive : GoBlock → List Call → GoBlock
  | opening, .handle k :: _ => opened (some k)
  | opening, .close :: _ => opened none
  | linking k info, .objectUrl blob :: _ => linked k info (some blob)
  | linking k info, .close :: _ => linked k info none
  | block, _ => block

structure Download where
  feed : Feed Info 1
  block : GoBlock
  cells : Cells

/-- The reports at which the loop stops: it waits for a URL, or a call without a handle
throws. -/
def stops (handle : Option Nat) (info : Info) : Bool :=
  info.status = .downloadCompleted || (handle.isNone && info.written.isSome)

namespace Download

/-- The loop of the go block, until there is nothing to take or it stops. -/
def loop (dl : Download) (key : Nat) (handle : Option Nat) : Option (Download × List Job) :=
  (dl.feed.channel.resumeUntil (stops handle)).map fun (channel, infos, stop) =>
    let feed := { dl.feed with channel }
    let cells := infos.foldl Cells.show dl.cells
    let writes := handle.toList.flatMap fun k => (blocks infos).map (.write key k)
    match stop, handle with
    | none, handle => (⟨feed, .looping handle, cells⟩, writes)
    | some info, some k => (⟨feed, .linking k info, cells⟩, writes ++ [.createObjectUrl key k])
    | some _, none => (⟨feed, .failed, cells⟩, writes)

def resume (dl : Download) (key : Nat) : Option (Download × List Job) :=
  match dl.block with
  | .opened handle | .looping handle => dl.loop key handle
  | .linked k info object => { dl with cells := .finish object info }.loop key (some k)
  | .opening | .linking _ _ | .failed => none

end Download

/-! ## The system -/

/-- `register-object` gives no key twice, so that a download is known by its key, which is its
place in `downloads`.  `jobs` are the transactions that wait for their turn. -/
structure State where
  downloads : List Download
  jobs : List Job
  files : ObjectStore Blob

inductive Event where
  /-- `early` is what `GNUNET_FS_download_start_simple` reports before it returns -/
  | startDownload (early : List (List UInt8 × ProgressInfo))
  | progress (heap : List UInt8) (info : ProgressInfo)
  /-- the next block `(go (>! ch info))` of a download begins -/
  | put (download : Nat)
  /-- the go block of a download is resumed -/
  | resume (download : Nat)
  | transact
  /-- a request of the next transaction fails -/
  | fail

def feeds : FeedIn Download Info 1 :=
  ⟨Download.feed, fun dl feed => { dl with feed }, fun _ _ => rfl⟩

namespace State

def init (files : ObjectStore Blob) : State := ⟨[], [], files⟩

def startDownload (st : State) (early : List (List UInt8 × ProgressInfo)) : State × List Info :=
  let key := st.downloads.length
  let infos := early.filterMap fun r => parseProgressInfo r.1 { r.2 with cctx := key }
  let download : Download := ⟨⟨.new, infos⟩, .opening, .init⟩
  ({ st with downloads := st.downloads ++ [download], jobs := st.jobs ++ [.create key] }, infos)

/-- `progress-callback`, which fails for a callback that is not registered. -/
def progressCallback (st : State) (info : Info) : State × List Info :=
  let r := feeds.tell Info.cctx st.downloads info
  ({ st with downloads := r.1 }, r.2)

def put (st : State) (download : Nat) : Option State :=
  (feeds.putNext st.downloads download).map fun downloads => { st with downloads }

def resume (st : State) (download : Nat) : Option State :=
  st.downloads[download]?.bind fun dl => (dl.resume download).map fun r =>
    { st with downloads := st.downloads.set download r.1, jobs := st.jobs ++ r.2 }

/-- The transaction of a call has ended. -/
def finish (st : State) (job : Job) (r : ObjectStore Blob × List Call) : State :=
  { st with
    downloads := st.downloads.modify job.download fun dl =>
      { dl with block := dl.block.receive r.2 }
    files := r.1 }

def transact (st : State) : Option State :=
  match st.jobs with
  | [] => none
  | job :: jobs => some ({ st with jobs }.finish job (job.perform st.files))

def fail (st : State) : Option State :=
  match st.jobs with
  | [] => none
  | job :: jobs => some ({ st with jobs }.finish job (st.files, job.fail))

end State

/-- The outputs are what the callbacks of the downloads are called with. -/
def step (st : State) : Event → Option (State × List Info)
  | .startDownload early => some (st.startDownload early)
  | .progress heap info =>
    match parseProgressInfo heap info with
    | some info => some (st.progressCallback info)
    | none => some (st, [])
  | .put download => (st.put download).map fun st => (st, [])
  | .resume download => (st.resume download).map fun st => (st, [])
  | .transact => st.transact.map fun st => (st, [])
  | .fail => st.fail.map fun st => (st, [])

/-- What earlier visits have left is in `files`. -/
def system (files : ObjectStore Blob) : EventSystem State Event Info := ⟨.init files, step⟩

/-! ## What the reports make of the cells -/

/-- The reports for a download. -/
def reports (os : List Info) (download : Nat) : List Info := valuesFor Info.cctx os download

/-- The cells, and the blocks that have come so far. -/
structure Shown where
  cells : Cells
  written : List (Patch UInt8)

/-- One report, when its block is written and its URL is made at once. -/
def Shown.next (s : Shown) (info : Info) : Shown where
  cells :=
    if info.status = .downloadCompleted then
      .finish (some ⟨octetStream, Patch.applyAll 0 s.written⟩) info
    else s.cells.show info
  written := s.written ++ info.written.toList

/-- The cells after the reports, one after the other. -/
def view (infos : List Info) : Cells := (infos.foldl Shown.next ⟨.init, []⟩).cells

theorem newBlob_octetStream (bytes : List UInt8) :
    newBlob octetStream bytes = ⟨octetStream, bytes⟩ :=
  congrArg (Blob.mk · bytes) (show normalizeType octetStream = octetStream by decide)

theorem blocks_append (infos infos' : List Info) :
    blocks (infos ++ infos') = blocks infos ++ blocks infos' := List.filterMap_append

theorem written_of_completed {info : Info} (h : info.status = .downloadCompleted) :
    info.written = none := by
  cases hb : info.block with
  | none => rw [Info.written, hb, Option.bind_none]
  | some block => exact absurd (h.symm.trans (info.progress (by rw [hb]; rfl))) (by decide)

theorem blocks_completed {info : Info} (h : info.status = .downloadCompleted) :
    blocks [info] = [] := by
  simp [blocks, written_of_completed h]

theorem written_foldl (infos : List Info) (s : Shown) :
    (infos.foldl Shown.next s).written = s.written ++ blocks infos := by
  induction infos generalizing s with
  | nil => exact (List.append_nil _).symm
  | cons info infos ih =>
    rw [List.foldl_cons, ih, Shown.next, List.append_assoc]
    cases h : info.written with
    | none => simp [blocks, h]
    | some patch => simp [blocks, h]

theorem view_show {infos : List Info} (h : ∀ info ∈ infos, info.status ≠ .downloadCompleted)
    (taken : List Info) : view (taken ++ infos) = infos.foldl Cells.show (view taken) := by
  rw [view, view, List.foldl_append]
  generalize taken.foldl Shown.next ⟨.init, []⟩ = s
  induction infos generalizing s with
  | nil => rfl
  | cons info infos ih =>
    rw [List.foldl_cons, List.foldl_cons, ih fun i hi => h i (List.mem_cons_of_mem _ hi),
      Shown.next, if_neg (h info List.mem_cons_self)]

theorem view_finish {info : Info} (h : info.status = .downloadCompleted) (taken : List Info) :
    view (taken ++ [info]) =
      .finish (some ⟨octetStream, Patch.applyAll 0 (blocks taken)⟩) info := by
  rw [view, List.foldl_append, List.foldl_cons, List.foldl_nil, Shown.next, if_pos h,
    written_foldl]
  rfl

/-- The object is made of the blocks before the last `:download-completed`. -/
theorem view_object {infos : List Info} {blob : Blob} (h : (view infos).object = some blob) :
    ∃ before info after, infos = before ++ info :: after ∧ info.status = .downloadCompleted ∧
      blob = ⟨octetStream, Patch.applyAll 0 (blocks before)⟩ := by
  induction infos using List.reverseRecOn with
  | nil => cases h
  | append_singleton infos info ih =>
    by_cases hc : info.status = .downloadCompleted
    · rw [view_finish hc] at h
      exact ⟨infos, info, [], rfl, hc, (Option.some.inj h).symm⟩
    · rw [view_show fun i hi => by rwa [List.mem_singleton.mp hi]] at h
      obtain ⟨before, done, after, rfl, hdone, hblob⟩ := ih h
      exact ⟨before, done, after ++ [info], by simp, hdone, hblob⟩

/-- Neither the state nor the object changes after the last `:download-completed`. -/
theorem view_after (before : List Info) {after : List Info} {done : Info}
    (hdone : done.status = .downloadCompleted)
    (hafter : ∀ info ∈ after, info.status ≠ .downloadCompleted ∧ info.status ≠ .downloadStart) :
    (view (before ++ done :: after)).state = .complete ∧
      (view (before ++ done :: after)).object =
        some ⟨octetStream, Patch.applyAll 0 (blocks before)⟩ := by
  rw [List.append_cons, view_show fun i hi => (hafter i hi).1, view_finish hdone]
  have hkeep : ∀ infos : List Info, (∀ info ∈ infos, info.status ≠ .downloadStart) →
      ∀ cells : Cells, (infos.foldl Cells.show cells).state = cells.state ∧
        (infos.foldl Cells.show cells).object = cells.object := by
    intro infos hinfos
    induction infos with
    | nil => exact fun cells => ⟨rfl, rfl⟩
    | cons info infos ih =>
      intro cells
      obtain ⟨hstate, hobject⟩ := ih (fun i hi => hinfos i (List.mem_cons_of_mem _ hi))
        (cells.show info)
      refine ⟨hstate.trans ?_, hobject⟩
      rw [Cells.show, if_neg (hinfos info List.mem_cons_self)]
  exact hkeep after (fun i hi => (hafter i hi).2) _

/-! ## Transactions -/

/-- The request that a transaction begins with finds what it needs. -/
def Job.Succeeds (files : ObjectStore Blob) : Job → Prop
  | create _ => files.generator ≤ maxGenerated
  | write _ handle _ | createObjectUrl _ handle => (files.get handle).isSome

/-- **What a transaction does is what its script commits.** -/
theorem Job.perform_commits {answer : Call → Int} {files : ObjectStore Blob} {job : Job}
    (h : job.Succeeds files) : Commits answer () files job.script (job.perform files).2
      (job.perform files).1 := by
  cases job with
  | create key =>
    have hroom : files.generator ≤ maxGenerated := h
    rw [Job.perform, if_pos hroom]
    exact create_commits hroom octetStream
  | write key handle patch =>
    obtain ⟨blob, hblob⟩ := Option.isSome_iff_exists.mp h
    rw [Job.perform, hblob]
    exact write_commits hblob patch.offset patch.data
  | createObjectUrl key handle =>
    obtain ⟨blob, hblob⟩ := Option.isSome_iff_exists.mp h
    rw [Job.perform, hblob]
    exact createObjectUrl_commits hblob

/-- The handle that a go block holds. -/
def GoBlock.handle : GoBlock → Option Nat
  | opened handle | looping handle => handle
  | linking handle _ | linked handle _ _ => some handle
  | opening | failed => none

/-- The report that a go block has taken and not dealt with. -/
def GoBlock.stopped : GoBlock → List Info
  | linking _ info | linked _ info _ => [info]
  | opening | opened _ | looping _ | failed => []

theorem GoBlock.stopped_receive (block : GoBlock) (calls : List Call) :
    (block.receive calls).stopped = block.stopped := by
  rw [receive.eq_def]
  split
  all_goals rfl

theorem GoBlock.handle_receive (block : GoBlock) (calls : List Call) :
    (block.receive calls).handle = block.handle ∨ block = .opening := by
  cases block with
  | opening => exact .inr rfl
  | linking k info =>
    refine .inl ?_
    cases calls with
    | nil => rfl
    | cons call calls =>
      cases call with
      | handle k => rfl
      | objectUrl blob => rfl
      | close => rfl
  | opened handle | looping handle | linked handle info object | failed => exact .inl rfl

/-- With `jobs` the transactions of a download that wait for their turn: its file has what its
loop has taken, apart from what is still to be written. -/
inductive Follows (files : ObjectStore Blob) (key : Nat) :
    GoBlock → List Job → List (Patch UInt8) → Prop
  | opening : Follows files key .opening [.create key] []
  | opened {k : Nat} (hget : files.get k = some ⟨octetStream, []⟩) :
      Follows files key (.opened (some k)) [] []
  | looping {k : Nat} {done rest : List (Patch UInt8)}
      (hget : files.get k = some ⟨octetStream, Patch.applyAll 0 done⟩) :
      Follows files key (.looping (some k)) (rest.map (.write key k)) (done ++ rest)
  | linking {k : Nat} {info : Info} {done rest : List (Patch UInt8)}
      (hget : files.get k = some ⟨octetStream, Patch.applyAll 0 done⟩) :
      Follows files key (.linking k info) (rest.map (.write key k) ++ [.createObjectUrl key k])
        (done ++ rest)
  | linked {k : Nat} {info : Info} {done : List (Patch UInt8)}
      (hget : files.get k = some ⟨octetStream, Patch.applyAll 0 done⟩) :
      Follows files key (.linked k info (some ⟨octetStream, Patch.applyAll 0 done⟩)) [] done

namespace Follows

variable {files files' : ObjectStore Blob} {key : Nat} {block : GoBlock} {jobs : List Job}
  {written : List (Patch UInt8)}

/-- The file of a handle is there. -/
theorem get (h : Follows files key block jobs written) {k : Nat} (hk : block.handle = some k) :
    ∃ blob, files.get k = some blob := by
  cases h with
  | opening => cases hk
  | opened hget | looping hget | linking hget | linked hget =>
    cases hk
    exact ⟨_, hget⟩

/-- Only the file of its handle matters. -/
theorem frame (h : Follows files key block jobs written)
    (hget : ∀ k blob, block.handle = some k → files.get k = some blob →
      files'.get k = some blob) : Follows files' key block jobs written := by
  cases h with
  | opening => exact .opening
  | opened hk => exact .opened (hget _ _ rfl hk)
  | looping hk => exact .looping (hget _ _ rfl hk)
  | linking hk => exact .linking (hget _ _ rfl hk)
  | linked hk => exact .linked (hget _ _ rfl hk)

/-- What a write makes of its file. -/
theorem get_write (key : Nat) {k : Nat} {done : List (Patch UInt8)}
    (hget : files.get k = some ⟨octetStream, Patch.applyAll 0 done⟩) (patch : Patch UInt8) :
    ((Job.write key k patch).perform files).1.get k =
        some ⟨octetStream, Patch.applyAll 0 (done ++ [patch])⟩ ∧
      ((Job.write key k patch).perform files).2 = [] := by
  rw [Job.perform, hget]
  refine ⟨?_, rfl⟩
  rw [ObjectStore.get_put, Patch.applyAll_concat, writtenBlob_eq, newBlob_octetStream]

/-- **The next transaction of a download.** -/
theorem receive {job : Job} (h : Follows files key block (job :: jobs) written)
    (hroom : ∀ key, job = .create key → files.generator ≤ maxGenerated) :
    Follows (job.perform files).1 key (block.receive (job.perform files).2) jobs written := by
  generalize hl : job :: jobs = l at h
  cases h with
  | opening =>
    cases hl
    rw [Job.perform, if_pos (hroom key rfl)]
    exact .opened (newBlob_octetStream [] ▸ files.get_add _)
  | opened => cases hl
  | @looping k done rest hget =>
    cases rest with
    | nil => cases hl
    | cons patch rest =>
      cases hl
      obtain ⟨hfile, hcalls⟩ := get_write key hget patch
      rw [hcalls, List.append_cons]
      exact .looping hfile
  | @linking k info done rest hget =>
    cases rest with
    | nil =>
      cases hl
      rw [Job.perform, hget, List.append_nil]
      exact .linked hget
    | cons patch rest =>
      cases hl
      obtain ⟨hfile, hcalls⟩ := get_write key hget patch
      rw [hcalls, List.append_cons]
      exact .linking hfile
  | linked => cases hl

/-- A transaction is about the file of its download, or about a new one. -/
theorem perform_other {job : Job} (h : Follows files key block (job :: jobs) written) {k : Nat}
    {blob : Blob} (hk : block.handle ≠ some k) (hget : files.get k = some blob) :
    (job.perform files).1.get k = some blob := by
  cases job with
  | create =>
    rw [Job.perform]
    split
    · exact ObjectStore.get_add_of_some hget _
    · exact hget
  | write key' handle patch =>
    have hhandle : block.handle = some handle := by
      generalize hl : Job.write key' handle patch :: jobs = l at h
      cases h with
      | opening => cases hl
      | opened => cases hl
      | @looping k done rest _ =>
        cases rest with
        | nil => cases hl
        | cons patch rest =>
          cases hl
          rfl
      | @linking k info done rest _ =>
        cases rest with
        | nil => cases hl
        | cons patch rest =>
          cases hl
          rfl
      | linked => cases hl
    rw [Job.perform]
    split
    · exact ObjectStore.get_put_of_some hget (fun he => hk (he ▸ hhandle)) _
    · exact hget
  | createObjectUrl key' handle =>
    rw [Job.perform]
    split
    · exact hget
    · exact hget

/-- A handle that is received is new. -/
theorem handle_receive {job : Job} (h : Follows files key block (job :: jobs) written) :
    (block.receive (job.perform files).2).handle = block.handle ∨
      (block.receive (job.perform files).2).handle = some files.generator ∨
      (block.receive (job.perform files).2).handle = none := by
  obtain he | rfl := block.handle_receive (job.perform files).2
  · exact .inl he
  · cases h with
    | opening =>
      rw [Job.perform]
      split
      · exact .inr (.inl rfl)
      · exact .inr (.inr rfl)

end Follows

/-! ## The steps of one download -/

/-- A download has taken `infos`: it shows them, apart from one at which it may have stopped,
and its file follows. -/
def Taken (files : ObjectStore Blob) (jobs : List Job) (key : Nat) (dl : Download)
    (infos : List Info) : Prop :=
  ∃ shown, infos = shown ++ dl.block.stopped ∧
    (∀ info ∈ dl.block.stopped,
      info.status = .downloadCompleted ∧ dl.feed.channel.reader.runs) ∧
    dl.cells = view shown ∧
    Follows files key dl.block (jobs.filter fun job => job.download = key) (blocks shown)

/-- What a step of a loop does that has got its handle. -/
theorem loop_cases {dl dl' : Download} {key k : Nat} {jobs : List Job}
    (h : dl.loop key (some k) = some (dl', jobs)) : ∃ channel infos,
      (∀ info ∈ infos, info.status ≠ .downloadCompleted) ∧
      dl'.cells = infos.foldl Cells.show dl.cells ∧
      dl'.feed = { dl.feed with channel } ∧ infos ++ dl'.block.stopped ++ dl'.feed.pending =
        dl.feed.pending ∧
      (∀ info ∈ dl'.block.stopped,
        info.status = .downloadCompleted ∧ dl'.feed.channel.reader.runs) ∧
      (dl'.block = .looping (some k) ∧ jobs = (blocks infos).map (.write key k) ∨
        ∃ info, dl'.block = .linking k info ∧
          jobs = (blocks infos).map (.write key k) ++ [.createObjectUrl key k]) := by
  obtain ⟨⟨channel, infos, stop⟩, hr, h⟩ := Option.map_eq_some_iff.mp h
  obtain ⟨-, hinfos, hstop⟩ := Channel.of_resumeUntil hr
  have hpending := Feed.pending_resumeUntil hr
  have hshown : ∀ info ∈ infos, info.status ≠ .downloadCompleted := fun info hinfo =>
    by simpa [stops] using hinfos info hinfo
  cases stop with
  | none =>
    cases h
    exact ⟨channel, infos, hshown, rfl, rfl, hpending, nofun, .inl ⟨rfl, by simp⟩⟩
  | some info =>
    cases h
    refine ⟨channel, infos, hshown, rfl, rfl, hpending, ?_, .inr ⟨info, rfl, by simp⟩⟩
    intro i hi
    rw [List.mem_singleton.mp hi]
    exact ⟨by simpa [stops] using (hstop info rfl).1, (hstop info rfl).2⟩

namespace Taken

variable {infos : List Info} {files files' : ObjectStore Blob} {jobs new : List Job} {key k : Nat}
  {dl dl' : Download}

theorem filter_own (h : ∀ job ∈ new, job.download = key) :
    new.filter (fun job => job.download = key) = new :=
  List.filter_eq_self.mpr fun job hjob => decide_eq_true (h job hjob)

/-- The loop of a download that has dealt with all that it has taken. -/
theorem of_loop (h : dl.loop key (some k) = some (dl', new)) (taken : List Info)
    (done rest : List (Patch UInt8)) (hcells : dl.cells = view taken)
    (hget : files.get k = some ⟨octetStream, Patch.applyAll 0 done⟩)
    (hjobs : jobs.filter (fun job => job.download = key) = rest.map (.write key k))
    (hblocks : blocks taken = done ++ rest) :
    (∃ next, Taken files (jobs ++ new) key dl' (taken ++ next) ∧
      next ++ dl'.feed.pending = dl.feed.pending) ∧ (∀ job ∈ new, job.download = key) ∧
      dl'.block.handle = some k := by
  obtain ⟨channel, infos, hshown, hcells', -, hpending, hstop, hblock⟩ := loop_cases h
  have hview : dl'.cells = view (taken ++ infos) := by
    rw [hcells', hcells, view_show hshown]
  have htaken : taken ++ (infos ++ dl'.block.stopped) = taken ++ infos ++ dl'.block.stopped :=
    (List.append_assoc _ _ _).symm
  have hwritten : blocks (taken ++ infos) = done ++ (rest ++ blocks infos) := by
    rw [blocks_append, hblocks, List.append_assoc]
  obtain ⟨hloop, rfl⟩ | ⟨info, hlink, rfl⟩ := hblock
  · have hown : ∀ job ∈ (blocks infos).map (Job.write key k), job.download = key := by
      simp [Job.download]
    refine ⟨⟨_, ⟨taken ++ infos, htaken, hstop, hview, ?_⟩, hpending⟩, hown, by rw [hloop]; rfl⟩
    rw [List.filter_append, filter_own hown, hjobs, hwritten, hloop, ← List.map_append]
    exact .looping hget
  · have hown : ∀ job ∈ (blocks infos).map (Job.write key k) ++ [.createObjectUrl key k],
        job.download = key := by
      intro job hjob
      obtain hjob | hjob := List.mem_append.mp hjob
      · obtain ⟨patch, -, rfl⟩ := List.mem_map.mp hjob
        rfl
      · rw [List.mem_singleton.mp hjob]
        rfl
    refine ⟨⟨_, ⟨taken ++ infos, htaken, hstop, hview, ?_⟩, hpending⟩, hown, by rw [hlink]; rfl⟩
    rw [List.filter_append, filter_own hown, hjobs, hwritten, hlink, ← List.append_assoc,
      ← List.map_append]
    exact .linking hget

/-- **The go block of a download is resumed.** -/
theorem resume (h : Taken files jobs key dl infos) (hr : dl.resume key = some (dl', new)) :
    (∃ next, Taken files (jobs ++ new) key dl' (infos ++ next) ∧
      next ++ dl'.feed.pending = dl.feed.pending) ∧ (∀ job ∈ new, job.download = key) ∧
      dl'.block.handle = dl.block.handle := by
  obtain ⟨shown, rfl, hstop, hcells, hfile⟩ := h
  obtain ⟨feed, block, cells⟩ := dl
  generalize hj : jobs.filter (fun job => job.download = key) = own at hfile
  generalize hw : blocks shown = written at hfile
  cases hfile with
  | opening => cases hr
  | opened hget =>
    rw [GoBlock.stopped, List.append_nil]
    exact of_loop hr shown [] [] hcells hget hj hw
  | looping hget =>
    rw [GoBlock.stopped, List.append_nil]
    exact of_loop hr shown _ _ hcells hget hj hw
  | linking => cases hr
  | @linked k info done hget =>
    have hinfo := (hstop info List.mem_cons_self).1
    have hloop : Download.loop ⟨feed, .linked k info _, .finish _ info⟩ key (some k) =
        some (dl', new) := hr
    refine of_loop hloop (shown ++ [info]) _ [] ?_ hget hj ?_
    · rw [view_finish hinfo, hw]
    · rw [blocks_append, blocks_completed hinfo, hw]

theorem put (h : Taken files jobs key dl infos) {feed : Feed Info 1}
    (hput : dl.feed.put = some feed) : Taken files jobs key { dl with feed } infos := by
  obtain ⟨shown, htaken, hstop, hrest⟩ := h
  exact ⟨shown, htaken, fun info hinfo =>
    ⟨(hstop info hinfo).1, Feed.runs_of_put (hstop info hinfo).2 hput⟩, hrest⟩

/-- The steps of the other downloads. -/
theorem frame (h : Taken files jobs key dl infos) (hnew : ∀ job ∈ new, job.download ≠ key)
    (hget : ∀ k blob, dl.block.handle = some k → files.get k = some blob →
      files'.get k = some blob) : Taken files' (jobs ++ new) key dl infos := by
  obtain ⟨shown, htaken, hstop, hcells, hfile⟩ := h
  refine ⟨shown, htaken, hstop, hcells, ?_⟩
  have hnone : new.filter (fun job => job.download = key) = [] :=
    List.filter_eq_nil_iff.mpr fun job hjob => by simpa using hnew job hjob
  rw [List.filter_append, hnone, List.append_nil]
  exact hfile.frame hget

end Taken

end GnunetWeb.Downloads
