import GnunetWeb.FileSharing.Publish
import GnunetWeb.FileSharing.Readers
import GnunetWeb.FileSharing.Search
import GnunetWeb.Library.Parties
import GnunetWeb.Library.Registry
import GnunetWeb.PeerMonitor

/-!
# The client library

The objects of `util.cljs`, with those who register them: `filesharing.cljs`, `transport.cljs`
and `core.cljs`.  Callbacks, files and metadata are known to the C code by the keys under which
they are registered, and each function that the C code calls finds its object by the key.

Proved here:

* `parseProgressInfo_eq`: metadata that is registered for one report comes back, and leaves no
  trace;
* `Owns.started`, `Owns.changed`: who owns which key;
* `client_refines`: each call reaches the callback of its own activity, as if there were no
  keys.
-/

namespace GnunetWeb.Client

open EventSystem
open FileSharing (i64ToReal blobSlice)
open PeerMonitor (Peer TransportMessage CoreMessage)

/-! ## Reports -/

/-- What `GNUNET_CONTAINER_meta_data_iterate` passes.  `text` is what `UTF8ToString` makes of
the data. -/
structure MetaItem where
  pluginName : String
  type : Nat
  format : Nat
  mimeType : String
  data : List UInt8
  text : String
  deriving DecidableEq

inductive Data where
  | text (text : String)
  | bytes (bytes : List UInt8)
  deriving DecidableEq

structure Item where
  pluginName : String
  type : Nat
  format : Nat
  mimeType : String
  data : Data
  deriving DecidableEq

def formatUtf8 : Nat := 1

def formatString : Nat := 3

/-- What `metadata-iterator` adds. -/
def MetaItem.parse (item : MetaItem) : Item where
  pluginName := item.pluginName
  type := item.type
  format := item.format
  mimeType := item.mimeType
  data :=
    if item.format = formatUtf8 ∨ item.format = formatString then .text item.text
    else .bytes item.data

/-- What `GNUNET_FS_ProgressInfo` holds but for the key of the callback, with the memory that
`data` points into.  `kept` tells whether the C code passes what `progress-callback` returns
with the next report of the activity. -/
structure ProgressInfo where
  status : Nat
  heap : List UInt8
  size : Nat
  completed : Nat
  data : Nat
  offset : Nat
  dataLen : Nat
  depth : Nat
  uri : String
  metadata : List MetaItem
  kept : Bool

/-- `:uri` and `:metadata` of a search result -/
structure Result where
  uri : String
  metadata : List Item
  deriving DecidableEq

inductive Info where
  | publish (info : Publishes.Info)
  | download (info : Downloads.Info)
  | search (info : SearchResults.Info Result)

/-- `:cctx` -/
def Info.cctx : Info → Nat
  | publish info => info.cctx
  | download info => info.cctx
  | search info => info.cctx

/-- What a callback is called with. -/
inductive Argument where
  | info (info : Info)
  | peerId (peer : Peer)
  | transport (message : TransportMessage)
  | core (message : CoreMessage)

/-- What is registered: the callback or, with its handle, the closure of the activity `i`, the
metadata of a search result while it is read, and the file of a publish. -/
inductive Object where
  | callback (i : Nat)
  | closure (i : Nat)
  | metadata (items : List Item)
  | file (bytes : List UInt8)

/-- A call of a callback, a slice of a file that is read, or an exception. -/
inductive Output where
  | call (i : Nat) (argument : Argument)
  | read (bytes : List UInt8) (positions : List Nat)
  | failed

abbrev Objects := Registry Object

/-- `((get-object key) argument)`; a closure is a map, which can be called. -/
def callObject (objects : Objects) (key : Nat) (argument : Argument) : List Output :=
  match objects.get key with
  | some (.callback i) => [.call i argument]
  | some (.closure _) => []
  | some (.metadata _) | some (.file _) | none => [.failed]

/-- `metadata-iterator`, which fails for a key that is not that of metadata. -/
def metadataIterator (cls : Nat) (objects : Objects) (item : MetaItem) : Option Objects :=
  match h : objects.get cls with
  | some (.metadata items) =>
    some (objects.put cls (.metadata (items ++ [item.parse])) (by rw [h]; rfl))
  | some (.callback _) | some (.closure _) | some (.file _) | none => none

/-- `parse-progress-search` for `:search-result` -/
def parseSearchResult (objects : Objects) (cctx : Nat) (info : ProgressInfo) :
    Option (Objects × Info) :=
  let metadata := objects.register (.metadata [])
  (info.metadata.foldlM (metadataIterator metadata.2) metadata.1).bind fun objects =>
    match objects.get metadata.2 with
    | some (.metadata items) => some (objects.unregister metadata.2,
        .search ⟨.searchResult, cctx, some ⟨info.uri, items⟩⟩)
    | some (.callback _) | some (.closure _) | some (.file _) | none => none

def ProgressInfo.publish (info : ProgressInfo) (cctx : Nat) : Publishes.ProgressInfo :=
  ⟨info.status, cctx, info.size, info.completed, info.uri⟩

def ProgressInfo.download (info : ProgressInfo) (cctx : Nat) : Downloads.ProgressInfo :=
  ⟨info.status, cctx, info.size, info.completed, info.data, info.offset, info.dataLen, info.depth⟩

/-- `parse-progress-info` for a status other than `status-search-result` -/
def ProgressInfo.plain (info : ProgressInfo) (cctx : Nat) : Option Info :=
  ((Publishes.parseProgressInfo (info.publish cctx)).map .publish).or
    (((Downloads.parseProgressInfo info.heap (info.download cctx)).map .download).or
      ((SearchResults.parseProgressInfo info.status cctx (Result.mk info.uri [])).map .search))

/-- `parse-progress-info` -/
def parseProgressInfo (objects : Objects) (cctx : Nat) (info : ProgressInfo) :
    Option (Objects × Option Info) :=
  if info.status = SearchResults.statusSearchResult then
    (parseSearchResult objects cctx info).map fun r => (r.1, some r.2)
  else some (objects, info.plain cctx)

/-- The objects after some reports, what the C code passes with the next one, and what has been
called. -/
structure Reported where
  objects : Objects
  cctx : Nat
  outputs : List Output

/-- `progress-callback`, with what it returns; `nil` is 0 for the C code. -/
def progressCallback (objects : Objects) (cctx : Nat) (info : ProgressInfo) : Reported :=
  match parseProgressInfo objects cctx info with
  | none => ⟨objects, 0, [.failed]⟩
  | some (objects, none) => ⟨objects, 0, []⟩
  | some (objects, some parsed) =>
    ⟨objects, parsed.cctx, callObject objects parsed.cctx (.info parsed)⟩

/-- One report after the other. -/
def progressCallbacks (objects : Objects) (cctx : Nat) : List ProgressInfo → Reported
  | [] => ⟨objects, cctx, []⟩
  | info :: infos =>
    let r := progressCallback objects cctx info
    let q := progressCallbacks r.objects (if info.kept then r.cctx else cctx) infos
    ⟨q.objects, q.cctx, r.outputs ++ q.outputs⟩

/-- `publish-reader-callback`, up to the file reader. -/
def publishReaderCallback (objects : Objects) (cls : Nat) (offsetLw offsetHw size : Int) :
    Objects × List Output :=
  if size = 0 then (objects.unregister cls, [])
  else
    match objects.get cls with
    | some (.file bytes) =>
      let offset := i64ToReal offsetLw offsetHw
      (objects, [.read bytes (blobSlice bytes.length offset (Double.add offset size))])
    | some (.callback _) | some (.closure _) | some (.metadata _) | none => (objects, [.failed])

/-! ## Peers -/

/-- `get-hello-callback` -/
def getHelloCallback (objects : Objects) (cls : Nat) (peer : Peer) : Objects × List Output :=
  match objects.get cls with
  | some (.closure i) => (objects.unregister cls, [.call i (.peerId peer)])
  | some (.callback _) | some (.metadata _) | some (.file _) | none => (objects, [.failed])

/-- What the transport monitor passes.  `transport` is `none` for a null pointer, and `text` is
what `UTF8ToString` makes of the address from its ninth byte on, without its last one. -/
structure PeerReport where
  peer : Peer
  state : Nat
  transport : Option String
  addressLength : Nat
  text : String

/-- What `monitor-callback` of `transport.cljs` makes of it. -/
def PeerReport.message (report : PeerReport) : TransportMessage where
  peer := report.peer
  state := report.state
  address :=
    if report.transport = some "http_client" ∧ 9 ≤ report.addressLength then some report.text
    else none

/-! ## The client -/

/-- What has been started, and what it is about. -/
inductive Kind where
  | search
  | download
  | publish
  | myPeerId
  | transportPeers
  | corePeers
  deriving DecidableEq

/-- What the start function registers. -/
def Kind.object (i : Nat) : Kind → Object
  | search | download | publish | transportPeers | corePeers => .callback i
  | myPeerId => .closure i

/-- What a start function has returned, with what the C code knows: `cctx` is what it passes with
a report.  `file` is the file of a publish, with its key, until the reader is closed.  `ended`
are searches that have been stopped and peer ids that have been told. -/
structure Activity where
  kind : Kind
  key : Nat
  cctx : Nat
  file : Option (Nat × List UInt8)
  ended : Bool

structure State where
  objects : Objects
  activities : List Activity

inductive Event where
  /-- `early` is what is reported before the call of the C code returns -/
  | startSearch (early : List ProgressInfo)
  | startDownload (early : List ProgressInfo)
  | startPublish (file : List UInt8) (early : List ProgressInfo)
  /-- `late` is what `GNUNET_FS_search_stop` reports -/
  | stopSearch (i : Nat) (late : List ProgressInfo)
  | progress (i : Nat) (info : ProgressInfo)
  | reader (i : Nat) (offsetLw offsetHw size : Int)
  | getMyPeerId
  | hello (i : Nat) (peer : Peer)
  | monitorTransport
  | transportPeer (i : Nat) (report : PeerReport)
  | monitorCore
  | corePeer (i : Nat) (message : CoreMessage)

namespace State

def init : State := ⟨.empty, []⟩

/-- What the start functions have in common: a callback is registered. -/
def start (st : State) (kind : Kind) (file : Option (Nat × List UInt8)) : State × Activity :=
  let callback := st.objects.register (kind.object st.activities.length)
  let a := ⟨kind, callback.2, callback.2, file, false⟩
  (⟨callback.1, st.activities ++ [a]⟩, a)

def progress (st : State) (i : Nat) (a : Activity) (infos : List ProgressInfo) :
    State × List Output :=
  let r := progressCallbacks st.objects a.cctx infos
  (⟨r.objects, st.activities.set i { a with cctx := r.cctx }⟩, r.outputs)

def startSearch (st : State) (early : List ProgressInfo) : State × List Output :=
  let r := st.start .search none
  r.1.progress st.activities.length r.2 early

def startDownload (st : State) (early : List ProgressInfo) : State × List Output :=
  let r := st.start .download none
  r.1.progress st.activities.length r.2 early

def startPublish (st : State) (file : List UInt8) (early : List ProgressInfo) :
    State × List Output :=
  let key := st.objects.register (.file file)
  let r := { st with objects := key.1 }.start .publish (some (key.2, file))
  r.1.progress st.activities.length r.2 early

def stopSearch (st : State) (i : Nat) (a : Activity) (late : List ProgressInfo) :
    State × List Output :=
  let r := st.progress i a late
  (⟨r.1.objects.unregister a.key, r.1.activities.set i { a with ended := true }⟩, r.2)

def reader (st : State) (i : Nat) (a : Activity) (fileKey : Nat)
    (offsetLw offsetHw size : Int) : State × List Output :=
  let r := publishReaderCallback st.objects fileKey offsetLw offsetHw size
  let a := if size = 0 then { a with file := none } else a
  (⟨r.1, st.activities.set i a⟩, r.2)

/-- `get-my-peer-id` -/
def getMyPeerId (st : State) : State := (st.start .myPeerId none).1

def hello (st : State) (i : Nat) (a : Activity) (peer : Peer) : State × List Output :=
  let r := getHelloCallback st.objects a.key peer
  (⟨r.1, st.activities.set i { a with ended := true }⟩, r.2)

/-- `transport/monitor-peers` -/
def monitorTransport (st : State) : State := (st.start .transportPeers none).1

/-- `core/monitor-peers` -/
def monitorCore (st : State) : State := (st.start .corePeers none).1

end State

def step (st : State) : Event → Option (State × List Output)
  | .startSearch early => some (st.startSearch early)
  | .startDownload early => some (st.startDownload early)
  | .startPublish file early => some (st.startPublish file early)
  | .stopSearch i late => st.activities[i]?.map fun a => st.stopSearch i a late
  | .progress i info => st.activities[i]?.map fun a => st.progress i a [info]
  | .reader i offsetLw offsetHw size => st.activities[i]?.bind fun a =>
      a.file.map fun f => st.reader i a f.1 offsetLw offsetHw size
  | .getMyPeerId => some (st.getMyPeerId, [])
  | .hello i peer => st.activities[i]?.map fun a => st.hello i a peer
  | .monitorTransport => some (st.monitorTransport, [])
  | .transportPeer i report => st.activities[i]?.map fun a =>
      (st, callObject st.objects a.key (.transport report.message))
  | .monitorCore => some (st.monitorCore, [])
  | .corePeer i message => st.activities[i]?.map fun a =>
      (st, callObject st.objects a.key (.core message))

def system : EventSystem State Event Output := ⟨.init, step⟩

/-- The statuses that `parse-progress-info` does not ignore. -/
def ProgressInfo.Known (info : ProgressInfo) : Prop :=
  info.status ∈ [0, 3, 5, 7, 10, 12, 14, 15, 17, 21]

instance (info : ProgressInfo) : Decidable info.Known := inferInstanceAs (Decidable (_ ∈ _))

/-- After each of the reports but the last, the C code still has the key of the callback. -/
def Continues (infos : List ProgressInfo) : Prop :=
  ∀ info ∈ infos.dropLast, info.kept → info.Known

instance (infos : List ProgressInfo) : Decidable (Continues infos) :=
  inferInstanceAs (Decidable (∀ info ∈ infos.dropLast, _))

def Activity.Goes (a : Activity) (kind : Kind) : Prop := a.kind = kind ∧ a.ended = false

instance (a : Activity) (kind : Kind) : Decidable (a.Goes kind) :=
  inferInstanceAs (Decidable (_ ∧ _))

/-- A search, download or publish, for which the C code still has the key of the callback. -/
def Activity.Reports (a : Activity) : Prop :=
  a.kind ∈ [.search, .download, .publish] ∧ a.ended = false ∧ a.cctx = a.key

instance (a : Activity) : Decidable a.Reports := inferInstanceAs (Decidable (_ ∧ _))

/-- What the C code keeps to: it calls what it has been given, until it is told to stop, and it
does not go on with a report that has been ignored. -/
def Allowed (st : State) : Event → Prop
  | .startSearch early | .startDownload early | .startPublish _ early => Continues early
  | .stopSearch i late => ∀ a ∈ st.activities[i]?, a.kind = .search ∧ a.Reports ∧ Continues late
  | .progress i _ => ∀ a ∈ st.activities[i]?, a.Reports
  | .hello i _ => ∀ a ∈ st.activities[i]?, a.Goes .myPeerId
  | .transportPeer i _ => ∀ a ∈ st.activities[i]?, a.Goes .transportPeers
  | .corePeer i _ => ∀ a ∈ st.activities[i]?, a.Goes .corePeers
  | .reader _ _ _ _ | .getMyPeerId | .monitorTransport | .monitorCore => True

/-! ## Metadata for one report -/

/-- `parse-progress-info` without a registration -/
def ProgressInfo.parse (info : ProgressInfo) (cctx : Nat) : Option Info :=
  if info.status = SearchResults.statusSearchResult then
    some (.search ⟨.searchResult, cctx, some ⟨info.uri, info.metadata.map MetaItem.parse⟩⟩)
  else info.plain cctx

theorem metadataIterator_eq {objects : Objects} {cls : Nat} {items : List Item}
    (h : objects.get cls = some (.metadata items)) (item : MetaItem) :
    ∃ objects', metadataIterator cls objects item = some objects' ∧
      objects'.get cls = some (.metadata (items ++ [item.parse])) ∧
      ∀ k, k ≠ cls → objects'.get k = objects.get k := by
  rw [metadataIterator]
  split
  · next items' h' =>
    obtain rfl : items = items' := by simpa [h] using h'
    refine ⟨_, rfl, ?_, fun k hk => ?_⟩
    · rw [Registry.get_put, if_pos rfl]
    · rw [Registry.get_put, if_neg (Ne.symm hk)]
  all_goals
    next h' => simp [h] at h'

/-- What the iteration makes of the metadata. -/
theorem metadataIterator_foldlM {cls : Nat} (metadata : List MetaItem) :
    ∀ {objects : Objects} {items : List Item}, objects.get cls = some (.metadata items) →
      ∃ objects', metadata.foldlM (metadataIterator cls) objects = some objects' ∧
        objects'.get cls = some (.metadata (items ++ metadata.map MetaItem.parse)) ∧
        ∀ k, k ≠ cls → objects'.get k = objects.get k := by
  induction metadata with
  | nil =>
    intro objects items h
    exact ⟨objects, rfl, by rw [h, List.map_nil, List.append_nil], fun _ _ => rfl⟩
  | cons item metadata ih =>
    intro objects items h
    obtain ⟨objects', hstep, hget', hother'⟩ := metadataIterator_eq h item
    obtain ⟨objects'', hrest, hget'', hother''⟩ := ih hget'
    refine ⟨objects'', ?_, ?_, fun k hk => (hother'' k hk).trans (hother' k hk)⟩
    · rw [List.foldlM_cons, hstep]
      exact hrest
    · rw [hget'', List.map_cons, List.append_assoc]
      rfl

/-- **Metadata comes back, and leaves no trace.** -/
theorem parseProgressInfo_eq (objects : Objects) (cctx : Nat) (info : ProgressInfo) :
    ∃ objects', parseProgressInfo objects cctx info = some (objects', info.parse cctx) ∧
      ∀ k, objects'.get k = objects.get k := by
  rw [parseProgressInfo, ProgressInfo.parse]
  split
  · have hnew : (objects.register (.metadata [])).1.get (objects.register (.metadata [])).2 =
        some (.metadata []) := by
      rw [Registry.get_register]
      exact if_pos rfl
    obtain ⟨objects', hfold, hget, hother⟩ := metadataIterator_foldlM info.metadata hnew
    refine ⟨objects'.unregister objects.next, ?_, fun k => ?_⟩
    · simp only [parseSearchResult, hfold, Option.bind_some, hget]
      rfl
    · refine Registry.get_withdrawn fun i hi => (hother i hi).trans ?_
      rw [Registry.get_register, if_neg (Ne.symm hi)]
  · exact ⟨objects, rfl, fun _ => rfl⟩

/-! ## The keys of the callbacks -/

/-- The report with the place of an activity for the key of its callback. -/
def Info.place (i : Nat) : Info → Info
  | publish info => publish { info with cctx := i }
  | download info => download { info with cctx := i }
  | search info => search { info with cctx := i }

def Argument.place (i : Nat) : Argument → Argument
  | info parsed => info (parsed.place i)
  | peerId peer => peerId peer
  | transport message => transport message
  | core message => core message

def Output.place : Output → Output
  | call i argument => call i (argument.place i)
  | read bytes positions => read bytes positions
  | failed => failed

theorem publish_place (info : ProgressInfo) (cctx i : Nat) :
    (Publishes.parseProgressInfo (info.publish cctx)).map (fun p => { p with cctx := i }) =
      Publishes.parseProgressInfo (info.publish i) := by
  rw [Publishes.parseProgressInfo, Publishes.parseProgressInfo,
    show (info.publish cctx).status = (info.publish i).status from rfl]
  split_ifs
  all_goals rfl

theorem download_place (info : ProgressInfo) (cctx i : Nat) :
    (Downloads.parseProgressInfo info.heap (info.download cctx)).map
        (fun p => { p with cctx := i }) =
      Downloads.parseProgressInfo info.heap (info.download i) := by
  rw [Downloads.parseProgressInfo, Downloads.parseProgressInfo,
    show (info.download cctx).status = (info.download i).status from rfl]
  split_ifs
  all_goals rfl

theorem search_place (status cctx i : Nat) (result : Result) :
    (SearchResults.parseProgressInfo status cctx result).map (fun p => { p with cctx := i }) =
      SearchResults.parseProgressInfo status i result := by
  rw [SearchResults.parseProgressInfo, SearchResults.parseProgressInfo]
  split_ifs
  all_goals rfl

/-- The key of the callback is all that depends on it. -/
theorem parse_place (info : ProgressInfo) (cctx i : Nat) :
    (info.parse cctx).map (Info.place i) = info.parse i := by
  rw [ProgressInfo.parse, ProgressInfo.parse]
  split
  · rfl
  · rw [ProgressInfo.plain, ProgressInfo.plain, ← publish_place info cctx i,
      ← download_place info cctx i, ← search_place info.status cctx i]
    simp only [Option.map_or, Option.map_map]
    rfl

theorem cctx_parse {info : ProgressInfo} {cctx : Nat} {parsed : Info}
    (h : info.parse cctx = some parsed) : parsed.cctx = cctx := by
  have hplace := parse_place info cctx cctx
  rw [h, Option.map_some] at hplace
  rw [← Option.some.inj hplace]
  cases parsed with
  | publish info => rfl
  | download info => rfl
  | search info => rfl

/-- A status that is known is not ignored. -/
theorem parse_of_known {info : ProgressInfo} (h : info.Known) (cctx : Nat) :
    ∃ parsed, info.parse cctx = some parsed := by
  rw [← Option.isSome_iff_exists, ProgressInfo.parse]
  obtain ⟨status, heap, size, completed, data, offset, dataLen, depth, uri, metadata, kept⟩ := info
  simp only [ProgressInfo.Known, List.mem_cons, List.not_mem_nil, or_false] at h
  obtain rfl | rfl | rfl | rfl | rfl | rfl | rfl | rfl | rfl | rfl := h
  all_goals rfl

/-- What the callback of an activity is called with. -/
def calls (i cctx : Nat) (infos : List ProgressInfo) : List Output :=
  infos.filterMap fun info => (info.parse cctx).map fun parsed => .call i (.info parsed)

theorem calls_place (i cctx : Nat) (infos : List ProgressInfo) :
    (calls i cctx infos).map Output.place = calls i i infos := by
  rw [calls, calls, List.map_filterMap]
  refine List.filterMap_congr fun info _ => ?_
  rw [← parse_place info cctx i, Option.map_map, Option.map_map]
  rfl

/-- A report for a callback that is registered. -/
theorem progressCallback_eq {objects : Objects} {cctx i : Nat}
    (h : objects.get cctx = some (.callback i)) (info : ProgressInfo) :
    ∃ objects' cctx', progressCallback objects cctx info =
        ⟨objects', cctx', calls i cctx [info]⟩ ∧
      (∀ k, objects'.get k = objects.get k) ∧ (info.Known → cctx' = cctx) := by
  obtain ⟨objects', hparse, hget⟩ := parseProgressInfo_eq objects cctx info
  cases hp : info.parse cctx with
  | none =>
    refine ⟨objects', 0, ?_, hget, fun hknown => ?_⟩
    · rw [progressCallback, hparse, hp, calls, List.filterMap_cons, hp]
      rfl
    · obtain ⟨parsed, hparsed⟩ := parse_of_known hknown cctx
      cases hp.symm.trans hparsed
  | some parsed =>
    have hcctx := cctx_parse hp
    refine ⟨objects', cctx, ?_, hget, fun _ => rfl⟩
    rw [progressCallback, hparse, hp, calls, List.filterMap_cons, hp]
    simp only [hcctx, callObject, hget, h]
    rfl

theorem progressCallbacks_eq {cctx i : Nat} (infos : List ProgressInfo) :
    ∀ {objects : Objects}, objects.get cctx = some (.callback i) → Continues infos →
      ∃ objects' cctx', progressCallbacks objects cctx infos =
          ⟨objects', cctx', calls i cctx infos⟩ ∧
        ∀ k, objects'.get k = objects.get k := by
  induction infos with
  | nil =>
    intro objects _ _
    exact ⟨objects, cctx, rfl, fun _ => rfl⟩
  | cons info infos ih =>
    intro objects h hcont
    obtain ⟨objects', cctx', hone, hget', hknown⟩ := progressCallback_eq h info
    rw [progressCallbacks, hone]
    cases infos with
    | nil => exact ⟨objects', _, by rw [progressCallbacks, List.append_nil], hget'⟩
    | cons info' infos =>
      obtain ⟨hhead, htail⟩ := List.forall_mem_cons.mp hcont
      have hnext : (if info.kept then cctx' else cctx) = cctx := by
        split
        · next hkept => exact hknown (hhead hkept)
        · rfl
      obtain ⟨objects'', cctx'', hrest, hget''⟩ := ih ((hget' cctx).trans h) htail
      refine ⟨objects'', cctx'', ?_, fun k => (hget'' k).trans (hget' k)⟩
      simp only [hnext, hrest]
      rw [calls, calls, calls, ← List.filterMap_append]
      rfl

/-! ## Who owns which key -/

/-- What the activity `i` has registered under `k`: its callback or closure, unless it has ended,
or its file, unless it is closed. -/
inductive Activity.Holds (a : Activity) (i : Nat) : Nat → Object → Prop
  | own (hopen : a.ended = false) : Holds a i a.key (a.kind.object i)
  | file {key : Nat} {bytes : List UInt8} (hfile : a.file = some (key, bytes)) :
      Holds a i key (.file bytes)

/-- What is registered is what the activities hold, and no key is held by two of them. -/
structure Owns (st : State) : Prop where
  get : ∀ k object, st.objects.get k = some object ↔
    ∃ (i : Nat) (a : Activity), st.activities[i]? = some a ∧ a.Holds i k object
  distinct : ∀ (i j : Nat) (a b : Activity) (k : Nat) (object object' : Object),
    st.activities[i]? = some a → st.activities[j]? = some b →
    a.Holds i k object → b.Holds j k object' → i = j

namespace Owns

variable {st : State}

theorem init : Owns .init where
  get k object := by
    refine ⟨fun h => ?_, fun ⟨_, _, ha, _⟩ => nomatch ha⟩
    cases h
  distinct _ _ _ _ _ _ _ h := nomatch h

theorem holds (h : Owns st) {i : Nat} {a : Activity} (ha : st.activities[i]? = some a)
    {k : Nat} {object : Object} (hk : a.Holds i k object) : st.objects.get k = some object :=
  (h.get k object).mpr ⟨i, a, ha, hk⟩

/-- **A new activity**, whose keys are free. -/
theorem started (h : Owns st) {a : Activity} {objects : Objects}
    (hfree : ∀ k object, a.Holds st.activities.length k object → st.objects.get k = none)
    (hget : ∀ k object, objects.get k = some object ↔
      st.objects.get k = some object ∨ a.Holds st.activities.length k object) :
    Owns ⟨objects, st.activities ++ [a]⟩ := by
  have hnew : ∀ (i : Nat) (b : Activity) (k : Nat) (object object' : Object),
      st.activities[i]? = some b → b.Holds i k object →
        ¬ a.Holds st.activities.length k object' := by
    intro i b k object object' hb hk hk'
    exact Option.some_ne_none _ ((h.holds hb hk).symm.trans (hfree k object' hk'))
  refine ⟨fun k object => ?_, fun i j b c k object object' hb hc hk hk' => ?_⟩
  · rw [hget, h.get]
    constructor
    · rintro (⟨i, b, hb, hk⟩ | hk)
      · exact ⟨i, b, getElem?_append_of_some hb, hk⟩
      · exact ⟨_, a, List.getElem?_concat_length, hk⟩
    · rintro ⟨i, b, hb, hk⟩
      obtain ⟨rfl, rfl⟩ | hb := getElem?_concat_cases hb
      · exact .inr hk
      · exact .inl ⟨i, b, hb, hk⟩
  · obtain ⟨rfl, rfl⟩ | hb' := getElem?_concat_cases hb
    · obtain ⟨rfl, rfl⟩ | hc' := getElem?_concat_cases hc
      · rfl
      · exact absurd hk (hnew j c k object' object hc' hk')
    · obtain ⟨rfl, rfl⟩ | hc' := getElem?_concat_cases hc
      · exact absurd hk' (hnew i b k object object' hb' hk)
      · exact h.distinct i j b c k object object' hb' hc' hk hk'

/-- **A change of an activity**, which gives up the keys that are `gone`. -/
theorem changed (h : Owns st) {i : Nat} {a a' : Activity} {objects : Objects} (gone : Nat → Prop)
    [DecidablePred gone] (ha : st.activities[i]? = some a)
    (hgone : ∀ k, gone k → ∃ object, a.Holds i k object)
    (hget : ∀ k, objects.get k = if gone k then none else st.objects.get k)
    (hrest : ∀ k object, a'.Holds i k object ↔ a.Holds i k object ∧ ¬ gone k) :
    Owns ⟨objects, st.activities.set i a'⟩ := by
  have hlt : i < st.activities.length := (List.getElem?_eq_some_iff.mp ha).1
  have hbefore : ∀ (j : Nat) (b : Activity) (k : Nat) (object : Object),
      (st.activities.set i a')[j]? = some b → b.Holds j k object →
      ∃ b', st.activities[j]? = some b' ∧ b'.Holds j k object ∧ ¬ gone k := by
    intro j b k object hb hk
    obtain ⟨rfl, rfl⟩ | ⟨hne, hb⟩ := getElem?_set_cases hb
    · obtain ⟨hk, hstays⟩ := (hrest k object).mp hk
      exact ⟨a, ha, hk, hstays⟩
    · refine ⟨b, hb, hk, fun hgo => ?_⟩
      obtain ⟨object', hk'⟩ := hgone k hgo
      exact hne (h.distinct j i b a k object object' hb ha hk hk')
  refine ⟨fun k object => ?_, fun j l b c k o o' hb hc hk hk' => ?_⟩
  · rw [hget]
    constructor
    · intro hk
      split at hk
      · cases hk
      · next hstays =>
        obtain ⟨j, b, hb, hk⟩ := (h.get k object).mp hk
        by_cases hj : i = j
        · subst hj
          cases ha.symm.trans hb
          exact ⟨i, a', List.getElem?_set_self hlt, (hrest k object).mpr ⟨hk, hstays⟩⟩
        · exact ⟨j, b, (List.getElem?_set_ne hj).trans hb, hk⟩
    · rintro ⟨j, b, hb, hk⟩
      obtain ⟨b', hb', hk', hstays⟩ := hbefore j b k object hb hk
      rw [if_neg hstays]
      exact h.holds hb' hk'
  · obtain ⟨b', hb', hkb, -⟩ := hbefore j b k o hb hk
    obtain ⟨c', hc', hkc, -⟩ := hbefore l c k o' hc hk'
    exact h.distinct j l b' c' k o o' hb' hc' hkb hkc

/-- **A key that its activity gives up.** -/
theorem released (h : Owns st) {i key : Nat} {a a' : Activity} {object : Object}
    (ha : st.activities[i]? = some a) (hkey : a.Holds i key object)
    (hrest : ∀ k object, a'.Holds i k object ↔ a.Holds i k object ∧ k ≠ key) :
    Owns ⟨st.objects.unregister key, st.activities.set i a'⟩ :=
  h.changed (fun k => k = key) ha (fun _ hk => ⟨object, hk ▸ hkey⟩)
    (fun k => st.objects.get_unregister k key) hrest

theorem key_ne (h : Owns st) {i key : Nat} {a : Activity} {bytes : List UInt8}
    (ha : st.activities[i]? = some a) (hopen : a.ended = false)
    (hfile : a.file = some (key, bytes)) : a.key ≠ key := by
  rintro rfl
  have hsame := (h.holds ha (.own hopen)).symm.trans (h.holds ha (.file hfile))
  cases hkind : a.kind
  all_goals
    rw [hkind] at hsame
    cases hsame

/-- **The end of an activity.** -/
theorem ended (h : Owns st) {i : Nat} {a a' : Activity} (ha : st.activities[i]? = some a)
    (hopen : a.ended = false) (hended : a'.ended = true) (hfile : a'.file = a.file) :
    Owns ⟨st.objects.unregister a.key, st.activities.set i a'⟩ := by
  refine h.released ha (.own hopen) fun k object => ?_
  constructor
  · rintro (hopen' | hfile')
    · cases hended.symm.trans hopen'
    · rw [hfile] at hfile'
      exact ⟨.file hfile', (h.key_ne ha hopen hfile').symm⟩
  · rintro ⟨hk, hne⟩
    cases hk with
    | own => exact absurd rfl hne
    | file hfile' => exact .file (hfile.trans hfile')

/-- **The file of a publish is closed.** -/
theorem closed (h : Owns st) {i key : Nat} {a : Activity} {bytes : List UInt8}
    (ha : st.activities[i]? = some a) (hfile : a.file = some (key, bytes)) :
    Owns ⟨st.objects.unregister key, st.activities.set i { a with file := none }⟩ := by
  refine h.released ha (.file hfile) fun k object => ?_
  constructor
  · rintro (⟨hopen⟩ | hnone)
    · exact ⟨.own hopen, h.key_ne (a := a) ha hopen hfile⟩
    · cases hnone
  · rintro ⟨hk, hne⟩
    cases hk with
    | own hopen => exact .own hopen
    | file hfile' =>
      cases hfile.symm.trans hfile'
      exact absurd rfl hne

/-- **A start function**, which may have registered a file. -/
theorem start (h : Owns st) (objects : Objects) (kind : Kind)
    (file : Option (Nat × List UInt8)) (hfree : ∀ f ∈ file, st.objects.get f.1 = none)
    (hget : ∀ k object, objects.get k = some object ↔ st.objects.get k = some object ∨
      ∃ bytes, file = some (k, bytes) ∧ object = .file bytes) :
    Owns (State.start { st with objects } kind file).1 := by
  have hnext := objects.get_next
  refine h.started (a := ⟨kind, objects.next, objects.next, file, false⟩) ?_ ?_
  · rintro k object (hopen | ⟨hfile⟩)
    · cases hk : st.objects.get objects.next with
      | none => rfl
      | some object => exact absurd (hnext.symm.trans ((hget _ _).mpr (.inl hk))) nofun
    · exact hfree _ hfile
  · intro k object
    rw [Registry.get_register]
    constructor
    · intro hk
      split at hk
      · next hk' =>
        cases hk
        subst hk'
        exact .inr (.own rfl)
      · obtain hk | ⟨bytes, hfile, rfl⟩ := (hget k object).mp hk
        · exact .inl hk
        · exact .inr (.file hfile)
    · intro hk
      have hne : ∀ object, objects.get k = some object → objects.next ≠ k := by
        rintro object hk rfl
        exact absurd (hnext.symm.trans hk) nofun
      obtain hk | hk := hk
      · have hobject := (hget k object).mpr (.inl hk)
        rw [if_neg (hne object hobject), hobject]
      · cases hk with
        | own => exact if_pos rfl
        | file hfile =>
          have hobject := (hget k _).mpr (.inr ⟨_, hfile, rfl⟩)
          rw [if_neg (hne _ hobject), hobject]

end Owns

/-! ## The client without keys -/

namespace Direct

/-- The files of the activities, until they are closed: a call goes to the callback of its
activity, and a reader to its file. -/
abbrev State := List (Option (List UInt8))

def step (files : State) : Event → Option (State × List Output)
  | .startSearch early | .startDownload early =>
    some (files ++ [none], calls files.length files.length early)
  | .startPublish file early => some (files ++ [some file], calls files.length files.length early)
  | .stopSearch i late => files[i]?.map fun _ => (files, calls i i late)
  | .progress i info => files[i]?.map fun _ => (files, calls i i [info])
  | .reader i offsetLw offsetHw size => files[i]?.bind fun file => file.map fun bytes =>
      if size = 0 then (files.set i none, [])
      else
        let offset := i64ToReal offsetLw offsetHw
        (files, [.read bytes (blobSlice bytes.length offset (Double.add offset size))])
  | .getMyPeerId | .monitorTransport | .monitorCore => some (files ++ [none], [])
  | .hello i peer => files[i]?.map fun _ => (files, [.call i (.peerId peer)])
  | .transportPeer i report => files[i]?.map fun _ => (files, [.call i (.transport report.message)])
  | .corePeer i message => files[i]?.map fun _ => (files, [.call i (.core message)])

def system : EventSystem State Event Output := ⟨[], step⟩

end Direct

/-- The client with its keys, and the one without. -/
structure Refines (st : State) (files : Direct.State) : Prop where
  owns : Owns st
  files : files = st.activities.map fun (a : Activity) => a.file.map Prod.snd

namespace Refines

variable {st st' : State} {files : Direct.State} {os : List Output}

theorem length (h : Refines st files) : files.length = st.activities.length := by
  rw [h.files, List.length_map]

theorem file (h : Refines st files) {i : Nat} {a : Activity} (ha : st.activities[i]? = some a) :
    files[i]? = some (a.file.map Prod.snd) := by
  rw [h.files, List.getElem?_map, ha]
  rfl

theorem map_set_same {α β : Type} {l : List α} {i : Nat} {a a' : α} (f : α → β)
    (h : l[i]? = some a) (hf : f a' = f a) : (l.set i a').map f = l.map f := by
  obtain ⟨hlt, rfl⟩ := List.getElem?_eq_some_iff.mp h
  rw [List.map_set, hf, ← List.getElem_map f, List.set_getElem_self]
  rwa [List.length_map]

/-- An activity changes, but not its file. -/
theorem set (h : Refines st files) {i : Nat} {a a' : Activity} {objects : Objects}
    (ha : st.activities[i]? = some a) (hfile : a'.file = a.file)
    (howns : Owns ⟨objects, st.activities.set i a'⟩) :
    Refines ⟨objects, st.activities.set i a'⟩ files where
  owns := howns
  files := by
    have hsame := map_set_same (fun (b : Activity) => b.file.map Prod.snd) ha
      (congrArg (Option.map Prod.snd) hfile)
    exact h.files.trans hsame.symm

/-- **Reports**, of which each reaches the callback. -/
theorem progress (h : Refines st files) {i : Nat} {a : Activity}
    (ha : st.activities[i]? = some a) (hreports : a.Reports) {infos : List ProgressInfo}
    (hcont : Continues infos) :
    Refines (st.progress i a infos).1 files ∧
      (st.progress i a infos).2.map Output.place = calls i i infos := by
  obtain ⟨hkind, hopen, hcctx⟩ := hreports
  have hcallback : st.objects.get a.cctx = some (.callback i) := by
    rw [hcctx, h.owns.holds ha (.own hopen)]
    simp only [List.mem_cons, List.not_mem_nil, or_false] at hkind
    obtain hkind | hkind | hkind := hkind
    all_goals
      rw [hkind]
      rfl
  obtain ⟨objects, cctx, hcalls, hget⟩ := progressCallbacks_eq infos hcallback hcont
  rw [State.progress, hcalls]
  refine ⟨h.set ha rfl ?_, calls_place _ _ _⟩
  refine h.owns.changed (fun _ => False) ha (fun _ => False.elim) (fun k => ?_)
    fun k object => ?_
  · rw [if_neg not_false, hget]
  · constructor
    · rintro (hopen | hfile)
      · exact ⟨.own hopen, not_false⟩
      · exact ⟨.file hfile, not_false⟩
    · rintro ⟨hopen | hfile, -⟩
      · exact .own hopen
      · exact .file hfile

theorem stopSearch (h : Refines st files) {i : Nat} {a : Activity}
    (ha : st.activities[i]? = some a) (hreports : a.Reports) {late : List ProgressInfo}
    (hcont : Continues late) :
    Refines (st.stopSearch i a late).1 files ∧
      (st.stopSearch i a late).2.map Output.place = calls i i late := by
  obtain ⟨href, hcalls⟩ := h.progress ha hreports hcont
  obtain ⟨b, hb, hkey, hopen, hfile⟩ : ∃ b, (st.progress i a late).1.activities[i]? = some b ∧
      b.key = a.key ∧ b.ended = false ∧ b.file = a.file :=
    ⟨_, List.getElem?_set_self (List.getElem?_eq_some_iff.mp ha).1, rfl, hreports.2.1, rfl⟩
  have hended : Owns ⟨(st.progress i a late).1.objects.unregister b.key,
      (st.progress i a late).1.activities.set i { a with ended := true }⟩ :=
    href.owns.ended hb hopen rfl hfile.symm
  rw [hkey] at hended
  exact ⟨href.set hb hfile.symm hended, hcalls⟩

theorem hello (h : Refines st files) {i : Nat} {a : Activity}
    (ha : st.activities[i]? = some a) (hgoes : a.Goes .myPeerId) (peer : Peer) :
    Refines (st.hello i a peer).1 files ∧
      (st.hello i a peer).2.map Output.place = [.call i (.peerId peer)] := by
  obtain ⟨hkind, hopen⟩ := hgoes
  have hclosure := h.owns.holds ha (.own hopen)
  rw [hkind] at hclosure
  rw [State.hello, getHelloCallback, hclosure]
  exact ⟨h.set ha rfl (h.owns.ended ha hopen rfl rfl), rfl⟩

theorem reader (h : Refines st files) {i : Nat} {a : Activity} {key : Nat}
    {bytes : List UInt8} (ha : st.activities[i]? = some a)
    (hfile : a.file = some (key, bytes)) (offsetLw offsetHw size : Int) :
    ∃ files', Direct.step files (.reader i offsetLw offsetHw size) =
        some (files', (st.reader i a key offsetLw offsetHw size).2.map Output.place) ∧
      Refines (st.reader i a key offsetLw offsetHw size).1 files' := by
  have hget := h.owns.holds ha (.file hfile)
  have hbytes : files[i]? = some (some bytes) := by
    rw [h.file ha, hfile]
    rfl
  rw [Direct.step, hbytes, State.reader, publishReaderCallback]
  by_cases hsize : size = 0
  · refine ⟨files.set i none, by simp [hsize], ?_⟩
    rw [if_pos hsize, if_pos hsize]
    refine ⟨h.owns.closed ha hfile, ?_⟩
    rw [h.files, List.map_set]
    rfl
  · refine ⟨files, ?_, ?_⟩
    · simp [hsize, hget, Output.place]
    · rw [if_neg hsize, if_neg hsize, hget]
      obtain ⟨hlt, rfl⟩ := List.getElem?_eq_some_iff.mp ha
      rw [List.set_getElem_self]
      exact h

/-- **The start functions.** -/
theorem start (h : Refines st files) (kind : Kind) :
    Refines (st.start kind none).1 (files ++ [none]) where
  owns := by
    refine h.owns.start st.objects kind none (fun _ hf => nomatch hf) fun k object => ?_
    refine ⟨.inl, fun hk => hk.resolve_right ?_⟩
    rintro ⟨_, hnone, _⟩
    cases hnone
  files := by
    rw [h.files, State.start, List.map_append]
    rfl

theorem startFile (h : Refines st files) (file : List UInt8) :
    Refines (State.start { st with objects := (st.objects.register (.file file)).1 } .publish
      (some (st.objects.next, file))).1 (files ++ [some file]) where
  owns := by
    refine h.owns.start _ .publish _ (fun f hf => ?_) fun k object => ?_
    · cases hf
      exact Registry.get_next
    · rw [Registry.get_register]
      constructor
      · intro hk
        split at hk
        · next hnext =>
          cases hk
          exact .inr ⟨file, by rw [hnext], rfl⟩
        · exact .inl hk
      · rintro (hk | ⟨bytes, he, rfl⟩)
        · have hne : st.objects.next ≠ k := by
            rintro rfl
            exact absurd (Registry.get_next.symm.trans hk) nofun
          rwa [if_neg hne]
        · cases he
          exact if_pos rfl
  files := by
    rw [h.files, State.start, List.map_append]
    rfl

/-- A start function, with what is reported before it returns. -/
theorem startReports {kind : Kind} {file : Option (Nat × List UInt8)}
    (h : Refines (st.start kind file).1 files)
    (hkind : kind ∈ [Kind.search, Kind.download, Kind.publish]) {early : List ProgressInfo}
    (hcont : Continues early) :
    Refines ((st.start kind file).1.progress st.activities.length (st.start kind file).2 early).1
        files ∧
      ((st.start kind file).1.progress st.activities.length (st.start kind file).2 early).2.map
        Output.place = calls st.activities.length st.activities.length early :=
  h.progress List.getElem?_concat_length ⟨hkind, rfl, rfl⟩ hcont

/-- A monitor, whose callback is called. -/
theorem callObject (h : Refines st files) {i : Nat} {a : Activity} {kind : Kind}
    (ha : st.activities[i]? = some a) (hgoes : a.Goes kind)
    (hkind : kind.object i = .callback i) (argument : Argument) :
    callObject st.objects a.key argument = [.call i argument] := by
  rw [Client.callObject, h.owns.holds ha (.own hgoes.2), hgoes.1, hkind]

/-- **One step with keys is one step without.** -/
theorem steps {e : Event} (h : Refines st files) (hok : Allowed st e)
    (hst : step st e = some (st', os)) :
    ∃ files', Direct.step files e = some (files', os.map Output.place) ∧ Refines st' files' := by
  cases e with
  | startSearch early =>
    obtain ⟨href, hcalls⟩ := (h.start .search).startReports (by decide) hok
    cases hst
    rw [Direct.step, h.length]
    exact ⟨_, congrArg (fun os => some (files ++ [none], os)) hcalls.symm, href⟩
  | startDownload early =>
    obtain ⟨href, hcalls⟩ := (h.start .download).startReports (by decide) hok
    cases hst
    rw [Direct.step, h.length]
    exact ⟨_, congrArg (fun os => some (files ++ [none], os)) hcalls.symm, href⟩
  | startPublish file early =>
    obtain ⟨href, hcalls⟩ := (h.startFile file).startReports (by decide) hok
    cases hst
    rw [Direct.step, h.length]
    exact ⟨_, congrArg (fun os => some (files ++ [some file], os)) hcalls.symm, href⟩
  | stopSearch i late =>
    obtain ⟨a, ha, hst⟩ := Option.map_eq_some_iff.mp hst
    obtain ⟨-, hreports, hcont⟩ := hok a ha
    obtain ⟨href, hcalls⟩ := h.stopSearch ha hreports hcont
    rw [hst] at href hcalls
    rw [Direct.step, h.file ha, hcalls]
    exact ⟨files, rfl, href⟩
  | progress i info =>
    obtain ⟨a, ha, hst⟩ := Option.map_eq_some_iff.mp hst
    obtain ⟨href, hcalls⟩ := h.progress ha (hok a ha) (show Continues [info] from nofun)
    rw [hst] at href hcalls
    rw [Direct.step, h.file ha, hcalls]
    exact ⟨files, rfl, href⟩
  | reader i offsetLw offsetHw size =>
    obtain ⟨a, ha, hst⟩ := Option.bind_eq_some_iff.mp hst
    obtain ⟨⟨key, bytes⟩, hkey, hst⟩ := Option.map_eq_some_iff.mp hst
    obtain ⟨files', hstep, href⟩ := h.reader ha hkey offsetLw offsetHw size
    rw [hst] at hstep href
    exact ⟨files', hstep, href⟩
  | getMyPeerId =>
    cases hst
    exact ⟨_, rfl, h.start .myPeerId⟩
  | hello i peer =>
    obtain ⟨a, ha, hst⟩ := Option.map_eq_some_iff.mp hst
    obtain ⟨href, hcalls⟩ := h.hello ha (hok a ha) peer
    rw [hst] at href hcalls
    rw [Direct.step, h.file ha, hcalls]
    exact ⟨files, rfl, href⟩
  | monitorTransport =>
    cases hst
    exact ⟨_, rfl, h.start .transportPeers⟩
  | transportPeer i report =>
    obtain ⟨a, ha, hst⟩ := Option.map_eq_some_iff.mp hst
    rw [h.callObject ha (hok a ha) rfl] at hst
    cases hst
    rw [Direct.step, h.file ha]
    exact ⟨files, rfl, h⟩
  | monitorCore =>
    cases hst
    exact ⟨_, rfl, h.start .corePeers⟩
  | corePeer i message =>
    obtain ⟨a, ha, hst⟩ := Option.map_eq_some_iff.mp hst
    rw [h.callObject ha (hok a ha) rfl] at hst
    cases hst
    rw [Direct.step, h.file ha]
    exact ⟨files, rfl, h⟩

end Refines

variable {es : List Event} {os : List Output} {st : State}

theorem calls_ne_failed (i cctx : Nat) (infos : List ProgressInfo) :
    ∀ o ∈ calls i cctx infos, o ≠ .failed := by
  rintro o ho rfl
  obtain ⟨info, -, ho⟩ := List.mem_filterMap.mp ho
  obtain ⟨_, -, ho⟩ := Option.map_eq_some_iff.mp ho
  cases ho

theorem Direct.ne_failed {files files' : Direct.State} {e : Event} {os : List Output}
    (hst : Direct.step files e = some (files', os)) : ∀ o ∈ os, o ≠ .failed := by
  cases e with
  | startSearch early | startDownload early | startPublish file early =>
    cases hst
    exact calls_ne_failed _ _ _
  | stopSearch i late | progress i info =>
    obtain ⟨_, -, hst⟩ := Option.map_eq_some_iff.mp hst
    cases hst
    exact calls_ne_failed _ _ _
  | reader i offsetLw offsetHw size =>
    obtain ⟨_, -, hst⟩ := Option.bind_eq_some_iff.mp hst
    obtain ⟨bytes, -, hst⟩ := Option.map_eq_some_iff.mp hst
    split at hst
    · cases hst
      nofun
    · cases hst
      intro o ho
      rw [List.mem_singleton.mp ho]
      nofun
  | getMyPeerId | monitorTransport | monitorCore =>
    cases hst
    nofun
  | hello i _ | transportPeer i _ | corePeer i _ =>
    obtain ⟨_, -, hst⟩ := Option.map_eq_some_iff.mp hst
    cases hst
    intro o ho
    rw [List.mem_singleton.mp ho]
    nofun

/-- **The client is as if there were no keys.**  Whatever is started and stopped, in a run in
which the C code keeps to its rules each call reaches the callback of its own activity, with the
metadata that was reported, and each read is from the file of its own publish; no call fails.
What is registered is the callbacks and closures of the activities that go on and the files that
are not closed. -/
theorem client_refines (h : system.Run Allowed es os st) :
    (∃ files, Direct.system.Run anyEvent es (os.map Output.place) files) ∧
      (∀ k object, st.objects.get k = some object ↔
        ∃ (i : Nat) (a : Activity), st.activities[i]? = some a ∧ a.Holds i k object) ∧
      .failed ∉ os := by
  obtain ⟨files, hrun, href⟩ := h.refine (N := Direct.system) (R := Refines) Output.place
    (fun _ _ _ _ _ href hok hst => href.steps hok hst) ⟨.init, rfl⟩
  refine ⟨⟨files, hrun⟩, href.owns.get, fun hfailed => ?_⟩
  have hnone : ∀ o ∈ os.map Output.place, o ≠ Output.failed :=
    hrun.history (P := fun os _ => ∀ o ∈ os, o ≠ Output.failed)
      (fun _ _ _ _ _ hos _ hst => List.forall_mem_append.mpr ⟨hos, Direct.ne_failed hst⟩) nofun
  exact hnone _ (List.mem_map_of_mem hfailed) rfl

instance (st : State) (e : Event) : Decidable (Allowed st e) :=
  match e with
  | .startSearch early | .startDownload early | .startPublish _ early =>
    inferInstanceAs (Decidable (Continues early))
  | .stopSearch i _ => inferInstanceAs (Decidable (∀ a ∈ st.activities[i]?, _ ∧ _))
  | .progress i _ => inferInstanceAs (Decidable (∀ a ∈ st.activities[i]?, a.Reports))
  | .hello i _ => inferInstanceAs (Decidable (∀ a ∈ st.activities[i]?, a.Goes .myPeerId))
  | .transportPeer i _ =>
    inferInstanceAs (Decidable (∀ a ∈ st.activities[i]?, a.Goes .transportPeers))
  | .corePeer i _ => inferInstanceAs (Decidable (∀ a ∈ st.activities[i]?, a.Goes .corePeers))
  | .reader _ _ _ _ | .getMyPeerId | .monitorTransport | .monitorCore => .isTrue trivial

/-- A report of the given status, about nothing. -/
def plainReport (status : Nat) : ProgressInfo := ⟨status, [], 0, 0, 0, 0, 0, 0, "", [], true⟩

/-- A search has a result with metadata while a file is published. -/
def twoActivities : List Event := [
  .getMyPeerId,
  .monitorTransport,
  .startSearch [plainReport 17],
  .hello 0 [1, 2],
  .startPublish [1, 2, 3] [plainReport 0],
  .transportPeer 1 ⟨[3, 4], 5, some "http_client", 9, ""⟩,
  .progress 2 { plainReport 21 with metadata := [⟨"", 2, 1, "text/plain", [97, 0], "a"⟩] },
  .reader 3 1 0 2,
  .startDownload [],
  .stopSearch 2 [{ plainReport 27 with kept := false }, plainReport 29],
  .progress 3 (plainReport 5),
  .reader 3 0 0 0,
  .progress 4 (plainReport 12)]

theorem client_refines_two : ∃ (os : List Output) (st : State) (files : Direct.State),
    Direct.system.Run anyEvent twoActivities (os.map Output.place) files ∧
    (∀ k object, st.objects.get k = some object ↔
      ∃ (i : Nat) (a : Activity), st.activities[i]? = some a ∧ a.Holds i k object) ∧
    Output.failed ∉ os ∧ os.length = 8 ∧ st.objects.objects.keys = [1, 4, 6] := by
  obtain ⟨os, st, hrun, hlen, hkeys⟩ : ∃ os st, system.Run Allowed twoActivities os st ∧
      os.length = 8 ∧ st.objects.objects.keys = [1, 4, 6] :=
    ⟨_, _, .of_restrict (Steps.of_exec (fun _ _ => trivial) rfl), rfl, rfl⟩
  obtain ⟨⟨files, hdirect⟩, hget, hfailed⟩ := client_refines hrun
  exact ⟨os, st, files, hdirect, hget, hfailed, hlen, hkeys⟩

/-- The C code goes on with a publish after a report that is ignored: the next one comes to the
search. -/
theorem ignored_report : ∃ (os : List Output) (st : State) (parsed : Info),
    system.Run anyEvent [.startSearch [], .startPublish [] [], .progress 1 (plainReport 4),
      .progress 1 (plainReport 3)] os st ∧ os = [.call 0 (.info parsed)] ∧
    (plainReport 3).parse 0 = some parsed :=
  ⟨_, _, _, Steps.of_exec (fun _ _ => trivial) rfl, rfl, rfl⟩

end GnunetWeb.Client
