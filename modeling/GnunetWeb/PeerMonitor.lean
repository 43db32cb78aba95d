import GnunetWeb.Library.FiniteMap
import Mathlib.Data.List.Dedup

/-!
# Monitoring peers

The table `peers` of `index.cljs.hl`.  The transport monitor and the core monitor report from
two workers, so that their messages are interleaved in any way; a message of the core about a
peer that is not in the table is left out.

Proved here:

* `get?_run_append`: what one message does to the entry of a peer;
* `get?_run`: the table after any messages without a disconnect;
* `peers_table`: when it is what the last messages of both monitors say;
* `peers_order`: two interleavings with different tables.
-/

namespace GnunetWeb.PeerMonitor

/-- 32 bytes -/
abbrev Peer := List UInt8

/-- `transport/state-connected` -/
def transportConnected : Nat := 5

/-- `transport/state-disconnected` -/
def transportDisconnected : Nat := 10

/-- `core/state-connected` -/
def coreConnected : Nat := 3

/-- `core/iteration-finished` -/
def coreIterationFinished : Nat := 6

structure TransportMessage where
  peer : Peer
  state : Nat
  address : Option String
  deriving DecidableEq

structure CoreMessage where
  peer : Peer
  state : Nat
  deriving DecidableEq

/-- An entry of the table; `:core-state` may be missing. -/
structure PeerInfo where
  transportState : Nat
  address : Option String
  coreState : Option Nat
  deriving DecidableEq

abbrev Peers := FiniteMap Peer PeerInfo

/-- `connection-count` counts the peers with such an entry. -/
def PeerInfo.connected (info : PeerInfo) : Bool :=
  info.transportState = transportConnected ∧ info.coreState = some coreConnected

def connectionCount (peers : Peers) : Nat :=
  (peers.entries.filter fun e => e.2.connected).length

/-- The function that is passed to `transport/monitor-peers`. -/
def transportCallback (peers : Peers) (message : TransportMessage) : Peers :=
  if message.state = transportDisconnected then peers.dissoc message.peer
  else
    let coreState := (peers.get? message.peer).bind PeerInfo.coreState
    peers.assoc message.peer ⟨message.state, message.address, coreState⟩

/-- The function that is passed to `core/monitor-peers`. -/
def coreCallback (peers : Peers) (message : CoreMessage) : Peers :=
  if message.state ≠ coreIterationFinished then
    match peers.get? message.peer with
    | some info => peers.assoc message.peer { info with coreState := some message.state }
    | none => peers
  else peers

/-- A message of one of the monitors. -/
inductive Message where
  | transport (message : TransportMessage)
  | core (message : CoreMessage)
  deriving DecidableEq

def Message.handle (peers : Peers) : Message → Peers
  | transport message => transportCallback peers message
  | core message => coreCallback peers message

/-- The table after the messages, in the order in which they come. -/
def run (es : List Message) : Peers := es.foldl Message.handle .empty

/-! ## What the messages say -/

/-- The sequence of the transport monitor. -/
def transports (es : List Message) : List TransportMessage :=
  es.filterMap fun
    | .transport m => some m
    | .core _ => none

/-- The sequence of the core monitor. -/
def cores (es : List Message) : List CoreMessage :=
  es.filterMap fun
    | .transport _ => none
    | .core m => some m

def lastTransport (ts : List TransportMessage) (peer : Peer) : Option TransportMessage :=
  (ts.filter fun m => m.peer = peer).getLast?

/-- The state of the last message about the peer that is not `iteration-finished`. -/
def lastCore (cs : List CoreMessage) (peer : Peer) : Option Nat :=
  (cs.filter fun m => m.peer = peer ∧ m.state ≠ coreIterationFinished).getLast?.map
    CoreMessage.state

/-- The entry of a peer that the last messages of two sequences describe. -/
def describedInfo (ts : List TransportMessage) (cs : List CoreMessage) (peer : Peer) :
    Option PeerInfo :=
  (lastTransport ts peer).map fun m => ⟨m.state, m.address, lastCore cs peer⟩

/-- The table has the entries `info`, and their count. -/
structure Shows (info : Peer → Option PeerInfo) (ts : List TransportMessage) (peers : Peers) :
    Prop where
  entries : ∀ peer, peers.get? peer = info peer
  count : connectionCount peers =
    (((ts.map TransportMessage.peer).dedup).filter fun p => (info p).any PeerInfo.connected).length

/-- A message of the transport about the peer. -/
def Message.introduces (peer : Peer) : Message → Bool
  | transport m => m.peer = peer
  | core _ => false

/-- The messages from the first one of the transport about the peer on. -/
def sinceTransport (es : List Message) (peer : Peer) : List Message :=
  es.dropWhile fun e => !e.introduces peer

/-- The core says something about each peer after the transport has mentioned it, if it says
anything at all. -/
def InTime (es : List Message) : Prop :=
  ∀ m ∈ transports es, lastCore (cores es) m.peer ≠ none →
    lastCore (cores (sinceTransport es m.peer)) m.peer ≠ none

/-! ## One message -/

theorem run_append (es : List Message) (e : Message) :
    run (es ++ [e]) = e.handle (run es) := by
  rw [run, List.foldl_append]
  rfl

theorem get?_transportCallback (peers : Peers) (m : TransportMessage) (peer : Peer) :
    (transportCallback peers m).get? peer =
      if m.peer = peer then
        if m.state = transportDisconnected then none
        else some ⟨m.state, m.address, (peers.get? peer).bind PeerInfo.coreState⟩
      else peers.get? peer := by
  rw [transportCallback]
  by_cases hp : m.peer = peer
  · subst hp
    split
    · simp [FiniteMap.get?_dissoc]
    · simp [FiniteMap.get?_assoc]
  · have hp' : ¬peer = m.peer := fun h => hp h.symm
    split
    · simp [FiniteMap.get?_dissoc, hp']
    · simp [FiniteMap.get?_assoc, hp]

theorem get?_coreCallback (peers : Peers) (m : CoreMessage) (peer : Peer) :
    (coreCallback peers m).get? peer =
      if m.peer = peer ∧ m.state ≠ coreIterationFinished then
        (peers.get? peer).map fun info => { info with coreState := some m.state }
      else peers.get? peer := by
  rw [coreCallback]
  by_cases hs : m.state ≠ coreIterationFinished
  · rw [if_pos hs]
    by_cases hp : m.peer = peer
    · subst hp
      rw [if_pos ⟨rfl, hs⟩]
      cases hi : peers.get? m.peer with
      | none => simp [hi]
      | some info => simp [FiniteMap.get?_assoc]
    · rw [if_neg fun h => hp h.1]
      cases hi : peers.get? m.peer with
      | none => rfl
      | some info => simp [FiniteMap.get?_assoc, hp]
  · rw [if_neg hs, if_neg fun h => hs h.2]

@[simp] theorem transports_append_transport (es : List Message) (m : TransportMessage) :
    transports (es ++ [.transport m]) = transports es ++ [m] := by
  simp [transports]

@[simp] theorem transports_append_core (es : List Message) (m : CoreMessage) :
    transports (es ++ [.core m]) = transports es := by
  simp [transports]

@[simp] theorem cores_append_transport (es : List Message) (m : TransportMessage) :
    cores (es ++ [.transport m]) = cores es := by
  simp [cores]

@[simp] theorem cores_append_core (es : List Message) (m : CoreMessage) :
    cores (es ++ [.core m]) = cores es ++ [m] := by
  simp [cores]

theorem lastTransport_append (ts : List TransportMessage) (m : TransportMessage) (peer : Peer) :
    lastTransport (ts ++ [m]) peer = if m.peer = peer then some m else lastTransport ts peer := by
  by_cases h : m.peer = peer
  · simp [lastTransport, List.filter_append, h]
  · simp [lastTransport, List.filter_append, h]

theorem lastCore_append (cs : List CoreMessage) (m : CoreMessage) (peer : Peer) :
    lastCore (cs ++ [m]) peer = if m.peer = peer ∧ m.state ≠ coreIterationFinished
      then some m.state else lastCore cs peer := by
  by_cases h : m.peer = peer ∧ m.state ≠ coreIterationFinished
  · simp [lastCore, List.filter_append, h]
  · rw [if_neg h, lastCore, List.filter_append]
    simp [lastCore, h]

theorem lastTransport_eq_none {es : List Message} {peer : Peer} :
    lastTransport (transports es) peer = none ↔ sinceTransport es peer = [] := by
  induction es using List.reverseRecOn with
  | nil => simp [lastTransport, transports, sinceTransport]
  | append_singleton es e ih =>
    rw [sinceTransport, List.dropWhile_append]
    cases e with
    | transport m =>
      rw [transports_append_transport, lastTransport_append]
      by_cases h : m.peer = peer
      · rw [if_pos h]
        refine iff_of_false (Option.some_ne_none m) ?_
        split
        · simp [h, Message.introduces]
        · simp
      · simp [h, ih, sinceTransport, Message.introduces]
    | core m => simp [ih, sinceTransport, Message.introduces]

/-- While the transport has not mentioned the peer, nothing is kept. -/
theorem sinceTransport_append (es : List Message) (e : Message) (peer : Peer) :
    sinceTransport (es ++ [e]) peer =
      if lastTransport (transports es) peer = none then
        if e.introduces peer then [e] else []
      else sinceTransport es peer ++ [e] := by
  rw [sinceTransport, List.dropWhile_append]
  by_cases h : lastTransport (transports es) peer = none
  · have hnil := lastTransport_eq_none.mp h
    rw [sinceTransport] at hnil
    rw [if_pos h, hnil]
    cases hi : e.introduces peer with
    | false => simp [hi]
    | true => simp [hi]
  · have hnil := mt lastTransport_eq_none.mpr h
    rw [sinceTransport] at hnil
    rw [if_neg h, if_neg (by simpa using hnil), sinceTransport]

/-! ## Any messages -/

/-- The entry of a peer as the order of the messages leaves it. -/
def info (es : List Message) (peer : Peer) : Option PeerInfo :=
  describedInfo (transports es) (cores (sinceTransport es peer)) peer

/-- **The table after any messages**: what the core says about a peer counts from the first
message of the transport about it. -/
theorem get?_run {es : List Message}
    (hd : ∀ m ∈ transports es, m.state ≠ transportDisconnected) (peer : Peer) :
    (run es).get? peer = info es peer := by
  induction es using List.reverseRecOn with
  | nil => rfl
  | append_singleton es e ih =>
    rw [run_append, info, describedInfo, sinceTransport_append]
    cases e with
    | transport m =>
      rw [transports_append_transport] at hd ⊢
      have ih := ih fun m' hm' => hd m' (List.mem_append_left _ hm')
      have hm : m.state ≠ transportDisconnected := hd m (by simp)
      rw [Message.handle, get?_transportCallback, lastTransport_append, ih, info, describedInfo]
      by_cases hp : m.peer = peer
      · cases hl : lastTransport (transports es) peer with
        | none => simp [hp, hm, Message.introduces, cores, lastCore]
        | some m' => simp [hp, hm]
      · cases hl : lastTransport (transports es) peer with
        | none => simp [hp]
        | some m' => simp [hp]
    | core m =>
      rw [transports_append_core] at hd ⊢
      rw [Message.handle, get?_coreCallback, ih hd, info, describedInfo]
      cases hl : lastTransport (transports es) peer with
      | none => simp
      | some m' =>
        simp only [Option.map_some, reduceCtorEq, if_false, cores_append_core, lastCore_append]
        split
        · rfl
        · rfl

/-- Of what the core says of a peer, the last message counts. -/
theorem lastCore_of_since {es : List Message} {peer : Peer} {state : Nat}
    (h : lastCore (cores (sinceTransport es peer)) peer = some state) :
    lastCore (cores es) peer = some state := by
  have hsplit := List.takeWhile_append_dropWhile (p := fun e : Message => !e.introduces peer)
    (l := es)
  rw [lastCore, Option.map_eq_some_iff] at h ⊢
  obtain ⟨m, hm, rfl⟩ := h
  refine ⟨m, ?_, rfl⟩
  rw [← hsplit, cores, List.filterMap_append, List.filter_append, List.getLast?_append]
  rw [sinceTransport, cores] at hm
  rw [hm, Option.some_or]

/-- The count follows from the entries. -/
theorem shows_of_entries {f : Peer → Option PeerInfo} {ts : List TransportMessage} {peers : Peers}
    (hentries : ∀ peer, peers.get? peer = f peer)
    (hpeers : ∀ peer, f peer ≠ none ↔ lastTransport ts peer ≠ none) : Shows f ts peers where
  entries := hentries
  count := by
    have hmem : ∀ peer, peer ∈ (ts.map TransportMessage.peer).dedup ↔ peers.get? peer ≠ none := by
      intro peer
      rw [hentries, hpeers, List.mem_dedup, lastTransport]
      simp
    rw [connectionCount, FiniteMap.count_entries peers _ (List.nodup_dedup _) hmem]
    simp only [hentries]

theorem describedInfo_ne_none (ts : List TransportMessage) (cs : List CoreMessage) (peer : Peer) :
    describedInfo ts cs peer ≠ none ↔ lastTransport ts peer ≠ none := by
  simp [describedInfo]

/-- **Monitoring peers.**  Without a disconnect, any interleaving leaves the table in which the
state of the core is that of its last message since the first one of the transport; it is the
table that the last messages of both monitors describe exactly when the core has said something
in time. -/
theorem peers_table {es : List Message}
    (hd : ∀ m ∈ transports es, m.state ≠ transportDisconnected) :
    Shows (info es) (transports es) (run es) ∧
      (Shows (describedInfo (transports es) (cores es)) (transports es) (run es) ↔ InTime es) := by
  have hrun := get?_run hd
  refine ⟨shows_of_entries hrun fun peer => describedInfo_ne_none _ _ peer, ?_, ?_⟩
  · intro h m hm hne
    have heq := (hrun m.peer).symm.trans (h.entries m.peer)
    rw [info, describedInfo, describedInfo] at heq
    cases hl : lastTransport (transports es) m.peer with
    | none =>
      rw [lastTransport, List.getLast?_eq_none_iff, List.filter_eq_nil_iff] at hl
      exact absurd (hl m hm) (by simp)
    | some m' =>
      rw [hl] at heq
      simp only [Option.map_some, Option.some.injEq, PeerInfo.mk.injEq, true_and] at heq
      rwa [heq]
  · intro h
    refine shows_of_entries (fun peer => ?_) (describedInfo_ne_none _ _)
    rw [hrun, info, describedInfo, describedInfo]
    cases hl : lastTransport (transports es) peer with
    | none => rfl
    | some m =>
      obtain ⟨hm, hpeer⟩ := List.mem_filter.mp (List.mem_of_getLast? hl)
      obtain rfl := of_decide_eq_true hpeer
      have hlast : lastCore (cores (sinceTransport es m.peer)) m.peer =
          lastCore (cores es) m.peer := by
        cases hs : lastCore (cores (sinceTransport es m.peer)) m.peer with
        | some state => exact (lastCore_of_since hs).symm
        | none =>
          by_contra hne
          exact h m hm (fun hn => hne hn.symm) hs
      rw [hlast]

/-- One peer that both workers report as connected, the transport first. -/
theorem peers_table_transport_first : Shows
    (describedInfo [⟨[7], 5, none⟩] [⟨[7], 3⟩]) [⟨[7], 5, none⟩]
    (run [.transport ⟨[7], 5, none⟩, .core ⟨[7], 3⟩]) := by
  have hd : ∀ m ∈ transports [.transport ⟨[7], 5, none⟩, .core ⟨[7], 3⟩],
      m.state ≠ transportDisconnected := by decide
  refine (peers_table hd).2.mpr ?_
  unfold InTime
  decide

/-- **The order matters.**  Of two interleavings of the same messages, the one in which the core
comes first leaves a peer that is not counted as connected. -/
theorem peers_order : ∃ es es' : List Message,
    transports es = transports es' ∧ cores es = cores es' ∧
    (∀ m ∈ transports es, m.state ≠ transportDisconnected) ∧
    (∀ m ∈ cores es, m.peer ∈ (transports es).map TransportMessage.peer) ∧
    connectionCount (run es) = 1 ∧ connectionCount (run es') = 0 ∧
    ¬ Shows (describedInfo (transports es') (cores es')) (transports es') (run es') := by
  refine ⟨[.transport ⟨[7], 5, none⟩, .core ⟨[7], 3⟩], [.core ⟨[7], 3⟩, .transport ⟨[7], 5, none⟩],
    by decide, by decide, by decide, by decide, by decide, by decide, fun h => ?_⟩
  exact absurd (h.entries [7]) (by decide)

end GnunetWeb.PeerMonitor
