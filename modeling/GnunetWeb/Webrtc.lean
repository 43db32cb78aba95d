import GnunetWeb.Heap
import GnunetWeb.Library.EventSystem
import Mathlib.Logic.Function.Basic

/-!
# The sessions of the WebRTC plugin

`plugin_transport_webrtc.c`: the transport service dials with `webrtc_plugin_get_session`,
another peer with a CADET channel, for which `connect_cb` is called.  An offer that comes
in on such a channel is handled with what `connect_cb` has returned.  The peer map takes a
value with `UNIQUE_FAST` without looking whether there is one, and finds the newest.

Proved here:

* `getSession_meets`: a dial keeps one session for each peer;
* `not_meets_connect`: no incoming connection does what it should;
* `sessions_iff`: the runs in which each step does.
-/

namespace GnunetWeb.Webrtc

/-- `struct GNUNET_ATS_Session` -/
structure Session (Peer Channel : Type) where
  peer : Peer
  channel : Option Channel
  rtcPeerConnection : Nat

inductive Fault where
  /-- `GNUNET_assert (s->channel != NULL)` -/
  | channel
  /-- a session is written to through `NULL` -/
  | nullPointer
  deriving DecidableEq

structure State (Peer Channel : Type) where
  heap : Ptr → Option (Session Peer Channel)
  /-- `plugin->sessions`, the newest first -/
  sessions : List (Peer × Ptr)
  /-- the incoming channels, with what `connect_cb` has returned -/
  contexts : List (Channel × Ptr)
  nextConnection : Nat
  failed : Option Fault

inductive Event (Peer Channel : Type) where
  /-- `s` and `channel` are what `GNUNET_new` and `GNUNET_CADET_channel_create` return -/
  | getSession (peer : Peer) (s : Ptr) (channel : Option Channel)
  | connect (channel : Channel) (initiator : Peer) (s : Ptr)
  | offer (channel : Channel) (sdp : List UInt8)

inductive Output where
  | returned (s : Ptr)
  /-- `peer_connect`, with its offer and its closure -/
  | peerConnect (offer : Option (List UInt8)) (s : Ptr)
  /-- `handle_offer` is called -/
  | handleOffer (s : Ptr)
  deriving DecidableEq

namespace State

variable {Peer Channel : Type}

def init : State Peer Channel := ⟨fun _ => none, [], [], 1, none⟩

/-- The peers that have a session. -/
def peers (st : State Peer Channel) : List Peer := st.sessions.map Prod.fst

/-- `GNUNET_CONTAINER_multipeermap_get` -/
def multipeermapGet [DecidableEq Peer] (st : State Peer Channel) (peer : Peer) : Option Ptr :=
  st.sessions.lookup peer

/-- A new session, and `GNUNET_CONTAINER_multipeermap_put` with `UNIQUE_FAST`. -/
def put (st : State Peer Channel) (s : Ptr) (x : Session Peer Channel) : State Peer Channel :=
  { st with heap := Function.update st.heap s (some x), sessions := (x.peer, s) :: st.sessions }

/-- `webrtc_plugin_get_session`; for a session that it has made it returns `NULL`. -/
def getSession [DecidableEq Peer] (st : State Peer Channel) (peer : Peer) (s : Ptr)
    (channel : Option Channel) : State Peer Channel × List Output :=
  match st.multipeermapGet peer with
  | some s => (st, [.returned s])
  | none =>
    match channel with
    | none => ({ st.put s ⟨peer, none, 0⟩ with failed := some .channel }, [])
    | some channel =>
      ({ st.put s ⟨peer, some channel, st.nextConnection⟩ with
          nextConnection := st.nextConnection + 1 },
        [.peerConnect none s, .returned 0])

/-- `connect_cb` -/
def connectCb [DecidableEq Peer] (st : State Peer Channel) (channel : Channel) (initiator : Peer)
    (s : Ptr) : State Peer Channel × Ptr :=
  match st.multipeermapGet initiator with
  | none => (st, 0)
  | some _ => (st.put s ⟨initiator, some channel, 0⟩, s)

/-- `handle_offer` -/
def handleOffer (st : State Peer Channel) (s : Ptr) (sdp : List UInt8) :
    State Peer Channel × List Output :=
  let os := [.handleOffer s, .peerConnect (some sdp) s]
  match st.heap s with
  | none =>
    ({ st with nextConnection := st.nextConnection + 1, failed := some .nullPointer }, os)
  | some x =>
    ({ st with
        heap := Function.update st.heap s (some { x with rtcPeerConnection := st.nextConnection })
        nextConnection := st.nextConnection + 1 }, os)

variable [DecidableEq Peer] [DecidableEq Channel]

/-- One event.  What `GNUNET_new` returns is not in use. -/
def step (st : State Peer Channel) : Event Peer Channel → Option (State Peer Channel × List Output)
  | e =>
    if st.failed ≠ none then none
    else match e with
    | .getSession peer s channel =>
      if s ≠ 0 ∧ st.heap s = none then some (st.getSession peer s channel) else none
    | .connect channel initiator s =>
      if s ≠ 0 ∧ st.heap s = none ∧ st.contexts.lookup channel = none then
        let r := st.connectCb channel initiator s
        some ({ r.1 with contexts := (channel, r.2) :: r.1.contexts }, [.returned r.2])
      else none
    | .offer channel sdp => (st.contexts.lookup channel).map fun s => st.handleOffer s sdp

def system : EventSystem (State Peer Channel) (Event Peer Channel) Output := ⟨init, step⟩

/-! ## What a step should do -/

/-- A connection comes in. -/
def Incoming : Event Peer Channel → Prop
  | .connect _ _ _ => True
  | _ => False

/-- A peer has one session at most; a session is put in for a peer that has none; an
incoming connection of a peer without one gets a session with its channel, which is
returned; and no offer is handled without a session. -/
structure Meets (st : State Peer Channel) (e : Event Peer Channel)
    (r : State Peer Channel × List Output) : Prop where
  unique : r.1.peers.Nodup
  insertion : ∀ peer s, r.1.sessions = (peer, s) :: st.sessions → peer ∉ st.peers
  connect : ∀ channel initiator s, e = .connect channel initiator s → initiator ∉ st.peers →
    (initiator, s) ∈ r.1.sessions ∧ (∃ x, r.1.heap s = some x ∧ x.peer = initiator ∧
      x.channel = some channel) ∧ r.2 = [.returned s]
  offer : .handleOffer 0 ∉ r.2

variable {st : State Peer Channel}

omit [DecidableEq Channel] in
theorem multipeermapGet_eq_none {peer : Peer} :
    st.multipeermapGet peer = none ↔ peer ∉ st.peers := by
  rw [multipeermapGet, List.lookup_eq_none_iff, peers, List.mem_map]
  constructor
  · rintro h ⟨p, hp, rfl⟩
    simpa using h p hp
  · intro h p hp
    rw [bne_iff_ne]
    exact fun he => h ⟨p, hp, he.symm⟩

omit [DecidableEq Peer] [DecidableEq Channel] in
/-- The sessions stay as they are. -/
theorem meets_of_sessions {e : Event Peer Channel} {r : State Peer Channel × List Output}
    (hst : st.peers.Nodup) (he : ¬ Incoming e) (hr : r.1.sessions = st.sessions)
    (ho : .handleOffer 0 ∉ r.2) : Meets st e r where
  unique := by rwa [peers, hr]
  insertion peer s h := absurd (hr.symm.trans h) (List.cons_ne_self _ _).symm
  connect channel initiator s h := absurd (h ▸ trivial) he
  offer := ho

omit [DecidableEq Channel] in
/-- **A dial keeps one session for each peer.** -/
theorem getSession_meets (hst : st.peers.Nodup) (peer : Peer) (s : Ptr) (channel : Option Channel) :
    Meets st (.getSession peer s channel) (st.getSession peer s channel) := by
  unfold getSession
  cases hget : st.multipeermapGet peer with
  | some s' => exact meets_of_sessions hst id rfl (by simp)
  | none =>
    have hfresh := multipeermapGet_eq_none.mp hget
    have hput : ∀ r : State Peer Channel × List Output, r.1.sessions = (peer, s) :: st.sessions →
        .handleOffer 0 ∉ r.2 → Meets st (.getSession peer s channel) r := by
      intro r hr ho
      refine ⟨?_, fun peer' s' h => ?_, fun _ _ _ h => absurd h (by simp), ho⟩
      · rw [peers, hr]
        exact List.nodup_cons.mpr ⟨hfresh, hst⟩
      · rw [hr] at h
        obtain ⟨rfl, -⟩ := Prod.mk.inj (List.cons.inj h).1
        exact hfresh
    cases channel with
    | none => exact hput _ rfl List.not_mem_nil
    | some channel => exact hput _ rfl (by simp)

/-- **No incoming connection does what it should.**  For a peer with a session a second one
is put in; for a peer without one there is none. -/
theorem not_meets_connect {channel : Channel} {initiator : Peer} {s : Ptr}
    {r : State Peer Channel × List Output} (h : st.step (.connect channel initiator s) = some r) :
    ¬ Meets st (.connect channel initiator s) r := by
  intro hm
  unfold step at h
  split at h
  · cases h
  simp only at h
  split at h
  · rename_i hguard
    obtain rfl := Option.some.inj h
    unfold connectCb at hm
    cases hget : st.multipeermapGet initiator with
    | none =>
      rw [hget] at hm
      obtain ⟨-, -, hreturned⟩ := hm.connect _ _ _ rfl (multipeermapGet_eq_none.mp hget)
      have hs : s = 0 := by simpa using hreturned.symm
      exact hguard.1 hs
    | some s' =>
      rw [hget] at hm
      have hpeer : initiator ∈ st.peers := by
        by_contra hn
        rw [multipeermapGet_eq_none.mpr hn] at hget
        cases hget
      exact hm.insertion initiator s rfl hpeer
  · cases h

/-- A step without an incoming connection. -/
theorem meets_step {e : Event Peer Channel} {r : State Peer Channel × List Output}
    (hst : st.peers.Nodup ∧ st.contexts = []) (he : ¬ Incoming e) (h : st.step e = some r) :
    (r.1.peers.Nodup ∧ r.1.contexts = []) ∧ Meets st e r := by
  unfold step at h
  split at h
  · cases h
  cases e with
  | getSession peer s channel =>
    simp only at h
    split at h
    · obtain rfl := Option.some.inj h
      have hmeets := getSession_meets hst.1 peer s channel
      refine ⟨⟨hmeets.unique, ?_⟩, hmeets⟩
      have hcontexts : (st.getSession peer s channel).1.contexts = st.contexts := by
        unfold getSession
        cases st.multipeermapGet peer with
        | some _ => rfl
        | none => cases channel <;> rfl
      exact hcontexts.trans hst.2
    · cases h
  | connect channel initiator s => exact absurd trivial he
  | offer channel sdp =>
    -- there is no channel for an offer to come in on
    simp only [hst.2, List.lookup_nil, Option.map_none] at h
    cases h

/-- **When the session table is right.**  Every step of a run does what it should exactly
when no connection comes in. -/
theorem sessions_iff {es : List (Event Peer Channel)} {os : List Output}
    (h : system.Run EventSystem.anyEvent es os st) :
    system.Throughout Meets es ↔ ∀ e ∈ es, ¬ Incoming e := by
  constructor
  · intro hmeets e he hincoming
    obtain ⟨s, r, hst, hm⟩ := hmeets.of_mem h he
    cases e with
    | connect channel initiator s => exact not_meets_connect hst hm
    | getSession _ _ _ => exact hincoming
    | offer _ _ => exact hincoming
  · intro hes
    exact EventSystem.throughout_of_invariant (I := fun st => st.peers.Nodup ∧ st.contexts = [])
      ⟨List.nodup_nil, rfl⟩ (fun st e r hst he h => meets_step hst he h) hes

/-- One peer is dialled twice, and another one once. -/
theorem sessions_iff_dials : system.Throughout Meets
    ([.getSession 7 16 (some 1), .getSession 7 32 (some 2), .getSession 8 32 (some 2)] :
      List (Event Nat Nat)) := by
  have hrun : ∃ os st, (@system Nat Nat _ _).Run EventSystem.anyEvent
      [.getSession 7 16 (some 1), .getSession 7 32 (some 2), .getSession 8 32 (some 2)] os st :=
    ⟨_, _, EventSystem.Steps.of_exec (fun _ _ => trivial) rfl⟩
  obtain ⟨os, st, h⟩ := hrun
  exact (sessions_iff h).mpr (by simp [Incoming])

/-- A peer without a session connects and gets none, and its offer is handled with `NULL`;
a peer with a session connects and gets a second one. -/
theorem connections_not_met :
    (∃ st, (@system Nat Nat _ _).Run EventSystem.anyEvent
      [.connect 1 7 16, .offer 1 [118]]
      [.returned 0, .handleOffer 0, .peerConnect (some [118]) 0] st ∧ st.peers = []) ∧
    (∃ os st, (@system Nat Nat _ _).Run EventSystem.anyEvent
      [.getSession 7 16 (some 1), .connect 2 7 32] os st ∧ st.peers = [7, 7]) ∧
    ¬ (@system Nat Nat _ _).Throughout Meets [.connect 1 7 16, .offer 1 [118]] := by
  have hlost : ∃ st, (@system Nat Nat _ _).Run EventSystem.anyEvent
      [.connect 1 7 16, .offer 1 [118]]
      [.returned 0, .handleOffer 0, .peerConnect (some [118]) 0] st ∧ st.peers = [] :=
    ⟨_, EventSystem.Steps.of_exec (fun _ _ => trivial) rfl, rfl⟩
  refine ⟨hlost, ⟨_, _, EventSystem.Steps.of_exec (fun _ _ => trivial) rfl, rfl⟩, fun hmeets => ?_⟩
  obtain ⟨st, h, -⟩ := hlost
  obtain ⟨s, r, hst, hm⟩ := hmeets.of_mem h List.mem_cons_self
  exact not_meets_connect hst hm

end State

end GnunetWeb.Webrtc
