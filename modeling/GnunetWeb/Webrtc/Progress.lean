import GnunetWeb.Webrtc.Matching

/-!
# Exchanges are completed

No exchange of an offer and an answer is stuck while the plugins run.

Proved here:

* `Described.stage_of_quiet`: where nothing can happen, every exchange is at its last stage, if
  the windows have done their part;
* `answers_delivered`: so every dial has got its answer.
-/

namespace GnunetWeb.Webrtc

namespace Net

variable {Peer : Type} [DecidableEq Peer] {st st' : Net Peer} {p q : Peer} {n m c : Nat} {s : Ptr}
  {ch ch' : CadetChannel Peer} {x : Nat → Exchange} {conn conn' : Connection}

/-- A peer is dialled, or a window comes or goes. -/
def Event.External : Event Peer → Prop
  | .getSession _ _ _ _ | .onconnect _ | .close _ _ => True
  | _ => False

/-- Nothing can happen until a peer is dialled, or a window comes or goes. -/
def Quiet (st : Net Peer) : Prop := ∀ e : Event Peer, ¬ e.External → st.step e = none

/-- The window to which each peer posts is open, it was there for each connection, and no
promise of a connection has been rejected. -/
structure Attended (st : Net Peer) : Prop where
  opened : ∀ p n conn, st.connections p n = some conn → st.doToWindow p = some true
  work : ∀ p n conn, st.connections p n = some conn →
    conn.work ≠ .unposted ∧ conn.work ≠ .rejected

/-- The session descriptions are not empty, and fit into a message. -/
def Sendable (st : Net Peer) : Prop := ∀ p n conn sdp, st.connections p n = some conn →
  conn.localDescription = some sdp → cString sdp ≠ [] ∧ (cString sdp).length + 4 < 65536

section Quiet

/-- Nothing is left to do in a window. -/
theorem described_of_quiet (hquiet : Quiet st) (hattended : Attended st)
    (hconn : st.connections p n = some conn) : conn.work = .described := by
  have hopened := hattended.opened p n conn hconn
  obtain ⟨hposted, hresolved⟩ := hattended.work p n conn hconn
  have hnone : ∀ f : Connection → Option Connection, st.inWindow p n f = none → f conn = none := by
    intro f hf
    rwa [inWindow, if_pos hopened, hconn, Option.bind_some, Option.map_eq_none_iff] at hf
  cases hwork : conn.work with
  | unposted => exact absurd hwork hposted
  | posted => simpa [hwork] using hnone _ (hquiet (.peerConnect p n) id)
  | creatingOffer => simpa [hwork] using hnone _ (hquiet (.offerCreated p n []) id)
  | settingOffer => simpa [hwork] using hnone _ (hquiet (.offerSet p n) id)
  | creatingAnswer => simpa [hwork] using hnone _ (hquiet (.answerCreated p n []) id)
  | described => rfl
  | rejected => exact absurd hwork hresolved

omit [DecidableEq Peer] in
/-- A message in the plugin of a session is sent. -/
theorem sendDescription_some (st : Net Peer) {type : Sdp → Message} {sdp : Sdp}
    {y : Session Peer ChannelEnd} {incoming : Bool} (hfailed : (st.plugin p).failed = none)
    (hsize : (cString sdp).length + 4 < 65536) (hheap : (st.plugin p).heap s = some y)
    (hchannel : y.channel = some ⟨c, incoming⟩) (hch : st.channels c = some ch) :
    st.sendDescription p s type sdp ≠ none := by
  rw [sendDescription, if_pos ⟨hfailed, hsize⟩, hheap, Option.bind_some, hchannel,
    Option.bind_some, send_eq hch]
  exact Option.some_ne_none _

/-- **No exchange is stuck** while the plugins run and the windows are open. -/
theorem Described.stage_of_quiet (h : Described st x) (hquiet : Quiet st)
    (hfailed : ∀ p, (st.plugin p).failed = none)
    (hnew : ∀ p, ∃ s, s ≠ 0 ∧ (st.plugin p).heap s = none) (hattended : Attended st)
    (hsendable : Sendable st) (hch : st.channels c = some ch) :
    ∃ o m s a, (x c).stage = .answered o m s a := by
  have hc := h.holds c ch hch
  have hdialling := described_of_quiet hquiet hattended hc.dialling
  cases hold : (x c).stage with
  | unposted | posted | creatingOffer | rejected =>
    rw [hold] at hdialling
    cases hdialling
  | offerCreated o =>
    have hconn := hc.dialling
    rw [hold] at hconn
    refine absurd (hquiet (.pluginMessage ch.initiator (x c).number) id) ?_
    rw [Net.step, hconn]
    exact sendDescription_some (Net.setConnection _ _ _ _) (hfailed ch.initiator)
      (hsendable _ _ _ o hconn rfl).2 hc.session rfl hch
  | offerSent o =>
    cases hlookup : (st.plugin ch.target).contexts.lookup ⟨c, true⟩ with
    | none =>
      obtain ⟨s, hzero, hs⟩ := hnew ch.target
      have := hquiet (.connect c s) id
      simp [Net.step, hch, pluginStep, State.step, hfailed, hzero, hs, hlookup] at this
    | some s =>
      have := hquiet (.handleOffer c) id
      simp [Net.step, hch, hc.toTarget, hold, Stage.toTarget, pluginStep, State.step, hfailed,
        hlookup, setChannel] at this
  | offerLost o => exact absurd (hfailed ch.target) (hc.lost o hold)
  | answering o m s work =>
    obtain ⟨⟨conn, hconn, ha⟩, -⟩ := hc.answering m s (by rw [hold]; rfl)
    rw [hold] at ha
    obtain ⟨hwork, -, rfl⟩ := ha
    obtain rfl : work = .described := described_of_quiet hquiet hattended hconn
    simp at hwork
  | misread o m s =>
    obtain ⟨⟨conn, hconn, ha⟩, -⟩ := hc.answering m s (by rw [hold]; rfl)
    rw [hold] at ha
    have hdial := hc.dialling
    rw [hold] at hdial
    exact absurd ha.1 (hsendable _ _ _ o hdial rfl).1
  | answerCreated o m s a =>
    obtain ⟨⟨conn, hconn, ha⟩, y, hy, -, hchannel⟩ := hc.answering m s (by rw [hold]; rfl)
    rw [hold] at ha
    cases ha
    refine absurd (hquiet (.pluginMessage ch.target m) id) ?_
    rw [Net.step, hconn]
    exact sendDescription_some (Net.setConnection _ _ _ _) (hfailed ch.target)
      (hsendable _ _ _ a hconn rfl).2 hy hchannel hch
  | answerSent o m s a =>
    have := hquiet (.handleAnswer c) id
    simp [Net.step, hch, hc.toInitiator, hold, Stage.toInitiator, Net.handleAnswer, setChannel,
      hfailed, hc.session, hc.dialling] at this
  | answerPosted o m s a =>
    have hconn := hc.dialling
    rw [hold] at hconn
    have := hquiet (.windowMessage ch.initiator (x c).number) id
    simp [Net.step, inWindow, hattended.opened _ _ _ hconn, hconn, Stage.dialling,
      Connection.takeAnswer] at this
  | answered o m s a => exact ⟨o, m, s, a, rfl⟩

end Quiet

/-- **Nothing is left under way.**  When nothing can happen in a run any more until a peer is
dialled or a window comes or goes, every dial has got the answer to its offer, if no plugin has
failed or run out of memory, the windows are open and none of their promises was rejected, and
no description was empty or too long. -/
theorem answers_delivered {es : List (Event Peer)} {os : List Unit}
    (h : system.Run EventSystem.anyEvent es os st) (hquiet : Quiet st)
    (hfailed : ∀ p, (st.plugin p).failed = none)
    (hnew : ∀ p, ∃ s, s ≠ 0 ∧ (st.plugin p).heap s = none) (hattended : Attended st)
    (hsendable : Sendable st) :
    ∀ c ch, st.channels c = some ch → ∃ n m,
      st.endOf ch.initiator n = some ⟨c, false⟩ ∧ AnsweredBy st ch.initiator n ch.target m := by
  intro c ch hch
  obtain ⟨x, hx⟩ := described_run h
  obtain ⟨o, m, s, a, hold⟩ := hx.stage_of_quiet hquiet hfailed hnew hattended hsendable hch
  exact ⟨(x c).number, m, (hx.holds c ch hch).endOf_dialling, (hx.answered hch hold).1⟩

/-- Two peers dial each other, and both get their answers. -/
def bothAnswered : List (Event Bool) :=
  [.onconnect true, .onconnect false, .onconnect true, .close true 1,
    .getSession true false 16 true, .getSession false true 32 true, .peerConnect true 1,
    .offerCreated true 1 [118], .pluginMessage true 1, .connect 0 48, .handleOffer 0,
    .peerConnect false 2, .offerSet false 2, .answerCreated false 2 [119], .pluginMessage false 2,
    .handleAnswer 0, .windowMessage true 1, .peerConnect false 1, .offerCreated false 1 [120],
    .pluginMessage false 1, .connect 1 64, .handleOffer 1, .peerConnect true 2, .offerSet true 2,
    .answerCreated true 2 [121], .pluginMessage true 2, .handleAnswer 1, .windowMessage false 1]

/-- All messages have been taken. -/
theorem quiet_of_taken
    (hch : ∀ c ch, st.channels c = some ch → ch.toTarget = [] ∧ ch.toInitiator = [] ∧
      ∃ s, (st.plugin ch.target).contexts.lookup ⟨c, true⟩ = some s)
    (hconn : ∀ p n conn, st.connections p n = some conn → conn.work = .described ∧
      conn.toPlugin = [] ∧ conn.toWindow = []) : Quiet st := by
  intro e he
  cases hst : st.step e with
  | none => rfl
  | some st' =>
    cases e with
    | getSession p q s opens | onconnect p | close p w => exact absurd trivial he
    | connect c s =>
      obtain ⟨ch, hc, hst⟩ := Option.bind_eq_some_iff.mp hst
      obtain ⟨r, hr, -⟩ := Option.map_eq_some_iff.mp hst
      obtain ⟨s', hs'⟩ := (hch c ch hc).2.2
      rw [(step_connect hr).2.1.2.2] at hs'
      cases hs'
    | handleOffer c =>
      obtain ⟨ch, hc, hst⟩ := Option.bind_eq_some_iff.mp hst
      rw [(hch c ch hc).1] at hst
      cases hst
    | handleAnswer c =>
      obtain ⟨ch, hc, hst⟩ := Option.bind_eq_some_iff.mp hst
      rw [(hch c ch hc).2.1] at hst
      cases hst
    | peerConnect p n | offerCreated p n sdp | offerSet p n | answerCreated p n sdp
    | rejected p n =>
      obtain ⟨conn, hc, hwork, -⟩ := of_inWindow_if hst
      rw [(hconn p n conn hc).1] at hwork
      simp [Work.promised] at hwork
    | pluginMessage p n =>
      obtain ⟨conn, hc, hst⟩ := Option.bind_eq_some_iff.mp hst
      rw [(hconn p n conn hc).2.1] at hst
      cases hst
    | windowMessage p n =>
      obtain ⟨conn, conn', hc, hwindow, -⟩ := of_inWindow hst
      obtain ⟨sdp, rest, hanswers, -⟩ := of_takeAnswer hwindow
      rw [(hconn p n conn hc).2.2] at hanswers
      cases hanswers

theorem answers_delivered_two : ∃ (st : Net Bool) (os : List Unit),
    system.Run EventSystem.anyEvent bothAnswered os st ∧
      ∃ n m, AnsweredBy st true n false m := by
  have hrun : ∃ r : Net Bool × List Unit, system.exec init bothAnswered = some r ∧
      (r.1.channels 0 = some ⟨true, 16, false, [], []⟩ ∧
        r.1.channels 1 = some ⟨false, 32, true, [], []⟩ ∧ ∀ c, r.1.channels (c + 2) = none) ∧
      ((r.1.plugin false).contexts = [(⟨0, true⟩, 48)] ∧
        (r.1.plugin true).contexts = [(⟨1, true⟩, 64)]) ∧
      (∀ p, r.1.connections p 0 = none ∧ (∃ conn, r.1.connections p 1 = some conn ∧
          conn.work = .described ∧ conn.toPlugin = [] ∧ conn.toWindow = [] ∧
          conn.localDescription = some [if p then 118 else 120]) ∧
        (∃ conn, r.1.connections p 2 = some conn ∧ conn.work = .described ∧ conn.toPlugin = [] ∧
          conn.toWindow = [] ∧ conn.localDescription = some [if p then 121 else 119]) ∧
        ∀ n, r.1.connections p (n + 3) = none) ∧
      (∀ p, (r.1.plugin p).failed = none) ∧ (∀ p, (r.1.plugin p).heap 80 = none) ∧
      ∀ p, r.1.doToWindow p = some true := by
    refine ⟨_, rfl, ⟨rfl, rfl, fun c => rfl⟩, ⟨rfl, rfl⟩, fun p => ?_, fun p => ?_, fun p => ?_,
      fun p => ?_⟩
    · cases p
      · exact ⟨rfl, ⟨_, rfl, rfl, rfl, rfl, rfl⟩, ⟨_, rfl, rfl, rfl, rfl, rfl⟩, fun n => rfl⟩
      · exact ⟨rfl, ⟨_, rfl, rfl, rfl, rfl, rfl⟩, ⟨_, rfl, rfl, rfl, rfl, rfl⟩, fun n => rfl⟩
    · cases p <;> rfl
    · cases p <;> rfl
    · cases p <;> rfl
  obtain ⟨r, hexec, ⟨hfirst, hsecond, hrest⟩, ⟨hfalse, htrue⟩, hconns, hfailed, hnew,
    hopened⟩ := hrun
  have h : (@system Bool _).Run EventSystem.anyEvent bothAnswered r.2 r.1 :=
    EventSystem.Steps.of_exec (fun _ _ => trivial) hexec
  have hconn : ∀ p n conn, r.1.connections p n = some conn → (conn.work = .described ∧
      conn.toPlugin = [] ∧ conn.toWindow = []) ∧
        ∃ b : UInt8, b ≠ 0 ∧ conn.localDescription = some [b] := by
    intro p n conn hconn
    obtain ⟨hnone, ⟨conn₁, hconn₁, hwork₁, hp₁, hw₁, hsdp₁⟩,
      ⟨conn₂, hconn₂, hwork₂, hp₂, hw₂, hsdp₂⟩, hmore⟩ := hconns p
    match n with
    | 0 =>
      rw [hnone] at hconn
      cases hconn
    | 1 =>
      obtain rfl := Option.some.inj (hconn₁.symm.trans hconn)
      exact ⟨⟨hwork₁, hp₁, hw₁⟩, _, by cases p <;> decide, hsdp₁⟩
    | 2 =>
      obtain rfl := Option.some.inj (hconn₂.symm.trans hconn)
      exact ⟨⟨hwork₂, hp₂, hw₂⟩, _, by cases p <;> decide, hsdp₂⟩
    | n + 3 =>
      rw [hmore n] at hconn
      cases hconn
  have hchannel : ∀ c ch, r.1.channels c = some ch → ch.toTarget = [] ∧ ch.toInitiator = [] ∧
      ∃ s, (r.1.plugin ch.target).contexts.lookup ⟨c, true⟩ = some s := by
    intro c ch hch
    match c with
    | 0 =>
      obtain rfl := Option.some.inj (hfirst.symm.trans hch)
      exact ⟨rfl, rfl, 48, by rw [hfalse]; rfl⟩
    | 1 =>
      obtain rfl := Option.some.inj (hsecond.symm.trans hch)
      exact ⟨rfl, rfl, 64, by rw [htrue]; rfl⟩
    | c + 2 =>
      rw [hrest c] at hch
      cases hch
  have hattended : Attended r.1 := by
    refine ⟨fun p _ _ _ => hopened p, fun p n conn hc => ?_⟩
    rw [(hconn p n conn hc).1.1]
    decide
  have hsendable : Sendable r.1 := by
    intro p n conn sdp hc hsdp
    obtain ⟨b, hb, he⟩ := (hconn p n conn hc).2
    obtain rfl := Option.some.inj (he.symm.trans hsdp)
    simp [cString, hb]
  obtain ⟨n, m, -, hanswered⟩ := answers_delivered h
    (quiet_of_taken hchannel fun p n conn hc => (hconn p n conn hc).1) hfailed
    (fun p => ⟨80, by decide, hnew p⟩) hattended hsendable 0 _ hfirst
  exact ⟨r.1, r.2, h, n, m, hanswered⟩

end Net

end GnunetWeb.Webrtc
