import GnunetWeb.Webrtc.Exchange

/-!
# The stages of an exchange

The exchange on a CADET channel, from the dial to the answer: what each stage says of the
connections at the two ends, and of the messages of the channel.

Proved here:

* `Described.advance`: an exchange goes on without the others;
* `Described.start`, `Described.createOffer`, `Described.setOffer`, `Described.createAnswer`,
  `Described.reject`, `Described.takeAnswer`: the steps in the windows keep the description of a
  net by the stages of its exchanges.
-/

namespace GnunetWeb.Webrtc

/-! ## One exchange -/

/-- How far an exchange has come: with the offer `o`, the connection `m` that answers, in the
session `s`, and the answer `a`. -/
inductive Stage where
  /-- there was no window to make an offer in -/
  | unposted
  | posted
  | creatingOffer
  /-- no offer could be made -/
  | rejected
  | offerCreated (o : Sdp)
  | offerSent (o : Sdp)
  /-- there was no session to answer in -/
  | offerLost (o : Sdp)
  | answering (o : Sdp) (m : Nat) (s : Ptr) (work : Work)
  /-- an empty offer is taken for none -/
  | misread (o : Sdp) (m : Nat) (s : Ptr)
  | answerCreated (o : Sdp) (m : Nat) (s : Ptr) (a : Sdp)
  | answerSent (o : Sdp) (m : Nat) (s : Ptr) (a : Sdp)
  | answerPosted (o : Sdp) (m : Nat) (s : Ptr) (a : Sdp)
  | answered (o : Sdp) (m : Nat) (s : Ptr) (a : Sdp)

namespace Stage

/-- The connection of the dial. -/
def dialling (cls : Ptr) : Stage → Connection
  | unposted => ⟨cls, none, .unposted, none, [], [], []⟩
  | posted => ⟨cls, none, .posted, none, [], [], []⟩
  | creatingOffer => ⟨cls, none, .creatingOffer, none, [], [], []⟩
  | rejected => ⟨cls, none, .rejected, none, [], [], []⟩
  | offerCreated o => ⟨cls, none, .described, some o, [.offer o], [], []⟩
  | answerPosted o _ _ a => ⟨cls, none, .described, some o, [], [cString a], []⟩
  | answered o _ _ a => ⟨cls, none, .described, some o, [], [], [cString a]⟩
  | offerSent o | offerLost o | answering o _ _ _ | misread o _ _ | answerCreated o _ _ _
  | answerSent o _ _ _ => ⟨cls, none, .described, some o, [], [], []⟩

/-- The first stage, with the window of `do_to_window`. -/
def ofWindow : Option Bool → Stage
  | none => unposted
  | some _ => posted

/-- The number of the connection that answers, and its session. -/
def answerer : Stage → Option (Nat × Ptr)
  | answering _ m s _ | misread _ m s | answerCreated _ m s _ | answerSent _ m s _
  | answerPosted _ m s _ | answered _ m s _ => some (m, s)
  | _ => none

/-- The connection that answers. -/
def Answering (conn : Connection) : Stage → Prop
  | answering o _ s work =>
    work ∈ [.unposted, .posted, .settingOffer, .creatingAnswer, .rejected] ∧
    (work ∈ Work.promised → cString o ≠ []) ∧ conn = ⟨s, some (cString o), work, none, [], [], []⟩
  | misread o _ s => cString o = [] ∧ conn.cls = s ∧ conn.offer = some [] ∧
    conn.work ∈ [.creatingOffer, .described, .rejected] ∧
    (∀ msg ∈ conn.toPlugin, ∃ o, msg = .offer o) ∧ conn.toWindow = [] ∧ conn.answers = []
  | answerCreated o _ s a => conn = ⟨s, some (cString o), .described, some a, [.answer a], [], []⟩
  | answerSent o _ s a | answerPosted o _ s a | answered o _ s a =>
    conn = ⟨s, some (cString o), .described, some a, [], [], []⟩
  | _ => False

/-- The messages of the channel. -/
def toTarget : Stage → List Message
  | offerSent o => [.offer (cString o)]
  | _ => []

def toInitiator : Stage → List Message
  | answerSent _ _ _ a => [.answer (cString a)]
  | _ => []

variable {stage : Stage} {conn : Connection} {m : Nat} {s : Ptr}

theorem dialling_cls (cls : Ptr) (stage : Stage) : (stage.dialling cls).cls = cls := by
  cases stage <;> rfl

theorem dialling_ofWindow (cls : Ptr) (window : Option Bool) :
    (ofWindow window).dialling cls = peerConnect window none cls := by
  cases window <;> rfl

theorem Answering.cls (h : stage.Answering conn) (hs : stage.answerer = some (m, s)) :
    conn.cls = s := by
  cases stage with
  | answering o m' s' work =>
    obtain ⟨-, -, rfl⟩ := h
    cases hs
    rfl
  | misread o m' s' =>
    cases hs
    exact h.2.1
  | answerCreated o m' s' a | answerSent o m' s' a | answerPosted o m' s' a
  | answered o m' s' a =>
    cases hs
    cases h
    rfl
  | unposted | posted | creatingOffer | rejected | offerCreated o | offerSent o | offerLost o =>
    cases hs

theorem Answering.toWindow (h : stage.Answering conn) : conn.toWindow = [] := by
  cases stage with
  | answering o m' s' work =>
    obtain ⟨-, -, rfl⟩ := h
    rfl
  | misread o m' s' => exact h.2.2.2.2.2.1
  | answerCreated o m' s' a | answerSent o m' s' a | answerPosted o m' s' a
  | answered o m' s' a =>
    cases h
    rfl
  | unposted | posted | creatingOffer | rejected | offerCreated o | offerSent o | offerLost o =>
    cases h

theorem Answering.answers (h : stage.Answering conn) : conn.answers = [] := by
  cases stage with
  | answering o m' s' work =>
    obtain ⟨-, -, rfl⟩ := h
    rfl
  | misread o m' s' => exact h.2.2.2.2.2.2
  | answerCreated o m' s' a | answerSent o m' s' a | answerPosted o m' s' a
  | answered o m' s' a =>
    cases h
    rfl
  | unposted | posted | creatingOffer | rejected | offerCreated o | offerSent o | offerLost o =>
    cases h

/-- What its window has to say. -/
theorem Answering.of_toPlugin (h : stage.Answering conn) (hs : stage.answerer = some (m, s))
    {msg : Message} {rest : List Message} (hmsgs : conn.toPlugin = msg :: rest) :
    (∃ o a, stage = .answerCreated o m s a ∧ msg = .answer a ∧ rest = [] ∧
      conn = ⟨s, some (cString o), .described, some a, [.answer a], [], []⟩) ∨
    ∃ o sdp, stage = .misread o m s ∧ msg = .offer sdp := by
  cases stage with
  | answering o m' s' work =>
    obtain ⟨-, -, rfl⟩ := h
    cases hmsgs
  | misread o m' s' =>
    cases hs
    obtain ⟨sdp, rfl⟩ := h.2.2.2.2.1 msg (hmsgs ▸ List.mem_cons_self)
    exact .inr ⟨o, sdp, rfl, rfl⟩
  | answerCreated o m' s' a =>
    cases hs
    cases h
    cases hmsgs
    exact .inl ⟨o, a, rfl, rfl, rfl, rfl⟩
  | answerSent o m' s' a | answerPosted o m' s' a | answered o m' s' a =>
    cases h
    cases hmsgs
  | unposted | posted | creatingOffer | rejected | offerCreated o | offerSent o | offerLost o =>
    cases hs

/-- It has the offer and no description of its own yet. -/
theorem Answering.of_work (h : stage.Answering conn) (hs : stage.answerer = some (m, s))
    (hwork : conn.work ∈ [.posted, .settingOffer, .creatingAnswer]) :
    ∃ o, stage = .answering o m s conn.work ∧ (conn.work ∈ Work.promised → cString o ≠ []) ∧
      conn = ⟨s, some (cString o), conn.work, none, [], [], []⟩ := by
  cases stage with
  | answering o m' s' work =>
    obtain ⟨-, hne, rfl⟩ := h
    cases hs
    exact ⟨o, rfl, hne, rfl⟩
  | misread o m' s' =>
    have hmisread := h.2.2.2.1
    simp only [List.mem_cons, List.not_mem_nil, or_false] at hmisread
    rcases hmisread with hw | hw | hw
    · simp [hw] at hwork
    · simp [hw] at hwork
    · simp [hw] at hwork
  | answerCreated o m' s' a | answerSent o m' s' a | answerPosted o m' s' a
  | answered o m' s' a =>
    cases h
    simp at hwork
  | unposted | posted | creatingOffer | rejected | offerCreated o | offerSent o | offerLost o =>
    cases hs

end Stage

/-- The channel with the messages of a stage. -/
def CadetChannel.withStage {Peer : Type} (ch : CadetChannel Peer) (stage : Stage) :
    CadetChannel Peer :=
  { ch with toTarget := stage.toTarget, toInitiator := stage.toInitiator }

/-- An exchange, with the number of the connection that dials. -/
structure Exchange where
  number : Nat
  stage : Stage

namespace Net

variable {Peer : Type} [DecidableEq Peer] {st st' : Net Peer} {p q : Peer} {n m c : Nat} {s : Ptr}
  {ch ch' : CadetChannel Peer} {x : Nat → Exchange} {conn conn' : Connection}

theorem setConnection_self (st : Net Peer) (p : Peer) (n : Nat) (conn : Connection) :
    (st.setConnection p n conn).connections p n = some conn := by
  simp [setConnection]

theorem setConnection_of_ne (h : ¬ (q = p ∧ m = n)) :
    (st.setConnection p n conn).connections q m = st.connections q m := by
  simp only [setConnection]
  by_cases hq : q = p
  · subst hq
    rw [Function.update_self, Function.update_of_ne fun hm => h ⟨rfl, hm⟩]
  · rw [Function.update_of_ne hq]

omit [DecidableEq Peer] in
theorem setChannel_self (st : Net Peer) (c : Nat) (ch : CadetChannel Peer) :
    (st.setChannel c ch).channels c = some ch := by
  simp [setChannel]

omit [DecidableEq Peer] in
theorem setChannel_of_ne {d : Nat} (h : d ≠ c) :
    (st.setChannel c ch).channels d = st.channels d := by
  simp [setChannel, h]

omit [DecidableEq Peer] in
theorem setChannel_eq (h : st.channels c = some ch) : st.setChannel c ch = st := by
  rw [setChannel, ← h, Function.update_eq_self]

/-- The end of a channel that a connection belongs to. -/
def endOf (st : Net Peer) (p : Peer) (n : Nat) : Option ChannelEnd :=
  (st.connections p n).bind fun conn => ((st.plugin p).heap conn.cls).bind Session.channel

omit [DecidableEq Peer] in
theorem endOf_eq {y : Session Peer ChannelEnd} (hconn : st.connections p n = some conn)
    (hheap : (st.plugin p).heap conn.cls = some y) : st.endOf p n = y.channel := by
  rw [endOf, hconn, Option.bind_some, hheap, Option.bind_some]

omit [DecidableEq Peer] in
theorem endOf_none (h : st.connections p n = none) : st.endOf p n = none := by
  rw [endOf, h, Option.bind_none]

/-- What is at the ends of a channel and on it. -/
structure Holds (st : Net Peer) (c : Nat) (ch : CadetChannel Peer) (x : Exchange) : Prop where
  session : (st.plugin ch.initiator).heap ch.cls = some ⟨ch.target, some ⟨c, false⟩, x.number⟩
  dialling : st.connections ch.initiator x.number = some (x.stage.dialling ch.cls)
  toTarget : ch.toTarget = x.stage.toTarget
  toInitiator : ch.toInitiator = x.stage.toInitiator
  answering : ∀ m s, x.stage.answerer = some (m, s) →
    (∃ conn, st.connections ch.target m = some conn ∧ x.stage.Answering conn) ∧
    ∃ y, (st.plugin ch.target).heap s = some y ∧ y.peer = ch.initiator ∧
      y.channel = some ⟨c, true⟩
  lost : ∀ o, x.stage = .offerLost o → (st.plugin ch.target).failed ≠ none

/-- The connection is the one that dials, or the one that answers. -/
def Owns (ch : CadetChannel Peer) (x : Exchange) (p : Peer) (n : Nat) : Prop :=
  ch.initiator = p ∧ x.number = n ∨ ch.target = p ∧ ∃ s, x.stage.answerer = some (n, s)

/-- A connection for an offer that came without a session. -/
def Lost (conn : Connection) : Prop :=
  conn.cls = 0 ∧ conn.offer ≠ none ∧ conn.toWindow = [] ∧ conn.answers = []

/-- `p` has dialled `q`. -/
def Dialled (channels : Nat → Option (CadetChannel Peer)) (p q : Peer) : Prop :=
  ∃ c ch, channels c = some ch ∧ ch.initiator = p ∧ ch.target = q

/-- What holds of a plugin. -/
structure Sound (channels : Nat → Option (CadetChannel Peer)) (p : Peer)
    (plugin : State Peer ChannelEnd) : Prop where
  null : plugin.heap 0 = none
  context : ∀ c s, plugin.contexts.lookup ⟨c, true⟩ = some s → s ≠ 0 → ∃ y ch,
    plugin.heap s = some y ∧ y.channel = some ⟨c, true⟩ ∧ channels c = some ch ∧
      y.peer = ch.initiator
  incoming : ∀ s y c, plugin.heap s = some y → y.channel = some ⟨c, true⟩ →
    Dialled channels p y.peer
  dialled : plugin.failed = none → ∀ q ∈ plugin.peers, Dialled channels p q

/-- **The state of a net** is what the exchanges say. -/
structure Described (st : Net Peer) (x : Nat → Exchange) : Prop where
  holds : ∀ c ch, st.channels c = some ch → Holds st c ch (x c)
  fresh : ∀ c, st.nextChannel ≤ c → st.channels c = none
  owned : ∀ p n conn, st.connections p n = some conn → Lost conn ∨
    ∃ c ch, st.channels c = some ch ∧ Owns ch (x c) p n
  below : ∀ p n conn, st.connections p n = some conn → n < (st.plugin p).nextConnection
  sound : ∀ p, Sound st.channels p (st.plugin p)

omit [DecidableEq Peer] in
theorem Holds.endOf_dialling {x : Exchange} (h : Holds st c ch x) :
    st.endOf ch.initiator x.number = some ⟨c, false⟩ :=
  endOf_eq h.dialling (by rw [Stage.dialling_cls, h.session])

omit [DecidableEq Peer] in
theorem Holds.endOf_answering {x : Exchange} (h : Holds st c ch x)
    (hs : x.stage.answerer = some (m, s)) : st.endOf ch.target m = some ⟨c, true⟩ := by
  obtain ⟨⟨conn, hconn, hanswering⟩, y, hy, -, hchannel⟩ := h.answering m s hs
  rw [endOf_eq hconn (by rw [hanswering.cls hs, hy]), hchannel]

omit [DecidableEq Peer] in
/-- What happens elsewhere leaves an exchange as it is. -/
theorem Holds.frame {x : Exchange} (h : Holds st c ch x)
    (hconn : ∀ p n e, st.endOf p n = some e → e.id = c →
      st'.connections p n = st.connections p n)
    (hheap : ∀ p s y, (st.plugin p).heap s = some y →
      ∃ y', (st'.plugin p).heap s = some y' ∧ y'.peer = y.peer ∧ y'.channel = y.channel ∧
        (y.channel = some ⟨c, false⟩ → y' = y))
    (hfailed : ∀ p, (st.plugin p).failed ≠ none → (st'.plugin p).failed ≠ none) :
    Holds st' c ch x := by
  refine ⟨?_, ?_, h.toTarget, h.toInitiator, fun m s hs => ?_, fun o ho => hfailed _ (h.lost o ho)⟩
  · obtain ⟨y', hy', -, -, he⟩ := hheap _ _ _ h.session
    rw [hy', he rfl]
  · rw [hconn _ _ _ h.endOf_dialling rfl, h.dialling]
  · obtain ⟨⟨conn, hc, hanswering⟩, y, hy, hpeer, hchannel⟩ := h.answering m s hs
    obtain ⟨y', hy', hpeer', hchannel', -⟩ := hheap _ _ _ hy
    refine ⟨⟨conn, ?_, hanswering⟩, y', hy', hpeer'.trans hpeer, hchannel'.trans hchannel⟩
    rw [hconn _ _ _ (h.endOf_answering hs) rfl, hc]

/-! ## One step -/

/-- The channels may become more, and their messages others. -/
def Extends (channels channels' : Nat → Option (CadetChannel Peer)) : Prop :=
  ∀ c ch, channels c = some ch → ∃ ch', channels' c = some ch' ∧
    ch'.initiator = ch.initiator ∧ ch'.target = ch.target

omit [DecidableEq Peer] in
theorem Dialled.extends {channels channels' : Nat → Option (CadetChannel Peer)}
    (hext : Extends channels channels') (h : Dialled channels p q) : Dialled channels' p q := by
  obtain ⟨c, ch, hch, rfl, rfl⟩ := h
  obtain ⟨ch', hch', hinitiator, htarget⟩ := hext c ch hch
  exact ⟨c, ch', hch', hinitiator, htarget⟩

omit [DecidableEq Peer] in
theorem Sound.extends {channels channels' : Nat → Option (CadetChannel Peer)}
    (hext : Extends channels channels') {plugin : State Peer ChannelEnd}
    (h : Sound channels p plugin) : Sound channels' p plugin := by
  refine ⟨h.null, fun c s hlookup hs => ?_, fun s y c hy hchannel => ?_, fun hfailed q hq => ?_⟩
  · obtain ⟨y, ch, hy, hchannel, hch, hpeer⟩ := h.context c s hlookup hs
    obtain ⟨ch', hch', hinitiator, -⟩ := hext c ch hch
    exact ⟨y, ch', hy, hchannel, hch', hpeer.trans hinitiator.symm⟩
  · exact (h.incoming s y c hy hchannel).extends hext
  · exact (h.dialled hfailed q hq).extends hext

omit [DecidableEq Peer] in
theorem extends_setChannel (hch : st.channels c = some ch)
    (hinitiator : ch'.initiator = ch.initiator) (htarget : ch'.target = ch.target) :
    Extends st.channels (st.setChannel c ch').channels := by
  intro d chd hd
  by_cases hdc : d = c
  · subst hdc
    rw [hch] at hd
    cases hd
    exact ⟨ch', setChannel_self _ _ _, hinitiator, htarget⟩
  · exact ⟨chd, (setChannel_of_ne hdc).trans hd, rfl, rfl⟩

omit [DecidableEq Peer] in
/-- An owner stays one while the exchange goes on. -/
theorem Owns.advance {stage : Stage}
    (hanswerer : ∀ r, (x c).stage.answerer = some r → stage.answerer = some r)
    (hch : st.channels c = some ch) (h : ∃ d chd, st.channels d = some chd ∧ Owns chd (x d) p n) :
    ∃ d chd, (st.setChannel c (ch.withStage stage)).channels d = some chd ∧
      Owns chd (Function.update x c ⟨(x c).number, stage⟩ d) p n := by
  obtain ⟨d, chd, hd, howns⟩ := h
  by_cases hdc : d = c
  · subst hdc
    rw [hch] at hd
    cases hd
    refine ⟨d, ch.withStage stage, setChannel_self _ _ _, ?_⟩
    rw [Function.update_self]
    exact howns.imp id fun ⟨htarget, s, hs⟩ => ⟨htarget, s, hanswerer _ hs⟩
  · refine ⟨d, chd, (setChannel_of_ne hdc).trans hd, ?_⟩
    rwa [Function.update_of_ne hdc]

/-- **An exchange goes on** with one of its connections; what belongs to others stays as it
is. -/
theorem Described.advance (h : Described st x) (hch : st.channels c = some ch) (stage : Stage)
    (hanswerer : ∀ r, (x c).stage.answerer = some r → stage.answerer = some r)
    (hend : ∀ e, st.endOf p n = some e → e.id = c)
    (howns : Owns (ch.withStage stage) ⟨(x c).number, stage⟩ p n)
    (hn : n < (st.plugin p).nextConnection)
    (hholds : Holds ((st.setConnection p n conn).setChannel c (ch.withStage stage)) c
      (ch.withStage stage) ⟨(x c).number, stage⟩) :
    Described ((st.setConnection p n conn).setChannel c (ch.withStage stage))
      (Function.update x c ⟨(x c).number, stage⟩) := by
  refine ⟨fun d chd hd => ?_, fun d hd => ?_, fun p' n' conn' hconn => ?_,
    fun p' n' conn' hconn => ?_, fun p' => ?_⟩
  · by_cases hdc : d = c
    · subst hdc
      rw [Function.update_self]
      rw [setChannel_self] at hd
      cases hd
      exact hholds
    · rw [Function.update_of_ne hdc]
      rw [setChannel_of_ne hdc] at hd
      refine (h.holds d chd hd).frame (fun p' n' e he hid => ?_) (fun p' s y hy => ?_) fun _ h => h
      · refine setConnection_of_ne ?_
        rintro ⟨rfl, rfl⟩
        exact hdc (hid.symm.trans (hend e he))
      · exact ⟨y, hy, rfl, rfl, fun _ => rfl⟩
  · have hdc : d ≠ c := by
      rintro rfl
      rw [h.fresh d hd] at hch
      cases hch
    exact (setChannel_of_ne hdc).trans (h.fresh d hd)
  · by_cases hp : p' = p ∧ n' = n
    · obtain ⟨rfl, rfl⟩ := hp
      refine .inr ⟨c, ch.withStage stage, setChannel_self _ _ _, ?_⟩
      rwa [Function.update_self]
    · replace hconn := (setConnection_of_ne hp).symm.trans hconn
      exact (h.owned p' n' conn' hconn).imp_right (Owns.advance hanswerer hch)
  · by_cases hp : p' = p ∧ n' = n
    · obtain ⟨rfl, rfl⟩ := hp
      exact hn
    · replace hconn := (setConnection_of_ne hp).symm.trans hconn
      exact h.below p' n' conn' hconn
  · exact (h.sound p').extends
      (@extends_setChannel _ (st.setConnection p n conn) c ch (ch.withStage stage) hch rfl rfl)

omit [DecidableEq Peer] in
/-- The two connections of an exchange are different ones. -/
theorem Holds.ne_number {x : Exchange} (h : Holds st c ch x) (hs : x.stage.answerer = some (m, s)) :
    ¬ (ch.target = ch.initiator ∧ m = x.number) := by
  rintro ⟨htarget, hm⟩
  have hend := h.endOf_answering hs
  rw [htarget, hm, h.endOf_dialling] at hend
  cases hend

/-- A step at the connection that dials. -/
theorem Described.dial (h : Described st x) (hch : st.channels c = some ch) {old : Stage}
    (hold : (x c).stage = old) (stage : Stage) (hanswerer : stage.answerer = old.answerer)
    (hanswering : ∀ conn, old.Answering conn → stage.Answering conn)
    (hlost : ∀ o, stage = .offerLost o → (st.plugin ch.target).failed ≠ none) :
    Described ((st.setConnection ch.initiator (x c).number (stage.dialling ch.cls)).setChannel c
      (ch.withStage stage)) (Function.update x c ⟨(x c).number, stage⟩) := by
  subst hold
  have hc := h.holds c ch hch
  have hend : ∀ e, st.endOf ch.initiator (x c).number = some e → e.id = c := by
    intro e he
    rw [hc.endOf_dialling] at he
    cases he
    rfl
  refine h.advance hch stage (fun r hr => hanswerer.trans hr) hend (.inl ⟨rfl, rfl⟩)
    (h.below _ _ _ hc.dialling)
    ⟨hc.session, setConnection_self _ _ _ _, rfl, rfl, fun m s hs => ?_, hlost⟩
  have hs' := hanswerer.symm.trans hs
  obtain ⟨⟨conn, hconn, hold⟩, hsession⟩ := hc.answering m s hs'
  exact ⟨⟨conn, (setConnection_of_ne (hc.ne_number hs')).trans hconn, hanswering conn hold⟩,
    hsession⟩

/-- A step at the connection that answers. -/
theorem Described.answer (h : Described st x) (hch : st.channels c = some ch) {old : Stage}
    (hold : (x c).stage = old) (stage : Stage) (hs : old.answerer = some (m, s))
    (hanswerer : stage.answerer = some (m, s))
    (hdialling : stage.dialling ch.cls = old.dialling ch.cls) (hanswering : stage.Answering conn) :
    Described ((st.setConnection ch.target m conn).setChannel c (ch.withStage stage))
      (Function.update x c ⟨(x c).number, stage⟩) := by
  subst hold
  have hc := h.holds c ch hch
  have hend : ∀ e, st.endOf ch.target m = some e → e.id = c := by
    intro e he
    rw [hc.endOf_answering hs] at he
    cases he
    rfl
  obtain ⟨⟨old, hold, -⟩, -⟩ := hc.answering m s hs
  refine h.advance hch stage (fun r hr => hanswerer.trans (hs.symm.trans hr)) hend
    (.inr ⟨rfl, s, hanswerer⟩) (h.below _ _ _ hold)
    ⟨hc.session, ?_, rfl, rfl, fun m' s' hs' => ?_, fun o ho => ?_⟩
  · refine (setConnection_of_ne fun he => ?_).trans (hdialling ▸ hc.dialling)
    exact hc.ne_number hs ⟨he.1.symm, he.2.symm⟩
  · rw [hanswerer] at hs'
    cases hs'
    exact ⟨⟨conn, setConnection_self _ _ _ _, hanswering⟩, (hc.answering m s hs).2⟩
  · obtain rfl : stage = .offerLost o := ho
    cases hanswerer

/-- A connection that belongs to no channel. -/
theorem Described.setLost (h : Described st x) (hend : st.endOf p n = none)
    (hn : n < (st.plugin p).nextConnection) (hlost : Lost conn) :
    Described (st.setConnection p n conn) x := by
  refine ⟨fun d chd hd => ?_, h.fresh, fun p' n' conn' hconn => ?_, fun p' n' conn' hconn => ?_,
    h.sound⟩
  · refine (h.holds d chd hd).frame (fun p' n' e he _ => setConnection_of_ne ?_)
      (fun p' s y hy => ⟨y, hy, rfl, rfl, fun _ => rfl⟩) fun _ h => h
    rintro ⟨rfl, rfl⟩
    rw [hend] at he
    cases he
  · by_cases hp : p' = p ∧ n' = n
    · obtain ⟨rfl, rfl⟩ := hp
      rw [setConnection_self] at hconn
      cases hconn
      exact .inl hlost
    · exact h.owned p' n' conn' ((setConnection_of_ne hp).symm.trans hconn)
  · by_cases hp : p' = p ∧ n' = n
    · obtain ⟨rfl, rfl⟩ := hp
      exact hn
    · exact h.below p' n' conn' ((setConnection_of_ne hp).symm.trans hconn)

/-- A step at such a connection. -/
theorem Described.lost (h : Described st x) (hconn : st.connections p n = some conn)
    (hlost : Lost conn) (hlost' : Lost conn') : Described (st.setConnection p n conn') x := by
  refine h.setLost ?_ (h.below p n conn hconn) hlost'
  rw [endOf, hconn, Option.bind_some, hlost.1, (h.sound p).null, Option.bind_none]

omit [DecidableEq Peer] in
/-- **Where a connection belongs.** -/
theorem Described.owner (h : Described st x) (hconn : st.connections p n = some conn) :
    Lost conn ∨
    (∃ c ch, st.channels c = some ch ∧ p = ch.initiator ∧ n = (x c).number ∧
      conn = (x c).stage.dialling ch.cls) ∨
    ∃ c ch s, st.channels c = some ch ∧ p = ch.target ∧ (x c).stage.answerer = some (n, s) ∧
      (x c).stage.Answering conn := by
  rcases h.owned p n conn hconn with hlost | ⟨c, ch, hch, ⟨rfl, rfl⟩ | ⟨rfl, s, hs⟩⟩
  · exact .inl hlost
  · rw [(h.holds c ch hch).dialling] at hconn
    exact .inr (.inl ⟨c, ch, hch, rfl, rfl, (Option.some.inj hconn).symm⟩)
  · obtain ⟨⟨conn', hconn', hanswering⟩, -⟩ := (h.holds c ch hch).answering n s hs
    obtain rfl := Option.some.inj (hconn.symm.trans hconn')
    exact .inr (.inr ⟨c, ch, s, hch, rfl, hs, hanswering⟩)

/-! ### In the windows -/

omit [DecidableEq Peer] in
theorem Holds.withStage {x : Exchange} (h : Holds st c ch x) {stage : Stage}
    (htarget : stage.toTarget = x.stage.toTarget)
    (hinitiator : stage.toInitiator = x.stage.toInitiator) : ch.withStage stage = ch := by
  rw [CadetChannel.withStage, htarget, hinitiator, ← h.toTarget, ← h.toInitiator]

omit [DecidableEq Peer] in
/-- A message is sent to the target. -/
theorem Holds.withStage_target {x : Exchange} (h : Holds st c ch x) {stage : Stage} (msg : Message)
    (htarget : stage.toTarget = x.stage.toTarget ++ [msg])
    (hinitiator : stage.toInitiator = x.stage.toInitiator) :
    ch.withStage stage = { ch with toTarget := ch.toTarget ++ [msg] } := by
  rw [CadetChannel.withStage, htarget, hinitiator, ← h.toTarget, ← h.toInitiator]

omit [DecidableEq Peer] in
/-- A message is sent to the initiator. -/
theorem Holds.withStage_initiator {x : Exchange} (h : Holds st c ch x) {stage : Stage}
    (msg : Message) (htarget : stage.toTarget = x.stage.toTarget)
    (hinitiator : stage.toInitiator = x.stage.toInitiator ++ [msg]) :
    ch.withStage stage = { ch with toInitiator := ch.toInitiator ++ [msg] } := by
  rw [CadetChannel.withStage, htarget, hinitiator, ← h.toTarget, ← h.toInitiator]

/-- A step at the connection that dials, with nothing sent. -/
theorem Described.dial_silent (h : Described st x) (hch : st.channels c = some ch) {old : Stage}
    (hold : (x c).stage = old) (stage : Stage) (hanswerer : stage.answerer = old.answerer)
    (hanswering : ∀ conn, old.Answering conn → stage.Answering conn)
    (htarget : stage.toTarget = old.toTarget) (hinitiator : stage.toInitiator = old.toInitiator)
    (hlost : ∀ o, stage ≠ .offerLost o) :
    Described (st.setConnection ch.initiator (x c).number (stage.dialling ch.cls))
      (Function.update x c ⟨(x c).number, stage⟩) := by
  have hdial := h.dial hch hold stage hanswerer hanswering fun o ho => absurd ho (hlost o)
  subst hold
  rwa [(h.holds c ch hch).withStage htarget hinitiator,
    @setChannel_eq _ (st.setConnection _ _ _) c ch hch] at hdial

theorem Described.answer_silent (h : Described st x) (hch : st.channels c = some ch) {old : Stage}
    (hold : (x c).stage = old) (stage : Stage) (hs : old.answerer = some (m, s))
    (hanswerer : stage.answerer = some (m, s))
    (hdialling : stage.dialling ch.cls = old.dialling ch.cls) (hanswering : stage.Answering conn)
    (htarget : stage.toTarget = old.toTarget) (hinitiator : stage.toInitiator = old.toInitiator) :
    Described (st.setConnection ch.target m conn)
      (Function.update x c ⟨(x c).number, stage⟩) := by
  have hanswer := h.answer hch hold stage hs hanswerer hdialling hanswering
  subst hold
  rwa [(h.holds c ch hch).withStage htarget hinitiator,
    @setChannel_eq _ (st.setConnection _ _ _) c ch hch] at hanswer

/-- Windows come and go. -/
theorem Described.setWindows (h : Described st x) (p : Peer) (windows : List Bool) :
    Described (st.setWindows p windows) x :=
  ⟨fun c ch hch => (h.holds c ch hch).frame (fun _ _ _ _ _ => rfl)
    (fun _ _ y hy => ⟨y, hy, rfl, rfl, fun _ => rfl⟩) fun _ hfailed => hfailed,
    h.fresh, h.owned, h.below, h.sound⟩

theorem of_inWindow {f : Connection → Option Connection} (h : st.inWindow p n f = some st') :
    ∃ conn conn', st.connections p n = some conn ∧ f conn = some conn' ∧
      st' = st.setConnection p n conn' := by
  obtain ⟨-, h⟩ := Option.ite_none_right_eq_some.mp h
  obtain ⟨conn, hconn, h⟩ := Option.bind_eq_some_iff.mp h
  obtain ⟨conn', hconn', rfl⟩ := Option.map_eq_some_iff.mp h
  exact ⟨conn, conn', hconn, hconn', rfl⟩

theorem of_inWindow_if {P : Connection → Prop} [DecidablePred P] {f : Connection → Connection}
    (h : st.inWindow p n (fun conn => if P conn then some (f conn) else none) = some st') :
    ∃ conn, st.connections p n = some conn ∧ P conn ∧ st' = st.setConnection p n (f conn) := by
  obtain ⟨conn, conn', hconn, hwindow, rfl⟩ := of_inWindow h
  obtain ⟨hP, he⟩ := Option.ite_none_right_eq_some.mp hwindow
  exact ⟨conn, hconn, hP, Option.some.inj he ▸ rfl⟩

/-- The window handles `peer_connect`. -/
theorem Described.start (h : Described st x) (hconn : st.connections p n = some conn)
    (hwork : conn.work = .posted) :
    ∃ x', Described (st.setConnection p n (Connection.start conn)) x' := by
  rcases h.owner hconn with hlost | ⟨c, ch, hch, rfl, rfl, rfl⟩ | ⟨c, ch, s, hch, rfl, hs, ha⟩
  · exact ⟨x, h.lost hconn hlost hlost⟩
  · cases hold : (x c).stage with
    | posted => exact ⟨_, h.dial_silent hch hold .creatingOffer rfl (fun _ h => h) rfl rfl nofun⟩
    | _ =>
      rw [hold] at hwork
      cases hwork
  · obtain ⟨o, hold, -, he⟩ := ha.of_work hs (by simp [hwork])
    rw [hwork] at hold he
    subst he
    by_cases ho : cString o = []
    · refine ⟨_, h.answer_silent hch hold (.misread o n s) rfl rfl rfl ?_ rfl rfl⟩
      exact ⟨ho, rfl, congrArg some ho, by simp [Connection.start, ho],
        by simp [Connection.start], rfl, rfl⟩
    · refine ⟨_, h.answer_silent hch hold (.answering o n s .settingOffer) rfl rfl rfl ?_ rfl rfl⟩
      exact ⟨by simp, fun _ => ho, by simp [Connection.start, ho]⟩

/-- `createOffer` -/
theorem Described.createOffer (h : Described st x) (hconn : st.connections p n = some conn)
    (hwork : conn.work = .creatingOffer) (sdp : Sdp) :
    ∃ x', Described (st.setConnection p n (Connection.describe conn .offer sdp)) x' := by
  rcases h.owner hconn with hlost | ⟨c, ch, hch, rfl, rfl, rfl⟩ | ⟨c, ch, s, hch, rfl, hs, ha⟩
  · exact ⟨x, h.lost hconn hlost hlost⟩
  · cases hold : (x c).stage with
    | creatingOffer =>
      exact ⟨_, h.dial_silent hch hold (.offerCreated sdp) rfl (fun _ h => h) rfl rfl nofun⟩
    | _ =>
      rw [hold] at hwork
      cases hwork
  · cases hold : (x c).stage with
    | answering o m s work =>
      rw [hold] at ha
      obtain ⟨hmem, -, rfl⟩ := ha
      obtain rfl : work = .creatingOffer := hwork
      simp at hmem
    | misread o m s =>
      rw [hold] at ha hs
      cases hs
      obtain ⟨hempty, hcls, hoffer, -, hmsgs, hrest⟩ := ha
      refine ⟨_, h.answer_silent hch hold (.misread o n s) rfl rfl rfl ?_ rfl rfl⟩
      refine ⟨hempty, hcls, hoffer, by simp [Connection.describe], fun msg hmsg => ?_, hrest⟩
      rcases List.mem_append.mp hmsg with hmsg | hmsg
      · exact hmsgs msg hmsg
      · exact ⟨sdp, List.mem_singleton.mp hmsg⟩
    | answerCreated o m s a | answerSent o m s a | answerPosted o m s a | answered o m s a =>
      rw [hold] at ha
      cases ha
      cases hwork
    | _ =>
      rw [hold] at hs
      cases hs

/-- `setRemoteDescription` with an offer -/
theorem Described.setOffer (h : Described st x) (hconn : st.connections p n = some conn)
    (hwork : conn.work = .settingOffer) :
    ∃ x', Described (st.setConnection p n { conn with work := .creatingAnswer }) x' := by
  rcases h.owner hconn with hlost | ⟨c, ch, hch, rfl, rfl, rfl⟩ | ⟨c, ch, s, hch, rfl, hs, ha⟩
  · exact ⟨x, h.lost hconn hlost hlost⟩
  · cases hold : (x c).stage with
    | _ =>
      rw [hold] at hwork
      cases hwork
  · obtain ⟨o, hold, hne, he⟩ := ha.of_work hs (by simp [hwork])
    rw [hwork] at hold hne he
    subst he
    refine ⟨_, h.answer_silent hch hold (.answering o n s .creatingAnswer) rfl rfl rfl ?_ rfl rfl⟩
    exact ⟨by simp, fun _ => hne (by simp [Work.promised]), rfl⟩

/-- `createAnswer` -/
theorem Described.createAnswer (h : Described st x) (hconn : st.connections p n = some conn)
    (hwork : conn.work = .creatingAnswer) (sdp : Sdp) :
    ∃ x', Described (st.setConnection p n (Connection.describe conn .answer sdp)) x' := by
  rcases h.owner hconn with hlost | ⟨c, ch, hch, rfl, rfl, rfl⟩ | ⟨c, ch, s, hch, rfl, hs, ha⟩
  · exact ⟨x, h.lost hconn hlost hlost⟩
  · cases hold : (x c).stage with
    | _ =>
      rw [hold] at hwork
      cases hwork
  · obtain ⟨o, hold, -, he⟩ := ha.of_work hs (by simp [hwork])
    rw [hwork] at hold he
    subst he
    exact ⟨_, h.answer_silent hch hold (.answerCreated o n s sdp) rfl rfl rfl rfl rfl rfl⟩

/-- A promise is rejected. -/
theorem Described.reject (h : Described st x) (hconn : st.connections p n = some conn)
    (hwork : conn.work ∈ Work.promised) :
    ∃ x', Described (st.setConnection p n { conn with work := .rejected }) x' := by
  rcases h.owner hconn with hlost | ⟨c, ch, hch, rfl, rfl, rfl⟩ | ⟨c, ch, s, hch, rfl, hs, ha⟩
  · exact ⟨x, h.lost hconn hlost hlost⟩
  · cases hold : (x c).stage with
    | creatingOffer =>
      exact ⟨_, h.dial_silent hch hold .rejected rfl (fun _ h => h) rfl rfl nofun⟩
    | _ =>
      rw [hold] at hwork
      simp [Stage.dialling, Work.promised] at hwork
  · cases hold : (x c).stage with
    | answering o m s work =>
      rw [hold] at ha hs
      cases hs
      obtain ⟨-, hne, rfl⟩ := ha
      refine ⟨_, h.answer_silent hch hold (.answering o n s .rejected) rfl rfl rfl ?_ rfl rfl⟩
      exact ⟨by simp, fun _ => hne hwork, rfl⟩
    | misread o m s =>
      rw [hold] at ha hs
      cases hs
      obtain ⟨hempty, hcls, hoffer, -, hrest⟩ := ha
      refine ⟨_, h.answer_silent hch hold (.misread o n s) rfl rfl rfl ?_ rfl rfl⟩
      exact ⟨hempty, hcls, hoffer, by simp, hrest⟩
    | answerCreated o m s a | answerSent o m s a | answerPosted o m s a | answered o m s a =>
      rw [hold] at ha
      cases ha
      simp [Work.promised] at hwork
    | _ =>
      rw [hold] at hs
      cases hs

omit [DecidableEq Peer] in
theorem of_takeAnswer (h : Connection.takeAnswer conn = some conn') :
    ∃ sdp rest, conn.toWindow = sdp :: rest ∧
      conn' = { conn with toWindow := rest, answers := conn.answers ++ [sdp] } := by
  unfold Connection.takeAnswer at h
  split at h
  · cases h
  · next sdp rest hwindow =>
    exact ⟨sdp, rest, hwindow, (Option.some.inj (Option.ite_none_left_eq_some.mp h).2).symm⟩

/-- An answer comes to the window. -/
theorem Described.takeAnswer (h : Described st x) (hconn : st.connections p n = some conn)
    (htake : Connection.takeAnswer conn = some conn') :
    ∃ x', Described (st.setConnection p n conn') x' := by
  obtain ⟨sdp, rest, hanswers, rfl⟩ := of_takeAnswer htake
  rcases h.owner hconn with hlost | ⟨c, ch, hch, rfl, rfl, rfl⟩ | ⟨c, ch, s, hch, rfl, hs, ha⟩
  · rw [hlost.2.2.1] at hanswers
    cases hanswers
  · cases hold : (x c).stage with
    | answerPosted o m s a =>
      rw [hold] at hanswers
      cases hanswers
      exact ⟨_, h.dial_silent hch hold (.answered o m s a) rfl (fun _ h => h) rfl rfl nofun⟩
    | _ =>
      rw [hold] at hanswers
      cases hanswers
  · rw [ha.toWindow] at hanswers
    cases hanswers

end Net

end GnunetWeb.Webrtc
