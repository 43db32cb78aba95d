import GnunetWeb.Webrtc.Stages

/-!
# Answers match offers

The steps of the plugins, and whole runs.

Proved here:

* `Described.step`: what is at the two ends of a channel and on it, is what one stage of its
  exchange says, in every run;
* `answers_matched`: so an answer that a connection is given was made for its own offer, by the
  peer that was dialled, and no connection has answered two offers.
-/

namespace GnunetWeb.Webrtc

namespace Net

variable {Peer : Type} [DecidableEq Peer] {st st' : Net Peer} {p q : Peer} {n m c : Nat} {s : Ptr}
  {ch ch' : CadetChannel Peer} {x : Nat → Exchange} {conn conn' : Connection}

/-! ## Messages between windows and plugins -/

omit [DecidableEq Peer] in
theorem send_eq (hch : st.channels c = some ch) (incoming : Bool) (msg : Message) :
    st.send ⟨c, incoming⟩ msg = some (st.setChannel c
      (if incoming then { ch with toInitiator := ch.toInitiator ++ [msg] }
      else { ch with toTarget := ch.toTarget ++ [msg] })) := by
  rw [send, hch, Option.map_some]

omit [DecidableEq Peer] in
/-- What `offer_cb` and `answer_cb` send goes to the channel of their session. -/
theorem sendDescription_inv (st : Net Peer) {type : Sdp → Message} {sdp : Sdp}
    {y : Session Peer ChannelEnd} {incoming : Bool} (hheap : (st.plugin p).heap s = some y)
    (hchannel : y.channel = some ⟨c, incoming⟩) (hch : st.channels c = some ch)
    (h : st.sendDescription p s type sdp = some st') :
    st' = st.setChannel c
      (if incoming then { ch with toInitiator := ch.toInitiator ++ [type (cString sdp)] }
      else { ch with toTarget := ch.toTarget ++ [type (cString sdp)] }) := by
  unfold sendDescription at h
  split at h
  · rw [hheap, Option.bind_some, hchannel, Option.bind_some, send_eq hch] at h
    exact (Option.some.inj h).symm
  · cases h

/-- A message from a window comes to the plugin. -/
theorem Described.takeMessage (h : Described st x) (hconn : st.connections p n = some conn)
    (hst : st.step (.pluginMessage p n) = some st') : ∃ x', Described st' x' := by
  simp only [step, hconn, Option.bind_some] at hst
  cases hmsgs : conn.toPlugin with
  | nil =>
    rw [hmsgs] at hst
    cases hst
  | cons msg rest =>
    rw [hmsgs] at hst
    simp only at hst
    rcases h.owner hconn with hlost | ⟨c, ch, hch, rfl, rfl, rfl⟩ | ⟨c, ch, s, hch, rfl, hs, ha⟩
    · obtain ⟨offer, hoffer⟩ := Option.ne_none_iff_exists'.mp hlost.2.1
      rw [hoffer] at hst
      cases msg with
      | offer sdp =>
        cases hst
        exact ⟨x, h.lost hconn hlost ⟨hlost.1, by simp, hlost.2.2⟩⟩
      | answer sdp =>
        -- there is no session to find a channel in
        simp only [sendDescription, hlost.1, setConnection, (h.sound p).null, Option.bind_none,
          ite_self] at hst
        cases hst
    · have hc := h.holds c ch hch
      cases hold : (x c).stage with
      | offerCreated o =>
        rw [hold] at hmsgs hst
        cases hmsgs
        obtain rfl := sendDescription_inv (Net.setConnection _ _ _ _) hc.session rfl hch hst
        have hdial := h.dial hch hold (.offerSent o) rfl (fun _ h => h) fun _ h => by cases h
        rw [hc.withStage_target (.offer (cString o)) (by rw [hold]; rfl)
          (by rw [hold]; rfl)] at hdial
        exact ⟨_, hdial⟩
      | _ =>
        rw [hold] at hmsgs
        cases hmsgs
    · have hc := h.holds c ch hch
      rcases ha.of_toPlugin hs hmsgs with ⟨o, a, hold, rfl, rfl, rfl⟩ | ⟨o, sdp, hold, rfl⟩
      · obtain ⟨y, hy, -, hchannel⟩ := (hc.answering n s hs).2
        obtain rfl := sendDescription_inv (Net.setConnection _ _ _ _) hy hchannel hch hst
        have hanswer := h.answer hch hold (.answerSent o n s a) rfl rfl rfl rfl
        rw [hc.withStage_initiator (.answer (cString a)) (by rw [hold]; rfl)
          (by rw [hold]; rfl)] at hanswer
        exact ⟨_, hanswer⟩
      · rw [hold] at ha
        obtain ⟨hempty, hcls, hoffer, hwork, hall, hrest⟩ := ha
        rw [hoffer] at hst
        cases hst
        refine ⟨_, h.answer_silent hch hold (.misread o n s) rfl rfl rfl ?_ rfl rfl⟩
        refine ⟨hempty, hcls, rfl, hwork, fun msg hmsg => ?_, hrest⟩
        exact hall msg (hmsgs ▸ List.mem_cons_of_mem _ hmsg)

/-- An answer comes to the plugin. -/
theorem Described.takeAnswerMessage (h : Described st x)
    (hst : st.step (.handleAnswer c) = some st') : ∃ x', Described st' x' := by
  obtain ⟨ch, hch, hst⟩ := Option.bind_eq_some_iff.mp hst
  have hc := h.holds c ch hch
  rw [hc.toInitiator] at hst
  cases hold : (x c).stage with
  | answerSent o m s a =>
    rw [hold] at hst
    simp only [Stage.toInitiator, handleAnswer, setChannel, hc.session, Option.bind_some,
      hc.dialling, Option.map_some, cString_cString] at hst
    split at hst
    · obtain rfl := Option.some.inj hst
      have hchannel : ch.withStage (.answerPosted o m s a) = { ch with toInitiator := [] } := by
        rw [CadetChannel.withStage, hc.toTarget, hold]
        rfl
      have hdial := h.dial hch hold (.answerPosted o m s a) rfl (fun _ h => h) fun _ h => by cases h
      rw [hchannel] at hdial
      rw [hold]
      exact ⟨_, hdial⟩
    · cases hst
  | _ =>
    rw [hold] at hst
    cases hst

/-! ## The steps of a plugin -/

section Plugin

variable {plugin : State Peer ChannelEnd} {r : State Peer ChannelEnd × List Output}

theorem step_getSession {channel : Option ChannelEnd}
    (h : plugin.step (.getSession q s channel) = some r) :
    plugin.failed = none ∧ s ≠ 0 ∧ plugin.heap s = none ∧ r = plugin.getSession q s channel := by
  unfold State.step at h
  split at h
  · cases h
  · simp only at h
    split at h
    · rename_i hfailed hguard
      exact ⟨not_not.mp hfailed, hguard.1, hguard.2, (Option.some.inj h).symm⟩
    · cases h

theorem step_connect {e : ChannelEnd} (h : plugin.step (.connect e q s) = some r) :
    plugin.failed = none ∧ (s ≠ 0 ∧ plugin.heap s = none ∧ plugin.contexts.lookup e = none) ∧
      r.2 = [.returned (plugin.connectCb e q s).2] ∧ r.1 = { (plugin.connectCb e q s).1 with
        contexts := (e, (plugin.connectCb e q s).2) :: (plugin.connectCb e q s).1.contexts } := by
  unfold State.step at h
  split at h
  · cases h
  · simp only at h
    split at h
    · rename_i hfailed hguard
      cases h
      exact ⟨not_not.mp hfailed, hguard, rfl, rfl⟩
    · cases h

theorem step_offer {e : ChannelEnd} {sdp : Sdp} (h : plugin.step (.offer e sdp) = some r) :
    plugin.failed = none ∧
      ∃ s, plugin.contexts.lookup e = some s ∧ r = plugin.handleOffer s sdp := by
  unfold State.step at h
  split at h
  · cases h
  · rename_i hfailed
    obtain ⟨s, hs, he⟩ := Option.map_eq_some_iff.mp h
    exact ⟨not_not.mp hfailed, s, hs, he.symm⟩

omit [DecidableEq Peer] in
theorem handleOffer_none (hs : plugin.heap s = none) (sdp : Sdp) :
    plugin.handleOffer s sdp = ({ plugin with
        nextConnection := plugin.nextConnection + 1
        failed := some .nullPointer }, [.handleOffer s, .peerConnect (some sdp) s]) := by
  rw [State.handleOffer, hs]

omit [DecidableEq Peer] in
theorem handleOffer_some {y : Session Peer ChannelEnd} (hs : plugin.heap s = some y) (sdp : Sdp) :
    plugin.handleOffer s sdp = ({ plugin with
        heap := Function.update plugin.heap s
          (some { y with rtcPeerConnection := plugin.nextConnection })
        nextConnection := plugin.nextConnection + 1 },
      [.handleOffer s, .peerConnect (some sdp) s]) := by
  rw [State.handleOffer, hs]

/-- What is said of the other sessions. -/
def Keeps (plugin plugin' : State Peer ChannelEnd) : Prop :=
  (∀ s y, plugin.heap s = some y → ∃ y', plugin'.heap s = some y' ∧ y'.peer = y.peer ∧
    y'.channel = y.channel ∧ ∀ c, y.channel = some ⟨c, false⟩ → y' = y) ∧
  plugin.nextConnection ≤ plugin'.nextConnection

omit [DecidableEq Peer] in
theorem keeps_of_heap {plugin' : State Peer ChannelEnd} (hheap : plugin'.heap = plugin.heap)
    (hnext : plugin.nextConnection ≤ plugin'.nextConnection) : Keeps plugin plugin' :=
  ⟨fun s y hy => ⟨y, by rw [hheap, hy], rfl, rfl, fun _ _ => rfl⟩, hnext⟩

omit [DecidableEq Peer] in
/-- A session gets another connection. -/
theorem keeps_of_update {y : Session Peer ChannelEnd} (hs : plugin.heap s = some y)
    (hchannel : y.channel = some ⟨c, true⟩) (plugin' : State Peer ChannelEnd) (n : Nat)
    (hheap : plugin'.heap = Function.update plugin.heap s (some { y with rtcPeerConnection := n }))
    (hnext : plugin.nextConnection ≤ plugin'.nextConnection) : Keeps plugin plugin' := by
  refine ⟨fun s' y' hy' => ?_, hnext⟩
  rw [hheap]
  by_cases hs' : s' = s
  · subst hs'
    rw [hs] at hy'
    cases hy'
    refine ⟨_, Function.update_self _ _ _, rfl, rfl, fun d hd => ?_⟩
    rw [hchannel] at hd
    cases hd
  · exact ⟨y', by rw [Function.update_of_ne hs', hy'], rfl, rfl, fun _ _ => rfl⟩

omit [DecidableEq Peer] in
theorem sessions_of_update {y y' : Session Peer ChannelEnd} {s' : Ptr}
    (hs : plugin.heap s = some y)
    (h : Function.update plugin.heap s (some { y with rtcPeerConnection := n }) s' = some y') :
    ∃ y, plugin.heap s' = some y ∧ y.peer = y'.peer ∧ y.channel = y'.channel := by
  by_cases hs' : s' = s
  · subst hs'
    rw [Function.update_self] at h
    cases h
    exact ⟨y, hs, rfl, rfl⟩
  · rw [Function.update_of_ne hs'] at h
    exact ⟨y', h, rfl, rfl⟩

omit [DecidableEq Peer] in
/-- A new session. -/
theorem keeps_of_new (hs : plugin.heap s = none) (plugin' : State Peer ChannelEnd)
    (y : Session Peer ChannelEnd) (hheap : plugin'.heap = Function.update plugin.heap s (some y))
    (hnext : plugin.nextConnection ≤ plugin'.nextConnection) : Keeps plugin plugin' := by
  refine ⟨fun s' y' hy' => ⟨y', ?_, rfl, rfl, fun _ _ => rfl⟩, hnext⟩
  rw [hheap, Function.update_of_ne, hy']
  rintro rfl
  rw [hs] at hy'
  cases hy'

omit [DecidableEq Peer] in
/-- The sessions are the same, with other connections. -/
theorem Sound.of_keeps {channels : Nat → Option (CadetChannel Peer)} (h : Sound channels p plugin)
    {plugin' : State Peer ChannelEnd} (hkeeps : Keeps plugin plugin')
    (hsessions : ∀ s y', plugin'.heap s = some y' → ∃ y, plugin.heap s = some y ∧
      y.peer = y'.peer ∧ y.channel = y'.channel)
    (hcontexts : plugin'.contexts = plugin.contexts)
    (hdialled : plugin'.failed = none → plugin.failed = none ∧ plugin'.peers = plugin.peers) :
    Sound channels p plugin' := by
  refine ⟨?_, fun c s hlookup hs => ?_, fun s y' c hy' hchannel => ?_, fun hfailed q hq => ?_⟩
  · cases hnull : plugin'.heap 0 with
    | none => rfl
    | some y' =>
      obtain ⟨y, hy, -⟩ := hsessions 0 y' hnull
      rw [h.null] at hy
      cases hy
  · rw [hcontexts] at hlookup
    obtain ⟨y, ch, hy, hchannel, hch, hpeer⟩ := h.context c s hlookup hs
    obtain ⟨y', hy', hpeer', hchannel', -⟩ := hkeeps.1 s y hy
    exact ⟨y', ch, hy', hchannel'.trans hchannel, hch, hpeer'.trans hpeer⟩
  · obtain ⟨y, hy, hpeer, hchannel'⟩ := hsessions s y' hy'
    rw [← hpeer]
    exact h.incoming s y c hy (hchannel'.trans hchannel)
  · obtain ⟨hfailed, hpeers⟩ := hdialled hfailed
    rw [hpeers] at hq
    exact h.dialled hfailed q hq

omit [DecidableEq Peer] in
/-- A session is put in. -/
theorem Sound.put {channels : Nat → Option (CadetChannel Peer)} (h : Sound channels p plugin)
    (hfailed : plugin.failed = none) (hzero : s ≠ 0) (hs : plugin.heap s = none)
    (plugin' : State Peer ChannelEnd) (y : Session Peer ChannelEnd)
    (hheap : plugin'.heap = Function.update plugin.heap s (some y))
    (hcontexts : plugin'.contexts = plugin.contexts)
    (hpeers : plugin'.peers = y.peer :: plugin.peers)
    (hincoming : ∀ c, y.channel = some ⟨c, true⟩ → Dialled channels p y.peer)
    (hdialled : plugin'.failed = none → Dialled channels p y.peer) : Sound channels p plugin' := by
  refine ⟨?_, fun c s' hlookup hs' => ?_, fun s' y' c hy' hchannel => ?_, fun hfailed' q hq => ?_⟩
  · rw [hheap, Function.update_of_ne hzero.symm, h.null]
  · rw [hcontexts] at hlookup
    obtain ⟨z, ch, hz, hrest⟩ := h.context c s' hlookup hs'
    refine ⟨z, ch, ?_, hrest⟩
    rw [hheap, Function.update_of_ne, hz]
    rintro rfl
    rw [hs] at hz
    cases hz
  · rw [hheap] at hy'
    by_cases he : s' = s
    · subst he
      rw [Function.update_self] at hy'
      cases hy'
      exact hincoming c hchannel
    · rw [Function.update_of_ne he] at hy'
      exact h.incoming s' y' c hy' hchannel
  · rw [hpeers] at hq
    rcases List.mem_cons.mp hq with rfl | hq
    · exact hdialled hfailed'
    · exact h.dialled hfailed q hq

omit [DecidableEq Peer] in
/-- A channel gets its context. -/
theorem Sound.connected {channels : Nat → Option (CadetChannel Peer)} (h : Sound channels p plugin)
    (hs : s ≠ 0 → ∃ y ch, plugin.heap s = some y ∧ y.channel = some ⟨c, true⟩ ∧
      channels c = some ch ∧ y.peer = ch.initiator) :
    Sound channels p { plugin with contexts := (⟨c, true⟩, s) :: plugin.contexts } := by
  refine ⟨h.null, fun d s' hlookup hs' => ?_, h.incoming, h.dialled⟩
  rw [List.lookup_cons] at hlookup
  split at hlookup
  · rename_i he
    cases hlookup
    obtain rfl : d = c := by simpa using he
    exact hs hs'
  · exact h.context d s' hlookup hs'

/-- A step of a plugin alone. -/
theorem Described.setPlugin (h : Described st x) (hfailed : (st.plugin p).failed = none)
    (hkeeps : Keeps (st.plugin p) plugin)
    (hsound : Sound st.channels p plugin) : Described (st.setPlugin p plugin) x := by
  have hother : ∀ q, q ≠ p → (st.setPlugin p plugin).plugin q = st.plugin q :=
    fun q hq => Function.update_of_ne hq _ _
  have hself : (st.setPlugin p plugin).plugin p = plugin := Function.update_self _ _ _
  refine ⟨fun c ch hch => ?_, h.fresh, h.owned, fun q n conn hconn => ?_, fun q => ?_⟩
  · refine (h.holds c ch hch).frame (fun _ _ _ _ _ => rfl) (fun q s y hy => ?_) fun q hq' => ?_
    · by_cases hq : q = p
      · subst hq
        rw [hself]
        obtain ⟨y', hy', hpeer, hchannel, he⟩ := hkeeps.1 s y hy
        exact ⟨y', hy', hpeer, hchannel, he c⟩
      · exact ⟨y, (hother q hq).symm ▸ hy, rfl, rfl, fun _ => rfl⟩
    · rw [hother q fun hq => hq' (hq ▸ hfailed)]
      exact hq'
  · have hlt := h.below q n conn hconn
    by_cases hq : q = p
    · subst hq
      rw [hself]
      exact Nat.lt_of_lt_of_le hlt hkeeps.2
    · rwa [hother q hq]
  · by_cases hq : q = p
    · subst hq
      rwa [hself]
    · rw [hother q hq]
      exact h.sound q

end Plugin

theorem setConnection_eq (h : st.connections p n = some conn) :
    st.setConnection p n conn = st := by
  rw [setConnection, ← h, Function.update_eq_self, Function.update_eq_self]

omit [DecidableEq Peer] in
/-- The number that comes next is not in use. -/
theorem Described.next_none (h : Described st x) (p : Peer) :
    st.connections p (st.plugin p).nextConnection = none := by
  cases hconn : st.connections p (st.plugin p).nextConnection with
  | none => rfl
  | some conn => exact absurd (h.below p _ conn hconn) (Nat.lt_irrefl _)

omit [DecidableEq Peer] in
/-- The channel, once the offer has been taken from it. -/
theorem Holds.taken {x : Exchange} (h : Holds st c ch x) {o : Sdp} (hold : x.stage = .offerSent o)
    (stage : Stage) (htarget : stage.toTarget = []) (hinitiator : stage.toInitiator = []) :
    { ch with toTarget := [] } = ch.withStage stage := by
  rw [CadetChannel.withStage, htarget, hinitiator, h.toInitiator, hold]
  rfl

/-- An offer comes to a plugin that has no session for it. -/
theorem Described.loseOffer (h : Described st x) (hch : st.channels c = some ch) {o : Sdp}
    (hold : (x c).stage = .offerSent o) (hfailed : (st.plugin ch.target).failed = none)
    (window : Option Bool) :
    ∃ x', Described (((st.setChannel c { ch with toTarget := [] }).setPlugin ch.target
        { st.plugin ch.target with
          nextConnection := (st.plugin ch.target).nextConnection + 1
          failed := some .nullPointer }).setConnection ch.target
      (st.plugin ch.target).nextConnection
        (Webrtc.peerConnect window (some (cString o)) 0)) x' := by
  have hc := h.holds c ch hch
  rw [hc.taken hold (.offerLost o) rfl rfl]
  have hkeeps : Keeps (st.plugin ch.target) { st.plugin ch.target with
      nextConnection := (st.plugin ch.target).nextConnection + 1
      failed := some .nullPointer } := keeps_of_heap rfl (Nat.le_succ _)
  have h₁ := h.setPlugin hfailed hkeeps ((h.sound ch.target).of_keeps hkeeps
    (fun s y hy => ⟨y, hy, rfl, rfl⟩) rfl fun hf => by cases hf)
  have h₂ := h₁.dial hch hold (.offerLost o) rfl (fun _ h => h) fun _ _ => by
    simp [Net.setPlugin]
  have hdialling : st.connections ch.initiator (x c).number =
      some (Stage.dialling ch.cls (.offerLost o)) := by
    rw [hc.dialling, hold]
    rfl
  rw [setConnection_eq (by exact hdialling)] at h₂
  have hlost : Lost (Webrtc.peerConnect window (some (cString o)) 0) :=
    ⟨rfl, by simp [Webrtc.peerConnect], rfl, rfl⟩
  refine ⟨_, h₂.setLost (endOf_none (by exact h.next_none _)) ?_ hlost⟩
  simp [Net.setPlugin, Net.setChannel]

/-- A connection is made for an offer, which is given to the window if there is one. -/
theorem answering_peerConnect (o : Sdp) (n : Nat) (s : Ptr) (window : Option Bool) :
    (Stage.answering o n s (if window = none then .unposted else .posted)).Answering
      (Webrtc.peerConnect window (some (cString o)) s) := by
  refine ⟨?_, fun hwork => ?_, ?_⟩
  · split <;> simp
  · split at hwork <;> simp [Work.promised] at hwork
  · rw [peerConnect, Option.map_some, cString_cString]

/-- An offer comes to a session. -/
theorem Described.beginAnswer (h : Described st x) (hch : st.channels c = some ch) {o : Sdp}
    (hold : (x c).stage = .offerSent o) (hfailed : (st.plugin ch.target).failed = none)
    (hlookup : (st.plugin ch.target).contexts.lookup ⟨c, true⟩ = some s)
    {y : Session Peer ChannelEnd} (hheap : (st.plugin ch.target).heap s = some y)
    (window : Option Bool) :
    ∃ x', Described (((st.setChannel c { ch with toTarget := [] }).setPlugin ch.target
        { st.plugin ch.target with
          heap := Function.update (st.plugin ch.target).heap s
            (some { y with rtcPeerConnection := (st.plugin ch.target).nextConnection })
          nextConnection := (st.plugin ch.target).nextConnection + 1 }).setConnection ch.target
      (st.plugin ch.target).nextConnection
        (Webrtc.peerConnect window (some (cString o)) s)) x' := by
  have hc := h.holds c ch hch
  have hsound := h.sound ch.target
  have hs : s ≠ 0 := by
    rintro rfl
    rw [hsound.null] at hheap
    cases hheap
  obtain ⟨y', ch', hy', hend, hch', hpeer⟩ := hsound.context c s hlookup hs
  obtain rfl := Option.some.inj (hheap.symm.trans hy')
  obtain rfl := Option.some.inj (hch.symm.trans hch')
  obtain ⟨stage, hstage⟩ : ∃ stage, stage = Stage.answering o (st.plugin ch.target).nextConnection
    s (if window = none then .unposted else .posted) := ⟨_, rfl⟩
  have hanswerer : stage.answerer = some ((st.plugin ch.target).nextConnection, s) := by
    rw [hstage]
    rfl
  have hdialling : stage.dialling ch.cls = (Stage.offerSent o).dialling ch.cls := by
    rw [hstage]
    rfl
  rw [hc.taken hold stage (by rw [hstage]; rfl) (by rw [hstage]; rfl)]
  have hkeeps : Keeps (st.plugin ch.target) { st.plugin ch.target with
      heap := Function.update (st.plugin ch.target).heap s
        (some { y with rtcPeerConnection := (st.plugin ch.target).nextConnection })
      nextConnection := (st.plugin ch.target).nextConnection + 1 } :=
    keeps_of_update hheap hend _ _ rfl (Nat.le_succ _)
  have h₁ := h.setPlugin hfailed hkeeps (hsound.of_keeps hkeeps
    (fun s' y' hy' => sessions_of_update hheap hy') rfl fun hf => ⟨hf, rfl⟩)
  have hc₁ := h₁.holds c ch hch
  have hne : ¬ (ch.initiator = ch.target ∧
      (x c).number = (st.plugin ch.target).nextConnection) := by
    rintro ⟨hpeer, hnumber⟩
    have hdial := hc.dialling
    rw [hpeer, hnumber, h.next_none] at hdial
    cases hdial
  refine ⟨_, h₁.advance hch stage (fun r hr => ?_) (fun e he => ?_) (.inr ⟨rfl, s, hanswerer⟩) ?_
    ⟨hc₁.session, ?_, rfl, rfl, fun m s' hs' => ?_, fun o' ho' => ?_⟩⟩
  · rw [hold] at hr
    cases hr
  · rw [endOf_none (by exact h.next_none _)] at he
    cases he
  · simp [Net.setPlugin]
  · refine (setConnection_of_ne hne).trans (hc₁.dialling.trans ?_)
    rw [hold]
    exact congrArg some hdialling.symm
  · obtain ⟨rfl, rfl⟩ := Prod.mk.inj (Option.some.inj (hanswerer.symm.trans hs'))
    refine ⟨⟨_, setConnection_self _ _ _ _, hstage ▸ answering_peerConnect o _ _ window⟩,
      { y with rtcPeerConnection := (st.plugin ch.target).nextConnection }, ?_, hpeer, hend⟩
    simp [Net.setPlugin, Net.setConnection, Net.setChannel, CadetChannel.withStage]
  · obtain rfl : stage = .offerLost o' := ho'
    cases hanswerer

/-- **An offer comes to the plugin.** -/
theorem Described.takeOfferMessage (h : Described st x)
    (hst : st.step (.handleOffer c) = some st') : ∃ x', Described st' x' := by
  obtain ⟨ch, hch, hst⟩ := Option.bind_eq_some_iff.mp hst
  rw [(h.holds c ch hch).toTarget] at hst
  cases hold : (x c).stage with
  | offerSent o =>
    rw [hold] at hst
    obtain ⟨r, hr, rfl⟩ : ∃ r, (st.plugin ch.target).step (.offer ⟨c, true⟩ (cString o)) = some r ∧
        ((st.setChannel c { ch with toTarget := [] }).setPlugin ch.target r.1).perform ch.target
          (st.plugin ch.target).nextConnection r.2 = st' := Option.map_eq_some_iff.mp hst
    obtain ⟨hfailed, s, hlookup, rfl⟩ := step_offer hr
    cases hheap : (st.plugin ch.target).heap s with
    | none =>
      have hs : s = 0 := by
        by_contra hne
        obtain ⟨y, _, hy, -⟩ := (h.sound ch.target).context c s hlookup hne
        rw [hheap] at hy
        cases hy
      subst hs
      rw [handleOffer_none hheap]
      exact h.loseOffer hch hold hfailed _
    | some y =>
      rw [handleOffer_some hheap]
      exact h.beginAnswer hch hold hfailed hlookup hheap _
  | _ =>
    rw [hold] at hst
    cases hst

/-- A channel comes in. -/
theorem Described.connect (h : Described st x) (hst : st.step (.connect c s) = some st') :
    Described st' x := by
  obtain ⟨ch, hch, hst⟩ := Option.bind_eq_some_iff.mp hst
  obtain ⟨r, hr, rfl⟩ := Option.map_eq_some_iff.mp hst
  obtain ⟨hfailed, ⟨hzero, hs, -⟩, hos, hplugin⟩ := step_connect hr
  rw [hos, hplugin]
  have hsound := h.sound ch.target
  unfold State.connectCb
  cases hget : (st.plugin ch.target).multipeermapGet ch.initiator with
  | none =>
    exact h.setPlugin hfailed (keeps_of_heap rfl (Nat.le_refl _))
      (hsound.connected fun h => absurd rfl h)
  | some s' =>
    have hpeer : ch.initiator ∈ (st.plugin ch.target).peers := by
      by_contra hn
      rw [State.multipeermapGet_eq_none.mpr hn] at hget
      cases hget
    have hdialled := hsound.dialled hfailed ch.initiator hpeer
    have hput : Sound st.channels ch.target
        ((st.plugin ch.target).put s ⟨ch.initiator, some ⟨c, true⟩, 0⟩) :=
      hsound.put hfailed hzero hs _ _ rfl rfl rfl (fun _ _ => hdialled) fun _ => hdialled
    refine h.setPlugin hfailed
      (keeps_of_new hs _ ⟨ch.initiator, some ⟨c, true⟩, 0⟩ rfl (Nat.le_refl _)) ?_
    exact hput.connected fun _ => ⟨_, ch, Function.update_self _ _ _, rfl, hch, rfl⟩

/-- A channel with its session and its connection. -/
theorem Described.dialNew (h : Described st x) (plugin : State Peer ChannelEnd)
    (hfailed : (st.plugin p).failed = none) (hs : (st.plugin p).heap s = none)
    (hheap : plugin.heap = Function.update (st.plugin p).heap s
      (some ⟨q, some ⟨st.nextChannel, false⟩, (st.plugin p).nextConnection⟩))
    (hnext : plugin.nextConnection = (st.plugin p).nextConnection + 1)
    {window : Option Bool}
    (hst' : st' = { ((st.setPlugin p plugin).setConnection p (st.plugin p).nextConnection
      (Webrtc.peerConnect window none s)).setChannel st.nextChannel ⟨p, s, q, [], []⟩ with
        nextChannel := st.nextChannel + 1 })
    (hsound : Sound st'.channels p plugin) :
    Described st' (Function.update x st.nextChannel
      ⟨(st.plugin p).nextConnection, Stage.ofWindow window⟩) := by
  have hnone : st.channels st.nextChannel = none := h.fresh _ (Nat.le_refl _)
  have hself : st'.channels st.nextChannel = some ⟨p, s, q, [], []⟩ := by
    rw [hst']
    exact setChannel_self _ _ _
  have hother : ∀ d, d ≠ st.nextChannel → st'.channels d = st.channels d := by
    intro d hd
    rw [hst']
    exact setChannel_of_ne hd
  have hconnection : st'.connections p (st.plugin p).nextConnection =
      some ((Stage.ofWindow window).dialling s) := by
    rw [hst', Stage.dialling_ofWindow]
    exact setConnection_self _ _ _ _
  have hconnections : ∀ p' n', ¬ (p' = p ∧ n' = (st.plugin p).nextConnection) →
      st'.connections p' n' = st.connections p' n' := by
    intro p' n' hp
    rw [hst']
    exact setConnection_of_ne hp
  have hplugin : st'.plugin p = plugin := by
    rw [hst']
    exact Function.update_self _ _ _
  have hplugins : ∀ p', p' ≠ p → st'.plugin p' = st.plugin p' := by
    intro p' hp
    rw [hst']
    exact Function.update_of_ne hp _ _
  have hold : ∀ d ch, st.channels d = some ch → d ≠ st.nextChannel := by
    rintro d ch hd rfl
    rw [hnone] at hd
    cases hd
  have hkeeps := keeps_of_new hs plugin _ hheap (by omega)
  refine ⟨fun d chd hd => ?_, fun d hd => ?_, fun p' n' conn' hconn => ?_,
    fun p' n' conn' hconn => ?_, fun p' => ?_⟩
  · by_cases hdc : d = st.nextChannel
    · subst hdc
      rw [hself] at hd
      cases hd
      rw [Function.update_self]
      refine ⟨?_, hconnection, by cases window <;> rfl, by cases window <;> rfl,
        by cases window <;> nofun, by cases window <;> nofun⟩
      rw [hplugin, hheap]
      exact Function.update_self _ _ _
    · rw [hother d hdc] at hd
      rw [Function.update_of_ne hdc]
      refine (h.holds d chd hd).frame (fun p' n' e he _ => hconnections p' n' ?_)
        (fun p' s' y hy => ?_) fun p' hp' => ?_
      · rintro ⟨rfl, rfl⟩
        rw [endOf_none (h.next_none p')] at he
        cases he
      · by_cases hp : p' = p
        · subst hp
          obtain ⟨y', hy', hpeer, hchannel, he⟩ := hkeeps.1 s' y hy
          exact ⟨y', by rw [hplugin, hy'], hpeer, hchannel, he d⟩
        · exact ⟨y, by rw [hplugins p' hp, hy], rfl, rfl, fun _ => rfl⟩
      · rw [hplugins p' fun hp => hp' (hp ▸ hfailed)]
        exact hp'
  · have hnext' : st'.nextChannel = st.nextChannel + 1 := by rw [hst']
    rw [hother d (by omega)]
    exact h.fresh d (by omega)
  · by_cases hp : p' = p ∧ n' = (st.plugin p).nextConnection
    · obtain ⟨rfl, rfl⟩ := hp
      refine .inr ⟨st.nextChannel, _, hself, .inl ⟨rfl, ?_⟩⟩
      rw [Function.update_self]
    · rw [hconnections p' n' hp] at hconn
      refine (h.owned p' n' conn' hconn).imp_right ?_
      rintro ⟨d, chd, hd, howns⟩
      refine ⟨d, chd, (hother d (hold d chd hd)).trans hd, ?_⟩
      rwa [Function.update_of_ne (hold d chd hd)]
  · by_cases hp : p' = p ∧ n' = (st.plugin p).nextConnection
    · obtain ⟨rfl, rfl⟩ := hp
      rw [hplugin]
      omega
    · rw [hconnections p' n' hp] at hconn
      have hlt := h.below p' n' conn' hconn
      by_cases hp' : p' = p
      · subst hp'
        rw [hplugin]
        omega
      · rwa [hplugins p' hp']
  · by_cases hp : p' = p
    · subst hp
      rwa [hplugin]
    · rw [hplugins p' hp]
      exact (h.sound p').extends fun d chd hd =>
        ⟨chd, (hother d (hold d chd hd)).trans hd, rfl, rfl⟩

/-- **A peer is dialled.** -/
theorem Described.getSession (h : Described st x) {opens : Bool}
    (hst : st.step (.getSession p q s opens) = some st') : ∃ x', Described st' x' := by
  simp only [step, Net.getSession] at hst
  split at hst
  · rename_i hopens
    obtain ⟨r, hr, rfl⟩ : ∃ r, (st.plugin p).step
          (.getSession q s (some ⟨st.nextChannel, false⟩)) = some r ∧
        (({ st.setChannel st.nextChannel ⟨p, s, q, [], []⟩ with
            nextChannel := st.nextChannel + 1 } : Net Peer).setPlugin p r.1).perform p
          (st.plugin p).nextConnection r.2 = st' := Option.map_eq_some_iff.mp hst
    obtain ⟨hfailed, hzero, hs, he⟩ := step_getSession hr
    have hget : (st.plugin p).multipeermapGet q = none := hopens.2
    have hplugin : (st.plugin p).getSession q s (some ⟨st.nextChannel, false⟩) =
        ({ (st.plugin p).put s
            ⟨q, some ⟨st.nextChannel, false⟩, (st.plugin p).nextConnection⟩ with
          nextConnection := (st.plugin p).nextConnection + 1 },
        [.peerConnect none s, .returned 0]) := by
      rw [State.getSession, hget]
    obtain rfl := he.trans hplugin
    have hext : Extends st.channels (st.setChannel st.nextChannel ⟨p, s, q, [], []⟩).channels := by
      intro d chd hd
      refine ⟨chd, (setChannel_of_ne ?_).trans hd, rfl, rfl⟩
      rintro rfl
      rw [h.fresh _ (Nat.le_refl _)] at hd
      cases hd
    have hdialled : Dialled (st.setChannel st.nextChannel ⟨p, s, q, [], []⟩).channels p q :=
      ⟨st.nextChannel, _, setChannel_self _ _ _, rfl, rfl⟩
    refine ⟨_, h.dialNew { (st.plugin p).put s
        ⟨q, some ⟨st.nextChannel, false⟩, (st.plugin p).nextConnection⟩ with
      nextConnection := (st.plugin p).nextConnection + 1 } hfailed hs rfl rfl rfl ?_⟩
    exact ((h.sound p).extends hext).put hfailed hzero hs
        { (st.plugin p).put s
          ⟨q, some ⟨st.nextChannel, false⟩, (st.plugin p).nextConnection⟩ with
          nextConnection := (st.plugin p).nextConnection + 1 }
        ⟨q, some ⟨st.nextChannel, false⟩, (st.plugin p).nextConnection⟩ rfl rfl rfl
        (fun _ _ => hdialled) fun _ => hdialled
  · rename_i hopens
    obtain ⟨r, hr, rfl⟩ := Option.map_eq_some_iff.mp hst
    obtain ⟨hfailed, hzero, hs, rfl⟩ := step_getSession hr
    unfold State.getSession
    cases hget : (st.plugin p).multipeermapGet q with
    | some s' => exact ⟨x, h.setPlugin hfailed (keeps_of_heap rfl (Nat.le_refl _)) (h.sound p)⟩
    | none =>
      refine ⟨x, h.setPlugin hfailed (keeps_of_new hs _ ⟨q, none, 0⟩ rfl (Nat.le_refl _)) ?_⟩
      exact (h.sound p).put hfailed hzero hs _ ⟨q, none, 0⟩ rfl rfl rfl (fun _ h => by cases h)
        fun h => by cases h

/-- **Every step keeps the description.** -/
theorem Described.step (h : Described st x) {e : Event Peer} (hst : st.step e = some st') :
    ∃ x', Described st' x' := by
  cases e with
  | onconnect p | close p w =>
    cases hst
    exact ⟨x, h.setWindows p _⟩
  | getSession p q s opens => exact h.getSession hst
  | connect c s => exact ⟨x, h.connect hst⟩
  | handleOffer c => exact h.takeOfferMessage hst
  | handleAnswer c => exact h.takeAnswerMessage hst
  | peerConnect p n =>
    obtain ⟨conn, hconn, hwork, rfl⟩ := of_inWindow_if hst
    exact h.start hconn hwork
  | offerCreated p n sdp =>
    obtain ⟨conn, hconn, hwork, rfl⟩ := of_inWindow_if hst
    exact h.createOffer hconn hwork sdp
  | offerSet p n =>
    obtain ⟨conn, hconn, hwork, rfl⟩ := of_inWindow_if hst
    exact h.setOffer hconn hwork
  | answerCreated p n sdp =>
    obtain ⟨conn, hconn, hwork, rfl⟩ := of_inWindow_if hst
    exact h.createAnswer hconn hwork sdp
  | rejected p n =>
    obtain ⟨conn, hconn, hwork, rfl⟩ := of_inWindow_if hst
    exact h.reject hconn hwork
  | pluginMessage p n =>
    obtain ⟨conn, hconn, -⟩ := Option.bind_eq_some_iff.mp hst
    exact h.takeMessage hconn hst
  | windowMessage p n =>
    obtain ⟨conn, conn', hconn, hwindow, rfl⟩ := of_inWindow hst
    exact h.takeAnswer hconn hwindow

/-! ## Whole runs -/

omit [DecidableEq Peer] in
theorem described_init : Described (init : Net Peer) fun _ => ⟨0, .posted⟩ where
  holds c ch h := by cases h
  fresh c _ := rfl
  owned p n conn h := by cases h
  below p n conn h := by cases h
  sound p := ⟨rfl, fun c s h => (by cases h), fun s y c h => (by cases h),
    fun _ q hq => (by cases hq)⟩

/-- **Every state of a run is described by the exchanges.** -/
theorem described_run {es : List (Event Peer)} {os : List Unit}
    (h : system.Run EventSystem.anyEvent es os st) : ∃ x, Described st x := by
  refine h.invariant (P := fun st => ∃ x, Described st x) ?_ ⟨_, described_init⟩
  rintro st e st' o ⟨x, hx⟩ - hst
  obtain ⟨st'', hst', he⟩ := Option.map_eq_some_iff.mp hst
  cases he
  exact hx.step hst'

/-- The connection `n` of `p` has been given the answer that was made for its own offer by the
connection `m` of `q`; the two are at the ends of one channel. -/
def AnsweredBy (st : Net Peer) (p : Peer) (n : Nat) (q : Peer) (m : Nat) : Prop :=
  ∃ conn conn' y y' c o a, st.connections p n = some conn ∧ st.connections q m = some conn' ∧
    ((st.plugin p).heap conn.cls = some y ∧ y.peer = q ∧ y.channel = some ⟨c, false⟩) ∧
    ((st.plugin q).heap conn'.cls = some y' ∧ y'.peer = p ∧ y'.channel = some ⟨c, true⟩) ∧
    (conn.offer = none ∧ conn.localDescription = some o ∧ conn'.offer = some (cString o)) ∧
    conn'.localDescription = some a ∧ conn.answers = [cString a]

section Matched

omit [DecidableEq Peer] in
/-- The connection at an end of a channel. -/
theorem Described.of_endOf (h : Described st x) {incoming : Bool}
    (hend : st.endOf p n = some ⟨c, incoming⟩) : ∃ ch, st.channels c = some ch ∧
      if incoming then p = ch.target ∧ ∃ s, (x c).stage.answerer = some (n, s)
      else p = ch.initiator ∧ n = (x c).number := by
  obtain ⟨conn, hconn, -⟩ := Option.bind_eq_some_iff.mp hend
  rcases h.owner hconn with hlost | ⟨d, ch, hch, rfl, rfl, -⟩ | ⟨d, ch, s, hch, rfl, hs, -⟩
  · rw [endOf, hconn, Option.bind_some, hlost.1, (h.sound p).null] at hend
    cases hend
  · rw [(h.holds d ch hch).endOf_dialling] at hend
    cases hend
    exact ⟨ch, hch, rfl, rfl⟩
  · rw [(h.holds d ch hch).endOf_answering hs] at hend
    cases hend
    exact ⟨ch, hch, rfl, s, hs⟩

omit [DecidableEq Peer] in
/-- The two ends of an answer. -/
theorem AnsweredBy.ends {q : Peer} (h : AnsweredBy st p n q m) : ∃ c,
    st.endOf p n = some ⟨c, false⟩ ∧ st.endOf q m = some ⟨c, true⟩ := by
  obtain ⟨conn, conn', y, y', c, o, a, hconn, hconn', ⟨hy, -, hchannel⟩,
    ⟨hy', -, hchannel'⟩, -⟩ := h
  exact ⟨c, (endOf_eq hconn hy).trans hchannel, (endOf_eq hconn' hy').trans hchannel'⟩

omit [DecidableEq Peer] in
/-- At the last stage the dial has its answer. -/
theorem Described.answered (h : Described st x) (hch : st.channels c = some ch) {o a : Sdp}
    (hold : (x c).stage = .answered o m s a) :
    AnsweredBy st ch.initiator (x c).number ch.target m ∧
      Dialled st.channels ch.target ch.initiator := by
  have hc := h.holds c ch hch
  have hconn := hc.dialling
  obtain ⟨⟨conn', hconn', ha⟩, y', hy', hpeer, hchannel⟩ := hc.answering m s (by rw [hold]; rfl)
  rw [hold] at hconn ha
  cases ha
  refine ⟨⟨_, _, _, y', c, o, a, hconn, hconn', ⟨hc.session, rfl, rfl⟩,
    ⟨hy', hpeer, hchannel⟩, ⟨rfl, rfl, rfl⟩, rfl, rfl⟩, ?_⟩
  rw [← hpeer]
  exact (h.sound ch.target).incoming s y' c hy' hchannel

omit [DecidableEq Peer] in
/-- A connection with an answer is at the last stage. -/
theorem Described.of_answers (h : Described st x) (hconn : st.connections p n = some conn)
    (hanswers : conn.answers ≠ []) :
    ∃ q m, AnsweredBy st p n q m ∧ Dialled st.channels p q ∧ Dialled st.channels q p := by
  rcases h.owner hconn with hlost | ⟨c, ch, hch, rfl, rfl, rfl⟩ | ⟨c, ch, s, hch, rfl, hs, ha⟩
  · exact absurd hlost.2.2.2 hanswers
  · cases hold : (x c).stage with
    | answered o m s a =>
      obtain ⟨hanswered, hback⟩ := h.answered hch hold
      exact ⟨ch.target, m, hanswered, ⟨c, ch, hch, rfl, rfl⟩, hback⟩
    | _ =>
      rw [hold] at hanswers
      exact absurd rfl hanswers
  · exact absurd ha.answers hanswers

omit [DecidableEq Peer] in
theorem Described.oneToOne (h : Described st x) {q q' p' : Peer} {n' m' : Nat}
    (hanswer : AnsweredBy st p n q m) (hanswer' : AnsweredBy st p' n' q' m') :
    p = p' ∧ n = n' ↔ q = q' ∧ m = m' := by
  obtain ⟨c, hp, hq⟩ := hanswer.ends
  obtain ⟨c', hp', hq'⟩ := hanswer'.ends
  have hends : c = c' → (p = p' ∧ n = n') ∧ q = q' ∧ m = m' := by
    rintro rfl
    obtain ⟨ch, hch, rfl, rfl⟩ := h.of_endOf hp
    obtain ⟨_, hch₁, rfl, rfl⟩ := h.of_endOf hp'
    obtain ⟨_, hch₂, rfl, s, hs⟩ := h.of_endOf hq
    obtain ⟨_, hch₃, rfl, s', hs'⟩ := h.of_endOf hq'
    cases hch.symm.trans hch₁
    cases hch₂.symm.trans hch₃
    cases hs.symm.trans hs'
    exact ⟨⟨rfl, rfl⟩, rfl, rfl⟩
  constructor
  · rintro ⟨rfl, rfl⟩
    rw [hp] at hp'
    cases hp'
    exact (hends rfl).2
  · rintro ⟨rfl, rfl⟩
    rw [hq] at hq'
    cases hq'
    exact (hends rfl).1

end Matched

/-- **Answers match offers.**  In every run, a connection that has been given an answer has been
given one, which the peer that it dials has made for its own offer, and that peer has dialled
back; no connection has answered two. -/
theorem answers_matched {es : List (Event Peer)} {os : List Unit}
    (h : system.Run EventSystem.anyEvent es os st) :
    (∀ p n conn, st.connections p n = some conn → conn.answers ≠ [] →
      ∃ q m, AnsweredBy st p n q m ∧ Dialled st.channels p q ∧ Dialled st.channels q p) ∧
    ∀ p n q m p' n' q' m', AnsweredBy st p n q m → AnsweredBy st p' n' q' m' →
      (p = p' ∧ n = n' ↔ q = q' ∧ m = m') := by
  obtain ⟨x, hx⟩ := described_run h
  exact ⟨fun p n conn hconn hanswers => hx.of_answers hconn hanswers,
    fun _ _ _ _ _ _ _ _ h h' => hx.oneToOne h h'⟩

/-- Two peers dial each other, and the first one gets its answer. -/
def bothDial : List (Event Nat) :=
  [.onconnect 1, .onconnect 2, .getSession 1 2 16 true, .getSession 2 1 32 true,
    .peerConnect 1 1, .offerCreated 1 1 [118], .pluginMessage 1 1, .connect 0 48, .handleOffer 0,
    .peerConnect 2 2, .offerSet 2 2, .answerCreated 2 2 [119], .pluginMessage 2 2,
    .handleAnswer 0, .windowMessage 1 1]

theorem answers_matched_two : ∃ (st : Net Nat) (os : List Unit),
    system.Run EventSystem.anyEvent bothDial os st ∧ ∃ q m, AnsweredBy st 1 1 q m := by
  have hrun : ∃ r : Net Nat × List Unit, system.exec init bothDial = some r ∧
      ∃ conn, r.1.connections 1 1 = some conn ∧ conn.answers ≠ [] :=
    ⟨_, rfl, _, rfl, by decide⟩
  obtain ⟨r, hexec, conn, hconn, hanswers⟩ := hrun
  have h : (@system Nat _).Run EventSystem.anyEvent bothDial r.2 r.1 :=
    EventSystem.Steps.of_exec (fun _ _ => trivial) hexec
  obtain ⟨q, m, hanswer, -⟩ := (answers_matched h).1 1 1 conn hconn hanswers
  exact ⟨r.1, r.2, h, q, m, hanswer⟩

end Net

end GnunetWeb.Webrtc
