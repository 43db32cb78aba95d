import GnunetWeb.HttpClient.Table
import Mathlib.Data.List.Perm.Basic

/-!
# The continuations of sends

A PUT request keeps the continuation of its send until it has ended, and the end of a
session does not touch it.

Proved here:

* `sent_perm`: what was sent with a continuation has been called or is still outstanding;
* `continuations`: the contract, in runs in which no session ends with a continuation that
  is outstanding;
* `continuation_after_session`: a session that ends with one.
-/

namespace GnunetWeb.HttpClient.State

variable {Address Peer Sockaddr Tokenizer Message : Type}

/-- A session, a continuation and its closure. -/
abbrev Continuation := Ptr × Ptr × Ptr

def sentBy : Event Address Peer → Option Continuation
  | .send s _ cont contCls => if cont = 0 then none else some (s, cont, contCls)
  | _ => none

def calledBy : Output Address Message → Option Continuation
  | .transmitCont cont contCls target _ _ _ => some (target, cont, contCls)
  | _ => none

def outstandingOf (p : Put) : Option Continuation :=
  if p.cont = 0 then none else some (p.s, p.cont, p.contCls)

/-- The sends with a continuation. -/
def sent (es : List (Event Address Peer)) : List Continuation := es.filterMap sentBy

/-- The calls of continuations, with the session of the peer pointer. -/
def called (os : List (Output Address Message)) : List Continuation := os.filterMap calledBy

/-- The continuations that PUT requests keep. -/
def outstanding (st : State Address Peer Tokenizer Message) : List Continuation :=
  st.puts.filterMap outstandingOf

/-- The session that an event makes the plugin disconnect. -/
def disconnects (st : State Address Peer Tokenizer Message) : Event Address Peer → Option Ptr
  | .disconnectSession s | .destroySession s => some s
  | .error get => (st.xhrs get).map Xhr.s
  | .run task now _ =>
    (st.tasks.find? fun t => t.1 = task).bind fun t =>
      if getRemaining now (st.heap t.2).timeout = 0 then some t.2 else none
  | _ => none

/-- A session that is disconnected has no continuation outstanding, and `env->session_end`
sends nothing with a continuation on its session. -/
def Settled (st : State Address Peer Tokenizer Message) (e : Event Address Peer) : Prop :=
  (∀ s ∈ st.disconnects e, ∀ c ∈ st.outstanding, c.1 ≠ s) ∧
    ∀ c ∈ sentBy e, c.1 ∉ st.endings

variable {env : Env Address Peer Sockaddr Tokenizer Message}
  {st : State Address Peer Tokenizer Message}

/-! ## What a step does -/

/-- What a step has to do with continuations and with the sessions that end. -/
structure Account (st : State Address Peer Tokenizer Message) (e : Event Address Peer)
    (r : State Address Peer Tokenizer Message × List (Output Address Message)) : Prop where
  outstanding : (st.outstanding ++ sent [e]).Perm (called r.2 ++ r.1.outstanding)
  alive : ∀ c ∈ sentBy e, c.1 ∈ st.sessions
  ends : ∀ address s, .sessionEnd address s ∈ r.2 → s ∈ st.disconnects e
  endings : ∀ s ∈ r.1.endings, s ∈ st.endings ∨ s ∈ st.disconnects e
  sessions : ∀ s ∈ st.sessions, s ∈ r.1.sessions ∨ s ∈ st.endings

theorem sent_singleton {e : Event Address Peer} (h : sentBy e = none) : sent [e] = [] := by
  rw [sent, List.filterMap_cons_none h, List.filterMap_nil]

theorem called_quiet {os : List (Output Address Message)} (h : ∀ o ∈ os, Quiet o) :
    called os = [] := by
  rw [called, List.filterMap_eq_nil_iff]
  intro o ho
  have hq := h o ho
  cases o with
  | transmitCont _ _ _ _ _ _ => exact hq.elim
  | _ => rfl

/-- The PUT requests stay. -/
theorem perm_of_puts {e : Event Address Peer}
    {r : State Address Peer Tokenizer Message × List (Output Address Message)}
    (hsent : sentBy e = none) (hcalled : called r.2 = []) (hputs : r.1.puts = st.puts) :
    (st.outstanding ++ sent [e]).Perm (called r.2 ++ r.1.outstanding) := by
  rw [sent_singleton hsent, hcalled, outstanding, outstanding, hputs, List.append_nil,
    List.nil_append]

theorem Keeps.account {e : Event Address Peer}
    {r : State Address Peer Tokenizer Message × List (Output Address Message)} (h : Keeps st r)
    (hsent : sentBy e = none) : Account st e r where
  outstanding := perm_of_puts hsent (called_quiet h.quiet) h.puts
  alive := fun c hc => by
    rw [hsent] at hc
    cases hc
  ends := fun address s ho => (h.quiet _ ho).elim
  endings := fun s hs => .inl (h.endings ▸ hs)
  sessions := fun s hs => .inl (h.sessions s hs)

/-- A session is disconnected. -/
theorem account_disconnect {e : Event Address Peer} {st' : State Address Peer Tokenizer Message}
    {address : Address} {s : Ptr} (hsent : sentBy e = none) (hend : s ∈ st.disconnects e)
    (hputs : st'.puts = st.puts) (hsessions : st'.sessions = st.sessions)
    (hendings : st'.endings = s :: st.endings) : Account st e (st', [.sessionEnd address s]) where
  outstanding := perm_of_puts hsent rfl hputs
  alive := fun c hc => by
    rw [hsent] at hc
    cases hc
  ends := by
    intro address' s' ho
    cases List.mem_singleton.mp ho
    exact hend
  endings := by
    intro s' hs'
    rw [hendings, List.mem_cons] at hs'
    rcases hs' with rfl | hs'
    · exact .inr hend
    · exact .inl hs'
  sessions := fun s' hs' => .inl (hsessions ▸ hs')

/-- A PUT request ends. -/
theorem account_putEnds {e : Event Address Peer} {i : Nat} {result : Int}
    {r : State Address Peer Tokenizer Message × List (Output Address Message)}
    (hsent : sentBy e = none) (h : st.putEnds i result = some r) : Account st e r := by
  obtain ⟨p, hp, hcase⟩ := putEnds_eq h
  obtain ⟨hi, hget⟩ := List.getElem?_eq_some_iff.mp hp
  have hperm : (p :: st.puts.eraseIdx i).Perm st.puts := hget ▸ List.getElem_cons_eraseIdx_perm hi
  have hfilter := (hperm.filterMap outstandingOf).symm
  rw [List.filterMap_cons] at hfilter
  have halive : ∀ c ∈ sentBy e, c.1 ∈ st.sessions := by
    rw [hsent]
    exact fun c hc => absurd hc (Option.not_mem_none c)
  rcases hcase with ⟨hc, rfl⟩ | ⟨hc, rfl⟩
  · rw [outstandingOf, if_pos hc] at hfilter
    refine ⟨?_, halive, fun _ _ ho => absurd ho List.not_mem_nil, fun s hs => .inl hs,
      fun s hs => .inl hs⟩
    rw [sent_singleton hsent, List.append_nil]
    exact hfilter
  · rw [outstandingOf, if_neg hc] at hfilter
    refine ⟨?_, halive, fun _ _ ho => ?_, fun s hs => .inl hs, fun s hs => .inl hs⟩
    · rw [sent_singleton hsent, List.append_nil]
      exact hfilter
    · cases List.mem_singleton.mp ho

theorem keeps_clientRescheduleSessionTimeout (env : Env Address Peer Sockaddr Tokenizer Message)
    (st : State Address Peer Tokenizer Message) (s : Ptr) (now : Nat) :
    Keeps st (st.clientRescheduleSessionTimeout env s now, []) := by
  unfold clientRescheduleSessionTimeout
  split
  · exact keeps_same rfl rfl rfl
  · exact keeps_same rfl rfl rfl

/-- A receive callback has returned. -/
theorem keeps_received {s : Ptr} {get : Nat} {left : List Message}
    {rest : List (Frame Peer Message)} (hstack : st.stack = .receive s get left :: rest)
    (delay now now' : Nat) :
    Keeps st (if ({ st with stack := rest }.clientReceiveMstCb env s delay now now').failed = none
      then
        ({ st with stack := rest }.clientReceiveMstCb env s delay now now').receiveNext s get left
      else ({ st with stack := rest }.clientReceiveMstCb env s delay now now', [])) := by
  have hcallback :
      Keeps st ({ st with stack := rest }.clientReceiveMstCb env s delay now now', []) := by
    have h := keeps_clientRescheduleSessionTimeout env
      ({ st with stack := rest }.setSession s (setNextReceive (st.heap s) delay now)) s now'
    refine ⟨h.sessions, h.endings.trans ?_, h.puts, h.quiet⟩
    rw [endings, endings, hstack]
    rfl
  split
  · have h := (keeps_receiveNext
      ({ st with stack := rest }.clientReceiveMstCb env s delay now now') s get left).1
    exact ⟨fun s' hs' => h.sessions s' (hcallback.sessions s' hs'),
      h.endings.trans hcallback.endings, h.puts.trans hcallback.puts, h.quiet⟩
  · exact hcallback

variable [DecidableEq Address] [DecidableEq Peer]

/-- **What every step does.** -/
theorem account_step {e : Event Address Peer}
    {r : State Address Peer Tokenizer Message × List (Output Address Message)}
    (hs : step env st e = some r) : Account st e r := by
  obtain ⟨hfailed, hmoves⟩ := step_cases hs
  cases hmoves with
  | getSession hg => exact (keeps_getSession env _ _ hg.2.2.1 hg.2.2.2 hfailed).1.account rfl
  | @send s msgbuf cont contCls hg =>
    refine ⟨?_, ?_, fun _ _ ho => ?_, fun s hs => .inl hs, fun s hs => .inl hs⟩
    · have houtstanding : (st.send s msgbuf cont contCls).1.outstanding =
          st.outstanding ++ sent [(.send s msgbuf cont contCls : Event Address Peer)] :=
        List.filterMap_append
      rw [houtstanding]
      exact .refl _
    · intro c hc
      rw [sentBy] at hc
      split at hc
      · cases hc
      · cases hc
        exact hg.2
    · cases List.mem_singleton.mp ho
  | disconnectSession _ => exact account_disconnect rfl rfl rfl rfl rfl
  | disconnectPeer _ => exact Keeps.account (keeps_same rfl rfl rfl) rfl
  | updateSessionTimeout _ => exact (keeps_clientRescheduleSessionTimeout env st _ _).account rfl
  | updateInboundDelay _ => exact Keeps.account (keeps_same rfl rfl rfl) rfl
  | destroySession hstack _ _ =>
    refine account_disconnect rfl rfl rfl rfl ?_
    rw [endings, endings, hstack]
    rfl
  | peerDisconnected hstack =>
    refine Keeps.account (keeps_same rfl ?_ rfl) rfl
    rw [endings, endings, hstack]
    rfl
  | @sessionEnded s rest hstack =>
    obtain ⟨hputs, hrest, hsessions⟩ := puts_clientDeleteSession { st with stack := rest } s
    have hendings : st.endings = s :: rest.filterMap Frame.ending := by
      rw [endings, hstack]
      rfl
    refine ⟨perm_of_puts rfl rfl hputs, fun _ hc => absurd hc (Option.not_mem_none _),
      fun _ _ ho => absurd ho List.not_mem_nil, fun s' hs' => .inl ?_, fun s' hs' => ?_⟩
    · rw [endings, hrest] at hs'
      rw [hendings]
      exact List.mem_cons_of_mem s hs'
    · by_cases hne : s' = s
      · rw [hendings, hne]
        exact .inr List.mem_cons_self
      · exact .inl (hsessions s' hs' hne)
  | received hstack => exact (keeps_received hstack _ _ _).account rfl
  | transmitted hstack =>
    refine Keeps.account (keeps_same rfl ?_ rfl) rfl
    rw [endings, endings, hstack]
    rfl
  | load _ _ _ => exact (keeps_onload env _ _ _ _ _).1.account rfl
  | error _ hx _ =>
    refine account_disconnect rfl ?_ rfl rfl rfl
    simp [disconnects, hx]
  | timeout _ _ _ => exact (keeps_resend _ _).1.account rfl
  | putLoad _ hp => exact account_putEnds rfl hp
  | putError _ hp => exact account_putEnds rfl hp
  | @run task now task' s hstack ht _ =>
    have hdisconnects : st.disconnects (.run task now task') =
        if getRemaining now (st.heap s).timeout = 0 then some s else none := by
      rw [disconnects, ht]
      rfl
    unfold clientSessionTimeout
    simp only [setSession, Function.update_self]
    split
    · exact Keeps.account (keeps_same rfl rfl rfl) rfl
    · rename_i hleft
      refine account_disconnect rfl ?_ rfl rfl rfl
      rw [hdisconnects, if_pos (not_not.mp hleft)]
      rfl

/-! ## Runs -/

/-- What was sent with a continuation has been called or is outstanding. -/
theorem sent_perm {heap : Ptr → Session Address Tokenizer} {es : List (Event Address Peer)}
    {os : List (Output Address Message)}
    (h : (system env heap).Run EventSystem.anyEvent es os st) :
    (sent es).Perm (called os ++ st.outstanding) := by
  induction h with
  | nil => exact .refl _
  | @snoc es os o st st' e _ _ hst ih =>
    have hstep := (account_step (r := (st', o)) hst).outstanding
    have hsent : sent (es ++ [e]) = sent es ++ sent [e] := List.filterMap_append
    have hcalled : called (os ++ o) = called os ++ called o := List.filterMap_append
    rw [hsent, hcalled, List.append_assoc]
    calc (sent es ++ sent [e]).Perm (called os ++ st.outstanding ++ sent [e]) := ih.append_right _
      _ = called os ++ (st.outstanding ++ sent [e]) := List.append_assoc _ _ _
      List.Perm _ (called os ++ (called o ++ st'.outstanding)) := hstep.append_left _

/-- What is outstanding is outstanding on a session that exists and is not being ended. -/
def Attended (st : State Address Peer Tokenizer Message) : Prop :=
  ∀ c ∈ st.outstanding, c.1 ∈ st.sessions ∧ c.1 ∉ st.endings

omit [DecidableEq Address] [DecidableEq Peer] in
theorem disconnects_eq_none {e : Event Address Peer} {c : Continuation} (h : c ∈ sentBy e) :
    st.disconnects e = none := by
  cases e with
  | send _ _ _ _ => rfl
  | _ => cases h

theorem attended_step {e : Event Address Peer}
    {r : State Address Peer Tokenizer Message × List (Output Address Message)} (h : st.Attended)
    (hok : st.Settled e) (hs : step env st e = some r) : r.1.Attended := by
  have ha := account_step hs
  intro c hc
  have hc' : c ∈ st.outstanding ++ sent [e] :=
    ha.outstanding.mem_iff.mpr (List.mem_append_right _ hc)
  -- before the step, or as soon as it was sent
  have hbefore : c.1 ∈ st.sessions ∧ c.1 ∉ st.endings ∧ ∀ s ∈ st.disconnects e, c.1 ≠ s := by
    rcases List.mem_append.mp hc' with hc' | hc'
    · exact ⟨(h c hc').1, (h c hc').2, fun s hs => hok.1 s hs c hc'⟩
    · obtain ⟨e', he', hsent⟩ := List.mem_filterMap.mp hc'
      rw [List.mem_singleton.mp he'] at hsent
      refine ⟨ha.alive c hsent, hok.2 c hsent, fun s hs => ?_⟩
      rw [disconnects_eq_none hsent] at hs
      cases hs
  obtain ⟨hsession, hending, hne⟩ := hbefore
  constructor
  · exact (ha.sessions _ hsession).resolve_right hending
  · exact fun hend => (ha.endings _ hend).elim hending fun hs => hne _ hs rfl

/-- Every continuation has been called when its session ends, unless one is outstanding. -/
theorem all_called_iff {heap : Ptr → Session Address Tokenizer} {es : List (Event Address Peer)}
    {os : List (Output Address Message)}
    (h : (system env heap).Run EventSystem.anyEvent es os st) (s : Ptr) :
    (∀ c : Continuation, c.1 = s → (called os).count c = (sent es).count c) ↔
      ∀ c ∈ st.outstanding, c.1 ≠ s := by
  have hcount : ∀ c, (sent es).count c = (called os).count c + st.outstanding.count c := by
    intro c
    rw [(sent_perm h).count_eq, List.count_append]
  constructor
  · intro hall c hc he
    have hpos := List.count_pos_iff.mpr hc
    have := hall c he
    have := hcount c
    omega
  · intro hnone c he
    have hzero : st.outstanding.count c = 0 := List.count_eq_zero.mpr fun hc => hnone c hc he
    rw [hcount, hzero, Nat.add_zero]

/-- **The contract of the continuations.**  As long as no session is disconnected with a
continuation outstanding, each continuation is called at most once, those of a session
have been called when `env->session_end` is called for it, and the session of the peer
pointer exists. -/
theorem continuations (env : Env Address Peer Sockaddr Tokenizer Message)
    (heap : Ptr → Session Address Tokenizer) {es : List (Event Address Peer)}
    {os : List (Output Address Message)} {st : State Address Peer Tokenizer Message}
    (h : (system env heap).Run Settled es os st) :
    (∀ c, (called os).count c ≤ (sent es).count c) ∧
    ∀ e r, st.Settled e → step env st e = some r →
      (∀ address s, .sessionEnd address s ∈ r.2 →
        ∀ c : Continuation, c.1 = s → (called os).count c = (sent es).count c) ∧
      ∀ c ∈ called r.2, c.1 ∈ st.sessions := by
  have hattended : st.Attended := by
    refine h.invariant (fun st e st' o hi hok hs => ?_) fun _ hc => nomatch hc
    exact attended_step (r := (st', o)) hi hok hs
  refine ⟨fun c => ?_, fun e r hok hs => ?_⟩
  · rw [(sent_perm h.toAny).count_eq, List.count_append]
    exact Nat.le_add_right _ _
  have ha := account_step hs
  refine ⟨fun address s ho => ?_, fun c hc => ?_⟩
  · exact (all_called_iff h.toAny s).mpr (hok.1 s (ha.ends address s ho))
  · rcases List.mem_append.mp (ha.outstanding.mem_iff.mpr (List.mem_append_left _ hc)) with hc | hc
    · exact (hattended c hc).1
    · obtain ⟨e', he', hsent⟩ := List.mem_filterMap.mp hc
      rw [List.mem_singleton.mp he'] at hsent
      exact ha.alive c hsent

/-- A message is sent and its continuation called before the session is disconnected. -/
theorem continuations_called_before_end :
    ∃ (os : List (Output (Nat × Nat) (List UInt8)))
      (st : State (Nat × Nat) Nat (List UInt8) (List UInt8)),
      (system Mst.env blank).Run Settled
        [.getSession (7, 80) 16 1 0, .send 16 [1, 2] 99 5, .putLoad 0, .transmitted] os st ∧
      called os = [(16, 99, 5)] ∧
      step Mst.env st (.disconnectSession 16) = some (st.sessionDisconnect 16) ∧
      ∀ c : Continuation, c.1 = 16 → (called os).count c = (sent
        [(.getSession (7, 80) 16 1 0 : Event (Nat × Nat) Nat), .send 16 [1, 2] 99 5, .putLoad 0,
          .transmitted]).count c := by
  have h : (system Mst.env blank).Run Settled [] [] _ := .nil
  have h₁ := h.snoc (show Settled _ (.getSession (7, 80) 16 1 0) from
    ⟨fun _ hs => (nomatch hs), fun _ _ hs => nomatch hs⟩) rfl
  have h₂ := h₁.snoc (show Settled _ (.send 16 [1, 2] 99 5) from
    ⟨fun _ hs => (nomatch hs), fun _ _ hs => nomatch hs⟩) rfl
  have h₃ := h₂.snoc (show Settled _ (.putLoad 0) from
    ⟨fun _ hs => (nomatch hs), fun _ _ hs => nomatch hs⟩) rfl
  have h₄ := h₃.snoc (show Settled _ .transmitted from
    ⟨fun _ hs => (nomatch hs), fun _ _ hs => nomatch hs⟩) rfl
  refine ⟨_, _, h₄, rfl, rfl, ?_⟩
  exact ((continuations Mst.env blank h₄).2 (.disconnectSession 16) _
    ⟨fun _ _ _ hc => (nomatch hc), fun _ hc => nomatch hc⟩ rfl).1 (7, 80) 16 List.mem_cons_self

/-- The session is disconnected while the message is on its way. -/
theorem continuation_after_session :
    ∃ (os : List (Output (Nat × Nat) (List UInt8)))
      (st : State (Nat × Nat) Nat (List UInt8) (List UInt8)),
      (system Mst.env blank).Run EventSystem.anyEvent
        [.getSession (7, 80) 16 1 0, .send 16 [1, 2] 99 5, .disconnectSession 16, .sessionEnded,
          .putLoad 0] os st ∧
      os.drop 3 = [.sessionEnd (7, 80) 16, .transmitCont 99 5 16 1 2 2] ∧ st.sessions = [] :=
  ⟨_, _, EventSystem.Steps.of_exec (fun _ _ => trivial) rfl, rfl, rfl⟩

end GnunetWeb.HttpClient.State
