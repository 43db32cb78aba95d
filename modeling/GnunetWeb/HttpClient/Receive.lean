import GnunetWeb.HttpClient.Session
import GnunetWeb.Library.EventSystem

/-!
# What a session receives

One session: the responses to its GET requests, the delays that `env->receive` returns,
and those that `update_inbound_delay` sets.  The handler `onload` runs to its end before
the next response comes.

Proved here:

* `tokenized_step`: the messages so far are those of the bytes that the tokenizer was
  given, in every run;
* `receives_all`: these are all bytes of all responses exactly in the runs in which no
  response with content comes before `next_receive`.
-/

namespace GnunetWeb.HttpClient

variable {Address Peer Sockaddr Tokenizer Message : Type}

/-- A session, and the messages of a response that are left; `env->receive` runs for the
first of them. -/
structure Inbound (Address Tokenizer Message : Type) where
  session : Session Address Tokenizer
  left : List Message

inductive InboundEvent where
  | response (response : List UInt8) (now : Nat)
  | received (delay now : Nat)
  | updateInboundDelay (delay now : Nat)

inductive InboundOutput (Message : Type) where
  | response (response : List UInt8)
  | passed (stream : List UInt8)
  | message (m : Message)

namespace Inbound

/-- `env->receive` is called for the first message. -/
def call (messages : List Message) : List (InboundOutput Message) :=
  (messages.take 1).map .message

def step (env : Env Address Peer Sockaddr Tokenizer Message)
    (st : Inbound Address Tokenizer Message) :
    InboundEvent → Option (Inbound Address Tokenizer Message × List (InboundOutput Message))
  | .response response now =>
    match st.left with
    | _ :: _ => none
    | [] =>
      match clientReceive env st.session now response with
      | none => some (st, [.response response])
      | some (s, messages) =>
        some (⟨s, messages⟩,
          .response response :: .passed response :: call messages)
  | .received delay now =>
    match st.left with
    | [] => none
    | _ :: rest =>
      some (⟨setNextReceive st.session delay now, rest⟩, call rest)
  | .updateInboundDelay delay now =>
    some ({ st with session := setNextReceive st.session delay now }, [])

/-- The session that `http_client_plugin_get_session` makes. -/
def fresh (address : Address) (url : String) (get : Nat) (task : Task) (timeout : Nat)
    (scope : NetworkType) : Inbound Address Tokenizer Message :=
  ⟨⟨some url, address, get, none, some task, 0, timeout, scope⟩, []⟩

def system (env : Env Address Peer Sockaddr Tokenizer Message)
    (init : Inbound Address Tokenizer Message) :
    EventSystem (Inbound Address Tokenizer Message) InboundEvent (InboundOutput Message) where
  init := init
  step := step env

/-! ## What the outputs say -/

/-- The bytes of the responses. -/
def responses (os : List (InboundOutput Message)) : List UInt8 :=
  os.flatMap fun
    | .response response => response
    | _ => []

/-- The bytes that the tokenizer was given. -/
def passed (os : List (InboundOutput Message)) : List UInt8 :=
  os.flatMap fun
    | .passed stream => stream
    | _ => []

/-- The messages for which `env->receive` was called. -/
def delivered (os : List (InboundOutput Message)) : List Message :=
  os.filterMap fun
    | .message m => some m
    | _ => none

section Histories

variable (os o : List (InboundOutput Message))

@[simp] theorem responses_append : responses (os ++ o) = responses os ++ responses o :=
  List.flatMap_append

@[simp] theorem passed_append : passed (os ++ o) = passed os ++ passed o :=
  List.flatMap_append

@[simp] theorem delivered_append : delivered (os ++ o) = delivered os ++ delivered o :=
  List.filterMap_append

@[simp] theorem responses_call (l : List Message) : responses (call l) = [] := by
  cases l <;> rfl

@[simp] theorem passed_call (l : List Message) : passed (call l) = [] := by
  cases l <;> rfl

@[simp] theorem delivered_call (l : List Message) : delivered (call l) = l.take 1 := by
  cases l <;> rfl

variable (r : List UInt8)

@[simp] theorem responses_response : responses (.response r :: o) = r ++ responses o := rfl

@[simp] theorem responses_passed : responses (.passed r :: o) = responses o := rfl

@[simp] theorem passed_response : passed (.response r :: o) = passed o := rfl

@[simp] theorem passed_passed : passed (.passed r :: o) = r ++ passed o := rfl

@[simp] theorem delivered_response : delivered (.response r :: o) = delivered o := rfl

@[simp] theorem delivered_passed : delivered (.passed r :: o) = delivered o := rfl

end Histories

@[simp] theorem responses_nil : responses ([] : List (InboundOutput Message)) = [] := rfl

@[simp] theorem passed_nil : passed ([] : List (InboundOutput Message)) = [] := rfl

@[simp] theorem delivered_nil : delivered ([] : List (InboundOutput Message)) = [] := rfl

/-- `GNUNET_MST_from_buffer` takes all bytes, and keeps the start of a message. -/
structure TakesAll (env : Env Address Peer Sockaddr Tokenizer Message) : Prop where
  nil : ∀ t, env.mstFromBuffer t [] = ([], t)
  append : ∀ t a b, env.mstFromBuffer t (a ++ b) =
    ((env.mstFromBuffer t a).1 ++ (env.mstFromBuffer (env.mstFromBuffer t a).2 b).1,
      (env.mstFromBuffer (env.mstFromBuffer t a).2 b).2)

/-- No response with content comes before `next_receive`. -/
def InTime (st : Inbound Address Tokenizer Message) : InboundEvent → Prop
  | .response response now => now < st.session.nextReceive → response = []
  | _ => True

variable {env : Env Address Peer Sockaddr Tokenizer Message}

/-- The messages are those of the bytes that the tokenizer was given. -/
structure Tokenized (env : Env Address Peer Sockaddr Tokenizer Message)
    (os : List (InboundOutput Message)) (st : Inbound Address Tokenizer Message) : Prop where
  messages : delivered os ++ st.left.tail = (env.mstFromBuffer env.mstCreate (passed os)).1
  tokenizer : st.session.msgTk.getD env.mstCreate =
    (env.mstFromBuffer env.mstCreate (passed os)).2

/-- **What a step does to the messages.** -/
theorem tokenized_step (h : TakesAll env) {os o : List (InboundOutput Message)}
    {st st' : Inbound Address Tokenizer Message} {e : InboundEvent} (ht : Tokenized env os st)
    (hs : step env st e = some (st', o)) : Tokenized env (os ++ o) st' := by
  obtain ⟨hmessages, htokenizer⟩ := ht
  cases e with
  | response response now =>
    cases hleft : st.left with
    | cons m rest => simp [step, hleft] at hs
    | nil =>
      simp only [step, hleft] at hs
      unfold clientReceive at hs
      by_cases hnow : now < st.session.nextReceive
      · rw [if_pos hnow] at hs
        cases hs
        exact ⟨by simpa [hleft] using hmessages, by simpa using htokenizer⟩
      · rw [if_neg hnow] at hs
        cases hs
        rw [hleft, List.tail_nil, List.append_nil] at hmessages
        constructor
        · simp only [delivered_append, delivered_response, delivered_passed, delivered_call,
            passed_append, passed_response, passed_passed, passed_call, List.append_nil,
            h.append, ← hmessages, ← htokenizer, List.append_assoc, ← List.drop_one,
            List.take_append_drop]
        · simp only [Option.getD_some, passed_append, passed_response, passed_passed,
            passed_call, List.append_nil, h.append, ← htokenizer]
  | received delay now =>
    cases hleft : st.left with
    | nil => simp [step, hleft] at hs
    | cons m rest =>
      simp only [step, hleft] at hs
      cases hs
      rw [hleft, List.tail_cons] at hmessages
      constructor
      · simp only [delivered_append, delivered_call, passed_append, passed_call,
          List.append_nil, ← hmessages, List.append_assoc, ← List.drop_one, List.take_append_drop]
      · simpa [setNextReceive] using htokenizer
  | updateInboundDelay delay now =>
    cases hs
    exact ⟨by simpa using hmessages, by simpa [setNextReceive] using htokenizer⟩

/-- What a step passes to the tokenizer. -/
theorem passed_step {st st' : Inbound Address Tokenizer Message} {e : InboundEvent}
    {o : List (InboundOutput Message)} (hs : step env st e = some (st', o)) :
    (passed o).length ≤ (responses o).length ∧ (passed o = responses o ↔ InTime st e) := by
  cases e with
  | response response now =>
    cases hleft : st.left with
    | cons m rest => simp [step, hleft] at hs
    | nil =>
      simp only [step, hleft] at hs
      unfold clientReceive at hs
      by_cases hnow : now < st.session.nextReceive
      · rw [if_pos hnow] at hs
        cases hs
        simp [InTime, hnow, eq_comm]
      · rw [if_neg hnow] at hs
        cases hs
        simp [InTime, hnow]
  | received delay now =>
    cases hleft : st.left with
    | nil => simp [step, hleft] at hs
    | cons m rest =>
      simp only [step, hleft] at hs
      cases hs
      simp [InTime]
  | updateInboundDelay delay now =>
    cases hs
    simp [InTime]

/-- **Nothing is lost in time, and what comes too early is lost.** -/
theorem passed_steps {init st : Inbound Address Tokenizer Message} {es : List InboundEvent}
    {os : List (InboundOutput Message)} (h : (system env init).Run EventSystem.anyEvent es os st) :
    (passed os).length ≤ (responses os).length ∧
      (passed os = responses os ↔ (system env init).Run InTime es os st) := by
  induction h with
  | nil => exact ⟨Nat.le_refl _, iff_of_true rfl .nil⟩
  | @snoc es os o st st' e hsteps _ hst ih =>
    obtain ⟨hle, hiff⟩ := ih
    obtain ⟨hle', hiff'⟩ := passed_step hst
    rw [passed_append, responses_append]
    refine ⟨by simp only [List.length_append]; omega, fun heq => ?_, fun hrun => ?_⟩
    · have hlength : (passed os).length = (responses os).length := by
        have := congrArg List.length heq
        simp only [List.length_append] at this
        omega
      obtain ⟨hos, ho⟩ := List.append_inj heq hlength
      exact .snoc (hiff.mp hos) (hiff'.mp ho) hst
    · obtain ⟨os', o', t, hrun, hok, hst', hos⟩ := hrun.of_snoc
      obtain ⟨rfl, rfl⟩ := hsteps.unique hrun
      cases hst.symm.trans hst'
      rw [hiff.mpr hrun, hiff'.mpr hok]

/-- **When no byte is lost.**  The bytes of the responses are those that the tokenizer was
given, once and in order, and the messages are those of the responses, exactly in the runs
in which no response with content comes before `next_receive`. -/
theorem receives_all (henv : TakesAll env) {address : Address} {url : String} {get : Nat}
    {task : Task} {timeout : Nat} {scope : NetworkType} {es : List InboundEvent}
    {os : List (InboundOutput Message)} {st : Inbound Address Tokenizer Message}
    (h : (system env (fresh address url get task timeout scope)).Run EventSystem.anyEvent es os
      st) :
    (passed os = responses os ∧
      delivered os ++ st.left.tail = (env.mstFromBuffer env.mstCreate (responses os)).1) ↔
    (system env (fresh address url get task timeout scope)).Run InTime es os st := by
  have hfresh : Tokenized env [] (fresh address url get task timeout scope) :=
    ⟨by simp [fresh, henv.nil], by simp [fresh, henv.nil]⟩
  have htokenized : Tokenized env os st :=
    h.history (fun _ _ _ _ _ ht _ hst => tokenized_step henv ht hst) hfresh
  obtain ⟨_, hiff⟩ := passed_steps h
  refine ⟨fun hp => hiff.mp hp.1, fun hrun => ?_⟩
  have hp := hiff.mpr hrun
  exact ⟨hp, hp ▸ htokenized.messages⟩

end Inbound

/-! ## A tokenizer -/

namespace Mst

/-- One more byte: a message is complete when it is as long as its first two bytes say. -/
def push (t : List UInt8) (b : UInt8) : List (List UInt8) × List UInt8 :=
  match t ++ [b] with
  | x :: y :: rest =>
    if 4 ≤ rest.length + 2 ∧ rest.length + 2 = 256 * x.toNat + y.toNat
    then ([x :: y :: rest], []) else ([], x :: y :: rest)
  | t => ([], t)

def fromBuffer (t : List UInt8) : List UInt8 → List (List UInt8) × List UInt8
  | [] => ([], t)
  | b :: bs =>
    let r := push t b
    let q := fromBuffer r.2 bs
    (r.1 ++ q.1, q.2)

theorem fromBuffer_append (t a b : List UInt8) : fromBuffer t (a ++ b) =
    ((fromBuffer t a).1 ++ (fromBuffer (fromBuffer t a).2 b).1,
      (fromBuffer (fromBuffer t a).2 b).2) := by
  induction a generalizing t with
  | nil => simp [fromBuffer]
  | cons x a ih => simp [fromBuffer, ih]

/-- Addresses are a peer and a port, of a host that is known by its name. -/
def env : Env (Nat × Nat) Nat Unit (List UInt8) (List UInt8) where
  peer := Prod.fst
  hasAddress := fun _ => true
  socketFromAddress := fun _ => .no
  getAddressType := fun _ => .lan
  addressToString := fun a => some (toString a.2)
  addressToUrl := fun a => toString a.2
  myIdentity := "self"
  maxConnections := 128
  sessionTimeout := 300000000
  idleTimeout := 300000000
  mstCreate := []
  mstFromBuffer := fromBuffer

theorem env_takesAll : Inbound.TakesAll env := ⟨fun _ => rfl, fromBuffer_append⟩

end Mst

namespace Inbound

/-- Two responses with two messages, the third one when the delay is over. -/
theorem receives_all_in_time :
    ∃ (os : List (InboundOutput (List UInt8))) (st : Inbound (Nat × Nat) (List UInt8) (List UInt8)),
      (system Mst.env (fresh (7, 80) "80/self;1" 1 1 0 .wan)).Run EventSystem.anyEvent
        [.response [0, 4, 0] 0, .response [1, 0, 4, 0, 2] 10, .received 100 20, .received 5 30,
          .response [0] 50] os st ∧
      passed os = [0, 4, 0, 1, 0, 4, 0, 2, 0] ∧ delivered os = [[0, 4, 0, 1], [0, 4, 0, 2]] := by
  have hrun : (system Mst.env (fresh (7, 80) "80/self;1" 1 1 0 .wan)).Run InTime [] [] _ := .nil
  have h₁ := hrun.snoc
    (show InTime _ (.response [0, 4, 0] 0) from fun h => absurd h (by decide)) rfl
  have h₂ := h₁.snoc 
    (show InTime _ (.response [1, 0, 4, 0, 2] 10) from fun h => absurd h (by decide)) rfl
  have h₃ := h₂.snoc (show InTime _ (.received 100 20) from trivial) rfl
  have h₄ := h₃.snoc (show InTime _ (.received 5 30) from trivial) rfl
  have h₅ := h₄.snoc (show InTime _ (.response [0] 50) from fun h => absurd h (by decide)) rfl
  have hany := h₅.toAny
  obtain ⟨hpassed, hdelivered⟩ := (receives_all Mst.env_takesAll hany).mpr h₅
  exact ⟨_, _, hany, hpassed.trans rfl, (List.append_nil _).symm.trans (hdelivered.trans rfl)⟩

/-- A response before the end of the delay is lost. -/
theorem early_response_lost :
    ∃ (os : List (InboundOutput (List UInt8))) (st : Inbound (Nat × Nat) (List UInt8) (List UInt8)),
      (system Mst.env (fresh (7, 80) "80/self;1" 1 1 0 .wan)).Run EventSystem.anyEvent
        [.response [0, 4, 0, 1] 0, .received 100 10, .response [0, 4, 0, 2] 50] os st ∧
      responses os = [0, 4, 0, 1, 0, 4, 0, 2] ∧ passed os = [0, 4, 0, 1] := by
  refine ⟨_, _, EventSystem.Steps.of_exec (fun _ _ => trivial) rfl, by decide, by decide⟩

end Inbound

end GnunetWeb.HttpClient
