import GnunetWeb.HttpClient.Plugin
import Mathlib.Data.List.Nodup

/-!
# The table of sessions

What holds between the sessions of the plugin, their GET requests, their timeout tasks
and the callbacks that run, as long as no receive callback disconnects the session that
it is called for.

Proved here:

* `step_cases`: what an event can do;
* `Inv.delete`, `Inv.add`, `Inv.retask`: what the end of a session, a new session and a
  timeout task keep;
* `inv_step`, `inv_run`: every event keeps the invariant `Inv`.
-/

namespace GnunetWeb.HttpClient

variable {Address Peer Sockaddr Tokenizer Message : Type}

namespace State

/-! ## What an event does -/

section Moves

variable [DecidableEq Address] [DecidableEq Peer]

/-- The events that can happen, and what they lead to. -/
inductive Moves (env : Env Address Peer Sockaddr Tokenizer Message)
    (st : State Address Peer Tokenizer Message) : Event Address Peer →
      State Address Peer Tokenizer Message × List (Output Address Message) → Prop
  | getSession {address : Address} {s : Ptr} {task : Task} {now : Nat} :
      st.Callable ∧ s ≠ 0 ∧ s ∉ st.sessions ∧ st.FreshTask task →
        Moves env st (.getSession address s task now) (st.getSession env address s task now)
  | send {s : Ptr} {msgbuf : List UInt8} {cont contCls : Ptr} : st.Callable ∧ s ∈ st.sessions →
      Moves env st (.send s msgbuf cont contCls) (st.send s msgbuf cont contCls)
  | disconnectSession {s : Ptr} : st.Callable ∧ s ∈ st.sessions →
      Moves env st (.disconnectSession s) (st.sessionDisconnect s)
  | disconnectPeer {target : Peer} : st.Callable →
      Moves env st (.disconnectPeer target)
        (st.push (.peerDisconnect target (st.sessionsOf env target)), [])
  | updateSessionTimeout {s : Ptr} {now : Nat} : st.Callable ∧ s ∈ st.sessions →
      Moves env st (.updateSessionTimeout s now) (st.clientRescheduleSessionTimeout env s now, [])
  | updateInboundDelay {s : Ptr} {delay now : Nat} : st.Callable ∧ s ∈ st.sessions →
      Moves env st (.updateInboundDelay s delay now)
        (st.setSession s (setNextReceive (st.heap s) delay now), [])
  | destroySession {s : Ptr} {target : Peer} {left : List Ptr} {rest : List (Frame Peer Message)} :
      st.stack = .peerDisconnect target left :: rest → s ∈ left → s ∈ st.sessionsOf env target →
        Moves env st (.destroySession s)
          ({ st with stack := .peerDisconnect target (left.erase s) :: rest }.sessionDisconnect s)
  | peerDisconnected {target : Peer} {left : List Ptr} {rest : List (Frame Peer Message)} :
      st.stack = .peerDisconnect target left :: rest →
        Moves env st .peerDisconnected ({ st with stack := rest }, [])
  | sessionEnded {s : Ptr} {rest : List (Frame Peer Message)} :
      st.stack = .sessionEnd s :: rest →
        Moves env st .sessionEnded ({ st with stack := rest }.clientDeleteSession s, [])
  | received {s : Ptr} {get : Nat} {left : List Message} {rest : List (Frame Peer Message)}
      {delay now now' : Nat} : st.stack = .receive s get left :: rest →
        Moves env st (.received delay now now')
          (if ({ st with stack := rest }.clientReceiveMstCb env s delay now now').failed = none then
            ({ st with stack := rest }.clientReceiveMstCb env s delay now now').receiveNext s get
              left
          else ({ st with stack := rest }.clientReceiveMstCb env s delay now now', []))
  | transmitted {rest : List (Frame Peer Message)} : st.stack = .transmitCont :: rest →
      Moves env st .transmitted ({ st with stack := rest }, [])
  | load {get : Nat} {response : List UInt8} {now : Nat} {x : Xhr} : st.stack = [] →
      st.xhrs get = some x → x.isOpen →
        Moves env st (.load get response now) (st.onload env get x response now)
  | error {get : Nat} {x : Xhr} : st.stack = [] → st.xhrs get = some x → x.isOpen →
      Moves env st (.error get) ((st.setXhr get { x with isOpen := false }).sessionDisconnect x.s)
  | timeout {get : Nat} {x : Xhr} : st.stack = [] → st.xhrs get = some x → x.isOpen →
      Moves env st (.timeout get) (st.resend get)
  | putLoad {i : Nat} {r : State Address Peer Tokenizer Message × List (Output Address Message)} :
      st.stack = [] → st.putEnds i 1 = some r → Moves env st (.putLoad i) r
  | putError {i : Nat} {r : State Address Peer Tokenizer Message × List (Output Address Message)} :
      st.stack = [] → st.putEnds i (-1) = some r → Moves env st (.putError i) r
  | run {task : Task} {now : Nat} {task' : Task} {s : Ptr} : st.stack = [] →
      st.tasks.find? (fun t => t.1 = task) = some (task, s) →
        FreshTask { st with tasks := st.tasks.filter fun t => t.1 ≠ task } task' →
          Moves env st (.run task now task')
            (clientSessionTimeout { st with tasks := st.tasks.filter fun t => t.1 ≠ task } s now
              task')

theorem guarded {α : Type} {c : Prop} [Decidable c] {a r : α}
    (h : (if c then some a else none) = some r) : c ∧ a = r := by
  split at h
  · exact ⟨‹c›, Option.some.inj h⟩
  · cases h

omit [DecidableEq Address] [DecidableEq Peer] in
/-- A request that is open. -/
theorem opened {st : State Address Peer Tokenizer Message} {get : Nat}
    {f : Xhr → State Address Peer Tokenizer Message × List (Output Address Message)}
    {r : State Address Peer Tokenizer Message × List (Output Address Message)}
    (h : (match st.stack, st.xhrs get with
      | [], some x => if x.isOpen then some (f x) else none
      | _, _ => none) = some r) :
    ∃ x, st.stack = [] ∧ st.xhrs get = some x ∧ x.isOpen ∧ f x = r := by
  split at h
  · rename_i x hstack hx
    obtain ⟨ho, hf⟩ := guarded h
    exact ⟨x, hstack, hx, ho, hf⟩
  · cases h

/-- Where an event comes from: the transport service calls, a callback of it goes on, or
the browser or the scheduler calls. -/
inductive Origin where
  | call
  | callback
  | loop

def origin : Event Address Peer → Origin
  | .getSession _ _ _ _ | .send _ _ _ _ | .disconnectSession _ | .disconnectPeer _
  | .updateSessionTimeout _ _ | .updateInboundDelay _ _ _ => .call
  | .destroySession _ | .peerDisconnected | .sessionEnded | .received _ _ _
  | .transmitted => .callback
  | .load _ _ _ | .error _ | .timeout _ | .putLoad _ | .putError _ | .run _ _ _ => .loop

section Cases

variable {env : Env Address Peer Sockaddr Tokenizer Message}
  {st : State Address Peer Tokenizer Message} {e : Event Address Peer}
  {r : State Address Peer Tokenizer Message × List (Output Address Message)}

theorem not_failed (h : step env st e = some r) : st.failed = none := by
  unfold step at h
  split at h
  · cases h
  · exact not_not.mp ‹_›

theorem moves_of_call (ho : origin e = .call) (h : step env st e = some r) : Moves env st e r := by
  rw [step.eq_def, if_neg (not_not.mpr (not_failed h))] at h
  cases e with
  | getSession address s task now =>
    obtain ⟨hg, rfl⟩ := guarded h
    exact .getSession hg
  | send s msgbuf cont contCls =>
    obtain ⟨hg, rfl⟩ := guarded h
    exact .send hg
  | disconnectSession s =>
    obtain ⟨hg, rfl⟩ := guarded h
    exact .disconnectSession hg
  | disconnectPeer target =>
    obtain ⟨hg, rfl⟩ := guarded h
    exact .disconnectPeer hg
  | updateSessionTimeout s now =>
    obtain ⟨hg, rfl⟩ := guarded h
    exact .updateSessionTimeout hg
  | updateInboundDelay s delay now =>
    obtain ⟨hg, rfl⟩ := guarded h
    exact .updateInboundDelay hg
  | _ => cases ho

theorem moves_of_callback (ho : origin e = .callback) (h : step env st e = some r) :
    Moves env st e r := by
  rw [step.eq_def, if_neg (not_not.mpr (not_failed h))] at h
  cases e with
  | destroySession s =>
    simp only at h
    split at h
    · rename_i target left rest hstack
      obtain ⟨hg, rfl⟩ := guarded h
      exact .destroySession hstack hg.1 hg.2
    · cases h
  | peerDisconnected =>
    simp only at h
    split at h
    · rename_i target left rest hstack
      obtain ⟨hg, rfl⟩ := guarded h
      exact .peerDisconnected hstack
    · cases h
  | sessionEnded =>
    simp only at h
    split at h
    · rename_i s rest hstack
      cases h
      exact .sessionEnded hstack
    · cases h
  | received delay now now' =>
    simp only at h
    split at h
    · rename_i s get left rest hstack
      obtain rfl := Option.some.inj h
      exact .received hstack
    · cases h
  | transmitted =>
    simp only at h
    split at h
    · rename_i rest hstack
      cases h
      exact .transmitted hstack
    · cases h
  | _ => cases ho

theorem moves_of_loop (ho : origin e = .loop) (h : step env st e = some r) : Moves env st e r := by
  rw [step.eq_def, if_neg (not_not.mpr (not_failed h))] at h
  cases e with
  | load get response now =>
    obtain ⟨x, hstack, hx, ho, rfl⟩ := opened h
    exact .load hstack hx ho
  | error get =>
    obtain ⟨x, hstack, hx, ho, rfl⟩ := opened h
    exact .error hstack hx ho
  | timeout get =>
    obtain ⟨x, hstack, hx, ho, rfl⟩ := opened h
    exact .timeout hstack hx ho
  | putLoad i =>
    simp only at h
    split at h
    · exact .putLoad (List.isEmpty_iff.mp ‹_›) h
    · cases h
  | putError i =>
    simp only at h
    split at h
    · exact .putError (List.isEmpty_iff.mp ‹_›) h
    · cases h
  | run task now task' =>
    simp only at h
    split at h
    · rename_i t hstack ht
      obtain ⟨hg, rfl⟩ := guarded h
      have htask : t.1 = task := by simpa using List.find?_some ht
      subst htask
      exact .run hstack ht hg
    · cases h
  | _ => cases ho

/-- **Every step is one of the moves.** -/
theorem step_cases (h : step env st e = some r) : st.failed = none ∧ Moves env st e r := by
  refine ⟨not_failed h, ?_⟩
  cases ho : origin e with
  | call => exact moves_of_call ho h
  | callback => exact moves_of_callback ho h
  | loop => exact moves_of_loop ho h

end Cases

end Moves

/-- How a PUT request ends. -/
theorem putEnds_eq {st : State Address Peer Tokenizer Message} {i : Nat} {result : Int}
    {r : State Address Peer Tokenizer Message × List (Output Address Message)}
    (h : st.putEnds i result = some r) : ∃ p, st.puts[i]? = some p ∧
      (p.cont = 0 ∧ r = ({ st with puts := st.puts.eraseIdx i }, []) ∨
        p.cont ≠ 0 ∧ r = ({ st with puts := st.puts.eraseIdx i }.push .transmitCont,
          [.transmitCont p.cont p.contCls p.s result p.data.length p.data.length])) := by
  obtain ⟨p, hp, rfl⟩ := Option.map_eq_some_iff.mp h
  refine ⟨p, hp, ?_⟩
  by_cases hc : p.cont = 0
  · exact .inl ⟨hc, by simp [hc]⟩
  · exact .inr ⟨hc, by simp [hc]⟩

/-! ## The invariant -/

/-- No receive callback disconnects the session that it is called for. -/
def KeepsReceiving (st : State Address Peer Tokenizer Message) (e : Event Address Peer) : Prop :=
  ∀ s get left, .receive s get left ∈ st.stack →
    e ≠ .disconnectSession s ∧ e ≠ .destroySession s

/-- The sessions, requests, tasks and frames fit together. -/
structure Inv (env : Env Address Peer Sockaddr Tokenizer Message)
    (st : State Address Peer Tokenizer Message) : Prop where
  nodup : st.sessions.Nodup
  connected : ∀ s ∈ st.sessions, ∃ x, st.xhrs (st.heap s).get = some x ∧ x.s = s
  handles : ∀ get x, st.xhrs get = some x → 0 < get ∧ get < st.nextXhr
  nextXhr : 0 < st.nextXhr
  belongs : ∀ get x, st.xhrs get = some x → x.isOpen →
    x.s ∈ st.sessions ∧ (st.heap x.s).get = get
  count : st.curConnections = st.sessions.length
  bound : st.curConnections ≤ env.maxConnections
  addresses : ∀ s ∈ st.sessions, ∀ s' ∈ st.sessions,
    (st.heap s).address = (st.heap s').address → s = s'
  urls : ∀ s ∈ st.sessions, (st.heap s).url ≠ none
  pending : ∀ t ∈ st.tasks, t.2 ∈ st.sessions ∧ (st.heap t.2).timeoutTask = some t.1
  tasksNodup : (st.tasks.map Prod.fst).Nodup
  armed : ∀ s ∈ st.sessions, ∀ task, (st.heap s).timeoutTask = some task → (task, s) ∈ st.tasks
  idle : ∀ s ∈ st.sessions, (st.heap s).timeoutTask = none → .sessionEnd s ∈ st.stack
  ended : ∀ s, .sessionEnd s ∈ st.stack → s ∉ st.sessions → (st.heap s).timeoutTask = none
  receiving : ∀ s get left, .receive s get left ∈ st.stack →
    s ∈ st.sessions ∧ (st.heap s).get = get ∧ .sessionEnd s ∉ st.stack

variable {env : Env Address Peer Sockaddr Tokenizer Message}
  {st : State Address Peer Tokenizer Message}

/-! ## Changes that the invariant does not see -/

/-- The states differ only in what the invariant does not look at. -/
structure Alike (st st' : State Address Peer Tokenizer Message) : Prop where
  sessions : st'.sessions = st.sessions
  curConnections : st'.curConnections = st.curConnections
  nextXhr : st'.nextXhr = st.nextXhr
  xhrs : st'.xhrs = st.xhrs
  tasks : st'.tasks = st.tasks
  stack : st'.stack = st.stack
  get : ∀ s, (st'.heap s).get = (st.heap s).get
  address : ∀ s, (st'.heap s).address = (st.heap s).address
  url : ∀ s, (st'.heap s).url = (st.heap s).url
  timeoutTask : ∀ s, (st'.heap s).timeoutTask = (st.heap s).timeoutTask

theorem Alike.trans {st' st'' : State Address Peer Tokenizer Message} (h : Alike st st')
    (h' : Alike st' st'') : Alike st st'' where
  sessions := h'.sessions.trans h.sessions
  curConnections := h'.curConnections.trans h.curConnections
  nextXhr := h'.nextXhr.trans h.nextXhr
  xhrs := h'.xhrs.trans h.xhrs
  tasks := h'.tasks.trans h.tasks
  stack := h'.stack.trans h.stack
  get := fun s => (h'.get s).trans (h.get s)
  address := fun s => (h'.address s).trans (h.address s)
  url := fun s => (h'.url s).trans (h.url s)
  timeoutTask := fun s => (h'.timeoutTask s).trans (h.timeoutTask s)

theorem Inv.alike {st' : State Address Peer Tokenizer Message} (h : Inv env st)
    (ha : Alike st st') : Inv env st' where
  nodup := by simpa only [ha.sessions] using h.nodup
  connected := by simpa only [ha.sessions, ha.xhrs, ha.get] using h.connected
  handles := by simpa only [ha.xhrs, ha.nextXhr] using h.handles
  nextXhr := by simpa only [ha.nextXhr] using h.nextXhr
  belongs := by simpa only [ha.xhrs, ha.sessions, ha.get] using h.belongs
  count := by simpa only [ha.curConnections, ha.sessions] using h.count
  bound := by simpa only [ha.curConnections] using h.bound
  addresses := by simpa only [ha.sessions, ha.address] using h.addresses
  urls := by simpa only [ha.sessions, ha.url] using h.urls
  pending := by simpa only [ha.tasks, ha.sessions, ha.timeoutTask] using h.pending
  tasksNodup := by simpa only [ha.tasks] using h.tasksNodup
  armed := by simpa only [ha.sessions, ha.tasks, ha.timeoutTask] using h.armed
  idle := by simpa only [ha.sessions, ha.stack, ha.timeoutTask] using h.idle
  ended := by simpa only [ha.sessions, ha.stack, ha.timeoutTask] using h.ended
  receiving := by simpa only [ha.sessions, ha.stack, ha.get] using h.receiving

theorem alike_fail (st : State Address Peer Tokenizer Message) (a : Assertion) :
    Alike st (st.fail a) :=
  ⟨rfl, rfl, rfl, rfl, rfl, rfl, fun _ => rfl, fun _ => rfl, fun _ => rfl, fun _ => rfl⟩

theorem alike_setSession (st : State Address Peer Tokenizer Message) {s : Ptr}
    {x : Session Address Tokenizer} (hget : x.get = (st.heap s).get)
    (haddress : x.address = (st.heap s).address) (hurl : x.url = (st.heap s).url)
    (htask : x.timeoutTask = (st.heap s).timeoutTask) : Alike st (st.setSession s x) := by
  refine ⟨rfl, rfl, rfl, rfl, rfl, rfl, fun s' => ?_, fun s' => ?_, fun s' => ?_, fun s' => ?_⟩ <;>
  · by_cases hs : s' = s
    · subst hs
      simpa [setSession] using ‹_›
    · simp [setSession, hs]

theorem alike_clientRescheduleSessionTimeout
    (env : Env Address Peer Sockaddr Tokenizer Message)
    (st : State Address Peer Tokenizer Message) (s : Ptr) (now : Nat) :
    Alike st (st.clientRescheduleSessionTimeout env s now) := by
  unfold clientRescheduleSessionTimeout
  split
  · exact alike_fail st _
  · exact alike_setSession st rfl rfl rfl rfl

theorem alike_clientReceive {s : Ptr} {now : Nat} {stream : List UInt8}
    {session : Session Address Tokenizer} {messages : List Message}
    (h : clientReceive env (st.heap s) now stream = some (session, messages)) :
    Alike st (st.setSession s session) := by
  unfold clientReceive at h
  split at h
  · cases h
  · cases h
    exact alike_setSession st rfl rfl rfl rfl

theorem alike_clientReceiveMstCb (env : Env Address Peer Sockaddr Tokenizer Message)
    (st : State Address Peer Tokenizer Message) (s : Ptr) (delay now now' : Nat) :
    Alike st (st.clientReceiveMstCb env s delay now now') :=
  (alike_setSession (x := setNextReceive (st.heap s) delay now) st rfl rfl rfl rfl).trans
    (alike_clientRescheduleSessionTimeout env _ s now')

/-! ## Requests and frames -/

/-- A request is opened for its session, or closed. -/
theorem Inv.setXhr (h : Inv env st) {get : Nat} {x x' : Xhr} (hx : st.xhrs get = some x)
    (hs : x'.s = x.s)
    (hopen : x'.isOpen → x.s ∈ st.sessions ∧ (st.heap x.s).get = get) :
    Inv env (st.setXhr get x') where
  nodup := h.nodup
  connected := by
    intro s hmem
    obtain ⟨y, hy, hys⟩ := h.connected s hmem
    by_cases hget : (st.heap s).get = get
    · refine ⟨x', by simp [State.setXhr, hget], ?_⟩
      rw [hget, hx] at hy
      cases hy
      exact hs.trans hys
    · exact ⟨y, by simpa [State.setXhr, hget] using hy, hys⟩
  handles := by
    intro get' y hy
    by_cases hget : get' = get
    · subst hget
      exact h.handles get' x hx
    · exact h.handles get' y (by simpa [State.setXhr, hget] using hy)
  nextXhr := h.nextXhr
  belongs := by
    intro get' y hy ho
    by_cases hget : get' = get
    · subst hget
      obtain rfl : x' = y := by simpa [State.setXhr] using hy
      rw [hs]
      exact hopen ho
    · exact h.belongs get' y (by simpa [State.setXhr, hget] using hy) ho
  count := h.count
  bound := h.bound
  addresses := h.addresses
  urls := h.urls
  pending := h.pending
  tasksNodup := h.tasksNodup
  armed := h.armed
  idle := h.idle
  ended := h.ended
  receiving := h.receiving

theorem Inv.resend (h : Inv env st) {s : Ptr} {get : Nat} (hs : s ∈ st.sessions)
    (hget : (st.heap s).get = get) : Inv env (st.resend get).1 := by
  subst hget
  obtain ⟨x, hx, rfl⟩ := h.connected s hs
  rw [State.resend, hx]
  exact h.setXhr hx rfl fun _ => ⟨hs, rfl⟩

/-- The frames change. -/
theorem Inv.frames (h : Inv env st) {stack : List (Frame Peer Message)}
    (hkeep : ∀ s ∈ st.sessions, .sessionEnd s ∈ st.stack → .sessionEnd s ∈ stack)
    (hnew : ∀ s, .sessionEnd s ∈ stack → .sessionEnd s ∈ st.stack ∨ s ∈ st.sessions)
    (hreceive : ∀ s get left, .receive s get left ∈ stack →
      s ∈ st.sessions ∧ (st.heap s).get = get ∧ .sessionEnd s ∉ stack) :
    Inv env { st with stack := stack } where
  nodup := h.nodup
  connected := h.connected
  handles := h.handles
  nextXhr := h.nextXhr
  belongs := h.belongs
  count := h.count
  bound := h.bound
  addresses := h.addresses
  urls := h.urls
  pending := h.pending
  tasksNodup := h.tasksNodup
  armed := h.armed
  idle := fun s hs ht => hkeep s hs (h.idle s hs ht)
  ended := fun s hf hs => (hnew s hf).elim (fun hf => h.ended s hf hs) fun hs' => absurd hs' hs
  receiving := hreceive

/-- A frame that is no `sessionEnd` goes away. -/
theorem Inv.pop (h : Inv env st) {f : Frame Peer Message} {rest : List (Frame Peer Message)}
    (hstack : st.stack = f :: rest) (hf : ∀ s, f ≠ .sessionEnd s) :
    Inv env { st with stack := rest } := by
  have hmem : ∀ s, .sessionEnd s ∈ st.stack ↔ .sessionEnd s ∈ rest := by
    intro s
    rw [hstack, List.mem_cons]
    exact or_iff_right fun he => hf s he.symm
  refine h.frames (fun s _ => (hmem s).mp) (fun s hs => .inl ((hmem s).mpr hs)) ?_
  intro s get left hr
  rw [← hmem]
  exact h.receiving s get left (hstack ▸ List.mem_cons_of_mem f hr)

/-- A frame is added. -/
theorem Inv.push (h : Inv env st) {f : Frame Peer Message}
    (hend : ∀ s, f = .sessionEnd s → s ∈ st.sessions ∧
      ∀ get left, .receive s get left ∉ st.stack)
    (hreceive : ∀ s get left, f = .receive s get left →
      s ∈ st.sessions ∧ (st.heap s).get = get ∧ .sessionEnd s ∉ st.stack) :
    Inv env (st.push f) := by
  refine h.frames (fun s _ => List.mem_cons_of_mem f) (fun s hs => ?_) fun s get left hr => ?_
  · rcases List.mem_cons.mp hs with he | hs
    · exact .inr (hend s he.symm).1
    · exact .inl hs
  · rcases List.mem_cons.mp hr with he | hr
    · obtain ⟨hs, hget, hnot⟩ := hreceive s get left he.symm
      refine ⟨hs, hget, ?_⟩
      rw [List.mem_cons, not_or]
      exact ⟨fun hf => by simp [← he] at hf, hnot⟩
    · obtain ⟨hs, hget, hnot⟩ := h.receiving s get left hr
      refine ⟨hs, hget, ?_⟩
      rw [List.mem_cons, not_or]
      exact ⟨fun hf => (hend s hf.symm).2 get left hr, hnot⟩

/-! ## The end of a session -/

/-- What `client_delete_session` does to a session of the table. -/
structure Deleted (st st' : State Address Peer Tokenizer Message) (s : Ptr) : Prop where
  sessions : st'.sessions = st.sessions.erase s
  curConnections : st'.curConnections = st.curConnections - 1
  nextXhr : st'.nextXhr = st.nextXhr
  stack : st'.stack = st.stack
  tasks : st'.tasks = st.tasks.filter fun t => some t.1 ≠ (st.heap s).timeoutTask
  heap : ∀ s', s' ≠ s → st'.heap s' = st.heap s'
  timeoutTask : (st'.heap s).timeoutTask = none
  xhrs : ∀ get, get ≠ (st.heap s).get → st'.xhrs get = st.xhrs get
  closed : ∀ x, st'.xhrs (st.heap s).get = some x → x.isOpen = false
  failed : st'.failed = st.failed

theorem deleted_clientDeleteSession {s : Ptr} (hs : s ∈ st.sessions)
    (hcount : st.curConnections ≠ 0) (hget : (st.heap s).get ≠ 0)
    (hurl : (st.heap s).url ≠ none) : Deleted st (st.clientDeleteSession s) s := by
  have hcancel : ∃ x : Session Address Tokenizer, x.get = (st.heap s).get ∧
      x.url = (st.heap s).url ∧ x.timeoutTask = none ∧
      st.cancelTimeout s = { st.setSession s x with
        tasks := st.tasks.filter fun t => some t.1 ≠ (st.heap s).timeoutTask } := by
    unfold cancelTimeout
    cases htask : (st.heap s).timeoutTask with
    | none =>
      refine ⟨st.heap s, rfl, rfl, htask, ?_⟩
      simp [setSession]
    | some task =>
      refine ⟨{ st.heap s with timeoutTask := none, timeout := 0 }, rfl, rfl, rfl, ?_⟩
      simp [setSession]
  obtain ⟨x, hxget, hxurl, hxtask, hcancel⟩ := hcancel
  unfold clientDeleteSession
  simp only [hcancel, setSession, Function.update_self, hxget, hs, not_true, if_false, hget, hcount,
    abortXhr]
  cases hx : st.xhrs (st.heap s).get with
  | none =>
    rw [freeUrl, if_neg (by simpa [hxurl] using hurl)]
    refine ⟨rfl, rfl, rfl, rfl, rfl, fun s' hne => ?_, ?_, fun _ _ => rfl, fun y hy => ?_, rfl⟩
    · simp [hne]
    · simp [hxtask]
    · rw [hx] at hy
      cases hy
  | some y =>
    rw [freeUrl, if_neg (by simpa [setXhr, hxurl] using hurl)]
    refine ⟨rfl, rfl, rfl, rfl, rfl, fun s' hne => ?_, ?_, fun get hne => ?_, fun z hz => ?_, rfl⟩
    · simp [setXhr, hne]
    · simp [setXhr, hxtask]
    · simp [setXhr, hne]
    · have hz' : { y with isOpen := false } = z := by simpa [setXhr] using hz
      rw [← hz']

theorem Inv.get_ne_zero (h : Inv env st) {s : Ptr} (hs : s ∈ st.sessions) :
    (st.heap s).get ≠ 0 := by
  obtain ⟨x, hx, _⟩ := h.connected s hs
  exact Nat.ne_of_gt (h.handles _ x hx).1

/-- Two sessions have two requests. -/
theorem Inv.get_inj (h : Inv env st) {s s' : Ptr} (hs : s ∈ st.sessions) (hs' : s' ∈ st.sessions)
    (hget : (st.heap s).get = (st.heap s').get) : s = s' := by
  obtain ⟨x, hx, rfl⟩ := h.connected s hs
  obtain ⟨x', hx', rfl⟩ := h.connected s' hs'
  rw [hget, hx'] at hx
  cases hx
  rfl

theorem Inv.curConnections_ne_zero (h : Inv env st) {s : Ptr} (hs : s ∈ st.sessions) :
    st.curConnections ≠ 0 := by
  rw [h.count]
  exact Nat.ne_of_gt (List.length_pos_of_mem hs)

theorem Inv.task_inj (h : Inv env st) {t : Task × Ptr} {s : Ptr} (ht : t ∈ st.tasks)
    (hs : s ∈ st.sessions) (htask : (st.heap s).timeoutTask = some t.1) : t.2 = s := by
  have hinj := List.inj_on_of_nodup_map h.tasksNodup ht (h.armed s hs t.1 htask) rfl
  exact congrArg Prod.snd hinj

/-- **A session ends.** -/
theorem Inv.delete (h : Inv env st) {s : Ptr} {rest : List (Frame Peer Message)}
    (hstack : st.stack = .sessionEnd s :: rest)
    {st' : State Address Peer Tokenizer Message} (hs : s ∈ st.sessions)
    (hd : Deleted { st with stack := rest } st' s) : Inv env st' := by
  have hmem : ∀ s', s' ∈ st'.sessions ↔ s' ≠ s ∧ s' ∈ st.sessions := by
    intro s'
    rw [hd.sessions, h.nodup.mem_erase_iff]
  have hxhr : ∀ get x, st'.xhrs get = some x → get ≠ (st.heap s).get → st.xhrs get = some x :=
    fun get x hx hne => (hd.xhrs get hne).symm.trans hx
  have hframe : ∀ f ∈ st'.stack, f ∈ st.stack := by
    rw [hd.stack, hstack]
    exact fun f hf => List.mem_cons_of_mem _ hf
  have hget : ∀ s', s' ≠ s → s' ∈ st.sessions → (st.heap s').get ≠ (st.heap s).get :=
    fun s' hne hs' he => hne (h.get_inj hs' hs he)
  constructor
  case nodup =>
    rw [hd.sessions]
    exact h.nodup.erase s
  case connected =>
    intro s' hs'
    obtain ⟨hne, hs'⟩ := (hmem s').mp hs'
    rw [hd.heap s' hne, hd.xhrs _ (hget s' hne hs')]
    exact h.connected s' hs'
  case handles =>
    intro get x hx
    rw [hd.nextXhr]
    by_cases hg : get = (st.heap s).get
    · obtain ⟨y, hy, _⟩ := h.connected s hs
      exact hg ▸ h.handles _ y hy
    · exact h.handles get x (hxhr get x hx hg)
  case nextXhr =>
    rw [hd.nextXhr]
    exact h.nextXhr
  case belongs =>
    intro get x hx ho
    by_cases hg : get = (st.heap s).get
    · subst hg
      rw [hd.closed x hx] at ho
      cases ho
    · obtain ⟨hxs, hxget⟩ := h.belongs get x (hxhr get x hx hg) ho
      have hne : x.s ≠ s := fun he => hg (by rw [← hxget, he])
      exact ⟨(hmem _).mpr ⟨hne, hxs⟩, by rw [hd.heap _ hne]; exact hxget⟩
  case count =>
    rw [hd.curConnections, hd.sessions, List.length_erase_of_mem hs]
    exact congrArg (· - 1) h.count
  case bound =>
    rw [hd.curConnections]
    exact Nat.le_trans (Nat.sub_le _ _) h.bound
  case addresses =>
    intro s₁ hs₁ s₂ hs₂ he
    obtain ⟨hne₁, hs₁⟩ := (hmem s₁).mp hs₁
    obtain ⟨hne₂, hs₂⟩ := (hmem s₂).mp hs₂
    rw [hd.heap _ hne₁, hd.heap _ hne₂] at he
    exact h.addresses s₁ hs₁ s₂ hs₂ he
  case urls =>
    intro s' hs'
    obtain ⟨hne, hs'⟩ := (hmem s').mp hs'
    rw [hd.heap s' hne]
    exact h.urls s' hs'
  case pending =>
    intro t ht
    rw [hd.tasks, List.mem_filter, decide_eq_true_eq] at ht
    obtain ⟨ht, hne⟩ := ht
    obtain ⟨hts, htask⟩ := h.pending t ht
    have hne' : t.2 ≠ s := fun he => hne (by rw [← htask, he])
    exact ⟨(hmem _).mpr ⟨hne', hts⟩, by rw [hd.heap _ hne']; exact htask⟩
  case tasksNodup =>
    rw [hd.tasks]
    exact h.tasksNodup.sublist (List.filter_sublist.map _)
  case armed =>
    intro s' hs' task htask
    obtain ⟨hne, hs'⟩ := (hmem s').mp hs'
    rw [hd.heap _ hne] at htask
    rw [hd.tasks, List.mem_filter, decide_eq_true_eq]
    have ht := h.armed s' hs' task htask
    exact ⟨ht, fun he => hne (h.task_inj ht hs he.symm)⟩
  case idle =>
    intro s' hs' htask
    obtain ⟨hne, hs'⟩ := (hmem s').mp hs'
    rw [hd.heap _ hne] at htask
    have hf := h.idle s' hs' htask
    rw [hstack, List.mem_cons] at hf
    rw [hd.stack]
    exact hf.resolve_left fun he => hne (by cases he; rfl)
  case ended =>
    intro s' hf hs'
    by_cases hne : s' = s
    · rw [hne]
      exact hd.timeoutTask
    · rw [hd.heap _ hne]
      exact h.ended s' (hframe _ hf) fun hs => hs' ((hmem s').mpr ⟨hne, hs⟩)
  case receiving =>
    intro s' get left hf
    obtain ⟨hs', hg, hnot⟩ := h.receiving s' get left (hframe _ hf)
    have hne : s' ≠ s := by
      rintro rfl
      exact hnot (hstack ▸ List.mem_cons_self)
    exact ⟨(hmem s').mpr ⟨hne, hs'⟩, by rw [hd.heap _ hne]; exact hg,
      fun hf' => hnot (hframe _ hf')⟩

/-- **`env->session_end` returns.**  The session may have been deleted in the meantime. -/
theorem Inv.sessionEnded (h : Inv env st) {s : Ptr} {rest : List (Frame Peer Message)}
    (hstack : st.stack = .sessionEnd s :: rest) :
    Inv env ({ st with stack := rest }.clientDeleteSession s) := by
  by_cases hs : s ∈ st.sessions
  · exact h.delete hstack hs
      (deleted_clientDeleteSession hs (h.curConnections_ne_zero hs) (h.get_ne_zero hs)
        (h.urls s hs))
  · have htask : (st.heap s).timeoutTask = none :=
      h.ended s (hstack ▸ List.mem_cons_self) hs
    have hfail : { st with stack := rest }.clientDeleteSession s =
        { st with stack := rest }.fail .remove := by
      simp [clientDeleteSession, cancelTimeout, htask, hs]
    rw [hfail]
    refine Inv.alike ?_ (alike_fail _ _)
    have hframe : ∀ f ∈ rest, f ∈ st.stack := fun f hf => hstack ▸ List.mem_cons_of_mem _ hf
    refine h.frames (fun s' hs' hf => ?_) (fun s' hf => .inl (hframe _ hf)) fun s' get left hf => ?_
    · rw [hstack, List.mem_cons] at hf
      exact hf.resolve_left fun he => hs (by cases he; exact hs')
    · obtain ⟨hs', hget, hnot⟩ := h.receiving s' get left (hframe _ hf)
      exact ⟨hs', hget, fun hf' => hnot (hframe _ hf')⟩

/-! ## A new session -/

/-- What `http_client_plugin_get_session` does when it makes a session. -/
structure Added (st st' : State Address Peer Tokenizer Message) (address : Address) (s : Ptr)
    (task : Task) : Prop where
  sessions : st'.sessions = st.sessions ++ [s]
  curConnections : st'.curConnections = st.curConnections + 1
  nextXhr : st'.nextXhr = st.nextXhr + 1
  stack : st'.stack = st.stack
  tasks : st'.tasks = st.tasks ++ [(task, s)]
  heap : ∀ s', s' ≠ s → st'.heap s' = st.heap s'
  get : (st'.heap s).get = st.nextXhr
  address : (st'.heap s).address = address
  url : (st'.heap s).url ≠ none
  timeoutTask : (st'.heap s).timeoutTask = some task
  xhrs : ∀ get, get ≠ st.nextXhr → st'.xhrs get = st.xhrs get
  opened : ∃ x, st'.xhrs st.nextXhr = some x ∧ x.s = s
  failed : st'.failed = st.failed

/-- The URL can be printed: a session is made.  Otherwise the table is as it was, and the
URL that is freed is `NULL`. -/
theorem added_newSession (env : Env Address Peer Sockaddr Tokenizer Message)
    (st : State Address Peer Tokenizer Message) (address : Address) (scope : NetworkType) {s : Ptr}
    {task : Task} (now : Nat) (hs : s ∉ st.sessions) (htask : st.FreshTask task) :
    (env.addressToString address ≠ none ∧
      Added st (st.newSession env address scope s task now).1 address s task) ∨
    (env.addressToString address = none ∧
      ∃ x : Session Address Tokenizer, x.timeoutTask = none ∧
        (st.newSession env address scope s task now).1 = (st.setSession s x).fail .url) := by
  unfold newSession clientConnect
  cases haddress : env.addressToString address with
  | none =>
    refine .inr ⟨rfl, ⟨none, address, 0, none, none, 0, 0, scope⟩, rfl, ?_⟩
    have herase : (st.sessions ++ [s]).erase s = st.sessions := by
      rw [List.erase_append_right _ hs]
      simp
    have hfilter : st.tasks.filter (fun t => t.1 ≠ task) = st.tasks := by
      rw [List.filter_eq_self]
      exact fun t ht => decide_eq_true fun he => htask (he ▸ List.mem_map_of_mem ht)
    simp [setSession, haddress, clientDeleteSession, cancelTimeout, freeUrl, fail, herase]
      at hfilter ⊢
    exact hfilter
  | some name =>
    refine .inl ⟨nofun, ?_⟩
    simp only [setSession, Function.update_self, haddress, clientConnectGet, setXhr, resend]
    refine ⟨rfl, rfl, rfl, rfl, rfl, fun s' hne => ?_, ?_, ?_, ?_, ?_, fun get hne => ?_, ?_, rfl⟩
    · simp [hne]
    · simp
    · simp
    · simp
    · simp
    · simp [hne]
    · simp

/-- **A session is made.** -/
theorem Inv.add (h : Inv env st) {st' : State Address Peer Tokenizer Message} {address : Address}
    {s : Ptr} {task : Task} (hs : s ∉ st.sessions) (htask : st.FreshTask task)
    (hnew : ∀ s' ∈ st.sessions, (st.heap s').address ≠ address)
    (hroom : st.curConnections < env.maxConnections) (ha : Added st st' address s task) :
    Inv env st' := by
  have hmem : ∀ s', s' ∈ st'.sessions ↔ s' ∈ st.sessions ∨ s' = s := by
    intro s'
    rw [ha.sessions, List.mem_append, List.mem_singleton]
  have hne : ∀ s' ∈ st.sessions, s' ≠ s := fun s' hs' he => hs (he ▸ hs')
  have hold : ∀ get x, st.xhrs get = some x → get ≠ st.nextXhr :=
    fun get x hx => Nat.ne_of_lt (h.handles get x hx).2
  constructor
  case nodup =>
    rw [ha.sessions, List.nodup_append]
    exact ⟨h.nodup, List.nodup_singleton s, fun s' hs' t ht he =>
      hs (by rw [List.mem_singleton.mp ht] at he; exact he ▸ hs')⟩
  case connected =>
    intro s' hs'
    rcases (hmem s').mp hs' with hs' | rfl
    · obtain ⟨x, hx, hxs⟩ := h.connected s' hs'
      exact ⟨x, by rw [ha.heap s' (hne s' hs'), ha.xhrs _ (hold _ x hx), hx], hxs⟩
    · rw [ha.get]
      exact ha.opened
  case handles =>
    intro get x hx
    rw [ha.nextXhr]
    by_cases hg : get = st.nextXhr
    · rw [hg]
      exact ⟨h.nextXhr, Nat.lt_succ_self _⟩
    · rw [ha.xhrs get hg] at hx
      exact ⟨(h.handles get x hx).1, Nat.lt_succ_of_lt (h.handles get x hx).2⟩
  case nextXhr =>
    rw [ha.nextXhr]
    exact Nat.succ_pos _
  case belongs =>
    intro get x hx ho
    by_cases hg : get = st.nextXhr
    · subst hg
      obtain ⟨y, hy, rfl⟩ := ha.opened
      rw [hx] at hy
      cases hy
      exact ⟨(hmem _).mpr (.inr rfl), ha.get⟩
    · rw [ha.xhrs get hg] at hx
      obtain ⟨hxs, hxget⟩ := h.belongs get x hx ho
      exact ⟨(hmem _).mpr (.inl hxs), by rw [ha.heap _ (hne _ hxs)]; exact hxget⟩
  case count =>
    rw [ha.curConnections, ha.sessions, List.length_append, h.count]
    rfl
  case bound =>
    rw [ha.curConnections]
    exact hroom
  case addresses =>
    intro s₁ hs₁ s₂ hs₂ he
    rcases (hmem s₁).mp hs₁ with hs₁ | rfl <;> rcases (hmem s₂).mp hs₂ with hs₂ | rfl
    · rw [ha.heap _ (hne _ hs₁), ha.heap _ (hne _ hs₂)] at he
      exact h.addresses s₁ hs₁ s₂ hs₂ he
    · rw [ha.heap _ (hne _ hs₁), ha.address] at he
      exact absurd he (hnew s₁ hs₁)
    · rw [ha.heap _ (hne _ hs₂), ha.address] at he
      exact absurd he.symm (hnew s₂ hs₂)
    · rfl
  case urls =>
    intro s' hs'
    rcases (hmem s').mp hs' with hs' | rfl
    · rw [ha.heap s' (hne s' hs')]
      exact h.urls s' hs'
    · exact ha.url
  case pending =>
    intro t ht
    rw [ha.tasks, List.mem_append, List.mem_singleton] at ht
    rcases ht with ht | rfl
    · obtain ⟨hts, htt⟩ := h.pending t ht
      exact ⟨(hmem _).mpr (.inl hts), by rw [ha.heap _ (hne _ hts)]; exact htt⟩
    · exact ⟨(hmem _).mpr (.inr rfl), ha.timeoutTask⟩
  case tasksNodup =>
    rw [ha.tasks, List.map_append, List.nodup_append]
    refine ⟨h.tasksNodup, List.nodup_singleton _, fun t ht t' ht' he => htask ?_⟩
    rw [List.map_singleton, List.mem_singleton] at ht'
    have ht' : t' = task := ht'
    rw [← ht', ← he]
    exact ht
  case armed =>
    intro s' hs' t ht
    rw [ha.tasks, List.mem_append, List.mem_singleton]
    rcases (hmem s').mp hs' with hs' | rfl
    · rw [ha.heap _ (hne _ hs')] at ht
      exact .inl (h.armed s' hs' t ht)
    · rw [ha.timeoutTask] at ht
      cases ht
      exact .inr rfl
  case idle =>
    intro s' hs' ht
    rw [ha.stack]
    rcases (hmem s').mp hs' with hs' | rfl
    · rw [ha.heap _ (hne _ hs')] at ht
      exact h.idle s' hs' ht
    · rw [ha.timeoutTask] at ht
      cases ht
  case ended =>
    intro s' hf hs'
    have hs'' : s' ≠ s := fun he => hs' ((hmem s').mpr (.inr he))
    rw [ha.stack] at hf
    rw [ha.heap _ hs'']
    exact h.ended s' hf fun hs => hs' ((hmem s').mpr (.inl hs))
  case receiving =>
    intro s' get left hf
    rw [ha.stack] at hf ⊢
    obtain ⟨hs', hg, hnot⟩ := h.receiving s' get left hf
    exact ⟨(hmem s').mpr (.inl hs'), by rw [ha.heap _ (hne _ hs')]; exact hg, hnot⟩

/-- What is not a session does not matter. -/
theorem Inv.setFreed (h : Inv env st) {s : Ptr} (hs : s ∉ st.sessions)
    {x : Session Address Tokenizer} (hx : x.timeoutTask = none) : Inv env (st.setSession s x) := by
  have hheap : ∀ s', s' ≠ s → (st.setSession s x).heap s' = st.heap s' := by
    intro s' hne
    simp [setSession, hne]
  have hne : ∀ s' ∈ st.sessions, s' ≠ s := fun s' hs' he => hs (he ▸ hs')
  refine ⟨h.nodup, ?_, h.handles, h.nextXhr, ?_, h.count, h.bound, ?_, ?_, ?_, h.tasksNodup, ?_, ?_,
    ?_, ?_⟩
  · intro s' hs'
    rw [hheap s' (hne s' hs')]
    exact h.connected s' hs'
  · intro get y hy ho
    obtain ⟨hys, hyget⟩ := h.belongs get y hy ho
    exact ⟨hys, by rw [hheap _ (hne _ hys)]; exact hyget⟩
  · intro s₁ hs₁ s₂ hs₂ he
    rw [hheap _ (hne _ hs₁), hheap _ (hne _ hs₂)] at he
    exact h.addresses s₁ hs₁ s₂ hs₂ he
  · intro s' hs'
    rw [hheap s' (hne s' hs')]
    exact h.urls s' hs'
  · intro t ht
    obtain ⟨hts, htt⟩ := h.pending t ht
    exact ⟨hts, by rw [hheap _ (hne _ hts)]; exact htt⟩
  · intro s' hs' t ht
    rw [hheap _ (hne _ hs')] at ht
    exact h.armed s' hs' t ht
  · intro s' hs' ht
    rw [hheap _ (hne _ hs')] at ht
    exact h.idle s' hs' ht
  · intro s' hf hs'
    by_cases he : s' = s
    · rw [he]
      simpa [setSession] using hx
    · rw [hheap _ he]
      exact h.ended s' hf hs'
  · intro s' get left hf
    obtain ⟨hs', hg, hnot⟩ := h.receiving s' get left hf
    exact ⟨hs', by rw [hheap _ (hne _ hs')]; exact hg, hnot⟩

theorem Inv.newSession (h : Inv env st) {address : Address} (scope : NetworkType) {s : Ptr}
    {task : Task} (now : Nat) (hs : s ∉ st.sessions) (htask : st.FreshTask task)
    (hnew : ∀ s' ∈ st.sessions, (st.heap s').address ≠ address)
    (hroom : st.curConnections < env.maxConnections) :
    Inv env (st.newSession env address scope s task now).1 := by
  rcases added_newSession env st address scope now hs htask with ⟨-, ha⟩ | ⟨-, x, hx, heq⟩
  · exact h.add hs htask hnew hroom ha
  · rw [heq]
    exact (h.setFreed hs hx).alike (alike_fail _ _)

theorem Inv.getSession [DecidableEq Address] (h : Inv env st) {address : Address} {s : Ptr}
    {task : Task} (now : Nat) (hs : s ∉ st.sessions) (htask : st.FreshTask task) :
    Inv env (st.getSession env address s task now).1 := by
  unfold State.getSession
  split
  · exact h.alike (alike_fail _ _)
  split
  · exact h
  · rename_i hlookup
    have hnew : ∀ s' ∈ st.sessions, (st.heap s').address ≠ address := by
      intro s' hs'
      simpa using List.find?_eq_none.mp hlookup s' hs'
    split
    · exact h
    · rename_i hroom
      have hroom := Nat.lt_of_not_le hroom
      split
      · exact h
      · exact h.alike (alike_fail _ _)
      · split
        · exact h
        · exact h.newSession _ now hs htask hnew hroom
      · exact h.newSession _ now hs htask hnew hroom

/-! ## Timeouts -/

/-- What happens when the timeout task of a session runs: there is a new one, or the
session is being ended. -/
structure Retasked (st st' : State Address Peer Tokenizer Message) (s : Ptr) (task : Task)
    (new : Option Task) : Prop where
  sessions : st'.sessions = st.sessions
  curConnections : st'.curConnections = st.curConnections
  nextXhr : st'.nextXhr = st.nextXhr
  xhrs : st'.xhrs = st.xhrs
  tasks : st'.tasks =
    st.tasks.filter (fun t => t.1 ≠ task) ++ (new.map fun task => (task, s)).toList
  get : ∀ s', (st'.heap s').get = (st.heap s').get
  address : ∀ s', (st'.heap s').address = (st.heap s').address
  url : ∀ s', (st'.heap s').url = (st.heap s').url
  other : ∀ s', s' ≠ s → (st'.heap s').timeoutTask = (st.heap s').timeoutTask
  timeoutTask : (st'.heap s).timeoutTask = new
  stack : st'.stack = if new = none then [.sessionEnd s] else []
  failed : st'.failed = st.failed

theorem retasked_clientSessionTimeout (st : State Address Peer Tokenizer Message) (s : Ptr)
    (now : Nat) (task task' : Task) (hstack : st.stack = []) : ∃ new,
      (new = none ∨ new = some task') ∧
      Retasked st (clientSessionTimeout { st with tasks := st.tasks.filter fun t => t.1 ≠ task } s
        now task').1 s task new := by
  unfold clientSessionTimeout
  by_cases hleft : getRemaining now (st.heap s).timeout = 0
  · refine ⟨none, .inl rfl, ?_⟩
    simp only [setSession, Function.update_self, hleft, ne_eq, not_true, if_false,
      sessionDisconnect, push]
    refine ⟨rfl, rfl, rfl, rfl, ?_, fun s' => ?_, fun s' => ?_, fun s' => ?_, fun s' hne => ?_, ?_,
      ?_, rfl⟩
    · simp
    · by_cases hs : s' = s
      · simp [hs]
      · simp [hs]
    · by_cases hs : s' = s
      · simp [hs]
      · simp [hs]
    · by_cases hs : s' = s
      · simp [hs]
      · simp [hs]
    · simp [hne]
    · simp
    · simp [hstack]
  · refine ⟨some task', .inr rfl, ?_⟩
    simp only [setSession, Function.update_self, hleft, ne_eq, not_false_eq_true, if_true]
    refine ⟨rfl, rfl, rfl, rfl, ?_, fun s' => ?_, fun s' => ?_, fun s' => ?_, fun s' hne => ?_, ?_,
      ?_, rfl⟩
    · simp
    · by_cases hs : s' = s
      · simp [hs]
      · simp [hs]
    · by_cases hs : s' = s
      · simp [hs]
      · simp [hs]
    · by_cases hs : s' = s
      · simp [hs]
      · simp [hs]
    · simp [hne]
    · simp
    · simp [hstack]

/-- **A timeout task runs.** -/
theorem Inv.retask (h : Inv env st) {st' : State Address Peer Tokenizer Message} {s : Ptr}
    {task : Task} {new : Option Task} (ht : (task, s) ∈ st.tasks) (hstack : st.stack = [])
    (hfresh : ∀ task' ∈ new, task' ∉ (st.tasks.filter fun t => t.1 ≠ task).map Prod.fst)
    (hr : Retasked st st' s task new) : Inv env st' := by
  obtain ⟨hs, htask⟩ := h.pending _ ht
  have hnew : ∀ t : Task × Ptr, t ∈ st'.tasks ↔
      (t ∈ st.tasks ∧ t.1 ≠ task) ∨ new = some t.1 ∧ t.2 = s := by
    rintro ⟨task', s'⟩
    rw [hr.tasks, List.mem_append, List.mem_filter, decide_eq_true_eq]
    refine or_congr_right ?_
    cases new with
    | none => simp
    | some task'' => simp [eq_comm]
  -- only `s` had the task that runs
  have hother : ∀ s' ∈ st.sessions, s' ≠ s → (st.heap s').timeoutTask ≠ some task := by
    intro s' hs' hne he
    exact hne (h.task_inj ht hs' he).symm
  constructor
  case nodup =>
    rw [hr.sessions]
    exact h.nodup
  case connected =>
    simpa only [hr.sessions, hr.xhrs, hr.get] using h.connected
  case handles =>
    simpa only [hr.xhrs, hr.nextXhr] using h.handles
  case nextXhr =>
    simpa only [hr.nextXhr] using h.nextXhr
  case belongs =>
    simpa only [hr.sessions, hr.xhrs, hr.get] using h.belongs
  case count =>
    simpa only [hr.sessions, hr.curConnections] using h.count
  case bound =>
    simpa only [hr.curConnections] using h.bound
  case addresses =>
    simpa only [hr.sessions, hr.address] using h.addresses
  case urls =>
    simpa only [hr.sessions, hr.url] using h.urls
  case pending =>
    intro t ht'
    rw [hr.sessions]
    rcases (hnew t).mp ht' with ⟨ht', hne⟩ | ⟨hn, hts⟩
    · obtain ⟨hts, htt⟩ := h.pending t ht'
      have hne' : t.2 ≠ s := by
        intro he
        rw [he, htask] at htt
        exact hne (Option.some.inj htt).symm
      exact ⟨hts, by rw [hr.other _ hne']; exact htt⟩
    · rw [hts, hr.timeoutTask]
      exact ⟨hs, hn⟩
  case tasksNodup =>
    rw [hr.tasks, List.map_append, List.nodup_append]
    refine ⟨h.tasksNodup.sublist (List.filter_sublist.map _), ?_, fun t ht t' ht' he => ?_⟩
    · cases new <;> simp
    · cases new with
      | none => simp at ht'
      | some task' =>
        have ht' : t' = task' := by simpa using ht'
        exact hfresh task' rfl (by rw [← ht', ← he]; exact ht)
  case armed =>
    intro s' hs' task' htask'
    rw [hr.sessions] at hs'
    rw [hnew]
    by_cases hne : s' = s
    · subst hne
      exact .inr ⟨hr.timeoutTask.symm.trans htask', rfl⟩
    · rw [hr.other s' hne] at htask'
      exact .inl ⟨h.armed s' hs' task' htask', fun he =>
        hother s' hs' hne (htask'.trans (congrArg some he))⟩
  case idle =>
    intro s' hs' htask'
    rw [hr.sessions] at hs'
    rw [hr.stack]
    by_cases hne : s' = s
    · subst hne
      rw [← hr.timeoutTask, if_pos htask']
      exact List.mem_singleton_self _
    · rw [hr.other s' hne] at htask'
      have := h.idle s' hs' htask'
      rw [hstack] at this
      cases this
  case ended =>
    intro s' hf hs'
    rw [hr.stack] at hf
    rw [hr.sessions] at hs'
    split at hf
    · have he : s' = s := by simpa using hf
      exact absurd (he ▸ hs) hs'
    · cases hf
  case receiving =>
    intro s' get left hf
    rw [hr.stack] at hf
    split at hf
    · simp at hf
    · cases hf

/-! ## The events -/

theorem Inv.updateSession (h : Inv env st) (s : Ptr) (now : Nat) :
    Inv env (st.clientRescheduleSessionTimeout env s now) :=
  h.alike (alike_clientRescheduleSessionTimeout env st s now)

/-- The next message, or the end of `onload`. -/
theorem Inv.receiveNext (h : Inv env st) {s : Ptr} {get : Nat} (hs : s ∈ st.sessions)
    (hget : (st.heap s).get = get) (hnot : .sessionEnd s ∉ st.stack) (messages : List Message) :
    Inv env (st.receiveNext s get messages).1 := by
  cases messages with
  | nil => exact h.resend hs hget
  | cons m left =>
    refine h.push (fun s' he => ?_) fun s' get' left' he => ?_
    · cases he
    · cases he
      exact ⟨hs, hget, hnot⟩

theorem Inv.onload (h : Inv env st) {get : Nat} {x : Xhr} (hstack : st.stack = [])
    (hx : st.xhrs get = some x) (ho : x.isOpen) (response : List UInt8) (now : Nat) :
    Inv env (st.onload env get x response now).1 := by
  obtain ⟨hs, hget⟩ := h.belongs get x hx ho
  have hclosed : Inv env (st.setXhr get { x with isOpen := false }) :=
    h.setXhr hx rfl fun ho => nomatch ho
  unfold State.onload
  simp only
  split
  · exact hclosed.resend hs hget
  · rename_i session messages hreceive
    have halike : Alike (st.setXhr get { x with isOpen := false })
        ((st.setXhr get { x with isOpen := false }).setSession x.s session) :=
      alike_clientReceive hreceive
    refine (hclosed.alike halike).receiveNext hs ((halike.get x.s).trans hget) ?_ messages
    rw [halike.stack]
    exact fun hf => by simp [State.setXhr, hstack] at hf

theorem Inv.sessionDisconnect (h : Inv env st) {s : Ptr} (hs : s ∈ st.sessions)
    (hnot : ∀ get left, .receive s get left ∉ st.stack) : Inv env (st.sessionDisconnect s).1 := by
  refine h.push (fun s' he => ?_) fun s' get left he => ?_
  · cases he
    exact ⟨hs, hnot⟩
  · cases he

theorem Inv.putEnds (h : Inv env st) {i : Nat} {result : Int}
    {r : State Address Peer Tokenizer Message × List (Output Address Message)}
    (hp : st.putEnds i result = some r) : Inv env r.1 := by
  have hputs : Inv env { st with puts := st.puts.eraseIdx i } :=
    h.alike ⟨rfl, rfl, rfl, rfl, rfl, rfl, fun _ => rfl, fun _ => rfl, fun _ => rfl, fun _ => rfl⟩
  obtain ⟨p, -, ⟨-, rfl⟩ | ⟨-, rfl⟩⟩ := putEnds_eq hp
  · exact hputs
  · exact hputs.push (fun _ he => nomatch he) fun _ _ _ he => nomatch he

variable [DecidableEq Address] [DecidableEq Peer]

/-- **Every event keeps the invariant.** -/
theorem inv_step {e : Event Address Peer}
    {r : State Address Peer Tokenizer Message × List (Output Address Message)} (h : Inv env st)
    (hok : st.KeepsReceiving e) (hs : step env st e = some r) : Inv env r.1 := by
  cases (step_cases hs).2 with
  | getSession hg => exact h.getSession _ hg.2.2.1 hg.2.2.2
  | send hg =>
    exact h.alike
      ⟨rfl, rfl, rfl, rfl, rfl, rfl, fun _ => rfl, fun _ => rfl, fun _ => rfl, fun _ => rfl⟩
  | @disconnectSession s hg =>
    exact h.sessionDisconnect hg.2 fun get left hf => (hok s get left hf).1 rfl
  | disconnectPeer hg => exact h.push (fun _ he => nomatch he) fun _ _ _ he => nomatch he
  | @updateSessionTimeout s now hg => exact h.updateSession s now
  | updateInboundDelay hg => exact h.alike (alike_setSession st rfl rfl rfl rfl)
  | @destroySession s target left rest hstack hleft hmem =>
    have hrest : Inv env { st with stack := .peerDisconnect target (left.erase s) :: rest } :=
      (h.pop hstack fun _ he => nomatch he).push (fun _ he => nomatch he) fun _ _ _ he => nomatch he
    refine hrest.sessionDisconnect (List.mem_of_mem_filter hmem) fun get left' hf => ?_
    refine (hok s get left' ?_).2 rfl
    rw [hstack]
    exact List.mem_cons_of_mem _ ((List.mem_cons.mp hf).resolve_left fun he => nomatch he)
  | peerDisconnected hstack => exact h.pop hstack fun _ he => nomatch he
  | sessionEnded hstack => exact h.sessionEnded hstack
  | @received s get left rest delay now now' hstack =>
    obtain ⟨hs, hget, hnot⟩ := h.receiving s get left (hstack ▸ List.mem_cons_self)
    have ha := alike_clientReceiveMstCb env { st with stack := rest } s delay now now'
    have hpop := (h.pop hstack fun _ he => nomatch he).alike ha
    split
    · refine hpop.receiveNext (ha.sessions.symm ▸ hs) ((ha.get s).trans hget) ?_ left
      rw [ha.stack]
      exact fun hf => hnot (hstack ▸ List.mem_cons_of_mem _ hf)
    · exact hpop
  | transmitted hstack => exact h.pop hstack fun _ he => nomatch he
  | @load get response now x hstack hx ho => exact h.onload hstack hx ho response now
  | @error get x hstack hx ho =>
    have hclosed : Inv env (st.setXhr get { x with isOpen := false }) :=
      h.setXhr hx rfl fun ho => nomatch ho
    refine hclosed.sessionDisconnect (h.belongs get x hx ho).1 fun get' left hf => ?_
    have hf : Frame.receive x.s get' left ∈ st.stack := hf
    rw [hstack] at hf
    cases hf
  | @timeout get x hstack hx ho =>
    exact h.resend (h.belongs get x hx ho).1 (h.belongs get x hx ho).2
  | putLoad hstack hp => exact h.putEnds hp
  | putError hstack hp => exact h.putEnds hp
  | @run task now task' s hstack ht hfresh =>
    obtain ⟨new, hnew, hr⟩ := retasked_clientSessionTimeout st s now task task' hstack
    refine h.retask (List.mem_of_find?_eq_some ht) hstack (fun task'' ht' => ?_) hr
    rcases hnew with rfl | rfl
    · cases ht'
    · cases ht'
      exact hfresh

omit [DecidableEq Address] [DecidableEq Peer] in
theorem inv_init (env : Env Address Peer Sockaddr Tokenizer Message)
    (heap : Ptr → Session Address Tokenizer) :
    Inv env (init heap : State Address Peer Tokenizer Message) := by
  refine ⟨List.nodup_nil, ?_, ?_, Nat.one_pos, ?_, rfl, Nat.zero_le _, ?_, ?_, ?_, List.nodup_nil,
    ?_, ?_, ?_, ?_⟩
  all_goals simp [init]

/-- **The invariant holds in every reachable state.** -/
theorem inv_run {heap : Ptr → Session Address Tokenizer} {es : List (Event Address Peer)}
    {os : List (Output Address Message)}
    (h : (system env heap).Run KeepsReceiving es os st) : Inv env st :=
  h.invariant (fun _ _ s' o hi hok hs => inv_step (r := (s', o)) hi hok hs) (inv_init env heap)

end State

end GnunetWeb.HttpClient
