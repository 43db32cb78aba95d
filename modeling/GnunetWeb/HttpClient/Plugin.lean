import GnunetWeb.HttpClient.Session
import GnunetWeb.Library.EventSystem
import Mathlib.Logic.Function.Basic

/-!
# The HTTP client plugin

`plugin_transport_http_client_emscripten.c` with the `XMLHttpRequest`s of
`plugin_transport_http_client_emscripten_int.js`, the tasks that the plugin has at the
scheduler, and the callbacks of the transport service that are running.

A session is known by its address in memory.  What has been freed stays in memory until
the address is given out again.  A call of `env->session_end`, `env->receive` or a
continuation is a frame of the stack; while it runs, the transport service may call the
plugin.  An assertion that fails ends everything.
-/

namespace GnunetWeb.HttpClient

/-- The assertions, by what they are about. -/
inductive Assertion where
  /-- `NULL != address->address` -/
  | address
  /-- `NULL != sa` -/
  | sockaddr
  /-- the session is in `plugin->sessions` -/
  | remove
  /-- `plugin->cur_connections > 0` -/
  | connections
  /-- `NULL != s->timeout_task` -/
  | timeoutTask
  /-- `NULL != ptr` in `GNUNET_free (s->url)` -/
  | url
  deriving DecidableEq, Repr

/-- A GET request; `isOpen` from `xhr.send()` on, until it has ended. -/
structure Xhr where
  s : Ptr
  url : String
  isOpen : Bool
  deriving DecidableEq

/-- A PUT request that has not ended; `target` is the peer in the address of the session
`s`. -/
structure Put where
  s : Ptr
  url : Option String
  data : List UInt8
  cont : Ptr
  contCls : Ptr

/-- The callbacks of the transport service that run, and what follows them. -/
inductive Frame (Peer Message : Type) where
  /-- `http_client_plugin_session_disconnect` in `env->session_end` -/
  | sessionEnd (s : Ptr)
  /-- `client_receive_mst_cb` in `env->receive`; `left` are the messages after this one,
  and `get` is the request whose `onload` runs -/
  | receive (s : Ptr) (get : Nat) (left : List Message)
  /-- `http_client_plugin_peer_disconnect`; `left` are the sessions of the peer that have
  not had their turn -/
  | peerDisconnect (target : Peer) (left : List Ptr)
  /-- the continuation of a PUT request -/
  | transmitCont

structure State (Address Peer Tokenizer Message : Type) where
  heap : Ptr → Session Address Tokenizer
  /-- `plugin->sessions` -/
  sessions : List Ptr
  curConnections : Nat
  lastTag : Nat
  nextXhr : Nat
  xhrs : Nat → Option Xhr
  puts : List Put
  /-- the tasks of `client_session_timeout`, with their closures -/
  tasks : List (Task × Ptr)
  stack : List (Frame Peer Message)
  failed : Option Assertion

inductive Event (Address Peer : Type) where
  /-- `s` and `task` are what `GNUNET_new` and the scheduler return -/
  | getSession (address : Address) (s : Ptr) (task : Task) (now : Nat)
  | send (s : Ptr) (msgbuf : List UInt8) (cont contCls : Ptr)
  | disconnectSession (s : Ptr)
  | disconnectPeer (target : Peer)
  | updateSessionTimeout (s : Ptr) (now : Nat)
  | updateInboundDelay (s : Ptr) (delay now : Nat)
  /-- `destroy_session_cb` is called for a session -/
  | destroySession (s : Ptr)
  | peerDisconnected
  | sessionEnded
  /-- `env->receive` returns `delay`; the clock is read twice -/
  | received (delay now now' : Nat)
  | transmitted
  | load (get : Nat) (response : List UInt8) (now : Nat)
  | error (get : Nat)
  | timeout (get : Nat)
  | putLoad (i : Nat)
  | putError (i : Nat)
  /-- a task runs; `task'` is the next one, if there is one -/
  | run (task : Task) (now : Nat) (task' : Task)

inductive Output (Address Message : Type) where
  | returned (s : Option Ptr)
  | sessionEnd (address : Address) (s : Ptr)
  | receive (address : Address) (s : Ptr) (message : Message)
  | transmitCont (cont contCls target : Ptr) (result : Int) (size physical : Nat)
  | get (get : Nat) (url : String)
  | put (url : Option String) (data : List UInt8)
  deriving DecidableEq

variable {Address Peer Sockaddr Tokenizer Message : Type}

namespace State

/-- An assertion fails. -/
def fail (st : State Address Peer Tokenizer Message) (a : Assertion) :
    State Address Peer Tokenizer Message :=
  { st with failed := some a }

/-- A change of a session in memory. -/
def setSession (st : State Address Peer Tokenizer Message) (s : Ptr)
    (x : Session Address Tokenizer) : State Address Peer Tokenizer Message :=
  { st with heap := Function.update st.heap s x }

def setXhr (st : State Address Peer Tokenizer Message) (get : Nat) (x : Xhr) :
    State Address Peer Tokenizer Message :=
  { st with xhrs := Function.update st.xhrs get (some x) }

/-- `abort_xhr` -/
def abortXhr (st : State Address Peer Tokenizer Message) (get : Nat) :
    State Address Peer Tokenizer Message :=
  match st.xhrs get with
  | some x => st.setXhr get { x with isOpen := false }
  | none => st

/-- `xhr.resend()` -/
def resend (st : State Address Peer Tokenizer Message) (get : Nat) :
    State Address Peer Tokenizer Message × List (Output Address Message) :=
  match st.xhrs get with
  | some x => (st.setXhr get { x with isOpen := true }, [.get get (x.url ++ ",1")])
  | none => (st, [])

def push (st : State Address Peer Tokenizer Message) (f : Frame Peer Message) :
    State Address Peer Tokenizer Message :=
  { st with stack := f :: st.stack }

/-- `GNUNET_SCHEDULER_cancel` for the timeout task of a session. -/
def cancelTimeout (st : State Address Peer Tokenizer Message) (s : Ptr) :
    State Address Peer Tokenizer Message :=
  match (st.heap s).timeoutTask with
  | some task =>
    { st.setSession s { st.heap s with timeoutTask := none, timeout := 0 } with
      tasks := st.tasks.filter fun t => t.1 ≠ task }
  | none => st

/-- `GNUNET_free (s->url)` -/
def freeUrl (st : State Address Peer Tokenizer Message) (s : Ptr) :
    State Address Peer Tokenizer Message :=
  if (st.heap s).url = none then st.fail .url else st

/-- `client_delete_session` -/
def clientDeleteSession (st : State Address Peer Tokenizer Message) (s : Ptr) :
    State Address Peer Tokenizer Message :=
  let st := st.cancelTimeout s
  if s ∉ st.sessions then st.fail .remove
  else
    let st := { st with sessions := st.sessions.erase s }
    if (st.heap s).get = 0 then (st.setSession s { st.heap s with msgTk := none }).freeUrl s
    else if st.curConnections = 0 then st.fail .connections
    else
      let st := { st with curConnections := st.curConnections - 1 }.abortXhr (st.heap s).get
      (st.setSession s { st.heap s with get := 0, msgTk := none }).freeUrl s

/-- `client_reschedule_session_timeout` -/
def clientRescheduleSessionTimeout (env : Env Address Peer Sockaddr Tokenizer Message)
    (st : State Address Peer Tokenizer Message) (s : Ptr) (now : Nat) :
    State Address Peer Tokenizer Message :=
  if (st.heap s).timeoutTask = none then st.fail .timeoutTask
  else st.setSession s { st.heap s with timeout := absoluteAdd now env.idleTimeout }

/-- `http_client_plugin_session_disconnect` up to the call of `env->session_end` -/
def sessionDisconnect (st : State Address Peer Tokenizer Message) (s : Ptr) :
    State Address Peer Tokenizer Message × List (Output Address Message) :=
  (st.push (.sessionEnd s), [.sessionEnd (st.heap s).address s])

/-- `client_lookup_session` -/
def clientLookupSession [DecidableEq Address] (st : State Address Peer Tokenizer Message)
    (address : Address) : Option Ptr :=
  st.sessions.find? fun s => (st.heap s).address = address

/-- `client_connect_get`, with `client_connect_get_int` -/
def clientConnectGet (st : State Address Peer Tokenizer Message) (s : Ptr) (url : String) :
    State Address Peer Tokenizer Message × List (Output Address Message) :=
  let get := st.nextXhr
  let st := st.setSession s { st.heap s with get := get }
  let st := { st with nextXhr := get + 1, curConnections := st.curConnections + 1 }
  (st.setXhr get ⟨s, url, false⟩).resend get

/-- `client_connect`; `none` is `GNUNET_SYSERR`. -/
def clientConnect (env : Env Address Peer Sockaddr Tokenizer Message)
    (st : State Address Peer Tokenizer Message) (s : Ptr) :
    Option (State Address Peer Tokenizer Message × List (Output Address Message)) :=
  match env.addressToString (st.heap s).address with
  | none => none
  | some _ =>
    let url := env.addressToUrl (st.heap s).address ++ "/" ++ env.myIdentity ++ ";" ++
      toString st.lastTag
    let st := st.setSession s { st.heap s with url := some url }
    some ({ st with lastTag := st.lastTag + 1 }.clientConnectGet s url)

/-- The session that is made at `s`, and what becomes of it. -/
def newSession (env : Env Address Peer Sockaddr Tokenizer Message)
    (st : State Address Peer Tokenizer Message) (address : Address) (scope : NetworkType) (s : Ptr)
    (task : Task) (now : Nat) :
    State Address Peer Tokenizer Message × List (Output Address Message) :=
  let st := st.setSession s
    ⟨none, address, 0, none, some task, 0, absoluteAdd now env.sessionTimeout, scope⟩
  let st := { st with tasks := st.tasks ++ [(task, s)], sessions := st.sessions ++ [s] }
  match st.clientConnect env s with
  | none =>
    let st := st.clientDeleteSession s
    (st, if st.failed = none then [.returned none] else [])
  | some (st, os) => (st, os ++ [.returned (some s)])

/-- `http_client_plugin_get_session` -/
def getSession [DecidableEq Address] (env : Env Address Peer Sockaddr Tokenizer Message)
    (st : State Address Peer Tokenizer Message) (address : Address) (s : Ptr) (task : Task)
    (now : Nat) : State Address Peer Tokenizer Message × List (Output Address Message) :=
  if ¬ env.hasAddress address then (st.fail .address, [])
  else
    match st.clientLookupSession address with
    | some s => (st, [.returned (some s)])
    | none =>
      if env.maxConnections ≤ st.curConnections then (st, [.returned none])
      else
        match env.socketFromAddress address with
        | .syserr => (st, [.returned none])
        | .yes none => (st.fail .sockaddr, [])
        | .yes (some sa) =>
          if env.getAddressType sa = .unspecified then (st, [.returned none])
          else st.newSession env address (env.getAddressType sa) s task now
        | .no => st.newSession env address .wan s task now

/-- `http_client_plugin_send` -/
def send (st : State Address Peer Tokenizer Message) (s : Ptr) (msgbuf : List UInt8)
    (cont contCls : Ptr) : State Address Peer Tokenizer Message × List (Output Address Message) :=
  ({ st with puts := st.puts ++ [⟨s, (st.heap s).url, msgbuf, cont, contCls⟩] },
    [.put (st.heap s).url msgbuf])

/-- A PUT request ends; its continuation runs. -/
def putEnds (st : State Address Peer Tokenizer Message) (i : Nat) (result : Int) :
    Option (State Address Peer Tokenizer Message × List (Output Address Message)) :=
  (st.puts[i]?).map fun p =>
    let st := { st with puts := st.puts.eraseIdx i }
    if p.cont = 0 then (st, [])
    else (st.push .transmitCont,
      [.transmitCont p.cont p.contCls p.s result p.data.length p.data.length])

/-- The sessions of a peer. -/
def sessionsOf [DecidableEq Peer] (env : Env Address Peer Sockaddr Tokenizer Message)
    (st : State Address Peer Tokenizer Message) (target : Peer) : List Ptr :=
  st.sessions.filter fun s => env.peer (st.heap s).address = target

/-- `client_receive` goes on with the messages that are left; after the last one, `onload`
sends the request again. -/
def receiveNext (st : State Address Peer Tokenizer Message) (s : Ptr) (get : Nat) :
    List Message → State Address Peer Tokenizer Message × List (Output Address Message)
  | [] => st.resend get
  | m :: left => (st.push (.receive s get left), [.receive (st.heap s).address s m])

/-- `xhr.onload` -/
def onload (env : Env Address Peer Sockaddr Tokenizer Message)
    (st : State Address Peer Tokenizer Message) (get : Nat) (x : Xhr) (response : List UInt8)
    (now : Nat) : State Address Peer Tokenizer Message × List (Output Address Message) :=
  let st := st.setXhr get { x with isOpen := false }
  match clientReceive env (st.heap x.s) now response with
  | none => st.resend get
  | some (session, messages) => (st.setSession x.s session).receiveNext x.s get messages

/-- `client_receive_mst_cb` when `env->receive` has returned. -/
def clientReceiveMstCb (env : Env Address Peer Sockaddr Tokenizer Message)
    (st : State Address Peer Tokenizer Message) (s : Ptr) (delay now now' : Nat) :
    State Address Peer Tokenizer Message :=
  (st.setSession s (setNextReceive (st.heap s) delay now)).clientRescheduleSessionTimeout env s now'

/-- `client_session_timeout` -/
def clientSessionTimeout (st : State Address Peer Tokenizer Message) (s : Ptr) (now : Nat)
    (task' : Task) : State Address Peer Tokenizer Message × List (Output Address Message) :=
  let st := st.setSession s { st.heap s with timeoutTask := none }
  if getRemaining now (st.heap s).timeout ≠ 0 then
    let st := st.setSession s { st.heap s with timeoutTask := some task' }
    ({ st with tasks := st.tasks ++ [(task', s)] }, [])
  else st.sessionDisconnect s

/-- The transport service can call: nothing runs, or one of its callbacks. -/
def Callable (st : State Address Peer Tokenizer Message) : Prop :=
  match st.stack with
  | .peerDisconnect _ _ :: _ => False
  | _ => True

instance (st : State Address Peer Tokenizer Message) : Decidable st.Callable := by
  unfold Callable
  split <;> infer_instance

/-- The task is not one that is pending. -/
def FreshTask (st : State Address Peer Tokenizer Message) (task : Task) : Prop :=
  task ∉ st.tasks.map Prod.fst

instance (st : State Address Peer Tokenizer Message) (task : Task) :
    Decidable (st.FreshTask task) :=
  inferInstanceAs (Decidable (_ ∉ _))

variable [DecidableEq Address] [DecidableEq Peer]

/-- One event.  The transport service calls with sessions of the plugin only. -/
def step (env : Env Address Peer Sockaddr Tokenizer Message)
    (st : State Address Peer Tokenizer Message) :
    Event Address Peer →
      Option (State Address Peer Tokenizer Message × List (Output Address Message))
  | e =>
    if st.failed ≠ none then none
    else match e with
    | .getSession address s task now =>
      if st.Callable ∧ s ≠ 0 ∧ s ∉ st.sessions ∧ st.FreshTask task then
        some (st.getSession env address s task now)
      else none
    | .send s msgbuf cont contCls =>
      if st.Callable ∧ s ∈ st.sessions then some (st.send s msgbuf cont contCls) else none
    | .disconnectSession s =>
      if st.Callable ∧ s ∈ st.sessions then some (st.sessionDisconnect s) else none
    | .disconnectPeer target =>
      if st.Callable then some (st.push (.peerDisconnect target (st.sessionsOf env target)), [])
      else none
    | .updateSessionTimeout s now =>
      if st.Callable ∧ s ∈ st.sessions then
        some (st.clientRescheduleSessionTimeout env s now, [])
      else none
    | .updateInboundDelay s delay now =>
      if st.Callable ∧ s ∈ st.sessions then
        some (st.setSession s (setNextReceive (st.heap s) delay now), [])
      else none
    | .destroySession s =>
      match st.stack with
      | .peerDisconnect target left :: rest =>
        if s ∈ left ∧ s ∈ st.sessionsOf env target then
          some ({ st with stack := .peerDisconnect target (left.erase s) :: rest }.sessionDisconnect
            s)
        else none
      | _ => none
    | .peerDisconnected =>
      match st.stack with
      | .peerDisconnect target left :: rest =>
        if ∀ s ∈ left, s ∉ st.sessionsOf env target then some ({ st with stack := rest }, [])
        else none
      | _ => none
    | .sessionEnded =>
      match st.stack with
      | .sessionEnd s :: rest => some ({ st with stack := rest }.clientDeleteSession s, [])
      | _ => none
    | .received delay now now' =>
      match st.stack with
      | .receive s get left :: rest =>
        let st := { st with stack := rest }.clientReceiveMstCb env s delay now now'
        some (if st.failed = none then st.receiveNext s get left else (st, []))
      | _ => none
    | .transmitted =>
      match st.stack with
      | .transmitCont :: rest => some ({ st with stack := rest }, [])
      | _ => none
    | .load get response now =>
      match st.stack, st.xhrs get with
      | [], some x => if x.isOpen then some (st.onload env get x response now) else none
      | _, _ => none
    | .error get =>
      match st.stack, st.xhrs get with
      | [], some x =>
        if x.isOpen then some ((st.setXhr get { x with isOpen := false }).sessionDisconnect x.s)
        else none
      | _, _ => none
    | .timeout get =>
      match st.stack, st.xhrs get with
      | [], some x => if x.isOpen then some (st.resend get) else none
      | _, _ => none
    | .putLoad i => if st.stack.isEmpty then st.putEnds i 1 else none
    | .putError i => if st.stack.isEmpty then st.putEnds i (-1) else none
    | .run task now task' =>
      match st.stack, st.tasks.find? fun t => t.1 = task with
      | [], some t =>
        let st := { st with tasks := st.tasks.filter fun t => t.1 ≠ task }
        if st.FreshTask task' then some (st.clientSessionTimeout t.2 now task') else none
      | _, _ => none

/-- The plugin after `libgnunet_plugin_transport_http_client_init`; the memory holds
anything without tasks. -/
def init (heap : Ptr → Session Address Tokenizer) : State Address Peer Tokenizer Message where
  heap := heap
  sessions := []
  curConnections := 0
  lastTag := 1
  nextXhr := 1
  xhrs := fun _ => none
  puts := []
  tasks := []
  stack := []
  failed := none

/-- The plugin among the transport service, the browser and the scheduler. -/
def system (env : Env Address Peer Sockaddr Tokenizer Message)
    (heap : Ptr → Session Address Tokenizer) :
    EventSystem (State Address Peer Tokenizer Message) (Event Address Peer)
      (Output Address Message) :=
  ⟨init heap, step env⟩

end State

end GnunetWeb.HttpClient
