import GnunetWeb.Library.EventSystem
import GnunetWeb.Worker.Scheduler
import GnunetWeb.Worker.Network

/-!
# The events of a service worker

A worker runs one thing at a time: a call of the C code, a timeout, a message on a
port, or a connect message (`get_message` of `pre.js`).  Every callback calls the
handler of a task as its last action, so that the calls that the handler makes are
the events after it.
-/

namespace GnunetWeb

inductive Event (Port : Type) where
  | socketCreate (domain type protocol : Int)
  | socketConnect (desc : Desc) (af : Nat) (path : String) (channel : Option (Port × Port))
      (connected : Bool)
  | socketSend (desc : Desc) (buffer : Ptr) (length : Nat) (posted : Bool)
  | socketClose (desc : Desc)
  | socketBind (desc : Desc) (addressLen : Nat)
  | socketListen (desc : Desc) (backlog : Int)
  | socketAccept (desc : Desc) (addressLen : Int)
  | socketRecv (desc : Desc) (buffer : Ptr) (length : Nat)
  | fdsetIsset (fds desc : Nat)
  | addDelayedWithPriority (delay priority : Nat) (task taskCls : Ptr) (id : TaskId)
  | addReadNet (delay : Nat) (rfd : Desc) (task taskCls : Ptr) (id : TaskId)
  | addWriteNet (delay : Nat) (wfd : Desc) (task taskCls : Ptr) (id : TaskId)
  | cancel (task : TaskId)
  | timeout (id : TaskId)
  | message (port : Port) (data : Data)
  | connect (data : Incoming Port)
  | store (buffer : Ptr) (data : List UInt8)

namespace Worker

variable {Port : Type} [DecidableEq Port]

/-- The connect branch of `get_message`.  When the listening descriptor has left
the table, the exception is caught. -/
def getMessage (w : Worker Port) (data : Incoming Port) : Worker Port × List (Output Port) :=
  let w := w.setIncoming (w.incoming ++ [data])
  match w.listening with
  | none => (w, [])
  | some desc =>
    match w.sockets desc with
    | none => (w, [.threw])
    | some s => w.wake s

/-- What a caller sees of `fdset_isset`. -/
def issetReply : Option Nat → List (Output Port)
  | none => [.threw]
  | some n => [.reply ⟨n, none⟩]

/-- `setTimeout` returns a positive id that it has not returned before. -/
def freshId (w : Worker Port) (id : TaskId) : Bool := id ≠ 0 ∧ (w.callbacks id).isNone

/-- One event.  A descriptor that is connected or bound is one that
`socket_create` or `socket_accept` has returned. -/
def step (w : Worker Port) : Event Port → Option (Worker Port × List (Output Port))
  | .socketCreate domain type protocol => some (w.socketCreate domain type protocol)
  | .socketConnect desc af path channel connected =>
    if desc < w.nextSocket then some (w.socketConnect desc af path channel connected) else none
  | .socketSend desc buffer length posted => some (w.socketSend desc buffer length posted)
  | .socketClose desc => some (w.socketClose desc)
  | .socketBind desc addressLen =>
    if desc < w.nextSocket then some (w.socketBind desc addressLen) else none
  | .socketListen desc backlog => some (w.socketListen desc backlog)
  | .socketAccept desc addressLen => some (w.socketAccept desc addressLen)
  | .socketRecv desc buffer length => some (w.socketRecv desc buffer length)
  | .fdsetIsset fds desc =>
    some (w, issetReply (w.fdsetIsset fds desc))
  | .addDelayedWithPriority delay priority task taskCls id =>
    if w.freshId id then some (w.schedulerAddDelayedWithPriority delay priority task taskCls id)
    else none
  | .addReadNet delay rfd task taskCls id =>
    if w.freshId id then some (w.schedulerAddReadNet delay rfd task taskCls id) else none
  | .addWriteNet delay wfd task taskCls id =>
    if w.freshId id then some (w.schedulerAddWriteNet delay wfd task taskCls id) else none
  | .cancel task => some (w.schedulerCancel task)
  | .timeout id =>
    if w.armed id then (w.callbacks id).map ((w.clearTimeout id).runCallback id) else none
  | .message port data => (w.onmessage port).map fun s => w.portMessage s data
  | .connect data => some (w.getMessage data)
  | .store buffer data => some (w.store buffer data, [])

/-- The worker as an event-driven system. -/
def system : EventSystem (Worker Port) (Event Port) (Output Port) where
  init := init
  step := step

end Worker

end GnunetWeb
