import GnunetWeb.Heap
import Mathlib.Logic.Function.Basic

/-!
# The state of a service worker

The tables of `network.js` and `scheduler.js` (`SOCKETS`, `NEXT_SOCKET`,
`SCHEDULER_TASKS`), the objects that their closures capture, and the state of the
browser that the callbacks depend on: timeouts, message ports, the C memory.

A socket object is known by a reference, since closures keep it when its
descriptor has left the table.
-/

namespace GnunetWeb

abbrev Desc := Nat

/-- What `setTimeout` returns. -/
abbrev TaskId := Nat

abbrev SocketRef := Nat

inductive Errno where
  | EAFNOSUPPORT
  | EPROTONOSUPPORT
  | EISCONN
  | ENETUNREACH
  | ENOTCONN
  | ECONNRESET
  | EINVAL
  | EWOULDBLOCK
  deriving DecidableEq, Repr

/-- What the services post to each other: a typed array, or the string `close`. -/
inductive Data where
  | bytes (data : List UInt8)
  | close
  deriving DecidableEq, Repr

/-- The properties `port`, `name` and `queue` of a connected or accepted socket. -/
structure Stream (Port : Type) where
  port : Port
  name : String
  queue : List Data

/-- A socket object.  A bound socket starts as `{}` and has no stream; `handler`
and `cls` are read only while there is a `task`. -/
structure Socket (Port : Type) where
  stream : Option (Stream Port)
  task : Option TaskId
  handler : Ptr
  cls : Ptr

/-- The data of a connect message. -/
structure Incoming (Port : Type) where
  port : Port
  clientName : String

/-- An entry of `SCHEDULER_TASKS`. -/
structure SchedulerTask where
  cls : Ptr
  socket : Option Desc

/-- The closures that are passed to `setTimeout`, with what they capture. -/
inductive Callback where
  | delayed (task taskCls : Ptr)
  | readNet (rfd : Desc) (socket : SocketRef) (task taskCls : Ptr)
  | writeNet (task taskCls : Ptr)
  deriving DecidableEq

/-- The socket that a task was added for. -/
def Callback.desc : Callback → Option Desc
  | .readNet rfd _ _ _ => some rfd
  | _ => none

def Callback.taskCls : Callback → Ptr
  | .delayed _ taskCls => taskCls
  | .readNet _ _ _ taskCls => taskCls
  | .writeNet _ taskCls => taskCls

def Callback.task : Callback → Ptr
  | .delayed task _ => task
  | .readNet _ _ task _ => task
  | .writeNet task _ => task

structure Worker (Port : Type) where
  /-- `SOCKETS[desc]` -/
  sockets : Desc → Option SocketRef
  listening : Option Desc
  incoming : List (Incoming Port)
  nextSocket : Desc
  schedulerTasks : TaskId → Option SchedulerTask
  /-- the socket objects, and the first reference not given out yet -/
  objects : SocketRef → Socket Port
  nextObject : SocketRef
  /-- the socket object captured by the handler of a port; a port without a handler
  delivers nothing, and one that was closed still delivers what was on its way -/
  onmessage : Port → Option SocketRef
  /-- every closure that was passed to `setTimeout`; ids are never reused -/
  callbacks : TaskId → Option Callback
  /-- the timeouts that have neither fired nor been cleared -/
  armed : TaskId → Bool
  heap8 : Nat → UInt8

/-- What a function returns to C, and the error number that it sets. -/
structure Reply where
  value : Int
  errno : Option Errno
  deriving DecidableEq, Repr

/-- What a step does besides changing the state.  `closed` is `port.close()`;
`registered`, `invoked` and `cancelled` name the task; `invoked` is the call of a
handler with its closure. -/
inductive Output (Port : Type) where
  | reply (r : Reply)
  | posted (port : Port) (data : Data)
  | closed (port : Port)
  | clientConnect (path : String) (port2 : Port)
  | read (port : Port) (data : List UInt8)
  | registered (id : TaskId) (task taskCls : Ptr) (socket : Option Desc)
  | invoked (id : TaskId) (task taskCls : Ptr) (socket : Option Desc)
  | cancelled (id : TaskId) (cls : Ptr)
  | threw

namespace Worker

variable {Port : Type}

def init : Worker Port where
  sockets _ := none
  listening := none
  incoming := []
  nextSocket := 1
  schedulerTasks _ := none
  objects _ := ⟨none, none, 0, 0⟩
  nextObject := 0
  onmessage _ := none
  callbacks _ := none
  armed _ := false
  heap8 _ := 0

/-- `SOCKETS[desc] = {…}` -/
def newSocket (w : Worker Port) (desc : Desc) (stream : Option (Stream Port)) : Worker Port :=
  { w with
    sockets := Function.update w.sockets desc (some w.nextObject)
    objects := Function.update w.objects w.nextObject ⟨stream, none, 0, 0⟩
    nextObject := w.nextObject + 1 }

def setObject (w : Worker Port) (s : SocketRef) (o : Socket Port) : Worker Port :=
  { w with objects := Function.update w.objects s o }

def setQueue (w : Worker Port) (s : SocketRef) (queue : List Data) : Worker Port :=
  w.setObject s { w.objects s with stream := (w.objects s).stream.map fun st => { st with queue } }

/-- `delete socket["task"]` -/
def deleteTask (w : Worker Port) (s : SocketRef) : Worker Port :=
  w.setObject s { w.objects s with task := none }

/-- `delete SCHEDULER_TASKS[id]` -/
def deleteSchedulerTask (w : Worker Port) (id : TaskId) : Worker Port :=
  { w with schedulerTasks := Function.update w.schedulerTasks id none }

def setTimeout (w : Worker Port) (id : TaskId) (callback : Callback) : Worker Port :=
  { w with
    callbacks := Function.update w.callbacks id (some callback)
    armed := Function.update w.armed id true }

def clearTimeout (w : Worker Port) (id : TaskId) : Worker Port :=
  { w with armed := Function.update w.armed id false }

/-- `delete SOCKETS[desc]` -/
def deleteSocket (w : Worker Port) (desc : Desc) : Worker Port :=
  { w with sockets := Function.update w.sockets desc none }

def setIncoming (w : Worker Port) (incoming : List (Incoming Port)) : Worker Port :=
  { w with incoming }

/-- `SCHEDULER_TASKS[id] = {…}` -/
def setSchedulerTask (w : Worker Port) (id : TaskId) (t : SchedulerTask) : Worker Port :=
  { w with schedulerTasks := Function.update w.schedulerTasks id (some t) }

/-- `port.onmessage = function(ev) {…}` -/
def setOnmessage [DecidableEq Port] (w : Worker Port) (port : Port) (s : SocketRef) : Worker Port :=
  { w with onmessage := Function.update w.onmessage port (some s) }

/-- The socket that the table has for a task. -/
def taskSocket (w : Worker Port) (id : TaskId) : Option Desc :=
  (w.schedulerTasks id).bind fun t => t.socket

/-- The socket that a task was added for. -/
def socketOf (w : Worker Port) (id : TaskId) : Option Desc := (w.callbacks id).bind Callback.desc

/-- `if ("task" in socket)`: the task leaves both tables and its handler is called. -/
def wake (w : Worker Port) (s : SocketRef) : Worker Port × List (Output Port) :=
  match (w.objects s).task with
  | none => (w, [])
  | some id =>
    ((w.deleteSchedulerTask id).deleteTask s,
      [.invoked id (w.objects s).handler (w.objects s).cls (w.socketOf id)])

end Worker

end GnunetWeb
