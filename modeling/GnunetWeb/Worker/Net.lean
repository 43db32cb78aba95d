import GnunetWeb.Worker.Events
import GnunetWeb.Library.MessageStream

/-!
# Services that talk to each other

Any number of workers, joined by message channels.  A channel has two ports; what is
posted on one of them arrives at the other in order, once it has a handler.  A port
that is closed still gets what was posted before, and nothing that is posted later.
The second port of a channel travels to a worker with a connect message, by way of a
window that picks the service; `path` is not looked at here, so that the message may
reach any worker.
-/

namespace GnunetWeb

/-- One of the two ports of a channel. -/
structure MessagePort where
  channel : Nat
  side : Bool
  deriving DecidableEq, Repr

/-- The other port of its channel. -/
def MessagePort.peer (p : MessagePort) : MessagePort := { p with side := !p.side }

@[simp] theorem MessagePort.peer_peer (p : MessagePort) : p.peer.peer = p := by
  simp [peer]

@[simp] theorem MessagePort.peer_channel (p : MessagePort) : p.peer.channel = p.channel := rfl

theorem MessagePort.peer_eq_iff {p q : MessagePort} : p.peer = q ↔ p = q.peer :=
  ⟨fun h => by rw [← h, peer_peer], fun h => by rw [h, peer_peer]⟩

structure Net (W : Type) where
  workers : W → Worker MessagePort
  /-- what was posted to a port and has not arrived yet -/
  wire : MessagePort → List Data
  /-- the ports in connect messages that have not arrived yet -/
  connecting : List MessagePort
  /-- the ports that were closed -/
  closed : MessagePort → Bool
  nextChannel : Nat

inductive NetEvent (W : Type) where
  /-- a call or a timeout in a worker -/
  | run (i : W) (e : Event MessagePort)
  /-- the first message for a port arrives -/
  | deliver (i : W) (port : MessagePort)
  /-- a connect message arrives -/
  | connect (i : W) (port : MessagePort) (clientName : String)

inductive NetOutput (W : Type) where
  | worker (i : W) (o : Output MessagePort)
  | delivered (port : MessagePort) (data : Data)

namespace Net

variable {W : Type}

def init : Net W := ⟨fun _ => .init, fun _ => [], [], fun _ => false, 0⟩

/-- Where an output goes. -/
def route (n : Net W) : Output MessagePort → Net W
  | .posted port data =>
    { n with wire :=
        if n.closed port.peer then n.wire
        else Function.update n.wire port.peer (n.wire port.peer ++ [data]) }
  | .closed port => { n with closed := Function.update n.closed port true }
  | .clientConnect _ port2 => { n with connecting := n.connecting ++ [port2] }
  | _ => n

/-- The channel that a call makes is a new one. -/
def allows (n : Net W) : Event MessagePort → Bool
  | .message _ _ => false
  | .connect _ => false
  | .socketConnect _ _ _ (some (port1, port2)) _ =>
    port1 = ⟨n.nextChannel, false⟩ ∧ port2 = ⟨n.nextChannel, true⟩
  | _ => true

def channels : Event MessagePort → Nat
  | .socketConnect _ _ _ (some _) _ => 1
  | _ => 0

variable [DecidableEq W]

/-- A worker has taken a step. -/
def advance (n : Net W) (i : W) (r : Worker MessagePort × List (Output MessagePort)) : Net W :=
  r.2.foldl route { n with workers := Function.update n.workers i r.1 }

def step (n : Net W) : NetEvent W → Option (Net W × List (NetOutput W))
  | .run i e =>
    if n.allows e then
      ((n.workers i).step e).map fun r =>
        ({ n with nextChannel := n.nextChannel + channels e }.advance i r, r.2.map (.worker i))
    else none
  | .deliver i port =>
    match n.wire port with
    | [] => none
    | data :: rest =>
      ((n.workers i).step (.message port data)).map fun r =>
        ({ n with wire := Function.update n.wire port rest }.advance i r,
          .delivered port data :: r.2.map (.worker i))
  | .connect i port clientName =>
    if port ∈ n.connecting then
      ((n.workers i).step (.connect ⟨port, clientName⟩)).map fun r =>
        ({ n with connecting := n.connecting.erase port }.advance i r, r.2.map (.worker i))
    else none

def system : EventSystem (Net W) (NetEvent W) (NetOutput W) where
  init := init
  step := step

/-! ## What a run says -/

/-- The bytes that a call of `send` passes to the port `p`: those of the buffer, as they are
in the memory of the worker at the time of the call. -/
def sentBy (n : Net W) (p : MessagePort) : NetEvent W → List UInt8
  | .run i (.socketSend desc buffer length true) =>
    match (n.workers i).sockets desc with
    | none => []
    | some s =>
      match ((n.workers i).objects s).stream with
      | none => []
      | some st => if st.port = p then (n.workers i).view buffer length else []
  | _ => []

/-- The bytes that were passed to `send` on the port `p`, by the events that follow each
other from a state on. -/
def sent (p : MessagePort) : Net W → List (NetEvent W) → List UInt8
  | _, [] => []
  | n, e :: es => n.sentBy p e ++ ((n.step e).map fun r => sent p r.1 es).getD []

omit [DecidableEq W]

/-- The messages that were posted on a port. -/
def posted (p : MessagePort) (os : List (NetOutput W)) : List Data :=
  os.filterMap fun
    | .worker _ (.posted q data) => if q = p then some data else none
    | _ => none

/-- The messages that have arrived at a port. -/
def delivered (p : MessagePort) (os : List (NetOutput W)) : List Data :=
  os.filterMap fun
    | .delivered q data => if q = p then some data else none
    | _ => none

/-- The bytes that `recv` has returned on a port. -/
def returned (p : MessagePort) (os : List (NetOutput W)) : List UInt8 :=
  os.flatMap fun
    | .worker _ (.read q data) => if q = p then data else []
    | _ => []

end Net

/-- The bytes of a message; `none` for `close`. -/
def Data.payload : Data → Option (List UInt8)
  | .bytes data => some data
  | .close => none

namespace Net

variable {W : Type}

section Histories

variable (p : MessagePort) (os o : List (NetOutput W))

@[simp] theorem delivered_append : delivered p (os ++ o) = delivered p os ++ delivered p o :=
  List.filterMap_append

@[simp] theorem returned_append : returned p (os ++ o) = returned p os ++ returned p o :=
  List.flatMap_append

end Histories

end Net

end GnunetWeb
