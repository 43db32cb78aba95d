import GnunetWeb.Worker.State

/-!
# The sockets of a service worker

`network.js`; the names are without `GNUNET_NETWORK_`.  A stream socket is a message port
with a queue of the messages that have arrived.  Whether the browser has a `MessageChannel`,
whether `client_connect` and whether `postMessage` throw are arguments here.
-/

namespace GnunetWeb.Worker

variable {Port : Type} [DecidableEq Port]

def socketCreate (w : Worker Port) (domain type protocol : Int) :
    Worker Port × List (Output Port) :=
  if domain ≠ 1 then (w, [.reply ⟨0, some .EAFNOSUPPORT⟩])
  else if type ≠ 1 ∨ protocol ≠ 0 then (w, [.reply ⟨0, some .EPROTONOSUPPORT⟩])
  else ({ w with nextSocket := w.nextSocket + 1 }, [.reply ⟨w.nextSocket, none⟩])

/-- `GNUNET_NETWORK_socket_connect`, with the address family and the path of the
address; `channel` is the new channel, and `connected` says whether the peer was
asked to connect without an exception. -/
def socketConnect (w : Worker Port) (desc : Desc) (af : Nat) (path : String)
    (channel : Option (Port × Port)) (connected : Bool) : Worker Port × List (Output Port) :=
  match w.sockets desc with
  | some _ => (w, [.reply ⟨-1, some .EISCONN⟩])
  | none =>
    if af ≠ 1 then (w, [.reply ⟨-1, some .EAFNOSUPPORT⟩])
    else match channel with
    | none => (w, [.reply ⟨-1, some .ENETUNREACH⟩])
    | some (port1, port2) =>
      let w := (w.newSocket desc (some ⟨port1, path, []⟩)).setOnmessage port1 w.nextObject
      if connected then (w, [.clientConnect path port2, .reply ⟨1, none⟩])
      else (w, [.reply ⟨-1, some .ENETUNREACH⟩])

/-- The handler of a port: the message is queued, and a read task is run. -/
def portMessage (w : Worker Port) (socket : SocketRef) (data : Data) :
    Worker Port × List (Output Port) :=
  let queue := ((w.objects socket).stream.map fun st => st.queue).getD []
  (w.setQueue socket (queue ++ [data])).wake socket

def view (w : Worker Port) (buffer : Ptr) (length : Nat) : List UInt8 :=
  (List.range length).map fun i => w.heap8 (buffer + i)

/-- `HEAP8.set(data, buffer)` -/
def store (w : Worker Port) (buffer : Ptr) (data : List UInt8) : Worker Port :=
  { w with heap8 := fun a =>
      if buffer ≤ a then (data[a - buffer]?).getD (w.heap8 a) else w.heap8 a }

/-- `GNUNET_NETWORK_socket_send`; `posted` says whether `postMessage` did not throw. -/
def socketSend (w : Worker Port) (desc : Desc) (buffer : Ptr) (length : Nat) (posted : Bool) :
    Worker Port × List (Output Port) :=
  match w.sockets desc with
  | none => (w, [.reply ⟨-1, some .ENOTCONN⟩])
  | some s =>
    let view := w.view buffer length
    match (w.objects s).stream with
    | none => (w, [.reply ⟨-1, some .ECONNRESET⟩])
    | some st =>
      if posted then (w, [.posted st.port (.bytes view), .reply ⟨length, none⟩])
      else (w, [.reply ⟨-1, some .ECONNRESET⟩])

/-- `GNUNET_NETWORK_socket_close`.  The handler of the port stays, and with it the
socket object and its task. -/
def socketClose (w : Worker Port) (desc : Desc) : Worker Port × List (Output Port) :=
  match w.sockets desc with
  | none => (w, [.reply ⟨1, none⟩])
  | some s =>
    match (w.objects s).stream with
    | none => (w.deleteSocket desc, [.reply ⟨1, none⟩])
    | some st =>
      (w.deleteSocket desc, [.posted st.port .close, .closed st.port, .reply ⟨1, none⟩])

def socketBind (w : Worker Port) (desc : Desc) (addressLen : Nat) :
    Worker Port × List (Output Port) :=
  match w.sockets desc with
  | some _ => (w, [.reply ⟨-1, some .EINVAL⟩])
  | none =>
    if addressLen ≠ 110 then (w, [.reply ⟨-1, some .EINVAL⟩])
    else (w.newSocket desc none, [.reply ⟨1, none⟩])

def socketListen (w : Worker Port) (desc : Desc) (_backlog : Int) :
    Worker Port × List (Output Port) :=
  match w.listening with
  | some _ => (w, [.reply ⟨-1, none⟩])
  | none => ({ w with listening := some desc }, [.reply ⟨1, none⟩])

/-- `GNUNET_NETWORK_socket_accept`, with the length that `address_len` points to. -/
def socketAccept (w : Worker Port) (desc : Desc) (addressLen : Int) :
    Worker Port × List (Output Port) :=
  if w.listening ≠ some desc then (w, [.reply ⟨0, some .EINVAL⟩])
  else match w.incoming with
  | [] => (w, [.reply ⟨0, some .EWOULDBLOCK⟩])
  | data :: incoming =>
    if addressLen < 110 then (w, [.reply ⟨0, some .EINVAL⟩])
    else
      let sd := w.nextSocket
      let w := { w with incoming, nextSocket := sd + 1 }
      ((w.newSocket sd (some ⟨data.port, data.clientName, []⟩)).setOnmessage data.port w.nextObject,
        [.reply ⟨sd, none⟩])

def socketRecv (w : Worker Port) (desc : Desc) (buffer : Ptr) (length : Nat) :
    Worker Port × List (Output Port) :=
  match w.sockets desc with
  | none => (w, [.reply ⟨-1, some .ENOTCONN⟩])
  | some s =>
    match (w.objects s).stream with
    | none => (w, [.threw])
    | some st =>
      match st.queue with
      | [] => (w, [.reply ⟨-1, some .EWOULDBLOCK⟩])
      | .close :: _ => (w, [.reply ⟨0, none⟩])
      | .bytes data :: rest =>
        let sub := data.take length
        let queue :=
          if sub.length = data.length then rest else .bytes (data.drop sub.length) :: rest
        ((w.store buffer sub).setQueue s queue, [.read st.port sub, .reply ⟨sub.length, none⟩])

/-- `GNUNET_NETWORK_fdset_isset`.  It throws on a bound socket that does not listen. -/
def fdsetIsset (w : Worker Port) (fds desc : Nat) : Option Nat :=
  if fds = 2 then some 1
  else if w.listening = some desc then some w.incoming.length
  else match w.sockets desc with
  | none => some 0
  | some s => (w.objects s).stream.map fun st => st.queue.length

end GnunetWeb.Worker
