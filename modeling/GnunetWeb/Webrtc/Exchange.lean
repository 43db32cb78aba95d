import GnunetWeb.Webrtc
import Mathlib.Data.List.TakeWhile

/-!
# Offers and answers

Any number of peers that run the WebRTC plugin, with the windows in which their
`RTCPeerConnection` objects live (`plugin_transport_webrtc_int.js`, `webrtc.cljs`) and the
CADET channels between them.  A window makes an offer for a dial, which goes through the
plugin to the peer that is dialled; a window there makes an answer, which goes the same way
back.  All of this is done in the first window that has connected to the worker (`pre.js`),
as long as it is open.  Session descriptions are the UTF-8 bytes of their texts.
-/

namespace GnunetWeb.Webrtc

abbrev Sdp := List UInt8

/-- A C string ends at its first zero byte. -/
def cString (sdp : Sdp) : Sdp := sdp.takeWhile (· ≠ 0)

theorem cString_cString (sdp : Sdp) : cString (cString sdp) = cString sdp :=
  List.takeWhile_idem

/-- One end of a CADET channel. -/
structure ChannelEnd where
  id : Nat
  incoming : Bool
  deriving DecidableEq

/-- `MESSAGE_TYPE_WEBRTC_OFFER` and `MESSAGE_TYPE_WEBRTC_ANSWER`; also the types of the
messages between a window and the plugin. -/
inductive Message where
  | offer (sdp : Sdp)
  | answer (sdp : Sdp)
  deriving DecidableEq

/-- A CADET channel, with the closure of its first end. -/
structure CadetChannel (Peer : Type) where
  initiator : Peer
  cls : Ptr
  target : Peer
  toTarget : List Message
  toInitiator : List Message

/-- What the window is doing with a connection. -/
inductive Work where
  /-- there was no window to post `peer_connect` to -/
  | unposted
  /-- the `peer_connect` message has not come yet -/
  | posted
  /-- `createOffer` -/
  | creatingOffer
  /-- `setRemoteDescription` with the offer -/
  | settingOffer
  /-- `createAnswer` -/
  | creatingAnswer
  /-- its own description is made -/
  | described
  /-- its promise has been rejected, which nothing handles -/
  | rejected
  deriving DecidableEq

/-- A promise is under way. -/
def Work.promised : List Work := [.creatingOffer, .settingOffer, .creatingAnswer]

/-- A connection that `peer_connect` has made: in `CONNECTIONS` the port, in a window the
`RTCPeerConnection`. -/
structure Connection where
  cls : Ptr
  /-- with an offer the callback is `answer_cb`, without one `offer_cb` -/
  offer : Option Sdp
  work : Work
  localDescription : Option Sdp
  /-- the messages on their way to `port.onmessage` -/
  toPlugin : List Message
  /-- the answers on their way to `message_port` -/
  toWindow : List Sdp
  /-- the answers that `setRemoteDescription` has been called with -/
  answers : List Sdp
  deriving DecidableEq

/-- `peer_connect`; `window` is the one of `do_to_window`. -/
def peerConnect (window : Option Bool) (offer : Option Sdp) (cls : Ptr) : Connection :=
  ⟨cls, offer.map cString, if window = none then .unposted else .posted, none, [], [], []⟩

/-- The peers with their plugins, and what is between them. -/
structure Net (Peer : Type) where
  /-- `windows`, from which no port is ever removed; whether each window is open -/
  windows : Peer → List Bool
  plugin : Peer → State Peer ChannelEnd
  connections : Peer → Nat → Option Connection
  channels : Nat → Option (CadetChannel Peer)
  nextChannel : Nat

namespace Net

inductive Event (Peer : Type) where
  /-- `onconnect` of `pre.js` -/
  | onconnect (p : Peer)
  /-- a window is closed -/
  | close (p : Peer) (w : Nat)
  /-- `webrtc_plugin_get_session` at `p` for `q`; `opens` if CADET creates a channel -/
  | getSession (p q : Peer) (s : Ptr) (opens : Bool)
  /-- `connect_cb` at the target of the channel -/
  | connect (c : Nat) (s : Ptr)
  /-- `handle_offer` at its target -/
  | handleOffer (c : Nat)
  /-- `handle_answer` at its initiator -/
  | handleAnswer (c : Nat)
  /-- the window handles `peer_connect` -/
  | peerConnect (p : Peer) (n : Nat)
  /-- the promise of `createOffer` -/
  | offerCreated (p : Peer) (n : Nat) (sdp : Sdp)
  /-- the promise of `setRemoteDescription` -/
  | offerSet (p : Peer) (n : Nat)
  /-- the promise of `createAnswer` -/
  | answerCreated (p : Peer) (n : Nat) (sdp : Sdp)
  /-- one of these promises is rejected -/
  | rejected (p : Peer) (n : Nat)
  /-- `port.onmessage` in the plugin -/
  | pluginMessage (p : Peer) (n : Nat)
  /-- `message_port.onmessage` in the window -/
  | windowMessage (p : Peer) (n : Nat)

variable {Peer : Type} [DecidableEq Peer]

def init : Net Peer := ⟨fun _ => [], fun _ => .init, fun _ _ => none, fun _ => none, 0⟩

def setWindows (st : Net Peer) (p : Peer) (windows : List Bool) : Net Peer :=
  { st with windows := Function.update st.windows p windows }

def setPlugin (st : Net Peer) (p : Peer) (plugin : State Peer ChannelEnd) : Net Peer :=
  { st with plugin := Function.update st.plugin p plugin }

def setConnection (st : Net Peer) (p : Peer) (n : Nat) (conn : Connection) : Net Peer :=
  { st with
      connections := Function.update st.connections p
        (Function.update (st.connections p) n (some conn)) }

def setChannel (st : Net Peer) (c : Nat) (channel : CadetChannel Peer) : Net Peer :=
  { st with channels := Function.update st.channels c (some channel) }

/-- The window that `do_to_window` posts to, which may have been closed. -/
def doToWindow (st : Net Peer) (p : Peer) : Option Bool := (st.windows p).head?

/-- The calls of `peer_connect` among the outputs of a plugin; the first one takes the number
`n`. -/
def perform (st : Net Peer) (p : Peer) (n : Nat) : List Output → Net Peer
  | [] => st
  | .peerConnect offer s :: os =>
    (st.setConnection p n (peerConnect (st.doToWindow p) offer s)).perform p (n + 1) os
  | _ :: os => st.perform p n os

/-- One event of a plugin. -/
def pluginStep (st : Net Peer) (p : Peer) (e : Webrtc.Event Peer ChannelEnd) : Option (Net Peer) :=
  ((st.plugin p).step e).map fun r =>
    (st.setPlugin p r.1).perform p (st.plugin p).nextConnection r.2

/-- `webrtc_plugin_get_session`; a channel is created for a peer without a session. -/
def getSession (st : Net Peer) (p q : Peer) (s : Ptr) (opens : Bool) : Option (Net Peer) :=
  if opens = true ∧ (st.plugin p).multipeermapGet q = none then
    ({ st.setChannel st.nextChannel ⟨p, s, q, [], []⟩ with
        nextChannel := st.nextChannel + 1 }).pluginStep p
      (.getSession q s (some ⟨st.nextChannel, false⟩))
  else st.pluginStep p (.getSession q s none)

/-- `GNUNET_MQ_send` on one end of a channel. -/
def send (st : Net Peer) (e : ChannelEnd) (msg : Message) : Option (Net Peer) :=
  (st.channels e.id).map fun ch =>
    st.setChannel e.id
      (if e.incoming then { ch with toInitiator := ch.toInitiator ++ [msg] }
      else { ch with toTarget := ch.toTarget ++ [msg] })

/-- `offer_cb` and `answer_cb`, of the message with its type.  The size of a message is a
`uint16_t`; a description that does not fit is written past the message. -/
def sendDescription (st : Net Peer) (p : Peer) (s : Ptr) (type : Sdp → Message) (sdp : Sdp) :
    Option (Net Peer) :=
  if (st.plugin p).failed = none ∧ (cString sdp).length + 4 < 65536 then
    ((st.plugin p).heap s).bind fun x => x.channel.bind fun e => st.send e (type (cString sdp))
  else none

/-- `handle_answer` and `set_remote_answer` -/
def handleAnswer (st : Net Peer) (p : Peer) (s : Ptr) (sdp : Sdp) : Option (Net Peer) :=
  if (st.plugin p).failed = none then
    ((st.plugin p).heap s).bind fun x =>
      (st.connections p x.rtcPeerConnection).map fun port =>
        st.setConnection p x.rtcPeerConnection
          { port with toWindow := port.toWindow ++ [cString sdp] }
  else none

/-- `peer-connect` in the window; `empty?` holds of no offer and of an empty one. -/
def Connection.start (conn : Connection) : Connection :=
  { conn with work := if conn.offer.getD [] = [] then .creatingOffer else .settingOffer }

/-- `setLocalDescription` and the message to the plugin. -/
def Connection.describe (conn : Connection) (type : Sdp → Message) (sdp : Sdp) : Connection :=
  { conn with
      work := .described
      localDescription := some sdp
      toPlugin := conn.toPlugin ++ [type sdp] }

/-- `message_port.onmessage`, which is set when the connection is made. -/
def Connection.takeAnswer (conn : Connection) : Option Connection :=
  match conn.toWindow with
  | [] => none
  | sdp :: rest =>
    if conn.work = .unposted ∨ conn.work = .posted then none
    else some { conn with toWindow := rest, answers := conn.answers ++ [sdp] }

/-- What a window does with a connection, while it is open. -/
def inWindow (st : Net Peer) (p : Peer) (n : Nat) (f : Connection → Option Connection) :
    Option (Net Peer) :=
  if st.doToWindow p = some true then
    (st.connections p n).bind fun conn => (f conn).map (st.setConnection p n)
  else none

def step (st : Net Peer) : Event Peer → Option (Net Peer)
  | .onconnect p => some (st.setWindows p (st.windows p ++ [true]))
  | .close p w => some (st.setWindows p ((st.windows p).set w false))
  | .getSession p q s opens => st.getSession p q s opens
  | .connect c s =>
    (st.channels c).bind fun ch => st.pluginStep ch.target (.connect ⟨c, true⟩ ch.initiator s)
  | .handleOffer c =>
    (st.channels c).bind fun ch =>
      match ch.toTarget with
      | .offer sdp :: rest =>
        (st.setChannel c { ch with toTarget := rest }).pluginStep ch.target (.offer ⟨c, true⟩ sdp)
      -- there is no handler for other messages
      | _ => none
  | .handleAnswer c =>
    (st.channels c).bind fun ch =>
      match ch.toInitiator with
      | .answer sdp :: rest =>
        (st.setChannel c { ch with toInitiator := rest }).handleAnswer ch.initiator ch.cls sdp
      | _ => none
  | .peerConnect p n =>
    st.inWindow p n fun conn =>
      if conn.work = .posted then some (Connection.start conn) else none
  | .offerCreated p n sdp =>
    st.inWindow p n fun conn =>
      if conn.work = .creatingOffer then some (Connection.describe conn .offer sdp) else none
  | .offerSet p n =>
    st.inWindow p n fun conn =>
      if conn.work = .settingOffer then some { conn with work := .creatingAnswer } else none
  | .answerCreated p n sdp =>
    st.inWindow p n fun conn =>
      if conn.work = .creatingAnswer then some (Connection.describe conn .answer sdp) else none
  | .rejected p n =>
    st.inWindow p n fun conn =>
      if conn.work ∈ Work.promised then some { conn with work := .rejected } else none
  | .pluginMessage p n =>
    (st.connections p n).bind fun conn =>
      match conn.toPlugin with
      | [] => none
      | msg :: rest =>
        let st := st.setConnection p n { conn with toPlugin := rest }
        match msg, conn.offer with
        | .offer sdp, none => st.sendDescription p conn.cls .offer sdp
        | .answer sdp, some _ => st.sendDescription p conn.cls .answer sdp
        -- `unhandled message on webrtc message channel`
        | _, _ => some st
  | .windowMessage p n => st.inWindow p n Connection.takeAnswer

def system : EventSystem (Net Peer) (Event Peer) Unit :=
  ⟨init, fun st e => (st.step e).map fun st' => (st', [])⟩

end Net

end GnunetWeb.Webrtc
