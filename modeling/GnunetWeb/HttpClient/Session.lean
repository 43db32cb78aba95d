import GnunetWeb.Heap

/-!
# A session of the HTTP client

`struct GNUNET_ATS_Session` of `plugin_transport_http_client_emscripten.c`, and the
functions that look at one session only.  `Env` is what lies outside: addresses and
their URLs, the message stream tokenizer, the configuration and the time constants.
-/

namespace GnunetWeb.HttpClient

/-- `enum GNUNET_NetworkType` -/
inductive NetworkType where
  | unspecified
  | loopback
  | lan
  | wan
  | wlan
  | bt
  deriving DecidableEq, Repr

/-- What `http_common_socket_from_address` returns with `GNUNET_SYSERR`, `GNUNET_NO` and
`GNUNET_YES`; `none` is `NULL`. -/
inductive SocketResult (Sockaddr : Type) where
  | syserr
  | no
  | yes (sa : Option Sockaddr)

structure Env (Address Peer Sockaddr Tokenizer Message : Type) where
  /-- `address->peer` -/
  peer : Address → Peer
  /-- `NULL != address->address` -/
  hasAddress : Address → Bool
  socketFromAddress : Address → SocketResult Sockaddr
  getAddressType : Sockaddr → NetworkType
  /-- `http_common_plugin_address_to_string`; `none` is `NULL` -/
  addressToString : Address → Option String
  addressToUrl : Address → String
  /-- `GNUNET_i2s_full (plugin->env->my_identity)` -/
  myIdentity : String
  /-- `plugin->max_connections` -/
  maxConnections : Nat
  /-- `HTTP_CLIENT_SESSION_TIMEOUT` -/
  sessionTimeout : Nat
  /-- `GNUNET_CONSTANTS_IDLE_CONNECTION_TIMEOUT` -/
  idleTimeout : Nat
  /-- `GNUNET_MST_create` -/
  mstCreate : Tokenizer
  /-- `GNUNET_MST_from_buffer`: the messages that are complete, and what the tokenizer
  keeps -/
  mstFromBuffer : Tokenizer → List UInt8 → List Message × Tokenizer

/-- Tasks of the scheduler. -/
abbrev Task := Nat

structure Session (Address Tokenizer : Type) where
  url : Option String
  address : Address
  /-- `0` when there is no GET request -/
  get : Nat
  msgTk : Option Tokenizer
  timeoutTask : Option Task
  nextReceive : Nat
  timeout : Nat
  scope : NetworkType

/-- `GNUNET_TIME_UNIT_FOREVER_ABS` -/
def forever : Nat := 18446744073709551615

/-- `GNUNET_TIME_absolute_add`, and `GNUNET_TIME_relative_to_absolute` at the time
`start`. -/
def absoluteAdd (start duration : Nat) : Nat := min (start + duration) forever

/-- `GNUNET_TIME_absolute_get_remaining` at the time `now` -/
def getRemaining (now future : Nat) : Nat := if future = forever then forever else future - now

variable {Address Peer Sockaddr Tokenizer Message : Type}

/-- `client_receive`.  With `none` it returns 0 and leaves the session as it is;
otherwise all of the stream has been given to the tokenizer, and the messages are those
that are passed to `client_receive_mst_cb`. -/
def clientReceive (env : Env Address Peer Sockaddr Tokenizer Message)
    (s : Session Address Tokenizer) (now : Nat) (stream : List UInt8) :
    Option (Session Address Tokenizer × List Message) :=
  if now < s.nextReceive then none
  else
    let r := env.mstFromBuffer (s.msgTk.getD env.mstCreate) stream
    some ({ s with msgTk := some r.2 }, r.1)

/-- `s->next_receive`, as `client_receive_mst_cb` sets it after `env->receive` has
returned `delay`, and `http_client_plugin_update_inbound_delay`. -/
def setNextReceive (s : Session Address Tokenizer) (delay now : Nat) :
    Session Address Tokenizer :=
  { s with nextReceive := absoluteAdd now delay }

end GnunetWeb.HttpClient
