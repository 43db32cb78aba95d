import GnunetWeb.Worker.Moves

/-!
# Failed socket calls

A call of `network.js` that fails sets an error number and returns -1, or 0 where it would
return a descriptor.  `socket_connect` puts the socket into the table before it asks the
window to connect, and when the window throws the socket stays there.

Proved here:

* `run_of_failed`: every other call that fails leaves the state as it is;
* `failed_unchanged_iff`: the calls that change nothing when they fail.
-/

namespace GnunetWeb

/-- The calls of `network.js` that can fail, with their arguments. -/
inductive SocketCall (Port : Type) where
  | create (domain type protocol : Int)
  | connect (desc : Desc) (af : Nat) (path : String) (channel : Option (Port × Port))
      (connected : Bool)
  | bind (desc : Desc) (addressLen : Nat)
  | listen (desc : Desc) (backlog : Int)
  | send (desc : Desc) (buffer : Ptr) (length : Nat) (posted : Bool)
  | accept (desc : Desc) (addressLen : Int)
  | recv (desc : Desc) (buffer : Ptr) (length : Nat)

namespace SocketCall

variable {Port : Type}

/-- What the function returns when it fails. -/
def failureValue : SocketCall Port → Int
  | .create _ _ _ => 0
  | .accept _ _ => 0
  | _ => -1

variable [DecidableEq Port]

def run (w : Worker Port) : SocketCall Port → Worker Port × List (Output Port)
  | .create domain type protocol => w.socketCreate domain type protocol
  | .connect desc af path channel connected => w.socketConnect desc af path channel connected
  | .bind desc addressLen => w.socketBind desc addressLen
  | .listen desc backlog => w.socketListen desc backlog
  | .send desc buffer length posted => w.socketSend desc buffer length posted
  | .accept desc addressLen => w.socketAccept desc addressLen
  | .recv desc buffer length => w.socketRecv desc buffer length

end SocketCall

namespace Worker

variable {Port : Type}

/-- The function returns the value. -/
def Returns (r : Worker Port × List (Output Port)) (value : Int) : Prop :=
  ∃ errno, .reply ⟨value, errno⟩ ∈ r.2

/-- The tables of `network.js` are the same: the descriptors with the queues and tasks of
their sockets, the listening descriptor, the incoming queue, the next descriptor. -/
structure Unchanged (w w' : Worker Port) : Prop where
  sockets : ∀ desc,
    (w'.sockets desc).map (fun s => ((w'.objects s).stream.map Stream.queue, (w'.objects s).task)) =
      (w.sockets desc).map fun s => ((w.objects s).stream.map Stream.queue, (w.objects s).task)
  listening : w'.listening = w.listening
  incoming : w'.incoming = w.incoming
  nextSocket : w'.nextSocket = w.nextSocket

theorem Unchanged.refl (w : Worker Port) : Unchanged w w := ⟨fun _ => rfl, rfl, rfl, rfl⟩

/-- A connect that gets as far as the window, which throws. -/
def Refused (w : Worker Port) (c : SocketCall Port) : Prop :=
  ∃ desc path channel, c = .connect desc 1 path (some channel) false ∧ w.sockets desc = none

/-- What a function returns that has one reply. -/
theorem returns_reply {w : Worker Port} {value result : Int} {errno : Option Errno} :
    Returns (w, [.reply ⟨result, errno⟩]) value ↔ value = result := by
  simp [Returns]

/-! ## The functions -/

section Functions

variable {w : Worker Port}

theorem socketCreate_of_returns (hnext : 0 < w.nextSocket) {domain type protocol : Int}
    (h : Returns (w.socketCreate domain type protocol) 0) :
    (w.socketCreate domain type protocol).1 = w := by
  unfold socketCreate at h ⊢
  split at h
  case isTrue hdomain => rw [if_pos hdomain]
  case isFalse hdomain =>
    rw [if_neg hdomain]
    split at h
    case isTrue hproto => rw [if_pos hproto]
    case isFalse hproto =>
      have hzero : w.nextSocket = 0 := Int.natCast_eq_zero.mp (returns_reply.mp h).symm
      exact absurd hzero (Nat.ne_of_gt hnext)

/-- A connect fails before it changes anything, or it is refused. -/
theorem socketConnect_of_returns [DecidableEq Port] {desc : Desc} {af : Nat} {path : String}
    {channel : Option (Port × Port)} {connected : Bool}
    (h : Returns (w.socketConnect desc af path channel connected) (-1)) :
    (w.socketConnect desc af path channel connected).1 = w ∨
      Refused w (.connect desc af path channel connected) := by
  unfold socketConnect at h ⊢
  cases hd : w.sockets desc with
  | some s => exact .inl rfl
  | none =>
    rw [hd] at h
    by_cases haf : af = 1
    · subst haf
      cases channel with
      | none => exact .inl rfl
      | some ports =>
        cases connected with
        | false => exact .inr ⟨desc, path, ports, rfl, hd⟩
        | true => simp [Returns] at h
    · exact .inl (by simp [haf])

theorem socketBind_of_returns {desc : Desc} {addressLen : Nat}
    (h : Returns (w.socketBind desc addressLen) (-1)) :
    (w.socketBind desc addressLen).1 = w := by
  unfold socketBind at h ⊢
  split
  · rfl
  · rename_i hd
    rw [hd] at h
    split
    · rfl
    · rename_i hlen
      simp [Returns, hlen] at h

theorem socketListen_of_returns {desc : Desc} {backlog : Int}
    (h : Returns (w.socketListen desc backlog) (-1)) :
    (w.socketListen desc backlog).1 = w := by
  unfold socketListen at h ⊢
  split
  · rfl
  · rename_i hl
    rw [hl] at h
    simp [Returns] at h

theorem socketAccept_of_returns [DecidableEq Port] (hnext : 0 < w.nextSocket) {desc : Desc}
    {addressLen : Int} (h : Returns (w.socketAccept desc addressLen) 0) :
    (w.socketAccept desc addressLen).1 = w := by
  unfold socketAccept at h ⊢
  split
  · rfl
  · rename_i hl
    rw [if_neg hl] at h
    split
    · rfl
    · rename_i data incoming hi
      rw [hi] at h
      split
      · rfl
      · rename_i hlen
        simp only [if_neg hlen] at h
        have hzero : w.nextSocket = 0 := Int.natCast_eq_zero.mp (returns_reply.mp h).symm
        exact absurd hzero (Nat.ne_of_gt hnext)

/-- A message that is read is not a failure: the number of its bytes is returned. -/
theorem socketRecv_of_returns {desc : Desc} {buffer : Ptr} {length : Nat}
    (h : Returns (w.socketRecv desc buffer length) (-1)) :
    (w.socketRecv desc buffer length).1 = w := by
  unfold socketRecv at h ⊢
  cases hd : w.sockets desc with
  | none => rfl
  | some s =>
    rw [hd] at h
    cases hst : (w.objects s).stream with
    | none => simp [hst]
    | some st =>
      simp only [hst] at h ⊢
      split
      · rfl
      · rfl
      · rename_i data rest hq
        -- the number of bytes is not negative
        simp only [hq] at h
        obtain ⟨errno, hreply⟩ := h
        rcases List.mem_cons.mp hreply with hread | hreply
        · cases hread
        · have hvalue : (-1 : Int) = (data.take length).length :=
            congrArg Reply.value (Output.reply.inj (List.mem_singleton.mp hreply))
          exact absurd hvalue (by omega)

/-- The socket of a refused connect is in the table. -/
theorem socketConnect_refused [DecidableEq Port] (w : Worker Port) {desc : Desc}
    (hd : w.sockets desc = none) (path : String) (ports : Port × Port) :
    Returns (w.socketConnect desc 1 path (some ports) false) (-1) ∧
      (w.socketConnect desc 1 path (some ports) false).1.sockets desc ≠ none := by
  simp [socketConnect, hd, Returns, newSocket, setOnmessage]

end Functions

/-! ## The next descriptor -/

section NextSocket

variable [DecidableEq Port] {w : Worker Port}

/-- Descriptors are not given out again. -/
theorem Moves.nextSocket {e : Event Port} {r : Worker Port × List (Output Port)}
    (hm : Moves w e r) : w.nextSocket ≤ r.1.nextSocket := by
  cases hm with
  | created => exact Nat.le_succ _
  | accepted _ _ => exact Nat.le_succ _
  | cancelled => exact Nat.le_of_eq (TasksOnly.schedulerCancel w _).nextSocket.symm
  | @fired id callback _ _ =>
    exact Nat.le_of_eq (TasksOnly.runCallback (w.clearTimeout id) id callback).nextSocket.symm
  | delivered _ => exact Nat.le_of_eq (TasksOnly.wake (w.setQueue _ _) _).nextSocket.symm
  | offered => exact Nat.le_of_eq (TasksOnly.getMessage w _).nextSocket.symm
  | answered _ => exact Nat.le_refl _
  | connected _ _ _ => exact Nat.le_refl _
  | sent _ _ => exact Nat.le_refl _
  | closedBound _ _ => exact Nat.le_refl _
  | closed _ _ => exact Nat.le_refl _
  | bound _ _ => exact Nat.le_refl _
  | listened _ => exact Nat.le_refl _
  | received _ _ _ => exact Nat.le_refl _
  | addedDelayed _ => exact Nat.le_refl _
  | addedRead _ _ => exact Nat.le_refl _
  | addedWrite _ => exact Nat.le_refl _
  | stored => exact Nat.le_refl _

/-- A descriptor is never 0. -/
theorem nextSocket_pos {es : List (Event Port)} {os : List (Output Port)}
    (h : system.Run EventSystem.anyEvent es os w) : 0 < w.nextSocket := by
  refine h.invariant (P := fun w => 0 < w.nextSocket) ?_ Nat.one_pos
  intro s e s' o hs _ hst
  exact Nat.lt_of_lt_of_le hs (moves_of_step hst).nextSocket

end NextSocket

/-! ## Calls that fail -/

variable [DecidableEq Port] {w : Worker Port} {c : SocketCall Port}

/-- **A call that fails leaves the state as it is**, unless the window throws. -/
theorem run_of_failed (hnext : 0 < w.nextSocket) (h : Returns (c.run w) c.failureValue) :
    (c.run w).1 = w ∨ Refused w c := by
  cases c with
  | create domain type protocol => exact .inl (socketCreate_of_returns hnext h)
  | connect desc af path channel connected => exact socketConnect_of_returns h
  | bind desc addressLen => exact .inl (socketBind_of_returns h)
  | listen desc backlog => exact .inl (@socketListen_of_returns _ w desc backlog h)
  | send desc buffer length posted => exact .inl (socketSend_fst w desc buffer length posted)
  | accept desc addressLen => exact .inl (socketAccept_of_returns hnext h)
  | recv desc buffer length => exact .inl (socketRecv_of_returns h)

/-- A refused connect fails and puts its descriptor into the table. -/
theorem Refused.failed (h : Refused w c) :
    Returns (c.run w) c.failureValue ∧ ¬ Unchanged w (c.run w).1 := by
  obtain ⟨desc, path, ports, rfl, hd⟩ := h
  obtain ⟨hreturns, hsocket⟩ := socketConnect_refused w hd path ports
  refine ⟨hreturns, fun hsame => hsocket ?_⟩
  have hdesc := hsame.sockets desc
  rw [hd] at hdesc
  exact Option.map_eq_none_iff.mp hdesc

/-- **The calls that change nothing when they fail.**  The state is then the one before the
call, for a retry; `NEXT_SOCKET` is positive in every run. -/
theorem failed_unchanged_iff (w : Worker Port) (hnext : 0 < w.nextSocket) (c : SocketCall Port) :
    ((Returns (c.run w) c.failureValue → Unchanged w (c.run w).1) ↔ ¬ Refused w c) ∧
    (¬ Refused w c → Returns (c.run w) c.failureValue → (c.run w).1 = w) ∧
    ∀ es os v, (@system Port _).Run EventSystem.anyEvent es os v → 0 < v.nextSocket := by
  have hstate : ¬ Refused w c → Returns (c.run w) c.failureValue → (c.run w).1 = w :=
    fun hrefused hfailed => (run_of_failed hnext hfailed).resolve_right hrefused
  refine ⟨⟨fun hsame hrefused => ?_, fun hrefused hfailed => ?_⟩, hstate,
    fun _ _ _ h => nextSocket_pos h⟩
  · exact hrefused.failed.2 (hsame hrefused.failed.1)
  · rw [hstate hrefused hfailed]
    exact Unchanged.refl w

/-- A message is sent on a descriptor that is not connected. -/
theorem failed_unchanged_send : Returns ((SocketCall.send 1 0 4 true).run (@init Nat)) (-1) ∧
    Unchanged (@init Nat) ((SocketCall.send 1 0 4 true).run init).1 := by
  have hfailed : Returns ((SocketCall.send 1 0 4 true).run (@init Nat)) (-1) :=
    ⟨some .ENOTCONN, List.mem_singleton.mpr rfl⟩
  refine ⟨hfailed, (failed_unchanged_iff init Nat.one_pos (.send 1 0 4 true)).1.mpr ?_ hfailed⟩
  rintro ⟨desc, path, channel, hc, -⟩
  cases hc

/-- A socket is created and its connect is refused: it is in the table, and when the connect is
retried it is `EISCONN`. -/
theorem failed_unchanged_refused :
    ∃ w w' : Worker Nat, system.Run EventSystem.anyEvent [.socketCreate 1 1 0]
        [.reply ⟨1, none⟩] w ∧
      (SocketCall.connect 1 1 "gnunet-service-ats" (some (5, 6)) false).run w =
        (w', [.reply ⟨-1, some .ENETUNREACH⟩]) ∧
      ¬ Unchanged w w' ∧
      ((SocketCall.connect 1 1 "gnunet-service-ats" (some (7, 8)) true).run w').2 =
        [.reply ⟨-1, some .EISCONN⟩] := by
  refine ⟨_, _, .of_exec (fun _ _ => trivial) rfl, rfl,
    fun h => ?_, rfl⟩
  have hdesc := h.sockets 1
  cases hdesc

end Worker

end GnunetWeb
