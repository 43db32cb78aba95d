import GnunetWeb.Worker.Events

/-!
# What a worker can do

The events that can happen in a state, and what they lead to.

Proved here:

* `moves_of_step`: every step is one of the moves;
* `TasksOnly.schedulerCancel`, `TasksOnly.runCallback`, `TasksOnly.wake`: what the scheduler
  leaves alone.
-/

namespace GnunetWeb

/-- The caller is answered, or gets an exception. -/
def Output.Answers {Port : Type} : Output Port → Prop
  | .reply _ => True
  | .threw => True
  | _ => False

/-- The calls of `network.js`. -/
def Event.Network {Port : Type} : Event Port → Prop
  | .socketCreate _ _ _ => True
  | .socketConnect _ _ _ _ _ => True
  | .socketSend _ _ _ _ => True
  | .socketClose _ => True
  | .socketBind _ _ => True
  | .socketListen _ _ => True
  | .socketAccept _ _ => True
  | .socketRecv _ _ _ => True
  | .fdsetIsset _ _ => True
  | _ => False

namespace Worker

variable {Port : Type} [DecidableEq Port]

/-- The steps of a worker, with what has been checked before.  A cancellation, a timeout
and the two kinds of messages are left to their functions. -/
inductive Moves (w : Worker Port) : Event Port → Worker Port × List (Output Port) → Prop
  | answered {e : Event Port} {o : List (Output Port)} (answers : ∀ x ∈ o, x.Answers) :
      Moves w e (w, o)
  | created {domain type protocol : Int} : Moves w (.socketCreate domain type protocol)
      ({ w with nextSocket := w.nextSocket + 1 }, [.reply ⟨w.nextSocket, none⟩])
  | connected {desc : Desc} {af : Nat} {path : String} {port1 port2 : Port} {connected : Bool}
      {o : List (Output Port)} (known : desc < w.nextSocket) (free : w.sockets desc = none)
      (outputs : o = [.clientConnect path port2, .reply ⟨1, none⟩] ∨ ∀ x ∈ o, x.Answers) :
      Moves w (.socketConnect desc af path (some (port1, port2)) connected)
        ((w.newSocket desc (some ⟨port1, path, []⟩)).setOnmessage port1 w.nextObject, o)
  | sent {desc : Desc} {buffer : Ptr} {length : Nat} {s : SocketRef} {st : Stream Port}
      (socket : w.sockets desc = some s) (stream : (w.objects s).stream = some st) :
      Moves w (.socketSend desc buffer length true)
        (w, [.posted st.port (.bytes (w.view buffer length)), .reply ⟨length, none⟩])
  | closedBound {desc : Desc} {s : SocketRef} (socket : w.sockets desc = some s)
      (stream : (w.objects s).stream = none) :
      Moves w (.socketClose desc) (w.deleteSocket desc, [.reply ⟨1, none⟩])
  | closed {desc : Desc} {s : SocketRef} {st : Stream Port} (socket : w.sockets desc = some s)
      (stream : (w.objects s).stream = some st) :
      Moves w (.socketClose desc)
        (w.deleteSocket desc, [.posted st.port .close, .closed st.port, .reply ⟨1, none⟩])
  | bound {desc : Desc} {addressLen : Nat} (known : desc < w.nextSocket)
      (free : w.sockets desc = none) :
      Moves w (.socketBind desc addressLen) (w.newSocket desc none, [.reply ⟨1, none⟩])
  | listened {desc : Desc} {backlog : Int} (free : w.listening = none) :
      Moves w (.socketListen desc backlog)
        ({ w with listening := some desc }, [.reply ⟨1, none⟩])
  | accepted {desc : Desc} {addressLen : Int} {port : Port} {name : String}
      {incoming : List (Incoming Port)} (listening : w.listening = some desc)
      (first : w.incoming = ⟨port, name⟩ :: incoming) :
      Moves w (.socketAccept desc addressLen)
        (({ w with incoming, nextSocket := w.nextSocket + 1 }.newSocket w.nextSocket
          (some ⟨port, name, []⟩)).setOnmessage port w.nextObject, [.reply ⟨w.nextSocket, none⟩])
  | received {desc : Desc} {buffer : Ptr} {length : Nat} {s : SocketRef} {st : Stream Port}
      {data : List UInt8} {rest : List Data} (socket : w.sockets desc = some s)
      (stream : (w.objects s).stream = some st) (first : st.queue = .bytes data :: rest) :
      Moves w (.socketRecv desc buffer length)
        ((w.store buffer (data.take length)).setQueue s
          (if (data.take length).length = data.length then rest
            else .bytes (data.drop (data.take length).length) :: rest),
          [.read st.port (data.take length), .reply ⟨(data.take length).length, none⟩])
  | addedDelayed {delay priority : Nat} {task taskCls : Ptr} {id : TaskId}
      (fresh : w.callbacks id = none) :
      Moves w (.addDelayedWithPriority delay priority task taskCls id)
        ((w.setTimeout id (.delayed task taskCls)).setSchedulerTask id ⟨taskCls, none⟩,
          [.registered id task taskCls none, .reply ⟨id, none⟩])
  | addedRead {delay : Nat} {rfd : Desc} {task taskCls : Ptr} {id : TaskId} {s : SocketRef}
      (fresh : w.callbacks id = none) (socket : w.sockets rfd = some s) :
      Moves w (.addReadNet delay rfd task taskCls id)
        (((w.setTimeout id (.readNet rfd s task taskCls)).setSchedulerTask id
          ⟨taskCls, some rfd⟩).setObject s
            { w.objects s with handler := task, cls := taskCls, task := some id },
          [.registered id task taskCls (some rfd), .reply ⟨id, none⟩])
  | addedWrite {delay : Nat} {wfd : Desc} {task taskCls : Ptr} {id : TaskId}
      (fresh : w.callbacks id = none) :
      Moves w (.addWriteNet delay wfd task taskCls id)
        ((w.setTimeout id (.writeNet task taskCls)).setSchedulerTask id ⟨taskCls, none⟩,
          [.registered id task taskCls none, .reply ⟨id, none⟩])
  | cancelled {task : TaskId} : Moves w (.cancel task) (w.schedulerCancel task)
  | fired {id : TaskId} {callback : Callback} (armed : w.armed id)
      (issued : w.callbacks id = some callback) :
      Moves w (.timeout id) ((w.clearTimeout id).runCallback id callback)
  | delivered {port : Port} {data : Data} {s : SocketRef} (handler : w.onmessage port = some s) :
      Moves w (.message port data) (w.portMessage s data)
  | offered {data : Incoming Port} : Moves w (.connect data) (w.getMessage data)
  | stored {buffer : Ptr} {data : List UInt8} :
      Moves w (.store buffer data) (w.store buffer data, [])

variable {w : Worker Port}

omit [DecidableEq Port] in
theorem callbacks_of_freshId {id : TaskId} (h : w.freshId id) : w.callbacks id = none := by
  simpa [freshId, Option.isNone_iff_eq_none] using (of_decide_eq_true h).2

/-- A single answer. -/
theorem Moves.reply {e : Event Port} {r : Reply} : Moves w e (w, [.reply r]) :=
  .answered (by simp [Output.Answers])

theorem Moves.threw {e : Event Port} : Moves w e (w, [.threw]) :=
  .answered (by simp [Output.Answers])

/-! ## The functions -/

theorem moves_socketCreate (domain type protocol : Int) :
    Moves w (.socketCreate domain type protocol) (w.socketCreate domain type protocol) := by
  unfold socketCreate
  split
  · exact .reply
  · split
    · exact .reply
    · exact .created

theorem moves_socketConnect {desc : Desc} (hlt : desc < w.nextSocket) (af : Nat) (path : String)
    (channel : Option (Port × Port)) (connected : Bool) :
    Moves w (.socketConnect desc af path channel connected)
      (w.socketConnect desc af path channel connected) := by
  unfold socketConnect
  split
  · exact .reply
  · rename_i hd
    split
    · exact .reply
    · split
      · exact .reply
      · simp only
        split
        · exact .connected hlt hd (.inl rfl)
        · exact .connected hlt hd (.inr (by simp [Output.Answers]))

omit [DecidableEq Port] in
/-- Sending changes nothing here. -/
theorem socketSend_fst (w : Worker Port) (desc : Desc) (buffer : Ptr) (length : Nat)
    (posted : Bool) : (w.socketSend desc buffer length posted).1 = w := by
  unfold socketSend
  split
  · rfl
  · simp only
    split
    · rfl
    · split
      · rfl
      · rfl

theorem moves_socketSend (desc : Desc) (buffer : Ptr) (length : Nat) (posted : Bool) :
    Moves w (.socketSend desc buffer length posted) (w.socketSend desc buffer length posted) := by
  unfold socketSend
  split
  · exact .reply
  · rename_i s hd
    simp only
    split
    · exact .reply
    · rename_i st hst
      cases posted with
      | false => exact .reply
      | true => exact .sent hd hst

theorem moves_socketClose (desc : Desc) : Moves w (.socketClose desc) (w.socketClose desc) := by
  unfold socketClose
  split
  · exact .reply
  · rename_i s hd
    split
    · rename_i hst
      exact .closedBound hd hst
    · rename_i st hst
      exact .closed hd hst

theorem moves_socketBind {desc : Desc} (hlt : desc < w.nextSocket) (addressLen : Nat) :
    Moves w (.socketBind desc addressLen) (w.socketBind desc addressLen) := by
  unfold socketBind
  split
  · exact .reply
  · rename_i hd
    split
    · exact .reply
    · exact .bound hlt hd

theorem moves_socketListen (desc : Desc) (backlog : Int) :
    Moves w (.socketListen desc backlog) (w.socketListen desc backlog) := by
  unfold socketListen
  split
  · exact .reply
  · rename_i hl
    exact .listened hl

theorem moves_socketAccept (desc : Desc) (addressLen : Int) :
    Moves w (.socketAccept desc addressLen) (w.socketAccept desc addressLen) := by
  unfold socketAccept
  split
  · exact .reply
  · rename_i hl
    split
    · exact .reply
    · rename_i data incoming hi
      split
      · exact .reply
      · exact .accepted (not_not.mp hl) hi

theorem moves_socketRecv (desc : Desc) (buffer : Ptr) (length : Nat) :
    Moves w (.socketRecv desc buffer length) (w.socketRecv desc buffer length) := by
  unfold socketRecv
  split
  · exact .reply
  · rename_i s hd
    split
    · exact .threw
    · rename_i st hst
      split
      · exact .reply
      · exact .reply
      · rename_i data rest hq
        exact .received hd hst hq

theorem moves_fdsetIsset (fds desc : Nat) :
    Moves w (.fdsetIsset fds desc) (w, issetReply (w.fdsetIsset fds desc)) := by
  refine .answered ?_
  cases w.fdsetIsset fds desc with
  | none => simp [issetReply, Output.Answers]
  | some n => simp [issetReply, Output.Answers]

theorem moves_schedulerAddReadNet {id : TaskId} (hid : w.callbacks id = none) (delay : Nat)
    (rfd : Desc) (task taskCls : Ptr) : Moves w (.addReadNet delay rfd task taskCls id)
      (w.schedulerAddReadNet delay rfd task taskCls id) := by
  unfold schedulerAddReadNet
  split
  · exact .reply
  · rename_i s hd
    exact .addedRead hid hd

theorem moves_schedulerAddWriteNet {id : TaskId} (hid : w.callbacks id = none) (delay : Nat)
    (wfd : Desc) (task taskCls : Ptr) : Moves w (.addWriteNet delay wfd task taskCls id)
      (w.schedulerAddWriteNet delay wfd task taskCls id) := by
  unfold schedulerAddWriteNet
  split
  · exact .reply
  · exact .addedWrite hid

/-- **Every step is one of the moves.** -/
theorem moves_of_step {e : Event Port} {r : Worker Port × List (Output Port)}
    (h : w.step e = some r) : Moves w e r := by
  cases e with
  | socketCreate domain type protocol => exact Option.some.inj h ▸ moves_socketCreate ..
  | socketConnect desc af path channel connected =>
    obtain ⟨hlt, h⟩ := Option.ite_none_right_eq_some.mp h
    exact Option.some.inj h ▸ moves_socketConnect hlt ..
  | socketSend desc buffer length posted => exact Option.some.inj h ▸ moves_socketSend ..
  | socketClose desc => exact Option.some.inj h ▸ moves_socketClose desc
  | socketBind desc addressLen =>
    obtain ⟨hlt, h⟩ := Option.ite_none_right_eq_some.mp h
    exact Option.some.inj h ▸ moves_socketBind hlt addressLen
  | socketListen desc backlog => exact Option.some.inj h ▸ moves_socketListen ..
  | socketAccept desc addressLen => exact Option.some.inj h ▸ moves_socketAccept ..
  | socketRecv desc buffer length => exact Option.some.inj h ▸ moves_socketRecv ..
  | fdsetIsset fds desc => exact Option.some.inj h ▸ moves_fdsetIsset ..
  | addDelayedWithPriority delay priority task taskCls id =>
    obtain ⟨hid, h⟩ := Option.ite_none_right_eq_some.mp h
    exact Option.some.inj h ▸ .addedDelayed (callbacks_of_freshId hid)
  | addReadNet delay rfd task taskCls id =>
    obtain ⟨hid, h⟩ := Option.ite_none_right_eq_some.mp h
    exact Option.some.inj h ▸ moves_schedulerAddReadNet (callbacks_of_freshId hid) ..
  | addWriteNet delay wfd task taskCls id =>
    obtain ⟨hid, h⟩ := Option.ite_none_right_eq_some.mp h
    exact Option.some.inj h ▸ moves_schedulerAddWriteNet (callbacks_of_freshId hid) ..
  | cancel task => exact Option.some.inj h ▸ .cancelled
  | timeout id =>
    obtain ⟨harmed, h⟩ := Option.ite_none_right_eq_some.mp h
    obtain ⟨callback, hc, rfl⟩ := Option.map_eq_some_iff.mp h
    exact .fired harmed hc
  | message port data =>
    obtain ⟨s, hport, rfl⟩ := Option.map_eq_some_iff.mp h
    exact .delivered hport
  | connect data => exact Option.some.inj h ▸ .offered
  | store buffer data => exact Option.some.inj h ▸ .stored

/-! ## Changes of tasks -/

/-- Nothing is changed but tasks: the descriptors, the streams, the handlers of the ports and
what has come in stay. -/
structure TasksOnly (w w' : Worker Port) : Prop where
  sockets : w'.sockets = w.sockets
  listening : w'.listening = w.listening
  incoming : w'.incoming = w.incoming
  nextSocket : w'.nextSocket = w.nextSocket
  onmessage : w'.onmessage = w.onmessage
  stream : ∀ s, (w'.objects s).stream = (w.objects s).stream

namespace TasksOnly

omit [DecidableEq Port]

theorem refl (w : Worker Port) : TasksOnly w w := ⟨rfl, rfl, rfl, rfl, rfl, fun _ => rfl⟩

/-- A socket object that keeps its stream. -/
theorem setObject {s : SocketRef} {o : Socket Port} (h : o.stream = (w.objects s).stream) :
    TasksOnly w (w.setObject s o) := by
  refine ⟨rfl, rfl, rfl, rfl, rfl, fun r => ?_⟩
  by_cases hr : r = s
  · simp [Worker.setObject, hr, h]
  · simp [Worker.setObject, hr]

theorem deleteTask (w : Worker Port) (s : SocketRef) : TasksOnly w (w.deleteTask s) :=
  setObject rfl

theorem wake (w : Worker Port) (s : SocketRef) : TasksOnly w (w.wake s).1 := by
  unfold Worker.wake
  split
  · exact refl w
  · rename_i id _
    have h := deleteTask (w.deleteSchedulerTask id) s
    exact ⟨h.sockets, h.listening, h.incoming, h.nextSocket, h.onmessage, h.stream⟩

theorem schedulerCancel (w : Worker Port) (id : TaskId) :
    TasksOnly w (w.schedulerCancel id).1 := by
  unfold Worker.schedulerCancel
  simp only
  split
  · exact ⟨rfl, rfl, rfl, rfl, rfl, fun _ => rfl⟩
  · split
    · exact ⟨rfl, rfl, rfl, rfl, rfl, fun _ => rfl⟩
    · rename_i s _
      have h := deleteTask ((w.clearTimeout id).deleteSchedulerTask id) s
      exact ⟨h.sockets, h.listening, h.incoming, h.nextSocket, h.onmessage, h.stream⟩

theorem runCallback (w : Worker Port) (id : TaskId) (callback : Callback) :
    TasksOnly w (w.runCallback id callback).1 := by
  cases callback with
  | delayed task taskCls => exact ⟨rfl, rfl, rfl, rfl, rfl, fun _ => rfl⟩
  | readNet rfd s task taskCls =>
    rw [Worker.runCallback]
    split
    · exact refl w
    · exact refl w
    · split
      · exact refl w
      · have h := deleteTask (w.deleteSchedulerTask id) s
        exact ⟨h.sockets, h.listening, h.incoming, h.nextSocket, h.onmessage, h.stream⟩
  | writeNet task taskCls =>
    rw [Worker.runCallback]
    split
    · exact refl w
    · exact ⟨rfl, rfl, rfl, rfl, rfl, fun _ => rfl⟩

theorem getMessage (w : Worker Port) (data : Incoming Port) :
    TasksOnly (w.setIncoming (w.incoming ++ [data])) (w.getMessage data).1 := by
  unfold Worker.getMessage
  simp only
  split
  · exact refl _
  · split
    · exact refl _
    · exact wake _ _

end TasksOnly

end Worker

end GnunetWeb
