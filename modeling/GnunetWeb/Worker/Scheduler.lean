import GnunetWeb.Worker.State

/-!
# The scheduler of a service worker

`scheduler.js`; the names are without `GNUNET_`.  A task is a timeout and an entry of
`SCHEDULER_TASKS`; a read task is linked from its socket as well, where the arrival of a
message finds it.
-/

namespace GnunetWeb.Worker

variable {Port : Type}

/-- `GNUNET_SCHEDULER_add_delayed_with_priority_js`; `id` is what `setTimeout` returned. -/
def schedulerAddDelayedWithPriority (w : Worker Port) (_delay _priority : Nat) (task taskCls : Ptr)
    (id : TaskId) : Worker Port × List (Output Port) :=
  ((w.setTimeout id (.delayed task taskCls)).setSchedulerTask id ⟨taskCls, none⟩,
    [.registered id task taskCls none, .reply ⟨id, none⟩])

def schedulerCancel (w : Worker Port) (task : TaskId) : Worker Port × List (Output Port) :=
  let w := w.clearTimeout task
  match w.schedulerTasks task with
  | none => (w, [.cancelled task 0])
  | some t =>
    let w := w.deleteSchedulerTask task
    match t.socket.bind w.sockets with
    | none => (w, [.cancelled task t.cls])
    | some s => (w.deleteTask s, [.cancelled task t.cls])

def schedulerAddReadNet (w : Worker Port) (_delay : Nat) (rfd : Desc) (task taskCls : Ptr)
    (id : TaskId) : Worker Port × List (Output Port) :=
  match w.sockets rfd with
  | none => (w, [.reply ⟨0, none⟩])
  | some s =>
    let w := (w.setTimeout id (.readNet rfd s task taskCls)).setSchedulerTask id ⟨taskCls, some rfd⟩
    (w.setObject s { w.objects s with handler := task, cls := taskCls, task := some id },
      [.registered id task taskCls (some rfd), .reply ⟨id, none⟩])

def schedulerAddWriteNet (w : Worker Port) (_delay : Nat) (wfd : Desc) (task taskCls : Ptr)
    (id : TaskId) : Worker Port × List (Output Port) :=
  match w.sockets wfd with
  | none => (w, [.reply ⟨0, none⟩])
  | some _ =>
    ((w.setTimeout id (.writeNet task taskCls)).setSchedulerTask id ⟨taskCls, none⟩,
      [.registered id task taskCls none, .reply ⟨id, none⟩])

/-- Whether the timer of a read task finds nothing to read.  A bound socket that
does not listen has no queue to look at. -/
def readNetIdle (w : Worker Port) (rfd : Desc) (s : SocketRef) : Option Bool :=
  if w.listening = some rfd then some w.incoming.isEmpty
  else (w.objects s).stream.map fun st => st.queue.isEmpty

/-- The closures of the three functions, when their timeout `id` fires. -/
def runCallback (w : Worker Port) (id : TaskId) : Callback → Worker Port × List (Output Port)
  | .delayed task taskCls =>
    (w.deleteSchedulerTask id, [.invoked id task taskCls (w.taskSocket id)])
  | .readNet rfd s task taskCls =>
    match w.readNetIdle rfd s with
    | none => (w, [.threw])
    | some true => (w, [])
    | some false =>
      match w.schedulerTasks id with
      | none => (w, [])
      | some t =>
        ((w.deleteSchedulerTask id).deleteTask s, [.invoked id task taskCls t.socket])
  | .writeNet task taskCls =>
    match w.schedulerTasks id with
    | none => (w, [])
    | some t => (w.deleteSchedulerTask id, [.invoked id task taskCls t.socket])

end GnunetWeb.Worker
