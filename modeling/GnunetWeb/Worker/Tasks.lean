import GnunetWeb.Worker.TaskLife
import GnunetWeb.Worker.Tables

/-!
# The worker follows the life of its tasks

The phase of a task can be read off the closures and `SCHEDULER_TASKS`.  A socket that
was closed keeps the link to its task, and a message that was on its way still follows
it: the worker is `Standing` when every link leads to a pending task.

Proved here:

* `standing_step`: the worker stays so, unless the read task of a socket is cancelled
  after the socket was closed;
* `phase_step`: the outputs of every event follow the life of every task, from its
  phase before the event to its phase after it;
* `life_run`: so the outputs of every run do.
-/

namespace GnunetWeb.Worker

variable {Port : Type}

/-- The phase of a task in a state of the worker. -/
def phase (w : Worker Port) (id : TaskId) : Phase :=
  match w.callbacks id with
  | none => .absent
  | some callback =>
    if (w.schedulerTasks id).isSome then .pending callback.task callback.taskCls else .done

/-! ## The worker follows it -/

/-- Only the closures and the table decide about the phase. -/
theorem phase_congr {w v : Worker Port} {id : TaskId} (hc : w.callbacks id = v.callbacks id)
    (ht : w.schedulerTasks id = v.schedulerTasks id) : w.phase id = v.phase id := by
  simp only [phase, hc, ht]

/-- A call of the handler takes a pending task to its end. -/
theorem life_invoked {w w' : Worker Port} {id : TaskId} {callback : Callback} {t : SchedulerTask}
    (hc : w.callbacks id = some callback) (ht : w.schedulerTasks id = some t)
    (hc' : w'.callbacks = w.callbacks)
    (ht' : w'.schedulerTasks = Function.update w.schedulerTasks id none) (socket : Option Desc)
    (id' : TaskId) :
    life id' (w.phase id')
        ([.invoked id callback.task callback.taskCls socket] : List (Output Port)) =
      some (w'.phase id') := by
  by_cases hid : id = id'
  · subst hid
    simp [life, Phase.next, phase, hc, ht, hc', ht']
  · have hne : id' ≠ id := fun h => hid h.symm
    simp only [life, List.foldlM_cons, List.foldlM_nil, Phase.next, ne_eq, hid, not_false_eq_true,
      if_true]
    simp [phase, hc', ht', hne]

theorem life_registered {w w' : Worker Port} {id : TaskId} {callback : Callback}
    (hc : w.callbacks id = none)
    (hc' : w'.callbacks = Function.update w.callbacks id (some callback))
    (ht' : w'.schedulerTasks id ≠ none)
    (ht'' : ∀ id', id' ≠ id → w'.schedulerTasks id' = w.schedulerTasks id') (socket : Option Desc)
    (r : Reply) (id' : TaskId) :
    life id' (w.phase id')
        ([.registered id callback.task callback.taskCls socket, .reply r] : List (Output Port)) =
      some (w'.phase id') := by
  by_cases hid : id = id'
  · subst hid
    have hsome : (w'.schedulerTasks id).isSome := Option.isSome_iff_ne_none.mpr ht'
    simp [life, Phase.next, phase, hc, hc', hsome]
  · have hne : id' ≠ id := fun h => hid h.symm
    simp only [life, List.foldlM_cons, List.foldlM_nil, Phase.next, ne_eq, hid, not_false_eq_true,
      if_true]
    simp [phase, hc', ht'' id' hne, hne]

/-- Every link leads to a pending task, that of a closed socket too. -/
def Standing (w : Worker Port) : Prop :=
  ∀ s id, (w.objects s).task = some id → w.schedulerTasks id ≠ none

theorem life_wake {w : Worker Port} (h : Tables w) (hw : w.Standing) (s : SocketRef)
    (id : TaskId) : life id (w.phase id) (w.wake s).2 = some ((w.wake s).1.phase id) := by
  unfold wake
  cases ht : (w.objects s).task with
  | none => rfl
  | some id' =>
    obtain ⟨d, hc⟩ := h.added s id' ht
    obtain ⟨t, he⟩ := Option.ne_none_iff_exists'.mp (hw s id' ht)
    exact @life_invoked _ w ((w.deleteSchedulerTask id').deleteTask s) id' _ t hc he rfl rfl _ id

/-- A cancellation, after the timeout has been cleared. -/
def dropTask (w : Worker Port) (id : TaskId) : Worker Port :=
  match w.schedulerTasks id with
  | none => w
  | some t =>
    match t.socket.bind w.sockets with
    | none => w.deleteSchedulerTask id
    | some s => (w.deleteSchedulerTask id).deleteTask s

theorem schedulerCancel_fst (w : Worker Port) (id : TaskId) :
    (w.schedulerCancel id).1 = (w.clearTimeout id).dropTask id := by
  unfold schedulerCancel dropTask
  simp only
  cases (w.clearTimeout id).schedulerTasks id with
  | none => rfl
  | some t =>
    have hsockets : ((w.clearTimeout id).deleteSchedulerTask id).sockets =
        (w.clearTimeout id).sockets := rfl
    simp only [hsockets]
    cases t.socket.bind (w.clearTimeout id).sockets <;> rfl

theorem life_schedulerCancel {w : Worker Port} (h : Tables w) (id id' : TaskId) :
    life id' (w.phase id') (w.schedulerCancel id).2 =
      some ((w.schedulerCancel id).1.phase id') := by
  have hcancelled : ∀ cls, id' ≠ id →
      life id' (w.phase id') ([.cancelled id cls] : List (Output Port)) = some (w.phase id') := by
    intro cls hne
    simp [life, Phase.next, Ne.symm hne]
  unfold schedulerCancel
  simp only
  split
  · rename_i ht
    have ht' : w.schedulerTasks id = none := ht
    have hphase : ((w.clearTimeout id).phase id') = w.phase id' := phase_congr rfl rfl
    rw [hphase]
    by_cases hne : id' = id
    · subst hne
      cases hc : w.callbacks id' with
      | none => simp [life, Phase.next, phase, hc]
      | some callback => simp [life, Phase.next, phase, hc, ht']
    · exact hcancelled 0 hne
  · rename_i t ht
    have ht' : w.schedulerTasks id = some t := ht
    obtain ⟨callback, hc, hcls, _⟩ := h.entry id t ht'
    -- the state after a cancellation differs by the link alone in the two branches
    have hmain : ∀ v : Worker Port, v.callbacks = w.callbacks →
        v.schedulerTasks = Function.update w.schedulerTasks id none →
        life id' (w.phase id') ([.cancelled id t.cls] : List (Output Port)) =
          some (v.phase id') := by
      intro v hvc hvt
      by_cases hne : id' = id
      · subst hne
        simp [life, Phase.next, phase, hc, ht', hvc, hvt, hcls]
      · rw [hcancelled _ hne]
        congr 1
        exact phase_congr (by rw [hvc]) (by simp [hvt, hne])
    split
    · exact hmain _ rfl rfl
    · exact hmain _ rfl rfl

theorem life_runCallback {w : Worker Port} {id : TaskId} {callback : Callback}
    (hc : w.callbacks id = some callback)
    (hdelayed : ∀ task taskCls, callback = .delayed task taskCls → w.schedulerTasks id ≠ none)
    (id' : TaskId) :
    life id' (w.phase id') (w.runCallback id callback).2 =
      some ((w.runCallback id callback).1.phase id') := by
  cases callback with
  | delayed task taskCls =>
    obtain ⟨t, ht⟩ := Option.ne_none_iff_exists'.mp (hdelayed task taskCls rfl)
    exact @life_invoked _ w (w.deleteSchedulerTask id) id _ t hc ht rfl rfl _ id'
  | writeNet task taskCls =>
    simp only [runCallback]
    split
    · rfl
    · rename_i t ht
      exact @life_invoked _ w (w.deleteSchedulerTask id) id _ t hc ht rfl rfl _ id'
  | readNet rfd s task taskCls =>
    simp only [runCallback]
    split
    · rfl
    · rfl
    · split
      · rfl
      · rename_i t ht
        exact @life_invoked _ w ((w.deleteSchedulerTask id).deleteTask s) id _ t hc ht rfl rfl _ id'

/-- What leaves the tasks alone: neither the closures, nor the table, nor the
timeouts change, no link is made, and no output is about a task. -/
structure Quiet (w : Worker Port) (r : Worker Port × List (Output Port)) : Prop where
  callbacks : r.1.callbacks = w.callbacks
  schedulerTasks : r.1.schedulerTasks = w.schedulerTasks
  armed : r.1.armed = w.armed
  links : ∀ s id, (r.1.objects s).task = some id → (w.objects s).task = some id
  outputs : ∀ o ∈ r.2, ∀ id p, Phase.next id p o = some p

theorem Quiet.life {w : Worker Port} {r : Worker Port × List (Output Port)} (h : Quiet w r)
    (id : TaskId) : life id (w.phase id) r.2 = some (r.1.phase id) := by
  rw [life_quiet id _ fun o ho => h.outputs o ho id _]
  congr 1
  exact phase_congr (by rw [h.callbacks]) (by rw [h.schedulerTasks])

/-- Answers are not about a task. -/
theorem next_of_answers {o : Output Port} (ho : o.Answers) (id : TaskId) (p : Phase) :
    Phase.next id p o = some p := by
  cases o with
  | reply r => rfl
  | threw => rfl
  | _ => exact ho.elim

/-- A new task begins its life. -/
theorem life_addTask {w w' : Worker Port} {id : TaskId} (hid : w.callbacks id = none)
    (callback : Callback) (t : SchedulerTask)
    (hc : w'.callbacks = ((w.setTimeout id callback).setSchedulerTask id t).callbacks)
    (ht : w'.schedulerTasks = ((w.setTimeout id callback).setSchedulerTask id t).schedulerTasks)
    (socket : Option Desc) (r : Reply) (id' : TaskId) :
    life id' (w.phase id')
        ([.registered id callback.task callback.taskCls socket, .reply r] : List (Output Port)) =
      some (w'.phase id') :=
  life_registered hid hc (by simp [ht, setSchedulerTask])
    (fun _ hne => by simp [ht, setSchedulerTask, setTimeout, hne]) socket r id'

section Step

variable [DecidableEq Port] {w : Worker Port} {e : Event Port}
  {r : Worker Port × List (Output Port)}

omit [DecidableEq Port] in
/-- A new object has no task. -/
theorem link_of_new {objects : SocketRef → Socket Port} {new : SocketRef}
    {stream : Option (Stream Port)} (s : SocketRef) (id : TaskId)
    (ht : (Function.update objects new ⟨stream, none, 0, 0⟩ s).task = some id) :
    (objects s).task = some id := by
  by_cases hs : s = new
  · simp [hs] at ht
  · simpa [hs] using ht

omit [DecidableEq Port] in
theorem task_setQueue (w : Worker Port) (s : SocketRef) (queue : List Data) (r : SocketRef) :
    ((w.setQueue s queue).objects r).task = (w.objects r).task := by
  by_cases hr : r = s
  · simp [setQueue, setObject, hr]
  · simp [setQueue, setObject, hr]

/-- The calls of `network.js` leave the tasks alone. -/
theorem Moves.quiet (hm : Moves w e r) (he : e.Network) : Quiet w r := by
  cases hm with
  | answered ho => exact ⟨rfl, rfl, rfl, fun _ _ ht => ht, fun o ho' => next_of_answers (ho o ho')⟩
  | created => exact ⟨rfl, rfl, rfl, fun _ _ ht => ht, by simp [Phase.next]⟩
  | connected _ _ ho =>
    refine ⟨rfl, rfl, rfl, link_of_new, ?_⟩
    rcases ho with rfl | ho
    · simp [Phase.next]
    · exact fun o ho' => next_of_answers (ho o ho')
  | sent _ _ => exact ⟨rfl, rfl, rfl, fun _ _ ht => ht, by simp [Phase.next]⟩
  | closedBound _ _ => exact ⟨rfl, rfl, rfl, fun _ _ ht => ht, by simp [Phase.next]⟩
  | closed _ _ => exact ⟨rfl, rfl, rfl, fun _ _ ht => ht, by simp [Phase.next]⟩
  | bound _ _ => exact ⟨rfl, rfl, rfl, link_of_new, by simp [Phase.next]⟩
  | listened _ => exact ⟨rfl, rfl, rfl, fun _ _ ht => ht, by simp [Phase.next]⟩
  | accepted _ _ => exact ⟨rfl, rfl, rfl, link_of_new, by simp [Phase.next]⟩
  | received _ _ _ =>
    exact ⟨rfl, rfl, rfl, fun _ _ ht => (task_setQueue _ _ _ _).symm.trans ht, by simp [Phase.next]⟩
  | _ => exact he.elim

/-! ## The links -/

/-- No read task is cancelled when its socket has left the table and still links to it. -/
def cancelsOpen (w : Worker Port) : Event Port → Prop
  | .cancel id => ∀ rfd s task taskCls, w.callbacks id = some (.readNet rfd s task taskCls) →
      (w.objects s).task = some id → w.sockets rfd = some s
  | _ => True

omit [DecidableEq Port] in
theorem standing_init : Standing (init : Worker Port) := by
  simp [Standing, init]

namespace Standing

omit [DecidableEq Port]

/-- No link is made, and the tasks that are still linked stay in the table. -/
theorem change (h : w.Standing) {w' : Worker Port}
    (hlinks : ∀ s id, (w'.objects s).task = some id → (w.objects s).task = some id)
    (htasks : ∀ s id, (w'.objects s).task = some id → w'.schedulerTasks id = w.schedulerTasks id) :
    w'.Standing := fun s id ht => by
  rw [htasks s id ht]
  exact h s id (hlinks s id ht)

theorem setQueue (h : w.Standing) (s : SocketRef) (queue : List Data) :
    (w.setQueue s queue).Standing :=
  h.change (fun r _ ht => (task_setQueue w s queue r).symm.trans ht) fun _ _ _ => rfl

/-- A task leaves the table that no object links to. -/
theorem deleteSchedulerTask (h : w.Standing) {id : TaskId}
    (hlink : ∀ s, (w.objects s).task ≠ some id) : (w.deleteSchedulerTask id).Standing := by
  refine h.change (fun _ _ ht => ht) fun s id' ht => ?_
  have hne : id' ≠ id := fun he => hlink s (he ▸ ht)
  simp [Worker.deleteSchedulerTask, hne]

/-- A task leaves both tables, with the only object that may link to it. -/
theorem takeOut (h : w.Standing) {id : TaskId} {s : SocketRef}
    (hlink : ∀ r, (w.objects r).task = some id → r = s) :
    ((w.deleteSchedulerTask id).deleteTask s).Standing := by
  have hold : ∀ r id', (((w.deleteSchedulerTask id).deleteTask s).objects r).task = some id' →
      r ≠ s ∧ (w.objects r).task = some id' := by
    intro r id' ht
    by_cases hr : r = s
    · simp [deleteTask, setObject, hr] at ht
    · exact ⟨hr, by simpa [deleteTask, setObject, hr, Worker.deleteSchedulerTask] using ht⟩
  refine h.change (fun r id' ht => (hold r id' ht).2) fun r id' ht => ?_
  obtain ⟨hr, ht'⟩ := hold r id' ht
  have hne : id' ≠ id := fun he => hr (hlink r (he ▸ ht'))
  simp [deleteTask, setObject, Worker.deleteSchedulerTask, hne]

theorem wake (h : w.Standing) (ht : Tables w) (s : SocketRef) : (w.wake s).1.Standing := by
  unfold Worker.wake
  cases hs : (w.objects s).task with
  | none => exact h
  | some id => exact h.takeOut fun r hr => ht.link_unique hr hs

/-- The callback of a task leaves no link to it. -/
theorem runCallback (h : w.Standing) (ht : Tables w) {id : TaskId} {callback : Callback}
    (hc : w.callbacks id = some callback) : (w.runCallback id callback).1.Standing := by
  have hread : ∀ s, (w.objects s).task = some id →
      ∃ d task taskCls, callback = .readNet d s task taskCls := by
    intro s hs
    obtain ⟨d, hd⟩ := ht.added s id hs
    exact ⟨d, _, _, Option.some.inj (hc.symm.trans hd)⟩
  cases callback with
  | delayed task taskCls =>
    refine h.deleteSchedulerTask fun s hs => ?_
    obtain ⟨_, _, _, he⟩ := hread s hs
    cases he
  | writeNet task taskCls =>
    simp only [Worker.runCallback]
    split
    · exact h
    · refine h.deleteSchedulerTask fun s hs => ?_
      obtain ⟨_, _, _, he⟩ := hread s hs
      cases he
  | readNet rfd s task taskCls =>
    simp only [Worker.runCallback]
    split
    · exact h
    · exact h
    · split
      · exact h
      · refine h.takeOut fun r hr => ?_
        obtain ⟨_, _, _, he⟩ := hread r hr
        cases he
        rfl

/-- A cancelled task is linked from its socket in the table, if at all. -/
theorem schedulerCancel (h : w.Standing) (ht : Tables w) {id : TaskId}
    (hok : cancelsOpen w (.cancel id)) : (w.schedulerCancel id).1.Standing := by
  have hsocket : ∀ s t, (w.objects s).task = some id → w.schedulerTasks id = some t →
      t.socket.bind w.sockets = some s := by
    intro s t hs he
    obtain ⟨d, hc⟩ := ht.added s id hs
    obtain ⟨callback, hc', _, hdesc⟩ := ht.entry id t he
    cases hc.symm.trans hc'
    rw [← hdesc]
    exact hok d s _ _ hc hs
  rw [schedulerCancel_fst]
  unfold dropTask
  split
  · exact h
  · rename_i t he
    split
    · rename_i hnone
      refine Standing.deleteSchedulerTask (w := w.clearTimeout id) h fun s hs => ?_
      cases hnone.symm.trans (hsocket s t hs he)
    · rename_i s hs
      refine Standing.takeOut (w := w.clearTimeout id) h fun r hr => ?_
      exact Option.some.inj ((hsocket r t hr he).symm.trans hs)

/-- A new task; the object that links to it did not have to be free. -/
theorem addTask (h : w.Standing) {id : TaskId} (callback : Callback) (t : SchedulerTask) :
    ((w.setTimeout id callback).setSchedulerTask id t).Standing := by
  intro s id' hs
  by_cases hne : id' = id
  · simp [setSchedulerTask, hne]
  · simpa [setSchedulerTask, setTimeout, hne] using h s id' hs

theorem setLink (h : w.Standing) {id : TaskId} (hid : w.schedulerTasks id ≠ none) (s : SocketRef)
    (task taskCls : Ptr) : (w.setObject s
      { w.objects s with handler := task, cls := taskCls, task := some id }).Standing := by
  intro r id' hr
  by_cases hrs : r = s
  · obtain rfl : id = id' := by simpa [setObject, hrs] using hr
    exact hid
  · exact h r id' (by simpa [setObject, hrs] using hr)

end Standing

/-- **The links stand**, unless the task of a closed socket is cancelled. -/
theorem Moves.standing (hm : Moves w e r) (h : Tables w) (hw : w.Standing)
    (hok : cancelsOpen w e) : r.1.Standing := by
  by_cases he : e.Network
  · have hq := hm.quiet he
    exact hw.change hq.links fun _ _ _ => by rw [hq.schedulerTasks]
  cases hm with
  | answered _ => exact hw
  | addedDelayed _ => exact hw.addTask _ _
  | addedRead _ _ =>
    exact (hw.addTask _ _).setLink (by simp [setSchedulerTask]) _ _ _
  | addedWrite _ => exact hw.addTask _ _
  | cancelled => exact hw.schedulerCancel h hok
  | @fired id _ _ hc =>
    exact Standing.runCallback (w := w.clearTimeout id) hw (h.clearTimeout id) hc
  | @delivered _ _ s _ => exact (hw.setQueue s _).wake (h.setQueue s _) s
  | @offered data =>
    unfold getMessage
    simp only
    split
    · exact hw
    · split
      · exact hw
      · exact Standing.wake (w := w.setIncoming (w.incoming ++ [data])) hw
          (h.frame (Nat.le_refl _) w.listening (w.incoming ++ [data]) w.heap8) _
  | stored => exact hw
  | _ => exact absurd trivial he

theorem standing_step {w' : Worker Port} {o : List (Output Port)} (h : Tables w)
    (hw : w.Standing) (hok : cancelsOpen w e) (hs : w.step e = some (w', o)) : w'.Standing :=
  (moves_of_step hs).standing h hw hok

/-! ## The outputs -/

/-- **Every event follows the life of every task.** -/
theorem Moves.life (hm : Moves w e r) (h : Tables w) (hw : w.Standing) (id' : TaskId) :
    life id' (w.phase id') r.2 = some (r.1.phase id') := by
  by_cases he : e.Network
  · exact (hm.quiet he).life id'
  cases hm with
  | answered ho => exact life_quiet id' _ fun o ho' => next_of_answers (ho o ho') id' _
  | @addedDelayed _ _ task taskCls id hid =>
    exact life_addTask hid (.delayed task taskCls) _ rfl rfl _ _ id'
  | @addedRead _ rfd task taskCls id s hid _ =>
    exact life_addTask hid (.readNet rfd s task taskCls) _ rfl rfl _ _ id'
  | @addedWrite _ _ task taskCls id hid =>
    exact life_addTask hid (.writeNet task taskCls) _ rfl rfl _ _ id'
  | cancelled => exact life_schedulerCancel h _ id'
  | @fired id callback harmed hc =>
    exact @life_runCallback _ (w.clearTimeout id) id callback hc
      (fun task taskCls he => h.delayed id task taskCls (he ▸ hc) harmed) id'
  | @delivered _ _ s _ =>
    exact life_wake (h.setQueue s _) (hw.setQueue s _) s id'
  | @offered data =>
    unfold getMessage
    simp only
    split
    · rfl
    · split
      · rfl
      · rename_i s _
        have hframe := h.frame (Nat.le_refl _) w.listening (w.incoming ++ [data]) w.heap8
        exact life_wake hframe hw s id'
  | stored => rfl
  | _ => exact absurd trivial he

theorem phase_step {w' : Worker Port} {o : List (Output Port)} (h : Tables w) (hw : w.Standing)
    (hs : w.step e = some (w', o)) (id' : TaskId) :
    life id' (w.phase id') o = some (w'.phase id') :=
  (moves_of_step hs).life h hw id'

/-- **The outputs of every run follow the life of every task**, and end in its phase, when
tasks are cancelled before their sockets are closed. -/
theorem life_run {es : List (Event Port)} {os : List (Output Port)} {w : Worker Port}
    (h : system.Run cancelsOpen es os w) :
    Tables w ∧ w.Standing ∧ ∀ id, life id .absent os = some (w.phase id) := by
  refine h.history
    (P := fun os w => Tables w ∧ w.Standing ∧ ∀ id, life id .absent os = some (w.phase id))
    (fun os w e w' o hP hok hst => ?_) ⟨tables_init, standing_init, fun _ => rfl⟩
  obtain ⟨htables, hstanding, hlife⟩ := hP
  refine ⟨tables_step htables hst, standing_step htables hstanding hok hst, fun id => ?_⟩
  rw [life_append, hlife id]
  exact phase_step htables hstanding hst id

end Step

end GnunetWeb.Worker
