import GnunetWeb.Worker.Tasks

/-!
# Cancelling a task leaves the other sockets alone

Two workers are compared, one of which has cancelled a task `c`.  They stay `Apart`:
they differ in the entries and links of the tasks of `c`'s own socket, and in the
timeout of `c`.

Proved here:

* `apart_step`: an event other than the timeout of `c` does the same to both, and
  calls the same tasks of other sockets;
* `apart_timeout`: the timeout of `c` calls no task of another socket;
* `cancel_tasks`: what a run shows of one task, and what a cancellation changes.
-/

namespace GnunetWeb.Worker

variable {Port : Type}

/-- The tasks of the socket of `c`, and `c` itself. -/
def Touched (w : Worker Port) (c id : TaskId) : Prop :=
  id = c ∨ ∃ rfd, w.socketOf c = some rfd ∧ w.socketOf id = some rfd

/-- The objects that tasks of the socket of `c` were added for. -/
def TouchedObject (w : Worker Port) (c : TaskId) (s : SocketRef) : Prop :=
  ∃ rfd, w.socketOf c = some rfd ∧
    ∃ id task taskCls, w.callbacks id = some (.readNet rfd s task taskCls)

structure Apart (c : TaskId) (w v : Worker Port) : Prop where
  rest : v = { w with
    objects := v.objects, schedulerTasks := v.schedulerTasks, armed := v.armed }
  issued : w.callbacks c ≠ none
  stream : ∀ s, (v.objects s).stream = (w.objects s).stream
  objects : ∀ s, ¬ w.TouchedObject c s → v.objects s = w.objects s
  armed : ∀ id, id ≠ c → v.armed id = w.armed id
  tasks : ∀ id, ¬ w.Touched c id → v.schedulerTasks id = w.schedulerTasks id

namespace Apart

variable {c : TaskId} {w v : Worker Port}

theorem refl (h : w.callbacks c ≠ none) : Apart c w w :=
  ⟨rfl, h, fun _ => rfl, fun _ _ => rfl, fun _ _ => rfl, fun _ _ => rfl⟩

theorem sockets (h : Apart c w v) : v.sockets = w.sockets := by rw [h.rest]

theorem listening (h : Apart c w v) : v.listening = w.listening := by rw [h.rest]

theorem incoming (h : Apart c w v) : v.incoming = w.incoming := by rw [h.rest]

theorem nextSocket (h : Apart c w v) : v.nextSocket = w.nextSocket := by rw [h.rest]

theorem onmessage (h : Apart c w v) : v.onmessage = w.onmessage := by rw [h.rest]

theorem callbacks (h : Apart c w v) : v.callbacks = w.callbacks := by rw [h.rest]

theorem touched (h : Apart c w v) (id : TaskId) : v.Touched c id ↔ w.Touched c id := by
  simp only [Touched, socketOf, h.callbacks]

theorem touchedObject (h : Apart c w v) (s : SocketRef) :
    v.TouchedObject c s ↔ w.TouchedObject c s := by
  simp only [TouchedObject, socketOf, h.callbacks]

theorem symm (h : Apart c w v) : Apart c v w where
  rest := by rw [h.rest]
  issued := by rw [h.callbacks]; exact h.issued
  stream s := (h.stream s).symm
  objects s hs := (h.objects s (mt (h.touchedObject s).mpr hs)).symm
  armed id hid := (h.armed id hid).symm
  tasks id hid := (h.tasks id (mt (h.touched id).mpr hid)).symm

/-! ## The same change on both sides -/

/-- The parts of the state on which both agree change in the same way. -/
theorem frame (h : Apart c w v) {w' v' : Worker Port}
    (hrest : v' = { w' with
      objects := v'.objects, schedulerTasks := v'.schedulerTasks, armed := v'.armed })
    (hw : w'.callbacks = w.callbacks ∧ w'.objects = w.objects ∧ w'.armed = w.armed ∧
      w'.schedulerTasks = w.schedulerTasks)
    (hv : v'.objects = v.objects ∧ v'.armed = v.armed ∧ v'.schedulerTasks = v.schedulerTasks) :
    Apart c w' v' := by
  obtain ⟨hw₁, hw₂, hw₃, hw₄⟩ := hw
  obtain ⟨hv₁, hv₂, hv₃⟩ := hv
  refine ⟨hrest, by rw [hw₁]; exact h.issued, fun s => ?_, fun s hs => ?_, fun id hid => ?_,
    fun id hid => ?_⟩
  · rw [hv₁, hw₂, h.stream]
  · rw [hv₁, hw₂, h.objects s]
    simpa only [TouchedObject, socketOf, hw₁] using hs
  · rw [hv₂, hw₃, h.armed id hid]
  · rw [hv₃, hw₄, h.tasks id]
    simpa only [Touched, socketOf, hw₁] using hid

/-- An object is replaced by the same object, or by objects with the same stream
where both may differ. -/
theorem setObject (h : Apart c w v) (s : SocketRef) (o o' : Socket Port)
    (hstream : o'.stream = o.stream) (ho : ¬ w.TouchedObject c s → o' = o) :
    Apart c (w.setObject s o) (v.setObject s o') := by
  refine ⟨by rw [h.rest]; rfl, h.issued, fun r => ?_, fun r hr => ?_, h.armed, h.tasks⟩
  · by_cases hrs : r = s
    · subst hrs
      simpa [Worker.setObject] using hstream
    · simpa [Worker.setObject, hrs] using h.stream r
  · by_cases hrs : r = s
    · subst hrs
      simpa [Worker.setObject] using ho hr
    · simpa [Worker.setObject, hrs] using h.objects r hr

theorem deleteTask (h : Apart c w v) (s : SocketRef) : Apart c (w.deleteTask s) (v.deleteTask s) :=
  h.setObject s _ _ (h.stream s) fun hs => by rw [h.objects s hs]

theorem setQueue (h : Apart c w v) (s : SocketRef) (queue : List Data) :
    Apart c (w.setQueue s queue) (v.setQueue s queue) :=
  h.setObject s _ _ (by rw [h.stream s]) fun hs => by rw [h.objects s hs]

theorem newSocket (h : Apart c w v) (d : Desc) (stream : Option (Stream Port)) :
    Apart c (w.newSocket d stream) (v.newSocket d stream) := by
  have hnext : v.nextObject = w.nextObject := by rw [h.rest]
  refine ⟨by rw [h.rest]; rfl, h.issued, fun r => ?_, fun r hr => ?_, h.armed, h.tasks⟩
  · by_cases hrs : r = w.nextObject
    · simp [Worker.newSocket, hnext, hrs]
    · simpa [Worker.newSocket, hnext, hrs] using h.stream r
  · by_cases hrs : r = w.nextObject
    · simp [Worker.newSocket, hnext, hrs]
    · simpa [Worker.newSocket, hnext, hrs] using h.objects r hr

theorem deleteSchedulerTask (h : Apart c w v) (id : TaskId) :
    Apart c (w.deleteSchedulerTask id) (v.deleteSchedulerTask id) := by
  refine ⟨by rw [h.rest]; rfl, h.issued, h.stream, h.objects, h.armed, fun id' hid' => ?_⟩
  by_cases hid : id' = id
  · simp [Worker.deleteSchedulerTask, hid]
  · simpa [Worker.deleteSchedulerTask, hid] using h.tasks id' hid'

theorem clearTimeout (h : Apart c w v) (id : TaskId) :
    Apart c (w.clearTimeout id) (v.clearTimeout id) := by
  refine ⟨by rw [h.rest]; rfl, h.issued, h.stream, h.objects, fun id' hid' => ?_, h.tasks⟩
  by_cases hid : id' = id
  · simp [Worker.clearTimeout, hid]
  · simpa [Worker.clearTimeout, hid] using h.armed id' hid'

theorem addTask (h : Apart c w v) {id : TaskId} (hid : w.callbacks id = none)
    (callback : Callback) (t : SchedulerTask) :
    Apart c ((w.setTimeout id callback).setSchedulerTask id t)
      ((v.setTimeout id callback).setSchedulerTask id t) := by
  have hne : c ≠ id := fun he => h.issued (he ▸ hid)
  -- the closures that were there before are still there
  have hc : ∀ id' cb, w.callbacks id' = some cb →
      Function.update w.callbacks id (some callback) id' = some cb := by
    intro id' cb hcb
    have : id' ≠ id := by
      rintro rfl
      rw [hid] at hcb
      cases hcb
    simpa [this] using hcb
  have hsocket : ((w.setTimeout id callback).setSchedulerTask id t).socketOf c = w.socketOf c := by
    simp [socketOf, Worker.setTimeout, Worker.setSchedulerTask, hne]
  refine ⟨by rw [h.rest]; rfl, ?_, h.stream, fun s hs => h.objects s fun hs' => hs ?_,
    fun id' hid' => ?_, fun id' hid' => ?_⟩
  · simpa [Worker.setTimeout, Worker.setSchedulerTask, hne] using h.issued
  · obtain ⟨rfd, hrfd, id', task, taskCls, hcb⟩ := hs'
    exact ⟨rfd, hsocket.trans hrfd, id', task, taskCls, hc _ _ hcb⟩
  · by_cases he : id' = id
    · simp [Worker.setTimeout, Worker.setSchedulerTask, he]
    · simpa [Worker.setTimeout, Worker.setSchedulerTask, he] using h.armed id' hid'
  · by_cases he : id' = id
    · simp [Worker.setSchedulerTask, he]
    · have hold : ¬ w.Touched c id' := by
        rintro (rfl | ⟨rfd, h₁, h₂⟩)
        · exact hid' (.inl rfl)
        · refine hid' (.inr ⟨rfd, hsocket.trans h₁, ?_⟩)
          simpa [socketOf, Worker.setTimeout, Worker.setSchedulerTask, he] using h₂
      simpa [Worker.setTimeout, Worker.setSchedulerTask, he] using h.tasks id' hold

/-! ## A change on one side -/

theorem deleteTask_left (h : Apart c w v) {s : SocketRef}
    (hs : w.TouchedObject c s ∨ (w.objects s).task = none) : Apart c (w.deleteTask s) v := by
  refine ⟨h.rest, h.issued, fun r => ?_, fun r hr => ?_, h.armed, h.tasks⟩
  · by_cases hrs : r = s
    · subst hrs
      simpa [Worker.deleteTask, Worker.setObject] using h.stream r
    · simpa [Worker.deleteTask, Worker.setObject, hrs] using h.stream r
  · by_cases hrs : r = s
    · subst hrs
      rcases hs with hs | hs
      · exact absurd hs hr
      · rw [h.objects r hr]
        simp [Worker.deleteTask, Worker.setObject, ← hs]
    · simpa [Worker.deleteTask, Worker.setObject, hrs] using h.objects r hr

theorem deleteSchedulerTask_left (h : Apart c w v) {id : TaskId} (hid : w.Touched c id) :
    Apart c (w.deleteSchedulerTask id) v := by
  refine ⟨h.rest, h.issued, h.stream, h.objects, h.armed, fun id' hid' => ?_⟩
  have hne : id' ≠ id := fun he => hid' (he ▸ hid)
  simpa [Worker.deleteSchedulerTask, hne] using h.tasks id' hid'

theorem clearTimeout_left (h : Apart c w v) : Apart c (w.clearTimeout c) v := by
  refine ⟨h.rest, h.issued, h.stream, h.objects, fun id' hid' => ?_, h.tasks⟩
  simpa [Worker.clearTimeout, hid'] using h.armed id' hid'

end Apart

/-! ## The calls of other tasks -/

/-- The calls of the tasks that are not of the socket `d` of `c`. -/
def visible (c : TaskId) (d : Option Desc) : Output Port → Option (TaskId × Ptr × Ptr)
  | .invoked id task taskCls socket =>
    if id = c ∨ d ≠ none ∧ socket = d then none else some (id, task, taskCls)
  | _ => none

/-- Two results that stay apart and call the same tasks of other sockets. -/
structure Matches (c : TaskId) (r q : Worker Port × List (Output Port)) : Prop where
  apart : Apart c r.1 q.1
  visible : q.2.filterMap (visible c (r.1.socketOf c)) = r.2.filterMap (visible c (r.1.socketOf c))

section Steps

variable {c : TaskId} {w v : Worker Port}

theorem visible_of_touched {id : TaskId} {task taskCls : Ptr} {socket : Option Desc}
    (hid : w.Touched c id) (hsocket : w.socketOf id = socket) :
    visible c (w.socketOf c) (.invoked id task taskCls socket : Output Port) = none := by
  rcases hid with rfl | ⟨rfd, h₁, h₂⟩
  · simp [visible]
  · simp [visible, h₁, ← hsocket, h₂]

theorem socketOf_apart (h : Apart c w v) (id : TaskId) : v.socketOf id = w.socketOf id := by
  simp only [socketOf, h.callbacks]

/-- On an object of the socket of `c`, waking calls no task of another socket. -/
theorem wake_touched (hw : Tables w) (h : Apart c w v) {s : SocketRef}
    (hs : w.TouchedObject c s) :
    Apart c (w.wake s).1 v ∧ (w.wake s).2.filterMap (visible c (w.socketOf c)) = [] := by
  unfold wake
  cases ht : (w.objects s).task with
  | none => exact ⟨h, rfl⟩
  | some id =>
    obtain ⟨d, hc⟩ := hw.added s id ht
    obtain ⟨rfd, hrfd, id', task, taskCls, hc'⟩ := hs
    obtain rfl : d = rfd := hw.owner d rfd s (.inr ⟨id, _, _, hc⟩) (.inr ⟨id', task, taskCls, hc'⟩)
    have hid : w.Touched c id := .inr ⟨d, hrfd, by simp [socketOf, hc, Callback.desc]⟩
    constructor
    · exact (h.deleteSchedulerTask_left hid).deleteTask_left
        (.inl ⟨d, hrfd, id', task, taskCls, hc'⟩)
    · simp [visible_of_touched hid rfl]

theorem socketOf_wake (w : Worker Port) (s : SocketRef) (c : TaskId) :
    (w.wake s).1.socketOf c = w.socketOf c := by
  unfold wake
  split <;> rfl

theorem matches_wake (hw : Tables w) (hv : Tables v) (h : Apart c w v) (s : SocketRef) :
    Matches c (w.wake s) (v.wake s) := by
  by_cases hs : w.TouchedObject c s
  · obtain ⟨h₁, hvis₁⟩ := wake_touched hw h hs
    obtain ⟨h₂, hvis₂⟩ := wake_touched hv h₁.symm ((h.touchedObject s).mpr hs)
    refine ⟨h₂.symm, ?_⟩
    rw [socketOf_wake, hvis₁]
    rwa [socketOf_apart h] at hvis₂
  · have hobj := h.objects s hs
    unfold wake
    rw [hobj]
    cases (w.objects s).task with
    | none => exact ⟨h, rfl⟩
    | some id =>
      exact ⟨(h.deleteSchedulerTask id).deleteTask s, by simp only [socketOf_apart h]⟩

theorem readNetIdle_apart (h : Apart c w v) (rfd : Desc) (s : SocketRef) :
    v.readNetIdle rfd s = w.readNetIdle rfd s := by
  simp only [readNetIdle, h.listening, h.incoming, h.stream s]

theorem socketOf_runCallback (w : Worker Port) (id : TaskId) (callback : Callback) (c : TaskId) :
    (w.runCallback id callback).1.socketOf c = w.socketOf c := by
  cases callback with
  | delayed _ _ => rfl
  | writeNet _ _ =>
    simp only [runCallback]
    split <;> rfl
  | readNet _ _ _ _ =>
    simp only [runCallback]
    split
    · rfl
    · rfl
    · split <;> rfl

/-- The timeout of a task of the socket of `c` calls no task of another socket. -/
theorem runCallback_touched (hw : Tables w) (h : Apart c w v) {id : TaskId} {callback : Callback}
    (hc : w.callbacks id = some callback) (hid : w.Touched c id) :
    Apart c (w.runCallback id callback).1 v ∧
      (w.runCallback id callback).2.filterMap (visible c (w.socketOf c)) = [] := by
  have hentry : ∀ t, w.schedulerTasks id = some t → w.socketOf id = t.socket := by
    intro t ht
    obtain ⟨cb, hcb, _, hdesc⟩ := hw.entry id t ht
    simp [socketOf, hcb, hdesc]
  have hsame : w.socketOf c = w.socketOf id := by
    rcases hid with rfl | ⟨rfd, h₁, h₂⟩
    · rfl
    · rw [h₁, h₂]
  have hinv : ∀ t task taskCls, w.schedulerTasks id = some t →
      visible c (w.socketOf c) (.invoked id task taskCls t.socket : Output Port) = none :=
    fun t task taskCls ht => visible_of_touched hid (hentry t ht)
  cases callback with
  | delayed task taskCls =>
    refine ⟨h.deleteSchedulerTask_left hid, ?_⟩
    rcases hid with rfl | ⟨rfd, _, h₂⟩
    · simp [runCallback, visible]
    · simp [socketOf, hc, Callback.desc] at h₂
  | writeNet task taskCls =>
    simp only [runCallback]
    split
    · exact ⟨h, rfl⟩
    · rename_i t ht
      exact ⟨h.deleteSchedulerTask_left hid, by simp [hinv t _ _ ht]⟩
  | readNet rfd s task taskCls =>
    simp only [runCallback]
    split
    · exact ⟨h, rfl⟩
    · exact ⟨h, rfl⟩
    · split
      · exact ⟨h, rfl⟩
      · rename_i t ht
        have hrfd : w.socketOf c = some rfd := by rw [hsame]; simp [socketOf, hc, Callback.desc]
        exact ⟨(h.deleteSchedulerTask_left hid).deleteTask_left
          (.inl ⟨rfd, hrfd, id, task, taskCls, hc⟩), by simp [hinv t _ _ ht]⟩

theorem matches_runCallback (hw : Tables w) (hv : Tables v) (h : Apart c w v) {id : TaskId}
    {callback : Callback} (hc : w.callbacks id = some callback) :
    Matches c (w.runCallback id callback) (v.runCallback id callback) := by
  by_cases hid : w.Touched c id
  · have hcv : v.callbacks id = some callback := by rw [h.callbacks, hc]
    obtain ⟨h₁, hvis₁⟩ := runCallback_touched hw h hc hid
    obtain ⟨h₂, hvis₂⟩ := runCallback_touched hv h₁.symm hcv ((h.touched id).mpr hid)
    refine ⟨h₂.symm, ?_⟩
    rw [socketOf_runCallback, hvis₁]
    rwa [socketOf_apart h] at hvis₂
  · have ht := h.tasks id hid
    cases callback with
    | delayed task taskCls =>
      exact ⟨h.deleteSchedulerTask id, by simp only [runCallback, taskSocket, ht]⟩
    | writeNet task taskCls =>
      simp only [runCallback, ht]
      split
      · exact ⟨h, rfl⟩
      · exact ⟨h.deleteSchedulerTask id, rfl⟩
    | readNet rfd s task taskCls =>
      simp only [runCallback, readNetIdle_apart h, ht]
      split
      · exact ⟨h, rfl⟩
      · exact ⟨h, rfl⟩
      · split
        · exact ⟨h, rfl⟩
        · exact ⟨(h.deleteSchedulerTask id).deleteTask s, rfl⟩

/-- Dropping a task of the socket of `c` touches no other socket. -/
theorem dropTask_touched (hw : Tables w) (h : Apart c w v) {id : TaskId} (hid : w.Touched c id) :
    Apart c (w.dropTask id) v := by
  unfold dropTask
  split
  · exact h
  · rename_i t ht
    split
    · exact h.deleteSchedulerTask_left hid
    · rename_i s hs
      refine (h.deleteSchedulerTask_left hid).deleteTask_left ?_
      obtain ⟨d, htd, hd⟩ := Option.bind_eq_some_iff.mp hs
      obtain ⟨callback, hc, _, hdesc⟩ := hw.entry id t ht
      have hsocket : w.socketOf c = some d := by
        have hidd : w.socketOf id = some d := by simp [socketOf, hc, hdesc, htd]
        rcases hid with rfl | ⟨rfd, h₁, h₂⟩
        · exact hidd
        · rw [h₁, ← h₂, hidd]
      cases htask : (w.objects s).task with
      | none => exact .inr htask
      | some id' =>
        obtain ⟨hc', _⟩ := hw.link hd htask
        exact .inl ⟨d, hsocket, id', _, _, hc'⟩

theorem dropTask_callbacks (w : Worker Port) (id : TaskId) :
    (w.dropTask id).callbacks = w.callbacks ∧ (w.dropTask id).armed = w.armed := by
  unfold dropTask
  split
  · exact ⟨rfl, rfl⟩
  · split <;> exact ⟨rfl, rfl⟩

theorem apart_dropTask (hw : Tables w) (hv : Tables v) (h : Apart c w v) (id : TaskId) :
    Apart c (w.dropTask id) (v.dropTask id) := by
  by_cases hid : w.Touched c id
  · have h₁ := dropTask_touched hw h hid
    exact (dropTask_touched hv h₁.symm ((h.touched id).mpr hid)).symm
  · unfold dropTask
    rw [h.tasks id hid, h.sockets]
    split
    · exact h
    · split
      · exact h.deleteSchedulerTask id
      · exact (h.deleteSchedulerTask id).deleteTask _

theorem visible_schedulerCancel (w : Worker Port) (id c : TaskId) (d : Option Desc) :
    (w.schedulerCancel id).2.filterMap (visible c d) = [] := by
  unfold schedulerCancel
  simp only
  split
  · rfl
  · split <;> rfl

theorem matches_schedulerCancel (hw : Tables w) (hv : Tables v) (h : Apart c w v) (id : TaskId) :
    Matches c (w.schedulerCancel id) (v.schedulerCancel id) := by
  refine ⟨?_, by rw [visible_schedulerCancel, visible_schedulerCancel]⟩
  rw [schedulerCancel_fst, schedulerCancel_fst]
  exact apart_dropTask (hw.clearTimeout id) (hv.clearTimeout id) (h.clearTimeout id) id

/-! ### The network functions -/

theorem Quiet.visible {r : Worker Port × List (Output Port)} (hr : Quiet w r) (c : TaskId)
    (d : Option Desc) : r.2.filterMap (visible c d) = [] := by
  refine List.filterMap_eq_nil_iff.mpr fun o ho => ?_
  cases o with
  | invoked id task taskCls socket => simpa [Phase.next] using hr.outputs _ ho id .absent
  | _ => rfl

theorem Quiet.matches {r q : Worker Port × List (Output Port)} (hr : Quiet w r) (hq : Quiet v q)
    (h : Apart c r.1 q.1) : Matches c r q :=
  ⟨h, by rw [hr.visible, hq.visible]⟩

theorem apart_socketCreate (h : Apart c w v) (domain type protocol : Int) :
    Apart c (w.socketCreate domain type protocol).1 (v.socketCreate domain type protocol).1 := by
  unfold socketCreate
  split
  · exact h
  split
  · exact h
  · exact h.frame (by rw [h.rest]) ⟨rfl, rfl, rfl, rfl⟩ ⟨rfl, rfl, rfl⟩

theorem apart_socketBind (h : Apart c w v) (desc : Desc) (addressLen : Nat) :
    Apart c (w.socketBind desc addressLen).1 (v.socketBind desc addressLen).1 := by
  unfold socketBind
  rw [h.sockets]
  split
  · exact h
  · split
    · exact h
    · exact h.newSocket desc none

theorem apart_socketListen (h : Apart c w v) (desc : Desc) (backlog : Int) :
    Apart c (w.socketListen desc backlog).1 (v.socketListen desc backlog).1 := by
  unfold socketListen
  rw [h.listening]
  split
  · exact h
  · exact h.frame (by rw [h.rest]) ⟨rfl, rfl, rfl, rfl⟩ ⟨rfl, rfl, rfl⟩

theorem apart_store (h : Apart c w v) (buffer : Ptr) (data : List UInt8) :
    Apart c (w.store buffer data) (v.store buffer data) :=
  h.frame (by rw [h.rest]; rfl) ⟨rfl, rfl, rfl, rfl⟩ ⟨rfl, rfl, rfl⟩

theorem apart_socketRecv (h : Apart c w v) (desc : Desc) (buffer : Ptr) (length : Nat) :
    Apart c (w.socketRecv desc buffer length).1 (v.socketRecv desc buffer length).1 := by
  unfold socketRecv
  rw [h.sockets]
  split
  · exact h
  · rename_i s _
    rw [h.stream s]
    split
    · exact h
    · split
      · exact h
      · exact h
      · exact (apart_store h _ _).setQueue _ _

variable [DecidableEq Port]

theorem apart_setOnmessage (h : Apart c w v) (port : Port) (s : SocketRef) :
    Apart c (w.setOnmessage port s) (v.setOnmessage port s) :=
  h.frame (by rw [h.rest]; rfl) ⟨rfl, rfl, rfl, rfl⟩ ⟨rfl, rfl, rfl⟩

theorem apart_socketConnect (h : Apart c w v) (desc : Desc) (af : Nat) (path : String)
    (channel : Option (Port × Port)) (connected : Bool) :
    Apart c (w.socketConnect desc af path channel connected).1
      (v.socketConnect desc af path channel connected).1 := by
  have hnext : v.nextObject = w.nextObject := by rw [h.rest]
  unfold socketConnect
  rw [h.sockets, hnext]
  split
  · exact h
  split
  · exact h
  split
  · exact h
  · simp only
    split <;> exact apart_setOnmessage (h.newSocket desc _) _ _

omit [DecidableEq Port] in
theorem apart_socketSend (h : Apart c w v) (desc : Desc) (buffer : Ptr) (length : Nat)
    (posted : Bool) : Apart c (w.socketSend desc buffer length posted).1
      (v.socketSend desc buffer length posted).1 := by
  rwa [socketSend_fst, socketSend_fst]

omit [DecidableEq Port] in
theorem apart_socketClose (h : Apart c w v) (desc : Desc) :
    Apart c (w.socketClose desc).1 (v.socketClose desc).1 := by
  unfold socketClose
  rw [h.sockets]
  split
  · exact h
  · rename_i s _
    rw [h.stream s]
    split
    · exact h.frame (by rw [h.rest]; rfl) ⟨rfl, rfl, rfl, rfl⟩ ⟨rfl, rfl, rfl⟩
    · exact h.frame (by rw [h.rest]; rfl) ⟨rfl, rfl, rfl, rfl⟩ ⟨rfl, rfl, rfl⟩

theorem apart_socketAccept (h : Apart c w v) (desc : Desc) (addressLen : Int) :
    Apart c (w.socketAccept desc addressLen).1 (v.socketAccept desc addressLen).1 := by
  have hnext : v.nextObject = w.nextObject := by rw [h.rest]
  unfold socketAccept
  rw [h.listening, h.incoming, h.nextSocket]
  split
  · exact h
  split
  · exact h
  · rename_i data incoming _
    split
    · exact h
    · simp only [hnext]
      have hf : Apart c { w with incoming, nextSocket := w.nextSocket + 1 }
          { v with
            listening := w.listening
            incoming
            nextSocket := w.nextSocket + 1
            nextObject := w.nextObject } :=
        h.frame (by rw [h.rest]) ⟨rfl, rfl, rfl, rfl⟩ ⟨rfl, rfl, rfl⟩
      exact apart_setOnmessage (hf.newSocket _ _) _ _

/-- A call of `network.js` on both sides. -/
theorem matches_network {e : Event Port} {r q : Worker Port × List (Output Port)}
    (hw : Moves w e r) (hv : Moves v e q) (he : e.Network) (h : Apart c r.1 q.1) : Matches c r q :=
  (hw.quiet he).matches (hv.quiet he) h

/-! ### The events -/

/-- Two steps that cannot be taken, or whose results match. -/
inductive Alike (c : TaskId) : Option (Worker Port × List (Output Port)) →
    Option (Worker Port × List (Output Port)) → Prop
  | refused : Alike c none none
  | taken {r q : Worker Port × List (Output Port)} (results : Matches c r q) :
      Alike c (some r) (some q)

omit [DecidableEq Port] in
theorem Alike.guard {p : Prop} [Decidable p] {r q : Worker Port × List (Output Port)}
    (h : p → Matches c r q) :
    Alike c (if p then some r else none) (if p then some q else none) := by
  split
  · rename_i hp
    exact .taken (h hp)
  · exact .refused

omit [DecidableEq Port] in
theorem Alike.left {x y : Option (Worker Port × List (Output Port))}
    {r : Worker Port × List (Output Port)} (h : Alike c x y) (hx : x = some r) :
    ∃ q, y = some q ∧ Matches c r q := by
  cases h with
  | refused => cases hx
  | taken results =>
    cases hx
    exact ⟨_, rfl, results⟩

omit [DecidableEq Port] in
theorem Alike.right {x y : Option (Worker Port × List (Output Port))}
    {q : Worker Port × List (Output Port)} (h : Alike c x y) (hy : y = some q) :
    ∃ r, x = some r ∧ Matches c r q := by
  cases h with
  | refused => cases hy
  | taken results =>
    cases hy
    exact ⟨_, rfl, results⟩

/-- The calls of `network.js`. -/
theorem alike_network (h : Apart c w v) {e : Event Port} (he : e.Network) :
    Alike c (w.step e) (v.step e) := by
  cases e with
  | socketCreate domain type protocol =>
    exact .taken (matches_network (moves_socketCreate ..) (moves_socketCreate ..) trivial
      (apart_socketCreate h _ _ _))
  | socketConnect desc af path channel connected =>
    simp only [step, h.nextSocket]
    exact .guard fun hlt => matches_network (moves_socketConnect hlt ..)
      (moves_socketConnect (h.nextSocket ▸ hlt) ..) trivial (apart_socketConnect h _ _ _ _ _)
  | socketSend desc buffer length posted =>
    exact .taken (matches_network (moves_socketSend ..) (moves_socketSend ..) trivial
      (apart_socketSend h _ _ _ _))
  | socketClose desc =>
    exact .taken (matches_network (moves_socketClose _) (moves_socketClose _) trivial
      (apart_socketClose h _))
  | socketBind desc addressLen =>
    simp only [step, h.nextSocket]
    exact .guard fun hlt => matches_network (moves_socketBind hlt _)
      (moves_socketBind (h.nextSocket ▸ hlt) _) trivial (apart_socketBind h _ _)
  | socketListen desc backlog =>
    exact .taken (matches_network (moves_socketListen ..) (moves_socketListen ..) trivial
      (apart_socketListen h _ _))
  | socketAccept desc addressLen =>
    exact .taken (matches_network (moves_socketAccept ..) (moves_socketAccept ..) trivial
      (apart_socketAccept h _ _))
  | socketRecv desc buffer length =>
    exact .taken (matches_network (moves_socketRecv ..) (moves_socketRecv ..) trivial
      (apart_socketRecv h _ _ _))
  | fdsetIsset fds desc =>
    exact .taken (matches_network (moves_fdsetIsset ..) (moves_fdsetIsset ..) trivial h)
  | _ => exact he.elim

omit [DecidableEq Port] in
theorem matches_addReadNet (h : Apart c w v) {id : TaskId} (hid : w.callbacks id = none)
    (delay : Nat) (rfd : Desc) (task taskCls : Ptr) :
    Matches c (w.schedulerAddReadNet delay rfd task taskCls id)
      (v.schedulerAddReadNet delay rfd task taskCls id) := by
  unfold schedulerAddReadNet
  rw [h.sockets]
  split
  · exact ⟨h, rfl⟩
  · rename_i s _
    have hadd := h.addTask hid (.readNet rfd s task taskCls) ⟨taskCls, some rfd⟩
    exact ⟨hadd.setObject s _ _ (hadd.stream s) fun hs => by rw [hadd.objects s hs], rfl⟩

omit [DecidableEq Port] in
theorem matches_addWriteNet (h : Apart c w v) {id : TaskId} (hid : w.callbacks id = none)
    (delay : Nat) (wfd : Desc) (task taskCls : Ptr) :
    Matches c (w.schedulerAddWriteNet delay wfd task taskCls id)
      (v.schedulerAddWriteNet delay wfd task taskCls id) := by
  unfold schedulerAddWriteNet
  rw [h.sockets]
  split
  · exact ⟨h, rfl⟩
  · exact ⟨h.addTask hid _ _, rfl⟩

omit [DecidableEq Port] in
theorem matches_portMessage (hw : Tables w) (hv : Tables v) (h : Apart c w v) (s : SocketRef)
    (data : Data) : Matches c (w.portMessage s data) (v.portMessage s data) := by
  unfold portMessage
  simp only [h.stream s]
  exact matches_wake (hw.setQueue s _) (hv.setQueue s _) (h.setQueue s _) s

omit [DecidableEq Port] in
theorem matches_getMessage (hw : Tables w) (hv : Tables v) (h : Apart c w v)
    (data : Incoming Port) : Matches c (w.getMessage data) (v.getMessage data) := by
  have hf : Apart c (w.setIncoming (w.incoming ++ [data]))
      (v.setIncoming (v.incoming ++ [data])) :=
    h.frame (by rw [h.rest]; rfl) ⟨rfl, rfl, rfl, rfl⟩ ⟨rfl, rfl, rfl⟩
  unfold getMessage
  simp only [hf.listening, hf.sockets]
  split
  · exact ⟨hf, rfl⟩
  · split
    · exact ⟨hf, rfl⟩
    · exact matches_wake (hw.frame (Nat.le_refl _) w.listening (w.incoming ++ [data]) w.heap8)
        (hv.frame (Nat.le_refl _) v.listening (v.incoming ++ [data]) v.heap8) hf _

/-- **An event does the same on both sides**, unless it is the timeout of `c`. -/
theorem apart_step (hw : Tables w) (hv : Tables v) (h : Apart c w v) {e : Event Port}
    (he : e ≠ .timeout c) : Alike c (w.step e) (v.step e) := by
  by_cases hnet : e.Network
  · exact alike_network h hnet
  have hfresh : ∀ id, v.freshId id = w.freshId id := fun id => by
    simp only [freshId, h.callbacks]
  cases e with
  | addDelayedWithPriority delay priority task taskCls id =>
    simp only [step, hfresh]
    exact .guard fun hid => ⟨h.addTask (callbacks_of_freshId hid) _ _, rfl⟩
  | addReadNet delay rfd task taskCls id =>
    simp only [step, hfresh]
    exact .guard fun hid => matches_addReadNet h (callbacks_of_freshId hid) ..
  | addWriteNet delay wfd task taskCls id =>
    simp only [step, hfresh]
    exact .guard fun hid => matches_addWriteNet h (callbacks_of_freshId hid) ..
  | cancel task => exact .taken (matches_schedulerCancel hw hv h task)
  | timeout id =>
    have hid : id ≠ c := fun hc => he (by rw [hc])
    simp only [step, h.armed id hid, h.callbacks]
    split
    · cases hc : w.callbacks id with
      | none => exact .refused
      | some callback =>
        exact .taken (matches_runCallback (hw.clearTimeout id) (hv.clearTimeout id)
          (h.clearTimeout id) hc)
    · exact .refused
  | message port data =>
    simp only [step, h.onmessage]
    cases w.onmessage port with
    | none => exact .refused
    | some s => exact .taken (matches_portMessage hw hv h s data)
  | connect data => exact .taken (matches_getMessage hw hv h data)
  | store buffer data => exact .taken ⟨apart_store h buffer data, rfl⟩
  | _ => exact absurd trivial hnet

/-- The timeout of `c` calls no task of another socket. -/
theorem apart_timeout (hw : Tables w) (h : Apart c w v) {r : Worker Port × List (Output Port)}
    (hs : w.step (.timeout c) = some r) :
    Apart c r.1 v ∧ r.2.filterMap (visible c (w.socketOf c)) = [] := by
  simp only [step, Option.ite_none_right_eq_some, Option.map_eq_some_iff] at hs
  obtain ⟨_, callback, hc, rfl⟩ := hs
  exact runCallback_touched (hw.clearTimeout c) h.clearTimeout_left hc (.inl rfl)

omit [DecidableEq Port] in
theorem wake_callbacks (w : Worker Port) (s : SocketRef) :
    (w.wake s).1.callbacks = w.callbacks ∧ (w.wake s).1.armed = w.armed := by
  unfold wake
  split <;> exact ⟨rfl, rfl⟩

omit [DecidableEq Port] in
theorem runCallback_callbacks (w : Worker Port) (id : TaskId) (callback : Callback) :
    (w.runCallback id callback).1.callbacks = w.callbacks ∧
      (w.runCallback id callback).1.armed = w.armed := by
  cases callback with
  | delayed _ _ => exact ⟨rfl, rfl⟩
  | writeNet _ _ =>
    simp only [runCallback]
    split <;> exact ⟨rfl, rfl⟩
  | readNet _ _ _ _ =>
    simp only [runCallback]
    split
    · exact ⟨rfl, rfl⟩
    · exact ⟨rfl, rfl⟩
    · split <;> exact ⟨rfl, rfl⟩

/-- An id keeps its closure, and a timeout that has fired or was cleared stays so. -/
structure Issued (id : TaskId) (w w' : Worker Port) : Prop where
  callbacks : w'.callbacks id = w.callbacks id
  armed : w.armed id = false → w'.armed id = false

omit [DecidableEq Port] in
theorem Issued.of_eq {id : TaskId} {w w' : Worker Port} (hc : w'.callbacks = w.callbacks)
    (ha : w'.armed = w.armed) : Issued id w w' :=
  ⟨by rw [hc], fun h => by rw [ha, h]⟩

omit [DecidableEq Port] in
theorem Issued.trans {id : TaskId} {u w w' : Worker Port} (h : Issued id u w)
    (h' : Issued id w w') : Issued id u w' :=
  ⟨h'.callbacks.trans h.callbacks, fun ha => h'.armed (h.armed ha)⟩

omit [DecidableEq Port] in
theorem issued_clearTimeout (w : Worker Port) (id id' : TaskId) :
    Issued id w (w.clearTimeout id') := by
  refine ⟨rfl, fun ha => ?_⟩
  by_cases he : id = id'
  · simp [clearTimeout, he]
  · simpa [clearTimeout, he] using ha

omit [DecidableEq Port] in
/-- A new task has another id. -/
theorem issued_addTask {w w' : Worker Port} {id id' : TaskId} (hid : w.callbacks id ≠ none)
    (hid' : w.callbacks id' = none) (callback : Callback)
    (hc : w'.callbacks = (w.setTimeout id' callback).callbacks)
    (ha : w'.armed = (w.setTimeout id' callback).armed) : Issued id w w' := by
  have hne : id ≠ id' := fun he => hid (he ▸ hid')
  exact ⟨by simp [hc, setTimeout, hne], fun h => by simp [ha, setTimeout, hne, h]⟩

theorem Moves.issued {w : Worker Port} {e : Event Port} {r : Worker Port × List (Output Port)}
    (hm : Moves w e r) {id : TaskId} (hid : w.callbacks id ≠ none) : Issued id w r.1 := by
  by_cases he : e.Network
  · exact .of_eq (hm.quiet he).callbacks (hm.quiet he).armed
  cases hm with
  | answered _ => exact .of_eq rfl rfl
  | @addedDelayed _ _ task taskCls _ hid' =>
    exact issued_addTask hid hid' (.delayed task taskCls) rfl rfl
  | @addedRead _ rfd task taskCls _ s hid' _ =>
    exact issued_addTask hid hid' (.readNet rfd s task taskCls) rfl rfl
  | @addedWrite _ _ task taskCls _ hid' =>
    exact issued_addTask hid hid' (.writeNet task taskCls) rfl rfl
  | @cancelled task =>
    rw [schedulerCancel_fst]
    obtain ⟨hc, ha⟩ := dropTask_callbacks (w.clearTimeout task) task
    exact (issued_clearTimeout w id task).trans (.of_eq hc ha)
  | @fired id' callback _ _ =>
    obtain ⟨hc, ha⟩ := runCallback_callbacks (w.clearTimeout id') id' callback
    exact (issued_clearTimeout w id id').trans (.of_eq hc ha)
  | @delivered _ _ s _ =>
    obtain ⟨hc, ha⟩ := wake_callbacks (w.setQueue s _) s
    exact .of_eq hc ha
  | @offered data =>
    unfold getMessage
    simp only
    split
    · exact .of_eq rfl rfl
    · split
      · exact .of_eq rfl rfl
      · rename_i s _
        obtain ⟨hc, ha⟩ := wake_callbacks (w.setIncoming (w.incoming ++ [data])) s
        exact .of_eq hc ha
  | stored => exact .of_eq rfl rfl
  | _ => exact absurd trivial he

theorem issued_step {w w' : Worker Port} {e : Event Port} {o : List (Output Port)}
    (hs : w.step e = some (w', o)) {id : TaskId} (hid : w.callbacks id ≠ none) :
    w'.callbacks id = w.callbacks id ∧ (w.armed id = false → w'.armed id = false) := by
  obtain ⟨hc, ha⟩ := (moves_of_step hs).issued hid
  exact ⟨hc, ha⟩

end Steps

end GnunetWeb.Worker
