import GnunetWeb.Worker.Tasks

/-!
# Read tasks and readable sockets

A read task is woken by its timer, once, or by the arrival of what it waits for.
With the callers that `disciplined` describes, one of the two is always to come.

Proved here:

* `waiting_step`: the invariant `Waiting`: a pending read task of a readable socket
  still has its timer;
* `readable_step`: whenever the handler of a read task is called, its socket is
  readable;
* `read_tasks`: both, for every run.
-/

namespace GnunetWeb.Worker

variable {Port : Type}

/-- `GNUNET_NETWORK_fdset_isset` on the set of the descriptors to read from. -/
def Readable (w : Worker Port) (d : Desc) : Prop := ∃ n, w.fdsetIsset 1 d = some n ∧ n ≠ 0

theorem readable_iff {w : Worker Port} {d : Desc} {s : SocketRef} (hd : w.sockets d = some s) :
    w.Readable d ↔ w.readNetIdle d s = some false := by
  simp only [Readable, fdsetIsset, readNetIdle, hd]
  by_cases hl : w.listening = some d
  · simp [hl, List.isEmpty_eq_false_iff]
  · cases (w.objects s).stream with
    | none => simp [hl]
    | some st => simp [hl, List.isEmpty_eq_false_iff]

/-- How the callers use sockets: at most one read task for a socket, and none when
it is closed; a read task on a bound socket only when it listens; a socket that
listens exists and is not connected. -/
def disciplined (w : Worker Port) : Event Port → Prop
  | .addReadNet _ rfd _ _ _ =>
    (∀ id, w.taskSocket id ≠ some rfd) ∧
      ∀ s, w.sockets rfd = some s → (w.objects s).stream = none → w.listening = some rfd
  | .socketClose desc => ∀ id, w.taskSocket id ≠ some desc
  | .socketListen desc _ =>
    desc < w.nextSocket ∧ ∀ s, w.sockets desc = some s → (w.objects s).stream = none
  | .socketConnect desc _ _ _ _ => w.listening ≠ some desc
  | _ => True

/-- The read task `id` is linked from the socket `d`. -/
def Linked (w : Worker Port) (id : TaskId) (d : Desc) : Prop :=
  ∃ s, w.sockets d = some s ∧ (w.objects s).task = some id ∧
    ((w.objects s).stream = none → w.listening = some d)

/-- The part of the invariant that holds inside an event as well. -/
structure Linkage (w : Worker Port) : Prop where
  tables : Tables w
  listenFresh : ∀ d, w.listening = some d → d < w.nextSocket
  bound : ∀ d s, w.listening = some d → w.sockets d = some s → (w.objects s).stream = none
  linked : ∀ id d, w.taskSocket id = some d → w.Linked id d
  /-- a socket is closed without a task -/
  attached : ∀ s id, (w.objects s).task = some id → ∃ d, w.sockets d = some s

/-- A read task has its timer, unless its socket has nothing to read. -/
structure Waiting (w : Worker Port) : Prop extends Linkage w where
  waits : ∀ id d, w.taskSocket id = some d → w.armed id ∨ ¬ w.Readable d

theorem waiting_init : Waiting (init : Worker Port) :=
  ⟨⟨tables_init, by simp [init], by simp [init], by simp [taskSocket, init], by simp [init]⟩,
    by simp [taskSocket, init]⟩

/-! ## What leaves a socket alone -/

/-- The socket `d` keeps its object and its task, and gets nothing new to read. -/
structure Unmoved (w w' : Worker Port) (d : Desc) : Prop where
  sockets : w'.sockets d = w.sockets d
  task : ∀ s, w.sockets d = some s → (w'.objects s).task = (w.objects s).task
  bound : ∀ s, w.sockets d = some s → (w'.objects s).stream = none → (w.objects s).stream = none
  queue : ∀ s st', w.sockets d = some s → (w'.objects s).stream = some st' → st'.queue ≠ [] →
    ∃ st, (w.objects s).stream = some st ∧ st.queue ≠ []
  listening : w'.listening = some d ↔ w.listening = some d
  incoming : w.listening = some d → w'.incoming ≠ [] → w.incoming ≠ []

/-- The objects are the same. -/
theorem unmoved_of_objects {w w' : Worker Port} {d : Desc} (hd : w'.sockets d = w.sockets d)
    (hobj : ∀ s, w.sockets d = some s → w'.objects s = w.objects s)
    (hl : w'.listening = some d ↔ w.listening = some d)
    (hi : w.listening = some d → w'.incoming ≠ [] → w.incoming ≠ []) : Unmoved w w' d := by
  refine ⟨hd, fun s hs => by rw [hobj s hs], fun s hs => by rw [hobj s hs]; exact fun h => h,
    fun s st' hs hst hq => ?_, hl, hi⟩
  rw [hobj s hs] at hst
  exact ⟨st', hst, hq⟩

theorem Unmoved.linked {w w' : Worker Port} {id : TaskId} {d : Desc} (h : Unmoved w w' d)
    (hl : w.Linked id d) : w'.Linked id d := by
  obtain ⟨s, hs, ht, hst⟩ := hl
  exact ⟨s, h.sockets.trans hs, (h.task s hs).trans ht,
    fun hn => h.listening.mpr (hst (h.bound s hs hn))⟩

theorem Unmoved.readable {w w' : Worker Port} {d : Desc} (h : Unmoved w w' d)
    (hr : w'.Readable d) : w.Readable d := by
  simp only [Readable, fdsetIsset, h.listening, h.sockets] at hr ⊢
  by_cases hld : w.listening = some d
  · simpa [hld] using h.incoming hld (by simpa [hld] using hr)
  · cases hs : w.sockets d with
    | none => simp [hld, hs] at hr
    | some s =>
      simp only [hld, hs, if_false, Nat.reduceEqDiff] at hr ⊢
      obtain ⟨n, hn, hne⟩ := hr
      obtain ⟨st', hst', rfl⟩ := Option.map_eq_some_iff.mp hn
      obtain ⟨st, hst, hq⟩ := h.queue s st' hs hst' (by simpa using hne)
      exact ⟨_, by rw [hst]; rfl, by simpa using hq⟩

/-- A step that does nothing to the sockets of the read tasks. -/
theorem Waiting.unmoved {w w' : Worker Port} (h : Waiting w) (ht : Tables w')
    (hts : ∀ id d, w'.taskSocket id = some d → w.taskSocket id = some d)
    (ha : ∀ id d, w'.taskSocket id = some d → w.armed id → w'.armed id)
    (hfresh : ∀ d, w'.listening = some d → d < w'.nextSocket)
    (hbound : ∀ d s, w'.listening = some d → w'.sockets d = some s → (w'.objects s).stream = none)
    (hattached : ∀ s id, (w'.objects s).task = some id → ∃ d, w'.sockets d = some s)
    (hunmoved : ∀ id d, w'.taskSocket id = some d → Unmoved w w' d) : Waiting w' := by
  refine ⟨⟨ht, hfresh, hbound, fun id d hid => ?_, hattached⟩, fun id d hid => ?_⟩
  · exact (hunmoved id d hid).linked (h.linked id d (hts id d hid))
  · rcases h.waits id d (hts id d hid) with hw | hw
    · exact .inl (ha id d hid hw)
    · exact .inr fun hr => hw ((hunmoved id d hid).readable hr)

/-- Two read tasks wait on different sockets. -/
theorem Linkage.task_unique {w : Worker Port} (h : Linkage w) {id id' : TaskId} {d : Desc}
    (h₁ : w.taskSocket id = some d) (h₂ : w.taskSocket id' = some d) : id = id' := by
  obtain ⟨s, hs, ht, _⟩ := h.linked id d h₁
  obtain ⟨s', hs', ht', _⟩ := h.linked id' d h₂
  obtain rfl : s = s' := Option.some.inj (hs.symm.trans hs')
  exact Option.some.inj (ht.symm.trans ht')

theorem taskSocket_deleteSchedulerTask {w : Worker Port} {id id' : TaskId} {d : Desc}
    (h : (w.deleteSchedulerTask id).taskSocket id' = some d) :
    id' ≠ id ∧ w.taskSocket id' = some d := by
  by_cases hid : id' = id
  · simp [taskSocket, deleteSchedulerTask, hid] at h
  · exact ⟨hid, by simpa [taskSocket, deleteSchedulerTask, hid] using h⟩

/-! ## Taking a task out -/

theorem readable_deleteTask {w : Worker Port} (s : SocketRef) {d : Desc} :
    (w.deleteTask s).Readable d ↔ w.Readable d := by
  simp only [Readable, fdsetIsset, (TasksOnly.deleteTask w s).stream]
  exact Iff.rfl

/-- The read task of a socket leaves both tables; the others wait as before. -/
theorem Linkage.takeOut {w : Worker Port} (h : Linkage w) {id : TaskId} {d : Desc} {s : SocketRef}
    (hid : w.taskSocket id = some d) (hd : w.sockets d = some s)
    (hwaits : ∀ id' d', d' ≠ d → w.taskSocket id' = some d' → w.armed id' ∨ ¬ w.Readable d')
    (ht : Tables ((w.deleteSchedulerTask id).deleteTask s)) :
    Waiting ((w.deleteSchedulerTask id).deleteTask s) := by
  have hother : ∀ id' d', ((w.deleteSchedulerTask id).deleteTask s).taskSocket id' = some d' →
      w.taskSocket id' = some d' ∧ d' ≠ d := by
    intro id' d' hid'
    obtain ⟨hne, hid''⟩ := @taskSocket_deleteSchedulerTask _ _ id _ _ hid'
    refine ⟨hid'', ?_⟩
    rintro rfl
    exact hne (h.task_unique hid'' hid)
  have hlinked : ∀ id' d', ((w.deleteSchedulerTask id).deleteTask s).taskSocket id' = some d' →
      ((w.deleteSchedulerTask id).deleteTask s).Linked id' d' := by
    intro id' d' hid'
    obtain ⟨hid'', hdd⟩ := hother id' d' hid'
    obtain ⟨s', hs', ht', hst'⟩ := h.linked id' d' hid''
    have hss : s' ≠ s := by
      rintro rfl
      exact hdd (h.tables.owner d' d s' (.inl hs') (.inl hd))
    refine ⟨s', hs', ?_, fun hn => hst' (by rwa [(TasksOnly.deleteTask _ _).stream] at hn)⟩
    simpa [deleteTask, setObject, deleteSchedulerTask, hss] using ht'
  refine ⟨⟨ht, h.listenFresh, fun d' s' hl hs' => ?_, hlinked, fun r id' hr => ?_⟩,
    fun id' d' hid' => ?_⟩
  · rw [(TasksOnly.deleteTask _ _).stream]
    exact h.bound d' s' hl hs'
  · by_cases hrs : r = s
    · exact ⟨d, hrs ▸ hd⟩
    · exact h.attached r id' (by simpa [deleteTask, setObject, hrs, deleteSchedulerTask] using hr)
  · obtain ⟨hid'', hdd⟩ := hother id' d' hid'
    rw [readable_deleteTask]
    exact hwaits id' d' hdd hid''

/-- What arrives at a socket finds its task. -/
theorem Linkage.wake {w : Worker Port} (h : Linkage w) {d : Desc} {s : SocketRef}
    (hd : w.sockets d = some s)
    (hwaits : ∀ id' d', d' ≠ d → w.taskSocket id' = some d' → w.armed id' ∨ ¬ w.Readable d') :
    Waiting (w.wake s).1 := by
  have htables := h.tables.wake s
  unfold Worker.wake at htables ⊢
  cases ht : (w.objects s).task with
  | none =>
    refine ⟨h, fun id' d' hid' => hwaits id' d' ?_ hid'⟩
    rintro rfl
    obtain ⟨s', hs', ht', _⟩ := h.linked id' d' hid'
    obtain rfl : s' = s := Option.some.inj (hs'.symm.trans hd)
    rw [ht] at ht'
    cases ht'
  | some id =>
    simp only [ht] at htables
    obtain ⟨_, he⟩ := h.tables.link hd ht
    exact h.takeOut (by simp [taskSocket, he]) hd hwaits htables

/-! ## The events -/

theorem Waiting.newSocket {w w' : Worker Port} (h : Waiting w) (ht : Tables w') {desc : Desc}
    {o : Socket Port} (hd : w.sockets desc = none)
    (hsockets : w'.sockets = Function.update w.sockets desc (some w.nextObject))
    (hobjects : w'.objects = Function.update w.objects w.nextObject o)
    (hsame : w'.listening = w.listening ∧ w'.schedulerTasks = w.schedulerTasks ∧ w'.armed = w.armed)
    (hn : w.nextSocket ≤ w'.nextSocket) (hi : w'.incoming ≠ [] → w.incoming ≠ [])
    (hb : o.stream = none ∨ w.listening ≠ some desc) (ho : o.task = none) : Waiting w' := by
  obtain ⟨hl, hts, ha⟩ := hsame
  have htask : ∀ id, w'.taskSocket id = w.taskSocket id := fun id => by simp only [taskSocket, hts]
  refine h.unmoved ht (fun id d hid => by rwa [htask] at hid) (fun id d _ harm => by rwa [ha])
    (fun d hld => ?_) (fun d s hld hs => ?_) (fun s id hs => ?_) (fun id d hid => ?_)
  · rw [hl] at hld
    exact Nat.lt_of_lt_of_le (h.listenFresh d hld) hn
  · rw [hl] at hld
    rw [hsockets] at hs
    rw [hobjects]
    by_cases hdd : d = desc
    · subst hdd
      obtain rfl : w.nextObject = s := by simpa using hs
      rcases hb with hb | hb
      · simpa using hb
      · exact absurd hld hb
    · have hs' : w.sockets d = some s := by simpa [hdd] using hs
      have hne : s ≠ w.nextObject := Nat.ne_of_lt (h.tables.objectFresh d s (.inl hs'))
      simpa [hne] using h.bound d s hld hs'
  · rw [hobjects] at hs
    have hne : s ≠ w.nextObject := by
      rintro rfl
      simp [ho] at hs
    obtain ⟨d, hds⟩ := h.attached s id (by simpa [hne] using hs)
    have hdd : d ≠ desc := by
      rintro rfl
      cases hd.symm.trans hds
    exact ⟨d, by simpa [hsockets, hdd] using hds⟩
  · obtain ⟨s, hs, _⟩ := h.linked id d (by rwa [htask] at hid)
    have hdd : d ≠ desc := by
      rintro rfl
      rw [hd] at hs
      cases hs
    refine unmoved_of_objects (by simp [hsockets, hdd]) (fun s' hs' => ?_) (by rw [hl])
      fun _ hinc => hi hinc
    have hne : s' ≠ w.nextObject := Nat.ne_of_lt (h.tables.objectFresh d s' (.inl hs'))
    simp [hobjects, hne]

theorem readable_clearTimeout {w : Worker Port} (id : TaskId) {d : Desc} :
    (w.clearTimeout id).Readable d ↔ w.Readable d := Iff.rfl

theorem armed_clearTimeout {w : Worker Port} {id id' : TaskId} (h : id' ≠ id) :
    (w.clearTimeout id).armed id' = w.armed id' := by
  simp [clearTimeout, h]

/-- A task that is not a read task leaves the table, or a timeout that no read task
needs is cleared. -/
theorem Waiting.clearTimeout {w : Worker Port} (h : Waiting w) (id : TaskId)
    (hid : ∀ d, w.taskSocket id = some d → ¬ w.Readable d) : Waiting (w.clearTimeout id) := by
  refine ⟨⟨h.tables.clearTimeout id, h.listenFresh, h.bound, h.linked, h.attached⟩,
    fun id' d hid' => ?_⟩
  by_cases he : id' = id
  · subst he
    exact .inr (hid d hid')
  · rw [armed_clearTimeout he, readable_clearTimeout]
    exact h.waits id' d hid'

theorem Waiting.deleteOther {w : Worker Port} (h : Waiting w) {id : TaskId}
    (ht : Tables (w.deleteSchedulerTask id)) : Waiting (w.deleteSchedulerTask id) := by
  refine h.unmoved ht (fun id' d hid' => (taskSocket_deleteSchedulerTask hid').2)
    (fun _ _ _ ha => ha) h.listenFresh h.bound h.attached fun _ _ _ => ?_
  exact unmoved_of_objects rfl (fun _ _ => rfl) Iff.rfl fun _ hi => hi

/-- What a timeout or a cancellation does to the linkage before it looks the task up. -/
theorem Waiting.cleared {w : Worker Port} (h : Waiting w) (id : TaskId) :
    Linkage (w.clearTimeout id) ∧ ∀ d, w.taskSocket id = some d → ∀ id' d', d' ≠ d →
      (w.clearTimeout id).taskSocket id' = some d' →
        (w.clearTimeout id).armed id' ∨ ¬ (w.clearTimeout id).Readable d' := by
  refine ⟨⟨h.tables.clearTimeout id, h.listenFresh, h.bound, h.linked, h.attached⟩,
    fun d hid id' d' hdd hid' => ?_⟩
  have hne : id' ≠ id := by
    rintro rfl
    exact hdd (Option.some.inj (hid'.symm.trans hid))
  rw [armed_clearTimeout hne, readable_clearTimeout]
  exact h.waits id' d' hid'

theorem Waiting.schedulerCancel {w : Worker Port} (h : Waiting w) (id : TaskId) :
    Waiting (w.schedulerCancel id).1 := by
  have ht := h.tables.schedulerCancel id
  rw [schedulerCancel_fst] at ht ⊢
  obtain ⟨hlink, hwaits⟩ := h.cleared id
  cases hsocket : w.taskSocket id with
  | none =>
    have hc := h.clearTimeout id (by simp [hsocket])
    unfold dropTask at ht ⊢
    split at ht
    · exact hc
    · rename_i t he
      have he' : w.schedulerTasks id = some t := he
      have hnone : t.socket = none := by simpa [taskSocket, he'] using hsocket
      simp only [hnone, Option.bind_none] at ht ⊢
      exact hc.deleteOther ht
  | some d =>
    obtain ⟨s, hs, hl, _⟩ := h.linked id d hsocket
    obtain ⟨t, he, htd⟩ := Option.bind_eq_some_iff.mp hsocket
    have he' : (w.clearTimeout id).schedulerTasks id = some t := he
    have hs' : t.socket.bind (w.clearTimeout id).sockets = some s := by rw [htd]; exact hs
    simp only [dropTask, he', hs'] at ht ⊢
    exact hlink.takeOut hsocket hs (hwaits d hsocket) ht

theorem Waiting.timeout {w : Worker Port} (h : Waiting w) {id : TaskId} {callback : Callback}
    (hc : w.callbacks id = some callback)
    (ht : Tables ((w.clearTimeout id).runCallback id callback).1) :
    Waiting ((w.clearTimeout id).runCallback id callback).1 := by
  obtain ⟨hlink, hwaits⟩ := h.cleared id
  have hentry : ∀ d, w.taskSocket id = some d → callback.desc = some d := by
    intro d hid
    obtain ⟨t, he, htd⟩ := Option.bind_eq_some_iff.mp hid
    obtain ⟨cb, hcb, _, hdesc⟩ := h.tables.entry id t he
    rw [hc] at hcb
    cases hcb
    rw [hdesc, htd]
  cases callback with
  | delayed task taskCls =>
    have hidle := h.clearTimeout id fun d hid => by cases hentry d hid
    exact hidle.deleteOther ht
  | writeNet task taskCls =>
    have hidle := h.clearTimeout id fun d hid => by cases hentry d hid
    simp only [runCallback] at ht ⊢
    split at ht
    · exact hidle
    · exact hidle.deleteOther ht
  | readNet rfd s task taskCls =>
    -- when the task is still pending, the closure looks at the object of its socket
    have hpending : ∀ d, w.taskSocket id = some d → d = rfd ∧ w.sockets rfd = some s ∧
        ((w.objects s).stream = none → w.listening = some rfd) := by
      intro d hid
      obtain rfl : rfd = d := Option.some.inj (hentry d hid)
      obtain ⟨s', hs', hl, hst⟩ := h.linked id rfd hid
      have hcl := (h.tables.link hs' hl).1
      rw [hc] at hcl
      cases hcl
      exact ⟨rfl, hs', hst⟩
    simp only [runCallback] at ht ⊢
    split
    · rename_i hidle
      refine h.clearTimeout id fun d hid => ?_
      obtain ⟨rfl, hs, hst⟩ := hpending d hid
      rw [readable_iff hs]
      rw [show w.readNetIdle d s = none from hidle]
      simp
    · rename_i hidle
      refine h.clearTimeout id fun d hid => ?_
      obtain ⟨rfl, hs, _⟩ := hpending d hid
      rw [readable_iff hs, show w.readNetIdle d s = some true from hidle]
      simp
    · rename_i hidle
      simp only [hidle] at ht
      split
      · rename_i he
        have he' : w.schedulerTasks id = none := he
        exact h.clearTimeout id fun d hid => by simp [taskSocket, he'] at hid
      · rename_i t he
        simp only [he] at ht
        have he' : w.schedulerTasks id = some t := he
        obtain ⟨cb, hcb, _, hdesc⟩ := h.tables.entry id t he'
        rw [hc] at hcb
        cases hcb
        have hid : w.taskSocket id = some rfd := by simp [taskSocket, he', ← hdesc, Callback.desc]
        obtain ⟨_, hs, _⟩ := hpending rfd hid
        exact hlink.takeOut hid hs (hwaits rfd hid) ht

/-- What no read task depends on. -/
theorem Waiting.frame {w w' : Worker Port} (h : Waiting w) (ht : Tables w')
    (hs : w'.sockets = w.sockets ∧ w'.objects = w.objects ∧ w'.listening = w.listening ∧
      w'.incoming = w.incoming ∧ w.nextSocket ≤ w'.nextSocket)
    (hts : ∀ id d, w'.taskSocket id = some d → w.taskSocket id = some d)
    (ha : ∀ id, w.armed id → w'.armed id) : Waiting w' := by
  obtain ⟨hsockets, hobjects, hl, hi, hn⟩ := hs
  refine h.unmoved ht hts (fun id _ _ => ha id) (fun d hd => ?_) (fun d s hd hs => ?_)
    (fun s id hs => ?_) fun id d _ => ?_
  · rw [hl] at hd
    exact Nat.lt_of_lt_of_le (h.listenFresh d hd) hn
  · rw [hl] at hd
    rw [hsockets] at hs
    rw [hobjects]
    exact h.bound d s hd hs
  · rw [hobjects] at hs
    rw [hsockets]
    exact h.attached s id hs
  · exact unmoved_of_objects (by rw [hsockets]) (fun _ _ => by rw [hobjects]) (by rw [hl])
      fun _ hne => by rwa [hi] at hne

/-- A new task for no socket. -/
theorem Waiting.addTask {w : Worker Port} (h : Waiting w) {id : TaskId} {callback : Callback}
    {cls : Ptr} (ht : Tables ((w.setTimeout id callback).setSchedulerTask id ⟨cls, none⟩)) :
    Waiting ((w.setTimeout id callback).setSchedulerTask id ⟨cls, none⟩) := by
  refine h.frame ht ⟨rfl, rfl, rfl, rfl, Nat.le_refl _⟩ (fun id' d hid' => ?_) fun id' ha => ?_
  · by_cases hne : id' = id
    · simp [taskSocket, setSchedulerTask, hne] at hid'
    · simpa [taskSocket, setSchedulerTask, setTimeout, hne] using hid'
  · by_cases hne : id' = id
    · simp [setSchedulerTask, setTimeout, hne]
    · simpa [setSchedulerTask, setTimeout, hne] using ha

/-- A new read task has its timer. -/
theorem Waiting.addRead {w : Worker Port} (h : Waiting w) {rfd : Desc} {task taskCls : Ptr}
    {id : TaskId} {s : SocketRef} (hd : w.sockets rfd = some s)
    (hfree : ∀ id', w.taskSocket id' ≠ some rfd)
    (hbound : ∀ s, w.sockets rfd = some s → (w.objects s).stream = none → w.listening = some rfd)
    (ht : Tables (((w.setTimeout id (.readNet rfd s task taskCls)).setSchedulerTask id
      ⟨taskCls, some rfd⟩).setObject s
        { w.objects s with handler := task, cls := taskCls, task := some id })) :
    Waiting (((w.setTimeout id (.readNet rfd s task taskCls)).setSchedulerTask id
      ⟨taskCls, some rfd⟩).setObject s
        { w.objects s with handler := task, cls := taskCls, task := some id }) := by
  have hobj : ∀ d r, d ≠ rfd → w.sockets d = some r → r ≠ s := by
    rintro d r hdd hr rfl
    exact hdd (h.tables.owner d rfd r (.inl hr) (.inl hd))
  have hstream : ∀ r, ((w.setObject s { w.objects s with
      handler := task, cls := taskCls, task := some id }).objects r).stream =
        (w.objects r).stream := by
    intro r
    by_cases hrs : r = s
    · subst hrs
      simp [setObject]
    · simp [setObject, hrs]
  refine ⟨⟨ht, h.listenFresh, fun d r hl hr => ?_, fun id' d hid' => ?_, fun r id' hr => ?_⟩,
    fun id' d hid' => ?_⟩
  · exact (hstream r).trans (h.bound d r hl hr)
  · by_cases hne : id' = id
    · subst hne
      obtain rfl : rfd = d := by simpa [taskSocket, setSchedulerTask, setObject] using hid'
      exact ⟨s, hd, by simp [setObject], fun hn => hbound s hd ((hstream s).symm.trans hn)⟩
    · have hold : w.taskSocket id' = some d := by
        simpa [taskSocket, setSchedulerTask, setTimeout, setObject, hne] using hid'
      obtain ⟨r, hr, hlr, hst⟩ := h.linked id' d hold
      have hrs : r ≠ s := hobj d r (fun hdd => hfree id' (hdd ▸ hold)) hr
      exact ⟨r, hr, by simpa [setObject, setSchedulerTask, setTimeout, hrs] using hlr,
        fun hn => hst ((hstream r).symm.trans hn)⟩
  · by_cases hrs : r = s
    · exact ⟨rfd, hrs ▸ hd⟩
    · exact h.attached r id'
        (by simpa [setObject, setSchedulerTask, setTimeout, hrs] using hr)
  · by_cases hne : id' = id
    · exact .inl (by simp [setObject, setSchedulerTask, setTimeout, hne])
    · have hold : w.taskSocket id' = some d := by
        simpa [taskSocket, setSchedulerTask, setTimeout, setObject, hne] using hid'
      rcases h.waits id' d hold with ha | hr
      · exact .inl (by simpa [setObject, setSchedulerTask, setTimeout, hne] using ha)
      · refine .inr fun hr' => hr (Unmoved.readable ?_ hr')
        refine unmoved_of_objects rfl (fun r hr => ?_) Iff.rfl fun _ hi => hi
        have hrs : r ≠ s := hobj d r (fun hdd => hfree id' (hdd ▸ hold)) hr
        simp [setObject, setSchedulerTask, setTimeout, hrs]

/-- What a socket has got since it was closed wakes nothing. -/
theorem Linkage.portMessage_dead {w : Worker Port} (h : Linkage w) {s : SocketRef}
    (hs : ∀ d, w.sockets d ≠ some s) (data : Data) :
    ∃ queue, w.portMessage s data = (w.setQueue s queue, []) := by
  have hnone : (w.objects s).task = none := by
    cases ht : (w.objects s).task with
    | none => rfl
    | some id =>
      obtain ⟨d, hd⟩ := h.attached s id ht
      exact absurd hd (hs d)
  refine ⟨((w.objects s).stream.map fun st => st.queue).getD [] ++ [data], ?_⟩
  unfold Worker.portMessage Worker.wake
  simp only [task_setQueue, hnone]

theorem Waiting.setQueue_dead {w : Worker Port} (h : Waiting w) {s : SocketRef}
    (hs : ∀ d, w.sockets d ≠ some s) (queue : List Data) : Waiting (w.setQueue s queue) := by
  have hobj : ∀ d r, w.sockets d = some r → (w.setQueue s queue).objects r = w.objects r := by
    intro d r hr
    have hrs : r ≠ s := by
      rintro rfl
      exact hs d hr
    simp [setQueue, setObject, hrs]
  refine h.unmoved (h.tables.setQueue s queue) (fun _ _ hid => hid) (fun _ _ _ ha => ha)
    h.listenFresh (fun d r hl hr => ?_) (fun r id hr => ?_) fun _ d _ => ?_
  · rw [hobj d r hr]
    exact h.bound d r hl hr
  · rw [task_setQueue] at hr
    exact h.attached r id hr
  · exact unmoved_of_objects rfl (hobj d) Iff.rfl fun _ hi => hi

/-- A message arrives at a socket in the table. -/
theorem Waiting.portMessage {w : Worker Port} (h : Waiting w) {d : Desc} {s : SocketRef}
    (hd : w.sockets d = some s) (data : Data) : Waiting (w.portMessage s data).1 := by
  unfold Worker.portMessage
  simp only
  generalize ((w.objects s).stream.map fun st => st.queue).getD [] ++ [data] = queue
  have hother : ∀ d' r, d' ≠ d → w.sockets d' = some r → (w.setQueue s queue).objects r =
      w.objects r := by
    intro d' r hdd hr
    have hrs : r ≠ s := by
      rintro rfl
      exact hdd (h.tables.owner d' d r (.inl hr) (.inl hd))
    simp [setQueue, setObject, hrs]
  have hsame : ((w.setQueue s queue).objects s).task = (w.objects s).task ∧
      (((w.setQueue s queue).objects s).stream = none ↔ (w.objects s).stream = none) := by
    simp [setQueue, setObject]
  have hlink : Linkage (w.setQueue s queue) := by
    refine ⟨h.tables.setQueue s queue, h.listenFresh, fun d' r hl hr => ?_, fun id' d' hid' => ?_,
      fun r id' hr => h.attached r id' ((task_setQueue w s queue r).symm.trans hr)⟩
    · by_cases hdd : d' = d
      · subst hdd
        obtain rfl : s = r := Option.some.inj (hd.symm.trans hr)
        exact hsame.2.mpr (h.bound d' s hl hr)
      · rw [hother d' r hdd hr]
        exact h.bound d' r hl hr
    · obtain ⟨r, hr, hlr, hst⟩ := h.linked id' d' hid'
      refine ⟨r, hr, ?_⟩
      by_cases hdd : d' = d
      · subst hdd
        obtain rfl : s = r := Option.some.inj (hd.symm.trans hr)
        exact ⟨hsame.1.trans hlr, fun hn => hst (hsame.2.mp hn)⟩
      · rw [hother d' r hdd hr]
        exact ⟨hlr, hst⟩
  refine hlink.wake hd fun id' d' hdd hid' => ?_
  have hmoved : Unmoved w (w.setQueue s queue) d' :=
    unmoved_of_objects rfl (fun r hr => hother d' r hdd hr) Iff.rfl fun _ hi => hi
  rcases h.waits id' d' hid' with ha | hr
  · exact .inl ha
  · exact .inr fun hr' => hr (hmoved.readable hr')

/-- A connect message arrives: it concerns the socket that listens, and no other. -/
theorem Waiting.getMessage {w : Worker Port} (h : Waiting w) (data : Incoming Port) :
    Waiting (w.getMessage data).1 := by
  have ht : Tables (w.setIncoming (w.incoming ++ [data])) :=
    h.tables.frame (Nat.le_refl _) w.listening (w.incoming ++ [data]) w.heap8
  have hmoved : ∀ d, w.listening ≠ some d → Unmoved w (w.setIncoming (w.incoming ++ [data])) d :=
    fun d hl => unmoved_of_objects rfl (fun _ _ => rfl) Iff.rfl fun hl' _ => absurd hl' hl
  have hidle : (∀ id d, w.taskSocket id = some d → w.listening ≠ some d) →
      Waiting (w.setIncoming (w.incoming ++ [data])) := fun hl =>
    h.unmoved ht (fun _ _ hid => hid) (fun _ _ _ ha => ha) h.listenFresh h.bound h.attached
      fun id d hid => hmoved d (hl id d hid)
  unfold Worker.getMessage
  simp only
  split
  · rename_i hl
    have hl' : w.listening = none := hl
    exact hidle fun _ _ _ => by simp [hl']
  · rename_i desc hl
    have hl' : w.listening = some desc := hl
    split
    · rename_i hd
      have hd' : w.sockets desc = none := hd
      refine hidle fun id d hid he => ?_
      obtain ⟨s, hs, _⟩ := h.linked id d hid
      rw [hl'] at he
      cases he
      cases hd'.symm.trans hs
    · rename_i s hd
      have hlink : Linkage (w.setIncoming (w.incoming ++ [data])) :=
        ⟨ht, h.listenFresh, h.bound, h.linked, h.attached⟩
      refine hlink.wake hd fun id' d' hdd hid' => ?_
      rcases h.waits id' d' hid' with ha | hr
      · exact .inl ha
      · refine .inr fun hr' => hr ((hmoved d' ?_).readable hr')
        rw [hl']
        exact fun he => hdd (Option.some.inj he).symm

/-- A socket listens. -/
theorem Waiting.listened {w : Worker Port} (h : Waiting w) {desc : Desc}
    (hl : w.listening = none) (hlt : desc < w.nextSocket)
    (hbound : ∀ s, w.sockets desc = some s → (w.objects s).stream = none)
    (ht : Tables { w with listening := some desc }) :
    Waiting { w with listening := some desc } := by
  refine h.unmoved ht (fun _ _ hid => hid) (fun _ _ _ ha => ha) (fun d hd => ?_)
    (fun d s hd hs => ?_) h.attached fun id d hid => ?_
  · cases hd
    exact hlt
  · cases hd
    exact hbound s hs
  · -- before `listen`, a read task waits on a stream
    obtain ⟨s, hs, _, hst⟩ := h.linked id d hid
    have hdd : d ≠ desc := by
      rintro rfl
      have hld := hst (hbound s hs)
      rw [hl] at hld
      cases hld
    exact unmoved_of_objects rfl (fun _ _ => rfl) (by simp [hl, Ne.symm hdd])
      fun hld => by simp [hl] at hld

/-- Something is taken out of a queue. -/
theorem Waiting.received {w w' : Worker Port} (h : Waiting w) {s : SocketRef} {st : Stream Port}
    (hst : (w.objects s).stream = some st) (hne : st.queue ≠ []) {queue : List Data}
    (ht : Tables (w'.setQueue s queue))
    (hw' : w' = { w with heap8 := w'.heap8 }) : Waiting (w'.setQueue s queue) := by
  have hobjects : w'.objects = w.objects := by rw [hw']
  have hobj : ∀ r, ((w'.setQueue s queue).objects r).task = (w.objects r).task ∧
      (((w'.setQueue s queue).objects r).stream = none ↔ (w.objects r).stream = none) := by
    intro r
    by_cases hrs : r = s
    · subst hrs
      simp [setQueue, setObject, hobjects]
    · simp [setQueue, setObject, hobjects, hrs]
  rw [hw'] at ht hobj ⊢
  refine h.unmoved ht (fun _ _ hid => hid) (fun _ _ _ ha => ha) h.listenFresh
    (fun d r hl hr => (hobj r).2.mpr (h.bound d r hl hr))
    (fun r id hr => h.attached r id ((hobj r).1.symm.trans hr)) fun id d _ => ?_
  refine ⟨rfl, fun r _ => (hobj r).1, fun r _ hn => (hobj r).2.mp hn, fun r st' hr hst' hne' => ?_,
    Iff.rfl, fun _ hi => hi⟩
  by_cases hrs : r = s
  · subst hrs
    exact ⟨st, hst, hne⟩
  · exact ⟨st', by simpa [setQueue, setObject, hrs] using hst', hne'⟩

/-- A descriptor without a read task leaves the table. -/
theorem Waiting.closed {w w' : Worker Port} (h : Waiting w) {desc : Desc}
    (hfree : ∀ id, w.taskSocket id ≠ some desc) (ht : Tables w')
    (hsockets : w'.sockets = Function.update w.sockets desc none)
    (hobjects : w'.objects = w.objects)
    (hsame : w'.listening = w.listening ∧ w'.incoming = w.incoming ∧ w'.nextSocket = w.nextSocket)
    (htasks : w'.schedulerTasks = w.schedulerTasks ∧ w'.armed = w.armed) : Waiting w' := by
  obtain ⟨hl, hi, hn⟩ := hsame
  have hts : ∀ id, w'.taskSocket id = w.taskSocket id := fun id => by
    simp only [taskSocket, htasks.1]
  refine h.unmoved ht (fun id d hid => by rwa [hts] at hid) (fun id d _ ha => by rwa [htasks.2])
    (fun d hd => ?_) (fun d s hd hs => ?_) (fun s id hs => ?_) fun id d hid => ?_
  · rw [hl] at hd
    rw [hn]
    exact h.listenFresh d hd
  · rw [hl] at hd
    rw [hobjects]
    by_cases hdd : d = desc
    · simp [hsockets, hdd] at hs
    · exact h.bound d s hd (by simpa [hsockets, hdd] using hs)
  · rw [hobjects] at hs
    obtain ⟨d, hd⟩ := h.attached s id hs
    have hdd : d ≠ desc := by
      rintro rfl
      exact hfree id (by simp [taskSocket, h.tables.pending d s id hd hs])
    exact ⟨d, by simpa [hsockets, hdd] using hd⟩
  · have hdd : d ≠ desc := fun he => hfree id (by rw [← hts id, ← he]; exact hid)
    exact unmoved_of_objects (by simp [hsockets, hdd]) (fun _ _ => by rw [hobjects]) (by rw [hl])
      fun _ hne => by rwa [hi] at hne

section Step

variable [DecidableEq Port]

/-- **Every event of disciplined callers keeps the read tasks waiting.** -/
theorem Moves.waiting {w : Worker Port} {e : Event Port} {r : Worker Port × List (Output Port)}
    (hm : Moves w e r) (h : Waiting w) (hok : disciplined w e) : Waiting r.1 := by
  have ht := hm.tables h.tables
  cases hm with
  | answered _ => exact h
  | created =>
    exact h.frame ht ⟨rfl, rfl, rfl, rfl, Nat.le_succ _⟩ (fun _ _ hid => hid) fun _ ha => ha
  | connected _ hd _ =>
    exact h.newSocket ht hd rfl rfl ⟨rfl, rfl, rfl⟩ (Nat.le_refl _) (fun hi => hi) (.inr hok)
      rfl
  | sent _ _ => exact h
  | closedBound _ _ => exact h.closed hok ht rfl rfl ⟨rfl, rfl, rfl⟩ ⟨rfl, rfl⟩
  | closed _ _ => exact h.closed hok ht rfl rfl ⟨rfl, rfl, rfl⟩ ⟨rfl, rfl⟩
  | bound _ hd =>
    exact h.newSocket ht hd rfl rfl ⟨rfl, rfl, rfl⟩ (Nat.le_refl _) (fun hi => hi) (.inl rfl)
      rfl
  | listened hl => exact h.listened hl hok.1 hok.2 ht
  | accepted _ hi =>
    exact h.newSocket ht h.tables.nextSocket_free rfl rfl ⟨rfl, rfl, rfl⟩ (Nat.le_succ _)
      (fun _ => by simp [hi]) (.inr fun hl => Nat.lt_irrefl _ (h.listenFresh _ hl)) rfl
  | received _ hst hq => exact h.received hst (by simp [hq]) ht rfl
  | addedDelayed _ => exact h.addTask ht
  | addedRead _ hd => exact h.addRead hd hok.1 hok.2 ht
  | addedWrite _ => exact h.addTask ht
  | cancelled => exact h.schedulerCancel _
  | fired _ hc => exact h.timeout hc ht
  | @delivered _ data s _ =>
    by_cases hd : ∃ d, w.sockets d = some s
    · obtain ⟨d, hd⟩ := hd
      exact h.portMessage hd _
    · obtain ⟨queue, hmessage⟩ := h.portMessage_dead (not_exists.mp hd) data
      rw [hmessage]
      exact h.setQueue_dead (not_exists.mp hd) queue
  | offered => exact h.getMessage _
  | stored =>
    exact h.frame ht ⟨rfl, rfl, rfl, rfl, Nat.le_refl _⟩ (fun _ _ hid => hid) fun _ ha => ha

theorem waiting_step {w w' : Worker Port} {e : Event Port} {o : List (Output Port)} (h : Waiting w)
    (hok : disciplined w e) (hs : w.step e = some (w', o)) : Waiting w' :=
  (moves_of_step hs).waiting h hok

end Step

/-! ## What a handler finds -/

/-- The handlers that are called belong to the tasks of their sockets, which are
readable. -/
def Woken (r : Worker Port × List (Output Port)) : Prop :=
  ∀ id task taskCls socket, .invoked id task taskCls socket ∈ r.2 →
    ∃ callback, r.1.callbacks id = some callback ∧ callback.desc = socket ∧
      ∀ d, socket = some d → r.1.Readable d

theorem Tables.woken {w : Worker Port} (h : Tables w) {d : Desc} {s : SocketRef}
    (hd : w.sockets d = some s) (hr : w.Readable d) : Woken (w.wake s) := by
  intro id task taskCls socket ho
  unfold Worker.wake at ho ⊢
  cases ht : (w.objects s).task with
  | none => simp [ht] at ho
  | some id' =>
    obtain ⟨hc, _⟩ := h.link hd ht
    simp only [ht, List.mem_singleton, Output.invoked.injEq] at ho
    obtain ⟨rfl, rfl, rfl, rfl⟩ := ho
    refine ⟨_, hc, by simp [socketOf, hc], fun d' hd' => ?_⟩
    obtain rfl : d = d' := by simpa [socketOf, hc, Callback.desc] using hd'
    exact (readable_deleteTask s).mpr hr

theorem Waiting.woken_timeout {w : Worker Port} (h : Waiting w) {id : TaskId} {callback : Callback}
    (hc : w.callbacks id = some callback) :
    Woken ((w.clearTimeout id).runCallback id callback) := by
  intro id' task' taskCls' socket ho
  cases callback with
  | delayed task taskCls =>
    simp only [runCallback, List.mem_singleton, Output.invoked.injEq] at ho
    obtain ⟨rfl, rfl, rfl, rfl⟩ := ho
    have hnone : w.taskSocket id' = none := by
      cases he : w.schedulerTasks id' with
      | none => simp [taskSocket, he]
      | some t =>
        obtain ⟨cb, hcb, _, hdesc⟩ := h.tables.entry id' t he
        rw [hc] at hcb
        cases hcb
        simpa [taskSocket, he, Callback.desc] using hdesc.symm
    exact ⟨_, hc, hnone.symm, fun d hd => by cases hnone.symm.trans hd⟩
  | writeNet task taskCls =>
    simp only [runCallback] at ho ⊢
    split at ho
    · simp at ho
    · rename_i t he
      obtain ⟨rfl, rfl, rfl, rfl⟩ := by simpa using ho
      have he' : w.schedulerTasks id' = some t := he
      obtain ⟨cb, hcb, _, hdesc⟩ := h.tables.entry id' t he'
      rw [hc] at hcb
      cases hcb
      exact ⟨_, hc, hdesc, fun d hd => by cases hdesc.trans hd⟩
  | readNet rfd s task taskCls =>
    simp only [runCallback] at ho ⊢
    split at ho
    · simp at ho
    · simp at ho
    · rename_i hidle
      split at ho
      · simp at ho
      · rename_i t he
        obtain ⟨rfl, rfl, rfl, rfl⟩ := by simpa using ho
        have he' : w.schedulerTasks id' = some t := he
        obtain ⟨cb, hcb, _, hdesc⟩ := h.tables.entry id' t he'
        rw [hc] at hcb
        cases hcb
        have hid : w.taskSocket id' = some rfd := by simp [taskSocket, he', ← hdesc, Callback.desc]
        obtain ⟨s', hs', hl, _⟩ := h.linked id' rfd hid
        have hcl := (h.tables.link hs' hl).1
        rw [hc] at hcl
        cases hcl
        refine ⟨_, hc, hdesc, fun d hd => ?_⟩
        obtain rfl : rfd = d := Option.some.inj (hdesc.trans hd)
        exact (readable_deleteTask s).mpr ((readable_iff hs').mpr hidle)

theorem Waiting.woken_message {w : Worker Port} (h : Waiting w) {port : Port} {s : SocketRef}
    (hport : w.onmessage port = some s) (data : Data) : Woken (w.portMessage s data) := by
  obtain ⟨_, st, hst, _⟩ := h.tables.onmessage port s hport
  by_cases hlive : ∃ d, w.sockets d = some s
  case neg =>
    obtain ⟨queue, hmessage⟩ := h.portMessage_dead (not_exists.mp hlive) data
    simp [hmessage, Woken]
  obtain ⟨d, hd⟩ := hlive
  refine Tables.woken (h.tables.setQueue s _) hd ?_
  have hl : w.listening ≠ some d := fun hl => by
    cases (h.bound d s hl hd).symm.trans hst
  simp only [hst, Option.map_some, Option.getD_some]
  refine ⟨(st.queue ++ [data]).length, ?_, by simp⟩
  simp [fdsetIsset, hl, hd, setQueue, setObject, hst]

theorem Waiting.woken_connect {w : Worker Port} (h : Waiting w) (data : Incoming Port) :
    Woken (w.getMessage data) := by
  unfold Worker.getMessage
  simp only
  split
  · simp [Woken]
  · rename_i desc hl
    split
    · simp [Woken]
    · rename_i s hd
      have hl' : w.listening = some desc := hl
      refine Tables.woken
        (h.tables.frame (Nat.le_refl _) w.listening (w.incoming ++ [data]) w.heap8) hd
        ⟨(w.incoming ++ [data]).length, ?_, by simp⟩
      simp [fdsetIsset, hl']

/-- A cancellation calls no handler. -/
theorem woken_schedulerCancel (w : Worker Port) (id : TaskId) : Woken (w.schedulerCancel id) := by
  unfold schedulerCancel
  simp only
  split
  · simp [Woken]
  · split
    · simp [Woken]
    · simp [Woken]

theorem Quiet.woken {w : Worker Port} {r : Worker Port × List (Output Port)} (h : Quiet w r) :
    Woken r := by
  intro id task taskCls socket ho
  have hnext := h.outputs _ ho id .absent
  simp [Phase.next] at hnext

section Step

variable [DecidableEq Port]

/-- **Whenever the handler of a read task is called, its socket is readable.** -/
theorem Moves.woken {w : Worker Port} {e : Event Port} {r : Worker Port × List (Output Port)}
    (hm : Moves w e r) (h : Waiting w) : Woken r := by
  by_cases he : e.Network
  · exact (hm.quiet he).woken
  cases hm with
  | answered ho =>
    intro id task taskCls socket hi
    exact (ho _ hi).elim
  | addedDelayed _ => simp [Woken]
  | addedRead _ _ => simp [Woken]
  | addedWrite _ => simp [Woken]
  | cancelled => exact woken_schedulerCancel w _
  | fired _ hc => exact h.woken_timeout hc
  | delivered hport => exact h.woken_message hport _
  | offered => exact h.woken_connect _
  | stored => simp [Woken]
  | _ => exact absurd trivial he

theorem readable_step {w w' : Worker Port} {e : Event Port} {o : List (Output Port)}
    (h : Waiting w) (hs : w.step e = some (w', o)) : Woken (w', o) :=
  (moves_of_step hs).woken h

/-- **No lost and no spurious wakeup.**  In every state that disciplined callers can
reach, a read task that stands in one of the two tables stands in both, and when its
socket is readable it still has its own timer; and in every step from there, the
handlers of read tasks find their sockets readable. -/
theorem read_tasks {es : List (Event Port)} {os : List (Output Port)} {w : Worker Port}
    (h : system.Run disciplined es os w) :
    (∀ id d s, w.sockets d = some s →
      ((w.objects s).task = some id ↔ w.taskSocket id = some d) ∧
      (w.taskSocket id = some d → w.Readable d → w.armed id ∧
        w.callbacks id = some (.readNet d s (w.objects s).handler (w.objects s).cls))) ∧
    ∀ e w' o, w.step e = some (w', o) →
      ∀ id task taskCls socket, .invoked id task taskCls socket ∈ o →
        ∀ d s task' taskCls', w'.callbacks id = some (.readNet d s task' taskCls') →
          w'.Readable d := by
  have hw : Waiting w :=
    h.invariant (fun _ _ _ _ hP hok hs => waiting_step hP hok hs) waiting_init
  constructor
  · intro id d s hs
    have hlinked : w.taskSocket id = some d → (w.objects s).task = some id := by
      intro hid
      obtain ⟨s', hs', hl, _⟩ := hw.linked id d hid
      obtain rfl : s = s' := Option.some.inj (hs.symm.trans hs')
      exact hl
    refine ⟨⟨fun hl => ?_, hlinked⟩, fun hid hr => ⟨?_, ?_⟩⟩
    · simp [taskSocket, (hw.tables.link hs hl).2]
    · exact (hw.waits id d hid).resolve_right fun hn => hn hr
    · exact (hw.tables.link hs (hlinked hid)).1
  · intro e w' o hs id task taskCls socket ho d s task' taskCls' hc
    obtain ⟨callback, hc', hdesc, hread⟩ := readable_step hw hs id task taskCls socket ho
    rw [hc] at hc'
    cases hc'
    exact hread d hdesc.symm

/-- A message that comes before the read task. -/
theorem read_tasks_message_first :
    ∃ w : Worker Nat, system.Run disciplined
        [.socketCreate 1 1 0, .socketConnect 1 1 "nse" (some (10, 11)) true,
          .message 10 (.bytes [5]), .addReadNet 0 1 7 9 3]
        [.reply ⟨1, none⟩, .clientConnect "nse" 11, .reply ⟨1, none⟩,
          .registered 3 7 9 (some 1), .reply ⟨3, none⟩] w ∧
      w.armed 3 ∧ w.callbacks 3 = some (.readNet 1 0 7 9) := by
  have hstart : system.Run (σ := Worker Nat) disciplined [] [] init := .nil
  have hcreate := hstart.snoc (show disciplined _ (.socketCreate 1 1 0) from trivial) rfl
  have hconnect := hcreate.snoc
    (show disciplined _ (.socketConnect 1 1 "nse" (some (10, 11)) true) from nofun) rfl
  have hmessage := hconnect.snoc (show disciplined _ (.message 10 (.bytes [5])) from trivial) rfl
  have hrun := hmessage.snoc (show disciplined _ (.addReadNet 0 1 7 9 3) from
    ⟨fun _ => nofun, fun s hs hn => by cases hs; cases hn⟩) rfl
  exact ⟨_, hrun, ((read_tasks hrun).1 3 1 0 rfl).2 rfl ⟨1, rfl, by decide⟩⟩

end Step

end GnunetWeb.Worker
