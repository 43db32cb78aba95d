import GnunetWeb.Worker.Moves

/-!
# The two tables of tasks

A read task stands in `SCHEDULER_TASKS` and is linked from its socket object.  The
invariant `Tables` says how the two agree, and `tables_step` that every event keeps
it: a link leads to a task that was added for that very object, and from a socket
in the table to a pending one.
-/

namespace GnunetWeb.Worker

variable {Port : Type}

/-- The object `s` is, or was, the socket `d`. -/
def Owns (w : Worker Port) (d : Desc) (s : SocketRef) : Prop :=
  w.sockets d = some s ∨ ∃ id task taskCls, w.callbacks id = some (.readNet d s task taskCls)

structure Tables (w : Worker Port) : Prop where
  descFresh : ∀ d s, w.sockets d = some s → d < w.nextSocket
  objectFresh : ∀ d s, w.Owns d s → s < w.nextObject
  /-- an object is never the socket of two descriptors -/
  owner : ∀ d d' s, w.Owns d s → w.Owns d' s → d = d'
  /-- a port delivers to an object that holds it, in the table or not -/
  onmessage : ∀ p s, w.onmessage p = some s →
    s < w.nextObject ∧ ∃ st, (w.objects s).stream = some st ∧ st.port = p
  entry : ∀ id t, w.schedulerTasks id = some t →
    ∃ callback, w.callbacks id = some callback ∧ callback.taskCls = t.cls ∧ callback.desc = t.socket
  /-- the closure of a delayed task does not look its task up -/
  delayed : ∀ id task taskCls, w.callbacks id = some (.delayed task taskCls) → w.armed id →
    w.schedulerTasks id ≠ none
  added : ∀ s id, (w.objects s).task = some id →
    ∃ d, w.callbacks id = some (.readNet d s (w.objects s).handler (w.objects s).cls)
  pending : ∀ d s id, w.sockets d = some s → (w.objects s).task = some id →
    w.schedulerTasks id = some ⟨(w.objects s).cls, some d⟩

theorem tables_init : Tables (init : Worker Port) where
  descFresh := by simp [init]
  objectFresh := by simp [Owns, init]
  owner := by simp [Owns, init]
  onmessage := by simp [init]
  entry := by simp [init]
  delayed := by simp [init]
  added := by simp [init]
  pending := by simp [init]

namespace Tables

variable {w : Worker Port}

/-- The link of a socket in the table. -/
theorem link (h : Tables w) {d : Desc} {s : SocketRef} {id : TaskId} (hd : w.sockets d = some s)
    (ht : (w.objects s).task = some id) :
    w.callbacks id = some (.readNet d s (w.objects s).handler (w.objects s).cls) ∧
      w.schedulerTasks id = some ⟨(w.objects s).cls, some d⟩ := by
  obtain ⟨d', hc⟩ := h.added s id ht
  obtain rfl : d = d' := h.owner d d' s (.inl hd) (.inr ⟨id, _, _, hc⟩)
  exact ⟨hc, h.pending d s id hd ht⟩

/-- A task is linked from one object only. -/
theorem link_unique (h : Tables w) {s r : SocketRef} {id : TaskId}
    (hs : (w.objects s).task = some id) (hr : (w.objects r).task = some id) : s = r := by
  obtain ⟨d, hc⟩ := h.added s id hs
  obtain ⟨d', hc'⟩ := h.added r id hr
  have heq := hc.symm.trans hc'
  simp only [Option.some.injEq, Callback.readNet.injEq] at heq
  exact heq.2.1

/-! ## Small changes -/

/-- Changes of a socket object that keep its port and its link. -/
theorem setQueue (h : Tables w) (s : SocketRef) (queue : List Data) :
    Tables (w.setQueue s queue) := by
  have hobj : ∀ r, ((w.setQueue s queue).objects r).task = (w.objects r).task ∧
      ((w.setQueue s queue).objects r).handler = (w.objects r).handler ∧
      ((w.setQueue s queue).objects r).cls = (w.objects r).cls := by
    intro r
    by_cases hr : r = s
    · subst hr
      simp [Worker.setQueue, setObject]
    · simp [Worker.setQueue, setObject, hr]
  refine ⟨h.descFresh, h.objectFresh, h.owner, ?_, h.entry, h.delayed, ?_, ?_⟩
  · intro p r hr
    obtain ⟨hlt, st, hst, hp⟩ := h.onmessage p r hr
    by_cases hrs : r = s
    · subst hrs
      exact ⟨hlt, { st with queue }, by simp [Worker.setQueue, setObject, hst], hp⟩
    · exact ⟨hlt, st, by simp [Worker.setQueue, setObject, hrs, hst], hp⟩
  · intro r id ht
    obtain ⟨h₁, h₂, h₃⟩ := hobj r
    rw [h₁] at ht
    rw [h₂, h₃]
    exact h.added r id ht
  · intro d r id hd ht
    obtain ⟨h₁, _, h₃⟩ := hobj r
    rw [h₁] at ht
    rw [h₃]
    exact h.pending d r id hd ht

theorem clearTimeout (h : Tables w) (id : TaskId) : Tables (w.clearTimeout id) := by
  refine ⟨h.descFresh, h.objectFresh, h.owner, h.onmessage, h.entry, ?_, h.added, h.pending⟩
  intro id' task taskCls hc ha
  by_cases hid : id' = id
  · simp [Worker.clearTimeout, hid] at ha
  · exact h.delayed id' task taskCls hc (by simpa [Worker.clearTimeout, hid] using ha)

theorem deleteTask (h : Tables w) (s : SocketRef) : Tables (w.deleteTask s) := by
  have hobj : ∀ r id, ((w.deleteTask s).objects r).task = some id →
      (w.deleteTask s).objects r = w.objects r := by
    intro r id ht
    have hrs : r ≠ s := by
      rintro rfl
      simp [Worker.deleteTask, setObject] at ht
    simp [Worker.deleteTask, setObject, hrs]
  refine ⟨h.descFresh, h.objectFresh, h.owner, ?_, h.entry, h.delayed, ?_, ?_⟩
  · intro p r hr
    obtain ⟨hlt, st, hst, hp⟩ := h.onmessage p r hr
    refine ⟨hlt, st, ?_, hp⟩
    by_cases hrs : r = s
    · subst hrs
      simpa [Worker.deleteTask, setObject] using hst
    · simpa [Worker.deleteTask, setObject, hrs] using hst
  · intro r id ht
    have hr := hobj r id ht
    rw [hr] at ht ⊢
    exact h.added r id ht
  · intro d r id hd ht
    have hr := hobj r id ht
    rw [hr] at ht ⊢
    exact h.pending d r id hd ht

/-- A task may leave the table when no socket in the table links to it. -/
theorem deleteSchedulerTask (h : Tables w) {id : TaskId}
    (hdelayed : ∀ task taskCls, w.callbacks id = some (.delayed task taskCls) → ¬ w.armed id)
    (hlink : ∀ d s, w.sockets d = some s → (w.objects s).task ≠ some id) :
    Tables (w.deleteSchedulerTask id) := by
  refine ⟨h.descFresh, h.objectFresh, h.owner, h.onmessage, ?_, ?_, h.added, ?_⟩
  · intro id' t ht
    by_cases hid : id' = id
    · simp [Worker.deleteSchedulerTask, hid] at ht
    · exact h.entry id' t (by simpa [Worker.deleteSchedulerTask, hid] using ht)
  · intro id' task taskCls hc ha
    by_cases hid : id' = id
    · subst hid
      exact absurd ha (hdelayed task taskCls hc)
    · simpa [Worker.deleteSchedulerTask, hid] using h.delayed id' task taskCls hc ha
  · intro d s id' hd ht
    have hid : id' ≠ id := fun he => hlink d s hd (he ▸ ht)
    simpa [Worker.deleteSchedulerTask, hid] using h.pending d s id' hd ht

/-- The task that an object links to leaves both tables. -/
theorem wake (h : Tables w) (s : SocketRef) : Tables (w.wake s).1 := by
  unfold Worker.wake
  cases ht : (w.objects s).task with
  | none => exact h
  | some id =>
    obtain ⟨d, hc⟩ := h.added s id ht
    refine (h.deleteTask s).deleteSchedulerTask ?_ ?_
    · intro task taskCls hc'
      have : some (Callback.readNet d s _ _) = some _ := hc.symm.trans hc'
      simp at this
    · intro d' s' _ ht'
      by_cases hs : s' = s
      · simp [Worker.deleteTask, setObject, hs] at ht'
      · simp only [Worker.deleteTask, setObject, Function.update_apply, hs, if_false] at ht'
        exact hs (h.link_unique ht' ht)

/-! ## Sockets -/

theorem newSocket (h : Tables w) {d : Desc} (hd : w.sockets d = none) (hlt : d < w.nextSocket)
    (stream : Option (Stream Port)) : Tables (w.newSocket d stream) := by
  have hold : ∀ d' s, (w.newSocket d stream).Owns d' s →
      w.Owns d' s ∨ d' = d ∧ s = w.nextObject := by
    rintro d' s (hs | hc)
    · by_cases hdd : d' = d
      · subst hdd
        exact .inr ⟨rfl, by simpa [Worker.newSocket, eq_comm] using hs⟩
      · exact .inl (.inl (by simpa [Worker.newSocket, hdd] using hs))
    · exact .inl (.inr hc)
  have hsockets : ∀ d' s, (w.newSocket d stream).sockets d' = some s →
      (d' = d ∧ s = w.nextObject) ∨ (w.sockets d' = some s ∧ s ≠ w.nextObject) := by
    intro d' s hs
    by_cases hdd : d' = d
    · subst hdd
      exact .inl ⟨rfl, by simpa [Worker.newSocket, eq_comm] using hs⟩
    · have hs' : w.sockets d' = some s := by simpa [Worker.newSocket, hdd] using hs
      exact .inr ⟨hs', Nat.ne_of_lt (h.objectFresh d' s (.inl hs'))⟩
  have hobj : ∀ s, s ≠ w.nextObject → (w.newSocket d stream).objects s = w.objects s := by
    intro s hs
    simp [Worker.newSocket, hs]
  refine ⟨?_, ?_, ?_, ?_, h.entry, h.delayed, ?_, ?_⟩
  · intro d' s hs
    rcases hsockets d' s hs with ⟨rfl, _⟩ | ⟨hs', _⟩
    · exact hlt
    · exact h.descFresh d' s hs'
  · intro d' s hs
    rcases hold d' s hs with hs' | ⟨_, rfl⟩
    · exact Nat.lt_succ_of_lt (h.objectFresh d' s hs')
    · exact Nat.lt_succ_self _
  · intro d₁ d₂ s h₁ h₂
    rcases hold d₁ s h₁ with hold₁ | ⟨rfl, hs₁⟩
    · have hlt := h.objectFresh d₁ s hold₁
      rcases hold d₂ s h₂ with hold₂ | ⟨_, hs₂⟩
      · exact h.owner d₁ d₂ s hold₁ hold₂
      · exact absurd hs₂ (Nat.ne_of_lt hlt)
    · rcases hold d₂ s h₂ with hold₂ | ⟨rfl, _⟩
      · exact absurd hs₁ (Nat.ne_of_lt (h.objectFresh d₂ s hold₂))
      · rfl
  · intro p s hs
    obtain ⟨hlt', st, hst, hp⟩ := h.onmessage p s hs
    exact ⟨Nat.lt_succ_of_lt hlt', st, by rw [hobj s (Nat.ne_of_lt hlt'), hst], hp⟩
  · intro s id ht
    have hne : s ≠ w.nextObject := by
      rintro rfl
      simp [Worker.newSocket] at ht
    rw [hobj s hne] at ht ⊢
    exact h.added s id ht
  · intro d' s id hs ht
    rcases hsockets d' s hs with ⟨_, rfl⟩ | ⟨hs', hne⟩
    · simp [Worker.newSocket] at ht
    · rw [hobj s hne] at ht ⊢
      exact h.pending d' s id hs' ht

/-- A port gets the handler of an object that holds it. -/
theorem setOnmessage [DecidableEq Port] (h : Tables w) {s : SocketRef} {st : Stream Port}
    (hlt : s < w.nextObject) (hst : (w.objects s).stream = some st) :
    Tables (w.setOnmessage st.port s) := by
  refine ⟨h.descFresh, h.objectFresh, h.owner, ?_, h.entry, h.delayed, h.added, h.pending⟩
  intro p r hr
  by_cases hp : p = st.port
  · subst hp
    obtain rfl : s = r := by simpa [Worker.setOnmessage] using hr
    exact ⟨hlt, st, hst, rfl⟩
  · exact h.onmessage p r (by simpa [Worker.setOnmessage, hp] using hr)

/-- A socket leaves the table; its object, its port and its link stay. -/
theorem deleteSocket (h : Tables w) (desc : Desc) : Tables (w.deleteSocket desc) := by
  have hsub : ∀ d r, (w.deleteSocket desc).sockets d = some r → w.sockets d = some r := by
    intro d r hr
    by_cases hdd : d = desc
    · simp [Worker.deleteSocket, hdd] at hr
    · simpa [Worker.deleteSocket, hdd] using hr
  have howns : ∀ d r, (w.deleteSocket desc).Owns d r → w.Owns d r := by
    rintro d r (hr | hc)
    · exact .inl (hsub d r hr)
    · exact .inr hc
  exact ⟨fun d r hr => h.descFresh d r (hsub d r hr),
    fun d r hr => h.objectFresh d r (howns d r hr),
    fun d d' r h₁ h₂ => h.owner d d' r (howns d r h₁) (howns d' r h₂), h.onmessage, h.entry,
    h.delayed, h.added, fun d r id hr ht => h.pending d r id (hsub d r hr) ht⟩

/-- The next descriptor is not in the table. -/
theorem nextSocket_free (h : Tables w) : w.sockets w.nextSocket = none := by
  cases hs : w.sockets w.nextSocket with
  | none => rfl
  | some s => exact absurd (h.descFresh _ s hs) (Nat.lt_irrefl _)

/-! ## Tasks -/

/-- A new task, in the table and with a timeout. -/
theorem addTask (h : Tables w) {id : TaskId} (hid : w.callbacks id = none) {callback : Callback}
    (hread : ∀ d s task taskCls, callback = .readNet d s task taskCls → w.sockets d = some s) :
    Tables ((w.setTimeout id callback).setSchedulerTask id ⟨callback.taskCls, callback.desc⟩) := by
  have hcb : ∀ id', id' ≠ id →
      Function.update w.callbacks id (some callback) id' = w.callbacks id' :=
    fun id' hne => by simp [hne]
  have hold : ∀ s id', (w.objects s).task = some id' → id' ≠ id := by
    rintro s id' ht rfl
    obtain ⟨_, hc⟩ := h.added s id' ht
    cases hid.symm.trans hc
  have howns : ∀ d s, ((w.setTimeout id callback).setSchedulerTask id
      ⟨callback.taskCls, callback.desc⟩).Owns d s → w.Owns d s := by
    rintro d s (hs | ⟨id', task, taskCls, hc⟩)
    · exact .inl hs
    · by_cases hne : id' = id
      · have he : callback = .readNet d s task taskCls := by
          simpa [setSchedulerTask, Worker.setTimeout, hne] using hc
        exact .inl (hread d s task taskCls he)
      · exact .inr ⟨id', task, taskCls, by
          simpa [setSchedulerTask, Worker.setTimeout, hne] using hc⟩
  refine ⟨h.descFresh, fun d s hs => h.objectFresh d s (howns d s hs),
    fun d d' s h₁ h₂ => h.owner d d' s (howns d s h₁) (howns d' s h₂), h.onmessage, ?_, ?_, ?_, ?_⟩
  · intro id' t ht
    by_cases hne : id' = id
    · subst hne
      obtain rfl : _ = t := by simpa [setSchedulerTask, Worker.setTimeout] using ht
      exact ⟨callback, by simp [setSchedulerTask, Worker.setTimeout], rfl, rfl⟩
    · obtain ⟨cb, hcb', hrest⟩ := h.entry id' t
        (by simpa [setSchedulerTask, Worker.setTimeout, hne] using ht)
      exact ⟨cb, by simpa [setSchedulerTask, Worker.setTimeout, hne] using hcb', hrest⟩
  · intro id' task taskCls hc ha
    by_cases hne : id' = id
    · simp [setSchedulerTask, hne]
    · simp only [setSchedulerTask, Worker.setTimeout, Function.update_apply, hne, if_false]
        at hc ha ⊢
      exact h.delayed id' task taskCls hc ha
  · intro s id' ht
    obtain ⟨d, hc⟩ := h.added s id' ht
    exact ⟨d, (hcb id' (hold s id' ht)).trans hc⟩
  · intro d s id' hd ht
    simpa [setSchedulerTask, Worker.setTimeout, hold s id' ht] using h.pending d s id' hd ht

/-- A socket is linked to a task that was added for it. -/
theorem setLink (h : Tables w) {id : TaskId} {rfd : Desc} {s : SocketRef} {task taskCls : Ptr}
    (hd : w.sockets rfd = some s) (hc : w.callbacks id = some (.readNet rfd s task taskCls))
    (ht : w.schedulerTasks id = some ⟨taskCls, some rfd⟩) :
    Tables (w.setObject s
      { w.objects s with handler := task, cls := taskCls, task := some id }) := by
  refine ⟨h.descFresh, h.objectFresh, h.owner, ?_, h.entry, h.delayed, ?_, ?_⟩
  · intro p r hr
    obtain ⟨hlt, st, hst, hp⟩ := h.onmessage p r hr
    refine ⟨hlt, st, ?_, hp⟩
    by_cases hrs : r = s
    · subst hrs
      simpa [setObject] using hst
    · simpa [setObject, hrs] using hst
  · intro r id' ht'
    by_cases hrs : r = s
    · subst hrs
      obtain rfl : id = id' := by simpa [setObject] using ht'
      exact ⟨rfd, by simpa [setObject] using hc⟩
    · simp only [setObject, Function.update_apply, hrs, if_false] at ht' ⊢
      exact h.added r id' ht'
  · intro d r id' hd' ht'
    by_cases hrs : r = s
    · subst hrs
      obtain rfl : d = rfd := h.owner d rfd r (.inl hd') (.inl hd)
      obtain rfl : id = id' := by simpa [setObject] using ht'
      simpa [setObject] using ht
    · simp only [setObject, Function.update_apply, hrs, if_false] at ht' ⊢
      exact h.pending d r id' hd' ht'

/-! ## The events -/

/-- The parts of the state that no clause reads. -/
theorem frame (h : Tables w) {n : Desc} (hn : w.nextSocket ≤ n) (l : Option Desc)
    (i : List (Incoming Port)) (m : Nat → UInt8) :
    Tables { w with listening := l, incoming := i, nextSocket := n, heap8 := m } :=
  ⟨fun d s hd => Nat.lt_of_lt_of_le (h.descFresh d s hd) hn, h.objectFresh, h.owner, h.onmessage,
    h.entry, h.delayed, h.added, h.pending⟩

theorem schedulerCancel (h : Tables w) (id : TaskId) : Tables (w.schedulerCancel id).1 := by
  have hc := h.clearTimeout id
  have hunarmed : (w.clearTimeout id).armed id = false := by simp [Worker.clearTimeout]
  unfold Worker.schedulerCancel
  simp only
  split
  · exact hc
  rename_i t ht
  split
  · rename_i hnone
    refine hc.deleteSchedulerTask (fun _ _ _ => by simp [hunarmed]) fun d s hd hl => ?_
    obtain ⟨_, ht'⟩ := hc.link hd hl
    rw [ht] at ht'
    cases ht'
    simp only [Option.bind_some] at hnone
    exact absurd (hd.symm.trans hnone) (by simp)
  · rename_i s hs
    refine (hc.deleteTask s).deleteSchedulerTask (fun _ _ _ => by
      simpa [Worker.deleteTask, setObject] using hunarmed) fun d r hd hl => ?_
    by_cases hrs : r = s
    · simp [Worker.deleteTask, setObject, hrs] at hl
    · have hl' : ((w.clearTimeout id).objects r).task = some id := by
        simpa [Worker.deleteTask, setObject, hrs] using hl
      obtain ⟨_, ht'⟩ := hc.link hd hl'
      rw [ht] at ht'
      cases ht'
      simp only [Option.bind_some] at hs
      exact hrs (Option.some.inj (hd.symm.trans hs))

theorem runCallback (h : Tables w) {id : TaskId} {callback : Callback}
    (hc : w.callbacks id = some callback) (hunarmed : w.armed id = false) :
    Tables (w.runCallback id callback).1 := by
  have hidle : ∀ task taskCls, w.callbacks id = some (.delayed task taskCls) → ¬ w.armed id :=
    fun _ _ _ => by simp [hunarmed]
  cases callback with
  | delayed task taskCls =>
    refine h.deleteSchedulerTask hidle fun d s hd hl => ?_
    have := hc.symm.trans (h.link hd hl).1
    simp at this
  | writeNet task taskCls =>
    simp only [Worker.runCallback]
    split
    · exact h
    · refine h.deleteSchedulerTask hidle fun d s hd hl => ?_
      have := hc.symm.trans (h.link hd hl).1
      simp at this
  | readNet rfd s task taskCls =>
    simp only [Worker.runCallback]
    split
    · exact h
    · exact h
    · split
      · exact h
      · refine (h.deleteTask s).deleteSchedulerTask hidle fun d r hd hl => ?_
        by_cases hrs : r = s
        · simp [Worker.deleteTask, setObject, hrs] at hl
        · have hl' : (w.objects r).task = some id := by
            simpa [Worker.deleteTask, setObject, hrs] using hl
          have := hc.symm.trans (h.link hd hl').1
          simp only [Option.some.injEq, Callback.readNet.injEq] at this
          exact hrs this.2.1.symm

theorem portMessage (h : Tables w) (s : SocketRef) (data : Data) :
    Tables (w.portMessage s data).1 :=
  (h.setQueue s _).wake s

theorem getMessage (h : Tables w) (data : Incoming Port) : Tables (w.getMessage data).1 := by
  have hf := h.frame (Nat.le_refl _) w.listening (w.incoming ++ [data]) w.heap8
  unfold Worker.getMessage
  simp only
  split
  · exact hf
  · split
    · exact hf
    · exact hf.wake _

/-- A new socket with a stream, and the handler of its port. -/
theorem newStream [DecidableEq Port] (h : Tables w) {d : Desc} (hd : w.sockets d = none)
    (hlt : d < w.nextSocket) (st : Stream Port) :
    Tables ((w.newSocket d (some st)).setOnmessage st.port w.nextObject) :=
  @setOnmessage _ _ _ (h.newSocket hd hlt (some st)) w.nextObject st (Nat.lt_succ_self _)
    (by simp [Worker.newSocket])

end Tables

variable [DecidableEq Port]

theorem Moves.tables {w : Worker Port} {e : Event Port} {r : Worker Port × List (Output Port)}
    (hm : Moves w e r) (h : Tables w) : Tables r.1 := by
  cases hm with
  | answered _ => exact h
  | created => exact h.frame (Nat.le_succ _) w.listening w.incoming w.heap8
  | connected hlt hd _ => exact h.newStream hd hlt _
  | sent _ _ => exact h
  | closedBound _ _ => exact h.deleteSocket _
  | closed _ _ => exact h.deleteSocket _
  | bound hlt hd => exact h.newSocket hd hlt none
  | listened _ => exact h.frame (Nat.le_refl _) _ w.incoming w.heap8
  | @accepted _ _ _ _ incoming _ _ =>
    have hf := h.frame (Nat.le_succ _) w.listening incoming w.heap8
    exact hf.newStream h.nextSocket_free (Nat.lt_succ_self _) _
  | received _ _ _ => exact (h.frame (Nat.le_refl _) w.listening w.incoming _).setQueue _ _
  | @addedDelayed _ _ task taskCls id hid =>
    exact @Tables.addTask _ _ h id hid (.delayed task taskCls) fun _ _ _ _ he => by cases he
  | @addedRead _ rfd task taskCls id s hid hd =>
    have hadd := @Tables.addTask _ _ h id hid (.readNet rfd s task taskCls) fun _ _ _ _ he => by
      cases he
      exact hd
    exact hadd.setLink hd (by simp [setTimeout, setSchedulerTask])
      (by simp [setSchedulerTask, Callback.taskCls, Callback.desc])
  | @addedWrite _ _ task taskCls id hid =>
    exact @Tables.addTask _ _ h id hid (.writeNet task taskCls) fun _ _ _ _ he => by cases he
  | cancelled => exact h.schedulerCancel _
  | fired _ hc => exact (h.clearTimeout _).runCallback hc (by simp [clearTimeout])
  | delivered _ => exact h.portMessage _ _
  | offered => exact h.getMessage _
  | stored => exact h.frame (Nat.le_refl _) w.listening w.incoming _

/-- **Every event keeps the tables in agreement.** -/
theorem tables_step {w w' : Worker Port} {e : Event Port} {o : List (Output Port)}
    (h : Tables w) (hs : w.step e = some (w', o)) : Tables w' :=
  (moves_of_step hs).tables h

theorem tables_run {ok : Worker Port → Event Port → Prop} {es : List (Event Port)}
    {os : List (Output Port)} {w : Worker Port} (h : system.Run ok es os w) : Tables w :=
  h.invariant (P := Tables) (fun _ _ _ _ hw _ hst => tables_step hw hst) tables_init

end GnunetWeb.Worker
