import GnunetWeb.Worker.State

/-!
# The life of a task

What a task id stands for, as seen from outside: it is absent until an add function
returns it, pending until its handler is called or it is cancelled, and done from
then on.  `Phase.next` says which outputs are right in which phase.

Proved here:

* `next_cases`: what one output can do to a phase;
* `settled_of_life`: what a history that follows the life says about one task.
-/

namespace GnunetWeb.Worker

variable {Port : Type}

inductive Phase where
  | absent
  | pending (task taskCls : Ptr)
  | done
  deriving DecidableEq

/-- The phase after an output; `none` when the output is wrong. -/
def Phase.next (id : TaskId) (phase : Phase) : Output Port → Option Phase
  | .registered id' task taskCls _ =>
    if id' ≠ id then some phase
    else match phase with
      | .absent => some (.pending task taskCls)
      | _ => none
  | .invoked id' task taskCls _ =>
    if id' ≠ id then some phase
    else if phase = .pending task taskCls then some .done else none
  | .cancelled id' cls =>
    if id' ≠ id then some phase
    else match phase with
      | .pending _ taskCls => if cls = taskCls then some .done else none
      | _ => if cls = 0 then some phase else none
  | _ => some phase

/-- The phase after a history. -/
def life (id : TaskId) (phase : Phase) (os : List (Output Port)) : Option Phase :=
  os.foldlM (Phase.next id) phase

theorem life_append (id : TaskId) (p : Phase) (os ps : List (Output Port)) :
    life id p (os ++ ps) = (life id p os).bind fun q => life id q ps := by
  simp [life, List.foldlM_append]

theorem life_quiet (id : TaskId) (p : Phase) {os : List (Output Port)}
    (h : ∀ o ∈ os, Phase.next id p o = some p) : life id p os = some p := by
  induction os with
  | nil => rfl
  | cons o os ih =>
    simp only [life, List.foldlM_cons, h o (by simp), Option.bind_eq_bind, Option.bind_some]
    exact ih fun o' ho' => h o' (by simp [ho'])

/-! ## What the life says -/

/-- The handler of the task is called. -/
def invokes (id : TaskId) : Output Port → Bool
  | .invoked id' _ _ _ => id' = id
  | _ => false

/-- The handler of the task is called, or the task is cancelled. -/
def settles (id : TaskId) : Output Port → Bool
  | .invoked id' _ _ _ => id' = id
  | .cancelled id' _ => id' = id
  | _ => false

theorem settles_of_invokes {id : TaskId} {o : Output Port} (h : invokes id o) : settles id o := by
  cases o <;> simp_all [invokes, settles]

/-- One output: it begins the life, ends it, or leaves the phase as it is. -/
theorem next_cases {id : TaskId} {p r : Phase} {o : Output Port} (h : p.next id o = some r) :
    (∃ task taskCls socket, o = .registered id task taskCls socket ∧ p = .absent ∧
      r = .pending task taskCls) ∨
    (∃ task taskCls socket, o = .invoked id task taskCls socket ∧ p = .pending task taskCls ∧
      r = .done) ∨
    (∃ task taskCls, o = .cancelled id taskCls ∧ p = .pending task taskCls ∧ r = .done) ∨
    (o = .cancelled id 0 ∧ (∀ task taskCls, p ≠ .pending task taskCls) ∧ r = p) ∨
    (settles id o = false ∧ (∀ task taskCls socket, o ≠ .registered id task taskCls socket) ∧
      r = p) := by
  cases o with
  | registered id' task taskCls socket =>
    by_cases hid : id' = id
    · subst hid
      cases p with
      | absent =>
        exact .inl ⟨task, taskCls, socket, rfl, rfl, by simpa [Phase.next, eq_comm] using h⟩
      | pending _ _ => simp [Phase.next] at h
      | done => simp [Phase.next] at h
    · have hr : r = p := by simpa [Phase.next, hid, eq_comm] using h
      exact .inr (.inr (.inr (.inr ⟨rfl, by simp [hid], hr⟩)))
  | invoked id' task taskCls socket =>
    by_cases hid : id' = id
    · subst hid
      obtain ⟨hp, hr⟩ : p = .pending task taskCls ∧ r = .done := by
        simpa [Phase.next, eq_comm] using h
      exact .inr (.inl ⟨task, taskCls, socket, rfl, hp, hr⟩)
    · have hr : r = p := by simpa [Phase.next, hid, eq_comm] using h
      exact .inr (.inr (.inr (.inr ⟨by simp [settles, hid], by simp, hr⟩)))
  | cancelled id' cls =>
    by_cases hid : id' = id
    · subst hid
      cases p with
      | pending task taskCls =>
        obtain ⟨hc, hr⟩ : cls = taskCls ∧ r = .done := by simpa [Phase.next, eq_comm] using h
        exact .inr (.inr (.inl ⟨task, taskCls, by rw [hc], rfl, hr⟩))
      | absent =>
        obtain ⟨hc, hr⟩ : cls = 0 ∧ r = .absent := by simpa [Phase.next, eq_comm] using h
        exact .inr (.inr (.inr (.inl ⟨by rw [hc], by simp, hr⟩)))
      | done =>
        obtain ⟨hc, hr⟩ : cls = 0 ∧ r = .done := by simpa [Phase.next, eq_comm] using h
        exact .inr (.inr (.inr (.inl ⟨by rw [hc], by simp, hr⟩)))
    · have hr : r = p := by simpa [Phase.next, hid, eq_comm] using h
      exact .inr (.inr (.inr (.inr ⟨by simp [settles, hid], by simp, hr⟩)))
  | _ =>
    have hr : r = p := by simpa [Phase.next, eq_comm] using h
    exact .inr (.inr (.inr (.inr ⟨rfl, by simp, hr⟩)))

theorem life_cons {id : TaskId} {p q : Phase} {o : Output Port} {os : List (Output Port)}
    (h : life id p (o :: os) = some q) : ∃ r, p.next id o = some r ∧ life id r os = some q := by
  simpa [life, List.foldlM_cons, Option.bind_eq_some_iff] using h

/-- A task that is done is not called any more. -/
theorem life_done {id : TaskId} {q : Phase} {os : List (Output Port)}
    (h : life id .done os = some q) : q = .done ∧ os.filter (invokes id) = [] := by
  induction os with
  | nil => exact ⟨(Option.some.inj h).symm, rfl⟩
  | cons o os ih =>
    obtain ⟨r, hr, hrest⟩ := life_cons h
    rcases next_cases hr with ⟨_, _, _, _, hp, _⟩ | ⟨_, _, _, _, hp, _⟩ | ⟨_, _, _, hp, _⟩ |
      ⟨rfl, _, rfl⟩ | ⟨hs, _, rfl⟩
    · cases hp
    · cases hp
    · cases hp
    · simpa [invokes] using ih hrest
    · have hi : ¬ invokes id o := fun hi => by simp [settles_of_invokes hi] at hs
      simpa [hi] using ih hrest

/-- A pending task stays pending until it is called or cancelled, and is called at
most once. -/
theorem life_pending {id : TaskId} {task taskCls : Ptr} {q : Phase} {os : List (Output Port)}
    (h : life id (.pending task taskCls) os = some q) :
    q = (if os.any (settles id) then .done else .pending task taskCls) ∧
      (os.filter (invokes id)).length ≤ 1 := by
  induction os with
  | nil => exact ⟨(Option.some.inj h).symm, by simp⟩
  | cons o os ih =>
    obtain ⟨r, hr, hrest⟩ := life_cons h
    rcases next_cases hr with ⟨_, _, _, _, hp, _⟩ | ⟨_, _, _, rfl, _, rfl⟩ | ⟨_, _, rfl, _, rfl⟩ |
      ⟨_, hp, _⟩ | ⟨hs, _, rfl⟩
    · cases hp
    · obtain ⟨rfl, hnone⟩ := life_done hrest
      simp [settles, invokes, hnone]
    · obtain ⟨rfl, hnone⟩ := life_done hrest
      simp [settles, invokes, hnone]
    · exact absurd rfl (hp task taskCls)
    · have hi : ¬ invokes id o := fun hi => by simp [settles_of_invokes hi] at hs
      simpa [hs, hi] using ih hrest

/-- A task is not called before it is returned. -/
theorem life_absent {id : TaskId} {os : List (Output Port)}
    (h : life id .absent os = some .absent) : os.filter (invokes id) = [] := by
  induction os with
  | nil => rfl
  | cons o os ih =>
    obtain ⟨r, hr, hrest⟩ := life_cons h
    rcases next_cases hr with ⟨_, _, _, rfl, _, rfl⟩ | ⟨_, _, _, _, hp, _⟩ | ⟨_, _, _, hp, _⟩ |
      ⟨rfl, _, rfl⟩ | ⟨hs, _, rfl⟩
    · obtain ⟨hq, _⟩ := life_pending hrest
      split at hq <;> cases hq
    · cases hp
    · cases hp
    · simpa [invokes] using ih hrest
    · have hi : ¬ invokes id o := fun hi => by simp [settles_of_invokes hi] at hs
      simpa [hi] using ih hrest

/-- **The history of one task**, from the call that returned its id on: its handler
is called at most once, with its closure, and not after a cancellation; a
cancellation returns the closure when the task is still pending, and 0 otherwise. -/
theorem settled_of_life {id : TaskId} {q : Phase} {a b : List (Output Port)} {task taskCls : Ptr}
    {socket : Option Desc}
    (h : life id .absent (a ++ .registered id task taskCls socket :: b) = some q) :
    (∀ task' taskCls' socket', .invoked id task' taskCls' socket' ∈
        a ++ .registered id task taskCls socket :: b → task' = task ∧ taskCls' = taskCls) ∧
    ((a ++ .registered id task taskCls socket :: b).filter (invokes id)).length ≤ 1 ∧
    ∀ pre cls post, b = pre ++ .cancelled id cls :: post →
      post.filter (invokes id) = [] ∧ cls = if pre.any (settles id) then 0 else taskCls := by
  rw [life_append] at h
  obtain ⟨p, hp, h⟩ := Option.bind_eq_some_iff.mp h
  obtain ⟨r, hr, hb⟩ := life_cons h
  obtain ⟨rfl, rfl⟩ : p = .absent ∧ r = .pending task taskCls := by
    rcases next_cases hr with ⟨_, _, _, he, hp, hr⟩ | ⟨_, _, _, he, _⟩ | ⟨_, _, he, _⟩ | ⟨he, _⟩ |
      ⟨_, hne, _⟩
    · cases he
      exact ⟨hp, hr⟩
    · cases he
    · cases he
    · cases he
    · exact absurd rfl (hne task taskCls socket)
  have ha := life_absent hp
  refine ⟨fun task' taskCls' socket' hmem => ?_, ?_, fun pre cls post hbe => ?_⟩
  · have hmem' : .invoked id task' taskCls' socket' ∈ b := by
      rcases List.mem_append.mp hmem with hmem | hmem
      · exact absurd (by simp [invokes]) (List.filter_eq_nil_iff.mp ha _ hmem)
      · simpa using hmem
    obtain ⟨pre, post, rfl⟩ := List.append_of_mem hmem'
    rw [life_append] at hb
    obtain ⟨p', hp', hb⟩ := Option.bind_eq_some_iff.mp hb
    obtain ⟨r, hr, _⟩ := life_cons hb
    obtain ⟨hq, _⟩ := life_pending hp'
    rcases next_cases hr with ⟨_, _, _, he, _⟩ | ⟨_, _, _, he, hp, _⟩ | ⟨_, _, he, _⟩ | ⟨he, _⟩ |
      ⟨hs, _⟩
    · cases he
    · cases he
      rw [hp] at hq
      split at hq <;> cases hq
      exact ⟨rfl, rfl⟩
    · cases he
    · cases he
    · simp [settles] at hs
  · have hlen := (life_pending hb).2
    simpa [List.filter_append, ha, invokes] using hlen
  · rw [hbe, life_append] at hb
    obtain ⟨p', hp', hb⟩ := Option.bind_eq_some_iff.mp hb
    obtain ⟨r, hr, hpost⟩ := life_cons hb
    obtain ⟨hq, _⟩ := life_pending hp'
    rcases next_cases hr with ⟨_, _, _, he, _⟩ | ⟨_, _, _, he, _⟩ | ⟨_, _, he, hp, rfl⟩ |
      ⟨he, hnp, rfl⟩ | ⟨hs, _⟩
    · cases he
    · cases he
    · cases he
      refine ⟨(life_done hpost).2, ?_⟩
      rw [hp] at hq
      split at hq
      · cases hq
      · rename_i hany
        cases hq
        simp [hany]
    · cases he
      split at hq
      · rename_i hany
        subst hq
        exact ⟨(life_done hpost).2, by simp [hany]⟩
      · exact absurd hq (hnp task taskCls)
    · simp [settles] at hs

end GnunetWeb.Worker
