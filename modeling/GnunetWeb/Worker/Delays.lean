import GnunetWeb.Library.Double
import GnunetWeb.Worker.Cancel
import Mathlib.Algebra.Order.Field.Rat

/-!
# The delays of tasks

`scheduler_em.c` gives the delay of a task to `setTimeout`, in milliseconds.  The runs of a
worker are timed here: each event happens at a time, in milliseconds as well.

Proved here:

* `Moves.timeout_of_invoked`: a delayed task is only run by its own timeout;
* `punctual_of_lt`: no task with a delay that `setTimeout` can represent is run early;
* `punctual_iff`: and only these are not.
-/

namespace GnunetWeb.Worker

variable {Port : Type}

/-- `GNUNET_TIME_UNIT_FOREVER_REL` -/
def forever : Nat := 18446744073709551615

/-! ## The functions of `scheduler_em.c` -/

/-- `GNUNET_SCHEDULER_add_delayed_with_priority`, with a delay in microseconds; `none` when
there is no call of `GNUNET_SCHEDULER_add_delayed_with_priority_js`, whose event this is.
`id` is what `setTimeout` returns. -/
def addDelayedWithPriority (delay priority : Nat) (task taskCls : Ptr) (id : TaskId) :
    Option (Event Port) :=
  if delay = forever then none
  else some (.addDelayedWithPriority (Double.roundNat (delay / 1000)) priority task taskCls id)

/-- `GNUNET_SCHEDULER_add_delayed`; `default` is `GNUNET_SCHEDULER_PRIORITY_DEFAULT`. -/
def addDelayed (default delay : Nat) (task taskCls : Ptr) (id : TaskId) : Option (Event Port) :=
  addDelayedWithPriority delay default task taskCls id

/-- `GNUNET_SCHEDULER_add_at_with_priority`; `remaining` is
`GNUNET_TIME_absolute_get_remaining`. -/
def addAtWithPriority (remaining : Nat → Nat) (time priority : Nat) (task taskCls : Ptr)
    (id : TaskId) : Option (Event Port) :=
  addDelayedWithPriority (remaining time) priority task taskCls id

/-- `GNUNET_SCHEDULER_add_at` -/
def addAt (default : Nat) (remaining : Nat → Nat) (time : Nat) (task taskCls : Ptr) (id : TaskId) :
    Option (Event Port) :=
  addAtWithPriority remaining time default task taskCls id

/-- The event is one of these calls with the delay `d`, or with `d` as the remaining time. -/
inductive Adds (d : Nat) (id : TaskId) (e : Event Port) : Prop
  | delayedWithPriority {priority : Nat} {task taskCls : Ptr} :
      addDelayedWithPriority d priority task taskCls id = some e → Adds d id e
  | delayed {default : Nat} {task taskCls : Ptr} :
      addDelayed default d task taskCls id = some e → Adds d id e
  | atWithPriority {remaining : Nat → Nat} {time priority : Nat} {task taskCls : Ptr} :
      remaining time = d → addAtWithPriority remaining time priority task taskCls id = some e →
        Adds d id e
  | atTime {default : Nat} {remaining : Nat → Nat} {time : Nat} {task taskCls : Ptr} :
      remaining time = d → addAt default remaining time task taskCls id = some e → Adds d id e

theorem addDelayedWithPriority_eq_some {delay priority : Nat} {task taskCls : Ptr} {id : TaskId}
    {e : Event Port} : addDelayedWithPriority delay priority task taskCls id = some e ↔
      delay ≠ forever ∧
        .addDelayedWithPriority (Double.roundNat (delay / 1000)) priority task taskCls id = e := by
  rw [addDelayedWithPriority, Option.ite_none_left_eq_some, Option.some.injEq]

/-- All of them give the same number to `setTimeout`. -/
theorem Adds.eq {d : Nat} {id : TaskId} {e : Event Port} (h : Adds d id e) : d ≠ forever ∧
    ∃ priority task taskCls,
      e = .addDelayedWithPriority (Double.roundNat (d / 1000)) priority task taskCls id := by
  cases h with
  | delayedWithPriority h =>
    obtain ⟨hd, rfl⟩ := addDelayedWithPriority_eq_some.mp h
    exact ⟨hd, _, _, _, rfl⟩
  | delayed h =>
    obtain ⟨hd, rfl⟩ := addDelayedWithPriority_eq_some.mp h
    exact ⟨hd, _, _, _, rfl⟩
  | atWithPriority hr h =>
    subst hr
    obtain ⟨hd, rfl⟩ := addDelayedWithPriority_eq_some.mp h
    exact ⟨hd, _, _, _, rfl⟩
  | atTime hr h =>
    subst hr
    obtain ⟨hd, rfl⟩ := addDelayedWithPriority_eq_some.mp h
    exact ⟨hd, _, _, _, rfl⟩

/-! ## Timed runs -/

/-- The delay of a timeout, as a signed number of 32 bits; a negative one counts as 0. -/
def timeoutDelay (delay : Nat) : Nat :=
  let n := delay % 4294967296
  if n < 2147483648 then n else 0

/-- What the browser guarantees of an event and one that comes after it. -/
structure Follows (a b : ℚ × Event Port) : Prop where
  time : a.1 ≤ b.1
  /-- a timeout fires no earlier than after its delay -/
  fires : ∀ delay priority task taskCls id,
    a.2 = .addDelayedWithPriority delay priority task taskCls id → b.2 = .timeout id →
      a.1 + timeoutDelay delay ≤ b.1

variable [DecidableEq Port]

/-- A run of a worker, with the times of its events. -/
structure TimedRun (es : List (ℚ × Event Port)) : Prop where
  follows : es.Pairwise Follows
  runs : ∃ os w, system.Run EventSystem.anyEvent (es.map Prod.snd) os w

/-- In the run of the timed events `es`, no task that was added with the delay `d` is run
before that many microseconds have elapsed, in whole milliseconds. -/
def Punctual (d : Nat) (es : List (ℚ × Event Port)) : Prop :=
  ∀ (es₁ es₂ es₃ : List (ℚ × Event Port)) (a b : ℚ × Event Port),
    es = es₁ ++ a :: (es₂ ++ b :: es₃) → ∀ id, Adds d id a.2 →
      ∀ os w w' o task taskCls socket,
        system.Run EventSystem.anyEvent ((es₁ ++ a :: es₂).map Prod.snd) os w →
        w.step b.2 = some (w', o) → .invoked id task taskCls socket ∈ o →
          a.1 + (d / 1000 : Nat) ≤ b.1

/-! ## When a task is run -/

section Invoked

variable {w : Worker Port} {e : Event Port} {id : TaskId} {task taskCls : Ptr}
  {socket : Option Desc}

omit [DecidableEq Port] in
/-- The task that an object links to is a read task. -/
theorem readNet_of_wake (h : Tables w) {s : SocketRef}
    (ho : .invoked id task taskCls socket ∈ (w.wake s).2) :
    ∃ d task' taskCls', w.callbacks id = some (.readNet d s task' taskCls') := by
  unfold wake at ho
  split at ho
  · cases ho
  · rename_i id' ht
    cases List.mem_singleton.mp ho
    obtain ⟨d, hc⟩ := h.added s _ ht
    exact ⟨d, _, _, hc⟩

omit [DecidableEq Port] in
theorem id_of_runCallback {id' : TaskId} {callback : Callback}
    (ho : .invoked id task taskCls socket ∈ (w.runCallback id' callback).2) : id' = id := by
  cases callback with
  | delayed task taskCls =>
    cases List.mem_singleton.mp ho
    rfl
  | readNet rfd s task taskCls =>
    simp only [runCallback] at ho
    split at ho
    · cases List.mem_singleton.mp ho
    · cases ho
    · split at ho
      · cases ho
      · cases List.mem_singleton.mp ho
        rfl
  | writeNet task taskCls =>
    simp only [runCallback] at ho
    split at ho
    · cases ho
    · cases List.mem_singleton.mp ho
      rfl

/-- **A delayed task is only run by its own timeout.** -/
theorem Moves.timeout_of_invoked {r : Worker Port × List (Output Port)} (hm : Moves w e r)
    (h : Tables w) {task' taskCls' : Ptr} (hc : w.callbacks id = some (.delayed task' taskCls'))
    (ho : .invoked id task taskCls socket ∈ r.2) : e = .timeout id := by
  have hread : ∀ d s task taskCls, w.callbacks id ≠ some (.readNet d s task taskCls) := by
    intro d s task taskCls hr
    cases hc.symm.trans hr
  cases hm with
  | answered answers => exact (answers _ ho).elim
  | connected _ _ outputs =>
    rcases outputs with rfl | answers
    · simp at ho
    · exact (answers _ ho).elim
  | cancelled =>
    simp only [schedulerCancel] at ho
    split at ho
    · simp at ho
    · split at ho
      · simp at ho
      · simp at ho
  | fired armed issued => rw [id_of_runCallback ho]
  | delivered _ =>
    obtain ⟨d, task, taskCls, hr⟩ := readNet_of_wake (h.setQueue _ _) ho
    exact absurd hr (hread d _ task taskCls)
  | @offered data =>
    simp only [getMessage] at ho
    split at ho
    · cases ho
    · split at ho
      · simp at ho
      · obtain ⟨d, task, taskCls, hr⟩ := readNet_of_wake
          (h.frame (Nat.le_refl _) w.listening (w.incoming ++ [data]) w.heap8) ho
        exact absurd hr (hread d _ task taskCls)
  | _ => simp at ho

end Invoked

/-! ## The delay of a timeout -/

theorem timeoutDelay_eq {n : Nat} (h : n < 2147483648) :
    timeoutDelay (Double.roundNat n) = n := by
  have hn : n < 2 ^ 53 := Nat.lt_trans h (by decide)
  rw [Double.roundNat_eq_self hn, timeoutDelay, Nat.mod_eq_of_lt (by omega)]
  exact if_pos h

theorem timeoutDelay_lt (delay : Nat) : timeoutDelay delay < 2147483648 := by
  unfold timeoutDelay
  simp only
  split
  · assumption
  · decide

/-! ## When no task is run early -/

/-- **No task with a delay below `2 ^ 31` milliseconds is run early.** -/
theorem punctual_of_lt {d : Nat} (hd : d / 1000 < 2147483648) {es : List (ℚ × Event Port)}
    (hes : TimedRun es) : Punctual d es := by
  rintro es₁ es₂ es₃ a b rfl id hadds os w w' o task taskCls socket hrun hst ho
  obtain ⟨-, priority, task', taskCls', ha⟩ := hadds.eq
  rw [List.map_append, List.map_cons, ha, List.append_cons] at hrun
  obtain ⟨_, _, u, hadded, hafter, -⟩ := hrun.of_append
  obtain ⟨_, _, v, hbefore, -, hadd, -⟩ := hadded.of_snoc
  -- the task keeps its id
  have hc : u.callbacks id = some (.delayed task' taskCls') := by
    obtain ⟨-, he⟩ := Option.ite_none_right_eq_some.mp hadd
    cases he
    simp [setTimeout, setSchedulerTask]
  have hc' : w.callbacks id = some (.delayed task' taskCls') :=
    hafter.invariant (P := fun w => w.callbacks id = some (.delayed task' taskCls'))
      (fun w e w' o hw _ hst => by rw [(issued_step hst (by rw [hw]; simp)).1, hw]) hc
  have hb := (moves_of_step hst).timeout_of_invoked (tables_run hrun) hc' ho
  have hfollows : Follows a b := by
    have hpairs := hes.follows
    rw [List.pairwise_append, List.pairwise_cons] at hpairs
    exact hpairs.2.1.1 b (List.mem_append_right _ List.mem_cons_self)
  have hfires := hfollows.fires _ priority task' taskCls' id ha hb
  rw [timeoutDelay_eq hd] at hfires
  exact hfires

section Early

/-- A task is added at the time 0, and its timeout fires. -/
def firing (delay : Nat) : List (ℚ × Event Port) :=
  [(0, .addDelayedWithPriority delay 0 7 9 1), (timeoutDelay delay, .timeout 1)]

/-- The worker in between. -/
def waiting (delay : Nat) : Worker Port := (init.schedulerAddDelayedWithPriority delay 0 7 9 1).1

theorem run_waiting (delay : Nat) : ∃ os, system.Run EventSystem.anyEvent
    [.addDelayedWithPriority delay 0 7 9 1] os (waiting delay : Worker Port) :=
  ⟨_, .snoc .nil trivial rfl⟩

theorem timedRun_firing (delay : Nat) : TimedRun (firing delay : List (ℚ × Event Port)) := by
  refine ⟨?_, ?_⟩
  · rw [firing, List.pairwise_pair]
    refine ⟨Nat.cast_nonneg _, fun delay' priority task taskCls id ha _ => ?_⟩
    cases ha
    exact (zero_add _).le
  · obtain ⟨os, hrun⟩ := @run_waiting Port _ delay
    exact ⟨_, _, .snoc hrun trivial rfl⟩

/-- The task is run at the time of the timeout. -/
theorem le_of_punctual {d : Nat} (hd : d ≠ forever)
    (h : Punctual d (firing (Double.roundNat (d / 1000)) : List (ℚ × Event Port))) :
    d / 1000 ≤ timeoutDelay (Double.roundNat (d / 1000)) := by
  obtain ⟨os, hrun⟩ := @run_waiting Port _ (Double.roundNat (d / 1000))
  have hle := h [] [] [] _ _ rfl 1
    (.delayedWithPriority (addDelayedWithPriority_eq_some.mpr ⟨hd, rfl⟩)) os _ _ _ 7 9 none hrun rfl
    List.mem_cons_self
  rw [zero_add] at hle
  exact Nat.cast_le.mp hle

end Early

/-- **The delays of which no task is run early.** -/
theorem punctual_iff (d : Nat) : (∀ es : List (ℚ × Event Port), TimedRun es → Punctual d es) ↔
    d = forever ∨ d / 1000 < 2147483648 := by
  constructor
  · intro hall
    by_contra hnot
    obtain ⟨hforever, hlong⟩ := not_or.mp hnot
    have hle := le_of_punctual hforever (hall _ (timedRun_firing _))
    have hlt := timeoutDelay_lt (Double.roundNat (d / 1000))
    omega
  · rintro (rfl | hd) es hes
    · rintro es₁ es₂ es₃ a b rfl id hadds
      exact absurd rfl hadds.eq.1
    · exact punctual_of_lt hd hes

/-- A task with a delay of 2500000 seconds is run at once. -/
theorem firing_early : TimedRun (firing 2500000000 : List (ℚ × Event Nat)) ∧
    ¬ Punctual 2500000000000 (firing 2500000000 : List (ℚ × Event Nat)) := by
  refine ⟨timedRun_firing _, fun h => ?_⟩
  have hround : Double.roundNat (2500000000000 / 1000) = 2500000000 := by decide +kernel
  have hle := @le_of_punctual Nat _ 2500000000000 (by decide) (by rw [hround]; exact h)
  rw [hround] at hle
  revert hle
  decide

end GnunetWeb.Worker
