import GnunetWeb.Worker.Cancel

/-!
# Runs after a cancellation

Proved here:

* `steps_after_cancel`, `steps_before_cancel`: whatever can happen without the
  cancellation of `c` can happen with it, and the other way round, with the same
  calls of the tasks of other sockets;
* `cancel_tasks`: the life of every task in every run, and what its cancellation
  leaves alone.
-/

namespace GnunetWeb.Worker

variable {Port : Type} [DecidableEq Port]

open EventSystem

def isTimeout (c : TaskId) : Event Port → Bool
  | .timeout id => id = c
  | _ => false

omit [DecidableEq Port] in
theorem isTimeout_iff {c : TaskId} {e : Event Port} : isTimeout c e ↔ e = .timeout c := by
  cases e <;> simp [isTimeout]

section Simulation

variable {c : TaskId} {w : Worker Port}

omit [DecidableEq Port] in
theorem apart_cancel (hw : Tables w) (hc : w.callbacks c ≠ none) :
    Apart c w (w.schedulerCancel c).1 := by
  rw [schedulerCancel_fst]
  have h := (Apart.refl hc).clearTimeout_left
  exact (dropTask_touched (hw.clearTimeout c) h (.inl rfl)).symm

theorem socketOf_step {w' : Worker Port} {e : Event Port} {o : List (Output Port)}
    (hs : w.step e = some (w', o)) (hc : w.callbacks c ≠ none) : w'.socketOf c = w.socketOf c := by
  rw [socketOf, (issued_step hs hc).1, socketOf]

/-- The invariant of two workers of which `v` has cancelled `c`, a task of `d`. -/
structure Cancelled (c : TaskId) (d : Option Desc) (w v : Worker Port) : Prop where
  tables : Tables w
  tables' : Tables v
  apart : Apart c w v
  socket : w.socketOf c = d
  cleared : v.armed c = false

omit [DecidableEq Port] in
theorem cancelled_cancel (hw : Tables w) (hc : w.callbacks c ≠ none) :
    Cancelled c (w.socketOf c) w (w.schedulerCancel c).1 := by
  refine ⟨hw, hw.schedulerCancel c, apart_cancel hw hc, rfl, ?_⟩
  rw [schedulerCancel_fst, (dropTask_callbacks _ c).2]
  simp [clearTimeout]

/-- Both sides take a step. -/
theorem Cancelled.step {d : Option Desc} {v : Worker Port} (h : Cancelled c d w v)
    {e : Event Port} {r q : Worker Port × List (Output Port)} (hr : w.step e = some r)
    (hq : v.step e = some q) (hm : Matches c r q) :
    Cancelled c d r.1 q.1 ∧ q.2.filterMap (visible c d) = r.2.filterMap (visible c d) := by
  have hd : r.1.socketOf c = d := (socketOf_step hr h.apart.issued).trans h.socket
  have hv : v.callbacks c ≠ none := by rw [h.apart.callbacks]; exact h.apart.issued
  exact ⟨⟨tables_step h.tables hr, tables_step h.tables' hq, hm.apart, hd,
    (issued_step hq hv).2 h.cleared⟩, hd ▸ hm.visible⟩

/-- Without the cancellation: the timeout of `c` may fire as well. -/
theorem steps_after_cancel (hw : Tables w) (hc : w.callbacks c ≠ none) {es : List (Event Port)}
    {os : List (Output Port)} {w' : Worker Port} (h : system.Steps anyEvent w es os w') :
    ∃ v' qs,
      system.Steps anyEvent (w.schedulerCancel c).1 (es.filter fun e => !isTimeout c e) qs v' ∧
      qs.filterMap (visible c (w.socketOf c)) = os.filterMap (visible c (w.socketOf c)) := by
  have hkeep : ∀ (w₁ v₁ : Worker Port) (e : Event Port) (w₂ : Worker Port) (o : List (Output Port)),
      Cancelled c (w.socketOf c) w₁ v₁ → !isTimeout c e → system.step w₁ e = some (w₂, o) →
      ∃ v₂ q, system.step v₁ e = some (v₂, q) ∧ Cancelled c (w.socketOf c) w₂ v₂ ∧
        q.filterMap (visible c (w.socketOf c)) = o.filterMap (visible c (w.socketOf c)) := by
    intro w₁ v₁ e w₂ o hR hk hs
    have he : e ≠ .timeout c := fun he => by simp [isTimeout_iff.mpr he] at hk
    obtain ⟨q, hq, hm⟩ := (apart_step hR.tables hR.tables' hR.apart he).left hs
    exact ⟨q.1, q.2, hq, hR.step hs hq hm⟩
  have hdrop : ∀ (w₁ v₁ : Worker Port) (e : Event Port) (w₂ : Worker Port) (o : List (Output Port)),
      Cancelled c (w.socketOf c) w₁ v₁ → ¬ !isTimeout c e → system.step w₁ e = some (w₂, o) →
      Cancelled c (w.socketOf c) w₂ v₁ ∧ o.filterMap (visible c (w.socketOf c)) = [] := by
    intro w₁ v₁ e w₂ o hR hk (hs : w₁.step e = some (w₂, o))
    obtain rfl : e = .timeout c := isTimeout_iff.mp (by simpa using hk)
    obtain ⟨ha, hvis⟩ := apart_timeout hR.tables hR.apart hs
    exact ⟨⟨tables_step hR.tables hs, hR.tables', ha, (socketOf_step hs hR.apart.issued).trans
      hR.socket, hR.cleared⟩, hR.socket ▸ hvis⟩
  obtain ⟨v', qs, hsteps, _, hvis⟩ := h.simulate _ _ hkeep hdrop (cancelled_cancel hw hc)
  exact ⟨v', qs, hsteps, hvis⟩

/-- With the cancellation: what happens can happen without it. -/
theorem steps_before_cancel (hw : Tables w) (hc : w.callbacks c ≠ none) {es : List (Event Port)}
    {qs : List (Output Port)} {v' : Worker Port}
    (h : system.Steps anyEvent (w.schedulerCancel c).1 es qs v') :
    ∃ w' os, system.Steps anyEvent w es os w' ∧
      os.filterMap (visible c (w.socketOf c)) = qs.filterMap (visible c (w.socketOf c)) := by
  have hkeep : ∀ (v₁ w₁ : Worker Port) (e : Event Port) (v₂ : Worker Port) (q : List (Output Port)),
      Cancelled c (w.socketOf c) w₁ v₁ → true → system.step v₁ e = some (v₂, q) →
      ∃ w₂ o, system.step w₁ e = some (w₂, o) ∧ Cancelled c (w.socketOf c) w₂ v₂ ∧
        o.filterMap (visible c (w.socketOf c)) = q.filterMap (visible c (w.socketOf c)) := by
    intro v₁ w₁ e v₂ q hR _ hs
    -- a cleared timeout does not fire
    have he : e ≠ .timeout c := by
      rintro rfl
      have hs' : v₁.step (.timeout c) = some (v₂, q) := hs
      simp [step, hR.cleared] at hs'
    obtain ⟨r, hr, hm⟩ := (apart_step hR.tables hR.tables' hR.apart he).right hs
    obtain ⟨hR', hvis⟩ := hR.step hr hs hm
    exact ⟨r.1, r.2, hr, hR', hvis.symm⟩
  obtain ⟨w', os, hsteps, _, hvis⟩ := h.simulate _ (fun _ => true) hkeep
    (fun _ _ _ _ _ _ hk => absurd rfl hk) (cancelled_cancel hw hc)
  rw [List.filter_eq_self.mpr (fun _ _ => rfl)] at hsteps
  exact ⟨w', os, hsteps, hvis⟩

end Simulation

omit [DecidableEq Port] in
/-- What the outputs of a run should be: from the call that returned its id on, the
handler of a task is called at most once, with its own closure, and not after a
cancellation; a cancellation returns the closure of a task that is still pending, and
0 otherwise. -/
def Settled (os : List (Output Port)) : Prop :=
  ∀ (id : TaskId) (task taskCls : Ptr) (socket : Option Desc) (a b : List (Output Port)),
    os = a ++ .registered id task taskCls socket :: b →
      (∀ task' taskCls' socket', .invoked id task' taskCls' socket' ∈ os →
        task' = task ∧ taskCls' = taskCls) ∧
      (os.filter (invokes id)).length ≤ 1 ∧
      ∀ pre cls post, b = pre ++ .cancelled id cls :: post →
        post.filter (invokes id) = [] ∧ cls = if pre.any (settles id) then 0 else taskCls

/-- **The life of a task.**  In every run in which no read task is cancelled when its
socket is closed and still links to it, the tasks are settled; and a cancellation makes
no difference to the calls of the tasks of other sockets, whatever happens afterwards. -/
theorem cancel_tasks {es : List (Event Port)} {os : List (Output Port)} {w : Worker Port}
    (h : system.Run cancelsOpen es os w) :
    Settled os ∧
    ∀ c, w.callbacks c ≠ none →
      (∀ fs ps w', system.Steps anyEvent w fs ps w' →
        ∃ v' qs, system.Steps anyEvent (w.schedulerCancel c).1
            (fs.filter fun e => !isTimeout c e) qs v' ∧
          qs.filterMap (visible c (w.socketOf c)) = ps.filterMap (visible c (w.socketOf c))) ∧
      (∀ fs qs v', system.Steps anyEvent (w.schedulerCancel c).1 fs qs v' →
        ∃ w' ps, system.Steps anyEvent w fs ps w' ∧
          ps.filterMap (visible c (w.socketOf c)) = qs.filterMap (visible c (w.socketOf c))) := by
  obtain ⟨htables, -, hlife⟩ := life_run h
  constructor
  · rintro id task taskCls socket a b rfl
    exact settled_of_life (hlife id)
  · intro c hc
    exact ⟨fun fs ps w' hs => steps_after_cancel htables hc hs,
      fun fs qs v' hs => steps_before_cancel htables hc hs⟩

/-- A read task is cancelled, its socket is closed, and then a message arrives that was on
its way. -/
theorem cancel_tasks_then_close : ∃ (os : List (Output Nat)) (w : Worker Nat),
    system.Run cancelsOpen
      [.socketCreate 1 1 0, .socketConnect 1 1 "nse" (some (10, 11)) true, .addReadNet 0 1 7 9 3,
        .cancel 3, .socketClose 1, .message 10 (.bytes [5])] os w ∧
      .cancelled 3 9 ∈ os ∧ Settled os := by
  have hstart : system.Run (σ := Worker Nat) cancelsOpen [] [] init := .nil
  have hcreate := hstart.snoc (show cancelsOpen _ (.socketCreate 1 1 0) from trivial) rfl
  have hconnect := hcreate.snoc
    (show cancelsOpen _ (.socketConnect 1 1 "nse" (some (10, 11)) true) from trivial) rfl
  have hadd := hconnect.snoc (show cancelsOpen _ (.addReadNet 0 1 7 9 3) from trivial) rfl
  have hcancel := hadd.snoc (show cancelsOpen _ (.cancel 3) from fun rfd s task taskCls hc _ => by
    cases hc
    rfl) rfl
  have hclose := hcancel.snoc (show cancelsOpen _ (.socketClose 1) from trivial) rfl
  have hrun := hclose.snoc (show cancelsOpen _ (.message 10 (.bytes [5])) from trivial) rfl
  exact ⟨_, _, hrun, by simp, (cancel_tasks hrun).1⟩

/-- The socket is closed first: the message calls the handler of the cancelled task. -/
theorem cancel_tasks_closed : ∃ (os : List (Output Nat)) (w : Worker Nat),
    system.Run anyEvent
      [.socketCreate 1 1 0, .socketConnect 1 1 "nse" (some (10, 11)) true, .addReadNet 0 1 7 9 3,
        .socketClose 1, .cancel 3, .message 10 (.bytes [5])] os w ∧ ¬ Settled os := by
  refine ⟨[.reply ⟨1, none⟩, .clientConnect "nse" 11, .reply ⟨1, none⟩, .registered 3 7 9 (some 1),
    .reply ⟨3, none⟩, .posted 10 .close, .closed 10, .reply ⟨1, none⟩, .cancelled 3 9,
    .invoked 3 7 9 (some 1)], _, .of_exec (fun _ _ => trivial) rfl, fun h => ?_⟩
  have hcancelled := (h 3 7 9 (some 1)
    [.reply ⟨1, none⟩, .clientConnect "nse" 11, .reply ⟨1, none⟩] _ rfl).2.2
    [.reply ⟨3, none⟩, .posted 10 .close, .closed 10, .reply ⟨1, none⟩] 9 _ rfl
  simp [invokes] at hcancelled

end GnunetWeb.Worker
