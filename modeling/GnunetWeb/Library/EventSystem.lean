import Mathlib.Data.List.Basic
import Mathlib.Data.List.Induction
import Mathlib.Tactic.Common

/-!
# Event-driven systems

A system takes one event at a time.  An event that cannot happen in a state has no
step; a step yields the next state and the outputs that it made.

Proved here:

* `Steps.unique`: the events determine the run;
* `Steps.invariant`: what one allowed step preserves, a whole run preserves;
* `Steps.history`: the same for a property of the outputs so far and the state;
* `Steps.length_le`: a measure bounds the run;
* `throughout_of_invariant`, `throughout_of_run`, `Throughout.of_mem`: what holds of every
  step of a run;
* `Steps.simulate`: two runs that are related step by step make the same visible
  outputs, where one of them leaves out some events;
* `Steps.refine`: a system whose steps are those of another one refines it.
-/

structure EventSystem (σ ε ω : Type) where
  init : σ
  step : σ → ε → Option (σ × List ω)

namespace EventSystem

variable {σ ε ω : Type} (M : EventSystem σ ε ω)

/-- `Steps ok s es os t`: from `s`, the events `es` lead to `t` with the outputs
`os`, and each event is one that `ok` allows in its state. -/
inductive Steps (ok : σ → ε → Prop) (s : σ) : List ε → List ω → σ → Prop
  | nil : Steps ok s [] [] s
  | snoc {es : List ε} {os o : List ω} {t t' : σ} {e : ε} :
      Steps ok s es os t → ok t e → M.step t e = some (t', o) →
        Steps ok s (es ++ [e]) (os ++ o) t'

/-- Every event is allowed. -/
def anyEvent : σ → ε → Prop := fun _ _ => True

/-- The runs from the initial state. -/
abbrev Run (ok : σ → ε → Prop) : List ε → List ω → σ → Prop := M.Steps ok M.init

variable {M}

theorem Steps.mono {ok ok' : σ → ε → Prop} (himp : ∀ s e, ok s e → ok' s e) {s t : σ}
    {es : List ε} {os : List ω} (h : M.Steps ok s es os t) : M.Steps ok' s es os t := by
  induction h with
  | nil => exact .nil
  | snoc _ hok hst ih => exact .snoc ih (himp _ _ hok) hst

theorem Steps.toAny {ok : σ → ε → Prop} {s t : σ} {es : List ε} {os : List ω}
    (h : M.Steps ok s es os t) : M.Steps anyEvent s es os t :=
  h.mono fun _ _ _ => trivial

theorem Steps.append {ok : σ → ε → Prop} {s t u : σ} {es fs : List ε} {os ps : List ω}
    (h₁ : M.Steps ok s es os t) (h₂ : M.Steps ok t fs ps u) :
    M.Steps ok s (es ++ fs) (os ++ ps) u := by
  induction h₂ with
  | nil => simpa using h₁
  | snoc _ hok hstep ih =>
    rw [← List.append_assoc, ← List.append_assoc]
    exact .snoc ih hok hstep

/-- The last event of a run. -/
theorem Steps.of_snoc {ok : σ → ε → Prop} {s t' : σ} {es : List ε} {e : ε} {os : List ω}
    (h : M.Steps ok s (es ++ [e]) os t') : ∃ os' o t, M.Steps ok s es os' t ∧ ok t e ∧
      M.step t e = some (t', o) ∧ os = os' ++ o := by
  generalize hl : es ++ [e] = l at h
  cases h with
  | nil => simp at hl
  | snoc h hok hst =>
    obtain ⟨rfl, he⟩ := List.append_inj' hl rfl
    cases he
    exact ⟨_, _, _, h, hok, hst, rfl⟩

theorem Steps.of_nil {ok : σ → ε → Prop} {s t : σ} {os : List ω} (h : M.Steps ok s [] os t) :
    os = [] ∧ t = s := by
  generalize hl : ([] : List ε) = l at h
  cases h with
  | nil => exact ⟨rfl, rfl⟩
  | snoc _ _ _ => simp at hl

/-- The events determine the run. -/
theorem Steps.unique {ok ok' : σ → ε → Prop} {s t t' : σ} {es : List ε} {os os' : List ω}
    (h : M.Steps ok s es os t) (h' : M.Steps ok' s es os' t') : os = os' ∧ t = t' := by
  induction h generalizing os' t' with
  | nil =>
    obtain ⟨rfl, rfl⟩ := h'.of_nil
    exact ⟨rfl, rfl⟩
  | snoc _ _ hst ih =>
    obtain ⟨_, _, _, h'', _, hst', rfl⟩ := h'.of_snoc
    obtain ⟨rfl, rfl⟩ := ih h''
    cases hst.symm.trans hst'
    exact ⟨rfl, rfl⟩

/-- The events of a list one after the other. -/
def exec (M : EventSystem σ ε ω) (s : σ) : List ε → Option (σ × List ω)
  | [] => some (s, [])
  | e :: es => (M.step s e).bind fun r => (exec M r.1 es).map fun q => (q.1, r.2 ++ q.2)

/-- A computed run is a run, when its events are allowed. -/
theorem Steps.of_exec {ok : σ → ε → Prop} (hok : ∀ s e, ok s e) {es : List ε} :
    ∀ {s t : σ} {os : List ω}, M.exec s es = some (t, os) → M.Steps ok s es os t := by
  induction es with
  | nil =>
    intro s t os h
    cases h
    exact .nil
  | cons e es ih =>
    intro s t os h
    obtain ⟨r, hr, hmap⟩ := Option.bind_eq_some_iff.mp h
    obtain ⟨q, hq, he⟩ := Option.map_eq_some_iff.mp hmap
    cases he
    exact Steps.append (.snoc .nil (hok s e) hr) (ih hq)

/-- The system that refuses what is not allowed. -/
def restrict (M : EventSystem σ ε ω) (ok : σ → ε → Prop) [∀ s e, Decidable (ok s e)] :
    EventSystem σ ε ω :=
  ⟨M.init, fun s e => if ok s e then M.step s e else none⟩

theorem Steps.of_restrict {ok : σ → ε → Prop} [∀ s e, Decidable (ok s e)] {s t : σ} {es : List ε}
    {os : List ω} (h : (M.restrict ok).Steps anyEvent s es os t) : M.Steps ok s es os t := by
  induction h with
  | nil => exact .nil
  | snoc _ _ hst ih =>
    obtain ⟨hok, hst⟩ := Option.ite_none_right_eq_some.mp hst
    exact .snoc ih hok hst

/-- **The invariant rule.** -/
theorem Steps.invariant {ok : σ → ε → Prop} {P : σ → Prop}
    (hstep : ∀ s e s' o, P s → ok s e → M.step s e = some (s', o) → P s')
    {s t : σ} {es : List ε} {os : List ω} (h : M.Steps ok s es os t) (hs : P s) : P t := by
  induction h with
  | nil => exact hs
  | snoc _ hok hst ih => exact hstep _ _ _ _ ih hok hst

/-- **The invariant rule with outputs.** -/
theorem Steps.history {ok : σ → ε → Prop} {P : List ω → σ → Prop}
    (hstep : ∀ os s e s' o, P os s → ok s e → M.step s e = some (s', o) → P (os ++ o) s')
    {s t : σ} {es : List ε} {os : List ω} (h : M.Steps ok s es os t) (hs : P [] s) : P os t := by
  induction h with
  | nil => exact hs
  | snoc _ hok hst ih => exact hstep _ _ _ _ _ ih hok hst

/-- A run in two parts. -/
theorem Steps.of_append {ok : σ → ε → Prop} {s t : σ} {es fs : List ε} {os : List ω}
    (h : M.Steps ok s (es ++ fs) os t) : ∃ os' o u, M.Steps ok s es os' u ∧
      M.Steps ok u fs o t ∧ os = os' ++ o := by
  induction fs using List.reverseRecOn generalizing os t with
  | nil =>
    rw [List.append_nil] at h
    exact ⟨os, [], t, h, .nil, (List.append_nil os).symm⟩
  | append_singleton fs e ih =>
    rw [← List.append_assoc] at h
    obtain ⟨os', o, u, hbefore, hok, hst, rfl⟩ := h.of_snoc
    obtain ⟨os'', o', v, hfirst, hrest, rfl⟩ := ih hbefore
    exact ⟨os'', o' ++ o, v, hfirst, .snoc hrest hok hst, List.append_assoc _ _ _⟩

/-- An event of a run has made a step. -/
theorem Steps.step_of_mem {ok : σ → ε → Prop} {s t : σ} {es : List ε} {os : List ω} {e : ε}
    (h : M.Steps ok s es os t) (he : e ∈ es) : ∃ es₁ es₂ os' u r, es = es₁ ++ e :: es₂ ∧
      M.Steps ok s es₁ os' u ∧ M.step u e = some r := by
  obtain ⟨es₁, es₂, rfl⟩ := List.append_of_mem he
  rw [List.append_cons] at h
  obtain ⟨_, _, _, h, _, _⟩ := h.of_append
  obtain ⟨os', o, u, h, _, hst, _⟩ := h.of_snoc
  exact ⟨es₁, es₂, os', u, _, rfl, h, hst⟩

/-- **The termination rule.**  There are at most as many events as a measure that each of them
makes smaller. -/
theorem Steps.length_le {ok : σ → ε → Prop} (measure : σ → Nat)
    (hstep : ∀ s e s' o, ok s e → M.step s e = some (s', o) → measure s' < measure s)
    {s t : σ} {es : List ε} {os : List ω} (h : M.Steps ok s es os t) :
    es.length + measure t ≤ measure s := by
  induction h with
  | nil => simp
  | snoc _ hok hst ih =>
    have hlt := hstep _ _ _ _ hok hst
    rw [List.length_append, List.length_singleton]
    omega

/-! ## What holds of every step of a run -/

/-- Each step that the events make from the initial state has the property. -/
def Throughout (M : EventSystem σ ε ω) (P : σ → ε → σ × List ω → Prop) (es : List ε) : Prop :=
  ∀ es₁ e es₂, es = es₁ ++ e :: es₂ →
    ∀ os s r, M.Run anyEvent es₁ os s → M.step s e = some r → P s e r

/-- **The rule of a property of the steps**: it follows from an invariant, where the events
are allowed. -/
theorem throughout_of_invariant {I : σ → Prop} {P : σ → ε → σ × List ω → Prop}
    {allowed : ε → Prop} (hinit : I M.init)
    (hstep : ∀ s e r, I s → allowed e → M.step s e = some r → I r.1 ∧ P s e r)
    {es : List ε} (hes : ∀ e ∈ es, allowed e) : M.Throughout P es := by
  have hinv : ∀ {es : List ε} {os : List ω} {s : σ}, M.Run anyEvent es os s →
      (∀ e ∈ es, allowed e) → I s := by
    intro es os s h
    induction h with
    | nil => exact fun _ => hinit
    | snoc _ _ hst ih =>
      intro hes
      have hs := ih fun e he => hes e (List.mem_append_left _ he)
      exact (hstep _ _ _ hs (hes _ (List.mem_append_right _ List.mem_cons_self)) hst).1
  rintro es₁ e es₂ rfl os s r h hst
  have hs := hinv h fun e he => hes e (List.mem_append_left _ he)
  exact (hstep s e r hs (hes e (List.mem_append_right _ List.mem_cons_self)) hst).2

/-- **The rule for the steps of a run**, whose events are allowed in their states. -/
theorem throughout_of_run {ok : σ → ε → Prop} {I : σ → Prop} {P : σ → ε → σ × List ω → Prop}
    (hinit : I M.init)
    (hstep : ∀ s e r, I s → ok s e → M.step s e = some r → I r.1 ∧ P s e r)
    {es : List ε} {os : List ω} {t : σ} (h : M.Run ok es os t) : M.Throughout P es := by
  rintro es₁ e es₂ rfl os' s r h' hst
  rw [List.append_cons] at h
  obtain ⟨_, _, _, hbefore, -, -⟩ := h.of_append
  obtain ⟨_, _, u, hfirst, hok, -, -⟩ := hbefore.of_snoc
  obtain ⟨-, rfl⟩ := h'.unique hfirst
  have hs : I s := hfirst.invariant (fun s e s' o hs hok hst => (hstep s e (s', o) hs hok hst).1)
    hinit
  exact (hstep s e r hs hok hst).2

/-- The events of a run are allowed by what all its steps have. -/
theorem Steps.of_throughout {ok Q : σ → ε → Prop} {es : List ε} {os : List ω} {t : σ}
    (h : M.Run ok es os t) (hQ : M.Throughout (fun s e _ => Q s e) es) :
    M.Run (fun s e => ok s e ∧ Q s e) es os t := by
  induction h with
  | nil => exact .nil
  | snoc h hok hst ih =>
    refine .snoc (ih ?_) ⟨hok, hQ _ _ [] rfl _ _ _ h.toAny hst⟩ hst
    rintro es₁ e es₂ rfl
    exact hQ es₁ e _ (List.append_assoc _ _ _)

/-- A property of all steps holds of the steps that a run has made. -/
theorem Throughout.of_mem {P : σ → ε → σ × List ω → Prop} {es : List ε} {os : List ω} {t : σ}
    {e : ε} (hP : M.Throughout P es) (h : M.Run anyEvent es os t) (he : e ∈ es) :
    ∃ s r, M.step s e = some r ∧ P s e r := by
  obtain ⟨es₁, es₂, os', s, r, hes, h, hst⟩ := h.step_of_mem he
  exact ⟨s, r, hst, hP es₁ e es₂ hes os' s r h hst⟩

/-- **The simulation rule.**  Events that `keep` rejects are left out on the right;
`visible` selects the outputs that are compared. -/
theorem Steps.simulate {R : σ → σ → Prop} {β : Type} (visible : ω → Option β) (keep : ε → Bool)
    (hkeep : ∀ s t e s' o, R s t → keep e → M.step s e = some (s', o) →
      ∃ t' o', M.step t e = some (t', o') ∧ R s' t' ∧ o'.filterMap visible = o.filterMap visible)
    (hdrop : ∀ s t e s' o, R s t → ¬ keep e → M.step s e = some (s', o) →
      R s' t ∧ o.filterMap visible = [])
    {s s' t : σ} {es : List ε} {os : List ω} (h : M.Steps anyEvent s es os s') (hR : R s t) :
    ∃ t' os', M.Steps anyEvent t (es.filter keep) os' t' ∧ R s' t' ∧
      os'.filterMap visible = os.filterMap visible := by
  induction h with
  | nil => exact ⟨t, [], .nil, hR, rfl⟩
  | @snoc es os o u u' e _ _ hst ih =>
    obtain ⟨t', os', hsteps, hR', hvis⟩ := ih
    by_cases hk : keep e
    · obtain ⟨t'', o', hst', hR'', hvis'⟩ := hkeep _ _ _ _ _ hR' hk hst
      refine ⟨t'', os' ++ o', ?_, hR'', by simp [hvis, hvis']⟩
      rw [List.filter_append, show [e].filter keep = [e] by simp [hk]]
      exact .snoc hsteps trivial hst'
    · obtain ⟨hR'', hvis'⟩ := hdrop _ _ _ _ _ hR' hk hst
      refine ⟨t', os', ?_, hR'', by simp [hvis, hvis']⟩
      rw [List.filter_append, show [e].filter keep = [] by simp [hk], List.append_nil]
      exact hsteps

/-- **The refinement rule.**  A system whose steps are those of another one, with its outputs
translated, has only runs of the other one. -/
theorem Steps.refine {σ' ω' : Type} {N : EventSystem σ' ε ω'} {ok : σ → ε → Prop}
    {R : σ → σ' → Prop} (f : ω → ω')
    (hstep : ∀ s t e s' o, R s t → ok s e → M.step s e = some (s', o) →
      ∃ t', N.step t e = some (t', o.map f) ∧ R s' t')
    {s s' : σ} {t : σ'} {es : List ε} {os : List ω} (h : M.Steps ok s es os s') (hR : R s t) :
    ∃ t', N.Steps anyEvent t es (os.map f) t' ∧ R s' t' := by
  induction h with
  | nil => exact ⟨t, .nil, hR⟩
  | snoc _ hok hst ih =>
    obtain ⟨u, hsteps, hRu⟩ := ih
    obtain ⟨u', hst', hRu'⟩ := hstep _ _ _ _ _ hRu hok hst
    refine ⟨u', ?_, hRu'⟩
    rw [List.map_append]
    exact .snoc hsteps trivial hst'

end EventSystem
