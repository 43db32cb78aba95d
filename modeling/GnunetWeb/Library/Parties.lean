import Mathlib.Algebra.GroupWithZero.Nat
import Mathlib.Data.List.Basic

/-!
# Parties

The parties of a system as a list: a step adds parties at the end, or changes one of them.

Proved here:

* `getElem?_set_cases`, `getElem?_concat_cases`: the parties after a change of one;
* `getElem?_set_related`, `forall_mem_set`: what the change leaves;
* `sum_set_lt`, `sum_modify_le`: a measure that is summed up over the parties.
-/

section Parties

variable {π : Type} {l : List π} {i j : Nat} {p q : π}

theorem getElem?_set_cases (h : (l.set i p)[j]? = some q) :
    j = i ∧ q = p ∨ j ≠ i ∧ l[j]? = some q := by
  by_cases hij : i = j
  · subst hij
    have hlt : i < l.length := by simpa using (List.getElem?_eq_some_iff.mp h).1
    rw [List.getElem?_set_self hlt] at h
    exact .inl ⟨rfl, (Option.some.inj h).symm⟩
  · rw [List.getElem?_set_ne hij] at h
    exact .inr ⟨Ne.symm hij, h⟩

/-- A party that has been changed is still there, as far as `R` goes. -/
theorem getElem?_set_related {R : π → π → Prop} (hrefl : ∀ q, R q q) (h : l[j]? = some q)
    (hR : j = i → R q p) : ∃ q', (l.set i p)[j]? = some q' ∧ R q q' := by
  have hlt : j < l.length := (List.getElem?_eq_some_iff.mp h).1
  by_cases hij : i = j
  · subst hij
    exact ⟨p, List.getElem?_set_self hlt, hR rfl⟩
  · exact ⟨q, (List.getElem?_set_ne hij).trans h, hrefl q⟩

theorem getElem?_concat_cases (h : (l ++ [p])[j]? = some q) :
    j = l.length ∧ q = p ∨ l[j]? = some q := by
  obtain hlt | heq | hgt := Nat.lt_trichotomy j l.length
  · exact .inr ((List.getElem?_append_left hlt).symm.trans h)
  · subst heq
    exact .inl ⟨rfl, (Option.some.inj (List.getElem?_concat_length.symm.trans h)).symm⟩
  · have hlt : j < l.length + 1 := by simpa using (List.getElem?_eq_some_iff.mp h).1
    exact absurd hlt (Nat.not_lt.mpr (Nat.succ_le_of_lt hgt))

theorem getElem?_append_of_some {l' : List π} (h : l[i]? = some p) : (l ++ l')[i]? = some p :=
  (List.getElem?_append_left (List.getElem?_eq_some_iff.mp h).1).trans h

theorem forall_mem_set {P : π → Prop} (h : ∀ x ∈ l, P x) (i : Nat) (hp : P p) :
    ∀ x ∈ l.set i p, P x := fun x hx =>
  (List.mem_or_eq_of_mem_set hx).elim (h x) fun he => he ▸ hp

theorem modify_of_some (h : l[i]? = some p) (f : π → π) : l.modify i f = l.set i (f p) := by
  refine List.ext_getElem? fun k => ?_
  by_cases hik : i = k
  · subst hik
    rw [List.getElem?_modify_eq, h, List.getElem?_set_self (List.getElem?_eq_some_iff.mp h).1]
    rfl
  · rw [List.getElem?_modify_ne _ _ hik, List.getElem?_set_ne hik]

/-- One party has less. -/
theorem sum_set_lt (w : π → Nat) {n : Nat} (h : l[i]? = some p) (hlt : w q + n < w p) :
    ((l.set i q).map w).sum + n < (l.map w).sum := by
  induction l generalizing i with
  | nil => cases h
  | cons b l ih =>
    cases i with
    | zero =>
      cases h
      simp only [List.set_cons_zero, List.map_cons, List.sum_cons]
      omega
    | succ i =>
      have := ih (i := i) h
      simp only [List.set_cons_succ, List.map_cons, List.sum_cons]
      omega

theorem sum_modify_le (w : π → Nat) {f : π → π} (hle : ∀ p, w (f p) ≤ w p) (l : List π) (i : Nat) :
    ((l.modify i f).map w).sum ≤ (l.map w).sum := by
  induction l generalizing i with
  | nil => simp
  | cons b l ih =>
    cases i with
    | zero => simpa using hle b
    | succ i => simpa using ih i

end Parties
