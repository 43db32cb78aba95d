import Mathlib.Algebra.BigOperators.Group.Finset.Basic
import Mathlib.Algebra.Order.BigOperators.Group.Finset
import Mathlib.Algebra.Order.Group.Nat
import Mathlib.Data.List.Count
import Mathlib.Tactic.Common

/-!
# Counting down the largest

Finitely many counters; one with the largest value is lowered by one, again and again.  Of
several such, it is the last one.

Proved here:

* `Run.sum`: the counters lose one each time, together, until all are zero;
* `Run.count`: until then each has been lowered as often as it was chosen;
* `Run.levelled`: they are as if cut off at one level, or one above it before some point.
-/

namespace Countdown

variable {α : Type*} [LinearOrder α] {S : Finset α} {c c' : α → ℕ} {l : List α} {a : α}

/-- The largest counter, and the last one of these. -/
structure IsLast (S : Finset α) (c : α → ℕ) (a : α) : Prop where
  mem : a ∈ S
  le : ∀ b ∈ S, c b < c a ∨ c b = c a ∧ b ≤ a

/-- The counters after `a` has been chosen. -/
def lower (c : α → ℕ) (a : α) : α → ℕ := fun b => if b = a then c b - 1 else c b

/-- What the counters `c` become when those of the list have been chosen. -/
inductive Run (S : Finset α) (c : α → ℕ) : List α → (α → ℕ) → Prop
  | start : Run S c [] c
  | choose {l : List α} {c' : α → ℕ} {a : α} :
    Run S c l c' → IsLast S c' a → Run S c (l ++ [a]) (lower c' a)

theorem lower_self (c : α → ℕ) (a : α) : lower c a a = c a - 1 := if_pos rfl

theorem lower_of_ne {a b : α} (h : b ≠ a) : lower c a b = c b := if_neg h

/-- **One step lowers the sum by one**, if it is positive. -/
theorem IsLast.sum_lower (h : IsLast S c a) : ∑ b ∈ S, lower c a b = ∑ b ∈ S, c b - 1 := by
  have hrest : ∑ b ∈ S.erase a, lower c a b = ∑ b ∈ S.erase a, c b :=
    Finset.sum_congr rfl fun b hb => lower_of_ne (Finset.ne_of_mem_erase hb)
  have hlower := Finset.add_sum_erase S (lower c a) h.mem
  have hsum := Finset.add_sum_erase S c h.mem
  rw [hrest, lower_self] at hlower
  rcases Nat.eq_zero_or_pos (c a) with hzero | hpos
  · have hall : ∑ b ∈ S.erase a, c b = 0 := by
      apply Finset.sum_eq_zero
      intro b hb
      have := h.le b (Finset.mem_of_mem_erase hb)
      omega
    omega
  · omega

/-- While the sum is positive, the largest counter is. -/
theorem IsLast.pos (h : IsLast S c a) (hsum : 0 < ∑ b ∈ S, c b) : 0 < c a := by
  obtain ⟨b, hb, hpos⟩ := Finset.exists_ne_zero_of_sum_ne_zero (Nat.ne_of_gt hsum)
  have := h.le b hb
  omega

/-- **The counters lose one each time**, together. -/
theorem Run.sum (h : Run S c l c') : ∑ b ∈ S, c' b = ∑ b ∈ S, c b - l.length := by
  induction h with
  | start => rfl
  | choose _ hlast ih =>
    rw [hlast.sum_lower, ih, List.length_append, List.length_singleton, Nat.sub_sub]

/-- **Each has been lowered as often as it was chosen**, while there was something left. -/
theorem Run.count (h : Run S c l c') (hl : l.length ≤ ∑ b ∈ S, c b) (b : α) :
    c' b + l.count b = c b := by
  induction h with
  | start => simp
  | @choose l c' a hrun hlast ih =>
    rw [List.length_append, List.length_singleton] at hl
    have hprev := ih (by omega)
    have hpos := hlast.pos (by rw [hrun.sum]; omega)
    rw [List.count_append, List.count_singleton]
    by_cases hb : b = a
    · subst hb
      rw [lower_self, beq_self_eq_true, if_pos rfl]
      omega
    · rw [lower_of_ne hb, if_neg (by simpa using Ne.symm hb)]
      omega

/-- A counter cut off at a level, or at one more before a point. -/
def cut (level : ℕ) (point : α) (c : α → ℕ) (b : α) : ℕ :=
  min (c b) (if b < point then level + 1 else level)

/-- **Choosing the last of the largest keeps the counters cut off.** -/
theorem IsLast.levelled {level : ℕ} {point : α} (h : IsLast S c' a)
    (hcut : ∀ b ∈ S, c' b = cut level point c b) :
    ∃ level' point', ∀ b ∈ S, lower c' a b = cut level' point' c b := by
  have ha := hcut a h.mem
  rcases Nat.eq_zero_or_pos (c' a) with hzero | hpos
  -- nothing is left to lower
  · refine ⟨level, point, fun b hb => ?_⟩
    rw [← hcut b hb]
    by_cases hba : b = a
    · subst hba
      rw [lower_self, hzero]
    · exact lower_of_ne hba
  · refine ⟨c' a - 1, a, fun b hb => ?_⟩
    have hb' := hcut b hb
    unfold cut at ha hb' ⊢
    rcases lt_trichotomy b a with hlt | rfl | hgt
    · have hle := h.le b hb
      rw [lower_of_ne hlt.ne, if_pos hlt]
      split at ha
      · rw [if_pos (hlt.trans ‹a < point›)] at hb'
        omega
      · split at hb'
        · omega
        · omega
    · rw [lower_self, if_neg (lt_irrefl b)]
      omega
    · have hle : c' b < c' a := (h.le b hb).resolve_right fun he => not_lt.mpr he.2 hgt
      rw [lower_of_ne hgt.ne', if_neg (not_lt.mpr hgt.le)]
      split at ha
      · split at hb'
        · omega
        · omega
      · rw [if_neg fun hb => ‹¬ a < point› (hgt.trans hb)] at hb'
        omega

/-- **The counters are cut off at a level** after every run. -/
theorem Run.levelled [Nonempty α] (h : Run S c l c') :
    ∃ level point, ∀ b ∈ S, c' b = cut level point c b := by
  induction h with
  | start =>
    obtain ⟨point⟩ := ‹Nonempty α›
    refine ⟨∑ b ∈ S, c b, point, fun b hb => ?_⟩
    have hle := Finset.single_le_sum (fun _ _ => Nat.zero_le _) hb (f := c)
    unfold cut
    split
    · omega
    · omega
  | choose _ hlast ih =>
    obtain ⟨level, point, hcut⟩ := ih
    exact hlast.levelled hcut

end Countdown
