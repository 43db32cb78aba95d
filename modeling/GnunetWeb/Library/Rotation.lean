import Mathlib.Data.Prod.Lex
import Mathlib.Order.BooleanAlgebra.Basic
import Mathlib.Tactic.Common

/-!
# Going round from a starting point

The members of a linear order from a point `n` on, and then those before it.

Proved here:

* `isFirst_iff`: the first member of a set is its least one from `n` on, or the least of
  all when there is none;
* `isFirst_congr`: what determines it;
* `IsFirst.superset_iff`: when the first of a set is the first of a larger one.
-/

namespace Rotation

variable {α : Type*} [LinearOrder α] {m n a b : α} {S T : Set α}

/-- Where a member comes, going round from `n`. -/
def turn (n a : α) : Bool ×ₗ α := toLex (decide (a < n), a)

theorem turn_le_turn : turn n a ≤ turn n b ↔ n ≤ a ∧ b < n ∨ (a < n ↔ b < n) ∧ a ≤ b := by
  rw [turn, turn, Prod.Lex.toLex_le_toLex]
  by_cases ha : a < n <;> by_cases hb : b < n
  · simp [ha, hb]
  · simp [ha, hb]
  · simp [ha, hb, not_lt.mp ha]
  · simp [ha, hb]

/-- Going round from `n`, the first member of `S` is `a`. -/
structure IsFirst (n : α) (S : Set α) (a : α) : Prop where
  mem : a ∈ S
  le : ∀ b ∈ S, turn n a ≤ turn n b

/-- **The first member is the least one from `n` on**, or the least of all. -/
theorem isFirst_iff : IsFirst n S a ↔ a ∈ S ∧
    ((n ≤ a ∧ ∀ b ∈ S, n ≤ b → a ≤ b) ∨ (∀ b ∈ S, b < n) ∧ ∀ b ∈ S, a ≤ b) := by
  constructor
  · rintro ⟨hmem, hle⟩
    refine ⟨hmem, ?_⟩
    rcases le_or_gt n a with ha | ha
    · refine .inl ⟨ha, fun b hb hn => ?_⟩
      rcases turn_le_turn.mp (hle b hb) with ⟨_, hlt⟩ | ⟨_, hab⟩
      · exact absurd hlt (not_lt.mpr hn)
      · exact hab
    · have hround : ∀ b ∈ S, b < n ∧ a ≤ b := by
        intro b hb
        rcases turn_le_turn.mp (hle b hb) with ⟨hn, _⟩ | ⟨hiff, hab⟩
        · exact absurd ha (not_lt.mpr hn)
        · exact ⟨hiff.mp ha, hab⟩
      exact .inr ⟨fun b hb => (hround b hb).1, fun b hb => (hround b hb).2⟩
  · rintro ⟨hmem, ⟨ha, hleast⟩ | ⟨hround, hleast⟩⟩
    · refine ⟨hmem, fun b hb => turn_le_turn.mpr ?_⟩
      rcases le_or_gt n b with hn | hn
      · exact .inr ⟨iff_of_false (not_lt.mpr ha) (not_lt.mpr hn), hleast b hb hn⟩
      · exact .inl ⟨ha, hn⟩
    · exact ⟨hmem, fun b hb =>
        turn_le_turn.mpr (.inr ⟨iff_of_true (hround a hmem) (hround b hb), hleast b hb⟩)⟩

/-- Only the members from the starting point on matter. -/
theorem isFirst_congr (h : ∀ b ∈ S, m ≤ b ↔ n ≤ b) : IsFirst m S a ↔ IsFirst n S a := by
  have hlt : ∀ b ∈ S, b < m ↔ b < n := fun b hb => by rw [← not_le, ← not_le, h b hb]
  rw [isFirst_iff, isFirst_iff]
  refine and_congr_right fun hmem => or_congr (and_congr (h a hmem) ?_) (and_congr ?_ Iff.rfl)
  · exact forall₂_congr fun b hb => imp_congr_left (h b hb)
  · exact forall₂_congr hlt

/-- **The first of some members is the first of all** if no other one comes before these. -/
theorem IsFirst.superset_iff (h : IsFirst n T a) (hsub : T ⊆ S) :
    IsFirst n S a ↔ ∀ b ∈ S, ∃ c ∈ T, turn n c ≤ turn n b := by
  constructor
  · exact fun hS b hb => ⟨a, h.mem, hS.le b hb⟩
  · intro hbefore
    refine ⟨hsub h.mem, fun b hb => ?_⟩
    obtain ⟨c, hc, hle⟩ := hbefore b hb
    exact (h.le c hc).trans hle

end Rotation
