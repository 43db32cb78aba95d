import Mathlib.Order.BoundedOrder.Lattice
import Mathlib.Order.WithBot
import Mathlib.Data.List.Basic

/-!
# The largest value of each key

A list of things with a key and a value, the values in a linear order.  Every key has a
join: the largest of its values, or `⊥` when the list has none.

Proved here:

* `joinAt_append`: the join of two lists is the join of their joins;
* `joinAt_le_iff`, `joinAt_eq_coe_iff`: what the join is;
* `joinAt_eq_of_cover`: leaving out what is not the largest does not change it.
-/

namespace KeyedJoin

variable {α κ ν : Type} [DecidableEq κ] [LinearOrder ν] (key : α → κ) (value : α → ν)

/-- The largest value of a key. -/
def joinAt : List α → κ → WithBot ν
  | [], _ => ⊥
  | a :: l, k => if key a = k then (value a : WithBot ν) ⊔ joinAt l k else joinAt l k

variable {key value}

theorem joinAt_append (l l' : List α) :
    joinAt key value (l ++ l') = joinAt key value l ⊔ joinAt key value l' := by
  funext k
  rw [Pi.sup_apply]
  induction l with
  | nil => rw [List.nil_append, joinAt, bot_sup_eq]
  | cons a l ih =>
    rw [List.cons_append, joinAt, joinAt, ih]
    by_cases hk : key a = k
    · rw [if_pos hk, if_pos hk, sup_assoc]
    · rw [if_neg hk, if_neg hk]

theorem joinAt_le_iff {l : List α} {k : κ} {b : WithBot ν} :
    joinAt key value l k ≤ b ↔ ∀ a ∈ l, key a = k → (value a : WithBot ν) ≤ b := by
  induction l with
  | nil => simp [joinAt]
  | cons a l ih =>
    rw [joinAt, List.forall_mem_cons, ← ih]
    by_cases hk : key a = k
    · rw [if_pos hk, sup_le_iff]
      exact and_congr_left fun _ => ⟨fun h _ => h, fun h => h hk⟩
    · rw [if_neg hk]
      exact ⟨fun h => ⟨fun hk' => absurd hk' hk, h⟩, fun h => h.2⟩

theorem le_joinAt {l : List α} {a : α} (ha : a ∈ l) :
    (value a : WithBot ν) ≤ joinAt key value l (key a) :=
  joinAt_le_iff.mp (le_refl _) a ha rfl

/-- The join is one of the values. -/
theorem exists_of_joinAt {l : List α} {k : κ} {v : ν} (h : joinAt key value l k = v) :
    ∃ a ∈ l, key a = k ∧ value a = v := by
  induction l with
  | nil => cases h
  | cons a l ih =>
    rw [joinAt] at h
    have hrest : joinAt key value l k = v → ∃ b ∈ a :: l, key b = k ∧ value b = v := by
      intro hl
      obtain ⟨b, hb, hkv⟩ := ih hl
      exact ⟨b, List.mem_cons_of_mem a hb, hkv⟩
    by_cases hk : key a = k
    · rw [if_pos hk] at h
      rcases le_total (joinAt key value l k) (value a : WithBot ν) with hle | hle
      · rw [sup_eq_left.mpr hle] at h
        exact ⟨a, List.mem_cons_self, hk, WithBot.coe_injective h⟩
      · rw [sup_eq_right.mpr hle] at h
        exact hrest h
    · rw [if_neg hk] at h
      exact hrest h

/-- **What the join is.** -/
theorem joinAt_eq_coe_iff {l : List α} {k : κ} {v : ν} : joinAt key value l k = v ↔
    (∃ a ∈ l, key a = k ∧ value a = v) ∧ ∀ a ∈ l, key a = k → value a ≤ v := by
  constructor
  · intro h
    refine ⟨exists_of_joinAt h, fun a ha hk => ?_⟩
    have hle : (value a : WithBot ν) ≤ joinAt key value l (key a) := le_joinAt ha
    rw [hk, h] at hle
    exact WithBot.coe_le_coe.mp hle
  · rintro ⟨⟨a, ha, rfl, rfl⟩, hle⟩
    refine le_antisymm (joinAt_le_iff.mpr fun b hb hk => ?_) (le_joinAt ha)
    exact WithBot.coe_le_coe.mpr (hle b hb hk)

/-- **Leaving out what is not the largest.** -/
theorem joinAt_eq_of_cover {l l' : List α} (hsub : ∀ a ∈ l', a ∈ l)
    (hcover : ∀ a ∈ l, ∃ b ∈ l', key b = key a ∧ value a ≤ value b) :
    joinAt key value l' = joinAt key value l := by
  funext k
  refine le_antisymm (joinAt_le_iff.mpr fun a ha hk => ?_) (joinAt_le_iff.mpr fun a ha hk => ?_)
  · subst hk
    exact le_joinAt (hsub a ha)
  · obtain ⟨b, hb, hkey, hle⟩ := hcover a ha
    rw [← hk, ← hkey]
    exact (WithBot.coe_le_coe.mpr hle).trans (le_joinAt hb)

end KeyedJoin
