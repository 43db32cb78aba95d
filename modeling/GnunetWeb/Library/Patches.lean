import Mathlib.Data.List.Induction
import Mathlib.Tactic.Common

/-!
# Patches

A patch puts its data at an offset of a list: over what is there, and beyond the end,
where a default fills the gap.

Proved here:

* `length_apply`, `getElem?_apply`: one patch;
* `length_applyAll`, `getElem?_applyAll`: any number of patches, where the last one that
  covers a place counts;
* `applyAll_eq`: patches that agree with a list and cover it make it.
-/

structure Patch (α : Type) where
  offset : Nat
  data : List α

namespace Patch

variable {α : Type}

def stop (p : Patch α) : Nat := p.offset + p.data.length

def Covers (i : Nat) (p : Patch α) : Prop := p.offset ≤ i ∧ i < p.stop

instance (i : Nat) (p : Patch α) : Decidable (p.Covers i) :=
  inferInstanceAs (Decidable (_ ∧ _))

/-- The patched list. -/
def apply (default : α) (l : List α) (p : Patch α) : List α :=
  l.take p.offset ++ List.replicate (p.offset - l.length) default ++ p.data ++ l.drop p.stop

/-- The patches one after the other, from the empty list on. -/
def applyAll (default : α) (ps : List (Patch α)) : List α := ps.foldl (apply default) []

/-- The end of the patch that reaches farthest. -/
def extent (ps : List (Patch α)) : Nat := (ps.map stop).foldl max 0

/-- What the last patch that covers a place has there. -/
def last (ps : List (Patch α)) (i : Nat) : Option α :=
  (ps.reverse.find? fun p => p.Covers i).bind fun p => p.data[i - p.offset]?

/-! ## One patch -/

theorem offset_le_stop (p : Patch α) : p.offset ≤ p.stop := Nat.le_add_right _ _

theorem length_apply (default : α) (l : List α) (p : Patch α) :
    (apply default l p).length = max l.length p.stop := by
  simp only [apply, stop, List.length_append, List.length_take, List.length_replicate,
    List.length_drop]
  omega

theorem getElem?_apply (default : α) (l : List α) (p : Patch α) (i : Nat) :
    (apply default l p)[i]? = if p.Covers i then p.data[i - p.offset]?
      else if i < l.length then l[i]?
      else if i < p.stop then some default
      else none := by
  have hheader : (l.take p.offset ++ List.replicate (p.offset - l.length) default).length =
      p.offset := by
    simp only [List.length_append, List.length_take, List.length_replicate]
    omega
  rw [apply, List.append_assoc]
  by_cases hi : i < p.offset
  · rw [List.getElem?_append_left (by omega), if_neg (fun h => Nat.not_lt.mpr h.1 hi)]
    by_cases hl : i < l.length
    · rw [if_pos hl, List.getElem?_append_left (by rw [List.length_take]; omega),
        List.getElem?_take_of_lt hi]
    · rw [if_neg hl, if_pos (Nat.lt_of_lt_of_le hi p.offset_le_stop),
        List.getElem?_append_right (by rw [List.length_take]; omega), List.getElem?_replicate,
        if_pos (by rw [List.length_take]; omega)]
  · rw [List.getElem?_append_right (by omega), hheader]
    by_cases hstop : i < p.stop
    · rw [if_pos ⟨Nat.le_of_not_lt hi, hstop⟩,
        List.getElem?_append_left (by rw [stop] at hstop; omega)]
    · rw [if_neg fun h => hstop h.2, if_neg hstop,
        List.getElem?_append_right (by rw [stop] at hstop; omega), List.getElem?_drop]
      have hplace : p.stop + (i - p.offset - p.data.length) = i := by
        rw [stop] at hstop ⊢
        omega
      rw [hplace]
      by_cases hl : i < l.length
      · rw [if_pos hl]
      · rw [if_neg hl, List.getElem?_eq_none (Nat.le_of_not_lt hl)]

/-! ## All patches -/

theorem applyAll_concat (default : α) (ps : List (Patch α)) (p : Patch α) :
    applyAll default (ps ++ [p]) = apply default (applyAll default ps) p := by
  rw [applyAll, List.foldl_append]
  rfl

theorem extent_concat (ps : List (Patch α)) (p : Patch α) :
    extent (ps ++ [p]) = max (extent ps) p.stop := by
  rw [extent, List.map_append, List.foldl_append]
  rfl

theorem last_concat (ps : List (Patch α)) (p : Patch α) (i : Nat) :
    last (ps ++ [p]) i = if p.Covers i then p.data[i - p.offset]? else last ps i := by
  rw [last, List.reverse_concat, List.find?_cons]
  by_cases hc : p.Covers i
  · simp [hc]
  · simp [hc, last]

theorem stop_le_extent {ps : List (Patch α)} {p : Patch α} (hp : p ∈ ps) : p.stop ≤ extent ps := by
  induction ps using List.reverseRecOn with
  | nil => cases hp
  | append_singleton ps q ih =>
    rw [extent_concat]
    rcases List.mem_append.mp hp with hp | hp
    · exact Nat.le_trans (ih hp) (Nat.le_max_left _ _)
    · rw [List.mem_singleton.mp hp]
      exact Nat.le_max_right _ _

theorem extent_le {ps : List (Patch α)} {n : Nat} (h : ∀ p ∈ ps, p.stop ≤ n) : extent ps ≤ n := by
  induction ps using List.reverseRecOn with
  | nil => exact Nat.zero_le n
  | append_singleton ps p ih =>
    rw [extent_concat]
    exact Nat.max_le.mpr ⟨ih fun q hq => h q (List.mem_append_left _ hq),
      h p (List.mem_append_right _ (List.mem_singleton_self p))⟩

/-- Beyond the end no patch has come. -/
theorem last_eq_none {ps : List (Patch α)} {i : Nat} (hi : extent ps ≤ i) : last ps i = none := by
  rw [last, List.find?_eq_none.mpr, Option.bind_none]
  intro p hp hc
  have hc : p.Covers i := of_decide_eq_true hc
  have hle := stop_le_extent (List.mem_reverse.mp hp)
  exact absurd (Nat.lt_of_lt_of_le hc.2 hle) (Nat.not_lt.mpr hi)

/-- **The length is that of the patch that reaches farthest.** -/
theorem length_applyAll (default : α) (ps : List (Patch α)) :
    (applyAll default ps).length = extent ps := by
  induction ps using List.reverseRecOn with
  | nil => rfl
  | append_singleton ps p ih => rw [applyAll_concat, extent_concat, length_apply, ih]

/-- **The last patch that covers a place counts.** -/
theorem getElem?_applyAll (default : α) (ps : List (Patch α)) {i : Nat} (hi : i < extent ps) :
    (applyAll default ps)[i]? = some ((last ps i).getD default) := by
  induction ps using List.reverseRecOn with
  | nil => exact absurd hi (Nat.not_lt_zero i)
  | append_singleton ps p ih =>
    rw [extent_concat] at hi
    rw [applyAll_concat, last_concat, getElem?_apply, length_applyAll]
    by_cases hc : p.Covers i
    · obtain ⟨hlower, hupper⟩ := hc
      rw [stop] at hupper
      rw [if_pos ⟨hlower, hupper⟩, if_pos ⟨hlower, hupper⟩,
        List.getElem?_eq_getElem (by omega), Option.getD_some]
    · rw [if_neg hc, if_neg hc]
      by_cases hps : i < extent ps
      · rw [if_pos hps, ih hps]
      · rw [if_neg hps, if_pos (by omega)]
        rw [last_eq_none (Nat.le_of_not_lt hps), Option.getD_none]

/-- **Patches that agree with a list and cover it make it.** -/
theorem applyAll_eq (default : α) {l : List α} {ps : List (Patch α)}
    (hagree : ∀ p ∈ ps, p.stop ≤ l.length ∧ p.data = (l.drop p.offset).take p.data.length)
    (hcover : ∀ i < l.length, ∃ p ∈ ps, p.Covers i) : applyAll default ps = l := by
  have hextent : extent ps = l.length := by
    refine Nat.le_antisymm (extent_le fun p hp => (hagree p hp).1) (Nat.le_of_not_lt fun hlt => ?_)
    obtain ⟨p, hp, hc⟩ := hcover (extent ps) hlt
    exact absurd hc.2 (Nat.not_lt.mpr (stop_le_extent hp))
  refine List.ext_getElem? fun i => ?_
  by_cases hi : i < l.length
  · rw [getElem?_applyAll default ps (hextent ▸ hi)]
    have hlast : last ps i = l[i]? := by
      obtain ⟨q, hq, hqc⟩ := hcover i hi
      have hsome : (ps.reverse.find? fun p => p.Covers i).isSome :=
        List.find?_isSome.mpr ⟨q, List.mem_reverse.mpr hq, decide_eq_true hqc⟩
      obtain ⟨p, hfind⟩ := Option.isSome_iff_exists.mp hsome
      have hc : p.Covers i := by simpa using List.find?_some hfind
      obtain ⟨_, hdata⟩ := hagree p (List.mem_reverse.mp (List.mem_of_find?_eq_some hfind))
      obtain ⟨hlower, hupper⟩ := hc
      rw [stop] at hupper
      rw [last, hfind, Option.bind_some, hdata, List.getElem?_take_of_lt (by omega),
        List.getElem?_drop, Nat.add_sub_cancel' hlower]
    rw [hlast, List.getElem?_eq_getElem hi, Option.getD_some]
  · rw [List.getElem?_eq_none (by rw [length_applyAll]; omega),
      List.getElem?_eq_none (Nat.le_of_not_lt hi)]

end Patch
