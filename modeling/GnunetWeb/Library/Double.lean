import Mathlib.Algebra.Order.Ring.Nat
import Mathlib.Data.List.Induction
import Mathlib.Data.Nat.Log
import Mathlib.Tactic.Common

/-!
# Integral numbers in double precision

The integers among the numbers of double precision are those with 53 significant
bits.  A sum or a conversion is rounded to the nearest of them, and to the even one
between two.

Proved here:

* `round_eq_self`, `add_eq`, `sum_eq`: up to `2 ^ 53` nothing is rounded;
* `roundNat_le_iff`: and hardly any number is rounded to one of these.
-/

namespace Double

def roundNat (n : Nat) : Nat :=
  let unit := 2 ^ (Nat.log2 n - 52)
  let q := n / unit
  let r := n % unit
  (if unit < 2 * r ∨ unit = 2 * r ∧ q % 2 = 1 then q + 1 else q) * unit

def round (n : Int) : Int := n.sign * (roundNat n.natAbs : Int)

/-- The sum of two numbers. -/
def add (a b : Int) : Int := round (a + b)

/-- The sum of a list, from left to right. -/
def sum (ns : List Int) : Int := ns.foldl add 0

/-- `Number.MAX_VALUE` -/
def maxValue : Int := (2 ^ 53 - 1) * 2 ^ 971

theorem roundNat_eq_self {n : Nat} (h : n < 2 ^ 53) : roundNat n = n := by
  have hlog : Nat.log2 n - 52 = 0 := by
    rcases Nat.eq_zero_or_pos n with rfl | hn
    · rfl
    · have := (Nat.log2_lt (Nat.ne_of_gt hn)).mpr h
      omega
  simp [roundNat, hlog, Nat.mod_one]

theorem round_eq_self {n : Int} (h : n.natAbs < 2 ^ 53) : round n = n := by
  rw [round, roundNat_eq_self h]
  exact Int.sign_mul_natAbs n

theorem round_natCast (n : Nat) : round n = roundNat n := by
  rw [round, Int.natAbs_natCast]
  rcases Nat.eq_zero_or_pos n with rfl | hn
  · rfl
  · rw [Int.sign_eq_one_of_pos (Int.natCast_pos.mpr hn), Int.one_mul]

/-- Beyond `2 ^ 53` a number is rounded down by less than its last place. -/
theorem le_roundNat {n k : Nat} (h : k * 2 ^ (Nat.log2 n - 52) ≤ n) :
    k * 2 ^ (Nat.log2 n - 52) ≤ roundNat n := by
  have hunit : 0 < 2 ^ (Nat.log2 n - 52) := Nat.pow_pos (by decide)
  have hdiv : k ≤ n / 2 ^ (Nat.log2 n - 52) := (Nat.le_div_iff_mul_le hunit).mpr h
  unfold roundNat
  refine Nat.mul_le_mul_right _ ?_
  split
  · exact Nat.le_succ_of_le hdiv
  · exact hdiv

/-- **A number up to `2 ^ 53` stays on its side**, but for the one that is next to
`2 ^ 53`. -/
theorem roundNat_le_iff {n b : Nat} (hb : b ≤ 2 ^ 53) (h : ¬ (n = 2 ^ 53 + 1 ∧ b = 2 ^ 53)) :
    roundNat n ≤ b ↔ n ≤ b := by
  rcases Nat.lt_trichotomy n (2 ^ 53) with hn | rfl | hn
  · rw [roundNat_eq_self hn]
  · rw [show roundNat (2 ^ 53) = 2 ^ 53 by decide +kernel]
  rcases Nat.lt_or_ge n (2 ^ 53 + 2) with hnext | hnext
  · obtain rfl : n = 2 ^ 53 + 1 := by omega
    rw [show roundNat (2 ^ 53 + 1) = 2 ^ 53 by decide +kernel]
    omega
  · -- the number that is rounded to is beyond `2 ^ 53` as well
    refine iff_of_false (Nat.not_le.mpr (Nat.lt_of_le_of_lt hb ?_)) (by omega)
    rcases Nat.lt_or_ge n (2 ^ 54) with hn54 | hn54
    · have hlog : Nat.log2 n = 53 := (Nat.log2_eq_iff (by omega)).mpr ⟨by omega, hn54⟩
      have hle := @le_roundNat n (2 ^ 52 + 1) (by rw [hlog]; omega)
      rw [hlog] at hle
      omega
    · have hlog : 54 ≤ Nat.log2 n := (Nat.le_log2 (by omega)).mpr hn54
      have hpow : 2 ^ 52 * 2 ^ (Nat.log2 n - 52) = 2 ^ Nat.log2 n := by
        rw [← Nat.pow_add, Nat.add_sub_cancel' (by omega)]
      have hle := @le_roundNat n (2 ^ 52) (hpow ▸ Nat.log2_self_le (by omega))
      have hpow' : 2 ^ 54 ≤ 2 ^ Nat.log2 n := Nat.pow_le_pow_right (by decide) hlog
      omega

theorem add_eq {a b : Int} (h : (a + b).natAbs < 2 ^ 53) : add a b = a + b := round_eq_self h

theorem sum_append_singleton (ns : List Int) (n : Int) : sum (ns ++ [n]) = add (sum ns) n := by
  rw [sum, List.foldl_append]
  rfl

theorem sum_singleton {n : Int} (h : n.natAbs < 2 ^ 53) : sum [n] = n := by
  have hadd : add 0 n = 0 + n := add_eq (by rwa [Int.zero_add])
  rw [Int.zero_add] at hadd
  exact hadd

/-- Nothing is rounded in a sum below `2 ^ 53`. -/
theorem sum_eq {ns : List Nat} (h : ns.sum < 2 ^ 53) : sum (ns.map Nat.cast) = (ns.sum : Int) := by
  induction ns using List.reverseRecOn with
  | nil => rfl
  | append_singleton ns n ih =>
    rw [List.sum_append, List.sum_singleton] at h
    rw [List.map_append, List.map_singleton, sum_append_singleton, ih (by omega),
      add_eq (by omega), List.sum_append, List.sum_singleton, Int.natCast_add]

theorem add_nonneg {a b : Int} (h : 0 ≤ a + b) : 0 ≤ add a b := by
  rw [add, round]
  exact Int.mul_nonneg (Int.sign_nonneg_iff.mpr h) (Int.natCast_nonneg _)

theorem le_maxValue {n : Nat} (h : n ≤ 2 ^ 53) : (n : Int) ≤ maxValue := by
  have hpow : (2 : Int) ^ 53 ≤ maxValue := by decide +kernel
  calc (n : Int) ≤ ((2 ^ 53 : Nat) : Int) := Int.ofNat_le.mpr h
    _ = 2 ^ 53 := by norm_cast
    _ ≤ maxValue := hpow

example : round (2 ^ 53 + 1) = 2 ^ 53 ∧ round (2 ^ 53 + 3) = 2 ^ 53 + 4 := by decide +kernel

end Double
