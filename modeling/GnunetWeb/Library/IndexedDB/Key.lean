import Mathlib.Algebra.Order.Ring.Nat
import Mathlib.Data.List.Lex
import Mathlib.Data.Prod.Lex
import Mathlib.Data.String.Basic
import Mathlib.Tactic.Common

/-!
# Keys of an indexed database

Numbers come before strings, strings before arrays; arrays compare element by
element, and a prefix is smaller.  The order is that of the bracketed text of a key,
token by token, where a closing bracket comes before everything else and an opening
one after everything else.

Proved here:

* `Key.tokens_append_inj`: the text of a key ends where it says it does;
* `Key.array_lt_array`, `Key.array_le_array`: arrays compare element by element;
* `Key.not_array_lt_nil`, `Key.nil_lt_array`: a prefix is smaller.
-/

namespace IndexedDB

inductive Token where
  | closing
  | number (n : Int)
  | string (s : String)
  | opening
  deriving DecidableEq

namespace Token

/-- The kind of a token first, then its content. -/
def rank : Token → ℕ ×ₗ ℤ ×ₗ String
  | closing => toLex (0, toLex (0, ""))
  | number n => toLex (1, toLex (n, ""))
  | string s => toLex (2, toLex (0, s))
  | opening => toLex (3, toLex (0, ""))

theorem rank_injective : Function.Injective rank := by
  intro a b h
  cases a <;> cases b <;> simp_all [rank]

instance : LinearOrder Token := LinearOrder.lift' rank rank_injective

theorem lt_iff {a b : Token} : a < b ↔ rank a < rank b := Iff.rfl

@[simp] theorem number_lt_number {m n : Int} : number m < number n ↔ m < n := by
  simp [lt_iff, rank, Prod.Lex.toLex_lt_toLex]

theorem closing_lt {a : Token} (h : a ≠ closing) : closing < a := by
  cases a <;> simp_all [lt_iff, rank, Prod.Lex.toLex_lt_toLex]

end Token

inductive Key where
  | number (n : Int)
  | string (s : String)
  | array (items : List Key)

namespace Key

mutual

/-- The text of a key. -/
def tokens : Key → List Token
  | number n => [.number n]
  | string s => [.string s]
  | array items => .opening :: tokensAll items

def tokensAll : List Key → List Token
  | [] => [.closing]
  | k :: l => tokens k ++ tokensAll l

end

/-- No key starts with a closing bracket. -/
theorem tokens_ne_nil (k : Key) : ∃ t l, k.tokens = t :: l ∧ t ≠ .closing := by
  cases k with
  | number n => exact ⟨_, _, rfl, by simp⟩
  | string s => exact ⟨_, _, rfl, by simp⟩
  | array items => exact ⟨_, _, rfl, by simp⟩

mutual

theorem tokens_append_inj : ∀ (k k' : Key) (r r' : List Token),
    k.tokens ++ r = k'.tokens ++ r' → k = k' ∧ r = r'
  | number n, k', r, r', h => by
    cases k' <;> simp_all [tokens]
  | string s, k', r, r', h => by
    cases k' <;> simp_all [tokens]
  | array items, k', r, r', h => by
    cases k' with
    | number n => simp [tokens] at h
    | string s => simp [tokens] at h
    | array items' =>
      simp only [tokens, List.cons_append, List.cons.injEq, true_and] at h
      obtain ⟨rfl, hr⟩ := tokensAll_append_inj items items' r r' h
      exact ⟨rfl, hr⟩

theorem tokensAll_append_inj : ∀ (l l' : List Key) (r r' : List Token),
    tokensAll l ++ r = tokensAll l' ++ r' → l = l' ∧ r = r'
  | [], l', r, r', h => by
    cases l' with
    | nil => simpa [tokensAll] using h
    | cons k l' =>
      obtain ⟨t, m, ht, hne⟩ := tokens_ne_nil k
      simp only [tokensAll, ht, List.cons_append, List.nil_append, List.cons.injEq] at h
      exact absurd h.1.symm hne
  | k :: l, l', r, r', h => by
    cases l' with
    | nil =>
      obtain ⟨t, m, ht, hne⟩ := tokens_ne_nil k
      simp only [tokensAll, ht, List.cons_append, List.nil_append, List.cons.injEq] at h
      exact absurd h.1 hne
    | cons k' l' =>
      simp only [tokensAll, List.append_assoc] at h
      obtain ⟨rfl, h'⟩ := tokens_append_inj k k' _ _ h
      obtain ⟨rfl, hr⟩ := tokensAll_append_inj l l' r r' h'
      exact ⟨rfl, hr⟩

end

theorem tokens_injective : Function.Injective tokens := by
  intro k k' h
  exact (tokens_append_inj k k' [] [] (by rw [h])).1

instance : LinearOrder Key := LinearOrder.lift' tokens tokens_injective

theorem lt_iff {k k' : Key} : k < k' ↔ k.tokens < k'.tokens := Iff.rfl

@[simp] theorem number_lt_number {m n : Int} : number m < number n ↔ m < n := by
  simp [lt_iff, tokens, List.cons_lt_cons_iff]

@[simp] theorem number_le_number {m n : Int} : number m ≤ number n ↔ m ≤ n := by
  rw [← not_lt, number_lt_number, not_lt]

/-- What follows does not matter to texts of which neither continues the other. -/
theorem append_lt_append {x y : List Token} (h : x < y) (hxy : ¬ x <+: y) (r r' : List Token) :
    x ++ r < y ++ r' := by
  induction x generalizing y with
  | nil => exact absurd List.nil_prefix hxy
  | cons a x ih =>
    cases y with
    | nil => exact absurd h (List.not_lt_nil _)
    | cons b y =>
      rw [List.cons_lt_cons_iff] at h
      rw [List.cons_append, List.cons_append, List.cons_lt_cons_iff]
      rcases h with hab | ⟨rfl, hlt⟩
      · exact .inl hab
      · exact .inr ⟨rfl, ih hlt fun hp => hxy (List.cons_prefix_cons.mpr ⟨rfl, hp⟩)⟩

theorem tokens_not_isPrefixOf {k k' : Key} (h : k ≠ k') : ¬ k.tokens <+: k'.tokens := by
  rintro ⟨t, ht⟩
  exact h (tokens_append_inj k k' t [] (by simpa using ht)).1

theorem append_left_lt_iff (l r r' : List Token) : l ++ r < l ++ r' ↔ r < r' := by
  induction l with
  | nil => rfl
  | cons t l ih => simp [ih]

theorem append_lt_iff (k k' : Key) (r r' : List Token) :
    k.tokens ++ r < k'.tokens ++ r' ↔ k < k' ∨ k = k' ∧ r < r' := by
  rcases lt_trichotomy k k' with hlt | rfl | hgt
  · exact iff_of_true (append_lt_append hlt (tokens_not_isPrefixOf hlt.ne) r r') (.inl hlt)
  · simp [append_left_lt_iff]
  · refine iff_of_false (fun h => ?_) ?_
    · exact lt_asymm h (append_lt_append hgt (tokens_not_isPrefixOf hgt.ne) r' r)
    · rintro (h | ⟨rfl, _⟩)
      · exact lt_asymm h hgt
      · exact lt_irrefl _ hgt

/-- **Arrays compare element by element.** -/
theorem array_lt_array {k k' : Key} {l l' : List Key} :
    array (k :: l) < array (k' :: l') ↔ k < k' ∨ k = k' ∧ array l < array l' := by
  simp only [lt_iff, tokens, tokensAll, List.cons_lt_cons_iff, lt_irrefl, true_and, false_or]
  exact append_lt_iff k k' _ _

theorem array_le_array {k k' : Key} {l l' : List Key} :
    array (k :: l) ≤ array (k' :: l') ↔ k < k' ∨ k = k' ∧ array l ≤ array l' := by
  rw [← not_lt, array_lt_array, ← not_lt]
  constructor
  · intro h
    rcases lt_trichotomy k k' with hlt | rfl | hgt
    · exact .inl hlt
    · exact .inr ⟨rfl, fun hlt => h (.inr ⟨rfl, hlt⟩)⟩
    · exact absurd (.inl hgt) h
  · rintro (hlt | ⟨rfl, hle⟩) (hgt | ⟨heq, hgt⟩)
    · exact lt_asymm hlt hgt
    · exact hlt.ne' heq
    · exact lt_irrefl _ hgt
    · exact hle hgt

theorem array_cons_le {k : Key} {l l' : List Key} :
    array (k :: l) ≤ array (k :: l') ↔ array l ≤ array l' := by
  rw [array_le_array]
  simp

theorem array_number_le {m n : Int} : array [number m] ≤ array [number n] ↔ m ≤ n := by
  rw [array_le_array, number_lt_number, number.injEq]
  have hnil : array [] ≤ array [] := le_refl _
  simp only [hnil, and_true]
  omega

theorem nil_lt_array (k : Key) (l : List Key) : array [] < array (k :: l) := by
  obtain ⟨t, m, ht, hne⟩ := tokens_ne_nil k
  simp only [lt_iff, tokens, tokensAll, ht, List.cons_append, List.cons_lt_cons_iff]
  exact .inr ⟨trivial, .inl (Token.closing_lt hne)⟩

theorem not_array_lt_nil (l : List Key) : ¬ array l < array [] := by
  cases l with
  | nil => exact lt_irrefl _
  | cons k l => exact lt_asymm (nil_lt_array k l)

end Key

end IndexedDB
