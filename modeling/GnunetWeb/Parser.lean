import GnunetWeb.Library.StateMaybe
import Mathlib.Algebra.Order.Ring.Nat
import Mathlib.Data.List.TakeWhile

/-!
# The parser monad

`parser.cljs`: parsers over a `Uint8Array`, in the monad `state-t maybe`.

Proved here:

* `mUntil_eq_iterate`: the hand-threaded loop of `m-until` is the loop of the
  library, so `noneOrMore_many` gives the value of every repetition;
* `noneOrMore_ends`: a repetition of a parser that consumes input ends, with
  fuel two above the length of the input;
* `repeats_iff_noneOrMore`: it is the recursive repetition, and the only one;
* `items_eq_just`, `parseUint16_eq_just`, `parseUint32_eq_just`,
  `parseUint64_eq_just`, `parseUtf8_eq_just`: each parser succeeds on the inputs of
  its own shape, and on no other.
-/

namespace GnunetWeb

open StateMaybe

/-- The bytes of a typed array. -/
abbrev Uint8Array := List UInt8

abbrev Parser (α : Type) := StateMaybe Uint8Array α

/-- The two conversions of `goog.crypt`, over the strings `Str` of the platform. -/
structure Gcrypt (Str : Type) where
  stringToUtf8ByteArray : Str → Uint8Array
  utf8ByteArrayToString : Uint8Array → Str

def parser {α : Type} (a : α) : Parser α := pure a

/-- The inner loop of `m-until`.  The state is passed along by hand; the result
is the parser that installs the last one. -/
def untilLoop {α : Type} (p : α → Bool) (f : α → Parser α) :
    Nat → α → Uint8Array → Parser α
  | 0, _, _ => fun _ => .running
  | fuel + 1, x, s =>
    if p x then setState s >>= fun _ => parser x
    else match f x s with
      | .nothing => zero
      | .just x s => untilLoop p f fuel x s
      | .running => fun _ => .running

/-- While `(p x)` is false, replace `x` by the value returned by `(f x)`. -/
def mUntil {α : Type} (fuel : Nat) (p : α → Bool) (f : α → Parser α) (x : α) : Parser α := do
  let _ ← parser ()
  let s ← getState
  untilLoop p f fuel x s

/-- Makes a parser optional. -/
def optional {α : Type} (mv : Parser α) : Parser (Option α) :=
  plus (mv >>= fun x => parser (some x)) (parser none)

/-- Makes a parser repeat none or more times. -/
def noneOrMore {α : Type} (fuel : Nat) (mv : Parser α) : Parser (List α) :=
  mUntil fuel Prod.fst
    (fun x => plus (mv >>= fun a => parser (false, x.2 ++ [a])) (parser (true, x.2)))
    (false, []) >>= fun x => parser x.2

/-- Makes a parser repeat one or more times. -/
def oneOrMore {α : Type} (fuel : Nat) (mv : Parser α) : Parser (List α) := do
  let x ← mv
  let xs ← noneOrMore fuel mv
  parser (x :: xs)

/-- Consumes `n` items; a negative count is refused. -/
def items (n : Int) : Parser Uint8Array := do
  let array ← getState
  when (0 ≤ n ∧ n ≤ array.length)
  let _ ← setState (array.drop n.toNat)
  parser (array.take n.toNat)

/-- `(aget x 0)` on an array that is known to have a first item. -/
def aget0 (x : Uint8Array) : UInt8 := x.headD 0

/-- Matches an item which satisfies the given predicate. -/
def satisfy (p : UInt8 → Bool) : Parser UInt8 := do
  let x ← items 1
  when (p (aget0 x))
  parser (aget0 x)

def parseUint8 : Parser Nat := do
  let array ← getState
  when (1 ≤ array.length)
  let _ ← setState (array.drop 1)
  parser (aget0 array).toNat

/-- An unsigned 16-bit integer in network byte order. -/
def parseUint16 : Parser Nat := do
  let msb ← parseUint8
  let lsb ← parseUint8
  parser (lsb + 256 * msb)

/-- An unsigned 32-bit integer in network byte order. -/
def parseUint32 : Parser Nat := do
  let msh ← parseUint16
  let lsh ← parseUint16
  parser (lsh + 65536 * msh)

/-- A 64-bit integer, as the pair of its two halves. -/
def parseUint64 : Parser (Nat × Nat) := do
  let msw ← parseUint32
  let lsw ← parseUint32
  parser (msw, lsw)

def parseAbsoluteTime : Parser (Nat × Nat) := parseUint64

/-- A NUL-terminated string. -/
def parseUtf8 {Str : Type} (gcrypt : Gcrypt Str) (fuel : Nat) : Parser Str := do
  let xs ← noneOrMore fuel (satisfy fun x => x ≠ 0)
  let _ ← items 1
  parser (gcrypt.utf8ByteArrayToString xs)

/-! ## The loop -/

theorem untilLoop_eq_iterate {α : Type} (p : α → Bool) (f : α → Parser α) (fuel : Nat) :
    ∀ (x : α) (s t : Uint8Array), untilLoop p f fuel x s t = iterate p f fuel x s := by
  induction fuel with
  | zero => intro x s t; rfl
  | succ fuel ih =>
    intro x s t
    simp only [untilLoop, iterate]
    split
    · rfl
    · rw [bind_apply]
      cases h : f x s with
      | nothing => rfl
      | just y u => exact ih y u t
      | running => rfl

theorem mUntil_eq_iterate {α : Type} (fuel : Nat) (p : α → Bool) (f : α → Parser α) (x : α) :
    mUntil fuel p f x = iterate p f fuel x := by
  funext s
  exact untilLoop_eq_iterate p f fuel x s s

/-- The value of a repetition is the collection of its results. -/
theorem noneOrMore_many {α : Type} {mv : Parser α} {s s' : Uint8Array} {xs : List α}
    (h : Many mv s xs s') {fuel : Nat} (hf : xs.length + 2 ≤ fuel) :
    noneOrMore fuel mv s = .just xs s' := by
  have hi := iterate_many h [] fuel hf
  unfold noneOrMore
  rw [mUntil_eq_iterate]
  exact bind_just hi

/-- **A repetition of a consuming parser ends**, and never fails. -/
theorem noneOrMore_ends {α : Type} {n : Nat} {mv : Parser α} (hc : Consuming List.length n mv)
    (hr : ∀ s : Uint8Array, s.length ≤ n → mv s ≠ .running) {fuel : Nat} (hf : n + 2 ≤ fuel)
    (s : Uint8Array) (hs : s.length ≤ n) :
    ∃ xs s', Many mv s xs s' ∧ xs.length + s'.length ≤ s.length ∧
      noneOrMore fuel mv s = .just xs s' := by
  obtain ⟨xs, s', hm, hlen⟩ := many_exists hc hr s hs
  exact ⟨xs, s', hm, hlen, noneOrMore_many hm (by omega)⟩

/-! ## Fuel -/

/-- No input of at most `n` bytes makes the parser run out of fuel. -/
def Fueled {α : Type} (n : Nat) (mv : Parser α) : Prop :=
  ∀ s : Uint8Array, s.length ≤ n → mv s ≠ .running

/-- On inputs of at most `n` bytes, the parser never leaves more than it found. -/
def Shrinking {α : Type} (n : Nat) (mv : Parser α) : Prop :=
  ∀ (s : Uint8Array) (a : α) (t : Uint8Array), s.length ≤ n → mv s = .just a t →
    t.length ≤ s.length

theorem fueled_bind {α β : Type} {n : Nat} {mv : Parser α} {f : α → Parser β}
    (hm : Fueled n mv) (hs : Shrinking n mv) (hf : ∀ a, Fueled n (f a)) :
    Fueled n (mv >>= f) := by
  intro s hn h
  rcases bind_eq_running.mp h with h | ⟨a, t, hat, h⟩
  · exact hm s hn h
  · exact hf a t (Nat.le_trans (hs s a t hn hat) hn) h

theorem shrinking_bind {α β : Type} {n : Nat} {mv : Parser α} {f : α → Parser β}
    (hm : Shrinking n mv) (hf : ∀ a, Shrinking n (f a)) : Shrinking n (mv >>= f) := by
  intro s b u hn h
  obtain ⟨a, t, hat, h⟩ := bind_eq_just.mp h
  have ht := hm s a t hn hat
  exact Nat.le_trans (hf a t b u (Nat.le_trans ht hn) h) ht

theorem fueled_ret {α : Type} (n : Nat) (a : α) : Fueled n (parser a) := by
  intro s _ h
  cases h

theorem shrinking_ret {α : Type} (n : Nat) (a : α) : Shrinking n (parser a) := by
  intro s b t _ h
  cases h
  exact Nat.le_refl _

/-! ## Repetition by recursion -/

/-- A parser that can be repeated on the inputs of at most `n` bytes: it leaves a
shorter input whenever it succeeds, and does not run out of fuel itself. -/
structure Repeatable {α : Type} (n : Nat) (mv : Parser α) : Prop where
  consuming : Consuming List.length n mv
  fueled : Fueled n mv

section Repetition

variable {α : Type} {n fuel : Nat} {mv : Parser α}

/-- **The loop is the recursion.**  A parser runs `mv` and then itself exactly when
it is `noneOrMore mv`. -/
theorem repeats_iff_noneOrMore (h : Repeatable n mv) (hf : n + 2 ≤ fuel)
    {rep : Parser (List α)} :
    Repeats List.length n mv rep ↔
      ∀ s : Uint8Array, s.length ≤ n → rep s = noneOrMore fuel mv s := by
  rw [repeats_iff_many h.consuming h.fueled]
  constructor
  · intro hrep s hs
    obtain ⟨xs, s', hm, hx⟩ := hrep s hs
    obtain ⟨ys, t, hm', -, hn⟩ := noneOrMore_ends h.consuming h.fueled hf s hs
    obtain ⟨rfl, rfl⟩ := many_unique hm hm'
    rw [hx, hn]
  · intro hrep s hs
    obtain ⟨xs, s', hm, -, hn⟩ := noneOrMore_ends h.consuming h.fueled hf s hs
    exact ⟨xs, s', hm, (hrep s hs).trans hn⟩

/-- `oneOrMore` is the repetition without its empty alternative. -/
theorem noneOrMore_eq_oneOrMore (h : Repeatable n mv) (hf : n + 2 ≤ fuel) (s : Uint8Array)
    (hs : s.length ≤ n) :
    noneOrMore fuel mv s = plus (oneOrMore fuel mv) (parser []) s :=
  (repeats_iff_noneOrMore h hf).mpr (fun _ _ => rfl) s hs

end Repetition

/-! ## Items -/

theorem items_apply (n : Int) (s : Uint8Array) :
    items n s = if 0 ≤ n ∧ n ≤ s.length
      then .just (s.take n.toNat) (s.drop n.toNat) else .nothing := by
  simp only [items, bind_just (getState_apply s), when_bind_apply, decide_eq_true_eq]
  rfl

/-- `items` takes exactly the first `n` items off. -/
theorem items_eq_just {n : Int} {s a t : Uint8Array} :
    items n s = .just a t ↔ (a.length : Int) = n ∧ s = a ++ t := by
  rw [items_apply]
  constructor
  · split
    · rename_i hn
      intro h
      cases h
      exact ⟨by simp; omega, (List.take_append_drop _ _).symm⟩
    · intro h
      cases h
  · rintro ⟨rfl, rfl⟩
    rw [if_pos ⟨by omega, by rw [List.length_append]; omega⟩]
    simp

theorem items_append {n : Int} {a : Uint8Array} (h : (a.length : Int) = n) (t : Uint8Array) :
    items n (a ++ t) = .just a t :=
  items_eq_just.mpr ⟨h, rfl⟩

theorem fueled_items (k : Nat) (n : Int) : Fueled k (items n) := by
  intro s _
  rw [items_apply]
  split <;> simp

theorem shrinking_items (k : Nat) (n : Int) : Shrinking k (items n) := by
  intro s a t _ h
  obtain ⟨_, rfl⟩ := items_eq_just.mp h
  simp

theorem satisfy_nil (p : UInt8 → Bool) : satisfy p [] = .nothing := by
  simp [satisfy, bind_apply, items_apply]

theorem satisfy_cons (p : UInt8 → Bool) (b : UInt8) (t : Uint8Array) :
    satisfy p (b :: t) = if p b then .just b t else .nothing := by
  have h : items 1 (b :: t) = .just [b] t := items_append (a := [b]) rfl t
  simp only [satisfy, bind_just h, when_bind_apply, aget0, List.headD_cons]
  rfl

theorem repeatable_satisfy (p : UInt8 → Bool) (n : Nat) : Repeatable n (satisfy p) where
  consuming := by
    intro s a t _ h
    cases s with
    | nil =>
      rw [satisfy_nil] at h
      cases h
    | cons b u =>
      rw [satisfy_cons] at h
      split at h
      · cases h
        simp
      · cases h
  fueled := by
    intro s _
    cases s with
    | nil => simp [satisfy_nil]
    | cons b u =>
      rw [satisfy_cons]
      split <;> simp

/-- Repeating `satisfy p` takes the longest prefix of items that satisfy `p`. -/
theorem many_satisfy (p : UInt8 → Bool) (s : Uint8Array) :
    Many (satisfy p) s (s.takeWhile p) (s.dropWhile p) := by
  induction s with
  | nil => exact .done (satisfy_nil p)
  | cons b t ih =>
    by_cases hb : p b
    · simpa [hb] using Many.next (by simp [satisfy_cons, hb]) ih
    · simpa [hb] using Many.done (m := satisfy p) (s := b :: t) (by simp [satisfy_cons, hb])

/-! ## Integers -/

theorem parseUint8_eq_just {s t : Uint8Array} {v : Nat} :
    parseUint8 s = .just v t ↔ ∃ b : UInt8, s = b :: t ∧ v = b.toNat := by
  cases s with
  | nil => simp [parseUint8, bind_apply, when_apply]
  | cons b u =>
    simp only [parseUint8, bind_apply, getState_apply, when_apply, setState_apply, parser,
      pure_apply, aget0, List.headD_cons]
    simp only [List.length_cons, Nat.le_add_left, decide_true, ↓reduceIte, List.drop_succ_cons,
      List.drop_zero, Outcome.just.injEq, List.cons.injEq]
    constructor
    · rintro ⟨rfl, rfl⟩
      exact ⟨b, ⟨rfl, rfl⟩, rfl⟩
    · rintro ⟨_, ⟨rfl, rfl⟩, rfl⟩
      exact ⟨rfl, rfl⟩

theorem fueled_parseUint8 (n : Nat) : Fueled n parseUint8 := by
  intro s _
  cases s <;> simp [parseUint8, bind_apply, when_apply, parser]

theorem parseUint16_eq_just {s t : Uint8Array} {v : Nat} :
    parseUint16 s = .just v t ↔
      ∃ a b : UInt8, s = a :: b :: t ∧ v = b.toNat + 256 * a.toNat := by
  simp only [parseUint16, bind_eq_just, parseUint8_eq_just, parser, pure_apply,
    Outcome.just.injEq]
  constructor
  · rintro ⟨_, _, ⟨a, rfl, rfl⟩, _, _, ⟨b, rfl, rfl⟩, rfl, rfl⟩
    exact ⟨a, b, rfl, rfl⟩
  · rintro ⟨a, b, rfl, rfl⟩
    exact ⟨_, _, ⟨a, rfl, rfl⟩, _, _, ⟨b, rfl, rfl⟩, rfl, rfl⟩

theorem parseUint32_eq_just {s t : Uint8Array} {v : Nat} :
    parseUint32 s = .just v t ↔ ∃ a b c d : UInt8, s = a :: b :: c :: d :: t ∧
      v = d.toNat + 256 * c.toNat + 65536 * (b.toNat + 256 * a.toNat) := by
  simp only [parseUint32, bind_eq_just, parseUint16_eq_just, parser, pure_apply,
    Outcome.just.injEq]
  constructor
  · rintro ⟨_, _, ⟨a, b, rfl, rfl⟩, _, _, ⟨c, d, rfl, rfl⟩, rfl, rfl⟩
    exact ⟨a, b, c, d, rfl, rfl⟩
  · rintro ⟨a, b, c, d, rfl, rfl⟩
    exact ⟨_, _, ⟨a, b, rfl, rfl⟩, _, _, ⟨c, d, rfl, rfl⟩, rfl, rfl⟩

theorem parseUint64_eq_just {s t : Uint8Array} {v : Nat × Nat} :
    parseUint64 s = .just v t ↔
      ∃ u : Uint8Array, parseUint32 s = .just v.1 u ∧ parseUint32 u = .just v.2 t := by
  obtain ⟨msw, lsw⟩ := v
  simp only [parseUint64, bind_eq_just, parser, pure_apply, Outcome.just.injEq, Prod.mk.injEq]
  constructor
  · rintro ⟨_, u, h, _, _, h', ⟨rfl, rfl⟩, rfl⟩
    exact ⟨u, h, h'⟩
  · rintro ⟨u, h, h'⟩
    exact ⟨msw, u, h, lsw, t, h', ⟨rfl, rfl⟩, rfl⟩

/-- Each integer parser takes a fixed number of bytes off. -/
theorem parseUint16_length {s t : Uint8Array} {v : Nat} (h : parseUint16 s = .just v t) :
    s.length = t.length + 2 := by
  obtain ⟨a, b, rfl, _⟩ := parseUint16_eq_just.mp h
  rfl

theorem parseUint32_length {s t : Uint8Array} {v : Nat} (h : parseUint32 s = .just v t) :
    s.length = t.length + 4 := by
  obtain ⟨a, b, c, d, rfl, _⟩ := parseUint32_eq_just.mp h
  rfl

theorem parseUint64_length {s t : Uint8Array} {v : Nat × Nat} (h : parseUint64 s = .just v t) :
    s.length = t.length + 8 := by
  obtain ⟨u, h₁, h₂⟩ := parseUint64_eq_just.mp h
  rw [parseUint32_length h₁, parseUint32_length h₂]

theorem parseUint16_lt {s t : Uint8Array} {v : Nat} (h : parseUint16 s = .just v t) :
    v < 65536 := by
  obtain ⟨a, b, _, rfl⟩ := parseUint16_eq_just.mp h
  have := a.toNat_lt
  have := b.toNat_lt
  omega

theorem parseUint32_lt {s t : Uint8Array} {v : Nat} (h : parseUint32 s = .just v t) :
    v < 2 ^ 32 := by
  obtain ⟨a, b, c, d, _, rfl⟩ := parseUint32_eq_just.mp h
  have := a.toNat_lt
  have := b.toNat_lt
  have := c.toNat_lt
  have := d.toNat_lt
  omega

theorem shrinking_parseUint8 (n : Nat) : Shrinking n parseUint8 := by
  intro s a t _ h
  obtain ⟨b, rfl, _⟩ := parseUint8_eq_just.mp h
  simp

theorem shrinking_parseUint16 (n : Nat) : Shrinking n parseUint16 :=
  fun _ _ _ _ h => by have := parseUint16_length h; omega

theorem shrinking_parseUint32 (n : Nat) : Shrinking n parseUint32 :=
  fun _ _ _ _ h => by have := parseUint32_length h; omega

theorem shrinking_parseUint64 (n : Nat) : Shrinking n parseUint64 :=
  fun _ _ _ _ h => by have := parseUint64_length h; omega

theorem fueled_parseUint16 (n : Nat) : Fueled n parseUint16 :=
  fueled_bind (fueled_parseUint8 n) (shrinking_parseUint8 n) fun _ =>
    fueled_bind (fueled_parseUint8 n) (shrinking_parseUint8 n) fun _ => fueled_ret n _

theorem fueled_parseUint32 (n : Nat) : Fueled n parseUint32 :=
  fueled_bind (fueled_parseUint16 n) (shrinking_parseUint16 n) fun _ =>
    fueled_bind (fueled_parseUint16 n) (shrinking_parseUint16 n) fun _ => fueled_ret n _

theorem fueled_parseUint64 (n : Nat) : Fueled n parseUint64 :=
  fueled_bind (fueled_parseUint32 n) (shrinking_parseUint32 n) fun _ =>
    fueled_bind (fueled_parseUint32 n) (shrinking_parseUint32 n) fun _ => fueled_ret n _

/-! ## Strings -/

section Strings

variable {Str : Type} (gcrypt : Gcrypt Str)

theorem noneOrMore_satisfy (p : UInt8 → Bool) {fuel : Nat} {s : Uint8Array}
    (hf : s.length + 2 ≤ fuel) :
    noneOrMore fuel (satisfy p) s = .just (s.takeWhile p) (s.dropWhile p) :=
  noneOrMore_many (many_satisfy p s)
    (by have := (List.takeWhile_sublist p (l := s)).length_le; omega)

/-- A string parser reads up to the first zero byte. -/
theorem parseUtf8_eq_just {fuel : Nat} {s t : Uint8Array} {v : Str}
    (hf : s.length + 2 ≤ fuel) :
    parseUtf8 gcrypt fuel s = .just v t ↔
      ∃ bs : Uint8Array, 0 ∉ bs ∧ s = bs ++ 0 :: t ∧ v = gcrypt.utf8ByteArrayToString bs := by
  simp only [parseUtf8, bind_just (noneOrMore_satisfy _ hf), bind_eq_just, items_eq_just, parser,
    pure_apply, Outcome.just.injEq]
  constructor
  · rintro ⟨z, u, ⟨hz, hu⟩, rfl, rfl⟩
    obtain ⟨b, rfl⟩ := List.length_eq_one_iff.mp (by exact_mod_cast hz)
    refine ⟨s.takeWhile fun x => x ≠ 0, ?_, ?_, rfl⟩
    · intro h0
      simpa using List.mem_takeWhile_imp h0
    · have hb : b = 0 := by
        have := List.head_dropWhile_not (fun x : UInt8 => decide (x ≠ 0)) (l := s)
          (by rw [hu]; simp)
        simp only [hu, List.cons_append, List.head_cons] at this
        exact of_not_not (of_decide_eq_false this)
      calc s = s.takeWhile (fun x => decide (x ≠ 0)) ++ s.dropWhile (fun x => decide (x ≠ 0)) :=
            List.takeWhile_append_dropWhile.symm
        _ = _ := by rw [hu, hb]; rfl
  · rintro ⟨bs, h0, rfl, rfl⟩
    have hall : ∀ x ∈ bs, decide (x ≠ 0) = true := by
      intro x hx
      simpa using fun e : x = 0 => h0 (e ▸ hx)
    refine ⟨[0], t, ⟨rfl, ?_⟩, ?_, rfl⟩
    · rw [List.dropWhile_append_of_pos hall]
      rfl
    · rw [List.takeWhile_append_of_pos hall]
      simp

theorem fueled_parseUtf8 {n fuel : Nat} (hf : n + 2 ≤ fuel) :
    Fueled n (parseUtf8 gcrypt fuel) := by
  intro s hs h
  rw [parseUtf8, bind_just (noneOrMore_satisfy _ (by omega))] at h
  rcases bind_eq_running.mp h with h | ⟨_, _, _, h⟩
  · exact fueled_items _ 1 _ (Nat.le_refl _) h
  · cases h

theorem shrinking_parseUtf8 {n fuel : Nat} (hf : n + 2 ≤ fuel) :
    Shrinking n (parseUtf8 gcrypt fuel) := by
  intro s a t hs h
  obtain ⟨bs, _, rfl, _⟩ := (parseUtf8_eq_just gcrypt (by omega)).mp h
  simp only [List.length_append, List.length_cons]
  omega

end Strings

end GnunetWeb
