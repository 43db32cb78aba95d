import GnunetWeb.Library.IndexedDB.Key
import Mathlib.Data.List.Sort

/-!
# Object stores, indexes and cursors

An object store with a key generator, in the order of its primary keys.  An index
is the function that finds the key of a record in it; a record without such a key is
not in the index.  A cursor visits the records of a range in the order of their keys
in the index, and of their primary keys where these are equal.

Proved here:

* `mem_records_add`, `mem_records_put`, `mem_records_delete`: the records after a
  change;
* `get_eq_some`, `get_add`, `get_put`: the value of a primary key;
* `get_add_of_some`, `get_put_of_some`, `get_delete_of_some`: and of another one;
* `Range.contains_bound_cons`: what lies between two arrays;
* `mem_entries`: the records that a cursor visits;
* `visited_sorted`, `visited_sorted_unique`: their order;
* `find_visited`: what a search finds;
* `advance_eq`, `ahead_moveTo`: how a cursor moves;
* `ahead_moveTo_delete`: and when the record under it is deleted.
-/

namespace IndexedDB

/-- A key generator that has come past this number fails. -/
def maxGenerated : Nat := 2 ^ 53

/-- `store.put(value)` among the records. -/
def insertRecord {ρ : Type} (k : Nat) (value : ρ) : List (Nat × ρ) → List (Nat × ρ)
  | [] => [(k, value)]
  | r :: l =>
    if k < r.1 then (k, value) :: r :: l
    else if k = r.1 then (k, value) :: l
    else r :: insertRecord k value l

theorem mem_insertRecord {ρ : Type} {k : Nat} {value : ρ} {l : List (Nat × ρ)}
    (hl : (l.map Prod.fst).Pairwise (· < ·)) {r : Nat × ρ} :
    r ∈ insertRecord k value l ↔ r = (k, value) ∨ r.1 ≠ k ∧ r ∈ l := by
  induction l with
  | nil => simp [insertRecord]
  | cons x l ih =>
    rw [List.map_cons, List.pairwise_cons] at hl
    have hlt : ∀ y ∈ l, x.1 < y.1 := fun y hy => hl.1 y.1 (List.mem_map_of_mem hy)
    rw [insertRecord]
    split
    · rename_i hk
      have hne : ∀ y ∈ x :: l, y.1 ≠ k := by
        intro y hy
        rcases List.mem_cons.mp hy with rfl | hy
        · exact Nat.ne_of_gt hk
        · exact Nat.ne_of_gt (Nat.lt_trans hk (hlt y hy))
      rw [List.mem_cons]
      exact or_congr_right ⟨fun hr => ⟨hne r hr, hr⟩, fun hr => hr.2⟩
    split
    · rename_i hk
      subst hk
      rw [List.mem_cons, List.mem_cons]
      refine or_congr_right ⟨fun hr => ⟨Nat.ne_of_gt (hlt r hr), .inr hr⟩, fun hr => ?_⟩
      exact hr.2.resolve_left fun he => hr.1 (by rw [he])
    · rename_i hk
      rw [List.mem_cons, ih hl.2, List.mem_cons]
      constructor
      · rintro (rfl | rfl | hr)
        · exact .inr ⟨fun he => hk he.symm, .inl rfl⟩
        · exact .inl rfl
        · exact .inr ⟨hr.1, .inr hr.2⟩
      · rintro (rfl | ⟨hne, rfl | hr⟩)
        · exact .inr (.inl rfl)
        · exact .inl rfl
        · exact .inr (.inr ⟨hne, hr⟩)

theorem insertRecord_sorted {ρ : Type} (k : Nat) (value : ρ) {l : List (Nat × ρ)}
    (hl : (l.map Prod.fst).Pairwise (· < ·)) :
    ((insertRecord k value l).map Prod.fst).Pairwise (· < ·) := by
  induction l with
  | nil => simp [insertRecord]
  | cons x l ih =>
    rw [List.map_cons, List.pairwise_cons] at hl
    have hlt : ∀ y ∈ l, x.1 < y.1 := fun y hy => hl.1 y.1 (List.mem_map_of_mem hy)
    rw [insertRecord]
    split
    · rename_i hk
      rw [List.map_cons, List.map_cons, List.pairwise_cons, List.pairwise_cons]
      refine ⟨fun j hj => ?_, hl⟩
      rcases List.mem_cons.mp hj with rfl | hj
      · exact hk
      · exact Nat.lt_trans hk (hl.1 j hj)
    split
    · rename_i hk
      rw [List.map_cons, List.pairwise_cons]
      exact ⟨fun j hj => hk ▸ hl.1 j hj, hl.2⟩
    · rename_i hnlt hne
      rw [List.map_cons, List.pairwise_cons]
      refine ⟨fun j hj => ?_, ih hl.2⟩
      obtain ⟨y, hy, rfl⟩ := List.mem_map.mp hj
      rcases (mem_insertRecord hl.2).mp hy with rfl | hy
      · exact Nat.lt_of_le_of_ne (Nat.le_of_not_lt hnlt) (Ne.symm hne)
      · exact hlt y hy.2

/-- The records with their primary keys, and the next key to be generated. -/
structure ObjectStore (ρ : Type) where
  records : List (Nat × ρ)
  generator : Nat
  sorted : (records.map Prod.fst).Pairwise (· < ·)
  below : ∀ r ∈ records, r.1 < generator

namespace ObjectStore

variable {ρ : Type}

def empty : ObjectStore ρ := ⟨[], 1, .nil, by simp⟩

/-- A primary key has one record. -/
theorem value_unique (s : ObjectStore ρ) {k : Nat} {v v' : ρ} (h : (k, v) ∈ s.records)
    (h' : (k, v') ∈ s.records) : v = v' := by
  have hinj := List.inj_on_of_nodup_map (s.sorted.imp fun hlt => Nat.ne_of_lt hlt) h h' rfl
  exact congrArg Prod.snd hinj

/-- While the generator has not run out, no key is larger than its largest. -/
theorem le_maxGenerated {s : ObjectStore ρ} (h : s.generator ≤ maxGenerated + 1) {r : Nat × ρ}
    (hr : r ∈ s.records) : r.1 ≤ maxGenerated :=
  Nat.le_of_lt_succ (Nat.lt_of_lt_of_le (s.below r hr) h)

/-- `store.get(k)` -/
def get (s : ObjectStore ρ) (k : Nat) : Option ρ :=
  (s.records.find? fun r => r.1 = k).map Prod.snd

theorem get_eq_some {s : ObjectStore ρ} {k : Nat} {v : ρ} :
    s.get k = some v ↔ (k, v) ∈ s.records := by
  rw [get, Option.map_eq_some_iff]
  constructor
  · rintro ⟨⟨k', v'⟩, hfind, rfl⟩
    have hk : k' = k := by simpa using List.find?_some hfind
    exact hk ▸ List.mem_of_find?_eq_some hfind
  · intro hr
    have hsome : (s.records.find? fun r => r.1 = k).isSome :=
      List.find?_isSome.mpr ⟨_, hr, by simp⟩
    obtain ⟨⟨k', v'⟩, hfind⟩ := Option.isSome_iff_exists.mp hsome
    have hk : k' = k := by simpa using List.find?_some hfind
    subst hk
    exact ⟨_, hfind, s.value_unique (List.mem_of_find?_eq_some hfind) hr⟩

/-! ## Changes -/

/-- `store.add(value)`, under a generated key. -/
def add (s : ObjectStore ρ) (value : ρ) : ObjectStore ρ where
  records := s.records ++ [(s.generator, value)]
  generator := s.generator + 1
  sorted := by
    rw [List.map_append, List.pairwise_append]
    refine ⟨s.sorted, List.pairwise_singleton _ _, ?_⟩
    intro k hk k' hk'
    obtain ⟨r, hr, rfl⟩ := List.mem_map.mp hk
    obtain rfl : k' = s.generator := by simpa using hk'
    exact s.below r hr
  below := by
    intro r hr
    rcases List.mem_append.mp hr with hr | hr
    · exact Nat.lt_succ_of_lt (s.below r hr)
    · obtain rfl : r = (s.generator, value) := by simpa using hr
      exact Nat.lt_succ_self _

/-- `store.put(value)` with a primary key in the value, and `cursor.update(value)`. -/
def put (s : ObjectStore ρ) (k : Nat) (value : ρ) : ObjectStore ρ where
  records := insertRecord k value s.records
  generator := max s.generator (k + 1)
  sorted := insertRecord_sorted k value s.sorted
  below := by
    intro r hr
    rcases (mem_insertRecord s.sorted).mp hr with rfl | hr
    · exact Nat.lt_of_lt_of_le (Nat.lt_succ_self _) (Nat.le_max_right _ _)
    · exact Nat.lt_of_lt_of_le (s.below r hr.2) (Nat.le_max_left _ _)

/-- `cursor.delete()` -/
def delete (s : ObjectStore ρ) (k : Nat) : ObjectStore ρ where
  records := s.records.filter fun r => r.1 ≠ k
  generator := s.generator
  sorted := s.sorted.sublist (List.filter_sublist.map Prod.fst)
  below := fun r hr => s.below r (List.mem_of_mem_filter hr)

theorem records_add (s : ObjectStore ρ) (value : ρ) :
    (s.add value).records = s.records ++ [(s.generator, value)] := rfl

theorem mem_records_add {s : ObjectStore ρ} {value : ρ} {r : Nat × ρ} :
    r ∈ (s.add value).records ↔ r ∈ s.records ∨ r = (s.generator, value) := by
  simp [add]

theorem mem_records_put {s : ObjectStore ρ} {k : Nat} {value : ρ} {r : Nat × ρ} :
    r ∈ (s.put k value).records ↔ r = (k, value) ∨ r.1 ≠ k ∧ r ∈ s.records :=
  mem_insertRecord s.sorted

theorem mem_records_delete {s : ObjectStore ρ} {k : Nat} {r : Nat × ρ} :
    r ∈ (s.delete k).records ↔ r.1 ≠ k ∧ r ∈ s.records := by
  simp [delete, and_comm]

theorem get_add (s : ObjectStore ρ) (value : ρ) : (s.add value).get s.generator = some value :=
  get_eq_some.mpr (mem_records_add.mpr (.inr rfl))

theorem get_put (s : ObjectStore ρ) (k : Nat) (value : ρ) : (s.put k value).get k = some value :=
  get_eq_some.mpr (mem_records_put.mpr (.inl rfl))

/-! ### The other records -/

theorem get_add_of_some {s : ObjectStore ρ} {k : Nat} {v : ρ} (h : s.get k = some v) (value : ρ) :
    (s.add value).get k = some v :=
  get_eq_some.mpr (mem_records_add.mpr (.inl (get_eq_some.mp h)))

theorem get_put_of_some {s : ObjectStore ρ} {k k' : Nat} {v : ρ} (h : s.get k = some v)
    (hk : k ≠ k') (value : ρ) : (s.put k' value).get k = some v :=
  get_eq_some.mpr (mem_records_put.mpr (.inr ⟨hk, get_eq_some.mp h⟩))

theorem get_delete_of_some {s : ObjectStore ρ} {k k' : Nat} {v : ρ} (h : s.get k = some v)
    (hk : k ≠ k') : (s.delete k').get k = some v :=
  get_eq_some.mpr (mem_records_delete.mpr ⟨hk, get_eq_some.mp h⟩)

end ObjectStore

/-! ## Indexes and ranges -/

/-- The key of a record in an index. -/
abbrev Index (ρ : Type) := Nat → ρ → Option Key

/-- Bounds with whether they are open. -/
structure Range where
  lower : Option (Key × Bool)
  upper : Option (Key × Bool)

namespace Range

/-- No range is given. -/
def all : Range := ⟨none, none⟩

/-- `IDBKeyRange.only(k)` -/
def only (k : Key) : Range := ⟨some (k, false), some (k, false)⟩

/-- `IDBKeyRange.bound(l, u)` -/
def bound (l u : Key) : Range := ⟨some (l, false), some (u, false)⟩

/-- `IDBKeyRange.upperBound(u, isOpen)` -/
def upperBound (u : Key) (isOpen : Bool) : Range := ⟨none, some (u, isOpen)⟩

def Below (l : Key × Bool) (k : Key) : Prop := if l.2 then l.1 < k else l.1 ≤ k

def Above (u : Key × Bool) (k : Key) : Prop := if u.2 then k < u.1 else k ≤ u.1

def Contains (r : Range) (k : Key) : Prop :=
  (∀ l ∈ r.lower, Below l k) ∧ ∀ u ∈ r.upper, Above u k

instance (l : Key × Bool) (k : Key) : Decidable (Below l k) := by unfold Below; infer_instance

instance (u : Key × Bool) (k : Key) : Decidable (Above u k) := by unfold Above; infer_instance

instance (r : Range) (k : Key) : Decidable (r.Contains k) := by unfold Contains; infer_instance

@[simp] theorem contains_all (k : Key) : all.Contains k := by simp [Contains, all]

@[simp] theorem contains_only {k k' : Key} : (only k).Contains k' ↔ k' = k := by
  simp only [Contains, only, Option.mem_def, Option.some.injEq, forall_eq', Below, Above,
    Bool.false_eq_true, if_false]
  rw [and_comm, ← le_antisymm_iff]

@[simp] theorem contains_bound {l u k : Key} : (bound l u).Contains k ↔ l ≤ k ∧ k ≤ u := by
  simp [Contains, bound, Below, Above]

@[simp] theorem contains_upperBound {u k : Key} {isOpen : Bool} :
    (upperBound u isOpen).Contains k ↔ if isOpen then k < u else k ≤ u := by
  simp [Contains, upperBound, Above]

/-- **Between two arrays with one first element** are those with the same one. -/
theorem contains_bound_cons {k k' : Key} {l u m : List Key} :
    (bound (.array (k :: l)) (.array (k :: u))).Contains (.array (k' :: m)) ↔
      k' = k ∧ (bound (.array l) (.array u)).Contains (.array m) := by
  rw [contains_bound, contains_bound, Key.array_le_array, Key.array_le_array]
  constructor
  · rintro ⟨hlt | ⟨rfl, hl⟩, hgt | ⟨heq, hu⟩⟩
    · exact absurd hgt (lt_asymm hlt)
    · exact absurd heq hlt.ne'
    · exact absurd hgt (lt_irrefl _)
    · exact ⟨rfl, hl, hu⟩
  · rintro ⟨rfl, hl, hu⟩
    exact ⟨.inr ⟨rfl, hl⟩, .inr ⟨rfl, hu⟩⟩

theorem contains_bound_number {a b n : Int} :
    (bound (.array [.number a]) (.array [.number b])).Contains (.array [.number n]) ↔
      a ≤ n ∧ n ≤ b := by
  rw [contains_bound, Key.array_number_le, Key.array_number_le]

end Range

/-! ## Cursors -/

/-- What a cursor stands on. -/
structure Entry (ρ : Type) where
  key : Key
  primaryKey : Nat
  value : ρ

namespace Entry

variable {ρ : Type}

def position (e : Entry ρ) : Key ×ₗ ℕ := toLex (e.key, e.primaryKey)

end Entry

inductive Direction where
  | next
  | nextunique
  | prev
  deriving DecidableEq

structure Cursor (ρ : Type) where
  index : Index ρ
  range : Range
  direction : Direction
  /-- where it stood last -/
  position : Option (Key ×ₗ ℕ)

namespace Cursor

variable {ρ : Type}

def entryOf (index : Index ρ) (range : Range) (r : Nat × ρ) : Option (Entry ρ) :=
  (index r.1 r.2).bind fun k => if range.Contains k then some ⟨k, r.1, r.2⟩ else none

/-- The records of the range in ascending order. -/
def entries (s : ObjectStore ρ) (index : Index ρ) (range : Range) : List (Entry ρ) :=
  (s.records.filterMap (entryOf index range)).insertionSort fun e e' => e.position ≤ e'.position

/-- The records of the range in the order of a direction. -/
def visited (s : ObjectStore ρ) (index : Index ρ) (range : Range) (direction : Direction) :
    List (Entry ρ) :=
  if direction = .prev then (entries s index range).reverse else entries s index range

/-- Whether a record comes after a position. -/
def passes (direction : Direction) (position : Key ×ₗ ℕ) (e : Entry ρ) : Bool :=
  match direction with
  | .next => position < e.position
  | .nextunique => (ofLex position).1 < e.key
  | .prev => e.position < position

/-- The next record that the cursor comes to. -/
def advance (s : ObjectStore ρ) (c : Cursor ρ) : Option (Entry ρ) :=
  (visited s c.index c.range c.direction).find? fun e =>
    c.position.all fun position => passes c.direction position e

/-- The cursor when it stands on a record. -/
def moveTo (c : Cursor ρ) (e : Entry ρ) : Cursor ρ := { c with position := some e.position }

theorem mem_entries {s : ObjectStore ρ} {index : Index ρ} {range : Range} {e : Entry ρ} :
    e ∈ entries s index range ↔ (e.primaryKey, e.value) ∈ s.records ∧
      index e.primaryKey e.value = some e.key ∧ range.Contains e.key := by
  rw [entries, List.mem_insertionSort, List.mem_filterMap]
  constructor
  · rintro ⟨r, hr, he⟩
    obtain ⟨k, hk, he⟩ := Option.bind_eq_some_iff.mp he
    by_cases hc : range.Contains k
    · rw [if_pos hc] at he
      cases he
      exact ⟨hr, hk, hc⟩
    · rw [if_neg hc] at he
      cases he
  · rintro ⟨hr, hk, hc⟩
    exact ⟨_, hr, by simp [entryOf, hk, hc]⟩

theorem mem_visited {s : ObjectStore ρ} {index : Index ρ} {range : Range} {direction : Direction}
    {e : Entry ρ} : e ∈ visited s index range direction ↔ e ∈ entries s index range := by
  unfold visited
  split
  · exact List.mem_reverse
  · exact Iff.rfl

/-- Each record is visited once. -/
theorem entries_nodup (s : ObjectStore ρ) (index : Index ρ) (range : Range) :
    ((entries s index range).map Entry.primaryKey).Nodup := by
  have hperm := (List.perm_insertionSort (fun e e' : Entry ρ => e.position ≤ e'.position)
    (s.records.filterMap (entryOf index range))).map Entry.primaryKey
  refine (hperm.nodup_iff).mpr ?_
  have hsub : ((s.records.filterMap (entryOf index range)).map Entry.primaryKey).Sublist
      (s.records.map Prod.fst) := by
    induction s.records with
    | nil => exact List.Sublist.refl _
    | cons r l ih =>
      rw [List.filterMap_cons, List.map_cons]
      cases he : entryOf index range r with
      | none => exact ih.cons _
      | some e =>
        have hpk : e.primaryKey = r.1 := by
          obtain ⟨k, _, he⟩ := Option.bind_eq_some_iff.mp he
          by_cases hc : range.Contains k
          · rw [if_pos hc] at he
            cases he
            rfl
          · rw [if_neg hc] at he
            cases he
        rw [List.map_cons, hpk]
        exact ih.cons_cons _
  exact hsub.nodup (s.sorted.imp fun h => Nat.ne_of_lt h)

theorem visited_nodup (s : ObjectStore ρ) (index : Index ρ) (range : Range)
    (direction : Direction) : ((visited s index range direction).map Entry.primaryKey).Nodup := by
  unfold visited
  split
  · rw [List.map_reverse, List.nodup_reverse]
    exact entries_nodup s index range
  · exact entries_nodup s index range

theorem entries_sorted (s : ObjectStore ρ) (index : Index ρ) (range : Range) :
    (entries s index range).Pairwise fun e e' => e.position < e'.position := by
  have hle : (entries s index range).Pairwise fun e e' => e.position ≤ e'.position :=
    List.pairwise_insertionSort _ _
  have hne := List.pairwise_map.mp (entries_nodup s index range)
  refine (hle.and hne).imp fun {e e'} h => lt_of_le_of_ne h.1 fun he => h.2 ?_
  have := congrArg (fun p => (ofLex p).2) he
  exact this

/-- **A cursor visits each record of its range once, in order.** -/
theorem visited_sorted (s : ObjectStore ρ) (index : Index ρ) (range : Range)
    {direction : Direction} (hd : direction ≠ .nextunique) :
    (visited s index range direction).Pairwise fun e e' =>
      passes direction e.position e' ∧ ¬ passes direction e'.position e := by
  cases direction with
  | next =>
    refine (entries_sorted s index range).imp fun {e e'} h => ?_
    simpa [passes] using ⟨h, h.le⟩
  | nextunique => exact absurd rfl hd
  | prev =>
    rw [visited, if_pos rfl, List.pairwise_reverse]
    refine (entries_sorted s index range).imp fun {e e'} h => ?_
    simpa [passes] using ⟨h, h.le⟩

/-- `nextunique` skips none of the records when no two have the same key. -/
theorem visited_sorted_unique {s : ObjectStore ρ} {index : Index ρ} {range : Range}
    (hkeys : ∀ e ∈ entries s index range, ∀ e' ∈ entries s index range,
      e.key = e'.key → e.primaryKey = e'.primaryKey) :
    (visited s index range .nextunique).Pairwise fun e e' =>
      passes .nextunique e.position e' ∧ ¬ passes .nextunique e'.position e := by
  refine (entries_sorted s index range).imp_of_mem fun {e e'} he he' h => ?_
  have hlt : e.key < e'.key := by
    rcases Prod.Lex.toLex_lt_toLex.mp h with hlt | ⟨heq, hlt⟩
    · exact hlt
    · exact absurd (hkeys e he e' he' heq) (Nat.ne_of_lt hlt)
  exact ⟨decide_eq_true hlt, fun hgt => lt_asymm hlt (of_decide_eq_true hgt)⟩

/-- **A search finds the first record.** -/
theorem find_visited {s : ObjectStore ρ} {index : Index ρ} {range : Range} {p : Entry ρ → Bool}
    {e : Entry ρ} (h : (visited s index range .next).find? p = some e) :
    e ∈ visited s index range .next ∧ p e ∧
      ∀ e' ∈ visited s index range .next, p e' → e.position ≤ e'.position := by
  refine ⟨List.mem_of_find?_eq_some h, List.find?_some h, fun e' he' hp => ?_⟩
  obtain ⟨-, before, rest, hsplit, hnone⟩ := List.find?_eq_some_iff_append.mp h
  have hsorted := entries_sorted s index range
  rw [show entries s index range = visited s index range .next from rfl, hsplit,
    List.pairwise_append, List.pairwise_cons] at hsorted
  rw [hsplit] at he'
  rcases List.mem_append.mp he' with hbefore | hrest
  · have := hnone e' hbefore
    rw [hp] at this
    cases this
  · rcases List.mem_cons.mp hrest with rfl | hrest
    · exact le_refl _
    · exact (hsorted.2.1.1 e' hrest).le

theorem passes_trans {direction : Direction} {position : Key ×ₗ ℕ} {e e' : Entry ρ}
    (h : passes direction position e) (h' : passes direction e.position e') :
    passes direction position e' := by
  cases direction with
  | next =>
    simp only [passes, decide_eq_true_eq] at h h' ⊢
    exact lt_trans h h'
  | nextunique =>
    simp only [passes, decide_eq_true_eq] at h h' ⊢
    exact lt_trans h h'
  | prev =>
    simp only [passes, decide_eq_true_eq] at h h' ⊢
    exact lt_trans h' h

theorem not_passes_self (direction : Direction) (e : Entry ρ) :
    ¬ passes direction e.position e := by
  cases direction with
  | next => simp [passes]
  | nextunique => simp [passes, Entry.position]
  | prev => simp [passes]

/-- A deletion takes its record out of the way. -/
theorem visited_delete (s : ObjectStore ρ) (k : Nat) (index : Index ρ) (range : Range)
    {direction : Direction} (hd : direction ≠ .nextunique) :
    visited (s.delete k) index range direction =
      (visited s index range direction).filter fun e => e.primaryKey ≠ k := by
  have hirrefl : Std.Irrefl fun e e' : Entry ρ =>
      passes direction e.position e' ∧ ¬ passes direction e'.position e :=
    ⟨fun e h => h.2 h.1⟩
  have hasymm : Std.Asymm fun e e' : Entry ρ =>
      passes direction e.position e' ∧ ¬ passes direction e'.position e :=
    ⟨fun e e' h h' => h.2 h'.1⟩
  refine List.Pairwise.eq_of_mem_iff (visited_sorted _ index range hd)
    ((visited_sorted s index range hd).sublist List.filter_sublist) fun e => ?_
  rw [List.mem_filter, mem_visited, mem_visited, mem_entries, mem_entries,
    ObjectStore.mem_records_delete, decide_eq_true_eq]
  constructor
  · rintro ⟨⟨hne, hr⟩, hk⟩
    exact ⟨⟨hr, hk⟩, hne⟩
  · rintro ⟨⟨hr, hk⟩, hne⟩
    exact ⟨⟨hne, hr⟩, hk⟩

/-- The records that are still ahead of a cursor. -/
def ahead (s : ObjectStore ρ) (c : Cursor ρ) : List (Entry ρ) :=
  (visited s c.index c.range c.direction).filter fun e =>
    c.position.all fun position => passes c.direction position e

theorem ahead_start (s : ObjectStore ρ) (index : Index ρ) (range : Range)
    (direction : Direction) :
    ahead s ⟨index, range, direction, none⟩ = visited s index range direction := by
  simp [ahead]

/-- A cursor comes to the first of the records that are ahead. -/
theorem advance_eq (s : ObjectStore ρ) (c : Cursor ρ) : c.advance s = (c.ahead s).head? := by
  rw [ahead, List.head?_filter, advance]

/-- A cursor goes on with the next record, if its direction skips none. -/
theorem ahead_moveTo_of_sorted {s : ObjectStore ρ} {c : Cursor ρ}
    (hsorted : (visited s c.index c.range c.direction).Pairwise fun e e' =>
      passes c.direction e.position e' ∧ ¬ passes c.direction e'.position e)
    {e : Entry ρ} {l : List (Entry ρ)} (h : c.ahead s = e :: l) : (c.moveTo e).ahead s = l := by
  have hsorted := hsorted.sublist
    (List.filter_sublist (p := fun e => c.position.all fun position =>
      passes c.direction position e))
  rw [show List.filter _ _ = e :: l from h, List.pairwise_cons] at hsorted
  have he : c.position.all fun position => passes c.direction position e :=
    (List.mem_filter.mp (h ▸ List.mem_cons_self : e ∈ c.ahead s)).2
  have hsub : ∀ x : Entry ρ, passes c.direction e.position x →
      c.position.all fun position => passes c.direction position x := by
    intro x hx
    rw [Option.all_eq_true] at he ⊢
    exact fun position hp => passes_trans (he position hp) hx
  calc (c.moveTo e).ahead s
      = (visited s c.index c.range c.direction).filter
          fun x => passes c.direction e.position x := by
        simp [ahead, moveTo]
    _ = (c.ahead s).filter fun x => passes c.direction e.position x := by
        rw [ahead, List.filter_filter]
        refine List.filter_congr fun x _ => ?_
        cases hx : passes c.direction e.position x with
        | false => rfl
        | true => simpa using hsub x hx
    _ = l := by
        rw [h, List.filter_cons_of_neg (not_passes_self _ _),
          List.filter_eq_self.mpr fun x hx => (hsorted.1 x hx).1]

/-- **A cursor goes on with the next record.** -/
theorem ahead_moveTo {s : ObjectStore ρ} {c : Cursor ρ} (hd : c.direction ≠ .nextunique)
    {e : Entry ρ} {l : List (Entry ρ)} (h : c.ahead s = e :: l) : (c.moveTo e).ahead s = l :=
  ahead_moveTo_of_sorted (visited_sorted s c.index c.range hd) h

/-- A deletion under the cursor does not disturb it. -/
theorem ahead_moveTo_delete {s : ObjectStore ρ} {c : Cursor ρ} (hd : c.direction ≠ .nextunique)
    {e : Entry ρ} {l : List (Entry ρ)} (h : c.ahead s = e :: l) :
    (c.moveTo e).ahead (s.delete e.primaryKey) = l := by
  have hnodup := (List.pairwise_map.mp (visited_nodup s c.index c.range c.direction)).sublist
    (List.filter_sublist (p := fun e => c.position.all fun position =>
      passes c.direction position e))
  rw [show List.filter _ _ = e :: l from h, List.pairwise_cons] at hnodup
  calc (c.moveTo e).ahead (s.delete e.primaryKey)
      = ((c.moveTo e).ahead s).filter fun x => x.primaryKey ≠ e.primaryKey := by
        have hd' : (c.moveTo e).direction ≠ .nextunique := hd
        rw [ahead, ahead, visited_delete _ _ _ _ hd', List.filter_comm]
    _ = l := by
        rw [ahead_moveTo hd h, List.filter_eq_self]
        exact fun x hx => decide_eq_true (Ne.symm (hnodup.1 x hx))

end Cursor

end IndexedDB
