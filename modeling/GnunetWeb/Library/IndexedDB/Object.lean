import GnunetWeb.Library.IndexedDB.Store

/-!
# Stored objects and key paths

An object is the list of its properties.  An index is created with a name and a key
path, one property or an array of them; asking for an index that was not created
throws.

Proved here:

* `names_index`: the key of an object in an index on several properties;
* `visited_perm`, `visited_only_perm`: a cursor visits the records of its range;
* `records_deleteRange`, `records_deleteAll`: what is left when all of them have been
  deleted.
-/

namespace IndexedDB

inductive Value where
  | undefined
  | number (n : Int)
  | string (s : String)
  | array (items : List Int)
  /-- a `Uint8Array` -/
  | bytes (items : List UInt8)
  deriving DecidableEq

namespace Value

/-- The values that are keys; binary keys are left out. -/
def toKey : Value → Option Key
  | number n => some (.number n)
  | string s => some (.string s)
  | array items => some (.array (items.map .number))
  | _ => none

end Value

/-- The properties of an object. -/
abbrev Object := List (String × Value)

/-- `object.name` -/
def Object.get (o : Object) (name : String) : Value := (o.lookup name).getD .undefined

inductive KeyPath where
  | name (property : String)
  | names (properties : List String)

/-- The index that `createIndex` makes of a key path. -/
def KeyPath.index : KeyPath → Index Object
  | name property => fun _ o => (o.get property).toKey
  | names properties => fun _ o =>
    (properties.mapM fun property => (o.get property).toKey).map Key.array

/-- The indexes of an object store, by their names. -/
abbrev Schema := List (String × KeyPath)

/-- `store.index(name)`; `none` when it throws. -/
def Schema.index (schema : Schema) (name : String) : Option (Index Object) :=
  (schema.lookup name).map KeyPath.index

theorem names_index {properties : List String} {k : Nat} {o : Object} {keys : List Key} :
    (KeyPath.names properties).index k o = some (.array keys) ↔
      properties.mapM (fun property => (o.get property).toKey) = some keys := by
  simp [KeyPath.index]

variable {ρ : Type}

namespace Cursor

/-- The cursor of a range comes to a record. -/
def reaches (index : Index ρ) (range : Range) (r : Nat × ρ) : Bool :=
  (index r.1 r.2).any fun k => range.Contains k

theorem reaches_only (index : Index ρ) (k : Key) (r : Nat × ρ) :
    reaches index (.only k) r = decide (index r.1 r.2 = some k) := by
  unfold reaches
  cases index r.1 r.2 with
  | none => simp
  | some k' => simp

theorem filterMap_entryOf (index : Index ρ) (range : Range) (l : List (Nat × ρ)) :
    (l.filterMap (entryOf index range)).map (fun e => (e.primaryKey, e.value)) =
      l.filter (reaches index range) := by
  induction l with
  | nil => rfl
  | cons r l ih =>
    rw [List.filterMap_cons, List.filter_cons, reaches]
    cases hk : index r.1 r.2 with
    | none =>
      simp only [entryOf, hk, Option.bind_none]
      exact ih
    | some k =>
      simp only [entryOf, hk, Option.bind_some, Option.any_some]
      by_cases hc : range.Contains k
      · rw [if_pos hc, if_pos (decide_eq_true hc), List.map_cons, ih]
      · rw [if_neg hc, if_neg (by simpa using hc)]
        exact ih

/-- **A cursor visits the records of its range.** -/
theorem visited_perm (s : ObjectStore ρ) (index : Index ρ) (range : Range)
    (direction : Direction) :
    ((visited s index range direction).map fun e => (e.primaryKey, e.value)).Perm
      (s.records.filter (reaches index range)) := by
  rw [← filterMap_entryOf]
  refine List.Perm.map _ ?_
  have hsort := List.perm_insertionSort (fun e e' : Entry ρ => e.position ≤ e'.position)
    (s.records.filterMap (entryOf index range))
  unfold visited
  split
  · exact (List.reverse_perm _).trans hsort
  · exact hsort

/-- A cursor on one key visits the records that have it. -/
theorem visited_only_perm (s : ObjectStore ρ) (index : Index ρ) (k : Key) (direction : Direction) :
    ((visited s index (.only k) direction).map fun e => (e.primaryKey, e.value)).Perm
      (s.records.filter fun r => index r.1 r.2 = some k) := by
  have hperm := visited_perm s index (.only k) direction
  rwa [List.filter_congr fun r _ => reaches_only index k r] at hperm

theorem mem_visited_only {s : ObjectStore ρ} {index : Index ρ} {k : Key} {direction : Direction}
    {e : Entry ρ} (h : e ∈ visited s index (.only k) direction) :
    (e.primaryKey, e.value) ∈ s.records ∧ index e.primaryKey e.value = some k := by
  rw [mem_visited, mem_entries, Range.contains_only] at h
  exact ⟨h.1, by rw [h.2.1, h.2.2]⟩

theorem records_foldl_delete (s : ObjectStore ρ) (l : List (Entry ρ)) :
    (l.foldl (fun s e => s.delete e.primaryKey) s).records =
      s.records.filter fun r => r.1 ∉ l.map Entry.primaryKey := by
  induction l generalizing s with
  | nil => simp
  | cons e l ih =>
    rw [List.foldl_cons, ih, ObjectStore.delete, List.filter_filter]
    refine List.filter_congr fun r _ => ?_
    rw [List.map_cons, Bool.eq_iff_iff]
    simp only [Bool.and_eq_true, decide_eq_true_eq, List.mem_cons, not_or]
    exact and_comm

/-- **What is left when the records of a range have been deleted.** -/
theorem records_deleteRange (s : ObjectStore ρ) (index : Index ρ) (range : Range)
    (direction : Direction) :
    ((visited s index range direction).foldl (fun s e => s.delete e.primaryKey) s).records =
      s.records.filter fun r => !reaches index range r := by
  rw [records_foldl_delete]
  refine List.filter_congr fun r hr => ?_
  have hperm := visited_perm s index range direction
  have hmem : r.1 ∈ (visited s index range direction).map Entry.primaryKey ↔
      reaches index range r := by
    rw [List.mem_map]
    constructor
    · rintro ⟨e, he, hpk⟩
      obtain ⟨her, hreaches⟩ := List.mem_filter.mp (hperm.mem_iff.mp (List.mem_map_of_mem he))
      simp only [hpk] at her hreaches
      rwa [s.value_unique her hr] at hreaches
    · intro hreaches
      obtain ⟨e, he, hr'⟩ := List.mem_map.mp
        (hperm.mem_iff.mpr (List.mem_filter.mpr ⟨hr, hreaches⟩))
      exact ⟨e, he, congrArg Prod.fst hr'⟩
  simp [hmem]

/-- What is left when the records of a key have been deleted. -/
theorem records_deleteAll (s : ObjectStore ρ) (index : Index ρ) (k : Key) (direction : Direction) :
    ((visited s index (.only k) direction).foldl (fun s e => s.delete e.primaryKey) s).records =
      s.records.filter fun r => index r.1 r.2 ≠ some k := by
  rw [records_deleteRange]
  refine List.filter_congr fun r _ => ?_
  rw [reaches_only, decide_not]

theorem generator_foldl_delete (s : ObjectStore ρ) (l : List (Entry ρ)) :
    (l.foldl (fun s e => s.delete e.primaryKey) s).generator = s.generator := by
  induction l generalizing s with
  | nil => rfl
  | cons e l ih => exact ih _

end Cursor

end IndexedDB
