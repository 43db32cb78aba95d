import GnunetWeb.Datastore.Runs

/-!
# Listing the keys

`emscripten_plugin_get_keys` walks over an index whose keys are arrays of a content key and
a `uid`, and passes these arrays on.

Proved here:

* `nextunique_skips_none`, `count_only`: every record has a key of its own in the index;
* `getKeys_commits`: so there is a call for each record;
* `getKeys_meets_iff`: when these are the right calls.
-/

namespace GnunetWeb.Datastore

open IndexedDB IndexedDB.Transaction

/-- A call of a key processor with the bytes of an array and a count, or with `NULL`. -/
structure KeyCall where
  proc : Ptr
  procCls : Ptr
  key : Option (List Int8 × Nat)
  deriving DecidableEq

/-- The bytes of an `'array'` argument of `ccallFunc`; a nested array becomes a zero. -/
def arrayBytes : IndexedDB.Key → List Int8
  | .array items => items.map fun
    | .number n => Int8.ofInt n
    | _ => 0
  | _ => []

/-- The handler of the request `index.count(cursor.key)`. -/
def counted (proc procCls : Ptr) (key : IndexedDB.Key) : Result Stored → Script Stored KeyCall Unit
  | .count n => .call ⟨proc, procCls, some (arrayBytes key, n)⟩ fun _ => .done
  | _ => .done

def getKeysInt (proc procCls : Ptr) : Script Stored KeyCall Unit :=
  .request (.cursor ⟨byKey, .all, .nextunique, none⟩)
    (fun
      | .cursor (some cursor) =>
        .request (.count byKey cursor.key) (counted proc procCls cursor.key) .done
          (.continue .done)
      | .cursor none => .call ⟨proc, procCls, none⟩ fun _ => .done
      | _ => .done)
    (.call ⟨proc, procCls, none⟩ fun _ => .done)
    .done

def storedUnder (s : ObjectStore Stored) (key : List Int) : List (Nat × Stored) :=
  s.records.filter fun r => r.2.any fun v => v.key = key

/-- What `emscripten_plugin_get_keys` should call: the processor, once with each key and the
number of its records, and then with `NULL`. -/
def KeysMeets (s : ObjectStore Stored) (proc procCls : Ptr) (os : List KeyCall) : Prop :=
  ∃ keys : List (List Int), keys.Nodup ∧ (∀ key, key ∈ keys ↔ storedUnder s key ≠ []) ∧
    os = keys.map (fun key =>
      ⟨proc, procCls, some (key.map Int8.ofInt, (storedUnder s key).length)⟩) ++
        [⟨proc, procCls, none⟩]

section Keys

variable {answer : KeyCall → Int} {s : ObjectStore Stored} {proc procCls : Ptr}

theorem key_of_entry {range : Range} {e : Entry Stored} (h : e ∈ Cursor.entries s byKey range) :
    ∃ v, e.value = some v ∧
      e.key = .array [.array (v.key.map .number), .number e.primaryKey] := by
  obtain ⟨-, hkey, -⟩ := Cursor.mem_entries.mp h
  obtain ⟨v, hv, hk⟩ := Option.map_eq_some_iff.mp hkey
  exact ⟨v, hv, hk.symm⟩

theorem primaryKey_of_key {range range' : Range} {e e' : Entry Stored}
    (he : e ∈ Cursor.entries s byKey range) (he' : e' ∈ Cursor.entries s byKey range')
    (h : e.key = e'.key) : e.primaryKey = e'.primaryKey := by
  obtain ⟨v, -, hkey⟩ := key_of_entry he
  obtain ⟨v', -, hkey'⟩ := key_of_entry he'
  rw [hkey, hkey'] at h
  simp only [IndexedDB.Key.array.injEq, List.cons.injEq, IndexedDB.Key.number.injEq,
    and_true] at h
  exact Int.ofNat_inj.mp h.2

/-- **The cursor skips no record.** -/
theorem nextunique_skips_none :
    (Cursor.visited s byKey .all .nextunique).Pairwise fun e e' =>
      Cursor.passes .nextunique e.position e' ∧ ¬ Cursor.passes .nextunique e'.position e :=
  Cursor.visited_sorted_unique fun _ he _ he' => primaryKey_of_key he he'

theorem count_only {e : Entry Stored} (he : e ∈ Cursor.entries s byKey .all) :
    (Cursor.entries s byKey (.only e.key)).length = 1 := by
  obtain ⟨hr, hkey, -⟩ := Cursor.mem_entries.mp he
  have hmem : e ∈ Cursor.entries s byKey (.only e.key) :=
    Cursor.mem_entries.mpr ⟨hr, hkey, Range.contains_only.mpr rfl⟩
  have honly : ∀ n ∈ (Cursor.entries s byKey (.only e.key)).map Entry.primaryKey,
      n = e.primaryKey := by
    intro n hn
    obtain ⟨e', he', rfl⟩ := List.mem_map.mp hn
    exact primaryKey_of_key he' he (Range.contains_only.mp (Cursor.mem_entries.mp he').2.2)
  have hnodup := Cursor.entries_nodup s byKey (.only e.key)
  rw [List.eq_replicate_of_mem honly, List.nodup_replicate, List.length_map] at hnodup
  exact Nat.le_antisymm hnodup (List.length_pos_of_mem hmem)

def keyCalls (s : ObjectStore Stored) (proc procCls : Ptr) : List KeyCall :=
  (Cursor.visited s byKey .all .nextunique).map (fun e =>
    ⟨proc, procCls, some ([0, Int8.ofInt e.primaryKey], 1)⟩) ++ [⟨proc, procCls, none⟩]

/-- **There is a call for each record**, with two bytes and the count 1. -/
theorem getKeys_commits :
    Commits answer () s (getKeysInt proc procCls) (keyCalls s proc procCls) s := by
  have hstart := Cursor.ahead_start s byKey .all .nextunique
  rw [← List.append_nil (Cursor.visited s byKey .all .nextunique)] at hstart
  rw [keyCalls, List.map_eq_flatMap]
  refine .cursor (Finishes.walkRequest
    (q := fun e => ⟨.count byKey e.key, counted proc procCls e.key, .done⟩)
    (fun e he resume => ?_) (fun e he => ?_) hstart (fun c' e l hi hr hd hc => ?_)
    fun c' hc' => ?_)
  · simp [Script.run]
  · have he := Cursor.mem_visited.mp he
    obtain ⟨v, hv, hkey⟩ := key_of_entry he
    refine ⟨.count 1, by rw [Request.perform, count_only he], ?_⟩
    simp only [counted, arrayBytes, hkey, Script.run]
    rfl
  · refine Cursor.ahead_moveTo_of_sorted ?_ hc
    rw [hi, hr, hd]
    exact nextunique_skips_none
  · exact .last hc' (fun _ => rfl) (.call (.done _ _))

/-! ## Comparison -/

theorem mem_storedUnder {key : List Int} {r : Nat × Stored} :
    r ∈ storedUnder s key ↔ r ∈ s.records ∧ ∃ v, r.2 = some v ∧ v.key = key := by
  rw [storedUnder, List.mem_filter, Option.any_eq_true]
  simp

/-- A key has 64 bytes, and a call passes two. -/
theorem keysMeets_iff (hs : Kept s) :
    KeysMeets s proc procCls (keyCalls s proc procCls) ↔ s.records = [] := by
  constructor
  · rintro ⟨keys, -, hkeys, hcalls⟩
    by_contra hne
    obtain ⟨⟨uid, value⟩, hr⟩ := List.exists_mem_of_ne_nil _ hne
    obtain ⟨v, rfl⟩ := Option.ne_none_iff_exists'.mp (hs.full _ hr)
    have hvisited : ⟨.array [.array (v.key.map .number), .number uid], uid, some v⟩ ∈
        Cursor.visited s byKey .all .nextunique :=
      Cursor.mem_visited.mpr (Cursor.mem_entries.mpr ⟨hr, rfl, Range.contains_all _⟩)
    have hcall : ⟨proc, procCls, some ([0, Int8.ofInt uid], 1)⟩ ∈ keyCalls s proc procCls :=
      List.mem_append_left _ (List.mem_map_of_mem hvisited)
    rw [hcalls] at hcall
    rcases List.mem_append.mp hcall with hcall | hcall
    · obtain ⟨key, hkey, he⟩ := List.mem_map.mp hcall
      rw [KeyCall.mk.injEq, Option.some.injEq, Prod.mk.injEq] at he
      -- the key of the call is one that is stored
      obtain ⟨r, hunder⟩ := List.exists_mem_of_ne_nil _ ((hkeys key).mp hkey)
      obtain ⟨hr', v', hv', rfl⟩ := mem_storedUnder.mp hunder
      have hlength := congrArg List.length he.2.2.1
      rw [List.length_map, hs.keyLength r.1 v' (hv' ▸ hr')] at hlength
      cases hlength
    · cases List.mem_singleton.mp hcall
  · intro hempty
    refine ⟨[], .nil, fun key => iff_of_false List.not_mem_nil ?_, ?_⟩
    · simp [storedUnder, hempty]
    · simp [keyCalls, Cursor.visited, Cursor.entries, hempty]

end Keys

/-- **Listing the keys.**  The calls are right when the datastore is empty, and only then. -/
theorem getKeys_meets_iff (c : Contents) (proc procCls : Ptr) (answer : KeyCall → Int) : ∃ os,
    Commits answer () c.store (getKeysInt proc procCls) os c.store ∧
    (∀ os' s', Commits answer () c.store (getKeysInt proc procCls) os' s' →
      os' = os ∧ s' = c.store) ∧
    (KeysMeets c.store proc procCls os ↔ c.store.records = []) :=
  ⟨_, getKeys_commits, fun _ _ h => h.unique getKeys_commits, keysMeets_iff c.kept⟩

theorem getKeys_two_records : ¬ ∃ os, Commits (fun _ => 0) () twoRecords.store (getKeysInt 7 9) os
      twoRecords.store ∧ KeysMeets twoRecords.store 7 9 os := by
  rintro ⟨os, hcommits, hmeets⟩
  have hos := (hcommits.unique getKeys_commits).1
  rw [hos, keysMeets_iff twoRecords.kept] at hmeets
  exact absurd hmeets (List.cons_ne_nil _ _)

end GnunetWeb.Datastore
