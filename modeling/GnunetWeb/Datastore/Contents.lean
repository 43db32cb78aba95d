import GnunetWeb.Datastore.Plugin

/-!
# The datastore is a map

The contents of the store, as a map from a key and data to the one record that has
them.

Proved here:

* `put_commits`, `remove_commits`, `getReplication_commits`, `getExpiration_commits`:
  what the transactions of the plugin do, and that they end;
* `op_meets`: every call keeps the invariant `Wellformed`: one record for a key and data;
* `datastore_map`: put and remove are the operations of the map, in every run.
-/

namespace GnunetWeb.Datastore

open IndexedDB

/-! ## The filter by data -/

theorem sameData_iff {size : Nat} {data : List Int} (h : data.length = size) {value : Datum} :
    sameData size data value ↔ value.data = data := by
  unfold sameData
  rw [decide_eq_true_iff, List.all_eq_true]
  constructor
  · rintro ⟨hlen, hall⟩
    refine List.ext_getElem (by omega) fun i h₁ h₂ => ?_
    have hi := hall (data[i], i) (List.mk_mem_zipIdx_iff_getElem?.mpr (by simp [h₂]))
    have hi' : value.data[i]? = some data[i] := by simpa using hi
    rw [List.getElem?_eq_getElem h₁] at hi'
    exact Option.some.inj hi'
  · intro he
    refine ⟨by rw [he, h], fun x hx => ?_⟩
    obtain ⟨d, i⟩ := x
    have hi := List.mk_mem_zipIdx_iff_getElem?.mp hx
    simpa [he] using hi

/-! ## The records of a key -/

/-- One record for a key and data, and no empty object. -/
structure Wellformed (s : ObjectStore Stored) : Prop where
  full : ∀ r ∈ s.records, r.2 ≠ none
  unique : ∀ uid uid' v v', (uid, some v) ∈ s.records → (uid', some v') ∈ s.records →
    v.key = v'.key → v.data = v'.data → uid = uid'
  bounded : s.generator ≤ maxGenerated + 1

/-- The record of a key and data. -/
def lookup (s : ObjectStore Stored) (p : List Int × List Int) : Option (Nat × Datum) :=
  s.records.findSome? fun r => r.2.bind fun v =>
    if v.key = p.1 ∧ v.data = p.2 then some (r.1, v) else none

theorem mem_of_lookup {s : ObjectStore Stored} {p : List Int × List Int} {uid : Nat} {v : Datum}
    (h : lookup s p = some (uid, v)) : (uid, some v) ∈ s.records ∧ p = (v.key, v.data) := by
  obtain ⟨⟨uid', value⟩, hr, he⟩ := List.exists_of_findSome?_eq_some h
  obtain ⟨v', rfl, he⟩ := Option.bind_eq_some_iff.mp he
  by_cases hp : v'.key = p.1 ∧ v'.data = p.2
  · rw [if_pos hp] at he
    cases he
    exact ⟨hr, by rw [hp.1, hp.2]⟩
  · rw [if_neg hp] at he
    cases he

theorem lookup_eq_none {s : ObjectStore Stored} {p : List Int × List Int} :
    lookup s p = none ↔ ∀ uid v, (uid, some v) ∈ s.records → p ≠ (v.key, v.data) := by
  rw [lookup, List.findSome?_eq_none_iff]
  constructor
  · rintro h uid v hr rfl
    have := h _ hr
    simp at this
  · rintro h ⟨uid, value⟩ hr
    cases value with
    | none => rfl
    | some v =>
      have hp : ¬ (v.key = p.1 ∧ v.data = p.2) := fun hp => h uid v hr (by rw [hp.1, hp.2])
      simp [hp]

/-- **The records and the map say the same.** -/
theorem Wellformed.lookup_eq_some {s : ObjectStore Stored} (h : Wellformed s)
    {p : List Int × List Int} {uid : Nat} {v : Datum} :
    lookup s p = some (uid, v) ↔ (uid, some v) ∈ s.records ∧ p = (v.key, v.data) := by
  refine ⟨mem_of_lookup, ?_⟩
  rintro ⟨hr, rfl⟩
  cases hl : lookup s (v.key, v.data) with
  | none => exact absurd rfl (lookup_eq_none.mp hl uid v hr)
  | some r =>
    obtain ⟨uid', v'⟩ := r
    obtain ⟨hr', hp⟩ := mem_of_lookup hl
    obtain ⟨hkey, hdata⟩ := Prod.mk.inj hp
    obtain rfl := h.unique uid uid' v v' hr hr' hkey hdata
    rw [Option.some.inj (s.value_unique hr hr')]

/-- The records determine the map. -/
theorem Wellformed.lookup_eq {s : ObjectStore Stored} (h : Wellformed s)
    {m : List Int × List Int → Option (Nat × Datum)}
    (hm : ∀ p uid v, m p = some (uid, v) ↔ (uid, some v) ∈ s.records ∧ p = (v.key, v.data)) :
    lookup s = m := by
  funext p
  refine Option.ext fun r => ?_
  obtain ⟨uid, v⟩ := r
  rw [h.lookup_eq_some, hm]

theorem key_inj : Function.Injective fun k : List Int => IndexedDB.Key.array (k.map .number) := by
  intro k k' h
  have hl : k.map IndexedDB.Key.number = k'.map IndexedDB.Key.number := by simpa using h
  exact List.map_injective_iff.mpr (fun a b hab => by simpa using hab) hl

/-- What the cursor of a key visits. -/
theorem mem_visited_key {s : ObjectStore Stored} (h : Wellformed s) {key : List Int}
    {e : Entry Stored} : e ∈ Cursor.visited s byKey (keyRange key) .next ↔
      ∃ v, e.value = some v ∧ (e.primaryKey, some v) ∈ s.records ∧ v.key = key ∧
        e.key = .array [.array (key.map .number), .number e.primaryKey] := by
  rw [Cursor.mem_visited, Cursor.mem_entries]
  constructor
  · rintro ⟨hr, hk, hc⟩
    obtain ⟨v, hv, hkey⟩ := Option.map_eq_some_iff.mp hk
    rw [hv] at hr
    rw [keyRange, Range.contains_bound, ← hkey] at hc
    obtain ⟨hlower, hupper⟩ := hc
    rw [← not_lt, IndexedDB.Key.array_lt_array] at hlower hupper
    have heq : IndexedDB.Key.array (v.key.map .number) = .array (key.map .number) :=
      le_antisymm (le_of_not_gt fun hlt => hupper (.inl hlt)) (le_of_not_gt fun hlt =>
        hlower (.inl hlt))
    obtain rfl := key_inj heq
    exact ⟨v, hv, hr, rfl, hkey.symm⟩
  · rintro ⟨v, hv, hr, rfl, hkey⟩
    refine ⟨by rw [hv]; exact hr, by rw [hv, hkey]; rfl, ?_⟩
    have hle : (e.primaryKey : Int) ≤ Double.maxValue :=
      Double.le_maxValue (ObjectStore.le_maxGenerated h.bounded hr)
    rw [keyRange, Range.contains_bound, hkey, ← not_lt, ← not_lt, IndexedDB.Key.array_lt_array,
      IndexedDB.Key.array_lt_array, IndexedDB.Key.array_lt_array]
    simp [IndexedDB.Key.not_array_lt_nil, hle]

/-- The walk of a cursor over the records of a key finds the record with the data. -/
theorem find_visited_key {s : ObjectStore Stored} (h : Wellformed s) {key data : List Int}
    {size : Nat} (hlen : data.length = size) :
    (lookup s (key, data) = none ∧ (Cursor.visited s byKey (keyRange key) .next).find?
      (fun e => e.value.any (sameData size data)) = none) ∨
    ∃ uid v e, lookup s (key, data) = some (uid, v) ∧
      (Cursor.visited s byKey (keyRange key) .next).find?
        (fun e => e.value.any (sameData size data)) = some e ∧
      e.primaryKey = uid ∧ e.value = some v := by
  cases hf : (Cursor.visited s byKey (keyRange key) .next).find?
      fun e => e.value.any (sameData size data) with
  | none =>
    refine .inl ⟨?_, rfl⟩
    rw [lookup_eq_none]
    rintro uid v hr hp
    obtain ⟨rfl, rfl⟩ := Prod.mk.inj hp
    have hmem : ⟨.array [.array (v.key.map .number), .number uid], uid, some v⟩ ∈
        Cursor.visited s byKey (keyRange v.key) .next :=
      (mem_visited_key h).mpr ⟨v, rfl, hr, rfl, rfl⟩
    have hno := List.find?_eq_none.mp hf _ hmem
    exact hno (by simpa using (sameData_iff hlen).mpr rfl)
  | some e =>
    obtain ⟨v, hv, hr, rfl, _⟩ := (mem_visited_key h).mp (List.mem_of_find?_eq_some hf)
    have hsame := List.find?_some hf
    rw [hv, Option.any_some, sameData_iff hlen] at hsame
    exact .inr ⟨e.primaryKey, v, e, h.lookup_eq_some.mpr ⟨hr, by rw [hsame]⟩, rfl, rfl, hv⟩

/-! ## The transactions -/

section Commits

variable {answer : Call → Int} {s : ObjectStore Stored}

theorem doPut_commits (hg : s.generator ≤ maxGenerated) (datum : Datum) (size : Nat)
    (cont contCls keyPointer : Ptr) :
    Transaction.Commits answer () s (doPut datum size cont contCls keyPointer)
      [.cont cont contCls keyPointer size 1] ((s.add none).put s.generator (some datum)) := by
  have hadd : (Request.add none).perform s = some (s.add none, .key s.generator) := by
    simp [Request.perform, hg]
  exact .request hadd rfl (.request rfl rfl (.call (.done _ _)))

/-- The search for the record of a key and data. -/
theorem search_commits (h : Wellformed s) {key data : List Int} {size : Nat}
    (hlen : data.length = size) {onsuccess : Result Stored → Script Stored Call Unit}
    {onerror : Script Stored Call Unit} {os : List Call} {s' : ObjectStore Stored}
    (hskip : ∀ e v, e.value = some v → ¬ sameData size data v →
      onsuccess (.cursor (some e)) = .continue .done)
    (hfound : ∀ e v, e.value = some v → sameData size data v →
      lookup s (key, data) = some (e.primaryKey, v) →
        (∀ resume, (onsuccess (.cursor (some e))).run answer resume () =
          (onsuccess (.cursor (some e))).run answer [] ()) ∧
        Transaction.Commits answer () s (onsuccess (.cursor (some e))) os s')
    (hnone : lookup s (key, data) = none →
      (∀ resume, (onsuccess (.cursor none)).run answer resume () =
        (onsuccess (.cursor none)).run answer [] ()) ∧
      Transaction.Commits answer () s (onsuccess (.cursor none)) os s') :
    Transaction.Commits answer () s
      (.request (.cursor ⟨byKey, keyRange key, .next, none⟩) onsuccess onerror .done) os s' := by
  have hstop : (∀ resume, (onsuccess (.cursor ((Cursor.visited s byKey (keyRange key) .next).find?
        fun e => e.value.any (sameData size data)))).run answer resume () =
      (onsuccess (.cursor ((Cursor.visited s byKey (keyRange key) .next).find?
        fun e => e.value.any (sameData size data)))).run answer [] ()) ∧
      Transaction.Commits answer () s (onsuccess (.cursor ((Cursor.visited s byKey (keyRange key)
        .next).find? fun e => e.value.any (sameData size data)))) os s' := by
    rcases find_visited_key h hlen with ⟨hl, hf⟩ | ⟨uid, v, e, hl, hf, rfl, hv⟩
    · rw [hf]
      exact hnone hl
    · have hsame := List.find?_some hf
      rw [hv, Option.any_some] at hsame
      rw [hf]
      exact hfound e v hv hsame hl
  refine Transaction.Commits.find (p := fun e => e.value.any (sameData size data)) (by simp)
    (fun e he hp => ?_) hstop.1 hstop.2
  obtain ⟨v, hv, _⟩ := (mem_visited_key h).mp he
  rw [hv, Option.any_some] at hp
  exact hskip e v hv hp

/-- What a put does to the store, and its status. -/
def putResult (s : ObjectStore Stored) (datum : Datum) : ObjectStore Stored × Int :=
  match lookup s (datum.key, datum.data) with
  | none => ((s.add none).put s.generator (some datum), 1)
  | some (uid, v) =>
    (s.put uid (some (merge v datum.priority datum.replication datum.expiry)), 0)

theorem put_commits (h : Wellformed s) {heap8 : Heap8} {keyPointer : Ptr} {absent : Bool}
    {dataPointer : Ptr} {size : Nat} {type priority anonymity replication expiry : Int}
    {cont contCls : Ptr}
    (hg : lookup s (slice heap8 keyPointer 64, slice heap8 dataPointer size) = none →
      s.generator ≤ maxGenerated)
    (habsent : absent → ∀ uid v, (uid, some v) ∈ s.records → v.key ≠ slice heap8 keyPointer 64) :
    Transaction.Commits answer () s
      (putInt heap8 keyPointer absent dataPointer size type priority anonymity replication expiry
        cont contCls)
      [.cont cont contCls keyPointer size (putResult s ⟨slice heap8 keyPointer 64,
        slice heap8 dataPointer size, type, priority, anonymity, replication, expiry⟩).2]
      (putResult s ⟨slice heap8 keyPointer 64, slice heap8 dataPointer size, type, priority,
        anonymity, replication, expiry⟩).1 := by
  have hlen := length_slice heap8 dataPointer size
  cases absent with
  | true =>
    have hnone : lookup s (slice heap8 keyPointer 64, slice heap8 dataPointer size) = none := by
      rw [lookup_eq_none]
      intro uid v hr hp
      exact habsent rfl uid v hr (Prod.mk.inj hp).1.symm
    simp only [putResult, hnone, putInt, if_true]
    exact doPut_commits (hg hnone) _ _ _ _ _
  | false =>
    refine search_commits h hlen (fun e v hv hp => by simp [hv, hp]) (fun e v hv hp hl => ?_)
      fun hl => ?_
    · simp only [putResult, hl, hv, hp, not_true, if_false]
      exact ⟨fun _ => rfl, .request rfl rfl (.call (.done _ _))⟩
    · simp only [putResult, hl]
      exact ⟨fun _ => rfl, doPut_commits (hg hl) _ _ _ _ _⟩

/-- What a removal does to the store, and its status. -/
def removeResult (s : ObjectStore Stored) (p : List Int × List Int) : ObjectStore Stored × Int :=
  match lookup s p with
  | none => (s, 0)
  | some (uid, _) => (s.delete uid, 1)

theorem remove_commits (h : Wellformed s) {heap8 : Heap8} {keyPointer : Ptr} {size : Nat}
    {dataPointer : Ptr} {cont contCls : Ptr} :
    Transaction.Commits answer () s (removeKeyInt heap8 keyPointer size dataPointer cont contCls)
      [.cont cont contCls keyPointer size
        (removeResult s (slice heap8 keyPointer 64, slice heap8 dataPointer size)).2]
      (removeResult s (slice heap8 keyPointer 64, slice heap8 dataPointer size)).1 := by
  refine search_commits h (length_slice heap8 dataPointer size) (fun e v hv hp => by simp [hv, hp])
    (fun e v hv hp hl => ?_) fun hl => ?_
  · simp only [removeResult, hl, hv, hp, not_true, if_false]
    exact ⟨fun _ => rfl, .request rfl rfl (.call (.done _ _))⟩
  · simp only [removeResult, hl]
    exact ⟨fun _ => rfl, .call (.done _ _)⟩

/-- The record that the processor gets, and the store after that. -/
def getReplicationResult (s : ObjectStore Stored) : ObjectStore Stored × Option (Nat × Datum) :=
  match (Cursor.visited s byReplication .all .prev).head? with
  | none => (s, none)
  | some e =>
    match e.value with
    | none => (s, none)
    | some v =>
      let v := if 0 < v.replication
        then { v with replication := Double.add v.replication (-1) } else v
      (s.put e.primaryKey (some v), some (e.primaryKey, v))

/-- An index on a property has no empty object. -/
theorem value_of_mem_visited {index : Index Stored} (hindex : ∀ uid, index uid none = none)
    {range : Range} {direction : Direction} {e : Entry Stored}
    (he : e ∈ Cursor.visited s index range direction) :
    ∃ v, e.value = some v ∧ (e.primaryKey, some v) ∈ s.records := by
  rw [Cursor.mem_visited, Cursor.mem_entries] at he
  obtain ⟨hr, hk, _⟩ := he
  cases hv : e.value with
  | none =>
    rw [hv, hindex] at hk
    cases hk
  | some v => exact ⟨v, rfl, hv ▸ hr⟩

theorem getReplication_commits (s : ObjectStore Stored) (proc procCls : Ptr) :
    Transaction.Commits answer () s (getReplicationInt proc procCls)
      [.proc proc procCls (getReplicationResult s).2] (getReplicationResult s).1 := by
  cases hf : (Cursor.visited s byReplication .all .prev).head? with
  | none =>
    refine .first (by rw [hf]; exact fun _ => rfl) ?_
    simp only [getReplicationResult, hf]
    exact .call (.done _ _)
  | some e =>
    obtain ⟨v, hv, _⟩ := value_of_mem_visited (fun _ => rfl) (List.mem_of_head? hf)
    refine .first (by rw [hf]; simp only [hv]; exact fun _ => rfl) ?_
    simp only [getReplicationResult, hf, hv]
    exact .request rfl rfl (.call (.done _ _))

/-- The record that the processor gets, and the store when it has answered `ret`. -/
def getExpirationResult (s : ObjectStore Stored) (now : Int) :
    Option (Nat × Datum) × (Int → ObjectStore Stored) :=
  match (Cursor.visited s byExpiry (.upperBound (.number now) true) .next).head? with
  | none => (none, fun _ => s)
  | some e =>
    match e.value with
    | none => (none, fun _ => s)
    | some v => (some (e.primaryKey, v), fun ret => if ret = 0 then s.delete e.primaryKey else s)

theorem getExpiration_commits (s : ObjectStore Stored) (proc procCls : Ptr) (now : Int) :
    Transaction.Commits answer () s (getExpirationInt proc procCls now)
      [.proc proc procCls (getExpirationResult s now).1]
      ((getExpirationResult s now).2
        (answer (.proc proc procCls (getExpirationResult s now).1))) := by
  cases hf : (Cursor.visited s byExpiry (.upperBound (.number now) true) .next).head? with
  | none =>
    refine .first (by rw [hf]; exact fun _ => rfl) ?_
    simp only [getExpirationResult, hf]
    exact .call (.done _ _)
  | some e =>
    obtain ⟨v, hv, _⟩ := value_of_mem_visited (fun _ => rfl) (List.mem_of_head? hf)
    refine .first ?_ ?_
    · intro resume
      rw [hf]
      simp only [hv, Script.run]
      split <;> rfl
    · simp only [getExpirationResult, hf, hv]
      refine .call ?_
      by_cases hret : answer (.proc proc procCls (some (e.primaryKey, v))) = 0
      · simp only [hret, if_true]
        exact .request rfl rfl (.done _ _)
      · simp only [hret, if_false]
        exact .done _ _

end Commits

/-! ## What the changes do to the map -/

section Changes

variable {s : ObjectStore Stored}

/-- A map that is changed at the key and data of one record. -/
theorem update_iff {m : List Int × List Int → Option (Nat × Datum)} {d : Datum}
    {r : Option (Nat × Datum)} {p : List Int × List Int} {uid : Nat} {v : Datum} :
    Function.update m (d.key, d.data) r p = some (uid, v) ↔
      p = (d.key, d.data) ∧ r = some (uid, v) ∨ p ≠ (d.key, d.data) ∧ m p = some (uid, v) := by
  by_cases hp : p = (d.key, d.data)
  · subst hp
    simp
  · simp [hp]

theorem Wellformed.insert (h : Wellformed s) {d : Datum} (hl : lookup s (d.key, d.data) = none)
    (hg : s.generator ≤ maxGenerated) :
    Wellformed ((s.add none).put s.generator (some d)) ∧
      lookup ((s.add none).put s.generator (some d)) =
        Function.update (lookup s) (d.key, d.data) (some (s.generator, d)) := by
  have hrecords : ∀ r, r ∈ ((s.add none).put s.generator (some d)).records ↔
      r = (s.generator, some d) ∨ r ∈ s.records := by
    intro r
    rw [ObjectStore.mem_records_put, ObjectStore.mem_records_add]
    refine or_congr_right ⟨fun hr => hr.2.resolve_right fun he => hr.1 (by rw [he]), fun hr => ?_⟩
    exact ⟨Nat.ne_of_lt (s.below r hr), .inl hr⟩
  have hnew := lookup_eq_none.mp hl
  have hw : Wellformed ((s.add none).put s.generator (some d)) := by
    refine ⟨fun r hr => ?_, fun uid uid' v v' hr hr' hkey hdata => ?_, ?_⟩
    · rcases (hrecords r).mp hr with rfl | hr
      · simp
      · exact h.full r hr
    · rcases (hrecords _).mp hr with he | hr
      · cases he
        rcases (hrecords _).mp hr' with he | hr'
        · cases he
          rfl
        · exact absurd (by rw [hkey, hdata]) (hnew uid' v' hr')
      · rcases (hrecords _).mp hr' with he | hr'
        · cases he
          exact absurd (by rw [hkey, hdata]) (hnew uid v hr)
        · exact h.unique uid uid' v v' hr hr' hkey hdata
    · exact max_le (Nat.succ_le_succ hg) (Nat.succ_le_succ hg)
  refine ⟨hw, hw.lookup_eq fun p uid v => ?_⟩
  rw [update_iff, hrecords, h.lookup_eq_some]
  constructor
  · rintro (⟨rfl, he⟩ | ⟨_, hr, rfl⟩)
    · cases he
      exact ⟨.inl rfl, rfl⟩
    · exact ⟨.inr hr, rfl⟩
  · rintro ⟨he | hr, rfl⟩
    · cases he
      exact .inl ⟨rfl, rfl⟩
    · exact .inr ⟨fun he => hnew uid v hr he.symm, hr, rfl⟩

theorem Wellformed.replace (h : Wellformed s) {uid : Nat} {v d : Datum}
    (hr : (uid, some v) ∈ s.records) (hkey : d.key = v.key) (hdata : d.data = v.data) :
    Wellformed (s.put uid (some d)) ∧ lookup (s.put uid (some d)) =
      Function.update (lookup s) (d.key, d.data) (some (uid, d)) := by
  have hw : Wellformed (s.put uid (some d)) := by
    refine ⟨fun r hr' => ?_, fun u u' x x' hx hx' hk hd => ?_, ?_⟩
    · rcases ObjectStore.mem_records_put.mp hr' with rfl | ⟨_, hr'⟩
      · simp
      · exact h.full r hr'
    · have hold : ∀ {u x}, (u, some x) ∈ (s.put uid (some d)).records →
          ∃ y, (u, some y) ∈ s.records ∧ y.key = x.key ∧ y.data = x.data := by
        intro u x hx
        rcases ObjectStore.mem_records_put.mp hx with he | ⟨_, hx⟩
        · cases he
          exact ⟨v, hr, hkey.symm, hdata.symm⟩
        · exact ⟨x, hx, rfl, rfl⟩
      obtain ⟨y, hy, hyk, hyd⟩ := hold hx
      obtain ⟨y', hy', hyk', hyd'⟩ := hold hx'
      exact h.unique u u' y y' hy hy' (by rw [hyk, hyk', hk]) (by rw [hyd, hyd', hd])
    · exact max_le h.bounded (Nat.succ_le_of_lt (Nat.lt_of_lt_of_le (s.below _ hr) h.bounded))
  refine ⟨hw, hw.lookup_eq fun p u x => ?_⟩
  rw [update_iff, ObjectStore.mem_records_put, h.lookup_eq_some]
  constructor
  · rintro (⟨rfl, he⟩ | ⟨hp, hx, rfl⟩)
    · cases he
      exact ⟨.inl rfl, rfl⟩
    · refine ⟨.inr ⟨?_, hx⟩, rfl⟩
      rintro rfl
      have := Option.some.inj (s.value_unique hr hx)
      exact hp (by rw [hkey, hdata, this])
  · rintro ⟨he | ⟨hne, hx⟩, rfl⟩
    · cases he
      exact .inl ⟨rfl, rfl⟩
    · refine .inr ⟨fun he => hne ?_, hx, rfl⟩
      obtain ⟨hk, hd⟩ := Prod.mk.inj he
      exact h.unique u uid x v hx hr (hk.trans hkey) (hd.trans hdata)

theorem Wellformed.erase (h : Wellformed s) {uid : Nat} {v : Datum}
    (hr : (uid, some v) ∈ s.records) :
    Wellformed (s.delete uid) ∧
      lookup (s.delete uid) = Function.update (lookup s) (v.key, v.data) none := by
  have hw : Wellformed (s.delete uid) :=
    ⟨fun r hr' => h.full r (ObjectStore.mem_records_delete.mp hr').2,
      fun u u' x x' hx hx' => h.unique u u' x x' (ObjectStore.mem_records_delete.mp hx).2
        (ObjectStore.mem_records_delete.mp hx').2, h.bounded⟩
  refine ⟨hw, hw.lookup_eq fun p u x => ?_⟩
  rw [update_iff, ObjectStore.mem_records_delete, h.lookup_eq_some]
  constructor
  · rintro (⟨_, he⟩ | ⟨hp, hx, rfl⟩)
    · cases he
    · refine ⟨⟨?_, hx⟩, rfl⟩
      rintro rfl
      exact hp (by rw [Option.some.inj (s.value_unique hr hx)])
  · rintro ⟨⟨hne, hx⟩, rfl⟩
    refine .inr ⟨fun he => hne ?_, hx, rfl⟩
    obtain ⟨hk, hd⟩ := Prod.mk.inj he
    exact h.unique u uid x v hx hr hk hd

/-- A put adds the record, or merges it into the one with its key and data. -/
theorem lookup_putResult (h : Wellformed s) {d : Datum}
    (hg : lookup s (d.key, d.data) = none → s.generator ≤ maxGenerated) :
    Wellformed (putResult s d).1 ∧ s.generator ≤ (putResult s d).1.generator ∧
      (lookup s (d.key, d.data) = none →
        lookup (putResult s d).1 =
          Function.update (lookup s) (d.key, d.data) (some (s.generator, d)) ∧
        (putResult s d).2 = 1) ∧
      ∀ uid v, lookup s (d.key, d.data) = some (uid, v) →
        lookup (putResult s d).1 = Function.update (lookup s) (d.key, d.data) (some (uid, { v with
          priority := Double.add v.priority d.priority
          replication := Double.add v.replication d.replication
          expiry := max v.expiry d.expiry })) ∧
        (putResult s d).2 = 0 := by
  cases hl : lookup s (d.key, d.data) with
  | none =>
    obtain ⟨hw, hm⟩ := h.insert hl (hg hl)
    have hresult : putResult s d = ((s.add none).put s.generator (some d), 1) := by
      simp only [putResult, hl]
    rw [hresult]
    refine ⟨hw, ?_, fun _ => ⟨hm, rfl⟩, fun _ _ hv => nomatch hv⟩
    exact Nat.le_trans (Nat.le_succ _) (Nat.le_max_left _ _)
  | some r =>
    obtain ⟨uid, v⟩ := r
    obtain ⟨hr, hp⟩ := mem_of_lookup hl
    obtain ⟨hkey, hdata⟩ := Prod.mk.inj hp
    have hmax : (if v.expiry < d.expiry then d.expiry else v.expiry) = max v.expiry d.expiry := by
      split <;> omega
    obtain ⟨hw, hm⟩ := h.replace (d := merge v d.priority d.replication d.expiry) hr rfl rfl
    have hresult : putResult s d =
        (s.put uid (some (merge v d.priority d.replication d.expiry)), 0) := by
      simp only [putResult, hl]
    rw [hresult]
    refine ⟨hw, Nat.le_max_left _ _, fun hn => (nomatch hn), fun uid' v' hv => ?_⟩
    cases hv
    rw [merge, hmax] at hm
    refine ⟨?_, rfl⟩
    rw [merge, hmax, hm, hkey, hdata]

/-- A removal deletes the record with the key and data. -/
theorem lookup_removeResult (h : Wellformed s) (p : List Int × List Int) :
    Wellformed (removeResult s p).1 ∧ s.generator ≤ (removeResult s p).1.generator ∧
      (lookup s p = none → removeResult s p = (s, 0)) ∧
      (lookup s p ≠ none → lookup (removeResult s p).1 = Function.update (lookup s) p none ∧
        (removeResult s p).2 = 1) := by
  cases hl : lookup s p with
  | none =>
    have hresult : removeResult s p = (s, 0) := by simp only [removeResult, hl]
    rw [hresult]
    exact ⟨h, Nat.le_refl _, fun _ => rfl, fun hn => absurd rfl hn⟩
  | some r =>
    obtain ⟨uid, v⟩ := r
    obtain ⟨hr, hp⟩ := mem_of_lookup hl
    obtain ⟨hw, hm⟩ := h.erase hr
    have hresult : removeResult s p = (s.delete uid, 1) := by simp only [removeResult, hl]
    rw [hresult]
    exact ⟨hw, Nat.le_refl _, fun hn => (nomatch hn), fun _ => ⟨by rw [hm, hp], rfl⟩⟩

/-- The record that is returned has another replication afterwards. -/
theorem lookup_getReplicationResult (h : Wellformed s) :
    Wellformed (getReplicationResult s).1 ∧ s.generator ≤ (getReplicationResult s).1.generator ∧
      ((getReplicationResult s).1 = s ∨
        ∃ uid v replication, lookup s (v.key, v.data) = some (uid, v) ∧
          lookup (getReplicationResult s).1 =
            Function.update (lookup s) (v.key, v.data) (some (uid, { v with replication }))) := by
  cases hf : (Cursor.visited s byReplication .all .prev).head? with
  | none =>
    have hresult : (getReplicationResult s).1 = s := by simp only [getReplicationResult, hf]
    rw [hresult]
    exact ⟨h, Nat.le_refl _, .inl rfl⟩
  | some e =>
    obtain ⟨v, hv, hr⟩ := value_of_mem_visited (fun _ => rfl) (List.mem_of_head? hf)
    have hl := h.lookup_eq_some.mpr ⟨hr, rfl⟩
    simp only [getReplicationResult, hf, hv]
    split
    · obtain ⟨hw, hm⟩ := h.replace
        (d := { v with replication := Double.add v.replication (-1) }) hr rfl rfl
      exact ⟨hw, Nat.le_max_left _ _, .inr ⟨_, v, _, hl, hm⟩⟩
    · obtain ⟨hw, hm⟩ := h.replace (d := v) hr rfl rfl
      exact ⟨hw, Nat.le_max_left _ _, .inr ⟨_, v, v.replication, hl, hm⟩⟩

/-- The record that is returned stays, or is deleted. -/
theorem lookup_getExpirationResult (h : Wellformed s) (now ret : Int) :
    Wellformed ((getExpirationResult s now).2 ret) ∧
      s.generator ≤ ((getExpirationResult s now).2 ret).generator ∧
      ((getExpirationResult s now).2 ret = s ∨
        ∃ uid v, lookup s (v.key, v.data) = some (uid, v) ∧
          lookup ((getExpirationResult s now).2 ret) =
            Function.update (lookup s) (v.key, v.data) none) := by
  cases hf : (Cursor.visited s byExpiry (.upperBound (.number now) true) .next).head? with
  | none =>
    have hresult : (getExpirationResult s now).2 ret = s := by
      simp only [getExpirationResult, hf]
    rw [hresult]
    exact ⟨h, Nat.le_refl _, .inl rfl⟩
  | some e =>
    obtain ⟨v, hv, hr⟩ := value_of_mem_visited (fun _ => rfl) (List.mem_of_head? hf)
    have hl := h.lookup_eq_some.mpr ⟨hr, rfl⟩
    simp only [getExpirationResult, hf, hv]
    split
    · obtain ⟨hw, hm⟩ := h.erase hr
      exact ⟨hw, Nat.le_refl _, .inr ⟨_, v, hl, hm⟩⟩
    · exact ⟨h, Nat.le_refl _, .inl rfl⟩

end Changes

/-! ## Runs -/

/-- No request fails, and `absent` is passed only when the key is. -/
def Op.Allowed (s : ObjectStore Stored) : Op → Prop
  | put heap8 keyPointer absent dataPointer size _ _ _ _ _ _ _ =>
    (absent → ∀ uid v, (uid, some v) ∈ s.records → v.key ≠ slice heap8 keyPointer 64) ∧
      (lookup s (slice heap8 keyPointer 64, slice heap8 dataPointer size) = none →
        s.generator ≤ maxGenerated)
  | _ => True

/-- What a call does to the map: `s` and `s'` are the stores before and after it, and
`states` are all stores so far. -/
def Op.Meets (states : List (ObjectStore Stored)) (s : ObjectStore Stored) (os : List Call)
    (s' : ObjectStore Stored) : Op → Prop
  | put heap8 keyPointer _ dataPointer size type priority anonymity replication expiry cont
      contCls =>
    let key := slice heap8 keyPointer 64
    let data := slice heap8 dataPointer size
    (lookup s (key, data) = none → ∃ uid, (∀ t ∈ states, ∀ value, (uid, value) ∉ t.records) ∧
      lookup s' = Function.update (lookup s) (key, data)
        (some (uid, ⟨key, data, type, priority, anonymity, replication, expiry⟩)) ∧
      os = [.cont cont contCls keyPointer size 1]) ∧
    ∀ uid v, lookup s (key, data) = some (uid, v) →
      lookup s' = Function.update (lookup s) (key, data) (some (uid, { v with
        priority := Double.add v.priority priority
        replication := Double.add v.replication replication
        expiry := max v.expiry expiry })) ∧
      os = [.cont cont contCls keyPointer size 0]
  | removeKey heap8 keyPointer size dataPointer cont contCls =>
    let key := slice heap8 keyPointer 64
    let data := slice heap8 dataPointer size
    (lookup s (key, data) = none → s' = s ∧ os = [.cont cont contCls keyPointer size 0]) ∧
    (lookup s (key, data) ≠ none → lookup s' = Function.update (lookup s) (key, data) none ∧
      os = [.cont cont contCls keyPointer size 1])
  | getReplication proc procCls =>
    (∃ datum, os = [.proc proc procCls datum]) ∧ (s' = s ∨
      ∃ uid v replication, lookup s (v.key, v.data) = some (uid, v) ∧
        lookup s' = Function.update (lookup s) (v.key, v.data) (some (uid, { v with replication })))
  | getExpiration proc procCls _ =>
    (∃ datum, os = [.proc proc procCls datum]) ∧ (s' = s ∨
      ∃ uid v, lookup s (v.key, v.data) = some (uid, v) ∧
        lookup s' = Function.update (lookup s) (v.key, v.data) none)

/-- The stores that sequences of calls lead to, with all stores on the way. -/
inductive Reaches : List (ObjectStore Stored) → ObjectStore Stored → Prop
  | start : Reaches [.empty] .empty
  | call {states : List (ObjectStore Stored)} {s s' : ObjectStore Stored} {op : Op}
      {answer : Call → Int} {os : List Call} : Reaches states s → op.Allowed s →
        Transaction.Commits answer () s op.script os s' → Reaches (s' :: states) s'

/-- The invariant of a run: no uid of the stores so far is generated again. -/
structure Inv (states : List (ObjectStore Stored)) (s : ObjectStore Stored) : Prop where
  wellformed : Wellformed s
  used : ∀ t ∈ states, ∀ r ∈ t.records, r.1 < s.generator

/-- **What a call does.** -/
theorem op_meets {states : List (ObjectStore Stored)} {s : ObjectStore Stored} (h : Inv states s)
    {op : Op} (hok : op.Allowed s) (answer : Call → Int) :
    ∃ os s', Transaction.Commits answer () s op.script os s' ∧ Wellformed s' ∧
      s.generator ≤ s'.generator ∧ op.Meets states s os s' := by
  obtain ⟨hw, hused⟩ := h
  cases op with
  | put heap8 keyPointer absent dataPointer size type priority anonymity replication expiry cont
      contCls =>
    obtain ⟨habsent, hg⟩ := hok
    obtain ⟨hw', hle, hnew, hold⟩ := lookup_putResult hw (d := ⟨slice heap8 keyPointer 64,
      slice heap8 dataPointer size, type, priority, anonymity, replication, expiry⟩) hg
    refine ⟨_, _, put_commits hw hg habsent, hw', hle, fun hl => ?_, fun uid v hv => ?_⟩
    · obtain ⟨hm, hstatus⟩ := hnew hl
      refine ⟨s.generator, fun t ht value hr => ?_, hm, by rw [hstatus]⟩
      exact Nat.lt_irrefl _ (hused t ht _ hr)
    · obtain ⟨hm, hstatus⟩ := hold uid v hv
      exact ⟨hm, by rw [hstatus]⟩
  | removeKey heap8 keyPointer size dataPointer cont contCls =>
    obtain ⟨hw', hle, hnone, hsome⟩ :=
      lookup_removeResult hw (slice heap8 keyPointer 64, slice heap8 dataPointer size)
    refine ⟨_, _, remove_commits hw, hw', hle, fun hl => ?_, fun hl => ?_⟩
    · rw [hnone hl]
      exact ⟨rfl, rfl⟩
    · obtain ⟨hm, hstatus⟩ := hsome hl
      exact ⟨hm, by rw [hstatus]⟩
  | getReplication proc procCls =>
    obtain ⟨hw', hle, hm⟩ := lookup_getReplicationResult hw
    exact ⟨_, _, getReplication_commits s proc procCls, hw', hle, ⟨_, rfl⟩, hm⟩
  | getExpiration proc procCls now =>
    obtain ⟨hw', hle, hm⟩ := lookup_getExpirationResult hw now
      (answer (.proc proc procCls (getExpirationResult s now).1))
    exact ⟨_, _, getExpiration_commits s proc procCls now, hw', hle, ⟨_, rfl⟩, hm⟩

/-- **The invariant holds in every run.** -/
theorem Reaches.inv {states : List (ObjectStore Stored)} {s : ObjectStore Stored}
    (h : Reaches states s) : Inv states s := by
  induction h with
  | start =>
    exact ⟨⟨by simp [ObjectStore.empty], by simp [ObjectStore.empty], by decide⟩,
      by simp [ObjectStore.empty]⟩
  | @call states s s' op answer os _ hok hc ih =>
    obtain ⟨os', t, hc', hw, hg, _⟩ := op_meets ih hok answer
    obtain ⟨rfl, rfl⟩ := hc.unique hc'
    refine ⟨hw, fun t ht r hr => ?_⟩
    rcases List.mem_cons.mp ht with rfl | ht
    · exact t.below r hr
    · exact Nat.lt_of_lt_of_le (ih.used t ht r hr) hg

/-- **The datastore is a map.**  In every run, the records are those of a map from key
and data; each call that is allowed commits, in one way, and does to the map what
`Op.Meets` says. -/
theorem datastore_map {states : List (ObjectStore Stored)} {s : ObjectStore Stored}
    (h : Reaches states s) :
    (∀ uid value, (uid, value) ∈ s.records ↔
      ∃ v, value = some v ∧ lookup s (v.key, v.data) = some (uid, v)) ∧
    ∀ op : Op, op.Allowed s → ∀ answer, ∃ os s', Transaction.Commits answer () s op.script os s' ∧
      (∀ os' t, Transaction.Commits answer () s op.script os' t → os' = os ∧ t = s') ∧
      op.Meets states s os s' := by
  have hinv := h.inv
  constructor
  · intro uid value
    constructor
    · intro hr
      obtain ⟨v, rfl⟩ := Option.ne_none_iff_exists'.mp (hinv.wellformed.full _ hr)
      exact ⟨v, rfl, hinv.wellformed.lookup_eq_some.mpr ⟨hr, rfl⟩⟩
    · rintro ⟨v, rfl, hl⟩
      exact (mem_of_lookup hl).1
  · intro op hok answer
    obtain ⟨os, s', hc, _, _, hm⟩ := op_meets hinv hok answer
    exact ⟨os, s', hc, fun os' t hc' => hc'.unique hc, hm⟩

/-- A put of one datum, with its priority, its replication and its expiry. -/
def putThree (absent : Bool) (priority replication expiry : Int) : Op :=
  .put (fun _ => 7) 100 absent 200 3 1 priority 2 replication expiry 11 12

/-- A datum is put, put again, and removed. -/
theorem datastore_map_put_put_remove : ∃ s₁ s₂ s₃ uid,
    Transaction.Commits (fun _ => 0) () .empty (putThree true 10 1 5000).script
      [.cont 11 12 100 3 1] s₁ ∧
    Transaction.Commits (fun _ => 0) () s₁ (putThree false 20 3 4000).script
      [.cont 11 12 100 3 0] s₂ ∧
    lookup s₂ (List.replicate 64 7, [7, 7, 7]) =
      some (uid, ⟨List.replicate 64 7, [7, 7, 7], 1, 30, 2, 4, 5000⟩) ∧
    Transaction.Commits (fun _ => 0) () s₂ (Op.removeKey (fun _ => 7) 100 3 200 13 14).script
      [.cont 13 14 100 3 1] s₃ ∧
    lookup s₃ (List.replicate 64 7, [7, 7, 7]) = none := by
  have hempty : (putThree true 10 1 5000).Allowed .empty := ⟨by simp [ObjectStore.empty],
    fun _ => by decide⟩
  obtain ⟨os₁, s₁, hc₁, -, hnew, -⟩ := (datastore_map .start).2 _ hempty fun _ => 0
  obtain ⟨uid, -, hl₁, rfl⟩ := hnew rfl
  have hreaches₁ := Reaches.start.call hempty hc₁
  have hstored : lookup s₁ (List.replicate 64 7, [7, 7, 7]) =
      some (uid, ⟨List.replicate 64 7, [7, 7, 7], 1, 10, 2, 1, 5000⟩) := by
    rw [hl₁]
    exact Function.update_self _ _ _
  have hagain : (putThree false 20 3 4000).Allowed s₁ :=
    ⟨fun h => absurd h Bool.false_ne_true,
      fun hnone => absurd (hstored.symm.trans hnone) (Option.some_ne_none _)⟩
  obtain ⟨os₂, s₂, hc₂, -, -, hmerge⟩ := (datastore_map hreaches₁).2 _ hagain fun _ => 0
  obtain ⟨hl₂, rfl⟩ := hmerge uid _ hstored
  have hmerged : lookup s₂ (List.replicate 64 7, [7, 7, 7]) =
      some (uid, ⟨List.replicate 64 7, [7, 7, 7], 1, 30, 2, 4, 5000⟩) := by
    rw [hl₂]
    exact Function.update_self _ _ _
  obtain ⟨os₃, s₃, hc₃, -, -, hremove⟩ := (datastore_map (hreaches₁.call hagain hc₂)).2
    (.removeKey (fun _ => 7) 100 3 200 13 14) trivial fun _ => 0
  obtain ⟨hl₃, rfl⟩ :=
    hremove fun hnone => Option.some_ne_none _ (hmerged.symm.trans hnone)
  refine ⟨s₁, s₂, s₃, uid, hc₁, hc₂, hmerged, hc₃, ?_⟩
  rw [hl₃]
  exact Function.update_self _ _ _

end GnunetWeb.Datastore
