import GnunetWeb.Datastore.Runs

/-!
# Choosing a record for replication

`emscripten_plugin_get_replication` takes the last record of the index on the replication
counter, whether it has expired or not.

Proved here:

* `getReplication_last`: a call passes the last record, if there is one, and lowers its
  counter;
* `getReplication_meets_iff`: when that is what the call should do.
-/

namespace GnunetWeb.Datastore

open IndexedDB IndexedDB.Transaction

/-- The record is stored and has not expired. -/
def Live (s : ObjectStore Stored) (now : Int) (r : Nat × Datum) : Prop :=
  (r.1, some r.2) ∈ s.records ∧ ¬ r.2.expiry < now

/-- The record with its replication counter lowered by one, if it is positive. -/
def lowered (v : Datum) : Datum :=
  if 0 < v.replication then { v with replication := v.replication - 1 } else v

/-- What `emscripten_plugin_get_replication` should do at the time `now`; `datum` is what the
processor gets. -/
def ReplicationMeets (s : ObjectStore Stored) (now : Int) (datum : Option (Nat × Datum))
    (s' : ObjectStore Stored) : Prop :=
  match datum with
  | none => (∀ r, ¬ Live s now r) ∧ s' = s
  | some d => ∃ v, Live s now (d.1, v) ∧ (∀ r, Live s now r → r.2.replication ≤ v.replication) ∧
    d.2 = lowered v ∧
    ∀ x, x ∈ s'.records ↔ x = (d.1, some (lowered v)) ∨ x.1 ≠ d.1 ∧ x ∈ s.records

/-- The record has the largest counter, and the largest `uid` of the records with that. -/
def Last (s : ObjectStore Stored) (r : Nat × Datum) : Prop :=
  (r.1, some r.2) ∈ s.records ∧ ∀ r' : Nat × Datum, (r'.1, some r'.2) ∈ s.records →
    r'.2.replication < r.2.replication ∨ r'.2.replication = r.2.replication ∧ r'.1 ≤ r.1

/-- What the function makes of the record. -/
def replicated (v : Datum) : Datum :=
  if 0 < v.replication then { v with replication := Double.add v.replication (-1) } else v

theorem replicated_eq_lowered {v : Datum} : replicated v = lowered v ↔
    (0 < v.replication → Double.add v.replication (-1) = v.replication - 1) := by
  rw [replicated, lowered]
  by_cases hv : 0 < v.replication
  · rw [if_pos hv, if_pos hv, Datum.mk.injEq]
    simp [hv]
  · simp [hv]

section Replication

variable {answer : Call → Int} {s : ObjectStore Stored} {proc procCls : Ptr}

/-- The last record of a cursor that goes backwards. -/
theorem head_visited_prev {index : Index Stored} {range : Range} {e : Entry Stored}
    (h : (Cursor.visited s index range .prev).head? = some e) :
    e ∈ Cursor.entries s index range ∧
      ∀ e' ∈ Cursor.entries s index range, e'.position ≤ e.position := by
  obtain ⟨l, hl⟩ := List.head?_eq_some_iff.mp h
  refine ⟨Cursor.mem_visited.mp (hl ▸ List.mem_cons_self), fun e' he' => ?_⟩
  have hsorted := Cursor.visited_sorted s index range (show Direction.prev ≠ .nextunique by decide)
  rw [hl, List.pairwise_cons] at hsorted
  rw [← @Cursor.mem_visited _ s index range .prev, hl] at he'
  rcases List.mem_cons.mp he' with rfl | he'
  · exact le_refl _
  · exact (of_decide_eq_true (hsorted.1 e' he').1).le

theorem entry_of_record {r : Nat × Datum} (h : (r.1, some r.2) ∈ s.records) :
    ⟨.number r.2.replication, r.1, some r.2⟩ ∈ Cursor.entries s byReplication .all :=
  Cursor.mem_entries.mpr ⟨h, rfl, Range.contains_all _⟩

/-- **The last record is passed**, with a lower counter, or nothing when nothing is stored. -/
theorem getReplication_last :
    (∀ r : Nat × Datum, (r.1, some r.2) ∉ s.records) ∧
      Commits answer () s (getReplicationInt proc procCls) [.proc proc procCls none] s ∨
    ∃ r, Last s r ∧ Commits answer () s (getReplicationInt proc procCls)
      [.proc proc procCls (some (r.1, replicated r.2))] (s.put r.1 (some (replicated r.2))) := by
  have hcommits := @getReplication_commits answer s proc procCls
  cases hhead : (Cursor.visited s byReplication .all .prev).head? with
  | none =>
    simp only [getReplicationResult, hhead] at hcommits
    refine .inl ⟨fun r hr => ?_, hcommits⟩
    have hmem : _ ∈ Cursor.visited s byReplication .all .prev :=
      Cursor.mem_visited.mpr (entry_of_record hr)
    rw [List.head?_eq_none_iff.mp hhead] at hmem
    cases hmem
  | some e =>
    obtain ⟨he, hlast⟩ := head_visited_prev hhead
    obtain ⟨v, hv, hr⟩ := value_of_mem_visited (fun _ => rfl) (List.mem_of_head? hhead)
    have hkey : e.key = .number v.replication := by
      have hk := (Cursor.mem_entries.mp he).2.1
      rw [hv] at hk
      exact (Option.some.inj hk).symm
    refine .inr ⟨(e.primaryKey, v), ⟨hr, fun r' hr' => ?_⟩, ?_⟩
    · have hle := hlast _ (entry_of_record hr')
      rw [Entry.position, Entry.position, hkey, Prod.Lex.toLex_le_toLex,
        IndexedDB.Key.number_lt_number, IndexedDB.Key.number.injEq] at hle
      exact hle
    · simp only [getReplicationResult, hhead, hv] at hcommits
      exact hcommits

/-- Two records that are the last are one. -/
theorem Last.unique {r r' : Nat × Datum} (h : Last s r) (h' : Last s r') : r = r' := by
  have heq : r.1 = r'.1 := by
    rcases h.2 r' h'.1 with hlt | ⟨_, hle⟩
    · rcases h'.2 r h.1 with hlt' | ⟨he, _⟩
      · omega
      · omega
    · rcases h'.2 r h.1 with hlt' | ⟨_, hle'⟩
      · omega
      · omega
  have hmem := h'.1
  rw [← heq] at hmem
  exact Prod.ext heq (Option.some.inj (s.value_unique h.1 hmem))

/-- **The last record is what should be passed** if it has not expired. -/
theorem replicationMeets_iff {r : Nat × Datum} (h : Last s r) (now : Int) :
    ReplicationMeets s now (some (r.1, replicated r.2)) (s.put r.1 (some (replicated r.2))) ↔
      ¬ r.2.expiry < now ∧ replicated r.2 = lowered r.2 := by
  constructor
  · rintro ⟨v, hlive, -, hlowered, -⟩
    obtain rfl := Option.some.inj (s.value_unique hlive.1 h.1)
    exact ⟨hlive.2, hlowered⟩
  · rintro ⟨hlive, heq⟩
    refine ⟨r.2, ⟨h.1, hlive⟩, fun r' hr' => ?_, heq, fun x => ?_⟩
    · rcases h.2 r' hr'.1 with hlt | ⟨he, _⟩
      · exact hlt.le
      · exact he.le
    · rw [heq, ObjectStore.mem_records_put]

end Replication

/-- **Choosing a record for replication.**  A call does what it should if the record with the
largest counter has not expired, the one with the largest `uid` of these, and one can be
subtracted from its counter; the counters never become negative. -/
theorem getReplication_meets_iff (c : Contents) (now : Int) (proc procCls : Ptr)
    (answer : Call → Int) :
    (∃ datum s',
      Commits answer () c.store (getReplicationInt proc procCls) [.proc proc procCls datum] s' ∧
      (∀ os t, Commits answer () c.store (getReplicationInt proc procCls) os t →
        os = [.proc proc procCls datum] ∧ t = s') ∧
      (ReplicationMeets c.store now datum s' ↔ ∀ r, Last c.store r → ¬ r.2.expiry < now ∧
        (0 < r.2.replication → Double.add r.2.replication (-1) = r.2.replication - 1))) ∧
    ∀ s, Reached s → ∀ uid v, (uid, some v) ∈ s.records → 0 ≤ v.replication := by
  refine ⟨?_, fun s h => h.kept.replication⟩
  rcases @getReplication_last answer c.store proc procCls with
    ⟨hempty, hcommits⟩ | ⟨r, hr, hcommits⟩
  · refine ⟨none, c.store, hcommits, fun os t h => h.unique hcommits, iff_of_true ?_ ?_⟩
    · exact ⟨fun r hr => hempty r hr.1, rfl⟩
    · exact fun r hr => absurd hr.1 (hempty r)
  · refine ⟨_, _, hcommits, fun os t h => h.unique hcommits, ?_⟩
    rw [replicationMeets_iff hr, replicated_eq_lowered]
    exact ⟨fun h r' hr' => hr.unique hr' ▸ h, fun h => h r hr⟩

/-- A record that has expired is passed, and one that has not is left. -/
theorem getReplication_expired : ¬ ∃ datum s', Commits (fun _ => 0) () twoRecords.store
      (getReplicationInt 7 9) [.proc 7 9 datum] s' ∧
    ReplicationMeets twoRecords.store 50 datum s' := by
  have hlast : Last twoRecords.store (1, early) := by
    refine ⟨List.mem_cons_self, fun r' hr' => ?_⟩
    rcases mem_twoStored hr' with rfl | rfl
    · exact .inr ⟨rfl, Nat.le_refl _⟩
    · exact .inl (by decide)
  rintro ⟨datum, s', hcommits, hmeets⟩
  rcases @getReplication_last (fun _ => 0) twoRecords.store 7 9 with
    ⟨hempty, _⟩ | ⟨r, hr, hcommits'⟩
  · exact hempty _ hlast.1
  · obtain ⟨hos, rfl⟩ := hcommits.unique hcommits'
    cases hos
    obtain rfl := hr.unique hlast
    exact absurd (((replicationMeets_iff hr 50).mp hmeets).1) (by decide)

end GnunetWeb.Datastore
