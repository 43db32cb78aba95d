import GnunetWeb.Datastore.Contents

/-!
# Removing what has expired

The datastore service asks for an expired record again and again, until there is none.

Proved here:

* `getExpirationResult_eq`: a call passes the first of the expired records, in the order of
  their expiry;
* `sweeps_expired`: repeated calls pass all of them, one after the other;
* `getExpiration_sweeps`: what a call does, and what repeated calls do.
-/

namespace GnunetWeb.Datastore

open IndexedDB IndexedDB.Transaction

/-- The record is stored and has expired. -/
def Expired (s : ObjectStore Stored) (now : Int) (r : Nat × Datum) : Prop :=
  (r.1, some r.2) ∈ s.records ∧ r.2.expiry < now

/-- What `emscripten_plugin_get_expiration` should do with the store `s`: `datum` is what the
processor gets, and `ret` what it returns. -/
def ExpirationMeets (s : ObjectStore Stored) (now : Int) (datum : Option (Nat × Datum)) (ret : Int)
    (s' : ObjectStore Stored) : Prop :=
  match datum with
  | none => (∀ r, ¬ Expired s now r) ∧ s' = s
  | some r => Expired s now r ∧ (∀ r', Expired s now r' → r.2.expiry ≤ r'.2.expiry) ∧
    (ret = 0 → ∀ x, x ∈ s'.records ↔ x ∈ s.records ∧ x ≠ (r.1, some r.2)) ∧ (ret ≠ 0 → s' = s)

/-- Calls with one `now`, and a processor that returns 0, until it gets `NULL`; `l` is what it
gets before. -/
inductive Sweeps (proc procCls : Ptr) (now : Int) :
    ObjectStore Stored → List (Nat × Datum) → ObjectStore Stored → Prop
  | last {s s' : ObjectStore Stored} :
      Commits (fun _ => 0) () s (getExpirationInt proc procCls now) [.proc proc procCls none] s' →
        Sweeps proc procCls now s [] s'
  | next {s s' s'' : ObjectStore Stored} {r : Nat × Datum} {l : List (Nat × Datum)} :
      Commits (fun _ => 0) () s (getExpirationInt proc procCls now)
          [.proc proc procCls (some r)] s' →
        Sweeps proc procCls now s' l s'' → Sweeps proc procCls now s (r :: l) s''

/-- The expired records, as the cursor visits them. -/
def expired (s : ObjectStore Stored) (now : Int) : List (Nat × Datum) :=
  (Cursor.visited s byExpiry (.upperBound (.number now) true) .next).filterMap fun e =>
    e.value.map fun v => (e.primaryKey, v)

section Expired

variable {s : ObjectStore Stored} {now : Int}

theorem mem_expired {r : Nat × Datum} : r ∈ expired s now ↔ Expired s now r := by
  rw [expired, List.mem_filterMap]
  constructor
  · rintro ⟨e, he, hr⟩
    obtain ⟨v, hv, rfl⟩ := Option.map_eq_some_iff.mp hr
    obtain ⟨hmem, hkey, hrange⟩ := Cursor.mem_entries.mp (Cursor.mem_visited.mp he)
    rw [hv] at hmem hkey
    obtain hkey : IndexedDB.Key.number v.expiry = e.key := Option.some.inj hkey
    rw [Range.contains_upperBound, if_pos rfl, ← hkey, IndexedDB.Key.number_lt_number] at hrange
    exact ⟨hmem, hrange⟩
  · rintro ⟨hmem, hlt⟩
    refine ⟨⟨.number r.2.expiry, r.1, some r.2⟩, ?_, rfl⟩
    rw [Cursor.mem_visited, Cursor.mem_entries]
    refine ⟨hmem, rfl, ?_⟩
    rw [Range.contains_upperBound, if_pos rfl, IndexedDB.Key.number_lt_number]
    exact hlt

/-- An entry of the index has the expiry of its record as its key. -/
theorem key_of_visited {e : Entry Stored}
    (he : e ∈ Cursor.visited s byExpiry (.upperBound (.number now) true) .next) {v : Datum}
    (hv : e.value = some v) : e.key = .number v.expiry := by
  obtain ⟨-, hkey, -⟩ := Cursor.mem_entries.mp (Cursor.mem_visited.mp he)
  rw [hv] at hkey
  exact (Option.some.inj hkey).symm

theorem expired_sorted :
    (expired s now).Pairwise fun r r' => r.2.expiry ≤ r'.2.expiry := by
  have hsorted := Cursor.entries_sorted s byExpiry (.upperBound (.number now) true)
  rw [expired, List.pairwise_filterMap]
  refine List.Pairwise.imp_of_mem (fun {e e'} he he' hlt r hr r' hr' => ?_) hsorted
  obtain ⟨v, hv, rfl⟩ := Option.map_eq_some_iff.mp hr
  obtain ⟨v', hv', rfl⟩ := Option.map_eq_some_iff.mp hr'
  have hkey := Prod.Lex.monotone_fst _ _ hlt.le
  rw [Entry.position, Entry.position] at hkey
  have hle : e.key ≤ e'.key := hkey
  rw [key_of_visited he hv, key_of_visited he' hv', IndexedDB.Key.number_le_number] at hle
  exact hle

theorem expired_nodup : ((expired s now).map Prod.fst).Nodup := by
  have hnodup := Cursor.visited_nodup s byExpiry (.upperBound (.number now) true) .next
  refine hnodup.sublist ?_
  rw [expired]
  induction Cursor.visited s byExpiry (.upperBound (.number now) true) .next with
  | nil => exact .refl _
  | cons e l ih =>
    cases hv : e.value with
    | none =>
      rw [List.filterMap_cons, hv]
      exact ih.cons _
    | some v =>
      rw [List.filterMap_cons, hv]
      exact ih.cons_cons _

/-- A deletion takes its record out of the list. -/
theorem expired_delete (uid : Nat) :
    expired (s.delete uid) now = (expired s now).filter fun r => r.1 ≠ uid := by
  rw [expired, expired, Cursor.visited_delete s uid _ _ (by decide), List.filter_filterMap,
    List.filterMap_filter]
  refine List.filterMap_congr fun e _ => ?_
  cases hv : e.value with
  | none => simp
  | some v => simp [Option.filter]

/-- **A call passes the first of the expired records**, and deletes it when the processor
returns 0. -/
theorem getExpirationResult_eq : getExpirationResult s now = ((expired s now).head?, fun ret =>
    match (expired s now).head? with
    | none => s
    | some r => if ret = 0 then s.delete r.1 else s) := by
  unfold getExpirationResult expired
  cases hl : Cursor.visited s byExpiry (.upperBound (.number now) true) .next with
  | nil => rfl
  | cons e l =>
    obtain ⟨v, hv, -⟩ := value_of_mem_visited (fun _ => rfl) (hl ▸ List.mem_cons_self)
    simp [hv]

/-- Deleting a record leaves the others. -/
theorem mem_delete {r : Nat × Datum} (hr : (r.1, some r.2) ∈ s.records) {x : Nat × Stored} :
    x ∈ (s.delete r.1).records ↔ x ∈ s.records ∧ x ≠ (r.1, some r.2) := by
  rw [ObjectStore.mem_records_delete]
  constructor
  · rintro ⟨hne, hx⟩
    exact ⟨hx, fun he => hne (by rw [he])⟩
  · rintro ⟨hx, hne⟩
    refine ⟨fun he => hne (Prod.ext he ?_), hx⟩
    exact s.value_unique (he ▸ hx : (r.1, x.2) ∈ s.records) hr

/-! ## One call -/

variable {answer : Call → Int} {proc procCls : Ptr}

theorem expiration_none (h : expired s now = []) :
    Commits answer () s (getExpirationInt proc procCls now) [.proc proc procCls none] s := by
  have hcommits := @getExpiration_commits answer s proc procCls now
  rw [getExpirationResult_eq, h] at hcommits
  exact hcommits

theorem expiration_some {r : Nat × Datum} {l : List (Nat × Datum)} (h : expired s now = r :: l) :
    Commits answer () s (getExpirationInt proc procCls now) [.proc proc procCls (some r)]
      (if answer (.proc proc procCls (some r)) = 0 then s.delete r.1 else s) := by
  have hcommits := @getExpiration_commits answer s proc procCls now
  rw [getExpirationResult_eq, h] at hcommits
  exact hcommits

theorem expiration_meets (answer : Call → Int) (s : ObjectStore Stored) (proc procCls : Ptr)
    (now : Int) : ∃ datum s', Commits answer () s (getExpirationInt proc procCls now)
        [.proc proc procCls datum] s' ∧
      ExpirationMeets s now datum (answer (.proc proc procCls datum)) s' := by
  cases h : expired s now with
  | nil =>
    refine ⟨none, s, expiration_none h, fun r hr => ?_, rfl⟩
    have hmem := mem_expired.mpr hr
    rw [h] at hmem
    cases hmem
  | cons r l =>
    have hr : Expired s now r := mem_expired.mp (h ▸ List.mem_cons_self)
    have hsorted := @expired_sorted s now
    rw [h, List.pairwise_cons] at hsorted
    refine ⟨some r, _, expiration_some h, hr, fun r' hr' => ?_, fun hret x => ?_, fun hret => ?_⟩
    · have hmem := mem_expired.mpr hr'
      rw [h] at hmem
      rcases List.mem_cons.mp hmem with rfl | hmem
      · exact Int.le_refl _
      · exact hsorted.1 r' hmem
    · rw [if_pos hret]
      exact mem_delete hr.1
    · rw [if_neg hret]

/-! ## Repeated calls -/

theorem Sweeps.unique {l l' : List (Nat × Datum)} {t t' : ObjectStore Stored}
    (h : Sweeps proc procCls now s l t) (h' : Sweeps proc procCls now s l' t') :
    l = l' ∧ t = t' := by
  induction h generalizing l' with
  | last hc =>
    cases h' with
    | last hc' => exact ⟨rfl, (hc.unique hc').2⟩
    | next hc' _ => cases (hc.unique hc').1
  | next hc _ ih =>
    cases h' with
    | last hc' => cases (hc.unique hc').1
    | next hc' h' =>
      obtain ⟨hos, rfl⟩ := hc.unique hc'
      cases hos
      obtain ⟨rfl, rfl⟩ := ih h'
      exact ⟨rfl, rfl⟩

/-- **Repeated calls pass all expired records** in their order, and delete these. -/
theorem sweeps_expired {l : List (Nat × Datum)} (h : expired s now = l) :
    ∃ s', Sweeps proc procCls now s l s' ∧
      ∀ x, x ∈ s'.records ↔ x ∈ s.records ∧ ∀ r ∈ l, x ≠ (r.1, some r.2) := by
  induction l generalizing s with
  | nil => exact ⟨s, .last (expiration_none h), by simp⟩
  | cons r l ih =>
    have hr : Expired s now r := mem_expired.mp (h ▸ List.mem_cons_self)
    have hrest : expired (s.delete r.1) now = l := by
      have hnodup := @expired_nodup s now
      rw [h, List.map_cons, List.nodup_cons] at hnodup
      rw [expired_delete, h, List.filter_cons_of_neg (by simp), List.filter_eq_self]
      exact fun r' hr' => decide_eq_true fun he => hnodup.1 (he ▸ List.mem_map_of_mem hr')
    obtain ⟨s', hsweeps, hrecords⟩ := ih hrest
    refine ⟨s', .next (expiration_some h) hsweeps, fun x => ?_⟩
    rw [hrecords, mem_delete hr.1, List.forall_mem_cons, and_assoc]

/-- **Removing what has expired.**  A call passes a record with the smallest expiry among
the expired ones, or `NULL` when there is none, and deletes it if the processor returns 0.
Repeated, it deletes all of them, each once, in the order of their expiry, and nothing
else. -/
theorem getExpiration_sweeps (s : ObjectStore Stored) (proc procCls : Ptr) (now : Int) :
    (∀ answer, ∃ datum s', Commits answer () s (getExpirationInt proc procCls now)
        [.proc proc procCls datum] s' ∧
      (∀ os t, Commits answer () s (getExpirationInt proc procCls now) os t →
        os = [.proc proc procCls datum] ∧ t = s') ∧
      ExpirationMeets s now datum (answer (.proc proc procCls datum)) s') ∧
    ∃ l s', Sweeps proc procCls now s l s' ∧
      (∀ l' t, Sweeps proc procCls now s l' t → l' = l ∧ t = s') ∧
      (l.map Prod.fst).Nodup ∧ l.Pairwise (fun r r' => r.2.expiry ≤ r'.2.expiry) ∧
      (∀ r, r ∈ l ↔ Expired s now r) ∧
      ∀ x, x ∈ s'.records ↔ x ∈ s.records ∧ ¬ ∃ v, x.2 = some v ∧ v.expiry < now := by
  constructor
  · intro answer
    obtain ⟨datum, s', hcommits, hmeets⟩ := expiration_meets answer s proc procCls now
    exact ⟨datum, s', hcommits, fun os t h => h.unique hcommits, hmeets⟩
  · obtain ⟨s', hsweeps, hrecords⟩ := @sweeps_expired s now proc procCls _ rfl
    refine ⟨_, s', hsweeps, fun l' t h => h.unique hsweeps, expired_nodup, expired_sorted,
      fun r => mem_expired, fun x => ?_⟩
    rw [hrecords]
    refine and_congr_right fun hx => ⟨?_, fun hlive r hr he => ?_⟩
    · rintro hnot ⟨v, hv, hlt⟩
      exact hnot (x.1, v) (mem_expired.mpr ⟨hv ▸ hx, hlt⟩) (Prod.ext rfl hv)
    · exact hlive ⟨r.2, by rw [he], (mem_expired.mp hr).2⟩

end Expired

end GnunetWeb.Datastore
