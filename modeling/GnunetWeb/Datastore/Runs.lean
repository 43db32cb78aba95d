import GnunetWeb.Datastore.Answers
import GnunetWeb.Datastore.Contents

/-!
# What the datastore can contain

The object store after any calls of the plugin, with any use of `absent`.

Proved here:

* `op_changes`: a call adds a record, updates one, deletes one, or changes nothing;
* `Reached.kept`: so the store keeps what `Kept` says, in every run.
-/

namespace GnunetWeb.Datastore

open IndexedDB IndexedDB.Transaction

/-- What holds of the object store between two calls. -/
structure Kept (s : ObjectStore Stored) : Prop where
  /-- no empty object is left behind -/
  full : ∀ r ∈ s.records, r.2 ≠ none
  bounded : s.generator ≤ maxGenerated + 1
  keyLength : ∀ uid v, (uid, some v) ∈ s.records → v.key.length = 64
  replication : ∀ uid v, (uid, some v) ∈ s.records → 0 ≤ v.replication

/-- The object store of the plugin. -/
structure Contents where
  store : ObjectStore Stored
  kept : Kept store

/-- A record with a replication counter of 2 that expires early. -/
def early : Datum := ⟨List.replicate 64 0, [1], 5, 0, 0, 2, 10⟩

/-- One with a counter of 1, under the same key. -/
def late : Datum := ⟨List.replicate 64 0, [2], 5, 0, 0, 1, 100⟩

def twoStored : ObjectStore Stored :=
  ⟨[(1, some early), (2, some late)], 3, by decide, by decide⟩

theorem mem_twoStored {r : Nat × Datum} (h : (r.1, some r.2) ∈ twoStored.records) :
    r = (1, early) ∨ r = (2, late) := by
  rcases List.mem_cons.mp h with he | h
  · exact .inl (Prod.ext (Prod.mk.inj he).1 (Option.some.inj (Prod.mk.inj he).2))
  · have he := List.mem_singleton.mp h
    exact .inr (Prod.ext (Prod.mk.inj he).1 (Option.some.inj (Prod.mk.inj he).2))

def twoRecords : Contents where
  store := twoStored
  kept := by
    have hboth : ∀ {P : Datum → Prop}, P early → P late →
        ∀ uid v, (uid, some v) ∈ twoStored.records → P v := by
      intro P hearly hlate uid v h
      rcases mem_twoStored (r := (uid, v)) h with he | he
      · exact (Prod.mk.inj he).2 ▸ hearly
      · exact (Prod.mk.inj he).2 ▸ hlate
    exact ⟨by decide, by decide, hboth (by decide) (by decide), hboth (by decide) (by decide)⟩

/-- The numbers of a put have the types that `emscripten_plugin_put` gives them. -/
def Op.Typed : Op → Prop
  | put _ _ _ _ _ type priority anonymity replication expiry _ _ =>
    (∀ n ∈ [type, priority, anonymity, replication], 0 ≤ n ∧ n < 4294967296) ∧
      0 ≤ expiry ∧ expiry ≤ 18446744073709551616
  | _ => True

/-- The stores that calls lead to. -/
inductive Reached : ObjectStore Stored → Prop
  | start : Reached .empty
  | call {s s' : ObjectStore Stored} {op : Op} {answer : Call → Int} {os : List Call} :
      Reached s → op.Typed → Commits answer () s op.script os s' → Reached s'

/-- What a call does to the store. -/
inductive Change (s : ObjectStore Stored) : ObjectStore Stored → Prop
  | same : Change s s
  | added {d : Datum} (free : s.generator ≤ maxGenerated) (keyLength : d.key.length = 64)
      (replication : 0 ≤ d.replication) : Change s ((s.add none).put s.generator (some d))
  | updated {uid : Nat} {v d : Datum} (mem : (uid, some v) ∈ s.records) (key : d.key = v.key)
      (replication : 0 ≤ v.replication → 0 ≤ d.replication) : Change s (s.put uid (some d))
  | deleted {uid : Nat} : Change s (s.delete uid)

section Changes

variable {answer : Call → Int} {s s' : ObjectStore Stored} {os : List Call}

theorem doPut_changes {d : Datum} (hkey : d.key.length = 64) (hreplication : 0 ≤ d.replication)
    {size : Nat} {cont contCls keyPointer : Ptr}
    (h : Commits answer () s (doPut d size cont contCls keyPointer) os s') : Change s s' := by
  by_cases hg : s.generator ≤ maxGenerated
  · obtain ⟨-, rfl⟩ := h.unique (doPut_commits hg d size cont contCls keyPointer)
    exact .added hg hkey hreplication
  · obtain ⟨s₁, result, hq, -⟩ := h.request_inv
    rw [Request.perform, if_neg hg] at hq
    cases hq

/-- What a search for a record of a key has come to. -/
theorem search_inv (hfull : ∀ r ∈ s.records, r.2 ≠ none) (size : Nat) (data : List Int)
    {key : List Int} {onsuccess : Result Stored → Script Stored Call Unit}
    {onerror : Script Stored Call Unit}
    (hskip : ∀ e v, e.value = some v → ¬ sameData size data v →
      onsuccess (.cursor (some e)) = .continue .done)
    (hfound : ∀ e v, e.value = some v → sameData size data v → ∀ resume,
      (onsuccess (.cursor (some e))).run answer resume () =
        (onsuccess (.cursor (some e))).run answer [] ())
    (hnone : ∀ resume, (onsuccess (.cursor none)).run answer resume () =
      (onsuccess (.cursor none)).run answer [] ())
    (h : Commits answer () s
      (.request (.cursor ⟨byKey, keyRange key, .next, none⟩) onsuccess onerror .done) os s') :
    Commits answer () s (onsuccess (.cursor none)) os s' ∨
      ∃ e v, e.value = some v ∧ (e.primaryKey, some v) ∈ s.records ∧ sameData size data v ∧
        Commits answer () s (onsuccess (.cursor (some e))) os s' := by
  have hpassed : ∀ e ∈ Cursor.visited s byKey (keyRange key) .next,
      ¬ e.value.any (sameData size data) → onsuccess (.cursor (some e)) = .continue .done := by
    intro e he hp
    obtain ⟨v, hv⟩ := value_of_visited hfull he
    rw [hv, Option.any_some] at hp
    exact hskip e v hv hp
  cases hfind : (Cursor.visited s byKey (keyRange key) .next).find? fun e =>
      e.value.any (sameData size data) with
  | none =>
    have hcommits := Commits.find_inv (by decide) hpassed (by rw [hfind]; exact hnone) h
    rw [hfind] at hcommits
    exact .inl hcommits
  | some e =>
    have he := List.mem_of_find?_eq_some hfind
    obtain ⟨v, hv⟩ := value_of_visited hfull he
    have hsame := List.find?_some hfind
    rw [hv, Option.any_some] at hsame
    have hcommits := Commits.find_inv (by decide) hpassed
      (by rw [hfind]; exact hfound e v hv hsame) h
    rw [hfind] at hcommits
    have hr := (Cursor.mem_entries.mp (Cursor.mem_visited.mp he)).1
    exact .inr ⟨e, v, hv, hv ▸ hr, hsame, hcommits⟩

theorem putInt_changes (hfull : ∀ r ∈ s.records, r.2 ≠ none) {heap8 : Heap8} {keyPointer : Ptr}
    {absent : Bool} {dataPointer : Ptr} {size : Nat}
    {type priority anonymity replication expiry : Int} {cont contCls : Ptr}
    (hreplication : 0 ≤ replication)
    (h : Commits answer () s (putInt heap8 keyPointer absent dataPointer size type priority
      anonymity replication expiry cont contCls) os s') : Change s s' := by
  have hkey := length_slice heap8 keyPointer 64
  cases absent with
  | true => exact doPut_changes (by exact hkey) hreplication h
  | false =>
    rcases search_inv hfull size (slice heap8 dataPointer size)
        (fun e v hv hp => by simp [hv, hp])
        (fun e v hv hp resume => by simp only [hv, hp, not_true, if_false]; rfl)
        (fun _ => rfl) h with h | ⟨e, v, hv, hr, hsame, h⟩
    · exact doPut_changes (by exact hkey) hreplication h
    · simp only [hv, hsame, not_true, if_false] at h
      obtain ⟨-, rfl⟩ := h.unique (.request rfl rfl (.call (.done _ _)))
      exact .updated hr rfl fun hv => Double.add_nonneg (by omega)

theorem removeKeyInt_changes (hfull : ∀ r ∈ s.records, r.2 ≠ none) {heap8 : Heap8}
    {keyPointer : Ptr} {size : Nat} {dataPointer : Ptr} {cont contCls : Ptr}
    (h : Commits answer () s (removeKeyInt heap8 keyPointer size dataPointer cont contCls) os s') :
    Change s s' := by
  rcases search_inv hfull size (slice heap8 dataPointer size)
      (fun e v hv hp => by simp [hv, hp])
      (fun e v hv hp resume => by simp only [hv, hp, not_true, if_false]; rfl)
      (fun _ => rfl) h with h | ⟨e, v, hv, _, hsame, h⟩
  · obtain ⟨-, rfl⟩ := h.unique (.call (.done _ _))
    exact .same
  · simp only [hv, hsame, not_true, if_false] at h
    obtain ⟨-, rfl⟩ := h.unique (.request rfl rfl (.call (.done _ _)))
    exact .deleted

theorem getReplicationResult_changes (s : ObjectStore Stored) :
    Change s (getReplicationResult s).1 := by
  unfold getReplicationResult
  split
  · exact .same
  · rename_i e he
    split
    · exact .same
    · rename_i v hv
      obtain ⟨v', hv', hr⟩ := value_of_mem_visited (fun _ => rfl) (List.mem_of_head? he)
      obtain rfl := Option.some.inj (hv.symm.trans hv')
      refine .updated hr ?_ fun hnonneg => ?_
      · split <;> rfl
      · split
        · exact Double.add_nonneg (by omega)
        · exact hnonneg

theorem getExpirationResult_changes (s : ObjectStore Stored) (now ret : Int) :
    Change s ((getExpirationResult s now).2 ret) := by
  unfold getExpirationResult
  split
  · exact .same
  · split
    · exact .same
    · simp only
      split
      · exact .deleted
      · exact .same

/-- **What a call does to the store.** -/
theorem op_changes (hfull : ∀ r ∈ s.records, r.2 ≠ none) {op : Op} (ht : op.Typed)
    (h : Commits answer () s op.script os s') : Change s s' := by
  cases op with
  | put => exact putInt_changes hfull (ht.1 _ (by simp)).1 h
  | removeKey => exact removeKeyInt_changes hfull h
  | getReplication proc procCls =>
    obtain ⟨-, rfl⟩ := h.unique (getReplication_commits s proc procCls)
    exact getReplicationResult_changes s
  | getExpiration proc procCls now =>
    obtain ⟨-, rfl⟩ := h.unique (getExpiration_commits s proc procCls now)
    exact getExpirationResult_changes s now _

/-- **A change keeps what the store keeps.** -/
theorem Change.kept (h : Change s s') (hs : Kept s) : Kept s' := by
  cases h with
  | same => exact hs
  | @added d free keyLength replication =>
    have hmem : ∀ r ∈ ((s.add none).put s.generator (some d)).records,
        r = (s.generator, some d) ∨ r ∈ s.records := by
      intro r hr
      rcases ObjectStore.mem_records_put.mp hr with rfl | ⟨hne, hr⟩
      · exact .inl rfl
      · rcases ObjectStore.mem_records_add.mp hr with hr | rfl
        · exact .inr hr
        · exact absurd rfl hne
    refine ⟨fun r hr => ?_, max_le (Nat.succ_le_succ free) (Nat.succ_le_succ free),
      fun uid v hr => ?_, fun uid v hr => ?_⟩
    · rcases hmem r hr with rfl | hr
      · simp
      · exact hs.full r hr
    · rcases hmem _ hr with he | hr
      · cases he
        exact keyLength
      · exact hs.keyLength uid v hr
    · rcases hmem _ hr with he | hr
      · cases he
        exact replication
      · exact hs.replication uid v hr
  | @updated uid v d mem key replication =>
    have hlt : uid + 1 ≤ maxGenerated + 1 :=
      Nat.le_trans (Nat.succ_le_of_lt (s.below _ mem)) hs.bounded
    refine ⟨fun r hr => ?_, max_le hs.bounded hlt, fun uid' v' hr => ?_, fun uid' v' hr => ?_⟩
    · rcases ObjectStore.mem_records_put.mp hr with rfl | ⟨_, hr⟩
      · simp
      · exact hs.full r hr
    · rcases ObjectStore.mem_records_put.mp hr with he | ⟨_, hr⟩
      · cases he
        exact key ▸ hs.keyLength uid v mem
      · exact hs.keyLength uid' v' hr
    · rcases ObjectStore.mem_records_put.mp hr with he | ⟨_, hr⟩
      · cases he
        exact replication (hs.replication uid v mem)
      · exact hs.replication uid' v' hr
  | deleted =>
    exact ⟨fun r hr => hs.full r (ObjectStore.mem_records_delete.mp hr).2, hs.bounded,
      fun uid v hr => hs.keyLength uid v (ObjectStore.mem_records_delete.mp hr).2,
      fun uid v hr => hs.replication uid v (ObjectStore.mem_records_delete.mp hr).2⟩

theorem kept_empty : Kept .empty :=
  ⟨by simp [ObjectStore.empty], by decide, by simp [ObjectStore.empty],
    by simp [ObjectStore.empty]⟩

/-- **The store keeps it in every run.** -/
theorem Reached.kept (h : Reached s) : Kept s := by
  induction h with
  | start => exact kept_empty
  | call _ ht hc ih => exact (op_changes ih.full ht hc).kept ih

end Changes

end GnunetWeb.Datastore
