import GnunetWeb.Datastore.Replication
import GnunetWeb.Library.Countdown

/-!
# The replication counters over many calls

`emscripten_plugin_get_replication` called again and again, with nothing stored or removed in
between.

Proved here:

* `Replicates.countdown`: the calls count the replication counters down, the largest first;
* `replicates_exists`: any number of calls can be made;
* `getReplication_levelled`: so the counters are cut off at one level, and each record is passed
  as often as its own has been lowered.
-/

namespace GnunetWeb.Datastore

open IndexedDB IndexedDB.Transaction

/-- Calls of `emscripten_plugin_get_replication`; the list is what their processors get. -/
inductive Replicates (s : ObjectStore Stored) :
    List (Option (Nat × Datum)) → ObjectStore Stored → Prop
  | start : Replicates s [] s
  | call {l : List (Option (Nat × Datum))} {s' s'' : ObjectStore Stored} {answer : Call → Int}
      {proc procCls : Ptr} {datum : Option (Nat × Datum)} : Replicates s l s' →
    Commits answer () s' (getReplicationInt proc procCls) [.proc proc procCls datum] s'' →
    Replicates s (l ++ [datum]) s''

/-- The records that were passed. -/
def passedUids (l : List (Option (Nat × Datum))) : List Nat := l.filterMap (Option.map Prod.fst)

/-- The replication counter of a record. -/
def counter (s : ObjectStore Stored) (uid : Nat) : Nat :=
  (s.get uid).join.elim 0 fun v => v.replication.toNat

def uids (s : ObjectStore Stored) : Finset Nat := (s.records.map Prod.fst).toFinset

/-- What the counters add up to. -/
def replicationTotal (s : ObjectStore Stored) : Nat := ∑ uid ∈ uids s, counter s uid

/-- The records are those of `s`, with the counters `c`. -/
def SameBut (s : ObjectStore Stored) (c : Nat → Nat) (s' : ObjectStore Stored) : Prop :=
  ∀ uid v', (uid, some v') ∈ s'.records ↔
    ∃ v, (uid, some v) ∈ s.records ∧ v' = { v with replication := c uid }

section Levels

variable {s s' : ObjectStore Stored} {uid : Nat} {v : Datum} {l : List (Option (Nat × Datum))}

theorem counter_of_mem (h : (uid, some v) ∈ s.records) : counter s uid = v.replication.toNat := by
  rw [counter, ObjectStore.get_eq_some.mpr h]
  rfl

theorem mem_uids (hfull : ∀ r ∈ s.records, r.2 ≠ none) :
    uid ∈ uids s ↔ ∃ v, (uid, some v) ∈ s.records := by
  rw [uids, List.mem_toFinset, List.mem_map]
  constructor
  · rintro ⟨⟨uid', value⟩, hr, rfl⟩
    obtain ⟨v, rfl⟩ := Option.ne_none_iff_exists'.mp (hfull _ hr)
    exact ⟨v, hr⟩
  · rintro ⟨v, hr⟩
    exact ⟨_, hr, rfl⟩

/-- The counters are exact. -/
structure Exact (s : ObjectStore Stored) : Prop where
  full : ∀ r ∈ s.records, r.2 ≠ none
  nonneg : ∀ uid v, (uid, some v) ∈ s.records → 0 ≤ v.replication
  le : ∀ uid v, (uid, some v) ∈ s.records → v.replication ≤ 2 ^ 53

theorem replicated_eq {n : Nat} (hv : v.replication = n) (hn : n ≤ 2 ^ 53) :
    replicated v = { v with replication := ((n - 1 : Nat) : Int) } := by
  unfold replicated
  split
  · have hadd : Double.add v.replication (-1) = ((n - 1 : Nat) : Int) := by
      rw [Double.add_eq (by omega)]
      omega
    rw [hadd]
  · have hzero : v.replication = ((n - 1 : Nat) : Int) := by omega
    rw [← hzero]

theorem passedUids_concat_some (uid : Nat) (v : Datum) :
    passedUids (l ++ [some (uid, v)]) = passedUids l ++ [uid] := by
  simp [passedUids]

theorem passedUids_concat_none : passedUids (l ++ [none]) = passedUids l := by
  simp [passedUids]

variable {c : Nat → Nat}

/-- The last record has the last of the largest counters. -/
theorem SameBut.isLast (hsame : SameBut s c s') (hs : Exact s) {r : Nat × Datum}
    (hr : Last s' r) : Countdown.IsLast (uids s) c r.1 := by
  obtain ⟨v, hv, he⟩ := (hsame r.1 r.2).mp hr.1
  refine ⟨(mem_uids hs.full).mpr ⟨v, hv⟩, fun b hb => ?_⟩
  obtain ⟨w, hw⟩ := (mem_uids hs.full).mp hb
  have hle := hr.2 (b, { w with replication := c b }) ((hsame b _).mpr ⟨w, hw, rfl⟩)
  rw [he] at hle
  simp only at hle
  omega

/-- Lowering the counter of a record. -/
theorem SameBut.put (hsame : SameBut s c s') {uid : Nat} (hv : (uid, some v) ∈ s.records) :
    SameBut s (Countdown.lower c uid)
      (s'.put uid (some { v with replication := ((c uid - 1 : Nat) : Int) })) := by
  intro b w
  rw [ObjectStore.mem_records_put]
  by_cases hb : b = uid
  · subst hb
    rw [Countdown.lower_self]
    constructor
    · rintro (he | ⟨hne, _⟩)
      · cases he
        exact ⟨v, hv, rfl⟩
      · exact absurd rfl hne
    · rintro ⟨v', hv', rfl⟩
      obtain rfl := Option.some.inj (s.value_unique hv' hv)
      exact .inl rfl
  · rw [Countdown.lower_of_ne hb, ← hsame b w]
    constructor
    · rintro (he | ⟨_, hw⟩)
      · exact absurd (Prod.mk.inj he).1 hb
      · exact hw
    · exact fun hw => .inr ⟨hb, hw⟩

/-- **The calls count the counters down.** -/
theorem Replicates.countdown (h : Replicates s l s') (hs : Exact s) : ∃ c,
    SameBut s c s' ∧ (∀ uid v, (uid, some v) ∈ s.records → (c uid : Int) ≤ v.replication) ∧
      Countdown.Run (uids s) (counter s) (passedUids l) c ∧
      ((passedUids l).length = l.length ∨ s.records = []) := by
  induction h with
  | start =>
    refine ⟨counter s, fun uid v' => ?_, fun uid v hv => ?_, .start, .inl rfl⟩
    · constructor
      · intro hv
        refine ⟨v', hv, ?_⟩
        rw [counter_of_mem hv, Int.toNat_of_nonneg (hs.nonneg uid v' hv)]
      · rintro ⟨v, hv, rfl⟩
        rw [counter_of_mem hv, Int.toNat_of_nonneg (hs.nonneg uid v hv)]
        exact hv
    · rw [counter_of_mem hv, Int.toNat_of_nonneg (hs.nonneg uid v hv)]
  | @call l s' s'' answer proc procCls datum _ hcommits ih =>
    obtain ⟨c, hsame, hle, hrun, hlength⟩ := ih
    rcases @getReplication_last answer s' proc procCls with ⟨hempty, hlast⟩ | ⟨r, hr, hlast⟩
    -- there is nothing to pass
    · obtain ⟨hos, rfl⟩ := hcommits.unique hlast
      cases hos
      refine ⟨c, hsame, hle, by rw [passedUids_concat_none]; exact hrun, .inr ?_⟩
      rw [List.eq_nil_iff_forall_not_mem]
      rintro ⟨uid, value⟩ hv
      obtain ⟨v, rfl⟩ := Option.ne_none_iff_exists'.mp (hs.full _ hv)
      exact hempty (uid, _) ((hsame uid _).mpr ⟨v, hv, rfl⟩)
    -- the last record is passed
    · obtain ⟨hos, rfl⟩ := hcommits.unique hlast
      cases hos
      obtain ⟨v, hv, he⟩ := (hsame r.1 r.2).mp hr.1
      have hbound : (c r.1 : Int) ≤ 2 ^ 53 := (hle r.1 v hv).trans (hs.le r.1 v hv)
      have hreplicated : replicated r.2 = { v with replication := ((c r.1 - 1 : Nat) : Int) } := by
        rw [replicated_eq (by rw [he]) (by omega : c r.1 ≤ 2 ^ 53), he]
      refine ⟨Countdown.lower c r.1, ?_, fun uid w hw => ?_, ?_, ?_⟩
      · rw [hreplicated]
        exact hsame.put hv
      · have hlower : Countdown.lower c r.1 uid ≤ c uid := by
          unfold Countdown.lower
          split
          · exact Nat.sub_le _ _
          · exact le_refl _
        have := hle uid w hw
        omega
      · rw [passedUids_concat_some]
        exact hrun.choose (hsame.isLast hs hr)
      · rw [passedUids_concat_some, List.length_append, List.length_append]
        exact hlength.imp_left fun hl => by rw [hl]; rfl

/-- Any number of calls can be made. -/
theorem replicates_exists (s : ObjectStore Stored) (n : Nat) :
    ∃ l s', Replicates s l s' ∧ l.length = n := by
  induction n with
  | zero => exact ⟨[], s, .start, rfl⟩
  | succ n ih =>
    obtain ⟨l, s', h, rfl⟩ := ih
    rcases @getReplication_last (fun _ => 0) s' 0 0 with ⟨_, hcommits⟩ | ⟨r, _, hcommits⟩
    · exact ⟨_, _, h.call hcommits, by simp⟩
    · exact ⟨_, _, h.call hcommits, by simp⟩

end Levels

theorem Contents.exact (c : Contents)
    (h : ∀ uid v, (uid, some v) ∈ c.store.records → v.replication ≤ 2 ^ 53) : Exact c.store :=
  ⟨c.kept.full, c.kept.replication, h⟩

/-- **The replication counters are levelled.**  After any number of calls the counters are cut
off at one level, or at one more before some `uid`; nothing else has changed.  While there were
counters left, each record has been passed as often as its own was lowered; once they are used
up, all are zero. -/
theorem getReplication_levelled (c : Contents)
    (hexact : ∀ uid v, (uid, some v) ∈ c.store.records → v.replication ≤ 2 ^ 53)
    {l : List (Option (Nat × Datum))} {s' : ObjectStore Stored} (h : Replicates c.store l s') :
    (∃ level point : Nat, ∀ uid v', (uid, some v') ∈ s'.records ↔
      ∃ v, (uid, some v) ∈ c.store.records ∧ v' =
        { v with replication := min v.replication (if uid < point then level + 1 else level) }) ∧
    (l.length ≤ replicationTotal c.store → ∀ uid v v', (uid, some v) ∈ c.store.records →
      (uid, some v') ∈ s'.records →
        v.replication = v'.replication + (passedUids l).count uid) ∧
    (replicationTotal c.store ≤ l.length → ∀ uid v', (uid, some v') ∈ s'.records →
      v'.replication = 0) := by
  have hs := c.exact hexact
  obtain ⟨counters, hsame, -, hrun, hlength⟩ := h.countdown hs
  refine ⟨?_, fun hl uid v v' hv hv' => ?_, fun hl uid v' hv' => ?_⟩
  · obtain ⟨level, point, hcut⟩ := hrun.levelled
    refine ⟨level, point, fun uid v' => ?_⟩
    rw [hsame uid v']
    refine exists_congr fun v => and_congr_right fun hv => ?_
    have hnonneg := hs.nonneg uid v hv
    have heq : (counters uid : Int) =
        min v.replication (if uid < point then level + 1 else level : Int) := by
      rw [hcut uid ((mem_uids hs.full).mpr ⟨v, hv⟩), Countdown.cut, counter_of_mem hv]
      split
      · omega
      · omega
    rw [heq]
  · obtain ⟨w, hw, rfl⟩ := (hsame uid v').mp hv'
    obtain rfl := Option.some.inj (c.store.value_unique hw hv)
    have hcount := hrun.count (by
      rcases hlength with hlength | hempty
      · exact hlength ▸ hl
      · rw [hempty] at hv
        cases hv) uid
    rw [counter_of_mem hv] at hcount
    have := hs.nonneg uid w hv
    simp only
    omega
  · obtain ⟨w, hw, rfl⟩ := (hsame uid v').mp hv'
    have hsum := hrun.sum
    have hzero : ∑ b ∈ uids c.store, counters b = 0 := by
      rcases hlength with hlength | hempty
      · rw [hsum, hlength]
        exact Nat.sub_eq_zero_of_le hl
      · rw [hempty] at hw
        cases hw
    simpa using Finset.sum_eq_zero_iff.mp hzero uid ((mem_uids hs.full).mpr ⟨w, hw⟩)

/-- Three calls use up the counters of two records. -/
theorem getReplication_levelled_two : ∃ l s', Replicates twoRecords.store l s' ∧
    l.length = 3 ∧ ∀ uid v', (uid, some v') ∈ s'.records → v'.replication = 0 := by
  obtain ⟨l, s', h, hl⟩ := replicates_exists twoRecords.store 3
  refine ⟨l, s', h, hl, (getReplication_levelled twoRecords ?_ h).2.2 ?_⟩
  · intro uid v hv
    rcases mem_twoStored (r := (uid, v)) hv with he | he
    · cases he
      decide
    · cases he
      decide
  · rw [hl]
    decide

end GnunetWeb.Datastore
