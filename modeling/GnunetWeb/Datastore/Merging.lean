import GnunetWeb.Datastore.Selection
import Mathlib.Algebra.Order.BigOperators.Group.List

/-!
# What becomes of a record that is put again

A second put of a key and data adds its priority and replication to those of the record, and
keeps the later expiry.  The sums are numbers of JavaScript; `datum_processor_wrapper` takes
them as numbers of 32 bits again.

Proved here:

* `Puts.merged`: the record after any number of puts;
* `covered_iff`, `covered_of_sum_lt`: when the last 32 bits of a sum are no less than its terms;
* `getKey_reports_iff`: when `emscripten_plugin_get_key` reports no less than what was put;
* `getKey_reports_less`: two puts after which it does.
-/

namespace GnunetWeb.Datastore

open IndexedDB IndexedDB.Transaction

/-- The numbers of a put that are merged: two of type `uint32_t`, and a time. -/
structure PutValues where
  priority : Nat
  replication : Nat
  expiry : Nat
  priority_lt : priority < 4294967296
  replication_lt : replication < 4294967296
  expiry_lt : expiry < 9007199254740992

/-- The call puts the values under the key and data. -/
def Op.PutsAt (p : List Int × List Int) (x : PutValues) : Op → Prop
  | put heap8 keyPointer _ dataPointer size _ priority _ replication expiry _ _ =>
    (slice heap8 keyPointer 64, slice heap8 dataPointer size) = p ∧
      priority = x.priority ∧ replication = x.replication ∧ expiry = x.expiry
  | _ => False

/-- The stores that are reached by putting the values of a list under a key and data that were
not there; what is called in between leaves the record alone. -/
inductive Puts (p : List Int × List Int) : List PutValues → ObjectStore Stored → Prop
  | start {states : List (ObjectStore Stored)} {s : ObjectStore Stored} :
      Reaches states s → Reached s → lookup s p = none → Puts p [] s
  | put {l : List PutValues} {s s' : ObjectStore Stored} {x : PutValues} {op : Op}
      {answer : Call → Int} {os : List Call} : Puts p l s → op.PutsAt p x → op.Typed →
        op.Allowed s → Commits answer () s op.script os s' → Puts p (l ++ [x]) s'
  | other {l : List PutValues} {s s' : ObjectStore Stored} {op : Op} {answer : Call → Int}
      {os : List Call} : Puts p l s → op.Typed → op.Allowed s →
        Commits answer () s op.script os s' → lookup s' p = lookup s p → Puts p l s'

/-- What `proc` is called with. -/
structure Processed where
  key : List Int
  size : Nat
  data : List Int
  type : Nat
  priority : Nat
  anonymity : Nat
  replication : Nat
  expiry : Nat
  uid : Nat

/-- A number for a parameter of type `uint32_t`. -/
def toUint32 (n : Int) : Nat := (n % 4294967296).toNat

/-- `datum_processor_wrapper`, called with the fields of a record; the expiry comes through the
memory, as a `double`. -/
def datumProcessorWrapper (r : Nat × Datum) : Processed where
  key := r.2.key
  size := toUint32 r.2.data.length
  data := r.2.data
  type := toUint32 r.2.type
  priority := toUint32 r.2.priority
  anonymity := toUint32 r.2.anonymity
  replication := toUint32 r.2.replication
  expiry := r.2.expiry.toNat
  uid := toUint32 r.1

/-- What is reported is no less than the values put. -/
def Processed.Covers (o : Processed) (x : PutValues) : Prop :=
  x.priority ≤ o.priority ∧ x.replication ≤ o.replication ∧ x.expiry ≤ o.expiry

/-- The last 32 bits of the sum are no less than its terms. -/
def Covered (ns : List Nat) : Prop :=
  ∀ n ∈ ns, (n : Int) ≤ Double.sum (ns.map Nat.cast) % 4294967296

theorem covered_iff {ns : List Nat} (h : ns.sum < 2 ^ 53) :
    Covered ns ↔ ∀ n ∈ ns, n ≤ ns.sum % 4294967296 := by
  rw [Covered, Double.sum_eq h]
  exact forall₂_congr fun n _ => by omega

theorem covered_of_sum_lt {ns : List Nat} (h : ns.sum < 4294967296) : Covered ns := by
  rw [covered_iff (by omega), Nat.mod_eq_of_lt h]
  exact fun n hn => List.le_sum_of_mem hn

/-! ## The record -/

/-- The record of the key and data holds the sums of what was put, and a time that is no
earlier. -/
structure Sums (l : List PutValues) (v : Datum) : Prop where
  priority : v.priority = Double.sum ((l.map PutValues.priority).map Nat.cast)
  replication : v.replication = Double.sum ((l.map PutValues.replication).map Nat.cast)
  expiry : ∀ x ∈ l, (x.expiry : Int) ≤ v.expiry

/-- What holds after the values of a list have been put. -/
structure Merged (p : List Int × List Int) (l : List PutValues) (s : ObjectStore Stored) :
    Prop where
  wellformed : Wellformed s
  kept : Kept s
  record : l = [] ∧ lookup s p = none ∨ ∃ uid v, lookup s p = some (uid, v) ∧ Sums l v

theorem sums_first {x : PutValues} {v : Datum} (hp : v.priority = x.priority)
    (hr : v.replication = x.replication) (he : v.expiry = x.expiry) : Sums [x] v := by
  have hplt := x.priority_lt
  have hrlt := x.replication_lt
  refine ⟨?_, ?_, ?_⟩
  · rw [hp]
    exact (Double.sum_singleton (by omega)).symm
  · rw [hr]
    exact (Double.sum_singleton (by omega)).symm
  · intro y hy
    rw [List.mem_singleton.mp hy, he]

theorem Sums.merge {l : List PutValues} {v : Datum} (h : Sums l v) (x : PutValues) :
    Sums (l ++ [x]) { v with
      priority := Double.add v.priority x.priority
      replication := Double.add v.replication x.replication
      expiry := max v.expiry x.expiry } := by
  refine ⟨?_, ?_, ?_⟩
  · simp only [List.map_append, List.map_singleton, Double.sum_append_singleton]
    rw [h.priority]
  · simp only [List.map_append, List.map_singleton, Double.sum_append_singleton]
    rw [h.replication]
  · intro y hy
    rcases List.mem_append.mp hy with hy | hy
    · exact le_trans (h.expiry y hy) (le_max_left _ _)
    · rw [List.mem_singleton.mp hy]
      exact le_max_right _ _

/-- **A put merges its values.** -/
theorem Merged.put {p : List Int × List Int} {l : List PutValues} {s s' : ObjectStore Stored}
    (h : Merged p l s) {x : PutValues} {op : Op} (hx : op.PutsAt p x) (ht : op.Typed)
    (hok : op.Allowed s) {answer : Call → Int} {os : List Call}
    (hc : Commits answer () s op.script os s') : Merged p (l ++ [x]) s' := by
  have hinv : Inv [] s := ⟨h.wellformed, fun _ ht => absurd ht List.not_mem_nil⟩
  obtain ⟨os', t, hc', hw, -, hm⟩ := op_meets hinv hok answer
  obtain ⟨rfl, rfl⟩ := hc.unique hc'
  have hkept := (op_changes h.kept.full ht hc).kept h.kept
  cases op with
  | put heap8 keyPointer absent dataPointer size type priority anonymity replication expiry cont
      contCls =>
    obtain ⟨rfl, rfl, rfl, rfl⟩ := hx
    refine ⟨hw, hkept, .inr ?_⟩
    rcases h.record with ⟨rfl, hnone⟩ | ⟨uid, v, hl, hsums⟩
    · obtain ⟨uid, -, hs', -⟩ := hm.1 hnone
      exact ⟨uid, _, by rw [hs', Function.update_self], sums_first rfl rfl rfl⟩
    · obtain ⟨hs', -⟩ := hm.2 uid v hl
      exact ⟨uid, _, by rw [hs', Function.update_self], hsums.merge x⟩
  | removeKey => exact hx.elim
  | getReplication => exact hx.elim
  | getExpiration => exact hx.elim

/-- **The record after any number of puts.** -/
theorem Puts.merged {p : List Int × List Int} {l : List PutValues} {s : ObjectStore Stored}
    (h : Puts p l s) : Merged p l s := by
  induction h with
  | start hreaches hreached hnone =>
    exact ⟨hreaches.inv.wellformed, hreached.kept, .inl ⟨rfl, hnone⟩⟩
  | put _ hx ht hok hc ih => exact ih.put hx ht hok hc
  | @other l s s' op answer os _ ht hok hc hl ih =>
    have hinv : Inv [] s := ⟨ih.wellformed, fun _ ht => absurd ht List.not_mem_nil⟩
    obtain ⟨os', t, hc', hw, -, -⟩ := op_meets hinv hok answer
    obtain ⟨rfl, rfl⟩ := hc.unique hc'
    exact ⟨hw, (op_changes ih.kept.full ht hc).kept ih.kept, by rw [hl]; exact ih.record⟩

/-! ## What is reported -/

section Reports

variable {answer : Call → Int} {c : Contents} {heap8s : Nat → Heap8} {keyPointer : Ptr}
  {type : Int} {proc procCls : Ptr} {nextUid : Nat} {r : Nat × Datum}

/-- What `emscripten_plugin_get_key` passes to the processor is a record of the store. -/
theorem mem_of_getKey (h : Serves answer (c.turns heap8s)
    (getKey (heap8s 0) nextUid keyPointer type proc procCls) [.proc proc procCls (some r)]) :
    (r.1, some r.2) ∈ c.store.records := by
  obtain ⟨datum, datum', hleast, hleast', hserves⟩ :=
    @getKey_serves answer c heap8s keyPointer type proc procCls (Double.roundNat nextUid)
  rw [getKey, Double.round_natCast] at h
  have he := h.unique hserves
  simp only [List.cons.injEq, Call.proc.injEq, true_and, and_true] at he
  cases datum with
  | some r' =>
    rw [Option.some_or] at he
    cases he
    exact hleast.1.1.mem
  | none =>
    rw [Option.none_or] at he
    split at he
    · subst he
      exact hleast'.1.mem
    · cases he

/-- A caller that knows the `uid` of a record gets it. -/
theorem getKey_of_uid {heap8 : Heap8} (hkey : keyPointer ≠ 0)
    (hr : (r.1, some r.2) ∈ c.store.records) (huid : r.1 < 2 ^ 53)
    (hslice : slice heap8 keyPointer 64 = r.2.key) :
    Serves answer (c.turns fun _ => heap8) (getKey heap8 r.1 keyPointer 0 proc procCls)
      [.proc proc procCls (some r)] := by
  obtain ⟨datum, hselects, hserves⟩ :=
    @getKey_next answer c heap8 keyPointer 0 proc procCls hkey r.1 huid
  have hmatch : Matches c.store (keyAt heap8 keyPointer) 0 r := by
    refine ⟨hr, fun k hk => ?_, fun h => absurd rfl h⟩
    rw [keyAt, if_pos hkey] at hk
    rw [← Option.some.inj hk, hslice]
  cases datum with
  | none => exact absurd hmatch (hselects r)
  | some r' =>
    rcases hselects.2 with ⟨hle, hleast⟩ | ⟨hbefore, -⟩
    · have heq : r' = r := hselects.1.value_unique hmatch
        (Nat.le_antisymm (hleast r hmatch (Nat.le_refl _)) hle)
      rwa [heq] at hserves
    · exact absurd (hbefore r hmatch) (Nat.lt_irrefl _)

theorem covers_iff {l : List PutValues} (h : Sums l r.2) :
    (∀ x ∈ l, (datumProcessorWrapper r).Covers x) ↔
      Covered (l.map PutValues.priority) ∧ Covered (l.map PutValues.replication) := by
  have hcast : ∀ {m n : Int} {a : Nat}, m = n → (a ≤ toUint32 m ↔ (a : Int) ≤ n % 4294967296) := by
    rintro m _ a rfl
    rw [toUint32]
    omega
  have hexpiry : ∀ x ∈ l, x.expiry ≤ (datumProcessorWrapper r).expiry := by
    intro x hx
    have hle := h.expiry x hx
    simp only [datumProcessorWrapper]
    omega
  simp only [Covered, List.forall_mem_map, Processed.Covers, datumProcessorWrapper,
    hcast h.priority, hcast h.replication]
  constructor
  · exact fun hall => ⟨fun x hx => (hall x hx).1, fun x hx => (hall x hx).2.1⟩
  · exact fun ⟨hp, hr⟩ x hx => ⟨hp x hx, hr x hx, hexpiry x hx⟩

/-- **When nothing less is reported than what was put**: after any number of puts of a key and
data, whenever `emscripten_plugin_get_key` passes their record to the processor. -/
theorem getKey_reports_iff {p : List Int × List Int} {l : List PutValues} (h : Puts p l c.store)
    (hget : Serves answer (c.turns heap8s)
      (getKey (heap8s 0) nextUid keyPointer type proc procCls) [.proc proc procCls (some r)])
    (hr : (r.2.key, r.2.data) = p) :
    (∀ x ∈ l, (datumProcessorWrapper r).Covers x) ↔
      Covered (l.map PutValues.priority) ∧ Covered (l.map PutValues.replication) := by
  have hl : lookup c.store p = some r :=
    h.merged.wellformed.lookup_eq_some.mpr ⟨mem_of_getKey hget, hr.symm⟩
  rcases h.merged.record with ⟨-, hnone⟩ | ⟨uid, v, hl', hsums⟩
  · rw [hnone] at hl
    cases hl
  · rw [hl'] at hl
    cases hl
    exact covers_iff hsums

end Reports

/-! ## Two puts -/

/-- A put of one byte under a key of 64 bytes, all of them 7. -/
def putSevens (x : PutValues) : Op :=
  .put (fun _ => 7) 100 false 200 1 1 x.priority 0 x.replication x.expiry 11 12

/-- The key and data of the put. -/
def sevens : List Int × List Int := (List.replicate 64 7, [7])

/-- The record after the first put. -/
def datumSevens (x : PutValues) : Datum :=
  ⟨List.replicate 64 7, [7], 1, x.priority, 0, x.replication, x.expiry⟩

theorem slice_sevens (pointer : Ptr) (size : Nat) :
    slice (fun _ => 7) pointer size = List.replicate size 7 := by
  simp [slice, bytesAt, List.map_const']

theorem putSevens_typed (x : PutValues) : (putSevens x).Typed := by
  have hp := x.priority_lt
  have hr := x.replication_lt
  have he := x.expiry_lt
  refine ⟨?_, by omega, by omega⟩
  simp only [List.forall_mem_cons]
  exact ⟨by omega, by omega, by omega, by omega, fun _ h => absurd h List.not_mem_nil⟩

theorem putSevens_putsAt (x : PutValues) : (putSevens x).PutsAt sevens x := by
  refine ⟨?_, rfl, rfl, rfl⟩
  rw [slice_sevens, slice_sevens]
  rfl

theorem putSevens_allowed (x : PutValues) {s : ObjectStore Stored}
    (hg : s.generator ≤ maxGenerated) : (putSevens x).Allowed s :=
  ⟨fun h => absurd h Bool.false_ne_true, fun _ => hg⟩

theorem putSevens_commits (x : PutValues) {s : ObjectStore Stored} (h : Wellformed s)
    (hg : s.generator ≤ maxGenerated) (answer : Call → Int) : ∃ os,
    Commits answer () s (putSevens x).script os (putResult s (datumSevens x)).1 := by
  have hc := @put_commits answer s h (fun _ => 7) 100 false 200 1 1 x.priority 0 x.replication
    x.expiry 11 12 (fun _ => hg) (fun h => absurd h Bool.false_ne_true)
  rw [slice_sevens, slice_sevens] at hc
  exact ⟨_, hc⟩

/-- One value is put into an empty store, and then another one; the record is there. -/
theorem puts_two (x y : PutValues) : ∃ (c : Contents) (v : Datum),
    Puts sevens [x, y] c.store ∧ (v.key, v.data) = sevens ∧ Sums [x, y] v ∧
      ∀ answer, Serves answer (c.turns fun _ _ => 7) (getKey (fun _ => 7) 1 100 0 8 9)
        [.proc 8 9 (some (1, v))] := by
  have hw := (Reaches.start).inv.wellformed
  have hg : (ObjectStore.empty : ObjectStore Stored).generator ≤ maxGenerated := by decide
  obtain ⟨os, hc⟩ := putSevens_commits x hw hg fun _ => 0
  have hputs : Puts sevens [x] (putResult .empty (datumSevens x)).1 :=
    .put (.start .start .start rfl) (putSevens_putsAt x) (putSevens_typed x)
      (putSevens_allowed x hg) hc
  obtain ⟨hw₁, -, hnone, -⟩ := lookup_putResult hw (d := datumSevens x) fun _ => hg
  obtain ⟨hl₁, -⟩ := hnone rfl
  have hg₁ : (putResult .empty (datumSevens x)).1.generator ≤ maxGenerated := by
    have h2 : (putResult .empty (datumSevens x)).1.generator = 2 := rfl
    rw [h2]
    decide
  obtain ⟨os', hc'⟩ := putSevens_commits y hw₁ hg₁ fun _ => 0
  have hputs' := Puts.put hputs (putSevens_putsAt y) (putSevens_typed y)
    (putSevens_allowed y hg₁) hc'
  obtain ⟨hw₂, -, -, hsome⟩ := lookup_putResult hw₁ (d := datumSevens y) fun _ => hg₁
  have hl : lookup (putResult .empty (datumSevens x)).1
      ((datumSevens y).key, (datumSevens y).data) = some (1, datumSevens x) := by
    rw [hl₁]
    exact Function.update_self ..
  obtain ⟨hl₂, -⟩ := hsome _ _ hl
  obtain ⟨v, hv, hkey, hsums⟩ : ∃ v, lookup (putResult (putResult .empty (datumSevens x)).1
      (datumSevens y)).1 sevens = some (1, v) ∧ (v.key, v.data) = sevens ∧ Sums [x, y] v :=
    ⟨_, hl₂ ▸ Function.update_self .., rfl, (sums_first (v := datumSevens x) rfl rfl rfl).merge y⟩
  have hslice : slice (fun _ => 7) 100 64 = v.key :=
    (slice_sevens 100 64).trans (Prod.mk.inj hkey).1.symm
  exact ⟨⟨_, hputs'.merged.kept⟩, v, hputs', hkey, hsums, fun answer =>
    getKey_of_uid (r := (1, v)) (by decide) (hw₂.lookup_eq_some.mp hv).1
      (Nat.one_lt_two_pow (by decide)) hslice⟩

/-- Values whose sums have 32 bits. -/
def smallValues : List PutValues :=
  [⟨5, 2, 100, Nat.le_of_ble_eq_true rfl, Nat.le_of_ble_eq_true rfl, Nat.le_of_ble_eq_true rfl⟩,
    ⟨7, 1, 50, Nat.le_of_ble_eq_true rfl, Nat.le_of_ble_eq_true rfl, Nat.le_of_ble_eq_true rfl⟩]

/-- They are put, and the record that is then asked for covers them. -/
theorem getKey_reports_small : ∃ (c : Contents) (r : Nat × Datum),
    Puts sevens smallValues c.store ∧
    Serves (fun _ => 0) (c.turns fun _ _ => 7) (getKey (fun _ => 7) 1 100 0 8 9)
      [.proc 8 9 (some r)] ∧ (r.2.key, r.2.data) = sevens ∧
    ∀ x ∈ smallValues, (datumProcessorWrapper r).Covers x := by
  obtain ⟨c, v, hputs, hv, -, hserves⟩ := puts_two ⟨5, 2, 100, by decide, by decide, by decide⟩
    ⟨7, 1, 50, by decide, by decide, by decide⟩
  refine ⟨c, (1, v), hputs, hserves fun _ => 0, hv, ?_⟩
  exact (getKey_reports_iff hputs (hserves fun _ => 0) hv).mpr
    ⟨covered_of_sum_lt (by decide), covered_of_sum_lt (by decide)⟩

/-- After a put of the largest priority and one of priority 1, the priority that is reported
is 0. -/
theorem getKey_reports_less : ∃ (c : Contents) (l : List PutValues) (r : Nat × Datum),
    Puts sevens l c.store ∧
    Serves (fun _ => 0) (c.turns fun _ _ => 7) (getKey (fun _ => 7) 1 100 0 8 9)
      [.proc 8 9 (some r)] ∧ (r.2.key, r.2.data) = sevens ∧
    (datumProcessorWrapper r).priority = 0 ∧
    ¬ ∀ x ∈ l, (datumProcessorWrapper r).Covers x := by
  obtain ⟨c, v, hputs, hv, hsums, hserves⟩ :=
    puts_two ⟨4294967295, 0, 0, by decide, by decide, by decide⟩
      ⟨1, 0, 0, by decide, by decide, by decide⟩
  have hsum : v.priority = 4294967296 := hsums.priority.trans (Double.sum_eq (by decide))
  have hzero : (datumProcessorWrapper (1, v)).priority = 0 := by
    simp only [datumProcessorWrapper, hsum]
    rfl
  refine ⟨c, _, (1, v), hputs, hserves fun _ => 0, hv, hzero, fun hall => ?_⟩
  have hle := (hall _ List.mem_cons_self).1
  rw [hzero] at hle
  exact absurd hle (by decide)

end GnunetWeb.Datastore
