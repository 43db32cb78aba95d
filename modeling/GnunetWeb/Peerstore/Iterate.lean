import GnunetWeb.Peerstore.Changes
import Mathlib.Data.List.Perm.Basic

/-!
# What an iteration over the peerstore returns

The content of the store is that of the calls that stored it.  The processor should get
each record that matches, and then `NULL`.

Proved here:

* `store_commits`, `Reaches.records`: the objects in the store after any sequence of
  `peerstore_emscripten_store_record` calls;
* `iterate_commits`, `iterate_throws`: what an iteration does, over the records that it
  selects, and with a peer only;
* `iterate_records`: when it returns what was stored.
-/

namespace GnunetWeb.Peerstore

open IndexedDB

section

variable (UTF8ToString : Heap8 → Ptr → String)

/-! ## What was stored -/

namespace StoreRecord

/-- The values that a call stores. -/
def record (c : StoreRecord) : Record where
  subSystem := some (UTF8ToString c.heap8 c.subSystem)
  peer := bytesAt c.heap8 c.peer 32
  key := some (UTF8ToString c.heap8 c.key)
  value := bytesAt c.heap8 c.value c.size
  valueSize := c.size
  expiry := c.expiry

def object (c : StoreRecord) : Object :=
  storedObject UTF8ToString c.heap8 c.subSystem c.peer c.key c.value c.size (Double.round c.expiry)

def Same (c c' : StoreRecord) : Prop :=
  UTF8ToString c.heap8 c.subSystem = UTF8ToString c'.heap8 c'.subSystem ∧
    bytesAt c.heap8 c.peer 32 = bytesAt c'.heap8 c'.peer 32 ∧
    UTF8ToString c.heap8 c.key = UTF8ToString c'.heap8 c'.key

instance (c c' : StoreRecord) : Decidable (Same UTF8ToString c c') :=
  inferInstanceAs (Decidable (_ ∧ _ ∧ _))

end StoreRecord

/-- The calls whose records are in the store; one with the option
`GNUNET_PEERSTORE_STOREOPTION_REPLACE` replaces the records before it. -/
def stored (calls : List StoreRecord) : List StoreRecord :=
  calls.foldl (fun l c =>
    (if c.options = 1 then l.filter fun c' => ¬ StoreRecord.Same UTF8ToString c' c else l) ++ [c])
    []

/-- The stores that sequences of calls lead to, while there are keys to generate. -/
inductive Reaches : List StoreRecord → ObjectStore Object → Prop
  | start : Reaches [] .empty
  | call {calls : List StoreRecord} {s s' : ObjectStore Object} {c : StoreRecord}
      {script : Script Object Call Unit} {answer : Call → Int} {os : List Call} :
      Reaches calls s → s.generator ≤ maxGenerated → c.script UTF8ToString = some script →
        Transaction.Commits answer () s script os s' → Reaches (calls ++ [c]) s'

def IterateRecords.Matches (q : IterateRecords) (c : StoreRecord) : Prop :=
  UTF8ToString q.heap8 q.subSystem = UTF8ToString c.heap8 c.subSystem ∧
    (q.peer ≠ 0 → bytesAt q.heap8 q.peer 32 = bytesAt c.heap8 c.peer 32) ∧
    (q.key ≠ 0 → UTF8ToString q.heap8 q.key = UTF8ToString c.heap8 c.key)

instance (q : IterateRecords) (c : StoreRecord) : Decidable (q.Matches UTF8ToString c) :=
  inferInstanceAs (Decidable (_ ∧ (_ → _) ∧ (_ → _)))

/-- The calls of an iteration; none when it throws. -/
def IterateRecords.Calls (answer : Call → Int) (stackPointer : Ptr) (s : ObjectStore Object)
    (q : IterateRecords) (os : List Call) : Prop :=
  match q.script UTF8ToString stackPointer with
  | none => os = []
  | some script => Transaction.Commits answer () s script os s

/-- The processor gets each record that matches once, in some order, and then `NULL`. -/
def IterateRecords.Returned (calls : List StoreRecord) (q : IterateRecords) (os : List Call) :
    Prop :=
  ∃ (l : List StoreRecord) (emsg : Int),
    l.Perm ((stored UTF8ToString calls).filter fun c => q.Matches UTF8ToString c) ∧
      os = l.map (fun c => .iter q.iter q.iterCls (some (c.record UTF8ToString)) 0) ++
        [.iter q.iter q.iterCls none emsg]

end

variable {UTF8ToString : Heap8 → Ptr → String} {answer : Call → Int}

/-! ## The objects in the store -/

theorem array_bytes_inj {heap8 heap8' : Heap8} {pointer pointer' : Ptr} {size : Nat} :
    (slice heap8 pointer size).map IndexedDB.Key.number =
        (slice heap8' pointer' size).map IndexedDB.Key.number ↔
      bytesAt heap8 pointer size = bytesAt heap8' pointer' size := by
  rw [map_number_inj, slice_inj]

theorem get_object (c : StoreRecord) :
    (c.object UTF8ToString).get "sub_system" = .string (UTF8ToString c.heap8 c.subSystem) ∧
      (c.object UTF8ToString).get "peer" = .array (slice c.heap8 c.peer 32) ∧
      (c.object UTF8ToString).get "key" = .string (UTF8ToString c.heap8 c.key) :=
  ⟨rfl, rfl, rfl⟩

theorem by_all_object {k : Nat} {c : StoreRecord} {a b : String} {p : List IndexedDB.Key} :
    (KeyPath.names ["sub_system", "peer", "key"]).index k (c.object UTF8ToString) =
        some (.array [.string a, .array p, .string b]) ↔
      UTF8ToString c.heap8 c.subSystem = a ∧
        (slice c.heap8 c.peer 32).map IndexedDB.Key.number = p ∧
        UTF8ToString c.heap8 c.key = b := by
  obtain ⟨hsub, hpeer, hkey⟩ := @get_object UTF8ToString c
  simp [names_index, hsub, hpeer, hkey, Value.toKey]

theorem by_key_object {k : Nat} {c : StoreRecord} {a b : String} :
    (KeyPath.names ["sub_system", "key"]).index k (c.object UTF8ToString) =
        some (.array [.string a, .string b]) ↔
      UTF8ToString c.heap8 c.subSystem = a ∧ UTF8ToString c.heap8 c.key = b := by
  obtain ⟨hsub, -, hkey⟩ := @get_object UTF8ToString c
  simp [names_index, hsub, hkey, Value.toKey]

/-- A text is not an array. -/
theorem by_subsystem_object {k : Nat} {c : StoreRecord} {keys : List IndexedDB.Key} :
    (KeyPath.name "sub_system").index k (c.object UTF8ToString) ≠ some (.array keys) := by
  obtain ⟨hsub, -, -⟩ := @get_object UTF8ToString c
  simp [KeyPath.index, hsub, Value.toKey]

def StoreRecord.key3 (UTF8ToString : Heap8 → Ptr → String) (c : StoreRecord) : IndexedDB.Key :=
  .array [.string (UTF8ToString c.heap8 c.subSystem),
    .array ((slice c.heap8 c.peer 32).map .number), .string (UTF8ToString c.heap8 c.key)]

def storeResult (UTF8ToString : Heap8 → Ptr → String) (s : ObjectStore Object) (c : StoreRecord) :
    ObjectStore Object :=
  ((if c.options = 1 then
      (Cursor.visited s (KeyPath.names ["sub_system", "peer", "key"]).index
        (.only (c.key3 UTF8ToString)) .next).foldl (fun s e => s.delete e.primaryKey) s
    else s)).add (c.object UTF8ToString)

theorem store_commits (s : ObjectStore Object) (c : StoreRecord)
    (hg : s.generator ≤ maxGenerated) : ∃ script, c.script UTF8ToString = some script ∧
      Transaction.Commits answer () s script [.cont c.cont c.contCls 1]
        (storeResult UTF8ToString s c) :=
  storeRecordInt_commits hg c.heap8 c.subSystem c.peer c.key c.value c.size (Double.round c.expiry)
    c.options c.cont c.contCls

/-- A filter by an index on the properties, on the records and on the objects. -/
theorem map_snd_filter_index (path : KeyPath) (p : Option IndexedDB.Key → Bool)
    (l : List (Nat × Object)) :
    (l.filter fun r => p (path.index r.1 r.2)).map Prod.snd =
      (l.map Prod.snd).filter fun o => p (path.index 0 o) := by
  have hindex : ∀ r : Nat × Object, path.index r.1 r.2 = path.index 0 r.2 := by
    intro r
    cases path <;> rfl
  simp only [hindex, List.filter_map, Function.comp_def]

theorem same_iff {c c' : StoreRecord} : StoreRecord.Same UTF8ToString c' c ↔
    (KeyPath.names ["sub_system", "peer", "key"]).index 0 (c'.object UTF8ToString) =
      some (c.key3 UTF8ToString) := by
  rw [StoreRecord.key3, by_all_object, array_bytes_inj, StoreRecord.Same]

/-- **The objects in the store are those of the calls.** -/
theorem Reaches.records {calls : List StoreRecord} {s : ObjectStore Object}
    (h : Reaches UTF8ToString calls s) :
    s.records.map Prod.snd = (stored UTF8ToString calls).map (StoreRecord.object UTF8ToString) := by
  induction h with
  | start => rfl
  | @call calls s s' c script answer os _ hg hscript hc ih =>
    obtain ⟨script', hscript', hc'⟩ := @store_commits UTF8ToString answer s c hg
    obtain rfl := Option.some.inj (hscript.symm.trans hscript')
    obtain ⟨-, rfl⟩ := hc.unique hc'
    rw [stored, List.foldl_append, List.foldl_cons, List.foldl_nil, ← stored, storeResult,
      ObjectStore.add, List.map_append, List.map_append]
    refine congrArg (· ++ [c.object UTF8ToString]) ?_
    by_cases ho : c.options = 1
    · rw [if_pos ho, if_pos ho, Cursor.records_deleteAll,
        map_snd_filter_index _ (fun k => k ≠ some (c.key3 UTF8ToString)), ih, List.filter_map]
      refine congrArg _ (List.filter_congr fun c' _ => ?_)
      simp [same_iff]
    · rw [if_neg ho, if_neg ho]
      exact ih

/-! ## What the processor gets -/

def passed (UTF8ToString : Heap8 → Ptr → String) (q : IterateRecords) (stackPointer : Ptr)
    (c : StoreRecord) : Call :=
  .iter q.iter q.iterCls
    (some { c.record UTF8ToString with subSystem := none, expiry := stackPointer }) 0

theorem iterateOnsuccess_object (q : IterateRecords) (stackPointer : Ptr) {e : Entry Object}
    {c : StoreRecord} (he : e.value = c.object UTF8ToString) :
    iterateOnsuccess q.iter q.iterCls stackPointer (.cursor (some e)) =
      .call (passed UTF8ToString q stackPointer c) fun _ => .continue .done := by
  have hpeer : ccallArray (e.value.get "peer") = some (bytesAt c.heap8 c.peer 32) := by
    rw [he, ← bytes_slice]
    rfl
  have hvalue : ccallArray (e.value.get "value") = some (bytesAt c.heap8 c.value c.size) := by
    rw [he, ← bytes_newUint8Array]
    rfl
  have hlength : (bytesAt c.heap8 c.value c.size).length = c.size := by simp [bytesAt]
  have hkey : ccallString (e.value.get "key") = some (UTF8ToString c.heap8 c.key) := by
    rw [he]
    rfl
  -- the property that is read is not the one that was written
  have hsub : ccallString (e.value.get "subsystem") = none := by
    rw [he]
    rfl
  simp only [iterateOnsuccess, hpeer, hvalue, hlength, hkey, hsub]
  rfl

/-- A list that is taken from another, element by element. -/
theorem flatMap_eq_map {α β γ δ : Type} {f : α → γ} {g : β → γ} {h : α → List δ} {k : β → δ}
    (hk : ∀ a b, f a = g b → h a = [k b]) {v : List α} {l : List β} (hl : v.map f = l.map g) :
    v.flatMap h = l.map k := by
  induction v generalizing l with
  | nil =>
    rw [List.map_eq_nil_iff.mp hl.symm]
    rfl
  | cons a v ih =>
    cases l with
    | nil => cases hl
    | cons b l =>
      rw [List.map_cons, List.map_cons, List.cons.injEq] at hl
      rw [List.flatMap_cons, hk a b hl.1, ih hl.2]
      rfl

theorem iterate_commits {calls : List StoreRecord} {s : ObjectStore Object}
    (h : Reaches UTF8ToString calls s) (q : IterateRecords) (stackPointer : Ptr) (path : KeyPath)
    (k : IndexedDB.Key) : ∃ l : List StoreRecord,
      l.Perm ((stored UTF8ToString calls).filter fun c =>
        path.index 0 (c.object UTF8ToString) = some k) ∧
      Transaction.Commits answer () s
        (.request (.cursor ⟨path.index, .only k, .next, none⟩)
          (iterateOnsuccess q.iter q.iterCls stackPointer)
          (.call (.iter q.iter q.iterCls none (-1)) fun _ => .done) .done)
        (l.map (passed UTF8ToString q stackPointer) ++ [.iter q.iter q.iterCls none 0]) s := by
  have hperm := (Cursor.visited_only_perm s path.index k .next).map Prod.snd
  rw [List.map_map, map_snd_filter_index _ (fun key => key = some k), h.records,
    List.filter_map] at hperm
  -- the calls in the order in which the cursor visits their records
  obtain ⟨l, hl, hlp⟩ :=
    (congrFun₂ (List.eq_map_comp_perm (StoreRecord.object UTF8ToString)) _ _).mpr hperm
  refine ⟨l, by simpa only [Function.comp_def] using hlp, ?_⟩
  have hobject : ∀ e ∈ Cursor.visited s path.index (.only k) .next, ∃ c : StoreRecord,
      e.value = c.object UTF8ToString := by
    intro e he
    have hmem : e.value ∈ s.records.map Prod.snd :=
      List.mem_map_of_mem (Cursor.mem_visited_only he).1
    rw [h.records] at hmem
    obtain ⟨c, _, hc⟩ := List.mem_map.mp hmem
    exact ⟨c, hc.symm⟩
  let made (e : Entry Object) : List Call :=
    ((iterateOnsuccess q.iter q.iterCls stackPointer (.cursor (some e))).run answer [] ()).calls
  have hmade : ∀ (e : Entry Object) (c : StoreRecord), e.value = c.object UTF8ToString →
      made e = [passed UTF8ToString q stackPointer c] := by
    intro e c he
    simp only [made, iterateOnsuccess_object q stackPointer he, Script.run]
  rw [← flatMap_eq_map hmade hl]
  have hnext : Direction.next ≠ .nextunique := by decide
  have hahead := (Cursor.ahead_start s path.index (.only k) .next).trans (List.append_nil _).symm
  refine .cursor (Transaction.Finishes.walk (fun e he resume => ?_) hnext hahead fun c' hc' =>
    Transaction.Finishes.last hc' (fun _ => rfl) (.call (.done _ _)))
  obtain ⟨c, hc⟩ := hobject e he
  rw [hmade e c hc, iterateOnsuccess_object q stackPointer hc]
  simp [Script.run]

/-! ## The choice of the index -/

def IterateRecords.Keyed (UTF8ToString : Heap8 → Ptr → String) (q : IterateRecords) : Prop :=
  q.key ≠ 0 ∧ UTF8ToString q.heap8 q.key ≠ ""

/-- With a peer and no key, the index that is asked for does not exist. -/
theorem iterate_throws {q : IterateRecords} (hp : q.peer ≠ 0) (hk : ¬ q.Keyed UTF8ToString)
    (stackPointer : Ptr) : q.script UTF8ToString stackPointer = none := by
  rw [IterateRecords.script, iterateRecordsInt]
  simp only [if_pos hp, if_neg (show ¬ (q.key ≠ 0 ∧ UTF8ToString q.heap8 q.key ≠ "") from hk)]
  rfl

/-- **The index of a query** has only records that match, and with a key all of them. -/
theorem iterate_script {q : IterateRecords} (h : q.peer = 0 ∨ q.Keyed UTF8ToString)
    (stackPointer : Ptr) : ∃ (path : KeyPath) (k : IndexedDB.Key),
      q.script UTF8ToString stackPointer =
        some (.request (.cursor ⟨path.index, .only k, .next, none⟩)
          (iterateOnsuccess q.iter q.iterCls stackPointer)
          (.call (.iter q.iter q.iterCls none (-1)) fun _ => .done) .done) ∧
      ∀ c : StoreRecord,
        (path.index 0 (c.object UTF8ToString) = some k → q.Matches UTF8ToString c) ∧
        (q.Keyed UTF8ToString → q.Matches UTF8ToString c →
          path.index 0 (c.object UTF8ToString) = some k) := by
  rw [IterateRecords.script, iterateRecordsInt]
  by_cases hk : q.Keyed UTF8ToString
  · have hkey : q.key ≠ 0 ∧ UTF8ToString q.heap8 q.key ≠ "" := hk
    by_cases hp : q.peer = 0
    · simp only [if_pos hkey, if_neg (not_not.mpr hp)]
      refine ⟨_, _, rfl, fun c => ?_⟩
      change (KeyPath.index (.names ["sub_system", "key"]) 0 _ =
        some (.array [.string _, .string _]) → _) ∧ (_ → _ →
          KeyPath.index (.names ["sub_system", "key"]) 0 _ =
            some (.array [.string _, .string _]))
      rw [by_key_object, IterateRecords.Matches]
      refine ⟨fun hm => ⟨hm.1.symm, fun hne => absurd hp hne, fun _ => hm.2.symm⟩, fun _ hm => ?_⟩
      exact ⟨hm.1.symm, (hm.2.2 hkey.1).symm⟩
    · simp only [if_pos hkey, if_pos hp]
      refine ⟨_, _, rfl, fun c => ?_⟩
      change (KeyPath.index (.names ["sub_system", "peer", "key"]) 0 _ =
        some (.array [.string _, .array _, .string _]) → _) ∧ (_ → _ →
          KeyPath.index (.names ["sub_system", "peer", "key"]) 0 _ =
            some (.array [.string _, .array _, .string _]))
      rw [by_all_object, array_bytes_inj, IterateRecords.Matches]
      refine ⟨fun hm => ⟨hm.1.symm, fun _ => hm.2.1.symm, fun _ => hm.2.2.symm⟩, fun _ hm => ?_⟩
      exact ⟨hm.1.symm, (hm.2.1 hp).symm, (hm.2.2 hkey.1).symm⟩
  · have hp : q.peer = 0 := h.resolve_right hk
    simp only [if_neg (show ¬ (q.key ≠ 0 ∧ UTF8ToString q.heap8 q.key ≠ "") from hk),
      if_neg (not_not.mpr hp)]
    refine ⟨_, _, rfl, fun c => ⟨fun hi => ?_, fun hk' => absurd hk' hk⟩⟩
    exact absurd hi by_subsystem_object

/-! ## When an iteration returns what was stored -/

section

variable {calls : List StoreRecord} {s : ObjectStore Object}

/-- **What an iteration with a key does.**  Each record that matches is passed once, but
without its sub system and with a pointer for its expiry. -/
theorem iterate_key (h : Reaches UTF8ToString calls s) {q : IterateRecords}
    (hk : q.Keyed UTF8ToString) (stackPointer : Ptr) : ∃ l : List StoreRecord,
      l.Perm ((stored UTF8ToString calls).filter fun c => q.Matches UTF8ToString c) ∧
      q.Calls UTF8ToString answer stackPointer s
        (l.map (passed UTF8ToString q stackPointer) ++ [.iter q.iter q.iterCls none 0]) := by
  obtain ⟨path, k, hscript, hmatch⟩ := iterate_script (.inr hk) stackPointer
  obtain ⟨l, hl, hc⟩ := @iterate_commits UTF8ToString answer _ _ h q stackPointer path k
  refine ⟨l, ?_, by rw [IterateRecords.Calls, hscript]; exact hc⟩
  have hfilter : ((stored UTF8ToString calls).filter fun c =>
      path.index 0 (c.object UTF8ToString) = some k) =
        (stored UTF8ToString calls).filter fun c => q.Matches UTF8ToString c :=
    List.filter_congr fun c _ => decide_eq_decide.mpr ⟨(hmatch c).1, (hmatch c).2 hk⟩
  rw [← hfilter]
  exact hl

theorem iterate_calls (h : Reaches UTF8ToString calls s) {q : IterateRecords}
    (hq : q.peer = 0 ∨ q.Keyed UTF8ToString) (stackPointer : Ptr) : ∃ l : List StoreRecord,
      (∀ c ∈ l, c ∈ stored UTF8ToString calls ∧ q.Matches UTF8ToString c) ∧
      ∀ os, q.Calls UTF8ToString answer stackPointer s os ↔
        os = l.map (passed UTF8ToString q stackPointer) ++ [.iter q.iter q.iterCls none 0] := by
  obtain ⟨path, k, hscript, hmatch⟩ := iterate_script hq stackPointer
  obtain ⟨l, hl, hc⟩ := @iterate_commits UTF8ToString answer _ _ h q stackPointer path k
  refine ⟨l, fun c hcl => ?_, fun os => ?_⟩
  · obtain ⟨hstored, hindex⟩ := List.mem_filter.mp (hl.mem_iff.mp hcl)
    exact ⟨hstored, (hmatch c).1 (of_decide_eq_true hindex)⟩
  · rw [IterateRecords.Calls, hscript]
    refine ⟨fun hos => (hos.unique hc).1, fun hos => ?_⟩
    rw [hos]
    exact hc

theorem not_returned {q : IterateRecords} {stackPointer : Ptr} {l : List StoreRecord}
    (h : q.Returned UTF8ToString calls
      (l.map (passed UTF8ToString q stackPointer) ++ [.iter q.iter q.iterCls none 0])) :
    ∀ c ∈ stored UTF8ToString calls, ¬ q.Matches UTF8ToString c := by
  obtain ⟨l', emsg, hperm, hos⟩ := h
  -- the first call tells the two lists apart
  have hnil : l' = [] := by
    cases l' with
    | nil => rfl
    | cons c' l' =>
      cases l with
      | nil => simp [StoreRecord.record] at hos
      | cons c l => simp [passed, StoreRecord.record] at hos
  rw [hnil, List.nil_perm, List.filter_eq_nil_iff] at hperm
  exact fun c hc hm => hperm c hc (decide_eq_true hm)

/-- **When an iteration returns what was stored.**  An iteration makes its calls in one
way.  They are each record that matches, as it was stored, and then `NULL`, exactly when
the query does not ask for a peer without a key, and no record matches it. -/
theorem iterate_records (h : Reaches UTF8ToString calls s) (q : IterateRecords)
    (stackPointer : Ptr) :
    (∃ os, q.Calls UTF8ToString answer stackPointer s os) ∧
    ∀ os, q.Calls UTF8ToString answer stackPointer s os →
      (q.Returned UTF8ToString calls os ↔
        (q.peer = 0 ∨ q.Keyed UTF8ToString) ∧
          ∀ c ∈ stored UTF8ToString calls, ¬ q.Matches UTF8ToString c) := by
  by_cases hq : q.peer = 0 ∨ q.Keyed UTF8ToString
  · obtain ⟨l, hl, hcalls⟩ := @iterate_calls UTF8ToString answer _ _ h _ hq stackPointer
    refine ⟨⟨_, (hcalls _).mpr rfl⟩, fun os hos => ?_⟩
    obtain rfl := (hcalls os).mp hos
    refine ⟨fun hr => ⟨hq, not_returned hr⟩, fun hn => ?_⟩
    obtain rfl : l = [] := List.eq_nil_iff_forall_not_mem.mpr fun c hc =>
      hn.2 c (hl c hc).1 (hl c hc).2
    have hnil : ((stored UTF8ToString calls).filter fun c => q.Matches UTF8ToString c) = [] := by
      rw [List.filter_eq_nil_iff]
      exact fun c hc => by simpa using hn.2 c hc
    exact ⟨[], 0, by rw [hnil], rfl⟩
  · rw [not_or] at hq
    have hthrows := iterate_throws hq.1 hq.2 stackPointer
    have hcalls : ∀ os, q.Calls UTF8ToString answer stackPointer s os ↔ os = [] := by
      intro os
      rw [IterateRecords.Calls, hthrows]
    refine ⟨⟨[], (hcalls _).mpr rfl⟩, fun os hos => ?_⟩
    obtain rfl := (hcalls os).mp hos
    refine iff_of_false ?_ (fun hn => hn.1.elim hq.1 hq.2)
    rintro ⟨l, emsg, _, hos⟩
    simp at hos

end

def abHeap : Heap8 := fun a => if a = 100 then 97 else if a = 102 then 98 else 0

def abText (heap8 : Heap8) (pointer : Ptr) : String :=
  if heap8 pointer = 0 then "" else String.singleton (Char.ofNat (heap8 pointer).toInt.toNat)

/-- The only call so far stored two bytes under the key `a`. -/
theorem reaches_ab : ∃ s, Reaches abText [⟨abHeap, 100, 200, 100, 300, 2, 5000, 0, 11, 12⟩] s := by
  obtain ⟨script, hscript, hc⟩ := @store_commits abText (fun _ => 0) .empty
    ⟨abHeap, 100, 200, 100, 300, 2, 5000, 0, 11, 12⟩ (by decide)
  exact ⟨_, .call .start (by decide) hscript hc⟩

/-- Nothing is stored under the key `b`, and nothing is returned. -/
theorem iterate_records_other_key :
    ∃ s, Reaches abText [⟨abHeap, 100, 200, 100, 300, 2, 5000, 0, 11, 12⟩] s ∧
      ∀ os, IterateRecords.Calls abText (fun _ => 0) 40 s ⟨abHeap, 100, 200, 102, 21, 22⟩ os →
        IterateRecords.Returned abText [⟨abHeap, 100, 200, 100, 300, 2, 5000, 0, 11, 12⟩]
          ⟨abHeap, 100, 200, 102, 21, 22⟩ os := by
  obtain ⟨s, hs⟩ := reaches_ab
  refine ⟨s, hs, fun os hos => ?_⟩
  exact ((iterate_records hs ⟨abHeap, 100, 200, 102, 21, 22⟩ 40).2 os hos).mpr
    ⟨.inr ⟨by decide, by decide⟩, by decide⟩

/-- The record is in the sub system `a`, but an iteration over it ends at once. -/
theorem not_returned_by_sub_system :
    ∃ s os, Reaches abText [⟨abHeap, 100, 200, 100, 300, 2, 5000, 0, 11, 12⟩] s ∧
      IterateRecords.Calls abText (fun _ => 0) 40 s ⟨abHeap, 100, 0, 0, 21, 22⟩ os ∧
        ¬ IterateRecords.Returned abText [⟨abHeap, 100, 200, 100, 300, 2, 5000, 0, 11, 12⟩]
          ⟨abHeap, 100, 0, 0, 21, 22⟩ os := by
  obtain ⟨s, hs⟩ := reaches_ab
  obtain ⟨l, _, hcalls⟩ := @iterate_calls abText (fun _ => 0) _ s hs
    ⟨abHeap, 100, 0, 0, 21, 22⟩ (.inl rfl) 40
  refine ⟨s, _, hs, (hcalls _).mpr rfl, fun hr => ?_⟩
  exact not_returned hr ⟨abHeap, 100, 200, 100, 300, 2, 5000, 0, 11, 12⟩ (by simp [stored])
    (by decide)

end GnunetWeb.Peerstore
