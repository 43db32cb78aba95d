import GnunetWeb.Peerstore.Plugin

/-!
# What changes the peerstore

Records are stored, with or without a replacement, and expire.  A record is told apart by
its sub system, its peer and its key, as they lie in the store.  The functions of
`plugin_peerstore_emscripten_int.js` are called with numbers, and no request fails.

Proved here:

* `storeRecordInt_commits`, `expireRecordsInt_commits`: the transactions;
* `Reachable.isRecord`: every object in the store is one that was put there;
* `reaches_all`, `reaches_expiry`: which records the cursors come to;
* `expireRecords_commits`: the C code's expiry;
* `store_expire_records`: what each call does.
-/

namespace GnunetWeb.Peerstore

open IndexedDB

section

variable (UTF8ToString : Heap8 → Ptr → String)

inductive Op where
  | storeRecord (heap8 : Heap8) (subSystem peer key value : Ptr) (size : Nat) (expiry : Int)
      (options : Nat) (cont contCls : Ptr)
  | expireRecords (now : Int) (cont contCls : Ptr)

/-- The call makes the calls `os`, and no request of it fails: for a store there is a key
to generate. -/
def Op.Commits (answer : Call → Int) (s : ObjectStore Object) (os : List Call)
    (s' : ObjectStore Object) : Op → Prop
  | storeRecord heap8 subSystem peer key value size expiry options cont contCls =>
    s.generator ≤ maxGenerated ∧ ∃ script, storeRecordInt UTF8ToString heap8 subSystem peer key
      value size expiry options cont contCls = some script ∧
        Transaction.Commits answer () s script os s'
  | expireRecords now cont contCls =>
    ∃ script, expireRecordsInt now cont contCls = some script ∧
      Transaction.Commits answer 0 s script os s'

/-- The stores that calls lead to. -/
inductive Reachable : ObjectStore Object → Prop
  | start : Reachable .empty
  | call {s s' : ObjectStore Object} {op : Op} {answer : Call → Int} {os : List Call} :
      Reachable s → op.Commits UTF8ToString answer s os s' → Reachable s'

def IsRecord (o : Object) : Prop :=
  ∃ (heap8 : Heap8) (subSystem peer key value : Ptr) (size : Nat) (expiry : Int),
    o = storedObject UTF8ToString heap8 subSystem peer key value size expiry

end

def place (o : Object) : Value × Value × Value := (o.get "sub_system", o.get "peer", o.get "key")

def expired (now : Int) (o : Object) : Bool :=
  match o.get "expiry" with
  | .number expiry => expiry < now
  | _ => false

def byAll : KeyPath := .names ["sub_system", "peer", "key"]

def byExpiry : KeyPath := .name "expiry"

/-- What `key_range` of a store with replacement is made of. -/
def allKey (subSystem : String) (peer : List Int) (key : String) : IndexedDB.Key :=
  .array [.string subSystem, .array (peer.map .number), .string key]

/-- The store after a range of an index has been deleted. -/
def deleteRange (s : ObjectStore Object) (path : KeyPath) (range : Range) : ObjectStore Object :=
  (Cursor.visited s path.index range .next).foldl (fun s e => s.delete e.primaryKey) s

variable {UTF8ToString : Heap8 → Ptr → String} {answer : Call → Int}

theorem records_deleteRange (s : ObjectStore Object) (path : KeyPath) (range : Range) :
    (deleteRange s path range).records =
      s.records.filter fun r => !Cursor.reaches path.index range r :=
  Cursor.records_deleteRange s path.index range .next

/-! ## The transactions -/

theorem storeRecordInt_commits {s : ObjectStore Object} (hs : s.generator ≤ maxGenerated)
    (heap8 : Heap8) (subSystem peer key value : Ptr) (size : Nat) (expiry : Int) (options : Nat)
    (cont contCls : Ptr) : ∃ script,
      storeRecordInt UTF8ToString heap8 subSystem peer key value size expiry options cont contCls =
        some script ∧
      Transaction.Commits answer () s script [.cont cont contCls 1]
        ((if options = 1 then deleteRange s byAll (.only (allKey (UTF8ToString heap8 subSystem)
            (slice heap8 peer 32) (UTF8ToString heap8 key)))
          else s).add (storedObject UTF8ToString heap8 subSystem peer key value size expiry)) := by
  have hput : ∀ t : ObjectStore Object, t.generator = s.generator → ∀ o : Object,
      Transaction.Commits answer () t (.request (.add o)
        (fun _ => .call (.cont cont contCls 1) fun _ => .done)
        (.call (.cont cont contCls (-1)) fun _ => .done) .done)
        [.cont cont contCls 1] (t.add o) := by
    intro t ht o
    have hadd : (Request.add o).perform t = some (t.add o, .key t.generator) := by
      simp [Request.perform, ht, hs]
    exact .request hadd rfl (.call (.done _ _))
  by_cases ho : options = 1
  · refine ⟨_, by rw [storeRecordInt, if_pos ho]; rfl, ?_⟩
    rw [if_pos ho]
    have hnext : Direction.next ≠ .nextunique := by decide
    refine .cursor (Transaction.Finishes.deleteAll (d := .done) (f := id) ?_ hnext
      (Cursor.ahead_start _ _ _ _) fun c' hc' => ?_)
    · intro e _ resume x
      simp [Script.run]
    · exact Transaction.Finishes.last hc' (fun _ => rfl)
        (hput _ (Cursor.generator_foldl_delete _ _) _)
  · refine ⟨_, by rw [storeRecordInt, if_neg ho], ?_⟩
    rw [if_neg ho]
    exact hput s rfl _

theorem iterate_count (n m : Nat) : (fun count => count + 1)^[n] m = m + n := by
  induction n generalizing m with
  | zero => rfl
  | succ n ih => rw [Function.iterate_succ_apply, ih, Nat.add_right_comm, Nat.add_assoc]

theorem expireRecordsInt_commits (s : ObjectStore Object) (now : Int) (cont contCls : Ptr) :
    ∃ script, expireRecordsInt now cont contCls = some script ∧
      Transaction.Commits answer 0 s script
        (if cont ≠ 0 then [.cont cont contCls
          (s.records.filter (Cursor.reaches byExpiry.index
            (.upperBound (.number now) true))).length] else [])
        (deleteRange s byExpiry (.upperBound (.number now) true)) := by
  refine ⟨_, rfl, ?_⟩
  have hlength := (Cursor.visited_perm s byExpiry.index (.upperBound (.number now) true)
    .next).length_eq
  rw [List.length_map] at hlength
  rw [← hlength]
  have hnext : Direction.next ≠ .nextunique := by decide
  refine .cursor (Transaction.Finishes.deleteAll (d := .done) (f := (· + 1)) ?_ hnext
    (Cursor.ahead_start _ _ _ _) fun c' hc' => ?_)
  · intro e _ resume x
    simp [Script.run]
  · rw [iterate_count, Nat.zero_add]
    refine Transaction.Finishes.last hc' (fun _ => ?_) (.read ?_)
    · simp only [List.head?_nil, Script.run]
      split <;> rfl
    · by_cases hcont : cont ≠ 0
      · simp only [if_pos hcont]
        exact .call (.done _ _)
      · simp only [if_neg hcont]
        exact .done _ _

/-! ## The records -/

def Op.result (UTF8ToString : Heap8 → Ptr → String) (s : ObjectStore Object) :
    Op → ObjectStore Object
  | storeRecord heap8 subSystem peer key value size expiry options _ _ =>
    (if options = 1 then deleteRange s byAll (.only (allKey (UTF8ToString heap8 subSystem)
        (slice heap8 peer 32) (UTF8ToString heap8 key)))
      else s).add (storedObject UTF8ToString heap8 subSystem peer key value size expiry)
  | expireRecords now _ _ => deleteRange s byExpiry (.upperBound (.number now) true)

def Op.calls (s : ObjectStore Object) : Op → List Call
  | storeRecord _ _ _ _ _ _ _ _ cont contCls => [.cont cont contCls 1]
  | expireRecords now cont contCls =>
    if cont ≠ 0 then
      [.cont cont contCls
        (s.records.filter (Cursor.reaches byExpiry.index (.upperBound (.number now) true))).length]
    else []

theorem Op.Commits.outcome {s s' : ObjectStore Object} {op : Op} {os : List Call}
    (h : op.Commits UTF8ToString answer s os s') :
    os = op.calls s ∧ s' = op.result UTF8ToString s := by
  cases op with
  | storeRecord heap8 subSystem peer key value size expiry options cont contCls =>
    obtain ⟨hs, script, hscript, hc⟩ := h
    obtain ⟨script', hscript', hc'⟩ := @storeRecordInt_commits UTF8ToString answer s hs heap8
      subSystem peer key value size expiry options cont contCls
    obtain rfl := Option.some.inj (hscript.symm.trans hscript')
    exact hc.unique hc'
  | expireRecords now cont contCls =>
    obtain ⟨script, hscript, hc⟩ := h
    obtain ⟨script', hscript', hc'⟩ := @expireRecordsInt_commits answer s now cont contCls
    obtain rfl := Option.some.inj (hscript.symm.trans hscript')
    exact hc.unique hc'

theorem isRecord_deleteRange {s : ObjectStore Object} (path : KeyPath) (range : Range)
    (hs : ∀ r ∈ s.records, IsRecord UTF8ToString r.2) :
    ∀ r ∈ (deleteRange s path range).records, IsRecord UTF8ToString r.2 := by
  intro r hr
  rw [records_deleteRange] at hr
  exact hs r (List.mem_of_mem_filter hr)

theorem Reachable.isRecord {s : ObjectStore Object} (h : Reachable UTF8ToString s) :
    ∀ r ∈ s.records, IsRecord UTF8ToString r.2 := by
  induction h with
  | start => exact fun r hr => absurd hr List.not_mem_nil
  | @call s s' op answer os _ hc ih =>
    rw [hc.outcome.2]
    cases op with
    | storeRecord heap8 subSystem peer key value size expiry options cont contCls =>
      intro r hr
      rcases ObjectStore.mem_records_add.mp hr with hr | rfl
      · split at hr
        · exact isRecord_deleteRange _ _ ih r hr
        · exact ih r hr
      · exact ⟨heap8, subSystem, peer, key, value, size, expiry, rfl⟩
    | expireRecords now cont contCls => exact isRecord_deleteRange _ _ ih

/-- Arrays of numbers are equal as keys when they are equal. -/
theorem map_number_inj {l l' : List Int} :
    l.map IndexedDB.Key.number = l'.map IndexedDB.Key.number ↔ l = l' :=
  (List.map_injective_iff.mpr fun a b h => by simpa using h).eq_iff

/-- **A cursor on a place** comes to the records of that place. -/
theorem reaches_all {r : Nat × Object} (hr : IsRecord UTF8ToString r.2) (heap8 : Heap8)
    (subSystem peer key value : Ptr) (size : Nat) (expiry : Int) :
    Cursor.reaches byAll.index (.only (allKey (UTF8ToString heap8 subSystem) (slice heap8 peer 32)
        (UTF8ToString heap8 key))) r =
      decide (place r.2 = place (storedObject UTF8ToString heap8 subSystem peer key value size
        expiry)) := by
  obtain ⟨heap8', subSystem', peer', key', value', size', expiry', ho⟩ := hr
  rw [Cursor.reaches_only, decide_eq_decide, byAll, allKey, names_index, ho]
  simp [storedObject, place, Object.get, Value.toKey, List.lookup_cons, map_number_inj]

/-- **A cursor below a time** comes to the records that have expired. -/
theorem reaches_expiry {r : Nat × Object} (hr : IsRecord UTF8ToString r.2) (now : Int) :
    Cursor.reaches byExpiry.index (.upperBound (.number now) true) r = expired now r.2 := by
  obtain ⟨heap8, subSystem, peer, key, value, size, expiry, ho⟩ := hr
  have hindex : byExpiry.index r.1 r.2 = some (.number expiry) := by
    rw [ho]
    rfl
  have hexpired : expired now r.2 = decide (expiry < now) := by
    rw [ho]
    rfl
  rw [Cursor.reaches, hindex, hexpired, Option.any_some, decide_eq_decide]
  simp

/-! ## What the calls do -/

theorem store_records {s : ObjectStore Object} (h : Reachable UTF8ToString s) (heap8 : Heap8)
    (subSystem peer key value : Ptr) (size : Nat) (expiry : Int) (options : Nat)
    (cont contCls : Ptr) {o : Object}
    (ho : o = storedObject UTF8ToString heap8 subSystem peer key value size expiry) :
    ((Op.storeRecord heap8 subSystem peer key value size expiry options cont contCls).result
      UTF8ToString s).records =
        (if options = 1 then s.records.filter fun r => place r.2 ≠ place o else s.records) ++
          [(s.generator, o)] := by
  subst ho
  simp only [Op.result]
  by_cases hoptions : options = 1
  · have hgenerator : ∀ range, (deleteRange s byAll range).generator = s.generator := by
      intro range
      exact Cursor.generator_foldl_delete _ _
    rw [if_pos hoptions, if_pos hoptions, ObjectStore.records_add, hgenerator, records_deleteRange]
    congr 1
    refine List.filter_congr fun r hr => ?_
    rw [reaches_all (h.isRecord r hr) _ _ _ _ value size expiry, decide_not]
  · rw [if_neg hoptions, if_neg hoptions, ObjectStore.records_add]

theorem expire_records {s : ObjectStore Object} (h : Reachable UTF8ToString s) (now : Int)
    (cont contCls : Ptr) :
    ((Op.expireRecords now cont contCls).result UTF8ToString s).records =
      s.records.filter fun r => !expired now r.2 := by
  simp only [Op.result]
  rw [records_deleteRange]
  refine List.filter_congr fun r hr => ?_
  rw [reaches_expiry (h.isRecord r hr)]

/-- **The C code's expiry**, of a time that a double holds. -/
theorem expireRecords_commits {s : ObjectStore Object} (h : Reachable UTF8ToString s) {now : Nat}
    (hnow : now < 2 ^ 53) {cont : Ptr} (hcont : cont ≠ 0) (contCls : Ptr) :
    ∃ script s', expireRecords now cont contCls = some script ∧
      Transaction.Commits answer 0 s script
        [.cont cont contCls (s.records.filter fun r => expired now r.2).length] s' ∧
      s'.records = s.records.filter fun r => !expired now r.2 := by
  obtain ⟨script, hscript, hc⟩ := @expireRecordsInt_commits answer s now cont contCls
  rw [if_pos hcont, List.filter_congr fun r hr => reaches_expiry (h.isRecord r hr) now] at hc
  refine ⟨script, _, ?_, hc, expire_records h now cont contCls⟩
  rw [expireRecords, Double.round_eq_self (by omega), hscript]

structure Holds (UTF8ToString : Heap8 → Ptr → String) (heap8 : Heap8)
    (subSystem peer key value : Ptr) (size : Nat) (expiry : Int) (o : Object) : Prop where
  place : place o = (.string (UTF8ToString heap8 subSystem), .array (slice heap8 peer 32),
    .string (UTF8ToString heap8 key))
  value : o.get "value" = .bytes (newUint8Array heap8 value size)
  expiry : o.get "expiry" = .number expiry

theorem storedObject_holds (heap8 : Heap8) (subSystem peer key value : Ptr) (size : Nat)
    (expiry : Int) : Holds UTF8ToString heap8 subSystem peer key value size expiry
      (storedObject UTF8ToString heap8 subSystem peer key value size expiry) :=
  ⟨rfl, rfl, rfl⟩

/-- **What the calls do.**  A store with replacement leaves the new record, with the value and
the expiry that are given, as the only one of its place; any other store adds it; the records of
the other places stay.  An expiry removes the records whose expiry is below its time, and
reports their number.  A continuation is called once. -/
theorem store_expire_records {s : ObjectStore Object} (h : Reachable UTF8ToString s) :
    (∀ (heap8 : Heap8) (subSystem peer key value : Ptr) (size : Nat) (expiry : Int)
        (options : Nat) (cont contCls : Ptr) (o : Object),
      o = storedObject UTF8ToString heap8 subSystem peer key value size expiry →
        Holds UTF8ToString heap8 subSystem peer key value size expiry o ∧
        (s.generator ≤ maxGenerated → ∃ os s', (Op.storeRecord heap8 subSystem peer key value size
          expiry options cont contCls).Commits UTF8ToString answer s os s') ∧
        ∀ os s', (Op.storeRecord heap8 subSystem peer key value size expiry options cont
            contCls).Commits UTF8ToString answer s os s' →
          os = [.cont cont contCls 1] ∧ ∃ k, (∀ r ∈ s.records, r.1 ≠ k) ∧
            (options = 1 →
              (s'.records.filter fun r => place r.2 = place o) = [(k, o)] ∧
              (s'.records.filter fun r => place r.2 ≠ place o) =
                s.records.filter fun r => place r.2 ≠ place o) ∧
            (options ≠ 1 → s'.records = s.records ++ [(k, o)])) ∧
    ∀ (now : Int) (cont contCls : Ptr),
      (∃ os s', (Op.expireRecords now cont contCls).Commits UTF8ToString answer s os s') ∧
      ∀ os s', (Op.expireRecords now cont contCls).Commits UTF8ToString answer s os s' →
        (s'.records = s.records.filter fun r => !expired now r.2) ∧
        (cont ≠ 0 →
          os = [.cont cont contCls (s.records.filter fun r => expired now r.2).length]) := by
  refine ⟨fun heap8 subSystem peer key value size expiry options cont contCls o ho => ?_,
    fun now cont contCls => ?_⟩
  · refine ⟨ho ▸ storedObject_holds _ _ _ _ _ _ _, fun hs => ?_, fun os s' hc => ?_⟩
    · obtain ⟨script, hscript, hc⟩ := @storeRecordInt_commits UTF8ToString answer s hs heap8
        subSystem peer key value size expiry options cont contCls
      exact ⟨_, _, hs, script, hscript, hc⟩
    · have hrecords := store_records h heap8 subSystem peer key value size expiry options cont
        contCls ho
      rw [← hc.outcome.2] at hrecords
      refine ⟨hc.outcome.1, s.generator, fun r hr => Nat.ne_of_lt (s.below r hr), ?_, ?_⟩
      · intro hoptions
        rw [hrecords, if_pos hoptions]
        simp [List.filter_append, List.filter_filter]
      · intro hoptions
        rw [hrecords, if_neg hoptions]
  · refine ⟨?_, fun os s' hc => ?_⟩
    · obtain ⟨script, hscript, hc⟩ := @expireRecordsInt_commits answer s now cont contCls
      exact ⟨_, _, script, hscript, hc⟩
    · refine ⟨hc.outcome.2 ▸ expire_records h now cont contCls, fun hcont => ?_⟩
      have hfilter : s.records.filter (Cursor.reaches byExpiry.index
          (.upperBound (.number now) true)) = s.records.filter fun r => expired now r.2 :=
        List.filter_congr fun r hr => reaches_expiry (h.isRecord r hr) now
      rw [hc.outcome.1, Op.calls, if_pos hcont, hfilter]

def twoSystems (_ : Heap8) (pointer : Ptr) : String := if pointer = 100 then "dht" else "nse"

/-- A store of that run, in one of two places. -/
def storeSevens (subSystem : Ptr) (expiry : Int) (options : Nat) : Op :=
  .storeRecord (fun _ => 7) subSystem 200 300 400 2 expiry options 11 12

def sevens (subSystem : Ptr) (expiry : Int) : Object :=
  storedObject twoSystems (fun _ => 7) subSystem 200 300 400 2 expiry

theorem storeSevens_commits {s : ObjectStore Object} (hs : s.generator ≤ maxGenerated)
    (subSystem : Ptr) (expiry : Int) (options : Nat) :
    (storeSevens subSystem expiry options).Commits twoSystems (fun _ => 0) s [.cont 11 12 1]
      ((storeSevens subSystem expiry options).result twoSystems s) :=
  ⟨hs, storeRecordInt_commits hs _ _ _ _ _ _ _ _ _ _⟩

/-- Records of two places are stored; one is replaced, and the other expires. -/
theorem store_expire_records_replaced : ∃ s₁ s₂ s₃ s₄ k,
    (storeSevens 100 5000 0).Commits twoSystems (fun _ => 0) .empty [.cont 11 12 1] s₁ ∧
    (storeSevens 101 5000 0).Commits twoSystems (fun _ => 0) s₁ [.cont 11 12 1] s₂ ∧
    s₂.records = [(1, sevens 100 5000), (2, sevens 101 5000)] ∧
    (storeSevens 100 6000 1).Commits twoSystems (fun _ => 0) s₂ [.cont 11 12 1] s₃ ∧
    (Op.expireRecords 5500 13 14).Commits twoSystems (fun _ => 0) s₃ [.cont 13 14 1] s₄ ∧
    s₄.records = [(k, sevens 100 6000)] := by
  have hc₁ := storeSevens_commits (s := .empty) (by decide) 100 5000 0
  have hc₂ := storeSevens_commits (s := (storeSevens 100 5000 0).result twoSystems .empty)
    (by decide) 101 5000 0
  obtain ⟨hstore, -⟩ := @store_expire_records twoSystems (fun _ => 0) _
    (.call (.call .start hc₁) hc₂)
  obtain ⟨-, hroom, hstored⟩ := hstore (fun _ => 7) 100 200 300 400 2 6000 1 11 12 _ rfl
  obtain ⟨os₃, s₃, hc₃⟩ := hroom (by decide)
  obtain ⟨rfl, k, -, hreplace, -⟩ := hstored os₃ s₃ hc₃
  obtain ⟨hnew, hother⟩ := hreplace rfl
  have hother : (s₃.records.filter fun r => place r.2 ≠ place (sevens 100 6000)) =
      [(2, sevens 101 5000)] := hother.trans (by decide)
  -- the record of the other place is the one that has expired
  have hplace : ∀ r ∈ s₃.records,
      expired 5500 r.2 = decide (place r.2 ≠ place (sevens 100 6000)) := by
    intro r hr
    by_cases hp : place r.2 = place (sevens 100 6000)
    · have hmem : r ∈ [(k, sevens 100 6000)] :=
        hnew ▸ List.mem_filter.mpr ⟨hr, decide_eq_true hp⟩
      rw [List.mem_singleton.mp hmem]
      exact show expired 5500 (sevens 100 6000) =
        decide (place (sevens 100 6000) ≠ place (sevens 100 6000)) by decide
    · have hmem : r ∈ [(2, sevens 101 5000)] :=
        hother ▸ List.mem_filter.mpr ⟨hr, decide_eq_true hp⟩
      rw [List.mem_singleton.mp hmem]
      decide
  obtain ⟨-, hexpire⟩ := @store_expire_records twoSystems (fun _ => 0) s₃
    (.call (.call (.call .start hc₁) hc₂) hc₃)
  obtain ⟨⟨os₄, s₄, hc₄⟩, hexpired⟩ := hexpire 5500 13 14
  obtain ⟨hrecords, hcalls⟩ := hexpired os₄ s₄ hc₄
  have hcalls := hcalls (by decide)
  rw [List.filter_congr hplace, hother] at hcalls
  refine ⟨_, _, s₃, s₄, k, hc₁, hc₂, rfl, hc₃, hcalls ▸ hc₄, ?_⟩
  refine hrecords.trans ((List.filter_congr fun r hr => ?_).trans hnew)
  rw [hplace r hr, ← decide_not, decide_eq_decide]
  exact not_not

end GnunetWeb.Peerstore
