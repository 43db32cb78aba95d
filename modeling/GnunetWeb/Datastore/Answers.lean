import GnunetWeb.Datastore.Plugin
import GnunetWeb.Library.IndexedDB.Failures

/-!
# The answers of the datastore plugin

Every request of a call can fail, and a call has to be answered all the same.

Proved here:

* `Once.request`, `Once.search`: the rules for scripts that answer whatever fails;
* `doPut_once`, `removeKey_once`, `getKey_once`, `getReplication_once`,
  `getExpiration_once`, `getZeroAnonymity_once`: these are such scripts;
* `answered_once_iff`: when a call of the plugin is answered exactly once.
-/

namespace GnunetWeb.Datastore

open IndexedDB IndexedDB.Transaction

/-- The calls of the plugin that answer. -/
inductive Service where
  | op (o : Op)
  | getKey (heap8 : Heap8) (nextUid : Int) (keyPointer : Ptr) (type : Int) (proc procCls : Ptr)
  | getZeroAnonymity (nextUid type : Int) (proc procCls : Ptr)

def Service.script : Service → Script Stored Call Unit
  | op o => o.script
  | getKey heap8 nextUid keyPointer type proc procCls =>
    getKeyInt heap8 nextUid keyPointer type proc procCls
  | getZeroAnonymity nextUid type proc procCls => getZeroAnonymityInt nextUid type proc procCls

/-- The calls that answer: the continuation with some status, the processor with some
datum. -/
def Service.Answers : Service → Call → Prop
  | op (.put _ keyPointer _ _ size _ _ _ _ _ cont contCls), c
  | op (.removeKey _ keyPointer size _ cont contCls), c =>
    ∃ status, c = .cont cont contCls keyPointer size status
  | op (.getReplication proc procCls), c | op (.getExpiration proc procCls _), c
  | getKey _ _ _ _ proc procCls, c | getZeroAnonymity _ _ proc procCls, c =>
    ∃ datum, c = .proc proc procCls datum

/-- What a transaction finds: the memory and the store, which has no empty object outside
of a put, and how its requests will end. -/
structure Turn where
  heap8 : Heap8
  store : ObjectStore Stored
  full : ∀ r ∈ store.records, r.2 ≠ none
  succeeds : Nat → Bool

/-- The script of the transaction that a call starts, when the function calls itself. -/
def restart (heap8 : Heap8) : Call → Option (Script Stored Call Unit)
  | .getKey keyPointer type proc procCls => some (getKeyInt heap8 0 keyPointer type proc procCls)
  | .getZeroAnonymity type proc procCls => some (getZeroAnonymityInt 0 type proc procCls)
  | _ => none

/-- A script runs with the answers `os`, in as many transactions as it needs. -/
inductive Serves (answer : Call → Int) :
    (Nat → Turn) → Script Stored Call Unit → List Call → Prop
  | last {turns : Nat → Turn} {script : Script Stored Call Unit} {os : List Call} :
      Runs answer () (turns 0).store (turns 0).succeeds script os →
        (∀ c ∈ os, restart (turns 1).heap8 c = none) → Serves answer turns script os
  | again {turns : Nat → Turn} {script next : Script Stored Call Unit} {os os' : List Call}
      {c : Call} : Runs answer () (turns 0).store (turns 0).succeeds script (os ++ [c]) →
        (∀ c ∈ os, restart (turns 1).heap8 c = none) → restart (turns 1).heap8 c = some next →
          Serves answer (fun n => turns (n + 1)) next os' → Serves answer turns script (os ++ os')

/-- The records of the key that the cursor of `emscripten_plugin_put_int` passes over. -/
def others (s : ObjectStore Stored) (key data : List Int) (size : Nat) : List (Entry Stored) :=
  passed s byKey (keyRange key) .next fun e => e.value.any (sameData size data)

/-- The requests of the cursor of `emscripten_plugin_put_int` succeed. -/
def Service.CursorSucceeds (turn : Turn) : Service → Prop
  | op (.put heap8 keyPointer false dataPointer size _ _ _ _ _ _ _) =>
    ∀ i ≤ (others turn.store (slice heap8 keyPointer 64) (slice heap8 dataPointer size)
        size).length,
      turn.succeeds i
  | _ => True

/-! ## Scripts that answer -/

section Once

variable {answer : Call → Int} {P : Call → Prop} {s : ObjectStore Stored}

/-- Whatever fails, there is one call, and `P` holds of it. -/
def Once (answer : Call → Int) (P : Call → Prop) (s : ObjectStore Stored)
    (script : Script Stored Call Unit) : Prop :=
  ∀ succeeds, ∃ c, P c ∧ Runs answer () s succeeds script [c]

theorem Once.call {c : Call} (hc : P c) : Once answer P s (.call c fun _ => .done) :=
  fun _ => ⟨c, hc, .call .done⟩

/-- **The rule of a request.** -/
theorem Once.request {q : Request Stored} {onsuccess : Result Stored → Script Stored Call Unit}
    {onerror : Script Stored Call Unit}
    (hsuccess : ∀ s' result, q.perform s = some (s', result) →
      (Pending.mk q onsuccess onerror).resume result = [] ∧ Once answer P s' (onsuccess result))
    (herror : Once answer P s onerror) :
    Once answer P s (.request q onsuccess onerror .done) := by
  intro succeeds
  have hfailed : succeeds 0 = false ∨ q.perform s = none →
      ∃ c, P c ∧ Runs answer () s succeeds (.request q onsuccess onerror .done) [c] := by
    intro hfail
    obtain ⟨c, hc, hruns⟩ := herror (after succeeds 1)
    exact ⟨c, hc, .failed hfail hruns⟩
  cases hok : succeeds 0 with
  | false => exact hfailed (.inl hok)
  | true =>
    cases hq : q.perform s with
    | none => exact hfailed (.inr hq)
    | some r =>
      obtain ⟨hresume, honce⟩ := hsuccess r.1 r.2 hq
      obtain ⟨c, hc, hruns⟩ := honce (after succeeds 1)
      exact ⟨c, hc, .request hok hq hresume hruns⟩

/-- The handler of a cursor answers, and does not continue. -/
def Stops (answer : Call → Int) (P : Call → Prop) (s : ObjectStore Stored)
    (script : Script Stored Call Unit) : Prop :=
  (∀ resume, script.run answer resume () = script.run answer [] ()) ∧ Once answer P s script

theorem Stops.call {c : Call} (hc : P c) : Stops answer P s (.call c fun _ => .done) :=
  ⟨fun _ => rfl, .call hc⟩

/-- The handler with the record that is found, or at the end. -/
theorem Stops.find {index : Index Stored} {range : Range} {direction : Direction}
    {onsuccess : Result Stored → Script Stored Call Unit} {p : Entry Stored → Bool}
    (hfound : ∀ e ∈ Cursor.visited s index range direction, p e →
      Stops answer P s (onsuccess (.cursor (some e))))
    (hnone : Stops answer P s (onsuccess (.cursor none))) :
    Stops answer P s
      (onsuccess (.cursor ((Cursor.visited s index range direction).find? p))) := by
  cases hfind : (Cursor.visited s index range direction).find? p with
  | none => exact hnone
  | some e => exact hfound e (List.mem_of_find?_eq_some hfind) (List.find?_some hfind)

/-- **The rule of a search.** -/
theorem Once.search {index : Index Stored} {range : Range} {direction : Direction}
    (hd : direction ≠ .nextunique) {onsuccess : Result Stored → Script Stored Call Unit}
    {onerror : Script Stored Call Unit} {p : Entry Stored → Bool}
    (hskip : ∀ e ∈ Cursor.visited s index range direction, ¬ p e →
      onsuccess (.cursor (some e)) = .continue .done)
    (hfound : ∀ e ∈ Cursor.visited s index range direction, p e →
      Stops answer P s (onsuccess (.cursor (some e))))
    (hnone : Stops answer P s (onsuccess (.cursor none))) (herror : Once answer P s onerror) :
    Once answer P s
      (.request (.cursor ⟨index, range, direction, none⟩) onsuccess onerror .done) := by
  have hstops := Stops.find hfound hnone
  intro succeeds
  rcases first_failure succeeds (passed s index range direction p).length with
    hok | ⟨k, hk, hfail, hok⟩
  · obtain ⟨c, hc, hruns⟩ :=
      hstops.2 (after succeeds ((passed s index range direction p).length + 1))
    exact ⟨c, hc, .search hd hskip hstops.1 hok hruns⟩
  · obtain ⟨c, hc, hruns⟩ := herror (after succeeds (k + 1))
    exact ⟨c, hc, .search_failed hd hskip hk hfail hok hruns⟩

/-- A search whose cursor has no `onerror`. -/
theorem search_runs {index : Index Stored} {range : Range} {direction : Direction}
    (hd : direction ≠ .nextunique) {onsuccess : Result Stored → Script Stored Call Unit}
    {p : Entry Stored → Bool}
    (hskip : ∀ e ∈ Cursor.visited s index range direction, ¬ p e →
      onsuccess (.cursor (some e)) = .continue .done)
    (hfound : ∀ e ∈ Cursor.visited s index range direction, p e →
      Stops answer P s (onsuccess (.cursor (some e))))
    (hnone : Stops answer P s (onsuccess (.cursor none))) (succeeds : Nat → Bool) :
    ∃ os, Runs answer () s succeeds
        (.request (.cursor ⟨index, range, direction, none⟩) onsuccess .done .done) os ∧
      ((∃ c, os = [c] ∧ P c) ∧ (∀ i ≤ (passed s index range direction p).length, succeeds i) ∨
        os = [] ∧ ¬ ∀ i ≤ (passed s index range direction p).length, succeeds i) := by
  have hstops := Stops.find hfound hnone
  rcases first_failure succeeds (passed s index range direction p).length with
    hok | ⟨k, hk, hfail, hok⟩
  · obtain ⟨c, hc, hruns⟩ :=
      hstops.2 (after succeeds ((passed s index range direction p).length + 1))
    exact ⟨[c], .search hd hskip hstops.1 hok hruns, .inl ⟨⟨c, rfl, hc⟩, hok⟩⟩
  · refine ⟨[], .search_failed hd hskip hk hfail hok .done, .inr ⟨rfl, fun hall => ?_⟩⟩
    have htrue := hall k hk
    rw [hfail] at htrue
    cases htrue

/-! ## The functions of the plugin -/

theorem doPut_once {datum : Datum} {size : Nat} {cont contCls keyPointer : Ptr}
    (hP : ∀ status, P (.cont cont contCls keyPointer size status)) :
    Once answer P s (doPut datum size cont contCls keyPointer) := by
  refine Once.request (fun s' result hq => ?_) (.call (hP (-1)))
  have hq : (if s.generator ≤ maxGenerated then some (s.add none, Result.key s.generator)
      else none) = some (s', result) := hq
  split at hq
  · cases hq
    refine ⟨rfl, Once.request (fun s'' result' hq' => ?_) ?_⟩
    · cases hq'
      exact ⟨rfl, .call (hP 1)⟩
    · exact fun succeeds => ⟨_, hP (-1), .abort (.call .done)⟩
  · cases hq

theorem value_of_visited (hfull : ∀ r ∈ s.records, r.2 ≠ none) {index : Index Stored}
    {range : Range} {direction : Direction} {e : Entry Stored}
    (he : e ∈ Cursor.visited s index range direction) : ∃ v, e.value = some v := by
  have hr := (Cursor.mem_entries.mp (Cursor.mem_visited.mp he)).1
  exact Option.ne_none_iff_exists'.mp (hfull _ hr)

/-- **A put that is not `absent`** is answered if its cursor succeeds, and only then. -/
theorem putInt_runs (hfull : ∀ r ∈ s.records, r.2 ≠ none) {heap8 : Heap8} {keyPointer : Ptr}
    {dataPointer : Ptr} {size : Nat} {type priority anonymity replication expiry : Int}
    {cont contCls : Ptr} (hP : ∀ status, P (.cont cont contCls keyPointer size status))
    (succeeds : Nat → Bool) : ∃ os, Runs answer () s succeeds (putInt heap8 keyPointer false
        dataPointer size type priority anonymity replication expiry cont contCls) os ∧
      ((∃ c, os = [c] ∧ P c) ∧ (∀ i ≤ (others s (slice heap8 keyPointer 64)
          (slice heap8 dataPointer size) size).length, succeeds i) ∨
        os = [] ∧ ¬ ∀ i ≤ (others s (slice heap8 keyPointer 64) (slice heap8 dataPointer size)
          size).length, succeeds i) := by
  unfold putInt
  simp only [Bool.false_eq_true, if_false]
  refine search_runs (p := fun e => e.value.any (sameData size (slice heap8 dataPointer size)))
    (by decide) (fun e he hp => ?_) (fun e he hp => ?_) ⟨fun _ => rfl, doPut_once hP⟩ succeeds
  · obtain ⟨v, hv⟩ := value_of_visited hfull he
    rw [hv, Option.any_some] at hp
    simp only [hv]
    rw [if_pos hp]
  · obtain ⟨v, hv⟩ := value_of_visited hfull he
    rw [hv, Option.any_some] at hp
    simp only [hv]
    rw [if_neg (not_not.mpr hp)]
    refine ⟨fun _ => rfl, Once.request (fun s' result hq => ?_) (.call (hP (-1)))⟩
    cases hq
    exact ⟨rfl, .call (hP 0)⟩

theorem removeKey_once (hfull : ∀ r ∈ s.records, r.2 ≠ none) {heap8 : Heap8} {keyPointer : Ptr}
    {size : Nat} {dataPointer : Ptr} {cont contCls : Ptr}
    (hP : ∀ status, P (.cont cont contCls keyPointer size status)) :
    Once answer P s (removeKeyInt heap8 keyPointer size dataPointer cont contCls) := by
  refine Once.search (p := fun e => e.value.any (sameData size (slice heap8 dataPointer size)))
    (by decide) (fun e he hp => ?_) (fun e he hp => ?_) (.call (hP 0)) (.call (hP (-1)))
  · obtain ⟨v, hv⟩ := value_of_visited hfull he
    rw [hv, Option.any_some] at hp
    simp only [hv]
    rw [if_pos hp]
  · obtain ⟨v, hv⟩ := value_of_visited hfull he
    rw [hv, Option.any_some] at hp
    simp only [hv]
    rw [if_neg (not_not.mpr hp)]
    refine ⟨fun _ => rfl, Once.request (fun s' result hq => ?_) (.call (hP (-1)))⟩
    cases hq
    exact ⟨rfl, .call (hP 1)⟩

theorem getReplication_once (hfull : ∀ r ∈ s.records, r.2 ≠ none) {proc procCls : Ptr}
    (hP : ∀ datum, P (.proc proc procCls datum)) :
    Once answer P s (getReplicationInt proc procCls) := by
  refine Once.search (p := fun _ => true) (by decide) (fun e he hp => absurd rfl hp)
    (fun e he _ => ?_) (.call (hP none)) (.call (hP none))
  obtain ⟨v, hv⟩ := value_of_visited hfull he
  simp only [hv]
  refine ⟨fun _ => rfl, Once.request (fun s' result hq => ?_) (.call (hP none))⟩
  cases hq
  exact ⟨rfl, .call (hP _)⟩

/-- Nobody is told whether a record could be deleted. -/
theorem delete_runs (succeeds : Nat → Bool) (uid : Nat) :
    Runs answer () s succeeds (.request (.delete uid) (fun _ => .done) .done .done) [] := by
  cases hok : succeeds 0 with
  | false => exact .failed (.inl hok) .done
  | true => exact .request hok rfl rfl .done

theorem getExpiration_once (hfull : ∀ r ∈ s.records, r.2 ≠ none) {proc procCls : Ptr} {now : Int}
    (hP : ∀ datum, P (.proc proc procCls datum)) :
    Once answer P s (getExpirationInt proc procCls now) := by
  refine Once.search (p := fun _ => true) (by decide) (fun e he hp => absurd rfl hp)
    (fun e he _ => ?_) (.call (hP none)) (.call (hP none))
  obtain ⟨v, hv⟩ := value_of_visited hfull he
  simp only [hv]
  constructor
  · intro resume
    simp only [Script.run]
    split <;> rfl
  · refine fun succeeds => ⟨_, hP _, .call ?_⟩
    split
    · exact delete_runs succeeds e.primaryKey
    · exact .done

/-- `emscripten_plugin_get_key_int` passes a datum to its processor, or calls itself. -/
theorem getKey_once (hfull : ∀ r ∈ s.records, r.2 ≠ none) {heap8 : Heap8} {nextUid : Int}
    {keyPointer : Ptr} {type : Int} {proc procCls : Ptr}
    (hP : ∀ datum, P (.proc proc procCls datum))
    (hagain : nextUid ≠ 0 → P (.getKey keyPointer type proc procCls)) :
    Once answer P s (getKeyInt heap8 nextUid keyPointer type proc procCls) := by
  obtain ⟨index, range, hcursor⟩ : ∃ index range,
      getKeyCursor heap8 nextUid keyPointer = ⟨index, range, .next, none⟩ := by
    unfold getKeyCursor
    split
    · exact ⟨_, _, rfl⟩
    · exact ⟨_, _, rfl⟩
  rw [getKeyInt, hcursor]
  refine Once.search (p := fun e => e.value.any fun v => ¬ (type ≠ 0 ∧ type ≠ v.type)) (by decide)
    (fun e he hp => ?_) (fun e he hp => ?_) ?_ (.call (hP none))
  · obtain ⟨v, hv⟩ := value_of_visited hfull he
    rw [hv, Option.any_some, decide_eq_true_eq, not_not] at hp
    simp only [hv]
    rw [if_pos hp]
  · obtain ⟨v, hv⟩ := value_of_visited hfull he
    rw [hv, Option.any_some, decide_eq_true_eq] at hp
    simp only [hv]
    rw [if_neg hp]
    exact .call (hP _)
  · simp only
    split
    · exact .call (hagain ‹_›)
    · exact .call (hP none)

theorem getZeroAnonymity_once (hfull : ∀ r ∈ s.records, r.2 ≠ none) {nextUid type : Int}
    {proc procCls : Ptr} (hP : ∀ datum, P (.proc proc procCls datum))
    (hagain : nextUid ≠ 0 → P (.getZeroAnonymity type proc procCls)) :
    Once answer P s (getZeroAnonymityInt nextUid type proc procCls) := by
  refine Once.search (p := fun _ => true) (by decide) (fun e he hp => absurd rfl hp)
    (fun e he _ => ?_) ?_ (.call (hP none))
  · obtain ⟨v, hv⟩ := value_of_visited hfull he
    simp only [hv]
    exact .call (hP _)
  · simp only
    split
    · exact .call (hagain ‹_›)
    · exact .call (hP none)

end Once

/-! ## The calls of the plugin -/

theorem Service.restart_eq_none {service : Service} {c : Call} (h : service.Answers c)
    (heap8 : Heap8) : restart heap8 c = none := by
  rcases service with o | _ | _
  · rcases o with _ | _ | _ | _
    all_goals
      obtain ⟨_, rfl⟩ := h
      rfl
  all_goals
    obtain ⟨_, rfl⟩ := h
    rfl

theorem Serves.unique {answer : Call → Int} {turns : Nat → Turn} {script : Script Stored Call Unit}
    {os os' : List Call} (h : Serves answer turns script os) (h' : Serves answer turns script os') :
    os = os' := by
  induction h generalizing os' with
  | last hruns hnone =>
    cases h' with
    | last hruns' _ => exact hruns.unique hruns'
    | again hruns' _ hc _ =>
      have hsome := hnone _ (hruns.unique hruns' ▸ List.mem_append_right _ List.mem_cons_self)
      rw [hc] at hsome
      cases hsome
  | again hruns _ hc _ ih =>
    cases h' with
    | last hruns' hnone' =>
      have hsome := hnone' _ (hruns'.unique hruns ▸ List.mem_append_right _ List.mem_cons_self)
      rw [hc] at hsome
      cases hsome
    | again hruns' _ hc' h' =>
      obtain ⟨rfl, hlast⟩ := List.append_inj' (hruns.unique hruns') rfl
      cases hlast
      cases hc.symm.trans hc'
      rw [ih h']

/-- A script that answers once in its first transaction. -/
theorem Once.serves {answer : Call → Int} {service : Service} {turns : Nat → Turn}
    {script : Script Stored Call Unit} (h : Once answer service.Answers (turns 0).store script) :
    ∃ c, service.Answers c ∧ Serves answer turns script [c] := by
  obtain ⟨c, hc, hruns⟩ := h (turns 0).succeeds
  refine ⟨c, hc, .last hruns fun c' hc' => ?_⟩
  rw [List.mem_singleton.mp hc']
  exact Service.restart_eq_none hc _

/-- One that answers, or calls `next`, which answers. -/
theorem Once.serves_again {answer : Call → Int} {service : Service} {turns : Nat → Turn}
    {script next : Script Stored Call Unit} {again : Call}
    (h : Once answer (fun c => service.Answers c ∨ c = again) (turns 0).store script)
    (hagain : restart (turns 1).heap8 again = some next)
    (hnext : Once answer service.Answers (turns 1).store next) :
    ∃ c, service.Answers c ∧ Serves answer turns script [c] := by
  obtain ⟨c, hc, hruns⟩ := h (turns 0).succeeds
  rcases hc with hc | rfl
  · refine ⟨c, hc, .last hruns fun c' hc' => ?_⟩
    rw [List.mem_singleton.mp hc']
    exact Service.restart_eq_none hc _
  · obtain ⟨c', hc', hserves⟩ := @Once.serves answer service (fun n => turns (n + 1)) next hnext
    have hfirst : Runs answer () (turns 0).store (turns 0).succeeds script ([] ++ [_]) := hruns
    exact ⟨c', hc', .again hfirst (fun _ hm => absurd hm List.not_mem_nil) hagain hserves⟩

/-- A put that is not `absent`. -/
def Service.PutsMerging : Service → Prop
  | op (.put _ _ false _ _ _ _ _ _ _ _ _) => True
  | _ => False

instance (service : Service) : Decidable service.PutsMerging := by
  unfold Service.PutsMerging
  split <;> infer_instance

theorem Service.PutsMerging.eq {service : Service} (h : service.PutsMerging) :
    ∃ heap8 keyPointer dataPointer size type priority anonymity replication expiry cont contCls,
      service = .op (.put heap8 keyPointer false dataPointer size type priority anonymity
        replication expiry cont contCls) := by
  unfold PutsMerging at h
  split at h
  · exact ⟨_, _, _, _, _, _, _, _, _, _, _, rfl⟩
  · cases h

theorem Service.cursorSucceeds {service : Service} (h : ¬ service.PutsMerging) (turn : Turn) :
    service.CursorSucceeds turn := by
  unfold CursorSucceeds
  split
  · exact absurd trivial h
  · trivial

/-- The calls that are answered whatever fails. -/
theorem Service.serves (service : Service) (answer : Call → Int) (turns : Nat → Turn)
    (hput : ¬ service.PutsMerging) : ∃ c, service.Answers c ∧
      Serves answer turns service.script [c] := by
  have hfull := (turns 0).full
  cases service with
  | op o =>
    cases o with
    | put heap8 keyPointer absent dataPointer size type priority anonymity replication expiry cont
        contCls =>
      cases absent with
      | false => exact absurd trivial hput
      | true => exact Once.serves (doPut_once fun status => ⟨status, rfl⟩)
    | removeKey heap8 keyPointer size dataPointer cont contCls =>
      exact Once.serves (removeKey_once hfull fun status => ⟨status, rfl⟩)
    | getReplication proc procCls =>
      exact Once.serves (getReplication_once hfull fun datum => ⟨datum, rfl⟩)
    | getExpiration proc procCls now =>
      exact Once.serves (getExpiration_once hfull fun datum => ⟨datum, rfl⟩)
  | getKey heap8 nextUid keyPointer type proc procCls =>
    exact Once.serves_again (getKey_once hfull (fun datum => .inl ⟨datum, rfl⟩) fun _ => .inr rfl)
      rfl (getKey_once (turns 1).full (fun datum => ⟨datum, rfl⟩) fun hne => absurd rfl hne)
  | getZeroAnonymity nextUid type proc procCls =>
    exact Once.serves_again
      (getZeroAnonymity_once hfull (fun datum => .inl ⟨datum, rfl⟩) fun _ => .inr rfl) rfl
      (getZeroAnonymity_once (turns 1).full (fun datum => ⟨datum, rfl⟩) fun hne => absurd rfl hne)

/-- **When a call is answered exactly once.**  It always is, but for a put that is not
`absent` and whose cursor fails. -/
theorem answered_once_iff (service : Service) (answer : Call → Int) (turns : Nat → Turn) :
    ∃ os, Serves answer turns service.script os ∧
      (∀ os', Serves answer turns service.script os' → os' = os) ∧
      ((∃ c, os = [c] ∧ service.Answers c) ↔ service.CursorSucceeds (turns 0)) := by
  have hexists : ∃ os, Serves answer turns service.script os ∧
      ((∃ c, os = [c] ∧ service.Answers c) ↔ service.CursorSucceeds (turns 0)) := by
    by_cases hput : service.PutsMerging
    · obtain ⟨heap8, keyPointer, dataPointer, size, type, priority, anonymity, replication, expiry,
        cont, contCls, rfl⟩ := hput.eq
      have hcont : ∀ status, Service.Answers (.op (.put heap8 keyPointer false dataPointer size type
          priority anonymity replication expiry cont contCls))
          (.cont cont contCls keyPointer size status) := fun status => ⟨status, rfl⟩
      obtain ⟨os, hruns, hos⟩ := putInt_runs (turns 0).full hcont (turns 0).succeeds
      refine ⟨os, .last hruns ?_, ?_⟩
      · rcases hos with ⟨⟨c, rfl, hc⟩, _⟩ | ⟨rfl, _⟩
        · intro c' hc'
          rw [List.mem_singleton.mp hc']
          exact Service.restart_eq_none hc _
        · exact fun c hc => absurd hc List.not_mem_nil
      · rcases hos with ⟨hc, hok⟩ | ⟨rfl, hfail⟩
        · exact iff_of_true hc hok
        · exact iff_of_false (fun ⟨c, he, _⟩ => nomatch he) hfail
    · obtain ⟨c, hc, hserves⟩ := service.serves answer turns hput
      exact ⟨[c], hserves, iff_of_true ⟨c, rfl, hc⟩ (Service.cursorSucceeds hput _)⟩
  obtain ⟨os, hserves, hiff⟩ := hexists
  exact ⟨os, hserves, fun os' h => h.unique hserves, hiff⟩

/-- The store is empty, and every request fails. -/
def failing : Turn where
  heap8 := fun _ => 0
  store := .empty
  full := fun _ hr => absurd hr List.not_mem_nil
  succeeds := fun _ => false

/-- A put whose cursor fails is not answered. -/
theorem put_not_answered :
    Serves (fun _ => 0) (fun _ => failing)
        (Service.op (.put (fun _ => 0) 16 false 80 3 1 0 0 0 0 7 9)).script [] ∧
      ∀ os, Serves (fun _ => 0) (fun _ => failing)
        (Service.op (.put (fun _ => 0) 16 false 80 3 1 0 0 0 0 7 9)).script os → os = [] := by
  have hserves : Serves (fun _ => 0) (fun _ => failing)
      (Service.op (.put (fun _ => 0) 16 false 80 3 1 0 0 0 0 7 9)).script [] :=
    .last (.failed (.inl rfl) .done) fun _ hc => absurd hc List.not_mem_nil
  exact ⟨hserves, fun os h => h.unique hserves⟩

end GnunetWeb.Datastore
