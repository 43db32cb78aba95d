import GnunetWeb.Library.IndexedDB.Store
import Mathlib.Data.List.TakeWhile

/-!
# Transactions

A transaction works off its requests in the order in which they were made.  Each
request runs one of its two handlers, which may make calls, whose results it may look
at, and further requests; the handler of a cursor may let it continue.  The handlers
share local variables.  A request that fails makes the transaction abort.

Proved here:

* `Drains.unique`, `Finishes.unique`, `Commits.unique`: what a transaction does is
  determined by which requests fail;
* `Finishes.request_inv`, `Commits.request_inv`: what has committed started with a request
  that succeeded;
* `Finishes.request`, `Finishes.walk`, `Finishes.walkRequest`, `Finishes.deleteAll`: a
  request, a cursor that leaves the records alone, one that makes a request for each of
  them, one that deletes them;
* `Commits.call`, `Commits.request`, `Commits.cursor`, `Commits.find`, `Commits.first`:
  the rules for scripts that start with a call, with a request, and with a cursor;
* `Finishes.walk_inv`, `Commits.find_inv`: what a search that has committed has found.
-/

namespace IndexedDB

inductive Request (ρ : Type) where
  | add (value : ρ)
  | put (primaryKey : Nat) (value : ρ)
  | delete (primaryKey : Nat)
  | get (primaryKey : Nat)
  | count (index : Index ρ) (key : Key)
  | cursor (c : Cursor ρ)

/-- `request.result` -/
inductive Result (ρ : Type) where
  | key (k : Nat)
  | value (v : Option ρ)
  | count (n : Nat)
  | cursor (e : Option (Entry ρ))
  | undefined

/-- What a handler does: calls of `ω`, local variables of `σ`, requests, and
`cursor.continue()`. -/
inductive Script (ρ ω σ : Type) where
  | done
  | call (o : ω) (next : Int → Script ρ ω σ)
  | read (next : σ → Script ρ ω σ)
  | write (x : σ) (next : Script ρ ω σ)
  | request (r : Request ρ) (onsuccess : Result ρ → Script ρ ω σ)
      (onerror next : Script ρ ω σ)
  | continue (next : Script ρ ω σ)
  | abort (next : Script ρ ω σ)

/-- A request with its handlers. -/
structure Pending (ρ ω σ : Type) where
  request : Request ρ
  onsuccess : Result ρ → Script ρ ω σ
  onerror : Script ρ ω σ

/-- What running a handler leaves behind. -/
structure Outcome (ρ ω σ : Type) where
  requests : List (Pending ρ ω σ)
  calls : List ω
  aborted : Bool
  vars : σ

structure Transaction (ρ ω σ : Type) where
  store : ObjectStore ρ
  queue : List (Pending ρ ω σ)
  aborted : Bool
  vars : σ

variable {ρ ω σ : Type}

namespace Request

/-- The request on the store; a generator that has run out makes `add` fail. -/
def perform (s : ObjectStore ρ) : Request ρ → Option (ObjectStore ρ × Result ρ)
  | add value => if s.generator ≤ maxGenerated then some (s.add value, .key s.generator) else none
  | put k value => some (s.put k value, .key k)
  | delete k => some (s.delete k, .undefined)
  | get k => some (s, .value (s.get k))
  | count index k => some (s, .count (Cursor.entries s index (.only k)).length)
  | cursor c => some (s, .cursor (c.advance s))

end Request

namespace Pending

/-- The request that `continue` makes again. -/
def resume (p : Pending ρ ω σ) : Result ρ → List (Pending ρ ω σ)
  | .cursor (some e) =>
    match p.request with
    | .cursor c => [{ p with request := .cursor (c.moveTo e) }]
    | _ => []
  | _ => []

end Pending

namespace Script

/-- A handler runs; `answer` is what the calls return. -/
def run (answer : ω → Int) (resume : List (Pending ρ ω σ)) : Script ρ ω σ → σ → Outcome ρ ω σ
  | done, x => ⟨[], [], false, x⟩
  | call o next, x =>
    let r := run answer resume (next (answer o)) x
    { r with calls := o :: r.calls }
  | read next, x => run answer resume (next x) x
  | write x next, _ => run answer resume next x
  | request q onsuccess onerror next, x =>
    let r := run answer resume next x
    { r with requests := ⟨q, onsuccess, onerror⟩ :: r.requests }
  | «continue» next, x =>
    let r := run answer resume next x
    { r with requests := resume ++ r.requests }
  | abort next, x =>
    { run answer resume next x with aborted := true }

end Script

namespace Transaction

/-- The transaction that a script starts. -/
def start (answer : ω → Int) (x : σ) (s : ObjectStore ρ) (script : Script ρ ω σ) :
    Transaction ρ ω σ × List ω :=
  let r := script.run answer [] x
  (⟨s, r.requests, r.aborted, r.vars⟩, r.calls)

/-- The first request is worked off; `succeeds` is false when it fails for a reason
that lies outside. -/
def step (answer : ω → Int) (succeeds : Bool) (t : Transaction ρ ω σ) :
    Option (Transaction ρ ω σ × List ω) :=
  match t.queue with
  | [] => none
  | p :: rest =>
    match (if succeeds then p.request.perform t.store else none) with
    | none =>
      let r := p.onerror.run answer [] t.vars
      some (⟨t.store, rest ++ r.requests, true, r.vars⟩, r.calls)
    | some (s, result) =>
      let r := (p.onsuccess result).run answer (p.resume result) t.vars
      some (⟨s, rest ++ r.requests, t.aborted || r.aborted, r.vars⟩, r.calls)

/-- From `t`, the requests succeed or fail as `oks` says, with the calls `os`, until
none is left. -/
inductive Drains (answer : ω → Int) :
    Transaction ρ ω σ → List Bool → List ω → Transaction ρ ω σ → Prop
  | nil {t : Transaction ρ ω σ} : t.queue = [] → Drains answer t [] [] t
  | cons {t t' u : Transaction ρ ω σ} {ok : Bool} {oks : List Bool} {o os : List ω} :
      t.step answer ok = some (t', o) → Drains answer t' oks os u →
        Drains answer t (ok :: oks) (o ++ os) u

/-- No request fails from `t` on, and the store is `s'` in the end. -/
def Finishes (answer : ω → Int) (t : Transaction ρ ω σ) (os : List ω) (s' : ObjectStore ρ) :
    Prop :=
  ∃ n u, t.Drains answer (List.replicate n true) os u ∧ u.aborted = false ∧ u.store = s'

/-- The script runs with the calls `os`; no request fails, and the store is `s'`
afterwards. -/
def Commits (answer : ω → Int) (x : σ) (s : ObjectStore ρ) (script : Script ρ ω σ) (os : List ω)
    (s' : ObjectStore ρ) : Prop :=
  ∃ os', (start answer x s script).1.Finishes answer os' s' ∧
    os = (start answer x s script).2 ++ os'

variable {answer : ω → Int}

theorem Drains.unique {t u u' : Transaction ρ ω σ} {oks : List Bool} {os os' : List ω}
    (h : t.Drains answer oks os u) (h' : t.Drains answer oks os' u') : os = os' ∧ u = u' := by
  induction h generalizing os' u' with
  | nil hq =>
    cases h' with
    | nil _ => exact ⟨rfl, rfl⟩
  | cons hs _ ih =>
    cases h' with
    | cons hs' h' =>
      obtain ⟨rfl, rfl⟩ := Prod.mk.inj (Option.some.inj (hs.symm.trans hs'))
      obtain ⟨rfl, rfl⟩ := ih h'
      exact ⟨rfl, rfl⟩

/-- A transaction whose queue is empty makes no step. -/
theorem Drains.length_unique {n m : Nat} {t u u' : Transaction ρ ω σ} {os os' : List ω}
    (h : t.Drains answer (List.replicate n true) os u)
    (h' : t.Drains answer (List.replicate m true) os' u') : n = m := by
  induction n generalizing m t u u' os os' with
  | zero =>
    cases h with
    | nil hq =>
      cases m with
      | zero => rfl
      | succ m =>
        cases h' with
        | cons hs _ => simp [step, hq] at hs
  | succ n ih =>
    cases h with
    | cons hs h =>
      cases m with
      | zero =>
        cases h' with
        | nil hq => simp [step, hq] at hs
      | succ m =>
        cases h' with
        | cons hs' h' =>
          obtain ⟨rfl, rfl⟩ := Prod.mk.inj (Option.some.inj (hs.symm.trans hs'))
          rw [ih h h']

theorem Finishes.unique {t : Transaction ρ ω σ} {s' s'' : ObjectStore ρ} {os os' : List ω}
    (h : t.Finishes answer os s') (h' : t.Finishes answer os' s'') : os = os' ∧ s' = s'' := by
  obtain ⟨n, u, hd, _, rfl⟩ := h
  obtain ⟨m, u', hd', _, rfl⟩ := h'
  obtain rfl := hd.length_unique hd'
  obtain ⟨rfl, rfl⟩ := hd.unique hd'
  exact ⟨rfl, rfl⟩

theorem Commits.unique {x : σ} {s s' s'' : ObjectStore ρ} {script : Script ρ ω σ}
    {os os' : List ω} (h : Commits answer x s script os s')
    (h' : Commits answer x s script os' s'') : os = os' ∧ s' = s'' := by
  obtain ⟨o, hf, rfl⟩ := h
  obtain ⟨o', hf', rfl⟩ := h'
  obtain ⟨rfl, rfl⟩ := hf.unique hf'
  exact ⟨rfl, rfl⟩

/-! ## What has been aborted does not commit -/

theorem Drains.aborted {t u : Transaction ρ ω σ} {oks : List Bool} {os : List ω}
    (h : t.Drains answer oks os u) (ha : t.aborted = true) : u.aborted = true := by
  induction h with
  | nil _ => exact ha
  | @cons t t' u ok oks o os hs _ ih =>
    refine ih ?_
    unfold step at hs
    split at hs
    · cases hs
    · split at hs
      · cases hs
        rfl
      · cases hs
        simp [ha]

theorem Finishes.not_aborted {t : Transaction ρ ω σ} {os : List ω} {s' : ObjectStore ρ}
    (h : t.Finishes answer os s') : t.aborted = false := by
  obtain ⟨n, u, hd, ha, -⟩ := h
  cases h : t.aborted with
  | false => rfl
  | true => rw [hd.aborted h] at ha; cases ha

/-- The first request of a transaction that finishes has succeeded. -/
theorem Finishes.request_inv {s s'' : ObjectStore ρ} {q : Request ρ}
    {onsuccess : Result ρ → Script ρ ω σ} {onerror : Script ρ ω σ} {x : σ} {os : List ω}
    (h : Finishes answer ⟨s, [⟨q, onsuccess, onerror⟩], false, x⟩ os s'') :
    ∃ s' result, q.perform s = some (s', result) ∧
      ∃ r os',
        (onsuccess result).run answer ((Pending.mk q onsuccess onerror).resume result) x = r ∧
        os = r.calls ++ os' ∧ Finishes answer ⟨s', r.requests, r.aborted, r.vars⟩ os' s'' := by
  obtain ⟨n, u, hd, ha, hu⟩ := h
  cases n with
  | zero =>
    cases hd with
    | nil hq => cases hq
  | succ n =>
    cases hd with
    | cons hs hd =>
      unfold step at hs
      simp only [if_true] at hs
      split at hs
      · cases hs
        rw [hd.aborted rfl] at ha
        cases ha
      · rename_i s' result hq
        cases hs
        refine ⟨s', result, hq, _, _, rfl, rfl, n, u, ?_, ha, hu⟩
        simpa using hd

/-! ## The requests of a transaction -/

theorem Finishes.nil (s : ObjectStore ρ) (x : σ) :
    Finishes (ω := ω) answer ⟨s, [], false, x⟩ [] s :=
  ⟨0, _, .nil rfl, rfl, rfl⟩

/-- **The first request of the queue.** -/
theorem Finishes.request {s s' s'' : ObjectStore ρ} {q : Request ρ}
    {onsuccess : Result ρ → Script ρ ω σ} {onerror : Script ρ ω σ} {rest : List (Pending ρ ω σ)}
    {result : Result ρ} {aborted : Bool} {x : σ} {os : List ω} {r : Outcome ρ ω σ}
    (hq : q.perform s = some (s', result))
    (hr : (onsuccess result).run answer ((Pending.mk q onsuccess onerror).resume result) x = r)
    (h : Finishes answer ⟨s', rest ++ r.requests, aborted || r.aborted, r.vars⟩ os s'') :
    Finishes answer ⟨s, ⟨q, onsuccess, onerror⟩ :: rest, aborted, x⟩ (r.calls ++ os) s'' := by
  obtain ⟨n, u, hd, ha, hs⟩ := h
  have hstep : step answer true ⟨s, ⟨q, onsuccess, onerror⟩ :: rest, aborted, x⟩ =
      some (⟨s', rest ++ r.requests, aborted || r.aborted, r.vars⟩, r.calls) := by
    simp [step, hq, hr]
  exact ⟨n + 1, u, .cons hstep hd, ha, hs⟩

theorem Request.perform_cursor {s : ObjectStore ρ} {c : Cursor ρ} {l : List (Entry ρ)}
    (h : c.ahead s = l) : Request.perform s (.cursor c) = some (s, .cursor l.head?) := by
  rw [Request.perform, c.advance_eq, h]

/-- **A walk of a cursor.**  Its handler only makes calls and continues, as long as it
comes to records of `before`. -/
theorem Finishes.walk {s s' : ObjectStore ρ} {onsuccess : Result ρ → Script ρ ω σ}
    {onerror : Script ρ ω σ} {calls : Entry ρ → List ω} {aborted : Bool} {x : σ}
    {before rest : List (Entry ρ)} {os : List ω}
    (hwalk : ∀ e ∈ before, ∀ resume,
      (onsuccess (.cursor (some e))).run answer resume x = ⟨resume, calls e, false, x⟩)
    {c : Cursor ρ} (hd : c.direction ≠ .nextunique) (hc : c.ahead s = before ++ rest)
    (h : ∀ c' : Cursor ρ, c'.ahead s = rest →
      Finishes answer ⟨s, [⟨.cursor c', onsuccess, onerror⟩], aborted, x⟩ os s') :
    Finishes answer ⟨s, [⟨.cursor c, onsuccess, onerror⟩], aborted, x⟩
      (before.flatMap calls ++ os) s' := by
  induction before generalizing c with
  | nil => exact h c hc
  | cons e before ih =>
    have hnext := ih (fun e' he' => hwalk e' (List.mem_cons_of_mem e he'))
      (show (c.moveTo e).direction ≠ .nextunique from hd) (Cursor.ahead_moveTo hd hc)
    rw [List.flatMap_cons, List.append_assoc]
    refine Finishes.request (Request.perform_cursor hc) (hwalk e List.mem_cons_self _) ?_
    rw [Bool.or_false]
    exact hnext

/-- **A walk with a request for each record.**  The handler makes it and continues; the
request leaves the store alone, and its own handler makes the calls. -/
theorem Finishes.walkRequest {s s' : ObjectStore ρ} {onsuccess : Result ρ → Script ρ ω σ}
    {onerror : Script ρ ω σ} {q : Entry ρ → Pending ρ ω σ} {calls : Entry ρ → List ω}
    {aborted : Bool} {x : σ} {before rest : List (Entry ρ)} {os : List ω}
    (hwalk : ∀ e ∈ before, ∀ resume,
      (onsuccess (.cursor (some e))).run answer resume x = ⟨q e :: resume, [], false, x⟩)
    (hq : ∀ e ∈ before, ∃ result, (q e).request.perform s = some (s, result) ∧
      ((q e).onsuccess result).run answer ((q e).resume result) x = ⟨[], calls e, false, x⟩)
    {c : Cursor ρ} (hc : c.ahead s = before ++ rest)
    (hmove : ∀ (c' : Cursor ρ) e l, c'.index = c.index → c'.range = c.range →
      c'.direction = c.direction → c'.ahead s = e :: l → (c'.moveTo e).ahead s = l)
    (h : ∀ c' : Cursor ρ, c'.ahead s = rest →
      Finishes answer ⟨s, [⟨.cursor c', onsuccess, onerror⟩], aborted, x⟩ os s') :
    Finishes answer ⟨s, [⟨.cursor c, onsuccess, onerror⟩], aborted, x⟩
      (before.flatMap calls ++ os) s' := by
  induction before generalizing c with
  | nil => exact h c hc
  | cons e before ih =>
    have hnext := ih (fun e' he' => hwalk e' (List.mem_cons_of_mem e he'))
      (fun e' he' => hq e' (List.mem_cons_of_mem e he')) (hmove c e _ rfl rfl rfl hc) hmove
    obtain ⟨result, hperform, hrun⟩ := hq e List.mem_cons_self
    have hrequest : Finishes answer
        ⟨s, [q e, ⟨.cursor (c.moveTo e), onsuccess, onerror⟩], aborted, x⟩
        (calls e ++ (before.flatMap calls ++ os)) s' :=
      Finishes.request hperform hrun (by rw [Bool.or_false]; exact hnext)
    rw [List.flatMap_cons, List.append_assoc]
    refine Finishes.request (Request.perform_cursor hc) (hwalk e List.mem_cons_self _) ?_
    rw [Bool.or_false]
    exact hrequest

/-- **What has finished has walked over the records** with which the handler only makes
calls and continues. -/
theorem Finishes.walk_inv {s s' : ObjectStore ρ} {onsuccess : Result ρ → Script ρ ω σ}
    {onerror : Script ρ ω σ} {calls : Entry ρ → List ω} {x : σ}
    {before rest : List (Entry ρ)} {os : List ω}
    (hwalk : ∀ e ∈ before, ∀ resume,
      (onsuccess (.cursor (some e))).run answer resume x = ⟨resume, calls e, false, x⟩)
    {c : Cursor ρ} (hd : c.direction ≠ .nextunique) (hc : c.ahead s = before ++ rest)
    (h : Finishes answer ⟨s, [⟨.cursor c, onsuccess, onerror⟩], false, x⟩ os s') :
    ∃ (c' : Cursor ρ) (os' : List ω), c'.ahead s = rest ∧ os = before.flatMap calls ++ os' ∧
      Finishes answer ⟨s, [⟨.cursor c', onsuccess, onerror⟩], false, x⟩ os' s' := by
  induction before generalizing c os with
  | nil => exact ⟨c, os, hc, rfl, h⟩
  | cons e before ih =>
    obtain ⟨s₁, result, hq, r, os₁, hr, rfl, hf⟩ := h.request_inv
    obtain ⟨rfl, rfl⟩ := Prod.mk.inj (Option.some.inj (hq.symm.trans (Request.perform_cursor hc)))
    obtain rfl := hr.symm.trans (hwalk e List.mem_cons_self _)
    obtain ⟨c', os', hc', rfl, hf'⟩ := ih (fun e' he' => hwalk e' (List.mem_cons_of_mem e he'))
      (show (c.moveTo e).direction ≠ .nextunique from hd) (Cursor.ahead_moveTo hd hc) hf
    exact ⟨c', os', hc', by rw [List.flatMap_cons, List.append_assoc], hf'⟩

/-- **A walk that deletes.**  The handler deletes each record, changes the variables and
continues. -/
theorem Finishes.deleteAll {s s' : ObjectStore ρ} {onsuccess : Result ρ → Script ρ ω σ}
    {onerror d : Script ρ ω σ} {f : σ → σ} {aborted : Bool} {x : σ}
    {l : List (Entry ρ)} {os : List ω}
    (hwalk : ∀ e ∈ l, ∀ resume x, (onsuccess (.cursor (some e))).run answer resume x =
      ⟨⟨.delete e.primaryKey, fun _ => .done, d⟩ :: resume, [], false, f x⟩)
    {c : Cursor ρ} (hd : c.direction ≠ .nextunique) (hc : c.ahead s = l)
    (h : ∀ c' : Cursor ρ, c'.ahead (l.foldl (fun s e => s.delete e.primaryKey) s) = [] →
      Finishes answer ⟨l.foldl (fun s e => s.delete e.primaryKey) s,
        [⟨.cursor c', onsuccess, onerror⟩], aborted, f^[l.length] x⟩ os s') :
    Finishes answer ⟨s, [⟨.cursor c, onsuccess, onerror⟩], aborted, x⟩ os s' := by
  induction l generalizing s c x with
  | nil => exact h c hc
  | cons e l ih =>
    have hnext := ih (x := f x) (fun e' he' => hwalk e' (List.mem_cons_of_mem e he'))
      (show (c.moveTo e).direction ≠ .nextunique from hd) (Cursor.ahead_moveTo_delete hd hc) h
    have hdelete : Finishes answer ⟨s, [⟨.delete e.primaryKey, fun _ => .done, d⟩,
        ⟨.cursor (c.moveTo e), onsuccess, onerror⟩], aborted, f x⟩ os s' :=
      Finishes.request rfl rfl (by simpa [Script.run] using hnext)
    refine Finishes.request (Request.perform_cursor hc) (hwalk e List.mem_cons_self _ _) ?_
    rw [Bool.or_false]
    exact hdelete

/-- The last handler of a cursor: it does not continue. -/
theorem Finishes.last {s s' : ObjectStore ρ} {onsuccess : Result ρ → Script ρ ω σ}
    {onerror : Script ρ ω σ} {x : σ} {l : List (Entry ρ)} {os : List ω} {c : Cursor ρ}
    (hc : c.ahead s = l)
    (hstop : ∀ resume, (onsuccess (.cursor l.head?)).run answer resume x =
      (onsuccess (.cursor l.head?)).run answer [] x)
    (h : Commits answer x s (onsuccess (.cursor l.head?)) os s') :
    Finishes answer ⟨s, [⟨.cursor c, onsuccess, onerror⟩], false, x⟩ os s' := by
  obtain ⟨os', hf, rfl⟩ := h
  exact Finishes.request (Request.perform_cursor hc) (hstop _) hf

/-! ## Scripts -/

theorem Commits.done (x : σ) (s : ObjectStore ρ) : Commits (ω := ω) answer x s .done [] s :=
  ⟨[], .nil s x, rfl⟩

/-- **The rule of a call.** -/
theorem Commits.call {x : σ} {s s' : ObjectStore ρ} {o : ω} {next : Int → Script ρ ω σ}
    {os : List ω} (h : Commits answer x s (next (answer o)) os s') :
    Commits answer x s (.call o next) (o :: os) s' := by
  obtain ⟨os', hf, rfl⟩ := h
  exact ⟨os', hf, rfl⟩

theorem Commits.read {x : σ} {s s' : ObjectStore ρ} {next : σ → Script ρ ω σ} {os : List ω}
    (h : Commits answer x s (next x) os s') : Commits answer x s (.read next) os s' := h

/-- **The rule of a request.** -/
theorem Commits.request {x : σ} {s s' s'' : ObjectStore ρ} {q : Request ρ}
    {onsuccess : Result ρ → Script ρ ω σ} {onerror : Script ρ ω σ} {result : Result ρ}
    {os : List ω} (hq : q.perform s = some (s', result))
    (hresume : (Pending.mk q onsuccess onerror).resume result = [])
    (h : Commits answer x s' (onsuccess result) os s'') :
    Commits answer x s (.request q onsuccess onerror .done) os s'' := by
  obtain ⟨os', hf, rfl⟩ := h
  have hrun : Finishes answer ⟨s, [⟨q, onsuccess, onerror⟩], false, x⟩ _ s'' :=
    Finishes.request hq (by rw [hresume]) hf
  exact ⟨_, hrun, rfl⟩

/-- A script that has started with a request. -/
theorem Commits.request_inv {x : σ} {s s'' : ObjectStore ρ} {q : Request ρ}
    {onsuccess : Result ρ → Script ρ ω σ} {onerror : Script ρ ω σ} {os : List ω}
    (h : Commits answer x s (.request q onsuccess onerror .done) os s'') :
    ∃ s' result, q.perform s = some (s', result) ∧
      ((Pending.mk q onsuccess onerror).resume result = [] →
        Commits answer x s' (onsuccess result) os s'') := by
  obtain ⟨os', hf, rfl⟩ := h
  obtain ⟨s', result, hq, r, os'', hr, hos, hf⟩ := Finishes.request_inv hf
  refine ⟨s', result, hq, fun hresume => ?_⟩
  rw [hresume] at hr
  subst hr
  exact ⟨os'', hf, hos⟩

theorem Commits.not_abort {x : σ} {s s' : ObjectStore ρ} {next : Script ρ ω σ} {os : List ω} :
    ¬ Commits answer x s (.abort next) os s' := by
  rintro ⟨os', hf, -⟩
  cases hf.not_aborted

/-- **The rule of a cursor.** -/
theorem Commits.cursor {x : σ} {s s' : ObjectStore ρ} {c : Cursor ρ}
    {onsuccess : Result ρ → Script ρ ω σ} {onerror : Script ρ ω σ} {os : List ω}
    (h : Finishes answer ⟨s, [⟨.cursor c, onsuccess, onerror⟩], false, x⟩ os s') :
    Commits answer x s (.request (.cursor c) onsuccess onerror .done) os s' :=
  ⟨os, h, rfl⟩

/-- **The rule of a search.**  The handler of a cursor continues with the records that
`p` rejects; `found` and the script for the end do not continue. -/
theorem Commits.find {x : σ} {s s' : ObjectStore ρ} {index : Index ρ} {range : Range}
    {direction : Direction} (hd : direction ≠ .nextunique) {onsuccess : Result ρ → Script ρ ω σ}
    {onerror : Script ρ ω σ} {os : List ω} {p : Entry ρ → Bool}
    (hskip : ∀ e ∈ Cursor.visited s index range direction, ¬ p e →
      onsuccess (.cursor (some e)) = .continue .done)
    (hstop : ∀ resume,
      (onsuccess (.cursor ((Cursor.visited s index range direction).find? p))).run answer resume x =
        (onsuccess (.cursor ((Cursor.visited s index range direction).find? p))).run answer [] x)
    (h : Commits answer x s (onsuccess (.cursor ((Cursor.visited s index range direction).find? p)))
      os s') :
    Commits answer x s (.request (.cursor ⟨index, range, direction, none⟩) onsuccess onerror .done)
      os s' := by
  -- the records before the one that is found are rejected
  have hsplit := List.takeWhile_append_dropWhile (p := fun e => !p e)
    (l := Cursor.visited s index range direction)
  have hfind := List.find?_eq_head?_dropWhile_not p (Cursor.visited s index range direction)
  have hahead := Cursor.ahead_start s index range direction
  rw [← hsplit] at hahead
  rw [hfind] at hstop h
  have hwalk := @Finishes.walk _ _ _ answer _ _ onsuccess onerror (fun _ => []) false x _ _ _
    (fun e he resume => by
      have hmem := List.mem_takeWhile_imp he
      rw [hskip e ((List.takeWhile_sublist _).subset he) (by simpa using hmem)]
      simp [Script.run]) _ hd hahead fun c' hc' => Finishes.last hc' hstop h
  rw [List.flatMap_eq_nil_iff.mpr (fun _ _ => rfl), List.nil_append] at hwalk
  exact .cursor hwalk

/-- A script that has started with a search. -/
theorem Commits.find_inv {x : σ} {s s' : ObjectStore ρ} {index : Index ρ} {range : Range}
    {direction : Direction} (hd : direction ≠ .nextunique) {onsuccess : Result ρ → Script ρ ω σ}
    {onerror : Script ρ ω σ} {os : List ω} {p : Entry ρ → Bool}
    (hskip : ∀ e ∈ Cursor.visited s index range direction, ¬ p e →
      onsuccess (.cursor (some e)) = .continue .done)
    (hstop : ∀ resume,
      (onsuccess (.cursor ((Cursor.visited s index range direction).find? p))).run answer resume x =
        (onsuccess (.cursor ((Cursor.visited s index range direction).find? p))).run answer [] x)
    (h : Commits answer x s
      (.request (.cursor ⟨index, range, direction, none⟩) onsuccess onerror .done) os s') :
    Commits answer x s (onsuccess (.cursor ((Cursor.visited s index range direction).find? p)))
      os s' := by
  have hahead := Cursor.ahead_start s index range direction
  rw [← List.takeWhile_append_dropWhile (p := fun e => !p e)
    (l := Cursor.visited s index range direction)] at hahead
  rw [List.find?_eq_head?_dropWhile_not] at hstop ⊢
  obtain ⟨os', hf, rfl⟩ := h
  obtain ⟨c', os'', hc', rfl, hf'⟩ := @Finishes.walk_inv _ _ _ answer _ _ onsuccess
    onerror (fun _ => []) x _ _ _ (fun e he resume => by
      have hmem := List.mem_takeWhile_imp he
      rw [hskip e ((List.takeWhile_sublist _).subset he) (by simpa using hmem)]
      simp [Script.run]) _ hd hahead hf
  obtain ⟨s₁, result, hq, r, os₁, hr, rfl, hf''⟩ := hf'.request_inv
  obtain ⟨rfl, rfl⟩ := Prod.mk.inj (Option.some.inj (hq.symm.trans (Request.perform_cursor hc')))
  obtain rfl := hr.symm.trans (hstop _)
  refine ⟨os₁, hf'', ?_⟩
  rw [List.flatMap_eq_nil_iff.mpr fun _ _ => rfl]
  rfl

/-- **The rule of a first record.**  The handler of a cursor does not continue. -/
theorem Commits.first {x : σ} {s s' : ObjectStore ρ} {index : Index ρ} {range : Range}
    {direction : Direction} {onsuccess : Result ρ → Script ρ ω σ} {onerror : Script ρ ω σ}
    {os : List ω}
    (hstop : ∀ resume,
      (onsuccess (.cursor (Cursor.visited s index range direction).head?)).run answer resume x =
        (onsuccess (.cursor (Cursor.visited s index range direction).head?)).run answer [] x)
    (h : Commits answer x s (onsuccess (.cursor (Cursor.visited s index range direction).head?))
      os s') :
    Commits answer x s (.request (.cursor ⟨index, range, direction, none⟩) onsuccess onerror .done)
      os s' :=
  .cursor (.last (Cursor.ahead_start s index range direction) hstop h)

end Transaction

end IndexedDB
