import GnunetWeb.Library.IndexedDB.Transaction

/-!
# Transactions whose requests may fail

The requests of a transaction succeed or fail, one after the other, as a sequence of
booleans says.  A failed request runs its own `onerror`.

Proved here:

* `Runs.unique`: the sequence determines the calls;
* `Runs.call`, `Runs.request`, `Runs.failed`: the rules for calls and requests;
* `Runs.search`, `Runs.search_failed`: a cursor that continues until it has found a record,
  and one that fails on the way.
-/

namespace IndexedDB.Transaction

variable {ρ ω σ : Type}

/-- The sequence after its first `n` members. -/
def after (succeeds : Nat → Bool) (n : Nat) : Nat → Bool := fun i => succeeds (n + i)

theorem after_zero (succeeds : Nat → Bool) : after succeeds 0 = succeeds := by
  funext i
  rw [after, Nat.zero_add]

theorem after_after (succeeds : Nat → Bool) (n m : Nat) :
    after (after succeeds n) m = after succeeds (n + m) := by
  funext i
  rw [after, after, after, Nat.add_assoc]

/-- The first `n + 1` members are true, or one of them is the first that is not. -/
theorem first_failure (succeeds : Nat → Bool) (n : Nat) : (∀ i ≤ n, succeeds i) ∨
    ∃ k ≤ n, succeeds k = false ∧ ∀ i < k, succeeds i := by
  induction n with
  | zero =>
    cases h : succeeds 0 with
    | false => exact .inr ⟨0, Nat.le_refl 0, h, fun i hi => absurd hi (Nat.not_lt_zero i)⟩
    | true => exact .inl fun i hi => by rw [Nat.le_zero.mp hi, h]
  | succ n ih =>
    rcases ih with hall | ⟨k, hk, hfail, hok⟩
    · cases h : succeeds (n + 1) with
      | false => exact .inr ⟨n + 1, Nat.le_refl _, h, fun i hi => hall i (Nat.le_of_lt_succ hi)⟩
      | true =>
        refine .inl fun i hi => ?_
        rcases Nat.le_or_eq_of_le_succ hi with hi | rfl
        · exact hall i hi
        · exact h
    · exact .inr ⟨k, Nat.le_succ_of_le hk, hfail, hok⟩

/-- From `t`, the requests succeed or fail in turn, with the calls `os`, until none is
left. -/
inductive Ends (answer : ω → Int) : Transaction ρ ω σ → (Nat → Bool) → List ω → Prop
  | nil {t : Transaction ρ ω σ} {succeeds : Nat → Bool} : t.queue = [] → Ends answer t succeeds []
  | cons {t t' : Transaction ρ ω σ} {succeeds : Nat → Bool} {o os : List ω} :
      t.step answer (succeeds 0) = some (t', o) → Ends answer t' (after succeeds 1) os →
        Ends answer t succeeds (o ++ os)

/-- The script runs with the calls `os`. -/
def Runs (answer : ω → Int) (x : σ) (s : ObjectStore ρ) (succeeds : Nat → Bool)
    (script : Script ρ ω σ) (os : List ω) : Prop :=
  ∃ os', Ends answer (start answer x s script).1 succeeds os' ∧
    os = (start answer x s script).2 ++ os'

variable {answer : ω → Int} {s : ObjectStore ρ} {succeeds : Nat → Bool} {x : σ}

theorem Ends.unique {t : Transaction ρ ω σ} {os os' : List ω} (h : t.Ends answer succeeds os)
    (h' : t.Ends answer succeeds os') : os = os' := by
  induction h generalizing os' with
  | nil hq =>
    cases h' with
    | nil _ => rfl
    | cons hs _ => simp [step, hq] at hs
  | cons hs _ ih =>
    cases h' with
    | nil hq => simp [step, hq] at hs
    | cons hs' h' =>
      obtain ⟨rfl, rfl⟩ := Prod.mk.inj (Option.some.inj (hs.symm.trans hs'))
      rw [ih h']

theorem Runs.unique {script : Script ρ ω σ} {os os' : List ω}
    (h : Runs answer x s succeeds script os) (h' : Runs answer x s succeeds script os') :
    os = os' := by
  obtain ⟨o, hends, rfl⟩ := h
  obtain ⟨o', hends', rfl⟩ := h'
  rw [hends.unique hends']

/-- Whether it has been aborted makes no difference to the calls. -/
theorem Ends.aborted {queue : List (Pending ρ ω σ)} {a : Bool} {os : List ω}
    (h : Ends answer ⟨s, queue, a, x⟩ succeeds os) (a' : Bool) :
    Ends answer ⟨s, queue, a', x⟩ succeeds os := by
  generalize ht : (⟨s, queue, a, x⟩ : Transaction ρ ω σ) = t at h
  induction h generalizing s queue a a' x with
  | nil hq =>
    subst ht
    exact .nil hq
  | @cons t t' succeeds o os hs _ ih =>
    subst ht
    cases queue with
    | nil => cases hs
    | cons p rest =>
      unfold step at hs
      simp only at hs
      split at hs
      · rename_i hperform
        cases hs
        refine .cons ?_ (ih true rfl)
        unfold step
        simp only [hperform]
      · rename_i s' result hperform
        cases hs
        refine .cons ?_
          (ih (a' || ((p.onsuccess result).run answer (p.resume result) x).aborted) rfl)
        unfold step
        simp only [hperform]

/-! ## One request -/

/-- A request succeeds; the rest of the queue comes after it. -/
theorem Ends.succeeded {s' : ObjectStore ρ} {q : Request ρ}
    {onsuccess : Result ρ → Script ρ ω σ} {onerror : Script ρ ω σ} {result : Result ρ}
    {a : Bool} {os : List ω} {r : Outcome ρ ω σ} (hok : succeeds 0)
    (hq : q.perform s = some (s', result))
    (hr : (onsuccess result).run answer ((Pending.mk q onsuccess onerror).resume result) x = r)
    (h : Ends answer ⟨s', r.requests, a || r.aborted, r.vars⟩ (after succeeds 1) os) :
    Ends answer ⟨s, [⟨q, onsuccess, onerror⟩], a, x⟩ succeeds (r.calls ++ os) := by
  refine .cons ?_ h
  unfold step
  simp only [hok, if_true, hq, hr, List.nil_append]

/-- A request fails. -/
theorem Ends.failed {q : Request ρ} {onsuccess : Result ρ → Script ρ ω σ}
    {onerror : Script ρ ω σ} {a : Bool} {os : List ω}
    (hfail : succeeds 0 = false ∨ q.perform s = none)
    (h : Runs answer x s (after succeeds 1) onerror os) :
    Ends answer ⟨s, [⟨q, onsuccess, onerror⟩], a, x⟩ succeeds os := by
  obtain ⟨os', hends, rfl⟩ := h
  have hperform : (if succeeds 0 then q.perform s else none) = none := by
    rcases hfail with hf | hf
    · simp [hf]
    · simp [hf]
  refine .cons ?_ (hends.aborted true)
  unfold step
  simp only [hperform, List.nil_append]
  rfl

/-! ## Scripts -/

theorem Runs.done : Runs answer x s succeeds .done ([] : List ω) := ⟨[], .nil rfl, rfl⟩

/-- **The rule of a call.** -/
theorem Runs.call {o : ω} {next : Int → Script ρ ω σ} {os : List ω}
    (h : Runs answer x s succeeds (next (answer o)) os) :
    Runs answer x s succeeds (.call o next) (o :: os) := by
  obtain ⟨os', hends, rfl⟩ := h
  exact ⟨os', hends, rfl⟩

theorem Runs.abort {next : Script ρ ω σ} {os : List ω} (h : Runs answer x s succeeds next os) :
    Runs answer x s succeeds (.abort next) os := by
  obtain ⟨os', hends, rfl⟩ := h
  exact ⟨os', hends.aborted true, rfl⟩

/-- **The rule of a request that succeeds.** -/
theorem Runs.request {s' : ObjectStore ρ} {q : Request ρ}
    {onsuccess : Result ρ → Script ρ ω σ} {onerror : Script ρ ω σ} {result : Result ρ}
    {os : List ω} (hok : succeeds 0) (hq : q.perform s = some (s', result))
    (hresume : (Pending.mk q onsuccess onerror).resume result = [])
    (h : Runs answer x s' (after succeeds 1) (onsuccess result) os) :
    Runs answer x s succeeds (.request q onsuccess onerror .done) os := by
  obtain ⟨os', hends, rfl⟩ := h
  have hrun : Ends answer ⟨s, [⟨q, onsuccess, onerror⟩], false, x⟩ succeeds _ :=
    Ends.succeeded hok hq (by rw [hresume]) (hends.aborted _)
  exact ⟨_, hrun, rfl⟩

/-- **The rule of a request that fails.** -/
theorem Runs.failed {q : Request ρ} {onsuccess : Result ρ → Script ρ ω σ}
    {onerror : Script ρ ω σ} {os : List ω} (hfail : succeeds 0 = false ∨ q.perform s = none)
    (h : Runs answer x s (after succeeds 1) onerror os) :
    Runs answer x s succeeds (.request q onsuccess onerror .done) os :=
  ⟨_, Ends.failed hfail h, rfl⟩

/-! ## Cursors -/

/-- A cursor whose handler continues with the records of `before`. -/
theorem Ends.walk {onsuccess : Result ρ → Script ρ ω σ} {onerror : Script ρ ω σ}
    {before rest : List (Entry ρ)} {os : List ω} {a : Bool}
    (hwalk : ∀ e ∈ before, onsuccess (.cursor (some e)) = .continue .done)
    (hok : ∀ i < before.length, succeeds i)
    {c : Cursor ρ} (hd : c.direction ≠ .nextunique) (hc : c.ahead s = before ++ rest)
    (h : ∀ c' : Cursor ρ, c'.ahead s = rest →
      Ends answer ⟨s, [⟨.cursor c', onsuccess, onerror⟩], a, x⟩ (after succeeds before.length)
        os) :
    Ends answer ⟨s, [⟨.cursor c, onsuccess, onerror⟩], a, x⟩ succeeds os := by
  induction before generalizing c succeeds with
  | nil =>
    rw [List.length_nil, after_zero] at h
    exact h c hc
  | cons e before ih =>
    have hrest := @ih (after succeeds 1) (fun e' he' => hwalk e' (List.mem_cons_of_mem e he'))
      (fun i hi => hok (1 + i) (by rw [List.length_cons]; omega)) (c.moveTo e) hd
      (Cursor.ahead_moveTo hd hc) (fun c' hc' => by
        rw [after_after, Nat.add_comm]
        exact h c' hc')
    have hrun : (onsuccess (.cursor (some e))).run answer
        ((Pending.mk (.cursor c) onsuccess onerror).resume (.cursor (some e))) x =
          ⟨[⟨.cursor (c.moveTo e), onsuccess, onerror⟩], [], false, x⟩ := by
      rw [hwalk e List.mem_cons_self]
      rfl
    have hfirst := Ends.succeeded (a := a) (hok 0 (Nat.succ_pos _)) (Request.perform_cursor hc) hrun
      (by rw [Bool.or_false]; exact hrest)
    exact hfirst

section Search

variable {index : Index ρ} {range : Range} {direction : Direction}
  {onsuccess : Result ρ → Script ρ ω σ} {onerror : Script ρ ω σ} {os : List ω}
  {p : Entry ρ → Bool}

/-- The records that a search for `p` passes over. -/
def passed (s : ObjectStore ρ) (index : Index ρ) (range : Range) (direction : Direction)
    (p : Entry ρ → Bool) : List (Entry ρ) :=
  (Cursor.visited s index range direction).takeWhile fun e => !p e

/-- **The rule of a search.**  The handler of the cursor continues with the records that
`p` rejects; with the one that is found, or at the end, it does not. -/
theorem Runs.search (hd : direction ≠ .nextunique)
    (hskip : ∀ e ∈ Cursor.visited s index range direction, ¬ p e →
      onsuccess (.cursor (some e)) = .continue .done)
    (hstop : ∀ resume,
      (onsuccess (.cursor ((Cursor.visited s index range direction).find? p))).run answer resume x =
        (onsuccess (.cursor ((Cursor.visited s index range direction).find? p))).run answer [] x)
    (hok : ∀ i ≤ (passed s index range direction p).length, succeeds i)
    (h : Runs answer x s (after succeeds ((passed s index range direction p).length + 1))
      (onsuccess (.cursor ((Cursor.visited s index range direction).find? p))) os) :
    Runs answer x s succeeds
      (.request (.cursor ⟨index, range, direction, none⟩) onsuccess onerror .done) os := by
  have hahead := Cursor.ahead_start s index range direction
  rw [← List.takeWhile_append_dropWhile (p := fun e => !p e)
    (l := Cursor.visited s index range direction)] at hahead
  rw [List.find?_eq_head?_dropWhile_not] at hstop h
  obtain ⟨os', hends, rfl⟩ := h
  refine ⟨_, Ends.walk (fun e he => ?_) (fun i hi => hok i (Nat.le_of_lt hi)) hd hahead
    fun c' hc' => ?_, rfl⟩
  · refine hskip e ((List.takeWhile_sublist _).subset he) ?_
    simpa using List.mem_takeWhile_imp he
  · refine Ends.succeeded (hok _ (Nat.le_refl _)) (Request.perform_cursor hc') (hstop _) ?_
    rw [after_after]
    exact hends.aborted _

/-- **A search that fails.**  The request for the first record, or one that the cursor makes
when it continues, is the first to fail. -/
theorem Runs.search_failed (hd : direction ≠ .nextunique)
    (hskip : ∀ e ∈ Cursor.visited s index range direction, ¬ p e →
      onsuccess (.cursor (some e)) = .continue .done)
    {k : Nat} (hk : k ≤ (passed s index range direction p).length) (hfail : succeeds k = false)
    (hok : ∀ i < k, succeeds i) (h : Runs answer x s (after succeeds (k + 1)) onerror os) :
    Runs answer x s succeeds
      (.request (.cursor ⟨index, range, direction, none⟩) onsuccess onerror .done) os := by
  have hahead := Cursor.ahead_start s index range direction
  rw [← List.takeWhile_append_dropWhile (p := fun e => !p e)
    (l := Cursor.visited s index range direction),
    ← List.take_append_drop k ((Cursor.visited s index range direction).takeWhile fun e => !p e),
    List.append_assoc] at hahead
  have hlength : ((passed s index range direction p).take k).length = k :=
    List.length_take_of_le hk
  refine ⟨_, Ends.walk (fun e he => ?_) (fun i hi => hok i (hlength ▸ hi)) hd hahead
    fun c' hc' => ?_, rfl⟩
  · have he := (List.take_sublist _ _).subset he
    refine hskip e ((List.takeWhile_sublist _).subset he) ?_
    simpa using List.mem_takeWhile_imp he
  · refine Ends.failed (.inl ?_) ?_
    · rw [after, Nat.add_zero]
      exact hlength.symm ▸ hfail
    · rw [after_after]
      exact hlength.symm ▸ h

end Search

end IndexedDB.Transaction
