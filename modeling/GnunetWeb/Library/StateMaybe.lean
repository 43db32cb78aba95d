import Mathlib.Data.List.Basic
import Mathlib.Tactic.Common

/-!
# State over maybe, with loops on fuel

The monad `state-t maybe` of the monads library.  A computation maps a state to
one of three outcomes:

* `just a s`: it succeeded with `a` and left the state `s`;
* `nothing`: it failed, the `zero` of the monad;
* `running`: a loop inside it used up its fuel.  It is kept apart from failure,
  so that a proof that a loop ends is a proof that `running` does not occur.

Proved here:

* `iterate_many`: the loop combinator returns what the relation `Many` collects,
  once it has two rounds of fuel more than there are results;
* `many_exists`: for a computation that shrinks its state whenever it succeeds,
  `Many` relates every state to some result;
* `many_unique`: and to one only;
* `repeats_iff_many`: the recursive reading of a repetition (`Repeats`) has one
  solution, which returns what `Many` collects.
-/

namespace StateMaybe

/-- What a computation does to one state. -/
inductive Outcome (σ α : Type) where
  | nothing
  | just (a : α) (s : σ)
  | running
  deriving DecidableEq, Repr

/-- The same outcome with the value mapped and another state left behind. -/
def Outcome.leaving {σ τ α β : Type} (f : α → β) (t : τ) : Outcome σ α → Outcome τ β
  | .nothing => .nothing
  | .just a _ => .just (f a) t
  | .running => .running

theorem Outcome.leaving_eq_just {σ τ α β : Type} {f : α → β} {t t' : τ} {o : Outcome σ α}
    {b : β} : o.leaving f t = .just b t' ↔ ∃ a s, o = .just a s ∧ f a = b ∧ t = t' := by
  cases o with
  | nothing => simp [leaving]
  | just a s => simp [leaving]
  | running => simp [leaving]

theorem Outcome.leaving_eq_running {σ τ α β : Type} {f : α → β} {t : τ} {o : Outcome σ α} :
    o.leaving f t = .running ↔ o = .running := by
  cases o with
  | nothing => simp [leaving]
  | just a s => simp [leaving]
  | running => simp [leaving]

end StateMaybe

/-- `state-t maybe` over the state type `σ`. -/
abbrev StateMaybe (σ α : Type) : Type := σ → StateMaybe.Outcome σ α

namespace StateMaybe

variable {σ α β γ : Type}

def ret (a : α) : StateMaybe σ α := fun s => .just a s

def bind (m : StateMaybe σ α) (f : α → StateMaybe σ β) : StateMaybe σ β := fun s =>
  match m s with
  | .nothing => .nothing
  | .just a s' => f a s'
  | .running => .running

instance : Monad (StateMaybe σ) where
  pure := ret
  bind := bind

def zero : StateMaybe σ α := fun _ => .nothing

def getState : StateMaybe σ σ := fun s => .just s s

/-- Replaces the state and returns the previous one. -/
def setState (s' : σ) : StateMaybe σ σ := fun s => .just s s'

/-- A `:when` clause of the do notation. -/
def when (c : Bool) : StateMaybe σ Unit := if c then ret () else zero

/-- The first alternative that succeeds; it starts again from the same state. -/
def plus (m n : StateMaybe σ α) : StateMaybe σ α := fun s =>
  match m s with
  | .nothing => n s
  | r => r

@[simp] theorem pure_apply (a : α) (s : σ) : (pure a : StateMaybe σ α) s = .just a s := rfl

@[simp] theorem zero_apply (s : σ) : (zero : StateMaybe σ α) s = .nothing := rfl

@[simp] theorem getState_apply (s : σ) : getState s = .just s s := rfl

@[simp] theorem setState_apply (s' s : σ) : setState s' s = .just s s' := rfl

theorem when_apply (c : Bool) (s : σ) :
    when c s = if c then .just () s else .nothing := by
  cases c <;> rfl

@[simp] theorem when_true (s : σ) : when true s = .just () s := rfl

@[simp] theorem when_false (s : σ) : when false s = .nothing := rfl

theorem bind_apply (m : StateMaybe σ α) (f : α → StateMaybe σ β) (s : σ) :
    (m >>= f) s = match m s with
      | .nothing => .nothing
      | .just a s' => f a s'
      | .running => .running := rfl

theorem bind_just {m : StateMaybe σ α} {f : α → StateMaybe σ β} {s s' : σ} {a : α}
    (h : m s = .just a s') : (m >>= f) s = f a s' := by
  rw [bind_apply, h]

theorem bind_nothing {m : StateMaybe σ α} {f : α → StateMaybe σ β} {s : σ}
    (h : m s = .nothing) : (m >>= f) s = .nothing := by
  rw [bind_apply, h]

theorem when_bind_apply (c : Bool) (f : Unit → StateMaybe σ β) (s : σ) :
    (when c >>= f) s = if c then f () s else .nothing := by
  cases c <;> rfl

/-- A sequence succeeds exactly when both of its parts do. -/
theorem bind_eq_just {m : StateMaybe σ α} {f : α → StateMaybe σ β} {s s' : σ} {b : β} :
    (m >>= f) s = .just b s' ↔ ∃ a t, m s = .just a t ∧ f a t = .just b s' := by
  rw [bind_apply]
  cases h : m s with
  | nothing => simp
  | just a t => simp
  | running => simp

/-- A sequence runs out of fuel only inside one of its parts. -/
theorem bind_eq_running {m : StateMaybe σ α} {f : α → StateMaybe σ β} {s : σ} :
    (m >>= f) s = .running ↔ m s = .running ∨ ∃ a t, m s = .just a t ∧ f a t = .running := by
  rw [bind_apply]
  cases h : m s with
  | nothing => simp
  | just a t => simp
  | running => simp

@[simp] theorem when_ne_running (c : Bool) (s : σ) : when c s ≠ .running := by
  cases c <;> simp

/-! ## The loop -/

/-- While `p x` is false, replaces `x` by the value of `f x`.  One round of fuel
for each test of `p`. -/
def iterate (p : α → Bool) (f : α → StateMaybe σ α) : Nat → α → StateMaybe σ α
  | 0, _ => fun _ => .running
  | fuel + 1, x => if p x then ret x else f x >>= iterate p f fuel

/-- `Many m s xs s'`: running `m` again and again from `s` collects `xs`, and
fails for the first time at `s'`. -/
inductive Many (m : StateMaybe σ α) : σ → List α → σ → Prop
  | done {s : σ} : m s = .nothing → Many m s [] s
  | next {s t s' : σ} {x : α} {xs : List α} :
      m s = .just x t → Many m t xs s' → Many m s (x :: xs) s'

/-- The body of a repetition: run `m` and collect its value, or stop. -/
def collect (m : StateMaybe σ α) : Bool × List α → StateMaybe σ (Bool × List α) := fun x =>
  plus (m >>= fun a => pure (false, x.2 ++ [a])) (pure (true, x.2))

theorem collect_just {m : StateMaybe σ α} {s t : σ} {a : α} (h : m s = .just a t)
    (b : Bool) (xs : List α) : collect m (b, xs) s = .just (false, xs ++ [a]) t := by
  simp [collect, plus, bind_just h]

theorem collect_nothing {m : StateMaybe σ α} {s : σ} (h : m s = .nothing)
    (b : Bool) (xs : List α) : collect m (b, xs) s = .just (true, xs) s := by
  simp [collect, plus, bind_nothing h]

/-- The loop returns what `Many` collects, after the results it already had. -/
theorem iterate_many {m : StateMaybe σ α} {s s' : σ} {xs : List α} (h : Many m s xs s') :
    ∀ (acc : List α) (fuel : Nat), xs.length + 2 ≤ fuel →
      iterate Prod.fst (collect m) fuel (false, acc) s = .just (true, acc ++ xs) s' := by
  induction h with
  | done hm =>
    intro acc fuel hf
    obtain ⟨n, rfl⟩ : ∃ n, fuel = n + 2 := ⟨fuel - 2, by simp at hf; omega⟩
    simp only [iterate, Bool.false_eq_true, ↓reduceIte]
    rw [bind_just (collect_nothing hm false acc)]
    simp [ret]
  | next hm _ ih =>
    intro acc fuel hf
    obtain ⟨n, rfl⟩ : ∃ n, fuel = n + 1 := ⟨fuel - 1, by simp at hf; omega⟩
    simp only [iterate, Bool.false_eq_true, ↓reduceIte]
    rw [bind_just (collect_just hm false acc)]
    rw [ih (acc ++ [_]) n (by simp at hf; omega)]
    simp

/-- A state has at most one collection. -/
theorem many_unique {m : StateMaybe σ α} {s s₁ s₂ : σ} {xs ys : List α}
    (h₁ : Many m s xs s₁) (h₂ : Many m s ys s₂) : xs = ys ∧ s₁ = s₂ := by
  induction h₁ generalizing ys s₂ with
  | done hm =>
    cases h₂ with
    | done _ => exact ⟨rfl, rfl⟩
    | next hm' _ => rw [hm] at hm'; cases hm'
  | next hm _ ih =>
    cases h₂ with
    | done hm' => rw [hm] at hm'; cases hm'
    | next hm' h' =>
      rw [hm] at hm'
      cases hm'
      obtain ⟨rfl, rfl⟩ := ih h'
      exact ⟨rfl, rfl⟩

/-- On the states of size at most `n`, `m` leaves a smaller state whenever it succeeds. -/
def Consuming (size : σ → Nat) (n : Nat) (m : StateMaybe σ α) : Prop :=
  ∀ s a t, size s ≤ n → m s = .just a t → size t < size s

/-- **Repetition of a consuming computation ends.**  As long as the computation
itself does not run out of fuel, every state has a collection, with no more
results than the state is large. -/
theorem many_exists {size : σ → Nat} {n : Nat} {m : StateMaybe σ α} (hc : Consuming size n m)
    (hr : ∀ s, size s ≤ n → m s ≠ .running) :
    ∀ s, size s ≤ n → ∃ xs s', Many m s xs s' ∧ xs.length + size s' ≤ size s := by
  have main : ∀ k s, size s = k → size s ≤ n →
      ∃ xs s', Many m s xs s' ∧ xs.length + size s' ≤ size s := by
    intro k
    induction k using Nat.strongRecOn with
    | ind k ih =>
      intro s hk hn
      cases hm : m s with
      | nothing => exact ⟨[], s, .done hm, by simp⟩
      | running => exact absurd hm (hr s hn)
      | just a t =>
        have hlt := hc s a t hn hm
        obtain ⟨xs, s', hxs, hlen⟩ := ih (size t) (by omega) t rfl (by omega)
        exact ⟨a :: xs, s', .next hm hxs, by simp only [List.length_cons]; omega⟩
  exact fun s hn => main (size s) s rfl hn

theorem Many.end_fails {m : StateMaybe σ α} {s s' : σ} {xs : List α} (h : Many m s xs s') :
    m s' = .nothing := by
  induction h with
  | done hm => exact hm
  | next _ _ ih => exact ih

/-! ## The recursive reading -/

/-- On the states of size at most `n`, `rep` runs `m` and then itself, and stops
with nothing collected where `m` fails. -/
def Repeats (size : σ → Nat) (n : Nat) (m : StateMaybe σ α) (rep : StateMaybe σ (List α)) : Prop :=
  ∀ s, size s ≤ n →
    rep s = plus (m >>= fun x => rep >>= fun xs => ret (x :: xs)) (ret []) s

section Repeats

variable {size : σ → Nat} {n : Nat} {m : StateMaybe σ α} {rep : StateMaybe σ (List α)}

theorem repeats_step_just (hrep : Repeats size n m rep) {s t s' : σ} {x : α} {xs : List α}
    (hn : size s ≤ n) (hm : m s = .just x t) (ht : rep t = .just xs s') :
    rep s = .just (x :: xs) s' := by
  rw [hrep s hn, plus, bind_just hm, bind_just ht]
  rfl

/-- What the recursion returns is what is collected. -/
theorem repeats_many (hrep : Repeats size n m rep) (hc : Consuming size n m) {s s' : σ}
    {xs : List α} (h : Many m s xs s') : size s ≤ n → rep s = .just xs s' := by
  induction h with
  | done hm =>
    intro hn
    rw [hrep _ hn, plus, bind_nothing hm]
    rfl
  | next hm _ ih =>
    intro hn
    have hlt := hc _ _ _ hn hm
    exact repeats_step_just hrep hn hm (ih (by omega))

/-- **The recursion has one solution**: the collection of the results. -/
theorem repeats_iff_many (hc : Consuming size n m) (hr : ∀ s, size s ≤ n → m s ≠ .running) :
    Repeats size n m rep ↔
      ∀ s, size s ≤ n → ∃ xs s', Many m s xs s' ∧ rep s = .just xs s' := by
  constructor
  · intro hrep s hn
    obtain ⟨xs, s', hm, -⟩ := many_exists hc hr s hn
    exact ⟨xs, s', hm, repeats_many hrep hc hm hn⟩
  · intro h s hn
    obtain ⟨xs, s', hm, hs⟩ := h s hn
    rw [hs]
    cases hm with
    | done hm =>
      rw [plus, bind_nothing hm]
      rfl
    | @next _ t _ x xs hm hrest =>
      have hlt := hc s x t hn hm
      obtain ⟨ys, u, hys, ht⟩ := h t (by omega)
      obtain ⟨rfl, rfl⟩ := many_unique hrest hys
      rw [plus, bind_just hm, bind_just ht]
      rfl

end Repeats

end StateMaybe
