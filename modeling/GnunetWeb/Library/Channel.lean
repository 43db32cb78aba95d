import Mathlib.Data.List.Basic
import Mathlib.Tactic.Common

/-!
# Channels with a loop that reads them

A channel has a buffer of fixed capacity.  A put goes to a reader that waits, else to the
buffer, else it is pending; a closed channel takes no more puts, but what it has can still be
taken.  One loop takes the values until it is told that the channel is closed and empty.  Such
a loop is resumed in a later step than the put or the close that it has waited for, and runs
until there is nothing to take.

Proved here: what a put, a close and a step of the loop do to the values in flight
(`inFlight_put`, `inFlight_close`, `of_resume`), and that the loop has a step while there are
some (`resume_of_inFlight`).
-/

/-- The loop that reads a channel. -/
inductive Reader (α : Type) where
  /-- the loop has not begun -/
  | scheduled
  | waiting
  /-- it is resumed with a value, or because the channel is closed -/
  | resumes (value : Option α)
  | done
  deriving DecidableEq

namespace Reader

variable {α : Type}

/-- The value that a put has handed to the loop. -/
def handed : Reader α → List α
  | resumes (some v) => [v]
  | scheduled | waiting | resumes none | done => []

/-- The loop has a step to make. -/
def runs : Reader α → Bool
  | scheduled | resumes _ => true
  | waiting | done => false

/-- The loop has found the channel empty, and has got nothing since. -/
def idle : Reader α → Bool
  | waiting | resumes none | done => true
  | scheduled | resumes (some _) => false

/-- The loop has found the channel closed. -/
def ended : Reader α → Bool
  | resumes none | done => true
  | scheduled | waiting | resumes (some _) => false

/-- The loop waits for a value. -/
def waits : Reader α → Bool
  | waiting => true
  | scheduled | resumes _ | done => false

/-- A reader that waits is told that the channel is closed. -/
def close : Reader α → Reader α
  | waiting => resumes none
  | r => r

/-- Where the loop stops when there is nothing to take. -/
def atEnd (closed : Bool) : Reader α := if closed then done else waiting

theorem handed_of_idle {r : Reader α} (h : r.idle) : r.handed = [] := by
  cases r with
  | scheduled => rfl
  | waiting => rfl
  | resumes v =>
    cases v with
    | none => rfl
    | some v => cases h
  | done => rfl

theorem handed_of_waits {r : Reader α} (h : r.waits) : r.handed = [] := by
  cases r with
  | waiting => rfl
  | scheduled => cases h
  | resumes v => cases h
  | done => cases h

theorem idle_of_waits {r : Reader α} (h : r.waits) : r.idle := by
  cases r with
  | waiting => rfl
  | scheduled => cases h
  | resumes v => cases h
  | done => cases h

@[simp] theorem handed_close (r : Reader α) : r.close.handed = r.handed := by
  cases r with
  | waiting => rfl
  | scheduled => rfl
  | resumes v => rfl
  | done => rfl

@[simp] theorem idle_close (r : Reader α) : r.close.idle = r.idle := by
  cases r with
  | waiting => rfl
  | scheduled => rfl
  | resumes v => rfl
  | done => rfl

@[simp] theorem handed_atEnd (closed : Bool) : (atEnd closed : Reader α).handed = [] := by
  cases closed with
  | false => rfl
  | true => rfl

theorem closed_of_ended_atEnd {closed : Bool} (h : (atEnd closed : Reader α).ended) : closed := by
  cases closed with
  | false => cases h
  | true => rfl

theorem not_idle {r : Reader α} (hw : r.waits = false) (he : ¬ r.ended) : ¬ r.idle := by
  cases r with
  | scheduled => exact Bool.false_ne_true
  | waiting => cases hw
  | resumes v =>
    cases v with
    | none => exact absurd rfl he
    | some v => exact Bool.false_ne_true
  | done => exact absurd rfl he

theorem runs_of_not_idle {r : Reader α} (h : ¬ r.idle) : r.runs := by
  cases r with
  | scheduled => rfl
  | waiting => exact absurd rfl h
  | resumes v => rfl
  | done => exact absurd rfl h

end Reader

/-- `values` are those in the buffer, and after `capacity` of them those of the pending puts. -/
structure Channel (α : Type) (capacity : Nat) where
  reader : Reader α
  values : List α
  closed : Bool
  idle : reader.idle → values = []
  ended : reader.ended → closed

namespace Channel

variable {α : Type} {capacity : Nat}

/-- A new channel and a loop that will read it. -/
def new : Channel α capacity where
  reader := .scheduled
  values := []
  closed := false
  idle _ := rfl
  ended h := nomatch h

/-- No more puts may be pending. -/
def maxPending : Nat := 1024

/-- The reader that waits is handed the value. -/
def hand (c : Channel α capacity) (hw : c.reader.waits) (v : α) : Channel α capacity where
  reader := .resumes (some v)
  values := c.values
  closed := c.closed
  idle _ := c.idle (Reader.idle_of_waits hw)
  ended h := nomatch h

/-- A value that no reader waits for. -/
def enqueue (c : Channel α capacity) (hc : c.closed = false) (hw : c.reader.waits = false) (v : α) :
    Channel α capacity where
  reader := c.reader
  values := c.values ++ [v]
  closed := c.closed
  idle h := absurd h (Reader.not_idle hw fun he => by simp [c.ended he] at hc)
  ended := c.ended

/-- With `maxPending` pending puts one more fails, so that its value is lost. -/
def put (c : Channel α capacity) (v : α) : Channel α capacity :=
  match hc : c.closed with
  | true => c
  | false =>
    match hw : c.reader.waits with
    | true => c.hand hw v
    | false => if c.values.length < capacity + maxPending then c.enqueue hc hw v else c

def close (c : Channel α capacity) : Channel α capacity where
  reader := c.reader.close
  values := c.values
  closed := true
  idle h := c.idle ((Reader.idle_close c.reader).symm.trans h)
  ended _ := rfl

/-- The channel after the loop has taken all values. -/
def drained (c : Channel α capacity) : Channel α capacity where
  reader := .atEnd c.closed
  values := []
  closed := c.closed
  idle _ := rfl
  ended := Reader.closed_of_ended_atEnd

/-- What the loop has not taken yet. -/
def inFlight (c : Channel α capacity) : List α := c.reader.handed ++ c.values

/-- The loop runs until there is nothing to take, and yields what it has got. -/
def resume (c : Channel α capacity) : Option (Channel α capacity × List α) :=
  if c.reader.runs then some (c.drained, c.inFlight) else none

/-! ## Values in flight -/

@[simp] theorem inFlight_new : (new : Channel α capacity).inFlight = [] := rfl

@[simp] theorem closed_new : (new : Channel α capacity).closed = false := rfl

@[simp] theorem closed_close (c : Channel α capacity) : c.close.closed = true := rfl

theorem put_of_closed {c : Channel α capacity} (h : c.closed) (v : α) : c.put v = c := by
  rw [put]
  split
  · rfl
  · next hc => simp [h] at hc

@[simp] theorem closed_put (c : Channel α capacity) (v : α) : (c.put v).closed = c.closed := by
  rw [put]
  split
  · rfl
  · split
    · rfl
    · split
      · rfl
      · rfl

/-- A put adds its value at the end, or it is lost. -/
theorem inFlight_put (c : Channel α capacity) (v : α) :
    (c.put v).inFlight = c.inFlight ++ [v] ∨ (c.put v).inFlight = c.inFlight := by
  rw [put]
  split
  · exact .inr rfl
  · split
    · next hw =>
      have hv : c.values = [] := c.idle (Reader.idle_of_waits hw)
      refine .inl ?_
      rw [inFlight, inFlight, Reader.handed_of_waits hw, hv]
      simp [hand, Reader.handed, hv]
    · split
      · exact .inl (by simp [inFlight, enqueue])
      · exact .inr rfl

/-- **A close discards nothing.** -/
@[simp] theorem inFlight_close (c : Channel α capacity) : c.close.inFlight = c.inFlight := by
  rw [inFlight, inFlight, close, Reader.handed_close]

/-- **A step of the loop takes all of them.** -/
theorem of_resume {c c' : Channel α capacity} {vs : List α} (h : c.resume = some (c', vs)) :
    c'.closed = c.closed ∧ c'.inFlight = [] ∧ vs = c.inFlight := by
  rw [resume] at h
  obtain ⟨-, h⟩ := Option.ite_none_right_eq_some.mp h
  cases h
  refine ⟨rfl, ?_, rfl⟩
  rw [inFlight, drained, Reader.handed_atEnd]
  rfl

/-- While there are some, the loop has a step to make. -/
theorem resume_of_inFlight {c : Channel α capacity} (h : c.inFlight ≠ []) :
    ∃ c', c.resume = some (c', c.inFlight) := by
  have hidle : ¬ c.reader.idle := fun hi =>
    h (by rw [inFlight, Reader.handed_of_idle hi, c.idle hi, List.append_nil])
  exact ⟨_, if_pos (Reader.runs_of_not_idle hidle)⟩

end Channel
