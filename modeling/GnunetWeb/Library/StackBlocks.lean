import Mathlib.Data.List.Basic
import Mathlib.Data.Set.Basic
import Mathlib.Order.CompletePartialOrder
import Mathlib.Data.Set.Lattice

/-!
# Blocks on a stack

A memory with a stack: room is taken from the stack for one block of bytes after the other,
until the stack pointer is put back.  Which way the stack grows, and how it aligns its blocks,
is left open.

Proved here:

* `load_store`, `store_of_notMem`: a store is read back, and changes nothing else;
* `Live.push`: a block that is added leaves the others as they are.
-/

namespace StackBlocks

variable {β : Type}

def load (memory : Nat → β) (start size : Nat) : List β :=
  (List.range size).map fun i => memory (start + i)

structure Block (β : Type) where
  start : Nat
  bytes : List β

namespace Block

def places (b : Block β) : Set Nat := {a | b.start ≤ a ∧ a < b.start + b.bytes.length}

/-- The bytes are at their places. -/
def Held (memory : Nat → β) (b : Block β) : Prop := load memory b.start b.bytes.length = b.bytes

end Block

def store (memory : Nat → β) (b : Block β) : Nat → β := fun a =>
  if b.start ≤ a then (b.bytes[a - b.start]?).getD (memory a) else memory a

theorem store_of_notMem (memory : Nat → β) {b : Block β} {a : Nat} (h : a ∉ b.places) :
    store memory b a = memory a := by
  rw [store]
  split
  · next hle =>
    have hlen : b.bytes.length ≤ a - b.start := by
      by_contra hlt
      exact h ⟨hle, by omega⟩
    rw [List.getElem?_eq_none hlen, Option.getD_none]
  · rfl

/-- What is stored is loaded. -/
theorem load_store (memory : Nat → β) (b : Block β) : b.Held (store memory b) := by
  refine List.ext_getElem (by rw [load, List.length_map, List.length_range]) fun i _ hi => ?_
  simp only [load, List.getElem_map, List.getElem_range]
  rw [store, if_pos (Nat.le_add_right _ _), Nat.add_sub_cancel_left, List.getElem?_eq_getElem hi,
    Option.getD_some]

theorem Block.Held.frame {memory memory' : Nat → β} {b : Block β} (h : b.Held memory)
    (hsame : ∀ a ∈ b.places, memory' a = memory a) : b.Held memory' := by
  have hload : load memory' b.start b.bytes.length = load memory b.start b.bytes.length := by
    refine List.map_congr_left fun i hi => hsame _ ⟨Nat.le_add_right _ _, ?_⟩
    have := List.mem_range.mp hi
    omega
  exact hload.trans h

/-- What a stack does.  `alloc size sp` is the place of the new block, and the new stack
pointer; `inUse sp` are the places that belong to somebody, and `room sp` is what is left of
the stack.  A block may cost some more than its size. -/
structure Stack where
  alloc : Nat → Nat → Nat × Nat
  inUse : Nat → Set Nat
  room : Nat → Nat
  cost : Nat → Nat
  grows : ∀ {size sp : Nat}, cost size ≤ room sp → inUse sp ⊆ inUse (alloc size sp).2
  inside : ∀ {size sp i : Nat}, cost size ≤ room sp → i < size →
    (alloc size sp).1 + i ∈ inUse (alloc size sp).2
  fresh : ∀ {size sp i : Nat}, cost size ≤ room sp → i < size →
    (alloc size sp).1 + i ∉ inUse sp
  left : ∀ {size sp : Nat}, cost size ≤ room sp → room sp ≤ room (alloc size sp).2 + cost size
  /-- The place 0 is not on the stack. -/
  null : ∀ {sp : Nat}, sp ≠ 0 → 0 ∈ inUse sp
  pointer : ∀ {size sp : Nat}, sp ≠ 0 → (alloc size sp).2 ≠ 0

/-- Since the stack pointer was `sp₀`, the given blocks have been put on the stack. -/
structure Live (stack : Stack) (memory₀ : Nat → β) (sp₀ : Nat) (memory : Nat → β) (sp : Nat)
    (blocks : List (Block β)) : Prop where
  held : ∀ b ∈ blocks, b.Held memory
  inUse : ∀ b ∈ blocks, b.places ⊆ stack.inUse sp
  fresh : ∀ b ∈ blocks, Disjoint b.places (stack.inUse sp₀)
  disjoint : blocks.Pairwise fun b b' => Disjoint b.places b'.places
  grown : stack.inUse sp₀ ⊆ stack.inUse sp
  frame : ∀ a ∈ stack.inUse sp₀, memory a = memory₀ a

namespace Live

variable {stack : Stack} {memory₀ memory : Nat → β} {sp₀ sp : Nat} {blocks : List (Block β)}

theorem init (stack : Stack) (memory : Nat → β) (sp : Nat) : Live stack memory sp memory sp [] where
  held _ h := nomatch h
  inUse _ h := nomatch h
  fresh _ h := nomatch h
  disjoint := .nil
  grown _ h := h
  frame _ _ := rfl

/-- **A new block leaves the others as they are.** -/
theorem push (h : Live stack memory₀ sp₀ memory sp blocks) {size : Nat}
    (hroom : stack.cost size ≤ stack.room sp) {bytes : List β} (hsize : bytes.length ≤ size) :
    Live stack memory₀ sp₀ (store memory ⟨(stack.alloc size sp).1, bytes⟩) (stack.alloc size sp).2
      (blocks ++ [⟨(stack.alloc size sp).1, bytes⟩]) := by
  have hnew : ∀ a ∈ (Block.mk (stack.alloc size sp).1 bytes).places,
      a ∈ stack.inUse (stack.alloc size sp).2 ∧ a ∉ stack.inUse sp := by
    rintro a ⟨hle, hlt⟩
    obtain ⟨i, rfl⟩ := Nat.exists_eq_add_of_le hle
    have hi : i < size := by
      have : i < bytes.length := Nat.lt_of_add_lt_add_left hlt
      omega
    exact ⟨stack.inside hroom hi, stack.fresh hroom hi⟩
  have hold : ∀ a ∈ stack.inUse sp,
      store memory ⟨(stack.alloc size sp).1, bytes⟩ a = memory a :=
    fun a ha => store_of_notMem _ fun hmem => (hnew a hmem).2 ha
  have hgrows := stack.grows hroom
  refine ⟨?_, ?_, ?_, ?_, h.grown.trans hgrows, fun a ha => ?_⟩
  · refine List.forall_mem_append.mpr ⟨fun b hb => ?_, fun b hb => ?_⟩
    · exact (h.held b hb).frame fun a ha => hold a (h.inUse b hb ha)
    · rw [List.mem_singleton.mp hb]
      exact load_store _ _
  · refine List.forall_mem_append.mpr ⟨fun b hb => (h.inUse b hb).trans hgrows, fun b hb => ?_⟩
    rw [List.mem_singleton.mp hb]
    exact fun a ha => (hnew a ha).1
  · refine List.forall_mem_append.mpr ⟨h.fresh, fun b hb => ?_⟩
    rw [List.mem_singleton.mp hb]
    exact Set.disjoint_left.mpr fun a ha ha₀ => (hnew a ha).2 (h.grown ha₀)
  · refine List.pairwise_append.mpr ⟨h.disjoint, List.pairwise_singleton _ _, fun b hb b' hb' => ?_⟩
    rw [List.mem_singleton.mp hb']
    exact Set.disjoint_left.mpr fun a ha ha' => (hnew a ha').2 (h.inUse b hb ha)
  · rw [hold a (h.grown ha)]
    exact h.frame a ha

end Live

end StackBlocks
