import Mathlib.Data.List.Basic

/-!
# The memory of the C code

`HEAP8` as the functions in JavaScript read and write it.

Proved here:

* `bytes_slice`, `bytes_newUint8Array`: what is copied out of the memory is copied back as
  it was.
-/

namespace GnunetWeb

/-- Pointers of the C code: handlers, closures and buffers. -/
abbrev Ptr := Nat

abbrev Heap8 := Nat → Int8

/-- The bytes that C finds at a pointer. -/
def bytesAt (heap8 : Heap8) (pointer : Ptr) (size : Nat) : List Int8 :=
  (List.range size).map fun i => heap8 (pointer + i)

/-- `Array.prototype.slice.call(HEAP8.subarray(pointer, pointer + size))` -/
def slice (heap8 : Heap8) (pointer : Ptr) (size : Nat) : List Int :=
  (bytesAt heap8 pointer size).map Int8.toInt

/-- `new Uint8Array(HEAP8.subarray(pointer, pointer + size))` -/
def newUint8Array (heap8 : Heap8) (pointer : Ptr) (size : Nat) : List UInt8 :=
  (bytesAt heap8 pointer size).map Int8.toUInt8

theorem length_slice (heap8 : Heap8) (pointer : Ptr) (size : Nat) :
    (slice heap8 pointer size).length = size := by
  simp [slice, bytesAt]

/-- `HEAP8.set(array)` for an array of numbers. -/
theorem bytes_slice (heap8 : Heap8) (pointer : Ptr) (size : Nat) :
    (slice heap8 pointer size).map Int8.ofInt = bytesAt heap8 pointer size := by
  simp [slice, Function.comp_def]

/-- `HEAP8.set(array)` for a `Uint8Array`. -/
theorem bytes_newUint8Array (heap8 : Heap8) (pointer : Ptr) (size : Nat) :
    (newUint8Array heap8 pointer size).map UInt8.toInt8 = bytesAt heap8 pointer size := by
  simp [newUint8Array, Function.comp_def]

/-- Arrays of numbers are equal when their bytes are. -/
theorem slice_inj {heap8 heap8' : Heap8} {pointer pointer' : Ptr} {size : Nat} :
    slice heap8 pointer size = slice heap8' pointer' size ↔
      bytesAt heap8 pointer size = bytesAt heap8' pointer' size := by
  refine ⟨fun h => ?_, fun h => by rw [slice, slice, h]⟩
  rw [← bytes_slice, ← bytes_slice, h]

end GnunetWeb
