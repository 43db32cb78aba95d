import GnunetWeb.Heap
import GnunetWeb.Library.StackBlocks
import Mathlib.Algebra.GroupWithZero.Nat
import Mathlib.Data.List.Forall2
import Mathlib.Data.List.Induction

/-!
# Calls into C

`ccallFunc` of `pre.js` and `client-pre.js`: strings and arrays are put on the stack of the C
code for the time of a call.  A string is one without lone surrogates.

Proved here:

* `utf8_length_le`: four bytes for each unit of a string are enough;
* `Frame.prepared`: what the loop over the arguments has made;
* `ccallFunc_passes`: what the C function is called with, and what is left after the call.
-/

namespace GnunetWeb.CCall

open StackBlocks

/-! ## Strings -/

/-- The units of a character in a JavaScript string. -/
def units (c : Char) : Nat := if c.val ≤ 0xFFFF then 1 else 2

/-- `str.length` -/
def length (str : String) : Nat := (str.toList.map units).sum

def utf8 (str : String) : List UInt8 := str.toList.flatMap String.utf8EncodeChar

/-- A string in C. -/
def cString (str : String) : List Int8 := (utf8 str).map UInt8.toInt8 ++ [0]

theorem utf8Size_le (c : Char) : c.utf8Size ≤ 4 * units c := by
  have h₁ := c.utf8Size_le_four
  rw [units]
  split
  · omega
  · omega

theorem utf8_length (str : String) : (utf8 str).length = (str.toList.map Char.utf8Size).sum := by
  simp only [utf8, List.length_flatMap, String.length_utf8EncodeChar]

/-- **Four bytes for each unit are enough.** -/
theorem utf8_length_le (str : String) : (utf8 str).length ≤ 4 * length str := by
  rw [utf8_length, length]
  induction str.toList with
  | nil => exact Nat.zero_le _
  | cons c cs ih =>
    have hc := utf8Size_le c
    simp only [List.map_cons, List.sum_cons]
    omega

theorem cString_length (str : String) : (cString str).length = (utf8 str).length + 1 := by
  simp [cString]

/-! ## The runtime -/

structure Machine where
  heap8 : Heap8
  /-- the stack pointer -/
  sp : Nat

/-- What emscripten provides: `stackAlloc` with `stackSave` and `stackRestore`, and the functions
that go between strings, arrays and the memory. -/
structure Runtime where
  stack : Stack
  stringToUTF8 : String → Ptr → Nat → Heap8 → Heap8
  writeArrayToMemory : List Int → Ptr → Heap8 → Heap8
  utf8ToString : Ptr → Heap8 → String
  stringToUTF8_eq : ∀ {str : String} {ptr size : Nat} {heap8 : Heap8}, (utf8 str).length < size →
    stringToUTF8 str ptr size heap8 = store heap8 ⟨ptr, cString str⟩
  writeArrayToMemory_eq : ∀ {arr : List Int} {ptr : Nat} {heap8 : Heap8},
    writeArrayToMemory arr ptr heap8 = store heap8 ⟨ptr, arr.map Int8.ofInt⟩

/-- An argument with its type.  `null`, `undefined` and `0` are one string. -/
inductive Arg where
  | number (n : Int)
  | string (str : Option String)
  | array (arr : List Int)

inductive ReturnType where
  | number
  | string

inductive Returned where
  | number (n : Int)
  | string (str : String)

/-- The function in C. -/
abbrev Func := List Int → Machine → Int × Machine

/-- A function that leaves the stack pointer as it has found it. -/
def Func.Balanced (func : Func) : Prop := ∀ cArgs m, (func cArgs m).2.sp = m.sp

/-- The variables of the loop over the arguments, with `saved` for `stack`. -/
structure Frame where
  machine : Machine
  saved : Nat
  cArgs : List Int

namespace Runtime

variable (js : Runtime)

/-- `toC.string` -/
def string (str : Option String) (m : Machine) : Int × Machine :=
  match str with
  | none => (0, m)
  | some str =>
    let len := 4 * length str + 1
    let ret := js.stack.alloc len m.sp
    (ret.1, ⟨js.stringToUTF8 str ret.1 len m.heap8, ret.2⟩)

/-- `toC.array` -/
def array (arr : List Int) (m : Machine) : Int × Machine :=
  let ret := js.stack.alloc arr.length m.sp
  (ret.1, ⟨js.writeArrayToMemory arr ret.1 m.heap8, ret.2⟩)

/-- The loop body for an argument that has a converter. -/
def converted (converter : Machine → Int × Machine) (f : Frame) : Frame :=
  let saved := if f.saved = 0 then f.machine.sp else f.saved
  let ret := converter f.machine
  ⟨ret.2, saved, f.cArgs ++ [ret.1]⟩

def convert (f : Frame) : Arg → Frame
  | .number n => { f with cArgs := f.cArgs ++ [n] }
  | .string str => converted (js.string str) f
  | .array arr => converted (js.array arr) f

/-- The loop of `ccallFunc`. -/
def prepare (args : List Arg) (m : Machine) : Frame := args.foldl js.convert ⟨m, 0, []⟩

/-- What `ccallFunc` returns of what the function has returned. -/
def returned (ret : Int × Machine) : ReturnType → Returned
  | .number => .number ret.1
  | .string => .string (js.utf8ToString ret.1.toNat ret.2.heap8)

def ccallFunc (func : Func) (returnType : ReturnType) (args : List Arg) (m : Machine) :
    Returned × Machine :=
  let f := js.prepare args m
  let ret := func f.cArgs f.machine
  (js.returned ret returnType, if f.saved ≠ 0 then { ret.2 with sp := f.saved } else ret.2)

/-- What an argument costs of the stack. -/
def cost : Arg → Nat
  | .number _ | .string none => 0
  | .string (some str) => js.stack.cost (4 * length str + 1)
  | .array arr => js.stack.cost arr.length

end Runtime

/-! ## What the function is called with -/

/-- An argument is passed as a number, or as a pointer to a block. -/
inductive Arg.PassedAs : Arg → Int → Option (Block Int8) → Prop
  | number (n : Int) : PassedAs (.number n) n none
  | null : PassedAs (.string none) 0 none
  | string {str : String} {ptr : Ptr} (hptr : ptr ≠ 0) :
      PassedAs (.string (some str)) ptr (some ⟨ptr, cString str⟩)
  | array {arr : List Int} {ptr : Ptr} :
      PassedAs (.array arr) ptr (some ⟨ptr, arr.map Int8.ofInt⟩)

/-- From the machine `m`, the loop has dealt with the given arguments. -/
structure Frame.Prepared (js : Runtime) (m : Machine) (args : List Arg) (f : Frame) : Prop where
  passed : ∃ passed : List (Int × Option (Block Int8)),
    List.Forall₂ (fun arg q => arg.PassedAs q.1 q.2) args passed ∧
    f.cArgs = passed.map Prod.fst ∧
    Live js.stack m.heap8 m.sp f.machine.heap8 f.machine.sp (passed.filterMap Prod.snd)
  saved : f.saved = 0 ∧ f.machine.sp = m.sp ∨ f.saved = m.sp
  pointer : f.machine.sp ≠ 0
  room : js.stack.room m.sp ≤ js.stack.room f.machine.sp + (args.map js.cost).sum

namespace Frame.Prepared

variable {js : Runtime} {m : Machine} {args : List Arg} {f : Frame}

theorem init (js : Runtime) (hm : m.sp ≠ 0) : Prepared js m [] ⟨m, 0, []⟩ where
  passed := ⟨[], .nil, rfl, .init _ _ _⟩
  saved := .inl ⟨rfl, rfl⟩
  pointer := hm
  room := Nat.le_add_right _ _

/-- Once a stack pointer is saved, it stays. -/
theorem saved_converted (h : Prepared js m args f) (hm : m.sp ≠ 0) :
    (if f.saved = 0 then f.machine.sp else f.saved) = m.sp := by
  obtain ⟨hzero, hsp⟩ | hsaved := h.saved
  · rw [if_pos hzero, hsp]
  · rw [hsaved, if_neg hm]

/-- An argument without a block. -/
theorem plain (h : Prepared js m args f) {arg : Arg} {n : Int} (harg : arg.PassedAs n none)
    {saved : Nat} (hsaved : saved = 0 ∧ f.machine.sp = m.sp ∨ saved = m.sp) :
    Prepared js m (args ++ [arg]) ⟨f.machine, saved, f.cArgs ++ [n]⟩ := by
  obtain ⟨passed, hpassed, hcArgs, hlive⟩ := h.passed
  refine ⟨⟨passed ++ [(n, none)], List.rel_append hpassed (.cons harg .nil), ?_, ?_⟩, hsaved,
    h.pointer, ?_⟩
  · rw [hcArgs, List.map_append]
    rfl
  · rw [List.filterMap_append]
    simpa using hlive
  · rw [List.map_append, List.sum_append]
    exact h.room.trans (Nat.add_le_add_left (Nat.le_add_right _ _) _)

/-- An argument with a block of the given bytes. -/
theorem block (h : Prepared js m args f) (hm : m.sp ≠ 0) {arg : Arg} {size : Nat}
    {bytes : List Int8} (hcost : js.cost arg = js.stack.cost size)
    (hroom : js.stack.cost size ≤ js.stack.room f.machine.sp) (hsize : bytes.length ≤ size)
    (harg : arg.PassedAs (js.stack.alloc size f.machine.sp).1
      (some ⟨(js.stack.alloc size f.machine.sp).1, bytes⟩)) :
    Prepared js m (args ++ [arg])
      ⟨⟨store f.machine.heap8 ⟨(js.stack.alloc size f.machine.sp).1, bytes⟩,
        (js.stack.alloc size f.machine.sp).2⟩, if f.saved = 0 then f.machine.sp else f.saved,
        f.cArgs ++ [((js.stack.alloc size f.machine.sp).1 : Int)]⟩ := by
  obtain ⟨passed, hpassed, hcArgs, hlive⟩ := h.passed
  refine ⟨⟨passed ++ [(_, some ⟨_, bytes⟩)], List.rel_append hpassed (.cons harg .nil), ?_, ?_⟩,
    .inr (h.saved_converted hm), js.stack.pointer h.pointer, ?_⟩
  · rw [hcArgs, List.map_append]
    rfl
  · rw [List.filterMap_append]
    exact hlive.push hroom hsize
  · have hleft := js.stack.left hroom
    have hbefore := h.room
    rw [List.map_append, List.sum_append, List.map_singleton, List.sum_singleton, hcost]
    show _ ≤ js.stack.room (js.stack.alloc size f.machine.sp).2 + _
    omega

/-- **The loop body.** -/
theorem convert (h : Prepared js m args f) (hm : m.sp ≠ 0) {arg : Arg}
    (hroom : ((args ++ [arg]).map js.cost).sum ≤ js.stack.room m.sp) :
    Prepared js m (args ++ [arg]) (js.convert f arg) := by
  have hleft : js.cost arg ≤ js.stack.room f.machine.sp := by
    have := h.room
    rw [List.map_append, List.sum_append, List.map_singleton, List.sum_singleton] at hroom
    omega
  cases arg with
  | number n => exact h.plain (.number n) h.saved
  | string str =>
    cases str with
    | none => exact h.plain .null (.inr (h.saved_converted hm))
    | some str =>
      have hlen := utf8_length_le str
      have hsize : (cString str).length ≤ 4 * length str + 1 := by
        rw [cString_length]
        omega
      have hptr : (js.stack.alloc (4 * length str + 1) f.machine.sp).1 ≠ 0 := by
        intro hzero
        have hfresh := js.stack.fresh hleft (Nat.succ_pos (4 * length str))
        rw [hzero] at hfresh
        exact hfresh (js.stack.null h.pointer)
      have hblock := h.block hm (show js.cost (.string (some str)) = _ from rfl) hleft hsize
        (.string hptr)
      rwa [← js.stringToUTF8_eq (Nat.lt_succ_of_le hlen)] at hblock
  | array arr =>
    have hblock := h.block hm (show js.cost (.array arr) = _ from rfl) hleft
      (List.length_map _).le .array
    rwa [← js.writeArrayToMemory_eq] at hblock

end Frame.Prepared

/-- What the loop over the arguments has made. -/
theorem prepared (js : Runtime) {m : Machine} (hm : m.sp ≠ 0) {args : List Arg}
    (hroom : (args.map js.cost).sum ≤ js.stack.room m.sp) :
    Frame.Prepared js m args (js.prepare args m) := by
  induction args using List.reverseRecOn with
  | nil => exact .init js hm
  | append_singleton args arg ih =>
    have hargs : (args.map js.cost).sum ≤ js.stack.room m.sp := by
      rw [List.map_append, List.sum_append] at hroom
      omega
    rw [Runtime.prepare, List.foldl_append]
    exact (ih hargs).convert hm hroom

/-- **What `ccallFunc` does**, for any function: when it is called, each argument is there, as
a number or in a block of its own that belongs to nobody else, and all that was in use is as
it was; and after the call the stack pointer is back. -/
theorem ccallFunc_passes (js : Runtime) {m : Machine} (hm : m.sp ≠ 0) {args : List Arg}
    (hroom : (args.map js.cost).sum ≤ js.stack.room m.sp) :
    ∃ (passed : List (Int × Option (Block Int8))) (m' : Machine),
      List.Forall₂ (fun arg q => arg.PassedAs q.1 q.2) args passed ∧
      Live js.stack m.heap8 m.sp m'.heap8 m'.sp (passed.filterMap Prod.snd) ∧
      ∀ (func : Func) (returnType : ReturnType), func.Balanced →
        js.ccallFunc func returnType args m =
          (js.returned (func (passed.map Prod.fst) m') returnType,
            { (func (passed.map Prod.fst) m').2 with sp := m.sp }) := by
  have h := prepared js hm hroom
  obtain ⟨passed, hpassed, hcArgs, hlive⟩ := h.passed
  refine ⟨passed, (js.prepare args m).machine, hpassed, hlive, fun func returnType hfunc => ?_⟩
  rw [← hcArgs]
  have hsp := hfunc (js.prepare args m).cArgs (js.prepare args m).machine
  refine Prod.ext rfl ?_
  show (if (js.prepare args m).saved ≠ 0 then _ else _) = _
  obtain ⟨hzero, hback⟩ | hsaved := h.saved
  · rw [if_neg (not_not_intro hzero), ← hback, ← hsp]
  · rw [hsaved, if_pos hm]

/-- A stack that grows upwards and aligns its blocks to 16 bytes. -/
def bumpStack : Stack where
  alloc size sp := (sp, (sp + size + 15) / 16 * 16)
  inUse sp := {a | a < sp}
  room sp := 5242880 - sp
  cost size := size + 15
  grows := fun {size sp} _ a (ha : a < sp) => by
    show a < (sp + size + 15) / 16 * 16
    omega
  inside := fun {size sp i} _ hi => by
    show sp + i < (sp + size + 15) / 16 * 16
    omega
  fresh := fun {_ sp i} _ _ => Nat.not_lt.mpr (Nat.le_add_right sp i)
  left := fun _ => by omega
  null := Nat.pos_of_ne_zero
  pointer := fun {size sp} hsp => by
    show (sp + size + 15) / 16 * 16 ≠ 0
    omega

def bumpRuntime : Runtime where
  stack := bumpStack
  stringToUTF8 str ptr size heap8 :=
    store heap8 ⟨ptr, if (utf8 str).length < size then cString str else []⟩
  writeArrayToMemory arr ptr heap8 := store heap8 ⟨ptr, arr.map Int8.ofInt⟩
  utf8ToString ptr heap8 := String.ofList (((bytesAt heap8 ptr 64).takeWhile fun b => b ≠ 0).map
    fun b => Char.ofNat b.toInt.toNat)
  stringToUTF8_eq h := by rw [if_pos h]
  writeArrayToMemory_eq := rfl

/-- An array, its length and a string. -/
theorem ccallFunc_passes_array : ∃ (array string : Nat) (m' : Machine),
    bytesAt m'.heap8 array 3 = [1, 2, -1] ∧ bytesAt m'.heap8 string 4 = [104, -61, -87, 0] ∧
      ∀ (func : Func), func.Balanced →
        (bumpRuntime.ccallFunc func .number [.array [1, 2, 255], .number 3, .string (some "hé")]
          ⟨fun _ => 7, 1024⟩).2 = { (func [array, 3, string] m').2 with sp := 1024 } := by
  obtain ⟨passed, m', hpassed, hlive, hcall⟩ := ccallFunc_passes bumpRuntime
    (show (Machine.mk (fun _ => 7) 1024).sp ≠ 0 by decide)
    (show (([.array [1, 2, 255], .number 3, .string (some "hé")] : List Arg).map
      bumpRuntime.cost).sum ≤ bumpRuntime.stack.room 1024 by decide)
  obtain ⟨⟨_, _⟩, _, h₁, hrest, rfl⟩ := List.forall₂_cons_left_iff.mp hpassed
  obtain ⟨⟨_, _⟩, _, h₂, hlast, rfl⟩ := List.forall₂_cons_left_iff.mp hrest
  obtain ⟨⟨_, _⟩, _, h₃, hnil, rfl⟩ := List.forall₂_cons_left_iff.mp hlast
  cases hnil
  cases h₁ with
  | @array _ array =>
    cases h₂
    cases h₃ with
    | @string _ string hstring =>
      have hbytes : cString "hé" = [104, -61, -87, 0] := by decide
      refine ⟨array, string, m', hlive.held ⟨array, _⟩ List.mem_cons_self, ?_, fun func hfunc => ?_⟩
      · have hheld := hlive.held ⟨string, cString "hé"⟩ (List.mem_cons_of_mem _ List.mem_cons_self)
        rw [hbytes] at hheld
        exact hheld
      · rw [hcall func .number hfunc]
        rfl

end GnunetWeb.CCall
