import GnunetWeb.CCall
import Mathlib.Algebra.Order.BigOperators.Group.List
import Mathlib.Algebra.Order.Group.Nat

/-!
# The metadata of a file

`metadata-extract` of `extractor.cljs` gives type and name of a file to
`GNUNET_CONTAINER_meta_data_insert`, each with the number of its units and one more for the
NUL at its end.

Proved here:

* `utf8_length_eq_iff`: a string has as many bytes as units when it is ASCII;
* `metadataInsert_given`: what one call is given;
* `metadataExtract_whole`: it is given the whole string exactly then.
-/

namespace GnunetWeb.Extractor

open CCall StackBlocks

def formatUtf8 : Int := 1

def metatypeMimetype : Int := 1

def metatypeOriginalFilename : Int := 180

/-- `(.-type file)` and `(.-name file)` -/
structure File where
  type : String
  name : String

variable (js : Runtime)

/-- The call of `GNUNET_CONTAINER_meta_data_insert` for one of the texts. -/
def metadataInsert (insert : Func) (metadata type : Int) (text : String) (m : Machine) :
    Returned × Machine :=
  js.ccallFunc insert .number
    [.number metadata, .string "<gnunet-web>", .number type, .number formatUtf8,
      .string "text/plain", .string text, .number (length text + 1)] m

/-- `metadata-extract`, with `create` for `GNUNET_CONTAINER_meta_data_create`. -/
def metadataExtract (create insert : Func) (file : File) (m : Machine) : Int × Machine :=
  let metadata := create [] m
  let m := (metadataInsert js insert metadata.1 metatypeMimetype file.type metadata.2).2
  (metadata.1, (metadataInsert js insert metadata.1 metatypeOriginalFilename file.name m).2)

/-! ## Units and bytes -/

def Ascii (text : String) : Prop := ∀ c ∈ text.toList, c.val ≤ 127

instance (text : String) : Decidable (Ascii text) :=
  inferInstanceAs (Decidable (∀ c ∈ text.toList, c.val ≤ 127))

/-- A character of two units has four bytes. -/
theorem utf8Size_of_pair {c : Char} (h : ¬ c.val ≤ 0xFFFF) : c.utf8Size = 4 := by
  have hlarge : ∀ n : UInt32, n ≤ 0xFFFF → ¬ c.val ≤ n := fun n hn hc => h (UInt32.le_trans hc hn)
  unfold Char.utf8Size
  rw [if_neg (hlarge _ (by decide)), if_neg (hlarge _ (by decide)), if_neg (hlarge _ (by decide))]

theorem units_le (c : Char) : units c ≤ c.utf8Size ∧ (c.utf8Size = units c ↔ c.val ≤ 127) := by
  have hpos := c.utf8Size_pos
  rw [units, ← Char.utf8Size_eq_one_iff]
  split
  · omega
  · next h =>
    have hsize := utf8Size_of_pair h
    omega

theorem length_le (text : String) : length text ≤ (utf8 text).length := by
  rw [utf8_length, length]
  exact List.sum_le_sum fun c _ => (units_le c).1

/-- **Only ASCII has as many bytes as units.** -/
theorem utf8_length_eq_iff (text : String) : (utf8 text).length = length text ↔ Ascii text := by
  rw [utf8_length, length, Ascii]
  induction text.toList with
  | nil => simp
  | cons c cs ih =>
    obtain ⟨hle, heq⟩ := units_le c
    have hrest : (cs.map units).sum ≤ (cs.map Char.utf8Size).sum :=
      List.sum_le_sum fun c _ => (units_le c).1
    rw [List.forall_mem_cons, ← ih, ← heq]
    simp only [List.map_cons, List.sum_cons]
    omega

/-! ## What is given -/

/-- What `GNUNET_CONTAINER_meta_data_insert` is given for a text: the strings, and a place with
the text and the NUL, of which it takes as many bytes as it is told. -/
def Given (metadata type : Int) (text : String) (cArgs : List Int) (heap8 : Heap8) : Prop :=
  ∃ pluginName mimeType data : Ptr,
    cArgs = [metadata, pluginName, type, formatUtf8, mimeType, data, length text + 1] ∧
    bytesAt heap8 pluginName (cString "<gnunet-web>").length = cString "<gnunet-web>" ∧
    bytesAt heap8 mimeType (cString "text/plain").length = cString "text/plain" ∧
    bytesAt heap8 data (length text + 1) = (cString text).take (length text + 1)

/-- What it takes is the whole string. -/
def Whole (text : String) : Prop := (cString text).take (length text + 1) = cString text

theorem whole_iff (text : String) : Whole text ↔ Ascii text := by
  have hle := length_le text
  rw [Whole, List.take_eq_self_iff, cString_length, ← utf8_length_eq_iff]
  omega

theorem bytesAt_take {heap8 : Heap8} {ptr : Ptr} {bytes : List Int8}
    (h : Block.Held heap8 ⟨ptr, bytes⟩) {size : Nat} (hsize : size ≤ bytes.length) :
    bytesAt heap8 ptr size = bytes.take size := by
  have hheld : bytesAt heap8 ptr bytes.length = bytes := h
  rw [← hheld, bytesAt, bytesAt, ← List.map_take, List.take_range, Nat.min_eq_left hsize]

/-- The stack has room for a text and the constants. -/
def HasRoom (text : String) (m : Machine) : Prop :=
  m.sp ≠ 0 ∧ js.cost (.string "<gnunet-web>") + js.cost (.string "text/plain") +
    js.cost (.string text) ≤ js.stack.room m.sp

instance (text : String) (m : Machine) : Decidable (HasRoom js text m) :=
  inferInstanceAs (Decidable (_ ∧ _))

/-- **What one call is given.** -/
theorem metadataInsert_given (metadata type : Int) (text : String) {m : Machine}
    (hroom : HasRoom js text m) : ∃ cArgs m', Given metadata type text cArgs m'.heap8 ∧
      (∀ a ∈ js.stack.inUse m.sp, m'.heap8 a = m.heap8 a) ∧
      ∀ insert : Func, insert.Balanced →
        metadataInsert js insert metadata type text m =
          (.number (insert cArgs m').1, { (insert cArgs m').2 with sp := m.sp }) := by
  obtain ⟨hm, hcost⟩ := hroom
  obtain ⟨passed, m', hpassed, hlive, hcall⟩ := ccallFunc_passes js hm
    (show (([.number metadata, .string "<gnunet-web>", .number type, .number formatUtf8,
      .string "text/plain", .string text, .number (length text + 1)] : List Arg).map
      js.cost).sum ≤ js.stack.room m.sp by
        simp only [List.map_cons, List.map_nil, List.sum_cons, List.sum_nil]
        have hzero : ∀ n : Int, js.cost (.number n) = 0 := fun _ => rfl
        rw [hzero, hzero, hzero, hzero]
        omega)
  obtain ⟨⟨_, _⟩, _, h₁, hrest₁, rfl⟩ := List.forall₂_cons_left_iff.mp hpassed
  obtain ⟨⟨_, _⟩, _, h₂, hrest₂, rfl⟩ := List.forall₂_cons_left_iff.mp hrest₁
  obtain ⟨⟨_, _⟩, _, h₃, hrest₃, rfl⟩ := List.forall₂_cons_left_iff.mp hrest₂
  obtain ⟨⟨_, _⟩, _, h₄, hrest₄, rfl⟩ := List.forall₂_cons_left_iff.mp hrest₃
  obtain ⟨⟨_, _⟩, _, h₅, hrest₅, rfl⟩ := List.forall₂_cons_left_iff.mp hrest₄
  obtain ⟨⟨_, _⟩, _, h₆, hrest₆, rfl⟩ := List.forall₂_cons_left_iff.mp hrest₅
  obtain ⟨⟨_, _⟩, _, h₇, hrest₇, rfl⟩ := List.forall₂_cons_left_iff.mp hrest₆
  cases hrest₇
  cases h₁
  cases h₃
  cases h₄
  cases h₇
  cases h₂ with
  | @string _ pluginName _ =>
    cases h₅ with
    | @string _ mimeType _ =>
      cases h₆ with
      | @string _ data _ =>
        refine ⟨_, m', ⟨pluginName, mimeType, data, rfl, ?_, ?_, ?_⟩, hlive.frame,
          fun insert hinsert => hcall insert .number hinsert⟩
        · exact hlive.held ⟨pluginName, _⟩ List.mem_cons_self
        · exact hlive.held ⟨mimeType, _⟩ (List.mem_cons_of_mem _ List.mem_cons_self)
        · refine bytesAt_take (hlive.held ⟨data, _⟩
            (List.mem_cons_of_mem _ (List.mem_cons_of_mem _ List.mem_cons_self))) ?_
          rw [cString_length]
          exact Nat.succ_le_succ (length_le text)

/-- **Only ASCII is given as a whole.**  Whatever the two functions do, type and name of the
file are given to `GNUNET_CONTAINER_meta_data_insert` one after the other, what is not on the
stack is what the call before has left, and the stack pointer is back at the end.  Each of the
two is cut off, with its NUL, when there is a character in it that is not ASCII. -/
theorem metadataExtract_whole {create insert : Func} (hcreate : create.Balanced)
    (hinsert : insert.Balanced) {file : File} {m : Machine} (htype : HasRoom js file.type m)
    (hname : HasRoom js file.name m) : ∃ cArgs₁ m₁ cArgs₂ m₂,
      Given (create [] m).1 metatypeMimetype file.type cArgs₁ m₁.heap8 ∧
      Given (create [] m).1 metatypeOriginalFilename file.name cArgs₂ m₂.heap8 ∧
      (∀ a ∈ js.stack.inUse m.sp, m₁.heap8 a = (create [] m).2.heap8 a ∧
        m₂.heap8 a = (insert cArgs₁ m₁).2.heap8 a) ∧
      metadataExtract js create insert file m =
        ((create [] m).1, { (insert cArgs₂ m₂).2 with sp := m.sp }) ∧
      (Whole file.type ↔ Ascii file.type) ∧ (Whole file.name ↔ Ascii file.name) := by
  have hsp := hcreate [] m
  obtain ⟨cArgs₁, m₁, hgiven₁, hframe₁, hcall₁⟩ := metadataInsert_given js (create [] m).1
    metatypeMimetype file.type (m := (create [] m).2) (by rwa [HasRoom, hsp])
  obtain ⟨cArgs₂, m₂, hgiven₂, hframe₂, hcall₂⟩ := metadataInsert_given js (create [] m).1
    metatypeOriginalFilename file.name (m := { (insert cArgs₁ m₁).2 with sp := m.sp }) hname
  rw [hsp] at hframe₁ hcall₁
  refine ⟨cArgs₁, m₁, cArgs₂, m₂, hgiven₁, hgiven₂, fun a ha => ⟨hframe₁ a ha, hframe₂ a ha⟩, ?_,
    whole_iff _, whole_iff _⟩
  rw [metadataExtract, hcall₁ insert hinsert, hcall₂ insert hinsert]

/-- A name with one letter that is not ASCII. -/
theorem metadataExtract_whole_name : ∃ (cArgs : List Int) (m' : Machine),
    Given 5 metatypeOriginalFilename "é.txt" cArgs m'.heap8 ∧
    metadataExtract bumpRuntime (fun _ m => (5, m)) (fun _ m => (1, m)) ⟨"text/plain", "é.txt"⟩
      ⟨fun _ => 7, 1024⟩ = (5, ⟨m'.heap8, 1024⟩) ∧
    Whole "text/plain" ∧ ¬ Whole "é.txt" := by
  obtain ⟨_, _, cArgs, m', -, hgiven, -, hrun, htype, hname⟩ := metadataExtract_whole bumpRuntime
    (show Func.Balanced fun _ m => (5, m) from fun _ _ => rfl)
    (show Func.Balanced fun _ m => (1, m) from fun _ _ => rfl)
    (show HasRoom bumpRuntime (File.mk "text/plain" "é.txt").type ⟨fun _ => 7, 1024⟩ from by decide)
    (show HasRoom bumpRuntime (File.mk "text/plain" "é.txt").name ⟨fun _ => 7, 1024⟩ from by decide)
  have htext : Ascii "text/plain" := by simp [Ascii]
  have hfile : ¬ Ascii "é.txt" := by simp [Ascii]
  exact ⟨cArgs, m', hgiven, hrun, htype.mpr htext, fun h => hfile (hname.mp h)⟩

end GnunetWeb.Extractor
