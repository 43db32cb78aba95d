import GnunetWeb.FileSharing.Readers

/-!
# Offsets of 64 bits

A file's size goes to the C code as two halves, and an offset comes back as two halves.

Proved here:

* `i64ToReal_realToI64`: what goes out can be put together again;
* `publishReader_reads_iff`: when the bytes at an offset are read;
* `offsets_survive_iff`: both.
-/

namespace GnunetWeb.FileSharing

/-- `real-to-i64` -/
def realToI64 (x : Int) : Int × Int := (x % 4294967296, min 4294967295 (x / 4294967296))

/-- **The halves of a number below `2 ^ 53`** are unsigned, and give the number again. -/
theorem i64ToReal_realToI64 {x : Int} (h : 0 ≤ x) (hlt : x < 9007199254740992) :
    (0 ≤ (realToI64 x).1 ∧ (realToI64 x).1 < 4294967296) ∧
      (0 ≤ (realToI64 x).2 ∧ (realToI64 x).2 < 4294967296) ∧
      i64ToReal (realToI64 x).1 (realToI64 x).2 = x := by
  have hhw : min 4294967295 (x / 4294967296) = x / 4294967296 := min_eq_right (by omega)
  simp only [realToI64, i64ToReal, hhw]
  refine ⟨by omega, by omega, ?_⟩
  rw [Double.add_eq (by omega)]
  omega

/-- **When the bytes at an offset are read.** -/
theorem publishReader_reads_iff {fileSize : Nat} {req : Request}
    (hsize : fileSize < 9007199254740992) (hfit : req.offset + req.max ≤ fileSize) :
    (publishReaderCallback fileSize true (toInt32 req.offset)
        (toInt32 (req.offset / 4294967296)) (toInt32 req.max) req.cont req.contCls).2.map
          Delivery.block = [some (req.positions.map some)] ↔
      req.offset % 4294967296 < 2147483648 ∧ req.max < 2147483648 ∨
        fileSize = 4294967296 ∧ req.offset + req.max < 4294967296 := by
  have hmax : toInt32 req.max ≠ 0 := by
    have hpos := req.max_pos
    have hlt := req.max_lt
    rcases toInt32_cases req.max with ⟨_, he⟩ | ⟨_, he⟩
    · rw [he]
      omega
    · rw [he]
      omega
  have hblock : ∀ l : List Nat, [some (l.map some)] = [some (req.positions.map some)] ↔
      l = req.positions := by
    intro l
    rw [List.cons.injEq, Option.some.injEq, and_iff_left rfl]
    exact (List.map_injective_iff.mpr fun _ _ he => Option.some.inj he).eq_iff
  rw [publishReaderCallback, if_neg hmax]
  simp only [if_true, List.map_cons, List.map_nil]
  rw [hblock, blobSlice_eq_iff, bounds_iff hsize, and_iff_right hfit]

/-- **Offsets of 64 bits.**  The bytes that the C code asks for are read when the lower half of
their offset and their number are below `2 ^ 31`, or the file has `2 ^ 32` bytes and they are
not the last; a number goes out and comes back as it was. -/
theorem offsets_survive_iff {fileSize : Nat} {req : Request} (hsize : fileSize < 9007199254740992)
    (hfit : req.offset + req.max ≤ fileSize) {x : Int} (h : 0 ≤ x) (hlt : x < 9007199254740992) :
    ((publishReaderCallback fileSize true (toInt32 req.offset)
        (toInt32 (req.offset / 4294967296)) (toInt32 req.max) req.cont req.contCls).2.map
          Delivery.block = [some (req.positions.map some)] ↔
      req.offset % 4294967296 < 2147483648 ∧ req.max < 2147483648 ∨
        fileSize = 4294967296 ∧ req.offset + req.max < 4294967296) ∧
    (0 ≤ (realToI64 x).1 ∧ (realToI64 x).1 < 4294967296) ∧
    (0 ≤ (realToI64 x).2 ∧ (realToI64 x).2 < 4294967296) ∧
    i64ToReal (realToI64 x).1 (realToI64 x).2 = x :=
  ⟨publishReader_reads_iff hsize hfit, i64ToReal_realToI64 h hlt⟩

/-- Five bytes are asked for at `2 ^ 31`. -/
def beyond : Request := { fiveBytes with offset := 2147483648, offset_lt := by decide }

/-- In a file of `2 ^ 32` bytes they are read; and what `offsets_survive_iff` says of the number
`2 ^ 32`. -/
theorem offsets_survive_beyond :
    ((publishReaderCallback 4294967296 true (toInt32 beyond.offset)
        (toInt32 (beyond.offset / 4294967296)) (toInt32 beyond.max) beyond.cont
        beyond.contCls).2.map Delivery.block = [some (beyond.positions.map some)]) ∧
      i64ToReal (realToI64 4294967296).1 (realToI64 4294967296).2 = 4294967296 := by
  obtain ⟨hreads, -, -, hback⟩ := @offsets_survive_iff 4294967296 beyond (by decide) (by decide)
    4294967296 (by decide) (by decide)
  exact ⟨hreads.mpr (by decide), hback⟩

/-- In one of 3 GiB others are read. -/
theorem publishReader_beyond :
    (publishReaderCallback 3221225472 true (toInt32 beyond.offset)
        (toInt32 (beyond.offset / 4294967296)) (toInt32 beyond.max) beyond.cont
        beyond.contCls).2.map Delivery.block ≠ [some (beyond.positions.map some)] := by
  decide +kernel

end GnunetWeb.FileSharing
