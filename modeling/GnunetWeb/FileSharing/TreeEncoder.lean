import GnunetWeb.FileSharing.Readers

/-!
# The reads of a tree encoder

`GNUNET_FS_tree_encoder_next` and `block_reader` of the patched C code, down to the reader of
the file that is published.  To a reader a size of zero says that it is no longer needed: the
data in memory is freed, and the file is unregistered.

Proved here:

* `cleansUp_iff`: a reader cleans up when it is asked for no bytes;
* `next_asks`: what a tree encoder asks for at depth zero;
* `next_reads_iff`: when this is a read of bytes of the file;
* `next_reads_empty`: the clean-up of an empty file that is still published.
-/

namespace GnunetWeb.FileSharing

/-! ## The reader of a file -/

/-- `p->data.file.reader`, with what it reads from. -/
inductive FileReader where
  /-- `GNUNET_FS_data_reader_copy_` on `size` bytes in memory -/
  | copy (size : Nat)
  /-- `GNUNET_FS_data_reader_file_` -/
  | file (disk : Disk) (fi : FileInfo)
  /-- `publish-reader-callback` on a registered file -/
  | publish (fileSize : Nat) (loads : Bool)

structure ReaderCall where
  offset : Nat
  max : Nat
  deriving DecidableEq

/-- `GNUNET_FS_data_reader_copy_`; nothing is left of the data when it has been freed.  Past its
end there is no byte of the file. -/
def dataReaderCopy (size offset max : Nat) (cont contCls : Ptr) :
    Int × List Delivery × Option Nat :=
  if offset = 18446744073709551615 then (gnunetSyserr, [], some size)
  else if max = 0 then (gnunetSyserr, [], none)
  else
    let block := (List.range max).map fun i =>
      if offset + i < size then some (offset + i) else none
    (gnunetOk, deliver cont contCls (some block) max none, some size)

/-- The return value, the calls of the continuation, and what is left of the reader: nothing
when its data has been freed or its file unregistered. -/
def FileReader.reads (offset max : Nat) (cont contCls : Ptr) :
    FileReader → Option (Int × List Delivery × Option FileReader)
  | copy size =>
    let r := dataReaderCopy size offset max cont contCls
    some (r.1, r.2.1, r.2.2.map copy)
  | file disk fi =>
    (dataReaderFile disk fi offset max cont contCls).map fun r =>
      (r.1, r.2.1, r.2.2.map (file disk))
  | publish fileSize loads =>
    let size := toInt32 max
    let r := publishReaderCallback fileSize loads (toInt32 offset)
      (toInt32 (offset / 4294967296)) size cont contCls
    some (r.1, r.2, if size = 0 then none else some (publish fileSize loads))

/-! ## The encoder -/

/-- The `p` that `block_reader` reads from: the data of a directory, or a plain file. -/
inductive FileInformation where
  | directory (dirSize : Nat)
  | file (reader : FileReader)

def blockReader (offset max : Nat) (cont contCls : Ptr) : FileInformation →
    Option ReaderCall × Option (Int × List Delivery × Option FileInformation)
  | .directory dirSize =>
    let block := (List.range max).map fun i =>
      if offset + i < dirSize then some (offset + i) else none
    (none, some (gnunetOk, deliver cont contCls (some block) max none, some (.directory dirSize)))
  | .file reader =>
    if offset = 18446744073709551615 then
      match reader with
      | .file _ _ => (some ⟨offset, 0⟩, (reader.reads offset 0 0 0).map fun r =>
          (gnunetSyserr, r.2.1, r.2.2.map .file))
      | _ => (none, some (gnunetSyserr, [], some (.file reader)))
    else
      (some ⟨offset, max⟩, (reader.reads offset max cont contCls).map fun r =>
        (r.1, r.2.1, r.2.2.map .file))

/-- The fields of `struct GNUNET_FS_TreeEncoder` that say where it is. -/
structure TreeEncoder where
  size : Nat
  publishOffset : Nat
  currentDepth : Nat
  chkTreeDepth : Nat
  /-- the size is of type `uint64_t` -/
  size_lt : size < 18446744073709551616

inductive Next where
  /-- the URI is made of `chk_tree[off]` -/
  | finished (off : Nat)
  /-- `te->reader` is called, and through it the reader of the file -/
  | read (call : ReaderCall) (asked : Option ReaderCall)
      (result : Option (Int × List Delivery × Option FileInformation))
  /-- `encrypt_block` is called with a block of the tree -/
  | encrypt (ptSize : Nat)

section Encoder

-- `DBLOCK_SIZE`, `CHK_PER_INODE`, `GNUNET_FS_tree_compute_iblock_size`, `&encrypt_block`
-- and the pointer to the encoder
variable (dblockSize chkPerInode : Nat) (computeIblockSize : Nat → Nat → Nat)
  (encryptBlock cls : Ptr)

/-- `GNUNET_FS_tree_encoder_next` of an encoder whose reader is `block_reader`; `pt_size` is a
`uint16_t`. -/
def treeEncoderNext (te : TreeEncoder) (p : FileInformation) : Next :=
  if te.chkTreeDepth = te.currentDepth then .finished (chkPerInode * (te.chkTreeDepth - 1))
  else if te.currentDepth = 0 then
    let ptSize := min dblockSize (toUInt64 ((te.size : Int) - te.publishOffset)) % 65536
    let r := blockReader te.publishOffset ptSize encryptBlock cls p
    .read ⟨te.publishOffset, ptSize⟩ r.1 r.2
  else .encrypt (computeIblockSize te.currentDepth te.publishOffset % 65536)

/-- The encoder reads at least one byte and at most a block, inside the file; the reader of the
file is asked for the same, and is still there afterwards. -/
def ReadsData (te : TreeEncoder) : Next → Prop
  | .read call asked result =>
    1 ≤ call.max ∧ call.max ≤ dblockSize ∧ call.offset + call.max ≤ te.size ∧
      asked = some call ∧ ∀ r, result = some r → r.2.2 ≠ none
  | _ => False

/-! ## Cleaning up -/

def CleansUp {α : Type} (result : Option (Int × List Delivery × Option α)) : Prop :=
  ∃ r, result = some r ∧ r.2.2 = none

theorem cleansUp_iff (reader : FileReader) {offset max : Nat} (cont contCls : Ptr)
    (ho : offset ≠ 18446744073709551615) (hm : max < 65536) :
    CleansUp (reader.reads offset max cont contCls) ↔ max = 0 := by
  cases reader with
  | copy size =>
    by_cases h : max = 0
    · simp [CleansUp, FileReader.reads, dataReaderCopy, ho, h]
    · simp [CleansUp, FileReader.reads, dataReaderCopy, ho, h]
  | file disk fi =>
    by_cases h : max = 0
    · simp [CleansUp, FileReader.reads, dataReaderFile, ho, h]
    · simp only [h, iff_false]
      rintro ⟨r, hr, hleft⟩
      simp only [FileReader.reads, dataReaderFile, if_neg ho, if_neg h, Option.map_eq_some_iff]
        at hr
      obtain ⟨q, hq, rfl⟩ := hr
      split at hq
      · cases hq
      · split at hq
        · cases hq
        · split at hq
          · cases hq
          · split at hq
            · cases hq
            · cases hq
              cases hleft
  | publish fileSize loads =>
    have hsize : toInt32 max = 0 ↔ max = 0 := by
      rw [toInt32]
      split <;> omega
    simp only [CleansUp, FileReader.reads, Option.some.injEq, exists_eq_left', hsize]
    by_cases h : max = 0
    · simp [h]
    · simp [h]

/-! ## Reading a file to its end -/

variable {te : TreeEncoder} (reader : FileReader)

/-- **What is asked for**: the next block, or what is left of the file. -/
theorem next_asks (hlt : dblockSize < 65536) (hdepth : te.currentDepth = 0)
    (hchk : 1 ≤ te.chkTreeDepth) (hoff : te.publishOffset ≤ te.size)
    (hmax : te.publishOffset ≠ 18446744073709551615) :
    treeEncoderNext dblockSize chkPerInode computeIblockSize encryptBlock cls te (.file reader) =
      .read ⟨te.publishOffset, min dblockSize (te.size - te.publishOffset)⟩
        (some ⟨te.publishOffset, min dblockSize (te.size - te.publishOffset)⟩)
        ((reader.reads te.publishOffset (min dblockSize (te.size - te.publishOffset))
          encryptBlock cls).map fun r => (r.1, r.2.1, r.2.2.map .file)) := by
  have hlast : ¬te.chkTreeDepth = te.currentDepth := by omega
  have hsize := te.size_lt
  have hleft : toUInt64 ((te.size : Int) - te.publishOffset) = te.size - te.publishOffset := by
    rw [toUInt64]
    omega
  have hpt : min dblockSize (te.size - te.publishOffset) % 65536 =
      min dblockSize (te.size - te.publishOffset) := Nat.mod_eq_of_lt (by omega)
  simp only [treeEncoderNext, if_neg hlast, if_pos hdepth, hleft, hpt, blockReader, if_neg hmax]

/-- **The encoder reads data, unless the file is empty.** -/
theorem next_reads_iff (hpos : 0 < dblockSize) (hlt : dblockSize < 65536)
    (hdepth : te.currentDepth = 0) (hchk : 1 ≤ te.chkTreeDepth)
    (hoff : te.publishOffset < te.size ∨ te.size = 0 ∧ te.publishOffset = 0) :
    ReadsData dblockSize te (treeEncoderNext dblockSize chkPerInode computeIblockSize
      encryptBlock cls te (.file reader)) ↔ 0 < te.size := by
  have hsize := te.size_lt
  have hmax : te.publishOffset ≠ 18446744073709551615 := by omega
  rw [next_asks dblockSize chkPerInode computeIblockSize encryptBlock cls reader hlt hdepth hchk
    (by omega) hmax]
  constructor
  · rintro ⟨hmin, -⟩
    simp only at hmin
    omega
  · intro hne
    refine ⟨by simp only; omega, Nat.min_le_left _ _, by simp only; omega, rfl, ?_⟩
    intro r hr hleft
    obtain ⟨q, hq, rfl⟩ := Option.map_eq_some_iff.mp hr
    have hclean : CleansUp (reader.reads te.publishOffset
        (min dblockSize (te.size - te.publishOffset)) encryptBlock cls) :=
      ⟨q, hq, Option.map_eq_none_iff.mp hleft⟩
    rw [cleansUp_iff reader encryptBlock cls hmax (by omega)] at hclean
    omega

end Encoder

/-- The last block of a file in memory, of one byte. -/
theorem next_reads_last : ReadsData 32768 ⟨32769, 32768, 0, 2, by decide⟩
    (treeEncoderNext 32768 256 (fun _ _ => 0) 1 2 ⟨32769, 32768, 0, 2, by decide⟩
      (.file (.copy 32769))) :=
  (next_reads_iff 32768 256 _ 1 2 (.copy 32769) (by decide) (by decide) rfl (by decide)
    (.inl (by decide))).mpr (by decide)

theorem next_reads_empty :
    treeEncoderNext 32768 256 (fun _ _ => 0) 1 2 ⟨0, 0, 0, 1, by decide⟩ (.file (.copy 0)) =
      .read ⟨0, 0⟩ (some ⟨0, 0⟩) (some (gnunetSyserr, [], none)) ∧
    ¬ ReadsData 32768 ⟨0, 0, 0, 1, by decide⟩
      (treeEncoderNext 32768 256 (fun _ _ => 0) 1 2 ⟨0, 0, 0, 1, by decide⟩ (.file (.copy 0))) := by
  refine ⟨rfl, fun h => ?_⟩
  have hmin : 1 ≤ 0 := h.1
  omega

end GnunetWeb.FileSharing
