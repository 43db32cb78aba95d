import GnunetWeb.Heap
import GnunetWeb.Library.Double

/-!
# The data readers

`GNUNET_FS_data_reader_file_`, `fh_reader` and `unindex_reader` of the patched C code, and
`publish-reader-callback` of `filesharing.cljs`.  A byte of a file is known by its
position, so that a byte that was read is told from one that only looks like it.

Proved here:

* `buffer_eq_iff`: when a buffer holds what was asked for;
* `blobSlice_eq_iff`, `bounds_iff`: when `File.slice` is asked for it;
* `readers_meet_iff`: when a reader keeps its contract.
-/

namespace GnunetWeb.FileSharing

/-- `GNUNET_OK` -/
def gnunetOk : Int := 1

/-- `GNUNET_SYSERR` -/
def gnunetSyserr : Int := -1

/-- A number as a `size_t`. -/
def toSize (n : Int) : Nat := (n % 4294967296).toNat

/-- A number as a `uint64_t`. -/
def toUInt64 (n : Int) : Nat := (n % 18446744073709551616).toNat

/-- The signed number that JavaScript gets for 32 bits. -/
def toInt32 (n : Nat) : Int :=
  if n % 4294967296 < 2147483648 then ((n % 4294967296 : Nat) : Int)
  else ((n % 4294967296 : Nat) : Int) - 4294967296

/-! ## Files -/

/-- A file of `size` bytes that is open at `position`. -/
structure FileHandle where
  size : Nat
  position : Nat
  /-- sizes are of type `off_t` -/
  size_lt : size < 9223372036854775808

/-- `GNUNET_DISK_file_open` with `NULL` as `none`, `GNUNET_DISK_file_seek` with
`GNUNET_DISK_SEEK_SET`, and `GNUNET_DISK_file_read` with the positions of the bytes that
it read.  A call can fail whenever it is made, and a read can be short. -/
structure Disk where
  fileOpen : String → Option FileHandle
  fileSeek : FileHandle → Nat → Int × FileHandle
  fileRead : FileHandle → Nat → Int × List Nat × FileHandle
  fileSeek_spec : ∀ fh offset, fileSeek fh offset = (-1, fh) ∨
    offset < 9223372036854775808 ∧
      fileSeek fh offset = ((offset : Int), { fh with position := offset })
  fileRead_spec : ∀ fh max, fileRead fh max = (-1, [], fh) ∨ ∃ n ≤ max,
    (0 < n → fh.position + n ≤ fh.size) ∧
      fileRead fh max = ((n : Int), (List.range n).map (fh.position + ·),
        { fh with position := fh.position + n })

/-- The block that a continuation gets, `none` for `NULL`; in it, `none` is a byte that
nothing was read into.  `size` is a `uint16_t`. -/
structure Delivery where
  cont : Ptr
  contCls : Ptr
  block : Option (List (Option Nat))
  size : Nat
  emsg : Option String

/-- `if (cont) cont (cont_cls, block, max, emsg);` -/
def deliver (cont contCls : Ptr) (block : Option (List (Option Nat))) (max : Nat)
    (emsg : Option String) : List Delivery :=
  if cont ≠ 0 then [⟨cont, contCls, block, max % 65536, emsg⟩] else []

/-- `char buf[max]` with what was read into it -/
def buffer (bytes : List Nat) (max : Nat) : List (Option Nat) :=
  bytes.map some ++ List.replicate (max - bytes.length) none

/-! ## The readers in C -/

/-- `struct FileInfo` -/
structure FileInfo where
  filename : String
  fd : Option FileHandle

/-- `GNUNET_FS_data_reader_file_`.  There is no result when `GNUNET_asprintf` is to store
the error message at `emsg`, which is `NULL`. -/
def dataReaderFile (disk : Disk) (fi : FileInfo) (offset max : Nat) (cont contCls : Ptr) :
    Option (Int × List Delivery × Option FileInfo) :=
  if offset = 18446744073709551615 then some (gnunetSyserr, [], some { fi with fd := none })
  else if max = 0 then some (gnunetSyserr, [], none)
  else
    match fi.fd.or (disk.fileOpen fi.filename) with
    | none => none
    | some fd =>
      let seek := disk.fileSeek fd offset
      if seek.1 = -1 then none
      else
        let read := disk.fileRead seek.2 max
        if read.1 = -1 then none
        else if toSize read.1 ≠ max then none
        else some (gnunetOk, deliver cont contCls (some (buffer read.2.1 max)) max none,
          some { fi with fd := some read.2.2 })

/-- `fh_reader`; `strerror` is the text of `errno`. -/
def fhReader (disk : Disk) (strerror : String) (fh : FileHandle) (offset max : Nat)
    (cont contCls : Ptr) : Int × List Delivery × FileHandle :=
  let seek := disk.fileSeek fh offset
  if offset ≠ toUInt64 seek.1 then
    (gnunetOk, deliver cont contCls none max (some strerror), seek.2)
  else
    let read := disk.fileRead seek.2 max
    if read.1 < 0 then (gnunetOk, deliver cont contCls none max (some strerror), read.2.2)
    else (gnunetOk, deliver cont contCls (some (buffer read.2.1 max)) max none, read.2.2)

/-- `unindex_reader` -/
def unindexReader (disk : Disk) (fh : FileHandle) (offset max : Nat) (cont contCls : Ptr) :
    Int × List Delivery × FileHandle :=
  let seek := disk.fileSeek fh offset
  if offset ≠ toUInt64 seek.1 then
    (gnunetOk, deliver cont contCls none max (some "Failed to find given position in file"), seek.2)
  else
    let read := disk.fileRead seek.2 max
    if max ≠ toSize read.1 then
      (gnunetOk, deliver cont contCls none max (some "Failed to read file"), read.2.2)
    else (gnunetOk, deliver cont contCls (some (buffer read.2.1 max)) max none, read.2.2)

/-! ## The reader in ClojureScript -/

/-- `i64-to-real` -/
def i64ToReal (lw hw : Int) : Int := Double.add lw (4294967296 * hw)

/-- A bound of `Blob.slice` on a blob of `size` bytes. -/
def sliceBound (size : Nat) (i : Int) : Nat :=
  if i < 0 then (size + i).toNat else min i.toNat size

/-- The positions of `blob.slice(start, end)`. -/
def blobSlice (size : Nat) (start stop : Int) : List Nat :=
  (List.range (sliceBound size stop - sliceBound size start)).map (sliceBound size start + ·)

/-- `publish-reader-callback` for a file of `fileSize` bytes.  The continuation is called
when the file reader loads; nothing waits for its error. -/
def publishReaderCallback (fileSize : Nat) (loads : Bool) (offsetLw offsetHw size : Int)
    (cont contCls : Ptr) : Int × List Delivery :=
  if size = 0 then (0, [])
  else
    let offset := i64ToReal offsetLw offsetHw
    let result := blobSlice fileSize offset (Double.add offset size)
    (1, if loads then [⟨cont, contCls, some (result.map some), toSize size % 65536, none⟩] else [])

/-! ## The contract -/

/-- What a reader is asked for. -/
structure Request where
  offset : Nat
  max : Nat
  cont : Ptr
  contCls : Ptr
  offset_lt : offset < 18446744073709551616
  max_pos : 0 < max
  max_lt : max < 4294967296
  cont_ne : cont ≠ 0

/-- The bytes of the file that a reader is asked for. -/
def Request.positions (req : Request) : List Nat := (List.range req.max).map (req.offset + ·)

/-- The contract of a reader: it does not call the continuation and says so, or calls it
once with all the bytes, or with an error when not all of them could be read. -/
def Meets (req : Request) (allRead : Prop) : Option (Int × List Delivery) → Prop
  | none => False
  | some (ret, calls) => ret ≠ gnunetOk ∧ calls = [] ∨
    ret = gnunetOk ∧ ∃ d, calls = [d] ∧ d.cont = req.cont ∧ d.contCls = req.contCls ∧
      (d.block = some (req.positions.map some) ∧ d.size = req.max ∧ d.emsg = none ∨
        d.block = none ∧ d.emsg ≠ none ∧ ¬ allRead)

/-- A reader with what it reads from. -/
inductive Source where
  /-- `GNUNET_FS_data_reader_file_` -/
  | file (disk : Disk) (fi : FileInfo)
  /-- `fh_reader` -/
  | download (disk : Disk) (strerror : String) (fh : FileHandle)
  /-- `unindex_reader` -/
  | unindex (disk : Disk) (fh : FileHandle)
  /-- `publish-reader-callback`, whose arguments are numbers of 32 bits -/
  | publish (fileSize : Nat) (hsize : fileSize < 9007199254740992) (loads : Bool)

/-- The return value and the calls of the continuation. -/
def Source.reads (req : Request) : Source → Option (Int × List Delivery)
  | file disk fi => (dataReaderFile disk fi req.offset req.max req.cont req.contCls).map
      fun r => (r.1, r.2.1)
  | download disk strerror fh =>
    let r := fhReader disk strerror fh req.offset req.max req.cont req.contCls
    some (r.1, r.2.1)
  | unindex disk fh =>
    let r := unindexReader disk fh req.offset req.max req.cont req.contCls
    some (r.1, r.2.1)
  | publish fileSize _ loads => some (publishReaderCallback fileSize loads (toInt32 req.offset)
      (toInt32 (req.offset / 4294967296)) (toInt32 req.max) req.cont req.contCls)

/-- The seek and the read succeed, with all the bytes. -/
def ReadsAll (req : Request) (disk : Disk) (fh : FileHandle) : Prop :=
  (disk.fileSeek fh req.offset).1 = req.offset ∧
    (disk.fileRead (disk.fileSeek fh req.offset).2 req.max).1 = req.max

/-- All the bytes could be read. -/
def Source.AllRead (req : Request) : Source → Prop
  | file disk fi => ∃ fd ∈ fi.fd.or (disk.fileOpen fi.filename), ReadsAll req disk fd
  | download disk _ fh | unindex disk fh => ReadsAll req disk fh
  | publish fileSize _ loads => loads ∧ req.offset + req.max ≤ fileSize

/-- Where the reader keeps its contract: all bytes can be read and their number fits the
continuation, or it is the error that the reader handles. -/
def Source.Sound (req : Request) : Source → Prop
  | file disk fi =>
    req.offset = 18446744073709551615 ∨ (file disk fi).AllRead req ∧ req.max < 65536
  | download disk _ fh =>
    let seek := disk.fileSeek fh req.offset
    seek.1 = -1 ∧ req.offset ≠ 18446744073709551615 ∨ (disk.fileRead seek.2 req.max).1 = -1 ∨
      ReadsAll req disk fh ∧ req.max < 65536
  | unindex disk fh =>
    let seek := disk.fileSeek fh req.offset
    seek.1 = -1 ∧ req.offset ≠ 18446744073709551615 ∨
      toSize (disk.fileRead seek.2 req.max).1 ≠ req.max ∨
      ReadsAll req disk fh ∧ req.max < 65536
  | publish fileSize _ loads => loads ∧ req.max < 65536 ∧ req.offset + req.max ≤ fileSize ∧
    (req.offset % 4294967296 < 2147483648 ∨
      fileSize = 4294967296 ∧ req.offset + req.max < 4294967296)

/-! ## Buffers -/

theorem buffer_eq_iff {bytes l : List Nat} {max : Nat} (hl : l.length = max)
    (hbytes : bytes.length ≤ max) : buffer bytes max = l.map some ↔ bytes = l := by
  constructor
  · intro h
    have hlength : bytes.length = max := by
      by_contra hne
      have hmem : none ∈ buffer bytes max := by
        refine List.mem_append_right _ (List.mem_replicate.mpr ⟨?_, rfl⟩)
        omega
      rw [h] at hmem
      simp at hmem
    rw [buffer, hlength, Nat.sub_self, List.replicate_zero, List.append_nil] at h
    exact List.map_injective_iff.mpr (fun _ _ he => Option.some.inj he) h
  · rintro rfl
    simp [buffer, hl]

theorem positions_eq_iff (req : Request) {n position : Nat} :
    (List.range n).map (position + ·) = req.positions ↔ n = req.max ∧ position = req.offset := by
  constructor
  · intro h
    have hlength : n = req.max := by simpa [Request.positions] using congrArg List.length h
    subst hlength
    have hhead := congrArg List.head? h
    have hpos := req.max_pos
    refine ⟨rfl, ?_⟩
    obtain ⟨m, hm⟩ := Nat.exists_eq_add_of_lt hpos
    simp [Request.positions, hm, List.range_succ_eq_map] at hhead
    exact hhead
  · rintro ⟨rfl, rfl⟩
    rfl

theorem positions_ne_nil (req : Request) : req.positions ≠ [] := by
  intro he
  have hlength : req.max = 0 := by simpa [Request.positions] using congrArg List.length he
  have := req.max_pos
  omega

/-! ## What is delivered -/

section Meets

variable {req : Request} {allRead : Prop}

theorem deliver_eq (req : Request) (block : Option (List (Option Nat))) (emsg : Option String) :
    deliver req.cont req.contCls block req.max emsg =
      [⟨req.cont, req.contCls, block, req.max % 65536, emsg⟩] := by
  rw [deliver, if_pos req.cont_ne]

theorem meets_error (emsg : String) : Meets req allRead
    (some (gnunetOk, deliver req.cont req.contCls none req.max (some emsg))) ↔ ¬ allRead := by
  rw [deliver_eq, Meets]
  constructor
  · rintro (⟨h, _⟩ | ⟨_, d, hd, _, _, ⟨hblock, _⟩ | ⟨_, _, hnot⟩⟩)
    · exact absurd rfl h
    · cases hd
      cases hblock
    · exact hnot
  · exact fun hnot => .inr ⟨rfl, _, rfl, rfl, rfl, .inr ⟨rfl, Option.some_ne_none _, hnot⟩⟩

theorem meets_data {bytes : List Nat} (hbytes : bytes.length ≤ req.max) : Meets req allRead
    (some (gnunetOk, deliver req.cont req.contCls (some (buffer bytes req.max)) req.max none)) ↔
      bytes = req.positions ∧ req.max < 65536 := by
  have hbuffer : buffer bytes req.max = req.positions.map some ↔ bytes = req.positions :=
    buffer_eq_iff (by simp [Request.positions]) hbytes
  rw [deliver_eq, Meets]
  constructor
  · rintro (⟨h, _⟩ | ⟨_, d, hd, _, _, ⟨hblock, hsize, _⟩ | ⟨hblock, _⟩⟩)
    · exact absurd rfl h
    · cases hd
      have hlt := Nat.mod_lt req.max (show 65536 > 0 by decide)
      exact ⟨hbuffer.mp (Option.some.inj hblock), by rw [← hsize]; exact hlt⟩
    · cases hd
      cases hblock
  · rintro ⟨heq, hmax⟩
    exact .inr ⟨rfl, _, rfl, rfl, rfl,
      .inl ⟨congrArg some (hbuffer.mpr heq), Nat.mod_eq_of_lt hmax, rfl⟩⟩

/-- The bytes that a read of `n` bytes at `position` put into the buffer. -/
theorem meets_read {n position : Nat} (hn : n ≤ req.max) : Meets req allRead (some (gnunetOk,
    deliver req.cont req.contCls (some (buffer ((List.range n).map (position + ·)) req.max))
      req.max none)) ↔ (n = req.max ∧ position = req.offset) ∧ req.max < 65536 := by
  rw [meets_data (by simpa using hn), positions_eq_iff]

end Meets

/-! ## The readers -/

section Readers

variable {req : Request} {disk : Disk}

/-- A position in a file is not the offset that stands for none. -/
theorem position_ne {fh : FileHandle} {n : Nat} (hfit : 0 < n → fh.position + n ≤ fh.size)
    (hn : n = req.max) : fh.position ≠ 18446744073709551615 := by
  have := fh.size_lt
  have := hfit (hn ▸ req.max_pos)
  omega

theorem toUInt64_neg_one : toUInt64 (-1) = 18446744073709551615 := by decide

theorem toUInt64_offset (req : Request) : toUInt64 (req.offset : Int) = req.offset := by
  have := req.offset_lt
  rw [toUInt64]
  omega

theorem toSize_eq {n : Nat} (hn : n ≤ req.max) : toSize (n : Int) = n := by
  have := req.max_lt
  rw [toSize]
  omega

theorem fhReader_meets_iff (strerror : String) (fh : FileHandle) :
    Meets req ((Source.download disk strerror fh).AllRead req)
      ((Source.download disk strerror fh).reads req) ↔
        (Source.download disk strerror fh).Sound req := by
  simp only [Source.reads, Source.AllRead, Source.Sound, fhReader, ReadsAll]
  have hmax := req.max_pos
  rcases disk.fileSeek_spec fh req.offset with hs | ⟨hlt, hs⟩
  · have hnot : ¬ (-1 : Int) = req.offset := by omega
    simp only [hs, toUInt64_neg_one]
    by_cases ho : req.offset = 18446744073709551615
    -- `-1` is taken for the offset
    · rw [if_neg (not_not.mpr ho)]
      rcases disk.fileRead_spec fh req.max with hr | ⟨n, hn, hfit, hr⟩
      · simp only [hr]
        rw [if_pos (by decide), meets_error]
        simp [hnot]
      · simp only [hr]
        rw [if_neg (by omega), meets_read hn, ho]
        have hne : ¬ ((n = req.max ∧ fh.position = 18446744073709551615) ∧ req.max < 65536) :=
          fun h => position_ne hfit h.1.1 h.1.2
        simp [hne]
    · rw [if_pos ho, meets_error]
      simp [hnot, ho]
  · have hnot : ¬ (req.offset : Int) = -1 := by omega
    simp only [hs, toUInt64_offset]
    rw [if_neg (not_not.mpr rfl)]
    rcases disk.fileRead_spec { fh with position := req.offset } req.max with hr | ⟨n, hn, _, hr⟩
    · have hshort : ¬ (-1 : Int) = req.max := by omega
      simp only [hr]
      rw [if_pos (by decide), meets_error]
      simp [hshort]
    · have hread : ¬ (n : Int) = -1 := by omega
      simp only [hr]
      rw [if_neg (by omega), meets_read hn]
      simp only [hnot, hread, Int.natCast_inj, and_true, ne_eq, false_and, true_and, false_or]

theorem unindexReader_meets_iff (fh : FileHandle) :
    Meets req ((Source.unindex disk fh).AllRead req) ((Source.unindex disk fh).reads req) ↔
      (Source.unindex disk fh).Sound req := by
  simp only [Source.reads, Source.AllRead, Source.Sound, unindexReader, ReadsAll]
  have hmax := req.max_pos
  rcases disk.fileSeek_spec fh req.offset with hs | ⟨hlt, hs⟩
  · have hnot : ¬ (-1 : Int) = req.offset := by omega
    simp only [hs, toUInt64_neg_one]
    by_cases ho : req.offset = 18446744073709551615
    · rw [if_neg (not_not.mpr ho)]
      rcases disk.fileRead_spec fh req.max with hr | ⟨n, hn, hfit, hr⟩
      · simp only [hr]
        by_cases hshort : req.max = toSize (-1)
        · rw [if_neg (not_not.mpr hshort), meets_data (Nat.zero_le _)]
          simp [ho, ← hshort, positions_ne_nil]
        · rw [if_pos hshort, meets_error]
          simp [hnot, Ne.symm hshort]
      · simp only [hr, toSize_eq hn]
        by_cases hshort : req.max = n
        · have hne := position_ne hfit hshort.symm
          rw [if_neg (not_not.mpr hshort), meets_read hn]
          simp [ho, hshort, hne]
        · rw [if_pos hshort, meets_error]
          simp [hnot, Ne.symm hshort]
    · rw [if_pos ho, meets_error]
      simp [hnot, ho]
  · have hnot : ¬ (req.offset : Int) = -1 := by omega
    simp only [hs, toUInt64_offset]
    rw [if_neg (not_not.mpr rfl)]
    rcases disk.fileRead_spec { fh with position := req.offset } req.max with hr | ⟨n, hn, _, hr⟩
    · have hfailed : ¬ (-1 : Int) = req.max := by omega
      simp only [hr]
      by_cases hshort : req.max = toSize (-1)
      · rw [if_neg (not_not.mpr hshort), meets_data (Nat.zero_le _)]
        simp [hnot, ← hshort, positions_ne_nil, hfailed]
      · rw [if_pos hshort, meets_error]
        simp [hnot, Ne.symm hshort, hfailed]
    · simp only [hr, toSize_eq hn]
      by_cases hshort : req.max = n
      · rw [if_neg (not_not.mpr hshort), meets_read hn]
        simp [hnot, ← hshort]
      · have hshort' : ¬ (n : Int) = req.max := by omega
        rw [if_pos hshort, meets_error]
        simp [hnot, Ne.symm hshort, hshort']

theorem dataReaderFile_meets_iff (fi : FileInfo) :
    Meets req ((Source.file disk fi).AllRead req) ((Source.file disk fi).reads req) ↔
      (Source.file disk fi).Sound req := by
  simp only [Source.Sound]
  by_cases ho : req.offset = 18446744073709551615
  · refine iff_of_true ?_ (.inl ho)
    rw [Source.reads, dataReaderFile, if_pos ho]
    exact .inl ⟨show gnunetSyserr ≠ gnunetOk by decide, rfl⟩
  rw [or_iff_right ho]
  simp only [Source.reads, Source.AllRead, dataReaderFile]
  have hmax := req.max_pos
  rw [if_neg ho, if_neg (by omega)]
  cases fi.fd.or (disk.fileOpen fi.filename) with
  | none => simp [Meets]
  | some fd =>
    simp only [Option.mem_def, Option.some.injEq, exists_eq_left', ReadsAll]
    rcases disk.fileSeek_spec fd req.offset with hs | ⟨hlt, hs⟩
    · have hnot : ¬ (-1 : Int) = req.offset := by omega
      simp [hs, hnot, Meets]
    · have hnot : ¬ (req.offset : Int) = -1 := by omega
      simp only [hs, if_neg hnot]
      rcases disk.fileRead_spec { fd with position := req.offset } req.max with hr | ⟨n, hn, _, hr⟩
      · have hfailed : ¬ (-1 : Int) = req.max := by omega
        simp [hr, hfailed, Meets]
      · have hread : ¬ (n : Int) = -1 := by omega
        simp only [hr, if_neg hread, toSize_eq hn]
        by_cases hshort : n = req.max
        · rw [if_neg (not_not.mpr hshort), Option.map_some, meets_read hn]
          simp [hshort]
        · have hshort' : ¬ (n : Int) = req.max := by omega
          rw [if_pos hshort]
          simp [Meets, hshort']

end Readers

/-! ## The slice of a file -/

section Slice

variable {req : Request}

theorem blobSlice_eq_iff {fileSize : Nat} {start stop : Int} :
    blobSlice fileSize start stop = req.positions ↔
      sliceBound fileSize start = req.offset ∧ sliceBound fileSize stop = req.offset + req.max := by
  rw [blobSlice, positions_eq_iff]
  have := req.max_pos
  omega

theorem sliceBound_le (size : Nat) (i : Int) : sliceBound size i ≤ size := by
  unfold sliceBound
  split <;> omega

theorem toInt32_cases (n : Nat) :
    n % 4294967296 < 2147483648 ∧ toInt32 n = ((n % 4294967296 : Nat) : Int) ∨
      2147483648 ≤ n % 4294967296 ∧ toInt32 n = ((n % 4294967296 : Nat) : Int) - 4294967296 := by
  unfold toInt32
  split
  · exact .inl ⟨‹_›, rfl⟩
  · exact .inr ⟨by omega, rfl⟩

/-- **The bounds that are asked for are those of the bytes** when neither the lower half of
the offset nor the number of bytes has arrived as a negative number, or when a file of
`2 ^ 32` bytes makes up for that. -/
theorem bounds_iff {fileSize : Nat} (hsize : fileSize < 9007199254740992) :
    (sliceBound fileSize
        (i64ToReal (toInt32 req.offset) (toInt32 (req.offset / 4294967296))) = req.offset ∧
      sliceBound fileSize
        (Double.add (i64ToReal (toInt32 req.offset) (toInt32 (req.offset / 4294967296)))
          (toInt32 req.max)) = req.offset + req.max) ↔
    req.offset + req.max ≤ fileSize ∧
      (req.offset % 4294967296 < 2147483648 ∧ req.max < 2147483648 ∨
        fileSize = 4294967296 ∧ req.offset + req.max < 4294967296) := by
  by_cases hfit : req.offset + req.max ≤ fileSize
  · have hpos := req.max_pos
    have hlt := req.max_lt
    have hmod : req.max % 4294967296 = req.max := Nat.mod_eq_of_lt hlt
    have hhw : toInt32 (req.offset / 4294967296) = ((req.offset / 4294967296 : Nat) : Int) := by
      unfold toInt32
      rw [Nat.mod_eq_of_lt (by omega), if_pos (by omega)]
    have hlw := toInt32_cases req.offset
    have hmax := toInt32_cases req.max
    rw [hmod] at hmax
    -- neither of the two sums is rounded
    have hstart : i64ToReal (toInt32 req.offset) (toInt32 (req.offset / 4294967296)) =
        toInt32 req.offset + 4294967296 * ((req.offset / 4294967296 : Nat) : Int) := by
      rw [hhw, i64ToReal, Double.add_eq (by omega)]
    rw [hstart, Double.add_eq (by omega)]
    unfold sliceBound
    rcases hlw with ⟨hlw, he⟩ | ⟨hlw, he⟩
    · rw [he]
      rcases hmax with ⟨hmax, he'⟩ | ⟨hmax, he'⟩
      · rw [he', if_neg (by omega), if_neg (by omega)]
        omega
      · rw [he', if_neg (by omega)]
        split <;> omega
    · rw [he]
      rcases hmax with ⟨hmax, he'⟩ | ⟨hmax, he'⟩
      · rw [he']
        split <;> split <;> omega
      · rw [he']
        split <;> split <;> omega
  · refine iff_of_false (fun h => hfit ?_) fun h => hfit h.1
    rw [← h.2]
    exact sliceBound_le _ _

end Slice

theorem publishReader_meets_iff {req : Request} {fileSize : Nat}
    (hsize : fileSize < 9007199254740992) (loads : Bool) :
    Meets req ((Source.publish fileSize hsize loads).AllRead req)
      ((Source.publish fileSize hsize loads).reads req) ↔
        (Source.publish fileSize hsize loads).Sound req := by
  have hpos := req.max_pos
  have hlt := req.max_lt
  have hmax : toInt32 req.max ≠ 0 := by
    unfold toInt32
    split <;> omega
  have hsize' : toSize (toInt32 req.max) % 65536 = req.max % 65536 := by
    unfold toInt32 toSize
    split <;> omega
  simp only [Source.reads, Source.AllRead, Source.Sound, publishReaderCallback]
  rw [if_neg hmax, hsize']
  cases loads with
  | false =>
    refine iff_of_false ?_ fun h => nomatch h.1
    rintro (⟨h, _⟩ | ⟨_, d, hd, _⟩)
    · exact h rfl
    · cases hd
  | true =>
    constructor
    · rintro (⟨h, _⟩ | ⟨_, d, hd, _, _, ⟨hblock, hd', _⟩ | ⟨hblock, _⟩⟩)
      · exact absurd rfl h
      · cases hd
        have hfits : req.max < 65536 := by
          have := Nat.mod_lt req.max (show 65536 > 0 by decide)
          rw [← hd']
          exact this
        have hpositions : blobSlice fileSize _ _ = req.positions :=
          List.map_injective_iff.mpr (fun _ _ he => Option.some.inj he) (Option.some.inj hblock)
        obtain ⟨hfit, hbounds⟩ := (bounds_iff hsize).mp (blobSlice_eq_iff.mp hpositions)
        exact ⟨rfl, hfits, hfit, hbounds.imp_left And.left⟩
      · cases hd
        cases hblock
    · rintro ⟨_, hfits, hfit, hbounds⟩
      have hpositions := blobSlice_eq_iff.mpr ((bounds_iff hsize).mpr
        ⟨hfit, hbounds.imp_left fun hlw => ⟨hlw, by omega⟩⟩)
      refine .inr ⟨rfl, _, rfl, rfl, rfl, .inl ⟨?_, Nat.mod_eq_of_lt hfits, rfl⟩⟩
      rw [hpositions]

/-- **When a reader keeps its contract.** -/
theorem readers_meet_iff (source : Source) (req : Request) :
    Meets req (source.AllRead req) (source.reads req) ↔ source.Sound req := by
  cases source with
  | file disk fi => exact dataReaderFile_meets_iff fi
  | download disk strerror fh => exact fhReader_meets_iff strerror fh
  | unindex disk fh => exact unindexReader_meets_iff fh
  | publish fileSize hsize loads => exact publishReader_meets_iff hsize loads

/-- A disk on which no file can be opened; those that are open can be read. -/
def plainDisk : Disk where
  fileOpen := fun _ => none
  fileSeek := fun fh offset =>
    if offset < 9223372036854775808 then ((offset : Int), { fh with position := offset })
    else (-1, fh)
  fileRead := fun fh max =>
    let n := min max (fh.size - fh.position)
    ((n : Int), (List.range n).map (fh.position + ·), { fh with position := fh.position + n })
  fileSeek_spec := by
    intro fh offset
    split
    · exact .inr ⟨‹_›, rfl⟩
    · exact .inl rfl
  fileRead_spec := by
    intro fh max
    exact .inr ⟨_, Nat.min_le_left _ _, fun _ => by omega, rfl⟩

/-- Five bytes are asked for, at the beginning of a file. -/
def fiveBytes : Request := ⟨0, 5, 9, 4, by decide, by decide, by decide, by decide⟩

/-- A file that cannot be opened, a file of three bytes, and a file reader that has an
error. -/
theorem readers_fail :
    ¬ Meets fiveBytes ((Source.file plainDisk ⟨"a", none⟩).AllRead fiveBytes)
        ((Source.file plainDisk ⟨"a", none⟩).reads fiveBytes) ∧
      ¬ Meets fiveBytes ((Source.download plainDisk "" ⟨3, 0, by decide⟩).AllRead fiveBytes)
        ((Source.download plainDisk "" ⟨3, 0, by decide⟩).reads fiveBytes) ∧
      ¬ Meets fiveBytes ((Source.publish 8 (by decide) false).AllRead fiveBytes)
        ((Source.publish 8 (by decide) false).reads fiveBytes) := by
  refine ⟨?_, ?_, ?_⟩
  · exact fun h => h
  · rintro (⟨h, _⟩ | ⟨_, d, hd, _, _, ⟨hblock, _⟩ | ⟨hblock, _⟩⟩)
    · exact h rfl
    · cases hd
      revert hblock
      decide
    · cases hd
      cases hblock
  · rintro (⟨h, _⟩ | ⟨_, d, hd, _⟩)
    · exact h rfl
    · cases hd

end GnunetWeb.FileSharing
