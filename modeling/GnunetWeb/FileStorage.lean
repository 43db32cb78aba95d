import GnunetWeb.Library.IndexedDB.Transaction
import GnunetWeb.Library.Patches

/-!
# File storage

`filestorage.cljs`: files are blobs in an object store, and a write puts a new blob in the
place of the old one.  Transactions run one at a time, in the order of the calls; sizes and
offsets are numbers below `2 ^ 53`, and a gap before a write is no longer than what a
`Uint8Array` can hold.

Proved here:

* `writtenBlob_eq`: a write is a patch, with zero bytes in the gap;
* `create_commits`, `write_commits`, `createObjectUrl_commits`: the transactions;
* `op_get`, `Performs.get`: what one call, and any number of calls, make of a file;
* `writes_perform`: writes to a file commit;
* `downloads_reassemble`: the file that is read afterwards.
-/

namespace GnunetWeb.FileStorage

open IndexedDB IndexedDB.Transaction

structure Blob where
  type : String
  bytes : List UInt8
  deriving DecidableEq

/-- What `new Blob` makes of the type that it is given. -/
def normalizeType (type : String) : String :=
  if type.toList.all fun c => ' ' ≤ c ∧ c ≤ '~' then String.ofList (type.toList.map Char.toLower)
  else ""

/-- `new Blob`, with the bytes of all parts -/
def newBlob (type : String) (bytes : List UInt8) : Blob := ⟨normalizeType type, bytes⟩

@[simp] theorem newBlob_bytes (type : String) (bytes : List UInt8) :
    (newBlob type bytes).bytes = bytes := rfl

/-- `blob.slice(start, end)`, without a type -/
def Blob.slice (blob : Blob) (start stop : Nat) : Blob :=
  ⟨"", (blob.bytes.take (min stop blob.bytes.length)).drop (min start blob.bytes.length)⟩

/-- What goes into the channel of a call, and `URL.createObjectURL`. -/
inductive Call where
  | handle (k : Nat)
  | objectUrl (blob : Blob)
  | close
  deriving DecidableEq

/-- `create` -/
def create (type : String) : Script Blob Call Unit :=
  .request (.add (newBlob type []))
    (fun
      | .key k => .call (.handle k) fun _ => .call .close fun _ => .done
      | _ => .done)
    (.call .close fun _ => .done)
    .done

/-- `delete` -/
def delete (handle : Nat) : Script Blob Call Unit :=
  .request (.delete handle) (fun _ => .done) .done .done

/-- The `new-blob` of `write`. -/
def writtenBlob (blob : Blob) (offset : Nat) (data : List UInt8) : Blob :=
  let header := blob.slice 0 offset
  let trailer := blob.slice (offset + data.length) blob.bytes.length
  let fill := offset - header.bytes.length
  newBlob blob.type (header.bytes ++ List.replicate fill 0 ++ data ++ trailer.bytes)

/-- `write`; without a file, `(.-type blob)` throws. -/
def write (handle offset : Nat) (data : List UInt8) : Script Blob Call Unit :=
  .request (.get handle)
    (fun
      | .value (some blob) =>
        .request (.put handle (writtenBlob blob offset data)) (fun _ => .done) .done .done
      | .value none => .abort .done
      | _ => .done)
    .done
    .done

/-- `create-object-url`; without a file, `URL.createObjectURL` throws in the go block, before
anything goes into the channel. -/
def createObjectUrl (handle : Nat) : Script Blob Call Unit :=
  .request (.get handle)
    (fun
      | .value (some blob) => .call (.objectUrl blob) fun _ => .call .close fun _ => .done
      | _ => .done)
    .done
    .done

/-- A call that changes the files. -/
inductive Op where
  | create (type : String)
  | delete (handle : Nat)
  | write (handle : Nat) (patch : Patch UInt8)

def Op.script : Op → Script Blob Call Unit
  | .create type => FileStorage.create type
  | .delete handle => FileStorage.delete handle
  | .write handle patch => FileStorage.write handle patch.offset patch.data

/-- The writes to a file. -/
def writesTo (handle : Nat) (ops : List Op) : List (Patch UInt8) :=
  ops.filterMap fun
    | .write h patch => if h = handle then some patch else none
    | _ => none

/-- The calls are made one after the other. -/
inductive Performs (answer : Call → Int) :
    ObjectStore Blob → List Op → ObjectStore Blob → Prop
  | nil (s : ObjectStore Blob) : Performs answer s [] s
  | snoc {s s' s'' : ObjectStore Blob} {ops : List Op} {op : Op} {os : List Call} :
      Performs answer s ops s' → Commits answer () s' op.script os s'' →
        Performs answer s (ops ++ [op]) s''

variable {answer : Call → Int}

/-! ## Types -/

/-- Lower case is printed as well, and is not changed again. -/
theorem toLower_printed {c : Char} (h : ' ' ≤ c ∧ c ≤ '~') :
    (' ' ≤ c.toLower ∧ c.toLower ≤ '~') ∧ c.toLower.toLower = c.toLower := by
  have hall : ∀ n < 127, ' ' ≤ Char.ofNat n →
      (' ' ≤ (Char.ofNat n).toLower ∧ (Char.ofNat n).toLower ≤ '~') ∧
        (Char.ofNat n).toLower.toLower = (Char.ofNat n).toLower := by decide
  have hc := hall c.toNat (Nat.lt_succ_of_le h.2)
  rw [Char.ofNat_toNat] at hc
  exact hc h.1

/-- The type of a blob is not changed when another blob is made with it. -/
theorem normalizeType_normalizeType (type : String) :
    normalizeType (normalizeType type) = normalizeType type := by
  by_cases hprinted : type.toList.all fun c => ' ' ≤ c ∧ c ≤ '~'
  · have hlower : ∀ c ∈ type.toList,
        (' ' ≤ c.toLower ∧ c.toLower ≤ '~') ∧ c.toLower.toLower = c.toLower := fun c hc =>
      toLower_printed (of_decide_eq_true (List.all_eq_true.mp hprinted c hc))
    have hagain : (type.toList.map Char.toLower).all fun c => ' ' ≤ c ∧ c ≤ '~' := by
      rw [List.all_map, List.all_eq_true]
      exact fun c hc => decide_eq_true (hlower c hc).1
    have hlowered : normalizeType type = String.ofList (type.toList.map Char.toLower) :=
      if_pos hprinted
    rw [hlowered, normalizeType, String.toList_ofList, if_pos hagain, List.map_map]
    exact congrArg String.ofList (List.map_congr_left fun c hc => (hlower c hc).2)
  · have hempty : normalizeType type = "" := if_neg hprinted
    rw [hempty]
    decide

/-! ## One write -/

/-- **A write is a patch.** -/
theorem writtenBlob_eq (blob : Blob) (p : Patch UInt8) :
    writtenBlob blob p.offset p.data = newBlob blob.type (Patch.apply 0 blob.bytes p) := by
  have hheader : blob.bytes.take (min p.offset blob.bytes.length) = blob.bytes.take p.offset := by
    rw [← List.take_eq_take_min]
  have htrailer : blob.bytes.drop (min (p.offset + p.data.length) blob.bytes.length) =
      blob.bytes.drop p.stop := by
    rw [Patch.stop]
    rcases Nat.le_total (p.offset + p.data.length) blob.bytes.length with hle | hle
    · rw [Nat.min_eq_left hle]
    · rw [Nat.min_eq_right hle, List.drop_length, List.drop_eq_nil_of_le hle]
  have hfill : p.offset - (blob.bytes.take p.offset).length = p.offset - blob.bytes.length := by
    rw [List.length_take]
    omega
  simp only [writtenBlob, Blob.slice, Patch.apply, Nat.min_self, Nat.zero_min, List.drop_zero,
    List.take_length, hheader, htrailer, hfill]

theorem create_commits {s : ObjectStore Blob} (hs : s.generator ≤ maxGenerated) (type : String) :
    Commits answer () s (create type) [.handle s.generator, .close]
      (s.add (newBlob type [])) := by
  have hadd : (Request.add (newBlob type [])).perform s =
      some (s.add (newBlob type []), .key s.generator) := by
    rw [Request.perform, if_pos hs]
  exact .request hadd rfl (.call (.call (.done _ _)))

theorem delete_commits (s : ObjectStore Blob) (handle : Nat) :
    Commits answer () s (delete handle) [] (s.delete handle) :=
  .request rfl rfl (.done _ _)

theorem write_commits {s : ObjectStore Blob} {handle : Nat} {blob : Blob}
    (hs : s.get handle = some blob) (offset : Nat) (data : List UInt8) :
    Commits answer () s (write handle offset data) []
      (s.put handle (writtenBlob blob offset data)) := by
  have hget : (Request.get handle).perform s = some (s, .value (some blob)) := by
    rw [Request.perform, hs]
  exact .request hget rfl (.request rfl rfl (.done _ _))

theorem createObjectUrl_commits {s : ObjectStore Blob} {handle : Nat} {blob : Blob}
    (hs : s.get handle = some blob) :
    Commits answer () s (createObjectUrl handle) [.objectUrl blob, .close] s := by
  have hget : (Request.get handle).perform s = some (s, .value (some blob)) := by
    rw [Request.perform, hs]
  exact .request hget rfl (.call (.call (.done _ _)))

/-! ## Any number of calls -/

/-- **What a call makes of a file.** -/
theorem op_get {s s' : ObjectStore Blob} {k : Nat} {blob : Blob} {op : Op} {os : List Call}
    (hs : s.get k = some blob) (htype : normalizeType blob.type = blob.type)
    (hop : op ≠ .delete k) (h : Commits answer () s op.script os s') :
    s'.get k = some ⟨blob.type, (writesTo k [op]).foldl (Patch.apply 0) blob.bytes⟩ := by
  cases op with
  | create type =>
    obtain ⟨t, result, hadd, -⟩ := h.request_inv
    have hg : s.generator ≤ maxGenerated := by
      by_contra hg
      rw [Request.perform, if_neg hg] at hadd
      cases hadd
    obtain ⟨-, rfl⟩ := h.unique (create_commits hg type)
    exact ObjectStore.get_add_of_some hs _
  | delete handle =>
    obtain ⟨-, rfl⟩ := h.unique (delete_commits s handle)
    exact ObjectStore.get_delete_of_some hs fun he => hop (he ▸ rfl)
  | write handle p =>
    obtain ⟨t, result, hget, hnext⟩ := h.request_inv
    obtain ⟨rfl, rfl⟩ := Prod.mk.inj (Option.some.inj hget)
    cases hw : s.get handle with
    | none =>
      rw [hw] at hnext
      exact absurd (hnext rfl) Commits.not_abort
    | some written =>
      obtain ⟨-, rfl⟩ := h.unique (write_commits hw p.offset p.data)
      by_cases hk : handle = k
      · subst hk
        obtain rfl := Option.some.inj (hs.symm.trans hw)
        have hwrites : writesTo handle [.write handle p] = [p] := by simp [writesTo]
        rw [hwrites, List.foldl_cons, List.foldl_nil, ObjectStore.get_put, writtenBlob_eq, newBlob,
          htype]
      · have hwrites : writesTo k [.write handle p] = [] := by simp [writesTo, hk]
        rw [hwrites, ObjectStore.get_put_of_some hs (Ne.symm hk)]
        rfl

theorem writesTo_append (k : Nat) (ops ops' : List Op) :
    writesTo k (ops ++ ops') = writesTo k ops ++ writesTo k ops' :=
  List.filterMap_append

theorem writesTo_write (k : Nat) (ws : List (Patch UInt8)) :
    writesTo k (ws.map (.write k)) = ws := by
  rw [writesTo, List.filterMap_map]
  have hsome : (fun patch : Patch UInt8 => if k = k then some patch else none) = some := by
    simp
  exact (congrArg (List.filterMap · ws) hsome).trans List.filterMap_some

/-- **What any number of calls makes of a file.** -/
theorem Performs.get {s s' : ObjectStore Blob} {k : Nat} {type : String} {ops : List Op}
    (h : Performs answer s ops s') (hs : s.get k = some (newBlob type []))
    (hops : .delete k ∉ ops) :
    s'.get k = some (newBlob type (Patch.applyAll 0 (writesTo k ops))) := by
  induction h with
  | nil => exact hs
  | @snoc _ _ ops op _ _ hc ih =>
    rw [List.mem_append, List.mem_singleton, not_or] at hops
    have hfile := ih hops.1
    have htype : normalizeType (newBlob type (Patch.applyAll 0 (writesTo k ops))).type =
        (newBlob type (Patch.applyAll 0 (writesTo k ops))).type := normalizeType_normalizeType type
    have hop := op_get hfile htype (Ne.symm hops.2) hc
    rw [writesTo_append, Patch.applyAll, List.foldl_append]
    exact hop

/-- Writes to a file that is there commit. -/
theorem writes_perform {s : ObjectStore Blob} {k : Nat} {type : String}
    (hs : s.get k = some (newBlob type [])) (ws : List (Patch UInt8)) :
    ∃ s', Performs answer s (ws.map (.write k)) s' := by
  induction ws using List.reverseRecOn with
  | nil => exact ⟨s, .nil s⟩
  | append_singleton ws p ih =>
    obtain ⟨s', h⟩ := ih
    have hdelete : Op.delete k ∉ ws.map (.write k) := by simp
    have hget := h.get hs hdelete
    rw [List.map_append]
    exact ⟨_, h.snoc (write_commits hget p.offset p.data)⟩

/-- **Downloads reassemble in any order.**  A file is created, and then any calls are made
that do not delete it.  What `create-object-url` reads afterwards is as long as the write
that reaches farthest, at each place it is what the last write has there, or else zero; and
it is the file that the writes agree with and cover. -/
theorem downloads_reassemble {s : ObjectStore Blob} (hs : s.generator ≤ maxGenerated)
    (type : String) : ∃ k s₁,
      Commits answer () s (create type) [.handle k, .close] s₁ ∧
      (∀ ws : List (Patch UInt8), ∃ s₂, Performs answer s₁ (ws.map (.write k)) s₂) ∧
      ∀ (ops : List Op) (s₂ : ObjectStore Blob), Performs answer s₁ ops s₂ → .delete k ∉ ops →
        ∃ blob : Blob,
          (∀ os s₃, Commits answer () s₂ (createObjectUrl k) os s₃ ↔
            os = [.objectUrl blob, .close] ∧ s₃ = s₂) ∧
          blob.type = normalizeType type ∧
          blob.bytes.length = Patch.extent (writesTo k ops) ∧
          (∀ i < blob.bytes.length,
            blob.bytes[i]? = some ((Patch.last (writesTo k ops) i).getD 0)) ∧
          ∀ F : List UInt8,
            (∀ p ∈ writesTo k ops,
              p.stop ≤ F.length ∧ p.data = (F.drop p.offset).take p.data.length) →
            (∀ i < F.length, ∃ p ∈ writesTo k ops, p.Covers i) →
              blob.bytes = F := by
  have hget : (s.add (newBlob type [])).get s.generator = some (newBlob type []) := s.get_add _
  refine ⟨s.generator, _, create_commits hs type, writes_perform hget, fun ops s₂ h hops => ?_⟩
  have hblob := h.get hget hops
  have hread := @createObjectUrl_commits answer _ _ _ hblob
  refine ⟨_, fun os s₃ => ⟨fun hc => hc.unique hread, ?_⟩, rfl, Patch.length_applyAll 0 _, ?_, ?_⟩
  · rintro ⟨rfl, rfl⟩
    exact hread
  · intro i hi
    rw [newBlob_bytes, Patch.length_applyAll] at hi
    exact Patch.getElem?_applyAll 0 _ hi
  · intro F hagree hcover
    exact Patch.applyAll_eq 0 hagree hcover

/-- The second block of a file comes before the first. -/
theorem downloads_reassemble_two_blocks : ∃ k s₁ s₂,
    Commits (fun _ => 0) () .empty (create "Text/Plain") [.handle k, .close] s₁ ∧
      Performs (fun _ => 0) s₁ [.write k ⟨2, [3, 4]⟩, .write k ⟨0, [1, 2]⟩] s₂ ∧
      Commits (fun _ => 0) () s₂ (createObjectUrl k)
        [.objectUrl ⟨"text/plain", [1, 2, 3, 4]⟩, .close] s₂ := by
  obtain ⟨k, s₁, hcreate, hwrites, hread⟩ := @downloads_reassemble (fun _ => 0) .empty
    (by decide) "Text/Plain"
  obtain ⟨s₂, hs₂⟩ := hwrites [⟨2, [3, 4]⟩, ⟨0, [1, 2]⟩]
  obtain ⟨⟨type, bytes⟩, hurl, htype, -, -, hfile⟩ := hread _ s₂ hs₂ (by simp)
  rw [writesTo_write] at hfile
  obtain rfl : type = "text/plain" := htype.trans (by decide)
  obtain rfl := hfile [1, 2, 3, 4] (by decide) (by decide)
  exact ⟨k, s₁, s₂, hcreate, hs₂, (hurl _ _).mpr ⟨rfl, rfl⟩⟩

end GnunetWeb.FileStorage
