import GnunetWeb.Parser
import Mathlib.Data.Nat.Digits.Defs

/-!
# Network encodings

`encoder.cljs`.  ClojureScript's bit operations convert their operand to a signed
32-bit integer first.  `encodeUint8_eq` says what is left of that after the mask,
and `parseUint16_encode`, `parseUint32_encode`, `parseUint64_encode` that the
parsers read the encodings back.  `FixedWidth` collects what encoder and parser
owe each other, and `integer_codecs_exact` that the integer codecs keep it.
-/

namespace GnunetWeb

open StateMaybe

/-! ## ClojureScript's bit operations -/

def bitAnd (a b : Int) : Int := (BitVec.ofInt 32 a &&& BitVec.ofInt 32 b).toInt

def bitShiftRight (x : Int) (n : Nat) : Int := ((BitVec.ofInt 32 x).sshiftRight n).toInt

/-! ## Encoders -/

def encodeUint8 (x : Int) : Uint8Array := [UInt8.ofNat (bitAnd 0xff x).toNat]

def encodeUint16 (x : Int) : Uint8Array :=
  encodeUint8 (bitShiftRight x 8) ++ encodeUint8 x

def encodeUint32 (x : Int) : Uint8Array :=
  encodeUint16 (bitShiftRight x 16) ++ encodeUint16 x

def encodeUint64 (x : Int × Int) : Uint8Array :=
  encodeUint32 x.1 ++ encodeUint32 x.2

def encodeUtf8 {Str : Type} (gcrypt : Gcrypt Str) (x : Str) : Uint8Array :=
  gcrypt.stringToUtf8ByteArray x ++ [0]

def encodeAbsoluteTime (x : Int × Int) : Uint8Array := encodeUint64 x

/-! ## The digits -/

/-- The low byte of an integer. -/
def byteOf (x : Int) : UInt8 := UInt8.ofNat (x % 256).toNat

theorem bitAnd_ff (x : Int) : bitAnd 0xff x = x % 256 := by
  have hn : (BitVec.ofInt 32 0xff &&& BitVec.ofInt 32 x).toNat =
      (BitVec.ofInt 32 x).toNat % 256 := by
    rw [BitVec.toNat_and, Nat.and_comm]
    exact Nat.and_two_pow_sub_one_eq_mod _ 8
  rw [bitAnd, BitVec.toInt_eq_toNat_of_lt (by rw [hn]; omega), hn]
  simp only [BitVec.toNat_ofInt]
  omega

theorem bitShiftRight_eq (x : Int) (n : Nat) :
    bitShiftRight x n = (x.bmod (2 ^ 32)) / 2 ^ n := by
  rw [bitShiftRight, BitVec.toInt_sshiftRight, BitVec.toInt_ofInt, Int.shiftRight_eq_div_pow,
    Int.natCast_pow]
  rfl

/-- Converting to a signed 32-bit integer moves by a multiple of `2 ^ 32`. -/
theorem bmod_pow_32 (x : Int) : ∃ k : Int, x.bmod (2 ^ 32) = x + 4294967296 * k := by
  obtain ⟨k, hk⟩ := Int.dvd_bmod_sub_self (x := x) (m := 2 ^ 32)
  rw [show ((2 ^ 32 : Nat) : Int) = 4294967296 from rfl] at hk
  exact ⟨k, by omega⟩

theorem encodeUint8_eq (x : Int) : encodeUint8 x = [byteOf x] := by
  rw [encodeUint8, bitAnd_ff, byteOf]

/-- The two bytes are the base-256 digits of `x` modulo `2 ^ 16`. -/
theorem encodeUint16_eq (x : Int) : encodeUint16 x = [byteOf (x / 256), byteOf x] := by
  obtain ⟨k, hk⟩ := bmod_pow_32 x
  have h : x.bmod (2 ^ 32) / 2 ^ 8 % 256 = x / 256 % 256 := by rw [hk]; omega
  simp only [encodeUint16, encodeUint8_eq, bitShiftRight_eq, byteOf, h]
  rfl

/-- The four bytes are the base-256 digits of `x` modulo `2 ^ 32`. -/
theorem encodeUint32_eq (x : Int) :
    encodeUint32 x = [byteOf (x / 2 ^ 24), byteOf (x / 2 ^ 16), byteOf (x / 256), byteOf x] := by
  obtain ⟨k, hk⟩ := bmod_pow_32 x
  have h₁ : x.bmod (2 ^ 32) / 2 ^ 16 / 256 % 256 = x / 2 ^ 24 % 256 := by rw [hk]; omega
  have h₂ : x.bmod (2 ^ 32) / 2 ^ 16 % 256 = x / 2 ^ 16 % 256 := by rw [hk]; omega
  simp only [encodeUint32, encodeUint16_eq, bitShiftRight_eq, byteOf, List.cons_append,
    List.nil_append, h₁, h₂]

theorem byteOf_toNat (x : Int) : ((byteOf x).toNat : Int) = x % 256 := by
  have hp := Int.emod_nonneg x (b := 256) (by decide)
  have hl := Int.emod_lt_of_pos x (b := 256) (by decide)
  rw [byteOf, UInt8.toNat_ofNat']
  omega

theorem encodeUint16_length (x : Int) : (encodeUint16 x).length = 2 := by
  rw [encodeUint16_eq]
  rfl

theorem encodeUint32_length (x : Int) : (encodeUint32 x).length = 4 := by
  rw [encodeUint32_eq]
  rfl

theorem encodeUint64_length (x : Int × Int) : (encodeUint64 x).length = 8 := by
  simp [encodeUint64, encodeUint32_length]

/-! ## Reading them back -/

theorem parseUint16_encode {n : Nat} (hn : n < 65536) (r : Uint8Array) :
    parseUint16 (encodeUint16 n ++ r) = .just n r := by
  rw [encodeUint16_eq]
  refine parseUint16_eq_just.mpr ⟨_, _, rfl, ?_⟩
  have h₁ := byteOf_toNat (n / 256)
  have h₂ := byteOf_toNat n
  omega

theorem parseUint32_encode {n : Nat} (hn : n < 2 ^ 32) (r : Uint8Array) :
    parseUint32 (encodeUint32 n ++ r) = .just n r := by
  rw [encodeUint32_eq]
  refine parseUint32_eq_just.mpr ⟨_, _, _, _, rfl, ?_⟩
  have h₁ := byteOf_toNat (n / 2 ^ 24)
  have h₂ := byteOf_toNat (n / 2 ^ 16)
  have h₃ := byteOf_toNat (n / 256)
  have h₄ := byteOf_toNat n
  omega

theorem parseUint64_encode {msw lsw : Nat} (hm : msw < 2 ^ 32) (hl : lsw < 2 ^ 32)
    (r : Uint8Array) :
    parseUint64 (encodeUint64 (msw, lsw) ++ r) = .just (msw, lsw) r := by
  refine parseUint64_eq_just.mpr ⟨encodeUint32 lsw ++ r, ?_, parseUint32_encode hl r⟩
  rw [encodeUint64, List.append_assoc]
  exact parseUint32_encode hm _

/-- The digits of a number made of bytes are these bytes. -/
theorem byteOf_eq {x : Int} {b : UInt8} (h : x % 256 = b.toNat) : byteOf x = b := by
  have hb := byteOf_toNat x
  exact UInt8.toNat_inj.mp (by omega)

theorem parseUint16_iff {s t : Uint8Array} {v : Nat} :
    parseUint16 s = .just v t ↔ v < 65536 ∧ s = encodeUint16 v ++ t := by
  constructor
  · intro h
    refine ⟨parseUint16_lt h, ?_⟩
    obtain ⟨a, b, rfl, rfl⟩ := parseUint16_eq_just.mp h
    have := a.toNat_lt
    have := b.toNat_lt
    rw [encodeUint16_eq, byteOf_eq (b := a) (by omega), byteOf_eq (b := b) (by omega)]
    rfl
  · rintro ⟨hv, rfl⟩
    exact parseUint16_encode hv t

theorem parseUint32_iff {s t : Uint8Array} {v : Nat} :
    parseUint32 s = .just v t ↔ v < 2 ^ 32 ∧ s = encodeUint32 v ++ t := by
  constructor
  · intro h
    refine ⟨parseUint32_lt h, ?_⟩
    obtain ⟨a, b, c, d, rfl, rfl⟩ := parseUint32_eq_just.mp h
    have := a.toNat_lt
    have := b.toNat_lt
    have := c.toNat_lt
    have := d.toNat_lt
    rw [encodeUint32_eq, byteOf_eq (b := a) (by omega), byteOf_eq (b := b) (by omega),
      byteOf_eq (b := c) (by omega), byteOf_eq (b := d) (by omega)]
    rfl
  · rintro ⟨hv, rfl⟩
    exact parseUint32_encode hv t

theorem parseUint64_iff {s t : Uint8Array} {v : Nat × Nat} :
    parseUint64 s = .just v t ↔
      v.1 < 2 ^ 32 ∧ v.2 < 2 ^ 32 ∧ s = encodeUint64 (v.1, v.2) ++ t := by
  rw [parseUint64_eq_just]
  constructor
  · rintro ⟨u, h₁, h₂⟩
    obtain ⟨hm, rfl⟩ := parseUint32_iff.mp h₁
    obtain ⟨hl, rfl⟩ := parseUint32_iff.mp h₂
    exact ⟨hm, hl, by simp [encodeUint64]⟩
  · rintro ⟨hm, hl, rfl⟩
    exact parseUint64_eq_just.mp (parseUint64_encode hm hl t)

/-- A string parser reads back an encoded string whose bytes are all non-zero. -/
theorem parseUtf8_encode {Str : Type} (gcrypt : Gcrypt Str) {s : Str} {fuel : Nat}
    {r : Uint8Array} (hs : 0 ∉ gcrypt.stringToUtf8ByteArray s)
    (hf : (encodeUtf8 gcrypt s ++ r).length + 2 ≤ fuel) :
    parseUtf8 gcrypt fuel (encodeUtf8 gcrypt s ++ r) =
      .just (gcrypt.utf8ByteArrayToString (gcrypt.stringToUtf8ByteArray s)) r :=
  (parseUtf8_eq_just gcrypt hf).mpr ⟨_, hs, by simp [encodeUtf8], rfl⟩

/-! ## Codecs of a fixed width -/

/-- The number that bytes in network byte order stand for. -/
def networkValue (bs : Uint8Array) : Nat := Nat.ofDigits 256 (bs.reverse.map UInt8.toNat)

theorem encodeUint16_mod (x : Int) : encodeUint16 (x % 2 ^ 16) = encodeUint16 x := by
  have h₁ : x % 2 ^ 16 / 256 % 256 = x / 256 % 256 := by omega
  have h₂ : x % 2 ^ 16 % 256 = x % 256 := by omega
  simp only [encodeUint16_eq, byteOf, h₁, h₂]

theorem encodeUint32_mod (x : Int) : encodeUint32 (x % 2 ^ 32) = encodeUint32 x := by
  have h₁ : x % 2 ^ 32 / 2 ^ 24 % 256 = x / 2 ^ 24 % 256 := by omega
  have h₂ : x % 2 ^ 32 / 2 ^ 16 % 256 = x / 2 ^ 16 % 256 := by omega
  have h₃ : x % 2 ^ 32 / 256 % 256 = x / 256 % 256 := by omega
  have h₄ : x % 2 ^ 32 % 256 = x % 256 := by omega
  simp only [encodeUint32_eq, byteOf, h₁, h₂, h₃, h₄]

theorem networkValue_encodeUint16 (x : Int) :
    (networkValue (encodeUint16 x) : Int) = x % 2 ^ 16 := by
  have h₁ := byteOf_toNat (x / 256)
  have h₂ := byteOf_toNat x
  rw [encodeUint16_eq]
  simp only [networkValue, List.reverse_cons, List.reverse_nil, List.nil_append,
    List.cons_append, List.map_cons, List.map_nil, Nat.ofDigits_cons, Nat.ofDigits_nil]
  omega

theorem networkValue_encodeUint32 (x : Int) :
    (networkValue (encodeUint32 x) : Int) = x % 2 ^ 32 := by
  have h₁ := byteOf_toNat (x / 2 ^ 24)
  have h₂ := byteOf_toNat (x / 2 ^ 16)
  have h₃ := byteOf_toNat (x / 256)
  have h₄ := byteOf_toNat x
  rw [encodeUint32_eq]
  simp only [networkValue, List.reverse_cons, List.reverse_nil, List.nil_append,
    List.cons_append, List.map_cons, List.map_nil, Nat.ofDigits_cons, Nat.ofDigits_nil]
  omega

/-- A codec of a fixed width: an encoding is read back in front of any bytes, an
input that is long enough starts with the encoding of what is read from it, and a
shorter one is refused. -/
structure FixedWidth {α β : Type} (width : Nat) (encode : α → Uint8Array) (parse : Parser β)
    (value : α → β) (number : β → α) : Prop where
  length : ∀ x, (encode x).length = width
  parse_encode : ∀ x r, parse (encode x ++ r) = .just (value x) r
  encode_parse : ∀ s : Uint8Array, width ≤ s.length →
    ∃ v, parse s = .just v (s.drop width) ∧ encode (number v) = s.take width
  short : ∀ s : Uint8Array, s.length < width → parse s = .nothing

/-- What has to be shown of a codec: the parser succeeds on what is long enough, and
what it reads is the encoding of its value. -/
theorem FixedWidth.of_reads {α β : Type} {width : Nat} {encode : α → Uint8Array}
    {parse : Parser β} {value : α → β} {number : β → α}
    (hlen : ∀ x, (encode x).length = width)
    (hparse : ∀ x r, parse (encode x ++ r) = .just (value x) r)
    (hsome : ∀ s : Uint8Array, width ≤ s.length → ∃ v t, parse s = .just v t)
    (hreads : ∀ s v t, parse s = .just v t → s = encode (number v) ++ t)
    (hfuel : ∀ n, Fueled n parse) : FixedWidth width encode parse value number where
  length := hlen
  parse_encode := hparse
  encode_parse := by
    intro s hs
    obtain ⟨v, t, h⟩ := hsome s hs
    have he := hreads s v t h
    refine ⟨v, ?_, ?_⟩
    · rw [h, he, List.drop_left' (hlen _)]
    · rw [he, List.take_left' (hlen _)]
  short := by
    intro s hs
    cases h : parse s with
    | nothing => rfl
    | just v t =>
      have he := congrArg List.length (hreads s v t h)
      rw [List.length_append, hlen] at he
      omega
    | running => exact absurd h (hfuel _ s (Nat.le_refl _))

theorem fixedWidth_uint16 :
    FixedWidth 2 encodeUint16 parseUint16 (fun x => (x % 2 ^ 16).toNat) Nat.cast := by
  refine .of_reads encodeUint16_length ?_ ?_ (fun _ _ _ h => (parseUint16_iff.mp h).2)
    fueled_parseUint16
  · intro x r
    have h := parseUint16_encode (n := (x % 2 ^ 16).toNat) (by omega) r
    rwa [Int.toNat_of_nonneg (by omega), encodeUint16_mod] at h
  · intro s hs
    match s, hs with
    | a :: b :: t, _ => exact ⟨_, t, parseUint16_eq_just.mpr ⟨a, b, rfl, rfl⟩⟩

theorem fixedWidth_uint32 :
    FixedWidth 4 encodeUint32 parseUint32 (fun x => (x % 2 ^ 32).toNat) Nat.cast := by
  refine .of_reads encodeUint32_length ?_ ?_ (fun _ _ _ h => (parseUint32_iff.mp h).2)
    fueled_parseUint32
  · intro x r
    have h := parseUint32_encode (n := (x % 2 ^ 32).toNat) (by omega) r
    rwa [Int.toNat_of_nonneg (by omega), encodeUint32_mod] at h
  · intro s hs
    match s, hs with
    | a :: b :: c :: d :: t, _ =>
      exact ⟨_, t, parseUint32_eq_just.mpr ⟨a, b, c, d, rfl, rfl⟩⟩

/-- A 64-bit codec is the 32-bit codec twice. -/
theorem fixedWidth_uint64 :
    FixedWidth 8 encodeUint64 parseUint64
      (fun x => ((x.1 % 2 ^ 32).toNat, (x.2 % 2 ^ 32).toNat))
      (fun v => ((v.1 : Int), (v.2 : Int))) := by
  refine .of_reads encodeUint64_length ?_ ?_ (fun _ _ _ h => (parseUint64_iff.mp h).2.2)
    fueled_parseUint64
  · intro x r
    refine parseUint64_eq_just.mpr ⟨encodeUint32 x.2 ++ r, ?_, ?_⟩
    · rw [encodeUint64, List.append_assoc]
      exact fixedWidth_uint32.parse_encode x.1 _
    · exact fixedWidth_uint32.parse_encode x.2 r
  · intro s hs
    obtain ⟨msw, hm, -⟩ := fixedWidth_uint32.encode_parse s (by omega)
    obtain ⟨lsw, hl, -⟩ := fixedWidth_uint32.encode_parse (s.drop 4)
      (by rw [List.length_drop]; omega)
    exact ⟨(msw, lsw), _, parseUint64_eq_just.mpr ⟨_, hm, hl⟩⟩

/-- **The integer codecs are exact.**  Every byte is the number that the bit
operations compute, the bytes are the digits of the integer modulo the width, and
each parser is the inverse of its encoder. -/
theorem integer_codecs_exact :
    (∀ x : Int, ∃ b : UInt8, encodeUint8 x = [b] ∧ (b.toNat : Int) = bitAnd 0xff x) ∧
    (∀ x : Int, (networkValue (encodeUint16 x) : Int) = x % 2 ^ 16 ∧
      (networkValue (encodeUint32 x) : Int) = x % 2 ^ 32) ∧
    FixedWidth 2 encodeUint16 parseUint16 (fun x => (x % 2 ^ 16).toNat) Nat.cast ∧
    FixedWidth 4 encodeUint32 parseUint32 (fun x => (x % 2 ^ 32).toNat) Nat.cast ∧
    FixedWidth 8 encodeUint64 parseUint64
      (fun x => ((x.1 % 2 ^ 32).toNat, (x.2 % 2 ^ 32).toNat))
      (fun v => ((v.1 : Int), (v.2 : Int))) := by
  refine ⟨fun x => ⟨byteOf x, encodeUint8_eq x, ?_⟩,
    fun x => ⟨networkValue_encodeUint16 x, networkValue_encodeUint32 x⟩,
    fixedWidth_uint16, fixedWidth_uint32, fixedWidth_uint64⟩
  rw [byteOf_toNat, bitAnd_ff]

end GnunetWeb
