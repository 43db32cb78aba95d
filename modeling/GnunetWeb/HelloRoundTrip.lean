import GnunetWeb.Hello

/-!
# HELLO encoding and parsing

A HELLO value is encoded record by record and parsed back.  What stands in the way
is the vector of an encoded address: it comes out of the array constructor, which
takes a single number for a length (`vecApplyArray`).

Proved here:

* `parse_encodeHello`: what the encoding of a value parses to;
* `mem_flatten_map`, `flatten_covers`: the records of the map of a list are
  elements of the list, one for each transport and address;
* `length_encode_le`: encoding a parsed HELLO again does not make it longer;
* `hello_round_trip`: which values, and which messages, come back.
-/

namespace GnunetWeb

open StateMaybe

/-! ## UTF-8 -/

def ValidUtf8 (bs : Uint8Array) : Prop := (ByteArray.mk bs.toArray).IsValidUTF8

instance (bs : Uint8Array) : Decidable (ValidUtf8 bs) :=
  inferInstanceAs (Decidable (ByteArray.IsValidUTF8 _))

/-- The conversions are inverse on text without NUL. -/
structure Gcrypt.Inverse {Str : Type} (gcrypt : Gcrypt Str) : Prop where
  decode_encode : ∀ s, 0 ∉ gcrypt.stringToUtf8ByteArray s →
    gcrypt.utf8ByteArrayToString (gcrypt.stringToUtf8ByteArray s) = s
  encode_decode : ∀ bs, 0 ∉ bs → ValidUtf8 bs →
    gcrypt.stringToUtf8ByteArray (gcrypt.utf8ByteArrayToString bs) = bs

/-- The conversions of Lean's own strings. -/
def utf8Gcrypt : Gcrypt String where
  stringToUtf8ByteArray s := s.toByteArray.data.toList
  utf8ByteArrayToString bs := if h : ValidUtf8 bs then String.ofByteArray ⟨bs.toArray⟩ h else ""

theorem utf8Gcrypt_inverse : utf8Gcrypt.Inverse where
  decode_encode s _ := by
    have hv : ValidUtf8 s.toByteArray.data.toList := by simpa [ValidUtf8] using s.isValidUTF8
    simp [utf8Gcrypt, hv]
  encode_decode bs _ hv := by simp [utf8Gcrypt, hv]

/-! ## Flattened maps -/

section Flatten

variable {Str : Type} [DecidableEq Str] [Inhabited Str]

/-- Every leaf is a vector with one expiration, and no inner map is empty. -/
abbrev Singletons (m : TransportAddresses Str) : Prop :=
  NestedMap.Canonical (fun vs => ∃ v, vs = [v]) m

theorem mem_flatten {m : TransportAddresses Str} {a : TransportAddress Str} :
    a ∈ flattenTransportAddresses m ↔
      ∃ e ∈ m.entries, ∃ i ∈ e.2.entries, ∃ v ∈ i.2, a = ⟨e.1, v, i.1⟩ := by
  simp [flattenTransportAddresses, flattenNestedMaps, levelKeys, keyTransport,
    keyEncodedAddress, keyExpiration, eq_comm]

omit [DecidableEq Str] [Inhabited Str] in
theorem singletons_iff {m : TransportAddresses Str} :
    Singletons m ↔ ∀ e ∈ m.entries, e.2.entries ≠ [] ∧ ∀ i ∈ e.2.entries, ∃ v, i.2 = [v] := by
  constructor
  · intro h e he
    exact ⟨(h e he).1, fun i hi => ((h e he).2 i hi).2⟩
  · intro h e he
    refine ⟨(h e he).1, fun i hi => ⟨?_, (h e he).2 i hi⟩⟩
    obtain ⟨v, hv⟩ := (h e he).2 i hi
    simp [hv]

/-- The records of the same map are the same. -/
theorem mem_flatten_same {m n : TransportAddresses Str} (h : NestedMap.Same m n)
    {a : TransportAddress Str} (ha : a ∈ flattenTransportAddresses m) :
    a ∈ flattenTransportAddresses n := by
  obtain ⟨e, he, i, hi, v, hv, rfl⟩ := mem_flatten.mp ha
  obtain ⟨e', he', hk, hs⟩ := h.1 e he
  obtain ⟨i', hi', hk', hs'⟩ := hs.1 i hi
  have hv' : i.2 = i'.2 := hs'
  exact mem_flatten.mpr ⟨e', he', i', hi', v, hv' ▸ hv, by rw [hk, hk']⟩

omit [DecidableEq Str] [Inhabited Str] in
theorem singletons_same {m n : TransportAddresses Str} (h : NestedMap.Same m n)
    (hm : Singletons m) : Singletons n := by
  rw [singletons_iff] at hm ⊢
  intro e' he'
  obtain ⟨e, he, _, hs⟩ := h.2 e' he'
  obtain ⟨hne, hall⟩ := hm e he
  constructor
  · obtain ⟨i, hi⟩ := List.exists_mem_of_ne_nil _ hne
    obtain ⟨i', hi', _⟩ := hs.1 i hi
    exact List.ne_nil_of_mem hi'
  · intro i' hi'
    obtain ⟨i, hi, _, hv⟩ := hs.2 i' hi'
    have hv' : i.2 = i'.2 := hv
    exact hv' ▸ hall i hi

/-- Two records of a map differ in the transport or in the address. -/
theorem nodup_flatten {m : TransportAddresses Str} (hm : Singletons m) :
    ((flattenTransportAddresses m).map fun a => (a.transport, a.encodedAddress)).Nodup := by
  have hkeys : (flattenTransportAddresses m).map (fun a => (a.transport, a.encodedAddress)) =
      m.entries.flatMap fun e => e.2.entries.flatMap fun i => i.2.map fun _ => (e.1, i.1) := by
    simp [flattenTransportAddresses, flattenNestedMaps, levelKeys, keyTransport,
      keyEncodedAddress, keyExpiration, List.map_flatMap, Function.comp_def]
  rw [hkeys, List.nodup_flatMap]
  rw [singletons_iff] at hm
  refine ⟨fun e he => ?_, ?_⟩
  · rw [List.nodup_flatMap]
    refine ⟨fun i hi => ?_, ?_⟩
    · obtain ⟨v, hv⟩ := (hm e he).2 i hi
      simp [hv]
    · refine (List.pairwise_map.mp e.2.nodup).imp fun hne x hx hy => ?_
      obtain ⟨_, _, rfl⟩ := List.mem_map.mp hx
      obtain ⟨_, _, heq⟩ := List.mem_map.mp hy
      exact hne (Prod.mk.inj heq).2.symm
  · refine (List.pairwise_map.mp m.nodup).imp fun hne x hx hy => ?_
    obtain ⟨_, _, hx⟩ := List.mem_flatMap.mp hx
    obtain ⟨_, _, rfl⟩ := List.mem_map.mp hx
    obtain ⟨_, _, hy⟩ := List.mem_flatMap.mp hy
    obtain ⟨_, _, heq⟩ := List.mem_map.mp hy
    exact hne (Prod.mk.inj heq).1.symm

omit [Inhabited Str] in
theorem singletons_map (l : List (TransportAddress Str)) :
    Singletons (transportAddressesMap l) := by
  rw [singletons_iff]
  intro e he
  obtain ⟨hne, hall⟩ := mem_transportAddressesMap he
  refine ⟨hne, fun i hi => ?_⟩
  obtain ⟨a, _, _, _, hi⟩ := hall i hi
  exact ⟨a.expiration, hi⟩

/-- The records of the map of a list are elements of the list. -/
theorem mem_flatten_map {l : List (TransportAddress Str)} {a : TransportAddress Str}
    (ha : a ∈ flattenTransportAddresses (transportAddressesMap l)) : a ∈ l := by
  obtain ⟨e, he, i, hi, v, hv, rfl⟩ := mem_flatten.mp ha
  obtain ⟨b, hb, ht, hx, hi2⟩ := (mem_transportAddressesMap he).2 i hi
  have hve : v = b.expiration := by simpa [hi2] using hv
  rw [hve, ← ht, ← hx]
  exact hb

/-- Each transport and address of the list has a record in its map, the latest one. -/
theorem flatten_covers {l : List (TransportAddress Str)} {a : TransportAddress Str}
    (ha : a ∈ l) : ∃ b ∈ flattenTransportAddresses (transportAddressesMap l),
      b.transport = a.transport ∧ b.encodedAddress = a.encodedAddress ∧
        TimeLE a.expiration b.expiration := by
  obtain ⟨e, he, hk, i, hi, hk', v, hv, hle⟩ := transportAddressesMap_covers ha
  exact ⟨⟨e.1, v, i.1⟩, mem_flatten.mpr ⟨e, he, i, hi, v, by simp [hv], rfl⟩, hk, hk', hle⟩

omit [Inhabited Str] in
theorem levelKeys_lawful : (@levelKeys Str _).Lawful keyExpiration :=
  ⟨fun _ _ => rfl, ⟨fun _ _ => rfl, fun _ _ => rfl⟩, fun _ _ => rfl, fun _ _ => rfl, trivial⟩

/-- The map of the records of a map. -/
theorem map_flatten {m : TransportAddresses Str} (hm : Singletons m) :
    transportAddressesMap (flattenTransportAddresses m) = m := by
  refine nestedGroupBy_flatten_canonical _ keyExpiration latestExpiration ?_ levelKeys
    levelKeys_lawful m hm default
  rintro acc _ ⟨v, rfl⟩
  rfl

end Flatten

/-! ## Parsing an encoding -/

section Encoding

variable {Str : Type} [DecidableEq Str] [Inhabited Str] (gcrypt : Gcrypt Str)

/-- The record that the encoding of an address writes. -/
def recordOf (a : TransportAddress Str) : AddressRecord where
  name := gcrypt.stringToUtf8ByteArray a.transport
  expiration := a.expiration
  address := uint8Array a.encodedAddress

omit [DecidableEq Str] [Inhabited Str] in
theorem uint8Array_encodeTransportAddress (a : TransportAddress Str) :
    uint8Array (encodeTransportAddress gcrypt a) = (recordOf gcrypt a).bytes := by
  simp [encodeTransportAddress, recordOf, AddressRecord.bytes, encodeUtf8, encodeAbsoluteTime]

/-- The values that the format has room for. -/
structure Writable (h : Hello Str) : Prop where
  publicKey : ∃ key : Uint8Array, key.length = 32 ∧ h.publicKey = key.map some
  records : ∀ a ∈ flattenTransportAddresses h.transportAddresses, (recordOf gcrypt a).Valid
  length : (encodeHello gcrypt h).length < 65536

theorem encodeHello_length (h : Hello Str) :
    (encodeHello gcrypt h).length = 8 + h.publicKey.length +
      ((flattenTransportAddresses h.transportAddresses).map
        fun a => (recordOf gcrypt a).bytes.length).sum := by
  have hrec : ∀ a, (encodeTransportAddress gcrypt a).length = (recordOf gcrypt a).bytes.length :=
    fun a => by rw [← uint8Array_encodeTransportAddress, uint8Array_length]
  simp only [encodeHello, encodeMessage_length, List.length_append, List.length_map,
    encodeUint32_length, List.length_flatMap, hrec]
  omega

theorem parseHeader_encodeHello {h : Hello Str} (hlen : (encodeHello gcrypt h).length < 65536) :
    ∃ messageType u, parseHeader (uint8Array (encodeHello gcrypt h)) =
      .just ⟨(encodeHello gcrypt h).length, messageType⟩ u := by
  have hh := @parseHeader_encodeMessage _ [] (show messageTypeHello < 65536 by decide) hlen
  rw [List.append_nil] at hh
  exact ⟨messageTypeHello, _, hh⟩

/-- **What the encoding of a value parses to**: each record comes back as its own
value, and the map is built anew. -/
theorem parse_encodeHello {h : Hello Str} (hw : Writable gcrypt h) {fuel : Nat}
    (hf : (encodeHello gcrypt h).length + 2 ≤ fuel) (r : Uint8Array) :
    parseMessageTypes [parseHello gcrypt fuel] (uint8Array (encodeHello gcrypt h) ++ r) =
      .just ⟨messageTypeHello, h.friendOnly, h.publicKey,
        transportAddressesMap ((flattenTransportAddresses h.transportAddresses).map fun a =>
          (recordOf gcrypt a).value gcrypt)⟩ r := by
  obtain ⟨key, hk, hkey⟩ := hw.publicKey
  have hlen := hw.length
  simp only [encodeHello, encodeMessage_length] at hlen hf
  refine parseMessageTypes_encode (p := parseHello gcrypt fuel) (v := []) _ (by decide) hlen rfl
    ?_ r
  refine (parseHello_eq_just gcrypt (by rw [uint8Array_length]; omega)).mpr
    ⟨if h.friendOnly then 1 else 0, key,
      (flattenTransportAddresses h.transportAddresses).map (recordOf gcrypt), ?_, hk, ?_, ?_, ?_,
      ?_⟩
  · split <;> decide
  · intro rec hrec
    obtain ⟨a, ha, rfl⟩ := List.mem_map.mp hrec
    exact hw.records a ha
  · exact recordFree_nil
  · have hflat : ∀ l : List (TransportAddress Str),
        uint8Array (l.flatMap (encodeTransportAddress gcrypt)) =
          (l.map (recordOf gcrypt)).flatMap AddressRecord.bytes := by
      intro l
      induction l with
      | nil => rfl
      | cons a l ih => simp [uint8Array_encodeTransportAddress, ih]
    cases hb : h.friendOnly <;> simp [hkey, hflat]
  · cases h.friendOnly <;> simp [hkey, Function.comp_def]

/-- Equality of HELLO values. -/
structure Hello.Same {Str : Type} (h h' : Hello Str) : Prop where
  friendOnly : h.friendOnly = h'.friendOnly
  publicKey : h.publicKey = h'.publicKey
  transportAddresses : NestedMap.Same h.transportAddresses h'.transportAddresses

/-- Parsing the encoding of `h` followed by `r` gives `h` back and leaves `r`. -/
def ComesBack (h : Hello Str) (r : Uint8Array) : Prop :=
  ∀ fuel, (encodeHello gcrypt h).length + 2 ≤ fuel →
    ∃ h', parseMessageTypes [parseHello gcrypt fuel] (uint8Array (encodeHello gcrypt h) ++ r) =
      .just ⟨messageTypeHello, h'⟩ r ∧ h'.Same h

theorem comesBack_of_stable {h : Hello Str} (hw : Writable gcrypt h)
    (hs : Singletons h.transportAddresses)
    (hrec : ∀ a ∈ flattenTransportAddresses h.transportAddresses,
      (recordOf gcrypt a).value gcrypt = a) (r : Uint8Array) : ComesBack gcrypt h r := by
  intro fuel hf
  refine ⟨_, parse_encodeHello gcrypt hw hf r, rfl, rfl, ?_⟩
  have hid : ((flattenTransportAddresses h.transportAddresses).map fun a =>
      (recordOf gcrypt a).value gcrypt) = flattenTransportAddresses h.transportAddresses := by
    conv_rhs => rw [← List.map_id (flattenTransportAddresses h.transportAddresses)]
    exact List.map_congr_left hrec
  rw [hid, map_flatten hs]
  exact NestedMap.same_refl _

/-- When a value comes back, the array constructor makes each of its address
vectors from the bytes of one of them. -/
theorem comesBack_covers {h : Hello Str} (hw : Writable gcrypt h) {r : Uint8Array}
    (hb : ComesBack gcrypt h r)
    {a : TransportAddress Str} (ha : a ∈ flattenTransportAddresses h.transportAddresses) :
    ∃ b ∈ flattenTransportAddresses h.transportAddresses,
      vecApplyArray (uint8Array b.encodedAddress) = a.encodedAddress := by
  obtain ⟨h', hp, hsame⟩ := hb _ (Nat.le_refl _)
  rw [parse_encodeHello gcrypt hw (Nat.le_refl _) r] at hp
  cases hp
  have ha' := mem_flatten_same (NestedMap.same_symm _ _ hsame.transportAddresses) ha
  obtain ⟨b, hb, rfl⟩ := List.mem_map.mp (mem_flatten_map ha')
  exact ⟨b, hb, rfl⟩

end Encoding

/-! ## Single bytes -/

/-- A vector of bytes comes out of the constructor as it went in, unless it is a
single byte. -/
theorem vecApplyArray_bytes_iff {bs : Uint8Array} :
    vecApplyArray (uint8Array (bs.map some)) = bs.map some ↔ bs.length ≠ 1 := by
  rw [uint8Array_some]
  constructor
  · intro h hlen
    obtain ⟨b, rfl⟩ := List.length_eq_one_iff.mp hlen
    exact vecApplyArray_ne_singleton [b] b h
  · exact vecApplyArray_of_length_ne_one

/-- A vector that came out of the constructor comes out again, unless it was made
from a single non-zero byte. -/
theorem vecApplyArray_again {bs : Uint8Array} (h : ∀ b, bs = [b] → b = 0) :
    vecApplyArray (uint8Array (vecApplyArray bs)) = vecApplyArray bs := by
  by_cases hlen : bs.length = 1
  · obtain ⟨b, rfl⟩ := List.length_eq_one_iff.mp hlen
    rw [h b rfl]
    rfl
  · rw [vecApplyArray_of_length_ne_one hlen]
    exact vecApplyArray_bytes_iff.mpr hlen

theorem uint8Array_vecApplyArray_ne_singleton (bs : Uint8Array) {b : UInt8} (hb : b ≠ 0) :
    uint8Array (vecApplyArray bs) ≠ [b] := by
  intro h
  obtain ⟨x, hx⟩ : ∃ x, vecApplyArray bs = [x] :=
    List.length_eq_one_iff.mp (by rw [← uint8Array_length, h]; rfl)
  cases x with
  | none => exact hb (by simpa [hx, uint8Array] using h.symm)
  | some c => exact vecApplyArray_ne_singleton bs c hx

theorem vecApplyArray_length_le {bs : Uint8Array} (h : ∀ b, bs = [b] → b = 0) :
    (vecApplyArray bs).length ≤ bs.length := by
  by_cases hlen : bs.length = 1
  · obtain ⟨b, rfl⟩ := List.length_eq_one_iff.mp hlen
    rw [h b rfl]
    simp [vecApplyArray]
  · rw [vecApplyArray_of_length_ne_one hlen, List.length_map]

theorem vecApplyArray_length_lt {bs : Uint8Array} (h : bs.length < 65536) :
    (vecApplyArray bs).length < 65536 := by
  by_cases hlen : bs.length = 1
  · obtain ⟨b, rfl⟩ := List.length_eq_one_iff.mp hlen
    have := b.toNat_lt
    simp [vecApplyArray]
    omega
  · rw [vecApplyArray_of_length_ne_one hlen, List.length_map]
    exact h

/-! ## Which values come back -/

section RoundTrip

variable {Str : Type} [DecidableEq Str] [Inhabited Str] (gcrypt : Gcrypt Str)

/-- The HELLO values of the application. -/
structure Encodable (h : Hello Str) : Prop where
  publicKey : ∃ key : Uint8Array, key.length = 32 ∧ h.publicKey = key.map some
  nulFree : ∀ e ∈ h.transportAddresses.entries, 0 ∉ gcrypt.stringToUtf8ByteArray e.1
  nonEmpty : ∀ e ∈ h.transportAddresses.entries, e.2.entries ≠ []
  address : ∀ e ∈ h.transportAddresses.entries, ∀ i ∈ e.2.entries,
    ∃ bs : Uint8Array, bs.length < 65536 ∧ i.1 = bs.map some
  expiration : ∀ e ∈ h.transportAddresses.entries, ∀ i ∈ e.2.entries,
    ∃ msw lsw, msw < 2 ^ 32 ∧ lsw < 2 ^ 32 ∧ i.2 = [(msw, lsw)]
  length : (encodeHello gcrypt h).length < 65536

variable {gcrypt}

theorem Encodable.singletons {h : Hello Str} (he : Encodable gcrypt h) :
    Singletons h.transportAddresses := by
  rw [singletons_iff]
  intro e hm
  refine ⟨he.nonEmpty e hm, fun i hi => ?_⟩
  obtain ⟨msw, lsw, _, _, hv⟩ := he.expiration e hm i hi
  exact ⟨(msw, lsw), hv⟩

theorem Encodable.writable {h : Hello Str} (he : Encodable gcrypt h) : Writable gcrypt h := by
  refine ⟨he.publicKey, fun a ha => ?_, he.length⟩
  obtain ⟨e, hm, i, hi, v, hv, rfl⟩ := mem_flatten.mp ha
  obtain ⟨bs, hlen, hbs⟩ := he.address e hm i hi
  obtain ⟨msw, lsw, hmsw, hlsw, hexp⟩ := he.expiration e hm i hi
  have hve : v = (msw, lsw) := by simpa [hexp] using hv
  subst hve
  exact ⟨he.nulFree e hm, by simpa [recordOf, hbs] using hlen, hmsw, hlsw⟩

/-- **A value comes back** when none of its addresses is a single byte. -/
theorem Encodable.comesBack_iff (hg : gcrypt.Inverse) {h : Hello Str} (he : Encodable gcrypt h)
    (r : Uint8Array) : ComesBack gcrypt h r ↔
      ∀ e ∈ h.transportAddresses.entries, ∀ i ∈ e.2.entries, i.1.length ≠ 1 := by
  constructor
  · intro hb e hm i hi hlen
    obtain ⟨bs, _, hbs⟩ := he.address e hm i hi
    obtain ⟨v, hv⟩ := (singletons_iff.mp he.singletons e hm).2 i hi
    obtain ⟨b, _, hcov⟩ := comesBack_covers gcrypt he.writable hb
      (mem_flatten.mpr ⟨e, hm, i, hi, v, by simp [hv], rfl⟩)
    obtain ⟨c, rfl⟩ := List.length_eq_one_iff.mp (by simpa [hbs] using hlen)
    exact vecApplyArray_ne_singleton _ c (hcov.trans hbs)
  · intro hcond
    refine comesBack_of_stable gcrypt he.writable he.singletons (fun a ha => ?_) r
    obtain ⟨e, hm, i, hi, v, hv, rfl⟩ := mem_flatten.mp ha
    obtain ⟨bs, _, hbs⟩ := he.address e hm i hi
    have hlen : bs.length ≠ 1 := by simpa [hbs] using hcond e hm i hi
    have hx : vecApplyArray (uint8Array i.1) = i.1 := hbs ▸ vecApplyArray_bytes_iff.mpr hlen
    simp only [AddressRecord.value, recordOf, hg.decode_encode _ (he.nulFree e hm), hx]

/-! ## Which messages come back -/

/-- The first message of `s` has the declared size `n` and the address records `rs`. -/
def Frame (s : Uint8Array) (n : Nat) (rs : List AddressRecord) : Prop :=
  ∃ (messageType friendOnly : Nat) (key tail rest : Uint8Array),
    friendOnly < 2 ^ 32 ∧ key.length = 32 ∧ (∀ r ∈ rs, r.Valid) ∧ RecordFree tail ∧
    40 + (rs.map fun r => r.bytes.length).sum + tail.length = n ∧
    parseHeader s = .just ⟨n, messageType⟩
      (encodeUint32 friendOnly ++ key ++ rs.flatMap AddressRecord.bytes ++ tail ++ rest)

/-- The encoding of `h` counts its own bytes, has at most `n` of them, and comes
back; in whatever order the maps of `h` are visited. -/
def BackWithin (gcrypt : Gcrypt Str) (n : Nat) (h : Hello Str) : Prop :=
  ∀ h' : Hello Str, h'.Same h →
    (∃ messageType u, parseHeader (uint8Array (encodeHello gcrypt h')) =
      .just ⟨(encodeHello gcrypt h').length, messageType⟩ u) ∧
    (encodeHello gcrypt h').length ≤ n ∧ ComesBack gcrypt h' []

omit [Inhabited Str] in
/-- Every message that parses has a frame. -/
theorem frame_of_parse {fuel : Nat} {s t : Uint8Array} {m : Message (Hello Str)}
    (hf : s.length + 2 ≤ fuel)
    (hp : parseMessageTypes [parseHello gcrypt fuel] s = .just m t) : ∃ n rs, Frame s n rs := by
  obtain ⟨size, u, body, p, v, hh, hset, hlen, rfl, hm⟩ := (parseMessageTypes_eq_just _).mp hp
  obtain rfl : p = parseHello gcrypt fuel := by simpa using List.mem_of_find?_eq_some hset
  have hbody : body.length + 2 ≤ fuel := by
    have := parseHeader_length hh
    rw [List.length_append] at this
    omega
  obtain ⟨friendOnly, key, rs, hfo, hk, hvs, hfree, rfl, _⟩ :=
    (parseHello_eq_just gcrypt hbody).mp hm
  refine ⟨size, rs, m.messageType, friendOnly, key, v, t, hfo, hk, hvs, hfree, ?_, hh⟩
  rw [← hlen]
  simp only [List.length_append, encodeUint32_length, hk, List.length_flatMap]
  omega

omit [Inhabited Str] in
/-- The value of a message with a known frame. -/
theorem message_of_frame {fuel n : Nat} {s t : Uint8Array} {rs : List AddressRecord}
    {m : Message (Hello Str)} (hf : s.length + 2 ≤ fuel) (hframe : Frame s n rs)
    (hp : parseMessageTypes [parseHello gcrypt fuel] s = .just m t) :
    n < 65536 ∧ (∀ r ∈ rs, r.Valid) ∧
      40 + (rs.map fun r => r.bytes.length).sum ≤ n ∧
      ∃ (friendOnly : Bool) (key : Uint8Array), key.length = 32 ∧ m.message =
        ⟨friendOnly, key.map some,
          transportAddressesMap (rs.map (AddressRecord.value gcrypt))⟩ := by
  obtain ⟨size, u, body, p, v, hh, hset, hlen, rfl, hm⟩ := (parseMessageTypes_eq_just _).mp hp
  obtain rfl : p = parseHello gcrypt fuel := by simpa using List.mem_of_find?_eq_some hset
  obtain ⟨messageType, friendOnly, key, tail, rest, hfo, hk, hvs, hfree, hn, hh'⟩ := hframe
  rw [hh] at hh'
  obtain ⟨⟨rfl, _⟩, hu⟩ := (Outcome.just.inj hh').imp Header.mk.inj id
  have hsum : body.length =
      (encodeUint32 friendOnly ++ key ++ rs.flatMap AddressRecord.bytes ++ tail).length := by
    simp only [List.length_append, encodeUint32_length, hk, List.length_flatMap]
    omega
  obtain ⟨rfl, _⟩ := List.append_inj hu hsum
  have hbody : (encodeUint32 friendOnly ++ key ++ rs.flatMap AddressRecord.bytes ++
      tail).length + 2 ≤ fuel := by
    have := parseHeader_length hh
    rw [List.length_append] at this
    omega
  have hv := (parseHello_eq_just gcrypt hbody).mpr
    ⟨friendOnly, key, rs, hfo, hk, hvs, hfree, rfl, rfl⟩
  rw [hm] at hv
  obtain ⟨hv, _⟩ := Outcome.just.inj hv
  obtain ⟨_, h₁, _⟩ := parseHeader_eq_just.mp hh
  exact ⟨parseUint16_lt h₁, hvs, by omega, _, key, hk, hv⟩

section Parsed

variable {rs : List AddressRecord} (hg : gcrypt.Inverse) (hvs : ∀ r ∈ rs, r.Valid)
  (hutf : ∀ r ∈ rs, ValidUtf8 r.name) {h : Hello Str}
  (hsame : NestedMap.Same h.transportAddresses
    (transportAddressesMap (rs.map (AddressRecord.value gcrypt))))

include hsame in
/-- The records of a parsed HELLO are values of records of its message. -/
theorem mem_flatten_parsed {a : TransportAddress Str}
    (ha : a ∈ flattenTransportAddresses h.transportAddresses) :
    ∃ r ∈ rs, r.value gcrypt = a :=
  List.mem_map.mp (mem_flatten_map (mem_flatten_same hsame ha))

omit [DecidableEq Str] [Inhabited Str] in
include hg hvs hutf in
theorem stringToUtf8ByteArray_value {r : AddressRecord} (hr : r ∈ rs) :
    gcrypt.stringToUtf8ByteArray (r.value gcrypt).transport = r.name :=
  hg.encode_decode r.name (hvs r hr).name (hutf r hr)

include hg hvs hutf hsame in
theorem valid_recordOf_parsed {a : TransportAddress Str}
    (ha : a ∈ flattenTransportAddresses h.transportAddresses) : (recordOf gcrypt a).Valid := by
  obtain ⟨r, hr, rfl⟩ := mem_flatten_parsed hsame ha
  refine ⟨?_, ?_, (hvs r hr).msw, (hvs r hr).lsw⟩
  · simpa only [recordOf, stringToUtf8ByteArray_value hg hvs hutf hr] using (hvs r hr).name
  · simp only [recordOf, uint8Array_length, AddressRecord.value]
    exact vecApplyArray_length_lt (hvs r hr).address

include hg hvs hutf hsame in
/-- Encoding a parsed HELLO again does not make it longer. -/
theorem length_encode_le (hk : h.publicKey.length = 32)
    (hcond : ∀ r ∈ rs, ∀ b, r.address = [b] → b = 0) :
    (encodeHello gcrypt h).length ≤ 40 + (rs.map fun r => r.bytes.length).sum := by
  have hsing := singletons_same (NestedMap.same_symm _ _ hsame) (singletons_map _)
  have hsum := FiniteMap.sum_le_sum_of_keys (fun a => (a.transport, a.encodedAddress))
    (fun r : AddressRecord => ((r.value gcrypt).transport, (r.value gcrypt).encodedAddress))
    (fun a => (recordOf gcrypt a).bytes.length) (fun r => r.bytes.length) _ (nodup_flatten hsing)
    rs fun a ha => by
      obtain ⟨r, hr, rfl⟩ := mem_flatten_parsed hsame ha
      refine ⟨r, hr, rfl, ?_⟩
      have hlen := vecApplyArray_length_le (hcond r hr)
      simp only [AddressRecord.bytes_length, recordOf, uint8Array_length,
        stringToUtf8ByteArray_value hg hvs hutf hr]
      simpa [AddressRecord.value] using hlen
  rw [encodeHello_length, hk]
  omega

end Parsed

/-- **A message comes back** when none of its addresses is a single non-zero byte. -/
theorem backWithin_iff (hg : gcrypt.Inverse) {fuel n : Nat} {s t : Uint8Array}
    {rs : List AddressRecord} {m : Message (Hello Str)} (hf : s.length + 2 ≤ fuel)
    (hframe : Frame s n rs) (hutf : ∀ r ∈ rs, ValidUtf8 r.name)
    (hp : parseMessageTypes [parseHello gcrypt fuel] s = .just m t) :
    BackWithin gcrypt n m.message ↔ ∀ r ∈ rs, ∀ b, r.address = [b] → b = 0 := by
  obtain ⟨hn, hvs, hsum, friendOnly, key, hk, hm⟩ := message_of_frame hf hframe hp
  constructor
  · intro hback r hr b hb
    obtain ⟨_, hlen, hcomes⟩ := hback m.message ⟨rfl, rfl, NestedMap.same_refl _⟩
    have hsame := NestedMap.same_refl m.message.transportAddresses
    conv at hsame => rhs; rw [hm]
    have hw : Writable gcrypt m.message := ⟨⟨key, hk, by rw [hm]⟩,
      fun a ha => valid_recordOf_parsed hg hvs hutf hsame ha, by omega⟩
    obtain ⟨a, ha, _, haddr, _⟩ :=
      flatten_covers (List.mem_map_of_mem (f := AddressRecord.value gcrypt) hr)
    obtain ⟨a', ha', hcov⟩ := comesBack_covers gcrypt hw hcomes (a := a) (by rw [hm]; exact ha)
    obtain ⟨r', hr', rfl⟩ := mem_flatten_parsed hsame ha'
    by_contra hne
    have hnone : none ∈ vecApplyArray (uint8Array (vecApplyArray r'.address)) := by
      have : none ∈ vecApplyArray r.address := none_mem_vecApplyArray.mpr ⟨b, hb, hne⟩
      rwa [show vecApplyArray r.address = _ from (hcov.trans haddr).symm] at this
    obtain ⟨c, hc, hc0⟩ := none_mem_vecApplyArray.mp hnone
    exact uint8Array_vecApplyArray_ne_singleton r'.address hc0 hc
  · intro hcond h' hsame'
    have hsame : NestedMap.Same h'.transportAddresses
        (transportAddressesMap (rs.map (AddressRecord.value gcrypt))) := by
      have := hsame'.transportAddresses
      rwa [hm] at this
    have hkey : h'.publicKey = key.map some := by rw [hsame'.publicKey, hm]
    have hle := length_encode_le hg hvs hutf hsame (by simp [hkey, hk]) hcond
    have hw : Writable gcrypt h' :=
      ⟨⟨key, hk, hkey⟩, fun a ha => valid_recordOf_parsed hg hvs hutf hsame ha, by omega⟩
    refine ⟨parseHeader_encodeHello gcrypt hw.length, by omega, ?_⟩
    refine comesBack_of_stable gcrypt hw
      (singletons_same (NestedMap.same_symm _ _ hsame) (singletons_map _)) (fun a ha => ?_) []
    obtain ⟨r, hr, rfl⟩ := mem_flatten_parsed hsame ha
    have hx := vecApplyArray_again (hcond r hr)
    have hname := stringToUtf8ByteArray_value hg hvs hutf hr
    simp only [AddressRecord.value] at hname ⊢
    simp only [recordOf, hname, hx]

/-- **HELLO encoding and parsing undo each other**, but for addresses of a single
byte: a value comes back when it has none, and a message comes back when it has
none but zero bytes. -/
theorem hello_round_trip (hg : gcrypt.Inverse) :
    (∀ h : Hello Str, Encodable gcrypt h →
      ((∀ r, ComesBack gcrypt h r) ↔
        ∀ e ∈ h.transportAddresses.entries, ∀ i ∈ e.2.entries, i.1.length ≠ 1)) ∧
    (∀ (fuel n : Nat) (s t : Uint8Array) (rs : List AddressRecord) (m : Message (Hello Str)),
      s.length + 2 ≤ fuel → Frame s n rs → (∀ r ∈ rs, ValidUtf8 r.name) →
      parseMessageTypes [parseHello gcrypt fuel] s = .just m t →
      (BackWithin gcrypt n m.message ↔ ∀ r ∈ rs, ∀ b, r.address = [b] → b = 0)) := by
  constructor
  · intro h he
    constructor
    · intro hback
      exact (he.comesBack_iff hg []).mp (hback [])
    · intro hcond r
      exact (he.comesBack_iff hg r).mpr hcond
  · intro fuel n s t rs m hf hframe hutf hp
    exact backWithin_iff hg hf hframe hutf hp

end RoundTrip

/-- A HELLO with one TCP address. -/
def tcpHello (address : Uint8Array) : Hello String where
  friendOnly := false
  publicKey := (List.replicate 32 7).map some
  transportAddresses := ⟨[("tcp", ⟨[(address.map some, [(0, 5)])], by simp⟩)], by simp⟩

theorem flatten_tcpHello (address : Uint8Array) :
    flattenTransportAddresses (tcpHello address).transportAddresses =
      [⟨"tcp", (0, 5), address.map some⟩] := rfl

theorem encodeHello_tcpHello_length (address : Uint8Array) :
    (encodeHello utf8Gcrypt (tcpHello address)).length = 54 + address.length := by
  have htcp : (utf8Gcrypt.stringToUtf8ByteArray "tcp").length = 3 := by decide
  rw [encodeHello_length, flatten_tcpHello]
  simp [recordOf, AddressRecord.bytes_length, htcp, tcpHello]
  omega

theorem encodable_tcpHello {address : Uint8Array} (h : address.length < 1000) :
    Encodable utf8Gcrypt (tcpHello address) where
  publicKey := ⟨List.replicate 32 7, by simp, rfl⟩
  nulFree e he := by
    obtain rfl := List.mem_singleton.mp he
    exact show 0 ∉ utf8Gcrypt.stringToUtf8ByteArray "tcp" by decide
  nonEmpty e he := by
    obtain rfl := List.mem_singleton.mp he
    exact List.cons_ne_nil _ _
  address e he i hi := by
    obtain rfl := List.mem_singleton.mp he
    obtain rfl := List.mem_singleton.mp hi
    exact ⟨address, by omega, rfl⟩
  expiration e he i hi := by
    obtain rfl := List.mem_singleton.mp he
    obtain rfl := List.mem_singleton.mp hi
    exact ⟨0, 5, by decide, by decide, rfl⟩
  length := by rw [encodeHello_tcpHello_length]; omega

/-- A value with two bytes comes back, and so does its message. -/
theorem hello_round_trip_tcp :
    (∀ r, ComesBack utf8Gcrypt (tcpHello [1, 2]) r) ∧
      ∃ m, parseMessageTypes [parseHello utf8Gcrypt 100]
          (uint8Array (encodeHello utf8Gcrypt (tcpHello [1, 2]))) = .just m [] ∧
        BackWithin utf8Gcrypt 56 m.message := by
  have he : Encodable utf8Gcrypt (tcpHello [1, 2]) := encodable_tcpHello (by decide)
  have hfuel : (encodeHello utf8Gcrypt (tcpHello [1, 2])).length + 2 ≤ 100 := by
    rw [encodeHello_tcpHello_length]
    decide
  have hparse := parse_encodeHello utf8Gcrypt he.writable hfuel []
  rw [List.append_nil] at hparse
  refine ⟨((hello_round_trip utf8Gcrypt_inverse).1 _ he).mpr ?_,
    _, hparse, ((hello_round_trip utf8Gcrypt_inverse).2 100 56 _ []
      [recordOf utf8Gcrypt ⟨"tcp", (0, 5), [some 1, some 2]⟩] _ ?_ ?_ ?_ hparse).mpr ?_⟩
  · rintro e he i hi
    obtain rfl := List.mem_singleton.mp he
    obtain rfl := List.mem_singleton.mp hi
    decide
  · rwa [uint8Array_length]
  · refine ⟨17, 0, List.replicate 32 7, [], [], by decide, by decide, ?_, recordFree_nil, by decide,
      ?_⟩
    · rintro r hr
      obtain rfl := List.mem_singleton.mp hr
      exact ⟨by decide, by decide, by decide, by decide⟩
    · rfl
  · rintro r hr
    obtain rfl := List.mem_singleton.mp hr
    exact show ValidUtf8 [116, 99, 112] by decide
  · rintro r hr b hb
    obtain rfl := List.mem_singleton.mp hr
    cases hb

/-- A single byte does not come back. -/
theorem not_comesBack_single_byte :
    Encodable utf8Gcrypt (tcpHello [7]) ∧ ¬ ComesBack utf8Gcrypt (tcpHello [7]) [] := by
  have he : Encodable utf8Gcrypt (tcpHello [7]) := encodable_tcpHello (by decide)
  refine ⟨he, fun h => ?_⟩
  exact (he.comesBack_iff utf8Gcrypt_inverse []).mp h _ (List.mem_singleton.mpr rfl) _
    (List.mem_singleton.mpr rfl) rfl

end GnunetWeb
