import GnunetWeb.Datastructures
import GnunetWeb.Message
import Mathlib.Data.List.Sort

/-!
# HELLO messages

`hello.cljs`.  A HELLO is a flag, a public key and a list of address records; as a
value, the addresses are a nested map from the transport and the encoded address
to the latest expiration.

Proved here:

* `parseTransportAddress_eq_just`: the record parser succeeds exactly on the
  bytes of a record (`AddressRecord`);
* `parseHello_eq_just`: a body is a flag, a key and a list of records, followed by
  bytes that do not start with a record;
* `parseHello_succeeds_iff`: it succeeds on every body of at least 36 bytes;
* `latestExpiration_max`: the last expiration in sorted order is the latest;
* `mem_transportAddressesMap`, `transportAddressesMap_covers`: the map has the
  transports and addresses of the list, and no others.
-/

namespace GnunetWeb

open StateMaybe

abbrev AbsoluteTime := Nat × Nat

/-- What `parse-transport-address` returns. -/
structure TransportAddress (Str : Type) where
  transport : Str
  expiration : AbsoluteTime
  encodedAddress : List Elem
  deriving Inhabited

abbrev TransportAddresses (Str : Type) := NestedMap [Str, List Elem] (List AbsoluteTime)

structure Hello (Str : Type) where
  friendOnly : Bool
  publicKey : List Elem
  transportAddresses : TransportAddresses Str

def messageTypeHello : Nat := 17

/-! ## The nested map -/

section Maps

variable {Str : Type}

def keyTransport : Key (TransportAddress Str) Str :=
  ⟨fun a => a.transport, fun a v => { a with transport := v }⟩

def keyEncodedAddress : Key (TransportAddress Str) (List Elem) :=
  ⟨fun a => a.encodedAddress, fun a v => { a with encodedAddress := v }⟩

def keyExpiration : Key (TransportAddress Str) AbsoluteTime :=
  ⟨fun a => a.expiration, fun a v => { a with expiration := v }⟩

/-- The order of `compare` on two vectors `[msw lsw]`. -/
def TimeLE (a b : AbsoluteTime) : Prop := a.1 < b.1 ∨ a.1 = b.1 ∧ a.2 ≤ b.2

instance : DecidableRel TimeLE := fun a b =>
  inferInstanceAs (Decidable (a.1 < b.1 ∨ a.1 = b.1 ∧ a.2 ≤ b.2))

/-- The vector of the last expiration in sorted order.  The groups of
`nested-group-by` are never empty. -/
def latestExpiration (transportAddresses : List (TransportAddress Str)) : List AbsoluteTime :=
  ((transportAddresses.map fun a => a.expiration).insertionSort TimeLE).reverse.head?.toList

def levelKeys [DecidableEq Str] : Keys (TransportAddress Str) [Str, List Elem] :=
  .cons keyTransport (.cons keyEncodedAddress .nil)

def transportAddressesMap [DecidableEq Str] (transportAddressesList : List (TransportAddress Str)) :
    TransportAddresses Str :=
  nestedGroupBy latestExpiration levelKeys transportAddressesList

/-- The accumulator starts as a record without keys; every key is written. -/
def flattenTransportAddresses [DecidableEq Str] [Inhabited Str] (m : TransportAddresses Str) :
    List (TransportAddress Str) :=
  flattenNestedMaps keyExpiration levelKeys m default

end Maps

/-! ## Parsers and encoders -/

section Codec

variable {Str : Type} [DecidableEq Str] [Inhabited Str] (gcrypt : Gcrypt Str)

def parseTransportAddress (fuel : Nat) : Parser (TransportAddress Str) := do
  let transport ← parseUtf8 gcrypt fuel
  let addressLength ← parseUint16
  let expiration ← parseAbsoluteTime
  let encodedAddress ← items addressLength
  parser { transport, expiration, encodedAddress := vecApplyArray encodedAddress }

def encodeTransportAddress (a : TransportAddress Str) : List Elem :=
  (encodeUtf8 gcrypt a.transport).map some ++
    (encodeUint16 a.encodedAddress.length).map some ++
    (encodeAbsoluteTime (a.expiration.1, a.expiration.2)).map some ++ a.encodedAddress

def parseHello (fuel : Nat) : MessageParser (Hello Str) where
  messageType := messageTypeHello
  parser := do
    let friendOnly ← parseUint32
    let publicKey ← parsePeerIdentity
    let addresses ← noneOrMore fuel (parseTransportAddress gcrypt fuel)
    parser { friendOnly := friendOnly ≠ 0, publicKey,
             transportAddresses := transportAddressesMap addresses }

def encodeHello (h : Hello Str) : List Elem :=
  encodeMessage
    { messageType := messageTypeHello
      message := (encodeUint32 (if h.friendOnly then 1 else 0)).map some ++ h.publicKey ++
        (flattenTransportAddresses h.transportAddresses).flatMap (encodeTransportAddress gcrypt) }

end Codec

/-! ## Address records -/

/-- One address record as it stands in a HELLO body. -/
structure AddressRecord where
  name : Uint8Array
  expiration : AbsoluteTime
  address : Uint8Array

namespace AddressRecord

def bytes (r : AddressRecord) : Uint8Array :=
  r.name ++ [0] ++ encodeUint16 r.address.length ++
    encodeUint64 (r.expiration.1, r.expiration.2) ++ r.address

structure Valid (r : AddressRecord) : Prop where
  name : 0 ∉ r.name
  address : r.address.length < 65536
  msw : r.expiration.1 < 2 ^ 32
  lsw : r.expiration.2 < 2 ^ 32

/-- The value that the parser makes of a record. -/
def value {Str : Type} (gcrypt : Gcrypt Str) (r : AddressRecord) : TransportAddress Str where
  transport := gcrypt.utf8ByteArrayToString r.name
  expiration := r.expiration
  encodedAddress := vecApplyArray r.address

theorem bytes_length (r : AddressRecord) :
    r.bytes.length = r.name.length + 11 + r.address.length := by
  simp [bytes, encodeUint16_length, encodeUint64_length]
  omega

end AddressRecord

/-- No record starts here. -/
def RecordFree (t : Uint8Array) : Prop :=
  ¬ ∃ (r : AddressRecord) (rest : Uint8Array), r.Valid ∧ t = r.bytes ++ rest

theorem recordFree_nil : RecordFree [] := by
  rintro ⟨r, rest, _, he⟩
  have := congrArg List.length he
  rw [List.length_append, r.bytes_length, List.length_nil] at this
  omega

section Records

variable {Str : Type} (gcrypt : Gcrypt Str)

/-- **The record parser succeeds exactly on the bytes of a record.** -/
theorem parseTransportAddress_eq_just {fuel : Nat} {s t : Uint8Array} {a : TransportAddress Str}
    (hf : s.length + 2 ≤ fuel) :
    parseTransportAddress gcrypt fuel s = .just a t ↔
      ∃ r : AddressRecord, r.Valid ∧ s = r.bytes ++ t ∧ a = r.value gcrypt := by
  simp only [parseTransportAddress, bind_eq_just, parseUtf8_eq_just gcrypt hf,
    parseUint16_iff, parseAbsoluteTime, parseUint64_iff, items_eq_just, parser, pure_apply,
    Outcome.just.injEq]
  constructor
  · rintro ⟨_, _, ⟨name, h0, rfl, rfl⟩, len, _, ⟨hlen, rfl⟩, ⟨msw, lsw⟩, _, ⟨hm, hl, rfl⟩,
      address, _, ⟨ha, rfl⟩, rfl, rfl⟩
    have hal : address.length = len := by exact_mod_cast ha
    refine ⟨⟨name, (msw, lsw), address⟩, ⟨h0, by simpa [hal] using hlen, hm, hl⟩, ?_, rfl⟩
    simp [AddressRecord.bytes, hal]
  · rintro ⟨r, hv, rfl, rfl⟩
    refine ⟨_, _, ⟨r.name, hv.name, ?_, rfl⟩, r.address.length, _, ⟨hv.address, rfl⟩,
      r.expiration, _, ⟨hv.msw, hv.lsw, rfl⟩, r.address, t, ⟨rfl, rfl⟩, rfl, rfl⟩
    simp [AddressRecord.bytes]

theorem fueled_parseTransportAddress {n fuel : Nat} (hf : n + 2 ≤ fuel) :
    Fueled n (parseTransportAddress gcrypt fuel) :=
  fueled_bind (fueled_parseUtf8 gcrypt hf) (shrinking_parseUtf8 gcrypt hf) fun _ =>
    fueled_bind (fueled_parseUint16 n) (shrinking_parseUint16 n) fun _ =>
      fueled_bind (fueled_parseUint64 n) (shrinking_parseUint64 n) fun _ =>
        fueled_bind (fueled_items n _) (shrinking_items n _) fun _ => fueled_ret n _

theorem consuming_parseTransportAddress {n fuel : Nat} (hf : n + 2 ≤ fuel) :
    Consuming List.length n (parseTransportAddress gcrypt fuel) := by
  intro s a t hs h
  obtain ⟨r, _, rfl, _⟩ := (parseTransportAddress_eq_just gcrypt (by omega)).mp h
  rw [List.length_append, r.bytes_length]
  omega

/-- A repetition of the record parser splits a sequence of records. -/
theorem many_records {fuel : Nat} {s t : Uint8Array} {xs : List (TransportAddress Str)}
    (hf : s.length + 2 ≤ fuel) :
    Many (parseTransportAddress gcrypt fuel) s xs t ↔
      ∃ rs : List AddressRecord, (∀ r ∈ rs, r.Valid) ∧
        s = rs.flatMap AddressRecord.bytes ++ t ∧
        xs = rs.map (AddressRecord.value gcrypt) ∧ RecordFree t := by
  constructor
  · intro h
    induction h with
    | @done s hm =>
      refine ⟨[], by simp, rfl, rfl, ?_⟩
      rintro ⟨r, rest, hv, rfl⟩
      rw [(parseTransportAddress_eq_just gcrypt hf).mpr ⟨r, hv, rfl, rfl⟩] at hm
      cases hm
    | next hm _ ih =>
      obtain ⟨r, hv, rfl, rfl⟩ := (parseTransportAddress_eq_just gcrypt hf).mp hm
      obtain ⟨rs, hvs, rfl, rfl, hfree⟩ := ih (by rw [List.length_append] at hf; omega)
      refine ⟨r :: rs, ?_, by simp, rfl, hfree⟩
      simpa using ⟨hv, hvs⟩
  · rintro ⟨rs, hvs, rfl, rfl, hfree⟩
    induction rs with
    | nil =>
      refine .done ?_
      cases hm : parseTransportAddress gcrypt fuel t with
      | nothing => simpa using hm
      | running => exact absurd hm (fueled_parseTransportAddress gcrypt hf t (by simp))
      | just a u =>
        obtain ⟨r, hv, he, _⟩ := (parseTransportAddress_eq_just gcrypt (by simpa using hf)).mp hm
        exact absurd ⟨r, u, hv, he⟩ hfree
    | cons r rs ih =>
      have hr := hvs r (by simp)
      have hlen := r.bytes_length
      simp only [List.flatMap_cons, List.append_assoc, List.length_append] at hf ⊢
      refine .next (t := rs.flatMap AddressRecord.bytes ++ t) ?_
        (ih (fun r hr => hvs r (by simp [hr])) (by rw [List.length_append]; omega))
      exact (parseTransportAddress_eq_just gcrypt (by simp only [List.length_append]; omega)).mpr
        ⟨r, hr, rfl, rfl⟩

theorem fueled_noneOrMore_records {n fuel : Nat} (hf : n + 2 ≤ fuel) :
    Fueled n (noneOrMore fuel (parseTransportAddress gcrypt fuel)) := by
  intro s hs hrun
  obtain ⟨xs, t, _, _, hn⟩ := noneOrMore_ends (consuming_parseTransportAddress gcrypt hf)
    (fueled_parseTransportAddress gcrypt hf) hf s hs
  rw [hn] at hrun
  cases hrun

end Records

/-! ## HELLO bodies -/

section Bodies

variable {Str : Type} [DecidableEq Str] (gcrypt : Gcrypt Str)

theorem parsePeerIdentity_eq_just {s t : Uint8Array} {v : List Elem} :
    parsePeerIdentity s = .just v t ↔
      ∃ key : Uint8Array, key.length = 32 ∧ s = key ++ t ∧ v = key.map some := by
  simp only [parsePeerIdentity, bind_eq_just, items_eq_just, parser, pure_apply,
    Outcome.just.injEq]
  constructor
  · rintro ⟨key, _, ⟨hk, rfl⟩, rfl, rfl⟩
    have hk' : key.length = 32 := by exact_mod_cast hk
    exact ⟨key, hk', rfl, vecApplyArray_of_length_ne_one (by omega)⟩
  · rintro ⟨key, hk, rfl, rfl⟩
    exact ⟨key, t, ⟨by exact_mod_cast hk, rfl⟩, vecApplyArray_of_length_ne_one (by omega), rfl⟩

/-- **A HELLO body** is a flag, a key and a list of records, followed by bytes
that do not start with a record. -/
theorem parseHello_eq_just {fuel : Nat} {s t : Uint8Array} {h : Hello Str}
    (hf : s.length + 2 ≤ fuel) :
    (parseHello gcrypt fuel).parser s = .just h t ↔
      ∃ (friendOnly : Nat) (key : Uint8Array) (rs : List AddressRecord),
        friendOnly < 2 ^ 32 ∧ key.length = 32 ∧ (∀ r ∈ rs, r.Valid) ∧ RecordFree t ∧
        s = encodeUint32 friendOnly ++ key ++ rs.flatMap AddressRecord.bytes ++ t ∧
        h = ⟨friendOnly ≠ 0, key.map some,
          transportAddressesMap (rs.map (AddressRecord.value gcrypt))⟩ := by
  simp only [parseHello, bind_eq_just, parseUint32_iff, parsePeerIdentity_eq_just]
  constructor
  · rintro ⟨friendOnly, _, ⟨hfo, rfl⟩, _, u, ⟨key, hk, rfl, rfl⟩, h⟩
    simp only [List.length_append] at hf
    have hlen : u.length + 2 ≤ fuel := by omega
    obtain ⟨xs, s', hm, _, hn⟩ := noneOrMore_ends (consuming_parseTransportAddress gcrypt hlen)
      (fueled_parseTransportAddress gcrypt hlen) hlen u (Nat.le_refl _)
    obtain ⟨_, _, h₁, h₂⟩ := h
    rw [hn] at h₁
    cases h₁
    cases h₂
    obtain ⟨rs, hvs, rfl, rfl, hfree⟩ := (many_records gcrypt (by omega)).mp hm
    exact ⟨friendOnly, key, rs, hfo, hk, hvs, hfree, by simp, rfl⟩
  · rintro ⟨friendOnly, key, rs, hfo, hk, hvs, hfree, rfl, rfl⟩
    simp only [List.length_append] at hf
    refine ⟨friendOnly, key ++ (rs.flatMap AddressRecord.bytes ++ t), ⟨hfo, by simp⟩,
      key.map some, rs.flatMap AddressRecord.bytes ++ t, ⟨key, hk, rfl, rfl⟩,
      rs.map (AddressRecord.value gcrypt), t, ?_, rfl⟩
    have hlen : (rs.flatMap AddressRecord.bytes ++ t).length + 2 ≤ fuel := by
      rw [List.length_append]
      omega
    have hm := (many_records gcrypt hlen).mpr ⟨rs, hvs, rfl, rfl, hfree⟩
    obtain ⟨xs, u, hm', _, hn⟩ := noneOrMore_ends (consuming_parseTransportAddress gcrypt hlen)
      (fueled_parseTransportAddress gcrypt hlen) hlen _ (Nat.le_refl _)
    obtain ⟨rfl, rfl⟩ := many_unique hm hm'
    exact hn

theorem fueled_parsePeerIdentity (n : Nat) : Fueled n parsePeerIdentity :=
  fueled_bind (fueled_items n 32) (shrinking_items n 32) fun _ => fueled_ret n _

theorem shrinking_parsePeerIdentity (n : Nat) : Shrinking n parsePeerIdentity :=
  shrinking_bind (shrinking_items n 32) fun _ => shrinking_ret n _

theorem fueled_parseHello {n fuel : Nat} (hf : n + 2 ≤ fuel) :
    Fueled n (parseHello gcrypt fuel).parser :=
  fueled_bind (fueled_parseUint32 n) (shrinking_parseUint32 n) fun _ =>
    fueled_bind (fueled_parsePeerIdentity n) (shrinking_parsePeerIdentity n) fun _ => by
      intro s hs hrun
      rcases bind_eq_running.mp hrun with hrun | ⟨_, _, _, hrun⟩
      · exact fueled_noneOrMore_records gcrypt hf s hs hrun
      · cases hrun

/-- The body parser succeeds on every body of at least 36 bytes, and only on those. -/
theorem parseHello_succeeds_iff {fuel : Nat} {s : Uint8Array} (hf : s.length + 2 ≤ fuel) :
    (∃ h t, (parseHello gcrypt fuel).parser s = .just h t) ↔ 36 ≤ s.length := by
  constructor
  · rintro ⟨h, t, hp⟩
    obtain ⟨friendOnly, key, rs, _, hk, _, _, rfl, _⟩ := (parseHello_eq_just gcrypt hf).mp hp
    simp only [List.length_append, encodeUint32_length, hk]
    omega
  · intro hlen
    match s, hlen, hf with
    | a :: b :: c :: d :: u, hlen, hf =>
      simp only [List.length_cons] at hlen hf
      obtain ⟨friendOnly, hfo⟩ : ∃ v, parseUint32 (a :: b :: c :: d :: u) = .just v u :=
        ⟨_, parseUint32_eq_just.mpr ⟨a, b, c, d, rfl, rfl⟩⟩
      have hkey := parsePeerIdentity_eq_just.mpr ⟨u.take 32, by simp; omega,
        (List.take_append_drop 32 u).symm, rfl⟩
      have hrest : (u.drop 32).length + 2 ≤ fuel := by simp; omega
      obtain ⟨xs, t, _, _, hn⟩ := noneOrMore_ends (consuming_parseTransportAddress gcrypt hrest)
        (fueled_parseTransportAddress gcrypt hrest) hrest (u.drop 32) (Nat.le_refl _)
      refine ⟨⟨friendOnly ≠ 0, (u.take 32).map some, transportAddressesMap xs⟩, t, ?_⟩
      simp only [parseHello]
      rw [bind_just hfo, bind_just hkey, bind_just hn]
      rfl

end Bodies

/-! ## The map of a list -/

section MapOfList

variable {Str : Type}

theorem latestExpiration_eq {l : List (TransportAddress Str)} (hl : l ≠ []) :
    ∃ a ∈ l, latestExpiration l = [a.expiration] := by
  have hne : (l.map fun a => a.expiration).insertionSort TimeLE ≠ [] := by
    intro h
    have := List.length_insertionSort TimeLE (l.map fun a => a.expiration)
    rw [h] at this
    exact hl (by simpa using this.symm)
  obtain ⟨e, he⟩ := Option.ne_none_iff_exists'.mp
    (mt List.head?_eq_none_iff.mp (mt List.reverse_eq_nil_iff.mp hne))
  have hmem : e ∈ (l.map fun a => a.expiration).insertionSort TimeLE :=
    List.mem_reverse.mp (List.mem_of_mem_head? (by rw [he]; rfl))
  obtain ⟨a, ha, rfl⟩ := List.mem_map.mp ((List.mem_insertionSort TimeLE).mp hmem)
  exact ⟨a, ha, by rw [latestExpiration, he]; rfl⟩

theorem timeLE_trans {a b c : AbsoluteTime} (hab : TimeLE a b) (hbc : TimeLE b c) : TimeLE a c := by
  unfold TimeLE at *
  omega

theorem timeLE_total (a b : AbsoluteTime) : TimeLE a b ∨ TimeLE b a := by
  unfold TimeLE
  omega

/-- **The last expiration in sorted order is the latest.** -/
theorem latestExpiration_max {l : List (TransportAddress Str)} {a : TransportAddress Str}
    (ha : a ∈ l) {v : AbsoluteTime} (hv : latestExpiration l = [v]) : TimeLE a.expiration v := by
  have htotal : Std.Total TimeLE := ⟨timeLE_total⟩
  have htrans : IsTrans AbsoluteTime TimeLE := ⟨fun _ _ _ => timeLE_trans⟩
  have hsorted := List.pairwise_insertionSort TimeLE (l.map fun a => a.expiration)
  have hmem : a.expiration ∈ (l.map fun a => a.expiration).insertionSort TimeLE :=
    (List.mem_insertionSort TimeLE).mpr (List.mem_map_of_mem ha)
  rw [latestExpiration] at hv
  -- the sorted list, read from its end
  cases hrev : ((l.map fun a => a.expiration).insertionSort TimeLE).reverse with
  | nil =>
    rw [List.reverse_eq_nil_iff.mp hrev] at hmem
    exact absurd hmem List.not_mem_nil
  | cons w ws =>
    rw [hrev] at hv
    obtain rfl : w = v := by simpa using hv
    rw [← List.pairwise_reverse, hrev, List.pairwise_cons] at hsorted
    rw [← List.mem_reverse, hrev, List.mem_cons] at hmem
    rcases hmem with hmem | hmem
    · rw [hmem]
      exact (timeLE_total w w).elim id id
    · exact hsorted.1 _ hmem

variable [DecidableEq Str]

/-- The two levels of the map are two groupings. -/
theorem transportAddressesMap_eq (l : List (TransportAddress Str)) :
    transportAddressesMap l =
      (FiniteMap.groupBy keyTransport.get l).mapValues fun g =>
        (FiniteMap.groupBy keyEncodedAddress.get g).mapValues latestExpiration := by
  rw [transportAddressesMap, levelKeys, nestedGroupBy_cons]
  congr 1
  funext g
  exact nestedGroupBy_cons _ _ _ _

/-- Every entry of the map comes from elements of the list. -/
theorem mem_transportAddressesMap {l : List (TransportAddress Str)}
    {e : Str × FiniteMap (List Elem) (List AbsoluteTime)}
    (he : e ∈ (transportAddressesMap l).entries) :
    e.2.entries ≠ [] ∧ ∀ i ∈ e.2.entries,
      ∃ a ∈ l, a.transport = e.1 ∧ a.encodedAddress = i.1 ∧ i.2 = [a.expiration] := by
  rw [transportAddressesMap_eq] at he
  obtain ⟨g, hg, hge⟩ := FiniteMap.mem_mapValues.mp he
  obtain ⟨hne, hfilter⟩ := FiniteMap.mem_groupBy keyTransport.get hg
  constructor
  · obtain ⟨a, as, rfl⟩ := List.exists_cons_of_ne_nil hne
    have hk : keyEncodedAddress.get a ∈
        (FiniteMap.groupBy keyEncodedAddress.get (a :: as)).keys :=
      (FiniteMap.mem_keys_groupBy _).mpr ⟨a, by simp, rfl⟩
    rw [← hge]
    simp only [FiniteMap.mapValues, ne_eq, List.map_eq_nil_iff]
    intro h
    rw [FiniteMap.keys, h] at hk
    cases hk
  · intro i hi
    rw [← hge] at hi
    obtain ⟨g', hg', hgi⟩ := FiniteMap.mem_mapValues.mp hi
    obtain ⟨hne', hfilter'⟩ := FiniteMap.mem_groupBy keyEncodedAddress.get hg'
    obtain ⟨a, ha, hexp⟩ := latestExpiration_eq hne'
    rw [hfilter'] at ha
    obtain ⟨hag, haddr⟩ := List.mem_filter.mp ha
    have hag' : a ∈ l.filter fun x => keyTransport.get x = e.1 := hfilter ▸ hag
    obtain ⟨hal, htrans⟩ := List.mem_filter.mp hag'
    exact ⟨a, hal, of_decide_eq_true htrans, of_decide_eq_true haddr, by rw [← hgi, hexp]⟩

/-- Every element of the list is in the map, with its expiration or a later one. -/
theorem transportAddressesMap_covers {l : List (TransportAddress Str)} {a : TransportAddress Str}
    (ha : a ∈ l) : ∃ e ∈ (transportAddressesMap l).entries, e.1 = a.transport ∧
      ∃ i ∈ e.2.entries, i.1 = a.encodedAddress ∧
        ∃ v, i.2 = [v] ∧ TimeLE a.expiration v := by
  rw [transportAddressesMap_eq]
  have hk := (FiniteMap.mem_keys_groupBy keyTransport.get).mpr ⟨a, ha, rfl⟩
  obtain ⟨e, he, hke⟩ := List.mem_map.mp hk
  have hg := (FiniteMap.mem_groupBy keyTransport.get he).2
  have hae : a ∈ e.2 := by
    rw [hg]
    exact List.mem_filter.mpr ⟨ha, by simp [hke]⟩
  obtain ⟨i, hi, hki⟩ := List.mem_map.mp
    ((FiniteMap.mem_keys_groupBy keyEncodedAddress.get).mpr ⟨a, hae, rfl⟩)
  obtain ⟨hne, hi2⟩ := FiniteMap.mem_groupBy keyEncodedAddress.get hi
  have hai : a ∈ i.2 := by
    rw [hi2]
    exact List.mem_filter.mpr ⟨hae, decide_eq_true hki.symm⟩
  obtain ⟨b, _, hb⟩ := latestExpiration_eq hne
  exact ⟨(e.1, _), FiniteMap.mem_mapValues.mpr ⟨e.2, he, rfl⟩, hke,
    (i.1, _), FiniteMap.mem_mapValues.mpr ⟨i.2, hi, rfl⟩, hki,
    b.expiration, hb, latestExpiration_max hai hb⟩

end MapOfList

end GnunetWeb
