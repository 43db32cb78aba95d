import GnunetWeb.HelloRoundTrip
import GnunetWeb.Hostlist

/-!
# Host lists that are written

A host list is written by putting the encodings of HELLO values one after the other, and read
by `parse-hostlist`.

Proved here:

* `Encodable.same_iff`: which value one message of the list comes back as;
* `many_of_written`: the message parser goes through what is written;
* `hostlist_round_trip`: each value comes back or not by itself, in its place.
-/

namespace GnunetWeb

open StateMaybe

section Written

variable {Str : Type} [DecidableEq Str] [Inhabited Str] (gcrypt : Gcrypt Str)

/-- The host list with the given values. -/
def writtenHostlist (hellos : List (Hello Str)) : Uint8Array :=
  hellos.flatMap fun hello => uint8Array (encodeHello gcrypt hello)

/-- What the encoding of a value is parsed to. -/
def readHello (h : Hello Str) : Hello Str :=
  ⟨h.friendOnly, h.publicKey,
    transportAddressesMap ((flattenTransportAddresses h.transportAddresses).map fun a =>
      (recordOf gcrypt a).value gcrypt)⟩

/-- No address of the value is a single byte. -/
def NoSingleByte (h : Hello Str) : Prop :=
  ∀ e ∈ h.transportAddresses.entries, ∀ i ∈ e.2.entries, i.1.length ≠ 1

theorem length_writtenHostlist_cons (h : Hello Str) (hellos : List (Hello Str)) :
    (writtenHostlist gcrypt (h :: hellos)).length =
      (encodeHello gcrypt h).length + (writtenHostlist gcrypt hellos).length := by
  rw [writtenHostlist, List.flatMap_cons, List.length_append, uint8Array_length, writtenHostlist]

theorem length_le_writtenHostlist (hellos : List (Hello Str)) :
    hellos.length ≤ (writtenHostlist gcrypt hellos).length := by
  induction hellos with
  | nil => exact Nat.zero_le _
  | cons h hellos ih =>
    have hlen := encodeHello_length gcrypt h
    rw [length_writtenHostlist_cons, List.length_cons]
    omega

variable {gcrypt}

omit [Inhabited Str] in
theorem parseHostlist_of_many {fuel : Nat} {s tail : Uint8Array} {ms : List (Message (Hello Str))}
    (h : Many (parseMessageTypes [parseHello gcrypt fuel]) s ms tail)
    (hf : ms.length + 2 ≤ fuel) :
    parseHostlist gcrypt fuel s = .just (ms.map fun m => m.message) tail :=
  bind_just (noneOrMore_many h hf)

/-- A value is read back exactly when none of its addresses is a single byte. -/
theorem Encodable.same_iff (hg : gcrypt.Inverse) {h : Hello Str} (he : Encodable gcrypt h) :
    (readHello gcrypt h).Same h ↔ NoSingleByte h := by
  rw [NoSingleByte, ← he.comesBack_iff hg []]
  constructor
  · intro hsame fuel hf
    exact ⟨readHello gcrypt h, parse_encodeHello gcrypt he.writable hf [], hsame⟩
  · intro hback
    obtain ⟨h', hp, hsame⟩ := hback _ (Nat.le_refl _)
    obtain ⟨hm, -⟩ := Outcome.just.inj
      ((parse_encodeHello gcrypt he.writable (Nat.le_refl _) []).symm.trans hp)
    obtain rfl : readHello gcrypt h = h' := congrArg Message.message hm
    exact hsame

/-- What is written comes before what follows it. -/
theorem many_of_written {fuel : Nat} {s tail : Uint8Array} {ms : List (Message (Hello Str))}
    (hs : Many (parseMessageTypes [parseHello gcrypt fuel]) s ms tail) {hellos : List (Hello Str)}
    (he : ∀ h ∈ hellos, Encodable gcrypt h)
    (hf : (writtenHostlist gcrypt hellos).length + 2 ≤ fuel) :
    Many (parseMessageTypes [parseHello gcrypt fuel]) (writtenHostlist gcrypt hellos ++ s)
      ((hellos.map fun h => ⟨messageTypeHello, readHello gcrypt h⟩) ++ ms) tail := by
  induction hellos with
  | nil => exact hs
  | cons h hellos ih =>
    obtain ⟨hhead, hrest⟩ := List.forall_mem_cons.mp he
    rw [length_writtenHostlist_cons] at hf
    have hmany := ih hrest (by omega)
    have hparse := parse_encodeHello gcrypt hhead.writable
      (show (encodeHello gcrypt h).length + 2 ≤ fuel by omega) (writtenHostlist gcrypt hellos ++ s)
    rw [writtenHostlist, List.flatMap_cons, List.append_assoc]
    exact .next hparse hmany

/-- **Reading a host list undoes writing it.**  Whatever bytes follow, one value is read for
each value that is written, in their order, and then those of the bytes that follow.  A value
is the same as the one written in its place exactly when none of its own addresses is a single
byte. -/
theorem hostlist_round_trip (hg : gcrypt.Inverse) {hellos : List (Hello Str)}
    (he : ∀ h ∈ hellos, Encodable gcrypt h) (s : Uint8Array) :
    ∃ (back more : List (Hello Str)) (tail : Uint8Array),
      (∀ fuel, (writtenHostlist gcrypt hellos ++ s).length + 2 ≤ fuel →
        parseHostlist gcrypt fuel s = .just more tail ∧
        parseHostlist gcrypt fuel (writtenHostlist gcrypt hellos ++ s) =
          .just (back ++ more) tail) ∧
      List.Forall₂ (fun h h' => h'.Same h ↔ NoSingleByte h) hellos back := by
  obtain ⟨bodies, tail, hgreedy⟩ := greedy_exists s
  obtain ⟨more, hmore, -⟩ := parseHostlist_of_greedy gcrypt hgreedy (Nat.le_refl _)
  have hinj : Function.Injective (List.map (some : Hello Str → Option (Hello Str))) :=
    List.map_injective_iff.mpr (Option.some_injective _)
  refine ⟨hellos.map (readHello gcrypt), more, tail, fun fuel hf => ?_, ?_⟩
  · rw [List.length_append] at hf
    obtain ⟨ms, hms, hmap⟩ := many_of_greedy gcrypt hgreedy
      (show s.length + 2 ≤ fuel by omega)
    have hvalues : ms.map (fun m => m.message) = more := by
      refine hinj ?_
      rw [← hmore, hmap, List.map_map]
      rfl
    have hfew : ms.length ≤ s.length := by
      have hlen := congrArg List.length hmap
      rw [List.length_map, List.length_map] at hlen
      exact hlen ▸ greedy_length_le hgreedy
    have hwritten := length_le_writtenHostlist gcrypt hellos
    have hmany := many_of_written hms he
      (show (writtenHostlist gcrypt hellos).length + 2 ≤ fuel by omega)
    constructor
    · rw [parseHostlist_of_many hms (by omega), hvalues]
    · rw [parseHostlist_of_many hmany ?_, List.map_append, hvalues, List.map_map]
      · rfl
      · rw [List.length_append, List.length_map]
        omega
  · rw [List.forall₂_map_right_iff]
    exact List.forall₂_same.mpr fun h hmem => (he h hmem).same_iff hg

end Written

/-- Two values, of which the second has an address of a single byte, before a byte that belongs
to no message. -/
theorem hostlist_round_trip_two : ∃ back : List (Hello String),
    parseHostlist utf8Gcrypt 1000
        (writtenHostlist utf8Gcrypt [tcpHello [1, 2], tcpHello [7]] ++ [0]) = .just back [0] ∧
      List.Forall₂ (fun h h' => h'.Same h ↔ NoSingleByte h) [tcpHello [1, 2], tcpHello [7]] back ∧
      NoSingleByte (tcpHello [1, 2]) ∧ ¬ NoSingleByte (tcpHello [7]) := by
  have he : ∀ h ∈ [tcpHello [1, 2], tcpHello [7]], Encodable utf8Gcrypt h := by
    intro h hmem
    obtain rfl | hmem := List.mem_cons.mp hmem
    · exact encodable_tcpHello (by decide)
    · rw [List.mem_singleton.mp hmem]
      exact encodable_tcpHello (by decide)
  obtain ⟨back, more, tail, hparse, hback⟩ := hostlist_round_trip utf8Gcrypt_inverse he [0]
  have hlen : (writtenHostlist utf8Gcrypt [tcpHello [1, 2], tcpHello [7]]).length = 111 := by
    rw [length_writtenHostlist_cons, length_writtenHostlist_cons, encodeHello_tcpHello_length,
      encodeHello_tcpHello_length]
    rfl
  obtain ⟨htail, hlist⟩ := hparse 1000 (by rw [List.length_append, hlen]; decide)
  obtain ⟨rfl, rfl⟩ : [] = more ∧ [0] = tail := Outcome.just.inj htail
  rw [List.append_nil] at hlist
  refine ⟨back, hlist, hback, ?_, fun h => ?_⟩
  · intro e hm i hi
    obtain rfl := List.mem_singleton.mp hm
    obtain rfl := List.mem_singleton.mp hi
    decide
  · exact h _ List.mem_cons_self _ List.mem_cons_self rfl

end GnunetWeb
