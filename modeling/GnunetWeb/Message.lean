import GnunetWeb.Encoder

/-!
# Message framing

`message.cljs`.  A message is a 16-bit size, which counts the header, a 16-bit
type and a body.  `parseMessageTypes_eq_just` says when the framing parser
succeeds: the body parser sees exactly the body, and whatever it leaves behind
is dropped; `parseMessageTypes_isolates` says so byte by byte.
-/

namespace GnunetWeb

open StateMaybe

/-- An item of a ClojureScript vector made from a JavaScript array: a byte, or
`undefined`. -/
abbrev Elem := Option UInt8

/-- `(vec (.apply js/Array nil xs))`.  The constructor takes its arguments as the
items, but a single number as the length of an array without items. -/
def vecApplyArray : Uint8Array → List Elem
  | [n] => List.replicate n.toNat none
  | xs => xs.map some

/-- Storing items in a typed array; `undefined` is stored as zero. -/
def uint8Array (xs : List Elem) : Uint8Array := xs.map fun x => x.getD 0

/-- A parser with its `:message-type` metadata. -/
structure MessageParser (α : Type) where
  messageType : Nat
  parser : Parser α

structure Header where
  size : Nat
  messageType : Nat

structure Message (α : Type) where
  messageType : Nat
  message : α

def parseHeader : Parser Header := do
  let size ← parseUint16
  let messageType ← parseUint16
  parser { size, messageType }

/-- The parser for the specific set of message parsers given.  It does not fail
if the message-type specific parser does not consume the entire input. -/
def parseMessageTypes {α : Type} (parserSet : List (MessageParser α)) : Parser (Message α) := do
  let header ← parseHeader
  let p := parserSet.find? fun p => header.messageType = p.messageType
  match p with
  | none => zero
  | some p =>
    let newState ← items (header.size - 4)
    let oldState ← setState newState
    let message ← p.parser
    let _ ← setState oldState
    parser { messageType := header.messageType, message }

def encodeMessage (m : Message (List Elem)) : List Elem :=
  (encodeUint16 (4 + m.message.length)).map some ++
    (encodeUint16 m.messageType).map some ++ m.message

def parsePeerIdentity : Parser (List Elem) := do
  let peerIdentity ← items 32
  parser (vecApplyArray peerIdentity)

/-! ## Vectors made by the array constructor -/

theorem vecApplyArray_of_length_ne_one {xs : Uint8Array} (h : xs.length ≠ 1) :
    vecApplyArray xs = xs.map some := by
  match xs, h with
  | [], _ => rfl
  | [_], h => exact absurd rfl h
  | _ :: _ :: _, _ => rfl

/-- No vector with a single byte comes out of the constructor. -/
theorem vecApplyArray_ne_singleton (xs : Uint8Array) (b : UInt8) :
    vecApplyArray xs ≠ [some b] := by
  match xs with
  | [] => exact List.cons_ne_nil _ _ ∘ Eq.symm
  | [n] =>
    intro h
    have hm : some b ∈ vecApplyArray [n] := by rw [h]; simp
    exact absurd (List.eq_of_mem_replicate hm) (by simp)
  | _ :: _ :: _ =>
    intro h
    simpa [vecApplyArray] using congrArg List.length h

/-- An `undefined` item comes only from a single non-zero byte. -/
theorem none_mem_vecApplyArray {xs : Uint8Array} :
    none ∈ vecApplyArray xs ↔ ∃ n : UInt8, xs = [n] ∧ n ≠ 0 := by
  match xs with
  | [] => simp [vecApplyArray]
  | [n] =>
    have hn : n.toNat ≠ 0 ↔ n ≠ 0 := by
      rw [Ne, Ne, ← UInt8.toNat_inj]
      rfl
    simp [vecApplyArray, hn]
  | _ :: _ :: _ => simp [vecApplyArray]

@[simp] theorem uint8Array_cons (x : Elem) (xs : List Elem) :
    uint8Array (x :: xs) = x.getD 0 :: uint8Array xs := rfl

@[simp] theorem uint8Array_append (xs ys : List Elem) :
    uint8Array (xs ++ ys) = uint8Array xs ++ uint8Array ys := by
  simp [uint8Array]

@[simp] theorem uint8Array_some (xs : Uint8Array) : uint8Array (xs.map some) = xs := by
  simp [uint8Array, Function.comp_def]

@[simp] theorem uint8Array_length (xs : List Elem) : (uint8Array xs).length = xs.length := by
  simp [uint8Array]

theorem encodeMessage_length (m : Message (List Elem)) :
    (encodeMessage m).length = 4 + m.message.length := by
  simp [encodeMessage, encodeUint16_length]
  omega

/-! ## Framing -/

/-- `parseHeader` reads two 16-bit integers. -/
theorem parseHeader_eq_just {s t : Uint8Array} {h : Header} :
    parseHeader s = .just h t ↔
      ∃ u, parseUint16 s = .just h.size u ∧ parseUint16 u = .just h.messageType t := by
  obtain ⟨size, messageType⟩ := h
  simp only [parseHeader, bind_eq_just, parser, pure_apply, Outcome.just.injEq, Header.mk.injEq]
  constructor
  · rintro ⟨_, u, h₁, _, _, h₂, ⟨rfl, rfl⟩, rfl⟩
    exact ⟨u, h₁, h₂⟩
  · rintro ⟨u, h₁, h₂⟩
    exact ⟨size, u, h₁, messageType, t, h₂, ⟨rfl, rfl⟩, rfl⟩

/-- The size field of a message, as the first two bytes give it. -/
def sizeField (s : Uint8Array) : Nat := networkValue (s.take 2)

/-- The type field, in the next two bytes. -/
def typeField (s : Uint8Array) : Nat := networkValue ((s.drop 2).take 2)

theorem networkValue_pair (a b : UInt8) : networkValue [a, b] = b.toNat + 256 * a.toNat := by
  simp only [networkValue, List.reverse_cons, List.reverse_nil, List.nil_append,
    List.cons_append, List.map_cons, List.map_nil, Nat.ofDigits_cons, Nat.ofDigits_nil]
  omega

theorem parseHeader_apply (s : Uint8Array) :
    parseHeader s =
      if 4 ≤ s.length then .just ⟨sizeField s, typeField s⟩ (s.drop 4) else .nothing := by
  split
  · rename_i hs
    match s, hs with
    | a :: b :: c :: d :: u, _ =>
      refine parseHeader_eq_just.mpr ⟨c :: d :: u, ?_, ?_⟩
      · exact parseUint16_eq_just.mpr ⟨a, b, rfl, networkValue_pair a b⟩
      · exact parseUint16_eq_just.mpr ⟨c, d, rfl, networkValue_pair c d⟩
  · rename_i hs
    by_cases h2 : s.length < 2
    · exact bind_nothing (fixedWidth_uint16.short s h2)
    · obtain ⟨size, h, -⟩ := fixedWidth_uint16.encode_parse s (by omega)
      rw [parseHeader, bind_just h]
      exact bind_nothing (fixedWidth_uint16.short _ (by rw [List.length_drop]; omega))

theorem parseHeader_length {s t : Uint8Array} {h : Header} (hh : parseHeader s = .just h t) :
    s.length = t.length + 4 := by
  obtain ⟨u, h₁, h₂⟩ := parseHeader_eq_just.mp hh
  rw [parseUint16_length h₁, parseUint16_length h₂]

section ParserSet

variable {α : Type} (parserSet : List (MessageParser α))

/-- The parser of the set for a message type. -/
def parserFor (messageType : Nat) : Option (MessageParser α) :=
  parserSet.find? fun p => messageType = p.messageType

theorem parserFor_messageType {parserSet : List (MessageParser α)} {messageType : Nat}
    {p : MessageParser α} (h : parserFor parserSet messageType = some p) :
    messageType = p.messageType := by
  simpa using List.find?_some (h : parserSet.find? (fun p => messageType = p.messageType) = _)

/-- The body of the message at the front of `s`. -/
def bodyField (s : Uint8Array) : Uint8Array := (s.take (sizeField s)).drop 4

theorem bodyField_eq (s : Uint8Array) : bodyField s = (s.drop 4).take (sizeField s - 4) := by
  rw [bodyField, List.drop_take]

theorem drop_sizeField {s : Uint8Array} (h : 4 ≤ sizeField s) :
    s.drop (sizeField s) = (s.drop 4).drop (sizeField s - 4) := by
  rw [List.drop_drop, Nat.add_sub_cancel' h]

/-- What the framing parser does to any input. -/
theorem parseMessageTypes_apply (s : Uint8Array) :
    parseMessageTypes parserSet s =
      if 4 ≤ s.length ∧ 4 ≤ sizeField s ∧ sizeField s ≤ s.length then
        match parserFor parserSet (typeField s) with
        | none => .nothing
        | some p => (p.parser (bodyField s)).leaving (fun a => ⟨typeField s, a⟩)
            (s.drop (sizeField s))
      else .nothing := by
  have hh := parseHeader_apply s
  by_cases h4 : 4 ≤ s.length
  · rw [if_pos h4] at hh
    rw [parseMessageTypes, bind_just hh]
    change (match parserFor parserSet (typeField s) with
      | none => zero
      | some p => _) (s.drop 4) = _
    cases parserFor parserSet (typeField s) with
    | none => simp
    | some p =>
      have hi := items_apply ((sizeField s : Int) - 4) (s.drop 4)
      by_cases hs : 4 ≤ sizeField s ∧ sizeField s ≤ s.length
      · rw [if_pos (by rw [List.length_drop]; omega)] at hi
        rw [if_pos ⟨h4, hs⟩]
        have hn : ((sizeField s : Int) - 4).toNat = sizeField s - 4 := by omega
        rw [hn, ← bodyField_eq, ← drop_sizeField hs.1] at hi
        simp only
        rw [bind_just hi, bind_just (setState_apply _ _), bind_apply]
        cases p.parser (bodyField s) with
        | nothing => rfl
        | just a v => rfl
        | running => rfl
      · rw [if_neg (by rw [List.length_drop]; omega)] at hi
        rw [if_neg (by omega)]
        simp only
        exact bind_nothing hi
  · rw [if_neg h4] at hh
    rw [if_neg (fun h => h4 h.1), parseMessageTypes]
    exact bind_nothing hh

/-- When the framing parser succeeds, by the fields of the input. -/
theorem parseMessageTypes_fields {s t : Uint8Array} {m : Message α} :
    parseMessageTypes parserSet s = .just m t ↔
      (4 ≤ s.length ∧ 4 ≤ sizeField s ∧ sizeField s ≤ s.length) ∧
      t = s.drop (sizeField s) ∧ m.messageType = typeField s ∧
      ∃ p v, parserFor parserSet (typeField s) = some p ∧
        p.parser (bodyField s) = .just m.message v := by
  obtain ⟨messageType, message⟩ := m
  rw [parseMessageTypes_apply]
  constructor
  · intro h
    split at h
    · rename_i hs
      refine ⟨hs, ?_⟩
      cases hp : parserFor parserSet (typeField s) with
      | none => rw [hp] at h; cases h
      | some p =>
        rw [hp] at h
        obtain ⟨a, v, ha, hm, ht⟩ := Outcome.leaving_eq_just.mp h
        cases hm
        exact ⟨ht.symm, rfl, p, v, rfl, ha⟩
    · cases h
  · rintro ⟨hs, rfl, hm, p, v, hp, hv⟩
    cases hm
    rw [if_pos hs, hp]
    exact Outcome.leaving_eq_just.mpr ⟨message, v, hv, rfl, rfl⟩

/-- **Framing.**  The parser succeeds when the size covers a body that is present
in full, the set has a parser for the type, and that parser succeeds on the body
alone; it leaves what follows the body. -/
theorem parseMessageTypes_eq_just {s t : Uint8Array} {m : Message α} :
    parseMessageTypes parserSet s = .just m t ↔
      ∃ (size : Nat) (u body : Uint8Array) (p : MessageParser α) (v : Uint8Array),
        parseHeader s = .just ⟨size, m.messageType⟩ u ∧
        parserFor parserSet m.messageType = some p ∧
        body.length + 4 = size ∧ u = body ++ t ∧ p.parser body = .just m.message v := by
  obtain ⟨messageType, message⟩ := m
  rw [parseMessageTypes_fields, parseHeader_apply]
  constructor
  · rintro ⟨⟨h4, hmin, hmax⟩, rfl, hm, p, v, hp, hv⟩
    cases hm
    refine ⟨sizeField s, s.drop 4, bodyField s, p, v, if_pos h4, hp, ?_, ?_, hv⟩
    · rw [bodyField, List.length_drop, List.length_take]
      omega
    · rw [bodyField_eq, drop_sizeField hmin, List.take_append_drop]
  · rintro ⟨size, u, body, p, v, hh, hp, hlen, hu, hv⟩
    split at hh
    · rename_i h4
      cases hh
      have hsize : sizeField s - 4 = body.length := by omega
      have hall := congrArg List.length hu
      rw [List.length_drop, List.length_append] at hall
      refine ⟨⟨h4, by omega, by omega⟩, ?_, rfl, p, v, hp, ?_⟩
      · rw [drop_sizeField (by omega), hu, hsize, List.drop_left]
      · rwa [bodyField_eq, hu, hsize, List.take_left]
    · cases hh

/-- The framing parser runs out of fuel only in a body parser. -/
theorem fueled_parseMessageTypes {n : Nat} (hp : ∀ p ∈ parserSet, Fueled n p.parser) :
    Fueled n (parseMessageTypes parserSet) := by
  intro s hs h
  rw [parseMessageTypes_apply] at h
  split at h
  · cases hf : parserFor parserSet (typeField s) with
    | none => rw [hf] at h; cases h
    | some p =>
      rw [hf] at h
      have hbody : (bodyField s).length ≤ n := by
        rw [bodyField, List.length_drop, List.length_take]
        omega
      exact hp p (List.mem_of_find?_eq_some hf) _ hbody (Outcome.leaving_eq_running.mp h)
  · cases h

theorem repeatable_parseMessageTypes {n : Nat} (hp : ∀ p ∈ parserSet, Fueled n p.parser) :
    Repeatable n (parseMessageTypes parserSet) where
  consuming := by
    intro s m t _ h
    obtain ⟨size, u, body, p, v, hh, -, -, rfl, -⟩ := (parseMessageTypes_eq_just parserSet).mp h
    have hlen := parseHeader_length hh
    rw [List.length_append] at hlen
    omega
  fueled := fueled_parseMessageTypes parserSet hp

/-- The header of an encoded message counts the bytes of the message. -/
theorem parseHeader_encodeMessage {m : Message (List Elem)} {r : Uint8Array}
    (hty : m.messageType < 65536) (hlen : (encodeMessage m).length < 65536) :
    parseHeader (uint8Array (encodeMessage m) ++ r) =
      .just ⟨(encodeMessage m).length, m.messageType⟩ (uint8Array m.message ++ r) := by
  rw [encodeMessage_length] at hlen ⊢
  refine parseHeader_eq_just.mpr
    ⟨encodeUint16 m.messageType ++ (uint8Array m.message ++ r), ?_, parseUint16_encode hty _⟩
  simp only [encodeMessage, uint8Array_append, uint8Array_some, List.append_assoc]
  exact_mod_cast parseUint16_encode hlen _

/-- An encoded message comes back as the value its body parses to. -/
theorem parseMessageTypes_encode {messageType : Nat} {message : List Elem} {p : MessageParser α}
    {value : α} {v : Uint8Array} (hty : messageType < 65536)
    (hlen : 4 + message.length < 65536) (hp : parserFor parserSet messageType = some p)
    (hm : p.parser (uint8Array message) = .just value v) (r : Uint8Array) :
    parseMessageTypes parserSet (uint8Array (encodeMessage ⟨messageType, message⟩) ++ r) =
      .just ⟨messageType, value⟩ r := by
  refine (parseMessageTypes_eq_just parserSet).mpr
    ⟨(encodeMessage ⟨messageType, message⟩).length, uint8Array message ++ r, uint8Array message,
      p, v, parseHeader_encodeMessage hty (by rwa [encodeMessage_length]), hp, ?_, rfl, hm⟩
  rw [uint8Array_length, encodeMessage_length, Nat.add_comm]

/-- With pairwise distinct types, the parser for a type is the one of the set that
has it. -/
theorem parserFor_eq_some {parserSet : List (MessageParser α)}
    (hd : parserSet.Pairwise fun p q => p.messageType ≠ q.messageType) {messageType : Nat}
    {p : MessageParser α} :
    parserFor parserSet messageType = some p ↔ p ∈ parserSet ∧ p.messageType = messageType := by
  constructor
  · intro h
    exact ⟨List.mem_of_find?_eq_some h, (parserFor_messageType h).symm⟩
  · rintro ⟨hp, rfl⟩
    induction parserSet with
    | nil => cases hp
    | cons q rest ih =>
      obtain ⟨hq, hrest⟩ := List.pairwise_cons.mp hd
      rcases List.mem_cons.mp hp with rfl | hp
      · simp [parserFor]
      · have hne : p.messageType ≠ q.messageType := (hq p hp).symm
        simpa [parserFor, hne] using ih hrest hp

theorem typeField_take {s : Uint8Array} {n : Nat} (h : 4 ≤ n) :
    typeField (s.take n) = typeField s := by
  rw [typeField, List.drop_take, List.take_take, Nat.min_eq_left (by omega)]
  rfl

/-- The outcome of framing is decided by the bytes that the size field counts. -/
theorem parseMessageTypes_prefix {s s' : Uint8Array} (hsize : sizeField s = sizeField s')
    (htake : s.take (sizeField s) = s'.take (sizeField s)) :
    (parseMessageTypes parserSet s).leaving id () =
      (parseMessageTypes parserSet s').leaving id () := by
  have hbody : bodyField s = bodyField s' := by rw [bodyField, bodyField, htake, hsize]
  have hlen := congrArg List.length htake
  rw [List.length_take, List.length_take] at hlen
  by_cases hs : 4 ≤ s.length ∧ 4 ≤ sizeField s ∧ sizeField s ≤ s.length
  · have hty : typeField s = typeField s' := by
      rw [← typeField_take hs.2.1, htake, typeField_take hs.2.1]
    have hs' : 4 ≤ s'.length ∧ 4 ≤ sizeField s' ∧ sizeField s' ≤ s'.length := by omega
    rw [parseMessageTypes_apply, parseMessageTypes_apply, if_pos hs, if_pos hs', ← hbody, ← hty]
    cases parserFor parserSet (typeField s) with
    | none => rfl
    | some p =>
      simp only
      cases p.parser (bodyField s) with
      | nothing => rfl
      | just a t => rfl
      | running => rfl
  · have hs' : ¬(4 ≤ s'.length ∧ 4 ≤ sizeField s' ∧ sizeField s' ≤ s'.length) := by omega
    rw [parseMessageTypes_apply, parseMessageTypes_apply, if_neg hs, if_neg hs']

/-- **Framing isolates the body parsers**, whatever they do: a message is read when its
size field covers the header and is covered by the input, and the parser of the set
for its type succeeds on the body alone; exactly that many bytes are taken off, and
no other byte decides what comes out. -/
theorem parseMessageTypes_isolates
    (hd : parserSet.Pairwise fun p q => p.messageType ≠ q.messageType) :
    (∀ (s t : Uint8Array) (m : Message α),
      parseMessageTypes parserSet s = .just m t ↔
        4 ≤ s.length ∧ 4 ≤ sizeField s ∧ sizeField s ≤ s.length ∧
        t = s.drop (sizeField s) ∧ m.messageType = typeField s ∧
        ∃ p ∈ parserSet, p.messageType = typeField s ∧
          ∃ v, p.parser ((s.take (sizeField s)).drop 4) = .just m.message v) ∧
    (∀ s s' : Uint8Array, sizeField s = sizeField s' →
      s.take (sizeField s) = s'.take (sizeField s) →
        (parseMessageTypes parserSet s).leaving id () =
          (parseMessageTypes parserSet s').leaving id ()) := by
  refine ⟨?_, fun s s' => parseMessageTypes_prefix parserSet⟩
  rintro s t m
  rw [parseMessageTypes_fields]
  constructor
  · rintro ⟨⟨h4, hmin, hmax⟩, ht, hm, p, v, hp, hv⟩
    obtain ⟨hmem, hty⟩ := (parserFor_eq_some hd).mp hp
    exact ⟨h4, hmin, hmax, ht, hm, p, hmem, hty, v, hv⟩
  · rintro ⟨h4, hmin, hmax, ht, hm, p, hmem, hty, v, hv⟩
    exact ⟨⟨h4, hmin, hmax⟩, ht, hm, p, v, (parserFor_eq_some hd).mpr ⟨hmem, hty⟩, hv⟩

end ParserSet

/-- A message of six bytes whose body parser takes one byte of the two: the byte that
it leaves is dropped with the message. -/
theorem parseMessageTypes_isolates_six :
    parseMessageTypes [⟨17, items 1⟩] [0, 6, 0, 17, 9, 8, 7] = .just ⟨17, [9]⟩ [7] := by
  have hsize : sizeField [0, 6, 0, 17, 9, 8, 7] = 6 := networkValue_pair 0 6
  have htype : typeField [0, 6, 0, 17, 9, 8, 7] = 17 := networkValue_pair 0 17
  refine ((parseMessageTypes_isolates [⟨17, items 1⟩] (List.pairwise_singleton _ _)).1
    _ _ _).mpr ?_
  rw [hsize, htype]
  exact ⟨by decide, by decide, by decide, rfl, rfl, _, List.mem_singleton.mpr rfl, rfl, [8], rfl⟩

end GnunetWeb
