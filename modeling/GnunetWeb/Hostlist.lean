import GnunetWeb.Hello

/-!
# Host lists

`hostlist.cljs`.  A host list comes from the network: any bytes.  It is read as a
sequence of HELLO messages for as long as there is one, and each of them is
offered to the transport.

Proved here:

* `noneOrMore_recursive`: the loop of `none-or-more` and the recursive repetition are
  one parser, for every parser that the program repeats;
* `greedy_exists`, `greedy_append`: every input has a greedy decomposition into
  messages, and what follows the messages has no part in it;
* `parse_firstMessage`: the message parser takes exactly the first message off;
* `parseHostlist_offers`: parsing ends, without failing, after one offer for each
  message of the decomposition, in order.
-/

namespace GnunetWeb

open StateMaybe

/-- The value stands for the calls of `offer-hello`, in their order. -/
def parseHostlist {Str : Type} [DecidableEq Str] (gcrypt : Gcrypt Str) (fuel : Nat) :
    Parser (List (Hello Str)) := do
  let hellos ← noneOrMore fuel (parseMessageTypes [parseHello gcrypt fuel])
  parser (hellos.map fun hello => hello.message)

/-! ## Repetitions -/

/-- **Repetition is recursion.**  `noneOrMore mv` ends without failing, after the longest
run of successes of `mv`; the parsers that run `mv` and then themselves are those
that agree with it; and each parser that the program repeats can be repeated. -/
theorem noneOrMore_recursive {α : Type} {n fuel : Nat} {mv : Parser α}
    (hc : Consuming List.length n mv) (hr : Fueled n mv) (hf : n + 2 ≤ fuel) :
    (∀ s : Uint8Array, s.length ≤ n → ∃ xs s',
      noneOrMore fuel mv s = .just xs s' ∧ Many mv s xs s' ∧ mv s' = .nothing) ∧
    (∀ rep : Parser (List α), Repeats List.length n mv rep ↔
      ∀ s : Uint8Array, s.length ≤ n → rep s = noneOrMore fuel mv s) ∧
    Repeatable n (satisfy fun x => x ≠ 0) ∧
    (∀ (Str : Type) (gcrypt : Gcrypt Str), Repeatable n (parseTransportAddress gcrypt fuel)) ∧
    (∀ (β : Type) (parserSet : List (MessageParser β)),
      (∀ p ∈ parserSet, Fueled n p.parser) → Repeatable n (parseMessageTypes parserSet)) := by
  refine ⟨?_, fun rep => repeats_iff_noneOrMore ⟨hc, hr⟩ hf, repeatable_satisfy _ n,
    fun Str gcrypt => ⟨consuming_parseTransportAddress gcrypt hf,
      fueled_parseTransportAddress gcrypt hf⟩,
    fun β parserSet => repeatable_parseMessageTypes parserSet⟩
  intro s hs
  obtain ⟨xs, s', hm, -, hn⟩ := noneOrMore_ends hc hr hf s hs
  exact ⟨xs, s', hn, hm, hm.end_fails⟩

/-- The bytes of a string, up to the zero that ends it. -/
theorem noneOrMore_recursive_string :
    ∃ xs s', noneOrMore 5 (satisfy fun x => x ≠ 0) [104, 105, 0] = .just xs s' ∧
      Many (satisfy fun x => x ≠ 0) [104, 105, 0] xs s' ∧
      satisfy (fun x => x ≠ 0) s' = .nothing :=
  (noneOrMore_recursive (repeatable_satisfy _ 3).consuming (repeatable_satisfy _ 3).fueled
    (Nat.le_refl 5)).1 [104, 105, 0] (Nat.le_refl 3)

/-! ## The greedy decomposition -/

/-- The body of the first message of `s`, and what follows the message: when four
bytes are there, the 16-bit size is covered by the input, the type is 17 and the
body has at least 36 bytes. -/
def firstMessage (s : Uint8Array) : Option (Uint8Array × Uint8Array) :=
  match s with
  | a :: b :: c :: d :: u =>
    let size := 256 * a.toNat + b.toNat
    if 4 ≤ size ∧ size ≤ s.length ∧ 256 * c.toNat + d.toNat = 17 ∧ 36 ≤ size - 4 then
      some (u.take (size - 4), u.drop (size - 4))
    else none
  | _ => none

/-- `Greedy s bodies tail`: `s` is the messages with the given bodies, and `tail`
does not start with another one. -/
inductive Greedy : Uint8Array → List Uint8Array → Uint8Array → Prop
  | stop {s : Uint8Array} : firstMessage s = none → Greedy s [] s
  | next {s body t s' : Uint8Array} {bodies : List Uint8Array} :
      firstMessage s = some (body, t) → Greedy t bodies s' → Greedy s (body :: bodies) s'

theorem firstMessage_eq_some {s body t : Uint8Array} :
    firstMessage s = some (body, t) ↔
      parseHeader s = .just ⟨body.length + 4, messageTypeHello⟩ (body ++ t) ∧ 36 ≤ body.length := by
  simp only [parseHeader_eq_just, parseUint16_eq_just]
  constructor
  · intro h
    match s, h with
    | a :: b :: c :: d :: u, h =>
      simp only [firstMessage, List.length_cons] at h
      split at h
      · rename_i hc
        cases h
        have hlen : (u.take (256 * a.toNat + b.toNat - 4)).length + 4 =
            b.toNat + 256 * a.toNat := by
          rw [List.length_take]
          omega
        refine ⟨⟨c :: d :: u, ⟨a, b, rfl, hlen⟩, c, d, by rw [List.take_append_drop], ?_⟩, by omega⟩
        simp only [messageTypeHello]
        omega
      · cases h
  · rintro ⟨⟨_, ⟨a, b, rfl, hsize⟩, c, d, rfl, hty⟩, hlen⟩
    have hs : 256 * a.toNat + b.toNat - 4 = body.length := by omega
    simp only [messageTypeHello] at hty
    simp only [firstMessage, List.length_cons, List.length_append, hs]
    rw [if_pos (by omega)]
    simp

/-- The first message is read off the same way before any other bytes. -/
theorem firstMessage_append {s body t : Uint8Array} (h : firstMessage s = some (body, t)) :
    ∃ frame : Uint8Array, s = frame ++ t ∧ t.length < s.length ∧
      ∀ t', firstMessage (frame ++ t') = some (body, t') := by
  obtain ⟨hh, hlen⟩ := firstMessage_eq_some.mp h
  obtain ⟨_, h₁, h₂⟩ := parseHeader_eq_just.mp hh
  obtain ⟨a, b, rfl, hsize⟩ := parseUint16_eq_just.mp h₁
  obtain ⟨c, d, rfl, hty⟩ := parseUint16_eq_just.mp h₂
  refine ⟨a :: b :: c :: d :: body, rfl, ?_, fun t' => ?_⟩
  · simp only [List.length_cons, List.length_append]
    omega
  · refine firstMessage_eq_some.mpr ⟨parseHeader_eq_just.mpr ⟨c :: d :: (body ++ t'), ?_, ?_⟩, hlen⟩
    · exact parseUint16_eq_just.mpr ⟨a, b, rfl, hsize⟩
    · exact parseUint16_eq_just.mpr ⟨c, d, rfl, hty⟩

theorem greedy_exists (s : Uint8Array) : ∃ bodies tail, Greedy s bodies tail := by
  induction hn : s.length using Nat.strongRecOn generalizing s with
  | ind n ih =>
    cases hm : firstMessage s with
    | none => exact ⟨[], s, .stop hm⟩
    | some m =>
      obtain ⟨body, t⟩ := m
      obtain ⟨_, _, hlt, _⟩ := firstMessage_append hm
      obtain ⟨bodies, tail, hg⟩ := ih t.length (by omega) t rfl
      exact ⟨body :: bodies, tail, .next hm hg⟩

/-- Whatever follows the messages, they are the first messages. -/
theorem greedy_append {s tail : Uint8Array} {bodies : List Uint8Array}
    (h : Greedy s bodies tail) :
    ∃ framed : Uint8Array, s = framed ++ tail ∧
      ∀ tail' bodies' rest, Greedy tail' bodies' rest →
        Greedy (framed ++ tail') (bodies ++ bodies') rest := by
  induction h with
  | stop _ => exact ⟨[], rfl, fun _ _ _ h => h⟩
  | next hm _ ih =>
    obtain ⟨frame, rfl, _, hframe⟩ := firstMessage_append hm
    obtain ⟨framed, rfl, hrest⟩ := ih
    refine ⟨frame ++ framed, by simp, fun tail' bodies' rest hg => ?_⟩
    rw [List.append_assoc]
    exact .next (hframe _) (hrest tail' bodies' rest hg)

/-! ## The parser follows the decomposition -/

section Offers

variable {Str : Type} [DecidableEq Str] (gcrypt : Gcrypt Str)

/-- The HELLO of a message body. -/
def bodyHello (body : Uint8Array) : Option (Hello Str) :=
  match (parseHello gcrypt (body.length + 2)).parser body with
  | .just h _ => some h
  | _ => none

/-- More fuel than the body needs makes no difference. -/
theorem bodyHello_eq_some {fuel : Nat} {body v : Uint8Array} {h : Hello Str}
    (hf : body.length + 2 ≤ fuel) (hp : (parseHello gcrypt fuel).parser body = .just h v) :
    bodyHello gcrypt body = some h := by
  have hb := (parseHello_eq_just gcrypt (Nat.le_refl _)).mpr ((parseHello_eq_just gcrypt hf).mp hp)
  rw [bodyHello, hb]

/-- **One message.**  The message parser fails where no message starts, and takes
the first message off where one does. -/
theorem parse_firstMessage {fuel : Nat} {s : Uint8Array} (hf : s.length + 2 ≤ fuel) :
    match firstMessage s with
    | none => parseMessageTypes [parseHello gcrypt fuel] s = .nothing
    | some (body, t) => ∃ h, bodyHello gcrypt body = some h ∧
        parseMessageTypes [parseHello gcrypt fuel] s = .just ⟨messageTypeHello, h⟩ t := by
  cases hm : firstMessage s with
  | none =>
    cases hp : parseMessageTypes [parseHello gcrypt fuel] s with
    | nothing => rfl
    | running =>
      refine absurd hp (fueled_parseMessageTypes _ (fun p hpm => ?_) s (Nat.le_refl _))
      obtain rfl := List.mem_singleton.mp hpm
      exact fueled_parseHello gcrypt hf
    | just m t =>
      obtain ⟨size, u, body, p, v, hh, hset, hlen, rfl, hm'⟩ := (parseMessageTypes_eq_just _).mp hp
      obtain rfl : p = parseHello gcrypt fuel := by simpa using List.mem_of_find?_eq_some hset
      have hty : m.messageType = messageTypeHello := parserFor_messageType hset
      have hbody := parseHeader_length hh
      rw [List.length_append] at hbody
      have h36 := (parseHello_succeeds_iff gcrypt (by omega)).mp ⟨_, _, hm'⟩
      rw [← hlen, hty] at hh
      rw [firstMessage_eq_some.mpr ⟨hh, h36⟩] at hm
      cases hm
  | some m =>
    obtain ⟨body, t⟩ := m
    obtain ⟨hh, h36⟩ := firstMessage_eq_some.mp hm
    have hbody := parseHeader_length hh
    rw [List.length_append] at hbody
    have hfuel : body.length + 2 ≤ fuel := by omega
    obtain ⟨h, v, hp⟩ := (parseHello_succeeds_iff gcrypt hfuel).mpr h36
    exact ⟨h, bodyHello_eq_some gcrypt hfuel hp, (parseMessageTypes_eq_just _).mpr
      ⟨_, _, body, parseHello gcrypt fuel, v, hh, rfl, rfl, rfl, hp⟩⟩

/-- Repeating the message parser goes through the decomposition. -/
theorem many_of_greedy {fuel : Nat} {s tail : Uint8Array} {bodies : List Uint8Array}
    (h : Greedy s bodies tail) (hf : s.length + 2 ≤ fuel) :
    ∃ ms : List (Message (Hello Str)), Many (parseMessageTypes [parseHello gcrypt fuel]) s ms tail ∧
      bodies.map (bodyHello gcrypt) = ms.map fun m => some m.message := by
  induction h with
  | stop hm =>
    have hp := parse_firstMessage gcrypt hf
    rw [hm] at hp
    exact ⟨[], .done hp, rfl⟩
  | next hm _ ih =>
    have hp := parse_firstMessage gcrypt hf
    rw [hm] at hp
    obtain ⟨hello, hb, hp⟩ := hp
    obtain ⟨_, _, hlt, _⟩ := firstMessage_append hm
    obtain ⟨ms, hms, hmap⟩ := ih (by omega)
    exact ⟨⟨messageTypeHello, hello⟩ :: ms, .next hp hms, by simp [hb, hmap]⟩

theorem greedy_length_le {s tail : Uint8Array} {bodies : List Uint8Array}
    (h : Greedy s bodies tail) : bodies.length ≤ s.length := by
  induction h with
  | stop _ => simp
  | next hm _ ih =>
    obtain ⟨_, _, hlt, _⟩ := firstMessage_append hm
    simp only [List.length_cons]
    omega

/-- Parsing offers the HELLO of each body of the decomposition. -/
theorem parseHostlist_of_greedy {fuel : Nat} {s tail : Uint8Array} {bodies : List Uint8Array}
    (h : Greedy s bodies tail) (hf : s.length + 2 ≤ fuel) :
    ∃ hellos : List (Hello Str), bodies.map (bodyHello gcrypt) = hellos.map some ∧
      parseHostlist gcrypt fuel s = .just hellos tail := by
  obtain ⟨ms, hms, hmap⟩ := many_of_greedy gcrypt h hf
  have hlen := congrArg List.length hmap
  simp only [List.length_map] at hlen
  have hle := greedy_length_le h
  refine ⟨ms.map fun m => m.message, by rw [hmap, List.map_map]; rfl, ?_⟩
  exact bind_just (noneOrMore_many hms (by omega))

/-- **Every host list is parsed to its end**: one offer for each message of the
greedy decomposition, in order, each made from the body of its own message.
Whatever bytes replace the tail, the same offers are made first, and then those of
the new tail. -/
theorem parseHostlist_offers (s : Uint8Array) :
    ∃ (bodies : List Uint8Array) (framed tail : Uint8Array) (hellos : List (Hello Str)),
      s = framed ++ tail ∧ Greedy s bodies tail ∧
      bodies.map (bodyHello gcrypt) = hellos.map some ∧
      (∀ fuel, s.length + 2 ≤ fuel → parseHostlist gcrypt fuel s = .just hellos tail) ∧
      ∀ (tail' : Uint8Array) (fuel : Nat), (framed ++ tail').length + 2 ≤ fuel →
        ∃ (more : List (Hello Str)) (rest : Uint8Array),
          parseHostlist gcrypt fuel tail' = .just more rest ∧
          parseHostlist gcrypt fuel (framed ++ tail') = .just (hellos ++ more) rest := by
  obtain ⟨bodies, tail, hg⟩ := greedy_exists s
  obtain ⟨framed, hs, happend⟩ := greedy_append hg
  obtain ⟨hellos, hmap, _⟩ := parseHostlist_of_greedy gcrypt hg (Nat.le_refl _)
  have hinj : Function.Injective (List.map (some : Hello Str → Option (Hello Str))) :=
    List.map_injective_iff.mpr (Option.some_injective _)
  refine ⟨bodies, framed, tail, hellos, hs, hg, hmap, fun fuel hf => ?_, fun tail' fuel hf => ?_⟩
  · obtain ⟨hellos', hmap', hp⟩ := parseHostlist_of_greedy gcrypt hg hf
    rwa [hinj (hmap.symm.trans hmap')]
  · obtain ⟨bodies', rest, hg'⟩ := greedy_exists tail'
    have hf' : tail'.length + 2 ≤ fuel := by
      rw [List.length_append] at hf
      omega
    obtain ⟨more, hmore, hp⟩ := parseHostlist_of_greedy gcrypt hg' hf'
    obtain ⟨all, hall, hpall⟩ := parseHostlist_of_greedy gcrypt (happend tail' _ _ hg') hf
    rw [List.map_append, hmap, hmore, ← List.map_append] at hall
    exact ⟨more, rest, hp, by rw [hpall, hinj hall]⟩

end Offers

end GnunetWeb
