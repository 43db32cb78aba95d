import GnunetWeb.CCall
import GnunetWeb.HelloRoundTrip
import GnunetWeb.Hostlist

/-!
# Offering a host list

`fetch-and-process!` of `hostlist.cljs` from the bytes on: `parse-hostlist` reads them, and each
HELLO is encoded again and given to `GNUNET_TRANSPORT_offer_hello` by `offer-hello` of
`transport.cljs`, as an array in the memory of the C code.

Proved here:

* `offerHello_given`: what one call is given;
* `Faithful.back`: a message that says the same after being read and encoded;
* `hostlist_offered`: what the C code is given for a whole host list.
-/

namespace GnunetWeb.Offers

open CCall StackBlocks StateMaybe

variable {Str : Type} [DecidableEq Str] [Inhabited Str] (gcrypt : Gcrypt Str) (js : Runtime)

/-- `(into-array (encode-hello hello))`; `undefined` is stored as zero. -/
def helloArray (hello : Hello Str) : List Int :=
  (uint8Array (encodeHello gcrypt hello)).map fun b => (b.toNat : Int)

def offerHello (offer : Func) (hello : Hello Str) (m : Machine) : Returned × Machine :=
  js.ccallFunc offer .number
    [.number 0, .array (helloArray gcrypt hello), .number 0, .number 0] m

/-- `fetch-and-process!` when the host list has come. -/
def fetchAndProcess (offer : Func) (fuel : Nat) (buf : Uint8Array) (m : Machine) :
    Option Machine :=
  match parseHostlist gcrypt fuel buf with
  | .just hellos _ => some (hellos.foldl (fun m hello => (offerHello gcrypt js offer hello m).2) m)
  | _ => none

/-! ## One call -/

def messageAt (heap8 : Heap8) (ptr : Ptr) (size : Nat) : Uint8Array :=
  (bytesAt heap8 ptr size).map Int8.toUInt8

theorem toUInt8_ofInt (b : UInt8) : (Int8.ofInt b.toNat).toUInt8 = b := by
  rw [Int8.ofInt_eq_ofNat, Int8.toUInt8_ofNat', UInt8.ofNat_toNat]

/-- **What one call is given**: a pointer to the bytes of the HELLO. -/
theorem offerHello_given (hello : Hello Str) {m : Machine} (hm : m.sp ≠ 0)
    (hroom : js.stack.cost (encodeHello gcrypt hello).length ≤ js.stack.room m.sp) :
    ∃ (ptr : Ptr) (m' : Machine),
      messageAt m'.heap8 ptr (encodeHello gcrypt hello).length =
        uint8Array (encodeHello gcrypt hello) ∧
      (∀ a ∈ js.stack.inUse m.sp, m'.heap8 a = m.heap8 a) ∧
      ∀ offer : Func, offer.Balanced → (offerHello gcrypt js offer hello m).2 =
        { (offer [0, ptr, 0, 0] m').2 with sp := m.sp } := by
  have hlen : (helloArray gcrypt hello).length = (encodeHello gcrypt hello).length := by
    rw [helloArray, List.length_map, uint8Array_length]
  obtain ⟨passed, m', hpassed, hlive, hcall⟩ := ccallFunc_passes js hm
    (show (([.number 0, .array (helloArray gcrypt hello), .number 0, .number 0] : List Arg).map
      js.cost).sum ≤ js.stack.room m.sp by
        rw [← hlen] at hroom
        simpa [Runtime.cost] using hroom)
  obtain ⟨⟨_, _⟩, _, h₁, hrest₁, rfl⟩ := List.forall₂_cons_left_iff.mp hpassed
  obtain ⟨⟨_, _⟩, _, h₂, hrest₂, rfl⟩ := List.forall₂_cons_left_iff.mp hrest₁
  obtain ⟨⟨_, _⟩, _, h₃, hrest₃, rfl⟩ := List.forall₂_cons_left_iff.mp hrest₂
  obtain ⟨⟨_, _⟩, _, h₄, hrest₄, rfl⟩ := List.forall₂_cons_left_iff.mp hrest₃
  cases hrest₄
  cases h₁
  cases h₃
  cases h₄
  cases h₂ with
  | @array _ ptr =>
    refine ⟨ptr, m', ?_, hlive.frame, fun offer hoffer => ?_⟩
    · have hheld : bytesAt m'.heap8 ptr ((helloArray gcrypt hello).map Int8.ofInt).length =
          (helloArray gcrypt hello).map Int8.ofInt := hlive.held ⟨ptr, _⟩ List.mem_cons_self
      rw [List.length_map, hlen] at hheld
      rw [messageAt, hheld, helloArray, List.map_map, List.map_map]
      exact (List.map_congr_left fun b _ => toUInt8_ofInt b).trans (List.map_id _)
    · rw [offerHello, hcall offer .number hoffer]
      rfl

/-! ## One message -/

/-- The body of a message whose addresses can be written again: the names are UTF-8, and no
address is a single byte other than zero. -/
def Faithful (body : Uint8Array) : Prop :=
  ∃ (friendOnly : Nat) (key tail : Uint8Array) (rs : List AddressRecord),
    friendOnly < 2 ^ 32 ∧ key.length = 32 ∧ (∀ r ∈ rs, r.Valid) ∧ RecordFree tail ∧
    body = encodeUint32 friendOnly ++ key ++ rs.flatMap AddressRecord.bytes ++ tail ∧
    ∀ r ∈ rs, ValidUtf8 r.name ∧ ∀ b, r.address = [b] → b = 0

def Says (bytes : Uint8Array) (hello : Hello Str) : Prop :=
  ∀ fuel, bytes.length + 2 ≤ fuel → ∃ hello',
    parseMessageTypes [parseHello gcrypt fuel] bytes = .just ⟨messageTypeHello, hello'⟩ [] ∧
      hello'.Same hello

variable {gcrypt}

/-- **A message says the same** after it has been read and encoded, and is not longer. -/
theorem Faithful.back (hg : gcrypt.Inverse) {s body t : Uint8Array} (h : Faithful body)
    (hfirst : firstMessage s = some (body, t)) : ∃ hello, bodyHello gcrypt body = some hello ∧
      (encodeHello gcrypt hello).length ≤ body.length + 4 ∧ body.length + 4 < 65536 ∧
      Says gcrypt (uint8Array (encodeHello gcrypt hello)) hello := by
  obtain ⟨friendOnly, key, tail, rs, hfriend, hkey, hvalid, hfree, hbody, hgood⟩ := h
  obtain ⟨hheader, -⟩ := firstMessage_eq_some.mp hfirst
  have hlen : 40 + (rs.map fun r => r.bytes.length).sum + tail.length = body.length + 4 := by
    rw [hbody]
    simp only [List.length_append, encodeUint32_length, hkey, List.length_flatMap]
    omega
  have hframe : Frame s (body.length + 4) rs :=
    ⟨messageTypeHello, friendOnly, key, tail, t, hfriend, hkey, hvalid, hfree, hlen,
      hbody ▸ hheader⟩
  have hparse := parse_firstMessage gcrypt (Nat.le_refl (s.length + 2))
  rw [hfirst] at hparse
  obtain ⟨hello, hhello, hparse⟩ := hparse
  have hback := (backWithin_iff hg (Nat.le_refl _) hframe (fun r hr => (hgood r hr).1) hparse).mpr
    fun r hr => (hgood r hr).2
  obtain ⟨-, hle, hcomes⟩ := hback hello ⟨rfl, rfl, NestedMap.same_refl _⟩
  refine ⟨hello, hhello, hle, (message_of_frame (Nat.le_refl _) hframe hparse).1, fun fuel hf => ?_⟩
  rw [uint8Array_length] at hf
  obtain ⟨hello', hparse', hsame⟩ := hcomes fuel hf
  exact ⟨hello', by rwa [List.append_nil] at hparse', hsame⟩

/-! ## The host list -/

variable (gcrypt)

/-- From the machine `m` to `m'`, the C code is called once for each of the messages with the
given bodies.  At each call it is given what says the same as the message, in no more bytes, and
what was in use is as the call before has left it. -/
inductive Offered (offer : Func) : List Uint8Array → Machine → Machine → Prop
  | done {m : Machine} : Offered offer [] m m
  | next {body : Uint8Array} {bodies : List Uint8Array} {hello : Hello Str} {m m₁ m' : Machine}
      {ptr : Ptr} {size : Nat} (hbody : bodyHello gcrypt body = some hello)
      (hsize : size ≤ body.length + 4) (hmeaning : Says gcrypt (messageAt m₁.heap8 ptr size) hello)
      (hframe : ∀ a ∈ js.stack.inUse m.sp, m₁.heap8 a = m.heap8 a)
      (hrest : Offered offer bodies { (offer [0, ptr, 0, 0] m₁).2 with sp := m.sp } m') :
      Offered offer (body :: bodies) m m'

theorem offered_of_back {offer : Func} (hoffer : offer.Balanced)
    {bodies : List Uint8Array} {hellos : List (Hello Str)}
    (hmap : bodies.map (bodyHello gcrypt) = hellos.map some)
    (hback : ∀ body ∈ bodies, ∃ hello, bodyHello gcrypt body = some hello ∧
      (encodeHello gcrypt hello).length ≤ body.length + 4 ∧ body.length + 4 < 65536 ∧
      Says gcrypt (uint8Array (encodeHello gcrypt hello)) hello) :
    ∀ {m : Machine}, m.sp ≠ 0 → (∀ size < 65536, js.stack.cost size ≤ js.stack.room m.sp) →
      Offered gcrypt js offer bodies m
        (hellos.foldl (fun m hello => (offerHello gcrypt js offer hello m).2) m) ∧
      (hellos.foldl (fun m hello => (offerHello gcrypt js offer hello m).2) m).sp = m.sp := by
  induction bodies generalizing hellos with
  | nil =>
    intro m _ _
    obtain rfl : hellos = [] := List.map_eq_nil_iff.mp hmap.symm
    exact ⟨.done, rfl⟩
  | cons body bodies ih =>
    intro m hm hroom
    obtain ⟨hello, hellos, rfl⟩ : ∃ hello hellos', hellos = hello :: hellos' := by
      cases hellos with
      | nil => cases hmap
      | cons hello hellos => exact ⟨hello, hellos, rfl⟩
    obtain ⟨hhello, hrestmap⟩ := List.cons.inj hmap
    obtain ⟨hfirst, hrest⟩ := List.forall_mem_cons.mp hback
    obtain ⟨hello', hhello', hle, hlt, hmeaning⟩ := hfirst
    obtain rfl : hello' = hello := Option.some.inj (hhello'.symm.trans hhello)
    obtain ⟨ptr, m₁, hbytes, hframe, hcall⟩ := offerHello_given gcrypt js hello' hm
      (hroom _ (Nat.lt_of_le_of_lt hle hlt))
    rw [List.foldl_cons, hcall offer hoffer]
    obtain ⟨hoffered, hsp⟩ := ih hrestmap hrest
      (m := { (offer [0, ptr, 0, 0] m₁).2 with sp := m.sp }) hm hroom
    exact ⟨.next hhello' hle (hbytes ▸ hmeaning) hframe hoffered, hsp⟩

/-- **The C code is given what the host list says.**  For any bytes whose messages are
faithful, reading ends; the C code is called once for each message, in their order, with a
pointer to a HELLO message that says the same and is not longer; what is not on the stack is
left alone, and the stack pointer is back at the end. -/
theorem hostlist_offered (hg : gcrypt.Inverse) {offer : Func} (hoffer : offer.Balanced)
    {m : Machine} (hm : m.sp ≠ 0) (hroom : ∀ size < 65536, js.stack.cost size ≤ js.stack.room m.sp)
    {buf tail : Uint8Array} {bodies : List Uint8Array} (hgreedy : Greedy buf bodies tail)
    (hfaithful : ∀ body ∈ bodies, Faithful body) {fuel : Nat} (hf : buf.length + 2 ≤ fuel) :
    ∃ m', fetchAndProcess gcrypt js offer fuel buf m = some m' ∧
      Offered gcrypt js offer bodies m m' ∧ m'.sp = m.sp := by
  have hback : ∀ body ∈ bodies, ∃ hello, bodyHello gcrypt body = some hello ∧
      (encodeHello gcrypt hello).length ≤ body.length + 4 ∧ body.length + 4 < 65536 ∧
      Says gcrypt (uint8Array (encodeHello gcrypt hello)) hello := by
    clear hf
    induction hgreedy with
    | stop _ => nofun
    | next hfirst _ ih =>
      obtain ⟨hhead, hrest⟩ := List.forall_mem_cons.mp hfaithful
      exact List.forall_mem_cons.mpr ⟨hhead.back hg hfirst, ih hrest⟩
  obtain ⟨hellos, hmap, hparse⟩ := parseHostlist_of_greedy gcrypt hgreedy hf
  obtain ⟨hoffered, hsp⟩ := offered_of_back gcrypt js hoffer hmap hback hm hroom
  exact ⟨_, by rw [fetchAndProcess, hparse], hoffered, hsp⟩

def tcpBody (address : Uint8Array) : Uint8Array :=
  encodeUint32 0 ++ List.replicate 32 7 ++
    AddressRecord.bytes ⟨[116, 99, 112], (0, 5), address⟩

theorem faithful_tcpBody {address : Uint8Array} (hlen : address.length < 65536)
    (hbyte : ∀ b, address = [b] → b = 0) : Faithful (tcpBody address) := by
  refine ⟨0, List.replicate 32 7, [], [⟨[116, 99, 112], (0, 5), address⟩], by decide, by decide,
    ?_, recordFree_nil, by simp [tcpBody], ?_⟩
  · intro r hr
    obtain rfl := List.mem_singleton.mp hr
    exact ⟨show 0 ∉ [116, 99, 112] by decide, hlen, show 0 < 2 ^ 32 by decide,
      show 5 < 2 ^ 32 by decide⟩
  · intro r hr
    obtain rfl := List.mem_singleton.mp hr
    exact ⟨show ValidUtf8 [116, 99, 112] by decide, hbyte⟩

theorem hostlist_offered_two : ∃ m',
    fetchAndProcess utf8Gcrypt bumpRuntime (fun _ m => (1, m)) 200
      ([0, 56, 0, 17] ++ tcpBody [1, 2] ++ ([0, 55, 0, 17] ++ tcpBody [0] ++ [9]))
      ⟨fun _ => 7, 1024⟩ = some m' ∧
    Offered utf8Gcrypt bumpRuntime (fun _ m => (1, m)) [tcpBody [1, 2], tcpBody [0]]
      ⟨fun _ => 7, 1024⟩ m' ∧ m'.sp = 1024 :=
  hostlist_offered utf8Gcrypt bumpRuntime utf8Gcrypt_inverse (fun _ _ => rfl)
    (show (Machine.mk (fun _ => 7) 1024).sp ≠ 0 by decide)
    (fun size (_ : size < 65536) => show size + 15 ≤ 5242880 - 1024 by omega)
    (.next rfl (.next rfl (.stop rfl)))
    (List.forall_mem_cons.mpr ⟨faithful_tcpBody (by decide) (by simp),
      List.forall_mem_cons.mpr ⟨faithful_tcpBody (by decide) (by simp), nofun⟩⟩)
    (by decide)

end GnunetWeb.Offers
