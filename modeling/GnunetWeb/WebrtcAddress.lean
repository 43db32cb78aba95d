import GnunetWeb.Heap
import Mathlib.Data.Nat.Basic
import Mathlib.Tactic.Common

/-!
# The addresses of the WebRTC plugin

`webrtc_plugin_address_to_string` and `webrtc_plugin_string_to_address` of
`plugin_transport_webrtc.c`, with the functions of the C library that they call.

Proved here:

* `ntohl_htonl`: the network order;
* `addressToString_htonl`: the text of an address fits the buffer;
* `stringToAddress_eq`: what a text is read as;
* `address_roundTrip_iff`: when an address comes back.
-/

namespace GnunetWeb.Webrtc

/-! ## The C library -/

/-- `'\0'` -/
def nul : Char := Char.ofNat 0

/-- `htonl`, and the bytes of the result -/
def htonl (x : UInt32) : List UInt8 :=
  [x.toNat / 16777216, x.toNat / 65536, x.toNat / 256, x.toNat].map UInt8.ofNat

/-- `ntohl` of the number with these bytes -/
def ntohl (bytes : List UInt8) : UInt32 :=
  UInt32.ofNat (bytes.foldl (fun n b => 256 * n + b.toNat) 0)

/-- `GNUNET_snprintf` of a text into a buffer of `size` bytes. -/
def snprintf (size : Nat) (text : List Char) : List Char := text.take (size - 1) ++ [nul]

def strlen (s : List Char) : Nat := (s.takeWhile (· ≠ nul)).length

/-- `strchr`: the string from the first `c` on. -/
def strchr (c : Char) : List Char → Option (List Char)
  | [] => none
  | x :: s => if x = c then some (x :: s) else if x = nul then none else strchr c s

/-- `isspace` -/
def isSpace (c : Char) : Bool := c = ' ' ∨ 9 ≤ c.toNat ∧ c.toNat ≤ 13

/-- `atol` where a `long` has 32 bits; what is out of its range wraps. -/
def atol (s : List Char) : Int32 :=
  let digits (s : List Char) : Int := Nat.ofDigitChars 10 (s.takeWhile Char.isDigit) 0
  match s.dropWhile isSpace with
  | '-' :: s => Int32.ofInt (- digits s)
  | '+' :: s => Int32.ofInt (digits s)
  | s => Int32.ofInt (digits s)

/-! ## The functions of the plugin -/

/-- `webrtc_plugin_address_to_string` -/
def addressToString (addr : List UInt8) : Option (List Char) :=
  if addr.length ≠ 4 then none
  else some (snprintf (7 + 10 + 1) ("webrtc.".toList ++ Nat.toDigits 10 (ntohl addr).toNat))

/-- `webrtc_plugin_string_to_address`; `addr` is `NULL`, or the memory from `addr` on. -/
def stringToAddress (addr : Option (List Char)) (addrlen : Nat) : Option (List UInt8) :=
  match addr with
  | none => none
  | some addr =>
    if addrlen = 0 then none
    else if addr[addrlen - 1]? ≠ some nul then none
    else if strlen addr ≠ addrlen - 1 then none
    else
      match strchr '.' addr with
      | none => none
      | some addr => some (htonl (atol addr).toUInt32)

/-! ## The network order -/

theorem ntohl_htonl (x : UInt32) : ntohl (htonl x) = x := by
  have hx := x.toNat_lt
  apply UInt32.toNat_inj.mp
  simp only [ntohl, htonl, List.map_cons, List.map_nil, List.foldl_cons, List.foldl_nil,
    UInt8.toNat_ofNat', UInt32.toNat_ofNat']
  omega

theorem htonl_inj {x y : UInt32} : htonl x = htonl y ↔ x = y := by
  refine ⟨fun h => ?_, fun h => by rw [h]⟩
  rw [← ntohl_htonl x, h, ntohl_htonl]

/-! ## From an address to its text -/

theorem length_digits (x : UInt32) : (Nat.toDigits 10 x.toNat).length ≤ 10 := by
  have hx := x.toNat_lt
  rw [Nat.length_toDigits_le_iff (by decide) (by decide)]
  omega

/-- **The text of an address** fits the buffer. -/
theorem addressToString_htonl (x : UInt32) : addressToString (htonl x) =
    some ("webrtc.".toList ++ Nat.toDigits 10 x.toNat ++ [nul]) := by
  have hlength : ("webrtc.".toList ++ Nat.toDigits 10 x.toNat).length ≤ 17 := by
    have := length_digits x
    rw [List.length_append, show "webrtc.".toList.length = 7 by decide]
    omega
  rw [addressToString, ntohl_htonl, if_neg (by simp [htonl]), snprintf,
    List.take_of_length_le hlength]

/-! ## From a text to its address -/

theorem strchr_eq {c : Char} {s t : List Char} (h : strchr c s = some t) : ∃ l, t = c :: l := by
  induction s with
  | nil => cases h
  | cons x s ih =>
    rw [strchr] at h
    split at h
    · rename_i hx
      exact ⟨s, by rw [← Option.some.inj h, hx]⟩
    · split at h
      · cases h
      · exact ih h

/-- **Every text is read as 0** if it is read at all: `strchr` finds the dot, and not what
comes after it. -/
theorem stringToAddress_eq {addr : Option (List Char)} {addrlen : Nat} {bytes : List UInt8}
    (h : stringToAddress addr addrlen = some bytes) : bytes = htonl 0 := by
  unfold stringToAddress at h
  split at h
  · cases h
  split at h
  · cases h
  split at h
  · cases h
  split at h
  · cases h
  split at h
  · cases h
  · rename_i s hs
    obtain ⟨t, rfl⟩ := strchr_eq hs
    -- no number starts with a dot
    exact (Option.some.inj h).symm

theorem strlen_append {s : List Char} (h : nul ∉ s) : strlen (s ++ [nul]) = s.length := by
  have hne : ∀ c ∈ s, decide (c ≠ nul) = true := fun c hc =>
    decide_eq_true fun he => h (he ▸ hc)
  rw [strlen, List.takeWhile_append_of_pos hne]
  simp

/-- The text of an address is read. -/
theorem stringToAddress_text (x : UInt32) :
    stringToAddress (some ("webrtc.".toList ++ Nat.toDigits 10 x.toNat ++ [nul]))
      ("webrtc.".toList ++ Nat.toDigits 10 x.toNat ++ [nul]).length = some (htonl 0) := by
  have hdigit : nul ∉ Nat.toDigits 10 x.toNat := fun h =>
    absurd (Nat.isDigit_of_mem_toDigits (by decide) (by decide) h) (by decide)
  have hnul : nul ∉ "webrtc.".toList ++ Nat.toDigits 10 x.toNat := fun h =>
    (List.mem_append.mp h).elim (by decide) hdigit
  have hstrchr : strchr '.' ("webrtc.".toList ++ Nat.toDigits 10 x.toNat ++ [nul]) =
      some ('.' :: (Nat.toDigits 10 x.toNat ++ [nul])) := rfl
  rw [stringToAddress, List.length_append, List.length_singleton, if_neg (Nat.succ_ne_zero _),
    Nat.add_sub_cancel, if_neg (not_not.mpr (List.getElem?_concat_length)),
    if_neg (not_not.mpr (strlen_append hnul)), hstrchr]
  rfl

/-- **The addresses that come back.**  The text of every address fits the buffer, and is read;
0 is the only one that it gives again. -/
theorem address_roundTrip_iff (x : UInt32) : ∃ text, addressToString (htonl x) = some text ∧
    text = "webrtc.".toList ++ Nat.toDigits 10 x.toNat ++ [nul] ∧ text.length ≤ 18 ∧
    (stringToAddress (some text) text.length = some (htonl x) ↔ x = 0) := by
  refine ⟨_, addressToString_htonl x, rfl, ?_, ?_⟩
  · have := length_digits x
    rw [List.length_append, List.length_append, show "webrtc.".toList.length = 7 by decide,
      List.length_singleton]
    omega
  · rw [stringToAddress_text, Option.some.injEq, htonl_inj]
    exact eq_comm

/-- The address 1 is read as 0. -/
theorem address_one : (addressToString (htonl 1)).bind (fun text =>
    stringToAddress (some text) text.length) ≠ some (htonl 1) := by
  decide

end GnunetWeb.Webrtc
