import GnunetWeb.HelloMerge
import Mathlib.Data.List.Dedup

/-!
# Comparing HELLO values

`equals-hello` compares the addresses that have not expired.  It selects them with `>=`,
which compares two vectors by their printed forms, and takes the first expiration with
`sort-by`, which compares the numbers.

Proved here:

* `printed_lt_iff`: of times with as many digits the printed forms are in the order of the
  numbers;
* `equalsHello_compares`: what it returns, by the addresses that are live in print;
* `equalsHello_meets`: the result is that of the live addresses when every expiration is told
  alike in print and by number;
* `equalsHello_misses`: no expiration that is told differently can be allowed.
-/

namespace GnunetWeb

/-! ## Printed times -/

/-- The printed form of a vector of two numbers. -/
def printed (t : AbsoluteTime) : List Char :=
  '[' :: (Nat.toDigits 10 t.1 ++ ' ' :: (Nat.toDigits 10 t.2 ++ [']']))

/-- `>=` on two vectors: the strings are compared. -/
def TimeGE (t expiration : AbsoluteTime) : Prop := ¬ printed t < printed expiration

instance : DecidableRel TimeGE := fun t expiration =>
  inferInstanceAs (Decidable (¬ printed t < printed expiration))

/-- The order of the digits. -/
theorem digitChar_lt_iff {a b : Nat} (ha : a < 10) (hb : b < 10) :
    (a.digitChar < b.digitChar ↔ a < b) ∧ (a.digitChar = b.digitChar ↔ a = b) := by
  have hall : ∀ a < 10, ∀ b < 10, (Nat.digitChar a < Nat.digitChar b ↔ a < b) ∧
      (Nat.digitChar a = Nat.digitChar b ↔ a = b) := by decide
  exact hall a ha b hb

/-- Numbers with as many digits, each followed by more text. -/
theorem toDigits_append_lt_iff (a : Nat) : ∀ (b : Nat) (s t : List Char),
    (Nat.toDigits 10 a).length = (Nat.toDigits 10 b).length →
      (Nat.toDigits 10 a ++ s < Nat.toDigits 10 b ++ t ↔ a < b ∨ a = b ∧ s < t) := by
  induction a using Nat.strongRecOn with
  | ind a ih =>
    intro b s t hlength
    have hone : ∀ n, n < 10 ↔ (Nat.toDigits 10 n).length ≤ 1 := fun n => by
      rw [Nat.length_toDigits_le_iff (by decide) (by decide), pow_one]
    by_cases ha : a < 10
    · have hb : b < 10 := (hone b).mpr (hlength ▸ (hone a).mp ha)
      obtain ⟨hlt, heq⟩ := digitChar_lt_iff ha hb
      rw [Nat.toDigits_of_lt_base ha, Nat.toDigits_of_lt_base hb]
      simp only [List.cons_append, List.nil_append, List.cons_lt_cons_iff, hlt, heq]
    · have hb : ¬ b < 10 := fun hb => ha ((hone a).mpr (hlength ▸ (hone b).mp hb))
      have hda := @Nat.toDigits_of_base_le 10 a (by decide) (Nat.not_lt.mp ha)
      have hdb := @Nat.toDigits_of_base_le 10 b (by decide) (Nat.not_lt.mp hb)
      have hlength' : (Nat.toDigits 10 (a / 10)).length = (Nat.toDigits 10 (b / 10)).length := by
        rw [hda, hdb] at hlength
        simpa using hlength
      obtain ⟨hlt, heq⟩ := digitChar_lt_iff (Nat.mod_lt a (by decide)) (Nat.mod_lt b (by decide))
      rw [hda, hdb, List.append_assoc, List.append_assoc,
        ih (a / 10) (by omega) (b / 10) _ _ hlength']
      simp only [List.cons_append, List.nil_append, List.cons_lt_cons_iff, hlt, heq]
      by_cases hst : s < t
      · simp only [hst, and_true]
        omega
      · simp only [hst, and_false, or_false]
        omega

/-- The halves of two times have as many digits. -/
def SameDigits (t e : AbsoluteTime) : Prop :=
  (Nat.toDigits 10 t.1).length = (Nat.toDigits 10 e.1).length ∧
    (Nat.toDigits 10 t.2).length = (Nat.toDigits 10 e.2).length

/-- **Times with as many digits** are printed in the order of the numbers. -/
theorem printed_lt_iff {t e : AbsoluteTime} (ht : t.2 < 2 ^ 32) (he : e.2 < 2 ^ 32)
    (hdigits : SameDigits t e) : printed t < printed e ↔ t.number < e.number := by
  have hcons : ∀ (c : Char) (s s' : List Char), c :: s < c :: s' ↔ s < s' := by
    simp
  have hend : ¬ [']'] < [']'] := by decide
  rw [printed, printed, hcons, toDigits_append_lt_iff _ _ _ _ hdigits.1, hcons,
    toDigits_append_lt_iff _ _ _ _ hdigits.2]
  simp only [hend, and_false, or_false, AbsoluteTime.number]
  omega

/-! ## The comparison -/

deriving instance DecidableEq for TransportAddress

inductive HelloEquality where
  | nil
  | equal
  | expiration (t : AbsoluteTime)
  deriving DecidableEq

/-- `difference` of two sets.  Only the members of a set are read. -/
def difference {α : Type} [DecidableEq α] (as bs : List α) : List α :=
  as.filter fun a => a ∉ bs

/-- No element is in only one of the sets. -/
def noDifference {α : Type} [DecidableEq α] (as bs : List α) : Bool :=
  (difference as bs ∪ difference bs as).isEmpty

section Equals

variable {Str : Type} [DecidableEq Str] [Inhabited Str]

/-- The records that have not expired. -/
def unexpired (h : Hello Str) (expiration : AbsoluteTime) : List (TransportAddress Str) :=
  ((flattenTransportAddresses h.transportAddresses).filter
    fun r => TimeGE r.expiration expiration).dedup

/-- `dissoc` of the expiration -/
def dissocExpiration (r : TransportAddress Str) : Str × List Elem := (r.transport, r.encodedAddress)

/-- `equals-hello` -/
def equalsHello (a b : Hello Str) (expiration : AbsoluteTime) : HelloEquality :=
  if a.publicKey = b.publicKey then
    let as := unexpired a expiration
    let bs := unexpired b expiration
    if noDifference as bs then .equal
    else
      let eas := (as.map dissocExpiration).dedup
      let ebs := (bs.map dissocExpiration).dedup
      if noDifference eas ebs then
        match ((as ∪ bs).insertionSort fun r s => TimeLE r.expiration s.expiration).head? with
        | some r => .expiration r.expiration
        | none => .nil
      else .nil
  else .nil

end Equals

/-! ## What it is about -/

section Specification

variable {Str : Type}

/-- The HELLO has an address with this expiration, which is live. -/
def Hello.Live (live : AbsoluteTime → Prop) (h : Hello Str) (transport : Str)
    (encodedAddress : List Elem) (expiration : AbsoluteTime) : Prop :=
  h.Has transport encodedAddress expiration ∧ live expiration

section Entries

variable (live : AbsoluteTime → Prop) (a b : Hello Str)

/-- The same transports and addresses are live. -/
def SamePairs : Prop := ∀ transport encodedAddress,
  (∃ v, a.Live live transport encodedAddress v) ↔ ∃ v, b.Live live transport encodedAddress v

/-- The live entries are the same. -/
def SameEntries : Prop := ∀ transport encodedAddress v,
  a.Live live transport encodedAddress v ↔ b.Live live transport encodedAddress v

/-- The smallest expiration of the live entries of both. -/
def Smallest (v : AbsoluteTime) : Prop :=
  (∃ transport encodedAddress, a.Live live transport encodedAddress v ∨
    b.Live live transport encodedAddress v) ∧
  ∀ transport encodedAddress w, a.Live live transport encodedAddress w ∨
    b.Live live transport encodedAddress w → v.number ≤ w.number

/-- The result is that of the live entries. -/
structure Compares (result : HelloEquality) : Prop where
  nil : result = .nil ↔ a.publicKey ≠ b.publicKey ∨ ¬ SamePairs live a b
  equal : result = .equal ↔ a.publicKey = b.publicKey ∧ SameEntries live a b
  smallest : a.publicKey = b.publicKey → SamePairs live a b → ¬ SameEntries live a b →
    ∃ v, result = .expiration v ∧ Smallest live a b v

end Entries

/-- The expiration is not before the time. -/
def NotBefore (e t : AbsoluteTime) : Prop := e.number ≤ t.number

instance (e t : AbsoluteTime) : Decidable (NotBefore e t) :=
  inferInstanceAs (Decidable (e.number ≤ t.number))

/-- Every expiration of the two HELLO values is told alike by number and in print. -/
def ToldAlike (e : AbsoluteTime) (a b : Hello Str) : Prop :=
  ∀ transport encodedAddress v,
    a.Has transport encodedAddress v ∨ b.Has transport encodedAddress v →
      (NotBefore e v ↔ TimeGE v e)

variable {a b : Hello Str} {p q : AbsoluteTime → Prop} {result : HelloEquality}

theorem SameEntries.samePairs (h : SameEntries p a b) : SamePairs p a b :=
  fun transport encodedAddress => exists_congr fun v => h transport encodedAddress v

theorem SamePairs.symm (h : SamePairs p a b) : SamePairs p b a :=
  fun transport encodedAddress => (h transport encodedAddress).symm

theorem SameEntries.symm (h : SameEntries p a b) : SameEntries p b a :=
  fun transport encodedAddress v => (h transport encodedAddress v).symm

theorem Smallest.symm {v : AbsoluteTime} (h : Smallest p a b v) : Smallest p b a v := by
  obtain ⟨⟨transport, encodedAddress, hlive⟩, hle⟩ := h
  exact ⟨⟨transport, encodedAddress, hlive.symm⟩, fun _ _ w hw => hle _ _ w hw.symm⟩

theorem Compares.symm (h : Compares p a b result) : Compares p b a result where
  nil := h.nil.trans (or_congr ne_comm (not_congr ⟨.symm, .symm⟩))
  equal := h.equal.trans (and_congr eq_comm ⟨.symm, .symm⟩)
  smallest hkey hpairs hsame := by
    obtain ⟨v, hv, hsmallest⟩ := h.smallest hkey.symm hpairs.symm fun h => hsame h.symm
    exact ⟨v, hv, hsmallest.symm⟩

/-- Properties that are the same at every expiration of the HELLO values. -/
theorem Compares.congr (h : ∀ transport encodedAddress v,
    a.Has transport encodedAddress v ∨ b.Has transport encodedAddress v → (p v ↔ q v))
    (hq : Compares q a b result) : Compares p a b result := by
  have hlive : ∀ transport encodedAddress v,
      (a.Live p transport encodedAddress v ↔ a.Live q transport encodedAddress v) ∧
      (b.Live p transport encodedAddress v ↔ b.Live q transport encodedAddress v) :=
    fun transport encodedAddress v =>
      ⟨and_congr_right fun hv => h transport encodedAddress v (.inl hv),
        and_congr_right fun hv => h transport encodedAddress v (.inr hv)⟩
  have hpairs : SamePairs p a b ↔ SamePairs q a b := by simp only [SamePairs, hlive]
  have hentries : SameEntries p a b ↔ SameEntries q a b := by simp only [SameEntries, hlive]
  have hsmallest : ∀ v, Smallest p a b v ↔ Smallest q a b v := fun v => by
    simp only [Smallest, hlive]
  refine ⟨by rw [hpairs]; exact hq.nil, by rw [hentries]; exact hq.equal, ?_⟩
  simp only [hpairs, hentries, hsmallest]
  exact hq.smallest

/-- With different public keys no address is looked at. -/
theorem Compares.of_publicKey (hkey : a.publicKey ≠ b.publicKey) (hq : Compares q a b result) :
    Compares p a b result where
  nil := hq.nil.trans (by simp [hkey])
  equal := hq.equal.trans (by simp [hkey])
  smallest hsame := absurd hsame hkey

end Specification

/-! ## What it returns -/

/-- The first record in the order of the expirations. -/
theorem head_sorted {Str : Type} {l : List (TransportAddress Str)} (hl : l ≠ []) :
    ∃ r ∈ l, (l.insertionSort fun r s => TimeLE r.expiration s.expiration).head? = some r ∧
      ∀ s ∈ l, TimeLE r.expiration s.expiration := by
  have htotal : Std.Total fun r s : TransportAddress Str => TimeLE r.expiration s.expiration :=
    ⟨fun r s => timeLE_total r.expiration s.expiration⟩
  have htrans : IsTrans (TransportAddress Str) fun r s => TimeLE r.expiration s.expiration :=
    ⟨fun _ _ _ => timeLE_trans⟩
  have hsorted := List.pairwise_insertionSort
    (fun r s : TransportAddress Str => TimeLE r.expiration s.expiration) l
  have hmem : ∀ s, s ∈ l.insertionSort (fun r s => TimeLE r.expiration s.expiration) ↔ s ∈ l :=
    fun s => List.mem_insertionSort _
  cases hs : l.insertionSort fun r s => TimeLE r.expiration s.expiration with
  | nil =>
    obtain ⟨r, hr⟩ := List.exists_mem_of_ne_nil l hl
    rw [← hmem, hs] at hr
    exact absurd hr List.not_mem_nil
  | cons r rs =>
    rw [hs] at hsorted hmem
    refine ⟨r, (hmem r).mp List.mem_cons_self, rfl, fun s hsl => ?_⟩
    rcases List.mem_cons.mp ((hmem s).mpr hsl) with rfl | hrs
    · exact (timeLE_total s.expiration s.expiration).elim id id
    · exact (List.pairwise_cons.mp hsorted).1 s hrs

theorem noDifference_iff {α : Type} [DecidableEq α] {as bs : List α} :
    noDifference as bs ↔ ∀ x, x ∈ as ↔ x ∈ bs := by
  rw [noDifference, List.isEmpty_iff, List.eq_nil_iff_forall_not_mem]
  refine forall_congr' fun x => ?_
  simp only [List.mem_union_iff, difference, List.mem_filter, decide_eq_true_eq]
  tauto

section Results

variable {Str : Type} [DecidableEq Str] [Inhabited Str] {a b : Hello Str} {e : AbsoluteTime}

/-- What is live in print are the records that have not expired. -/
theorem live_iff {h : Hello Str} (hm : Singletons h.transportAddresses) {transport : Str}
    {encodedAddress : List Elem} {v : AbsoluteTime} :
    h.Live (fun t => TimeGE t e) transport encodedAddress v ↔
      ⟨transport, v, encodedAddress⟩ ∈ unexpired h e := by
  rw [Hello.Live, has_iff hm, unexpired, List.mem_dedup, List.mem_filter, decide_eq_true_eq]

theorem sameEntries_iff (ha : Singletons a.transportAddresses)
    (hb : Singletons b.transportAddresses) :
    SameEntries (fun t => TimeGE t e) a b ↔ ∀ r, r ∈ unexpired a e ↔ r ∈ unexpired b e := by
  constructor
  · intro h r
    exact (live_iff ha).symm.trans ((h r.transport r.encodedAddress r.expiration).trans
      (live_iff hb))
  · intro h transport encodedAddress v
    rw [live_iff ha, live_iff hb]
    exact h _

theorem mem_pairs_iff {h : Hello Str} (hm : Singletons h.transportAddresses)
    (transport : Str) (encodedAddress : List Elem) :
    (transport, encodedAddress) ∈ ((unexpired h e).map dissocExpiration).dedup ↔
      ∃ v, h.Live (fun t => TimeGE t e) transport encodedAddress v := by
  rw [List.mem_dedup, List.mem_map]
  constructor
  · rintro ⟨r, hr, heq⟩
    obtain ⟨rfl, rfl⟩ := Prod.mk.inj heq
    exact ⟨r.expiration, (live_iff hm).mpr hr⟩
  · rintro ⟨v, hv⟩
    exact ⟨_, (live_iff hm).mp hv, rfl⟩

theorem samePairs_iff (ha : Singletons a.transportAddresses)
    (hb : Singletons b.transportAddresses) :
    SamePairs (fun t => TimeGE t e) a b ↔ ∀ p,
      p ∈ ((unexpired a e).map dissocExpiration).dedup ↔
        p ∈ ((unexpired b e).map dissocExpiration).dedup := by
  rw [Prod.forall]
  refine forall_congr' fun transport => forall_congr' fun encodedAddress => ?_
  rw [mem_pairs_iff ha, mem_pairs_iff hb]

theorem bounded_of_unexpired {h : Hello Str} (hm : CanonicalAddresses h.transportAddresses)
    {r : TransportAddress Str} (hr : r ∈ unexpired h e) : r.expiration.2 < 2 ^ 32 := by
  rw [unexpired, List.mem_dedup, List.mem_filter] at hr
  exact (hm.expiration hr.1).2

/-- A live entry that is in only one of the lists, or not. -/
theorem exists_unexpired (ha : Singletons a.transportAddresses)
    (hb : Singletons b.transportAddresses) (h : ¬ SameEntries (fun t => TimeGE t e) a b) :
    unexpired a e ∪ unexpired b e ≠ [] := by
  intro hnil
  refine h ((sameEntries_iff ha hb).mpr fun r => ?_)
  have hr : r ∉ unexpired a e ∪ unexpired b e := by
    rw [hnil]
    exact List.not_mem_nil
  rw [List.mem_union_iff, not_or] at hr
  exact iff_of_false hr.1 hr.2

/-- The first record of the sorted union has the smallest expiration. -/
theorem smallest_of_head (ha : CanonicalAddresses a.transportAddresses)
    (hb : CanonicalAddresses b.transportAddresses) {r : TransportAddress Str}
    (hr : r ∈ unexpired a e ∪ unexpired b e)
    (hle : ∀ s ∈ unexpired a e ∪ unexpired b e, TimeLE r.expiration s.expiration) :
    Smallest (fun t => TimeGE t e) a b r.expiration := by
  have hbound : ∀ s ∈ unexpired a e ∪ unexpired b e, s.expiration.2 < 2 ^ 32 := by
    intro s hs
    rcases List.mem_union_iff.mp hs with hs | hs
    · exact bounded_of_unexpired ha hs
    · exact bounded_of_unexpired hb hs
  refine ⟨⟨r.transport, r.encodedAddress, ?_⟩, fun transport encodedAddress w hw => ?_⟩
  · rw [live_iff ha.singletons, live_iff hb.singletons]
    exact List.mem_union_iff.mp hr
  · rw [live_iff ha.singletons, live_iff hb.singletons] at hw
    have hs := List.mem_union_iff.mpr hw
    exact (timeLE_iff_number (hbound r hr) (hbound _ hs)).mp (hle _ hs)

/-- **What `equals-hello` returns**, by the addresses that are live in print. -/
theorem equalsHello_compares (ha : CanonicalAddresses a.transportAddresses)
    (hb : CanonicalAddresses b.transportAddresses) (e : AbsoluteTime) :
    Compares (fun t => TimeGE t e) a b (equalsHello a b e) := by
  have hentries := @sameEntries_iff _ _ _ a b e ha.singletons hb.singletons
  have hpairs := @samePairs_iff _ _ _ a b e ha.singletons hb.singletons
  rw [← noDifference_iff] at hentries hpairs
  unfold equalsHello
  by_cases hkey : a.publicKey = b.publicKey
  · rw [if_pos hkey]
    by_cases hsame : SameEntries (fun t => TimeGE t e) a b
    · simp only [if_pos (hentries.mp hsame)]
      exact ⟨by simp [hkey, hsame.samePairs], by simp [hkey, hsame], fun _ _ h => absurd hsame h⟩
    · simp only [if_neg (fun h => hsame (hentries.mpr h))]
      by_cases haddresses : SamePairs (fun t => TimeGE t e) a b
      · obtain ⟨r, hr, hhead, hle⟩ :=
          head_sorted (exists_unexpired ha.singletons hb.singletons hsame)
        simp only [if_pos (hpairs.mp haddresses), hhead]
        exact ⟨by simp [hkey, haddresses], by simp [hsame],
          fun _ _ _ => ⟨_, rfl, smallest_of_head ha hb hr hle⟩⟩
      · simp only [if_neg (fun h => haddresses (hpairs.mpr h))]
        exact ⟨by simp [haddresses], by simp [hsame], fun _ h => absurd h haddresses⟩
  · rw [if_neg hkey]
    exact ⟨by simp [hkey], by simp [hkey], fun h => absurd h hkey⟩

/-! ## Which entries are live -/

section Live

variable {p q : AbsoluteTime → Prop} {result result' : HelloEquality}

/-- There is one smallest expiration. -/
theorem Smallest.unique (ha : CanonicalAddresses a.transportAddresses)
    (hb : CanonicalAddresses b.transportAddresses) {v w : AbsoluteTime}
    (hv : Smallest p a b v) (hw : Smallest p a b w) : v = w := by
  have hbound : ∀ {v}, Smallest p a b v → v.2 < 2 ^ 32 := by
    rintro v ⟨⟨transport, encodedAddress, h | h⟩, -⟩
    · exact (ha.expiration ((has_iff ha.singletons).mp h.1)).2
    · exact (hb.expiration ((has_iff hb.singletons).mp h.1)).2
  obtain ⟨_, _, hlive⟩ := hv.1
  obtain ⟨_, _, hlive'⟩ := hw.1
  have hle : v.number ≤ w.number := hv.2 _ _ _ hlive'
  have hle' : w.number ≤ v.number := hw.2 _ _ _ hlive
  have hv2 := hbound hv
  have hw2 := hbound hw
  unfold AbsoluteTime.number at hle hle'
  exact Prod.ext (by omega) (by omega)

/-- There is one result. -/
theorem Compares.unique (ha : CanonicalAddresses a.transportAddresses)
    (hb : CanonicalAddresses b.transportAddresses) (h : Compares p a b result)
    (h' : Compares p a b result') : result = result' := by
  by_cases hnil : a.publicKey ≠ b.publicKey ∨ ¬ SamePairs p a b
  · rw [h.nil.mpr hnil, h'.nil.mpr hnil]
  · obtain ⟨hkey, hpairs⟩ := not_or.mp hnil
    rw [not_not] at hkey hpairs
    by_cases hsame : SameEntries p a b
    · rw [h.equal.mpr ⟨hkey, hsame⟩, h'.equal.mpr ⟨hkey, hsame⟩]
    · obtain ⟨v, rfl, hv⟩ := h.smallest hkey hpairs hsame
      obtain ⟨w, rfl, hw⟩ := h'.smallest hkey hpairs hsame
      rw [hv.unique ha hb hw]

end Live

/-- **When the result is that of the live entries.**  It is when the public keys differ, or
every expiration is told alike.  It does not depend on the order of the arguments. -/
theorem equalsHello_meets (ha : CanonicalAddresses a.transportAddresses)
    (hb : CanonicalAddresses b.transportAddresses) (e : AbsoluteTime)
    (h : a.publicKey ≠ b.publicKey ∨ ToldAlike e a b) :
    Compares (NotBefore e) a b (equalsHello a b e) ∧ equalsHello a b e = equalsHello b a e := by
  have hcompares := equalsHello_compares ha hb e
  constructor
  · rcases h with hkey | halike
    · exact hcompares.of_publicKey hkey
    · exact hcompares.congr halike
  · exact hcompares.unique ha hb (equalsHello_compares hb ha e).symm

/-- Times with as many digits as the threshold are all told alike. -/
theorem equalsHello_of_digits (ha : CanonicalAddresses a.transportAddresses)
    (hb : CanonicalAddresses b.transportAddresses) (he : e.2 < 2 ^ 32)
    (hdigits : ∀ transport encodedAddress v,
      a.Has transport encodedAddress v ∨ b.Has transport encodedAddress v → SameDigits v e) :
    Compares (NotBefore e) a b (equalsHello a b e) := by
  refine (equalsHello_compares ha hb e).congr fun transport encodedAddress v hv => ?_
  have hbound : v.2 < 2 ^ 32 := by
    rcases hv with hv | hv
    · exact (ha.expiration ((has_iff ha.singletons).mp hv)).2
    · exact (hb.expiration ((has_iff hb.singletons).mp hv)).2
  rw [NotBefore, TimeGE, printed_lt_iff hbound he (hdigits _ _ v hv), not_lt]

end Results

/-- One address with two expirations, of one digit each. -/
theorem equalsHello_meets_tcp :
    Compares (NotBefore (0, 4)) (tcpHello [1, 2]) laterHello
      (equalsHello (tcpHello [1, 2]) laterHello (0, 4)) ∧
    equalsHello (tcpHello [1, 2]) laterHello (0, 4) =
      equalsHello laterHello (tcpHello [1, 2]) (0, 4) := by
  refine equalsHello_meets (canonical_tcpHello [1, 2]) canonical_laterHello (0, 4)
    (.inr fun transport encodedAddress v hv => ?_)
  rcases hv with hv | hv
  · rw [has_tcpHello hv]
    decide
  · rw [has_laterHello hv]
    decide

/-- `[0 5]` is not before `[0 10]` in print: the address has expired in one HELLO, but is
taken for live in both. -/
theorem equalsHello_expired :
    equalsHello (tcpHello [1, 2]) laterHello (0, 10) = .expiration (0, 5) ∧
    ¬ Compares (NotBefore (0, 10)) (tcpHello [1, 2]) laterHello
      (equalsHello (tcpHello [1, 2]) laterHello (0, 10)) := by
  have hresult : equalsHello (tcpHello [1, 2]) laterHello (0, 10) = .expiration (0, 5) := by
    decide +kernel
  refine ⟨hresult, fun h => ?_⟩
  rw [hresult] at h
  have hpairs : ¬ SamePairs (NotBefore (0, 10)) (tcpHello [1, 2]) laterHello := by
    intro hpairs
    obtain ⟨v, hv, hlive⟩ := (hpairs "tcp" [some 1, some 2]).mpr ⟨_, laterHello_has, by decide⟩
    rw [has_tcpHello hv] at hlive
    exact absurd hlive (by decide)
  exact absurd (h.nil.mpr (.inr hpairs)) (by decide)

/-! ## Expirations that are told differently -/

/-- A HELLO with one address. -/
def singleHello (v : AbsoluteTime) : Hello String :=
  { tcpHello [] with transportAddresses := ⟨[("tcp", ⟨[([], [v])], by simp⟩)], by simp⟩ }

/-- A HELLO without addresses. -/
def bareHello : Hello String :=
  { tcpHello [] with transportAddresses := ⟨[], by simp⟩ }

theorem canonical_singleHello {v : AbsoluteTime} (hv : v.1 < 2 ^ 32 ∧ v.2 < 2 ^ 32) :
    CanonicalAddresses (singleHello v).transportAddresses := by
  intro e he
  obtain rfl := List.mem_singleton.mp he
  refine ⟨List.cons_ne_nil _ _, fun i hi => ?_⟩
  obtain rfl := List.mem_singleton.mp hi
  exact ⟨List.cons_ne_nil _ _, v.1, v.2, hv.1, hv.2, rfl⟩

theorem has_singleHello {v w : AbsoluteTime} {transport : String} {encodedAddress : List Elem}
    (h : (singleHello v).Has transport encodedAddress w) : w = v := by
  obtain ⟨e, he, -, i, hi, -, heq⟩ := h
  obtain rfl := List.mem_singleton.mp he
  obtain rfl := List.mem_singleton.mp hi
  exact (List.singleton_inj.mp heq).symm

theorem not_has_bareHello {w : AbsoluteTime} {transport : String} {encodedAddress : List Elem} :
    ¬ bareHello.Has transport encodedAddress w :=
  fun ⟨_, he, _⟩ => List.not_mem_nil he

/-- The address is the only difference, as long as it is live. -/
theorem samePairs_single (p : AbsoluteTime → Prop) (v : AbsoluteTime) :
    SamePairs p (singleHello v) bareHello ↔ ¬ p v := by
  constructor
  · intro h hp
    obtain ⟨w, hw, -⟩ := (h "tcp" []).mp
      ⟨v, ⟨_, List.mem_singleton.mpr rfl, rfl, _, List.mem_singleton.mpr rfl, rfl, rfl⟩, hp⟩
    exact not_has_bareHello hw
  · intro hp transport encodedAddress
    constructor
    · rintro ⟨w, hw, hlive⟩
      exact absurd (has_singleHello hw ▸ hlive) hp
    · rintro ⟨w, hw, -⟩
      exact absurd hw not_has_bareHello

/-- **A time that is told differently** makes the result wrong for some HELLO values that
have no other expiration. -/
theorem equalsHello_misses {v e : AbsoluteTime} (hv : v.1 < 2 ^ 32 ∧ v.2 < 2 ^ 32)
    (hdiffer : ¬ (NotBefore e v ↔ TimeGE v e)) :
    ∃ a b : Hello String, CanonicalAddresses a.transportAddresses ∧
      CanonicalAddresses b.transportAddresses ∧
      (∀ transport encodedAddress w,
        a.Has transport encodedAddress w ∨ b.Has transport encodedAddress w → w = v) ∧
      ¬ Compares (NotBefore e) a b (equalsHello a b e) := by
  have hbare : CanonicalAddresses bareHello.transportAddresses :=
    fun _ he => absurd he List.not_mem_nil
  refine ⟨singleHello v, bareHello, canonical_singleHello hv, hbare, fun _ _ w hw => ?_,
    fun h => hdiffer ?_⟩
  · exact hw.elim has_singleHello fun hw => absurd hw not_has_bareHello
  · have hnil := h.nil.symm.trans (equalsHello_compares (canonical_singleHello hv) hbare e).nil
    have hkey : ¬ (singleHello v).publicKey ≠ bareHello.publicKey := fun hkey => hkey rfl
    rw [or_iff_right hkey, or_iff_right hkey, samePairs_single, samePairs_single] at hnil
    rwa [not_not, not_not] at hnil

end GnunetWeb
