import GnunetWeb.Datastore.Runs
import GnunetWeb.Library.Rotation
import Mathlib.Data.List.Pairwise

/-!
# Going through the records by their `uid`

A caller asks for the record of a key, or with zero anonymity, that comes next from
`next_uid` on.

Proved here:

* `search_least`, `serves_round`: the first record that a cursor finds, and a second
  transaction when there is none;
* `Least.round`: what the two transactions select;
* `selects_round_iff`: what is left of that after `next_uid` has been rounded;
* `getKey_selects_iff`: when `emscripten_plugin_get_key` selects the right record, and when a
  caller that goes on from it sees all of them;
* `getZeroAnonymity_selects_iff`: when `emscripten_plugin_get_zero_anonymity` does.
-/

namespace GnunetWeb.Datastore

open IndexedDB IndexedDB.Transaction Rotation

/-- `emscripten_plugin_get_key`, with `random` false. -/
def getKey (heap8 : Heap8) (nextUid : Nat) (keyPointer : Ptr) (type : Int) (proc procCls : Ptr) :
    Script Stored Call Unit :=
  getKeyInt heap8 (Double.round nextUid) keyPointer type proc procCls

/-- `emscripten_plugin_get_zero_anonymity` -/
def getZeroAnonymity (nextUid : Nat) (type : Int) (proc procCls : Ptr) :
    Script Stored Call Unit :=
  getZeroAnonymityInt (Double.round nextUid) type proc procCls

/-- What the transactions of a call find when nobody changes the store and none of their
requests fails; the memory may change between them. -/
def Contents.turns (c : Contents) (heap8s : Nat → Heap8) : Nat → Turn := fun n =>
  ⟨heap8s n, c.store, c.kept.full, fun _ => true⟩

/-- What a key pointer stands for; `NULL` for any key. -/
def keyAt (heap8 : Heap8) (keyPointer : Ptr) : Option (List Int) :=
  if keyPointer ≠ 0 then some (slice heap8 keyPointer 64) else none

structure Matches (s : ObjectStore Stored) (key : Option (List Int)) (type : Int)
    (r : Nat × Datum) : Prop where
  mem : (r.1, some r.2) ∈ s.records
  key : ∀ k ∈ key, r.2.key = k
  type : type ≠ 0 → r.2.type = type

/-- The record has anonymity 0 and the type; type 0 is any type. -/
structure Public (s : ObjectStore Stored) (type : Int) (r : Nat × Datum) : Prop where
  mem : (r.1, some r.2) ∈ s.records
  anonymity : r.2.anonymity = 0
  type : type ≠ 0 → r.2.type = type

/-- Among the records of `M`, the one with the smallest `uid` that is at least `nextUid`, if
there is one, otherwise the one with the smallest `uid` of all; nothing when there is
none. -/
def Selects (M : Nat × Datum → Prop) (nextUid : Nat) : Option (Nat × Datum) → Prop
  | none => ∀ r, ¬ M r
  | some r => M r ∧ ((nextUid ≤ r.1 ∧ ∀ r', M r' → nextUid ≤ r'.1 → r.1 ≤ r'.1) ∨
    (∀ r', M r' → r'.1 < nextUid) ∧ ∀ r', M r' → r.1 ≤ r'.1)

def Least (M : Nat × Datum → Prop) : Option (Nat × Datum) → Prop
  | none => ∀ r, ¬ M r
  | some r => M r ∧ ∀ r', M r' → r.1 ≤ r'.1

/-- When `emscripten_plugin_get_key` selects the right record.  `key'` is what the key pointer
stands for in the second transaction. -/
def SelectsByKey (s : ObjectStore Stored) (key key' : Option (List Int)) (type : Int)
    (nextUid : Nat) : Prop :=
  match key with
  | none => (∀ r, Matches s none type r → nextUid ≤ r.1) ∨
    ∀ r, Matches s none type r → r.1 < nextUid
  | some k =>
    ((∃ r, Matches s (some k) type r ∧ Double.roundNat nextUid ≤ r.1) ∨ nextUid = 0 ∨
      key' = some k ∨ ∀ r, ¬ Matches s (some k) type r ∧ ¬ Matches s key' type r) ∧
    ¬ (nextUid = 2 ^ 53 + 1 ∧ (∃ r, Matches s (some k) type r ∧ r.1 = 2 ^ 53) ∧
      ∃ r, Matches s (some k) type r ∧ r.1 ≠ 2 ^ 53)

/-- A caller starts at `nextUid` and goes on after the `uid` that its processor gets, which is
a `uint32_t` in `datum_processor_wrapper`; `l` is what it gets. -/
inductive Iterates (answer : Call → Int) (c : Contents) (heap8 : Heap8) (keyPointer : Ptr)
    (type : Int) (proc procCls : Ptr) : Nat → List (Nat × Datum) → Prop
  | stop {nextUid : Nat} : Iterates answer c heap8 keyPointer type proc procCls nextUid []
  | call {nextUid : Nat} {r : Nat × Datum} {l : List (Nat × Datum)} :
      Serves answer (c.turns fun _ => heap8) (getKey heap8 nextUid keyPointer type proc procCls)
        [.proc proc procCls (some r)] →
      Iterates answer c heap8 keyPointer type proc procCls (r.1 % 2 ^ 32 + 1) l →
        Iterates answer c heap8 keyPointer type proc procCls nextUid (r :: l)

/-! ## What two transactions select -/

section Select

variable {M M' : Nat × Datum → Prop} {m n : Nat} {datum datum' : Option (Nat × Datum)}

theorem Least.congr (h : ∀ r, M r ↔ M' r) : Least M datum ↔ Least M' datum := by
  rw [show M = M' from funext fun r => propext (h r)]

theorem Least.round (h : Least (fun r => M r ∧ m ≤ r.1) datum) (h' : Least M datum') :
    Selects M m (datum.or (if m ≠ 0 then datum' else none)) := by
  cases datum with
  | some r =>
    obtain ⟨⟨hr, hm⟩, hleast⟩ := h
    exact ⟨hr, .inl ⟨hm, fun r' hr' hm' => hleast r' ⟨hr', hm'⟩⟩⟩
  | none =>
    have hbefore : ∀ r', M r' → r'.1 < m := fun r' hr' =>
      Nat.lt_of_not_le fun hle => h r' ⟨hr', hle⟩
    by_cases hm : m = 0
    · subst hm
      exact fun r hr => absurd (hbefore r hr) (Nat.not_lt_zero _)
    · rw [Option.none_or, if_pos hm]
      cases datum' with
      | none => exact h'
      | some r => exact ⟨h'.1, .inr ⟨hbefore, h'.2⟩⟩

/-- **The first of all** is selected when no record comes before `n`, or all do. -/
theorem Least.selects_iff (h : Least M datum) :
    Selects M n datum ↔ (∀ r, M r → n ≤ r.1) ∨ ∀ r, M r → r.1 < n := by
  cases datum with
  | none => exact iff_of_true h (.inl fun r hr => absurd hr (h r))
  | some r =>
    obtain ⟨hr, hfirst⟩ := h
    constructor
    · rintro ⟨-, ⟨hn, -⟩ | ⟨hbefore, -⟩⟩
      · exact .inl fun r' hr' => Nat.le_trans hn (hfirst r' hr')
      · exact .inr hbefore
    · rintro (hn | hbefore)
      · exact ⟨hr, .inl ⟨hn r hr, fun r' hr' _ => hfirst r' hr'⟩⟩
      · exact ⟨hr, .inr ⟨hbefore, hfirst⟩⟩

/-- A record is selected when it is the first, going round from `n`. -/
theorem selects_some_iff {r : Nat × Datum} (hr : M r) :
    Selects M n (some r) ↔ IsFirst n {uid | ∃ r', M r' ∧ r'.1 = uid} r.1 := by
  rw [isFirst_iff]
  constructor
  · rintro ⟨-, ⟨hn, hleast⟩ | ⟨hbefore, hleast⟩⟩
    · refine ⟨⟨r, hr, rfl⟩, .inl ⟨hn, ?_⟩⟩
      rintro _ ⟨r', hr', rfl⟩ hn'
      exact hleast r' hr' hn'
    · refine ⟨⟨r, hr, rfl⟩, .inr ⟨?_, ?_⟩⟩
      · rintro _ ⟨r', hr', rfl⟩
        exact hbefore r' hr'
      · rintro _ ⟨r', hr', rfl⟩
        exact hleast r' hr'
  · rintro ⟨-, ⟨hn, hleast⟩ | ⟨hbefore, hleast⟩⟩
    · exact ⟨hr, .inl ⟨hn, fun r' hr' hn' => hleast r'.1 ⟨r', hr', rfl⟩ hn'⟩⟩
    · exact ⟨hr, .inr ⟨fun r' hr' => hbefore r'.1 ⟨r', hr', rfl⟩,
        fun r' hr' => hleast r'.1 ⟨r', hr', rfl⟩⟩⟩

/-- **The rounding of `next_uid`** does no harm, but for one number; the first of some records
`M'` is the first of all if these come early enough. -/
theorem selects_round_iff (hsub : ∀ r, M' r → M r) (hM : ∀ r, M r → r.1 ≤ 2 ^ 53)
    (h : Selects M' (Double.roundNat n) datum) : Selects M n datum ↔
      (∀ r, M r → ∃ r', M' r' ∧ turn n r'.1 ≤ turn n r.1) ∧
      ¬ (n = 2 ^ 53 + 1 ∧ (∃ r, M' r ∧ r.1 = 2 ^ 53) ∧ ∃ r, M r ∧ r.1 ≠ 2 ^ 53) := by
  cases datum with
  | none =>
    constructor
    · exact fun hempty => ⟨fun r hr => absurd hr (hempty r), fun ⟨_, ⟨r, hr, _⟩, _⟩ => h r hr⟩
    · rintro ⟨hearly, -⟩ r hr
      obtain ⟨r', hr', -⟩ := hearly r hr
      exact h r' hr'
  | some r =>
    have hr := h.1
    by_cases hodd : n = 2 ^ 53 + 1 ∧ ∃ r, M' r ∧ r.1 = 2 ^ 53
    · obtain ⟨rfl, r₁, hr₁, heq₁⟩ := hodd
      -- the last record of all is selected
      have hlast : r.1 = 2 ^ 53 := by
        rw [show Double.roundNat (2 ^ 53 + 1) = 2 ^ 53 by decide +kernel] at h
        rcases h.2 with ⟨hge, _⟩ | ⟨hbefore, _⟩
        · exact Nat.le_antisymm (hM r (hsub r hr)) hge
        · exact absurd heq₁ (Nat.ne_of_lt (hbefore r₁ hr₁))
      constructor
      · rintro ⟨-, ⟨hge, _⟩ | ⟨_, hleast⟩⟩
        · omega
        · have honly : ∀ r₂, M r₂ → r₂.1 = 2 ^ 53 := fun r₂ hr₂ =>
            Nat.le_antisymm (hM r₂ hr₂) (hlast ▸ hleast r₂ hr₂)
          exact ⟨fun r₂ hr₂ => ⟨r, hr, by rw [hlast, honly r₂ hr₂]⟩,
            fun ⟨_, _, r₂, hr₂, hne⟩ => hne (honly r₂ hr₂)⟩
      · rintro ⟨-, hno⟩
        refine ⟨hsub r hr, .inr ⟨fun r' hr' => Nat.lt_succ_of_le (hM r' hr'), fun r' hr' => ?_⟩⟩
        by_contra hlt
        exact hno ⟨rfl, ⟨r₁, hr₁, heq₁⟩, r', hr', by omega⟩
    · rw [and_iff_left fun he => hodd ⟨he.1, he.2.1⟩]
      have hfirst : IsFirst n {uid | ∃ r', M' r' ∧ r'.1 = uid} r.1 := by
        rw [selects_some_iff hr] at h
        refine (isFirst_congr ?_).mp h
        rintro _ ⟨r', hr', rfl⟩
        exact Double.roundNat_le_iff (hM r' (hsub r' hr')) fun ⟨hn, heq⟩ =>
          hodd ⟨hn, r', hr', heq⟩
      have hsubset : {uid | ∃ r', M' r' ∧ r'.1 = uid} ⊆ {uid | ∃ r', M r' ∧ r'.1 = uid} := by
        rintro _ ⟨r', hr', rfl⟩
        exact ⟨r', hsub r' hr', rfl⟩
      rw [selects_some_iff (hsub r hr), hfirst.superset_iff hsubset]
      constructor
      · intro hearly r' hr'
        obtain ⟨_, ⟨r₂, hr₂, rfl⟩, hle⟩ := hearly r'.1 ⟨r', hr', rfl⟩
        exact ⟨r₂, hr₂, hle⟩
      · rintro hearly _ ⟨r', hr', rfl⟩
        obtain ⟨r₂, hr₂, hle⟩ := hearly r' hr'
        exact ⟨r₂.1, ⟨r₂, hr₂, rfl⟩, hle⟩

end Select

/-! ## The transactions -/

section Search

variable {answer : Call → Int} {s : ObjectStore Stored} {proc procCls : Ptr}

/-- **The first record that a cursor finds.**  Its handler continues with the records that
`p` rejects, and passes one that it accepts to the processor. -/
theorem search_least (hfull : ∀ r ∈ s.records, r.2 ≠ none) {index : Index Stored} {range : Range}
    {onsuccess : Result Stored → Script Stored Call Unit} {onerror : Script Stored Call Unit}
    {p : Datum → Bool} {c : Call} {M : Nat × Datum → Prop}
    (hskip : ∀ (e : Entry Stored) v, e.value = some v → ¬ p v →
      onsuccess (.cursor (some e)) = .continue .done)
    (hfound : ∀ (e : Entry Stored) v, e.value = some v → p v →
      onsuccess (.cursor (some e)) = .call (.proc proc procCls (some (e.primaryKey, v))) fun _ =>
        .done)
    (hnone : onsuccess (.cursor none) = .call c fun _ => .done)
    (hM : ∀ r, M r ↔ p r.2 ∧ ∃ key, ⟨key, r.1, some r.2⟩ ∈ Cursor.entries s index range)
    (horder : ∀ e ∈ Cursor.entries s index range, ∀ e' ∈ Cursor.entries s index range,
      e.key ≤ e'.key → e.primaryKey ≤ e'.primaryKey) :
    ∃ datum, Least M datum ∧ Runs answer () s (fun _ => true)
      (.request (.cursor ⟨index, range, .next, none⟩) onsuccess onerror .done)
      [datum.elim c fun r => .proc proc procCls (some r)] := by
  have hskip' : ∀ e ∈ Cursor.visited s index range .next, ¬ e.value.any p →
      onsuccess (.cursor (some e)) = .continue .done := by
    intro e he hp
    obtain ⟨v, hv⟩ := value_of_visited hfull he
    rw [hv, Option.any_some] at hp
    exact hskip e v hv hp
  cases hfind : (Cursor.visited s index range .next).find? fun e => e.value.any p with
  | none =>
    refine ⟨none, fun r hr => ?_, .search (by decide) hskip' ?_ (fun _ _ => rfl) ?_⟩
    · obtain ⟨hp, key, he⟩ := (hM r).mp hr
      exact List.find?_eq_none.mp hfind _ (Cursor.mem_visited.mpr he) hp
    · rw [hfind, hnone]
      exact fun _ => rfl
    · rw [hfind, hnone]
      exact .call .done
  | some e =>
    obtain ⟨he, hp, hfirst⟩ := Cursor.find_visited hfind
    obtain ⟨v, hv⟩ := value_of_visited hfull he
    rw [hv, Option.any_some] at hp
    have he := Cursor.mem_visited.mp he
    refine ⟨some (e.primaryKey, v), ⟨(hM _).mpr ⟨hp, e.key, hv ▸ he⟩, fun r hr => ?_⟩,
      .search (by decide) hskip' ?_ (fun _ _ => rfl) ?_⟩
    · obtain ⟨hp', key, he'⟩ := (hM r).mp hr
      have hle := hfirst _ (Cursor.mem_visited.mpr he') hp'
      exact horder _ he _ he' (Prod.Lex.monotone_fst _ _ hle)
    · rw [hfind, hfound e v hv hp]
      exact fun _ => rfl
    · rw [hfind, hfound e v hv hp]
      exact .call .done

theorem mem_entries_key {key : List Int} {n : Nat} (hbounded : s.generator ≤ maxGenerated + 1)
    {e : Entry Stored} : e ∈ Cursor.entries s byKey
        (.bound (.array [.array (key.map .number), .number n])
          (.array [.array (key.map .number), .number Double.maxValue])) ↔
      ∃ v, e.value = some v ∧ (e.primaryKey, some v) ∈ s.records ∧ v.key = key ∧
        n ≤ e.primaryKey ∧ e.key = .array [.array (key.map .number), .number e.primaryKey] := by
  rw [Cursor.mem_entries]
  constructor
  · rintro ⟨hr, hk, hc⟩
    obtain ⟨v, hv, hkey⟩ := Option.map_eq_some_iff.mp hk
    rw [← hkey, Range.contains_bound_cons, Range.contains_bound_number] at hc
    obtain rfl := key_inj hc.1
    exact ⟨v, hv, hv ▸ hr, rfl, Int.ofNat_le.mp hc.2.1, hkey.symm⟩
  · rintro ⟨v, hv, hr, rfl, hn, hkey⟩
    have hle : (e.primaryKey : Int) ≤ Double.maxValue :=
      Double.le_maxValue (ObjectStore.le_maxGenerated hbounded hr)
    refine ⟨hv ▸ hr, by rw [hv, hkey]; rfl, ?_⟩
    rw [hkey, Range.contains_bound_cons, Range.contains_bound_number]
    exact ⟨rfl, Int.ofNat_le.mpr hn, hle⟩

theorem mem_entries_anonType {type : Int} {n : Nat} (hbounded : s.generator ≤ maxGenerated + 1)
    {e : Entry Stored} : e ∈ Cursor.entries s byAnonType
        (.bound (.array [.number 0, .number type, .number n])
          (.array [.number 0, .number type, .number Double.maxValue])) ↔
      ∃ v, e.value = some v ∧ (e.primaryKey, some v) ∈ s.records ∧ v.anonymity = 0 ∧
        v.type = type ∧ n ≤ e.primaryKey ∧
        e.key = .array [.number 0, .number type, .number e.primaryKey] := by
  rw [Cursor.mem_entries]
  constructor
  · rintro ⟨hr, hk, hc⟩
    obtain ⟨v, hv, hkey⟩ := Option.map_eq_some_iff.mp hk
    rw [← hkey, Range.contains_bound_cons, Range.contains_bound_cons,
      Range.contains_bound_number] at hc
    obtain ⟨hanon, htype, hn, -⟩ := hc
    rw [IndexedDB.Key.number.injEq] at hanon htype
    rw [hanon, htype] at hkey
    exact ⟨v, hv, hv ▸ hr, hanon, htype, Int.ofNat_le.mp hn, hkey.symm⟩
  · rintro ⟨v, hv, hr, hanon, rfl, hn, hkey⟩
    have hle : (e.primaryKey : Int) ≤ Double.maxValue :=
      Double.le_maxValue (ObjectStore.le_maxGenerated hbounded hr)
    refine ⟨hv ▸ hr, by rw [hv, hkey, ← hanon]; rfl, ?_⟩
    rw [hkey, Range.contains_bound_cons, Range.contains_bound_cons, Range.contains_bound_number]
    exact ⟨rfl, rfl, Int.ofNat_le.mpr hn, hle⟩

theorem getKey_search (hs : Kept s) {heap8 : Heap8} {n : Nat} {keyPointer : Ptr} {type : Int}
    {index : Index Stored} {range : Range} {M : Nat × Datum → Prop}
    (hcursor : getKeyCursor heap8 n keyPointer = ⟨index, range, .next, none⟩)
    (hM : ∀ r, M r ↔ (type ≠ 0 → r.2.type = type) ∧
      ∃ key, ⟨key, r.1, some r.2⟩ ∈ Cursor.entries s index range)
    (horder : ∀ e ∈ Cursor.entries s index range, ∀ e' ∈ Cursor.entries s index range,
      e.key ≤ e'.key → e.primaryKey ≤ e'.primaryKey) :
    ∃ datum, Least M datum ∧
      Runs answer () s (fun _ => true) (getKeyInt heap8 n keyPointer type proc procCls)
        [datum.elim (if n ≠ 0 then .getKey keyPointer type proc procCls
          else .proc proc procCls none) fun r => .proc proc procCls (some r)] := by
  rw [getKeyInt, hcursor]
  refine search_least (p := fun v => decide ¬ (type ≠ 0 ∧ type ≠ v.type)) hs.full
    (fun e v hv hp => ?_) (fun e v hv hp => ?_) ?_ (fun r => ?_) horder
  · rw [decide_eq_true_eq, not_not] at hp
    simp only [hv]
    exact if_pos hp
  · rw [decide_eq_true_eq] at hp
    simp only [hv]
    exact if_neg hp
  · by_cases hn : n = 0
    · simp [hn]
    · simp [hn]
  · have htype : (type ≠ 0 → r.2.type = type) ↔ ¬ (type ≠ 0 ∧ type ≠ r.2.type) := by
      rw [not_and, not_not]
      exact imp_congr_right fun _ => eq_comm
    rw [hM, htype, decide_eq_true_eq]

/-- **One transaction of `emscripten_plugin_get_key_int`.**  Without a key it does not look
at `next_uid`. -/
theorem getKey_runs (hs : Kept s) (heap8 : Heap8) (n : Nat) (keyPointer : Ptr) (type : Int) :
    ∃ datum, Least (fun r => Matches s (keyAt heap8 keyPointer) type r ∧
        (keyPointer ≠ 0 → n ≤ r.1)) datum ∧
      Runs answer () s (fun _ => true) (getKeyInt heap8 n keyPointer type proc procCls)
        [datum.elim (if n ≠ 0 then .getKey keyPointer type proc procCls
          else .proc proc procCls none) fun r => .proc proc procCls (some r)] := by
  by_cases hkey : keyPointer ≠ 0
  · refine getKey_search hs (if_pos hkey) (fun r => ?_) fun e he e' he' hle => ?_
    · rw [keyAt, if_pos hkey]
      constructor
      · rintro ⟨⟨hr, hk, htype⟩, hn⟩
        exact ⟨htype, .array [.array ((slice heap8 keyPointer 64).map .number), .number r.1],
          (mem_entries_key hs.bounded).mpr ⟨r.2, rfl, hr, hk _ rfl, hn hkey, rfl⟩⟩
      · rintro ⟨htype, key, he⟩
        obtain ⟨v, hv, hr, hk, hn, -⟩ := (mem_entries_key hs.bounded).mp he
        cases hv
        exact ⟨⟨hr, fun k hk' => Option.some.inj hk' ▸ hk, htype⟩, fun _ => hn⟩
    · obtain ⟨v, -, -, -, -, hkey⟩ := (mem_entries_key hs.bounded).mp he
      obtain ⟨v', -, -, -, -, hkey'⟩ := (mem_entries_key hs.bounded).mp he'
      rw [hkey, hkey', IndexedDB.Key.array_cons_le] at hle
      exact Int.ofNat_le.mp (IndexedDB.Key.array_number_le.mp hle)
  · refine getKey_search hs (if_neg hkey) (fun r => ?_) fun e he e' he' hle => ?_
    · rw [keyAt, if_neg hkey]
      constructor
      · rintro ⟨⟨hr, -, htype⟩, -⟩
        exact ⟨htype, .number r.1, Cursor.mem_entries.mpr ⟨hr, rfl, Range.contains_all _⟩⟩
      · rintro ⟨htype, key, he⟩
        exact ⟨⟨(Cursor.mem_entries.mp he).1, fun _ hk => (nomatch hk), htype⟩,
          fun hne => absurd hne hkey⟩
    · obtain ⟨-, hk, -⟩ := Cursor.mem_entries.mp he
      obtain ⟨-, hk', -⟩ := Cursor.mem_entries.mp he'
      rw [← Option.some.inj hk, ← Option.some.inj hk', IndexedDB.Key.number_le_number] at hle
      exact Int.ofNat_le.mp hle

/-- **One transaction of `emscripten_plugin_get_zero_anonymity_int`.**  Its cursor visits the
records whose type is the argument. -/
theorem getZeroAnonymity_runs (hs : Kept s) (n : Nat) (type : Int) :
    ∃ datum, Least (fun r => (Public s type r ∧ r.2.type = type) ∧ n ≤ r.1) datum ∧
      Runs answer () s (fun _ => true) (getZeroAnonymityInt n type proc procCls)
        [datum.elim (if n ≠ 0 then .getZeroAnonymity type proc procCls
          else .proc proc procCls none) fun r => .proc proc procCls (some r)] := by
  refine search_least (p := fun _ => true) hs.full (fun e v hv hp => absurd rfl hp)
    (fun e v hv _ => by simp only [hv]) ?_ (fun r => ?_) fun e he e' he' hle => ?_
  · by_cases hn : n = 0
    · simp [hn]
    · simp [hn]
  · constructor
    · rintro ⟨⟨⟨hr, hanon, -⟩, htype⟩, hn⟩
      exact ⟨rfl, .array [.number 0, .number type, .number r.1],
        (mem_entries_anonType hs.bounded).mpr ⟨r.2, rfl, hr, hanon, htype, hn, rfl⟩⟩
    · rintro ⟨-, key, he⟩
      obtain ⟨v, hv, hr, hanon, htype, hn, -⟩ := (mem_entries_anonType hs.bounded).mp he
      cases hv
      exact ⟨⟨⟨hr, hanon, fun _ => htype⟩, htype⟩, hn⟩
  · obtain ⟨v, -, -, -, -, -, hkey⟩ := (mem_entries_anonType hs.bounded).mp he
    obtain ⟨v', -, -, -, -, -, hkey'⟩ := (mem_entries_anonType hs.bounded).mp he'
    rw [hkey, hkey', IndexedDB.Key.array_cons_le, IndexedDB.Key.array_cons_le] at hle
    exact Int.ofNat_le.mp (IndexedDB.Key.array_number_le.mp hle)

end Search

theorem serves_round {answer : Call → Int} {turns : Nat → Turn}
    {script next : Script Stored Call Unit} {again : Call} {proc procCls : Ptr}
    {datum datum' : Option (Nat × Datum)} {n : Nat}
    (hruns : Runs answer () (turns 0).store (turns 0).succeeds script
      [datum.elim (if n ≠ 0 then again else .proc proc procCls none) fun r =>
        .proc proc procCls (some r)])
    (hagain : restart (turns 1).heap8 again = some next)
    (hnext : Runs answer () (turns 1).store (turns 1).succeeds next [.proc proc procCls datum']) :
    Serves answer turns script
      [.proc proc procCls (datum.or (if n ≠ 0 then datum' else none))] := by
  have hproc : ∀ heap8, ∀ d, ∀ c ∈ [Call.proc proc procCls d], restart heap8 c = none := by
    intro heap8 d c hc
    rw [List.mem_singleton.mp hc]
    rfl
  cases datum with
  | some r => exact .last hruns (hproc _ _)
  | none =>
    rw [Option.elim_none] at hruns
    rw [Option.none_or]
    by_cases hn : n ≠ 0
    · rw [if_pos hn] at hruns ⊢
      have hfirst : Runs answer () (turns 0).store (turns 0).succeeds script ([] ++ [again]) :=
        hruns
      have hsecond : Serves answer (fun i => turns (i + 1)) next [.proc proc procCls datum'] :=
        .last hnext (hproc _ _)
      exact .again hfirst (fun _ hc => absurd hc List.not_mem_nil) hagain hsecond
    · rw [if_neg hn] at hruns ⊢
      exact .last hruns (hproc _ _)

section Serves

variable {answer : Call → Int} {c : Contents} {heap8s : Nat → Heap8} {keyPointer : Ptr}
  {type : Int} {proc procCls : Ptr}

theorem getKey_serves (n : Nat) : ∃ datum datum',
    Least (fun r => Matches c.store (keyAt (heap8s 0) keyPointer) type r ∧
      (keyPointer ≠ 0 → n ≤ r.1)) datum ∧
    Least (Matches c.store (keyAt (heap8s 1) keyPointer) type) datum' ∧
    Serves answer (c.turns heap8s) (getKeyInt (heap8s 0) n keyPointer type proc procCls)
      [.proc proc procCls (datum.or (if n ≠ 0 then datum' else none))] := by
  obtain ⟨datum, hleast, hruns⟩ := @getKey_runs answer _ proc procCls c.kept (heap8s 0) n keyPointer
    type
  obtain ⟨datum', hleast', hruns'⟩ := @getKey_runs answer _ proc procCls c.kept (heap8s 1) 0
    keyPointer type
  have hagain : restart (heap8s 1) (.getKey keyPointer type proc procCls) =
    some (getKeyInt (heap8s 1) 0 keyPointer type proc procCls) := rfl
  refine ⟨datum, datum', hleast, (Least.congr fun r => ?_).mp hleast',
    serves_round hruns hagain ?_⟩
  · exact and_iff_left fun _ => Nat.zero_le _
  · cases datum' with
    | none => exact hruns'
    | some r => exact hruns'

theorem getKey_serves_null (hkey : keyPointer = 0) (n : Nat) : ∃ datum,
    Least (Matches c.store none type) datum ∧
    Serves answer (c.turns heap8s) (getKeyInt (heap8s 0) n keyPointer type proc procCls)
      [.proc proc procCls datum] := by
  obtain ⟨datum, datum', hleast, hleast', hserves⟩ :=
    @getKey_serves answer c heap8s keyPointer type proc procCls n
  have hnull : ∀ heap8, keyAt heap8 keyPointer = none := fun heap8 => if_neg (not_not.mpr hkey)
  rw [hnull, Least.congr fun r => and_iff_left fun hne => absurd hkey hne] at hleast
  rw [hnull] at hleast'
  refine ⟨_, ?_, hserves⟩
  cases datum with
  | some r => exact hleast
  | none =>
    rw [Option.none_or]
    split
    · exact hleast'
    · exact hleast

theorem getKey_serves_key (hkey : keyPointer ≠ 0)
    (hsame : keyAt (heap8s 1) keyPointer = keyAt (heap8s 0) keyPointer) (n : Nat) : ∃ datum,
    Selects (Matches c.store (keyAt (heap8s 0) keyPointer) type) n datum ∧
    Serves answer (c.turns heap8s) (getKeyInt (heap8s 0) n keyPointer type proc procCls)
      [.proc proc procCls datum] := by
  obtain ⟨datum, datum', hleast, hleast', hserves⟩ :=
    @getKey_serves answer c heap8s keyPointer type proc procCls n
  rw [Least.congr fun r => and_congr_right fun _ => imp_iff_right hkey] at hleast
  rw [hsame] at hleast'
  exact ⟨_, hleast.round hleast', hserves⟩

/-- A key that is another one in the second transaction. -/
theorem selects_moved_iff {s : ObjectStore Stored} {k k' : List Int} (hne : k' ≠ k)
    (hle : ∀ r, Matches s (some k) type r → r.1 ≤ 2 ^ 53) {nextUid : Nat}
    {datum datum' : Option (Nat × Datum)}
    (h : Least (fun r => Matches s (some k) type r ∧ Double.roundNat nextUid ≤ r.1) datum)
    (h' : Least (Matches s (some k') type) datum') :
    Selects (Matches s (some k) type) nextUid
        (datum.or (if Double.roundNat nextUid ≠ 0 then datum' else none)) ↔
      SelectsByKey s (some k) (some k') type nextUid := by
  have hnil : Double.roundNat nextUid = 0 ↔ nextUid = 0 := by
    rw [← Nat.le_zero, Double.roundNat_le_iff (Nat.zero_le _) (fun he => absurd he.2 (by decide)),
      Nat.le_zero]
  rw [SelectsByKey]
  cases datum with
  | some r =>
    obtain ⟨⟨hr, hm⟩, hleast⟩ := h
    have hselects : Selects (Matches s (some k) type) (Double.roundNat nextUid) (some r) :=
      ⟨hr, .inl ⟨hm, fun r' hr' hm' => hleast r' ⟨hr', hm'⟩⟩⟩
    rw [Option.some_or, selects_round_iff (fun _ => id) hle hselects]
    exact and_congr_left fun _ => iff_of_true (fun r hr => ⟨r, hr, le_refl _⟩) (.inl ⟨r, hr, hm⟩)
  | none =>
    rw [Option.none_or]
    by_cases hn : nextUid = 0
    · have hempty : ∀ r, ¬ Matches s (some k) type r := fun r hr =>
        h r ⟨hr, (hnil.mpr hn).symm ▸ Nat.zero_le _⟩
      rw [if_neg (not_not.mpr (hnil.mpr hn))]
      exact iff_of_true hempty ⟨.inr (.inl hn), fun ⟨_, ⟨r, hr, _⟩, _⟩ => hempty r hr⟩
    · rw [if_pos (hnil.not.mpr hn)]
      -- the second transaction looks for the other key
      cases datum' with
      | some r =>
        refine iff_of_false (fun hr => hne ?_) ?_
        · rw [← hr.1.key k rfl, h'.1.key k' rfl]
        · rintro ⟨⟨r', hr', hm⟩ | hn' | he | hempty, -⟩
          · exact h r' ⟨hr', hm⟩
          · exact hn hn'
          · exact hne (Option.some.inj he)
          · exact (hempty r).2 h'.1
      | none =>
        constructor
        · exact fun hempty => ⟨.inr (.inr (.inr fun r => ⟨hempty r, h' r⟩)),
            fun ⟨_, ⟨r, hr, _⟩, _⟩ => hempty r hr⟩
        · rintro ⟨⟨r, hr, hm⟩ | hn' | he | hempty, -⟩
          · exact absurd ⟨hr, hm⟩ (h r)
          · exact absurd hn' hn
          · exact absurd (Option.some.inj he) hne
          · exact fun r => (hempty r).1

theorem getKey_selects (nextUid : Nat) : ∃ datum,
    Serves answer (c.turns heap8s) (getKey (heap8s 0) nextUid keyPointer type proc procCls)
      [.proc proc procCls datum] ∧
    (Selects (Matches c.store (keyAt (heap8s 0) keyPointer) type) nextUid datum ↔
      SelectsByKey c.store (keyAt (heap8s 0) keyPointer) (keyAt (heap8s 1) keyPointer) type
        nextUid) := by
  rw [getKey, Double.round_natCast]
  by_cases hkey : keyPointer = 0
  · obtain ⟨datum, hleast, hserves⟩ :=
      @getKey_serves_null answer c heap8s keyPointer type proc procCls hkey
        (Double.roundNat nextUid)
    refine ⟨datum, hserves, ?_⟩
    rw [keyAt, if_neg (not_not.mpr hkey), SelectsByKey]
    exact hleast.selects_iff
  · have hsome : ∀ heap8, keyAt heap8 keyPointer = some (slice heap8 keyPointer 64) :=
      fun heap8 => if_pos hkey
    have hle : ∀ r, Matches c.store (keyAt (heap8s 0) keyPointer) type r → r.1 ≤ 2 ^ 53 :=
      fun r hr => ObjectStore.le_maxGenerated c.kept.bounded hr.mem
    by_cases hsame : keyAt (heap8s 1) keyPointer = keyAt (heap8s 0) keyPointer
    · obtain ⟨datum, hselects, hserves⟩ :=
        @getKey_serves_key answer c heap8s keyPointer type proc procCls hkey hsame
          (Double.roundNat nextUid)
      refine ⟨datum, hserves, ?_⟩
      rw [selects_round_iff (fun _ => id) hle hselects, hsame, hsome, SelectsByKey]
      exact and_congr_left fun _ =>
        iff_of_true (fun r hr => ⟨r, hr, le_refl _⟩) (.inr (.inr (.inl rfl)))
    · obtain ⟨datum, datum', hleast, hleast', hserves⟩ :=
        @getKey_serves answer c heap8s keyPointer type proc procCls (Double.roundNat nextUid)
      rw [Least.congr fun r => and_congr_right fun _ => imp_iff_right hkey] at hleast
      rw [hsome, hsome] at hsame
      rw [hsome] at hleast hleast' hle
      rw [hsome, hsome]
      exact ⟨_, hserves, selects_moved_iff (fun he => hsame (congrArg some he)) hle hleast hleast'⟩

end Serves

/-! ## Repeated calls -/

section Iterates

variable {answer : Call → Int} {c : Contents} {heap8 : Heap8} {keyPointer : Ptr} {type : Int}
  {proc procCls : Ptr}

theorem Matches.value_unique {s : ObjectStore Stored} {key : Option (List Int)}
    {r r' : Nat × Datum} (h : Matches s key type r) (h' : Matches s key type r')
    (heq : r.1 = r'.1) : r = r' := by
  have hmem := h'.mem
  rw [← heq] at hmem
  exact Prod.ext heq (Option.some.inj (s.value_unique h.mem hmem))

theorem exists_ascending (s : ObjectStore Stored) {M : Nat × Datum → Prop}
    (hM : ∀ r, M r → (r.1, some r.2) ∈ s.records) :
    ∃ l : List (Nat × Datum), l.Pairwise (fun r r' => r.1 < r'.1) ∧ ∀ r, r ∈ l ↔ M r := by
  classical
  refine ⟨(s.records.filterMap fun x => x.2.map fun v => (x.1, v)).filter fun r => decide (M r),
    List.Pairwise.filter _ (List.pairwise_filterMap.mpr ?_), fun r => ?_⟩
  · refine (List.pairwise_map.mp s.sorted).imp fun {x x'} hlt r hr r' hr' => ?_
    obtain ⟨v, _, rfl⟩ := Option.map_eq_some_iff.mp hr
    obtain ⟨v', _, rfl⟩ := Option.map_eq_some_iff.mp hr'
    exact hlt
  · rw [List.mem_filter, List.mem_filterMap, decide_eq_true_eq]
    refine and_iff_right_of_imp fun hr => ⟨_, hM r hr, rfl⟩

theorem getKey_next (hkey : keyPointer ≠ 0) {n : Nat} (hn : n < 2 ^ 53) : ∃ datum,
    Selects (Matches c.store (keyAt heap8 keyPointer) type) n datum ∧
    Serves answer (c.turns fun _ => heap8) (getKey heap8 n keyPointer type proc procCls)
      [.proc proc procCls datum] := by
  rw [getKey, Double.round_natCast, Double.roundNat_eq_self hn]
  exact @getKey_serves_key answer c (fun _ => heap8) keyPointer type proc procCls hkey rfl n

theorem selects_of_serves (hkey : keyPointer ≠ 0) {n : Nat} (hn : n < 2 ^ 53) {r : Nat × Datum}
    (h : Serves answer (c.turns fun _ => heap8) (getKey heap8 n keyPointer type proc procCls)
      [.proc proc procCls (some r)]) :
    Selects (Matches c.store (keyAt heap8 keyPointer) type) n (some r) := by
  obtain ⟨datum, hselects, hserves⟩ :=
    @getKey_next answer c heap8 keyPointer type proc procCls hkey n hn
  cases h.unique hserves
  exact hselects

theorem uid_lt (uid : Nat) : uid % 2 ^ 32 + 1 < 2 ^ 53 := by
  have hlt : uid % 2 ^ 32 < 2 ^ 32 := Nat.mod_lt _ (by decide)
  omega

/-- Only the last `uid` of an ascending iteration has more than 32 bits. -/
theorem Iterates.uid_lt (hkey : keyPointer ≠ 0) {n : Nat} {l : List (Nat × Datum)}
    (h : Iterates answer c heap8 keyPointer type proc procCls n l) (hn : n < 2 ^ 53)
    (hl : l.Pairwise fun r r' => r.1 < r'.1) : l.Pairwise fun r _ => r.1 < 2 ^ 32 := by
  induction h with
  | stop => exact .nil
  | @call n r l hserves hrest ih =>
    rw [List.pairwise_cons] at hl ⊢
    refine ⟨fun r' hr' => ?_, ih (Datastore.uid_lt r.1) hl.2⟩
    have hr := (selects_of_serves hkey hn hserves).1
    cases hrest with
    | stop => cases hr'
    | @call _ r₂ l hserves' _ =>
      by_contra hge
      have hmod : r.1 % 2 ^ 32 < 2 ^ 32 := Nat.mod_lt _ (by decide)
      have hlt : r.1 < r₂.1 := hl.1 r₂ List.mem_cons_self
      rcases (selects_of_serves hkey (Datastore.uid_lt r.1) hserves').2 with
        ⟨_, hleast⟩ | ⟨hbefore, _⟩
      · have := hleast r hr (by omega)
        omega
      · have := hbefore r hr
        omega

theorem Iterates.least (hkey : keyPointer = 0) {n : Nat} {l : List (Nat × Datum)}
    (h : Iterates answer c heap8 keyPointer type proc procCls n l) :
    ∀ r ∈ l, Least (Matches c.store none type) (some r) := by
  induction h with
  | stop => exact fun r hr => absurd hr List.not_mem_nil
  | @call n r l hserves _ ih =>
    obtain ⟨datum, hleast, hserves'⟩ :=
      @getKey_serves_null answer c (fun _ => heap8) keyPointer type proc procCls hkey
        (Double.roundNat n)
    rw [getKey, Double.round_natCast] at hserves
    cases hserves.unique hserves'
    exact List.forall_mem_cons.mpr ⟨hleast, ih⟩

theorem iterates_of_key (hkey : keyPointer ≠ 0)
    (hbig : ∀ r r', Matches c.store (keyAt heap8 keyPointer) type r →
      Matches c.store (keyAt heap8 keyPointer) type r' → 2 ^ 32 ≤ r.1 → 2 ^ 32 ≤ r'.1 → r = r')
    {n : Nat} (hn : n < 2 ^ 53) {l : List (Nat × Datum)}
    (hl : l.Pairwise fun r r' => r.1 < r'.1)
    (hmem : ∀ r, r ∈ l ↔ Matches c.store (keyAt heap8 keyPointer) type r ∧ n ≤ r.1) :
    Iterates answer c heap8 keyPointer type proc procCls n l := by
  induction l generalizing n with
  | nil => exact .stop
  | cons r l ih =>
    rw [List.pairwise_cons] at hl
    obtain ⟨hr, hnr⟩ := (hmem r).mp List.mem_cons_self
    obtain ⟨datum, hselects, hserves⟩ :=
      @getKey_next answer c heap8 keyPointer type proc procCls hkey n hn
    have hdatum : datum = some r := by
      cases datum with
      | none => exact absurd hr (hselects r)
      | some r' =>
        obtain ⟨hr', ⟨hnr', hleast⟩ | ⟨hbefore, _⟩⟩ := hselects
        · rcases List.mem_cons.mp ((hmem r').mpr ⟨hr', hnr'⟩) with rfl | hin
          · rfl
          · exact absurd (hleast r hr hnr) (Nat.not_le.mpr (hl.1 r' hin))
        · exact absurd hnr (Nat.not_le.mpr (hbefore r hr))
    subst hdatum
    refine .call hserves ?_
    by_cases hsmall : r.1 < 2 ^ 32
    · refine ih (uid_lt r.1) hl.2 fun r' => ?_
      rw [Nat.mod_eq_of_lt hsmall, Nat.succ_le_iff]
      constructor
      · exact fun hin => ⟨((hmem r').mp (List.mem_cons_of_mem _ hin)).1, hl.1 r' hin⟩
      · rintro ⟨hr', hlt⟩
        rcases List.mem_cons.mp ((hmem r').mpr ⟨hr', by omega⟩) with rfl | hin
        · exact absurd hlt (Nat.lt_irrefl _)
        · exact hin
    · -- the `uid` of the last record may have more than 32 bits
      cases l with
      | nil => exact .stop
      | cons r₂ l =>
        have hr₂ := ((hmem r₂).mp (List.mem_cons_of_mem _ List.mem_cons_self)).1
        have hlt := hl.1 r₂ List.mem_cons_self
        obtain rfl := hbig r r₂ hr hr₂ (by omega) (by omega)
        exact absurd hlt (Nat.lt_irrefl _)

theorem iterates_iff : (∃ l, Iterates answer c heap8 keyPointer type proc procCls 0 l ∧
      l.Pairwise (fun r r' => r.1 < r'.1) ∧
      ∀ r, r ∈ l ↔ Matches c.store (keyAt heap8 keyPointer) type r) ↔
    (∀ r r', Matches c.store (keyAt heap8 keyPointer) type r →
      Matches c.store (keyAt heap8 keyPointer) type r' →
      keyPointer = 0 ∨ 2 ^ 32 ≤ r.1 ∧ 2 ^ 32 ≤ r'.1 → r = r') := by
  by_cases hkey : keyPointer = 0
  · have hnull : keyAt heap8 keyPointer = none := if_neg (not_not.mpr hkey)
    rw [hnull]
    constructor
    · rintro ⟨l, hiter, -, hmem⟩ r r' hr hr' -
      refine hr.value_unique hr' (Nat.le_antisymm ?_ ?_)
      · exact (hiter.least hkey r ((hmem r).mpr hr)).2 r' hr'
      · exact (hiter.least hkey r' ((hmem r').mpr hr')).2 r hr
    · intro hone
      obtain ⟨datum, hleast, hserves⟩ :=
        @getKey_serves_null answer c (fun _ => heap8) keyPointer type proc procCls hkey 0
      cases datum with
      | none => exact ⟨[], .stop, .nil, fun r => iff_of_false List.not_mem_nil (hleast r)⟩
      | some r =>
        refine ⟨[r], .call hserves .stop, List.pairwise_singleton _ _, fun r' => ?_⟩
        rw [List.mem_singleton]
        exact ⟨fun he => he ▸ hleast.1, fun hr' => hone r' r hr' hleast.1 (.inl hkey)⟩
  · constructor
    · rintro ⟨l, hiter, hl, hmem⟩ r r' hr hr' hbig
      obtain ⟨hbig, hbig'⟩ := hbig.resolve_left hkey
      by_contra hne
      -- one of the two comes before the other
      have hsymm : Std.Symm fun r r' : Nat × Datum => r.1 < 2 ^ 32 ∨ r'.1 < 2 ^ 32 :=
        ⟨fun _ _ => Or.symm⟩
      have hsmall : l.Pairwise fun r r' => r.1 < 2 ^ 32 ∨ r'.1 < 2 ^ 32 :=
        (hiter.uid_lt hkey (by decide) hl).imp fun h => .inl h
      have hlt := hsmall.forall ((hmem r).mpr hr) ((hmem r').mpr hr') hne
      omega
    · intro hone
      obtain ⟨l, hl, hmem⟩ := exists_ascending c.store fun r
        (hr : Matches c.store (keyAt heap8 keyPointer) type r) => hr.mem
      refine ⟨l, iterates_of_key hkey (fun r r' hr hr' hbig hbig' =>
        hone r r' hr hr' (.inr ⟨hbig, hbig'⟩)) (by decide) hl fun r => ?_, hl, hmem⟩
      rw [hmem, and_iff_left (Nat.zero_le _)]

end Iterates

/-- **Going through the records of a key.**  What a call of `emscripten_plugin_get_key` passes
to the processor, when that is the right record, and when repeated calls go through all of
them. -/
theorem getKey_selects_iff (c : Contents) (heap8s : Nat → Heap8) (keyPointer : Ptr) (type : Int)
    (proc procCls : Ptr) (answer : Call → Int) :
    (∀ nextUid : Nat, ∃ datum,
      Serves answer (c.turns heap8s) (getKey (heap8s 0) nextUid keyPointer type proc procCls)
        [.proc proc procCls datum] ∧
      (∀ os, Serves answer (c.turns heap8s)
        (getKey (heap8s 0) nextUid keyPointer type proc procCls) os →
          os = [.proc proc procCls datum]) ∧
      (Selects (Matches c.store (keyAt (heap8s 0) keyPointer) type) nextUid datum ↔
        SelectsByKey c.store (keyAt (heap8s 0) keyPointer) (keyAt (heap8s 1) keyPointer) type
          nextUid)) ∧
    ((∃ l, Iterates answer c (heap8s 0) keyPointer type proc procCls 0 l ∧
        l.Pairwise (fun r r' => r.1 < r'.1) ∧
        ∀ r, r ∈ l ↔ Matches c.store (keyAt (heap8s 0) keyPointer) type r) ↔
      ∀ r r', Matches c.store (keyAt (heap8s 0) keyPointer) type r →
        Matches c.store (keyAt (heap8s 0) keyPointer) type r' →
        keyPointer = 0 ∨ 2 ^ 32 ≤ r.1 ∧ 2 ^ 32 ≤ r'.1 → r = r') := by
  refine ⟨fun nextUid => ?_, iterates_iff⟩
  obtain ⟨datum, hserves, hselects⟩ :=
    @getKey_selects answer c heap8s keyPointer type proc procCls nextUid
  exact ⟨datum, hserves, fun os h => h.unique hserves, hselects⟩

theorem getKey_next_ignored : ¬ ∃ datum, Serves (fun _ => 0) (twoRecords.turns fun _ _ => 0)
      (getKey (fun _ => 0) 2 0 5 7 9) [.proc 7 9 datum] ∧
    Selects (Matches twoRecords.store none 5) 2 datum := by
  rintro ⟨datum, hserves, hselects⟩
  obtain ⟨datum', hleast, hserves'⟩ :=
    @getKey_serves_null (fun _ => 0) twoRecords (fun _ _ => 0) 0 5 7 9 rfl (Double.roundNat 2)
  rw [getKey, Double.round_natCast] at hserves
  cases hserves.unique hserves'
  have hfirst : Matches twoRecords.store none 5 (1, early) :=
    ⟨List.mem_cons_self, fun k hk => (nomatch hk), fun _ => rfl⟩
  have hsecond : Matches twoRecords.store none 5 (2, late) :=
    ⟨List.mem_cons_of_mem _ List.mem_cons_self, fun k hk => (nomatch hk), fun _ => rfl⟩
  cases datum with
  | none => exact hleast _ hfirst
  | some r =>
    have hr := hleast.2 _ hfirst
    rcases hselects.2 with ⟨hge, _⟩ | ⟨hbefore, _⟩
    · exact absurd hge (by omega)
    · exact absurd (hbefore _ hsecond) (Nat.lt_irrefl _)

theorem getZeroAnonymity_serves (c : Contents) (heap8s : Nat → Heap8) (nextUid : Nat)
    (type : Int) (proc procCls : Ptr) (answer : Call → Int) : ∃ datum,
    Serves answer (c.turns heap8s) (getZeroAnonymity nextUid type proc procCls)
      [.proc proc procCls datum] ∧
    Selects (fun r => Public c.store type r ∧ r.2.type = type) (Double.roundNat nextUid) datum := by
  obtain ⟨datum, hleast, hruns⟩ :=
    @getZeroAnonymity_runs answer _ proc procCls c.kept (Double.roundNat nextUid) type
  obtain ⟨datum', hleast', hruns'⟩ := @getZeroAnonymity_runs answer _ proc procCls c.kept 0 type
  rw [Least.congr fun r => and_iff_left (Nat.zero_le _)] at hleast'
  have hagain : restart (heap8s 1) (.getZeroAnonymity type proc procCls) =
    some (getZeroAnonymityInt 0 type proc procCls) := rfl
  have hsecond : Runs answer () c.store (fun _ => true)
      (getZeroAnonymityInt 0 type proc procCls) [.proc proc procCls datum'] := by
    cases datum' with
    | none => exact hruns'
    | some r => exact hruns'
  have hserves := @serves_round answer (c.turns heap8s) _ _ _ _ _ _ _ _ hruns hagain hsecond
  rw [← Double.round_natCast] at hserves
  exact ⟨_, hserves, hleast.round hleast'⟩

/-- **Going through the records with zero anonymity.** -/
theorem getZeroAnonymity_selects_iff (c : Contents) (heap8s : Nat → Heap8) (nextUid : Nat)
    (type : Int) (proc procCls : Ptr) (answer : Call → Int) : ∃ datum,
    Serves answer (c.turns heap8s) (getZeroAnonymity nextUid type proc procCls)
      [.proc proc procCls datum] ∧
    (∀ os, Serves answer (c.turns heap8s) (getZeroAnonymity nextUid type proc procCls) os →
      os = [.proc proc procCls datum]) ∧
    (Selects (Public c.store type) nextUid datum ↔
      (∀ r, Public c.store type r → ∃ r', (Public c.store type r' ∧ r'.2.type = type) ∧
        turn nextUid r'.1 ≤ turn nextUid r.1) ∧
      ¬ (nextUid = 2 ^ 53 + 1 ∧ (∃ r, (Public c.store type r ∧ r.2.type = type) ∧
        r.1 = 2 ^ 53) ∧ ∃ r, Public c.store type r ∧ r.1 ≠ 2 ^ 53)) := by
  obtain ⟨datum, hserves, hselects⟩ :=
    getZeroAnonymity_serves c heap8s nextUid type proc procCls answer
  exact ⟨datum, hserves, fun os h => h.unique hserves,
    selects_round_iff (fun r hr => hr.1)
      (fun r hr => ObjectStore.le_maxGenerated c.kept.bounded hr.mem) hselects⟩

/-- Type 0 is not any type. -/
theorem getZeroAnonymity_any_type : ¬ ∃ datum, Serves (fun _ => 0)
      (twoRecords.turns fun _ _ => 0) (getZeroAnonymity 0 0 7 9) [.proc 7 9 datum] ∧
    Selects (Public twoRecords.store 0) 0 datum := by
  rintro ⟨datum, hserves, hselects⟩
  obtain ⟨datum', hserves', hselects'⟩ :=
    getZeroAnonymity_serves twoRecords (fun _ _ => 0) 0 0 7 9 fun _ => 0
  cases hserves.unique hserves'
  cases datum with
  | none => exact hselects (1, early) ⟨List.mem_cons_self, rfl, fun hne => absurd rfl hne⟩
  | some r =>
    obtain ⟨⟨hmem, _, _⟩, htype⟩ := hselects'.1
    rcases mem_twoStored hmem with rfl | rfl
    · cases htype
    · cases htype

end GnunetWeb.Datastore
