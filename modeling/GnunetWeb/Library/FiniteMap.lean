import Mathlib.Algebra.Order.Ring.Nat
import Mathlib.Data.List.Induction
import Mathlib.Data.List.Nodup
import Mathlib.Tactic.Common

/-!
# Finite maps in an iteration order

A `FiniteMap` is the list of its entries, in the order in which they are visited,
with the proof that no key occurs twice.  Two maps are the same value when they
have the same entries in some order (`SameBy`).

Proved here:

* `get?_eq_some`: looking a key up finds exactly its entry;
* `get?_assoc`, `get?_dissoc`: an update changes the value of its key and of no other;
* `count_entries`: counting entries by their values;
* `get?_groupBy`: the group of a key is the sublist of the elements with that key;
* `groupBy_blocks`: grouping a concatenation of blocks gives the blocks back;
* `sum_le_sum_of_keys`: a bound for sums over elements with distinct keys.
-/

@[ext] structure FiniteMap (κ ν : Type) where
  entries : List (κ × ν)
  nodup : (entries.map Prod.fst).Nodup

namespace FiniteMap

variable {κ ν μ α : Type}

def keys (m : FiniteMap κ ν) : List κ := m.entries.map Prod.fst

def empty : FiniteMap κ ν := ⟨[], List.nodup_nil⟩

/-- The same keys, with related values. -/
def SameBy (r : ν → ν → Prop) (m n : FiniteMap κ ν) : Prop :=
  (∀ e ∈ m.entries, ∃ e' ∈ n.entries, e'.1 = e.1 ∧ r e.2 e'.2) ∧
  ∀ e' ∈ n.entries, ∃ e ∈ m.entries, e.1 = e'.1 ∧ r e.2 e'.2

theorem sameBy_refl {r : ν → ν → Prop} (hr : ∀ v, r v v) (m : FiniteMap κ ν) : SameBy r m m :=
  ⟨fun e he => ⟨e, he, rfl, hr _⟩, fun e he => ⟨e, he, rfl, hr _⟩⟩

theorem sameBy_symm {r : ν → ν → Prop} (hr : ∀ v w, r v w → r w v) {m n : FiniteMap κ ν}
    (h : SameBy r m n) : SameBy r n m := by
  constructor
  · intro e he
    obtain ⟨e', he', hk, hv⟩ := h.2 e he
    exact ⟨e', he', hk, hr _ _ hv⟩
  · intro e he
    obtain ⟨e', he', hk, hv⟩ := h.1 e he
    exact ⟨e', he', hk, hr _ _ hv⟩

/-! ## Looking up and updating -/

section Lookup

variable [DecidableEq κ]

def get? (m : FiniteMap κ ν) (k : κ) : Option ν :=
  (m.entries.find? fun e => e.1 = k).map Prod.snd

/-- Replaces the value of a key in place, or adds the key at the end. -/
def assocEntries (k : κ) (v : ν) : List (κ × ν) → List (κ × ν)
  | [] => [(k, v)]
  | e :: es => if e.1 = k then (k, v) :: es else e :: assocEntries k v es

theorem assocEntries_fresh (k : κ) (v : ν) (es : List (κ × ν)) (h : k ∉ es.map Prod.fst) :
    assocEntries k v es = es ++ [(k, v)] := by
  induction es with
  | nil => rfl
  | cons e es ih =>
    simp only [List.map_cons, List.mem_cons, not_or] at h
    simp [assocEntries, Ne.symm h.1, ih h.2]

theorem keys_assocEntries (k : κ) (v : ν) (es : List (κ × ν)) (h : k ∈ es.map Prod.fst) :
    (assocEntries k v es).map Prod.fst = es.map Prod.fst := by
  induction es with
  | nil => simp at h
  | cons e es ih =>
    by_cases he : e.1 = k
    · simp [assocEntries, he]
    · have : k ∈ es.map Prod.fst := by simpa [Ne.symm he] using h
      simp [assocEntries, he, ih this]

def assoc (m : FiniteMap κ ν) (k : κ) (v : ν) : FiniteMap κ ν where
  entries := assocEntries k v m.entries
  nodup := by
    by_cases h : k ∈ m.entries.map Prod.fst
    · rw [keys_assocEntries k v _ h]
      exact m.nodup
    · rw [assocEntries_fresh k v _ h]
      simpa [List.nodup_append, m.nodup] using
        fun a b hab => fun e => h (by simpa using ⟨b, e ▸ hab⟩)

theorem entries_assoc (m : FiniteMap κ ν) (k : κ) (v : ν) :
    (m.assoc k v).entries = assocEntries k v m.entries := rfl

theorem get?_eq_some {m : FiniteMap κ ν} {k : κ} {v : ν} :
    m.get? k = some v ↔ (k, v) ∈ m.entries := by
  obtain ⟨es, hn⟩ := m
  simp only [get?]
  induction es with
  | nil => simp
  | cons e es ih =>
    rw [List.map_cons, List.nodup_cons] at hn
    by_cases he : e.1 = k
    · have hk : ∀ w, (k, w) ∉ es := fun w hw => hn.1 (he ▸ List.mem_map_of_mem (f := Prod.fst) hw)
      obtain ⟨k', v'⟩ := e
      cases he
      simp [hk, eq_comm]
    · have hne : (k, v) ≠ e := fun h => he (by rw [← h])
      simpa [he, hne] using ih hn.2

theorem get?_eq_none {m : FiniteMap κ ν} {k : κ} : m.get? k = none ↔ k ∉ m.keys := by
  simp only [get?, Option.map_eq_none_iff, List.find?_eq_none, decide_eq_true_eq, keys,
    List.mem_map, not_exists, not_and]

theorem get?_assoc (m : FiniteMap κ ν) (k j : κ) (v : ν) :
    (m.assoc k v).get? j = if k = j then some v else m.get? j := by
  unfold get? assoc
  simp only
  induction m.entries with
  | nil => by_cases h : k = j <;> simp [assocEntries, h]
  | cons e es ih =>
    by_cases he : e.1 = k
    · by_cases h : k = j
      · simp [assocEntries, he, h]
      · simp [assocEntries, he, h]
    · simp only [assocEntries, he, ↓reduceIte]
      by_cases h : e.1 = j
      · have hkj : k ≠ j := fun hk => he (h.trans hk.symm)
        simp [h, hkj]
      · simpa [h] using ih

/-- Removes the entry of a key. -/
def dissoc (m : FiniteMap κ ν) (k : κ) : FiniteMap κ ν where
  entries := m.entries.filter fun e => e.1 ≠ k
  nodup := m.nodup.sublist (List.filter_sublist.map _)

theorem get?_dissoc (m : FiniteMap κ ν) (k j : κ) :
    (m.dissoc k).get? j = if j = k then none else m.get? j := by
  by_cases hj : j = k
  · subst hj
    rw [if_pos rfl, get?_eq_none]
    simp [dissoc, keys]
  · rw [if_neg hj]
    refine Option.ext fun v => ?_
    rw [get?_eq_some, get?_eq_some]
    simp [dissoc, hj]

/-- The entries whose values satisfy `q`, counted by their keys. -/
theorem count_entries (m : FiniteMap κ ν) (q : ν → Bool) {ks : List κ} (hks : ks.Nodup)
    (hmem : ∀ k, k ∈ ks ↔ m.get? k ≠ none) :
    (m.entries.filter fun e => q e.2).length = (ks.filter fun k => (m.get? k).any q).length := by
  have hperm : ((m.entries.filter fun e => q e.2).map Prod.fst).Perm
      (ks.filter fun k => (m.get? k).any q) := by
    refine (List.perm_ext_iff_of_nodup ?_ (hks.filter _)).mpr fun k => ?_
    · exact m.nodup.sublist (List.filter_sublist.map _)
    · rw [List.mem_map, List.mem_filter, hmem]
      constructor
      · rintro ⟨⟨k, v⟩, he, rfl⟩
        obtain ⟨he, hq⟩ := List.mem_filter.mp he
        rw [get?_eq_some.mpr he]
        exact ⟨Option.some_ne_none v, hq⟩
      · rintro ⟨-, hq⟩
        obtain ⟨v, hv, hq⟩ := (Option.any_eq_true q _).mp hq
        exact ⟨(k, v), List.mem_filter.mpr ⟨get?_eq_some.mp hv, hq⟩, rfl⟩
  simpa using hperm.length_eq

end Lookup

/-! ## Changing every value -/

def mapValues (f : ν → μ) (m : FiniteMap κ ν) : FiniteMap κ μ where
  entries := m.entries.map fun e => (e.1, f e.2)
  nodup := by simpa [Function.comp_def] using m.nodup

theorem mem_mapValues {f : ν → μ} {m : FiniteMap κ ν} {e : κ × μ} :
    e ∈ (m.mapValues f).entries ↔ ∃ v, (e.1, v) ∈ m.entries ∧ f v = e.2 := by
  simp only [mapValues, List.mem_map, Prod.exists]
  constructor
  · rintro ⟨k, v, hv, rfl⟩
    exact ⟨v, hv, rfl⟩
  · rintro ⟨v, hv, he⟩
    exact ⟨e.1, v, hv, by rw [he]⟩

/-- Adding the keys one by one to an empty map, each with its new value. -/
theorem foldl_assoc_eq_mapValues [DecidableEq κ] (f : ν → μ) (m : FiniteMap κ ν) :
    m.entries.foldl (fun ret e => ret.assoc e.1 (f e.2)) empty = m.mapValues f := by
  obtain ⟨es, hn⟩ := m
  refine FiniteMap.ext ?_
  simp only [mapValues]
  induction es using List.reverseRecOn with
  | nil => rfl
  | append_singleton es e ih =>
    rw [List.map_append, List.nodup_append] at hn
    have hes := ih hn.1
    have hk : e.1 ∉ (es.map fun e => (e.1, f e.2)).map Prod.fst := by
      rw [List.map_map]
      exact fun hmem => hn.2.2 e.1 hmem e.1 (by simp) rfl
    rw [List.foldl_append, List.foldl_cons, List.foldl_nil, entries_assoc, hes,
      assocEntries_fresh _ _ _ hk]
    simp

/-- Where only the entry of one key gives anything, its elements are all there are. -/
theorem flatMap_entry (m : FiniteMap κ ν) (f : κ × ν → List α) {k : κ} {v : ν}
    (hm : (k, v) ∈ m.entries) (hf : ∀ e ∈ m.entries, e.1 ≠ k → f e = []) :
    m.entries.flatMap f = f (k, v) := by
  obtain ⟨es, hn⟩ := m
  simp only at hm hf ⊢
  obtain ⟨es₁, es₂, rfl⟩ := List.append_of_mem hm
  simp only [List.map_append, List.map_cons] at hn
  have h₁ : es₁.flatMap f = [] := by
    refine List.flatMap_eq_nil_iff.mpr fun e he => hf e (by simp [he]) ?_
    rintro rfl
    exact (List.nodup_append.mp hn).2.2 e.1 (List.mem_map_of_mem he) e.1 (by simp) rfl
  have h₂ : es₂.flatMap f = [] := by
    refine List.flatMap_eq_nil_iff.mpr fun e he => hf e (by simp [he]) ?_
    rintro rfl
    exact (List.nodup_cons.mp (List.nodup_append.mp hn).2.1).1 (List.mem_map_of_mem he)
  rw [List.flatMap_append, List.flatMap_cons, h₁, h₂]
  simp

/-! ## Grouping -/

section GroupBy

variable [DecidableEq κ] (f : α → κ)

/-- Appends an element to the group of its key. -/
def conjAt (m : FiniteMap κ (List α)) (x : α) : FiniteMap κ (List α) :=
  m.assoc (f x) ((m.get? (f x)).getD [] ++ [x])

/-- The groups of a list, each in the order of the list. -/
def groupBy (coll : List α) : FiniteMap κ (List α) := coll.foldl (conjAt f) empty

theorem get?_groupBy (coll : List α) (k : κ) :
    (groupBy f coll).get? k = if coll.filter (fun x => f x = k) = [] then none
      else some (coll.filter fun x => f x = k) := by
  induction coll using List.reverseRecOn with
  | nil => simp [groupBy, get?, empty]
  | append_singleton coll x ih =>
    have hstep : groupBy f (coll ++ [x]) = conjAt f (groupBy f coll) x := by
      simp [groupBy, List.foldl_append]
    rw [hstep, conjAt, get?_assoc]
    by_cases h : f x = k
    · rw [if_pos h, h, ih]
      by_cases hf : coll.filter (fun x => f x = k) = []
      · simp [List.filter_append, h, hf]
      · simp [List.filter_append, h, hf]
    · rw [if_neg h, ih]
      simp [List.filter_append, h]

/-- The group of a key: not empty, and the elements with that key. -/
theorem mem_groupBy {coll : List α} {e : κ × List α} (h : e ∈ (groupBy f coll).entries) :
    e.2 ≠ [] ∧ e.2 = coll.filter fun x => f x = e.1 := by
  have hget := get?_eq_some.mpr h
  rw [get?_groupBy] at hget
  split at hget
  · cases hget
  · rename_i hne
    rw [Option.some.injEq] at hget
    exact ⟨hget ▸ hne, hget.symm⟩

theorem mem_keys_groupBy {coll : List α} {k : κ} :
    k ∈ (groupBy f coll).keys ↔ ∃ x ∈ coll, f x = k := by
  rw [← not_iff_not, ← get?_eq_none, get?_groupBy]
  simp [List.filter_eq_nil_iff]

/-- Elements with one key all go to the last group. -/
theorem foldl_conjAt_last (k : κ) (xs : List α) (hx : ∀ x ∈ xs, f x = k) :
    ∀ (m : FiniteMap κ (List α)) (es : List (κ × List α)) (g : List α),
      m.entries = es ++ [(k, g)] → (xs.foldl (conjAt f) m).entries = es ++ [(k, g ++ xs)] := by
  induction xs with
  | nil => intro m es g hm; simpa using hm
  | cons x xs ih =>
    intro m es g hm
    have hk : k ∉ es.map Prod.fst := by
      have hn := m.nodup
      rw [hm, List.map_append, List.nodup_append] at hn
      exact fun hmem => hn.2.2 k hmem k (by simp) rfl
    have hget : m.get? k = some g := get?_eq_some.mpr (by rw [hm]; simp)
    have hassoc : ∀ (l : List (κ × List α)) (v : List α), k ∉ l.map Prod.fst →
        assocEntries k v (l ++ [(k, g)]) = l ++ [(k, v)] := by
      intro l v hl
      induction l with
      | nil => simp [assocEntries]
      | cons e l ihl =>
        simp only [List.map_cons, List.mem_cons, not_or] at hl
        simp [assocEntries, Ne.symm hl.1, ihl hl.2]
    have hfx : f x = k := hx x (by simp)
    have hstep : (conjAt f m x).entries = es ++ [(k, g ++ [x])] := by
      simp only [conjAt, assoc, hfx, hget, Option.getD_some, hm]
      exact hassoc es _ hk
    rw [List.foldl_cons, ih (fun y hy => hx y (by simp [hy])) _ es (g ++ [x]) hstep]
    simp

/-- A block of elements with one new key becomes a new last group. -/
theorem foldl_conjAt_fresh (k : κ) (xs : List α) (hne : xs ≠ []) (hx : ∀ x ∈ xs, f x = k)
    (m : FiniteMap κ (List α)) (hk : k ∉ m.keys) :
    (xs.foldl (conjAt f) m).entries = m.entries ++ [(k, xs)] := by
  cases xs with
  | nil => exact absurd rfl hne
  | cons x xs =>
    have hfx : f x = k := hx x (by simp)
    have hstep : (conjAt f m x).entries = m.entries ++ [(k, [x])] := by
      have hget : m.get? k = none := get?_eq_none.mpr hk
      simp only [conjAt, assoc, hfx, hget, Option.getD_none, List.nil_append]
      exact assocEntries_fresh k [x] m.entries hk
    exact foldl_conjAt_last f k xs (fun y hy => hx y (by simp [hy])) _ _ [x] hstep

/-- **Grouping undoes concatenation.**  Non-empty blocks with distinct keys, each
of elements with the key of the block, come back as the groups. -/
theorem groupBy_blocks (blocks : List (κ × List α)) (hn : (blocks.map Prod.fst).Nodup)
    (hne : ∀ b ∈ blocks, b.2 ≠ []) (hf : ∀ b ∈ blocks, ∀ x ∈ b.2, f x = b.1) :
    (groupBy f (blocks.flatMap Prod.snd)).entries = blocks := by
  induction blocks using List.reverseRecOn with
  | nil => rfl
  | append_singleton blocks b ih =>
    rw [List.map_append, List.nodup_append] at hn
    have hentries := ih hn.1 (fun c hc => hne c (by simp [hc])) (fun c hc => hf c (by simp [hc]))
    have hstep : groupBy f ((blocks ++ [b]).flatMap Prod.snd) =
        b.2.foldl (conjAt f) (groupBy f (blocks.flatMap Prod.snd)) := by
      simp [groupBy, List.foldl_append]
    have hk : b.1 ∉ (groupBy f (blocks.flatMap Prod.snd)).keys := by
      unfold keys
      rw [hentries]
      exact fun hmem => hn.2.2 b.1 hmem b.1 (by simp) rfl
    rw [hstep, foldl_conjAt_fresh f b.1 b.2 (hne b (by simp)) (hf b (by simp)) _ hk, hentries]

end GroupBy

/-! ## Sums over distinct keys -/

/-- When every element of `l` is bounded by an element of `rs` with its key, and
the keys of `l` are distinct, the sum over `l` is bounded by the sum over `rs`. -/
theorem sum_le_sum_of_keys {β : Type} (f : α → κ) (g : β → κ) (w : α → Nat) (v : β → Nat)
    (l : List α) (hn : (l.map f).Nodup) :
    ∀ rs : List β, (∀ a ∈ l, ∃ r ∈ rs, g r = f a ∧ w a ≤ v r) →
      (l.map w).sum ≤ (rs.map v).sum := by
  induction l with
  | nil => intro rs _; simp
  | cons a l ih =>
    intro rs h
    rw [List.map_cons, List.nodup_cons] at hn
    obtain ⟨r, hr, hkey, hle⟩ := h a (by simp)
    obtain ⟨rs₁, rs₂, rfl⟩ := List.append_of_mem hr
    have hrest := ih hn.2 (rs₁ ++ rs₂) fun b hb => by
      obtain ⟨r', hr', hkey', hle'⟩ := h b (by simp [hb])
      refine ⟨r', ?_, hkey', hle'⟩
      have hne : r' ≠ r := fun he => hn.1 (by
        rw [← hkey, ← he, hkey']
        exact List.mem_map_of_mem hb)
      simpa [hne] using hr'
    simp only [List.map_append, List.map_cons, List.sum_append, List.sum_cons] at hrest ⊢
    omega

end FiniteMap
