import GnunetWeb.Library.FiniteMap

/-!
# Nested maps

`datastructures.cljs`: a list of records is grouped level by level into a nested
map, and a nested map is flattened back into a list of records.

A level key is a keyword of the record type: it reads a value from a record
(`get`) and writes one (`assoc`).

Proved here:

* `nestedGroupBy_flatten`: grouping undoes flattening;
* `flatten_agree`: flattening undoes grouping, up to the order of records that do not
  agree on the level keys;
* `nestedGroupBy_flatten_inverse`: both, for maps of keywords.
-/

namespace GnunetWeb

/-- A keyword of the records `ρ`, with values in `κ`. -/
structure Key (ρ κ : Type) where
  get : ρ → κ
  assoc : ρ → κ → ρ

/-- The level keys, outermost first. -/
inductive Keys (ρ : Type) : List Type → Type 1
  | nil : Keys ρ []
  | cons {κ : Type} {κs : List Type} [DecidableEq κ] (k : Key ρ κ) (ks : Keys ρ κs) :
      Keys ρ (κ :: κs)

/-- A map of maps, one level for each type of keys. -/
abbrev NestedMap : List Type → Type → Type
  | [], β => β
  | κ :: κs, β => FiniteMap κ (NestedMap κs β)

variable {ρ β : Type}

def nestedGroupBy (innerFn : List ρ → β) :
    {κs : List Type} → Keys ρ κs → List ρ → NestedMap κs β
  | _, .nil, coll => innerFn coll
  | _, @Keys.cons _ _ _ _ k ks, coll =>
    (FiniteMap.groupBy k.get coll).entries.foldl
      (fun ret e => ret.assoc e.1 (nestedGroupBy innerFn ks e.2)) FiniteMap.empty

/-- `leaf` is the last of the level keys, the one of the innermost values. -/
def flattenNestedMaps (leaf : Key ρ β) :
    {κs : List Type} → Keys ρ κs → NestedMap κs (List β) → ρ → List ρ
  | _, .nil, vs, levelAccumulator => vs.map (leaf.assoc levelAccumulator)
  | _, @Keys.cons _ _ _ _ k ks, m, levelAccumulator =>
    m.entries.flatMap fun e => flattenNestedMaps leaf ks e.2 (k.assoc levelAccumulator e.1)

theorem nestedGroupBy_cons (innerFn : List ρ → β) {κ : Type} {κs : List Type} [DecidableEq κ]
    (k : Key ρ κ) (ks : Keys ρ κs) (coll : List ρ) :
    nestedGroupBy innerFn (.cons k ks) coll =
      (FiniteMap.groupBy k.get coll).mapValues (nestedGroupBy innerFn ks) := by
  rw [nestedGroupBy]
  exact FiniteMap.foldl_assoc_eq_mapValues _ _

/-- Equality of nested maps as values: it does not see the iteration orders. -/
def NestedMap.Same : {κs : List Type} → NestedMap κs β → NestedMap κs β → Prop
  | [], a, b => a = b
  | _ :: _, m, n => FiniteMap.SameBy NestedMap.Same m n

theorem NestedMap.same_refl : {κs : List Type} → (m : NestedMap κs β) → NestedMap.Same m m
  | [], _ => rfl
  | _ :: _, m => FiniteMap.sameBy_refl NestedMap.same_refl m

theorem NestedMap.same_symm : {κs : List Type} → (m n : NestedMap κs β) →
    NestedMap.Same m n → NestedMap.Same n m
  | [], _, _, h => Eq.symm h
  | _ :: _, _, _, h => FiniteMap.sameBy_symm NestedMap.same_symm h

/-! ## Grouping undoes flattening -/

/-- Writing any of the keys leaves `g` of a record alone. -/
def Keys.Keep {γ : Type} (g : ρ → γ) (leaf : Key ρ β) : {κs : List Type} → Keys ρ κs → Prop
  | _, .nil => ∀ r v, g (leaf.assoc r v) = g r
  | _, @Keys.cons _ _ _ _ k ks => (∀ r v, g (k.assoc r v) = g r) ∧ ks.Keep g leaf

/-- The keys are distinct: each reads what it wrote last, whatever is written
under the keys after it. -/
def Keys.Lawful (leaf : Key ρ β) : {κs : List Type} → Keys ρ κs → Prop
  | _, .nil => True
  | _, @Keys.cons _ _ _ _ k ks =>
    (∀ r v, k.get (k.assoc r v) = v) ∧ ks.Keep k.get leaf ∧ ks.Lawful leaf

/-- No empty map inside, and leaves that are not empty and satisfy `P`. -/
def NestedMap.Full (P : List β → Prop) : {κs : List Type} → NestedMap κs (List β) → Prop
  | [], vs => vs ≠ [] ∧ P vs
  | _ :: _, m => m.entries ≠ [] ∧ ∀ e ∈ m.entries, NestedMap.Full P e.2

/-- As `Full`, but the outermost map may be empty. -/
def NestedMap.Canonical (P : List β → Prop) {κ : Type} {κs : List Type}
    (m : NestedMap (κ :: κs) (List β)) : Prop :=
  ∀ e ∈ m.entries, @NestedMap.Full β P κs e.2

theorem flatten_keep {γ : Type} (g : ρ → γ) (leaf : Key ρ β) :
    {κs : List Type} → (ks : Keys ρ κs) → ks.Keep g leaf → (m : NestedMap κs (List β)) →
      (acc : ρ) → ∀ r ∈ flattenNestedMaps leaf ks m acc, g r = g acc
  | _, .nil, hk, vs, acc => by
    intro r hr
    obtain ⟨v, _, rfl⟩ := List.mem_map.mp hr
    exact hk acc v
  | _, @Keys.cons _ _ _ _ k ks, hk, m, acc => by
    intro r hr
    obtain ⟨e, _, he⟩ := List.mem_flatMap.mp hr
    rw [flatten_keep g leaf ks hk.2 e.2 _ r he, hk.1]

theorem flatten_ne_nil (P : List β → Prop) (leaf : Key ρ β) :
    {κs : List Type} → (ks : Keys ρ κs) → (m : NestedMap κs (List β)) → m.Full P →
      (acc : ρ) → flattenNestedMaps leaf ks m acc ≠ []
  | _, .nil, vs, hm, acc => by simpa [flattenNestedMaps] using hm.1
  | _, @Keys.cons _ _ _ _ k ks, m, hm, acc => by
    obtain ⟨e, es, he⟩ := List.exists_cons_of_ne_nil hm.1
    have h := flatten_ne_nil P leaf ks e.2 (hm.2 e (by rw [he]; simp)) (k.assoc acc e.1)
    simp [flattenNestedMaps, he, h]

section GroupFlatten

variable (P : List β → Prop) (leaf : Key ρ β) (innerFn : List ρ → List β)

/-- One level: the groups of the flattened map are the flattened inner maps. -/
theorem groupBy_flatten {κ : Type} {κs : List Type} [DecidableEq κ] (k : Key ρ κ)
    (ks : Keys ρ κs) (hget : ∀ r v, k.get (k.assoc r v) = v) (hkeep : ks.Keep k.get leaf)
    (m : NestedMap (κ :: κs) (List β)) (hm : m.Canonical P) (acc : ρ) :
    (FiniteMap.groupBy k.get (flattenNestedMaps leaf (.cons k ks) m acc)).entries =
      m.entries.map fun e => (e.1, flattenNestedMaps leaf ks e.2 (k.assoc acc e.1)) := by
  have hflat : flattenNestedMaps leaf (.cons k ks) m acc =
      (m.entries.map fun e =>
        (e.1, flattenNestedMaps leaf ks e.2 (k.assoc acc e.1))).flatMap Prod.snd := by
    rw [flattenNestedMaps, List.flatMap_map]
  rw [hflat]
  refine FiniteMap.groupBy_blocks k.get _ ?_ ?_ ?_
  · simpa [Function.comp_def] using m.nodup
  · intro b hb
    obtain ⟨e, he, rfl⟩ := List.mem_map.mp hb
    exact flatten_ne_nil P leaf ks e.2 (hm e he) _
  · intro b hb r hr
    obtain ⟨e, _, rfl⟩ := List.mem_map.mp hb
    rw [flatten_keep k.get leaf ks hkeep e.2 _ r hr, hget]

/-- **Grouping undoes flattening**, with an inner function that reads the leaves
back, on a map without empty inner maps. -/
theorem nestedGroupBy_flatten (hinner : ∀ acc vs, P vs → innerFn (vs.map (leaf.assoc acc)) = vs) :
    {κs : List Type} → (ks : Keys ρ κs) → ks.Lawful leaf → (m : NestedMap κs (List β)) →
      m.Full P → (acc : ρ) → nestedGroupBy innerFn ks (flattenNestedMaps leaf ks m acc) = m
  | _, .nil, _, vs, hm, acc => hinner acc vs hm.2
  | _, @Keys.cons _ _ _ _ k ks, hks, m, hm, acc => by
    rw [nestedGroupBy_cons]
    refine FiniteMap.ext ?_
    simp only [FiniteMap.mapValues]
    rw [groupBy_flatten P leaf k ks hks.1 hks.2.1 m hm.2 acc, List.map_map]
    conv_rhs => rw [← List.map_id m.entries]
    refine List.map_congr_left fun e he => ?_
    have := nestedGroupBy_flatten hinner ks hks.2.2 e.2 (hm.2 e he) (k.assoc acc e.1)
    simp [this]

/-- The outermost map may be empty. -/
theorem nestedGroupBy_flatten_canonical
    (hinner : ∀ acc vs, P vs → innerFn (vs.map (leaf.assoc acc)) = vs)
    {κ : Type} {κs : List Type} (ks : Keys ρ (κ :: κs)) (hks : ks.Lawful leaf)
    (m : NestedMap (κ :: κs) (List β)) (hm : m.Canonical P) (acc : ρ) :
    nestedGroupBy innerFn ks (flattenNestedMaps leaf ks m acc) = m := by
  by_cases hne : m.entries = []
  · cases ks with
    | cons k ks =>
      refine FiniteMap.ext ?_
      rw [nestedGroupBy_cons]
      simp [FiniteMap.mapValues, flattenNestedMaps, hne, FiniteMap.groupBy, FiniteMap.empty]
  · exact nestedGroupBy_flatten P leaf innerFn hinner ks hks m ⟨hne, hm⟩ acc

end GroupFlatten

/-! ## Flattening undoes grouping -/

/-- The two records have the same values under every key. -/
def Keys.agree (r r' : ρ) : {κs : List Type} → Keys ρ κs → Bool
  | _, .nil => true
  | _, @Keys.cons _ _ _ _ k ks => decide (k.get r' = k.get r) && ks.agree r r'

theorem Keys.agree_self (r : ρ) : {κs : List Type} → (ks : Keys ρ κs) → ks.agree r r = true
  | _, .nil => rfl
  | _, @Keys.cons _ _ _ _ k ks => by simp [Keys.agree, Keys.agree_self r ks]

theorem Keys.agree_cons {κ : Type} {κs : List Type} [DecidableEq κ] {k : Key ρ κ}
    {ks : Keys ρ κs} {r r' : ρ} :
    (Keys.cons k ks).agree r r' = true ↔ k.get r' = k.get r ∧ ks.agree r r' = true := by
  simp [Keys.agree]

/-- The values of `r` under every key, written to `acc`. -/
def Keys.rewriteTo (leaf : Key ρ β) (r acc : ρ) : {κs : List Type} → Keys ρ κs → ρ
  | _, .nil => leaf.assoc acc (leaf.get r)
  | _, @Keys.cons _ _ _ _ k ks => ks.rewriteTo leaf r (k.assoc acc (k.get r))

/-- The nested map files the leaves of `coll`, in order, under the keys of its records. -/
def NestedMap.Files (leaf : Key ρ β) :
    {κs : List Type} → Keys ρ κs → List ρ → NestedMap κs (List β) → Prop
  | _, .nil, coll, vs => vs = coll.map leaf.get
  | _, @Keys.cons _ _ _ _ k ks, coll, m =>
    (∀ r ∈ coll, k.get r ∈ m.keys) ∧
    ∀ e ∈ m.entries, NestedMap.Files leaf ks (coll.filter fun r => k.get r = e.1) e.2

theorem nestedGroupBy_files (leaf : Key ρ β) :
    {κs : List Type} → (ks : Keys ρ κs) → (coll : List ρ) →
      NestedMap.Files leaf ks coll (nestedGroupBy (List.map leaf.get) ks coll)
  | _, .nil, _ => rfl
  | _, @Keys.cons _ _ _ _ k ks, coll => by
    rw [nestedGroupBy_cons]
    constructor
    · intro r hr
      have hk := (FiniteMap.mem_keys_groupBy k.get).mpr ⟨r, hr, rfl⟩
      simpa [FiniteMap.keys, FiniteMap.mapValues, Function.comp_def] using hk
    · intro e he
      obtain ⟨group, hg, hv⟩ := FiniteMap.mem_mapValues.mp he
      have hgroup : group = coll.filter fun r => k.get r = e.1 := (FiniteMap.mem_groupBy k.get hg).2
      rw [← hv, hgroup]
      exact nestedGroupBy_files leaf ks _

/-- Filing does not depend on the iteration orders. -/
theorem NestedMap.files_of_same (leaf : Key ρ β) :
    {κs : List Type} → (ks : Keys ρ κs) → (coll : List ρ) → (m n : NestedMap κs (List β)) →
      NestedMap.Same m n → NestedMap.Files leaf ks coll m → NestedMap.Files leaf ks coll n
  | _, .nil, _, _, _, hs, hm => Eq.trans (Eq.symm hs) hm
  | _, @Keys.cons _ _ _ _ k ks, coll, m, n, hs, hm => by
    constructor
    · intro r hr
      obtain ⟨e, he, hk⟩ := List.mem_map.mp (hm.1 r hr)
      obtain ⟨e', he', hk', -⟩ := hs.1 e he
      exact List.mem_map.mpr ⟨e', he', hk'.trans hk⟩
    · intro e' he'
      obtain ⟨e, he, hk, hv⟩ := hs.2 e' he'
      rw [← hk]
      exact NestedMap.files_of_same leaf ks _ e.2 e'.2 hv (hm.2 e he)

/-- The records that agree with `r` come out of the nested map in their order. -/
theorem flatten_agree (leaf : Key ρ β) (r : ρ) :
    {κs : List Type} → (ks : Keys ρ κs) → (coll : List ρ) → (m : NestedMap κs (List β)) →
      (acc : ρ) → (∀ x ∈ coll, ks.rewriteTo leaf x acc = x) → NestedMap.Files leaf ks coll m →
      (flattenNestedMaps leaf ks m acc).filter (fun x => ks.agree r x) =
        coll.filter fun x => ks.agree r x
  | _, .nil, coll, vs, acc, hre, hm => by
    have hflat : flattenNestedMaps leaf .nil vs acc = coll := by
      rw [flattenNestedMaps, hm, List.map_map]
      conv_rhs => rw [← List.map_id coll]
      exact List.map_congr_left hre
    rw [hflat]
  | _, @Keys.cons _ _ _ _ k ks, coll, m, acc, hre, hm => by
    -- every entry is a block of the records with its key
    have hblock : ∀ e ∈ m.entries, ∀ r',
        (flattenNestedMaps leaf ks e.2 (k.assoc acc e.1)).filter (fun x => ks.agree r' x) =
          (coll.filter fun x => k.get x = e.1).filter fun x => ks.agree r' x := by
      intro e he r'
      refine flatten_agree leaf r' ks _ e.2 _ ?_ (hm.2 e he)
      intro x hx
      obtain ⟨hx, hk⟩ := List.mem_filter.mp hx
      have hx' := hre x hx
      rwa [Keys.rewriteTo, of_decide_eq_true hk] at hx'
    have hget : ∀ e ∈ m.entries, ∀ x ∈ flattenNestedMaps leaf ks e.2 (k.assoc acc e.1),
        k.get x = e.1 := by
      intro e he x hx
      have hx' : x ∈ List.filter (fun y => ks.agree x y) _ :=
        List.mem_filter.mpr ⟨hx, Keys.agree_self x ks⟩
      rw [hblock e he x] at hx'
      exact of_decide_eq_true (List.mem_filter.mp (List.mem_filter.mp hx').1).2
    rw [flattenNestedMaps, List.filter_flatMap]
    -- the blocks under another key have no record that agrees with `r`
    have hother : ∀ e ∈ m.entries, e.1 ≠ k.get r →
        (flattenNestedMaps leaf ks e.2 (k.assoc acc e.1)).filter
          (fun x => (Keys.cons k ks).agree r x) = [] := by
      intro e he hne
      refine List.filter_eq_nil_iff.mpr fun x hx ha => hne ?_
      exact (hget e he x hx).symm.trans (Keys.agree_cons.mp ha).1
    by_cases hk : k.get r ∈ m.keys
    · obtain ⟨⟨_, v⟩, hv, rfl⟩ := List.mem_map.mp hk
      rw [FiniteMap.flatMap_entry m _ hv hother]
      calc _ = (flattenNestedMaps leaf ks v (k.assoc acc (k.get r))).filter
              (fun x => ks.agree r x) := by
            refine List.filter_congr fun x hx => ?_
            simp [Keys.agree, hget _ hv x hx]
        _ = (coll.filter fun x => k.get x = k.get r).filter fun x => ks.agree r x :=
            hblock _ hv r
        _ = _ := by
            rw [List.filter_filter]
            refine List.filter_congr fun x _ => ?_
            rw [Keys.agree, Bool.and_comm]
    · rw [List.flatMap_eq_nil_iff.mpr fun e he => hother e he fun h =>
        hk (h ▸ List.mem_map_of_mem he)]
      refine (List.filter_eq_nil_iff.mpr fun x hx ha => hk ?_).symm
      rw [← (Keys.agree_cons.mp ha).1]
      exact hm.1 x hx

/-- As every record agrees with itself, no record is lost or made. -/
theorem flatten_perm (leaf : Key ρ β) {κs : List Type} (ks : Keys ρ κs) {coll : List ρ}
    {m : NestedMap κs (List β)} {acc : ρ} (hre : ∀ x ∈ coll, ks.rewriteTo leaf x acc = x)
    (hm : NestedMap.Files leaf ks coll m) :
    (flattenNestedMaps leaf ks m acc).Perm coll := by
  classical
  refine List.perm_iff_count.mpr fun r => ?_
  have hcount : ∀ l : List ρ, (l.filter fun x => ks.agree r x).count r = l.count r :=
    fun l => List.count_filter (p := fun x => ks.agree r x) (Keys.agree_self r ks)
  rw [← hcount, flatten_agree leaf r ks coll m acc hre hm, hcount]

/-! ## Maps of keywords -/

section Keywords

variable {K V : Type} [DecidableEq K]

/-- A keyword of a map; a missing value is read as `nil`. -/
def keyword (nil : V) (k : K) : Key (K → Option V) V where
  get r := (r k).getD nil
  assoc r v := Function.update r k (some v)

def keywords [DecidableEq V] (nil : V) :
    (ks : List K) → Keys (K → Option V) (ks.map fun _ => V)
  | [] => .nil
  | k :: ks => .cons (keyword nil k) (keywords nil ks)

/-- The map has exactly the keys `ks` and `kl`. -/
def HasKeys (ks : List K) (kl : K) (r : K → Option V) : Prop :=
  ∀ k, (r k).isSome ↔ k ∈ ks ∨ k = kl

/-- No empty map inside, and no empty leaves. -/
def NestedMap.Populated : {κs : List Type} → NestedMap κs (List β) → Prop
  | [], vs => vs ≠ []
  | _ :: _, m => m.Canonical fun _ => True

variable (nil : V)

theorem keyword_get_assoc (k : K) (r : K → Option V) (v : V) :
    (keyword nil k).get ((keyword nil k).assoc r v) = v := by
  simp [keyword]

theorem keyword_get_assoc_ne {k j : K} (h : k ≠ j) (r : K → Option V) (v : V) :
    (keyword nil k).get ((keyword nil j).assoc r v) = (keyword nil k).get r := by
  simp [keyword, h]

variable [DecidableEq V]

theorem keywords_agree (r x : K → Option V) (ks : List K) :
    (keywords nil ks).agree r x = true ↔ ∀ k ∈ ks, (x k).getD nil = (r k).getD nil := by
  induction ks with
  | nil => simp [keywords, Keys.agree]
  | cons k ks ih =>
    rw [keywords, Keys.agree_cons, ih, List.forall_mem_cons]
    rfl

theorem agree_iff {ks : List K} {kl : K} {r x : K → Option V} (hr : HasKeys ks kl r)
    (hx : HasKeys ks kl x) :
    (keywords nil ks).agree r x = true ↔ ∀ k ∈ ks, x k = r k := by
  rw [keywords_agree]
  refine forall₂_congr fun k hk => ?_
  obtain ⟨v, hv⟩ := Option.isSome_iff_exists.mp ((hr k).mpr (.inl hk))
  obtain ⟨w, hw⟩ := Option.isSome_iff_exists.mp ((hx k).mpr (.inl hk))
  simp [hv, hw]

theorem rewriteTo_apply (kl : K) (r : K → Option V) (ks : List K) :
    ∀ (acc : K → Option V) (j : K),
      (keywords nil ks).rewriteTo (keyword nil kl) r acc j =
        if j ∈ ks ∨ j = kl then some ((r j).getD nil) else acc j := by
  induction ks with
  | nil =>
    intro acc j
    by_cases hj : j = kl
    · subst hj
      simp [keywords, Keys.rewriteTo, keyword]
    · simp [keywords, Keys.rewriteTo, keyword, hj]
  | cons k ks ih =>
    intro acc j
    rw [keywords, Keys.rewriteTo, ih]
    by_cases hj : j ∈ ks ∨ j = kl
    · rw [if_pos hj, if_pos (hj.imp_left (List.mem_cons_of_mem k))]
    · rw [if_neg hj]
      by_cases hk : j = k
      · subst hk
        simp [keyword]
      · simp [keyword, hk, not_or.mp hj]

/-- A map with exactly the keys is its values written to the empty map. -/
theorem rewriteTo_empty {ks : List K} {kl : K} {r : K → Option V} (hr : HasKeys ks kl r) :
    (keywords nil ks).rewriteTo (keyword nil kl) r (fun _ => none) = r := by
  funext j
  rw [rewriteTo_apply]
  split
  · rename_i hj
    obtain ⟨v, hv⟩ := Option.isSome_iff_exists.mp ((hr j).mpr hj)
    rw [hv]
    rfl
  · rename_i hj
    exact (Option.not_isSome_iff_eq_none.mp fun h => hj ((hr j).mp h)).symm

theorem keywords_keep {k kl : K} (hkl : k ≠ kl) {ks : List K} (hk : k ∉ ks) :
    (keywords nil ks).Keep (keyword nil k).get (keyword nil kl) := by
  induction ks with
  | nil => exact keyword_get_assoc_ne nil hkl
  | cons j ks ih =>
    rw [List.mem_cons, not_or] at hk
    exact ⟨keyword_get_assoc_ne nil hk.1, ih hk.2⟩

/-- Distinct keywords are lawful level keys. -/
theorem keywords_lawful {kl : K} {ks : List K} (hks : ks.Nodup) (hkl : kl ∉ ks) :
    (keywords nil ks).Lawful (keyword nil kl) := by
  induction ks with
  | nil => trivial
  | cons k ks ih =>
    rw [List.nodup_cons] at hks
    rw [List.mem_cons, not_or] at hkl
    exact ⟨keyword_get_assoc nil k, keywords_keep nil (Ne.symm hkl.1) hks.1, ih hks.2 hkl.2⟩

theorem group_flatten_keywords {kl : K} {ks : List K} (hks : ks.Nodup) (hkl : kl ∉ ks)
    (m : NestedMap (ks.map fun _ => V) (List V)) (hm : m.Populated) (acc : K → Option V) :
    nestedGroupBy (List.map (keyword nil kl).get) (keywords nil ks)
      (flattenNestedMaps (keyword nil kl) (keywords nil ks) m acc) = m := by
  have hinner : ∀ (acc : K → Option V) (vs : List V), True →
      (vs.map ((keyword nil kl).assoc acc)).map (keyword nil kl).get = vs := by
    intro acc vs _
    rw [List.map_map]
    conv_rhs => rw [← List.map_id vs]
    exact List.map_congr_left fun v _ => keyword_get_assoc nil kl acc v
  have hlawful := keywords_lawful nil hks hkl
  cases ks with
  | nil => exact nestedGroupBy_flatten _ _ _ hinner _ hlawful m ⟨hm, trivial⟩ acc
  | cons k ks => exact nestedGroupBy_flatten_canonical _ _ _ hinner _ hlawful m hm acc

/-- **Grouping and flattening are inverse**, for any number of levels.  Whatever the
iteration orders of the grouped maps are, flattening gives the list back up to the
order of maps that do not agree; and grouping a flattened nested map gives it back. -/
theorem nestedGroupBy_flatten_inverse {ks : List K} {kl : K} (hks : ks.Nodup) (hkl : kl ∉ ks) :
    (∀ coll : List (K → Option V), (∀ r ∈ coll, HasKeys ks kl r) →
      ∀ m, NestedMap.Same
        (nestedGroupBy (List.map (keyword nil kl).get) (keywords nil ks) coll) m →
        (flattenNestedMaps (keyword nil kl) (keywords nil ks) m fun _ => none).Perm coll ∧
        ∀ r ∈ coll,
          (flattenNestedMaps (keyword nil kl) (keywords nil ks) m fun _ => none).filter
              (fun x => ∀ k ∈ ks, x k = r k) =
            coll.filter fun x => ∀ k ∈ ks, x k = r k) ∧
    (∀ m : NestedMap (ks.map fun _ => V) (List V), m.Populated →
      NestedMap.Same
        (nestedGroupBy (List.map (keyword nil kl).get) (keywords nil ks)
          (flattenNestedMaps (keyword nil kl) (keywords nil ks) m fun _ => none)) m) := by
  constructor
  · intro coll hcoll m hsame
    have hre : ∀ r ∈ coll, (keywords nil ks).rewriteTo (keyword nil kl) r (fun _ => none) = r :=
      fun r hr => rewriteTo_empty nil (hcoll r hr)
    have hfiles := NestedMap.files_of_same (keyword nil kl) (keywords nil ks) coll _ m hsame
      (nestedGroupBy_files _ _ coll)
    have hperm := flatten_perm (keyword nil kl) (keywords nil ks) hre hfiles
    refine ⟨hperm, fun r hr => ?_⟩
    have hagree : ∀ x ∈ coll, (keywords nil ks).agree r x = decide (∀ k ∈ ks, x k = r k) := by
      intro x hx
      rw [Bool.eq_iff_iff, agree_iff nil (hcoll r hr) (hcoll x hx), decide_eq_true_iff]
    rw [← List.filter_congr hagree,
      ← List.filter_congr fun x hx => hagree x (hperm.mem_iff.mp hx)]
    exact flatten_agree _ r _ coll m _ hre hfiles
  · intro m hm
    rw [group_flatten_keywords nil hks hkl m hm]
    exact NestedMap.same_refl m

end Keywords

/-- Two maps with two level keys and a leaf key. -/
theorem nestedGroupBy_flatten_inverse_two :
    (flattenNestedMaps (keyword 0 2) (keywords 0 [0, 1])
      (nestedGroupBy (List.map (keyword 0 2).get) (keywords 0 [0, 1])
        [fun k : Fin 3 => some k.val, fun _ => some 4]) fun _ => none).Perm
      [fun k => some k.val, fun _ => some 4] := by
  have hcoll : ∀ r ∈ [fun k : Fin 3 => some k.val, fun _ => some 4],
      HasKeys [0, 1] 2 r := by
    intro r hr
    rcases List.mem_cons.mp hr with rfl | hr
    · intro k
      revert k
      decide
    · rw [List.mem_singleton.mp hr]
      intro k
      revert k
      decide
  exact ((nestedGroupBy_flatten_inverse 0 (by decide) (by decide)).1 _ hcoll _
    (NestedMap.same_refl _)).1

end GnunetWeb
