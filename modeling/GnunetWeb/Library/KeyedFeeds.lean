import GnunetWeb.Library.Feed
import GnunetWeb.Library.Parties

/-!
# Keyed feeds

Parties that are told values by a key, which is their place in the list.  Each party has a feed
of its own, from which its loop takes.

Proved here:

* `valuesFor_append`, `valuesFor_other`, `valuesFor_own`: the values for a key;
* `FeedIn.Accounts.add`, `FeedIn.Accounts.change`: a new party, and a step of one party, lose no
  value;
* `FeedIn.Accounts.tell`, `FeedIn.Accounts.putNext`: nor does a value that is told, or a put
  with room;
* `FeedIn.weight_putNext`: a put leaves fewer steps.
-/

variable {π α : Type} {capacity : Nat}

/-- The values for a key. -/
def valuesFor (key : α → Nat) (vs : List α) (k : Nat) : List α := vs.filter fun v => key v = k

section ValuesFor

variable {key : α → Nat} {vs : List α} {k : Nat}

theorem valuesFor_append (vs' : List α) :
    valuesFor key (vs ++ vs') k = valuesFor key vs k ++ valuesFor key vs' k :=
  List.filter_append _ _

theorem valuesFor_other (h : ∀ v ∈ vs, key v ≠ k) : valuesFor key vs k = [] :=
  List.filter_eq_nil_iff.mpr fun v hv => by simpa using h v hv

theorem valuesFor_own (h : ∀ v ∈ vs, key v = k) : valuesFor key vs k = vs :=
  List.filter_eq_self.mpr fun v hv => decide_eq_true (h v hv)

theorem key_of_mem_valuesFor {v : α} (h : v ∈ valuesFor key vs k) : key v = k :=
  of_decide_eq_true (List.mem_filter.mp h).2

end ValuesFor

/-- Where a party has its feed. -/
structure FeedIn (π α : Type) (capacity : Nat) where
  feed : π → Feed α capacity
  setFeed : π → Feed α capacity → π
  feed_setFeed : ∀ p f, feed (setFeed p f) = f

namespace FeedIn

variable (L : FeedIn π α capacity) (key : α → Nat)

/-- A value is told to the party of its key, if there is one. -/
def tell (ps : List π) (v : α) : List π × List α :=
  match ps[key v]? with
  | some p => (ps.set (key v) (L.setFeed p ((L.feed p).report v)), [v])
  | none => (ps, [])

/-- The next block of a party begins. -/
def putNext (ps : List π) (k : Nat) : Option (List π) :=
  ps[k]?.bind fun p => (L.feed p).put.map fun f => ps.set k (L.setFeed p f)

/-- The next put of a party is not lost. -/
def HasRoom (ps : List π) (k : Nat) : Prop := ∀ p ∈ ps[k]?, (L.feed p).channel.HasRoom

instance (ps : List π) (k : Nat) : Decidable (L.HasRoom ps k) :=
  inferInstanceAs (Decidable (∀ p ∈ ps[k]?, (L.feed p).channel.HasRoom))

/-- With `T k p vs` what holds of a party that has taken `vs`: each party has taken the first
values for it, and has the others pending. -/
structure Accounts (T : Nat → π → List α → Prop) (os : List α) (ps : List π) : Prop where
  taken : ∀ k p, ps[k]? = some p →
    ∃ vs, T k p vs ∧ vs ++ (L.feed p).pending = valuesFor key os k
  known : ∀ v ∈ os, key v < ps.length

theorem length_tell (ps : List π) (v : α) : (L.tell key ps v).1.length = ps.length := by
  rw [tell]
  split
  · exact List.length_set
  · rfl

variable {L key}

theorem of_mem_tell {ps : List π} {v w : α} (h : w ∈ (L.tell key ps v).2) : w = v := by
  rw [tell] at h
  split at h
  · exact List.mem_singleton.mp h
  · cases h

theorem length_putNext {ps ps' : List π} {k : Nat} (h : L.putNext ps k = some ps') :
    ps'.length = ps.length := by
  obtain ⟨p, -, h⟩ := Option.bind_eq_some_iff.mp h
  obtain ⟨f, -, rfl⟩ := Option.map_eq_some_iff.mp h
  exact List.length_set

namespace Accounts

variable {T T' : Nat → π → List α → Prop} {os new : List α} {ps : List π} {k : Nat} {p p' : π}

theorem nil : L.Accounts key T [] [] where
  taken _ _ h := nomatch h
  known _ h := nomatch h

/-- What a party has pending is for it. -/
theorem key_pending (h : L.Accounts key T os ps) (hp : ps[k]? = some p) :
    ∀ v ∈ (L.feed p).pending, key v = k := by
  obtain ⟨vs, -, hbalance⟩ := h.taken k p hp
  intro v hv
  exact key_of_mem_valuesFor (hbalance ▸ List.mem_append_right vs hv)

theorem mono (h : L.Accounts key T os ps)
    (hT : ∀ k p vs, ps[k]? = some p → T k p vs → T' k p vs) : L.Accounts key T' os ps where
  taken k p hp := by
    obtain ⟨vs, hvs, hbalance⟩ := h.taken k p hp
    exact ⟨vs, hT k p vs hp hvs, hbalance⟩
  known := h.known

/-- **A new party** is told its first values. -/
theorem add (h : L.Accounts key T os ps) (hnew : ∀ v ∈ new, key v = ps.length)
    (hpending : (L.feed p).pending = new) (hT : T ps.length p []) :
    L.Accounts key T (os ++ new) (ps ++ [p]) where
  taken k q hq := by
    rw [valuesFor_append]
    obtain ⟨rfl, rfl⟩ | hq := getElem?_concat_cases hq
    · refine ⟨[], hT, ?_⟩
      rw [valuesFor_other fun v hv => Nat.ne_of_lt (h.known v hv), valuesFor_own hnew, hpending]
    · have hlt : k < ps.length := (List.getElem?_eq_some_iff.mp hq).1
      have hnone : valuesFor key new k = [] :=
        valuesFor_other fun v hv => hnew v hv ▸ Nat.ne_of_gt hlt
      rw [hnone, List.append_nil]
      exact h.taken k q hq
  known v hv := by
    rw [List.length_append]
    obtain hv | hv := List.mem_append.mp hv
    · exact Nat.lt_succ_of_lt (h.known v hv)
    · exact hnew v hv ▸ Nat.lt_succ_self _

/-- **A step of one party**, which takes `ws` and is told `new`. -/
theorem change (h : L.Accounts key T os ps) (hp : ps[k]? = some p)
    (hnew : ∀ v ∈ new, key v = k)
    (hown : ∀ vs, T k p vs → ∃ ws, T' k p' (vs ++ ws) ∧
      ws ++ (L.feed p').pending = (L.feed p).pending ++ new)
    (hother : ∀ j q vs, j ≠ k → ps[j]? = some q → T j q vs → T' j q vs) :
    L.Accounts key T' (os ++ new) (ps.set k p') where
  taken j q hq := by
    rw [valuesFor_append]
    obtain ⟨rfl, rfl⟩ | ⟨hne, hq⟩ := getElem?_set_cases hq
    · obtain ⟨vs, hvs, hbalance⟩ := h.taken _ p hp
      obtain ⟨ws, hws, hstep⟩ := hown vs hvs
      refine ⟨vs ++ ws, hws, ?_⟩
      rw [List.append_assoc, hstep, ← List.append_assoc, hbalance, valuesFor_own hnew]
    · obtain ⟨vs, hvs, hbalance⟩ := h.taken j q hq
      have hnone : valuesFor key new j = [] :=
        valuesFor_other fun v hv => hnew v hv ▸ Ne.symm hne
      exact ⟨vs, hother j q vs hne hq hvs, by rw [hbalance, hnone, List.append_nil]⟩
  known v hv := by
    rw [List.length_set]
    obtain hv | hv := List.mem_append.mp hv
    · exact h.known v hv
    · exact hnew v hv ▸ (List.getElem?_eq_some_iff.mp hp).1

/-- **A step of one party** that is told nothing. -/
theorem take (h : L.Accounts key T os ps) (hp : ps[k]? = some p)
    (hown : ∀ vs, T k p vs → ∃ ws, T' k p' (vs ++ ws) ∧
      ws ++ (L.feed p').pending = (L.feed p).pending)
    (hother : ∀ j q vs, j ≠ k → ps[j]? = some q → T j q vs → T' j q vs) :
    L.Accounts key T' os (ps.set k p') := by
  have hchange : L.Accounts key T' (os ++ []) (ps.set k p') := by
    refine h.change hp nofun (fun vs hvs => ?_) hother
    obtain ⟨ws, hws, hstep⟩ := hown vs hvs
    exact ⟨ws, hws, hstep.trans (List.append_nil _).symm⟩
  rwa [List.append_nil] at hchange

/-- **A value is told.** -/
theorem tell (h : L.Accounts key T os ps) (v : α)
    (hT : ∀ p vs, T (key v) p vs → T (key v) (L.setFeed p ((L.feed p).report v)) vs) :
    L.Accounts key T (os ++ (L.tell key ps v).2) (L.tell key ps v).1 := by
  rw [FeedIn.tell]
  split
  · next p hp =>
    refine h.change hp (fun w hw => congrArg key (List.mem_singleton.mp hw))
      (fun vs hvs => ⟨[], ?_, ?_⟩) fun _ _ _ _ _ hvs => hvs
    · rw [List.append_nil]
      exact hT p vs hvs
    · rw [L.feed_setFeed, Feed.pending_report]
      rfl
  · rwa [List.append_nil]

/-- **A put with room** loses nothing. -/
theorem putNext (h : L.Accounts key T os ps) {ps' : List π} (hput : L.putNext ps k = some ps')
    (hroom : L.HasRoom ps k)
    (hT : ∀ p vs f, T k p vs → (L.feed p).put = some f → T k (L.setFeed p f) vs) :
    L.Accounts key T os ps' := by
  obtain ⟨p, hp, hput⟩ := Option.bind_eq_some_iff.mp hput
  obtain ⟨f, hf, rfl⟩ := Option.map_eq_some_iff.mp hput
  refine h.take hp (fun vs hvs => ⟨[], ?_, ?_⟩) fun _ _ _ _ _ hvs => hvs
  · rw [List.append_nil]
    exact hT p vs f hvs hf
  · rw [L.feed_setFeed, List.nil_append, Feed.pending_put (hroom p hp) hf]

end Accounts

/-! ## Steps that are left -/

theorem putNext_none {ps : List π} {k : Nat} {p : π} (h : L.putNext ps k = none)
    (hp : ps[k]? = some p) : (L.feed p).put = none := by
  rw [putNext, hp, Option.bind_some, Option.map_eq_none_iff] at h
  exact h

/-- **A put leaves fewer steps.** -/
theorem weight_putNext {w : π → Nat}
    (hw : ∀ p f, (L.feed p).put = some f → w (L.setFeed p f) < w p) {ps ps' : List π} {k : Nat}
    (h : L.putNext ps k = some ps') : (ps'.map w).sum < (ps.map w).sum := by
  obtain ⟨p, hp, h⟩ := Option.bind_eq_some_iff.mp h
  obtain ⟨f, hf, rfl⟩ := Option.map_eq_some_iff.mp h
  exact sum_set_lt (n := 0) w hp (hw p f hf)

end FeedIn
