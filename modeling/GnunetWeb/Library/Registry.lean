import GnunetWeb.Library.FiniteMap

/-!
# Registries

A registry keeps objects under the numbers that it gives them, one after the other.

Proved here:

* `get_register`, `get_unregister`, `get_put`: what is found after each operation;
* `get_next`: the number that is given next is free, so that no number is given twice;
* `get_withdrawn`: an object that is registered for a while leaves the others as they are.
-/

structure Registry (α : Type) where
  next : Nat
  objects : FiniteMap Nat α
  below : ∀ k ∈ objects.keys, k < next

namespace Registry

variable {α : Type}

def empty : Registry α := ⟨0, .empty, nofun⟩

def get (r : Registry α) (k : Nat) : Option α := r.objects.get? k

theorem mem_keys_of_get {r : Registry α} {k : Nat} {a : α} (h : r.get k = some a) :
    k ∈ r.objects.keys := by
  by_contra hk
  exact Option.some_ne_none a (h.symm.trans (FiniteMap.get?_eq_none.mpr hk))

theorem get_isSome_of_mem {m : FiniteMap Nat α} {k : Nat} (h : k ∈ m.keys) :
    ∃ a, m.get? k = some a :=
  Option.ne_none_iff_exists'.mp fun hn => FiniteMap.get?_eq_none.mp hn h

theorem below_assoc (r : Registry α) (a : α) {k : Nat}
    (hk : k ∈ (r.objects.assoc r.next a).keys) : k < r.next + 1 := by
  obtain ⟨b, hb⟩ := get_isSome_of_mem hk
  rw [FiniteMap.get?_assoc] at hb
  split at hb
  · omega
  · have := r.below k (mem_keys_of_get hb)
    omega

def register (r : Registry α) (a : α) : Registry α × Nat where
  fst := ⟨r.next + 1, r.objects.assoc r.next a, fun _ hk => r.below_assoc a hk⟩
  snd := r.next

def unregister (r : Registry α) (k : Nat) : Registry α where
  next := r.next
  objects := r.objects.dissoc k
  below := fun j hj => by
    obtain ⟨b, hb⟩ := get_isSome_of_mem hj
    rw [FiniteMap.get?_dissoc] at hb
    split at hb
    · cases hb
    · exact r.below j (mem_keys_of_get hb)

/-- Another object for one that is there. -/
def put (r : Registry α) (k : Nat) (a : α) (h : (r.get k).isSome) : Registry α where
  next := r.next
  objects := r.objects.assoc k a
  below := fun j hj => by
    obtain ⟨b, hb⟩ := get_isSome_of_mem hj
    rw [FiniteMap.get?_assoc] at hb
    split at hb
    · next hkj =>
      obtain ⟨c, hc⟩ := Option.isSome_iff_exists.mp h
      exact hkj ▸ r.below k (mem_keys_of_get hc)
    · exact r.below j (mem_keys_of_get hb)

variable (r : Registry α) (a : α) (j k : Nat)

theorem get_register : (r.register a).1.get j = if r.next = j then some a else r.get j :=
  FiniteMap.get?_assoc _ _ _ _

theorem get_unregister : (r.unregister k).get j = if j = k then none else r.get j :=
  FiniteMap.get?_dissoc _ _ _

theorem get_put (h : (r.get k).isSome) :
    (r.put k a h).get j = if k = j then some a else r.get j :=
  FiniteMap.get?_assoc _ _ _ _

variable {r j k}

theorem lt_next {a : α} (h : r.get k = some a) : k < r.next := r.below k (mem_keys_of_get h)

/-- **The next number is free.** -/
theorem get_next : r.get r.next = none := by
  cases h : r.get r.next with
  | none => rfl
  | some a => exact absurd (lt_next h) (Nat.lt_irrefl _)

/-- **A registration that is withdrawn** leaves everything else. -/
theorem get_withdrawn {r' : Registry α} (h : ∀ i, i ≠ r.next → r'.get i = r.get i) :
    (r'.unregister r.next).get j = r.get j := by
  rw [get_unregister]
  split
  · next hj => rw [hj, get_next]
  · next hj => exact h j hj

end Registry
