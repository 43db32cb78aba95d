import GnunetWeb.Library.EventSystem
import GnunetWeb.Library.Parties
import Mathlib.Data.List.Perm.Basic

/-!
# Messages in flight

The parties of a protocol hold messages that have been sent and not been received.  What a
step sends, receives and leaves in flight has to add up.

Proved here:

* `flatMap_set_perm`: the messages of the parties after a change of one;
* `Steps.balance`: when every step adds up, everything that was sent has been received or is in
  flight, and nothing else.
-/

section Parties

variable {π μ : Type} {l : List π} {i : Nat} {p : π}

variable (held : π → List μ)

/-- One of the parties gives up the messages `out`, and gets the messages `into`. -/
theorem flatMap_set_perm {p' : π} {into out : List μ}
    (hp : l[i]? = some p) (h : (out ++ held p').Perm (held p ++ into)) :
    (out ++ (l.set i p').flatMap held).Perm (l.flatMap held ++ into) := by
  induction l generalizing i with
  | nil => cases hp
  | cons q l ih =>
    cases i with
    | zero =>
      cases hp
      rw [List.set_cons_zero, List.flatMap_cons, List.flatMap_cons, ← List.append_assoc]
      refine (h.append_right _).trans ?_
      rw [List.append_assoc, List.append_assoc]
      exact List.perm_append_comm.append_left _
    | succ i =>
      rw [List.set_cons_succ, List.flatMap_cons, List.flatMap_cons, ← List.append_assoc]
      refine (List.perm_append_comm.append_right _).trans ?_
      rw [List.append_assoc, List.append_assoc]
      exact (ih hp).append_left _

end Parties

namespace EventSystem

variable {σ ε ω μ : Type} {M : EventSystem σ ε ω} {ok : σ → ε → Prop}
  (sent received : ω → Option μ) (flight : σ → List μ)

/-- **The balance rule**, for steps that add up where an invariant holds. -/
theorem Steps.balance {I : σ → Prop}
    (hstep : ∀ s e s' o, I s → ok s e → M.step s e = some (s', o) →
      I s' ∧ (o.filterMap received ++ flight s').Perm (flight s ++ o.filterMap sent))
    {s t : σ} {es : List ε} {os : List ω} (h : M.Steps ok s es os t) (hs : I s) :
    I t ∧ (os.filterMap received ++ flight t).Perm (flight s ++ os.filterMap sent) := by
  induction h with
  | nil => exact ⟨hs, List.Perm.of_eq (List.append_nil _).symm⟩
  | @snoc _ os _ _ _ _ _ hok hst ih =>
    obtain ⟨hI, hperm⟩ := ih
    obtain ⟨hI', hlast⟩ := hstep _ _ _ _ hI hok hst
    refine ⟨hI', ?_⟩
    rw [List.filterMap_append, List.filterMap_append, List.append_assoc (os.filterMap received),
      ← List.append_assoc (flight s)]
    refine (hlast.append_left _).trans ?_
    rw [← List.append_assoc]
    exact hperm.append_right _

end EventSystem
