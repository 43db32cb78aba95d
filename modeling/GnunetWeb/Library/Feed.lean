import GnunetWeb.Library.Channel
import Mathlib.Data.List.TakeWhile

/-!
# Feeds

A callback is told values, and each of them is put into a channel by a block that begins later;
the blocks begin in the order in which they were scheduled.  The loop that reads the channel
can stop at a value, to wait for something else, and reads on from there.

Proved here:

* `Channel.of_resumeUntil`: what a step of such a loop takes;
* `Feed.pending_put`: a put with room changes nothing that the loop is still to take;
* `Feed.pending_of_idle`: a feed without a step has nothing for it;
* `Feed.weight_put`, `Feed.weight_resumeUntil`: there are only so many steps.
-/

namespace Channel

variable {α : Type} {capacity : Nat}

/-- A put is not lost. -/
def HasRoom (c : Channel α capacity) : Prop :=
  c.closed = false ∧ (c.reader.waits ∨ c.values.length < capacity + maxPending)

instance (c : Channel α capacity) : Decidable c.HasRoom := inferInstanceAs (Decidable (_ ∧ _))

/-- The loop has stopped at a value, and has left others. -/
def leave (c : Channel α capacity) (rest : List α) : Channel α capacity where
  reader := .scheduled
  values := rest
  closed := c.closed
  idle h := nomatch h
  ended h := nomatch h

/-- The loop runs until there is nothing to take, or to the first value at which it stops.  It
yields the values before that one, and that one. -/
def resumeUntil (stops : α → Bool) (c : Channel α capacity) :
    Option (Channel α capacity × List α × Option α) :=
  if c.reader.runs then
    match c.inFlight.dropWhile fun v => !stops v with
    | [] => some (c.drained, c.inFlight, none)
    | v :: rest => some (c.leave rest, c.inFlight.takeWhile (fun v => !stops v), some v)
  else none

theorem inFlight_put_of_hasRoom {c : Channel α capacity} (h : c.HasRoom) (v : α) :
    (c.put v).inFlight = c.inFlight ++ [v] := by
  obtain ⟨hopen, hroom⟩ := h
  rw [put]
  split
  · next hc => exact absurd (hopen.symm.trans hc) (by decide)
  · split
    · next hw =>
      have hv : c.values = [] := c.idle (Reader.idle_of_waits hw)
      rw [inFlight, inFlight, Reader.handed_of_waits hw, hv]
      simp [hand, Reader.handed, hv]
    · next hw =>
      have hlt : c.values.length < capacity + maxPending :=
        hroom.resolve_left fun h => absurd (hw.symm.trans h) (by decide)
      rw [if_pos hlt]
      simp [inFlight, enqueue]

/-- A put does not keep the loop from its step. -/
theorem runs_put {c : Channel α capacity} (h : c.reader.runs) (v : α) : (c.put v).reader.runs := by
  rw [put]
  split
  · exact h
  · split
    · rfl
    · split
      · exact h
      · exact h

@[simp] theorem inFlight_leave (c : Channel α capacity) (rest : List α) :
    (c.leave rest).inFlight = rest := rfl

@[simp] theorem inFlight_drained (c : Channel α capacity) : c.drained.inFlight = [] := by
  rw [inFlight, drained, Reader.handed_atEnd]
  rfl

/-- **What a step of the loop takes.** -/
theorem of_resumeUntil {stops : α → Bool} {c c' : Channel α capacity} {vs : List α}
    {stop : Option α} (h : c.resumeUntil stops = some (c', vs, stop)) :
    vs ++ stop.toList ++ c'.inFlight = c.inFlight ∧ (∀ v ∈ vs, stops v = false) ∧
      ∀ v ∈ stop, stops v ∧ c'.reader.runs := by
  rw [resumeUntil] at h
  obtain ⟨-, h⟩ := Option.ite_none_right_eq_some.mp h
  have hsplit := List.takeWhile_append_dropWhile (p := fun v => !stops v) (l := c.inFlight)
  have hbefore : ∀ v ∈ c.inFlight.takeWhile fun v => !stops v, stops v = false := fun v hv =>
    by simpa using List.mem_takeWhile_imp hv
  split at h
  · next hd =>
    cases h
    rw [hd, List.append_nil] at hsplit
    exact ⟨by simp, fun v hv => hbefore v (hsplit.symm ▸ hv), fun v hv => nomatch hv⟩
  · next v rest hd =>
    cases h
    have hv : ¬ (!stops v) = true := by
      have := List.head?_dropWhile_not (fun v => !stops v) c.inFlight
      rw [hd] at this
      simpa using this
    refine ⟨?_, hbefore, ?_⟩
    · rw [inFlight_leave, List.append_assoc]
      exact (congrArg _ hd.symm).trans hsplit
    · rintro w hw
      obtain rfl := Option.some.inj hw
      exact ⟨by simpa using hv, rfl⟩

/-- A loop without a step has nothing to take. -/
theorem inFlight_of_not_runs {c : Channel α capacity} (h : c.reader.runs = false) :
    c.inFlight = [] := by
  by_contra hne
  obtain ⟨c', hc⟩ := resume_of_inFlight hne
  rw [resume, h] at hc
  cases hc

/-- A loop that never stops. -/
theorem resumeUntil_never (c : Channel α capacity) :
    c.resumeUntil (fun _ => false) = c.resume.map fun r => (r.1, r.2, none) := by
  have hnone : c.inFlight.dropWhile (fun _ => !false) = [] :=
    List.dropWhile_eq_nil_iff.mpr fun _ _ => rfl
  rw [resumeUntil, hnone, resume]
  split
  · rfl
  · rfl

end Channel

/-- `scheduled` is what the blocks that have not begun will put. -/
structure Feed (α : Type) (capacity : Nat) where
  channel : Channel α capacity
  scheduled : List α

namespace Feed

variable {α : Type} {capacity : Nat}

/-- The callback is told a value. -/
def report (f : Feed α capacity) (v : α) : Feed α capacity :=
  { f with scheduled := f.scheduled ++ [v] }

/-- The next block begins. -/
def put (f : Feed α capacity) : Option (Feed α capacity) :=
  match f.scheduled with
  | [] => none
  | v :: scheduled => some ⟨f.channel.put v, scheduled⟩

/-- What the loop is still to take. -/
def pending (f : Feed α capacity) : List α := f.channel.inFlight ++ f.scheduled

@[simp] theorem pending_new (vs : List α) : (⟨.new, vs⟩ : Feed α capacity).pending = vs := rfl

@[simp] theorem pending_report (f : Feed α capacity) (v : α) :
    (f.report v).pending = f.pending ++ [v] := (List.append_assoc _ _ _).symm

/-- **A put with room loses nothing.** -/
theorem pending_put {f f' : Feed α capacity} (hroom : f.channel.HasRoom) (h : f.put = some f') :
    f'.pending = f.pending := by
  rw [put] at h
  split at h
  · cases h
  · next v scheduled hs =>
    cases h
    rw [pending, pending, Channel.inFlight_put_of_hasRoom hroom, hs, List.append_assoc]
    rfl

theorem runs_of_put {f f' : Feed α capacity} (hruns : f.channel.reader.runs)
    (h : f.put = some f') : f'.channel.reader.runs := by
  rw [put] at h
  split at h
  · cases h
  · cases h
    exact Channel.runs_put hruns _

/-- A step of the loop takes from the front. -/
theorem pending_resumeUntil {stops : α → Bool} {f : Feed α capacity} {c : Channel α capacity}
    {vs : List α} {stop : Option α} (h : f.channel.resumeUntil stops = some (c, vs, stop)) :
    vs ++ stop.toList ++ { f with channel := c }.pending = f.pending := by
  rw [pending, pending, ← (Channel.of_resumeUntil h).1, List.append_assoc _ c.inFlight]

/-- **A feed without a step has nothing pending.** -/
theorem pending_of_idle {f : Feed α capacity} (hput : f.put = none)
    (hread : f.channel.reader.runs = false) : f.pending = [] := by
  have hs : f.scheduled = [] := by
    rw [put] at hput
    split at hput
    · assumption
    · cases hput
  rw [pending, Channel.inFlight_of_not_runs hread, hs]
  rfl

/-! ## Steps that are left -/

/-- A bound of the steps that the blocks and the loop have left, with three for each value that
is not taken. -/
def weight (f : Feed α capacity) : Nat :=
  6 * f.scheduled.length + 4 * f.channel.inFlight.length + f.channel.reader.runs.toNat

theorem weight_put {f f' : Feed α capacity} (h : f.put = some f') : f'.weight < f.weight := by
  rw [put] at h
  split at h
  · cases h
  · next v scheduled hs =>
    cases h
    have hle := Bool.toNat_le (f.channel.put v).reader.runs
    simp only [weight, hs, List.length_cons]
    obtain he | he := Channel.inFlight_put f.channel v
    · rw [he, List.length_append, List.length_singleton]
      omega
    · rw [he]
      omega

theorem weight_resumeUntil {stops : α → Bool} {f : Feed α capacity} {c : Channel α capacity}
    {vs : List α} {stop : Option α} (h : f.channel.resumeUntil stops = some (c, vs, stop)) :
    { f with channel := c }.weight + 4 * vs.length + 3 * stop.toList.length < f.weight := by
  have hlength := congrArg List.length (Channel.of_resumeUntil h).1
  rw [List.length_append, List.length_append] at hlength
  rw [Channel.resumeUntil] at h
  obtain ⟨hruns, h⟩ := Option.ite_none_right_eq_some.mp h
  rw [weight, weight, hruns]
  split at h
  · cases h
    have hstops : (Reader.atEnd f.channel.closed : Reader α).runs = false := by
      cases f.channel.closed with
      | false => rfl
      | true => rfl
    rw [Channel.inFlight_drained, List.length_nil, Option.toList_none, Channel.drained, hstops]
    simp only [List.length_nil, Bool.toNat_false, Bool.toNat_true]
    omega
  · next rest _ =>
    cases h
    have hle := Bool.toNat_le (f.channel.leave rest).reader.runs
    rw [Option.toList_some, List.length_singleton] at hlength ⊢
    simp only [Bool.toNat_true]
    omega

theorem weight_resume {f : Feed α capacity} {c : Channel α capacity} {vs : List α}
    (h : f.channel.resume = some (c, vs)) : { f with channel := c }.weight < f.weight := by
  have hnever := f.channel.resumeUntil_never
  rw [h, Option.map_some] at hnever
  have hlt : { f with channel := c }.weight + 4 * vs.length + 0 < f.weight :=
    weight_resumeUntil hnever
  omega

end Feed
