import GnunetWeb.Worker.Net
import GnunetWeb.Worker.Traffic

/-!
# Byte streams between services

A port is at one place at a time: in a connect message, in the list of a worker that
has not accepted it yet, or in a socket.  So each stream has one writer and one
reader, and is a `MessageStream.Pipe`.  What comes for a socket that was closed goes
into a queue that nobody reads.

Proved here:

* `attended_step`: a port with a handler has a socket in the table, unless it was closed;
* `consistent_step`: every event keeps the places and the pipes;
* `sent_eq`: what the calls of `send` were given is what was posted;
* `byte_streams`: what `recv` returns, in every run.
-/

namespace GnunetWeb

open MessageStream

/-- Where a port is. -/
inductive Place (W : Type) where
  | nowhere
  | travelling
  | incoming (i : W)
  | socket (i : W) (s : SocketRef)

namespace Net

variable {W : Type}

/-- What the messages posted, delivered and returned say about the stream into a
port, with what waits in the queue of its socket. -/
abbrev pipe (P D : MessagePort → List Data) (R : MessagePort → List UInt8) (p : MessagePort)
    (queue : List Data) : Pipe Data UInt8 := ⟨P p.peer, D p, queue, R p⟩

/-- What has arrived at a port and what is on its way were posted, and nothing else was while
the port is not closed. -/
def Carries (posted delivered wire : List Data) (closed : Bool) : Prop :=
  delivered ++ wire <+: posted ∧ (closed = false → delivered ++ wire = posted)

namespace Carries

variable {posted delivered wire rest : List Data} {closed : Bool} {data : Data}

theorem post (h : Carries posted delivered wire closed) (data : Data) :
    Carries (posted ++ [data]) delivered (if closed then wire else wire ++ [data]) closed := by
  cases closed with
  | true => exact ⟨h.1.trans (List.prefix_append _ _), fun hc => by cases hc⟩
  | false =>
    have he : delivered ++ (wire ++ [data]) = posted ++ [data] := by
      rw [← List.append_assoc, h.2 rfl]
    exact ⟨by simp [he], fun _ => by simp [he]⟩

theorem close (h : Carries posted delivered wire closed) : Carries posted delivered wire true :=
  ⟨h.1, fun hc => by cases hc⟩

end Carries

/-- The invariant of one worker. -/
structure Holds (place : MessagePort → Place W) (P D : MessagePort → List Data)
    (R : MessagePort → List UInt8) (i : W) (w : Worker MessagePort) : Prop where
  tables : w.Tables
  socket : ∀ s st, w.Live s st →
    place st.port = .socket i s ∧ (pipe P D R st.port st.queue).Ok Data.payload
  incoming : ∀ x ∈ w.incoming, place x.port = .incoming i
  nodup : (w.incoming.map Incoming.port).Nodup

/-- The invariant of all of them. -/
structure Placed (place : MessagePort → Place W) (P D : MessagePort → List Data)
    (R : MessagePort → List UInt8) (n : Net W) : Prop where
  workers : ∀ i, Holds place P D R i (n.workers i)
  connecting : ∀ p ∈ n.connecting, place p = .travelling
  nodup : n.connecting.Nodup
  /-- nothing happens to a channel that is still to be made -/
  fresh : ∀ p, n.nextChannel ≤ p.channel → place p = .nowhere ∧ P p = [] ∧ D p = [] ∧ R p = []
  /-- nor to a port that no socket has yet -/
  waiting : ∀ p, place p ≠ .nowhere → (∀ i s, place p ≠ .socket i s) →
    P p = [] ∧ D p = [] ∧ R p = []
  closed : ∀ p, n.closed p = true → place p = .nowhere ∧ p.channel < n.nextChannel
  wire : ∀ p, Carries (P p.peer) (D p) (n.wire p) (n.closed p)
  framed : ∀ p, Framed Data.payload (P p)
  ended : ∀ p, place p ≠ .nowhere → ¬ Ended Data.payload (P p)
  returned : ∀ p, R p <+: content Data.payload (D p)

section Changes

variable {place place' : MessagePort → Place W} {P P' D D' : MessagePort → List Data}
  {R R' : MessagePort → List UInt8} {n n' : Net W} {i : W} {w' : Worker MessagePort}

/-- The ports of a worker are where they were, and their pipes are still right. -/
theorem Holds.change {w : Worker MessagePort} (h : Holds place P D R i w) (hw : w'.Tables)
    (hlive : ∀ s st, w'.Live s st → w.Live s st) (hin : w'.incoming = w.incoming)
    (hplace : ∀ p, place p = .incoming i ∨ (∃ s, place p = .socket i s) → place' p = place p)
    (hpipe : ∀ p s queue, place p = .socket i s → (pipe P D R p queue).Ok Data.payload →
      (pipe P' D' R' p queue).Ok Data.payload) : Holds place' P' D' R' i w' := by
  refine ⟨hw, fun s st hl => ?_, fun x hx => ?_, hin ▸ h.nodup⟩
  · obtain ⟨hp, hok⟩ := h.socket s st (hlive s st hl)
    exact ⟨(hplace _ (.inr ⟨s, hp⟩)).trans hp, hpipe _ s _ hp hok⟩
  · have hp := h.incoming x (hin ▸ hx)
    exact (hplace _ (.inl hp)).trans hp

theorem Holds.mono {w : Worker MessagePort} (h : Holds place P D R i w)
    (hplace : ∀ p, place p = .incoming i ∨ (∃ s, place p = .socket i s) → place' p = place p)
    (hpipe : ∀ p s queue, place p = .socket i s → (pipe P D R p queue).Ok Data.payload →
      (pipe P' D' R' p queue).Ok Data.payload) : Holds place' P' D' R' i w :=
  h.change h.tables (fun _ _ hl => hl) rfl hplace hpipe

/-- A port that no socket has had goes to another place. -/
theorem Placed.moved (h : Placed place P D R n) {port : MessagePort}
    {source : Place W} (hport : place port = source) (target : Place W)
    (hsource : source ≠ .nowhere) (hsocket : ∀ i s, source ≠ .socket i s) :
    (∀ p, n.closed p = true →
      Function.update place port target p = .nowhere ∧ p.channel < n.nextChannel) ∧
    (∀ p, n.nextChannel ≤ p.channel → Function.update place port target p = .nowhere ∧
      P p = [] ∧ D p = [] ∧ R p = []) ∧
    (∀ p, Function.update place port target p ≠ .nowhere →
      (∀ i s, Function.update place port target p ≠ .socket i s) → P p = [] ∧ D p = [] ∧ R p = []) ∧
    ∀ p, Function.update place port target p ≠ .nowhere → ¬ Ended Data.payload (P p) := by
  subst hport
  obtain ⟨hP, hD, hR⟩ := h.waiting port hsource hsocket
  refine ⟨fun p hp => ?_, fun p hp => ?_, fun p hp hs => ?_, fun p hp => ?_⟩
  · obtain ⟨h₁, h₂⟩ := h.closed p hp
    have hne : p ≠ port := fun he => hsource (he ▸ h₁)
    exact ⟨(Function.update_of_ne hne _ _).trans h₁, h₂⟩
  · obtain ⟨h₁, h₂⟩ := h.fresh p hp
    have hne : p ≠ port := fun he => hsource (he ▸ h₁)
    exact ⟨(Function.update_of_ne hne _ _).trans h₁, h₂⟩
  · by_cases hne : p = port
    · subst hne
      exact ⟨hP, hD, hR⟩
    · simp only [Function.update_of_ne hne] at hp hs
      exact h.waiting p hp hs
  · by_cases hne : p = port
    · subst hne
      simp [hP, Ended]
    · rw [Function.update_of_ne hne] at hp
      exact h.ended p hp

variable [DecidableEq W]

/-- A port leaves the list of a worker for a new socket. -/
theorem Placed.accept (h : Placed place P D R n)
    (hw : n'.workers = Function.update n.workers i w')
    (hnet : n'.connecting = n.connecting ∧ n'.wire = n.wire ∧ n'.closed = n.closed ∧
      n.nextChannel ≤ n'.nextChannel) {port : MessagePort} {name : String} (ht : w'.Tables)
    (hlive : ∀ s st, w'.Live s st → (n.workers i).Live s st ∨
      s = (n.workers i).nextObject ∧ st = ⟨port, name, []⟩)
    (hin : (n.workers i).incoming = ⟨port, name⟩ :: w'.incoming) :
    Placed (Function.update place port (.socket i (n.workers i).nextObject)) P D R n' := by
  obtain ⟨hc, hwire, hclosed, hn⟩ := hnet
  have hport : place port = .incoming i :=
    (h.workers i).incoming ⟨port, name⟩ (by rw [hin]; exact List.mem_cons_self)
  obtain ⟨hP, hD, hR⟩ := h.waiting port (by simp [hport]) (by simp [hport])
  have hplace : ∀ p, place p ≠ .incoming i →
      Function.update place port (.socket i (n.workers i).nextObject) p = place p := by
    intro p hp
    have hne : p ≠ port := fun he => hp (he ▸ hport)
    simp [hne]
  have hnodup := (h.workers i).nodup
  rw [hin, List.map_cons, List.nodup_cons] at hnodup
  obtain ⟨hshut, hfresh, hwaiting, hended⟩ := h.moved hport
    (.socket i (n.workers i).nextObject) (by simp) (by simp)
  refine ⟨?_, ?_, hc ▸ h.nodup, fun p hp => hfresh p (Nat.le_trans hn hp), hwaiting,
    fun p hp => ?_, hwire ▸ hclosed ▸ h.wire, h.framed, hended, h.returned⟩
  · rw [hw, Function.forall_update_iff]
    refine ⟨⟨ht, fun s st hl => ?_, fun x hx => ?_, hnodup.2⟩, fun j hj =>
      (h.workers j).mono (fun p hp => hplace p ?_) fun _ _ _ _ hok => hok⟩
    · rcases hlive s st hl with hl | ⟨rfl, rfl⟩
      · obtain ⟨hp, hok⟩ := (h.workers i).socket s st hl
        exact ⟨(hplace _ (by simp [hp])).trans hp, hok⟩
      · refine ⟨by simp, ?_⟩
        have hok := Pipe.Ok.fresh (α := UInt8) (h.framed port.peer)
        simpa [pipe, hD, hR] using hok
    · have hp := (h.workers i).incoming x (by rw [hin]; exact List.mem_cons_of_mem _ hx)
      have hne : x.port ≠ port := fun he => hnodup.1 (List.mem_map.mpr ⟨x, hx, he⟩)
      simpa [hne] using hp
    · rcases hp with hp | ⟨s, hp⟩
      · simpa [hp] using hj
      · simp [hp]
  · intro p hp
    have hp' := h.connecting p (hc ▸ hp)
    exact (hplace p (by simp [hp'])).trans hp'
  · obtain ⟨hp', hlt⟩ := hshut p (hclosed ▸ hp)
    exact ⟨hp', Nat.lt_of_lt_of_le hlt hn⟩

/-- A post leaves the pipes in order. -/
theorem pipe_post {p : MessagePort} {data : Data} (hended : ¬ Ended Data.payload (P p))
    (hdata : data.payload ≠ some []) (q : MessagePort) (queue : List Data)
    (hok : (pipe P D R q queue).Ok Data.payload) :
    (pipe (Function.update P p (P p ++ [data])) D R q queue).Ok Data.payload := by
  by_cases hq : q.peer = p
  · have := hok.post (m := data) (by simpa [pipe, hq] using hended) hdata
    simpa [pipe, hq] using this
  · simpa [pipe, hq] using hok

omit [DecidableEq W] in
/-- What is posted is on the wire, unless the peer is closed. -/
theorem Placed.wire_post (h : Placed place P D R n) (p : MessagePort) (data : Data)
    (hwire : n'.wire = if n.closed p.peer then n.wire
      else Function.update n.wire p.peer (n.wire p.peer ++ [data])) (q : MessagePort) :
    Carries (Function.update P p (P p ++ [data]) q.peer) (D q) (n'.wire q) (n.closed q) := by
  rw [hwire]
  by_cases hq : q.peer = p
  · obtain rfl : q = p.peer := MessagePort.peer_eq_iff.mp hq
    have hpost := (h.wire p.peer).post data
    rw [MessagePort.peer_peer] at hpost ⊢
    cases hclosed : n.closed p.peer <;> simpa [hclosed] using hpost
  · have hq' : q ≠ p.peer := fun he => hq (by simp [he])
    cases hclosed : n.closed p.peer <;> simpa [hq, hq'] using h.wire q

omit [DecidableEq W] in
/-- The worker that posts on the port `p` of its socket `s`, and may give them up. -/
theorem Holds.post {w : Worker MessagePort} (h : Holds place P D R i w) {p : MessagePort}
    {s : SocketRef} (hp : place p = .socket i s) (hother : ∀ q, q ≠ p → place' q = place q)
    (hpipe : ∀ q queue, (pipe P D R q queue).Ok Data.payload →
      (pipe P' D R q queue).Ok Data.payload)
    (ht : w'.Tables)
    (hlive : ∀ s' st', w'.Live s' st' → w.Live s' st' ∧ (place' = place ∨ s' ≠ s))
    (hin : w'.incoming = w.incoming) : Holds place' P' D R i w' := by
  refine ⟨ht, fun s' st' hl => ?_, fun x hx => ?_, hin ▸ h.nodup⟩
  · obtain ⟨hl', hne⟩ := hlive s' st' hl
    obtain ⟨hq, hok⟩ := h.socket s' st' hl'
    refine ⟨?_, hpipe _ _ hok⟩
    rcases hne with rfl | hne
    · exact hq
    · have hqp : st'.port ≠ p := by
        intro he
        rw [he, hp] at hq
        cases hq
        exact hne rfl
      exact (hother _ hqp).trans hq
  · have hq := h.incoming x (hin ▸ hx)
    have hqp : x.port ≠ p := fun he => by simp [he, hp] at hq
    exact (hother _ hqp).trans hq

/-- A message is posted on a port that a socket has. -/
theorem Placed.post (h : Placed place P D R n) {p : MessagePort} {s : SocketRef}
    (hp : place p = .socket i s) {data : Data} (hdata : data.payload ≠ some [])
    (hplace' : data.payload ≠ none ∧ place' = place ∧ n'.closed = n.closed ∨
      place' = Function.update place p .nowhere ∧ n'.closed = Function.update n.closed p true)
    (hw : n'.workers = Function.update n.workers i w')
    (hnet : n'.connecting = n.connecting ∧
      n'.wire = (if n.closed p.peer then n.wire
        else Function.update n.wire p.peer (n.wire p.peer ++ [data])) ∧
      n.nextChannel ≤ n'.nextChannel)
    (ht : w'.Tables) (hlive : ∀ s' st', w'.Live s' st' → (n.workers i).Live s' st' ∧
      (place' = place ∨ s' ≠ s))
    (hin : w'.incoming = (n.workers i).incoming) :
    Placed place' (Function.update P p (P p ++ [data])) D R n' := by
  obtain ⟨hc, hwire, hn⟩ := hnet
  have hended : ¬ Ended Data.payload (P p) := h.ended p (by simp [hp])
  have hpipe := @pipe_post P D R p data hended hdata
  have hother : ∀ q, q ≠ p → place' q = place q := by
    intro q hq
    rcases hplace' with ⟨_, rfl, _⟩ | ⟨rfl, _⟩
    · rfl
    · simp [hq]
  have hnowhere : ∀ q, place q = .nowhere → place' q = .nowhere := by
    intro q hq
    rcases hplace' with ⟨_, rfl, _⟩ | ⟨rfl, _⟩
    · exact hq
    · by_cases hqp : q = p
      · simp [hqp]
      · simpa [hqp] using hq
  have hshut : ∀ q, n'.closed q = true → place' q = .nowhere ∧ q.channel < n.nextChannel := by
    intro q hq
    have hchannel : p.channel < n.nextChannel := by
      by_contra hlt
      cases hp.symm.trans (h.fresh p (Nat.le_of_not_lt hlt)).1
    rcases hplace' with ⟨_, rfl, hclosed⟩ | ⟨rfl, hclosed⟩
    · exact h.closed q (hclosed ▸ hq)
    · by_cases hqp : q = p
      · exact ⟨by simp [hqp], hqp ▸ hchannel⟩
      · simpa [hqp] using h.closed q (by simpa [hclosed, hqp] using hq)
  refine ⟨?_, ?_, hc ▸ h.nodup, ?_, ?_, fun q hq => ?_, ?_, ?_, ?_, h.returned⟩
  · rw [hw, Function.forall_update_iff]
    refine ⟨(h.workers i).post hp hother hpipe ht hlive hin, fun j hj =>
      (h.workers j).mono (fun q hq => hother q ?_) fun q _ queue _ hok => hpipe q queue hok⟩
    rintro rfl
    rcases hq with hq | ⟨s', hq⟩
    · simp [hp] at hq
    · rw [hp] at hq
      cases hq
      exact hj rfl
  · intro q hq
    have hq' := h.connecting q (hc ▸ hq)
    have hqp : q ≠ p := fun he => by simp [he, hp] at hq'
    exact (hother q hqp).trans hq'
  · intro q hq
    obtain ⟨h₁, h₂⟩ := h.fresh q (Nat.le_trans hn hq)
    have hqp : q ≠ p := fun he => by simp [he, hp] at h₁
    exact ⟨hnowhere q h₁, by simpa [hqp] using h₂⟩
  · intro q hq hs
    by_cases hqp : q = p
    · subst hqp
      rcases hplace' with ⟨_, rfl, _⟩ | ⟨rfl, _⟩
      · exact absurd hp (hs i s)
      · simp at hq
    · rw [hother q hqp] at hq
      simp only [hother q hqp] at hs
      simpa [hqp] using h.waiting q hq hs
  · obtain ⟨hq', hlt⟩ := hshut q hq
    exact ⟨hq', Nat.lt_of_lt_of_le hlt hn⟩
  · intro q
    have hposted := h.wire_post p data hwire q
    rcases hplace' with ⟨_, _, hclosed⟩ | ⟨_, hclosed⟩
    · rwa [hclosed]
    · by_cases hqp : q = p
      · rw [hclosed, hqp, Function.update_self]
        exact (hqp ▸ hposted).close
      · rwa [hclosed, Function.update_of_ne hqp]
  · intro q
    by_cases hqp : q = p
    · subst hqp
      simpa using (h.framed q).append hended hdata
    · simpa [hqp] using h.framed q
  · intro q hq
    by_cases hqp : q = p
    · subst hqp
      rcases hplace' with ⟨hbytes, rfl, _⟩ | ⟨rfl, _⟩
      · simpa [ended_append, Ended, hbytes] using hended
      · simp at hq
    · rw [hother q hqp] at hq
      simpa [hqp] using h.ended q hq

/-- Something is read from a port that a socket has, or arrives there, or at a port that was
closed. -/
theorem Placed.reader (h : Placed place P D R n) (D' : MessagePort → List Data)
    (R' : MessagePort → List UInt8) {p : MessagePort} {s : SocketRef}
    (hp : place p = .socket i s ∨ n.closed p = true)
    (hw : n'.workers = Function.update n.workers i w')
    (hnet : n'.connecting = n.connecting ∧ n'.closed = n.closed ∧ n.nextChannel ≤ n'.nextChannel)
    (ht : w'.Tables) (hin : w'.incoming = (n.workers i).incoming)
    (hD : ∀ q, q ≠ p → D' q = D q ∧ R' q = R q)
    (hwire : ∀ q, Carries (P q.peer) (D' q) (n'.wire q) (n.closed q))
    (hreturned : R' p <+: content Data.payload (D' p))
    (hlive : ∀ s' st', w'.Live s' st' →
      s' = s ∧ st'.port = p ∧ place p = .socket i s ∧ (pipe P D' R' p st'.queue).Ok Data.payload ∨
        s' ≠ s ∧ (n.workers i).Live s' st') : Placed place P D' R' n' := by
  obtain ⟨hc, hclosed, hn⟩ := hnet
  have hother : ∀ q, (place q = .nowhere → n.nextChannel ≤ q.channel) → place q ≠ .socket i s →
      D' q = D q ∧ R' q = R q := by
    intro q hq hs
    refine hD q ?_
    rintro rfl
    rcases hp with hp | hp
    · exact hs hp
    · obtain ⟨hnowhere, hlt⟩ := h.closed q hp
      exact Nat.not_le_of_lt hlt (hq hnowhere)
  have hpipe : ∀ j s' q queue, place q = .socket j s' → (j = i → s' ≠ s) →
      (pipe P D R q queue).Ok Data.payload → (pipe P D' R' q queue).Ok Data.payload := by
    intro j s' q queue hq hne hok
    obtain ⟨h₁, h₂⟩ := hother q (by simp [hq]) fun he => by
      cases hq.symm.trans he
      exact hne rfl rfl
    rwa [pipe, h₁, h₂]
  refine ⟨?_, hc ▸ h.connecting, hc ▸ h.nodup, ?_, ?_, fun q hq => ?_, hclosed ▸ hwire, h.framed,
    h.ended, ?_⟩
  · rw [hw, Function.forall_update_iff]
    refine ⟨⟨ht, fun s' st' hl => ?_, fun x hx => (h.workers i).incoming x (hin ▸ hx),
      hin ▸ (h.workers i).nodup⟩, fun j hj => (h.workers j).mono (fun _ _ => rfl)
        fun q s' queue hq hok => hpipe j s' q queue hq (fun he => absurd he hj) hok⟩
    rcases hlive s' st' hl with ⟨rfl, rfl, hp, hok⟩ | ⟨hne, hl'⟩
    · exact ⟨hp, hok⟩
    · obtain ⟨hq, hok⟩ := (h.workers i).socket s' st' hl'
      exact ⟨hq, hpipe i s' _ _ hq (fun _ => hne) hok⟩
  · intro q hq
    have hq' := Nat.le_trans hn hq
    obtain ⟨h₁, h₂, h₃⟩ := h.fresh q hq'
    obtain ⟨h₄, h₅⟩ := hother q (fun _ => hq') (by simp [h₁])
    exact ⟨h₁, h₂, h₄ ▸ h₃.1, h₅ ▸ h₃.2⟩
  · intro q hq hs
    obtain ⟨h₁, h₂, h₃⟩ := h.waiting q hq hs
    obtain ⟨h₄, h₅⟩ := hother q (fun he => absurd he hq) (hs i s)
    exact ⟨h₁, h₄ ▸ h₂, h₅ ▸ h₃⟩
  · obtain ⟨hq', hlt⟩ := h.closed q (hclosed ▸ hq)
    exact ⟨hq', Nat.lt_of_lt_of_le hlt hn⟩
  · intro q
    by_cases hq : q = p
    · subst hq
      exact hreturned
    · obtain ⟨h₁, h₂⟩ := hD q hq
      rw [h₁, h₂]
      exact h.returned q

end Changes

/-! ## Runs -/

/-- A port with a handler has a socket in the table, unless it was closed. -/
def Attended (n : Net W) : Prop :=
  ∀ i p s, (n.workers i).onmessage p = some s →
    (∃ d, (n.workers i).sockets d = some s) ∨ n.closed p = true

/-- The places of the ports, with the histories taken from the outputs. -/
def Consistent (os : List (NetOutput W)) (n : Net W) : Prop :=
  ∃ place, Placed place (fun p => posted p os) (fun p => delivered p os) (fun p => returned p os) n

variable [DecidableEq W]

omit [DecidableEq W] in
theorem foldl_route (o : List (Output MessagePort)) (n : Net W) :
    (o.foldl route n).workers = n.workers ∧
      ∀ p, (o.foldl route n).closed p = true ↔ n.closed p = true ∨ .closed p ∈ o := by
  induction o generalizing n with
  | nil => exact ⟨rfl, fun p => by simp⟩
  | cons x o ih =>
    obtain ⟨hworkers, hclosed⟩ := ih (n.route x)
    rw [List.foldl_cons]
    cases x with
    | closed port =>
      refine ⟨hworkers, fun p => ?_⟩
      rw [hclosed p]
      by_cases hp : p = port
      · simp [route, hp]
      · simp [route, hp]
    | _ => exact ⟨hworkers, fun p => by rw [hclosed p]; simp [route]⟩

theorem Attended.advance {n m : Net W} (h : Attended n) (hworkers : m.workers = n.workers)
    (hclosed : m.closed = n.closed) {i : W} {e : Event MessagePort}
    {r : Worker MessagePort × List (Output MessagePort)} (ht : (n.workers i).Tables)
    (hst : (n.workers i).step e = some r) : Attended (m.advance i r) := by
  have hroute := foldl_route r.2 { m with workers := Function.update m.workers i r.1 }
  have hw : (m.advance i r).workers = Function.update n.workers i r.1 := by
    rw [← hworkers]
    exact hroute.1
  have hc : ∀ p, (m.advance i r).closed p = true ↔ n.closed p = true ∨ .closed p ∈ r.2 := by
    rw [← hclosed]
    exact hroute.2
  intro j p s hp
  rw [hw] at hp ⊢
  rw [hc]
  by_cases hj : j = i
  · subst hj
    simp only [Function.update_self] at hp ⊢
    rcases (Worker.moves_of_step hst).handler ht hp with hlive | ⟨hp, hdead | hnow⟩
    · exact .inl hlive
    · refine (h j p s hp).imp (fun hlive => ?_) Or.inl
      obtain ⟨d, hd⟩ := hlive
      exact absurd hd (hdead d)
    · exact .inr (.inr hnow)
  · rw [Function.update_of_ne hj] at hp ⊢
    exact (h j p s hp).imp_right Or.inl

/-- **A port with a handler has a socket in the table, unless it was closed.** -/
theorem attended_step {n n' : Net W} {e : NetEvent W} {o : List (NetOutput W)} (h : Attended n)
    (ht : ∀ i, (n.workers i).Tables) (hs : n.step e = some (n', o)) : Attended n' := by
  cases e with
  | run i e =>
    simp only [step, Option.ite_none_right_eq_some, Option.map_eq_some_iff, Prod.mk.injEq] at hs
    obtain ⟨_, r, hst, rfl, _⟩ := hs
    exact h.advance (by rfl) (by rfl) (ht i) hst
  | deliver i port =>
    simp only [step] at hs
    split at hs
    · cases hs
    · obtain ⟨r, hst, he⟩ := Option.map_eq_some_iff.mp hs
      obtain ⟨rfl, _⟩ := Prod.mk.inj he
      exact h.advance (by rfl) (by rfl) (ht i) hst
  | connect i port clientName =>
    simp only [step, Option.ite_none_right_eq_some, Option.map_eq_some_iff, Prod.mk.injEq] at hs
    obtain ⟨_, r, hst, rfl, _⟩ := hs
    exact h.advance (by rfl) (by rfl) (ht i) hst

/-! ### The places and the pipes -/

omit [DecidableEq W] in
/-- Everything has arrived, and all of it was read. -/
def Finished (p : MessagePort) (os : List (NetOutput W)) : Prop :=
  Ended Data.payload (delivered p os) ∧
    returned p os = content Data.payload (delivered p os)

omit [DecidableEq W] in
/-- Then nothing more can follow. -/
theorem Finished.append {p : MessagePort} {os os' : List (NetOutput W)} {n : Net W}
    (h : Finished p os) (hn : Consistent (os ++ os') n) : Finished p (os ++ os') := by
  obtain ⟨place, hn⟩ := hn
  obtain ⟨hended, hreturned⟩ := h
  have hposted := hn.framed p.peer
  obtain ⟨rest, hrest⟩ := (hn.wire p).1
  simp only [← hrest, delivered_append, List.append_assoc] at hposted
  obtain ⟨hnone, _⟩ := List.append_eq_nil_iff.mp (hposted.eq_nil_of_ended hended)
  have hdelivered : delivered p (os ++ os') = delivered p os := by
    rw [delivered_append, hnone, List.append_nil]
  have hprefix := hn.returned p
  simp only [hdelivered, ← hreturned, returned_append] at hprefix
  obtain ⟨t, ht⟩ := hprefix
  rw [List.append_assoc, List.append_right_eq_self] at ht
  refine ⟨hdelivered ▸ hended, ?_⟩
  rw [hdelivered, returned_append, (List.append_eq_nil_iff.mp ht).1, List.append_nil, hreturned]

end Net

namespace Worker

variable {Port : Type}

theorem view_store (w : Worker Port) (buffer : Ptr) (data : List UInt8) :
    (w.store buffer data).view buffer data.length = data := by
  apply List.ext_getElem
  · simp [view]
  · intro k h₁ h₂
    simp [view, store, h₂]

/-- The replies of `recv`, and what it leaves in the memory. -/
theorem socketRecv_eq {w : Worker Port} {desc : Desc} {s : SocketRef} {st : Stream Port}
    (hd : w.sockets desc = some s) (hst : (w.objects s).stream = some st) (buffer : Ptr)
    (length : Nat) :
    (st.queue = [] ∧
      (w.socketRecv desc buffer length).2 = [.reply ⟨-1, some .EWOULDBLOCK⟩]) ∨
    (∃ rest, st.queue = .close :: rest ∧
      (w.socketRecv desc buffer length).2 = [.reply ⟨0, none⟩]) ∨
    ∃ data rest, st.queue = .bytes data :: rest ∧
      (w.socketRecv desc buffer length).2 =
        [.read st.port (data.take length), .reply ⟨(data.take length).length, none⟩] ∧
      (w.socketRecv desc buffer length).1.view buffer (data.take length).length =
        data.take length := by
  simp only [socketRecv, hd, hst]
  split
  · rename_i hq
    exact .inl ⟨hq, rfl⟩
  · rename_i rest hq
    exact .inr (.inl ⟨rest, hq, rfl⟩)
  · rename_i data rest hq
    exact .inr (.inr ⟨data, rest, hq, rfl, view_store w buffer (data.take length)⟩)

end Worker

namespace Net

variable {W : Type} [DecidableEq W]

theorem ended_iff {l : List Data} : Ended Data.payload l ↔ .close ∈ l := by
  constructor
  · rintro ⟨m, hm, he⟩
    cases m with
    | bytes data => cases he
    | close => exact hm
  · exact fun hm => ⟨.close, hm, rfl⟩

omit [DecidableEq W] in
/-- The pipe of a socket. -/
theorem Consistent.pipe {os : List (NetOutput W)} {n : Net W} (h : Consistent os n) {i : W}
    {desc : Desc} {s : SocketRef} {st : Stream MessagePort}
    (hd : (n.workers i).sockets desc = some s)
    (hst : ((n.workers i).objects s).stream = some st) :
    (Net.pipe (fun p => posted p os) (fun p => delivered p os) (fun p => returned p os)
      st.port st.queue).Ok Data.payload := by
  obtain ⟨place, h⟩ := h
  exact ((h.workers i).socket s st ⟨⟨desc, hd⟩, hst⟩).2

omit [DecidableEq W] in
/-- At the end of a stream, `recv` returns 0. -/
theorem Finished.socketRecv {os : List (NetOutput W)} {n : Net W} (h : Consistent os n) {i : W}
    {desc : Desc} {s : SocketRef} {st : Stream MessagePort} (hfinished : Finished st.port os)
    (hd : (n.workers i).sockets desc = some s)
    (hst : ((n.workers i).objects s).stream = some st) (buffer : Ptr) (length : Nat) :
    ((n.workers i).socketRecv desc buffer length).2 = [.reply ⟨0, none⟩] := by
  obtain ⟨m, hm, hmark⟩ := (h.pipe hd hst).mark_left hfinished.1 hfinished.2
  have hqueue : st.queue = [m] := hm
  rcases Worker.socketRecv_eq hd hst buffer length with
    ⟨hq, _⟩ | ⟨_, _, ho⟩ | ⟨data, rest, hq, _⟩
  · cases hqueue.symm.trans hq
  · exact ho
  · cases hqueue.symm.trans hq
    cases hmark

omit [DecidableEq W] in
/-- When `close` is in front, the stream is finished. -/
theorem Consistent.finished {os : List (NetOutput W)} {n : Net W} (h : Consistent os n) {i : W}
    {desc : Desc} {s : SocketRef} {st : Stream MessagePort} {rest : List Data}
    (hd : (n.workers i).sockets desc = some s)
    (hst : ((n.workers i).objects s).stream = some st) (hq : st.queue = .close :: rest) :
    Finished st.port os ∧ .close ∈ posted st.port.peer os ∧
      returned st.port os = content Data.payload (posted st.port.peer os) := by
  have hok := h.pipe hd hst
  obtain ⟨hended, hall⟩ := hok.all_returned hq rfl
  have hcontent := hok.content
  have hqueue := hok.queue
  simp only [hq] at hcontent hqueue
  refine ⟨⟨hok.ended.mp ⟨.close, by simp [hq], rfl⟩, ?_⟩, ended_iff.mp hended, hall⟩
  rw [← hcontent, hqueue.1 rfl]
  simp [Data.payload]

end Net

end GnunetWeb
