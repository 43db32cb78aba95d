import GnunetWeb.Worker.Tasks

/-!
# What a worker does with its streams

Most events leave the streams alone.  `Traffic` lists what the others do to them, and
`traffic_step` says that this is all.
-/

namespace GnunetWeb.Worker

variable {Port : Type}

/-- The socket object `s` is in the table and has the stream `st`. -/
def Live (w : Worker Port) (s : SocketRef) (st : Stream Port) : Prop :=
  (∃ d, w.sockets d = some s) ∧ (w.objects s).stream = some st

end Worker

/-- An output that no other worker gets to see, and that reads nothing. -/
def Output.Silent {Port : Type} : Output Port → Prop
  | .posted _ _ => False
  | .closed _ => False
  | .clientConnect _ _ => False
  | .read _ _ => False
  | _ => True

namespace Worker

variable {Port : Type}

variable {w : Worker Port}

/-! ## Live streams -/

/-- A change of tasks alone makes no stream live. -/
theorem TasksOnly.live {w' : Worker Port} {s : SocketRef} {st : Stream Port}
    (h : TasksOnly w w') (hl : w'.Live s st) : w.Live s st := by
  obtain ⟨⟨d, hd⟩, hst⟩ := hl
  exact ⟨⟨d, h.sockets ▸ hd⟩, (h.stream s).symm.trans hst⟩

theorem wake_silent (s : SocketRef) : ∀ x ∈ (w.wake s).2, x.Silent := by
  unfold wake
  split <;> simp [Output.Silent]

/-! ## The scheduler leaves them alone -/

/-- What does not come from another worker. -/
def Internal : Event Port → Prop
  | .message _ _ => False
  | .connect _ => False
  | _ => True

variable [DecidableEq Port] {e : Event Port} {r : Worker Port × List (Output Port)}

omit [DecidableEq Port] in
/-- The sockets stay in the table, and no port gets a handler. -/
theorem handler_of_kept {w' : Worker Port} {o : List (Output Port)} {p : Port} {s : SocketRef}
    (hd : ∀ d, w.sockets d = some s → w'.sockets d = some s) (hp : w.onmessage p = some s) :
    (∃ d, w'.sockets d = some s) ∨
      w.onmessage p = some s ∧ ((∀ d, w.sockets d ≠ some s) ∨ .closed p ∈ o) := by
  by_cases hlive : ∃ d, w.sockets d = some s
  · obtain ⟨d, hlive⟩ := hlive
    exact .inl ⟨d, hd d hlive⟩
  · exact .inr ⟨hp, .inl (not_exists.mp hlive)⟩

omit [DecidableEq Port] in
theorem portMessage_ports (w : Worker Port) (s : SocketRef) (data : Data) :
    (w.portMessage s data).1.sockets = w.sockets ∧
      (w.portMessage s data).1.onmessage = w.onmessage :=
  ⟨(TasksOnly.wake _ s).sockets, (TasksOnly.wake _ s).onmessage⟩

omit [DecidableEq Port] in
theorem sockets_of_new {desc : Desc} (hfree : w.sockets desc = none) (new : SocketRef)
    {s : SocketRef} (d : Desc) (hd : w.sockets d = some s) :
    Function.update w.sockets desc (some new) d = some s := by
  have hdd : d ≠ desc := by
    rintro rfl
    cases hfree.symm.trans hd
  simpa [hdd] using hd

/-- **Where a handler leads to**: to a socket in the table, or to one that had left it before,
or whose port is closed right now. -/
theorem Moves.handler (hm : Moves w e r) (h : Tables w) {p : Port} {s : SocketRef}
    (hp : r.1.onmessage p = some s) : (∃ d, r.1.sockets d = some s) ∨
      w.onmessage p = some s ∧ ((∀ d, w.sockets d ≠ some s) ∨ .closed p ∈ r.2) := by
  have hnew : ∀ {desc : Desc} {port : Port}, w.sockets desc = none →
      r.1.sockets = Function.update w.sockets desc (some w.nextObject) →
      r.1.onmessage = Function.update w.onmessage port (some w.nextObject) →
      (∃ d, r.1.sockets d = some s) ∨
        w.onmessage p = some s ∧ ((∀ d, w.sockets d ≠ some s) ∨ .closed p ∈ r.2) := by
    intro desc port hfree hsockets ho
    rw [ho] at hp
    by_cases hport : p = port
    · obtain rfl : w.nextObject = s := by simpa [hport] using hp
      exact .inl ⟨desc, by simp [hsockets]⟩
    · refine handler_of_kept (fun d hd => ?_) (by simpa [hport] using hp)
      rw [hsockets]
      exact sockets_of_new hfree _ d hd
  have htasks : TasksOnly w r.1 → (∃ d, r.1.sockets d = some s) ∨
      w.onmessage p = some s ∧ ((∀ d, w.sockets d ≠ some s) ∨ .closed p ∈ r.2) :=
    fun hsame => handler_of_kept (fun d hd => by rw [hsame.sockets]; exact hd)
      (by rw [← hsame.onmessage]; exact hp)
  cases hm with
  | connected _ hfree _ => exact hnew hfree rfl rfl
  | accepted _ _ => exact hnew h.nextSocket_free rfl rfl
  | bound _ hfree => exact handler_of_kept (sockets_of_new hfree _) hp
  | @closedBound desc s' hd hst =>
    refine handler_of_kept (fun d hds => ?_) hp
    have hdd : d ≠ desc := by
      rintro rfl
      obtain rfl : s' = s := Option.some.inj (hd.symm.trans hds)
      obtain ⟨_, st, hst', _⟩ := h.onmessage p s' hp
      cases hst.symm.trans hst'
    simpa [deleteSocket, hdd] using hds
  | @closed desc s' st hd hst =>
    by_cases hs : s' = s
    · subst hs
      obtain ⟨_, st', hst', hport⟩ := h.onmessage p s' hp
      obtain rfl : st = st' := Option.some.inj (hst.symm.trans hst')
      exact .inr ⟨hp, .inr (by simp [hport])⟩
    · refine handler_of_kept (fun d hds => ?_) hp
      have hdd : d ≠ desc := by
        rintro rfl
        exact hs (Option.some.inj (hd.symm.trans hds))
      simpa [deleteSocket, hdd] using hds
  | cancelled => exact htasks (.schedulerCancel w _)
  | @fired id callback _ _ =>
    have hsame := TasksOnly.runCallback (w.clearTimeout id) id callback
    exact htasks ⟨hsame.sockets, hsame.listening, hsame.incoming, hsame.nextSocket,
      hsame.onmessage, hsame.stream⟩
  | delivered _ =>
    obtain ⟨hsockets, ho⟩ := portMessage_ports w _ _
    exact handler_of_kept (fun d hd => by rw [hsockets]; exact hd) (by rw [← ho]; exact hp)
  | @offered data =>
    have hsame := TasksOnly.getMessage w data
    exact handler_of_kept (fun d hd => by rw [hsame.sockets]; exact hd)
      (by rw [hsame.onmessage] at hp; exact hp)
  | _ => exact handler_of_kept (fun _ hd => hd) hp

/-! ## What arrives -/

omit [DecidableEq Port] in
theorem getMessage_incoming (data : Incoming Port) :
    (w.getMessage data).1.incoming = w.incoming ++ [data] ∧
      ∀ x ∈ (w.getMessage data).2, x.Silent := by
  refine ⟨(TasksOnly.getMessage w data).incoming, ?_⟩
  unfold getMessage
  simp only
  split
  · simp
  · split
    · simp [Output.Silent]
    · exact wake_silent _

end Worker

end GnunetWeb
