import GnunetWeb.Worker.Moves

/-!
# The listening socket

`SOCKETS.listening` stands beside the table that it indexes, in the same object.  It is set
by the first socket that listens.

Proved here:

* `Moves.keeps`: what a step does to the listening descriptor and to the descriptors in use;
* `listening_kept`: the listening descriptor is never cleared;
* `listening_iff`: the runs in which it is in the table all the time.
-/

namespace GnunetWeb

/-- The descriptor of a call of `socket_listen`. -/
def Event.listens {Port : Type} : Event Port → Option Desc
  | .socketListen desc _ => some desc
  | _ => none

/-- The descriptor of a call of `socket_close`. -/
def Event.closes {Port : Type} : Event Port → Option Desc
  | .socketClose desc => some desc
  | _ => none

theorem Event.eq_of_closes {Port : Type} {e : Event Port} {desc : Desc}
    (h : e.closes = some desc) : e = .socketClose desc := by
  unfold Event.closes at h
  split at h
  · cases h
    rfl
  · cases h

namespace Worker

variable {Port : Type}

/-- The listening descriptor stays, and no descriptor leaves the table. -/
structure Keeps (w w' : Worker Port) : Prop where
  listening : w'.listening = w.listening
  sockets : ∀ d, w.sockets d ≠ none → w'.sockets d ≠ none

namespace Keeps

variable {w w' : Worker Port}

theorem of_eq (hl : w'.listening = w.listening) (hs : w'.sockets = w.sockets) : Keeps w w' :=
  ⟨hl, fun _ hd => hs ▸ hd⟩

theorem refl (w : Worker Port) : Keeps w w := of_eq rfl rfl

theorem trans {w'' : Worker Port} (h : Keeps w w') (h' : Keeps w' w'') : Keeps w w'' :=
  ⟨h'.listening.trans h.listening, fun d hd => h'.sockets d (h.sockets d hd)⟩

theorem newSocket (desc : Desc) (stream : Option (Stream Port)) :
    Keeps w (w.newSocket desc stream) where
  listening := rfl
  sockets d hd := by
    by_cases he : d = desc
    · simp [Worker.newSocket, he]
    · simpa [Worker.newSocket, he] using hd

theorem of_tasksOnly (h : TasksOnly w w') : Keeps w w' := of_eq h.listening h.sockets

theorem getMessage (data : Incoming Port) : Keeps w (w.getMessage data).1 :=
  (of_eq rfl rfl : Keeps w (w.setIncoming (w.incoming ++ [data]))).trans
    (of_tasksOnly (.getMessage w data))

theorem portMessage (s : SocketRef) (data : Data) : Keeps w (w.portMessage s data).1 :=
  (of_eq rfl rfl : Keeps w (w.setQueue s _)).trans (of_tasksOnly (.wake _ s))

theorem newStream [DecidableEq Port] (desc : Desc) (stream : Option (Stream Port)) (port : Port)
    (s : SocketRef) : Keeps w ((w.newSocket desc stream).setOnmessage port s) where
  listening := rfl
  sockets := (newSocket desc stream).sockets

end Keeps

variable [DecidableEq Port] {w w' : Worker Port} {e : Event Port} {o : List (Output Port)}

omit [DecidableEq Port] in
/-- What a close does. -/
theorem socketClose_eq (w : Worker Port) (desc : Desc) :
    (w.socketClose desc).1.listening = w.listening ∧
      (w.socketClose desc).1.sockets = Function.update w.sockets desc none := by
  unfold socketClose
  split
  case h_1 hd => exact ⟨rfl, (Function.update_eq_self_iff.mpr hd.symm).symm⟩
  case h_2 s hd =>
    split
    · exact ⟨rfl, rfl⟩
    · exact ⟨rfl, rfl⟩

/-- **What a step does**: only `socket_listen` sets the listening descriptor, when there is
none, and only `socket_close` takes a descriptor out. -/
theorem Moves.keeps {r : Worker Port × List (Output Port)} (hm : Moves w e r) :
    Keeps w r.1 ∨
      (∃ desc, e.listens = some desc ∧ w.listening = none ∧ r.1.listening = some desc ∧
        r.1.sockets = w.sockets) ∨
      ∃ desc, e.closes = some desc ∧ r.1.listening = w.listening ∧
        r.1.sockets = Function.update w.sockets desc none := by
  cases hm with
  | answered _ => exact .inl (.refl w)
  | created => exact .inl (.of_eq rfl rfl)
  | connected _ _ _ => exact .inl (.newStream _ _ _ _)
  | sent _ _ => exact .inl (.refl w)
  | closedBound _ _ => exact .inr (.inr ⟨_, rfl, rfl, rfl⟩)
  | closed _ _ => exact .inr (.inr ⟨_, rfl, rfl, rfl⟩)
  | bound _ _ => exact .inl (.newSocket _ _)
  | listened hl => exact .inr (.inl ⟨_, rfl, hl, rfl, rfl⟩)
  | @accepted _ _ _ _ incoming _ _ =>
    have hnext : Keeps w { w with incoming, nextSocket := w.nextSocket + 1 } := .of_eq rfl rfl
    exact .inl (hnext.trans (.newStream _ _ _ _))
  | received _ _ _ => exact .inl (.of_eq rfl rfl)
  | addedDelayed _ => exact .inl (.of_eq rfl rfl)
  | addedRead _ _ => exact .inl (.of_eq rfl rfl)
  | addedWrite _ => exact .inl (.of_eq rfl rfl)
  | cancelled => exact .inl (.of_tasksOnly (.schedulerCancel w _))
  | @fired id callback _ _ =>
    have hclear : Keeps w (w.clearTimeout id) := .of_eq rfl rfl
    exact .inl (hclear.trans (.of_tasksOnly (.runCallback _ id callback)))
  | delivered _ => exact .inl (.portMessage _ _)
  | offered => exact .inl (.getMessage _)
  | stored => exact .inl (.of_eq rfl rfl)

/-! ## The listening descriptor in the table -/

/-- The listening descriptor is in the table. -/
def Listens (w : Worker Port) : Prop := ∀ desc, w.listening = some desc → w.sockets desc ≠ none

/-- A bound socket: its object is in the table, and has no stream. -/
def isBound (w : Worker Port) (desc : Desc) : Bool :=
  (w.sockets desc).any fun s => (w.objects s).stream.isNone

/-- What listens is a bound socket. -/
def ListensBound (w : Worker Port) (e : Event Port) : Prop := ∀ desc ∈ e.listens, w.isBound desc

/-- The listening socket is closed. -/
def ClosesListening (w : Worker Port) (e : Event Port) : Prop :=
  ∃ desc ∈ e.closes, w.listening = some desc

instance (w : Worker Port) (e : Event Port) : Decidable (ListensBound w e) :=
  inferInstanceAs (Decidable (∀ desc ∈ e.listens, w.isBound desc = true))

instance (w : Worker Port) (e : Event Port) : Decidable (ClosesListening w e) :=
  inferInstanceAs (Decidable (∃ desc ∈ e.closes, w.listening = some desc))

/-- The listening descriptor is in the table after the step; a connect message finds a socket
object; and when the listening socket has been closed, a bound one can listen. -/
structure ListeningMeets (w : Worker Port) (e : Event Port)
    (r : Worker Port × List (Output Port)) : Prop where
  table : Listens r.1
  connect : ∀ data, e = .connect data → .threw ∉ r.2
  again : ClosesListening w e → ∀ desc backlog, r.1.isBound desc →
    (r.1.socketListen desc backlog).2 = [.reply ⟨1, none⟩]

/-- The descriptor that listens is never cleared, and nothing else can listen. -/
theorem listening_kept {es : List (Event Port)} {os : List (Output Port)} {desc : Desc}
    (h : system.Steps EventSystem.anyEvent w es os w') (hl : w.listening = some desc) :
    w'.listening = some desc ∧ ∀ desc' backlog, w'.socketListen desc' backlog =
      (w', [.reply ⟨-1, none⟩]) := by
  have hkept : w'.listening = some desc := by
    refine h.invariant (P := fun w => w.listening = some desc) ?_ hl
    intro s e s' o hs _ hst
    rcases (moves_of_step hst).keeps with hk | ⟨_, -, hnone, -⟩ | ⟨_, -, hl', -⟩
    · rw [hk.listening, hs]
    · rw [hs] at hnone
      cases hnone
    · rw [hl', hs]
  refine ⟨hkept, fun desc' backlog => ?_⟩
  rw [socketListen, hkept]

omit [DecidableEq Port] in
/-- A connect message finds the socket object. -/
theorem getMessage_of_listens (h : Listens w) (data : Incoming Port) :
    .threw ∉ (w.getMessage data).2 := by
  unfold getMessage
  simp only
  split
  · exact List.not_mem_nil
  · rename_i desc hl
    split
    case h_1 hd => exact absurd hd (h desc hl)
    case h_2 s _ =>
      unfold wake
      split
      · exact List.not_mem_nil
      · simp

omit [DecidableEq Port] in
theorem Keeps.listens (hk : Keeps w w') (h : Listens w) : Listens w' :=
  fun desc hl => hk.sockets desc (h desc (hk.listening ▸ hl))

/-- **A step that does not close the listening socket.** -/
theorem listens_step (h : Listens w) (hb : ListensBound w e) (hc : ¬ ClosesListening w e)
    (hst : w.step e = some (w', o)) : Listens w' ∧ ListeningMeets w e (w', o) := by
  have hlistens : Listens w' := by
    rcases (moves_of_step hst).keeps with hk | ⟨desc, hdesc, -, hl, hs⟩ | ⟨desc, hdesc, hl, hs⟩
    · exact hk.listens h
    · intro desc' hl'
      cases hl.symm.trans hl'
      have hbound := hb desc hdesc
      rw [hs]
      intro hd
      rw [isBound, hd] at hbound
      cases hbound
    · intro desc' hl'
      rw [hl] at hl'
      have hne : desc' ≠ desc := by
        rintro rfl
        exact hc ⟨desc', hdesc, hl'⟩
      rw [hs, Function.update_of_ne hne]
      exact h desc' hl'
  refine ⟨hlistens, hlistens, ?_, fun hclose => absurd hclose hc⟩
  rintro data rfl
  have ho : o = (w.getMessage data).2 := congrArg Prod.snd (Option.some.inj hst).symm
  rw [ho]
  exact getMessage_of_listens h data

/-- A step that closes the listening socket. -/
theorem not_meets_of_closes {r : Worker Port × List (Output Port)} (hc : ClosesListening w e)
    (hst : w.step e = some r) : ¬ ListeningMeets w e r := by
  obtain ⟨desc, hdesc, hl⟩ := hc
  obtain rfl := Event.eq_of_closes hdesc
  obtain ⟨hl', hs⟩ := socketClose_eq w desc
  cases hst
  intro hmeets
  refine hmeets.table desc (hl'.trans hl) ?_
  rw [hs, Function.update_self]

/-- **The listening socket.**  The descriptor is in the table all the time exactly when the
listening socket is not closed. -/
theorem listening_iff {es : List (Event Port)} {os : List (Output Port)}
    (h : system.Run ListensBound es os w) :
    system.Throughout ListeningMeets es ↔
      system.Throughout (fun (w : Worker Port) e _ => ¬ ClosesListening w e) es := by
  constructor
  · intro hmeets es₁ e es₂ hes os' w' r hrun hst hc
    exact not_meets_of_closes hc hst (hmeets es₁ e es₂ hes os' w' r hrun hst)
  · intro hopen
    have hinit : Listens (init : Worker Port) := fun desc hl => by cases hl
    exact EventSystem.throughout_of_run hinit
      (fun w e r hw he hst => listens_step hw he.1 he.2 hst) (h.of_throughout hopen)

/-- A socket listens, a peer connects, and its socket is closed. -/
theorem listening_iff_accepts : system.Throughout ListeningMeets
    ([.socketCreate 1 1 0, .socketBind 1 110, .socketListen 1 5, .connect ⟨8, "ats"⟩,
      .socketAccept 1 110, .socketClose 2] : List (Event Nat)) := by
  have hrun : ∃ os w, (@system Nat _).Run (fun w e => ListensBound w e ∧ ¬ ClosesListening w e)
      [.socketCreate 1 1 0, .socketBind 1 110, .socketListen 1 5, .connect ⟨8, "ats"⟩,
        .socketAccept 1 110, .socketClose 2] os w :=
    ⟨_, _, .of_restrict (EventSystem.Steps.of_exec (fun _ _ => trivial) rfl)⟩
  obtain ⟨os, w, h⟩ := hrun
  refine (listening_iff (h.mono fun _ _ he => he.1)).mpr ?_
  exact EventSystem.throughout_of_run (I := fun _ => True) trivial
    (fun _ _ _ _ he _ => ⟨trivial, he.2⟩) h

/-- The listening socket is closed: a peer that connects is lost, and another bound socket
cannot listen. -/
theorem listening_closed : ∃ w : Worker Nat,
    system.Run ListensBound [.socketCreate 1 1 0, .socketBind 1 110, .socketListen 1 5,
      .socketClose 1, .connect ⟨8, "ats"⟩, .socketCreate 1 1 0, .socketBind 2 110,
      .socketListen 2 5]
      [.reply ⟨1, none⟩, .reply ⟨1, none⟩, .reply ⟨1, none⟩, .reply ⟨1, none⟩, .threw,
        .reply ⟨2, none⟩, .reply ⟨1, none⟩, .reply ⟨-1, none⟩] w ∧
    w.listening = some 1 ∧ w.sockets 1 = none :=
  ⟨_, .of_restrict (EventSystem.Steps.of_exec (fun _ _ => trivial) rfl), rfl, rfl⟩

end Worker

end GnunetWeb
