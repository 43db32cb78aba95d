import GnunetWeb.Services

/-!
# Connections

The runs of any number of windows and workers.

Proved here:

* `Valid.step`: what every step keeps, and that it adds up;
* `connections_once`: each connection comes to the worker of its service once, unless it is held
  up at a closed window or an ended worker;
* `init_first`: no connection comes before the private key;
* `one_port`: a window has one port to each service.
-/

namespace GnunetWeb.Services

open EventSystem

def Message.isConnect : Message → Bool
  | connect _ _ => true
  | init _ _ => false

def Message.connection (uri : String) : Message → Option Connection
  | connect clientName port => some ⟨uri, clientName, port⟩
  | init _ _ => none

/-- The connections that are under way at a port. -/
def Port.inFlight (port : Port) : List Connection :=
  port.toWorker.filterMap (Message.connection port.uri) ++ port.toWindow.map Request.connection

def State.inFlight (st : State) : List Connection := st.ports.flatMap Port.inFlight

def Output.wanted? : Output → Option Connection
  | wanted connection => some connection
  | incoming _ => none

def Output.incoming? : Output → Option Connection
  | incoming connection => some connection
  | wanted _ => none

/-! ## Valid states -/

/-- The service that a window has a port for. -/
def Known (window : Window) (p : Nat) (uri : String) : Prop :=
  uri = topologyUri ∨ ∃ name, uri = serviceUri name ∧ window.services.get? name = some p

/-- The first message to a worker is its only `init`. -/
def Queued (port : Port) (worker : Worker) : Prop :=
  (∃ key random rest, port.toWorker = .init key random :: rest ∧ ∀ m ∈ rest, m.isConnect) ∨
    (∀ m ∈ port.toWorker, m.isConnect) ∧ port.accepted ∧ worker.privateKey.isSome

structure PortValid (st : State) (p : Nat) (port : Port) : Prop where
  window : ∃ window, st.windows[port.window]? = some window ∧ Known window p port.uri
  worker : ∃ worker, st.workers[port.worker]? = some worker ∧ worker.uri = port.uri ∧
    (port.accepted → p ∈ worker.windows) ∧ Queued port worker

/-- The table of a worker. -/
def TableValid (st : State) (worker : Worker) : Prop :=
  (∀ p ∈ worker.windows, p < st.ports.length) ∧
    (worker.privateKey.isSome → worker.windows ≠ [])

structure Valid (st : State) : Prop where
  port : ∀ (p : Nat) (port : Port), st.ports[p]? = some port → PortValid st p port
  service : ∀ (w : Nat) (window : Window) (name : String) (p : Nat),
    st.windows[w]? = some window → window.services.get? name = some p →
      ∃ port, st.ports[p]? = some port ∧ port.uri = serviceUri name
  table : ∀ (u : Nat) (worker : Worker), st.workers[u]? = some worker → TableValid st worker

def Window.Grows (window window' : Window) : Prop :=
  ∀ name p, window.services.get? name = some p → window'.services.get? name = some p

structure Worker.Grows (worker worker' : Worker) : Prop where
  uri : worker'.uri = worker.uri
  windows : worker.windows ⊆ worker'.windows
  privateKey : worker.privateKey.isSome → worker'.privateKey.isSome

theorem Worker.Grows.refl (worker : Worker) : worker.Grows worker := ⟨rfl, fun _ h => h, id⟩

theorem PortValid.grows {st st' : State} {p : Nat} {port : Port} (h : PortValid st p port)
    (hwindows : ∀ (w : Nat) (window : Window), st.windows[w]? = some window →
      ∃ window', st'.windows[w]? = some window' ∧ window.Grows window')
    (hworkers : ∀ (u : Nat) (worker : Worker), st.workers[u]? = some worker →
      ∃ worker', st'.workers[u]? = some worker' ∧ worker.Grows worker') :
    PortValid st' p port := by
  obtain ⟨⟨window, hw, hknown⟩, ⟨worker, hu, huri, htable, hqueue⟩⟩ := h
  obtain ⟨window', hw', hgrows⟩ := hwindows _ _ hw
  obtain ⟨worker', hu', hgrows'⟩ := hworkers _ _ hu
  refine ⟨⟨window', hw', ?_⟩, ⟨worker', hu', hgrows'.uri.trans huri, fun ha => ?_, ?_⟩⟩
  · exact hknown.imp_right fun ⟨name, hname, hget⟩ => ⟨name, hname, hgrows _ _ hget⟩
  · exact hgrows'.windows (htable ha)
  · exact hqueue.imp_right fun ⟨hall, ha, hkey⟩ => ⟨hall, ha, hgrows'.privateKey hkey⟩

/-! ## Parts of steps -/

namespace Valid

variable {st : State}

theorem init : Valid State.init where
  port _ _ h := nomatch h
  service _ _ _ _ h := nomatch h
  table _ _ h := nomatch h

/-- A window that has the same services. -/
theorem setWindow (h : Valid st) {w : Nat} {window : Window}
    (hw : st.windows[w]? = some window) (window' : Window)
    (hservices : window'.services = window.services)
    (storage : Option (List UInt8)) :
    Valid { st with storage, windows := st.windows.set w window' } where
  port p port hp := by
    refine (h.port p port hp).grows (fun i x hx => ?_) fun u worker hu => ⟨worker, hu, .refl _⟩
    refine getElem?_set_related (R := Window.Grows) (fun _ _ _ hget => hget) hx fun hi => ?_
    subst hi
    obtain rfl := Option.some.inj (hw.symm.trans hx)
    exact fun name p hget => hservices ▸ hget
  service i x name p hx hget := by
    obtain ⟨rfl, rfl⟩ | ⟨-, hx⟩ := getElem?_set_cases hx
    · exact h.service _ _ name p hw (hservices ▸ hget)
    · exact h.service i x name p hx hget
  table := h.table

theorem openWindow (h : Valid st) (random : List UInt8) : Valid (st.openWindow random) := by
  have hempty : ∀ window : Window, window.services = .empty → ∀ name,
      window.services.get? name = none := fun window he name => he ▸ rfl
  generalize hst : st.openWindow random = st'
  rw [State.openWindow] at hst
  split at hst
  all_goals
    subst hst
    refine ⟨fun p port hp => ?_, fun w x name p hx hget => ?_, h.table⟩
    · exact (h.port p port hp).grows
        (fun _ window hw => ⟨window, getElem?_append_of_some hw, fun _ _ hget => hget⟩)
        fun u worker hu => ⟨worker, hu, .refl _⟩
    · obtain ⟨-, rfl⟩ | hx := getElem?_concat_cases hx
      · exact absurd (hget.symm.trans (hempty _ rfl name)) nofun
      · exact h.service w x name p hx hget

/-- A port with other messages. -/
theorem setPort (h : Valid st) {p : Nat} {port : Port} (hp : st.ports[p]? = some port)
    (port' : Port) (huri : port'.uri = port.uri) (hport : PortValid st p port') :
    Valid { st with ports := st.ports.set p port' } where
  port q x hx := by
    obtain ⟨rfl, rfl⟩ | ⟨-, hx⟩ := getElem?_set_cases hx
    · exact hport.grows (fun _ window hw => ⟨window, hw, fun _ _ hget => hget⟩)
        fun u worker hu => ⟨worker, hu, .refl _⟩
    · exact (h.port q x hx).grows (fun _ window hw => ⟨window, hw, fun _ _ hget => hget⟩)
        fun u worker hu => ⟨worker, hu, .refl _⟩
  service w window name q hw hget := by
    obtain ⟨x, hx, hname⟩ := h.service w window name q hw hget
    obtain ⟨x', hx', he⟩ := getElem?_set_related (R := fun x x' => x'.uri = x.uri)
      (fun _ => rfl) hx (p := port') (i := p) fun hq => by
        subst hq
        rw [huri, Option.some.inj (hp.symm.trans hx)]
    exact ⟨x', hx', he.trans hname⟩
  table u worker hu := by
    obtain ⟨htable, hkey⟩ := h.table u worker hu
    exact ⟨fun q hq => by rw [List.length_set]; exact htable q hq, hkey⟩

theorem setWorker (h : Valid st) {u : Nat} {worker : Worker}
    (hu : st.workers[u]? = some worker) (worker' : Worker) (hgrows : worker.Grows worker')
    (htable : TableValid st worker') :
    Valid { st with workers := st.workers.set u worker' } where
  port p port hp := by
    refine (h.port p port hp).grows (fun _ window hw => ⟨window, hw, fun _ _ hget => hget⟩)
      fun i x hx => ?_
    refine getElem?_set_related (R := Worker.Grows) Worker.Grows.refl hx fun hi => ?_
    subst hi
    exact Option.some.inj (hu.symm.trans hx) ▸ hgrows
  service := h.service
  table i x hx := by
    obtain ⟨rfl, rfl⟩ | ⟨-, hx⟩ := getElem?_set_cases hx
    · exact htable
    · exact h.table i x hx

end Valid

theorem startWorker_eq (st : State) (w : Nat) (uri : String) (key random : List UInt8) :
    ∃ u new, st.startWorker w uri key random =
        { st with
          workers := st.workers ++ new
          ports := st.ports ++ [⟨w, u, uri, false, [.init key random], []⟩] } ∧
      (∃ worker, (st.workers ++ new)[u]? = some worker ∧ worker.uri = uri ∧ worker.alive) ∧
      ∀ worker ∈ new, worker.windows = [] ∧ worker.privateKey = none ∧ worker.alive := by
  rw [State.startWorker, State.sharedWorker]
  cases hfind : st.workers.findIdx? fun worker => worker.alive ∧ worker.uri = uri with
  | some u =>
    obtain ⟨hlt, hu, -⟩ := List.findIdx?_eq_some_iff_getElem.mp hfind
    have hu : (st.workers[u]).alive ∧ (st.workers[u]).uri = uri := of_decide_eq_true hu
    refine ⟨u, [], by rw [List.append_nil], ⟨st.workers[u], ?_, hu.2, hu.1⟩, nofun⟩
    rw [List.append_nil, List.getElem?_eq_getElem hlt]
  | none =>
    refine ⟨st.workers.length, [⟨uri, true, [], none, [], []⟩], rfl,
      ⟨_, List.getElem?_concat_length, rfl, rfl⟩, fun worker hworker => ?_⟩
    rw [List.mem_singleton.mp hworker]
    exact ⟨rfl, rfl, rfl⟩

theorem isConnect_concat {l : List Message} (h : ∀ m ∈ l, m.isConnect) (clientName : String)
    (port : Nat) : ∀ m ∈ l ++ [.connect clientName port], m.isConnect := by
  intro m hm
  obtain hm | hm := List.mem_append.mp hm
  · exact h m hm
  · exact List.mem_singleton.mp hm ▸ rfl

namespace Valid

variable {st : State}

/-- A window gets a port. -/
theorem newPort (h : Valid st) {w : Nat} {window : Window}
    (hw : st.windows[w]? = some window) (window' : Window) (uri : String) (key random : List UInt8)
    (hgrows : window.Grows window') (hknown : Known window' st.ports.length uri)
    (hservices : ∀ name p, window'.services.get? name = some p →
      window.services.get? name = some p ∨ p = st.ports.length ∧ uri = serviceUri name) :
    Valid { st.startWorker w uri key random with windows := st.windows.set w window' } := by
  obtain ⟨u, new, he, ⟨worker, hu, huri, -⟩, hnew⟩ := startWorker_eq st w uri key random
  rw [he]
  have hlt := (List.getElem?_eq_some_iff.mp hw).1
  have hwindows : ∀ (i : Nat) (x : Window), st.windows[i]? = some x →
      ∃ x', (st.windows.set w window')[i]? = some x' ∧ x.Grows x' := fun i x hx =>
    getElem?_set_related (R := Window.Grows) (fun _ _ _ hget => hget) hx fun hi => by
      subst hi
      exact Option.some.inj (hw.symm.trans hx) ▸ hgrows
  refine ⟨fun p port hp => ?_, fun i x name p hx hget => ?_, fun i x hx => ?_⟩
  · obtain ⟨rfl, rfl⟩ | hp := getElem?_concat_cases hp
    · exact ⟨⟨window', List.getElem?_set_self hlt, hknown⟩, ⟨worker, hu, huri, nofun,
        .inl ⟨key, random, [], rfl, nofun⟩⟩⟩
    · exact (h.port p port hp).grows hwindows
        fun i x hx => ⟨x, getElem?_append_of_some hx, .refl _⟩
  · obtain ⟨rfl, rfl⟩ | ⟨-, hx⟩ := getElem?_set_cases hx
    · obtain hget | ⟨rfl, rfl⟩ := hservices name p hget
      · obtain ⟨port, hp, hname⟩ := h.service _ _ name p hw hget
        exact ⟨port, getElem?_append_of_some hp, hname⟩
      · exact ⟨_, List.getElem?_concat_length, rfl⟩
    · obtain ⟨port, hp, hname⟩ := h.service i x name p hx hget
      exact ⟨port, getElem?_append_of_some hp, hname⟩
  · obtain hx | hx := List.mem_append.mp (List.mem_of_getElem? hx)
    · obtain ⟨i, hi⟩ := List.mem_iff_getElem?.mp hx
      obtain ⟨htable, hkey⟩ := h.table i x hi
      refine ⟨fun p hp => ?_, hkey⟩
      rw [List.length_append]
      exact Nat.lt_succ_of_lt (htable p hp)
    · obtain ⟨hnone, hkey, -⟩ := hnew x hx
      exact ⟨fun p hp => by simp [hnone] at hp, fun hk => by simp [hkey] at hk⟩

/-- A window posts a connection to a service that it knows. -/
theorem postMessage (h : Valid st) {p : Nat} {port : Port} (hp : st.ports[p]? = some port)
    (clientName : String) (messagePort : Nat) :
    Valid (st.postMessage p (.connect clientName messagePort)) := by
  rw [State.postMessage, modify_of_some hp]
  obtain ⟨hwindow, worker, hu, huri, htable, hqueue⟩ := h.port p port hp
  refine h.setPort hp _ rfl ⟨hwindow, worker, hu, huri, htable, ?_⟩
  obtain ⟨key, random, rest, hinit, hrest⟩ | ⟨hall, haccepted, hkey⟩ := hqueue
  · refine .inl ⟨key, random, rest ++ [.connect clientName messagePort], ?_, ?_⟩
    · simp [hinit]
    · exact isConnect_concat hrest clientName messagePort
  · exact .inr ⟨isConnect_concat hall clientName messagePort, haccepted, hkey⟩

end Valid

/-! ## What is under way -/

variable {st st' : State}

theorem inFlight_setPort {p : Nat} {port port' : Port} (hp : st.ports[p]? = some port)
    (out into : List Connection) (h : (out ++ port'.inFlight).Perm (port.inFlight ++ into)) :
    (out ++ State.inFlight { st with ports := st.ports.set p port' }).Perm
      (st.inFlight ++ into) := flatMap_set_perm Port.inFlight hp h

theorem inFlight_startWorker (w : Nat) (uri : String) (key random : List UInt8) :
    (st.startWorker w uri key random).inFlight = st.inFlight := by
  obtain ⟨u, new, he, -⟩ := startWorker_eq st w uri key random
  rw [he, State.inFlight, List.flatMap_append]
  exact List.append_nil _

theorem inFlight_postMessage {p : Nat} {port : Port} (hp : st.ports[p]? = some port)
    (clientName : String) (messagePort : Nat) :
    (st.postMessage p (.connect clientName messagePort)).inFlight.Perm
      (st.inFlight ++ [⟨port.uri, clientName, messagePort⟩]) := by
  rw [State.postMessage, modify_of_some hp]
  refine inFlight_setPort hp [] _ ?_
  rw [Port.inFlight, Port.inFlight, List.filterMap_append, List.nil_append, List.append_assoc,
    List.append_assoc]
  exact List.perm_append_comm.append_left _

/-- A client is connected to a service, whether its window knows it or not. -/
theorem clientConnect_valid (h : Valid st) {w : Nat} {window : Window}
    (hw : st.windows[w]? = some window) (r : Request) (random : List UInt8) :
    Valid (st.clientConnect w window r random) ∧
      (st.clientConnect w window r random).inFlight.Perm (st.inFlight ++ [r.connection]) := by
  rw [State.clientConnect]
  cases hget : window.services.get? r.serviceName with
  | some p =>
    obtain ⟨port, hp, huri⟩ := h.service w window _ p hw hget
    refine ⟨h.postMessage hp _ _, ?_⟩
    rw [Request.connection, ← huri]
    exact inFlight_postMessage hp _ _
  | none =>
    have hassoc : ∀ name p,
        (window.services.assoc r.serviceName st.ports.length).get? name = some p →
          window.services.get? name = some p ∨
            p = st.ports.length ∧ serviceUri r.serviceName = serviceUri name := by
      intro name p hp
      rw [FiniteMap.get?_assoc] at hp
      split at hp
      · next hname => exact .inr ⟨(Option.some.inj hp).symm, by rw [hname]⟩
      · exact .inl hp
    have hgrows : window.Grows
        { window with services := window.services.assoc r.serviceName st.ports.length } := by
      intro name p hp
      refine (FiniteMap.get?_assoc _ _ _ _).trans ?_
      split
      · next hname =>
        rw [← hname, hget] at hp
        cases hp
      · exact hp
    have hvalid := h.newPort hw _ (serviceUri r.serviceName) window.privateKey random hgrows
      (.inr ⟨r.serviceName, rfl, by rw [FiniteMap.get?_assoc, if_pos rfl]⟩) hassoc
    obtain ⟨u, new, he, -⟩ := startWorker_eq st w (serviceUri r.serviceName) window.privateKey
      random
    have hadd : (st.startWorker w (serviceUri r.serviceName) window.privateKey random).addService
        w window r.serviceName st.ports.length =
        { st.startWorker w (serviceUri r.serviceName) window.privateKey random with
          windows := st.windows.set w
            { window with services := window.services.assoc r.serviceName st.ports.length } } := by
      rw [he]
      rfl
    have hp : ((st.startWorker w (serviceUri r.serviceName) window.privateKey random).addService
        w window r.serviceName st.ports.length).ports[st.ports.length]? =
        some ⟨w, u, serviceUri r.serviceName, false, [.init window.privateKey random], []⟩ := by
      rw [he]
      exact List.getElem?_concat_length
    refine ⟨(hadd ▸ hvalid).postMessage hp _ _, ?_⟩
    refine (inFlight_postMessage hp _ _).trans (List.Perm.of_eq ?_)
    exact congrArg (· ++ [r.connection])
      (inFlight_startWorker w (serviceUri r.serviceName) window.privateKey random)

/-! ## Steps -/

/-- What a step keeps, when `out` is received and `into` is sent. -/
def Balanced (st st' : State) (os : List Output) : Prop :=
  Valid st' ∧ (os.filterMap Output.incoming? ++ st'.inFlight).Perm
    (st.inFlight ++ os.filterMap Output.wanted?)

theorem balanced_of_ports (h : Valid st') (hports : st'.ports = st.ports) :
    Balanced st st' [] := by
  refine ⟨h, List.Perm.of_eq ?_⟩
  rw [State.inFlight, State.inFlight, hports]
  exact (List.append_nil _).symm

theorem ready_eq {w : Nat} {window : Window} (h : st.ready w = some window) :
    st.windows[w]? = some window ∧ window.isOpen ∧ window.saved := by
  obtain ⟨window', hw, h⟩ := Option.bind_eq_some_iff.mp h
  obtain ⟨⟨hopen, hsaved⟩, he⟩ := Option.ite_none_right_eq_some.mp h
  cases he
  exact ⟨hw, hopen, hsaved⟩

theorem saveKey_balanced (h : Valid st) {w : Nat} (hst : st.saveKey w = some st') :
    Balanced st st' [] := by
  obtain ⟨window, hw, hst⟩ := Option.bind_eq_some_iff.mp hst
  obtain ⟨-, he⟩ := Option.ite_none_right_eq_some.mp hst
  cases he
  exact balanced_of_ports (h.setWindow hw { window with saved := true } rfl _) rfl

theorem startTopology_balanced (h : Valid st) {w : Nat} {random : List UInt8}
    (hst : st.startTopology w random = some st') : Balanced st st' [] := by
  obtain ⟨window, hready, hst⟩ := Option.bind_eq_some_iff.mp hst
  obtain ⟨hw, -⟩ := ready_eq hready
  split at hst
  · cases hst
  · have hvalid := h.newPort hw { window with topology := true } topologyUri
      window.privateKey random (fun _ _ hget => hget) (.inl rfl) fun _ _ hget => .inl hget
    obtain ⟨u, new, he, -⟩ := startWorker_eq st w topologyUri window.privateKey random
    have hflight : (st.startWorker w topologyUri window.privateKey random).inFlight = st.inFlight :=
      inFlight_startWorker w topologyUri window.privateKey random
    cases hst
    refine ⟨?_, List.Perm.of_eq ?_⟩
    · rw [he] at hvalid ⊢
      exact hvalid
    · refine Eq.trans ?_ (List.append_nil _).symm
      exact hflight

theorem onconnect_balanced (h : Valid st) {p : Nat} (hst : st.onconnect p = some st') :
    Balanced st st' [] := by
  obtain ⟨port, hp, hst⟩ := Option.bind_eq_some_iff.mp hst
  obtain ⟨worker, hu, hst⟩ := Option.bind_eq_some_iff.mp hst
  obtain ⟨-, he⟩ := Option.ite_none_right_eq_some.mp hst
  cases he
  obtain ⟨hwindow, worker', hu', huri, -, hqueue⟩ := h.port p port hp
  obtain rfl := Option.some.inj (hu.symm.trans hu')
  have hlt := (List.getElem?_eq_some_iff.mp hp).1
  have htable : TableValid st { worker with windows := worker.windows ++ [p] } := by
    refine ⟨fun q hq => ?_, fun _ => by simp⟩
    obtain hq | hq := List.mem_append.mp hq
    · exact (h.table _ worker hu).1 q hq
    · exact List.mem_singleton.mp hq ▸ hlt
  have hvalid := h.setWorker hu { worker with windows := worker.windows ++ [p] }
    ⟨rfl, List.subset_append_left _ _, id⟩ htable
  have hport : PortValid
      { st with
        workers :=
          st.workers.set port.worker { worker with windows := worker.windows ++ [p] } } p
      { port with accepted := true } := by
    refine ⟨hwindow, _, List.getElem?_set_self (List.getElem?_eq_some_iff.mp hu).1, huri,
      fun _ => by simp, ?_⟩
    exact hqueue.imp_right fun ⟨hall, _, hkey⟩ => ⟨hall, rfl, hkey⟩
  refine ⟨hvalid.setPort hp { port with accepted := true } rfl hport, ?_⟩
  exact inFlight_setPort hp [] [] (List.Perm.of_eq (List.append_nil _).symm)

theorem getMessage_balanced (h : Valid st) {p : Nat} {os : List Output}
    (hst : st.getMessage p = some (st', os)) : Balanced st st' os := by
  obtain ⟨port, hp, hst⟩ := Option.bind_eq_some_iff.mp hst
  obtain ⟨worker, hu, hst⟩ := Option.bind_eq_some_iff.mp hst
  obtain ⟨⟨-, haccepted⟩, hst⟩ := Option.ite_none_right_eq_some.mp hst
  obtain ⟨hwindow, worker', hu', huri, htable, hqueue⟩ := h.port p port hp
  obtain rfl := Option.some.inj (hu.symm.trans hu')
  have hltu := (List.getElem?_eq_some_iff.mp hu).1
  have hmem := htable haccepted
  split at hst
  · cases hst
  · next message rest hmessage =>
    cases hst
    rw [Queued, hmessage] at hqueue
    cases message with
    | init key random =>
      have hrest : ∀ m ∈ rest, m.isConnect := by
        obtain ⟨_, _, _, he, hrest⟩ | ⟨hall, -⟩ := hqueue
        · cases he
          exact hrest
        · cases hall _ List.mem_cons_self
      have hvalid := h.setWorker hu (worker.getMessage (.init key random)).1
        ⟨rfl, fun _ hq => hq, fun _ => rfl⟩
        ⟨(h.table _ worker hu).1, fun _ => List.ne_nil_of_mem hmem⟩
      have hset := hvalid.setPort hp { port with toWorker := rest } rfl
        ⟨hwindow, _, List.getElem?_set_self hltu, huri, htable, .inr ⟨hrest, haccepted, rfl⟩⟩
      refine ⟨hset, inFlight_setPort hp [] [] (List.Perm.of_eq ?_)⟩
      rw [List.append_nil, Port.inFlight, Port.inFlight, hmessage]
      rfl
    | connect clientName messagePort =>
      obtain ⟨hall, -, hkey⟩ := hqueue.resolve_left fun ⟨_, _, _, he, _⟩ => nomatch he
      have hvalid := h.setWorker hu (worker.getMessage (.connect clientName messagePort)).1
        ⟨rfl, fun _ hq => hq, id⟩ (h.table _ worker hu)
      have hset := hvalid.setPort hp { port with toWorker := rest } rfl
        ⟨hwindow, _, List.getElem?_set_self hltu, huri, htable,
          .inr ⟨fun m hm => hall m (List.mem_cons_of_mem _ hm), haccepted, hkey⟩⟩
      refine ⟨hset, inFlight_setPort hp [_] [] (List.Perm.of_eq ?_)⟩
      rw [List.append_nil, Port.inFlight, Port.inFlight, hmessage, huri]
      rfl

theorem postToWindow_balanced (h : Valid st) {p : Nat} (hlt : p < st.ports.length) (r : Request) :
    Balanced st
      { st with ports := st.ports.modify p fun port =>
          { port with toWindow := port.toWindow ++ [r] } } [.wanted r.connection] := by
  have hp : st.ports[p]? = some st.ports[p] := List.getElem?_eq_getElem hlt
  rw [modify_of_some hp]
  obtain ⟨hwindow, worker, hu, huri, htable, hqueue⟩ := h.port p _ hp
  refine ⟨h.setPort hp _ rfl ⟨hwindow, worker, hu, huri, htable, hqueue⟩, ?_⟩
  refine inFlight_setPort hp [] _ (List.Perm.of_eq ?_)
  simp [Port.inFlight, Output.wanted?]

theorem workerConnect_balanced (h : Valid st) {pathname : String → String} {u : Nat}
    {name : String} {messagePort : Nat} {os : List Output}
    (hst : st.workerConnect pathname u name messagePort = some (st', os)) :
    Balanced st st' os := by
  obtain ⟨worker, hu, hst⟩ := Option.bind_eq_some_iff.mp hst
  obtain ⟨⟨-, hkey⟩, hst⟩ := Option.ite_none_right_eq_some.mp hst
  obtain ⟨htable, hne⟩ := h.table u worker hu
  split at hst
  · next hnil => exact absurd hnil (hne hkey)
  · next p rest hwindows =>
    cases hst
    exact postToWindow_balanced h (htable p (hwindows ▸ List.mem_cons_self)) _

theorem onmessage_balanced (h : Valid st) {p : Nat} {random : List UInt8}
    (hst : st.onmessage p random = some st') : Balanced st st' [] := by
  obtain ⟨port, hp, hst⟩ := Option.bind_eq_some_iff.mp hst
  obtain ⟨window, hready, hst⟩ := Option.bind_eq_some_iff.mp hst
  obtain ⟨hw, -⟩ := ready_eq hready
  split at hst
  · cases hst
  · next r rest hmessage =>
    cases hst
    obtain ⟨hwindow, worker, hu, huri, htable, hqueue⟩ := h.port p port hp
    have hset := h.setPort hp { port with toWindow := rest } rfl
      ⟨hwindow, worker, hu, huri, htable, hqueue⟩
    obtain ⟨hvalid, hperm⟩ := clientConnect_valid hset hw r random
    refine ⟨hvalid, ?_⟩
    have hpop : ([r.connection] ++
        State.inFlight { st with ports := st.ports.set p { port with toWindow := rest } }).Perm
        (st.inFlight ++ []) := by
      refine inFlight_setPort hp [r.connection] [] ?_
      rw [List.append_nil, Port.inFlight, Port.inFlight, hmessage, List.map_cons,
        List.singleton_append]
      exact List.perm_middle.symm
    exact hperm.trans (List.perm_append_comm.trans hpop)

theorem closeWindow_balanced (h : Valid st) {w : Nat} (hst : st.closeWindow w = some st') :
    Balanced st st' [] := by
  obtain ⟨window, hw, hst⟩ := Option.bind_eq_some_iff.mp hst
  obtain ⟨-, he⟩ := Option.ite_none_right_eq_some.mp hst
  cases he
  have hvalid := h.setWindow hw { window with isOpen := false } rfl st.storage
  refine balanced_of_ports ⟨fun p port hp => ?_, hvalid.service, fun i x hx => ?_⟩ rfl
  · refine (hvalid.port p port hp).grows
      (fun _ window hw => ⟨window, hw, fun _ _ hget => hget⟩) fun i x hx => ?_
    refine ⟨_, (List.getElem?_mapIdx).trans (congrArg (Option.map _) hx), rfl, fun _ hq => hq, id⟩
  · rw [List.getElem?_mapIdx] at hx
    obtain ⟨worker, hu, rfl⟩ := Option.map_eq_some_iff.mp hx
    exact h.table i worker hu

/-- **What every step keeps.** -/
theorem step_balanced {pathname : String → String} {e : Event} {os : List Output} (h : Valid st)
    (hst : step pathname st e = some (st', os)) : Balanced st st' os := by
  cases e with
  | openWindow random =>
    cases hst
    exact balanced_of_ports (h.openWindow random) rfl
  | saveKey w =>
    obtain ⟨_, hst', he⟩ := Option.map_eq_some_iff.mp hst
    cases he
    exact saveKey_balanced h hst'
  | startTopology w random =>
    obtain ⟨_, hst', he⟩ := Option.map_eq_some_iff.mp hst
    cases he
    exact startTopology_balanced h hst'
  | clientConnect w name messagePort random =>
    obtain ⟨window, hready, he⟩ := Option.map_eq_some_iff.mp hst
    cases he
    exact clientConnect_valid h (ready_eq hready).1 _ random
  | workerConnect u name messagePort => exact workerConnect_balanced h hst
  | onconnect p =>
    obtain ⟨_, hst', he⟩ := Option.map_eq_some_iff.mp hst
    cases he
    exact onconnect_balanced h hst'
  | getMessage p => exact getMessage_balanced h hst
  | onmessage p random =>
    obtain ⟨_, hst', he⟩ := Option.map_eq_some_iff.mp hst
    cases he
    exact onmessage_balanced h hst'
  | closeWindow w =>
    obtain ⟨_, hst', he⟩ := Option.map_eq_some_iff.mp hst
    cases he
    exact closeWindow_balanced h hst'

/-! ## Runs -/

variable {pathname : String → String} {es : List Event} {os : List Output}

theorem balanced_of_run (h : (system pathname).Run anyEvent es os st) :
    Valid st ∧ (os.filterMap Output.incoming? ++ st.inFlight).Perm
      (os.filterMap Output.wanted?) :=
  Steps.balance Output.wanted? Output.incoming? State.inFlight
    (fun _ _ _ _ hvalid _ hst => step_balanced hvalid hst) h Valid.init

def Event.closes : Event → Bool
  | closeWindow _ => true
  | openWindow _ | saveKey _ | startTopology _ _ | clientConnect _ _ _ _ | workerConnect _ _ _
  | onconnect _ | getMessage _ | onmessage _ _ => false

/-- No window has been closed. -/
def AllOpen (st : State) : Prop :=
  (∀ window ∈ st.windows, window.isOpen) ∧ ∀ worker ∈ st.workers, worker.alive

theorem startWorker_open (h : AllOpen st) (w : Nat) (uri : String) (key random : List UInt8) :
    AllOpen (st.startWorker w uri key random) := by
  obtain ⟨u, new, he, -, hnew⟩ := startWorker_eq st w uri key random
  rw [he]
  refine ⟨h.1, fun worker hworker => ?_⟩
  obtain hworker | hworker := List.mem_append.mp hworker
  · exact h.2 worker hworker
  · exact (hnew worker hworker).2.2

theorem clientConnect_open (h : AllOpen st) {w : Nat} {window : Window} (hopen : window.isOpen)
    (r : Request) (random : List UInt8) : AllOpen (st.clientConnect w window r random) := by
  rw [State.clientConnect]
  split
  · exact h
  · have hstart := startWorker_open h w (serviceUri r.serviceName) window.privateKey random
    exact ⟨forall_mem_set hstart.1 w hopen, hstart.2⟩

theorem step_open {e : Event} (h : AllOpen st) (he : e.closes = false)
    (hst : step pathname st e = some (st', os)) : AllOpen st' := by
  cases e with
  | openWindow random =>
    cases hst
    refine ⟨fun window hwindow => ?_, h.2⟩
    rw [State.openWindow] at hwindow
    obtain hwindow | hwindow := List.mem_append.mp hwindow
    · exact h.1 window hwindow
    · rw [List.mem_singleton.mp hwindow]
      split
      · rfl
      · rfl
  | saveKey w =>
    obtain ⟨_, hst', hpair⟩ := Option.map_eq_some_iff.mp hst
    cases hpair
    obtain ⟨window, -, hst'⟩ := Option.bind_eq_some_iff.mp hst'
    obtain ⟨⟨hopen, -⟩, hsome⟩ := Option.ite_none_right_eq_some.mp hst'
    cases hsome
    exact ⟨forall_mem_set h.1 w hopen, h.2⟩
  | startTopology w random =>
    obtain ⟨_, hst', hpair⟩ := Option.map_eq_some_iff.mp hst
    cases hpair
    obtain ⟨window, hready, hst'⟩ := Option.bind_eq_some_iff.mp hst'
    split at hst'
    · cases hst'
    · cases hst'
      have hstart := startWorker_open h w topologyUri window.privateKey random
      exact ⟨forall_mem_set hstart.1 w (ready_eq hready).2.1, hstart.2⟩
  | clientConnect w name messagePort random =>
    obtain ⟨window, hready, hpair⟩ := Option.map_eq_some_iff.mp hst
    cases hpair
    exact clientConnect_open h (ready_eq hready).2.1 _ random
  | workerConnect u name messagePort =>
    obtain ⟨worker, -, hst'⟩ := Option.bind_eq_some_iff.mp hst
    obtain ⟨-, hst'⟩ := Option.ite_none_right_eq_some.mp hst'
    split at hst'
    · cases hst'
      exact h
    · cases hst'
      exact h
  | onconnect p =>
    obtain ⟨_, hst', hpair⟩ := Option.map_eq_some_iff.mp hst
    cases hpair
    obtain ⟨port, -, hst'⟩ := Option.bind_eq_some_iff.mp hst'
    obtain ⟨worker, -, hst'⟩ := Option.bind_eq_some_iff.mp hst'
    obtain ⟨⟨halive, -⟩, hsome⟩ := Option.ite_none_right_eq_some.mp hst'
    cases hsome
    exact ⟨h.1, forall_mem_set h.2 port.worker halive⟩
  | getMessage p =>
    obtain ⟨port, -, hst'⟩ := Option.bind_eq_some_iff.mp hst
    obtain ⟨worker, -, hst'⟩ := Option.bind_eq_some_iff.mp hst'
    obtain ⟨⟨halive, -⟩, hst'⟩ := Option.ite_none_right_eq_some.mp hst'
    split at hst'
    · cases hst'
    · next message rest _ =>
      cases hst'
      refine ⟨h.1, forall_mem_set h.2 port.worker ?_⟩
      cases message with
      | init key random => exact halive
      | connect clientName messagePort => exact halive
  | onmessage p random =>
    obtain ⟨_, hst', hpair⟩ := Option.map_eq_some_iff.mp hst
    cases hpair
    obtain ⟨port, -, hst'⟩ := Option.bind_eq_some_iff.mp hst'
    obtain ⟨window, hready, hst'⟩ := Option.bind_eq_some_iff.mp hst'
    split at hst'
    · cases hst'
    · next r rest _ =>
      cases hst'
      have hpop : AllOpen { st with ports := st.ports.set p { port with toWindow := rest } } := h
      exact clientConnect_open hpop (ready_eq hready).2.1 r random
  | closeWindow w => cases he

/-- There is nothing to deliver. -/
def Quiescent (st : State) : Prop :=
  (∀ w, st.saveKey w = none) ∧
    ∀ p, st.onconnect p = none ∧ st.getMessage p = none ∧ ∀ random, st.onmessage p random = none

/-- What is held up for good. -/
def HeldUp (st : State) (port : Port) : Prop :=
  (∃ window, st.windows[port.window]? = some window ∧ ¬ window.isOpen) ∨
    ∃ worker, st.workers[port.worker]? = some worker ∧ ¬ worker.alive

theorem heldUp_of_quiescent (h : Valid st) (hquiet : Quiescent st) {port : Port}
    (hport : port ∈ st.ports) (hflight : port.inFlight ≠ []) : HeldUp st port := by
  obtain ⟨p, hp⟩ := List.mem_iff_getElem?.mp hport
  obtain ⟨⟨window, hw, -⟩, ⟨worker, hu, -, -, -⟩⟩ := h.port p port hp
  obtain ⟨honconnect, hget, honmessage⟩ := hquiet.2 p
  by_contra hheld
  rw [HeldUp, not_or] at hheld
  have hopen : window.isOpen := by
    by_contra hclosed
    exact hheld.1 ⟨window, hw, hclosed⟩
  have halive : worker.alive := by
    by_contra hended
    exact hheld.2 ⟨worker, hu, hended⟩
  have hsaved : window.saved := by
    by_contra hunsaved
    have hsave := hquiet.1 port.window
    rw [State.saveKey, hw, Option.bind_some, if_pos ⟨hopen, hunsaved⟩] at hsave
    cases hsave
  have haccepted : port.accepted := by
    by_contra hnot
    rw [State.onconnect, hp, Option.bind_some, hu, Option.bind_some,
      if_pos ⟨halive, hnot⟩] at honconnect
    cases honconnect
  have htoWorker : port.toWorker = [] := by
    rw [State.getMessage, hp, Option.bind_some, hu, Option.bind_some,
      if_pos ⟨halive, haccepted⟩] at hget
    split at hget
    · assumption
    · cases hget
  have hready : st.ready port.window = some window := by
    rw [State.ready, hw, Option.bind_some, if_pos ⟨hopen, hsaved⟩]
  have htoWindow : port.toWindow = [] := by
    have honmessage := honmessage []
    rw [State.onmessage, hp, Option.bind_some, hready, Option.bind_some] at honmessage
    split at honmessage
    · assumption
    · cases honmessage
  exact hflight (by rw [Port.inFlight, htoWorker, htoWindow]; rfl)

/-- **Each connection comes to the worker of its service once.**  Those that have come and those
that are under way are the ones that clients have wanted, each as often as it was wanted.  When
there is nothing to deliver, those under way are held up at a closed window or an ended worker;
so there are none, if no window was closed. -/
theorem connections_once (h : (system pathname).Run anyEvent es os st) :
    (os.filterMap Output.incoming? ++ st.inFlight).Perm (os.filterMap Output.wanted?) ∧
      (Quiescent st → (∀ port ∈ st.ports, port.inFlight ≠ [] → HeldUp st port) ∧
        ((∀ e ∈ es, ¬ e.closes) →
          (os.filterMap Output.incoming?).Perm (os.filterMap Output.wanted?))) := by
  obtain ⟨hvalid, hperm⟩ := balanced_of_run h
  refine ⟨hperm, fun hquiet => ⟨fun port hport => heldUp_of_quiescent hvalid hquiet hport,
    fun hes => ?_⟩⟩
  have hopen : AllOpen st := by
    have hrun := h
    clear hperm hvalid hquiet
    induction hrun with
    | nil => exact ⟨nofun, nofun⟩
    | snoc hsteps _ hst ih =>
      refine step_open (ih hsteps fun e he => hes e (List.mem_append_left _ he)) ?_ hst
      simpa using hes _ (List.mem_append_right _ List.mem_cons_self)
  have hnone : st.inFlight = [] := by
    rw [State.inFlight, List.flatMap_eq_nil_iff]
    intro port hport
    by_contra hflight
    obtain ⟨window, hw, hclosed⟩ | ⟨worker, hu, hended⟩ :=
      heldUp_of_quiescent hvalid hquiet hport hflight
    · exact hclosed (hopen.1 window (List.mem_of_getElem? hw))
    · exact hended (hopen.2 worker (List.mem_of_getElem? hu))
  rw [hnone, List.append_nil] at hperm
  exact hperm

/-- A window connects to a service, which connects to another one. -/
theorem connections_once_two : ∃ os st,
    (system ("/" ++ ·)).Run anyEvent [.openWindow [1], .saveKey 0, .clientConnect 0 "ats" 7 [],
      .onconnect 0, .getMessage 0, .getMessage 0, .workerConnect 0 "dht" 9, .onmessage 0 [],
      .onconnect 1, .getMessage 1, .getMessage 1] os st ∧
    os.filterMap Output.incoming? = [⟨serviceUri "ats", "client.js", 7⟩,
      ⟨serviceUri "dht", "/" ++ serviceUri "ats", 9⟩] ∧
    (os.filterMap Output.incoming?).Perm (os.filterMap Output.wanted?) := by
  have hrun : ∃ os st, (system ("/" ++ ·)).Run anyEvent [.openWindow [1], .saveKey 0,
      .clientConnect 0 "ats" 7 [], .onconnect 0, .getMessage 0, .getMessage 0,
      .workerConnect 0 "dht" 9, .onmessage 0 [], .onconnect 1, .getMessage 1, .getMessage 1]
      os st ∧
      os.filterMap Output.incoming? = [⟨serviceUri "ats", "client.js", 7⟩,
        ⟨serviceUri "dht", "/" ++ serviceUri "ats", 9⟩] ∧ Quiescent st := by
    refine ⟨_, _, Steps.of_exec (fun _ _ => trivial) rfl, rfl, fun w => ?_, fun p => ?_⟩
    · match w with
      | 0 => rfl
      | _ + 1 => rfl
    · match p with
      | 0 => exact ⟨rfl, rfl, fun _ => rfl⟩
      | 1 => exact ⟨rfl, rfl, fun _ => rfl⟩
      | _ + 2 => exact ⟨rfl, rfl, fun _ => rfl⟩
  obtain ⟨os, st, h, hincoming, hquiet⟩ := hrun
  exact ⟨os, st, h, hincoming, ((connections_once h).2 hquiet).2 (by simp [Event.closes])⟩

/-- A connection that comes was under way at the port. -/
theorem getMessage_incoming (h : Valid st) {p : Nat} {c : Connection}
    (hst : st.getMessage p = some (st', os)) (hc : .incoming c ∈ os) :
    ∃ port worker key, st.ports[p]? = some port ∧ c ∈ port.inFlight ∧
      st.workers[port.worker]? = some worker ∧ worker.uri = c.uri ∧
      worker.privateKey = some key := by
  obtain ⟨port, hp, hst⟩ := Option.bind_eq_some_iff.mp hst
  obtain ⟨worker, hu, hst⟩ := Option.bind_eq_some_iff.mp hst
  obtain ⟨-, hst⟩ := Option.ite_none_right_eq_some.mp hst
  obtain ⟨-, worker', hu', huri, -, hqueue⟩ := h.port p port hp
  obtain rfl := Option.some.inj (hu.symm.trans hu')
  split at hst
  · cases hst
  · next message rest hmessage =>
    cases hst
    rw [Queued, hmessage] at hqueue
    cases message with
    | init key random => cases hc
    | connect clientName messagePort =>
      cases List.mem_singleton.mp hc
      obtain ⟨-, -, hkey⟩ := hqueue.resolve_left fun ⟨_, _, _, he, _⟩ => nomatch he
      obtain ⟨key, hkey⟩ := Option.isSome_iff_exists.mp hkey
      refine ⟨port, worker, key, hp, ?_, hu, rfl, hkey⟩
      rw [Port.inFlight, hmessage, huri]
      exact List.mem_append_left _ List.mem_cons_self

/-- **The private key comes first.**  Whenever a connection comes to a worker, in any run, a
client has wanted it before, the worker is that of the service which the client has named, and
it has been given a private key. -/
theorem init_first (h : (system pathname).Run anyEvent es os st) {e : Event} {out : List Output}
    (hst : step pathname st e = some (st', out)) {c : Connection} (hc : .incoming c ∈ out) :
    .wanted c ∈ os ∧ ∃ p port worker key, e = .getMessage p ∧ st.ports[p]? = some port ∧
      st.workers[port.worker]? = some worker ∧ worker.uri = c.uri ∧
      worker.privateKey = some key := by
  obtain ⟨hvalid, hperm⟩ := balanced_of_run h
  cases e with
  | getMessage p =>
    obtain ⟨port, worker, key, hp, hflight, hu, huri, hkey⟩ := getMessage_incoming hvalid hst hc
    refine ⟨?_, p, port, worker, key, rfl, hp, hu, huri, hkey⟩
    have hmem : c ∈ st.inFlight :=
      List.mem_flatMap.mpr ⟨port, List.mem_of_getElem? hp, hflight⟩
    obtain ⟨o, ho, hwanted⟩ :=
      List.mem_filterMap.mp (hperm.mem_iff.mp (List.mem_append_right _ hmem))
    cases o with
    | wanted c' =>
      cases hwanted
      exact ho
    | incoming c' => cases hwanted
  | workerConnect u name messagePort =>
    obtain ⟨worker, -, hst⟩ := Option.bind_eq_some_iff.mp hst
    obtain ⟨-, hst⟩ := Option.ite_none_right_eq_some.mp hst
    split at hst
    · cases hst
      cases List.mem_singleton.mp hc
    · cases hst
      cases List.mem_singleton.mp hc
  | clientConnect w name messagePort random =>
    obtain ⟨window, -, hpair⟩ := Option.map_eq_some_iff.mp hst
    cases hpair
    cases List.mem_singleton.mp hc
  | openWindow random =>
    cases hst
    cases hc
  | saveKey w | startTopology w random | onconnect p | onmessage p random | closeWindow w =>
    obtain ⟨_, -, hpair⟩ := Option.map_eq_some_iff.mp hst
    cases hpair
    cases hc

/-- A window connects, and the worker takes the connection after the private key. -/
theorem init_first_ats : ∃ os st st' out,
    (system ("/" ++ ·)).Run anyEvent [.openWindow [1], .saveKey 0, .clientConnect 0 "ats" 7 [],
      .onconnect 0, .getMessage 0] os st ∧
    step ("/" ++ ·) st (.getMessage 0) = some (st', out) ∧
    .incoming ⟨serviceUri "ats", "client.js", 7⟩ ∈ out ∧
    .wanted ⟨serviceUri "ats", "client.js", 7⟩ ∈ os := by
  have hrun : ∃ os st st' out,
      (system ("/" ++ ·)).Run anyEvent [.openWindow [1], .saveKey 0, .clientConnect 0 "ats" 7 [],
        .onconnect 0, .getMessage 0] os st ∧
      step ("/" ++ ·) st (.getMessage 0) = some (st', out) ∧
      out = [.incoming ⟨serviceUri "ats", "client.js", 7⟩] :=
    ⟨_, _, _, _, Steps.of_exec (fun _ _ => trivial) rfl, rfl, rfl⟩
  obtain ⟨os, st, st', out, h, hst, rfl⟩ := hrun
  exact ⟨os, st, st', _, h, hst, List.mem_singleton.mpr rfl,
    (init_first h hst (List.mem_singleton.mpr rfl)).1⟩

/-! ## Names -/

theorem affix_injective {a b x y : String} (h : a ++ x ++ b = a ++ y ++ b) : x = y := by
  have h := congrArg String.toList h
  simp only [String.toList_append] at h
  exact String.toList_inj.mp (List.append_cancel_left (List.append_cancel_right h))

theorem affix_ne {a b c x : String} (n : Nat) (hn : n ≤ a.toList.length)
    (h : a.toList.take n ≠ c.toList.take n) : a ++ x ++ b ≠ c := by
  rintro rfl
  refine h ?_
  rw [String.toList_append, String.toList_append, List.append_assoc,
    List.take_append_of_le_length hn]

theorem serviceUri_ne_topology (name : String) : serviceUri name ≠ topologyUri := by
  refine affix_ne 11 ?_ ?_
  · simp
  · simp [topologyUri]

/-- **A window has one port to each service.** -/
theorem one_port (h : (system pathname).Run anyEvent es os st) {p q : Nat} {port port' : Port}
    {name : String} (hp : st.ports[p]? = some port) (hq : st.ports[q]? = some port')
    (hwindow : port.window = port'.window) (huri : port.uri = serviceUri name)
    (huri' : port'.uri = serviceUri name) : p = q := by
  have hvalid := (balanced_of_run h).1
  have hentry : ∀ (i : Nat) (x : Port) (window : Window), st.ports[i]? = some x →
      st.windows[x.window]? = some window → x.uri = serviceUri name →
        window.services.get? name = some i := by
    intro i x window hx hw hname
    obtain ⟨⟨window', hw', hknown⟩, -⟩ := hvalid.port i x hx
    obtain rfl := Option.some.inj (hw.symm.trans hw')
    obtain htopology | ⟨name', hname', hget⟩ := hknown
    · exact absurd (hname.symm.trans htopology) (serviceUri_ne_topology name)
    · rwa [affix_injective (hname.symm.trans hname')]
  obtain ⟨⟨window, hw, -⟩, -⟩ := hvalid.port p port hp
  have hget := hentry p port window hp hw huri
  have hget' := hentry q port' window hq (hwindow ▸ hw) huri'
  exact Option.some.inj (hget.symm.trans hget')

/-- A window connects twice. -/
theorem one_port_twice : ∃ (st : State) (port : Port), st.ports = [port] ∧
    ∀ (q : Nat) (port' : Port), st.ports[q]? = some port' → port.window = port'.window →
      port'.uri = serviceUri "ats" → 0 = q := by
  have hrun : ∃ os st port, (system ("/" ++ ·)).Run anyEvent [.openWindow [1], .saveKey 0,
      .clientConnect 0 "ats" 7 [], .clientConnect 0 "ats" 8 []] os st ∧ st.ports = [port] ∧
      port.uri = serviceUri "ats" :=
    ⟨_, _, _, Steps.of_exec (fun _ _ => trivial) rfl, rfl, rfl⟩
  obtain ⟨os, st, port, h, hports, huri⟩ := hrun
  exact ⟨st, port, hports, fun q port' hq hwindow huri' =>
    one_port h (by rw [hports]; rfl) hq hwindow huri huri'⟩

end GnunetWeb.Services
