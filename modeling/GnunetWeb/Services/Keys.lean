import GnunetWeb.Services.Connections

/-!
# Private keys

Each window reads the private key of the peer from `localStorage`, and makes one if there is
none; nothing synchronizes the windows.

Proved here:

* `Agreed.step`: what a step keeps when no window is opened while another one saves its key;
* `keys_agree`: then all workers have the same private key;
* `keys_differ`: else they can have different ones.
-/

namespace GnunetWeb.Services

open EventSystem

/-- No window is opened between the `getItem` and the `setItem` of another one. -/
def Synchronized (st : State) : Event → Prop
  | .openWindow _ => ∀ window ∈ st.windows, window.isOpen → window.saved
  | .saveKey _ | .startTopology _ _ | .clientConnect _ _ _ _ | .workerConnect _ _ _
  | .onconnect _ | .getMessage _ | .onmessage _ _ | .closeWindow _ => True

instance (st : State) (e : Event) : Decidable (Synchronized st e) :=
  match e with
  | .openWindow _ => inferInstanceAs (Decidable (∀ window ∈ st.windows, window.isOpen → _))
  | .saveKey _ | .startTopology _ _ | .clientConnect _ _ _ _ | .workerConnect _ _ _
  | .onconnect _ | .getMessage _ | .onmessage _ _ | .closeWindow _ => .isTrue trivial

/-- The windows know the stored key, or one of them is to store its own. -/
structure WindowsAgree (st : State) : Prop where
  one : ∀ (w w' : Nat) (window window' : Window), st.windows[w]? = some window →
    st.windows[w']? = some window' → window.isOpen → ¬ window.saved → window'.isOpen →
      ¬ window'.saved → w = w'
  stored : ∀ key, st.storage = some key → ∀ window ∈ st.windows,
    (window.saved → window.privateKey = key) ∧ (window.isOpen → window.saved)
  unstored : st.storage = none → ∀ window ∈ st.windows, ¬ window.saved

/-- Every key that a worker has or is sent is the stored one. -/
structure WorkersAgree (st : State) : Prop where
  init : ∀ port ∈ st.ports, ∀ key random, .init key random ∈ port.toWorker →
    st.storage = some key
  key : ∀ worker ∈ st.workers, ∀ key, worker.privateKey = some key → st.storage = some key

variable {pathname : String → String} {st st' : State} {es : List Event} {os : List Output}

/-! ## Windows -/

/-- A window is changed, but not its key. -/
theorem WindowsAgree.set (h : WindowsAgree st) {w : Nat} {window : Window}
    (hw : st.windows[w]? = some window) (window' : Window)
    (hkey : window'.privateKey = window.privateKey)
    (hsaved : window'.saved = window.saved) (hopen : window'.isOpen → window.isOpen)
    {workers : List Worker} {ports : List Port} :
    WindowsAgree ⟨st.storage, st.windows.set w window', workers, ports⟩ := by
  have hback : ∀ (i : Nat) (x : Window), (st.windows.set w window')[i]? = some x →
      ∃ y, st.windows[i]? = some y ∧ x.privateKey = y.privateKey ∧ x.saved = y.saved ∧
        (x.isOpen → y.isOpen) := by
    intro i x hx
    obtain ⟨rfl, rfl⟩ | ⟨-, hx⟩ := getElem?_set_cases hx
    · exact ⟨window, hw, hkey, hsaved, hopen⟩
    · exact ⟨x, hx, rfl, rfl, id⟩
  refine ⟨fun i j x y hx hy hxo hxs hyo hys => ?_, fun key hstored x hx => ?_,
    fun hnone x hx => ?_⟩
  · obtain ⟨x', hx', -, hsx, hox⟩ := hback i x hx
    obtain ⟨y', hy', -, hsy, hoy⟩ := hback j y hy
    exact h.one i j x' y' hx' hy' (hox hxo) (hsx ▸ hxs) (hoy hyo) (hsy ▸ hys)
  · obtain ⟨i, hi⟩ := List.mem_iff_getElem?.mp hx
    obtain ⟨x', hx', hk, hs, ho⟩ := hback i x hi
    obtain ⟨hkeyx, hopenx⟩ := h.stored key hstored x' (List.mem_of_getElem? hx')
    exact ⟨fun hsx => hk.trans (hkeyx (hs ▸ hsx)), fun hxo => hs.trans (hopenx (ho hxo))⟩
  · obtain ⟨i, hi⟩ := List.mem_iff_getElem?.mp hx
    obtain ⟨x', hx', -, hs, -⟩ := hback i x hi
    rw [hs]
    exact h.unstored hnone x' (List.mem_of_getElem? hx')

theorem WindowsAgree.openWindow (h : WindowsAgree st)
    (hsync : ∀ window ∈ st.windows, window.isOpen → window.saved) (random : List UInt8) :
    WindowsAgree (st.openWindow random) := by
  have hold : ∀ (i : Nat) (x : Window), st.windows[i]? = some x → x.isOpen → x.saved :=
    fun i x hx => hsync x (List.mem_of_getElem? hx)
  refine ⟨fun i j x y hx hy hxo hxs hyo hys => ?_, fun key hstored x hx => ?_,
    fun hnone x hx => ?_⟩
  · obtain ⟨rfl, -⟩ | hx := getElem?_concat_cases hx
    · obtain ⟨rfl, -⟩ | hy := getElem?_concat_cases hy
      · rfl
      · exact absurd (hold j y hy hyo) hys
    · exact absurd (hold i x hx hxo) hxs
  · have hstored : st.storage = some key := hstored
    obtain hx | hx := List.mem_append.mp hx
    · exact h.stored key hstored x hx
    · rw [List.mem_singleton.mp hx, hstored]
      exact ⟨fun _ => rfl, fun _ => rfl⟩
  · have hnone : st.storage = none := hnone
    obtain hx | hx := List.mem_append.mp hx
    · exact h.unstored hnone x hx
    · rw [List.mem_singleton.mp hx, hnone]
      exact Bool.false_ne_true

/-- Workers and ports do not matter. -/
theorem WindowsAgree.setPorts (h : WindowsAgree st) (workers : List Worker) (ports : List Port) :
    WindowsAgree { st with workers, ports } := ⟨h.one, h.stored, h.unstored⟩

/-- A window that runs has the stored key. -/
theorem stored_of_ready (h : WindowsAgree st) {w : Nat} {window : Window}
    (hready : st.ready w = some window) : st.storage = some window.privateKey := by
  obtain ⟨hw, -, hsaved⟩ := ready_eq hready
  have hmem := List.mem_of_getElem? hw
  cases hstored : st.storage with
  | none => exact absurd hsaved (h.unstored hstored window hmem)
  | some key => rw [(h.stored key hstored window hmem).1 hsaved]

/-- Nothing is stored while a window has not saved its key. -/
theorem unstored_of_saveKey (h : WindowsAgree st) {window : Window} (hw : window ∈ st.windows)
    (hopen : window.isOpen) (hsaved : ¬ window.saved) : st.storage = none := by
  cases hstored : st.storage with
  | none => rfl
  | some key => exact absurd ((h.stored key hstored window hw).2 hopen) hsaved

theorem WindowsAgree.saveKey (h : WindowsAgree st) {w : Nat} {window : Window}
    (hw : st.windows[w]? = some window) (hopen : window.isOpen) (hsaved : ¬ window.saved) :
    WindowsAgree
      { st with
        storage := some window.privateKey
        windows := st.windows.set w { window with saved := true } } := by
  have hnone := unstored_of_saveKey h (List.mem_of_getElem? hw) hopen hsaved
  have hothers : ∀ (i : Nat) (x : Window), i ≠ w → st.windows[i]? = some x →
      ¬ x.saved ∧ ¬ x.isOpen := by
    intro i x hi hx
    have hxs := h.unstored hnone x (List.mem_of_getElem? hx)
    exact ⟨hxs, fun hxo => hi (h.one i w x window hx hw hxo hxs hopen hsaved)⟩
  refine ⟨fun i j x y hx hy hxo hxs hyo hys => ?_, fun key hstored x hx => ?_, nofun⟩
  · obtain ⟨-, rfl⟩ | ⟨hi, hx⟩ := getElem?_set_cases hx
    · exact absurd rfl hxs
    · exact absurd hxo (hothers i x hi hx).2
  · cases hstored
    obtain ⟨i, hi⟩ := List.mem_iff_getElem?.mp hx
    obtain ⟨-, rfl⟩ | ⟨hne, hx⟩ := getElem?_set_cases hi
    · exact ⟨fun _ => rfl, fun _ => rfl⟩
    · obtain ⟨hxs, hxo⟩ := hothers i x hne hx
      exact ⟨fun hs => absurd hs hxs, fun ho => absurd ho hxo⟩

/-! ## Workers -/

theorem WorkersAgree.startWorker (h : WorkersAgree st) (w : Nat) (uri : String)
    {key : List UInt8} (hkey : st.storage = some key) (random : List UInt8) :
    WorkersAgree (st.startWorker w uri key random) := by
  obtain ⟨u, new, he, -, hnew⟩ := startWorker_eq st w uri key random
  rw [he]
  refine ⟨fun port hport k r hr => ?_, fun worker hworker k hk => ?_⟩
  · obtain hport | hport := List.mem_append.mp hport
    · exact h.init port hport k r hr
    · rw [List.mem_singleton.mp hport] at hr
      cases List.mem_singleton.mp hr
      exact hkey
  · obtain hworker | hworker := List.mem_append.mp hworker
    · exact h.key worker hworker k hk
    · rw [(hnew worker hworker).2.1] at hk
      cases hk

theorem WorkersAgree.postMessage (h : WorkersAgree st) (p : Nat) (clientName : String)
    (messagePort : Nat) : WorkersAgree (st.postMessage p (.connect clientName messagePort)) := by
  refine ⟨fun port hport key random hinit => ?_, h.key⟩
  obtain ⟨i, hi⟩ := List.mem_iff_getElem?.mp hport
  rw [State.postMessage, List.getElem?_modify] at hi
  obtain ⟨port', hp', rfl⟩ := Option.map_eq_some_iff.mp hi
  refine h.init port' (List.mem_of_getElem? hp') key random ?_
  split at hinit
  · obtain hinit | hinit := List.mem_append.mp hinit
    · exact hinit
    · cases List.mem_singleton.mp hinit
  · exact hinit

/-- Windows do not matter. -/
theorem WorkersAgree.setWindows (h : WorkersAgree st) (windows : List Window) :
    WorkersAgree { st with windows } := ⟨h.init, h.key⟩

theorem WorkersAgree.clientConnect (h : WorkersAgree st) {w : Nat} {window : Window}
    (hkey : st.storage = some window.privateKey) (r : Request) (random : List UInt8) :
    WorkersAgree (st.clientConnect w window r random) := by
  rw [State.clientConnect]
  split
  · exact h.postMessage _ _ _
  · exact ((h.startWorker w _ hkey random).setWindows _).postMessage _ _ _

theorem WorkersAgree.set (h : WorkersAgree st) {p : Nat} {port : Port}
    (hp : st.ports[p]? = some port) (port' : Port)
    (hport : ∀ m ∈ port'.toWorker, m ∈ port.toWorker) (u : Nat) (worker' : Worker)
    (hworker : ∀ key, worker'.privateKey = some key → st.storage = some key) :
    WorkersAgree
      { st with workers := st.workers.set u worker', ports := st.ports.set p port' } where
  init := forall_mem_set h.init p fun key random hinit =>
    h.init port (List.mem_of_getElem? hp) key random (hport _ hinit)
  key := forall_mem_set h.key u hworker

theorem windows_clientConnect (w : Nat) (window : Window) (r : Request) (random : List UInt8) :
    ∃ services workers ports, st.clientConnect w window r random =
        ⟨st.storage, st.windows.set w { window with services }, workers, ports⟩ ∨
      st.clientConnect w window r random = ⟨st.storage, st.windows, workers, ports⟩ := by
  rw [State.clientConnect]
  split
  · exact ⟨.empty, _, _, .inr rfl⟩
  · obtain ⟨u, new, he, -⟩ :=
      startWorker_eq st w (serviceUri r.serviceName) window.privateKey random
    rw [he]
    exact ⟨_, _, _, .inl rfl⟩

theorem WindowsAgree.clientConnect (h : WindowsAgree st) {w : Nat} {window : Window}
    (hw : st.windows[w]? = some window) (r : Request) (random : List UInt8) :
    WindowsAgree (st.clientConnect w window r random) := by
  obtain ⟨services, workers, ports, he | he⟩ := windows_clientConnect w window r random
  · rw [he]
    exact h.set hw { window with services } rfl rfl id
  · rw [he]
    exact h.setPorts _ _

/-! ## Runs -/

structure Agreed (st : State) : Prop where
  windows : WindowsAgree st
  workers : WorkersAgree st

namespace Agreed

theorem saveKey {w : Nat} (h : Agreed st) (hst : st.saveKey w = some st') : Agreed st' := by
  obtain ⟨window, hw, hst⟩ := Option.bind_eq_some_iff.mp hst
  obtain ⟨⟨hopen, hsaved⟩, hsome⟩ := Option.ite_none_right_eq_some.mp hst
  cases hsome
  have hnone := unstored_of_saveKey h.windows (List.mem_of_getElem? hw) hopen hsaved
  refine ⟨h.windows.saveKey hw hopen hsaved, ⟨fun port hport key random hinit => ?_,
    fun worker hworker key hkey => ?_⟩⟩
  · exact absurd ((h.workers.init port hport key random hinit).symm.trans hnone) nofun
  · exact absurd ((h.workers.key worker hworker key hkey).symm.trans hnone) nofun

theorem startTopology {w : Nat} {random : List UInt8} (h : Agreed st)
    (hst : st.startTopology w random = some st') : Agreed st' := by
  obtain ⟨window, hready, hst⟩ := Option.bind_eq_some_iff.mp hst
  have hkey := stored_of_ready h.windows hready
  have hworkers := h.workers.startWorker w topologyUri hkey random
  obtain ⟨u, new, he, -⟩ := startWorker_eq st w topologyUri window.privateKey random
  rw [he] at hst hworkers
  split at hst
  · cases hst
  · cases hst
    exact ⟨h.windows.set (ready_eq hready).1 { window with topology := true } rfl rfl id,
      hworkers.setWindows _⟩

theorem clientConnect {w : Nat} {window : Window} (h : Agreed st)
    (hready : st.ready w = some window) (r : Request) (random : List UInt8) :
    Agreed (st.clientConnect w window r random) :=
  ⟨h.windows.clientConnect (ready_eq hready).1 r random,
    h.workers.clientConnect (stored_of_ready h.windows hready) r random⟩

theorem workerConnect {u : Nat} {name : String} {messagePort : Nat} (h : Agreed st)
    (hst : st.workerConnect pathname u name messagePort = some (st', os)) : Agreed st' := by
  obtain ⟨worker, -, hst⟩ := Option.bind_eq_some_iff.mp hst
  obtain ⟨-, hst⟩ := Option.ite_none_right_eq_some.mp hst
  split at hst
  · cases hst
    exact h
  · cases hst
    refine ⟨h.windows.setPorts _ _, ⟨fun port hport key random hinit => ?_, h.workers.key⟩⟩
    obtain ⟨i, hi⟩ := List.mem_iff_getElem?.mp hport
    rw [List.getElem?_modify] at hi
    obtain ⟨port', hp', rfl⟩ := Option.map_eq_some_iff.mp hi
    refine h.workers.init port' (List.mem_of_getElem? hp') key random ?_
    split at hinit
    · exact hinit
    · exact hinit

theorem onconnect {p : Nat} (h : Agreed st) (hst : st.onconnect p = some st') : Agreed st' := by
  obtain ⟨port, hp, hst⟩ := Option.bind_eq_some_iff.mp hst
  obtain ⟨worker, hu, hst⟩ := Option.bind_eq_some_iff.mp hst
  obtain ⟨-, hsome⟩ := Option.ite_none_right_eq_some.mp hst
  cases hsome
  exact ⟨h.windows.setPorts _ _, h.workers.set hp { port with accepted := true } (fun _ hm => hm)
    port.worker { worker with windows := worker.windows ++ [p] }
    (h.workers.key worker (List.mem_of_getElem? hu))⟩

theorem getMessage {p : Nat} (h : Agreed st) (hst : st.getMessage p = some (st', os)) :
    Agreed st' := by
  obtain ⟨port, hp, hst⟩ := Option.bind_eq_some_iff.mp hst
  obtain ⟨worker, hu, hst⟩ := Option.bind_eq_some_iff.mp hst
  obtain ⟨-, hst⟩ := Option.ite_none_right_eq_some.mp hst
  split at hst
  · cases hst
  · next message rest hmessage =>
    cases hst
    refine ⟨h.windows.setPorts _ _, h.workers.set hp { port with toWorker := rest }
      (fun m hm => hmessage ▸ List.mem_cons_of_mem _ hm) port.worker
      (worker.getMessage message).1 fun key hkey => ?_⟩
    cases message with
    | init k random =>
      obtain rfl : k = key := Option.some.inj hkey
      exact h.workers.init port (List.mem_of_getElem? hp) k random
        (hmessage ▸ List.mem_cons_self)
    | connect clientName messagePort =>
      exact h.workers.key worker (List.mem_of_getElem? hu) key hkey

theorem onmessage {p : Nat} {random : List UInt8} (h : Agreed st)
    (hst : st.onmessage p random = some st') : Agreed st' := by
  obtain ⟨port, hp, hst⟩ := Option.bind_eq_some_iff.mp hst
  obtain ⟨window, hready, hst⟩ := Option.bind_eq_some_iff.mp hst
  split at hst
  · cases hst
  · next r rest _ =>
    cases hst
    have htaken : Agreed { st with ports := st.ports.set p { port with toWindow := rest } } :=
      ⟨h.windows.setPorts _ _,
        ⟨forall_mem_set h.workers.init p (h.workers.init port (List.mem_of_getElem? hp)),
          h.workers.key⟩⟩
    exact htaken.clientConnect hready r random

theorem closeWindow {w : Nat} (h : Agreed st) (hst : st.closeWindow w = some st') :
    Agreed st' := by
  obtain ⟨window, hw, hst⟩ := Option.bind_eq_some_iff.mp hst
  obtain ⟨hopen, hsome⟩ := Option.ite_none_right_eq_some.mp hst
  cases hsome
  refine ⟨h.windows.set hw { window with isOpen := false } rfl rfl fun _ => hopen,
    ⟨h.workers.init, fun worker hworker => ?_⟩⟩
  obtain ⟨i, hi⟩ := List.mem_iff_getElem?.mp hworker
  rw [List.getElem?_mapIdx] at hi
  obtain ⟨worker', hu, rfl⟩ := Option.map_eq_some_iff.mp hi
  exact h.workers.key worker' (List.mem_of_getElem? hu)

theorem step {e : Event} (h : Agreed st) (hok : Synchronized st e)
    (hst : step pathname st e = some (st', os)) : Agreed st' := by
  cases e with
  | openWindow random =>
    cases hst
    exact ⟨h.windows.openWindow hok random, ⟨h.workers.init, h.workers.key⟩⟩
  | saveKey w =>
    obtain ⟨_, hsaveKey, hpair⟩ := Option.map_eq_some_iff.mp hst
    cases hpair
    exact h.saveKey hsaveKey
  | startTopology w random =>
    obtain ⟨_, hstartTopology, hpair⟩ := Option.map_eq_some_iff.mp hst
    cases hpair
    exact h.startTopology hstartTopology
  | clientConnect w name messagePort random =>
    obtain ⟨window, hready, hpair⟩ := Option.map_eq_some_iff.mp hst
    cases hpair
    exact h.clientConnect hready _ random
  | workerConnect u name messagePort => exact h.workerConnect hst
  | onconnect p =>
    obtain ⟨_, honconnect, hpair⟩ := Option.map_eq_some_iff.mp hst
    cases hpair
    exact h.onconnect honconnect
  | getMessage p => exact h.getMessage hst
  | onmessage p random =>
    obtain ⟨_, honmessage, hpair⟩ := Option.map_eq_some_iff.mp hst
    cases hpair
    exact h.onmessage honmessage
  | closeWindow w =>
    obtain ⟨_, hcloseWindow, hpair⟩ := Option.map_eq_some_iff.mp hst
    cases hpair
    exact h.closeWindow hcloseWindow

end Agreed

/-- **All workers have the same private key**, in a run in which no window is opened while
another one saves its key; it is the stored one. -/
theorem keys_agree (h : (system pathname).Run Synchronized es os st) :
    ∀ worker ∈ st.workers, ∀ key, worker.privateKey = some key → st.storage = some key := by
  have hinit : Agreed State.init :=
    ⟨⟨nofun, nofun, nofun⟩, ⟨nofun, nofun⟩⟩
  exact (h.invariant (fun _ _ _ _ hagreed hok hst => hagreed.step hok hst) hinit).workers.key

/-- Two windows and a worker for each of two services. -/
theorem keys_agree_two : ∃ st : State, st.workers.map Worker.privateKey = [some [1], some [1]] ∧
    ∀ worker ∈ st.workers, ∀ key, worker.privateKey = some key → st.storage = some key := by
  have hrun : ∃ os st, (system ("/" ++ ·)).Run Synchronized [.openWindow [1], .saveKey 0,
      .clientConnect 0 "ats" 7 [], .onconnect 0, .getMessage 0, .openWindow [2],
      .clientConnect 1 "dht" 8 [], .onconnect 1, .getMessage 1] os st ∧
      st.workers.map Worker.privateKey = [some [1], some [1]] :=
    ⟨_, _, .of_restrict (Steps.of_exec (fun _ _ => trivial) rfl), rfl⟩
  obtain ⟨os, st, h, hkeys⟩ := hrun
  exact ⟨st, hkeys, keys_agree h⟩

/-- **Keys that differ.**  Two windows are opened before one of them has saved its key. -/
theorem keys_differ : ∃ os st, (system ("/" ++ ·)).Run anyEvent [.openWindow [1],
    .openWindow [2], .saveKey 0, .clientConnect 0 "ats" 7 [], .onconnect 0, .getMessage 0,
    .saveKey 1, .clientConnect 1 "dht" 8 [], .onconnect 1, .getMessage 1] os st ∧
    st.workers.map Worker.privateKey = [some [1], some [2]] :=
  ⟨_, _, Steps.of_exec (fun _ _ => trivial) rfl, rfl⟩

end GnunetWeb.Services
