import GnunetWeb.Library.EventSystem
import Mathlib.Data.List.Count

/-!
# The start of a service

`pre.js` and `datastore-pre.js` up to the start of the main program.  What the program has
to wait for is counted as run dependencies, without regard to their names: the plugin files
that are loaded, the file system, the database, and the first window.

Proved here:

* `Inv`, `inv_step`: while the program waits, the counter counts what is pending, as long as
  only the first window's message releases its dependency;
* `started_once`: in every run the program starts once at most;
* `start_gate`: in such runs the program starts once, and not before everything is there;
* `started_early`: three windows start it before.
-/

namespace GnunetWeb.Startup

/-- The request that opens the database. -/
inductive Database where
  | unused
  | opening
  | opened
  | failed
  deriving DecidableEq

/-- A message of the type `init`. -/
structure Init where
  window : Nat
  privateKey : List UInt8
  randomBytes : List UInt8

structure State where
  /-- the counter of emscripten -/
  runDependencies : Int
  /-- the files of `FS.createPreloadedFile` that are loading -/
  files : Nat
  /-- `FS.syncfs(true, ..)` has not called back -/
  syncing : Bool
  /-- `self.dsdb` -/
  database : Database
  privateKey : Option (List UInt8)
  randomBytes : List UInt8
  randomOffset : Nat
  nextWindow : Nat
  /-- the messages that have come, the last one first -/
  inits : List Init
  started : Bool

inductive Event where
  | connect
  | init (message : Init)
  | preloaded
  | synced
  | databaseOpened
  | databaseFailed

inductive Output where
  /-- the main program starts -/
  | main
  deriving DecidableEq

namespace State

def addRunDependency (st : State) : State :=
  { st with runDependencies := st.runDependencies + 1 }

/-- The program starts when the counter comes to zero. -/
def removeRunDependency (st : State) : State × List Output :=
  let st := { st with runDependencies := st.runDependencies - 1 }
  if st.runDependencies = 0 then ({ st with started := true }, [.main]) else (st, [])

/-- The plugins that are preloaded. -/
def plugins : List String :=
  ["ats_proportional", "block_dht", "block_fs", "datacache_heap", "datastore_emscripten",
    "peerstore_emscripten", "transport_http_client", "transport_webrtc"]

/-- The services that mount a file system. -/
def mounts : List String := ["peerinfo", "fs", "nse", "datastore"]

/-- `FS.createPreloadedFile`, which delays the start -/
def createPreloadedFile (st : State) (_plugin : String) : State :=
  { st with files := st.files + 1 }.addRunDependency

/-- `gnunet_prerun` -/
def gnunetPrerun (service : String) (st : State) : State :=
  let st := plugins.foldl createPreloadedFile st
  let st := if service ∈ mounts then { st with syncing := true }.addRunDependency else st
  st.addRunDependency

/-- `datastore_prerun` -/
def datastorePrerun (st : State) : State :=
  { st with database := .opening }.addRunDependency

/-- Before `preInit`. -/
def blank : State := ⟨0, 0, false, .unused, none, [], 0, 1, [], false⟩

/-- After `preInit` of the datastore service; its functions run from the last to the first. -/
def init : State := gnunetPrerun "datastore" (datastorePrerun blank)

/-- The `init` branch of `get_message` -/
def getInit (st : State) (message : Init) : State × List Output :=
  { st with
      privateKey := some message.privateKey
      randomBytes := message.randomBytes
      randomOffset := 0 }.removeRunDependency

/-- One event.  A window sends `init` once. -/
def step (st : State) : Event → Option (State × List Output)
  | .connect => some ({ st with nextWindow := st.nextWindow + 1 }, [])
  | .init message =>
    if 0 < message.window ∧ message.window < st.nextWindow ∧
        message.window ∉ st.inits.map Init.window then
      some ({ st with inits := message :: st.inits }.getInit message)
    else none
  | .preloaded =>
    if 0 < st.files then some { st with files := st.files - 1 }.removeRunDependency else none
  | .synced => if st.syncing then some { st with syncing := false }.removeRunDependency else none
  | .databaseOpened =>
    if st.database = .opening then some { st with database := .opened }.removeRunDependency
    else none
  | .databaseFailed =>
    if st.database = .opening then some ({ st with database := .failed }, []) else none

def system : EventSystem State Event Output := ⟨init, step⟩

/-! ## What the gate is for -/

/-- The program has been started once at most, and only with a private key and random bytes
from a window, the file system, and the database. -/
structure Gate (os : List Output) (st : State) : Prop where
  once : os.count .main ≤ 1
  window : .main ∈ os → ∃ message, st.inits.head? = some message ∧
    st.privateKey = some message.privateKey ∧ st.randomBytes = message.randomBytes
  synced : .main ∈ os → st.syncing = false
  database : .main ∈ os → st.database = .opened

/-- No second `init` comes before the program has started. -/
def FirstInit (st : State) : Event → Prop
  | .init _ => st.inits = [] ∨ st.started
  | _ => True

instance (st : State) (e : Event) : Decidable (FirstInit st e) := by
  unfold FirstInit
  split <;> infer_instance

/-! ## The counter -/

/-- What the program still has to wait for. -/
def pending (st : State) : Nat :=
  st.files + (if st.syncing then 1 else 0) + (if st.database = .opened then 0 else 1) +
    if st.inits = [] then 1 else 0

/-- What the last message has brought is there. -/
def Written (st : State) : Prop :=
  ∀ message ∈ st.inits.head?,
    st.privateKey = some message.privateKey ∧ st.randomBytes = message.randomBytes

/-- While the program waits, the counter is that of what is pending, and something is;
afterwards nothing is pending, and the counter does not come back to zero. -/
structure Inv (os : List Output) (st : State) : Prop where
  written : st.Written
  waiting : st.started = false →
    os = [] ∧ st.runDependencies = st.pending ∧ 0 < st.pending
  started : st.started = true → os = [.main] ∧ st.pending = 0 ∧ st.runDependencies ≤ 0

theorem pending_removeRunDependency (st : State) :
    st.removeRunDependency.1.pending = st.pending := by
  unfold removeRunDependency
  simp only
  split <;> rfl

theorem Written.removeRunDependency {st : State} (h : st.Written) :
    st.removeRunDependency.1.Written := by
  unfold State.removeRunDependency
  simp only
  split <;> exact h

/-- A dependency that was pending is released. -/
theorem Inv.release {os : List Output} {st st' : State} (h : Inv os st)
    (hwritten : st'.Written)
    (hcounter : st'.runDependencies = st.runDependencies) (hstarted : st'.started = st.started)
    (hpending : st'.pending + 1 = st.pending) :
    Inv (os ++ st'.removeRunDependency.2) st'.removeRunDependency.1 := by
  have hwait : st.started = false := by
    cases hst : st.started with
    | false => rfl
    | true =>
      have hnone := (h.started hst).2.1
      omega
  obtain ⟨rfl, hcount, -⟩ := h.waiting hwait
  have hwritten' := hwritten.removeRunDependency
  have hpending' := pending_removeRunDependency st'
  unfold removeRunDependency at hwritten' hpending' ⊢
  simp only at hwritten' hpending' ⊢
  split at hwritten'
  · rename_i hzero
    rw [if_pos hzero] at hpending' ⊢
    refine ⟨hwritten', fun hs => absurd hs (by simp), fun _ => ⟨rfl, ?_, ?_⟩⟩
    · rw [hpending']
      omega
    · simp only
      omega
  · rename_i hzero
    rw [if_neg hzero] at hpending' ⊢
    refine ⟨hwritten', fun _ => ⟨rfl, ?_, ?_⟩, fun hs => ?_⟩
    · rw [hpending']
      simp only
      omega
    · rw [hpending']
      omega
    · rw [hstarted, hwait] at hs
      cases hs

/-- What is pending stays. -/
theorem Inv.alike {os : List Output} {st st' : State} (h : Inv os st)
    (hwritten : st'.Written)
    (hcounter : st'.runDependencies = st.runDependencies) (hstarted : st'.started = st.started)
    (hpending : st'.pending = st.pending) : Inv (os ++ []) st' := by
  rw [List.append_nil]
  refine ⟨hwritten, fun hs => ?_, fun hs => ?_⟩
  · rw [hcounter, hpending]
    exact h.waiting (hstarted ▸ hs)
  · rw [hcounter, hpending]
    exact h.started (hstarted ▸ hs)

/-- The program has started; another window has come. -/
theorem Inv.late {os : List Output} {st st' : State} (h : Inv os st) (hs : st.started = true)
    (hwritten : st'.Written)
    (hcounter : st'.runDependencies = st.runDependencies) (hstarted : st'.started = st.started)
    (hpending : st'.pending = st.pending) :
    Inv (os ++ st'.removeRunDependency.2) st'.removeRunDependency.1 := by
  obtain ⟨hos, hnone, hcount⟩ := h.started hs
  have hzero : st'.runDependencies - 1 ≠ 0 := by omega
  unfold removeRunDependency
  simp only
  rw [if_neg hzero, List.append_nil]
  refine ⟨hwritten, fun hw => ?_, fun _ => ⟨hos, hpending.trans hnone, ?_⟩⟩
  · rw [hstarted, hs] at hw
    cases hw
  · simp only
    omega

/-- **One event.** -/
theorem inv_step {os : List Output} {st : State} {e : Event} {r : State × List Output}
    (h : Inv os st) (he : FirstInit st e) (hst : st.step e = some r) : Inv (os ++ r.2) r.1 := by
  cases e with
  | connect =>
    obtain rfl := Option.some.inj hst
    exact h.alike h.written rfl rfl rfl
  | init message =>
    simp only [step, Option.ite_none_right_eq_some, Option.some.injEq] at hst
    obtain ⟨-, rfl⟩ := hst
    have hwritten : State.Written { st with
        inits := message :: st.inits
        privateKey := some message.privateKey
        randomBytes := message.randomBytes
        randomOffset := 0 } := by
      rintro m hm
      obtain rfl := Option.some.inj hm
      exact ⟨rfl, rfl⟩
    rcases he.symm with hs | hinits
    · -- the first window's message has come before
      have hnone := (h.started hs).2.1
      have hinits : st.inits ≠ [] := by
        intro hnil
        rw [pending, if_pos hnil] at hnone
        omega
      refine h.late hs hwritten rfl rfl ?_
      rw [pending, pending, if_neg hinits, if_neg (List.cons_ne_nil _ _)]
    · refine h.release hwritten rfl rfl ?_
      rw [pending, pending, if_pos hinits, if_neg (List.cons_ne_nil _ _), Nat.add_zero]
  | preloaded =>
    simp only [step, Option.ite_none_right_eq_some, Option.some.injEq] at hst
    obtain ⟨hfiles, rfl⟩ := hst
    refine h.release h.written rfl rfl ?_
    simp only [pending]
    omega
  | synced =>
    simp only [step, Option.ite_none_right_eq_some, Option.some.injEq] at hst
    obtain ⟨hsyncing, rfl⟩ := hst
    refine h.release h.written rfl rfl ?_
    simp only [pending, hsyncing, if_true, Bool.false_eq_true, if_false]
    omega
  | databaseOpened =>
    simp only [step, Option.ite_none_right_eq_some, Option.some.injEq] at hst
    obtain ⟨hopening, rfl⟩ := hst
    refine h.release h.written rfl rfl ?_
    simp only [pending, hopening, if_true, reduceCtorEq, if_false]
    omega
  | databaseFailed =>
    simp only [step, Option.ite_none_right_eq_some, Option.some.injEq] at hst
    obtain ⟨hopening, rfl⟩ := hst
    refine h.alike h.written rfl rfl ?_
    simp only [pending, hopening, reduceCtorEq, if_false]

theorem inv_init : Inv [] init :=
  ⟨fun _ hm => absurd hm (Option.not_mem_none _), fun _ => ⟨rfl, by decide, by decide⟩,
    fun hs => absurd hs (by decide)⟩

theorem Inv.gate {os : List Output} {st : State} (h : Inv os st) : Gate os st := by
  cases hs : st.started with
  | false =>
    obtain ⟨rfl, -, -⟩ := h.waiting hs
    exact ⟨Nat.zero_le _, fun hm => absurd hm List.not_mem_nil,
      fun hm => absurd hm List.not_mem_nil, fun hm => absurd hm List.not_mem_nil⟩
  | true =>
    obtain ⟨rfl, hnone, -⟩ := h.started hs
    have hinits : st.inits ≠ [] := by
      intro hnil
      rw [pending, if_pos hnil] at hnone
      omega
    obtain ⟨message, left, hmessage⟩ := List.exists_cons_of_ne_nil hinits
    have hhead : st.inits.head? = some message := by rw [hmessage, List.head?_cons]
    refine ⟨Nat.le_refl 1, fun _ => ⟨message, hhead, h.written message hhead⟩, fun _ => ?_,
      fun _ => ?_⟩
    · cases hsyncing : st.syncing with
      | false => rfl
      | true =>
        rw [pending, hsyncing, if_pos rfl] at hnone
        omega
    · by_contra hdatabase
      rw [pending, if_neg hdatabase] at hnone
      omega

/-! ## In every run -/

/-- The program starts when the counter comes to zero, and it does not come back. -/
structure Once (os : List Output) (st : State) : Prop where
  waiting : st.started = false → os = []
  started : st.started = true → os = [.main] ∧ st.runDependencies ≤ 0

theorem Once.alike {os : List Output} {st st' : State} (h : Once os st)
    (hcounter : st'.runDependencies = st.runDependencies) (hstarted : st'.started = st.started) :
    Once os st' :=
  ⟨fun hs => h.waiting (hstarted ▸ hs), fun hs => hcounter ▸ h.started (hstarted ▸ hs)⟩

/-- A dependency is released. -/
theorem Once.release {os : List Output} {st st' : State} (h : Once os st)
    (hcounter : st'.runDependencies = st.runDependencies) (hstarted : st'.started = st.started) :
    Once (os ++ st'.removeRunDependency.2) st'.removeRunDependency.1 := by
  have h' := h.alike hcounter hstarted
  unfold removeRunDependency
  simp only
  split
  · rename_i hzero
    refine ⟨fun hs => absurd hs (by simp), fun _ => ⟨?_, Int.le_of_eq hzero⟩⟩
    cases hs : st'.started with
    | false => rw [h'.waiting hs, List.nil_append]
    | true =>
      have hcount := (h'.started hs).2
      omega
  · rw [List.append_nil]
    refine ⟨h'.waiting, fun hs => ⟨(h'.started hs).1, ?_⟩⟩
    have hcount := (h'.started hs).2
    simp only
    omega

theorem once_step {os : List Output} {st : State} {e : Event} {r : State × List Output}
    (h : Once os st) (hst : st.step e = some r) : Once (os ++ r.2) r.1 := by
  cases e with
  | connect =>
    obtain rfl := Option.some.inj hst
    rw [List.append_nil]
    exact h.alike rfl rfl
  | init message =>
    simp only [step, Option.ite_none_right_eq_some, Option.some.injEq] at hst
    obtain ⟨-, rfl⟩ := hst
    exact h.release rfl rfl
  | preloaded =>
    simp only [step, Option.ite_none_right_eq_some, Option.some.injEq] at hst
    obtain ⟨-, rfl⟩ := hst
    exact h.release rfl rfl
  | synced =>
    simp only [step, Option.ite_none_right_eq_some, Option.some.injEq] at hst
    obtain ⟨-, rfl⟩ := hst
    exact h.release rfl rfl
  | databaseOpened =>
    simp only [step, Option.ite_none_right_eq_some, Option.some.injEq] at hst
    obtain ⟨-, rfl⟩ := hst
    exact h.release rfl rfl
  | databaseFailed =>
    simp only [step, Option.ite_none_right_eq_some, Option.some.injEq] at hst
    obtain ⟨-, rfl⟩ := hst
    rw [List.append_nil]
    exact h.alike rfl rfl

/-- **The program starts once at most, in every run.** -/
theorem started_once {es : List Event} {os : List Output} {st : State}
    (h : system.Run EventSystem.anyEvent es os st) : os.count .main ≤ 1 := by
  have honce : Once [] init := ⟨fun _ => rfl, fun hs => absurd hs (by decide)⟩
  have hrun := h.history (P := Once) (fun _ _ _ _ _ hi _ hst => once_step hi hst) honce
  cases hs : st.started with
  | false =>
    rw [hrun.waiting hs]
    exact Nat.zero_le 1
  | true =>
    rw [(hrun.started hs).1]
    exact Nat.le_refl 1

/-! ## The gate -/

/-- **The start-up gate.**  When no second window's message comes before the program has
started, it starts once, and not before everything is there. -/
theorem start_gate {es : List Event} {os : List Output} {st : State}
    (h : system.Run FirstInit es os st) : Gate os st :=
  (h.history (P := Inv) (fun _ _ _ _ _ hi he hst => inv_step hi he hst) inv_init).gate

/-- The plugin files are loaded. -/
def loaded : List Event := List.replicate 8 .preloaded

/-- One window comes before the start, and another one afterwards. -/
theorem start_gate_two_windows : ∃ st, Gate [.main] st ∧ st.inits.map Init.window = [2, 1] := by
  have h : ∃ st, system.Run FirstInit (loaded ++ [.connect, .connect, .init ⟨1, [5], [6]⟩, .synced,
      .databaseOpened, .init ⟨2, [5], [7]⟩]) [.main] st ∧ st.inits.map Init.window = [2, 1] :=
    ⟨_, .of_restrict (EventSystem.Steps.of_exec (fun _ _ => trivial) rfl), rfl⟩
  obtain ⟨st, h, hinits⟩ := h
  exact ⟨st, start_gate h, hinits⟩

/-- Three windows come while the file system and the database are not there yet. -/
theorem started_early : ∃ st, system.Run EventSystem.anyEvent
    (loaded ++ [.connect, .connect, .connect, .init ⟨1, [5], [6]⟩, .init ⟨2, [5], [7]⟩,
      .init ⟨3, [5], [8]⟩]) [.main] st ∧
      st.syncing ∧ st.database = .opening ∧ ¬ Gate [.main] st := by
  refine ⟨_, EventSystem.Steps.of_exec (fun _ _ => trivial) rfl, rfl, rfl, fun hg => ?_⟩
  exact absurd (hg.synced List.mem_cons_self) (by decide)

end State

end GnunetWeb.Startup
