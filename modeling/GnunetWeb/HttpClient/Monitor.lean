import GnunetWeb.HttpClient.Requests
import GnunetWeb.Library.FiniteMap
import Mathlib.Data.List.Perm.Basic

/-!
# The session monitor

`http_client_plugin_setup_monitor` and the places from which the plugin calls
`notify_session_monitor`.  A monitor is told about the sessions that are there when it is
attached, and from then on about each session that comes, stays after its timeout, or goes.

Proved here:

* `noticed`: what the monitor is told in one step, and what becomes of the table;
* `monitor_mirrors`: what the monitor knows is the table.
-/

namespace GnunetWeb.HttpClient

/-- `enum GNUNET_TRANSPORT_SessionState`, as far as the plugin goes. -/
inductive SessionState where
  | init
  | up
  | update
  | done
  deriving DecidableEq, Repr

/-- `struct GNUNET_TRANSPORT_SessionInfo`, but for what is the same for all sessions. -/
structure SessionInfo (Address : Type) where
  state : SessionState
  receiveDelay : Nat
  sessionTimeout : Nat
  address : Address
  deriving DecidableEq

/-- A call of the monitor; without a session at the end of the first iteration. -/
structure Notice (Address : Type) where
  sic : Ptr
  sicCls : Ptr
  about : Option (Ptr × SessionInfo Address)
  deriving DecidableEq

variable {Address Peer Sockaddr Tokenizer Message : Type}

namespace State

/-! ## What the functions of the plugin tell -/

/-- `notify_session_monitor` up to the call of the monitor. -/
def info (st : State Address Peer Tokenizer Message) (s : Ptr) (state : SessionState) :
    Ptr × SessionInfo Address :=
  (s, ⟨state, (st.heap s).nextReceive, (st.heap s).timeout, (st.heap s).address⟩)

/-- What `client_delete_session` tells, when no assertion before it fails. -/
def deleteInfos (st : State Address Peer Tokenizer Message) (s : Ptr) :
    List (Ptr × SessionInfo Address) :=
  let st := st.cancelTimeout s
  if s ∉ st.sessions then []
  else if (st.heap s).get ≠ 0 ∧ st.curConnections = 0 then []
  else [st.info s .done]

def newSessionInfos (env : Env Address Peer Sockaddr Tokenizer Message)
    (st : State Address Peer Tokenizer Message) (address : Address) (scope : NetworkType) (s : Ptr)
    (task : Task) (now : Nat) : List (Ptr × SessionInfo Address) :=
  let st := st.setSession s
    ⟨none, address, 0, none, some task, 0, absoluteAdd now env.sessionTimeout, scope⟩
  let st := { st with tasks := st.tasks ++ [(task, s)], sessions := st.sessions ++ [s] }
  match st.clientConnect env s with
  | none => st.deleteInfos s
  | some (st, _) => [st.info s .init, st.info s .up]

/-- What `http_client_plugin_get_session` tells. -/
def getSessionInfos [DecidableEq Address] (env : Env Address Peer Sockaddr Tokenizer Message)
    (st : State Address Peer Tokenizer Message) (address : Address) (s : Ptr) (task : Task)
    (now : Nat) : List (Ptr × SessionInfo Address) :=
  if ¬ env.hasAddress address then []
  else
    match st.clientLookupSession address with
    | some _ => []
    | none =>
      if env.maxConnections ≤ st.curConnections then []
      else
        match env.socketFromAddress address with
        | .syserr | .yes none => []
        | .yes (some sa) =>
          if env.getAddressType sa = .unspecified then []
          else st.newSessionInfos env address (env.getAddressType sa) s task now
        | .no => st.newSessionInfos env address .wan s task now

/-- What `client_session_timeout` tells. -/
def timeoutInfos (st : State Address Peer Tokenizer Message) (s : Ptr) (now : Nat) :
    List (Ptr × SessionInfo Address) :=
  let st := st.setSession s { st.heap s with timeoutTask := none }
  if getRemaining now (st.heap s).timeout ≠ 0 then [st.info s .update] else []

/-- What is told in one step. -/
def infos [DecidableEq Address] (env : Env Address Peer Sockaddr Tokenizer Message)
    (st : State Address Peer Tokenizer Message) : Event Address Peer →
      List (Ptr × SessionInfo Address)
  | .getSession address s task now => st.getSessionInfos env address s task now
  | .sessionEnded =>
    match st.stack with
    | .sessionEnd s :: rest => { st with stack := rest }.deleteInfos s
    | _ => []
  | .run task now _ =>
    match st.tasks.find? fun t => t.1 = task with
    | some t => { st with tasks := st.tasks.filter fun t => t.1 ≠ task }.timeoutInfos t.2 now
    | none => []
  | _ => []

end State

/-! ## The plugin with a monitor -/

/-- `plugin->sic` with its closure; `0` is `NULL`. -/
structure Monitored (Address Peer Tokenizer Message : Type) where
  plugin : State Address Peer Tokenizer Message
  sic : Ptr
  sicCls : Ptr

inductive MonitorEvent (Address Peer : Type) where
  | plugin (e : Event Address Peer)
  /-- `order` is the order in which the sessions are iterated over -/
  | setupMonitor (sic sicCls : Ptr) (order : List Ptr)

namespace Monitored

/-- `notify_session_monitor` -/
def notify (st : Monitored Address Peer Tokenizer Message)
    (infos : List (Ptr × SessionInfo Address)) : List (Notice Address) :=
  if st.sic = 0 then [] else infos.map fun i => ⟨st.sic, st.sicCls, some i⟩

/-- `http_client_plugin_setup_monitor`, with `send_session_info_iter` -/
def setupMonitor (st : Monitored Address Peer Tokenizer Message) (sic sicCls : Ptr)
    (order : List Ptr) : Monitored Address Peer Tokenizer Message × List (Notice Address) :=
  let st := { st with sic, sicCls }
  (st, if sic ≠ 0 then
    st.notify (order.flatMap fun s => [st.plugin.info s .init, st.plugin.info s .up]) ++
      [⟨sic, sicCls, none⟩]
  else [])

variable [DecidableEq Address] [DecidableEq Peer]

/-- One event, with the calls of the monitor. -/
def step (env : Env Address Peer Sockaddr Tokenizer Message)
    (st : Monitored Address Peer Tokenizer Message) : MonitorEvent Address Peer →
      Option (Monitored Address Peer Tokenizer Message × List (Notice Address))
  | .plugin e => (st.plugin.step env e).map fun r =>
      ({ st with plugin := r.1 }, st.notify (st.plugin.infos env e))
  | .setupMonitor sic sicCls order =>
    if st.plugin.failed = none ∧ st.plugin.Callable ∧ order.Perm st.plugin.sessions then
      some (st.setupMonitor sic sicCls order)
    else none

def system (env : Env Address Peer Sockaddr Tokenizer Message)
    (heap : Ptr → Session Address Tokenizer) :
    EventSystem (Monitored Address Peer Tokenizer Message) (MonitorEvent Address Peer)
      (Notice Address) :=
  ⟨⟨.init heap, 0, 0⟩, step env⟩

/-- The monitor stays. -/
def Attached (_ : Monitored Address Peer Tokenizer Message) : MonitorEvent Address Peer → Prop
  | .plugin _ => True
  | .setupMonitor _ _ _ => False

end Monitored

/-! ## What the monitor knows -/

abbrev Known (Address : Type) := FiniteMap Ptr (SessionInfo Address)

def Known.learn (known : Known Address) (i : Ptr × SessionInfo Address) : Known Address :=
  if i.2.state = .done then known.dissoc i.1 else known.assoc i.1 i.2

/-- What a monitor knows that has been called so. -/
def known (ns : List (Notice Address)) : Known Address :=
  (ns.filterMap Notice.about).foldl Known.learn .empty

/-- The monitor knows the sessions of the table, with their addresses, and no others. -/
structure Mirrors (st : State Address Peer Tokenizer Message) (known : Known Address) : Prop where
  knows : ∀ s ∈ st.sessions, ∃ i, known.get? s = some i ∧ i.address = (st.heap s).address ∧
    i.state ∈ [SessionState.up, .update]
  others : ∀ s, s ∉ st.sessions → known.get? s = none

/-! ## One step -/

/-- What the monitor is told, and what has become of the table. -/
inductive Noticed (st st' : State Address Peer Tokenizer Message) :
    List (Ptr × SessionInfo Address) → Prop
  | same (hsessions : st'.sessions = st.sessions)
      (haddress : ∀ s ∈ st.sessions, (st'.heap s).address = (st.heap s).address) :
      Noticed st st' []
  | updated {s : Ptr} {i : SessionInfo Address} (hsessions : st'.sessions = st.sessions)
      (haddress : ∀ s ∈ st.sessions, (st'.heap s).address = (st.heap s).address)
      (hs : s ∈ st.sessions) (hi : i.address = (st.heap s).address) (hstate : i.state = .update) :
      Noticed st st' [(s, i)]
  | added {s : Ptr} {i j : SessionInfo Address} (hs : s ∉ st.sessions)
      (hsessions : st'.sessions = st.sessions ++ [s])
      (haddress : ∀ s ∈ st.sessions, (st'.heap s).address = (st.heap s).address)
      (hi : i.state = .init) (hj : j.address = (st'.heap s).address) (hstate : j.state = .up) :
      Noticed st st' [(s, i), (s, j)]
  | deleted {s : Ptr} {i : SessionInfo Address} (hs : s ∈ st.sessions)
      (hsessions : st'.sessions = st.sessions.erase s)
      (haddress : ∀ s ∈ st.sessions, (st'.heap s).address = (st.heap s).address)
      (hstate : i.state = .done) : Noticed st st' [(s, i)]

variable {env : Env Address Peer Sockaddr Tokenizer Message}
  {st st' : State Address Peer Tokenizer Message}

theorem Known.get?_learn (known : Known Address) (i : Ptr × SessionInfo Address) (s : Ptr) :
    (known.learn i).get? s =
      if i.1 = s then if i.2.state = .done then none else some i.2 else known.get? s := by
  rw [learn]
  split
  · next hdone =>
    rw [FiniteMap.get?_dissoc]
    split_ifs with h h' h'
    · rfl
    · exact absurd h.symm h'
    · exact absurd h'.symm h
    · rfl
  · rw [FiniteMap.get?_assoc]

/-- The sessions other than the one that the monitor is told about. -/
theorem Mirrors.other {known : Known Address} (h : Mirrors st known)
    (haddress : ∀ s ∈ st.sessions, (st'.heap s).address = (st.heap s).address)
    {i : Ptr × SessionInfo Address} {s : Ptr} (hs : s ∈ st.sessions) (hne : i.1 ≠ s) :
    ∃ j, (known.learn i).get? s = some j ∧ j.address = (st'.heap s).address ∧
      j.state ∈ [SessionState.up, .update] := by
  obtain ⟨j, hget, hj, hstate⟩ := h.knows s hs
  refine ⟨j, ?_, hj.trans (haddress s hs).symm, hstate⟩
  rw [Known.get?_learn, if_neg hne, hget]

theorem Noticed.nodup {infos : List (Ptr × SessionInfo Address)} (hn : Noticed st st' infos)
    (h : st.sessions.Nodup) : st'.sessions.Nodup := by
  cases hn with
  | same hsessions _ | updated hsessions _ _ _ _ => exact hsessions ▸ h
  | @added s _ _ hs hsessions _ _ _ _ =>
    rw [hsessions]
    exact List.nodup_append.mpr ⟨h, List.nodup_singleton s, fun a ha b hb hab =>
      hs (List.mem_singleton.mp hb ▸ hab ▸ ha)⟩
  | @deleted s _ _ hsessions _ _ => exact hsessions ▸ h.erase s

/-- **The monitor follows.** -/
theorem Mirrors.noticed {known : Known Address} (h : Mirrors st known) (hnodup : st.sessions.Nodup)
    {infos : List (Ptr × SessionInfo Address)} (hn : Noticed st st' infos) :
    Mirrors st' (infos.foldl Known.learn known) := by
  cases hn with
  | same hsessions haddress =>
    refine ⟨fun s hs => ?_, fun s hs => h.others s (hsessions ▸ hs)⟩
    rw [hsessions] at hs
    obtain ⟨i, hget, hi, hstate⟩ := h.knows s hs
    exact ⟨i, hget, hi.trans (haddress s hs).symm, hstate⟩
  | @updated s i hsessions haddress hs hi hstate =>
    refine ⟨fun s' hs' => ?_, fun s' hs' => ?_⟩
    · rw [hsessions] at hs'
      by_cases he : s = s'
      · subst he
        refine ⟨i, ?_, hi.trans (haddress s hs').symm, by rw [hstate]; decide⟩
        simp [Known.get?_learn, hstate]
      · exact h.other haddress hs' he
    · rw [hsessions] at hs'
      have he : s ≠ s' := fun he => hs' (he ▸ hs)
      simpa [Known.get?_learn, he] using h.others s' hs'
  | @added s i j hs hsessions haddress hi hj hstate =>
    refine ⟨fun s' hs' => ?_, fun s' hs' => ?_⟩
    · by_cases he : s = s'
      · subst he
        refine ⟨j, ?_, hj, by rw [hstate]; decide⟩
        simp [Known.get?_learn, hstate]
      · rw [hsessions, List.mem_append, List.mem_singleton] at hs'
        have hs' := hs'.resolve_right (Ne.symm he)
        obtain ⟨k, hget, hk⟩ := h.other haddress hs' (i := (s, i)) he
        refine ⟨k, ?_, hk⟩
        rw [List.foldl_cons, List.foldl_cons, List.foldl_nil, Known.get?_learn, if_neg he, hget]
    · rw [hsessions, List.mem_append, List.mem_singleton, not_or] at hs'
      simpa [Known.get?_learn, Ne.symm hs'.2] using h.others s' hs'.1
  | @deleted s i hs hsessions haddress hstate =>
    have hmem : ∀ s', s' ∈ st'.sessions ↔ s' ≠ s ∧ s' ∈ st.sessions := by
      intro s'
      rw [hsessions, hnodup.mem_erase_iff]
    refine ⟨fun s' hs' => ?_, fun s' hs' => ?_⟩
    · obtain ⟨hne, hs'⟩ := (hmem s').mp hs'
      exact h.other haddress hs' (Ne.symm hne)
    · rw [hmem, not_and'] at hs'
      by_cases he : s = s'
      · simp [Known.get?_learn, he, hstate]
      · have hnot : s' ∉ st.sessions := fun hmem => hs' hmem (Ne.symm he)
        simp [Known.get?_learn, he, h.others s' hnot]

namespace State

theorem address_setSession (st : State Address Peer Tokenizer Message) {s : Ptr}
    {x : Session Address Tokenizer} (hx : x.address = (st.heap s).address) (s' : Ptr) :
    ((st.setSession s x).heap s').address = (st.heap s').address := by
  by_cases hs : s' = s
  · simp [setSession, hs, hx]
  · simp [setSession, hs]

theorem cancelTimeout_same (st : State Address Peer Tokenizer Message) (s : Ptr) :
    (st.cancelTimeout s).sessions = st.sessions ∧
      ∀ s', ((st.cancelTimeout s).heap s').address = (st.heap s').address := by
  unfold cancelTimeout
  split
  · exact ⟨rfl, address_setSession st rfl⟩
  · exact ⟨rfl, fun _ => rfl⟩

theorem abortXhr_same (st : State Address Peer Tokenizer Message) (get : Nat) :
    (st.abortXhr get).sessions = st.sessions ∧ (st.abortXhr get).heap = st.heap := by
  unfold abortXhr
  split
  · exact ⟨rfl, rfl⟩
  · exact ⟨rfl, rfl⟩

theorem freeUrl_sound (st : State Address Peer Tokenizer Message) (s : Ptr)
    (hfailed : (st.freeUrl s).failed = none) : st.freeUrl s = st := by
  unfold freeUrl at hfailed ⊢
  split at hfailed
  · cases hfailed
  · exact if_neg ‹_›

/-- The end of a session, if no assertion fails. -/
theorem delete_sound (st : State Address Peer Tokenizer Message) (s : Ptr)
    (hfailed : (st.clientDeleteSession s).failed = none) :
    s ∈ st.sessions ∧ (st.clientDeleteSession s).sessions = st.sessions.erase s ∧
      (∀ s', ((st.clientDeleteSession s).heap s').address = (st.heap s').address) ∧
      st.deleteInfos s = [(st.cancelTimeout s).info s .done] := by
  obtain ⟨hsessions, hheap⟩ := st.cancelTimeout_same s
  unfold clientDeleteSession at hfailed ⊢
  unfold deleteInfos
  rw [← hsessions]
  generalize st.cancelTimeout s = st₁ at *
  by_cases hs : s ∈ st₁.sessions
  · refine ⟨hs, ?_⟩
    by_cases hget : (st₁.heap s).get = 0
    · simp only [hs, hget, not_true, if_false, if_true, ne_eq, false_and] at hfailed ⊢
      rw [freeUrl_sound _ _ hfailed]
      exact ⟨rfl, fun s' => (address_setSession _ (by rfl) s').trans (hheap s'), trivial⟩
    · by_cases hcount : st₁.curConnections = 0
      · simp [hs, hget, hcount, fail] at hfailed
      · simp only [hs, hget, hcount, not_true, if_false, ne_eq, and_false] at hfailed ⊢
        rw [freeUrl_sound _ _ hfailed]
        obtain ⟨hsame, hsameHeap⟩ := abortXhr_same { st₁ with
          sessions := st₁.sessions.erase s, curConnections := st₁.curConnections - 1 }
          (st₁.heap s).get
        refine ⟨hsame, fun s' => ?_, trivial⟩
        refine (address_setSession _ (by rfl) s').trans ?_
        rw [hsameHeap]
        exact hheap s'
  · simp [hs, fail] at hfailed

/-- A session that is made. -/
theorem noticed_newSession (env : Env Address Peer Sockaddr Tokenizer Message)
    (st : State Address Peer Tokenizer Message) (address : Address) (scope : NetworkType) {s : Ptr}
    {task : Task} (now : Nat) (hs : s ∉ st.sessions) (htask : st.FreshTask task)
    (hfailed : (st.newSession env address scope s task now).1.failed = none) :
    Noticed st (st.newSession env address scope s task now).1
      (st.newSessionInfos env address scope s task now) := by
  have hother : ∀ s' ∈ st.sessions, s' ≠ s := fun s' hs' he => hs (he ▸ hs')
  obtain ⟨haddress, -⟩ | ⟨-, x, -, heq⟩ := added_newSession env st address scope now hs htask
  swap
  · rw [heq] at hfailed
    cases hfailed
  unfold newSession newSessionInfos clientConnect
  cases haddress' : env.addressToString address with
  | none => exact absurd haddress' haddress
  | some name =>
    simp only [setSession, Function.update_self, haddress', clientConnectGet, setXhr, resend, info]
    refine .added hs rfl (fun s' hs' => ?_) rfl ?_ rfl
    · simp [hother s' hs']
    · simp

variable [DecidableEq Address] [DecidableEq Peer]

omit [DecidableEq Address] [DecidableEq Peer] in
/-- A session that is idle, or goes on. -/
theorem noticed_timeout (st : State Address Peer Tokenizer Message) (tasks : List (Task × Ptr))
    {s : Ptr} (hs : s ∈ st.sessions) (now : Nat) (task' : Task) :
    Noticed st (clientSessionTimeout { st with tasks } s now task').1
      (timeoutInfos { st with tasks } s now) := by
  have haddress := address_setSession { st with tasks } (s := s)
    (x := { st.heap s with timeoutTask := none }) rfl
  unfold clientSessionTimeout timeoutInfos
  simp only
  split
  · refine .updated rfl (fun s' _ => ?_) hs (haddress s) rfl
    exact (address_setSession _ (by rfl) s').trans (haddress s')
  · exact .same rfl fun s' _ => haddress s'

/-! ## Steps of which the monitor is not told -/

/-- The table, its tasks and addresses are as they were. -/
structure Same (st st' : State Address Peer Tokenizer Message) : Prop where
  sessions : st'.sessions = st.sessions
  tasks : st'.tasks = st.tasks
  address : ∀ s, (st'.heap s).address = (st.heap s).address
  timeoutTask : ∀ s, (st'.heap s).timeoutTask = (st.heap s).timeoutTask

omit [DecidableEq Address] [DecidableEq Peer] in
theorem Alike.same (h : Alike st st') : Same st st' :=
  ⟨h.sessions, h.tasks, h.address, h.timeoutTask⟩

omit [DecidableEq Address] [DecidableEq Peer] in
theorem Same.trans {st'' : State Address Peer Tokenizer Message} (h : Same st st')
    (h' : Same st' st'') : Same st st'' where
  sessions := h'.sessions.trans h.sessions
  tasks := h'.tasks.trans h.tasks
  address s := (h'.address s).trans (h.address s)
  timeoutTask s := (h'.timeoutTask s).trans (h.timeoutTask s)

omit [DecidableEq Peer] in
/-- `http_client_plugin_get_session` makes a session, or leaves the table. -/
theorem getSession_cases (env : Env Address Peer Sockaddr Tokenizer Message)
    (st : State Address Peer Tokenizer Message) (address : Address) (s : Ptr) (task : Task)
    (now : Nat) :
    (∃ scope, st.getSession env address s task now = st.newSession env address scope s task now ∧
      st.getSessionInfos env address s task now =
        st.newSessionInfos env address scope s task now) ∨
    st.getSessionInfos env address s task now = [] ∧
      Same st (st.getSession env address s task now).1 := by
  have hsame : Same st st := ⟨rfl, rfl, fun _ => rfl, fun _ => rfl⟩
  unfold getSession getSessionInfos
  split
  · exact .inr ⟨rfl, (alike_fail st _).same⟩
  cases st.clientLookupSession address with
  | some s' => exact .inr ⟨rfl, hsame⟩
  | none =>
    simp only
    split
    · exact .inr ⟨rfl, hsame⟩
    cases env.socketFromAddress address with
    | syserr => exact .inr ⟨rfl, hsame⟩
    | no => exact .inl ⟨_, rfl, rfl⟩
    | yes sa =>
      cases sa with
      | none => exact .inr ⟨rfl, (alike_fail st _).same⟩
      | some sa =>
        simp only
        split
        · exact .inr ⟨rfl, hsame⟩
        · exact .inl ⟨_, rfl, rfl⟩

omit [DecidableEq Address] [DecidableEq Peer] in
theorem same_resend (st : State Address Peer Tokenizer Message) (get : Nat) :
    Same st (st.resend get).1 := by
  unfold resend
  split
  · exact ⟨rfl, rfl, fun _ => rfl, fun _ => rfl⟩
  · exact ⟨rfl, rfl, fun _ => rfl, fun _ => rfl⟩

omit [DecidableEq Address] [DecidableEq Peer] in
theorem same_receiveNext (st : State Address Peer Tokenizer Message) (s : Ptr) (get : Nat)
    (messages : List Message) : Same st (st.receiveNext s get messages).1 := by
  cases messages with
  | nil => exact same_resend st get
  | cons m left => exact ⟨rfl, rfl, fun _ => rfl, fun _ => rfl⟩

omit [DecidableEq Address] [DecidableEq Peer] in
theorem same_onload (env : Env Address Peer Sockaddr Tokenizer Message)
    (st : State Address Peer Tokenizer Message) (get : Nat) (x : Xhr) (response : List UInt8)
    (now : Nat) : Same st (st.onload env get x response now).1 := by
  have hclosed : Same st (st.setXhr get { x with isOpen := false }) :=
    ⟨rfl, rfl, fun _ => rfl, fun _ => rfl⟩
  unfold onload
  simp only
  split
  · exact hclosed.trans (same_resend _ get)
  · next session messages hreceive =>
    have halike : Alike (st.setXhr get { x with isOpen := false })
        ((st.setXhr get { x with isOpen := false }).setSession x.s session) :=
      alike_clientReceive hreceive
    exact (hclosed.trans halike.same).trans (same_receiveNext _ _ _ _)

omit [DecidableEq Address] [DecidableEq Peer] in
theorem same_putEnds {i : Nat} {result : Int}
    {r : State Address Peer Tokenizer Message × List (Output Address Message)}
    (hp : st.putEnds i result = some r) : Same st r.1 := by
  obtain ⟨p, -, ⟨-, rfl⟩ | ⟨-, rfl⟩⟩ := putEnds_eq hp
  · exact ⟨rfl, rfl, fun _ => rfl, fun _ => rfl⟩
  · exact ⟨rfl, rfl, fun _ => rfl, fun _ => rfl⟩

/-- **What a step is about**: it makes or ends a session, runs a task, or leaves the table. -/
theorem step_about {e : Event Address Peer}
    {r : State Address Peer Tokenizer Message × List (Output Address Message)}
    (h : step env st e = some r) :
    (∃ address s task now, e = .getSession address s task now ∧ s ∉ st.sessions ∧
      st.FreshTask task ∧ r = st.getSession env address s task now) ∨
    (∃ s rest, e = .sessionEnded ∧ st.stack = .sessionEnd s :: rest ∧
      r = ({ st with stack := rest }.clientDeleteSession s, [])) ∨
    (∃ task now task' s, e = .run task now task' ∧ st.stack = [] ∧
      st.tasks.find? (fun t => t.1 = task) = some (task, s) ∧
      r = clientSessionTimeout { st with tasks := st.tasks.filter fun t => t.1 ≠ task } s now
        task') ∨
    st.infos env e = [] ∧ Same st r.1 := by
  have hsame : Same st st := ⟨rfl, rfl, fun _ => rfl, fun _ => rfl⟩
  obtain ⟨-, hmoves⟩ := step_cases h
  cases hmoves with
  | @getSession address s task now hg =>
    exact .inl ⟨address, s, task, now, rfl, hg.2.2.1, hg.2.2.2, rfl⟩
  | @sessionEnded s rest hstack => exact .inr (.inl ⟨s, rest, rfl, hstack, rfl⟩)
  | @run task now task' s hstack ht hfresh =>
    exact .inr (.inr (.inl ⟨task, now, task', s, rfl, hstack, ht, rfl⟩))
  | send hg | disconnectSession hg | disconnectPeer hg =>
    exact .inr (.inr (.inr ⟨rfl, rfl, rfl, fun _ => rfl, fun _ => rfl⟩))
  | destroySession hstack hleft hmem =>
    exact .inr (.inr (.inr ⟨rfl, rfl, rfl, fun _ => rfl, fun _ => rfl⟩))
  | peerDisconnected hstack | transmitted hstack =>
    exact .inr (.inr (.inr ⟨rfl, rfl, rfl, fun _ => rfl, fun _ => rfl⟩))
  | error hstack hx ho => exact .inr (.inr (.inr ⟨rfl, rfl, rfl, fun _ => rfl, fun _ => rfl⟩))
  | @updateSessionTimeout s now hg =>
    exact .inr (.inr (.inr ⟨rfl, (alike_clientRescheduleSessionTimeout env st s now).same⟩))
  | @updateInboundDelay s delay now hg =>
    exact .inr (.inr (.inr ⟨rfl, (alike_setSession (x := setNextReceive (st.heap s) delay now) st
      rfl rfl rfl rfl).same⟩))
  | @received s get left rest delay now now' hstack =>
    have hpop : Same st { st with stack := rest } := ⟨rfl, rfl, fun _ => rfl, fun _ => rfl⟩
    have halike := hpop.trans
      (alike_clientReceiveMstCb env { st with stack := rest } s delay now now').same
    refine .inr (.inr (.inr ⟨rfl, ?_⟩))
    split
    · exact halike.trans (same_receiveNext _ s get left)
    · exact halike
  | @load get response now x hstack hx ho =>
    exact .inr (.inr (.inr ⟨rfl, same_onload env st get x response now⟩))
  | @timeout get x hstack hx ho => exact .inr (.inr (.inr ⟨rfl, same_resend st get⟩))
  | putLoad hstack hp | putError hstack hp =>
    exact .inr (.inr (.inr ⟨rfl, same_putEnds hp⟩))

/-! ## Tasks -/

/-- Each task is that of a session of the table. -/
def Pending (st : State Address Peer Tokenizer Message) : Prop :=
  ∀ t ∈ st.tasks, t.2 ∈ st.sessions ∧ (st.heap t.2).timeoutTask = some t.1

omit [DecidableEq Address] [DecidableEq Peer] in
theorem Pending.same (h : Pending st) (hsame : Same st st') : Pending st' := by
  intro t ht
  rw [hsame.tasks] at ht
  rw [hsame.sessions, hsame.timeoutTask]
  exact h t ht

omit [DecidableEq Address] [DecidableEq Peer] in
/-- What is left of the tasks when a session is deleted. -/
theorem Pending.cancelled (h : Pending st) {s : Ptr} {t : Task × Ptr}
    (ht : t ∈ (st.cancelTimeout s).tasks) : t ∈ st.tasks ∧ t.2 ≠ s := by
  unfold cancelTimeout at ht
  split at ht
  · next task htask =>
    obtain ⟨hmem, hne⟩ := List.mem_filter.mp ht
    refine ⟨hmem, ?_⟩
    rintro rfl
    exact of_decide_eq_true hne (Option.some.inj ((h t hmem).2.symm.trans htask))
  · next htask =>
    refine ⟨ht, ?_⟩
    rintro rfl
    cases (h t ht).2.symm.trans htask

omit [DecidableEq Address] [DecidableEq Peer] in
theorem clientDeleteSession_rest (st : State Address Peer Tokenizer Message) (s : Ptr) :
    (∀ s', s' ≠ s → (st.clientDeleteSession s).heap s' = st.heap s') ∧
      (st.clientDeleteSession s).tasks = (st.cancelTimeout s).tasks := by
  have hcancel : ∀ s', s' ≠ s → (st.cancelTimeout s).heap s' = st.heap s' := by
    intro s' hne
    unfold cancelTimeout
    split
    · simp [setSession, hne]
    · rfl
  have hfree : ∀ st : State Address Peer Tokenizer Message,
      (st.freeUrl s).heap = st.heap ∧ (st.freeUrl s).tasks = st.tasks := by
    intro st
    unfold freeUrl
    split
    · exact ⟨rfl, rfl⟩
    · exact ⟨rfl, rfl⟩
  unfold clientDeleteSession abortXhr
  simp only
  split
  · exact ⟨hcancel, rfl⟩
  split
  · rw [(hfree _).1, (hfree _).2]
    exact ⟨fun s' hne => by simpa [setSession, hne] using hcancel s' hne, rfl⟩
  split
  · exact ⟨hcancel, rfl⟩
  rw [(hfree _).1, (hfree _).2]
  split
  · exact ⟨fun s' hne => by simpa [setSession, setXhr, hne] using hcancel s' hne, rfl⟩
  · exact ⟨fun s' hne => by simpa [setSession, hne] using hcancel s' hne, rfl⟩

omit [DecidableEq Address] [DecidableEq Peer] in
theorem Pending.delete (h : Pending st) (s : Ptr)
    (hsessions : (st.clientDeleteSession s).sessions = st.sessions.erase s) :
    Pending (st.clientDeleteSession s) := by
  obtain ⟨hheap, htasks⟩ := st.clientDeleteSession_rest s
  intro t ht
  rw [htasks] at ht
  obtain ⟨hmem, hne⟩ := h.cancelled ht
  obtain ⟨hs, htask⟩ := h t hmem
  rw [hsessions, hheap t.2 hne]
  exact ⟨(List.mem_erase_of_ne hne).mpr hs, htask⟩

omit [DecidableEq Address] [DecidableEq Peer] in
theorem Pending.newSession (h : Pending st) (address : Address) (scope : NetworkType) {s : Ptr}
    {task : Task} (now : Nat) (hs : s ∉ st.sessions) (htask : st.FreshTask task) :
    Pending (st.newSession env address scope s task now).1 := by
  have hother : ∀ t ∈ st.tasks, t.2 ≠ s := fun t ht he => hs (he ▸ (h t ht).1)
  obtain ⟨-, ha⟩ | ⟨-, x, -, heq⟩ := added_newSession env st address scope now hs htask
  · intro t ht
    rw [ha.tasks, List.mem_append, List.mem_singleton] at ht
    rw [ha.sessions, List.mem_append, List.mem_singleton]
    obtain ht | rfl := ht
    · rw [ha.heap t.2 (hother t ht)]
      exact ⟨.inl (h t ht).1, (h t ht).2⟩
    · exact ⟨.inr rfl, ha.timeoutTask⟩
  · rw [heq]
    intro t ht
    have hheap : ((st.setSession s x).fail .url).heap t.2 = st.heap t.2 := by
      simp [fail, setSession, hother t ht]
    rw [hheap]
    exact h t ht

/-- **Every event keeps the tasks.** -/
theorem pending_step {e : Event Address Peer}
    {r : State Address Peer Tokenizer Message × List (Output Address Message)} (h : Pending st)
    (hst : step env st e = some r) (hfailed : r.1.failed = none) : Pending r.1 := by
  obtain ⟨address, s, task, now, -, hs, htask, rfl⟩ | ⟨s, rest, -, hstack, rfl⟩ |
    ⟨task, now, task', s, -, hstack, ht, rfl⟩ | ⟨-, hsame⟩ := step_about hst
  · obtain ⟨scope, heq, -⟩ | ⟨-, hsame⟩ := st.getSession_cases env address s task now
    · rw [heq]
      exact h.newSession address scope now hs htask
    · exact h.same hsame
  · exact Pending.delete (show Pending { st with stack := rest } from h) s
      (delete_sound _ s hfailed).2.1
  · obtain ⟨new, -, hr⟩ := retasked_clientSessionTimeout st s now task task' hstack
    obtain ⟨hs, htask⟩ := h _ (List.mem_of_find?_eq_some ht)
    intro t hmem
    rw [hr.tasks, List.mem_append, List.mem_filter] at hmem
    rw [hr.sessions]
    obtain ⟨hmem, hne⟩ | hmem := hmem
    · have hother : t.2 ≠ s := by
        rintro rfl
        exact of_decide_eq_true hne (Option.some.inj ((h t hmem).2.symm.trans htask))
      rw [hr.other t.2 hother]
      exact h t hmem
    · cases new with
      | none => cases hmem
      | some task'' =>
        obtain rfl := List.mem_singleton.mp hmem
        exact ⟨hs, hr.timeoutTask⟩
  · exact h.same hsame

/-- **What happens in one step**, if no assertion fails. -/
theorem noticed {e : Event Address Peer}
    {r : State Address Peer Tokenizer Message × List (Output Address Message)} (h : Pending st)
    (hst : step env st e = some r) (hfailed : r.1.failed = none) :
    Noticed st r.1 (st.infos env e) := by
  obtain ⟨address, s, task, now, rfl, hs, htask, rfl⟩ | ⟨s, rest, rfl, hstack, rfl⟩ |
    ⟨task, now, task', s, rfl, hstack, ht, rfl⟩ | ⟨hinfos, hsame⟩ := step_about hst
  · rw [infos]
    obtain ⟨scope, heq, hinfos⟩ | ⟨hinfos, hsame⟩ := st.getSession_cases env address s task now
    · rw [heq] at hfailed ⊢
      rw [hinfos]
      exact noticed_newSession env st address scope now hs htask hfailed
    · rw [hinfos]
      exact .same hsame.sessions fun s' _ => hsame.address s'
  · obtain ⟨hs, hsessions, haddress, hinfos⟩ := delete_sound _ s hfailed
    simp only [infos, hstack, hinfos]
    exact .deleted hs hsessions (fun s' _ => haddress s') rfl
  · rw [infos, ht]
    exact noticed_timeout st _ (h _ (List.mem_of_find?_eq_some ht)).1 now task'
  · rw [hinfos]
    exact .same hsame.sessions fun s' _ => hsame.address s'

end State

/-! ## Runs -/

/-- What the first iteration makes known. -/
theorem get?_iterated (st : State Address Peer Tokenizer Message) (order : List Ptr) (s : Ptr) :
    ∀ known : Known Address,
      ((order.flatMap fun s => [st.info s .init, st.info s .up]).foldl Known.learn known).get? s =
        if s ∈ order then some (st.info s .up).2 else known.get? s := by
  induction order with
  | nil =>
    intro known
    rfl
  | cons s₁ order ih =>
    intro known
    rw [List.flatMap_cons, List.foldl_append, ih]
    by_cases he : s₁ = s
    · simp [he, Known.get?_learn, State.info]
    · simp [he, Ne.symm he, Known.get?_learn, State.info]

theorem known_append (ns ns' : List (Notice Address)) :
    known (ns ++ ns') = (ns'.filterMap Notice.about).foldl Known.learn (known ns) := by
  rw [known, List.filterMap_append, List.foldl_append, known]

namespace Monitored

variable {heap : Ptr → Session Address Tokenizer}

theorem about_notify {st : Monitored Address Peer Tokenizer Message} (hsic : st.sic ≠ 0)
    (infos : List (Ptr × SessionInfo Address)) :
    (st.notify infos).filterMap Notice.about = infos := by
  rw [notify, if_neg hsic, List.filterMap_map]
  exact List.filterMap_some

theorem of_mem_notify {st : Monitored Address Peer Tokenizer Message}
    {infos : List (Ptr × SessionInfo Address)} {n : Notice Address} (hn : n ∈ st.notify infos) :
    n.sic = st.sic ∧ n.sicCls = st.sicCls := by
  rw [notify] at hn
  split at hn
  · cases hn
  · obtain ⟨i, -, rfl⟩ := List.mem_map.mp hn
    exact ⟨rfl, rfl⟩

variable [DecidableEq Address] [DecidableEq Peer]

/-- As long as no assertion fails, no session is twice in the table, and each task is that of a
session of the table. -/
def Kept (st : State Address Peer Tokenizer Message) : Prop :=
  st.failed = none → st.sessions.Nodup ∧ st.Pending

omit [DecidableEq Address] [DecidableEq Peer] in
theorem kept_init : Kept (.init heap : State Address Peer Tokenizer Message) :=
  fun _ => ⟨List.nodup_nil, fun _ ht => nomatch ht⟩

theorem kept_step {st st' : Monitored Address Peer Tokenizer Message}
    {e : MonitorEvent Address Peer} {ns : List (Notice Address)} (h : Kept st.plugin)
    (hst : step env st e = some (st', ns)) : Kept st'.plugin := by
  cases e with
  | plugin e =>
    obtain ⟨r, hr, he⟩ := Option.map_eq_some_iff.mp hst
    cases he
    intro hfailed
    obtain ⟨hnodup, hpending⟩ := h (State.step_cases hr).1
    exact ⟨(State.noticed hpending hr hfailed).nodup hnodup,
      State.pending_step hpending hr hfailed⟩
  | setupMonitor sic sicCls order =>
    obtain ⟨-, he⟩ := State.guarded hst
    cases he
    exact h

omit [DecidableEq Address] [DecidableEq Peer] in
/-- A monitor that has just been attached. -/
theorem mirrors_setup {st : Monitored Address Peer Tokenizer Message} {sic : Ptr} (hsic : sic ≠ 0)
    (sicCls : Ptr) {order : List Ptr} (horder : order.Perm st.plugin.sessions) :
    Mirrors st.plugin (known (st.setupMonitor sic sicCls order).2) := by
  have hknown : known (st.setupMonitor sic sicCls order).2 =
      (order.flatMap fun s => [st.plugin.info s .init, st.plugin.info s .up]).foldl
        Known.learn .empty := by
    rw [known, setupMonitor, if_pos hsic, List.filterMap_append,
      about_notify (show Monitored.sic { st with sic, sicCls } ≠ 0 from hsic)]
    exact congrArg (List.foldl _ _) (List.append_nil _)
  rw [hknown]
  refine ⟨fun s hs => ?_, fun s hs => ?_⟩
  · refine ⟨(st.plugin.info s .up).2, ?_, rfl, List.mem_cons_self⟩
    rw [get?_iterated, if_pos (horder.mem_iff.mpr hs)]
  · rw [get?_iterated, if_neg fun hmem => hs (horder.mem_iff.mp hmem)]
    rfl

/-- A monitor that stays. -/
structure Follows (sic sicCls : Ptr) (ns : List (Notice Address))
    (st : Monitored Address Peer Tokenizer Message) : Prop where
  attached : st.sic = sic ∧ st.sicCls = sicCls
  calls : ∀ n ∈ ns, n.sic = sic ∧ n.sicCls = sicCls
  kept : Kept st.plugin
  mirrors : st.plugin.failed = none → Mirrors st.plugin (known ns)

theorem Follows.step {sic sicCls : Ptr} {ns o : List (Notice Address)}
    {st st' : Monitored Address Peer Tokenizer Message} {e : MonitorEvent Address Peer}
    (h : Follows sic sicCls ns st) (hsic : sic ≠ 0) (hok : Attached st e)
    (hst : step env st e = some (st', o)) : Follows sic sicCls (ns ++ o) st' := by
  have hkept := kept_step h.kept hst
  cases e with
  | setupMonitor _ _ _ => cases hok
  | plugin e =>
    obtain ⟨r, hr, he⟩ := Option.map_eq_some_iff.mp hst
    cases he
    refine ⟨h.attached, fun n hn => ?_, hkept, fun hfailed => ?_⟩
    · obtain hn | hn := List.mem_append.mp hn
      · exact h.calls n hn
      · obtain ⟨hnsic, hncls⟩ := of_mem_notify hn
        exact ⟨hnsic.trans h.attached.1, hncls.trans h.attached.2⟩
    · have hbefore := (State.step_cases hr).1
      obtain ⟨hnodup, hpending⟩ := h.kept hbefore
      rw [known_append, about_notify (h.attached.1 ▸ hsic)]
      exact (h.mirrors hbefore).noticed hnodup (State.noticed hpending hr hfailed)

/-- **The monitor knows the table.**  In every run, from the time when a monitor is attached
until another one is, and as long as no assertion fails, all calls go to this monitor, and the
sessions that it knows from them are those of the table, with their addresses: each of them is
up, and what has gone is not known any more. -/
theorem monitor_mirrors {es es' : List (MonitorEvent Address Peer)}
    {os ns ns' : List (Notice Address)} {st st₁ st' : Monitored Address Peer Tokenizer Message}
    {sic sicCls : Ptr} {order : List Ptr} (h : (system env heap).Run EventSystem.anyEvent es os st)
    (hsic : sic ≠ 0) (hattach : step env st (.setupMonitor sic sicCls order) = some (st₁, ns))
    (h' : (system env heap).Steps Attached st₁ es' ns' st') (hfailed : st'.plugin.failed = none) :
    Mirrors st'.plugin (known (ns ++ ns')) ∧
      ∀ n ∈ ns ++ ns', n.sic = sic ∧ n.sicCls = sicCls := by
  have hkept : Kept st.plugin :=
    h.invariant (P := fun st => Kept st.plugin) (fun _ _ _ _ hk _ hst => kept_step hk hst) kept_init
  have hfirst : Follows sic sicCls ns st₁ := by
    obtain ⟨⟨-, -, horder⟩, he⟩ := State.guarded hattach
    cases he
    refine ⟨⟨rfl, rfl⟩, fun n hn => ?_, hkept, fun _ => mirrors_setup hsic sicCls horder⟩
    rw [if_pos hsic] at hn
    obtain hn | hn := List.mem_append.mp hn
    · exact of_mem_notify hn
    · rw [List.mem_singleton.mp hn]
      exact ⟨rfl, rfl⟩
  have hlast : Follows sic sicCls (ns ++ ns') st' :=
    h'.history (P := fun o st => Follows sic sicCls (ns ++ o) st)
      (fun o _ _ _ _ hf hok hst => List.append_assoc ns o _ ▸ hf.step hsic hok hst)
      ((List.append_nil ns).symm ▸ hfirst)
  exact ⟨hlast.mirrors hfailed, hlast.calls⟩

omit [DecidableEq Address] [DecidableEq Peer] in
instance (st : Monitored Address Peer Tokenizer Message) (e : MonitorEvent Address Peer) :
    Decidable (Attached st e) :=
  match e with
  | .plugin _ => .isTrue trivial
  | .setupMonitor _ _ _ => .isFalse id

/-- A monitor is attached when there is one session; another one comes and stays after its
timeout, and the first one goes. -/
theorem monitor_mirrors_two :
    ∃ (st : Monitored (Nat × Nat) Nat (List UInt8) (List UInt8)) (ns : List (Notice (Nat × Nat))),
      Mirrors st.plugin (known ns) ∧ (∀ n ∈ ns, n.sic = 5 ∧ n.sicCls = 6) ∧
      (known ns).keys = [32] ∧ ns.length = 7 := by
  obtain ⟨_, _, h, _, ns, hattach, st', ns', h', hfailed, hkeys, hlen⟩ : ∃ os st,
      (system Mst.env State.blank).Run EventSystem.anyEvent
        [.plugin (.getSession (7, 80) 16 1 0)] os st ∧
      ∃ st₁ ns, step Mst.env st (.setupMonitor 5 6 [16]) = some (st₁, ns) ∧
      ∃ st' ns', (system Mst.env State.blank).Steps Attached st₁
        [.plugin (.getSession (8, 80) 32 2 0), .plugin (.disconnectSession 16),
          .plugin .sessionEnded, .plugin (.run 2 0 3)] ns' st' ∧
      st'.plugin.failed = none ∧ (known (ns ++ ns')).keys = [32] ∧ (ns ++ ns').length = 7 :=
    ⟨_, _, .of_exec (fun _ _ => trivial) rfl, _, _, rfl, _, _,
      .of_restrict (.of_exec (fun _ _ => trivial) rfl), rfl, rfl, rfl⟩
  obtain ⟨hmirrors, hcalls⟩ := monitor_mirrors h (by decide) hattach h' hfailed
  exact ⟨st', ns ++ ns', hmirrors, hcalls, hkeys, hlen⟩

end Monitored

end GnunetWeb.HttpClient
