import GnunetWeb.HttpClient.Requests

/-!
# The table, the counter, the handles and the timers

`env->session_end` runs while its session is still in the table, and a session that ends by
its timer has no task then.  So the transport service must not take up the session again
before it is gone.  A session whose address cannot be printed has no URL, and
`client_delete_session` frees the URL without looking.

Proved here:

* `table_step`, `table_run`: in runs without that, no assertion about the table, the
  counter, a timer or the URL fails, and the sessions that are being ended are in the table;
* `noReceive_step`: without responses no receive callback runs;
* `sessions_table`: what holds between events;
* `sessions_table_unprinted`: what an address does that cannot be printed.
-/

namespace GnunetWeb.HttpClient

variable {Address Peer Sockaddr Tokenizer Message : Type}

/-- The session that is being ended. -/
def Frame.ending : Frame Peer Message → Option Ptr
  | .sessionEnd s => some s
  | _ => none

/-- `http_client_plugin_get_session` makes a session for the address, if it has room. -/
def Env.Takes (env : Env Address Peer Sockaddr Tokenizer Message) (address : Address) : Prop :=
  env.hasAddress address ∧
  match env.socketFromAddress address with
  | .syserr | .yes none => False
  | .yes (some sa) => env.getAddressType sa ≠ .unspecified
  | .no => True

namespace State

variable {env : Env Address Peer Sockaddr Tokenizer Message}
  {st : State Address Peer Tokenizer Message}

/-- A session would be made for the address, which cannot be printed. -/
def Unprinted [DecidableEq Address] (env : Env Address Peer Sockaddr Tokenizer Message)
    (st : State Address Peer Tokenizer Message) (address : Address) : Prop :=
  env.Takes address ∧ st.clientLookupSession address = none ∧
    st.curConnections < env.maxConnections ∧ env.addressToString address = none

/-- The sessions that are being ended. -/
def endings (st : State Address Peer Tokenizer Message) : List Ptr :=
  st.stack.filterMap Frame.ending

theorem mem_endings {s : Ptr} : s ∈ st.endings ↔ .sessionEnd s ∈ st.stack := by
  rw [endings, List.mem_filterMap]
  constructor
  · rintro ⟨f, hf, he⟩
    cases f with
    | sessionEnd s' =>
      cases he
      exact hf
    | _ => cases he
  · exact fun hf => ⟨_, hf, rfl⟩

/-- `env->session_end` does not make the plugin do anything to its session. -/
def NoReenter (st : State Address Peer Tokenizer Message) (e : Event Address Peer) : Prop :=
  ∀ s ∈ st.endings, e ≠ .disconnectSession s ∧ e ≠ .destroySession s ∧
    ∀ now, e ≠ .updateSessionTimeout s now

/-- The sessions that are being ended are in the table, each of them once, and of the
assertions only those about the argument of `http_client_plugin_get_session` can have
failed. -/
structure Table (env : Env Address Peer Sockaddr Tokenizer Message)
    (st : State Address Peer Tokenizer Message) : Prop where
  inv : Inv env st
  ending : ∀ s ∈ st.endings, s ∈ st.sessions
  nodup : st.endings.Nodup
  sound : ∀ a ∈ st.failed, a = .address ∨ a = .sockaddr

/-- The frames of `env->session_end` stay, and so does the table. -/
theorem Table.stay (h : Table env st) {st' : State Address Peer Tokenizer Message}
    (hinv : Inv env st') (hsessions : ∀ s ∈ st.sessions, s ∈ st'.sessions)
    (hendings : st'.endings = st.endings)
    (hfailed : ∀ a ∈ st'.failed, a = .address ∨ a = .sockaddr) : Table env st' where
  inv := hinv
  ending := fun s hs => hsessions s (h.ending s (hendings ▸ hs))
  nodup := hendings ▸ h.nodup
  sound := hfailed

/-- The end of a session of the table begins. -/
theorem Table.disconnect (h : Table env st) {st' : State Address Peer Tokenizer Message} {s : Ptr}
    (hinv : Inv env st') (hsessions : st'.sessions = st.sessions)
    (hendings : st'.endings = s :: st.endings) (hs : s ∈ st.sessions) (hnot : s ∉ st.endings)
    (hfailed : st'.failed = st.failed) : Table env st' where
  inv := hinv
  ending := by
    intro s' hs'
    rw [hendings, List.mem_cons] at hs'
    rw [hsessions]
    rcases hs' with rfl | hs'
    · exact hs
    · exact h.ending s' hs'
  nodup := by
    rw [hendings]
    exact List.nodup_cons.mpr ⟨hnot, h.nodup⟩
  sound := hfailed ▸ h.sound

/-- **A session is gone.** -/
theorem Table.sessionEnded (h : Table env st) {s : Ptr} {rest : List (Frame Peer Message)}
    (hstack : st.stack = .sessionEnd s :: rest) :
    Table env ({ st with stack := rest }.clientDeleteSession s) := by
  have hs : s ∈ st.sessions := h.ending s (mem_endings.mpr (hstack ▸ List.mem_cons_self))
  have hd : Deleted { st with stack := rest } ({ st with stack := rest }.clientDeleteSession s) s :=
    deleted_clientDeleteSession hs (h.inv.curConnections_ne_zero hs) (h.inv.get_ne_zero hs)
      (h.inv.urls s hs)
  have hendings : st.endings = s :: rest.filterMap Frame.ending := by
    rw [endings, hstack]
    rfl
  have hnodup := h.nodup
  rw [hendings, List.nodup_cons] at hnodup
  have hafter : ({ st with stack := rest }.clientDeleteSession s).endings =
      rest.filterMap Frame.ending := by
    rw [endings, hd.stack]
  constructor
  · exact h.inv.sessionEnded hstack
  · intro s' hs'
    rw [hafter] at hs'
    have hne : s' ≠ s := fun he => hnodup.1 (he ▸ hs')
    rw [hd.sessions, h.inv.nodup.mem_erase_iff]
    exact ⟨hne, h.ending s' (by rw [hendings]; exact List.mem_cons_of_mem s hs')⟩
  · rw [hafter]
    exact hnodup.2
  · rw [hd.failed]
    exact h.sound

/-! ## The events -/

/-- A session that is not being ended has a timeout task. -/
theorem Inv.rescheduled (h : Inv env st) {s : Ptr} (hs : s ∈ st.sessions)
    (hnot : .sessionEnd s ∉ st.stack) (now : Nat) :
    (st.clientRescheduleSessionTimeout env s now).failed = st.failed := by
  rw [clientRescheduleSessionTimeout, if_neg fun ht => hnot (h.idle s hs ht)]
  rfl

/-- The output is neither a call of `env->session_end` nor one of a continuation. -/
def Quiet : Output Address Message → Prop
  | .sessionEnd _ _ | .transmitCont _ _ _ _ _ _ => False
  | _ => True

/-- What a function leaves that ends neither a session nor a PUT request. -/
structure Keeps (st : State Address Peer Tokenizer Message)
    (r : State Address Peer Tokenizer Message × List (Output Address Message)) : Prop where
  sessions : ∀ s ∈ st.sessions, s ∈ r.1.sessions
  endings : r.1.endings = st.endings
  puts : r.1.puts = st.puts
  quiet : ∀ o ∈ r.2, Quiet o

theorem keeps_same {st' : State Address Peer Tokenizer Message}
    (hsessions : st'.sessions = st.sessions) (hendings : st'.endings = st.endings)
    (hputs : st'.puts = st.puts) :
    Keeps st (st', ([] : List (Output Address Message))) where
  sessions := fun _ hs => hsessions ▸ hs
  endings := hendings
  puts := hputs
  quiet := fun _ ho => (List.not_mem_nil ho).elim

theorem stack_resend (st : State Address Peer Tokenizer Message) (get : Nat) :
    (st.resend get).1.stack = st.stack := by
  unfold resend
  split <;> rfl

theorem keeps_resend (st : State Address Peer Tokenizer Message) (get : Nat) :
    Keeps st (st.resend get) ∧ (st.resend get).1.failed = st.failed := by
  unfold resend
  split
  · refine ⟨⟨fun _ hs => hs, rfl, rfl, fun o ho => ?_⟩, rfl⟩
    rw [List.mem_singleton.mp ho]
    trivial
  · exact ⟨keeps_same rfl rfl rfl, rfl⟩

theorem keeps_receiveNext (st : State Address Peer Tokenizer Message) (s : Ptr) (get : Nat)
    (messages : List Message) : Keeps st (st.receiveNext s get messages) ∧
      (st.receiveNext s get messages).1.failed = st.failed := by
  cases messages with
  | nil => exact keeps_resend st get
  | cons m left =>
    refine ⟨⟨fun _ hs => hs, rfl, rfl, fun o ho => ?_⟩, rfl⟩
    rw [List.mem_singleton.mp ho]
    trivial

theorem keeps_onload (env : Env Address Peer Sockaddr Tokenizer Message)
    (st : State Address Peer Tokenizer Message) (get : Nat) (x : Xhr) (response : List UInt8)
    (now : Nat) : Keeps st (st.onload env get x response now) ∧
      (st.onload env get x response now).1.failed = st.failed := by
  unfold onload
  simp only
  split
  · obtain ⟨hkeeps, hfailed⟩ := keeps_resend (st.setXhr get { x with isOpen := false }) get
    exact ⟨⟨hkeeps.sessions, hkeeps.endings, hkeeps.puts, hkeeps.quiet⟩, hfailed⟩
  · rename_i session messages _
    obtain ⟨hkeeps, hfailed⟩ := keeps_receiveNext
      ((st.setXhr get { x with isOpen := false }).setSession x.s session) x.s get messages
    exact ⟨⟨hkeeps.sessions, hkeeps.endings, hkeeps.puts, hkeeps.quiet⟩, hfailed⟩

theorem puts_freeUrl (st : State Address Peer Tokenizer Message) (s : Ptr) :
    (st.freeUrl s).puts = st.puts ∧ (st.freeUrl s).stack = st.stack ∧
      (st.freeUrl s).sessions = st.sessions := by
  unfold freeUrl
  split <;> exact ⟨rfl, rfl, rfl⟩

theorem puts_clientDeleteSession (st : State Address Peer Tokenizer Message) (s : Ptr) :
    (st.clientDeleteSession s).puts = st.puts ∧ (st.clientDeleteSession s).stack = st.stack ∧
      ∀ s' ∈ st.sessions, s' ≠ s → s' ∈ (st.clientDeleteSession s).sessions := by
  have hcancel : (st.cancelTimeout s).puts = st.puts ∧ (st.cancelTimeout s).stack = st.stack ∧
      (st.cancelTimeout s).sessions = st.sessions := by
    unfold cancelTimeout
    split <;> exact ⟨rfl, rfl, rfl⟩
  have habort : ∀ (st : State Address Peer Tokenizer Message) get,
      (st.abortXhr get).puts = st.puts ∧ (st.abortXhr get).stack = st.stack ∧
        (st.abortXhr get).sessions = st.sessions := by
    intro st get
    unfold abortXhr
    split <;> exact ⟨rfl, rfl, rfl⟩
  obtain ⟨hputs, hstack, hsessions⟩ := hcancel
  have herase : ∀ s' ∈ st.sessions, s' ≠ s → s' ∈ (st.cancelTimeout s).sessions.erase s :=
    fun s' hs' hne => (List.mem_erase_of_ne hne).mpr (hsessions ▸ hs')
  unfold clientDeleteSession
  simp only
  split
  · exact ⟨hputs, hstack, fun s' hs' _ => hsessions ▸ hs'⟩
  split
  · rw [(puts_freeUrl _ _).1, (puts_freeUrl _ _).2.1, (puts_freeUrl _ _).2.2]
    exact ⟨hputs, hstack, herase⟩
  split
  · exact ⟨hputs, hstack, herase⟩
  · rw [(puts_freeUrl _ _).1, (puts_freeUrl _ _).2.1, (puts_freeUrl _ _).2.2]
    refine ⟨(habort _ _).1.trans hputs, (habort _ _).2.1.trans hstack, fun s' hs' hne => ?_⟩
    refine (habort _ _).2.2.symm ▸ herase s' hs' hne

/-- A session is made, or its URL is `NULL`. -/
theorem keeps_newSession (env : Env Address Peer Sockaddr Tokenizer Message) (address : Address)
    (scope : NetworkType) {s : Ptr} {task : Task} (now : Nat) (hs : s ∉ st.sessions)
    (htask : st.FreshTask task) : Keeps st (st.newSession env address scope s task now) ∧
      (st.newSession env address scope s task now).1.stack = st.stack ∧
      ((st.newSession env address scope s task now).1.failed = st.failed ∨
        (st.newSession env address scope s task now).1.failed = some .url ∧
          env.addressToString address = none) := by
  have hrest : (st.newSession env address scope s task now).1.puts = st.puts ∧
      ∀ o ∈ (st.newSession env address scope s task now).2, Quiet o := by
    unfold newSession clientConnect
    cases haddress : env.addressToString address with
    | none =>
      simp only [setSession, Function.update_self, haddress]
      refine ⟨(puts_clientDeleteSession _ _).1, fun o ho => ?_⟩
      have hreturned : o = .returned none := by simpa using (List.mem_ite_nil_right.mp ho).2
      rw [hreturned]
      trivial
    | some name =>
      simp only [setSession, Function.update_self, haddress, clientConnectGet, setXhr, resend]
      refine ⟨trivial, fun o ho => ?_⟩
      rcases List.mem_cons.mp ho with rfl | ho
      · trivial
      · rw [List.mem_singleton.mp ho]
        trivial
  rcases added_newSession env st address scope now hs htask with ⟨-, ha⟩ | ⟨haddress, x, _, heq⟩
  · exact ⟨⟨fun s' hs' => ha.sessions ▸ List.mem_append_left _ hs',
      congrArg (List.filterMap Frame.ending) ha.stack, hrest.1, hrest.2⟩, ha.stack, .inl ha.failed⟩
  · refine ⟨⟨?_, ?_, hrest.1, hrest.2⟩, ?_, .inr ⟨?_, haddress⟩⟩ <;> rw [heq]
    · exact fun s' hs' => hs'
    · rfl
    · rfl
    · rfl

variable [DecidableEq Address] [DecidableEq Peer]

omit [DecidableEq Peer] in
theorem keeps_getSession (env : Env Address Peer Sockaddr Tokenizer Message) (address : Address)
    {s : Ptr} {task : Task} (now : Nat) (hs : s ∉ st.sessions) (htask : st.FreshTask task)
    (hfailed : st.failed = none) : Keeps st (st.getSession env address s task now) ∧
      (st.getSession env address s task now).1.stack = st.stack ∧
      ∀ a ∈ (st.getSession env address s task now).1.failed,
        a = .address ∨ a = .sockaddr ∨ a = .url ∧ st.Unprinted env address := by
  have hnone : ∀ a ∈ st.failed,
      a = .address ∨ a = .sockaddr ∨ a = .url ∧ st.Unprinted env address := by
    rw [hfailed]
    exact fun _ ha => nomatch ha
  have hreturned : ∀ s', Keeps st (st, [.returned s']) := by
    intro s'
    refine ⟨fun _ hs => hs, rfl, rfl, fun o ho => ?_⟩
    rw [List.mem_singleton.mp ho]
    trivial
  have hfail : ∀ a, Keeps st (st.fail a, []) := fun a => keeps_same rfl rfl rfl
  have hnew : st.clientLookupSession address = none → st.curConnections < env.maxConnections →
      env.Takes address → ∀ scope : NetworkType,
      Keeps st (st.newSession env address scope s task now) ∧
      (st.newSession env address scope s task now).1.stack = st.stack ∧
      ∀ a ∈ (st.newSession env address scope s task now).1.failed,
        a = .address ∨ a = .sockaddr ∨ a = .url ∧ st.Unprinted env address := by
    intro hlookup hroom htakes scope
    obtain ⟨hkeeps, hstack, hf⟩ := keeps_newSession env address scope now hs htask
    refine ⟨hkeeps, hstack, fun a ha => ?_⟩
    rcases hf with hf | ⟨hf, haddress⟩
    · exact hnone a (hf ▸ ha)
    · rw [hf] at ha
      exact .inr (.inr ⟨(Option.some.inj ha).symm, htakes, hlookup, hroom, haddress⟩)
  unfold getSession
  split
  · exact ⟨hfail _, rfl, fun a ha => .inl (Option.some.inj ha).symm⟩
  rename_i haddress
  have haddress := not_not.mp haddress
  split
  · exact ⟨hreturned _, rfl, hnone⟩
  rename_i hlookup
  split
  · exact ⟨hreturned _, rfl, hnone⟩
  rename_i hroom
  have hroom := Nat.lt_of_not_le hroom
  split
  · exact ⟨hreturned _, rfl, hnone⟩
  · exact ⟨hfail _, rfl, fun a ha => .inr (.inl (Option.some.inj ha).symm)⟩
  · rename_i sa hsocket
    split
    · exact ⟨hreturned _, rfl, hnone⟩
    · exact hnew hlookup hroom ⟨haddress, by simpa [hsocket]⟩ _
  · rename_i hsocket
    exact hnew hlookup hroom ⟨haddress, by simp [hsocket]⟩ _

/-- Every session that is made has an address that can be printed. -/
def Printed (env : Env Address Peer Sockaddr Tokenizer Message)
    (st : State Address Peer Tokenizer Message) (e : Event Address Peer) : Prop :=
  ∀ address s task now, e = .getSession address s task now → ¬ st.Unprinted env address

/-- **Every event keeps the table.** -/
theorem table_step {e : Event Address Peer}
    {r : State Address Peer Tokenizer Message × List (Output Address Message)} (h : Table env st)
    (hkeep : st.KeepsReceiving e) (hok : st.NoReenter e) (hprinted : st.Printed env e)
    (hs : step env st e = some r) : Table env r.1 := by
  have hinv := inv_step h.inv hkeep hs
  obtain ⟨hfailed, hmoves⟩ := step_cases hs
  cases hmoves with
  | @getSession address s task now hg =>
    obtain ⟨hkeeps, -, hsound⟩ := keeps_getSession env address now hg.2.2.1 hg.2.2.2 hfailed
    refine h.stay hinv hkeeps.sessions hkeeps.endings fun a ha => ?_
    rcases hsound a ha with ha | ha | ⟨-, hnot⟩
    · exact .inl ha
    · exact .inr ha
    · exact absurd hnot (hprinted address s task now rfl)
  | send hg => exact h.stay hinv (fun _ hs => hs) rfl h.sound
  | @disconnectSession s hg =>
    exact h.disconnect hinv rfl rfl hg.2 (fun hend => (hok s hend).1 rfl) rfl
  | disconnectPeer hg => exact h.stay hinv (fun _ hs => hs) rfl h.sound
  | @updateSessionTimeout s now hg =>
    have hnot : .sessionEnd s ∉ st.stack := fun hf => (hok s (mem_endings.mpr hf)).2.2 now rfl
    have halike := alike_clientRescheduleSessionTimeout env st s now
    refine h.stay hinv (fun _ hs => halike.sessions ▸ hs)
      (congrArg (List.filterMap Frame.ending) halike.stack) ?_
    rw [h.inv.rescheduled hg.2 hnot]
    exact h.sound
  | updateInboundDelay hg => exact h.stay hinv (fun _ hs => hs) rfl h.sound
  | @destroySession s target left rest hstack hleft hmem =>
    refine h.disconnect hinv rfl ?_ (List.mem_of_mem_filter hmem) (fun hend => (hok s hend).2.1 rfl)
      rfl
    rw [endings, endings, hstack]
    rfl
  | peerDisconnected hstack =>
    refine h.stay hinv (fun _ hs => hs) ?_ h.sound
    rw [endings, endings, hstack]
    rfl
  | sessionEnded hstack => exact h.sessionEnded hstack
  | @received s get left rest delay now now' hstack =>
    obtain ⟨hs, -, hnot⟩ := h.inv.receiving s get left (hstack ▸ List.mem_cons_self)
    have halike := alike_clientReceiveMstCb env { st with stack := rest } s delay now now'
    have hendings : st.endings = rest.filterMap Frame.ending := by
      rw [endings, hstack]
      rfl
    have hsession : Inv env ({ st with stack := rest }.setSession s
        (setNextReceive (st.heap s) delay now)) :=
      (h.inv.pop hstack fun _ he => nomatch he).alike (alike_setSession _ rfl rfl rfl rfl)
    have hf : ({ st with stack := rest }.clientReceiveMstCb env s delay now now').failed =
        st.failed :=
      hsession.rescheduled hs (fun hf => hnot (hstack ▸ List.mem_cons_of_mem _ hf)) now'
    rw [if_pos (hf.trans hfailed)] at hinv ⊢
    obtain ⟨hkeeps, hf'⟩ := keeps_receiveNext
      ({ st with stack := rest }.clientReceiveMstCb env s delay now now') s get left
    refine h.stay hinv (fun s' hs' => hkeeps.sessions s' (halike.sessions.symm ▸ hs')) ?_ ?_
    · rw [hkeeps.endings, hendings, endings, halike.stack]
    · rw [hf', hf]
      exact h.sound
  | transmitted hstack =>
    refine h.stay hinv (fun _ hs => hs) ?_ h.sound
    rw [endings, endings, hstack]
    rfl
  | @load get response now x hstack hx ho =>
    obtain ⟨hkeeps, hf⟩ := keeps_onload env st get x response now
    exact h.stay hinv hkeeps.sessions hkeeps.endings (hf ▸ h.sound)
  | @error get x hstack hx ho =>
    refine h.disconnect hinv rfl rfl (h.inv.belongs get x hx ho).1 ?_ rfl
    rw [endings, hstack]
    exact fun hs => nomatch hs
  | @timeout get x hstack hx ho =>
    obtain ⟨hkeeps, hf⟩ := keeps_resend st get
    exact h.stay hinv hkeeps.sessions hkeeps.endings (hf ▸ h.sound)
  | putLoad hstack hp =>
    obtain ⟨p, -, ⟨-, rfl⟩ | ⟨-, rfl⟩⟩ := putEnds_eq hp
    · exact h.stay hinv (fun _ hs => hs) rfl h.sound
    · exact h.stay hinv (fun _ hs => hs) rfl h.sound
  | putError hstack hp =>
    obtain ⟨p, -, ⟨-, rfl⟩ | ⟨-, rfl⟩⟩ := putEnds_eq hp
    · exact h.stay hinv (fun _ hs => hs) rfl h.sound
    · exact h.stay hinv (fun _ hs => hs) rfl h.sound
  | @run task now task' s hstack ht hfresh =>
    obtain ⟨new, -, hr⟩ := retasked_clientSessionTimeout st s now task task' hstack
    have hendings : st.endings = [] := by
      rw [endings, hstack]
      rfl
    cases new with
    | none =>
      refine h.disconnect hinv hr.sessions ?_
        (h.inv.pending _ (List.mem_of_find?_eq_some ht)).1 ?_ hr.failed
      · rw [hendings, endings, hr.stack]
        rfl
      · rw [hendings]
        exact fun hs => nomatch hs
    | some task'' =>
      refine h.stay hinv (fun _ hs => hr.sessions.symm ▸ hs) ?_ (hr.failed.symm ▸ h.sound)
      rw [hendings, endings, hr.stack]
      rfl

omit [DecidableEq Address] [DecidableEq Peer] in
theorem table_init (env : Env Address Peer Sockaddr Tokenizer Message)
    (heap : Ptr → Session Address Tokenizer) :
    Table env (init heap : State Address Peer Tokenizer Message) :=
  ⟨inv_init env heap, (fun _ hs => nomatch hs), List.nodup_nil, fun _ ha => nomatch ha⟩

/-! ## Runs without responses -/

/-- The event is not a response to a GET request. -/
def NoLoad : Event Address Peer → Prop
  | .load _ _ _ => False
  | _ => True

/-- No receive callback runs. -/
def NoReceive (st : State Address Peer Tokenizer Message) : Prop :=
  ∀ s get left, .receive s get left ∉ st.stack

omit [DecidableEq Address] [DecidableEq Peer] in
theorem NoReceive.of_sub (h : st.NoReceive) {st' : State Address Peer Tokenizer Message}
    (hsub : ∀ f ∈ st'.stack, f ∈ st.stack) : st'.NoReceive :=
  fun s get left hf => h s get left (hsub _ hf)

omit [DecidableEq Address] [DecidableEq Peer] in
theorem NoReceive.of_cons (h : st.NoReceive) {st' : State Address Peer Tokenizer Message}
    {f : Frame Peer Message} (hf : ∀ s get left, f ≠ .receive s get left)
    (hsub : ∀ g ∈ st'.stack, g = f ∨ g ∈ st.stack) : st'.NoReceive := by
  intro s get left hg
  rcases hsub _ hg with he | hg
  · exact hf s get left he.symm
  · exact h s get left hg

/-- Without responses no receive callback runs. -/
theorem noReceive_step {e : Event Address Peer}
    {r : State Address Peer Tokenizer Message × List (Output Address Message)} (h : st.NoReceive)
    (hload : NoLoad e) (hs : step env st e = some r) : r.1.NoReceive := by
  obtain ⟨hfailed, hmoves⟩ := step_cases hs
  have hrest : ∀ {f : Frame Peer Message} {rest}, st.stack = f :: rest →
      NoReceive { st with stack := rest } :=
    fun hstack => h.of_sub fun g hg => hstack ▸ List.mem_cons_of_mem _ hg
  cases hmoves with
  | @getSession address s task now hg =>
    obtain ⟨-, hstack, -⟩ := keeps_getSession env address now hg.2.2.1 hg.2.2.2 hfailed
    exact h.of_sub fun f hf => hstack ▸ hf
  | send _ => exact h
  | disconnectSession _ =>
    exact h.of_cons (f := .sessionEnd _) (fun _ _ _ => nofun) fun _ => List.mem_cons.mp
  | disconnectPeer _ =>
    exact h.of_cons (f := .peerDisconnect _ _) (fun _ _ _ => nofun) fun _ => List.mem_cons.mp
  | @updateSessionTimeout s now _ =>
    have halike := alike_clientRescheduleSessionTimeout env st s now
    exact h.of_sub fun f hf => halike.stack ▸ hf
  | updateInboundDelay _ => exact h
  | destroySession hstack _ _ =>
    refine NoReceive.of_cons (f := .sessionEnd _) ?_ (fun _ _ _ => nofun) fun _ => List.mem_cons.mp
    exact (hrest hstack).of_cons (f := .peerDisconnect _ _) (fun _ _ _ => nofun) fun _ =>
      List.mem_cons.mp
  | peerDisconnected hstack => exact hrest hstack
  | sessionEnded hstack =>
    refine (hrest hstack).of_sub fun f hf => ?_
    rw [(puts_clientDeleteSession _ _).2.1] at hf
    exact hf
  | received hstack => exact absurd (hstack ▸ List.mem_cons_self) (h _ _ _)
  | transmitted hstack => exact hrest hstack
  | load _ _ _ => exact hload.elim
  | error _ _ _ =>
    exact h.of_cons (f := .sessionEnd _) (fun _ _ _ => nofun) fun _ => List.mem_cons.mp
  | @timeout get x hstack hx ho =>
    exact h.of_sub fun f hf => stack_resend st get ▸ hf
  | putLoad hstack hp =>
    obtain ⟨p, -, ⟨-, rfl⟩ | ⟨-, rfl⟩⟩ := putEnds_eq hp
    · exact h
    · exact h.of_cons (f := .transmitCont) (fun _ _ _ => nofun) fun _ => List.mem_cons.mp
  | putError hstack hp =>
    obtain ⟨p, -, ⟨-, rfl⟩ | ⟨-, rfl⟩⟩ := putEnds_eq hp
    · exact h
    · exact h.of_cons (f := .transmitCont) (fun _ _ _ => nofun) fun _ => List.mem_cons.mp
  | @run task now task' s hstack ht hfresh =>
    obtain ⟨new, -, hr⟩ := retasked_clientSessionTimeout st s now task task' hstack
    refine h.of_cons (f := .sessionEnd s) (fun _ _ _ => nofun) fun g hg => .inl ?_
    rw [hr.stack] at hg
    split at hg
    · exact List.mem_singleton.mp hg
    · cases hg

/-- The runs of `http_client_plugin_get_session`, sends, disconnects, timeouts and errors: no
response comes, and `env->session_end` does not make the plugin do anything to its session. -/
def TableRun (st : State Address Peer Tokenizer Message) (e : Event Address Peer) : Prop :=
  NoLoad e ∧ st.NoReenter e

theorem table_run {heap : Ptr → Session Address Tokenizer} {es : List (Event Address Peer)}
    {os : List (Output Address Message)}
    (h : (system env heap).Run (fun st e => st.TableRun e ∧ st.Printed env e) es os st) :
    Table env st := by
  have hboth : Table env st ∧ st.NoReceive := by
    refine h.invariant (P := fun st => Table env st ∧ st.NoReceive) ?_
      ⟨table_init env heap, fun _ _ _ hf => nomatch hf⟩
    intro st e st' o ⟨htable, hreceive⟩ ⟨hok, hprinted⟩ hs
    have hkeep : st.KeepsReceiving e := fun s get left hf => absurd hf (hreceive s get left)
    exact ⟨table_step (r := (st', o)) htable hkeep hok.2 hprinted hs,
      noReceive_step (r := (st', o)) hreceive hok.1 hs⟩
  exact hboth.1

omit [DecidableEq Address] [DecidableEq Peer] in
/-- Between events each session has one task. -/
theorem Table.one_task (h : Table env st) (hstack : st.stack = []) {s : Ptr}
    (hs : s ∈ st.sessions) : ∃ task, (st.heap s).timeoutTask = some task ∧
      st.tasks.filter (fun t => t.2 = s) = [(task, s)] := by
  cases htask : (st.heap s).timeoutTask with
  | none =>
    have hf := h.inv.idle s hs htask
    rw [hstack] at hf
    cases hf
  | some task =>
    refine ⟨task, rfl, ?_⟩
    have hmem : ∀ t : Task × Ptr, t ∈ st.tasks.filter (fun t => t.2 = s) ↔ t ∈ [(task, s)] := by
      rintro ⟨task', s'⟩
      rw [List.mem_filter, decide_eq_true_eq, List.mem_singleton]
      constructor
      · rintro ⟨ht, rfl⟩
        have htask' := (h.inv.pending _ ht).2
        rw [htask] at htask'
        cases htask'
        rfl
      · intro he
        cases he
        exact ⟨h.inv.armed s hs task htask, rfl⟩
    have hnodup : (st.tasks.filter fun t => t.2 = s).Nodup := h.inv.tasksNodup.of_map.filter _
    exact List.perm_singleton.mp
      ((List.perm_ext_iff_of_nodup hnodup (List.nodup_singleton _)).mpr hmem)

/-- **When the table of sessions holds.**  As long as every session that is made has an
address that can be printed, the assertions of `client_delete_session` and
`client_reschedule_session_timeout` do not fail, and between events the counter is the
number of the connected sessions, which have handles of their own, addresses of their own
and one timeout task each. -/
theorem sessions_table (env : Env Address Peer Sockaddr Tokenizer Message)
    (heap : Ptr → Session Address Tokenizer) {es : List (Event Address Peer)}
    {os : List (Output Address Message)} {st : State Address Peer Tokenizer Message}
    (h : (system env heap).Run (fun st e => st.TableRun e ∧ st.Printed env e) es os st) :
    (st.failed ≠ some .remove ∧ st.failed ≠ some .connections ∧ st.failed ≠ some .url ∧
      st.failed ≠ some .timeoutTask) ∧
    (st.stack = [] →
      st.sessions.Nodup ∧
      st.curConnections = (st.sessions.filter fun s => (st.heap s).get ≠ 0).length ∧
      st.curConnections ≤ env.maxConnections ∧
      (∀ s ∈ st.sessions, ∀ s' ∈ st.sessions, (st.heap s).get ≠ 0 →
        (st.heap s).get = (st.heap s').get → s = s') ∧
      (∀ s ∈ st.sessions, ∀ s' ∈ st.sessions,
        (st.heap s).address = (st.heap s').address → s = s') ∧
      ∀ s ∈ st.sessions, ∃ task, (st.heap s).timeoutTask = some task ∧
        st.tasks.filter (fun t => t.2 = s) = [(task, s)]) := by
  have htable := table_run h
  refine ⟨?_, fun hstack => ?_⟩
  · have hsound := htable.sound
    refine ⟨fun he => ?_, fun he => ?_, fun he => ?_, fun he => ?_⟩ <;>
    · have := hsound _ he
      simp at this
  · have hall : st.sessions.filter (fun s => (st.heap s).get ≠ 0) = st.sessions :=
      List.filter_eq_self.mpr fun s hs => decide_eq_true (htable.inv.get_ne_zero hs)
    refine ⟨htable.inv.nodup, ?_, htable.inv.bound, fun s hs s' hs' _ => htable.inv.get_inj hs hs',
      htable.inv.addresses, fun s hs => htable.one_task hstack hs⟩
    rw [hall]
    exact htable.inv.count

/-- A peer is disconnected with its two sessions, and another session is watched by its
timer. -/
theorem sessions_table_disconnect_peer :
    ∃ (os : List (Output (Nat × Nat) (List UInt8)))
      (st : State (Nat × Nat) Nat (List UInt8) (List UInt8)),
      (system Mst.env blank).Run (fun st e => st.TableRun e ∧ st.Printed Mst.env e)
        [.getSession (7, 80) 16 1 0, .getSession (7, 81) 32 2 0, .disconnectPeer 7,
          .destroySession 16, .sessionEnded, .destroySession 32, .sessionEnded, .peerDisconnected,
          .getSession (8, 80) 16 3 5, .run 3 9 4] os st ∧
      st.stack = [] ∧ st.sessions = [16] ∧
      st.curConnections = (st.sessions.filter fun s => (st.heap s).get ≠ 0).length := by
  have hprinted : ∀ (st : State (Nat × Nat) Nat (List UInt8) (List UInt8)) e,
      st.Printed Mst.env e := fun _ _ _ _ _ _ _ hnot => nomatch hnot.2.2.2
  have hidle : ∀ (st : State (Nat × Nat) Nat (List UInt8) (List UInt8)) e, NoLoad e →
      st.endings = [] → st.TableRun e ∧ st.Printed Mst.env e := by
    intro st e hload hend
    refine ⟨⟨hload, fun s hs => ?_⟩, hprinted st e⟩
    rw [hend] at hs
    cases hs
  have hended : ∀ st : State (Nat × Nat) Nat (List UInt8) (List UInt8),
      st.TableRun .sessionEnded ∧ st.Printed Mst.env .sessionEnded :=
    fun st => ⟨⟨trivial, fun _ _ => ⟨nofun, nofun, fun _ => nofun⟩⟩, hprinted st _⟩
  have h : (system Mst.env blank).Run (fun st e => st.TableRun e ∧ st.Printed Mst.env e) [] [] _ :=
    .nil
  have h₁ := h.snoc (hidle _ (.getSession (7, 80) 16 1 0) trivial rfl) rfl
  have h₂ := h₁.snoc (hidle _ (.getSession (7, 81) 32 2 0) trivial rfl) rfl
  have h₃ := h₂.snoc (hidle _ (.disconnectPeer 7) trivial rfl) rfl
  have h₄ := h₃.snoc (hidle _ (.destroySession 16) trivial rfl) rfl
  have h₅ := h₄.snoc (hended _) rfl
  have h₆ := h₅.snoc (hidle _ (.destroySession 32) trivial rfl) rfl
  have h₇ := h₆.snoc (hended _) rfl
  have h₈ := h₇.snoc (hidle _ (.peerDisconnected) trivial rfl) rfl
  have h₉ := h₈.snoc (hidle _ (.getSession (8, 80) 16 3 5) trivial rfl) rfl
  have h₁₀ := h₉.snoc (hidle _ (.run 3 9 4) trivial rfl) rfl
  exact ⟨_, _, h₁₀, rfl, rfl, ((sessions_table Mst.env blank h₁₀).2 rfl).2.1⟩

/-- `Mst.env` with addresses that cannot be printed. -/
def portEnv : Env (Nat × Nat) Nat Unit (List UInt8) (List UInt8) :=
  { Mst.env with addressToString := fun a => if a.2 < 65536 then some (toString a.2) else none }

/-- A session is asked for whose address cannot be printed, and the assertion about its URL
fails. -/
theorem sessions_table_unprinted :
    ∃ (os : List (Output (Nat × Nat) (List UInt8)))
      (st : State (Nat × Nat) Nat (List UInt8) (List UInt8)),
      (system portEnv blank).Run TableRun
        [.getSession (7, 80) 16 1 0, .getSession (8, 65536) 32 2 5] os st ∧
      st.failed = some .url := by
  have h : (system portEnv blank).Run TableRun [] [] _ := .nil
  have h₁ := h.snoc
    (show TableRun _ (.getSession (7, 80) 16 1 0) from ⟨trivial, fun _ hs => nomatch hs⟩) rfl
  have h₂ := h₁.snoc
    (show TableRun _ (.getSession (8, 65536) 32 2 5) from ⟨trivial, fun _ hs => nomatch hs⟩) rfl
  exact ⟨_, _, h₂, rfl⟩

end State

end GnunetWeb.HttpClient
