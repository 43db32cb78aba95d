import GnunetWeb.HttpClient.Sessions
import GnunetWeb.HttpClient.Receive

/-!
# No callback for a deleted session

The browser calls `client_receive` and the session disconnect with the session that a GET
request was made for, and the scheduler calls `client_session_timeout` with the session
of the task.  Whether the session still exists is for the plugin to see to.

Proved here:

* `open_requests`: it does in every run in which no receive callback disconnects the
  session that it is called for;
* `open_request_of_deleted`: after such a callback a request is sent again for a session
  that has been deleted.
-/

namespace GnunetWeb.HttpClient.State

variable {Address Peer Sockaddr Tokenizer Message : Type}

/-- The session with which `client_receive`, the session disconnect of a GET error or
`client_session_timeout` is started. -/
def startedWith (st : State Address Peer Tokenizer Message) : Event Address Peer → Option Ptr
  | .load get _ _ | .error get => (st.xhrs get).map Xhr.s
  | .run task _ _ => (st.tasks.find? fun t => t.1 = task).map Prod.snd
  | _ => none

variable [DecidableEq Address] [DecidableEq Peer]

/-- **When open requests belong to sessions.**  As long as no receive callback disconnects
the session that it is called for, every open GET request is the request of a session of
the plugin, every task is the task of one, and the callbacks are started with sessions of
the plugin. -/
theorem open_requests (env : Env Address Peer Sockaddr Tokenizer Message)
    (heap : Ptr → Session Address Tokenizer) {es : List (Event Address Peer)}
    {os : List (Output Address Message)} {st : State Address Peer Tokenizer Message}
    (h : (system env heap).Run KeepsReceiving es os st) :
    (∀ get x, st.xhrs get = some x → x.isOpen → x.s ∈ st.sessions ∧ (st.heap x.s).get = get) ∧
    (∀ t ∈ st.tasks, t.2 ∈ st.sessions ∧ (st.heap t.2).timeoutTask = some t.1) ∧
    ∀ e r, step env st e = some r → ∀ s ∈ st.startedWith e, s ∈ st.sessions := by
  have hinv := inv_run h
  refine ⟨hinv.belongs, hinv.pending, fun e r hs s hstarted => ?_⟩
  cases (step_cases hs).2 with
  | @load get response now x _ hx ho =>
    obtain rfl : x.s = s := by simpa [startedWith, hx] using hstarted
    exact (hinv.belongs get x hx ho).1
  | @error get x _ hx ho =>
    obtain rfl : x.s = s := by simpa [startedWith, hx] using hstarted
    exact (hinv.belongs get x hx ho).1
  | run _ _ _ =>
    obtain ⟨t, ht, rfl⟩ := Option.map_eq_some_iff.mp hstarted
    exact (hinv.pending t (List.mem_of_find?_eq_some ht)).1
  | _ => cases hstarted

/-- Memory in which nothing has been set up. -/
def blank : Ptr → Session (Nat × Nat) (List UInt8) :=
  fun _ => ⟨none, (0, 0), 0, none, none, 0, 0, .unspecified⟩

/-- Two sessions; one of them receives a message, and the other one is disconnected in the
meantime. -/
theorem open_requests_two_sessions :
    ∃ (os : List (Output (Nat × Nat) (List UInt8)))
      (st : State (Nat × Nat) Nat (List UInt8) (List UInt8)),
      (system Mst.env blank).Run KeepsReceiving
        [.getSession (7, 80) 16 1 0, .getSession (8, 80) 32 2 0, .load 1 [0, 4, 0, 1] 5,
          .disconnectSession 32, .sessionEnded, .received 0 6 6] os st ∧
      (∃ x, st.xhrs 1 = some x ∧ x.isOpen) ∧ st.sessions = [16] ∧
      ∀ get x, st.xhrs get = some x → x.isOpen → x.s ∈ st.sessions ∧ (st.heap x.s).get = get := by
  have h : (system Mst.env blank).Run KeepsReceiving [] [] _ := .nil
  have h₁ := h.snoc (e := .getSession (7, 80) 16 1 0) (fun _ _ _ hf => nomatch hf) rfl
  have h₂ := h₁.snoc (e := .getSession (8, 80) 32 2 0) (fun _ _ _ hf => nomatch hf) rfl
  have h₃ := h₂.snoc (e := .load 1 [0, 4, 0, 1] 5) (fun _ _ _ hf => nomatch hf) rfl
  have h₄ := h₃.snoc (e := .disconnectSession 32) (fun s _ _ hf => by
    injection List.mem_singleton.mp hf with hs
    rw [hs]
    exact ⟨by simp, nofun⟩) rfl
  have h₅ := h₄.snoc (e := .sessionEnded) (fun _ _ _ _ => ⟨nofun, nofun⟩) rfl
  have h₆ := h₅.snoc (e := .received 0 6 6) (fun _ _ _ _ => ⟨nofun, nofun⟩) rfl
  exact ⟨_, _, h₆, ⟨_, rfl, rfl⟩, rfl, (open_requests Mst.env blank h₆).1⟩

/-- The session is disconnected by its receive callback, and its memory is given to another
session before the callback returns. -/
theorem open_request_of_deleted :
    ∃ (os : List (Output (Nat × Nat) (List UInt8)))
      (st : State (Nat × Nat) Nat (List UInt8) (List UInt8)),
      (system Mst.env blank).Run EventSystem.anyEvent
        [.getSession (7, 80) 16 1 0, .load 1 [0, 4, 0, 1] 5, .disconnectSession 16, .sessionEnded,
          .getSession (8, 80) 16 2 6, .received 0 7 7, .disconnectSession 16, .sessionEnded] os st ∧
      st.failed = none ∧ st.sessions = [] ∧ (∃ x, st.xhrs 1 = some x ∧ x.isOpen ∧ x.s = 16) := by
  refine ⟨_, _, EventSystem.Steps.of_exec (fun _ _ => trivial) rfl, rfl, rfl, _, rfl, rfl, rfl⟩

end GnunetWeb.HttpClient.State
