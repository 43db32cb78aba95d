import GnunetWeb.Library.Channel
import GnunetWeb.Library.EventSystem
import Mathlib.Data.List.Perm.Basic

/-!
# Search results

`start-search` and `stop-search` of `index.cljs.hl`, over those of `filesharing.cljs`.  A search
reports to its callback, which puts the report into the channel of the search; a loop for each
search takes from its channel, and adds the results to `search-results`, which all searches
share.  Stopping a search closes its channel, but not what is already in it.

Proved here:

* `Moves.balance`, `Moves.quiet`: what one step of a search does to its results;
* `search_results_fresh`: with quiet starts, the results are those of the active search, and
  after any other start they need not be;
* `search_results_stale`: a run in which they are not.
-/

namespace GnunetWeb.SearchResults

open EventSystem

inductive Status where
  | searchStart
  | searchResult
  deriving DecidableEq

/-- `result` is what `:uri` and `:metadata` hold. -/
structure Info (α : Type) where
  status : Status
  cctx : Nat
  result : Option α
  deriving DecidableEq

def statusSearchStart : Nat := 17

def statusSearchResult : Nat := 21

variable {α : Type}

/-- `parse-progress-info` for the reports about searches.  `status-search-result-stopped` and
`status-search-stopped` are ignored. -/
def parseProgressInfo (status cctx : Nat) (result : α) : Option (Info α) :=
  if status = statusSearchStart then some ⟨.searchStart, cctx, none⟩
  else if status = statusSearchResult then some ⟨.searchResult, cctx, some result⟩
  else none

def Info.isResult (info : Info α) : Bool := info.status = .searchResult

/-- A search, whose callback is registered until its channel is closed. -/
structure Search (α : Type) where
  channel : Channel (Info α) 1
  /-- what the blocks `(go (>! ch info))` that have not begun will put -/
  scheduled : List (Info α)

/-- `register-object` gives no key twice, so that a search is known by its key, which is its
place in `searches`. -/
structure State (α : Type) where
  searches : List (Search α)
  activeSearch : Option Nat
  searchResults : List (Info α)

inductive Event (α : Type) where
  /-- `early` is what `GNUNET_FS_search_start` reports before it returns -/
  | startSearch (early : List (Nat × α))
  | stopSearch
  | progress (status cctx : Nat) (result : α)
  /-- one of the scheduled blocks of a search begins -/
  | put (search block : Nat)
  /-- the loop of a search is resumed -/
  | read (search : Nat)

/-- `stop-search` of `filesharing.cljs` -/
def Search.stop (s : Search α) : Search α := { s with channel := s.channel.close }

namespace State

def init : State α := ⟨[], none, []⟩

/-- What both functions that are passed to `swap!` do first. -/
def stopOldSearch (st : State α) : State α :=
  match st.activeSearch with
  | some old => { st with searches := st.searches.modify old Search.stop }
  | none => st

/-- The callback is registered before `GNUNET_FS_search_start`, and the old search is stopped
after it. -/
def startSearch (st : State α) (early : List (Nat × α)) : State α × List (Info α) :=
  let key := st.searches.length
  let infos := early.filterMap fun r => parseProgressInfo r.1 key r.2
  let search : Search α := ⟨.new, infos⟩
  let st := { st with searches := st.searches ++ [search] }
  ({ st.stopOldSearch with activeSearch := some key, searchResults := [] }, infos)

def stopSearch (st : State α) : State α := { st.stopOldSearch with activeSearch := none }

/-- `progress-callback`, which fails for a callback that is not registered. -/
def progressCallback (st : State α) (info : Info α) : State α × List (Info α) :=
  match st.searches[info.cctx]? with
  | some s =>
    if s.channel.closed then (st, [])
    else
      let s := { s with scheduled := s.scheduled ++ [info] }
      ({ st with searches := st.searches.set info.cctx s }, [info])
  | none => (st, [])

def put (st : State α) (search block : Nat) : Option (State α) :=
  st.searches[search]?.bind fun s => s.scheduled[block]?.map fun info =>
    let s := ⟨s.channel.put info, s.scheduled.eraseIdx block⟩
    { st with searches := st.searches.set search s }

/-- The loop of `start-search`, until there is nothing to take. -/
def read (st : State α) (search : Nat) : Option (State α) :=
  st.searches[search]?.bind fun s => s.channel.resume.map fun r =>
    { st with
      searches := st.searches.set search { s with channel := r.1 }
      searchResults := st.searchResults ++ r.2.filter Info.isResult }

end State

/-- The outputs are what the callbacks of the searches are called with. -/
def step (st : State α) : Event α → Option (State α × List (Info α))
  | .startSearch early => some (st.startSearch early)
  | .stopSearch => some (st.stopSearch, [])
  | .progress status cctx result =>
    match parseProgressInfo status cctx result with
    | some info => some (st.progressCallback info)
    | none => some (st, [])
  | .put search block => (st.put search block).map fun st => (st, [])
  | .read search => (st.read search).map fun st => (st, [])

def system : EventSystem (State α) (Event α) (Info α) := ⟨.init, step⟩

/-! ## Fresh results -/

/-- The results that are reported for a search. -/
def reports (os : List (Info α)) (search : Nat) : List (Info α) :=
  os.filter fun info => info.cctx = search ∧ info.isResult

/-- While a search is active, the results are some of those reported for it, each at most
once. -/
def Fresh (os : List (Info α)) (st : State α) : Prop :=
  ∀ search, st.activeSearch = some search → st.searchResults.Subperm (reports os search)

/-- The results that a search has in its channel, or that its loop has been handed. -/
def Search.inFlight (s : Search α) : List (Info α) := s.channel.inFlight.filter Info.isResult

def Quiet (st : State α) : Prop := ∀ s ∈ st.searches, s.inFlight = []

/-- A search is started only while no result is in flight. -/
def StartsQuiet (st : State α) : Event α → Prop
  | .startSearch _ => Quiet st
  | .stopSearch | .progress _ _ _ | .put _ _ | .read _ => True

instance [DecidableEq α] (st : State α) : Decidable (Quiet st) :=
  inferInstanceAs (Decidable (∀ s ∈ st.searches, s.inFlight = []))

instance [DecidableEq α] (st : State α) (e : Event α) : Decidable (StartsQuiet st e) :=
  match e with
  | .startSearch _ => inferInstanceAs (Decidable (Quiet st))
  | .stopSearch | .progress _ _ _ | .put _ _ | .read _ => .isTrue trivial

/-! ## The steps of one search -/

/-- The results that a search has not delivered. -/
def Search.pending (s : Search α) : List (Info α) :=
  s.inFlight ++ s.scheduled.filter Info.isResult

/-- A step of a search: what its loop takes, and what is reported. -/
inductive Search.Moves (search : Nat) (s : Search α) :
    Search α → List (Info α) → List (Info α) → Prop
  | progress {info : Info α} (hcctx : info.cctx = search) (hopen : s.channel.closed = false) :
      Moves search s { s with scheduled := s.scheduled ++ [info] } [] [info]
  | put {block : Nat} {info : Info α} (hinfo : s.scheduled[block]? = some info) :
      Moves search s ⟨s.channel.put info, s.scheduled.eraseIdx block⟩ [] []
  | read {c : Channel (Info α) 1} {infos : List (Info α)}
      (hc : s.channel.resume = some (c, infos)) : Moves search s { s with channel := c } infos []

namespace Search

variable {search : Nat} {s s' : Search α} {infos os : List (Info α)}

theorem Moves.closed (h : Moves search s s' infos os) : s'.channel.closed = s.channel.closed := by
  cases h with
  | progress hcctx hopen => rfl
  | put hinfo => exact Channel.closed_put _ _
  | read hc => exact (Channel.of_resume hc).1

/-- A search without results in flight that is stopped delivers none. -/
theorem Moves.quiet (h : Moves search s s' infos os) (hclosed : s.channel.closed)
    (hs : s.inFlight = []) : infos.filter Info.isResult = [] ∧ s'.inFlight = [] := by
  cases h with
  | progress hcctx hopen => exact absurd (hclosed.symm.trans hopen) (by decide)
  | put hinfo =>
    rw [inFlight, Channel.put_of_closed hclosed]
    exact ⟨rfl, hs⟩
  | read hc =>
    obtain ⟨-, hc', rfl⟩ := Channel.of_resume hc
    refine ⟨hs, ?_⟩
    rw [inFlight, hc']
    rfl

/-- **A search delivers no result twice**, and none that is not reported for it. -/
theorem Moves.balance (h : Moves search s s' infos os) :
    (infos.filter Info.isResult ++ s'.pending).Subperm (s.pending ++ reports os search) := by
  cases h with
  | @progress info hcctx hopen =>
    have hreports : reports [info] search = [info].filter Info.isResult :=
      List.filter_congr fun x hx => by simp [List.mem_singleton.mp hx, hcctx]
    rw [hreports, pending, pending, List.filter_append, List.append_assoc]
    exact .refl _
  | @put block info hinfo =>
    obtain ⟨hlt, rfl⟩ := List.getElem?_eq_some_iff.mp hinfo
    have hperm := (List.getElem_cons_eraseIdx_perm hlt).filter Info.isResult
    have hput : ((s.channel.put s.scheduled[block]).inFlight.filter Info.isResult).Sublist
        (s.inFlight ++ [s.scheduled[block]].filter Info.isResult) := by
      obtain h | h := Channel.inFlight_put s.channel s.scheduled[block]
      · rw [h, List.filter_append]
        exact List.Sublist.refl _
      · rw [h]
        exact List.sublist_append_left _ _
    refine ((hput.append (List.Sublist.refl _)).subperm).trans (List.Perm.subperm ?_)
    rw [List.append_assoc, ← List.filter_append]
    exact (hperm.append_left _).trans (by simp [pending, reports])
  | read hc =>
    obtain ⟨-, hc', rfl⟩ := Channel.of_resume hc
    rw [pending, pending, inFlight, inFlight, hc']
    exact (List.append_nil _).symm ▸ .refl _

theorem Moves.tagged (h : Moves search s s' infos os)
    (hs : ∀ info ∈ s.channel.inFlight ++ s.scheduled, info.cctx = search) :
    ∀ info ∈ s'.channel.inFlight ++ s'.scheduled, info.cctx = search := by
  intro info hinfo
  cases h with
  | @progress info' hcctx hopen =>
    rw [← List.append_assoc, List.mem_append, List.mem_singleton] at hinfo
    obtain hinfo | rfl := hinfo
    · exact hs info hinfo
    · exact hcctx
  | @put block info' hinfo' =>
    obtain hinfo | hinfo := List.mem_append.mp hinfo
    · obtain h | h := Channel.inFlight_put s.channel info'
      · rw [h, List.mem_append, List.mem_singleton] at hinfo
        obtain hinfo | rfl := hinfo
        · exact hs info (List.mem_append_left _ hinfo)
        · exact hs info (List.mem_append_right _ (List.mem_of_getElem? hinfo'))
      · rw [h] at hinfo
        exact hs info (List.mem_append_left _ hinfo)
    · exact hs info (List.mem_append_right _ (List.mem_of_mem_eraseIdx hinfo))
  | read hc =>
    rw [(Channel.of_resume hc).2.1] at hinfo
    exact hs info (List.mem_append_right _ hinfo)

end Search

/-! ## Steps -/

/-- What a step does that is neither a start nor a stop. -/
inductive Progresses (st : State α) : State α → List (Info α) → Prop
  | unheard : Progresses st st []
  | moves {search : Nat} {s s' : Search α} {infos os : List (Info α)}
      (hs : st.searches[search]? = some s) (hmoves : s.Moves search s' infos os) :
      Progresses st
        { st with
          searches := st.searches.set search s'
          searchResults := st.searchResults ++ infos.filter Info.isResult } os

theorem progressCallback_progresses (st : State α) (info : Info α) :
    Progresses st (st.progressCallback info).1 (st.progressCallback info).2 := by
  rw [State.progressCallback]
  cases hs : st.searches[info.cctx]? with
  | none => exact .unheard
  | some s =>
    cases hc : s.channel.closed with
    | true => simpa [hc] using Progresses.unheard
    | false => simpa [hc] using Progresses.moves hs (.progress rfl hc)

theorem put_progresses {st st' : State α} {search block : Nat}
    (h : st.put search block = some st') : Progresses st st' [] := by
  obtain ⟨s, hs, h⟩ := Option.bind_eq_some_iff.mp h
  obtain ⟨info, hinfo, rfl⟩ := Option.map_eq_some_iff.mp h
  simpa using Progresses.moves hs (.put hinfo)

theorem read_progresses {st st' : State α} {search : Nat}
    (h : st.read search = some st') : Progresses st st' [] := by
  obtain ⟨s, hs, h⟩ := Option.bind_eq_some_iff.mp h
  obtain ⟨⟨c, infos⟩, hc, rfl⟩ := Option.map_eq_some_iff.mp h
  exact .moves hs (.read hc)

/-- **What a step can do.** -/
theorem step_cases {st st' : State α} {e : Event α} {os : List (Info α)}
    (h : step st e = some (st', os)) :
    (∃ early, e = .startSearch early ∧ (st', os) = st.startSearch early) ∨
      (st' = st.stopSearch ∧ os = []) ∨ Progresses st st' os := by
  cases e with
  | startSearch early => exact .inl ⟨early, rfl, (Option.some.inj h).symm⟩
  | stopSearch =>
    cases h
    exact .inr (.inl ⟨rfl, rfl⟩)
  | progress status cctx result =>
    rw [step] at h
    refine .inr (.inr ?_)
    cases hinfo : parseProgressInfo status cctx result with
    | none =>
      rw [hinfo] at h
      cases h
      exact .unheard
    | some info =>
      rw [hinfo] at h
      have hp := progressCallback_progresses st info
      rw [Option.some.inj h] at hp
      exact hp
  | put search block =>
    obtain ⟨_, hput, h⟩ := Option.map_eq_some_iff.mp h
    cases h
    exact .inr (.inr (put_progresses hput))
  | read search =>
    obtain ⟨_, hread, h⟩ := Option.map_eq_some_iff.mp h
    cases h
    exact .inr (.inr (read_progresses hread))

theorem stopOldSearch_getElem? (st : State α) (search : Nat) :
    st.stopOldSearch.searches[search]? =
      if st.activeSearch = some search then (st.searches[search]?).map Search.stop
      else st.searches[search]? := by
  rw [State.stopOldSearch]
  cases st.activeSearch with
  | none => rfl
  | some old =>
    by_cases h : old = search
    · subst h
      simp
    · rw [if_neg fun he => h (Option.some.inj he)]
      exact List.getElem?_modify_ne Search.stop _ h

theorem stop_getElem? {st : State α} {search : Nat} {s : Search α}
    (h : st.stopOldSearch.searches[search]? = some s) :
    ∃ s', st.searches[search]? = some s' ∧ s.inFlight = s'.inFlight ∧
      s.scheduled = s'.scheduled ∧ (s = s' ∧ st.activeSearch ≠ some search ∨ s.channel.closed) := by
  rw [stopOldSearch_getElem?] at h
  split at h
  · obtain ⟨s', hs', rfl⟩ := Option.map_eq_some_iff.mp h
    refine ⟨s', hs', ?_, rfl, .inr rfl⟩
    rw [Search.inFlight, Search.stop, Channel.inFlight_close]
    rfl
  · next hne => exact ⟨s, h, rfl, rfl, .inl ⟨rfl, hne⟩⟩

/-! ## Runs with quiet starts -/

/-- The active search is the only one that is not stopped, and the only one with results in
flight; those and the ones that it has delivered are reported for it. -/
structure Clean (os : List (Info α)) (st : State α) : Prop where
  active : ∀ search, st.activeSearch = some search → ∃ s, st.searches[search]? = some s ∧
    s.channel.closed = false ∧ (st.searchResults ++ s.pending).Subperm (reports os search)
  stopped : ∀ search s, st.searches[search]? = some s → st.activeSearch ≠ some search →
    s.channel.closed ∧ (st.activeSearch ≠ none → s.inFlight = [])

theorem cctx_of_parseProgressInfo {status cctx : Nat} {result : α} {info : Info α}
    (h : parseProgressInfo status cctx result = some info) : info.cctx = cctx := by
  rw [parseProgressInfo] at h
  split at h
  · cases h
    rfl
  · split at h
    · cases h
      rfl
    · cases h

theorem cctx_of_mem_early {st : State α} {early : List (Nat × α)} {info : Info α}
    (h : info ∈ (st.startSearch early).2) : info.cctx = st.searches.length := by
  obtain ⟨r, -, hr⟩ := List.mem_filterMap.mp h
  exact cctx_of_parseProgressInfo hr

/-- The search that is started, and what it has been told early. -/
theorem started_getElem? {st : State α} (hactive : st.activeSearch ≠ some st.searches.length)
    (early : List (Nat × α)) :
    (st.startSearch early).1.searches[st.searches.length]? =
      some ⟨.new, (st.startSearch early).2⟩ := by
  refine (stopOldSearch_getElem? _ _).trans ?_
  rw [if_neg hactive]
  exact List.getElem?_concat_length

theorem reports_early (st : State α) (early : List (Nat × α)) :
    reports (st.startSearch early).2 st.searches.length =
      (st.startSearch early).2.filter Info.isResult :=
  List.filter_congr fun info hinfo => by simp [cctx_of_mem_early hinfo]

namespace Clean

variable {os os' : List (Info α)} {st st' : State α}

theorem fresh (h : Clean os st) : Fresh os st := by
  intro search hsearch
  obtain ⟨s, -, -, hresults⟩ := h.active search hsearch
  exact (List.sublist_append_left _ _).subperm.trans hresults

theorem activeSearch_ne (h : Clean os st) : st.activeSearch ≠ some st.searches.length := by
  intro he
  obtain ⟨s, hs, -⟩ := h.active _ he
  exact absurd (List.getElem?_eq_some_iff.mp hs).1 (Nat.lt_irrefl _)

theorem init : Clean [] (State.init : State α) where
  active _ h := nomatch h
  stopped _ _ h := nomatch h

theorem progresses (h : Clean os st) (hp : Progresses st st' os') : Clean (os ++ os') st' := by
  cases hp with
  | unheard =>
    rw [List.append_nil]
    exact h
  | @moves search s s' infos _ hs hmoves =>
    have hlt : search < st.searches.length := (List.getElem?_eq_some_iff.mp hs).1
    refine ⟨fun i hi => ?_, fun j t ht hj => ?_⟩
    · obtain ⟨a, ha, hopen, hresults⟩ := h.active i hi
      by_cases hne : search = i
      · subst hne
        cases hs.symm.trans ha
        refine ⟨s', List.getElem?_set_self hlt, hmoves.closed.trans hopen, ?_⟩
        rw [List.append_assoc, reports, List.filter_append]
        refine ((List.subperm_append_left _).mpr hmoves.balance).trans ?_
        rw [← List.append_assoc]
        exact (List.subperm_append_right _).mpr hresults
      · obtain ⟨hclosed, hquiet⟩ := h.stopped search s hs fun he => hne (Option.some.inj
          (he.symm.trans hi))
        have hactive : st.activeSearch ≠ none := fun hn => nomatch hn.symm.trans hi
        have hinfos := (hmoves.quiet hclosed (hquiet hactive)).1
        refine ⟨a, (List.getElem?_set_ne hne).trans ha, hopen, ?_⟩
        rw [hinfos, List.append_nil, reports, List.filter_append]
        exact hresults.trans (List.sublist_append_left _ _).subperm
    · by_cases hne : search = j
      · subst hne
        rw [List.getElem?_set_self hlt] at ht
        cases ht
        obtain ⟨hclosed, hquiet⟩ := h.stopped search s hs hj
        exact ⟨hmoves.closed.trans hclosed, fun ha => (hmoves.quiet hclosed (hquiet ha)).2⟩
      · rw [List.getElem?_set_ne hne] at ht
        exact h.stopped j t ht hj

theorem stopSearch (h : Clean os st) : Clean os st.stopSearch where
  active _ hi := nomatch hi
  stopped j s hs _ := by
    obtain ⟨s', hs', -, -, ⟨rfl, hj⟩ | hclosed⟩ := stop_getElem? hs
    · exact ⟨(h.stopped j s hs' hj).1, fun hn => absurd rfl hn⟩
    · exact ⟨hclosed, fun hn => absurd rfl hn⟩

theorem startSearch (h : Clean os st) (hquiet : Quiet st) (early : List (Nat × α)) :
    Clean (os ++ (st.startSearch early).2) (st.startSearch early).1 where
  active i hi := by
    cases hi
    refine ⟨_, started_getElem? h.activeSearch_ne early, rfl, ?_⟩
    rw [reports, List.filter_append, ← reports, ← reports, reports_early]
    exact (List.sublist_append_right _ _).subperm
  stopped j s hs hj := by
    obtain ⟨s', hs', hflight, -, hcases⟩ := stop_getElem? hs
    have hlt : j < st.searches.length := by
      have hle : j < st.searches.length + 1 := by
        simpa using (List.getElem?_eq_some_iff.mp hs').1
      exact Nat.lt_of_le_of_ne (Nat.le_of_lt_succ hle) fun he => hj (congrArg some he.symm)
    rw [List.getElem?_append_left hlt] at hs'
    refine ⟨?_, fun _ => hflight.trans (hquiet s' (List.mem_of_getElem? hs'))⟩
    obtain ⟨rfl, hne⟩ | hclosed := hcases
    · exact (h.stopped j s hs' hne).1
    · exact hclosed

theorem steps {e : Event α} (h : Clean os st) (hok : StartsQuiet st e)
    (hst : step st e = some (st', os')) : Clean (os ++ os') st' := by
  obtain ⟨early, rfl, hstart⟩ | ⟨rfl, rfl⟩ | hp := step_cases hst
  · have := h.startSearch hok early
    rwa [← hstart] at this
  · rw [List.append_nil]
    exact h.stopSearch
  · exact h.progresses hp

end Clean

/-! ## Starts that are not quiet -/

/-- What a search holds has its key. -/
def Tagged (searches : List (Search α)) : Prop :=
  ∀ (search : Nat) (s : Search α), searches[search]? = some s →
    ∀ info ∈ s.channel.inFlight ++ s.scheduled, info.cctx = search

theorem tagged_stopOldSearch {st : State α} (h : Tagged st.searches) :
    Tagged st.stopOldSearch.searches := by
  intro j s hs info hinfo
  rw [stopOldSearch_getElem?] at hs
  split at hs
  · obtain ⟨s', hs', rfl⟩ := Option.map_eq_some_iff.mp hs
    rw [Search.stop, Channel.inFlight_close] at hinfo
    exact h j s' hs' info hinfo
  · exact h j s hs info hinfo

theorem tagged_startSearch {st : State α} (h : Tagged st.searches) (early : List (Nat × α)) :
    Tagged (st.startSearch early).1.searches := by
  refine tagged_stopOldSearch fun j s hs info hinfo => ?_
  obtain hlt | heq | hgt := Nat.lt_trichotomy j st.searches.length
  · rw [List.getElem?_append_left hlt] at hs
    exact h j s hs info hinfo
  · subst heq
    rw [List.getElem?_concat_length] at hs
    cases hs
    exact cctx_of_mem_early hinfo
  · rw [List.getElem?_eq_none (by rw [List.length_append]; exact hgt)] at hs
    cases hs

theorem tagged_step {st st' : State α} {e : Event α} {os : List (Info α)}
    (h : Tagged st.searches) (hst : step st e = some (st', os)) : Tagged st'.searches := by
  obtain ⟨early, rfl, hstart⟩ | ⟨rfl, -⟩ | hp := step_cases hst
  · have := tagged_startSearch h early
    rwa [← hstart] at this
  · exact tagged_stopOldSearch h
  · cases hp with
    | unheard => exact h
    | @moves search s s' infos _ hs hmoves =>
      intro j t ht
      by_cases hne : search = j
      · subst hne
        rw [List.getElem?_set_self (List.getElem?_eq_some_iff.mp hs).1] at ht
        cases ht
        exact hmoves.tagged (h search s hs)
      · rw [List.getElem?_set_ne hne] at ht
        exact h j t ht

/-- An earlier search keeps what is in flight. -/
theorem old_getElem? {st : State α} {search : Nat} {s : Search α}
    (h : st.searches[search]? = some s) (early : List (Nat × α)) :
    ∃ s', (st.startSearch early).1.searches[search]? = some s' ∧
      s'.channel.inFlight = s.channel.inFlight := by
  have hlt := (List.getElem?_eq_some_iff.mp h).1
  have hget := stopOldSearch_getElem?
    { st with searches := st.searches ++ [⟨.new, (st.startSearch early).2⟩] } search
  rw [List.getElem?_append_left hlt, h] at hget
  split at hget
  · exact ⟨s.stop, hget, Channel.inFlight_close _⟩
  · exact ⟨s, hget, rfl⟩

theorem read_eq {st : State α} {search : Nat} {s : Search α} {c : Channel (Info α) 1}
    {infos : List (Info α)} (hs : st.searches[search]? = some s)
    (hc : s.channel.resume = some (c, infos)) : st.read search = some
      { st with
        searches := st.searches.set search { s with channel := c }
        searchResults := st.searchResults ++ infos.filter Info.isResult } := by
  rw [State.read, hs, Option.bind_some, hc]
  rfl

/-- After a start that is not quiet, the loop of an old search can deliver a result. -/
theorem stale_of_not_quiet {os : List (Info α)} {st : State α} (htagged : Tagged st.searches)
    (hquiet : ¬ Quiet st) (early : List (Nat × α)) : ∃ search os' st',
      system.Steps anyEvent st [.startSearch early, .read search] os' st' ∧
        ¬ Fresh (os ++ os') st' := by
  obtain ⟨s, hmem, hflight⟩ : ∃ s ∈ st.searches, s.inFlight ≠ [] := by
    simpa [Quiet] using hquiet
  obtain ⟨search, hlt, hget⟩ := List.mem_iff_getElem.mp hmem
  have hs : st.searches[search]? = some s := List.getElem?_eq_some_iff.mpr ⟨hlt, hget⟩
  obtain ⟨info, hinfo⟩ := List.exists_mem_of_ne_nil _ hflight
  have hin := (List.mem_filter.mp hinfo).1
  obtain ⟨s', hs', hsame⟩ := old_getElem? hs early
  obtain ⟨c, hc⟩ := Channel.resume_of_inFlight (c := s'.channel)
    (by rw [hsame]; exact List.ne_nil_of_mem hin)
  have hread : step (st.startSearch early).1 (.read search) = some _ :=
    congrArg (Option.map fun st => (st, [])) (read_eq hs' hc)
  refine ⟨search, _, _, .snoc (.snoc .nil trivial rfl) trivial hread, fun hfresh => ?_⟩
  have hresults := (hfresh st.searches.length rfl).subset (a := info)
    (List.mem_append_right _ (by rw [hsame]; exact hinfo))
  have hkey : info.cctx = st.searches.length := by
    simpa using (of_decide_eq_true (List.mem_filter.mp hresults).2).1
  have htag := htagged search s hs info (List.mem_append_left _ hin)
  exact absurd (hkey.symm.trans htag) (Nat.ne_of_gt hlt)

/-- **No stale search results.**  In a run whose starts are quiet, while a search is active the
results are some of those reported for it, each at most once.  After any other start, the loop
of an old search can add one of its own. -/
theorem search_results_fresh {es : List (Event α)} {os : List (Info α)} {st : State α}
    (h : system.Run anyEvent es os st) :
    (system.Run StartsQuiet es os st → Fresh os st) ∧
      (¬ Quiet st → ∀ early, ∃ search os' st',
        system.Steps anyEvent st [.startSearch early, .read search] os' st' ∧
          ¬ Fresh (os ++ os') st') := by
  refine ⟨fun hrun => ?_, fun hquiet early => ?_⟩
  · exact (hrun.history (fun _ _ _ _ _ hclean hok hst => hclean.steps hok hst) Clean.init).fresh
  · have htagged : Tagged st.searches :=
      h.invariant (P := fun st => Tagged st.searches)
        (fun _ _ _ _ htagged _ hst => tagged_step htagged hst) fun _ _ hs => nomatch hs
    exact stale_of_not_quiet htagged hquiet early

/-- The first search has delivered its result when the second one is started. -/
theorem search_results_fresh_second : ∃ os st,
    system.Run StartsQuiet [.startSearch [(17, "")], .progress 21 0 "a", .put 0 0, .read 0,
      .startSearch [], .progress 21 1 "b", .put 1 0, .read 1, .read 0] os st ∧
    st.searchResults = [⟨.searchResult, 1, some "b"⟩] ∧ Fresh os st := by
  have hrun : ∃ os st, system.Run StartsQuiet [.startSearch [(17, "")], .progress 21 0 "a",
      .put 0 0, .read 0, .startSearch [], .progress 21 1 "b", .put 1 0, .read 1, .read 0] os st ∧
      st.searchResults = [⟨.searchResult, 1, some "b"⟩] :=
    ⟨_, _, .of_restrict (Steps.of_exec (fun _ _ => trivial) rfl), rfl⟩
  obtain ⟨os, st, h, hresults⟩ := hrun
  exact ⟨os, st, h, hresults, (search_results_fresh h.toAny).1 h⟩

/-- **A stale result.**  The loop of the first search has been handed a result when the second
search is started, and adds it afterwards. -/
theorem search_results_stale : ∃ os st,
    system.Run anyEvent [.startSearch [], .read 0, .progress 21 0 "a", .put 0 0,
      .startSearch [], .read 0] os st ∧
    st.activeSearch = some 1 ∧ st.searchResults = [⟨.searchResult, 0, some "a"⟩] ∧
    ¬ Fresh os st := by
  refine ⟨_, _, Steps.of_exec (fun _ _ => trivial) rfl, rfl, rfl, fun h => ?_⟩
  exact absurd ((h 1 rfl).subset List.mem_cons_self) (by decide)

end GnunetWeb.SearchResults
