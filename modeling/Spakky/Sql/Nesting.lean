import Spakky.Sql.Transaction

/-!
Transactional calls that make transactional calls, in one context. All of them
enter and leave the same transaction, so that the first nested call to end
commits or rolls back what its callers have flushed, and closes the session
under them.

What happens in a tree of calls is a well bracketed list of events. What the
methods do between them is left open: after a call has ended, whether it
returned or raised, and after a write, whether it was flushed or refused, the
method that made it may go on in any way.
-/

namespace Spakky.Sql

open Effect Exec Data Machine List

/-- A call begins, it writes, or its body ends, with an error or without. -/
inductive CallEvent (ω : Type) where
  | enter
  | write (write : ω)
  | leave (error : Option Failure) (commitFails : Bool)

/-- The events inside a call. -/
inductive Inside {ω : Type} : List (CallEvent ω) → Prop where
  | nil : Inside []
  | write (write : ω) {rest : List (CallEvent ω)} : Inside rest → Inside (.write write :: rest)
  | call {inner rest : List (CallEvent ω)} (error : Option Failure) (commitFails : Bool) :
      Inside inner → Inside rest → Inside (.enter :: (inner ++ .leave error commitFails :: rest))

/-- A call with everything it calls. -/
structure CallTree (ω : Type) where
  inner : List (CallEvent ω)
  inside : Inside inner
  error : Option Failure
  commitFails : Bool

def CallTree.events {ω : Type} (tree : CallTree ω) : List (CallEvent ω) :=
  .enter :: (tree.inner ++ [.leave tree.error tree.commitFails])

/-- The sessions, and what is recorded of a tree of calls: for each running
call, the innermost one first, whether it has entered a nested call; what was
flushed; how many writes and commits found no session; and how the call that
was left last has ended. -/
structure Nesting (κ ω : Type) where
  sessions : Sessions κ ω
  calls : List Bool
  flushed : List ω
  refused : Nat
  outcome : Except Failure Unit

namespace Nesting

variable {κ ω : Type}

def begin_ (sessions : Sessions κ ω) : Nesting κ ω where
  sessions := sessions
  calls := []
  flushed := []
  refused := 0
  outcome := .ok ()

/-- What is pending in the current session, if there is one. -/
def session (state : Nesting κ ω) : Option (List ω) :=
  state.sessions.current.map state.sessions.pending

/-- The innermost call has entered a nested one. -/
def entered : List Bool → List Bool
  | [] => []
  | _ :: outer => true :: outer

section Steps

variable [DecidableEq κ] (context : κ) (autocommit : Bool)

def enters (state : Nesting κ ω) : Nesting κ ω :=
  { state with
    sessions := ((transaction context autocommit false).enter state.sessions).2
    calls := false :: entered state.calls }

def writes (state : Nesting κ ω) (write : ω) : Nesting κ ω :=
  match (Access.flush write).perform state.sessions with
  | (.ok _, sessions) => { state with sessions, flushed := state.flushed ++ [write] }
  | (.error _, sessions) => { state with sessions, refused := state.refused + 1 }

/-- The error of the body leaves the call, unless `__exit__` raises another
one. -/
def leaves (state : Nesting κ ω) (error : Option Failure) (commitFails : Bool) : Nesting κ ω :=
  let (exited, sessions) := (transaction context autocommit commitFails).exit error state.sessions
  { state with
    sessions
    calls := state.calls.tail
    refused :=
      if autocommit && error.isNone && state.session.isNone then state.refused + 1
      else state.refused
    outcome :=
      match error, exited with
      | some error, .ok () => .error error
      | _, exited => exited }

def step (state : Nesting κ ω) : CallEvent ω → Nesting κ ω
  | .enter => state.enters context autocommit
  | .write write => state.writes write
  | .leave error commitFails => state.leaves context autocommit error commitFails

end Steps

section Specifications

variable {context : κ} {state : Nesting κ ω}

theorem writes_open {pending : List ω} (h : Phase context state.sessions (some pending))
    (write : ω) :
    ∃ sessions, state.writes write = { state with sessions, flushed := state.flushed ++ [write] } ∧
      Phase context sessions (some (pending ++ [write])) ∧
      sessions.committed = state.sessions.committed := by
  obtain ⟨_, sessions, hrun, hphase, hcomm⟩ := perform_phase h (.flush write)
  refine ⟨sessions, ?_, hphase, hcomm.trans (append_nil _)⟩
  rw [writes, hrun]

theorem writes_closed (h : Phase context state.sessions none) (write : ω) :
    state.writes write = { state with refused := state.refused + 1 } := by
  rw [writes, perform_closed h]

theorem writes_calls (state : Nesting κ ω) (write : ω) :
    (state.writes write).calls = state.calls := by
  rw [writes]
  split <;> rfl

variable [DecidableEq κ] {autocommit : Bool}

theorem enters_spec {session : Option (List ω)} (h : Phase context state.sessions session) :
    ∃ sessions, state.enters context autocommit =
        { state with sessions, calls := false :: entered state.calls } ∧
      Phase context sessions (some (session.getD [])) ∧
      sessions.committed = state.sessions.committed := by
  obtain ⟨sessions, hrun, hphase, hcomm⟩ := openSession_phase h
  refine ⟨sessions, ?_, hphase, hcomm⟩
  exact congrArg (fun run : Except Failure Unit × Sessions κ ω =>
    { state with sessions := run.2, calls := false :: entered state.calls }) hrun

/-- How a call ends whose body has ended. -/
def ending (autocommit commitFails : Bool) (error : Option Failure) (session : Option (List ω)) :
    Except Failure Unit :=
  match error, exitOutcome autocommit commitFails error.isSome session with
  | some error, .ok () => .error error
  | _, exited => exited

theorem leaves_spec {session : Option (List ω)} (h : Phase context state.sessions session)
    (error : Option Failure) (commitFails : Bool) :
    ∃ sessions, state.leaves context autocommit error commitFails =
        { state with
          sessions
          calls := state.calls.tail
          refused :=
            if autocommit && error.isNone && session.isNone then state.refused + 1
            else state.refused
          outcome := ending autocommit commitFails error session } ∧
      Phase context sessions none ∧
      sessions.committed = state.sessions.committed ++
        exitCommits autocommit commitFails error.isSome session := by
  obtain ⟨sessions, hrun, hphase, hcomm⟩ := exit_spec h autocommit commitFails error
  refine ⟨sessions, ?_, hphase, hcomm⟩
  rw [leaves, hrun, Nesting.session, h.pending]
  rfl

end Specifications

section Running

/-- The state inside a tree of calls. The session is closed exactly if the
innermost call has entered a nested one, all calls around it have, and while
there is a single call that has not, all it has flushed is pending. -/
inductive Running (context : κ) (state : Nesting κ ω) : Prop where
  | opened (outer : List Bool) (pending : List ω) (calls : state.calls = false :: outer)
      (phase : Phase context state.sessions (some pending))
      (entered : ∀ nested ∈ outer, nested = true) (single : outer = [] → pending = state.flushed)
  | closed (outer : List Bool) (calls : state.calls = true :: outer)
      (phase : Phase context state.sessions none) (entered : ∀ nested ∈ outer, nested = true)

/-- The outermost call is not left. -/
def Within (state : Nesting κ ω) : CallEvent ω → Prop
  | .leave _ _ => 2 ≤ state.calls.length
  | .enter | .write _ => True

variable {context : κ} {state : Nesting κ ω}

section

variable (h : Running context state)
include h

theorem Running.phase : Phase context state.sessions state.session := by
  cases h with
  | opened _ _ _ phase | closed _ _ phase =>
    rw [session, phase.pending]
    exact phase

/-- The calls around the innermost one have all entered a nested call. -/
theorem Running.outer :
    ∃ nested outer, state.calls = nested :: outer ∧ ∀ other ∈ outer, other = true := by
  cases h with
  | opened outer _ calls _ entered => exact ⟨false, outer, calls, entered⟩
  | closed outer calls _ entered => exact ⟨true, outer, calls, entered⟩

theorem writes_running (write : ω) : Running context (state.writes write) := by
  cases h with
  | opened outer pending calls phase entered single =>
    obtain ⟨_, hwrites, hphase, _⟩ := writes_open phase write
    rw [hwrites]
    refine .opened outer (pending ++ [write]) calls hphase entered ?_
    intro houter
    rw [single houter]
  | closed outer calls phase entered =>
    rw [writes_closed phase]
    exact .closed outer calls phase entered

variable [DecidableEq κ] {autocommit : Bool}

theorem enters_running : Running context (state.enters context autocommit) := by
  obtain ⟨_, outer, hcalls, hentered⟩ := h.outer
  obtain ⟨_, henters, hphase, _⟩ := enters_spec h.phase
  rw [henters, hcalls]
  refine .opened (true :: outer) _ rfl hphase ?_ nofun
  exact forall_mem_cons.mpr ⟨rfl, hentered⟩

theorem leaves_running (hwithin : 2 ≤ state.calls.length) (error : Option Failure)
    (commitFails : Bool) : Running context (state.leaves context autocommit error commitFails) := by
  obtain ⟨_, outer, hcalls, hentered⟩ := h.outer
  obtain ⟨_, hleaves, hphase, _⟩ := leaves_spec h.phase error commitFails
  rw [hleaves]
  cases outer with
  | nil =>
    rw [hcalls] at hwithin
    simp at hwithin
  | cons caller outer =>
    have hcaller : caller = true := hentered caller (.head _)
    rw [hcaller] at hcalls
    refine .closed outer ?_ hphase ?_
    · rw [hcalls]
      rfl
    · intro other hother
      exact hentered other (.tail _ hother)

theorem step_running {event : CallEvent ω} (hwithin : Within state event) :
    Running context (step context autocommit state event) := by
  cases event with
  | enter => exact enters_running h
  | write write => exact writes_running h write
  | leave error commitFails => exact leaves_running h hwithin error commitFails

end

variable [DecidableEq κ] {autocommit : Bool}

theorem begins_running {sessions : Sessions κ ω} (h : Phase context sessions none) :
    Running context ((begin_ sessions).enters context autocommit) := by
  have hbegin : Phase context (begin_ sessions).sessions none := h
  obtain ⟨opened, henters, hphase, _⟩ := enters_spec hbegin
  rw [henters]
  exact .opened [] [] rfl hphase nofun fun _ => rfl

end Running

section Atomicity

/-- All that was flushed is committed if the call has returned, and nothing if
it has raised, and no write and no commit failed for want of a session. -/
structure AllOrNothing (start : List ω) (final : Nesting κ ω) : Prop where
  raised : ∀ error, final.outcome = .error error → final.sessions.committed = start
  returned : final.outcome = .ok () → final.sessions.committed = start ++ final.flushed
  available : final.refused = 0

/-- With autocommit, a call that has entered a nested one neither writes nor
returns, and a nested call that returns has nothing to commit, or its commit
fails. Without, such a call does not write, and the outermost call returns only
if nothing was flushed. -/
def Contained (autocommit : Bool) (state : Nesting κ ω) : CallEvent ω → Prop
  | .enter | .leave (some _) _ => True
  | .write _ => state.calls.head? ≠ some true
  | .leave none commitFails =>
    if autocommit then
      state.calls.head? ≠ some true ∧
        (2 ≤ state.calls.length → commitFails = true ∨ state.session = some [])
    else state.calls.length = 1 → state.flushed = []

/-- Nothing was committed and nothing refused. -/
structure Kept (context : κ) (start : List ω) (state : Nesting κ ω) : Prop where
  running : Running context state
  committed : state.sessions.committed = start
  available : state.refused = 0

/-- A write or a commit was refused, or a nested call has committed, so that
its callers can neither return nor raise any more. -/
structure Spoiled (context : κ) (autocommit : Bool) (start : List ω) (state : Nesting κ ω) :
    Prop where
  running : Running context state
  spoiled : 0 < state.refused ∨
    autocommit = true ∧ start.length < state.sessions.committed.length ∧ state.calls ≠ [false]

variable {context : κ} {autocommit : Bool} {start : List ω} {state : Nesting κ ω}

variable (context autocommit start) in
/-- What becomes of a call that has committed nothing. -/
def KeptOrSpoiled (contained : Prop) (next : Nesting κ ω) : Prop :=
  contained ∧ Kept context start next ∨ ¬ contained ∧ Spoiled context autocommit start next

theorem exitCommits_raised (autocommit commitFails : Bool) (session : Option (List ω)) :
    exitCommits autocommit commitFails true session = [] := by
  simp [exitCommits]

theorem not_single_of_entered {outer : List Bool} (hentered : ∀ nested ∈ outer, nested = true) :
    outer ≠ [false] := by
  rintro rfl
  exact nomatch hentered false (.head _)

theorem writes_kept_or_spoiled (h : Kept context start state) (write : ω) :
    KeptOrSpoiled context autocommit start (Contained autocommit state (.write write))
      (state.writes write) := by
  have hrunning := writes_running h.running write
  cases h.running with
  | opened _ _ calls phase =>
    obtain ⟨_, hwrites, _, hcomm⟩ := writes_open phase write
    refine .inl ⟨?_, hrunning, ?_, ?_⟩
    · rw [Contained, calls]
      exact nofun
    · rw [hwrites]
      exact hcomm.trans h.committed
    · rw [hwrites]
      exact h.available
  | closed _ calls phase =>
    refine .inr ⟨?_, hrunning, .inl ?_⟩
    · intro hcontd
      exact hcontd (by rw [calls]; rfl)
    · rw [writes_closed phase]
      exact Nat.succ_pos _

variable [DecidableEq κ]

variable (context autocommit) in
/-- A tree of calls as a whole, begun without a session. -/
def Atomic (sessions : Sessions κ ω) (tree : CallTree ω) : Prop :=
  AllOrNothing sessions.committed
    (run (step context autocommit) (begin_ sessions) tree.events)

theorem enters_calls (state : Nesting κ ω) :
    (state.enters context autocommit).calls.length = state.calls.length + 1 := by
  rw [enters]
  cases hcalls : state.calls <;> simp [entered]

theorem leaves_calls (state : Nesting κ ω) (error : Option Failure) (commitFails : Bool) :
    (state.leaves context autocommit error commitFails).calls = state.calls.tail := rfl

/-- The events inside a call leave no call around it, and all calls that they
begin. -/
theorem inside_within (context : κ) (autocommit : Bool) {events : List (CallEvent ω)}
    (hinside : Inside events) (state : Nesting κ ω) (hrunning : 0 < state.calls.length) :
    Along (step context autocommit) Within state events ∧
      (run (step context autocommit) state events).calls.length = state.calls.length := by
  induction hinside generalizing state with
  | nil => exact ⟨trivial, rfl⟩
  | write write _ ih =>
    have hcalls : (step context autocommit state (.write write)).calls = state.calls :=
      writes_calls state write
    have hrest := ih (step context autocommit state (.write write)) (by rwa [hcalls])
    rw [hcalls] at hrest
    exact ⟨⟨trivial, hrest.1⟩, hrest.2⟩
  | @call inner rest error commitFails _ _ ihInner ihRest =>
    have hentered : (step context autocommit state .enter).calls.length =
        state.calls.length + 1 := enters_calls state
    obtain ⟨hinner, hcalls⟩ := ihInner (step context autocommit state .enter) (by omega)
    rw [hentered] at hcalls
    generalize hbefore : run (step context autocommit)
      (step context autocommit state .enter) inner = before at hcalls
    have hleft : (step context autocommit before (.leave error commitFails)).calls.length =
        state.calls.length := by
      rw [step, leaves_calls, length_tail, hcalls, Nat.add_sub_cancel]
    obtain ⟨hrest, hend⟩ := ihRest (step context autocommit before (.leave error commitFails))
      (by omega)
    refine ⟨⟨trivial, along_append.mpr ⟨hinner, ?_⟩⟩, ?_⟩
    · rw [hbefore]
      refine ⟨?_, hrest⟩
      rw [Within, hcalls]
      omega
    · rw [run_cons, run_append, hbefore, run_cons, hend, hleft]

theorem leaves_kept_or_spoiled (h : Kept context start state) (hwithin : 2 ≤ state.calls.length)
    (error : Option Failure) (commitFails : Bool) :
    KeptOrSpoiled context autocommit start (Contained autocommit state (.leave error commitFails))
      (state.leaves context autocommit error commitFails) := by
  have hrunning : Running context (state.leaves context autocommit error commitFails) :=
    leaves_running h.running hwithin error commitFails
  obtain ⟨_, hleaves, _, hcomm⟩ := leaves_spec h.running.phase error commitFails
  rw [hleaves] at hrunning ⊢
  rw [h.committed] at hcomm
  cases error with
  | some =>
    refine .inl ⟨trivial, hrunning, ?_, ?_⟩
    · exact hcomm.trans ((congrArg _ (exitCommits_raised ..)).trans (append_nil _))
    · simp [h.available]
  | none =>
    cases autocommit with
    | false =>
      refine .inl ⟨?_, hrunning, ?_, ?_⟩
      · intro hsingle
        omega
      · exact hcomm.trans (append_nil _)
      · exact h.available
    | true =>
      cases h.running with
      | closed _ calls phase =>
        refine .inr ⟨?_, hrunning, .inl ?_⟩
        · intro hcontd
          exact hcontd.1 (by rw [calls]; rfl)
        · simp [session, phase.pending]
      | opened _ pending calls phase entered =>
        have hsess : state.session = some pending := phase.pending
        rw [hsess] at hcomm
        by_cases hnothing : commitFails = true ∨ pending = []
        · refine .inl ⟨⟨?_, ?_⟩, hrunning, ?_, ?_⟩
          · rw [calls]
            exact nofun
          · intro _
            rw [hsess, Option.some.injEq]
            exact hnothing
          · refine hcomm.trans ?_
            rcases hnothing with hfails | hempty
            · simp [exitCommits, hfails]
            · simp [exitCommits, hempty]
          · simp [hsess, h.available]
        · obtain ⟨hsucceeds, hpend⟩ := not_or.mp hnothing
          refine .inr ⟨?_, hrunning, .inr ⟨rfl, ?_, ?_⟩⟩
          · intro hcontd
            have hcommits := hcontd.2 hwithin
            rw [hsess, Option.some.injEq] at hcommits
            exact hnothing hcommits
          · have hlen := length_pos_iff.mpr hpend
            rw [hcomm]
            simp [exitCommits, hsucceeds]
            omega
          · rw [calls]
            exact not_single_of_entered entered

theorem step_kept_or_spoiled {event : CallEvent ω} (h : Kept context start state)
    (hwithin : Within state event) :
    KeptOrSpoiled context autocommit start (Contained autocommit state event)
      (step context autocommit state event) := by
  cases event with
  | enter =>
    obtain ⟨_, henters, _, hcomm⟩ := enters_spec h.running.phase
    refine .inl ⟨trivial, enters_running h.running, ?_, ?_⟩
    · rw [step, henters]
      exact hcomm.trans h.committed
    · rw [step, henters]
      exact h.available
  | write write => exact writes_kept_or_spoiled h write
  | leave error commitFails => exact leaves_kept_or_spoiled h hwithin error commitFails

/-- What is committed stays so, and what was refused is not forgotten. -/
theorem step_grows (h : Running context state) (event : CallEvent ω) :
    state.refused ≤ (step context autocommit state event).refused ∧
      state.sessions.committed.length ≤
        (step context autocommit state event).sessions.committed.length := by
  cases event with
  | enter =>
    obtain ⟨_, henters, _, hcomm⟩ := enters_spec h.phase
    rw [step, henters]
    exact ⟨le_refl _, le_of_eq (congrArg _ hcomm.symm)⟩
  | write write =>
    rw [step]
    cases h with
    | opened _ _ _ phase =>
      obtain ⟨_, hwrites, _, hcomm⟩ := writes_open phase write
      rw [hwrites]
      exact ⟨le_refl _, le_of_eq (congrArg _ hcomm.symm)⟩
    | closed _ _ phase =>
      rw [writes_closed phase]
      exact ⟨Nat.le_succ _, le_refl _⟩
  | leave error commitFails =>
    obtain ⟨_, hleaves, _, hcomm⟩ := leaves_spec h.phase error commitFails
    rw [step, hleaves]
    constructor
    · split
      · exact Nat.le_succ _
      · exact le_refl _
    · rw [hcomm, length_append]
      exact Nat.le_add_right _ _

/-- A call that has entered a nested one will always have. -/
theorem step_calls (h : Running context state) {event : CallEvent ω} (hwithin : Within state event)
    (hcalls : state.calls ≠ [false]) : (step context autocommit state event).calls ≠ [false] := by
  obtain ⟨_, _, hstate, hentered⟩ := h.outer
  cases event with
  | enter =>
    rw [step, enters, hstate]
    exact nofun
  | write =>
    rw [step, writes]
    split <;> exact hcalls
  | leave error commitFails =>
    obtain ⟨_, hleaves, _, _⟩ := leaves_spec h.phase error commitFails
    rw [step, hleaves, hstate]
    exact not_single_of_entered hentered

theorem step_spoiled {event : CallEvent ω} (h : Spoiled context autocommit start state)
    (hwithin : Within state event) :
    Spoiled context autocommit start (step context autocommit state event) := by
  obtain ⟨href, hcomm⟩ := step_grows h.running event
  refine ⟨step_running h.running hwithin, ?_⟩
  rcases h.spoiled with hspoiled | ⟨hauto, hlonger, hcalls⟩
  · exact .inl (Nat.lt_of_lt_of_le hspoiled href)
  · exact .inr ⟨hauto, Nat.lt_of_lt_of_le hlonger hcomm, step_calls h.running hwithin hcalls⟩

section Trees

variable {sessions : Sessions κ ω} {tree : CallTree ω}

theorem ending_raised (autocommit commitFails : Bool) (error : Failure)
    (session : Option (List ω)) :
    ∃ raised, ending autocommit commitFails (some error) session = .error raised := by
  cases session with
  | none | some => exact ⟨_, rfl⟩

theorem leaves_allOrNothing_iff (h : Kept context start state) (hlast : state.calls.length = 1)
    (error : Option Failure) (commitFails : Bool) :
    AllOrNothing start (state.leaves context autocommit error commitFails) ↔
      Contained autocommit state (.leave error commitFails) := by
  obtain ⟨_, hleaves, _, hcomm⟩ := leaves_spec h.running.phase error commitFails
  rw [hleaves]
  rw [h.committed] at hcomm
  cases error with
  | some error =>
    rw [Option.isSome_some, exitCommits_raised, append_nil] at hcomm
    obtain ⟨_, hraised⟩ := ending_raised autocommit commitFails error state.session
    refine iff_of_true ⟨fun _ _ => hcomm, ?_, ?_⟩ trivial
    · intro hret
      exact nomatch hraised.symm.trans hret
    · simp [h.available]
  | none =>
    cases autocommit with
    | false =>
      have hending : ending false commitFails none state.session = .ok () := by
        cases state.session <;> rfl
      constructor
      · intro hall _
        have hflushed := hall.returned hending
        rw [hcomm] at hflushed
        exact (append_cancel_left hflushed).symm
      · intro hflushed
        refine ⟨?_, ?_, h.available⟩
        · intro error herror
          exact nomatch hending.symm.trans herror
        · intro _
          rw [hcomm, hflushed hlast]
          rfl
    | true =>
      cases h.running with
      | closed _ calls phase =>
        refine iff_of_false ?_ ?_
        · intro hall
          have href := hall.available
          simp [session, phase.pending] at href
        · intro hcontd
          exact hcontd.1 (by rw [calls]; rfl)
      | opened _ pending calls phase _ single =>
        have hsess : state.session = some pending := phase.pending
        rw [calls, length_cons, Nat.add_eq_right, length_eq_zero_iff] at hlast
        have hpend := single hlast
        rw [hsess] at hcomm
        refine iff_of_true ⟨?_, ?_, ?_⟩ ⟨?_, ?_⟩
        · intro error herror
          rw [hsess] at herror
          cases commitFails with
          | true => exact hcomm.trans (append_nil _)
          | false => cases herror
        · intro hret
          rw [hsess] at hret
          cases commitFails with
          | true => cases hret
          | false =>
            rw [← hpend]
            exact hcomm
        · simp [hsess, h.available]
        · rw [calls]
          exact nofun
        · intro hnest
          rw [calls, hlast] at hnest
          simp at hnest

/-- The last call to be left cannot make up for what spoiled the tree. -/
theorem Spoiled.not_allOrNothing (h : Spoiled context autocommit start state)
    (hlast : state.calls.length = 1) (error : Option Failure) (commitFails : Bool) :
    ¬ AllOrNothing start (state.leaves context autocommit error commitFails) := by
  intro hall
  rcases h.spoiled with href | ⟨rfl, hlonger, hcalls⟩
  · have hgrows : state.refused ≤ (step context autocommit state _).refused :=
      (step_grows h.running (.leave error commitFails)).1
    have hnone := hall.available
    rw [step] at hgrows
    omega
  · cases h.running with
    | opened _ _ calls =>
      rw [calls, length_cons, Nat.add_eq_right, length_eq_zero_iff] at hlast
      exact hcalls (by rw [calls, hlast])
    | closed _ _ phase =>
      obtain ⟨_, hleaves, _, hcomm⟩ := leaves_spec phase error commitFails
      rw [hleaves] at hall
      cases error with
      | none =>
        have href := hall.available
        simp at href
      | some error =>
        obtain ⟨raised, hraised⟩ : ∃ raised, ending true commitFails (some error)
          (none : Option (List ω)) = .error raised := ending_raised _ _ _ _
        have hsame := hall.raised raised hraised
        rw [hcomm, Option.isSome_some, exitCommits_raised, append_nil] at hsame
        rw [hsame] at hlonger
        exact Nat.lt_irrefl _ hlonger

theorem tree_within (context : κ) (autocommit : Bool) (sessions : Sessions κ ω)
    (tree : CallTree ω) :
    Along (step context autocommit) Within ((begin_ sessions).enters context autocommit)
        tree.inner ∧
      (run (step context autocommit) ((begin_ sessions).enters context autocommit)
        tree.inner).calls.length = 1 := by
  have hcalls : ((begin_ sessions).enters context autocommit).calls.length = 1 := enters_calls _
  have hinside := inside_within context autocommit tree.inside
    ((begin_ sessions).enters context autocommit) (by omega)
  rwa [hcalls] at hinside

theorem begins_kept (h : Phase context sessions none) :
    Kept context sessions.committed ((begin_ sessions).enters context autocommit) := by
  have hbegin : Phase context (begin_ sessions).sessions none := h
  obtain ⟨_, henters, _, hcomm⟩ := enters_spec hbegin
  refine ⟨begins_running h, ?_, ?_⟩
  · rw [henters]
    exact hcomm
  · rw [henters]
    rfl

/-- A tree of calls is atomic exactly if no call goes on after a nested one, and
no nested call commits anything. -/
theorem atomic_iff_contained (autocommit : Bool) (h : Phase context sessions none)
    (tree : CallTree ω) :
    Atomic context autocommit sessions tree ↔
      Along (step context autocommit) (Contained autocommit) (begin_ sessions) tree.events := by
  obtain ⟨hwithin, hlast⟩ := tree_within context autocommit sessions tree
  -- until its body has ended, a tree is contained and has committed nothing, or it is spoiled
  have htree := along_or_spoiled (fun _ _ => step_kept_or_spoiled) (fun _ _ => step_spoiled)
    (begins_kept h) hwithin
  rw [Atomic, CallTree.events, run_cons, run_append]
  constructor
  · intro hatomic
    rcases htree with ⟨hinner, hkept⟩ | ⟨_, hspoiled⟩
    · have hleave := (leaves_allOrNothing_iff hkept hlast tree.error tree.commitFails).mp hatomic
      exact ⟨trivial, along_append.mpr ⟨hinner, hleave, trivial⟩⟩
    · exact absurd hatomic (hspoiled.not_allOrNothing hlast tree.error tree.commitFails)
  · rintro ⟨_, hcontained⟩
    obtain ⟨hinner, hleave, _⟩ := along_append.mp hcontained
    rcases htree with ⟨_, hkept⟩ | ⟨hnot, _⟩
    · exact (leaves_allOrNothing_iff hkept hlast tree.error tree.commitFails).mpr hleave
    · exact absurd hinner hnot

end Trees

end Atomicity

section Methods

/-- A transactional method: it goes on with the outcome of each write and of
each transactional call it makes, until it returns or raises. -/
inductive Method (ω : Type) where
  | done
  | raise (error : Failure)
  | write (write : ω) (next : Except Failure Unit → Method ω)
  | call (commitFails : Bool) (inner : Method ω) (next : Except Failure Unit → Method ω)

variable [DecidableEq κ] (context : κ) (autocommit : Bool)

def execute : Method ω → Exec (Sessions κ ω) Failure Unit
  | .done => pure ()
  | .raise error => Exec.raise error
  | .write write next => do
      let outcome ← attempt (Access.flush write).perform
      execute (next (outcome.map fun _ => ()))
  | .call commitFails inner next => do
      let outcome ← attempt ((transaction context autocommit commitFails).around (execute inner))
      execute (next outcome)

/-- The error with which a body has ended. -/
def errorOf : Except Failure Unit → Option Failure
  | .ok _ => none
  | .error error => some error

/-- The events of a method that begins in a state, and how it ends. -/
def trace : Method ω → Nesting κ ω → Except Failure Unit × List (CallEvent ω)
  | .done, _ => (.ok (), [])
  | .raise error, _ => (.error error, [])
  | .write write next, state =>
    let outcome := ((Access.flush write).perform state.sessions).1.map fun _ => ()
    let rest := trace (next outcome) (state.writes write)
    (rest.1, .write write :: rest.2)
  | .call commitFails inner next, state =>
    let body := trace inner (state.enters context autocommit)
    let left := (run (step context autocommit) (state.enters context autocommit) body.2).leaves
      context autocommit (errorOf body.1) commitFails
    let rest := trace (next left.outcome) left
    (rest.1, .enter :: (body.2 ++ .leave (errorOf body.1) commitFails :: rest.2))

theorem trace_inside (method : Method ω) (state : Nesting κ ω) :
    Inside (trace context autocommit method state).2 := by
  induction method generalizing state with
  | done | raise => exact .nil
  | write write _ ih => exact .write write (ih _ _)
  | call commitFails _ _ ihInner ihNext => exact .call _ commitFails (ihInner _) (ihNext _ _)

/-- The tree of calls of a method that is called without a session. -/
def CallTree.ofMethod (method : Method ω) (commitFails : Bool) (sessions : Sessions κ ω) :
    CallTree ω :=
  let body := trace context autocommit method ((begin_ sessions).enters context autocommit)
  ⟨body.2, trace_inside .., errorOf body.1, commitFails⟩

variable {context autocommit}

/-- A call is left with the error of its body. -/
theorem around_run {body : Exec (Sessions κ ω) Failure Unit} {state before : Nesting κ ω}
    {result : Except Failure Unit} (commitFails : Bool)
    (hbody : body (state.enters context autocommit).sessions = (result, before.sessions)) :
    (transaction context autocommit commitFails).around body state.sessions =
      ((before.leaves context autocommit (errorOf result) commitFails).outcome,
        (before.leaves context autocommit (errorOf result) commitFails).sessions) := by
  have henter : (transaction context autocommit commitFails).enter state.sessions =
      (.ok (), (state.enters context autocommit).sessions) := rfl
  rw [AbstractTransaction.around, bind_ok _ henter, attempt_bind_run, hbody]
  cases result with
  | ok | error =>
    dsimp only [errorOf]
    rw [bind_run, leaves]
    rcases (transaction context autocommit commitFails).exit _ before.sessions with
      ⟨_ | _, sessions⟩ <;> rfl

theorem execute_trace (method : Method ω) (state : Nesting κ ω) :
    execute context autocommit method state.sessions =
      ((trace context autocommit method state).1, (run (step context autocommit) state
        (trace context autocommit method state).2).sessions) := by
  induction method generalizing state with
  | done | raise => rfl
  | write write _ ih =>
    have hsessions : ((Access.flush write).perform state.sessions).2 =
        (state.writes write).sessions := by
      rw [writes]
      rcases (Access.flush write).perform state.sessions with ⟨_ | _, sessions⟩ <;> rfl
    rw [execute, attempt_bind_run, hsessions]
    exact ih _ _
  | call commitFails _ _ ihInner ihNext =>
    rw [execute, attempt_bind_run, around_run commitFails (ihInner _), trace, run_cons, run_append,
      run_cons]
    exact ihNext _ _

/-- Every transactional call of every method is its tree of calls. -/
theorem around_tree (method : Method ω) (commitFails : Bool) (sessions : Sessions κ ω) :
    let final := run (step context autocommit) (begin_ sessions)
      (CallTree.ofMethod context autocommit method commitFails sessions).events
    (transaction context autocommit commitFails).around (execute context autocommit method)
      sessions = (final.outcome, final.sessions) := by
  have hbody := @execute_trace _ _ _ context autocommit method
    ((begin_ sessions).enters context autocommit)
  rw [CallTree.events, run_cons, run_append]
  exact around_run commitFails hbody

end Methods

/-- A call that makes a nested one, which writes and raises, and raises as well. -/
def rejectOrder : CallTree String where
  inner := .enter :: ([.write "order"] ++ .leave (some (.application "rejected")) false :: [])
  inside := .call _ false (.write "order" .nil) .nil
  error := some (.application "rejected")
  commitFails := false

theorem atomic_iff_contained_nested_call : Atomic () true .initial rejectOrder :=
  (atomic_iff_contained true initial_phase rejectOrder).mpr
    ⟨trivial, trivial, nofun, trivial, trivial, trivial⟩

/-- A call that writes and makes a nested call, which writes as well; then its
body ends, with an error or without. -/
def placeOrderAudited (error : Option Failure) : CallTree String where
  inner := .write "order" :: .enter :: ([.write "audit"] ++ .leave none false :: [])
  inside := .write "order" (.call none false (.write "audit" .nil) .nil)
  error := error
  commitFails := false

def audited (error : Option Failure) : Nesting Unit String :=
  run (step () true) (begin_ .initial) (placeOrderAudited error).events

/-- The nested call commits the write of its caller and closes the session.
The caller fails when it returns, and cannot take the write back if it raises. -/
theorem nested_call_breaks_caller :
    ((audited none).outcome = .error .sessionNotInitialized ∧ (audited none).refused = 1) ∧
      (audited (some (.application "rejected"))).sessions.committed = ["order", "audit"] ∧
      ¬ Atomic () true .initial (placeOrderAudited none) ∧
      ¬ Atomic () true .initial (placeOrderAudited (some (.application "rejected"))) := by
  refine ⟨⟨rfl, rfl⟩, rfl, ?_, ?_⟩
  · intro hatomic
    exact nomatch hatomic.available
  · intro hatomic
    exact nomatch hatomic.raised .sessionNotInitialized rfl

end Nesting

end Spakky.Sql
