import Spakky.Data.Transaction
import Spakky.Sql.Session

/-!
The SQLAlchemy transaction: every operation goes through the current session
of the shared manager. Whether the database refuses a commit is a parameter; a
rollback and the closing of a session do not fail.

For a single context it is enough to know whether its session is open and what
is pending in it; `exit_spec` says what leaving a transaction does to that.
-/

namespace Spakky.Sql

open Effect Exec Data Function

variable {κ ω : Type}

section Transaction

variable [DecidableEq κ]

def transaction (context : κ) (autocommit commitFails : Bool) :
    AbstractTransaction (Sessions κ ω) Failure where
  autocommitEnabled := autocommit
  initialise := SessionManager.openSession context
  dispose := SessionManager.close context
  commit := do
    let session ← SessionManager.session
    if commitFails then
      raise .commitFailed
    else
      modify (Access.commit.apply · session)
  rollback := do
    let _ ← Access.rollback.perform

end Transaction

/-- The context has no session, or one with these writes pending, which is the
current one. -/
structure Phase (context : κ) (state : Sessions κ ω) (session : Option (List ω)) : Prop where
  registered : state.Registered
  unmade : ∀ later, state.created ≤ later → state.pending later = []
  same : state.current = state.registry context
  pending : state.current.map state.pending = session

section Phases

variable {context : κ} {state : Sessions κ ω} {session : Option (List ω)}

theorem initial_phase : Phase context (.initial : Sessions κ ω) none :=
  ⟨⟨nofun, nofun⟩, fun _ _ => rfl, rfl, rfl⟩

theorem Phase.current_none (h : Phase context state none) : state.current = none :=
  Option.map_eq_none_iff.mp h.pending

variable {writes : List ω}

theorem Phase.current_some (h : Phase context state (some writes)) :
    ∃ current, state.current = some current ∧ state.pending current = writes ∧
      current < state.created := by
  obtain ⟨current, hcur, hpend⟩ := Option.map_eq_some_iff.mp h.pending
  refine ⟨current, hcur, hpend, ?_⟩
  rw [h.same] at hcur
  exact h.registered.made _ _ hcur

variable {current : SessionId}

theorem Phase.unmade_update (h : Phase context state session) (hmade : current < state.created)
    (writes : List ω) {later : SessionId} (hlater : state.created ≤ later) :
    update state.pending current writes later = [] := by
  rw [update_of_ne (Nat.lt_of_lt_of_le hmade hlater).ne']
  exact h.unmade later hlater

/-- What an access leaves pending of these writes. -/
def Access.leaves (writes : List ω) : Access ω → List ω
  | .read => writes
  | .flush write => writes ++ [write]
  | .commit | .rollback => []

/-- What an access makes durable of these writes. -/
def Access.commits (writes : List ω) : Access ω → List ω
  | .commit => writes
  | .read | .flush _ | .rollback => []

theorem apply_phase (h : Phase context state (some writes))
    (hcur : state.current = some current) (access : Access ω) :
    Phase context (access.apply state current) (some (access.leaves writes)) ∧
      (access.apply state current).committed = state.committed ++ access.commits writes := by
  obtain ⟨_, hsame, hpend, hmade⟩ := h.current_some
  rw [hcur, Option.some.injEq] at hsame
  subst hsame
  have hupdate (left : List ω) : state.current.map
      (update state.pending current left) = some left := by
    rw [hcur, Option.map_some, update_self]
  have hphase (left committed : List ω) : Phase context
      { state with pending := update state.pending current left, committed }
      (some left) :=
    ⟨⟨h.registered.made, h.registered.distinct⟩, fun _ => h.unmade_update hmade left, h.same,
      hupdate left⟩
  cases access with
  | read => exact ⟨h, (List.append_nil _).symm⟩
  | flush =>
    rw [Access.apply, hpend]
    exact ⟨hphase _ _, (List.append_nil _).symm⟩
  | commit =>
    rw [Access.apply, hpend]
    exact ⟨hphase _ _, rfl⟩
  | rollback => exact ⟨hphase _ _, (List.append_nil _).symm⟩

theorem perform_phase (h : Phase context state (some writes)) (access : Access ω) :
    ∃ current next, access.perform state = (.ok current, next) ∧
      Phase context next (some (access.leaves writes)) ∧
      next.committed = state.committed ++ access.commits writes := by
  obtain ⟨current, hcur, _⟩ := h.current_some
  refine ⟨current, access.apply state current, ?_, apply_phase h hcur access⟩
  rw [Access.perform_run, hcur]

theorem perform_closed (h : Phase context state none) (access : Access ω) :
    access.perform state = (.error .sessionNotInitialized, state) := by
  rw [Access.perform_run, h.current_none]

theorem session_open (hcur : state.current = some current) :
    SessionManager.session state = (.ok current, state) := by
  rw [SessionManager.session, reads_bind_run, hcur]
  rfl

variable [DecidableEq κ]

theorem openSession_phase (h : Phase context state session) :
    ∃ next, SessionManager.openSession context state = (.ok (), next) ∧
      Phase context next (some (session.getD [])) ∧ next.committed = state.committed := by
  have hscp := Sessions.scopedSession_spec h.registered context
  refine ⟨_, SessionManager.openSession_run context state, ?_, hscp.committed⟩
  generalize (state.scopedSession context).1 = opened at hscp ⊢
  generalize (state.scopedSession context).2 = next at hscp ⊢
  refine ⟨⟨hscp.registered.made, hscp.registered.distinct⟩, ?_, ?_, ?_⟩
  · intro later hlater
    show next.pending later = []
    rw [hscp.pending]
    exact h.unmade later (le_trans hscp.created hlater)
  · show some opened = next.registry context
    rw [hscp.registry, update_self]
  · show some (next.pending opened) = some (session.getD [])
    rw [hscp.pending, ← h.pending, h.same]
    cases hregistry : state.registry context with
    | none =>
      rw [hscp.fresh hregistry, h.unmade _ (le_refl _)]
      rfl
    | some current =>
      rw [hscp.kept current hregistry]
      rfl

theorem close_run (context : κ) (state : Sessions κ ω) :
    SessionManager.close context state =
      (.ok (), (((match state.current with
        | some current => state.discard current
        | none => state).remove context).assign none)) := by
  rw [SessionManager.close, reads_bind_run]
  cases state.current <;> rfl

theorem close_phase (h : Phase context state session) :
    ∃ next, SessionManager.close context state = (.ok (), next) ∧ Phase context next none ∧
      next.committed = state.committed := by
  -- the current session is emptied first
  obtain ⟨left, hleft, hphase, hcomm⟩ : ∃ left, SessionManager.close context state =
      (.ok (), (left.remove context).assign none) ∧ (∃ session, Phase context left session) ∧
        left.committed = state.committed := by
    refine ⟨_, close_run context state, ?_⟩
    cases hcur : state.current with
    | none => exact ⟨⟨session, h⟩, rfl⟩
    | some current =>
      have hopen : Phase context state (some (state.pending current)) :=
        ⟨h.registered, h.unmade, h.same, by rw [hcur, Option.map_some]⟩
      exact ⟨⟨_, (apply_phase hopen hcur .rollback).1⟩, rfl⟩
  obtain ⟨_, hphase⟩ := hphase
  have hreg := hphase.registered.remove context
  refine ⟨_, hleft, ⟨⟨hreg.made, hreg.distinct⟩, ?_, ?_, rfl⟩, ?_⟩
  · exact Sessions.remove_unmade hphase.registered hphase.unmade context
  · show none = (left.remove context).registry context
    rw [Sessions.remove_registry, update_self]
  · exact (Sessions.remove_committed left context).trans hcomm

/-- What leaving a transaction returns or raises, by the state of the session. -/
def exitOutcome (autocommit commitFails raised : Bool) (session : Option (List ω)) :
    Except Failure Unit :=
  match raised, session with
  | true, some _ => .ok ()
  | true, none => .error .sessionNotInitialized
  | false, some _ => if autocommit && commitFails then .error .commitFailed else .ok ()
  | false, none => if autocommit then .error .sessionNotInitialized else .ok ()

/-- What leaving a transaction commits. -/
def exitCommits (autocommit commitFails raised : Bool) (session : Option (List ω)) : List ω :=
  if autocommit && !commitFails && !raised then session.getD [] else []

theorem rollback_open (h : Phase context state (some writes)) (autocommit commitFails : Bool) :
    ∃ next, (transaction context autocommit commitFails).rollback state = (.ok (), next) ∧
      Phase context next (some []) ∧ next.committed = state.committed := by
  obtain ⟨_, next, hrun, hphase, hcomm⟩ := perform_phase h .rollback
  refine ⟨next, ?_, hphase, hcomm.trans (List.append_nil _)⟩
  exact bind_ok _ hrun

theorem rollback_closed (h : Phase context state none) (autocommit commitFails : Bool) :
    (transaction context autocommit commitFails).rollback state =
      (.error .sessionNotInitialized, state) :=
  bind_error _ (perform_closed h .rollback)

theorem commit_open (h : Phase context state (some writes)) (autocommit commitFails : Bool) :
    ∃ next, (transaction context autocommit commitFails).commit state =
        (if commitFails then .error .commitFailed else .ok (), next) ∧
      Phase context next (some (if commitFails then writes else [])) ∧
      next.committed = state.committed ++ if commitFails then [] else writes := by
  obtain ⟨_, hcur, _⟩ := h.current_some
  cases commitFails with
  | true =>
    exact ⟨state, bind_ok _ (session_open hcur), h, (List.append_nil _).symm⟩
  | false =>
    exact ⟨_, bind_ok _ (session_open hcur), apply_phase h hcur .commit⟩

theorem commit_closed (h : Phase context state none) (autocommit commitFails : Bool) :
    (transaction context autocommit commitFails).commit state =
      (.error .sessionNotInitialized, state) := by
  apply bind_error
  rw [SessionManager.session, reads_bind_run, h.current_none]
  rfl

/-- Leaving a transaction closes the session of the context in any case. -/
theorem exit_spec (h : Phase context state session) (autocommit commitFails : Bool)
    (error : Option Failure) :
    ∃ next, (transaction context autocommit commitFails).exit error state =
        (exitOutcome autocommit commitFails error.isSome session, next) ∧
      Phase context next none ∧
      next.committed =
        state.committed ++ exitCommits autocommit commitFails error.isSome session := by
  cases error with
  | some =>
    cases session with
    | none =>
      refine ⟨state, bind_error _ (rollback_closed h autocommit commitFails), h, ?_⟩
      simp [exitCommits]
    | some =>
      obtain ⟨_, hroll, hphase, hkept⟩ := rollback_open h autocommit commitFails
      obtain ⟨next, hclose, hclosed, hcomm⟩ := close_phase hphase
      refine ⟨next, (bind_ok _ hroll).trans hclose, hclosed, ?_⟩
      simp [exitCommits, hcomm, hkept]
  | none =>
    -- the commit with its rollback, before the session is closed
    obtain ⟨left, hleft, ⟨remaining, hphase⟩, hkept⟩ : ∃ left,
        onError (if autocommit then (transaction context autocommit commitFails).commit
            else pure ()) (fun _ => (transaction context autocommit commitFails).rollback) state =
          (exitOutcome autocommit commitFails false session, left) ∧
        (∃ remaining, Phase context left remaining) ∧
        left.committed = state.committed ++ exitCommits autocommit commitFails false session := by
      cases autocommit with
      | false =>
        refine ⟨state, ?_, ⟨session, h⟩, (List.append_nil _).symm⟩
        cases session <;> exact onError_ok rfl
      | true =>
        cases session with
        | none =>
          refine ⟨state, onError_fails (commit_closed h true commitFails)
            (rollback_closed h true commitFails), ⟨none, h⟩, ?_⟩
          simp [exitCommits]
        | some =>
          obtain ⟨next, hcommit, hnext, hcomm⟩ := commit_open h true commitFails
          cases commitFails with
          | false => exact ⟨next, onError_ok hcommit, ⟨_, hnext⟩, hcomm⟩
          | true =>
            obtain ⟨last, hroll, hlast, hsame⟩ := rollback_open hnext true true
            exact ⟨last, onError_error hcommit hroll, ⟨_, hlast⟩, hsame.trans hcomm⟩
    obtain ⟨next, hclose, hclosed, hcomm⟩ := close_phase hphase
    exact ⟨next, ensure_ok hleft hclose, hclosed, hcomm.trans hkept⟩

end Phases

end Spakky.Sql
