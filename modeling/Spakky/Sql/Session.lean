import Spakky.Effect
import Spakky.Machine

/-!
The session manager of the SQLAlchemy plugin and the sessions it hands out.
The scoped registry keeps one session for every context; beside it the manager
has a single field for the current session, which all contexts share.

A session collects the writes that were flushed through it. A commit makes
them durable, a rollback drops them, and so does closing the session. The
asynchronous manager has the same operations.
-/

namespace Spakky.Sql

open Effect Exec Machine Function

abbrev SessionId := Nat

/-- What a transactional call can raise: the error of the session manager, an
error of the database while it commits, and any error of the application. -/
inductive Failure where
  | sessionNotInitialized
  | commitFailed
  | application (name : String)
  deriving DecidableEq, Repr

/-- The shared manager, its registry, and the database behind the sessions.
`κ` are the context ids and `ω` the writes. -/
structure Sessions (κ ω : Type) where
  registry : κ → Option SessionId
  current : Option SessionId
  created : SessionId
  pending : SessionId → List ω
  committed : List ω

namespace Sessions

variable {κ ω : Type} [DecidableEq κ]

def initial : Sessions κ ω where
  registry := fun _ => none
  current := none
  created := 0
  pending := fun _ => []
  committed := []

/-- `scoped_session()`: the session of the context, made if there is none. -/
def scopedSession (state : Sessions κ ω) (context : κ) : SessionId × Sessions κ ω :=
  match state.registry context with
  | some session => (session, state)
  | none =>
    (state.created, { state with
        registry := update state.registry context (some state.created)
        created := state.created + 1 })

/-- `Session.rollback`, and what is left of a session after `Session.close`. -/
def discard (state : Sessions κ ω) (session : SessionId) : Sessions κ ω :=
  { state with pending := update state.pending session [] }

/-- `scoped_session.remove()`: the session of the context is closed and
forgotten. -/
def remove (state : Sessions κ ω) (context : κ) : Sessions κ ω :=
  match state.registry context with
  | some session =>
    { state.discard session with registry := update state.registry context none }
  | none => state

def assign (state : Sessions κ ω) (current : Option SessionId) : Sessions κ ω :=
  { state with current }

/-- Every registered session was made before, and no two contexts have the
same one. -/
structure Registered (state : Sessions κ ω) : Prop where
  made : ∀ context session, state.registry context = some session → session < state.created
  distinct : ∀ context other session, state.registry context = some session →
    state.registry other = some session → context = other

/-- What `scoped_session()` does: the context gets a session that no other
context has, and nothing else changes. -/
structure Scoped (state : Sessions κ ω) (context : κ) (session : SessionId)
    (next : Sessions κ ω) : Prop where
  registered : next.Registered
  registry : next.registry = update state.registry context (some session)
  made : session < next.created
  created : state.created ≤ next.created
  kept : ∀ registered, state.registry context = some registered → session = registered
  fresh : state.registry context = none → session = state.created
  current : next.current = state.current
  pending : next.pending = state.pending
  committed : next.committed = state.committed

variable {state : Sessions κ ω}

theorem scopedSession_spec (hreg : state.Registered) (context : κ) :
    Scoped state context (state.scopedSession context).1 (state.scopedSession context).2 := by
  rw [scopedSession]
  cases hctx : state.registry context with
  | some session =>
    have hregistry : state.registry = update state.registry context (some session) := by
      rw [← hctx, update_eq_self]
    refine ⟨hreg, hregistry, hreg.made _ _ hctx, le_refl _, ?_, ?_, rfl, rfl, rfl⟩
    · intro registered hsame
      exact Option.some.inj (hctx.symm.trans hsame)
    · intro hnone
      rw [hctx] at hnone
      cases hnone
  | none =>
    refine ⟨⟨?_, ?_⟩, rfl, Nat.lt_succ_self _, Nat.le_succ _, ?_, fun _ => rfl, rfl, rfl, rfl⟩
    · intro other session hother
      rcases update_cases hother with ⟨_, hnew⟩ | ⟨_, hother⟩
      · rw [Option.some.inj hnew]
        exact Nat.lt_succ_self _
      · exact Nat.lt_succ_of_lt (hreg.made _ _ hother)
    · intro first second session hfirst hsnd
      rcases update_cases hfirst with ⟨hsame, hnew⟩ | ⟨_, hfirst⟩ <;>
        rcases update_cases hsnd with ⟨hsame', hnew'⟩ | ⟨_, hsnd⟩
      · rw [hsame, hsame']
      · rw [hnew] at hsnd
        exact absurd (hreg.made _ _ hsnd) (Nat.lt_irrefl _)
      · rw [hnew'] at hfirst
        exact absurd (hreg.made _ _ hfirst) (Nat.lt_irrefl _)
      · exact hreg.distinct _ _ _ hfirst hsnd
    · intro registered hsame
      rw [hctx] at hsame
      cases hsame

section

variable (state : Sessions κ ω) (context : κ)

theorem remove_registry : (state.remove context).registry = update state.registry context none := by
  rw [remove]
  cases hctx : state.registry context with
  | some => rfl
  | none =>
    dsimp only
    rw [← hctx, update_eq_self]

@[simp] theorem remove_created : (state.remove context).created = state.created := by
  rw [remove]
  split <;> rfl

@[simp] theorem remove_current : (state.remove context).current = state.current := by
  rw [remove]
  split <;> rfl

@[simp] theorem remove_committed : (state.remove context).committed = state.committed := by
  rw [remove]
  split <;> rfl

end

/-- Removing the session of a context leaves the other sessions alone. -/
theorem remove_pending {context : κ} {session : SessionId}
    (hother : state.registry context ≠ some session) :
    (state.remove context).pending session = state.pending session := by
  rw [remove]
  cases hctx : state.registry context with
  | some removed =>
    have hne : session ≠ removed := by
      rintro rfl
      exact hother hctx
    exact update_of_ne hne _ _
  | none => rfl

theorem remove_unmade (hreg : state.Registered)
    (hunmade : ∀ later, state.created ≤ later → state.pending later = []) (context : κ)
    (later : SessionId) (hlater : (state.remove context).created ≤ later) :
    (state.remove context).pending later = [] := by
  rw [remove_created] at hlater
  refine (remove_pending ?_).trans (hunmade later hlater)
  intro hregistry
  exact Nat.not_lt_of_le hlater (hreg.made _ _ hregistry)

theorem Registered.remove (h : state.Registered) (context : κ) :
    (state.remove context).Registered := by
  constructor
  · intro other session hother
    rw [remove_registry] at hother
    rw [remove_created]
    exact h.made _ _ (update_other hother nofun).2
  · intro first second session hfirst hsnd
    rw [remove_registry] at hfirst hsnd
    exact h.distinct _ _ _ (update_other hfirst nofun).2 (update_other hsnd nofun).2

end Sessions

/-- What is done with a session that was read from the manager. -/
inductive Access (ω : Type) where
  | read
  | flush (write : ω)
  | commit
  | rollback
  deriving DecidableEq, Repr

namespace SessionManager

variable {κ ω : Type} [DecidableEq κ]

def initialized : Option SessionId → Except Failure SessionId
  | some session => .ok session
  | none => .error .sessionNotInitialized

def session : Exec (Sessions κ ω) Failure SessionId := do
  let current ← reads (·.current)
  ofExcept (initialized current)

def openSession (context : κ) : Exec (Sessions κ ω) Failure Unit := fun state =>
  let (session, state) := state.scopedSession context
  (.ok (), state.assign (some session))

theorem openSession_run (context : κ) (state : Sessions κ ω) :
    openSession context state =
      (.ok (), (state.scopedSession context).2.assign (some (state.scopedSession context).1)) := rfl

def close (context : κ) : Exec (Sessions κ ω) Failure Unit := do
  match ← reads (·.current) with
  | some session => modify (·.discard session)
  | none => pure ()
  modify (·.remove context)
  modify (·.assign none)

end SessionManager

namespace Access

variable {κ ω : Type}

def apply (state : Sessions κ ω) (session : SessionId) : Access ω → Sessions κ ω
  | .read => state
  | .flush write =>
    { state with
      pending := update state.pending session (state.pending session ++ [write]) }
  | .commit =>
    { state.discard session with committed := state.committed ++ state.pending session }
  | .rollback => state.discard session

/-- Reads the session of the manager and uses it. -/
def perform (access : Access ω) : Exec (Sessions κ ω) Failure SessionId := do
  let session ← SessionManager.session
  modify (access.apply · session)
  return session

theorem perform_run (access : Access ω) (state : Sessions κ ω) :
    access.perform state =
      match state.current with
      | some session => (.ok session, access.apply state session)
      | none => (.error .sessionNotInitialized, state) := by
  rw [perform, SessionManager.session, bind_then, reads_bind_run]
  cases state.current <;> rfl

end Access

end Spakky.Sql
