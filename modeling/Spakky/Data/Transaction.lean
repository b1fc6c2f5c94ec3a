import Spakky.Effect

/-!
`AbstractTransaction`: a context manager over four operations that a data
plugin implements. A method under `@transactional` runs within it.
-/

namespace Spakky.Data

open Effect Exec

structure AbstractTransaction (σ ε : Type) where
  autocommitEnabled : Bool
  initialise : Exec σ ε Unit
  dispose : Exec σ ε Unit
  commit : Exec σ ε Unit
  rollback : Exec σ ε Unit

namespace AbstractTransaction

variable {σ ε α : Type} (transaction : AbstractTransaction σ ε)

def enter : Exec σ ε Unit := transaction.initialise

/-- `__exit__` after a body that raised, or returned. -/
def exit (error : Option ε) : Exec σ ε Unit :=
  match error with
  | some _ => do
      transaction.rollback
      transaction.dispose
  | none =>
    ensure
      (onError (if transaction.autocommitEnabled then transaction.commit else pure ())
        fun _ => transaction.rollback)
      transaction.dispose

/-- `with self._transaction: return joinpoint()`, the `around` advice of the
transactional aspect. `__exit__` returns nothing, so that an error of the body
is raised again. -/
def around (joinpoint : Exec σ ε α) : Exec σ ε α := do
  transaction.enter
  match ← attempt joinpoint with
  | .ok result => do
      transaction.exit none
      return result
  | .error error => do
      transaction.exit (some error)
      raise error

variable {transaction} {Inv : σ → Prop}

theorem exit_maintains (hdispose : Maintains Inv transaction.dispose)
    (hcommit : Maintains Inv transaction.commit) (hroll : Maintains Inv transaction.rollback)
    (error : Option ε) : Maintains Inv (transaction.exit error) := by
  cases error with
  | some => exact hroll.bind fun _ => hdispose
  | none =>
    refine .ensure (.onError ?_ fun _ => hroll) hdispose
    cases transaction.autocommitEnabled with
    | false => exact .still fun _ => rfl
    | true => exact hcommit

/-- What the body of an entered transaction establishes and leaving it keeps
holds in the end. -/
theorem around_after (hexit : ∀ error, Maintains Inv (transaction.exit error))
    {joinpoint : Exec σ ε α} {s t : σ} (henter : transaction.initialise s = (.ok (), t))
    (hbody : Inv (joinpoint t).2) : Inv (transaction.around joinpoint s).2 := by
  have hrun : transaction.around joinpoint s = _ := bind_ok _ henter
  rw [hrun, attempt_bind_run]
  cases (joinpoint t).1 with
  | ok =>
    apply Maintains.bind (hexit none) _ _ hbody
    exact fun _ => Maintains.still fun _ => rfl
  | error error =>
    apply Maintains.bind (hexit (some error)) _ _ hbody
    exact fun _ => Maintains.still fun _ => rfl

theorem around_refused {joinpoint : Exec σ ε α} {s t : σ} {error : ε}
    (henter : transaction.initialise s = (.error error, t)) :
    transaction.around joinpoint s = (.error error, t) :=
  bind_error _ henter

variable (transaction)

inductive Operation where
  | commit
  | rollback
  | dispose
  deriving DecidableEq

/-- Logs the call of an operation with what came of it. -/
def logged (operation : Operation) (x : Exec σ ε Unit) :
    Exec (σ × List (Operation × Except ε Unit)) ε Unit :=
  fun s => ((x s.1).1, (x s.1).2, s.2 ++ [(operation, (x s.1).1)])

def unlogged (x : Exec σ ε α) : Exec (σ × List (Operation × Except ε Unit)) ε α :=
  fun s => ((x s.1).1, (x s.1).2, s.2)

def recorded : AbstractTransaction (σ × List (Operation × Except ε Unit)) ε where
  autocommitEnabled := transaction.autocommitEnabled
  initialise := unlogged transaction.initialise
  dispose := logged .dispose transaction.dispose
  commit := logged .commit transaction.commit
  rollback := logged .rollback transaction.rollback

/-- A transaction is disposed of once, unless its body raises and the rollback
does, too. -/
theorem around_cleanup {joinpoint : Exec σ ε α} {s t u : σ} {outcome : Except ε α}
    (henter : transaction.initialise s = (.ok (), t)) (hbody : joinpoint t = (outcome, u)) :
    ∃ left final log, transaction.recorded.around (unlogged joinpoint) (s, []) =
        (left, final, log) ∧
      (log.countP (·.1 = .dispose) = 1 ↔ ¬ ((∃ error, outcome = .error error) ∧
          ∃ error, (transaction.rollback u).1 = .error error)) ∧
      ((∃ error, outcome = .error error) → ∀ result, (.commit, result) ∉ log) ∧
      log.countP (·.1 = .rollback) ≤ 1 ∧
      ((∃ result, (.rollback, result) ∈ log) ↔
        (∃ error, outcome = .error error) ∨ ∃ error, (.commit, .error error) ∈ log) ∧
      (∀ error, left = .error error → outcome = .error error ∨ (.commit, .error error) ∈ log ∨
        ∃ raised, (.rollback, .error raised) ∈ log ∨ (.dispose, .error raised) ∈ log) ∧
      ∀ error, outcome = .error error ∨ (.commit, .error error) ∈ log →
        (∀ raised, (.rollback, .error raised) ∉ log) →
          (∀ raised, (.dispose, .error raised) ∉ log) → left = .error error := by
  have henters : transaction.recorded.enter (s, []) = (.ok (), t, []) := by
    simp [enter, recorded, unlogged, henter]
  have hrun : transaction.recorded.around (unlogged joinpoint) (s, []) = _ := bind_ok _ henters
  rw [hrun, attempt_bind_run]
  simp only [unlogged, hbody]
  refine ⟨_, _, _, rfl, ?_⟩
  cases outcome with
  | error =>
    cases hroll : transaction.rollback u with
    | mk result v =>
      cases hdispose : transaction.dispose v with
      | mk disposed =>
        cases result <;> cases disposed <;>
          simp [exit, recorded, logged, bind_run, hroll, hdispose]
  | ok =>
    cases hauto : transaction.autocommitEnabled with
    | false =>
      cases hdispose : transaction.dispose u with
      | mk disposed =>
        cases disposed <;>
          simp [exit, recorded, logged, bind_run, onError, ensure, hauto, hdispose]
    | true =>
      cases hcommit : transaction.commit u using exec_cases with
      | ok _ v =>
        cases hdispose : transaction.dispose v with
        | mk disposed =>
          cases disposed <;>
            simp [exit, recorded, logged, bind_run, onError, ensure, hauto, hcommit, hdispose]
      | error _ v =>
        cases hroll : transaction.rollback v with
        | mk result w =>
          cases hdispose : transaction.dispose w with
          | mk disposed =>
            cases result <;> cases disposed <;>
              simp [exit, recorded, logged, bind_run, onError, ensure, hauto, hcommit, hroll,
                hdispose]

/-- Its rollback fails. -/
def stubborn : AbstractTransaction Unit Unit where
  autocommitEnabled := true
  initialise := pure ()
  dispose := pure ()
  commit := pure ()
  rollback := raise ()

theorem dispose_skipped :
    stubborn.recorded.around (unlogged (raise () : Exec Unit Unit Unit)) ((), []) =
      (.error (), (), [(.rollback, .error ())]) :=
  rfl

theorem around_cleanup_stubborn :
    ∃ left final log, stubborn.recorded.around (unlogged (pure ())) ((), []) =
      (left, final, log) ∧ log.countP (·.1 = .dispose) = 1 := by
  obtain ⟨left, final, log, hrun, hdispose, _⟩ :=
    stubborn.around_cleanup rfl (rfl : (pure () : Exec Unit Unit Unit) () = (.ok (), ()))
  exact ⟨left, final, log, hrun, hdispose.mpr fun hraised => nomatch hraised.1⟩

end AbstractTransaction

end Spakky.Data
