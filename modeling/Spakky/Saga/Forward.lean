import Spakky.Saga.Engine

/-!
What forward execution of a step does when no clock is running and no callback raises
`CancelledError`. `attemptsFrom` says it from the callbacks alone: each attempt asks for
authorization and then, if it is granted, calls the action, with the next numbers of
the call counter, and the first attempt that succeeds is the last. The executor's
step is exactly that.
-/

namespace Spakky.Saga

open Effect Exec List ExecutorState

variable {π ε β : Type} (trace : List (Event π ε))

/-- The compensate callbacks invoked, with the data each one received. -/
def invokedCompensations : List (Nat × SagaData π) :=
  trace.filterMap fun
    | .compensating position data => some (position, data)
    | _ => none

@[simp] theorem invokedCompensations_append (first second : List (Event π ε)) :
    invokedCompensations (first ++ second) =
      invokedCompensations first ++ invokedCompensations second := by
  simp [invokedCompensations]

/-- Events of forward execution. -/
def Event.isForward : Event π ε → Bool
  | .attempted _ _ => true
  | .slept _ => true
  | .committed _ => true
  | _ => false

theorem invokedCompensations_forward (events : List (Event π ε))
    (hfwd : ∀ event ∈ events, event.isForward = true) : invokedCompensations events = [] := by
  simp only [invokedCompensations, filterMap_eq_nil_iff]
  intro event hmem
  have hevent := hfwd event hmem
  cases event <;> simp_all [Event.isForward]

/-- No callback the executor can invoke raises `CancelledError`. -/
structure NeverCancels (executor : SagaExecutor π ε β) (steps : List (NormalizedStep π ε β)) :
    Prop where
  authorize : ∀ index name boundary ownerType data,
    executor.authContext.authorizeStep index name boundary ownerType data ≠
      some .cancelledError
  action : ∀ step ∈ steps, ∀ index data,
    (step.action.call index data).outcome ≠ .error .cancelledError
  compensate : ∀ step ∈ steps, ∀ compensate, step.compensate = some compensate →
    ∀ index data, (compensate.call index data).outcome ≠ .error .cancelledError
  handler : ∀ handler, executor.flow.compensationFailureHandler = some handler →
    ∀ index data, (handler.call index data).outcome ≠ .error .cancelledError

variable {executor : SagaExecutor π ε β}

theorem NeverCancels.mono {fewer more : List (NormalizedStep π ε β)}
    (hquiet : NeverCancels executor more) (hsub : ∀ step ∈ fewer, step ∈ more) :
    NeverCancels executor fewer where
  authorize := hquiet.authorize
  action := fun step hmem => hquiet.action step (hsub step hmem)
  compensate := fun step hmem => hquiet.compensate step (hsub step hmem)
  handler := hquiet.handler

theorem emit_run (event : Event π ε) (s : ExecutorState π ε β) :
    emit event s = (.ok (), { s with trace := s.trace ++ [event] }) := rfl

theorem recordStepFailure_run (name : String) (s : ExecutorState π ε β) :
    recordStepFailure name s = (.ok (), { s with history := s.history ++ [⟨name, .failed⟩] }) := rfl

/-- What is left of a clock after some suspension points, or `none` if it ran
out on one of them. -/
def spend (budget : Option Nat) (count : Nat) : Option (Option Nat) :=
  match budget with
  | none => some none
  | some left => if count ≤ left then some (some (left - count)) else none

theorem suspend_run (s : ExecutorState π ε β) (count : Nat) :
    suspend count s = match spend s.budget count with
      | some left => (.ok (), { s with budget := left })
      | none => (.error .cancelledError, { s with budget := none, expired := true }) := by
  obtain ⟨_, _, _, _, budget, _, _⟩ := s
  cases budget with
  | none => simp [suspend, spend]
  | some left => by_cases hleft : count ≤ left <;> simp [suspend, spend, hleft]

theorem await_run {α : Type} (s : ExecutorState π ε β) (call : Call ε α) :
    await call s = match spend s.budget call.awaits with
      | some left => (call.outcome, { s with budget := left })
      | none => (.error .cancelledError, { s with budget := none, expired := true }) := by
  cases hspend : spend s.budget call.awaits <;>
    simp [await, bind_run, suspend_run, hspend]

variable {s : ExecutorState π ε β}

theorem suspend_unbounded (hbud : s.budget = none) (count : Nat) :
    suspend count s = (.ok (), s) := by
  simp [suspend, hbud]

theorem await_unbounded {α : Type} (hbud : s.budget = none) (call : Call ε α) :
    await call s = (call.outcome, s) := by
  unfold await
  rw [bind_ok _ (suspend_unbounded hbud call.awaits)]
  rfl

theorem isException_of_ne_cancelled {error : PyError ε} (hne : error ≠ .cancelledError) :
    error.isException = true := by
  cases error <;> simp_all [PyError.isException]

/-- What a call of an action comes to if no clock but that of its step is running. -/
def ActionCall.ending (call : ActionCall π ε) (stepTimeout : Option ℚ) :
    Except (PyError ε) (Option (SagaData π)) :=
  match stepTimeout, call.stepExpiry with
  | some _, some passed =>
    if passed < call.awaits then .error .sagaStepTimeoutError else call.outcome
  | _, _ => call.outcome

theorem awaitAction_unbounded (hbud : s.budget = none) (stepTimeout : Option ℚ)
    (call : ActionCall π ε) : awaitAction stepTimeout call s = (call.ending stepTimeout, s) := by
  have hplain : await call.toCall s = (call.outcome, s) := await_unbounded hbud call.toCall
  cases stepTimeout with
  | none => exact hplain
  | some =>
    cases hexpiry : call.stepExpiry with
    | none => simpa only [awaitAction, ActionCall.ending, hexpiry] using hplain
    | some passed =>
      simp only [awaitAction, ActionCall.ending, hexpiry]
      split
      · rw [bind_ok _ (suspend_unbounded hbud _)]
        rfl
      · exact hplain

theorem ActionCall.ending_ne_cancelled {call : ActionCall π ε}
    (hne : call.outcome ≠ .error .cancelledError) (stepTimeout : Option ℚ) :
    call.ending stepTimeout ≠ .error .cancelledError := by
  unfold ActionCall.ending
  split
  · split
    · simp
    · exact hne
  · exact hne

section Attempts

variable (executor : SagaExecutor π ε β) (step : NormalizedStep π ε β) (data : SagaData π)

/-- One attempt of a step, after some number of callbacks: what comes of it, and the
number of callbacks then. The authorization is the next callback, and the action, if it
is granted, the one after that. -/
def attemptAt (calls : Nat) : Except (PyError ε) (Option (SagaData π)) × Nat :=
  match executor.authContext.authorizeStep calls step.name step.authBoundary step.authOwnerType
      data with
  | some error => (.error error, calls + 1)
  | none => ((step.action.call (calls + 1) data).ending step.stepTimeout, calls + 2)

/-- The attempts made: the errors of those that failed, what the action returned in the
one that succeeded, and the number of callbacks after them. -/
structure Attempts (π ε : Type) where
  errors : List (PyError ε)
  result : Option (Option (SagaData π))
  calls : Nat

/-- The attempts after one that failed. -/
def Attempts.afterError (later : Attempts π ε) (error : PyError ε) : Attempts π ε :=
  { later with errors := error :: later.errors }

/-- At most so many attempts, up to the first that succeeds. -/
def attemptsFrom : Nat → Nat → Attempts π ε
  | 0, calls => { errors := [], result := none, calls := calls }
  | remaining + 1, calls =>
    match attemptAt executor step data calls with
    | (.ok result, after) => { errors := [], result := some result, calls := after }
    | (.error error, after) => (attemptsFrom remaining after).afterError error

/-- The error of the last attempt, if none succeeded. -/
def Attempts.final (made : Attempts π ε) : Option (PyError ε) :=
  if made.result.isSome then none else made.errors.getLast?

variable {data}

theorem attemptAt_ne_cancelled {step : NormalizedStep π ε β}
    (hquiet : NeverCancels executor [step]) (data : SagaData π) (calls : Nat) :
    (attemptAt executor step data calls).1 ≠ .error .cancelledError := by
  unfold attemptAt
  split
  next error hdec =>
    intro hcancelled
    cases hcancelled
    exact hquiet.authorize _ _ _ _ _ hdec
  next => exact ActionCall.ending_ne_cancelled (hquiet.action step (by simp) _ _) _

section

variable {executor step} {calls after : Nat}

theorem isException_of_attemptAt (hquiet : NeverCancels executor [step]) {error : PyError ε}
    (hmade : attemptAt executor step data calls = (.error error, after)) :
    error.isException = true := by
  refine isException_of_ne_cancelled ?_
  rintro rfl
  have hne := attemptAt_ne_cancelled executor hquiet data calls
  rw [hmade] at hne
  exact hne rfl

theorem attemptsFrom_ok {result : Option (SagaData π)}
    (hmade : attemptAt executor step data calls = (.ok result, after)) (remaining : Nat) :
    attemptsFrom executor step data (remaining + 1) calls =
      { errors := [], result := some result, calls := after } := by
  rw [attemptsFrom, hmade]

theorem attemptsFrom_error {error : PyError ε}
    (hmade : attemptAt executor step data calls = (.error error, after)) (remaining : Nat) :
    attemptsFrom executor step data (remaining + 1) calls =
      (attemptsFrom executor step data remaining after).afterError error := by
  rw [attemptsFrom, hmade]

end

/-- No more attempts are made than allowed, and all of them if none succeeds. -/
structure Attempts.Within (made : Attempts π ε) (limit : Nat) : Prop where
  bounded : made.errors.length + (if made.result.isSome then 1 else 0) ≤ limit
  exhausted : made.result.isSome = false → made.errors.length = limit

theorem attemptsFrom_within (remaining calls : Nat) :
    (attemptsFrom executor step data remaining calls).Within remaining := by
  induction remaining generalizing calls with
  | zero => exact ⟨le_rfl, fun _ => rfl⟩
  | succ remaining ih =>
    cases hmade : attemptAt executor step data calls with
    | mk outcome after =>
      cases outcome with
      | ok =>
        rw [attemptsFrom_ok hmade]
        exact ⟨Nat.le_add_left _ _, nofun⟩
      | error =>
        obtain ⟨hlimit, hall⟩ := ih after
        rw [attemptsFrom_error hmade]
        refine ⟨?_, fun hnone => congrArg (· + 1) (hall hnone)⟩
        rw [Attempts.afterError, length_cons, Nat.add_right_comm]
        exact Nat.succ_le_succ hlimit

end Attempts

theorem invokeStepAction_unbounded (executor : SagaExecutor π ε β) (step : NormalizedStep π ε β)
    (hbud : s.budget = none) :
    invokeStepAction executor step s = ((attemptAt executor step s.data s.calls).1,
      { s with calls := (attemptAt executor step s.data s.calls).2 }) := by
  cases hdec : executor.authContext.authorizeStep s.calls step.name step.authBoundary
      step.authOwnerType s.data with
  | some error =>
    simp [invokeStepAction, authorizeStep, takeCall, bind_run, attemptAt, hdec]
  | none =>
    have hrun := awaitAction_unbounded (s := { s with calls := s.calls + 1 + 1 }) hbud
      step.stepTimeout (step.action.call (s.calls + 1) s.data)
    simp [invokeStepAction, authorizeStep, invokeAction, takeCall, bind_run, attemptAt, hdec, hrun]

theorem attemptStep_unbounded (executor : SagaExecutor π ε β) (step : NormalizedStep π ε β)
    (hbud : s.budget = none) {outcome : Except (PyError ε) (Option (SagaData π))} {after : Nat}
    (hattempt : attemptAt executor step s.data s.calls = (outcome, after)) :
    attemptStep executor step s =
      (.ok outcome, { s with
          calls := after
          trace := s.trace ++ [.attempted step.position (errorOf outcome)] }) := by
  have hrun := invokeStepAction_unbounded executor step hbud
  rw [hattempt] at hrun
  simp [attemptStep, bind_run, hrun, emit]

/-- The entry a committed step leaves on the compensable stack, if it has a
compensate callback. -/
def compensableOf (step : NormalizedStep π ε β) : List (CompensableStep π ε β) :=
  match step.compensate with
  | none => []
  | some compensate =>
    [{ position := step.position
       name := step.name
       compensate := compensate
       authBoundary := step.compensateAuthBoundary
       authOwnerType := step.compensateAuthOwnerType }]

variable (step : NormalizedStep π ε β)

/-- The compensable entries of a step, if any, carry its position. -/
theorem compensableOf_positions :
    ((compensableOf step).map (·.position)).Sublist [step.position] := by
  cases hcomp : step.compensate <;> simp [compensableOf, hcomp]

theorem rememberCompensable_run (s : ExecutorState π ε β) :
    rememberCompensable step s =
      (.ok (), { s with compensable := s.compensable ++ compensableOf step }) := by
  cases hcomp : step.compensate <;>
    simp [rememberCompensable, compensableOf, hcomp]

/-- The state after a step committed with the given data. -/
def ExecutorState.commit (s : ExecutorState π ε β) (step : NormalizedStep π ε β)
    (data : SagaData π) : ExecutorState π ε β :=
  { s with
    data := data
    history := s.history ++ [⟨step.name, .committed⟩]
    trace := s.trace ++ [.committed step.position]
    compensable := s.compensable ++ compensableOf step }

/-- The data after an action returned: it may have returned none. -/
def replaced (current : SagaData π) : Option (SagaData π) → SagaData π
  | some data => preserveAuthContextSnapshot current data
  | none => current

theorem commitStep_run (result : Option (SagaData π)) (s : ExecutorState π ε β) :
    commitStep step result s = (.ok (), s.commit step (replaced s.data result)) := by
  cases result <;>
    simp [commitStep, replaceData, recordStepCommitted, record, emit, bind_run,
      rememberCompensable_run, commit, replaced]

/-- The events of the retries from a given attempt on: one error for each
failed retry, and a commit if the last one succeeds. -/
def retryEvents (step : NormalizedStep π ε β) (retry : Retry) :
    Nat → List (PyError ε) → Bool → List (Event π ε)
  | _, [], false => []
  | attempt, [], true =>
    [.slept (retry.backoff.delayFor (attempt - 1)), .attempted step.position none,
      .committed step.position]
  | attempt, error :: errors, committed =>
    .slept (retry.backoff.delayFor (attempt - 1)) ::
      .attempted step.position (some error) ::
      retryEvents step retry (attempt + 1) errors committed

/-- The events of a serial step that failed with the given errors and then,
possibly, committed. -/
def serialEvents : List (PyError ε) → Bool → List (Event π ε)
  | [], _ => [.attempted step.position none, .committed step.position]
  | error :: errors, committed =>
    .attempted step.position (some error) ::
      match step.onError with
      | .retry retry => retryEvents step retry 2 errors committed
      | _ => []

def stepRecords (name : String) (errors : List (PyError ε)) (committed : Bool) : List StepRecord :=
  errors.map (fun _ => ⟨name, .failed⟩) ++ if committed then [⟨name, .committed⟩] else []

/-- The state after the attempts of a step, with the events that tell of them. -/
def ExecutorState.attempted (s : ExecutorState π ε β) (step : NormalizedStep π ε β)
    (events : List (Event π ε)) (made : Attempts π ε) : ExecutorState π ε β :=
  { s with
    data := made.result.elim s.data (replaced s.data)
    calls := made.calls
    history := s.history ++ stepRecords step.name made.errors made.result.isSome
    trace := s.trace ++ events
    compensable := s.compensable ++ if made.result.isSome then compensableOf step else [] }

/-- The loop makes the attempts that are left; it reports the last error. -/
theorem retryLoop_unbounded {step : NormalizedStep π ε β} (hquiet : NeverCancels executor [step])
    (retry : Retry) (remaining attempt : Nat) (lastError : PyError ε) (hbud : s.budget = none) :
    let made := attemptsFrom executor step s.data remaining s.calls
    retryLoop executor step retry remaining attempt lastError s =
      (.ok ⟨if made.result.isSome then .continue else retry.andThen.outcome,
          made.errors.getLastD lastError⟩,
        s.attempted step (retryEvents step retry attempt made.errors made.result.isSome) made) := by
  induction remaining generalizing attempt lastError s with
  | zero => simp [retryLoop, attemptsFrom, retryEvents, ExecutorState.attempted, stepRecords]
  | succ remaining ih =>
    let slept : ExecutorState π ε β :=
      { s with trace := s.trace ++ [.slept (retry.backoff.delayFor (attempt - 1))] }
    have hslept : sleep (retry.backoff.delayFor (attempt - 1)) s = (.ok (), slept) := by
      exact suspend_unbounded (s := slept) hbud 1
    cases hmade : attemptAt executor step s.data s.calls with
    | mk outcome after =>
      have hattempt : attemptStep executor step slept = _ :=
        attemptStep_unbounded (s := slept) executor step hbud hmade
      cases outcome with
      | error error =>
        have hcaught := isException_of_attemptAt hquiet hmade
        let failed : ExecutorState π ε β :=
          { slept with
            calls := after
            trace := slept.trace ++ [.attempted step.position (some error)]
            history := slept.history ++ [⟨step.name, .failed⟩] }
        have hlater := ih (attempt + 1) error (s := failed) hbud
        simp only [retryLoop]
        rw [bind_ok _ hslept, bind_ok _ hattempt, attemptsFrom_error hmade]
        simp only [hcaught, if_true]
        refine hlater.trans ?_
        obtain ⟨errors, result, calls⟩ := attemptsFrom executor step s.data remaining after
        cases result <;>
          simp [failed, slept, ExecutorState.attempted, Attempts.afterError, retryEvents,
            stepRecords, getLast?_cons]
      | ok result =>
        simp only [retryLoop]
        rw [bind_ok _ hslept, bind_ok _ hattempt, attemptsFrom_ok hmade]
        refine (bind_ok _ (commitStep_run step result _)).trans ?_
        simp [slept, commit, ExecutorState.attempted, retryEvents, stepRecords, errorOf]

/-- The failure a serial step reports: the error of its last attempt, unless
it committed or its strategy skips. -/
def failureOf (final : Option (PyError ε)) : Failure ε :=
  match step.onError.last, final with
  | .compensate, some error => some (step.name, error)
  | _, _ => none

theorem failureOf_none : failureOf step none = none := by
  unfold failureOf
  split <;> simp_all

/-- The number of attempts a strategy allows. -/
def attemptLimit : ErrorStrategy → Nat
  | .retry retry => (retry.maxAttempts - 1).toNat + 1
  | _ => 1

/-- A serial step makes the attempts its strategy allows, up to the first success, and
reports the error of the last one unless the strategy skips. -/
theorem executeSerialStep_unbounded {step : NormalizedStep π ε β}
    (hquiet : NeverCancels executor [step]) (hbud : s.budget = none) :
    let made := attemptsFrom executor step s.data (attemptLimit step.onError) s.calls
    executeSerialStep executor step s =
      (.ok (failureOf step made.final),
        s.attempted step (serialEvents step made.errors made.result.isSome) made) := by
  obtain ⟨limit, hlimit⟩ : ∃ limit, attemptLimit step.onError = limit + 1 := by
    cases step.onError <;> exact ⟨_, rfl⟩
  cases hmade : attemptAt executor step s.data s.calls with
  | mk outcome after =>
    have hattempt : attemptStep executor step s = _ :=
      attemptStep_unbounded executor step hbud hmade
    cases outcome with
    | ok result =>
      rw [hlimit, attemptsFrom_ok hmade]
      simp only [executeSerialStep]
      rw [bind_ok _ hattempt]
      refine (bind_ok _ (commitStep_run step result _)).trans ?_
      simp [commit, ExecutorState.attempted, serialEvents, stepRecords, errorOf, Attempts.final,
        failureOf_none]
    | error error =>
      have hcaught := isException_of_attemptAt hquiet hmade
      let failed : ExecutorState π ε β :=
        { s with
          calls := after
          trace := s.trace ++ [.attempted step.position (some error)]
          history := s.history ++ [⟨step.name, .failed⟩] }
      have hstart {result : StrategyResult ε} {t : ExecutorState π ε β}
          (happly : applyStrategy executor step error failed = (.ok result, t)) :
          executeSerialStep executor step s =
            (.ok (if result.outcome = .continue then none
              else some (step.name, result.lastError)), t) := by
        simp only [executeSerialStep]
        rw [bind_ok _ hattempt]
        simp only [hcaught, if_true]
        refine (bind_ok _ happly).trans ?_
        cases result.outcome <;> rfl
      cases hstrat : step.onError with
      | skip | compensate =>
        rw [hstart (t := failed) (by simp only [applyStrategy, hstrat]; rfl)]
        simp [attemptLimit, attemptsFrom_error hmade, attemptsFrom, Attempts.afterError, failed,
          ExecutorState.attempted, serialEvents, stepRecords, Attempts.final, failureOf, hstrat,
          ErrorStrategy.last]
      | retry retry =>
        have hloop := retryLoop_unbounded hquiet retry (retry.maxAttempts - 1).toNat 2 error
          (s := failed) hbud
        rw [hstart (by simpa only [applyStrategy, hstrat, applyRetry] using hloop), attemptLimit,
          attemptsFrom_error hmade]
        change (_, failed.attempted step _ (attemptsFrom executor step s.data _ after)) = _
        obtain ⟨errors, result, calls⟩ := attemptsFrom executor step s.data _ after
        cases result <;> cases hthen : retry.andThen <;>
          simp [failed, ExecutorState.attempted, Attempts.afterError, Attempts.final, serialEvents,
            stepRecords, getLast?_cons, failureOf, hstrat, ErrorStrategy.last, hthen,
            ThenStrategy.outcome]

theorem final_isNone (data : SagaData π) (calls : Nat) :
    let made := attemptsFrom executor step data (attemptLimit step.onError) calls
    made.final.isNone = made.result.isSome := by
  intro made
  have hall : made.result.isSome = false → made.errors.length = attemptLimit step.onError :=
    (attemptsFrom_within executor step (attemptLimit step.onError) calls).exhausted
  have hlimit : 0 < attemptLimit step.onError := by
    cases step.onError <;> exact Nat.succ_pos _
  rw [Attempts.final]
  cases hresult : made.result.isSome with
  | true => rfl
  | false =>
    have hsome : made.errors ≠ [] := by
      rw [← length_pos_iff, hall hresult]
      exact hlimit
    simp [getLast?_eq_some_getLast hsome]

variable (retry : Retry) (attempt : Nat) (errors : List (PyError ε)) (committed : Bool)

theorem retryEvents_forward :
    ∀ event ∈ retryEvents step retry attempt errors committed, event.isForward = true := by
  induction errors generalizing attempt with
  | nil => cases committed <;> simp [retryEvents, Event.isForward]
  | cons _ _ ih =>
    simp only [retryEvents, mem_cons, forall_eq_or_imp, Event.isForward, true_and]
    exact ih (attempt + 1)

theorem serialEvents_forward :
    ∀ event ∈ serialEvents step errors committed, event.isForward = true := by
  cases errors with
  | nil => simp [serialEvents, Event.isForward]
  | cons _ errors =>
    cases hstrat : step.onError with
    | retry retry =>
      simp only [serialEvents, hstrat, mem_cons, forall_eq_or_imp, Event.isForward, true_and]
      exact retryEvents_forward step retry 2 errors committed
    | skip | compensate => simp [serialEvents, hstrat, Event.isForward]

end Spakky.Saga
