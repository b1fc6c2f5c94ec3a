import Spakky.Saga.Flow

/-!
`SagaExecutor`: forward execution with retries, step timeouts and parallel
groups, backward compensation, and the saga timeout around both.

Time is counted in suspension points of the executor's task. The schedule of
a run says after how many of them `asyncio.timeout` cancels the body, if it
does so before the body ends, and in which order the children of each
parallel group finish. Elapsed times and log lines are left out.

`ExecutorState.trace` records which callbacks were invoked and what came of
it. It is never read.
-/

namespace Spakky.Saga

open Effect Exec

inductive StepStatus where
  | committed
  | failed
  | compensated
  deriving DecidableEq, Repr

structure StepRecord where
  name : String
  status : StepStatus
  deriving DecidableEq, Repr

inductive SagaStatus where
  | started
  | running
  | compensating
  | completed
  | failed
  | timedOut
  deriving DecidableEq, Repr

structure SagaResult (π ε : Type) where
  status : SagaStatus
  data : SagaData π
  failedStep : Option String := none
  error : Option (PyError ε) := none
  history : List StepRecord := []

structure CompensableStep (π ε β : Type) where
  position : Nat
  name : String
  compensate : CompensateFn π ε β
  authBoundary : Option β
  authOwnerType : Option β

inductive Event (π ε : Type) where
  | attempted (position : Nat) (error : Option (PyError ε))
  | slept (delay : ℚ)
  | committed (position : Nat)
  | recovering
  | compensating (position : Nat) (data : SagaData π)
  | compensated (position : Nat)
  | compensationFailed (position : Nat) (error : PyError ε)
  | escalated (error : Option (PyError ε))
  deriving DecidableEq

structure ExecutorState (π ε β : Type) where
  data : SagaData π
  compensable : List (CompensableStep π ε β) := []
  history : List StepRecord := []
  calls : Nat := 0
  budget : Option Nat := none
  expired : Bool := false
  trace : List (Event π ε) := []

/-- `SagaAuthExecutionContext.authorize_step` asks synchronous provider ports;
an error is what they, or the refusal, raise. -/
structure SagaAuthExecutionContext (π ε β : Type) where
  authorizeStep : Nat → String → Option β → Option β → SagaData π → Option (PyError ε)

structure Schedule where
  deadline : Option Nat
  finishOrder : Nat → (count : Nat) → Equiv.Perm (Fin count)

structure SagaExecutor (π ε β : Type) where
  flow : SagaFlow π ε β
  data : SagaData π
  authContext : SagaAuthExecutionContext π ε β
  schedule : Schedule

abbrev SagaM (π ε β α : Type) := Exec (ExecutorState π ε β) (PyError ε) α

variable {π ε β α : Type}

def emit (event : Event π ε) : SagaM π ε β Unit :=
  modify fun s => { s with trace := s.trace ++ [event] }

/-- Pass suspension points of the executor's task. When the saga deadline
falls on one of them the task is cancelled there and the clock is used up. -/
def suspend (count : Nat) : SagaM π ε β Unit := fun s =>
  match s.budget with
  | none => (.ok (), s)
  | some left =>
    if count ≤ left then
      (.ok (), { s with budget := some (left - count) })
    else
      (.error .cancelledError, { s with budget := none, expired := true })

def await (call : Call ε α) : SagaM π ε β α := do
  suspend call.awaits
  ofExcept call.outcome

def takeCall : SagaM π ε β Nat := fun s => (.ok s.calls, { s with calls := s.calls + 1 })

def record (name : String) (status : StepStatus) : SagaM π ε β Unit :=
  modify fun s => { s with history := s.history ++ [⟨name, status⟩] }

def preserveAuthContextSnapshot (current data : SagaData π) : SagaData π :=
  if data.authContextSnapshot.isSome then data
  else if current.authContextSnapshot.isNone then data
  else { data with authContextSnapshot := current.authContextSnapshot }

def replaceData (result : Option (SagaData π)) : SagaM π ε β Unit :=
  modify fun s =>
    match result with
    | some data => { s with data := preserveAuthContextSnapshot s.data data }
    | none => s

def rememberCompensable (step : NormalizedStep π ε β) : SagaM π ε β Unit :=
  modify fun s =>
    match step.compensate with
    | none => s
    | some compensate =>
      { s with
        compensable := s.compensable ++
          [{ position := step.position
             name := step.name
             compensate := compensate
             authBoundary := step.compensateAuthBoundary
             authOwnerType := step.compensateAuthOwnerType }] }

def recordStepCommitted (step : NormalizedStep π ε β) : SagaM π ε β Unit := do
  record step.name .committed
  emit (.committed step.position)

def recordStepFailure (name : String) : SagaM π ε β Unit := record name .failed

section Executor

variable (executor : SagaExecutor π ε β)

def authorizeStep (name : String) (boundary ownerType : Option β) : SagaM π ε β Unit := do
  let call ← takeCall
  let data ← reads (·.data)
  match executor.authContext.authorizeStep call name boundary ownerType data with
  | none => pure ()
  | some error => raise error

/-- Await an action under its step timeout. The clock of the step, if it fires
first, turns into `SagaStepTimeoutError`; when both clocks fall on one
suspension point, the outer cancellation wins. -/
def awaitAction (stepTimeout : Option ℚ) (call : ActionCall π ε) :
    SagaM π ε β (Option (SagaData π)) :=
  match stepTimeout, call.stepExpiry with
  | some _, some passed =>
    if passed < call.awaits then do
      suspend (passed + 1)
      raise .sagaStepTimeoutError
    else
      await call.toCall
  | _, _ => await call.toCall

def invokeAction (action : ActionFn π ε β) (stepTimeout : Option ℚ) :
    SagaM π ε β (Option (SagaData π)) := do
  let index ← takeCall
  let data ← reads (·.data)
  awaitAction stepTimeout (action.call index data)

variable (step : NormalizedStep π ε β)

def invokeStepAction : SagaM π ε β (Option (SagaData π)) := do
  authorizeStep executor step.name step.authBoundary step.authOwnerType
  invokeAction step.action step.stepTimeout

def errorOf {α : Type} : Except (PyError ε) α → Option (PyError ε)
  | .ok _ => none
  | .error error => some error

/-- One attempt of a serial step. -/
def attemptStep : SagaM π ε β (Except (PyError ε) (Option (SagaData π))) := do
  let outcome ← attempt (invokeStepAction executor step)
  emit (.attempted step.position (errorOf outcome))
  return outcome

/-- What `_execute_serial_step` and `_apply_retry` do after a successful
attempt. -/
def commitStep (result : Option (SagaData π)) : SagaM π ε β Unit := do
  replaceData result
  recordStepCommitted step
  rememberCompensable step

inductive StrategyOutcome where
  | continue
  | compensateAndFail
  deriving DecidableEq, Repr

structure StrategyResult (ε : Type) where
  outcome : StrategyOutcome
  lastError : PyError ε

def ThenStrategy.outcome : ThenStrategy → StrategyOutcome
  | .skip => .continue
  | .compensate => .compensateAndFail

def sleep (delay : ℚ) : SagaM π ε β Unit := do
  emit (.slept delay)
  suspend 1

/-- The loop `for attempt in range(2, max_attempts + 1)` with `remaining`
iterations left. -/
def retryLoop (step : NormalizedStep π ε β) (retry : Retry) :
    Nat → Nat → PyError ε → SagaM π ε β (StrategyResult ε)
  | 0, _, lastError => pure ⟨retry.andThen.outcome, lastError⟩
  | remaining + 1, attempt, lastError => do
      sleep (retry.backoff.delayFor (attempt - 1))
      let outcome ← attemptStep executor step
      match outcome with
      | .error error =>
        if error.isException then do
          recordStepFailure step.name
          retryLoop step retry remaining (attempt + 1) error
        else
          raise error
      | .ok result => do
          commitStep step result
          return ⟨.continue, lastError⟩

def applyRetry (retry : Retry) (firstError : PyError ε) : SagaM π ε β (StrategyResult ε) :=
  retryLoop executor step retry (retry.maxAttempts - 1).toNat 2 firstError

def applyStrategy (firstError : PyError ε) : SagaM π ε β (StrategyResult ε) :=
  match step.onError with
  | .skip => pure ⟨.continue, firstError⟩
  | .retry retry => applyRetry executor step retry firstError
  | .compensate => pure ⟨.compensateAndFail, firstError⟩

/-- The name and error that end the saga, or `none` to go on. -/
abbrev Failure (ε : Type) := Option (String × PyError ε)

def executeSerialStep : SagaM π ε β (Failure ε) := do
  let outcome ← attemptStep executor step
  match outcome with
  | .error error =>
    if error.isException then do
      recordStepFailure step.name
      let strategy ← applyStrategy executor step error
      match strategy.outcome with
      | .continue => return none
      | .compensateAndFail => return some (step.name, strategy.lastError)
    else
      raise error
  | .ok result => do
      commitStep step result
      return none

/-- A child task is not the executor's task: the saga clock does not cancel it
at its own suspension points. -/
def shielded (body : SagaM π ε β α) : SagaM π ε β α := fun s =>
  let (result, t) := body { s with budget := none }
  (result, { t with budget := s.budget })

abbrev ChildResult (π ε β : Type) := NormalizedStep π ε β × Except (PyError ε) (Option (SagaData π))

def invokeChildren : List (NormalizedStep π ε β) → SagaM π ε β (List (ChildResult π ε β))
  | [] => pure []
  | step :: rest => do
      let outcome ← attempt (shielded (invokeStepAction executor step))
      let others ← invokeChildren rest
      return (step, outcome) :: others

def reportFinished : List (ChildResult π ε β) → SagaM π ε β Unit
  | [] => pure ()
  | (step, outcome) :: rest => do
      emit (.attempted step.position (errorOf outcome))
      reportFinished rest

/-- `asyncio.gather(..., return_exceptions=True)`: one suspension point of the
executor's task, unless the group is empty. A deadline that falls on it
leaves no mark of the group behind. -/
def gather (group : List (NormalizedStep π ε β)) : SagaM π ε β (List (ChildResult π ε β)) := do
  suspend (min 1 group.length)
  let outcomes ← invokeChildren executor group
  let index ← reads (·.calls)
  let finished := completions outcomes (executor.schedule.finishOrder index outcomes.length)
  reportFinished (finished.map Prod.snd)
  return collect finished

def settleChildren : List (ChildResult π ε β) → SagaM π ε β Unit
  | [] => pure ()
  | (step, .error _) :: rest => do
      recordStepFailure step.name
      settleChildren rest
  | (step, .ok _) :: rest => do
      recordStepCommitted step
      rememberCompensable step
      settleChildren rest

def firstFailure : List (ChildResult π ε β) → Failure ε
  | [] => none
  | (step, .error error) :: rest =>
    if error.isException then some (step.name, error) else firstFailure rest
  | (_, .ok _) :: rest => firstFailure rest

def cancelledChild : List (ChildResult π ε β) → Bool
  | [] => false
  | (_, .error error) :: rest => !error.isException || cancelledChild rest
  | (_, .ok _) :: rest => cancelledChild rest

def executeParallel (group : List (NormalizedStep π ε β)) : SagaM π ε β (Failure ε) := do
  let results ← gather executor group
  settleChildren results
  if cancelledChild results then
    raise .cancelledError
  else
    return firstFailure results

def executeItem : NormalizedItem π ε β → SagaM π ε β (Failure ε)
  | .parallel group => executeParallel executor group
  | .step single => executeSerialStep executor single

/-- The loop of `_run_items` up to the first failure. -/
def executeItems : List (NormalizedItem π ε β) → SagaM π ε β (Failure ε)
  | [] => pure none
  | item :: rest => do
      let failure ← executeItem executor item
      match failure with
      | some reason => return some reason
      | none => executeItems rest

def invokeCompensate (step : CompensableStep π ε β) : SagaM π ε β Unit := do
  let index ← takeCall
  let data ← reads (·.data)
  emit (.compensating step.position data)
  await (step.compensate.call index data)

def compensateStep (step : CompensableStep π ε β) : SagaM π ε β Unit := do
  authorizeStep executor step.name step.authBoundary step.authOwnerType
  invokeCompensate step
  record step.name .compensated
  emit (.compensated step.position)

/-- `compensation_failure_handler`, if the flow has one. -/
def escalate : SagaM π ε β Unit :=
  match executor.flow.compensationFailureHandler with
  | none => pure ()
  | some handler => do
      let index ← takeCall
      let data ← reads (·.data)
      let outcome ← attempt (await (handler.call index data))
      emit (.escalated (errorOf outcome))
      ofExcept outcome

def compensateEach : List (CompensableStep π ε β) → SagaM π ε β Unit
  | [] => pure ()
  | step :: rest => do
      let outcome ← attempt (compensateStep executor step)
      match outcome with
      | .ok _ => compensateEach rest
      | .error error =>
        if error.isException then do
          recordStepFailure step.name
          emit (.compensationFailed step.position error)
          escalate executor
          raise (.sagaCompensationFailedError error)
        else
          raise error

def runCompensation : SagaM π ε β Unit := do
  emit .recovering
  let steps ← reads (·.compensable)
  compensateEach executor steps.reverse

def sagaResult (status : SagaStatus) (failedStep : Option String)
    (error : Option (PyError ε)) : SagaM π ε β (SagaResult π ε) :=
  reads fun s =>
    { status := status
      data := s.data
      failedStep := failedStep
      error := error
      history := s.history }

def runItems (items : List (NormalizedItem π ε β)) : SagaM π ε β (SagaResult π ε) := do
  let failure ← executeItems executor items
  match failure with
  | some (name, error) => do
      runCompensation executor
      sagaResult .failed (some name) (some error)
  | none => sagaResult .completed none none

/-- `async with asyncio.timeout(...)`: the cancellation it caused surfaces as
`TimeoutError`, any other one stays what it is. -/
def withSagaTimeout (body : SagaM π ε β α) : SagaM π ε β α := fun s =>
  match body { s with budget := executor.schedule.deadline, expired := false } with
  | (.error .cancelledError, t) =>
    (.error (if t.expired then .timeoutError else .cancelledError), { t with budget := none })
  | (result, t) => (result, { t with budget := none })

def runWithSagaTimeout (items : List (NormalizedItem π ε β)) :
    SagaM π ε β (SagaResult π ε) := do
  let outcome ← attempt (withSagaTimeout executor (runItems executor items))
  match outcome with
  | .ok result => return result
  | .error .timeoutError => do
      runCompensation executor
      sagaResult .timedOut none none
  | .error error => raise error

def initialState : ExecutorState π ε β := { data := executor.data }

/-- `SagaExecutor.run`, with the state it leaves behind. -/
def run : Except (PyError ε) (SagaResult π ε) × ExecutorState π ε β :=
  match normalize 0 executor.flow.items with
  | .error error => (.error error, initialState executor)
  | .ok items =>
    match executor.flow.sagaTimeout with
    | none => runItems executor items (initialState executor)
    | some _ => runWithSagaTimeout executor items (initialState executor)

end Executor

end Spakky.Saga
