import Mathlib.Data.Rat.Defs
import Mathlib.Data.List.Range
import Spakky.Effect

/-!
The declarative half of `spakky.saga`: saga data, errors, strategies, flow
items and their normalization into execution units. Callbacks are user code.
Each one is a function of the number of callbacks invoked before it and of
the saga data it receives, so that one function covers every possible
behaviour of every later call of the same callable.

A normalized step carries its position in declaration order. The position
stands for the identity of the Python step object; no branch of the engine
reads it.
-/

namespace Spakky.Saga

open Effect

/-- The exceptions the engine tells apart. `exception` is any `Exception` of
user code that is none of the others; only `cancelledError` is not caught by
`except Exception`. -/
inductive PyError (ε : Type) where
  | exception (error : ε)
  | timeoutError
  | cancelledError
  | sagaStepTimeoutError
  | sagaCompensationFailedError (cause : PyError ε)
  | sagaFlowDefinitionError
  deriving DecidableEq, Repr

def PyError.isException {ε : Type} : PyError ε → Bool
  | .cancelledError => false
  | _ => true

/-- `AbstractSagaData`: the fields of a concrete subclass are the payload. -/
structure SagaData (π : Type) where
  sagaId : Nat
  authContextSnapshot : Option String
  payload : π
  deriving DecidableEq, Repr

/-- What one awaited callback does: it passes a number of suspension points
and then returns or raises. -/
structure Call (ε α : Type) where
  awaits : Nat
  outcome : Except (PyError ε) α

/-- An action also meets the clock of its own step timeout, which fires at
the suspension point after `stepExpiry` others, if it fires at all. -/
structure ActionCall (π ε : Type) extends Call ε (Option (SagaData π)) where
  stepExpiry : Option Nat := none

/-- A Python callable: the object itself, its `__name__` if it has one, and
what calling it does. -/
structure Callable (β F : Type) where
  object : β
  dunderName : Option String
  call : F

abbrev ActionFn (π ε β : Type) := Callable β (Nat → SagaData π → ActionCall π ε)

abbrev CompensateFn (π ε β : Type) := Callable β (Nat → SagaData π → Call ε Unit)

structure ExponentialBackoff where
  base : ℚ := 1
  deriving DecidableEq, Repr

def ExponentialBackoff.delayFor (backoff : ExponentialBackoff) (attempt : Nat) : ℚ :=
  backoff.base * 2 ^ (attempt - 1)

/-- `Compensate | Skip`, the strategies that may follow exhausted retries. -/
inductive ThenStrategy where
  | compensate
  | skip
  deriving DecidableEq, Repr

structure Retry where
  maxAttempts : Int := 3
  backoff : ExponentialBackoff := {}
  andThen : ThenStrategy := .compensate
  deriving DecidableEq, Repr

inductive ErrorStrategy where
  | compensate
  | skip
  | retry (policy : Retry)
  deriving DecidableEq, Repr

/-- The strategy that decides once no attempt is left. -/
def ErrorStrategy.last : ErrorStrategy → ThenStrategy
  | .compensate => .compensate
  | .skip => .skip
  | .retry policy => policy.andThen

structure SagaStep (π ε β : Type) where
  action : ActionFn π ε β
  onError : ErrorStrategy := .compensate
  timeout : Option ℚ := none
  authBoundary : Option β := none
  authOwnerType : Option β := none

structure Transaction (π ε β : Type) where
  action : ActionFn π ε β
  compensate : CompensateFn π ε β
  onError : ErrorStrategy := .compensate
  timeout : Option ℚ := none
  actionAuthBoundary : Option β := none
  actionAuthOwnerType : Option β := none
  compensateAuthBoundary : Option β := none
  compensateAuthOwnerType : Option β := none

inductive StepItem (π ε β : Type) where
  | sagaStep (step : SagaStep π ε β)
  | transaction (transaction : Transaction π ε β)

/-- An item of a flow; `unrecognized` is an object of any other type. -/
inductive FlowItem (π ε β : Type) where
  | step (item : StepItem π ε β)
  | parallel (items : List (StepItem π ε β))
  | callable (action : ActionFn π ε β)
  | unrecognized

structure SagaFlow (π ε β : Type) where
  items : List (FlowItem π ε β)
  sagaTimeout : Option ℚ := none
  compensationFailureHandler : Option (CompensateFn π ε β) := none

structure NormalizedStep (π ε β : Type) where
  position : Nat
  name : String
  action : ActionFn π ε β
  compensate : Option (CompensateFn π ε β)
  onError : ErrorStrategy
  stepTimeout : Option ℚ
  authBoundary : Option β
  authOwnerType : Option β
  compensateAuthBoundary : Option β
  compensateAuthOwnerType : Option β

inductive NormalizedItem (π ε β : Type) where
  | step (single : NormalizedStep π ε β)
  | parallel (group : List (NormalizedStep π ε β))

variable {π ε β : Type}

def unknownName : String := "<unknown>"

def normalizeStep (position : Nat) : StepItem π ε β → NormalizedStep π ε β
  | .sagaStep item =>
    { position := position
      name := item.action.dunderName.getD unknownName
      action := item.action
      compensate := none
      onError := item.onError
      stepTimeout := item.timeout
      authBoundary := item.authBoundary
      authOwnerType := item.authOwnerType
      compensateAuthBoundary := none
      compensateAuthOwnerType := none }
  | .transaction item =>
    { position := position
      name := item.action.dunderName.getD unknownName
      action := item.action
      compensate := some item.compensate
      onError := item.onError
      stepTimeout := item.timeout
      authBoundary := item.actionAuthBoundary
      authOwnerType := item.actionAuthOwnerType
      compensateAuthBoundary := item.compensateAuthBoundary
      compensateAuthOwnerType := item.compensateAuthOwnerType }

def normalizeCallable (position : Nat) (item : ActionFn π ε β) : NormalizedStep π ε β :=
  { position := position
    name := item.dunderName.getD unknownName
    action := item
    compensate := none
    onError := .compensate
    stepTimeout := none
    authBoundary := some item.object
    authOwnerType := none
    compensateAuthBoundary := none
    compensateAuthOwnerType := none }

/-- Children of a parallel group may only use the default strategy. -/
def normalizeParallel (position : Nat) :
    List (StepItem π ε β) → Except (PyError ε) (List (NormalizedStep π ε β))
  | [] => .ok []
  | child :: rest =>
    let normalized := normalizeStep position child
    if normalized.onError = .compensate then do
      let steps ← normalizeParallel (position + 1) rest
      return normalized :: steps
    else
      .error .sagaFlowDefinitionError

def normalize (position : Nat) :
    List (FlowItem π ε β) → Except (PyError ε) (List (NormalizedItem π ε β))
  | [] => .ok []
  | .step item :: rest => do
      let items ← normalize (position + 1) rest
      return .step (normalizeStep position item) :: items
  | .parallel children :: rest => do
      let steps ← normalizeParallel position children
      let items ← normalize (position + children.length) rest
      return .parallel steps :: items
  | .callable action :: rest => do
      let items ← normalize (position + 1) rest
      return .step (normalizeCallable position action) :: items
  | .unrecognized :: _ => .error .sagaFlowDefinitionError

def NormalizedItem.steps : NormalizedItem π ε β → List (NormalizedStep π ε β)
  | .step single => [single]
  | .parallel group => group

/-- All steps of a normalized flow in declaration order. -/
def declared (items : List (NormalizedItem π ε β)) : List (NormalizedStep π ε β) :=
  items.flatMap NormalizedItem.steps

@[simp] theorem declared_nil : declared ([] : List (NormalizedItem π ε β)) = [] := rfl

@[simp] theorem declared_cons (item : NormalizedItem π ε β) (items : List (NormalizedItem π ε β)) :
    declared (item :: items) = item.steps ++ declared items := rfl

variable (position : Nat)

@[simp] theorem normalizeStep_position (item : StepItem π ε β) :
    (normalizeStep position item).position = position := by
  cases item <;> rfl

variable (children : List (StepItem π ε β)) (steps : List (NormalizedStep π ε β))

/-- Children of a parallel group that normalizes are numbered in turn, and all
carry the default strategy. -/
theorem normalizeParallel_ok (hsteps : normalizeParallel position children = .ok steps) :
    steps.map (·.position) = List.range' position children.length ∧
      ∀ step ∈ steps, step.onError = .compensate := by
  induction children generalizing position steps with
  | nil =>
    cases hsteps
    exact ⟨rfl, nofun⟩
  | cons _ _ ih =>
    simp only [normalizeParallel] at hsteps
    split at hsteps
    · rename_i hdef
      obtain ⟨tail, hrest, hpure⟩ := except_bind_ok hsteps
      cases hpure
      obtain ⟨hpositions, hstrategies⟩ := ih (position + 1) tail hrest
      exact ⟨by simp [hpositions, List.range'_succ], List.forall_mem_cons.mpr ⟨hdef, hstrategies⟩⟩
    · cases hsteps

theorem normalizeParallel_error (error : PyError ε)
    (hsteps : normalizeParallel position children = .error error) :
    error = .sagaFlowDefinitionError := by
  induction children generalizing position with
  | nil => cases hsteps
  | cons _ _ ih =>
    simp only [normalizeParallel] at hsteps
    split at hsteps
    · rcases except_bind_error hsteps with hrest | ⟨_, _, hpure⟩
      · exact ih (position + 1) hrest
      · cases hpure
    · cases hsteps
      rfl

variable (flow : List (FlowItem π ε β))

/-- Normalization fails in one way only. -/
theorem normalize_error (error : PyError ε) (hitems : normalize position flow = .error error) :
    error = .sagaFlowDefinitionError := by
  induction flow generalizing position with
  | nil => cases hitems
  | cons item _ ih =>
    cases item with
    | step | callable =>
      rcases except_bind_error hitems with hrest | ⟨_, _, hpure⟩
      · exact ih (position + 1) hrest
      · cases hpure
    | parallel children =>
      rcases except_bind_error hitems with hsteps | ⟨_, _, hitems⟩
      · exact normalizeParallel_error position children error hsteps
      rcases except_bind_error hitems with hrest | ⟨_, _, hpure⟩
      · exact ih (position + children.length) hrest
      · cases hpure
    | unrecognized =>
      cases hitems
      rfl

variable (items : List (NormalizedItem π ε β))

/-- The v1 restriction on parallel groups, as normalization enforces it. -/
def DefaultGroups (items : List (NormalizedItem π ε β)) : Prop :=
  ∀ group, .parallel group ∈ items → ∀ step ∈ group, step.onError = .compensate

/-- Normalization numbers the declared steps consecutively. -/
theorem normalize_ok (hitems : normalize position flow = .ok items) :
    (∃ count, (declared items).map (·.position) = List.range' position count) ∧
      DefaultGroups items := by
  induction flow generalizing position items with
  | nil =>
    cases hitems
    exact ⟨⟨0, rfl⟩, nofun⟩
  | cons item _ ih =>
    cases item with
    | step | callable =>
      obtain ⟨tail, hrest, hpure⟩ := except_bind_ok hitems
      cases hpure
      obtain ⟨⟨count, hcount⟩, hgroups⟩ := ih (position + 1) tail hrest
      refine ⟨⟨count + 1, ?_⟩, fun group hgroup => hgroups group (by simpa using hgroup)⟩
      simp [NormalizedItem.steps, normalizeCallable, hcount, List.range'_succ]
    | parallel children =>
      obtain ⟨steps, hsteps, hitems⟩ := except_bind_ok hitems
      obtain ⟨tail, hrest, hpure⟩ := except_bind_ok hitems
      cases hpure
      obtain ⟨hkids, hdefault⟩ := normalizeParallel_ok position children steps hsteps
      obtain ⟨⟨count, hcount⟩, hgroups⟩ := ih (position + children.length) tail hrest
      refine ⟨⟨children.length + count, ?_⟩, fun group hgroup => ?_⟩
      · simp only [declared_cons, NormalizedItem.steps, List.map_append, hkids, hcount]
        rw [List.range'_append_1]
      · rcases List.mem_cons.mp hgroup with hhead | htail
        · cases hhead
          exact hdefault
        · exact hgroups group htail
    | unrecognized => cases hitems

theorem declared_nodup (hitems : normalize 0 flow = .ok items) :
    ((declared items).map (·.position)).Nodup := by
  obtain ⟨⟨_, hcount⟩, _⟩ := normalize_ok 0 flow items hitems
  rw [hcount]
  exact List.nodup_range'

end Spakky.Saga
