import Spakky.Auth.Enforcement

/-!
Celery tasks of a task handler. `CeleryPostProcessor` registers the methods with a task
route or a schedule route. The endpoint of a method verifies the auth snapshot in the
headers of the task and evaluates the requirements of the class and of the method, and then
calls the plain function, past the aspects of the handler. It does neither for a method
without a task route.

The endpoint of a coroutine function has the same steps in the same order, run by
`asyncio.run`.
-/

namespace Spakky.Celery

open Effect Exec Auth

structure TaskAuthRequirementMetadata where
  kind : String
  ref : String
  resource : Option String := none
  action : Option String := none
  tenant : Option String := none
  deriving DecidableEq, Repr

structure TaskAuthMetadata where
  publicAccess : Bool := false
  requirements : List TaskAuthRequirementMetadata := []

def TaskAuthMetadata.isProtected (metadata : TaskAuthMetadata) : Bool :=
  0 < metadata.requirements.length

/-- The text of a member of the enumeration. -/
def kindText : AuthRequirementKind → String
  | .authenticated => "AUTHENTICATED"
  | .permission => "PERMISSION"
  | .policy => "POLICY"
  | .relation => "RELATION"
  | .role => "ROLE"
  | .scope => "SCOPE"

/-- `_task_auth_requirement_from_annotation` -/
def taskAuthRequirement (requirement : AuthRequirement) : TaskAuthRequirementMetadata where
  kind := kindText requirement.kind
  ref := requirement.ref
  resource := requirement.resource
  action := requirement.action
  tenant := requirement.tenant

/-- `collect_task_auth_metadata` -/
def collectTaskAuthMetadata (sources : List AuthAnnotations) : TaskAuthMetadata where
  publicAccess := sources.any (·.publicAccess)
  requirements := dedupeRequirements
    (sources.flatMap fun source => source.requirements.map taskAuthRequirement)

/-- The routes of a method, of which there may be several by mistake, and its auth
metadata. -/
structure TaskMethod where
  qualifiedName : String
  taskRoutes : Nat
  scheduleRoutes : Nat
  annotations : AuthAnnotations

/-- A class with its functions, inherited ones included. -/
structure HandlerType where
  annotations : AuthAnnotations
  functions : List TaskMethod

inductive TaskError (ε : Type) where
  | multipleAnnotationFound
  | authRequirementDenied (decision : AuthorizationDecision)
  | retry
  | raised (error : ε)

/-- The application of Celery: the registered endpoints, and the names in the beat
schedule. -/
structure CeleryApp where
  tasks : List (HandlerType × TaskMethod)
  beatSchedule : List String

/-- `get_or_none`, of which it matters whether there is an annotation. -/
def getOrNone {σ ε : Type} (routes : Nat) : Exec σ (TaskError ε) Bool :=
  if 1 < routes then raise .multipleAnnotationFound else pure (0 < routes)

/-- One round of the loop in `CeleryPostProcessor.post_process`. -/
def registerMethod {ε : Type} (podType : HandlerType) (method : TaskMethod) :
    Exec CeleryApp (TaskError ε) Unit := do
  let hasTask ← getOrNone method.taskRoutes
  let hasSchedule ← getOrNone method.scheduleRoutes
  if hasTask = false ∧ hasSchedule = false then return
  modify fun app => { app with tasks := app.tasks ++ [(podType, method)] }
  if hasSchedule then
    modify fun app => { app with beatSchedule := app.beatSchedule ++ [method.qualifiedName] }

/-- `CeleryPostProcessor.post_process`, for a Pod with these `TaskHandler` annotations. -/
def postProcess {ε : Type} : List HandlerType → Exec CeleryApp (TaskError ε) Unit
  | [] => pure ()
  | [podType] => forEach (registerMethod podType) podType.functions
  | _ => raise .multipleAnnotationFound

section Endpoint

variable {ε α : Type}

structure AuthInvocation where
  boundary : String
  operation : String
  attributes : List (String × Option String)

/-- What a snapshot verifier raises. -/
inductive SnapshotError (ε : Type) where
  | missing
  | invalid
  | expired
  | providerUnavailable
  | raised (error : ε)

inductive HeaderValue where
  | text (value : String)
  | other

/-- Something that happened while an endpoint was running. -/
inductive WorkerEvent where
  | verified (envelope : String) (authContext : AuthContext)
  | evaluated (requirement : TaskAuthRequirementMetadata) (authContext : AuthContext)
      (decision : AuthorizationDecision)
  | bodyRan

/-- The context values an endpoint sets, and what happened. -/
structure Worker where
  authContext : ContextValue := .absent
  taskContext : Bool := false
  traced : Bool := false
  events : List WorkerEvent := []

/-- What an endpoint depends on: the headers of the task, the providers, what
`current_task.retry` raises, the trace propagator, whether the handler can be obtained, and
what the method does. -/
structure Environment (ε α : Type) where
  headers : String → Option HeaderValue
  snapshotVerifier : Option (String → AuthInvocation → Except (SnapshotError ε) AuthContext)
  checkers : Checkers ε
  retry : AuthorizationDecision → Except (TaskError ε) Unit
  propagator : Option ((String → Option String) → Except ε Unit)
  handler : Except ε Unit
  body : Except ε α

variable (environment : Environment ε α)

def authContextSnapshotMetadataKey : String := "spakky.auth.context_snapshot"

/-- The headers that are strings. -/
def Environment.stringHeaders (key : String) : Option String :=
  match environment.headers key with
  | some (.text value) => some value
  | _ => none

def missingSnapshotDecision : AuthorizationDecision :=
  { state := .challenge, reasonCode := .snapshotMissing }

def invalidSnapshotDecision : AuthorizationDecision :=
  { state := .challenge, reasonCode := .snapshotInvalid }

def expiredSnapshotDecision : AuthorizationDecision :=
  { state := .challenge, reasonCode := .snapshotExpired }

def verificationProviderUnavailableDecision : AuthorizationDecision :=
  .error .verificationProviderUnavailable

def providerUnavailableDecision : AuthorizationDecision :=
  .error .internalError (some "Celery task auth provider is unavailable")

/-- `_verify_snapshot` -/
def verifySnapshot (invocation : AuthInvocation) :
    Option String → Except (TaskError ε) AuthContext
  | none => .error (.authRequirementDenied missingSnapshotDecision)
  | some envelope =>
    if envelope = "" then .error (.authRequirementDenied missingSnapshotDecision)
    else
      match environment.snapshotVerifier with
      | none => .error (.authRequirementDenied verificationProviderUnavailableDecision)
      | some verify =>
        match verify envelope invocation with
        | .ok authContext => .ok authContext
        | .error .missing => .error (.authRequirementDenied missingSnapshotDecision)
        | .error .invalid => .error (.authRequirementDenied invalidSnapshotDecision)
        | .error .expired => .error (.authRequirementDenied expiredSnapshotDecision)
        | .error .providerUnavailable =>
          .error (.authRequirementDenied verificationProviderUnavailableDecision)
        | .error (.raised error) => .error (.raised error)

/-- What a checker that may be missing answers. -/
def consultTask {Request : Type} (checker : Option (Request → Except ε AuthorizationDecision))
    (request : Request) : Except (TaskError ε) AuthorizationDecision :=
  match checker with
  | none => .ok providerUnavailableDecision
  | some check => (check request).mapError .raised

/-- `_evaluate_requirement` -/
def evaluateTaskRequirement (authContext : AuthContext)
    (requirement : TaskAuthRequirementMetadata) : Except (TaskError ε) AuthorizationDecision :=
  let checkers := environment.checkers
  if requirement.kind = "AUTHENTICATED" then .ok .allow
  else if requirement.kind = "PERMISSION" then
    consultTask checkers.permissionChecker
      { authContext, permission := requirement.ref, resource := requirement.resource,
        tenant := requirement.tenant }
  else if requirement.kind = "POLICY" then
    match requirement.resource, requirement.action with
    | some resource, some action =>
      consultTask checkers.authorizationPolicyEvaluator
        { authContext, resource, action, tenant := requirement.tenant }
    | _, _ => .ok providerUnavailableDecision
  else if requirement.kind = "RELATION" then
    match requirement.resource with
    | some resource =>
      consultTask checkers.relationChecker
        { authContext, relation := requirement.ref, resource, tenant := requirement.tenant }
    | none => .ok providerUnavailableDecision
  else if requirement.kind = "ROLE" then
    consultTask checkers.roleChecker
      { authContext, role := requirement.ref, tenant := requirement.tenant }
  else if requirement.kind = "SCOPE" then
    consultTask checkers.scopeChecker { authContext, scope := requirement.ref }
  else .ok providerUnavailableDecision

def record (event : WorkerEvent) : Exec Worker (TaskError ε) Unit :=
  modify fun worker => { worker with events := worker.events ++ [event] }

/-- One round of the loop over the requirements. -/
def enforceTask (authContext : AuthContext) (requirement : TaskAuthRequirementMetadata) :
    Exec Worker (TaskError ε) Unit := do
  let decision ← ofExcept (evaluateTaskRequirement environment authContext requirement)
  record (.evaluated requirement authContext decision)
  if decision.state ≠ .allow then raise (.authRequirementDenied decision)

def invocationOf (method : TaskMethod) : AuthInvocation where
  boundary := "task"
  operation := method.qualifiedName
  attributes :=
    [("auth_context_snapshot", environment.stringHeaders authContextSnapshotMetadataKey)]

/-- `seed_and_authorize_celery_task` -/
def seedAndAuthorizeCeleryTask (method : TaskMethod) (metadata : TaskAuthMetadata) :
    Exec Worker (TaskError ε) Unit := do
  if metadata.isProtected then
    let envelope := environment.stringHeaders authContextSnapshotMetadataKey
    let authContext ←
      ofExcept (verifySnapshot environment (invocationOf environment method) envelope)
    record (.verified (envelope.getD "") authContext)
    modify fun worker => { worker with authContext := .auth authContext }
    forEach (enforceTask environment authContext) metadata.requirements

/-- `CeleryPostProcessor._seed_and_authorize_task`. A failure that may pass is handed to
Celery, which raises in its turn. -/
def seedAndAuthorizeTask (handlerType : HandlerType) (method : TaskMethod) :
    Exec Worker (TaskError ε) Unit := do
  let hasRoute ← getOrNone method.taskRoutes
  if hasRoute then
    let metadata := collectTaskAuthMetadata [handlerType.annotations, method.annotations]
    match ← attempt (seedAndAuthorizeCeleryTask environment method metadata) with
    | .ok () => pure ()
    | .error (.authRequirementDenied decision) => do
        if decision.state = .error then ofExcept (environment.retry decision)
        raise (.authRequirementDenied decision)
    | .error error => raise error

/-- The part of an endpoint behind the check of the caller. -/
def runBody : Exec Worker (TaskError ε) α := do
  if let some extract := environment.propagator then
    ofExcept ((extract environment.stringHeaders).mapError .raised)
    modify fun worker => { worker with traced := true }
  ensure
    (do
      ofExcept (environment.handler.mapError .raised)
      record .bodyRan
      ofExcept (environment.body.mapError .raised))
    (if environment.propagator.isSome then
      modify fun worker => { worker with traced := false }
    else pure ())

/-- The endpoint that is registered for a method. -/
def endpoint (handlerType : HandlerType) (method : TaskMethod) : Exec Worker (TaskError ε) α := do
  modify fun worker => { worker with authContext := .absent, taskContext := false }
  modify fun worker => { worker with taskContext := true }
  seedAndAuthorizeTask environment handlerType method
  runBody environment

end Endpoint

end Spakky.Celery
