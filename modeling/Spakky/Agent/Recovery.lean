import Spakky.Agent.State

/-!
Recovery of an agent execution from its evidence log. Checkpoints are appended
before and after every external action; `plan_agent_resume` reads the last one
back from the log and decides how the execution goes on.

Checkpoints are stored as JSON payloads. Reading back what was written gives
the checkpoint again, and a payload that was not written by a checkpoint may
be refused.
-/

namespace Spakky.Agent

inductive AgentActionKind where
  | modelCall
  | toolCall
  | approvalWait
  deriving DecidableEq, Repr

def AgentActionKind.value : AgentActionKind → String
  | .modelCall => "model_call"
  | .toolCall => "tool_call"
  | .approvalWait => "approval_wait"

def AgentActionKind.ofValue (value : String) : Option AgentActionKind :=
  [.modelCall, .toolCall, .approvalWait].find? fun kind => kind.value == value

inductive AgentActionBoundaryStage where
  | before
  | after
  deriving DecidableEq, Repr

def AgentActionBoundaryStage.value : AgentActionBoundaryStage → String
  | .before => "before"
  | .after => "after"

def AgentActionBoundaryStage.ofValue (value : String) : Option AgentActionBoundaryStage :=
  [.before, .after].find? fun stage => stage.value == value

inductive Idempotency where
  | idempotent
  | conditionallyIdempotent
  | nonIdempotent
  | unknown
  deriving DecidableEq, Repr

def Idempotency.value : Idempotency → String
  | .idempotent => "idempotent"
  | .conditionallyIdempotent => "conditionally_idempotent"
  | .nonIdempotent => "non_idempotent"
  | .unknown => "unknown"

def Idempotency.ofValue (value : String) : Option Idempotency :=
  [.idempotent, .conditionallyIdempotent, .nonIdempotent, .unknown].find? fun idempotency =>
    idempotency.value == value

inductive ToolResumeAction where
  | retry
  | requireApproval
  | skipCompleted
  deriving DecidableEq, Repr

/-- `ToolResumeMetadata.action_for_incomplete_boundary` -/
def actionForIncompleteBoundary : Idempotency → ToolResumeAction
  | .idempotent | .conditionallyIdempotent => .retry
  | .nonIdempotent | .unknown => .requireApproval

inductive AgentEvidenceKind where
  | actionBoundary
  | model
  | tool
  | context
  | contextManifest
  | contextDigest
  | contextOptimization
  | evaluation
  | approval
  | cancellation
  | delegation
  | outputGuard
  deriving DecidableEq, Repr

structure AgentEvidence where
  id : String
  kind : AgentEvidenceKind
  payload : JsonObject := []

/-- A checkpoint that can be correlated after a restart. -/
structure AgentActionBoundaryCheckpoint where
  actionId : String
  actionKind : AgentActionKind
  stage : AgentActionBoundaryStage
  idempotency : Idempotency := .unknown
  metadata : JsonObject := []
  actionId_nonblank : isBlank actionId = false

/-- The checkpoint as append-only evidence, once it has an id. -/
def AgentActionBoundaryCheckpoint.toEvidence (checkpoint : AgentActionBoundaryCheckpoint)
    (evidenceId : String) : AgentEvidence where
  id := evidenceId
  kind := .actionBoundary
  payload :=
    [("action_id", .string checkpoint.actionId),
      ("action_kind", .string checkpoint.actionKind.value),
      ("stage", .string checkpoint.stage.value),
      ("idempotency", .string checkpoint.idempotency.value),
      ("metadata", .object checkpoint.metadata)]

structure AgentResumeBoundary where
  actionId : String
  actionKind : AgentActionKind
  stage : AgentActionBoundaryStage
  idempotency : Idempotency
  evidenceId : String
  deriving DecidableEq, Repr

def invalidBoundary {α : Type} : Except AgentError α :=
  .error (.agentDefinitionError "Agent action boundary evidence is invalid")

def stringPayload (payload : JsonObject) (key : String) : Except AgentError String :=
  match payload.lookup key with
  | some (.string value) => if isBlank value then invalidBoundary else .ok value
  | _ => invalidBoundary

/-- A payload text that has to be a value of an enumeration. -/
def enumPayload {α : Type} (ofValue : String → Option α) (payload : JsonObject) (key : String) :
    Except AgentError α := do
  match ofValue (← stringPayload payload key) with
  | some value => pure value
  | none => invalidBoundary

def actionKindPayload (payload : JsonObject) : Except AgentError AgentActionKind :=
  enumPayload AgentActionKind.ofValue payload "action_kind"

def boundaryStagePayload (payload : JsonObject) : Except AgentError AgentActionBoundaryStage :=
  enumPayload AgentActionBoundaryStage.ofValue payload "stage"

def idempotencyPayload (payload : JsonObject) : Except AgentError Idempotency :=
  enumPayload Idempotency.ofValue payload "idempotency"

def boundaryFromEvidence (evidence : AgentEvidence) : Except AgentError AgentResumeBoundary := do
  let actionId ← stringPayload evidence.payload "action_id"
  let actionKind ← actionKindPayload evidence.payload
  let stage ← boundaryStagePayload evidence.payload
  let idempotency ← idempotencyPayload evidence.payload
  pure { actionId, actionKind, stage, idempotency, evidenceId := evidence.id }

/-- The loop over the reversed log. -/
def firstActionBoundary : List AgentEvidence → Except AgentError (Option AgentResumeBoundary)
  | [] => .ok none
  | artifact :: rest =>
    if artifact.kind ≠ .actionBoundary then firstActionBoundary rest
    else (boundaryFromEvidence artifact).map some

def lastActionBoundary (evidence : List AgentEvidence) :
    Except AgentError (Option AgentResumeBoundary) :=
  firstActionBoundary evidence.reverse

inductive AgentResumeAction where
  | start
  | skipCompleted
  | retry
  | requireHitl
  | notResumable
  deriving DecidableEq, Repr

structure AgentResumePlan where
  state : AgentState
  action : AgentResumeAction
  boundary : Option AgentResumeBoundary := none
  signals : List AgentSignal := []

def AgentResumePlan.canResumeAutomatically (plan : AgentResumePlan) : Bool :=
  plan.action = .start || plan.action = .skipCompleted || plan.action = .retry

def AgentStatus.isTerminal : AgentStatus → Bool
  | .completed | .failed | .cancelled => true
  | .created | .active | .interrupted | .cancelling => false

def interruptForHumanRecovery (state : AgentState) (boundary : AgentResumeBoundary) : AgentState :=
  { state with
    status := .interrupted
    transition := some .interrupted
    reason := some .recoveryRequiresHitl
    recoveryMarker := some boundary.actionId }

/-- The plan for an execution that is not terminal and has reached a boundary. -/
def planFromBoundary (state : AgentState) (boundary : AgentResumeBoundary)
    (signals : List AgentSignal) : AgentResumePlan :=
  match boundary.stage with
  | .after =>
    { state := { state with recoveryMarker := some boundary.actionId }
      action := .skipCompleted, boundary := some boundary, signals }
  | .before =>
    if boundary.actionKind = .approvalWait then
      { state := interruptForHumanRecovery state boundary
        action := .requireHitl, boundary := some boundary, signals }
    else if actionForIncompleteBoundary boundary.idempotency = .retry then
      { state := { state with recoveryMarker := some boundary.actionId }
        action := .retry, boundary := some boundary, signals }
    else
      { state := interruptForHumanRecovery state boundary
        action := .requireHitl, boundary := some boundary, signals }

/-- Restore the next resume action using only persisted state and evidence. -/
def planAgentResume (state : AgentState) (evidence : List AgentEvidence)
    (signals : List AgentSignal := []) : Except AgentError AgentResumePlan := do
  if state.status.isTerminal then
    pure { state, action := .notResumable, signals }
  else
    match ← lastActionBoundary evidence with
    | none => pure { state, action := .start, signals }
    | some boundary => pure (planFromBoundary state boundary signals)

section

variable {payload : JsonObject} {key text : String}
  (hfound : payload.lookup key = some (.string text)) (htext : isBlank text = false)
include hfound htext

theorem stringPayload_ok : stringPayload payload key = .ok text := by
  simp [stringPayload, hfound, htext]

theorem enumPayload_ok {α : Type} {ofValue : String → Option α} {value : α}
    (hvalue : ofValue text = some value) : enumPayload ofValue payload key = .ok value := by
  rw [enumPayload, stringPayload_ok hfound htext]
  simp only [bind, Except.bind, hvalue]
  rfl

end

theorem AgentActionKind.ofValue_value (kind : AgentActionKind) :
    isBlank kind.value = false ∧ ofValue kind.value = some kind := by
  cases kind <;> decide

theorem AgentActionBoundaryStage.ofValue_value (stage : AgentActionBoundaryStage) :
    isBlank stage.value = false ∧ ofValue stage.value = some stage := by
  cases stage <;> decide

theorem Idempotency.ofValue_value (idempotency : Idempotency) :
    isBlank idempotency.value = false ∧ ofValue idempotency.value = some idempotency := by
  cases idempotency <;> decide

/-- An incomplete action of this kind may not be repeated without asking. -/
def AgentResumeBoundary.isUnsafe (boundary : AgentResumeBoundary) : Bool :=
  boundary.actionKind = .approvalWait || boundary.idempotency = .nonIdempotent ||
    boundary.idempotency = .unknown

def AgentActionBoundaryCheckpoint.boundary (checkpoint : AgentActionBoundaryCheckpoint)
    (evidenceId : String) : AgentResumeBoundary where
  actionId := checkpoint.actionId
  actionKind := checkpoint.actionKind
  stage := checkpoint.stage
  idempotency := checkpoint.idempotency
  evidenceId := evidenceId

section

variable (state : AgentState) (boundary : AgentResumeBoundary) (signals : List AgentSignal)

/-- What a checkpoint has written can be read back. -/
theorem boundaryFromEvidence_toEvidence (checkpoint : AgentActionBoundaryCheckpoint)
    (evidenceId : String) :
    boundaryFromEvidence (checkpoint.toEvidence evidenceId) =
      .ok (checkpoint.boundary evidenceId) := by
  have haction : stringPayload (checkpoint.toEvidence evidenceId).payload "action_id" =
      .ok checkpoint.actionId :=
    stringPayload_ok (by simp [AgentActionBoundaryCheckpoint.toEvidence])
      checkpoint.actionId_nonblank
  have hkind : actionKindPayload (checkpoint.toEvidence evidenceId).payload =
      .ok checkpoint.actionKind :=
    enumPayload_ok (by simp [AgentActionBoundaryCheckpoint.toEvidence, List.lookup_cons])
      checkpoint.actionKind.ofValue_value.1 checkpoint.actionKind.ofValue_value.2
  have hstage : boundaryStagePayload (checkpoint.toEvidence evidenceId).payload =
      .ok checkpoint.stage :=
    enumPayload_ok (by simp [AgentActionBoundaryCheckpoint.toEvidence, List.lookup_cons])
      checkpoint.stage.ofValue_value.1 checkpoint.stage.ofValue_value.2
  have hidempotency : idempotencyPayload (checkpoint.toEvidence evidenceId).payload =
      .ok checkpoint.idempotency :=
    enumPayload_ok (by simp [AgentActionBoundaryCheckpoint.toEvidence, List.lookup_cons])
      checkpoint.idempotency.ofValue_value.1 checkpoint.idempotency.ofValue_value.2
  rw [boundaryFromEvidence, haction, hkind, hstage, hidempotency]
  rfl

/-- Only an incomplete unsafe action asks for a human. -/
theorem planFromBoundary_hitl_iff :
    (planFromBoundary state boundary signals).action = .requireHitl ↔
      boundary.stage = .before ∧ boundary.isUnsafe = true := by
  obtain ⟨_, actionKind, stage, idempotency, _⟩ := boundary
  cases stage with
  | after => simp [planFromBoundary]
  | before =>
    cases actionKind <;> cases idempotency <;>
      simp [planFromBoundary, actionForIncompleteBoundary, AgentResumeBoundary.isUnsafe]

/-- A plan leaves the status alone unless it asks for a human. -/
theorem planFromBoundary_status :
    (planFromBoundary state boundary signals).state.status =
      if (planFromBoundary state boundary signals).action = .requireHitl then .interrupted
      else state.status := by
  obtain ⟨_, actionKind, stage, idempotency, _⟩ := boundary
  cases stage <;> cases actionKind <;> cases idempotency <;> rfl

end

theorem planAgentResume_terminal {state : AgentState} (hterm : state.status.isTerminal = true)
    (evidence : List AgentEvidence) (signals : List AgentSignal) :
    planAgentResume state evidence signals = .ok { state, action := .notResumable, signals } := by
  rw [planAgentResume, if_pos hterm]
  rfl

/-- The plan of an execution that has not ended depends on the last boundary. -/
theorem planAgentResume_open {state : AgentState} (hopen : state.status.isTerminal = false)
    (evidence : List AgentEvidence) (signals : List AgentSignal) :
    planAgentResume state evidence signals =
      (lastActionBoundary evidence).map fun
        | none => { state, action := .start, signals }
        | some boundary => planFromBoundary state boundary signals := by
  rw [planAgentResume, if_neg (by simp [hopen])]
  cases lastActionBoundary evidence with
  | error => rfl
  | ok found => cases found <;> rfl

end Spakky.Agent
