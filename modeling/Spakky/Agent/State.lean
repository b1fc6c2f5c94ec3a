import Spakky.Agent.Types

/-!
The materialized state of an agent execution and the operations of
`cancellation` and `approval` that rewrite it: a CANCEL signal begins a
cancellation, a cleanup report completes it, and an approval decision, parsed
from a signal, is materialized as the state it leads to.

Timestamps are numbers. Fields of signals and evidence that no operation
reads are left out.
-/

namespace Spakky.Agent

inductive AgentStatus where
  | created
  | active
  | interrupted
  | cancelling
  | completed
  | failed
  | cancelled
  deriving DecidableEq, Repr

inductive AgentStateTransition where
  | pending
  | running
  | waitingApproval
  | cancelling
  | cancelled
  | completed
  | failed
  | timedOut
  | interrupted
  deriving DecidableEq, Repr

inductive AgentStateReason where
  | approvalRequired
  | approvalRejected
  | approvalDeferred
  | executionFailed
  | userInterrupted
  | timeout
  | cancellationRequested
  | cancellationCleanupFailed
  | recoveryRequiresHitl
  deriving DecidableEq, Repr

/-- Materialized state for a long-running agent execution. The check of
`__post_init__` that no count is negative is the type of the count. -/
structure AgentState where
  id : String
  agentType : String
  status : AgentStatus
  transition : Option AgentStateTransition := none
  reason : Option AgentStateReason := none
  currentActivity : Option String := none
  inputRef : Option String := none
  outputRef : Option String := none
  pendingSignalCount : Nat := 0
  lastEventCursor : Option String := none
  recoveryMarker : Option String := none
  metadata : JsonObject := []
  createdAt : Option Nat := none
  updatedAt : Option Nat := none

inductive AgentSignalKind where
  | userMessage
  | approvalDecision
  | cancel
  | pause
  | resume
  | steeringInstruction
  | externalEvent
  | schedulerWakeUp
  deriving DecidableEq, Repr

structure AgentSignal where
  id : String
  agentStateId : String
  kind : AgentSignalKind
  payload : JsonObject := []

/-- The text of an optional one, or `None`. -/
def JsonValue.ofOption : Option String → JsonValue
  | some text => .string text
  | none => .null

/-- One entry more in a copy of a dictionary, in the place of an old one if the
key is there. -/
def putEntry (key : String) (value : JsonValue) : JsonObject → JsonObject
  | [] => [(key, value)]
  | (k, v) :: entries =>
    if k = key then (k, value) :: entries else (k, v) :: putEntry key value entries

section Cancellation

inductive AgentCancellationTargetKind where
  | modelStream
  | toolExecution
  | delegateExecution
  deriving DecidableEq, Repr

def AgentCancellationTargetKind.value : AgentCancellationTargetKind → String
  | .modelStream => "model_stream"
  | .toolExecution => "tool_execution"
  | .delegateExecution => "delegate_execution"

inductive AgentCancellationCleanupStatus where
  | succeeded
  | failed
  | skipped
  deriving DecidableEq, Repr

def AgentCancellationCleanupStatus.value : AgentCancellationCleanupStatus → String
  | .succeeded => "succeeded"
  | .failed => "failed"
  | .skipped => "skipped"

structure AgentCancellationCleanupResult where
  targetKind : AgentCancellationTargetKind
  targetRef : String
  status : AgentCancellationCleanupStatus
  reason : Option String := none
  errorCode : Option String := none
  message : Option String := none
  metadata : JsonObject := []

def AgentCancellationCleanupResult.failedCleanup (result : AgentCancellationCleanupResult) : Bool :=
  result.status = .failed

def AgentCancellationCleanupResult.toPayload (result : AgentCancellationCleanupResult) :
    JsonObject :=
  [("target_kind", .string result.targetKind.value), ("target_ref", .string result.targetRef),
    ("status", .string result.status.value), ("reason", .ofOption result.reason),
    ("error_code", .ofOption result.errorCode), ("message", .ofOption result.message),
    ("metadata", .object result.metadata)]

structure AgentCancellationCleanupReport where
  stateId : String
  signalId : String
  outcomes : List AgentCancellationCleanupResult := []

def AgentCancellationCleanupReport.cleanupSucceeded (report : AgentCancellationCleanupReport) :
    Bool :=
  !report.outcomes.any AgentCancellationCleanupResult.failedCleanup

def AgentCancellationCleanupReport.toPayload (report : AgentCancellationCleanupReport) :
    JsonObject :=
  [("state_id", .string report.stateId), ("signal_id", .string report.signalId),
    ("cleanup_succeeded", .boolean report.cleanupSucceeded),
    ("outcomes", .array (report.outcomes.map fun outcome => .object outcome.toPayload))]

def optionalString (payload : JsonObject) (key : String) : Option String :=
  match payload.lookup key with
  | some (.string value) => some value
  | _ => none

def requireCancelSignal (signal : AgentSignal) : Except AgentError Unit :=
  if signal.kind = .cancel then .ok ()
  else .error (.agentDefinitionError "Agent cancellation requires a CANCEL signal")

def requireSignalMatchesState (state : AgentState) (signal : AgentSignal) :
    Except AgentError Unit :=
  if signal.agentStateId = state.id then .ok ()
  else .error (.agentDefinitionError "Agent cancellation signal must belong to state")

/-- Materialize receipt of a CANCEL signal as CANCELLING state. -/
def beginAgentCancellation (state : AgentState) (signal : AgentSignal) :
    Except AgentError AgentState := do
  requireCancelSignal signal
  requireSignalMatchesState state signal
  pure { state with
    status := .cancelling
    transition := some .cancelling
    reason := some .cancellationRequested
    metadata := state.metadata
      |> putEntry "cancellation_signal_id" (.string signal.id)
      |> putEntry "cancellation_reason" (.ofOption (optionalString signal.payload "reason"))
      |> putEntry "cancellation_requested_by"
        (.ofOption (optionalString signal.payload "requested_by")) }

/-- Resolve CANCELLING state into CANCELLED or FAILED cleanup outcome. -/
def completeAgentCancellation (state : AgentState) (report : AgentCancellationCleanupReport) :
    Except AgentError AgentState :=
  if state.id ≠ report.stateId then
    .error (.agentDefinitionError "Agent cancellation report state id mismatch")
  else
    let metadata := putEntry "cancellation_cleanup" (.object report.toPayload) state.metadata
    if report.cleanupSucceeded then
      .ok { state with
        status := .cancelled
        transition := some .cancelled
        reason := some .cancellationRequested
        metadata }
    else
      .ok { state with
        status := .failed
        transition := some .failed
        reason := some .cancellationCleanupFailed
        metadata }

variable {state : AgentState} {signal : AgentSignal}

/-- A CANCEL signal of the same execution is accepted, whatever the status. -/
theorem beginAgentCancellation_accepted (hkind : signal.kind = .cancel)
    (hid : signal.agentStateId = state.id) :
    ∃ changed, beginAgentCancellation state signal = .ok changed ∧
      changed.status = .cancelling := by
  rw [beginAgentCancellation, requireCancelSignal, if_pos hkind, requireSignalMatchesState,
    if_pos hid]
  exact ⟨_, rfl, rfl⟩

theorem beginAgentCancellation_refused
    (href : ¬ (signal.kind = .cancel ∧ signal.agentStateId = state.id)) :
    ∃ error, beginAgentCancellation state signal = .error error := by
  by_cases hkind : signal.kind = .cancel
  · have hid : signal.agentStateId ≠ state.id := fun hid => href ⟨hkind, hid⟩
    rw [beginAgentCancellation, requireCancelSignal, if_pos hkind, requireSignalMatchesState,
      if_neg hid]
    exact ⟨_, rfl⟩
  · rw [beginAgentCancellation, requireCancelSignal, if_neg hkind]
    exact ⟨_, rfl⟩

variable {report : AgentCancellationCleanupReport}

/-- A report of the same execution ends it, whatever the status. -/
theorem completeAgentCancellation_accepted (hid : state.id = report.stateId) :
    ∃ changed, completeAgentCancellation state report = .ok changed ∧
      changed.status = if report.cleanupSucceeded then .cancelled else .failed := by
  rw [completeAgentCancellation, if_neg (not_not.mpr hid)]
  cases report.cleanupSucceeded
  · exact ⟨_, rfl, rfl⟩
  · exact ⟨_, rfl, rfl⟩

theorem completeAgentCancellation_refused (hid : state.id ≠ report.stateId) :
    ∃ error, completeAgentCancellation state report = .error error := by
  rw [completeAgentCancellation, if_pos hid]
  exact ⟨_, rfl⟩

end Cancellation

inductive ApprovalDecision where
  | approve
  | reject
  | modify
  | defer
  | cancel
  deriving DecidableEq, Repr

def ApprovalDecision.value : ApprovalDecision → String
  | .approve => "approve"
  | .reject => "reject"
  | .modify => "modify"
  | .defer => "defer"
  | .cancel => "cancel"

/-- The decision of a value, as the enumeration class is called. -/
def ApprovalDecision.ofValue (value : String) : Option ApprovalDecision :=
  [.approve, .reject, .modify, .defer, .cancel].find? fun decision => decision.value == value

structure AgentApprovalDecisionOutcome where
  requestId : String
  decision : ApprovalDecision
  status : AgentStatus
  transition : AgentStateTransition
  reason : Option AgentStateReason := none
  modifiedPayload : JsonObject := []
  comment : Option String := none

def decisionStateTarget : ApprovalDecision →
    AgentStatus × AgentStateTransition × Option AgentStateReason
  | .approve | .modify => (.active, .running, none)
  | .defer => (.interrupted, .waitingApproval, some .approvalDeferred)
  | .cancel => (.cancelling, .cancelling, some .cancellationRequested)
  | .reject => (.failed, .failed, some .approvalRejected)

def activityForDecision (outcome : AgentApprovalDecisionOutcome) : String :=
  match outcome.decision with
  | .approve => "approval approved"
  | .modify => "approval modified"
  | .defer => "approval deferred"
  | .cancel => "approval cancellation requested"
  | .reject => "approval rejected"

def requirePayloadText (payload : JsonObject) (key : String) : Except AgentError String :=
  match payload.lookup key with
  | some (.string value) =>
    if isBlank value then
      .error (.agentDefinitionError ("Agent approval signal " ++ key ++ " must be non-blank"))
    else .ok value
  | _ => .error (.agentDefinitionError ("Agent approval signal " ++ key ++ " must be non-blank"))

def optionalPayloadText (payload : JsonObject) (key : String) : Except AgentError (Option String) :=
  match payload.lookup key with
  | none => .ok none
  | some .null => .ok none
  | some _ => (requirePayloadText payload key).map some

def payloadObject (value : Option JsonValue) : Except AgentError JsonObject :=
  match value with
  | none => .ok []
  | some (.object entries) => .ok entries
  | some _ =>
    .error (.agentDefinitionError "Agent approval modified payload must be an object")

/-- What parsing reads of an `AgentApprovalRequest`. -/
structure AgentApprovalRequest where
  id : String
  agentStateId : String

/-- Parse an approval decision signal into a typed workflow outcome. -/
def parseAgentApprovalDecisionSignal (signal : AgentSignal)
    (request : Option AgentApprovalRequest := none) :
    Except AgentError AgentApprovalDecisionOutcome := do
  if signal.kind ≠ .approvalDecision then
    throw (.agentDefinitionError "Agent approval signal kind must be approval_decision")
  let requestId ← requirePayloadText signal.payload "request_id"
  if request.any fun expected => requestId ≠ expected.id then
    throw (.agentDefinitionError "Agent approval signal request id does not match")
  if request.any fun expected => signal.agentStateId ≠ expected.agentStateId then
    throw (.agentDefinitionError "Agent approval signal state id does not match")
  let decision ← match
      ApprovalDecision.ofValue (← requirePayloadText signal.payload "decision") with
    | some decision => pure decision
    | none => throw (.agentDefinitionError "Agent approval decision is not supported")
  let modifiedPayload ← payloadObject (signal.payload.lookup "modified_payload")
  let comment ← optionalPayloadText signal.payload "comment"
  let (status, transition, reason) := decisionStateTarget decision
  pure { requestId, decision, status, transition, reason, modifiedPayload, comment }

/-- Apply a typed approval decision outcome to an existing state snapshot. -/
def materializeAgentApprovalDecisionState (current : AgentState)
    (outcome : AgentApprovalDecisionOutcome) : AgentState :=
  { current with
    status := outcome.status
    transition := some outcome.transition
    reason := outcome.reason
    currentActivity := some (activityForDecision outcome)
    metadata := putEntry "approval_decision"
      (.object [("request_id", .string outcome.requestId),
        ("decision", .string outcome.decision.value),
        ("modified_payload", .object outcome.modifiedPayload),
        ("comment", .ofOption outcome.comment)]) current.metadata }

end Spakky.Agent
