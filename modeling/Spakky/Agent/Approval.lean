import Spakky.Effect
import Spakky.Machine
import Spakky.Agent.State

/-!
The approval gate in front of a tool: `plan_agent_tool_approval` puts a risky
tool on hold, and the signals that follow are parsed against its request and
materialized one after the other.
-/

namespace Spakky.Agent

open Effect Machine

inductive DataAccess where
  | none
  | read
  | write
  | readWrite
  deriving DecidableEq, Repr

inductive Externality where
  | «local»
  | external
  | unknown
  deriving DecidableEq, Repr

inductive ToolApprovalRequirement where
  | notRequired
  | required
  | derived
  deriving DecidableEq, Repr

def ToolApprovalRequirement.value : ToolApprovalRequirement → String
  | .notRequired => "not_required"
  | .required => "required"
  | .derived => "derived"

inductive ToolRiskAxis where
  | read
  | write
  | sideEffect
  | destructive
  | network
  deriving DecidableEq, Repr

def ToolRiskAxis.value : ToolRiskAxis → String
  | .read => "read"
  | .write => "write"
  | .sideEffect => "side_effect"
  | .destructive => "destructive"
  | .network => "network"

/-- The part of the tool metadata that decides about approval. -/
structure AgentToolMetadata where
  destructive : Bool := false
  network : Bool := false
  dataAccess : DataAccess := .none
  externality : Externality := .local
  approval : ToolApprovalRequirement := .derived

/-- The axes of `ToolRisk.from_metadata`, each one once. -/
def AgentToolMetadata.risk (metadata : AgentToolMetadata) : List ToolRiskAxis :=
  let reads := metadata.dataAccess = .read ∨ metadata.dataAccess = .readWrite
  let writes := metadata.dataAccess = .write ∨ metadata.dataAccess = .readWrite
  List.eraseDups <|
    (if reads then [.read] else []) ++
    (if writes then [.write] else []) ++
    (if writes then [.sideEffect] else []) ++
    (if metadata.externality = .external ∨ metadata.externality = .unknown
      then [.sideEffect] else []) ++
    (if metadata.destructive then [.destructive] else []) ++
    (if metadata.network ∨ metadata.externality = .external then [.network] else [])

def AgentToolMetadata.requiresApprovalCandidate (metadata : AgentToolMetadata) : Bool :=
  match metadata.approval with
  | .required => true
  | .notRequired => false
  | .derived =>
    metadata.risk.contains .destructive ||
      (metadata.risk.contains .sideEffect &&
        (metadata.risk.contains .write || metadata.risk.contains .network))

structure AgentToolDescriptor where
  ownerModule : String
  ownerQualname : String
  name : String
  schemaName : String
  metadata : AgentToolMetadata := {}

/-- `AgentToolIdentity.key`. -/
def AgentToolDescriptor.key (descriptor : AgentToolDescriptor) : String :=
  descriptor.ownerModule ++ "." ++ descriptor.ownerQualname ++ ":" ++ descriptor.name

/-- An `AgentApprovalRequest` at the boundary of a tool invocation. -/
structure ToolApprovalRequest extends AgentApprovalRequest where
  prompt : String
  risk : List ToolRiskAxis
  actionRef : String
  allowedDecisions : List ApprovalDecision := [.approve, .reject, .modify, .defer, .cancel]
  metadata : JsonObject := []

structure Approval where
  id : String
  prompt : String
  allowedDecisions : List ApprovalDecision
  metadata : JsonObject

namespace ToolApprovalRequest

variable (request : ToolApprovalRequest)

/-- The checks of `__post_init__`. -/
def check : Except AgentError Unit := do
  requireNonBlank request.id "Agent approval id"
  requireNonBlank request.agentStateId "Agent approval state id"
  requireNonBlank request.prompt "Agent approval prompt"
  requireNonBlank request.actionRef "Agent approval action ref"
  if request.allowedDecisions.isEmpty then
    throw (.agentDefinitionError "Agent approval decisions cannot be empty")

def toMetadata : JsonObject :=
  [("id", .string request.id), ("agent_state_id", .string request.agentStateId),
    ("boundary", .string "tool_invocation"), ("action_ref", .string request.actionRef),
    ("risk_axes", .array (request.risk.map fun axis => .string axis.value)),
    ("allowed_decisions",
      .array (request.allowedDecisions.map fun decision => .string decision.value)),
    ("metadata", .object request.metadata)]

/-- Materialize the approval wait as interrupted lifecycle state. -/
def toState (agentType : String) : Except AgentError AgentState := do
  requireNonBlank agentType "Agent approval agent type"
  pure
    { id := request.agentStateId
      agentType
      status := .interrupted
      transition := some .waitingApproval
      reason := some .approvalRequired
      currentActivity := some request.prompt
      metadata := [("approval", .object request.toMetadata)] }

/-- Expose this approval request to an inbound adapter stream. -/
def toYield : Approval :=
  { id := request.id
    prompt := request.prompt
    allowedDecisions := request.allowedDecisions
    metadata := request.toMetadata }

end ToolApprovalRequest

/-- The arguments of `plan_agent_tool_approval`. -/
structure ToolApproval where
  descriptor : AgentToolDescriptor
  approvalId : String
  agentStateId : String
  agentType : String
  prompt : Option String := none
  callId : Option String := none
  metadata : Option JsonObject := none

namespace ToolApproval

variable (approval : ToolApproval)

/-- `_tool_approval_metadata`. -/
def toolApprovalMetadata : Except AgentError JsonObject := do
  let result : JsonObject :=
    [("tool_identity", .string approval.descriptor.key),
      ("tool_schema_name", .string approval.descriptor.schemaName),
      ("tool_name", .string approval.descriptor.name),
      ("approval_requirement", .string approval.descriptor.metadata.approval.value),
      ("risk_axes", .array (approval.descriptor.metadata.risk.map fun axis => .string axis.value)),
      ("metadata", .object (approval.metadata.getD []))]
  match approval.callId with
  | none => pure result
  | some callId =>
    requireNonBlank callId "Agent approval tool call id"
    pure (result ++ [("call_id", .string callId)])

/-- `AgentApprovalRequest.from_tool_descriptor`. -/
def fromToolDescriptor : Except AgentError ToolApprovalRequest := do
  let metadata ← approval.toolApprovalMetadata
  let request : ToolApprovalRequest :=
    { id := approval.approvalId
      agentStateId := approval.agentStateId
      prompt := match approval.prompt with
        | none | some "" => "Approve tool invocation: " ++ approval.descriptor.name
        | some prompt => prompt
      risk := approval.descriptor.metadata.risk
      actionRef := approval.descriptor.key
      metadata }
  request.check
  pure request

/-- `AgentApprovalPlan`: proceed, or wait with all of a request, the state and
the item to yield. -/
inductive Plan where
  | proceed
  | waitForApproval (request : ToolApprovalRequest) (state : AgentState) (yieldItem : Approval)

def planAgentToolApproval : Except AgentError Plan := do
  if approval.descriptor.metadata.requiresApprovalCandidate = false then
    return .proceed
  let request ← approval.fromToolDescriptor
  let state ← request.toState approval.agentType
  pure (.waitForApproval request state request.toYield)

end ToolApproval

/-- The state after a signal; one that cannot be parsed is ignored. -/
def decided (request : ToolApprovalRequest) (state : AgentState) (signal : AgentSignal) :
    AgentState :=
  match parseAgentApprovalDecisionSignal signal (some request.toAgentApprovalRequest) with
  | .ok outcome => materializeAgentApprovalDecisionState state outcome
  | .error _ => state

/-- What parsing has checked about an accepted signal. -/
structure Accepted (request : ToolApprovalRequest) (signal : AgentSignal)
    (outcome : AgentApprovalDecisionOutcome) : Prop where
  parsed : parseAgentApprovalDecisionSignal signal
    (some request.toAgentApprovalRequest) = .ok outcome
  kind : signal.kind = .approvalDecision
  requestId : signal.payload.lookup "request_id" = some (.string request.id)
  stateId : signal.agentStateId = request.agentStateId
  decision : signal.payload.lookup "decision" = some (.string outcome.decision.value)
  status : outcome.status = (decisionStateTarget outcome.decision).1

/-- The signal is accepted as an approval, as it is or modified. -/
def Opens (request : ToolApprovalRequest) (signal : AgentSignal) : Prop :=
  ∃ outcome, Accepted request signal outcome ∧
    (outcome.decision = .approve ∨ outcome.decision = .modify)

theorem ApprovalDecision.value_ofValue {value : String} {decision : ApprovalDecision}
    (h : ofValue value = some decision) : decision.value = value := by
  simpa using List.find?_some h

theorem requirePayloadText_ok {payload : JsonObject} {key value : String}
    (h : requirePayloadText payload key = .ok value) :
    payload.lookup key = some (.string value) := by
  unfold requirePayloadText at h
  split at h
  · split at h
    · cases h
    · cases h
      assumption
  · cases h

section Signals

variable {request : ToolApprovalRequest} {signal : AgentSignal}

theorem accepted_of_parsed {outcome : AgentApprovalDecisionOutcome}
    (h : parseAgentApprovalDecisionSignal signal
      (some request.toAgentApprovalRequest) = .ok outcome) : Accepted request signal outcome := by
  have hparsed := h
  simp only [parseAgentApprovalDecisionSignal, Option.any_some, decide_eq_true_eq] at h
  split at h
  · cases h
  · rename_i hkind
    obtain ⟨_, hid, h⟩ := except_bind_ok h
    split at h
    · cases h
    · rename_i hrequest
      split at h
      · cases h
      · rename_i hstate
        obtain ⟨_, hvalue, h⟩ := except_bind_ok h
        split at h
        · rename_i decision hdec
          obtain ⟨_, hpure, h⟩ := except_bind_ok h
          obtain ⟨_, _, h⟩ := except_bind_ok h
          obtain ⟨_, _, h⟩ := except_bind_ok h
          cases hpure
          cases h
          constructor
          · exact hparsed
          · exact not_not.mp hkind
          · rw [← not_not.mp hrequest]
            exact requirePayloadText_ok hid
          · exact not_not.mp hstate
          · rw [ApprovalDecision.value_ofValue hdec]
            exact requirePayloadText_ok hvalue
          · rfl
        · cases h

/-- A signal that does not open the gate leaves the state as it is, or on hold,
rejected or being cancelled. -/
theorem decided_shut (state : AgentState) (hshut : ¬ Opens request signal) :
    (decided request state signal).status = state.status ∨
      (decided request state signal).status ∈ [.interrupted, .failed, .cancelling] := by
  unfold decided
  split
  · rename_i outcome hparsed
    have haccd := accepted_of_parsed hparsed
    right
    change outcome.status ∈ _
    rw [haccd.status]
    cases hdec : outcome.decision with
    | approve => exact absurd ⟨outcome, haccd, .inl hdec⟩ hshut
    | modify => exact absurd ⟨outcome, haccd, .inr hdec⟩ hshut
    | reject | defer | cancel => decide
  · exact .inl rfl

/-- As long as no signal opens the gate, the execution does not become active. -/
theorem run_shut {state : AgentState} (hstart : state.status = .interrupted)
    {signals : List AgentSignal} (hshut : ∀ signal ∈ signals, ¬ Opens request signal) :
    (run (decided request) state signals).status ∈ [.interrupted, .failed, .cancelling] := by
  have hstep : ∀ (state : AgentState) signal,
      state.status ∈ [AgentStatus.interrupted, .failed, .cancelling] →
      ¬ Opens request signal ∧ True →
      (decided request state signal).status ∈ [AgentStatus.interrupted, .failed, .cancelling] := by
    intro state signal hinv hcond
    rcases decided_shut state hcond.1 with hsame | hmoved
    · rwa [hsame]
    · exact hmoved
  apply Along.invariant hstep
  · simp [hstart]
  · exact (along_any state signals).and_events hshut

end Signals

/-- A plan for a tool that requires approval waits, for a request that offers
every decision. -/
theorem planAgentToolApproval_waits {approval : ToolApproval} {plan : ToolApproval.Plan}
    (hreqd : approval.descriptor.metadata.requiresApprovalCandidate = true)
    (hplan : approval.planAgentToolApproval = .ok plan) :
    ∃ request state, plan = .waitForApproval request state request.toYield ∧
      request.id = approval.approvalId ∧ request.agentStateId = approval.agentStateId ∧
      state.id = request.agentStateId ∧ state.status = .interrupted ∧
      ∀ decision, decision ∈ request.allowedDecisions := by
  simp only [ToolApproval.planAgentToolApproval, hreqd, Bool.true_eq_false, if_false] at hplan
  obtain ⟨_, hrequest, hplan⟩ := except_bind_ok hplan
  obtain ⟨_, hstate, hplan⟩ := except_bind_ok hplan
  obtain ⟨_, _, hstate⟩ := except_bind_ok hstate
  obtain ⟨_, _, hrequest⟩ := except_bind_ok hrequest
  obtain ⟨_, _, hrequest⟩ := except_bind_ok hrequest
  cases hplan
  cases hstate
  cases hrequest
  refine ⟨_, _, rfl, rfl, rfl, rfl, rfl, fun decision => ?_⟩
  cases decision <;> simp

/-- The gate of a tool that requires approval is closed at first, opens on no
signal but an accepted one that names the request and the state and approves,
and accepts only decisions that were offered. -/
theorem approval_gate_opens_on_decision (approval : ToolApproval) (plan : ToolApproval.Plan)
    (hrequired : approval.descriptor.metadata.requiresApprovalCandidate = true)
    (hplan : approval.planAgentToolApproval = .ok plan) :
    ∃ request state, plan = .waitForApproval request state request.toYield ∧
      request.id = approval.approvalId ∧ request.agentStateId = approval.agentStateId ∧
      state.id = request.agentStateId ∧ state.status = .interrupted ∧
      ∀ signals : List AgentSignal,
        ((run (decided request) state signals).status = .active →
          ∃ signal ∈ signals, Opens request signal) ∧
        (∀ signal ∈ signals, ∀ outcome, parseAgentApprovalDecisionSignal signal
            (some request.toAgentApprovalRequest) = .ok outcome →
          outcome.decision ∈ request.allowedDecisions) ∧
        ((∀ signal ∈ signals, ¬ Opens request signal) →
          (run (decided request) state signals).status ∈
            [.interrupted, .failed, .cancelling]) := by
  obtain ⟨request, state, rfl, hid, hstateId, hsame, hstart, hoffered⟩ :=
    planAgentToolApproval_waits hrequired hplan
  refine ⟨request, state, rfl, hid, hstateId, hsame, hstart, fun signals => ⟨?_, ?_, ?_⟩⟩
  · intro hactive
    by_contra hnone
    have hshut := run_shut hstart fun signal hmem hopens => hnone ⟨signal, hmem, hopens⟩
    rw [hactive] at hshut
    simp at hshut
  · intro _ _ outcome _
    exact hoffered outcome.decision
  · exact run_shut hstart

def deleteApproval : ToolApproval where
  descriptor :=
    { ownerModule := "app"
      ownerQualname := "Files"
      name := "delete"
      schemaName := "delete"
      metadata := { destructive := true } }
  approvalId := "approval-1"
  agentStateId := "state-1"
  agentType := "assistant"

theorem delete_waits_for_decision :
    ∃ request state, deleteApproval.planAgentToolApproval =
        .ok (.waitForApproval request state request.toYield) ∧
      ∀ signals, (run (decided request) state signals).status = .active →
        ∃ signal ∈ signals, Opens request signal := by
  obtain ⟨request, state, hplan, _, _, _, _, hsignals⟩ :=
    approval_gate_opens_on_decision deleteApproval _ (by decide) rfl
  exact ⟨request, state, congrArg Except.ok hplan, fun signals => (hsignals signals).1⟩

end Spakky.Agent
