import Mathlib.Data.List.Nodup
import Spakky.Agent.Storage

/-!
The records of an execution as SQLAlchemy rows and back. A row holds the
members of an enumeration as their texts, and the row of a piece of evidence
has no column for its sensitive fields.
-/

namespace Spakky.Agent

open List

/-- A `StrEnum` class: its members with their values. -/
structure StrEnum (α : Type) where
  members : List (α × String)
  complete : ∀ member, member ∈ members.map (·.1)
  distinct : (members.map (·.2)).Nodup
  nonempty : ∀ entry ∈ members, entry.2 ≠ ""

namespace StrEnum

variable {α : Type} [DecidableEq α] (enum : StrEnum α)

def value (member : α) : String :=
  ((enum.members.find? (·.1 == member)).map (·.2)).getD ""

/-- The class called with a text; `none` is a `ValueError`. -/
def ofValue (text : String) : Option α := (enum.members.find? (·.2 == text)).map (·.1)

/-- `member.value if member else None`; a member is falsy if its text is empty. -/
def column (member : Option α) : Option String := (member.map enum.value).filter (· ≠ "")

/-- `Class(text) if text else None` -/
def ofColumn (text : Option String) : Option (Option α) :=
  match text.filter (· ≠ "") with
  | some text => (enum.ofValue text).map some
  | none => some none

theorem value_mem (member : α) : (member, enum.value member) ∈ enum.members := by
  obtain ⟨entry, hentry, hmember⟩ := mem_map.mp (enum.complete member)
  rw [value]
  cases hfind : enum.members.find? (·.1 == member) with
  | none => exact absurd hmember (by simpa using find?_eq_none.mp hfind entry hentry)
  | some found =>
    have hsame : found.1 = member := by simpa using find?_some hfind
    rw [← hsame]
    exact mem_of_find?_eq_some hfind

@[simp] theorem ofValue_value (member : α) : enum.ofValue (enum.value member) = some member := by
  have hmem := enum.value_mem member
  obtain ⟨entry, hfind⟩ : ∃ entry, enum.members.find? (·.2 == enum.value member) = some entry :=
    Option.isSome_iff_exists.mp (find?_isSome.mpr ⟨_, hmem, by simp⟩)
  have hsame : entry.2 = enum.value member := by simpa using find?_some hfind
  have hentry := inj_on_of_nodup_map enum.distinct (mem_of_find?_eq_some hfind) hmem hsame
  rw [ofValue, hfind, hentry]
  rfl

@[simp] theorem ofColumn_column (member : Option α) :
    enum.ofColumn (enum.column member) = some member := by
  cases member with
  | none => rfl
  | some member =>
    have hnonempty : enum.value member ≠ "" := enum.nonempty _ (enum.value_mem member)
    simp [ofColumn, column, Option.filter, hnonempty]

end StrEnum

def agentStatus : StrEnum AgentStatus where
  members := [(.created, "created"), (.active, "active"), (.interrupted, "interrupted"),
    (.cancelling, "cancelling"), (.completed, "completed"), (.failed, "failed"),
    (.cancelled, "cancelled")]
  complete member := by cases member <;> decide
  distinct := by decide
  nonempty := by decide

def agentStateTransition : StrEnum AgentStateTransition where
  members := [(.pending, "pending"), (.running, "running"), (.waitingApproval, "waiting_approval"),
    (.cancelling, "cancelling"), (.cancelled, "cancelled"), (.completed, "completed"),
    (.failed, "failed"), (.timedOut, "timed_out"), (.interrupted, "interrupted")]
  complete member := by cases member <;> decide
  distinct := by decide
  nonempty := by decide

def agentStateReason : StrEnum AgentStateReason where
  members := [(.approvalRequired, "approval_required"), (.approvalRejected, "approval_rejected"),
    (.approvalDeferred, "approval_deferred"), (.executionFailed, "execution_failed"),
    (.userInterrupted, "user_interrupted"), (.timeout, "timeout"),
    (.cancellationRequested, "cancellation_requested"),
    (.cancellationCleanupFailed, "cancellation_cleanup_failed"),
    (.recoveryRequiresHitl, "recovery_requires_hitl")]
  complete member := by cases member <;> decide
  distinct := by decide
  nonempty := by decide

def agentSignalKind : StrEnum AgentSignalKind where
  members := [(.userMessage, "user_message"), (.approvalDecision, "approval_decision"),
    (.cancel, "cancel"), (.pause, "pause"), (.resume, "resume"),
    (.steeringInstruction, "steering_instruction"), (.externalEvent, "external_event"),
    (.schedulerWakeUp, "scheduler_wake_up")]
  complete member := by cases member <;> decide
  distinct := by decide
  nonempty := by decide

def agentEvidenceKind : StrEnum AgentEvidenceKind where
  members := [(.actionBoundary, "action_boundary"), (.model, "model"), (.tool, "tool"),
    (.context, "context"), (.contextManifest, "context_manifest"),
    (.contextDigest, "context_digest"), (.contextOptimization, "context_optimization"),
    (.evaluation, "evaluation"), (.approval, "approval"), (.cancellation, "cancellation"),
    (.delegation, "delegation"), (.outputGuard, "output_guard")]
  complete member := by cases member <;> decide
  distinct := by decide
  nonempty := by decide

structure AgentStateTable where
  id : String
  agentType : String
  status : String
  transition : Option String
  reason : Option String
  currentActivity : Option String
  inputRef : Option String
  outputRef : Option String
  pendingSignalCount : Nat
  lastEventCursor : Option String
  recoveryMarker : Option String
  metadataJson : JsonObject
  createdAt : Option Nat
  updatedAt : Option Nat

def AgentStateTable.fromDomain (domain : AgentState) : AgentStateTable :=
  { domain with
    status := agentStatus.value domain.status
    transition := agentStateTransition.column domain.transition
    reason := agentStateReason.column domain.reason
    metadataJson := domain.metadata }

def AgentStateTable.toDomain (row : AgentStateTable) : Option AgentState := do
  let status ← agentStatus.ofValue row.status
  let transition ← agentStateTransition.ofColumn row.transition
  let reason ← agentStateReason.ofColumn row.reason
  pure { row with status, transition, reason, metadata := row.metadataJson }

structure AgentSignalTable where
  id : String
  agentStateId : String
  kind : String
  payload : JsonObject
  createdAt : Option Nat
  consumedAt : Option Nat := none

def AgentSignalTable.fromDomain (domain : QueuedSignal) : AgentSignalTable :=
  { domain with kind := agentSignalKind.value domain.kind }

def AgentSignalTable.toDomain (row : AgentSignalTable) : Option QueuedSignal := do
  let kind ← agentSignalKind.ofValue row.kind
  pure { row with kind }

structure AgentEvidenceTable where
  id : String
  agentStateId : String
  kind : String
  payload : JsonObject
  summary : Option String
  digest : Option String
  manifestRef : Option String
  reference : Option String
  createdAt : Option Nat

def AgentEvidenceTable.fromDomain (domain : CapturedEvidence) : AgentEvidenceTable :=
  { domain with kind := agentEvidenceKind.value domain.kind }

def AgentEvidenceTable.toDomain (row : AgentEvidenceTable) : Option CapturedEvidence := do
  let kind ← agentEvidenceKind.ofValue row.kind
  pure { row with kind }

theorem state_survives (state : AgentState) :
    (AgentStateTable.fromDomain state).toDomain = some state := by
  simp [AgentStateTable.fromDomain, AgentStateTable.toDomain]

theorem signal_survives (signal : QueuedSignal) :
    (AgentSignalTable.fromDomain signal).toDomain = some signal := by
  simp [AgentSignalTable.fromDomain, AgentSignalTable.toDomain]

/-- All that a row loses of a piece of evidence is its sensitive fields. -/
theorem evidence_reloaded (evidence : CapturedEvidence) :
    (AgentEvidenceTable.fromDomain evidence).toDomain =
      some { evidence with sensitiveFields := [] } := by
  simp [AgentEvidenceTable.fromDomain, AgentEvidenceTable.toDomain]

/-- Each record of an execution comes back from its row as it was. -/
def Survives (state : AgentState) (signal : QueuedSignal) (evidence : CapturedEvidence) : Prop :=
  (AgentStateTable.fromDomain state).toDomain = some state ∧
    (AgentSignalTable.fromDomain signal).toDomain = some signal ∧
    (AgentEvidenceTable.fromDomain evidence).toDomain = some evidence

theorem records_survive_iff (state : AgentState) (signal : QueuedSignal)
    (evidence : CapturedEvidence) :
    Survives state signal evidence ↔ evidence.sensitiveFields = [] := by
  rw [Survives, evidence_reloaded]
  constructor
  · rintro ⟨_, _, hsame⟩
    exact (congrArg (·.sensitiveFields) (Option.some.inj hsame)).symm
  · intro hnone
    refine ⟨state_survives state, signal_survives signal, ?_⟩
    rw [← hnone]

/-- The result of a tool that returned a password. -/
def passwordEvidence : CapturedEvidence where
  id := "evidence"
  kind := .tool
  payload := [("password", .string "hunter2")]
  agentStateId := "state"
  sensitiveFields := [⟨["password"], .secret {}⟩]

/-- Reloaded, it is no longer known to hold a secret, and nothing is redacted. -/
theorem password_unguarded :
    ∃ reloaded, (AgentEvidenceTable.fromDomain passwordEvidence).toDomain = some reloaded ∧
      ∀ runtime : Runtime,
        guardJsonValue runtime (.evidence {}) (.object passwordEvidence.payload)
            passwordEvidence.sensitiveFields ≠
          guardJsonValue runtime (.evidence {}) (.object reloaded.payload)
            reloaded.sensitiveFields := by
  refine ⟨_, evidence_reloaded _, fun runtime hsame => ?_⟩
  have hguarded : JsonValue.object [("password", .string secretValue)] =
      .object [("password", .string "hunter2")] := hsame
  simp [secretValue] at hguarded

end Spakky.Agent
