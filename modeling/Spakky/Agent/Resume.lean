import Spakky.Agent.Recovery

/-!
Whether an incomplete action that may not be repeated always stops the
recovery. The log holds the checkpoints of several actions, which may overlap,
among evidence of other kinds. The plan looks at the last checkpoint only, and
so it stops for an open unsafe action only if nothing was checkpointed after
it, or if what was checkpointed last is itself such an action.
-/

namespace Spakky.Agent

/-- An entry of an evidence log: a checkpoint that was given an id, or evidence
of another kind. -/
inductive LogEntry where
  | checkpoint (evidenceId : String) (written : AgentActionBoundaryCheckpoint)
  | other (evidence : AgentEvidence) (hkind : evidence.kind ≠ .actionBoundary)

def LogEntry.evidence : LogEntry → AgentEvidence
  | .checkpoint evidenceId written => written.toEvidence evidenceId
  | .other evidence _ => evidence

def LogEntry.boundary? : LogEntry → Option AgentResumeBoundary
  | .checkpoint evidenceId written => some (written.boundary evidenceId)
  | .other _ _ => none

/-- The checkpoints of a log, in the order in which they were appended. -/
def boundaries (log : List LogEntry) : List AgentResumeBoundary := log.filterMap LogEntry.boundary?

variable (checkpoints : List AgentResumeBoundary)

/-- The action was begun at this checkpoint and no later one completes it. -/
def OpenAction (boundary : AgentResumeBoundary) : Prop :=
  ∃ earlier later, checkpoints = earlier ++ boundary :: later ∧ boundary.stage = .before ∧
    ∀ other ∈ later, ¬ (other.stage = .after ∧ other.actionId = boundary.actionId)

/-- Some open action may not be repeated without asking. -/
def HasOpenUnsafe : Prop :=
  ∃ boundary, OpenAction checkpoints boundary ∧ boundary.isUnsafe = true

/-- The last checkpoint begins an action that may not be repeated. -/
def EndsUnsafe : Prop :=
  ∃ boundary, checkpoints.getLast? = some boundary ∧ boundary.stage = .before ∧
    boundary.isUnsafe = true

/-- Every completed action was begun before. -/
def EachBegun : List AgentResumeBoundary → List AgentResumeBoundary → Prop
  | _, [] => True
  | earlier, boundary :: later =>
    (boundary.stage = .after →
      ∃ begun ∈ earlier, begun.stage = .before ∧ begun.actionId = boundary.actionId) ∧
    EachBegun (earlier ++ [boundary]) later

/-- If an unsafe action is open, the plan asks for a human and the execution
does not go on by itself. -/
def StopsForUnsafe (state : AgentState) (log : List LogEntry) (signals : List AgentSignal) : Prop :=
  HasOpenUnsafe (boundaries log) →
    ∃ plan, planAgentResume state (log.map LogEntry.evidence) signals = .ok plan ∧
      plan.action = .requireHitl ∧ plan.canResumeAutomatically = false

section Log

variable (log : List LogEntry)

theorem firstActionBoundary_log :
    firstActionBoundary (log.map LogEntry.evidence) = .ok (boundaries log).head? := by
  induction log with
  | nil => rfl
  | cons entry _ ih =>
    rw [List.map_cons, firstActionBoundary]
    cases entry with
    | checkpoint evidenceId written =>
      have hkind : (LogEntry.checkpoint evidenceId written).evidence.kind = .actionBoundary := rfl
      rw [if_neg (not_not.mpr hkind), LogEntry.evidence, boundaryFromEvidence_toEvidence]
      rfl
    | other evidence hkind =>
      have hother : (LogEntry.other evidence hkind).evidence.kind ≠ .actionBoundary := hkind
      rw [if_pos hother, ih]
      rfl

/-- The last checkpoint of a log is found and can be read. -/
theorem lastActionBoundary_log :
    lastActionBoundary (log.map LogEntry.evidence) = .ok (boundaries log).getLast? := by
  rw [lastActionBoundary, ← List.map_reverse, firstActionBoundary_log, boundaries,
    List.filterMap_reverse, List.head?_reverse]
  rfl

/-- When the plan of an execution that has not ended asks for a human. -/
theorem planAgentResume_hitl_iff {state : AgentState} (hopen : state.status.isTerminal = false)
    (log : List LogEntry) (signals : List AgentSignal) :
    (∃ plan, planAgentResume state (log.map LogEntry.evidence) signals = .ok plan ∧
        plan.action = .requireHitl ∧ plan.canResumeAutomatically = false) ↔
      EndsUnsafe (boundaries log) := by
  rw [planAgentResume_open hopen, lastActionBoundary_log]
  cases hlast : (boundaries log).getLast? with
  | none =>
    constructor
    · rintro ⟨_, hplan, hhitl, _⟩
      cases hplan
      cases hhitl
    · rintro ⟨_, hbnd, _⟩
      rw [hlast] at hbnd
      cases hbnd
  | some boundary =>
    have hhitl := planFromBoundary_hitl_iff state boundary signals
    constructor
    · rintro ⟨_, hplan, hasks, _⟩
      cases hplan
      exact ⟨boundary, hlast, hhitl.mp hasks⟩
    · rintro ⟨_, hfound, hends⟩
      rw [hlast] at hfound
      cases hfound
      have hasks := hhitl.mpr hends
      refine ⟨_, rfl, hasks, ?_⟩
      simp only [AgentResumePlan.canResumeAutomatically, hasks]
      rfl

/-- An open unsafe action stops the recovery of an execution that has not ended
if and only if there is none, or the last checkpoint begins one. -/
theorem open_unsafe_stops_iff (state : AgentState) (hopen : state.status.isTerminal = false)
    (log : List LogEntry) (signals : List AgentSignal) :
    StopsForUnsafe state log signals ↔
      ¬ HasOpenUnsafe (boundaries log) ∨ EndsUnsafe (boundaries log) := by
  unfold StopsForUnsafe
  rw [planAgentResume_hitl_iff hopen, imp_iff_not_or]

end Log

section Sequential

/-- Every action is completed before the next one begins. -/
inductive SequentialLog : List AgentResumeBoundary → Prop
  | nil : SequentialLog []
  | begun (boundary : AgentResumeBoundary) (hstage : boundary.stage = .before) :
      SequentialLog [boundary]
  | completed (begun ended : AgentResumeBoundary) (later : List AgentResumeBoundary)
      (hbegun : begun.stage = .before) (hended : ended.stage = .after)
      (hid : ended.actionId = begun.actionId) (hlater : SequentialLog later) :
      SequentialLog (begun :: ended :: later)

variable {checkpoints : List AgentResumeBoundary}

/-- In a sequential log only the last checkpoint can leave an action open. -/
theorem sequential_open (hsequential : SequentialLog checkpoints) {boundary : AgentResumeBoundary}
    (hopen : OpenAction checkpoints boundary) : checkpoints.getLast? = some boundary := by
  induction hsequential with
  | nil =>
    obtain ⟨_, _, hsplit, _⟩ := hopen
    simp at hsplit
  | begun =>
    obtain ⟨_, _, hsplit, _⟩ := hopen
    rcases List.singleton_eq_append_iff.mp hsplit with ⟨rfl, hrest⟩ | ⟨_, hrest⟩
    · cases hrest
      rfl
    · cases hrest
  | completed _ ended _ _ hended hid _ ih =>
    obtain ⟨earlier, rest, hsplit, hstage, hnone⟩ := hopen
    cases earlier with
    | nil =>
      -- The first action is open, but the checkpoint after it completes it.
      cases hsplit
      exact absurd ⟨hended, hid⟩ (hnone ended (.head _))
    | cons _ earlier =>
      cases earlier with
      | nil =>
        cases hsplit
        rw [hended] at hstage
        cases hstage
      | cons _ earlier =>
        cases hsplit
        have hlast := ih ⟨earlier, rest, rfl, hstage, hnone⟩
        rw [List.getLast?_cons_cons, List.getLast?_cons, hlast]
        rfl

/-- Actions that do not overlap are never resumed silently. -/
theorem sequential_stops (hsequential : SequentialLog checkpoints) :
    ¬ HasOpenUnsafe checkpoints ∨ EndsUnsafe checkpoints := by
  by_cases hopen : HasOpenUnsafe checkpoints
  · obtain ⟨boundary, haction, hasks⟩ := hopen
    have hlast := sequential_open hsequential haction
    obtain ⟨_, _, _, hstage, _⟩ := haction
    exact .inr ⟨boundary, hlast, hstage, hasks⟩
  · exact .inl hopen

end Sequential

def toolCheckpoint (actionId : String) (stage : AgentActionBoundaryStage)
    (idempotency : Idempotency) (hid : isBlank actionId = false) :
    AgentActionBoundaryCheckpoint where
  actionId := actionId
  actionKind := .toolCall
  stage := stage
  idempotency := idempotency
  actionId_nonblank := hid

def chargeBegun : LogEntry :=
  .checkpoint "evidence-1" (toolCheckpoint "charge" .before .nonIdempotent (by decide))

/-- A charge is begun, and a lookup beside it is begun and completed. -/
def overlappingLog : List LogEntry :=
  [chargeBegun,
    .checkpoint "evidence-2" (toolCheckpoint "lookup" .before .idempotent (by decide)),
    .checkpoint "evidence-3" (toolCheckpoint "lookup" .after .idempotent (by decide))]

def restartedState : AgentState := { id := "state-1", agentType := "assistant", status := .active }

theorem open_unsafe_stops_iff_charge : StopsForUnsafe restartedState [chargeBegun] [] :=
  (open_unsafe_stops_iff restartedState rfl [chargeBegun] []).mpr
    (sequential_stops (.begun _ rfl))

/-- The charge is open, and yet the plan skips to what comes after the lookup. -/
theorem overlapping_charge_is_skipped :
    restartedState.status.isTerminal = false ∧ EachBegun [] (boundaries overlappingLog) ∧
      HasOpenUnsafe (boundaries overlappingLog) ∧
      (∃ plan, planAgentResume restartedState (overlappingLog.map LogEntry.evidence) = .ok plan ∧
        plan.action = .skipCompleted ∧ plan.canResumeAutomatically = true) ∧
      ¬ StopsForUnsafe restartedState overlappingLog [] := by
  have hcharge : HasOpenUnsafe (boundaries overlappingLog) := by
    refine ⟨_, ⟨[], _, rfl, rfl, ?_⟩, by decide⟩
    decide
  have hplan : ∃ plan, planAgentResume restartedState (overlappingLog.map LogEntry.evidence) =
      .ok plan ∧ plan.action = .skipCompleted ∧ plan.canResumeAutomatically = true := by
    exact ⟨_, rfl, rfl, rfl⟩
  refine ⟨rfl, ?_, hcharge, hplan, ?_⟩
  · refine ⟨fun h => (by cases h), fun h => (by cases h), fun _ => ?_, trivial⟩
    exact ⟨_, .tail _ (.head _), rfl, rfl⟩
  · intro hstops
    obtain ⟨_, hsame, hhitl, _⟩ := hstops hcharge
    obtain ⟨_, hskipped, haction, _⟩ := hplan
    rw [hskipped] at hsame
    cases hsame
    rw [haction] at hhitl
    cases hhitl

end Spakky.Agent
