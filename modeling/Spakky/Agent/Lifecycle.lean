import Mathlib.Data.List.Chain
import Spakky.Agent.Recovery

/-!
Runs of the operations that rewrite the status of an execution. Each of the
four is a function of its own module, and a caller may apply them in any
order; an operation that raises leaves the persisted state as it was.

A lifecycle is monotone if a terminal status never changes and a cancelling
execution is only ever cancelled or fails. Only `plan_agent_resume` looks at
the status it replaces, and only at terminal ones, so that monotonicity is a
matter of which operations are applied when.
-/

namespace Spakky.Agent

inductive LifecycleOperation where
  | beginCancellation (signal : AgentSignal)
  | completeCancellation (report : AgentCancellationCleanupReport)
  | materializeDecision (outcome : AgentApprovalDecisionOutcome)
  | planResume (evidence : List AgentEvidence) (signals : List AgentSignal)

namespace LifecycleOperation

def apply (state : AgentState) : LifecycleOperation → Except AgentError AgentState
  | .beginCancellation signal => beginAgentCancellation state signal
  | .completeCancellation report => completeAgentCancellation state report
  | .materializeDecision outcome => .ok (materializeAgentApprovalDecisionState state outcome)
  | .planResume evidence signals => (planAgentResume state evidence signals).map (·.state)

/-- The persisted state after an operation. -/
def next (state : AgentState) (operation : LifecycleOperation) : AgentState :=
  match operation.apply state with
  | .ok changed => changed
  | .error _ => state

end LifecycleOperation

/-- The states an execution goes through. -/
def trajectory (state : AgentState) : List LifecycleOperation → List AgentState
  | [] => [state]
  | operation :: rest => state :: trajectory (operation.next state) rest

/-- What may become of a status later on. -/
structure Advances (earlier later : AgentStatus) : Prop where
  terminal : earlier.isTerminal = true → later = earlier
  cancelling : earlier = .cancelling → later = .cancelling ∨ later = .cancelled ∨ later = .failed

/-- Whatever status an execution has, all later ones are allowed after it. -/
def MonotoneLifecycle (state : AgentState) (operations : List LifecycleOperation) : Prop :=
  (trajectory state operations).Pairwise fun earlier later => Advances earlier.status later.status

/-- The operation is applied at a time when it keeps to the lifecycle. -/
def Permitted (state : AgentState) : LifecycleOperation → Prop
  | .beginCancellation signal =>
    signal.kind = .cancel → signal.agentStateId = state.id → state.status.isTerminal = false
  | .completeCancellation report =>
    state.id = report.stateId → state.status.isTerminal = false ∨
      state.status = if report.cleanupSucceeded then .cancelled else .failed
  | .materializeDecision outcome =>
    (state.status.isTerminal = true → outcome.status = state.status) ∧
      (state.status = .cancelling →
        outcome.status = .cancelling ∨ outcome.status = .cancelled ∨ outcome.status = .failed)
  | .planResume evidence _ =>
    state.status = .cancelling → ∀ boundary, lastActionBoundary evidence = .ok (some boundary) →
      ¬ (boundary.stage = .before ∧ boundary.isUnsafe = true)

/-- Every operation of a run is permitted in the state before it. -/
def PermittedRun (state : AgentState) : List LifecycleOperation → Prop
  | [] => True
  | operation :: rest => Permitted state operation ∧ PermittedRun (operation.next state) rest

section Advances

variable {a b c : AgentStatus}

theorem advances_refl (a : AgentStatus) : Advances a a := ⟨fun _ => rfl, .inl⟩

theorem advances_trans (hab : Advances a b) (hbc : Advances b c) : Advances a c := by
  constructor
  · intro hterm
    have hb := hab.terminal hterm
    subst hb
    exact hbc.terminal hterm
  · intro hcanc
    rcases hab.cancelling hcanc with rfl | rfl | rfl
    · exact hbc.cancelling rfl
    · exact .inr (.inl (hbc.terminal rfl))
    · exact .inr (.inr (hbc.terminal rfl))

/-- Into CANCELLING only an execution goes that has not ended. -/
theorem advances_cancelling : Advances a .cancelling ↔ a.isTerminal = false := by
  constructor
  · intro hadv
    cases hterm : a.isTerminal with
    | false => rfl
    | true =>
      have hsame := hadv.terminal hterm
      subst hsame
      cases hterm
  · intro hopen
    refine ⟨fun hterm => ?_, fun _ => .inl rfl⟩
    rw [hopen] at hterm
    cases hterm

/-- A cancelling execution may end as CANCELLED or FAILED, any other one that
has not ended as well. -/
theorem advances_end (hb : b = .cancelled ∨ b = .failed) :
    Advances a b ↔ a.isTerminal = false ∨ a = b := by
  constructor
  · intro hadv
    cases hterm : a.isTerminal with
    | false => exact .inl rfl
    | true => exact .inr (hadv.terminal hterm).symm
  · rintro (hopen | rfl)
    · refine ⟨fun hterm => ?_, fun _ => .inr hb⟩
      rw [hopen] at hterm
      cases hterm
    · exact advances_refl a

/-- To INTERRUPTED only an execution goes that has neither ended nor begun to
cancel. -/
theorem advances_interrupted (hopen : a.isTerminal = false) :
    Advances a .interrupted ↔ a ≠ .cancelling := by
  constructor
  · rintro hadv rfl
    rcases hadv.cancelling rfl with h | h | h <;> cases h
  · intro hcanc
    refine ⟨fun hterm => ?_, fun h => absurd h hcanc⟩
    rw [hopen] at hterm
    cases hterm

end Advances

section Steps

variable {state changed : AgentState} (operation : LifecycleOperation)

theorem next_ok (happly : operation.apply state = .ok changed) :
    operation.next state = changed := by
  rw [LifecycleOperation.next, happly]

theorem next_error {error : AgentError} (happly : operation.apply state = .error error) :
    operation.next state = state := by
  rw [LifecycleOperation.next, happly]

variable (state)

theorem beginCancellation_advances_iff (signal : AgentSignal) :
    Advances state.status (LifecycleOperation.beginCancellation signal |>.next state).status ↔
      Permitted state (.beginCancellation signal) := by
  by_cases haccd : signal.kind = .cancel ∧ signal.agentStateId = state.id
  · obtain ⟨_, happly, hstat⟩ :=
      beginAgentCancellation_accepted haccd.1 haccd.2
    rw [next_ok (.beginCancellation signal) happly, hstat, advances_cancelling]
    simp [Permitted, haccd]
  · obtain ⟨_, happly⟩ := beginAgentCancellation_refused haccd
    rw [next_error (.beginCancellation signal) happly]
    have hpermitted : Permitted state (.beginCancellation signal) :=
      fun hkind hid => absurd ⟨hkind, hid⟩ haccd
    exact iff_of_true (advances_refl _) hpermitted

theorem completeCancellation_advances_iff (report : AgentCancellationCleanupReport) :
    Advances state.status (LifecycleOperation.completeCancellation report |>.next state).status ↔
      Permitted state (.completeCancellation report) := by
  by_cases hid : state.id = report.stateId
  · obtain ⟨changed, happly, hstat⟩ := completeAgentCancellation_accepted hid
    have hended : changed.status = .cancelled ∨ changed.status = .failed := by
      rw [hstat]
      cases report.cleanupSucceeded
      · exact .inr rfl
      · exact .inl rfl
    rw [next_ok (.completeCancellation report) happly, advances_end hended, hstat]
    simp [Permitted, hid]
  · obtain ⟨_, happly⟩ := completeAgentCancellation_refused hid
    rw [next_error (.completeCancellation report) happly]
    exact iff_of_true (advances_refl _) fun hsame => absurd hsame hid

theorem materializeDecision_advances_iff (outcome : AgentApprovalDecisionOutcome) :
    Advances state.status (LifecycleOperation.materializeDecision outcome |>.next state).status ↔
      Permitted state (.materializeDecision outcome) := by
  constructor
  · rintro ⟨hterm, hcanc⟩
    exact ⟨hterm, hcanc⟩
  · rintro ⟨hterm, hcanc⟩
    exact ⟨hterm, hcanc⟩

theorem planResume_advances_iff (evidence : List AgentEvidence) (signals : List AgentSignal) :
    Advances state.status (LifecycleOperation.planResume evidence signals |>.next state).status ↔
      Permitted state (.planResume evidence signals) := by
  have happly : (LifecycleOperation.planResume evidence signals).apply state =
      (planAgentResume state evidence signals).map (·.state) := rfl
  cases hterm : state.status.isTerminal with
  | true =>
    rw [planAgentResume_terminal hterm] at happly
    rw [next_ok _ happly]
    refine iff_of_true (advances_refl _) ?_
    intro hcanc
    rw [hcanc] at hterm
    cases hterm
  | false =>
    rw [planAgentResume_open hterm] at happly
    cases hlast : lastActionBoundary evidence with
    | error =>
      rw [hlast] at happly
      rw [next_error _ happly]
      refine iff_of_true (advances_refl _) ?_
      intro _ boundary hbnd
      rw [hlast] at hbnd
      cases hbnd
    | ok found =>
      rw [hlast] at happly
      cases found with
      | none =>
        rw [next_ok _ happly]
        refine iff_of_true (advances_refl _) ?_
        intro _ boundary hbnd
        rw [hlast] at hbnd
        cases hbnd
      | some boundary =>
        have hhitl := planFromBoundary_hitl_iff state boundary signals
        have hpermitted : Permitted state (.planResume evidence signals) ↔
            (state.status = .cancelling →
              ¬ (boundary.stage = .before ∧ boundary.isUnsafe = true)) := by
          simp [Permitted, hlast]
        rw [next_ok _ happly, hpermitted, planFromBoundary_status]
        by_cases hasks : (planFromBoundary state boundary signals).action = .requireHitl
        · rw [if_pos hasks, advances_interrupted hterm]
          simp [hhitl.mp hasks]
        · rw [if_neg hasks]
          rw [hhitl] at hasks
          exact iff_of_true (advances_refl _) fun _ => hasks

/-- One step keeps to the lifecycle if and only if it is permitted. -/
theorem next_advances_iff (operation : LifecycleOperation) :
    Advances state.status (operation.next state).status ↔ Permitted state operation := by
  cases operation with
  | beginCancellation signal => exact beginCancellation_advances_iff state signal
  | completeCancellation report => exact completeCancellation_advances_iff state report
  | materializeDecision outcome => exact materializeDecision_advances_iff state outcome
  | planResume evidence signals => exact planResume_advances_iff state evidence signals

end Steps

instance : IsTrans AgentState fun earlier later => Advances earlier.status later.status :=
  ⟨fun _ _ _ => advances_trans⟩

theorem trajectory_chain_iff (state : AgentState) (operations : List LifecycleOperation) :
    (trajectory state operations).IsChain
        (fun earlier later => Advances earlier.status later.status) ↔
      PermittedRun state operations := by
  induction operations generalizing state with
  | nil => simp [trajectory, PermittedRun]
  | cons operation rest ih =>
    have hhead : ∃ later, trajectory (operation.next state) rest =
        operation.next state :: later := by
      cases rest <;> exact ⟨_, rfl⟩
    obtain ⟨_, hlater⟩ := hhead
    have hrest := ih (operation.next state)
    rw [hlater] at hrest
    rw [trajectory, hlater, List.isChain_cons_cons, next_advances_iff, hrest, PermittedRun]

/-- A run is monotone if and only if each of its operations is permitted in
the state it is applied to. -/
theorem lifecycle_monotone_iff (state : AgentState) (operations : List LifecycleOperation) :
    MonotoneLifecycle state operations ↔ PermittedRun state operations := by
  rw [← trajectory_chain_iff]
  exact List.isChain_iff_pairwise.symm

theorem trajectory_head (state : AgentState) (operations : List LifecycleOperation) :
    state ∈ trajectory state operations := by
  cases operations <;> exact .head _

/-- The first step of a monotone run advances, and the rest is monotone. -/
theorem monotone_step {state : AgentState} {operation : LifecycleOperation}
    {rest : List LifecycleOperation} (hmono : MonotoneLifecycle state (operation :: rest)) :
    Advances state.status (operation.next state).status ∧
      MonotoneLifecycle (operation.next state) rest := by
  obtain ⟨hfirst, hlater⟩ := List.pairwise_cons.mp hmono
  exact ⟨hfirst _ (trajectory_head _ _), hlater⟩

def runningState : AgentState := { id := "state-1", agentType := "assistant", status := .active }

def cancelSignal : AgentSignal := { id := "signal-1", agentStateId := "state-1", kind := .cancel }

def approveSignal : AgentSignal where
  id := "signal-2"
  agentStateId := "state-1"
  kind := .approvalDecision
  payload := [("request_id", .string "approval-1"), ("decision", .string "approve")]

def approveOutcome : AgentApprovalDecisionOutcome where
  requestId := "approval-1"
  decision := .approve
  status := .active
  transition := .running

/-- An approval that arrives after the CANCEL signal sets the execution active
again, and a CANCEL signal that arrives after completion reopens it. -/
theorem late_signals_reopen :
    parseAgentApprovalDecisionSignal approveSignal = .ok approveOutcome ∧
      (trajectory runningState
        [.beginCancellation cancelSignal, .materializeDecision approveOutcome]).map
          AgentState.status = [.active, .cancelling, .active] ∧
      ¬ MonotoneLifecycle runningState
        [.beginCancellation cancelSignal, .materializeDecision approveOutcome] ∧
      (trajectory { runningState with status := .completed }
        [.beginCancellation cancelSignal]).map AgentState.status = [.completed, .cancelling] ∧
      ¬ MonotoneLifecycle { runningState with status := .completed }
        [.beginCancellation cancelSignal] := by
  refine ⟨by rfl, by decide, ?_, by decide, ?_⟩
  · intro hmonotone
    obtain ⟨happroved, _⟩ := monotone_step (monotone_step hmonotone).2
    rcases happroved.cancelling rfl with h | h | h <;> cases h
  · intro hmonotone
    have hsame := (monotone_step hmonotone).1.terminal rfl
    cases hsame

end Spakky.Agent
