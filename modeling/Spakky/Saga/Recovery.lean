import Spakky.Saga.Parallel

/-!
Backward recovery. A pass over the compensable stack changes neither the data
nor the stack, so everything it does is determined by the number of callbacks
invoked before it and by what is left of the saga clock. `pass` computes it
from these, and `compensateEach_run` says that the executor does exactly
that.
-/

namespace Spakky.Saga

open Effect Exec List

variable {π ε β : Type}

/-- How a pass over the compensable stack ends. An expired pass was cancelled
by the saga clock. -/
inductive PassEnd (ε : Type) where
  | completed
  | raised (error : PyError ε)
  | expired
  deriving DecidableEq

def PassEnd.result : PassEnd ε → Except (PyError ε) Unit
  | .completed => .ok ()
  | .raised error => .error error
  | .expired => .error .cancelledError

def PassEnd.isExpired : PassEnd ε → Bool
  | .expired => true
  | _ => false

@[simp] theorem PassEnd.isExpired_completed : (completed : PassEnd ε).isExpired = false := rfl

@[simp] theorem PassEnd.isExpired_raised (error : PyError ε) :
    (raised error).isExpired = false := rfl

@[simp] theorem PassEnd.isExpired_expired : (expired : PassEnd ε).isExpired = true := rfl

/-- A pass: how many compensate callbacks it invoked, counted from the top of
the stack, the call counter and clock it left, and what it recorded. -/
structure Pass (π ε : Type) where
  invoked : Nat
  calls : Nat
  budget : Option Nat
  ending : PassEnd ε
  records : List StepRecord
  events : List (Event π ε)

/-- A pass whose first step was compensated. -/
def Pass.precede (later : Pass π ε) (step : CompensableStep π ε β) (data : SagaData π) : Pass π ε :=
  { later with
    invoked := later.invoked + 1
    records := ⟨step.name, .compensated⟩ :: later.records
    events := .compensating step.position data :: .compensated step.position :: later.events }

section Pass

variable (executor : SagaExecutor π ε β) (data : SagaData π)

def authorization (step : CompensableStep π ε β) (calls : Nat) : Option (PyError ε) :=
  executor.authContext.authorizeStep calls step.name step.authBoundary step.authOwnerType data

/-- The end of a pass on which the compensation of a step failed. -/
def escalationPass (step : CompensableStep π ε β) (cause : PyError ε) (invoked calls : Nat)
    (budget : Option Nat) (events : List (Event π ε)) : Pass π ε :=
  let failed := events ++ [.compensationFailed step.position cause]
  match executor.flow.compensationFailureHandler with
  | none =>
    { invoked := invoked
      calls := calls
      budget := budget
      ending := .raised (.sagaCompensationFailedError cause)
      records := [⟨step.name, .failed⟩]
      events := failed }
  | some handler =>
    let call := handler.call calls data
    match spend budget call.awaits with
    | none =>
      { invoked := invoked
        calls := calls + 1
        budget := none
        ending := .expired
        records := [⟨step.name, .failed⟩]
        events := failed ++ [.escalated (some .cancelledError)] }
    | some left =>
      { invoked := invoked
        calls := calls + 1
        budget := left
        ending := match call.outcome with
          | .ok _ => .raised (.sagaCompensationFailedError cause)
          | .error error => .raised error
        records := [⟨step.name, .failed⟩]
        events := failed ++ [.escalated (errorOf call.outcome)] }

def pass : List (CompensableStep π ε β) → Nat → Option Nat → Pass π ε
  | [], calls, budget =>
    { invoked := 0
      calls := calls
      budget := budget
      ending := .completed
      records := []
      events := [] }
  | step :: rest, calls, budget =>
    match authorization executor data step calls with
    | some error =>
      if error.isException then
        escalationPass executor data step error 0 (calls + 1) budget []
      else
        { invoked := 0
          calls := calls + 1
          budget := budget
          ending := .raised error
          records := []
          events := [] }
    | none =>
      match spend budget (step.compensate.call (calls + 1) data).awaits with
      | none =>
        { invoked := 1
          calls := calls + 2
          budget := none
          ending := .expired
          records := []
          events := [.compensating step.position data] }
      | some left =>
        match (step.compensate.call (calls + 1) data).outcome with
        | .error error =>
          if error.isException then
            escalationPass executor data step error 1 (calls + 2) left
              [.compensating step.position data]
          else
            { invoked := 1
              calls := calls + 2
              budget := left
              ending := .raised error
              records := []
              events := [.compensating step.position data] }
        | .ok _ => (pass rest (calls + 2) left).precede step data

end Pass

/-- The state a pass leaves behind. -/
def ExecutorState.after (s : ExecutorState π ε β) (p : Pass π ε) : ExecutorState π ε β :=
  { s with
    calls := p.calls
    budget := p.budget
    expired := s.expired || p.ending.isExpired
    history := s.history ++ p.records
    trace := s.trace ++ p.events }

variable (executor : SagaExecutor π ε β) (step : CompensableStep π ε β) (s : ExecutorState π ε β)

theorem authorizeStep_run :
    authorizeStep executor step.name step.authBoundary step.authOwnerType s =
      (match authorization executor s.data step s.calls with
        | none => .ok ()
        | some error => .error error, { s with calls := s.calls + 1 }) := by
  cases hdec : authorization executor s.data step s.calls <;>
    simp_all [authorizeStep, authorization, takeCall, bind_run]

theorem invokeCompensate_run :
    invokeCompensate step s =
      await (step.compensate.call s.calls s.data)
        { s with
          calls := s.calls + 1
          trace := s.trace ++ [.compensating step.position s.data] } := rfl

/-- What `_run_compensation` does once a compensation failed. -/
def failCompensation (executor : SagaExecutor π ε β) (step : CompensableStep π ε β)
    (cause : PyError ε) : SagaM π ε β Unit := do
  recordStepFailure step.name
  emit (.compensationFailed step.position cause)
  escalate executor
  raise (.sagaCompensationFailedError cause)

theorem failCompensation_run (cause : PyError ε) (s : ExecutorState π ε β) (invoked calls : Nat)
    (budget : Option Nat) (before : List (Event π ε)) :
    failCompensation executor step cause
        { s with calls := calls, budget := budget, trace := s.trace ++ before } =
      let ended := escalationPass executor s.data step cause invoked calls budget before
      (ended.ending.result, s.after ended) := by
  cases hhdl : executor.flow.compensationFailureHandler with
  | none =>
    simp [failCompensation, escalate, escalationPass, hhdl, bind_run, emit_run,
      recordStepFailure_run, ExecutorState.after, PassEnd.result]
  | some handler =>
    cases hspend : spend budget (handler.call calls s.data).awaits with
    | none =>
      simp [failCompensation, escalate, escalationPass, hhdl, hspend, bind_run, emit_run,
        recordStepFailure_run, takeCall, await_run, ExecutorState.after, PassEnd.result,
        errorOf]
    | some =>
      cases hout : (handler.call calls s.data).outcome <;>
        simp [failCompensation, escalate, escalationPass, hhdl, hspend, hout,
          bind_run, emit_run, recordStepFailure_run, takeCall, await_run,
          ExecutorState.after, PassEnd.result, errorOf]

theorem compensateEach_cons (rest : List (CompensableStep π ε β)) :
    compensateEach executor (step :: rest) = (do
      let outcome ← attempt (compensateStep executor step)
      match outcome with
      | .ok _ => compensateEach executor rest
      | .error error =>
        if error.isException then failCompensation executor step error else raise error) :=
  rfl

/-- The executor's recovery loop is exactly `pass`. -/
theorem compensateEach_run (steps : List (CompensableStep π ε β)) (s : ExecutorState π ε β) :
    compensateEach executor steps s =
      let ended := pass executor s.data steps s.calls s.budget
      (ended.ending.result, s.after ended) := by
  induction steps generalizing s with
  | nil => simp [compensateEach, pass, ExecutorState.after, PassEnd.result]
  | cons step _ ih =>
    rw [compensateEach_cons, attempt_bind_run]
    cases hdec : authorization executor s.data step s.calls with
    | some error =>
      have hstep : compensateStep executor step s =
          (.error error, { s with calls := s.calls + 1 }) := by
        simp [compensateStep, bind_run, authorizeStep_run, hdec]
      rw [hstep]
      by_cases hcaught : error.isException = true
      · have hfail := failCompensation_run executor step error s 0 (s.calls + 1) s.budget []
        simp only [append_nil] at hfail
        simp only [hcaught, if_true, pass, hdec, hfail]
      · simp [hcaught, pass, hdec, ExecutorState.after, PassEnd.result]
    | none =>
      have hstart : compensateStep executor step s =
          (do
            invokeCompensate step
            record step.name .compensated
            emit (.compensated step.position)) { s with calls := s.calls + 1 } := by
        unfold compensateStep
        rw [bind_ok _ ((authorizeStep_run executor step s).trans (by rw [hdec]))]
      cases hspend : spend s.budget (step.compensate.call (s.calls + 1) s.data).awaits with
      | none =>
        rw [hstart]
        simp [bind_run, invokeCompensate_run, await_run, hspend, PyError.isException,
          pass, hdec, ExecutorState.after, PassEnd.result]
      | some left =>
        cases hout : (step.compensate.call (s.calls + 1) s.data).outcome with
        | error error =>
          have hstep : compensateStep executor step s =
              (.error error, { s with
                  calls := s.calls + 2
                  budget := left
                  trace := s.trace ++ [.compensating step.position s.data] }) := by
            rw [hstart]
            simp [bind_run, invokeCompensate_run, await_run, hspend, hout]
          rw [hstep]
          by_cases hcaught : error.isException = true
          · simp only [hcaught, if_true, pass, hdec, hspend, hout]
            exact failCompensation_run executor step error s 1 (s.calls + 2) left _
          · simp [hcaught, pass, hdec, hspend, hout, ExecutorState.after, PassEnd.result]
        | ok =>
          rw [hstart]
          simp [bind_run, invokeCompensate_run, await_run, hspend, hout, record,
            emit_run, ih, pass, hdec, ExecutorState.after, Pass.precede]

theorem runCompensation_run :
    runCompensation executor s =
      let ended := pass executor s.data s.compensable.reverse s.calls s.budget
      (ended.ending.result,
        ExecutorState.after { s with trace := s.trace ++ [.recovering] } ended) := by
  unfold runCompensation
  rw [bind_ok _ (emit_run _ s), reads_bind_run, compensateEach_run]

/-- Events of backward recovery. -/
def Event.isBackward : Event π ε → Bool
  | .compensating _ _ => true
  | .compensated _ => true
  | .compensationFailed _ _ => true
  | .escalated _ => true
  | _ => false

variable (position : Nat)

@[simp] theorem invokedCompensations_cons_compensating (data : SagaData π)
    (rest : List (Event π ε)) :
    invokedCompensations (.compensating position data :: rest) =
      (position, data) :: invokedCompensations rest := rfl

@[simp] theorem invokedCompensations_cons_compensated (rest : List (Event π ε)) :
    invokedCompensations (.compensated position :: rest) = invokedCompensations rest := rfl

section PassFacts

variable (executor : SagaExecutor π ε β) (data : SagaData π) (step : CompensableStep π ε β)
  (cause : PyError ε) (invoked calls : Nat) (budget : Option Nat) (before : List (Event π ε))

theorem escalationPass_events :
    ∃ later, (escalationPass executor data step cause invoked calls budget before).events =
        before ++ .compensationFailed step.position cause :: later ∧
      ∀ event ∈ later, ∃ outcome, event = .escalated outcome := by
  cases hhdl : executor.flow.compensationFailureHandler with
  | none => exact ⟨[], by simp [escalationPass, hhdl], by simp⟩
  | some handler =>
    cases hspend : spend budget (handler.call calls data).awaits with
    | none =>
      exact ⟨[.escalated (some .cancelledError)], by simp [escalationPass, hhdl, hspend], by simp⟩
    | some =>
      exact ⟨[.escalated (errorOf (handler.call calls data).outcome)],
        by simp [escalationPass, hhdl, hspend], by simp⟩

theorem escalationPass_invoked :
    (escalationPass executor data step cause invoked calls budget before).invoked = invoked := by
  unfold escalationPass
  split
  · rfl
  · dsimp only
    split <;> rfl

theorem escalationPass_backward (hbefore : ∀ event ∈ before, event.isBackward = true) :
    ∀ event ∈ (escalationPass executor data step cause invoked calls budget before).events,
      event.isBackward = true := by
  obtain ⟨later, hevs, hlater⟩ :=
    escalationPass_events executor data step cause invoked calls budget before
  intro event hmem
  rw [hevs, mem_append, mem_cons] at hmem
  rcases hmem with hmem | rfl | hmem
  · exact hbefore event hmem
  · rfl
  · obtain ⟨outcome, rfl⟩ := hlater event hmem
    rfl

theorem escalationPass_compensations :
    invokedCompensations
        (escalationPass executor data step cause invoked calls budget before).events =
      invokedCompensations before := by
  obtain ⟨later, hevs, hlater⟩ :=
    escalationPass_events executor data step cause invoked calls budget before
  have hnone : invokedCompensations (.compensationFailed step.position cause :: later) = [] := by
    simp only [invokedCompensations, filterMap_eq_nil_iff, mem_cons]
    rintro event (rfl | hmem)
    · rfl
    · obtain ⟨outcome, rfl⟩ := hlater event hmem
      rfl
  rw [hevs, invokedCompensations_append, hnone, append_nil]

variable (steps : List (CompensableStep π ε β))

theorem pass_backward (calls : Nat) (budget : Option Nat) :
    ∀ event ∈ (pass executor data steps calls budget).events, event.isBackward = true := by
  fun_induction pass executor data steps calls budget with
  | case1 => simp
  | case2 => exact escalationPass_backward executor data _ _ _ _ _ _ (by simp)
  | case3 => simp
  | case4 | case6 => simp [Event.isBackward]
  | case5 =>
    exact escalationPass_backward executor data _ _ _ _ _ _ (by simp [Event.isBackward])
  | case7 step rest calls budget hdec left hspend value hout ih =>
    simp only [Pass.precede, mem_cons, forall_eq_or_imp, Event.isBackward, true_and]
    exact ih

/-- A pass invokes compensations from the top of the stack on, each one once
and with the same data. -/
theorem pass_compensations (calls : Nat) (budget : Option Nat) :
    invokedCompensations (pass executor data steps calls budget).events =
      (steps.take (pass executor data steps calls budget).invoked).map fun step =>
        (step.position, data) := by
  fun_induction pass executor data steps calls budget with
  | case1 | case3 | case4 | case6 => rfl
  | case2 | case5 =>
    rw [escalationPass_compensations, escalationPass_invoked]
    rfl
  | case7 step rest calls budget hdec left hspend value hout ih =>
    simp only [Pass.precede, invokedCompensations_cons_compensating,
      invokedCompensations_cons_compensated, ih, take_succ_cons, map_cons]

/-- The steps are undone one after the other: each is authorized, and its compensate
callback returns. The two are the next callbacks. -/
def Undoes : Nat → List (CompensableStep π ε β) → Prop
  | _, [] => True
  | calls, step :: rest =>
    authorization executor data step calls = none ∧
      (step.compensate.call (calls + 1) data).outcome = .ok () ∧ Undoes (calls + 2) rest

/-- The compensation of a step fails after some callbacks: its authorization raises, or
the callback itself does, which is then invoked. -/
inductive CompensationFails (step : CompensableStep π ε β) (calls : Nat) (cause : PyError ε) :
    Bool → Prop
  | refused (hauth : authorization executor data step calls = some cause) :
      CompensationFails step calls cause false
  | raised (hauth : authorization executor data step calls = none)
      (hout : (step.compensate.call (calls + 1) data).outcome = .error cause) :
      CompensationFails step calls cause true

/-- The steps are undone up to the first whose compensation fails. -/
structure Stops (calls : Nat) (steps before : List (CompensableStep π ε β))
    (step : CompensableStep π ε β) (cause : PyError ε) (invoked : Bool) : Prop where
  split : ∃ after, steps = before ++ step :: after
  undone : Undoes executor data calls before
  fails : CompensationFails executor data step (calls + 2 * before.length) cause invoked

/-- What is raised once a compensation failed, the handler being the next callback. -/
def escalation (cause : PyError ε) (calls : Nat) : PyError ε :=
  match executor.flow.compensationFailureHandler with
  | none => .sagaCompensationFailedError cause
  | some handler =>
    match (handler.call calls data).outcome with
    | .ok _ => .sagaCompensationFailedError cause
    | .error error => error

/-- The handler, if there is one, returns or raises `SagaCompensationFailedError` itself. -/
def Surfaces (calls : Nat) : Prop :=
  ∀ handler, executor.flow.compensationFailureHandler = some handler →
    (handler.call calls data).outcome = .ok () ∨
      ∃ cause, (handler.call calls data).outcome = .error (.sagaCompensationFailedError cause)

theorem escalation_surfaces (cause : PyError ε) (calls : Nat) :
    (∃ cause', escalation executor data cause calls = .sagaCompensationFailedError cause') ↔
      Surfaces executor data calls := by
  unfold escalation Surfaces
  cases executor.flow.compensationFailureHandler with
  | none => simp
  | some handler => cases hout : (handler.call calls data).outcome <;> simp [hout]

theorem escalationPass_ending (cause : PyError ε) (invoked calls : Nat)
    (before : List (Event π ε)) :
    (escalationPass executor data step cause invoked calls none before).ending =
      .raised (escalation executor data cause calls) := by
  unfold escalationPass escalation
  cases executor.flow.compensationFailureHandler with
  | none => rfl
  | some handler => cases hout : (handler.call calls data).outcome <;> simp [spend, hout]

/-- Without a clock the steps are undone, or they are up to one whose compensation
fails. -/
theorem undoes_or_stops (steps : List (CompensableStep π ε β)) (calls : Nat) :
    Undoes executor data calls steps ∨
      ∃ before step cause invoked, Stops executor data calls steps before step cause invoked := by
  induction steps generalizing calls with
  | nil => exact .inl trivial
  | cons step rest ih =>
    cases hdec : authorization executor data step calls with
    | some cause =>
      exact .inr ⟨[], step, cause, false, ⟨rest, rfl⟩, trivial, .refused hdec⟩
    | none =>
      cases hout : (step.compensate.call (calls + 1) data).outcome with
      | error cause =>
        exact .inr ⟨[], step, cause, true, ⟨rest, rfl⟩, trivial, .raised hdec hout⟩
      | ok =>
        rcases ih (calls + 2) with hundoes | ⟨before, failing, cause, invoked, hstops⟩
        · exact .inl ⟨hdec, hout, hundoes⟩
        · obtain ⟨⟨after, rfl⟩, hundone, hfails⟩ := hstops
          refine .inr ⟨step :: before, failing, cause, invoked, ⟨after, rfl⟩,
            ⟨hdec, hout, hundone⟩, ?_⟩
          rw [length_cons, Nat.mul_succ, Nat.add_comm _ 2, ← Nat.add_assoc]
          exact hfails

variable {steps}

theorem pass_of_undoes {calls : Nat} (hundoes : Undoes executor data calls steps) :
    pass executor data steps calls none =
      { invoked := steps.length
        calls := calls + 2 * steps.length
        budget := none
        ending := .completed
        records := steps.map fun step => ⟨step.name, .compensated⟩
        events := steps.flatMap fun step =>
          [.compensating step.position data, .compensated step.position] } := by
  induction steps generalizing calls with
  | nil => rfl
  | cons step rest ih =>
    obtain ⟨hdec, hout, hrest⟩ := hundoes
    have hcalls : calls + 2 + 2 * rest.length = calls + 2 * (rest.length + 1) := by omega
    simp [pass, hdec, spend, hout, ih hrest, Pass.precede, hcalls]

/-- A pass that stops invokes the compensations before the one that fails, and that one
unless it is refused. -/
theorem pass_of_stops {calls : Nat} {before : List (CompensableStep π ε β)}
    {step : CompensableStep π ε β} {cause : PyError ε} {invoked : Bool}
    (hstops : Stops executor data calls steps before step cause invoked)
    (hcaught : cause.isException = true) :
    (pass executor data steps calls none).ending = .raised (escalation executor data cause
        (calls + 2 * before.length + 1 + invoked.toNat)) ∧
      (pass executor data steps calls none).invoked = before.length + invoked.toNat := by
  obtain ⟨⟨after, rfl⟩, hundone, hfails⟩ := hstops
  induction before generalizing calls with
  | nil =>
    cases hfails with
    | refused hdec =>
      have hdec : authorization executor data step calls = some cause := hdec
      simp [pass, hdec, hcaught, escalationPass_ending, escalationPass_invoked]
    | raised hdec hout =>
      have hdec : authorization executor data step calls = none := hdec
      have hout : (step.compensate.call (calls + 1) data).outcome = .error cause := hout
      simp [pass, hdec, spend, hout, hcaught, escalationPass_ending, escalationPass_invoked]
  | cons first before ih =>
    obtain ⟨hdec, hout, hrest⟩ := hundone
    have hcalls : calls + 2 * (first :: before).length = calls + 2 + 2 * before.length := by
      rw [length_cons]
      omega
    rw [hcalls] at hfails ⊢
    obtain ⟨hend, hinvd⟩ := ih hrest hfails
    have hpass : pass executor data (first :: before ++ step :: after) calls none =
        (pass executor data (before ++ step :: after) (calls + 2) none).precede first data := by
      simp [pass, hdec, spend, hout]
    rw [hpass]
    refine ⟨hend, ?_⟩
    simp only [Pass.precede, hinvd, length_cons]
    omega

end PassFacts

end Spakky.Saga
