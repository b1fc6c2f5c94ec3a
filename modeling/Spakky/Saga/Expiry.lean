import Spakky.Saga.Timeout

/-!
What `TIMED_OUT` tells about the saga clock. `_run_with_saga_timeout` catches
every `TimeoutError` that leaves its body. Forward execution lets none out and
recovery wraps those of compensations, so the only one that is not the
clock's own is raised by the compensation failure handler.
-/

namespace Spakky.Saga

open Effect Exec

variable {π ε β : Type}

/-- The first compensation that fails makes the handler raise a `TimeoutError`
of its own before the clock runs out. -/
inductive HandlerTimesOut (executor : SagaExecutor π ε β) (data : SagaData π) :
    List (CompensableStep π ε β) → Nat → Option Nat → Prop
  | refused {step rest calls budget left error handler}
      (hauth : authorization executor data step calls = some error)
      (hcaught : error.isException = true)
      (hhdl : executor.flow.compensationFailureHandler = some handler)
      (hclock : spend budget (handler.call (calls + 1) data).awaits = some left)
      (htimeout : (handler.call (calls + 1) data).outcome = .error .timeoutError) :
      HandlerTimesOut executor data (step :: rest) calls budget
  | raised {step rest calls budget left left' error handler}
      (hauth : authorization executor data step calls = none)
      (hspend : spend budget (step.compensate.call (calls + 1) data).awaits = some left)
      (hout : (step.compensate.call (calls + 1) data).outcome = .error error)
      (hcaught : error.isException = true)
      (hhdl : executor.flow.compensationFailureHandler = some handler)
      (hclock : spend left (handler.call (calls + 2) data).awaits = some left')
      (htimeout : (handler.call (calls + 2) data).outcome = .error .timeoutError) :
      HandlerTimesOut executor data (step :: rest) calls budget
  | later {step rest calls budget left}
      (hauth : authorization executor data step calls = none)
      (hspend : spend budget (step.compensate.call (calls + 1) data).awaits = some left)
      (hout : (step.compensate.call (calls + 1) data).outcome = .ok ())
      (hrest : HandlerTimesOut executor data rest (calls + 2) left) :
      HandlerTimesOut executor data (step :: rest) calls budget

variable (executor : SagaExecutor π ε β) (data : SagaData π)

theorem escalationPass_timeout_iff (step : CompensableStep π ε β) (cause : PyError ε)
    (invoked calls : Nat) (budget : Option Nat) (events : List (Event π ε)) :
    (escalationPass executor data step cause invoked calls budget events).ending =
        .raised .timeoutError ↔
      ∃ handler left, executor.flow.compensationFailureHandler = some handler ∧
        spend budget (handler.call calls data).awaits = some left ∧
        (handler.call calls data).outcome = .error .timeoutError := by
  cases hhdl : executor.flow.compensationFailureHandler with
  | none => simp [escalationPass, hhdl]
  | some handler =>
    cases hspend : spend budget (handler.call calls data).awaits with
    | none => simp [escalationPass, hhdl, hspend]
    | some =>
      cases hout : (handler.call calls data).outcome <;>
        simp [escalationPass, hhdl, hspend, hout]

variable (steps : List (CompensableStep π ε β))

/-- The only `TimeoutError` that leaves a recovery pass is the handler's. -/
theorem pass_timeout_iff (calls : Nat) (budget : Option Nat) :
    (pass executor data steps calls budget).ending = .raised .timeoutError ↔
      HandlerTimesOut executor data steps calls budget := by
  induction steps generalizing calls budget with
  | nil =>
    refine ⟨fun h => ?_, fun h => ?_⟩
    · simp [pass] at h
    · cases h
  | cons step _ ih =>
    constructor
    · intro hend
      cases hauth : authorization executor data step calls with
      | some error =>
        cases hcaught : error.isException with
        | true =>
          rw [pass, hauth] at hend
          simp only [hcaught, if_true] at hend
          obtain ⟨_, _, hhdl, hclock, htimeout⟩ :=
            (escalationPass_timeout_iff executor data step error _ _ _ _).mp hend
          exact .refused hauth hcaught hhdl hclock htimeout
        | false =>
          obtain rfl := cancelled_of_not_exception hcaught
          simp [pass, hauth, hcaught] at hend
      | none =>
        cases hspend : spend budget (step.compensate.call (calls + 1) data).awaits with
        | none => simp [pass, hauth, hspend] at hend
        | some =>
          cases hout : (step.compensate.call (calls + 1) data).outcome with
          | error error =>
            cases hcaught : error.isException with
            | true =>
              rw [pass, hauth] at hend
              simp only [hspend, hout, hcaught, if_true] at hend
              obtain ⟨_, _, hhdl, hclock, htimeout⟩ :=
                (escalationPass_timeout_iff executor data step error _ _ _ _).mp hend
              exact .raised hauth hspend hout hcaught hhdl hclock htimeout
            | false =>
              obtain rfl := cancelled_of_not_exception hcaught
              simp [pass, hauth, hspend, hout, hcaught] at hend
          | ok =>
            rw [pass, hauth] at hend
            simp only [hspend, hout] at hend
            exact .later hauth hspend hout ((ih _ _).mp hend)
    · intro htimes
      cases htimes with
      | refused hauth hcaught hhdl hclock htimeout =>
        rw [pass, hauth]
        simp only [hcaught, if_true]
        exact (escalationPass_timeout_iff executor data step _ _ _ _ _).mpr
          ⟨_, _, hhdl, hclock, htimeout⟩
      | raised hauth hspend hout hcaught hhdl hclock htimeout =>
        rw [pass, hauth]
        simp only [hspend, hout, hcaught, if_true]
        exact (escalationPass_timeout_iff executor data step _ _ _ _ _).mpr
          ⟨_, _, hhdl, hclock, htimeout⟩
      | later hauth hspend hout hrest =>
        rw [pass, hauth]
        simp only [hspend, hout]
        exact (ih _ _).mpr hrest

/-- A pass after the clock is gone does not expire. -/
theorem pass_unclocked (calls : Nat) :
    (pass executor data steps calls none).ending.isExpired = false := by
  have hescalation : ∀ (step : CompensableStep π ε β) cause invoked calls events,
      (escalationPass executor data step cause invoked calls none events).ending.isExpired =
        false := by
    intro step cause invoked calls events
    cases hhdl : executor.flow.compensationFailureHandler with
    | none => simp [escalationPass, hhdl]
    | some handler =>
      cases hout : (handler.call calls data).outcome <;>
        simp [escalationPass, hhdl, spend, hout]
  induction steps generalizing calls with
  | nil => rfl
  | cons step _ ih =>
    cases hauth : authorization executor data step calls with
    | some error =>
      cases hcaught : error.isException <;>
        simp [pass, hauth, hcaught, hescalation]
    | none =>
      cases hout : (step.compensate.call (calls + 1) data).outcome with
      | ok => simpa [pass, hauth, spend, hout, Pass.precede] using ih (calls + 2)
      | error error =>
        cases hcaught : error.isException <;>
          simp [pass, hauth, spend, hout, hcaught, hescalation]

/-- The number of recovery passes of a run. -/
def recoveryPasses (trace : List (Event π ε)) : Nat :=
  trace.countP fun
    | .recovering => true
    | _ => false

theorem recoveryPasses_forward {trace : List (Event π ε)}
    (hfwd : ∀ event ∈ trace, event.isForward = true) : recoveryPasses trace = 0 := by
  rw [recoveryPasses, List.countP_eq_zero]
  intro event hmem
  have h := hfwd event hmem
  cases event <;> simp_all [Event.isForward]

theorem recoveryPasses_recovered (s : ExecutorState π ε β) :
    recoveryPasses (recovered executor s).trace = recoveryPasses s.trace + 1 := by
  have hbwd : recoveryPasses (recoveryPass executor s).events = 0 := by
    rw [recoveryPasses, List.countP_eq_zero]
    intro event hmem
    have h := pass_backward executor s.data s.compensable.reverse s.calls s.budget event hmem
    cases event <;> simp_all [Event.isBackward]
  rw [recovered_trace]
  simp only [recoveryPasses, List.countP_append] at hbwd ⊢
  rw [hbwd]
  simp

theorem recoveryPasses_once {s : ExecutorState π ε β}
    (hfwd : ∀ event ∈ s.trace, event.isForward = true) :
    recoveryPasses (recovered executor s).trace = 1 := by
  rw [recoveryPasses_recovered, recoveryPasses_forward hfwd]

/-- A run whose saga clock did not fire is not reported as timed out and
recovers at most once. -/
def TimedOutMeansExpired (outcome : Except (PyError ε) (SagaResult π ε))
    (final : ExecutorState π ε β) : Prop :=
  final.expired = false →
    (∀ result, outcome = .ok result → result.status ≠ .timedOut) ∧
      recoveryPasses final.trace ≤ 1

/-- Under a saga timeout, forward execution fails and the handler called for
the first compensation that fails raises a `TimeoutError` of its own. -/
def EscalationTimesOut (executor : SagaExecutor π ε β) : Prop :=
  executor.flow.sagaTimeout.isSome = true ∧ ∃ reason failed,
    executeItems executor executor.items (timedState executor) = (.ok (some reason), failed) ∧
    HandlerTimesOut executor failed.data failed.compensable.reverse failed.calls failed.budget

theorem timedOut_untimed :
    TimedOutMeansExpired (runItems executor executor.items (initialState executor)).1
      (runItems executor executor.items (initialState executor)).2 := by
  intro _
  obtain ⟨s, hprog, hfinal, hstat⟩ := runItems_untimed executor
  refine ⟨hstat, ?_⟩
  rcases hfinal with hfinal | hfinal
  · rw [hfinal, recoveryPasses_forward hprog.forward]
    exact Nat.zero_le 1
  · exact hfinal ▸ (recoveryPasses_once executor hprog.forward).le

theorem timedRun_timedOut_iff {executor : SagaExecutor π ε β}
    (htimed : executor.flow.sagaTimeout.isSome = true)
    {outcome : Except (PyError ε) (SagaResult π ε)} {final : ExecutorState π ε β}
    (hrun : TimedRun executor outcome final) :
    TimedOutMeansExpired outcome final ↔ ¬ EscalationTimesOut executor := by
  have hforced : ∀ s outcome, timedForward executor = (outcome, s) →
      EscalationTimesOut executor →
        (∃ reason, outcome = .ok (some reason)) ∧
          (recoveryPass executor s).ending = .raised .timeoutError := by
    rintro s outcome hfwd ⟨_, reason, _, hfwd', htimes⟩
    obtain ⟨rfl, rfl⟩ := Prod.mk.inj (hfwd.symm.trans hfwd')
    exact ⟨⟨reason, rfl⟩, (pass_timeout_iff executor _ _ _ _).mpr htimes⟩
  cases hrun with
  | completed s _ hfwd hstat =>
    refine iff_of_true (fun _ => ⟨?_, ?_⟩) fun htimes => ?_
    · rintro _ ⟨⟩
      simp [hstat]
    · have hnone := recoveryPasses_forward (forward_running hfwd).1.forward
      exact hnone.le.trans (Nat.zero_le 1)
    · obtain ⟨⟨_, hreason⟩, _⟩ := hforced s _ hfwd htimes
      cases hreason
  | failed s _ _ hfwd hpass hstat =>
    refine iff_of_true (fun _ => ⟨?_, ?_⟩) fun htimes => ?_
    · rintro _ ⟨⟩
      simp [hstat]
    · exact (recoveryPasses_once executor (forward_running hfwd).1.forward).le
    · have htimeout := (hforced s _ hfwd htimes).2
      simp [hpass] at htimeout
  | aborted s _ _ hfwd hpass hother =>
    refine iff_of_true (fun _ => ⟨by simp, ?_⟩) fun htimes => ?_
    · exact (recoveryPasses_once executor (forward_running hfwd).1.forward).le
    · have htimeout := (hforced s _ hfwd htimes).2
      rw [hpass, PassEnd.raised.injEq] at htimeout
      exact hother htimeout
  | brokenOff s reason _ hfwd hpass =>
    have hunexpired : (recovered executor (recovered executor s).unclocked).expired =
        (recovered executor s).expired := by
      rw [recovered_expired]
      simp only [recoveryPass, ExecutorState.unclocked, pass_unclocked, Bool.or_false]
    rcases hpass with hexpd | htimeout
    · refine iff_of_true (fun hclock => ?_) fun htimes => ?_
      · rw [hunexpired, recovered_expired, hexpd] at hclock
        simp at hclock
      · have htimeout := (hforced s _ hfwd htimes).2
        simp [hexpd] at htimeout
    · refine iff_of_false (fun hmeans => ?_) (not_not.mpr ⟨htimed, reason, s, hfwd, ?_⟩)
      · have hclock : (recovered executor (recovered executor s).unclocked).expired = false := by
          rw [hunexpired, recovered_expired, htimeout, (forward_running hfwd).2]
          rfl
        have htwice : recoveryPasses (recovered executor
            (recovered executor s).unclocked).trace = 2 := by
          rw [recoveryPasses_recovered]
          exact congrArg (· + 1) (recoveryPasses_once executor (forward_running hfwd).1.forward)
        have honce := (hmeans hclock).2
        omega
      · exact (pass_timeout_iff executor _ _ _ _).mp htimeout
  | cancelled s hfwd =>
    refine iff_of_true (fun _ => ⟨by simp, ?_⟩) fun htimes => ?_
    · have hnone := recoveryPasses_forward (forward_cancelled hfwd).2.forward
      exact hnone.le.trans (Nat.zero_le 1)
    · obtain ⟨⟨_, hreason⟩, _⟩ := hforced s _ hfwd htimes
      cases hreason
  | expired s _ hfwd hexpd =>
    refine iff_of_true (fun hclock => ?_) fun htimes => ?_
    · rw [recovered_expired] at hclock
      simp [ExecutorState.unclocked, hexpd] at hclock
    · obtain ⟨⟨_, hreason⟩, _⟩ := hforced s _ hfwd htimes
      cases hreason

/-- `TIMED_OUT` means that the saga clock fired exactly when the compensation
failure handler does not raise a `TimeoutError` of its own. -/
theorem timed_out_means_expired_iff (executor : SagaExecutor π ε β) :
    TimedOutMeansExpired (run executor).1 (run executor).2 ↔ ¬ EscalationTimesOut executor := by
  rcases run_cases executor with ⟨hitems, hrun⟩ | ⟨hplain, hrun⟩ | ⟨htimed, hrun⟩
  · rw [hrun]
    refine iff_of_true (fun _ => ⟨by simp, by simp [initialState, recoveryPasses]⟩) ?_
    rintro ⟨_, _, _, hforward, _⟩
    rw [hitems] at hforward
    cases hforward
  · rw [hrun]
    refine iff_of_true (timedOut_untimed executor) ?_
    rintro ⟨htimed, _⟩
    simp [hplain] at htimed
  · exact timedRun_timedOut_iff htimed hrun

/-- A compensation fails once, the handler answers with a `TimeoutError`, and
the deadline never comes. -/
def alarmedExecutor : SagaExecutor Unit Unit Unit :=
  sampleExecutor
    { items :=
        [.step (.transaction
          { action := sampleAction "reserve" (.ok none)
            compensate := ⟨(), none, fun index _ =>
              { awaits := 1
                outcome := if index < 6 then .error (.exception ()) else .ok () }⟩ }),
          sampleFailure "ship"]
      sagaTimeout := some 1
      compensationFailureHandler := some (sampleCallback (.error .timeoutError)) }
    none

/-- The run is reported as timed out though its clock never fired. -/
theorem alarmed_saga_reported_timed_out :
    ¬ TimedOutMeansExpired (run alarmedExecutor).1 (run alarmedExecutor).2 := by
  intro hmeans
  obtain ⟨hstatus, _⟩ := hmeans rfl
  exact hstatus _ rfl rfl

end Spakky.Saga
