import Spakky.Saga.Untimed

/-!
The history of a saga result: what every executed item adds to it, and what the recovery
adds at its end. The call counter tells that no callback is invoked besides those that
the reports of the items and the compensations account for.
-/

namespace Spakky.Saga

open Effect Exec List

variable {π ε β : Type} {executor : SagaExecutor π ε β}

theorem forward_recovered {forward backward : List (Event π ε)}
    (hforward : ∀ event ∈ forward, event.isForward = true)
    (hbackward : ∀ event ∈ backward, event.isBackward = true) :
    (forward ++ [Event.recovering] ++ backward).filter Event.isForward = forward := by
  rw [append_assoc, filter_append, filter_eq_self.mpr hforward, filter_eq_nil_iff.mpr, append_nil]
  intro event hmem
  rcases mem_cons.mp hmem with rfl | htail
  · exact Bool.false_ne_true
  · have hevent := hbackward event htail
    cases event <;> simp_all [Event.isBackward, Event.isForward]

/-- Every report is that of its item, for some data and number of callbacks. -/
theorem reportsOf_mem {items : List (NormalizedItem π ε β)} {data : SagaData π} {calls : Nat}
    {report : Report π ε β} (hmem : report ∈ reportsOf executor items data calls) :
    ∃ data calls, report = reportOf executor data calls report.item := by
  induction items generalizing data calls with
  | nil => cases hmem
  | cons item rest ih =>
    rcases mem_cons.mp hmem with rfl | hlater
    · exact ⟨data, calls, by rw [(reportOf_finals executor data calls item).1]⟩
    · split at hlater
      · cases hlater
      · exact ih hlater

/-- What the history of a result and the callbacks of its run have to be. -/
structure FaithfulHistory (executor : SagaExecutor π ε β) (result : SagaResult π ε)
    (t : ExecutorState π ε β) : Prop where
  items : executor.reports.map Report.item <+: executor.items
  all : result.status = .completed → executor.reports.map Report.item = executor.items
  history : result.history = executor.reports.flatMap Report.records ++
    if result.status = .failed then
      executor.committed.reverse.map fun step => ⟨step.name, .compensated⟩
    else []
  events : t.trace.filter Event.isForward = executor.reports.flatMap Report.events
  calls : t.calls = executor.forward.calls +
    if result.status = .failed then 2 * executor.committed.length else 0
  attempts : ∀ report ∈ executor.reports, ∃ data calls,
    report = reportOf executor data calls report.item ∧
      ∀ step, report.item = .step step →
        (attemptsFrom executor step data (attemptLimit step.onError) calls).Within
          (attemptLimit step.onError)

/-- The history of a saga without a timeout is that of its executed items, in their
order, and then that of the compensations if it failed. The records of a serial step are
one for each attempt it makes, which authorizes the step and, if that is granted, calls
its action; a step that does not commit makes all the attempts it may. -/
theorem saga_history_faithful (executor : SagaExecutor π ε β)
    (huntimed : executor.flow.sagaTimeout = none)
    (hquiet : NeverCancels executor (declared executor.items)) (result : SagaResult π ε)
    (hresult : (run executor).1 = .ok result) :
    FaithfulHistory executor result (run executor).2 := by
  have hitems : normalize 0 executor.flow.items = .ok executor.items := by
    unfold SagaExecutor.items
    cases hnormalize : normalize 0 executor.flow.items with
    | ok => rfl
    | error => simp [run, hnormalize] at hresult
  obtain ⟨hreached, hall⟩ := reportsOf_items executor executor.items executor.data 0
  have hattempts : ∀ report ∈ executor.reports, ∃ data calls,
      report = reportOf executor data calls report.item ∧ ∀ step, report.item = .step step →
        (attemptsFrom executor step data (attemptLimit step.onError) calls).Within
          (attemptLimit step.onError) := by
    intro report hmem
    obtain ⟨data, calls, hreport⟩ := reportsOf_mem hmem
    exact ⟨data, calls, hreport, fun step _ => attemptsFrom_within executor step _ calls⟩
  have hrun := run_untimed huntimed hitems hquiet
  cases hfailure : executor.failure with
  | none =>
    rw [hfailure] at hrun
    rw [hrun] at hresult ⊢
    cases hresult
    refine ⟨hreached, fun _ => hall hfailure, ?_, ?_, rfl, hattempts⟩
    · simp [forward_history]
    · exact (filter_eq_self.mpr forward_events).trans forward_trace
  | some reason =>
    obtain ⟨name, error⟩ := reason
    rw [hfailure] at hrun
    have hbackward := pass_backward executor executor.forward.data executor.committed.reverse
      executor.forward.calls none
    rcases undoes_or_stops executor executor.forward.data executor.committed.reverse
        executor.forward.calls with hundoes | ⟨before, step, cause, invoked, hstops⟩
    · have hpass := pass_of_undoes _ _ hundoes
      rw [hpass] at hbackward
      rw [show executor.recovery = _ from hpass] at hrun
      rw [hrun] at hresult ⊢
      cases hresult
      refine ⟨hreached, by simp, ?_, ?_, ?_, hattempts⟩
      · simp [ExecutorState.after, forward_history]
      · exact (forward_recovered forward_events hbackward).trans forward_trace
      · simp [ExecutorState.after]
    · have hend := (recovery_of_stops hquiet hstops).1
      simp [hrun, hend, PassEnd.result] at hresult

/-- The booking is recorded for both of its attempts, the compensations at the end. -/
theorem saga_history_travel :
    ∃ result, (run (travelExecutor (.ok ()))).1 = .ok result ∧
      result.history =
        [⟨"book", .failed⟩, ⟨"book", .committed⟩, ⟨"pay", .committed⟩, ⟨"notify", .committed⟩,
          ⟨"pack", .committed⟩, ⟨"ship", .failed⟩, ⟨"pack", .compensated⟩, ⟨"pay", .compensated⟩,
          ⟨"book", .compensated⟩] ∧
      (run (travelExecutor (.ok ()))).2.calls = 18 := by
  have hfaithful := saga_history_faithful (travelExecutor (.ok ())) rfl
    (travelExecutor_neverCancels _ (by simp)) _ rfl
  exact ⟨_, rfl, hfaithful.history, hfaithful.calls⟩

/-- One step that is refused. -/
def refusedExecutor : SagaExecutor Unit Unit Unit :=
  { sampleExecutor { items := [.callable (sampleAction "pay" (.ok none))] } none with
    authContext := ⟨fun _ _ _ _ _ => some (.exception ())⟩ }

/-- A step that is refused leaves a record although its action was not called. -/
theorem refused_step_not_called :
    (run refusedExecutor).2.history = [⟨"pay", .failed⟩] ∧ (run refusedExecutor).2.calls = 1 :=
  ⟨rfl, rfl⟩

end Spakky.Saga
