import Mathlib.Data.List.Flatten
import Spakky.Saga.Recovery

/-!
Whole runs of a saga without a saga timeout, in which no callback raises
`CancelledError`. The reports of the flow's items say from the callbacks which steps
committed and which failure ended forward execution; the compensations the executor
invokes are read off the reversed stack of committed steps, and they stop at the first
one that fails.
-/

namespace Spakky.Saga

open Effect Exec List

variable {π ε β : Type}

section Reference

variable (executor : SagaExecutor π ε β)

/-- The reports of the items that are executed. -/
def SagaExecutor.reports : List (Report π ε β) :=
  reportsOf executor executor.items executor.data 0

/-- The first failure that is not skipped. -/
def SagaExecutor.failure : Failure ε := executor.reports.findSome? Report.failure

/-- The compensable steps that commit, in declaration order. -/
def SagaExecutor.committed : List (CompensableStep π ε β) :=
  executor.reports.flatMap Report.compensable

/-- The state in which forward execution ends. -/
def SagaExecutor.forward : ExecutorState π ε β :=
  executor.reports.foldl ExecutorState.reported (initialState executor)

end Reference

theorem foldl_reported (reports : List (Report π ε β)) (s : ExecutorState π ε β) :
    let t := reports.foldl ExecutorState.reported s
    t.history = s.history ++ reports.flatMap Report.records ∧
      t.trace = s.trace ++ reports.flatMap Report.events ∧
      t.compensable = s.compensable ++ reports.flatMap Report.compensable ∧
      t.budget = s.budget := by
  induction reports generalizing s with
  | nil => simp
  | cons report _ ih =>
    obtain ⟨hhist, htrace, hcomp, hbud⟩ := ih (s.reported report)
    refine ⟨hhist.trans ?_, htrace.trans ?_, hcomp.trans ?_, hbud⟩ <;>
      simp [ExecutorState.reported]

variable {executor : SagaExecutor π ε β}

theorem forward_history : executor.forward.history = executor.reports.flatMap Report.records :=
  (foldl_reported _ _).1

theorem forward_trace : executor.forward.trace = executor.reports.flatMap Report.events :=
  (foldl_reported _ _).2.1

theorem forward_compensable : executor.forward.compensable = executor.committed :=
  (foldl_reported _ _).2.2.1

theorem forward_events : ∀ event ∈ executor.forward.trace, event.isForward = true := by
  have hall (items : List (NormalizedItem π ε β)) (data : SagaData π) (calls : Nat) :
      ∀ report ∈ reportsOf executor items data calls,
        ∀ event ∈ report.events, event.isForward = true := by
    induction items generalizing data calls with
    | nil => simp [reportsOf]
    | cons item rest ih =>
      refine forall_mem_cons.mpr ⟨reportOf_forward executor data calls item, ?_⟩
      split
      · simp
      · exact ih _ _
  rw [forward_trace]
  intro event hmem
  obtain ⟨report, hreport, hevent⟩ := mem_flatMap.mp hmem
  exact hall _ _ _ report hreport event hevent

/-- The steps that commit are declared ones, in their order. -/
theorem committed_sublist :
    executor.committed.Sublist ((declared executor.items).flatMap compensableOf) := by
  have hreport (report : Report π ε β) :
      report.compensable.Sublist ((report.finals.map Prod.fst).flatMap compensableOf) := by
    rw [Report.compensable, flatMap_map]
    refine Sublist.flatMap_right _ fun final _ => ?_
    split
    · exact Sublist.refl _
    · exact nil_sublist _
  have hall (items : List (NormalizedItem π ε β)) (data : SagaData π) (calls : Nat) :
      ((reportsOf executor items data calls).flatMap Report.compensable).Sublist
        ((declared items).flatMap compensableOf) := by
    induction items generalizing data calls with
    | nil => exact .slnil
    | cons item rest ih =>
      have hfirst := hreport (reportOf executor data calls item)
      rw [(reportOf_finals executor data calls item).2] at hfirst
      simp only [reportsOf, flatMap_cons, declared_cons, flatMap_append]
      refine hfirst.append ?_
      split
      · exact nil_sublist _
      · exact ih _ _
  exact hall _ _ _

theorem committed_nodup : (executor.committed.map (·.position)).Nodup := by
  have hdeclared (steps : List (NormalizedStep π ε β)) :
      ((steps.flatMap compensableOf).map (·.position)).Sublist (steps.map (·.position)) := by
    induction steps with
    | nil => exact .slnil
    | cons step _ ih =>
      rw [flatMap_cons, map_append, map_cons]
      exact (compensableOf_positions step).append ih
  exact executor.items_nodup.sublist ((committed_sublist.map _).trans (hdeclared _))

/-- The pass over the reversed stack that follows a failure. -/
abbrev SagaExecutor.recovery (executor : SagaExecutor π ε β) : Pass π ε :=
  pass executor executor.forward.data executor.committed.reverse executor.forward.calls none

/-- A run without a saga timeout is forward execution, followed by the recovery
if it failed. -/
theorem run_untimed (huntimed : executor.flow.sagaTimeout = none)
    (hitems : normalize 0 executor.flow.items = .ok executor.items)
    (hquiet : NeverCancels executor (declared executor.items)) :
    run executor = match executor.failure with
      | none => (.ok
          { status := .completed
            data := executor.forward.data
            history := executor.forward.history }, executor.forward)
      | some (name, error) =>
        let final := .after
          { executor.forward with trace := executor.forward.trace ++ [.recovering] }
          executor.recovery
        (match executor.recovery.ending.result with
          | .ok _ => .ok
              { status := .failed
                data := executor.forward.data
                failedStep := some name
                error := some error
                history := final.history }
          | .error raised => .error raised, final) := by
  have hrun : executeItems executor executor.items (initialState executor) =
      (.ok executor.failure, executor.forward) :=
    executeItems_run hquiet executor.items_defaultGroups rfl
  have hbud : executor.forward.budget = none := (foldl_reported _ _).2.2.2
  simp only [run, hitems, huntimed, runItems]
  rw [bind_ok _ hrun]
  cases executor.failure with
  | none => rfl
  | some reason =>
    obtain ⟨name, error⟩ := reason
    simp only [bind_run, runCompensation_run, hbud, forward_compensable]
    cases executor.recovery.ending <;> rfl

/-- What recovery has to have done by the end of a run. The callbacks of the recovery
follow those of forward execution: the compensations of the steps are authorized and
invoked one after the other, with the data forward execution ended with. -/
structure RecoveredExactly (executor : SagaExecutor π ε β)
    (outcome : Except (PyError ε) (SagaResult π ε)) (trace : List (Event π ε)) : Prop where
  completed : ∀ result, outcome = .ok result → result.status = .completed →
    executor.failure = none ∧ invokedCompensations trace = []
  recovered : ∀ result, outcome = .ok result → result.status = .failed →
    Undoes executor executor.forward.data executor.forward.calls executor.committed.reverse ∧
    invokedCompensations trace =
      executor.committed.reverse.map (fun step => (step.position, executor.forward.data)) ∧
    ∃ name error, executor.failure = some (name, error) ∧
      result.failedStep = some name ∧ result.error = some error
  raises : (∃ cause, outcome = .error (.sagaCompensationFailedError cause)) ↔
    executor.failure.isSome = true ∧ ∃ before step cause invoked,
      Stops executor executor.forward.data executor.forward.calls executor.committed.reverse
        before step cause invoked ∧
      Surfaces executor executor.forward.data
        (executor.forward.calls + 2 * before.length + 1 + invoked.toNat)
  stopped : executor.failure.isSome = true → ∀ before step cause invoked,
    Stops executor executor.forward.data executor.forward.calls executor.committed.reverse
      before step cause invoked →
    invokedCompensations trace = (before ++ if invoked then [step] else []).map
      fun step => (step.position, executor.forward.data)

/-- The compensations a failed run invokes are those of its recovery. -/
theorem invokedCompensations_recovery :
    invokedCompensations (executor.forward.trace ++ [.recovering] ++ executor.recovery.events) =
      (executor.committed.reverse.take executor.recovery.invoked).map
        fun step => (step.position, executor.forward.data) := by
  rw [← pass_compensations, invokedCompensations_append, invokedCompensations_append,
    invokedCompensations_forward _ forward_events]
  rfl

theorem recovery_of_undoes (hundoes : Undoes executor executor.forward.data
      executor.forward.calls executor.committed.reverse) :
    executor.recovery.ending = .completed ∧
      invokedCompensations (executor.forward.trace ++ [.recovering] ++ executor.recovery.events) =
        executor.committed.reverse.map fun step => (step.position, executor.forward.data) := by
  have hpass : executor.recovery = _ := pass_of_undoes _ _ hundoes
  have hall : executor.recovery.invoked = executor.committed.reverse.length := by rw [hpass]
  rw [invokedCompensations_recovery, hall, take_length]
  exact ⟨by rw [hpass], rfl⟩

section Recovered

variable (hquiet : NeverCancels executor (declared executor.items))
include hquiet

/-- A compensation that fails does so with an error that is caught. -/
theorem Stops.isException {before : List (CompensableStep π ε β)}
    {step : CompensableStep π ε β} {data : SagaData π} {calls : Nat} {cause : PyError ε}
    {invoked : Bool}
    (hstops : Stops executor data calls executor.committed.reverse before step cause invoked) :
    cause.isException = true := by
  obtain ⟨⟨after, hsplit⟩, _, hfails⟩ := hstops
  refine isException_of_ne_cancelled ?_
  rintro rfl
  cases hfails with
  | refused hauth => exact hquiet.authorize _ _ _ _ _ hauth
  | raised _ hout =>
    have hmem : step ∈ executor.committed := by
      rw [← mem_reverse, hsplit]
      simp
    obtain ⟨declaring, hdeclared, hentry⟩ := mem_flatMap.mp (committed_sublist.subset hmem)
    cases hcomp : declaring.compensate with
    | none => simp [compensableOf, hcomp] at hentry
    | some compensate =>
      simp only [compensableOf, hcomp, mem_singleton] at hentry
      rw [hentry] at hout
      exact hquiet.compensate declaring hdeclared compensate hcomp _ _ hout

/-- Recovery ends at the first step that cannot be undone. -/
theorem recovery_of_stops {before : List (CompensableStep π ε β)} {step : CompensableStep π ε β}
    {cause : PyError ε} {invoked : Bool}
    (hstops : Stops executor executor.forward.data executor.forward.calls
      executor.committed.reverse before step cause invoked) :
    executor.recovery.ending = .raised (escalation executor executor.forward.data cause
        (executor.forward.calls + 2 * before.length + 1 + invoked.toNat)) ∧
      invokedCompensations (executor.forward.trace ++ [.recovering] ++ executor.recovery.events) =
        (before ++ if invoked then [step] else []).map
          fun step => (step.position, executor.forward.data) := by
  obtain ⟨hend, hinvd⟩ := pass_of_stops _ _ hstops (hstops.isException hquiet)
  refine ⟨hend, ?_⟩
  obtain ⟨after, hsplit⟩ := hstops.split
  rw [invokedCompensations_recovery, hinvd, hsplit, take_length_add_append]
  cases invoked <;> rfl

/-- A failed saga: recovery runs over the committed steps and either undoes
them all or stops at the first one that cannot be undone. -/
theorem recoveredExactly_of_failed {name : String} {error : PyError ε}
    (hfailure : executor.failure = some (name, error)) {result : SagaResult π ε}
    (hstat : result.status = .failed) (hname : result.failedStep = some name)
    (herror : result.error = some error) :
    RecoveredExactly executor
      (match executor.recovery.ending.result with
        | .ok _ => .ok result
        | .error raised => .error raised)
      (executor.forward.trace ++ [.recovering] ++ executor.recovery.events) := by
  rcases undoes_or_stops executor executor.forward.data executor.committed.reverse
      executor.forward.calls with hundoes | ⟨before, step, cause, invoked, hstops⟩
  · obtain ⟨hend, hinvd⟩ := recovery_of_undoes hundoes
    have hnever : ∀ before step cause invoked, ¬ Stops executor executor.forward.data
        executor.forward.calls executor.committed.reverse before step cause invoked := by
      intro before step cause invoked hstops
      rw [(recovery_of_stops hquiet hstops).1] at hend
      cases hend
    rw [hend]
    refine ⟨?_, ?_, ?_, ?_⟩
    · rintro _ ⟨⟩ hcompleted
      rw [hstat] at hcompleted
      cases hcompleted
    · rintro _ ⟨⟩ _
      exact ⟨hundoes, hinvd, name, error, hfailure, hname, herror⟩
    · refine ⟨fun ⟨_, hraised⟩ => (by cases hraised), ?_⟩
      rintro ⟨_, before, step, cause, invoked, hstops, _⟩
      exact absurd hstops (hnever before step cause invoked)
    · exact fun _ before step cause invoked hstops =>
        absurd hstops (hnever before step cause invoked)
  · obtain ⟨hend, -⟩ := recovery_of_stops hquiet hstops
    rw [hend]
    refine ⟨fun _ hok => (by cases hok), fun _ hok => (by cases hok), ?_,
      fun _ _ _ _ _ hstops => (recovery_of_stops hquiet hstops).2⟩
    change (∃ cause', (Except.error _ : Except (PyError ε) (SagaResult π ε)) = .error _) ↔ _
    simp only [Except.error.injEq]
    constructor
    · intro hsurfaces
      exact ⟨by rw [hfailure]; rfl, before, step, cause, invoked, hstops,
        (escalation_surfaces ..).mp hsurfaces⟩
    · rintro ⟨_, before', step', cause', invoked', hstops', hsurfaces⟩
      have hsame := (recovery_of_stops hquiet hstops').1
      rw [hend] at hsame
      rw [PassEnd.raised.inj hsame]
      exact (escalation_surfaces ..).mpr hsurfaces

end Recovered

/-- Backward recovery without a saga timeout. A completed saga invokes no
compensation; a failed one undoes exactly the committed steps in reverse and
names the first unskipped failure; `SagaCompensationFailedError` surfaces
exactly when a compensation fails and the handler does not raise another
error, and the compensations invoked are those up to the one that failed. -/
theorem backward_recovery_exact (executor : SagaExecutor π ε β)
    (huntimed : executor.flow.sagaTimeout = none)
    (hquiet : NeverCancels executor (declared executor.items)) :
    RecoveredExactly executor (run executor).1 (run executor).2.trace ∧
      (executor.committed.map (·.position)).Nodup := by
  refine ⟨?_, committed_nodup⟩
  have hforward (outcome : Except (PyError ε) (SagaResult π ε)) (hnone : executor.failure = none)
      (hstat : ∀ result, outcome = .ok result → result.status ≠ .failed)
      (herror : ∀ cause, outcome ≠ .error (.sagaCompensationFailedError cause)) :
      RecoveredExactly executor outcome executor.forward.trace := by
    refine ⟨fun _ _ _ => ⟨hnone, invokedCompensations_forward _ forward_events⟩,
      fun result hresult hfailed => absurd hfailed (hstat result hresult), ?_, ?_⟩
    · refine ⟨fun ⟨cause, hcause⟩ => absurd hcause (herror cause), ?_⟩
      rintro ⟨hsome, _⟩
      rw [hnone] at hsome
      cases hsome
    · intro hsome
      rw [hnone] at hsome
      cases hsome
  cases hnormalize : normalize 0 executor.flow.items with
  | error error =>
    have hitems : executor.items = [] := by simp only [SagaExecutor.items, hnormalize]
    have hreports : executor.reports = [] := by rw [SagaExecutor.reports, hitems, reportsOf]
    have hrun : run executor = (.error error, executor.forward) := by
      simp only [run, hnormalize, SagaExecutor.forward, hreports, foldl_nil]
    rw [hrun]
    refine hforward _ (by rw [SagaExecutor.failure, hreports]; rfl) (by simp) fun cause hcause => ?_
    rw [normalize_error 0 _ error hnormalize] at hcause
    cases hcause
  | ok =>
    have hitems : normalize 0 executor.flow.items = .ok executor.items := by
      simp only [SagaExecutor.items, hnormalize]
    rw [run_untimed huntimed hitems hquiet]
    cases hfailure : executor.failure with
    | none => exact hforward _ hfailure (by simp) (by simp)
    | some reason =>
      obtain ⟨name, error⟩ := reason
      exact recoveredExactly_of_failed hquiet hfailure rfl rfl rfl

def sampleData : SagaData Unit := ⟨0, none, ()⟩

def sampleAction (name : String) (outcome : Except (PyError Unit) (Option (SagaData Unit))) :
    ActionFn Unit Unit Unit :=
  ⟨(), some name, fun _ _ => { awaits := 0, outcome := outcome }⟩

/-- A callback that passes one suspension point. -/
def sampleCallback (outcome : Except (PyError Unit) Unit) : CompensateFn Unit Unit Unit :=
  ⟨(), none, fun _ _ => { awaits := 1, outcome := outcome }⟩

def sampleTransaction (name : String) (outcome : Except (PyError Unit) Unit) :
    FlowItem Unit Unit Unit :=
  .step (.transaction
    { action := sampleAction name (.ok none), compensate := sampleCallback outcome })

def sampleFailure (name : String) : FlowItem Unit Unit Unit :=
  .callable (sampleAction name (.error (.exception ())))

def sampleExecutor (flow : SagaFlow Unit Unit Unit) (deadline : Option Nat) :
    SagaExecutor Unit Unit Unit :=
  { flow := flow
    data := sampleData
    authContext := ⟨fun _ _ _ _ _ => none⟩
    schedule := ⟨deadline, fun _ _ => Equiv.refl _⟩ }

/-- A step whose failure is skipped, and one whose failure is not. -/
def skippingExecutor : SagaExecutor Unit Unit Unit :=
  sampleExecutor
    { items :=
        [.step (.sagaStep
            { action := sampleAction "audit" (.error (.exception ())), onError := .skip }),
          sampleFailure "ship"] }
    none

/-- A transaction that cannot be undone, and a handler that raises. -/
def escalatingExecutor : SagaExecutor Unit Unit Unit :=
  sampleExecutor
    { items := [sampleTransaction "charge" (.error (.exception ())), sampleFailure "ship"]
      compensationFailureHandler :=
        some (sampleCallback (.error (.sagaCompensationFailedError .timeoutError))) }
    none

/-- The failed step of a result is not the first one that failed if that one was skipped,
and `SagaCompensationFailedError` may also be what the handler raises. -/
theorem failed_step_and_handler :
    (∃ result, (run skippingExecutor).1 = .ok result ∧
      result.history = [⟨"audit", .failed⟩, ⟨"ship", .failed⟩] ∧
      result.failedStep = some "ship") ∧
    (run escalatingExecutor).1 = .error (.sagaCompensationFailedError .timeoutError) ∧
      (run escalatingExecutor).2.trace.contains
        (.escalated (some (.sagaCompensationFailedError .timeoutError))) = true :=
  ⟨⟨_, rfl, rfl, rfl⟩, rfl, rfl⟩

/-- A booking that succeeds at its second attempt and replaces the data, a payment and a
notice in parallel, a parcel, and a shipment that fails. -/
def travelExecutor (refund : Except (PyError Unit) Unit) : SagaExecutor Unit Unit Unit :=
  sampleExecutor
    { items :=
        [.step (.transaction
            { action := ⟨(), some "book", fun index _ =>
                { awaits := 0
                  outcome :=
                    if index = 1 then .error (.exception ()) else .ok (some ⟨7, none, ()⟩) }⟩
              compensate := sampleCallback (.ok ())
              onError := .retry {} }),
          .parallel
            [.transaction
              { action := sampleAction "pay" (.ok none), compensate := sampleCallback refund },
              .sagaStep { action := sampleAction "notify" (.ok none) }],
          sampleTransaction "pack" (.ok ()),
          sampleFailure "ship"]
      compensationFailureHandler := some (sampleCallback (.ok ())) }
    none

theorem travelExecutor_neverCancels (refund : Except (PyError Unit) Unit)
    (hrefund : refund ≠ .error .cancelledError) :
    NeverCancels (travelExecutor refund) (declared (travelExecutor refund).items) := by
  refine ⟨by simp [travelExecutor, sampleExecutor], ?_, ?_, ?_⟩
  · intro step hmem index data
    change step ∈ [_, _, _, _, _] at hmem
    simp only [mem_cons, not_mem_nil, or_false] at hmem
    rcases hmem with rfl | rfl | rfl | rfl | rfl
    · change (if index = 1 then _ else _) ≠ _
      split <;> simp
    all_goals simp [normalizeStep, normalizeCallable, sampleAction]
  · intro step hmem compensate hcomp index data
    change step ∈ [_, _, _, _, _] at hmem
    simp only [mem_cons, not_mem_nil, or_false] at hmem
    rcases hmem with rfl | rfl | rfl | rfl | rfl <;> cases hcomp
    · simp [sampleCallback]
    · exact hrefund
    · simp [sampleCallback]
  · rintro _ ⟨⟩ index data
    simp [sampleCallback]

/-- The refund fails: the parcel is undone before it, and the booking not at all. -/
theorem backward_recovery_travel :
    (run (travelExecutor (.error (.exception ())))).1 =
        .error (.sagaCompensationFailedError (.exception ())) ∧
      (travelExecutor (.error (.exception ()))).committed.map (·.name) = ["book", "pay", "pack"] ∧
      invokedCompensations (run (travelExecutor (.error (.exception ())))).2.trace =
        [(3, ⟨7, none, ()⟩), (1, ⟨7, none, ()⟩)] := by
  have hexact := (backward_recovery_exact (travelExecutor (.error (.exception ()))) rfl
    (travelExecutor_neverCancels _ (by simp))).1
  exact ⟨rfl, rfl, hexact.stopped rfl [_] _ (.exception ()) true
    ⟨⟨[_], rfl⟩, ⟨rfl, rfl, trivial⟩, .raised rfl rfl⟩⟩

end Spakky.Saga
