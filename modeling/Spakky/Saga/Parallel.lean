import Spakky.Saga.Forward

/-!
Parallel groups and whole flows, under the same assumptions as for a single step.
`reportOf` says from the callbacks what an item does: what it records, which steps
committed and which failed, and with what data and how many callbacks it leaves the
saga. The items are executed one after the other up to the first failure that is not
skipped, and the executor does exactly what their reports say.
-/

namespace Spakky.Saga

open Effect Exec List

variable {π ε β : Type}

theorem shielded_run {α : Type} {body : SagaM π ε β α} {s : ExecutorState π ε β}
    {outcome : Except (PyError ε) α} {calls : Nat} (hbody : body { s with budget := none } =
      (outcome, { s with budget := none, calls := calls })) :
    shielded body s = (outcome, { s with calls := calls }) := by
  simp only [shielded, hbody]

variable (executor : SagaExecutor π ε β) (group : List (NormalizedStep π ε β))
  (s : ExecutorState π ε β)

/-- The children of a group, each attempted once; they only share the call counter. -/
def childrenAt (data : SagaData π) :
    List (NormalizedStep π ε β) → Nat → List (ChildResult π ε β) × Nat
  | [], calls => ([], calls)
  | step :: rest, calls =>
    let first := attemptAt executor step data calls
    let others := childrenAt data rest first.2
    ((step, first.1) :: others.1, others.2)

theorem childrenAt_steps (data : SagaData π) (calls : Nat) :
    (childrenAt executor data group calls).1.map Prod.fst = group := by
  induction group generalizing calls with
  | nil => rfl
  | cons _ _ ih => simp only [childrenAt, map_cons, ih]

variable {executor group} in
theorem childrenAt_ne_cancelled (hquiet : NeverCancels executor group) (data : SagaData π)
    (calls : Nat) : ∀ result ∈ (childrenAt executor data group calls).1,
      result.2 ≠ .error .cancelledError := by
  induction group generalizing calls with
  | nil => simp [childrenAt]
  | cons step rest ih =>
    refine forall_mem_cons.mpr ⟨attemptAt_ne_cancelled executor (hquiet.mono (by simp)) _ calls, ?_⟩
    exact ih (hquiet.mono fun step hmem => .tail _ hmem) _

theorem invokeChildren_run :
    invokeChildren executor group s = (.ok (childrenAt executor s.data group s.calls).1,
      { s with calls := (childrenAt executor s.data group s.calls).2 }) := by
  induction group generalizing s with
  | nil => rfl
  | cons step rest ih =>
    have hinvoke := shielded_run
      (invokeStepAction_unbounded executor step (s := { s with budget := none }) rfl)
    simp only [invokeChildren, attempt_bind_run, hinvoke]
    rw [bind_ok _ (ih _)]
    rfl

variable (result : ChildResult π ε β)

/-- The event a finished child leaves. -/
def ChildResult.event : Event π ε :=
  .attempted result.1.position (errorOf result.2)

variable (results : List (ChildResult π ε β))

theorem reportFinished_run (s : ExecutorState π ε β) :
    reportFinished results s =
      (.ok (), { s with trace := s.trace ++ results.map ChildResult.event }) := by
  induction results generalizing s with
  | nil => simp [reportFinished]
  | cons result _ ih =>
    obtain ⟨_, _⟩ := result
    simp only [reportFinished]
    rw [bind_ok _ (emit_run _ s), ih]
    simp [ChildResult.event]

/-- The children in the order in which they finish. -/
def finishedAt (calls : Nat) : List (ChildResult π ε β) :=
  (completions results (executor.schedule.finishOrder calls results.length)).map Prod.snd

/-- The results of a group stand in declaration order; their events stand in
the order in which the children finished. A deadline at the group's own
suspension point leaves neither. -/
theorem gather_run :
    let children := childrenAt executor s.data group s.calls
    gather executor group s = match spend s.budget (min 1 group.length) with
      | some left =>
        (.ok children.1, { s with
            budget := left
            calls := children.2
            trace := s.trace ++ (finishedAt executor children.1 children.2).map ChildResult.event })
      | none => (.error .cancelledError, { s with budget := none, expired := true }) := by
  cases hspend : spend s.budget (min 1 group.length) with
  | none => exact bind_error _ ((suspend_run s _).trans (by rw [hspend]))
  | some left =>
    unfold gather
    rw [bind_ok _ ((suspend_run s _).trans (by rw [hspend])),
      bind_ok _ (invokeChildren_run executor group _), reads_bind_run,
      bind_ok _ (reportFinished_run _ _)]
    simp [finishedAt, collect_completions]

/-- What a child leaves on the compensable stack. -/
def ChildResult.compensable : List (CompensableStep π ε β) :=
  if (errorOf result.2).isNone then compensableOf result.1 else []

/-- What settling a child records. -/
def ChildResult.settled : List (Event π ε) :=
  if (errorOf result.2).isNone then [.committed result.1.position] else []

def ChildResult.record : StepRecord :=
  ⟨result.1.name, if (errorOf result.2).isNone then .committed else .failed⟩

theorem settleChildren_run (s : ExecutorState π ε β) :
    settleChildren results s =
      (.ok (), { s with
          history := s.history ++ results.map ChildResult.record
          trace := s.trace ++ results.flatMap ChildResult.settled
          compensable := s.compensable ++ results.flatMap ChildResult.compensable }) := by
  induction results generalizing s with
  | nil => simp [settleChildren]
  | cons result _ ih =>
    obtain ⟨step, outcome⟩ := result
    cases outcome with
    | error =>
      simp only [settleChildren]
      rw [bind_ok _ (recordStepFailure_run step.name s), ih]
      simp [ChildResult.record, ChildResult.settled, ChildResult.compensable, errorOf]
    | ok =>
      simp only [settleChildren, recordStepCommitted, Spakky.Saga.record, emit, bind_run,
        modify_run, rememberCompensable_run, ih]
      simp [ChildResult.record, ChildResult.settled, ChildResult.compensable, errorOf]

section

variable {results : List (ChildResult π ε β)}
  (hne : ∀ result ∈ results, result.2 ≠ .error .cancelledError)
include hne

theorem cancelledChild_eq_false : cancelledChild results = false := by
  induction results with
  | nil => rfl
  | cons result _ ih =>
    obtain ⟨_, outcome⟩ := result
    have hrest := ih fun result hmem => hne result (.tail _ hmem)
    cases outcome with
    | ok => exact hrest
    | error error =>
      have hcaught : error.isException = true :=
        isException_of_ne_cancelled fun h => hne _ (.head _) (congrArg _ h)
      simp [cancelledChild, hcaught, hrest]

theorem firstFailure_eq (hdef : ∀ result ∈ results, result.1.onError = .compensate) :
    firstFailure results = results.findSome? fun result =>
      failureOf result.1 (errorOf result.2) := by
  induction results with
  | nil => rfl
  | cons result _ ih =>
    obtain ⟨step, outcome⟩ := result
    have hrest := ih (fun result hmem => hne result (.tail _ hmem))
      (fun result hmem => hdef result (.tail _ hmem))
    have hstep : step.onError = .compensate := hdef _ (.head _)
    cases outcome with
    | ok =>
      simp [firstFailure, failureOf, errorOf, hrest]
    | error error =>
      have hcaught : error.isException = true :=
        isException_of_ne_cancelled fun h => hne _ (.head _) (congrArg _ h)
      simp [firstFailure, failureOf, errorOf, hcaught, hstep, ErrorStrategy.last]

end

theorem childEvents_forward (finished results : List (ChildResult π ε β)) :
    ∀ event ∈ finished.map ChildResult.event ++ results.flatMap ChildResult.settled,
      event.isForward = true := by
  intro event hmem
  rcases mem_append.mp hmem with hevent | hevent
  · obtain ⟨_, _, rfl⟩ := mem_map.mp hevent
    rfl
  · obtain ⟨result, _, hsettled⟩ := mem_flatMap.mp hevent
    by_cases hok : (errorOf result.2).isNone = true
    · simp only [ChildResult.settled, hok, if_true, mem_singleton] at hsettled
      rw [hsettled]
      rfl
    · simp [ChildResult.settled, hok] at hsettled

/-- What an executed item amounts to: what it records, the final outcome of each of its
steps, and the data and the number of callbacks after it. -/
structure Report (π ε β : Type) where
  item : NormalizedItem π ε β
  records : List StepRecord
  events : List (Event π ε)
  finals : List (NormalizedStep π ε β × Option (PyError ε))
  data : SagaData π
  calls : Nat

/-- The first failure that is not skipped. -/
def Report.failure (report : Report π ε β) : Failure ε :=
  report.finals.findSome? fun final => failureOf final.1 final.2

/-- What an item leaves on the compensable stack. -/
def Report.compensable (report : Report π ε β) : List (CompensableStep π ε β) :=
  report.finals.flatMap fun final => if final.2.isNone then compensableOf final.1 else []

/-- The report of an item that is executed with some data, after some callbacks. -/
def reportOf (data : SagaData π) (calls : Nat) : NormalizedItem π ε β → Report π ε β
  | .step step =>
    let made := attemptsFrom executor step data (attemptLimit step.onError) calls
    { item := .step step
      records := stepRecords step.name made.errors made.result.isSome
      events := serialEvents step made.errors made.result.isSome
      finals := [(step, made.final)]
      data := made.result.elim data (replaced data)
      calls := made.calls }
  | .parallel group =>
    let children := childrenAt executor data group calls
    { item := .parallel group
      records := children.1.map ChildResult.record
      events := (finishedAt executor children.1 children.2).map ChildResult.event ++
        children.1.flatMap ChildResult.settled
      finals := children.1.map fun result => (result.1, errorOf result.2)
      data := data
      calls := children.2 }

/-- The reports of the items up to the first failure. -/
def reportsOf : List (NormalizedItem π ε β) → SagaData π → Nat → List (Report π ε β)
  | [], _, _ => []
  | item :: rest, data, calls =>
    let report := reportOf executor data calls item
    report :: if report.failure.isSome then [] else reportsOf rest report.data report.calls

/-- The state after an item. -/
def ExecutorState.reported (s : ExecutorState π ε β) (report : Report π ε β) :
    ExecutorState π ε β :=
  { s with
    data := report.data
    calls := report.calls
    history := s.history ++ report.records
    trace := s.trace ++ report.events
    compensable := s.compensable ++ report.compensable }

section Run

variable {executor : SagaExecutor π ε β} {group : List (NormalizedStep π ε β)}
  {s : ExecutorState π ε β}

theorem executeParallel_run (hquiet : NeverCancels executor group)
    (hdef : ∀ step ∈ group, step.onError = .compensate) (hbud : s.budget = none) :
    executeParallel executor group s =
      (.ok (reportOf executor s.data s.calls (.parallel group)).failure,
        s.reported (reportOf executor s.data s.calls (.parallel group))) := by
  have hgather := gather_run executor group s
  simp only [hbud, spend] at hgather
  have hne := childrenAt_ne_cancelled hquiet s.data s.calls
  have hstrat : ∀ result ∈ (childrenAt executor s.data group s.calls).1,
      result.1.onError = .compensate := fun result hmem =>
    hdef _ (childrenAt_steps executor group s.data s.calls ▸ mem_map.mpr ⟨result, hmem, rfl⟩)
  unfold executeParallel
  rw [bind_ok _ hgather, bind_ok _ (settleChildren_run _ _), cancelledChild_eq_false hne,
    firstFailure_eq hne hstrat]
  simp only [reportOf, Report.failure, Report.compensable, ExecutorState.reported, findSome?_map,
    flatMap_map, ← append_assoc, hbud]
  rfl

theorem executeItem_run (item : NormalizedItem π ε β) (hquiet : NeverCancels executor item.steps)
    (hgroups : DefaultGroups [item]) (hbud : s.budget = none) :
    executeItem executor item s = (.ok (reportOf executor s.data s.calls item).failure,
      s.reported (reportOf executor s.data s.calls item)) := by
  cases item with
  | step step =>
    refine (executeSerialStep_unbounded hquiet hbud).trans ?_
    simp only [reportOf, Report.failure, findSome?_singleton, ExecutorState.attempted,
      ExecutorState.reported, Report.compensable, flatMap_singleton]
    rw [final_isNone]
  | parallel group => exact executeParallel_run hquiet (hgroups group (.head _)) hbud

/-- Forward execution does what the reports of its items say, one after the other. -/
theorem executeItems_run {items : List (NormalizedItem π ε β)}
    (hquiet : NeverCancels executor (declared items)) (hgroups : DefaultGroups items)
    (hbud : s.budget = none) :
    executeItems executor items s =
      (.ok ((reportsOf executor items s.data s.calls).findSome? Report.failure),
        (reportsOf executor items s.data s.calls).foldl ExecutorState.reported s) := by
  induction items generalizing s with
  | nil => rfl
  | cons item rest ih =>
    have hrun := executeItem_run (s := s) item
      (hquiet.mono fun step hmem => mem_append_left _ hmem)
      (fun group hmem => hgroups group (mem_singleton.mp hmem ▸ .head _)) hbud
    cases hfail : (reportOf executor s.data s.calls item).failure with
    | some reason =>
      rw [hfail] at hrun
      rw [executeItems, bind_ok _ hrun]
      simp [reportsOf, hfail]
    | none =>
      rw [hfail] at hrun
      have hrest := ih (s := s.reported (reportOf executor s.data s.calls item))
        (hquiet.mono fun step hmem => mem_append_right _ hmem)
        (fun group hmem => hgroups group (.tail _ hmem)) hbud
      rw [executeItems, bind_ok _ hrun]
      refine hrest.trans ?_
      simp [reportsOf, hfail, ExecutorState.reported]

end Run

section Reports

variable (executor : SagaExecutor π ε β)

theorem reportOf_finals (data : SagaData π) (calls : Nat) (item : NormalizedItem π ε β) :
    (reportOf executor data calls item).item = item ∧
      (reportOf executor data calls item).finals.map Prod.fst = item.steps := by
  cases item with
  | step => exact ⟨rfl, rfl⟩
  | parallel group =>
    refine ⟨rfl, ?_⟩
    rw [reportOf, map_map]
    exact childrenAt_steps executor group data calls

theorem reportOf_forward (data : SagaData π) (calls : Nat) (item : NormalizedItem π ε β) :
    ∀ event ∈ (reportOf executor data calls item).events, event.isForward = true := by
  cases item with
  | step step => exact serialEvents_forward step _ _
  | parallel => exact childEvents_forward _ _

/-- The items executed are the first ones, and all of them unless one fails. -/
theorem reportsOf_items (items : List (NormalizedItem π ε β)) (data : SagaData π) (calls : Nat) :
    let reports := reportsOf executor items data calls
    reports.map Report.item <+: items ∧
      (reports.findSome? Report.failure = none → reports.map Report.item = items) := by
  induction items generalizing data calls with
  | nil => exact ⟨prefix_refl _, fun _ => rfl⟩
  | cons item rest ih =>
    have hitem := (reportOf_finals executor data calls item).1
    cases hfail : (reportOf executor data calls item).failure with
    | some => simp [reportsOf, hfail, hitem]
    | none =>
      obtain ⟨hreached, hall⟩ := ih (reportOf executor data calls item).data
        (reportOf executor data calls item).calls
      simp only [reportsOf, hfail, Option.isSome_none, Bool.false_eq_true, if_false, map_cons,
        hitem, findSome?_cons]
      exact ⟨(prefix_cons_inj _).mpr hreached, fun hnone => congrArg _ (hall hnone)⟩

end Reports

/-- The execution units of the flow; a flow that does not normalize has
none. -/
def SagaExecutor.items (executor : SagaExecutor π ε β) : List (NormalizedItem π ε β) :=
  match normalize 0 executor.flow.items with
  | .ok items => items
  | .error _ => []

theorem SagaExecutor.items_nodup : ((declared executor.items).map (·.position)).Nodup := by
  unfold SagaExecutor.items
  cases hitems : normalize 0 executor.flow.items with
  | ok items => exact declared_nodup _ items hitems
  | error => simp

theorem SagaExecutor.items_defaultGroups : DefaultGroups executor.items := by
  unfold SagaExecutor.items
  cases hitems : normalize 0 executor.flow.items with
  | ok items => exact (normalize_ok 0 _ items hitems).2
  | error => simp [DefaultGroups]

end Spakky.Saga
