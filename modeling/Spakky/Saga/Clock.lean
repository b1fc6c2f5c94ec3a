import Spakky.Saga.Parallel

/-!
Forward execution under any clock and any callbacks. Wherever it is cut off,
the compensable stack lists committed steps only, each of them once and in
declaration order, and nothing but a cancellation can leave it.
-/

namespace Spakky.Saga

open Effect Exec List

variable {π ε β : Type}

/-- The commits of a trace. -/
def committedPositions (trace : List (Event π ε)) : List Nat :=
  trace.filterMap fun
    | .committed position => some position
    | _ => none

@[simp] theorem committedPositions_append (first second : List (Event π ε)) :
    committedPositions (first ++ second) =
      committedPositions first ++ committedPositions second := by
  simp [committedPositions]

/-- Forward execution has got no further than the given positions. -/
structure Progress (positions : List Nat) (s : ExecutorState π ε β) : Prop where
  forward : ∀ event ∈ s.trace, event.isForward = true
  committed : (committedPositions s.trace).Sublist positions
  compensable : (s.compensable.map (·.position)).Sublist (committedPositions s.trace)

/-- The clock has not fired yet. -/
def Running (positions : List Nat) (s : ExecutorState π ε β) : Prop :=
  Progress positions s ∧ s.expired = false

/-- A callback has raised; the clock has fired only if it raised the
cancellation. -/
def Raised (positions : List Nat) (error : PyError ε) (s : ExecutorState π ε β) : Prop :=
  Progress positions s ∧ (error.isException = true → s.expired = false)

/-- Forward execution was cancelled. -/
def Cancelled (positions : List Nat) (error : PyError ε) (s : ExecutorState π ε β) : Prop :=
  error = .cancelledError ∧ Progress positions s

variable {positions : List Nat} {s : ExecutorState π ε β} {more : List Nat}

theorem Progress.mono (hprog : Progress positions s) (hmore : positions.Sublist more) :
    Progress more s :=
  ⟨hprog.forward, hprog.committed.trans hmore, hprog.compensable⟩

theorem Running.mono (hrunning : Running positions s) (hmore : positions.Sublist more) :
    Running more s :=
  ⟨hrunning.1.mono hmore, hrunning.2⟩

theorem Cancelled.mono {error : PyError ε} (hcancelled : Cancelled positions error s)
    (hmore : positions.Sublist more) : Cancelled more error s :=
  ⟨hcancelled.1, hcancelled.2.mono hmore⟩

theorem cancelled_of_not_exception {error : PyError ε} (h : error.isException = false) :
    error = .cancelledError := by
  cases error <;> simp_all [PyError.isException]

/-- Events that are no commits leave the invariant alone. -/
theorem Progress.emit {event : Event π ε} (hprog : Progress positions s)
    (hfwd : event.isForward = true) (hother : committedPositions [event] = []) :
    Progress positions { s with trace := s.trace ++ [event] } where
  forward := forall_mem_append.mpr ⟨hprog.forward, forall_mem_singleton.mpr hfwd⟩
  committed := by
    rw [committedPositions_append, hother, append_nil]
    exact hprog.committed
  compensable := by
    rw [committedPositions_append, hother, append_nil]
    exact hprog.compensable

section Triples

variable {positions : List Nat}

theorem suspend_triple (count : Nat) :
    Triple (Running positions) (suspend count : SagaM π ε β Unit) (fun _ => Running positions)
      (Cancelled positions) := by
  intro s hrunning
  have hprog := hrunning.1
  rw [suspend_run]
  cases spend s.budget count with
  | some =>
    exact ⟨⟨hprog.forward, hprog.committed, hprog.compensable⟩, hrunning.2⟩
  | none => exact ⟨rfl, hprog.forward, hprog.committed, hprog.compensable⟩

theorem suspend_raised (count : Nat) :
    Triple (Running positions) (suspend count : SagaM π ε β Unit) (fun _ => Running positions)
      (Raised positions) :=
  (suspend_triple count).weaken (fun _ h => h) (fun _ _ h => h)
    (fun _ _ h => ⟨h.2, by simp [h.1, PyError.isException]⟩)

theorem await_triple {α : Type} (call : Call ε α) :
    Triple (Running positions) (await call : SagaM π ε β α) (fun _ => Running positions)
      (Raised positions) :=
  (suspend_raised call.awaits).bind fun _ =>
    .ofExcept (fun _ _ _ hrunning => hrunning)
      (fun _ _ _ hrunning => ⟨hrunning.1, fun _ => hrunning.2⟩)

theorem takeCall_triple :
    Triple (Running positions) (takeCall : SagaM π ε β Nat) (fun _ => Running positions)
      (Raised positions) :=
  fun _ hrunning =>
    ⟨⟨hrunning.1.forward, hrunning.1.committed, hrunning.1.compensable⟩, hrunning.2⟩

theorem raise_triple {α : Type} (error : PyError ε) :
    Triple (Running positions) (raise error : SagaM π ε β α) (fun _ => Running positions)
      (Raised positions) :=
  .raise fun _ hrunning => ⟨hrunning.1, fun _ => hrunning.2⟩

variable (executor : SagaExecutor π ε β) (step : NormalizedStep π ε β)

theorem invokeStepAction_triple :
    Triple (Running positions) (invokeStepAction executor step) (fun _ => Running positions)
      (Raised positions) := by
  have hauth : Triple (Running positions)
      (authorizeStep executor step.name step.authBoundary step.authOwnerType)
      (fun _ => Running positions) (Raised positions) := by
    refine takeCall_triple.bind fun call => .bind (M := fun _ => Running positions) ?_ ?_
    · exact .reads fun _ hrunning => hrunning
    · intro data
      cases executor.authContext.authorizeStep call step.name step.authBoundary
          step.authOwnerType data with
      | none => exact .pure fun _ hrunning => hrunning
      | some error => exact raise_triple error
  have hawait : ∀ call : ActionCall π ε, Triple (Running positions)
      (awaitAction step.stepTimeout call : SagaM π ε β (Option (SagaData π)))
      (fun _ => Running positions) (Raised positions) := by
    intro call
    unfold awaitAction
    split
    · split
      · exact (suspend_raised _).bind fun _ => raise_triple _
      · exact await_triple call.toCall
    · exact await_triple call.toCall
  refine hauth.bind fun _ => takeCall_triple.bind fun index =>
    .bind (M := fun _ => Running positions) ?_ fun data => hawait _
  exact .reads fun _ hrunning => hrunning

theorem attemptStep_triple :
    Triple (Running positions) (attemptStep executor step)
      (fun outcome t => match outcome with
        | .ok _ => Running positions t
        | .error error => Raised positions error t)
      (fun _ _ => False) := by
  refine .bind (M := fun outcome t => match outcome with
    | .ok _ => Running positions t
    | .error error => Raised positions error t) ?_ fun outcome => ?_
  · exact .attempt (invokeStepAction_triple executor step)
  · refine .bind (M := fun _ t => match outcome with
      | .ok _ => Running positions t
      | .error error => Raised positions error t) (.modify fun s hs => ?_)
      fun _ => .pure fun _ h => h
    cases outcome with
    | ok | error => exact ⟨hs.1.emit rfl rfl, hs.2⟩

theorem Progress.commit {s : ExecutorState π ε β} (hprog : Progress positions s)
    (step : NormalizedStep π ε β) (data : SagaData π) :
    Progress (positions ++ [step.position]) (s.commit step data) where
  forward := forall_mem_append.mpr ⟨hprog.forward, forall_mem_singleton.mpr rfl⟩
  committed := by
    simp only [ExecutorState.commit, committedPositions_append]
    exact hprog.committed.append (.refl _)
  compensable := by
    simp only [ExecutorState.commit, committedPositions_append, map_append]
    exact hprog.compensable.append (compensableOf_positions step)

theorem commitStep_triple {E : PyError ε → ExecutorState π ε β → Prop}
    (result : Option (SagaData π)) :
    Triple (Running positions) (commitStep step result)
      (fun _ => Running (positions ++ [step.position])) E := by
  intro s hrunning
  rw [commitStep_run]
  exact ⟨hrunning.1.commit step _, hrunning.2⟩

/-- What `except Exception` does with a failed attempt: a cancellation passes,
anything else is recorded and handled with the clock still running. -/
theorem caught_triple {α : Type} {more : List Nat} (hmore : positions.Sublist more)
    (step : NormalizedStep π ε β) (error : PyError ε) {handle : SagaM π ε β α}
    {Q : α → ExecutorState π ε β → Prop}
    (hhandle : Triple (Running positions) handle Q (Cancelled more)) :
    Triple (Raised positions error)
      (if error.isException then do
        recordStepFailure step.name
        handle
      else
        raise error) Q (Cancelled more) := by
  cases hcaught : error.isException with
  | true =>
    refine .bind (M := fun _ => Running positions) ?_ fun _ => hhandle
    exact .modify fun s h => ⟨⟨h.1.forward, h.1.committed, h.1.compensable⟩, h.2 hcaught⟩
  | false =>
    exact .raise fun s h => ⟨cancelled_of_not_exception hcaught, h.1.mono hmore⟩

theorem retryLoop_triple (retry : Retry) (remaining attempt : Nat) (lastError : PyError ε) :
    Triple (Running positions) (retryLoop executor step retry remaining attempt lastError)
      (fun _ => Running (positions ++ [step.position]))
      (Cancelled (positions ++ [step.position])) := by
  have hmore : positions.Sublist (positions ++ [step.position]) := sublist_append_left _ _
  induction remaining generalizing attempt lastError with
  | zero => exact .pure fun s h => h.mono hmore
  | succ _ ih =>
    have hsleep : Triple (Running positions)
        (sleep (retry.backoff.delayFor (attempt - 1)) : SagaM π ε β Unit)
        (fun _ => Running positions) (Cancelled (positions ++ [step.position])) := by
      refine .bind (M := fun _ => Running positions) ?_ fun _ =>
        (suspend_triple 1).weaken (fun _ h => h) (fun _ _ h => h) (fun _ _ h => h.mono hmore)
      exact .modify fun s h => ⟨h.1.emit rfl rfl, h.2⟩
    refine hsleep.bind fun _ => .bind ((attemptStep_triple executor step).weaken (fun _ h => h)
      (fun _ _ h => h) (fun _ _ h => h.elim)) fun outcome => ?_
    cases outcome with
    | error error => exact caught_triple hmore step error (ih (attempt + 1) error)
    | ok value => exact (commitStep_triple step value).bind fun _ => .pure fun _ h => h

theorem executeSerialStep_triple :
    Triple (Running positions) (executeSerialStep executor step)
      (fun _ => Running (positions ++ [step.position]))
      (Cancelled (positions ++ [step.position])) := by
  have hmore : positions.Sublist (positions ++ [step.position]) := sublist_append_left _ _
  refine .bind ((attemptStep_triple executor step).weaken (fun _ h => h)
    (fun _ _ h => h) (fun _ _ h => h.elim)) fun outcome => ?_
  cases outcome with
  | ok value => exact (commitStep_triple step value).bind fun _ => .pure fun _ h => h
  | error error =>
    refine caught_triple hmore step error (.bind (M := fun _ =>
      Running (positions ++ [step.position])) ?_ fun strategy => ?_)
    · unfold applyStrategy
      cases step.onError with
      | skip | compensate => exact .pure fun s h => h.mono hmore
      | retry retry => exact retryLoop_triple executor step retry _ _ _
    · cases strategy.outcome with
      | «continue» | compensateAndFail => exact .pure fun _ h => h

theorem committedPositions_children (results : List (ChildResult π ε β)) :
    (committedPositions (results.flatMap ChildResult.settled)).Sublist
        (results.map (·.1.position)) ∧
      ((results.flatMap ChildResult.compensable).map (·.position)).Sublist
        (committedPositions (results.flatMap ChildResult.settled)) := by
  induction results with
  | nil => simp [committedPositions]
  | cons result _ ih =>
    rw [flatMap_cons, flatMap_cons, map_cons, map_append, committedPositions_append]
    by_cases hok : (errorOf result.2).isNone = true
    · simp only [ChildResult.settled, ChildResult.compensable, hok, if_true]
      exact ⟨ih.1.cons_cons _, (compensableOf_positions result.1).append ih.2⟩
    · simp only [ChildResult.settled, ChildResult.compensable, hok]
      exact ⟨ih.1.cons _, ih.2⟩

theorem committedPositions_finished (finished : List (ChildResult π ε β)) :
    committedPositions (finished.map ChildResult.event) = [] := by
  simp [committedPositions, ChildResult.event]

theorem executeParallel_triple (group : List (NormalizedStep π ε β)) :
    Triple (Running positions) (executeParallel executor group)
      (fun _ => Running (positions ++ group.map (·.position)))
      (Cancelled (positions ++ group.map (·.position))) := by
  intro s hrunning
  have hprog := hrunning.1
  have hgather := gather_run executor group s
  have hsteps := childrenAt_steps executor group s.data s.calls
  simp only at hgather
  generalize (childrenAt executor s.data group s.calls).2 = calls at hgather
  generalize (childrenAt executor s.data group s.calls).1 = results at hgather hsteps
  generalize finishedAt executor results calls = finished at hgather
  have hposs : results.map (·.1.position) = group.map (·.position) := by
    rw [← hsteps, map_map]
    rfl
  cases hspend : spend s.budget (min 1 group.length) with
  | none =>
    rw [hspend] at hgather
    rw [executeParallel, bind_error _ hgather]
    refine ⟨rfl, .mono ?_ (sublist_append_left _ _)⟩
    exact ⟨hprog.forward, hprog.committed, hprog.compensable⟩
  | some left =>
    rw [hspend] at hgather
    obtain ⟨hcomm, hcompensable⟩ := committedPositions_children results
    have hsettled : Progress (positions ++ group.map (·.position))
        { s with
          budget := left
          calls := calls
          history := s.history ++ results.map ChildResult.record
          trace := s.trace ++ finished.map ChildResult.event ++ results.flatMap ChildResult.settled
          compensable := s.compensable ++ results.flatMap ChildResult.compensable } := by
      refine ⟨?_, ?_, ?_⟩
      · intro event hmem
        rw [append_assoc] at hmem
        rcases mem_append.mp hmem with h | h
        · exact hprog.forward event h
        · exact childEvents_forward finished results event h
      · rw [committedPositions_append, committedPositions_append, committedPositions_finished,
          append_nil, ← hposs]
        exact hprog.committed.append hcomm
      · rw [committedPositions_append, committedPositions_append, committedPositions_finished,
          append_nil, map_append]
        exact hprog.compensable.append hcompensable
    rw [executeParallel, bind_ok _ hgather, bind_ok _ (settleChildren_run results _)]
    cases cancelledChild results with
    | true => exact ⟨rfl, hsettled⟩
    | false => exact ⟨hsettled, hrunning.2⟩

theorem executeItem_triple (item : NormalizedItem π ε β) :
    Triple (Running positions) (executeItem executor item)
      (fun _ => Running (positions ++ item.steps.map (·.position)))
      (Cancelled (positions ++ item.steps.map (·.position))) := by
  cases item with
  | step single => exact executeSerialStep_triple executor single
  | parallel group => exact executeParallel_triple executor group

variable (positions) in
/-- Forward execution of a whole flow: it returns with the clock still
running, or it was cancelled. -/
theorem executeItems_triple (items : List (NormalizedItem π ε β)) :
    Triple (Running positions) (executeItems executor items)
      (fun _ => Running (positions ++ (declared items).map (·.position)))
      (Cancelled (positions ++ (declared items).map (·.position))) := by
  induction items generalizing positions with
  | nil => exact .pure fun _ h => h.mono (sublist_append_left _ _)
  | cons item rest ih =>
    have hmore : (positions ++ item.steps.map (·.position)).Sublist
        (positions ++ (declared (item :: rest)).map (·.position)) := by
      rw [declared_cons, map_append, ← append_assoc]
      exact sublist_append_left _ _
    refine .bind ((executeItem_triple executor item).weaken (fun _ h => h) (fun _ _ h => h)
      (fun _ _ h => h.mono hmore)) fun failure => ?_
    cases failure with
    | some => exact .pure fun _ h => h.mono hmore
    | none =>
      have hrest := ih (positions ++ item.steps.map (·.position))
      rw [append_assoc, ← map_append, ← declared_cons] at hrest
      exact hrest

end Triples

end Spakky.Saga
