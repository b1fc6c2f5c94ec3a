import Spakky.Saga.Clock
import Spakky.Saga.Untimed

/-!
Runs under a saga timeout. The clock covers forward execution and recovery
alike, and whatever `TimeoutError` leaves the two starts a pass over the
whole compensable stack. A step is undone twice exactly when the first pass
is broken off that way after it reached the top of the stack.
-/

namespace Spakky.Saga

open Effect Exec List

variable {π ε β : Type} (executor : SagaExecutor π ε β) (s : ExecutorState π ε β)

/-- The state in which `asyncio.timeout` starts the body. -/
def timedState : ExecutorState π ε β :=
  { initialState executor with budget := executor.schedule.deadline }

/-- The recovery pass from the given state. -/
def recoveryPass : Pass π ε :=
  pass executor s.data s.compensable.reverse s.calls s.budget

/-- The state that recovery pass leaves. -/
def recovered : ExecutorState π ε β :=
  ExecutorState.after { s with trace := s.trace ++ [.recovering] } (recoveryPass executor s)

/-- The pass leaves the body of `asyncio.timeout` as a `TimeoutError`. -/
def Pass.BreaksOff (ended : Pass π ε) : Prop :=
  ended.ending = .expired ∨ ended.ending = .raised .timeoutError

/-- The clock of `asyncio.timeout` is gone once its body is left. -/
def ExecutorState.unclocked : ExecutorState π ε β :=
  { s with budget := none }

variable (executor : SagaExecutor π ε β) (s : ExecutorState π ε β)

theorem runCompensation_eq :
    runCompensation executor s = ((recoveryPass executor s).ending.result, recovered executor s) :=
  runCompensation_run executor s

/-- The state a run ends in, given the state in which `except TimeoutError` was
entered. -/
theorem timedOut_run :
    ∃ outcome, (do
        runCompensation executor
        sagaResult .timedOut none none : SagaM π ε β (SagaResult π ε)) s =
          (outcome, recovered executor s) ∧
      ((recoveryPass executor s).ending = .completed →
        ∃ result, outcome = .ok result ∧ result.status = .timedOut) := by
  rw [bind_run, runCompensation_eq]
  cases hend : (recoveryPass executor s).ending with
  | completed => exact ⟨_, rfl, fun _ => ⟨_, rfl, rfl⟩⟩
  | raised error => exact ⟨.error error, rfl, fun h => by cases h⟩
  | expired => exact ⟨.error .cancelledError, rfl, fun h => by cases h⟩

/-- Forward execution under the saga clock. -/
abbrev timedForward (executor : SagaExecutor π ε β) :
    Except (PyError ε) (Failure ε) × ExecutorState π ε β :=
  executeItems executor executor.items (timedState executor)

/-- How a run under a saga timeout can go. -/
inductive TimedRun (executor : SagaExecutor π ε β) :
    Except (PyError ε) (SagaResult π ε) → ExecutorState π ε β → Prop
  | completed (s : ExecutorState π ε β) (result : SagaResult π ε)
      (hfwd : timedForward executor = (.ok none, s))
      (hstat : result.status = .completed) : TimedRun executor (.ok result) s.unclocked
  | failed (s : ExecutorState π ε β) (reason : String × PyError ε) (result : SagaResult π ε)
      (hfwd : timedForward executor = (.ok (some reason), s))
      (hpass : (recoveryPass executor s).ending = .completed)
      (hstat : result.status = .failed) :
      TimedRun executor (.ok result) (recovered executor s).unclocked
  | aborted (s : ExecutorState π ε β) (reason : String × PyError ε) (error : PyError ε)
      (hfwd : timedForward executor = (.ok (some reason), s))
      (hpass : (recoveryPass executor s).ending = .raised error)
      (hother : error ≠ .timeoutError) :
      TimedRun executor (.error error) (recovered executor s).unclocked
  | brokenOff (s : ExecutorState π ε β) (reason : String × PyError ε)
      (outcome : Except (PyError ε) (SagaResult π ε))
      (hfwd : timedForward executor = (.ok (some reason), s))
      (hpass : (recoveryPass executor s).BreaksOff)
      (hstat : (recoveryPass executor (recovered executor s).unclocked).ending = .completed →
        ∃ result, outcome = .ok result ∧ result.status = .timedOut) :
      TimedRun executor outcome (recovered executor (recovered executor s).unclocked)
  | cancelled (s : ExecutorState π ε β)
      (hfwd : timedForward executor = (.error .cancelledError, s)) (hexpd : s.expired = false) :
      TimedRun executor (.error .cancelledError) s.unclocked
  | expired (s : ExecutorState π ε β) (outcome : Except (PyError ε) (SagaResult π ε))
      (hfwd : timedForward executor = (.error .cancelledError, s)) (hexpd : s.expired = true) :
      TimedRun executor outcome (recovered executor s.unclocked)

theorem timedState_running : Running [] (timedState executor) :=
  ⟨⟨by simp [timedState, initialState], by simp [timedState, initialState, committedPositions],
    by simp [timedState, initialState]⟩, rfl⟩

/-- What forward execution guarantees when it returns under the saga clock. -/
theorem forward_running {executor : SagaExecutor π ε β} {s : ExecutorState π ε β}
    {failure : Failure ε}
    (hfwd : timedForward executor = (.ok failure, s)) :
    Running ((declared executor.items).map (·.position)) s :=
  (executeItems_triple [] executor executor.items).ok (timedState_running executor) hfwd

theorem forward_cancelled {executor : SagaExecutor π ε β} {s : ExecutorState π ε β}
    {error : PyError ε}
    (hfwd : timedForward executor = (.error error, s)) :
    Cancelled ((declared executor.items).map (·.position)) error s :=
  (executeItems_triple [] executor executor.items).error (timedState_running executor) hfwd

/-- The error leaves `asyncio.timeout` as a `TimeoutError`. -/
def PyError.timesOut (expired : Bool) : PyError ε → Bool
  | .timeoutError => true
  | .cancelledError => expired
  | _ => false

variable {outcome : Except (PyError ε) (SagaResult π ε)}

/-- `_run_with_saga_timeout` in terms of what its body does. -/
theorem runWithSagaTimeout_run {executor : SagaExecutor π ε β} {items : List (NormalizedItem π ε β)}
    {s : ExecutorState π ε β}
    (hbody : runItems executor items (timedState executor) = (outcome, s)) :
    runWithSagaTimeout executor items (initialState executor) =
      match outcome with
      | .ok result => (.ok result, s.unclocked)
      | .error error =>
        if error.timesOut s.expired then
          (do
            runCompensation executor
            sagaResult .timedOut none none : SagaM π ε β (SagaResult π ε)) s.unclocked
        else (.error error, s.unclocked) := by
  have hstart : { initialState executor with
      budget := executor.schedule.deadline, expired := false } = timedState executor := rfl
  unfold runWithSagaTimeout
  rw [attempt_bind_run]
  simp only [withSagaTimeout, hstart, hbody]
  cases outcome with
  | ok => rfl
  | error error =>
    cases error with
    | cancelledError =>
      obtain ⟨_, _, _, _, _, expired, _⟩ := s
      cases expired <;> rfl
    | timeoutError | exception | sagaStepTimeoutError | sagaCompensationFailedError
    | sagaFlowDefinitionError => rfl

theorem recovered_expired :
    (recovered executor s).expired = (s.expired || (recoveryPass executor s).ending.isExpired) :=
  rfl

/-- Every run under a saga timeout is one of the cases. -/
theorem runWithSagaTimeout_timedRun :
    TimedRun executor (runWithSagaTimeout executor executor.items (initialState executor)).1
      (runWithSagaTimeout executor executor.items (initialState executor)).2 := by
  cases hfwd : timedForward executor using exec_cases with
  | error _ s =>
    obtain ⟨rfl, _⟩ := forward_cancelled hfwd
    rw [runWithSagaTimeout_run (bind_error _ hfwd)]
    cases hexpd : s.expired with
    | true =>
      obtain ⟨outcome, hrun, _⟩ := timedOut_run executor s.unclocked
      simp only [PyError.timesOut, if_true, hrun]
      exact .expired s outcome hfwd hexpd
    | false => exact .cancelled s hfwd hexpd
  | ok failure s =>
    have hrunning := (forward_running hfwd).2
    cases failure with
    | none =>
      rw [runWithSagaTimeout_run (bind_ok _ hfwd)]
      exact .completed s _ hfwd rfl
    | some reason =>
      have hbody : runItems executor executor.items (timedState executor) =
          (do
            runCompensation executor
            sagaResult .failed (some reason.1) (some reason.2) :
              SagaM π ε β (SagaResult π ε)) s :=
        bind_ok _ hfwd
      have hpassed := runCompensation_eq executor s
      cases hend : (recoveryPass executor s).ending with
      | completed =>
        rw [hend] at hpassed
        rw [runWithSagaTimeout_run (hbody.trans (bind_ok _ hpassed))]
        exact .failed s reason _ hfwd hend rfl
      | raised error =>
        rw [hend] at hpassed
        have hexpd : (recovered executor s).expired = false := by
          rw [recovered_expired, hrunning, hend]
          rfl
        rw [runWithSagaTimeout_run (hbody.trans (bind_error _ hpassed)), hexpd]
        by_cases htimeout : error = .timeoutError
        · subst htimeout
          obtain ⟨outcome, hrun, hstat⟩ := timedOut_run executor (recovered executor s).unclocked
          simp only [PyError.timesOut, if_true, hrun]
          exact .brokenOff s reason outcome hfwd (.inr hend) hstat
        · have hother : error.timesOut false = false := by
            cases error <;> simp_all [PyError.timesOut]
          simp only [hother]
          exact .aborted s reason error hfwd hend htimeout
      | expired =>
        rw [hend] at hpassed
        have hexpd : (recovered executor s).expired = true := by
          rw [recovered_expired, hend]
          simp
        obtain ⟨outcome, hrun, hstat⟩ := timedOut_run executor (recovered executor s).unclocked
        rw [runWithSagaTimeout_run (hbody.trans (bind_error _ hpassed)), hexpd]
        simp only [PyError.timesOut, if_true, hrun]
        exact .brokenOff s reason outcome hfwd (.inl hend) hstat

/-- Every step recorded as compensated was invoked before. -/
def Preceded (trace : List (Event π ε)) : Prop :=
  ∀ before after position, trace = before ++ .compensated position :: after →
    position ∈ (invokedCompensations before).map Prod.fst

theorem Preceded.append {first second : List (Event π ε)} (hfirst : Preceded first)
    (hsnd : Preceded second) : Preceded (first ++ second) := by
  intro before after position hsplit
  rcases append_eq_append_iff.mp hsplit with ⟨middle, hbefore, hrest⟩ | ⟨middle, hrest, hafter⟩
  · have hmem := hsnd middle after position hrest
    rw [hbefore, invokedCompensations_append, map_append]
    exact mem_append_right _ hmem
  · cases middle with
    | nil =>
      have hmem := hsnd [] after position (by simpa using hafter.symm)
      simp [invokedCompensations] at hmem
    | cons _ middle =>
      rw [cons_append, cons.injEq] at hafter
      exact hfirst before middle position (by rw [hrest, ← hafter.1])

variable {trace : List (Event π ε)}

theorem Preceded.of_none (hnone : ∀ position, .compensated position ∉ trace) : Preceded trace := by
  intro before after position hsplit
  exact absurd (by rw [hsplit]; simp) (hnone position)

theorem Preceded.of_forward (hfwd : ∀ event ∈ trace, event.isForward = true) : Preceded trace :=
  .of_none fun _ hmem => absurd (hfwd _ hmem) (by simp [Event.isForward])

variable (data : SagaData π) (step : CompensableStep π ε β)

theorem escalationPass_preceded (cause : PyError ε) (invoked calls : Nat) (budget : Option Nat)
    {before : List (Event π ε)} (hbefore : Preceded before) :
    Preceded (escalationPass executor data step cause invoked calls budget before).events := by
  obtain ⟨_, hevs, hlater⟩ :=
    escalationPass_events executor data step cause invoked calls budget before
  rw [hevs]
  refine hbefore.append (.of_none fun position hmem => ?_)
  rcases mem_cons.mp hmem with h | h
  · cases h
  · obtain ⟨_, h⟩ := hlater _ h
    cases h

theorem pass_preceded (steps : List (CompensableStep π ε β)) (calls : Nat) (budget : Option Nat) :
    Preceded (pass executor data steps calls budget).events := by
  have hstarted : ∀ step : CompensableStep π ε β,
      Preceded [(.compensating step.position data : Event π ε)] := fun step =>
    .of_none (by simp)
  fun_induction pass executor data steps calls budget with
  | case1 | case3 => exact .of_none (by simp)
  | case2 => exact escalationPass_preceded executor data _ _ _ _ _ (.of_none (by simp))
  | case4 step | case6 step => exact hstarted step
  | case5 step => exact escalationPass_preceded executor data _ _ _ _ _ (hstarted step)
  | case7 step _ _ _ _ _ _ _ _ ih =>
    have hpair : Preceded
        [(.compensating step.position data : Event π ε), .compensated step.position] := by
      intro before after position hsplit
      rcases before with _ | ⟨_, _ | ⟨_, _⟩⟩
      · cases hsplit
      · cases hsplit
        simp [invokedCompensations]
      · simp at hsplit
    exact hpair.append ih

/-- No step is compensated more often than it committed, and none again once
it is recorded as compensated. -/
structure CompensatedAtMostOnce (trace : List (Event π ε)) : Prop where
  perCommit : ∀ position, ((invokedCompensations trace).map Prod.fst).count position ≤
    (committedPositions trace).count position
  notAgain : ∀ before after position data,
    trace = before ++ .compensating position data :: after → .compensated position ∉ before

theorem CompensatedAtMostOnce.of_perCommit (hnodup : (committedPositions trace).Nodup)
    (hprec : Preceded trace)
    (hcount : ∀ position, ((invokedCompensations trace).map Prod.fst).count position ≤
      (committedPositions trace).count position) : CompensatedAtMostOnce trace := by
  refine ⟨hcount, fun before after position data hsplit hmem => ?_⟩
  obtain ⟨early, late, hbefore⟩ := append_of_mem hmem
  have hearl : position ∈ (invokedCompensations early).map Prod.fst := by
    refine hprec early (late ++ .compensating position data :: after) position ?_
    rw [hsplit, hbefore]
    simp
  have honce : (committedPositions trace).count position ≤ 1 :=
    nodup_iff_count_le_one.mp hnodup position
  have htwice : 2 ≤ ((invokedCompensations trace).map Prod.fst).count position := by
    have hfirst := count_pos_iff.mpr hearl
    rw [hsplit, hbefore]
    simp only [invokedCompensations_append, invokedCompensations_cons_compensating,
      map_append, map_cons, count_append, count_cons_self]
    omega
  have hbound := hcount position
  omega

/-- The recovery pass from this state gets past the authorization of the last
committed step and so invokes its compensation. -/
def ReachesTop : Prop :=
  ∃ earlier last, s.compensable = earlier ++ [last] ∧
    authorization executor s.data last s.calls = none

/-- The positions a recovery pass undoes. -/
def undone : List Nat :=
  (s.compensable.reverse.map (·.position)).take (recoveryPass executor s).invoked

theorem pass_invoked_pos (rest : List (CompensableStep π ε β)) (calls : Nat) (budget : Option Nat) :
    0 < (pass executor data (step :: rest) calls budget).invoked ↔
      authorization executor data step calls = none := by
  rw [pass]
  cases authorization executor data step calls with
  | some error =>
    cases hcaught : error.isException <;> simp [hcaught, escalationPass_invoked]
  | none =>
    simp only [iff_true]
    split
    · exact Nat.one_pos
    · split
      · split
        · rw [escalationPass_invoked]
          exact Nat.one_pos
        · exact Nat.one_pos
      · exact Nat.succ_pos _

theorem undone_ne_nil {executor : SagaExecutor π ε β} {s : ExecutorState π ε β} :
    undone executor s ≠ [] ↔ ReachesTop executor s := by
  unfold undone ReachesTop recoveryPass
  rcases eq_nil_or_concat s.compensable with hnil | ⟨earlier, last, hconcat⟩
  · simp [hnil]
  · rw [concat_eq_append] at hconcat
    have htop := pass_invoked_pos executor s.data last earlier.reverse s.calls s.budget
    rw [hconcat, reverse_append, reverse_singleton, singleton_append, map_cons]
    constructor
    · intro hne
      refine ⟨earlier, last, rfl, htop.mp (Nat.pos_of_ne_zero fun hzero => hne ?_)⟩
      rw [hzero, take_zero]
    · rintro ⟨_, _, hsame, hauthd⟩
      obtain ⟨rfl, hlast⟩ := append_inj' hsame rfl
      rw [cons.injEq] at hlast
      rw [← hlast.1] at hauthd
      intro hempty
      rcases take_eq_nil_iff.mp hempty with h | h
      · exact absurd (htop.mpr hauthd) (by omega)
      · cases h

theorem recovered_trace :
    (recovered executor s).trace =
      s.trace ++ [.recovering] ++ (recoveryPass executor s).events := rfl

theorem invokedCompensations_recovered :
    (invokedCompensations (recovered executor s).trace).map Prod.fst =
      (invokedCompensations s.trace).map Prod.fst ++ undone executor s := by
  have hpass := pass_compensations executor s.data s.compensable.reverse s.calls s.budget
  rw [recovered_trace, invokedCompensations_append, invokedCompensations_append, recoveryPass,
    hpass, undone, recoveryPass, ← map_take]
  simp [invokedCompensations, Function.comp_def]

theorem committedPositions_recovered :
    committedPositions (recovered executor s).trace = committedPositions s.trace := by
  have hbwd : committedPositions (recoveryPass executor s).events = [] := by
    simp only [committedPositions, filterMap_eq_nil_iff]
    intro event hmem
    have h := pass_backward executor s.data s.compensable.reverse s.calls s.budget event hmem
    cases event <;> simp_all [Event.isBackward]
  rw [recovered_trace, committedPositions_append, committedPositions_append, hbwd]
  simp [committedPositions]

theorem Preceded.recovered {executor : SagaExecutor π ε β} {s : ExecutorState π ε β}
    (hprec : Preceded s.trace) : Preceded (recovered executor s).trace :=
  (hprec.append (.of_none (by simp))).append (pass_preceded executor _ _ _ _)

/-- Undoing a stack of distinct committed steps from the top, once or twice,
stays within the commits unless both times the top was reached. -/
theorem count_take_le_iff {stack commits : List Nat} (hsublist : stack.reverse.Sublist commits)
    (hnodup : commits.Nodup) (first second : Nat) :
    (∀ position, (stack.take first ++ stack.take second).count position ≤ commits.count position) ↔
      stack.take first = [] ∨ stack.take second = [] := by
  have hpart : ∀ count position, (stack.take count).count position ≤ commits.count position := by
    intro count position
    calc (stack.take count).count position
        ≤ stack.count position := (take_sublist count stack).count_le position
      _ = stack.reverse.count position := count_reverse.symm
      _ ≤ commits.count position := hsublist.count_le position
  constructor
  · intro hcount
    by_contra hboth
    cases stack with
    | nil => simp at hboth
    | cons top =>
      cases first with
      | zero => simp at hboth
      | succ =>
        cases second with
        | zero => simp at hboth
        | succ =>
          have honce := nodup_iff_count_le_one.mp hnodup top
          have htwice := hcount top
          simp only [take_succ_cons, count_append, count_cons_self] at htwice
          omega
  · rintro (h | h) position
    · rw [h, nil_append]
      exact hpart second position
    · rw [h, append_nil]
      exact hpart first position

theorem atMostOnce_iff {positions : List Nat} (hnodup : positions.Nodup) {s : ExecutorState π ε β}
    (hprog : Progress positions s)
    (hcommits : committedPositions trace = committedPositions s.trace) (hprec : Preceded trace)
    (first second : Nat) (hinvd : (invokedCompensations trace).map Prod.fst =
      (s.compensable.reverse.map (·.position)).take first ++
        (s.compensable.reverse.map (·.position)).take second) :
    CompensatedAtMostOnce trace ↔
      (s.compensable.reverse.map (·.position)).take first = [] ∨
        (s.compensable.reverse.map (·.position)).take second = [] := by
  have hcomm : (committedPositions s.trace).Nodup := hnodup.sublist hprog.committed
  have hstack : (s.compensable.reverse.map (·.position)).reverse.Sublist
      (committedPositions s.trace) := by
    rw [← map_reverse, reverse_reverse]
    exact hprog.compensable
  rw [← count_take_le_iff hstack hcomm, ← hinvd, ← hcommits]
  exact ⟨fun h => h.perCommit, .of_perCommit (hcommits ▸ hcomm) hprec⟩

section AtMostOnce

variable {executor : SagaExecutor π ε β} {positions : List Nat} {s : ExecutorState π ε β}

theorem Progress.unclocked (hprog : Progress positions s) : Progress positions s.unclocked :=
  ⟨hprog.forward, hprog.committed, hprog.compensable⟩

theorem atMostOnce_forward (hnodup : positions.Nodup) (hprog : Progress positions s) :
    CompensatedAtMostOnce s.trace := by
  refine (atMostOnce_iff hnodup hprog rfl (.of_forward hprog.forward) 0 0 ?_).mpr
    (.inl rfl)
  rw [invokedCompensations_forward _ hprog.forward]
  rfl

theorem atMostOnce_recovered (hnodup : positions.Nodup) (hprog : Progress positions s) :
    CompensatedAtMostOnce (recovered executor s).trace := by
  refine (atMostOnce_iff hnodup hprog (committedPositions_recovered executor s)
    (Preceded.of_forward hprog.forward).recovered (recoveryPass executor s).invoked 0 ?_).mpr
    (.inr rfl)
  rw [invokedCompensations_recovered, invokedCompensations_forward _ hprog.forward]
  simp [undone]

/-- Two passes keep the guarantee exactly when one of them stops before the
last committed step is undone. -/
theorem atMostOnce_twice (hnodup : positions.Nodup) (hprog : Progress positions s) :
    CompensatedAtMostOnce (recovered executor (recovered executor s).unclocked).trace ↔
      ¬ (ReachesTop executor s ∧ ReachesTop executor (recovered executor s).unclocked) := by
  rw [← undone_ne_nil, ← undone_ne_nil, not_and_or, not_not, not_not]
  have hprec : Preceded (recovered executor s).unclocked.trace :=
    (Preceded.of_forward hprog.forward).recovered
  refine atMostOnce_iff hnodup hprog ?_ hprec.recovered _ _ ?_
  · exact (committedPositions_recovered executor _).trans (committedPositions_recovered executor s)
  · rw [invokedCompensations_recovered]
    change (invokedCompensations (recovered executor s).trace).map Prod.fst ++ _ = _
    rw [invokedCompensations_recovered, invokedCompensations_forward _ hprog.forward]
    rfl

end AtMostOnce

/-- Under a saga timeout, forward execution fails with the clock running, the
recovery pass undoes the last committed step and is then broken off by a
`TimeoutError`, and the pass that follows is authorized to undo that step
again. -/
def CompensatesTwice : Prop :=
  executor.flow.sagaTimeout.isSome = true ∧ ∃ reason failed,
    executeItems executor executor.items (timedState executor) = (.ok (some reason), failed) ∧
    ReachesTop executor failed ∧ (recoveryPass executor failed).BreaksOff ∧
    ReachesTop executor (recovered executor failed).unclocked

theorem initialState_running : Running [] (initialState executor) :=
  ⟨⟨by simp [initialState], by simp [initialState, committedPositions],
    by simp [initialState]⟩, rfl⟩

/-- Without a clock a saga goes forward, and recovers once if that fails. -/
theorem runItems_untimed :
    ∃ s, Progress ((declared executor.items).map (·.position)) s ∧
      ((runItems executor executor.items (initialState executor)).2 = s ∨
        (runItems executor executor.items (initialState executor)).2 = recovered executor s) ∧
      ∀ result, (runItems executor executor.items (initialState executor)).1 = .ok result →
        result.status ≠ .timedOut := by
  have htriple := executeItems_triple [] executor executor.items
  have hstart := initialState_running executor
  cases hfwd : executeItems executor executor.items (initialState executor) using exec_cases with
  | error _ s =>
    refine ⟨s, (htriple.error hstart hfwd).2, ?_⟩
    rw [runItems, bind_error _ hfwd]
    exact ⟨.inl rfl, by simp⟩
  | ok failure s =>
    refine ⟨s, (htriple.ok hstart hfwd).1, ?_⟩
    rw [runItems, bind_ok _ hfwd]
    cases failure with
    | none => exact ⟨.inl rfl, by rintro _ ⟨⟩; simp⟩
    | some =>
      simp only [bind_run, runCompensation_eq]
      cases (recoveryPass executor s).ending with
      | completed => exact ⟨.inr rfl, by rintro _ ⟨⟩; simp⟩
      | raised | expired => exact ⟨.inr rfl, by simp [PassEnd.result]⟩

theorem atMostOnce_untimed :
    CompensatedAtMostOnce (runItems executor executor.items (initialState executor)).2.trace := by
  obtain ⟨s, hprog, hfinal | hfinal, _⟩ := runItems_untimed executor
  · exact hfinal ▸ atMostOnce_forward executor.items_nodup hprog
  · exact hfinal ▸ atMostOnce_recovered executor.items_nodup hprog

theorem timedRun_atMostOnce_iff {executor : SagaExecutor π ε β}
    (htimed : executor.flow.sagaTimeout.isSome = true) {final : ExecutorState π ε β}
    (hrun : TimedRun executor outcome final) :
    CompensatedAtMostOnce final.trace ↔ ¬ CompensatesTwice executor := by
  have hnodup := executor.items_nodup
  have hforced : ∀ s reason, timedForward executor = (.ok (some reason), s) →
      CompensatesTwice executor →
        ReachesTop executor s ∧ (recoveryPass executor s).BreaksOff ∧
          ReachesTop executor (recovered executor s).unclocked := by
    rintro s reason hfwd ⟨_, _, _, hfwd', htop, hbreaks, hagain⟩
    obtain ⟨_, rfl⟩ := Prod.mk.inj (hfwd.symm.trans hfwd')
    exact ⟨htop, hbreaks, hagain⟩
  have hotherwise : ∀ s outcome, timedForward executor = (outcome, s) →
      (∀ reason, outcome ≠ .ok (some reason)) → ¬ CompensatesTwice executor := by
    rintro s outcome hfwd hne ⟨_, reason, _, hfwd', _⟩
    exact hne reason (Prod.mk.inj (hfwd.symm.trans hfwd')).1
  cases hrun with
  | completed s _ hfwd =>
    exact iff_of_true (atMostOnce_forward hnodup (forward_running hfwd).1.unclocked)
      (hotherwise s _ hfwd (by simp))
  | failed s reason _ hfwd hpass =>
    refine iff_of_true (atMostOnce_recovered hnodup (forward_running hfwd).1) fun htwice => ?_
    rcases (hforced s reason hfwd htwice).2.1 with h | h <;> simp [hpass] at h
  | aborted s reason _ hfwd hpass hother =>
    refine iff_of_true (atMostOnce_recovered hnodup (forward_running hfwd).1) fun htwice => ?_
    rcases (hforced s reason hfwd htwice).2.1 with h | h
    · simp [hpass] at h
    · rw [hpass, PassEnd.raised.injEq] at h
      exact hother h
  | brokenOff s reason _ hfwd hpass =>
    rw [atMostOnce_twice hnodup (forward_running hfwd).1, not_iff_not]
    refine ⟨fun ⟨htop, hagain⟩ => ⟨htimed, reason, s, hfwd, htop, hpass, hagain⟩, ?_⟩
    intro htwice
    obtain ⟨htop, _, hagain⟩ := hforced s reason hfwd htwice
    exact ⟨htop, hagain⟩
  | cancelled s hfwd =>
    exact iff_of_true (atMostOnce_forward hnodup (forward_cancelled hfwd).2.unclocked)
      (hotherwise s _ hfwd (by simp))
  | expired s _ hfwd =>
    exact iff_of_true (atMostOnce_recovered hnodup (forward_cancelled hfwd).2.unclocked)
      (hotherwise s _ hfwd (by simp))

/-- A run does not start, runs without a clock, or runs under the saga clock. -/
theorem run_cases :
    (executor.items = [] ∧
        run executor = (.error .sagaFlowDefinitionError, initialState executor)) ∨
    (executor.flow.sagaTimeout = none ∧
      run executor = runItems executor executor.items (initialState executor)) ∨
    (executor.flow.sagaTimeout.isSome = true ∧
      TimedRun executor (run executor).1 (run executor).2) := by
  cases hnorm : normalize 0 executor.flow.items with
  | error error =>
    refine .inl ⟨by simp [SagaExecutor.items, hnorm], ?_⟩
    simp [run, hnorm, normalize_error 0 _ error hnorm]
  | ok items =>
    obtain rfl : executor.items = items := by simp [SagaExecutor.items, hnorm]
    cases htimeout : executor.flow.sagaTimeout with
    | none => exact .inr (.inl ⟨rfl, by simp [run, hnorm, htimeout]⟩)
    | some =>
      have hrun : run executor =
          runWithSagaTimeout executor executor.items (initialState executor) := by
        simp [run, hnorm, htimeout]
      rw [hrun]
      exact .inr (.inr ⟨rfl, runWithSagaTimeout_timedRun executor⟩)

/-- A saga compensates each commit at most once exactly when its recovery is
not broken off by a timeout after it began to undo. -/
theorem compensated_at_most_once_iff (executor : SagaExecutor π ε β) :
    CompensatedAtMostOnce (run executor).2.trace ↔ ¬ CompensatesTwice executor := by
  rcases run_cases executor with ⟨hitems, hrun⟩ | ⟨hplain, hrun⟩ | ⟨htimed, hrun⟩
  · rw [hrun]
    refine iff_of_true ?_ ?_
    · exact atMostOnce_forward nodup_nil (initialState_running executor).1
    · rintro ⟨_, _, _, hforward, _⟩
      rw [hitems] at hforward
      cases hforward
  · rw [hrun]
    refine iff_of_true (atMostOnce_untimed executor) ?_
    rintro ⟨htimed, _⟩
    simp [hplain] at htimed
  · exact timedRun_atMostOnce_iff htimed hrun

/-- Two transactions commit and the third step fails; the deadline falls into
the second compensation. -/
def interruptedExecutor : SagaExecutor Unit Unit Unit :=
  sampleExecutor
    { items :=
        [sampleTransaction "reserve" (.ok ()), sampleTransaction "charge" (.ok ()),
          sampleFailure "ship"]
      sagaTimeout := some 1 }
    (some 1)

/-- The transaction that was already undone is undone again. -/
theorem interrupted_saga_undoes_twice :
    ¬ CompensatedAtMostOnce (run interruptedExecutor).2.trace := by
  intro honce
  have hcount := honce.perCommit 1
  revert hcount
  decide

end Spakky.Saga
