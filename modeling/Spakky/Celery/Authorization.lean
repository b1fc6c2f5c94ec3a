import Spakky.Celery.Endpoint

/-!
When the body of a registered method runs. A method with a task route runs for callers only
whose snapshot was verified and for whom every requirement was allowed. A method with a
schedule route alone runs for everybody, whatever its class and its decorators require.
-/

namespace Spakky.Celery

open Effect Exec Auth List

section Registered

/-- What the registration has seen of a method. -/
structure Registrable (method : TaskMethod) : Prop where
  task : method.taskRoutes ≤ 1
  schedule : method.scheduleRoutes ≤ 1
  some : method.taskRoutes ≠ 0 ∨ method.scheduleRoutes ≠ 0

def AllRegistrable (app : CeleryApp) : Prop := ∀ entry ∈ app.tasks, Registrable entry.2

variable {ε : Type}

theorem getOrNone_triple {σ : Type} {P E : σ → Prop} (routes : Nat) (hE : ∀ s, P s → E s) :
    Triple P (getOrNone routes : Exec σ (TaskError ε) Bool)
      (fun found s => P s ∧ routes ≤ 1 ∧ found = decide (0 < routes)) (fun _ => E) := by
  unfold getOrNone
  split
  case isTrue => exact .raise fun s hs => hE s hs
  case isFalse hfew => exact Triple.pure fun _ hs => ⟨hs, Nat.le_of_not_lt hfew, rfl⟩

theorem getOrNone_still {σ : Type} (routes : Nat) (s : σ) :
    ((getOrNone routes : Exec σ (TaskError ε) Bool) s).2 = s := by
  unfold getOrNone
  split
  · rfl
  · rfl

theorem registerMethod_maintains (podType : HandlerType) (method : TaskMethod) :
    Maintains AllRegistrable
      (registerMethod podType method : Exec CeleryApp (TaskError ε) Unit) := by
  apply Triple.maintains
  refine Triple.bind (getOrNone_triple _ fun _ hs => hs) fun hasTask => ?_
  refine .bind (getOrNone_triple _ fun _ hs => hs.1) fun hasSchedule => ?_
  by_cases hnone : hasTask = false ∧ hasSchedule = false
  · simp only [if_pos hnone]
    exact .pure fun _ hs => hs.1.1
  · simp only [if_neg hnone]
    refine .bind (M := fun _ => AllRegistrable) (.modify ?_) fun _ => ?_
    · rintro app ⟨⟨happ, htask, rfl⟩, hschedule, rfl⟩ entry hentry
      rcases mem_append.mp hentry with hbefore | hnew
      · exact happ entry hbefore
      · obtain rfl := mem_singleton.mp hnew
        refine ⟨htask, hschedule, ?_⟩
        by_contra hzero
        simp only [not_or, not_not] at hzero
        exact hnone (by simp [hzero])
    · split
      · exact .modify fun _ happ => happ
      · exact .pure fun _ happ => happ

theorem registered_registrable {podType : HandlerType} {app : CeleryApp}
    {result : Except (TaskError ε) Unit} (hrun : postProcess [podType] ⟨[], []⟩ = (result, app)) :
    AllRegistrable app := by
  have hmaintains : Maintains AllRegistrable
      (forEach (registerMethod podType) podType.functions : Exec CeleryApp (TaskError ε) Unit) :=
    Maintains.forEach fun method _ => registerMethod_maintains podType method
  have hempty : AllRegistrable ⟨[], []⟩ := by
    intro entry hmem
    cases hmem
  have happ := hmaintains ⟨[], []⟩ hempty
  have hstate : (forEach (registerMethod podType) podType.functions :
      Exec CeleryApp (TaskError ε) Unit) ⟨[], []⟩ = (result, app) := hrun
  rwa [hstate] at happ

end Registered

section Running

variable {ε α : Type} {environment : Environment ε α} {handlerType : HandlerType}
  {method : TaskMethod}

/-- The body of the method runs when the endpoint is called. -/
def Executes (environment : Environment ε α) (handlerType : HandlerType) (method : TaskMethod)
    (worker : Worker) : Prop :=
  .bodyRan ∈ (endpoint environment handlerType method { worker with events := [] }).2.events

/-- The requirements of the class and of the method. -/
def effectiveRequirements (handlerType : HandlerType) (method : TaskMethod) :
    List AuthRequirement :=
  handlerType.annotations.requirements ++ method.annotations.requirements

/-- The snapshot in the headers was verified, and every requirement was evaluated for the
verified state and allowed. -/
structure Authorized (environment : Environment ε α) (handlerType : HandlerType)
    (method : TaskMethod) (events : List WorkerEvent) (envelope : String)
    (authContext : AuthContext) : Prop where
  header : environment.stringHeaders authContextSnapshotMetadataKey = some envelope
  verified : ∃ verify, environment.snapshotVerifier = some verify ∧
    verify envelope (invocationOf environment method) = .ok authContext
  recorded : .verified envelope authContext ∈ events
  allowed : ∀ requirement ∈ effectiveRequirements handlerType method, ∃ decision,
    .evaluated (taskAuthRequirement requirement) authContext decision ∈ events ∧
      decision.state = .allow

variable {authContext : AuthContext}

theorem Authorized.mono {events later : List WorkerEvent} {envelope : String}
    (hauthd : Authorized environment handlerType method events envelope authContext)
    (hlater : events ⊆ later) :
    Authorized environment handlerType method later envelope authContext := by
  refine ⟨hauthd.header, hauthd.verified, hlater hauthd.recorded, ?_⟩
  intro requirement hreq
  obtain ⟨decision, hmem, hallow⟩ := hauthd.allowed requirement hreq
  exact ⟨decision, hlater hmem, hallow⟩

theorem verifySnapshot_ok {invocation : AuthInvocation} {header : Option String}
    (hok : verifySnapshot environment invocation header = .ok authContext) :
    ∃ envelope verify, header = some envelope ∧ environment.snapshotVerifier = some verify ∧
      verify envelope invocation = .ok authContext := by
  cases header with
  | none => cases hok
  | some envelope =>
    simp only [verifySnapshot] at hok
    split at hok
    case isTrue => cases hok
    case isFalse =>
        split at hok
        case h_1 => cases hok
        case h_2 verify hverifier =>
            split at hok
            case h_1 found hverified =>
                cases hok
                exact ⟨envelope, verify, rfl, hverifier, hverified⟩
            all_goals cases hok

/-- What has happened stays recorded. -/
def Keeps (events : List WorkerEvent) (worker : Worker) : Prop := events ⊆ worker.events

theorem record_keeps (event : WorkerEvent) (events : List WorkerEvent) :
    Maintains (Keeps events) (record event : Exec Worker (TaskError ε) Unit) :=
  fun _ hkept _ hmem => mem_append_left _ (hkept hmem)

variable (events : List WorkerEvent)

theorem enforceTask_keeps (authContext : AuthContext) (requirement : TaskAuthRequirementMetadata) :
    Maintains (Keeps events) (enforceTask environment authContext requirement) := by
  refine .bind (.still fun _ => rfl) fun decision => ?_
  refine .bind (record_keeps _ _) fun _ => ?_
  split
  · exact .still fun _ => rfl
  · exact .still fun _ => rfl

theorem enforceTask_ok {requirement : TaskAuthRequirementMetadata} {s t : Worker}
    (hrun : enforceTask environment authContext requirement s = (.ok (), t)) :
    ∃ decision, .evaluated requirement authContext decision ∈ t.events ∧
      decision.state = .allow := by
  obtain ⟨decision, _, _, hrest⟩ := bind_eq_ok.mp hrun
  obtain ⟨_, recorded, hrecord, hlast⟩ := bind_eq_ok.mp hrest
  have hmem : .evaluated requirement authContext decision ∈ recorded.events := by
    cases hrecord
    exact mem_append_right _ (.head _)
  by_cases hallow : decision.state = .allow
  · rw [if_neg (by simpa using hallow)] at hlast
    cases hlast
    exact ⟨decision, hmem, hallow⟩
  · rw [if_pos hallow] at hlast
    cases hlast

/-- A loop that ends well has evaluated every requirement. -/
theorem forEach_enforceTask_ok {requirements : List TaskAuthRequirementMetadata} {s t : Worker}
    (hrun : forEach (enforceTask environment authContext) requirements s = (.ok (), t)) :
    ∀ requirement ∈ requirements, ∃ decision,
      .evaluated requirement authContext decision ∈ t.events ∧ decision.state = .allow := by
  induction requirements generalizing s with
  | nil =>
    intro requirement hmem
    cases hmem
  | cons _ rest ih =>
    obtain ⟨_, evaluated, hfirst, hrest⟩ := bind_eq_ok.mp hrun
    intro requirement hmem
    rcases mem_cons.mp hmem with rfl | hlater
    · obtain ⟨decision, hrec, hallow⟩ := enforceTask_ok hfirst
      have hkeeps : Maintains (Keeps evaluated.events)
          (forEach (enforceTask environment authContext) rest) :=
        Maintains.forEach fun other _ => enforceTask_keeps _ _ other
      have hkept := hkeeps evaluated (Subset.refl _)
      rw [hrest] at hkept
      exact ⟨decision, hkept hrec, hallow⟩
    · exact ih hrest requirement hlater

theorem mem_collected {requirement : AuthRequirement}
    (hmem : requirement ∈ effectiveRequirements handlerType method) :
    taskAuthRequirement requirement ∈
      (collectTaskAuthMetadata [handlerType.annotations, method.annotations]).requirements := by
  simp only [collectTaskAuthMetadata, mem_dedupeRequirements, flatMap_cons, flatMap_nil,
    append_nil, mem_append, mem_map]
  rcases mem_append.mp hmem with hclass | hmeth
  · exact .inl ⟨requirement, hclass, rfl⟩
  · exact .inr ⟨requirement, hmeth, rfl⟩

/-- The check of the snapshot and of the requirements lets authorized callers pass only. -/
theorem seedAndAuthorizeCeleryTask_ok (hreqs : effectiveRequirements handlerType method ≠ [])
    {s t : Worker} (hrun : seedAndAuthorizeCeleryTask environment method
      (collectTaskAuthMetadata [handlerType.annotations, method.annotations]) s = (.ok (), t)) :
    ∃ envelope authContext,
      Authorized environment handlerType method t.events envelope authContext := by
  have hprot :
      (collectTaskAuthMetadata [handlerType.annotations, method.annotations]).isProtected =
        true := by
    obtain ⟨_, hmem⟩ := exists_mem_of_ne_nil _ hreqs
    simp only [TaskAuthMetadata.isProtected, decide_eq_true_eq]
    exact length_pos_of_mem (mem_collected hmem)
  rw [seedAndAuthorizeCeleryTask, if_pos hprot] at hrun
  obtain ⟨authContext, _, hverified, hrest⟩ := bind_eq_ok.mp hrun
  obtain ⟨envelope, verify, hheader, hverifier, hanswer⟩ :=
    verifySnapshot_ok (congrArg Prod.fst hverified)
  obtain ⟨_, _, hrecord, hrest⟩ := bind_eq_ok.mp hrest
  obtain ⟨_, stored, hstore, hloop⟩ := bind_eq_ok.mp hrest
  have hmem : .verified envelope authContext ∈ stored.events := by
    cases hrecord
    cases hstore
    simp [hheader]
  have hkeeps : Maintains (Keeps stored.events) (forEach (enforceTask environment authContext)
      (collectTaskAuthMetadata [handlerType.annotations, method.annotations]).requirements) :=
    Maintains.forEach fun other _ => enforceTask_keeps _ _ other
  have hkept := hkeeps stored (Subset.refl _)
  rw [hloop] at hkept
  exact ⟨envelope, authContext, hheader, ⟨verify, hverifier, hanswer⟩, hkept hmem,
    fun requirement hreq =>
      forEach_enforceTask_ok hloop _ (mem_collected hreq)⟩

/-- The failure that is handed to Celery is raised in any case. -/
theorem seedAndAuthorizeTask_ok (hroute : method.taskRoutes ≠ 0)
    (hreqs : effectiveRequirements handlerType method ≠ []) {s t : Worker}
    (hrun : seedAndAuthorizeTask environment handlerType method s = (.ok (), t)) :
    ∃ envelope authContext,
      Authorized environment handlerType method t.events envelope authContext := by
  obtain ⟨_, s', hfound, hrest⟩ := bind_eq_ok.mp hrun
  have hspec : Triple (fun _ => True)
      (getOrNone method.taskRoutes : Exec Worker (TaskError ε) Bool) _ fun _ _ => True :=
    getOrNone_triple method.taskRoutes fun _ _ => trivial
  obtain ⟨_, _, rfl⟩ := hspec.ok trivial hfound
  rw [if_pos (by simpa [Nat.pos_iff_ne_zero] using hroute), attempt_bind_run] at hrest
  cases hchecked : seedAndAuthorizeCeleryTask environment method
      (collectTaskAuthMetadata [handlerType.annotations, method.annotations]) s' with
  | mk outcome =>
    rw [hchecked] at hrest
    cases outcome with
    | ok =>
      cases hrest
      exact seedAndAuthorizeCeleryTask_ok hreqs hchecked
    | error error =>
      cases error with
      | authRequirementDenied =>
        dsimp only at hrest
        split at hrest
        · obtain ⟨_, _, _, hraise⟩ := bind_eq_ok.mp hrest
          cases hraise
        · cases hrest
      | multipleAnnotationFound | retry | raised => cases hrest

/-- The body has not run. -/
def BodyPending (worker : Worker) : Prop := .bodyRan ∉ worker.events

theorem record_pending {event : WorkerEvent} (hother : event ≠ .bodyRan) :
    Maintains BodyPending (record event : Exec Worker (TaskError ε) Unit) := by
  intro worker hnone hmem
  rcases mem_append.mp hmem with hbefore | hnew
  · exact hnone hbefore
  · exact hother (mem_singleton.mp hnew).symm

theorem seedAndAuthorizeCeleryTask_pending (method : TaskMethod) (metadata : TaskAuthMetadata) :
    Maintains BodyPending (seedAndAuthorizeCeleryTask environment method metadata) := by
  have henforce : ∀ authContext requirement,
      Maintains BodyPending (enforceTask environment authContext requirement) := by
    intro authContext requirement
    refine .bind (.still fun _ => rfl) fun decision => ?_
    refine .bind (record_pending (by simp)) fun _ => ?_
    split
    · exact .still fun _ => rfl
    · exact .still fun _ => rfl
  unfold seedAndAuthorizeCeleryTask
  split
  · refine .bind (.still fun _ => rfl) fun authContext => ?_
    refine .bind (record_pending (by simp)) fun _ => ?_
    refine .bind (fun _ hnone => hnone) fun _ => ?_
    exact .forEach fun requirement _ => henforce authContext requirement
  · exact .still fun _ => rfl

theorem seedAndAuthorizeTask_pending (handlerType : HandlerType) (method : TaskMethod) :
    Maintains BodyPending (seedAndAuthorizeTask environment handlerType method) := by
  refine .bind (.still (getOrNone_still _)) fun hasRoute => ?_
  split
  · refine .bind (seedAndAuthorizeCeleryTask_pending _ _).attempt fun outcome => ?_
    split
    · exact .still fun _ => rfl
    · dsimp only
      split
      · exact .bind (.still fun _ => rfl) fun _ => .still fun _ => rfl
      · exact .still fun _ => rfl
    · exact .still fun _ => rfl
  · exact .still fun _ => rfl

theorem endpoint_eq (worker : Worker) :
    endpoint environment handlerType method worker =
      (seedAndAuthorizeTask environment handlerType method >>= fun _ => runBody environment)
        { worker with authContext := .absent, taskContext := true } := rfl

theorem runBody_keeps : Maintains (Keeps events) (runBody environment) := by
  have hensure : ∀ last : Exec Worker (TaskError ε) Unit, Maintains (Keeps events) last →
      Maintains (Keeps events) (ensure
        (do
          ofExcept (environment.handler.mapError .raised)
          record .bodyRan
          ofExcept (environment.body.mapError .raised)) last : Exec Worker (TaskError ε) α) := by
    intro last hlast
    refine .ensure ?_ hlast
    refine .bind (.still fun _ => rfl) fun _ => ?_
    exact .bind (record_keeps _ _) fun _ => .still fun _ => rfl
  unfold runBody
  cases environment.propagator with
  | none => exact hensure _ (.still fun _ => rfl)
  | some =>
    refine .bind (.still fun _ => rfl) fun _ => ?_
    exact .bind (fun _ hkept => hkept) fun _ => hensure _ fun _ hkept => hkept

/-- Behind a task route the body runs for authorized callers only. -/
theorem authorized_of_executes (hroute : method.taskRoutes ≠ 0)
    (hreqs : effectiveRequirements handlerType method ≠ []) {worker : Worker}
    (hexec : Executes environment handlerType method worker) :
    ∃ envelope authContext, Authorized environment handlerType method
      (endpoint environment handlerType method { worker with events := [] }).2.events
      envelope authContext := by
  unfold Executes at hexec
  rw [endpoint_eq, bind_run] at hexec ⊢
  cases hchecked : seedAndAuthorizeTask environment handlerType method
      { worker with authContext := .absent, taskContext := true, events := [] } with
  | mk outcome checked =>
    rw [hchecked] at hexec
    cases outcome with
    | error =>
      have hpend : BodyPending { worker with
          authContext := .absent, taskContext := true, events := [] } := by
        simp [BodyPending]
      have hnone : BodyPending (seedAndAuthorizeTask environment handlerType method
          { worker with authContext := .absent, taskContext := true, events := [] }).2 :=
        seedAndAuthorizeTask_pending handlerType method _ hpend
      rw [hchecked] at hnone
      exact absurd hexec hnone
    | ok =>
      obtain ⟨envelope, authContext, hauthd⟩ := seedAndAuthorizeTask_ok hroute hreqs hchecked
      exact ⟨envelope, authContext, hauthd.mono (runBody_keeps _ checked (Subset.refl _))⟩

/-- Nobody sends headers, there are no providers, and the method returns a value. -/
def anonymousEnvironment (value : α) : Environment ε α where
  headers _ := none
  snapshotVerifier := none
  checkers := ⟨none, none, none, none, none⟩
  retry _ := .ok ()
  propagator := none
  handler := .ok ()
  body := .ok value

/-- Without a task route the body runs for everybody. -/
theorem executes_of_no_route (hroute : method.taskRoutes = 0) (value : α) (worker : Worker) :
    Executes (anonymousEnvironment value : Environment ε α) handlerType method worker ∧
      (endpoint (anonymousEnvironment value : Environment ε α) handlerType method
        { worker with events := [] }).2.events = [.bodyRan] := by
  have hcheck : seedAndAuthorizeTask (anonymousEnvironment value : Environment ε α) handlerType
      method = pure () := by
    funext s
    rw [seedAndAuthorizeTask, hroute]
    rfl
  have hevs : (endpoint (anonymousEnvironment value : Environment ε α) handlerType method
      { worker with events := [] }).2.events = [.bodyRan] := by
    rw [endpoint_eq, hcheck]
    rfl
  refine ⟨?_, hevs⟩
  rw [Executes, hevs]
  exact .head _

/-- The body of a registered method runs for authorized callers only if and only if the method
has a task route or nothing is required. -/
theorem executes_authorized_iff [Inhabited α] {podType : HandlerType} {app : CeleryApp}
    {result : Except (TaskError ε) Unit}
    (hrun : postProcess [podType] ⟨[], []⟩ = (result, app)) {entry : HandlerType × TaskMethod}
    (hregistered : entry ∈ app.tasks) :
    (∀ (environment : Environment ε α) (worker : Worker),
        Executes environment entry.1 entry.2 worker →
          effectiveRequirements entry.1 entry.2 = [] ∨ ∃ envelope authContext,
            Authorized environment entry.1 entry.2
              (endpoint environment entry.1 entry.2 { worker with events := [] }).2.events
              envelope authContext) ↔
      entry.2.taskRoutes = 1 ∨ effectiveRequirements entry.1 entry.2 = [] := by
  have hregistrable := registered_registrable hrun entry hregistered
  constructor
  · intro hall
    by_cases hroute : entry.2.taskRoutes = 0
    · have hrun' : Executes (anonymousEnvironment default : Environment ε α) entry.1 entry.2 {} ∧
          _ := executes_of_no_route hroute default {}
      obtain ⟨hexecutes, hevents⟩ := hrun'
      rcases hall _ _ hexecutes with hnone | ⟨_, _, hauthorized⟩
      · exact .inr hnone
      · have hrecorded := hauthorized.recorded
        rw [hevents] at hrecorded
        simp at hrecorded
    · exact Or.inl (Nat.le_antisymm hregistrable.task (Nat.pos_of_ne_zero hroute))
  · rintro (hroute | hnone) environment worker hexecutes
    · by_cases hrequirements : effectiveRequirements entry.1 entry.2 = []
      · exact .inl hrequirements
      · have hsome : entry.2.taskRoutes ≠ 0 := by
          rw [hroute]
          exact Nat.one_ne_zero
        exact .inr (authorized_of_executes hsome hrequirements hexecutes)
    · exact .inl hnone

/-- A handler whose methods need an authenticated caller: one is a task, the other one is only
scheduled. -/
def reports : HandlerType where
  annotations := { requirements := [{ kind := .authenticated, ref := "authenticated" }] }
  functions := [⟨"app.Reports.send", 1, 0, {}⟩, ⟨"app.Reports.nightly", 0, 1, {}⟩]

theorem executes_authorized_iff_send :
    (∀ (environment : Environment Unit Unit) (worker : Worker),
        Executes environment reports ⟨"app.Reports.send", 1, 0, {}⟩ worker →
          effectiveRequirements reports ⟨"app.Reports.send", 1, 0, {}⟩ = [] ∨
            ∃ envelope authContext, Authorized environment reports ⟨"app.Reports.send", 1, 0, {}⟩
              (endpoint environment reports ⟨"app.Reports.send", 1, 0, {}⟩
                { worker with events := [] }).2.events envelope authContext) ↔
      1 = 1 ∨ effectiveRequirements reports ⟨"app.Reports.send", 1, 0, {}⟩ = [] := by
  have hrun : (postProcess [reports] ⟨[], []⟩ : Except (TaskError Unit) Unit × CeleryApp) =
      (.ok (), ⟨[(reports, ⟨"app.Reports.send", 1, 0, {}⟩),
        (reports, ⟨"app.Reports.nightly", 0, 1, {}⟩)], ["app.Reports.nightly"]⟩) := rfl
  exact executes_authorized_iff hrun (mem_cons_self : (reports, _) ∈ _)

theorem nightly_executes_anonymously :
    (reports, ⟨"app.Reports.nightly", 0, 1, {}⟩) ∈
        ((postProcess [reports] ⟨[], []⟩ : Except (TaskError Unit) Unit × CeleryApp)).2.tasks ∧
      effectiveRequirements reports ⟨"app.Reports.nightly", 0, 1, {}⟩ ≠ [] ∧
      (endpoint (anonymousEnvironment () : Environment Unit Unit) reports
        ⟨"app.Reports.nightly", 0, 1, {}⟩ {}).2.events = [.bodyRan] :=
  ⟨.tail _ (.head _), cons_ne_nil _ _, rfl⟩

end Running

end Spakky.Celery
