import Spakky.Effect
import Spakky.Machine

/-!
The lifecycle of an `ApplicationContext`: its start with the registration of
services, its stop, and the rollback of a start that has failed.

Which instances a start or a get constructs depends on the Pods: the eager ones
and all that they need for a start, a lazy, PROTOTYPE or CONTEXT Pod and what it
needs for a get. Here it is any list of instances, in the order in which they
are post-processed, and any of the constructors, post-processors and services
may raise.
-/

namespace Spakky.Lifecycle

open Effect Exec

/-- An instance with the interfaces it implements; one that implements none is
no service. -/
structure Service where
  id : Nat
  isService : Bool
  isAsyncService : Bool
  deriving DecidableEq, Repr

inductive Call where
  | start
  | startAsync
  | stop
  | stopAsync
  deriving DecidableEq, Repr

/-- What is not read by the code: the calls that services have received, and the
instances that were registered. The two lists of started services are the local
variables of `start`. -/
structure AppContext where
  services : List Service := []
  asyncServices : List Service := []
  singletonCache : List (String × Service) := []
  /-- The post-processors are registered, the one for services included. -/
  hasPostProcessors : Bool := false
  eventLoop : Bool := false
  /-- The thread that runs the event loop. -/
  eventThread : Bool := false
  isStarted : Bool := false
  startedServices : List Service := []
  startedAsyncServices : List Service := []
  calls : List (Call × Service) := []
  registered : List Service := []
  deriving DecidableEq, Repr

inductive LifecycleError where
  | applicationContextAlreadyStarted
  | applicationContextAlreadyStopped
  | eventLoopThreadAlreadyStarted
  | eventLoopThreadNotStarted
  /-- Raised by a constructor, a post-processor or a service. -/
  | ofUserCode
  deriving DecidableEq, Repr

abbrev LifecycleM (α : Type) : Type := Exec AppContext LifecycleError α

/-- A finished construction, with the key under which a SINGLETON Pod is
cached. -/
structure Constructed where
  service : Service
  cachedAs : Option String
  deriving DecidableEq, Repr

/-- What is constructed, and whether it ends with an exception. -/
structure Constructions where
  finished : List Constructed
  raises : Bool
  deriving DecidableEq, Repr

/-- Which services raise in which call. -/
structure Behaviour where
  startRaises : Service → Bool
  startAsyncRaises : Service → Bool
  stopRaises : Service → Bool
  stopAsyncRaises : Service → Bool

def addService (service : Service) : LifecycleM Unit :=
  modify fun context =>
    { context with
      services :=
        if service.isService then context.services ++ [service] else context.services
      asyncServices :=
        if service.isAsyncService then context.asyncServices ++ [service]
        else context.asyncServices
      registered := context.registered ++ [service] }

/-- `ServicePostProcessor.post_process`: the instance is added once for each
interface, and `add_service` looks at both interfaces. -/
def postProcess (service : Service) : LifecycleM Unit := do
  if service.isService then
    addService service
  if service.isAsyncService then
    addService service

def construct (constructed : Constructed) : LifecycleM Unit := do
  let hasPostProcessors ← reads fun context => context.hasPostProcessors
  if hasPostProcessors then
    postProcess constructed.service
  modify fun context =>
    { context with
      singletonCache :=
        match constructed.cachedAs with
        | some name => context.singletonCache ++ [(name, constructed.service)]
        | none => context.singletonCache }

/-- A get, or one phase of a start. -/
def constructAll (constructions : Constructions) : LifecycleM Unit := do
  forEach construct constructions.finished
  if constructions.raises then
    raise .ofUserCode

/-- A call of a service. -/
def callService (call : Call) (raises : Service → Bool) (service : Service) : LifecycleM Unit := do
  modify fun context => { context with calls := context.calls ++ [(call, service)] }
  if raises service then
    raise .ofUserCode

def startService (behaviour : Behaviour) (service : Service) : LifecycleM Unit := do
  callService .start behaviour.startRaises service
  modify fun context => { context with startedServices := context.startedServices ++ [service] }

def startAsyncService (behaviour : Behaviour) (service : Service) : LifecycleM Unit := do
  callService .startAsync behaviour.startAsyncRaises service
  modify fun context =>
    { context with startedAsyncServices := context.startedAsyncServices ++ [service] }

/-- `__start_services` -/
def startServices (behaviour : Behaviour) : LifecycleM Unit := do
  let eventLoop ← reads fun context => context.eventLoop
  if eventLoop then
    raise .eventLoopThreadAlreadyStarted
  let eventThread ← reads fun context => context.eventThread
  if eventThread then
    raise .eventLoopThreadAlreadyStarted
  modify fun context => { context with eventLoop := true, eventThread := true }
  let services ← reads fun context => context.services
  forEach (startService behaviour) services
  let asyncServices ← reads fun context => context.asyncServices
  forEach (startAsyncService behaviour) asyncServices

/-- The last part of `__rollback_failed_start`, after the services. -/
def AppContext.rolledBack (context : AppContext)
    (originalServiceCount originalAsyncServiceCount : Nat) : AppContext :=
  { context with
    eventLoop := false
    eventThread := false
    singletonCache := []
    hasPostProcessors := false
    services := context.services.take originalServiceCount
    asyncServices := context.asyncServices.take originalAsyncServiceCount
    isStarted := false }

/-- `__rollback_failed_start`: an exception of a service ends it. -/
def rollbackFailedStart (behaviour : Behaviour)
    (originalServiceCount originalAsyncServiceCount : Nat) : LifecycleM Unit := do
  let started ← reads fun context => context.startedServices
  forEach (callService .stop behaviour.stopRaises) started.reverse
  let startedAsync ← reads fun context =>
    if context.eventLoop then context.startedAsyncServices else []
  forEach (callService .stopAsync behaviour.stopAsyncRaises) startedAsync.reverse
  modify fun context => context.rolledBack originalServiceCount originalAsyncServiceCount

/-- What a start finds: the Pods that are constructed in its two phases, and how
the services behave. -/
structure Boot where
  registration : Constructions
  initialization : Constructions
  behaviour : Behaviour

/-- The body of the `try` statement of `start`. -/
def startBody (boot : Boot) : LifecycleM Unit := do
  modify fun context => { context with hasPostProcessors := true }
  constructAll boot.registration
  constructAll boot.initialization
  startServices boot.behaviour

def start (boot : Boot) : LifecycleM Unit := do
  let isStarted ← reads fun context => context.isStarted
  if isStarted then
    raise .applicationContextAlreadyStarted
  let serviceCount ← reads fun context => context.services.length
  let asyncServiceCount ← reads fun context => context.asyncServices.length
  modify fun context =>
    { context with isStarted := true, startedServices := [], startedAsyncServices := [] }
  onError (startBody boot) fun _ =>
    rollbackFailedStart boot.behaviour serviceCount asyncServiceCount

/-- `__stop_services` -/
def stopServices (behaviour : Behaviour) : LifecycleM Unit := do
  let eventLoop ← reads fun context => context.eventLoop
  if !eventLoop then
    raise .eventLoopThreadNotStarted
  let eventThread ← reads fun context => context.eventThread
  if !eventThread then
    raise .eventLoopThreadNotStarted
  let services ← reads fun context => context.services
  forEach (callService .stop behaviour.stopRaises) services
  let asyncServices ← reads fun context => context.asyncServices
  forEach (callService .stopAsync behaviour.stopAsyncRaises) asyncServices
  modify fun context => { context with eventLoop := false, eventThread := false }

def stop (behaviour : Behaviour) : LifecycleM Unit := do
  let isStarted ← reads fun context => context.isStarted
  if !isStarted then
    raise .applicationContextAlreadyStopped
  stopServices behaviour
  -- `__clear_all`
  modify fun context =>
    { context with
      singletonCache := []
      hasPostProcessors := false
      services := []
      asyncServices := []
      isStarted := false }

inductive Operation where
  | start (boot : Boot)
  | get (constructions : Constructions)
  | stop (behaviour : Behaviour)
  | addService (service : Service)

/-- The context after an operation, whether it returns or raises. -/
def AppContext.after (context : AppContext) (operation : Operation) : AppContext :=
  match operation with
  | .start boot => (Lifecycle.start boot context).2
  | .get constructions => (constructAll constructions context).2
  | .stop behaviour => (Lifecycle.stop behaviour context).2
  | .addService service => (Lifecycle.addService service context).2

/-- The services that are called when each is called in turn: the first one that
raises is the last. -/
def reached (raises : Service → Bool) : List Service → List Service
  | [] => []
  | service :: rest => if raises service then [service] else service :: reached raises rest

theorem reached_of_none {raises : Service → Bool} {services : List Service}
    (hnone : services.any raises = false) : reached raises services = services := by
  induction services with
  | nil => rfl
  | cons _ _ ih =>
    rw [List.any_cons, Bool.or_eq_false_iff] at hnone
    rw [reached, if_neg (by simp [hnone.1]), ih hnone.2]

/-- The outcome of calls of which some may raise. -/
def outcomeOf (raised : Bool) : Except LifecycleError Unit :=
  if raised then .error .ofUserCode else .ok ()

/-- The context after calls of services. -/
def AppContext.called (context : AppContext) (call : Call) (services : List Service) : AppContext :=
  { context with calls := context.calls ++ services.map fun service => (call, service) }

section

variable (call : Call) (raises : Service → Bool) (behaviour : Behaviour) (services : List Service)

theorem callService_run (service : Service) (context : AppContext) :
    callService call raises service context =
      (outcomeOf (raises service), context.called call [service]) := by
  cases hraises : raises service with
  | true | false => simp [callService, hraises, outcomeOf, AppContext.called]

theorem callEach_run (context : AppContext) :
    forEach (callService call raises) services context =
      (outcomeOf (services.any raises), context.called call (reached raises services)) := by
  induction services generalizing context with
  | nil => simp [forEach, reached, outcomeOf, AppContext.called]
  | cons service _ ih =>
    have hfirst := callService_run call raises service context
    cases hraises : raises service with
    | true =>
      rw [hraises] at hfirst
      rw [forEach, bind_error _ hfirst]
      simp [reached, hraises, outcomeOf]
    | false =>
      rw [hraises] at hfirst
      rw [forEach, bind_ok _ hfirst, ih]
      simp [reached, hraises, AppContext.called]

/-- What follows calls of services happens only if none of them raises. -/
theorem callEach_then {α : Type} (next : Unit → LifecycleM α) (context : AppContext) :
    (forEach (callService call raises) services >>= next) context =
      if services.any raises then
        (.error .ofUserCode, context.called call (reached raises services))
      else next () (context.called call services) := by
  have hrun := callEach_run call raises services context
  cases hraises : services.any raises with
  | true =>
    rw [hraises] at hrun
    exact bind_error _ hrun
  | false =>
    rw [hraises, reached_of_none hraises] at hrun
    exact bind_ok _ hrun

theorem startEach_run (context : AppContext) :
    forEach (startService behaviour) services context =
      (outcomeOf (services.any behaviour.startRaises),
        { context.called .start (reached behaviour.startRaises services) with
          startedServices := context.startedServices ++
            services.takeWhile fun service => !behaviour.startRaises service }) := by
  induction services generalizing context with
  | nil => simp [forEach, reached, outcomeOf, AppContext.called]
  | cons service _ ih =>
    have hfirst := callService_run .start behaviour.startRaises service context
    cases hraises : behaviour.startRaises service with
    | true =>
      rw [hraises] at hfirst
      rw [forEach, startService, bind_then, bind_error _ hfirst]
      simp [reached, hraises, outcomeOf, AppContext.called]
    | false =>
      rw [hraises] at hfirst
      rw [forEach, startService, bind_then, bind_ok _ hfirst, modify_bind_run, ih]
      simp [reached, hraises, AppContext.called]

theorem startAsyncEach_run (context : AppContext) :
    forEach (startAsyncService behaviour) services context =
      (outcomeOf (services.any behaviour.startAsyncRaises),
        { context.called .startAsync (reached behaviour.startAsyncRaises services) with
          startedAsyncServices := context.startedAsyncServices ++
            services.takeWhile fun service => !behaviour.startAsyncRaises service }) := by
  induction services generalizing context with
  | nil => simp [forEach, reached, outcomeOf, AppContext.called]
  | cons service _ ih =>
    have hfirst := callService_run .startAsync behaviour.startAsyncRaises service context
    cases hraises : behaviour.startAsyncRaises service with
    | true =>
      rw [hraises] at hfirst
      rw [forEach, startAsyncService, bind_then, bind_error _ hfirst]
      simp [reached, hraises, outcomeOf, AppContext.called]
    | false =>
      rw [hraises] at hfirst
      rw [forEach, startAsyncService, bind_then, bind_ok _ hfirst, modify_bind_run, ih]
      simp [reached, hraises, AppContext.called]

end

/-- How often an instance is appended to the list of an interface. -/
def Service.copies (service : Service) : List Service :=
  (if service.isService then [service] else []) ++
    if service.isAsyncService then [service] else []

def Service.syncEntries (service : Service) : List Service :=
  if service.isService then service.copies else []

def Service.asyncEntries (service : Service) : List Service :=
  if service.isAsyncService then service.copies else []

def Constructed.cacheEntry (constructed : Constructed) : List (String × Service) :=
  (constructed.cachedAs.map fun name => (name, constructed.service)).toList

/-- The context after constructions. -/
def AppContext.constructed (context : AppContext) (finished : List Constructed) : AppContext :=
  let services := if context.hasPostProcessors then finished.map (·.service) else []
  { context with
    services := context.services ++ services.flatMap Service.syncEntries
    asyncServices := context.asyncServices ++ services.flatMap Service.asyncEntries
    registered := context.registered ++ services.flatMap Service.copies
    singletonCache := context.singletonCache ++ finished.flatMap Constructed.cacheEntry }

theorem construct_run (constructed : Constructed) (context : AppContext) :
    construct constructed context = (.ok (), context.constructed [constructed]) := by
  obtain ⟨⟨_, isService, isAsyncService⟩, cachedAs⟩ := constructed
  cases hprocs : context.hasPostProcessors <;> cases isService <;> cases isAsyncService <;>
    cases cachedAs <;>
    simp [construct, postProcess, addService, AppContext.constructed, hprocs,
      Service.syncEntries, Service.asyncEntries, Service.copies, Constructed.cacheEntry, bind_run]

theorem constructEach_run (finished : List Constructed) (context : AppContext) :
    forEach construct finished context = (.ok (), context.constructed finished) := by
  induction finished generalizing context with
  | nil => simp [forEach, AppContext.constructed]
  | cons constructed _ ih =>
    rw [forEach, bind_ok _ (construct_run constructed context), ih]
    cases hprocs : context.hasPostProcessors with
    | true | false => simp [AppContext.constructed, hprocs]

theorem constructAll_run (constructions : Constructions) (context : AppContext) :
    constructAll constructions context =
      (outcomeOf constructions.raises, context.constructed constructions.finished) := by
  rw [constructAll, bind_ok _ (constructEach_run constructions.finished context)]
  cases constructions.raises with
  | true => rfl
  | false => rfl

/-- The context after the synchronous services were started up to the first one
that raises. -/
def AppContext.startsServices (context : AppContext) (behaviour : Behaviour) : AppContext :=
  { context.called .start (reached behaviour.startRaises context.services) with
    eventLoop := true
    eventThread := true
    startedServices := context.startedServices ++
      context.services.takeWhile fun service => !behaviour.startRaises service }

def AppContext.startsAsyncServices (context : AppContext) (behaviour : Behaviour) : AppContext :=
  { context.called .startAsync (reached behaviour.startAsyncRaises context.asyncServices) with
    startedAsyncServices := context.startedAsyncServices ++
      context.asyncServices.takeWhile fun service => !behaviour.startAsyncRaises service }

theorem startServices_run {context : AppContext} (hloop : context.eventLoop = false)
    (hthr : context.eventThread = false) (behaviour : Behaviour) :
    startServices behaviour context =
      if context.services.any behaviour.startRaises then
        (.error .ofUserCode, context.startsServices behaviour)
      else
        (outcomeOf (context.asyncServices.any behaviour.startAsyncRaises),
          (context.startsServices behaviour).startsAsyncServices behaviour) := by
  have hsync := startEach_run behaviour context.services
    { context with eventLoop := true, eventThread := true }
  cases hraises : context.services.any behaviour.startRaises with
  | true =>
    rw [hraises] at hsync
    simp only [startServices, reads_bind_run, hloop, hthr, Bool.false_eq_true, if_false,
      modify_bind_run, if_true]
    rw [bind_error _ hsync]
    rfl
  | false =>
    rw [hraises] at hsync
    simp only [startServices, reads_bind_run, hloop, hthr, Bool.false_eq_true, if_false,
      modify_bind_run]
    rw [bind_ok _ hsync, reads_bind_run, startAsyncEach_run]
    rfl

/-- The context of a start before any Pod is constructed. -/
def AppContext.starting (context : AppContext) : AppContext :=
  { context with
    isStarted := true
    startedServices := []
    startedAsyncServices := []
    hasPostProcessors := true }

/-- The context of a start once all its Pods are constructed. -/
def Boot.prepared (boot : Boot) (context : AppContext) : AppContext :=
  (context.starting.constructed boot.registration.finished).constructed
    boot.initialization.finished

theorem startBody_run (boot : Boot) (context : AppContext) :
    startBody boot
        { context with isStarted := true, startedServices := [], startedAsyncServices := [] } =
      if boot.registration.raises then
        (.error .ofUserCode, context.starting.constructed boot.registration.finished)
      else if boot.initialization.raises then
        (.error .ofUserCode, boot.prepared context)
      else startServices boot.behaviour (boot.prepared context) := by
  have hregistration := constructAll_run boot.registration context.starting
  have hinit := constructAll_run boot.initialization
    (context.starting.constructed boot.registration.finished)
  rw [startBody, modify_bind_run]
  cases hraises : boot.registration.raises with
  | true =>
    rw [hraises] at hregistration
    exact bind_error _ hregistration
  | false =>
    rw [hraises] at hregistration
    refine (bind_ok _ hregistration).trans ?_
    cases hraises' : boot.initialization.raises with
    | true =>
      rw [hraises'] at hinit
      exact bind_error _ hinit
    | false =>
      rw [hraises'] at hinit
      exact bind_ok _ hinit

theorem start_run (boot : Boot) {context : AppContext} (hstarted : context.isStarted = false) :
    start boot context =
      onError (startBody boot)
        (fun _ => rollbackFailedStart boot.behaviour context.services.length
          context.asyncServices.length)
        { context with
          isStarted := true, startedServices := [], startedAsyncServices := [] } := by
  simp only [start, reads_bind_run, hstarted, Bool.false_eq_true, if_false, modify_bind_run]

theorem start_started (boot : Boot) {context : AppContext} (hstarted : context.isStarted = true) :
    start boot context = (.error .applicationContextAlreadyStarted, context) := by
  simp only [start, reads_bind_run, hstarted, if_true]
  rfl

/-- The asynchronous services that a rollback stops. -/
def AppContext.stoppable (context : AppContext) : List Service :=
  if context.eventLoop then context.startedAsyncServices else []

/-- The three ways a rollback can go. -/
theorem rollbackFailedStart_run (behaviour : Behaviour) (count asyncCount : Nat)
    (context : AppContext) :
    rollbackFailedStart behaviour count asyncCount context =
      if context.startedServices.any behaviour.stopRaises then
        (.error .ofUserCode,
          context.called .stop (reached behaviour.stopRaises context.startedServices.reverse))
      else if context.stoppable.any behaviour.stopAsyncRaises then
        (.error .ofUserCode,
          (context.called .stop context.startedServices.reverse).called .stopAsync
            (reached behaviour.stopAsyncRaises context.stoppable.reverse))
      else
        (.ok (), ((context.called .stop context.startedServices.reverse).called .stopAsync
            context.stoppable.reverse).rolledBack count asyncCount) := by
  simp only [rollbackFailedStart, reads_bind_run, callEach_then, List.any_reverse]
  rfl

theorem stop_stopped (behaviour : Behaviour) {context : AppContext}
    (hstarted : context.isStarted = false) :
    stop behaviour context = (.error .applicationContextAlreadyStopped, context) := by
  simp only [stop, reads_bind_run, hstarted, Bool.not_false, if_true]
  rfl

/-- The context after a stop that no service disturbs. -/
def AppContext.stopped (context : AppContext) : AppContext :=
  { (context.called .stop context.services).called .stopAsync context.asyncServices with
    eventLoop := false
    eventThread := false
    singletonCache := []
    hasPostProcessors := false
    services := []
    asyncServices := []
    isStarted := false }

theorem stopServices_run {context : AppContext} (hloop : context.eventLoop = true)
    (hthr : context.eventThread = true) (behaviour : Behaviour) :
    stopServices behaviour context =
      if context.services.any behaviour.stopRaises then
        (.error .ofUserCode, context.called .stop (reached behaviour.stopRaises context.services))
      else if context.asyncServices.any behaviour.stopAsyncRaises then
        (.error .ofUserCode, (context.called .stop context.services).called .stopAsync
            (reached behaviour.stopAsyncRaises context.asyncServices))
      else
        (.ok (),
          { (context.called .stop context.services).called .stopAsync context.asyncServices with
            eventLoop := false, eventThread := false }) := by
  simp only [stopServices, reads_bind_run, hloop, hthr, Bool.not_true, Bool.false_eq_true,
    if_false, callEach_then]
  rfl

/-- A stop goes through, or it raises and the context stays started. -/
theorem stop_cases (behaviour : Behaviour) {context : AppContext}
    (hstarted : context.isStarted = true) (hloop : context.eventLoop = true)
    (hthr : context.eventThread = true) :
    (context.services.any behaviour.stopRaises = false ∧
      context.asyncServices.any behaviour.stopAsyncRaises = false ∧
      stop behaviour context = (.ok (), context.stopped)) ∨
    ((context.services.any behaviour.stopRaises = true ∨
        context.asyncServices.any behaviour.stopAsyncRaises = true) ∧
      (stop behaviour context).2.isStarted = true ∧
      (stop behaviour context).2.eventLoop = true ∧
      (stop behaviour context).2.eventThread = true) := by
  have hservs := stopServices_run hloop hthr behaviour
  simp only [stop, reads_bind_run, hstarted, Bool.not_true, Bool.false_eq_true, if_false]
  cases hraises : context.services.any behaviour.stopRaises with
  | true =>
    rw [hraises, if_pos rfl] at hservs
    rw [bind_error _ hservs]
    exact .inr ⟨.inl rfl, hstarted, hloop, hthr⟩
  | false =>
    rw [hraises, if_neg Bool.false_ne_true] at hservs
    cases hraises' : context.asyncServices.any behaviour.stopAsyncRaises with
    | true =>
      rw [hraises', if_pos rfl] at hservs
      rw [bind_error _ hservs]
      exact .inr ⟨.inr rfl, hstarted, hloop, hthr⟩
    | false =>
      rw [hraises', if_neg Bool.false_ne_true] at hservs
      rw [bind_ok _ hservs]
      exact .inl ⟨rfl, rfl, rfl⟩

end Spakky.Lifecycle
