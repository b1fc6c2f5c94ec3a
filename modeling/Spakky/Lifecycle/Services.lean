import Spakky.Lifecycle.Rollback

/-!
The calls that the services of a context receive over its whole life. A service
is meant to be started once through each interface it implements, and to be
stopped once if it was started.

The post-processor adds an instance once for each interface, to the lists of all
its interfaces, and it adds the instances of a get as well, when the services
have long been started. Both are excluded by a condition on the operations, and
with it the calls are as they are meant to be.
-/

namespace Spakky.Lifecycle

open Effect Exec Machine List

inductive Interface where
  | sync
  | async
  deriving DecidableEq, Repr

namespace Interface

def start : Interface → Call
  | .sync => .start
  | .async => .startAsync

def stop : Interface → Call
  | .sync => .stop
  | .async => .stopAsync

end Interface

def Call.interface : Call → Interface
  | .start | .stop => .sync
  | .startAsync | .stopAsync => .async

def Service.implements (service : Service) : Interface → Bool
  | .sync => service.isService
  | .async => service.isAsyncService

namespace AppContext

def servicesOf (context : AppContext) : Interface → List Service
  | .sync => context.services
  | .async => context.asyncServices

/-- The calls that a service has received through an interface, in their order. -/
def callsTo (context : AppContext) (interface : Interface) (service : Service) : List Call :=
  (context.calls.filter fun call => call.1.interface = interface ∧ call.2 = service).map (·.1)

/-- The context holds the instance as a service or as a singleton. -/
def Manages (context : AppContext) (service : Service) : Prop :=
  (∃ interface, service ∈ context.servicesOf interface) ∨
    ∃ name, (name, service) ∈ context.singletonCache

end AppContext

/-- No service raises. -/
structure Behaviour.Quiet (behaviour : Behaviour) : Prop where
  start : ∀ service, behaviour.startRaises service = false
  startAsync : ∀ service, behaviour.startAsyncRaises service = false
  stop : ∀ service, behaviour.stopRaises service = false
  stopAsync : ∀ service, behaviour.stopAsyncRaises service = false

/-- What a start constructs, in its order. -/
def Boot.finished (boot : Boot) : List Constructed :=
  boot.registration.finished ++ boot.initialization.finished

/-- The services among constructed instances. -/
def newServices (finished : List Constructed) : List Service :=
  (finished.map (·.service)).filter fun service => service.isService || service.isAsyncService

/-- No service raises; the services that a start constructs are new and have one
interface each; a get constructs no service, except one that is neither
post-processed nor cached; and a service is added by hand once, to a context that
is not started. -/
def Operation.Regular (context : AppContext) : Operation → Prop
  | .start boot =>
    boot.behaviour.Quiet ∧ (newServices boot.finished).Nodup ∧
      ∀ service ∈ newServices boot.finished,
        service ∉ context.registered ∧ ¬ (service.isService && service.isAsyncService)
  | .get constructions =>
    ∀ constructed ∈ constructions.finished,
      constructed.service ∈ newServices constructions.finished →
        context.hasPostProcessors = false ∧ constructed.cachedAs = none
  | .stop behaviour => behaviour.Quiet
  | .addService service => context.isStarted = false ∧ service ∉ context.registered

section Calls

theorem start_interface (interface : Interface) : interface.start.interface = interface := by
  cases interface <;> rfl

theorem stop_interface (interface : Interface) : interface.stop.interface = interface := by
  cases interface <;> rfl

variable {context : AppContext} {interface : Interface} {context' : AppContext}

theorem callsTo_append (calls : List (Call × Service))
    (hcalls : context'.calls = context.calls ++ calls) (service : Service) :
    context'.callsTo interface service = context.callsTo interface service ++
      (calls.filter fun call => call.1.interface = interface ∧ call.2 = service).map (·.1) := by
  rw [AppContext.callsTo, hcalls, filter_append, map_append]
  rfl

theorem callsTo_same (hcalls : context'.calls = context.calls) (service : Service) :
    context'.callsTo interface service = context.callsTo interface service := by
  rw [AppContext.callsTo, AppContext.callsTo, hcalls]

/-- What one round of calls adds: the call for each entry of the service. -/
theorem callsTo_called (call : Call) (services : List Service) (service : Service) :
    (context.called call services).callsTo interface service =
      context.callsTo interface service ++
        if call.interface = interface then List.replicate (services.count service) call
        else [] := by
  rw [callsTo_append (services.map fun entry => (call, entry)) rfl]
  congr 1
  induction services with
  | nil => simp
  | cons entry =>
    by_cases hinterface : call.interface = interface <;> by_cases hentry : entry = service
    all_goals simp_all [replicate_succ]

/-- One round over both lists, of starts or of stops. -/
theorem callsTo_round (call : Interface → Call)
    (hcall : ∀ interface, (call interface).interface = interface)
    (hcalls : context'.calls = ((context.called (call .sync) context.services).called
      (call .async) context.asyncServices).calls) (service : Service) :
    context'.callsTo interface service = context.callsTo interface service ++
      List.replicate ((context.servicesOf interface).count service) (call interface) := by
  rw [callsTo_same hcalls, callsTo_called, callsTo_called, hcall, hcall]
  cases interface with
  | sync => exact append_nil _
  | async =>
    rw [if_neg nofun, append_nil]
    rfl

end Calls

/-- What a regular run keeps. -/
structure Orderly (context : AppContext) : Prop where
  consistent : context.Consistent
  processors : context.hasPostProcessors = context.isStarted
  nodup : ∀ interface, (context.servicesOf interface).Nodup
  known : ∀ interface, ∀ service ∈ context.servicesOf interface, service ∈ context.registered
  listed : ∀ interface service, service.implements interface = true → context.Manages service →
    service ∈ context.servicesOf interface
  current : ∀ interface, ∀ service ∈ context.servicesOf interface,
    context.callsTo interface service = if context.isStarted then [interface.start] else []
  settled : ∀ interface, ∀ service ∉ context.servicesOf interface,
    context.callsTo interface service = [] ∨
      context.callsTo interface service = [interface.start, interface.stop]
  fresh : ∀ interface, ∀ service ∉ context.registered, context.callsTo interface service = []

section Constructing

/-- The entries that new services of one interface each get in a list. -/
def entriesOf (interface : Interface) (finished : List Constructed) : List Service :=
  (newServices finished).filter (·.implements interface)

variable {finished : List Constructed}

theorem mem_newServices {service : Service} :
    service ∈ newServices finished ↔
      (∃ constructed ∈ finished, constructed.service = service) ∧
        ∃ interface, service.implements interface = true := by
  rw [newServices, mem_filter, mem_map, Bool.or_eq_true]
  refine and_congr_right fun _ => ⟨?_, ?_⟩
  · rintro (hserv | hserv)
    · exact ⟨.sync, hserv⟩
    · exact ⟨.async, hserv⟩
  · rintro ⟨interface, hserv⟩
    cases interface with
    | sync => exact .inl hserv
    | async => exact .inr hserv

theorem mem_entriesOf {interface : Interface} {service : Service} :
    service ∈ entriesOf interface finished ↔
      (∃ constructed ∈ finished, constructed.service = service) ∧
        service.implements interface = true := by
  rw [entriesOf, mem_filter, mem_newServices]
  exact ⟨fun hmem => ⟨hmem.1.1, hmem.2⟩, fun hmem => ⟨⟨hmem.1, interface, hmem.2⟩, hmem.2⟩⟩

theorem constructed_append (context : AppContext) (first second : List Constructed) :
    (context.constructed first).constructed second = context.constructed (first ++ second) := by
  cases hprocs : context.hasPostProcessors with
  | true | false => simp [AppContext.constructed, hprocs]

/-- An instance with one interface at most is listed once for it. -/
theorem entries_single (service : Service)
    (hsingle : ¬ (service.isService && service.isAsyncService)) :
    service.syncEntries = (if service.isService then [service] else []) ∧
    service.asyncEntries = (if service.isAsyncService then [service] else []) ∧
    service.copies = if service.isService || service.isAsyncService then [service] else [] := by
  obtain ⟨_, isService, isAsyncService⟩ := service
  cases isService <;> cases isAsyncService <;>
    simp_all [Service.syncEntries, Service.asyncEntries, Service.copies]

theorem filter_newServices (interface : Interface) (services : List Service) :
    (services.filter fun service => service.isService || service.isAsyncService).filter
      (·.implements interface) = services.filter (·.implements interface) := by
  rw [filter_filter]
  congr 1
  funext service
  cases interface with
  | sync => cases hserv : service.isService <;> simp [Service.implements, hserv]
  | async => cases hserv : service.isAsyncService <;> simp [Service.implements, hserv]

theorem flatMap_single {entries : Service → List Service} {keep : Service → Bool}
    {services : List Service}
    (hents : ∀ service ∈ services, entries service = if keep service then [service] else []) :
    services.flatMap entries = services.filter keep := by
  induction services with
  | nil => rfl
  | cons service _ ih =>
    rw [flatMap_cons, hents service (.head _),
      ih fun later hlater => hents later (mem_cons_of_mem service hlater)]
    cases hkeep : keep service with
    | true | false => simp [hkeep]

/-- Constructions that are post-processed, of services with one interface each. -/
theorem constructed_lists (finished : List Constructed) {context : AppContext}
    (hprocs : context.hasPostProcessors = true) (hsingle : ∀ service ∈ newServices finished,
      ¬ (service.isService && service.isAsyncService)) :
    (∀ interface, (context.constructed finished).servicesOf interface =
      context.servicesOf interface ++ entriesOf interface finished) ∧
    (context.constructed finished).registered = context.registered ++ newServices finished := by
  have hents : ∀ service ∈ finished.map (·.service),
      ¬ (service.isService && service.isAsyncService) := by
    intro service hserv hboth
    refine hsingle service ?_ hboth
    rw [newServices, mem_filter]
    rw [Bool.and_eq_true] at hboth
    exact ⟨hserv, by rw [hboth.1, Bool.true_or]⟩
  refine ⟨?_, ?_⟩
  · intro interface
    cases interface with
    | sync =>
      change context.services ++ _ = context.services ++ _
      rw [hprocs, if_pos rfl, flatMap_single fun service hserv =>
          (entries_single service (hents service hserv)).1,
        entriesOf, newServices, filter_newServices]
      rfl
    | async =>
      change context.asyncServices ++ _ = context.asyncServices ++ _
      rw [hprocs, if_pos rfl, flatMap_single fun service hserv =>
          (entries_single service (hents service hserv)).2.1,
        entriesOf, newServices, filter_newServices]
      rfl
  · change context.registered ++ _ = _
    rw [hprocs, if_pos rfl, flatMap_single fun service hserv =>
      (entries_single service (hents service hserv)).2.2]
    rfl

theorem mem_cacheEntries {name : String} {service : Service}
    (hentry : (name, service) ∈ finished.flatMap Constructed.cacheEntry) :
    ∃ constructed ∈ finished, constructed.cachedAs = some name ∧ constructed.service = service := by
  obtain ⟨constructed, hconstructed, hcached⟩ := mem_flatMap.mp hentry
  refine ⟨constructed, hconstructed, ?_⟩
  simpa [Constructed.cacheEntry] using hcached

end Constructing

section Steps

variable {context : AppContext}

theorem orderly_initial : Orderly {} where
  consistent := ⟨rfl, rfl⟩
  processors := rfl
  nodup := by
    intro interface
    cases interface <;> exact nodup_nil
  known := by
    intro interface service hserv
    cases interface <;> cases hserv
  listed := by
    rintro interface service - (⟨held, hserv⟩ | ⟨name, hserv⟩)
    · cases held <;> cases hserv
    · cases hserv
  current := by
    intro interface service hserv
    cases interface <;> cases hserv
  settled := fun _ _ _ => .inl rfl
  fresh := fun _ _ _ => rfl

variable {boot : Boot} {behaviour : Behaviour}

theorem any_quiet {raises : Service → Bool} (hquiet : ∀ service, raises service = false)
    (services : List Service) : services.any raises = false :=
  any_eq_false.mpr fun service _ => by simp [hquiet service]

/-- A start that constructs no Pod to its end leaves no trace but in what was
registered. -/
theorem start_unbuilt (hstarted : context.isStarted = false)
    (hraises : boot.registration.raises = true ∨ boot.initialization.raises = true) :
    ∃ finished, (start boot context).2 =
      (context.starting.constructed finished).rolledBack context.services.length
        context.asyncServices.length := by
  have hbody : ∃ finished, startBody boot
      { context with isStarted := true, startedServices := [], startedAsyncServices := [] } =
      (.error .ofUserCode, context.starting.constructed finished) := by
    rw [startBody_run]
    cases hregistration : boot.registration.raises with
    | true => exact ⟨_, rfl⟩
    | false =>
      rcases hraises with hearly | hlate
      · rw [hregistration] at hearly
        cases hearly
      · rw [hlate]
        exact ⟨boot.finished, congrArg (Prod.mk _) (constructed_append ..)⟩
  obtain ⟨finished, hbody⟩ := hbody
  refine ⟨finished, ?_⟩
  have hidle : (context.starting.constructed finished).stoppable = [] := by
    change (if context.eventLoop then [] else []) = []
    rw [ite_self]
  have hnone : (context.starting.constructed finished).startedServices = [] := rfl
  have hroll := rollbackFailedStart_run boot.behaviour context.services.length
    context.asyncServices.length (context.starting.constructed finished)
  rw [hidle, hnone] at hroll
  rw [start_run boot hstarted, onError_error hbody hroll]
  simp [AppContext.called]

theorem callsTo_started (hquiet : behaviour.Quiet) (interface : Interface) (service : Service) :
    ((context.startsServices behaviour).startsAsyncServices behaviour).callsTo interface service =
      context.callsTo interface service ++
        List.replicate ((context.servicesOf interface).count service) interface.start := by
  refine callsTo_round Interface.start start_interface ?_ service
  change _ ++ (reached _ context.services).map _ ++ (reached _ context.asyncServices).map _ = _
  rw [reached_of_none (any_quiet hquiet.start _), reached_of_none (any_quiet hquiet.startAsync _)]
  rfl

theorem callsTo_stopped (interface : Interface) (service : Service) :
    context.stopped.callsTo interface service =
      context.callsTo interface service ++
        List.replicate ((context.servicesOf interface).count service) interface.stop :=
  callsTo_round Interface.stop stop_interface rfl service

section

variable {context' : AppContext} (hord : Orderly context)
include hord

/-- An operation that calls no service and leaves the lists as they are. -/
theorem orderly_unchanged (hcons : context'.Consistent)
    (hprocs : context'.hasPostProcessors = context'.isStarted)
    (hstarted : context'.isStarted = context.isStarted)
    (hservs : ∀ interface, context'.servicesOf interface = context.servicesOf interface)
    (hcalls : context'.calls = context.calls)
    (hreg : ∀ service ∈ context.registered, service ∈ context'.registered)
    (hcache : ∀ name service, (name, service) ∈ context'.singletonCache →
      (name, service) ∈ context.singletonCache ∨
        ∀ interface, service.implements interface = false) : Orderly context' where
  consistent := hcons
  processors := hprocs
  nodup := by
    intro interface
    rw [hservs]
    exact hord.nodup interface
  known := by
    intro interface service hserv
    rw [hservs] at hserv
    exact hreg service (hord.known interface service hserv)
  listed := by
    rintro interface service himpl (⟨held, hserv⟩ | ⟨name, hserv⟩)
    · rw [hservs] at hserv ⊢
      exact hord.listed interface service himpl (.inl ⟨held, hserv⟩)
    · rw [hservs]
      rcases hcache name service hserv with hbefore | hnone
      · exact hord.listed interface service himpl (.inr ⟨name, hbefore⟩)
      · rw [hnone interface] at himpl
        cases himpl
  current := by
    intro interface service hserv
    rw [hservs] at hserv
    rw [callsTo_same hcalls, hstarted]
    exact hord.current interface service hserv
  settled := by
    intro interface service hserv
    rw [hservs] at hserv
    rw [callsTo_same hcalls]
    exact hord.settled interface service hserv
  fresh := by
    intro interface service hserv
    rw [callsTo_same hcalls]
    exact hord.fresh interface service fun hbefore => hserv (hreg service hbefore)

theorem orderly_get {constructions : Constructions}
    (hregular : Operation.Regular context (.get constructions)) :
    Orderly (context.after (.get constructions)) := by
  have hplain : ∀ service ∈ newServices constructions.finished,
      context.hasPostProcessors = false := by
    intro service hserv
    obtain ⟨⟨constructed, hconstructed, rfl⟩, -⟩ := mem_newServices.mp hserv
    exact (hregular constructed hconstructed hserv).1
  have hlists : (∀ interface, (context.constructed constructions.finished).servicesOf interface =
      context.servicesOf interface) ∧
      (context.constructed constructions.finished).registered = context.registered := by
    cases hprocs : context.hasPostProcessors with
    | false =>
      refine ⟨?_, ?_⟩
      · intro interface
        cases interface <;> simp [AppContext.constructed, hprocs, AppContext.servicesOf]
      · simp [AppContext.constructed, hprocs]
    | true =>
      have hnone : newServices constructions.finished = [] := by
        rw [eq_nil_iff_forall_not_mem]
        intro service hserv
        have habs := hplain service hserv
        rw [hprocs] at habs
        cases habs
      have hlists := constructed_lists constructions.finished hprocs (by
        intro service hserv
        rw [hnone] at hserv
        cases hserv)
      rw [hnone, append_nil] at hlists
      refine ⟨?_, hlists.2⟩
      intro interface
      rw [hlists.1 interface, entriesOf, hnone, filter_nil, append_nil]
  rw [AppContext.after, constructAll_run]
  refine orderly_unchanged hord ⟨hord.consistent.loop, hord.consistent.thread⟩
    hord.processors rfl hlists.1 rfl ?_ ?_
  · intro service hserv
    exact hlists.2.symm ▸ hserv
  · intro name service hserv
    rcases mem_append.mp hserv with hbefore | hentry
    · exact .inl hbefore
    · obtain ⟨constructed, hconstructed, hcached, rfl⟩ := mem_cacheEntries hentry
      refine .inr fun interface => ?_
      by_contra himpl
      have hnew := mem_newServices.mpr ⟨⟨constructed, hconstructed, rfl⟩, interface,
        Bool.eq_true_of_not_eq_false himpl⟩
      rw [(hregular constructed hconstructed hnew).2] at hcached
      cases hcached

/-- New services come into a context that is not started, and are started if it
is started with them. -/
theorem orderly_added (hstarted : context.isStarted = false)
    (hcons : context'.Consistent) (hprocs : context'.hasPostProcessors = context'.isStarted)
    (added : Interface → List Service) (hnodup : ∀ interface, (added interface).Nodup)
    (hnew : ∀ interface, ∀ service ∈ added interface, service ∉ context.registered)
    (hservs : ∀ interface, context'.servicesOf interface =
      context.servicesOf interface ++ added interface)
    (hreg : ∀ service ∈ context.registered, service ∈ context'.registered)
    (hadded : ∀ interface, ∀ service ∈ added interface, service ∈ context'.registered)
    (hmanaged : ∀ interface service, service.implements interface = true →
      context'.Manages service → context.Manages service ∨ service ∈ added interface)
    (hcalls : ∀ interface service, context'.callsTo interface service =
      context.callsTo interface service ++ if context'.isStarted then
        List.replicate ((context'.servicesOf interface).count service) interface.start
      else []) : Orderly context' := by
  have hknown : ∀ interface, ∀ service ∈ context'.servicesOf interface,
      service ∈ context'.registered := by
    intro interface service hserv
    rw [hservs] at hserv
    rcases mem_append.mp hserv with hbefore | hentry
    · exact hreg service (hord.known interface service hbefore)
    · exact hadded interface service hentry
  have hdistinct : ∀ interface, (context'.servicesOf interface).Nodup := by
    intro interface
    rw [hservs]
    refine (hord.nodup interface).append (hnodup interface) ?_
    intro service hbefore hentry
    exact hnew interface service hentry (hord.known interface service hbefore)
  have hnone : ∀ interface, ∀ service ∈ context'.servicesOf interface,
      context.callsTo interface service = [] := by
    intro interface service hserv
    rw [hservs] at hserv
    rcases mem_append.mp hserv with hbefore | hentry
    · rw [hord.current interface service hbefore, hstarted]
      rfl
    · exact hord.fresh interface service (hnew interface service hentry)
  have hsame : ∀ interface, ∀ service ∉ context'.servicesOf interface,
      context'.callsTo interface service = context.callsTo interface service := by
    intro interface service hserv
    rw [hcalls, count_eq_zero_of_not_mem hserv, replicate_zero, ite_self, append_nil]
  refine ⟨hcons, hprocs, hdistinct, hknown, ?_, ?_, ?_, ?_⟩
  · intro interface service himpl hheld
    rw [hservs]
    rcases hmanaged interface service himpl hheld with hbefore | hentry
    · exact mem_append_left _ (hord.listed interface service himpl hbefore)
    · exact mem_append_right _ hentry
  · intro interface service hserv
    rw [hcalls, hnone interface service hserv, count_eq_one_of_mem (hdistinct interface) hserv]
    rfl
  · intro interface service hserv
    rw [hsame interface service hserv]
    refine hord.settled interface service fun hbefore => hserv ?_
    rw [hservs]
    exact mem_append_left _ hbefore
  · intro interface service hserv
    rw [hsame interface service fun hlisted => hserv (hknown interface service hlisted)]
    exact hord.fresh interface service fun hbefore => hserv (hreg service hbefore)

theorem orderly_addService {service : Service}
    (hregular : Operation.Regular context (.addService service)) :
    Orderly (context.after (.addService service)) := by
  obtain ⟨hstarted, hnew⟩ := hregular
  have hentry : ∀ interface, ∀ entry ∈ (if service.implements interface then [service] else []),
      entry = service := by
    intro interface entry hentry
    cases himpl : service.implements interface <;> simp_all
  have hservs : ∀ interface, (context.after (.addService service)).servicesOf interface =
      context.servicesOf interface ++
        if service.implements interface then [service] else [] := by
    intro interface
    cases interface with
    | sync =>
      cases himpl : service.isService <;>
        simp [AppContext.after, addService, AppContext.servicesOf, Service.implements, himpl]
    | async =>
      cases himpl : service.isAsyncService <;>
        simp [AppContext.after, addService, AppContext.servicesOf, Service.implements, himpl]
  refine orderly_added hord hstarted
    ⟨hord.consistent.loop, hord.consistent.thread⟩ hord.processors
    (fun interface => if service.implements interface then [service] else []) ?_ ?_ hservs
    (fun _ => mem_append_left _) ?_ ?_ ?_
  · intro interface
    cases himpl : service.implements interface <;> simp
  · intro interface entry hmem
    rw [hentry interface entry hmem]
    exact hnew
  · intro interface entry hmem
    rw [hentry interface entry hmem]
    exact mem_append_right _ (.head _)
  · rintro interface entry himpl (⟨held, hmem⟩ | hcached)
    · rw [hservs] at hmem
      rcases mem_append.mp hmem with hbefore | hadded
      · exact .inl (.inl ⟨held, hbefore⟩)
      · rw [← hentry held entry hadded, if_pos himpl]
        exact .inr (.head _)
    · exact .inl (.inr hcached)
  · intro interface entry
    change context.callsTo interface entry = _ ++ if context.isStarted then _ else _
    rw [hstarted, if_neg Bool.false_ne_true, append_nil]

theorem orderly_unbuilt (hstarted : context.isStarted = false)
    (hraises : boot.registration.raises = true ∨ boot.initialization.raises = true) :
    Orderly (start boot context).2 := by
  obtain ⟨_, hstart⟩ := start_unbuilt hstarted hraises
  rw [hstart]
  refine orderly_unchanged hord ⟨rfl, rfl⟩ rfl hstarted.symm ?_ rfl
    (fun _ => mem_append_left _) nofun
  intro interface
  cases interface with
  | sync | async => exact take_left

theorem orderly_started (hstarted : context.isStarted = false)
    (hregular : Operation.Regular context (.start boot)) :
    Orderly (((boot.prepared context).startsServices boot.behaviour).startsAsyncServices
      boot.behaviour) := by
  obtain ⟨hquiet, hnodup, hnew⟩ := hregular
  have hprepared : boot.prepared context = context.starting.constructed boot.finished :=
    constructed_append ..
  rw [hprepared]
  obtain ⟨hservs, hreg⟩ := constructed_lists boot.finished
    (show context.starting.hasPostProcessors = true from rfl)
    fun service hserv => (hnew service hserv).2
  refine orderly_added hord hstarted ⟨rfl, rfl⟩ rfl
    (fun interface => entriesOf interface boot.finished) ?_ ?_ ?_ ?_ ?_ ?_ ?_
  · intro interface
    exact hnodup.filter _
  · intro interface service hserv
    exact (hnew service (mem_filter.mp hserv).1).1
  · intro interface
    cases interface with
    | sync => exact hservs .sync
    | async => exact hservs .async
  · intro service hserv
    exact mem_append_left _ hserv
  · intro interface service hserv
    change service ∈ (context.starting.constructed boot.finished).registered
    rw [hreg]
    exact mem_append_right _ (mem_filter.mp hserv).1
  · rintro interface service himpl (⟨held, hserv⟩ | ⟨name, hcached⟩)
    · have hlisted : service ∈ context.servicesOf held ++ entriesOf held boot.finished := by
        cases held with
        | sync => exact hservs .sync ▸ hserv
        | async => exact hservs .async ▸ hserv
      rcases mem_append.mp hlisted with hbefore | hentry
      · exact .inl (.inl ⟨held, hbefore⟩)
      · exact .inr (mem_entriesOf.mpr ⟨(mem_entriesOf.mp hentry).1, himpl⟩)
    · rcases mem_append.mp hcached with hbefore | hentry
      · exact .inl (.inr ⟨name, hbefore⟩)
      · obtain ⟨constructed, hconstructed, -, hsame⟩ := mem_cacheEntries hentry
        exact .inr (mem_entriesOf.mpr ⟨⟨constructed, hconstructed, hsame⟩, himpl⟩)
  · intro interface service
    rw [callsTo_started hquiet]
    cases interface with
    | sync => rfl
    | async => rfl

theorem orderly_start (hregular : Operation.Regular context (.start boot)) :
    Orderly (context.after (.start boot)) := by
  rw [AppContext.after]
  cases hstarted : context.isStarted with
  | true =>
    rw [start_started boot hstarted]
    exact hord
  | false =>
    by_cases hraises : boot.registration.raises = true ∨ boot.initialization.raises = true
    · exact orderly_unbuilt hord hstarted hraises
    · rw [start_completes hord.consistent hstarted]
      · exact orderly_started hord hstarted hregular
      · have hquiet := hregular.1
        rintro (hfails | hfails | hfails | hfails)
        · exact hraises (.inl hfails)
        · exact hraises (.inr hfails)
        · rw [any_quiet hquiet.start] at hfails
          cases hfails
        · rw [any_quiet hquiet.startAsync] at hfails
          cases hfails

theorem orderly_stopped (hstarted : context.isStarted = true) :
    Orderly context.stopped := by
  have hnone : ∀ interface, context.stopped.servicesOf interface = [] := by
    intro interface
    cases interface <;> rfl
  have hsame : ∀ interface, ∀ service ∉ context.servicesOf interface,
      context.stopped.callsTo interface service = context.callsTo interface service := by
    intro interface service hserv
    rw [callsTo_stopped, count_eq_zero_of_not_mem hserv, replicate_zero, append_nil]
  refine ⟨⟨rfl, rfl⟩, rfl, ?_, ?_, ?_, ?_, ?_, ?_⟩
  · intro interface
    rw [hnone]
    exact nodup_nil
  · intro interface service hserv
    rw [hnone] at hserv
    cases hserv
  · rintro interface service - (⟨held, hserv⟩ | ⟨name, hcached⟩)
    · rw [hnone] at hserv
      cases hserv
    · cases hcached
  · intro interface service hserv
    rw [hnone] at hserv
    cases hserv
  · intro interface service _
    by_cases hserv : service ∈ context.servicesOf interface
    · rw [callsTo_stopped, hord.current interface service hserv, hstarted,
        count_eq_one_of_mem (hord.nodup interface) hserv]
      exact .inr rfl
    · rw [hsame interface service hserv]
      exact hord.settled interface service hserv
  · intro interface service hserv
    rw [hsame interface service fun hlisted => hserv (hord.known interface service hlisted)]
    exact hord.fresh interface service hserv

theorem orderly_stop (hquiet : behaviour.Quiet) :
    Orderly (context.after (.stop behaviour)) := by
  rw [AppContext.after]
  cases hstarted : context.isStarted with
  | false =>
    rw [stop_stopped behaviour hstarted]
    exact hord
  | true =>
    rcases stop_cases behaviour hstarted (hord.consistent.loop.trans hstarted)
      (hord.consistent.thread.trans hstarted) with ⟨-, -, hstop⟩ | ⟨hraises | hraises, -⟩
    · rw [hstop]
      exact orderly_stopped hord hstarted
    · rw [any_quiet hquiet.stop] at hraises
      cases hraises
    · rw [any_quiet hquiet.stopAsync] at hraises
      cases hraises

end

theorem orderly_after (context : AppContext) (operation : Operation) (hord : Orderly context)
    (hregular : operation.Regular context) : Orderly (context.after operation) := by
  cases operation with
  | start => exact orderly_start hord hregular
  | get => exact orderly_get hord hregular
  | stop => exact orderly_stop hord hregular
  | addService => exact orderly_addService hord hregular

end Steps

/-- After every run of regular operations each service that a started context
manages was started once through each interface it implements and not stopped,
and every other one was never started, or started once and then stopped once. -/
theorem services_started_and_stopped_once (operations : List Operation)
    (hregular : Along AppContext.after (fun context operation => operation.Regular context) {}
      operations) (interface : Interface) (service : Service)
    (himplements : service.implements interface = true) :
    let context := run AppContext.after {} operations
    (context.isStarted = true ∧ context.Manages service →
      context.callsTo interface service = [interface.start]) ∧
    (¬ (context.isStarted = true ∧ context.Manages service) →
      context.callsTo interface service = [] ∨
        context.callsTo interface service = [interface.start, interface.stop]) := by
  intro context
  have horderly : Orderly context := Along.invariant orderly_after orderly_initial hregular
  refine ⟨?_, ?_⟩
  · rintro ⟨hstarted, hmanaged⟩
    have hlisted := horderly.listed interface service himplements hmanaged
    rw [horderly.current interface service hlisted, hstarted]
    rfl
  · intro hnot
    by_cases hlisted : service ∈ context.servicesOf interface
    · rw [horderly.current interface service hlisted, if_neg]
      · exact .inl rfl
      · exact fun hstarted => hnot ⟨hstarted, .inl ⟨interface, hlisted⟩⟩
    · exact horderly.settled interface service hlisted

def Behaviour.quiet : Behaviour :=
  ⟨fun _ => false, fun _ => false, fun _ => false, fun _ => false⟩

theorem quiet_quiet : Behaviour.quiet.Quiet :=
  ⟨fun _ => rfl, fun _ => rfl, fun _ => rfl, fun _ => rfl⟩

/-- A SINGLETON Pod. -/
def singleton (service : Service) : Constructed := ⟨service, some "pod"⟩

/-- A start that constructs the services. -/
def Boot.ofServices (services : List Service) : Boot :=
  ⟨⟨[], false⟩, ⟨services.map singleton, false⟩, .quiet⟩

/-- An asynchronous service. -/
def Service.async (id : Nat) : Service := ⟨id, false, true⟩

/-- A service with both interfaces. -/
def Service.dual (id : Nat) : Service := ⟨id, true, true⟩

/-- Two eager services, a get of an instance that is no service, and a stop. -/
def twoEager : List Operation :=
  [.start (.ofServices [.sync 0, .async 1]), .get ⟨[singleton ⟨2, false, false⟩], false⟩,
    .stop .quiet]

theorem twoEager_regular :
    Along AppContext.after (fun context operation => operation.Regular context) {} twoEager := by
  refine ⟨⟨quiet_quiet, by decide, by decide⟩, ?_, quiet_quiet, trivial⟩
  unfold Operation.Regular
  decide

theorem services_started_and_stopped_once_two_eager :
    let context := run AppContext.after {} twoEager
    context.callsTo .sync (.sync 0) = [.start, .stop] ∧
      context.callsTo .async (.async 1) = [.startAsync, .stopAsync] :=
  have hstopped : (run AppContext.after {} twoEager).isStarted ≠ true := by decide
  ⟨((services_started_and_stopped_once twoEager twoEager_regular .sync (.sync 0) rfl).2
      fun hmanaged => hstopped hmanaged.1).resolve_left (by decide),
    ((services_started_and_stopped_once twoEager twoEager_regular .async (.async 1) rfl).2
      fun hmanaged => hstopped hmanaged.1).resolve_left (by decide)⟩

/-- A service with both interfaces is started and stopped twice through each. A
service that a get constructs after the start is never started, and stopped. A
service that a get has constructed and cached before the start is never started. -/
theorem services_started_twice_or_never :
    let dual := run AppContext.after {} [.start (.ofServices [.dual 0])]
    let late := run AppContext.after {}
      [.start (.ofServices []), .get ⟨[singleton (.sync 0)], false⟩]
    let early := run AppContext.after {}
      [.get ⟨[singleton (.sync 0)], false⟩, .start (.ofServices [])]
    dual.callsTo .sync (.dual 0) = [.start, .start] ∧
    dual.callsTo .async (.dual 0) = [.startAsync, .startAsync] ∧
    (dual.after (.stop .quiet)).callsTo .sync (.dual 0) = [.start, .start, .stop, .stop] ∧
    late.isStarted = true ∧ .sync 0 ∈ late.services ∧ late.callsTo .sync (.sync 0) = [] ∧
    (late.after (.stop .quiet)).callsTo .sync (.sync 0) = [.stop] ∧
    early.isStarted = true ∧ ("pod", .sync 0) ∈ early.singletonCache ∧
    early.callsTo .sync (.sync 0) = [] := by
  decide

end Spakky.Lifecycle
