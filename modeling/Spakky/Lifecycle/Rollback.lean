import Spakky.Lifecycle.Context

/-!
What is left of a start that has failed. The rollback stops the services that
were started and then undoes the rest, one after the other, so an exception of
a service that is being stopped leaves the rest as it is; and it empties the
cache of singletons whatever was in it before the start.
-/

namespace Spakky.Lifecycle

open Effect Exec Machine List

/-- The event loop and its thread exist while the context is started. -/
structure AppContext.Consistent (context : AppContext) : Prop where
  loop : context.eventLoop = context.isStarted
  thread : context.eventThread = context.isStarted

variable (boot : Boot) (context : AppContext)

/-- The synchronous services that a start starts before anything raises. -/
def Boot.startedServices : List Service :=
  if boot.registration.raises || boot.initialization.raises then []
  else (boot.prepared context).services.takeWhile fun service =>
    !boot.behaviour.startRaises service

/-- The asynchronous ones come after all synchronous ones. -/
def Boot.startedAsyncServices : List Service :=
  if boot.registration.raises || boot.initialization.raises ||
      (boot.prepared context).services.any boot.behaviour.startRaises then []
  else (boot.prepared context).asyncServices.takeWhile fun service =>
    !boot.behaviour.startAsyncRaises service

/-- Something raises in the course of the start. -/
def Boot.Fails : Prop :=
  boot.registration.raises = true ∨ boot.initialization.raises = true ∨
    (boot.prepared context).services.any boot.behaviour.startRaises = true ∨
    (boot.prepared context).asyncServices.any boot.behaviour.startAsyncRaises = true

def Call.isStart : Call → Bool
  | .start | .startAsync => true
  | .stop | .stopAsync => false

/-- The context in which a start has raised, as the rollback finds it. -/
structure Interrupted (boot : Boot) (before context : AppContext) : Prop where
  isStarted : context.isStarted = true
  loops : context.eventThread = context.eventLoop
  services : ∃ added, context.services = before.services ++ added
  asyncServices : ∃ added, context.asyncServices = before.asyncServices ++ added
  started : context.startedServices = boot.startedServices before
  startedAsync : context.stoppable = boot.startedAsyncServices before
  /-- Without a loop nothing was started. -/
  idle : context.eventLoop = false → context.startedServices = []
  calls : ∃ starts, context.calls = before.calls ++ starts ∧ ∀ call ∈ starts, call.1.isStart = true

theorem called_kind {services : List Service} {kind : Call} {isStart : Bool}
    (hkind : kind.isStart = isStart) :
    ∀ call ∈ services.map (fun service => (kind, service)), call.1.isStart = isStart := by
  intro call hcall
  obtain ⟨_, -, rfl⟩ := mem_map.mp hcall
  exact hkind

theorem prepared_services (boot : Boot) (context : AppContext) :
    ∃ added, (boot.prepared context).services = context.services ++ added :=
  ⟨_, append_assoc ..⟩

theorem prepared_asyncServices (boot : Boot) (context : AppContext) :
    ∃ added, (boot.prepared context).asyncServices = context.asyncServices ++ added :=
  ⟨_, append_assoc ..⟩

variable {boot : Boot} {before : AppContext}

/-- A start whose Pods cannot be constructed has started nothing. -/
theorem interrupted_early {context : AppContext}
    (hraises : (boot.registration.raises || boot.initialization.raises) = true)
    (hstarted : context.isStarted = true) (hloop : context.eventLoop = false)
    (hthr : context.eventThread = false) (hnone : context.startedServices = [])
    (hservs : ∃ added, context.services = before.services ++ added)
    (hasyncServices : ∃ added, context.asyncServices = before.asyncServices ++ added)
    (hcalls : context.calls = before.calls) : Interrupted boot before context where
  isStarted := hstarted
  loops := hthr.trans hloop.symm
  services := hservs
  asyncServices := hasyncServices
  started := by simp [Boot.startedServices, hraises, hnone]
  startedAsync := by simp [Boot.startedAsyncServices, hraises, AppContext.stoppable, hloop]
  idle := fun _ => hnone
  calls := ⟨[], by rw [hcalls, append_nil], nofun⟩

section

variable (hraises : (boot.registration.raises || boot.initialization.raises) = false)
include hraises

theorem starts_started :
    ((boot.prepared before).startsServices boot.behaviour).startedServices =
      boot.startedServices before := by
  simp only [Boot.startedServices, hraises, Bool.false_eq_true, if_false]
  rfl

theorem interrupted_starting
    (hserv : (boot.prepared before).services.any boot.behaviour.startRaises = true) :
    Interrupted boot before ((boot.prepared before).startsServices boot.behaviour) where
  isStarted := rfl
  loops := rfl
  services := prepared_services boot before
  asyncServices := prepared_asyncServices boot before
  started := starts_started hraises
  startedAsync := by
    simp only [Boot.startedAsyncServices, hserv, Bool.or_true, if_true]
    rfl
  idle := nofun
  calls := ⟨_, rfl, called_kind rfl⟩

theorem interrupted_starting_async
    (hserv : (boot.prepared before).services.any boot.behaviour.startRaises = false) :
    Interrupted boot before
      (((boot.prepared before).startsServices boot.behaviour).startsAsyncServices
        boot.behaviour) where
  isStarted := rfl
  loops := rfl
  services := prepared_services boot before
  asyncServices := prepared_asyncServices boot before
  started := starts_started hraises
  startedAsync := by
    simp only [Boot.startedAsyncServices, hserv, hraises, Bool.or_false, Bool.false_eq_true,
      if_false]
    rfl
  idle := nofun
  calls := by
    refine ⟨_, append_assoc .., ?_⟩
    exact forall_mem_append.mpr ⟨called_kind rfl, called_kind rfl⟩

end

/-- A start ends well, or it raises and is rolled back. -/
theorem startBody_cases (boot : Boot) {context : AppContext}
    (hloop : context.eventLoop = false) (hthr : context.eventThread = false) :
    (¬ boot.Fails context ∧ startBody boot
        { context with isStarted := true, startedServices := [], startedAsyncServices := [] } =
      (.ok (), ((boot.prepared context).startsServices boot.behaviour).startsAsyncServices
        boot.behaviour)) ∨
    boot.Fails context ∧ ∃ next,
      startBody boot
        { context with isStarted := true, startedServices := [], startedAsyncServices := [] } =
      (.error .ofUserCode, next) ∧ Interrupted boot context next := by
  rw [startBody_run]
  cases hregistration : boot.registration.raises with
  | true =>
    refine .inr ⟨.inl hregistration, _, rfl, ?_⟩
    exact interrupted_early (by simp [hregistration]) rfl hloop hthr rfl ⟨_, rfl⟩ ⟨_, rfl⟩ rfl
  | false =>
    cases hinit : boot.initialization.raises with
    | true =>
      refine .inr ⟨.inr (.inl hinit), _, rfl, ?_⟩
      exact interrupted_early (by simp [hinit]) rfl hloop hthr rfl
        (prepared_services boot context) (prepared_asyncServices boot context) rfl
    | false =>
      have hraises : (boot.registration.raises || boot.initialization.raises) = false := by
        rw [hregistration, hinit]
        rfl
      have hrun := startServices_run (show (boot.prepared context).eventLoop = false from hloop)
        hthr boot.behaviour
      cases hserv : (boot.prepared context).services.any boot.behaviour.startRaises with
      | true =>
        refine .inr ⟨.inr (.inr (.inl hserv)), _, ?_, interrupted_starting hraises hserv⟩
        rw [hserv] at hrun
        exact hrun
      | false =>
        rw [hserv] at hrun
        cases hasync :
            (boot.prepared context).asyncServices.any boot.behaviour.startAsyncRaises with
        | true =>
          refine .inr ⟨.inr (.inr (.inr hasync)), _, ?_, interrupted_starting_async hraises hserv⟩
          rw [hasync] at hrun
          exact hrun
        | false =>
          refine .inl ⟨?_, ?_⟩
          · rintro (hfails | hfails | hfails | hfails)
            · rw [hregistration] at hfails; cases hfails
            · rw [hinit] at hfails; cases hfails
            · rw [hserv] at hfails; cases hfails
            · rw [hasync] at hfails; cases hfails
          · rw [hasync] at hrun
            exact hrun

/-- A context after a start that was undone completely, with the stops that were
made for it. -/
structure Undone (stops : List (Call × Service)) (before after : AppContext) : Prop where
  isStarted : after.isStarted = false
  eventLoop : after.eventLoop = false
  eventThread : after.eventThread = false
  services : after.services = before.services
  asyncServices : after.asyncServices = before.asyncServices
  singletonCache : after.singletonCache = before.singletonCache
  calls : ∃ starts, after.calls = before.calls ++ starts ++ stops ∧
    ∀ call ∈ starts, call.1.isStart = true

/-- The stops of the services that were started, in the reverse of the order of
their starts. -/
def Boot.stopsInReverse : List (Call × Service) :=
  (boot.startedAsyncServices context).reverse.map (fun service => (.stopAsync, service)) ++
    (boot.startedServices context).reverse.map fun service => (.stop, service)

/-- The same stops with those of the synchronous services first. -/
def Boot.stopsByKind : List (Call × Service) :=
  (boot.startedServices context).reverse.map (fun service => (.stop, service)) ++
    (boot.startedAsyncServices context).reverse.map fun service => (.stopAsync, service)

/-- No service that was started raises when the rollback stops it. -/
def Boot.StopsQuietly : Prop :=
  (boot.startedServices context).any boot.behaviour.stopRaises = false ∧
    (boot.startedAsyncServices context).any boot.behaviour.stopAsyncRaises = false

section Rollback

variable {boot : Boot} {before context : AppContext} (hctx : Interrupted boot before context)
include hctx

theorem rollback_quiet (hquiet : boot.StopsQuietly before) :
    rollbackFailedStart boot.behaviour before.services.length before.asyncServices.length context =
      (.ok (), ((context.called .stop context.startedServices.reverse).called .stopAsync
        context.stoppable.reverse).rolledBack before.services.length
          before.asyncServices.length) := by
  rw [rollbackFailedStart_run, hctx.started, hctx.startedAsync, hquiet.1, hquiet.2]
  rfl

theorem rollback_undone (hquiet : boot.StopsQuietly before) (hcache : before.singletonCache = []) :
    Undone (boot.stopsByKind before) before
      (rollbackFailedStart boot.behaviour before.services.length before.asyncServices.length
        context).2 := by
  rw [rollback_quiet hctx hquiet]
  obtain ⟨_, hservs⟩ := hctx.services
  obtain ⟨_, hasyncServices⟩ := hctx.asyncServices
  obtain ⟨starts, hcalls, hstarts⟩ := hctx.calls
  refine ⟨rfl, rfl, rfl, ?_, ?_, hcache.symm, starts, ?_, hstarts⟩
  · change context.services.take before.services.length = before.services
    rw [hservs, take_left]
  · change context.asyncServices.take before.asyncServices.length = before.asyncServices
    rw [hasyncServices, take_left]
  · change context.calls ++ context.startedServices.reverse.map _ ++
      context.stoppable.reverse.map _ = _
    rw [hcalls, hctx.started, hctx.startedAsync, Boot.stopsByKind, append_assoc]

/-- A service that raises in its stop leaves the context started. -/
theorem rollback_aborted (hloud : ¬ boot.StopsQuietly before) :
    let after := (rollbackFailedStart boot.behaviour before.services.length
      before.asyncServices.length context).2
    after.isStarted = true ∧ after.eventLoop = true ∧ after.eventThread = true := by
  have hloop : context.eventLoop = true := by
    cases hloop : context.eventLoop with
    | true => rfl
    | false =>
      refine absurd ⟨?_, ?_⟩ hloud
      · rw [← hctx.started, hctx.idle hloop]
        rfl
      · rw [← hctx.startedAsync, AppContext.stoppable, hloop]
        rfl
  have hthr : context.eventThread = true := hctx.loops.trans hloop
  rw [rollbackFailedStart_run, hctx.started, hctx.startedAsync]
  cases hsync : (boot.startedServices before).any boot.behaviour.stopRaises with
  | true => exact ⟨hctx.isStarted, hloop, hthr⟩
  | false =>
    cases hasync : (boot.startedAsyncServices before).any boot.behaviour.stopAsyncRaises with
    | true => exact ⟨hctx.isStarted, hloop, hthr⟩
    | false => exact absurd ⟨hsync, hasync⟩ hloud

end Rollback

section

variable {boot : Boot} {context : AppContext}

/-- A start that raises is rolled back from where it was interrupted. -/
theorem start_interrupted (hcons : context.Consistent) (hstarted : context.isStarted = false)
    (hfails : boot.Fails context) :
    ∃ next, Interrupted boot context next ∧
      (start boot context).2 = (rollbackFailedStart boot.behaviour context.services.length
        context.asyncServices.length next).2 := by
  rcases startBody_cases boot (hcons.loop.trans hstarted)
    (hcons.thread.trans hstarted) with ⟨hends, -⟩ | ⟨-, next, hbody, hnext⟩
  · exact absurd hfails hends
  · refine ⟨next, hnext, ?_⟩
    rw [start_run boot hstarted]
    cases hroll : rollbackFailedStart boot.behaviour context.services.length
        context.asyncServices.length next using exec_cases with
    | ok => rw [onError_error hbody hroll]
    | error => rw [onError_fails hbody hroll]

theorem start_completes (hcons : context.Consistent) (hstarted : context.isStarted = false)
    (hends : ¬ boot.Fails context) :
    start boot context =
      (.ok (), ((boot.prepared context).startsServices boot.behaviour).startsAsyncServices
        boot.behaviour) := by
  rcases startBody_cases boot (hcons.loop.trans hstarted)
    (hcons.thread.trans hstarted) with ⟨-, hbody⟩ | ⟨hfails, -⟩
  · rw [start_run boot hstarted, onError_ok hbody]
  · exact absurd hfails hends

theorem consistent_start (boot : Boot) (hcons : context.Consistent) :
    (start boot context).2.Consistent := by
  cases hstarted : context.isStarted with
  | true =>
    rw [start_started boot hstarted]
    exact hcons
  | false =>
    by_cases hfails : boot.Fails context
    · obtain ⟨_, hnext, hrun⟩ := start_interrupted hcons hstarted hfails
      rw [hrun]
      by_cases hquiet : boot.StopsQuietly context
      · rw [rollback_quiet hnext hquiet]
        exact ⟨rfl, rfl⟩
      · obtain ⟨hafter, hloop, hthr⟩ := rollback_aborted hnext hquiet
        exact ⟨hloop.trans hafter.symm, hthr.trans hafter.symm⟩
    · rw [start_completes hcons hstarted hfails]
      exact ⟨rfl, rfl⟩

theorem consistent_stop (behaviour : Behaviour) (hcons : context.Consistent) :
    (stop behaviour context).2.Consistent := by
  cases hstarted : context.isStarted with
  | false =>
    rw [stop_stopped behaviour hstarted]
    exact hcons
  | true =>
    rcases stop_cases behaviour hstarted (hcons.loop.trans hstarted)
      (hcons.thread.trans hstarted) with ⟨-, -, hstop⟩ | ⟨-, hafter, hloop, hthr⟩
    · rw [hstop]
      exact ⟨rfl, rfl⟩
    · exact ⟨hloop.trans hafter.symm, hthr.trans hafter.symm⟩

end

theorem consistent_after (context : AppContext) (operation : Operation)
    (hcons : context.Consistent) : (context.after operation).Consistent := by
  cases operation with
  | start boot => exact consistent_start boot hcons
  | get =>
    rw [AppContext.after, constructAll_run]
    exact ⟨hcons.loop, hcons.thread⟩
  | stop behaviour => exact consistent_stop behaviour hcons
  | addService => exact ⟨hcons.loop, hcons.thread⟩

theorem consistent_run (operations : List Operation) :
    (run AppContext.after {} operations).Consistent :=
  invariant_run consistent_after ⟨rfl, rfl⟩ operations

section Order

theorem stops_of_append {starts stops : List (Call × Service)}
    (hstarts : ∀ call ∈ starts, call.1.isStart = true)
    (hstops : ∀ call ∈ stops, call.1.isStart = false) :
    (starts ++ stops).filter (fun call => !call.1.isStart) = stops := by
  rw [filter_append, filter_eq_nil_iff.mpr, filter_eq_self.mpr, nil_append]
  · intro call hcall
    rw [hstops call hcall, Bool.not_false]
  · intro call hcall
    rw [hstarts call hcall, Bool.not_true]
    exact Bool.false_ne_true

theorem Undone.stops_unique {stops stops' : List (Call × Service)} {before after : AppContext}
    (hundone : Undone stops before after) (hundone' : Undone stops' before after)
    (hstops : ∀ call ∈ stops, call.1.isStart = false)
    (hstops' : ∀ call ∈ stops', call.1.isStart = false) : stops = stops' := by
  obtain ⟨_, hcalls, hstarts⟩ := hundone.calls
  obtain ⟨_, hcalls', hstarts'⟩ := hundone'.calls
  rw [hcalls, append_assoc, append_assoc] at hcalls'
  rw [← stops_of_append hstarts hstops, append_cancel_left hcalls',
    stops_of_append hstarts' hstops']

variable (boot : Boot)

theorem stopsByKind_stops (context : AppContext) :
    ∀ call ∈ boot.stopsByKind context, call.1.isStart = false :=
  forall_mem_append.mpr ⟨called_kind rfl, called_kind rfl⟩

theorem stopsInReverse_stops (context : AppContext) :
    ∀ call ∈ boot.stopsInReverse context, call.1.isStart = false :=
  forall_mem_append.mpr ⟨called_kind rfl, called_kind rfl⟩

/-- The two orders agree only if one of the kinds is missing. -/
theorem stopsByKind_eq_iff (context : AppContext) :
    boot.stopsByKind context = boot.stopsInReverse context ↔
      boot.startedServices context = [] ∨ boot.startedAsyncServices context = [] := by
  rw [Boot.stopsByKind, Boot.stopsInReverse]
  constructor
  · intro heq
    cases hsync : (boot.startedServices context).reverse with
    | nil => exact .inl (reverse_eq_nil_iff.mp hsync)
    | cons =>
      cases hasync : (boot.startedAsyncServices context).reverse with
      | nil => exact .inr (reverse_eq_nil_iff.mp hasync)
      | cons =>
        rw [hsync, hasync] at heq
        simp at heq
  · rintro (hnone | hnone)
    · simp [hnone]
    · simp [hnone]

end Order

/-- A failed start of any run is undone completely, with the services stopped
kind by kind, exactly if no service raises in its stop and the cache was empty;
they are stopped in the reverse of the order of their starts exactly if those
that were started are moreover all of one kind. -/
theorem failed_start_undone_iff (operations : List Operation) (boot : Boot)
    (hstarted : (run AppContext.after {} operations).isStarted = false)
    (hfails : boot.Fails (run AppContext.after {} operations)) :
    let before := run AppContext.after {} operations
    (Undone (boot.stopsByKind before) before (before.after (.start boot)) ↔
      boot.StopsQuietly before ∧ before.singletonCache = []) ∧
    (Undone (boot.stopsInReverse before) before (before.after (.start boot)) ↔
      boot.StopsQuietly before ∧ before.singletonCache = [] ∧
        (boot.startedServices before = [] ∨ boot.startedAsyncServices before = [])) := by
  intro before
  obtain ⟨next, hnext, hrun⟩ := start_interrupted (consistent_run operations) hstarted hfails
  have hafter : before.after (.start boot) = (rollbackFailedStart boot.behaviour
    before.services.length before.asyncServices.length next).2 := hrun
  have hneeds : ∀ stops, Undone stops before (before.after (.start boot)) →
      boot.StopsQuietly before ∧ before.singletonCache = [] := by
    intro stops hundone
    rw [hafter] at hundone
    have hquiet : boot.StopsQuietly before := by
      by_contra hloud
      have hleft := (rollback_aborted hnext hloud).1
      rw [hundone.isStarted] at hleft
      exact Bool.false_ne_true hleft
    rw [rollback_quiet hnext hquiet] at hundone
    exact ⟨hquiet, hundone.singletonCache.symm⟩
  have hgives : boot.StopsQuietly before → before.singletonCache = [] →
      Undone (boot.stopsByKind before) before (before.after (.start boot)) := by
    intro hquiet hcache
    rw [hafter]
    exact rollback_undone hnext hquiet hcache
  refine ⟨⟨hneeds _, fun hcondition => hgives hcondition.1 hcondition.2⟩, ?_, ?_⟩
  · intro hundone
    obtain ⟨hquiet, hcache⟩ := hneeds _ hundone
    refine ⟨hquiet, hcache, (stopsByKind_eq_iff boot before).mp ?_⟩
    exact (hgives hquiet hcache).stops_unique hundone (stopsByKind_stops boot before)
      (stopsInReverse_stops boot before)
  · rintro ⟨hquiet, hcache, hkinds⟩
    rw [← (stopsByKind_eq_iff boot before).mpr hkinds]
    exact hgives hquiet hcache

/-- A synchronous service. -/
def Service.sync (id : Nat) : Service := ⟨id, true, false⟩

/-- No Pod is constructed; the services are those that were added by hand. -/
def Boot.ofBehaviour (behaviour : Behaviour) : Boot := ⟨⟨[], false⟩, ⟨[], false⟩, behaviour⟩

/-- The service 1 raises in its start, and those of `stopRaises` in their stop. -/
def Boot.secondFails (stopRaises : Service → Bool) : Boot :=
  Boot.ofBehaviour ⟨fun service => service.id == 1, fun _ => false, stopRaises, fun _ => false⟩

/-- Two services added to a context that was never started. -/
def twoServices : List Operation := [.addService (.sync 0), .addService (.sync 1)]

theorem failed_start_undone_iff_two_services :
    let before := run AppContext.after {} twoServices
    let boot := .secondFails fun _ => false
    Undone [(.stop, .sync 0)] before (before.after (.start boot)) := by
  have hfails : (Boot.secondFails fun _ => false).Fails (run AppContext.after {} twoServices) :=
    .inr (.inr (.inl (by decide)))
  exact (failed_start_undone_iff twoServices (.secondFails fun _ => false) rfl hfails).2.mpr
    ⟨⟨by decide, by decide⟩, rfl, .inr (by decide)⟩

/-- The service 0 is started, the start of the service 1 raises, and so does the
stop of the service 0: the context stays started with its event loop, and it can
not be started again. In a context with a cached singleton and services that
stop without raising, the cache is lost. -/
theorem failed_start_left_started :
    let before := run AppContext.after {} twoServices
    let after := before.after (.start (.secondFails fun _ => true))
    let cached := before.after (.get ⟨[⟨⟨7, false, false⟩, some "pod"⟩], false⟩)
    before.isStarted = false ∧
    after.isStarted = true ∧ after.eventLoop = true ∧ after.eventThread = true ∧
    (start (.secondFails fun _ => true) after).1 = .error .applicationContextAlreadyStarted ∧
    cached.singletonCache = [("pod", ⟨7, false, false⟩)] ∧
    (cached.after (.start (.secondFails fun _ => false))).isStarted = false ∧
    (cached.after (.start (.secondFails fun _ => false))).singletonCache = [] := by
  decide

end Spakky.Lifecycle
