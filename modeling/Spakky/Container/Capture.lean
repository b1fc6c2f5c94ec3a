import Spakky.Container.Startup

/-!
What a singleton keeps of the context it was constructed in. A get of a cached
Pod returns the cached object and constructs nothing, and the cache of the
singletons is the same in every context. So a singleton is one object for all
contexts, with the arguments of its only construction, and a context-scoped Pod
among these is the instance of the context in which start-up ran.
-/

namespace Spakky.Container

open Effect Exec

variable {context : Context} {state : ContextState} {pod : Pod} {object : Instance}

theorem getPodInstance_cached (hcached : state.cached pod = some object) (fuel : Nat)
    (hierarchy : List PyType) :
    getPodInstance context (fuel + 1) hierarchy pod state = (.ok object, state) := by
  simp only [getPodInstance, reads_bind_run, hcached, pure_run]

/-- In whichever context a singleton is asked for, it is the cached object. -/
theorem getPodInstance_singleton (hscope : pod.scope = .singleton)
    (hcached : state.cached pod = some object) (contextCache : List (String × Instance))
    (fuel : Nat) :
    getPodInstance context (fuel + 1) [] pod { state with contextCache := contextCache } =
      (.ok object, { state with contextCache := contextCache }) := by
  apply getPodInstance_cached
  rw [ContextState.cached, hscope] at hcached ⊢
  exact hcached

/-- What the constructions of a Pod were given. -/
def ContextState.givenTo (state : ContextState) (pod : Pod) : List Injected :=
  (state.completed.filter (·.pod = pod.name)).flatMap (·.arguments.map (·.2))

/-- After start-up the holder is one object for all contexts, which was given `held`. -/
def Captures (registry : Registry) (fuel : Nat) (holder : Pod) (held : Instance) : Prop :=
  (started registry fuel).2.givenTo holder = [.single held] ∧
    ∃ object, ∀ contextCache, (getPodInstance registry.context fuel [] holder
      { (started registry fuel).2 with contextCache := contextCache }).1 = .ok object

theorem captures_of_cached {registry : Registry} {fuel : Nat} {held : Instance}
    (hscope : pod.scope = .singleton)
    (hgiven : (started registry (fuel + 1)).2.givenTo pod = [.single held])
    (hcached : ((started registry (fuel + 1)).2.cached pod).isSome) :
    Captures registry (fuel + 1) pod held := by
  obtain ⟨object, hobject⟩ := Option.isSome_iff_exists.mp hcached
  refine ⟨hgiven, object, fun contextCache => ?_⟩
  rw [getPodInstance_singleton hscope hobject]

def aggregateCollector : Pod where
  id := 1
  name := "aggregate_collector"
  scope := .context
  type_ := ⟨1, "AggregateCollector"⟩
  baseTypes := [⟨1, "AggregateCollector"⟩]
  dependencies := []
  parameters_nodup := List.nodup_nil

/-- A singleton that is given the collector. -/
def collectorHolder (id : Nat) (name : String) (type_ : PyType) (parameter : String) : Pod where
  id := id
  name := name
  type_ := type_
  baseTypes := [type_]
  dependencies := [{ name := parameter, type_ := .type aggregateCollector.type_ }]
  parameters_nodup := List.nodup_singleton parameter

def orderRepository : Pod :=
  collectorHolder 2 "order_repository" ⟨2, "OrderRepository"⟩ "aggregate_collector"

def eventPublishingAspect : Pod :=
  { collectorHolder 3 "transactional_event_publishing_aspect"
      ⟨3, "TransactionalEventPublishingAspect"⟩ "collector" with
    aspect := some fun _ => false }

def eventRegistry : Registry :=
  .ofPods [aggregateCollector, orderRepository, eventPublishingAspect]

/-- The repository and the aspect of every context hold the collector of start-up. -/
theorem collector_captured : ∀ holder ∈ [orderRepository, eventPublishingAspect],
    Captures eventRegistry 5 holder ⟨0, "aggregate_collector", false⟩ := by
  simp only [List.forall_mem_cons, List.not_mem_nil, false_imp_iff, implies_true, and_true]
  exact ⟨captures_of_cached rfl (by decide +kernel) (by decide +kernel),
    captures_of_cached rfl (by decide +kernel) (by decide +kernel)⟩

-- a context that asks for the collector gets one of its own
example : (getPodInstance eventRegistry.context 5 [] aggregateCollector
    (started eventRegistry 5).2.clearContext).1 = .ok ⟨3, "aggregate_collector", false⟩ := by
  decide +kernel

end Spakky.Container
