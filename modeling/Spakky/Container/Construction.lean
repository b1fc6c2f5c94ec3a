import Spakky.Effect
import Spakky.Container.Resolution

/-!
How an `ApplicationContext` constructs Pods. `getPodInstance` is the recursion
of `__get_pod_instance`, `__instantiate_pod` and `__get_internal`; the other
functions take it as a parameter. It is bounded by fuel, since post-processing
with aspects enters the container again with an empty hierarchy.

Constructors are taken to return a new object and to do nothing else. Of the
post-processors only the aspect one calls back into the container; the other
ones return the object as it is. Threads, locks, elapsed times and the
dependency paths of diagnostics are left out.
-/

namespace Spakky.Container

open Effect Exec

/-- An object made by the Pod of that name, possibly behind an aspect proxy. -/
structure Instance where
  serial : Nat
  pod : String
  isProxy : Bool := false
  deriving DecidableEq, Repr

/-- The value passed for a parameter. -/
inductive Injected where
  | absent
  | single (object : Instance)
  | list (objects : List Instance)
  | tuple (objects : List Instance)
  | dict (entries : List (String × Instance))
  deriving DecidableEq, Repr

/-- A finished construction: the Pod and what its parameters were given. -/
structure Construction where
  pod : String
  arguments : List (String × Injected)
  deriving DecidableEq, Repr

/-- The caches of a context. `completed` records the finished constructions
and is never read by the code. -/
structure ContextState where
  singletonCache : List (String × Instance) := []
  contextCache : List (String × Instance) := []
  nextSerial : Nat := 0
  isStarted : Bool := false
  completed : List Construction := []

abbrev ContextM (α : Type) := Exec ContextState ContainerError α

namespace ContextState

variable (state : ContextState) (pod : Pod)

def cached : Option Instance :=
  match pod.scope with
  | .singleton => state.singletonCache.lookup pod.name
  | .context => state.contextCache.lookup pod.name
  | .prototype => none

def store (object : Instance) : ContextState :=
  match pod.scope with
  | .singleton => { state with singletonCache := (pod.name, object) :: state.singletonCache }
  | .context => { state with contextCache := (pod.name, object) :: state.contextCache }
  | .prototype => state

def record (arguments : List (String × Injected)) : ContextState :=
  { state with completed := state.completed ++ [⟨pod.name, arguments⟩] }

def clearContext : ContextState := { state with contextCache := [] }

/-- What `__rollback_failed_start` leaves of the caches. -/
def rollbackFailedStart : ContextState :=
  { state with singletonCache := [], contextCache := [], isStarted := false }

end ContextState

/-- The arguments the target of a Pod is called with. -/
def Pod.finalDependencies (pod : Pod) :
    List (DependencyInfo × Injected) → Except ContainerError (List (String × Injected))
  | [] => .ok []
  | (dependency, injected) :: rest =>
    if injected = .absent ∧ dependency.hasDefault = true then
      pod.finalDependencies rest
    else if injected = .absent ∧ dependency.isOptional = false then
      .error (.unexpectedDependencyTypeInjected pod.type_ dependency.name dependency.type_)
    else
      match pod.finalDependencies rest with
      | .ok others => .ok ((dependency.name, injected) :: others)
      | .error error => .error error

/-- Call the target of a Pod. -/
def Pod.call (pod : Pod) : ContextM Instance := do
  let serial ← reads fun state => state.nextSerial
  modify fun state => { state with nextSerial := serial + 1 }
  pure { serial := serial, pod := pod.name }

inductive PostProcessor where
  | applicationContextAware
  | aspect
  | service
  deriving DecidableEq, Repr

structure Context where
  registry : Registry
  postProcessors : List PostProcessor

/-- The selector `AspectPostProcessor.post_process` hands to `find`. -/
def Pod.advises (aspect pod : Pod) : Bool :=
  (match aspect.aspect with
    | some pointcut => pointcut pod.toPodInfo
    | none => false) ||
  match aspect.asyncAspect with
  | some pointcut => pointcut pod.toPodInfo
  | none => false

section Calls

variable (construct : List PyType → Pod → ContextM Instance) (registry : Registry)

def getInternal (type_ : TypeRef) (name : Option String) (hierarchy : List PyType)
    (qualifiers : List Qualifier) (nameIsDependencyParameter : Bool) :
    ContextM (Option Instance) := do
  let found ← ofExcept (registry.resolve type_ name qualifiers nameIsDependencyParameter)
  match found with
  | none => pure none
  | some pod => do
      let object ← construct hierarchy pod
      pure (some object)

variable {construct registry} in
theorem getInternal_some {type_ : TypeRef} {name : Option String} {hierarchy : List PyType}
    {qualifiers : List Qualifier} {parameter : Bool} {pod : Pod}
    (h : registry.resolve type_ name qualifiers parameter = .ok (some pod)) :
    getInternal construct registry type_ name hierarchy qualifiers parameter = (do
      let object ← construct hierarchy pod
      pure (some object)) := by
  unfold getInternal
  rw [h]
  rfl

/-- Construct several Pods, one after the other. -/
def constructEach (hierarchy : List PyType) : List Pod → ContextM (List Instance)
  | [] => pure []
  | pod :: rest => do
      let object ← construct hierarchy pod
      let others ← constructEach hierarchy rest
      pure (object :: others)

variable (dependency : DependencyInfo) (kind : DependencyCollectionKind) (hierarchy : List PyType)

def collected (pods : List Pod) (objects : List Instance) : Injected :=
  match kind with
  | .list => .list objects
  | .tuple => .tuple objects
  | .dict => .dict ((pods.map (·.name)).zip objects)

def resolveCollectionDependency : ContextM Injected :=
  match registry.resolveCollectionCandidates dependency.type_ dependency.qualifiers with
  | [] => pure .absent
  | pod :: rest => do
      let objects ← constructEach construct hierarchy (pod :: rest)
      pure (collected kind (pod :: rest) objects)

def resolveDependency : ContextM Injected :=
  match dependency.collectionKind with
  | some kind => resolveCollectionDependency construct registry dependency kind hierarchy
  | none => do
      let found ← getInternal construct registry dependency.type_ (some dependency.name) hierarchy
        dependency.qualifiers true
      match found with
      | none => pure .absent
      | some object => pure (.single object)

def resolveDependencies (pod : Pod) (hierarchy : List PyType) :
    List DependencyInfo → ContextM (List (DependencyInfo × Injected))
  | [] => pure []
  | dependency :: rest => do
      let injected ← resolveDependency construct registry dependency hierarchy
      if injected = .absent ∧ dependency.hasDefault = false ∧ dependency.isOptional = false then
        raise (.unexpectedDependencyTypeInjected pod.type_ dependency.name dependency.type_)
      else do
        let others ← resolveDependencies pod hierarchy rest
        pure ((dependency, injected) :: others)

def find (selector : Pod → Bool) : List Pod → ContextM (List (Option Instance))
  | [] => pure []
  | pod :: rest =>
    if selector pod then do
      let object ← getInternal construct registry (.type pod.type_) (some pod.name) [] [] false
      let others ← find selector rest
      pure (object :: others)
    else
      find selector rest

def PostProcessor.postProcess (processor : PostProcessor) (pod : Pod) (object : Instance) :
    ContextM Instance :=
  match processor with
  | .applicationContextAware => pure object
  | .service => pure object
  | .aspect => do
      let matchedAspects ← find construct registry (fun aspect => aspect.advises pod) registry.pods
      pure (if matchedAspects.any Option.isSome then { object with isProxy := true } else object)

def postProcessPod (pod : Pod) (object : Instance) : List PostProcessor → ContextM Instance
  | [] => pure object
  | processor :: rest => do
      let processed ← processor.postProcess construct registry pod object
      postProcessPod pod processed rest

def initializePods : List Pod → ContextM Unit
  | [] => pure ()
  | pod :: rest => do
      let object ← getInternal construct registry (.type pod.type_) (some pod.name) [] [] false
      match object with
      | none => raise (.noSuchPod pod.type_ pod.name)
      | some _ => initializePods rest

end Calls

def instantiatePod (construct : List PyType → Pod → ContextM Instance) (context : Context)
    (hierarchy : List PyType) (pod : Pod) : ContextM Instance :=
  if pod.type_ ∈ hierarchy then
    raise (.circularDependencyGraphDetected (hierarchy ++ [pod.type_]))
  else do
    let dependencies ← resolveDependencies construct context.registry pod
      (hierarchy ++ [pod.type_]) pod.dependencies
    let arguments ← ofExcept (pod.finalDependencies dependencies)
    let object ← pod.call
    let processed ← postProcessPod construct context.registry pod object
      context.postProcessors
    modify fun state => state.record pod arguments
    pure processed

def getPodInstance (context : Context) : Nat → List PyType → Pod → ContextM Instance
  | 0, _, _ => raise .outOfFuel
  | fuel + 1, hierarchy, pod => do
      let cached ← reads fun state => state.cached pod
      match cached with
      | some object => pure object
      | none => do
          let object ← instantiatePod (getPodInstance context fuel) context hierarchy pod
          modify fun state => state.store pod object
          pure object

/-- The interface by which user-defined post-processors are found. -/
def iPostProcessor : PyType := ⟨0, "IPostProcessor"⟩

def Pod.isPostProcessor (pod : Pod) : Bool := pod.baseTypes.contains iPostProcessor

variable (registry : Registry)

/-- The context once its built-in post-processors are registered. -/
def Registry.context : Context :=
  ⟨registry, [.applicationContextAware, .aspect, .service]⟩

/-- Find the user-defined post-processors, then construct all other Pods that
are not lazy. -/
def startPods (fuel : Nat) : ContextM Unit := do
  let construct := getPodInstance registry.context fuel
  let _ ← find construct registry Pod.isPostProcessor registry.pods
  initializePods construct registry (registry.pods.filter fun pod => !pod.isLazy)

def start (fuel : Nat) : ContextM Unit := do
  let isStarted ← reads fun state => state.isStarted
  if isStarted then
    raise .applicationContextAlreadyStarted
  else do
    modify fun state => { state with isStarted := true }
    let result ← attempt (startPods registry fuel)
    match result with
    | .ok () => pure ()
    | .error error => do
        modify ContextState.rollbackFailedStart
        raise error

end Spakky.Container
