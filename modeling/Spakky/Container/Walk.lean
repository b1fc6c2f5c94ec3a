import Spakky.Simulation
import Spakky.DepthFirst.Basic
import Spakky.Container.Construction

/-!
The depth-first walk behind the construction of Pods. Which Pods a Pod needs
is known before anything is constructed: its parameters are resolved from the
registry alone, and the aspects applied to it are those that match it. So the
construction is a search in the sense of `DepthFirst`, over Pod names, and it
runs beside that search step by step.
-/

namespace Spakky.Container

open Effect Exec DepthFirst List

variable (registry : Registry)

/-- Following one parameter of a Pod. -/
def dependencyItems (pod : Pod) (dependency : DependencyInfo) : List (Item String ContainerError) :=
  match registry.select dependency with
  | .error error => [.fail error]
  | .ok selection =>
    if selection = .absent ∧ dependency.hasDefault = false ∧ dependency.isOptional = false then
      [.fail (.unexpectedDependencyTypeInjected pod.type_ dependency.name dependency.type_)]
    else
      selection.pods.map fun name => .visit name false

/-- Fetching Pods from outside of any construction. -/
def freshItems (pods : List Pod) : List (Item String ContainerError) :=
  pods.map fun pod => .visit pod.name true

def processorItems (pod : Pod) : PostProcessor → List (Item String ContainerError)
  | .aspect => freshItems (registry.pods.filter fun aspect => aspect.advises pod)
  | .applicationContextAware => []
  | .service => []

def Context.planOf (context : Context) (pod : Pod) : List (Item String ContainerError) :=
  pod.dependencies.flatMap (dependencyItems context.registry pod) ++
    context.postProcessors.flatMap (processorItems context.registry pod)

def Registry.typeOf (name : String) : Option PyType :=
  (registry.lookup name).map (·.type_)

def Context.problem (context : Context) : Problem String ContainerError where
  plan name := match context.registry.lookup name with
    | some pod => context.planOf pod
    | none => []
  memo name := match context.registry.lookup name with
    | some pod => decide (pod.scope ≠ .prototype)
    | none => false
  clash name stack := decide (context.registry.typeOf name ∈ stack.map context.registry.typeOf)

def Injected.selection : Injected → Selection
  | .absent => .absent
  | .single object => .single object.pod
  | .list objects => .collection .list (objects.map (·.pod))
  | .tuple objects => .collection .tuple (objects.map (·.pod))
  | .dict entries => .collection .dict (entries.map (·.2.pod))

/-- The Pods one parameter is resolved to, unless it takes its default. -/
def Registry.argumentOf (dependency : DependencyInfo) : Option (String × Selection) :=
  match registry.select dependency with
  | .error _ => none
  | .ok selection =>
    if selection = .absent ∧ dependency.hasDefault = true then none
    else some (dependency.name, selection)

def Registry.argumentsOf (dependencies : List DependencyInfo) : List (String × Selection) :=
  dependencies.filterMap registry.argumentOf

def selections (arguments : List (String × Injected)) : List (String × Selection) :=
  arguments.map fun argument => (argument.1, argument.2.selection)

def faultOf : ContainerError → Fault ContainerError
  | .circularDependencyGraphDetected _ => .cycle
  | .outOfFuel => .outOfFuel
  | error => .failed error

variable {error : ContainerError}

theorem faultOf_outOfFuel : faultOf error = .outOfFuel ↔ error = .outOfFuel := by
  cases error <;> simp [faultOf]

theorem faultOf_failed {found : ContainerError} (h : faultOf error = .failed found) :
    error = found := by
  cases error <;> first | exact Fault.failed.inj h | cases h

theorem faultOf_cycle (h : faultOf error = .cycle) :
    ∃ types, error = .circularDependencyGraphDetected types := by
  cases error <;> simp_all [faultOf]

/-- Every cached object was made by the Pod it is cached for, and every
construction passed what the parameters are resolved to. -/
structure Genuine (registry : Registry) (state : ContextState) : Prop where
  named : ∀ pod ∈ registry.pods, ∀ object, state.cached pod = some object → object.pod = pod.name
  arguments : ∀ construction ∈ state.completed, ∃ pod ∈ registry.pods,
    pod.name = construction.pod ∧
      selections construction.arguments = registry.argumentsOf pod.dependencies

/-- The caches of the context hold what the search has done. -/
structure Mirrors (context : Context) (state : ContextState) (search : Search String) : Prop where
  holds : ∀ pod ∈ context.registry.pods,
    search.holds context.problem pod.name = (state.cached pod).isSome
  built : search.built = state.completed.map (·.pod)
  genuine : Genuine context.registry state

section Problem

variable {context : Context} {pod : Pod}

theorem plan_eq (hpod : pod ∈ context.registry.pods) :
    context.problem.plan pod.name = context.planOf pod := by
  simp [Context.problem, Registry.lookup_self hpod]

theorem memo_eq (hpod : pod ∈ context.registry.pods) :
    context.problem.memo pod.name = decide (pod.scope ≠ .prototype) := by
  simp [Context.problem, Registry.lookup_self hpod]

theorem typeOf_eq (hpod : pod ∈ context.registry.pods) :
    context.registry.typeOf pod.name = some pod.type_ := by
  simp [Registry.typeOf, Registry.lookup_self hpod]

/-- The types on the hierarchy are those of the Pods on the stack. -/
def OnStack (registry : Registry) (hierarchy : List PyType) (stack : List String) : Prop :=
  stack.map registry.typeOf = (hierarchy.map some).reverse

section

variable {hierarchy : List PyType} {stack : List String}
  (hstack : OnStack context.registry hierarchy stack) (hpod : pod ∈ context.registry.pods)
include hstack hpod

theorem OnStack.push : OnStack context.registry (hierarchy ++ [pod.type_]) (pod.name :: stack) := by
  unfold OnStack at hstack ⊢
  rw [map_cons, typeOf_eq hpod, hstack]
  simp

theorem OnStack.clash : context.problem.clash pod.name stack = decide (pod.type_ ∈ hierarchy) := by
  unfold OnStack at hstack
  simp only [Context.problem, typeOf_eq hpod, hstack]
  simp

end

theorem faultOf_resolution {error : ContainerError} (h : error.isResolution = true) :
    faultOf error = .failed error := by
  cases error <;> first | rfl | cases h

end Problem

section Simulation

variable {context : Context}

/-- The relation on errors along the walk. -/
def Reports (error : ContainerError) (fault : Fault ContainerError) : Prop := faultOf error = fault

/-- The construction of each Pod runs beside the visit of its name. -/
def Constructs (context : Context) (construct : List PyType → Pod → ContextM Instance)
    (search : List String → String → SearchM String ContainerError Unit) : Prop :=
  ∀ hierarchy stack pod, pod ∈ context.registry.pods → OnStack context.registry hierarchy stack →
    Simulates (Mirrors context) (fun object _ => object.pod = pod.name) Reports
      (construct hierarchy pod) (search stack pod.name)

variable {construct : List PyType → Pod → ContextM Instance}
  {search : List String → String → SearchM String ContainerError Unit}
  {hierarchy : List PyType} {stack : List String}

theorem constructEach_simulates (hconstruct : Constructs context construct search)
    (hstack : OnStack context.registry hierarchy stack) (pods : List Pod)
    (hpods : pods ⊆ context.registry.pods) :
    Simulates (Mirrors context) (fun objects _ => objects.map (·.pod) = pods.map (·.name)) Reports
      (constructEach construct hierarchy pods)
      (follow search stack ((pods.map (·.name)).map fun name => .visit name false)) := by
  induction pods with
  | nil => exact .pure rfl
  | cons pod _ ih =>
    obtain ⟨hpod, hrest⟩ := cons_subset.mp hpods
    refine .bind (hconstruct hierarchy stack pod hpod hstack) fun object _ hobj => ?_
    exact .returns (ih hrest) fun others _ hothers => by simp [hobj, hothers]

theorem collected_selection {kind : DependencyCollectionKind} {pods : List Pod}
    {objects : List Instance} (hobjs : objects.map (·.pod) = pods.map (·.name)) :
    (collected kind pods objects).selection = .collection kind (pods.map (·.name)) := by
  cases kind with
  | list | tuple => simp [collected, Injected.selection, hobjs]
  | dict =>
    have hlen : objects.length = pods.length := by simpa using congrArg length hobjs
    have hents : ((pods.map (·.name)).zip objects).map (·.2.pod) = objects.map (·.pod) := by
      rw [← Function.comp_def (fun object : Instance => object.pod) Prod.snd, ← map_map,
        map_snd_zip (by simp [hlen])]
    simp [collected, Injected.selection, hents, hobjs]

/-- What resolving a parameter does beside following its selection. -/
theorem resolveDependency_simulates (hconstruct : Constructs context construct search)
    (hstack : OnStack context.registry hierarchy stack) (dependency : DependencyInfo) :
    match context.registry.select dependency with
    | .error error =>
      Simulates (Mirrors context) (fun _ _ => False) Reports
        (resolveDependency construct context.registry dependency hierarchy)
        (raise (.failed error) : SearchM String ContainerError Unit)
    | .ok selection =>
      Simulates (Mirrors context) (fun injected _ => injected.selection = selection) Reports
        (resolveDependency construct context.registry dependency hierarchy)
        (follow search stack (selection.pods.map fun name => .visit name false)) := by
  unfold Registry.select resolveDependency
  cases hkind : dependency.collectionKind with
  | none =>
    have hresolved := Registry.resolve_resolved context.registry dependency.type_
      (some dependency.name) dependency.qualifiers true
    cases hfound : context.registry.resolve dependency.type_ (some dependency.name)
        dependency.qualifiers true with
    | error =>
      rw [hfound] at hresolved
      unfold getInternal
      rw [hfound]
      exact .raise (faultOf_resolution hresolved)
    | ok found =>
      cases found with
      | none =>
        unfold getInternal
        rw [hfound]
        exact .pure rfl
      | some pod =>
        rw [hfound] at hresolved
        simp only [getInternal_some hfound, bind_then, pure_then, Selection.pods,
          map_singleton, follow_singleton]
        refine .returns (hconstruct hierarchy stack pod hresolved hstack) ?_
        exact fun object _ hobj => congrArg Selection.single hobj
  | some =>
    unfold resolveCollectionDependency
    cases hfound : context.registry.resolveCollectionCandidates dependency.type_
        dependency.qualifiers with
    | nil => exact .pure rfl
    | cons pod rest =>
      refine .returns (constructEach_simulates hconstruct hstack (pod :: rest) ?_) ?_
      · intro candidate hmem
        exact Registry.mem_resolveCollectionCandidates (hfound ▸ hmem)
      · exact fun objects _ hobjs => collected_selection hobjs

theorem selection_absent {injected : Injected} : injected.selection = .absent ↔
    injected = .absent := by
  cases injected <;> simp [Injected.selection]

theorem finalDependencies_cons {registry : Registry} {pod : Pod} {dependency : DependencyInfo}
    {rest : List DependencyInfo} {injected : Injected} {selection : Selection}
    {others : List (DependencyInfo × Injected)} (hsel : registry.select dependency = .ok selection)
    (hinj : injected.selection = selection)
    (hpres : ¬ (selection = .absent ∧ dependency.hasDefault = false ∧
      dependency.isOptional = false))
    (hothers : ∃ arguments, pod.finalDependencies others = .ok arguments ∧
      selections arguments = registry.argumentsOf rest) :
    ∃ arguments, pod.finalDependencies ((dependency, injected) :: others) = .ok arguments ∧
      selections arguments = registry.argumentsOf (dependency :: rest) := by
  obtain ⟨arguments, hfinal, hargs⟩ := hothers
  have habs : injected = .absent ↔ selection = .absent := by
    rw [← selection_absent, hinj]
  unfold Pod.finalDependencies Registry.argumentsOf
  rw [filterMap_cons, Registry.argumentOf, hsel]
  simp only [habs]
  by_cases hdef : selection = .absent ∧ dependency.hasDefault = true
  · simp only [if_pos hdef]
    exact ⟨arguments, hfinal, hargs⟩
  · have hgiven : ¬ (selection = .absent ∧ dependency.isOptional = false) := by
      rintro ⟨hmiss, hoptional⟩
      cases hhas : dependency.hasDefault with
      | true => exact hdef ⟨hmiss, hhas⟩
      | false => exact hpres ⟨hmiss, hhas, hoptional⟩
    simp only [if_neg hdef, if_neg hgiven, hfinal]
    refine ⟨_, rfl, ?_⟩
    simp only [selections, map_cons, hinj]
    exact congrArg _ hargs

section

variable (hconstruct : Constructs context construct search)
include hconstruct

/-- Resolving the parameters of a Pod gives the arguments of its call. -/
theorem resolveDependencies_simulates (hstack : OnStack context.registry hierarchy stack)
    (pod : Pod) (dependencies : List DependencyInfo) :
    Simulates (Mirrors context)
      (fun resolved _ => ∃ arguments, pod.finalDependencies resolved = .ok arguments ∧
        selections arguments = context.registry.argumentsOf dependencies) Reports
      (resolveDependencies construct context.registry pod hierarchy dependencies)
      (follow search stack (dependencies.flatMap (dependencyItems context.registry pod))) := by
  induction dependencies with
  | nil => exact .pure ⟨[], rfl, rfl⟩
  | cons dependency _ ih =>
    have hone := resolveDependency_simulates hconstruct hstack dependency
    rw [flatMap_cons, follow_append]
    unfold resolveDependencies dependencyItems
    cases hsel : context.registry.select dependency with
    | error =>
      rw [hsel] at hone
      exact .bind hone fun _ _ hnever => hnever.elim
    | ok =>
      rw [hsel] at hone
      simp only
      split
      · rename_i hmiss
        obtain ⟨rfl, hdef, hoptional⟩ := hmiss
        change Simulates _ _ _ _ (follow search stack [] >>= fun _ => raise _)
        refine .bind hone fun injected _ hinj => ?_
        rw [if_pos ⟨selection_absent.mp hinj, hdef, hoptional⟩]
        exact .raise rfl
      · rename_i hpres
        refine .bind hone fun injected _ hinj => ?_
        rw [if_neg (by rw [← selection_absent, hinj]; exact hpres)]
        refine .returns ih fun others _ hothers => ?_
        exact finalDependencies_cons hsel hinj hpres hothers

/-- Fetching Pods by their own types and names starts fresh searches. -/
theorem find_simulates
    (selector : Pod → Bool) (pods : List Pod) (hpods : pods ⊆ context.registry.pods) :
    Simulates (Mirrors context) (fun _ _ => True) Reports
      (find construct context.registry selector pods)
      (follow search stack (freshItems (pods.filter selector))) := by
  induction pods with
  | nil => exact .pure trivial
  | cons pod _ ih =>
    obtain ⟨hpod, hrest⟩ := cons_subset.mp hpods
    unfold find
    cases hselected : selector pod with
    | false =>
      rw [filter_cons_of_neg (by simp [hselected])]
      exact ih hrest
    | true =>
      rw [filter_cons_of_pos hselected]
      simp only [if_true, getInternal_some (Registry.resolve_self hpod), bind_then, pure_then]
      refine .bind (hconstruct [] [] pod hpod rfl) fun object _ _ => ?_
      exact .returns (ih hrest) fun _ _ _ => trivial

theorem postProcess_simulates (processor : PostProcessor) (pod : Pod) (object : Instance) :
    Simulates (Mirrors context) (fun processed _ => processed.pod = object.pod) Reports
      (processor.postProcess construct context.registry pod object)
      (follow search stack (processorItems context.registry pod processor)) := by
  cases processor with
  | applicationContextAware | service => exact .pure rfl
  | aspect =>
    refine .returns (find_simulates hconstruct _ _ (Subset.refl _)) ?_
    intro matchedAspects _ _
    cases matchedAspects.any Option.isSome <;> rfl

theorem postProcessPod_simulates (pod : Pod) (processors : List PostProcessor) (object : Instance) :
    Simulates (Mirrors context) (fun processed _ => processed.pod = object.pod) Reports
      (postProcessPod construct context.registry pod object processors)
      (follow search stack (processors.flatMap (processorItems context.registry pod))) := by
  induction processors generalizing object with
  | nil => exact .pure rfl
  | cons processor _ ih =>
    rw [flatMap_cons, follow_append]
    refine .bind (postProcess_simulates hconstruct processor pod object) ?_
    intro processed _ hprocd
    rw [← hprocd]
    exact ih processed

end

theorem call_run (pod : Pod) (state : ContextState) :
    pod.call state = (.ok { serial := state.nextSerial, pod := pod.name },
      { state with nextSerial := state.nextSerial + 1 }) := rfl

variable {state : ContextState}

theorem Mirrors.call {t : Search String} (hmirrors : Mirrors context state t) (serial : Nat) :
    Mirrors context { state with nextSerial := serial } t :=
  ⟨hmirrors.holds, hmirrors.built, hmirrors.genuine.named, hmirrors.genuine.arguments⟩

section Store

variable {state : ContextState} {pod : Pod} {object : Instance}

theorem cached_store_self :
    (state.store pod object).cached pod = if pod.scope = .prototype then none else some object := by
  unfold ContextState.store ContextState.cached
  cases pod.scope <;> simp

theorem cached_store_other {other : Pod} (hname : other.name ≠ pod.name) :
    (state.store pod object).cached other = state.cached other := by
  have hkey : (other.name == pod.name) = false := beq_eq_false_iff_ne.mpr hname
  unfold ContextState.store ContextState.cached
  cases pod.scope <;> cases other.scope <;> simp [lookup_cons, hkey]

theorem completed_store : (state.store pod object).completed = state.completed := by
  unfold ContextState.store
  cases pod.scope <;> rfl

end Store

theorem Mirrors.finish {t : Search String} {pod : Pod} (hmirrors : Mirrors context state t)
    (hpod : pod ∈ context.registry.pods) {arguments : List (String × Injected)} {object : Instance}
    (hobj : object.pod = pod.name)
    (hargs : selections arguments = context.registry.argumentsOf pod.dependencies) :
    Mirrors context ((state.record pod arguments).store pod object)
      (t.complete context.problem pod.name) := by
  have hcases : ∀ other ∈ context.registry.pods, other = pod ∨ other.name ≠ pod.name := by
    intro other hother
    by_cases hname : other.name = pod.name
    · exact .inl (Registry.eq_of_name hother hpod hname)
    · exact .inr hname
  refine ⟨fun other hother => ?_, ?_, fun other hother made hmade => ?_, ?_⟩
  · rcases hcases other hother with rfl | hname
    · rw [holds_complete_self, memo_eq hpod, cached_store_self]
      cases other.scope <;> rfl
    · rw [holds_complete_other _ _ _ hname, cached_store_other hname]
      exact hmirrors.holds other hother
  · rw [completed_store]
    simp [ContextState.record, Search.complete, hmirrors.built]
  · rcases hcases other hother with rfl | hname
    · rw [cached_store_self] at hmade
      split at hmade
      · cases hmade
      · cases hmade
        exact hobj
    · rw [cached_store_other hname] at hmade
      exact hmirrors.genuine.named other hother made hmade
  · rw [completed_store]
    refine forall_mem_append.mpr ⟨hmirrors.genuine.arguments, forall_mem_singleton.mpr ?_⟩
    exact ⟨pod, hpod, rfl, hargs⟩

/-- Constructing one Pod, given what the constructions below it do. -/
theorem instantiatePod_simulates (hconstruct : Constructs context construct search)
    (hstack : OnStack context.registry hierarchy stack) {pod : Pod}
    (hpod : pod ∈ context.registry.pods) (hfree : pod.type_ ∉ hierarchy) :
    Simulates (Mirrors context) (fun object _ => object.pod = pod.name) Reports
      (do
        let object ← instantiatePod construct context hierarchy pod
        modify fun state => state.store pod object
        pure object)
      (do
        follow search (pod.name :: stack) (context.problem.plan pod.name)
        finish context.problem pod.name) := by
  unfold instantiatePod
  rw [if_neg hfree, plan_eq hpod, Context.planOf, follow_append]
  simp only [bind_then]
  refine .bind (resolveDependencies_simulates hconstruct (hstack.push hpod) pod
    pod.dependencies) fun resolved _ hresolved => ?_
  obtain ⟨_, hfinal, hargs⟩ := hresolved
  rw [hfinal, ofExcept_ok_then]
  refine .left (W := fun object => object.pod = pod.name)
    (fun s t hrel => ⟨_, _, call_run pod s, rfl, hrel.call _⟩) fun object hobj => ?_
  refine .bind (postProcessPod_simulates hconstruct pod context.postProcessors object) ?_
  intro processed _ hprocd s t hrel
  exact ⟨hprocd.trans hobj, hrel.finish hpod (hprocd.trans hobj) hargs⟩

/-- The construction of a Pod runs beside the search from its name. -/
theorem getPodInstance_simulates (context : Context) (fuel : Nat) :
    Constructs context (getPodInstance context fuel) (visit context.problem fuel) := by
  induction fuel with
  | zero => exact fun _ _ _ _ _ => .raise rfl
  | succ _ ih =>
    intro hierarchy stack pod hpod hstack s t hrel
    have hcached := hrel.holds pod hpod
    cases hlook : s.cached pod with
    | some object =>
      rw [hlook] at hcached
      rw [visit_held _ _ _ _ _ hcached]
      simp only [getPodInstance, reads_bind_run, hlook, pure_run]
      exact ⟨hrel.genuine.named pod hpod object hlook, hrel⟩
    | none =>
      rw [hlook] at hcached
      have hentered : Mirrors context s (t.enter pod.name stack) :=
        ⟨hrel.holds, hrel.built, hrel.genuine⟩
      simp only [getPodInstance, reads_bind_run, hlook]
      have hclash := hstack.clash hpod
      by_cases hmem : pod.type_ ∈ hierarchy
      · rw [visit_clash _ _ _ _ _ hcached (by rw [hclash, decide_eq_true hmem])]
        unfold instantiatePod
        rw [if_pos hmem]
        exact ⟨rfl, hentered⟩
      · rw [visit_plan _ _ _ _ _ hcached (by rw [hclash, decide_eq_false hmem])]
        exact instantiatePod_simulates ih hstack hpod hmem s (t.enter pod.name stack) hentered

end Simulation

end Spakky.Container
