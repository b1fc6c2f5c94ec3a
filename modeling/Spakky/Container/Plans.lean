import Spakky.DepthFirst.Reentry
import Spakky.Container.Walk

/-!
The states a context can be in between two gets, as states of the walk, and
what the plans of the walk consist of.
-/

namespace Spakky.Container

open Effect Exec DepthFirst List

section States

/-- The search state that holds what a context has cached. -/
def mirror (context : Context) (state : ContextState) : Search String where
  done := (context.registry.pods.filter fun pod => (state.cached pod).isSome).map (·.name)
  built := state.completed.map (·.pod)

variable {state : ContextState}

theorem cached_prototype {pod : Pod} (hscope : pod.scope = .prototype) :
    state.cached pod = none := by
  simp [ContextState.cached, hscope]

variable {context : Context}

theorem mirror_mirrors (hgenuine : Genuine context.registry state) :
    Mirrors context state (mirror context state) := by
  refine ⟨fun pod hpod => ?_, rfl, hgenuine⟩
  have hdone : pod.name ∈ (mirror context state).done ↔ (state.cached pod).isSome = true := by
    simp only [mirror, mem_map, mem_filter]
    constructor
    · rintro ⟨_, ⟨hother, _⟩, hname⟩
      rwa [← Registry.eq_of_name hother hpod hname]
    · exact fun hcached => ⟨pod, ⟨hpod, hcached⟩, rfl⟩
  rw [Search.holds, memo_eq hpod, Bool.eq_iff_iff]
  simp only [Bool.and_eq_true, decide_eq_true_eq, hdone]
  constructor
  · exact And.right
  · refine fun hcached => ⟨fun hscope => ?_, hcached⟩
    rw [cached_prototype hscope] at hcached
    cases hcached

/-- The states of a context after any number of gets, failed ones included. -/
inductive Reachable (context : Context) : ContextState → Prop
  | initial : Reachable context {}
  | got {state : ContextState} (fuel : Nat) (type_ : TypeRef) (name : Option String)
      (hstate : Reachable context state) :
      Reachable context (getInternal (getPodInstance context fuel) context.registry type_ name
        [] [] false state).2
  | cleared {state : ContextState} (hstate : Reachable context state) :
      Reachable context state.clearContext

theorem Genuine.clearContext {registry : Registry} (hgenuine : Genuine registry state) :
    Genuine registry state.clearContext := by
  refine ⟨fun pod hpod object hcached => ?_, hgenuine.arguments⟩
  apply hgenuine.named pod hpod object
  unfold ContextState.cached ContextState.clearContext at *
  cases hscope : pod.scope <;> simp_all

theorem Genuine.got (hgenuine : Genuine context.registry state) (fuel : Nat) (type_ : TypeRef)
    (name : Option String) :
    Genuine context.registry (getInternal (getPodInstance context fuel) context.registry type_ name
      [] [] false state).2 := by
  have hresolved := Registry.resolve_resolved context.registry type_ name [] false
  cases hfound : context.registry.resolve type_ name [] false with
  | error =>
    unfold getInternal
    rw [hfound]
    exact hgenuine
  | ok found =>
    cases found with
    | none =>
      unfold getInternal
      rw [hfound]
      exact hgenuine
    | some pod =>
      rw [hfound] at hresolved
      rw [getInternal_some hfound]
      have hconstruct := getPodInstance_simulates context fuel [] [] pod hresolved rfl
      exact ((Simulates.returns hconstruct fun _ _ _ => trivial).related (V := fun _ _ => True)
        (mirror_mirrors hgenuine)).genuine

theorem Reachable.genuine (hreach : Reachable context state) : Genuine context.registry state := by
  induction hreach with
  | initial =>
    refine ⟨fun pod _ object hcached => ?_, by simp⟩
    unfold ContextState.cached at hcached
    cases hscope : pod.scope <;> simp [hscope] at hcached
  | got fuel type_ name _ ih => exact ih.got fuel type_ name
  | cleared _ ih => exact ih.clearContext

end States

section Plans

variable {context : Context}

theorem mem_names {pod : Pod} (hpod : pod ∈ context.registry.pods) :
    pod.name ∈ context.registry.pods.map (·.name) :=
  mem_map_of_mem hpod

variable {dependency : DependencyInfo}

theorem select_names {registry : Registry} {selection : Selection}
    (hsel : registry.select dependency = .ok selection) :
    ∀ name ∈ selection.pods, name ∈ registry.pods.map (·.name) := by
  unfold Registry.select at hsel
  split at hsel
  · have hresolved := Registry.resolve_resolved registry dependency.type_ (some dependency.name)
      dependency.qualifiers true
    split at hsel
    · cases hsel
    · cases hsel
      simp [Selection.pods]
    · rename_i pod hfound
      cases hsel
      rw [hfound] at hresolved
      simpa [Selection.pods] using ⟨pod, hresolved, rfl⟩
  · split at hsel
    · cases hsel
      simp [Selection.pods]
    · cases hsel
      intro name hname
      obtain ⟨_, hpod, rfl⟩ := mem_map.mp hname
      exact mem_map_of_mem (Registry.mem_resolveCollectionCandidates hpod)

theorem select_error {registry : Registry} {error : ContainerError}
    (hsel : registry.select dependency = .error error) : error.isResolution = true := by
  unfold Registry.select at hsel
  split at hsel
  · have hresolved := Registry.resolve_resolved registry dependency.type_ (some dependency.name)
      dependency.qualifiers true
    split at hsel
    · rename_i found hfound
      cases hsel
      rwa [hfound] at hresolved
    · cases hsel
    · cases hsel
  · split at hsel <;> cases hsel

/-- What one step of the plan of a Pod can be. -/
inductive PlanItem (context : Context) : Item String ContainerError → Prop
  | failed {error : ContainerError} (herror : error.isMissingOrAmbiguous = true) :
      PlanItem context (.fail error)
  | needed {pod : Pod} (hpod : pod ∈ context.registry.pods) :
      PlanItem context (.visit pod.name false)
  | advised {aspect pod : Pod} (hasp : aspect ∈ context.registry.pods)
      (hadvises : aspect.advises pod = true) : PlanItem context (.visit aspect.name true)

variable (context : Context)

theorem dependencyItems_planItem (pod : Pod) (dependency : DependencyInfo) :
    ∀ item ∈ dependencyItems context.registry pod dependency, PlanItem context item := by
  intro item hitem
  unfold dependencyItems at hitem
  split at hitem
  · rename_i error hsel
    rw [mem_singleton] at hitem
    subst hitem
    exact .failed (isMissingOrAmbiguous_of_isResolution (select_error hsel))
  · rename_i selection hsel
    split at hitem
    · rw [mem_singleton] at hitem
      subst hitem
      exact .failed rfl
    · obtain ⟨name, hname, rfl⟩ := mem_map.mp hitem
      obtain ⟨needed, hneeded, rfl⟩ := mem_map.mp (select_names hsel name hname)
      exact .needed hneeded

theorem processorItems_planItem (pod : Pod) (processor : PostProcessor) :
    ∀ item ∈ processorItems context.registry pod processor, PlanItem context item := by
  intro item hitem
  cases processor with
  | applicationContextAware | service => cases hitem
  | aspect =>
    obtain ⟨_, hasp, rfl⟩ := mem_map.mp hitem
    rw [mem_filter] at hasp
    exact .advised hasp.1 hasp.2

theorem plan_planItem (name : String) :
    ∀ item ∈ context.problem.plan name, PlanItem context item := by
  intro item hitem
  unfold Context.problem Context.planOf at hitem
  dsimp only at hitem
  split at hitem
  · rename_i pod _
    rw [mem_append, mem_flatMap, mem_flatMap] at hitem
    rcases hitem with ⟨dependency, _, hitem⟩ | ⟨processor, _, hitem⟩
    · exact dependencyItems_planItem context pod dependency item hitem
    · exact processorItems_planItem context pod processor item hitem
  · cases hitem

/-- The walk stays among the registered Pods, and meeting a Pod that is under
construction always stops it. -/
theorem problem_confined :
    Confined context.problem (context.registry.pods.map (·.name)) where
  visits := by
    intro p _ q fresh hvisit
    generalize hitem : (.visit q fresh : Item String ContainerError) = item at hvisit
    cases plan_planItem context p item hvisit with
    | failed => cases hitem
    | needed hpod =>
      cases hitem
      exact mem_names hpod
    | advised hasp =>
      cases hitem
      exact mem_names hasp
  stops := by
    intro p stack hmem
    exact decide_eq_true (mem_map_of_mem hmem)

def Registry.NoAspects (registry : Registry) : Prop :=
  ∀ pod ∈ registry.pods, pod.aspect = none ∧ pod.asyncAspect = none

/-- Without aspects nothing starts a fresh walk. -/
theorem Registry.NoAspects.plan (hasps : context.registry.NoAspects) (p q : String) :
    .visit q true ∉ context.problem.plan p := by
  intro hvisit
  generalize hitem : (.visit q true : Item String ContainerError) = item at hvisit
  cases plan_planItem context p item hvisit with
  | failed | needed => cases hitem
  | @advised aspect pod hasp hadvises =>
    obtain ⟨hsync, hasync⟩ := hasps aspect hasp
    simp [Pod.advises, hsync, hasync] at hadvises

end Plans

end Spakky.Container
