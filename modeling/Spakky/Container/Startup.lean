import Spakky.DepthFirst.Buildable
import Spakky.Container.Detection

/-!
Starting a context without aspects. Start-up constructs the user-defined
post-processors and then every Pod that is not lazy, in registration order. It
succeeds exactly when each of these Pods can be built and, built in that
order, no Pod is entered underneath another Pod of the same type.
-/

namespace Spakky.Container

open Effect Exec DepthFirst

/-- The Pods that start-up asks for, in order. -/
def Registry.roots (registry : Registry) : List String :=
  (registry.pods.filter Pod.isPostProcessor).map (·.name) ++
    (registry.pods.filter fun pod => !pod.isLazy).map (·.name)

section Simulation

variable {context : Context} {construct : List PyType → Pod → ContextM Instance}
  {search : List String → String → SearchM String ContainerError Unit}

theorem initializePods_simulates (hconstruct : Constructs context construct search)
    (pods : List Pod) (hpods : pods ⊆ context.registry.pods) :
    Simulates (Mirrors context) (fun _ _ => True) Reports
      (initializePods construct context.registry pods) (follow search [] (freshItems pods)) := by
  induction pods with
  | nil => exact .pure trivial
  | cons pod _ ih =>
    obtain ⟨hpod, hrest⟩ := List.cons_subset.mp hpods
    unfold initializePods
    simp only [getInternal_some (Registry.resolve_self hpod), bind_then, pure_then]
    exact .bind (hconstruct [] [] pod hpod rfl) fun _ _ _ => ih hrest

variable (registry : Registry)

theorem freshItems_roots :
    (registry.roots.map fun root => .visit root true) =
      freshItems (registry.pods.filter Pod.isPostProcessor) ++
        freshItems (registry.pods.filter fun pod => !pod.isLazy) := by
  simp [Registry.roots, freshItems, Function.comp_def]

theorem startPods_simulates (fuel : Nat) :
    Simulates (Mirrors registry.context) (fun _ _ => True) Reports (startPods registry fuel)
      (constructAll registry.context.problem fuel registry.roots) := by
  have hconstruct := getPodInstance_simulates registry.context fuel
  unfold startPods constructAll
  rw [freshItems_roots, follow_append]
  refine .bind (find_simulates hconstruct _ _ (List.Subset.refl _)) fun _ _ _ => ?_
  exact initializePods_simulates hconstruct _ (List.filter_subset_self _)

end Simulation

section Outcome

variable (registry : Registry)

def started (fuel : Nat) : Except ContainerError Unit × ContextState := start registry fuel {}

def Starts : Prop := ∃ fuel, (started registry fuel).1 = .ok ()

def FailsToStart : Prop :=
  ∃ fuel error, (started registry fuel).1 = .error error ∧ error ≠ .outOfFuel

theorem mirrors_initial (isStarted : Bool) :
    Mirrors registry.context { isStarted := isStarted } {} := by
  have hcached : ∀ pod : Pod, ContextState.cached { isStarted := isStarted } pod = none := by
    intro pod
    unfold ContextState.cached
    cases pod.scope <;> rfl
  refine ⟨fun pod _ => ?_, rfl, fun pod _ object hsome => ?_, by simp⟩
  · simp [hcached, Search.holds]
  · rw [hcached] at hsome
    cases hsome

/-- The walk of start-up from an empty context. -/
def startWalk (fuel : Nat) : Except (Fault ContainerError) Unit × Search String :=
  constructAll registry.context.problem fuel registry.roots {}

variable (fuel : Nat)

/-- Start-up from an empty context keeps what was constructed unless it fails. -/
theorem started_run :
    started registry fuel =
      match startPods registry fuel { isStarted := true } with
      | (.ok _, state) => (.ok (), state)
      | (.error error, state) => (.error error, state.rollbackFailedStart) := by
  simp only [started, start, reads_bind_run, Bool.false_eq_true, if_false, modify_bind_run,
    attempt_bind_run]
  cases startPods registry fuel { isStarted := true } using exec_cases <;> rfl

theorem started_reports :
    match (startWalk registry fuel).1 with
    | .ok _ => (started registry fuel).1 = .ok () ∧
        Mirrors registry.context (started registry fuel).2 (startWalk registry fuel).2
    | .error fault => ∃ error, (started registry fuel).1 = .error error ∧
        faultOf error = fault := by
  have hrun := startPods_simulates registry fuel { isStarted := true } {}
    (mirrors_initial registry true)
  unfold startWalk
  rw [started_run]
  revert hrun
  generalize startPods registry fuel { isStarted := true } = result
  generalize constructAll registry.context.problem fuel registry.roots {} = walked
  obtain ⟨outcome, state⟩ := result
  obtain ⟨outcome', search⟩ := walked
  intro hrun
  cases outcome with
  | ok =>
    cases outcome' with
    | ok => exact ⟨rfl, hrun.2⟩
    | error => exact hrun.elim
  | error error =>
    cases outcome' with
    | ok => exact hrun.elim
    | error => exact ⟨error, rfl, hrun.1⟩

theorem started_ok_iff :
    (started registry fuel).1 = .ok () ↔ (startWalk registry fuel).1 = .ok () := by
  have hrep := started_reports registry fuel
  cases hwalk : (startWalk registry fuel).1 with
  | ok =>
    rw [hwalk] at hrep
    simp [hrep.1]
  | error =>
    rw [hwalk] at hrep
    obtain ⟨error, herror, _⟩ := hrep
    simp [herror]

theorem started_outOfFuel_iff :
    (started registry fuel).1 = .error .outOfFuel ↔
      (startWalk registry fuel).1 = .error .outOfFuel := by
  have hrep := started_reports registry fuel
  cases hwalk : (startWalk registry fuel).1 with
  | ok =>
    rw [hwalk] at hrep
    simp [hrep.1]
  | error =>
    rw [hwalk] at hrep
    obtain ⟨error, herror, rfl⟩ := hrep
    rw [herror]
    simp [faultOf_outOfFuel]

variable {registry} in
theorem FailsToStart.not_starts (hfails : FailsToStart registry) : ¬ Starts registry := by
  obtain ⟨fuel, error, herror, hfuel⟩ := hfails
  rintro ⟨fuel', hok⟩
  have hwalk := (started_ok_iff registry fuel').mp hok
  have hsame : startWalk registry fuel = startWalk registry fuel' := by
    refine constructAll_unique (fun hout => hfuel ?_) ?_
    · rw [(started_outOfFuel_iff registry fuel).mpr hout] at herror
      exact (Except.error.inj herror).symm
    · change (startWalk registry fuel').1 ≠ _
      rw [hwalk]
      simp
  rw [(started_ok_iff registry fuel).mpr (hsame ▸ hwalk)] at herror
  cases herror

theorem roots_mem {root : String} (hroot : root ∈ registry.roots) :
    ∃ pod ∈ registry.pods, pod.name = root := by
  simp only [Registry.roots, List.mem_append, List.mem_map, List.mem_filter] at hroot
  rcases hroot with ⟨pod, ⟨hpod, _⟩, hname⟩ | ⟨pod, ⟨hpod, _⟩, hname⟩
  · exact ⟨pod, hpod, hname⟩
  · exact ⟨pod, hpod, hname⟩

/-- Without aspects start-up ends, one way or the other. -/
theorem failsToStart_iff (hasps : registry.NoAspects) :
    FailsToStart registry ↔ ¬ Starts registry := by
  refine ⟨FailsToStart.not_starts, fun hnever => ?_⟩
  have hends : ∃ fuel, (startWalk registry fuel).1 ≠ .error .outOfFuel := by
    refine constructAll_terminates (fun root hroot s => ?_) {}
    obtain ⟨pod, hpod, rfl⟩ := roots_mem registry hroot
    obtain ⟨fuel, hfuel, _⟩ := walks_end registry.context hasps hpod s
    exact ⟨fuel, hfuel⟩
  obtain ⟨fuel, hfuel⟩ := hends
  cases hstart : (started registry fuel).1 with
  | ok => exact absurd ⟨fuel, hstart⟩ hnever
  | error error =>
    refine ⟨fuel, error, hstart, ?_⟩
    rintro rfl
    exact hfuel ((started_outOfFuel_iff registry fuel).mp hstart)

/-- The same walk, stopping only at Pods under construction. -/
def idealStartWalk (fuel : Nat) : Except (Fault ContainerError) Unit × Search String :=
  constructAll registry.context.idealProblem fuel registry.roots {}

/-- If this walk succeeds, it enters no Pod underneath another Pod of its
type. -/
def Quiet : Prop :=
  ∀ fuel, (idealStartWalk registry fuel).1 = .ok () →
    ¬ Alarm registry.context.problem underConstruction (idealStartWalk registry fuel).2

/-- Everything that start-up asks for can be built, and building it in the
order of registration enters no Pod underneath another Pod of its type. -/
structure Startable : Prop where
  buildable : ∀ root ∈ registry.roots, Buildable registry.context.idealProblem root
  quiet : Quiet registry

theorem startWalk_inStep :
    InStep registry.context.problem underConstruction (startWalk registry fuel)
      (idealStartWalk registry fuel) := by
  have hvisit := visit_inStep registry.context.problem underConstruction
    (underConstruction_clash registry.context) fuel
  refine follow_inStep _ _ hvisit [] _ {} ?_
  rintro ⟨frame, hmem, _⟩
  cases hmem

theorem idealStartWalk_ok_iff : (∃ fuel, (idealStartWalk registry fuel).1 = .ok ()) ↔
    ∀ root ∈ registry.roots, Buildable registry.context.idealProblem root :=
  constructAll_ok_iff (fun _ _ => rfl) registry.roots (by simp)

/-- Start-up succeeds exactly for the startable registries. -/
theorem starts_iff_startable : Starts registry ↔ Startable registry := by
  constructor
  · rintro ⟨fuel, hok⟩
    rw [started_ok_iff] at hok
    rcases startWalk_inStep registry fuel with ⟨hsame, hquiet⟩ | ⟨hcycle, _⟩
    · rw [hsame] at hok
      refine ⟨(idealStartWalk_ok_iff registry).mp ⟨fuel, hok⟩, fun fuel' hok' => ?_⟩
      have hunique : idealStartWalk registry fuel' = idealStartWalk registry fuel := by
        refine constructAll_unique ?_ ?_
        · change (idealStartWalk registry fuel').1 ≠ _
          simp [hok']
        · change (idealStartWalk registry fuel).1 ≠ _
          simp [hok]
      rwa [hunique]
    · rw [hok] at hcycle
      cases hcycle
  · rintro ⟨hroots, hquiet⟩
    obtain ⟨fuel, hok⟩ := (idealStartWalk_ok_iff registry).mpr hroots
    refine ⟨fuel, (started_ok_iff registry fuel).mpr ?_⟩
    rcases startWalk_inStep registry fuel with ⟨hsame, _⟩ | ⟨_, halarm⟩
    · rw [hsame]
      exact hok
    · exact absurd halarm (hquiet fuel hok)

/-- The Pods constructed by a successful start-up are the needed ones. -/
theorem completed_iff {fuel : Nat} (hok : (started registry fuel).1 = .ok ()) (name : String) :
    (∃ construction ∈ (started registry fuel).2.completed, construction.pod = name) ↔
      Needed registry.context.problem registry.roots name := by
  have hwalk := (started_ok_iff registry fuel).mp hok
  have hrep := started_reports registry fuel
  rw [hwalk] at hrep
  rw [← mem_built_iff hwalk name]
  change _ ↔ name ∈ (startWalk registry fuel).2.built
  rw [hrep.2.built]
  simp

/-- A successful start-up passed to each Pod what its parameters are resolved
to. -/
theorem completed_arguments {fuel : Nat} (hok : (started registry fuel).1 = .ok ()) :
    Genuine registry (started registry fuel).2 := by
  have hwalk := (started_ok_iff registry fuel).mp hok
  have hrep := started_reports registry fuel
  rw [hwalk] at hrep
  exact hrep.2.genuine

end Outcome

end Spakky.Container
