import Spakky.DepthFirst.Buildable
import Spakky.DepthFirst.Divergence
import Spakky.Container.Plans

/-!
Construction with aspects. A new object is handed to the aspect
post-processor before it is cached, and that post-processor fetches the
matching aspects through `find`, with an empty hierarchy. The cycle test does
not see across such a fetch, so an aspect that has to be fetched for its own
construction is constructed over and over.
-/

namespace Spakky.Container

open Effect Exec DepthFirst

section Termination

variable {context : Context} {state : ContextState} {pod : Pod}

theorem outOfFuel_iff (hreach : Reachable context state) (hpod : pod ∈ context.registry.pods)
    (fuel : Nat) :
    (getPodInstance context fuel [] pod state).1 = .error .outOfFuel ↔
      (visit context.problem fuel [] pod.name (mirror context state)).1 = .error .outOfFuel := by
  have hsimulates := getPodInstance_simulates context fuel [] [] pod hpod rfl
  have hsame : ∀ error fault, Reports error fault → (error = .outOfFuel ↔ fault = .outOfFuel) := by
    rintro error fault rfl
    exact faultOf_outOfFuel.symm
  simpa using hsimulates.error_iff (mirror_mirrors hreach.genuine) hsame

variable (context state pod) in
/-- Constructing the Pod comes to an end, with an object or with an error. -/
def ConstructionTerminates : Prop :=
  ∃ fuel, (getPodInstance context fuel [] pod state).1 ≠ .error .outOfFuel

variable (context state pod) in
/-- On the way some Pod is requested, or fetched for its advice, and fetched
for its advice again before its own construction is finished. -/
def RefetchesAspect : Prop := Reenters context.problem ⟨pod.name, [], mirror context state⟩

theorem terminates_iff_walk (hreach : Reachable context state)
    (hpod : pod ∈ context.registry.pods) :
    ConstructionTerminates context state pod ↔
      ∃ fuel, (visit context.problem fuel [] pod.name (mirror context state)).1 ≠
        .error .outOfFuel := by
  unfold ConstructionTerminates
  simp only [ne_eq, outOfFuel_iff hreach hpod]

/-- Construction in a started context terminates exactly when no Pod is
fetched again for the advice its own construction waits for. -/
theorem construction_terminates_iff {registry : Registry}
    (hreachable : Reachable registry.context state) (hpod : pod ∈ registry.pods) :
    ConstructionTerminates registry.context state pod ↔
      ¬ RefetchesAspect registry.context state pod := by
  rw [terminates_iff_walk hreachable hpod]
  exact terminates_iff (problem_confined registry.context) (mem_names hpod) _

end Termination

/-- An aspect whose pointcut matches every method, its own included. -/
def tracingAspect : Pod where
  id := 1
  name := "tracing_aspect"
  type_ := ⟨1, "TracingAspect"⟩
  baseTypes := [⟨1, "TracingAspect"⟩]
  aspect := some fun _ => true
  dependencies := []
  parameters_nodup := List.nodup_nil

def selfAdvisedRegistry : Registry := .ofPods [tracingAspect]

theorem tracingAspect_mem : tracingAspect ∈ selfAdvisedRegistry.pods := by
  have hpods : selfAdvisedRegistry.pods = [tracingAspect] := rfl
  exact List.mem_singleton.mpr rfl

theorem tracingAspect_calls (s : Search String)
    (hopen : Frame.IsOpen selfAdvisedRegistry.context.problem ⟨tracingAspect.name, [], s⟩) :
    Calls selfAdvisedRegistry.context.problem ⟨tracingAspect.name, [], s⟩
      ⟨tracingAspect.name, [], s.enter tracingAspect.name []⟩ :=
  @Calls.intro _ _ _ _ tracingAspect.name tracingAspect.name [] s _ [] [] true 0 hopen rfl rfl
    hopen.1 rfl

/-- The aspect fetches itself, and is never constructed. -/
theorem self_advised_never_terminates :
    Reachable selfAdvisedRegistry.context {} ∧ tracingAspect ∈ selfAdvisedRegistry.pods ∧
      ∀ fuel, (getPodInstance selfAdvisedRegistry.context fuel [] tracingAspect {}).1 =
        .error .outOfFuel := by
  refine ⟨.initial, tracingAspect_mem, fun fuel => ?_⟩
  by_contra hends
  have hwalk := (terminates_iff_walk .initial tracingAspect_mem).mp ⟨fuel, hends⟩
  rw [terminates_iff (problem_confined _) (mem_names tracingAspect_mem)] at hwalk
  exact hwalk ⟨_, _, _, .refl, .single (tracingAspect_calls _ ⟨rfl, rfl⟩)⟩

theorem construction_terminates_iff_self_advised :
    Reachable selfAdvisedRegistry.context {} ∧ tracingAspect ∈ selfAdvisedRegistry.pods ∧
      (ConstructionTerminates selfAdvisedRegistry.context {} tracingAspect ↔
        ¬ RefetchesAspect selfAdvisedRegistry.context {} tracingAspect) :=
  ⟨.initial, tracingAspect_mem, construction_terminates_iff .initial tracingAspect_mem⟩

end Spakky.Container
