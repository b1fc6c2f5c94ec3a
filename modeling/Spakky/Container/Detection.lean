import Spakky.DepthFirst.Lockstep
import Spakky.Container.Plans

/-!
Cycle detection. `__instantiate_pod` compares the type of a Pod with the types
on the hierarchy, so that it stops at every Pod that is under construction,
but also at a Pod underneath another Pod of the same type.
-/

namespace Spakky.Container

open Effect Exec DepthFirst

/-- A Pod is itself on the stack. -/
def underConstruction (name : String) (stack : List String) : Bool := decide (name ∈ stack)

/-- The walk that stops only at Pods under construction. -/
def Context.idealProblem (context : Context) : Problem String ContainerError :=
  context.problem.withClash underConstruction

/-- The result of a request is a circularity error exactly when there is a
cycle, and otherwise an instance, `None`, or an error about a missing or
ambiguous dependency. -/
def Expected (cycle : Prop) : Except ContainerError (Option Instance) → Prop
  | .ok _ => ¬ cycle
  | .error (.circularDependencyGraphDetected _) => cycle
  | .error error => error.isMissingOrAmbiguous = true ∧ ¬ cycle

section Request

variable (context : Context) (state : ContextState) (type_ : TypeRef) (name : Option String)

/-- The depth-first construction of the requested Pod from what is cached. -/
def idealWalk (fuel : Nat) : Except (Fault ContainerError) Unit × Search String :=
  match context.registry.resolve type_ name [] false with
  | .ok (some pod) => visit context.idealProblem fuel [] pod.name (mirror context state)
  | _ => (.ok (), mirror context state)

def ReachesUnderConstruction : Prop :=
  ∃ fuel, (idealWalk context state type_ name fuel).1 = .error .cycle

/-- The walk enters a Pod underneath another Pod of the same type. -/
def MeetsSameType : Prop :=
  ∃ fuel, (idealWalk context state type_ name fuel).1 ≠ .error .outOfFuel ∧
    Alarm context.problem underConstruction (idealWalk context state type_ name fuel).2

def getResult (fuel : Nat) : Except ContainerError (Option Instance) :=
  (getInternal (getPodInstance context fuel) context.registry type_ name [] [] false state).1

/-- The request terminates, and its result is the right one. -/
def CycleDetectionExact : Prop :=
  ∃ fuel, Expected (ReachesUnderConstruction context state type_ name)
    (getResult context state type_ name fuel)

end Request

section Detection

variable {context : Context} {state : ContextState} {type_ : TypeRef} {name : Option String}

theorem idealProblem_confined (context : Context) :
    Confined context.idealProblem (context.registry.pods.map (·.name)) :=
  ⟨(problem_confined context).visits, fun _ _ hmem => decide_eq_true hmem⟩

theorem underConstruction_clash (context : Context) (p : String) (stack : List String)
    (hstop : underConstruction p stack = true) : context.problem.clash p stack = true :=
  (problem_confined context).stops p stack (of_decide_eq_true hstop)

variable (context) in
/-- Without aspects both walks from a Pod end. -/
theorem walks_end (hasps : context.registry.NoAspects) {pod : Pod}
    (hpod : pod ∈ context.registry.pods) (s : Search String) :
    ∃ fuel, (visit context.problem fuel [] pod.name s).1 ≠ .error .outOfFuel ∧
      (visit context.idealProblem fuel [] pod.name s).1 ≠ .error .outOfFuel := by
  obtain ⟨fuel, hfuel⟩ := terminates_of_not_reenters (problem_confined context) (mem_names hpod)
    (not_reenters hasps.plan ⟨pod.name, [], s⟩)
  have hideal : ∀ p q, .visit q true ∉ context.idealProblem.plan p := hasps.plan
  obtain ⟨fuel', hfuel'⟩ := terminates_of_not_reenters (idealProblem_confined context)
    (mem_names hpod) (not_reenters hideal ⟨pod.name, [], s⟩)
  refine ⟨max fuel fuel', ?_, ?_⟩
  · rwa [visit_mono _ (Nat.le_max_left fuel fuel') _ _ _ hfuel]
  · rwa [visit_mono _ (Nat.le_max_right fuel fuel') _ _ _ hfuel']

theorem quiet_mirror (context : Context) (state : ContextState) :
    ¬ Alarm context.problem underConstruction (mirror context state) := by
  rintro ⟨frame, hmem, _⟩
  cases hmem

theorem expected_error {cycle : Prop} {error : ContainerError}
    (herror : error.isMissingOrAmbiguous = true) : Expected cycle (.error error) ↔ ¬ cycle := by
  cases error <;> first | exact ⟨And.right, fun h => ⟨herror, h⟩⟩ | cases herror

/-- A request that finds no Pod constructs nothing. -/
theorem exact_of_not_found (state : ContextState)
    (hfound : ∀ pod, context.registry.resolve type_ name [] false ≠ .ok (some pod)) :
    CycleDetectionExact context state type_ name ∧ ¬ MeetsSameType context state type_ name := by
  have hwalk : ∀ fuel, idealWalk context state type_ name fuel =
      (.ok (), mirror context state) := by
    intro fuel
    unfold idealWalk
    split
    · rename_i pod hsome
      exact absurd hsome (hfound pod)
    · rfl
  have hquiet : ¬ ReachesUnderConstruction context state type_ name := by
    rintro ⟨fuel, hcycle⟩
    rw [hwalk] at hcycle
    cases hcycle
  constructor
  · have hresolved := Registry.resolve_resolved context.registry type_ name [] false
    refine ⟨0, ?_⟩
    unfold getResult getInternal
    cases hres : context.registry.resolve type_ name [] false with
    | error =>
      rw [hres] at hresolved
      exact (expected_error (isMissingOrAmbiguous_of_isResolution hresolved)).mpr hquiet
    | ok found =>
      cases found with
      | none => exact hquiet
      | some pod => exact absurd hres (hfound pod)
  · rintro ⟨fuel, _, halarm⟩
    rw [hwalk] at halarm
    exact quiet_mirror context state halarm

theorem plan_error {p : String} {error : ContainerError}
    (hfail : .fail error ∈ context.problem.plan p) : error.isMissingOrAmbiguous = true := by
  cases plan_planItem context p _ hfail with
  | failed herror => exact herror

theorem idealWalk_found {pod : Pod}
    (hfound : context.registry.resolve type_ name [] false = .ok (some pod)) (fuel : Nat) :
    idealWalk context state type_ name fuel =
      visit context.idealProblem fuel [] pod.name (mirror context state) := by
  unfold idealWalk
  rw [hfound]

section Found

variable (hreachable : Reachable context state) {pod : Pod}
  (hfound : context.registry.resolve type_ name [] false = .ok (some pod))
include hreachable hfound

/-- What a get returns or raises, read off the walk of the code. -/
theorem getResult_reports (fuel : Nat) :
    match (visit context.problem fuel [] pod.name (mirror context state)).1 with
    | .ok _ => ∃ object, getResult context state type_ name fuel = .ok object
    | .error fault => ∃ error, getResult context state type_ name fuel = .error error ∧
        faultOf error = fault := by
  have hpod := Registry.resolve_resolved context.registry type_ name [] false
  rw [hfound] at hpod
  have hconstruct := getPodInstance_simulates context fuel [] [] pod hpod rfl
  have hreturns : Simulates (Mirrors context) (fun _ _ => True) Reports
      (do
        let object ← getPodInstance context fuel [] pod
        pure (some object))
      (visit context.problem fuel [] pod.name) :=
    .returns hconstruct fun _ _ _ => trivial
  have hrun := hreturns state (mirror context state) (mirror_mirrors hreachable.genuine)
  unfold getResult
  rw [getInternal_some hfound]
  revert hrun
  generalize (do
    let object ← getPodInstance context fuel [] pod
    pure (some object) : ContextM (Option Instance)) state = result
  generalize visit context.problem fuel [] pod.name (mirror context state) = walked
  obtain ⟨outcome, state'⟩ := result
  obtain ⟨outcome', search'⟩ := walked
  intro hrun
  cases outcome with
  | ok object =>
    cases outcome' with
    | ok => exact ⟨object, rfl⟩
    | error => exact hrun.elim
  | error error =>
    cases outcome' with
    | ok => exact hrun.elim
    | error => exact ⟨error, rfl, hrun.1⟩

/-- The result of a get, given where the walk of the code ended. -/
theorem expected_iff {fuel : Nat}
    (hfuel : (visit context.problem fuel [] pod.name (mirror context state)).1 ≠
      .error .outOfFuel) (cycle : Prop) :
    Expected cycle (getResult context state type_ name fuel) ↔
      ((visit context.problem fuel [] pod.name (mirror context state)).1 = .error .cycle ↔
        cycle) := by
  have hrep := getResult_reports hreachable hfound fuel
  cases hwalk : visit context.problem fuel [] pod.name (mirror context state) with
  | mk outcome =>
    rw [hwalk] at hrep hfuel
    cases outcome with
    | ok =>
      obtain ⟨object, hres⟩ := hrep
      rw [hres]
      simp [Expected]
    | error fault =>
      obtain ⟨error, hres, hfault⟩ := hrep
      rw [hres]
      cases fault with
      | outOfFuel => exact absurd rfl hfuel
      | cycle =>
        obtain ⟨types, rfl⟩ := faultOf_cycle hfault
        simp [Expected]
      | failed =>
        obtain ⟨q, hfail⟩ := visit_failed hwalk
        rw [faultOf_failed hfault, expected_error (plan_error hfail)]
        simp

/-- A get whose walk runs out of fuel has no expected result. -/
theorem not_expected {fuel : Nat}
    (hfuel : (visit context.problem fuel [] pod.name (mirror context state)).1 =
      .error .outOfFuel) (cycle : Prop) :
    ¬ Expected cycle (getResult context state type_ name fuel) := by
  have hrep := getResult_reports hreachable hfound fuel
  rw [hfuel] at hrep
  obtain ⟨error, hres, hfault⟩ := hrep
  rw [hres, faultOf_outOfFuel.mp hfault]
  exact fun hexpected => by cases hexpected.1

/-- With enough fuel for both walks, the three notions can be read off them. -/
theorem found_iff {fuel : Nat}
    (hcode : (visit context.problem fuel [] pod.name (mirror context state)).1 ≠ .error .outOfFuel)
    (hideal : (visit context.idealProblem fuel [] pod.name (mirror context state)).1 ≠
      .error .outOfFuel) :
    (ReachesUnderConstruction context state type_ name ↔
      (visit context.idealProblem fuel [] pod.name (mirror context state)).1 = .error .cycle) ∧
    (MeetsSameType context state type_ name ↔ Alarm context.problem underConstruction
        (visit context.idealProblem fuel [] pod.name (mirror context state)).2) ∧
    (CycleDetectionExact context state type_ name ↔
      ((visit context.problem fuel [] pod.name (mirror context state)).1 = .error .cycle ↔
        ReachesUnderConstruction context state type_ name)) := by
  refine ⟨⟨?_, ?_⟩, ⟨?_, ?_⟩, ⟨?_, ?_⟩⟩
  · rintro ⟨fuel', hcycle⟩
    rw [idealWalk_found hfound] at hcycle
    rw [visit_unique hideal (by rw [hcycle]; simp), hcycle]
  · intro hcycle
    exact ⟨fuel, by rw [idealWalk_found hfound, hcycle]⟩
  · rintro ⟨fuel', hfuel', halarm⟩
    rw [idealWalk_found hfound] at hfuel' halarm
    rwa [visit_unique hideal hfuel']
  · intro halarm
    refine ⟨fuel, ?_, ?_⟩
    · rwa [idealWalk_found hfound]
    · rwa [idealWalk_found hfound]
  · rintro ⟨fuel', hexpected⟩
    have hfuel' : (visit context.problem fuel' [] pod.name (mirror context state)).1 ≠
        .error .outOfFuel := fun hout => not_expected hreachable hfound hout _ hexpected
    rw [visit_unique hcode hfuel']
    exact (expected_iff hreachable hfound hfuel' _).mp hexpected
  · intro hsame
    exact ⟨fuel, (expected_iff hreachable hfound hcode _).mpr hsame⟩

end Found

/-- Cycle detection is exact for a request unless the walk enters a Pod
underneath another Pod of its type and reaches no Pod under construction. -/
theorem cycle_detection_exact_iff (haspects : context.registry.NoAspects)
    (hreachable : Reachable context state) (type_ : TypeRef) (name : Option String) :
    CycleDetectionExact context state type_ name ↔
      (MeetsSameType context state type_ name →
        ReachesUnderConstruction context state type_ name) := by
  by_cases hfound : ∃ pod, context.registry.resolve type_ name [] false = .ok (some pod)
  · obtain ⟨pod, hfound⟩ := hfound
    have hpod := Registry.resolve_resolved context.registry type_ name [] false
    rw [hfound] at hpod
    obtain ⟨fuel, hcode, hideal⟩ := walks_end context haspects hpod (mirror context state)
    obtain ⟨hreaches, hmeets, hexact⟩ := found_iff hreachable hfound hcode hideal
    rw [hexact, hmeets, hreaches]
    have hstep := visit_inStep context.problem underConstruction (underConstruction_clash context)
      fuel [] pod.name (mirror context state) (quiet_mirror context state)
    rcases hstep with ⟨hsame, hquiet⟩ | ⟨hcycle, halarm⟩
    · change visit _ _ _ _ _ = visit context.idealProblem _ _ _ _ at hsame
      rw [hsame]
      exact ⟨fun _ halarm => absurd halarm hquiet, fun _ => .rfl⟩
    · rw [hcycle]
      exact ⟨fun hiff _ => hiff.mp rfl, fun hreach => ⟨fun _ => hreach halarm, fun _ => rfl⟩⟩
  · have hmissing := exact_of_not_found state fun pod hpod => hfound ⟨pod, hpod⟩
    exact ⟨fun _ hmeets => absurd hmeets hmissing.2, fun _ => hmissing.1⟩

end Detection

def portType : PyType := ⟨1, "Port"⟩

def serviceType : PyType := ⟨2, "Service"⟩

/-- A function Pod of a type, around a service. -/
def outerPod : Pod where
  id := 1
  name := "outer"
  type_ := portType
  baseTypes := [portType]
  dependencies := [{ name := "service", type_ := .type serviceType }]

/-- The service, which asks by a qualifier for another Pod of that type. -/
def servicePod : Pod where
  id := 2
  name := "service"
  type_ := serviceType
  baseTypes := [serviceType]
  dependencies := [{
    name := "port"
    type_ := .type portType
    qualifiers := [⟨fun info => info.name == "inner"⟩] }]

def innerPod : Pod where
  id := 3
  name := "inner"
  type_ := portType
  baseTypes := [portType]
  dependencies := []
  parameters_nodup := List.nodup_nil

def sameTypeRegistry : Registry := .ofPods [outerPod, servicePod, innerPod]

theorem sameTypeRegistry_noAspects : sameTypeRegistry.NoAspects := by
  change ∀ pod ∈ [outerPod, servicePod, innerPod], _
  simp [outerPod, servicePod, innerPod]

/-- Getting the outer Pod is reported as circular, though every Pod on the way
can be constructed. -/
theorem same_type_reported_circular :
    sameTypeRegistry.NoAspects ∧ Reachable sameTypeRegistry.context {} ∧
      getResult sameTypeRegistry.context {} (.type portType) (some "outer") 4 =
        .error (.circularDependencyGraphDetected [portType, serviceType, portType]) ∧
      ¬ CycleDetectionExact sameTypeRegistry.context {} (.type portType) (some "outer") := by
  refine ⟨sameTypeRegistry_noAspects, .initial, by decide +kernel, fun hexact => ?_⟩
  have hfound : sameTypeRegistry.context.registry.resolve (.type portType) (some "outer") []
      false = .ok (some outerPod) := rfl
  have hcode : (visit sameTypeRegistry.context.problem 4 [] outerPod.name
      (mirror sameTypeRegistry.context {})).1 = .error .cycle := by decide +kernel
  have hideal : (visit sameTypeRegistry.context.idealProblem 4 [] outerPod.name
      (mirror sameTypeRegistry.context {})).1 = .ok () := by decide +kernel
  obtain ⟨hreaches, _, hiff⟩ := found_iff .initial hfound (by rw [hcode]; simp)
    (by rw [hideal]; simp)
  have hcycle := hreaches.mp ((hiff.mp hexact).mp hcode)
  cases hcycle

theorem cycle_detection_exact_iff_same_type :
    sameTypeRegistry.NoAspects ∧ Reachable sameTypeRegistry.context {} ∧
      (CycleDetectionExact sameTypeRegistry.context {} (.type portType) (some "outer") ↔
        (MeetsSameType sameTypeRegistry.context {} (.type portType) (some "outer") →
          ReachesUnderConstruction sameTypeRegistry.context {} (.type portType)
            (some "outer"))) :=
  ⟨sameTypeRegistry_noAspects, .initial,
    cycle_detection_exact_iff sameTypeRegistry_noAspects .initial _ _⟩

end Spakky.Container
