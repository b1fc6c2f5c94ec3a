import Spakky.Container.Startup

/-!
Start-up and the order of registration. For Pods without aspects the order can
matter in two ways: a Pod constructed early is cached and is then not entered
underneath another Pod of its type, where the cycle test would stop it; and a
forward reference stands for the last registered type of its name.
-/

namespace Spakky.Container

open Effect Exec DepthFirst List

/-- A context with these Pods, registered in this order, and these bindings. -/
def assemble (pods : List Pod) (bindings : List PodBinding) : Except ContainerError Registry :=
  match Registry.empty.addAll pods with
  | .error error => .error error
  | .ok registry => registry.bindAll bindings

/-- The bindings in force: a later one of an interface replaces an earlier
one. -/
def inForce (earlier : PyType → Option PodBinding) (bindings : List PodBinding) :
    PyType → Option PodBinding :=
  bindings.foldl (fun map binding => Function.update map binding.interface (some binding)) earlier

section Assemble

variable {bindings : List PodBinding}

theorem bindAll_ok {registry bound : Registry} (h : registry.bindAll bindings = .ok bound) :
    bound.pods = registry.pods ∧ bound.bindings = inForce registry.bindings bindings := by
  induction bindings generalizing registry with
  | nil =>
    cases h
    exact ⟨rfl, rfl⟩
  | cons binding _ ih =>
    unfold Registry.bindAll Registry.bind at h
    by_cases hvalid : Registry.bindingTargetCount binding = 1
    · simp only [if_pos hvalid] at h
      exact ih h
    · simp only [if_neg hvalid] at h
      cases h

theorem assemble_ok {pods : List Pod} {registry : Registry} (hnodup : (pods.map (·.name)).Nodup)
    (h : assemble pods bindings = .ok registry) :
    registry.pods = pods ∧ registry.bindings = inForce Registry.empty.bindings bindings := by
  obtain ⟨_, hadd, hpods, hbindings⟩ := Registry.empty.addAll_ok pods (by
    simpa [Registry.empty] using hnodup)
  unfold assemble at h
  rw [hadd] at h
  obtain ⟨hsame, hfold⟩ := bindAll_ok h
  exact ⟨hsame.trans hpods, hbindings ▸ hfold⟩

end Assemble

section Arguments

variable {registry other : Registry}

theorem argumentsOf_cons (dependency : DependencyInfo) (rest : List DependencyInfo) :
    registry.argumentsOf (dependency :: rest) =
      (registry.argumentOf dependency).toList ++ registry.argumentsOf rest := by
  unfold Registry.argumentsOf
  rw [filterMap_cons]
  cases registry.argumentOf dependency <;> rfl

variable {dependency : DependencyInfo} {argument : String × Selection}

theorem argumentOf_name (h : registry.argumentOf dependency = some argument) :
    argument.1 = dependency.name := by
  unfold Registry.argumentOf at h
  split at h
  · cases h
  · split at h
    · cases h
    · cases h
      rfl

variable {dependencies : List DependencyInfo}

theorem argumentsOf_names (h : argument ∈ registry.argumentsOf dependencies) :
    argument.1 ∈ dependencies.map (·.name) := by
  obtain ⟨_, hmem, harg⟩ := mem_filterMap.mp h
  rw [argumentOf_name harg]
  exact mem_map_of_mem hmem

/-- A parameter that is resolved gets the same argument only from the same
selection. -/
theorem argumentOf_inj {selection selection' : Selection}
    (hsel : registry.select dependency = .ok selection)
    (hsel' : other.select dependency = .ok selection')
    (h : registry.argumentOf dependency = other.argumentOf dependency) :
    selection = selection' := by
  unfold Registry.argumentOf at h
  rw [hsel, hsel'] at h
  simp only at h
  split at h <;> split at h
  · rename_i habs habs'
    rw [habs.1, habs'.1]
  · cases h
  · cases h
  · simpa using h

/-- Among distinct parameters the name of one leads to its argument. -/
theorem argumentsOf_find (hnodup : (dependencies.map (·.name)).Nodup)
    (hmem : dependency ∈ dependencies) :
    (registry.argumentsOf dependencies).find? (·.1 = dependency.name) =
      registry.argumentOf dependency := by
  induction dependencies with
  | nil => cases hmem
  | cons first rest ih =>
    rw [map_cons, nodup_cons] at hnodup
    rw [argumentsOf_cons, find?_append]
    rcases mem_cons.mp hmem with rfl | hrest
    · cases harg : registry.argumentOf dependency with
      | none =>
        refine find?_eq_none.mpr fun argument hlater hname => hnodup.1 ?_
        exact of_decide_eq_true hname ▸ argumentsOf_names hlater
      | some => simp [argumentOf_name harg]
    · have hother : first.name ≠ dependency.name := fun hname =>
        hnodup.1 (hname ▸ mem_map_of_mem hrest)
      rw [← ih hnodup.2 hrest]
      cases harg : registry.argumentOf first with
      | none => rfl
      | some => simp [argumentOf_name harg, hother]

/-- Distinct parameters that are all resolved get the same arguments exactly
when they are resolved alike. -/
theorem argumentsOf_eq_iff (hnodup : (dependencies.map (·.name)).Nodup)
    (hok : ∀ dependency ∈ dependencies, ∃ selection, registry.select dependency = .ok selection)
    (hok' : ∀ dependency ∈ dependencies, ∃ selection, other.select dependency = .ok selection) :
    registry.argumentsOf dependencies = other.argumentsOf dependencies ↔
      ∀ dependency ∈ dependencies, registry.select dependency = other.select dependency := by
  constructor
  · intro hsame dependency hmem
    obtain ⟨_, hsel⟩ := hok dependency hmem
    obtain ⟨_, hsel'⟩ := hok' dependency hmem
    have hequal := congrArg (find? (·.1 = dependency.name)) hsame
    rw [argumentsOf_find hnodup hmem, argumentsOf_find hnodup hmem] at hequal
    rw [hsel, hsel', argumentOf_inj hsel hsel' hequal]
  · intro hsame
    refine filterMap_congr fun dependency hmem => ?_
    rw [Registry.argumentOf, Registry.argumentOf, hsame dependency hmem]

end Arguments

section Order

/-- Pods constructed by both start-ups were passed instances of the same Pods
for all parameters. -/
def InjectsAlike (registry other : Registry) : Prop :=
  ∀ fuel fuel', (started registry fuel).1 = .ok () → (started other fuel').1 = .ok () →
    ∀ construction ∈ (started registry fuel).2.completed,
      ∀ construction' ∈ (started other fuel').2.completed,
        construction.pod = construction'.pod →
          selections construction.arguments = selections construction'.arguments

/-- Both start-ups succeed or both fail, and successful ones inject alike. -/
def OrderIndependent (registry other : Registry) : Prop :=
  ((Starts registry ∧ Starts other) ∨ (FailsToStart registry ∧ FailsToStart other)) ∧
    InjectsAlike registry other

def DependencyInfo.IsForward (dependency : DependencyInfo) : Prop :=
  dependency.collectionKind = none ∧ ∃ name, dependency.type_ = .forward name

/-- The forward references of the Pods that both start-ups need are resolved
alike. -/
def ForwardsAgree (registry other : Registry) : Prop :=
  ∀ pod ∈ registry.pods, Needed registry.context.problem registry.roots pod.name →
    Needed other.context.problem other.roots pod.name →
      ∀ dependency ∈ pod.dependencies, dependency.IsForward →
        registry.select dependency = other.select dependency

/-- All forward references are resolved alike. -/
def ForwardsFixed (registry other : Registry) : Prop :=
  ∀ pod ∈ registry.pods, ∀ dependency ∈ pod.dependencies, dependency.IsForward →
    registry.select dependency = other.select dependency

variable {registry other : Registry}

/-- The parameters of every Pod a startable registry needs are resolved. -/
theorem Startable.select_ok (hstartable : Startable registry) {pod : Pod}
    (hpod : pod ∈ registry.pods)
    (hneeded : Needed registry.context.problem registry.roots pod.name) :
    ∀ dependency ∈ pod.dependencies, ∃ selection, registry.select dependency = .ok selection := by
  intro dependency hmem
  obtain ⟨root, hroot, hreach⟩ := hneeded
  have hbuildable : Buildable registry.context.idealProblem pod.name :=
    (hstartable.buildable root hroot).needs hreach
  cases hsel : registry.select dependency with
  | ok selection => exact ⟨selection, rfl⟩
  | error error =>
    cases hbuildable with
    | intro hfails =>
      refine absurd ?_ (hfails error)
      change _ ∈ registry.context.problem.plan pod.name
      rw [plan_eq hpod, Context.planOf]
      refine mem_append_left _ (mem_flatMap.mpr ⟨dependency, hmem, ?_⟩)
      rw [dependencyItems, show registry.context.registry.select dependency = _ from hsel]
      exact mem_singleton.mpr rfl

/-- Registries of the same Pods and bindings. -/
structure SamePods (registry other : Registry) : Prop where
  perm : registry.pods.Perm other.pods
  bindings : registry.bindings = other.bindings

/-- Only forward references can be resolved differently in another order. -/
theorem SamePods.select (hsame : SamePods registry other) {dependency : DependencyInfo}
    (hfwd : dependency.IsForward → registry.select dependency = other.select dependency) :
    registry.select dependency = other.select dependency := by
  by_cases hkind : dependency.IsForward
  · exact hfwd hkind
  · refine select_perm hsame.perm hsame.bindings fun hsingle => ?_
    cases htype : dependency.type_ with
    | type => rfl
    | forward name => exact absurd ⟨hsingle, name, htype⟩ hkind

/-- The Pod behind a construction, and the arguments it was passed. -/
theorem construction_pod {fuel : Nat} (hok : (started registry fuel).1 = .ok ())
    {construction : Construction} (hmem : construction ∈ (started registry fuel).2.completed) :
    ∃ pod ∈ registry.pods, pod.name = construction.pod ∧
      Needed registry.context.problem registry.roots pod.name ∧
        selections construction.arguments = registry.argumentsOf pod.dependencies := by
  obtain ⟨pod, hpod, hname, hargs⟩ := (completed_arguments registry hok).arguments construction hmem
  have hneeded := (completed_iff registry hok construction.pod).mp ⟨construction, hmem, rfl⟩
  exact ⟨pod, hpod, hname, hname ▸ hneeded, hargs⟩

theorem construction_of_needed {fuel : Nat} (hok : (started registry fuel).1 = .ok ()) {pod : Pod}
    (hpod : pod ∈ registry.pods)
    (hneeded : Needed registry.context.problem registry.roots pod.name) :
    ∃ construction ∈ (started registry fuel).2.completed, construction.pod = pod.name ∧
      selections construction.arguments = registry.argumentsOf pod.dependencies := by
  obtain ⟨construction, hmem, hname⟩ := (completed_iff registry hok pod.name).mpr hneeded
  obtain ⟨_, hmade, hmadeName, _, hargs⟩ := construction_pod hok hmem
  have heq := Registry.eq_of_name hmade hpod (hmadeName.trans hname)
  exact ⟨construction, hmem, hname, heq ▸ hargs⟩

/-- What successful start-ups inject is decided by the forward references. -/
theorem injectsAlike_iff (hsame : SamePods registry other) (hstartable : Startable registry)
    (hstartable' : Startable other) :
    InjectsAlike registry other ↔ ForwardsAgree registry other := by
  have hother : ∀ {pod : Pod}, pod ∈ registry.pods → pod ∈ other.pods := hsame.perm.mem_iff.mp
  constructor
  · intro halike pod hpod hneeded hneeded' dependency hmem _
    obtain ⟨fuel, hok⟩ := (starts_iff_startable registry).mpr hstartable
    obtain ⟨fuel', hok'⟩ := (starts_iff_startable other).mpr hstartable'
    obtain ⟨first, hfirst, hname, hargs⟩ := construction_of_needed hok hpod hneeded
    obtain ⟨second, hsnd, hname', hargs'⟩ := construction_of_needed hok' (hother hpod) hneeded'
    have hequal := halike fuel fuel' hok hok' first hfirst second hsnd (hname.trans hname'.symm)
    rw [hargs, hargs'] at hequal
    exact (argumentsOf_eq_iff pod.parameters_nodup (hstartable.select_ok hpod hneeded)
      (hstartable'.select_ok (hother hpod) hneeded')).mp hequal dependency hmem
  · intro hforwards fuel fuel' hok hok' first hfirst second hsnd hname
    obtain ⟨pod, hpod, hpodName, hneeded, hargs⟩ := construction_pod hok hfirst
    obtain ⟨pod', hpod', hpodName', hneeded', hargs'⟩ := construction_pod hok' hsnd
    have heq : pod = pod' := Registry.eq_of_name (hother hpod) hpod'
      (hpodName.trans (hname.trans hpodName'.symm))
    subst heq
    rw [hargs, hargs']
    refine (argumentsOf_eq_iff pod.parameters_nodup (hstartable.select_ok hpod hneeded)
      (hstartable'.select_ok hpod' hneeded')).mpr fun dependency hmem => ?_
    exact hsame.select (hforwards pod hpod hneeded hneeded' dependency hmem)

/-- Names are distinct, so a name is looked up alike in both orders. -/
theorem SamePods.lookup (hsame : SamePods registry other) (name : String) :
    registry.lookup name = other.lookup name := by
  cases hfound : registry.lookup name with
  | none =>
    refine (find?_eq_none.mpr fun pod hpod => ?_).symm
    simpa using Registry.lookup_none hfound pod (hsame.perm.mem_iff.mpr hpod)
  | some pod =>
    obtain ⟨hpod, rfl⟩ := Registry.lookup_some hfound
    rw [Registry.lookup_self (hsame.perm.mem_iff.mp hpod)]

/-- Without aspects a Pod needs nothing but its parameters. -/
theorem Registry.NoAspects.planOf (hasps : registry.NoAspects) (pod : Pod) :
    registry.context.planOf pod = pod.dependencies.flatMap (dependencyItems registry pod) := by
  have hnone : (registry.pods.filter fun aspect => aspect.advises pod) = [] := by
    refine filter_eq_nil_iff.mpr fun aspect hasp => ?_
    simp [Pod.advises, hasps aspect hasp]
  simp [Context.planOf, processorItems, freshItems, Registry.context, hnone]

section Orders

variable (hsame : SamePods registry other) (hasps : registry.NoAspects)
  (hasps' : other.NoAspects)

include hsame hasps hasps'

theorem SamePods.orderIndependent_iff : OrderIndependent registry other ↔
    (Startable registry ↔ Startable other) ∧
      (Startable registry → Startable other → ForwardsAgree registry other) := by
  unfold OrderIndependent
  rw [failsToStart_iff registry hasps, failsToStart_iff other hasps', starts_iff_startable,
    starts_iff_startable]
  constructor
  · rintro ⟨_, halike⟩
    refine ⟨by tauto, fun hstartable hstartable' => ?_⟩
    exact (injectsAlike_iff hsame hstartable hstartable').mp halike
  · rintro ⟨_, hforwards⟩
    refine ⟨by tauto, fun fuel fuel' hok hok' => ?_⟩
    have hstartable := (starts_iff_startable registry).mp ⟨fuel, hok⟩
    have hstartable' := (starts_iff_startable other).mp ⟨fuel', hok'⟩
    exact (injectsAlike_iff hsame hstartable hstartable').mpr (hforwards hstartable hstartable')
      fuel fuel' hok hok'

variable (hfixed : ForwardsFixed registry other)

include hfixed

/-- Without aspects both orders make the same walk over each Pod, unless a
forward reference is resolved differently. -/
theorem SamePods.problem : registry.context.problem = other.context.problem := by
  have hplan : ∀ name, registry.context.problem.plan name = other.context.problem.plan name := by
    intro name
    cases hfound : registry.lookup name with
    | none => simp [Context.problem, Registry.context, hfound, ← hsame.lookup]
    | some pod =>
      obtain ⟨hpod, rfl⟩ := Registry.lookup_some hfound
      rw [plan_eq hpod, plan_eq (hsame.perm.mem_iff.mp hpod), hasps.planOf, hasps'.planOf]
      refine flatMap_congr fun dependency hmem => ?_
      rw [dependencyItems, dependencyItems, hsame.select (hfixed pod hpod dependency hmem)]
  have htype : registry.typeOf = other.typeOf := by
    funext name
    rw [Registry.typeOf, Registry.typeOf, hsame.lookup]
  rw [Context.problem, Context.problem, Problem.mk.injEq]
  refine ⟨funext hplan, funext fun name => ?_, ?_⟩
  · simp [Registry.context, hsame.lookup]
  · simp [Registry.context, htype]

/-- What can be built is then the same, and only the order of the walk counts. -/
theorem SamePods.startable_iff :
    (Startable registry ↔ Startable other) ↔ (Quiet registry ↔ Quiet other) := by
  have hideal : registry.context.idealProblem = other.context.idealProblem := by
    rw [Context.idealProblem, hsame.problem hasps hasps' hfixed]
    rfl
  have hroots : ∀ root, root ∈ registry.roots ↔ root ∈ other.roots := by
    simp [Registry.roots, hsame.perm.mem_iff]
  by_cases hbuildable : ∀ root ∈ registry.roots, Buildable registry.context.idealProblem root
  · have hbuildable' : ∀ root ∈ other.roots, Buildable other.context.idealProblem root :=
      fun root hroot => hideal ▸ hbuildable root ((hroots root).mpr hroot)
    rw [show Startable registry ↔ Quiet registry from ⟨(·.quiet), (⟨hbuildable, ·⟩)⟩,
      show Startable other ↔ Quiet other from ⟨(·.quiet), (⟨hbuildable', ·⟩)⟩]
  · have hbuildable' : ¬ ∀ root ∈ other.roots, Buildable other.context.idealProblem root :=
      fun hall => hbuildable fun root hroot => hideal ▸ hall root ((hroots root).mp hroot)
    have hquiet : Quiet registry := fun fuel hok =>
      absurd ((idealStartWalk_ok_iff registry).mp ⟨fuel, hok⟩) hbuildable
    have hquiet' : Quiet other := fun fuel hok =>
      absurd ((idealStartWalk_ok_iff other).mp ⟨fuel, hok⟩) hbuildable'
    exact iff_of_true (iff_of_false (hbuildable ·.buildable) (hbuildable' ·.buildable))
      (iff_of_true hquiet hquiet')

end Orders

/-- Start-up does not depend on the order of two registrations exactly when
they are both startable or both not, and then resolve forward references
alike. If these are fixed, what can be built is the same, and only the two
walks have to be quiet alike. -/
theorem order_independent_iff {pods others : List Pod} {bindings : List PodBinding}
    (hperm : pods.Perm others) (hnodup : (pods.map (·.name)).Nodup)
    (haspects : ∀ pod ∈ pods, pod.aspect = none ∧ pod.asyncAspect = none)
    (hfirst : assemble pods bindings = .ok registry)
    (hsecond : assemble others bindings = .ok other) :
    (OrderIndependent registry other ↔
      (Startable registry ↔ Startable other) ∧
        (Startable registry → Startable other → ForwardsAgree registry other)) ∧
    (ForwardsFixed registry other →
      (OrderIndependent registry other ↔ (Quiet registry ↔ Quiet other))) := by
  have hnodup' : (others.map (·.name)).Nodup := (hperm.map _).nodup_iff.mp hnodup
  obtain ⟨hpods, hbindings⟩ := assemble_ok hnodup hfirst
  obtain ⟨hpods', hbindings'⟩ := assemble_ok hnodup' hsecond
  have hsame : SamePods registry other :=
    ⟨by rw [hpods, hpods']; exact hperm, hbindings.trans hbindings'.symm⟩
  have hasps : registry.NoAspects := fun pod hpod => haspects pod (hpods ▸ hpod)
  have hasps' : other.NoAspects := fun pod hpod =>
    haspects pod (hperm.mem_iff.mpr (hpods' ▸ hpod))
  have hiff := hsame.orderIndependent_iff hasps hasps'
  refine ⟨hiff, fun hfixed => ?_⟩
  have hagree : ForwardsAgree registry other := fun pod hpod _ _ => hfixed pod hpod
  rw [hiff, and_iff_left fun _ _ => hagree]
  exact hsame.startable_iff hasps hasps' hfixed

end Order

def innerFirstRegistry : Registry := .ofPods [innerPod, outerPod, servicePod]

theorem sameType_perm : [outerPod, servicePod, innerPod].Perm [innerPod, outerPod, servicePod] :=
  show ([outerPod, servicePod] ++ [innerPod]).Perm ([innerPod] ++ [outerPod, servicePod]) from
    perm_append_comm

/-- Registered last, the inner Pod is entered underneath the outer one and
start-up fails; registered first, it is cached by then. -/
theorem same_type_order_changes_start :
    [outerPod, servicePod, innerPod].Perm [innerPod, outerPod, servicePod] ∧
      assemble [outerPod, servicePod, innerPod] [] = .ok sameTypeRegistry ∧
      assemble [innerPod, outerPod, servicePod] [] = .ok innerFirstRegistry ∧
      (started sameTypeRegistry 5).1 =
        .error (.circularDependencyGraphDetected [portType, serviceType, portType]) ∧
      (started innerFirstRegistry 5).1 = .ok () ∧
      ¬ OrderIndependent sameTypeRegistry innerFirstRegistry := by
  have hfails : (started sameTypeRegistry 5).1 =
      .error (.circularDependencyGraphDetected [portType, serviceType, portType]) := by
    decide +kernel
  have hstarts : (started innerFirstRegistry 5).1 = .ok () := by decide +kernel
  refine ⟨sameType_perm, rfl, rfl, hfails, hstarts, ?_⟩
  rintro ⟨⟨hfirst, _⟩ | ⟨_, hsecond⟩, _⟩
  · exact FailsToStart.not_starts ⟨5, _, hfails, by simp⟩ hfirst
  · exact hsecond.not_starts ⟨5, hstarts⟩

theorem order_independent_iff_same_type :
    [outerPod, servicePod, innerPod].Perm [innerPod, outerPod, servicePod] ∧
      (OrderIndependent sameTypeRegistry innerFirstRegistry ↔
        (Quiet sameTypeRegistry ↔ Quiet innerFirstRegistry)) := by
  have hplain : ∀ pod ∈ [outerPod, servicePod, innerPod], ∀ dependency ∈ pod.dependencies,
      ¬ dependency.IsForward := by
    simp [outerPod, servicePod, innerPod, DependencyInfo.IsForward]
  exact ⟨sameType_perm, (order_independent_iff sameType_perm (by decide) sameTypeRegistry_noAspects
    (show assemble _ [] = .ok sameTypeRegistry from rfl) rfl).2
      fun pod hpod dependency hmem hforward => absurd hforward (hplain pod hpod dependency hmem)⟩

end Spakky.Container
