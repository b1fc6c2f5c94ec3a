import Mathlib.Data.List.Nodup
import Mathlib.Data.List.Perm.Basic

/-!
The Pods registered with an `ApplicationContext` and the indexes kept beside
them. A registry carries the two facts its lookups rest on: names are
distinct, and the type index holds for every type exactly the Pods of its
family, in registration order.

Pod metadata is modelled as `Pod._initialize` leaves it. A qualifier selector
and a pointcut look at a Pod through `PodInfo`; as names are distinct this
loses nothing.
-/

namespace Spakky.Container

open List Function

/-- A class or a generic alias. Different types may share a `__name__`. -/
structure PyType where
  id : Nat
  name : String
  deriving DecidableEq, Repr

inductive Scope where
  | singleton
  | prototype
  | context
  deriving DecidableEq, Repr

inductive DependencyCollectionKind where
  | list
  | tuple
  | dict
  deriving DecidableEq, Repr

/-- The type of a parameter: a class, or the text of a forward reference. -/
inductive TypeRef where
  | type (type_ : PyType)
  | forward (name : String)
  deriving DecidableEq, Repr

structure PodInfo where
  id : Nat
  name : String
  scope : Scope := .singleton
  type_ : PyType
  baseTypes : List PyType := []
  isPrimary : Bool := false
  isLazy : Bool := false

structure Qualifier where
  selector : PodInfo → Bool

structure DependencyInfo where
  name : String
  type_ : TypeRef
  hasDefault : Bool := false
  isOptional : Bool := false
  qualifiers : List Qualifier := []
  collectionKind : Option DependencyCollectionKind := none

/-- A Pod with its parameters, which have distinct names. `aspect` and
`asyncAspect` are the `matches` methods of the two aspect annotations, where
the target has them. -/
structure Pod extends PodInfo where
  dependencies : List DependencyInfo := []
  parameters_nodup : (dependencies.map (·.name)).Nodup := by decide
  aspect : Option (PodInfo → Bool) := none
  asyncAspect : Option (PodInfo → Bool) := none

def Pod.isFamilyWith (pod : Pod) (type_ : PyType) : Bool :=
  type_ == pod.type_ || pod.baseTypes.contains type_

structure PodBinding where
  interface : PyType
  implementationType : Option PyType := none
  implementationName : Option String := none
  deriving DecidableEq, Repr

structure PodCandidateDiagnostic where
  podName : String
  podTypeName : String
  isPrimary : Bool
  deriving DecidableEq, Repr

inductive ContainerError where
  | podNameAlreadyExists (name : String)
  | invalidPodBinding
  | noSuchPodBindingTarget (binding : PodBinding)
  | noUniquePod (type_ : PyType) (candidates : List PodCandidateDiagnostic)
      (resolutionHints : List String)
  | circularDependencyGraphDetected (types : List PyType)
  | unexpectedDependencyTypeInjected (type_ : PyType) (name : String) (expected : TypeRef)
  | noSuchPod (type_ : PyType) (name : String)
  | applicationContextAlreadyStarted
  | outOfFuel
  deriving DecidableEq, Repr

/-- Add a Pod to a set of Pods. Pods are equal when their names are. -/
def insertPod (pod : Pod) (pods : List Pod) : List Pod :=
  if pods.any (fun other => other.name == pod.name) then pods else pods ++ [pod]

/-- `__type_cache[type_].add(pod)`, creating the set where there is none. -/
def indexPod (cache : PyType → List Pod) (pod : Pod) (type_ : PyType) : PyType → List Pod :=
  update cache type_ (insertPod pod (cache type_))

variable {pod : Pod}

theorem insertPod_mem {pods : List Pod} (hmem : pod ∈ pods) : insertPod pod pods = pods := by
  unfold insertPod
  rw [if_pos]
  exact any_eq_true.mpr ⟨pod, hmem, by simp⟩

theorem insertPod_new {pods : List Pod} (hnew : ∀ other ∈ pods, other.name ≠ pod.name) :
    insertPod pod pods = pods ++ [pod] := by
  unfold insertPod
  rw [if_neg]
  intro hany
  obtain ⟨other, hmem, hsame⟩ := any_eq_true.mp hany
  exact hnew other hmem (by simpa using hsame)

/-- Indexing a new Pod under several types appends it once to each of them. -/
theorem foldl_indexPod (types : List PyType) (before : PyType → Bool)
    {cache base : PyType → List Pod} (hnew : ∀ type_, ∀ other ∈ base type_, other.name ≠ pod.name)
    (hcache : ∀ type_, cache type_ = base type_ ++ if before type_ then [pod] else [])
    (type_ : PyType) :
    types.foldl (fun cache type_ => indexPod cache pod type_) cache type_ =
      base type_ ++ if before type_ || types.contains type_ then [pod] else [] := by
  induction types generalizing cache before with
  | nil => simp [hcache]
  | cons first _ ih =>
    have hstep : ∀ type_, indexPod cache pod first type_ =
        base type_ ++ if before type_ || type_ == first then [pod] else [] := by
      intro type_
      unfold indexPod
      by_cases hsame : type_ = first
      · subst hsame
        rw [update_self, hcache]
        cases before type_ with
        | true => rw [insertPod_mem (by simp)]; simp
        | false =>
          rw [insertPod_new (by simpa using hnew type_)]
          simp
      · rw [update_of_ne hsame, hcache]
        simp [hsame]
    rw [foldl_cons, ih _ hstep]
    simp [Bool.or_assoc]

/-- The registered Pods, with `dict`s modelled as functions from keys. -/
structure Registry where
  pods : List Pod
  typeCache : PyType → List Pod
  forwardTypeMap : String → Option PyType
  bindings : PyType → Option PodBinding
  names_nodup : (pods.map (·.name)).Nodup
  indexed : ∀ type_, typeCache type_ = pods.filter (·.isFamilyWith type_)

namespace Registry

def empty : Registry where
  pods := []
  typeCache := fun _ => []
  forwardTypeMap := fun _ => none
  bindings := fun _ => none
  names_nodup := List.nodup_nil
  indexed := fun _ => rfl

/-- The later of two base types of one `__name__` wins. -/
def addForwardTypes (map : String → Option PyType) (baseTypes : List PyType) :
    String → Option PyType :=
  baseTypes.foldl (fun map base => update map base.name (some base)) map

variable (registry : Registry) (binding : PodBinding)

def lookup (name : String) : Option Pod :=
  registry.pods.find? fun pod => pod.name == name

theorem lookup_none {registry : Registry} {name : String} (h : registry.lookup name = none) :
    ∀ pod ∈ registry.pods, pod.name ≠ name := by
  intro pod hmem hname
  have hmiss := find?_eq_none.mp h pod hmem
  simp [hname] at hmiss

theorem lookup_some {registry : Registry} {name : String} {pod : Pod}
    (h : registry.lookup name = some pod) : pod ∈ registry.pods ∧ pod.name = name :=
  ⟨mem_of_find?_eq_some h, by simpa using find?_some h⟩

/-- The registry after a Pod of a new name was added. -/
def append (pod : Pod) (hnew : ∀ other ∈ registry.pods, other.name ≠ pod.name) : Registry where
  pods := registry.pods ++ [pod]
  typeCache := (pod.type_ :: pod.baseTypes).foldl
    (fun cache type_ => indexPod cache pod type_) registry.typeCache
  forwardTypeMap := addForwardTypes registry.forwardTypeMap pod.baseTypes
  bindings := registry.bindings
  names_nodup := by
    rw [List.map_append, List.nodup_append]
    refine ⟨registry.names_nodup, List.nodup_singleton _, ?_⟩
    intro name hname other hother hsame
    obtain ⟨earlier, hmem, rfl⟩ := List.mem_map.mp hname
    rw [List.map_singleton, List.mem_singleton] at hother
    exact hnew earlier hmem (hsame.trans hother)
  indexed := by
    intro type_
    have hfamily : ∀ type_, ∀ other ∈ registry.typeCache type_, other.name ≠ pod.name := by
      intro type_ other hmem
      rw [registry.indexed] at hmem
      exact hnew other (List.mem_filter.mp hmem).1
    rw [foldl_indexPod _ (fun _ => false) hfamily (by simp), registry.indexed,
      List.filter_append, List.filter_singleton]
    simp [Pod.isFamilyWith]

def add (pod : Pod) : Except ContainerError Registry :=
  match h : registry.lookup pod.name with
  | some other =>
    if other.id = pod.id then .ok registry else .error (.podNameAlreadyExists pod.name)
  | none => .ok (registry.append pod (lookup_none h))

def addAll (registry : Registry) : List Pod → Except ContainerError Registry
  | [] => .ok registry
  | pod :: rest =>
    match registry.add pod with
    | .ok extended => extended.addAll rest
    | .error error => .error error

/-- A registry of some Pods, as long as they can be added. -/
def ofPods (pods : List Pod) : Registry := (empty.addAll pods).toOption.getD empty

def bindingTargetCount : Nat :=
  (if binding.implementationType.isSome then 1 else 0) +
    if binding.implementationName.isSome then 1 else 0

def bind : Except ContainerError Registry :=
  if bindingTargetCount binding = 1 then
    .ok { registry with
      bindings := update registry.bindings binding.interface (some binding) }
  else
    .error .invalidPodBinding

def bindAll (registry : Registry) : List PodBinding → Except ContainerError Registry
  | [] => .ok registry
  | binding :: rest =>
    match registry.bind binding with
    | .ok bound => bound.bindAll rest
    | .error error => .error error

section Lookup

variable {registry : Registry} {pod : Pod}

theorem eq_of_name {other : Pod} (hpod : pod ∈ registry.pods) (hother : other ∈ registry.pods)
    (hname : pod.name = other.name) : pod = other :=
  inj_on_of_nodup_map registry.names_nodup hpod hother hname

@[simp] theorem lookup_self (hpod : pod ∈ registry.pods) : registry.lookup pod.name = some pod := by
  cases hfound : registry.lookup pod.name with
  | none => exact absurd rfl (lookup_none hfound pod hpod)
  | some =>
    obtain ⟨hother, hname⟩ := lookup_some hfound
    rw [eq_of_name hother hpod hname]

theorem mem_typeCache {type_ : PyType} :
    pod ∈ registry.typeCache type_ ↔ pod ∈ registry.pods ∧ pod.isFamilyWith type_ = true := by
  rw [registry.indexed, mem_filter]

variable (registry) in
/-- A Pod is found by its own name and nothing else is. -/
theorem filter_name {pods : List Pod} (hpods : pods.Sublist registry.pods) (hpod : pod ∈ pods) :
    pods.filter (fun other => other.name == pod.name) = [pod] := by
  have hnodup : (pods.map (·.name)).Nodup := registry.names_nodup.sublist (hpods.map _)
  induction pods with
  | nil => cases hpod
  | cons first rest ih =>
    rw [map_cons, nodup_cons] at hnodup
    rcases mem_cons.mp hpod with rfl | hlater
    · have hothers : rest.filter (fun other => other.name == pod.name) = [] := by
        apply filter_eq_nil_iff.mpr
        intro other hmem hname
        exact hnodup.1 (mem_map.mpr ⟨other, hmem, by simpa using hname⟩)
      simp [hothers]
    · have hne : (first.name == pod.name) = false := by
        refine beq_eq_false_iff_ne.mpr fun hname => hnodup.1 ?_
        exact hname ▸ mem_map_of_mem hlater
      rw [filter_cons_of_neg (by simp [hne])]
      exact ih ((sublist_cons_self first rest).trans hpods) hlater hnodup.2

end Lookup

/-- Pods of new and distinct names are all registered, in the given order. -/
theorem addAll_ok (registry : Registry) (pods : List Pod)
    (hnodup : ((registry.pods ++ pods).map (·.name)).Nodup) :
    ∃ extended, registry.addAll pods = .ok extended ∧ extended.pods = registry.pods ++ pods ∧
      extended.bindings = registry.bindings := by
  induction pods generalizing registry with
  | nil => exact ⟨registry, rfl, by simp, rfl⟩
  | cons pod _ ih =>
    have hnone : registry.lookup pod.name = none := by
      refine find?_eq_none.mpr fun other hmem hsame => ?_
      rw [map_append, nodup_append] at hnodup
      exact hnodup.2.2 other.name (mem_map_of_mem hmem) pod.name
        (mem_map_of_mem (.head _)) (by simpa using hsame)
    have hadd : registry.add pod = .ok (registry.append pod (lookup_none hnone)) := by
      unfold add
      split
      · rename_i hsome
        rw [hnone] at hsome
        cases hsome
      · rfl
    obtain ⟨extended, hrest, hpods, hbindings⟩ :=
      ih (registry.append pod (lookup_none hnone)) (by simpa [append] using hnodup)
    refine ⟨extended, ?_, ?_, hbindings⟩
    · rw [addAll, hadd]
      exact hrest
    · simpa [append] using hpods

end Registry

end Spakky.Container
