import Mathlib.Data.List.Sort
import Spakky.Container.Registry

/-!
How a parameter is resolved to Pods: qualifiers first, then an explicit name,
the configured binding, the only candidate, the primary candidate, and last
the name of the parameter. Nothing is constructed here.

For a class the choice does not depend on the order of registration, down to
the candidates an ambiguity error lists. A forward reference goes through a
map in which the last registered type of that `__name__` wins.
-/

namespace Spakky.Container

open List

/-- How a set of candidates is used: empty, a single one, or several. -/
def byCount {β : Type} (pods : List Pod) (none : β) (one : Pod → β) (many : List Pod → β) : β :=
  match pods with
  | [] => none
  | [pod] => one pod
  | pods => many pods

abbrev Pod.Before (pod other : Pod) : Prop := pod.name ≤ other.name

instance : Std.Total Pod.Before := ⟨fun pod other => String.le_total pod.name other.name⟩

instance : IsTrans Pod Pod.Before := ⟨fun _ _ _ hab hbc => String.le_trans hab hbc⟩

def sortedByName (pods : List Pod) : List Pod := pods.insertionSort Pod.Before

def candidateDiagnostics (pods : List Pod) : List PodCandidateDiagnostic :=
  (sortedByName pods).map fun pod => ⟨pod.name, pod.type_.name, pod.isPrimary⟩

def ambiguityHints (dependencyParameterName : Option String) : List String :=
  let hints := ["add Annotated[T, Qualifier(...)] to select one candidate",
    "register ApplicationContext.bind(PodBinding(...)) from application config",
    "mark exactly one candidate with @Primary"]
  match dependencyParameterName with
  | none => hints ++ ["call get(type_, name=...) for an explicit Pod name"]
  | some _ => hints ++
      ["rename the dependency parameter to one candidate Pod name as legacy fallback"]

def noUniquePod (type_ : PyType) (name : Option String) (pods : List Pod) : ContainerError :=
  .noUniquePod type_ (candidateDiagnostics pods) (ambiguityHints name)

def qualifies (qualifiers : List Qualifier) (pod : Pod) : Bool :=
  qualifiers.all fun qualifier => qualifier.selector pod.toPodInfo

/-- The candidate a configured binding selects, when there is a binding. -/
def resolveBindingCandidate (binding : Option PodBinding) (pods : List Pod) :
    Except ContainerError (Option Pod) :=
  match binding with
  | none => .ok none
  | some binding =>
    let target := match binding.implementationName with
      | some name => pods.filter fun pod => pod.name == name
      | none => pods.filter fun pod => some pod.type_ == binding.implementationType
    byCount target (.error (.noSuchPodBindingTarget binding)) (fun pod => .ok (some pod))
      fun _ => .error (.noSuchPodBindingTarget binding)

/-- The last resort: a candidate named like the parameter. -/
def resolveByParameterName (type_ : PyType) (pods : List Pod) (name : Option String)
    (nameIsDependencyParameter : Bool) : Except ContainerError (Option Pod) :=
  match name, nameIsDependencyParameter with
  | some name, true =>
    byCount (pods.filter fun pod => pod.name == name) (.error (noUniquePod type_ name pods))
      (fun pod => .ok (some pod)) fun _ => .error (noUniquePod type_ name pods)
  | name, _ => .error (noUniquePod type_ name pods)

/-- The part of `__resolve_candidate` after qualifiers and explicit names. -/
def resolveByPolicy (binding : Option PodBinding) (type_ : PyType) (pods : List Pod)
    (name : Option String) (nameIsDependencyParameter : Bool) :
    Except ContainerError (Option Pod) :=
  match resolveBindingCandidate binding pods with
  | .error error => .error error
  | .ok (some pod) => .ok (some pod)
  | .ok none =>
    byCount pods (.ok none) (fun pod => .ok (some pod)) fun pods =>
      byCount (pods.filter (·.isPrimary))
        (resolveByParameterName type_ pods name nameIsDependencyParameter)
        (fun pod => .ok (some pod))
        fun primary => .error (noUniquePod type_ name primary)

/-- `__resolve_candidate` on the Pods the type index holds. -/
def resolveAmong (binding : Option PodBinding) (type_ : PyType) (pods : List Pod)
    (name : Option String) (qualifiers : List Qualifier) (nameIsDependencyParameter : Bool) :
    Except ContainerError (Option Pod) :=
  if pods.isEmpty then
    .ok none
  else if qualifiers.isEmpty then
    match name, nameIsDependencyParameter with
    | some name, false =>
      byCount (pods.filter fun pod => pod.name == name) (.ok none) (fun pod => .ok (some pod))
        fun _ => resolveByPolicy binding type_ pods name nameIsDependencyParameter
    | name, _ => resolveByPolicy binding type_ pods name nameIsDependencyParameter
  else
    byCount (pods.filter (qualifies qualifiers)) (.ok none) (fun pod => .ok (some pod))
      fun qualified => .error (noUniquePod type_ name qualified)

/-- What a parameter is resolved to, by the names of the Pods. -/
inductive Selection where
  | absent
  | single (pod : String)
  | collection (kind : DependencyCollectionKind) (pods : List String)
  deriving DecidableEq, Repr

def Selection.pods : Selection → List String
  | .absent => []
  | .single pod => [pod]
  | .collection _ pods => pods

namespace Registry

variable (registry : Registry)

def resolveCandidate (type_ : PyType) (name : Option String) (qualifiers : List Qualifier)
    (nameIsDependencyParameter : Bool) : Except ContainerError (Option Pod) :=
  resolveAmong (registry.bindings type_) type_ (registry.typeCache type_) name qualifiers
    nameIsDependencyParameter

def resolveType : TypeRef → Option PyType
  | .type type_ => some type_
  | .forward name => registry.forwardTypeMap name

/-- The part of `__get_internal` before a Pod is constructed. -/
def resolve (type_ : TypeRef) (name : Option String) (qualifiers : List Qualifier)
    (nameIsDependencyParameter : Bool) : Except ContainerError (Option Pod) :=
  match registry.resolveType type_ with
  | none => .ok none
  | some type_ => registry.resolveCandidate type_ name qualifiers nameIsDependencyParameter

def resolveCollectionCandidates (type_ : TypeRef) (qualifiers : List Qualifier) : List Pod :=
  match type_ with
  | .forward _ => []
  | .type type_ => sortedByName ((registry.typeCache type_).filter (qualifies qualifiers))

/-- What a parameter is resolved to when nothing fails on the way. -/
def select (dependency : DependencyInfo) : Except ContainerError Selection :=
  match dependency.collectionKind with
  | none =>
    match registry.resolve dependency.type_ (some dependency.name) dependency.qualifiers true with
    | .error error => .error error
    | .ok none => .ok .absent
    | .ok (some pod) => .ok (.single pod.name)
  | some kind =>
    match registry.resolveCollectionCandidates dependency.type_ dependency.qualifiers with
    | [] => .ok .absent
    | pods => .ok (.collection kind (pods.map (·.name)))

end Registry

/-- The errors that resolution raises. -/
def ContainerError.isResolution : ContainerError → Bool
  | .noSuchPodBindingTarget _ => true
  | .noUniquePod _ _ _ => true
  | _ => false

/-- The errors of a construction that is not circular. -/
def ContainerError.isMissingOrAmbiguous : ContainerError → Bool
  | .unexpectedDependencyTypeInjected _ _ _ => true
  | error => error.isResolution

theorem isMissingOrAmbiguous_of_isResolution {error : ContainerError}
    (h : error.isResolution = true) : error.isMissingOrAmbiguous = true := by
  cases error <;> first | rfl | exact h

/-- A result of resolution is one of the candidates, nothing, or an error of
resolution. -/
def Resolved (pods : List Pod) : Except ContainerError (Option Pod) → Prop
  | .ok none => True
  | .ok (some pod) => pod ∈ pods
  | .error error => error.isResolution = true

section Resolved

variable {pods : List Pod}

theorem byCount_resolved {chosen : List Pod} {none : Except ContainerError (Option Pod)}
    {many : List Pod → Except ContainerError (Option Pod)} (hchosen : chosen ⊆ pods)
    (hnone : Resolved pods none) (hmany : Resolved pods (many chosen)) :
    Resolved pods (byCount chosen none (fun pod => .ok (some pod)) many) := by
  unfold byCount
  split
  · exact hnone
  · exact hchosen (by simp)
  · exact hmany

variable (binding : Option PodBinding) (type_ : PyType) (pods : List Pod) (name : Option String)
  (qualifiers : List Qualifier) (parameter : Bool)

theorem resolveBindingCandidate_resolved :
    Resolved pods (resolveBindingCandidate binding pods) := by
  unfold resolveBindingCandidate
  split
  · trivial
  · refine byCount_resolved ?_ rfl rfl
    split
    · exact filter_subset_self _
    · exact filter_subset_self _

theorem resolveByParameterName_resolved :
    Resolved pods (resolveByParameterName type_ pods name parameter) := by
  unfold resolveByParameterName
  split
  · exact byCount_resolved (filter_subset_self _) rfl rfl
  · rfl

theorem resolveByPolicy_resolved :
    Resolved pods (resolveByPolicy binding type_ pods name parameter) := by
  have hbinding := resolveBindingCandidate_resolved binding pods
  unfold resolveByPolicy
  split
  · rename_i error hres
    rwa [hres] at hbinding
  · rename_i pod hres
    rwa [hres] at hbinding
  · refine byCount_resolved (Subset.refl _) trivial ?_
    exact byCount_resolved (filter_subset_self _)
      (resolveByParameterName_resolved type_ pods name parameter) rfl

theorem resolveAmong_resolved :
    Resolved pods (resolveAmong binding type_ pods name qualifiers parameter) := by
  unfold resolveAmong
  split
  · trivial
  · split
    · split
      · exact byCount_resolved (filter_subset_self _) trivial
          (resolveByPolicy_resolved binding type_ pods _ _)
      · exact resolveByPolicy_resolved binding type_ pods _ _
    · exact byCount_resolved (filter_subset_self _) trivial rfl

end Resolved

namespace Registry

variable {registry : Registry}

variable (registry) in
theorem resolve_resolved (type_ : TypeRef) (name : Option String) (qualifiers : List Qualifier)
    (parameter : Bool) :
    Resolved registry.pods (registry.resolve type_ name qualifiers parameter) := by
  unfold resolve
  split
  · trivial
  · rename_i type_ _
    have hresolved := resolveAmong_resolved (registry.bindings type_) type_
      (registry.typeCache type_) name qualifiers parameter
    unfold resolveCandidate
    cases hres : resolveAmong (registry.bindings type_) type_ (registry.typeCache type_) name
        qualifiers parameter with
    | error => rwa [hres] at hresolved
    | ok found =>
      rw [hres] at hresolved
      cases found with
      | none => trivial
      | some => exact (mem_typeCache.mp hresolved).1

theorem mem_resolveCollectionCandidates {type_ : TypeRef} {qualifiers : List Qualifier} {pod : Pod}
    (h : pod ∈ registry.resolveCollectionCandidates type_ qualifiers) : pod ∈ registry.pods := by
  unfold resolveCollectionCandidates sortedByName at h
  split at h
  · cases h
  · rw [mem_insertionSort, mem_filter] at h
    exact (mem_typeCache.mp h.1).1

theorem isFamilyWith_self (pod : Pod) : pod.isFamilyWith pod.type_ = true := by
  simp [Pod.isFamilyWith]

/-- Asked for its own type and name, a registered Pod is found. -/
theorem resolve_self {pod : Pod} (hpod : pod ∈ registry.pods) :
    registry.resolve (.type pod.type_) (some pod.name) [] false = .ok (some pod) := by
  have hmem : pod ∈ registry.typeCache pod.type_ := mem_typeCache.mpr ⟨hpod, isFamilyWith_self pod⟩
  have hnamed := filter_name registry
    (by rw [registry.indexed]; exact filter_sublist) hmem
  have hsome : (registry.typeCache pod.type_).isEmpty = false := by
    cases hcache : registry.typeCache pod.type_ with
    | nil => simp [hcache] at hmem
    | cons => rfl
  simp [resolve, resolveType, resolveCandidate, resolveAmong, hsome, hnamed, byCount]

end Registry

section Order

variable {pods others : List Pod}

theorem byCount_perm {β : Type} {none : β} {one : Pod → β} {many many' : List Pod → β}
    (hperm : pods.Perm others) (hmany : many pods = many' others) :
    byCount pods none one many = byCount others none one many' := by
  have hlen := hperm.length_eq
  match pods, others with
  | [], [] => rfl
  | [pod], [other] => rw [singleton_perm_singleton.mp hperm]; rfl
  | _ :: _ :: _, _ :: _ :: _ => exact hmany
  | [], _ :: _ => simp at hlen
  | _ :: _, [] => simp at hlen
  | [_], _ :: _ :: _ => simp at hlen
  | _ :: _ :: _, [_] => simp at hlen

theorem resolveBindingCandidate_perm (hperm : pods.Perm others) (binding : Option PodBinding) :
    resolveBindingCandidate binding pods = resolveBindingCandidate binding others := by
  unfold resolveBindingCandidate
  cases binding with
  | none => rfl
  | some binding =>
    cases hname : binding.implementationName with
    | none | some => simpa only [hname] using byCount_perm (hperm.filter _) rfl

theorem nodup_filter (hnodup : (pods.map (·.name)).Nodup) (p : Pod → Bool) :
    ((pods.filter p).map (·.name)).Nodup :=
  hnodup.sublist (filter_sublist.map _)

section

variable (hperm : pods.Perm others) (hnodup : (pods.map (·.name)).Nodup)
  (binding : Option PodBinding) (type_ : PyType) (name : Option String)
  (qualifiers : List Qualifier) (parameter : Bool)
include hperm hnodup

/-- Distinct names make the sorted list of candidates unique. -/
theorem sortedByName_perm : sortedByName pods = sortedByName others := by
  unfold sortedByName
  have hsorted := pairwise_insertionSort Pod.Before pods
  have hsorted' := pairwise_insertionSort Pod.Before others
  refine Perm.eq_of_pairwise (fun pod other hpod hother hle hge => ?_) hsorted hsorted' ?_
  · rw [mem_insertionSort] at hpod hother
    exact inj_on_of_nodup_map hnodup hpod (hperm.mem_iff.mpr hother)
      (String.le_antisymm hle hge)
  · exact (perm_insertionSort _ pods).trans
      (hperm.trans (perm_insertionSort _ others).symm)

theorem noUniquePod_perm : noUniquePod type_ name pods = noUniquePod type_ name others := by
  unfold noUniquePod candidateDiagnostics
  rw [sortedByName_perm hperm hnodup]

theorem resolveByParameterName_perm :
    resolveByParameterName type_ pods name parameter =
      resolveByParameterName type_ others name parameter := by
  have hall := noUniquePod_perm hperm hnodup type_
  unfold resolveByParameterName
  cases name with
  | none => simp only [hall]
  | some =>
    cases parameter with
    | false => simp only [hall]
    | true =>
      simp only [hall]
      exact byCount_perm (hperm.filter _) rfl

theorem resolveByPolicy_perm :
    resolveByPolicy binding type_ pods name parameter =
      resolveByPolicy binding type_ others name parameter := by
  unfold resolveByPolicy
  rw [resolveBindingCandidate_perm hperm binding]
  split
  · rfl
  · rfl
  · refine byCount_perm hperm ?_
    rw [resolveByParameterName_perm hperm hnodup]
    refine byCount_perm (hperm.filter _) ?_
    rw [noUniquePod_perm (hperm.filter _) (nodup_filter hnodup _)]

/-- The choice among candidates of a class does not depend on their order. -/
theorem resolveAmong_perm :
    resolveAmong binding type_ pods name qualifiers parameter =
      resolveAmong binding type_ others name qualifiers parameter := by
  have hempty : pods.isEmpty = others.isEmpty := by
    rw [Bool.eq_iff_iff, List.isEmpty_iff, List.isEmpty_iff]
    constructor
    · rintro rfl
      exact hperm.nil_eq.symm
    · rintro rfl
      exact hperm.eq_nil
  have hpol := resolveByPolicy_perm hperm hnodup binding type_
  unfold resolveAmong
  rw [hempty]
  split
  · rfl
  · split
    · cases name with
      | none => exact hpol none parameter
      | some name =>
        cases parameter with
        | false => exact byCount_perm (hperm.filter _) (hpol (some name) false)
        | true => exact hpol (some name) true
    · refine byCount_perm (hperm.filter _) ?_
      rw [noUniquePod_perm (hperm.filter _) (nodup_filter hnodup _)]

end

variable {registry other : Registry}

/-- Registering the same Pods in another order changes no selection, except
through the types that forward references stand for. -/
theorem select_perm (hperm : registry.pods.Perm other.pods)
    (hbindings : registry.bindings = other.bindings) {dependency : DependencyInfo}
    (hfwd : dependency.collectionKind = none →
      registry.resolveType dependency.type_ = other.resolveType dependency.type_) :
    registry.select dependency = other.select dependency := by
  have hindex : ∀ type_, (registry.typeCache type_).Perm (other.typeCache type_) := by
    intro type_
    rw [registry.indexed, other.indexed]
    exact hperm.filter _
  have hnodup : ∀ type_, ((registry.typeCache type_).map (·.name)).Nodup := by
    intro type_
    rw [registry.indexed]
    exact nodup_filter registry.names_nodup _
  unfold Registry.select
  cases hkind : dependency.collectionKind with
  | none =>
    have hsame : registry.resolve dependency.type_ (some dependency.name)
        dependency.qualifiers true =
        other.resolve dependency.type_ (some dependency.name) dependency.qualifiers true := by
      unfold Registry.resolve Registry.resolveCandidate
      rw [hfwd hkind, hbindings]
      cases other.resolveType dependency.type_ with
      | none => rfl
      | some type_ => exact resolveAmong_perm (hindex type_) (hnodup type_) _ _ _ _ _
    simp only [hsame]
  | some =>
    have hsame : registry.resolveCollectionCandidates dependency.type_ dependency.qualifiers =
        other.resolveCollectionCandidates dependency.type_ dependency.qualifiers := by
      cases dependency.type_ with
      | forward => rfl
      | type type_ =>
        exact sortedByName_perm ((hindex type_).filter _) (nodup_filter (hnodup type_) _)
    simp only [hsame]

end Order

end Spakky.Container
