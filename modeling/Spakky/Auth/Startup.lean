import Mathlib.Data.List.Dedup
import Mathlib.Data.List.Sort
import Mathlib.Data.String.Basic
import Spakky.Auth.Metadata
import Spakky.Effect

/-!
`AuthCapabilityStartupValidator` against the enforcement. The validator looks at the targets
of the registered Pods and at the callable members of those that are classes. The
authorization aspects look at the bound methods of the instances, and a saga at the steps of
its class. The two agree for methods of class Pods. The class of what a function Pod returns,
class methods and saga steps are enforced and not validated.
-/

namespace Spakky.Auth

open Effect List

inductive AuthCapability where
  | authentication
  | policyEvaluation
  | permissionCheck
  | roleCheck
  | scopeCheck
  | relationCheck
  | snapshotSign
  | snapshotVerify
  | passwordHash
  | passwordVerify
  deriving DecidableEq, Repr

def AuthCapability.value : AuthCapability → String
  | .authentication => "AUTHENTICATION"
  | .policyEvaluation => "POLICY_EVALUATION"
  | .permissionCheck => "PERMISSION_CHECK"
  | .roleCheck => "ROLE_CHECK"
  | .scopeCheck => "SCOPE_CHECK"
  | .relationCheck => "RELATION_CHECK"
  | .snapshotSign => "SNAPSHOT_SIGN"
  | .snapshotVerify => "SNAPSHOT_VERIFY"
  | .passwordHash => "PASSWORD_HASH"
  | .passwordVerify => "PASSWORD_VERIFY"

structure AuthProviderContribution where
  providerId : String
  capabilities : List AuthCapability

def AuthProviderContribution.supports (contribution : AuthProviderContribution)
    (capability : AuthCapability) : Bool :=
  contribution.capabilities.contains capability

/-- The capability a requirement asks for beside the authentication. -/
def requirementCapability : AuthRequirementKind → Option AuthCapability
  | .authenticated => none
  | .permission => some .permissionCheck
  | .policy => some .policyEvaluation
  | .relation => some .relationCheck
  | .role => some .roleCheck
  | .scope => some .scopeCheck

/-- A static member of a class. An instance gives a bound method for a function and for a
class method, a step for a saga step, and for another value what its descriptor gives. -/
inductive Member where
  | function (annotations : AuthAnnotations)
  | staticMethod (annotations : AuthAnnotations)
  | classMethod (function : AuthAnnotations)
  | sagaStep (annotations : AuthAnnotations)
  | nestedType (annotations : AuthAnnotations) (hasMethodMetadata : Bool)
  | other (isCallable : Bool) (annotations : AuthAnnotations) (bound : Option AuthAnnotations)

/-- A class, with the metadata and the members it inherits. -/
structure PodClass where
  name : String
  annotations : AuthAnnotations
  members : List (String × Member)

inductive Target where
  | type (podType : PodClass)
  | function (name : String) (annotations : AuthAnnotations) (instanceType : PodClass)

/-- The methods that the instance of a Pod keeps in its attributes come with the metadata of
their owner's class and their own. -/
structure RegisteredPod where
  target : Target
  stored : List (AuthAnnotations × AuthAnnotations) := []

def Target.instanceType : Target → PodClass
  | .type podType => podType
  | .function _ _ instanceType => instanceType

/-- A member is an object of its own for the validator. -/
def Member.isCallable : Member → Bool
  | .function _ | .staticMethod _ | .nestedType _ _ => true
  | .classMethod _ | .sagaStep _ => false
  | .other isCallable _ _ => isCallable

def Member.annotations : Member → AuthAnnotations
  | .function annotations | .staticMethod annotations | .classMethod annotations
  | .sagaStep annotations | .nestedType annotations _ | .other _ annotations _ => annotations

/-- The function of the bound method that an instance gives. -/
def Member.boundFunction : Member → Option AuthAnnotations
  | .function annotations => some annotations
  | .classMethod wrapped => some wrapped
  | .staticMethod _ | .sagaStep _ | .nestedType _ _ => none
  | .other _ _ bound => bound

/-- `has_auth_boundary_metadata` for a member. -/
def Member.hasAuthBoundaryMetadata (member : Member) : Bool :=
  sourceHasAuthMetadata member.annotations ||
    match member with
    | .nestedType _ hasMethodMetadata => hasMethodMetadata
    | _ => false

/-- `_metadata_sources` for a member and the class it was found in. -/
def Member.metadataSources (ownerType : PodClass) : Member → List AuthAnnotations
  | .nestedType annotations _ => [annotations]
  | member => [ownerType.annotations, member.annotations]

/-- `has_auth_boundary_metadata` for a class. -/
def PodClass.hasAuthBoundaryMetadata (podType : PodClass) : Bool :=
  sourceHasAuthMetadata podType.annotations ||
    podType.members.any fun entry =>
      entry.2.isCallable && sourceHasAuthMetadata entry.2.annotations

/-- A requirement that an authorization aspect evaluates on a call of a method with these
sources. -/
def EvaluatedFrom (sources : List AuthAnnotations) (requirement : AuthRequirement) : Prop :=
  ∃ metadata, getEffectiveAuthMetadata sources = .ok metadata ∧ requirement ∈ metadata.requirements

/-- A requirement that is enforced for a Pod: on a method of its instance, on a method that
the instance keeps, or on a saga step. -/
inductive RegisteredPod.Enforces (pod : RegisteredPod) (requirement : AuthRequirement) : Prop
  | method {name : String} {member : Member} {function : AuthAnnotations}
      (hmember : (name, member) ∈ pod.target.instanceType.members)
      (hbound : member.boundFunction = some function)
      (hevaluated : EvaluatedFrom [pod.target.instanceType.annotations, function] requirement)
  | stored {owner function : AuthAnnotations} (hstored : (owner, function) ∈ pod.stored)
      (hevaluated : EvaluatedFrom [owner, function] requirement)
  | sagaStep {name : String} {annotations : AuthAnnotations}
      (hmember : (name, .sagaStep annotations) ∈ pod.target.instanceType.members)
      (hcarried : requirement ∈ annotations.requirements)

/-- The Pods of a container, and what its Pods of the two types the validator looks for give:
whether snapshot propagation is enabled, and the contributions of the providers. -/
structure PodContainer where
  pods : List RegisteredPod
  snapshotPropagation : List Bool
  contributions : List AuthProviderContribution

structure AuthStartupCapabilityDiagnostic where
  capability : AuthCapability
  providerCount : Nat
  providerIds : List String
  requiredBy : List String

inductive StartupError where
  | conflictingAuthMetadata
  | capabilityValidation (diagnostics : List AuthStartupCapabilityDiagnostic)

/-- The sources whose metadata `_protected_metadata_sources` asks for, with their names. -/
def Target.boundaries : Target → List (List AuthAnnotations × String)
  | .type podType =>
    (if podType.hasAuthBoundaryMetadata then [([podType.annotations], podType.name)] else []) ++
      (podType.members.filter fun entry =>
        entry.2.isCallable && entry.2.hasAuthBoundaryMetadata).map fun entry =>
          (entry.2.metadataSources podType, podType.name ++ "." ++ entry.1)
  | .function name annotations _ =>
    if sourceHasAuthMetadata annotations then [([annotations], name)] else []

/-- `_protected_metadata_sources` -/
def protectedMetadataSources (target : Target) :
    Except AuthMetadataError (List (EffectiveAuthMetadata × String)) :=
  target.boundaries.mapM fun boundary => do
    return (← getEffectiveAuthMetadata boundary.1, boundary.2)

/-- What one source adds to the required capabilities. -/
def requiredBySource (found : EffectiveAuthMetadata × String) : List (AuthCapability × String) :=
  if found.1.isProtected then
    (.authentication, found.2) :: found.1.requirements.filterMap fun requirement =>
      (requirementCapability requirement.kind).map fun capability => (capability, found.2)
  else []

def requiredBySnapshots (enabled : Bool) : List (AuthCapability × String) :=
  if enabled then
    [(.snapshotSign, "AuthSnapshotPropagationConfig.enabled"),
      (.snapshotVerify, "AuthSnapshotPropagationConfig.enabled")]
  else []

variable (container : PodContainer)

/-- `_required_capabilities`, as the pairs of a capability and a source that requires it. -/
def PodContainer.requiredCapabilities :
    Except AuthMetadataError (List (AuthCapability × String)) := do
  let found ← container.pods.mapM fun pod => protectedMetadataSources pod.target
  return found.flatten.flatMap requiredBySource ++
    container.snapshotPropagation.flatMap requiredBySnapshots

/-- The providers of a capability. -/
def PodContainer.providerIds (capability : AuthCapability) : List String :=
  ((container.contributions.filter (·.supports capability)).map (·.providerId)).insertionSort
    (· ≤ ·)

/-- `_invalid_capability_diagnostics` -/
def PodContainer.invalidCapabilityDiagnostics (required : List (AuthCapability × String)) :
    List AuthStartupCapabilityDiagnostic :=
  let capabilities := (required.map (·.1)).dedup.insertionSort fun capability other =>
    capability.value ≤ other.value
  capabilities.filterMap fun capability =>
    let providerIds := container.providerIds capability
    if providerIds.length ≠ 1 then
      some
        { capability
          providerCount := providerIds.length
          providerIds
          requiredBy := ((required.filter (·.1 = capability)).map (·.2)).dedup.insertionSort
            (· ≤ ·) }
    else none

/-- `AuthCapabilityStartupValidator.validate` -/
def PodContainer.validate : Except StartupError Unit := do
  let required ← container.requiredCapabilities.mapError fun _ => .conflictingAuthMetadata
  let diagnostics := container.invalidCapabilityDiagnostics required
  if 0 < diagnostics.length then .error (.capabilityValidation diagnostics)

section Coverage

/-- A requirement where the validator looks for it. -/
def Target.Shows (requirement : AuthRequirement) : Target → Prop
  | .type podType =>
    requirement ∈ podType.annotations.requirements ∨
      ∃ entry ∈ podType.members, entry.2.isCallable = true ∧
        requirement ∈ entry.2.annotations.requirements
  | .function _ annotations _ => requirement ∈ annotations.requirements

/-- Metadata that the validator refuses. -/
def Target.Conflicts (target : Target) : Prop :=
  ∃ boundary ∈ target.boundaries,
    getEffectiveAuthMetadata boundary.1 = .error .conflictingAuthMetadata

variable {requirement : AuthRequirement}

theorem sourceHasAuthMetadata_of_mem {source : AuthAnnotations}
    (hmem : requirement ∈ source.requirements) : sourceHasAuthMetadata source = true := by
  have hpos : 0 < source.requirements.length := length_pos_of_mem hmem
  simp [sourceHasAuthMetadata, hpos]

variable {target : Target}

/-- The sources that the validator asks for have the requirements it is shown. -/
theorem shows_iff :
    target.Shows requirement ↔ ∃ boundary ∈ target.boundaries, ∃ source ∈ boundary.1,
      requirement ∈ source.requirements := by
  cases target with
  | function name annotations =>
    constructor
    · intro hmem
      have hmem : requirement ∈ annotations.requirements := hmem
      refine ⟨([annotations], name), ?_, annotations, .head _, hmem⟩
      simp [Target.boundaries, sourceHasAuthMetadata_of_mem hmem]
    · rintro ⟨_, hbnd, _, hsrc, hmem⟩
      simp only [Target.boundaries] at hbnd
      split at hbnd
      · obtain rfl := mem_singleton.mp hbnd
        obtain rfl := mem_singleton.mp hsrc
        exact hmem
      · cases hbnd
  | type podType =>
    constructor
    · rintro (hclass | ⟨entry, hentry, hcallable, hmem⟩)
      · have hmeta : podType.hasAuthBoundaryMetadata = true := by
          simp [PodClass.hasAuthBoundaryMetadata, sourceHasAuthMetadata_of_mem hclass]
        refine ⟨([podType.annotations], podType.name), ?_, podType.annotations,
          mem_cons_self, hclass⟩
        simp [Target.boundaries, hmeta]
      · have hmeta : entry.2.hasAuthBoundaryMetadata = true := by
          simp [Member.hasAuthBoundaryMetadata, sourceHasAuthMetadata_of_mem hmem]
        refine ⟨(entry.2.metadataSources podType, podType.name ++ "." ++ entry.1), ?_,
          entry.2.annotations, ?_, hmem⟩
        · apply mem_append_right
          apply mem_map.mpr
          exact ⟨entry, mem_filter.mpr ⟨hentry, by simp [hcallable, hmeta]⟩, rfl⟩
        · obtain ⟨_, member⟩ := entry
          cases member <;> simp [Member.metadataSources, Member.annotations]
    · rintro ⟨_, hbnd, source, hsrc, hmem⟩
      rcases mem_append.mp hbnd with hclass | hmember
      · split at hclass
        · obtain rfl := mem_singleton.mp hclass
          obtain rfl := mem_singleton.mp hsrc
          exact .inl hmem
        · cases hclass
      · obtain ⟨entry, hentry, rfl⟩ := mem_map.mp hmember
        obtain ⟨hentry, hfil⟩ := mem_filter.mp hentry
        have hcallable : entry.2.isCallable = true := (Bool.and_eq_true_iff.mp hfil).1
        obtain ⟨name, member⟩ := entry
        have hsrcs : source = podType.annotations ∨ source = member.annotations := by
          cases member with
          | nestedType =>
            exact .inr (mem_singleton.mp hsrc)
          | function | staticMethod | classMethod | sagaStep | other =>
            simpa [Member.metadataSources] using hsrc
        rcases hsrcs with rfl | rfl
        · exact .inl hmem
        · exact .inr ⟨(name, member), hentry, hcallable, hmem⟩

theorem shown_of_found {found : List (EffectiveAuthMetadata × String)}
    (hfound : protectedMetadataSources target = .ok found) :
    (∃ entry ∈ found, requirement ∈ entry.1.requirements) ↔ target.Shows requirement := by
  have hmem : ∀ entry, entry ∈ found ↔ ∃ boundary ∈ target.boundaries,
      getEffectiveAuthMetadata boundary.1 = .ok entry.1 ∧ boundary.2 = entry.2 := by
    intro entry
    rw [mem_of_mapM_ok hfound]
    constructor
    · rintro ⟨boundary, hbnd, hentry⟩
      obtain ⟨_, hmeta, hpair⟩ := except_bind_ok hentry
      cases hpair
      exact ⟨boundary, hbnd, hmeta, rfl⟩
    · rintro ⟨boundary, hbnd, hmeta, hname⟩
      refine ⟨boundary, hbnd, ?_⟩
      rw [hmeta, hname]
      rfl
  rw [shows_iff]
  constructor
  · rintro ⟨entry, hentry, hreq⟩
    obtain ⟨boundary, hbnd, hmeta, _⟩ := (hmem entry).mp hentry
    exact ⟨boundary, hbnd, (mem_effective_requirements hmeta).mp hreq⟩
  · rintro ⟨boundary, hbnd, hsrc⟩
    obtain ⟨_, hentry⟩ := mapM_ok_of_mem hfound hbnd
    obtain ⟨metadata, hmeta, hpair⟩ := except_bind_ok hentry
    cases hpair
    refine ⟨(metadata, boundary.2), (hmem _).mpr ⟨boundary, hbnd, hmeta, rfl⟩, ?_⟩
    exact (mem_effective_requirements hmeta).mpr hsrc

/-- The capabilities that a requirement needs. -/
def neededCapabilities (requirement : AuthRequirement) : List AuthCapability :=
  .authentication :: (requirementCapability requirement.kind).toList

variable {capability : AuthCapability}

theorem exists_requiredBySource {entry : EffectiveAuthMetadata × String} :
    (∃ source, (capability, source) ∈ requiredBySource entry) ↔
      ∃ requirement ∈ entry.1.requirements, capability ∈ neededCapabilities requirement := by
  unfold requiredBySource
  split
  case isFalse hfree =>
      have hnone : entry.1.requirements = [] := by
        by_contra hsome
        exact hfree (isProtected_iff.mpr hsome)
      simp [hnone]
  case isTrue hprot =>
      obtain ⟨first, hfirst⟩ := exists_mem_of_ne_nil _ (isProtected_iff.mp hprot)
      constructor
      · rintro ⟨_, hmem⟩
        rcases mem_cons.mp hmem with hauthentication | hcheck
        · cases hauthentication
          exact ⟨first, hfirst, .head _⟩
        · obtain ⟨requirement, hreq, hsome⟩ := mem_filterMap.mp hcheck
          obtain ⟨_, hneeded, hpair⟩ := Option.map_eq_some_iff.mp hsome
          cases hpair
          refine ⟨requirement, hreq, .tail _ ?_⟩
          exact Option.mem_toList.mpr hneeded
      · rintro ⟨requirement, hreq, hneeded⟩
        refine ⟨entry.2, ?_⟩
        rcases mem_cons.mp hneeded with rfl | hcheck
        · exact .head _
        · apply mem_cons_of_mem
          apply mem_filterMap.mpr
          refine ⟨requirement, hreq, ?_⟩
          rw [Option.mem_toList.mp hcheck]
          rfl

theorem not_mem_requiredBySnapshots (hsign : capability ≠ .snapshotSign)
    (hverify : capability ≠ .snapshotVerify) (enabled : Bool) (source : String) :
    (capability, source) ∉ requiredBySnapshots enabled := by
  intro hmem
  unfold requiredBySnapshots at hmem
  split at hmem
  · simp only [mem_cons, Prod.mk.injEq, not_mem_nil, or_false] at hmem
    rcases hmem with ⟨rfl, _⟩ | ⟨rfl, _⟩
    · exact hsign rfl
    · exact hverify rfl
  · cases hmem

variable {container : PodContainer} {required : List (AuthCapability × String)}

/-- A capability beside those for snapshots is computed if and only if a requirement that is
shown needs it. -/
theorem mem_requiredCapabilities (hreqd : container.requiredCapabilities = .ok required)
    (hsign : capability ≠ .snapshotSign) (hverify : capability ≠ .snapshotVerify) :
    capability ∈ required.map (·.1) ↔ ∃ pod ∈ container.pods, ∃ requirement,
      pod.target.Shows requirement ∧ capability ∈ neededCapabilities requirement := by
  obtain ⟨found, hfound, hpure⟩ := except_bind_ok hreqd
  cases hpure
  constructor
  · intro hmem
    obtain ⟨⟨_, source⟩, hpair, rfl⟩ := mem_map.mp hmem
    rcases mem_append.mp hpair with hsrc | hsnapshot
    · obtain ⟨entry, hentry, hadded⟩ := mem_flatMap.mp hsrc
      obtain ⟨_, hents, hentry⟩ := mem_flatten.mp hentry
      obtain ⟨pod, hpod, hsrcs⟩ := (mem_of_mapM_ok hfound).mp hents
      obtain ⟨requirement, hreq, hneeded⟩ := exists_requiredBySource.mp ⟨source, hadded⟩
      exact ⟨pod, hpod, requirement, (shown_of_found hsrcs).mp ⟨entry, hentry, hreq⟩, hneeded⟩
    · obtain ⟨enabled, _, hadded⟩ := mem_flatMap.mp hsnapshot
      exact absurd hadded (not_mem_requiredBySnapshots hsign hverify enabled source)
  · rintro ⟨pod, hpod, requirement, hshown, hneeded⟩
    obtain ⟨entries, hsrcs⟩ := mapM_ok_of_mem hfound hpod
    obtain ⟨entry, hentry, hreq⟩ := (shown_of_found hsrcs).mpr hshown
    obtain ⟨source, hadded⟩ := exists_requiredBySource.mpr ⟨requirement, hreq, hneeded⟩
    have hents : entries ∈ found := (mem_of_mapM_ok hfound).mpr ⟨pod, hpod, hsrcs⟩
    apply mem_map.mpr
    refine ⟨(capability, source), mem_append_left _ ?_, rfl⟩
    exact mem_flatMap.mpr ⟨entry, mem_flatten.mpr ⟨entries, hents, hentry⟩, hadded⟩

theorem protectedMetadataSources_error_iff :
    (∃ error, protectedMetadataSources target = .error error) ↔ target.Conflicts := by
  constructor
  · rintro ⟨error, herror⟩
    obtain ⟨boundary, hbnd, hfails⟩ := mapM_error herror
    refine ⟨boundary, hbnd, ?_⟩
    cases hmeta : getEffectiveAuthMetadata boundary.1 with
    | error conflict =>
      cases conflict
      rfl
    | ok =>
      rw [hmeta] at hfails
      cases hfails
  · rintro ⟨_, hbnd, hconflict⟩
    cases hsrcs : protectedMetadataSources target with
    | error error => exact ⟨error, rfl⟩
    | ok =>
      obtain ⟨_, hentry⟩ := mapM_ok_of_mem hsrcs hbnd
      rw [hconflict] at hentry
      cases hentry

/-- The computation fails if and only if a Pod has metadata that contradicts itself. -/
theorem requiredCapabilities_error_iff :
    (∃ error, container.requiredCapabilities = .error error) ↔
      ∃ pod ∈ container.pods, pod.target.Conflicts := by
  unfold PodContainer.requiredCapabilities
  cases hfound : container.pods.mapM fun pod => protectedMetadataSources pod.target with
  | error error =>
    obtain ⟨pod, hpod, hfails⟩ := mapM_error hfound
    have hconf := protectedMetadataSources_error_iff.mp ⟨error, hfails⟩
    exact ⟨fun _ => ⟨pod, hpod, hconf⟩, fun _ => ⟨error, rfl⟩⟩
  | ok =>
    constructor
    · rintro ⟨_, herror⟩
      cases herror
    · rintro ⟨_, hpod, hconf⟩
      obtain ⟨_, hents⟩ := mapM_ok_of_mem hfound hpod
      obtain ⟨_, herror⟩ := protectedMetadataSources_error_iff.mpr hconf
      rw [hents] at herror
      cases herror

theorem length_providerIds (container : PodContainer) (capability : AuthCapability) :
    (container.providerIds capability).length =
      (container.contributions.filter (·.supports capability)).length := by
  rw [PodContainer.providerIds, length_insertionSort, length_map]

/-- Start-up fails unless every computed capability has one provider. -/
theorem validate_error (hreqd : container.requiredCapabilities = .ok required)
    (hmem : capability ∈ required.map (·.1))
    (hproviders : (container.contributions.filter (·.supports capability)).length ≠ 1) :
    ∃ error, container.validate = .error error := by
  have hdiagnostics : 0 < (container.invalidCapabilityDiagnostics required).length := by
    have hlisted : capability ∈ (required.map (·.1)).dedup.insertionSort
        fun capability other => capability.value ≤ other.value :=
      (mem_insertionSort _).mpr (mem_dedup.mpr hmem)
    rw [← length_providerIds] at hproviders
    apply length_pos_of_mem
    apply mem_filterMap.mpr
    exact ⟨capability, hlisted, if_pos hproviders⟩
  refine ⟨.capabilityValidation (container.invalidCapabilityDiagnostics required), ?_⟩
  rw [PodContainer.validate, hreqd]
  exact if_pos hdiagnostics

/-- What start-up validation has to do about a capability: it is computed, and start-up fails
without a provider for it or with several. Contradictory metadata lets start-up fail in any
case. -/
structure PodContainer.Validates (container : PodContainer) (capability : AuthCapability) :
    Prop where
  computed : ∀ required, container.requiredCapabilities = .ok required →
    capability ∈ required.map (·.1)
  fails : (container.contributions.filter (·.supports capability)).length ≠ 1 →
    ∃ error, container.validate = .error error

theorem validates_of_conflicts (hconf : ∃ pod ∈ container.pods, pod.target.Conflicts)
    (capability : AuthCapability) : container.Validates capability := by
  obtain ⟨_, herror⟩ := requiredCapabilities_error_iff.mpr hconf
  constructor
  · intro required hreqd
    rw [herror] at hreqd
    cases hreqd
  · intro _
    refine ⟨.conflictingAuthMetadata, ?_⟩
    rw [PodContainer.validate, herror]
    rfl

theorem validates_iff (hfree : ¬ ∃ pod ∈ container.pods, pod.target.Conflicts)
    (hsign : capability ≠ .snapshotSign) (hverify : capability ≠ .snapshotVerify) :
    container.Validates capability ↔ ∃ pod ∈ container.pods, ∃ requirement,
      pod.target.Shows requirement ∧ capability ∈ neededCapabilities requirement := by
  cases hreqd : container.requiredCapabilities with
  | error error => exact absurd (requiredCapabilities_error_iff.mp ⟨error, hreqd⟩) hfree
  | ok required =>
    rw [← mem_requiredCapabilities hreqd hsign hverify]
    constructor
    · intro hvalidates
      exact hvalidates.computed required hreqd
    · intro hmem
      constructor
      · intro other hother
        rw [hreqd] at hother
        cases hother
        exact hmem
      · exact validate_error hreqd hmem

theorem requirementCapability_injective {kind other : AuthRequirementKind}
    (hkind : requirementCapability kind = some capability)
    (hother : requirementCapability other = some capability) : kind = other := by
  cases kind <;> cases other <;> cases hkind <;> first | rfl | cases hother

theorem neededCapabilities_ne_snapshot (hneeded : capability ∈ neededCapabilities requirement) :
    capability ≠ .snapshotSign ∧ capability ≠ .snapshotVerify := by
  rcases mem_cons.mp hneeded with rfl | hcheck
  · exact ⟨by simp, by simp⟩
  · have hkind := Option.mem_toList.mp hcheck
    cases hcase : requirement.kind <;> rw [hcase] at hkind <;> cases hkind <;>
      exact ⟨by simp, by simp⟩

/-- Every requirement that is enforced has a capability that is validated if and only if some
Pod contradicts itself, or a requirement of the same kind is shown. -/
theorem validates_enforced_iff (container : PodContainer) :
    (∀ pod ∈ container.pods, ∀ requirement, pod.Enforces requirement →
        ∀ capability ∈ neededCapabilities requirement, container.Validates capability) ↔
      (∃ pod ∈ container.pods, pod.target.Conflicts) ∨
        ∀ pod ∈ container.pods, ∀ requirement, pod.Enforces requirement →
          ∃ other ∈ container.pods, ∃ shown, other.target.Shows shown ∧
            (requirement.kind = .authenticated ∨ shown.kind = requirement.kind) := by
  by_cases hconflicts : ∃ pod ∈ container.pods, pod.target.Conflicts
  · refine ⟨fun _ => .inl hconflicts, fun _ pod _ requirement _ capability _ => ?_⟩
    exact validates_of_conflicts hconflicts capability
  · rw [or_iff_right hconflicts]
    have hvalidates : ∀ (requirement : AuthRequirement) capability,
        capability ∈ neededCapabilities requirement → (container.Validates capability ↔ _) :=
      fun requirement capability hneeded =>
        validates_iff hconflicts (neededCapabilities_ne_snapshot hneeded).1
          (neededCapabilities_ne_snapshot hneeded).2
    constructor
    · intro hall pod hpod requirement henforced
      cases hkind : requirementCapability requirement.kind with
      | none =>
        have hauthenticated : requirement.kind = .authenticated := by
          cases hcase : requirement.kind with
          | authenticated => rfl
          | permission | policy | relation | role | scope =>
            rw [hcase] at hkind
            cases hkind
        have hneeded : .authentication ∈ neededCapabilities requirement := .head _
        obtain ⟨other, hother, shown, hshown, _⟩ := (hvalidates _ _ hneeded).mp
          (hall pod hpod requirement henforced _ hneeded)
        exact ⟨other, hother, shown, hshown, .inl hauthenticated⟩
      | some capability =>
        have hneeded : capability ∈ neededCapabilities requirement :=
          .tail _ (Option.mem_toList.mpr hkind)
        obtain ⟨other, hother, shown, hshown, hsame⟩ := (hvalidates _ _ hneeded).mp
          (hall pod hpod requirement henforced _ hneeded)
        refine ⟨other, hother, shown, hshown, .inr ?_⟩
        rcases mem_cons.mp hsame with rfl | hcheck
        · cases hcase : requirement.kind <;> rw [hcase] at hkind <;> cases hkind
        · exact requirementCapability_injective (Option.mem_toList.mp hcheck) hkind
    · intro hall pod hpod requirement henforced capability hneeded
      apply (hvalidates requirement capability hneeded).mpr
      obtain ⟨other, hother, shown, hshown, hkinds⟩ := hall pod hpod requirement henforced
      refine ⟨other, hother, shown, hshown, ?_⟩
      rcases mem_cons.mp hneeded with rfl | hcheck
      · exact .head _
      · have hkind := Option.mem_toList.mp hcheck
        rcases hkinds with hauthenticated | hsame
        · rw [hauthenticated] at hkind
          cases hkind
        · rw [neededCapabilities, hsame, hkind]
          exact .tail _ (.head _)

/-- A class with a method for which a role is needed. -/
def ledger : PodClass where
  name := "app.Ledger"
  annotations := {}
  members := [("total", .function { requirements := [{ kind := .role, ref := "admin" }] })]

/-- The class is returned by a function Pod, and nobody provides role checks. -/
def ledgerByFunction : PodContainer where
  pods := [{ target := .function "app.make_ledger" {} ledger }]
  snapshotPropagation := []
  contributions := []

/-- A saga with a step for which a role is needed. -/
def sagaContainer : PodContainer where
  pods := [{ target := .type { ledger with
    members := [("pay", .sagaStep { requirements := [{ kind := .role, ref := "admin" }] })] } }]
  snapshotPropagation := []
  contributions := []

/-- The role is enforced on the ledger and on the saga step, and start-up ends well without
any provider. -/
theorem startup_misses_role :
    (∃ pod ∈ ledgerByFunction.pods, pod.Enforces { kind := .role, ref := "admin" }) ∧
      ledgerByFunction.requiredCapabilities = .ok [] ∧ ledgerByFunction.validate = .ok () ∧
      (∃ pod ∈ sagaContainer.pods, pod.Enforces { kind := .role, ref := "admin" }) ∧
      sagaContainer.requiredCapabilities = .ok [] ∧ sagaContainer.validate = .ok () := by
  refine ⟨⟨_, .head _, .method (.head _) rfl ⟨_, rfl, .head _⟩⟩,
    rfl, rfl, ⟨_, .head _, .sagaStep (.head _) (.head _)⟩, rfl, rfl⟩

end Coverage

end Spakky.Auth
