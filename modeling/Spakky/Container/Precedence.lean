import Spakky.Container.Resolution

/-!
The precedence of the rules by which a Pod is selected, in terms of the set of
Pods of the requested type: what each rule selects is the only Pod of the set
with some property. `Registry.resolveCandidate` selects exactly that Pod.
-/

namespace Spakky.Container

open List

/-- The only Pod of a set with the property. -/
def Only (pods : Set Pod) (property : Pod → Prop) (pod : Pod) : Prop :=
  pod ∈ pods ∧ property pod ∧ ∀ other ∈ pods, property other → other = pod

variable {pods : Set Pod}

theorem Only.unique {property : Pod → Prop} {pod other : Pod} (hpod : Only pods property pod)
    (hother : Only pods property other) : pod = other :=
  hother.2.2 pod hpod.1 hpod.2.1

/-- The Pods that a binding is about. -/
def PodBinding.Targets (binding : PodBinding) (pod : Pod) : Prop :=
  match binding.implementationName with
  | some name => pod.name = name
  | none => some pod.type_ = binding.implementationType

/-- What is asked for, with the binding of the requested type. -/
structure Request where
  binding : Option PodBinding
  name : Option String
  qualifiers : List Qualifier
  nameIsDependencyParameter : Bool

namespace Request

variable (request : Request) (pods : Set Pod)

def explicitName : Option String :=
  if request.nameIsDependencyParameter then none else request.name

def parameterName : Option String :=
  if request.nameIsDependencyParameter then request.name else none

/-- The choice where nothing is configured: the only Pod, else the only primary
Pod, else, where none is primary, the Pod of the parameter's name. -/
def ChosenByDefault (pod : Pod) : Prop :=
  Only pods (fun _ => True) pod ∨
    (¬ ∃ alone, Only pods (fun _ => True) alone) ∧
      (Only pods (fun other => other.isPrimary = true) pod ∨
        (∀ other ∈ pods, other.isPrimary = false) ∧
          ∃ name, request.parameterName = some name ∧
            Only pods (fun other => other.name = name) pod)

/-- The Pod that the rules select. -/
def Chosen (pod : Pod) : Prop :=
  if request.qualifiers ≠ [] then
    Only pods (fun other => qualifies request.qualifiers other = true) pod
  else
    match request.explicitName with
    | some name => Only pods (fun other => other.name = name) pod
    | none =>
      match request.binding with
      | some binding => Only pods binding.Targets pod
      | none => request.ChosenByDefault pods pod

/-- There is no Pod of the type, no qualified one, or none of the explicit
name. -/
def Absent : Prop :=
  pods = ∅ ∨
    if request.qualifiers ≠ [] then ∀ pod ∈ pods, qualifies request.qualifiers pod = false
    else ∃ name, request.explicitName = some name ∧ ∀ pod ∈ pods, pod.name ≠ name

/-- The binding is reached and has no unique target. -/
def Unbound (binding : PodBinding) : Prop :=
  pods.Nonempty ∧ request.qualifiers = [] ∧ request.explicitName = none ∧
    request.binding = some binding ∧ ¬ ∃ pod, Only pods binding.Targets pod

variable {request : Request} {pods : Set Pod} {pod other : Pod}

theorem ChosenByDefault.unique (hpod : request.ChosenByDefault pods pod)
    (hother : request.ChosenByDefault pods other) : pod = other := by
  rcases hpod with hpod | ⟨hcrowd, hpod⟩
  · rcases hother with hother | ⟨hcrowd, -⟩
    · exact hpod.unique hother
    · exact absurd ⟨pod, hpod⟩ hcrowd
  · rcases hother with hother | ⟨-, hother⟩
    · exact absurd ⟨other, hother⟩ hcrowd
    rcases hpod with hpod | ⟨hplain, _, hname, hpod⟩
    · rcases hother with hother | ⟨hplain, -⟩
      · exact hpod.unique hother
      · exact absurd (hplain pod hpod.1) (by simp [hpod.2.1])
    · rcases hother with hother | ⟨-, _, hname', hother⟩
      · exact absurd (hplain other hother.1) (by simp [hother.2.1])
      · rw [hname] at hname'
        cases hname'
        exact hpod.unique hother

section

variable (hpod : request.Chosen pods pod)
include hpod

/-- The rules never select two Pods. -/
theorem Chosen.unique (hother : request.Chosen pods other) : pod = other := by
  unfold Chosen at hpod hother
  split at hpod
  · rw [if_pos ‹_›] at hother
    exact hpod.unique hother
  · rw [if_neg ‹_›] at hother
    cases hexpl : request.explicitName with
    | some =>
      simp only [hexpl] at hpod hother
      exact hpod.unique hother
    | none =>
      cases hbinding : request.binding with
      | some | none =>
        simp only [hexpl, hbinding] at hpod hother
        exact hpod.unique hother

theorem Chosen.mem : pod ∈ pods := by
  unfold Chosen at hpod
  split at hpod
  · exact hpod.1
  · split at hpod
    · exact hpod.1
    · split at hpod
      · exact hpod.1
      · rcases hpod with hpod | ⟨-, hpod | ⟨-, _, -, hpod⟩⟩
        · exact hpod.1
        · exact hpod.1
        · exact hpod.1

theorem Chosen.not_absent : ¬ request.Absent pods := by
  rintro (rfl | habs)
  · exact hpod.mem
  · unfold Chosen at hpod
    split at habs
    next hqual =>
      rw [if_pos hqual] at hpod
      exact absurd (habs pod hpod.1) (by simp [hpod.2.1])
    next hqual =>
      rw [if_neg hqual] at hpod
      obtain ⟨_, hexpl, hnone⟩ := habs
      simp only [hexpl] at hpod
      exact hnone pod hpod.1 hpod.2.1

theorem Chosen.not_unbound (binding : PodBinding) : ¬ request.Unbound pods binding := by
  rintro ⟨-, hquals, hexpl, hbinding, hnone⟩
  unfold Chosen at hpod
  simp only [hquals, hexpl, hbinding] at hpod
  exact hnone ⟨pod, hpod⟩

end

theorem Absent.not_unbound (habs : request.Absent pods) (binding : PodBinding) :
    ¬ request.Unbound pods binding := by
  rintro ⟨hsome, hquals, hexpl, -, -⟩
  rcases habs with rfl | habs
  · exact Set.not_nonempty_empty hsome
  · rw [if_neg (by simp [hquals])] at habs
    obtain ⟨_, hname, -⟩ := habs
    rw [hexpl] at hname
    cases hname

end Request

/-- What `__resolve_candidate` may end with, for the rules. -/
inductive Decides (request : Request) (pods : Set Pod) :
    Except ContainerError (Option Pod) → Prop where
  | chosen (pod : Pod) (hchosen : request.Chosen pods pod) : Decides request pods (.ok (some pod))
  | absent (habs : request.Absent pods) : Decides request pods (.ok none)
  | unbound (binding : PodBinding) (hunb : request.Unbound pods binding) :
      Decides request pods (.error (.noSuchPodBindingTarget binding))
  | ambiguous (type_ : PyType) (candidates : List PodCandidateDiagnostic) (hints : List String)
      (hnone : ∀ pod, ¬ request.Chosen pods pod) (hpres : ¬ request.Absent pods)
      (hbound : ∀ binding, ¬ request.Unbound pods binding) :
      Decides request pods (.error (.noUniquePod type_ candidates hints))

section Candidates

variable {candidates : List Pod}

abbrev among (candidates : List Pod) : Set Pod := {pod | pod ∈ candidates}

theorem not_only_of_ne {pods : Set Pod} {property : Pod → Prop} {first second : Pod}
    (hfirst : first ∈ pods) (hsnd : second ∈ pods) (hne : first ≠ second) (hfirst' : property first)
    (hsnd' : property second) (pod : Pod) : ¬ Only pods property pod := by
  intro honly
  exact hne ((honly.2.2 first hfirst hfirst').trans (honly.2.2 second hsnd hsnd').symm)

/-- A set of Pods without two of one name holds at most one of a name. -/
theorem only_of_name (hnames : (candidates.map (·.name)).Nodup) {pod : Pod}
    (hpod : pod ∈ candidates) : Only (among candidates) (fun other => other.name = pod.name) pod :=
  ⟨hpod, rfl, fun _ hother hname => inj_on_of_nodup_map hnames hother hpod hname⟩

/-- A filter of a set of Pods is empty, decisive or ambiguous. -/
theorem byCount_filter {β : Type} (hnodup : candidates.Nodup) {selects : Pod → Bool}
    (property : Pod → Prop) (hproperty : ∀ pod, selects pod = true ↔ property pod) {P : β → Prop}
    {none : β} {one : Pod → β} {many : List Pod → β}
    (hnone : (∀ pod ∈ candidates, ¬ property pod) → P none)
    (hone : ∀ pod, Only (among candidates) property pod → P (one pod))
    (hmany : ∀ first ∈ candidates, property first →
      (∀ pod, ¬ Only (among candidates) property pod) → P (many (candidates.filter selects))) :
    P (byCount (candidates.filter selects) none one many) := by
  have hmem : ∀ pod, pod ∈ candidates.filter selects ↔ pod ∈ candidates ∧ property pod := by
    intro pod
    rw [mem_filter, hproperty]
  have hfiltered : (candidates.filter selects).Nodup := hnodup.filter _
  match hfil : candidates.filter selects with
  | [] =>
    refine hnone fun pod hpod hholds => ?_
    have hin := (hmem pod).mpr ⟨hpod, hholds⟩
    rw [hfil] at hin
    cases hin
  | [pod] =>
    rw [hfil] at hmem
    obtain ⟨hpod, hholds⟩ := (hmem pod).mp (mem_singleton_self pod)
    refine hone pod ⟨hpod, hholds, ?_⟩
    intro other hother hother'
    exact mem_singleton.mp ((hmem other).mpr ⟨hother, hother'⟩)
  | first :: second :: rest =>
    rw [hfil] at hmem hfiltered hmany
    obtain ⟨hfirst, hfirst'⟩ := (hmem first).mp (.head _)
    obtain ⟨hsnd, hsnd'⟩ := (hmem second).mp (.tail _ (.head _))
    refine hmany first hfirst hfirst' (not_only_of_ne hfirst hsnd ?_ hfirst' hsnd')
    rintro rfl
    exact (nodup_cons.mp hfiltered).1 (.head _)

variable {request : Request}

/-- A type with Pods is not absent where neither qualifiers nor an explicit
name are given. -/
theorem not_absent (hquals : request.qualifiers = []) (hexpl : request.explicitName = none)
    (hsome : candidates ≠ []) : ¬ request.Absent (among candidates) := by
  rintro (hempty | habs)
  · exact hsome (eq_nil_iff_forall_not_mem.mpr (Set.eq_empty_iff_forall_notMem.mp hempty))
  · simp [hquals, hexpl] at habs

theorem not_unbound (hbinding : request.binding = none) (binding : PodBinding) :
    ¬ request.Unbound (among candidates) binding := by
  rintro ⟨-, -, -, hreached, -⟩
  rw [hbinding] at hreached
  cases hreached

theorem resolveByParameterName_decides (hnames : (candidates.map (·.name)).Nodup)
    (hquals : request.qualifiers = []) (hexpl : request.explicitName = none)
    (hbinding : request.binding = none) (hsome : candidates ≠ [])
    (hcrowd : ¬ ∃ alone, Only (among candidates) (fun _ => True) alone)
    (hplain : ∀ pod ∈ candidates, pod.isPrimary = false) (type_ : PyType) :
    Decides request (among candidates)
      (resolveByParameterName type_ candidates request.name request.nameIsDependencyParameter) := by
  have hchosen : ∀ pod, request.Chosen (among candidates) pod ↔
      ∃ name, request.parameterName = some name ∧
        Only (among candidates) (fun other => other.name = name) pod := by
    intro pod
    have halone : ¬ Only (among candidates) (fun _ => True) pod := fun honly =>
      hcrowd ⟨pod, honly⟩
    have hprim : ¬ Only (among candidates) (fun other => other.isPrimary = true) pod :=
      fun honly => absurd (hplain pod honly.1) (by simp [honly.2.1])
    simp only [Request.Chosen, hquals, hexpl, hbinding, Request.ChosenByDefault, halone,
      hcrowd, hprim]
    simpa using fun _ _ _ => hplain
  have hpres := not_absent hquals hexpl hsome
  unfold resolveByParameterName
  split
  next name hname hparam =>
    have hparameterName : request.parameterName = some name := by
      simp [Request.parameterName, hname, hparam]
    refine byCount_filter (Nodup.of_map _ hnames) _ (fun _ => beq_iff_eq) ?_ ?_ ?_
    · intro hnone
      refine .ambiguous _ _ _ ?_ hpres (not_unbound hbinding)
      intro pod hpod
      obtain ⟨_, hname', honly⟩ := (hchosen pod).mp hpod
      rw [hparameterName] at hname'
      cases hname'
      exact hnone pod honly.1 honly.2.1
    · exact fun pod honly => .chosen pod ((hchosen pod).mpr ⟨name, hparameterName, honly⟩)
    · rintro first hfirst rfl hnone
      exact absurd (only_of_name hnames hfirst) (hnone first)
  next name parameter hother =>
    refine .ambiguous _ _ _ ?_ hpres (not_unbound hbinding)
    intro pod hpod
    obtain ⟨name', hname', -⟩ := (hchosen pod).mp hpod
    unfold Request.parameterName at hname'
    split at hname'
    next hparam => exact hother name' hname' hparam
    next => cases hname'

/-- A binding that is configured selects its only target or raises. -/
inductive Binds (binding : PodBinding) (candidates : List Pod) :
    Except ContainerError (Option Pod) → Prop where
  | target (pod : Pod) (honly : Only (among candidates) binding.Targets pod) :
      Binds binding candidates (.ok (some pod))
  | missing (hnone : ∀ pod, ¬ Only (among candidates) binding.Targets pod) :
      Binds binding candidates (.error (.noSuchPodBindingTarget binding))

theorem resolveBindingCandidate_binds (hnodup : candidates.Nodup) (binding : PodBinding) :
    Binds binding candidates (resolveBindingCandidate (some binding) candidates) := by
  have hnone : (∀ pod ∈ candidates, ¬ binding.Targets pod) →
      Binds binding candidates (.error (.noSuchPodBindingTarget binding)) :=
    fun hnone => .missing fun pod honly => hnone pod honly.1 honly.2.1
  cases hname : binding.implementationName with
  | some | none =>
    simp only [resolveBindingCandidate, hname]
    refine byCount_filter hnodup binding.Targets ?_ hnone .target fun _ _ _ => .missing
    intro pod
    simp [PodBinding.Targets, hname]

theorem resolveByPolicy_decides (hnames : (candidates.map (·.name)).Nodup)
    (hquals : request.qualifiers = []) (hexpl : request.explicitName = none)
    (hsome : candidates ≠ []) (type_ : PyType) :
    Decides request (among candidates)
      (resolveByPolicy request.binding type_ candidates request.name
        request.nameIsDependencyParameter) := by
  have hnodup : candidates.Nodup := Nodup.of_map _ hnames
  unfold resolveByPolicy
  cases hbinding : request.binding with
  | some binding =>
    have hbinds := resolveBindingCandidate_binds hnodup binding
    generalize resolveBindingCandidate (some binding) candidates = result at hbinds
    cases hbinds with
    | target pod honly =>
      refine .chosen pod ?_
      simpa [Request.Chosen, hquals, hexpl, hbinding] using honly
    | missing hnone =>
      refine .unbound binding ⟨?_, hquals, hexpl, hbinding, not_exists.mpr hnone⟩
      exact exists_mem_of_ne_nil _ hsome
  | none =>
    have hchosen : ∀ pod, request.Chosen (among candidates) pod ↔
        request.ChosenByDefault (among candidates) pod := by
      intro pod
      simp [Request.Chosen, hquals, hexpl, hbinding]
    have hall : candidates.filter (fun _ => true) = candidates := filter_true _
    simp only [resolveBindingCandidate]
    nth_rewrite 2 [← hall]
    refine byCount_filter hnodup (fun _ => True) (fun _ => iff_of_true rfl trivial) ?_ ?_ ?_
    · intro hempty
      obtain ⟨pod, hpod⟩ := exists_mem_of_ne_nil _ hsome
      exact absurd trivial (hempty pod hpod)
    · exact fun pod honly => .chosen pod ((hchosen pod).mpr (.inl honly))
    intro _ _ _ hnotAlone
    have hcrowd := not_exists.mpr hnotAlone
    rw [hall]
    refine byCount_filter hnodup _ (fun _ => .rfl) ?_ ?_ ?_
    · intro hnone
      refine resolveByParameterName_decides hnames hquals hexpl hbinding hsome hcrowd ?_ type_
      exact fun pod hpod => Bool.eq_false_iff.mpr (hnone pod hpod)
    · exact fun pod honly => .chosen pod ((hchosen pod).mpr (.inr ⟨hcrowd, .inl honly⟩))
    · intro first hfirst hprimary hnone
      refine .ambiguous _ _ _ ?_ (not_absent hquals hexpl hsome) (not_unbound hbinding)
      intro pod hpod
      rcases (hchosen pod).mp hpod with halone | ⟨-, honly | ⟨hplain, -⟩⟩
      · exact hcrowd ⟨pod, halone⟩
      · exact hnone pod honly
      · exact absurd (hplain first hfirst) (by simp [hprimary])

theorem resolveAmong_decides (hnames : (candidates.map (·.name)).Nodup) (type_ : PyType) :
    Decides request (among candidates)
      (resolveAmong request.binding type_ candidates request.name request.qualifiers
        request.nameIsDependencyParameter) := by
  have hnodup : candidates.Nodup := Nodup.of_map _ hnames
  unfold resolveAmong
  split
  next hempty =>
    rw [List.isEmpty_iff.mp hempty]
    exact .absent (.inl (by simp [among]))
  next hsome =>
    have hsome : candidates ≠ [] := fun hnil => hsome (List.isEmpty_iff.mpr hnil)
    split
    next hempty =>
      have hquals := List.isEmpty_iff.mp hempty
      split
      next name hname hparam =>
        have hexpl : request.explicitName = some name := by
          simp [Request.explicitName, hname, hparam]
        refine byCount_filter hnodup _ (fun _ => beq_iff_eq) ?_ ?_ ?_
        · intro hnone
          refine .absent (.inr ?_)
          rw [if_neg (by simp [hquals])]
          exact ⟨name, hexpl, hnone⟩
        · intro pod honly
          refine .chosen pod ?_
          simpa [Request.Chosen, hquals, hexpl] using honly
        · rintro first hfirst rfl hnone
          exact absurd (only_of_name hnames hfirst) (hnone first)
      next name parameter hother =>
        apply resolveByPolicy_decides hnames hquals ?_ hsome
        unfold Request.explicitName
        split
        · rfl
        next hparam =>
          cases hname : request.name with
          | none => rfl
          | some name => exact (hother name hname (Bool.eq_false_iff.mpr hparam)).elim
    next hqual =>
      have hqual : request.qualifiers ≠ [] := fun hnil =>
        hqual (List.isEmpty_iff.mpr hnil)
      have hchosen : ∀ pod, request.Chosen (among candidates) pod ↔ Only (among candidates)
          (fun other => qualifies request.qualifiers other = true) pod := by
        intro pod
        simp [Request.Chosen, hqual]
      refine byCount_filter hnodup _ (fun _ => .rfl) ?_ ?_ ?_
      · intro hnone
        refine .absent (.inr ?_)
        rw [if_pos hqual]
        exact fun pod hpod => Bool.eq_false_iff.mpr (hnone pod hpod)
      · exact fun pod honly => .chosen pod ((hchosen pod).mpr honly)
      · intro first hfirst hqualified hnone
        refine .ambiguous _ _ _ (fun pod hpod => hnone pod ((hchosen pod).mp hpod)) ?_ ?_
        · rintro (hempty | habs)
          · exact Set.eq_empty_iff_forall_notMem.mp hempty first hfirst
          · rw [if_pos hqual] at habs
            exact absurd (habs first hfirst) (by simp [hqualified])
        · rintro binding ⟨-, hquals, -⟩
          exact hqual hquals

end Candidates

variable {request : Request} {result : Except ContainerError (Option Pod)}

section

variable (hdecides : Decides request pods result)
include hdecides

theorem Decides.ok_some_iff (pod : Pod) : result = .ok (some pod) ↔ request.Chosen pods pod := by
  cases hdecides with
  | chosen _ hchosen =>
    constructor
    · rintro ⟨⟩
      exact hchosen
    · intro hpod
      rw [hpod.unique hchosen]
  | absent habs => exact ⟨nofun, fun hpod => absurd habs hpod.not_absent⟩
  | unbound binding hunb =>
    exact ⟨nofun, fun hpod => absurd hunb (hpod.not_unbound binding)⟩
  | ambiguous _ _ _ hnone =>
    exact ⟨nofun, fun hpod => absurd hpod (hnone pod)⟩

theorem Decides.ok_none_iff : result = .ok none ↔ request.Absent pods := by
  cases hdecides with
  | chosen _ hchosen => exact ⟨nofun, fun habs => absurd habs hchosen.not_absent⟩
  | absent habs => exact ⟨fun _ => habs, fun _ => rfl⟩
  | unbound binding hunb =>
    exact ⟨nofun, fun habs => absurd hunb (habs.not_unbound binding)⟩
  | ambiguous _ _ _ _ hpres =>
    exact ⟨nofun, fun habs => absurd habs hpres⟩

theorem Decides.noSuchPodBindingTarget_iff (binding : PodBinding) :
    result = .error (.noSuchPodBindingTarget binding) ↔ request.Unbound pods binding := by
  cases hdecides with
  | chosen _ hchosen =>
    exact ⟨nofun, fun hunb => absurd hunb (hchosen.not_unbound binding)⟩
  | absent habs => exact ⟨nofun, fun hunb => absurd hunb (habs.not_unbound binding)⟩
  | unbound _ hunb =>
    constructor
    · rintro ⟨⟩
      exact hunb
    · rintro ⟨-, -, -, hbinding, -⟩
      obtain ⟨-, -, -, hother, -⟩ := hunb
      rw [hbinding] at hother
      cases hother
      rfl
  | ambiguous _ _ _ _ _ hbound =>
    exact ⟨nofun, fun hunb => absurd hunb (hbound binding)⟩

theorem Decides.noUniquePod_iff :
    (∃ type_ candidates hints, result = .error (.noUniquePod type_ candidates hints)) ↔
      (∀ pod, ¬ request.Chosen pods pod) ∧ ¬ request.Absent pods ∧
        ∀ binding, ¬ request.Unbound pods binding := by
  cases hdecides with
  | chosen pod hchosen => exact ⟨nofun, fun hnone => absurd hchosen (hnone.1 pod)⟩
  | absent habs => exact ⟨nofun, fun hnone => absurd habs hnone.2.1⟩
  | unbound binding hunb => exact ⟨nofun, fun hnone => absurd hunb (hnone.2.2 binding)⟩
  | ambiguous type_ candidates hints hnone hpres hbound =>
    exact ⟨fun _ => ⟨hnone, hpres, hbound⟩, fun _ => ⟨type_, candidates, hints, rfl⟩⟩

end

namespace Registry

/-- The registered Pods of a type. -/
def podsOf (registry : Registry) (type_ : PyType) : Set Pod :=
  {pod | pod ∈ registry.pods ∧ pod.isFamilyWith type_ = true}

theorem names_typeCache_nodup (registry : Registry) (type_ : PyType) :
    ((registry.typeCache type_).map (·.name)).Nodup := by
  rw [registry.indexed]
  exact nodup_filter registry.names_nodup _

theorem resolveCandidate_decides (registry : Registry) (type_ : PyType) (name : Option String)
    (qualifiers : List Qualifier) (nameIsDependencyParameter : Bool) :
    Decides ⟨registry.bindings type_, name, qualifiers, nameIsDependencyParameter⟩
      (registry.podsOf type_)
      (registry.resolveCandidate type_ name qualifiers nameIsDependencyParameter) := by
  have hpods : registry.podsOf type_ = {pod | pod ∈ registry.typeCache type_} := by
    ext pod
    exact mem_typeCache.symm
  rw [hpods]
  exact resolveAmong_decides (registry.names_typeCache_nodup type_) type_

/-- `__resolve_candidate` returns the Pod that the rules select, returns nothing
where it is absent, raises the binding error where a binding without a unique
target is reached and the ambiguity error otherwise, in whichever order the set
of Pods is iterated. -/
theorem resolveCandidate_follows_precedence (registry : Registry) (type_ : PyType)
    (name : Option String) (qualifiers : List Qualifier) (nameIsDependencyParameter : Bool) :
    let request : Request :=
      ⟨registry.bindings type_, name, qualifiers, nameIsDependencyParameter⟩
    let pods := registry.podsOf type_
    let result := registry.resolveCandidate type_ name qualifiers nameIsDependencyParameter
    (∀ pod, result = .ok (some pod) ↔ request.Chosen pods pod) ∧
    (result = .ok none ↔ request.Absent pods) ∧
    (∀ binding, result = .error (.noSuchPodBindingTarget binding) ↔ request.Unbound pods binding) ∧
    ((∃ type_ candidates hints, result = .error (.noUniquePod type_ candidates hints)) ↔
      (∀ pod, ¬ request.Chosen pods pod) ∧ ¬ request.Absent pods ∧
        ∀ binding, ¬ request.Unbound pods binding) ∧
    ∀ order : List Pod, (registry.typeCache type_).Perm order →
      resolveAmong (registry.bindings type_) type_ order name qualifiers
        nameIsDependencyParameter = result := by
  intro request pods result
  have hdecides : Decides request pods result := resolveCandidate_decides ..
  refine ⟨hdecides.ok_some_iff, hdecides.ok_none_iff, hdecides.noSuchPodBindingTarget_iff,
    hdecides.noUniquePod_iff, ?_⟩
  intro order hperm
  exact (resolveAmong_perm hperm (registry.names_typeCache_nodup type_) _ _ _ _ _).symm

/-- Two notifiers, each of which may be marked as primary. -/
def notifierPods (emailPrimary smsPrimary : Bool) : List Pod :=
  [{ id := 1, name := "email", type_ := ⟨1, "EmailNotifier"⟩, baseTypes := [⟨0, "Notifier"⟩],
     isPrimary := emailPrimary },
   { id := 2, name := "sms", type_ := ⟨2, "SmsNotifier"⟩, baseTypes := [⟨0, "Notifier"⟩],
     isPrimary := smsPrimary }]

def notifiers (emailPrimary smsPrimary : Bool) : Registry where
  pods := notifierPods emailPrimary smsPrimary
  typeCache type_ := (notifierPods emailPrimary smsPrimary).filter (·.isFamilyWith type_)
  forwardTypeMap _ := none
  bindings _ := none
  names_nodup := by
    change ["email", "sms"].Nodup
    decide
  indexed _ := rfl

theorem resolveCandidate_follows_precedence_notifiers :
    ((notifiers true false).typeCache ⟨0, "Notifier"⟩).Perm
      ((notifiers true false).typeCache ⟨0, "Notifier"⟩).reverse ∧
    (resolveAmong none ⟨0, "Notifier"⟩
        ((notifiers true false).typeCache ⟨0, "Notifier"⟩).reverse (some "sms") []
        true).toOption.map (·.map (·.name)) = some (some "email") :=
  have hperm := (reverse_perm ((notifiers true false).typeCache ⟨0, "Notifier"⟩)).symm
  ⟨hperm, by
    rw [← show (notifiers true false).bindings ⟨0, "Notifier"⟩ = none from rfl,
      (resolveCandidate_follows_precedence (notifiers true false) ⟨0, "Notifier"⟩ (some "sms") []
        true).2.2.2.2 _ hperm]
    rfl⟩

/-- With two primary candidates the name of the parameter is not used, although
there is exactly one Pod of that name. -/
theorem parameter_name_unused_with_two_primaries :
    (∃ pod, Only ((notifiers true true).podsOf ⟨0, "Notifier"⟩) (fun pod => pod.name = "sms")
      pod) ∧
    (¬ ∃ pod, Only ((notifiers true true).podsOf ⟨0, "Notifier"⟩)
      (fun pod => pod.isPrimary = true) pod) ∧
    ∃ candidates hints, (notifiers true true).resolveCandidate ⟨0, "Notifier"⟩ (some "sms") []
      true = .error (.noUniquePod ⟨0, "Notifier"⟩ candidates hints) := by
  have hemail : ((notifiers true true).pods.get ⟨0, by decide⟩) ∈
      (notifiers true true).podsOf ⟨0, "Notifier"⟩ := ⟨get_mem _ _, by decide⟩
  have hsms : ((notifiers true true).pods.get ⟨1, by decide⟩) ∈
      (notifiers true true).podsOf ⟨0, "Notifier"⟩ := ⟨get_mem _ _, by decide⟩
  refine ⟨⟨_, hsms, rfl, ?_⟩, ?_, _, _, rfl⟩
  · intro other hother hname
    exact eq_of_name hother.1 hsms.1 hname
  · rintro ⟨pod, honly⟩
    refine not_only_of_ne hemail hsms ?_ (by rfl) (by rfl) pod honly
    intro hsame
    exact absurd (congrArg (fun pod : Pod => pod.name) hsame) (by decide)

end Registry

end Spakky.Container
