import Mathlib.Data.List.Basic

/-!
The metadata that the auth decorators put on classes and methods, and what is in
effect at a boundary that takes it from several of them.
-/

namespace Spakky.Auth

inductive AuthRequirementKind where
  | authenticated
  | permission
  | policy
  | relation
  | role
  | scope
  deriving DecidableEq, Repr

structure AuthRequirement where
  kind : AuthRequirementKind
  ref : String
  resource : Option String := none
  action : Option String := none
  tenant : Option String := none
  deriving DecidableEq, Repr

/-- What `PublicAccess.exists` and `ProtectedRequirement.all` find on one source. -/
structure AuthAnnotations where
  publicAccess : Bool := false
  requirements : List AuthRequirement := []
  deriving DecidableEq, Repr

structure EffectiveAuthMetadata where
  publicAccess : Bool
  requirements : List AuthRequirement
  deriving DecidableEq, Repr

def EffectiveAuthMetadata.isProtected (metadata : EffectiveAuthMetadata) : Bool :=
  0 < metadata.requirements.length

inductive AuthMetadataError where
  | conflictingAuthMetadata
  deriving DecidableEq, Repr

/-- `_source_has_auth_metadata` -/
def sourceHasAuthMetadata (source : AuthAnnotations) : Bool :=
  source.publicAccess || 0 < source.requirements.length

/-- `_dedupe_requirements` -/
def dedupeRequirements {α : Type} [DecidableEq α] (requirements : List α) : List α :=
  requirements.foldl
    (fun ordered requirement =>
      if requirement ∈ ordered then ordered else ordered ++ [requirement]) []

/-- `get_effective_auth_metadata`, from the sources of `_metadata_sources`. -/
def getEffectiveAuthMetadata (sources : List AuthAnnotations) :
    Except AuthMetadataError EffectiveAuthMetadata :=
  let isPublic := sources.any (·.publicAccess)
  let requirements := dedupeRequirements (sources.flatMap (·.requirements))
  if isPublic ∧ requirements ≠ [] then .error .conflictingAuthMetadata
  else .ok ⟨isPublic, requirements⟩

theorem mem_dedupe_aux {α : Type} [DecidableEq α] (requirements ordered : List α) (item : α) :
    item ∈ requirements.foldl
        (fun ordered requirement =>
          if requirement ∈ ordered then ordered else ordered ++ [requirement]) ordered ↔
      item ∈ ordered ∨ item ∈ requirements := by
  induction requirements generalizing ordered with
  | nil => simp
  | cons _ _ ih =>
    rw [List.foldl_cons, ih]
    split
    case isTrue hseen =>
        constructor
        · rintro (hmem | hmem)
          · exact .inl hmem
          · exact .inr (.tail _ hmem)
        · rintro (hmem | hmem)
          · exact .inl hmem
          · rcases List.mem_cons.mp hmem with rfl | hmem
            · exact .inl hseen
            · exact .inr hmem
    case isFalse =>
        simp [or_assoc]

@[simp] theorem mem_dedupeRequirements {α : Type} [DecidableEq α] {requirements : List α}
    {item : α} : item ∈ dedupeRequirements requirements ↔ item ∈ requirements := by
  rw [dedupeRequirements, mem_dedupe_aux]
  simp

variable {metadata : EffectiveAuthMetadata}

/-- Unless the sources contradict each other, the requirements in effect are those of all
sources. -/
theorem mem_effective_requirements {sources : List AuthAnnotations}
    (hmeta : getEffectiveAuthMetadata sources = .ok metadata) {requirement : AuthRequirement} :
    requirement ∈ metadata.requirements ↔
      ∃ source ∈ sources, requirement ∈ source.requirements := by
  unfold getEffectiveAuthMetadata at hmeta
  dsimp only at hmeta
  split at hmeta
  · cases hmeta
  · cases hmeta
    simp

theorem isProtected_iff : metadata.isProtected = true ↔ metadata.requirements ≠ [] := by
  simp [EffectiveAuthMetadata.isProtected, List.length_pos_iff]

end Spakky.Auth
