import Spakky.Agent.Guarding
import Spakky.Agent.Schema

/-!
Whether guarding a tool value leaks a value that the policy hides. The types
say where such values stand, through lists, tuples and mappings as well; the
descriptors extracted from the same types name only the dataclass fields on
the way. A sensitive dataclass field below a list, a tuple or a mapping is
therefore looked for in the wrong place, and stays in the guarded value.
-/

namespace Spakky.Agent

open List

/-- Whether two JSON primitives are the same. -/
def sameScalar : JsonValue → JsonValue → Bool
  | .null, .null => true
  | .boolean a, .boolean b => a == b
  | .integer a, .integer b => a == b
  | .number a, .number b => a == b
  | .string a, .string b => a == b
  | _, _ => false

def Primitive.conforms : Primitive → JsonValue → Bool
  | .str, .string _ => true
  | .int, .integer _ => true
  | .float, .number _ => true
  | .float, .integer _ => true
  | .bool, .boolean _ => true
  | .noneType, .null => true
  | _, _ => false

mutual

/-- The value is one of the type. -/
def conforms (hint : Annotation) (value : JsonValue) : Bool :=
  match hint, value with
  | .primitive kind, value => kind.conforms value
  | .annotated type_ _, value => conforms type_ value
  | .union alternatives, value => conformsToOne alternatives value
  | .list item, .array items => items.all fun child => conforms item child
  | .tupleOf item, .array items => items.all fun child => conforms item child
  | .tuple types, .array items => conformsEach types items
  | .mapping _ item, .object entries => entries.all fun entry => conforms item entry.2
  | .enum members, value => members.any fun member => sameScalar member value
  | .dataclass _ fields, .object entries =>
    (entries.all fun entry => fields.any fun field => field.1 == entry.1) &&
      conformsFields fields entries
  | _, _ => false
termination_by structural hint

def conformsToOne (alternatives : List Annotation) (value : JsonValue) : Bool :=
  match alternatives with
  | [] => false
  | alternative :: rest => conforms alternative value || conformsToOne rest value
termination_by structural alternatives

def conformsEach (types : List Annotation) (items : List JsonValue) : Bool :=
  match types, items with
  | [], [] => true
  | type_ :: types, item :: items => conforms type_ item && conformsEach types items
  | _, _ => false
termination_by structural types

def conformsFields (fields : List (String × Bool × Annotation)) (entries : JsonObject) : Bool :=
  match fields with
  | [] => true
  | (name, required, hint) :: rest =>
    (match entries.lookup name with
      | some child => conforms hint child
      | none => !required) && conformsFields rest entries
termination_by structural fields

end

/-- A value whose type is annotated with a sensitive field, and where it
stands. -/
structure Marking where
  position : List Step
  field : FieldMarker
  value : JsonValue

def Marking.below (step : Step) (marking : Marking) : Marking :=
  { marking with position := step :: marking.position }

mutual

/-- The annotated positions of a value. In a union those of the alternatives
count that the value conforms to. -/
def marked (hint : Annotation) (value : JsonValue) : List Marking :=
  match hint, value with
  | .annotated type_ metadata, value =>
    (fieldMarkers metadata).map (⟨[], ·, value⟩) ++ marked type_ value
  | .union alternatives, value => markedAlternatives alternatives value
  | .list item, .array items =>
    items.zipIdx.flatMap fun entry => (marked item entry.1).map (.below (.index entry.2))
  | .tupleOf item, .array items =>
    items.zipIdx.flatMap fun entry => (marked item entry.1).map (.below (.index entry.2))
  | .tuple types, .array items => markedItems types items 0
  | .mapping _ item, .object entries =>
    entries.flatMap fun entry =>
      ((entries.lookup entry.1).map (marked item)).getD [] |>.map (.below (.key entry.1))
  | .dataclass _ fields, .object entries => markedFields fields entries
  | _, _ => []
termination_by structural hint

def markedAlternatives (alternatives : List Annotation) (value : JsonValue) : List Marking :=
  match alternatives with
  | [] => []
  | alternative :: rest =>
    (if conforms alternative value then marked alternative value else []) ++
      markedAlternatives rest value
termination_by structural alternatives

def markedItems (types : List Annotation) (items : List JsonValue) (i : Nat) : List Marking :=
  match types, items with
  | type_ :: types, item :: items =>
    (marked type_ item).map (.below (.index i)) ++ markedItems types items (i + 1)
  | _, _ => []
termination_by structural types

def markedFields (fields : List (String × Bool × Annotation)) (entries : JsonObject) :
    List Marking :=
  match fields with
  | [] => []
  | (name, _, hint) :: rest =>
    (((entries.lookup name).map (marked hint)).getD []).map (.below (.key name)) ++
      markedFields rest entries
termination_by structural fields

end

/-- No marker stands below a dataclass field. -/
def fieldless (descriptors : List SensitiveFieldDescriptor) : Bool :=
  descriptors.all fun descriptor => descriptor.path.isEmpty

mutual

/-- No sensitive dataclass field stands below a list, a tuple or a mapping. -/
def flat (hint : Annotation) : Bool :=
  match hint with
  | .annotated type_ _ => flat type_
  | .union alternatives => flatIn alternatives
  | .list item => fieldless (declared item)
  | .tupleOf item => fieldless (declared item)
  | .tuple items => fieldless (declaredIn items)
  | .mapping _ value => fieldless (declared value)
  | .dataclass _ fields => flatFields fields
  | _ => true
termination_by structural hint

def flatIn (annotations : List Annotation) : Bool :=
  match annotations with
  | [] => true
  | hint :: rest => flat hint && flatIn rest
termination_by structural annotations

def flatFields (fields : List (String × Bool × Annotation)) : Bool :=
  match fields with
  | [] => true
  | (_, _, hint) :: rest => flat hint && flatFields rest
termination_by structural fields

end

/-- A marked value stands at its position, and its marker is declared; in a
flat type the declared path leads to the position or to something around it. -/
structure Placed (descriptors : List SensitiveFieldDescriptor) (isFlat : Bool) (value : JsonValue)
    (marking : Marking) : Prop where
  stands : value.at? marking.position = some marking.value
  declared : ∃ descriptor ∈ descriptors, descriptor.field = marking.field ∧
    (isFlat = true → descriptor.path.map .key <+: marking.position)

namespace Placed

variable {descriptors more : List SensitiveFieldDescriptor} {isFlat isFlat' : Bool}
  {value child : JsonValue} {marking : Marking}

theorem mono (hplaced : Placed descriptors isFlat value marking) (hsub : descriptors ⊆ more)
    (hflat : isFlat' = true → isFlat = true) : Placed more isFlat' value marking := by
  obtain ⟨hstands, descriptor, hmem, hfield, hpath⟩ := hplaced
  exact ⟨hstands, descriptor, hsub hmem, hfield, fun h => hpath (hflat h)⟩

/-- Below a container that adds nothing to the path, only an empty path still
leads to the position. -/
theorem inside (hplaced : Placed descriptors isFlat child marking) {step : Step}
    (hstep : value.at? (step :: marking.position) = child.at? marking.position) :
    Placed descriptors (fieldless descriptors) value (marking.below step) := by
  obtain ⟨hstands, descriptor, hmem, hfield, _⟩ := hplaced
  refine ⟨hstep.trans hstands, descriptor, hmem, hfield, ?_⟩
  intro hfieldless
  have hpath : descriptor.path = [] := by
    simpa using all_eq_true.mp hfieldless descriptor hmem
  rw [hpath]
  exact nil_prefix

/-- Below a dataclass the field name is added to both. -/
theorem inField (hplaced : Placed descriptors isFlat child marking) {entries : JsonObject}
    {name : String} (hchild : entries.lookup name = some child) :
    Placed (descriptors.map (.under [name])) isFlat (.object entries)
      (marking.below (.key name)) := by
  obtain ⟨hstands, descriptor, hmem, hfield, hpath⟩ := hplaced
  refine ⟨?_, descriptor.under [name], mem_map_of_mem hmem, hfield, ?_⟩
  · rw [Marking.below, JsonValue.at?_object, hchild]
    exact hstands
  · intro hflat
    exact cons_prefix_cons.mpr ⟨rfl, hpath hflat⟩

end Placed

mutual

theorem marked_placed (hint : Annotation) (value : JsonValue) (marking : Marking)
    (hmarked : marking ∈ marked hint value) : Placed (declared hint) (flat hint) value marking := by
  match hint, value with
  | .any, value => cases hmarked
  | .other, value => cases hmarked
  | .primitive kind, value => cases hmarked
  | .enum members, value => cases hmarked
  | .annotated type_ metadata, value =>
    rw [marked, mem_append] at hmarked
    rcases hmarked with hhere | hinner
    · obtain ⟨field, hfield, rfl⟩ := mem_map.mp hhere
      refine ⟨JsonValue.at?_nil value, ⟨[], field⟩, ?_, rfl, fun _ => nil_prefix⟩
      exact mem_append_left _ (mem_map_of_mem hfield)
    · apply (marked_placed type_ value marking hinner).mono
      · rw [declared]
        exact subset_append_right _ _
      · exact id
  | .union alternatives, value => exact markedAlternatives_placed alternatives value marking hmarked
  | .list item, .array items | .tupleOf item, .array items =>
    obtain ⟨entry, hentry, hbelow⟩ := mem_flatMap.mp hmarked
    obtain ⟨inner, hinner, rfl⟩ := mem_map.mp hbelow
    apply (marked_placed item entry.1 inner hinner).inside
    rw [JsonValue.at?_array, mem_zipIdx_iff_getElem?.mp hentry]
    rfl
  | .tuple types, .array items =>
    exact markedItems_placed types items 0 items (by simp) marking hmarked
  | .mapping stringKeys item, .object entries =>
    obtain ⟨entry, _, hbelow⟩ := mem_flatMap.mp hmarked
    obtain ⟨inner, hinner, rfl⟩ := mem_map.mp hbelow
    cases hchild : entries.lookup entry.1 with
    | none =>
      rw [hchild] at hinner
      cases hinner
    | some child =>
      rw [hchild] at hinner
      apply (marked_placed item child inner hinner).inside
      rw [JsonValue.at?_object, hchild]
      rfl
  | .dataclass resolves fields, .object entries =>
    exact markedFields_placed fields entries marking hmarked
termination_by structural hint

theorem markedAlternatives_placed (alternatives : List Annotation) (value : JsonValue)
    (marking : Marking) (hmarked : marking ∈ markedAlternatives alternatives value) :
    Placed (declaredIn alternatives) (flatIn alternatives) value marking := by
  match alternatives with
  | [] => cases hmarked
  | alternative :: rest =>
    rw [markedAlternatives, mem_append] at hmarked
    rcases hmarked with hfirst | hrest
    · split at hfirst
      · apply (marked_placed alternative value marking hfirst).mono
        · exact subset_append_left _ _
        · exact fun h => (Bool.and_eq_true_iff.mp h).1
      · cases hfirst
    · apply (markedAlternatives_placed rest value marking hrest).mono
      · exact subset_append_right _ _
      · exact fun h => (Bool.and_eq_true_iff.mp h).2
termination_by structural alternatives

theorem markedItems_placed (types : List Annotation) (items : List JsonValue) (i : Nat)
    (all : List JsonValue) (hall : ∀ k : Nat, items[k]? = all[i + k]?) (marking : Marking)
    (hmarked : marking ∈ markedItems types items i) :
    Placed (declaredIn types) (fieldless (declaredIn types)) (.array all) marking := by
  match types, items with
  | [], _ => cases hmarked
  | type_ :: types, [] => cases hmarked
  | type_ :: types, item :: items =>
    rw [markedItems, mem_append] at hmarked
    have hsplit : fieldless (declaredIn (type_ :: types)) = true →
        fieldless (declared type_) = true ∧ fieldless (declaredIn types) = true := by
      intro h
      rw [declaredIn, fieldless, all_append] at h
      exact Bool.and_eq_true_iff.mp h
    rcases hmarked with hfirst | hrest
    · obtain ⟨inner, hinner, rfl⟩ := mem_map.mp hfirst
      have hhere : all[i]? = some item := (hall 0).symm
      have hstep : (JsonValue.array all).at? (.index i :: inner.position) =
          item.at? inner.position := by
        rw [JsonValue.at?_array, hhere]
        rfl
      apply ((marked_placed type_ item inner hinner).inside hstep).mono
      · rw [declaredIn]
        exact subset_append_left _ _
      · exact fun h => (hsplit h).1
    · have hlater : ∀ k : Nat, items[k]? = all[i + 1 + k]? := by
        intro k
        rw [Nat.add_assoc, Nat.add_comm 1 k, ← hall (k + 1), getElem?_cons_succ]
      apply (markedItems_placed types items (i + 1) all hlater marking hrest).mono
      · rw [declaredIn]
        exact subset_append_right _ _
      · exact fun h => (hsplit h).2
termination_by structural types

theorem markedFields_placed (fields : List (String × Bool × Annotation)) (entries : JsonObject)
    (marking : Marking) (hmarked : marking ∈ markedFields fields entries) :
    Placed (declaredFields fields) (flatFields fields) (.object entries) marking := by
  match fields with
  | [] => cases hmarked
  | (name, required, hint) :: rest =>
    rw [markedFields, mem_append] at hmarked
    rcases hmarked with hfirst | hrest
    · obtain ⟨inner, hinner, rfl⟩ := mem_map.mp hfirst
      cases hchild : entries.lookup name with
      | none =>
        rw [hchild] at hinner
        cases hinner
      | some child =>
        rw [hchild] at hinner
        apply ((marked_placed hint child inner hinner).inField hchild).mono
        · exact subset_append_left _ _
        · exact fun h => (Bool.and_eq_true_iff.mp h).1
    · apply (markedFields_placed rest entries marking hrest).mono
      · exact subset_append_right _ _
      · exact fun h => (Bool.and_eq_true_iff.mp h).2
termination_by structural fields

end

section Leaks

variable (runtime : Runtime) (policy : ExposurePolicy) (fields : List SensitiveFieldDescriptor)
  (hint : Annotation) (value : JsonValue)

/-- At every position whose type is annotated with a field that the policy
hides, the guarded value has a replacement or nothing. -/
def LeaksNothing : Prop :=
  ∀ marking ∈ marked hint value, policy.canExposeValue marking.field = false →
    Protected runtime policy fields value marking.position marking.value

/-- For every such position some hidden marker is declared on a path of
dataclass fields that leads to it or to something around it, or the value
there is its own replacement. -/
def WellPlaced : Prop :=
  ∀ marking ∈ marked hint value, policy.canExposeValue marking.field = false →
    Covered policy (declared hint) marking.position ∨
      Masked runtime policy (declared hint) marking.value marking.value

variable {hint}

/-- In a flat type everything is well placed, whatever the value. -/
theorem wellPlaced_of_flat (hflat : flat hint = true) : WellPlaced runtime policy hint value := by
  intro marking hmarked hhidden
  obtain ⟨_, descriptor, hmem, hfield, hpath⟩ := marked_placed hint value marking hmarked
  refine .inl ⟨descriptor, hmem, ?_, .inl (hpath hflat)⟩
  rwa [hfield]

variable {fields value}

/-- If the hidden fields all replace by the same scalar, that is what a
replaced value becomes. -/
theorem masked_constant {found guarded : JsonValue} (replacement : JsonValue)
    (hconst : ∀ step, Guards policy fields step → ∀ value,
      guardScalar runtime policy value step.field = replacement)
    (hscalar : replacement.isScalar = true)
    (hmasked : Masked runtime policy fields found guarded) : guarded = replacement := by
  obtain ⟨steps, hsteps, hwhole, rfl⟩ := hmasked
  have hstays : ∀ steps, (∀ step ∈ steps, Guards policy fields step) →
      guardJsonValue runtime policy replacement steps = replacement := by
    intro steps
    induction steps with
    | nil => exact fun _ => rfl
    | cons step _ ih =>
      intro hsteps
      obtain ⟨hstep, hrest⟩ := forall_mem_cons.mp hsteps
      have hsame : guardJsonPath runtime policy replacement step.path step.field = replacement := by
        cases step.path with
        | nil => exact hconst step hstep replacement
        | cons =>
          cases replacement with
          | object => cases hscalar
          | _ => rfl
      rw [guardJsonValue_cons, hsame]
      exact ih hrest
  induction steps generalizing found with
  | nil => simp at hwhole
  | cons _ steps ih =>
    obtain ⟨hstep, hrest⟩ := forall_mem_cons.mp hsteps
    rw [guardJsonValue_cons]
    rcases hwhole with ⟨first, hmem, hpath⟩
    rcases mem_cons.mp hmem with rfl | hlater
    · rw [hpath, guardJsonPath, hconst first hstep]
      exact hstays steps hrest
    · exact ih hrest ⟨first, hlater, hpath⟩

end Leaks

def emailField : FieldMarker := .sensitive { category := .pii .email }

/-- A dataclass `User` with `email: Annotated[str, SensitiveField(PII.EMAIL)]`. -/
def userAnnotation : Annotation :=
  .dataclass true [("email", true, .annotated (.primitive .str) [.field emailField])]

def userValue : JsonValue := .object [("email", .string "owner@example.com")]

def hidingPolicy : ExposurePolicy := .context {}

end Spakky.Agent
