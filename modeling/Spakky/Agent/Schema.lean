import Spakky.Effect
import Spakky.Agent.Sensitivity

/-!
`_schema_for_annotation`: the JSON schema of a tool annotation and the
sensitive descriptors found on the way, or the error that says why there is no
schema. A dataclass adds its field name to the path, a list, a tuple, a
mapping and a union pass it on as it is.

Annotations are trees, which leaves out recursive dataclasses. `Annotated` of
an `Annotated` type cannot be built in Python, where the two are merged; here
it has no schema.
-/

namespace Spakky.Agent

open Effect SensitiveFieldDescriptor

inductive Primitive where
  | str
  | int
  | float
  | bool
  | noneType
  deriving DecidableEq, Repr

/-- `_PRIMITIVE_SCHEMA_TYPES` -/
def Primitive.schemaType : Primitive → String
  | .str => "string"
  | .int => "integer"
  | .float => "number"
  | .bool => "boolean"
  | .noneType => "null"

/-- An argument of `Annotated` after the first one. -/
inductive Metadata where
  | field (field : FieldMarker)
  | other
  deriving DecidableEq, Repr

/-- A tool annotation. A tuple type has either one item type for any number of
items or one for each of them, and a dataclass field is given by its name,
whether it is required, and its type. -/
inductive Annotation where
  | any
  | primitive (kind : Primitive)
  | annotated (type_ : Annotation) (metadata : List Metadata)
  | union (alternatives : List Annotation)
  | list (item : Annotation)
  | tupleOf (item : Annotation)
  | tuple (items : List Annotation)
  | mapping (stringKeys : Bool) (value : Annotation)
  | enum (members : List JsonValue)
  | dataclass (resolves : Bool) (fields : List (String × Bool × Annotation))
  | other

def fieldMarkers (metadata : List Metadata) : List FieldMarker :=
  metadata.filterMap fun
    | .field field => some field
    | .other => none

structure SchemaExtraction where
  schema : JsonObject
  sensitiveFields : List SensitiveFieldDescriptor := []

def jsonValueType : JsonValue → Option String
  | .boolean _ => some "boolean"
  | .string _ => some "string"
  | .integer _ => some "integer"
  | .number _ => some "number"
  | .null => some "null"
  | .array _ => none
  | .object _ => none

def enumSchema (members : List JsonValue) : Except AgentError JsonObject :=
  match members.mapM jsonValueType with
  | none => .error (.agentDefinitionError "Agent tool enum values must be JSON primitives")
  | some valueTypes =>
    match valueTypes.dedup with
    | [valueType] => .ok [("enum", .array members), ("type", .string valueType)]
    | _ => .ok [("enum", .array members)]

def mergeAnnotatedFields (extraction : SchemaExtraction)
    (annotatedSensitiveFields : List SensitiveFieldDescriptor) : SchemaExtraction :=
  { extraction with sensitiveFields := annotatedSensitiveFields ++ extraction.sensitiveFields }

def unionSchema (alternatives : List SchemaExtraction) : SchemaExtraction where
  schema := [("anyOf", .array (alternatives.map fun extracted => .object extracted.schema))]
  sensitiveFields := alternatives.flatMap SchemaExtraction.sensitiveFields

def arraySchema (item : SchemaExtraction) : SchemaExtraction where
  schema := [("type", .string "array"), ("items", .object item.schema)]
  sensitiveFields := item.sensitiveFields

def tupleSchema (items : List SchemaExtraction) : SchemaExtraction where
  schema := [("type", .string "array"),
    ("prefixItems", .array (items.map fun extracted => .object extracted.schema)),
    ("minItems", .integer items.length), ("maxItems", .integer items.length)]
  sensitiveFields := items.flatMap SchemaExtraction.sensitiveFields

def mappingSchema (value : SchemaExtraction) : SchemaExtraction where
  schema := [("type", .string "object"), ("additionalProperties", .object value.schema)]
  sensitiveFields := value.sensitiveFields

def dataclassSchema (fields : List (String × Bool × SchemaExtraction)) : SchemaExtraction where
  schema :=
    [("type", .string "object"),
      ("properties", .object (fields.map fun field => (field.1, .object field.2.2.schema))),
      ("additionalProperties", .boolean false)] ++
    match (fields.filter fun field => field.2.1).map fun field => JsonValue.string field.1 with
    | [] => []
    | required => [("required", .array required)]
  sensitiveFields := fields.flatMap fun field => field.2.2.sensitiveFields

mutual

def schemaForAnnotation (hint : Annotation) (label : String) (path : List String) :
    Except AgentError SchemaExtraction :=
  match hint with
  | .any => .error (.agentDefinitionError (label ++ " cannot use Any"))
  | .primitive kind => .ok { schema := [("type", .string kind.schemaType)] }
  | .annotated type_ metadata =>
    match type_ with
    | .annotated _ _ =>
      .error (.agentDefinitionError (label ++ " is not JSON-schema compatible"))
    | type_ => do
        let extraction ← schemaForAnnotation type_ label path
        pure (mergeAnnotatedFields extraction ((fieldMarkers metadata).map fun f => ⟨path, f⟩))
  | .union alternatives => do
      let extracted ← schemasFor alternatives label path
      pure (unionSchema extracted)
  | .list item => do
      let extracted ← schemaForAnnotation item label path
      pure (arraySchema extracted)
  | .tupleOf item => do
      let extracted ← schemaForAnnotation item label path
      pure (arraySchema extracted)
  | .tuple items => do
      let extracted ← schemasFor items label path
      pure (tupleSchema extracted)
  | .mapping stringKeys value =>
    if stringKeys then do
      let extracted ← schemaForAnnotation value label path
      pure (mappingSchema extracted)
    else .error (.agentDefinitionError (label ++ " mapping keys must be strings"))
  | .enum members => do
      let schema ← enumSchema members
      pure { schema }
  | .dataclass resolves fields =>
    if resolves then do
      let extracted ← schemasForFields fields label path
      pure (dataclassSchema extracted)
    else .error (.agentDefinitionError (label ++ " dataclass annotations cannot be resolved"))
  | .other => .error (.agentDefinitionError (label ++ " is not JSON-schema compatible"))
termination_by structural hint

def schemasFor (annotations : List Annotation) (label : String) (path : List String) :
    Except AgentError (List SchemaExtraction) :=
  match annotations with
  | [] => .ok []
  | hint :: rest => do
      let extracted ← schemaForAnnotation hint label path
      let later ← schemasFor rest label path
      pure (extracted :: later)
termination_by structural annotations

def schemasForFields (fields : List (String × Bool × Annotation)) (label : String)
    (path : List String) : Except AgentError (List (String × Bool × SchemaExtraction)) :=
  match fields with
  | [] => .ok []
  | (name, required, hint) :: rest => do
      let extracted ← schemaForAnnotation hint (label ++ "." ++ name) (path ++ [name])
      let later ← schemasForFields rest label path
      pure ((name, required, extracted) :: later)
termination_by structural fields

end

def SensitiveFieldDescriptor.under (path : List String) (descriptor : SensitiveFieldDescriptor) :
    SensitiveFieldDescriptor :=
  { descriptor with path := path ++ descriptor.path }

mutual

/-- The markers in an annotation, each with the dataclass fields on the way to
it. -/
def declared (hint : Annotation) : List SensitiveFieldDescriptor :=
  match hint with
  | .annotated type_ metadata => (fieldMarkers metadata).map (⟨[], ·⟩) ++ declared type_
  | .union alternatives => declaredIn alternatives
  | .list item => declared item
  | .tupleOf item => declared item
  | .tuple items => declaredIn items
  | .mapping _ value => declared value
  | .dataclass _ fields => declaredFields fields
  | .any => []
  | .primitive _ => []
  | .enum _ => []
  | .other => []
termination_by structural hint

def declaredIn (annotations : List Annotation) : List SensitiveFieldDescriptor :=
  match annotations with
  | [] => []
  | hint :: rest => declared hint ++ declaredIn rest
termination_by structural annotations

def declaredFields (fields : List (String × Bool × Annotation)) : List SensitiveFieldDescriptor :=
  match fields with
  | [] => []
  | (name, _, hint) :: rest =>
    (declared hint).map (under [name]) ++ declaredFields rest
termination_by structural fields

end

theorem under_under (path names : List String) (descriptors : List SensitiveFieldDescriptor) :
    (descriptors.map (under names)).map
        (under path) =
      descriptors.map (under (path ++ names)) := by
  simp [under, Function.comp_def]

theorem under_root (descriptors : List SensitiveFieldDescriptor) :
    descriptors.map (under []) = descriptors := by
  have hid : under [] = id := rfl
  rw [hid, List.map_id]

mutual

/-- The extracted descriptors are the declared markers. -/
theorem schemaForAnnotation_fields (hint : Annotation) (label : String) (path : List String)
    (extraction : SchemaExtraction) (hsch : schemaForAnnotation hint label path = .ok extraction) :
    extraction.sensitiveFields = (declared hint).map (.under path) := by
  match hint with
  | .any => cases hsch
  | .other => cases hsch
  | .primitive kind =>
    cases hsch
    rfl
  | .enum members =>
    obtain ⟨schema, _, hres⟩ := except_bind_ok hsch
    cases hres
    rfl
  | .annotated type_ metadata =>
    have hmerge : ∃ inner, schemaForAnnotation type_ label path = .ok inner ∧
        extraction = mergeAnnotatedFields inner
          ((fieldMarkers metadata).map fun f => ⟨path, f⟩) := by
      cases type_ with
      | annotated => cases hsch
      | _ =>
        obtain ⟨inner, hinner, hres⟩ := except_bind_ok hsch
        cases hres
        exact ⟨inner, hinner, rfl⟩
    obtain ⟨inner, hinner, rfl⟩ := hmerge
    have hfields := schemaForAnnotation_fields type_ label path inner hinner
    rw [mergeAnnotatedFields, hfields, declared, List.map_append, List.map_map]
    simp [under, Function.comp_def]
  | .union annotations | .tuple annotations =>
    obtain ⟨extracted, hextr, hres⟩ := except_bind_ok hsch
    cases hres
    exact schemasFor_fields annotations label path extracted hextr
  | .list item | .tupleOf item =>
    obtain ⟨extracted, hextr, hres⟩ := except_bind_ok hsch
    cases hres
    exact schemaForAnnotation_fields item label path extracted hextr
  | .mapping stringKeys value =>
    cases stringKeys with
    | false => cases hsch
    | true =>
      obtain ⟨extracted, hextr, hres⟩ := except_bind_ok hsch
      cases hres
      exact schemaForAnnotation_fields value label path extracted hextr
  | .dataclass resolves fields =>
    cases resolves with
    | false => cases hsch
    | true =>
      obtain ⟨extracted, hextr, hres⟩ := except_bind_ok hsch
      cases hres
      exact schemasForFields_fields fields label path extracted hextr
termination_by structural hint

theorem schemasFor_fields (annotations : List Annotation) (label : String) (path : List String)
    (extracted : List SchemaExtraction)
    (hschemas : schemasFor annotations label path = .ok extracted) :
    extracted.flatMap SchemaExtraction.sensitiveFields =
      (declaredIn annotations).map (.under path) := by
  match annotations with
  | [] =>
    cases hschemas
    rfl
  | hint :: rest =>
    obtain ⟨first, hfirst, hrest⟩ := except_bind_ok hschemas
    obtain ⟨later, hlater, hres⟩ := except_bind_ok hrest
    cases hres
    rw [List.flatMap_cons, schemaForAnnotation_fields hint label path first hfirst,
      schemasFor_fields rest label path later hlater, declaredIn, List.map_append]
termination_by structural annotations

theorem schemasForFields_fields (fields : List (String × Bool × Annotation)) (label : String)
    (path : List String) (extracted : List (String × Bool × SchemaExtraction))
    (hschemas : schemasForFields fields label path = .ok extracted) :
    (extracted.flatMap fun field => field.2.2.sensitiveFields) =
      (declaredFields fields).map (.under path) := by
  match fields with
  | [] =>
    cases hschemas
    rfl
  | (name, required, hint) :: rest =>
    obtain ⟨first, hfirst, hrest⟩ := except_bind_ok hschemas
    obtain ⟨later, hlater, hres⟩ := except_bind_ok hrest
    cases hres
    rw [List.flatMap_cons,
      schemaForAnnotation_fields hint (label ++ "." ++ name) (path ++ [name]) first hfirst,
      schemasForFields_fields rest label path later hlater, declaredFields, List.map_append,
      under_under]
termination_by structural fields

end

end Spakky.Agent
