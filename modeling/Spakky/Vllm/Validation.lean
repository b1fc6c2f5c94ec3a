import Spakky.Agent.Types
import Spakky.Effect

/-!
The validation of decoded JSON against the schema of a tool or of a structured
output, and the readers of single JSON members: the part of `VllmAgentModel` that
raises `VllmResponseError` on what a provider may send.
-/

namespace Spakky.Vllm

open Agent

/-- The `AbstractVllmError`s, and any exception that is none. -/
inductive VllmError where
  | transport
  | timeout
  | response
  | constrainedDecodingUnsupported
  | streamingDisabled
  | modelRefusal
  | foreign
  deriving DecidableEq, Repr

/-- How `json.loads` fails: an integer of too many digits and too deep a nesting are no
`JSONDecodeError`. -/
inductive LoadsError where
  | jsonDecodeError
  | other
  deriving DecidableEq, Repr

/-- Python's decoding of a JSON text, and its equality of decoded values. -/
structure Decoder where
  loads : String → Except LoadsError JsonValue
  equal : JsonValue → JsonValue → Bool

/-- `dict.get` -/
def get (entries : JsonObject) (key : String) : JsonValue := (entries.lookup key).getD .null

def expectMapping : JsonValue → Except VllmError JsonObject
  | .object entries => .ok entries
  | _ => .error .response

def expectSequence : JsonValue → Except VllmError (List JsonValue)
  | .array items => .ok items
  | _ => .error .response

def optionalString : JsonValue → Except VllmError (Option String)
  | .null => .ok none
  | .string value => .ok (some value)
  | _ => .error .response

/-- Python's booleans are integers. -/
def optionalInt : JsonValue → Except VllmError (Option Int)
  | .null => .ok none
  | .integer value => .ok (some value)
  | .boolean value => .ok (some (if value then 1 else 0))
  | _ => .error .response

theorem sizeOf_lookup {entries : JsonObject} {key : String} {value : JsonValue}
    (hvalue : entries.lookup key = some value) : sizeOf value < sizeOf entries := by
  induction entries with
  | nil => cases hvalue
  | cons entry _ ih =>
    obtain ⟨_, _⟩ := entry
    rw [List.lookup_cons] at hvalue
    split at hvalue
    · cases hvalue
      simp only [List.cons.sizeOf_spec, Prod.mk.sizeOf_spec]
      omega
    · have := ih hvalue
      simp only [List.cons.sizeOf_spec]
      omega

theorem sizeOf_get {entries : JsonObject} {key : String} {value : JsonValue}
    (hvalue : get entries key = value) (hnull : value ≠ .null) : sizeOf value < sizeOf entries := by
  unfold get at hvalue
  cases hlook : entries.lookup key with
  | none =>
    rw [hlook] at hvalue
    exact absurd hvalue.symm hnull
  | some =>
    rw [hlook] at hvalue
    exact hvalue ▸ sizeOf_lookup hlook

section Validation

variable (decoder : Decoder)

/-- `_validate_enum` -/
def validateEnum (value : JsonValue) : JsonValue → Except VllmError Unit
  | .array enumValues => if enumValues.any (decoder.equal value) then .ok () else .error .response
  | _ => .error .response

/-- The schema types without a structure. A type of another name accepts everything. -/
def validatePrimitive (value : JsonValue) (schemaType : String) : Except VllmError Unit :=
  match schemaType, value with
  | "string", .string _ | "integer", .integer _ | "number", .integer _ | "number", .number _
  | "boolean", .boolean _ | "null", .null => .ok ()
  | "string", _ | "integer", _ | "number", _ | "boolean", _ | "null", _ => .error .response
  | _, _ => .ok ()

/-- The `required` keys of a schema are strings, and keys of the value. -/
def validateRequired (entries : JsonObject) (schema : JsonObject) : Except VllmError Unit :=
  match schema.lookup "required" with
  | none => .ok ()
  | some (.array required) =>
    required.forM fun
      | .string key => if (entries.lookup key).isSome then .ok () else .error .response
      | _ => .error .response
  | some _ => .error .response

/-- The bounds on the number of items. -/
def validateLength (items : List JsonValue) (schema : JsonObject) : Except VllmError Unit := do
  let minItems ← optionalInt (get schema "minItems")
  if minItems.any ((items.length : Int) < ·) then throw .response
  let maxItems ← optionalInt (get schema "maxItems")
  if maxItems.any ((items.length : Int) > ·) then throw .response

mutual

/-- `_validate_json_value` -/
def validateJsonValue (value : JsonValue) (schema : JsonObject) : Except VllmError Unit :=
  match _halternatives : get schema "anyOf" with
  | .array alternatives => validateAnyOf value alternatives
  | .null => do
      match get schema "enum" with
      | .null => pure ()
      | enumValues => validateEnum decoder value enumValues
      match ← optionalString (get schema "type") with
      | none => pure ()
      | some "object" => validateObject value schema
      | some "array" => validateArray value schema
      | some schemaType => validatePrimitive value schemaType
  | _ => .error .response
termination_by (sizeOf schema, 1)
decreasing_by
  · have := sizeOf_get _halternatives (by simp)
    simp only [JsonValue.array.sizeOf_spec] at this
    exact Prod.Lex.left _ _ (by omega)
  · exact Prod.Lex.right _ (by omega)
  · exact Prod.Lex.right _ (by omega)

/-- `_validate_any_of` -/
def validateAnyOf (value : JsonValue) (alternatives : List JsonValue) : Except VllmError Unit :=
  match alternatives with
  | [] => .error .response
  | .object schema :: rest =>
    match validateJsonValue value schema with
    | .error .response => validateAnyOf value rest
    | outcome => outcome
  | _ :: _ => .error .response
termination_by (sizeOf alternatives, 0)
decreasing_by
  · apply Prod.Lex.left
    simp only [List.cons.sizeOf_spec, JsonValue.object.sizeOf_spec]
    omega
  · apply Prod.Lex.left
    simp only [List.cons.sizeOf_spec, JsonValue.object.sizeOf_spec]
    omega

/-- `_validate_object`. A property without a schema is an additional one. -/
def validateObject (value : JsonValue) (schema : JsonObject) : Except VllmError Unit := do
  let entries ← expectMapping value
  validateRequired entries schema
  match _hproperties : (schema.lookup "properties").getD (.object []) with
  | .object properties =>
    entries.forM fun entry =>
      match _hproperty : get properties entry.1 with
      | .object propertySchema =>
        validateJsonValue entry.2 propertySchema
      | .null =>
        match _hadditional : schema.lookup "additionalProperties" with
        | none | some (.boolean true) => .ok ()
        | some (.object additionalSchema) => validateJsonValue entry.2 additionalSchema
        | some _ => .error .response
      | _ => .error .response
  | _ => .error .response
termination_by (sizeOf schema, 0)
decreasing_by
  · have hinner := sizeOf_get _hproperty (by simp)
    cases hlook : schema.lookup "properties" with
    | none =>
      rw [hlook] at _hproperties
      cases _hproperties
      cases _hproperty
    | some =>
      rw [hlook] at _hproperties
      have houter := sizeOf_lookup hlook
      simp only [Option.getD_some] at _hproperties
      rw [_hproperties] at houter
      simp only [JsonValue.object.sizeOf_spec] at hinner houter
      exact Prod.Lex.left _ _ (by omega)
  · have := sizeOf_lookup _hadditional
    simp only [JsonValue.object.sizeOf_spec] at this
    exact Prod.Lex.left _ _ (by omega)

/-- `_validate_array` -/
def validateArray (value : JsonValue) (schema : JsonObject) : Except VllmError Unit := do
  let items ← expectSequence value
  validateLength items schema
  match _hprefix : get schema "prefixItems" with
  | .null =>
    match _hitems : get schema "items" with
    | .null => pure ()
    | .object itemSchema => items.forM fun item => validateJsonValue item itemSchema
    | _ => throw .response
  | .array prefixItems =>
    if items.length < prefixItems.length then throw .response
    else validatePrefixItems items prefixItems
  | _ => throw .response
termination_by (sizeOf schema, 0)
decreasing_by
  · have := sizeOf_get _hitems (by simp)
    simp only [JsonValue.object.sizeOf_spec] at this
    exact Prod.Lex.left _ _ (by omega)
  · have := sizeOf_get _hprefix (by simp)
    simp only [JsonValue.array.sizeOf_spec] at this
    exact Prod.Lex.left _ _ (by omega)

/-- `_validate_prefix_items`, once there are enough items. -/
def validatePrefixItems (items prefixItems : List JsonValue) : Except VllmError Unit :=
  match items, prefixItems with
  | item :: items, .object itemSchema :: rest => do
      validateJsonValue item itemSchema
      validatePrefixItems items rest
  | _ :: _, _ :: _ => .error .response
  | _, _ => .ok ()
termination_by (sizeOf prefixItems, 0)
decreasing_by
  · apply Prod.Lex.left
    simp only [List.cons.sizeOf_spec, JsonValue.object.sizeOf_spec]
    omega
  · apply Prod.Lex.left
    simp only [List.cons.sizeOf_spec, JsonValue.object.sizeOf_spec]
    omega

end

end Validation

end Spakky.Vllm
