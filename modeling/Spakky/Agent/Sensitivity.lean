import Mathlib.Data.List.Infix
import Spakky.Agent.Types

/-!
Sensitive fields, the policies under which their values may be exposed, and
`guard_json_value`, which replaces or drops the values at the paths of
path-bound descriptors. A path is a list of object keys.

`str()` and the SHA-256 digest are parameters. The labels and metadata of
fields are not read by any of this and are left out.
-/

namespace Spakky.Agent

open List

/-- The parts of Python that the guard calls. -/
structure Runtime where
  str : JsonValue → String
  hexdigest : String → String

inductive DataSensitivity where
  | public_
  | internal
  | confidential
  | pii
  | secret
  deriving DecidableEq, Repr

def DataSensitivity.value : DataSensitivity → String
  | .public_ => "public"
  | .internal => "internal"
  | .confidential => "confidential"
  | .pii => "pii"
  | .secret => "secret"

inductive PII where
  | name
  | email
  | phone
  | address
  | accountId
  | identifier
  | location
  deriving DecidableEq, Repr

def PII.value : PII → String
  | .name => "name"
  | .email => "email"
  | .phone => "phone"
  | .address => "address"
  | .accountId => "account_id"
  | .identifier => "identifier"
  | .location => "location"

inductive MaskingPolicy where
  | redact
  | lastFour
  | firstLast
  | hash
  deriving DecidableEq, Repr

inductive RedactionPolicy where
  | redact
  | drop
  | referenceOnly
  deriving DecidableEq, Repr

inductive Category where
  | pii (category : PII)
  | data (sensitivity : DataSensitivity)
  deriving DecidableEq, Repr

structure SensitiveField where
  category : Category
  masking : MaskingPolicy := .redact
  redaction : RedactionPolicy := .redact
  deriving DecidableEq, Repr

def SensitiveField.sensitivity (field : SensitiveField) : DataSensitivity :=
  match field.category with
  | .pii _ => .pii
  | .data sensitivity => sensitivity

def SensitiveField.categoryName (field : SensitiveField) : String :=
  match field.category with
  | .pii category => category.value
  | .data sensitivity => sensitivity.value

structure SecretField where
  redaction : RedactionPolicy := .referenceOnly
  deriving DecidableEq, Repr

/-- `SensitiveField | SecretField` -/
inductive FieldMarker where
  | sensitive (field : SensitiveField)
  | secret (field : SecretField)
  deriving DecidableEq, Repr

def FieldMarker.redaction : FieldMarker → RedactionPolicy
  | .sensitive field => field.redaction
  | .secret field => field.redaction

/-- The decision both exposure policies make. -/
def exposes (includePiiValues includeSensitiveValues : Bool) : FieldMarker → Bool
  | .secret _ => false
  | .sensitive field =>
    match field.sensitivity with
    | .pii => includePiiValues
    | .confidential | .secret => includeSensitiveValues
    | .public_ | .internal => true

structure ContextExposurePolicy where
  includePiiValues : Bool := false
  includeSensitiveValues : Bool := false
  deriving DecidableEq, Repr

def ContextExposurePolicy.canExposeValue (policy : ContextExposurePolicy) : FieldMarker → Bool :=
  exposes policy.includePiiValues policy.includeSensitiveValues

structure EvidenceExposurePolicy where
  includePiiValues : Bool := false
  includeSensitiveValues : Bool := false
  deriving DecidableEq, Repr

def EvidenceExposurePolicy.canExposeValue (policy : EvidenceExposurePolicy) : FieldMarker → Bool :=
  exposes policy.includePiiValues policy.includeSensitiveValues

inductive ExposurePolicy where
  | context (policy : ContextExposurePolicy)
  | evidence (policy : EvidenceExposurePolicy)
  deriving DecidableEq, Repr

def ExposurePolicy.canExposeValue : ExposurePolicy → FieldMarker → Bool
  | .context policy => policy.canExposeValue
  | .evidence policy => policy.canExposeValue

structure SensitiveFieldDescriptor where
  path : List String
  field : FieldMarker
  deriving DecidableEq, Repr

section Guard

variable (runtime : Runtime)

def redactedValue : String := "[REDACTED]"

def secretValue : String := "[SECRET]"

def maskText (value : String) (policy : MaskingPolicy) (category : String) : String :=
  let chars := value.toList
  match policy with
  | .lastFour =>
    if 4 < chars.length then "***" ++ String.ofList (chars.drop (chars.length - 4))
    else redactedValue
  | .firstLast =>
    if 1 < chars.length then
      String.ofList (chars.take 1) ++ "***" ++ String.ofList (chars.drop (chars.length - 1))
    else redactedValue
  | .hash =>
    "[HASHED:" ++ category ++ ":" ++ String.ofList ((runtime.hexdigest value).toList.take 12) ++ "]"
  | .redact => redactedValue

def FieldMarker.guardText (field : FieldMarker) (value : String) : String :=
  match field with
  | .secret _ => secretValue
  | .sensitive field => maskText runtime value field.masking field.categoryName

variable (policy : ExposurePolicy)

def guardScalar (value : JsonValue) (field : FieldMarker) : JsonValue :=
  if policy.canExposeValue field then value
  else
    match value with
    | .string text => .string (field.guardText runtime text)
    | _ =>
      if field.redaction = .drop then .null
      else .string (field.guardText runtime (runtime.str value))

/-- `result[key] = value` for a key that is there. -/
def setEntry (key : String) (value : JsonValue) : JsonObject → JsonObject
  | [] => []
  | (k, v) :: entries =>
    if k = key then (k, value) :: entries else (k, v) :: setEntry key value entries

/-- `result.pop(key)` -/
def popEntry (key : String) (entries : JsonObject) : JsonObject :=
  entries.filter fun entry => entry.1 ≠ key

def guardJsonPath (value : JsonValue) (path : List String) (field : FieldMarker) : JsonValue :=
  match path with
  | [] => guardScalar runtime policy value field
  | key :: path =>
    match value with
    | .object entries =>
      match entries.lookup key with
      | none => .object entries
      | some child =>
        if field.redaction = .drop ∧ policy.canExposeValue field = false then
          .object (popEntry key entries)
        else .object (setEntry key (guardJsonPath child path field) entries)
    | value => value

/-- Redact JSON values according to path-bound descriptors. -/
def guardJsonValue (value : JsonValue) (sensitiveFields : List SensitiveFieldDescriptor) :
    JsonValue :=
  sensitiveFields.foldl
    (fun result descriptor => guardJsonPath runtime policy result descriptor.path descriptor.field)
    value

end Guard

section Entries

variable {key k : String} {value child : JsonValue} {entries : JsonObject}

theorem lookup_setEntry_self (hfound : entries.lookup key = some child) :
    (setEntry key value entries).lookup key = some value := by
  induction entries with
  | nil => cases hfound
  | cons entry _ ih =>
    obtain ⟨k, v⟩ := entry
    by_cases hk : k = key
    · simp [setEntry, hk]
    · have hne : (key == k) = false := by simpa using Ne.symm hk
      rw [lookup_cons, hne] at hfound
      rw [setEntry, if_neg hk, lookup_cons, hne]
      exact ih hfound

theorem lookup_setEntry_other (hk : k ≠ key) :
    (setEntry key value entries).lookup k = entries.lookup k := by
  induction entries with
  | nil => rfl
  | cons entry _ ih =>
    obtain ⟨k', v⟩ := entry
    by_cases hkey : k' = key
    · have hne : (k == k') = false := by simpa [hkey] using hk
      rw [setEntry, if_pos hkey, lookup_cons, lookup_cons, hne]
    · rw [setEntry, if_neg hkey, lookup_cons, lookup_cons, ih]

theorem setEntry_self (hfound : entries.lookup key = some child) :
    setEntry key child entries = entries := by
  induction entries with
  | nil => rfl
  | cons entry _ ih =>
    obtain ⟨k, v⟩ := entry
    by_cases hk : k = key
    · subst hk
      rw [lookup_cons_self] at hfound
      cases hfound
      rw [setEntry, if_pos rfl]
    · have hne : (key == k) = false := by simpa using Ne.symm hk
      rw [lookup_cons, hne] at hfound
      rw [setEntry, if_neg hk, ih hfound]

theorem lookup_popEntry_self : (popEntry key entries).lookup key = none := by
  rw [lookup_eq_none_iff]
  intro entry hmem
  have hne := (mem_filter.mp hmem).2
  simp only [ne_eq, decide_not, Bool.not_eq_eq_eq_not, Bool.not_true, decide_eq_false_iff_not]
    at hne
  simpa using Ne.symm hne

theorem lookup_popEntry_other (hk : k ≠ key) :
    (popEntry key entries).lookup k = entries.lookup k := by
  induction entries with
  | nil => rfl
  | cons entry _ ih =>
    obtain ⟨k', v⟩ := entry
    unfold popEntry at ih ⊢
    by_cases hkey : k' = key
    · have hne : (k == k') = false := by simpa [hkey] using hk
      rw [filter_cons_of_neg (by simpa using hkey), lookup_cons, hne, ih]
    · rw [filter_cons_of_pos (by simpa using hkey), lookup_cons, lookup_cons, ih]

end Entries

end Spakky.Agent
