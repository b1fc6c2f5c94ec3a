import Spakky.Effect
import Spakky.Policy.Verdict

/-!
The canonicalization of an in-memory payload to a policy document. Malformed
shapes are refused with a validation error, but an unknown effect or operator is
refused by the constructor of an enumeration, with an error of another type, and
so is a condition nested deeper than the interpreter recurses.

The parts of a payload that the evaluator does not read are checked and dropped.
-/

namespace Spakky.Policy.Loader

open Auth Effect

/-- A payload. A key is `none` if it is no string; `other` is any object that is
neither a scalar, nor a mapping, nor a sequence that is accepted as one. -/
inductive Payload where
  | scalar (value : ClaimValue)
  | sequence (items : List Payload)
  | mapping (entries : List (Option String × Payload))
  | other

inductive LoadError where
  | policyDocumentValidationError (message : String)
  | valueError
  | recursionError
  deriving DecidableEq, Repr

abbrev LoadM (α : Type) : Type := Except LoadError α

def invalid {α : Type} (label problem : String) : LoadM α :=
  .error (.policyDocumentValidationError (label ++ problem))

abbrev RawMapping := List (String × Payload)

def RawMapping.get (payload : RawMapping) (key : String) (default : Payload) : Payload :=
  (payload.lookup key).getD default

def Payload.none : Payload := .scalar .none

def Payload.empty : Payload := .sequence []

def Payload.text (value : String) : Payload := .scalar (.string value)

def mapping (label : String) : Payload → LoadM RawMapping
  | .mapping entries => entries.mapM fun
    | (some key, item) => .ok (key, item)
    | (Option.none, _) => invalid label " contains non-string key"
  | _ => invalid label " must be a mapping"

def sequence (label : String) : Payload → LoadM (List Payload)
  | .sequence items => .ok items
  | _ => invalid label " must be a sequence"

def string (label : String) : Payload → LoadM String
  | .scalar (.string value) =>
    if value = "" then invalid label " must be a non-empty string" else .ok value
  | _ => invalid label " must be a non-empty string"

def optionalString (label : String) : Payload → LoadM (Option String)
  | .scalar .none => .ok Option.none
  | value => some <$> string label value

def stringTuple (label : String) (value : Payload) : LoadM (List String) := do
  (← sequence label value).mapM (string label)

def scalar (label : String) : Payload → LoadM ClaimValue
  | .scalar value => .ok value
  | _ => invalid label " must be a JSON scalar"

def claims (value : Payload) : LoadM (List ClaimValue) := do
  (← mapping "claims" value).mapM fun entry => scalar "claim" entry.2

def conditionValue : Payload → LoadM ConditionValue
  | .scalar value => .ok (.scalar value)
  | .sequence items => .sequence <$> items.mapM (scalar "condition.value")
  | _ => invalid "condition.value" " must be scalar or sequence"

/-- The enumerations raise a `ValueError` for a value they do not have. -/
def policyEffect : String → LoadM PolicyEffect
  | "allow" => .ok .allow
  | "deny" => .ok .deny
  | _ => .error .valueError

def conditionOperator : String → LoadM ConditionOperator
  | "equals" => .ok .equals
  | "not_equals" => .ok .notEquals
  | "in" => .ok .in
  | "contains" => .ok .contains
  | "exists" => .ok .exists
  | _ => .error .valueError

/-- `_optional_composition`, with the value under its key. -/
def composed (payload : RawMapping) : Option (ConditionComposition × Payload) :=
  match payload.lookup "all", payload.lookup "any", payload.lookup "not" with
  | some child, _, _ => some (.all, child)
  | Option.none, some child, _ => some (.any, child)
  | Option.none, Option.none, some child => some (.not, child)
  | Option.none, Option.none, Option.none => Option.none

def conditionChildren (condition : Payload → LoadM PolicyCondition)
    (composition : ConditionComposition) (child : Payload) : LoadM (List PolicyCondition) :=
  match composition with
  | .not => ([·]) <$> condition child
  | _ => do (← sequence "condition.children" child).mapM condition

/-- `_condition` of a mapping, given how its children are loaded. -/
def conditionOf (condition : Payload → LoadM PolicyCondition) (payload : RawMapping) :
    LoadM PolicyCondition :=
  match composed payload with
  | some (composition, child) => do
    let ref ← optionalString "condition.ref" (payload.get "ref" .none)
    let children ← conditionChildren condition composition child
    pure (.composite composition children ref)
  | Option.none => do
    let ref ← optionalString "condition.ref" (payload.get "ref" .none)
    let operator ← string "condition.operator" (payload.get "operator" .none)
    let operator ← conditionOperator operator
    let key ← string "condition.key" (payload.get "key" .none)
    let value ← conditionValue (payload.get "value" .none)
    pure (.atomic operator key value ref)

def condition : Nat → Payload → LoadM PolicyCondition
  | 0, _ => .error .recursionError
  | depth + 1, item =>
    match item with
    | .scalar (.string ref) => .ok (.named ref)
    | _ => mapping "condition" item >>= conditionOf (condition depth)

def optionalCondition (depth : Nat) : Payload → LoadM (Option PolicyCondition)
  | .scalar .none => .ok Option.none
  | item => some <$> condition depth item

def subject (item : Payload) : LoadM PolicySubject := do
  let payload ← mapping "subject" item
  let ref ← string "subject.ref" (payload.get "ref" .none)
  let roles ← stringTuple "subject.roles" (payload.get "roles" .empty)
  let scopes ← stringTuple "subject.scopes" (payload.get "scopes" .empty)
  let permissions ← stringTuple "subject.permissions" (payload.get "permissions" .empty)
  let _ ← claims (payload.get "claims" (.mapping []))
  let _ ← optionalString "subject.tenant" (payload.get "tenant" .none)
  pure { ref, roles, scopes, permissions }

def resource (item : Payload) : LoadM Unit := do
  let payload ← mapping "resource" item
  let _ ← string "resource.ref" (payload.get "ref" .none)
  let _ ← optionalString "resource.tenant" (payload.get "tenant" .none)

def action (item : Payload) : LoadM Unit := do
  let payload ← mapping "action" item
  let _ ← string "action.ref" (payload.get "ref" .none)

def permission (item : Payload) : LoadM Unit := do
  let payload ← mapping "permission" item
  let _ ← string "permission.ref" (payload.get "ref" .none)
  let _ ← stringTuple "permission.resources" (payload.get "resources" .empty)
  let _ ← stringTuple "permission.actions" (payload.get "actions" .empty)

/-- `_role` and `_scope` -/
def grant (label : String) (item : Payload) : LoadM PolicyGrant := do
  let payload ← mapping label item
  let ref ← string (label ++ ".ref") (payload.get "ref" .none)
  let permissions ← stringTuple (label ++ ".permissions") (payload.get "permissions" .empty)
  pure { ref, permissions }

def statement (depth : Nat) (item : Payload) : LoadM PolicyStatement := do
  let payload ← mapping "statement" item
  let ref ← string "statement.ref" (payload.get "ref" .none)
  let effect ← string "statement.effect" (payload.get "effect" .none)
  let effect ← policyEffect effect
  let subjects ← stringTuple "statement.subjects" (payload.get "subjects" .empty)
  let roles ← stringTuple "statement.roles" (payload.get "roles" .empty)
  let scopes ← stringTuple "statement.scopes" (payload.get "scopes" .empty)
  let permissions ← stringTuple "statement.permissions" (payload.get "permissions" .empty)
  let resources ← stringTuple "statement.resources" (payload.get "resources" .empty)
  let actions ← stringTuple "statement.actions" (payload.get "actions" .empty)
  let tenants ← stringTuple "statement.tenants" (payload.get "tenants" .empty)
  let condition ← optionalCondition depth (payload.get "condition" .none)
  pure { ref, effect, subjects, roles, scopes, permissions, resources, actions, tenants, condition }

def policy (depth : Nat) (item : Payload) : LoadM NamedPolicy := do
  let payload ← mapping "policy" item
  let ref ← string "policy.ref" (payload.get "ref" .none)
  let _ ← optionalString "policy.description" (payload.get "description" .none)
  let statements ← sequence "policy.statements" (payload.get "statements" .empty)
  let statements ← statements.mapM (statement depth)
  pure { ref, statements }

/-- The items of a section, one after the other. -/
def loadSection {α : Type} (payload : RawMapping) (label : String) (load : Payload → LoadM α) :
    LoadM (List α) := do
  (← sequence label (payload.get label .empty)).mapM load

def policyDocumentFromMapping (depth : Nat) (payload : Payload) : LoadM PolicyDocument := do
  let payload ← mapping "document" payload
  let metadata ←
    mapping "metadata" (payload.get "metadata" (.mapping [(some "name", .text "policy")]))
  let _ ← string "version" (payload.get "version" (.text "1"))
  let _ ← string "metadata.name" (metadata.get "name" (.text "policy"))
  let _ ← optionalString "metadata.description" (metadata.get "description" .none)
  let _ ← stringTuple "metadata.labels" (metadata.get "labels" .empty)
  let subjects ← loadSection payload "subjects" subject
  let _ ← loadSection payload "resources" resource
  let _ ← loadSection payload "actions" action
  let _ ← loadSection payload "permissions" permission
  let roles ← loadSection payload "roles" (grant "role")
  let scopes ← loadSection payload "scopes" (grant "scope")
  let policies ← loadSection payload "policies" (policy depth)
  let conditions ← loadSection payload "conditions" (condition depth)
  pure { subjects, roles, scopes, policies, conditions }

section Rules

variable {α β : Type}

/-- What is loaded has a property. -/
def Loads (P : α → Prop) (x : LoadM α) : Prop := ∀ a, x = .ok a → P a

theorem Loads.bind {P : β → Prop} {x : LoadM α} {f : α → LoadM β}
    (hf : ∀ a, x = .ok a → Loads P (f a)) : Loads P (x >>= f) := by
  intro b hb
  obtain ⟨a, ha, hfa⟩ := except_bind_ok hb
  exact hf a ha b hfa

theorem Loads.mapM {P : β → Prop} {f : α → LoadM β} {items : List α}
    (heach : ∀ item ∈ items, Loads P (f item)) :
    Loads (fun results => ∀ result ∈ results, P result) (items.mapM f) := by
  intro results hrun result hresult
  obtain ⟨item, hitem, hok⟩ := (mem_of_mapM_ok hrun).mp hresult
  exact heach item hitem result hok

/-- An error other than a validation error is raised. -/
def Escapes (x : LoadM α) : Prop :=
  ∃ error, x = .error error ∧ ∀ message, error ≠ .policyDocumentValidationError message

/-- What is read has the shape that is asked for. -/
def Reads (x : LoadM α) : Prop := ∃ a, x = .ok a

/-- The first item that is not loaded has a property. -/
def First (load : α → LoadM β) (P : α → Prop) (items : List α) : Prop :=
  ∃ before item after, items = before ++ item :: after ∧
    (∀ earlier ∈ before, Reads (load earlier)) ∧ P item

variable {x : LoadM α} {f : α → LoadM β}

theorem not_escapes_ok (a : α) : ¬ Escapes (.ok a : LoadM α) := by
  rintro ⟨_, herror, _⟩
  cases herror

theorem escapes_error {error : LoadError} : Escapes (.error error : LoadM α) ↔
    ∀ message, error ≠ .policyDocumentValidationError message := by
  constructor
  · rintro ⟨_, ⟨⟩, hother⟩
    exact hother
  · exact fun hother => ⟨error, rfl, hother⟩

theorem not_escapes_invalid (label problem : String) :
    ¬ Escapes (invalid label problem : LoadM α) :=
  fun hescapes => escapes_error.mp hescapes _ rfl

theorem escapes_bind : Escapes (x >>= f) ↔ Escapes x ∨ ∃ a, x = .ok a ∧ Escapes (f a) := by
  cases x with
  | error error =>
    change Escapes (.error error : LoadM β) ↔ _
    simp [escapes_error]
  | ok a =>
    change Escapes (f a) ↔ _
    simp [not_escapes_ok]

/-- A part that is checked and dropped. -/
theorem escapes_drop {P : Prop} (hx : ¬ Escapes x) (hf : ∀ a, x = .ok a → (Escapes (f a) ↔ P)) :
    Escapes (x >>= f) ↔ Reads x ∧ P := by
  rw [escapes_bind]
  constructor
  · rintro (hhere | ⟨a, ha, hlater⟩)
    · exact absurd hhere hx
    · exact ⟨⟨a, ha⟩, (hf a ha).mp hlater⟩
  · rintro ⟨⟨a, ha⟩, hP⟩
    exact .inr ⟨a, ha, (hf a ha).mpr hP⟩

/-- A part that the rest is read from. -/
theorem escapes_read {P : α → Prop} (hx : ¬ Escapes x)
    (hf : ∀ a, x = .ok a → (Escapes (f a) ↔ P a)) :
    Escapes (x >>= f) ↔ ∃ a, x = .ok a ∧ P a := by
  rw [escapes_bind, or_iff_right hx]
  exact exists_congr fun a => and_congr_right (hf a)

theorem not_escapes_bind (hx : ¬ Escapes x) (hf : ∀ a, ¬ Escapes (f a)) : ¬ Escapes (x >>= f) := by
  rw [escapes_bind]
  rintro (hhere | ⟨a, _, hlater⟩)
  · exact hx hhere
  · exact hf a hlater

theorem escapes_map {g : α → β} : Escapes (g <$> x) ↔ Escapes x := by
  cases x with
  | error => exact escapes_error.trans escapes_error.symm
  | ok a => exact iff_of_false (not_escapes_ok (g a)) (not_escapes_ok a)

/-- The last part: what is built from it is returned. -/
theorem escapes_last {g : α → β} : Escapes (x >>= fun a => pure (g a)) ↔ Escapes x := by
  rw [escapes_bind, or_iff_left]
  rintro ⟨a, _, hpure⟩
  exact not_escapes_ok _ hpure

theorem escapes_mapM {items : List α} :
    Escapes (items.mapM f) ↔ First f (fun item => Escapes (f item)) items := by
  induction items with
  | nil => exact iff_of_false (not_escapes_ok []) (by rintro ⟨_ | _, _, _, ⟨⟩, _⟩)
  | cons item rest ih =>
    rw [List.mapM_cons, escapes_bind]
    constructor
    · rintro (hhere | ⟨b, hb, hlater⟩)
      · exact ⟨[], item, rest, rfl, by simp, hhere⟩
      · obtain ⟨before, slip, after, rfl, hbefore, hslip⟩ := ih.mp (escapes_last.mp hlater)
        refine ⟨item :: before, slip, after, rfl, ?_, hslip⟩
        simp only [List.mem_cons, forall_eq_or_imp]
        exact ⟨⟨b, hb⟩, hbefore⟩
    · rintro ⟨before, slip, after, hsplit, hbefore, hslip⟩
      cases before with
      | nil =>
        cases hsplit
        exact .inl hslip
      | cons _ before =>
        cases hsplit
        obtain ⟨b, hb⟩ := hbefore item (.head _)
        refine .inr ⟨b, hb, escapes_last.mpr (ih.mpr ⟨before, slip, after, rfl, ?_, hslip⟩)⟩
        exact fun earlier hearlier => hbefore earlier (.tail _ hearlier)

theorem not_escapes_mapM {items : List α} (hf : ∀ item, ¬ Escapes (f item)) :
    ¬ Escapes (items.mapM f) := by
  rw [escapes_mapM]
  rintro ⟨_, item, _, _, _, hitem⟩
  exact hf item hitem

theorem First.congr {load : α → LoadM β} {P Q : α → Prop} (hPQ : ∀ item, P item ↔ Q item)
    (items : List α) : First load P items ↔ First load Q items := by
  unfold First
  simp only [hPQ]

end Rules

section Accessors

variable (label : String) (payload : Payload)

theorem mapping_checked : ¬ Escapes (mapping label payload) := by
  unfold mapping
  split
  · refine not_escapes_mapM fun entry => ?_
    split
    · exact not_escapes_ok _
    · exact not_escapes_invalid _ _
  · exact not_escapes_invalid _ _

theorem sequence_checked : ¬ Escapes (sequence label payload) := by
  unfold sequence
  split
  · exact not_escapes_ok _
  · exact not_escapes_invalid _ _

theorem string_checked : ¬ Escapes (string label payload) := by
  unfold string
  split
  · split
    · exact not_escapes_invalid _ _
    · exact not_escapes_ok _
  · exact not_escapes_invalid _ _

theorem optionalString_checked : ¬ Escapes (optionalString label payload) := by
  unfold optionalString
  split
  · exact not_escapes_ok _
  · rw [escapes_map]
    exact string_checked label _

theorem stringTuple_checked : ¬ Escapes (stringTuple label payload) :=
  not_escapes_bind (sequence_checked label payload)
    fun _ => not_escapes_mapM fun item => string_checked label item

theorem scalar_checked : ¬ Escapes (scalar label payload) := by
  unfold scalar
  split
  · exact not_escapes_ok _
  · exact not_escapes_invalid _ _

theorem claims_checked : ¬ Escapes (claims payload) :=
  not_escapes_bind (mapping_checked "claims" payload)
    fun _ => not_escapes_mapM fun entry => scalar_checked "claim" entry.2

theorem conditionValue_checked : ¬ Escapes (conditionValue payload) := by
  unfold conditionValue
  split
  · exact not_escapes_ok _
  · rw [escapes_map]
    exact not_escapes_mapM fun item => scalar_checked "condition.value" item
  · exact not_escapes_invalid _ _

theorem section_checked {α : Type} (payload : RawMapping) {load : Payload → LoadM α}
    (hload : ∀ item, ¬ Escapes (load item)) : ¬ Escapes (loadSection payload label load) :=
  not_escapes_bind (sequence_checked label _) fun _ => not_escapes_mapM hload

variable (item : Payload)

theorem subject_checked : ¬ Escapes (subject item) := by
  refine not_escapes_bind (mapping_checked _ _) fun payload => ?_
  refine not_escapes_bind (string_checked _ _) fun _ => ?_
  iterate 3 refine not_escapes_bind (stringTuple_checked _ _) fun _ => ?_
  refine not_escapes_bind (claims_checked _) fun _ => ?_
  exact not_escapes_bind (optionalString_checked _ _) fun _ => not_escapes_ok _

theorem resource_checked : ¬ Escapes (resource item) := by
  refine not_escapes_bind (mapping_checked _ _) fun payload => ?_
  refine not_escapes_bind (string_checked _ _) fun _ => ?_
  exact not_escapes_bind (optionalString_checked _ _) fun _ => not_escapes_ok _

theorem action_checked : ¬ Escapes (action item) := by
  refine not_escapes_bind (mapping_checked _ _) fun payload => ?_
  exact not_escapes_bind (string_checked _ _) fun _ => not_escapes_ok _

theorem permission_checked : ¬ Escapes (permission item) := by
  refine not_escapes_bind (mapping_checked _ _) fun payload => ?_
  refine not_escapes_bind (string_checked _ _) fun _ => ?_
  iterate 2 refine not_escapes_bind (stringTuple_checked _ _) fun _ => ?_
  exact not_escapes_ok _

theorem grant_checked : ¬ Escapes (grant label item) := by
  refine not_escapes_bind (mapping_checked _ _) fun payload => ?_
  refine not_escapes_bind (string_checked _ _) fun _ => ?_
  exact not_escapes_bind (stringTuple_checked _ _) fun _ => not_escapes_ok _

end Accessors

/-- A condition that the loader comes to is nested too deep or has an unknown
operator: what is read before it has the shape that is asked for. -/
def ConditionSlips : Nat → Payload → Prop
  | 0, _ => True
  | depth + 1, item => ∃ payload, mapping "condition" item = .ok payload ∧
    Reads (optionalString "condition.ref" (payload.get "ref" .none)) ∧
    match composed payload with
    | Option.none => ∃ text, string "condition.operator" (payload.get "operator" .none) = .ok text ∧
      conditionOperator text = .error .valueError
    | some (.not, child) => ConditionSlips depth child
    | some (_, children) => ∃ items, sequence "condition.children" children = .ok items ∧
      First (condition depth) (ConditionSlips depth) items

/-- The effect of a statement is unknown, or its condition slips. -/
def StatementSlips (depth : Nat) (item : Payload) : Prop :=
  ∃ payload, mapping "statement" item = .ok payload ∧
    Reads (string "statement.ref" (payload.get "ref" .none)) ∧
    ∃ text, string "statement.effect" (payload.get "effect" .none) = .ok text ∧
    (policyEffect text = .error .valueError ∨ Reads (policyEffect text) ∧
      Reads (stringTuple "statement.subjects" (payload.get "subjects" .empty)) ∧
      Reads (stringTuple "statement.roles" (payload.get "roles" .empty)) ∧
      Reads (stringTuple "statement.scopes" (payload.get "scopes" .empty)) ∧
      Reads (stringTuple "statement.permissions" (payload.get "permissions" .empty)) ∧
      Reads (stringTuple "statement.resources" (payload.get "resources" .empty)) ∧
      Reads (stringTuple "statement.actions" (payload.get "actions" .empty)) ∧
      Reads (stringTuple "statement.tenants" (payload.get "tenants" .empty)) ∧
      payload.get "condition" .none ≠ .none ∧
      ConditionSlips depth (payload.get "condition" .none))

def PolicySlips (depth : Nat) (item : Payload) : Prop :=
  ∃ payload, mapping "policy" item = .ok payload ∧
    Reads (string "policy.ref" (payload.get "ref" .none)) ∧
    Reads (optionalString "policy.description" (payload.get "description" .none)) ∧
    ∃ statements, sequence "policy.statements" (payload.get "statements" .empty) = .ok statements ∧
      First (statement depth) (StatementSlips depth) statements

/-- The first item of a section that is not loaded has a property. -/
def FirstOf {α : Type} (payload : RawMapping) (label : String) (load : Payload → LoadM α)
    (P : Payload → Prop) : Prop :=
  ∃ items, sequence label (payload.get label .empty) = .ok items ∧ First load P items

/-- The first part of a payload, in the order of the loader, that does not have
the shape that is asked for has an unknown effect or operator or is nested too
deep. -/
def Slips (depth : Nat) (payload : Payload) : Prop :=
  ∃ root, mapping "document" payload = .ok root ∧
  ∃ metadata, mapping "metadata"
    (root.get "metadata" (.mapping [(some "name", .text "policy")])) = .ok metadata ∧
  Reads (string "version" (root.get "version" (.text "1"))) ∧
  Reads (string "metadata.name" (metadata.get "name" (.text "policy"))) ∧
  Reads (optionalString "metadata.description" (metadata.get "description" .none)) ∧
  Reads (stringTuple "metadata.labels" (metadata.get "labels" .empty)) ∧
  Reads (loadSection root "subjects" subject) ∧ Reads (loadSection root "resources" resource) ∧
  Reads (loadSection root "actions" action) ∧ Reads (loadSection root "permissions" permission) ∧
  Reads (loadSection root "roles" (grant "role")) ∧
  Reads (loadSection root "scopes" (grant "scope")) ∧
  (FirstOf root "policies" (policy depth) (PolicySlips depth) ∨
    Reads (loadSection root "policies" (policy depth)) ∧
      FirstOf root "conditions" (condition depth) (ConditionSlips depth))

section Slips

/-- An enumeration raises a `ValueError` or has the value. -/
theorem escapes_enumeration {α β : Type} {x : LoadM α} {f : α → LoadM β} {P : Prop}
    (hx : x = .error .valueError ∨ Reads x) (hf : ∀ a, x = .ok a → (Escapes (f a) ↔ P)) :
    Escapes (x >>= f) ↔ x = .error .valueError ∨ Reads x ∧ P := by
  rw [escapes_bind]
  rcases hx with rfl | ⟨a, rfl⟩
  · exact iff_of_true (.inl (escapes_error.mpr nofun)) (.inl rfl)
  · simp [not_escapes_ok, hf a rfl, Reads]

theorem conditionOperator_known (text : String) :
    conditionOperator text = .error .valueError ∨ Reads (conditionOperator text) := by
  unfold conditionOperator
  split
  all_goals first | exact .inl rfl | exact .inr ⟨_, rfl⟩

theorem policyEffect_known (text : String) :
    policyEffect text = .error .valueError ∨ Reads (policyEffect text) := by
  unfold policyEffect
  split
  all_goals first | exact .inl rfl | exact .inr ⟨_, rfl⟩

theorem escapes_condition (depth : Nat) (item : Payload) :
    Escapes (condition depth item) ↔ ConditionSlips depth item := by
  induction depth generalizing item with
  | zero => exact iff_of_true (escapes_error.mpr nofun) trivial
  | succ depth ih =>
    unfold condition ConditionSlips
    split
    next ref =>
      refine iff_of_false (not_escapes_ok _) ?_
      rintro ⟨_, hmapping, _⟩
      cases hmapping
    next =>
    refine escapes_read (mapping_checked _ _) fun payload _ => ?_
    unfold conditionOf
    cases composed payload with
    | none =>
      refine escapes_drop (optionalString_checked _ _) fun _ _ => ?_
      refine escapes_read (string_checked _ _) fun text _ => ?_
      refine (escapes_enumeration (P := False) (conditionOperator_known text) fun _ _ => ?_).trans
        (by rw [and_false, or_false])
      rw [iff_false]
      refine not_escapes_bind (string_checked _ _) fun _ => ?_
      exact not_escapes_bind (conditionValue_checked _) fun _ => not_escapes_ok _
    | some found =>
      obtain ⟨composition, child⟩ := found
      refine escapes_drop (optionalString_checked _ _) fun _ _ => ?_
      rw [escapes_last]
      cases composition with
      | not => exact escapes_map.trans (ih child)
      | all | any =>
        refine escapes_read (sequence_checked _ _) fun items _ => ?_
        exact escapes_mapM.trans (First.congr ih items)

theorem escapes_statement (depth : Nat) (item : Payload) :
    Escapes (statement depth item) ↔ StatementSlips depth item := by
  refine escapes_read (mapping_checked _ _) fun payload _ => ?_
  refine escapes_drop (string_checked _ _) fun _ _ => ?_
  refine escapes_read (string_checked _ _) fun text _ => ?_
  refine escapes_enumeration (policyEffect_known text) fun _ _ => ?_
  iterate 7 refine escapes_drop (stringTuple_checked _ _) fun _ _ => ?_
  rw [escapes_last]
  unfold optionalCondition
  split
  next hnone => exact iff_of_false (not_escapes_ok _) fun hslips => hslips.1 hnone
  next hsome =>
    rw [escapes_map, escapes_condition]
    exact ⟨fun hslips => ⟨hsome, hslips⟩, And.right⟩

theorem escapes_policy (depth : Nat) (item : Payload) :
    Escapes (policy depth item) ↔ PolicySlips depth item := by
  refine escapes_read (mapping_checked _ _) fun payload _ => ?_
  refine escapes_drop (string_checked _ _) fun _ _ => ?_
  refine escapes_drop (optionalString_checked _ _) fun _ _ => ?_
  refine escapes_read (sequence_checked _ _) fun statements _ => ?_
  rw [escapes_last, escapes_mapM]
  exact First.congr (escapes_statement depth) statements

theorem escapes_section {α : Type} {load : Payload → LoadM α} {P : Payload → Prop}
    (hload : ∀ item, Escapes (load item) ↔ P item) (payload : RawMapping) (label : String) :
    Escapes (loadSection payload label load) ↔ FirstOf payload label load P :=
  escapes_read (sequence_checked _ _) fun items _ => escapes_mapM.trans (First.congr hload items)

theorem escapes_document (depth : Nat) (payload : Payload) :
    Escapes (policyDocumentFromMapping depth payload) ↔ Slips depth payload := by
  refine escapes_read (mapping_checked _ _) fun root _ => ?_
  refine escapes_read (mapping_checked _ _) fun metadata _ => ?_
  iterate 2 refine escapes_drop (string_checked _ _) fun _ _ => ?_
  refine escapes_drop (optionalString_checked _ _) fun _ _ => ?_
  refine escapes_drop (stringTuple_checked _ _) fun _ _ => ?_
  refine escapes_drop (section_checked _ _ subject_checked) fun _ _ => ?_
  refine escapes_drop (section_checked _ _ resource_checked) fun _ _ => ?_
  refine escapes_drop (section_checked _ _ action_checked) fun _ _ => ?_
  refine escapes_drop (section_checked _ _ permission_checked) fun _ _ => ?_
  refine escapes_drop (section_checked _ _ (grant_checked "role")) fun _ _ => ?_
  refine escapes_drop (section_checked _ _ (grant_checked "scope")) fun _ _ => ?_
  rw [escapes_bind, escapes_section (escapes_policy depth)]
  refine or_congr_right ?_
  simp only [escapes_last, escapes_section (escapes_condition depth)]
  exact exists_and_right

end Slips

/-- A payload is loaded or refused with a validation error, exactly if the first
part of it that has not the shape that is asked for is no unknown effect or
operator and is not nested too deep. -/
theorem policy_loading_total_iff (depth : Nat) (payload : Payload) :
    ((∃ document, policyDocumentFromMapping depth payload = .ok document) ∨
      ∃ message, policyDocumentFromMapping depth payload =
        .error (.policyDocumentValidationError message)) ↔ ¬ Slips depth payload := by
  rw [← escapes_document]
  cases policyDocumentFromMapping depth payload with
  | ok document => exact iff_of_true (.inl ⟨document, rfl⟩) (not_escapes_ok document)
  | error error => simp [escapes_error]

/-- A document with one policy of one statement. -/
def ofStatement (conditions : List Payload) (statement : List (Option String × Payload)) :
    Payload :=
  .mapping [(some "policies", .sequence [.mapping [(some "ref", .text "p"),
    (some "statements", .sequence [.mapping statement])]]),
    (some "conditions", .sequence conditions)]

/-- The effect `permit` and the operator `matches` are unknown. -/
theorem unknown_effect_or_operator_escapes :
    policyDocumentFromMapping 9
        (ofStatement [] [(some "ref", .text "s"), (some "effect", .text "permit")]) =
      .error .valueError ∧
    policyDocumentFromMapping 9
        (ofStatement [.mapping [(some "operator", .text "matches"), (some "key", .text "k")]]
          [(some "ref", .text "s"), (some "effect", .text "allow")]) = .error .valueError := by
  exact ⟨rfl, rfl⟩


section Documents

theorem wellFormedAll_of_forall {conditions : List PolicyCondition}
    (heach : ∀ condition ∈ conditions, condition.wellFormed = true) :
    PolicyCondition.wellFormedAll conditions = true := by
  induction conditions with
  | nil => rfl
  | cons condition _ ih =>
    rw [PolicyCondition.wellFormedAll, Bool.and_eq_true]
    exact ⟨heach condition (.head _), ih fun other hother => heach other (.tail _ hother)⟩

theorem conditionOf_wellFormed {load : Payload → LoadM PolicyCondition}
    (hload : ∀ item, Loads (·.wellFormed = true) (load item)) (payload : RawMapping) :
    Loads (·.wellFormed = true) (conditionOf load payload) := by
  unfold conditionOf
  split
  next composition child _ =>
    refine .bind fun ref _ => .bind fun children hchildren => ?_
    rintro _ ⟨⟩
    unfold conditionChildren at hchildren
    split at hchildren
    · obtain ⟨inner, hinner, ⟨⟩⟩ := except_bind_ok hchildren
      simp [PolicyCondition.wellFormed, PolicyCondition.wellFormedAll, PolicyCondition.composite,
        hload child inner hinner]
    next hnot =>
      obtain ⟨items, _, hitems⟩ := except_bind_ok hchildren
      have hall := wellFormedAll_of_forall (Loads.mapM (fun item _ => hload item) _ hitems)
      have hother : composition ≠ .not := hnot
      simp [PolicyCondition.wellFormed, PolicyCondition.composite, hother, hall]
  next =>
    refine .bind fun ref _ => .bind fun text _ => .bind fun operator _ => .bind fun key _ =>
      .bind fun value _ => ?_
    rintro _ ⟨⟩
    rfl

theorem condition_wellFormed (depth : Nat) (item : Payload) :
    Loads (·.wellFormed = true) (condition depth item) := by
  induction depth generalizing item with
  | zero => exact nofun
  | succ depth ih =>
    unfold condition
    split
    · rintro _ ⟨⟩
      rfl
    · exact .bind fun payload _ => conditionOf_wellFormed ih payload

theorem statement_wellFormed (depth : Nat) (item : Payload) :
    Loads (fun statement => ∀ condition, statement.condition = some condition →
      condition.wellFormed = true) (statement depth item) := by
  iterate 11 refine .bind fun _ _ => ?_
  refine .bind fun loaded hloaded => ?_
  rintro _ ⟨⟩ condition rfl
  unfold optionalCondition at hloaded
  split at hloaded
  · cases hloaded
  · obtain ⟨_, hcondition, ⟨⟩⟩ := except_bind_ok hloaded
    exact condition_wellFormed depth _ _ hcondition

theorem policy_wellFormed (depth : Nat) (item : Payload) :
    Loads (fun policy => ∀ statement ∈ policy.statements, ∀ condition,
      statement.condition = some condition → condition.wellFormed = true) (policy depth item) := by
  iterate 4 refine .bind fun _ _ => ?_
  refine .bind fun statements hstatements => ?_
  rintro _ ⟨⟩
  exact Loads.mapM (fun item _ => statement_wellFormed depth item) _ hstatements

theorem policyDocumentFromMapping_wellFormed (depth : Nat) (payload : Payload) :
    Loads PolicyDocument.WellFormed (policyDocumentFromMapping depth payload) := by
  iterate 12 refine .bind fun _ _ => ?_
  refine .bind fun policies hpolicies => .bind fun conditions hconditions => ?_
  rintro _ ⟨⟩
  obtain ⟨_, _, hpolicies⟩ := except_bind_ok hpolicies
  obtain ⟨_, _, hconditions⟩ := except_bind_ok hconditions
  refine ⟨Loads.mapM (fun item _ => condition_wellFormed depth item) _ hconditions, ?_⟩
  intro statement hstatement
  obtain ⟨loaded, hloaded, hmem⟩ := List.mem_flatMap.mp hstatement
  exact Loads.mapM (fun item _ => policy_wellFormed depth item) _ hpolicies loaded hloaded
    statement hmem

end Documents

end Spakky.Policy.Loader
