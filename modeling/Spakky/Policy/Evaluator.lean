import Mathlib.Data.List.Infix
import Spakky.Policy.Document

/-!
The evaluator of policy documents. A statement matches a request if it passes
ten filters, most of which let everything pass where the statement names
nothing, and if its condition holds of the caller's claims.

A condition may name another one, so that its evaluation follows references.
It is given the recursion depth it may use; running out of it is an error, as
it is in the interpreter. So is asking for the child of a NOT without one.
-/

namespace Spakky.Policy

open Auth

inductive EvaluationError where
  | recursionError
  | indexError
  deriving DecidableEq, Repr

inductive PolicyEvidenceKind where
  | statementMatched
  | statementSkipped
  | conditionMatched
  | conditionFailed
  | defaultDeny
  deriving DecidableEq, Repr

structure PolicyEvaluationEvidence where
  kind : PolicyEvidenceKind
  policy : Option PolicyRef := none
  statement : Option PolicyRef := none
  reason : String
  deriving DecidableEq, Repr

structure PolicyEvaluationResult where
  allowed : Bool
  effect : Option PolicyEffect
  evidence : List PolicyEvaluationEvidence
  deriving DecidableEq, Repr

structure PolicyEvaluationInput where
  authContext : AuthContext
  resource : Option PolicyRef := none
  action : Option PolicyRef := none
  tenant : Option PolicyRef := none
  permission : Option PolicyRef := none
  role : Option PolicyRef := none
  scope : Option PolicyRef := none
  policy : Option PolicyRef := none

section Filters

def intersects (expected actual : List PolicyRef) : Bool := expected.any actual.contains

/-- The statement names nothing, or something the subject has. -/
def matchesHeld (expected held : List PolicyRef) : Bool :=
  expected.isEmpty || intersects expected held

/-- The statement names nothing, or what the request is about. -/
def matchesTarget (expected : List PolicyRef) (actual : Option PolicyRef) : Bool :=
  expected.isEmpty || actual.any expected.contains

/-- Nothing is asked for, or the statement names nothing, or what is asked for. -/
def matchesRequested (expected : List PolicyRef) (requested : Option PolicyRef) : Bool :=
  requested.all fun ref => expected.isEmpty || expected.contains ref

variable (document : PolicyDocument) (statement : PolicyStatement)
  (request : PolicyEvaluationInput)

def matchesSubject : Bool :=
  matchesTarget statement.subjects (some request.authContext.subject.id)

def matchesRoles : Bool :=
  matchesHeld statement.roles (document.subjectRoles request.authContext)

def matchesScopes : Bool :=
  matchesHeld statement.scopes (document.subjectScopes request.authContext)

def matchesPermissions : Bool :=
  matchesHeld statement.permissions (document.subjectPermissions request.authContext)

/-- The only filter on what is requested that also looks at what the subject
has. -/
def matchesRequestedPermission : Bool :=
  match request.permission with
  | none => true
  | some permission =>
    (statement.permissions.isEmpty || statement.permissions.contains permission) &&
      (document.subjectPermissions request.authContext).contains permission

def matchesResources : Bool := matchesTarget statement.resources request.resource

def matchesActions : Bool := matchesTarget statement.actions request.action

def matchesTenants : Bool :=
  matchesTarget statement.tenants (request.tenant <|> request.authContext.tenant)

def matchesRequestedRole : Bool := matchesRequested statement.roles request.role

def matchesRequestedScope : Bool := matchesRequested statement.scopes request.scope

/-- Everything `_statement_matches` tests before the condition. -/
def passesFilters : Bool :=
  matchesSubject statement request && matchesRoles document statement request &&
    matchesScopes document statement request && matchesPermissions document statement request &&
    matchesRequestedPermission document statement request && matchesResources statement request &&
    matchesActions statement request && matchesTenants statement request &&
    matchesRequestedRole statement request && matchesRequestedScope statement request

end Filters

section Conditions

def operatorMatches (operator : Option ConditionOperator) (actual : ClaimValue)
    (expected : ConditionValue) : Bool :=
  match operator, expected with
  | some .exists, _ => actual != .none
  | some .equals, .scalar value => actual.equals value
  | some .equals, .sequence _ => false
  | some .notEquals, .scalar value => !actual.equals value
  | some .notEquals, .sequence _ => true
  | some .in, .sequence values => values.any actual.equals
  | some .in, .scalar value => actual.equals value
  | some .contains, .scalar (.string part) =>
    match actual with
    | .string text => decide (part.toList <:+: text.toList)
    | _ => false
  | some .contains, _ => false
  | none, _ => false

def claimValue (claims : List AuthClaim) (key : Option String) : ClaimValue :=
  match key with
  | none => .none
  | some name => ((claims.find? (·.name == name)).map (·.value)).getD .none

variable (document : PolicyDocument) (claims : List AuthClaim)

/-- A condition that is a mere name stands for the condition of that name. The
condition found is taken as it is, also if it is a mere name itself. -/
def resolveCondition (condition : PolicyCondition) : PolicyCondition :=
  match condition.operator, condition.composition, condition.ref with
  | none, none, some ref => (document.condition ref).getD condition
  | _, _, _ => condition

/-- A resolved condition, given how its children are evaluated. -/
def resolvedMatches (recurse : PolicyCondition → Except EvaluationError Bool)
    (resolved : PolicyCondition) : Except EvaluationError Bool :=
  match resolved.composition with
  | some .all => resolved.children.allM recurse
  | some .any => resolved.children.anyM recurse
  | some .not =>
    match resolved.children with
    | [] => .error .indexError
    | child :: _ => (recurse child).map (!·)
  | none => .ok (operatorMatches resolved.operator (claimValue claims resolved.key) resolved.value)

def conditionMatches : Nat → PolicyCondition → Except EvaluationError Bool
  | 0, _ => .error .recursionError
  | depth + 1, condition =>
    resolvedMatches claims (conditionMatches depth) (resolveCondition document condition)

end Conditions

section Evaluation

variable (depth : Nat) (document : PolicyDocument) (request : PolicyEvaluationInput)

def matchesCondition (statement : PolicyStatement) (policyRef : PolicyRef)
    (evidence : List PolicyEvaluationEvidence) :
    Except EvaluationError (Bool × List PolicyEvaluationEvidence) :=
  match statement.condition with
  | none => .ok (true, evidence)
  | some condition => do
      let matched ← conditionMatches document request.authContext.claims depth condition
      let added := {
        kind := if matched then .conditionMatched else .conditionFailed
        policy := some policyRef
        statement := some statement.ref
        reason := if matched then "statement condition matched" else "statement condition failed" }
      pure (matched, evidence ++ [added])

def statementMatches (statement : PolicyStatement) (policyRef : PolicyRef)
    (evidence : List PolicyEvaluationEvidence) :
    Except EvaluationError (Bool × List PolicyEvaluationEvidence) :=
  if passesFilters document statement request then
    matchesCondition depth document request statement policyRef evidence
  else .ok (false, evidence)

/-- Where the loops of `evaluate` are: they have returned, or go on. -/
inductive LoopState where
  | returned (result : PolicyEvaluationResult)
  | running (allowSeen : Bool) (evidence : List PolicyEvaluationEvidence)

def evaluateStatements (policyRef : PolicyRef) :
    List PolicyStatement → Bool → List PolicyEvaluationEvidence → Except EvaluationError LoopState
  | [], allowSeen, evidence => .ok (.running allowSeen evidence)
  | statement :: rest, allowSeen, evidence => do
      let (matched, evidence) ←
        statementMatches depth document request statement policyRef evidence
      if matched then
        let evidence := evidence ++ [{
          kind := .statementMatched
          policy := some policyRef
          statement := some statement.ref
          reason := statement.effect.value ++ " statement matched" }]
        if statement.effect = .deny then
          pure (.returned { allowed := false, effect := some .deny, evidence })
        else evaluateStatements policyRef rest true evidence
      else
        evaluateStatements policyRef rest allowSeen (evidence ++ [{
          kind := .statementSkipped
          policy := some policyRef
          statement := some statement.ref
          reason := "statement did not match request" }])

def evaluatePolicies :
    List NamedPolicy → Bool → List PolicyEvaluationEvidence → Except EvaluationError LoopState
  | [], allowSeen, evidence => .ok (.running allowSeen evidence)
  | policy :: rest, allowSeen, evidence => do
      match ← evaluateStatements depth document request policy.ref policy.statements allowSeen
        evidence with
      | .returned result => pure (.returned result)
      | .running allowSeen evidence => evaluatePolicies rest allowSeen evidence

def selectedPolicies (policyRef : Option PolicyRef) : List NamedPolicy :=
  match policyRef with
  | none => document.policies
  | some ref => (document.policy ref).toList

/-- Evaluate a request with deny precedence and default deny. -/
def evaluate : Except EvaluationError PolicyEvaluationResult := do
  match ← evaluatePolicies depth document request (selectedPolicies document request.policy) false
    [] with
  | .returned result => pure result
  | .running true evidence => pure { allowed := true, effect := some .allow, evidence }
  | .running false evidence =>
    let evidence := evidence ++ [{ kind := .defaultDeny, reason := "no allow statement matched" }]
    pure { allowed := false, effect := none, evidence }

end Evaluation

section Checks

variable (depth : Nat) (document : PolicyDocument)

def decision (result : PolicyEvaluationResult) : AuthorizationDecision :=
  if result.allowed then .allow else .deny .policyDenied

def permissionInput (request : PermissionCheckRequest) : PolicyEvaluationInput where
  authContext := request.authContext
  resource := request.resource
  tenant := request.tenant
  permission := some request.permission

def roleInput (request : RoleCheckRequest) : PolicyEvaluationInput where
  authContext := request.authContext
  tenant := request.tenant
  role := some request.role

def scopeInput (request : ScopeCheckRequest) : PolicyEvaluationInput where
  authContext := request.authContext
  scope := some request.scope

def checkPermission (request : PermissionCheckRequest) :
    Except EvaluationError AuthorizationDecision :=
  (evaluate depth document (permissionInput request)).map decision

def checkRole (request : RoleCheckRequest) : Except EvaluationError AuthorizationDecision :=
  (evaluate depth document (roleInput request)).map decision

def checkScope (request : ScopeCheckRequest) : Except EvaluationError AuthorizationDecision :=
  (evaluate depth document (scopeInput request)).map decision

end Checks

end Spakky.Policy
