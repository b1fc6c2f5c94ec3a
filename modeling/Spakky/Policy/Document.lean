import Spakky.Auth.Types

/-!
Policy documents as the evaluator reads them. The dictionaries it builds from
the lists of a document keep the last entry of a name.

Parts of a document that the evaluator does not read (its version and
metadata, the declarations of resources, actions and permissions, and the
claims and tenant of a subject) are left out.
-/

namespace Spakky.Policy

open Auth

abbrev PolicyRef := String

inductive PolicyEffect where
  | allow
  | deny
  deriving DecidableEq, Repr

def PolicyEffect.value : PolicyEffect → String
  | .allow => "allow"
  | .deny => "deny"

inductive ConditionOperator where
  | equals
  | notEquals
  | in
  | contains
  | exists
  deriving DecidableEq, Repr

inductive ConditionComposition where
  | all
  | any
  | not
  deriving DecidableEq, Repr

/-- What a claim is compared with. -/
inductive ConditionValue where
  | scalar (value : ClaimValue)
  | sequence (values : List ClaimValue)
  deriving DecidableEq, Repr

/-- An atomic or composite condition, or the name of one. -/
inductive PolicyCondition where
  | mk (ref : Option PolicyRef) (operator : Option ConditionOperator) (key : Option String)
      (value : ConditionValue) (composition : Option ConditionComposition)
      (children : List PolicyCondition)
  deriving Repr

namespace PolicyCondition

def ref : PolicyCondition → Option PolicyRef
  | mk ref _ _ _ _ _ => ref

def operator : PolicyCondition → Option ConditionOperator
  | mk _ operator _ _ _ _ => operator

def key : PolicyCondition → Option String
  | mk _ _ key _ _ _ => key

def value : PolicyCondition → ConditionValue
  | mk _ _ _ value _ _ => value

def composition : PolicyCondition → Option ConditionComposition
  | mk _ _ _ _ composition _ => composition

def children : PolicyCondition → List PolicyCondition
  | mk _ _ _ _ _ children => children

/-- The name of a condition, standing for it. -/
def named (ref : PolicyRef) : PolicyCondition := mk (some ref) none none (.scalar .none) none []

def atomic (operator : ConditionOperator) (key : String) (value : ConditionValue)
    (ref : Option PolicyRef := none) : PolicyCondition :=
  mk ref (some operator) (some key) value none []

def composite (composition : ConditionComposition) (children : List PolicyCondition)
    (ref : Option PolicyRef := none) : PolicyCondition :=
  mk ref none none (.scalar .none) (some composition) children

end PolicyCondition

structure PolicySubject where
  ref : PolicyRef
  roles : List PolicyRef := []
  scopes : List PolicyRef := []
  permissions : List PolicyRef := []
  deriving DecidableEq, Repr

/-- A name that is expanded into permissions. -/
structure PolicyGrant where
  ref : PolicyRef
  permissions : List PolicyRef := []
  deriving DecidableEq, Repr

abbrev PolicyRole := PolicyGrant

abbrev PolicyScope := PolicyGrant

structure PolicyStatement where
  ref : PolicyRef
  effect : PolicyEffect
  subjects : List PolicyRef := []
  roles : List PolicyRef := []
  scopes : List PolicyRef := []
  permissions : List PolicyRef := []
  resources : List PolicyRef := []
  actions : List PolicyRef := []
  tenants : List PolicyRef := []
  condition : Option PolicyCondition := none

structure NamedPolicy where
  ref : PolicyRef
  statements : List PolicyStatement

structure PolicyDocument where
  subjects : List PolicySubject := []
  roles : List PolicyRole := []
  scopes : List PolicyScope := []
  policies : List NamedPolicy := []
  conditions : List PolicyCondition := []

/-- The entry of a dictionary that was filled from a list. -/
def lastNamed {α : Type} (ref : α → Option PolicyRef) (entries : List α) (name : PolicyRef) :
    Option α :=
  entries.reverse.find? fun entry => ref entry == some name

namespace PolicyDocument

variable (document : PolicyDocument)

def subject (id : PolicyRef) : Option PolicySubject := lastNamed (some ·.ref) document.subjects id

variable (ref : PolicyRef) (context : AuthContext)

def policy : Option NamedPolicy := lastNamed (some ·.ref) document.policies ref

def condition : Option PolicyCondition :=
  lastNamed PolicyCondition.ref document.conditions ref

def grantedBy (grants : List PolicyGrant) (ref : PolicyRef) : List PolicyRef :=
  ((lastNamed (some ·.ref) grants ref).map (·.permissions)).getD []

def rolePermissions : List PolicyRef := grantedBy document.roles ref

def scopePermissions : List PolicyRef := grantedBy document.scopes ref

/-- The statements of all policies, in document order. -/
def statements : List PolicyStatement := document.policies.flatMap (·.statements)

/-- The roles of the caller and those the document adds for its subject. -/
def subjectRoles : List PolicyRef :=
  match document.subject context.subject.id with
  | none => context.roles
  | some subject => context.roles ++ subject.roles

def subjectScopes : List PolicyRef :=
  match document.subject context.subject.id with
  | none => context.scopes
  | some subject => context.scopes ++ subject.scopes

/-- The permissions a subject has by itself and through its roles and scopes. -/
def subjectPermissions : List PolicyRef :=
  let declared := match document.subject context.subject.id with
    | none => []
    | some subject =>
      subject.permissions ++ subject.roles.flatMap document.rolePermissions ++
        subject.scopes.flatMap document.scopePermissions
  (declared ++ context.roles.flatMap document.rolePermissions ++
    context.scopes.flatMap document.scopePermissions).eraseDups

end PolicyDocument

end Spakky.Policy
