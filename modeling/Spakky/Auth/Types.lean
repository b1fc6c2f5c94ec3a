import Mathlib.Data.List.Basic

/-!
The authentication state of a caller, the requests made on its behalf and the
decisions about them, as every authorization provider sees them.

Claim values are compared as Python compares them: a boolean is a number, and
numbers of different types are equal if they have the same value.
-/

namespace Spakky.Auth

/-- A float, without the sign of a zero. -/
inductive FloatValue where
  | finite (value : Rat)
  | infinite (negative : Bool)
  | nan
  deriving DecidableEq, Repr

inductive ClaimValue where
  | none
  | boolean (value : Bool)
  | integer (value : Int)
  | float (value : FloatValue)
  | string (value : String)
  deriving DecidableEq, Repr

/-- The number a value counts as in a comparison. -/
def ClaimValue.number? : ClaimValue → Option FloatValue
  | .boolean value => some (.finite (if value then 1 else 0))
  | .integer value => some (.finite value)
  | .float value => some value
  | .none | .string _ => Option.none

/-- `==` -/
def ClaimValue.equals (a b : ClaimValue) : Bool :=
  match a.number?, b.number? with
  | some x, some y => x == y && x != .nan
  | Option.none, Option.none => a == b
  | _, _ => false

structure AuthClaim where
  name : String
  value : ClaimValue
  deriving DecidableEq, Repr

structure AuthSubject where
  id : String
  displayName : Option String := none
  deriving DecidableEq, Repr

/-- What the providers read of an authenticated caller. -/
structure AuthContext where
  subject : AuthSubject
  issuer : String
  tenant : Option String := none
  roles : List String := []
  scopes : List String := []
  claims : List AuthClaim := []
  deriving DecidableEq, Repr

inductive AuthorizationDecisionState where
  | allow
  | challenge
  | deny
  | error
  deriving DecidableEq, Repr

inductive AuthorizationReasonCode where
  | authorized
  | missingCredential
  | invalidCredential
  | expiredCredential
  | insufficientRole
  | insufficientScope
  | policyDenied
  | snapshotMissing
  | snapshotInvalid
  | snapshotExpired
  | verificationProviderUnavailable
  | internalError
  deriving DecidableEq, Repr

structure AuthorizationDecision where
  state : AuthorizationDecisionState
  reasonCode : AuthorizationReasonCode
  reason : Option String := none
  deriving DecidableEq, Repr

namespace AuthorizationDecision

def allow (reasonCode : AuthorizationReasonCode := .authorized) (reason : Option String := none) :
    AuthorizationDecision :=
  { state := .allow, reasonCode, reason }

def deny (reasonCode : AuthorizationReasonCode) (reason : Option String := none) :
    AuthorizationDecision :=
  { state := .deny, reasonCode, reason }

def error (reasonCode : AuthorizationReasonCode) (reason : Option String := none) :
    AuthorizationDecision :=
  { state := .error, reasonCode, reason }

end AuthorizationDecision

structure AuthorizationRequest where
  authContext : AuthContext
  resource : String
  action : String
  tenant : Option String := none

structure PermissionCheckRequest where
  authContext : AuthContext
  permission : String
  resource : Option String := none
  tenant : Option String := none

structure RoleCheckRequest where
  authContext : AuthContext
  role : String
  tenant : Option String := none

structure ScopeCheckRequest where
  authContext : AuthContext
  scope : String

structure RelationCheckRequest where
  authContext : AuthContext
  relation : String
  resource : String
  tenant : Option String := none

end Spakky.Auth
