import Spakky.Auth.Types
import Spakky.Effect
import Spakky.Separated

/-!
Relation checks and policy evaluations through OpenFGA. Each is answered by
one check of a user, a relation and an object; the object carries the tenant
in front of the resource.

The client is arbitrary: its answer may depend on everything it was asked
before, and it may raise. The state of a computation is the list of queries
that reached the client.
-/

namespace Spakky.OpenFga

open Auth Effect Exec Separated

structure OpenFgaCheckRequest where
  user : String
  relation : String
  object : String
  deriving DecidableEq, Repr

structure OpenFgaCheckResult where
  allowed : Bool
  deriving DecidableEq, Repr

/-- The two errors of the provider, and any other exception of a client. -/
inductive OpenFgaError where
  | providerUnavailable
  | referenceMapping
  | other (name : String)
  deriving DecidableEq, Repr

/-- What the provider reads of the configuration. -/
structure OpenFgaConfig where
  principalType : String := "user"
  tenantSeparator : String := "/"
  includeTenantInObject : Bool := true
  relationCheckAvailable : Bool := true
  deriving DecidableEq, Repr

abbrev Queries := List OpenFgaCheckRequest

abbrev Client := Queries → OpenFgaCheckRequest → Except OpenFgaError OpenFgaCheckResult

variable (config : OpenFgaConfig) (client : Client)

def Client.check (request : OpenFgaCheckRequest) :
    Exec Queries OpenFgaError OpenFgaCheckResult := fun queries =>
  (client queries request, queries ++ [request])

/-- What `str.strip` removes. -/
def isSpace (c : Char) : Bool :=
  let code := c.toNat
  (0x09 ≤ code && code ≤ 0x0d) || (0x1c ≤ code && code ≤ 0x20) || code == 0x85 ||
    code == 0xa0 || code == 0x1680 || (0x2000 ≤ code && code ≤ 0x200a) || code == 0x2028 ||
    code == 0x2029 || code == 0x202f || code == 0x205f || code == 0x3000

def requiredRef (value : String) : Except OpenFgaError String :=
  if value.toList.all isSpace then .error .referenceMapping else .ok value

def openfgaUser (subjectId : String) : Except OpenFgaError String := do
  let principal ← requiredRef subjectId
  if ':' ∈ principal.toList then
    return principal
  else
    return (← requiredRef config.principalType) ++ ":" ++ principal

def openfgaObject (resource : String) (tenant : Option String) : Except OpenFgaError String := do
  let canonicalResource ← requiredRef resource
  match tenant with
  | none => return canonicalResource
  | some tenant =>
    if config.includeTenantInObject then
      let canonicalTenant ← requiredRef tenant
      let separator ← requiredRef config.tenantSeparator
      return canonicalTenant ++ separator ++ canonicalResource
    else
      return canonicalResource

def effectiveTenant (requestTenant contextTenant : Option String) : Option String :=
  match requestTenant with
  | some tenant => some tenant
  | none => contextTenant

def decisionFromResult (result : OpenFgaCheckResult) : AuthorizationDecision :=
  if result.allowed then .allow else .deny .policyDenied

def unavailableDecision : AuthorizationDecision :=
  .error .verificationProviderUnavailable (some "OpenFGA relation check provider unavailable")

/-- The arguments of a check, as `check_relation` and `evaluate_policy` pass
them on. -/
structure CheckArguments where
  subjectId : String
  relation : String
  resource : String
  tenant : Option String
  deriving DecidableEq, Repr

/-- The query for the client, mapped in the order user, relation, object. -/
def checkRequest (arguments : CheckArguments) : Except OpenFgaError OpenFgaCheckRequest := do
  let user ← openfgaUser config arguments.subjectId
  let relation ← requiredRef arguments.relation
  let object ← openfgaObject config arguments.resource arguments.tenant
  return { user, relation, object }

/-- The `except` clauses of `_check`. -/
def handled : Except OpenFgaError OpenFgaCheckResult → Except OpenFgaError AuthorizationDecision
  | .ok result => .ok (decisionFromResult result)
  | .error .providerUnavailable => .ok unavailableDecision
  | .error .referenceMapping =>
    .ok (.error .internalError (some "OpenFGA canonical reference mapping failed"))
  | .error (.other name) => .error (.other name)

def check (config : OpenFgaConfig) (client : Client) (arguments : CheckArguments) :
    Exec Queries OpenFgaError AuthorizationDecision :=
  if config.relationCheckAvailable then do
    let result ← attempt (ofExcept (checkRequest config arguments) >>= client.check)
    ofExcept (handled result)
  else
    pure unavailableDecision

/-- The two requests the provider answers. -/
inductive ProviderRequest where
  | relation (request : RelationCheckRequest)
  | policy (request : AuthorizationRequest)

namespace ProviderRequest

def arguments : ProviderRequest → CheckArguments
  | .relation request =>
    { subjectId := request.authContext.subject.id
      relation := request.relation
      resource := request.resource
      tenant := effectiveTenant request.tenant request.authContext.tenant }
  | .policy request =>
    { subjectId := request.authContext.subject.id
      relation := request.action
      resource := request.resource
      tenant := effectiveTenant request.tenant request.authContext.tenant }

/-- The effective tenant and the resource, which a decision is about. -/
def target (request : ProviderRequest) : Option String × String :=
  (request.arguments.tenant, request.arguments.resource)

end ProviderRequest

def checkRelation (request : RelationCheckRequest) :
    Exec Queries OpenFgaError AuthorizationDecision :=
  check config client (ProviderRequest.relation request).arguments

def evaluatePolicy (request : AuthorizationRequest) :
    Exec Queries OpenFgaError AuthorizationDecision :=
  check config client (ProviderRequest.policy request).arguments

def respond : ProviderRequest → Exec Queries OpenFgaError AuthorizationDecision
  | .relation request => checkRelation config client request
  | .policy request => evaluatePolicy config client request

/-- The request is answered by this query to the client. -/
def Sends (request : ProviderRequest) (queries : Queries) (query : OpenFgaCheckRequest) : Prop :=
  (respond config client request queries).2 = queries ++ [query]

section Mapping

variable {config : OpenFgaConfig}

theorem requiredRef_eq_ok {value ref : String} (h : requiredRef value = .ok ref) : ref = value := by
  rw [requiredRef] at h
  split at h
  · cases h
  · exact (Except.ok.inj h).symm

/-- The characters of a tenant and a resource. -/
def characters (target : Option String × String) : Option (List Char) × List Char :=
  (target.1.map String.toList, target.2.toList)

theorem characters_injective {a b : Option String × String} (h : characters a = characters b) :
    a = b := by
  obtain ⟨htenant, hresource⟩ := Prod.mk.inj h
  refine Prod.ext ?_ (String.toList_injective hresource)
  exact Option.map_injective (fun _ _ => String.toList_injective) htenant

/-- The object is the tenant and the resource joined by the separator. -/
theorem openfgaObject_join (hinclude : config.includeTenantInObject = true) {resource : String}
    {tenant : Option String} {object : String}
    (h : openfgaObject config resource tenant = .ok object) :
    object.toList = join config.tenantSeparator.toList (characters (tenant, resource)) := by
  obtain ⟨_, hresource, h⟩ := except_bind_ok h
  rw [requiredRef_eq_ok hresource] at h
  cases tenant with
  | none =>
    rw [← Except.ok.inj h]
    rfl
  | some =>
    simp only [hinclude, if_true] at h
    obtain ⟨_, htenant, h⟩ := except_bind_ok h
    obtain ⟨_, hsep, h⟩ := except_bind_ok h
    rw [← Except.ok.inj h, requiredRef_eq_ok htenant, requiredRef_eq_ok hsep]
    simp [join, characters]

theorem checkRequest_object {arguments : CheckArguments} {query : OpenFgaCheckRequest}
    (h : checkRequest config arguments = .ok query) :
    openfgaObject config arguments.resource arguments.tenant = .ok query.object := by
  obtain ⟨_, _, h⟩ := except_bind_ok h
  obtain ⟨_, _, h⟩ := except_bind_ok h
  obtain ⟨_, hobj, h⟩ := except_bind_ok h
  rw [← Except.ok.inj h]
  exact hobj

end Mapping

section Answers

variable {config : OpenFgaConfig} {client : Client}

theorem respond_eq_check (request : ProviderRequest) :
    respond config client request = check config client request.arguments := by
  cases request <;> rfl

/-- A check asks the client at most once, and what it returns then is the
client's answer. -/
theorem check_run (arguments : CheckArguments) (queries : Queries) :
    check config client arguments queries =
      if config.relationCheckAvailable then
        match checkRequest config arguments with
        | .ok query => (handled (client queries query), queries ++ [query])
        | .error error => (handled (.error error), queries)
      else (.ok unavailableDecision, queries) := by
  rw [check]
  cases config.relationCheckAvailable with
  | false => rfl
  | true =>
    cases hrequest : checkRequest config arguments with
    | ok =>
      rfl
    | error => rfl

theorem Sends.query {request : ProviderRequest} {queries : Queries} {query : OpenFgaCheckRequest}
    (h : Sends config client request queries query) :
    checkRequest config request.arguments = .ok query := by
  have hne : queries ≠ queries ++ [query] := by simp
  rw [Sends, respond_eq_check, check_run] at h
  split at h
  · split at h
    · rename_i sent hsent
      rw [hsent, List.singleton_inj.mp (List.append_cancel_left h)]
    · exact absurd h hne
  · exact absurd h hne

/-- What the client would answer to other queries has no influence. -/
theorem respond_congr {other : Client} {request : ProviderRequest} {queries : Queries}
    (h : ∀ query, Sends config client request queries query →
      client queries query = other queries query) :
    respond config client request queries = respond config other request queries := by
  rw [respond_eq_check, respond_eq_check, check_run, check_run]
  split
  · rename_i havailable
    split
    · rename_i query hquery
      have hsends : Sends config client request queries query := by
        rw [Sends, respond_eq_check, check_run, if_pos havailable, hquery]
      rw [h query hsends]
    · rfl
  · rfl

end Answers

section Isolation

variable {config : OpenFgaConfig} {client : Client} {first second : ProviderRequest}
  {queries later : Queries} {query query' : OpenFgaCheckRequest}

theorem same_object_iff (hinclude : config.includeTenantInObject = true)
    (hfirst : Sends config client first queries query)
    (hsnd : Sends config client second later query') (hdiffer : first.target ≠ second.target) :
    query.object = query'.object ↔
      Confusable config.tenantSeparator.toList (characters first.target)
        (characters second.target) := by
  have hobj := openfgaObject_join hinclude (checkRequest_object hfirst.query)
  have hobj' := openfgaObject_join hinclude (checkRequest_object hsnd.query)
  have hcharacters : characters first.target ≠ characters second.target := by
    intro h
    exact hdiffer (characters_injective h)
  rw [← String.toList_inj, hobj, hobj', join_eq_iff]
  exact or_iff_right hcharacters

/-- Two requests about different targets query different objects exactly if
their targets are not confusable, and then no answer about the object of the
one has an influence on the other. -/
theorem isolated_iff_not_confusable (hinclude : config.includeTenantInObject = true)
    (hfirst : Sends config client first queries query)
    (hsecond : Sends config client second later query') (hdiffer : first.target ≠ second.target) :
    (query.object ≠ query'.object ↔
      ¬ Confusable config.tenantSeparator.toList (characters first.target)
        (characters second.target)) ∧
    (query.object ≠ query'.object → ∀ other : Client,
        (∀ asked query, query.object ≠ query'.object → other asked query = client asked query) →
          respond config other first queries = respond config client first queries) := by
  refine ⟨not_congr (same_object_iff hinclude hfirst hsecond hdiffer), ?_⟩
  intro hobjects other hagree
  symm
  apply respond_congr
  intro sent hsent
  have hsame : sent = query := by
    rw [Sends, hfirst] at hsent
    exact (List.singleton_inj.mp (List.append_cancel_left hsent)).symm
  rw [hsame, hagree queries query hobjects]

end Isolation

def viewerOf (tenant : Option String) (resource : String) : ProviderRequest :=
  .relation
    { authContext := { subject := { id := "user:alice" }, issuer := "issuer" }
      relation := "viewer"
      resource
      tenant }

@[simp] theorem viewerOf_target (tenant : Option String) (resource : String) :
    (viewerOf tenant resource).target = (tenant, resource) := by
  cases tenant <;> rfl

def viewerQuery (object : String) : OpenFgaCheckRequest :=
  { user := "user:alice", relation := "viewer", object }

def permissive : Client := fun _ _ => .ok { allowed := true }

/-- With the default separator, a slash in a tenant or a resource moves the
resource of one tenant to another, and a resource without a tenant to a
tenant. -/
theorem slash_crosses_tenants :
    (Sends {} permissive (viewerOf (some "acme") "eu/doc") [] (viewerQuery "acme/eu/doc") ∧
      Sends {} permissive (viewerOf (some "acme/eu") "doc") [] (viewerQuery "acme/eu/doc") ∧
      (viewerOf (some "acme") "eu/doc").target ≠ (viewerOf (some "acme/eu") "doc").target) ∧
    Sends {} permissive (viewerOf none "acme/doc") [] (viewerQuery "acme/doc") ∧
      Sends {} permissive (viewerOf (some "acme") "doc") [] (viewerQuery "acme/doc") ∧
      (viewerOf none "acme/doc").target ≠ (viewerOf (some "acme") "doc").target := by
  refine ⟨⟨rfl, rfl, ?_⟩, rfl, rfl, ?_⟩
  · simp
  · simp

theorem isolated_iff_not_confusable_two_tenants :
    (viewerQuery "acme/doc").object ≠ (viewerQuery "apex/doc").object ↔
      ¬ Confusable ['/'] (characters (some "acme", "doc")) (characters (some "apex", "doc")) := by
  have hacme : Sends {} permissive (viewerOf (some "acme") "doc") [] (viewerQuery "acme/doc") := rfl
  have hapex : Sends {} permissive (viewerOf (some "apex") "doc") [] (viewerQuery "apex/doc") := rfl
  have hdiffer : (viewerOf (some "acme") "doc").target ≠ (viewerOf (some "apex") "doc").target := by
    simp
  exact (isolated_iff_not_confusable rfl hacme hapex hdiffer).1

end Spakky.OpenFga
