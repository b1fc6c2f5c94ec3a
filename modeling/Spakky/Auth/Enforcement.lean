import Spakky.Auth.Metadata
import Spakky.Auth.Types
import Spakky.Effect

/-!
`AuthorizationAspect.around`: the requirements of a joinpoint are evaluated for the
caller's authentication state before it is called. The checkers answer as they like, or
raise. The asynchronous aspect has the same steps in the same order.
-/

namespace Spakky.Auth

open Effect Exec

/-- What is stored as the authentication state of the current context. -/
inductive ContextValue where
  | absent
  | invalid
  | auth (context : AuthContext)
  deriving DecidableEq, Repr

/-- The checkers an aspect or an adapter has been given. -/
structure Checkers (ε : Type) where
  authorizationPolicyEvaluator : Option (AuthorizationRequest → Except ε AuthorizationDecision)
  permissionChecker : Option (PermissionCheckRequest → Except ε AuthorizationDecision)
  relationChecker : Option (RelationCheckRequest → Except ε AuthorizationDecision)
  roleChecker : Option (RoleCheckRequest → Except ε AuthorizationDecision)
  scopeChecker : Option (ScopeCheckRequest → Except ε AuthorizationDecision)

/-- The errors of the aspect, and those of a checker. -/
inductive AuthError (ε : Type) where
  | conflictingAuthMetadata
  | authContextNotFound
  | invalidAuthContextValue
  | authRequirementDenied (decision : AuthorizationDecision)
  | authRequirementProviderUnavailable
  | checker (error : ε)

/-- A requirement that was evaluated for a caller, and the decision. -/
structure Evaluation where
  requirement : AuthRequirement
  authContext : AuthContext
  decision : AuthorizationDecision

section Requirements

variable {ε : Type}

/-- `require_auth_context` -/
def requireAuthContext : ContextValue → Except (AuthError ε) AuthContext
  | .auth context => .ok context
  | .absent => .error .authContextNotFound
  | .invalid => .error .invalidAuthContextValue

/-- What a checker that may be missing answers. -/
def consult {Request : Type} (checker : Option (Request → Except ε AuthorizationDecision))
    (request : Request) : Except (AuthError ε) AuthorizationDecision :=
  match checker with
  | none => .error .authRequirementProviderUnavailable
  | some check => (check request).mapError .checker

/-- `AuthorizationAspect._evaluate_requirement` -/
def evaluateRequirement (checkers : Checkers ε) (authContext : AuthContext)
    (requirement : AuthRequirement) : Except (AuthError ε) AuthorizationDecision :=
  match requirement.kind with
  | .authenticated => .ok .allow
  | .permission =>
    consult checkers.permissionChecker
      { authContext, permission := requirement.ref, resource := requirement.resource,
        tenant := requirement.tenant }
  | .policy =>
    match requirement.resource, requirement.action with
    | some resource, some action =>
      consult checkers.authorizationPolicyEvaluator
        { authContext, resource, action, tenant := requirement.tenant }
    | _, _ => .error .authRequirementProviderUnavailable
  | .relation =>
    match requirement.resource with
    | some resource =>
      consult checkers.relationChecker
        { authContext, relation := requirement.ref, resource, tenant := requirement.tenant }
    | none => .error .authRequirementProviderUnavailable
  | .role =>
    consult checkers.roleChecker
      { authContext, role := requirement.ref, tenant := requirement.tenant }
  | .scope => consult checkers.scopeChecker { authContext, scope := requirement.ref }

end Requirements

section Aspect

variable {σ ε φ α : Type}

/-- How a state records the evaluations, and how the errors of the aspect are raised. -/
structure Recording (σ ε φ : Type) where
  record : Evaluation → σ → σ
  raised : AuthError ε → φ

variable (recording : Recording σ ε φ) (checkers : Checkers ε)

/-- One round of the loop over the requirements. -/
def enforce (authContext : AuthContext) (requirement : AuthRequirement) : Exec σ φ Unit := do
  let decision ←
    ofExcept ((evaluateRequirement checkers authContext requirement).mapError recording.raised)
  modify (recording.record ⟨requirement, authContext, decision⟩)
  if decision.state ≠ .allow then raise (recording.raised (.authRequirementDenied decision))

/-- What stands before the call of the joinpoint. -/
def authorize (sources : List AuthAnnotations) (stored : ContextValue) : Exec σ φ Unit := do
  let metadata ←
    ofExcept ((getEffectiveAuthMetadata sources).mapError fun _ =>
      recording.raised .conflictingAuthMetadata)
  if metadata.isProtected then
    let authContext ← ofExcept ((requireAuthContext stored).mapError recording.raised)
    forEach (enforce recording checkers authContext) metadata.requirements

/-- `AuthorizationAspect.around`, with the metadata sources of the joinpoint. -/
def authorizationAround (sources : List AuthAnnotations) (stored : ContextValue)
    (joinpoint : Exec σ φ α) : Exec σ φ α := do
  authorize recording checkers sources stored
  joinpoint

end Aspect

section Authorizing

variable {σ ε φ : Type} {recording : Recording σ ε φ} {checkers : Checkers ε}

/-- The state after a number of evaluations. -/
def Recording.recordAll (recording : Recording σ ε φ) (evaluations : List Evaluation) (s : σ) : σ :=
  evaluations.foldl (fun s evaluation => recording.record evaluation s) s

/-- An evaluation that lets a caller pass. -/
structure Evaluation.Allows (evaluation : Evaluation) (authContext : AuthContext) : Prop where
  context : evaluation.authContext = authContext
  allow : evaluation.decision.state = .allow

variable {authContext : AuthContext}

theorem enforce_ok {requirement : AuthRequirement} {s t : σ}
    (hrun : enforce recording checkers authContext requirement s = (.ok (), t)) :
    ∃ evaluation : Evaluation, evaluation.requirement = requirement ∧
      evaluation.Allows authContext ∧ t = recording.record evaluation s := by
  obtain ⟨decision, s', hdec, hrest⟩ := bind_eq_ok.mp hrun
  have hsame : s = s' := congrArg Prod.snd hdec
  subst hsame
  by_cases hallow : decision.state = .allow
  · rw [if_neg (by simpa using hallow)] at hrest
    exact ⟨⟨requirement, authContext, decision⟩, rfl, ⟨rfl, hallow⟩, (congrArg Prod.snd hrest).symm⟩
  · rw [if_pos hallow] at hrest
    cases hrest

/-- A loop that ends well has evaluated every requirement, in order, and each was allowed. -/
theorem forEach_enforce_ok {requirements : List AuthRequirement} {s t : σ}
    (hrun : forEach (enforce recording checkers authContext) requirements s = (.ok (), t)) :
    ∃ evaluations : List Evaluation, evaluations.map (·.requirement) = requirements ∧
      (∀ evaluation ∈ evaluations, evaluation.Allows authContext) ∧
      t = recording.recordAll evaluations s := by
  induction requirements generalizing s with
  | nil => exact ⟨[], rfl, by simp, (congrArg Prod.snd hrun).symm⟩
  | cons _ _ ih =>
    obtain ⟨_, _, hfirst, hrest⟩ := bind_eq_ok.mp hrun
    obtain ⟨evaluation, rfl, hallows, rfl⟩ := enforce_ok hfirst
    obtain ⟨evaluations, rfl, hall, rfl⟩ := ih hrest
    refine ⟨evaluation :: evaluations, rfl, ?_, rfl⟩
    intro other hother
    rcases List.mem_cons.mp hother with rfl | hmem
    · exact hallows
    · exact hall other hmem

/-- A caller who passes has an authentication state, and every requirement was evaluated for
it and allowed. -/
theorem authorize_ok {sources : List AuthAnnotations} {stored : ContextValue} {s t : σ}
    (hrun : authorize recording checkers sources stored s = (.ok (), t))
    (hreqs : ∃ source ∈ sources, source.requirements ≠ []) :
    ∃ authContext, stored = .auth authContext ∧ ∃ evaluations : List Evaluation,
      t = recording.recordAll evaluations s ∧
      (∀ evaluation ∈ evaluations, evaluation.Allows authContext) ∧
      ∀ source ∈ sources, ∀ requirement ∈ source.requirements,
        ∃ evaluation ∈ evaluations, evaluation.requirement = requirement := by
  obtain ⟨metadata, s', hmeta, hrest⟩ := bind_eq_ok.mp hrun
  have hsame : s = s' := congrArg Prod.snd hmeta
  subst hsame
  have hmeta : getEffectiveAuthMetadata sources = .ok metadata := by
    cases hcase : getEffectiveAuthMetadata sources with
    | ok =>
      rw [hcase] at hmeta
      exact congrArg Except.ok (Except.ok.inj (congrArg Prod.fst hmeta))
    | error =>
      rw [hcase] at hmeta
      cases hmeta
  have hprot : metadata.isProtected = true := by
    obtain ⟨source, hsrc, hsome⟩ := hreqs
    obtain ⟨_, hreq⟩ := List.exists_mem_of_ne_nil _ hsome
    rw [isProtected_iff]
    exact List.ne_nil_of_mem
      ((mem_effective_requirements hmeta).mpr ⟨source, hsrc, hreq⟩)
  rw [if_pos hprot] at hrest
  obtain ⟨authContext, s', hctx, hloop⟩ := bind_eq_ok.mp hrest
  have hsame : s = s' := congrArg Prod.snd hctx
  subst hsame
  have hstored : stored = .auth authContext := by
    cases stored with
    | auth =>
      exact congrArg ContextValue.auth (Except.ok.inj (congrArg Prod.fst hctx))
    | absent => cases hctx
    | invalid => cases hctx
  obtain ⟨evaluations, hevaluated, hallowed, hstate⟩ := forEach_enforce_ok hloop
  refine ⟨authContext, hstored, evaluations, hstate, hallowed, ?_⟩
  intro source hsrc requirement hreq
  have hmem : requirement ∈ evaluations.map (·.requirement) := by
    rw [hevaluated]
    exact (mem_effective_requirements hmeta).mpr ⟨source, hsrc, hreq⟩
  exact List.mem_map.mp hmem

variable (sources : List AuthAnnotations) (stored : ContextValue)

/-- Whether a caller passes does not depend on the state. -/
theorem authorize_uniform : Uniform (authorize recording checkers sources stored) := by
  have henforce : ∀ authContext requirement,
      Uniform (enforce recording checkers authContext requirement) := by
    intro authContext requirement
    apply Uniform.bind (Uniform.ofExcept _)
    intro decision
    apply Uniform.bind (Uniform.modify _)
    intro _
    split
    · exact .raise _
    · exact .pure ()
  apply Uniform.bind (Uniform.ofExcept _)
  intro metadata
  split
  · exact .bind (.ofExcept _) fun authContext =>
      Uniform.forEach (henforce authContext) _
  · exact .pure ()

/-- An error that the aspect raises. -/
def Recording.IsRefusal (recording : Recording σ ε φ) (error : φ) : Prop :=
  ∃ refusal, error = recording.raised refusal

/-- A caller who does not pass sees an error of the aspect. -/
theorem authorize_raises :
    RaisesOnly recording.IsRefusal (authorize recording checkers sources stored) := by
  have hmapped : ∀ {β : Type} {result : Except (AuthError ε) β} (error : φ),
      result.mapError recording.raised = .error error → recording.IsRefusal error := by
    intro β result error herror
    cases result with
    | ok => cases herror
    | error refusal => exact ⟨refusal, (Except.error.inj herror).symm⟩
  have henforce : ∀ authContext requirement,
      RaisesOnly recording.IsRefusal (enforce recording checkers authContext requirement) := by
    intro authContext requirement
    apply RaisesOnly.bind (RaisesOnly.ofExcept hmapped)
    intro decision
    refine RaisesOnly.bind (RaisesOnly.modify _) fun _ => ?_
    split
    · exact .raise ⟨_, rfl⟩
    · exact .pure ()
  have hconflict : ∀ error, (getEffectiveAuthMetadata sources).mapError
      (fun _ => recording.raised .conflictingAuthMetadata) = .error error →
        recording.IsRefusal error := by
    intro error herror
    cases hmeta : getEffectiveAuthMetadata sources with
    | ok =>
      rw [hmeta] at herror
      cases herror
    | error =>
      rw [hmeta] at herror
      exact ⟨.conflictingAuthMetadata, (Except.error.inj herror).symm⟩
  apply RaisesOnly.bind (RaisesOnly.ofExcept hconflict)
  intro metadata
  split
  · exact .bind (.ofExcept hmapped) fun authContext =>
      RaisesOnly.forEach (henforce authContext) _
  · exact .pure ()

end Authorizing

end Spakky.Auth
