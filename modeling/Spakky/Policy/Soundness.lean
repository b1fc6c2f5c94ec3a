import Spakky.Policy.Verdict

/-!
What an ALLOW says about the subject. A permission is allowed only to a
subject that has it. For roles and scopes this fails: the filter for the
requested name compares it with the statement, and the filter for the held
names compares the statement with the subject, and a statement that names
nothing, or the requested name beside one the subject holds, passes both.
-/

namespace Spakky.Policy

open Auth Spakky.DenyOverrides

/-- No statement fails to evaluate or denies the request, so that an ALLOW
statement that matches decides it. -/
def NothingStops (depth : Nat) (document : PolicyDocument) (input : PolicyEvaluationInput) : Prop :=
  ∀ statement ∈ document.statements, ∃ holds,
    statementHolds depth document input statement = .ok holds ∧
      (statement.effect = .deny → holds = false)

/-- A list of a statement that lets a request for a name pass which the
subject does not hold: it is empty, or it has the name beside one the subject
holds. -/
def Admits (requested : PolicyRef) (held named : List PolicyRef) : Prop :=
  named = [] ∨ requested ∈ named ∧ ∃ other ∈ named, other ∈ held ∧ other ≠ requested

/-- The subject holds what is asked for, or something stops the request, or no
ALLOW statement that matches admits the name although it is not held. -/
def Guarded (depth : Nat) (document : PolicyDocument) (input : PolicyEvaluationInput)
    (requested : PolicyRef) (held : List PolicyRef) (named : PolicyStatement → List PolicyRef) :
    Prop :=
  requested ∈ held ∨ ¬ NothingStops depth document input ∨
    ∀ statement ∈ document.statements, statement.effect = .allow →
      Admits requested held (named statement) →
        statementHolds depth document input statement ≠ .ok true

/-- What a statement that passes the filters has passed. -/
structure Passed (document : PolicyDocument) (statement : PolicyStatement)
    (input : PolicyEvaluationInput) : Prop where
  subject : matchesSubject statement input = true
  roles : matchesRoles document statement input = true
  scopes : matchesScopes document statement input = true
  permissions : matchesPermissions document statement input = true
  requestedPermission : matchesRequestedPermission document statement input = true
  resources : matchesResources statement input = true
  actions : matchesActions statement input = true
  tenants : matchesTenants statement input = true
  requestedRole : matchesRequestedRole statement input = true
  requestedScope : matchesRequestedScope statement input = true

theorem passed {document : PolicyDocument} {statement : PolicyStatement}
    {input : PolicyEvaluationInput} (hpasses : passesFilters document statement input = true) :
    Passed document statement input := by
  simp only [passesFilters, Bool.and_eq_true, and_assoc] at hpasses
  obtain ⟨subject, roles, scopes, permissions, requestedPermission, resources, actions, tenants,
    requestedRole, requestedScope⟩ := hpasses
  exact ⟨subject, roles, scopes, permissions, requestedPermission, resources, actions, tenants,
    requestedRole, requestedScope⟩

section Allowed

variable {depth : Nat} {document : PolicyDocument} {input : PolicyEvaluationInput}

theorem matchesHeld_iff {expected held : List PolicyRef} :
    matchesHeld expected held = true ↔ expected = [] ∨ ∃ name ∈ expected, name ∈ held := by
  simp [matchesHeld, intersects]

theorem matchesRequested_iff {expected : List PolicyRef} {requested : PolicyRef} :
    matchesRequested expected (some requested) = true ↔ expected = [] ∨ requested ∈ expected := by
  simp [matchesRequested]

theorem passesFilters_of_holds {statement : PolicyStatement}
    (hholds : statementHolds depth document input statement = .ok true) :
    passesFilters document statement input = true := by
  rw [statementHolds] at hholds
  split at hholds
  · assumption
  · cases hholds

/-- A check allows exactly if nothing stops the request and an ALLOW statement
matches. -/
theorem check_allows_iff (hpol : input.policy = none) :
    (∃ outcome, (evaluate depth document input).map decision = .ok outcome ∧
        outcome.state = .allow) ↔
      NothingStops depth document input ∧
        ∃ statement ∈ document.statements, statement.effect = .allow ∧
          statementHolds depth document input statement = .ok true := by
  have hcomb := evaluate_combine depth document input
  have hstmts : (selectedPolicies document input.policy).flatMap (·.statements) =
      document.statements := by
    rw [hpol]
    rfl
  rw [hstmts] at hcomb
  have hgrant : combine PolicyStatement.denies (statementHolds depth document input)
      document.statements = .ok .granted ↔ _ := combine_granted_iff
  simp only [denies_iff, allows_iff] at hgrant
  rw [NothingStops, ← hgrant]
  cases hres : evaluate depth document input with
  | error error =>
    rw [hres] at hcomb
    cases hout : combine PolicyStatement.denies (statementHolds depth document input)
        document.statements with
    | error => simp [Except.map]
    | ok =>
      rw [hout] at hcomb
      cases hcomb
  | ok =>
    rw [hres] at hcomb
    cases hout : combine PolicyStatement.denies (statementHolds depth document input)
        document.statements with
    | error =>
      rw [hout] at hcomb
      cases hcomb
    | ok verdict =>
      rw [hout] at hcomb
      simp only [Except.map, Except.ok.injEq, Prod.mk.injEq] at hcomb
      simp only [Except.map, Except.ok.injEq, exists_eq_left', decision, hcomb.1]
      cases verdict <;> decide

/-- A check of a name that is only compared with lists is sound for exactly
the guarded requests. -/
theorem sound_iff_guarded (hpol : input.policy = none) {requested : PolicyRef}
    {held : List PolicyRef} {named : PolicyStatement → List PolicyRef}
    (hfilters : ∀ statement, passesFilters document statement input = true →
      matchesHeld (named statement) held = true ∧
        matchesRequested (named statement) (some requested) = true) :
    (∀ outcome, (evaluate depth document input).map decision = .ok outcome →
        outcome.state = .allow → requested ∈ held) ↔
      Guarded depth document input requested held named := by
  constructor
  · intro hsound
    by_cases hheld : requested ∈ held
    · exact .inl hheld
    · by_cases hstops : NothingStops depth document input
      · refine .inr (.inr ?_)
        intro statement hstmt hallow _ hholds
        obtain ⟨outcome, hout, hstate⟩ :=
          (check_allows_iff hpol).mpr ⟨hstops, statement, hstmt, hallow, hholds⟩
        exact hheld (hsound outcome hout hstate)
      · exact .inr (.inl hstops)
  · intro hguarded outcome hout hstate
    obtain ⟨hstops, statement, hstmt, hallow, hholds⟩ :=
      (check_allows_iff hpol).mp ⟨outcome, hout, hstate⟩
    rcases hguarded with hheld | hstopped | hnone
    · exact hheld
    · exact absurd hstops hstopped
    · by_contra hheld
      -- the statement passed both filters although the name is not held
      obtain ⟨hmatchesHeld, hmatchesRequested⟩ := hfilters statement (passesFilters_of_holds hholds)
      apply hnone statement hstmt hallow _ hholds
      rcases matchesHeld_iff.mp hmatchesHeld with hempty | ⟨other, hnamed, hother⟩
      · exact .inl hempty
      · rcases matchesRequested_iff.mp hmatchesRequested with hempty | hrequested
        · exact .inl hempty
        · refine .inr ⟨hrequested, other, hnamed, hother, ?_⟩
          rintro rfl
          exact hheld hother

end Allowed

/-- A permission is allowed only to a subject that has it. A role or a scope
that the subject does not hold is refused exactly for guarded requests. -/
theorem checks_sound_iff_guarded (depth : Nat) (document : PolicyDocument)
    (roleRequest : RoleCheckRequest) (scopeRequest : ScopeCheckRequest)
    (permissionRequest : PermissionCheckRequest) :
    ((∀ outcome, checkRole depth document roleRequest = .ok outcome → outcome.state = .allow →
        roleRequest.role ∈ document.subjectRoles roleRequest.authContext) ↔
      Guarded depth document (roleInput roleRequest) roleRequest.role
        (document.subjectRoles roleRequest.authContext) (·.roles)) ∧
    ((∀ outcome, checkScope depth document scopeRequest = .ok outcome → outcome.state = .allow →
        scopeRequest.scope ∈ document.subjectScopes scopeRequest.authContext) ↔
      Guarded depth document (scopeInput scopeRequest) scopeRequest.scope
        (document.subjectScopes scopeRequest.authContext) (·.scopes)) ∧
    (∀ outcome, checkPermission depth document permissionRequest = .ok outcome →
      outcome.state = .allow →
        permissionRequest.permission ∈
          document.subjectPermissions permissionRequest.authContext) := by
  refine ⟨?_, ?_, ?_⟩
  · apply sound_iff_guarded rfl
    intro statement hpasses
    exact ⟨(passed hpasses).roles, (passed hpasses).requestedRole⟩
  · apply sound_iff_guarded rfl
    intro statement hpasses
    exact ⟨(passed hpasses).scopes, (passed hpasses).requestedScope⟩
  · intro outcome houtcome hstate
    obtain ⟨_, _, _, _, hholds⟩ := (check_allows_iff rfl).mp ⟨outcome, houtcome, hstate⟩
    have hrequested := (passed (passesFilters_of_holds hholds)).requestedPermission
    simp only [matchesRequestedPermission, permissionInput, Bool.and_eq_true] at hrequested
    simpa using hrequested.2

def editor : AuthContext :=
  { subject := { id := "user:alice" }, issuer := "issuer", roles := ["role:editor"] }

/-- Meant for editors and administrators. -/
def allowStaff : PolicyStatement :=
  { ref := "allow-staff", effect := .allow, roles := ["role:editor", "role:admin"] }

/-- A statement without roles or scopes allows every role and scope to
everybody, and one for editors and administrators makes an editor an
administrator. -/
theorem unheld_role_is_allowed :
    "role:admin" ∉ (documentOf [allowEverything]).subjectRoles anonymous ∧
      checkRole 1 (documentOf [allowEverything])
        { authContext := anonymous, role := "role:admin" } = .ok .allow ∧
      "scope:admin" ∉ (documentOf [allowEverything]).subjectScopes anonymous ∧
      checkScope 1 (documentOf [allowEverything])
        { authContext := anonymous, scope := "scope:admin" } = .ok .allow ∧
      "role:admin" ∉ (documentOf [allowStaff]).subjectRoles editor ∧
      checkRole 1 (documentOf [allowStaff]) { authContext := editor, role := "role:admin" } =
        .ok .allow := by
  refine ⟨by decide, rfl, by decide, rfl, by decide, rfl⟩

end Spakky.Policy
