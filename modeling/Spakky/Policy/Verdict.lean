import Spakky.DenyOverrides
import Spakky.Policy.Conditions

/-!
What the loops of the evaluator compute. Apart from the evidence they collect
they are a search for a statement that denies, so that the outcome does not
depend on the order of the document as long as no statement fails to evaluate.
-/

namespace Spakky.Policy

open Auth Spakky.DenyOverrides PolicyStatement

variable (document : PolicyDocument) (request : PolicyEvaluationInput)
  (statement : PolicyStatement)

def PolicyStatement.denies : Bool := statement.effect == .deny

/-- Whether a statement matches, without the evidence. -/
def statementHolds (depth : Nat) (document : PolicyDocument) (request : PolicyEvaluationInput)
    (statement : PolicyStatement) : Except EvaluationError Bool :=
  if passesFilters document statement request then
    match statement.condition with
    | none => .ok true
    | some condition => conditionMatches document request.authContext.claims depth condition
  else .ok false

/-- The effect a result reports for a verdict. -/
def effectOf : Verdict → Option PolicyEffect
  | .denied => some .deny
  | .granted => some .allow
  | .silent => none

section Loops

variable {depth : Nat} {document : PolicyDocument} {request : PolicyEvaluationInput}
  {statement : PolicyStatement}

theorem statementMatches_map (policyRef : PolicyRef) (evidence : List PolicyEvaluationEvidence) :
    ∃ extended, statementMatches depth document request statement policyRef evidence =
      (statementHolds depth document request statement).map (·, extended) := by
  rw [statementHolds, statementMatches]
  split
  · rw [matchesCondition]
    cases statement.condition with
    | none => exact ⟨evidence, rfl⟩
    | some condition =>
      simp only
      cases conditionMatches document request.authContext.claims depth condition with
      | error => exact ⟨evidence, rfl⟩
      | ok => exact ⟨_, rfl⟩
  · exact ⟨evidence, rfl⟩

/-- What the search over the statements that are left gives, from where the
loops are. -/
def searchFrom (depth : Nat) (document : PolicyDocument) (request : PolicyEvaluationInput)
    (rest : List PolicyStatement) : LoopState → Except EvaluationError Verdict
  | .returned result => .ok (if result.effect = some .deny then .denied else .silent)
  | .running allowSeen _ =>
    search denies (statementHolds depth document request) rest allowSeen

/-- A result the loops return early is a refusal. -/
def Refused (state : LoopState) : Prop :=
  ∀ result, state = .returned result → result.allowed = false ∧ result.effect = some .deny

theorem evaluateStatements_search (policyRef : PolicyRef) (rest : List PolicyStatement)
    (statements : List PolicyStatement) (allowSeen : Bool)
    (evidence : List PolicyEvaluationEvidence) :
    (∃ state, evaluateStatements depth document request policyRef statements allowSeen evidence =
        .ok state ∧ Refused state ∧
        search denies (statementHolds depth document request) (statements ++ rest)
          allowSeen = searchFrom depth document request rest state) ∨
      ∃ error, evaluateStatements depth document request policyRef statements allowSeen evidence =
          .error error ∧
        search denies (statementHolds depth document request) (statements ++ rest)
          allowSeen = .error error := by
  induction statements generalizing allowSeen evidence with
  | nil => exact .inl ⟨_, rfl, fun _ h => (by cases h), rfl⟩
  | cons statement _ ih =>
    obtain ⟨_, hmatches⟩ := statementMatches_map policyRef evidence
    rw [evaluateStatements, hmatches]
    cases hholds : statementHolds depth document request statement with
    | error error => exact .inr ⟨error, rfl, search_error hholds⟩
    | ok holds =>
      cases holds with
      | false =>
        rw [List.cons_append, search_skip hholds]
        exact ih allowSeen _
      | true =>
        cases heffect : statement.effect with
        | deny =>
          have hdenies : statement.denies = true := by
            rw [denies, heffect]
            rfl
          rw [List.cons_append, search_deny hholds hdenies]
          refine .inl ⟨_, rfl, ?_, rfl⟩
          intro result hres
          cases hres
          exact ⟨rfl, rfl⟩
        | allow =>
          have hallows : statement.denies = false := by
            rw [denies, heffect]
            rfl
          rw [List.cons_append, search_allow hholds hallows]
          exact ih true _

theorem evaluatePolicies_search (depth : Nat) (document : PolicyDocument)
    (request : PolicyEvaluationInput) (policies : List NamedPolicy) (allowSeen : Bool)
    (evidence : List PolicyEvaluationEvidence) :
    (∃ state, evaluatePolicies depth document request policies allowSeen evidence = .ok state ∧
        Refused state ∧
        search denies (statementHolds depth document request)
          (policies.flatMap (·.statements)) allowSeen =
            searchFrom depth document request [] state) ∨
      ∃ error, evaluatePolicies depth document request policies allowSeen evidence = .error error ∧
        search denies (statementHolds depth document request)
          (policies.flatMap (·.statements)) allowSeen = .error error := by
  induction policies generalizing allowSeen evidence with
  | nil => exact .inl ⟨_, rfl, fun _ h => (by cases h), rfl⟩
  | cons policy policies ih =>
    rw [evaluatePolicies, List.flatMap_cons]
    obtain ⟨state, hstate, href, hsearch⟩ | ⟨error, herror, hsearch⟩ :=
      evaluateStatements_search policy.ref (policies.flatMap (·.statements)) policy.statements
        allowSeen evidence
    · rw [hstate, hsearch]
      cases state with
      | returned => exact .inl ⟨_, rfl, href, rfl⟩
      | running seen collected => exact ih seen collected
    · rw [herror, hsearch]
      exact .inr ⟨error, rfl, rfl⟩

/-- The evaluator combines the statements of the selected policies: what it
returns is the verdict, reported as an effect. -/
theorem evaluate_combine (depth : Nat) (document : PolicyDocument)
    (request : PolicyEvaluationInput) :
    (evaluate depth document request).map (fun result => (result.allowed, result.effect)) =
      (combine denies (statementHolds depth document request)
        ((selectedPolicies document request.policy).flatMap (·.statements))).map
          fun verdict => (verdict == .granted, effectOf verdict) := by
  rw [evaluate, combine]
  obtain ⟨state, hstate, href, hsearch⟩ | ⟨_, herror, hsearch⟩ :=
    evaluatePolicies_search depth document request (selectedPolicies document request.policy) false
      []
  · rw [hstate, hsearch]
    cases state with
    | returned result =>
      obtain ⟨hallowed, heffect⟩ := href result rfl
      simp only [searchFrom, heffect, if_true]
      simp only [bind, Except.bind, pure, Except.pure, Except.map, hallowed, heffect]
      rfl
    | running allowSeen => cases allowSeen <;> rfl
  · rw [herror, hsearch]
    rfl

end Loops

/-- A statement matches a request, given the depth its condition needs. -/
def Matches : Prop :=
  ∃ depth, statementHolds depth document request statement = .ok true

/-- From some recursion depth on, evaluation returns this result. -/
def EvaluatesTo (allowed : Bool) (effect : Option PolicyEffect) : Prop :=
  ∃ enough, ∀ depth, enough ≤ depth →
    ∃ evidence, evaluate depth document request = .ok ⟨allowed, effect, evidence⟩

/-- The outcome in terms of the statements that match, in no order. -/
structure DenyOverrides (document : PolicyDocument) (request : PolicyEvaluationInput)
    (allowed : Bool) (effect : Option PolicyEffect) : Prop where
  granted : allowed = true ↔
    (∃ statement ∈ document.statements,
      statement.effect = .allow ∧ Matches document request statement) ∧
    ¬ ∃ statement ∈ document.statements,
      statement.effect = .deny ∧ Matches document request statement
  allows : effect = some .allow ↔ allowed = true
  denies : effect = some .deny ↔
    ∃ statement ∈ document.statements, statement.effect = .deny ∧ Matches document request statement

/-- Two documents that differ in their policies only. -/
structure SameNames (document other : PolicyDocument) : Prop where
  subjects : other.subjects = document.subjects
  roles : other.roles = document.roles
  scopes : other.scopes = document.scopes
  conditions : other.conditions = document.conditions

/-- The policies of a document in another order, each with its statements in
another order. -/
def Reordered (document other : PolicyDocument) : Prop :=
  ∃ policies, policies.Perm document.policies ∧
    List.Forall₂ (fun policy reordered : NamedPolicy =>
      reordered.ref = policy.ref ∧ reordered.statements.Perm policy.statements)
      policies other.policies

section DenyOverrides

variable {document other : PolicyDocument} {request : PolicyEvaluationInput}
  {statement : PolicyStatement}

theorem statementHolds_mono {depth more : Nat} (hmore : depth ≤ more) {holds : Bool}
    (hholds : statementHolds depth document request statement = .ok holds) :
    statementHolds more document request statement = .ok holds := by
  rw [statementHolds] at hholds ⊢
  split at hholds
  · rename_i hpasses
    rw [if_pos hpasses]
    cases hcond : statement.condition with
    | none =>
      rw [hcond] at hholds
      exact hholds
    | some =>
      rw [hcond] at hholds
      exact conditionMatches_mono hmore hholds
  · rename_i hpasses
    rw [if_neg hpasses]
    exact hholds

theorem statementHolds_settles (hacyc : document.Acyclic) (hformed : document.WellFormed)
    (request : PolicyEvaluationInput) (hstmt : statement ∈ document.statements) :
    ∃ depth holds, statementHolds depth document request statement = .ok holds := by
  simp only [statementHolds]
  split
  · cases hcond : statement.condition with
    | none => exact ⟨0, true, rfl⟩
    | some =>
      exact settles_of_acyclic hacyc hformed (hformed.stated statement hstmt _ hcond)
  · exact ⟨0, false, rfl⟩

open Classical in
/-- Whether a statement matches, as a function of the statement. -/
noncomputable def holdsIn (document : PolicyDocument) (request : PolicyEvaluationInput)
    (statement : PolicyStatement) : Bool :=
  decide (Matches document request statement)

theorem holdsIn_iff :
    holdsIn document request statement = true ↔ Matches document request statement := by
  simp [holdsIn]

theorem holdsIn_eq {depth : Nat} {holds : Bool}
    (hholds : statementHolds depth document request statement = .ok holds) :
    holdsIn document request statement = holds := by
  rw [Bool.eq_iff_iff, holdsIn_iff]
  constructor
  · rintro ⟨found, hfound⟩
    have hdeep := statementHolds_mono (Nat.le_max_left found depth) hfound
    rw [statementHolds_mono (Nat.le_max_right found depth) hholds] at hdeep
    exact Except.ok.inj hdeep
  · rintro rfl
    exact ⟨depth, hholds⟩

/-- From some depth on, the matching of every statement has been decided. -/
theorem common_statement_depth (hacyc : document.Acyclic) (hformed : document.WellFormed)
    (request : PolicyEvaluationInput) :
    ∃ enough, ∀ depth, enough ≤ depth → ∀ statement ∈ document.statements,
      statementHolds depth document request statement =
        .ok (holdsIn document request statement) := by
  have hsettles : ∀ statement ∈ document.statements,
      ∃ depth holds, statementHolds depth document request statement = .ok holds :=
    fun _ => statementHolds_settles hacyc hformed request
  obtain ⟨enough, hsettled⟩ := common_depth (fun _ _ _ hmore ⟨holds, hholds⟩ =>
    ⟨holds, statementHolds_mono hmore hholds⟩) hsettles
  refine ⟨enough, ?_⟩
  intro depth hdepth statement hstmt
  obtain ⟨_, hholds⟩ := hsettled statement hstmt
  rw [holdsIn_eq hholds]
  exact statementHolds_mono hdepth hholds

/-- A request for no policy in particular evaluates to the verdict on all
statements of the document. -/
theorem evaluatesTo_verdict (hacyc : document.Acyclic) (hformed : document.WellFormed)
    (hpol : request.policy = none) :
    EvaluatesTo document request
      (verdict denies (holdsIn document request) document.statements == .granted)
      (effectOf
        (verdict denies (holdsIn document request) document.statements)) := by
  obtain ⟨enough, hholds⟩ := common_statement_depth hacyc hformed request
  refine ⟨enough, ?_⟩
  intro depth hdepth
  have hcomb := evaluate_combine depth document request
  have hstmts : (selectedPolicies document request.policy).flatMap (·.statements) =
      document.statements := by
    rw [hpol]
    rfl
  rw [hstmts, combine_eq (hholds depth hdepth)] at hcomb
  cases hres : evaluate depth document request with
  | error =>
    rw [hres] at hcomb
    cases hcomb
  | ok result =>
    rw [hres] at hcomb
    obtain ⟨_, _, evidence⟩ := result
    simp only [Except.map, Except.ok.injEq, Prod.mk.injEq] at hcomb
    exact ⟨evidence, by rw [hcomb.1, hcomb.2]⟩

theorem denies_iff : statement.denies = true ↔ statement.effect = .deny := by
  rw [denies, beq_iff_eq]

theorem allows_iff : statement.denies = false ↔ statement.effect = .allow := by
  rw [denies]
  cases statement.effect <;> decide

theorem denyOverrides_verdict (document : PolicyDocument) (request : PolicyEvaluationInput) :
    DenyOverrides document request
      (verdict denies (holdsIn document request) document.statements == .granted)
      (effectOf (verdict denies (holdsIn document request)
        document.statements)) := by
  have hdenied : verdict denies (holdsIn document request) document.statements =
      .denied ↔ _ := verdict_denied_iff
  have hgrant : verdict denies (holdsIn document request) document.statements =
      .granted ↔ _ := verdict_granted_iff
  simp only [denies_iff, allows_iff, holdsIn_iff] at hdenied hgrant
  constructor
  · rw [beq_iff_eq]
    exact hgrant
  · generalize verdict _ _ _ = outcome
    cases outcome <;> decide
  · rw [← hdenied]
    generalize verdict _ _ _ = outcome
    cases outcome <;> decide

/-- Which statements match depends on the names of a document only. -/
theorem holdsIn_sameNames (hsame : SameNames document other) :
    holdsIn other request = holdsIn document request := by
  obtain ⟨subjects, roles, scopes, policies, conditions⟩ := document
  obtain ⟨_, _, _, policies', _⟩ := other
  obtain ⟨hsubjects, hroles, hscopes, hconds⟩ := hsame
  cases hsubjects
  cases hroles
  cases hscopes
  cases hconds
  funext statement
  have hcond : ∀ depth condition,
      conditionMatches ⟨subjects, roles, scopes, policies', conditions⟩ request.authContext.claims
          depth condition =
        conditionMatches ⟨subjects, roles, scopes, policies, conditions⟩ request.authContext.claims
          depth condition := by
    intro depth
    induction depth with
    | zero => intro condition; rfl
    | succ _ ih =>
      intro condition
      rw [conditionMatches, conditionMatches, funext ih]
      rfl
  have hmatches : Matches ⟨subjects, roles, scopes, policies', conditions⟩ request statement ↔
      Matches ⟨subjects, roles, scopes, policies, conditions⟩ request statement := by
    apply exists_congr
    intro depth
    rw [statementHolds, statementHolds]
    simp only [hcond]
    rfl
  rw [Bool.eq_iff_iff, holdsIn_iff, holdsIn_iff]
  exact hmatches

theorem acyclic_sameNames (hsame : SameNames document other) (hacyc : document.Acyclic) :
    other.Acyclic := by
  have hcond : other.condition = document.condition := by
    funext ref
    rw [PolicyDocument.condition, PolicyDocument.condition, hsame.conditions]
  have hrefers : other.Refers = document.Refers := by
    funext name target
    rw [PolicyDocument.Refers, PolicyDocument.Refers, hcond]
  rw [PolicyDocument.Acyclic, hrefers]
  exact hacyc

/-- A document with the same names evaluates to the verdict on its own
statements, matched as those of the first one. -/
theorem evaluatesTo_sameNames (hacyc : document.Acyclic) (hpol : request.policy = none)
    (hsame : SameNames document other) (hformed : other.WellFormed) :
    EvaluatesTo other request
      (verdict denies (holdsIn document request) other.statements == .granted)
      (effectOf (verdict denies (holdsIn document request) other.statements)) := by
  rw [← holdsIn_sameNames hsame]
  exact evaluatesTo_verdict (acyclic_sameNames hsame hacyc) hformed hpol

end DenyOverrides

/-- Evaluation is deny-overrides with default deny. It does not depend on the
order of the document; one DENY statement more never grants what was refused,
and one ALLOW statement more never refuses what was granted. -/
theorem evaluate_deny_overrides (document : PolicyDocument) (request : PolicyEvaluationInput)
    (hpolicy : request.policy = none) (hacyclic : document.Acyclic)
    (hformed : document.WellFormed) :
    ∃ allowed effect, EvaluatesTo document request allowed effect ∧
      DenyOverrides document request allowed effect ∧
      ∀ other, SameNames document other → other.WellFormed →
        (other.statements.Perm document.statements → EvaluatesTo other request allowed effect) ∧
        (∀ statement, statement.effect = .deny →
          other.statements.Perm (statement :: document.statements) → allowed = false →
            ∃ newEffect, EvaluatesTo other request false newEffect) ∧
        (∀ statement, statement.effect = .allow →
          other.statements.Perm (statement :: document.statements) → allowed = true →
            ∃ newEffect, EvaluatesTo other request true newEffect) := by
  refine ⟨_, _, evaluatesTo_verdict hacyclic hformed hpolicy,
    denyOverrides_verdict document request, ?_⟩
  intro other hsame hother
  have hevaluates := evaluatesTo_sameNames hacyclic hpolicy hsame hother
  refine ⟨?_, ?_, ?_⟩
  · intro hperm
    rw [verdict_perm hperm] at hevaluates
    exact hevaluates
  · intro statement hdeny hperm hrefused
    rw [verdict_perm hperm] at hevaluates
    have hstill : (verdict denies (holdsIn document request)
        (statement :: document.statements) == .granted) = false := by
      rw [beq_eq_false_iff_ne] at hrefused ⊢
      intro hgranted
      exact hrefused (verdict_add_deny (denies_iff.mpr hdeny) hgranted)
    rw [hstill] at hevaluates
    exact ⟨_, hevaluates⟩
  · intro statement hallow hperm hallowed
    rw [verdict_perm hperm] at hevaluates
    have hstill : (verdict denies (holdsIn document request)
        (statement :: document.statements) == .granted) = true := by
      rw [beq_iff_eq] at hallowed ⊢
      exact verdict_add_allow (allows_iff.mpr hallow) hallowed
    rw [hstill] at hevaluates
    exact ⟨_, hevaluates⟩

def anonymous : AuthContext := { subject := { id := "user:bob" }, issuer := "issuer" }

def allowEverything : PolicyStatement := { ref := "allow-all", effect := .allow }

def denyEverything : PolicyStatement := { ref := "deny-all", effect := .deny }

/-- An ALLOW statement whose condition is a NOT of nothing. -/
def allowUnlessNothing : PolicyStatement :=
  { ref := "allow-unless", effect := .allow, condition := some (.composite .not []) }

def documentOf (statements : List PolicyStatement) : PolicyDocument :=
  { policies := [{ ref := "policy:sample", statements }] }

theorem documentOf_acyclic (statements : List PolicyStatement) :
    (documentOf statements).Acyclic := by
  intro name hcycle
  obtain ⟨_, ⟨_, hcond, _⟩, _⟩ := Relation.TransGen.head'_iff.mp hcycle
  cases hcond

/-- Members are allowed, unless they are suspended and not exempt. -/
def members : PolicyDocument where
  policies :=
    [{ ref := "policy:members"
       statements := [
        { ref := "allow-members", effect := .allow, condition := some (.named "member") }] },
     { ref := "policy:suspended"
       statements := [
        allowEverything,
        { ref := "deny-suspended", effect := .deny
          condition := some (.composite .all
            [.named "suspended", .composite .not [.named "exempt"]]) }] }]
  conditions :=
    [.composite .any [.named "staff", .atomic .exists "account" (.scalar .none)] (some "member"),
     .atomic .equals "role" (.scalar (.string "staff")) (some "staff"),
     .atomic .exists "suspended" (.scalar .none) (some "suspended"),
     .composite .all [.named "staff", .named "member"] (some "exempt")]

/-- The policies the other way round, the second with its statements so. -/
def membersReordered : PolicyDocument :=
  { members with
    policies := (members.policies.map fun policy =>
      { policy with statements := policy.statements.reverse }).reverse }

def suspendedMember : PolicyEvaluationInput where
  authContext := { anonymous with
    claims := [⟨"account", .string "a"⟩, ⟨"suspended", .boolean true⟩] }

theorem acyclic_of_rank {document : PolicyDocument} (rank : PolicyRef → Nat)
    (hrank : ∀ name other, document.Refers name other → rank other < rank name) :
    document.Acyclic := by
  have hdown : ∀ name other, Relation.TransGen document.Refers name other →
      rank other < rank name := by
    intro name other hrefers
    induction hrefers with
    | single hstep => exact hrank _ _ hstep
    | tail _ hstep ih => exact (hrank _ _ hstep).trans ih
  exact fun name hcycle => lt_irrefl _ (hdown name name hcycle)

theorem members_acyclic : members.Acyclic := by
  let rank (name : PolicyRef) : Nat :=
    if name = "exempt" then 2 else if name = "member" then 1 else 0
  refine acyclic_of_rank rank ?_
  rintro name other ⟨condition, hcondition, hcomposite, hother, _⟩
  have hmem := List.mem_reverse.mp (List.mem_of_find?_eq_some hcondition)
  have hname : condition.ref = some name := by simpa using List.find?_some hcondition
  simp only [members, List.mem_cons, List.not_mem_nil, or_false] at hmem
  rcases hmem with rfl | rfl | rfl | rfl
  · cases hname
    have hstaff : other = "staff" := List.mem_singleton.mp hother
    rw [hstaff]
    decide
  · cases hcomposite
  · cases hcomposite
  · cases hname
    have hnamed : other ∈ ["staff", "member"] := hother
    simp only [List.mem_cons, List.not_mem_nil, or_false] at hnamed
    rcases hnamed with rfl | rfl <;> decide

theorem evaluate_deny_overrides_members :
    EvaluatesTo members suspendedMember false (some .deny) ∧
      EvaluatesTo membersReordered suspendedMember false (some .deny) := by
  have hformed : members.WellFormed := ⟨by decide, by decide⟩
  obtain ⟨allowed, effect, hevaluates, hoverrides, hothers⟩ :=
    evaluate_deny_overrides members suspendedMember rfl members_acyclic hformed
  have heffect : effect = some .deny :=
    hoverrides.denies.mpr ⟨_, .tail _ (.tail _ (.head _)), rfl, 4, rfl⟩
  have hallowed : allowed = false := by
    rw [Bool.eq_false_iff]
    intro hallowed
    cases heffect.symm.trans (hoverrides.allows.mpr hallowed)
  subst heffect hallowed
  refine ⟨hevaluates, (hothers membersReordered ⟨rfl, rfl, rfl, rfl⟩ ?_).1 ?_⟩
  · exact ⟨by decide, by decide⟩
  · exact List.reverse_perm members.statements

/-- With a NOT of nothing in an ALLOW statement, what a document evaluates to
depends on its order: a refusal if the DENY statement comes first, and an error
at every depth if it comes second. -/
theorem empty_not_depends_on_order :
    (documentOf [allowUnlessNothing, denyEverything]).Acyclic ∧
      EvaluatesTo (documentOf [denyEverything, allowUnlessNothing]) { authContext := anonymous }
        false (some .deny) ∧
      Reordered (documentOf [denyEverything, allowUnlessNothing])
        (documentOf [allowUnlessNothing, denyEverything]) ∧
      (∀ depth, evaluate (depth + 1) (documentOf [allowUnlessNothing, denyEverything])
        { authContext := anonymous } = .error .indexError) ∧
      ¬ ∃ allowed effect, EvaluatesTo (documentOf [allowUnlessNothing, denyEverything])
        { authContext := anonymous } allowed effect := by
  have hfails : ∀ depth, evaluate (depth + 1) (documentOf [allowUnlessNothing, denyEverything])
      { authContext := anonymous } = .error .indexError := fun _ => rfl
  refine ⟨documentOf_acyclic _, ⟨0, fun depth _ => ⟨_, rfl⟩⟩, ?_, hfails, ?_⟩
  · refine ⟨_, List.Perm.refl _, .cons ⟨rfl, ?_⟩ .nil⟩
    exact List.Perm.swap _ _ _
  · rintro ⟨_, _, enough, hevaluates⟩
    obtain ⟨_, hresult⟩ := hevaluates (enough + 1) (Nat.le_succ _)
    cases hresult

end Spakky.Policy
