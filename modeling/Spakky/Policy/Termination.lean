import Spakky.Policy.Loader

/-!
Which requests to a loaded document are evaluated to a result. The evaluation of
a condition comes to the children that the short-circuits of all, any and not
leave, and through references to conditions it may be in already. The loader
checks nothing about the references, so that an evaluation may come to a
condition again while it is in it, and exactly then it does not end.
-/

namespace Spakky.Policy

open Auth Relation ShortCircuit PolicyCondition Spakky.DenyOverrides

section Loops

variable {α ε : Type} {p : α → Except ε Bool} {items : List α}

theorem search_ends {denies : α → Bool} (allowSeen : Bool) :
    (∃ verdict, search denies p items allowSeen = .ok verdict) ↔
      Ends p (fun item b => !(denies item && b)) items := by
  induction items generalizing allowSeen with
  | nil => exact ⟨fun _ => trivial, fun _ => ⟨_, rfl⟩⟩
  | cons item rest ih =>
    cases hitem : p item with
    | error =>
      rw [search_error hitem]
      exact iff_of_false (by rintro ⟨_, ⟨⟩⟩) (ends_cons_error hitem)
    | ok b =>
      rw [ends_cons_ok hitem]
      cases b with
      | false => simp [search_skip hitem, ih]
      | true =>
        cases hdenies : denies item with
        | true => simp [search_deny hitem hdenies]
        | false => simp [search_allow hitem hdenies, ih]

end Loops

section Conditions

variable (document : PolicyDocument) (claims : List AuthClaim)

/-- The evaluation of a condition comes to a child: the answers of those before
it do not stop the loop. -/
def Visits (condition child : PolicyCondition) : Prop :=
  ∃ composition, (resolveCondition document condition).composition = some composition ∧
    Comes (conditionMatches document claims) (fun _ => goesOn composition)
      (resolveCondition document condition).children child

variable {document claims} {condition : PolicyCondition}

theorem wellFormed_of_mem {conditions : List PolicyCondition}
    (hformed : wellFormedAll conditions = true) :
    ∀ condition ∈ conditions, condition.wellFormed = true := by
  induction conditions with
  | nil => exact nofun
  | cons condition rest ih =>
    rw [wellFormedAll, Bool.and_eq_true] at hformed
    simp only [List.mem_cons, forall_eq_or_imp]
    exact ⟨hformed.1, ih hformed.2⟩

/-- A condition resolves to itself or to one of the document. -/
theorem resolveCondition_mem (document : PolicyDocument) (condition : PolicyCondition) :
    resolveCondition document condition = condition ∨
      resolveCondition document condition ∈ document.conditions := by
  unfold resolveCondition
  split
  next ref _ _ _ =>
    cases hnamed : document.condition ref with
    | none => exact .inl rfl
    | some named => exact .inr (List.mem_reverse.mp (List.mem_of_find?_eq_some hnamed))
  next => exact .inl rfl

section Formed

variable (hformed : document.WellFormed) (hcondition : condition.wellFormed = true)
include hformed hcondition

theorem wellFormed_resolve : (resolveCondition document condition).wellFormed = true := by
  rcases resolveCondition_mem document condition with hsame | hmem
  · rw [hsame]
    exact hcondition
  · exact hformed.named _ hmem

theorem Visits.wellFormed {child : PolicyCondition}
    (hvisits : Visits document claims condition child) : child.wellFormed = true := by
  obtain ⟨composition, hcomposition, before, after, hkids, _⟩ := hvisits
  have hall := (wellFormed_composite hcomposition (wellFormed_resolve hformed hcondition)).2
  exact wellFormed_of_mem hall child (by simp [hkids])

theorem conditionMatches_ends {composition : ConditionComposition}
    (hcomposition : (resolveCondition document condition).composition = some composition)
    (depth : Nat) :
    (∃ b, conditionMatches document claims (depth + 1) condition = .ok b) ↔
      Ends (conditionMatches document claims depth) (fun _ => goesOn composition)
        (resolveCondition document condition).children := by
  refine resolvedMatches_ends hcomposition fun hnot => ?_
  rw [hnot] at hcomposition
  exact (wellFormed_composite hcomposition (wellFormed_resolve hformed hcondition)).1 hcomposition

/-- An evaluation to some depth has evaluated what it comes to, to less. -/
theorem matches_of_visits {depth : Nat} {b : Bool} {child : PolicyCondition}
    (hmatches : conditionMatches document claims (depth + 1) condition = .ok b)
    (hvisits : Visits document claims condition child) :
    ∃ b', conditionMatches document claims depth child = .ok b' := by
  obtain ⟨composition, hcomposition, hcomes⟩ := hvisits
  have hends := (conditionMatches_ends hformed hcondition hcomposition depth).mp ⟨b, hmatches⟩
  exact Ends.comes conditionMatches_deepens hends hcomes

theorem settles_of_visits
    (hvisits : ∀ child, Visits document claims condition child → Settles document claims child) :
    Settles document claims condition := by
  cases hcomposition : (resolveCondition document condition).composition with
  | none => exact settles_of_resolved (settlesResolved_atomic hcomposition)
  | some composition =>
    obtain ⟨depth, hends⟩ := ends_of_comes conditionMatches_deepens
      fun child hcomes => hvisits child ⟨composition, hcomposition, hcomes⟩
    exact ⟨depth + 1, (conditionMatches_ends hformed hcondition hcomposition depth).mpr hends⟩

/-- A condition has an answer exactly if its evaluation comes to no infinite
descent. -/
theorem settles_iff_acc :
    Settles document claims condition ↔ Acc (flip (Visits document claims)) condition := by
  constructor
  · rintro ⟨depth, b, hmatches⟩
    induction depth generalizing condition b with
    | zero => cases hmatches
    | succ depth ih =>
      refine ⟨_, fun child hvisits => ?_⟩
      obtain ⟨b', hchild⟩ := matches_of_visits hformed hcondition hmatches hvisits
      exact ih (hvisits.wellFormed hformed hcondition) b' hchild
  · intro hacc
    induction hacc with
    | intro condition _ ih =>
      refine settles_of_visits hformed hcondition fun child hvisits => ?_
      exact ih child hvisits (hvisits.wellFormed hformed hcondition)

end Formed

end Conditions

mutual

/-- A condition and those nested in it. -/
def PolicyCondition.nested : PolicyCondition → List PolicyCondition
  | .mk ref operator key value composition children =>
    .mk ref operator key value composition children :: nestedAll children
termination_by structural condition => condition

def PolicyCondition.nestedAll : List PolicyCondition → List PolicyCondition
  | [] => []
  | condition :: rest => condition.nested ++ nestedAll rest
termination_by structural conditions => conditions

end

theorem mem_nested_self (condition : PolicyCondition) : condition ∈ condition.nested := by
  cases condition
  exact .head _

theorem nested_subset_nestedAll {conditions : List PolicyCondition} :
    ∀ condition ∈ conditions, ∀ inner ∈ condition.nested, inner ∈ nestedAll conditions := by
  induction conditions with
  | nil => exact nofun
  | cons condition rest ih =>
    intro other hother inner hinner
    rw [nestedAll, List.mem_append]
    rcases List.mem_cons.mp hother with rfl | hrest
    · exact .inl hinner
    · exact .inr (ih other hrest inner hinner)

mutual

theorem nested_closed : (condition : PolicyCondition) → ∀ inner ∈ condition.nested,
    ∀ child ∈ inner.children, child ∈ condition.nested
  | .mk ref operator key value composition children => by
      intro inner hinner child hchild
      rcases List.mem_cons.mp hinner with rfl | hdeep
      · exact .tail _ (nested_subset_nestedAll child hchild child (mem_nested_self child))
      · exact .tail _ (nestedAll_closed children inner hdeep child hchild)
termination_by structural condition => condition

theorem nestedAll_closed : (conditions : List PolicyCondition) → ∀ inner ∈ nestedAll conditions,
    ∀ child ∈ inner.children, child ∈ nestedAll conditions
  | [] => nofun
  | condition :: rest => by
      intro inner hinner child hchild
      rw [nestedAll, List.mem_append] at hinner ⊢
      exact hinner.imp (nested_closed condition inner · child hchild)
        (nestedAll_closed rest inner · child hchild)
termination_by structural conditions => conditions

end

/-- The evaluation of a condition comes to finitely many conditions. -/
theorem visits_finite (document : PolicyDocument) (claims : List AuthClaim)
    (condition : PolicyCondition) :
    {other | ReflTransGen (Visits document claims) condition other}.Finite := by
  refine (nestedAll (condition :: document.conditions)).finite_toSet.subset ?_
  intro other hreach
  induction hreach with
  | refl => exact nested_subset_nestedAll condition (.head _) condition (mem_nested_self condition)
  | tail _ hvisits ih =>
    obtain ⟨_, _, before, after, hkids, _⟩ := hvisits
    refine nestedAll_closed _ _ ?_ _ (by rw [hkids]; simp)
    rcases resolveCondition_mem document _ with hsame | hmem
    · rw [hsame]
      exact ih
    · exact nested_subset_nestedAll _ (.tail _ hmem) _ (mem_nested_self _)

/-- The evaluation of a request ends with a result. -/
def Terminates (document : PolicyDocument) (request : PolicyEvaluationInput) : Prop :=
  ∃ depth result, evaluate depth document request = .ok result

/-- The loops over the policies come to a statement: none before it fails to
evaluate or is a DENY that matches. -/
def Reached (document : PolicyDocument) (request : PolicyEvaluationInput)
    (statement : PolicyStatement) : Prop :=
  Comes (statementHolds · document request) (fun earlier holds => !(earlier.denies && holds))
    ((selectedPolicies document request.policy).flatMap (·.statements)) statement

/-- The evaluation of a request comes to a condition while it is in it. -/
def Reenters (document : PolicyDocument) (request : PolicyEvaluationInput) : Prop :=
  ∃ statement condition again, Reached document request statement ∧
    passesFilters document statement request = true ∧ statement.condition = some condition ∧
    ReflTransGen (Visits document request.authContext.claims) condition again ∧
    TransGen (Visits document request.authContext.claims) again again

section Requests

variable {document : PolicyDocument} {request : PolicyEvaluationInput}

theorem terminates_iff_reached : Terminates document request ↔
    ∀ statement, Reached document request statement →
      Settled (statementHolds · document request) statement := by
  have hmono : ∀ depth more statement holds, depth ≤ more →
      statementHolds depth document request statement = .ok holds →
        statementHolds more document request statement = .ok holds :=
    fun _ _ _ _ hmore hholds => statementHolds_mono hmore hholds
  unfold Reached
  rw [← ends_iff_comes hmono]
  refine exists_congr fun depth => ?_
  rw [← search_ends false, ← combine]
  have hcombine := evaluate_combine depth document request
  constructor
  · rintro ⟨result, hresult⟩
    rw [hresult] at hcombine
    cases hverdict : combine PolicyStatement.denies (statementHolds depth document request)
        ((selectedPolicies document request.policy).flatMap (·.statements)) with
    | error => rw [hverdict] at hcombine; cases hcombine
    | ok verdict => exact ⟨verdict, rfl⟩
  · rintro ⟨verdict, hverdict⟩
    rw [hverdict] at hcombine
    cases hresult : evaluate depth document request with
    | error => rw [hresult] at hcombine; cases hcombine
    | ok result => exact ⟨result, rfl⟩

theorem settled_statement_iff {statement : PolicyStatement} :
    Settled (statementHolds · document request) statement ↔
      (passesFilters document statement request = true → ∀ condition,
        statement.condition = some condition →
          Settles document request.authContext.claims condition) := by
  simp only [Settled, statementHolds]
  split
  next hpasses =>
    cases hcondition : statement.condition with
    | none => simp
    | some condition => simp [hpasses, Settles]
  next hrefused => simp [hrefused]

theorem Reached.mem {statement : PolicyStatement} (hreached : Reached document request statement) :
    statement ∈ document.statements := by
  obtain ⟨before, after, hsplit, _⟩ := hreached
  have hmem : statement ∈ (selectedPolicies document request.policy).flatMap (·.statements) := by
    rw [hsplit]
    simp
  obtain ⟨policy, hpolicy, hstatement⟩ := List.mem_flatMap.mp hmem
  refine List.mem_flatMap.mpr ⟨policy, ?_, hstatement⟩
  cases hrequest : request.policy with
  | none => rwa [hrequest] at hpolicy
  | some =>
    rw [hrequest] at hpolicy
    exact List.mem_reverse.mp (List.mem_of_find?_eq_some (Option.mem_toList.mp hpolicy))

/-- In a well formed document a request is evaluated to a result exactly if the
evaluation comes to no condition while it is in it. -/
theorem terminates_iff (hformed : document.WellFormed) :
    Terminates document request ↔ ¬ Reenters document request := by
  have hsettles : ∀ statement condition, Reached document request statement →
      statement.condition = some condition →
      (Settles document request.authContext.claims condition ↔ ¬ ∃ again,
        ReflTransGen (Visits document request.authContext.claims) condition again ∧
          TransGen (Visits document request.authContext.claims) again again) := by
    intro statement condition hreached hcondition
    have hwell := hformed.stated statement hreached.mem condition hcondition
    rw [settles_iff_acc hformed hwell]
    exact acc_iff_no_cycle (visits_finite document request.authContext.claims condition)
  rw [terminates_iff_reached]
  constructor
  · rintro hall ⟨statement, condition, again, hreached, hpasses, hcondition, hcycle⟩
    have hsettled := settled_statement_iff.mp (hall statement hreached) hpasses condition hcondition
    exact (hsettles statement condition hreached hcondition).mp hsettled ⟨again, hcycle⟩
  · intro hnone statement hreached
    refine settled_statement_iff.mpr fun hpasses condition hcondition => ?_
    refine (hsettles statement condition hreached hcondition).mpr ?_
    rintro ⟨again, hcycle⟩
    exact hnone ⟨statement, condition, again, hreached, hpasses, hcondition, hcycle⟩

end Requests

/-- A request to a loaded document is evaluated to a result exactly if the
evaluation comes to no condition while it is in it. -/
theorem loaded_evaluation_terminates_iff (nesting : Nat) (payload : Loader.Payload)
    (document : PolicyDocument)
    (hloaded : Loader.policyDocumentFromMapping nesting payload = .ok document)
    (request : PolicyEvaluationInput) :
    Terminates document request ↔ ¬ Reenters document request :=
  terminates_iff (Loader.policyDocumentFromMapping_wellFormed nesting payload _ hloaded)

/-- A request that names nothing in particular. -/
def plainRequest : PolicyEvaluationInput where
  authContext := { subject := { id := "u" }, issuer := "i" }

def withClaim : PolicyEvaluationInput where
  authContext := { subject := { id := "u" }, issuer := "i", claims := [⟨"k", .string "v"⟩] }

/-- The condition `a` is its own negation, and `known` comes before it. -/
def guardedCycle : PolicyDocument where
  policies := [⟨"p", [{ ref := "s", effect := .allow
                        condition := some (.composite .any [.named "known", .named "a"]) }]⟩]
  conditions := [.composite .not [.named "a"] (some "a"),
    .atomic .exists "k" (.scalar .none) (some "known")]

/-- Who has the claim is let in before the cycle is come to. -/
theorem loaded_evaluation_terminates_guarded_cycle :
    Terminates guardedCycle withClaim ∧ ¬ Reenters guardedCycle withClaim := by
  have hterminates : Terminates guardedCycle withClaim := ⟨3, _, rfl⟩
  refine ⟨hterminates, ?_⟩
  exact (loaded_evaluation_terminates_iff 9 (Loader.ofStatement
    [.mapping [(some "ref", .text "a"), (some "not", .text "a")],
      .mapping [(some "ref", .text "known"), (some "operator", .text "exists"),
        (some "key", .text "k")]]
    [(some "ref", .text "s"), (some "effect", .text "allow"),
      (some "condition", .mapping [(some "any", .sequence [.text "known", .text "a"])])])
    guardedCycle rfl withClaim).mp hterminates

/-- The condition `a` is its own negation. -/
def selfNegation : PolicyDocument where
  policies := [⟨"p", [{ ref := "s", effect := .allow, condition := some (.named "a") }]⟩]
  conditions := [.composite .not [.named "a"] (some "a")]

theorem selfNegation_loads :
    Loader.policyDocumentFromMapping 9 (Loader.ofStatement
      [.mapping [(some "ref", .text "a"), (some "not", .text "a")]]
      [(some "ref", .text "s"), (some "effect", .text "allow"), (some "condition", .text "a")]) =
      .ok selfNegation := rfl

theorem selfNegation_recurses (claims : List AuthClaim) (depth : Nat) :
    conditionMatches selfNegation claims depth (.named "a") = .error .recursionError := by
  induction depth with
  | zero => rfl
  | succ depth ih =>
    change (conditionMatches selfNegation claims depth (.named "a")).map (!·) = _
    rw [ih]
    rfl

/-- The document is loaded, and the request is never evaluated. -/
theorem cyclic_condition_never_terminates :
    (∃ payload, Loader.policyDocumentFromMapping 9 payload = .ok selfNegation) ∧
      ¬ Terminates selfNegation plainRequest := by
  refine ⟨⟨_, selfNegation_loads⟩, ?_⟩
  rintro ⟨depth, _, hresult⟩
  have hcondition := selfNegation_recurses plainRequest.authContext.claims depth
  have herror : evaluate depth selfNegation plainRequest = .error .recursionError := by
    simp only [evaluate, evaluatePolicies, selectedPolicies, plainRequest, selfNegation,
      evaluateStatements, statementMatches, matchesCondition] at hcondition ⊢
    rw [if_pos (by decide), hcondition]
    rfl
  rw [herror] at hresult
  cases hresult

end Spakky.Policy
