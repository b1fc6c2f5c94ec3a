import Spakky.Policy.Conditions

/-!
References to conditions that a document does not define. Such a reference
evaluates to false, which is the safe answer where it stands under an even
number of NOTs, and the unsafe one elsewhere. What can be decided without the
dangling references is what stays true when those in the unsafe places are read
as true.
-/

namespace Spakky.Policy

open Auth

section Lists

variable {α ε : Type} {p : α → Except ε Bool} {items : List α}

theorem allM_ok {b : Bool} (hp : items.allM p = .ok b) :
    if b then ∀ item ∈ items, p item = .ok true else ∃ item ∈ items, p item = .ok false := by
  induction items with
  | nil => cases hp; simp
  | cons item _ ih =>
    rw [List.allM] at hp
    cases hitem : p item with
    | error => rw [hitem] at hp; cases hp
    | ok first =>
      rw [hitem] at hp
      cases first with
      | true =>
        have hrest := ih hp
        cases b <;> simp_all
      | false => cases hp; simp [hitem]

theorem anyM_ok {b : Bool} (hp : items.anyM p = .ok b) :
    if b then ∃ item ∈ items, p item = .ok true else ∀ item ∈ items, p item = .ok false := by
  rw [anyM_eq_allM, map_not_ok] at hp
  have hall := allM_ok hp
  cases b <;> simpa [map_not_ok] using hall

end Lists

/-- A reference to a condition that the document does not define. -/
def Dangling (document : PolicyDocument) (condition : PolicyCondition) : Prop :=
  condition.operator = none ∧ condition.composition = none ∧
    condition.ref.any (fun ref => (document.condition ref).isNone) = true

instance (document : PolicyDocument) (condition : PolicyCondition) :
    Decidable (Dangling document condition) :=
  inferInstanceAs (Decidable (_ ∧ _ ∧ _))

section Decides

variable (document : PolicyDocument) (claims : List AuthClaim)

/-- A condition can be decided without evaluating a dangling reference. -/
inductive Decides : PolicyCondition → Bool → Prop where
  | atomic {condition : PolicyCondition} (hknown : ¬ Dangling document condition)
      (hatomic : (resolveCondition document condition).composition = none) :
      Decides condition
        (operatorMatches (resolveCondition document condition).operator
          (claimValue claims (resolveCondition document condition).key)
          (resolveCondition document condition).value)
  | all {condition : PolicyCondition}
      (hall : (resolveCondition document condition).composition = some .all)
      (hkids : ∀ child ∈ (resolveCondition document condition).children,
        Decides child true) : Decides condition true
  | notAll {condition child : PolicyCondition}
      (hall : (resolveCondition document condition).composition = some .all)
      (hchild : child ∈ (resolveCondition document condition).children)
      (hfalse : Decides child false) : Decides condition false
  | any {condition child : PolicyCondition}
      (hany : (resolveCondition document condition).composition = some .any)
      (hchild : child ∈ (resolveCondition document condition).children)
      (htrue : Decides child true) : Decides condition true
  | notAny {condition : PolicyCondition}
      (hany : (resolveCondition document condition).composition = some .any)
      (hkids : ∀ child ∈ (resolveCondition document condition).children,
        Decides child false) : Decides condition false
  | not {condition child : PolicyCondition} {rest : List PolicyCondition} {b : Bool}
      (hnot : (resolveCondition document condition).composition = some .not)
      (hkids : (resolveCondition document condition).children = child :: rest)
      (hchild : Decides child b) : Decides condition (!b)

end Decides

section Readings

variable (document : PolicyDocument) (claims : List AuthClaim)

/-- A condition with its dangling references, and whatever lies deeper than the
depth, read as `answer`, and as the opposite under a NOT. -/
def readAs (answer : Bool) : Nat → PolicyCondition → Bool
  | 0, _ => answer
  | depth + 1, condition =>
    if Dangling document condition then answer
    else
      let resolved := resolveCondition document condition
      match resolved.composition with
      | some .all => resolved.children.all (readAs answer depth)
      | some .any => resolved.children.any (readAs answer depth)
      | some .not =>
        match resolved.children with
        | [] => answer
        | child :: _ => !readAs (!answer) depth child
      | none =>
        operatorMatches resolved.operator (claimValue claims resolved.key) resolved.value

end Readings

section Evaluation

variable {document document' : PolicyDocument} {claims : List AuthClaim}
  {condition : PolicyCondition}

theorem resolveCondition_dangling (hdang : Dangling document condition) :
    resolveCondition document condition = condition := by
  obtain ⟨hoper, hcompn, hundefined⟩ := hdang
  cases href : condition.ref with
  | none => simp [href] at hundefined
  | some ref =>
    rw [resolveCondition_named hoper hcompn href]
    simp only [href, Option.any_some, Option.isNone_iff_eq_none] at hundefined
    rw [hundefined, Option.getD_none]

theorem not_dangling_of_composite {composition : ConditionComposition}
    (hcomposite : (resolveCondition document condition).composition = some composition) :
    ¬ Dangling document condition := by
  intro hdang
  rw [resolveCondition_dangling hdang, hdang.2.1] at hcomposite
  cases hcomposite

theorem readAs_dangling {answer : Bool} (hdang : Dangling document condition) (depth : Nat) :
    readAs document claims answer depth condition = answer := by
  cases depth with
  | zero => rfl
  | succ depth => rw [readAs, if_pos hdang]

theorem readAs_all {answer : Bool}
    (hall : (resolveCondition document condition).composition = some .all) (depth : Nat) :
    readAs document claims answer (depth + 1) condition =
      (resolveCondition document condition).children.all (readAs document claims answer depth) := by
  rw [readAs, if_neg (not_dangling_of_composite hall)]
  simp only [hall]

theorem readAs_any {answer : Bool}
    (hany : (resolveCondition document condition).composition = some .any) (depth : Nat) :
    readAs document claims answer (depth + 1) condition =
      (resolveCondition document condition).children.any (readAs document claims answer depth) := by
  rw [readAs, if_neg (not_dangling_of_composite hany)]
  simp only [hany]

theorem readAs_not {answer : Bool} {child : PolicyCondition} {rest : List PolicyCondition}
    (hnot : (resolveCondition document condition).composition = some .not)
    (hkids : (resolveCondition document condition).children = child :: rest) (depth : Nat) :
    readAs document claims answer (depth + 1) condition =
      !readAs document claims (!answer) depth child := by
  rw [readAs, if_neg (not_dangling_of_composite hnot)]
  simp only [hnot, hkids]

theorem readAs_atomic {answer : Bool} (hknown : ¬ Dangling document condition)
    (hatomic : (resolveCondition document condition).composition = none) (depth : Nat) :
    readAs document claims answer (depth + 1) condition =
      operatorMatches (resolveCondition document condition).operator
        (claimValue claims (resolveCondition document condition).key)
        (resolveCondition document condition).value := by
  rw [readAs, if_neg hknown]
  simp only [hatomic]

/-- An answer against the one that is read into a condition is decided without
the dangling references. -/
theorem decides_of_readAs {depth : Nat} {b : Bool}
    (hread : readAs document claims (!b) depth condition = b) :
    Decides document claims condition b := by
  induction depth generalizing condition b with
  | zero => cases b <;> cases hread
  | succ depth ih =>
    by_cases hdang : Dangling document condition
    · rw [readAs_dangling hdang] at hread
      cases b <;> cases hread
    cases hcompn : (resolveCondition document condition).composition with
    | none =>
      rw [readAs_atomic hdang hcompn] at hread
      rw [← hread]
      exact .atomic hdang hcompn
    | some composition =>
      cases composition with
      | all =>
        rw [readAs_all hcompn] at hread
        cases b with
        | true => exact .all hcompn fun child hchild => ih (List.all_eq_true.mp hread child hchild)
        | false =>
          obtain ⟨child, hchild, hfalse⟩ := List.all_eq_false.mp hread
          exact .notAll hcompn hchild (ih (Bool.eq_false_of_not_eq_true hfalse))
      | any =>
        rw [readAs_any hcompn] at hread
        cases b with
        | true =>
          obtain ⟨child, hchild, htrue⟩ := List.any_eq_true.mp hread
          exact .any hcompn hchild (ih htrue)
        | false =>
          refine .notAny hcompn fun child hchild => ih ?_
          exact Bool.eq_false_of_not_eq_true (List.any_eq_false.mp hread child hchild)
      | not =>
        cases hkids : (resolveCondition document condition).children with
        | nil =>
          rw [readAs, if_neg hdang] at hread
          simp only [hcompn, hkids] at hread
          cases b <;> cases hread
        | cons child rest =>
          rw [readAs_not hcompn hkids, Bool.not_eq_eq_eq_not] at hread
          have hdecides := Decides.not hcompn hkids (ih hread)
          rwa [Bool.not_not] at hdecides

/-- What is decided without the dangling references holds from some depth on
against the answer that is read into them. -/
theorem readAs_of_decides {b : Bool} (hdecides : Decides document claims condition b) :
    ∃ depth, ∀ more, depth ≤ more → readAs document claims (!b) more condition = b := by
  have hsucc : ∀ {P : Nat → Prop} (depth : Nat), (∀ more, depth ≤ more → P (more + 1)) →
      ∃ depth, ∀ more, depth ≤ more → P more := by
    intro P depth hP
    refine ⟨depth + 1, fun more hmore => ?_⟩
    obtain ⟨less, rfl⟩ := Nat.exists_eq_add_of_lt hmore
    exact hP (depth + less) (Nat.le_add_right depth less)
  have hcommon : ∀ {children : List PolicyCondition} {b : Bool},
      (∀ child ∈ children, ∃ depth, ∀ more, depth ≤ more →
        readAs document claims (!b) more child = b) →
      ∃ depth, ∀ child ∈ children, ∀ more, depth ≤ more →
        readAs document claims (!b) more child = b :=
    common_depth fun _ _ _ hle hread more hmore => hread more (hle.trans hmore)
  induction hdecides with
  | atomic hknown hatomic => exact hsucc 0 fun more _ => readAs_atomic hknown hatomic more
  | all hall _ ih =>
    obtain ⟨depth, hdepth⟩ := hcommon ih
    refine hsucc depth fun more hmore => ?_
    rw [readAs_all hall, List.all_eq_true]
    exact fun child hchild => hdepth child hchild more hmore
  | notAll hall hchild _ ih =>
    obtain ⟨depth, hdepth⟩ := ih
    refine hsucc depth fun more hmore => ?_
    rw [readAs_all hall, List.all_eq_false]
    exact ⟨_, hchild, by rw [hdepth more hmore]; exact Bool.false_ne_true⟩
  | any hany hchild _ ih =>
    obtain ⟨depth, hdepth⟩ := ih
    refine hsucc depth fun more hmore => ?_
    rw [readAs_any hany, List.any_eq_true]
    exact ⟨_, hchild, hdepth more hmore⟩
  | notAny hany _ ih =>
    obtain ⟨depth, hdepth⟩ := hcommon ih
    refine hsucc depth fun more hmore => ?_
    rw [readAs_any hany, List.any_eq_false]
    exact fun child hchild => by rw [hdepth child hchild more hmore]; exact Bool.false_ne_true
  | not hnot hkids _ ih =>
    obtain ⟨depth, hdepth⟩ := ih
    refine hsucc depth fun more hmore => ?_
    rw [readAs_not hnot hkids, Bool.not_not, hdepth more hmore]

/-- Every condition that is defined stays as it is. -/
def Extends (document document' : PolicyDocument) : Prop :=
  ∀ ref condition, document.condition ref = some condition →
    document'.condition ref = some condition

theorem resolveCondition_extends (hext : Extends document document')
    (hknown : ¬ Dangling document condition) :
    resolveCondition document' condition = resolveCondition document condition := by
  unfold resolveCondition
  split
  next ref hoper hcompn href =>
    cases hnamed : document.condition ref with
    | none => exact absurd ⟨hoper, hcompn, by simp [href, hnamed]⟩ hknown
    | some named => rw [hext ref named hnamed]
  next => rfl

theorem resolved_of_matches (hext : Extends document document')
    (hknown : ¬ Dangling document condition) {depth : Nat} {b : Bool}
    (hmatches : conditionMatches document' claims depth condition = .ok b) :
    ∃ less, resolvedMatches claims (conditionMatches document' claims less)
      (resolveCondition document condition) = .ok b := by
  rw [← resolveCondition_extends hext hknown]
  cases depth with
  | zero => cases hmatches
  | succ less => exact ⟨less, hmatches⟩

/-- What is decided is what every evaluation that ends finds, also with
definitions for the dangling references. -/
theorem Decides.eq_of_matches (hext : Extends document document') {depth : Nat} {b b' : Bool}
    (hdecides : Decides document claims condition b)
    (hmatches : conditionMatches document' claims depth condition = .ok b') : b' = b := by
  induction hdecides generalizing depth b' with
  | atomic hknown hatomic =>
    obtain ⟨_, hresolved⟩ := resolved_of_matches hext hknown hmatches
    rw [resolvedMatches, hatomic] at hresolved
    exact (Except.ok.inj hresolved).symm
  | all hall _ ih =>
    obtain ⟨_, hresolved⟩ := resolved_of_matches hext (not_dangling_of_composite hall) hmatches
    rw [resolvedMatches, hall] at hresolved
    cases b' with
    | true => rfl
    | false =>
      obtain ⟨child, hchild, hfalse⟩ := allM_ok hresolved
      exact ih child hchild hfalse
  | notAll hall hchild _ ih =>
    obtain ⟨_, hresolved⟩ := resolved_of_matches hext (not_dangling_of_composite hall) hmatches
    rw [resolvedMatches, hall] at hresolved
    cases b' with
    | true => exact ih (allM_ok hresolved _ hchild)
    | false => rfl
  | any hany hchild _ ih =>
    obtain ⟨_, hresolved⟩ := resolved_of_matches hext (not_dangling_of_composite hany) hmatches
    rw [resolvedMatches, hany] at hresolved
    cases b' with
    | true => rfl
    | false => exact ih (anyM_ok hresolved _ hchild)
  | notAny hany _ ih =>
    obtain ⟨_, hresolved⟩ := resolved_of_matches hext (not_dangling_of_composite hany) hmatches
    rw [resolvedMatches, hany] at hresolved
    cases b' with
    | true =>
      obtain ⟨child, hchild, htrue⟩ := anyM_ok hresolved
      exact ih child hchild htrue
    | false => rfl
  | not hnot hkids _ ih =>
    obtain ⟨_, hresolved⟩ := resolved_of_matches hext (not_dangling_of_composite hnot) hmatches
    rw [resolvedMatches, hnot] at hresolved
    simp only [hkids] at hresolved
    rw [← ih (map_not_ok.mp hresolved), Bool.not_not]

end Evaluation

/-- A statement matches if it passes the filters and its condition, if it has
one, is true. -/
theorem statementMatches_true_iff {document : PolicyDocument} {request : PolicyEvaluationInput}
    {statement : PolicyStatement} {depth : Nat} {policyRef : PolicyRef}
    {evidence : List PolicyEvaluationEvidence} :
    (∃ found, statementMatches depth document request statement policyRef evidence =
        .ok (true, found)) ↔
      passesFilters document statement request = true ∧
        ∀ condition, statement.condition = some condition →
          conditionMatches document request.authContext.claims depth condition = .ok true := by
  rw [statementMatches]
  split
  next hpasses =>
    rw [matchesCondition]
    cases hcondition : statement.condition with
    | none => simp [hpasses]
    | some condition =>
      dsimp only
      cases hvalue : conditionMatches document request.authContext.claims depth condition with
      | error =>
        simp only [bind, Except.bind]
        constructor
        · rintro ⟨found, hfound⟩
          cases hfound
        · intro htrue
          cases hvalue.symm.trans (htrue.2 condition rfl)
      | ok b =>
        simp only [bind, Except.bind]
        constructor
        · rintro ⟨found, hfound⟩
          cases hfound
          refine ⟨hpasses, ?_⟩
          rintro _ ⟨⟩
          exact hvalue
        · intro htrue
          cases hvalue.symm.trans (htrue.2 condition rfl)
          exact ⟨_, rfl⟩
  next hrefused => simp [hrefused]

/-- Allows whoever the condition `missing` does not hold of. -/
def unlessMissing : PolicyStatement where
  ref := "s"
  effect := .allow
  condition := some (.composite .not [.named "missing"])

def ofClaim : PolicyEvaluationInput where
  authContext := { subject := { id := "u" }, issuer := "i", claims := [⟨"k", .string "v"⟩] }

def definesMissing : PolicyDocument where
  conditions := [.atomic .exists "k" (.scalar .none) (some "missing")]

/-- Who has the claim is let in before the dangling reference is looked at. -/
example : readAs {} ofClaim.authContext.claims false 3
    (.composite .any [.atomic .exists "k" (.scalar .none),
      .composite .not [.named "missing"]]) = true := by
  decide

end Spakky.Policy
