import Mathlib.Order.WellFoundedSet
import Spakky.ShortCircuit
import Spakky.Policy.Evaluator

/-!
When the evaluation of conditions ends. Conditions are trees whose leaves may
name other conditions of the document. If the names do not refer to each other
in a cycle and every NOT has a child, every condition evaluates to true or
false at some depth, and to the same at every greater one.
-/

namespace Spakky.Policy

open Auth Relation ShortCircuit PolicyCondition

section Children

variable {α ε : Type} {p q : α → Except ε Bool} {items : List α}

theorem allM_mono (hmono : ∀ item ∈ items, ∀ b, p item = .ok b → q item = .ok b) {b : Bool}
    (hp : items.allM p = .ok b) : items.allM q = .ok b := by
  induction items with
  | nil => exact hp
  | cons item _ ih =>
    have hrest := ih fun other hother => hmono other (.tail _ hother)
    rw [List.allM] at hp ⊢
    cases hitem : p item with
    | error =>
      rw [hitem] at hp
      cases hp
    | ok first =>
      rw [hitem] at hp
      rw [hmono item (.head _) first hitem]
      cases first with
      | true => exact hrest hp
      | false => exact hp

theorem anyM_eq_allM (p : α → Except ε Bool) (items : List α) :
    items.anyM p = (items.allM fun item => (p item).map (!·)).map (!·) := by
  induction items with
  | nil => rfl
  | cons item _ ih =>
    rw [List.anyM, List.allM]
    cases p item with
    | error => rfl
    | ok b =>
      cases b with
      | true => rfl
      | false => exact ih

theorem map_not_ok {x : Except ε Bool} {b : Bool} : x.map (!·) = .ok b ↔ x = .ok !b := by
  cases x with
  | error => simp [Except.map]
  | ok a => cases a <;> cases b <;> simp [Except.map]

theorem anyM_mono (hmono : ∀ item ∈ items, ∀ b, p item = .ok b → q item = .ok b) {b : Bool}
    (hp : items.anyM p = .ok b) : items.anyM q = .ok b := by
  rw [anyM_eq_allM, map_not_ok] at hp ⊢
  refine allM_mono (fun item hitem b hb => ?_) hp
  rw [map_not_ok] at hb ⊢
  exact hmono item hitem _ hb

theorem allM_ends : (∃ b, items.allM p = .ok b) ↔ Ends p (fun _ b => b) items := by
  induction items with
  | nil => exact ⟨fun _ => trivial, fun _ => ⟨true, rfl⟩⟩
  | cons item rest ih =>
    rw [List.allM]
    cases hitem : p item with
    | error => exact iff_of_false (by rintro ⟨_, ⟨⟩⟩) (ends_cons_error hitem)
    | ok b =>
      rw [ends_cons_ok hitem]
      cases b with
      | true => exact ih.trans ⟨fun hends _ => hends, fun hends => hends rfl⟩
      | false => exact iff_of_true ⟨false, rfl⟩ (by rintro ⟨⟩)

theorem anyM_ends : (∃ b, items.anyM p = .ok b) ↔ Ends p (fun _ b => !b) items := by
  induction items with
  | nil => exact ⟨fun _ => trivial, fun _ => ⟨false, rfl⟩⟩
  | cons item rest ih =>
    rw [List.anyM]
    cases hitem : p item with
    | error => exact iff_of_false (by rintro ⟨_, ⟨⟩⟩) (ends_cons_error hitem)
    | ok b =>
      rw [ends_cons_ok hitem]
      cases b with
      | true => exact iff_of_true ⟨true, rfl⟩ (by rintro ⟨⟩)
      | false => exact ih.trans ⟨fun hends _ => hends, fun hends => hends rfl⟩

/-- What holds of each of finitely many items from some depth on holds of all
of them at one depth. -/
theorem common_depth {P : Nat → α → Prop}
    (hmono : ∀ item depth more, depth ≤ more → P depth item → P more item)
    (heach : ∀ item ∈ items, ∃ depth, P depth item) : ∃ depth, ∀ item ∈ items, P depth item := by
  induction items with
  | nil => exact ⟨0, by simp⟩
  | cons item _ ih =>
    obtain ⟨first, hfirst⟩ := heach item (.head _)
    obtain ⟨others, hothers⟩ := ih fun other hother => heach other (.tail _ hother)
    refine ⟨max first others, ?_⟩
    intro other hother
    rcases List.mem_cons.mp hother with rfl | hrest
    · exact hmono other _ _ (Nat.le_max_left _ _) hfirst
    · exact hmono other _ _ (Nat.le_max_right _ _) (hothers other hrest)

end Children

section Depth

variable {document : PolicyDocument} {claims : List AuthClaim}

theorem resolvedMatches_mono {p q : PolicyCondition → Except EvaluationError Bool}
    (hmono : ∀ condition b, p condition = .ok b → q condition = .ok b) {resolved : PolicyCondition}
    {b : Bool} (hp : resolvedMatches claims p resolved = .ok b) :
    resolvedMatches claims q resolved = .ok b := by
  rw [resolvedMatches] at hp ⊢
  split at hp
  · exact allM_mono (fun child _ => hmono child) hp
  · exact anyM_mono (fun child _ => hmono child) hp
  · split at hp
    · cases hp
    · rename_i child rest _
      cases hchild : p child with
      | error =>
        rw [hchild] at hp
        cases hp
      | ok value =>
        rw [hchild] at hp
        rw [hmono child value hchild]
        exact hp
  · exact hp

variable {condition : PolicyCondition}

theorem conditionMatches_succ {depth : Nat} {b : Bool}
    (hmatches : conditionMatches document claims depth condition = .ok b) :
    conditionMatches document claims (depth + 1) condition = .ok b := by
  induction depth generalizing condition b with
  | zero => cases hmatches
  | succ _ ih => exact resolvedMatches_mono (fun _ _ => ih) hmatches

theorem conditionMatches_mono {depth more : Nat} (hmore : depth ≤ more) {b : Bool}
    (hmatches : conditionMatches document claims depth condition = .ok b) :
    conditionMatches document claims more condition = .ok b := by
  induction hmore with
  | refl => exact hmatches
  | step _ ih => exact conditionMatches_succ ih

theorem conditionMatches_deepens : ∀ depth more condition b, depth ≤ more →
    conditionMatches document claims depth condition = .ok b →
      conditionMatches document claims more condition = .ok b :=
  fun _ _ _ _ hmore hmatches => conditionMatches_mono hmore hmatches

/-- Whether the loop over the children goes on after an answer. For NOT only the
first child is asked. -/
def goesOn : ConditionComposition → Bool → Bool
  | .all, b => b
  | .any, b => !b
  | .not, _ => false

theorem resolvedMatches_ends {p : PolicyCondition → Except EvaluationError Bool}
    {resolved : PolicyCondition} {composition : ConditionComposition}
    (hcomposition : resolved.composition = some composition)
    (hnot : composition = .not → resolved.children ≠ []) :
    (∃ b, resolvedMatches claims p resolved = .ok b) ↔
      Ends p (fun _ => goesOn composition) resolved.children := by
  rw [resolvedMatches, hcomposition]
  cases composition with
  | all => exact allM_ends
  | any => exact anyM_ends
  | not =>
    obtain ⟨child, rest, hkids⟩ := List.exists_cons_of_ne_nil (hnot rfl)
    simp only [hkids]
    cases hchild : p child with
    | error => exact iff_of_false (by rintro ⟨_, ⟨⟩⟩) (ends_cons_error hchild)
    | ok b =>
      rw [ends_cons_ok hchild]
      exact iff_of_true ⟨!b, rfl⟩ (by rintro ⟨⟩)

end Depth

mutual

/-- The names in a condition that its evaluation may look up. -/
def PolicyCondition.refs : PolicyCondition → List PolicyRef
  | .mk _ _ _ _ (some _) children => refsAll children
  | .mk (some ref) none _ _ none _ => [ref]
  | .mk _ _ _ _ none _ => []
termination_by structural condition => condition

def PolicyCondition.refsAll : List PolicyCondition → List PolicyRef
  | [] => []
  | condition :: rest => condition.refs ++ refsAll rest
termination_by structural conditions => conditions

end

mutual

/-- Every NOT has a child. -/
def PolicyCondition.wellFormed : PolicyCondition → Bool
  | .mk _ _ _ _ (some composition) children =>
    (composition != .not || !children.isEmpty) && wellFormedAll children
  | .mk _ _ _ _ none _ => true
termination_by structural condition => condition

def PolicyCondition.wellFormedAll : List PolicyCondition → Bool
  | [] => true
  | condition :: rest => condition.wellFormed && wellFormedAll rest
termination_by structural conditions => conditions

end

namespace PolicyDocument

variable (document : PolicyDocument)

/-- The condition of one name looks up another one of the document. -/
def Refers (name other : PolicyRef) : Prop :=
  ∃ condition, document.condition name = some condition ∧ condition.composition.isSome = true ∧
    other ∈ refsAll condition.children ∧ (document.condition other).isSome = true

/-- No condition refers to itself, directly or through others. -/
def Acyclic : Prop := ∀ name, ¬ TransGen document.Refers name name

structure WellFormed : Prop where
  named : ∀ condition ∈ document.conditions, condition.wellFormed = true
  stated : ∀ statement ∈ document.statements, ∀ condition, statement.condition = some condition →
    condition.wellFormed = true

end PolicyDocument

theorem PolicyCondition.wellFormed_composite {condition : PolicyCondition}
    {composition : ConditionComposition} (hcomposite : condition.composition = some composition)
    (hformed : condition.wellFormed = true) :
    (condition.composition = some .not → condition.children ≠ []) ∧
      wellFormedAll condition.children = true := by
  obtain ⟨_, _, _, _, _, children⟩ := condition
  cases hcomposite
  rw [wellFormed, Bool.and_eq_true] at hformed
  refine ⟨?_, hformed.2⟩
  intro hnot hempty
  have hshape : composition = .not ∧ children = [] := ⟨Option.some.inj hnot, hempty⟩
  rw [hshape.1, hshape.2] at hformed
  exact absurd hformed.1 (by decide)

section Termination

variable {document : PolicyDocument} {claims : List AuthClaim}

/-- The evaluation of a condition ends with an answer. -/
def Settles (document : PolicyDocument) (claims : List AuthClaim) (condition : PolicyCondition) :
    Prop :=
  ∃ depth b, conditionMatches document claims depth condition = .ok b

def SettlesResolved (document : PolicyDocument) (claims : List AuthClaim)
    (resolved : PolicyCondition) : Prop :=
  ∃ depth b, resolvedMatches claims (conditionMatches document claims depth) resolved = .ok b

variable {condition : PolicyCondition}

theorem settles_of_resolved
    (hresolved : SettlesResolved document claims (resolveCondition document condition)) :
    Settles document claims condition := by
  obtain ⟨depth, b, hmatches⟩ := hresolved
  exact ⟨depth + 1, b, hmatches⟩

variable {resolved : PolicyCondition}

theorem settlesResolved_atomic (hatomic : resolved.composition = none) :
    SettlesResolved document claims resolved := by
  refine ⟨0, ?_⟩
  simp only [resolvedMatches, hatomic]
  exact ⟨_, rfl⟩

theorem resolveCondition_composite {composition : ConditionComposition}
    (hcomposite : condition.composition = some composition) :
    resolveCondition document condition = condition := by
  rw [resolveCondition, hcomposite]
  cases condition.operator <;> rfl

theorem resolveCondition_named {ref : PolicyRef} (hoper : condition.operator = none)
    (hatomic : condition.composition = none) (href : condition.ref = some ref) :
    resolveCondition document condition = (document.condition ref).getD condition := by
  rw [resolveCondition, hoper, hatomic, href]

theorem settlesResolved_of_children
    (hnot : resolved.composition = some .not → resolved.children ≠ [])
    (hkids : ∀ child ∈ resolved.children, Settles document claims child) :
    SettlesResolved document claims resolved := by
  cases hcompn : resolved.composition with
  | none => exact settlesResolved_atomic hcompn
  | some composition =>
    have hcomes : ∀ child, Comes (conditionMatches document claims) (fun _ => goesOn composition)
        resolved.children child → Settled (conditionMatches document claims) child := by
      rintro child ⟨before, after, hsplit, _⟩
      exact hkids child (by simp [hsplit])
    obtain ⟨depth, hends⟩ := ends_of_comes conditionMatches_deepens hcomes
    exact ⟨depth, (resolvedMatches_ends hcompn (by simpa [hcompn] using hnot)).mpr hends⟩

mutual

/-- A condition settles if every condition it names does. -/
theorem settles_of_refs : (condition : PolicyCondition) → condition.wellFormed = true →
    (∀ ref ∈ condition.refs, ∀ named, document.condition ref = some named →
      SettlesResolved document claims named) → Settles document claims condition
  | .mk ref operator key value (some composition) children, hformed, hrefs => by
      obtain ⟨hnot, hkids⟩ := wellFormed_composite rfl hformed
      apply settles_of_resolved
      rw [resolveCondition_composite rfl]
      exact settlesResolved_of_children hnot (settles_of_refsAll children hkids hrefs)
  | .mk (some ref) none key value none children, _, hrefs => by
      apply settles_of_resolved
      rw [resolveCondition_named rfl rfl rfl]
      cases hnamed : document.condition ref with
      | none => exact settlesResolved_atomic rfl
      | some named => exact hrefs ref (.head _) named hnamed
  | .mk none none _ _ none _, _, _ => settles_of_resolved (settlesResolved_atomic rfl)
  | .mk _ (some _) _ _ none _, _, _ => settles_of_resolved (settlesResolved_atomic rfl)
termination_by structural condition => condition

theorem settles_of_refsAll : (conditions : List PolicyCondition) →
    wellFormedAll conditions = true →
    (∀ ref ∈ refsAll conditions, ∀ named, document.condition ref = some named →
      SettlesResolved document claims named) →
    ∀ condition ∈ conditions, Settles document claims condition
  | [], _, _ => by simp
  | condition :: rest, hformed, hrefs => by
      rw [wellFormedAll, Bool.and_eq_true] at hformed
      rw [refsAll] at hrefs
      intro other hother
      rcases List.mem_cons.mp hother with hsame | hrest
      · rw [hsame]
        exact settles_of_refs condition hformed.1 fun ref href =>
          hrefs ref (List.mem_append_left _ href)
      · exact settles_of_refsAll rest hformed.2 (fun ref href =>
          hrefs ref (List.mem_append_right _ href)) other hrest
termination_by structural conditions => conditions

end

theorem refers_wellFounded (hacyc : document.Acyclic) :
    WellFounded fun other name => document.Refers name other := by
  have hfinite : {name | (document.condition name).isSome = true}.Finite := by
    apply (document.conditions.filterMap ref).toFinset.finite_toSet.subset
    intro name hname
    obtain ⟨condition, hcond⟩ := Option.isSome_iff_exists.mp hname
    have hmem := List.mem_of_find?_eq_some hcond
    have href := List.find?_some hcond
    simp only [List.coe_toFinset, Set.mem_ofPred_eq, List.mem_filterMap]
    exact ⟨condition, List.mem_reverse.mp hmem, by simpa using href⟩
  have : IsStrictOrder PolicyRef fun other name => TransGen document.Refers name other :=
    { irrefl := hacyc
      trans := fun _ _ _ hab hbc => hbc.trans hab }
  have hfounded := Set.wellFoundedOn_iff.mp (hfinite.wellFoundedOn
    (r := fun other name => TransGen document.Refers name other))
  apply Subrelation.wf _ hfounded
  rintro other name ⟨condition, hcond, hcomposite, href, hother⟩
  exact ⟨.single ⟨condition, hcond, hcomposite, href, hother⟩, hother, by simp [hcond]⟩

/-- In a well formed document without cyclic references every condition
evaluates to an answer. -/
theorem settles_of_acyclic (hacyc : document.Acyclic) (hformed : document.WellFormed)
    (hcond : condition.wellFormed = true) : Settles document claims condition := by
  have hnamed : ∀ name named, document.condition name = some named →
      SettlesResolved document claims named := by
    intro name
    -- the condition of a name settles if those it refers to do
    induction name using (refers_wellFounded hacyc).induction with
    | _ _ ih =>
      intro named hname
      cases hcompn : named.composition with
      | none => exact settlesResolved_atomic hcompn
      | some =>
        have hmem : named ∈ document.conditions :=
          List.mem_reverse.mp (List.mem_of_find?_eq_some hname)
        obtain ⟨hnot, hkids⟩ :=
          wellFormed_composite hcompn (hformed.named named hmem)
        apply settlesResolved_of_children hnot
        apply settles_of_refsAll named.children hkids
        intro other hother target htarget
        apply ih other _ target htarget
        exact ⟨named, hname, by simp [hcompn], hother, by simp [htarget]⟩
  exact settles_of_refs condition hcond fun ref _ => hnamed ref

end Termination

end Spakky.Policy
