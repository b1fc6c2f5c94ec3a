import Mathlib.Data.List.Perm.Basic

/-!
Combining rules that allow or deny, where deciding whether a rule applies may
fail. The rules are tried one after the other; the first that denies ends the
search, and rules that allow are only remembered.

The outcome has a description without an order: a request is denied if some
rule denies it, granted if none does and some rule allows it, and otherwise
nothing was said about it.
-/

namespace Spakky.DenyOverrides

inductive Verdict where
  | denied
  | granted
  | silent
  deriving DecidableEq, Repr

variable {ρ ε : Type} (denies : ρ → Bool) (applies : ρ → Except ε Bool)

/-- The search for a rule that denies. -/
def search : List ρ → Bool → Except ε Verdict
  | [], allowSeen => .ok (if allowSeen then .granted else .silent)
  | rule :: rest, allowSeen => do
      if ← applies rule then
        if denies rule then pure .denied else search rest true
      else search rest allowSeen

def combine (rules : List ρ) : Except ε Verdict := search denies applies rules false

/-- The same outcome, read off the set of rules that apply. -/
def verdict (holds : ρ → Bool) (rules : List ρ) : Verdict :=
  if rules.any fun rule => denies rule && holds rule then .denied
  else if rules.any fun rule => !denies rule && holds rule then .granted
  else .silent

section Search

variable {denies applies} {rule : ρ} {rest : List ρ} {allowSeen : Bool}

theorem search_error {error : ε} (hrule : applies rule = .error error) :
    search denies applies (rule :: rest) allowSeen = .error error := by
  rw [search, hrule]
  rfl

theorem search_deny (hrule : applies rule = .ok true) (hdenies : denies rule = true) :
    search denies applies (rule :: rest) allowSeen = .ok .denied := by
  simp only [search, hrule, bind, Except.bind, hdenies, if_true]
  rfl

theorem search_allow (hrule : applies rule = .ok true) (hallows : denies rule = false) :
    search denies applies (rule :: rest) allowSeen = search denies applies rest true := by
  simp [search, hrule, bind, Except.bind, hallows]

theorem search_skip (hrule : applies rule = .ok false) :
    search denies applies (rule :: rest) allowSeen = search denies applies rest allowSeen := by
  simp [search, hrule, bind, Except.bind]

end Search

section Total

variable {denies applies} {holds : ρ → Bool} {rules : List ρ}
  (htotal : ∀ rule ∈ rules, applies rule = .ok (holds rule))
include htotal

theorem search_eq (allowSeen : Bool) :
    search denies applies rules allowSeen =
      .ok (if rules.any fun rule => denies rule && holds rule then .denied
        else if allowSeen || rules.any fun rule => !denies rule && holds rule then .granted
        else .silent) := by
  induction rules generalizing allowSeen with
  | nil => simp [search]
  | cons rule _ ih =>
    have hrule := htotal rule (.head _)
    have hrest := ih fun other hother => htotal other (.tail _ hother)
    cases hholds : holds rule with
    | false =>
      rw [hholds] at hrule
      simp [search_skip hrule, hrest, hholds]
    | true =>
      rw [hholds] at hrule
      cases hdenies : denies rule with
      | true => simp [search_deny hrule hdenies, hholds, hdenies]
      | false => simp [search_allow hrule hdenies, hrest, hholds, hdenies]

/-- Where it can be decided of every rule whether it applies, combining the
rules gives the verdict. -/
theorem combine_eq : combine denies applies rules = .ok (verdict denies holds rules) := by
  rw [combine, search_eq htotal]
  rfl

end Total

section Granted

variable {denies applies}

theorem search_granted_iff {rules : List ρ} {allowSeen : Bool} :
    search denies applies rules allowSeen = .ok .granted ↔
      (∀ rule ∈ rules, ∃ holds, applies rule = .ok holds ∧ (denies rule = true → holds = false)) ∧
        (allowSeen = true ∨ ∃ rule ∈ rules, denies rule = false ∧ applies rule = .ok true) := by
  induction rules generalizing allowSeen with
  | nil => cases allowSeen <;> simp [search]
  | cons rule _ ih =>
    cases hrule : applies rule with
    | error => simp [search_error hrule, hrule]
    | ok holds =>
      cases holds with
      | false => simp [search_skip hrule, ih, hrule]
      | true =>
        cases hdenies : denies rule with
        | true => simp [search_deny hrule hdenies, hrule, hdenies]
        | false => simp [search_allow hrule hdenies, ih, hrule, hdenies]

/-- A request is granted exactly if no rule fails, none denies it and some
rule allows it. -/
theorem combine_granted_iff {rules : List ρ} :
    combine denies applies rules = .ok .granted ↔
      (∀ rule ∈ rules, ∃ holds, applies rule = .ok holds ∧ (denies rule = true → holds = false)) ∧
        ∃ rule ∈ rules, denies rule = false ∧ applies rule = .ok true := by
  rw [combine, search_granted_iff]
  simp

end Granted

section Verdict

variable {denies} {holds : ρ → Bool} {rules : List ρ}

theorem verdict_denied_iff : verdict denies holds rules = .denied ↔
    ∃ rule ∈ rules, denies rule = true ∧ holds rule = true := by
  rw [verdict]
  split <;> [skip; split] <;> simp_all

theorem verdict_granted_iff : verdict denies holds rules = .granted ↔
    (∃ rule ∈ rules, denies rule = false ∧ holds rule = true) ∧
      ¬ ∃ rule ∈ rules, denies rule = true ∧ holds rule = true := by
  rw [verdict]
  split <;> [skip; split] <;> simp_all

theorem verdict_perm {other : List ρ} (hperm : rules.Perm other) :
    verdict denies holds rules = verdict denies holds other := by
  rw [verdict, verdict, hperm.any_eq, hperm.any_eq]

/-- One rule more that denies never grants what was not granted. -/
theorem verdict_add_deny {rule : ρ} (hdenies : denies rule = true)
    (hgrant : verdict denies holds (rule :: rules) = .granted) :
    verdict denies holds rules = .granted := by
  rw [verdict_granted_iff] at hgrant ⊢
  obtain ⟨⟨allowing, hmem, hallows, hholds⟩, hnone⟩ := hgrant
  rcases List.mem_cons.mp hmem with rfl | hrest
  · rw [hdenies] at hallows
    cases hallows
  · refine ⟨⟨allowing, hrest, hallows, hholds⟩, ?_⟩
    rintro ⟨denying, hdenying, hrule⟩
    exact hnone ⟨denying, .tail _ hdenying, hrule⟩

/-- One rule more that allows never refuses what was granted. -/
theorem verdict_add_allow {rule : ρ} (hallows : denies rule = false)
    (hgrant : verdict denies holds rules = .granted) :
    verdict denies holds (rule :: rules) = .granted := by
  rw [verdict_granted_iff] at hgrant ⊢
  obtain ⟨⟨allowing, hmem, hallowing⟩, hnone⟩ := hgrant
  refine ⟨⟨allowing, .tail _ hmem, hallowing⟩, ?_⟩
  rintro ⟨denying, hdenying, hrule, hholds⟩
  rcases List.mem_cons.mp hdenying with rfl | hrest
  · rw [hallows] at hrule
    cases hrule
  · exact hnone ⟨denying, hrest, hrule, hholds⟩

end Verdict

end Spakky.DenyOverrides
