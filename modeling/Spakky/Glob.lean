import Mathlib.Data.List.Infix

/-!
Patterns with single-symbol wildcards and stars over any alphabet. Two
questions are answered about a pattern and a text: whether every text that
begins with it is accepted, and whether some text that begins with it is. Both
are decided by looking at the pattern and the text alone.
-/

namespace Spakky.Glob

open List

inductive Token (α : Type) where
  | one (accepts : α → Bool)
  | many

variable {α : Type}

def accepts : List (Token α) → List α → Bool
  | [], text => text.isEmpty
  | .one _ :: _, [] => false
  | .one symbol :: rest, c :: text => symbol c && accepts rest text
  | .many :: rest, text => text.tails.any (accepts rest)

@[simp] theorem accepts_nil (text : List α) : accepts [] text = text.isEmpty := rfl

variable (symbol : α → Bool) (rest : List (Token α))

@[simp] theorem accepts_one_nil :
    accepts (.one symbol :: rest) [] = false := rfl

@[simp] theorem accepts_one_cons (c : α) (text : List α) :
    accepts (.one symbol :: rest) (c :: text) = (symbol c && accepts rest text) := rfl

/-- A star stands for any part of the text. -/
theorem accepts_many_iff {rest : List (Token α)} {text : List α} :
    accepts (.many :: rest) text = true ↔
      ∃ skipped kept, text = skipped ++ kept ∧ accepts rest kept = true := by
  rw [accepts, any_eq_true]
  constructor
  · rintro ⟨kept, hmem, hacc⟩
    obtain ⟨skipped, hsplit⟩ := (mem_tails _ _).mp hmem
    exact ⟨skipped, kept, hsplit.symm, hacc⟩
  · rintro ⟨skipped, kept, hsplit, hacc⟩
    exact ⟨kept, (mem_tails _ _).mpr ⟨skipped, hsplit.symm⟩, hacc⟩

theorem accepts_append_iff {first second : List (Token α)} {text : List α} :
    accepts (first ++ second) text = true ↔
      ∃ front back, text = front ++ back ∧ accepts first front = true ∧
        accepts second back = true := by
  induction first generalizing text with
  | nil =>
    constructor
    · intro hacc
      exact ⟨[], text, rfl, rfl, hacc⟩
    · rintro ⟨_, _, rfl, hfront, hback⟩
      rw [accepts_nil, List.isEmpty_iff] at hfront
      rw [hfront]
      exact hback
  | cons token _ ih =>
    cases token with
    | one =>
      rw [cons_append]
      cases text with
      | nil =>
        constructor
        · intro hfalse
          cases hfalse
        · rintro ⟨_, _, hsplit, hfront, _⟩
          rw [(append_eq_nil_iff.mp hsplit.symm).1, accepts_one_nil] at hfront
          cases hfront
      | cons c =>
        rw [accepts_one_cons, Bool.and_eq_true, ih]
        constructor
        · rintro ⟨hsymbol, front, back, rfl, hfront, hback⟩
          refine ⟨c :: front, back, rfl, ?_, hback⟩
          rw [accepts_one_cons, hsymbol, hfront]
          rfl
        · rintro ⟨front, back, hsplit, hfront, hback⟩
          cases front with
          | nil => cases hfront
          | cons _ front =>
            rw [cons_append, cons.injEq] at hsplit
            rw [accepts_one_cons, Bool.and_eq_true] at hfront
            exact ⟨hsplit.1 ▸ hfront.1, front, back, hsplit.2, hfront.2, hback⟩
    | many =>
      rw [cons_append, accepts_many_iff]
      constructor
      · rintro ⟨skipped, _, rfl, hacc⟩
        obtain ⟨front, back, rfl, hfront, hback⟩ := ih.mp hacc
        refine ⟨skipped ++ front, back, by rw [append_assoc], ?_, hback⟩
        exact accepts_many_iff.mpr ⟨skipped, front, rfl, hfront⟩
      · rintro ⟨_, back, rfl, hfront, hback⟩
        obtain ⟨skipped, kept, rfl, hacc⟩ := accepts_many_iff.mp hfront
        refine ⟨skipped, kept ++ back, by rw [append_assoc], ?_⟩
        exact ih.mpr ⟨kept, back, rfl, hacc, hback⟩

section Extensions

/-- The token accepts every symbol. -/
def Token.IsFree : Token α → Prop
  | .one symbol => ∀ c, symbol c = true
  | .many => True

/-- There is a star, and behind it nothing is asked of any symbol. -/
def OpenEnded (tokens : List (Token α)) : Prop :=
  ∃ front back, tokens = front ++ .many :: back ∧ ∀ token ∈ back, token.IsFree

variable {tokens : List (Token α)} {text : List α}

/-- Tokens that ask nothing accept any other text of the same length. -/
theorem accepts_free (hfree : ∀ token ∈ tokens, token.IsFree) {other : List α}
    (hacc : accepts tokens text = true) (hlen : text.length ≤ other.length) :
    ∃ skipped kept, other = skipped ++ kept ∧ accepts tokens kept = true := by
  induction tokens generalizing text other with
  | nil => exact ⟨other, [], by rw [append_nil], rfl⟩
  | cons token rest ih =>
    have hrest : ∀ token ∈ rest, token.IsFree :=
      fun token hmem => hfree token (.tail _ hmem)
    cases token with
    | one symbol =>
      have hsymbol : ∀ c, symbol c = true := hfree (.one symbol) (.head _)
      cases text with
      | nil => cases hacc
      | cons _ text =>
        rw [accepts_one_cons, Bool.and_eq_true] at hacc
        cases other with
        | nil => simp at hlen
        | cons d other =>
          have hshorter : text.length ≤ other.length := by simpa using hlen
          obtain ⟨skipped, kept, rfl, hkept⟩ := ih hrest hacc.2 hshorter
          rcases eq_nil_or_concat skipped with rfl | ⟨front, last, rfl⟩
          · refine ⟨[], d :: kept, rfl, ?_⟩
            rw [accepts_one_cons, hsymbol, hkept]
            rfl
          · refine ⟨d :: front, last :: kept, by simp, ?_⟩
            rw [accepts_one_cons, hsymbol, hkept]
            rfl
    | many =>
      obtain ⟨_, kept, rfl, hkept⟩ := accepts_many_iff.mp hacc
      have hshorter : kept.length ≤ other.length := by
        rw [length_append] at hlen
        omega
      obtain ⟨front, back, rfl, hback⟩ := ih hrest hkept hshorter
      refine ⟨front, back, rfl, ?_⟩
      exact accepts_many_iff.mpr ⟨[], back, rfl, hback⟩

theorem OpenEnded.accepts_extension (hopen : OpenEnded tokens) (hacc : accepts tokens text = true)
    (more : List α) : accepts tokens (text ++ more) = true := by
  obtain ⟨_, _, rfl, hfree⟩ := hopen
  obtain ⟨before, _, rfl, hbefore, hbehind⟩ := accepts_append_iff.mp hacc
  obtain ⟨skipped, kept, rfl, hkept⟩ := accepts_many_iff.mp hbehind
  have hlen : kept.length ≤ (kept ++ more).length := by
    rw [length_append]
    exact Nat.le_add_right _ _
  obtain ⟨left, right, hsplit, hright⟩ := accepts_free hfree hkept hlen
  refine accepts_append_iff.mpr ⟨before, skipped ++ (left ++ right), ?_, hbefore, ?_⟩
  · rw [← hsplit]
    simp only [append_assoc]
  · rw [← append_assoc]
    exact accepts_many_iff.mpr ⟨skipped ++ left, right, rfl, hright⟩

/-- Without a star all accepted texts have the length of the pattern. -/
theorem accepts_length (hone : .many ∉ tokens) (hacc : accepts tokens text = true) :
    text.length = tokens.length := by
  induction tokens generalizing text with
  | nil => simpa using hacc
  | cons token _ ih =>
    cases token with
    | one =>
      cases text with
      | nil => cases hacc
      | cons =>
        rw [accepts_one_cons, Bool.and_eq_true] at hacc
        have hrest := ih (fun hmem => hone (.tail _ hmem)) hacc.2
        rw [length_cons, length_cons, hrest]
    | many => exact absurd (.head _) hone

/-- Tokens behind the last star that accept a text symbol by symbol accept each
symbol where it stands. -/
theorem accepts_forall (hone : .many ∉ tokens) {c : α}
    (hacc : accepts tokens (List.replicate tokens.length c) = true) :
    ∀ symbol, .one symbol ∈ tokens → symbol c = true := by
  induction tokens with
  | nil =>
    intro symbol hmem
    cases hmem
  | cons token _ ih =>
    intro symbol hmem
    cases token with
    | one =>
      rw [length_cons, replicate_succ, accepts_one_cons, Bool.and_eq_true] at hacc
      rcases mem_cons.mp hmem with hsame | hrest
      · cases hsame
        exact hacc.1
      · exact ih (fun hmany => hone (.tail _ hmany)) hacc.2 symbol hrest
    | many => exact absurd (.head _) hone

/-- The tokens from the last star on. -/
theorem exists_last_star (hmany : .many ∈ tokens) :
    ∃ front back, tokens = front ++ .many :: back ∧ .many ∉ back := by
  induction tokens with
  | nil => cases hmany
  | cons token rest ih =>
    by_cases hrest : .many ∈ rest
    · obtain ⟨front, back, rfl, hback⟩ := ih hrest
      exact ⟨token :: front, back, rfl, hback⟩
    · rcases mem_cons.mp hmany with hsame | hmem
      · exact ⟨[], rest, by rw [← hsame, nil_append], hrest⟩
      · exact absurd hmem hrest

theorem openEnded_of_extensions [Nonempty α] (hall : ∀ more, accepts tokens (text ++ more) = true) :
    OpenEnded tokens := by
  obtain ⟨symbol⟩ := ‹Nonempty α›
  have hmany : .many ∈ tokens := by
    by_contra hnone
    have hshort := accepts_length hnone (hall [])
    have hlong := accepts_length hnone (hall [symbol])
    simp only [length_append, length_nil, length_singleton] at hshort hlong
    omega
  obtain ⟨front, back, rfl, hback⟩ := exists_last_star hmany
  refine ⟨front, back, rfl, ?_⟩
  intro token hmem
  cases token with
  | many => trivial
  | one accepting =>
    intro c
    obtain ⟨_, behind, hsplit, _, hbehind⟩ :=
      accepts_append_iff.mp (hall (.replicate back.length c))
    obtain ⟨_, kept, rfl, hkept⟩ := accepts_many_iff.mp hbehind
    -- what the tokens behind the star accept is the end of the text
    have hlen := accepts_length hback hkept
    rw [← append_assoc] at hsplit
    have hend : kept = replicate back.length c :=
      (append_inj_right' hsplit (by rw [length_replicate, hlen])).symm
    rw [hend] at hkept
    exact accepts_forall hback hkept accepting hmem

/-- Every text that begins with a given one is accepted exactly if that one is
and the pattern is open-ended. -/
theorem accepts_extensions_iff [Nonempty α] :
    (∀ more, accepts tokens (text ++ more) = true) ↔
      accepts tokens text = true ∧ OpenEnded tokens := by
  constructor
  · intro hall
    refine ⟨by simpa using hall [], ?_⟩
    exact openEnded_of_extensions hall
  · rintro ⟨hacc, hopen⟩ more
    exact hopen.accepts_extension hacc more

end Extensions

section Meeting

/-- Some text is accepted: every single-symbol token accepts something. -/
def Satisfiable (tokens : List (Token α)) : Prop :=
  ∀ symbol, .one symbol ∈ tokens → ∃ c, symbol c = true

/-- Some text that begins with the given one is accepted. -/
def Meets : List (Token α) → List α → Prop
  | tokens, [] => Satisfiable tokens
  | [], _ :: _ => False
  | .one symbol :: rest, c :: text => symbol c = true ∧ Meets rest text
  | .many :: rest, text => ∃ kept ∈ text.tails, Meets rest kept

variable {tokens : List (Token α)}

theorem satisfiable_iff : Satisfiable tokens ↔ ∃ text, accepts tokens text = true := by
  induction tokens with
  | nil => simp [Satisfiable]
  | cons token rest ih =>
    cases token with
    | one symbol =>
      have hhead : Satisfiable (.one symbol :: rest) ↔
          (∃ c, symbol c = true) ∧ Satisfiable rest := by
        simp only [Satisfiable, mem_cons]
        constructor
        · intro hall
          exact ⟨hall symbol (.inl rfl), fun other hmem => hall other (.inr hmem)⟩
        · rintro ⟨hfirst, hrest⟩ other (hsame | hmem)
          · cases hsame
            exact hfirst
          · exact hrest other hmem
      rw [hhead, ih]
      constructor
      · rintro ⟨⟨c, hc⟩, text, hacc⟩
        refine ⟨c :: text, ?_⟩
        rw [accepts_one_cons, hc, hacc]
        rfl
      · rintro ⟨text, hacc⟩
        cases text with
        | nil => cases hacc
        | cons c text =>
          rw [accepts_one_cons, Bool.and_eq_true] at hacc
          exact ⟨⟨c, hacc.1⟩, text, hacc.2⟩
    | many =>
      have hhead : Satisfiable (.many :: rest) ↔ Satisfiable rest := by
        simp [Satisfiable]
      rw [hhead, ih]
      constructor
      · rintro ⟨text, hacc⟩
        exact ⟨text, accepts_many_iff.mpr ⟨[], text, rfl, hacc⟩⟩
      · rintro ⟨_, hacc⟩
        obtain ⟨_, kept, _, hkept⟩ := accepts_many_iff.mp hacc
        exact ⟨kept, hkept⟩

theorem meets_iff {text : List α} :
    Meets tokens text ↔ ∃ more, accepts tokens (text ++ more) = true := by
  induction tokens generalizing text with
  | nil =>
    cases text with
    | nil => exact satisfiable_iff
    | cons => simp [Meets]
  | cons token rest ih =>
    cases text with
    | nil =>
      have hnil : Meets (token :: rest) [] ↔ Satisfiable (token :: rest) := by
        cases token <;> rfl
      exact satisfiable_iff
    | cons =>
      cases token with
      | one =>
        simp only [Meets, ih, cons_append, accepts_one_cons, Bool.and_eq_true, exists_and_left]
      | many =>
        simp only [Meets, ih]
        constructor
        · rintro ⟨kept, hmem, more, hacc⟩
          obtain ⟨skipped, hsplit⟩ := (mem_tails _ _).mp hmem
          refine ⟨more, accepts_many_iff.mpr ⟨skipped, kept ++ more, ?_, hacc⟩⟩
          rw [← hsplit, append_assoc]
        · rintro ⟨more, hacc⟩
          obtain ⟨skipped, kept, hsplit, hkept⟩ := accepts_many_iff.mp hacc
          rcases append_eq_append_iff.mp hsplit with
            ⟨extra, _, _⟩ | ⟨extra, htext, hkept'⟩
          · refine ⟨[], (mem_tails _ _).mpr (nil_suffix), kept, ?_⟩
            exact hkept
          · refine ⟨extra, (mem_tails _ _).mpr ⟨skipped, htext.symm⟩, more, ?_⟩
            rw [← hkept']
            exact hkept

end Meeting

end Spakky.Glob
