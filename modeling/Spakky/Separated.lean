import Mathlib.Data.List.Basic

/-!
A head and a body joined by a separator without escaping, where the head may
be missing together with its separator. Such a text does not tell where the
head ended, or whether there was one: the texts of two pairs agree exactly if
the pairs are equal or confusable.
-/

namespace Spakky.Separated

open List

variable {α : Type}

def join (separator : List α) : Option (List α) × List α → List α
  | (none, body) => body
  | (some head, body) => head ++ separator ++ body

/-- The longer head reaches into the separator and the body behind the shorter
one. -/
def Overlaps (separator : List α) (short long : List α × List α) : Prop :=
  ∃ extra, extra ≠ [] ∧ long.1 = short.1 ++ extra ∧
    separator ++ short.2 = extra ++ separator ++ long.2

/-- A body that is itself a joined text, or two heads that overlap. -/
def Confusable (separator : List α) : Option (List α) × List α → Option (List α) × List α → Prop
  | (none, _), (none, _) => False
  | (none, body), (some head, rest) | (some head, rest), (none, body) =>
    body = head ++ separator ++ rest
  | (some head, body), (some head', body') =>
    Overlaps separator (head, body) (head', body') ∨ Overlaps separator (head', body') (head, body)

theorem Overlaps.join_eq {separator : List α} {short long : List α × List α}
    (h : Overlaps separator short long) :
    short.1 ++ separator ++ short.2 = long.1 ++ separator ++ long.2 := by
  obtain ⟨_, _, hhead, hbody⟩ := h
  rw [hhead, append_assoc, hbody]
  simp only [append_assoc]

/-- Where two joined texts agree and the first head is not the longer one, the
pairs are the same or overlap. -/
theorem eq_or_overlaps {separator extra : List α} (short long : List α × List α)
    (hhead : long.1 = short.1 ++ extra)
    (hbody : separator ++ short.2 = extra ++ (separator ++ long.2)) :
    short = long ∨ Overlaps separator short long := by
  by_cases hextra : extra = []
  · subst hextra
    rw [append_nil] at hhead
    exact .inl (Prod.ext hhead.symm (append_cancel_left hbody))
  · rw [← append_assoc] at hbody
    exact .inr ⟨extra, hextra, hhead, hbody⟩

theorem join_eq_iff {separator : List α} {first second : Option (List α) × List α} :
    join separator first = join separator second ↔
      first = second ∨ Confusable separator first second := by
  obtain ⟨_ | head, body⟩ := first <;> obtain ⟨_ | head', body'⟩ := second
  · simp [join, Confusable]
  · simp [join, Confusable]
  · simp [join, Confusable, eq_comm]
  · simp only [join, Confusable, Prod.mk.injEq, Option.some.injEq]
    constructor
    · intro heq
      rw [append_assoc, append_assoc] at heq
      rcases append_eq_append_iff.mp heq with ⟨_, hhead, hbody⟩ | ⟨_, hhead, hbody⟩
      · rcases eq_or_overlaps (head, body) (head', body') hhead hbody with hsame | hoverlaps
        · exact .inl (Prod.mk.inj hsame)
        · exact .inr (.inl hoverlaps)
      · rcases eq_or_overlaps (head', body') (head, body) hhead hbody with hsame | hoverlaps
        · exact .inl (Prod.mk.inj hsame.symm)
        · exact .inr (.inr hoverlaps)
    · rintro (⟨rfl, rfl⟩ | hoverlaps | hoverlaps)
      · rfl
      · exact hoverlaps.join_eq
      · exact hoverlaps.join_eq.symm

theorem eq_of_join {separator : List α} {first second : Option (List α) × List α}
    (hjoin : join separator first = join separator second)
    (hclear : ¬ Confusable separator first second) : first = second :=
  (join_eq_iff.mp hjoin).resolve_right hclear

/-- The longer of two heads that overlap has the first symbol of the separator. -/
theorem Overlaps.not_free {mark : α} {rest : List α} {short long : List α × List α}
    (h : Overlaps (mark :: rest) short long) : mark ∈ long.1 := by
  obtain ⟨_, hextra, hhead, hbody⟩ := h
  obtain ⟨first, _, rfl⟩ := exists_cons_of_ne_nil hextra
  have hfirst : mark = first := by
    simp only [cons_append, cons.injEq] at hbody
    exact hbody.1
  rw [hhead, hfirst]
  simp

/-- A head, or the body where there is no head, without the first symbol of
the separator. -/
def Free (mark : α) : Option (List α) × List α → Prop
  | (none, body) => mark ∉ body
  | (some head, _) => mark ∉ head

theorem not_confusable_of_free {mark : α} {rest : List α}
    {first second : Option (List α) × List α} (hfirst : Free mark first)
    (hsnd : Free mark second) : ¬ Confusable (mark :: rest) first second := by
  have hjoined (head body : List α) : mark ∈ head ++ (mark :: rest) ++ body := by simp
  obtain ⟨_ | head, body⟩ := first <;> obtain ⟨_ | head', body'⟩ := second
  · exact id
  · intro heq
    exact hfirst (heq ▸ hjoined head' body')
  · intro heq
    exact hsnd (heq ▸ hjoined head body)
  · rintro (hoverlaps | hoverlaps)
    · exact hsnd hoverlaps.not_free
    · exact hfirst hoverlaps.not_free

end Spakky.Separated
