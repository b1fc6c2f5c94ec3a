import Mathlib.Data.List.Basic

/-!
Matching with backtracking: a pattern hands what it leaves of the text to a
continuation, and tries its next alternative where the continuation fails. An
optional or repeated symbol is taken as often as possible first. `sub` replaces the
leftmost matches of an entry and its value, which do not overlap, and keeps the entry.

Whatever alternative is taken, the text it uses up is one the pattern describes; so a
replacement that has as many symbols of some kind as any value keeps their number.
-/

namespace Spakky.Regex

open List

variable {α β : Type}

inductive Pattern (α : Type) where
  | one (accepts : α → Bool)
  | maybe (accepts : α → Bool)
  | many (accepts : α → Bool)
  /-- One of the words stands ahead, if there are any words. -/
  | ahead (words : List (List α))
  | seq (first second : Pattern α)

def runMany (accepts : α → Bool) (next : List α → Option β) : List α → Option β
  | [] => next []
  | c :: rest =>
    if accepts c then (runMany accepts next rest).or (next (c :: rest)) else next (c :: rest)

/-- The texts that a pattern can use up. -/
def Pattern.Describes : Pattern α → List α → Prop
  | .one accepts, used => ∃ c, accepts c = true ∧ used = [c]
  | .maybe accepts, used => used = [] ∨ ∃ c, accepts c = true ∧ used = [c]
  | .many accepts, used => ∀ c ∈ used, accepts c = true
  | .ahead _, used => used = []
  | .seq first second, used =>
    ∃ before after, used = before ++ after ∧ first.Describes before ∧ second.Describes after

theorem runMany_some {accepts : α → Bool} {next : List α → Option β} {s : List α} {found : β}
    (hfound : runMany accepts next s = some found) :
    ∃ used rest, s = used ++ rest ∧ (∀ c ∈ used, accepts c = true) ∧ next rest = some found := by
  induction s with
  | nil => exact ⟨[], [], rfl, nofun, hfound⟩
  | cons c s ih =>
    rw [runMany] at hfound
    split at hfound
    next hc =>
      rcases Option.or_eq_some_iff.mp hfound with hlater | ⟨_, hnow⟩
      · obtain ⟨used, rest, rfl, hused, hnext⟩ := ih hlater
        exact ⟨c :: used, rest, rfl, forall_mem_cons.mpr ⟨hc, hused⟩, hnext⟩
      · exact ⟨[], c :: s, rfl, nofun, hnow⟩
    next => exact ⟨[], c :: s, rfl, nofun, hfound⟩

variable [DecidableEq α]

def Pattern.run : Pattern α → (List α → Option β) → List α → Option β
  | .one _, _, [] => none
  | .one accepts, next, c :: rest => if accepts c then next rest else none
  | .maybe _, next, [] => next []
  | .maybe accepts, next, c :: rest =>
    if accepts c then (next rest).or (next (c :: rest)) else next (c :: rest)
  | .many accepts, next, s => runMany accepts next s
  | .ahead words, next, s =>
    if words = [] ∨ words.any (·.isPrefixOf s) then next s else none
  | .seq first second, next, s => first.run (second.run next) s

/-- What a pattern finds, the continuation finds in what the pattern leaves of the text
after one that it describes. -/
theorem Pattern.run_some {pattern : Pattern α} {next : List α → Option β} {s : List α} {found : β}
    (hfound : pattern.run next s = some found) :
    ∃ used rest, s = used ++ rest ∧ pattern.Describes used ∧ next rest = some found := by
  induction pattern generalizing next s with
  | one =>
    cases s with
    | nil => cases hfound
    | cons c s =>
      rw [Pattern.run] at hfound
      split at hfound
      next hc => exact ⟨[c], s, rfl, ⟨c, hc, rfl⟩, hfound⟩
      next => cases hfound
  | maybe =>
    cases s with
    | nil => exact ⟨[], [], rfl, .inl rfl, hfound⟩
    | cons c s =>
      rw [Pattern.run] at hfound
      split at hfound
      next hc =>
        rcases Option.or_eq_some_iff.mp hfound with hlater | ⟨_, hnow⟩
        · exact ⟨[c], s, rfl, .inr ⟨c, hc, rfl⟩, hlater⟩
        · exact ⟨[], c :: s, rfl, .inl rfl, hnow⟩
      next => exact ⟨[], c :: s, rfl, .inl rfl, hfound⟩
  | many => exact runMany_some hfound
  | ahead =>
    rw [Pattern.run] at hfound
    split at hfound
    · exact ⟨[], s, rfl, rfl, hfound⟩
    · cases hfound
  | seq _ _ ihfirst ihsecond =>
    obtain ⟨before, _, rfl, hbefore, hsnd⟩ := ihfirst hfound
    obtain ⟨after, rest, rfl, hafter, hnext⟩ := ihsecond hsnd
    exact ⟨before ++ after, rest, (append_assoc ..).symm, ⟨before, after, rfl, hbefore, hafter⟩,
      hnext⟩

/-- What is left where the value begins and where it ends, in the match at the beginning
of a text. -/
def firstMatch (entry value : Pattern α) (s : List α) : Option (List α × List α) :=
  entry.run (fun rest => value.run (fun after => some (rest, after)) rest) s

/-- Replaces the values after some symbols that a match has used up. A match is not
empty. -/
def subFrom (entry value : Pattern α) (replacement : List α) : Nat → List α → List α
  | _, [] => []
  | used + 1, _ :: rest => subFrom entry value replacement used rest
  | 0, c :: rest =>
    match firstMatch entry value (c :: rest) with
    | none => c :: subFrom entry value replacement 0 rest
    | some (begins, ends) =>
      (c :: rest).take ((c :: rest).length - begins.length) ++ replacement ++
        subFrom entry value replacement (rest.length - ends.length) rest

def sub (entry value : Pattern α) (replacement s : List α) : List α :=
  subFrom entry value replacement 0 s

section Sub

variable {entry value : Pattern α} {replacement : List α}

theorem subFrom_drop (used : Nat) (s : List α) :
    subFrom entry value replacement used s = sub entry value replacement (s.drop used) := by
  induction s generalizing used with
  | nil => cases used <;> rfl
  | cons _ _ ih =>
    cases used with
    | zero => rfl
    | succ => rw [subFrom, ih, drop_succ_cons]

/-- Where there is no match the text is kept. -/
theorem sub_skip {c : α} {rest : List α} (hnone : firstMatch entry value (c :: rest) = none) :
    sub entry value replacement (c :: rest) = c :: sub entry value replacement rest := by
  rw [sub, subFrom, hnone]
  rfl

/-- A match is kept up to its value, which is replaced. -/
theorem sub_match {kept used ends : List α} (hused : used ≠ [])
    (hmatch : firstMatch entry value (kept ++ (used ++ ends)) = some (used ++ ends, ends)) :
    sub entry value replacement (kept ++ (used ++ ends)) =
      kept ++ replacement ++ sub entry value replacement ends := by
  generalize hs : kept ++ (used ++ ends) = s at hmatch ⊢
  have hlen : s.length = kept.length + (used ++ ends).length := by
    rw [← hs, length_append]
  cases s with
  | nil =>
    have hpos := length_pos_iff.mpr hused
    simp only [length_nil, length_append] at hlen
    omega
  | cons c rest =>
    have hkept : (c :: rest).take ((c :: rest).length - (used ++ ends).length) = kept := by
      rw [hlen, Nat.add_sub_cancel, ← hs, take_left]
    have hends : rest.drop (rest.length - ends.length) = ends := by
      have hpos := length_pos_iff.mpr hused
      have hcount : rest.length - ends.length + 1 = (kept ++ used).length := by
        simp only [length_cons, length_append] at hlen ⊢
        omega
      have hdrop : (c :: rest).drop (rest.length - ends.length + 1) = ends := by
        rw [hcount, ← hs, ← append_assoc, drop_left]
      exact hdrop
    rw [sub, subFrom, hmatch]
    simp only [subFrom_drop, hkept, hends]

theorem firstMatch_some {s begins ends : List α}
    (hmatch : firstMatch entry value s = some (begins, ends)) :
    ∃ kept used, s = kept ++ (used ++ ends) ∧ begins = used ++ ends ∧ value.Describes used := by
  obtain ⟨kept, rest, rfl, -, hvalue⟩ := Pattern.run_some hmatch
  obtain ⟨used, after, rfl, hused, hfound⟩ := Pattern.run_some hvalue
  obtain ⟨rfl, rfl⟩ := Prod.mk.inj (Option.some.inj hfound)
  exact ⟨kept, used, rfl, rfl, hused⟩

/-- The number of the symbols of some kind stays the same, if it is that of the
replacement in every value. -/
theorem countP_sub {p : α → Bool} (hnonempty : ¬ value.Describes [])
    (hcount : ∀ used, value.Describes used → used.countP p = replacement.countP p)
    (s : List α) : (sub entry value replacement s).countP p = s.countP p := by
  -- on the length of the text, since a match is passed as a whole
  induction hlen : s.length using Nat.strongRecOn generalizing s with
  | _ n ih =>
    cases s with
    | nil => rfl
    | cons c rest =>
      cases hmatch : firstMatch entry value (c :: rest) with
      | none =>
        have hrest := ih rest.length (by rw [← hlen]; exact Nat.lt_succ_self _) rest rfl
        rw [sub_skip hmatch, countP_cons, countP_cons, hrest]
      | some found =>
        obtain ⟨begins, ends⟩ := found
        obtain ⟨kept, used, hs, rfl, hused⟩ := firstMatch_some hmatch
        have hne : used ≠ [] := by
          rintro rfl
          exact hnonempty hused
        have hshort : ends.length < n := by
          have hpos := length_pos_iff.mpr hne
          rw [← hlen, hs, length_append, length_append]
          omega
        rw [hs] at hmatch ⊢
        rw [sub_match hne hmatch]
        simp only [countP_append, ih ends.length hshort ends rfl, hcount used hused]
        omega

end Sub

end Spakky.Regex
