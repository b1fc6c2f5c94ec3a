import Mathlib.Data.List.Infix

/-!
Scanning a text for matches from left to right, and replacing them. A matcher
is tried at every place, with what stands before it and after it; a match is
skipped as a whole, and the next attempt is made right behind it. After an
empty match the same place is tried once more for a match that is not empty.
This is how `re.subn` and `re.finditer` go through a text.

The second half is about matchers that look for words of one fixed length.
Replacing is then stable: it may be done on a first part of the text before
the rest is known, and everything but a tail as long as a word may be given
away.
-/

namespace Spakky.Scan

open List

variable {α : Type}

/-- The length of a match and what its replacement expands to. -/
structure Hit (α : Type) where
  length : Nat
  expansion : List α

/-- Matching at a place between two parts of a text. The flag rules out the
empty match. -/
abbrev Matcher (α : Type) := List α → List α → Bool → Option (Hit α)

inductive Segment (α : Type) where
  | keep (a : α)
  | hit (matched expansion : List α)

def Segment.input : Segment α → List α
  | .keep a => [a]
  | .hit matched _ => matched

def Segment.output : Segment α → List α
  | .keep a => [a]
  | .hit _ expansion => expansion

def Segment.isHit : Segment α → Bool
  | .keep _ => false
  | .hit _ _ => true

/-- The empty match at a place, if that is what is found there first. -/
def emptyHit (m : Matcher α) (before rest : List α) : List (Segment α) :=
  match m before rest false with
  | some ⟨0, expansion⟩ => [.hit [] expansion]
  | _ => []

/-- The match at a place that is not empty, with its length less one. -/
def properHit (m : Matcher α) (before rest : List α) : Option (Nat × List α) :=
  match m before rest false with
  | some ⟨n + 1, expansion⟩ => some (n, expansion)
  | some ⟨0, _⟩ =>
    match m before rest true with
    | some ⟨n + 1, expansion⟩ => some (n, expansion)
    | _ => none
  | none => none

/-- Scan the second part, of which the given number of elements still belongs
to the last match. -/
def scan (m : Matcher α) : List α → List α → Nat → List (Segment α)
  | before, [], _ => emptyHit m before []
  | before, a :: rest, pending + 1 => scan m (before ++ [a]) rest pending
  | before, a :: rest, 0 =>
    emptyHit m before (a :: rest) ++
      match properHit m before (a :: rest) with
      | some (n, expansion) =>
        .hit ((a :: rest).take (n + 1)) expansion :: scan m (before ++ [a]) rest n
      | none => .keep a :: scan m (before ++ [a]) rest 0

def segments (m : Matcher α) (text : List α) : List (Segment α) := scan m [] text 0

def substitute (m : Matcher α) (text : List α) : List α := (segments m text).flatMap Segment.output

/-- Where the matches of a scanned text begin and end. -/
def spansFrom : Nat → List (Segment α) → List (Nat × Nat)
  | _, [] => []
  | offset, .keep _ :: rest => spansFrom (offset + 1) rest
  | offset, .hit matched _ :: rest =>
    (offset, offset + matched.length) :: spansFrom (offset + matched.length) rest

def spans (m : Matcher α) (text : List α) : List (Nat × Nat) := spansFrom 0 (segments m text)

/-- The elements that are kept, with their places in the scanned text. -/
def keptFrom : Nat → List (Segment α) → List (Nat × α)
  | _, [] => []
  | offset, .keep a :: rest => (offset, a) :: keptFrom (offset + 1) rest
  | offset, .hit matched _ :: rest => keptFrom (offset + matched.length) rest

theorem properHit_found {m : Matcher α} {before rest : List α} {found : Nat × List α}
    (hproper : properHit m before rest = some found) :
    ∃ mustAdvance, m before rest mustAdvance = some ⟨found.1 + 1, found.2⟩ := by
  unfold properHit at hproper
  split at hproper
  · next hfound =>
      cases hproper
      exact ⟨false, hfound⟩
  · split at hproper
    · next hfound =>
        cases hproper
        exact ⟨true, hfound⟩
    · cases hproper
  · cases hproper

variable (m : Matcher α)

theorem emptyHit_input (before rest : List α) :
    (emptyHit m before rest).flatMap Segment.input = [] := by
  unfold emptyHit
  split <;> rfl

theorem scan_input (before text : List α) (pending : Nat) :
    (scan m before text pending).flatMap Segment.input = text.drop pending := by
  induction text generalizing before pending with
  | nil =>
    unfold scan
    rw [emptyHit_input, drop_nil]
  | cons _ _ ih =>
    cases pending with
    | succ =>
      unfold scan
      rw [ih, drop_succ_cons]
    | zero =>
      unfold scan
      rw [flatMap_append, emptyHit_input, nil_append, drop_zero]
      split
      · rename_i n expansion _
        rw [flatMap_cons, ih, Segment.input, take_succ_cons, cons_append, take_append_drop]
      · rw [flatMap_cons, ih, Segment.input, drop_zero, singleton_append]

theorem segments_input (text : List α) : (segments m text).flatMap Segment.input = text :=
  scan_input m [] text 0

section Places

variable {segs : List (Segment α)} {offset i : Nat} {a : α} {span : Nat × Nat}

theorem spansFrom_le (hspan : span ∈ spansFrom offset segs) : offset ≤ span.1 := by
  induction segs generalizing offset with
  | nil => cases hspan
  | cons seg rest ih =>
    cases seg with
    | keep =>
      have hspan' : span ∈ spansFrom (offset + 1) rest := hspan
      have hlater := ih hspan'
      omega
    | hit =>
      rcases mem_cons.mp hspan with rfl | hrest
      · exact Nat.le_refl _
      · have hlater := ih hrest
        omega

section

variable (hkept : (i, a) ∈ keptFrom offset segs)
include hkept

theorem keptFrom_le : offset ≤ i := by
  induction segs generalizing offset with
  | nil => cases hkept
  | cons seg rest ih =>
    cases seg with
    | keep =>
      rcases mem_cons.mp hkept with heq | hrest
      · cases heq
        exact Nat.le_refl _
      · have hlater := ih hrest
        omega
    | hit matched =>
      have hkept' : (i, a) ∈ keptFrom (offset + matched.length) rest := hkept
      have hlater := ih hkept'
      omega

/-- What is kept lies outside of every match. -/
theorem kept_outside (hspan : span ∈ spansFrom offset segs) : i < span.1 ∨ span.2 ≤ i := by
  induction segs generalizing offset with
  | nil => cases hkept
  | cons seg rest ih =>
    cases seg with
    | keep =>
      rcases mem_cons.mp hkept with heq | hrest
      · cases heq
        have hspan' : span ∈ spansFrom (i + 1) rest := hspan
        have hlater := spansFrom_le hspan'
        omega
      · exact ih hrest hspan
    | hit matched =>
      have hkept' : (i, a) ∈ keptFrom (offset + matched.length) rest := hkept
      have hlater := keptFrom_le hkept'
      rcases mem_cons.mp hspan with rfl | hrest
      · exact .inr hlater
      · exact ih hkept' hrest

/-- An element is kept at the place where it stands in the text. -/
theorem kept_input : (segs.flatMap Segment.input)[i - offset]? = some a := by
  induction segs generalizing offset with
  | nil => cases hkept
  | cons seg rest ih =>
    cases seg with
    | keep =>
      rcases mem_cons.mp hkept with heq | hrest
      · cases heq
        simp [Segment.input]
      · have hlater := keptFrom_le hrest
        rw [flatMap_cons, Segment.input, singleton_append,
          show i - offset = (i - (offset + 1)) + 1 by omega, getElem?_cons_succ]
        exact ih hrest
    | hit matched =>
      have hkept' : (i, a) ∈ keptFrom (offset + matched.length) rest := hkept
      have hlater := keptFrom_le hkept'
      rw [flatMap_cons, Segment.input,
        getElem?_append_right (by omega),
        show i - offset - matched.length = i - (offset + matched.length) by omega]
      exact ih hkept'

end

/-- What comes out was kept or comes from an expansion. -/
theorem mem_output (offset : Nat) (hmem : a ∈ segs.flatMap Segment.output) :
    (∃ i, (i, a) ∈ keptFrom offset segs) ∨
      ∃ matched expansion, .hit matched expansion ∈ segs ∧ a ∈ expansion := by
  induction segs generalizing offset with
  | nil => cases hmem
  | cons seg _ ih =>
    rw [flatMap_cons, mem_append] at hmem
    cases seg with
    | keep =>
      rcases hmem with hhere | hrest
      · rw [Segment.output, mem_singleton] at hhere
        subst hhere
        exact .inl ⟨offset, .head _⟩
      · rcases ih (offset + 1) hrest with ⟨i, hkept⟩ | ⟨matched, expansion, hseg, ha⟩
        · exact .inl ⟨i, .tail _ hkept⟩
        · exact .inr ⟨matched, expansion, .tail _ hseg, ha⟩
    | hit matched expansion =>
      rcases hmem with hhere | hrest
      · exact .inr ⟨matched, expansion, .head _, hhere⟩
      · rcases ih (offset + matched.length) hrest with hkept | ⟨matched', expansion', hseg, ha⟩
        · exact .inl hkept
        · exact .inr ⟨matched', expansion', .tail _ hseg, ha⟩

end Places

theorem expansion_found {m : Matcher α} {before text : List α} {pending : Nat}
    {matched expansion : List α} (hseg : .hit matched expansion ∈ scan m before text pending) :
    ∃ before rest mustAdvance length, m before rest mustAdvance = some ⟨length, expansion⟩ := by
  have hempty : ∀ before rest, .hit matched expansion ∈ emptyHit m before rest →
      ∃ before rest mustAdvance length, m before rest mustAdvance = some ⟨length, expansion⟩ := by
    intro before rest hmem
    unfold emptyHit at hmem
    split at hmem
    · next hfound =>
        cases mem_singleton.mp hmem
        exact ⟨before, rest, false, 0, hfound⟩
    · cases hmem
  induction text generalizing before pending with
  | nil =>
    exact hempty before [] hseg
  | cons a rest ih =>
    cases pending with
    | succ =>
      exact ih hseg
    | zero =>
      rw [scan, mem_append] at hseg
      rcases hseg with hhere | hthere
      · exact hempty before (a :: rest) hhere
      · cases hproper : properHit m before (a :: rest) with
        | none =>
          simp only [hproper, mem_cons, reduceCtorEq, false_or] at hthere
          exact ih hthere
        | some =>
          simp only [hproper, mem_cons] at hthere
          rcases hthere with heq | hlater
          · cases heq
            obtain ⟨mustAdvance, hfound⟩ := properHit_found hproper
            exact ⟨before, a :: rest, mustAdvance, _, hfound⟩
          · exact ih hlater

/-- What is left of a match is skipped. -/
theorem scan_pending (before text : List α) (pending : Nat) :
    scan m before text pending = scan m (before ++ text.take pending) (text.drop pending) 0 := by
  induction text generalizing before pending with
  | nil => simp [scan]
  | cons _ _ ih =>
    cases pending with
    | zero => simp
    | succ =>
      rw [take_succ_cons, drop_succ_cons, scan, ih]
      simp

section Renaming

variable {β : Type} {f : α → β} {m : Matcher α} {m' : Matcher β}

def Hit.map (f : α → β) (hit : Hit α) : Hit β := ⟨hit.length, hit.expansion.map f⟩

def Segment.map (f : α → β) : Segment α → Segment β
  | .keep a => .keep (f a)
  | .hit matched expansion => .hit (matched.map f) (expansion.map f)

/-- The second matcher sees only the images of the elements, and finds the
same matches. -/
def Agrees (f : α → β) (m : Matcher α) (m' : Matcher β) : Prop :=
  ∀ before rest mustAdvance,
    m' (before.map f) (rest.map f) mustAdvance = (m before rest mustAdvance).map (Hit.map f)

variable (hagr : Agrees f m m') (before rest : List α) (text : List α)
include hagr

theorem emptyHit_map :
    emptyHit m' (before.map f) (rest.map f) = (emptyHit m before rest).map (Segment.map f) := by
  unfold emptyHit
  rw [hagr]
  cases m before rest false with
  | none => rfl
  | some hit =>
    obtain ⟨length, _⟩ := hit
    cases length <;> rfl

theorem properHit_map :
    properHit m' (before.map f) (rest.map f) =
      (properHit m before rest).map fun found => (found.1, found.2.map f) := by
  have hnonempty := hagr before rest true
  unfold properHit
  rw [hagr]
  cases m before rest false with
  | none => rfl
  | some hit =>
    obtain ⟨length, expansion⟩ := hit
    cases length with
    | succ => rfl
    | zero =>
      simp only [Option.map_some, Hit.map, hnonempty]
      cases m before rest true with
      | none => rfl
      | some again =>
        obtain ⟨length, _⟩ := again
        cases length <;> rfl

theorem scan_map (before text : List α) (pending : Nat) :
    scan m' (before.map f) (text.map f) pending =
      (scan m before text pending).map (Segment.map f) := by
  have hsnoc : ∀ (before : List α) (a : α), before.map f ++ [f a] = (before ++ [a]).map f := by
    simp
  induction text generalizing before pending with
  | nil =>
    exact emptyHit_map hagr before []
  | cons a rest ih =>
    rw [map_cons]
    cases pending with
    | succ => rw [scan, scan, hsnoc, ih]
    | zero =>
      rw [scan, scan, ← map_cons, emptyHit_map hagr, properHit_map hagr]
      have hrest : ∀ pending, scan m' (before.map f ++ [f a]) (rest.map f) pending =
          (scan m (before ++ [a]) rest pending).map (.map f) := by
        intro pending
        rw [hsnoc, ih]
      cases properHit m before (a :: rest) with
      | none => simp [hrest, Segment.map]
      | some => simp [hrest, Segment.map, map_take]

theorem segments_map : segments m' (text.map f) = (segments m text).map (Segment.map f) :=
  scan_map hagr [] text 0

theorem substitute_map : substitute m' (text.map f) = (substitute m text).map f := by
  have houtp : ∀ seg : Segment α, (seg.map f).output = seg.output.map f := by
    intro seg
    cases seg <;> rfl
  unfold substitute
  rw [segments_map hagr, flatMap_map, map_flatMap]
  simp only [houtp]

theorem spans_map : spans m' (text.map f) = spans m text := by
  have hplaces : ∀ (segs : List (Segment α)) (offset : Nat),
      spansFrom offset (segs.map (.map f)) = spansFrom offset segs := by
    intro segs
    induction segs with
    | nil => simp [spansFrom]
    | cons seg _ ih =>
      intro offset
      cases seg <;> simp [Segment.map, spansFrom, ih]
  unfold spans
  rw [segments_map hagr, hplaces]

end Renaming

/-- Words of one length and what replaces each of them. Words are not empty, and
have nothing in common with their replacement, which is not empty either. -/
structure Words (α : Type) where
  length : Nat
  word : List α → Bool
  expansion : List α
  length_pos : 0 < length
  expansion_ne : expansion ≠ []
  disjoint : ∀ w, word w = true → ∀ a ∈ w, a ∉ expansion

namespace Words

variable {α : Type} (words : Words α)

/-- A word stands at the beginning. -/
def Starts (text : List α) : Prop :=
  words.length ≤ text.length ∧ words.word (text.take words.length) = true

instance : DecidablePred words.Starts := fun _ => inferInstanceAs (Decidable (_ ∧ _))

/-- Look for words and replace each of them alike. -/
def matchAt : Matcher α := fun _ rest _ =>
  if words.Starts rest then some ⟨words.length, words.expansion⟩ else none

def replaced (text : List α) : List α := substitute words.matchAt text

theorem exists_length : ∃ n, words.length = n + 1 :=
  Nat.exists_eq_add_one.mpr words.length_pos

theorem emptyHit_matchAt (before rest : List α) : emptyHit words.matchAt before rest = [] := by
  obtain ⟨_, hlength⟩ := words.exists_length
  unfold emptyHit matchAt
  rw [hlength]
  split
  · rename_i h
    split at h <;> simp at h
  · rfl

variable {words} {a : α} {before text rest : List α}

theorem not_starts_nil : ¬ words.Starts [] := by
  intro hstarts
  exact absurd (Nat.le_zero.mp hstarts.1) words.length_pos.ne'

/-- What follows does not matter behind enough text for a word. -/
theorem starts_append (hlong : words.length ≤ text.length) :
    words.Starts (text ++ rest) ↔ words.Starts text := by
  unfold Starts
  rw [take_append_of_le_length hlong, length_append]
  simp [hlong, Nat.le_add_right_of_le hlong]

theorem properHit_starts (hstarts : words.Starts rest) :
    properHit words.matchAt before rest = some (words.length - 1, words.expansion) := by
  obtain ⟨_, hlength⟩ := words.exists_length
  simp only [properHit, matchAt, if_pos hstarts, hlength]
  rfl

theorem properHit_not_starts (hstarts : ¬ words.Starts rest) :
    properHit words.matchAt before rest = none := by
  simp only [properHit, matchAt, if_neg hstarts]

theorem scan_matchAt (before before' text : List α) (pending : Nat) :
    scan words.matchAt before text pending = scan words.matchAt before' text pending := by
  induction text generalizing before before' pending with
  | nil => simp [scan, emptyHit_matchAt]
  | cons a rest ih =>
    cases pending with
    | succ => exact ih _ _ _
    | zero =>
      rw [scan, scan, emptyHit_matchAt, emptyHit_matchAt]
      by_cases hstarts : words.Starts (a :: rest)
      · rw [properHit_starts hstarts, properHit_starts hstarts]
        simp only [ih _ (before' ++ [a])]
      · rw [properHit_not_starts hstarts, properHit_not_starts hstarts]
        simp only [ih _ (before' ++ [a])]

theorem replaced_nil : words.replaced [] = [] := by
  simp [replaced, substitute, segments, scan, emptyHit_matchAt]

theorem replaced_keep (hstarts : ¬ words.Starts (a :: rest)) :
    words.replaced (a :: rest) = a :: words.replaced rest := by
  unfold replaced substitute segments
  rw [scan, emptyHit_matchAt, properHit_not_starts hstarts, scan_matchAt _ []]
  rfl

theorem replaced_hit (hstarts : words.Starts text) :
    words.replaced text = words.expansion ++ words.replaced (text.drop words.length) := by
  cases text with
  | nil => exact absurd hstarts not_starts_nil
  | cons =>
    obtain ⟨_, hlength⟩ := words.exists_length
    unfold replaced substitute segments
    rw [scan, emptyHit_matchAt, properHit_starts hstarts, hlength]
    simp only [Nat.add_sub_cancel]
    rw [scan_pending, scan_matchAt _ []]
    rfl

variable (words) in
/-- Induction along the replacement: a word at the beginning is skipped, any
other element is passed. -/
theorem replaced_induction {P : List α → Prop} (hnil : P [])
    (hhit : ∀ text, words.Starts text → P (text.drop words.length) → P text)
    (hkeep : ∀ a rest, ¬ words.Starts (a :: rest) → P rest → P (a :: rest))
    (text : List α) : P text := by
  have hpos := words.length_pos
  induction hsize : text.length using Nat.strong_induction_on generalizing text with
  | _ _ ih =>
    subst hsize
    cases text with
    | nil => exact hnil
    | cons a rest =>
      by_cases hstarts : words.Starts (a :: rest)
      · refine hhit _ hstarts (ih _ ?_ _ rfl)
        rw [length_drop]
        have hlen := hstarts.1
        omega
      · exact hkeep a rest hstarts (ih _ (by simp) rest rfl)

theorem not_starts_of_mem (ha : a ∈ words.expansion) : ¬ words.Starts (a :: rest) := by
  intro hstarts
  refine words.disjoint _ hstarts.2 a ?_ ha
  obtain ⟨_, hlength⟩ := words.exists_length
  rw [hlength, take_succ_cons]
  exact .head _

theorem replaced_expansion (rest : List α) :
    words.replaced (words.expansion ++ rest) = words.expansion ++ words.replaced rest := by
  have hpart : ∀ part, part ⊆ words.expansion →
      words.replaced (part ++ rest) = part ++ words.replaced rest := by
    intro part
    induction part with
    | nil => simp
    | cons _ _ ih =>
      intro hsub
      obtain ⟨ha, hpart⟩ := cons_subset.mp hsub
      rw [cons_append, replaced_keep (not_starts_of_mem ha), ih hpart, cons_append]
  exact hpart _ (Subset.refl _)

theorem replaced_short (hshort : text.length < words.length) : words.replaced text = text := by
  induction text with
  | nil => exact replaced_nil
  | cons a rest ih =>
    have hstarts : ¬ words.Starts (a :: rest) := fun hstarts => by
      have hlen := hstarts.1
      omega
    rw [length_cons] at hshort
    rw [replaced_keep hstarts, ih (by omega)]

variable (words) in
/-- The beginning of a text changes only where a replacement comes into it. -/
theorem take_replaced (text rest : List α) (n : Nat) :
    (words.replaced text ++ rest).take n = (text ++ rest).take n ∨
      ∃ a ∈ (words.replaced text ++ rest).take n, a ∈ words.expansion := by
  induction text using replaced_induction words generalizing n with
  | hnil => exact .inl (by rw [replaced_nil])
  | hhit _ hstarts =>
    cases n with
    | zero => exact .inl rfl
    | succ =>
      obtain ⟨a, _, hexpn⟩ := exists_cons_of_ne_nil words.expansion_ne
      rw [replaced_hit hstarts, hexpn]
      exact .inr ⟨a, .head _, .head _⟩
  | hkeep _ _ hstarts ih =>
    cases n with
    | zero => exact .inl rfl
    | succ n =>
      rw [replaced_keep hstarts, cons_append, cons_append, take_succ_cons, take_succ_cons]
      rcases ih n with hsame | ⟨b, hmem, hb⟩
      · exact .inl (by rw [hsame])
      · exact .inr ⟨b, .tail _ hmem, hb⟩

/-- Replacing behind an element does not make a word begin at it. -/
theorem not_starts_replaced (hstarts : ¬ words.Starts (a :: (text ++ rest))) :
    ¬ words.Starts (a :: (words.replaced text ++ rest)) := by
  obtain ⟨n, hlength⟩ := words.exists_length
  unfold Starts at hstarts ⊢
  rw [hlength] at hstarts ⊢
  rintro ⟨hlen, hword⟩
  rcases take_replaced words text rest n with hsame | ⟨b, hmem, hb⟩
  · refine hstarts ⟨?_, ?_⟩
    · have hsize := congrArg List.length hsame
      simp only [length_take, length_cons] at hsize hlen ⊢
      omega
    · rw [take_succ_cons, ← hsame]
      exact hword
  · exact words.disjoint _ hword b (.tail _ hmem) hb

/-- A first part may be replaced before the rest is known. -/
theorem replaced_replaced (text rest : List α) :
    words.replaced (words.replaced text ++ rest) = words.replaced (text ++ rest) := by
  induction text using replaced_induction words with
  | hnil => rw [replaced_nil]
  | hhit text hstarts ih =>
    rw [replaced_hit hstarts, append_assoc, replaced_expansion, ih,
      replaced_hit ((starts_append hstarts.1).mpr hstarts), drop_append_of_le_length hstarts.1]
  | hkeep a text hstarts ih =>
    rw [replaced_keep hstarts, cons_append, cons_append]
    by_cases hwhole : words.Starts (a :: (text ++ rest))
    · have hshort : text.length < words.length := by
        by_contra hlong
        refine hstarts ((starts_append ?_).mp hwhole)
        rw [length_cons]
        omega
      rw [replaced_short hshort]
    · rw [replaced_keep (not_starts_replaced hwhole), ih, replaced_keep hwhole]

/-- No word is left after the replacement. -/
theorem replaced_clean (text : List α) :
    ∀ part, part <:+ words.replaced text → ¬ words.Starts part := by
  induction text using replaced_induction words with
  | hnil =>
    intro part hpart
    rw [replaced_nil, suffix_nil] at hpart
    rw [hpart]
    exact not_starts_nil
  | hhit text hstarts ih =>
    rw [replaced_hit hstarts]
    have hsuffix : ∀ some, some ⊆ words.expansion → ∀ part,
        part <:+ some ++ words.replaced (text.drop words.length) → ¬ words.Starts part := by
      intro some
      induction some with
      | nil => exact fun _ => ih
      | cons _ _ ihsome =>
        intro hsub part hpart
        obtain ⟨ha, hsome⟩ := cons_subset.mp hsub
        rcases suffix_cons_iff.mp hpart with rfl | hlater
        · exact not_starts_of_mem ha
        · exact ihsome hsome part hlater
    exact hsuffix _ (Subset.refl _)
  | hkeep a text hstarts ih =>
    intro part hpart
    rw [replaced_keep hstarts] at hpart
    rcases suffix_cons_iff.mp hpart with rfl | hlater
    · rw [← append_nil text] at hstarts
      simpa using not_starts_replaced hstarts
    · exact ih part hlater

/-- Everything but a tail at least as long as a word may be given away. -/
theorem replaced_cut (hclean : ∀ part, part <:+ text → ¬ words.Starts part) (rest : List α)
    {cut : Nat} (hcut : cut + words.length ≤ text.length + 1) :
    words.replaced (text ++ rest) =
      text.take cut ++ words.replaced (text.drop cut ++ rest) := by
  induction cut generalizing text with
  | zero => rfl
  | succ _ ih =>
    cases text with
    | nil =>
      have hpos := words.length_pos
      simp only [length_nil] at hcut
      omega
    | cons a text =>
      rw [length_cons] at hcut
      have hlong : words.length ≤ (a :: text).length := by
        rw [length_cons]
        omega
      have hstarts : ¬ words.Starts (a :: (text ++ rest)) := fun hstarts =>
        hclean _ suffix_rfl ((starts_append hlong).mp hstarts)
      rw [cons_append, replaced_keep hstarts, take_succ_cons, drop_succ_cons, cons_append]
      rw [ih (fun part hpart => hclean part (hpart.trans (suffix_cons a text)))
        (by omega)]

end Words

end Spakky.Scan
