import Spakky.Effect

/-!
Memoized depth-first construction over an arbitrary graph. Each node has a
plan: the nodes to construct before it, in order, and possibly points at which
the plan fails. A node under construction stands on a stack, a test of the
node against that stack stops the search, and a plan may also start a fresh
search with an empty stack.

Recursion is bounded by fuel. `visit_mono` says that fuel is only a bound: a
search that did not run out of it has the same result with more. The lists
`reached` and `built` record the course of a search and are never read by it.
-/

namespace Spakky.DepthFirst

open Effect Exec

inductive Item (ν ε : Type) where
  | fail (error : ε)
  | visit (node : ν) (fresh : Bool)

inductive Fault (ε : Type) where
  | cycle
  | failed (error : ε)
  | outOfFuel
  deriving DecidableEq

structure Problem (ν ε : Type) where
  plan : ν → List (Item ν ε)
  memo : ν → Bool
  clash : ν → List ν → Bool

structure Search (ν : Type) where
  done : List ν := []
  reached : List (ν × List ν) := []
  built : List ν := []

variable {ν ε : Type}

abbrev SearchM (ν ε α : Type) := Exec (Search ν) (Fault ε) α

def reach (p : ν) (stack : List ν) : SearchM ν ε Unit :=
  modify fun s => { s with reached := s.reached ++ [(p, stack)] }

/-- The node is constructed; a memoized node will not be constructed again. -/
def finish (problem : Problem ν ε) (p : ν) : SearchM ν ε Unit :=
  modify fun s =>
    { s with
      done := if problem.memo p then p :: s.done else s.done
      built := s.built ++ [p] }

/-- Work through a plan, with the recursive search as a parameter. -/
def follow (search : List ν → ν → SearchM ν ε Unit) (stack : List ν) :
    List (Item ν ε) → SearchM ν ε Unit
  | [] => pure ()
  | .fail error :: _ => raise (.failed error)
  | .visit q fresh :: rest => do
      search (if fresh then [] else stack) q
      follow search stack rest

/-- The search state in which the plan of a node is started. -/
def Search.enter (s : Search ν) (p : ν) (stack : List ν) : Search ν :=
  { s with reached := s.reached ++ [(p, stack)] }

def Search.complete (s : Search ν) (problem : Problem ν ε) (p : ν) : Search ν :=
  { s with
    done := if problem.memo p then p :: s.done else s.done
    built := s.built ++ [p] }

variable (problem : Problem ν ε)

theorem finish_run (p : ν) (s : Search ν) :
    (finish problem p) s = (.ok (), s.complete problem p) := rfl

variable (search : List ν → ν → SearchM ν ε Unit)

theorem follow_visit (stack : List ν) (q : ν) (fresh : Bool) (rest : List (Item ν ε)) :
    follow search stack (.visit q fresh :: rest) = (do
      search (if fresh then [] else stack) q
      follow search stack rest) := rfl

theorem follow_singleton (stack : List ν) (q : ν) (fresh : Bool) :
    follow search stack [.visit q fresh] = search (if fresh then [] else stack) q := by
  exact then_unit _

/-- A plan is followed item by item. -/
theorem follow_append (stack : List ν) (before after : List (Item ν ε)) :
    follow search stack (before ++ after) = (do
      follow search stack before
      follow search stack after) := by
  funext s
  induction before generalizing s with
  | nil => rfl
  | cons item _ ih =>
    cases item with
    | fail => rfl
    | visit q fresh =>
      rw [List.cons_append, follow_visit, follow_visit, bind_run, bind_run, bind_run]
      cases search (if fresh then [] else stack) q s using exec_cases with
      | ok _ t => exact ih t
      | error => rfl

/-- Two searches that agree wherever the first one has fuel agree on plans. -/
theorem follow_agree {first second : List ν → ν → SearchM ν ε Unit}
    (hagree : ∀ stack q s, (first stack q s).1 ≠ .error .outOfFuel →
      second stack q s = first stack q s) (stack : List ν) (items : List (Item ν ε)) (s : Search ν)
    (hfuel : (follow first stack items s).1 ≠ .error .outOfFuel) :
    follow second stack items s = follow first stack items s := by
  induction items generalizing s with
  | nil => rfl
  | cons item _ ih =>
    cases item with
    | fail => rfl
    | visit q fresh =>
      rw [follow_visit, follow_visit]
      rw [follow_visit] at hfuel
      cases hrun : first (if fresh then [] else stack) q s with
      | mk outcome t =>
        have hsame : second (if fresh then [] else stack) q s =
            first (if fresh then [] else stack) q s := by
          refine hagree _ q s ?_
          intro hout
          rw [hrun] at hout
          cases outcome with
          | ok => cases hout
          | error =>
            cases hout
            exact hfuel (by rw [bind_error _ hrun])
        rw [hrun] at hsame
        cases outcome with
        | error => rw [bind_error _ hrun, bind_error _ hsame]
        | ok =>
          rw [bind_ok _ hrun] at hfuel
          rw [bind_ok _ hrun, bind_ok _ hsame]
          exact ih t hfuel

variable {R : Search ν → Search ν → Prop}

/-- What holds over every visit holds over a plan. -/
theorem follow_relates_of_visit (hrefl : ∀ s, R s s) (htrans : ∀ {s t u}, R s t → R t u → R s u)
    (hvisit : ∀ stack p s, R s (search stack p s).2) (stack : List ν) (items : List (Item ν ε))
    (s : Search ν) : R s (follow search stack items s).2 := by
  induction items generalizing s with
  | nil => exact hrefl s
  | cons item _ ih =>
    cases item with
    | fail => exact hrefl s
    | visit q fresh =>
      have hfirst := hvisit (if fresh then [] else stack) q s
      rw [follow_visit, bind_run]
      cases hrun : search (if fresh then [] else stack) q s with
      | mk outcome t =>
        rw [hrun] at hfirst
        cases outcome with
        | ok => exact htrans hfirst (ih t)
        | error => exact hfirst

variable [DecidableEq ν]

/-- The node needs no construction. -/
def Search.holds (s : Search ν) (problem : Problem ν ε) (p : ν) : Bool :=
  problem.memo p && decide (p ∈ s.done)

def visit (problem : Problem ν ε) : Nat → List ν → ν → SearchM ν ε Unit
  | 0, _, _ => raise .outOfFuel
  | fuel + 1, stack, p => do
      let held ← reads fun s => s.holds problem p
      if held then
        pure ()
      else do
        reach p stack
        if problem.clash p stack then
          raise .cycle
        else do
          follow (visit problem fuel) (p :: stack) (problem.plan p)
          finish problem p

section Equations

variable (problem : Problem ν ε) (fuel : Nat) (stack : List ν) (p : ν) (s : Search ν)

theorem holds_complete_self : (s.complete problem p).holds problem p = problem.memo p := by
  unfold Search.holds Search.complete
  cases problem.memo p <;> simp

theorem holds_complete_other {q : ν} (hne : q ≠ p) :
    (s.complete problem p).holds problem q = s.holds problem q := by
  unfold Search.holds Search.complete
  cases problem.memo p <;> simp [hne]

theorem visit_held (hheld : s.holds problem p = true) :
    visit problem (fuel + 1) stack p s = (.ok (), s) := by
  simp [visit, hheld]

theorem visit_clash (hheld : s.holds problem p = false) (hclash : problem.clash p stack = true) :
    visit problem (fuel + 1) stack p s = (.error .cycle, s.enter p stack) := by
  simp [visit, hheld, hclash, reach, Search.enter]

theorem visit_plan (hheld : s.holds problem p = false) (hclash : problem.clash p stack = false) :
    visit problem (fuel + 1) stack p s =
      (do
        follow (visit problem fuel) (p :: stack) (problem.plan p)
        finish problem p) (s.enter p stack) := by
  simp [visit, hheld, hclash, reach, Search.enter]

/-- What a visit with fuel left does: the four ways it can end. -/
inductive Visited : Except (Fault ε) Unit × Search ν → Prop
  | held (hheld : s.holds problem p = true) : Visited (.ok (), s)
  | clash (hheld : s.holds problem p = false) (hclash : problem.clash p stack = true) :
      Visited (.error .cycle, s.enter p stack)
  | done {t : Search ν} (hheld : s.holds problem p = false) (hclash : problem.clash p stack = false)
      (hplan : follow (visit problem fuel) (p :: stack) (problem.plan p) (s.enter p stack) =
        (.ok (), t)) : Visited (.ok (), t.complete problem p)
  | failed {t : Search ν} {fault : Fault ε} (hheld : s.holds problem p = false)
      (hclash : problem.clash p stack = false)
      (hplan : follow (visit problem fuel) (p :: stack) (problem.plan p) (s.enter p stack) =
        (.error fault, t)) : Visited (.error fault, t)

end Equations

variable {fuel : Nat}

section

variable {problem : Problem ν ε} {stack : List ν} {p : ν} {s t : Search ν}
  (hheld : s.holds problem p = false) (hclash : problem.clash p stack = false)
include hheld hclash

theorem visit_ok
    (hplan : follow (visit problem fuel) (p :: stack) (problem.plan p) (s.enter p stack) =
      (.ok (), t)) : visit problem (fuel + 1) stack p s = (.ok (), t.complete problem p) := by
  rw [visit_plan problem fuel stack p s hheld hclash, bind_ok _ hplan, finish_run]

theorem visit_error {fault : Fault ε}
    (hplan : follow (visit problem fuel) (p :: stack) (problem.plan p) (s.enter p stack) =
      (.error fault, t)) : visit problem (fuel + 1) stack p s = (.error fault, t) := by
  rw [visit_plan problem fuel stack p s hheld hclash, bind_error _ hplan]

end

theorem visit_visited (fuel : Nat) (stack : List ν) (p : ν) (s : Search ν) :
    Visited problem fuel stack p s (visit problem (fuel + 1) stack p s) := by
  cases hheld : s.holds problem p with
  | true =>
    rw [visit_held _ _ _ _ _ hheld]
    exact .held hheld
  | false =>
    cases hclash : problem.clash p stack with
    | true =>
      rw [visit_clash _ _ _ _ _ hheld hclash]
      exact .clash hheld hclash
    | false =>
      cases hplan : follow (visit problem fuel) (p :: stack) (problem.plan p)
          (s.enter p stack) using exec_cases with
      | ok =>
        rw [visit_ok hheld hclash hplan]
        exact .done hheld hclash hplan
      | error =>
        rw [visit_error hheld hclash hplan]
        exact .failed hheld hclash hplan

section

variable (hrefl : ∀ s, R s s) (htrans : ∀ {s t u}, R s t → R t u → R s u)
  (henter : ∀ s p stack, R s (s.enter p stack)) (hcompl : ∀ s p, R s (s.complete problem p))
  (fuel : Nat) (stack : List ν)
include hrefl htrans henter hcompl

/-- A relation that holds over entering and over completing a node holds over
every search. -/
theorem visit_relates (p : ν) (s : Search ν) : R s (visit problem fuel stack p s).2 := by
  induction fuel generalizing stack p s with
  | zero => exact hrefl s
  | succ fuel ih =>
    have hplanned := htrans (henter s p stack)
      (follow_relates_of_visit _ hrefl htrans ih (p :: stack) (problem.plan p) (s.enter p stack))
    have hend := visit_visited problem fuel stack p s
    generalize visit problem (fuel + 1) stack p s = result at hend ⊢
    cases hend with
    | held => exact hrefl s
    | clash => exact henter s p stack
    | @done t _ _ hplan =>
      rw [hplan] at hplanned
      exact htrans hplanned (hcompl t p)
    | failed _ _ hplan =>
      rw [hplan] at hplanned
      exact hplanned

theorem follow_relates (items : List (Item ν ε)) (s : Search ν) :
    R s (follow (visit problem fuel) stack items s).2 :=
  follow_relates_of_visit _ hrefl htrans (visit_relates problem hrefl htrans henter hcompl fuel)
    stack items s

end

/-- One more unit of fuel changes nothing for a search that had enough. -/
theorem visit_succ (fuel : Nat) (stack : List ν) (p : ν) (s : Search ν)
    (hfuel : (visit problem fuel stack p s).1 ≠ .error .outOfFuel) :
    visit problem (fuel + 1) stack p s = visit problem fuel stack p s := by
  induction fuel generalizing stack p s with
  | zero => exact absurd rfl hfuel
  | succ fuel ih =>
    cases hheld : s.holds problem p with
    | true => rw [visit_held _ _ _ _ _ hheld, visit_held _ _ _ _ _ hheld]
    | false =>
      cases hclash : problem.clash p stack with
      | true => rw [visit_clash _ _ _ _ _ hheld hclash, visit_clash _ _ _ _ _ hheld hclash]
      | false =>
        have hplan : (follow (visit problem fuel) (p :: stack) (problem.plan p)
            (s.enter p stack)).1 ≠ .error .outOfFuel := by
          intro hout
          cases hrun : follow (visit problem fuel) (p :: stack) (problem.plan p)
              (s.enter p stack) with
          | mk =>
            rw [hrun] at hout
            cases hout
            exact hfuel (by rw [visit_error hheld hclash hrun])
        rw [visit_plan _ _ _ _ _ hheld hclash, visit_plan _ _ _ _ _ hheld hclash, bind_run,
          bind_run, follow_agree ih _ _ _ hplan]

theorem visit_mono {more : Nat} (hle : fuel ≤ more) (stack : List ν) (p : ν) (s : Search ν)
    (hfuel : (visit problem fuel stack p s).1 ≠ .error .outOfFuel) :
    visit problem more stack p s = visit problem fuel stack p s := by
  induction more, hle using Nat.le_induction with
  | base => rfl
  | succ more _ ih =>
    rw [visit_succ problem more stack p s (by rw [ih]; exact hfuel)]
    exact ih

/-- Any two amounts of fuel that suffice give the same result. -/
theorem visit_unique {problem : Problem ν ε} {other : Nat} {stack : List ν} {p : ν} {s : Search ν}
    (hfuel : (visit problem fuel stack p s).1 ≠ .error .outOfFuel)
    (hother : (visit problem other stack p s).1 ≠ .error .outOfFuel) :
    visit problem fuel stack p s = visit problem other stack p s := by
  rw [← visit_mono problem (Nat.le_max_left fuel other) stack p s hfuel,
    visit_mono problem (Nat.le_max_right fuel other) stack p s hother]

theorem follow_mono {more : Nat} (hle : fuel ≤ more) (stack : List ν) (items : List (Item ν ε))
    (s : Search ν) (hfuel : (follow (visit problem fuel) stack items s).1 ≠ .error .outOfFuel) :
    follow (visit problem more) stack items s = follow (visit problem fuel) stack items s :=
  follow_agree (fun stack q s h => visit_mono problem hle stack q s h) stack items s hfuel

theorem visit_failed {problem : Problem ν ε} {error : ε} {stack : List ν} {p : ν} {s t : Search ν}
    (hrun : visit problem fuel stack p s = (.error (.failed error), t)) :
    ∃ q, .fail error ∈ problem.plan q := by
  induction fuel generalizing stack p s t with
  | zero => cases hrun
  | succ fuel ih =>
    have hfollow : ∀ items stack s t,
        follow (visit problem fuel) stack items s = (.error (.failed error), t) →
        .fail error ∈ items ∨ ∃ q, .fail error ∈ problem.plan q := by
      intro items stack
      induction items with
      | nil =>
        intro s t hitems
        cases hitems
      | cons item _ ihrest =>
        intro s t hitems
        cases item with
        | fail =>
          cases hitems
          exact .inl (.head _)
        | visit =>
          rcases bind_eq_error.mp hitems with hfirst | ⟨⟨⟩, u, _, hlater⟩
          · exact .inr (ih hfirst)
          · rcases ihrest u t hlater with hmem | hplan
            · exact .inl (.tail _ hmem)
            · exact .inr hplan
    have hend := visit_visited problem fuel stack p s
    rw [hrun] at hend
    cases hend with
    | failed _ _ hplan =>
      rcases hfollow _ _ _ _ hplan with hmem | hlater
      · exact ⟨p, hmem⟩
      · exact hlater

/-- An invariant of the search, and a fact about a node that its construction
establishes once it holds for the nodes of its plan. -/
structure Establishes (problem : Problem ν ε) (I : Search ν → Prop)
    (B : Search ν → ν → Prop) : Prop where
  enter : ∀ {s p stack}, I s → I (s.enter p stack)
  keepsEnter : ∀ {s p stack q}, B s q → B (s.enter p stack) q
  keepsComplete : ∀ {s p q}, B s q → B (s.complete problem p) q
  held : ∀ {s p}, I s → s.holds problem p = true → B s p
  complete : ∀ {s p}, I s → (∀ error, .fail error ∉ problem.plan p) →
    (∀ q fresh, .visit q fresh ∈ problem.plan p → B s q) →
      I (s.complete problem p) ∧ B (s.complete problem p) p

section Establishes

variable {problem : Problem ν ε} {I : Search ν → Prop} {B : Search ν → ν → Prop}
  (h : Establishes problem I B)
include h

theorem Establishes.keeps (fuel : Nat) (stack : List ν) (items : List (Item ν ε)) (s : Search ν)
    (q : ν) (hq : B s q) : B (follow (visit problem fuel) stack items s).2 q :=
  follow_relates (R := fun s t => ∀ q, B s q → B t q) problem (fun _ _ hq => hq)
    (fun hst htu q hq => htu q (hst q hq)) (fun _ _ _ _ hq => h.keepsEnter hq)
    (fun _ _ _ hq => h.keepsComplete hq) fuel stack items s q hq

/-- What a plan establishes, given what the visits of it do. -/
theorem Establishes.follow_of_visit {fuel : Nat}
    (hvisit : ∀ stack p s, I s → I (visit problem fuel stack p s).2 ∧
      ((visit problem fuel stack p s).1 = .ok () → B (visit problem fuel stack p s).2 p))
    (stack : List ν) (items : List (Item ν ε)) (s : Search ν) (hs : I s) :
    I (follow (visit problem fuel) stack items s).2 ∧
      ((follow (visit problem fuel) stack items s).1 = .ok () → (∀ error, .fail error ∉ items) ∧
        ∀ q fresh, .visit q fresh ∈ items → B (follow (visit problem fuel) stack items s).2 q) := by
  induction items generalizing s with
  | nil => exact ⟨hs, fun _ => ⟨by simp, by simp⟩⟩
  | cons item rest ih =>
    cases item with
    | fail => exact ⟨hs, fun hok => by cases hok⟩
    | visit q fresh =>
      obtain ⟨hfirst, hestab⟩ := hvisit (if fresh then [] else stack) q s hs
      cases hrun : visit problem fuel (if fresh then [] else stack) q s with
      | mk outcome t =>
        rw [hrun] at hfirst hestab
        cases outcome with
        | error =>
          rw [follow_visit, bind_error _ hrun]
          exact ⟨hfirst, fun hok => by cases hok⟩
        | ok =>
          rw [follow_visit, bind_ok _ hrun]
          refine ⟨(ih t hfirst).1, fun hok => ?_⟩
          obtain ⟨hfails, hvisits⟩ := (ih t hfirst).2 hok
          refine ⟨by simpa using hfails, fun q' fresh' hmem => ?_⟩
          rcases List.mem_cons.mp hmem with heq | hrest
          · cases heq
            exact h.keeps fuel stack rest t q (hestab rfl)
          · exact hvisits q' fresh' hrest

theorem Establishes.visit (fuel : Nat) (stack : List ν) (p : ν) (s : Search ν) (hs : I s) :
    I (visit problem fuel stack p s).2 ∧
      ((visit problem fuel stack p s).1 = .ok () → B (visit problem fuel stack p s).2 p) := by
  induction fuel generalizing stack p s with
  | zero => exact ⟨hs, fun hok => by cases hok⟩
  | succ fuel ih =>
    have hplanned := h.follow_of_visit ih (p :: stack) (problem.plan p)
      (s.enter p stack) (h.enter hs)
    have hend := visit_visited problem fuel stack p s
    generalize DepthFirst.visit problem (fuel + 1) stack p s = result at hend ⊢
    cases hend with
    | held hheld => exact ⟨hs, fun _ => h.held hs hheld⟩
    | clash => exact ⟨h.enter hs, fun hok => by cases hok⟩
    | failed _ _ hplan =>
      rw [hplan] at hplanned
      exact ⟨hplanned.1, fun hok => by cases hok⟩
    | done _ _ hplan =>
      rw [hplan] at hplanned
      obtain ⟨hfails, hvisits⟩ := hplanned.2 rfl
      obtain ⟨hinvariant, hestab⟩ := h.complete hplanned.1 hfails hvisits
      exact ⟨hinvariant, fun _ => hestab⟩

theorem Establishes.follow (fuel : Nat) (stack : List ν) (items : List (Item ν ε)) (s : Search ν)
    (hs : I s) :
    I (follow (DepthFirst.visit problem fuel) stack items s).2 ∧
      ((follow (DepthFirst.visit problem fuel) stack items s).1 = .ok () →
        (∀ error, .fail error ∉ items) ∧
        ∀ q fresh, .visit q fresh ∈ items →
          B (follow (DepthFirst.visit problem fuel) stack items s).2 q) :=
  h.follow_of_visit (h.visit fuel) stack items s hs

end Establishes

end Spakky.DepthFirst
