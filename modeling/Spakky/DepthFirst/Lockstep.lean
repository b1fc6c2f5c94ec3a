import Spakky.DepthFirst.Basic

/-!
Two searches that differ only in how eagerly they stop. As long as the eager
test has raised no false alarm they run in lockstep; at the first false alarm
the eager search stops with a cycle while the other one goes on.
-/

namespace Spakky.DepthFirst

open Effect Exec

variable {ν ε : Type} [DecidableEq ν]

def Problem.withClash (problem : Problem ν ε) (clash : ν → List ν → Bool) : Problem ν ε :=
  { problem with clash := clash }

/-- The search has reached a node at which only the eager test stops. -/
def Alarm (problem : Problem ν ε) (clash : ν → List ν → Bool) (s : Search ν) : Prop :=
  ∃ frame ∈ s.reached, problem.clash frame.1 frame.2 = true ∧ clash frame.1 frame.2 = false

section Lockstep

variable (problem : Problem ν ε) (clash : ν → List ν → Bool)

omit [DecidableEq ν] in
theorem alarm_enter (s : Search ν) (p : ν) (stack : List ν)
    (halarm : Alarm problem clash s) : Alarm problem clash (s.enter p stack) := by
  obtain ⟨frame, hmem, htest⟩ := halarm
  exact ⟨frame, List.mem_append_left _ hmem, htest⟩

theorem alarm_follow (fuel : Nat) (stack : List ν) (items : List (Item ν ε)) (s : Search ν)
    (halarm : Alarm problem clash s) :
    Alarm problem clash
      (follow (visit (problem.withClash clash) fuel) stack items s).2 :=
  follow_relates (R := fun s t => Alarm problem clash s → Alarm problem clash t)
    (problem.withClash clash) (fun _ h => h) (fun hst htu h => htu (hst h))
    (alarm_enter problem clash) (fun _ _ h => h) fuel stack items s halarm

/-- The two outcomes of running the eager search beside the other one. -/
def InStep (eager lazy : Except (Fault ε) Unit × Search ν) : Prop :=
  (eager = lazy ∧ ¬ Alarm problem clash lazy.2) ∨
    (eager.1 = .error .cycle ∧ Alarm problem clash lazy.2)

theorem follow_inStep {fuel : Nat} (hvisit : ∀ stack q s, ¬ Alarm problem clash s →
      InStep problem clash (visit problem fuel stack q s)
        (visit (problem.withClash clash) fuel stack q s)) (stack : List ν) (items : List (Item ν ε))
    (s : Search ν) (hquiet : ¬ Alarm problem clash s) :
    InStep problem clash (follow (visit problem fuel) stack items s)
      (follow (visit (problem.withClash clash) fuel) stack items s) := by
  induction items generalizing s with
  | nil => exact .inl ⟨rfl, hquiet⟩
  | cons item rest ih =>
    cases item with
    | fail => exact .inl ⟨rfl, hquiet⟩
    | visit q fresh =>
      rw [follow_visit, follow_visit]
      rcases hvisit (if fresh then [] else stack) q s hquiet with
        ⟨hsame, hstill⟩ | ⟨hcycle, halarm⟩
      · cases hrun : visit (problem.withClash clash) fuel (if fresh then [] else stack) q s with
        | mk outcome t =>
          rw [hrun] at hsame hstill
          cases outcome with
          | error =>
            rw [bind_error _ hrun, bind_error _ hsame]
            exact .inl ⟨rfl, hstill⟩
          | ok =>
            rw [bind_ok _ hrun, bind_ok _ hsame]
            exact ih t hstill
      · refine .inr ⟨?_, ?_⟩
        · cases heager : visit problem fuel (if fresh then [] else stack) q s with
          | mk =>
            rw [heager] at hcycle
            cases hcycle
            rw [bind_error _ heager]
        · rw [bind_run]
          cases hrun : visit (problem.withClash clash) fuel
              (if fresh then [] else stack) q s with
          | mk outcome t =>
            rw [hrun] at halarm
            cases outcome with
            | error => exact halarm
            | ok => exact alarm_follow problem clash fuel stack rest t halarm

/-- An eager search agrees with the other one until its first false alarm. -/
theorem visit_inStep (heager : ∀ p stack, clash p stack = true → problem.clash p stack = true)
    (fuel : Nat) (stack : List ν) (p : ν) (s : Search ν) (hquiet : ¬ Alarm problem clash s) :
    InStep problem clash (visit problem fuel stack p s)
      (visit (problem.withClash clash) fuel stack p s) := by
  induction fuel generalizing stack p s with
  | zero => exact .inl ⟨rfl, hquiet⟩
  | succ fuel ih =>
    cases hheld : s.holds problem p with
    | true =>
      rw [visit_held problem fuel stack p s hheld,
        visit_held (problem.withClash clash) fuel stack p s hheld]
      exact .inl ⟨rfl, hquiet⟩
    | false =>
      have hreached : ∀ frame ∈ (s.enter p stack).reached,
          frame ∈ s.reached ∨ frame = (p, stack) := by
        intro frame hmem
        simpa [Search.enter] using hmem
      cases hstop : clash p stack with
      | true =>
        rw [visit_clash problem fuel stack p s hheld (heager p stack hstop),
          visit_clash (problem.withClash clash) fuel stack p s hheld hstop]
        refine .inl ⟨rfl, ?_⟩
        rintro ⟨frame, hmem, hraised, hfalse⟩
        rcases hreached frame hmem with hold | rfl
        · exact hquiet ⟨frame, hold, hraised, hfalse⟩
        · simp [hstop] at hfalse
      | false =>
        have hunheld : s.holds (problem.withClash clash) p = false := hheld
        have hpasses : (problem.withClash clash).clash p stack = false := hstop
        cases hclash : problem.clash p stack with
        | true =>
          rw [visit_clash problem fuel stack p s hheld hclash]
          have halarm : Alarm problem clash (s.enter p stack) :=
            ⟨(p, stack), by simp [Search.enter], hclash, hstop⟩
          have hlater := alarm_follow problem clash fuel (p :: stack) (problem.plan p)
            (s.enter p stack) halarm
          refine .inr ⟨rfl, ?_⟩
          cases hrun : follow (visit (problem.withClash clash) fuel) (p :: stack)
              (problem.plan p) (s.enter p stack) with
          | mk outcome =>
            rw [hrun] at hlater
            cases outcome with
            | ok => rwa [visit_ok hunheld hpasses hrun]
            | error => rwa [visit_error hunheld hpasses hrun]
        | false =>
          have hentered : ¬ Alarm problem clash (s.enter p stack) := by
            rintro ⟨frame, hmem, hraised, hfalse⟩
            rcases hreached frame hmem with hold | rfl
            · exact hquiet ⟨frame, hold, hraised, hfalse⟩
            · simp [hclash] at hraised
          have hplans := follow_inStep problem clash ih (p :: stack) (problem.plan p)
            (s.enter p stack) hentered
          cases hlazy : follow (visit (problem.withClash clash) fuel) (p :: stack)
              (problem.plan p) (s.enter p stack) with
          | mk outcome =>
            rw [hlazy] at hplans
            rcases hplans with ⟨hsame, hstill⟩ | ⟨hcycle, _⟩
            · cases outcome with
              | ok =>
                rw [visit_ok hheld hclash hsame, visit_ok hunheld hpasses hlazy]
                exact .inl ⟨rfl, hstill⟩
              | error =>
                rw [visit_error hheld hclash hsame, visit_error hunheld hpasses hlazy]
                exact .inl ⟨rfl, hstill⟩
            · refine .inr ⟨?_, ?_⟩
              · cases heagerrun : follow (visit problem fuel) (p :: stack)
                    (problem.plan p) (s.enter p stack) with
                | mk =>
                  rw [heagerrun] at hcycle
                  cases hcycle
                  rw [visit_error hheld hclash heagerrun]
              · cases outcome with
                | ok => rwa [visit_ok hunheld hpasses hlazy]
                | error => rwa [visit_error hunheld hpasses hlazy]

end Lockstep

end Spakky.DepthFirst
