import Mathlib.Algebra.BigOperators.Group.Finset.Basic

/-!
Deterministic machines that consume a list of events. Where several parties
act on one state, an interleaving of them is a list of their events, so that a
statement about every list is one about every interleaving.

A condition on single steps, each judged in the state before it, is extended
to whole runs by `Along`. The rules say when such a condition keeps an
invariant, and when two conditions agree on every run.
-/

namespace Spakky.Machine

open Function

variable {σ ε : Type} (step : σ → ε → σ)

/-- The state after a list of events. -/
def run (state : σ) (events : List ε) : σ := events.foldl step state

/-- Every event of a run meets the condition in the state it finds. -/
def Along (condition : σ → ε → Prop) : σ → List ε → Prop
  | _, [] => True
  | state, event :: rest => condition state event ∧ Along condition (step state event) rest

variable (state : σ)

@[simp] theorem run_nil : run step state [] = state := rfl

@[simp] theorem run_cons (event : ε) (rest : List ε) :
    run step state (event :: rest) = run step (step state event) rest := rfl

theorem run_append (first second : List ε) :
    run step state (first ++ second) = run step (run step state first) second :=
  List.foldl_append

section Rules

variable {step} {condition : σ → ε → Prop} {Inv : σ → Prop} {state : σ} {events : List ε}

/-- What every step that meets the condition keeps holds after the run. -/
theorem Along.invariant (hstep : ∀ state event, Inv state → condition state event →
      Inv (step state event)) (hstart : Inv state) (hrun : Along step condition state events) :
    Inv (run step state events) := by
  induction events generalizing state with
  | nil => exact hstart
  | cons event _ ih =>
    apply ih
    · exact hstep state event hstart hrun.1
    · exact hrun.2

variable {other : σ → ε → Prop}

/-- A condition that keeps an invariant gives, along a run, whatever it gives
where the invariant holds. -/
theorem Along.imp
    (hstep : ∀ state event, Inv state → condition state event → Inv (step state event))
    (hgives : ∀ state event, Inv state → condition state event → other state event)
    (hstart : Inv state) (hrun : Along step condition state events) :
    Along step other state events := by
  induction events generalizing state with
  | nil => trivial
  | cons event _ ih =>
    refine ⟨hgives state event hstart hrun.1, ?_⟩
    apply ih
    · exact hstep state event hstart hrun.1
    · exact hrun.2

theorem invariant_run (hstep : ∀ state event, Inv state → Inv (step state event))
    (hstart : Inv state) (events : List ε) : Inv (run step state events) := by
  induction events generalizing state with
  | nil => exact hstart
  | cons event _ ih => exact ih (hstep state event hstart)

/-- Two conditions that agree wherever an invariant holds agree on runs that
start where it holds. -/
theorem along_congr (hstep : ∀ state event, Inv state → Inv (step state event))
    (hagree : ∀ state event, Inv state → (condition state event ↔ other state event))
    (hstart : Inv state) (events : List ε) :
    Along step condition state events ↔ Along step other state events := by
  induction events generalizing state with
  | nil => exact .rfl
  | cons event _ ih =>
    have hrest := ih (hstep state event hstart)
    exact and_congr (hagree state event hstart) hrest

/-- Where every step either meets the condition and keeps what is good, or does
not and spoils it for good, a run does the one or the other as a whole. -/
theorem along_or_spoiled {allowed : σ → ε → Prop} {Good Spoiled : σ → Prop}
    (hgood : ∀ state event, Good state → allowed state event →
      condition state event ∧ Good (step state event) ∨
        ¬ condition state event ∧ Spoiled (step state event))
    (hspoiled : ∀ state event, Spoiled state → allowed state event → Spoiled (step state event))
    (hstart : Good state) (hrun : Along step allowed state events) :
    Along step condition state events ∧ Good (run step state events) ∨
      ¬ Along step condition state events ∧ Spoiled (run step state events) := by
  induction events generalizing state with
  | nil => exact .inl ⟨trivial, hstart⟩
  | cons event _ ih =>
    rcases hgood state event hstart hrun.1 with ⟨hmet, hkept⟩ | ⟨hunmet, hbad⟩
    · rcases ih hkept hrun.2 with ⟨hlater, hend⟩ | ⟨hlater, hend⟩
      · exact .inl ⟨⟨hmet, hlater⟩, hend⟩
      · exact .inr ⟨fun halong => hlater halong.2, hend⟩
    · refine .inr ⟨fun halong => hunmet halong.1, ?_⟩
      rw [run_cons]
      exact Along.invariant hspoiled hbad hrun.2

theorem along_any (state : σ) (events : List ε) : Along step (fun _ _ => True) state events := by
  induction events generalizing state with
  | nil => trivial
  | cons _ _ ih => exact ⟨trivial, ih _⟩

/-- A condition on every event of the list may be used at every step. -/
theorem Along.and_events {allowed : ε → Prop} (hrun : Along step condition state events)
    (hevs : ∀ event ∈ events, allowed event) :
    Along step (fun state event => allowed event ∧ condition state event) state events := by
  induction events generalizing state with
  | nil => trivial
  | cons event _ ih =>
    refine ⟨⟨hevs event (.head _), hrun.1⟩, ?_⟩
    apply ih hrun.2
    intro later hmem
    exact hevs later (.tail _ hmem)

theorem along_append {first second : List ε} :
    Along step condition state (first ++ second) ↔
      Along step condition state first ∧ Along step condition (run step state first) second := by
  induction first generalizing state with
  | nil => exact (iff_of_eq (true_and _)).symm
  | cons _ _ ih => exact (and_congr_right fun _ => ih).trans and_assoc.symm

/-- Some event of the run met the condition in the state it found. -/
def Once (step : σ → ε → σ) (condition : σ → ε → Prop) (state : σ) (events : List ε) : Prop :=
  ∃ first event second, events = first ++ event :: second ∧ condition (run step state first) event

theorem Once.append (honce : Once step condition state events) (more : List ε) :
    Once step condition state (events ++ more) := by
  obtain ⟨first, event, second, rfl, hevent⟩ := honce
  exact ⟨first, event, second ++ more, by simp, hevent⟩

theorem once_last {event : ε} (hevent : condition (run step state events) event) :
    Once step condition state (events ++ [event]) :=
  ⟨events, event, [], rfl, hevent⟩

/-- What a run keeps may speak of the events so far. -/
theorem Along.history (Past : List ε → Prop)
    (hstep : ∀ before event, Past before → condition (run step state before) event →
      Past (before ++ [event])) (hstart : Past []) (hrun : Along step condition state events) :
    Past events := by
  have hgoes : ∀ before rest, Past before →
      Along step condition (run step state before) rest → Past (before ++ rest) := by
    intro before rest
    induction rest generalizing before with
    | nil =>
      intro hpast _
      rwa [List.append_nil]
    | cons event _ ih =>
      rintro hpast ⟨hevent, hlater⟩
      rw [List.append_cons]
      apply ih (before ++ [event]) (hstep before event hpast hevent)
      rw [run_append]
      exact hlater
  exact hgoes [] events hstart hrun

/-- Two machines that consume the same events stay related if every step that
meets the condition in the first one keeps them so. -/
theorem Along.related {τ : Type} {other : τ → ε → τ} {Related : σ → τ → Prop}
    (hstep : ∀ state state' event, Related state state' → condition state event →
      Related (step state event) (other state' event)) {state' : τ} (hstart : Related state state')
    (hrun : Along step condition state events) :
    Related (run step state events) (run other state' events) := by
  induction events generalizing state state' with
  | nil => exact hstart
  | cons event _ ih =>
    apply ih
    · exact hstep state state' event hstart hrun.1
    · exact hrun.2

end Rules

section Parties

variable {α β : Type} [DecidableEq α] {f : α → β} {a b : α} {new value : β}

theorem update_cases (h : update f a new b = value) :
    b = a ∧ value = new ∨ b ≠ a ∧ f b = value := by
  by_cases hsame : b = a
  · rw [hsame, update_self] at h
    exact .inl ⟨hsame, h.symm⟩
  · rw [update_of_ne hsame] at h
    exact .inr ⟨hsame, h⟩

/-- An updated function has any other value where it had it before. -/
theorem update_other (h : update f a new b = value) (hne : value ≠ new) : b ≠ a ∧ f b = value := by
  rcases update_cases h with ⟨_, hnew⟩ | hother
  · exact absurd hnew hne
  · exact hother

/-- What all other parties have is not changed by a step of this one. -/
theorem update_rest (hrest : ∀ other ≠ a, f other = value) (new : β) :
    ∀ other ≠ a, update f a new other = value := by
  intro other hother
  rw [update_of_ne hother, hrest other hother]

theorem update_all (hrest : ∀ other ≠ a, f other = value) (b : α) : update f a value b = value := by
  by_cases hsame : b = a
  · rw [hsame, update_self]
  · exact update_rest hrest value b hsame

/-- A step of one party changes a sum over all of them by what this one adds. -/
theorem sum_update [Fintype α] (weight : β → Nat) (f : α → β) (a : α) (new : β) :
    ∑ b, weight (update f a new b) + weight (f a) = ∑ b, weight (f b) + weight new := by
  have hrest : ∑ b ∈ Finset.univ.erase a, weight (update f a new b) =
      ∑ b ∈ Finset.univ.erase a, weight (f b) := by
    apply Finset.sum_congr rfl
    intro b hb
    rw [update_of_ne (Finset.ne_of_mem_erase hb)]
  have hafter := Finset.sum_erase_add Finset.univ (fun b => weight (update f a new b))
    (Finset.mem_univ a)
  have hbefore := Finset.sum_erase_add Finset.univ (fun b => weight (f b)) (Finset.mem_univ a)
  simp only [update_self] at hafter
  omega

end Parties

end Spakky.Machine
