import Spakky.Effect

/-!
One computation run beside another one. The two may keep different states and
raise different errors; a relation on the states, on the returned values and
on the errors is carried from the start to the end of both. A step that only
one of them takes has to keep the relation on its own.
-/

namespace Spakky.Effect.Exec

variable {σ τ ε δ α β γ κ : Type}

/-- From related states both computations return related values or both raise
related errors, in related states. -/
def Simulates (R : σ → τ → Prop) (V : α → β → Prop) (E : ε → δ → Prop)
    (x : Exec σ ε α) (y : Exec τ δ β) : Prop :=
  ∀ s t, R s t → match x s, y t with
    | (.ok a, s'), (.ok b, t') => V a b ∧ R s' t'
    | (.error e, s'), (.error d, t') => E e d ∧ R s' t'
    | _, _ => False

section Simulates

variable {R : σ → τ → Prop} {V : α → β → Prop} {E : ε → δ → Prop}

theorem Simulates.pure {a : α} {b : β} (h : V a b) :
    Simulates R V E (pure a : Exec σ ε α) (pure b : Exec τ δ β) :=
  fun _ _ hrel => ⟨h, hrel⟩

theorem Simulates.raise {e : ε} {d : δ} (h : E e d) :
    Simulates R V E (raise e : Exec σ ε α) (raise d : Exec τ δ β) :=
  fun _ _ hrel => ⟨h, hrel⟩

variable {x : Exec σ ε α} {y : Exec τ δ β}

theorem Simulates.bind {f : α → Exec σ ε γ} {g : β → Exec τ δ κ} {W : γ → κ → Prop}
    (hfirst : Simulates R V E x y) (hthen : ∀ a b, V a b → Simulates R W E (f a) (g b)) :
    Simulates R W E (x >>= f) (y >>= g) := by
  intro s t hrel
  have hrun := hfirst s t hrel
  rw [bind_run, bind_run]
  cases hx : x s with
  | mk outcome s' =>
    cases hy : y t with
    | mk outcome' t' =>
      rw [hx, hy] at hrun
      cases outcome with
      | ok a =>
        cases outcome' with
        | ok b => exact hthen a b hrun.1 s' t' hrun.2
        | error => exact hrun.elim
      | error =>
        cases outcome' with
        | ok => exact hrun.elim
        | error => exact hrun

/-- Steps that only the first computation takes. -/
theorem Simulates.left {x : Exec σ ε γ} {f : γ → Exec σ ε α} {W : γ → Prop}
    (hstep : ∀ s t, R s t → ∃ c s', x s = (.ok c, s') ∧ W c ∧ R s' t)
    (hthen : ∀ c, W c → Simulates R V E (f c) y) : Simulates R V E (x >>= f) y := by
  intro s t hrel
  obtain ⟨c, s', hrun, hvalue, hkept⟩ := hstep s t hrel
  rw [bind_ok _ hrun]
  exact hthen c hvalue s' t hkept

variable {s : σ} {t : τ} (h : Simulates R V E x y)
include h

/-- The first computation goes on to return a value made from its result. -/
theorem Simulates.returns {f : α → γ} {W : γ → β → Prop} (hvalue : ∀ a b, V a b → W (f a) b) :
    Simulates R W E (x >>= fun a => Pure.pure (f a)) y := by
  have hboth := h.bind fun a b hab => Simulates.pure (R := R) (E := E) (hvalue a b hab)
  rwa [bind_return y] at hboth

/-- An error of the first computation shows in the second one. -/
theorem Simulates.error_iff (hrel : R s t) {P : ε → Prop} {Q : δ → Prop}
    (hsame : ∀ e d, E e d → (P e ↔ Q d)) :
    (∃ e, (x s).1 = .error e ∧ P e) ↔ ∃ d, (y t).1 = .error d ∧ Q d := by
  have hrun := h s t hrel
  cases hx : x s with
  | mk outcome =>
    cases hy : y t with
    | mk outcome' =>
      rw [hx, hy] at hrun
      cases outcome with
      | ok => cases outcome' <;> simp_all
      | error e =>
        cases outcome' with
        | ok => exact hrun.elim
        | error d => simpa using hsame e d hrun.1

theorem Simulates.related (hrel : R s t) : R (x s).2 (y t).2 := by
  have hrun := h s t hrel
  cases hx : x s with
  | mk outcome =>
    cases hy : y t with
    | mk outcome' =>
      rw [hx, hy] at hrun
      cases outcome <;> cases outcome' <;> first | exact hrun.2 | exact hrun.elim

end Simulates

end Spakky.Effect.Exec
