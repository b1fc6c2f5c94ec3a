import Mathlib.Data.List.FinRange

/-!
Computations that read and change a state and may raise. An error keeps every
change made before it was raised, as an exception does in an imperative
program, and `attempt` is the only way to observe it. Triples say into which
states a computation returns and into which it raises.

The second half is about awaiting several computations at once: whatever
order they finish in, the collected results stand in the order in which the
computations were listed.
-/

namespace Spakky.Effect

open List

section Except

variable {ε α β : Type} {x : Except ε α} {f : α → Except ε β} {items : List α} {results : List β}

/-- The two parts of a fallible computation that ends well end well. -/
theorem except_bind_ok {result : β} (h : (x >>= f) = .ok result) :
    ∃ a, x = .ok a ∧ f a = .ok result := by
  cases x with
  | error => cases h
  | ok a => exact ⟨a, rfl, h⟩

theorem except_bind_error {error : ε} (h : (x >>= f) = .error error) :
    x = .error error ∨ ∃ a, x = .ok a ∧ f a = .error error := by
  cases x with
  | error =>
    cases h
    exact .inl rfl
  | ok a => exact .inr ⟨a, rfl, h⟩

theorem except_ok_then (a : α) (f : α → Except ε β) : (.ok a : Except ε α) >>= f = f a := rfl

theorem except_error_then (error : ε) (f : α → Except ε β) :
    (.error error : Except ε α) >>= f = .error error := rfl

section

variable (hrun : items.mapM f = .ok results)
include hrun

/-- The results of a list of fallible computations that all end well. -/
theorem map_of_mapM_ok : items.map f = results.map .ok := by
  induction items generalizing results with
  | nil =>
    cases hrun
    rfl
  | cons _ _ ih =>
    rw [mapM_cons] at hrun
    obtain ⟨_, hfirst, hrun⟩ := except_bind_ok hrun
    obtain ⟨_, hothers, hpure⟩ := except_bind_ok hrun
    cases hpure
    rw [map_cons, map_cons, hfirst, ih hothers]

theorem mem_of_mapM_ok {result : β} : result ∈ results ↔ ∃ item ∈ items, f item = .ok result := by
  have hmem : Except.ok result ∈ items.map f ↔ Except.ok result ∈ results.map (.ok (ε := ε)) := by
    rw [map_of_mapM_ok hrun]
  simpa using hmem.symm

theorem mapM_ok_of_mem {item : α} (hmem : item ∈ items) : ∃ result, f item = .ok result := by
  have hresult : f item ∈ results.map .ok := map_of_mapM_ok hrun ▸ mem_map_of_mem hmem
  obtain ⟨result, -, heq⟩ := mem_map.mp hresult
  exact ⟨result, heq.symm⟩

theorem length_mapM : results.length = items.length := by
  rw [← length_map, ← map_of_mapM_ok hrun, length_map]

end

/-- If a list of fallible computations fails, one of them does. -/
theorem mapM_error {error : ε} (hrun : items.mapM f = .error error) :
    ∃ item ∈ items, f item = .error error := by
  induction items with
  | nil => cases hrun
  | cons item _ ih =>
    rw [mapM_cons] at hrun
    rcases except_bind_error hrun with hfirst | ⟨_, _, hrest⟩
    · exact ⟨item, .head _, hfirst⟩
    · rcases except_bind_error hrest with hothers | ⟨_, _, hpure⟩
      · obtain ⟨other, hother, herror⟩ := ih hothers
        exact ⟨other, .tail _ hother, herror⟩
      · cases hpure

end Except

def Exec (σ ε α : Type) : Type := σ → Except ε α × σ

namespace Exec

variable {σ ε α β : Type}

instance : Monad (Exec σ ε) where
  pure a := fun s => (.ok a, s)
  bind x f := fun s =>
    match x s with
    | (.ok a, t) => f a t
    | (.error e, t) => (.error e, t)

def raise (e : ε) : Exec σ ε α := fun s => (.error e, s)

def ofExcept (result : Except ε α) : Exec σ ε α := fun s => (result, s)

/-- The body of a `try` statement: its result becomes a value, and the state
it left behind is kept in both cases. -/
def attempt (x : Exec σ ε α) : Exec σ ε (Except ε α) := fun s => (.ok (x s).1, (x s).2)

/-- `try: x; except: handler; raise` -/
def onError (x : Exec σ ε α) (handler : ε → Exec σ ε Unit) : Exec σ ε α := do
  match ← attempt x with
  | .ok a => pure a
  | .error e => do
      handler e
      raise e

/-- `try: x; finally: last`. An error of the last part replaces the outcome. -/
def ensure (x : Exec σ ε α) (last : Exec σ ε Unit) : Exec σ ε α := do
  let outcome ← attempt x
  last
  ofExcept outcome

def reads (f : σ → α) : Exec σ ε α := fun s => (.ok (f s), s)

def modify (f : σ → σ) : Exec σ ε Unit := fun s => (.ok (), f s)

/-- `for item in items: body` over a list that is read once. -/
def forEach (body : β → Exec σ ε Unit) : List β → Exec σ ε Unit
  | [] => pure ()
  | item :: rest => do
      body item
      forEach body rest

@[elab_as_elim] theorem exec_cases {motive : Except ε α × σ → Prop} (result : Except ε α × σ)
    (ok : ∀ a s, motive (.ok a, s)) (error : ∀ e s, motive (.error e, s)) : motive result := by
  obtain ⟨outcome, s⟩ := result
  cases outcome with
  | ok a => exact ok a s
  | error e => exact error e s

variable (a : α)

@[simp] theorem pure_run (s : σ) : (pure a : Exec σ ε α) s = (.ok a, s) := rfl

@[simp] theorem raise_run (e : ε) (s : σ) : (raise e : Exec σ ε α) s = (.error e, s) := rfl

@[simp] theorem ofExcept_run (result : Except ε α) (s : σ) :
    (ofExcept result : Exec σ ε α) s = (result, s) := rfl

variable (x : Exec σ ε α)

@[simp] theorem attempt_run (s : σ) :
    attempt x s = (.ok (x s).1, (x s).2) := rfl

@[simp] theorem reads_run (f : σ → α) (s : σ) :
    (reads f : Exec σ ε α) s = (.ok (f s), s) := rfl

@[simp] theorem modify_run (f : σ → σ) (s : σ) :
    (modify f : Exec σ ε Unit) s = (.ok (), f s) := rfl

variable (f : α → Exec σ ε β)

theorem bind_run (s : σ) :
    (x >>= f) s = match x s with
      | (.ok a, t) => f a t
      | (.error e, t) => (.error e, t) := rfl

theorem pure_then : (pure a : Exec σ ε α) >>= f = f a := rfl

theorem ofExcept_ok_then :
    (ofExcept (.ok a) : Exec σ ε α) >>= f = f a := rfl

theorem bind_then {γ : Type} (g : β → Exec σ ε γ) : (x >>= f) >>= g = x >>= fun a => f a >>= g := by
  funext s
  rw [bind_run, bind_run, bind_run]
  cases x s using exec_cases <;> rfl

theorem bind_return : (x >>= fun a => pure a) = x := by
  funext s
  rw [bind_run]
  cases x s using exec_cases <;> rfl

theorem then_unit (x : Exec σ ε Unit) : (x >>= fun _ => pure ()) = x := bind_return x

theorem then_pure_state (b : β) (s : σ) : ((x >>= fun _ => pure b) s).2 = (x s).2 := by
  rw [bind_run]
  cases x s using exec_cases <;> rfl

@[simp] theorem pure_bind_run (s : σ) :
    ((pure a : Exec σ ε α) >>= f) s = f a s := rfl

@[simp] theorem attempt_bind_run (f : Except ε α → Exec σ ε β) (s : σ) :
    (attempt x >>= f) s = f (x s).1 (x s).2 := rfl

@[simp] theorem reads_bind_run (f : σ → α) (g : α → Exec σ ε β) (s : σ) :
    ((reads f : Exec σ ε α) >>= g) s = g (f s) s := rfl

@[simp] theorem modify_bind_run (f : σ → σ) (g : Unit → Exec σ ε β) (s : σ) :
    ((modify f : Exec σ ε Unit) >>= g) s = g () (f s) := rfl

theorem onError_idle : onError x (fun _ => pure ()) = x := by
  funext s
  rw [onError, attempt_bind_run]
  cases hrun : x s using exec_cases <;> rfl

theorem ensure_idle : ensure x (pure ()) = x := rfl

variable {x f a} {handler : ε → Exec σ ε Unit} {s t u : σ} {e : ε}

variable (f) in
theorem bind_ok (h : x s = (.ok a, t)) : (x >>= f) s = f a t := by
  rw [bind_run, h]

variable (f) in
theorem bind_error (h : x s = (.error e, t)) : (x >>= f) s = (.error e, t) := by
  rw [bind_run, h]

theorem onError_ok (hx : x s = (.ok a, t)) :
    onError x handler s = (.ok a, t) := by
  rw [onError, attempt_bind_run, hx]
  rfl

theorem onError_error (hx : x s = (.error e, t))
    (hhdl : handler e t = (.ok (), u)) : onError x handler s = (.error e, u) := by
  rw [onError, attempt_bind_run, hx]
  exact bind_ok _ hhdl

/-- An error of the handler replaces the one it handles. -/
theorem onError_fails {e' : ε} (hx : x s = (.error e, t))
    (hhdl : handler e t = (.error e', u)) : onError x handler s = (.error e', u) := by
  rw [onError, attempt_bind_run, hx]
  exact bind_error _ hhdl

theorem ensure_ok {last : Exec σ ε Unit} {outcome : Except ε α} (hx : x s = (outcome, t))
    (hlast : last t = (.ok (), u)) : ensure x last s = (outcome, u) := by
  rw [ensure, attempt_bind_run, hx, bind_ok _ hlast]
  rfl

/-- A sequence that ends well ended well at each of its two parts. -/
theorem bind_eq_ok {b : β} :
    (x >>= f) s = (.ok b, u) ↔ ∃ a t, x s = (.ok a, t) ∧ f a t = (.ok b, u) := by
  rw [bind_run]
  cases hx : x s using exec_cases with
  | ok => simp
  | error => simp

/-- A sequence raises in its first part, or in its second part after the first
one ended well. -/
theorem bind_eq_error :
    (x >>= f) s = (.error e, u) ↔
      x s = (.error e, u) ∨ ∃ a t, x s = (.ok a, t) ∧ f a t = (.error e, u) := by
  rw [bind_run]
  cases hx : x s using exec_cases with
  | ok => simp
  | error => simp

/-- From a state where `P` holds the computation returns into `Q` or raises
into `E`. -/
def Triple (P : σ → Prop) (x : Exec σ ε α) (Q : α → σ → Prop) (E : ε → σ → Prop) : Prop :=
  ∀ s, P s → match x s with
    | (.ok a, t) => Q a t
    | (.error e, t) => E e t

section Triple

variable {P : σ → Prop} {Q : α → σ → Prop} {E : ε → σ → Prop} {x : Exec σ ε α}

theorem triple_iff : Triple P x Q E ↔ ∀ s, P s →
    (∀ a, (x s).1 = .ok a → Q a (x s).2) ∧ ∀ e, (x s).1 = .error e → E e (x s).2 := by
  refine forall₂_congr fun s _ => ?_
  cases x s using exec_cases <;> simp

theorem Triple.pure {a : α} (h : ∀ s, P s → Q a s) : Triple P (pure a : Exec σ ε α) Q E := h

theorem Triple.raise {e : ε} (h : ∀ s, P s → E e s) : Triple P (raise e : Exec σ ε α) Q E := h

theorem Triple.reads {f : σ → α} (h : ∀ s, P s → Q (f s) s) : Triple P (reads f : Exec σ ε α) Q E :=
  h

theorem Triple.modify {f : σ → σ} {R : Unit → σ → Prop} (h : ∀ s, P s → R () (f s)) :
    Triple P (modify f : Exec σ ε Unit) R E :=
  h

theorem Triple.ofExcept {result : Except ε α} (hok : ∀ a s, result = .ok a → P s → Q a s)
    (herror : ∀ e s, result = .error e → P s → E e s) :
    Triple P (ofExcept result : Exec σ ε α) Q E :=
  triple_iff.mpr fun s hs => ⟨fun a ha => hok a s ha hs, fun e he => herror e s he hs⟩

/-- An attempt only returns; what it returns tells which postcondition of its
body holds. -/
theorem Triple.attempt {R : Except ε α → σ → Prop} {F : ε → σ → Prop}
    (hx : Triple P x (fun a t => R (.ok a) t) (fun e t => R (.error e) t)) :
    Triple P (attempt x) R F := by
  intro s hs
  obtain ⟨hok, herror⟩ := triple_iff.mp hx s hs
  change R (x s).1 (x s).2
  cases hres : (x s).1 with
  | ok a => exact hok a hres
  | error e => exact herror e hres

theorem Triple.bind {f : α → Exec σ ε β} {M : α → σ → Prop} {R : β → σ → Prop} (hx : Triple P x M E)
    (hf : ∀ a, Triple (M a) (f a) R E) : Triple P (x >>= f) R E := by
  intro s hs
  have hfirst := hx s hs
  rw [bind_run]
  cases hrun : x s with
  | mk result t =>
    rw [hrun] at hfirst
    cases result with
    | ok a => exact hf a t hfirst
    | error => exact hfirst

/-- The rule for loops: an invariant that speaks about the items to come. -/
theorem Triple.forEach {body : β → Exec σ ε Unit} {I : List β → σ → Prop}
    (hbody : ∀ item rest, Triple (I (item :: rest)) (body item) (fun _ => I rest) E)
    (items : List β) : Triple (I items) (forEach body items) (fun _ => I []) E := by
  induction items with
  | nil => exact fun _ hs => hs
  | cons item rest ih => exact .bind (hbody item rest) fun _ => ih

theorem Triple.weaken {P' : σ → Prop} {Q' : α → σ → Prop} {E' : ε → σ → Prop} (hx : Triple P x Q E)
    (hP : ∀ s, P' s → P s) (hQ : ∀ a t, Q a t → Q' a t) (hE : ∀ e t, E e t → E' e t) :
    Triple P' x Q' E' := by
  refine triple_iff.mpr fun s hs => ?_
  obtain ⟨hok, herror⟩ := triple_iff.mp hx s (hP s hs)
  exact ⟨fun a ha => hQ a _ (hok a ha), fun e he => hE e _ (herror e he)⟩

theorem Triple.ok (hx : Triple P x Q E) {s t : σ} {a : α} (hs : P s) (hrun : x s = (.ok a, t)) :
    Q a t := by
  have h := hx s hs
  rwa [hrun] at h

theorem Triple.error (hx : Triple P x Q E) {s t : σ} {e : ε} (hs : P s)
    (hrun : x s = (.error e, t)) : E e t := by
  have h := hx s hs
  rwa [hrun] at h

end Triple

/-- The computation keeps an invariant, whether it returns or raises. -/
def Maintains (Inv : σ → Prop) (x : Exec σ ε α) : Prop := ∀ s, Inv s → Inv (x s).2

section Maintains

variable {Inv : σ → Prop} {x : Exec σ ε α}

theorem Maintains.still (h : ∀ s, (x s).2 = s) : Maintains Inv x := by
  intro s hs
  rwa [h s]

theorem Maintains.triple (hx : Maintains Inv x) : Triple Inv x (fun _ => Inv) (fun _ => Inv) :=
  triple_iff.mpr fun s hs => ⟨fun _ _ => hx s hs, fun _ _ => hx s hs⟩

theorem Triple.maintains (hx : Triple Inv x (fun _ => Inv) (fun _ => Inv)) : Maintains Inv x := by
  intro s hs
  obtain ⟨hok, herror⟩ := triple_iff.mp hx s hs
  cases hres : (x s).1 with
  | ok a => exact hok a hres
  | error e => exact herror e hres

theorem Maintains.bind {f : α → Exec σ ε β} (hx : Maintains Inv x) (hf : ∀ a, Maintains Inv (f a)) :
    Maintains Inv (x >>= f) :=
  (hx.triple.bind fun a => (hf a).triple).maintains

section

variable {x : Exec σ ε α} (hx : Maintains Inv x)
include hx

theorem Maintains.attempt : Maintains Inv (attempt x) := hx

theorem Maintains.onError {handler : ε → Exec σ ε Unit} (hhdl : ∀ e, Maintains Inv (handler e)) :
    Maintains Inv (onError x handler) := by
  apply Maintains.bind hx.attempt
  intro outcome
  cases outcome with
  | ok => exact .still fun _ => rfl
  | error e => exact .bind (hhdl e) fun _ => .still fun _ => rfl

theorem Maintains.ensure {last : Exec σ ε Unit} (hlast : Maintains Inv last) :
    Maintains Inv (ensure x last) := by
  apply Maintains.bind hx.attempt
  intro outcome
  exact Maintains.bind hlast fun _ => Maintains.still fun _ => rfl

end

theorem Maintains.forEach {body : β → Exec σ ε Unit} {items : List β}
    (hbody : ∀ item ∈ items, Maintains Inv (body item)) : Maintains Inv (forEach body items) := by
  induction items with
  | nil => exact .still fun _ => rfl
  | cons item _ ih =>
    apply Maintains.bind (hbody item (.head _))
    intro _
    exact ih fun other hother => hbody other (mem_cons_of_mem item hother)

end Maintains

/-- What the computation returns or raises does not depend on the state. -/
def Uniform (x : Exec σ ε α) : Prop := ∀ s t, (x s).1 = (x t).1

theorem Uniform.ofExcept (result : Except ε α) : Uniform (ofExcept result : Exec σ ε α) :=
  fun _ _ => rfl

theorem Uniform.modify (f : σ → σ) : Uniform (modify f : Exec σ ε Unit) := fun _ _ => rfl

theorem Uniform.raise (e : ε) : Uniform (raise e : Exec σ ε α) := fun _ _ => rfl

theorem Uniform.pure (a : α) : Uniform (pure a : Exec σ ε α) := fun _ _ => rfl

theorem Uniform.bind {x : Exec σ ε α} {f : α → Exec σ ε β} (hx : Uniform x)
    (hf : ∀ a, Uniform (f a)) : Uniform (x >>= f) := by
  intro s t
  have hfirst := hx s t
  rw [bind_run, bind_run]
  cases hs : x s with
  | mk result s' =>
    cases ht : x t with
    | mk result' t' =>
      rw [hs, ht] at hfirst
      obtain rfl : result = result' := hfirst
      cases result with
      | ok a => exact hf a s' t'
      | error => rfl

theorem Uniform.forEach {body : β → Exec σ ε Unit} (hbody : ∀ item, Uniform (body item))
    (items : List β) : Uniform (forEach body items) := by
  induction items with
  | nil => exact .pure ()
  | cons item _ ih => exact .bind (hbody item) fun _ => ih

/-- Every error that the computation raises is of a kind. -/
def RaisesOnly (E : ε → Prop) (x : Exec σ ε α) : Prop := ∀ s e, (x s).1 = .error e → E e

section RaisesOnly

variable {E : ε → Prop}

theorem RaisesOnly.pure (a : α) : RaisesOnly E (pure a : Exec σ ε α) := by
  rintro s e ⟨⟩

theorem RaisesOnly.reads (f : σ → α) : RaisesOnly E (reads f : Exec σ ε α) := by
  rintro s e ⟨⟩

theorem RaisesOnly.modify (f : σ → σ) : RaisesOnly E (modify f : Exec σ ε Unit) := by
  rintro s e ⟨⟩

theorem RaisesOnly.raise {e : ε} (he : E e) : RaisesOnly E (raise e : Exec σ ε α) := by
  rintro s _ ⟨⟩
  exact he

theorem RaisesOnly.ofExcept {result : Except ε α} (hres : ∀ e, result = .error e → E e) :
    RaisesOnly E (ofExcept result : Exec σ ε α) :=
  fun _ => hres

theorem raisesOnly_iff {x : Exec σ ε α} :
    RaisesOnly E x ↔ Triple (fun _ => True) x (fun _ _ => True) fun e _ => E e := by
  simp [triple_iff, RaisesOnly]

theorem RaisesOnly.bind {x : Exec σ ε α} {f : α → Exec σ ε β} (hx : RaisesOnly E x)
    (hf : ∀ a, RaisesOnly E (f a)) : RaisesOnly E (x >>= f) :=
  raisesOnly_iff.mpr (.bind (raisesOnly_iff.mp hx) fun a => raisesOnly_iff.mp (hf a))

theorem RaisesOnly.forEach {body : β → Exec σ ε Unit} (hbody : ∀ item, RaisesOnly E (body item))
    (items : List β) : RaisesOnly E (forEach body items) := by
  induction items with
  | nil => exact .pure ()
  | cons item _ ih => exact .bind (hbody item) fun _ => ih

end RaisesOnly

end Exec

section Gather

variable {α : Type}

/-- The computations of a group in the order in which they finish, each with
its place in the list. -/
def completions (outcomes : List α) (order : Equiv.Perm (Fin outcomes.length)) :
    List (Fin outcomes.length × α) :=
  List.ofFn fun k => (order k, outcomes.get (order k))

/-- Put finished results back into their places. -/
def collect {n : Nat} (finished : List (Fin n × α)) : List α :=
  (List.finRange n).filterMap fun place => finished.lookup place

theorem mem_completions {outcomes : List α} {order : Equiv.Perm (Fin outcomes.length)}
    {entry : Fin outcomes.length × α} :
    entry ∈ completions outcomes order ↔ entry.2 = outcomes.get entry.1 := by
  obtain ⟨place, _⟩ := entry
  simp only [completions, mem_ofFn, Prod.mk.injEq]
  constructor
  · rintro ⟨_, hplace, hvalue⟩
    rw [← hvalue, hplace]
  · intro hvalue
    exact ⟨order.symm place, by simp, by simp [hvalue]⟩

variable (outcomes : List α) (order : Equiv.Perm (Fin outcomes.length))

theorem lookup_completions (place : Fin outcomes.length) :
    (completions outcomes order).lookup place = some (outcomes.get place) := by
  have hmem : (place, outcomes.get place) ∈ completions outcomes order := mem_completions.mpr rfl
  cases hfound : (completions outcomes order).lookup place with
  | none =>
    rw [lookup_eq_none_iff] at hfound
    have hne := hfound _ hmem
    simp at hne
  | some value =>
    obtain ⟨_, _, hsplit, _⟩ := lookup_eq_some_iff.mp hfound
    have hvalue : (place, value) ∈ completions outcomes order := by
      rw [hsplit]
      simp
    exact congrArg some (mem_completions.mp hvalue)

/-- The collected results do not depend on the order of completion. -/
theorem collect_completions : collect (completions outcomes order) = outcomes := by
  simp only [collect, lookup_completions]
  rw [filterMap_eq_map']
  exact map_get_finRange outcomes

end Gather

end Spakky.Effect
