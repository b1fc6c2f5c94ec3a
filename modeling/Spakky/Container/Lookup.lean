import Spakky.Container.Construction
import Spakky.Container.Precedence

/-!
`get`, `get_or_none` and `contains` of a container. Given a name, `contains`
looks for it among all Pods; the other two look among the candidates of the
type. Constructors return an object and do not raise.
-/

namespace Spakky.Container

open Effect Exec Registry

inductive GetError where
  | raised (error : ContainerError)
  | noSuchPod (type_ : PyType) (name : Option String)

section Lookup

variable (type_ : PyType) (name : Option String)

def Registry.contains (registry : Registry) : Bool :=
  match name with
  | some name => (registry.lookup name).isSome
  | none => !(registry.typeCache type_).isEmpty

/-- A Pod, of that name if one is given, is a candidate for the type. -/
def Registry.HasCandidate (registry : Registry) : Prop :=
  ∃ pod ∈ registry.typeCache type_, ∀ given ∈ name, pod.name = given

variable (context : Context) (fuel : Nat)

def getOrNone : ContextM (Option Instance) :=
  getInternal (getPodInstance context fuel) context.registry (.type type_) name [] [] false

def get (state : ContextState) : Except GetError Instance × ContextState :=
  match getOrNone type_ name context fuel state with
  | (.ok (some object), state) => (.ok object, state)
  | (.ok none, state) => (.error (.noSuchPod type_ name), state)
  | (.error error, state) => (.error (.raised error), state)

/-- What `contains` says is so, and `get` and `get_or_none` act on it. -/
def ContainsAgrees : Prop :=
  let contained := context.registry.contains type_ name
  (contained = true ↔ context.registry.HasCandidate type_ name) ∧
    ∀ fuel state,
      ((getOrNone type_ name context fuel state).1 = .ok none → contained = false) ∧
      (contained = false →
        (get type_ name context fuel state).1 = .error (.noSuchPod type_ name))

end Lookup

variable {registry : Registry} {context : Context} {type_ : PyType} {name : Option String}

theorem resolve_none_iff :
    registry.resolve (.type type_) name [] false = .ok none ↔
      ¬ registry.HasCandidate type_ name := by
  refine (registry.resolveCandidate_decides type_ name [] false).ok_none_iff.trans ?_
  simp only [Request.Absent, Request.explicitName, HasCandidate, podsOf, ← mem_typeCache]
  cases name with
  | none => simp [Set.eq_empty_iff_forall_notMem]
  | some =>
    simp only [ne_eq, not_true_eq_false, if_false, Bool.false_eq_true, Option.some.injEq,
      exists_eq_left', Option.mem_some_iff, forall_eq', not_exists, not_and]
    refine or_iff_right_of_imp fun hempty pod hpod => ?_
    exact absurd hpod (Set.eq_empty_iff_forall_notMem.mp hempty pod)

theorem getOrNone_none_iff {fuel : Nat} {state : ContextState} :
    (getOrNone type_ name context fuel state).1 = .ok none ↔
      ¬ context.registry.HasCandidate type_ name := by
  rw [← resolve_none_iff, getOrNone, getInternal]
  cases hfound : context.registry.resolve (.type type_) name [] false with
  | error => exact ⟨nofun, nofun⟩
  | ok found =>
    cases found with
    | none => exact ⟨fun _ => rfl, fun _ => rfl⟩
    | some pod =>
      refine ⟨fun hnone => ?_, nofun⟩
      change ((getPodInstance context fuel [] pod >>= fun object => pure (some object)) state).1 =
        _ at hnone
      rw [bind_run] at hnone
      cases hrun : getPodInstance context fuel [] pod state using exec_cases <;>
        rw [hrun] at hnone <;> cases hnone

/-- `contains` agrees with `get` and `get_or_none` exactly where no name is given
or no Pod outside the family of the type has it. -/
theorem contains_agrees_iff (context : Context) (type_ : PyType) (name : Option String) :
    ContainsAgrees type_ name context ↔
      ∀ pod ∈ context.registry.pods, name = some pod.name → pod.isFamilyWith type_ = true := by
  have hcomplete : context.registry.HasCandidate type_ name →
      context.registry.contains type_ name = true := by
    rintro ⟨pod, hpod, hname⟩
    cases name with
    | none => simp [Registry.contains, List.ne_nil_of_mem hpod]
    | some given =>
      rw [Registry.contains, ← hname given rfl, lookup_self (mem_typeCache.mp hpod).1]
      rfl
  constructor
  · rintro ⟨hagrees, -⟩ pod hpod rfl
    obtain ⟨other, hother, hname⟩ := hagrees.mp (by
      rw [Registry.contains, lookup_self hpod]
      rfl)
    obtain ⟨hmem, hfamily⟩ := mem_typeCache.mp hother
    rwa [eq_of_name hmem hpod (hname pod.name rfl)] at hfamily
  · intro hfamily
    have hagrees : context.registry.contains type_ name = true ↔
        context.registry.HasCandidate type_ name := by
      refine ⟨fun hcontains => ?_, hcomplete⟩
      cases name with
      | none =>
        obtain ⟨pod, hpod⟩ := List.exists_mem_of_ne_nil (context.registry.typeCache type_)
          (by simpa [Registry.contains] using hcontains)
        exact ⟨pod, hpod, nofun⟩
      | some given =>
        obtain ⟨pod, hpod⟩ := Option.isSome_iff_exists.mp hcontains
        obtain ⟨hmem, hname⟩ := lookup_some hpod
        refine ⟨pod, mem_typeCache.mpr ⟨hmem, hfamily pod hmem (by rw [hname])⟩, ?_⟩
        rintro _ ⟨⟩
        exact hname
    have hno : context.registry.contains type_ name = false ↔
        ¬ context.registry.HasCandidate type_ name := by
      rw [← hagrees, Bool.not_eq_true]
    refine ⟨hagrees, fun fuel state => ⟨?_, ?_⟩⟩
    · rw [getOrNone_none_iff]
      exact hno.mpr
    · rw [hno, ← @getOrNone_none_iff _ _ _ fuel state, get]
      rcases getOrNone type_ name context fuel state with ⟨result, after⟩
      rintro rfl
      rfl

/-- The SMS notifier is found under its name as an e-mail notifier. -/
theorem email_contains_sms :
    (notifiers false false).contains ⟨1, "EmailNotifier"⟩ (some "sms") = true ∧
      (getOrNone ⟨1, "EmailNotifier"⟩ (some "sms") (notifiers false false).context 1 {}).1 =
        .ok none ∧
      ¬ ContainsAgrees ⟨1, "EmailNotifier"⟩ (some "sms") (notifiers false false).context := by
  refine ⟨by decide, by decide, fun hagrees => ?_⟩
  exact absurd ((hagrees.2 1 {}).1 (by decide)) (by decide)

end Spakky.Container
