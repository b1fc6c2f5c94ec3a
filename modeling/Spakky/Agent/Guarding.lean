import Spakky.Agent.Sensitivity

/-!
What guarding does at a given position of a value. A position may go through
arrays, the path of a descriptor cannot. A descriptor whose field may not be
exposed covers a position if its path leads to it or to something around it;
one that drops its value also covers everything below the first key of its
path, because every level of `_guard_json_path` drops its own key.

Guarding makes something else of the value at a covered position, or removes
it. At any other position the value stays, up to what is guarded inside it.
-/

namespace Spakky.Agent

open List JsonValue

inductive Step where
  | key (key : String)
  | index (i : Nat)
  deriving DecidableEq, Repr

/-- The value at a position, if there is one. -/
def JsonValue.at? : JsonValue → List Step → Option JsonValue
  | value, [] => some value
  | .object entries, .key key :: position =>
    match entries.lookup key with
    | some child => child.at? position
    | none => none
  | .array items, .index i :: position =>
    match items[i]? with
    | some child => child.at? position
    | none => none
  | _, _ :: _ => none
termination_by structural _ position => position

/-- Neither an object nor an array. -/
def JsonValue.isScalar : JsonValue → Bool
  | .object _ => false
  | .array _ => false
  | _ => true

def JsonValue.isObject : JsonValue → Bool
  | .object _ => true
  | _ => false

theorem JsonValue.at?_nil (value : JsonValue) : value.at? [] = some value := by
  rw [at?]

theorem JsonValue.at?_scalar {value : JsonValue} (hscalar : value.isScalar = true) (step : Step)
    (position : List Step) : value.at? (step :: position) = none := by
  cases value with
  | object | array => cases hscalar
  | _ => cases step <;> simp [at?]

theorem JsonValue.at?_object (entries : JsonObject) (key : String) (position : List Step) :
    (object entries).at? (.key key :: position) =
      (entries.lookup key).bind fun child => child.at? position := by
  rw [at?]
  cases entries.lookup key <;> rfl

theorem JsonValue.at?_array (items : List JsonValue) (i : Nat) (position : List Step) :
    (array items).at? (.index i :: position) =
      (items[i]?).bind fun child => child.at? position := by
  rw [at?]
  cases items[i]? <;> rfl

/-- A value with something below it along a step is a container with an entry
for the step. -/
theorem JsonValue.at?_step {value found : JsonValue} {step : Step} {position : List Step}
    (hat : value.at? (step :: position) = some found) :
    (∃ entries key child, value = .object entries ∧ step = .key key ∧
      entries.lookup key = some child ∧ child.at? position = some found) ∨
    (∃ items i, value = .array items ∧ step = .index i) := by
  cases value with
  | object entries =>
    cases step with
    | index => simp [at?] at hat
    | key key =>
      rw [at?_object] at hat
      obtain ⟨child, hfound, hchild⟩ := Option.bind_eq_some_iff.mp hat
      exact .inl ⟨entries, key, child, rfl, rfl, hfound, hchild⟩
  | array items =>
    cases step with
    | key => simp [at?] at hat
    | index i => exact .inr ⟨items, i, rfl, rfl⟩
  | _ => rw [at?_scalar rfl] at hat; cases hat

/-- The path leads to the position or to something around it, or the first key
of the path is dropped with everything below it. -/
def Covers (descriptor : SensitiveFieldDescriptor) (position : List Step) : Prop :=
  descriptor.path.map .key <+: position ∨
    (descriptor.field.redaction = .drop ∧
      ∃ key path rest, descriptor.path = key :: path ∧ position = .key key :: rest)

section Covers

variable {field : FieldMarker} {key k : String} {path : List String} {position : List Step}

theorem covers_root : Covers ⟨[], field⟩ position := .inl nil_prefix

theorem covers_nil : Covers ⟨path, field⟩ [] ↔ path = [] := by
  constructor
  · rintro (hpath | ⟨_, key, path', rest, _, hpos⟩)
    · simpa using hpath
    · cases hpos
  · rintro rfl
    exact covers_root

theorem not_covers_index (i : Nat) : ¬ Covers ⟨key :: path, field⟩ (.index i :: position) := by
  rintro (hpath | ⟨_, key', path', rest, _, hpos⟩)
  · rw [map_cons, cons_prefix_cons] at hpath
    cases hpath.1
  · cases hpos

theorem not_covers_other (hk : k ≠ key) : ¬ Covers ⟨key :: path, field⟩ (.key k :: position) := by
  rintro (hpath | ⟨_, key', path', rest, hpath, hpos⟩)
  · rw [map_cons, cons_prefix_cons] at hpath
    cases hpath.1
    exact hk rfl
  · cases hpath
    cases hpos
    exact hk rfl

theorem covers_drop (hdrop : field.redaction = .drop) :
    Covers ⟨key :: path, field⟩ (.key key :: position) :=
  .inr ⟨hdrop, key, path, position, rfl, rfl⟩

theorem covers_cons (hdrop : field.redaction ≠ .drop) :
    Covers ⟨key :: path, field⟩ (.key key :: position) ↔ Covers ⟨path, field⟩ position := by
  have honly : ∀ path position, Covers ⟨path, field⟩ position ↔ path.map .key <+: position :=
    fun _ _ => or_iff_left fun h => hdrop h.1
  rw [honly, honly, map_cons, cons_prefix_cons]
  simp

end Covers

section Guard

variable (runtime : Runtime) (policy : ExposurePolicy) {field : FieldMarker}

theorem guardJsonPath_exposed (hexp : policy.canExposeValue field = true) (value : JsonValue)
    (path : List String) : guardJsonPath runtime policy value path field = value := by
  induction path generalizing value with
  | nil =>
    rw [guardJsonPath]
    unfold guardScalar
    rw [if_pos hexp]
  | cons key _ ih =>
    cases value with
    | object entries =>
      rw [guardJsonPath]
      cases hfound : entries.lookup key with
      | none => rfl
      | some =>
        have hkept : ¬ (field.redaction = .drop ∧ policy.canExposeValue field = false) := by
          simp [hexp]
        simp only [if_neg hkept, ih, setEntry_self hfound]
    | _ => rfl

variable {policy} (hhidden : policy.canExposeValue field = false)

include hhidden in
theorem guardScalar_scalar (value : JsonValue) :
    (guardScalar runtime policy value field).isScalar = true := by
  unfold guardScalar
  rw [if_neg (by simp [hhidden])]
  cases value with
  | string => rfl
  | _ =>
    by_cases hdrop : field.redaction = .drop
    · simp [hdrop, isScalar]
    · simp [hdrop, isScalar]

/-- Guarding along a path does not turn a scalar into a container. -/
theorem guardJsonPath_scalar {value : JsonValue} (hscalar : value.isScalar = true)
    (path : List String) (hhidden : policy.canExposeValue field = false) :
    (guardJsonPath runtime policy value path field).isScalar = true := by
  cases path with
  | nil => exact guardScalar_scalar runtime hhidden value
  | cons =>
    cases value with
    | object => cases hscalar
    | _ => exact hscalar

/-- Guarding inside of a value leaves it what it is: only an object changes,
and it stays an object. -/
theorem guardJsonPath_inside (policy : ExposurePolicy) (field : FieldMarker) (value : JsonValue)
    (key : String) (path : List String) :
    (value.isObject = true ∧
        (guardJsonPath runtime policy value (key :: path) field).isObject = true) ∨
      guardJsonPath runtime policy value (key :: path) field = value := by
  cases value with
  | object entries =>
    refine .inl ⟨rfl, ?_⟩
    rw [guardJsonPath]
    cases entries.lookup key with
    | none => rfl
    | some =>
      dsimp only
      split <;> rfl
  | _ => exact .inr rfl

/-- An object that is guarded along a path keeps what stands at other keys. -/
theorem guardJsonPath_other {entries : JsonObject} {key k : String} (hk : k ≠ key)
    (path : List String) (position : List Step) :
    (guardJsonPath runtime policy (.object entries) (key :: path) field).at?
        (.key k :: position) = (object entries).at? (.key k :: position) := by
  rw [guardJsonPath]
  cases entries.lookup key with
  | none => rfl
  | some =>
    dsimp only
    split
    · rw [at?_object, at?_object, lookup_popEntry_other hk]
    · rw [at?_object, at?_object, lookup_setEntry_other hk]

/-- What guarding with one descriptor that hides its value does at a position:
it removes the value, or guards it along what is left of the path, or leaves
it alone. -/
inductive GuardedAt (policy : ExposurePolicy) (field : FieldMarker) (value found : JsonValue)
    (path : List String) (position : List Step) : Prop
  | removed (hcov : Covers ⟨path, field⟩ position)
      (hat : (guardJsonPath runtime policy value path field).at? position = none)
  | guarded (inner : List String) (hcov : Covers ⟨path, field⟩ position ↔ inner = [])
      (hat : (guardJsonPath runtime policy value path field).at? position =
        some (guardJsonPath runtime policy found inner field))
  | kept (hcov : ¬ Covers ⟨path, field⟩ position)
      (hat : (guardJsonPath runtime policy value path field).at? position = some found)

include hhidden in
theorem guardedAt {value found : JsonValue} (path : List String) {position : List Step}
    (hat : value.at? position = some found) :
    GuardedAt runtime policy field value found path position := by
  induction position generalizing value path with
  | nil =>
    cases hat
    exact .guarded path covers_nil (at?_nil _)
  | cons step position ih =>
    cases path with
    | nil =>
      refine .removed covers_root ?_
      exact at?_scalar (guardScalar_scalar runtime hhidden value) step position
    | cons key path =>
      rcases at?_step hat with
        ⟨entries, k, child, rfl, rfl, hfound, hchild⟩ | ⟨_, i, rfl, rfl⟩
      · by_cases hk : k = key
        · subst hk
          by_cases hdrop : field.redaction = .drop
          · refine .removed (covers_drop hdrop) ?_
            rw [guardJsonPath, hfound]
            simp only [hdrop, hhidden, and_self, if_true]
            rw [at?_object, lookup_popEntry_self]
            rfl
          · have hstep : (guardJsonPath runtime policy (.object entries) (k :: path) field).at?
                (.key k :: position) =
                  (guardJsonPath runtime policy child path field).at? position := by
              rw [guardJsonPath, hfound]
              simp only [hdrop, false_and, if_false]
              rw [at?_object, lookup_setEntry_self hfound]
              rfl
            rcases ih path hchild with
              ⟨hcov, hnone⟩ | ⟨inner, hcov, hsome⟩ | ⟨hcov, hsome⟩
            · exact .removed ((covers_cons hdrop).mpr hcov) (hstep.trans hnone)
            · exact .guarded inner ((covers_cons hdrop).trans hcov) (hstep.trans hsome)
            · exact .kept (fun h => hcov ((covers_cons hdrop).mp h)) (hstep.trans hsome)
        · refine .kept (not_covers_other hk) ?_
          rw [guardJsonPath_other runtime hk]
          exact hat
      · exact .kept (not_covers_index i) hat

theorem guardJsonPath_absent (policy : ExposurePolicy) (field : FieldMarker) {value : JsonValue}
    {position : List Step} (habs : value.at? position = none) (path : List String) :
    (guardJsonPath runtime policy value path field).at? position = none := by
  induction path generalizing value position with
  | nil =>
    cases hexp : policy.canExposeValue field with
    | true => rwa [guardJsonPath_exposed runtime policy hexp]
    | false =>
      cases position with
      | nil => rw [at?_nil] at habs; cases habs
      | cons step position =>
        exact at?_scalar (guardScalar_scalar runtime hexp value) step position
  | cons key path ih =>
    cases value with
    | object entries =>
      cases position with
      | nil => rw [at?_nil] at habs; cases habs
      | cons step =>
        cases step with
        | index =>
          rcases guardJsonPath_inside runtime policy field (.object entries) key path with
            ⟨_, hobj⟩ | hsame
          · cases hguarded : guardJsonPath runtime policy (.object entries) (key :: path)
                field with
            | object => simp [at?]
            | _ => rw [hguarded] at hobj; cases hobj
          · rwa [hsame]
        | key k =>
          by_cases hk : k = key
          · subst hk
            rw [guardJsonPath]
            rw [at?_object] at habs
            cases hfound : entries.lookup k with
            | none =>
              rw [at?_object, hfound]
              rfl
            | some =>
              rw [hfound] at habs
              dsimp only
              split
              · rw [at?_object, lookup_popEntry_self]
                rfl
              · rw [at?_object, lookup_setEntry_self hfound]
                exact ih habs
          · rw [guardJsonPath_other runtime hk]
            exact habs
    | _ => exact habs

end Guard

section Run

variable (runtime : Runtime) (policy : ExposurePolicy) (fields : List SensitiveFieldDescriptor)

/-- Some descriptor hides what stands at the position. -/
def Covered (position : List Step) : Prop :=
  ∃ descriptor ∈ fields, policy.canExposeValue descriptor.field = false ∧ Covers descriptor position

/-- A descriptor, for some place inside a value, with a field that one of the
given descriptors hides. -/
def Guards (step : SensitiveFieldDescriptor) : Prop :=
  policy.canExposeValue step.field = false ∧ ∃ descriptor ∈ fields, descriptor.field = step.field

/-- The second value is what guarding makes of the first one, which is replaced
as a whole at least once. -/
def Masked (value guarded : JsonValue) : Prop :=
  ∃ steps, (∀ step ∈ steps, Guards policy fields step) ∧ (∃ step ∈ steps, step.path = []) ∧
    guarded = guardJsonValue runtime policy value steps

section

variable {value : JsonValue} {position : List Step} {steps : List SensitiveFieldDescriptor}

theorem guardJsonValue_cons (value : JsonValue) (descriptor : SensitiveFieldDescriptor)
    (rest : List SensitiveFieldDescriptor) :
    guardJsonValue runtime policy value (descriptor :: rest) =
      guardJsonValue runtime policy
        (guardJsonPath runtime policy value descriptor.path descriptor.field) rest :=
  rfl

theorem guardJsonValue_absent (habs : value.at? position = none) :
    (guardJsonValue runtime policy value fields).at? position = none := by
  induction fields generalizing value with
  | nil => exact habs
  | cons _ _ ih => exact ih (guardJsonPath_absent runtime policy _ habs _)

/-- What guarding with all descriptors does at a position. It is removed only
if it is covered, and otherwise guarded step by step, as a whole if and only
if it is covered. -/
theorem guardJsonValue_at {todo : List SensitiveFieldDescriptor} (hsub : todo ⊆ fields)
    {value found : JsonValue} (hat : value.at? position = some found) :
    (Covered policy todo position ∧
        (guardJsonValue runtime policy value todo).at? position = none) ∨
      ∃ steps, (∀ step ∈ steps, Guards policy fields step) ∧
        (Covered policy todo position ↔ ∃ step ∈ steps, step.path = []) ∧
        (guardJsonValue runtime policy value todo).at? position =
          some (guardJsonValue runtime policy found steps) := by
  induction todo generalizing value found with
  | nil => exact .inr ⟨[], by simp, by simp [Covered], hat⟩
  | cons descriptor todo ih =>
    obtain ⟨hmem, hrest⟩ := cons_subset.mp hsub
    rw [guardJsonValue_cons]
    have hlater : Covered policy todo position → Covered policy (descriptor :: todo) position :=
      fun ⟨d, hd, hcov⟩ => ⟨d, .tail _ hd, hcov⟩
    -- A descriptor that hides nothing at the position leaves everything to the others.
    have hskip : ¬ (policy.canExposeValue descriptor.field = false ∧ Covers descriptor position) →
        (Covered policy (descriptor :: todo) position ↔ Covered policy todo position) := by
      intro hnot
      refine ⟨?_, hlater⟩
      rintro ⟨d, hd, hhidden, hcov⟩
      rcases mem_cons.mp hd with rfl | htodo
      · exact absurd ⟨hhidden, hcov⟩ hnot
      · exact ⟨d, htodo, hhidden, hcov⟩
    cases hexp : policy.canExposeValue descriptor.field with
    | true =>
      rw [guardJsonPath_exposed runtime policy hexp, hskip (by simp [hexp])]
      exact ih hrest hat
    | false =>
      rcases guardedAt runtime hexp descriptor.path hat with
        ⟨hcov, hnone⟩ | ⟨inner, hcov, hsome⟩ | ⟨hcov, hsome⟩
      · refine .inl ⟨⟨descriptor, .head _, hexp, hcov⟩, ?_⟩
        exact guardJsonValue_absent runtime policy todo hnone
      · rcases ih hrest hsome with ⟨hcovered, hnone⟩ | ⟨steps, hsteps, hcovered, hguarded⟩
        · exact .inl ⟨hlater hcovered, hnone⟩
        · refine .inr ⟨⟨inner, descriptor.field⟩ :: steps, ?_, ?_, hguarded⟩
          · exact forall_mem_cons.mpr ⟨⟨hexp, descriptor, hmem, rfl⟩, hsteps⟩
          · have hsplit : Covered policy (descriptor :: todo) position ↔
                Covers descriptor position ∨ Covered policy todo position := by
              simp [Covered, hexp]
            rw [hsplit, hcovered]
            simp only [mem_cons, exists_eq_or_imp]
            exact or_congr_left hcov
      · rw [hskip (fun h => hcov h.2)]
        exact ih hrest hsome

theorem guardJsonValue_scalar (hsteps : ∀ step ∈ steps, policy.canExposeValue step.field = false)
    (hscalar : value.isScalar = true ∨ ∃ step ∈ steps, step.path = []) :
    (guardJsonValue runtime policy value steps).isScalar = true := by
  induction steps generalizing value with
  | nil =>
    rcases hscalar with hscalar | ⟨_, hmem, _⟩
    · exact hscalar
    · cases hmem
  | cons step _ ih =>
    obtain ⟨hstep, hrest⟩ := forall_mem_cons.mp hsteps
    rw [guardJsonValue_cons]
    apply ih hrest
    rcases hscalar with hscalar | ⟨first, hmem, hpath⟩
    · exact .inl (guardJsonPath_scalar runtime hscalar step.path hstep)
    · rcases mem_cons.mp hmem with rfl | hlater
      · rw [hpath]
        exact .inl (guardScalar_scalar runtime hstep value)
      · exact .inr ⟨first, hlater, hpath⟩

theorem not_masked_object {value guarded : JsonValue} (hobj : guarded.isObject = true) :
    ¬ Masked runtime policy fields value guarded := by
  rintro ⟨steps, hsteps, hwhole, rfl⟩
  have hscalar := guardJsonValue_scalar runtime policy
    (fun step hstep => (hsteps step hstep).1) (.inr hwhole : value.isScalar = true ∨ _)
  cases hguarded : guardJsonValue runtime policy value steps with
  | object => rw [hguarded] at hscalar; cases hscalar
  | _ => rw [hguarded] at hobj; cases hobj

/-- Guarding only inside of a value changes it only if it is an object, and
leaves it one. -/
theorem guardJsonValue_inside (hsteps : ¬ ∃ step ∈ steps, step.path = []) (value : JsonValue) :
    (value.isObject = true ∧ (guardJsonValue runtime policy value steps).isObject = true) ∨
      guardJsonValue runtime policy value steps = value := by
  induction steps generalizing value with
  | nil => exact .inr rfl
  | cons step steps ih =>
    have hrest : ¬ ∃ step ∈ steps, step.path = [] :=
      fun ⟨later, hmem, hpath⟩ => hsteps ⟨later, .tail _ hmem, hpath⟩
    rw [guardJsonValue_cons]
    cases hpath : step.path with
    | nil => exact absurd ⟨step, .head _, hpath⟩ hsteps
    | cons key path =>
      rcases guardJsonPath_inside runtime policy step.field value key path with
        ⟨hobj, hstays⟩ | hsame
      · rcases ih hrest (guardJsonPath runtime policy value (key :: path) step.field) with
          ⟨_, hlast⟩ | hlast
        · exact .inl ⟨hobj, hlast⟩
        · rw [hlast]
          exact .inl ⟨hobj, hstays⟩
      · rw [hsame]
        exact ih hrest value

end

/-- After guarding there is nothing at the position, or a replacement for what
was there. -/
def Protected (value : JsonValue) (position : List Step) (found : JsonValue) : Prop :=
  ∀ guarded, (guardJsonValue runtime policy value fields).at? position = some guarded →
    Masked runtime policy fields found guarded

/-- A position is protected if and only if a descriptor covers it, or what
stands there is its own replacement. -/
theorem protected_iff {value found : JsonValue} {position : List Step}
    (hat : value.at? position = some found) :
    Protected runtime policy fields value position found ↔
      Covered policy fields position ∨ Masked runtime policy fields found found := by
  rcases guardJsonValue_at runtime policy fields (Subset.refl fields) hat with
    ⟨hcovered, hnone⟩ | ⟨steps, hsteps, hcovered, hsome⟩
  · refine ⟨fun _ => .inl hcovered, ?_⟩
    intro _ guarded hguarded
    rw [hnone] at hguarded
    cases hguarded
  · unfold Protected
    rw [hsome]
    by_cases hwhole : ∃ step ∈ steps, step.path = []
    · refine ⟨fun _ => .inl (hcovered.mpr hwhole), ?_⟩
      rintro _ guarded hguarded
      cases hguarded
      exact ⟨steps, hsteps, hwhole, rfl⟩
    · have huncovered : ¬ Covered policy fields position := fun h => hwhole (hcovered.mp h)
      rw [or_iff_right huncovered]
      rcases guardJsonValue_inside runtime policy hwhole found with ⟨hobj, hstays⟩ | hsame
      · constructor
        · intro hprot
          exact absurd (hprot _ rfl) (not_masked_object runtime policy fields hstays)
        · intro hmasked
          exact absurd hmasked (not_masked_object runtime policy fields hobj)
      · rw [hsame]
        simp

end Run

end Spakky.Agent
