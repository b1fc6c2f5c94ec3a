import Spakky.Agent.Guarding

/-!
What guarding leaves alone. A position that is neither at the path of a hidden
value nor below one should keep what stands there.

Every level of `_guard_json_path` drops its own key, so that a dropped value
takes the whole member of the root object with it.
-/

namespace Spakky.Agent

open List JsonValue

section Framing

variable (runtime : Runtime) (policy : ExposurePolicy) (fields : List SensitiveFieldDescriptor)
  (value : JsonValue)

/-- The position is neither at nor below the path of a hidden value. -/
def Outside (position : List Step) : Prop :=
  ∀ descriptor ∈ fields, policy.canExposeValue descriptor.field = false →
    ¬ descriptor.path.map .key <+: position

/-- Nothing changes outside of the guarded paths. An object stays an object
there, and its members are positions of their own. -/
def Framed : Prop :=
  ∀ position, Outside policy fields position →
    match value.at? position with
    | none => (guardJsonValue runtime policy value fields).at? position = none
    | some found => ∃ kept, (guardJsonValue runtime policy value fields).at? position = some kept ∧
        ((found.isObject = true ∧ kept.isObject = true) ∨ kept = found)

/-- The descriptor drops a hidden value, and the first key of its path is there. -/
def Drops (descriptor : SensitiveFieldDescriptor) (key : String) : Prop :=
  policy.canExposeValue descriptor.field = false ∧ descriptor.field.redaction = .drop ∧
    descriptor.path.head? = some key ∧ (value.at? [.key key]).isSome

variable {policy fields value} {descriptor : SensitiveFieldDescriptor} {key : String}

theorem guardJsonPath_dropped (hdrops : Drops policy value descriptor key) (other : JsonValue) :
    (guardJsonPath runtime policy other descriptor.path descriptor.field).at? [.key key] =
      none := by
  obtain ⟨hhidden, hdrop, hhead, -⟩ := hdrops
  obtain ⟨path, hpath⟩ := head?_eq_some_iff.mp hhead
  rw [hpath]
  cases other with
  | object entries =>
    rw [guardJsonPath]
    cases hfound : entries.lookup key with
    | none => simp [at?_object, hfound]
    | some => simp [hdrop, hhidden, at?_object, lookup_popEntry_self]
  | _ => simp [guardJsonPath, at?]

theorem guardJsonValue_dropped (hmem : descriptor ∈ fields)
    (hdrops : Drops policy value descriptor key) :
    (guardJsonValue runtime policy value fields).at? [.key key] = none := by
  obtain ⟨before, after, rfl⟩ := append_of_mem hmem
  rw [guardJsonValue, foldl_append]
  exact guardJsonValue_absent runtime policy after (guardJsonPath_dropped runtime hdrops _)

theorem isSome_at?_head {position : List Step} {found : JsonValue}
    (hat : value.at? (.key key :: position) = some found) : (value.at? [.key key]).isSome := by
  rcases at?_step hat with ⟨entries, key', child, rfl, ⟨⟩, hfound, -⟩ | ⟨_, _, _, ⟨⟩⟩
  simp [at?_object, hfound, at?_nil]

/-- An outside position is covered only by a descriptor that drops its first key. -/
theorem not_covered {position : List Step} {found : JsonValue}
    (hspared : ∀ descriptor ∈ fields, ∀ key, Drops policy value descriptor key →
      ¬ Outside policy fields [.key key])
    (hout : Outside policy fields position) (hat : value.at? position = some found) :
    ¬ Covered policy fields position := by
  rintro ⟨descriptor, hmem, hhidden, hpath | ⟨hdrop, key, path, rest, hpath, rfl⟩⟩
  · exact hout descriptor hmem hhidden hpath
  · have hdrops : Drops policy value descriptor key :=
      ⟨hhidden, hdrop, by rw [hpath]; rfl, isSome_at?_head hat⟩
    apply hspared descriptor hmem key hdrops
    intro other hother hhides hleads
    exact hout other hother hhides (hleads.trans ⟨rest, rfl⟩)

end Framing

/-- Nothing changes outside of the guarded paths if and only if every key that
is dropped is at or below such a path itself. -/
theorem guarding_frames_iff (runtime : Runtime) (policy : ExposurePolicy)
    (fields : List SensitiveFieldDescriptor) (value : JsonValue) :
    Framed runtime policy fields value ↔ ∀ descriptor ∈ fields, ∀ key,
      Drops policy value descriptor key → ¬ Outside policy fields [.key key] := by
  constructor
  · intro hframed descriptor hmem key hdrops hout
    have hkept := hframed [.key key] hout
    obtain ⟨found, hfound⟩ := Option.isSome_iff_exists.mp hdrops.2.2.2
    rw [hfound, guardJsonValue_dropped runtime hmem hdrops] at hkept
    obtain ⟨_, ⟨⟩, _⟩ := hkept
  · intro hspared position hout
    cases hat : value.at? position with
    | none => exact guardJsonValue_absent runtime policy fields hat
    | some found =>
      have huncovered := not_covered hspared hout hat
      rcases guardJsonValue_at runtime policy fields (Subset.refl fields) hat with
        ⟨hcovered, -⟩ | ⟨steps, -, hcovered, hsome⟩
      · exact absurd hcovered huncovered
      · exact ⟨_, hsome, guardJsonValue_inside runtime policy (huncovered ∘ hcovered.mpr) found⟩

end Spakky.Agent
