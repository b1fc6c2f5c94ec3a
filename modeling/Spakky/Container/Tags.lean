import Mathlib.Data.List.Induction
import Mathlib.Data.List.Nodup

/-!
The tags of an `ApplicationContext`. They are kept in one set, of whichever
class they are, and `Tag.__eq__` and `Tag.__hash__` compare what `astuple` makes
of the fields, but not the classes.
-/

namespace Spakky.Container

open List

/-- An instance of a subclass of `Tag`. -/
structure Tag (κ φ : Type) where
  type_ : κ
  fields : φ
  deriving DecidableEq, Repr

variable {κ φ τ : Type} [DecidableEq κ] [DecidableEq τ] (astuple : φ → τ) (bases : κ → List κ)

def Tag.isInstance (tag : Tag κ φ) (class_ : κ) : Bool :=
  tag.type_ == class_ || (bases tag.type_).contains class_

def containsTag (tags : List (Tag κ φ)) (tag : Tag κ φ) : Bool :=
  tags.any fun other => astuple other.fields == astuple tag.fields

def registerTag (tags : List (Tag κ φ)) (tag : Tag κ φ) : List (Tag κ φ) :=
  if containsTag astuple tags tag then tags else tags ++ [tag]

def listTags (tags : List (Tag κ φ)) (selector : Tag κ φ → Bool) : List (Tag κ φ) :=
  tags.filter selector

/-- No tag is lost, and none is found that was not registered. -/
def TagsKept (registered : List (Tag κ φ)) (queried : Tag κ φ) : Prop :=
  let tags := registered.foldl (registerTag astuple) []
  (∀ class_, ∀ tag ∈ registered, tag.isInstance bases class_ = true →
    tag ∈ listTags tags (·.isInstance bases class_)) ∧
  (containsTag astuple tags queried = true → queried ∈ registered)

omit [DecidableEq κ] in
variable {astuple} in
theorem containsTag_iff {tags : List (Tag κ φ)} {tag : Tag κ φ} :
    containsTag astuple tags tag = true ↔
      ∃ other ∈ tags, astuple other.fields = astuple tag.fields := by
  simp [containsTag]

omit [DecidableEq κ] in
/-- Of the tags that are equal to each other the set holds the first one. -/
theorem registerTag_foldl (registered : List (Tag κ φ)) :
    let tags := registered.foldl (registerTag astuple) []
    tags ⊆ registered ∧ (∀ tag ∈ registered, containsTag astuple tags tag = true) ∧
      (tags.map fun tag => astuple tag.fields).Nodup := by
  induction registered using List.reverseRecOn with
  | nil => simp
  | append_singleton _ _ ih =>
    obtain ⟨hsub, hall, hnodup⟩ := ih
    rw [foldl_append, foldl_cons, foldl_nil, registerTag]
    split
    next hfound =>
      exact ⟨subset_append_of_subset_left _ hsub,
        forall_mem_append.mpr ⟨hall, forall_mem_singleton.mpr hfound⟩, hnodup⟩
    next hnew =>
      rw [containsTag_iff] at hnew
      refine ⟨append_subset.mpr ⟨subset_append_of_subset_left _ hsub, subset_append_right _ _⟩,
        ?_, ?_⟩
      · intro other hother
        rcases mem_append.mp hother with hold | hlast
        · obtain ⟨found, hfound, hsame⟩ := containsTag_iff.mp (hall other hold)
          exact containsTag_iff.mpr ⟨found, mem_append_left _ hfound, hsame⟩
        · exact containsTag_iff.mpr ⟨other, mem_append_right _ hlast, rfl⟩
      · rw [map_append, map_singleton, nodup_append_comm]
        refine nodup_cons.mpr ⟨fun hmem => hnew ?_, hnodup⟩
        exact mem_map.mp hmem

/-- Tags are kept exactly where no two of the registered tags and the queried one
differ though `astuple` makes the same of their fields. -/
theorem tags_kept_iff (registered : List (Tag κ φ)) (queried : Tag κ φ) :
    TagsKept astuple bases registered queried ↔
      ∀ tag ∈ registered, ∀ other ∈ queried :: registered,
        astuple tag.fields = astuple other.fields → tag = other := by
  obtain ⟨hsub, hall, hnodup⟩ := registerTag_foldl astuple registered
  constructor
  · rintro ⟨hlist, hcontains⟩ tag htag other hother hsame
    have hkept : ∀ tag ∈ registered, tag ∈ registered.foldl (registerTag astuple) [] := by
      intro tag htag
      exact (mem_filter.mp (hlist tag.type_ tag htag (by simp [Tag.isInstance]))).1
    have hmem : other ∈ registered := by
      rcases mem_cons.mp hother with rfl | hmem
      · exact hcontains (containsTag_iff.mpr ⟨tag, hkept tag htag, hsame⟩)
      · exact hmem
    exact inj_on_of_nodup_map hnodup (hkept tag htag) (hkept other hmem) hsame
  · intro hinj
    constructor
    · intro class_ tag htag hinst
      obtain ⟨other, hother, hsame⟩ := containsTag_iff.mp (hall tag htag)
      obtain rfl := hinj other (hsub hother) tag (.tail _ htag) hsame
      exact mem_filter.mpr ⟨hother, hinst⟩
    · intro hfound
      obtain ⟨other, hother, hsame⟩ := containsTag_iff.mp hfound
      obtain rfl := hinj other (hsub hother) queried (.head _) hsame
      exact hsub hother

/-- Of two tags without fields the second one is lost, and it is found before it
is registered. -/
theorem audited_tag_lost :
    let cached : Tag String (List Nat) := ⟨"Cached", []⟩
    let audited : Tag String (List Nat) := ⟨"Audited", []⟩
    let tags := [cached, audited].foldl (registerTag id) []
    listTags tags (·.isInstance (fun _ => ["Tag"]) "Audited") = [] ∧
      containsTag id (registerTag id [] cached) audited = true ∧
      ¬ TagsKept id (fun _ => ["Tag"]) [cached, audited] audited := by
  refine ⟨by decide, by decide, fun hkept => ?_⟩
  exact absurd (hkept.1 "Audited" ⟨"Audited", []⟩ (by decide) (by decide)) (by decide)

end Spakky.Container
