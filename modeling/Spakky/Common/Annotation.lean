import Spakky.Heap

/-!
`Annotation` attaches metadata to classes. The metadata of a class is a
dictionary from annotation types to lists of annotations; it stands in an
attribute of the class, so a class without the attribute shows the dictionary
object of the first base that has it.

Applying an annotation updates the dictionary object that the attribute lookup
finds and stores that object on the class. The results here say which other
classes see the update.
-/

namespace Spakky.Common

open Function

/-- The classes `κ` with the order in which an attribute of one is looked up,
and the types `τ` of the annotations `α`. -/
structure Hierarchy (κ α τ : Type) where
  /-- The method resolution order without the class itself. -/
  bases : κ → List κ
  /-- The resolution order of the class's metaclass, where an attribute that
  no base has is looked up last. -/
  metaclass : κ → List κ
  /-- `type(annotation).mro()` -/
  typeMro : α → List τ

namespace Hierarchy

variable {κ α τ : Type}

def mro (hierarchy : Hierarchy κ α τ) (cls : κ) : List κ := cls :: hierarchy.bases cls

/-- `cls` is `base` or derived from it. -/
def DerivedFrom (hierarchy : Hierarchy κ α τ) (cls base : κ) : Prop := base ∈ hierarchy.mro cls

instance [DecidableEq κ] (hierarchy : Hierarchy κ α τ) (cls base : κ) :
    Decidable (hierarchy.DerivedFrom cls base) :=
  inferInstanceAs (Decidable (base ∈ hierarchy.mro cls))

end Hierarchy

/-- `dict[type, list[Self]]` -/
abbrev Metadata (α τ : Type) : Type := τ → Option (List α)

/-- What `__set_metadata` does to the dictionary for one type of the
annotation's resolution order. -/
def Metadata.append {α τ : Type} [DecidableEq τ] (metadata : Metadata α τ) (logged : α)
    (type : τ) : Metadata α τ :=
  update metadata type (some ((metadata type).getD [] ++ [logged]))

def Metadata.appendAll {α τ : Type} [DecidableEq τ] (metadata : Metadata α τ) (logged : α)
    (types : List τ) : Metadata α τ :=
  types.foldl (fun current type => current.append logged type) metadata

inductive AnnotationError where
  | notFound
  | multipleFound
  deriving DecidableEq, Repr

/-- The classes with their own `__spakky_annotation_metadata__` attributes. Each
holds a reference to a dictionary object. -/
structure Classes (κ α τ : Type) where
  own : κ → Option Nat
  dicts : Heap (Metadata α τ)
  own_allocated : ∀ cls ref, own cls = some ref → ref < dicts.fresh

namespace Classes

variable {κ α τ : Type}

/-- No class is annotated. -/
def plain : Classes κ α τ where
  own := fun _ => none
  dicts := Heap.empty
  own_allocated := by intro cls ref hown; cases hown

variable (hierarchy : Hierarchy κ α τ) (classes : Classes κ α τ)

/-- `getattr(obj, ANNOTATION_METADATA, ...)`: the object that is found. -/
def lookup (cls : κ) : Option Nat :=
  (hierarchy.mro cls ++ hierarchy.metaclass cls).findSome? classes.own

theorem lookup_allocated {hierarchy : Hierarchy κ α τ} {classes : Classes κ α τ} {cls : κ}
    {ref : Nat} (hlook : classes.lookup hierarchy cls = some ref) : ref < classes.dicts.fresh := by
  obtain ⟨holder, -, hown⟩ := List.exists_of_findSome?_eq_some hlook
  exact classes.own_allocated holder ref hown

/-- `__get_metadata`: a class without metadata shows an empty dictionary of its
own. -/
def getMetadata (cls : κ) : Metadata α τ :=
  match classes.lookup hierarchy cls with
  | some ref => (classes.dicts.read ref).getD fun _ => none
  | none => fun _ => none

section Queries

variable (hierarchy : Hierarchy κ α τ) (classes : Classes κ α τ) (type : τ) (cls : κ)

def all : List α := (classes.getMetadata hierarchy cls type).getD []

/-- The common part of `get`, `get_or_none` and `get_or_default` once the type
is in the dictionary; its list is never empty. -/
def single (annotations : List α) : Except AnnotationError α :=
  match annotations with
  | [logged] => .ok logged
  | [] => .error .notFound
  | _ => .error .multipleFound

def get : Except AnnotationError α :=
  match classes.getMetadata hierarchy cls type with
  | none => .error .notFound
  | some annotations => single annotations

def getOrNone : Except AnnotationError (Option α) :=
  match classes.getMetadata hierarchy cls type with
  | none => .ok none
  | some annotations => (single annotations).map some

def getOrDefault (default : α) : Except AnnotationError α :=
  match classes.getMetadata hierarchy cls type with
  | none => .ok default
  | some annotations => single annotations

/-- `exists` -/
def hasAny : Bool := (classes.getMetadata hierarchy cls type).isSome

end Queries

section Annotating

variable [DecidableEq κ] [DecidableEq τ] (hierarchy : Hierarchy κ α τ) (classes : Classes κ α τ)

/-- `__set_metadata`: the dictionary that the lookup finds is updated in place,
whichever class holds it, and is then stored on the class. -/
def annotate (cls : κ) (logged : α) : Classes κ α τ :=
  match hfound : classes.lookup hierarchy cls with
  | some ref =>
    { own := update classes.own cls (some ref)
      dicts := classes.dicts.update ref fun metadata =>
        metadata.appendAll logged (hierarchy.typeMro logged)
      own_allocated := by
        intro other held hown
        rw [Heap.fresh_update]
        by_cases hother : other = cls
        · subst hother
          rw [update_self] at hown
          cases hown
          exact lookup_allocated hfound
        · rw [update_of_ne hother] at hown
          exact classes.own_allocated other held hown }
  | none =>
    { own := update classes.own cls (some classes.dicts.fresh)
      dicts := classes.dicts.alloc
        (Metadata.appendAll (fun _ => none) logged (hierarchy.typeMro logged))
      own_allocated := by
        intro other held hown
        rw [Heap.fresh_alloc]
        by_cases hother : other = cls
        · subst hother
          rw [update_self] at hown
          cases hown
          exact Nat.lt_succ_self _
        · rw [update_of_ne hother] at hown
          exact Nat.lt_succ_of_lt (classes.own_allocated other held hown) }

/-- Applications of annotations to classes, one after the other. -/
def annotateAll (applications : List (κ × α)) : Classes κ α τ :=
  applications.foldl (fun current application =>
    current.annotate hierarchy application.1 application.2) classes

/-- Every query about the class has the same answer in both states. -/
structure SameAnnotations (hierarchy : Hierarchy κ α τ) (before after : Classes κ α τ)
    (cls : κ) : Prop where
  all : ∀ type, before.all hierarchy type cls = after.all hierarchy type cls
  get : ∀ type, before.get hierarchy type cls = after.get hierarchy type cls
  getOrNone : ∀ type, before.getOrNone hierarchy type cls = after.getOrNone hierarchy type cls
  getOrDefault : ∀ type default, before.getOrDefault hierarchy type cls default =
    after.getOrDefault hierarchy type cls default
  hasAny : ∀ type, before.hasAny hierarchy type cls = after.hasAny hierarchy type cls

variable {hierarchy : Hierarchy κ α τ} {classes : Classes κ α τ}

omit [DecidableEq κ] [DecidableEq τ] in
theorem SameAnnotations.of_getMetadata {before after : Classes κ α τ} {cls : κ}
    (hsame : before.getMetadata hierarchy cls = after.getMetadata hierarchy cls) :
    SameAnnotations hierarchy before after cls where
  all := by intro type; unfold Classes.all; rw [hsame]
  get := by intro type; unfold Classes.get; rw [hsame]
  getOrNone := by intro type; unfold Classes.getOrNone; rw [hsame]
  getOrDefault := by intro type default; unfold Classes.getOrDefault; rw [hsame]
  hasAny := by intro type; unfold Classes.hasAny; rw [hsame]

omit [DecidableEq κ] [DecidableEq τ] in
theorem SameAnnotations.trans {first second third : Classes κ α τ} {cls : κ}
    (hleft : SameAnnotations hierarchy first second cls)
    (hright : SameAnnotations hierarchy second third cls) :
    SameAnnotations hierarchy first third cls where
  all := fun type => (hleft.all type).trans (hright.all type)
  get := fun type => (hleft.get type).trans (hright.get type)
  getOrNone := fun type => (hleft.getOrNone type).trans (hright.getOrNone type)
  getOrDefault := fun type default =>
    (hleft.getOrDefault type default).trans (hright.getOrDefault type default)
  hasAny := fun type => (hleft.hasAny type).trans (hright.hasAny type)

theorem annotate_own_of_ne {cls other : κ} (hne : other ≠ cls) (logged : α) :
    (classes.annotate hierarchy cls logged).own other = classes.own other := by
  unfold annotate
  split
  · exact update_of_ne hne _ _
  · exact update_of_ne hne _ _

/-- A class whose attribute lookup does not pass the annotated class finds what
it found before. -/
theorem annotate_lookup_of_not_mem {cls other : κ} (hbases : cls ∉ hierarchy.mro other)
    (hmeta : cls ∉ hierarchy.metaclass other) (logged : α) :
    (classes.annotate hierarchy cls logged).lookup hierarchy other =
      classes.lookup hierarchy other := by
  unfold lookup
  have howns : ∀ holder ∈ hierarchy.mro other ++ hierarchy.metaclass other,
      (classes.annotate hierarchy cls logged).own holder = classes.own holder := by
    intro holder hholder
    apply annotate_own_of_ne
    rintro rfl
    exact (List.mem_append.mp hholder).elim hbases hmeta
  generalize hierarchy.mro other ++ hierarchy.metaclass other = holders at howns
  induction holders with
  | nil => rfl
  | cons holder _ ih =>
    rw [List.findSome?_cons, List.findSome?_cons, howns holder (.head _),
      ih fun next hnext => howns next (.tail _ hnext)]

/-- The only dictionary object that an application changes is the one that the
annotated class found. -/
theorem annotate_read {cls : κ} {ref : Nat} (halloc : ref < classes.dicts.fresh)
    (hother : classes.lookup hierarchy cls ≠ some ref) (logged : α) :
    (classes.annotate hierarchy cls logged).dicts.read ref = classes.dicts.read ref := by
  unfold annotate
  split
  next found hfound =>
    apply Heap.read_update_of_ne
    rintro rfl
    exact hother hfound
  next => exact Heap.read_alloc_of_lt _ _ halloc

/-- No class that is not derived from `cls` shows the dictionary object that
`cls` shows, and none has `cls` as its metaclass. -/
structure Isolated (hierarchy : Hierarchy κ α τ) (classes : Classes κ α τ) (cls : κ) : Prop where
  unshared : ∀ other, ¬ hierarchy.DerivedFrom other cls → ∀ ref,
    classes.lookup hierarchy cls = some ref → classes.lookup hierarchy other ≠ some ref
  not_metaclass : ∀ other, ¬ hierarchy.DerivedFrom other cls → cls ∉ hierarchy.metaclass other

theorem annotate_getMetadata {cls other : κ} (hisol : Isolated hierarchy classes cls)
    (hother : ¬ hierarchy.DerivedFrom other cls) (logged : α) :
    classes.getMetadata hierarchy other =
      (classes.annotate hierarchy cls logged).getMetadata hierarchy other := by
  unfold getMetadata
  rw [annotate_lookup_of_not_mem hother (hisol.not_metaclass other hother)]
  cases hlook : classes.lookup hierarchy other with
  | none => rfl
  | some ref =>
    have hunshared : classes.lookup hierarchy cls ≠ some ref := fun hfound =>
      hisol.unshared other hother ref hfound hlook
    simp only [annotate_read (lookup_allocated hlook) hunshared logged]

/-- A whole run leaves the classes alone that are not derived from any class it
annotates. -/
theorem annotateAll_frame (applications : List (κ × α)) (classes : Classes κ α τ)
    (hisol : ∀ before cls logged after, applications = before ++ (cls, logged) :: after →
      Isolated hierarchy (classes.annotateAll hierarchy before) cls) (other : κ)
    (hother : ∀ application ∈ applications, ¬ hierarchy.DerivedFrom other application.1) :
    SameAnnotations hierarchy classes (classes.annotateAll hierarchy applications) other := by
  induction applications generalizing classes with
  | nil => exact .of_getMetadata rfl
  | cons application rest ih =>
    obtain ⟨cls, logged⟩ := application
    have hfirst : SameAnnotations hierarchy classes (classes.annotate hierarchy cls logged)
        other :=
      .of_getMetadata (annotate_getMetadata (hisol [] cls logged rest rfl)
        (hother (cls, logged) (.head _)) logged)
    refine hfirst.trans (ih (classes.annotate hierarchy cls logged) ?_ ?_)
    · intro before next following after hrest
      exact hisol ((cls, logged) :: before) next following after (by rw [hrest]; rfl)
    · intro next hnext
      exact hother next (.tail _ hnext)

/-- In every run whose applications go to isolated classes, each application
changes the annotations of the annotated class and of classes derived from it
at most, and the run as a whole those of the classes derived from an annotated
one. -/
theorem annotations_of_others_kept (hierarchy : Hierarchy κ α τ) (classes : Classes κ α τ)
    (applications : List (κ × α))
    (hisolated : ∀ before cls logged after, applications = before ++ (cls, logged) :: after →
      Isolated hierarchy (classes.annotateAll hierarchy before) cls) :
    (∀ before cls logged after, applications = before ++ (cls, logged) :: after →
      ∀ other, ¬ hierarchy.DerivedFrom other cls →
        SameAnnotations hierarchy (classes.annotateAll hierarchy before)
          (classes.annotateAll hierarchy (before ++ [(cls, logged)])) other) ∧
    ∀ other, (∀ application ∈ applications, ¬ hierarchy.DerivedFrom other application.1) →
      SameAnnotations hierarchy classes (classes.annotateAll hierarchy applications) other := by
  refine ⟨?_, annotateAll_frame applications classes hisolated⟩
  intro before cls logged after happlications other hother
  have hstep : classes.annotateAll hierarchy (before ++ [(cls, logged)]) =
      (classes.annotateAll hierarchy before).annotate hierarchy cls logged := by
    unfold annotateAll
    rw [List.foldl_append]
    rfl
  rw [hstep]
  exact .of_getMetadata (annotate_getMetadata
    (hisolated before cls logged after happlications) hother logged)

/-- A class with two derived classes. -/
inductive SampleClass where
  | repository
  | userRepository
  | orderRepository
  deriving DecidableEq, Repr

/-- The annotations of the example, each of a type of its own that is derived
from `Annotation`. -/
inductive SampleAnnotation where
  | pod
  | requireAdmin
  deriving DecidableEq, Repr

inductive SampleType where
  | root
  | pod
  | protectedRequirement
  deriving DecidableEq, Repr

def sampleHierarchy : Hierarchy SampleClass SampleAnnotation SampleType where
  bases
    | .repository => []
    | .userRepository => [.repository]
    | .orderRepository => [.repository]
  metaclass _ := []
  typeMro
    | .pod => [.pod, .root]
    | .requireAdmin => [.protectedRequirement, .root]

def annotated (applications : List (SampleClass × SampleAnnotation)) :
    Classes SampleClass SampleAnnotation SampleType :=
  plain.annotateAll sampleHierarchy applications

/-- Two derived classes of a base without annotations may be annotated one
after the other. -/
theorem siblings_isolated (before : List (SampleClass × SampleAnnotation))
    (cls : SampleClass) (logged : SampleAnnotation) (after : List (SampleClass × SampleAnnotation))
    (happlications : [(SampleClass.userRepository, SampleAnnotation.pod),
      (.orderRepository, .requireAdmin)] = before ++ (cls, logged) :: after) :
    Isolated sampleHierarchy (plain.annotateAll sampleHierarchy before) cls := by
  have hcases : (before = [] ∧ cls = .userRepository) ∨
      (before = [(.userRepository, .pod)] ∧ cls = .orderRepository) := by
    rcases before with _ | ⟨_, _ | ⟨_, _⟩⟩
    · simp_all
    · simp_all
    · simp at happlications
  constructor
  · intro other hother ref hfound
    rcases hcases with ⟨rfl, rfl⟩ | ⟨rfl, rfl⟩
    · cases hfound
    · cases hfound
  · intro other hother hmeta
    cases hmeta

theorem annotations_of_others_kept_siblings :
    (annotated [(.userRepository, .pod), (.orderRepository, .requireAdmin)]).all sampleHierarchy
        .protectedRequirement .userRepository =
      (annotated [(.userRepository, .pod)]).all sampleHierarchy .protectedRequirement
        .userRepository :=
  (((annotations_of_others_kept sampleHierarchy plain _ siblings_isolated).1
    [(.userRepository, .pod)] .orderRepository .requireAdmin [] rfl .userRepository
      (by decide)).all .protectedRequirement).symm

/-- A requirement on a derived class becomes a requirement of its base and,
through the base, of the other derived class; a second `Pod` makes `get` raise
on the base. -/
theorem requirement_reaches_base :
    ¬ sampleHierarchy.DerivedFrom .repository .userRepository ∧
    (annotated [(.repository, .pod)]).all sampleHierarchy .protectedRequirement .repository = [] ∧
    (annotated [(.repository, .pod), (.userRepository, .requireAdmin)]).all sampleHierarchy
      .protectedRequirement .repository = [.requireAdmin] ∧
    (annotated [(.repository, .pod), (.userRepository, .requireAdmin)]).all sampleHierarchy
      .protectedRequirement .orderRepository = [.requireAdmin] ∧
    (annotated [(.repository, .pod), (.userRepository, .pod)]).get sampleHierarchy .pod
      .repository = .error .multipleFound := by
  refine ⟨by decide, rfl, rfl, rfl, rfl⟩

end Annotating

end Classes

end Spakky.Common
