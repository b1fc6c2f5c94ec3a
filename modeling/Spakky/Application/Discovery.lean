import Mathlib.Data.List.Dedup
import Mathlib.Data.List.Sort

/-!
`SpakkyApplication.scan` with and without a discovery manifest. A scan without
one registers the Pods and Tags that the scanned modules show. A scan with one
keeps the module and the qualified name of each, and on a hit looks the
objects up again.

Modules define the same objects on every import, so a `World` does not change
between scans. `none` is an `ImportError`.
-/

namespace Spakky.Application

open List

structure World (κ ρ τ φ : Type) where
  dunderModule : κ → String
  qualname : κ → String
  pod : κ → Option ρ
  tag : κ → Option τ
  /-- The classes and functions among the members of a module. -/
  members : String → Option (List κ)
  /-- What `walk_packages` finds below a package. -/
  submodules : String → Option (List String)
  /-- Paths, times and sizes of the source files of a module. -/
  sources : String → φ
  pythonVersion : String
  fnmatch : String → String → Bool

structure DiscoveryManifestCandidate where
  moduleName : String
  qualname : String
  deriving DecidableEq

structure DiscoveryManifestFingerprint (φ : Type) where
  schemaVersion : Nat
  pythonVersion : String
  moduleName : String
  isPackage : Bool
  exclude : List String
  sources : φ
  deriving DecidableEq

structure DiscoveryManifest (φ : Type) where
  fingerprint : DiscoveryManifestFingerprint φ
  moduleNames : List String
  candidates : List DiscoveryManifestCandidate

inductive DiscoveryManifestDecision where
  | miss
  | hit
  | staleSchema
  | staleInput
  deriving DecidableEq, Repr

structure Scan (κ φ : Type) where
  decision : Option DiscoveryManifestDecision := none
  objects : List κ
  saved : Option (DiscoveryManifest φ) := none

/-- `DiscoveryManifestStore.load`; a file that is missing or malformed has no
content. -/
def load {φ : Type} [DecidableEq φ] (content : Option (DiscoveryManifest φ))
    (fingerprint : DiscoveryManifestFingerprint φ) :
    DiscoveryManifestDecision × Option (DiscoveryManifest φ) :=
  match content with
  | none => (.miss, none)
  | some manifest =>
    if manifest.fingerprint.schemaVersion ≠ 1 then (.staleSchema, none)
    else if manifest.fingerprint ≠ fingerprint then (.staleInput, none)
    else (.hit, some manifest)

namespace World

variable {κ ρ τ φ : Type} [DecidableEq κ] (world : World κ ρ τ φ)

def isSubpathOf (name : String) (patterns : List String) : Bool :=
  patterns.any fun pattern =>
    name == pattern ||
      (pattern.toList.any (fun c => c == '*' || c == '?') && world.fnmatch name pattern) ||
      (pattern ++ ".").toList.isPrefixOf name.toList

def discoverModules (path : String) (exclude : List String) : Option (List String) :=
  match world.submodules path with
  | some names => some (names.filter fun name =>
      !world.isSubpathOf name exclude && (world.members name).isSome)
  | none => (world.members path).map fun _ => [path]

/-- `Pod.exists(x) or Tag.exists(x)`. -/
def discoverable (object : κ) : Bool := (world.pod object).isSome || (world.tag object).isSome

def listObjects (name : String) (selector : κ → Bool) : List κ :=
  (((world.members name).getD []).filter selector).dedup

def fromScanInput (path : String) (exclude : List String) : DiscoveryManifestFingerprint φ where
  schemaVersion := 1
  pythonVersion := world.pythonVersion
  moduleName := path
  isPackage := (world.submodules path).isSome
  exclude := exclude.insertionSort (· ≤ ·)
  sources := world.sources path

def fromObject (object : κ) : DiscoveryManifestCandidate :=
  ⟨world.dunderModule object, world.qualname object⟩

/-- The members of its module that match a candidate. -/
def found (candidate : DiscoveryManifestCandidate) : List κ :=
  world.listObjects candidate.moduleName fun object => world.fromObject object = candidate

def resolveManifestHit : List DiscoveryManifestCandidate → Option (Option (List κ))
  | [] => some (some [])
  | candidate :: rest => do
      let _ ← world.members candidate.moduleName
      match world.found candidate with
      | [object] => return (← resolveManifestHit rest).map (object :: ·)
      | _ => return none

/-- The objects a fresh discovery registers. -/
def discovered (modules : List String) : List κ :=
  modules.flatMap fun name => world.listObjects name world.discoverable

/-- A fresh discovery, and the manifest it saves. -/
def rediscover (decision : DiscoveryManifestDecision) (path : String) (exclude : List String) :
    Option (Scan κ φ) := do
  let modules ← world.discoverModules path exclude
  let candidates := (world.discovered modules).map world.fromObject
  return {
    decision := some decision
    objects := world.discovered modules
    saved := some {
      fingerprint := world.fromScanInput path exclude
      moduleNames := modules.insertionSort (· ≤ ·)
      candidates := candidates.insertionSort fun a b =>
        a.moduleName < b.moduleName ∨ a.moduleName = b.moduleName ∧ a.qualname ≤ b.qualname } }

/-- `scan`; the manifest file has a content once a path for it is set. -/
def scan [DecidableEq φ] (file : Option (Option (DiscoveryManifest φ))) (path : String)
    (exclude : List String) : Option (Scan κ φ) := do
  match file with
  | none => return { objects := world.discovered (← world.discoverModules path exclude) }
  | some content =>
    let _ ← world.members path
    match load content (world.fromScanInput path exclude) with
    | (decision, none) => world.rediscover decision path exclude
    | (_, some manifest) =>
      match ← world.resolveManifestHit manifest.candidates with
      | none => world.rediscover .staleInput path exclude
      | some objects =>
        let _ ← manifest.moduleNames.mapM world.members
        return { decision := some .hit, objects }

/-- `_register_discovered_object` registers the Pod and the Tag of each object.
Whether two of the Pods clash does not depend on their order. -/
def pods (scan : Scan κ φ) : List ρ := scan.objects.filterMap world.pod

def tags (scan : Scan κ φ) : List τ := scan.objects.filterMap world.tag

/-- The module that an object says it is from shows it. -/
def Shown (object : κ) : Prop :=
  ∃ shown, world.members (world.dunderModule object) = some shown ∧ object ∈ shown

/-- Every Pod or Tag that a scanned module shows is shown by its own module. -/
def Homed (path : String) (exclude : List String) : Prop :=
  ∀ modules, world.discoverModules path exclude = some modules →
    ∀ name ∈ modules, ∀ object ∈ world.listObjects name world.discoverable, world.Shown object

variable {world}

theorem mem_found {candidate : DiscoveryManifestCandidate} {object : κ} :
    object ∈ world.found candidate ↔ world.fromObject object = candidate ∧ world.Shown object := by
  simp only [found, listObjects, mem_dedup, mem_filter, decide_eq_true_eq, Shown]
  rw [and_comm]
  refine and_congr_right ?_
  rintro rfl
  cases hmembers : world.members (world.dunderModule object) <;> simp [fromObject, hmembers]

omit [DecidableEq κ] in
theorem discoverModules_congr {path path' : String} {exclude exclude' : List String}
    (h : world.fromScanInput path exclude = world.fromScanInput path' exclude') :
    world.discoverModules path exclude = world.discoverModules path' exclude' := by
  simp only [fromScanInput, DiscoveryManifestFingerprint.mk.injEq] at h
  obtain ⟨_, _, rfl, _, hsorted, _⟩ := h
  have hperm : exclude.Perm exclude' := by
    have hright := perm_insertionSort (· ≤ ·) exclude'
    rw [← hsorted] at hright
    exact (perm_insertionSort (· ≤ ·) exclude).symm.trans hright
  have hsame : ∀ name, world.isSubpathOf name exclude = world.isSubpathOf name exclude' :=
    fun name => hperm.any_eq
  simp only [discoverModules, hsame]

/-- On a hit every candidate is found exactly once. -/
theorem resolveManifestHit_spec {candidates : List DiscoveryManifestCandidate} {objects : List κ}
    (h : world.resolveManifestHit candidates = some (some objects)) :
    candidates.map world.found = objects.map ([·]) := by
  induction candidates generalizing objects with
  | nil =>
    cases h
    rfl
  | cons _ _ ih =>
    obtain ⟨_, _, h⟩ := Option.bind_eq_some_iff.mp h
    split at h
    · rename_i object hfound
      obtain ⟨_, hothers, h⟩ := Option.bind_eq_some_iff.mp h
      obtain ⟨_, rfl, rfl⟩ := Option.map_eq_some_iff.mp (Option.some.inj h)
      rw [map_cons, map_cons, hfound, ih hothers]
    · cases h

/-- A hit registers the objects its candidates stand for, if and only if each
of them is shown by its own module. -/
theorem hit_objects_iff {objects recorded : List κ} (h : ∀ hit, hit ∈ objects.map ([·]) ↔
      ∃ object ∈ recorded, world.found (world.fromObject object) = hit)
    (hrecorded : ∀ object ∈ recorded, world.discoverable object = true) :
    (∀ object, object ∈ objects.filter world.discoverable ↔ object ∈ recorded) ↔
      ∀ object ∈ recorded, world.Shown object := by
  simp only [mem_filter]
  constructor
  · intro hsame object hmem
    obtain ⟨_, _, hother⟩ := (h [object]).mp (mem_map_of_mem ((hsame object).mpr hmem).1)
    exact (mem_found.mp (hother ▸ mem_singleton_self object)).2
  · intro hshown object
    have hself : ∀ object ∈ recorded, world.found (world.fromObject object) = [object] := by
      intro object hmem
      obtain ⟨_, _, hhit⟩ := mem_map.mp ((h _).mpr ⟨object, hmem, rfl⟩)
      have hfound := mem_found.mpr ⟨rfl, hshown object hmem⟩
      rw [← hhit] at hfound ⊢
      rw [mem_singleton.mp hfound]
    constructor
    · rintro ⟨hmem, _⟩
      obtain ⟨other, hother, hfound⟩ := (h [object]).mp (mem_map_of_mem hmem)
      rw [hself other hother] at hfound
      exact singleton_inj.mp hfound ▸ hother
    · intro hmem
      obtain ⟨_, hhit, heq⟩ := mem_map.mp ((h _).mpr ⟨object, hmem, hself object hmem⟩)
      exact ⟨singleton_inj.mp heq ▸ hhit, hrecorded object hmem⟩

variable [DecidableEq φ] {content : Option (DiscoveryManifest φ)} {manifest : DiscoveryManifest φ}
  {path : String} {exclude : List String} {result : Scan κ φ}

omit [DecidableEq φ] in
theorem rediscover_spec {decision : DiscoveryManifestDecision}
    (h : world.rediscover decision path exclude = some result) :
    result.decision = some decision ∧
      ∃ modules saved, world.discoverModules path exclude = some modules ∧
        result.saved = some saved ∧ saved.fingerprint = world.fromScanInput path exclude ∧
        saved.candidates.Perm ((world.discovered modules).map world.fromObject) := by
  obtain ⟨modules, hmodules, h⟩ := Option.bind_eq_some_iff.mp h
  cases h
  exact ⟨rfl, modules, _, hmodules, rfl, rfl, perm_insertionSort _ _⟩

/-- A scan with a manifest is a hit, which saves nothing, or a fresh discovery. -/
theorem scan_cases (h : world.scan (some content) path exclude = some result) :
    (∃ manifest, content = some manifest ∧
        manifest.fingerprint = world.fromScanInput path exclude ∧ result.saved = none ∧
        world.resolveManifestHit manifest.candidates = some (some result.objects)) ∨
      ∃ decision, decision ≠ .hit ∧ world.rediscover decision path exclude = some result := by
  obtain ⟨_, _, h⟩ := Option.bind_eq_some_iff.mp h
  cases content with
  | none => exact .inr ⟨_, by decide, h⟩
  | some manifest =>
    simp only [load] at h
    split_ifs at h with hschema hfingerprint
    · exact .inr ⟨_, by decide, h⟩
    · exact .inr ⟨_, by decide, h⟩
    · obtain ⟨_, hresolved, h⟩ := Option.bind_eq_some_iff.mp h
      split at h
      · exact .inr ⟨_, by decide, h⟩
      · obtain ⟨_, _, h⟩ := Option.bind_eq_some_iff.mp h
        cases h
        exact .inl ⟨manifest, rfl, not_not.mp hfingerprint, rfl, hresolved⟩

theorem scan_saved (h : world.scan (some content) path exclude = some result)
    (hsaved : result.saved = some manifest) :
    ∃ modules, world.discoverModules path exclude = some modules ∧
      manifest.fingerprint = world.fromScanInput path exclude ∧
      manifest.candidates.Perm ((world.discovered modules).map world.fromObject) := by
  rcases scan_cases h with ⟨_, _, _, hnone, _⟩ | ⟨_, _, hrun⟩
  · rw [hnone] at hsaved
    cases hsaved
  · obtain ⟨_, modules, _, hmodules, hsame, hspec⟩ := rediscover_spec hrun
    obtain rfl := Option.some.inj (hsaved.symm.trans hsame)
    exact ⟨modules, hmodules, hspec⟩

theorem scan_hit (h : world.scan (some (some manifest)) path exclude = some result)
    (hhit : result.decision = some .hit) :
    manifest.fingerprint = world.fromScanInput path exclude ∧
      world.resolveManifestHit manifest.candidates = some (some result.objects) := by
  rcases scan_cases h with ⟨_, hsame, hfingerprint, _, hresolved⟩ | ⟨_, hne, hrun⟩
  · cases hsame
    exact ⟨hfingerprint, hresolved⟩
  · exact absurd (Option.some.inj ((rediscover_spec hrun).1.symm.trans hhit)) hne

omit [DecidableEq φ] in
theorem discovered_discoverable {modules : List String} {object : κ}
    (hmem : object ∈ world.discovered modules) : world.discoverable object = true := by
  simp only [discovered, mem_flatMap, listObjects, mem_dedup, mem_filter] at hmem
  obtain ⟨_, _, _, hobject⟩ := hmem
  exact hobject

omit [DecidableEq κ] [DecidableEq φ] in
theorem mem_filterMap_same {α : Type} {f : κ → Option α} {objects others : List κ}
    (hf : ∀ object, (f object).isSome = true → world.discoverable object = true)
    (hsame : ∀ object, object ∈ objects.filter world.discoverable ↔ object ∈ others) (value : α) :
    value ∈ objects.filterMap f ↔ value ∈ others.filterMap f := by
  simp only [mem_filterMap, ← hsame, mem_filter]
  constructor
  · rintro ⟨object, hmem, hvalue⟩
    exact ⟨object, ⟨hmem, hf object (by simp [hvalue])⟩, hvalue⟩
  · rintro ⟨object, ⟨hmem, _⟩, hvalue⟩
    exact ⟨object, hmem, hvalue⟩

/-- A scan that reuses the manifest an earlier scan saved registers the objects
that a scan without a manifest registers, if and only if every one of them is
shown by its own module. It then registers the same Pods and Tags; the converse
fails for these, since a copy by `functools.wraps` shares the Pod of its original. -/
theorem cached_scan_equals_fresh_iff (world : World κ ρ τ φ) (path earlierPath : String)
    (exclude earlierExclude : List String) (content : Option (DiscoveryManifest φ))
    (manifest : DiscoveryManifest φ) (earlier cached : Scan κ φ)
    (hearlier : world.scan (some content) earlierPath earlierExclude = some earlier)
    (hsaved : earlier.saved = some manifest)
    (hcached : world.scan (some (some manifest)) path exclude = some cached)
    (hhit : cached.decision = some .hit) :
    ∃ fresh, world.scan none path exclude = some fresh ∧
      ((∀ object, object ∈ cached.objects.filter world.discoverable ↔ object ∈ fresh.objects) ↔
        world.Homed path exclude) ∧
      (world.Homed path exclude → (∀ pod, pod ∈ world.pods cached ↔ pod ∈ world.pods fresh) ∧
          ∀ tag, tag ∈ world.tags cached ↔ tag ∈ world.tags fresh) := by
  obtain ⟨modules, hmodules, hsame, hcandidates⟩ := scan_saved hearlier hsaved
  obtain ⟨hfingerprint, hresolved⟩ := scan_hit hcached hhit
  rw [← discoverModules_congr (hfingerprint.symm.trans hsame)] at hmodules
  have hhits : ∀ hit, hit ∈ cached.objects.map ([·]) ↔
      ∃ object ∈ world.discovered modules, world.found (world.fromObject object) = hit := by
    intro hit
    rw [← resolveManifestHit_spec hresolved, (hcandidates.map world.found).mem_iff, map_map,
      mem_map]
    rfl
  have hiff := hit_objects_iff hhits fun object => discovered_discoverable
  have hhomed : (∀ object ∈ world.discovered modules, world.Shown object) ↔
      world.Homed path exclude := by
    simp only [Homed, hmodules, Option.some.injEq, forall_eq', discovered, mem_flatMap,
      forall_exists_index, and_imp]
    exact ⟨fun h name hname object hobject => h object name hname hobject,
      fun h object name hname hobject => h name hname object hobject⟩
  rw [hhomed] at hiff
  refine ⟨{ objects := world.discovered modules }, ?_, hiff, fun hall => ⟨?_, ?_⟩⟩
  · simp only [scan, hmodules]
    rfl
  · exact mem_filterMap_same (by simp +contextual [discoverable]) (hiff.mpr hall)
  · exact mem_filterMap_same (by simp +contextual [discoverable]) (hiff.mpr hall)

/-- The module `app.jobs` shows its own Pod `clean` and a Pod that wraps the
plain function `make` of `tools` and took over its names. -/
def sampleWorld (wrapping : Bool) : World String Unit Unit Unit where
  dunderModule object := if object = "clean" then "app.jobs" else "tools"
  qualname object := if object = "clean" then "clean" else "make"
  pod object := if object = "make" then none else some ()
  tag _ := none
  members name :=
    if name = "tools" then some ["make"]
    else some (if wrapping then ["wrapped"] else ["clean"])
  submodules name := if name = "app" then some ["app.jobs"] else none
  sources _ := ()
  pythonVersion := "3.12"
  fnmatch _ _ := false

def sampleManifest (candidate : DiscoveryManifestCandidate) : DiscoveryManifest Unit where
  fingerprint := ⟨1, "3.12", "app", true, [], ()⟩
  moduleNames := ["app.jobs"]
  candidates := [candidate]

theorem cached_scan_equals_fresh_clean :
    ∃ fresh, (sampleWorld false).scan none "app" [] = some fresh ∧
      ((∀ object, object ∈ ["clean"].filter (sampleWorld false).discoverable ↔
        object ∈ fresh.objects) ↔ (sampleWorld false).Homed "app" []) := by
  obtain ⟨fresh, hfresh, hiff, _⟩ := cached_scan_equals_fresh_iff (sampleWorld false) "app" "app"
    [] [] none (sampleManifest ⟨"app.jobs", "clean"⟩) _ ⟨some .hit, ["clean"], none⟩ rfl rfl rfl rfl
  exact ⟨fresh, hfresh, hiff⟩

/-- The manifest of the scan stands for the Pod by the names of `make`. The
next scan finds `make`, decides for a hit and registers nothing. -/
theorem cached_scan_loses_wrapped_pod :
    ((sampleWorld true).scan (some none) "app" []).bind (·.saved) =
        some (sampleManifest ⟨"tools", "make"⟩) ∧
      ((sampleWorld true).scan none "app" []).map (sampleWorld true).pods = some [()] ∧
      ∃ cached, (sampleWorld true).scan (some (some (sampleManifest ⟨"tools", "make"⟩))) "app" [] =
          some cached ∧
        cached.decision = some .hit ∧ (sampleWorld true).pods cached = [] :=
  ⟨rfl, rfl, _, rfl, rfl, rfl⟩

end World

end Spakky.Application
