import Spakky.Machine
import Spakky.ReentrantLock
import Spakky.Container.Resolution

/-!
Gets of Pods from several threads at once. A get is a stack of calls of
`__get_pod_instance`, one for each Pod that is being constructed; each call
takes the moves between which other threads may move: the look at the cache
without the lock, the acquisition of the lock, the look under the lock, the
dependencies one after the other, the construction, the store and the release.

What user code does is chosen anew at every move: a constructor with its
post-processing returns an object, returns `None` or raises, and the context
cache, which differs between contexts, may or may not have an object. A `find`
is a get of each selected Pod, one after the other.
-/

namespace Spakky.Container

open Machine Function

/-- What the construction of a Pod asks for, parameter by parameter. -/
inductive Need where
  /-- `required` if `None` is refused for the parameter. -/
  | get (pod : Pod) (required : Bool)
  /-- The resolution of the parameter raises, or finds nothing where something
  is required. -/
  | fails

variable (registry : Registry) (dependency : DependencyInfo)

def DependencyInfo.isRequired : Bool :=
  !dependency.hasDefault && !dependency.isOptional

def Registry.needs : List Need :=
  let absent := if dependency.isRequired then [Need.fails] else []
  match dependency.collectionKind with
  | none =>
    match registry.resolve dependency.type_ (some dependency.name) dependency.qualifiers true with
    | .error _ => [.fails]
    | .ok none => absent
    | .ok (some pod) => [.get pod dependency.isRequired]
  | some _ =>
    match registry.resolveCollectionCandidates dependency.type_ dependency.qualifiers with
    | [] => absent
    | pods => pods.map (Need.get · false)

/-- The dependencies of a Pod in the order in which they are resolved. -/
def Registry.plan (pod : Pod) : List Need :=
  pod.dependencies.flatMap registry.needs

theorem Registry.mem_needs {registry : Registry} {dependency : DependencyInfo} {pod : Pod}
    {required : Bool} (hneed : Need.get pod required ∈ registry.needs dependency) :
    pod ∈ registry.pods := by
  have habs : Need.get pod required ∉
      (if dependency.isRequired then [Need.fails] else []) := by
    split
    · simp
    · simp
  unfold needs at hneed
  cases hkind : dependency.collectionKind with
  | none =>
    have hresolved := resolve_resolved registry dependency.type_ (some dependency.name)
      dependency.qualifiers true
    simp only [hkind] at hneed
    split at hneed
    · simp at hneed
    · exact absurd hneed habs
    next found hfound =>
      rw [hfound] at hresolved
      obtain ⟨rfl, -⟩ := Need.get.inj (List.mem_singleton.mp hneed)
      exact hresolved
  | some =>
    simp only [hkind] at hneed
    split at hneed
    · exact absurd hneed habs
    · obtain ⟨_, hfound, hsame⟩ := List.mem_map.mp hneed
      obtain ⟨rfl, -⟩ := Need.get.inj hsame
      exact mem_resolveCollectionCandidates hfound

theorem Registry.mem_plan {registry : Registry} {pod needed : Pod} {required : Bool}
    (hneed : Need.get needed required ∈ registry.plan pod) : needed ∈ registry.pods := by
  obtain ⟨_, -, hmem⟩ := List.mem_flatMap.mp hneed
  exact mem_needs hmem

/-- How a call ends. -/
inductive Result (ω : Type) where
  | value (object : Option ω)
  | raised
  deriving DecidableEq, Repr

/-- Where a call of `__get_pod_instance` is. -/
inductive Stage (ω : Type) where
  | looking
  | acquiring
  | lookingAgain
  | entering
  /-- In the loop over the dependencies. -/
  | gathering (todo : List Need)
  /-- In the call for a dependency. -/
  | awaiting (required : Bool) (todo : List Need)
  | constructing
  | storing (object : Option ω)
  | leaving (result : Result ω)

/-- A SINGLETON call is inside of the lock. -/
def Stage.isLocked {ω : Type} : Stage ω → Bool
  | .looking => false
  | .acquiring => false
  | _ => true

/-- The call has passed the check for cycles and has no result yet. -/
def Stage.isInstantiating {ω : Type} : Stage ω → Bool
  | .gathering _ => true
  | .awaiting _ _ => true
  | .constructing => true
  | .storing _ => true
  | _ => false

structure Frame (ω : Type) where
  pod : Pod
  stage : Stage ω

def Frame.go {ω : Type} (frame : Frame ω) (stage : Stage ω) : Frame ω :=
  { frame with stage := stage }

/-- What the caller does with the result of a dependency. -/
def Frame.resume {ω : Type} (frame : Frame ω) : Result ω → Frame ω
  | .raised => frame.go (.leaving .raised)
  | .value object =>
    match frame.stage with
    | .awaiting required todo =>
      if object.isNone && required then frame.go (.leaving .raised)
      else frame.go (.gathering todo)
    | _ => frame

/-- What a thread is doing. -/
inductive Mode (ω : Type) where
  | idle
  /-- A get, with the innermost call first. -/
  | getting (frame : Frame ω) (callers : List (Frame ω))
  /-- A clearing of the singleton cache, which takes the lock too. -/
  | acquiring
  | clearing
  | releasing

/-- The end of a call. -/
def Mode.returning {ω : Type} (result : Result ω) : List (Frame ω) → Mode ω
  | [] => .idle
  | caller :: callers => .getting (caller.resume result) callers

/-- The choices of the environment. -/
structure Choice (ω : Type) where
  constructed : Result ω
  inContext : Option ω

/-- The threads and what they share. The last three fields are not read by the
code: the number of clearings so far, the objects that were constructed for a
Pod since a clearing, and the objects that gets of SINGLETON Pods have returned
since a clearing. -/
structure Threads (ι ω : Type) where
  singletonCache : String → Option ω
  singletonLock : ReentrantLock ι
  mode : ι → Mode ω
  clearings : Nat
  constructed : String → Nat → List ω
  returned : List (Pod × ω × Nat)

/-- A thread that is idle begins a get or a clearing; any thread moves on. -/
inductive ThreadAction (ι ω : Type) where
  | get (thread : ι) (type_ : TypeRef) (name : Option String)
  | clear (thread : ι)
  | move (thread : ι) (choice : Choice ω)

namespace Threads

variable {ι ω : Type}

def initial : Threads ι ω where
  singletonCache _ := none
  singletonLock := .free
  mode _ := .idle
  clearings := 0
  constructed _ _ := []
  returned := []

variable [DecidableEq ι] (registry : Registry) (threads : Threads ι ω) (thread : ι)

def setMode (mode : Mode ω) : Threads ι ω :=
  { threads with mode := update threads.mode thread mode }

/-- A call of `pod` ends. -/
def finish (pod : Pod) (callers : List (Frame ω)) (result : Result ω) : Threads ι ω :=
  { threads.setMode thread (.returning result callers) with
    returned :=
      match pod.scope, result with
      | .singleton, .value (some object) => threads.returned ++ [(pod, object, threads.clearings)]
      | _, _ => threads.returned }

/-- `__get_pod_instance`: the next move of the innermost call. -/
def advance (choice : Choice ω) (frame : Frame ω) (callers : List (Frame ω)) : Threads ι ω :=
  let go (stage : Stage ω) := threads.setMode thread (.getting (frame.go stage) callers)
  match frame.stage with
  | .looking =>
    match frame.pod.scope with
    | .singleton =>
      match threads.singletonCache frame.pod.name with
      | some object => threads.finish thread frame.pod callers (.value (some object))
      | none => go .acquiring
    | .context =>
      match choice.inContext with
      | some object => threads.finish thread frame.pod callers (.value (some object))
      | none => go .entering
    | .prototype => go .entering
  | .acquiring =>
    match threads.singletonLock.acquire thread with
    | none => threads
    | some lock => { go .lookingAgain with singletonLock := lock }
  | .lookingAgain =>
    match threads.singletonCache frame.pod.name with
    | some object => go (.leaving (.value (some object)))
    | none => go .entering
  | .entering =>
    -- `dependency_hierarchy` has the types of the Pods that are being constructed
    if frame.pod.type_ ∈ callers.map (·.pod.type_) then go (.leaving .raised)
    else go (.gathering (registry.plan frame.pod))
  | .gathering [] => go .constructing
  | .gathering (.fails :: _) => go (.leaving .raised)
  | .gathering (.get pod required :: todo) =>
    threads.setMode thread
      (.getting ⟨pod, .looking⟩ (frame.go (.awaiting required todo) :: callers))
  | .awaiting _ _ => threads
  | .constructing =>
    match choice.constructed with
    | .raised => go (.leaving .raised)
    | .value object =>
      { go (.storing object) with
        constructed := update threads.constructed frame.pod.name
          (update (threads.constructed frame.pod.name) threads.clearings
            (threads.constructed frame.pod.name threads.clearings ++ object.toList)) }
  | .storing object =>
    match frame.pod.scope with
    | .singleton =>
      { go (.leaving (.value object)) with
        singletonCache := update threads.singletonCache frame.pod.name object }
    | _ => go (.leaving (.value object))
  | .leaving result =>
    match frame.pod.scope with
    | .singleton =>
      { threads.finish thread frame.pod callers result with
        singletonLock := threads.singletonLock.release }
    | _ => threads.finish thread frame.pod callers result

def step : ThreadAction ι ω → Threads ι ω
  | .get thread type_ name =>
    match threads.mode thread, registry.resolve type_ name [] false with
    | .idle, .ok (some pod) => threads.setMode thread (.getting ⟨pod, .looking⟩ [])
    | _, _ => threads
  | .clear thread =>
    match threads.mode thread with
    | .idle => threads.setMode thread .acquiring
    | _ => threads
  | .move thread choice =>
    match threads.mode thread with
    | .idle => threads
    | .getting frame callers => threads.advance registry thread choice frame callers
    | .acquiring =>
      match threads.singletonLock.acquire thread with
      | none => threads
      | some lock => { threads.setMode thread .clearing with singletonLock := lock }
    | .clearing =>
      { threads.setMode thread .releasing with
        singletonCache := fun _ => none
        clearings := threads.clearings + 1 }
    | .releasing =>
      { threads.setMode thread .idle with singletonLock := threads.singletonLock.release }

end Threads

section Steps

variable {ι ω : Type} [DecidableEq ι] (registry : Registry) (threads : Threads ι ω)

section Advances

variable (thread : ι) (frame : Frame ω) (callers : List (Frame ω))

/-- What a move of the innermost call can do. -/
inductive Advances : Threads ι ω → Prop where
  | waits (hstage : frame.stage = .acquiring)
      (hlock : threads.singletonLock.acquire thread = none) : Advances threads
  | callerWaits (required : Bool) (todo : List Need)
      (hstage : frame.stage = .awaiting required todo) : Advances threads
  | finds (object : ω) (hstage : frame.stage = .looking) (hscope : frame.pod.scope = .singleton)
      (hcache : threads.singletonCache frame.pod.name = some object) :
      Advances (threads.finish thread frame.pod callers (.value (some object)))
  | misses (hstage : frame.stage = .looking) (hscope : frame.pod.scope = .singleton) :
      Advances (threads.setMode thread (.getting (frame.go .acquiring) callers))
  | findsInContext (object : ω) (hstage : frame.stage = .looking)
      (hscope : frame.pod.scope ≠ .singleton) :
      Advances (threads.finish thread frame.pod callers (.value (some object)))
  | enters (hstage : frame.stage = .looking) (hscope : frame.pod.scope ≠ .singleton) :
      Advances (threads.setMode thread (.getting (frame.go .entering) callers))
  | acquires (lock : ReentrantLock ι) (hstage : frame.stage = .acquiring)
      (hlock : threads.singletonLock.acquire thread = some lock) :
      Advances { threads.setMode thread (.getting (frame.go .lookingAgain) callers) with
        singletonLock := lock }
  | findsAgain (object : ω) (hstage : frame.stage = .lookingAgain)
      (hcache : threads.singletonCache frame.pod.name = some object) :
      Advances
        (threads.setMode thread (.getting (frame.go (.leaving (.value (some object)))) callers))
  | missesAgain (hstage : frame.stage = .lookingAgain)
      (hcache : threads.singletonCache frame.pod.name = none) :
      Advances (threads.setMode thread (.getting (frame.go .entering) callers))
  | gathers (hstage : frame.stage = .entering)
      (hnew : frame.pod.type_ ∉ callers.map (·.pod.type_)) :
      Advances (threads.setMode thread
        (.getting (frame.go (.gathering (registry.plan frame.pod))) callers))
  | calls (pod : Pod) (required : Bool) (todo : List Need)
      (hstage : frame.stage = .gathering (.get pod required :: todo)) :
      Advances (threads.setMode thread
        (.getting ⟨pod, .looking⟩ (frame.go (.awaiting required todo) :: callers)))
  | gathered (hstage : frame.stage = .gathering []) :
      Advances (threads.setMode thread (.getting (frame.go .constructing) callers))
  /-- A cycle, a dependency that cannot be resolved, or a constructor that
  raises. -/
  | aborts
      (hstage : frame.stage = .entering ∨
        (∃ todo, frame.stage = .gathering (.fails :: todo)) ∨ frame.stage = .constructing) :
      Advances (threads.setMode thread (.getting (frame.go (.leaving .raised)) callers))
  | constructs (object : Option ω) (hstage : frame.stage = .constructing) :
      Advances { threads.setMode thread (.getting (frame.go (.storing object)) callers) with
        constructed := update threads.constructed frame.pod.name
          (update (threads.constructed frame.pod.name) threads.clearings
            (threads.constructed frame.pod.name threads.clearings ++ object.toList)) }
  | stores (object : Option ω) (hstage : frame.stage = .storing object)
      (hscope : frame.pod.scope = .singleton) :
      Advances
        { threads.setMode thread (.getting (frame.go (.leaving (.value object))) callers) with
          singletonCache := update threads.singletonCache frame.pod.name object }
  | keeps (object : Option ω) (hstage : frame.stage = .storing object)
      (hscope : frame.pod.scope ≠ .singleton) :
      Advances (threads.setMode thread (.getting (frame.go (.leaving (.value object))) callers))
  | leaves (result : Result ω) (hstage : frame.stage = .leaving result)
      (hscope : frame.pod.scope = .singleton) :
      Advances { threads.finish thread frame.pod callers result with
        singletonLock := threads.singletonLock.release }
  | returns (result : Result ω) (hstage : frame.stage = .leaving result)
      (hscope : frame.pod.scope ≠ .singleton) :
      Advances (threads.finish thread frame.pod callers result)

end Advances

theorem Threads.advance_advances (thread : ι) (choice : Choice ω) (frame : Frame ω)
    (callers : List (Frame ω)) :
    Advances registry threads thread frame callers
      (threads.advance registry thread choice frame callers) := by
  unfold Threads.advance
  split
  next hstage =>
    split
    next hscope =>
      split
      next object hcache => exact .finds object hstage hscope hcache
      next => exact .misses hstage hscope
    next hscope =>
      have hother : frame.pod.scope ≠ .singleton := by rw [hscope]; exact nofun
      split
      next object hctx => exact .findsInContext object hstage hother
      next => exact .enters hstage hother
    next hscope => exact .enters hstage (by rw [hscope]; exact nofun)
  next hstage =>
    split
    next hlock => exact .waits hstage hlock
    next lock hlock => exact .acquires lock hstage hlock
  next hstage =>
    split
    next object hcache => exact .findsAgain object hstage hcache
    next hcache => exact .missesAgain hstage hcache
  next hstage =>
    split
    next => exact .aborts (.inl hstage)
    next hnew => exact .gathers hstage hnew
  next hstage => exact .gathered hstage
  next todo hstage => exact .aborts (.inr (.inl ⟨todo, hstage⟩))
  next pod required todo hstage => exact .calls pod required todo hstage
  next required todo hstage => exact .callerWaits required todo hstage
  next hstage =>
    split
    next => exact .aborts (.inr (.inr hstage))
    next object hconstructed => exact .constructs object hstage
  next object hstage =>
    split
    next hscope => exact .stores object hstage hscope
    next hscope => exact .keeps object hstage hscope
  next result hstage =>
    split
    next hscope => exact .leaves result hstage hscope
    next hscope => exact .returns result hstage hscope

/-- What an action can do. -/
inductive ThreadSteps : Threads ι ω → Prop where
  | stays : ThreadSteps threads
  | begins (thread : ι) (pod : Pod) (hmode : threads.mode thread = .idle)
      (hpod : pod ∈ registry.pods) :
      ThreadSteps (threads.setMode thread (.getting ⟨pod, .looking⟩ []))
  | beginsClear (thread : ι) (hmode : threads.mode thread = .idle) :
      ThreadSteps (threads.setMode thread .acquiring)
  | advances (thread : ι) (frame : Frame ω) (callers : List (Frame ω)) (next : Threads ι ω)
      (hmode : threads.mode thread = .getting frame callers)
      (hadv : Advances registry threads thread frame callers next) :
      ThreadSteps next
  | acquires (thread : ι) (lock : ReentrantLock ι) (hmode : threads.mode thread = .acquiring)
      (hlock : threads.singletonLock.acquire thread = some lock) :
      ThreadSteps { threads.setMode thread .clearing with singletonLock := lock }
  | clears (thread : ι) (hmode : threads.mode thread = .clearing) :
      ThreadSteps { threads.setMode thread .releasing with
        singletonCache := fun _ => none
        clearings := threads.clearings + 1 }
  | releases (thread : ι) (hmode : threads.mode thread = .releasing) :
      ThreadSteps
        { threads.setMode thread .idle with singletonLock := threads.singletonLock.release }

theorem Threads.step_steps (action : ThreadAction ι ω) :
    ThreadSteps registry threads (threads.step registry action) := by
  cases action with
  | get thread type_ name =>
    have hresolved := Registry.resolve_resolved registry type_ name [] false
    simp only [Threads.step]
    split
    next pod hmode hfound =>
      rw [hfound] at hresolved
      exact .begins thread pod hmode hresolved
    next => exact .stays
  | clear thread =>
    simp only [Threads.step]
    split
    next hmode => exact .beginsClear thread hmode
    next => exact .stays
  | move thread choice =>
    simp only [Threads.step]
    split
    next => exact .stays
    next frame callers hmode =>
      exact .advances thread frame callers _ hmode
        (threads.advance_advances registry thread choice frame callers)
    next hmode =>
      split
      next => exact .stays
      next lock hlock => exact .acquires thread lock hmode hlock
    next hmode => exact .clears thread hmode
    next hmode => exact .releases thread hmode

end Steps

end Spakky.Container
