import Mathlib.Algebra.GroupWithZero.Nat
import Mathlib.Algebra.Order.BigOperators.Group.List
import Mathlib.Algebra.Order.Group.Nat
import Spakky.Container.Threads

/-!
One instance for each SINGLETON Pod, from whichever threads it is asked for.

The lock is held by a thread as often as it is inside of SINGLETON calls, so all
such calls are of one thread, and these are nested. The check for cycles makes
the types of nested calls different. So a call that has found nothing under the
lock stays the only one that may construct its Pod until it has stored the
object.
-/

namespace Spakky.Container

open Machine List Function

variable {ι ω : Type}

/-- How often a call holds the lock. -/
def Frame.held (frame : Frame ω) : Nat :=
  match frame.pod.scope with
  | .singleton => if frame.stage.isLocked then 1 else 0
  | _ => 0

theorem Stage.isLocked_of_isInstantiating {stage : Stage ω}
    (hinst : stage.isInstantiating = true) : stage.isLocked = true := by
  cases stage with
  | looking | acquiring => cases hinst
  | _ => rfl

def Mode.frames : Mode ω → List (Frame ω)
  | .getting frame callers => frame :: callers
  | _ => []

/-- How often a thread holds the lock. -/
def Mode.held : Mode ω → Nat
  | .getting frame callers => frame.held + (callers.map Frame.held).sum
  | .clearing => 1
  | .releasing => 1
  | _ => 0

variable {frame : Frame ω}

theorem Frame.held_go {stage : Stage ω} (hlocked : frame.stage.isLocked = stage.isLocked) :
    (frame.go stage).held = frame.held := by
  unfold held go
  simp only [hlocked]

theorem Frame.held_of_scope (hscope : frame.pod.scope ≠ .singleton) : frame.held = 0 := by
  unfold held
  split
  next hsing => exact absurd hsing hscope
  next => rfl

theorem Frame.held_of_singleton (hscope : frame.pod.scope = .singleton) :
    frame.held = if frame.stage.isLocked then 1 else 0 := by
  simp only [held, hscope]

theorem Frame.held_looking (pod : Pod) : (⟨pod, .looking⟩ : Frame ω).held = 0 := by
  unfold held
  split
  · rfl
  · rfl

/-- The calls of a get are nested: the callers wait for the next inner one, and
their types are different. -/
structure Nested (registry : Registry) (frame : Frame ω) (callers : List (Frame ω)) : Prop where
  registered : ∀ call ∈ frame :: callers, call.pod ∈ registry.pods
  awaiting : ∀ call ∈ callers, ∃ required todo, call.stage = .awaiting required todo ∧
    ∀ pod needed, Need.get pod needed ∈ todo → pod ∈ registry.pods
  gathering : ∀ todo, frame.stage = .gathering todo →
    ∀ pod needed, Need.get pod needed ∈ todo → pod ∈ registry.pods
  running : ∀ required todo, frame.stage ≠ .awaiting required todo
  locking : frame.stage = .acquiring → frame.pod.scope = .singleton
  distinct : (callers.map (·.pod.type_)).Nodup
  new : frame.stage.isInstantiating = true → frame.pod.type_ ∉ callers.map (·.pod.type_)

namespace Nested

variable {registry : Registry} {frame : Frame ω} {callers : List (Frame ω)}

theorem go (hnest : Nested registry frame callers) {stage : Stage ω}
    (hgathering : ∀ todo, stage = .gathering todo →
      ∀ pod needed, Need.get pod needed ∈ todo → pod ∈ registry.pods)
    (hrunning : ∀ required todo, stage ≠ .awaiting required todo)
    (hlocking : stage = .acquiring → frame.pod.scope = .singleton)
    (hnew : stage.isInstantiating = true → frame.pod.type_ ∉ callers.map (·.pod.type_)) :
    Nested registry (frame.go stage) callers where
  registered := forall_mem_cons.mpr (forall_mem_cons.mp hnest.registered)
  awaiting := hnest.awaiting
  gathering := hgathering
  running := hrunning
  locking := hlocking
  distinct := hnest.distinct
  new := hnew

/-- A stage that is neither in the loop over the dependencies nor past the check
for cycles. -/
theorem go_plain (hnest : Nested registry frame callers) (stage : Stage ω)
    (hplain : stage.isInstantiating = false)
    (hlocking : stage = .acquiring → frame.pod.scope = .singleton) :
    Nested registry (frame.go stage) callers := by
  refine hnest.go ?_ ?_ hlocking ?_
  · rintro todo rfl
    cases hplain
  · rintro required todo rfl
    cases hplain
  · intro hinst
    rw [hplain] at hinst
    cases hinst

theorem first {pod : Pod} (hpod : pod ∈ registry.pods) :
    Nested registry (⟨pod, .looking⟩ : Frame ω) [] where
  registered := by
    intro call hcall
    rw [mem_singleton.mp hcall]
    exact hpod
  awaiting := nofun
  gathering := nofun
  running := nofun
  locking := nofun
  distinct := nodup_nil
  new := nofun

theorem calls (hnest : Nested registry frame callers) {pod : Pod} {required : Bool}
    {todo : List Need} (hstage : frame.stage = .gathering (.get pod required :: todo)) :
    Nested registry (⟨pod, .looking⟩ : Frame ω) (frame.go (.awaiting required todo) :: callers)
    where
  registered := by
    have hregs := forall_mem_cons.mp hnest.registered
    have hpod := hnest.gathering _ hstage pod required (.head _)
    exact forall_mem_cons.mpr ⟨hpod, forall_mem_cons.mpr hregs⟩
  awaiting := by
    refine forall_mem_cons.mpr ⟨⟨required, todo, rfl, ?_⟩, hnest.awaiting⟩
    intro other needed hneed
    exact hnest.gathering _ hstage other needed (.tail _ hneed)
  gathering := nofun
  running := nofun
  locking := nofun
  distinct := by
    rw [map_cons, nodup_cons]
    exact ⟨hnest.new (by rw [hstage]; rfl), hnest.distinct⟩
  new := nofun

theorem resume_cases {caller : Frame ω} {required : Bool} {todo : List Need}
    (hstage : caller.stage = .awaiting required todo) (result : Result ω) :
    caller.resume result = caller.go (.leaving .raised) ∨
      caller.resume result = caller.go (.gathering todo) := by
  cases result with
  | raised => exact .inl rfl
  | value =>
    simp only [Frame.resume, hstage]
    split
    · exact .inl rfl
    · exact .inr rfl

theorem caller {caller : Frame ω} (hnest : Nested registry frame (caller :: callers))
    {required : Bool} {todo : List Need} (hstage : caller.stage = .awaiting required todo) :
    Nested registry (caller.go (.gathering todo)) callers where
  registered := forall_mem_cons.mpr (forall_mem_cons.mp (forall_mem_cons.mp hnest.registered).2)
  awaiting := fun call hcall => hnest.awaiting call (.tail _ hcall)
  gathering := by
    obtain ⟨_, _, hstage', htodo⟩ := hnest.awaiting caller (.head _)
    rw [hstage] at hstage'
    cases hstage'
    rintro _ ⟨⟩
    exact htodo
  running := nofun
  locking := nofun
  distinct := (nodup_cons.mp hnest.distinct).2
  new := fun _ => (nodup_cons.mp hnest.distinct).1

theorem returns {caller : Frame ω} (hnest : Nested registry frame (caller :: callers))
    (result : Result ω) : Nested registry (caller.resume result) callers := by
  obtain ⟨_, _, hstage, -⟩ := hnest.awaiting caller (.head _)
  have hcaller := hnest.caller hstage
  rcases resume_cases hstage result with hresume | hresume
  · rw [hresume]
    exact hcaller.go_plain (.leaving .raised) rfl nofun
  · rw [hresume]
    exact hcaller

end Nested

theorem Frame.held_resume {caller : Frame ω} {required : Bool} {todo : List Need}
    (hstage : caller.stage = .awaiting required todo) (result : Result ω) :
    (caller.resume result).held = caller.held := by
  rcases Nested.resume_cases hstage result with hresume | hresume
  · rw [hresume, Frame.held_go (by rw [hstage]; rfl)]
  · rw [hresume, Frame.held_go (by rw [hstage]; rfl)]

variable [DecidableEq ι]

/-- The lock is held as the calls say, and the calls are nested. -/
structure Disciplined (registry : Registry) (threads : Threads ι ω) : Prop where
  locks : ∀ thread, (threads.mode thread).held = threads.singletonLock.count thread
  nested : ∀ thread frame callers, threads.mode thread = .getting frame callers →
    Nested registry frame callers

namespace Disciplined

variable {registry : Registry} {threads : Threads ι ω} {thread : ι} {frame : Frame ω}
  {callers : List (Frame ω)} {next : Threads ι ω}

theorem held_returning (hnest : Nested registry frame callers) (result : Result ω) :
    (Mode.returning result callers).held = (callers.map Frame.held).sum := by
  cases callers with
  | nil => rfl
  | cons caller =>
    obtain ⟨_, _, hstage, -⟩ := hnest.awaiting caller (.head _)
    simp only [Mode.returning, Mode.held, map_cons, sum_cons, Frame.held_resume hstage result]

theorem nested_returning (hnest : Nested registry frame callers) (result : Result ω) :
    ∀ inner outer, Mode.returning result callers = .getting inner outer →
      Nested registry inner outer := by
  intro inner outer hmode
  cases callers with
  | nil => cases hmode
  | cons =>
    cases hmode
    exact hnest.returns result

theorem initial : Disciplined registry (Threads.initial : Threads ι ω) where
  locks := fun _ => rfl
  nested := nofun

variable (hdisc : Disciplined registry threads)
include hdisc

section

variable (mode : Mode ω)
  (hnest : ∀ frame callers, mode = .getting frame callers → Nested registry frame callers)
  (hmode : next.mode = Function.update threads.mode thread mode)
include hnest hmode

/-- A thread changes what it is doing, and the lock changes with it. -/
theorem update (lock : ReentrantLock ι) (hheld : mode.held = lock.count thread)
    (hothers : ∀ other, other ≠ thread → lock.count other = threads.singletonLock.count other)
    (hlock : next.singletonLock = lock) : Disciplined registry next where
  locks := by
    intro other
    rw [hmode, hlock]
    by_cases hsame : other = thread
    · rw [hsame, update_self, hheld]
    · rw [update_of_ne hsame, hdisc.locks, hothers other hsame]
  nested := by
    intro other frame callers hgetting
    rw [hmode] at hgetting
    rcases update_cases hgetting with ⟨-, hmode⟩ | ⟨-, hmode⟩
    · exact hnest frame callers hmode.symm
    · exact hdisc.nested other frame callers hmode

theorem setMode (hheld : mode.held = (threads.mode thread).held)
    (hlock : next.singletonLock = threads.singletonLock) : Disciplined registry next :=
  hdisc.update mode hnest hmode threads.singletonLock (hheld.trans (hdisc.locks thread))
    (fun _ _ => rfl) hlock

theorem acquired {lock : ReentrantLock ι}
    (hacquire : threads.singletonLock.acquire thread = some lock)
    (hheld : mode.held = (threads.mode thread).held + 1)
    (hlock : next.singletonLock = lock) : Disciplined registry next := by
  have hcount := ReentrantLock.count_acquire hacquire
  refine hdisc.update mode hnest hmode lock ?_ ?_ hlock
  · rw [hcount, if_pos rfl, ← hdisc.locks, hheld]
  · intro other hother
    rw [hcount, if_neg hother, Nat.add_zero]

theorem released (hheld : (threads.mode thread).held = mode.held + 1)
    (hlock : next.singletonLock = threads.singletonLock.release) : Disciplined registry next := by
  rw [hdisc.locks] at hheld
  have hcount := ReentrantLock.count_release (lt_of_lt_of_eq (Nat.succ_pos _) hheld.symm)
  refine hdisc.update mode hnest hmode threads.singletonLock.release ?_ ?_ hlock
  · have hthr := hcount thread
    rw [hheld, if_pos rfl] at hthr
    exact Nat.succ.inj hthr
  · intro other hother
    rw [hcount other, if_neg hother, Nat.add_zero]

end

theorem goes (hmode : threads.mode thread = .getting frame callers) (stage : Stage ω)
    (hheld : (frame.go stage).held = frame.held) (hnest : Nested registry (frame.go stage) callers)
    (hnext : next.mode = Function.update threads.mode thread (.getting (frame.go stage) callers))
    (hlock : next.singletonLock = threads.singletonLock) : Disciplined registry next := by
  apply hdisc.setMode _ ?_ hnext ?_ hlock
  · rintro _ _ ⟨⟩
    exact hnest
  · rw [hmode]
    simp only [Mode.held, hheld]

theorem advances (hmode : threads.mode thread = .getting frame callers)
    (hadv : Advances registry threads thread frame callers next) : Disciplined registry next := by
  have hnest := hdisc.nested thread frame callers hmode
  cases hadv with
  | waits | callerWaits => exact hdisc
  | finds _ hstage hscope =>
    refine hdisc.setMode _ (nested_returning hnest _) rfl ?_ rfl
    rw [held_returning hnest, hmode, Mode.held, Frame.held_of_singleton hscope, hstage]
    exact (Nat.zero_add _).symm
  | misses hstage hscope =>
    exact hdisc.goes hmode .acquiring (Frame.held_go (by rw [hstage]; rfl))
      (hnest.go_plain .acquiring rfl fun _ => hscope) rfl rfl
  | findsInContext _ _ hscope | returns _ _ hscope =>
    refine hdisc.setMode _ (nested_returning hnest _) rfl ?_ rfl
    rw [held_returning hnest, hmode, Mode.held, Frame.held_of_scope hscope, Nat.zero_add]
  | enters _ hscope =>
    refine hdisc.goes hmode .entering ?_ (hnest.go_plain .entering rfl nofun) rfl rfl
    rw [Frame.held_of_scope hscope]
    exact Frame.held_of_scope hscope
  | acquires _ hstage hlock =>
    have hscope := hnest.locking hstage
    refine hdisc.acquired (.getting (frame.go .lookingAgain) callers) ?_ rfl hlock ?_ rfl
    · rintro _ _ ⟨⟩
      exact hnest.go_plain .lookingAgain rfl nofun
    · have hafter : (frame.go .lookingAgain).held = 1 := Frame.held_of_singleton hscope
      rw [hmode, Mode.held, Mode.held, Frame.held_of_singleton hscope, hstage, hafter]
      simp [Stage.isLocked, Nat.add_comm]
  | findsAgain object hstage =>
    exact hdisc.goes hmode (.leaving (.value (some object)))
      (Frame.held_go (by rw [hstage]; rfl))
      (hnest.go_plain (.leaving (.value (some object))) rfl nofun) rfl rfl
  | missesAgain hstage =>
    exact hdisc.goes hmode .entering (Frame.held_go (by rw [hstage]; rfl))
      (hnest.go_plain .entering rfl nofun) rfl rfl
  | gathers hstage hnew =>
    refine hdisc.goes hmode (.gathering (registry.plan frame.pod))
      (Frame.held_go (by rw [hstage]; rfl)) ?_ rfl rfl
    refine hnest.go ?_ nofun nofun fun _ => hnew
    rintro _ ⟨⟩ pod needed hneed
    exact Registry.mem_plan hneed
  | calls _ _ _ hstage =>
    refine hdisc.setMode _ ?_ rfl ?_ rfl
    · rintro _ _ ⟨⟩
      exact hnest.calls hstage
    · rw [hmode]
      simp only [Mode.held, map_cons, sum_cons, Frame.held_looking, Nat.zero_add]
      rw [Frame.held_go (by rw [hstage]; rfl)]
  | gathered hstage =>
    refine hdisc.goes hmode .constructing (Frame.held_go (by rw [hstage]; rfl)) ?_ rfl rfl
    exact hnest.go nofun nofun nofun fun _ => hnest.new (by rw [hstage]; rfl)
  | aborts hstage =>
    refine hdisc.goes hmode (.leaving .raised) (Frame.held_go ?_)
      (hnest.go_plain (.leaving .raised) rfl nofun) rfl rfl
    rcases hstage with hstage | ⟨_, hstage⟩ | hstage
    · rw [hstage]; rfl
    · rw [hstage]; rfl
    · rw [hstage]; rfl
  | constructs object hstage =>
    refine hdisc.goes hmode (.storing object) (Frame.held_go (by rw [hstage]; rfl)) ?_
      rfl rfl
    exact hnest.go nofun nofun nofun fun _ => hnest.new (by rw [hstage]; rfl)
  | stores object hstage | keeps object hstage =>
    exact hdisc.goes hmode (.leaving (.value object))
      (Frame.held_go (by rw [hstage]; rfl))
      (hnest.go_plain (.leaving (.value object)) rfl nofun) rfl rfl
  | leaves result hstage hscope =>
    refine hdisc.released _ (nested_returning hnest result) rfl ?_ rfl
    rw [hmode, Mode.held, Frame.held_of_singleton hscope, hstage, held_returning hnest]
    simp [Stage.isLocked, Nat.add_comm]

theorem steps (hsteps : ThreadSteps registry threads next) : Disciplined registry next := by
  cases hsteps with
  | stays => exact hdisc
  | begins _ _ hmode hpod =>
    refine hdisc.setMode _ ?_ rfl ?_ rfl
    · rintro _ _ ⟨⟩
      exact .first hpod
    · rw [hmode, Mode.held, Frame.held_looking]
      rfl
  | beginsClear _ hmode =>
    exact hdisc.setMode .acquiring nofun rfl (by rw [hmode]; rfl) rfl
  | advances _ _ _ _ hmode hadv => exact hdisc.advances hmode hadv
  | acquires _ _ hmode hlock =>
    exact hdisc.acquired .clearing nofun rfl hlock (by rw [hmode]; rfl) rfl
  | clears _ hmode =>
    exact hdisc.setMode .releasing nofun rfl (by rw [hmode]; rfl) rfl
  | releases _ hmode =>
    exact hdisc.released .idle nofun rfl (by rw [hmode]; rfl) rfl

/-- A call inside of the lock makes its thread hold the lock. -/
theorem holds_of_locked {call : Frame ω}
    (hcall : call ∈ (threads.mode thread).frames) (hscope : call.pod.scope = .singleton)
    (hlocked : call.stage.isLocked = true) : 0 < threads.singletonLock.count thread := by
  have hone : call.held = 1 := by rw [Frame.held_of_singleton hscope, if_pos hlocked]
  rw [← hdisc.locks]
  cases hmode : threads.mode thread with
  | getting _ callers =>
    rw [hmode] at hcall
    rcases mem_cons.mp hcall with rfl | hcaller
    · rw [Mode.held, hone]
      omega
    · have hsum : call.held ≤ (callers.map Frame.held).sum :=
        le_sum_of_mem (mem_map_of_mem hcaller)
      rw [Mode.held]
      omega
  | idle | acquiring | clearing | releasing => rw [hmode] at hcall; cases hcall

/-- The calls inside of the lock are of the thread that holds it. -/
theorem alone (hholds : 0 < threads.singletonLock.count thread) {other : ι} {call : Frame ω}
    (hcall : call ∈ (threads.mode other).frames) (hscope : call.pod.scope = .singleton)
    (hlocked : call.stage.isLocked = true) : other = thread := by
  by_contra hother
  have hothers := hdisc.holds_of_locked hcall hscope hlocked
  rw [ReentrantLock.count_other hholds hother] at hothers
  cases hothers

/-- A SINGLETON call that is constructing its Pod is the only call of that Pod
inside of the lock. -/
theorem only_call (hmode : threads.mode thread = .getting frame callers)
    (hscope : frame.pod.scope = .singleton) (hinst : frame.stage.isInstantiating = true)
    {other : ι} {call : Frame ω} (hcall : call ∈ (threads.mode other).frames)
    (hcallScope : call.pod.scope = .singleton) (hlocked : call.stage.isLocked = true)
    (hname : call.pod.name = frame.pod.name) : other = thread ∧ call ∉ callers := by
  have hnest := hdisc.nested thread frame callers hmode
  have hframe := Stage.isLocked_of_isInstantiating hinst
  have hholds : 0 < threads.singletonLock.count thread :=
    hdisc.holds_of_locked (by rw [hmode]; exact .head _) hscope hframe
  refine ⟨hdisc.alone hholds hcall hcallScope hlocked, ?_⟩
  intro hcaller
  have hpod : call.pod = frame.pod :=
    Registry.eq_of_name (hnest.registered call (.tail _ hcaller))
      (hnest.registered frame (.head _)) hname
  apply hnest.new hinst
  rw [← hpod]
  exact mem_map_of_mem hcaller

end Disciplined

/-- What a SINGLETON call inside of the lock knows of its Pod: as long as it is
going to construct it, no one else has, and it leaves with the only object. -/
def Frame.Sound (call : Frame ω) (threads : Threads ι ω) : Prop :=
  match call.stage with
  | .entering | .gathering _ | .awaiting _ _ | .constructing =>
    threads.singletonCache call.pod.name = none ∧
      threads.constructed call.pod.name threads.clearings = []
  | .storing object =>
    threads.singletonCache call.pod.name = none ∧
      threads.constructed call.pod.name threads.clearings = object.toList
  | .leaving (.value object) =>
    threads.constructed call.pod.name threads.clearings = object.toList
  | _ => True

omit [DecidableEq ι] in
theorem Frame.Sound.congr {call : Frame ω} {threads next : Threads ι ω}
    (hsound : call.Sound threads)
    (hcache : next.singletonCache call.pod.name = threads.singletonCache call.pod.name)
    (hconstructed : next.constructed call.pod.name next.clearings =
      threads.constructed call.pod.name threads.clearings) : call.Sound next := by
  unfold Frame.Sound at hsound ⊢
  rw [hcache, hconstructed]
  exact hsound

omit [DecidableEq ι] in
/-- What a call knows by its stage. -/
theorem Frame.Sound.at_stage {call : Frame ω} {threads : Threads ι ω} (hsound : call.Sound threads)
    {stage : Stage ω} (hstage : call.stage = stage) {known : Prop}
    (hknown : (call.go stage).Sound threads = known) : known := by
  subst hstage
  exact hknown ▸ hsound

omit [DecidableEq ι] in
/-- Outside of the lock a call knows nothing. -/
theorem Frame.Sound.of_not_locked {call : Frame ω} (hlocked : call.stage.isLocked = false)
    (threads : Threads ι ω) : call.Sound threads := by
  obtain ⟨_, stage⟩ := call
  cases stage with
  | looking => trivial
  | acquiring => trivial
  | _ => cases hlocked

/-- A call that holds the object of a Pod and has not stored it yet. -/
def Threads.Storing (threads : Threads ι ω) (pod : Pod) (object : ω) : Prop :=
  ∃ thread frame callers, threads.mode thread = .getting frame callers ∧ frame.pod = pod ∧
    frame.stage = .storing (some object)

omit [DecidableEq ι] in
/-- What the thread that moves was not storing stays to be stored. -/
theorem Threads.Storing.other {threads next : Threads ι ω} {pod : Pod} {object : ω}
    (hstoring : threads.Storing pod object) (thread : ι)
    (hmode : ∀ other, other ≠ thread → next.mode other = threads.mode other)
    (hnot : ∀ frame callers, threads.mode thread = .getting frame callers →
      frame.pod = pod → frame.stage ≠ .storing (some object)) : next.Storing pod object := by
  obtain ⟨other, frame, callers, hother, hpod, hstage⟩ := hstoring
  refine ⟨other, frame, callers, ?_, hpod, hstage⟩
  rw [hmode other ?_, hother]
  rintro rfl
  exact hnot frame callers hother hpod hstage

/-- Every SINGLETON Pod has been constructed at most once since a clearing, and
what is cached, and what the gets have returned, is that object. -/
structure Coherent (registry : Registry) (threads : Threads ι ω) : Prop
    extends Disciplined registry threads where
  sound : ∀ thread, ∀ call ∈ (threads.mode thread).frames, call.pod.scope = .singleton →
    call.Sound threads
  cached : ∀ pod ∈ registry.pods, pod.scope = .singleton → ∀ object,
    threads.singletonCache pod.name = some object →
      threads.constructed pod.name threads.clearings = [object]
  accounted : ∀ pod ∈ registry.pods, pod.scope = .singleton → ∀ object,
    threads.constructed pod.name threads.clearings = [object] →
      threads.singletonCache pod.name = some object ∨ threads.Storing pod object
  future : ∀ name number, threads.clearings < number → threads.constructed name number = []
  once : ∀ pod ∈ registry.pods, pod.scope = .singleton → ∀ number,
    (threads.constructed pod.name number).length ≤ 1
  returned : ∀ pod object number, (pod, object, number) ∈ threads.returned →
    pod ∈ registry.pods ∧ pod.scope = .singleton ∧ threads.constructed pod.name number = [object]

namespace Coherent

variable {registry : Registry} {threads next : Threads ι ω} {thread : ι} {frame : Frame ω}
  {callers : List (Frame ω)}

section

variable (hcoh : Coherent registry threads)
include hcoh

/-- A move that neither constructs, nor stores, nor clears. -/
theorem quiet {mode : Mode ω} {lock : ReentrantLock ι} {returned : List (Pod × ω × Nat)}
    (hdisc : Disciplined registry { threads.setMode thread mode with
      singletonLock := lock
      returned := returned })
    (hsound : ∀ call ∈ mode.frames, call.pod.scope = .singleton → call.Sound threads)
    (hstoring : ∀ frame callers, threads.mode thread = .getting frame callers →
      frame.pod.scope = .singleton → ∀ object, frame.stage ≠ .storing object)
    (hret : ∀ pod object number, (pod, object, number) ∈ returned →
      (pod, object, number) ∈ threads.returned ∨
        pod ∈ registry.pods ∧ pod.scope = .singleton ∧
          threads.constructed pod.name number = [object]) :
    Coherent registry { threads.setMode thread mode with
      singletonLock := lock
      returned := returned } where
  toDisciplined := hdisc
  sound := by
    intro other call hcall hscope
    have hbefore : call.Sound threads := by
      change call ∈ (Function.update threads.mode thread mode other).frames at hcall
      by_cases hsame : other = thread
      · rw [hsame, update_self] at hcall
        exact hsound call hcall hscope
      · rw [update_of_ne hsame] at hcall
        exact hcoh.sound other call hcall hscope
    exact hbefore.congr rfl rfl
  cached := hcoh.cached
  accounted := by
    intro pod hpod hscope object hbuilt
    rcases hcoh.accounted pod hpod hscope object hbuilt with hcached | hstores
    · exact .inl hcached
    · refine .inr (hstores.other thread (fun other hother => update_of_ne hother _ _) ?_)
      rintro frame callers hgetting rfl
      exact hstoring frame callers hgetting hscope (some object)
  future := hcoh.future
  once := hcoh.once
  returned := by
    intro pod object number hmem
    rcases hret pod object number hmem with hold | hnew
    · exact hcoh.returned pod object number hold
    · exact hnew

section

variable (hmode : threads.mode thread = .getting frame callers)
include hmode

theorem goes {stage : Stage ω} {lock : ReentrantLock ι}
    (hdisc : Disciplined registry
      { threads.setMode thread (.getting (frame.go stage) callers) with singletonLock := lock })
    (hsound : frame.pod.scope = .singleton → (frame.go stage).Sound threads)
    (hstoring : frame.pod.scope = .singleton → ∀ object, frame.stage ≠ .storing object) :
    Coherent registry
      { threads.setMode thread (.getting (frame.go stage) callers) with
        singletonLock := lock } := by
  refine hcoh.quiet hdisc ?_ ?_ fun _ _ _ hmem => .inl hmem
  · intro call hcall hscope
    rcases mem_cons.mp hcall with rfl | hcaller
    · exact hsound hscope
    · apply hcoh.sound thread call ?_ hscope
      rw [hmode]
      exact .tail _ hcaller
  · intro inner outer hgetting
    rw [hmode] at hgetting
    cases hgetting
    exact hstoring

theorem sound_returning (result : Result ω) :
    ∀ call ∈ (Mode.returning result callers).frames, call.pod.scope = .singleton →
      call.Sound threads := by
  have hnest := hcoh.nested thread frame callers hmode
  intro call hcall hscope
  cases callers with
  | nil => cases hcall
  | cons caller callers =>
    have hbefore : ∀ call ∈ caller :: callers, call.pod.scope = .singleton →
        call.Sound threads := by
      intro call hcall
      apply hcoh.sound thread call
      rw [hmode]
      exact .tail _ hcall
    rcases mem_cons.mp hcall with rfl | hcaller
    · obtain ⟨_, _, hstage, -⟩ := hnest.awaiting caller (.head _)
      rcases Nested.resume_cases hstage result with hresume | hresume
      · rw [hresume]
        trivial
      · rw [hresume] at hscope ⊢
        exact (hbefore caller (.head _) hscope).at_stage hstage rfl
    · exact hbefore call (.tail _ hcaller) hscope

/-- A call ends; what a SINGLETON call returns is the only object. -/
theorem finishes (result : Result ω)
    (hres : frame.pod.scope = .singleton → ∀ object, result = .value (some object) →
      threads.constructed frame.pod.name threads.clearings = [object])
    (hstoring : ∀ object, frame.stage ≠ .storing object) (lock : ReentrantLock ι)
    (hdisc : Disciplined registry
      { threads.finish thread frame.pod callers result with singletonLock := lock }) :
    Coherent registry
      { threads.finish thread frame.pod callers result with singletonLock := lock } := by
  have hnest := hcoh.nested thread frame callers hmode
  refine hcoh.quiet hdisc (hcoh.sound_returning hmode result) ?_ ?_
  · intro inner outer hgetting _
    rw [hmode] at hgetting
    cases hgetting
    exact hstoring
  intro pod object number hmem
  simp only [Threads.finish] at hmem
  split at hmem
  next found hscope =>
    rcases mem_append.mp hmem with hold | hnew
    · exact .inl hold
    · cases mem_singleton.mp hnew
      exact .inr ⟨hnest.registered frame (.head _), hscope, hres hscope object rfl⟩
  next => exact .inl hmem

/-- Where a SINGLETON call changes what is known of its Pod, no other call is
concerned. -/
theorem changes (hinst : frame.pod.scope = .singleton → frame.stage.isInstantiating = true)
    (stage : Stage ω)
    (hnext : next.mode = Function.update threads.mode thread (.getting (frame.go stage) callers))
    (hclearings : next.clearings = threads.clearings) (hcache : ∀ name, name ≠ frame.pod.name →
      next.singletonCache name = threads.singletonCache name)
    (hconstructed : ∀ name, name ≠ frame.pod.name →
      next.constructed name = threads.constructed name)
    (hsound : frame.pod.scope = .singleton → (frame.go stage).Sound next) :
    ∀ other, ∀ call ∈ (next.mode other).frames, call.pod.scope = .singleton → call.Sound next := by
  have hnest := hcoh.nested thread frame callers hmode
  -- a call of another thread or a caller, which is of another Pod or outside of the lock
  have helse : ∀ other, ∀ call ∈ (threads.mode other).frames, call.pod.scope = .singleton →
      (other = thread → call ∈ callers) → call.Sound next := by
    intro other call hcall hscope hcaller
    have hbefore := hcoh.sound other call hcall hscope
    by_cases hname : call.pod.name = frame.pod.name
    · cases hlocked : call.stage.isLocked with
      | false => exact .of_not_locked hlocked next
      | true =>
        have hcallPod : call.pod ∈ registry.pods := by
          cases hother : threads.mode other with
          | getting inner outer =>
            rw [hother] at hcall
            exact (hcoh.nested other inner outer hother).registered call hcall
          | idle | acquiring | clearing | releasing => rw [hother] at hcall; cases hcall
        have hpod : call.pod = frame.pod :=
          Registry.eq_of_name hcallPod (hnest.registered frame (.head _)) hname
        have hframeScope : frame.pod.scope = .singleton := hpod ▸ hscope
        obtain ⟨hsame, hnot⟩ := hcoh.only_call hmode hframeScope (hinst hframeScope)
          hcall hscope hlocked hname
        exact absurd (hcaller hsame) hnot
    · exact hbefore.congr (hcache _ hname) (by rw [hconstructed _ hname, hclearings])
  intro other call hcall hscope
  rw [hnext] at hcall
  by_cases hsame : other = thread
  · rw [hsame, update_self] at hcall
    rcases mem_cons.mp hcall with rfl | hcaller
    · exact hsound hscope
    · refine helse thread call ?_ hscope fun _ => hcaller
      rw [hmode]
      exact .tail _ hcaller
  · rw [update_of_ne hsame] at hcall
    exact helse other call hcall hscope fun heq => absurd heq hsame

/-- What a SINGLETON call that is about to construct its Pod knows. -/
theorem unconstructed
    (hscope : frame.pod.scope = .singleton) (hstage : frame.stage = .constructing) :
    threads.singletonCache frame.pod.name = none ∧
      threads.constructed frame.pod.name threads.clearings = [] :=
  (hcoh.sound thread frame (by rw [hmode]; exact .head _) hscope).at_stage hstage rfl

theorem constructs (object : Option ω) (hstage : frame.stage = .constructing)
    (hnext : next = { threads.setMode thread (.getting (frame.go (.storing object)) callers) with
      constructed := Function.update threads.constructed frame.pod.name
        (Function.update (threads.constructed frame.pod.name) threads.clearings
          (threads.constructed frame.pod.name threads.clearings ++ object.toList)) })
    (hdisc : Disciplined registry next) : Coherent registry next := by
  have hnest := hcoh.nested thread frame callers hmode
  have hframe := hnest.registered frame (.head _)
  have hknown := fun hscope => hcoh.unconstructed hmode hscope hstage
  -- of a SINGLETON Pod, only the list of the constructing call changes, from empty
  have hpods : ∀ pod ∈ registry.pods, pod.scope = .singleton → ∀ number,
      next.constructed pod.name number = threads.constructed pod.name number ∨
        pod = frame.pod ∧ number = threads.clearings ∧
          next.constructed pod.name number = object.toList := by
    intro pod hpod hscope number
    rw [hnext]
    by_cases hname : pod.name = frame.pod.name
    · have hsame : pod = frame.pod := Registry.eq_of_name hpod hframe hname
      subst hsame
      by_cases hnumber : number = threads.clearings
      · simp [hnumber, (hknown hscope).2]
      · simp [hnumber]
    · simp [hname]
  subst hnext
  refine { toDisciplined := hdisc, sound := ?_, cached := ?_, accounted := ?_,
           future := ?_, once := ?_, returned := ?_ }
  · refine hcoh.changes hmode (fun _ => by rw [hstage]; rfl) _ rfl rfl (fun _ _ => rfl) ?_ ?_
    · exact fun _ hname => update_of_ne hname _ _
    · intro hscope
      refine ⟨(hknown hscope).1, ?_⟩
      simp [Frame.go, Threads.setMode, (hknown hscope).2]
  · intro pod hpod hscope found hfound
    rcases hpods pod hpod hscope threads.clearings with hsame | ⟨rfl, -, -⟩
    · exact hsame.trans (hcoh.cached pod hpod hscope found hfound)
    · cases (hknown hscope).1.symm.trans hfound
  · intro pod hpod hscope found hbuilt
    rcases hpods pod hpod hscope threads.clearings with hsame | ⟨rfl, -, hnew⟩
    · rcases hcoh.accounted pod hpod hscope found (hsame.symm.trans hbuilt) with hcached | hstoring
      · exact .inl hcached
      · refine .inr (hstoring.other thread (fun _ hother => update_of_ne hother _ _) ?_)
        intro inner outer hgetting _
        rw [hmode] at hgetting
        cases hgetting
        rw [hstage]
        exact nofun
    · refine .inr ⟨thread, frame.go (.storing object), callers, update_self _ _ _, rfl, ?_⟩
      rw [Option.toList_eq_singleton_iff.mp (hnew.symm.trans hbuilt)]
      rfl
  · intro name number hlater
    by_cases hname : name = frame.pod.name
    · have hother : number ≠ threads.clearings := Nat.ne_of_gt hlater
      simpa [hname, hother] using hcoh.future _ number hlater
    · simpa [hname] using hcoh.future name number hlater
  · intro pod hpod hscope number
    rcases hpods pod hpod hscope number with hsame | ⟨-, -, hnew⟩
    · rw [hsame]
      exact hcoh.once pod hpod hscope number
    · rw [hnew]
      exact Option.length_toList_le
  · intro pod found number hmem
    obtain ⟨hpod, hscope, hbefore⟩ := hcoh.returned pod found number hmem
    refine ⟨hpod, hscope, ?_⟩
    rcases hpods pod hpod hscope number with hsame | ⟨rfl, rfl, -⟩
    · rw [hsame, hbefore]
    · cases (hknown hscope).2.symm.trans hbefore

theorem stores (object : Option ω) (hstage : frame.stage = .storing object)
    (hscope : frame.pod.scope = .singleton)
    (hdisc : Disciplined registry
      { threads.setMode thread (.getting (frame.go (.leaving (.value object))) callers) with
        singletonCache := Function.update threads.singletonCache frame.pod.name object }) :
    Coherent registry
      { threads.setMode thread (.getting (frame.go (.leaving (.value object))) callers) with
        singletonCache := Function.update threads.singletonCache frame.pod.name object } := by
  have hbuilt : threads.constructed frame.pod.name threads.clearings = object.toList :=
    ((hcoh.sound thread frame (by rw [hmode]; exact .head _) hscope).at_stage hstage rfl).2
  refine { toDisciplined := hdisc, sound := ?_, cached := ?_, accounted := ?_,
           future := hcoh.future, once := hcoh.once, returned := hcoh.returned }
  · refine hcoh.changes hmode (fun _ => by rw [hstage]; rfl) _ rfl rfl ?_ (fun _ _ => rfl) ?_
    · exact fun _ hname => update_of_ne hname _ _
    · intro _
      cases object with
      | none => trivial
      | some => exact hbuilt
  · intro pod hpod hpodScope found hfound
    rcases update_cases hfound with ⟨hname, rfl⟩ | ⟨-, hbefore⟩
    · rw [hname]
      exact hbuilt
    · exact hcoh.cached pod hpod hpodScope found hbefore
  · intro pod hpod hpodScope found hfound
    by_cases hname : pod.name = frame.pod.name
    · rw [hname] at hfound ⊢
      have hobject := Option.toList_eq_singleton_iff.mp (hbuilt.symm.trans hfound)
      exact .inl ((update_self _ _ _).trans hobject)
    · rcases hcoh.accounted pod hpod hpodScope found hfound with hcached | hstoring
      · exact .inl ((update_of_ne hname _ _).trans hcached)
      · refine .inr (hstoring.other thread (fun _ hother => update_of_ne hother _ _) ?_)
        rintro inner outer hgetting rfl
        rw [hmode] at hgetting
        cases hgetting
        exact absurd rfl hname

/-- A Pod that is not cached when a call looks under the lock has not been
constructed: who has constructed it holds the lock until it is cached. -/
theorem unconstructed_of_missing (hscope : frame.pod.scope = .singleton)
    (hstage : frame.stage = .lookingAgain) (hcache : threads.singletonCache frame.pod.name = none) :
    threads.constructed frame.pod.name threads.clearings = [] := by
  have hframe := (hcoh.nested thread frame callers hmode).registered frame
    (.head _)
  have hholds : 0 < threads.singletonLock.count thread :=
    hcoh.holds_of_locked (by rw [hmode]; exact .head _) hscope
      (by rw [hstage]; rfl)
  cases hbuilt : threads.constructed frame.pod.name threads.clearings with
  | nil => rfl
  | cons object rest =>
    have honce := hcoh.once frame.pod hframe hscope threads.clearings
    rw [hbuilt, length_cons] at honce
    obtain rfl : rest = [] := length_eq_zero_iff.mp (by omega)
    rcases hcoh.accounted frame.pod hframe hscope object hbuilt with hcached |
        ⟨other, _, _, hother, hpod, hstoring⟩
    · rw [hcache] at hcached
      cases hcached
    · obtain rfl : other = thread := hcoh.alone hholds (by rw [hother]; exact .head _)
        (hpod ▸ hscope) (by rw [hstoring]; rfl)
      rw [hmode] at hother
      cases hother
      rw [hstage] at hstoring
      cases hstoring

theorem advances (hadv : Advances registry threads thread frame callers next) :
    Coherent registry next := by
  have hnest := hcoh.nested thread frame callers hmode
  have hdisc := hcoh.toDisciplined.advances hmode hadv
  have hsound : frame.pod.scope = .singleton → frame.Sound threads :=
    hcoh.sound thread frame (by rw [hmode]; exact .head _)
  have hframe := hnest.registered frame (.head _)
  cases hadv with
  | waits => exact hcoh
  | callerWaits => exact hcoh
  | finds object hstage hscope hcache =>
    refine hcoh.finishes hmode _ ?_ (fun _ => by rw [hstage]; exact nofun)
      threads.singletonLock hdisc
    rintro - _ ⟨⟩
    exact hcoh.cached frame.pod hframe hscope object hcache
  | misses hstage =>
    exact hcoh.goes hmode hdisc (fun _ => trivial) (fun _ _ => by rw [hstage]; exact nofun)
  | findsInContext _ hstage hscope =>
    exact hcoh.finishes hmode _ (fun hsing => absurd hsing hscope)
      (fun _ => by rw [hstage]; exact nofun) threads.singletonLock hdisc
  | enters _ hscope =>
    exact hcoh.goes hmode hdisc (fun hsing => absurd hsing hscope)
      (fun hsing => absurd hsing hscope)
  | acquires _ hstage =>
    exact hcoh.goes hmode hdisc (fun _ => trivial) (fun _ _ => by rw [hstage]; exact nofun)
  | findsAgain object hstage hcache =>
    exact hcoh.goes hmode hdisc (fun hscope => hcoh.cached frame.pod hframe hscope object hcache)
      (fun _ _ => by rw [hstage]; exact nofun)
  | missesAgain hstage hcache =>
    have hmiss := fun hscope =>
      hcoh.unconstructed_of_missing hmode hscope hstage hcache
    exact hcoh.goes hmode hdisc (fun hscope => ⟨hcache, hmiss hscope⟩)
      (fun _ _ => by rw [hstage]; exact nofun)
  | gathers hstage =>
    exact hcoh.goes hmode hdisc (fun hscope => (hsound hscope).at_stage hstage rfl)
      (fun _ _ => by rw [hstage]; exact nofun)
  | calls _ _ _ hstage =>
    refine hcoh.quiet hdisc ?_ ?_ fun _ _ _ hmem => .inl hmem
    · intro call hcall hscope
      rcases mem_cons.mp hcall with rfl | hcaller
      · trivial
      rcases mem_cons.mp hcaller with rfl | hcaller
      · exact (hsound hscope).at_stage hstage rfl
      · apply hcoh.sound thread call ?_ hscope
        rw [hmode]
        exact .tail _ hcaller
    · intro inner outer hgetting _ _
      rw [hmode] at hgetting
      cases hgetting
      rw [hstage]
      exact nofun
  | gathered hstage =>
    exact hcoh.goes hmode hdisc (fun hscope => (hsound hscope).at_stage hstage rfl)
      (fun _ _ => by rw [hstage]; exact nofun)
  | aborts hstage =>
    refine hcoh.goes hmode hdisc (fun _ => trivial) ?_
    rintro - object
    rcases hstage with hstage | ⟨_, hstage⟩ | hstage
    · rw [hstage]; exact nofun
    · rw [hstage]; exact nofun
    · rw [hstage]; exact nofun
  | constructs object hstage =>
    exact hcoh.constructs hmode object hstage rfl hdisc
  | stores object hstage hscope =>
    exact hcoh.stores hmode object hstage hscope hdisc
  | keeps _ _ hscope =>
    exact hcoh.goes hmode hdisc (fun hsing => absurd hsing hscope)
      (fun hsing => absurd hsing hscope)
  | leaves result hstage hscope =>
    refine hcoh.finishes hmode result ?_ (fun _ => by rw [hstage]; exact nofun) _ hdisc
    rintro - object rfl
    exact (hsound hscope).at_stage hstage rfl
  | returns result hstage hscope =>
    exact hcoh.finishes hmode result (fun hsing => absurd hsing hscope)
      (fun _ => by rw [hstage]; exact nofun) threads.singletonLock hdisc

end

theorem steps (hsteps : ThreadSteps registry threads next) : Coherent registry next := by
  have hdisc := hcoh.toDisciplined.steps hsteps
  -- a thread that is in no call is storing nothing
  have hstoring : ∀ thread, (threads.mode thread).frames = [] →
      ∀ frame callers, threads.mode thread = .getting frame callers →
        frame.pod.scope = .singleton → ∀ object, frame.stage ≠ .storing object := by
    intro thread hframes frame callers hmode
    rw [hmode] at hframes
    cases hframes
  cases hsteps with
  | stays => exact hcoh
  | begins thread _ hmode =>
    refine hcoh.quiet hdisc ?_ (hstoring thread (by rw [hmode]; rfl))
      fun _ _ _ hmem => .inl hmem
    intro call hcall _
    rw [mem_singleton.mp hcall]
    trivial
  | beginsClear thread hmode =>
    exact hcoh.quiet hdisc nofun (hstoring thread (by rw [hmode]; rfl))
      fun _ _ _ hmem => .inl hmem
  | advances _ _ _ _ hmode hadv => exact hcoh.advances hmode hadv
  | acquires thread _ hmode =>
    exact hcoh.quiet hdisc nofun (hstoring thread (by rw [hmode]; rfl))
      fun _ _ _ hmem => .inl hmem
  | clears thread hmode =>
    have hholds : 0 < threads.singletonLock.count thread := by
      rw [← hcoh.locks, hmode]
      exact Nat.one_pos
    refine { toDisciplined := hdisc, sound := ?_, cached := nofun, accounted := ?_,
             future := ?_, once := hcoh.once, returned := hcoh.returned }
    · -- the thread that clears holds the lock, so no call is inside of it
      intro other call hcall hscope
      apply Frame.Sound.of_not_locked
      by_contra hlocked
      rw [Bool.not_eq_false] at hlocked
      change call ∈ (update threads.mode thread .releasing other).frames at hcall
      by_cases hsame : other = thread
      · rw [hsame, update_self] at hcall
        cases hcall
      · rw [update_of_ne hsame] at hcall
        exact hsame (hcoh.alone hholds hcall hscope hlocked)
    · intro pod hpod hscope object hbuilt
      change threads.constructed pod.name (threads.clearings + 1) = [object] at hbuilt
      rw [hcoh.future pod.name _ (Nat.lt_succ_self _)] at hbuilt
      cases hbuilt
    · intro name number hlater
      exact hcoh.future name number (Nat.lt_of_succ_lt hlater)
  | releases thread hmode =>
    exact hcoh.quiet hdisc nofun (hstoring thread (by rw [hmode]; rfl))
      fun _ _ _ hmem => .inl hmem

end

theorem initial : Coherent registry (Threads.initial : Threads ι ω) where
  toDisciplined := .initial
  sound := nofun
  cached := nofun
  accounted := nofun
  future := fun _ _ _ => rfl
  once := fun _ _ _ _ => Nat.zero_le _
  returned := nofun

end Coherent

theorem coherent_run (registry : Registry) (actions : List (ThreadAction ι ω)) :
    Coherent registry (run (Threads.step registry) Threads.initial actions) := by
  refine invariant_run ?_ Coherent.initial actions
  intro threads action hcoh
  exact hcoh.steps (threads.step_steps registry action)

end Spakky.Container
