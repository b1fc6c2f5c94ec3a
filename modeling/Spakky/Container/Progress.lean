import Mathlib.Algebra.Order.BigOperators.Group.Finset
import Spakky.Container.Precedence
import Spakky.Container.Uniqueness

/-!
Gets from several threads end. There is one lock, and who holds it never waits
for it, so some thread can always move; and every move of a thread brings its
get closer to its end, since nested calls are of different types and a plan is
finite.
-/

namespace Spakky.Container

open Machine List Function Threads

variable {ι ω : Type}

section Work

variable (registry : Registry)

/-- The number of registered Pods whose type is not being constructed. -/
def Registry.unseen (types : List PyType) : Nat :=
  ((registry.pods.map (·.type_)).filter fun type_ => decide (type_ ∉ types)).length

/-- A bound for the length of every plan. -/
def Registry.longestPlan : Nat := (registry.pods.map fun pod => (registry.plan pod).length).sum

/-- A bound for the moves of one call, with all that it calls, by the number of
Pods that may still be nested in it. -/
def Registry.callWork : Nat → Nat
  | 0 => 8
  | depth + 1 => 8 + registry.longestPlan * (callWork depth + 1)

/-- The moves that a call still has before it, apart from those of a call that
it is waiting for. -/
def Frame.work (frame : Frame ω) (callerTypes : List PyType) : Nat :=
  let atStart := registry.callWork (registry.unseen callerTypes)
  let ofLoop (todo : List Need) :=
    todo.length * (registry.callWork (registry.unseen (frame.pod.type_ :: callerTypes)) + 1) + 4
  match frame.stage with
  | .looking => atStart
  | .acquiring => atStart - 1
  | .lookingAgain => atStart - 2
  | .entering => atStart - 3
  | .gathering todo => ofLoop todo
  | .awaiting _ todo => ofLoop todo
  | .constructing => 3
  | .storing _ => 2
  | .leaving _ => 1

def stackWork : List (Frame ω) → Nat
  | [] => 0
  | frame :: callers => frame.work registry (callers.map (·.pod.type_)) + stackWork callers

def Mode.work : Mode ω → Nat
  | .idle => 0
  | .getting frame callers => stackWork registry (frame :: callers)
  | .acquiring => 3
  | .clearing => 2
  | .releasing => 1

end Work

section Bounds

variable {registry : Registry}

theorem Registry.eight_le_callWork (registry : Registry) (depth : Nat) :
    8 ≤ registry.callWork depth := by
  cases depth with
  | zero => exact Nat.le_refl _
  | succ => exact Nat.le_add_right _ _

theorem Registry.callWork_mono (registry : Registry) {depth deeper : Nat} (hle : depth ≤ deeper) :
    registry.callWork depth ≤ registry.callWork deeper := by
  have hstep : ∀ depth, registry.callWork depth ≤ registry.callWork (depth + 1) := by
    intro depth
    induction depth with
    | zero => exact Nat.le_add_right _ _
    | succ depth ih =>
      change 8 + registry.longestPlan * (registry.callWork depth + 1) ≤
        8 + registry.longestPlan * (registry.callWork (depth + 1) + 1)
      exact Nat.add_le_add_left (Nat.mul_le_mul_left _ (Nat.succ_le_succ ih)) 8
  exact monotone_nat_of_le_succ hstep hle

theorem Registry.unseen_cons {pod : Pod} (hpod : pod ∈ registry.pods) {types : List PyType}
    (hnew : pod.type_ ∉ types) : registry.unseen (pod.type_ :: types) < registry.unseen types := by
  have hfil : (registry.pods.map (·.type_)).filter
        (fun type_ => decide (type_ ∉ pod.type_ :: types)) =
      ((registry.pods.map (·.type_)).filter fun type_ => decide (type_ ∉ types)).filter
        fun type_ => decide (type_ ≠ pod.type_) := by
    rw [filter_filter]
    congr 1
    funext type_
    simp
  unfold unseen
  rw [hfil, length_filter_lt_length_iff_exists]
  refine ⟨pod.type_, mem_filter.mpr ⟨mem_map_of_mem hpod, by simpa using hnew⟩, ?_⟩
  simp

theorem Registry.plan_le_longest {pod : Pod} (hpod : pod ∈ registry.pods) :
    (registry.plan pod).length ≤ registry.longestPlan :=
  le_sum_of_mem (mem_map_of_mem hpod)

/-- The loop over the dependencies takes less than is left to a call that has
passed the check for cycles. -/
theorem Registry.loop_lt {pod : Pod} (hpod : pod ∈ registry.pods) {types : List PyType}
    (hnew : pod.type_ ∉ types) :
    (registry.plan pod).length * (registry.callWork (registry.unseen (pod.type_ :: types)) + 1) +
      4 < registry.callWork (registry.unseen types) - 3 := by
  have hunseen := unseen_cons hpod hnew
  obtain ⟨depth, hdepth⟩ : ∃ depth, registry.unseen types = depth + 1 :=
    Nat.exists_eq_succ_of_ne_zero (by omega)
  have hinner : registry.callWork (registry.unseen (pod.type_ :: types)) ≤
      registry.callWork depth := registry.callWork_mono (by omega)
  have hproduct : (registry.plan pod).length *
      (registry.callWork (registry.unseen (pod.type_ :: types)) + 1) ≤
      registry.longestPlan * (registry.callWork depth + 1) :=
    Nat.mul_le_mul (plan_le_longest hpod) (Nat.succ_le_succ hinner)
  rw [hdepth]
  change _ < 8 + registry.longestPlan * (registry.callWork depth + 1) - 3
  omega

theorem Frame.work_pos (registry : Registry) (frame : Frame ω) (types : List PyType) :
    0 < frame.work registry types := by
  have hcall := registry.eight_le_callWork (registry.unseen types)
  unfold work
  dsimp only
  split <;> omega

/-- A caller that goes on has no more before it than while it waited. -/
theorem work_returning {frame : Frame ω} {callers : List (Frame ω)}
    (hnest : Nested registry frame callers) (result : Result ω) :
    (Mode.returning result callers).work registry ≤ stackWork registry callers := by
  cases callers with
  | nil => exact Nat.le_refl _
  | cons caller =>
    obtain ⟨_, _, hstage, -⟩ := hnest.awaiting caller (.head _)
    apply Nat.add_le_add_right
    rcases Nested.resume_cases hstage result with hresume | hresume
    · rw [hresume]
      exact caller.work_pos registry _
    · rw [hresume]
      simp only [Frame.work, Frame.go, hstage]
      exact Nat.le_refl _

end Bounds

variable [DecidableEq ι]

/-- The thread waits for the lock. -/
def Threads.Blocked (threads : Threads ι ω) (thread : ι) : Prop :=
  threads.singletonLock.acquire thread = none ∧
    (threads.mode thread = .acquiring ∨
      ∃ frame callers, threads.mode thread = .getting frame callers ∧ frame.stage = .acquiring)

variable {registry : Registry} {threads next : Threads ι ω} {thread : ι}

/-- A move of a call that need not wait. -/
theorem Advances.work_lt {frame : Frame ω} {callers : List (Frame ω)}
    (hadv : Advances registry threads thread frame callers next)
    (hnest : Nested registry frame callers)
    (hmode : threads.mode thread = .getting frame callers) (hfree : ¬ threads.Blocked thread) :
    ∃ mode, next.mode = update threads.mode thread mode ∧
      mode.work registry < (threads.mode thread).work registry := by
  have hcall := registry.eight_le_callWork (registry.unseen (callers.map (·.pod.type_)))
  rw [hmode]
  -- the innermost call goes on to a stage with less before it
  have hgoes : ∀ stage : Stage ω,
      (frame.go stage).work registry (callers.map (·.pod.type_)) <
        frame.work registry (callers.map (·.pod.type_)) →
      (Mode.getting (frame.go stage) callers).work registry <
        (Mode.getting frame callers).work registry := fun stage hless =>
    Nat.add_lt_add_right hless _
  have hfinishes : ∀ result, (Mode.returning result callers).work registry <
      (Mode.getting frame callers).work registry := by
    intro result
    have hcallers := work_returning hnest result
    have hframe := frame.work_pos registry (callers.map (·.pod.type_))
    simp only [Mode.work, stackWork] at hcallers ⊢
    omega
  cases hadv with
  | waits hstage hlock => exact absurd ⟨hlock, .inr ⟨frame, callers, hmode, hstage⟩⟩ hfree
  | callerWaits required todo hstage => exact absurd hstage (hnest.running required todo)
  | finds | findsInContext | leaves | returns => exact ⟨_, rfl, hfinishes _⟩
  | misses hstage | enters hstage | acquires _ hstage | findsAgain _ hstage
  | missesAgain hstage | constructs _ hstage | stores _ hstage | keeps _ hstage =>
    refine ⟨_, rfl, hgoes _ ?_⟩
    simp only [Frame.work, Frame.go, hstage]
    omega
  | gathers hstage hnew =>
    refine ⟨_, rfl, hgoes _ ?_⟩
    simp only [Frame.work, Frame.go, hstage]
    exact Registry.loop_lt (hnest.registered frame (.head _)) hnew
  | calls _ _ _ hstage =>
    refine ⟨_, rfl, ?_⟩
    simp only [Mode.work, stackWork, Frame.work, Frame.go, hstage, map_cons, length_cons,
      Nat.succ_mul]
    omega
  | gathered hstage =>
    refine ⟨_, rfl, hgoes _ ?_⟩
    simp only [Frame.work, Frame.go, hstage, length_nil]
    omega
  | aborts hstage =>
    refine ⟨_, rfl, hgoes _ ?_⟩
    rcases hstage with hstage | ⟨_, hstage⟩ | hstage
    all_goals
      simp only [Frame.work, Frame.go, hstage]
      omega

/-- A thread that has a call to end and need not wait comes closer to its end,
whatever constructors do. -/
theorem Threads.move_work_lt (hdisc : Disciplined registry threads)
    (hbusy : threads.mode thread ≠ .idle) (hfree : ¬ threads.Blocked thread) (choice : Choice ω) :
    ∃ mode, (threads.step registry (.move thread choice)).mode =
        update threads.mode thread mode ∧
      mode.work registry < (threads.mode thread).work registry := by
  cases hmode : threads.mode thread with
  | idle => exact absurd hmode hbusy
  | getting frame callers =>
    have hadv := threads.advance_advances registry thread choice frame callers
    have hwork := hadv.work_lt (hdisc.nested thread frame callers hmode) hmode hfree
    simp only [step, hmode]
    rwa [hmode] at hwork
  | acquiring =>
    simp only [step, hmode]
    split
    next hlock => exact absurd ⟨hlock, .inl hmode⟩ hfree
    next lock hlock => exact ⟨.clearing, rfl, Nat.lt_succ_self _⟩
  | clearing =>
    simp only [step, hmode]
    exact ⟨.releasing, rfl, Nat.lt_succ_self _⟩
  | releasing =>
    simp only [step, hmode]
    exact ⟨.idle, rfl, Nat.lt_succ_self _⟩

theorem Threads.step_of_blocked (hblk : threads.Blocked thread) (choice : Choice ω) :
    threads.step registry (.move thread choice) = threads := by
  obtain ⟨hlock, hmode | ⟨_, _, hmode, hstage⟩⟩ := hblk
  · simp only [step, hmode, hlock]
  · simp only [step, hmode, advance, hstage, hlock]

/-- Who waits for the lock waits for a thread that has a call to end and does
not wait. -/
theorem Disciplined.holder_free (hdisc : Disciplined registry threads)
    (hblk : threads.Blocked thread) :
    ∃ holder, threads.mode holder ≠ .idle ∧ ¬ threads.Blocked holder := by
  obtain ⟨holder, -, hholds⟩ := ReentrantLock.acquire_none hblk.1
  refine ⟨holder, ?_, ?_⟩
  · intro hidle
    rw [← hdisc.locks, hidle] at hholds
    cases hholds
  · rintro ⟨hlock, -⟩
    obtain ⟨_, hother, howns⟩ := ReentrantLock.acquire_none hlock
    rw [ReentrantLock.count_other hholds hother] at howns
    cases howns

variable [Fintype ι]

/-- The moves that all calls together still have before them. -/
def Threads.work (registry : Registry) (threads : Threads ι ω) : Nat :=
  ∑ thread, (threads.mode thread).work registry

theorem Threads.work_update {mode : Mode ω} (hnext : next.mode = update threads.mode thread mode)
    (hless : mode.work registry < (threads.mode thread).work registry) :
    next.work registry < threads.work registry := by
  have hsum := sum_update (Mode.work registry) threads.mode thread mode
  unfold work
  rw [hnext]
  omega

/-- In every interleaving of gets, finds and clearings from any number of
threads, a SINGLETON Pod is constructed successfully at most once between two
clearings, and what its gets return is that object, if there is one when they end;
and while a call has not ended, some thread can move, with fewer moves left to all
calls, whatever the constructors do, and no move leaves more of them. -/
theorem singletons_unique (registry : Registry) (actions : List (ThreadAction ι ω)) :
    let threads := run (.step registry) Threads.initial actions
    (∀ pod ∈ registry.pods, pod.scope = .singleton → ∀ number,
      (threads.constructed pod.name number).length ≤ 1) ∧
    (∀ pod object number, (pod, object, number) ∈ threads.returned →
      threads.constructed pod.name number = [object]) ∧
    (∀ thread frame callers value, threads.mode thread = .getting frame callers →
      frame.pod.scope = .singleton → (frame.stage = .leaving (.value value) ∨
        frame.stage = .looking ∧ value.isSome ∧ threads.singletonCache frame.pod.name = value) →
      threads.constructed frame.pod.name threads.clearings = value.toList) ∧
    (∀ thread, threads.mode thread ≠ .idle → ∃ other, ∀ choice,
      (threads.step registry (.move other choice)).work registry < threads.work registry) ∧
    ∀ thread choice,
      (threads.step registry (.move thread choice)).work registry ≤ threads.work registry := by
  intro threads
  have hcoherent : Coherent registry threads := coherent_run registry actions
  have hmoves : ∀ thread, threads.mode thread ≠ .idle → ¬ threads.Blocked thread → ∀ choice,
      (threads.step registry (.move thread choice)).work registry < threads.work registry := by
    intro thread hbusy hfree choice
    obtain ⟨_, hmode, hless⟩ := move_work_lt hcoherent.toDisciplined hbusy hfree choice
    exact work_update hmode hless
  refine ⟨hcoherent.once, fun pod object number hmem =>
    (hcoherent.returned pod object number hmem).2.2, ?_, ?_, ?_⟩
  · intro thread frame callers value hmode hscope hends
    rcases hends with hstage | ⟨_, hsome, hcache⟩
    · exact (hcoherent.sound thread frame (hmode ▸ .head _) hscope).at_stage hstage rfl
    · obtain ⟨object, rfl⟩ := Option.isSome_iff_exists.mp hsome
      have hpod := (hcoherent.nested thread frame callers hmode).registered frame (.head _)
      exact hcoherent.cached _ hpod hscope object hcache
  · intro thread hbusy
    by_cases hblocked : threads.Blocked thread
    · obtain ⟨holder, hholder, hfree⟩ := hcoherent.holder_free hblocked
      exact ⟨holder, hmoves holder hholder hfree⟩
    · exact ⟨thread, hmoves thread hbusy hblocked⟩
  · intro thread choice
    by_cases hblocked : threads.Blocked thread
    · rw [step_of_blocked hblocked]
    · by_cases hidle : threads.mode thread = .idle
      · have hstays : threads.step registry (.move thread choice) = threads := by
          simp only [step, hidle]
        rw [hstays]
      · exact Nat.le_of_lt (hmoves thread hidle hblocked choice)

/-- Two threads look for the same Pod before either has constructed it. -/
def race : List (ThreadAction Bool Nat) :=
  [.get false (.type ⟨0, "Notifier"⟩) (some "email"),
    .get true (.type ⟨0, "Notifier"⟩) (some "email")] ++
  ([false, true, false, true, false, false, false, false, false, false, true, true, true].map
    fun thread => .move thread ⟨.value (some 7), none⟩)

theorem singletons_unique_race :
    ((run (Threads.step (Registry.notifiers true false)) Threads.initial race).constructed
      "email" 0).length ≤ 1 ∧
    (run (Threads.step (Registry.notifiers true false)) Threads.initial race).returned.map
      (fun entry => (entry.1.name, entry.2)) = [("email", 7, 0), ("email", 7, 0)] :=
  ⟨(singletons_unique (.notifiers true false) race).1
      ((Registry.notifiers true false).pods.get ⟨0, by decide⟩) (get_mem _ _) rfl 0, rfl⟩

end Spakky.Container
