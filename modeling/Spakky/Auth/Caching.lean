import Spakky.Auth.Enforcement
import Spakky.Cache.Aspect

/-!
Methods that are both protected and cached. The authorization aspects and the cache
aspects have the order zero, and the aspects found for a Pod come from a set: the sort
keeps them as they were enumerated, and the one enumerated first is the inner one. Only
if that is the cache aspect is every call authorized.

Aspects other than these call their joinpoint and return what it returns.
-/

namespace Spakky.Auth

open Effect Exec Python List
open Cache (Backend CallError Cacheable CacheEvict Arguments Runnable WovenAspect)

section Weaving

variable {ρ μ V α ε : Type}

inductive AspectKind (μ : Type) where
  | cache
  | authorization
  | other (order : Nat) (matchesMethod : μ → Bool)

/-- An aspect found for a Pod, for coroutine functions or for other methods. -/
structure FoundAspect (μ : Type) where
  kind : AspectKind μ
  isAsync : Bool

/-- The cache aspects and the authorization aspects have `@Order(0)`. -/
def FoundAspect.order (aspect : FoundAspect μ) : Nat :=
  match aspect.kind with
  | .cache | .authorization => 0
  | .other order _ => order

def FoundAspect.isCache (aspect : FoundAspect μ) : Bool :=
  match aspect.kind with
  | .cache => true
  | .authorization | .other _ _ => false

def FoundAspect.isAuthorization (aspect : FoundAspect μ) : Bool :=
  match aspect.kind with
  | .authorization => true
  | .cache | .other _ _ => false

/-- What is known of the methods, as in `Spakky.Cache.Program`, with the auth metadata of the
methods and of the classes of the Pods, and with the aspects found for a Pod as the set of
them is enumerated. -/
structure Application (ρ μ V α ε : Type) where
  module : μ → Text
  qualname : μ → Text
  isCoroutine : μ → Bool
  cacheable : μ → Option Cacheable
  cacheEvict : μ → Option CacheEvict
  methodAnnotations : μ → AuthAnnotations
  classAnnotations : ρ → AuthAnnotations
  result : ρ → μ → Arguments V → Except ε α
  found : ρ → List (FoundAspect μ)
  repr : V → Text
  printable : CodePoint → Bool
  format : Text → Arguments V → Option Text

/-- An error of the authorization aspect, or of the method. -/
inductive Raised (ε : Type) where
  | auth (error : AuthError ε)
  | method (error : ε)

variable (application : Application ρ μ V α ε)

/-- The sources of the metadata of a bound method. An `Advisor` passes on the attributes of
the method, `__self__` among them. -/
def Application.sources (pod : ρ) (method : μ) : List AuthAnnotations :=
  [application.classAnnotations pod, application.methodAnnotations method]

/-- `Aspect.matches` for a method of a Pod. -/
def Application.matchesMethod (pod : ρ) (method : μ) (aspect : FoundAspect μ) : Bool :=
  aspect.isAsync == application.isCoroutine method &&
    match aspect.kind with
    | .cache => (application.cacheable method).isSome || (application.cacheEvict method).isSome
    | .authorization => (application.sources pod method).any sourceHasAuthMetadata
    | .other _ matchesMethod => matchesMethod method

/-- The part of the application that `CacheAspect` sees. -/
def Application.program : Spakky.Cache.Program ρ μ V α (Raised ε) where
  module := application.module
  qualname := application.qualname
  cacheable := application.cacheable
  cacheEvict := application.cacheEvict
  result pod method arguments := (application.result pod method arguments).mapError .method
  aspects pod := (application.found pod).map fun aspect =>
    { order := aspect.order, isCache := aspect.isCache,
      matchesMethod := fun method => application.matchesMethod pod method aspect }
  repr := application.repr
  printable := application.printable
  format := application.format

/-- The aspects around a method, innermost first. -/
def Application.candidates (pod : ρ) (method : μ) : List (FoundAspect μ) :=
  ((application.found pod).insertionSort fun aspect other => other.order ≤ aspect.order).filter
    (application.matchesMethod pod method)

end Weaving

section Calls

variable {ρ μ V α ε : Type}

/-- The cache, and the requirements evaluated during the current call. -/
structure Session (α : Type) where
  cache : Backend α
  evaluated : List Evaluation

abbrev SessionM (α ε : Type) := Exec (Session α) (CallError (Raised ε))

/-- A computation on the cache. -/
def onCache {β φ : Type} (x : Exec (Backend α) φ β) : Exec (Session α) φ β := fun session =>
  ((x session.cache).1, { session with cache := (x session.cache).2 })

def sessionRecording : Recording (Session α) ε (CallError (Raised ε)) where
  record evaluation session := { session with evaluated := session.evaluated ++ [evaluation] }
  raised error := .method (.auth error)

/-- Who calls: the stored authentication state and the checkers, whose decisions may differ
from call to call. -/
structure Caller (ε : Type) where
  stored : ContextValue
  checkers : Checkers ε

structure ProtectedCall (ρ μ V ε : Type) where
  pod : ρ
  method : μ
  arguments : Arguments V
  caller : Caller ε

variable (application : Application ρ μ V α ε)

/-- The callable that the inner aspects and the method make up. -/
def joinpointOf (pod : ρ) (method : μ) (inner : List (FoundAspect μ)) : Runnable ρ μ :=
  inner.foldr (fun aspect next => .advisor aspect.isCache next) (.method pod method)

/-- A call through the advisors, outermost first. -/
def invokeChain (call : ProtectedCall ρ μ V ε) : List (FoundAspect μ) → SessionM α ε α
  | [] => ofExcept ((application.program.result call.pod call.method call.arguments).mapError
      .method)
  | aspect :: inner =>
    match aspect.kind with
    | .cache =>
      Spakky.Cache.around application.program (joinpointOf call.pod call.method inner) onCache
        (invokeChain call inner) call.arguments
    | .authorization =>
      authorizationAround sessionRecording call.caller.checkers
        (application.sources call.pod call.method) call.caller.stored (invokeChain call inner)
    | .other _ _ => invokeChain call inner

/-- A call through the proxy of the Pod. -/
def ProtectedCall.invoke (call : ProtectedCall ρ μ V ε) : SessionM α ε α :=
  invokeChain application call (application.candidates call.pod call.method).reverse

/-- The cache changes by itself, or a method of a Pod is called. -/
inductive Happening (ρ μ V α ε : Type) where
  | cacheChanges (change : Backend α → Backend α)
  | call (call : ProtectedCall ρ μ V ε)

/-- A call, with what it returned or raised and what was evaluated meanwhile. -/
structure Outcome (ρ μ V α ε : Type) where
  call : ProtectedCall ρ μ V ε
  result : Except (CallError (Raised ε)) α
  evaluated : List Evaluation

/-- What the calls of a run come to. -/
def outcomes : Backend α → List (Happening ρ μ V α ε) → List (Outcome ρ μ V α ε)
  | _, [] => []
  | cache, .cacheChanges change :: rest => outcomes (change cache) rest
  | cache, .call call :: rest =>
    ⟨call, (call.invoke application ⟨cache, []⟩).1,
        (call.invoke application ⟨cache, []⟩).2.evaluated⟩ ::
      outcomes (call.invoke application ⟨cache, []⟩).2.cache rest

end Calls

section Order

variable {ρ μ V α ε : Type} (application : Application ρ μ V α ε)

/-- The cache aspect or the authorization aspect for this kind of method. -/
def Application.guards (method : μ) (aspect : FoundAspect μ) : Bool :=
  aspect.isAsync == application.isCoroutine method && (aspect.isCache || aspect.isAuthorization)

/-- A method that is protected, by itself or by its class, and cached. -/
structure ProtectedCall.Guarded (call : ProtectedCall ρ μ V ε) : Prop where
  requirements : ∃ source ∈ application.sources call.pod call.method, source.requirements ≠ []
  cacheable : (application.cacheable call.method).isSome

/-- The set of the aspects found for the Pod has both aspects, and the cache aspect comes
first in its enumeration. -/
def ProtectedCall.CacheFirst (call : ProtectedCall ρ μ V ε) : Prop :=
  (application.found call.pod).filter (application.guards call.method) =
    [⟨.cache, application.isCoroutine call.method⟩,
      ⟨.authorization, application.isCoroutine call.method⟩]

variable {application} {call : ProtectedCall ρ μ V ε} {aspect : FoundAspect μ}

theorem order_of_guards {method : μ} (hguards : application.guards method aspect = true) :
    aspect.order = 0 := by
  obtain ⟨kind, _⟩ := aspect
  cases kind with
  | cache => rfl
  | authorization => rfl
  | other => simp [Application.guards, FoundAspect.isCache, FoundAspect.isAuthorization] at hguards

theorem matches_of_guards (hguarded : call.Guarded application)
    (hguards : application.guards call.method aspect = true) :
    application.matchesMethod call.pod call.method aspect = true := by
  obtain ⟨source, hsrc, hreqs⟩ := hguarded.requirements
  have hmeta : (application.sources call.pod call.method).any sourceHasAuthMetadata = true :=
    any_eq_true.mpr ⟨source, hsrc, by
      simp [sourceHasAuthMetadata, length_pos_iff, hreqs]⟩
  obtain ⟨kind, _⟩ := aspect
  cases kind with
  | cache =>
    simpa [Application.guards, Application.matchesMethod, FoundAspect.isCache,
      hguarded.cacheable] using hguards
  | authorization =>
    simpa [Application.guards, Application.matchesMethod, FoundAspect.isAuthorization,
      hmeta] using hguards
  | other => simp [Application.guards, FoundAspect.isCache, FoundAspect.isAuthorization] at hguards

/-- Sorting and selecting leave the two aspects in the order in which they were
enumerated. -/
theorem candidates_filter_guards (hguarded : call.Guarded application) :
    (application.candidates call.pod call.method).filter (application.guards call.method) =
      (application.found call.pod).filter (application.guards call.method) := by
  let descends : FoundAspect μ → FoundAspect μ → Prop := fun aspect other =>
    other.order ≤ aspect.order
  have hsel : (application.candidates call.pod call.method).filter
      (application.guards call.method) =
      ((application.found call.pod).insertionSort descends).filter
        (application.guards call.method) := by
    rw [Application.candidates, filter_filter]
    apply filter_congr
    intro aspect _
    cases hguards : application.guards call.method aspect with
    | true => simp [matches_of_guards hguarded hguards]
    | false => rfl
  rw [hsel]
  have hpairwise : ((application.found call.pod).filter (application.guards call.method)).Pairwise
      descends := by
    apply pairwise_of_forall_mem_list
    intro aspect hasp other hother
    have horder := order_of_guards (mem_filter.mp hasp).2
    have horder' := order_of_guards (mem_filter.mp hother).2
    exact Nat.le_of_eq (horder'.trans horder.symm)
  have hsublist := (sublist_insertionSort hpairwise filter_sublist).filter
    (application.guards call.method)
  rw [filter_filter] at hsublist
  simp only [Bool.and_self] at hsublist
  have hperm := (perm_insertionSort descends (application.found call.pod)).filter
    (application.guards call.method)
  exact (hsublist.eq_of_length hperm.length_eq.symm).symm

/-- What a call of the method itself does. -/
def ProtectedCall.body (application : Application ρ μ V α ε) (call : ProtectedCall ρ μ V ε) :
    SessionM α ε α :=
  ofExcept ((application.program.result call.pod call.method call.arguments).mapError .method)

/-- The aspects that are neither of the two do nothing. -/
theorem invokeChain_others {aspects inner : List (FoundAspect μ)}
    (hothers : ∀ aspect ∈ aspects, aspect.isCache = false ∧ aspect.isAuthorization = false) :
    invokeChain application call (aspects ++ inner) = invokeChain application call inner := by
  induction aspects with
  | nil => rfl
  | cons aspect _ ih =>
    have hrest := ih fun other hmem => hothers other (.tail _ hmem)
    obtain ⟨hcache, hauthorization⟩ := hothers aspect (.head _)
    obtain ⟨kind, _⟩ := aspect
    cases kind with
    | cache => cases hcache
    | authorization => cases hauthorization
    | other => exact hrest

theorem invokeChain_only_others {aspects : List (FoundAspect μ)}
    (hothers : ∀ aspect ∈ aspects, aspect.isCache = false ∧ aspect.isAuthorization = false) :
    invokeChain application call aspects = call.body application := by
  have hchain : invokeChain application call (aspects ++ []) = invokeChain application call [] :=
    invokeChain_others hothers
  rwa [append_nil] at hchain

/-- The aspects around a method, given the two that count. -/
theorem exists_candidates_reverse (hguarded : call.Guarded application)
    {first second : FoundAspect μ}
    (hfil : (application.found call.pod).filter (application.guards call.method) =
      [first, second]) :
    ∃ outer between inner : List (FoundAspect μ),
      (application.candidates call.pod call.method).reverse =
        outer ++ second :: (between ++ first :: inner) ∧
      ∀ aspect ∈ outer ++ between ++ inner,
        aspect.isCache = false ∧ aspect.isAuthorization = false := by
  rw [← candidates_filter_guards hguarded] at hfil
  obtain ⟨inner, _, hsplit, hinner, _, hrest⟩ := filter_eq_cons_iff.mp hfil
  obtain ⟨between, outer, hsplit', hbetween, _, houter⟩ := filter_eq_cons_iff.mp hrest
  refine ⟨outer.reverse, between.reverse, inner.reverse, by simp [hsplit, hsplit'], ?_⟩
  intro aspect hmem
  have hcand : aspect ∈ application.candidates call.pod call.method := by
    rw [hsplit, hsplit']
    simp only [mem_append, mem_reverse, mem_cons] at hmem ⊢
    tauto
  have hnot : application.guards call.method aspect = false := by
    simp only [mem_append, mem_reverse] at hmem
    rcases hmem with (hmem | hmem) | hmem
    · simpa using filter_eq_nil_iff.mp houter aspect hmem
    · simpa using hbetween aspect hmem
    · simpa using hinner aspect hmem
  have hmatches : aspect.isAsync = application.isCoroutine call.method := by
    have hmatch := (mem_filter.mp hcand).2
    simp only [Application.matchesMethod, Bool.and_eq_true, beq_iff_eq] at hmatch
    exact hmatch.1
  simpa [Application.guards, hmatches] using hnot

/-- What `AuthorizationAspect` does around a joinpoint of the call. -/
def ProtectedCall.authorized (application : Application ρ μ V α ε) (call : ProtectedCall ρ μ V ε) :
    SessionM α ε Unit :=
  authorize sessionRecording call.caller.checkers (application.sources call.pod call.method)
    call.caller.stored

/-- With the cache aspect enumerated first, the caller is authorized before the cache is
asked. -/
theorem invoke_cacheFirst (hguarded : call.Guarded application)
    (hfirst : call.CacheFirst application) :
    ∃ inner, call.invoke application = (do
      call.authorized application
      Spakky.Cache.around application.program (joinpointOf call.pod call.method inner) onCache
        (call.body application) call.arguments) := by
  obtain ⟨_, _, inner, hchain, hothers⟩ := exists_candidates_reverse hguarded hfirst
  simp only [mem_append] at hothers
  refine ⟨inner, ?_⟩
  rw [ProtectedCall.invoke, hchain,
    invokeChain_others fun aspect hmem => hothers aspect (.inl (.inl hmem)), invokeChain,
    invokeChain_others fun aspect hmem => hothers aspect (.inl (.inr hmem)), invokeChain,
    invokeChain_only_others fun aspect hmem => hothers aspect (.inr hmem)]
  rfl

end Order

section Refusals

variable {ρ μ V α ε : Type} {application : Application ρ μ V α ε} {call : ProtectedCall ρ μ V ε}

/-- The authorization aspect raised. -/
def Refused (result : Except (CallError (Raised ε)) α) : Prop :=
  ∃ error, result = .error (.method (.auth error))

/-- A call returns a value only to a caller for whom every requirement was evaluated and
allowed meanwhile, and whether a caller is refused does not depend on the cache. -/
structure Outcome.Secure (application : Application ρ μ V α ε) (outcome : Outcome ρ μ V α ε) :
    Prop where
  allowed : ∀ value, outcome.result = .ok value →
    ∃ authContext, outcome.call.caller.stored = .auth authContext ∧
      ∀ source ∈ application.sources outcome.call.pod outcome.call.method,
        ∀ requirement ∈ source.requirements, ∃ evaluation ∈ outcome.evaluated,
          evaluation.requirement = requirement ∧ evaluation.Allows authContext
  refused : ∀ cache : Backend α,
    Refused outcome.result ↔ Refused (outcome.call.invoke application ⟨cache, []⟩).1

/-- The errors that are not those of the authorization aspect. -/
def NotRefusal (error : CallError (Raised ε)) : Prop := ∀ refusal, error ≠ .method (.auth refusal)

variable {program : Spakky.Cache.Program ρ μ V α (Raised ε)} {joinpoint : Runnable ρ μ}
  {arguments : Arguments V}

theorem keyFromCall_not_refused {configuredKey : Option Text} {error : CallError (Raised ε)}
    (hkey : Spakky.Cache.keyFromCall program joinpoint configuredKey arguments = .error error) :
    NotRefusal error := by
  unfold Spakky.Cache.keyFromCall at hkey
  split at hkey
  · split at hkey
    · cases hkey
    · cases hkey
      rintro refusal ⟨⟩
  · cases hkey

/-- Refuses nobody and evaluates nothing. -/
def Harmless {β : Type} (x : SessionM α ε β) : Prop :=
  ∀ evaluated, Triple (·.evaluated = evaluated) x (fun _ session => session.evaluated = evaluated)
    fun error session => NotRefusal error ∧ session.evaluated = evaluated

section Harmless

variable {β γ : Type}

theorem Harmless.pure (b : β) : Harmless (pure b : SessionM α ε β) := fun _ =>
  .pure fun _ hs => hs

theorem Harmless.ofExcept {result : Except (CallError (Raised ε)) β}
    (hres : ∀ error, result = .error error → NotRefusal error) :
    Harmless (ofExcept result : SessionM α ε β) := fun _ =>
  .ofExcept (fun _ _ _ hs => hs) fun error _ herror hs => ⟨hres error herror, hs⟩

theorem Harmless.onCache {x : Exec (Backend α) (CallError (Raised ε)) β}
    (hx : RaisesOnly NotRefusal x) : Harmless (onCache x) := fun _ =>
  triple_iff.mpr fun _ hs => ⟨fun _ _ => hs, fun error herror => ⟨hx _ error herror, hs⟩⟩

theorem Harmless.bind {x : SessionM α ε β} {f : β → SessionM α ε γ} (hx : Harmless x)
    (hf : ∀ b, Harmless (f b)) : Harmless (x >>= f) := fun evaluated =>
  (hx evaluated).bind fun b => hf b evaluated

/-- The cache aspect does no harm unless its joinpoint does. -/
theorem around_harmless {x : SessionM α ε α} (hx : Harmless x) :
    Harmless (Spakky.Cache.around program joinpoint onCache x arguments) := by
  have hraise {β : Type} {error : CallError (Raised ε)} (herror : NotRefusal error) :
      Harmless (raise error : SessionM α ε β) := fun _ =>
    .raise fun _ hs => ⟨herror, hs⟩
  have hunless {p : Prop} [Decidable p] {rest : SessionM α ε α} (hrest : Harmless rest) :
      Harmless (if p then raise .cacheBackendCapability >>= fun _ : Unit => rest else rest) := by
    split
    · exact .bind (hraise (by rintro refusal ⟨⟩)) fun _ => hrest
    · exact hrest
  have hkey (configuredKey : Option Text) : Harmless
      (ofExcept (Spakky.Cache.keyFromCall program joinpoint configuredKey arguments) :
        SessionM α ε Text) := .ofExcept fun _ => keyFromCall_not_refused
  unfold Spakky.Cache.around
  cases program.cacheEvict (Spakky.Cache.methodOf joinpoint) with
  | some evict =>
    refine .bind hx fun result => ?_
    have htags : Harmless (if evict.tags ≠ [] then do
          if (← onCache (reads (·.tagged))) = false then raise .cacheBackendCapability
          onCache (modify (·.evictTags evict.tags))
          return result
        else return result : SessionM α ε α) := by
      split
      · refine .bind (.onCache (.reads _)) fun tagged => ?_
        exact hunless (.bind (.onCache (.modify _)) fun _ => .pure _)
      · exact .pure _
    by_cases hsome : evict.key.isSome = true
    · rw [if_pos hsome]
      refine .bind (hkey _) fun key => ?_
      exact .bind (.onCache (.modify _)) fun _ => htags
    · rw [if_neg hsome]
      exact htags
  | none =>
    cases program.cacheable (Spakky.Cache.methodOf joinpoint) with
    | none => exact hraise (by rintro refusal ⟨⟩)
    | some cacheable =>
      refine .bind (hkey _) fun key => ?_
      refine .bind (.onCache (.reads _)) fun guarded => ?_
      refine .bind (.onCache (.reads _)) fun tagged => ?_
      refine hunless (.bind (.onCache (.reads _)) fun cached => ?_)
      cases cached with
      | some value => exact .pure value
      | none =>
        refine .bind hx fun result => ?_
        exact .bind (.onCache (.modify _)) fun _ => .pure _

end Harmless

theorem body_harmless : Harmless (call.body application) := by
  apply Harmless.ofExcept
  intro error herror
  unfold Application.program at herror
  dsimp only at herror
  cases hres : application.result call.pod call.method call.arguments with
  | ok =>
    rw [hres] at herror
    cases herror
  | error =>
    rw [hres] at herror
    cases herror
    rintro refusal ⟨⟩

/-- A call of a guarded method whose cache aspect was enumerated first. -/
theorem exists_invoke_harmless (hguarded : call.Guarded application)
    (hfirst : call.CacheFirst application) :
    ∃ cached : SessionM α ε α, Harmless cached ∧
      call.invoke application = (do
        call.authorized application
        cached) := by
  obtain ⟨inner, hinvoke⟩ := invoke_cacheFirst hguarded hfirst
  exact ⟨_, around_harmless body_harmless, hinvoke⟩

theorem recordAll_evaluated (evaluations : List Evaluation) (session : Session α) :
    ((sessionRecording : Recording (Session α) ε (CallError (Raised ε))).recordAll evaluations
      session).evaluated = session.evaluated ++ evaluations := by
  induction evaluations generalizing session with
  | nil => simp [Recording.recordAll]
  | cons _ _ ih =>
    exact (ih _).trans (by simp [sessionRecording])

/-- Whoever is refused was refused before the cache was asked. -/
theorem refused_iff (hguarded : call.Guarded application) (hfirst : call.CacheFirst application)
    (session : Session α) :
    Refused (call.invoke application session).1 ↔
      ∃ error, (call.authorized application session).1 = .error error := by
  obtain ⟨_, hcached, hinvoke⟩ := exists_invoke_harmless hguarded hfirst
  have hrefusal : RaisesOnly sessionRecording.IsRefusal (call.authorized application) :=
    authorize_raises _ _
  rw [hinvoke, bind_run]
  cases hrun : call.authorized application session using exec_cases with
  | ok =>
    constructor
    · rintro ⟨error, herror⟩
      exact absurd rfl (((triple_iff.mp (hcached _)) _ rfl).2 _ herror |>.1 error)
    · rintro ⟨_, herror⟩
      cases herror
  | error error =>
    refine ⟨fun _ => ⟨error, rfl⟩, fun _ => ?_⟩
    obtain ⟨refusal, rfl⟩ := hrefusal session error (congrArg Prod.fst hrun)
    exact ⟨refusal, rfl⟩

/-- One call of a guarded method whose cache aspect was enumerated first. -/
theorem invoke_secure (hguarded : call.Guarded application)
    (hfirst : call.CacheFirst application) (cache : Backend α) :
    Outcome.Secure application ⟨call, (call.invoke application ⟨cache, []⟩).1,
      (call.invoke application ⟨cache, []⟩).2.evaluated⟩ := by
  constructor
  · intro value hvalue
    obtain ⟨_, hharmless, hinvoke⟩ := exists_invoke_harmless hguarded hfirst
    have hrun : call.invoke application ⟨cache, []⟩ =
        (.ok value, (call.invoke application ⟨cache, []⟩).2) := Prod.ext hvalue rfl
    rw [hinvoke] at hrun
    obtain ⟨_, _, hauthd, hcached⟩ := bind_eq_ok.mp hrun
    obtain ⟨authContext, hstored, _, rfl, hallowed, hevery⟩ :=
      authorize_ok hauthd hguarded.requirements
    refine ⟨authContext, hstored, fun source hsrc requirement hreq => ?_⟩
    obtain ⟨evaluation, hmem, hsame⟩ := hevery source hsrc requirement hreq
    refine ⟨evaluation, ?_, hsame, hallowed evaluation hmem⟩
    rw [hinvoke, (hharmless _).ok rfl hcached, recordAll_evaluated]
    simpa using hmem
  · intro other
    have huniform : Uniform (call.authorized application) := authorize_uniform _ _
    rw [refused_iff hguarded hfirst, refused_iff hguarded hfirst, huniform ⟨cache, []⟩ ⟨other, []⟩]

/-- In every run, every call of a method that is protected and cached is authorized, as long
as the cache aspects are enumerated before the authorization aspects. -/
theorem outcomes_secure {cache : Backend α} {happenings : List (Happening ρ μ V α ε)}
    (hfirst : ∀ call, .call call ∈ happenings → call.Guarded application →
      call.CacheFirst application) :
    ∀ outcome ∈ outcomes application cache happenings,
      outcome.call.Guarded application → outcome.Secure application := by
  induction happenings generalizing cache with
  | nil => intro outcome hmem; cases hmem
  | cons happening rest ih =>
    have hrest : ∀ call, .call call ∈ rest → call.Guarded application →
        call.CacheFirst application := fun call hmem =>
      hfirst call (.tail _ hmem)
    intro outcome hmem hguarded
    cases happening with
    | cacheChanges => exact ih hrest outcome hmem hguarded
    | call call =>
      rcases mem_cons.mp hmem with rfl | hlater
      · exact invoke_secure hguarded (hfirst call (.head _) hguarded) cache
      · exact ih hrest outcome hlater hguarded

/-- A method that needs a role and is cached, of a class without metadata. -/
def report (found : List (FoundAspect Unit)) : Application Unit Unit Unit Nat Unit where
  module _ := text "app"
  qualname _ := text "Reports.total"
  isCoroutine _ := false
  cacheable _ := some {}
  cacheEvict _ := none
  methodAnnotations _ := { requirements := [{ kind := .role, ref := "admin" }] }
  classAnnotations _ := {}
  result _ _ _ := .ok 7
  found _ := found
  repr _ := text "None"
  printable _ := true
  format _ _ := none

/-- Whoever asks has the role. -/
def trusting : Checkers Unit where
  authorizationPolicyEvaluator := none
  permissionChecker := none
  relationChecker := none
  roleChecker := some fun _ => .ok .allow
  scopeChecker := none

def readBy (stored : ContextValue) : ProtectedCall Unit Unit Unit Unit where
  pod := ()
  method := ()
  arguments := ⟨[], []⟩
  caller := ⟨stored, trusting⟩

def emptyBackend : Backend Nat where
  tagged := false
  stampedeProtected := false
  clock := 0
  entries _ := none

/-- A caller with the role, and then one who is not authenticated. -/
def readTwice : List (Happening Unit Unit Unit Nat Unit) :=
  [.call (readBy (.auth { subject := { id := "a" }, issuer := "i" })), .call (readBy .absent)]

theorem report_guarded (found : List (FoundAspect Unit))
    (call : ProtectedCall Unit Unit Unit Unit) : call.Guarded (report found) where
  requirements := ⟨{ requirements := [{ kind := .role, ref := "admin" }] },
    .tail _ (.head _), cons_ne_nil _ _⟩
  cacheable := rfl

theorem outcomes_secure_report :
    (readBy .absent).CacheFirst (report [⟨.cache, false⟩, ⟨.authorization, false⟩]) ∧
      ∀ outcome ∈ outcomes (report [⟨.cache, false⟩, ⟨.authorization, false⟩]) emptyBackend
          readTwice,
        outcome.Secure (report [⟨.cache, false⟩, ⟨.authorization, false⟩]) := by
  have hfirst : ∀ call, .call call ∈ readTwice →
      call.Guarded (report [⟨.cache, false⟩, ⟨.authorization, false⟩]) →
        call.CacheFirst (report [⟨.cache, false⟩, ⟨.authorization, false⟩]) :=
    fun _ _ _ => rfl
  refine ⟨rfl, fun outcome hmem => ?_⟩
  exact outcomes_secure hfirst outcome hmem (report_guarded _ outcome.call)

theorem report_leaks_to_anonymous :
    ∃ outcome ∈ outcomes (report [⟨.authorization, false⟩, ⟨.cache, false⟩]) emptyBackend readTwice,
      outcome.call.Guarded (report [⟨.authorization, false⟩, ⟨.cache, false⟩]) ∧
        outcome.call.caller.stored = .absent ∧ outcome.evaluated = [] ∧ outcome.result = .ok 7 :=
  ⟨⟨readBy .absent, .ok 7, []⟩, .tail _ (.head _), report_guarded _ _, rfl, rfl, rfl⟩

end Refusals

end Spakky.Auth
