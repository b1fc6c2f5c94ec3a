import Mathlib.Data.List.TakeWhile
import Spakky.Cache.Aspect
import Spakky.Machine
import Spakky.Separated

/-!
Cached calls against calls of the methods. The default key shows the module and
the qualified name of the joinpoint and the arguments, and not the Pod: Pods that
inherit one method share its entries. As long as the methods belong to one Pod
each and their names tell them apart, every call returns what the method returns.
-/

namespace Spakky.Cache

open Effect Exec Python List

variable {ρ μ V α ε : Type}

structure Call (ρ μ V : Type) where
  pod : ρ
  method : μ
  arguments : Arguments V

/-- Time passes, or a method of a Pod is called. -/
inductive Event (ρ μ V : Type) where
  | tick (elapsed : Nat)
  | call (call : Call ρ μ V)

def Event.toCall : Event ρ μ V → Option (Call ρ μ V)
  | .tick _ => none
  | .call made => some made

section Runs

variable (program : Program ρ μ V α ε)

/-- What the method returns without a cache. -/
def Call.result (call : Call ρ μ V) : Except (CallError ε) α :=
  (program.result call.pod call.method call.arguments).mapError .method

/-- What the calls return through the proxies of their Pods. -/
def outcomes : Backend α → List (Event ρ μ V) → List (Except (CallError ε) α)
  | _, [] => []
  | cache, .tick elapsed :: rest => outcomes (cache.advance elapsed) rest
  | cache, .call call :: rest =>
    (invoke program call.arguments (woven program call.pod call.method) cache).1 ::
      outcomes (invoke program call.arguments (woven program call.pod call.method) cache).2 rest

/-- The joinpoint of the cache aspect: the method with the aspects inside. -/
def Call.joinpoint (call : Call ρ μ V) : Runnable ρ μ :=
  ((candidates program call.pod call.method).takeWhile (!·.isCache)).foldl
    (fun runnable aspect => .advisor aspect.isCache runnable) (.method call.pod call.method)

/-- The default key of a call. -/
def Call.key (call : Call ρ μ V) : Text :=
  nameText program (call.joinpoint program) ++ text ":args=" ++ argumentsText program call.arguments

/-- Equal positional arguments, and equal keyword arguments in any order. -/
def SameArguments (first second : Arguments V) : Prop :=
  first.args = second.args ∧ orderedKwargs first = orderedKwargs second

/-- The call is of a method with `@cacheable` and no explicit key, the cache aspect is
woven around it once, and the backend has what the annotation asks for. -/
structure Call.Cached (cache : Backend α) (call : Call ρ μ V) : Prop where
  no_evict : program.cacheEvict call.method = none
  cacheable : ∃ cacheable, program.cacheable call.method = some cacheable ∧ cacheable.key = none ∧
    (cacheable.tags = [] ∨ cache.tagged = true ∨ cache.stampedeProtected = true)
  once : (candidates program call.pod call.method).countP (·.isCache) = 1

/-- No other aspect stands between the cache aspect and the method. -/
def Call.Bare (call : Call ρ μ V) : Prop :=
  (candidates program call.pod call.method).takeWhile (!·.isCache) = []

/-- The module and the qualified name that are joined by a dot. -/
def Call.names (call : Call ρ μ V) : Option Text × Text :=
  (some (moduleOf program (call.joinpoint program)), qualnameOf program (call.joinpoint program))

/-- `repr` of the positional and of the ordered keyword arguments. -/
def Call.reprs (call : Call ρ μ V) : Option Text × Text :=
  (some (tupleRepr (call.arguments.args.map program.repr)),
    tupleRepr ((orderedKwargs call.arguments).map fun item =>
      tupleRepr [strRepr program.printable item.1, program.repr item.2]))

/-- The calls of one method are of one Pod, different methods have different
qualified names or, if no other aspect is inside, different modules, unequal
arguments have a different `repr`, and no text that is joined has a mark where it
would be read as another one. -/
structure Distinguished (calls : List (Call ρ μ V)) : Prop where
  pods : ∀ call ∈ calls, ∀ other ∈ calls, call.method = other.method → call.pod = other.pod
  methods : ∀ call ∈ calls, ∀ other ∈ calls, call.method ≠ other.method →
    program.qualname call.method ≠ program.qualname other.method ∨
      call.Bare program ∧ other.Bare program ∧
        program.module call.method ≠ program.module other.method
  arguments : ∀ call ∈ calls, ∀ other ∈ calls, call.reprs program = other.reprs program →
    SameArguments call.arguments other.arguments
  marks : ∀ call ∈ calls, ∀ other ∈ calls,
    ¬ Separated.Confusable (text ".") (call.names program) (other.names program) ∧
      ¬ Separated.Confusable (text ":kwargs=") (call.reprs program) (other.reprs program)
  colon : ∀ call ∈ calls, ofChar ':' ∉ nameText program (call.joinpoint program)

/-- Equal arguments have equal results. -/
def Determined : Prop :=
  ∀ pod method first second, SameArguments first second →
    program.result pod method first = program.result pod method second

end Runs

section Weaving

variable {program : Program ρ μ V α ε} {aspects : List (WovenAspect μ)} {call : Call ρ μ V}

theorem invoke_others (arguments : Arguments V)
    (hothers : ∀ aspect ∈ aspects, aspect.isCache = false) (runnable : Runnable ρ μ) :
    invoke program arguments
        (aspects.foldl (fun runnable aspect => .advisor aspect.isCache runnable) runnable) =
      invoke program arguments runnable := by
  induction aspects generalizing runnable with
  | nil => rfl
  | cons aspect _ ih =>
    rw [foldl_cons, ih fun other hmem => hothers other (.tail _ hmem), hothers aspect (.head _)]
    rfl

/-- The aspects of a list with one cache aspect stand before it and behind it. -/
theorem split_of_countP_one (honce : aspects.countP (·.isCache) = 1) :
    ∃ cache outer, aspects = aspects.takeWhile (!·.isCache) ++ cache :: outer ∧
      cache.isCache = true ∧ ∀ aspect ∈ outer, aspect.isCache = false := by
  induction aspects with
  | nil => cases honce
  | cons aspect rest ih =>
    by_cases hcache : aspect.isCache = true
    · refine ⟨aspect, rest, ?_, hcache, ?_⟩
      · rw [takeWhile_cons_of_neg (by simp [hcache]), nil_append]
      · rw [countP_cons_of_pos hcache] at honce
        intro other hmem
        have hnone := countP_eq_zero.mp (Nat.succ.inj honce) other hmem
        simpa using hnone
    · rw [countP_cons_of_neg hcache] at honce
      obtain ⟨cache, outer, hsplit, hcache', houter⟩ := ih honce
      refine ⟨cache, outer, ?_, hcache', houter⟩
      rw [takeWhile_cons_of_pos (by simpa using hcache), cons_append, ← hsplit]

/-- A call through the proxy is a call through the cache aspect. -/
theorem invoke_woven (honce : (candidates program call.pod call.method).countP (·.isCache) = 1) :
    invoke program call.arguments (woven program call.pod call.method) =
      around program (call.joinpoint program) id (ofExcept (call.result program))
        call.arguments := by
  obtain ⟨_, _, hsplit, hcache, houter⟩ := split_of_countP_one honce
  have hinner : ∀ aspect ∈ (candidates program call.pod call.method).takeWhile (!·.isCache),
      aspect.isCache = false := by
    intro aspect hmem
    simpa using mem_takeWhile_imp hmem
  rw [woven, hsplit, foldl_append, foldl_cons, invoke_others _ houter, hcache]
  have hjoinpoint : invoke program call.arguments (call.joinpoint program) =
      invoke program call.arguments (.method call.pod call.method) :=
    invoke_others call.arguments hinner _
  rw [invoke]
  rw [Call.joinpoint] at hjoinpoint ⊢
  rw [hjoinpoint]
  rfl

theorem joinpoint_attributes (program : Program ρ μ V α ε) (call : Call ρ μ V) :
    methodOf (call.joinpoint program) = call.method ∧
      qualnameOf program (call.joinpoint program) = program.qualname call.method := by
  have hfold : ∀ (aspects : List (WovenAspect μ)) (runnable : Runnable ρ μ),
      methodOf (aspects.foldl (fun runnable aspect => .advisor aspect.isCache runnable)
          runnable) = methodOf runnable ∧
        qualnameOf program (aspects.foldl (fun runnable aspect =>
          .advisor aspect.isCache runnable) runnable) = qualnameOf program runnable := by
    intro aspects
    induction aspects with
    | nil => exact fun _ => ⟨rfl, rfl⟩
    | cons _ _ ih => exact fun runnable => ih (.advisor _ runnable)
  exact hfold _ _

theorem Call.Bare.moduleOf_joinpoint (hbare : call.Bare program) :
    moduleOf program (call.joinpoint program) = program.module call.method := by
  rw [Call.joinpoint, show takeWhile _ _ = _ from hbare]
  rfl

/-- The cache aspect returns what the cache has under the key of the call, or what the
method returns, and then stores it. -/
theorem invoke_cached {cache : Backend α} (hcached : call.Cached program cache) :
    ∃ ttl tags, invoke program call.arguments (woven program call.pod call.method) cache =
      match cache.get (call.key program), call.result program with
      | some value, _ => (.ok value, cache)
      | none, .ok value => (.ok value, cache.setWithTags (call.key program) value ttl tags)
      | none, .error error => (.error error, cache) := by
  obtain ⟨cacheable, hannotation, hkey, hcapable⟩ := hcached.cacheable
  refine ⟨cacheable.ttl, cacheable.tags, ?_⟩
  have hmeth := (joinpoint_attributes program call).1
  have hallowed : ¬ (cache.stampedeProtected = false ∧ cacheable.tags ≠ [] ∧
      cache.tagged = false) := by
    rintro ⟨hplain, htags, huntagged⟩
    rcases hcapable with hnone | htagged | hprot
    · exact htags hnone
    · rw [huntagged] at htagged
      cases htagged
    · rw [hplain] at hprot
      cases hprot
  rw [invoke_woven hcached.once, around, hmeth, hcached.no_evict, hannotation]
  simp only [keyFromCall, hkey, id]
  show (ofExcept (.ok (call.key program)) >>= _ : Exec (Backend α) (CallError ε) α) cache = _
  rw [ofExcept_ok_then, reads_bind_run, reads_bind_run, if_neg hallowed]
  rw [reads_bind_run]
  cases cache.get (call.key program) with
  | some => rfl
  | none =>
    cases call.result program with
    | ok => rfl
    | error => rfl

end Weaving

section Keys

variable {program : Program ρ μ V α ε} {calls : List (Call ρ μ V)}

section

variable (hdist : Distinguished program calls) {call other : Call ρ μ V} (hcall : call ∈ calls)
  (hother : other ∈ calls)
include hdist hcall hother

theorem Distinguished.of_names
    (hname : nameText program (call.joinpoint program) =
      nameText program (other.joinpoint program)) :
    call.pod = other.pod ∧ call.method = other.method := by
  have hjoin : Separated.join (text ".") (call.names program) =
      Separated.join (text ".") (other.names program) := hname
  have hnames := Separated.eq_of_join hjoin (hdist.marks call hcall other hother).1
  simp only [Call.names, Prod.mk.injEq, Option.some.injEq] at hnames
  rw [(joinpoint_attributes program call).2, (joinpoint_attributes program other).2] at hnames
  have hsame : call.method = other.method := by
    by_contra hmethod
    rcases hdist.methods call hcall other hother hmethod with hqualname | ⟨hbare, hbare', hmodule⟩
    · exact hqualname hnames.2
    · rw [hbare.moduleOf_joinpoint, hbare'.moduleOf_joinpoint] at hnames
      exact hmodule hnames.1
  exact ⟨hdist.pods call hcall other hother hsame, hsame⟩

/-- Two calls with one key are calls of one method of one Pod with equal arguments. -/
theorem Distinguished.of_key (hkey : call.key program = other.key program) :
    call.pod = other.pod ∧ call.method = other.method ∧
      SameArguments call.arguments other.arguments := by
  have hfree : ¬ Separated.Confusable (ofChar ':' :: text "args=")
      (some (nameText program (call.joinpoint program)), argumentsText program call.arguments)
      (some (nameText program (other.joinpoint program)), argumentsText program other.arguments) :=
    Separated.not_confusable_of_free (hdist.colon call hcall) (hdist.colon other hother)
  have hkeys : Separated.join (text ":args=")
        (some (nameText program (call.joinpoint program)), argumentsText program call.arguments) =
      Separated.join (text ":args=") (some (nameText program (other.joinpoint program)),
        argumentsText program other.arguments) := hkey
  have hparts := Separated.eq_of_join hkeys hfree
  simp only [Prod.mk.injEq, Option.some.injEq] at hparts
  obtain ⟨hpod, hmethod⟩ := hdist.of_names hcall hother hparts.1
  have hjoin : Separated.join (text ":kwargs=") (call.reprs program) =
      Separated.join (text ":kwargs=") (other.reprs program) := hparts.2
  have hreprs := Separated.eq_of_join hjoin (hdist.marks call hcall other hother).2
  exact ⟨hpod, hmethod, hdist.arguments call hcall other hother hreprs⟩

end

theorem Distinguished.result_of_key (hdist : Distinguished program calls)
    (hdet : Determined program) {call other : Call ρ μ V} (hcall : call ∈ calls)
    (hother : other ∈ calls) (hkey : call.key program = other.key program) :
    call.result program = other.result program := by
  obtain ⟨hpod, hmeth, hargs⟩ := hdist.of_key hcall hother hkey
  rw [Call.result, Call.result, hpod, hmeth, hdet other.pod other.method _ _ hargs]

end Keys

section Transparency

variable (program : Program ρ μ V α ε) (calls : List (Call ρ μ V))

/-- Whatever is stored under the key of a call is what its method returns. -/
def Faithful (cache : Backend α) : Prop :=
  ∀ call ∈ calls, ∀ entry, cache.entries (call.key program) = some entry →
    call.result program = .ok entry.value

variable {program calls} {cache : Backend α}

theorem Backend.get_entry {key : Text} {value : α} (hget : cache.get key = some value) :
    ∃ entry, cache.entries key = some entry ∧ entry.value = value := by
  rw [Backend.get] at hget
  split at hget
  · cases hget
  · rename_i entry hentry
    split at hget
    · cases hget
      exact ⟨entry, hentry, rfl⟩
    · cases hget

theorem Faithful.stores (hfaith : Faithful program calls cache)
    (hdist : Distinguished program calls) (hdet : Determined program)
    {call : Call ρ μ V} (hcall : call ∈ calls) {value : α}
    (hres : call.result program = .ok value) (ttl : Option Nat) (tags : List Text) :
    Faithful program calls (cache.setWithTags (call.key program) value ttl tags) := by
  intro other hother entry hentry
  rcases Machine.update_cases hentry with ⟨hsame, hnew⟩ | ⟨_, hold⟩
  · cases hnew
    rw [hdist.result_of_key hdet hother hcall hsame, hres]
  · exact hfaith other hother entry hold

/-- A call returns what its method returns, and leaves the cache faithful. -/
theorem Faithful.call (hfaith : Faithful program calls cache)
    (hdist : Distinguished program calls) (hdet : Determined program)
    {call : Call ρ μ V} (hcall : call ∈ calls) (hcached : call.Cached program cache) :
    ∃ next, invoke program call.arguments (woven program call.pod call.method) cache =
        (call.result program, next) ∧
      Faithful program calls next ∧ next.tagged = cache.tagged ∧
        next.stampedeProtected = cache.stampedeProtected := by
  obtain ⟨ttl, tags, hinvoke⟩ := invoke_cached hcached
  cases hget : cache.get (call.key program) with
  | some =>
    obtain ⟨entry, hentry, hvalue⟩ := Backend.get_entry hget
    refine ⟨cache, ?_, hfaith, rfl, rfl⟩
    rw [hinvoke, hget, hfaith call hcall entry hentry, hvalue]
  | none =>
    cases hres : call.result program with
    | ok =>
      have hstores := hfaith.stores hdist hdet hcall hres ttl tags
      refine ⟨_, ?_, hstores, rfl, rfl⟩
      rw [hinvoke, hget, hres]
    | error =>
      refine ⟨cache, ?_, hfaith, rfl, rfl⟩
      rw [hinvoke, hget, hres]

theorem Call.Cached.of_same {call : Call ρ μ V} {next : Backend α}
    (hcached : call.Cached program cache) (htagged : next.tagged = cache.tagged)
    (hguarded : next.stampedeProtected = cache.stampedeProtected) : call.Cached program next := by
  refine ⟨hcached.no_evict, ?_, hcached.once⟩
  rw [htagged, hguarded]
  exact hcached.cacheable

theorem outcomes_of_faithful (hdist : Distinguished program calls)
    (hdet : Determined program) (hfaith : Faithful program calls cache)
    {events : List (Event ρ μ V)} (hcalls : events.filterMap Event.toCall ⊆ calls)
    (hcached : ∀ call ∈ calls, call.Cached program cache) :
    outcomes program cache events = (events.filterMap Event.toCall).map (Call.result program) := by
  induction events generalizing cache with
  | nil => rfl
  | cons event rest ih =>
    cases event with
    | tick elapsed =>
      have hadvanced : Faithful program calls (cache.advance elapsed) := hfaith
      rw [outcomes, ih hadvanced hcalls fun call hcall => (hcached call hcall).of_same rfl rfl]
      rfl
    | call made =>
      have hmade : made ∈ calls := hcalls (.head _)
      obtain ⟨_, hinvoke, hnext, htagged, hguarded⟩ :=
        hfaith.call hdist hdet hmade (hcached made hmade)
      rw [outcomes, hinvoke]
      have hrest : rest.filterMap Event.toCall ⊆ calls := fun call hmem =>
        hcalls (.tail _ hmem)
      rw [ih hnext hrest fun call hcall => (hcached call hcall).of_same htagged hguarded]
      rfl

/-- Through an empty cache every call returns what its method returns, and two calls
share a key only if they call one method of one Pod with equal arguments, as long as the
names in the keys tell the methods of the Pods apart. -/
theorem caching_transparent (program : Program ρ μ V α ε) (cache : Backend α)
    (hdetermined : Determined program) (events : List (Event ρ μ V))
    (hdistinguished : Distinguished program (events.filterMap Event.toCall))
    (hempty : ∀ key, cache.entries key = none)
    (hcached : ∀ call ∈ events.filterMap Event.toCall, call.Cached program cache) :
    outcomes program cache events = (events.filterMap Event.toCall).map (Call.result program) ∧
      ∀ call ∈ events.filterMap Event.toCall, ∀ other ∈ events.filterMap Event.toCall,
        call.key program = other.key program → call.pod = other.pod ∧
          call.method = other.method ∧ SameArguments call.arguments other.arguments := by
  constructor
  · refine outcomes_of_faithful hdistinguished hdetermined ?_ (Subset.refl _) hcached
    intro call _ entry hentry
    rw [hempty] at hentry
    cases hentry
  · intro call hcall other hother hkey
    exact hdistinguished.of_key hcall hother hkey

/-- Two Pods inherit a method that returns its receiver. -/
def receivers : Program Bool Unit Bool Bool Unit where
  module _ := text "app.profiles"
  qualname _ := text "Service.load"
  cacheable _ := some {}
  cacheEvict _ := none
  result pod _ _ := .ok pod
  aspects _ := [{ order := 0, isCache := true, matchesMethod := fun _ => true }]
  repr value := if value then text "True" else text "False"
  printable _ := true
  format _ _ := none

def emptyBackend : Backend Bool where
  tagged := false
  stampedeProtected := false
  clock := 0
  entries _ := none

/-- The call `load(True)` of a Pod. -/
def loads (pod : Bool) : Call Bool Unit Bool := ⟨pod, (), ⟨[true], []⟩⟩

/-- Two Pods with a method `Service.load` each, in different modules, and another
aspect around the cache aspect. -/
def services : Program Bool Bool Bool Bool Unit where
  module method := if method then text "profiles" else text "orders"
  qualname _ := text "Service.load"
  cacheable _ := some {}
  cacheEvict _ := none
  result _ method arguments := .ok (method && arguments.args == [true])
  aspects _ := [{ order := 1, isCache := true, matchesMethod := fun _ => true },
    { order := 0, isCache := false, matchesMethod := fun _ => true }]
  repr value := if value then text "True" else text "False"
  printable _ := true
  format _ _ := none

/-- The call `load(value)` of the service with this method. -/
def asks (method value : Bool) : Call Bool Bool Bool := ⟨method, method, ⟨[value], []⟩⟩

theorem asks_distinguished {calls : List (Call Bool Bool Bool)}
    (hcalls : ∀ call ∈ calls, ∃ method value, call = asks method value) :
    Distinguished services calls := by
  have hargs : ∀ method value method' value',
      (asks method value).reprs services = (asks method' value').reprs services →
        value = value' := by
    decide
  have hmodules : ∀ method method', method ≠ method' →
      services.module method ≠ services.module method' := by
    decide
  have hmodule : ∀ method value, ofChar '.' ∉ moduleOf services
      ((asks method value).joinpoint services) := by
    decide
  have hcolon : ∀ method value, ofChar ':' ∉ nameText services
      ((asks method value).joinpoint services) := by
    decide
  have hplain : ∀ method value, ofChar ':' ∉ tupleRepr
      ((asks method value).arguments.args.map services.repr) := by
    decide
  constructor
  all_goals
    intro call hcall
    obtain ⟨method, value, rfl⟩ := hcalls call hcall
  · intro other hother hsame
    obtain ⟨method', value', rfl⟩ := hcalls other hother
    exact hsame
  · intro other hother hmethod
    obtain ⟨method', value', rfl⟩ := hcalls other hother
    exact .inr ⟨rfl, rfl, hmodules method method' hmethod⟩
  · intro other hother hreprs
    obtain ⟨method', value', rfl⟩ := hcalls other hother
    obtain rfl := hargs method value method' value' hreprs
    exact ⟨rfl, rfl⟩
  · intro other hother
    obtain ⟨method', value', rfl⟩ := hcalls other hother
    exact ⟨Separated.not_confusable_of_free (hmodule method value) (hmodule method' value'),
      Separated.not_confusable_of_free (hplain method value) (hplain method' value')⟩
  · exact hcolon method value

/-- The services are called in turn with both values, and again from the cache. -/
theorem caching_transparent_services :
    outcomes services emptyBackend [.call (asks true true), .call (asks false true),
        .call (asks true false), .tick 1, .call (asks false true), .call (asks true true)] =
      [.ok true, .ok false, .ok false, .ok false, .ok true] := by
  refine (caching_transparent services emptyBackend ?_ _ ?_ ?_ ?_).1.trans rfl
  · rintro pod method first second ⟨hargs, _⟩
    simp only [services, hargs]
  · apply asks_distinguished
    intro call hcall
    simp only [Event.toCall, filterMap_cons, filterMap_nil, mem_cons, not_mem_nil,
      or_false] at hcall
    rcases hcall with rfl | rfl | rfl | rfl | rfl <;> exact ⟨_, _, rfl⟩
  · intro key
    rfl
  · intro call _
    exact ⟨rfl, ⟨{}, rfl, rfl, .inl rfl⟩, rfl⟩

theorem caching_not_transparent_receivers :
    outcomes receivers emptyBackend [.call (loads true), .call (loads false)] =
        [.ok true, .ok true] ∧
      (loads false).result receivers = .ok false := by
  exact ⟨rfl, rfl⟩

end Transparency

end Spakky.Cache
