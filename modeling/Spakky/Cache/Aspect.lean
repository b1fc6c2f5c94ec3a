import Mathlib.Data.List.Lex
import Mathlib.Data.List.Sort
import Spakky.Effect
import Spakky.Python.Text

/-!
`CacheAspect` and the methods it is woven around. The aspects of a Pod are
sorted by descending order and wrapped around a method one after the other, so
that the joinpoint of the cache aspect is the method itself or an `Advisor` of
the aspects with a higher order. An `Advisor` passes on the attributes it does
not have; it has a module, that of its class, and no qualified name.

The cache is an exact map with expiry, and aspects other than the cache aspect
call their joinpoint and return what it returns. The asynchronous aspect has the
same steps in the same order.
-/

namespace Spakky.Cache

open Effect Exec Python

/-- `@cacheable`; the time to live is in milliseconds. -/
structure Cacheable where
  key : Option Text := none
  ttl : Option Nat := none
  tags : List Text := []

/-- `@cache_evict` -/
structure CacheEvict where
  key : Option Text := none
  tags : List Text := []

structure Arguments (V : Type) where
  args : List V
  kwargs : List (Text × V)

/-- `AnnotationNotFoundError` aside, the errors of the aspect, and those of the
method. -/
inductive CallError (ε : Type) where
  | method (error : ε)
  | annotationNotFound
  | cacheKeyGeneration
  | cacheBackendCapability
  deriving DecidableEq, Repr

section Backend

structure Stored (α : Type) where
  value : α
  expiresAt : Option Nat
  tags : List Text

/-- A cache that behaves as an exact map with expiry, and the interfaces it
implements beside `ICache`. -/
structure Backend (α : Type) where
  tagged : Bool
  stampedeProtected : Bool
  clock : Nat
  entries : Text → Option (Stored α)

variable {α : Type} (cache : Backend α)

def Backend.get (key : Text) : Option α :=
  match cache.entries key with
  | none => none
  | some entry =>
    if entry.expiresAt.all (cache.clock < ·) then some entry.value else none

def Backend.setWithTags (key : Text) (value : α) (ttl : Option Nat) (tags : List Text) :
    Backend α :=
  { cache with
    entries := Function.update cache.entries key
      (some ⟨value, ttl.map (cache.clock + ·), tags⟩) }

def Backend.delete (key : Text) : Backend α :=
  { cache with entries := Function.update cache.entries key none }

def Backend.evictTags (tags : List Text) : Backend α :=
  { cache with
    entries := fun key => (cache.entries key).filter fun entry =>
      !entry.tags.any (tags.contains ·) }

def Backend.advance (elapsed : Nat) : Backend α := { cache with clock := cache.clock + elapsed }

end Backend

section Weaving

/-- An aspect found for a Pod, with the methods it matches. -/
structure WovenAspect (μ : Type) where
  order : Nat
  isCache : Bool
  matchesMethod : μ → Bool

/-- A method of a Pod, or an `Advisor` around the next callable. -/
inductive Runnable (ρ μ : Type) where
  | method (pod : ρ) (method : μ)
  | advisor (isCache : Bool) (next : Runnable ρ μ)

/-- What is known of the methods and of the values that are passed to them: the
function attributes, the annotations, what a method of a Pod returns, the aspects
found for a Pod, `repr`, and `str.format`. -/
structure Program (ρ μ V α ε : Type) where
  module : μ → Text
  qualname : μ → Text
  cacheable : μ → Option Cacheable
  cacheEvict : μ → Option CacheEvict
  result : ρ → μ → Arguments V → Except ε α
  aspects : ρ → List (WovenAspect μ)
  repr : V → Text
  printable : CodePoint → Bool
  format : Text → Arguments V → Option Text

variable {ρ μ V α ε : Type} (program : Program ρ μ V α ε)

/-- `__module__` is an attribute of every instance of a class. -/
def moduleOf : Runnable ρ μ → Text
  | .method _ method => program.module method
  | .advisor _ _ => text "spakky.core.aop.advisor"

def qualnameOf : Runnable ρ μ → Text
  | .method _ method => program.qualname method
  | .advisor _ next => qualnameOf next

def methodOf : Runnable ρ μ → μ
  | .method _ method => method
  | .advisor _ next => methodOf next

variable (arguments : Arguments V) (joinpoint : Runnable ρ μ)

/-- `tuple(sorted(kwargs.items(), key=lambda item: item[0]))` -/
def orderedKwargs : List (Text × V) :=
  arguments.kwargs.insertionSort fun item other => item.1 ≤ other.1

/-- The part of the default key that shows the arguments. -/
def argumentsText : Text :=
  tupleRepr (arguments.args.map program.repr) ++ text ":kwargs=" ++
    tupleRepr ((orderedKwargs arguments).map fun item =>
      tupleRepr [strRepr program.printable item.1, program.repr item.2])

/-- The part of the default key that names the method. -/
def nameText : Text :=
  moduleOf program joinpoint ++ text "." ++ qualnameOf program joinpoint

/-- `_key_from_call` -/
def keyFromCall (configuredKey : Option Text) (arguments : Arguments V) :
    Except (CallError ε) Text :=
  match configuredKey with
  | some template =>
    match program.format template arguments with
    | some key => .ok key
    | none => .error .cacheKeyGeneration
  | none => .ok (nameText program joinpoint ++ text ":args=" ++ argumentsText program arguments)

/-- `CacheAspect.around`, with the callable the joinpoint is, which may do more than
use the cache. -/
def around {σ : Type} (onCache : {β : Type} → Exec (Backend α) (CallError ε) β →
      Exec σ (CallError ε) β) (call : Exec σ (CallError ε) α) (arguments : Arguments V) :
    Exec σ (CallError ε) α :=
  match program.cacheEvict (methodOf joinpoint) with
  | some evict => do
      let result ← call
      if evict.key.isSome then
        let key ← ofExcept (keyFromCall program joinpoint evict.key arguments)
        onCache (modify (·.delete key))
      if evict.tags ≠ [] then
        if (← onCache (reads (·.tagged))) = false then raise .cacheBackendCapability
        onCache (modify (·.evictTags evict.tags))
      return result
  | none =>
    match program.cacheable (methodOf joinpoint) with
    | none => raise .annotationNotFound
    | some cacheable => do
        let key ← ofExcept (keyFromCall program joinpoint cacheable.key arguments)
        let guarded ← onCache (reads (·.stampedeProtected))
        let tagged ← onCache (reads (·.tagged))
        if guarded = false ∧ cacheable.tags ≠ [] ∧ tagged = false then
          raise .cacheBackendCapability
        match ← onCache (reads (·.get key)) with
        | some value => return value
        | none =>
          let result ← call
          onCache (modify (·.setWithTags key result cacheable.ttl cacheable.tags))
          return result

/-- What a call of the callable does. -/
def invoke (arguments : Arguments V) : Runnable ρ μ → Exec (Backend α) (CallError ε) α
  | .method pod method => ofExcept ((program.result pod method arguments).mapError .method)
  | .advisor false next => invoke arguments next
  | .advisor true next => around program next id (invoke arguments next) arguments

/-- The aspects around a method, innermost first. -/
def candidates (pod : ρ) (method : μ) : List (WovenAspect μ) :=
  ((program.aspects pod).insertionSort fun aspect other => other.order ≤ aspect.order).filter
    (·.matchesMethod method)

/-- What the proxy of a Pod calls instead of a method. -/
def woven (pod : ρ) (method : μ) : Runnable ρ μ :=
  (candidates program pod method).foldl (fun runnable aspect => .advisor aspect.isCache runnable)
    (.method pod method)

end Weaving

end Spakky.Cache
