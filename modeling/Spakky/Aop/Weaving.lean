import Mathlib.Algebra.Group.Nat.Defs
import Mathlib.Data.List.Sort
import Spakky.Effect

/-!
Aspects around the methods of a Pod. The aspects found for a Pod are sorted by
descending order, and those that match a method are wrapped around it one after
the other, so that the aspect with the lowest order is the outermost.

The found aspects come from a set, in an order of their own; distinct orders
make the sorted list unique.
-/

namespace Spakky.Aop

open Effect Exec

/-- `sys.maxsize`, the order of an aspect without `@Order`. -/
def maxsize : Nat := 2 ^ 63 - 1

/-- The advice of an aspect. What it does not override does nothing. -/
structure Aspect (σ ε ι α : Type) where
  order : Nat := maxsize
  before : ι → Exec σ ε Unit := fun _ => pure ()
  around : (ι → Exec σ ε α) → ι → Exec σ ε α := fun joinpoint => joinpoint
  afterReturning : α → Exec σ ε Unit := fun _ => pure ()
  afterRaising : ε → Exec σ ε Unit := fun _ => pure ()
  after : Exec σ ε Unit := pure ()

section Advisor

variable {σ ε ι α : Type} (isException : ε → Bool)

/-- `Advisor.__call__`. Errors that are no `Exception`, such as a cancellation,
pass the `except` clause. -/
def advisor (aspect : Aspect σ ε ι α) (next : ι → Exec σ ε α) (arguments : ι) : Exec σ ε α := do
  aspect.before arguments
  ensure
    (onError
      (do
        let result ← aspect.around next arguments
        aspect.afterReturning result
        return result)
      fun error => if isException error then aspect.afterRaising error else pure ())
    aspect.after

/-- The order in which `AspectPostProcessor.post_process` hands the aspects it
found to the proxy. -/
def postProcess (found : List (Aspect σ ε ι α)) : List (Aspect σ ε ι α) :=
  found.insertionSort fun aspect other => other.order ≤ aspect.order

/-- `AspectProxyHandler.call` -/
def call (matchesMethod : Aspect σ ε ι α → Bool) (aspects : List (Aspect σ ε ι α))
    (method : ι → Exec σ ε α) : ι → Exec σ ε α :=
  (aspects.filter matchesMethod).foldl
    (fun runnable candidate => advisor isException candidate runnable) method

/-- Sorting yields the one list that descends, however the aspects were found. -/
theorem postProcess_eq {found sorted : List (Aspect σ ε ι α)} (hperm : found.Perm sorted)
    (hsorted : sorted.Pairwise fun aspect other => other.order < aspect.order) :
    postProcess found = sorted := by
  have hsame := List.perm_insertionSort (fun aspect other => other.order ≤ aspect.order) found
  have hdescends :=
    List.pairwise_insertionSort (fun aspect other : Aspect σ ε ι α => other.order ≤ aspect.order)
      found
  have hdistinct : (sorted.map (·.order)).Nodup :=
    List.pairwise_map.mpr (hsorted.imp fun hlt => Nat.ne_of_gt hlt)
  refine List.Perm.eq_of_pairwise ?_ hdescends (hsorted.imp Nat.le_of_lt) (hsame.trans hperm)
  intro aspect other hasp hother hle hge
  have hmem := (hsame.trans hperm).mem_iff.mp hasp
  exact List.inj_on_of_nodup_map hdistinct hmem hother (Nat.le_antisymm hge hle)

/-- Of two aspects the one with the lower order is called first. -/
theorem call_pair {outer inner : Aspect σ ε ι α} (horder : outer.order < inner.order)
    {found : List (Aspect σ ε ι α)} (hperm : found.Perm [outer, inner])
    {matchesMethod : Aspect σ ε ι α → Bool} (houter : matchesMethod outer = true)
    (hinner : matchesMethod inner = true) (method : ι → Exec σ ε α) :
    call isException matchesMethod (postProcess found) method =
      advisor isException outer (advisor isException inner method) := by
  have hsorted : postProcess found = [inner, outer] := by
    apply postProcess_eq (hperm.trans (List.Perm.swap inner outer []))
    simpa using horder
  rw [call, hsorted, List.filter_cons_of_pos hinner, List.filter_cons_of_pos houter]
  rfl

/-- An aspect that does nothing about an error lets it pass. -/
theorem onError_unhandled (x : Exec σ ε α) :
    onError x (fun error => if isException error then pure () else pure ()) = x := by
  simp only [ite_self]
  exact onError_idle x

/-- The advisor of an aspect that only has `around` advice. -/
theorem advisor_around (order : Nat) (around : (ι → Exec σ ε α) → ι → Exec σ ε α)
    (next : ι → Exec σ ε α) (arguments : ι) :
    advisor isException { order := order, around := around } next arguments =
      around next arguments := by
  show ensure (onError (around next arguments >>= fun result => pure result) _) (pure ()) = _
  rw [onError_unhandled, ensure_idle, bind_return]

/-- The advisor of an aspect that has no advice before or around a method, nor
any for an error. -/
theorem advisor_after (order : Nat) (afterReturning : α → Exec σ ε Unit) (after : Exec σ ε Unit)
    (next : ι → Exec σ ε α) (arguments : ι) :
    advisor isException
        { order := order, afterReturning := afterReturning, after := after } next arguments =
      ensure
        (do
          let result ← next arguments
          afterReturning result
          return result)
        after := by
  show ensure (onError _ _) after = _
  rw [onError_unhandled]

end Advisor

end Spakky.Aop
