import Mathlib.Logic.Basic

/-!
A lock that its owner may acquire again, as `threading.RLock`. What matters to
the users of a lock is how often each party holds it: `count`.
-/

namespace Spakky

inductive ReentrantLock (ι : Type) where
  | free
  /-- The owner has acquired the lock `again + 1` times. -/
  | held (owner : ι) (again : Nat)
  deriving DecidableEq, Repr

namespace ReentrantLock

variable {ι : Type} [DecidableEq ι]

/-- Fails while another party holds the lock. -/
def acquire (lock : ReentrantLock ι) (party : ι) : Option (ReentrantLock ι) :=
  match lock with
  | .free => some (.held party 0)
  | .held owner again => if owner = party then some (.held owner (again + 1)) else none

def release : ReentrantLock ι → ReentrantLock ι
  | .held owner (again + 1) => .held owner again
  | _ => .free

/-- How often the party holds the lock. -/
def count (lock : ReentrantLock ι) (party : ι) : Nat :=
  match lock with
  | .free => 0
  | .held owner again => if owner = party then again + 1 else 0

variable {lock : ReentrantLock ι} {party : ι}

theorem count_other {other : ι} (hparty : 0 < lock.count party) (hother : other ≠ party) :
    lock.count other = 0 := by
  cases lock with
  | free => rfl
  | held =>
    simp only [count] at hparty ⊢
    split at hparty
    next howner => rw [if_neg (fun hsame => hother (hsame.symm.trans howner))]
    next => cases hparty

theorem count_acquire {taken : ReentrantLock ι} (hacquire : lock.acquire party = some taken)
    (other : ι) : taken.count other = lock.count other + if other = party then 1 else 0 := by
  cases lock with
  | free =>
    cases hacquire
    by_cases hsame : other = party
    · simp [count, hsame]
    · simp [count, hsame, Ne.symm hsame]
  | held owner =>
    simp only [acquire] at hacquire
    split at hacquire
    next howner =>
      cases hacquire
      subst howner
      by_cases hsame : other = owner
      · simp [count, hsame]
      · simp [count, hsame, Ne.symm hsame]
    next => cases hacquire

theorem count_release (hparty : 0 < lock.count party) (other : ι) :
    lock.count other = lock.release.count other + if other = party then 1 else 0 := by
  cases lock with
  | free => cases hparty
  | held owner again =>
    simp only [count] at hparty
    split at hparty
    next howner =>
      subst howner
      cases again with
      | zero | succ =>
        by_cases hsame : other = owner
        · simp [count, release, hsame]
        · simp [count, release, hsame, Ne.symm hsame]
    next => cases hparty

/-- Who cannot acquire the lock waits for another party. -/
theorem acquire_none (hblk : lock.acquire party = none) :
    ∃ owner, owner ≠ party ∧ 0 < lock.count owner := by
  cases lock with
  | free => cases hblk
  | held owner =>
    simp only [acquire] at hblk
    split at hblk
    next => cases hblk
    next hother => exact ⟨owner, hother, by simp [count]⟩

end ReentrantLock

end Spakky
