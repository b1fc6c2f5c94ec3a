import Mathlib.Data.List.Basic

/-!
Mutable objects that are held by reference. A reference is the number of
objects that were allocated before its object; objects are never freed, so a
reference that was handed out stays valid, and two holders of one reference see
each other's updates.
-/

namespace Spakky

structure Heap (β : Type) where
  cells : List β
  deriving DecidableEq, Repr

namespace Heap

variable {β : Type}

def empty : Heap β := ⟨[]⟩

/-- The reference that the next allocation hands out. -/
def fresh (heap : Heap β) : Nat := heap.cells.length

def alloc (heap : Heap β) (value : β) : Heap β :=
  ⟨heap.cells ++ [value]⟩

def read (heap : Heap β) (ref : Nat) : Option β := heap.cells[ref]?

/-- The update happens in the object itself. -/
def update (heap : Heap β) (ref : Nat) (f : β → β) : Heap β :=
  ⟨heap.cells.modify ref f⟩

@[simp]
theorem fresh_alloc (heap : Heap β) (value : β) : (heap.alloc value).fresh = heap.fresh + 1 := by
  simp [alloc, fresh]

@[simp]
theorem fresh_update (heap : Heap β) (ref : Nat) (f : β → β) :
    (heap.update ref f).fresh = heap.fresh := by
  simp [update, fresh]

@[simp]
theorem read_alloc_fresh (heap : Heap β) (value : β) :
    (heap.alloc value).read heap.fresh = some value := by
  simp [alloc, fresh, read]

variable {ref : Nat}

theorem read_alloc_of_lt (heap : Heap β) (value : β) (hlt : ref < heap.fresh) :
    (heap.alloc value).read ref = heap.read ref :=
  List.getElem?_append_left hlt

theorem read_update_self (heap : Heap β) (ref : Nat) (f : β → β) :
    (heap.update ref f).read ref = (heap.read ref).map f := by
  simp [update, read]

theorem read_update_of_ne (heap : Heap β) {other : Nat} (f : β → β) (hne : ref ≠ other) :
    (heap.update ref f).read other = heap.read other := by
  simp [update, read, hne]

variable {heap : Heap β}

theorem read_alloc_cases {value found : β} (hread : (heap.alloc value).read ref = some found) :
    ref < heap.fresh ∧ heap.read ref = some found ∨ ref = heap.fresh ∧ found = value := by
  rcases Nat.lt_trichotomy ref heap.fresh with hlt | heq | hgt
  · rw [read_alloc_of_lt heap value hlt] at hread
    exact .inl ⟨hlt, hread⟩
  · rw [heq, read_alloc_fresh] at hread
    exact .inr ⟨heq, (Option.some.inj hread).symm⟩
  · have hnone : (heap.alloc value).read ref = none := by
      apply List.getElem?_eq_none
      rw [alloc, List.length_append]
      exact hgt
    rw [hnone] at hread
    cases hread

theorem read_update_cases {f : β → β} {other : Nat} {found : β}
    (hread : (heap.update ref f).read other = some found) :
    (other = ref ∧ ∃ old, heap.read ref = some old ∧ found = f old) ∨
      other ≠ ref ∧ heap.read other = some found := by
  by_cases hsame : other = ref
  · subst hsame
    rw [read_update_self] at hread
    obtain ⟨old, hold, hfound⟩ := Option.map_eq_some_iff.mp hread
    exact .inl ⟨rfl, old, hold, hfound.symm⟩
  · rw [read_update_of_ne heap f (Ne.symm hsame)] at hread
    exact .inr ⟨hsame, hread⟩

theorem lt_of_read {value : β} (hread : heap.read ref = some value) : ref < heap.fresh :=
  (List.getElem?_eq_some_iff.mp hread).1

end Heap

end Spakky
