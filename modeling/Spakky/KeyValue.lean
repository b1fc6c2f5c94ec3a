import Mathlib.Data.List.Dedup

/-!
A key-value server with single commands that are executed one at a time. An
entry is a string or a set of names, and it may expire; a command of one kind
on an entry of the other is refused.

What a name stands for at a time is `live`. The lemmas say for each command
what it does to `live`, so that nothing else has to look at the list of
entries.
-/

namespace Spakky.KeyValue

inductive Content (κ π : Type) where
  | string (payload : π)
  | set (members : List κ)
  deriving DecidableEq, Repr

structure Entry (κ π : Type) where
  content : Content κ π
  expiresAt : Option Nat := none
  deriving DecidableEq, Repr

def Entry.isLive {κ π : Type} (now : Nat) (entry : Entry κ π) : Bool :=
  match entry.expiresAt with
  | none => true
  | some expiresAt => decide (now < expiresAt)

structure Store (κ π : Type) where
  clock : Nat
  entries : List (κ × Entry κ π)
  deriving DecidableEq, Repr

/-- A command on an entry of the other kind. -/
inductive WrongType where
  | wrongType
  deriving DecidableEq, Repr

namespace Store

variable {κ π : Type}

def advance (store : Store κ π) (elapsed : Nat) : Store κ π :=
  { store with clock := store.clock + elapsed }

variable [DecidableEq κ]

def live (store : Store κ π) (name : κ) : Option (Entry κ π) :=
  (store.entries.lookup name).filter (·.isLive store.clock)

def put (store : Store κ π) (name : κ) (entry : Entry κ π) : Store κ π :=
  { store with entries := (name, entry) :: store.entries }

/-- `DEL` -/
def delete (store : Store κ π) (names : List κ) : Store κ π :=
  { store with entries := store.entries.filter fun entry => decide (entry.1 ∉ names) }

/-- `GET` -/
def get (store : Store κ π) (name : κ) : Except WrongType (Option π) :=
  match store.live name with
  | none => .ok none
  | some ⟨.string payload, _⟩ => .ok (some payload)
  | some ⟨.set _, _⟩ => .error .wrongType

/-- `SET`, with `PX` if there is a time to live. It replaces an entry of any
kind. -/
def set (store : Store κ π) (name : κ) (payload : π) (px : Option Nat) : Store κ π :=
  store.put name ⟨.string payload, px.map (store.clock + ·)⟩

/-- `SET` with `NX` and `PX`: whether there was no entry, and the server after
it. -/
def setIfAbsent (store : Store κ π) (name : κ) (payload : π) (px : Nat) : Bool × Store κ π :=
  match store.live name with
  | none => (true, store.set name payload (some px))
  | some _ => (false, store)

/-- `SADD`. A set keeps the time it expires at. -/
def addSetMembers (store : Store κ π) (name : κ) (values : List κ) : Except WrongType (Store κ π) :=
  match store.live name with
  | none => .ok (store.put name ⟨.set values.dedup, none⟩)
  | some ⟨.set members, expiresAt⟩ => .ok (store.put name ⟨.set (members ∪ values), expiresAt⟩)
  | some ⟨.string _, _⟩ => .error .wrongType

/-- `SMEMBERS` -/
def setMembers (store : Store κ π) (name : κ) : Except WrongType (List κ) :=
  match store.live name with
  | none => .ok []
  | some ⟨.set members, _⟩ => .ok members
  | some ⟨.string _, _⟩ => .error .wrongType

/-- The names `SCAN` goes through. -/
def keys (store : Store κ π) : List κ :=
  (store.entries.map (·.1)).dedup.filter fun name => (store.live name).isSome

/-- What a name lists as a set. -/
def members (store : Store κ π) (name : κ) : List κ :=
  match store.live name with
  | some ⟨.set members, _⟩ => members
  | _ => []

section Rules

variable {store : Store κ π} {name other : κ} {entry : Entry κ π}

theorem live_eq_some : store.live name = some entry ↔
    store.entries.lookup name = some entry ∧ entry.isLive store.clock = true := by
  rw [live, Option.filter_eq_some_iff]

theorem live_put_self (hlive : entry.isLive store.clock = true) :
    (store.put name entry).live name = some entry :=
  live_eq_some.mpr ⟨List.lookup_cons_self, hlive⟩

theorem live_put_none (content : Content κ π) :
    (store.put name ⟨content, none⟩).live name = some ⟨content, none⟩ :=
  live_put_self rfl

theorem live_put_other (hother : other ≠ name) (entry : Entry κ π) :
    (store.put name entry).live other = store.live other := by
  have hbeq : (other == name) = false := beq_false_of_ne hother
  simp only [live, put, List.lookup_cons, hbeq]

variable {names : List κ}

theorem lookup_filter_names (entries : List (κ × Entry κ π)) (name : κ) :
    (entries.filter fun entry => decide (entry.1 ∉ names)).lookup name =
      if name ∈ names then none else entries.lookup name := by
  induction entries with
  | nil => simp
  | cons head _ ih =>
    obtain ⟨first, _⟩ := head
    rw [List.filter_cons, List.lookup_cons]
    by_cases hmem : first ∈ names
    · rw [if_neg (by simpa using hmem), ih]
      by_cases hsame : name = first
      · rw [if_pos (hsame ▸ hmem), if_pos (hsame ▸ hmem)]
      · rw [beq_false_of_ne hsame]
    · rw [if_pos (by simpa using hmem), List.lookup_cons, ih]
      by_cases hsame : name = first
      · subst hsame
        rw [beq_self_eq_true]
        exact (if_neg hmem).symm
      · rw [beq_false_of_ne hsame]

theorem live_delete (names : List κ) (name : κ) :
    (store.delete names).live name = if name ∈ names then none else store.live name := by
  simp only [live, delete, lookup_filter_names]
  split <;> rfl

theorem live_delete_mem (hmem : name ∈ names) : (store.delete names).live name = none := by
  rw [live_delete, if_pos hmem]

theorem live_delete_other (hother : name ∉ names) :
    (store.delete names).live name = store.live name := by
  rw [live_delete, if_neg hother]

theorem mem_keys : name ∈ store.keys ↔ store.live name ≠ none := by
  rw [keys, List.mem_filter, List.mem_dedup, ← Option.isSome_iff_ne_none]
  constructor
  · intro hmem
    exact hmem.2
  · intro hsome
    refine ⟨?_, hsome⟩
    obtain ⟨_, hlive⟩ := Option.isSome_iff_exists.mp hsome
    obtain ⟨_, _, hsplit, _⟩ := List.lookup_eq_some_iff.mp (live_eq_some.mp hlive).1
    rw [hsplit]
    simp

/-- Time makes entries disappear and does nothing else. -/
theorem live_of_advance {elapsed : Nat} (hlive : (store.advance elapsed).live name = some entry) :
    store.live name = some entry := by
  obtain ⟨hlook, hexpires⟩ := live_eq_some.mp hlive
  refine live_eq_some.mpr ⟨hlook, ?_⟩
  rw [Entry.isLive] at hexpires ⊢
  cases htime : entry.expiresAt with
  | none => rfl
  | some expiresAt =>
    rw [htime] at hexpires
    have hlater : store.clock + elapsed < expiresAt := decide_eq_true_eq.mp hexpires
    exact decide_eq_true_eq.mpr (by omega)

theorem live_advance (elapsed : Nat) (name : κ) :
    (store.advance elapsed).live name =
      (store.live name).filter (·.isLive (store.clock + elapsed)) := by
  cases hafter : (store.advance elapsed).live name with
  | some =>
    rw [live_of_advance hafter]
    exact (Option.filter_eq_some_iff.mpr ⟨rfl, (live_eq_some.mp hafter).2⟩).symm
  | none =>
    cases hbefore : store.live name with
    | none => rfl
    | some =>
      have hlook := (live_eq_some.mp hbefore).1
      rw [live, advance, hlook] at hafter
      exact hafter.symm

theorem live_set_other (hother : other ≠ name) (payload : π) (px : Option Nat) :
    (store.set name payload px).live other = store.live other :=
  live_put_other hother _

variable (payload : π)

/-- An entry with a time to live is there until that time has passed. -/
theorem live_set_self {px : Option Nat} (hpx : ∀ time, px = some time → 0 < time) :
    (store.set name payload px).live name = some ⟨.string payload, px.map (store.clock + ·)⟩ := by
  apply live_put_self
  cases px with
  | none => rfl
  | some time =>
    have hpositive := hpx time rfl
    simp only [Entry.isLive, Option.map_some, decide_eq_true_eq]
    omega

theorem setIfAbsent_true {payload : π} {px : Nat}
    (hset : (store.setIfAbsent name payload px).1 = true) :
    store.live name = none ∧
      (store.setIfAbsent name payload px).2 = store.set name payload (some px) := by
  rw [setIfAbsent] at hset ⊢
  cases hlive : store.live name with
  | none => exact ⟨rfl, rfl⟩
  | some =>
    rw [hlive] at hset
    cases hset

variable {values : List κ} {next : Store κ π}

theorem addSetMembers_other (hadd : store.addSetMembers name values = .ok next)
    (hother : other ≠ name) : next.live other = store.live other := by
  rw [addSetMembers] at hadd
  split at hadd
  · cases hadd
    exact live_put_other hother _
  · cases hadd
    exact live_put_other hother _
  · cases hadd

variable {expiresAt : Option Nat}

/-- A set that is there stays there with other members. -/
theorem live_put_set {before : List κ} (hbefore : store.live name = some ⟨.set before, expiresAt⟩)
    (after : List κ) :
    (store.put name ⟨.set after, expiresAt⟩).live name = some ⟨.set after, expiresAt⟩ :=
  live_put_self (live_eq_some.mp hbefore).2

theorem addSetMembers_set (hadd : store.addSetMembers name values = .ok next) (payload : π)
    (expiresAt : Option Nat) : next.live name ≠ some ⟨.string payload, expiresAt⟩ := by
  rw [addSetMembers] at hadd
  intro hlive
  split at hadd
  · cases hadd
    rw [live_put_none] at hlive
    cases hlive
  · rename_i members expires hbefore
    cases hadd
    rw [live_put_set hbefore] at hlive
    cases hlive
  · cases hadd

theorem addSetMembers_lasting (hadd : store.addSetMembers name values = .ok next)
    (hlasting : ∀ members expiresAt, store.live name = some ⟨.set members, expiresAt⟩ →
      expiresAt = none) {members : List κ}
    (hlive : next.live name = some ⟨.set members, expiresAt⟩) : expiresAt = none := by
  rw [addSetMembers] at hadd
  split at hadd
  · cases hadd
    rw [live_put_none] at hlive
    cases hlive
    rfl
  · rename_i before expires hbefore
    cases hadd
    rw [live_put_set hbefore] at hlive
    cases hlive
    exact hlasting before _ hbefore
  · cases hadd

theorem addSetMembers_clock (hadd : store.addSetMembers name values = .ok next) :
    next.clock = store.clock := by
  rw [addSetMembers] at hadd
  split at hadd
  · cases hadd
    rfl
  · cases hadd
    rfl
  · cases hadd

theorem members_congr (hlive : next.live name = store.live name) :
    next.members name = store.members name := by
  rw [members, members, hlive]

theorem setMembers_eq {listed : List κ} (hread : store.setMembers name = .ok listed) :
    listed = store.members name := by
  rw [setMembers] at hread
  rw [members]
  split at hread
  · rename_i hlive
    cases hread
    rw [hlive]
  · rename_i listed expiresAt hlive
    cases hread
    rw [hlive]
  · cases hread

variable (px : Option Nat)

theorem set_ne_set (members : List κ) (expiresAt : Option Nat) :
    (store.set name payload px).live name ≠ some ⟨.set members, expiresAt⟩ := by
  intro hlive
  have hlook := (live_eq_some.mp hlive).1
  simp only [set, put, List.lookup_cons_self] at hlook
  cases hlook

/-- A `SET` leaves no set behind, even if its entry has expired at once. -/
theorem members_set_self : (store.set name payload px).members name = [] := by
  rw [members]
  split
  · rename_i listed expiresAt hlive
    exact absurd hlive (set_ne_set payload px listed expiresAt)
  · rfl

variable {member : κ}

theorem mem_members_set {payload : π} {px : Option Nat}
    (hmem : member ∈ (store.set name payload px).members other) : member ∈ store.members other := by
  by_cases hsame : other = name
  · rw [hsame, members_set_self] at hmem
    cases hmem
  · rw [members_congr (live_set_other hsame payload px)] at hmem
    exact hmem

theorem mem_members_delete (hmem : member ∈ (store.delete names).members name) :
    member ∈ store.members name := by
  by_cases hdeleted : name ∈ names
  · rw [members, live_delete_mem hdeleted] at hmem
    cases hmem
  · rw [members_congr (live_delete_other hdeleted)] at hmem
    exact hmem

theorem mem_members_advance {elapsed : Nat} (hmem : member ∈ (store.advance elapsed).members name) :
    member ∈ store.members name := by
  rw [members] at hmem
  split at hmem
  · rename_i listed expiresAt hlive
    rw [members, live_of_advance hlive]
    exact hmem
  · cases hmem

theorem mem_members_addSetMembers (hadd : store.addSetMembers name values = .ok next) :
    member ∈ next.members other ↔
      member ∈ store.members other ∨ other = name ∧ member ∈ values := by
  by_cases hsame : other = name
  · subst hsame
    rw [addSetMembers] at hadd
    split at hadd
    · rename_i hnone
      cases hadd
      simp only [members, live_put_none, hnone]
      simp
    · rename_i before expiresAt hbefore
      cases hadd
      simp only [members, live_put_set hbefore, hbefore]
      simp
    · cases hadd
  · rw [members_congr (addSetMembers_other hadd hsame)]
    simp [hsame]

end Rules

end Store

end Spakky.KeyValue
