import Spakky.Machine

/-!
A lock that expires. A party takes it if there is none, for a fixed time to
live, and drops it later without asking whose lock it drops. As long as every
party drops its lock in time, or finds none, nobody drops the lock of another
one, and at most one party holds a lock that has not expired.
-/

namespace Spakky.Leasing

open Function

/-- The lock that is there, with its owner if one of the parties took it and the
time it expires at, and since when each party believes to hold it. -/
@[ext]
structure Lease (κ : Type) where
  clock : Nat
  entry : Option (Option κ × Option Nat)
  since : κ → Option Nat

inductive Action (κ : Type) where
  | waits (elapsed : Nat)
  | takes (party : κ)
  | drops (party : κ)
  | leaves (party : κ)
  | idles

namespace Lease

variable {κ : Type}

/-- The lock is there until its time is over. -/
def unexpired (clock : Nat) (entry : Option κ × Option Nat) : Bool :=
  entry.2.all (decide <| clock < ·)

variable (ttl : Nat)

/-- What every party believes is true, as far as time allows it. -/
structure Held (lease : Lease κ) : Prop where
  unexpired : ∀ entry, lease.entry = some entry → unexpired lease.clock entry = true
  own : ∀ party since, lease.since party = some since → lease.clock < since + ttl →
    lease.entry = some (some party, some (since + ttl))
  same : ∀ party since expiresAt, lease.since party = some since →
    lease.entry = some (some party, expiresAt) → expiresAt = some (since + ttl)

/-- A party drops its lock before it expires, or when there is none. -/
def Timely (lease : Lease κ) : Action κ → Prop
  | .drops party => ∀ since, lease.since party = some since →
      lease.clock < since + ttl ∨ lease.entry = none
  | _ => True

/-- A party drops a lock that it did not take. -/
def Steals (lease : Lease κ) : Action κ → Prop
  | .drops party => ∃ owner expiresAt, lease.entry = some (owner, expiresAt) ∧ owner ≠ some party
  | _ => False

variable {ttl} {lease : Lease κ}

theorem Held.one (hheld : lease.Held ttl) {party other : κ} {since since' : Nat}
    (hparty : lease.since party = some since) (htime : lease.clock < since + ttl)
    (hother : lease.since other = some since') (htime' : lease.clock < since' + ttl) :
    party = other := by
  have hentry := hheld.own party since hparty htime
  rw [hheld.own other since' hother htime'] at hentry
  simp only [Option.some.injEq, Prod.mk.injEq] at hentry
  exact hentry.1.symm

/-- A party that believes to hold the lock drops it in time exactly if it drops
no lock of somebody else. -/
theorem Held.timely_iff (hheld : lease.Held ttl) {party : κ} {since : Nat}
    (hparty : lease.since party = some since) :
    lease.Timely ttl (.drops party) ↔ ¬ lease.Steals (.drops party) := by
  constructor
  · rintro htimely ⟨_, _, hentry, howner⟩
    rcases htimely since hparty with htime | hnone
    · have hown := hheld.own party since hparty htime
      rw [hentry] at hown
      simp only [Option.some.injEq, Prod.mk.injEq] at hown
      exact howner hown.1
    · rw [hentry] at hnone
      cases hnone
  · intro hkeeps since' hsince
    by_contra hlate
    push Not at hlate
    obtain ⟨⟨owner, expiresAt⟩, hentry⟩ := Option.ne_none_iff_exists'.mp hlate.2
    by_cases howner : owner = some party
    · subst howner
      have hexpires := hheld.same party since' expiresAt hsince hentry
      have hlive := hheld.unexpired _ hentry
      rw [hexpires] at hlive
      have hbefore : lease.clock < since' + ttl := by simpa [Lease.unexpired] using hlive
      omega
    · exact hkeeps ⟨owner, expiresAt, hentry, howner⟩

/-- Nobody believes to hold a lock that has expired. -/
def Fresh (ttl : Nat) (lease : Lease κ) : Prop :=
  ∀ party since, lease.since party = some since → lease.clock < since + ttl

/-- The lock does not expire while time passes. -/
def Lasts (lease : Lease κ) : Action κ → Prop
  | .waits elapsed => lease.entry.filter (Lease.unexpired (lease.clock + elapsed)) = lease.entry
  | _ => True

theorem Fresh.timely (hfresh : lease.Fresh ttl) (action : Action κ) : lease.Timely ttl action := by
  cases action with
  | drops party =>
    intro since hsince
    exact .inl (hfresh party since hsince)
  | waits | takes | leaves | idles => trivial

variable [DecidableEq κ] (ttl lease)

def step : Action κ → Lease κ
  | .waits elapsed =>
    { lease with
      clock := lease.clock + elapsed
      entry := lease.entry.filter (Lease.unexpired (lease.clock + elapsed)) }
  | .takes party =>
    match lease.entry with
    | none =>
      { lease with
        entry := some (some party, some (lease.clock + ttl))
        since := update lease.since party (some lease.clock) }
    | some _ => lease
  | .drops party =>
    { lease with entry := none, since := update lease.since party none }
  | .leaves party => { lease with since := update lease.since party none }
  | .idles => lease

variable {ttl lease}

theorem Held.waits (hheld : lease.Held ttl) (elapsed : Nat) :
    (lease.step ttl (.waits elapsed)).Held ttl := by
  constructor
  · intro entry hentry
    exact (Option.filter_eq_some_iff.mp hentry).2
  · intro party since hsince htime
    have htime' : lease.clock + elapsed < since + ttl := htime
    have hentry := hheld.own party since hsince (by omega)
    refine Option.filter_eq_some_iff.mpr ⟨hentry, ?_⟩
    simpa [Lease.unexpired] using htime'
  · intro party since expiresAt hsince hentry
    exact hheld.same party since expiresAt hsince (Option.filter_eq_some_iff.mp hentry).1

theorem Held.takes (httl : 0 < ttl) (hheld : lease.Held ttl) (party : κ) :
    (lease.step ttl (.takes party)).Held ttl := by
  rw [step]
  split
  · rename_i hnone
    constructor
    · intro entry hentry
      cases hentry
      simpa [Lease.unexpired] using httl
    · intro other since hsince htime
      rcases Machine.update_cases hsince with ⟨rfl, hnow⟩ | ⟨_, hbefore⟩
      · cases hnow
        rfl
      · -- a party whose time is not over would have its lock there
        have hentry := hheld.own other since hbefore htime
        rw [hnone] at hentry
        cases hentry
    · intro other since expiresAt hsince hentry
      cases hentry
      rcases Machine.update_cases hsince with ⟨_, hnow⟩ | ⟨hother, _⟩
      · cases hnow
        rfl
      · exact absurd rfl hother
  · exact hheld

theorem Held.leaves (hheld : lease.Held ttl) (party : κ) :
    (lease.step ttl (.leaves party)).Held ttl := by
  constructor
  · exact hheld.unexpired
  · intro other since hsince
    exact hheld.own other since (Machine.update_other hsince nofun).2
  · intro other since expiresAt hsince
    exact hheld.same other since expiresAt (Machine.update_other hsince nofun).2

theorem Held.drops (hheld : lease.Held ttl) {party : κ} {since : Nat}
    (hparty : lease.since party = some since) (htimely : lease.Timely ttl (.drops party)) :
    (lease.step ttl (.drops party)).Held ttl := by
  constructor
  · intro entry hentry
    cases hentry
  · intro other since' hsince htime
    obtain ⟨hother, hbefore⟩ := Machine.update_other hsince nofun
    -- the lock of the other party would be there, so it is not this one's
    rcases htimely since hparty with hnow | hnone
    · exact absurd (hheld.one hbefore htime hparty hnow) hother
    · have hentry := hheld.own other since' hbefore htime
      rw [hnone] at hentry
      cases hentry
  · intro other since' expiresAt _ hentry
    cases hentry

theorem Fresh.step (httl : 0 < ttl) (hheld : lease.Held ttl) (hfresh : lease.Fresh ttl)
    {action : Action κ} (hlasts : lease.Lasts action) : (lease.step ttl action).Fresh ttl := by
  cases action with
  | waits =>
    intro party since hsince
    have hentry := hheld.own party since hsince (hfresh party since hsince)
    rw [← show _ = lease.entry from hlasts] at hentry
    simpa [Lease.unexpired, Lease.step] using (Option.filter_eq_some_iff.mp hentry).2
  | takes =>
    rw [Lease.step]
    split
    · intro other since hsince
      rcases Machine.update_cases hsince with ⟨_, hnow⟩ | ⟨_, hbefore⟩
      · cases hnow
        exact Nat.lt_add_of_pos_right httl
      · exact hfresh other since hbefore
    · exact hfresh
  | drops | leaves =>
    intro other since hsince
    exact hfresh other since (Machine.update_other hsince nofun).2
  | idles => exact hfresh

/-- An action drops a lock only for a party that believes to hold it. -/
def Sound (lease : Lease κ) : Action κ → Prop
  | .drops party => lease.since party ≠ none
  | _ => True

theorem Held.step (httl : 0 < ttl) (hheld : lease.Held ttl) {action : Action κ}
    (hsound : lease.Sound action) (htimely : lease.Timely ttl action) :
    (lease.step ttl action).Held ttl := by
  cases action with
  | waits elapsed => exact hheld.waits elapsed
  | takes party => exact hheld.takes httl party
  | drops =>
    obtain ⟨_, hparty⟩ := Option.ne_none_iff_exists'.mp hsound
    exact hheld.drops hparty htimely
  | leaves party => exact hheld.leaves party
  | idles => exact hheld

end Lease

end Spakky.Leasing
