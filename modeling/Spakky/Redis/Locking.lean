import Spakky.Leasing
import Spakky.Redis.Populating

/-!
The lock of `get_or_set`. It is a lease of 30 seconds, and the `finally` clause
deletes the lock entry whoever set it: the token that a client puts into the
entry is not compared. The steps of clients that populate one key are those of
a lease, which says when a client deletes the lock of another one.
-/

namespace Spakky.Redis

open KeyValue Leasing Machine

namespace Clients

variable {κ α ε π : Type} (config : RedisCacheConfig) (state : Clients κ α ε π)

/-- The next command of the client deletes a lock entry that it did not set. -/
def DeletesOthersLock : ClientEvent κ α ε π → Prop
  | .runs client _ =>
    match state.phase client with
    | .locked call _ (.release _) =>
      state.store.live (lockKey config call.key) ≠ none ∧
        state.holder (lockKey config call.key) ≠ some client
    | _ => False
  | _ => False

/-- If the next command releases the lock then this is less than the time to live
after the lock was taken, or there is no lock entry. -/
def ReleasesInTime : ClientEvent κ α ε π → Prop
  | .runs client _ =>
    match state.phase client with
    | .locked call since (.release _) =>
      state.store.clock < since + lockTtlMs ∨ state.store.live (lockKey config call.key) = none
    | _ => True
  | _ => True

/-- The client has taken the lock, its time to live has not run out, and it is
inside its factory. -/
def InFactory (client : κ) : Prop :=
  ∃ call since, state.phase client = .locked call since .produce ∧
    state.store.clock < since + lockTtlMs

section View

variable (config : RedisCacheConfig) (key : String)

/-- The lock of a key as a lease. -/
def lease (state : Clients κ α ε π) : Lease κ where
  clock := state.store.clock
  entry := (state.store.live (lockKey config key)).map fun entry =>
    (state.holder (lockKey config key), entry.expiresAt)
  since client := (state.phase client).since

/-- What an event does to the lock. -/
def leaseAction (state : Clients κ α ε π) : ClientEvent κ α ε π → Action κ
  | .tick elapsed => .waits elapsed
  | .runs client _ =>
    match state.phase client with
    | .acquiring _ | .reacquiring _ _ => .takes client
    | .locked _ _ (.release _) => .drops client
    | _ => .idles
  | .dies client => .leaves client
  | .calls _ _ | .produces _ _ => .idles

end View

variable {config : RedisCacheConfig} {runtime : Runtime α π} {key : String}
  {state : Clients κ α ε π}

theorem unexpired_eq_isLive (clock : Nat) (owner : Option κ) (entry : Entry String π) :
    Lease.unexpired clock (owner, entry.expiresAt) = entry.isLive clock := by
  rw [Lease.unexpired, Entry.isLive]
  cases entry.expiresAt <;> rfl

theorem leaseAction_looks {client : κ} {call : Population}
    (hlooks : (state.phase client).Looks call) (token : π) :
    state.leaseAction (.runs client token) = .idles := by
  rcases hlooks with hphase | ⟨_, hphase⟩
  · simp only [leaseAction, hphase]
  · simp only [leaseAction, hphase]

theorem leaseAction_acquires {client : κ} {call : Population}
    (hacq : (state.phase client).Acquires call) (token : π) :
    state.leaseAction (.runs client token) = .takes client := by
  rcases hacq with hphase | ⟨_, hphase⟩
  · simp only [leaseAction, hphase]
  · simp only [leaseAction, hphase]

theorem leaseAction_iff (hgood : state.Populates (·.key = key)) (event : ClientEvent κ α ε π) :
    ((state.lease config key).Timely lockTtlMs (state.leaseAction event) ↔
      state.ReleasesInTime config event) ∧
    ((state.lease config key).Steals (state.leaseAction event) ↔
      state.DeletesOthersLock config event) := by
  cases event with
  | runs client =>
    have hat := hgood client
    simp only [leaseAction, ReleasesInTime, DeletesOthersLock]
    cases hphase : state.phase client with
    | locked call _ stage =>
      rw [hphase] at hat
      cases stage with
      | release =>
        have hkey : call.key = key := hat
        subst hkey
        simp [Lease.Timely, Lease.Steals, lease, hphase, Phase.since, Option.ne_none_iff_exists']
      | check | produce | store | tag => simp [Lease.Timely, Lease.Steals]
    | _ => simp [Lease.Timely, Lease.Steals]
  | _ => simp [Lease.Timely, Lease.Steals, leaseAction, ReleasesInTime, DeletesOthersLock]

theorem lease_congr {next : Clients κ α ε π} (hclock : next.store.clock = state.store.clock)
    (hlive : next.store.live (lockKey config key) = state.store.live (lockKey config key))
    (hholder : next.holder = state.holder)
    (hsince : ∀ client, (next.phase client).since = (state.phase client).since) :
    next.lease config key = state.lease config key := by
  simp only [lease, hclock, hlive, hholder, hsince]

theorem sound_leaseAction (state : Clients κ α ε π) (event : ClientEvent κ α ε π) :
    (state.lease config key).Sound (state.leaseAction event) := by
  cases event with
  | runs client =>
    simp only [leaseAction]
    cases hphase : state.phase client with
    | locked _ _ stage =>
      cases stage with
      | release => simp [Lease.Sound, lease, hphase, Phase.since]
      | check | produce | store | tag => trivial
    | _ => trivial
  | _ => trivial

/-- The clients populate one key, and each of them is right about its lock as far as
time allows it. -/
structure Leased (config : RedisCacheConfig) (key : String) (state : Clients κ α ε π) : Prop where
  populates : state.Populates (·.key = key)
  held : (state.lease config key).Held lockTtlMs

theorem leased_initial (config : RedisCacheConfig) (key : String) (store : Store String π) :
    (initial store : Clients κ α ε π).Leased config key where
  populates _ := trivial
  held :=
    { unexpired := by
        intro entry hentry
        obtain ⟨_, hlive, rfl⟩ := Option.map_eq_some_iff.mp hentry
        rw [unexpired_eq_isLive]
        exact (Store.live_eq_some.mp hlive).2
      own := nofun
      same := nofun }

/-- Where the clients are right about their locks, a client releases in time
exactly if it does not delete the lock of another one. -/
theorem Leased.releasesInTime_iff (hleased : state.Leased config key)
    (event : ClientEvent κ α ε π) :
    state.ReleasesInTime config event ↔ ¬ state.DeletesOthersLock config event := by
  rw [← (leaseAction_iff hleased.populates _).1, ← (leaseAction_iff hleased.populates _).2]
  have hsound : (state.lease config key).Sound (state.leaseAction event) :=
    sound_leaseAction state event
  cases haction : state.leaseAction event with
  | drops =>
    rw [haction] at hsound
    obtain ⟨_, hsince⟩ := Option.ne_none_iff_exists'.mp hsound
    exact hleased.held.timely_iff hsince
  | _ => simp [Lease.Timely, Lease.Steals]

theorem Leased.one (hleased : state.Leased config key) {client other : κ}
    (hclient : state.InFactory client) (hother : state.InFactory other) : client = other := by
  obtain ⟨_, since, hphase, htime⟩ := hclient
  obtain ⟨_, since', hphase', htime'⟩ := hother
  have hsince : (state.lease config key).since client = some since := congrArg Phase.since hphase
  have hsince' : (state.lease config key).since other = some since' := congrArg Phase.since hphase'
  exact hleased.held.one hsince htime hsince' htime'

theorem since_of_phase {client : κ} {before next : Phase α ε} (hphase : state.phase client = before)
    (hsame : next.since = before.since) : next.since = (state.phase client).since := by
  rw [hphase, hsame]

variable [DecidableEq κ]

section

variable {client : κ} {next : Phase α ε}

theorem since_enters (state : Clients κ α ε π) (client : κ) (next : Phase α ε) :
    (fun other => ((state.enters client next).phase other).since) =
      Function.update (fun other => (state.phase other).since) client next.since := by
  funext other
  by_cases hsame : other = client
  · subst hsame
    simp [enters]
  · simp [enters, hsame]

theorem since_same (hsince : next.since = (state.phase client).since) (other : κ) :
    ((state.enters client next).phase other).since = (state.phase other).since := by
  have hall := congrFun (since_enters state client next) other
  rw [hsince, Function.update_eq_self] at hall
  exact hall

/-- A client goes on without the store and without taking or giving up the lock. -/
theorem lease_enters (hsince : next.since = (state.phase client).since) :
    (state.enters client next).lease config key = state.lease config key :=
  lease_congr rfl rfl rfl (since_same hsince)

theorem lease_ends (outcome : Except (CacheError ε) α)
    (hsince : (state.phase client).since = none) :
    (state.ends client outcome).lease config key = state.lease config key := by
  have hidle : (state.enters client .idle).lease config key = state.lease config key :=
    lease_enters hsince.symm
  exact hidle

theorem lease_advance (state : Clients κ α ε π) (elapsed : Nat) :
    ({ state with store := state.store.advance elapsed } : Clients κ α ε π).lease config key =
      (state.lease config key).step lockTtlMs (.waits elapsed) := by
  ext1
  · rfl
  · simp only [lease, Lease.step, Store.live_advance]
    cases hlive : state.store.live (lockKey config key) with
    | none => rfl
    | some =>
      simp only [Option.map_some, Option.filter_some, unexpired_eq_isLive]
      split <;> rfl
  · rfl

theorem goes_lease (token : π) (hkey : (state.phase client).Populates (·.key = key))
    (hgoes : Goes state.store.clock (state.phase client) next)
    (htaken : ∀ call, (state.phase client).Acquires call →
      state.store.live (lockKey config call.key) ≠ none) :
    (state.enters client next).lease config key =
      (state.lease config key).step lockTtlMs (state.leaseAction (.runs client token)) := by
  have hsince : next.since = (state.phase client).since := by
    generalize state.phase client = phase at hgoes
    cases hgoes <;> rfl
  rw [lease_enters hsince]
  -- a client that does not get the lock leaves the lease as it is
  have hlost : ∀ call, (state.phase client).Acquires call → call.key = key →
      (state.lease config key).step lockTtlMs (.takes client) = state.lease config key := by
    rintro call hacq rfl
    obtain ⟨_, hentry⟩ := Option.ne_none_iff_exists'.mp (htaken call hacq)
    simp [Lease.step, lease, hentry]
  cases hphase : state.phase client with
  | acquiring call =>
    rw [hphase] at hkey
    simp only [leaseAction, hphase]
    exact (hlost call (.inl hphase) hkey).symm
  | reacquiring call deadline =>
    rw [hphase] at hkey
    simp only [leaseAction, hphase]
    exact (hlost call (.inr ⟨deadline, hphase⟩) hkey).symm
  | locked =>
    rw [hphase] at hgoes
    cases hgoes
  | _ => simp only [leaseAction, hphase, Lease.step]

end

/-- Every step of clients that populate one key is a step of the lease. -/
theorem moves_lease (hgood : state.Populates (·.key = key)) {event : ClientEvent κ α ε π}
    {next : Clients κ α ε π} (hmoves : Moves config runtime state event next) :
    next.lease config key = (state.lease config key).step lockTtlMs (state.leaseAction event) := by
  cases hmoves with
  | passes elapsed => exact lease_advance state elapsed
  | dies client =>
    ext1
    · rfl
    · rfl
    · exact since_enters state client .idle
  | begins _ _ hphase => exact lease_enters (since_of_phase hphase rfl)
  | refuses => rfl
  | rests _ _ hrests =>
    rcases hrests with hphase | ⟨_, _, hphase⟩
    · simp only [leaseAction, hphase, Lease.step]
    · simp only [leaseAction, hphase, Lease.step]
  | goes client token _ hgoes htaken => exact goes_lease token (hgood client) hgoes htaken
  | finds _ _ _ _ hphase | fails _ _ _ _ hphase =>
    rw [leaseAction_looks hphase]
    exact lease_ends _ hphase.since
  | timesOut _ _ _ _ hphase =>
    simp only [leaseAction, hphase, Lease.step]
    exact lease_ends _ (congrArg Phase.since hphase)
  | acquires client token call hphase hfree =>
    have hkey : call.key = key := hphase.populates (hgood client)
    subst hkey
    have hentry : (state.lease config call.key).entry = none := by
      rw [lease, hfree, Option.map_none]
    rw [leaseAction_acquires hphase]
    simp only [Lease.step, hentry]
    ext1
    · rfl
    · simp only [lease]
      rw [Store.live_set_self token (by simp [lockTtlMs])]
      simp
    · exact since_enters state client _
  | works client token _ _ _ _ hphase hworks =>
    have haction : state.leaseAction (.runs client token) = .idles := by
      cases hworks <;> simp only [leaseAction, hphase]
    rw [haction]
    exact lease_enters (since_of_phase hphase rfl)
  | stores client _ call _ _ _ hphase =>
    have hkey : lockKey config key ≠ redisKey config call.key := by
      have hat := hgood client
      rw [hphase] at hat
      rw [← show call.key = key from hat]
      exact lockKey_ne_redisKey call.key
    simp only [leaseAction, hphase, Lease.step]
    refine lease_congr rfl ?_ rfl ?_
    · exact Store.live_set_other hkey _ _
    · exact since_same (since_of_phase hphase rfl)
  | tags _ _ _ _ _ tag _ _ hphase hadd =>
    simp only [leaseAction, hphase, Lease.step]
    refine lease_congr (Store.addSetMembers_clock hadd) ?_ rfl ?_
    · exact Store.addSetMembers_other hadd (lockKey_ne_tagKey key tag)
    · exact since_same (since_of_phase hphase rfl)
  | releases client _ call _ _ hphase =>
    have hkey : call.key = key := by
      have hat := hgood client
      rw [hphase] at hat
      exact hat
    subst hkey
    simp only [leaseAction, hphase]
    ext1
    · rfl
    · simp only [lease, Lease.step]
      rw [Store.live_delete_mem (List.mem_singleton_self _), Option.map_none]
    · exact since_enters state client .idle
  | returns _ _ _ _ hphase => exact lease_congr rfl rfl rfl (since_same (since_of_phase hphase rfl))
  | raises _ _ _ _ hphase => exact lease_enters (since_of_phase hphase rfl)
  | ignores => rfl

theorem Leased.step (state : Clients κ α ε π) (event : ClientEvent κ α ε π)
    (hleased : state.Leased config key) (hevent : event.Populates (·.key = key))
    (htime : state.ReleasesInTime config event) :
    (state.step config runtime event).Leased config key := by
  have hmoves : Moves config runtime state event (state.step config runtime event) :=
    step_moves hleased.populates hevent
  refine ⟨hleased.populates.moves hevent hmoves, ?_⟩
  rw [moves_lease hleased.populates hmoves]
  have httl : 0 < lockTtlMs := by simp [lockTtlMs]
  apply hleased.held.step httl
  · exact sound_leaseAction state event
  · exact (leaseAction_iff hleased.populates event).1.mpr htime

/-- In a run in which the clients populate one key, no client deletes a lock that
another one set, and at every moment at most one client with an unexpired lock is
inside its factory, exactly if every release is in time. -/
theorem deletes_own_lock_iff (config : RedisCacheConfig) (runtime : Runtime α π) (key : String)
    (store : Store String π) (events : List (ClientEvent κ α ε π))
    (hevents : ∀ event ∈ events, event.Populates (·.key = key)) :
    (Along (step config runtime) (fun state event => ¬ state.DeletesOthersLock config event)
        (initial store) events ∧
      ∀ first second, events = first ++ second → ∀ client other,
        (run (step config runtime) (initial store) first).InFactory client →
        (run (step config runtime) (initial store) first).InFactory other → client = other) ↔
      Along (step config runtime) (fun state event => state.ReleasesInTime config event)
        (initial store) events := by
  have hinitial := leased_initial (κ := κ) (α := α) (ε := ε) config key store
  constructor
  · rintro ⟨hkeeps, _⟩
    apply Along.imp _ _ hinitial (hkeeps.and_events hevents)
    · rintro state event hleased ⟨hevent, hown⟩
      exact hleased.step state event hevent ((hleased.releasesInTime_iff event).mpr hown)
    · rintro state event hleased ⟨_, hown⟩
      exact (hleased.releasesInTime_iff event).mpr hown
  · intro htime
    have hstep : ∀ (state : Clients κ α ε π) event, state.Leased config key →
        event.Populates (·.key = key) ∧ state.ReleasesInTime config event →
        (step config runtime state event).Leased config key := by
      rintro state event hleased ⟨hevent, hrelease⟩
      exact hleased.step state event hevent hrelease
    constructor
    · apply Along.imp hstep _ hinitial (htime.and_events hevents)
      rintro state event hleased ⟨_, hrelease⟩
      exact (hleased.releasesInTime_iff event).mp hrelease
    · rintro first second rfl client other hclient hother
      have hbefore := (along_append.mp htime).1
      have hleased := Along.invariant hstep hinitial
        (hbefore.and_events fun event hmem => hevents event (List.mem_append_left _ hmem))
      exact hleased.one hclient hother

/-- A client calls and goes on until it is inside its factory. -/
def entersFactory (client : Nat) : List (ClientEvent Nat Unit Unit Unit) :=
  [.calls client (.getOrSet { key := "order" }), .runs client (), .runs client (), .runs client ()]

/-- The lock of the first client expires and the second client takes it. The first
one releases it, and a third one takes it while the second is in its factory. -/
def stolenLock : List (ClientEvent Nat Unit Unit Unit) :=
  entersFactory 0 ++ [.tick 30000] ++ entersFactory 1 ++ [.produces 0 (.error ())] ++
    .runs 0 () :: entersFactory 2

/-- The second client waits until the first one, whose factory raises, has released the
lock. -/
def handedOver : List (ClientEvent Nat Unit Unit Unit) :=
  entersFactory 0 ++ entersFactory 1 ++ [.produces 0 (.error ()), .runs 0 (), .runs 1 (),
    .runs 1 (), .runs 1 (), .runs 1 ()]

theorem deletes_own_lock_iff_handedOver :
    (Along (step {} unitRuntime) (fun state event => ¬ state.DeletesOthersLock {} event)
        (initial ⟨0, []⟩) handedOver ∧
      ∀ first second, handedOver = first ++ second → ∀ client other,
        (run (step {} unitRuntime) (initial ⟨0, []⟩) first).InFactory client →
        (run (step {} unitRuntime) (initial ⟨0, []⟩) first).InFactory other → client = other) ∧
      (run (step {} unitRuntime) (initial ⟨0, []⟩) handedOver).InFactory 1 := by
  refine ⟨(deletes_own_lock_iff {} unitRuntime "order" ⟨0, []⟩ handedOver ?_).mpr ?_,
    { key := "order" }, 0, rfl, by decide +kernel⟩
  · simp [handedOver, entersFactory, ClientEvent.Populates]
  · refine ⟨trivial, trivial, trivial, trivial, trivial, trivial, trivial, trivial, trivial, ?_,
      trivial, trivial, trivial, trivial, trivial⟩
    exact .inl (by decide +kernel)

theorem deletes_others_lock_stolenLock :
    ¬ Along (step {} unitRuntime) (fun state event => ¬ state.DeletesOthersLock {} event)
        (initial ⟨0, []⟩) stolenLock ∧
      (run (step {} unitRuntime) (initial ⟨0, []⟩) stolenLock).InFactory 1 ∧
      (run (step {} unitRuntime) (initial ⟨0, []⟩) stolenLock).InFactory 2 := by
  refine ⟨?_, ?_, ?_⟩
  · intro hkeeps
    obtain ⟨_, hrelease, _⟩ := along_append.mp hkeeps
    apply hrelease
    have hphase : (run (step {} unitRuntime) (initial ⟨0, []⟩) (entersFactory 0 ++ [.tick 30000] ++
        entersFactory 1 ++ [.produces 0 (.error ())])).phase 0 =
          .locked { key := "order" } 0 (.release (.error (.factory ()))) := rfl
    exact ⟨by decide +kernel, by decide +kernel⟩
  · exact ⟨{ key := "order" }, 30000, rfl, by decide +kernel⟩
  · exact ⟨{ key := "order" }, 30000, rfl, by decide +kernel⟩

end Clients

end Spakky.Redis
