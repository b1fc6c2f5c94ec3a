import Spakky.Redis.Locking

/-!
What holds of clients that populate one key while nothing expires. A client in
its factory has the lock and is the only one, so there is no value and none was
computed; from the return of a factory to the `SET` the lock is there; and once
there is a value, the second look inside the lock finds it.

The store may refuse a value after the factory has returned it: a time to live
that is not positive, a value that cannot be pickled, a tag whose index is an
entry of another kind. The invariant is about calls that are not refused.
-/

namespace Spakky.Redis

open KeyValue Leasing Machine

section Conditions

variable {κ α ε π : Type} (config : RedisCacheConfig) (runtime : Runtime α π) (key : String)

/-- The index of the tag can be extended: it is not the entry of the key, and it is a
set if it is there. -/
def IndexReady (store : Store String π) (tag : String) : Prop :=
  key ≠ "__tag__:" ++ tag ∧
    ∀ payload expiresAt, store.live (tagKey config tag) ≠ some ⟨.string payload, expiresAt⟩

/-- The call is on the key, and nothing but its value can keep it from being stored. -/
structure Storable (store : Store String π) (call : Population) : Prop where
  on_key : call.key = key
  ttl : ∃ px, (ttlMs runtime call.ttl : Except (CacheError Unit) (Option Nat)) = .ok px
  tags : ∀ tag ∈ call.tags, IndexReady config key store tag

/-- No factory returns a value that cannot be pickled. -/
def ClientEvent.Serializes : ClientEvent κ α ε π → Prop
  | .produces _ (.ok value) => runtime.serialize value ≠ none
  | _ => True

/-- Nothing expires while time passes. -/
def Clients.NothingExpires (state : Clients κ α ε π) : ClientEvent κ α ε π → Prop
  | .tick elapsed => ∀ name, (state.store.advance elapsed).live name = state.store.live name
  | _ => True

end Conditions

section Sending

variable {α ε π : Type} {runtime : Runtime α π} {ttl : CacheTtl}

theorem ttlMs_pos {time : Nat}
    (httl : (ttlMs runtime ttl : Except (CacheError ε) (Option Nat)) = .ok (some time)) :
    0 < time := by
  rw [ttlMs.eq_def] at httl
  split at httl
  · cases httl
  · split at httl
    · cases httl
    · split at httl
      · cases httl
        omega
      · cases httl
  · cases httl
  · cases httl
  · cases httl

/-- Whether a time to live is accepted does not depend on the factory's errors. -/
theorem ttlMs_ok_iff {px : Option Nat} :
    (ttlMs runtime ttl : Except (CacheError ε) (Option Nat)) = .ok px ↔
      (ttlMs runtime ttl : Except (CacheError Unit) (Option Nat)) = .ok px := by
  rw [ttlMs.eq_def, ttlMs.eq_def]
  split
  · simp
  · split
    · simp
    · split <;> simp
  · simp
  · simp
  · simp

theorem payloadOf_ok {value : α} {sent : π × Option Nat}
    (hsent : (Clients.payloadOf runtime value ttl : Except (CacheError ε) _) = .ok sent) :
    runtime.serialize value = some sent.1 ∧
      (ttlMs runtime ttl : Except (CacheError ε) (Option Nat)) = .ok sent.2 := by
  rw [Clients.payloadOf] at hsent
  split at hsent
  · cases hsent
  · rename_i payload hserialize
    split at hsent
    · cases hsent
    · rename_i px httl
      cases hsent
      exact ⟨hserialize, httl⟩

theorem payloadOf_not_error {value : α} {px : Option Nat} {error : CacheError ε}
    (hserialize : runtime.serialize value ≠ none)
    (httl : (ttlMs runtime ttl : Except (CacheError ε) (Option Nat)) = .ok px) :
    Clients.payloadOf runtime value ttl ≠ .error error := by
  obtain ⟨_, hpayload⟩ := Option.ne_none_iff_exists'.mp hserialize
  simp [Clients.payloadOf, hpayload, httl]

end Sending

/-- Where a client with the lock may be while there is no value. -/
def Locked.Before {α ε : Type} : Locked α ε → Prop
  | .check | .produce | .release (.error (.factory _)) => True
  | _ => False

/-- Where a client with the lock may be once there is a value. -/
def Locked.After {α ε : Type} (value : α) : Locked α ε → Prop
  | .check => True
  | .tag other _ | .release (.ok other) => other = value
  | _ => False

namespace Clients

variable {κ α ε π : Type} (config : RedisCacheConfig) (runtime : Runtime α π) (key : String)

/-- What a client that looks for the key gets. -/
def Reads (state : Clients κ α ε π) (found : Option α) : Prop :=
  (lookup config runtime state.store key : Except (CacheError ε) (Option α)) = .ok found

/-- All clients with the lock are at such a stage. -/
def Stages (allowed : Locked α ε → Prop) (state : Clients κ α ε π) : Prop :=
  ∀ client call since stage, state.phase client = .locked call since stage → allowed stage

/-- There is no value and none was computed, or one was computed and its client has
the lock until it is stored, or there is one. -/
inductive Settles (first : Option α) (state : Clients κ α ε π) : Prop
  | empty (hfirst : first = none) (hreads : state.Reads config runtime key none)
      (hprod : state.produced = [])
      (hret : ∀ client value, (client, .ok value) ∉ state.results)
      (hstages : state.Stages Locked.Before)
  | computed (value producer) (hfirst : first = none) (hreads : state.Reads config runtime key none)
      (hprod : state.produced = [(producer, value)])
      (hserializes : runtime.serialize value ≠ none)
      (hret : ∀ client value, (client, .ok value) ∉ state.results)
      (hlock : state.store.live (lockKey config key) ≠ none)
      (hstages : state.Stages (· = .store value))
  | stored (value) (hreads : state.Reads config runtime key (some value))
      (hprod : first.toList ++ state.produced.map Prod.snd = [value])
      (hret : ∀ client other, (client, .ok other) ∈ state.results → other = value)
      (hstages : state.Stages (Locked.After value))

variable {config runtime key} {first : Option α} {state next : Clients κ α ε π}

theorem reads_congr
    (hlive : next.store.live (redisKey config key) = state.store.live (redisKey config key))
    (found : Option α) :
    next.Reads config runtime key found ↔ state.Reads config runtime key found := by
  simp only [Reads, lookup, Store.get, hlive]

/-- A step that changes neither the value nor what was computed, and that takes no
client with the lock to another stage. -/
theorem Settles.of_same (hsettles : state.Settles config runtime key first)
    (hlive : next.store.live (redisKey config key) = state.store.live (redisKey config key))
    (hlock : state.store.live (lockKey config key) ≠ none →
      next.store.live (lockKey config key) ≠ none) (hprod : next.produced = state.produced)
    (hresults : ∀ client value, (client, .ok value) ∈ next.results →
      (client, .ok value) ∈ state.results)
    (hphase : ∀ allowed, state.Stages allowed → next.Stages allowed) :
    next.Settles config runtime key first := by
  cases hsettles with
  | empty hfirst hreads hnone hret hstages =>
    refine .empty hfirst ((reads_congr hlive none).mpr hreads) (hprod.trans hnone) ?_
      (hphase _ hstages)
    intro client value hmem
    exact hret client value (hresults client value hmem)
  | computed value producer hfirst hreads hone hserializes hret hheld hstages =>
    refine .computed value producer hfirst ((reads_congr hlive none).mpr hreads)
      (hprod.trans hone) hserializes ?_ (hlock hheld) (hphase _ hstages)
    intro client other hmem
    exact hret client other (hresults client other hmem)
  | stored value hreads hone hret hstages =>
    refine .stored value ((reads_congr hlive _).mpr hreads) ?_ ?_ (hphase _ hstages)
    · rw [hprod]
      exact hone
    · intro client other hmem
      exact hret client other (hresults client other hmem)

/-- The clients populate one key, and none of them believes to hold a lock that has
expired or was taken by another one. -/
structure Exclusive (config : RedisCacheConfig) (key : String) (state : Clients κ α ε π) :
    Prop where
  leased : state.Leased config key
  fresh : (state.lease config key).Fresh lockTtlMs

section Exclusive

variable {client : κ} {call : Population} {since : Nat} {stage : Locked α ε}
  (hexcl : state.Exclusive config key) (hphase : state.phase client = .locked call since stage)
include hexcl hphase

theorem Exclusive.entry :
    (state.lease config key).entry = some (some client, some (since + lockTtlMs)) := by
  have hsince : (state.lease config key).since client = some since := congrArg Phase.since hphase
  exact hexcl.leased.held.own client since hsince (hexcl.fresh client since hsince)

/-- A client that has taken the lock finds the lock there. -/
theorem Exclusive.live : state.store.live (lockKey config key) ≠ none := by
  intro hnone
  have hentry := hexcl.entry hphase
  rw [lease, hnone] at hentry
  cases hentry

theorem Exclusive.alone {other : κ} {call' : Population} {since' : Nat} {stage' : Locked α ε}
    (hphase' : state.phase other = .locked call' since' stage') : other = client := by
  have hentry := hexcl.entry hphase
  rw [hexcl.entry hphase'] at hentry
  simp only [Option.some.injEq, Prod.mk.injEq] at hentry
  exact hentry.1

end Exclusive

section Calm

/-- What holds of clients that populate one key with values that can be stored, while
nothing expires. -/
structure Calm (config : RedisCacheConfig) (runtime : Runtime α π) (key : String)
    (store : Store String π) (first : Option α) (state : Clients κ α ε π) : Prop where
  populates : state.Populates (Storable config runtime key store)
  exclusive : state.Exclusive config key
  indexes : ∀ tag, IndexReady config key store tag → IndexReady config key state.store tag
  settles : state.Settles config runtime key first

variable {store : Store String π}

section

variable {client : κ} {call : Population} {since : Nat}
  (hcalm : state.Calm config runtime key store first)
include hcalm

theorem Calm.storable {stage : Locked α ε}
    (hphase : state.phase client = .locked call since stage) :
    Storable config runtime key store call := by
  have hat := hcalm.populates client
  rw [hphase] at hat
  exact hat.locked

theorem Calm.ready {value : α} {tag : String} {rest : List String}
    (hphase : state.phase client = .locked call since (.tag value (tag :: rest))) :
    IndexReady config key state.store tag := by
  have hat := hcalm.populates client
  rw [hphase] at hat
  exact hcalm.indexes tag (hat.1.tags tag (hat.2 (.head _)))

end

theorem calm_initial {found : Option α}
    (hfound : (lookup config runtime store key : Except (CacheError ε) _) = .ok found) :
    (initial store : Clients κ α ε π).Calm config runtime key store found where
  populates _ := trivial
  exclusive := ⟨leased_initial config key store, nofun⟩
  indexes _ hready := hready
  settles := by
    cases found with
    | none => exact .empty rfl hfound rfl nofun nofun
    | some value => exact .stored value hfound rfl nofun nofun

end Calm

theorem Stages.enters [DecidableEq κ] {allowed : Locked α ε → Prop}
    (hstages : state.Stages allowed) {client : κ} {phase : Phase α ε}
    (hphase : ∀ call since stage, phase = .locked call since stage → allowed stage) :
    (state.enters client phase).Stages allowed := by
  intro other call since stage hat
  rcases update_cases hat with ⟨_, hnew⟩ | ⟨_, hold⟩
  · exact hphase call since stage hnew.symm
  · exact hstages other call since stage hold

section

variable (hsettles : state.Settles config runtime key first)
include hsettles

theorem Settles.reads : ∃ found, state.Reads config runtime key found := by
  cases hsettles with
  | empty _ hreads => exact ⟨none, hreads⟩
  | computed _ _ _ hreads =>
    exact ⟨none, hreads⟩
  | stored value hreads => exact ⟨some value, hreads⟩

/-- The only error a client releases the lock with is that of its factory. -/
theorem Settles.release_error {client : κ} {call : Population} {since : Nat}
    {error : CacheError ε}
    (hphase : state.phase client = .locked call since (.release (.error error))) :
    ∃ raised, error = .factory raised := by
  cases hsettles with
  | empty _ _ _ _ hstages =>
    have hbefore := hstages client call since _ hphase
    cases error with
    | factory raised => exact ⟨raised, rfl⟩
    | invalidCacheTtl | ttlOverflow | operation | serialization | lockTimeout =>
      exact hbefore.elim
  | computed _ _ _ _ _ _ _ _ hstages =>
    cases hstages client call since _ hphase
  | stored _ _ _ _ hstages =>
    exact (hstages client call since _ hphase).elim

/-- There is at most one value, and everybody who has returned has it. -/
theorem Settles.once :
    (first.toList ++ state.produced.map Prod.snd).length ≤ 1 ∧
      ∀ client value, (client, .ok value) ∈ state.results →
        value ∈ first.toList ++ state.produced.map Prod.snd := by
  cases hsettles with
  | empty hfirst _ hnone hret =>
    refine ⟨by simp [hfirst, hnone], ?_⟩
    intro client value hmem
    exact absurd hmem (hret client value)
  | computed _ _ hfirst _ hone _ hret =>
    refine ⟨by simp [hfirst, hone], ?_⟩
    intro client other hmem
    exact absurd hmem (hret client other)
  | stored value _ hone hret =>
    refine ⟨by simp [hone], ?_⟩
    intro client other hmem
    rw [hone, hret client other hmem]
    exact List.mem_singleton_self value

variable [DecidableEq κ]

theorem Settles.enters (client : κ) {phase : Phase α ε}
    (hphase : ∀ call since stage, phase ≠ .locked call since stage) :
    (state.enters client phase).Settles config runtime key first := by
  refine hsettles.of_same rfl id rfl (fun _ _ => id) ?_
  intro allowed hstages
  exact hstages.enters fun call since stage hat => absurd hat (hphase call since stage)

theorem Settles.ends_error (client : κ) (error : CacheError ε) :
    (state.ends client (.error error)).Settles config runtime key first := by
  refine hsettles.of_same rfl id rfl ?_ ?_
  · intro other value hmem
    simpa [ends, Clients.enters] using hmem
  · intro allowed hstages
    exact hstages.enters (by simp)

theorem Settles.ends_ok (client : κ) {value : α}
    (hfound : state.Reads config runtime key (some value)) :
    (state.ends client (.ok value)).Settles config runtime key first := by
  cases hsettles with
  | empty _ hreads | computed _ _ _ hreads =>
    rw [Reads, hreads] at hfound
    cases hfound
  | stored other hreads hone hret hstages =>
    have hsame : other = value := by
      rw [Reads, hreads] at hfound
      simpa using hfound
    subst hsame
    refine .stored other hreads hone ?_ (hstages.enters nofun)
    intro caller returned hmem
    rcases List.mem_append.mp hmem with hold | hnew
    · exact hret caller returned hold
    · cases List.mem_singleton.mp hnew
      rfl

end

variable [DecidableEq κ]

section Exclusive

variable {client : κ} {call : Population} {since : Nat} {stage : Locked α ε}

theorem Exclusive.step {runtime : Runtime α π} (hexcl : state.Exclusive config key)
    {event : ClientEvent κ α ε π} (hevent : event.Populates (·.key = key))
    (hlasts : state.NothingExpires event) :
    (state.step config runtime event).Exclusive config key := by
  have htimely := hexcl.fresh.timely (state.leaseAction event)
  have hrelease := (leaseAction_iff hexcl.leased.populates event).1.mp htimely
  refine ⟨hexcl.leased.step state event hevent hrelease, ?_⟩
  have hmoves : Moves config runtime state event (state.step config runtime event) :=
    step_moves hexcl.leased.populates hevent
  rw [moves_lease hexcl.leased.populates hmoves]
  have httl : 0 < lockTtlMs := by simp [lockTtlMs]
  apply hexcl.fresh.step httl hexcl.leased.held
  cases event with
  | tick elapsed =>
    have hsame : (lease config key { state with store := state.store.advance elapsed }).entry =
        (state.lease config key).entry := by
      simp only [lease, hlasts (lockKey config key)]
    rw [lease_advance] at hsame
    exact hsame
  | runs =>
    simp only [leaseAction]
    split <;> trivial
  | calls | produces | dies => trivial

/-- Only the client that goes on has the lock. -/
theorem Stages.of_alone (hexcl : state.Exclusive config key) {next : Locked α ε}
    (hphase : state.phase client = .locked call since stage) {allowed : Locked α ε → Prop}
    (hallowed : allowed next) : (state.enters client (.locked call since next)).Stages allowed := by
  intro other call' since' stage' hat
  rcases update_cases hat with ⟨_, hnew⟩ | ⟨hother, hold⟩
  · cases hnew
    exact hallowed
  · exact absurd (hexcl.alone hphase hold) hother

end Exclusive

section Locked

variable {client : κ} {call : Population} {since : Nat}

theorem after_afterTags (value : α) (rest : List String) :
    (afterTags value rest : Locked α ε).After value := by
  cases rest with
  | nil => exact rfl
  | cons => exact rfl

section

variable {value : α} (hsettles : state.Settles config runtime key first)
include hsettles

/-- The lock is deleted and the call returns the value or raises the factory's error. -/
theorem Settles.releases {outcome : Except (CacheError ε) α}
    (hphase : state.phase client = .locked call since (.release outcome)) (hkey : call.key = key) :
    ({ state.ends client outcome with store := state.store.delete [lockKey config call.key] } :
      Clients κ α ε π).Settles config runtime key first := by
  subst hkey
  have hother : redisKey config call.key ∉ [lockKey config call.key] := by
    simpa using (lockKey_ne_redisKey call.key).symm
  have hlive : (state.store.delete [lockKey config call.key]).live (redisKey config call.key) =
      state.store.live (redisKey config call.key) := Store.live_delete_other hother
  cases hsettles with
  | empty hfirst hreads hnone hret hstages =>
    have hbefore := hstages client call since _ hphase
    refine .empty hfirst ((reads_congr hlive none).mpr hreads) hnone ?_ (hstages.enters nofun)
    intro caller value hmem
    rcases List.mem_append.mp hmem with hold | hnew
    · exact hret caller value hold
    · cases List.mem_singleton.mp hnew
      exact hbefore
  | computed _ _ _ _ _ _ _ _ hstages =>
    cases hstages client call since _ hphase
  | stored value hreads hone hret hstages =>
    have hafter := hstages client call since _ hphase
    refine .stored value ((reads_congr hlive _).mpr hreads) hone ?_ (hstages.enters nofun)
    intro caller other hmem
    rcases List.mem_append.mp hmem with hold | hnew
    · exact hret caller other hold
    · cases List.mem_singleton.mp hnew
      exact hafter

theorem Settles.raises {error : ε} (hphase : state.phase client = .locked call since .produce) :
    (state.enters client (.locked call since (.release (.error (.factory error))))).Settles
      config runtime key first := by
  cases hsettles with
  | empty hfirst hreads hnone hret hstages =>
    refine .empty hfirst hreads hnone hret (hstages.enters ?_)
    intro call' since' stage' hat
    cases hat
    trivial
  | computed _ _ _ _ _ _ _ _ hstages =>
    cases hstages client call since _ hphase
  | stored _ _ _ _ hstages =>
    exact (hstages client call since _ hphase).elim

variable (hexcl : state.Exclusive config key)
include hexcl

theorem Settles.acquires (hfree : state.store.live (lockKey config key) = none) (token : π)
    (call : Population) :
    ({ state.enters client (.locked call state.store.clock .check) with
        store := state.store.set (lockKey config key) token (some lockTtlMs)
        holder := Function.update state.holder (lockKey config key) (some client) } :
      Clients κ α ε π).Settles config runtime key first := by
  have hlive : (state.store.set (lockKey config key) token (some lockTtlMs)).live
      (redisKey config key) = state.store.live (redisKey config key) :=
    Store.live_set_other (lockKey_ne_redisKey key).symm _ _
  have hcheck : ∀ allowed : Locked α ε → Prop, allowed .check →
      (state.enters client (.locked call state.store.clock .check)).Stages allowed := by
    intro allowed hallowed other call' since stage hat
    rcases update_cases hat with ⟨_, hnew⟩ | ⟨_, hold⟩
    · cases hnew
      exact hallowed
    · exact absurd hfree (hexcl.live hold)
  cases hsettles with
  | empty hfirst hreads hnone hret =>
    exact .empty hfirst ((reads_congr hlive none).mpr hreads) hnone hret (hcheck _ trivial)
  | computed _ _ _ _ _ _ _ hheld =>
    exact absurd hfree hheld
  | stored value hreads hone hret =>
    exact .stored value ((reads_congr hlive _).mpr hreads) hone hret (hcheck _ trivial)

/-- What a client with the lock does up to its release, if its value can be stored. -/
theorem Settles.works {stage next : Locked α ε}
    (hphase : state.phase client = .locked call since stage) (hkey : call.key = key)
    (httl : ∃ px, (ttlMs runtime call.ttl : Except (CacheError ε) (Option Nat)) = .ok px)
    (htags : ∀ value tag rest, stage = .tag value (tag :: rest) →
      IndexReady config key state.store tag)
    (hworks : Works config runtime state.store call stage next) :
    (state.enters client (.locked call since next)).Settles config runtime key first := by
  subst hkey
  have hnext : ∀ allowed : Locked α ε → Prop, allowed next →
      (state.enters client (.locked call since next)).Stages allowed :=
    fun _ hallowed => .of_alone hexcl hphase hallowed
  cases hsettles with
  | empty hfirst hreads hnone hret hstages =>
    refine .empty hfirst hreads hnone hret (hnext _ ?_)
    have hbefore := hstages client call since stage hphase
    cases hworks with
    | finds _ hlook | fails _ hlook => cases hreads.symm.trans hlook
    | misses => trivial
    | refuses | tagged | mistags => exact hbefore.elim
  | computed _ _ _ _ _ hserializes _ _ hstages =>
    have hstore := hstages client call since stage hphase
    subst hstore
    cases hworks with
    | refuses _ _ hsent =>
      obtain ⟨_, hpx⟩ := httl
      exact absurd hsent (payloadOf_not_error hserializes hpx)
  | stored value hreads hone hret hstages =>
    refine .stored value hreads hone hret (hnext _ ?_)
    have hafter := hstages client call since stage hphase
    cases hworks with
    | finds _ hlook =>
      have hsame := hreads.symm.trans hlook
      simp only [Except.ok.injEq, Option.some.injEq] at hsame
      exact hsame.symm
    | fails _ hlook | misses hlook => cases hreads.symm.trans hlook
    | refuses => exact hafter.elim
    | tagged => exact hafter
    | mistags other tag rest hadd =>
      have hready := htags other tag rest rfl
      rw [Store.addSetMembers] at hadd
      split at hadd
      · cases hadd
      · cases hadd
      · rename_i payload expiresAt hlive
        exact absurd hlive (hready.2 payload expiresAt)

theorem Settles.stores {sent : π × Option Nat}
    (hphase : state.phase client = .locked call since (.store value)) (hkey : call.key = key)
    (hsent : (payloadOf runtime value call.ttl : Except (CacheError ε) _) = .ok sent) :
    ((state.puts config call.key sent).enters client
      (.locked call since (afterTags value call.tags))).Settles config runtime key first := by
  subst hkey
  cases hsettles with
  | empty _ _ _ _ hstages | stored _ _ _ _ hstages =>
    exact (hstages client call since _ hphase).elim
  | computed _ _ hfirst _ hone _ hret _ hstages =>
    have hsame := hstages client call since _ hphase
    cases hsame
    obtain ⟨hpayload, httl⟩ := payloadOf_ok hsent
    have hlive : (state.store.set (redisKey config call.key) sent.1 sent.2).live
        (redisKey config call.key) = some ⟨.string sent.1, sent.2.map (state.store.clock + ·)⟩ := by
      apply Store.live_set_self
      intro time htime
      rw [htime] at httl
      exact ttlMs_pos httl
    refine .stored value ?_ ?_ ?_ ?_
    · have hdecodes := runtime.deserialize_serialize value sent.1 hpayload
      simp [Reads, lookup, Store.get, puts, Clients.enters, hlive, hdecodes]
    · rw [hfirst]
      simp [puts, Clients.enters, hone]
    · intro caller returned hmem
      exact absurd hmem (hret caller returned)
    · exact .of_alone hexcl hphase (after_afterTags value call.tags)

theorem Settles.tags {tag : String} {rest : List String} {store : Store String π}
    (hphase : state.phase client = .locked call since (.tag value (tag :: rest)))
    (hkey : call.key = key) (hready : IndexReady config key state.store tag)
    (hadd : state.store.addSetMembers (tagKey config tag) [redisKey config call.key] = .ok store) :
    ({ state.enters client (.locked call since (afterTags value rest)) with store := store } :
      Clients κ α ε π).Settles config runtime key first := by
  subst hkey
  cases hsettles with
  | empty _ _ _ _ hstages =>
    exact (hstages client call since _ hphase).elim
  | computed _ _ _ _ _ _ _ _ hstages =>
    cases hstages client call since _ hphase
  | stored other hreads hone hret hstages =>
    have hsame : value = other := hstages client call since _ hphase
    subst hsame
    have hother : redisKey config call.key ≠ tagKey config tag :=
      fun hsame => hready.1 (redisKey_eq_tagKey_iff.mp hsame)
    have hlive := Store.addSetMembers_other hadd hother
    refine .stored value ((reads_congr hlive _).mpr hreads) hone hret ?_
    exact .of_alone hexcl hphase (after_afterTags value rest)

theorem Settles.returns (hphase : state.phase client = .locked call since .produce)
    (hserializes : runtime.serialize value ≠ none) :
    ({ state.enters client (.locked call since (.store value)) with
        produced := state.produced ++ [(client, value)] } : Clients κ α ε π).Settles
      config runtime key first := by
  cases hsettles with
  | empty hfirst hreads hnone hret =>
    refine .computed value client hfirst hreads ?_ hserializes hret
      (hexcl.live hphase) ?_
    · rw [hnone, List.nil_append]
    · exact .of_alone hexcl hphase rfl
  | computed _ _ _ _ _ _ _ _ hstages =>
    cases hstages client call since _ hphase
  | stored _ _ _ _ hstages =>
    exact (hstages client call since _ hphase).elim

end

end Locked

section Steps

variable {event : ClientEvent κ α ε π}

/-- An index that can be extended stays so while the clients populate another key. -/
theorem Moves.indexReady {tag : String} (hgood : state.Populates (·.key = key))
    (hmoves : Moves config runtime state event next)
    (hready : IndexReady config key state.store tag) : IndexReady config key next.store tag := by
  refine ⟨hready.1, ?_⟩
  intro payload expiresAt hlive
  apply hready.2 payload expiresAt
  cases hmoves with
  | passes => exact Store.live_of_advance hlive
  | acquires _ _ call =>
    rw [← hlive]
    exact (Store.live_set_other (lockKey_ne_tagKey call.key tag).symm _ _).symm
  | stores client _ call _ _ _ hphase =>
    have hkey : call.key = key := by
      have hat := hgood client
      rw [hphase] at hat
      exact hat
    have hother : tagKey config tag ≠ redisKey config call.key := by
      intro hsame
      rw [hkey] at hsame
      exact hready.1 (redisKey_eq_tagKey_iff.mp hsame.symm)
    rw [← hlive]
    exact (Store.live_set_other hother _ _).symm
  | tags _ _ _ _ _ other _ _ _ hadd =>
    by_cases hsame : tag = other
    · subst hsame
      exact absurd hlive (Store.addSetMembers_set hadd payload expiresAt)
    · rw [← hlive]
      exact (Store.addSetMembers_other hadd fun heq => hsame (tagKey_inj.mp heq)).symm
  | releases _ _ call =>
    have hother : tagKey config tag ∉ [lockKey config call.key] := by
      simpa using (lockKey_ne_tagKey call.key tag).symm
    rw [← hlive]
    exact (Store.live_delete_other hother).symm
  | dies | begins | refuses | rests | goes | finds | fails | timesOut | works | returns | raises
  | ignores => exact hlive

variable {store : Store String π}

theorem Calm.settles_moves (hcalm : state.Calm config runtime key store first)
    (hserializes : event.Serializes runtime) (hlasts : state.NothingExpires event)
    (hmoves : Moves config runtime state event next) : next.Settles config runtime key first := by
  have hsettles := hcalm.settles
  cases hmoves with
  | passes =>
    refine hsettles.of_same (hlasts _) ?_ rfl (fun _ _ => id) (fun _ => id)
    intro hlock
    rw [hlasts]
    exact hlock
  | dies client | begins client => exact hsettles.enters client nofun
  | refuses | rests | ignores => exact hsettles
  | goes client _ _ hgoes =>
    refine hsettles.enters client ?_
    generalize state.phase client = phase at hgoes
    cases hgoes <;> nofun
  | finds client _ call _ hphase hlook =>
    have hkey : call.key = key := (hphase.populates (hcalm.populates client)).on_key
    subst hkey
    exact hsettles.ends_ok client hlook
  | fails client _ _ error => exact hsettles.ends_error client error
  | timesOut client => exact hsettles.ends_error client _
  | acquires client token call hphase hfree =>
    have hkey : call.key = key := (hphase.populates (hcalm.populates client)).on_key
    subst hkey
    exact hsettles.acquires hcalm.exclusive hfree token call
  | works _ _ _ _ _ _ hphase hworks =>
    have hstorable := hcalm.storable hphase
    obtain ⟨px, hpx⟩ := hstorable.ttl
    refine hsettles.works hcalm.exclusive hphase hstorable.on_key ⟨px, ttlMs_ok_iff.mpr hpx⟩ ?_
      hworks
    rintro value tag rest rfl
    exact hcalm.ready hphase
  | stores _ _ _ _ _ _ hphase hsent =>
    exact hsettles.stores hcalm.exclusive hphase (hcalm.storable hphase).on_key hsent
  | tags _ _ _ _ _ _ _ _ hphase hadd =>
    exact hsettles.tags hcalm.exclusive hphase (hcalm.storable hphase).on_key
      (hcalm.ready hphase) hadd
  | releases _ _ _ _ _ hphase =>
    exact hsettles.releases hphase (hcalm.storable hphase).on_key
  | returns _ _ _ _ hphase =>
    exact hsettles.returns hcalm.exclusive hphase hserializes
  | raises _ _ _ _ hphase => exact hsettles.raises hphase

theorem Calm.step (hcalm : state.Calm config runtime key store first)
    (hevent : event.Populates (Storable config runtime key store))
    (hserializes : event.Serializes runtime) (hlasts : state.NothingExpires event) :
    (state.step config runtime event).Calm config runtime key store first := by
  have hkey : event.Populates (·.key = key) := hevent.mono fun _ hstorable => hstorable.on_key
  have hmoves : Moves config runtime state event (state.step config runtime event) :=
    step_moves hcalm.populates hevent
  refine ⟨hcalm.populates.moves hevent hmoves, hcalm.exclusive.step hkey hlasts, ?_, ?_⟩
  · intro tag hready
    exact hmoves.indexReady hcalm.exclusive.leased.populates (hcalm.indexes tag hready)
  · exact hcalm.settles_moves hserializes hlasts hmoves

end Steps

end Clients

end Spakky.Redis
