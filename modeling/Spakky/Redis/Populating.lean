import Spakky.Redis.Footprint

/-!
Clients that call `get_or_set` and nothing else. What each of their steps does
is said once, by `Moves`: one constructor for each way through the code.
-/

namespace Spakky.Redis

open KeyValue Machine

section Populates

variable {κ α ε π : Type} (good : Population → Prop)

def ClientEvent.Populates : ClientEvent κ α ε π → Prop
  | .calls _ (.getOrSet call) => good call
  | .calls _ _ => False
  | _ => True

/-- The client is in no call, or in a `get_or_set` that is good. -/
def Phase.Populates : Phase α ε → Prop
  | .idle => True
  | .looking call | .acquiring call | .queueing call | .waiting call _ | .polling call _ |
      .reacquiring call _ => good call
  | .locked call _ (.tag _ rest) => good call ∧ rest ⊆ call.tags
  | .locked call _ _ => good call
  | _ => False

def Clients.Populates (state : Clients κ α ε π) : Prop :=
  ∀ client, (state.phase client).Populates good

variable {good}

theorem ClientEvent.Populates.mono {other : Population → Prop} {event : ClientEvent κ α ε π}
    (hevent : event.Populates good) (hmono : ∀ call, good call → other call) :
    event.Populates other := by
  cases event with
  | calls _ call =>
    cases call with
    | getOrSet call => exact hmono call hevent
    | get | set | delete | setWithTags | evictTags => exact hevent
  | tick | runs | produces | dies => trivial

/-- What a client with the lock has been called with. -/
theorem Phase.Populates.locked {call : Population} {since : Nat} {stage : Locked α ε}
    (hphase : (Phase.locked call since stage).Populates good) : good call := by
  cases stage with
  | tag => exact hphase.1
  | check | produce | store | release => exact hphase

end Populates

/-- Since when a client believes to hold a lock. -/
def Phase.since {α ε : Type} : Phase α ε → Option Nat
  | .locked _ since _ => some since
  | _ => none

/-- The client is about to look whether there is a value, without the lock. -/
def Phase.Looks {α ε : Type} (call : Population) (phase : Phase α ε) : Prop :=
  phase = .looking call ∨ ∃ deadline, phase = .polling call deadline

/-- The client is about to take the lock. -/
def Phase.Acquires {α ε : Type} (call : Population) (phase : Phase α ε) : Prop :=
  phase = .acquiring call ∨ ∃ deadline, phase = .reacquiring call deadline

section

variable {α ε : Type} {call : Population} {phase : Phase α ε} {good : Population → Prop}

theorem Phase.Looks.since (hlooks : phase.Looks call) : phase.since = none := by
  rcases hlooks with rfl | ⟨deadline, rfl⟩
  · rfl
  · rfl

theorem Phase.Looks.populates (hlooks : phase.Looks call) (hgood : phase.Populates good) :
    good call := by
  rcases hlooks with rfl | ⟨deadline, rfl⟩
  · exact hgood
  · exact hgood

theorem Phase.Acquires.populates (hacq : phase.Acquires call) (hgood : phase.Populates good) :
    good call := by
  rcases hacq with rfl | ⟨deadline, rfl⟩
  · exact hgood
  · exact hgood

end

/-- The ways of a client that has no lock and finds no value. -/
inductive Goes {α ε : Type} (clock : Nat) : Phase α ε → Phase α ε → Prop
  | misses (call) : Goes clock (.looking call) (.acquiring call)
  | queues (call) : Goes clock (.acquiring call) (.queueing call)
  | waits (call) : Goes clock (.queueing call) (.waiting call (clock + waitMs))
  | polls (call deadline) (htime : clock < deadline) :
      Goes clock (.waiting call deadline) (.polling call deadline)
  | missesAgain (call deadline) : Goes clock (.polling call deadline) (.reacquiring call deadline)
  | sleeps (call deadline) : Goes clock (.reacquiring call deadline) (.waiting call deadline)

namespace Clients

variable {κ α ε π : Type} [DecidableEq κ] (config : RedisCacheConfig) (runtime : Runtime α π)

/-- The ways of a client that holds the lock, up to its release. -/
inductive Works (store : Store String π) (call : Population) : Locked α ε → Locked α ε → Prop
  | finds (value) (hlook : (lookup config runtime store call.key : Except (CacheError ε) _) =
      .ok (some value)) : Works store call .check (.release (.ok value))
  | fails (error) (hlook : lookup config runtime store call.key = .error error) :
      Works store call .check (.release (.error error))
  | misses (hlook : (lookup config runtime store call.key : Except (CacheError ε) _) = .ok none) :
      Works store call .check .produce
  | refuses (value error) (hsent : payloadOf runtime value call.ttl = .error error) :
      Works store call (.store value) (.release (.error error))
  | tagged (value) : Works store call (.tag value []) (.release (.ok value))
  | mistags (value tag rest)
      (hadd : store.addSetMembers (tagKey config tag) [redisKey config call.key] =
        .error .wrongType) :
      Works store call (.tag value (tag :: rest)) (.release (.error .operation))

/-- A step of clients that call `get_or_set` only. -/
inductive Moves (state : Clients κ α ε π) : ClientEvent κ α ε π → Clients κ α ε π → Prop
  | passes (elapsed) :
      Moves state (.tick elapsed) { state with store := state.store.advance elapsed }
  | dies (client) : Moves state (.dies client) (state.enters client .idle)
  | begins (client call) (hphase : state.phase client = .idle) :
      Moves state (.calls client (.getOrSet call)) (state.enters client (.looking call))
  | refuses (client call) : Moves state (.calls client call) state
  | rests (client token)
      (hrests : state.phase client = .idle ∨
        ∃ call since, state.phase client = .locked call since .produce) :
      Moves state (.runs client token) state
  | goes (client token next) (hgoes : Goes state.store.clock (state.phase client) next)
      (htaken : ∀ call, (state.phase client).Acquires call →
        state.store.live (lockKey config call.key) ≠ none) :
      Moves state (.runs client token) (state.enters client next)
  | finds (client token call value) (hphase : (state.phase client).Looks call)
      (hlook : (lookup config runtime state.store call.key : Except (CacheError ε) _) =
        .ok (some value)) :
      Moves state (.runs client token) (state.ends client (.ok value))
  | fails (client token call error) (hphase : (state.phase client).Looks call)
      (hlook : lookup config runtime state.store call.key = .error error) :
      Moves state (.runs client token) (state.ends client (.error error))
  | timesOut (client token call deadline) (hphase : state.phase client = .waiting call deadline)
      (htime : deadline ≤ state.store.clock) :
      Moves state (.runs client token) (state.ends client (.error .lockTimeout))
  | acquires (client token call) (hphase : (state.phase client).Acquires call)
      (hfree : state.store.live (lockKey config call.key) = none) :
      Moves state (.runs client token)
        { state.enters client (.locked call state.store.clock .check) with
          store := state.store.set (lockKey config call.key) token (some lockTtlMs)
          holder := Function.update state.holder (lockKey config call.key) (some client) }
  | works (client token call since stage next)
      (hphase : state.phase client = .locked call since stage)
      (hworks : Works config runtime state.store call stage next) :
      Moves state (.runs client token) (state.enters client (.locked call since next))
  | stores (client token call since value sent)
      (hphase : state.phase client = .locked call since (.store value))
      (hsent : (payloadOf runtime value call.ttl : Except (CacheError ε) _) = .ok sent) :
      Moves state (.runs client token) ((state.puts config call.key sent).enters client
        (.locked call since (afterTags value call.tags)))
  | tags (client token call since value tag rest store)
      (hphase : state.phase client = .locked call since (.tag value (tag :: rest)))
      (hadd : state.store.addSetMembers (tagKey config tag) [redisKey config call.key] =
        .ok store) :
      Moves state (.runs client token)
        { state.enters client (.locked call since (afterTags value rest)) with store := store }
  | releases (client token call since outcome)
      (hphase : state.phase client = .locked call since (.release outcome)) :
      Moves state (.runs client token)
        { state.ends client outcome with store := state.store.delete [lockKey config call.key] }
  | returns (client call since value) (hphase : state.phase client = .locked call since .produce) :
      Moves state (.produces client (.ok value))
        { state.enters client (.locked call since (.store value)) with
          produced := state.produced ++ [(client, value)] }
  | raises (client call since error) (hphase : state.phase client = .locked call since .produce) :
      Moves state (.produces client (.error error))
        (state.enters client (.locked call since (.release (.error (.factory error)))))
  | ignores (client outcome) : Moves state (.produces client outcome) state

variable {config runtime} {state : Clients κ α ε π} {client : κ} {call : Population}

theorem acquires_moves {otherwise : Phase α ε} (token : π)
    (hphase : (state.phase client).Acquires call)
    (hgoes : Goes state.store.clock (state.phase client) otherwise) :
    Moves config runtime state (.runs client token)
      (state.acquires config client call token otherwise) := by
  cases hlive : state.store.live (lockKey config call.key) with
  | none =>
    simp only [acquires, Store.setIfAbsent, hlive]
    exact .acquires client token call hphase hlive
  | some entry =>
    simp only [acquires, Store.setIfAbsent, hlive]
    refine .goes client token otherwise hgoes ?_
    intro other hother
    have hsame : call = other := by
      rcases hphase with hphase | ⟨deadline, hphase⟩
      · simpa [Phase.Acquires, hphase] using hother
      · simpa [Phase.Acquires, hphase] using hother
    rw [← hsame, hlive]
    exact Option.some_ne_none entry

theorem looks_moves {next : Phase α ε} (token : π) (hphase : (state.phase client).Looks call)
    (hgoes : Goes state.store.clock (state.phase client) next) :
    Moves config runtime state (.runs client token)
      (match (lookup config runtime state.store call.key : Except (CacheError ε) (Option α)) with
        | .error error => state.ends client (.error error)
        | .ok (some value) => state.ends client (.ok value)
        | .ok none => state.enters client next) := by
  split
  · rename_i error hlook
    exact .fails client token call error hphase hlook
  · rename_i value hlook
    exact .finds client token call value hphase hlook
  · refine .goes client token next hgoes ?_
    intro other hother
    rcases hphase with hphase | ⟨deadline, hphase⟩
    · simp [Phase.Acquires, hphase] at hother
    · simp [Phase.Acquires, hphase] at hother

theorem runsLocked_moves {since : Nat} {stage : Locked α ε} (token : π)
    (hphase : state.phase client = .locked call since stage) :
    Moves config runtime state (.runs client token)
      (state.runsLocked config runtime client call since stage) := by
  cases stage with
  | check =>
    simp only [runsLocked]
    split
    · rename_i error hlook
      exact .works client token call since .check _ hphase (.fails error hlook)
    · rename_i value hlook
      exact .works client token call since .check _ hphase (.finds value hlook)
    · rename_i hlook
      exact .works client token call since .check _ hphase (.misses hlook)
  | produce => exact .rests client token (.inr ⟨call, since, hphase⟩)
  | store value =>
    simp only [runsLocked]
    split
    · rename_i error hsent
      exact .works client token call since _ _ hphase (.refuses value error hsent)
    · rename_i sent hsent
      exact .stores client token call since value sent hphase hsent
  | tag value rest =>
    cases rest with
    | nil => exact .works client token call since _ _ hphase (.tagged value)
    | cons tag rest =>
      simp only [runsLocked]
      split
      · rename_i error hadd
        cases error
        exact .works client token call since _ _ hphase (.mistags value tag rest hadd)
      · rename_i store hadd
        exact .tags client token call since value tag rest store hphase hadd
  | release outcome => exact .releases client token call since outcome hphase

theorem runs_moves {good : Population → Prop} (token : π)
    (hgood : (state.phase client).Populates good) :
    Moves config runtime state (.runs client token) (state.runs config runtime client token) := by
  rw [runs]
  cases hphase : state.phase client with
  | idle => exact .rests client token (.inl hphase)
  | looking call =>
    exact looks_moves token (.inl hphase) (by rw [hphase]; exact .misses call)
  | acquiring call =>
    exact acquires_moves token (.inl hphase) (by rw [hphase]; exact .queues call)
  | queueing call =>
    refine .goes client token _ (by rw [hphase]; exact .waits call) ?_
    simp [hphase, Phase.Acquires]
  | waiting call deadline =>
    dsimp only
    split
    · rename_i htime
      refine .goes client token _ (by rw [hphase]; exact .polls call deadline htime) ?_
      simp [hphase, Phase.Acquires]
    · rename_i htime
      exact .timesOut client token call deadline hphase (Nat.le_of_not_lt htime)
  | polling call deadline =>
    exact looks_moves token (.inr ⟨deadline, hphase⟩)
      (by rw [hphase]; exact .missesAgain call deadline)
  | reacquiring call deadline =>
    exact acquires_moves token (.inr ⟨deadline, hphase⟩)
      (by rw [hphase]; exact .sleeps call deadline)
  | locked => exact runsLocked_moves token hphase
  | getting | setting | deleting | storing | tagging | reading | evicting =>
    rw [hphase] at hgood
    exact hgood.elim

theorem step_moves {good : Population → Prop} (hgood : state.Populates good)
    {event : ClientEvent κ α ε π} (hevent : event.Populates good) :
    Moves config runtime state event (state.step config runtime event) := by
  cases event with
  | tick elapsed => exact .passes elapsed
  | calls client call =>
    simp only [step]
    split
    · rename_i hphase
      cases call with
      | getOrSet call => exact .begins client call hphase
      | get | set | delete | setWithTags | evictTags => exact hevent.elim
    · exact .refuses client call
  | runs client token => exact runs_moves token (hgood client)
  | produces client outcome =>
    simp only [step]
    split
    · rename_i call since hphase
      cases outcome with
      | ok value => exact .returns client call since value hphase
      | error error => exact .raises client call since error hphase
    · exact .ignores client outcome
  | dies client => exact .dies client

section Kept

variable {good : Population → Prop}

theorem Populates.enters (hgood : state.Populates good) {next : Phase α ε}
    (hnext : next.Populates good) : (state.enters client next).Populates good :=
  (Function.forall_update_iff state.phase fun _ phase => phase.Populates good).mpr
    ⟨hnext, fun other _ => hgood other⟩

theorem populates_afterTags {since : Nat} {rest : List String} (value : α) (hcall : good call)
    (hrest : rest ⊆ call.tags) :
    (Phase.locked call since (afterTags value rest) : Phase α ε).Populates good := by
  cases rest with
  | nil => exact hcall
  | cons => exact ⟨hcall, hrest⟩

/-- A call that is good stays good until it ends. -/
theorem Populates.moves (hgood : state.Populates good) {event : ClientEvent κ α ε π}
    (hevent : event.Populates good) {next : Clients κ α ε π}
    (hmoves : Moves config runtime state event next) : next.Populates good := by
  cases hmoves with
  | passes => exact hgood
  | dies | finds | fails | timesOut | releases => exact hgood.enters trivial
  | begins => exact hgood.enters hevent
  | refuses => exact hgood
  | rests => exact hgood
  | goes client _ _ hgoes =>
    have hat := hgood client
    refine hgood.enters ?_
    generalize state.phase client = phase at hat hgoes
    cases hgoes <;> exact hat
  | acquires client _ _ hphase =>
    exact .enters hgood (hphase.populates (hgood client))
  | works client _ _ _ _ _ hphase hworks =>
    have hat := hgood client
    rw [hphase] at hat
    refine hgood.enters ?_
    cases hworks with
    | finds | fails | misses | refuses => exact hat
    | tagged | mistags => exact hat.1
  | stores client _ _ _ value _ hphase =>
    have hat := hgood client
    rw [hphase] at hat
    exact .enters hgood (populates_afterTags value hat (List.Subset.refl _))
  | tags client _ call _ value tag rest _ hphase =>
    have hat := hgood client
    rw [hphase] at hat
    have hrest : rest ⊆ call.tags := List.Subset.trans (List.subset_cons_self tag rest) hat.2
    exact .enters hgood (populates_afterTags value hat.1 hrest)
  | returns client _ _ _ hphase | raises client _ _ _ hphase =>
    have hat := hgood client
    rw [hphase] at hat
    exact hgood.enters hat
  | ignores => exact hgood

end Kept

end Clients

end Spakky.Redis
