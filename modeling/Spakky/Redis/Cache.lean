import Spakky.Auth.Types
import Spakky.KeyValue
import Spakky.Machine

/-!
`RedisCache` and the clients that call it. A call is a sequence of Redis
commands, and between two commands of one client any command of another may be
executed. `get_or_set` guards the factory by a lock entry: who sets it computes
the value, stores it and deletes the lock, and everybody else polls until there
is a value or the lock can be taken.

Time is in milliseconds and the same for all. The asynchronous methods have the
same commands in the same order. The fields of `Clients` from `holder` on are
not read by the code.
-/

namespace Spakky.Redis

open KeyValue Auth Function

structure RedisCacheConfig where
  keyPrefix : String := "spakky:cache:"
  deriving DecidableEq, Repr

section Keys

variable (config : RedisCacheConfig)

def redisKey (key : String) : String := config.keyPrefix ++ key

def tagKey (tag : String) : String := config.keyPrefix ++ "__tag__:" ++ tag

def lockKey (key : String) : String := config.keyPrefix ++ "__lock__:" ++ key

end Keys

inductive CacheError (ε : Type) where
  | factory (error : ε)
  | invalidCacheTtl
  | ttlOverflow
  | operation
  | serialization
  | lockTimeout
  deriving DecidableEq, Repr

/-- `None`, or a number of seconds. -/
abbrev CacheTtl := Option FloatValue

/-- Pickling, and the truncated product of a number of seconds with 1000 as
floating-point arithmetic gives it, if it is finite. -/
structure Runtime (α π : Type) where
  serialize : α → Option π
  deserialize : π → Option α
  milliseconds : Rat → Option Int
  deserialize_serialize : ∀ value payload,
    serialize value = some payload → deserialize payload = some value

/-- Values are units, with their one payload. -/
def unitRuntime : Runtime Unit Unit where
  serialize _ := some ()
  deserialize _ := some ()
  milliseconds seconds := some (seconds * 1000).floor
  deserialize_serialize _ _ _ := rfl

/-- `_ttl_ms` -/
def ttlMs {α π ε : Type} (runtime : Runtime α π) : CacheTtl → Except (CacheError ε) (Option Nat)
  | none => .ok none
  | some (.finite seconds) =>
    if seconds ≤ 0 then .error .invalidCacheTtl
    else
      match runtime.milliseconds seconds with
      | some product => .ok (some (max 1 product).toNat)
      | none => .error .ttlOverflow
  | some (.infinite true) => .error .invalidCacheTtl
  | some (.infinite false) | some .nan => .error .ttlOverflow

def lockTtlMs : Nat := 30000

/-- How long `_wait_for_value_or_reacquire` waits. -/
def waitMs : Nat := 30000

/-- The arguments of `get_or_set` without the factory. -/
structure Population where
  key : String
  ttl : CacheTtl := none
  tags : List String := []
  deriving DecidableEq, Repr

inductive Call (α : Type) where
  | get (key : String)
  | set (key : String) (value : α) (ttl : CacheTtl)
  | delete (key : String)
  | setWithTags (key : String) (value : α) (ttl : CacheTtl) (tags : List String)
  | evictTags (tags : List String)
  | getOrSet (call : Population)
  deriving DecidableEq, Repr

/-- Where `_produce_locked_value` is: before the second look, at the factory,
before the `SET`, before the `SADD` of the remaining tags, or in the `finally`
clause. -/
inductive Locked (α ε : Type) where
  | check
  | produce
  | store (value : α)
  | tag (value : α) (rest : List String)
  | release (outcome : Except (CacheError ε) α)

/-- What a client does next. The number of a write, and what is due to an
eviction, are not read by the code. -/
inductive Phase (α ε : Type) where
  | idle
  | getting (key : String)
  | setting (key : String) (value : α) (ttl : CacheTtl)
  | deleting (key : String)
  | storing (key : String) (value : α) (ttl : CacheTtl) (tags : List String)
  | tagging (key : String) (write : Nat) (tags rest : List String)
  | reading (tags rest keys : List String) (due : List (String × Nat))
  | evicting (tags keys : List String) (due : List (String × Nat))
  | looking (call : Population)
  | acquiring (call : Population)
  | queueing (call : Population)
  | waiting (call : Population) (deadline : Nat)
  | polling (call : Population) (deadline : Nat)
  | reacquiring (call : Population) (deadline : Nat)
  | locked (call : Population) (since : Nat) (stage : Locked α ε)

/-- A `set_with_tags` that has returned: which write it was for its key, and its
tags. -/
structure Tagged where
  key : String
  write : Nat
  tags : List String
  deriving DecidableEq, Repr

structure Clients (κ α ε π : Type) where
  store : Store String π
  phase : κ → Phase α ε
  holder : String → Option κ
  produced : List (κ × α)
  results : List (κ × Except (CacheError ε) α)
  writes : String → Nat
  tagged : List Tagged

/-- Time passes, a client calls, executes its next command (with the token it
would put into a lock), its factory ends, or it dies. -/
inductive ClientEvent (κ α ε π : Type) where
  | tick (elapsed : Nat)
  | calls (client : κ) (call : Call α)
  | runs (client : κ) (token : π)
  | produces (client : κ) (outcome : Except ε α)
  | dies (client : κ)

namespace Clients

variable {κ α ε π : Type}

/-- Nobody has called yet. -/
def initial (store : Store String π) : Clients κ α ε π where
  store := store
  phase _ := .idle
  holder _ := none
  produced := []
  results := []
  writes _ := 0
  tagged := []

variable [DecidableEq κ]

def enters (state : Clients κ α ε π) (client : κ) (phase : Phase α ε) : Clients κ α ε π :=
  { state with phase := update state.phase client phase }

/-- A `get_or_set` returns or raises. -/
def ends (state : Clients κ α ε π) (client : κ) (outcome : Except (CacheError ε) α) :
    Clients κ α ε π :=
  { state.enters client .idle with results := state.results ++ [(client, outcome)] }

section Commands

variable (config : RedisCacheConfig) (runtime : Runtime α π)

/-- `get` -/
def lookup (store : Store String π) (key : String) : Except (CacheError ε) (Option α) :=
  match store.get (redisKey config key) with
  | .error _ => .error .operation
  | .ok none => .ok none
  | .ok (some payload) =>
    match runtime.deserialize payload with
    | some value => .ok (some value)
    | none => .error .serialization

/-- What `set` sends, or why it raises before. -/
def payloadOf (value : α) (ttl : CacheTtl) : Except (CacheError ε) (π × Option Nat) :=
  match runtime.serialize value with
  | none => .error .serialization
  | some payload =>
    match ttlMs runtime ttl with
    | .error error => .error error
    | .ok px => .ok (payload, px)

variable (state : Clients κ α ε π) (client : κ)

/-- The `SET` of `set`. -/
def puts (key : String) (sent : π × Option Nat) : Clients κ α ε π :=
  { state with
    store := state.store.set (redisKey config key) sent.1 sent.2
    writes := update state.writes (redisKey config key)
      (state.writes (redisKey config key) + 1) }

/-- `set_with_tags` is at its next tag, or it returns. -/
def tagsNext (key : String) (write : Nat) (tags : List String) : List String → Clients κ α ε π
  | [] => { state.enters client .idle with tagged := state.tagged ++ [⟨key, write, tags⟩] }
  | rest => state.enters client (.tagging key write tags rest)

/-- The `SET NX` of a client at `get_or_set`. -/
def acquires (call : Population) (token : π) (otherwise : Phase α ε) : Clients κ α ε π :=
  match state.store.setIfAbsent (lockKey config call.key) token lockTtlMs with
  | (true, store) =>
    { state.enters client (.locked call state.store.clock .check) with
      store := store
      holder := update state.holder (lockKey config call.key) (some client) }
  | (false, _) => state.enters client otherwise

/-- The next step of `set_with_tags` within `get_or_set`. -/
def afterTags (value : α) : List String → Locked α ε
  | [] => .release (.ok value)
  | rest => .tag value rest

/-- The next step of `_produce_locked_value`. -/
def runsLocked (call : Population) (since : Nat) : Locked α ε → Clients κ α ε π
  | .check =>
    match lookup config runtime state.store call.key with
    | .error error => state.enters client (.locked call since (.release (.error error)))
    | .ok (some value) => state.enters client (.locked call since (.release (.ok value)))
    | .ok none => state.enters client (.locked call since .produce)
  | .produce => state
  | .store value =>
    match payloadOf runtime value call.ttl with
    | .error error => state.enters client (.locked call since (.release (.error error)))
    | .ok sent => (state.puts config call.key sent).enters client
        (.locked call since (afterTags value call.tags))
  | .tag value [] => state.enters client (.locked call since (.release (.ok value)))
  | .tag value (tag :: rest) =>
    match state.store.addSetMembers (tagKey config tag) [redisKey config call.key] with
    | .error _ => state.enters client (.locked call since (.release (.error .operation)))
    | .ok store => { state.enters client (.locked call since (afterTags value rest)) with
        store := store }
  | .release outcome =>
    { state.ends client outcome with store := state.store.delete [lockKey config call.key] }

/-- `evict_tags` reads the next index, or deletes everything it has found. -/
def reads (tags keys : List String) (due : List (String × Nat)) : List String → Clients κ α ε π
  | [] => state.enters client (.evicting tags keys due)
  | rest => state.enters client (.reading tags rest keys due)

/-- The next command of a client. -/
def runs (token : π) : Clients κ α ε π :=
  match state.phase client with
  | .idle => state
  | .getting _ => state.enters client .idle
  | .setting key value ttl =>
    match (payloadOf runtime value ttl : Except (CacheError ε) (π × Option Nat)) with
    | .error _ => state.enters client .idle
    | .ok sent => (state.puts config key sent).enters client .idle
  | .deleting key =>
    { state.enters client .idle with store := state.store.delete [redisKey config key] }
  | .storing key value ttl tags =>
    match (payloadOf runtime value ttl : Except (CacheError ε) (π × Option Nat)) with
    | .error _ => state.enters client .idle
    | .ok sent =>
      let written := state.puts config key sent
      written.tagsNext client key (written.writes (redisKey config key)) tags tags
  | .tagging key write tags [] => state.tagsNext client key write tags []
  | .tagging key write tags (tag :: rest) =>
    match state.store.addSetMembers (tagKey config tag) [redisKey config key] with
    | .error _ => state.enters client .idle
    | .ok store => { state with store := store }.tagsNext client key write tags rest
  | .reading tags [] keys due => state.reads client tags keys due []
  | .reading tags (tag :: rest) keys due =>
    match state.store.setMembers (tagKey config tag) with
    | .error _ => state.enters client .idle
    | .ok members => state.reads client tags (keys ∪ members) due rest
  | .evicting tags keys _ =>
    { state.enters client .idle with
      store := state.store.delete (keys ++ tags.map (tagKey config)) }
  | .looking call =>
    match lookup config runtime state.store call.key with
    | .error error => state.ends client (.error error)
    | .ok (some value) => state.ends client (.ok value)
    | .ok none => state.enters client (.acquiring call)
  | .acquiring call => state.acquires config client call token (.queueing call)
  | .queueing call => state.enters client (.waiting call (state.store.clock + waitMs))
  | .waiting call deadline =>
    if state.store.clock < deadline then state.enters client (.polling call deadline)
    else state.ends client (.error .lockTimeout)
  | .polling call deadline =>
    match lookup config runtime state.store call.key with
    | .error error => state.ends client (.error error)
    | .ok (some value) => state.ends client (.ok value)
    | .ok none => state.enters client (.reacquiring call deadline)
  | .reacquiring call deadline =>
    state.acquires config client call token (.waiting call deadline)
  | .locked call since stage => state.runsLocked config runtime client call since stage

/-- What is due to an eviction of tags: the writes under one of them that have
returned. -/
def dueTo (tags : List String) : List (String × Nat) :=
  (state.tagged.filter fun write => write.tags.any (tags.contains ·)).map fun write =>
    (write.key, write.write)

/-- A client calls one of the methods. -/
def calls : Call α → Clients κ α ε π
  | .get key => state.enters client (.getting key)
  | .set key value ttl => state.enters client (.setting key value ttl)
  | .delete key => state.enters client (.deleting key)
  | .setWithTags key value ttl tags => state.enters client (.storing key value ttl tags)
  | .evictTags [] => state
  | .evictTags tags => state.enters client (.reading tags tags [] (state.dueTo tags))
  | .getOrSet call => state.enters client (.looking call)

/-- An event that is not possible in a state leaves it as it is. -/
def step : ClientEvent κ α ε π → Clients κ α ε π
  | .tick elapsed => { state with store := state.store.advance elapsed }
  | .calls client call =>
    match state.phase client with
    | .idle => state.calls client call
    | _ => state
  | .runs client token => state.runs config runtime client token
  | .produces client outcome =>
    match state.phase client with
    | .locked call since .produce =>
      match outcome with
      | .ok value => { state.enters client (.locked call since (.store value)) with
          produced := state.produced ++ [(client, value)] }
      | .error error =>
        state.enters client (.locked call since (.release (.error (.factory error))))
    | _ => state
  | .dies client => state.enters client .idle

end Commands

end Clients

end Spakky.Redis
