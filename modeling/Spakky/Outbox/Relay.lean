import Spakky.Machine
import Spakky.Outbox.Storage

/-!
Relays on one outbox table. A relay claims a batch, and for each message of it
sends, then marks it as published; if either raises it counts a retry. Every
call of storage or transport is a step of its own, between two steps any other
relay may run and any relay may die, and a call of the storage that raises may
have been committed all the same.

The lists of sends and of messages handed to relays are not read by the code.
-/

namespace Spakky.Outbox

open Machine Function

/-- How a call of the storage ends: it returns, or it raises after its
transaction was committed, or it raises and nothing was done. -/
inductive Outcome where
  | returns
  | raisesCommitted
  | raises
  deriving DecidableEq, Repr

/-- The table after a transaction that ends so. -/
def Outcome.commit {ι : Type} (table changed : OutboxTable ι) : Outcome → OutboxTable ι
  | .returns | .raisesCommitted => changed
  | .raises => table

/-- What a relay does next with the message it is at. -/
inductive Stage where
  | send
  | markPublished
  | incrementRetry
  deriving DecidableEq, Repr

/-- Between two batches, or at a message of one with the rest behind it. -/
inductive Relay (ι : Type) where
  | idle
  | relaying (stage : Stage) (message : OutboxMessage ι) (rest : List (OutboxMessage ι))
  deriving DecidableEq, Repr

/-- `for message in messages` -/
def Relay.next {ι : Type} : List (OutboxMessage ι) → Relay ι
  | [] => .idle
  | message :: rest => .relaying .send message rest

structure Send (ι : Type) where
  message : ι
  succeeded : Bool
  deriving DecidableEq, Repr

/-- `fetch_pending` committed a claim of a message for a relay, which was given the
message unless the call raised then. -/
structure Handing (ρ ι : Type) where
  relay : ρ
  message : ι
  time : Int
  deriving DecidableEq, Repr

structure Relays (ρ ι : Type) where
  clock : Int
  table : OutboxTable ι
  relay : ρ → Relay ι
  sends : List (Send ι)
  handings : List (Handing ρ ι)

inductive RelayEvent (ρ ι : Type) where
  | tick (elapsed : Nat)
  | save (message : OutboxMessage ι)
  | fetchPending (relay : ρ) (locked : List ι) (selected : List ι) (outcome : Outcome)
  | send (relay : ρ) (succeeds : Bool)
  | markPublished (relay : ρ) (outcome : Outcome)
  | incrementRetry (relay : ρ) (outcome : Outcome)
  | dies (relay : ρ)

namespace Relays

section Model

variable {ρ ι : Type}

/-- No message was saved and no relay is running. -/
def initial (clock : Int) : Relays ρ ι where
  clock := clock
  table := .empty
  relay _ := .idle
  sends := []
  handings := []

variable [DecidableEq ρ]

def enters (state : Relays ρ ι) (relay : ρ) (next : Relay ι) : Relays ρ ι :=
  { state with relay := update state.relay relay next }

variable [DecidableEq ι]
variable (config : OutboxConfig) (state : Relays ρ ι) (relay : ρ) (message : OutboxMessage ι)
  (rest : List (OutboxMessage ι))

/-- The rows `fetch_pending` may claim: those that are pending, except the ones
locked by other transactions. -/
def claimable (locked : List ι) (row : OutboxMessage ι) : Bool :=
  OutboxTable.isPending state.clock config.claimTimeout config.maxRetryCount row &&
    decide (row.id ∉ locked)

/-- `fetch_pending` at the beginning of a batch. A relay to which it raises
leaves its loop. -/
def fetches (selected : List ι) (outcome : Outcome) : Relays ρ ι :=
  let table := outcome.commit state.table (state.table.claim state.clock selected)
  let messages := table.returning selected
  let handings := state.handings ++ messages.map fun message => ⟨relay, message.id, state.clock⟩
  match outcome with
  | .returns =>
    { state with
      table := table
      relay := update state.relay relay (.next messages)
      handings := handings }
  | .raisesCommitted => { state with table := table, handings := handings }
  | .raises => { state with table := table }

/-- `_transport.send`, inside the `try` -/
def transmits (succeeds : Bool) : Relays ρ ι :=
  { state with
    relay := update state.relay relay
      (.relaying (if succeeds then .markPublished else .incrementRetry) message rest)
    sends := state.sends ++ [⟨message.id, succeeds⟩] }

/-- `_storage.mark_published`, inside the `try` -/
def marks (outcome : Outcome) : Relays ρ ι :=
  { state with
    table := outcome.commit state.table (state.table.markPublished state.clock message.id)
    relay := update state.relay relay
      (if outcome = .returns then .next rest else .relaying .incrementRetry message rest) }

/-- `_storage.increment_retry`, in the `except` clause. If it raises, the relay
leaves its loop. -/
def increments (outcome : Outcome) : Relays ρ ι :=
  { state with
    table := outcome.commit state.table (state.table.incrementRetry message.id)
    relay := update state.relay relay (if outcome = .returns then .next rest else .idle) }

/-- An event that is not possible in a state leaves it as it is. -/
def step : RelayEvent ρ ι → Relays ρ ι
  | .tick elapsed => { state with clock := state.clock + elapsed }
  | .save message => { state with table := state.table.save message }
  | .fetchPending relay locked selected outcome =>
    if state.relay relay = .idle ∧
        state.table.Selects (claimable config state locked) config.batchSize selected then
      state.fetches relay selected outcome
    else state
  | .send relay succeeds =>
    match state.relay relay with
    | .relaying .send message rest => state.transmits relay message rest succeeds
    | _ => state
  | .markPublished relay outcome =>
    match state.relay relay with
    | .relaying .markPublished message rest => state.marks relay message rest outcome
    | _ => state
  | .incrementRetry relay outcome =>
    match state.relay relay with
    | .relaying .incrementRetry message rest => state.increments relay message rest outcome
    | _ => state
  | .dies relay => state.enters relay .idle

end Model

end Relays

end Spakky.Outbox
