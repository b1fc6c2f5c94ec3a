import Spakky.Aop.Weaving
import Spakky.Data.Transaction

/-!
A `@transactional` call with publishing of domain events. Repositories hand the
aggregates they save to a collector; when the method has returned, an aspect
publishes the events of the collected aggregates and empties the collector.

Published is not committed: the aspect that publishes has a higher order than
the transaction, so that it is the inner one, and its advice runs before the
transaction is left.

The application code, the methods and the handlers of events, is given by what
it does to aggregates and by how it ends. Aggregates are the identities of
objects. What a save does to the database is left out, since nothing here reads
it.
-/

namespace Spakky.Event

open Effect Exec Data Aop

/-- The events on the aggregates, and the list of the collector. -/
structure Store (α β : Type) where
  events : α → List β
  collected : List α

/-- What application code does to an aggregate. `save` stands for every
operation of a repository that collects: `save`, `delete`, and each element of
`save_all` and `delete_all`, once the session was flushed. -/
inductive Action (α β : Type) where
  | add (aggregate : α) (event : β)
  | save (aggregate : α)
  deriving DecidableEq

/-- A step of a call, as it is recorded. -/
inductive Mark (α β : Type) where
  | acted (action : Action α β)
  | turned (aggregate : α)
  | published (aggregate : α) (event : β)
  | cleared (aggregate : α)
  | committed
  deriving DecidableEq

/-- The log is not read by the code; application code may act on it. -/
structure World (α β : Type) extends Store α β where
  log : List (Mark α β) := []

section Model

variable {α β ε ι ρ : Type}

def Store.collect (store : Store α β) (aggregate : α) : Store α β :=
  { store with collected := store.collected ++ [aggregate] }

def Store.clear (store : Store α β) : Store α β := { store with collected := [] }

def World.mark (world : World α β) (mark : Mark α β) : World α β :=
  { world with log := world.log ++ [mark] }

/-- What was recorded between the two worlds. -/
def recorded (first last : World α β) : List (Mark α β) := last.log.drop first.log.length

def World.clear (world : World α β) : World α β := { world with collected := [] }

variable [DecidableEq α]

def Store.addEvent (store : Store α β) (aggregate : α) (event : β) : Store α β :=
  { store with
    events := Function.update store.events aggregate (store.events aggregate ++ [event]) }

def Store.clearEvents (store : Store α β) (aggregate : α) : Store α β :=
  { store with events := Function.update store.events aggregate [] }

def Store.act (store : Store α β) : Action α β → Store α β
  | .add aggregate event => store.addEvent aggregate event
  | .save aggregate => store.collect aggregate

def World.act (world : World α β) (action : Action α β) : World α β :=
  { world.toStore.act action with log := world.log ++ [.acted action] }

def World.clearEvents (world : World α β) (aggregate : α) : World α β :=
  { world.toStore.clearEvents aggregate with log := world.log ++ [.cleared aggregate] }

/-- How application code behaves when it is called: what it does to aggregates,
and what it returns or raises. -/
abbrev Behaviour (ε α β ρ : Type) := World α β → List (Action α β) × Except ε ρ

/-- The world once the application code has acted. -/
def Behaviour.acted (behaviour : Behaviour ε α β ρ) (world : World α β) : World α β :=
  (behaviour world).1.foldl World.act world

def Behaviour.perform (behaviour : Behaviour ε α β ρ) : Exec (World α β) ε ρ := fun world =>
  ((behaviour world).2, behaviour.acted world)

/-- `publisher.publish(event)`, with all that the handlers of the event do. -/
def publish (handle : α → β → Behaviour ε α β Unit) (aggregate : α) (event : β) :
    Exec (World α β) ε Unit := do
  modify fun world => world.mark (.published aggregate event)
  (handle aggregate event).perform

/-- The body of the outer loop, over the events the aggregate has when its turn
comes. -/
def publishEvents (handle : α → β → Behaviour ε α β Unit) (aggregate : α) :
    Exec (World α β) ε Unit := do
  modify fun world => world.mark (.turned aggregate)
  let events ← reads fun world => world.events aggregate
  forEach (publish handle aggregate) events
  modify fun world => world.clearEvents aggregate

/-- `TransactionalEventPublishingAspect.after_returning` -/
def publishCollected (handle : α → β → Behaviour ε α β Unit) : Exec (World α β) ε Unit := do
  let aggregates ← reads fun world => world.collected
  forEach (publishEvents handle) aggregates

def transactionalEventPublishingAspect (handle : α → β → Behaviour ε α β Unit) :
    Aspect (World α β) ε ι ρ :=
  { order := 1
    afterReturning := fun _ => publishCollected handle
    after := modify World.clear }

end Model

/-- The operations of a transaction, each by its outcome. -/
structure Database (ε α β : Type) where
  autocommitEnabled : Bool
  initialise : World α β → Except ε Unit
  dispose : World α β → Except ε Unit
  commit : World α β → Except ε Unit
  rollback : World α β → Except ε Unit

section Database

variable {α β ε ι ρ : Type}

def outcomeOf (operation : World α β → Except ε Unit) : Exec (World α β) ε Unit := fun world =>
  (operation world, world)

def Database.transaction (database : Database ε α β) : AbstractTransaction (World α β) ε where
  autocommitEnabled := database.autocommitEnabled
  initialise := outcomeOf database.initialise
  dispose := outcomeOf database.dispose
  commit := do
    outcomeOf database.commit
    modify fun world => world.mark .committed
  rollback := outcomeOf database.rollback

def transactionalAspect (database : Database ε α β) : Aspect (World α β) ε ι ρ :=
  { order := 0
    around := fun joinpoint arguments => database.transaction.around (joinpoint arguments) }

end Database

end Spakky.Event
