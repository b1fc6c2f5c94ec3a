import Spakky.Effect
import Spakky.Outbox.Storage

/-!
`OutboxRelayBackgroundService.run`: one batch after the other until the stop
event is set. Each call of the storage or the transport returns or raises as it
likes. `run_async` leaves its loop while it waits, where `run` leaves it at its
next look at the event.
-/

namespace Spakky.Outbox

open Effect Exec List

inductive RelayCall (ι : Type) where
  | fetchPending
  | send (message : OutboxMessage ι)
  | markPublished (messageId : ι)
  | incrementRetry (messageId : ι)
  deriving DecidableEq

/-- What the calls do, and whether the stop event is set, after the calls made
so far. -/
structure Surroundings (ι ε : Type) where
  fetchPending : List (RelayCall ι) → Except ε (List (OutboxMessage ι))
  answer : List (RelayCall ι) → RelayCall ι → Except ε Unit
  stopped : List (RelayCall ι) → Bool

namespace Surroundings

variable {ι ε : Type} (world : Surroundings ι ε)

def call (made : RelayCall ι) : Exec (List (RelayCall ι)) ε Unit :=
  fun calls => (world.answer calls made, calls ++ [made])

/-- The body of the loop over a batch. -/
def relayMessage (message : OutboxMessage ι) : Exec (List (RelayCall ι)) ε Unit := do
  let outcome ← attempt do
    world.call (.send message)
    world.call (.markPublished message.id)
  match outcome with
  | .ok _ => pure ()
  | .error _ => world.call (.incrementRetry message.id)

def relayBatch : Exec (List (RelayCall ι)) ε Unit := do
  let messages ← fun calls => (world.fetchPending calls, calls ++ [.fetchPending])
  forEach world.relayMessage messages

/-- The first rounds of `run`; whether it has returned. -/
def run : Nat → Exec (List (RelayCall ι)) ε Bool
  | 0 => pure false
  | rounds + 1 => do
    if ← reads world.stopped then return true
    world.relayBatch
    run rounds

/-- The calls outside of the `try` return. -/
structure Reliable : Prop where
  fetches : ∀ calls, ∃ messages, world.fetchPending calls = .ok messages
  counts : ∀ calls messageId, world.answer calls (.incrementRetry messageId) = .ok ()

end Surroundings

/-- The messages that were tried. -/
def sent {ι : Type} (calls : List (RelayCall ι)) : List (OutboxMessage ι) :=
  calls.filterMap fun
    | .send message => some message
    | _ => none

def fetches {ι : Type} (calls : List (RelayCall ι)) : Nat :=
  calls.countP fun
    | .fetchPending => true
    | _ => false

namespace Surroundings

variable {ι ε : Type} {world : Surroundings ι ε}

theorem relayMessage_run (message : OutboxMessage ι) (calls : List (RelayCall ι)) :
    ∃ outcome later, world.relayMessage message calls = (outcome, calls ++ later) ∧
      sent later = [message] ∧ fetches later = 0 ∧ (world.Reliable → outcome = .ok ()) := by
  rw [relayMessage, attempt_bind_run, bind_run, call]
  cases world.answer calls (.send message) with
  | error =>
    exact ⟨_, _, Prod.ext rfl (append_assoc _ _ _), rfl, rfl, fun hrel => hrel.counts _ _⟩
  | ok =>
    simp only [call]
    cases world.answer (calls ++ [.send message]) (.markPublished message.id) with
    | error =>
      rw [append_assoc]
      exact ⟨_, _, Prod.ext rfl (append_assoc _ _ _), rfl, rfl, fun hrel => hrel.counts _ _⟩
    | ok => exact ⟨_, _, Prod.ext rfl (append_assoc _ _ _), rfl, rfl, fun _ => rfl⟩

/-- The messages of a batch are tried in its order, and all of them unless a
call outside of the `try` raises. -/
theorem relayMessages_run (messages : List (OutboxMessage ι)) (calls : List (RelayCall ι)) :
    ∃ outcome later tried, forEach world.relayMessage messages calls = (outcome, calls ++ later) ∧
      sent later = messages.take tried ∧ fetches later = 0 ∧
      (world.Reliable → outcome = .ok () ∧ sent later = messages) := by
  induction messages generalizing calls with
  | nil => exact ⟨.ok (), [], 0, by rw [append_nil]; rfl, rfl, rfl, fun _ => ⟨rfl, rfl⟩⟩
  | cons message _ ih =>
    obtain ⟨outcome, first, hfirst, hsent, hnone, hreturns⟩ := world.relayMessage_run message calls
    cases outcome with
    | error =>
      refine ⟨_, first, 1, bind_error _ hfirst, hsent, hnone, fun hrel => ?_⟩
      cases hreturns hrel
    | ok =>
      obtain ⟨outcome, later, tried, hlater, htried, hnot, hall⟩ := ih (calls ++ first)
      refine ⟨outcome, first ++ later, tried + 1, ?_, ?_, ?_, fun hrel => ?_⟩
      · rw [forEach, bind_ok _ hfirst, hlater, append_assoc]
      · rw [sent, filterMap_append]
        exact congrArg₂ _ hsent htried
      · rw [fetches, countP_append]
        exact congrArg₂ _ hnone hnot
      · refine ⟨(hall hrel).1, ?_⟩
        rw [sent, filterMap_append]
        exact congrArg₂ _ hsent (hall hrel).2

theorem relayBatch_run {calls : List (RelayCall ι)} {messages : List (OutboxMessage ι)}
    (hfetch : world.fetchPending calls = .ok messages) :
    ∃ outcome later tried, world.relayBatch calls = (outcome, calls ++ .fetchPending :: later) ∧
      sent later = messages.take tried ∧ fetches later = 0 ∧
      (world.Reliable → outcome = .ok () ∧ sent later = messages) := by
  obtain ⟨outcome, later, tried, hlater, hrest⟩ :=
    world.relayMessages_run messages (calls ++ [.fetchPending])
  refine ⟨outcome, later, tried, ?_, hrest⟩
  rw [append_cons]
  exact (bind_ok _ (by rw [hfetch])).trans hlater

/-- If the calls outside of the `try` return, the relay goes on to fetch until
it is stopped, and tries every message of every batch. -/
theorem relay_survives (hrel : world.Reliable) (calls : List (RelayCall ι)) :
    (∀ rounds, ∃ returned calls', world.run rounds calls = (.ok returned, calls') ∧
      if returned then world.stopped calls' = true
      else fetches calls' = fetches calls + rounds) ∧
    ∀ messages, world.fetchPending calls = .ok messages →
      ∃ later, world.relayBatch calls = (.ok (), calls ++ .fetchPending :: later) ∧
        sent later = messages := by
  constructor
  · intro rounds
    induction rounds generalizing calls with
    | zero => exact ⟨false, calls, rfl, rfl⟩
    | succ _ ih =>
      cases hstop : world.stopped calls with
      | true => exact ⟨true, calls, by simp [run, hstop], hstop⟩
      | false =>
        obtain ⟨messages, hfetch⟩ := hrel.fetches calls
        obtain ⟨_, later, _, hbatch, _, hnone, hreturns⟩ := relayBatch_run hfetch
        rw [(hreturns hrel).1] at hbatch
        obtain ⟨returned, calls', hrun, hends⟩ := ih (calls ++ .fetchPending :: later)
        refine ⟨returned, calls', ?_, ?_⟩
        · simp only [run, reads_bind_run, hstop]
          exact (bind_ok _ hbatch).trans hrun
        · have hcount : fetches (calls ++ .fetchPending :: later) = fetches calls + 1 := by
            rw [fetches, countP_append, countP_cons_of_pos rfl]
            exact congrArg (fetches calls + ·) (congrArg (· + 1) hnone)
          cases returned with
          | true => exact hends
          | false => exact hends.trans (by omega)
  · intro messages hfetch
    obtain ⟨_, later, _, hbatch, _, _, hreturns⟩ := relayBatch_run hfetch
    rw [(hreturns hrel).1] at hbatch
    exact ⟨later, hbatch, (hreturns hrel).2⟩

/-- The rows the subquery of `fetch_pending` sees: `SKIP LOCKED` leaves out those
that others have locked. -/
def eligible (now claimTimeout maxRetry : Int) (locked : OutboxMessage ι → Bool)
    (row : OutboxMessage ι) : Bool :=
  OutboxTable.isPending now claimTimeout maxRetry row && !locked row

/-- The subquery sorts the rows it sees by `created_at` and cuts them at the limit,
and the database returns what it has updated in any order. So a batch is of the
oldest rows, and it is sent in the order in which the database returned them, to
its end if the calls outside of the `try` return. -/
theorem batch_takes_oldest [DecidableEq ι] {table : OutboxTable ι}
    {now claimTimeout maxRetry limit : Int} {locked : OutboxMessage ι → Bool}
    {sorted messages : List (OutboxMessage ι)} {selected : List ι} {calls : List (RelayCall ι)}
    (hrows : sorted.Perm (table.rows.filter (eligible now claimTimeout maxRetry locked)))
    (horder : sorted.Pairwise fun row later => row.createdAt ≤ later.createdAt)
    (hselected : selected.Perm ((OutboxTable.limited limit sorted).map (·.id)))
    (hmessages : (table.claim now selected).returning selected = messages)
    (hfetch : world.fetchPending calls = .ok messages) :
    (messages.length : Int) = (if 0 ≤ limit then
        min limit (table.rows.countP (eligible now claimTimeout maxRetry locked))
      else table.rows.countP (eligible now claimTimeout maxRetry locked)) ∧
    (∀ message ∈ messages, ∃ row ∈ table.rows, { row with claimedAt := some now } = message ∧
      eligible now claimTimeout maxRetry locked row = true ∧
      ∀ other ∈ table.rows, eligible now claimTimeout maxRetry locked other = true →
        other.id ∉ messages.map (·.id) → message.createdAt ≤ other.createdAt) ∧
    ∃ outcome later, world.relayBatch calls = (outcome, calls ++ .fetchPending :: later) ∧
      sent later <+: messages ∧ (world.Reliable → outcome = .ok () ∧ sent later = messages) := by
  obtain ⟨_, hpending, hlimit, holdest⟩ := OutboxTable.selects_of_sorted hrows horder hselected
  have hids : messages.map (·.id) = selected := by
    rw [← hmessages]
    apply OutboxTable.returning_ids
    intro id hid
    obtain ⟨row, hrow, rfl, _⟩ := hpending id hid
    apply mem_map.mp
    rw [OutboxTable.claim, OutboxTable.update_ids]
    exact mem_map_of_mem hrow
  refine ⟨?_, ?_, ?_⟩
  · rw [← hlimit, ← hids, length_map]
  · intro message hmem
    rw [← hmessages] at hmem
    obtain ⟨hclaimed, hchosen⟩ := OutboxTable.mem_returning hmem
    obtain ⟨row, hrow, hid, ⟨_, rfl⟩ | ⟨hnot, _⟩⟩ := OutboxTable.mem_update hclaimed
    · obtain ⟨other, hother, hsame, heligible⟩ := hpending _ hchosen
      cases inj_on_of_nodup_map table.ids_nodup hother hrow hsame
      refine ⟨row, hrow, rfl, heligible, fun other hother hwaits hleft => ?_⟩
      rw [hids] at hleft
      exact holdest other hother hwaits hleft row hrow hchosen
    · rw [hid] at hnot
      exact absurd hchosen (decide_eq_false_iff_not.mp hnot)
  · obtain ⟨outcome, later, tried, hbatch, hsent, _, hreturns⟩ := relayBatch_run hfetch
    exact ⟨outcome, later, hbatch, hsent ▸ take_prefix tried messages, hreturns⟩

def orderAt (id : Nat) (createdAt : Int) : OutboxMessage Nat where
  id := id
  eventName := "order"
  payload := []
  headers := []
  createdAt := createdAt

def orders : OutboxTable Nat := ⟨[orderAt 1 1, orderAt 2 2, orderAt 3 3], by decide⟩

/-- The database returns what is selected, and the transport and the other calls of
the storage do as they are told. -/
def uniform (selected : List Nat) (send answer : Except Unit Unit) : Surroundings Nat Unit where
  fetchPending _ := .ok ((orders.claim 9 selected).returning selected)
  answer _
    | .send _ => send
    | _ => answer
  stopped _ := false

theorem relay_survives_uniform :
    ∃ later, (uniform [1, 2] (.error ()) (.ok ())).relayBatch [] =
        (.ok (), [] ++ .fetchPending :: later) ∧
      sent later = (orders.claim 9 [1, 2]).returning [1, 2] :=
  (relay_survives ⟨fun _ => ⟨_, rfl⟩, fun _ _ => rfl⟩ []).2 _ rfl

/-- A retry that cannot be counted ends the relay before the next message. -/
theorem uncounted_retry_ends_relay :
    ((uniform [1, 2] (.error ()) (.error ())).run 1 []).1 = .error () ∧
      (sent ((uniform [1, 2] (.error ()) (.error ())).run 1 []).2).map (·.id) = [1] :=
  ⟨rfl, rfl⟩

/-- Of three orders the two oldest are sent, here the newer one of them first. -/
theorem batch_takes_oldest_orders :
    ∃ later, (uniform [2, 1] (.ok ()) (.ok ())).relayBatch [] =
        (.ok (), [] ++ .fetchPending :: later) ∧
      sent later = (orders.claim 9 [2, 1]).returning [2, 1] := by
  have hrows : orders.rows.Perm (orders.rows.filter (eligible 9 0 5 fun _ => false)) := .of_eq rfl
  have horder : orders.rows.Pairwise fun row later => row.createdAt ≤ later.createdAt := by decide
  have hselected : [2, 1].Perm ((OutboxTable.limited 2 orders.rows).map (·.id)) := .swap 1 2 []
  have hfetch : (uniform [2, 1] (.ok ()) (.ok ())).fetchPending [] = .ok _ := rfl
  obtain ⟨_, later, hbatch, -, hall⟩ :=
    (batch_takes_oldest hrows horder hselected rfl hfetch).2.2
  obtain ⟨rfl, hsent⟩ := hall ⟨fun _ => ⟨_, rfl⟩, fun _ _ => rfl⟩
  exact ⟨later, hbatch, hsent⟩

/-- The database returns the newer row first, and it is sent first. -/
theorem newest_sent_first :
    orders.Selects (eligible 9 0 5 fun _ => false) 2 [2, 1] ∧
      (sent ((uniform [2, 1] (.ok ()) (.ok ())).relayBatch []).2).map (·.createdAt) = [2, 1] :=
  ⟨by decide, rfl⟩

end Surroundings

end Spakky.Outbox
