import Spakky.Machine
import Spakky.Agent.Storage

/-!
Polling the durable queue of signals. `consume_pending_agent_signals` lists
what is pending, selects the part of it that may be consumed and marks the
selected signals one by one; every call of the repository is a step of its
own.

`Polling` is the repository together with the polls that several pollers have
open at the same time. Its runs are the interleavings of their steps with the
appends of the senders, and a poll that nobody interrupts does in it what the
function does.
-/

namespace Spakky.Agent

open Effect List Function

inductive AgentSignalPollPoint where
  | safeBoundary
  | actionBoundary
  | modelStreamTick
  | toolBoundary
  | approvalBoundary
  | configured
  deriving DecidableEq, Repr

structure AgentSignalConsumptionBatch where
  stateId : String
  pollPoint : AgentSignalPollPoint
  signals : List QueuedSignal

/-- The arguments of a poll besides the execution it is about. -/
structure PollRequest where
  pollPoint : AgentSignalPollPoint := .safeBoundary
  acceptedSignals : Option (List AgentSignalKind) := none
  maxSignals : Option Int := none
  deriving DecidableEq, Repr

namespace PollRequest

variable (request : PollRequest)

def accepts (kind : AgentSignalKind) : Bool :=
  match request.acceptedSignals with
  | none => true
  | some kinds => kinds.contains kind

/-- The selection has as many signals as the poll may take. -/
def isFull (selected : List QueuedSignal) : Bool :=
  match request.maxSignals with
  | none => false
  | some maxSignals => maxSignals ≤ selected.length

/-- The arguments that are refused before the repository is touched. -/
def check (stateId : String) : Except AgentError Unit :=
  if isBlank stateId then
    .error (.agentDefinitionError "Agent signal state id cannot be blank")
  else if request.maxSignals.any (· ≤ 0) then
    .error (.agentDefinitionError "Agent signal max_signals must be positive")
  else .ok ()

/-- The loop of `_select_consumable_prefix`. -/
def selectConsumable (selected : List QueuedSignal) : List QueuedSignal → List QueuedSignal
  | [] => selected
  | signal :: pending =>
    if request.isFull selected then selected
    else if request.accepts signal.kind = false then selected
    else selectConsumable (selected ++ [signal]) pending

def selectConsumablePrefix (pending : List QueuedSignal) : List QueuedSignal :=
  request.selectConsumable [] pending

theorem selectConsumable_spec (selected pending : List QueuedSignal) :
    ∃ taken rest, pending = taken ++ rest ∧
      request.selectConsumable selected pending = selected ++ taken ∧
      ∀ signal ∈ taken, request.accepts signal.kind = true := by
  induction pending generalizing selected with
  | nil => exact ⟨[], [], rfl, by simp [selectConsumable], by simp⟩
  | cons signal pending ih =>
    have hstop : ∃ taken rest, signal :: pending = taken ++ rest ∧ selected = selected ++ taken ∧
        ∀ signal ∈ taken, request.accepts signal.kind = true :=
      ⟨[], signal :: pending, rfl, by simp, by simp⟩
    rw [selectConsumable]
    split
    · exact hstop
    · split
      · exact hstop
      · rename_i _ haccd
        obtain ⟨taken, rest, hpend, hselected, htaken⟩ := ih (selected ++ [signal])
        refine ⟨signal :: taken, rest, by rw [hpend, cons_append], ?_, ?_⟩
        · rw [hselected, append_assoc, singleton_append]
        · exact forall_mem_cons.mpr ⟨by simpa using haccd, htaken⟩

/-- A poll takes the head of the queue, as far as it accepts what it finds. -/
theorem selectConsumablePrefix_spec (pending : List QueuedSignal) :
    ∃ rest, pending = request.selectConsumablePrefix pending ++ rest ∧
      ∀ signal ∈ request.selectConsumablePrefix pending, request.accepts signal.kind = true := by
  obtain ⟨_, rest, hpend, hselected, htaken⟩ := request.selectConsumable_spec [] pending
  rw [selectConsumablePrefix, hselected]
  exact ⟨rest, hpend, htaken⟩

end PollRequest

namespace SignalRepository

/-- The selected signals are marked one after the other. -/
def markAll (now : QueuedSignal → Nat) :
    List QueuedSignal → Exec SignalTable PersistenceError (List QueuedSignal)
  | [] => pure []
  | signal :: rest => do
      let consumed ← markConsumed signal.id (now signal)
      let others ← markAll now rest
      pure (consumed :: others)

end SignalRepository

open SignalRepository

/-- Consume currently pending signals without waiting for new input. Bad
arguments are refused at once; what is returned otherwise is the poll, with
the clock its marks are made by. -/
def consumePendingAgentSignals (dialect : Dialect) (stateId : String) (request : PollRequest)
    (now : QueuedSignal → Nat) :
    Except AgentError (Exec SignalTable PersistenceError AgentSignalConsumptionBatch) := do
  request.check stateId
  pure do
    let pending ← listPending dialect stateId
    let consumed ← markAll now (request.selectConsumablePrefix pending)
    pure { stateId, pollPoint := request.pollPoint, signals := consumed }

/-- A poll that has listed the queue: the signals it has still to mark, and
those it has marked. -/
structure OpenPoll where
  request : PollRequest
  remaining : List QueuedSignal
  consumed : List QueuedSignal

/-- A batch that was returned to a poller. -/
structure Delivery (P : Type) where
  poller : P
  request : PollRequest
  batch : AgentSignalConsumptionBatch

/-- The queue of an execution and its pollers. The appended signals and the
returned batches are kept in the order of their appends and returns. -/
structure Polling (P : Type) where
  table : SignalTable := []
  appended : List QueuedSignal := []
  polls : P → Option OpenPoll := fun _ => none
  deliveries : List (Delivery P) := []

inductive PollingEvent (P : Type) where
  | append (signal : QueuedSignal)
  | listPending (poller : P) (request : PollRequest)
  | markConsumed (poller : P) (now : Nat)

namespace Polling

variable {P : Type} [DecidableEq P]

/-- A poll goes on as long as it has signals to mark, and returns its batch
when it has none. -/
def settle (polling : Polling P) (stateId : String) (poller : P) (poll : OpenPoll) : Polling P :=
  match poll.remaining with
  | [] =>
    let batch := { stateId, pollPoint := poll.request.pollPoint, signals := poll.consumed }
    { polling with
      polls := update polling.polls poller none
      deliveries := polling.deliveries ++ [{ poller, request := poll.request, batch }] }
  | _ :: _ => { polling with polls := update polling.polls poller (some poll) }

/-- One call of the repository. A poller has one poll at a time, so an event
that starts a second one does not occur. -/
def step (dialect : Dialect) (stateId : String) (polling : Polling P) :
    PollingEvent P → Polling P
  | .append signal =>
    match append signal polling.table with
    | (.ok stored, table) => { polling with table, appended := polling.appended ++ [stored] }
    | (.error _, table) => { polling with table }
  | .listPending poller request =>
    match polling.polls poller, request.check stateId with
    | none, .ok () =>
      let pending := (pendingRows dialect stateId polling.table).map (·.toDomain)
      let remaining := request.selectConsumablePrefix pending
      polling.settle stateId poller { request, remaining, consumed := [] }
    | _, _ => polling
  | .markConsumed poller now =>
    match polling.polls poller with
    | some { request, remaining := signal :: remaining, consumed } =>
      match markConsumed signal.id now polling.table with
      | (.ok marked, table) =>
        { polling with table }.settle stateId poller
          { request, remaining, consumed := consumed ++ [marked] }
      | (.error _, table) =>
        { polling with table, polls := update polling.polls poller none }
    | _ => polling

def run (dialect : Dialect) (stateId : String) (polling : Polling P)
    (events : List (PollingEvent P)) : Polling P :=
  Machine.run (step dialect stateId) polling events

section Steps

variable {dialect : Dialect} {stateId : String} {polling : Polling P} {poller : P} {poll : OpenPoll}

theorem settle_done (hdone : poll.remaining = []) :
    polling.settle stateId poller poll =
      { polling with
        polls := update polling.polls poller none
        deliveries := polling.deliveries ++
          [⟨poller, poll.request, ⟨stateId, poll.request.pollPoint, poll.consumed⟩⟩] } := by
  rw [settle, hdone]

theorem settle_open (hopen : poll.remaining ≠ []) :
    polling.settle stateId poller poll =
      { polling with polls := update polling.polls poller (some poll) } := by
  obtain ⟨_, remaining, _⟩ := poll
  cases remaining with
  | nil => exact absurd rfl hopen
  | cons => rfl

variable {signal : QueuedSignal}

theorem step_append_fresh (hfresh : ∀ row ∈ polling.table, row.id ≠ signal.id) :
    polling.step dialect stateId (.append signal) =
      { polling with
        table := polling.table ++ [.fromDomain signal]
        appended := polling.appended ++ [signal] } := by
  rw [step, append_fresh hfresh]

variable {row : AgentSignalRow}

theorem step_append_taken (hrow : row ∈ polling.table) (hid : row.id = signal.id) :
    polling.step dialect stateId (.append signal) = polling := by
  rw [step, append_taken hrow hid]

variable {request : PollRequest}

theorem step_list (hidle : polling.polls poller = none) (hcheck : request.check stateId = .ok ()) :
    polling.step dialect stateId (.listPending poller request) =
      polling.settle stateId poller
        ⟨request, request.selectConsumablePrefix
          ((pendingRows dialect stateId polling.table).map (·.toDomain)), []⟩ := by
  simp only [step, hidle, hcheck]

theorem step_list_busy (hbusy : polling.polls poller = some poll) :
    polling.step dialect stateId (.listPending poller request) = polling := by
  simp only [step, hbusy]

theorem step_list_refused {error : AgentError} (hcheck : request.check stateId = .error error) :
    polling.step dialect stateId (.listPending poller request) = polling := by
  simp only [step, hcheck]
  cases polling.polls poller <;> rfl

theorem step_mark {remaining consumed : List QueuedSignal} {now : Nat}
    (hpoll : polling.polls poller = some ⟨request, signal :: remaining, consumed⟩)
    (hfound : polling.table.find? (·.id == signal.id) = some row) :
    polling.step dialect stateId (.markConsumed poller now) =
      { polling with table := polling.table.map (mark signal.id now) }.settle stateId poller
        ⟨request, remaining, consumed ++ [row.toDomain]⟩ := by
  simp only [step, hpoll, markConsumed_found hfound]

theorem step_mark_idle {now : Nat} (hidle : polling.polls poller = none) :
    polling.step dialect stateId (.markConsumed poller now) = polling := by
  simp only [step, hidle]

end Steps

section Uninterrupted

variable {dialect : Dialect} {stateId : String}

/-- The marks of an open poll, made without interruption, are the loop of the
function. -/
theorem run_marks (poller : P) (request : PollRequest) (now : QueuedSignal → Nat)
    {remaining consumed marked : List QueuedSignal} {polling : Polling P} {table : SignalTable}
    (hmarked : markAll now remaining polling.table = (.ok marked, table)) :
    Machine.run (step dialect stateId)
        (polling.settle stateId poller ⟨request, remaining, consumed⟩)
        (remaining.map fun signal => .markConsumed poller (now signal)) =
      { polling with table }.settle stateId poller ⟨request, [], consumed ++ marked⟩ := by
  induction remaining generalizing polling consumed marked with
  | nil =>
    cases hmarked
    rw [append_nil]
    rfl
  | cons signal remaining ih =>
    rw [markAll, Exec.bind_eq_ok] at hmarked
    obtain ⟨first, between, hfirst, hrest⟩ := hmarked
    rw [Exec.bind_eq_ok] at hrest
    obtain ⟨_, _, hothers, hfinal⟩ := hrest
    cases hfinal
    have hstep : (polling.settle stateId poller ⟨request, signal :: remaining, consumed⟩).step
          dialect stateId (.markConsumed poller (now signal)) =
        { polling with table := between }.settle stateId poller
          ⟨request, remaining, consumed ++ [first]⟩ := by
      simp only [settle, step, update_self, hfirst]
      cases remaining <;> simp only [update_idem]
    rw [map_cons, Machine.run_cons, hstep, ih hothers, append_assoc]
    rfl

/-- A poll whose steps nobody interrupts is a call of the function. -/
theorem run_uninterrupted {poller : P} {request : PollRequest} {now : QueuedSignal → Nat}
    {polling : Polling P} {table : SignalTable} {batch : AgentSignalConsumptionBatch}
    {call : Exec SignalTable PersistenceError AgentSignalConsumptionBatch}
    (hidle : polling.polls poller = none)
    (hcall : consumePendingAgentSignals dialect stateId request now = .ok call)
    (hreturn : call polling.table = (.ok batch, table)) :
    polling.run dialect stateId
        (.listPending poller request :: (request.selectConsumablePrefix
            ((pendingRows dialect stateId polling.table).map (·.toDomain))).map
              fun signal => .markConsumed poller (now signal)) =
      { polling with
        table
        deliveries := polling.deliveries ++ [⟨poller, request, batch⟩] } := by
  cases hcheck : request.check stateId with
  | error =>
    rw [consumePendingAgentSignals, hcheck] at hcall
    cases hcall
  | ok =>
    rw [consumePendingAgentSignals, hcheck] at hcall
    cases hcall
    simp only [listPending, Exec.reads_bind_run] at hreturn
    obtain ⟨_, _, hmarked, hbatch⟩ := Exec.bind_eq_ok.mp hreturn
    cases hbatch
    rw [run, Machine.run_cons, step_list hidle hcheck, run_marks poller request now hmarked,
      settle_done rfl, nil_append]
    simp only [← hidle, update_eq_self]

end Uninterrupted

/-- A poll for resumptions lists three signals, takes the older two and leaves the
cancellation behind them. -/
theorem run_uninterrupted_three_signals :
    let row (id : String) (kind : AgentSignalKind) (createdAt : Nat) : AgentSignalRow :=
      { id, agentStateId := "state-1", kind, createdAt }
    let request : PollRequest := { acceptedSignals := some [.resume] }
    let table := [row "signal-2" .resume 2, row "signal-1" .resume 1, row "signal-3" .cancel 3]
    (run .sqlite "state-1" { table }
      [.listPending () request, .markConsumed () 10, .markConsumed () 10]).deliveries =
        [⟨(), request, "state-1", .safeBoundary,
          [(row "signal-1" .resume 1).toDomain, (row "signal-2" .resume 2).toDomain]⟩] := by
  intro row request table
  have hpoll := @run_uninterrupted Unit _ .sqlite "state-1" () request (fun _ => 10) { table }
    _ _ _ rfl rfl rfl
  exact congrArg deliveries hpoll

end Polling

end Spakky.Agent
