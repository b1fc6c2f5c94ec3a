import Spakky.Agent.Signals

/-!
What the pollers of a queue are handed. Signals should be delivered exactly
once and in the order of their appends, whatever the interleaving. Nothing in
the repository ensures that: a poll marks what it listed before, marked or
not, and the order of the queue is computed from timestamps and ids.

Both hold in every run in which nobody lists the queue while another poll has
still signals to mark, and every signal is given a key after those that are
pending. Then the queue is cut in two at every time, the part that was marked
and the part that is pending, and a poll moves signals from the front of the
second part to the end of the first.
-/

namespace Spakky.Agent.Polling

open Effect SignalRepository List Function

variable {P : Type}

/-- The returned batches, one after the other. -/
def delivered (polling : Polling P) : List QueuedSignal :=
  polling.deliveries.flatMap (·.batch.signals)

def deliveredTo [DecidableEq P] (polling : Polling P) (poller : P) : List QueuedSignal :=
  (polling.deliveries.filter (·.poller = poller)).flatMap (·.batch.signals)

/-- The signals of an execution in append order. -/
def queue (polling : Polling P) (stateId : String) : List QueuedSignal :=
  polling.appended.filter (·.agentStateId == stateId)

/-- Some poll of the poller accepted signals of this kind. -/
def acceptedBy [DecidableEq P] (polling : Polling P) (poller : P) (signal : QueuedSignal) : Bool :=
  polling.deliveries.any fun delivery =>
    delivery.poller = poller && delivery.request.accepts signal.kind

def takenByOther [DecidableEq P] (polling : Polling P) (poller : P) (signal : QueuedSignal) :
    Bool :=
  polling.deliveries.any fun delivery =>
    delivery.poller ≠ poller && (delivery.batch.signals.map (·.id)).contains signal.id

/-- No signal is returned twice, the batches of a poller are the first of the
signals it accepts, those that went to other pollers aside, and no signal is
returned before one that was appended earlier. -/
structure ExactlyOnceInOrder [DecidableEq P] (stateId : String) (polling : Polling P) :
    Prop where
  once : (polling.delivered.map (·.id)).Nodup
  ordered : ∀ poller, polling.deliveredTo poller <+: (polling.queue stateId).filter fun signal =>
    polling.acceptedBy poller signal && !polling.takenByOther poller signal
  inTurn : polling.delivered <+: polling.queue stateId

/-- A signal is appended behind everything that is pending, and the queue is
not listed while another poll is open. -/
def Undisturbed (dialect : Dialect) (stateId : String) (polling : Polling P) :
    PollingEvent P → Prop
  | .append signal => signal.agentStateId = stateId → ∀ row ∈ polling.table,
      row.agentStateId = stateId → row.isPending = true →
        dialect.precedes row.sortKey signal.sortKey = true
  | .listPending poller _ => ∀ other, other ≠ poller → polling.polls other = none
  | .markConsumed _ _ => True

/-- Filtering a concatenation whose parts are kept or dropped as a whole. -/
theorem filter_flatMap {α β : Type} {parts : List α} {content : α → List β} {keep : β → Bool}
    {kept : α → Bool} (hwhole : ∀ part ∈ parts, ∀ x ∈ content part, keep x = kept part) :
    (parts.flatMap content).filter keep = (parts.filter kept).flatMap content := by
  induction parts with
  | nil => rfl
  | cons part _ ih =>
    have hfirst := hwhole part (.head _)
    have hrest := ih fun other hother => hwhole other (.tail _ hother)
    rw [flatMap_cons, filter_append, hrest, filter_cons]
    cases hkept : kept part with
    | true =>
      have hall : (content part).filter keep = content part :=
        filter_eq_self.mpr fun x hx => (hfirst x hx).trans hkept
      rw [hall, if_pos rfl, flatMap_cons]
    | false =>
      have hnone : (content part).filter keep = [] :=
        filter_eq_nil_iff.mpr fun x hx => by simp [hfirst x hx, hkept]
      rw [hnone, nil_append, if_neg Bool.false_ne_true]

section Rows

variable {stateId signalId : String} {now : Nat} {table : SignalTable}

def rowsOf (stateId : String) (table : SignalTable) : SignalTable :=
  table.filter (·.agentStateId == stateId)

theorem rowsOf_append (first second : SignalTable) :
    rowsOf stateId (first ++ second) = rowsOf stateId first ++ rowsOf stateId second :=
  filter_append ..

variable {row : AgentSignalRow}

theorem find_row (hdistinct : (table.map (·.id)).Nodup) (hrow : row ∈ table) :
    table.find? (·.id == row.id) = some row := by
  cases hfound : table.find? (·.id == row.id) with
  | none =>
    have hmiss := find?_eq_none.mp hfound row hrow
    simp at hmiss
  | some other =>
    have hid : other.id = row.id := by simpa using find?_some hfound
    have hother := mem_of_find?_eq_some hfound
    rw [inj_on_of_nodup_map hdistinct hother hrow hid]

theorem mark_id (row : AgentSignalRow) : (mark signalId now row).id = row.id := by
  rw [mark]
  split <;> rfl

theorem mark_agentStateId (row : AgentSignalRow) :
    (mark signalId now row).agentStateId = row.agentStateId := by
  rw [mark]
  split <;> rfl

theorem mark_other (hother : row.id ≠ signalId) : mark signalId now row = row := by
  rw [mark, if_neg hother]

theorem rowsOf_mark : rowsOf stateId (table.map (mark signalId now)) =
    (rowsOf stateId table).map (mark signalId now) := by
  rw [rowsOf, rowsOf, filter_map]
  simp only [comp_def, mark_agentStateId]

/-- Marking one of several rows with different ids changes that row. -/
theorem map_mark_split {before after : SignalTable}
    (hdistinct : ((before ++ row :: after).map (·.id)).Nodup) :
    (before ++ row :: after).map (mark row.id now) = before ++ mark row.id now row :: after := by
  rw [map_append, map_cons, nodup_append, nodup_cons] at hdistinct
  obtain ⟨_, ⟨hafter, _⟩, hbefore⟩ := hdistinct
  rw [map_append, map_cons]
  congr 1
  · apply (map_congr_left _).trans (map_id before)
    intro other hother
    apply mark_other
    exact hbefore _ (mem_map_of_mem hother) _ (.head _)
  · congr 1
    apply (map_congr_left _).trans (map_id after)
    intro other hother
    apply mark_other
    rintro hid
    exact hafter (hid ▸ mem_map_of_mem hother)

end Rows

/-- How far the pollers have come in a queue that is cut into the rows that
were marked and those that wait. At most one poll is open. -/
inductive Progress (polling : Polling P) (marked waiting : SignalTable) : Prop where
  | idle (hpolls : ∀ poller, polling.polls poller = none)
      (hmarked : marked.map (·.toDomain) = polling.delivered)
  | busy (poller : P) (poll : OpenPoll) (rest : List QueuedSignal)
      (hpoll : polling.polls poller = some poll)
      (hothers : ∀ other, other ≠ poller → polling.polls other = none)
      (hmarked : marked.map (·.toDomain) = polling.delivered ++ poll.consumed)
      (hwaiting : waiting.map (·.toDomain) = poll.remaining ++ rest)
      (hrem : poll.remaining ≠ [])
      (haccd : ∀ signal ∈ poll.consumed ++ poll.remaining, poll.request.accepts signal.kind = true)

/-- Rows that wait behind all others change nothing for the polls. -/
theorem Progress.append {polling next : Polling P} {marked waiting : SignalTable}
    (hprog : Progress polling marked waiting) (added : SignalTable)
    (hpolls : next.polls = polling.polls) (hdeliveries : next.deliveries = polling.deliveries) :
    Progress next marked (waiting ++ added) := by
  have hdelivered : next.delivered = polling.delivered := by rw [delivered, hdeliveries, delivered]
  cases hprog with
  | idle =>
    apply Progress.idle
    · rwa [hpolls]
    · rwa [hdelivered]
  | busy poller poll rest _ _ _ hwaiting hrem haccd =>
    apply Progress.busy poller poll (rest ++ added.map (·.toDomain))
    · rwa [hpolls]
    · rwa [hpolls]
    · rwa [hdelivered]
    · rw [map_append, hwaiting, append_assoc]
    · exact hrem
    · exact haccd

/-- The table holds what was appended, and batches what their polls accept. -/
structure Recorded (polling : Polling P) : Prop where
  logged : polling.table.map (·.toDomain) = polling.appended
  distinct : (polling.table.map (·.id)).Nodup
  accepted : ∀ delivery ∈ polling.deliveries, ∀ signal ∈ delivery.batch.signals,
    delivery.request.accepts signal.kind = true

/-- The rows of an execution are those that were marked, in append order, and
then those that wait, in append order and in the order of their keys. -/
structure Cut (dialect : Dialect) (stateId : String) (table marked waiting : SignalTable) :
    Prop where
  rows : rowsOf stateId table = marked ++ waiting
  consumed : ∀ row ∈ marked, row.isPending = false
  pending : ∀ row ∈ waiting, row.isPending = true
  sorted : waiting.Pairwise fun a b => dialect.precedes a.sortKey b.sortKey = true

/-- The state of a queue whose polls have come one after the other. -/
structure Serialized (dialect : Dialect) (stateId : String) (polling : Polling P) : Prop extends
    Recorded polling where
  cut : ∃ marked waiting, Cut dialect stateId polling.table marked waiting ∧
    Progress polling marked waiting

section Invariant

variable {dialect : Dialect} {stateId : String} {polling : Polling P}

theorem serialized_start : Serialized dialect stateId ({} : Polling P) where
  logged := rfl
  distinct := nodup_nil
  accepted := by simp
  cut := ⟨[], [], ⟨rfl, by simp, by simp, Pairwise.nil⟩, .idle (fun _ => rfl) rfl⟩

variable {marked waiting : SignalTable}

/-- The database lists what waits, in append order. -/
theorem pendingRows_cut {table : SignalTable} (hcut : Cut dialect stateId table marked waiting) :
    pendingRows dialect stateId table = waiting := by
  have hpend : table.filter (fun row => row.agentStateId == stateId && row.isPending) =
      waiting := by
    have hsplit : table.filter (fun row => row.agentStateId == stateId && row.isPending) =
        (rowsOf stateId table).filter (·.isPending) := by
      simp only [rowsOf, filter_filter, Bool.and_comm]
    have hnone : marked.filter (·.isPending) = [] :=
      filter_eq_nil_iff.mpr fun row hrow => by simp [hcut.consumed row hrow]
    rw [hsplit, hcut.rows, filter_append, hnone, filter_eq_self.mpr hcut.pending, nil_append]
  refine (dialect.select_eq_filter_iff.mpr ?_).trans hpend
  rw [hpend]
  exact hcut.sorted

/-- The queue is what was marked followed by what waits. -/
theorem queue_cut (hrec : Recorded polling)
    (hcut : Cut dialect stateId polling.table marked waiting) :
    polling.queue stateId = marked.map (·.toDomain) ++ waiting.map (·.toDomain) := by
  have hrows : polling.queue stateId = (rowsOf stateId polling.table).map (·.toDomain) := by
    rw [queue, ← hrec.logged, filter_map]
    rfl
  rw [hrows, hcut.rows, map_append]

theorem delivered_inTurn (hser : Serialized dialect stateId polling) :
    polling.delivered <+: polling.queue stateId := by
  obtain ⟨_, _, hcut, hprog⟩ := hser.cut
  rw [queue_cut hser.toRecorded hcut]
  cases hprog with
  | idle _ hmarked =>
    rw [hmarked]
    exact prefix_append _ _
  | busy _ _ _ _ _ hmarked =>
    rw [hmarked, append_assoc]
    exact prefix_append _ _

theorem queue_distinct (hrec : Recorded polling) : ((polling.queue stateId).map (·.id)).Nodup := by
  have hids : polling.appended.map (·.id) = polling.table.map (·.id) := by
    rw [← hrec.logged, map_map]
    rfl
  have hall : (polling.appended.map (·.id)).Nodup := hids ▸ hrec.distinct
  exact hall.sublist (filter_sublist.map _)

/-- If nothing is returned twice, a signal determines the batch it is in. -/
theorem batch_unique (honce : (polling.delivered.map (·.id)).Nodup) {id : String}
    {first second : Delivery P} (hfirst : first ∈ polling.deliveries)
    (hsnd : second ∈ polling.deliveries) (hinFirst : id ∈ first.batch.signals.map (·.id))
    (hinSecond : id ∈ second.batch.signals.map (·.id)) : first = second := by
  rw [delivered, map_flatMap, nodup_flatMap] at honce
  have : Std.Symm (Function.onFun Disjoint
      fun delivery : Delivery P => delivery.batch.signals.map (·.id)) :=
    ⟨fun _ _ hdisj _ hleft hright => hdisj hright hleft⟩
  by_contra hne
  exact honce.2.forall hfirst hsnd hne hinFirst hinSecond

variable [DecidableEq P] {poller : P}

theorem delivered_settle_done {poll : OpenPoll} (hdone : poll.remaining = []) :
    (polling.settle stateId poller poll).delivered = polling.delivered ++ poll.consumed := by
  rw [settle_done hdone, delivered, delivered, flatMap_append]
  simp

/-- A poll that goes on or returns leaves the queue serialized, as long as it
is the only one. -/
theorem serialized_settle {poll : OpenPoll} {rest : List QueuedSignal}
    (hrec : Recorded polling) (hcut : Cut dialect stateId polling.table marked waiting)
    (hothers : ∀ other, other ≠ poller → polling.polls other = none)
    (hmarked : marked.map (·.toDomain) = polling.delivered ++ poll.consumed)
    (hwaiting : waiting.map (·.toDomain) = poll.remaining ++ rest)
    (haccd : ∀ signal ∈ poll.consumed ++ poll.remaining, poll.request.accepts signal.kind = true) :
    Serialized dialect stateId (polling.settle stateId poller poll) := by
  by_cases hdone : poll.remaining = []
  · have hret : (polling.settle stateId poller poll).delivered =
        polling.delivered ++ poll.consumed := delivered_settle_done hdone
    rw [settle_done hdone] at hret ⊢
    refine ⟨⟨hrec.logged, hrec.distinct, ?_⟩, marked, waiting, hcut, ?_⟩
    · intro delivery hdel signal hsignal
      rcases mem_append.mp hdel with hold | hnew
      · exact hrec.accepted delivery hold signal hsignal
      · rw [mem_singleton.mp hnew] at hsignal ⊢
        exact haccd signal (mem_append_left _ hsignal)
    · apply Progress.idle
      · exact Machine.update_all hothers
      · rw [hret, hmarked]
  · rw [settle_open hdone]
    refine ⟨⟨hrec.logged, hrec.distinct, hrec.accepted⟩, marked, waiting, hcut, ?_⟩
    apply Progress.busy poller poll rest
    · exact update_self ..
    · exact Machine.update_rest hothers (some poll)
    · exact hmarked
    · exact hwaiting
    · exact hdone
    · exact haccd

/-- Listing the queue opens a poll on the first of what waits. -/
theorem serialized_list (hser : Serialized dialect stateId polling) {request : PollRequest}
    (hothers : ∀ other, other ≠ poller → polling.polls other = none) :
    Serialized dialect stateId (polling.step dialect stateId (.listPending poller request)) := by
  obtain ⟨_, waiting, hcut, hprog⟩ := hser.cut
  cases hpoll : polling.polls poller with
  | some =>
    rw [step_list_busy hpoll]
    exact hser
  | none =>
    cases hcheck : request.check stateId with
    | error =>
      rw [step_list_refused hcheck]
      exact hser
    | ok =>
      rw [step_list hpoll hcheck, pendingRows_cut hcut]
      obtain ⟨_, hrest, haccd⟩ := request.selectConsumablePrefix_spec (waiting.map (·.toDomain))
      cases hprog with
      | busy other _ _ hother =>
        -- the open poll would be another poller's
        by_cases hsame : other = poller
        · rw [hsame, hpoll] at hother
          cases hother
        · rw [hothers other hsame] at hother
          cases hother
      | idle _ hmarked =>
        apply serialized_settle hser.toRecorded hcut hothers
        · rw [hmarked, append_nil]
        · exact hrest
        · exact haccd

/-- The row a poll marks next is the first of those that wait, and it becomes
the last of those that were marked. -/
theorem cut_mark {table : SignalTable} {row : AgentSignalRow} (now : Nat)
    (hdistinct : (table.map (·.id)).Nodup)
    (hcut : Cut dialect stateId table marked (row :: waiting)) :
    Cut dialect stateId (table.map (mark row.id now)) (marked ++ [mark row.id now row])
      waiting := by
  have hids : ((marked ++ row :: waiting).map (·.id)).Nodup := by
    rw [← hcut.rows]
    exact hdistinct.sublist (filter_sublist.map _)
  constructor
  · rw [rowsOf_mark, hcut.rows, map_mark_split hids, append_assoc, singleton_append]
  · refine forall_mem_append.mpr ⟨hcut.consumed, forall_mem_singleton.mpr ?_⟩
    rw [mark, if_pos rfl]
    rfl
  · intro other hother
    exact hcut.pending other (.tail _ hother)
  · exact (pairwise_cons.mp hcut.sorted).2

theorem serialized_mark (hser : Serialized dialect stateId polling) (poller : P) (now : Nat) :
    Serialized dialect stateId (polling.step dialect stateId (.markConsumed poller now)) := by
  obtain ⟨_, waiting, hcut, hprog⟩ := hser.cut
  cases hprog with
  | idle hpolls =>
    rw [step_mark_idle (hpolls poller)]
    exact hser
  | busy owner poll _ hpoll hothers hmarked hwaiting hrem haccd =>
    by_cases howner : poller = owner
    · subst howner
      obtain ⟨_, remaining, _⟩ := poll
      obtain ⟨signal, _, rfl⟩ := exists_cons_of_ne_nil hrem
      -- the signal to mark is the first that waits
      obtain ⟨row, _, rfl, hrow, hrest⟩ := map_eq_cons_iff.mp hwaiting
      subst hrow
      have hmem : row ∈ polling.table := by
        have hrows : row ∈ rowsOf stateId polling.table := by
          rw [hcut.rows]
          exact mem_append_right _ (.head _)
        exact (mem_filter.mp hrows).1
      rw [step_mark hpoll (find_row hser.distinct hmem)]
      refine serialized_settle ?_ (cut_mark now hser.distinct hcut) hothers ?_ hrest ?_
      · refine ⟨?_, ?_, hser.accepted⟩
        · rw [← hser.logged, map_map]
          simp only [comp_def, mark_toDomain]
        · rw [map_map]
          simp only [comp_def, mark_id]
          exact hser.distinct
      · rw [map_append, hmarked, append_assoc, map_singleton]
        rw [mark_toDomain]
        rfl
      · intro signal hsignal
        apply haccd signal
        simpa only [append_assoc, singleton_append] using hsignal
    · rw [step_mark_idle (hothers poller howner)]
      exact hser

/-- A new signal waits behind all others. -/
theorem serialized_append (hser : Serialized dialect stateId polling) {signal : QueuedSignal}
    (hlast : signal.agentStateId = stateId → ∀ row ∈ polling.table,
      row.agentStateId = stateId → row.isPending = true →
        dialect.precedes row.sortKey signal.sortKey = true) :
    Serialized dialect stateId (polling.step dialect stateId (.append signal)) := by
  obtain ⟨marked, waiting, hcut, hprog⟩ := hser.cut
  by_cases htaken : ∃ row ∈ polling.table, row.id = signal.id
  · obtain ⟨_, hrow, hid⟩ := htaken
    rw [step_append_taken hrow hid]
    exact hser
  · have hfresh : ∀ row ∈ polling.table, row.id ≠ signal.id := by
      intro row hrow hid
      exact htaken ⟨row, hrow, hid⟩
    rw [step_append_fresh hfresh]
    -- the new row is one of the execution or none of its rows
    have hnew : ∀ row ∈ rowsOf stateId [.fromDomain signal],
        row = .fromDomain signal ∧ signal.agentStateId = stateId := by
      intro row hrow
      obtain ⟨hsame, hstate⟩ := mem_filter.mp hrow
      rw [mem_singleton.mp hsame] at hstate ⊢
      exact ⟨rfl, beq_iff_eq.mp hstate⟩
    refine ⟨⟨?_, ?_, hser.accepted⟩, marked, waiting ++ rowsOf stateId [.fromDomain signal],
      ⟨?_, hcut.consumed, ?_, ?_⟩, hprog.append _ rfl rfl⟩
    · rw [map_append, hser.logged]
      rfl
    · rw [map_append, nodup_append]
      refine ⟨hser.distinct, nodup_singleton _, ?_⟩
      intro id hid other hother
      obtain ⟨row, hrow, rfl⟩ := mem_map.mp hid
      rw [mem_singleton.mp hother]
      exact hfresh row hrow
    · rw [rowsOf_append, hcut.rows, append_assoc]
    · refine forall_mem_append.mpr ⟨hcut.pending, fun row hadded => ?_⟩
      rw [(hnew row hadded).1]
      rfl
    · rw [pairwise_append]
      refine ⟨hcut.sorted, (pairwise_singleton _ _).sublist filter_sublist, ?_⟩
      intro row hrow added hadded
      obtain ⟨rfl, hstate⟩ := hnew added hadded
      have hmember : row ∈ rowsOf stateId polling.table := by
        rw [hcut.rows]
        exact mem_append_right _ hrow
      obtain ⟨htable, hof⟩ := mem_filter.mp hmember
      exact hlast hstate row htable (beq_iff_eq.mp hof) (hcut.pending row hrow)

theorem serialized_step (polling : Polling P) (event : PollingEvent P)
    (hser : Serialized dialect stateId polling)
    (hundis : Undisturbed dialect stateId polling event) :
    Serialized dialect stateId (polling.step dialect stateId event) := by
  cases event with
  | append => exact serialized_append hser hundis
  | listPending => exact serialized_list hser hundis
  | markConsumed poller now => exact serialized_mark hser poller now

/-- Of all that was returned, the part a poller accepts and no other poller
got is what the poller got. -/
theorem delivered_filter (haccd : ∀ delivery ∈ polling.deliveries,
      ∀ signal ∈ delivery.batch.signals, delivery.request.accepts signal.kind = true)
    (honce : (polling.delivered.map (·.id)).Nodup) (poller : P) :
    (polling.delivered.filter fun signal =>
        polling.acceptedBy poller signal && !polling.takenByOther poller signal) =
      polling.deliveredTo poller := by
  have hown : ∀ delivery ∈ polling.deliveries, ∀ signal ∈ delivery.batch.signals,
      (polling.acceptedBy poller signal && !polling.takenByOther poller signal) =
        decide (delivery.poller = poller) := by
    intro delivery hdel signal hsignal
    by_cases hpoller : delivery.poller = poller
    · have hacc : polling.acceptedBy poller signal = true := by
        rw [acceptedBy, any_eq_true]
        exact ⟨delivery, hdel, by simp [hpoller, haccd delivery hdel signal hsignal]⟩
      have hfree : polling.takenByOther poller signal = false := by
        rw [takenByOther, any_eq_false]
        intro other hother htaken
        simp only [ne_eq, decide_not, Bool.and_eq_true, Bool.not_eq_true', decide_eq_false_iff_not,
          contains_eq_mem, decide_eq_true_eq] at htaken
        obtain ⟨hne, hid⟩ := htaken
        exact hne (batch_unique honce hother hdel hid (mem_map_of_mem hsignal) ▸ hpoller)
      simp [hacc, hfree, hpoller]
    · have htaken : polling.takenByOther poller signal = true := by
        rw [takenByOther, any_eq_true]
        exact ⟨delivery, hdel, by simpa [hpoller] using ⟨signal, hsignal, rfl⟩⟩
      simp [htaken, hpoller]
  exact filter_flatMap hown

theorem exactlyOnce_of_serialized (hser : Serialized dialect stateId polling) :
    ExactlyOnceInOrder stateId polling := by
  have hinTurn := delivered_inTurn hser
  have honce : (polling.delivered.map (·.id)).Nodup :=
    (queue_distinct hser.toRecorded).sublist (hinTurn.sublist.map _)
  refine ⟨honce, ?_, hinTurn⟩
  intro poller
  rw [← delivered_filter hser.accepted honce poller]
  exact hinTurn.filter _

end Invariant

variable [DecidableEq P]

/-- In every run whose signals are appended behind the pending ones and whose
polls do not overlap, signals are delivered exactly once and in order. -/
theorem undisturbed_exactly_once_in_order (dialect : Dialect) (stateId : String)
    (events : List (PollingEvent P))
    (hundisturbed : Machine.Along (step dialect stateId) (Undisturbed dialect stateId) {} events) :
    ExactlyOnceInOrder stateId (run dialect stateId {} events) :=
  exactlyOnce_of_serialized
    (hundisturbed.invariant (fun polling event => serialized_step polling event) serialized_start)

def userMessage (id : String) (createdAt : Option Nat) : QueuedSignal where
  id := id
  agentStateId := "state-1"
  kind := .userMessage
  createdAt := createdAt

/-- Two pollers take one signal each. -/
def alternatingPolls : List (PollingEvent Bool) :=
  [.append (userMessage "signal-b" (some 1)), .append (userMessage "signal-a" (some 2)),
    .listPending true { maxSignals := some 1 }, .markConsumed true 10,
    .listPending false {}, .markConsumed false 11]

theorem undisturbed_exactly_once_in_order_alternating :
    ((run .sqlite "state-1" {} alternatingPolls).delivered.map (·.id) = ["signal-b", "signal-a"]) ∧
      ExactlyOnceInOrder "state-1" (run .sqlite "state-1" {} alternatingPolls) := by
  refine ⟨by decide, undisturbed_exactly_once_in_order .sqlite "state-1" alternatingPolls ?_⟩
  simp only [alternatingPolls, Machine.Along, Undisturbed]
  decide

/-- Both pollers list the queue before one of them marks. -/
def overlappingPolls : List (PollingEvent Bool) :=
  [.append (userMessage "signal-1" (some 1)), .listPending true {}, .listPending false {},
    .markConsumed true 10, .markConsumed false 11]

/-- Two signals without a timestamp, appended against the order of their ids. -/
def untimedSignals : List (PollingEvent Bool) :=
  [.append (userMessage "signal-b" none), .append (userMessage "signal-a" none),
    .listPending true { maxSignals := some 1 }, .markConsumed true 10]

/-- Of two polls that overlap each returns the one signal, and the later of
two signals without timestamps overtakes the earlier one. -/
theorem overlapping_polls_deliver_twice :
    (run .sqlite "state-1" {} overlappingPolls).deliveries.map
        (fun delivery => delivery.batch.signals.map (·.id)) = [["signal-1"], ["signal-1"]] ∧
      ¬ ExactlyOnceInOrder "state-1" (run .sqlite "state-1" {} overlappingPolls) ∧
      (run .sqlite "state-1" {} untimedSignals).delivered.map (·.id) = ["signal-a"] ∧
      ¬ ExactlyOnceInOrder "state-1" (run .sqlite "state-1" {} untimedSignals) := by
  refine ⟨by decide, ?_, by decide, ?_⟩
  · intro hdelivered
    have honce := hdelivered.once
    revert honce
    decide
  · intro hdelivered
    have hids := hdelivered.inTurn.map (·.id)
    revert hids
    decide

end Spakky.Agent.Polling
