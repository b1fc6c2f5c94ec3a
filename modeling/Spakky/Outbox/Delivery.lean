import Spakky.Outbox.Relay

/-!
What holds of an outbox in every state that relays can reach. A message is
marked only after a send of it succeeded, each counted retry stands for a send
of its own, and a claim keeps everybody else away until it has timed out.
-/

namespace Spakky.Outbox.Relays

open Machine List OutboxTable

variable {ρ ι : Type} {row : OutboxMessage ι}

/-- A row after a transaction stems from a row the transaction found, which it
either changed or kept. -/
theorem mem_commit {table : OutboxTable ι} {outcome : Outcome} {condition : OutboxMessage ι → Bool}
    {values : OutboxMessage ι → OutboxMessage ι} {hid : ∀ row, (values row).id = row.id}
    (hmem : row ∈ (outcome.commit table (table.update condition values hid)).rows) :
    ∃ before ∈ table.rows, before.id = row.id ∧
      (condition before = true ∧ row = values before ∨ row = before) := by
  cases outcome with
  | returns | raisesCommitted =>
    change row ∈ (table.update condition values hid).rows at hmem
    obtain ⟨before, hbefore, hid, hrow⟩ := mem_update hmem
    exact ⟨before, hbefore, hid, hrow.imp_right And.right⟩
  | raises => exact ⟨row, hmem, rfl, .inr rfl⟩

theorem commit_ids {table changed : OutboxTable ι}
    (hids : changed.rows.map (·.id) = table.rows.map (·.id)) (outcome : Outcome) :
    (outcome.commit table changed).rows.map (·.id) = table.rows.map (·.id) := by
  cases outcome with
  | returns => exact hids
  | raisesCommitted => exact hids
  | raises => rfl

variable {message : OutboxMessage ι} {rest : List (OutboxMessage ι)}

/-- The `for` loop never starts a message by marking it. -/
theorem next_ne_markPublished {batch : List (OutboxMessage ι)} :
    Relay.next batch ≠ .relaying .markPublished message rest := by
  cases batch <;> simp [Relay.next]

/-- A message that was claimed is claimed from that time on or a later one, and
two times at which a message was claimed are more than the timeout apart. -/
structure ClaimsApart (config : OutboxConfig) (state : Relays ρ ι) : Prop where
  past : ∀ handing ∈ state.handings, handing.time ≤ state.clock
  stored : ∀ handing ∈ state.handings, handing.message ∈ state.table.rows.map (·.id)
  claimed : ∀ handing ∈ state.handings, ∀ row ∈ state.table.rows, row.id = handing.message →
    ∃ claimedAt, row.claimedAt = some claimedAt ∧ handing.time ≤ claimedAt
  apart : state.handings.Pairwise fun earlier later =>
    earlier.message = later.message → earlier.time + config.claimTimeout < later.time

variable {config : OutboxConfig} {state : Relays ρ ι}

/-- A step that claims nothing, keeps the rows and moves no claim back. -/
theorem ClaimsApart.of_same {next : Relays ρ ι} (happart : ClaimsApart config state)
    (hhandings : next.handings = state.handings) (hclock : state.clock ≤ next.clock)
    (hids : next.table.rows.map (·.id) = state.table.rows.map (·.id))
    (hrows : ∀ row ∈ next.table.rows, ∃ before ∈ state.table.rows,
      before.id = row.id ∧ (row.claimedAt = some state.clock ∨ row.claimedAt = before.claimedAt)) :
    ClaimsApart config next := by
  refine ⟨?_, ?_, ?_, ?_⟩
  · intro handing hmem
    have hpast := happart.past handing (hhandings ▸ hmem)
    omega
  · intro handing hmem
    rw [hids]
    exact happart.stored handing (hhandings ▸ hmem)
  · intro handing hmem row hrow hid
    rw [hhandings] at hmem
    obtain ⟨before, hbefore, hsame, hnow | hkept⟩ := hrows row hrow
    · exact ⟨state.clock, hnow, happart.past handing hmem⟩
    · obtain ⟨claimedAt, hclaimed, htime⟩ :=
        happart.claimed handing hmem before hbefore (hsame.trans hid)
      exact ⟨claimedAt, hkept.trans hclaimed, htime⟩
  · rw [hhandings]
    exact happart.apart

/-- Some send of the message succeeded. -/
def Succeeded (state : Relays ρ ι) (id : ι) : Prop := ⟨id, true⟩ ∈ state.sends

/-- A message is marked, or about to be marked, only if a send of it succeeded. -/
structure MarkedAfterSend (state : Relays ρ ι) : Prop where
  published : ∀ row ∈ state.table.rows, row.publishedAt ≠ none → state.Succeeded row.id
  marking : ∀ relay message rest,
    state.relay relay = .relaying .markPublished message rest → state.Succeeded message.id

/-- A relay that marks after a step of another kind was marking before. -/
theorem MarkedAfterSend.marking_update [DecidableEq ρ] (hsound : state.MarkedAfterSend)
    {relay : ρ} {next : Relay ι}
    (hnext : ∀ message rest, next ≠ .relaying .markPublished message rest) :
    ∀ other message rest,
      Function.update state.relay relay next other = .relaying .markPublished message rest →
        state.Succeeded message.id := by
  intro other message rest hmarking
  exact hsound.marking other message rest (update_other hmarking (hnext message rest).symm).2

variable [DecidableEq ι]

/-- How often a send of the message raised. -/
def failures (state : Relays ρ ι) (id : ι) : Nat := state.sends.count ⟨id, false⟩

/-- Whether a relay has made a send of the message for which no retry was
counted yet. -/
def owes (id : ι) : Relay ι → Nat
  | .relaying .markPublished message _ | .relaying .incrementRetry message _ =>
    if message.id = id then 1 else 0
  | _ => 0

def attempts (state : Relays ρ ι) (id : ι) : Nat :=
  state.sends.countP fun send => decide (send.message = id)

theorem attempts_eq_failures {id : ι} (hnone : ¬ state.Succeeded id) :
    state.attempts id = state.failures id := by
  apply countP_congr
  rintro ⟨_, succeeded⟩ hmem
  simp only [decide_eq_true_eq, beq_iff_eq, Send.mk.injEq]
  constructor
  · rintro rfl
    cases succeeded with
    | true => exact absurd hmem hnone
    | false => exact ⟨rfl, rfl⟩
  · exact And.left

def owed [Fintype ρ] (state : Relays ρ ι) (id : ι) : Nat := ∑ relay, owes id (state.relay relay)

/-- Every counted retry stands for a send of its own, and so does every relay
that may still count one. -/
structure RetriesPaid [Fintype ρ] (state : Relays ρ ι) : Prop where
  waiting : ∀ id, state.owed id ≤ state.attempts id
  counted : ∀ row ∈ state.table.rows, row.retryCount + state.owed row.id ≤ state.attempts row.id

theorem owes_next (id : ι) (batch : List (OutboxMessage ι)) : owes id (.next batch) = 0 := by
  cases batch <;> rfl

/-- A step after which no more is owed and in which no retry is counted. -/
theorem RetriesPaid.of_le [Fintype ρ] {next : Relays ρ ι} (hpaid : state.RetriesPaid)
    (hrows : ∀ row ∈ next.table.rows, ∃ before ∈ state.table.rows,
      before.id = row.id ∧ row.retryCount = before.retryCount)
    (howed : ∀ id, next.owed id ≤ state.owed id) (hsends : next.sends = state.sends) :
    next.RetriesPaid := by
  have hatt : ∀ id, next.attempts id = state.attempts id := by
    intro id
    rw [attempts, attempts, hsends]
  refine ⟨?_, ?_⟩
  · intro id
    have hbefore := hpaid.waiting id
    have hless := howed id
    rw [hatt]
    omega
  · intro row hmem
    obtain ⟨before, hbefore, hid, _⟩ := hrows row hmem
    have hcounted := hpaid.counted before hbefore
    have hless := howed row.id
    rw [hid] at hcounted
    rw [hatt]
    omega

section Rows

variable {table : OutboxTable ι} {now : Int} {outcome : Outcome} {row : OutboxMessage ι}

theorem row_claimed {selected : List ι}
    (hmem : row ∈ (outcome.commit table (table.claim now selected)).rows) :
    ∃ before ∈ table.rows, before.id = row.id ∧ row.publishedAt = before.publishedAt ∧
      row.retryCount = before.retryCount := by
  obtain ⟨before, hbefore, hid, ⟨-, rfl⟩ | rfl⟩ := mem_commit hmem
  · exact ⟨before, hbefore, hid, rfl, rfl⟩
  · exact ⟨row, hbefore, hid, rfl, rfl⟩

theorem row_marked {messageId : ι}
    (hmem : row ∈ (outcome.commit table (table.markPublished now messageId)).rows) :
    ∃ before ∈ table.rows, before.id = row.id ∧ row.retryCount = before.retryCount ∧
      row.claimedAt = before.claimedAt ∧
      (row.id = messageId ∨ row.publishedAt = before.publishedAt) := by
  obtain ⟨before, hbefore, hid, ⟨hmarked, rfl⟩ | rfl⟩ := mem_commit hmem
  · exact ⟨before, hbefore, hid, rfl, rfl, .inl (decide_eq_true_eq.mp hmarked)⟩
  · exact ⟨row, hbefore, hid, rfl, rfl, .inr rfl⟩

theorem row_incremented {messageId : ι}
    (hmem : row ∈ (outcome.commit table (table.incrementRetry messageId)).rows) :
    ∃ before ∈ table.rows, before.id = row.id ∧ row.publishedAt = before.publishedAt ∧
      row.claimedAt = before.claimedAt ∧
      row.retryCount ≤ before.retryCount + (if row.id = messageId then 1 else 0) := by
  obtain ⟨before, hbefore, hid, ⟨hcounted, rfl⟩ | rfl⟩ := mem_commit hmem
  · rw [if_pos (decide_eq_true_eq.mp hcounted)]
    exact ⟨before, hbefore, hid, rfl, rfl, le_rfl⟩
  · exact ⟨row, hbefore, hid, rfl, rfl, Nat.le_add_right _ _⟩

end Rows

/-- What `fetch_pending` selects was not claimed within the timeout. -/
theorem selected_apart (happart : ClaimsApart config state) {locked selected : List ι}
    (hselects : state.table.Selects (claimable config state locked) config.batchSize selected)
    {handing : Handing ρ ι} (hmem : handing ∈ state.handings)
    (hselected : handing.message ∈ selected) :
    handing.time + config.claimTimeout < state.clock := by
  obtain ⟨row, hrow, hid, hclaimable⟩ := hselects.2.1 handing.message hselected
  rw [claimable, Bool.and_eq_true] at hclaimable
  have hpend := isPending_iff.mp hclaimable.1
  obtain ⟨claimedAt, hclaimed, _⟩ := happart.claimed handing hmem row hrow hid
  have hover := hpend.2.2 claimedAt hclaimed
  omega

theorem initial_sound [Fintype ρ] (config : OutboxConfig) (clock : Int) :
    (initial clock : Relays ρ ι).MarkedAfterSend ∧ (initial clock : Relays ρ ι).RetriesPaid ∧
      ClaimsApart config (initial clock : Relays ρ ι) := by
  refine ⟨⟨?_, ?_⟩, ⟨?_, ?_⟩, ⟨?_, ?_, ?_, Pairwise.nil⟩⟩
  · intro row hmem
    cases hmem
  · intro relay message rest hrelay
    cases hrelay
  · intro id
    exact (Finset.sum_eq_zero fun _ _ => rfl).le
  all_goals
    intro _ hmem
    cases hmem

variable [DecidableEq ρ]

/-- What a step does, with what it found. -/
inductive Moves (config : OutboxConfig) (state : Relays ρ ι) : Relays ρ ι → Prop where
  | stays : Moves config state state
  | ticks (elapsed : Nat) : Moves config state { state with clock := state.clock + elapsed }
  | saves (message : OutboxMessage ι) :
      Moves config state { state with table := state.table.save message }
  | fetches (relay : ρ) (locked selected : List ι) (outcome : Outcome)
      (hidle : state.relay relay = .idle)
      (hselects : state.table.Selects (claimable config state locked) config.batchSize selected) :
      Moves config state (state.fetches relay selected outcome)
  | transmits (relay : ρ) (message : OutboxMessage ι) (rest : List (OutboxMessage ι))
      (succeeds : Bool) (hrelay : state.relay relay = .relaying .send message rest) :
      Moves config state (state.transmits relay message rest succeeds)
  | marks (relay : ρ) (message : OutboxMessage ι) (rest : List (OutboxMessage ι))
      (outcome : Outcome) (hrelay : state.relay relay = .relaying .markPublished message rest) :
      Moves config state (state.marks relay message rest outcome)
  | increments (relay : ρ) (message : OutboxMessage ι) (rest : List (OutboxMessage ι))
      (outcome : Outcome) (hrelay : state.relay relay = .relaying .incrementRetry message rest) :
      Moves config state (state.increments relay message rest outcome)
  | dies (relay : ρ) : Moves config state (state.enters relay .idle)

theorem step_moves (config : OutboxConfig) (state : Relays ρ ι) (event : RelayEvent ρ ι) :
    Moves config state (step config state event) := by
  cases event with
  | tick elapsed => exact .ticks elapsed
  | save message => exact .saves message
  | fetchPending relay locked selected outcome =>
    simp only [step]
    split
    · rename_i hpossible
      exact .fetches relay locked selected outcome hpossible.1 hpossible.2
    · exact .stays
  | send relay succeeds =>
    simp only [step]
    split
    · rename_i message rest hrelay
      exact .transmits relay message rest succeeds hrelay
    · exact .stays
  | markPublished relay outcome =>
    simp only [step]
    split
    · rename_i message rest hrelay
      exact .marks relay message rest outcome hrelay
    · exact .stays
  | incrementRetry relay outcome =>
    simp only [step]
    split
    · rename_i message rest hrelay
      exact .increments relay message rest outcome hrelay
    · exact .stays
  | dies relay => exact .dies relay

/-- What every move keeps holds after every run that starts with it. -/
theorem invariant_of_moves (config : OutboxConfig) {Inv : Relays ρ ι → Prop}
    (hmove : ∀ state next, Inv state → Moves config state next → Inv next) (hstart : Inv state)
    (events : List (RelayEvent ρ ι)) : Inv (run (step config) state events) := by
  apply invariant_run _ hstart
  intro before event hbefore
  exact hmove before _ hbefore (step_moves config before event)

theorem markedAfterSend_moves (state next : Relays ρ ι) (hsound : state.MarkedAfterSend)
    (hmove : Moves config state next) : next.MarkedAfterSend := by
  cases hmove with
  | stays => exact hsound
  | ticks => exact ⟨hsound.published, hsound.marking⟩
  | saves =>
    refine ⟨?_, hsound.marking⟩
    intro row hmem hpub
    rcases mem_save hmem with hold | ⟨_, _, hnone, _⟩
    · exact hsound.published row hold hpub
    · exact absurd hnone hpub
  | fetches _ _ selected outcome =>
    have hclaimed : ∀ row ∈ (outcome.commit state.table
        (state.table.claim state.clock selected)).rows,
        row.publishedAt ≠ none → state.Succeeded row.id := by
      intro row hmem hpub
      obtain ⟨before, hbefore, hid, hsame⟩ := row_claimed hmem
      rw [← hid]
      exact hsound.published before hbefore (hsame.1 ▸ hpub)
    cases outcome with
    | returns => exact ⟨hclaimed, hsound.marking_update fun _ _ => next_ne_markPublished⟩
    | raisesCommitted | raises => exact ⟨hclaimed, hsound.marking⟩
  | transmits relay message rest succeeds =>
    have hgrows : ∀ id, state.Succeeded id →
        (state.transmits relay message rest succeeds).Succeeded id := by
      intro id hid
      exact mem_append_left _ hid
    refine ⟨fun row hmem hpub => hgrows _ (hsound.published row hmem hpub), ?_⟩
    intro other message' rest' hmarking
    rcases update_cases hmarking with ⟨_, hnew⟩ | ⟨_, hbefore⟩
    · cases succeeds with
      | true =>
        cases hnew
        exact mem_append_right _ (mem_singleton_self _)
      | false => cases hnew
    · exact hgrows _ (hsound.marking other message' rest' hbefore)
  | marks relay message rest _ hrelay =>
    have hsent := hsound.marking relay message rest hrelay
    refine ⟨?_, ?_⟩
    · intro row hmem hpub
      obtain ⟨before, hbefore, hid, _, _, hmarked | hsame⟩ := row_marked hmem
      · exact hmarked ▸ hsent
      · rw [← hid]
        exact hsound.published before hbefore (hsame ▸ hpub)
    · apply hsound.marking_update
      intro message' rest'
      split
      · exact next_ne_markPublished
      · simp
  | increments =>
    refine ⟨?_, ?_⟩
    · intro row hmem hpub
      obtain ⟨before, hbefore, hid, hsame, _⟩ := row_incremented hmem
      rw [← hid]
      exact hsound.published before hbefore (hsame ▸ hpub)
    · apply hsound.marking_update
      intro message rest
      split
      · exact next_ne_markPublished
      · simp
  | dies => exact ⟨hsound.published, hsound.marking_update fun _ _ => by simp⟩

section Retries

variable [Fintype ρ]

theorem retriesPaid_moves {config : OutboxConfig} (state next : Relays ρ ι)
    (hpaid : state.RetriesPaid) (hmove : Moves config state next) : next.RetriesPaid := by
  cases hmove with
  | stays => exact hpaid
  | ticks => exact ⟨hpaid.waiting, hpaid.counted⟩
  | saves =>
    refine ⟨hpaid.waiting, ?_⟩
    intro row hmem
    rcases mem_save hmem with hold | ⟨_, _, _, hzero, _⟩
    · exact hpaid.counted row hold
    · have hwaiting := hpaid.waiting row.id
      rw [hzero, Nat.zero_add]
      exact hwaiting
  | fetches relay _ selected outcome =>
    have hrows : ∀ row ∈ (outcome.commit state.table (state.table.claim state.clock selected)).rows,
        ∃ before ∈ state.table.rows, before.id = row.id ∧ row.retryCount = before.retryCount := by
      intro row hmem
      obtain ⟨before, hbefore, hid, _, hretr⟩ := row_claimed hmem
      exact ⟨before, hbefore, hid, hretr⟩
    cases outcome with
    | returns =>
      refine hpaid.of_le hrows ?_ rfl
      intro id
      have hsum := sum_update (owes id) state.relay relay
        (.next ((state.table.claim state.clock selected).returning selected))
      rw [owes_next] at hsum
      exact Nat.le.intro hsum
    | raisesCommitted | raises => exact hpaid.of_le hrows (fun _ => le_refl _) rfl
  | transmits relay message rest succeeds hrelay =>
    have hsum : ∀ id, (state.transmits relay message rest succeeds).owed id =
        state.owed id + if message.id = id then 1 else 0 := by
      intro id
      have hsum := sum_update (owes id) state.relay relay
        (.relaying (if succeeds then .markPublished else .incrementRetry) message rest)
      rw [hrelay] at hsum
      cases succeeds <;> exact hsum
    have hatt : ∀ id, (state.transmits relay message rest succeeds).attempts id =
        state.attempts id + if message.id = id then 1 else 0 := by
      intro id
      simp only [attempts, transmits, countP_append, countP_singleton, decide_eq_true_eq]
    refine ⟨?_, ?_⟩
    · intro id
      have hwaiting := hpaid.waiting id
      rw [hsum, hatt]
      omega
    · intro row hmem
      have hcounted := hpaid.counted row hmem
      rw [hsum, hatt]
      omega
  | marks relay message rest outcome hrelay =>
    refine hpaid.of_le ?_ ?_ rfl
    · intro row hmem
      obtain ⟨before, hbefore, hid, hretr, _⟩ := row_marked hmem
      exact ⟨before, hbefore, hid, hretr⟩
    · intro id
      have hsum := sum_update (owes id) state.relay relay
        (if outcome = .returns then .next rest else .relaying .incrementRetry message rest)
      have hless : owes id (if outcome = .returns then .next rest
          else .relaying .incrementRetry message rest) ≤ owes id (state.relay relay) := by
        rw [hrelay]
        split
        · rw [owes_next]
          exact Nat.zero_le _
        · exact le_refl _
      simp only [owed, marks]
      omega
  | increments relay message rest outcome hrelay =>
    have hsum : ∀ id, (state.increments relay message rest outcome).owed id +
        (if message.id = id then 1 else 0) = state.owed id := by
      intro id
      have hsum := sum_update (owes id) state.relay relay
        (if outcome = .returns then .next rest else .idle)
      have hnothing : owes id (if outcome = .returns then .next rest else .idle) = 0 := by
        split
        · exact owes_next id rest
        · rfl
      rw [hrelay, hnothing] at hsum
      exact hsum
    refine ⟨?_, ?_⟩
    · intro id
      have hwaiting := hpaid.waiting id
      have hless := hsum id
      change _ ≤ state.attempts id
      omega
    · intro row hmem
      obtain ⟨before, hbefore, hid, _, _, hretr⟩ := row_incremented hmem
      have hcounted := hpaid.counted before hbefore
      have hless := hsum row.id
      rw [hid] at hcounted
      change _ ≤ state.attempts row.id
      simp only [eq_comm] at hretr hless
      omega
  | dies relay =>
    refine hpaid.of_le (fun row hmem => ⟨row, hmem, rfl, rfl⟩) ?_ rfl
    intro id
    have hsum := sum_update (owes id) state.relay relay .idle
    exact Nat.le.intro hsum

end Retries

section Claims

variable {config : OutboxConfig}

theorem claimsApart_fetches {state : Relays ρ ι} (happart : ClaimsApart config state) (relay : ρ)
    {locked selected : List ι}
    (hselects : state.table.Selects (claimable config state locked) config.batchSize selected) :
    ClaimsApart config (state.fetches relay selected .returns) := by
  have hids : (state.table.claim state.clock selected).rows.map (·.id) =
      state.table.rows.map (·.id) := update_ids _ _ _ _
  have hnew : ∀ {handing}, handing ∈ ((state.table.claim state.clock selected).returning
      selected).map (fun message => (⟨relay, message.id, state.clock⟩ : Handing ρ ι)) →
      handing.time = state.clock ∧ handing.message ∈ selected ∧
        handing.message ∈ state.table.rows.map (·.id) := by
    intro handing hmem
    obtain ⟨_, hmsg, rfl⟩ := mem_map.mp hmem
    obtain ⟨hrow, hselected⟩ := mem_returning hmsg
    refine ⟨rfl, hselected, ?_⟩
    rw [← hids]
    exact mem_map_of_mem hrow
  refine ⟨?_, ?_, ?_, ?_⟩
  · exact forall_mem_append.mpr ⟨happart.past, fun _ hhanded => (hnew hhanded).1.le⟩
  · intro handing hmem
    change _ ∈ (state.table.claim state.clock selected).rows.map (·.id)
    rw [hids]
    rcases mem_append.mp hmem with hold | hhanded
    · exact happart.stored handing hold
    · exact (hnew hhanded).2.2
  · intro handing hmem row hrow hid
    obtain ⟨before, hbefore, hsame, _, _, hclaimed⟩ := mem_claim hrow
    rcases hclaimed with ⟨_, hnow⟩ | ⟨hunselected, hkept⟩
    · refine ⟨state.clock, hnow, ?_⟩
      rcases mem_append.mp hmem with hold | hhanded
      · exact happart.past handing hold
      · exact (hnew hhanded).1.le
    · rcases mem_append.mp hmem with hold | hhanded
      · obtain ⟨claimedAt, hclaimedAt, htime⟩ :=
          happart.claimed handing hold before hbefore (hsame.trans hid)
        exact ⟨claimedAt, hkept.trans hclaimedAt, htime⟩
      · exact absurd (hid ▸ (hnew hhanded).2.1) hunselected
  · refine pairwise_append.mpr ⟨happart.apart, ?_, ?_⟩
    · have hnodup := returning_nodup (state.table.claim state.clock selected)
        hselects.1
      rw [pairwise_map]
      rw [Nodup, pairwise_map] at hnodup
      exact hnodup.imp fun hdiffer hsame => absurd hsame hdiffer
    · intro earlier hearl later hlater hsame
      obtain ⟨htime, hselected, _⟩ := hnew hlater
      rw [htime]
      exact selected_apart happart hselects hearl (hsame ▸ hselected)

theorem claimsApart_moves (state next : Relays ρ ι) (happart : ClaimsApart config state)
    (hmove : Moves config state next) : ClaimsApart config next := by
  cases hmove with
  | stays => exact happart
  | ticks elapsed =>
    refine happart.of_same rfl ?_ rfl fun row hmem => ⟨row, hmem, rfl, .inr rfl⟩
    exact Int.le_add_of_nonneg_right (Int.natCast_nonneg elapsed)
  | saves message =>
    refine ⟨happart.past, ?_, ?_, happart.apart⟩
    · intro handing hmem
      exact mem_ids_save message (happart.stored handing hmem)
    · intro handing hmem row hrow hid
      rcases mem_save hrow with hold | ⟨hnew, hsame, _⟩
      · exact happart.claimed handing hmem row hold hid
      · have hstored := happart.stored handing hmem
        rw [← hid, hsame] at hstored
        exact absurd hstored hnew
  | fetches relay _ selected outcome _ hselects =>
    have hclaims := claimsApart_fetches happart relay hselects
    cases outcome with
    | returns => exact hclaims
    | raisesCommitted => exact ⟨hclaims.past, hclaims.stored, hclaims.claimed, hclaims.apart⟩
    | raises => exact ⟨happart.past, happart.stored, happart.claimed, happart.apart⟩
  | transmits =>
    exact ⟨happart.past, happart.stored, happart.claimed, happart.apart⟩
  | marks _ _ _ outcome =>
    refine happart.of_same rfl (le_refl _) ?_ ?_
    · exact commit_ids (update_ids _ _ _ _) outcome
    · intro row hmem
      obtain ⟨before, hbefore, hid, _, hclaimed, _⟩ := row_marked hmem
      exact ⟨before, hbefore, hid, .inr hclaimed⟩
  | increments _ _ _ outcome =>
    refine happart.of_same rfl (le_refl _) ?_ ?_
    · exact commit_ids (update_ids _ _ _ _) outcome
    · intro row hmem
      obtain ⟨before, hbefore, hid, _, hclaimed, _⟩ := row_incremented hmem
      exact ⟨before, hbefore, hid, .inr hclaimed⟩
  | dies => exact ⟨happart.past, happart.stored, happart.claimed, happart.apart⟩

end Claims

/-- The message may be claimed by a relay that finds it unlocked. -/
def Eligible (config : OutboxConfig) (state : Relays ρ ι) (id : ι) : Prop :=
  ∃ row ∈ state.table.rows, row.id = id ∧ claimable config state [] row = true

/-- Whatever happens from now on, the message is not eligible. -/
def StoppedForGood (config : OutboxConfig) (state : Relays ρ ι) (id : ι) : Prop :=
  ∀ events, ¬ Eligible config (run (step config) state events) id

/-- Time alone makes a message eligible again unless it is marked or its retries
are used up. -/
theorem stoppedForGood_row (hmem : row ∈ state.table.rows)
    (hstopped : StoppedForGood config state row.id) :
    row.publishedAt ≠ none ∨ config.maxRetryCount ≤ row.retryCount := by
  by_contra hneither
  rw [not_or, not_not, not_le] at hneither
  let elapsed := (row.claimedAt.getD 0 + config.claimTimeout + 1 - state.clock).toNat
  apply hstopped [.tick elapsed]
  refine ⟨row, hmem, rfl, ?_⟩
  rw [claimable, Bool.and_eq_true]
  refine ⟨isPending_iff.mpr ⟨hneither.1, hneither.2, ?_⟩, by simp⟩
  intro claimedAt hclaimed
  change claimedAt + config.claimTimeout < state.clock + (elapsed : Int)
  have hpassed : row.claimedAt.getD 0 + config.claimTimeout + 1 - state.clock ≤ elapsed :=
    Int.self_le_toNat _
  rw [hclaimed, Option.getD_some] at hpassed
  omega

section Theorem

variable [Fintype ρ]

/-- After every run of any number of relays: what is marked was sent, what can
never be claimed again was sent or failed as often as the limit says, and no
message was claimed twice within the timeout, also where a claim was committed by
a `fetch_pending` that then raised. -/
theorem delivers_and_claims_exclusively (config : OutboxConfig) (clock : Int)
    (events : List (RelayEvent ρ ι)) :
    let state := run (step config) (initial clock) events
    (∀ row ∈ state.table.rows, row.publishedAt ≠ none → state.Succeeded row.id) ∧
      (∀ row ∈ state.table.rows, StoppedForGood config state row.id →
        state.Succeeded row.id ∨ config.maxRetryCount ≤ state.failures row.id) ∧
      state.handings.Pairwise fun earlier later =>
        earlier.message = later.message → earlier.time + config.claimTimeout < later.time := by
  obtain ⟨hmarked, hpaid, happart⟩ := initial_sound (ρ := ρ) (ι := ι) config clock
  have hmarked := invariant_of_moves config markedAfterSend_moves hmarked events
  have hpaid := invariant_of_moves config retriesPaid_moves hpaid events
  have happart := invariant_of_moves config claimsApart_moves happart events
  refine ⟨hmarked.published, ?_, happart.apart⟩
  intro row hmem hstopped
  rcases stoppedForGood_row hmem hstopped with hpublished | hretries
  · exact .inl (hmarked.published row hmem hpublished)
  · by_cases hsent : (run (step config) (initial clock) events).Succeeded row.id
    · exact .inl hsent
    · right
      rw [← attempts_eq_failures hsent]
      have hcounted := hpaid.counted row hmem
      omega

def orderPlaced : OutboxMessage Nat where
  id := 1
  eventName := "OrderPlaced"
  payload := []
  headers := []
  createdAt := 0

/-- A relay that dies after its send leaves the message to the next one, which
sends it again. -/
example :
    let state := run (step {}) (initial 0 : Relays Bool Nat)
      [.save orderPlaced, .fetchPending false [] [1] .returns, .send false true, .dies false,
        .tick 300000000, .fetchPending true [] [1] .returns, .tick 1,
        .fetchPending true [] [1] .returns, .send true true, .markPublished true .returns]
    state.handings.map (·.time) = [0, 300000001] ∧
      state.table.rows.map (·.publishedAt) = [some 300000001] := by
  decide

end Theorem

end Spakky.Outbox.Relays
