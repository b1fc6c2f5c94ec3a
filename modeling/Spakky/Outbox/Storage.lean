import Mathlib.Data.List.Nodup

/-!
The outbox table behind `SqlAlchemyOutboxStorage`. Three columns decide whether
a message is handed to a relay: `published_at`, `retry_count` and `claimed_at`,
each of them written by a call of its own.

A query has no order of its own. Which rows `fetch_pending` claims is settled
by `created_at` and the limit up to ties, and the order in which
`UPDATE ... RETURNING` gives them back is not settled at all; both are left to
the database, and `Selects` says what it may answer. Times are in microseconds.
-/

namespace Spakky.Outbox

open List

structure OutboxMessage (ι : Type) where
  id : ι
  eventName : String
  payload : List UInt8
  headers : List (String × String)
  createdAt : Int
  publishedAt : Option Int := none
  retryCount : Nat := 0
  claimedAt : Option Int := none
  deriving DecidableEq, Repr

/-- The settings that storage and relay read. -/
structure OutboxConfig where
  batchSize : Int := 100
  maxRetryCount : Int := 5
  claimTimeout : Int := 300000000

/-- The rows of the table; the identifier is its primary key. -/
structure OutboxTable (ι : Type) where
  rows : List (OutboxMessage ι)
  ids_nodup : (rows.map (·.id)).Nodup

namespace OutboxTable

variable {ι : Type}

def empty : OutboxTable ι := ⟨[], List.nodup_nil⟩

/-- `LIMIT`; a negative one is none. -/
def limited (limit : Int) (rows : List (OutboxMessage ι)) : List (OutboxMessage ι) :=
  if 0 ≤ limit then rows.take limit.toNat else rows

theorem limited_prefix (limit : Int) (rows : List (OutboxMessage ι)) :
    limited limit rows <+: rows := by
  unfold limited
  split
  · exact take_prefix _ _
  · exact prefix_refl _

theorem length_limited (limit : Int) (rows : List (OutboxMessage ι)) :
    ((limited limit rows).length : Int) =
      if 0 ≤ limit then min limit rows.length else rows.length := by
  unfold limited
  split
  · rw [length_take]
    omega
  · rfl

variable {condition : OutboxMessage ι → Bool} {values : OutboxMessage ι → OutboxMessage ι}

/-- Setting columns other than the primary key keeps the keys. -/
theorem map_id_update (hid : ∀ row, (values row).id = row.id) (rows : List (OutboxMessage ι)) :
    (rows.map fun row => if condition row then values row else row).map (·.id) =
      rows.map (·.id) := by
  rw [map_map]
  apply map_congr_left
  intro row _
  simp only [Function.comp_apply]
  split
  · exact hid row
  · rfl

/-- `UPDATE` of the rows a condition holds of. -/
def update (table : OutboxTable ι) (condition : OutboxMessage ι → Bool)
    (values : OutboxMessage ι → OutboxMessage ι) (hid : ∀ row, (values row).id = row.id) :
    OutboxTable ι where
  rows := table.rows.map fun row => if condition row then values row else row
  ids_nodup := by
    rw [map_id_update hid]
    exact table.ids_nodup

theorem update_ids (table : OutboxTable ι) (condition : OutboxMessage ι → Bool)
    (values : OutboxMessage ι → OutboxMessage ι) (hid : ∀ row, (values row).id = row.id) :
    (table.update condition values hid).rows.map (·.id) = table.rows.map (·.id) :=
  map_id_update hid table.rows

variable {table : OutboxTable ι} {row : OutboxMessage ι}

theorem mem_update {hid : ∀ row, (values row).id = row.id}
    (hmem : row ∈ (table.update condition values hid).rows) :
    ∃ before ∈ table.rows, before.id = row.id ∧
      (condition before = true ∧ row = values before ∨
        condition before = false ∧ row = before) := by
  obtain ⟨before, hbefore, hrow⟩ := mem_map.mp hmem
  refine ⟨before, hbefore, ?_⟩
  cases hcond : condition before with
  | true =>
    rw [hcond, if_pos rfl] at hrow
    exact ⟨by rw [← hrow, hid], .inl ⟨rfl, hrow.symm⟩⟩
  | false =>
    rw [hcond, if_neg Bool.false_ne_true] at hrow
    exact ⟨by rw [hrow], .inr ⟨rfl, hrow.symm⟩⟩

/-- The conditions of the subquery of `fetch_pending`. -/
def isPending (now claimTimeout maxRetry : Int) (row : OutboxMessage ι) : Bool :=
  row.publishedAt.isNone && decide ((row.retryCount : Int) < maxRetry) &&
    match row.claimedAt with
    | none => true
    | some claimedAt => decide (claimedAt < now - claimTimeout)

theorem isPending_iff {now claimTimeout maxRetry : Int} :
    isPending now claimTimeout maxRetry row = true ↔
      row.publishedAt = none ∧ (row.retryCount : Int) < maxRetry ∧
        ∀ claimedAt, row.claimedAt = some claimedAt → claimedAt + claimTimeout < now := by
  cases hclaimed : row.claimedAt with
  | none => simp [isPending, hclaimed]
  | some claimedAt =>
    simp only [isPending, hclaimed, Bool.and_eq_true, Option.isNone_iff_eq_none,
      decide_eq_true_eq, Option.some.injEq, forall_eq']
    rw [and_assoc]
    have hcutoff : claimedAt < now - claimTimeout ↔ claimedAt + claimTimeout < now := by omega
    rw [hcutoff]

variable [DecidableEq ι]

/-- `save`: a new row with the defaults of the columns it does not set. The
primary key refuses a second row of an identifier. -/
def save (table : OutboxTable ι) (message : OutboxMessage ι) : OutboxTable ι :=
  if hnew : message.id ∈ table.rows.map (·.id) then table
  else
    { rows := table.rows ++
        [{ id := message.id
           eventName := message.eventName
           payload := message.payload
           headers := message.headers
           createdAt := message.createdAt }]
      ids_nodup := by
        rw [List.map_append, List.nodup_append]
        refine ⟨table.ids_nodup, List.nodup_singleton _, ?_⟩
        intro id hid other hother
        rw [List.map_singleton, List.mem_singleton] at hother
        rintro rfl
        exact hnew (hother ▸ hid) }

theorem mem_save {message : OutboxMessage ι} (hmem : row ∈ (table.save message).rows) :
    row ∈ table.rows ∨ message.id ∉ table.rows.map (·.id) ∧ row.id = message.id ∧
      row.publishedAt = none ∧ row.retryCount = 0 ∧ row.claimedAt = none := by
  rw [save] at hmem
  split at hmem
  · exact .inl hmem
  · rename_i hnew
    rw [mem_append, mem_singleton] at hmem
    rcases hmem with hold | rfl
    · exact .inl hold
    · exact .inr ⟨hnew, rfl, rfl, rfl, rfl⟩

theorem mem_ids_save {id : ι} (message : OutboxMessage ι) (hmem : id ∈ table.rows.map (·.id)) :
    id ∈ (table.save message).rows.map (·.id) := by
  rw [save]
  split
  · exact hmem
  · rw [map_append]
    exact mem_append_left _ hmem

/-- What the subquery may select: rows that are pending and not locked by
somebody else, as many as the limit allows, and none before an older one. A
negative limit is none. -/
def Selects (table : OutboxTable ι) (pending : OutboxMessage ι → Bool) (limit : Int)
    (selected : List ι) : Prop :=
  selected.Nodup ∧
    (∀ id ∈ selected, ∃ row ∈ table.rows, row.id = id ∧ pending row = true) ∧
    (selected.length : Int) =
      (if 0 ≤ limit then min limit (table.rows.countP pending) else table.rows.countP pending) ∧
    ∀ row ∈ table.rows, pending row = true → row.id ∉ selected →
      ∀ older ∈ table.rows, older.id ∈ selected → older.createdAt ≤ row.createdAt

instance (table : OutboxTable ι) (pending : OutboxMessage ι → Bool) (limit : Int)
    (selected : List ι) : Decidable (table.Selects pending limit selected) :=
  inferInstanceAs (Decidable (_ ∧ _ ∧ _ ∧ _))

omit [DecidableEq ι] in
/-- The subquery sorts the pending rows by `created_at`, those of one time in any
order, and cuts them at the limit. -/
theorem selects_of_sorted {pending : OutboxMessage ι → Bool} {limit : Int} {selected : List ι}
    {sorted : List (OutboxMessage ι)} (hrows : sorted.Perm (table.rows.filter pending))
    (horder : sorted.Pairwise fun row later => row.createdAt ≤ later.createdAt)
    (hselected : selected.Perm ((limited limit sorted).map (·.id))) :
    table.Selects pending limit selected := by
  obtain ⟨rest, hsplit⟩ := limited_prefix limit sorted
  have hmem : ∀ row, row ∈ sorted ↔ row ∈ table.rows ∧ pending row = true := by
    intro row
    rw [hrows.mem_iff, mem_filter]
  refine ⟨?_, ?_, ?_, ?_⟩
  · have hids : (sorted.map (·.id)).Nodup := by
      rw [(hrows.map _).nodup_iff]
      exact table.ids_nodup.sublist (filter_sublist.map _)
    rw [← hsplit, map_append] at hids
    exact hselected.nodup_iff.mpr hids.of_append_left
  · intro id hid
    obtain ⟨row, hrow, rfl⟩ := mem_map.mp (hselected.mem_iff.mp hid)
    obtain ⟨hstored, hpending⟩ := (hmem row).mp (hsplit ▸ mem_append_left _ hrow)
    exact ⟨row, hstored, rfl, hpending⟩
  · rw [hselected.length_eq, length_map, length_limited, hrows.length_eq, countP_eq_length_filter]
  · intro row hrow hpending hleft older holder hchosen
    have hin := (hmem row).mpr ⟨hrow, hpending⟩
    obtain ⟨first, hfirst, hid⟩ := mem_map.mp (hselected.mem_iff.mp hchosen)
    have hstored := ((hmem first).mp (hsplit ▸ mem_append_left _ hfirst)).1
    cases inj_on_of_nodup_map table.ids_nodup hstored holder hid
    rw [← hsplit] at hin horder
    rcases mem_append.mp hin with hlimited | hrest
    · exact absurd (hselected.mem_iff.mpr (mem_map_of_mem hlimited)) hleft
    · exact (pairwise_append.mp horder).2.2 _ hfirst row hrest

/-- The `UPDATE` of `fetch_pending`. -/
def claim (table : OutboxTable ι) (now : Int) (selected : List ι) : OutboxTable ι :=
  table.update (fun row => decide (row.id ∈ selected))
    (fun row => { row with claimedAt := some now }) fun _ => rfl

/-- The rows that `RETURNING` gives back, in the order of the database. -/
def returning (table : OutboxTable ι) (selected : List ι) : List (OutboxMessage ι) :=
  selected.filterMap fun id => table.rows.find? fun row => row.id == id

def markPublished (table : OutboxTable ι) (now : Int) (messageId : ι) : OutboxTable ι :=
  table.update (fun row => decide (row.id = messageId))
    (fun row => { row with publishedAt := some now }) fun _ => rfl

def incrementRetry (table : OutboxTable ι) (messageId : ι) : OutboxTable ι :=
  table.update (fun row => decide (row.id = messageId))
    (fun row => { row with retryCount := row.retryCount + 1 }) fun _ => rfl

variable {selected : List ι}

theorem mem_claim {now : Int} (hmem : row ∈ (table.claim now selected).rows) :
    ∃ before ∈ table.rows, before.id = row.id ∧ row.publishedAt = before.publishedAt ∧
      row.retryCount = before.retryCount ∧
      (row.id ∈ selected ∧ row.claimedAt = some now ∨
        row.id ∉ selected ∧ row.claimedAt = before.claimedAt) := by
  obtain ⟨before, hbefore, hid, hrow⟩ := mem_update hmem
  refine ⟨before, hbefore, hid, ?_⟩
  rcases hrow with ⟨hselected, rfl⟩ | ⟨hother, rfl⟩
  · exact ⟨rfl, rfl, .inl ⟨decide_eq_true_eq.mp hselected, rfl⟩⟩
  · exact ⟨rfl, rfl, .inr ⟨decide_eq_false_iff_not.mp hother, rfl⟩⟩

theorem mem_returning {message : OutboxMessage ι} (hmem : message ∈ table.returning selected) :
    message ∈ table.rows ∧ message.id ∈ selected := by
  obtain ⟨_, _, hfound⟩ := mem_filterMap.mp hmem
  refine ⟨mem_of_find?_eq_some hfound, ?_⟩
  have hsame := find?_some hfound
  rw [beq_iff_eq] at hsame
  rwa [hsame]

theorem returning_ids (hrows : ∀ id ∈ selected, ∃ row ∈ table.rows, row.id = id) :
    (table.returning selected).map (·.id) = selected := by
  rw [returning, map_filterMap]
  refine (filterMap_congr fun id hid => ?_).trans filterMap_some
  obtain ⟨row, hrow, rfl⟩ := hrows id hid
  cases hfound : table.rows.find? fun other => other.id == row.id with
  | none => exact absurd (beq_self_eq_true row.id) (find?_eq_none.mp hfound row hrow)
  | some =>
    have hsame := find?_some hfound
    rw [Option.map_some, beq_iff_eq.mp hsame]

theorem returning_nodup (table : OutboxTable ι) (hnodup : selected.Nodup) :
    ((table.returning selected).map (·.id)).Nodup := by
  have hsub : ((table.returning selected).map (·.id)).Sublist selected := by
    rw [returning, map_filterMap]
    induction selected with
    | nil => exact Sublist.slnil
    | cons id _ ih =>
      have hrest := ih (nodup_cons.mp hnodup).2
      rw [filterMap_cons]
      cases hfound : table.rows.find? fun row => row.id == id with
      | none => exact hrest.cons id
      | some =>
        have hsame := find?_some hfound
        rw [beq_iff_eq] at hsame
        simp only [Option.map_some, hsame]
        exact hrest.cons_cons id
  exact hnodup.sublist hsub

end OutboxTable

end Spakky.Outbox
