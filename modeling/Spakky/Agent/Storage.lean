import Mathlib.Data.List.Sort
import Mathlib.Data.String.Basic
import Spakky.Effect
import Spakky.Agent.Recovery
import Spakky.Agent.Sensitivity

/-!
The tables behind the SQLAlchemy repositories of signals and evidence. Both
are read back ordered by `created_at` and `id`, and nothing in a row records
when it was appended: the order in which rows come back is computed from
columns their writers chose.

A table is the list of its rows. The list is in the order of the appends, but
no query looks at that order, except through `ORDER BY`.
-/

namespace Spakky.Agent

open Effect

/-- How a database compares what a query orders by. Whether missing values
come first or last, and how texts are collated, differs between databases. -/
structure Dialect where
  nullsFirst : Bool
  collates : String → String → Bool
  collates_total : ∀ a b, (collates a b || collates b a) = true
  collates_trans : ∀ a b c, collates a b = true → collates b c = true → collates a c = true
  collates_antisymm : ∀ a b, collates a b = true → collates b a = true → a = b

/-- The columns both repositories order by. -/
structure SortKey where
  createdAt : Option Nat
  id : String
  deriving DecidableEq, Repr

namespace Dialect

variable (dialect : Dialect)

/-- `created_at` strictly before another one. -/
def earlier : Option Nat → Option Nat → Bool
  | none, none => false
  | none, some _ => dialect.nullsFirst
  | some _, none => !dialect.nullsFirst
  | some a, some b => a < b

/-- `ORDER BY created_at, id` -/
def precedes (a b : SortKey) : Bool :=
  dialect.earlier a.createdAt b.createdAt ||
    (a.createdAt == b.createdAt && dialect.collates a.id b.id)

/-- The rows that meet a condition, in the order of their keys. -/
def select {Row : Type} (key : Row → SortKey) (condition : Row → Bool) (rows : List Row) :
    List Row :=
  (rows.filter condition).insertionSort fun a b => dialect.precedes (key a) (key b) = true

theorem earlier_trans {a b c : Option Nat} (hab : dialect.earlier a b = true)
    (hbc : dialect.earlier b c = true) : dialect.earlier a c = true := by
  rcases a with _ | a <;> rcases b with _ | b <;> rcases c with _ | c <;>
    simp_all [earlier]
  omega

theorem earlier_trichotomy (a b : Option Nat) :
    dialect.earlier a b = true ∨ a = b ∨ dialect.earlier b a = true := by
  rcases a with _ | a <;> rcases b with _ | b
  · exact .inr (.inl rfl)
  · cases hnulls : dialect.nullsFirst <;> simp [earlier, hnulls]
  · cases hnulls : dialect.nullsFirst <;> simp [earlier, hnulls]
  · simp only [earlier, decide_eq_true_eq, Option.some.injEq]
    omega

theorem precedes_iff {a b : SortKey} : dialect.precedes a b = true ↔
    dialect.earlier a.createdAt b.createdAt = true ∨
      a.createdAt = b.createdAt ∧ dialect.collates a.id b.id = true := by
  simp [precedes]

theorem precedes_total (a b : SortKey) : (dialect.precedes a b || dialect.precedes b a) = true := by
  rw [Bool.or_eq_true, precedes_iff, precedes_iff]
  rcases dialect.earlier_trichotomy a.createdAt b.createdAt with hbefore | hsame | hafter
  · exact .inl (.inl hbefore)
  · have hids := dialect.collates_total a.id b.id
    rw [Bool.or_eq_true] at hids
    exact hids.imp (fun h => .inr ⟨hsame, h⟩) fun h => .inr ⟨hsame.symm, h⟩
  · exact .inr (.inl hafter)

theorem precedes_trans (a b c : SortKey) (hab : dialect.precedes a b = true)
    (hbc : dialect.precedes b c = true) : dialect.precedes a c = true := by
  rw [precedes_iff] at hab hbc ⊢
  rcases hab with hab | ⟨habTime, habId⟩
  · rcases hbc with hbc | ⟨hbcTime, _⟩
    · exact .inl (dialect.earlier_trans hab hbc)
    · exact .inl (hbcTime ▸ hab)
  · rcases hbc with hbc | ⟨hbcTime, hbcId⟩
    · exact .inl (habTime ▸ hbc)
    · exact .inr ⟨habTime.trans hbcTime, dialect.collates_trans _ _ _ habId hbcId⟩

section Select

variable {Row : Type} {key : Row → SortKey} {condition : Row → Bool} {rows : List Row}

theorem select_pairwise : (dialect.select key condition rows).Pairwise fun a b =>
    dialect.precedes (key a) (key b) = true := by
  have : Std.Total fun a b : Row => dialect.precedes (key a) (key b) = true :=
    ⟨fun a b => by simpa using dialect.precedes_total (key a) (key b)⟩
  have : IsTrans Row fun a b => dialect.precedes (key a) (key b) = true :=
    ⟨fun a b c hab hbc => dialect.precedes_trans _ _ _ hab hbc⟩
  exact List.pairwise_insertionSort _ _

/-- A query gives the rows in the order of the appends exactly if their keys
were appended in order. -/
theorem select_eq_filter_iff : dialect.select key condition rows = rows.filter condition ↔
    (rows.filter condition).Pairwise fun a b => dialect.precedes (key a) (key b) = true := by
  constructor
  · intro hsame
    rw [← hsame]
    exact dialect.select_pairwise
  · intro hsorted
    exact hsorted.insertionSort_eq

end Select

/-- Missing values come first, and texts are compared by code points. -/
def sqlite : Dialect where
  nullsFirst := true
  collates a b := decide (a ≤ b)
  collates_total a b := by simpa using le_total a b
  collates_trans a b c hab hbc := by
    simp only [decide_eq_true_eq] at hab hbc ⊢
    exact hab.trans hbc
  collates_antisymm a b hab hba := by
    simp only [decide_eq_true_eq] at hab hba
    exact le_antisymm hab hba

end Dialect

/-- The errors of the repositories. A database refuses a second row with the
same primary key. -/
inductive PersistenceError where
  | agentPersistenceRowNotFoundError (id : String)
  | integrityError (id : String)
  deriving DecidableEq, Repr

/-- A signal together with the time its sender gave it, if any. -/
structure QueuedSignal extends AgentSignal where
  createdAt : Option Nat := none

/-- A row of `spakky_agent_signal`. -/
structure AgentSignalRow extends QueuedSignal where
  consumedAt : Option Nat := none

abbrev SignalTable := List AgentSignalRow

def AgentSignalRow.fromDomain (signal : QueuedSignal) : AgentSignalRow := { signal with }

def AgentSignalRow.toDomain (row : AgentSignalRow) : QueuedSignal := row.toQueuedSignal

def QueuedSignal.sortKey (signal : QueuedSignal) : SortKey := ⟨signal.createdAt, signal.id⟩

def AgentSignalRow.isPending (row : AgentSignalRow) : Bool := row.consumedAt.isNone

namespace SignalRepository

def append (signal : QueuedSignal) : Exec SignalTable PersistenceError QueuedSignal := do
  if ← Exec.reads fun table => table.any (·.id == signal.id) then
    Exec.raise (.integrityError signal.id)
  else
    let row := AgentSignalRow.fromDomain signal
    Exec.modify (· ++ [row])
    pure row.toDomain

def pendingRows (dialect : Dialect) (stateId : String) (table : SignalTable) : SignalTable :=
  dialect.select (fun row => row.sortKey) (fun row => row.agentStateId == stateId && row.isPending)
    table

def listPending (dialect : Dialect) (stateId : String) :
    Exec SignalTable PersistenceError (List QueuedSignal) :=
  Exec.reads fun table => (pendingRows dialect stateId table).map (·.toDomain)

/-- The row with a primary key is marked, whether or not it was before. -/
def mark (signalId : String) (now : Nat) (row : AgentSignalRow) : AgentSignalRow :=
  if row.id = signalId then { row with consumedAt := some now } else row

def markConsumed (signalId : String) (now : Nat) :
    Exec SignalTable PersistenceError QueuedSignal := do
  match ← Exec.reads fun table => table.find? (·.id == signalId) with
  | none => Exec.raise (.agentPersistenceRowNotFoundError signalId)
  | some row =>
    Exec.modify fun table => table.map (mark signalId now)
    pure row.toDomain

@[simp] theorem mark_toDomain (signalId : String) (now : Nat) (row : AgentSignalRow) :
    (mark signalId now row).toDomain = row.toDomain := by
  simp only [mark, AgentSignalRow.toDomain]
  split <;> rfl

variable {signal : QueuedSignal} {table : SignalTable}

theorem append_fresh (hfresh : ∀ row ∈ table, row.id ≠ signal.id) :
    append signal table = (.ok signal, table ++ [.fromDomain signal]) := by
  have hnone : (table.any fun row => row.id == signal.id) = false := by
    simpa using hfresh
  simp [append, hnone]
  rfl

variable {row : AgentSignalRow}

theorem append_taken (hrow : row ∈ table) (hid : row.id = signal.id) :
    append signal table = (.error (.integrityError signal.id), table) := by
  have hsome : (table.any fun row => row.id == signal.id) = true := by
    rw [List.any_eq_true]
    exact ⟨row, hrow, by simp [hid]⟩
  simp [append, hsome]

theorem markConsumed_found {signalId : String} (hfound : table.find? (·.id == signalId) = some row)
    (now : Nat) :
    markConsumed signalId now table = (.ok row.toDomain, table.map (mark signalId now)) := by
  simp [markConsumed, hfound]

end SignalRepository

/-- A piece of evidence with everything its caller gives it. -/
structure CapturedEvidence extends AgentEvidence where
  agentStateId : String
  summary : Option String := none
  digest : Option String := none
  manifestRef : Option String := none
  reference : Option String := none
  sensitiveFields : List SensitiveFieldDescriptor := []
  createdAt : Option Nat := none

/-- A row of `spakky_agent_evidence`, which has no column for the sensitive
fields. -/
structure AgentEvidenceRow extends AgentEvidence where
  agentStateId : String
  summary : Option String
  digest : Option String
  manifestRef : Option String
  reference : Option String
  createdAt : Option Nat

abbrev EvidenceTable := List AgentEvidenceRow

def AgentEvidenceRow.fromDomain (evidence : CapturedEvidence) : AgentEvidenceRow :=
  { evidence with }

def AgentEvidenceRow.toDomain (row : AgentEvidenceRow) : CapturedEvidence := { row with }

def AgentEvidenceRow.sortKey (row : AgentEvidenceRow) : SortKey := ⟨row.createdAt, row.id⟩

namespace EvidenceRepository

def append (evidence : CapturedEvidence) :
    Exec EvidenceTable PersistenceError CapturedEvidence := do
  if ← Exec.reads fun table => table.any (·.id == evidence.id) then
    Exec.raise (.integrityError evidence.id)
  else
    let row := AgentEvidenceRow.fromDomain evidence
    Exec.modify (· ++ [row])
    pure row.toDomain

/-- The rows that meet a condition, as evidence again. -/
def list (dialect : Dialect) (condition : AgentEvidenceRow → Bool) :
    Exec EvidenceTable PersistenceError (List CapturedEvidence) :=
  Exec.reads fun table =>
    (dialect.select AgentEvidenceRow.sortKey condition table).map (·.toDomain)

def listByState (dialect : Dialect) (stateId : String) :
    Exec EvidenceTable PersistenceError (List CapturedEvidence) :=
  list dialect fun row => row.agentStateId == stateId

theorem append_fresh {evidence : CapturedEvidence} {table : EvidenceTable}
    (hfresh : ∀ row ∈ table, row.id ≠ evidence.id) :
    append evidence table =
      (.ok { evidence with sensitiveFields := [] }, table ++ [.fromDomain evidence]) := by
  have hnone : (table.any fun row => row.id == evidence.id) = false := by
    simpa using hfresh
  simp [append, hnone]
  rfl

end EvidenceRepository

end Spakky.Agent
