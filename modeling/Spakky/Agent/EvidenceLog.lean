import Spakky.Agent.Storage
import Spakky.Agent.Resume

/-!
The evidence of an execution as recovery reads it back. A log is appended
piece by piece and listed again after a restart; the plan is made from the
listing. The listing is ordered by timestamps and ids that the callers chose,
so it is the log exactly if they chose them in order.
-/

namespace Spakky.Agent

open Effect List

namespace EvidenceRepository

/-- A log appended through the repository, piece by piece. -/
def appendAll : List CapturedEvidence → Exec EvidenceTable PersistenceError Unit
  | [] => pure ()
  | evidence :: rest => do
      let _ ← append evidence
      appendAll rest

theorem appendAll_distinct {log : List CapturedEvidence} (table : EvidenceTable)
    (hdistinct : (log.map (·.id)).Nodup)
    (hfresh : ∀ evidence ∈ log, ∀ row ∈ table, row.id ≠ evidence.id) :
    appendAll log table = (.ok (), table ++ log.map .fromDomain) := by
  induction log generalizing table with
  | nil => simp [appendAll]
  | cons evidence _ ih =>
    rw [map_cons, nodup_cons] at hdistinct
    have hfirst := append_fresh (hfresh evidence (.head _))
    rw [appendAll, Exec.bind_ok _ hfirst, ih _ hdistinct.2]
    · simp
    · intro later hlater row hrow
      rcases mem_append.mp hrow with hold | hnew
      · exact hfresh later (.tail _ hlater) row hold
      · rw [mem_singleton.mp hnew]
        intro hid
        apply hdistinct.1
        exact hid ▸ mem_map_of_mem hlater

end EvidenceRepository

/-- What is left of a piece of evidence once it is stored. -/
def CapturedEvidence.stored (evidence : CapturedEvidence) : CapturedEvidence :=
  { evidence with sensitiveFields := [] }

def CapturedEvidence.sortKey (evidence : CapturedEvidence) : SortKey :=
  ⟨evidence.createdAt, evidence.id⟩

/-- The part of a log that is about one execution. -/
def evidenceOf (stateId : String) (log : List CapturedEvidence) : List CapturedEvidence :=
  log.filter (·.agentStateId == stateId)

/-- Once a log has been appended, listing it gives it in append order, and
planning from the listing is planning from the log. -/
def RecoversInAppendOrder (dialect : Dialect) (stateId : String) (log : List CapturedEvidence) :
    Prop :=
  ∃ table listed,
    EvidenceRepository.appendAll log [] = (.ok (), table) ∧
    EvidenceRepository.listByState dialect stateId table = (.ok listed, table) ∧
    listed = (evidenceOf stateId log).map (·.stored) ∧
    ∀ state signals,
      planAgentResume state (listed.map (·.toAgentEvidence)) signals =
        planAgentResume state ((evidenceOf stateId log).map (·.toAgentEvidence)) signals

/-- Timestamps and ids were given out in the order of the appends. -/
def AppendedInKeyOrder (dialect : Dialect) (stateId : String) (log : List CapturedEvidence) :
    Prop :=
  (evidenceOf stateId log).Pairwise fun a b => dialect.precedes a.sortKey b.sortKey = true

section

variable (dialect : Dialect) (stateId : String) (log : List CapturedEvidence)

theorem rows_of_state :
    (log.map AgentEvidenceRow.fromDomain).filter (·.agentStateId == stateId) =
      (evidenceOf stateId log).map .fromDomain := by
  rw [filter_map]
  rfl

theorem appendedInKeyOrder_iff : AppendedInKeyOrder dialect stateId log ↔
      dialect.select AgentEvidenceRow.sortKey (·.agentStateId == stateId)
          (log.map .fromDomain) = (evidenceOf stateId log).map .fromDomain := by
  rw [← rows_of_state, dialect.select_eq_filter_iff, rows_of_state, pairwise_map]
  rfl

/-- A row and what is read back from it determine each other. -/
theorem map_stored_inj {rows : EvidenceTable} {log : List CapturedEvidence}
    (hsame : rows.map (·.toDomain) = log.map (·.stored)) : rows = log.map .fromDomain := by
  have hback : ∀ row : AgentEvidenceRow, AgentEvidenceRow.fromDomain row.toDomain = row :=
    fun _ => rfl
  have hstored : ∀ evidence : CapturedEvidence,
      AgentEvidenceRow.fromDomain evidence.stored = .fromDomain evidence := fun _ => rfl
  have hrows := congrArg (map AgentEvidenceRow.fromDomain) hsame
  simpa only [map_map, Function.comp_def, hback, hstored, map_id_fun', id] using hrows

theorem listByState_appended {log : List CapturedEvidence} (hdistinct : (log.map (·.id)).Nodup) :
    EvidenceRepository.appendAll log [] = (.ok (), log.map .fromDomain) ∧
      EvidenceRepository.listByState dialect stateId (log.map .fromDomain) =
        (.ok ((dialect.select AgentEvidenceRow.sortKey (·.agentStateId == stateId)
          (log.map .fromDomain)).map (·.toDomain)), log.map .fromDomain) := by
  constructor
  · have happ := EvidenceRepository.appendAll_distinct [] hdistinct (by simp)
    simpa using happ
  · rfl

end

/-- Recovery sees a log in the order in which it was appended exactly if its
timestamps and ids increase along it. -/
theorem recovers_in_append_order_iff (dialect : Dialect) (stateId : String)
    (log : List CapturedEvidence) (hdistinct : (log.map (·.id)).Nodup) :
    RecoversInAppendOrder dialect stateId log ↔ AppendedInKeyOrder dialect stateId log := by
  obtain ⟨happended, hlisted⟩ := listByState_appended dialect stateId hdistinct
  rw [appendedInKeyOrder_iff]
  constructor
  · rintro ⟨_, _, hrun, hlist, hsame, _⟩
    rw [happended] at hrun
    cases hrun
    cases hlist
    exact map_stored_inj hsame
  · intro hsorted
    refine ⟨_, _, happended, hlisted, ?_, ?_⟩
    · rw [hsorted, map_map]
      rfl
    · intro state signals
      rw [hsorted, map_map, map_map]
      rfl

theorem charge_nonBlank : isBlank "charge" = false := by decide

def boundaryEvidence (id : String) (createdAt : Option Nat) (stage : AgentActionBoundaryStage) :
    CapturedEvidence where
  toAgentEvidence := (toolCheckpoint "charge" stage .nonIdempotent charge_nonBlank).toEvidence id
  agentStateId := "state-1"
  createdAt := createdAt

/-- A charge, begun and completed, with no timestamps and ids that do not
follow the appends. -/
def completedCharge : List CapturedEvidence :=
  [boundaryEvidence "evidence-b" none .before, boundaryEvidence "evidence-a" none .after]

theorem recovers_in_append_order_iff_timed :
    RecoversInAppendOrder .sqlite "state-1"
      [boundaryEvidence "evidence-b" (some 1) .before,
        boundaryEvidence "evidence-a" (some 2) .after] :=
  (recovers_in_append_order_iff .sqlite "state-1" _ (by decide)).mpr
    (by simp only [AppendedInKeyOrder]; decide)

/-- The completed charge comes back as one that was only begun: the plan asks
for a human where the log itself says to go on. -/
theorem completed_charge_reads_as_begun :
    (completedCharge.map (·.id)).Nodup ∧
      ¬ RecoversInAppendOrder .sqlite "state-1" completedCharge ∧
      ∃ listed planned intended,
        EvidenceRepository.listByState .sqlite "state-1" (completedCharge.map .fromDomain) =
          (.ok listed, completedCharge.map .fromDomain) ∧
        planAgentResume restartedState (listed.map (·.toAgentEvidence)) = .ok planned ∧
        planned.action = .requireHitl ∧
        planAgentResume restartedState (completedCharge.map (·.toAgentEvidence)) = .ok intended ∧
        intended.action = .skipCompleted := by
  have hdistinct : (completedCharge.map (·.id)).Nodup := by decide
  obtain ⟨happended, hlisted⟩ := listByState_appended .sqlite "state-1" hdistinct
  refine ⟨hdistinct, ?_, _, _, _, hlisted, rfl, rfl, rfl, rfl⟩
  rintro ⟨_, _, hrun, hlist, hsame, _⟩
  rw [happended] at hrun
  cases hrun
  cases hlist
  have hids := congrArg (map fun evidence : CapturedEvidence => evidence.id) hsame
  revert hids
  decide

end Spakky.Agent
