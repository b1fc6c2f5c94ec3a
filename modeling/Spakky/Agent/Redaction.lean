import Mathlib.Algebra.GroupWithZero.Nat
import Spakky.Effect
import Spakky.Scan
import Spakky.Agent.Types

/-!
`StreamingRedactionSession`: a text arrives in chunks, every push redacts what
is buffered and gives away all but the last `buffer_size` characters, and
`finish` redacts and gives away the rest and audits what was emitted.

A compiled regular expression is represented by the match it finds at a place
of a text, together with the expansion of the replacement for that match;
`re.subn` and `re.finditer` are scans with it. Everything is generic in the
alphabet. A Python string is a list of characters, and a second alphabet will
carry the place in the text a character came from.
-/

namespace Spakky.Agent

open Effect Exec Scan

inductive StreamingGuardFailureMode where
  | raise
  | emitError
  deriving DecidableEq, Repr

inductive StreamingRedactionAuditStatus where
  | passed
  | failed
  deriving DecidableEq, Repr

def StreamingRedactionAuditStatus.value : StreamingRedactionAuditStatus → String
  | .passed => "passed"
  | .failed => "failed"

structure StreamingRedactionMatch where
  patternName : String
  start : Nat
  stop : Nat
  metadata : JsonObject := []

/-- Serialize a match without the sensitive value itself. -/
def StreamingRedactionMatch.toPayload (found : StreamingRedactionMatch) : JsonObject :=
  [("pattern_name", .string found.patternName), ("start", .integer found.start),
    ("end", .integer found.stop)] ++
    if found.metadata.isEmpty then [] else [("metadata", .object found.metadata)]

/-- A pattern with a checked name and a compiled expression. -/
structure StreamingSensitivePattern (α : Type) where
  name : String
  matchAt : Matcher α
  metadata : JsonObject := []
  name_nonblank : isBlank name = false := by decide

variable {α : Type}

/-- The redacted text and the number of replacements applied. -/
def StreamingSensitivePattern.redact (pattern : StreamingSensitivePattern α)
    (value : List α) : List α × Nat :=
  (substitute pattern.matchAt value, (segments pattern.matchAt value).countP Segment.isHit)

def StreamingSensitivePattern.findMatches (pattern : StreamingSensitivePattern α)
    (value : List α) : List StreamingRedactionMatch :=
  (spans pattern.matchAt value).map fun span =>
    { patternName := pattern.name, start := span.1, stop := span.2, metadata := pattern.metadata }

/-- A policy that has passed its checks. -/
structure StreamingRedactionPolicy (α : Type) where
  patterns : List (StreamingSensitivePattern α)
  bufferSize : Nat
  emitChunkSize : Option Nat
  failureMode : StreamingGuardFailureMode
  bufferSize_pos : 0 < bufferSize
  emitChunkSize_pos : ∀ size, emitChunkSize = some size → 0 < size
  patterns_ne : patterns ≠ []

/-- Reject policies that would make the guard unbounded or silent. -/
def StreamingRedactionPolicy.create (patterns : List (StreamingSensitivePattern α))
    (bufferSize : Int := 64) (emitChunkSize : Option Int := none)
    (failureMode : StreamingGuardFailureMode := .raise) :
    Except AgentError (StreamingRedactionPolicy α) :=
  if hbuffer : bufferSize ≤ 0 then
    .error (.agentDefinitionError "Streaming redaction buffer size must be positive")
  else if hchunk : ∃ size ∈ emitChunkSize, size ≤ 0 then
    .error (.agentDefinitionError "Streaming redaction emit chunk size must be positive")
  else if hpats : patterns = [] then
    .error (.agentDefinitionError "Streaming redaction patterns cannot be empty")
  else
    .ok {
      patterns
      bufferSize := bufferSize.toNat
      emitChunkSize := emitChunkSize.map Int.toNat
      failureMode
      bufferSize_pos := by omega
      emitChunkSize_pos := by
        intro size hsize
        obtain ⟨raw, hraw, rfl⟩ := Option.map_eq_some_iff.mp hsize
        have hpos : ¬ raw ≤ 0 := fun hle => hchunk ⟨raw, hraw, hle⟩
        omega
      patterns_ne := hpats }

/-- Every policy is one that the checks let through. -/
theorem StreamingRedactionPolicy.create_self (policy : StreamingRedactionPolicy α) :
    create policy.patterns policy.bufferSize (policy.emitChunkSize.map Int.ofNat)
      policy.failureMode = .ok policy := by
  obtain ⟨patterns, bufferSize, chunk, mode, hbuffer, hchunk, hpats⟩ := policy
  cases chunk with
  | none => simp [create, hpats, hbuffer.ne']
  | some size => simp [create, hpats, hbuffer.ne', (hchunk size rfl).ne']

structure StreamingRedactionAudit where
  status : StreamingRedactionAuditStatus
  detectedCount : Nat
  redactedCount : Nat
  missedMatches : List StreamingRedactionMatch
  bufferSize : Nat
  emittedCharCount : Nat
  originalCharCount : Nat

/-- Serialize audit evidence without raw streamed content. -/
def StreamingRedactionAudit.toEvidencePayload (audit : StreamingRedactionAudit) : JsonObject :=
  [("kind", .string "streaming_redaction_audit"), ("status", .string audit.status.value),
    ("detected_count", .integer audit.detectedCount),
    ("redacted_count", .integer audit.redactedCount),
    ("missed_count", .integer audit.missedMatches.length),
    ("missed_matches", .array (audit.missedMatches.map fun found => .object found.toPayload)),
    ("buffer_size", .integer audit.bufferSize),
    ("emitted_char_count", .integer audit.emittedCharCount),
    ("original_char_count", .integer audit.originalCharCount)]

def StreamingRedactionAudit.toErrorPayload (audit : StreamingRedactionAudit) : JsonObject :=
  [("code", .string "streaming_redaction_audit_failed"),
    ("message", .string "Streaming redaction final audit detected unmasked candidates"),
    ("retryable", .boolean false), ("metadata", .object audit.toEvidencePayload)]

structure StreamingRedactionResult (α : Type) where
  chunks : List (List α)
  audit : Option StreamingRedactionAudit := none
  error : Option JsonObject := none

structure StreamingRedactionSession (α : Type) where
  buffer : List α := []
  originalChunks : List (List α) := []
  emittedChunks : List (List α) := []
  redactedCount : Nat := 0
  closed : Bool := false

namespace StreamingRedactionSession

abbrev M (α β : Type) := Exec (StreamingRedactionSession α) AgentError β

def ensureOpen : M α Unit := do
  if ← reads (·.closed) then
    raise (.agentOutputGuardError "Streaming redaction session is already closed")

/-- The loop of `_redact_text` over the patterns. -/
def redactText : List (StreamingSensitivePattern α) → List α → M α (List α)
  | [], value => pure value
  | pattern :: patterns, value => do
      modify fun s => { s with redactedCount := s.redactedCount + (pattern.redact value).2 }
      redactText patterns (pattern.redact value).1

section Session

variable (policy : StreamingRedactionPolicy α)

/-- The slices at the multiples of the chunk size. -/
def splitForEmit (value : List α) : List (List α) :=
  if value.isEmpty then [] else
    match policy.emitChunkSize with
    | none => [value]
    | some size =>
      (List.range ((value.length + size - 1) / size)).map fun index =>
        (value.drop (index * size)).take size

def emitSafePrefix : M α (List (List α)) := do
  let buffer ← reads (·.buffer)
  let emitLength := buffer.length - policy.bufferSize
  if emitLength = 0 then
    pure []
  else
    let chunks := splitForEmit policy (buffer.take emitLength)
    modify fun s => { s with
      buffer := buffer.drop emitLength
      emittedChunks := s.emittedChunks ++ chunks }
    pure chunks

/-- Redact one token chunk and emit only the safe bounded part. -/
def push (chunk : List α) : M α (StreamingRedactionResult α) := do
  ensureOpen
  if chunk.isEmpty then
    pure { chunks := [] }
  else
    modify fun s => { s with originalChunks := s.originalChunks ++ [chunk] }
    let buffer ← reads (·.buffer)
    let redacted ← redactText policy.patterns (buffer ++ chunk)
    modify fun s => { s with buffer := redacted }
    let chunks ← emitSafePrefix policy
    pure { chunks }

/-- What the patterns still find in an emitted text. -/
def missedMatches (emitted : List α) : List StreamingRedactionMatch :=
  policy.patterns.flatMap fun pattern => pattern.findMatches emitted

def audit (s : StreamingRedactionSession α) : StreamingRedactionAudit :=
  let original := s.originalChunks.flatten
  let emitted := s.emittedChunks.flatten
  let missed := missedMatches policy emitted
  { status := if missed.isEmpty then .passed else .failed
    detectedCount := (policy.patterns.map fun pattern =>
      (pattern.findMatches original).length).sum
    redactedCount := s.redactedCount
    missedMatches := missed
    bufferSize := policy.bufferSize
    emittedCharCount := emitted.length
    originalCharCount := original.length }

/-- The end of `finish`: return the last chunks, unless the audit failed and
the policy says to raise. -/
def conclude (audit : StreamingRedactionAudit) (chunks : List (List α)) :
    M α (StreamingRedactionResult α) :=
  match audit.status with
  | .passed => pure { chunks, audit := some audit }
  | .failed =>
    match policy.failureMode with
    | .raise =>
      raise (.agentOutputGuardError
        "Streaming redaction final audit detected unmasked candidates")
    | .emitError => pure { chunks, audit := some audit, error := some audit.toErrorPayload }

/-- Flush the remaining buffer and run the mandatory final audit. -/
def finish : M α (StreamingRedactionResult α) := do
  ensureOpen
  modify fun s => { s with closed := true }
  let buffer ← reads (·.buffer)
  let redactedBuffer ← redactText policy.patterns buffer
  let chunks := splitForEmit policy redactedBuffer
  modify fun s => { s with buffer := [], emittedChunks := s.emittedChunks ++ chunks }
  let audit ← reads (audit policy)
  conclude policy audit chunks

/-- Push every chunk and finish, collecting the chunks that come back. -/
def stream : List (List α) → M α (List (List α))
  | [] => do
      let result ← finish policy
      pure result.chunks
  | chunk :: rest => do
      let result ← push policy chunk
      let later ← stream rest
      pure (result.chunks ++ later)

/-- The text a consumer of a whole session receives. -/
def streamed (chunks : List (List α)) : Except AgentError (List α) :=
  (stream policy chunks {}).1.map List.flatten

/-- The text a whole session emits, also if the final audit raises. -/
def emitted (chunks : List (List α)) : List α := (stream policy chunks {}).2.emittedChunks.flatten

end Session

/-- What `_redact_text` returns. -/
def redacted (patterns : List (StreamingSensitivePattern α)) (value : List α) : List α :=
  patterns.foldl (fun text pattern => (pattern.redact text).1) value

/-- How many replacements `_redact_text` counts. -/
def replacements : List (StreamingSensitivePattern α) → List α → Nat
  | [], _ => 0
  | pattern :: patterns, value =>
    (pattern.redact value).2 + replacements patterns (pattern.redact value).1

theorem redactText_run (patterns : List (StreamingSensitivePattern α)) (value : List α)
    (s : StreamingRedactionSession α) :
    redactText patterns value s = (.ok (redacted patterns value),
      { s with redactedCount := s.redactedCount + replacements patterns value }) := by
  induction patterns generalizing value s with
  | nil => rfl
  | cons _ _ ih =>
    rw [redactText, modify_bind_run, ih]
    simp [redacted, replacements, Nat.add_assoc]

section Runs

variable (policy : StreamingRedactionPolicy α) {s : StreamingRedactionSession α}

theorem take_slices (value : List α) (size count : Nat) :
    ((List.range count).map fun index => (value.drop (index * size)).take size).flatten =
      value.take (count * size) := by
  induction count with
  | zero => simp
  | succ _ ih =>
    rw [List.range_succ, List.map_append, List.flatten_append, ih, Nat.succ_mul, List.take_add]
    simp

theorem splitForEmit_flatten (value : List α) : (splitForEmit policy value).flatten = value := by
  unfold splitForEmit
  cases value with
  | nil => rfl
  | cons a rest =>
    rw [if_neg (by simp)]
    cases hsize : policy.emitChunkSize with
    | none => simp
    | some size =>
      have hpos := policy.emitChunkSize_pos size hsize
      rw [take_slices]
      apply List.take_of_length_le
      have hceil := Nat.lt_div_mul_add (a := (a :: rest).length + size - 1) hpos
      omega

theorem splitForEmit_nil : splitForEmit policy ([] : List α) = [] := rfl

theorem push_nil (hopen : s.closed = false) : push policy [] s = (.ok { chunks := [] }, s) := by
  simp [push, ensureOpen, bind_run, hopen]

/-- How much of a redacted buffer is given away. -/
def cut (text : List α) : Nat := text.length - policy.bufferSize

theorem emitSafePrefix_run (s : StreamingRedactionSession α) :
    emitSafePrefix policy s =
      (.ok (splitForEmit policy (s.buffer.take (cut policy s.buffer))),
        { s with
          buffer := s.buffer.drop (cut policy s.buffer)
          emittedChunks := s.emittedChunks ++
            splitForEmit policy (s.buffer.take (cut policy s.buffer)) }) := by
  rw [emitSafePrefix, reads_bind_run, ← cut]
  by_cases hcut : cut policy s.buffer = 0
  · rw [if_pos hcut, hcut]
    simp [splitForEmit_nil]
  · rw [if_neg hcut]
    rfl

variable {policy} {chunk : List α}

variable (policy) in
theorem push_run (hopen : s.closed = false) (hchunk : chunk ≠ []) :
    let arrived := redacted policy.patterns (s.buffer ++ chunk)
    let chunks := splitForEmit policy (arrived.take (cut policy arrived))
    push policy chunk s = (.ok { chunks },
      { buffer := arrived.drop (cut policy arrived)
        originalChunks := s.originalChunks ++ [chunk]
        emittedChunks := s.emittedChunks ++ chunks
        redactedCount := s.redactedCount + replacements policy.patterns (s.buffer ++ chunk)
        closed := false }) := by
  have hempty : chunk.isEmpty = false := by simpa using hchunk
  have hensure : ensureOpen s = (.ok (), s) := by simp [ensureOpen, bind_run, hopen]
  intro arrived chunks
  rw [push, bind_ok _ hensure, hempty, if_neg (by simp), modify_bind_run, reads_bind_run,
    bind_ok _ (redactText_run _ _ _), modify_bind_run, bind_ok _ (emitSafePrefix_run policy _),
    pure_run]
  simp [arrived, chunks, hopen]

variable (policy) in
/-- What a push gives away, and what it keeps in the buffer. -/
theorem push_emits (hopen : s.closed = false) (hchunk : chunk ≠ []) :
    let arrived := redacted policy.patterns (s.buffer ++ chunk)
    ∃ result t, push policy chunk s = (.ok result, t) ∧ t.closed = false ∧
      t.buffer = arrived.drop (cut policy arrived) ∧
      result.chunks.flatten = arrived.take (cut policy arrived) ∧
      t.emittedChunks.flatten = s.emittedChunks.flatten ++ arrived.take (cut policy arrived) := by
  intro arrived
  refine ⟨_, _, push_run policy hopen hchunk, rfl, rfl, splitForEmit_flatten policy _, ?_⟩
  rw [List.flatten_append, splitForEmit_flatten]

variable (policy) in
/-- How a session ends that has emitted a text. -/
def verdict (emitted output : List α) : Except AgentError (List α) :=
  if (missedMatches policy emitted).isEmpty = false ∧ policy.failureMode = .raise then
    .error (.agentOutputGuardError
      "Streaming redaction final audit detected unmasked candidates")
  else .ok output

variable (policy s) in
/-- A session that has been finished. -/
def flushed : StreamingRedactionSession α where
  buffer := []
  originalChunks := s.originalChunks
  emittedChunks := s.emittedChunks ++ splitForEmit policy (redacted policy.patterns s.buffer)
  redactedCount := s.redactedCount + replacements policy.patterns s.buffer
  closed := true

variable (policy) in
theorem finish_run (hopen : s.closed = false) :
    finish policy s = conclude policy (audit policy (flushed policy s))
      (splitForEmit policy (redacted policy.patterns s.buffer)) (flushed policy s) := by
  have hensure : ensureOpen s = (.ok (), s) := by simp [ensureOpen, bind_run, hopen]
  rw [finish, bind_ok _ hensure, modify_bind_run, reads_bind_run,
    bind_ok _ (redactText_run _ _ _), modify_bind_run, reads_bind_run]
  rfl

theorem conclude_state (audit : StreamingRedactionAudit) (chunks : List (List α)) :
    (conclude policy audit chunks s).2 = s := by
  unfold conclude
  cases audit.status with
  | passed => rfl
  | failed => cases policy.failureMode <;> rfl

variable (policy) in
theorem finish_emits (hopen : s.closed = false) :
    let output := redacted policy.patterns s.buffer
    (finish policy s).1.map (fun result => result.chunks.flatten) =
        verdict policy (s.emittedChunks.flatten ++ output) output ∧
      (finish policy s).2.emittedChunks.flatten = s.emittedChunks.flatten ++ output := by
  intro output
  have hemitted : (flushed policy s).emittedChunks.flatten =
      s.emittedChunks.flatten ++ output := by
    rw [flushed, List.flatten_append, splitForEmit_flatten]
  have hsplit := splitForEmit_flatten policy output
  rw [finish_run policy hopen, conclude_state]
  refine ⟨?_, hemitted⟩
  unfold conclude verdict audit
  simp only [hemitted]
  cases hmissed : (missedMatches policy (s.emittedChunks.flatten ++ output)).isEmpty with
  | true => simp [Except.map, output, hsplit]
  | false => cases hmode : policy.failureMode <;> simp [Except.map, output, hsplit]

end Runs

end StreamingRedactionSession

end Spakky.Agent
