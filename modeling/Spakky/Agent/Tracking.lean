import Spakky.Agent.Redaction

/-!
To say that a character is emitted raw, a session is run on symbols that
remember the place of a character in the streamed text; replacements have no
place. The patterns see only the characters, so that a session does the same
with and without places.
-/

namespace Spakky.Agent

open Effect Exec Scan List Function

section Places

/-- A character and the place in the streamed text it came from, if it was not
put in by a replacement. -/
structure Symbol where
  char : Char
  origin : Option Nat
  deriving DecidableEq, Repr

def locate (offset : Nat) (text : List Char) : List Symbol :=
  (text.zipIdx offset).map fun entry => ⟨entry.1, some entry.2⟩

def locateChunks : Nat → List (List Char) → List (List Symbol)
  | _, [] => []
  | offset, chunk :: chunks => locate offset chunk :: locateChunks (offset + chunk.length) chunks

variable (offset : Nat)

theorem locate_char (text : List Char) : (locate offset text).map Symbol.char = text := by
  simp [locate, comp_def]

theorem locateChunks_char (chunks : List (List Char)) :
    (locateChunks offset chunks).map (List.map Symbol.char) = chunks := by
  induction chunks generalizing offset with
  | nil => rfl
  | cons _ _ ih => rw [locateChunks, map_cons, locate_char, ih]

theorem locateChunks_flatten (chunks : List (List Char)) :
    (locateChunks offset chunks).flatten = locate offset chunks.flatten := by
  induction chunks generalizing offset with
  | nil => rfl
  | cons _ _ ih =>
    rw [locateChunks, flatten_cons, flatten_cons, ih, locate, locate, locate,
      zipIdx_append, map_append, Nat.add_comm]

theorem origin_locate {text : List Char} {k : Nat} {symbol : Symbol}
    (hsymbol : (locate 0 text)[k]? = some symbol) : symbol.origin = some k := by
  rw [locate, getElem?_map, getElem?_zipIdx] at hsymbol
  obtain ⟨_, hentry, rfl⟩ := Option.map_eq_some_iff.mp hsymbol
  obtain ⟨_, _, rfl⟩ := Option.map_eq_some_iff.mp hentry
  simp

/-- The same pattern on symbols: it looks at the characters only, and what it
puts in comes from no place. -/
def StreamingSensitivePattern.tracked (pattern : StreamingSensitivePattern Char) :
    StreamingSensitivePattern Symbol where
  name := pattern.name
  matchAt before rest mustAdvance :=
    (pattern.matchAt (before.map Symbol.char) (rest.map Symbol.char) mustAdvance).map
      (Hit.map fun c => ⟨c, none⟩)
  metadata := pattern.metadata
  name_nonblank := pattern.name_nonblank

def StreamingRedactionPolicy.tracked (policy : StreamingRedactionPolicy Char) :
    StreamingRedactionPolicy Symbol where
  patterns := policy.patterns.map StreamingSensitivePattern.tracked
  bufferSize := policy.bufferSize
  emitChunkSize := policy.emitChunkSize
  failureMode := policy.failureMode
  bufferSize_pos := policy.bufferSize_pos
  emitChunkSize_pos := policy.emitChunkSize_pos
  patterns_ne := by simpa using policy.patterns_ne

theorem tracked_agrees (pattern : StreamingSensitivePattern Char) :
    Agrees Symbol.char pattern.tracked.matchAt pattern.matchAt := by
  intro before rest mustAdvance
  unfold StreamingSensitivePattern.tracked
  rw [Option.map_map]
  have hsame : Hit.map Symbol.char ∘ Hit.map (fun c => ⟨c, none⟩) = id := by
    funext hit
    simp [Hit.map, comp_def]
  rw [hsame, Option.map_id_fun, id_eq]

end Places

namespace StreamingRedactionSession

section Erasure

variable (policy : StreamingRedactionPolicy Char)

def erase (s : StreamingRedactionSession Symbol) : StreamingRedactionSession Char where
  buffer := s.buffer.map Symbol.char
  originalChunks := s.originalChunks.map (List.map Symbol.char)
  emittedChunks := s.emittedChunks.map (List.map Symbol.char)
  redactedCount := s.redactedCount
  closed := s.closed

def eraseResult (result : StreamingRedactionResult Symbol) : StreamingRedactionResult Char where
  chunks := result.chunks.map (List.map Symbol.char)
  audit := result.audit
  error := result.error

variable (pattern : StreamingSensitivePattern Char) (value : List Symbol)

theorem redact_erase :
    pattern.redact (value.map Symbol.char) =
      ((pattern.tracked.redact value).1.map Symbol.char, (pattern.tracked.redact value).2) := by
  have hagr := tracked_agrees pattern
  have hhit : Segment.isHit ∘ Segment.map Symbol.char = Segment.isHit := by
    funext seg
    cases seg <;> rfl
  unfold StreamingSensitivePattern.redact
  rw [substitute_map hagr, segments_map hagr, countP_map, hhit]

variable (patterns : List (StreamingSensitivePattern Char))

theorem redacted_erase (value : List Symbol) :
    redacted patterns (value.map Symbol.char) =
      (redacted (patterns.map StreamingSensitivePattern.tracked) value).map Symbol.char := by
  induction patterns generalizing value with
  | nil => rfl
  | cons pattern _ ih =>
    have hrest := ih (pattern.tracked.redact value).1
    unfold redacted at hrest ⊢
    rw [map_cons, foldl_cons, foldl_cons, redact_erase, hrest]

theorem replacements_erase (value : List Symbol) :
    replacements patterns (value.map Symbol.char) =
      replacements (patterns.map StreamingSensitivePattern.tracked) value := by
  induction patterns generalizing value with
  | nil => rfl
  | cons _ _ ih =>
    rw [map_cons, replacements, replacements, redact_erase, ih]

theorem findMatches_erase :
    pattern.findMatches (value.map Symbol.char) = pattern.tracked.findMatches value := by
  unfold StreamingSensitivePattern.findMatches
  rw [spans_map (tracked_agrees pattern)]
  rfl

theorem missedMatches_erase :
    missedMatches policy (value.map Symbol.char) = missedMatches policy.tracked value := by
  unfold missedMatches StreamingRedactionPolicy.tracked
  rw [flatMap_map]
  simp only [findMatches_erase]

theorem cut_erase (text : List Symbol) :
    cut policy (text.map Symbol.char) = cut policy.tracked text := by
  unfold cut
  rw [length_map]
  rfl

theorem splitForEmit_erase :
    splitForEmit policy (value.map Symbol.char) =
      (splitForEmit policy.tracked value).map (List.map Symbol.char) := by
  unfold splitForEmit
  rw [isEmpty_map]
  cases value.isEmpty with
  | true => rfl
  | false =>
    have hsize : policy.tracked.emitChunkSize = policy.emitChunkSize := rfl
    rw [hsize]
    cases policy.emitChunkSize with
    | none => rfl
    | some => simp [map_drop, map_take, comp_def]

variable (s : StreamingRedactionSession Symbol)

theorem audit_erase : audit policy s.erase = audit policy.tracked s := by
  have hflatten : ∀ chunks : List (List Symbol),
      (chunks.map (.map Symbol.char)).flatten = chunks.flatten.map Symbol.char := by
    intro chunks
    rw [map_flatten]
  unfold audit erase
  simp only [hflatten, missedMatches_erase, findMatches_erase, length_map]
  simp [StreamingRedactionPolicy.tracked, comp_def]

theorem push_erase (chunk : List Symbol) (s : StreamingRedactionSession Symbol) :
    push policy (chunk.map Symbol.char) s.erase =
      ((push policy.tracked chunk s).1.map eraseResult, (push policy.tracked chunk s).2.erase) := by
  cases hclosed : s.closed with
  | true => simp [push, ensureOpen, bind_run, hclosed, erase, Except.map]
  | false =>
    cases chunk with
    | nil => rw [map_nil, push_nil policy hclosed, push_nil policy.tracked hclosed]; rfl
    | cons a chunk =>
      have hchars : (a :: chunk).map Symbol.char ≠ [] := by simp
      have hbuffer : s.erase.buffer ++ (a :: chunk).map Symbol.char =
          (s.buffer ++ a :: chunk).map Symbol.char := by simp [erase]
      have hpats : policy.patterns.map StreamingSensitivePattern.tracked =
          policy.tracked.patterns := rfl
      rw [push_run policy.tracked hclosed (cons_ne_nil a chunk),
        push_run policy (s := s.erase) hclosed hchars, hbuffer, redacted_erase,
        replacements_erase, cut_erase, ← map_take, splitForEmit_erase, hpats]
      simp [erase, eraseResult, Except.map, map_drop]

theorem flushed_erase : flushed policy s.erase = (flushed policy.tracked s).erase := by
  have hbuffer : s.erase.buffer = s.buffer.map Symbol.char := rfl
  unfold flushed
  rw [hbuffer, redacted_erase, replacements_erase, splitForEmit_erase]
  simp [erase, StreamingRedactionPolicy.tracked]

theorem conclude_erase (audit : StreamingRedactionAudit) (chunks : List (List Symbol))
    (s : StreamingRedactionSession Symbol) :
    conclude policy audit (chunks.map (List.map Symbol.char)) s.erase =
      ((conclude policy.tracked audit chunks s).1.map eraseResult,
        (conclude policy.tracked audit chunks s).2.erase) := by
  have hmode : policy.tracked.failureMode = policy.failureMode := rfl
  unfold conclude
  cases audit.status with
  | passed => rfl
  | failed =>
    rw [hmode]
    cases policy.failureMode <;> rfl

theorem finish_erase :
    finish policy s.erase =
      ((finish policy.tracked s).1.map eraseResult, (finish policy.tracked s).2.erase) := by
  cases hclosed : s.closed with
  | true => simp [finish, ensureOpen, bind_run, hclosed, erase, Except.map]
  | false =>
    have hbuffer : s.erase.buffer = s.buffer.map Symbol.char := rfl
    rw [finish_run policy.tracked hclosed, finish_run policy (s := s.erase) hclosed,
      flushed_erase, audit_erase, hbuffer, redacted_erase, splitForEmit_erase, conclude_erase]
    rfl

/-- A session does the same on symbols as on their characters. -/
theorem stream_erase (chunks : List (List Symbol)) (s : StreamingRedactionSession Symbol) :
    stream policy (chunks.map (List.map Symbol.char)) s.erase =
      ((stream policy.tracked chunks s).1.map (List.map (List.map Symbol.char)),
        (stream policy.tracked chunks s).2.erase) := by
  induction chunks generalizing s with
  | nil =>
    rw [map_nil, stream, stream, bind_run, bind_run, finish_erase]
    cases hrun : finish policy.tracked s using exec_cases <;> rfl
  | cons chunk chunks ih =>
    rw [map_cons, stream, stream, bind_run, bind_run, push_erase]
    cases hpush : push policy.tracked chunk s using exec_cases with
    | error => rfl
    | ok _ t =>
      simp only [Except.map, bind_run, ih]
      cases hrest : stream policy.tracked chunks t using exec_cases with
      | error => rfl
      | ok => simp [eraseResult]

end Erasure

end StreamingRedactionSession

end Spakky.Agent
