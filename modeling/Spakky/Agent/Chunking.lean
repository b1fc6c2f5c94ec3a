import Spakky.Agent.Tracking

/-!
What a streaming redaction session emits does not depend on how the text was
cut, as long as every push is safe: redacting what has arrived before the
rest is known changes nothing, and no match reaches over the cut between what
is given away and what stays in the buffer. Nothing in the code checks this,
and a match as short as the buffer does not imply it. A greedy expression
that has matched a beginning of what it would match in the whole text is
replaced too early.
-/

namespace Spakky.Agent

open Effect Exec Scan List

namespace StreamingRedactionSession

section SafeRuns

variable {α : Type} (policy : StreamingRedactionPolicy α)

/-- What arrives in one push and what is given away in it is final, whatever
the patterns find in the rest of the text. -/
structure SafePush (buffer chunk rest : List α) : Prop where
  settled :
    redacted policy.patterns (redacted policy.patterns (buffer ++ chunk) ++ rest) =
      redacted policy.patterns (buffer ++ chunk ++ rest)
  uncut :
    let arrived := redacted policy.patterns (buffer ++ chunk)
    redacted policy.patterns (arrived ++ rest) = arrived.take (cut policy arrived) ++
      redacted policy.patterns (arrived.drop (cut policy arrived) ++ rest)

/-- Every push of a run is safe. The buffer is the one before the push. -/
def SafeRun : List α → List (List α) → Prop
  | _, [] => True
  | buffer, [] :: rest => SafeRun buffer rest
  | buffer, (a :: chunk) :: rest =>
    let arrived := redacted policy.patterns (buffer ++ a :: chunk)
    SafePush policy buffer (a :: chunk) rest.flatten ∧
      SafeRun (arrived.drop (cut policy arrived)) rest

variable {policy}

theorem verdict_map (emitted output early : List α) :
    (verdict policy emitted output).map (early ++ ·) =
      verdict policy emitted (early ++ output) := by
  unfold verdict
  split <;> rfl

theorem stream_push {s t : StreamingRedactionSession α} {chunk : List α}
    {result : StreamingRedactionResult α} (hpush : push policy chunk s = (.ok result, t))
    (chunks : List (List α)) :
    (stream policy (chunk :: chunks) s).1.map List.flatten =
        ((stream policy chunks t).1.map List.flatten).map (result.chunks.flatten ++ ·) ∧
      (stream policy (chunk :: chunks) s).2 = (stream policy chunks t).2 := by
  rw [stream, bind_ok _ hpush, bind_run]
  cases hrest : stream policy chunks t using exec_cases with
  | error => exact ⟨rfl, rfl⟩
  | ok => simp [Except.map]

/-- A safe run emits the redaction of everything that was still to come. -/
theorem stream_safe {chunks : List (List α)} {s : StreamingRedactionSession α}
    (hopen : s.closed = false) (hsafe : SafeRun policy s.buffer chunks) :
    let output := redacted policy.patterns (s.buffer ++ chunks.flatten)
    (stream policy chunks s).1.map flatten =
        verdict policy (s.emittedChunks.flatten ++ output) output ∧
      (stream policy chunks s).2.emittedChunks.flatten = s.emittedChunks.flatten ++ output := by
  induction chunks generalizing s with
  | nil =>
    have hfin := finish_emits policy hopen
    rw [stream, bind_run]
    simp only [flatten_nil, append_nil]
    cases hrun : finish policy s with
    | mk outcome =>
      rw [hrun] at hfin
      cases outcome with
      | error => exact hfin
      | ok => exact hfin
  | cons chunk chunks ih =>
    cases chunk with
    | nil =>
      obtain ⟨hres, hstate⟩ := stream_push (push_nil policy hopen) chunks
      obtain ⟨hrest, hemitted⟩ := ih hopen hsafe
      rw [hres, hstate, hrest, verdict_map]
      exact ⟨rfl, hemitted⟩
    | cons a chunk =>
      obtain ⟨⟨hsettled, huncut⟩, hlater⟩ := hsafe
      obtain ⟨_, _, hpush, hstill, hbuffer, hchunks, hgiven⟩ :=
        push_emits policy hopen (cons_ne_nil a chunk)
      obtain ⟨hres, hstate⟩ := stream_push hpush chunks
      rw [← hbuffer] at hlater
      obtain ⟨hrest, hemitted⟩ := ih hstill hlater
      have hwhole := hsettled.symm.trans huncut
      rw [append_assoc, ← hbuffer, ← hchunks] at hwhole
      rw [hres, hstate, hrest, hemitted, verdict_map, hgiven, ← hchunks, append_assoc, ← hwhole]
      exact ⟨rfl, rfl⟩

end SafeRuns

end StreamingRedactionSession

section Raw

/-- A place lies in one of the spans. -/
def Inside (found : List (Nat × Nat)) (i : Nat) : Prop := ∃ span ∈ found, span.1 ≤ i ∧ i < span.2

/-- Each pattern in its turn still finds the characters that it finds in the
whole text, as far as the patterns before it have left them. -/
def Undisturbed (text : List Char) : List (StreamingSensitivePattern Char) → List Symbol → Prop
  | [], _ => True
  | pattern :: patterns, current =>
    (∀ k symbol i, current[k]? = some symbol → symbol.origin = some i →
      Inside (spans pattern.matchAt text) i → Inside (spans pattern.tracked.matchAt current) k) ∧
    Undisturbed text patterns (substitute pattern.tracked.matchAt current)

/-- A character that a pattern leaves raw stands outside of its matches. -/
theorem kept_of_substitute {pattern : StreamingSensitivePattern Char} {current : List Symbol}
    {symbol : Symbol} {i : Nat} (horigin : symbol.origin = some i)
    (hmem : symbol ∈ substitute pattern.tracked.matchAt current) :
    ∃ k, current[k]? = some symbol ∧ ¬ Inside (spans pattern.tracked.matchAt current) k := by
  rcases mem_output 0 hmem with ⟨k, hkept⟩ | ⟨_, expansion, hseg, hexpn⟩
  · refine ⟨k, ?_, ?_⟩
    · have hinput := kept_input hkept
      rwa [segments_input] at hinput
    · rintro ⟨_, hspan, _, _⟩
      have houtside := kept_outside hkept hspan
      omega
  · obtain ⟨_, _, _, _, hfound⟩ := expansion_found hseg
    obtain ⟨hit, _, hhit⟩ := Option.map_eq_some_iff.mp hfound
    have hput : expansion = hit.expansion.map fun c => ⟨c, none⟩ :=
      (congrArg Hit.expansion hhit).symm
    rw [hput] at hexpn
    obtain ⟨_, _, rfl⟩ := mem_map.mp hexpn
    cases horigin

open StreamingRedactionSession in
/-- What comes out of all patterns was never put in by one of them. -/
theorem raw_of_redacted {patterns : List (StreamingSensitivePattern Char)}
    {current : List Symbol} {symbol : Symbol} {i : Nat} (horigin : symbol.origin = some i)
    (hmem : symbol ∈ redacted (patterns.map StreamingSensitivePattern.tracked) current) :
    symbol ∈ current := by
  induction patterns generalizing current with
  | nil => exact hmem
  | cons pattern _ ih =>
    have hrest : symbol ∈ substitute pattern.tracked.matchAt current := ih hmem
    obtain ⟨_, hk, _⟩ := kept_of_substitute horigin hrest
    exact mem_of_getElem? hk

open StreamingRedactionSession in
/-- If the patterns do not disturb each other, no character of a match in the
whole text is left. -/
theorem outside_of_redacted {text : List Char} {patterns : List (StreamingSensitivePattern Char)}
    {current : List Symbol} (hundis : Undisturbed text patterns current)
    {symbol : Symbol} {i : Nat} (horigin : symbol.origin = some i)
    (hmem : symbol ∈ redacted (patterns.map StreamingSensitivePattern.tracked) current)
    {pattern : StreamingSensitivePattern Char} (hpattern : pattern ∈ patterns) :
    ¬ Inside (spans pattern.matchAt text) i := by
  induction patterns generalizing current with
  | nil => cases hpattern
  | cons _ patterns ih =>
    obtain ⟨hfinds, hrest⟩ := hundis
    rcases mem_cons.mp hpattern with rfl | hlater
    · have hlast : symbol ∈ redacted (patterns.map StreamingSensitivePattern.tracked)
          (substitute pattern.tracked.matchAt current) := hmem
      obtain ⟨k, hk, houtside⟩ := kept_of_substitute horigin (raw_of_redacted horigin hlast)
      intro hinside
      exact houtside (hfinds k symbol i hk horigin hinside)
    · exact ih hrest hmem hlater

theorem undisturbed_single (pattern : StreamingSensitivePattern Char) (text : List Char) :
    Undisturbed text [pattern] (locate 0 text) := by
  refine ⟨?_, trivial⟩
  intro k symbol i hk horigin hinside
  have hplace := origin_locate hk
  rw [horigin] at hplace
  cases hplace
  rwa [← spans_map (tracked_agrees pattern), locate_char]

end Raw

namespace StreamingRedactionSession

section Chunking

variable (policy : StreamingRedactionPolicy Char) (chunks : List (List Char))

/-- A session gives its consumer the same text as if it had been fed in one
piece, and emits no character of a match in the whole text. -/
structure ChunkingIndependent : Prop where
  same : streamed policy chunks = streamed policy [chunks.flatten]
  masked : ∀ symbol ∈ emitted policy.tracked (locateChunks 0 chunks), ∀ i,
    symbol.origin = some i → ∀ pattern ∈ policy.patterns,
      ¬ Inside (spans pattern.matchAt chunks.flatten) i

/-- Every push is safe, of the chunks and of the text in one piece, and the
patterns do not disturb each other on the whole text. -/
structure SafelyChunked : Prop where
  chunked : SafeRun policy.tracked [] (locateChunks 0 chunks)
  whole : SafeRun policy.tracked [] [locate 0 chunks.flatten]
  undisturbed : Undisturbed chunks.flatten policy.patterns (locate 0 chunks.flatten)

variable {policy chunks}

theorem streamed_safe {located : List (List Symbol)} (hsafe : SafeRun policy.tracked [] located) :
    streamed policy (located.map (List.map Symbol.char)) =
      (verdict policy.tracked (redacted policy.tracked.patterns located.flatten)
        (redacted policy.tracked.patterns located.flatten)).map (List.map Symbol.char) := by
  have herase := stream_erase policy located {}
  have hrun := (stream_safe (s := ({} : StreamingRedactionSession Symbol)) rfl hsafe).1
  have hflatten : ∀ outcome : Except AgentError (List (List Symbol)),
      (outcome.map (.map (.map Symbol.char))).map flatten =
        (outcome.map flatten).map (.map Symbol.char) := by
    intro outcome
    cases outcome with
    | error => rfl
    | ok => simp [Except.map, map_flatten]
  have hstart : ({} : StreamingRedactionSession Symbol).erase = {} := rfl
  rw [hstart] at herase
  rw [streamed, herase, hflatten, hrun]
  rfl

/-- Safely chunked text is redacted as if it had come in one piece. -/
theorem streaming_independent_of_chunking (policy : StreamingRedactionPolicy Char)
    (chunks : List (List Char)) (hsafe : SafelyChunked policy chunks) :
    ChunkingIndependent policy chunks := by
  obtain ⟨hchunked, hwhole, hundisturbed⟩ := hsafe
  constructor
  · have hpieces := streamed_safe hchunked
    have hone := streamed_safe hwhole
    rw [locateChunks_char, locateChunks_flatten] at hpieces
    rw [map_singleton, locate_char, flatten_singleton] at hone
    exact hpieces.trans hone.symm
  · intro symbol hmem i horigin pattern hpattern
    have hrun := (stream_safe (s := ({} : StreamingRedactionSession Symbol)) rfl hchunked).2
    rw [emitted, hrun, locateChunks_flatten] at hmem
    exact outside_of_redacted hundisturbed horigin hmem hpattern

end Chunking

section Fixed

/-- An expression all of whose matches have one length, such as `[0-9]{4}`. -/
def fixedPattern (name : String) (words : Words Char) (hname : isBlank name = false) :
    StreamingSensitivePattern Char where
  name := name
  matchAt := words.matchAt
  name_nonblank := hname

/-- The same words among characters that remember their place. -/
def trackedWords (words : Words Char) : Words Symbol where
  length := words.length
  word w := words.word (w.map Symbol.char)
  expansion := words.expansion.map fun c => ⟨c, none⟩
  length_pos := words.length_pos
  expansion_ne := by simpa using words.expansion_ne
  disjoint := by
    intro w hword symbol hmem hput
    obtain ⟨c, hc, rfl⟩ := mem_map.mp hput
    exact words.disjoint _ hword c (mem_map.mpr ⟨_, hmem, rfl⟩) hc

variable {name : String} {words : Words Char} {hname : isBlank name = false}

theorem fixedPattern_tracked :
    (fixedPattern name words hname).tracked.matchAt = (trackedWords words).matchAt := by
  funext before rest mustAdvance
  unfold StreamingSensitivePattern.tracked fixedPattern trackedWords Words.matchAt Words.Starts
  simp only [length_map, ← map_take]
  rw [apply_ite (Option.map _)]
  rfl

variable {policy : StreamingRedactionPolicy Char}
  (hpats : policy.patterns = [fixedPattern name words hname])
  (hfits : words.length ≤ policy.bufferSize)
include hpats

theorem redacted_fixed (text : List Symbol) :
    redacted policy.tracked.patterns text = (trackedWords words).replaced text := by
  have htrk : policy.tracked.patterns = [(fixedPattern name words hname).tracked] :=
    congrArg (map StreamingSensitivePattern.tracked) hpats
  rw [htrk, Words.replaced, ← fixedPattern_tracked]
  rfl

include hfits

theorem safePush_fixed (buffer chunk rest : List Symbol) :
    SafePush policy.tracked buffer chunk rest where
  settled := by
    simp only [redacted_fixed hpats]
    exact Words.replaced_replaced _ _
  uncut := by
    simp only [redacted_fixed hpats]
    by_cases hcut : cut policy.tracked ((trackedWords words).replaced (buffer ++ chunk)) = 0
    · rw [hcut]
      rfl
    · apply Words.replaced_cut (Words.replaced_clean _)
      have hsize : policy.tracked.bufferSize = policy.bufferSize := rfl
      have hlength : (trackedWords words).length = words.length := rfl
      unfold cut at hcut ⊢
      omega

theorem safeRun_fixed (buffer : List Symbol) (chunks : List (List Symbol)) :
    SafeRun policy.tracked buffer chunks := by
  induction chunks generalizing buffer with
  | nil => trivial
  | cons chunk _ ih =>
    cases chunk with
    | nil => exact ih buffer
    | cons => exact ⟨safePush_fixed hpats hfits _ _ _, ih _⟩

/-- Matches of one length that fit into the buffer are safe however the text
is cut. -/
theorem safelyChunked_fixed (chunks : List (List Char)) : SafelyChunked policy chunks where
  chunked := safeRun_fixed hpats hfits _ _
  whole := safeRun_fixed hpats hfits _ _
  undisturbed := by
    rw [hpats]
    exact undisturbed_single _ _

end Fixed

def isDigit (c : Char) : Bool := '0' ≤ c && c ≤ '9'

/-- The expression `[0-9]{4}`. -/
def pins : Words Char where
  length := 4
  word w := w.all isDigit
  expansion := "[PIN]".toList
  length_pos := by decide
  expansion_ne := by decide
  disjoint := by
    intro w hword c hmem hput
    have hdigit : isDigit c = true := all_eq_true.mp hword c hmem
    have hnone : ("[PIN]".toList.all fun c => !isDigit c) = true := by decide
    have hother : (!isDigit c) = true := all_eq_true.mp hnone c hput
    rw [hdigit] at hother
    cases hother

def pinPolicy : StreamingRedactionPolicy Char where
  patterns := [fixedPattern "pin" pins (by decide)]
  bufferSize := 4
  emitChunkSize := none
  failureMode := .raise
  bufferSize_pos := by decide
  emitChunkSize_pos := by simp
  patterns_ne := by simp

/-- The expression `sk-live-[0-9]+`. -/
def apiKeyPattern : StreamingSensitivePattern Char where
  name := "api-key"
  matchAt := fun _ rest _ =>
    if "sk-live-".toList <+: rest then
      let digits := (rest.drop "sk-live-".toList.length).takeWhile isDigit
      if digits.isEmpty then none
      else some ⟨"sk-live-".toList.length + digits.length, "[API_KEY]".toList⟩
    else none

def apiKeyPolicy : StreamingRedactionPolicy Char where
  patterns := [apiKeyPattern]
  bufferSize := 16
  emitChunkSize := some 4
  failureMode := .raise
  bufferSize_pos := by decide
  emitChunkSize_pos := by simp
  patterns_ne := by simp

theorem streaming_independent_of_chunking_pin :
    ChunkingIndependent pinPolicy ["pin 12".toList, "34 ok".toList] :=
  streaming_independent_of_chunking pinPolicy ["pin 12".toList, "34 ok".toList]
    (safelyChunked_fixed rfl (by decide) _)

/-- A key that fits into the buffer: its first digits are replaced before the
last ones arrive, and those are emitted raw. -/
theorem early_match_depends_on_chunking :
    (∀ pattern ∈ apiKeyPolicy.patterns, ∀ span ∈ spans pattern.matchAt "sk-live-1234".toList,
        span.2 - span.1 ≤ apiKeyPolicy.bufferSize) ∧
      streamed apiKeyPolicy ["sk-live-1234".toList] = .ok "[API_KEY]".toList ∧
      streamed apiKeyPolicy ["sk-live-12".toList, "34".toList] = .ok "[API_KEY]34".toList ∧
      ¬ ChunkingIndependent apiKeyPolicy ["sk-live-12".toList, "34".toList] := by
  have hwhole : streamed apiKeyPolicy ["sk-live-1234".toList] = .ok "[API_KEY]".toList := by
    decide +kernel
  have hchunked : streamed apiKeyPolicy ["sk-live-12".toList, "34".toList] =
      .ok "[API_KEY]34".toList := by
    decide +kernel
  refine ⟨by decide +kernel, hwhole, hchunked, ?_⟩
  intro hindependent
  have hsame := hindependent.same
  have htext : ["sk-live-12".toList, "34".toList].flatten = "sk-live-1234".toList := by decide
  exact absurd hsame (by decide)

end StreamingRedactionSession

end Spakky.Agent
