import Spakky.Vllm.Answer

/-!
Streaming an answer up to the chunk with its finish reason. Each chunk with a choice
adds its content and its refusal to the events and its fragments to the buffers;
what has been collected is what the choices so far amount to, however they were cut.
-/

namespace Spakky.Vllm

open Agent Effect Exec List

def ModelStreamEvent.asToken : ModelStreamEvent → Option String
  | .tokenDelta content => some content
  | _ => none

def ModelStreamEvent.asCandidate : ModelStreamEvent → Option ModelToolCall
  | .toolCallCandidate call => some call
  | _ => none

def ModelStreamEvent.asOutput : ModelStreamEvent → Option JsonValue
  | .structuredOutput value => some value
  | _ => none

def ModelStreamEvent.asError : ModelStreamEvent → Option ModelError
  | .error reason => some reason
  | _ => none

section Collecting

variable (request : ModelRequest)

/-- The events of the choice of a chunk. -/
def Piece.events (piece : Piece) : List ModelStreamEvent :=
  (if piece.content.getD "" = "" then [] else [.tokenDelta (piece.content.getD "")]) ++
    (if piece.refusal.getD "" = "" then [] else [.error (refusalError (piece.refusal.getD ""))])

def StreamState.accept (state : StreamState) (piece : Piece) : StreamState :=
  { state with
    events := state.events ++ piece.events
    structuredFragments := state.structuredFragments ++
      (if piece.content.getD "" ≠ "" ∧ request.structuredOutput.isSome then
        [piece.content.getD ""] else [])
    toolBuffers := addFragments state.toolBuffers piece.fragments }

theorem accumulateToolCallChunk_run {rawCall : JsonValue × Nat} {fragment : Fragment}
    (hfrag : IsFragment rawCall fragment) (state : StreamState) :
    accumulateToolCallChunk rawCall state =
      (.ok (), { state with
        toolBuffers := changeBuffer fragment.index fragment.add state.toolBuffers }) := by
  cases hfrag with
  | bare hgiven hindex hid hfun hname hargs =>
    simp only [accumulateToolCallChunk, expectMapping, hgiven, hid, hfun, ofExcept_ok_then,
      inBuffer, modify_bind_run, pure_run, changeBuffer_twice, ← hindex]
    congr 3
    funext buffer
    simp [Fragment.add, hname, hargs]
  | function hgiven hindex hid hfun hname hargs =>
    simp only [accumulateToolCallChunk, expectMapping, hgiven, hid, hfun, hname, hargs,
      ofExcept_ok_then, inBuffer, modify_bind_run, modify_run, changeBuffer_twice, ← hindex]
    congr 3

variable {fragments : List Fragment}

theorem forEach_accumulate_run {rawCalls : List (JsonValue × Nat)}
    (hfrags : List.Forall₂ IsFragment rawCalls fragments) (state : StreamState) :
    forEach accumulateToolCallChunk rawCalls state =
      (.ok (), { state with toolBuffers := addFragments state.toolBuffers fragments }) := by
  induction hfrags generalizing state with
  | nil => rfl
  | cons hfrag _ ih =>
    rw [forEach, bind_ok _ (accumulateToolCallChunk_run hfrag state), ih]
    rfl

theorem streamToolCalls_run {value : JsonValue} (hfrags : IsFragments value fragments)
    (state : StreamState) :
    streamToolCalls value state =
      (.ok (), { state with toolBuffers := addFragments state.toolBuffers fragments }) := by
  cases hfrags with
  | absent => rfl
  | present hcalls => exact forEach_accumulate_run hcalls state

theorem streamContent_run (content : String) (state : StreamState) :
    streamContent request content state =
      (.ok (), { state with
        events := state.events ++ (if content = "" then [] else [.tokenDelta content])
        structuredFragments := state.structuredFragments ++
          (if content ≠ "" ∧ request.structuredOutput.isSome then [content] else []) }) := by
  by_cases hempty : content = ""
  · simp [streamContent, hempty]
  · cases hstruct : request.structuredOutput.isSome with
    | false | true => simp [streamContent, hempty, hstruct, emit]

theorem streamRefusal_run (refusal : String) (state : StreamState) :
    streamRefusal refusal state =
      (.ok (), { state with
        events := state.events ++
          (if refusal = "" then [] else [.error (refusalError refusal)]) }) := by
  by_cases hempty : refusal = ""
  · simp [streamRefusal, hempty]
  · simp [streamRefusal, hempty, emit]

theorem streamChoiceEvents_run {choice : JsonObject} {piece : Piece}
    (hdelta : IsDelta (get choice "delta") piece.content piece.refusal piece.fragments)
    (state : StreamState) :
    streamChoiceEvents request choice state = (.ok (), state.accept request piece) := by
  obtain ⟨_, _, _, _⟩ := piece
  generalize hvalue : get choice "delta" = value at hdelta
  cases hdelta with
  | absent => simp [streamChoiceEvents, hvalue, StreamState.accept, Piece.events, addFragments]
  | present hcont hrefusal hcalls =>
    simp only [streamChoiceEvents, hvalue, expectMapping, hcont, hrefusal, ofExcept_ok_then]
    rw [bind_ok _ (streamContent_run request _ _), bind_ok _ (streamRefusal_run _ _),
      streamToolCalls_run hcalls, StreamState.accept, Piece.events, append_assoc]

variable (decoder : Decoder) (constraints : Option (List (String × JsonSchemaConstraint)))

theorem streamUsage_run {value : JsonValue} {usage : Option ModelUsage}
    (husage : IsUsage value usage) (state : StreamState) :
    streamUsage value state = (.ok (), { state with usage := usage.or state.usage }) := by
  cases husage with
  | absent => rfl
  | present husage => simp only [streamUsage, husage, ofExcept_ok_then, modify_run, Option.some_or]

theorem streamChunk_usage_run {json : JsonObject} {chunk : Chunk} (hchunk : IsChunk json chunk)
    (hchoice : chunk.choice = none) (state : StreamState) :
    streamChunk decoder request constraints json state =
      (.ok true, { state with usage := chunk.usage.or state.usage }) := by
  cases hchunk with
  | usage herror husage hchoices =>
    simp only [streamChunk, herror, hchoices, toProviderError, expectSequence, ofExcept_ok_then]
    rw [bind_ok _ (streamUsage_run husage state)]
    rfl
  | choice => cases hchoice

theorem streamChunk_choice_run {json : JsonObject} {chunk : Chunk} {piece : Piece}
    (hchunk : IsChunk json chunk) (hchoice : chunk.choice = some piece) (state : StreamState) :
    streamChunk decoder request constraints json state =
      (finishesIfAny decoder request constraints piece.finishReason >>= fun _ => pure true)
        ({ state with usage := chunk.usage.or state.usage }.accept request piece) := by
  cases hchunk with
  | usage => cases hchoice
  | choice herror husage hchoices hdelta hfin =>
    cases hchoice
    simp only [streamChunk, herror, hchoices, toProviderError, expectSequence, ofExcept_ok_then]
    rw [bind_ok _ (streamUsage_run husage state)]
    simp only [forEach, streamChoice, expectMapping, ofExcept_ok_then, hfin, bind_then]
    rw [bind_ok _ (streamChoiceEvents_run request hdelta _)]
    simp only [pure_then]

/-- What the stream has collected of some choices, none of which finishes. -/
structure Collected (pieces : List Piece) (state : StreamState) : Prop where
  content : String.join (state.events.filterMap (·.asToken)) =
    String.join (pieces.filterMap (·.content))
  refusal : state.events.filterMap (·.asError) ≠ [] ↔
    String.join (pieces.filterMap (·.refusal)) ≠ ""
  candidates : state.events.filterMap (·.asCandidate) = []
  outputs : state.events.filterMap (·.asOutput) = []
  fragments : request.structuredOutput.isSome →
    String.join state.structuredFragments = String.join (pieces.filterMap (·.content))
  buffers : state.toolBuffers = addFragments [] (pieces.flatMap (·.fragments))
  terminalError : state.terminalError = none

variable {request}

theorem Collected.initial : Collected request [] {} where
  content := rfl
  refusal := by simp
  candidates := rfl
  outputs := rfl
  fragments := fun _ => rfl
  buffers := rfl
  terminalError := rfl

theorem Collected.usage {pieces : List Piece} {state : StreamState} (usage : Option ModelUsage)
    (hstate : Collected request pieces state) :
    Collected request pieces { state with usage := usage } where
  content := hstate.content
  refusal := hstate.refusal
  candidates := hstate.candidates
  outputs := hstate.outputs
  fragments := hstate.fragments
  buffers := hstate.buffers
  terminalError := hstate.terminalError

theorem join_filterMap_singleton {α : Type} (f : α → Option String) (item : α) :
    String.join ([item].filterMap f) = (f item).getD "" := by
  cases hitem : f item with
  | none | some => simp [hitem]

variable (piece : Piece)

theorem Piece.content_events :
    String.join (piece.events.filterMap (·.asToken)) = piece.content.getD "" := by
  rw [Piece.events]
  split <;> split <;> simp_all [ModelStreamEvent.asToken]

theorem Piece.refusal_events :
    piece.events.filterMap (·.asError) ≠ [] ↔ piece.refusal.getD "" ≠ "" := by
  rw [Piece.events]
  split <;> split <;> simp_all [ModelStreamEvent.asError]

theorem Piece.candidates_events : piece.events.filterMap (·.asCandidate) = [] := by
  rw [Piece.events]
  split <;> split <;> simp [ModelStreamEvent.asCandidate]

theorem Piece.outputs_events : piece.events.filterMap (·.asOutput) = [] := by
  rw [Piece.events]
  split <;> split <;> simp [ModelStreamEvent.asOutput]

theorem Collected.accept {pieces : List Piece} {state : StreamState}
    (hstate : Collected request pieces state) (piece : Piece) :
    Collected request (pieces ++ [piece]) (state.accept request piece) where
  content := by
    rw [StreamState.accept, filterMap_append, filterMap_append, String.join_append,
      String.join_append, hstate.content, piece.content_events, join_filterMap_singleton]
  refusal := by
    have hold := hstate.refusal
    have hnew := piece.refusal_events
    rw [StreamState.accept, filterMap_append, filterMap_append, String.join_append,
      join_filterMap_singleton]
    simp only [ne_eq, append_eq_nil_iff, String.append_eq_empty_iff] at hold hnew ⊢
    rw [not_iff_not] at hold hnew ⊢
    rw [hold, hnew]
  candidates := by
    rw [StreamState.accept, filterMap_append, hstate.candidates, piece.candidates_events,
      append_nil]
  outputs := by
    rw [StreamState.accept, filterMap_append, hstate.outputs, piece.outputs_events, append_nil]
  fragments := by
    intro hstruct
    rw [StreamState.accept, String.join_append, hstate.fragments hstruct,
      filterMap_append, String.join_append, join_filterMap_singleton]
    by_cases hempty : piece.content.getD "" = ""
    · simp [hempty]
    · simp [hempty, hstruct]
  buffers := by
    rw [StreamState.accept, hstate.buffers, flatMap_append, addFragments_append, flatMap_singleton]
  terminalError := hstate.terminalError

variable {jsons : List JsonObject}

/-- The chunks up to the one that finishes are only collected. -/
theorem streamChunks_collect {chunks : List Chunk} (hchunks : List.Forall₂ IsChunk jsons chunks)
    (hunfinished : ∀ piece ∈ chunks.filterMap (·.choice), piece.finishReason = none)
    (rest : List (Except VllmError JsonObject)) {pieces : List Piece} {state : StreamState}
    (hstate : Collected request pieces state) :
    ∃ next, Collected request (pieces ++ chunks.filterMap (·.choice)) next ∧
      streamChunks decoder request constraints (jsons.map .ok ++ rest) state =
        streamChunks decoder request constraints rest next := by
  induction hchunks generalizing pieces state with
  | nil => exact ⟨state, by simpa using hstate, rfl⟩
  | @cons json chunk jsons chunks hchunk _ ih =>
    rw [filterMap_cons_append] at hunfinished ⊢
    have hlater : ∀ piece ∈ chunks.filterMap (·.choice), piece.finishReason = none :=
      fun piece hpiece => hunfinished piece (mem_append_right _ hpiece)
    have hused := hstate.usage (chunk.usage.or state.usage)
    cases hchoice : chunk.choice with
    | none =>
      obtain ⟨next, hnext, hrun⟩ := ih hlater hused
      refine ⟨next, by simpa using hnext, ?_⟩
      rw [map_cons, cons_append, streamChunks, ofExcept_ok_then,
        bind_ok _ (streamChunk_usage_run request decoder constraints hchunk hchoice state)]
      exact hrun
    | some piece =>
      have hpiece : piece.finishReason = none :=
        hunfinished piece (mem_append_left _ (by simp [hchoice]))
      obtain ⟨next, hnext, hrun⟩ := ih hlater (hused.accept piece)
      refine ⟨next, by simpa [append_assoc] using hnext, ?_⟩
      have hstep := streamChunk_choice_run request decoder constraints hchunk hchoice state
      rw [hpiece, finishesIfAny, pure_then, pure_run] at hstep
      rw [map_cons, cons_append, streamChunks, ofExcept_ok_then, bind_ok _ hstep]
      exact hrun

/-- The chunks after the one that finishes change the usage only. -/
theorem streamChunks_after {chunks : List Chunk} (hchunks : List.Forall₂ IsChunk jsons chunks)
    (hnone : ∀ chunk ∈ chunks, chunk.choice = none) (state : StreamState) :
    ∃ usage, streamChunks decoder request constraints (jsons.map .ok) state =
      (.ok (), { state with usage := usage }) := by
  induction hchunks generalizing state with
  | nil => exact ⟨state.usage, rfl⟩
  | @cons json chunk jsons chunks hchunk _ ih =>
    obtain ⟨usage, hrun⟩ := ih (fun other hother => hnone other (.tail _ hother))
      { state with usage := chunk.usage.or state.usage }
    refine ⟨usage, ?_⟩
    rw [map_cons, streamChunks, ofExcept_ok_then,
      bind_ok _ (streamChunk_usage_run request decoder constraints hchunk
        (hnone chunk (.head _)) state)]
    exact hrun

end Collecting

end Spakky.Vllm
