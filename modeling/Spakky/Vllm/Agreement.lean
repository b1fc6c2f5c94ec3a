import Spakky.Vllm.Collecting

/-!
The two ways of asking for an answer compared: the events of `stream` on the chunks
of an answer against what `complete` returns for the whole of it. Up to the chunk
with the finish reason the stream only collects; the two differ in what they then
do with the tool calls, the structured output and the finish reason.
-/

namespace Spakky.Vllm

open Agent Effect Exec List

/-- An `AbstractVllmError` is raised. -/
def Fails {α : Type} (result : Except VllmError α) : Prop :=
  ∃ error, result = .error error ∧ error ≠ .foreign

/-- The events carry the result: a value that there is no structured output for is
`None` in a response. -/
structure Agree (result : Except VllmError ModelResponse) (events : List ModelStreamEvent) :
    Prop where
  error : events.filterMap (·.asError) ≠ [] ↔ Fails result
  content : ∀ response, result = .ok response →
    String.join (events.filterMap (·.asToken)) = response.content
  toolCalls : ∀ response, result = .ok response →
    events.filterMap (·.asCandidate) = response.toolCalls
  structuredOutput : ∀ response, result = .ok response →
    (events.filterMap (·.asOutput)).getLast?.getD .null = response.structuredOutput

/-- What an answer is read with: the schemas of the tools are those of the request. -/
structure Asked where
  decoder : Decoder
  constraints : Option (List (String × JsonSchemaConstraint))
  request : ModelRequest

section Reading

variable (asked : Asked)

/-- What both sides read a tool call of an answer as. -/
def AnswerCall.read (call : AnswerCall) : Except VllmError ModelToolCall := do
  let constraint ← toolConstraintFor call.name asked.constraints
  let arguments ← toToolArguments asked.decoder (.string call.arguments) constraint
  return ⟨call.name, arguments, call.callId, call.arguments⟩

theorem mapM_congr_forall₂ {α β γ ε : Type} {f : α → Except ε γ} {g : β → Except ε γ}
    {items : List α} {others : List β} (hitems : List.Forall₂ (fun a b => f a = g b) items others) :
    items.mapM f = others.mapM g := by
  induction hitems with
  | nil => rfl
  | cons hhead _ ih => rw [mapM_cons, mapM_cons, hhead, ih]

theorem optionalString_string (value : String) :
    optionalString (.string value) = .ok (some value) := rfl

theorem IsCall.toToolCall_eq {rawCall : JsonValue} {call : AnswerCall}
    (hcall : IsCall rawCall call) :
    toToolCall asked.decoder asked.constraints rawCall = call.read asked := by
  cases hcall with
  | call hid hfun hname hargs =>
    simp only [toToolCall, expectMapping, except_ok_then, hfun, hname, hid, hargs,
      optionalString_string, AnswerCall.read, Option.getD_some]

theorem IsCalls.toToolCalls_eq {value : JsonValue} {calls : List AnswerCall}
    (hcalls : IsCalls value calls) :
    toToolCalls asked.decoder asked.constraints value = calls.mapM (·.read asked) := by
  cases hcalls with
  | absent => rfl
  | present hcalls =>
    exact mapM_congr_forall₂ (hcalls.imp fun _ _ hcall => hcall.toToolCall_eq asked)

theorem Holds.toToolCall_eq {buffer : ToolCallBuffer} {call : AnswerCall}
    (hholds : Holds buffer call) :
    buffer.toToolCall asked.decoder asked.constraints = call.read asked := by
  simp only [ToolCallBuffer.toToolCall, hholds.name, hholds.arguments, hholds.callId,
    AnswerCall.read]

namespace Answer

variable (answer : Answer)

def Refused : Prop :=
  answer.refusal.getD "" ≠ "" ∨ answer.finishReason = "content_filter"

/-- The tool calls of an answer, against the schemas of the tools. -/
def readCalls : Except VllmError (List ModelToolCall) :=
  answer.toolCalls.mapM (·.read asked)

/-- The content of an answer as the requested output. -/
def readOutput : Except VllmError JsonValue :=
  requestedOutput asked.decoder (answer.content.getD "") asked.request.structuredOutput

/-- There are calls although none are allowed. -/
def Unwanted : Prop := forbidsToolCalls asked.request ∧ answer.toolCalls ≠ []

def Empty : Prop := answer.content = none ∧ answer.toolCalls = []

/-- How `complete` ends on an answer. -/
inductive Responds (answer : Answer) : Except VllmError ModelResponse → Prop
  | refused (href : answer.Refused) : Responds answer (.error .modelRefusal)
  | calls {error : VllmError} (href : ¬ answer.Refused)
      (hcalls : answer.readCalls asked = .error error) :
      Responds answer (.error error)
  | unwanted {calls : List ModelToolCall} (href : ¬ answer.Refused)
      (hcalls : answer.readCalls asked = .ok calls)
      (hunwanted : answer.Unwanted asked) : Responds answer (.error .response)
  | empty {calls : List ModelToolCall} (href : ¬ answer.Refused)
      (hcalls : answer.readCalls asked = .ok calls) (hempty : answer.Empty) :
      Responds answer (.error .response)
  | output {calls : List ModelToolCall} {error : VllmError} (href : ¬ answer.Refused)
      (hcalls : answer.readCalls asked = .ok calls)
      (hunwanted : ¬ answer.Unwanted asked) (hempty : ¬ answer.Empty)
      (houtp : answer.readOutput asked = .error error) :
      Responds answer (.error error)
  | returns {calls : List ModelToolCall} {output : JsonValue} {usage : ModelUsage}
      (href : ¬ answer.Refused)
      (hcalls : answer.readCalls asked = .ok calls)
      (hunwanted : ¬ answer.Unwanted asked) (hempty : ¬ answer.Empty)
      (houtp : answer.readOutput asked = .ok output) :
      Responds answer (.ok ⟨answer.content.getD "", output, calls, usage, some answer.finishReason⟩)

end Answer

variable {asked} {calls : List ModelToolCall}

theorem Answer.readCalls_eq_nil {answer : Answer}
    (hcalls : answer.readCalls asked = .ok calls) :
    calls = [] ↔ answer.toolCalls = [] := by
  rw [← length_eq_zero_iff, ← length_eq_zero_iff, length_mapM hcalls]

theorem toMessageContent_eq {value : JsonValue} {content : Option String}
    (hvalue : optionalString value = .ok content) :
    toMessageContent value calls =
      if content = none ∧ calls = [] then .error .response else .ok (content.getD "") := by
  cases value with
  | null =>
    cases hvalue
    by_cases hcalls : calls = []
    · simp [toMessageContent, hcalls]
    · simp [toMessageContent, hcalls]
  | string =>
    cases hvalue
    simp [toMessageContent]
  | boolean | integer | number | array | object => cases hvalue

theorem IsResponse.responds {response : JsonObject} {answer : Answer}
    (hresp : IsResponse response answer) :
    answer.Responds asked
      (toModelResponse asked.decoder asked.request asked.constraints response) := by
  cases hresp with
  | response hchoices hfin hmsg hrefusal hcalls hcont husage =>
    simp only [toModelResponse, hchoices, expectSequence, expectMapping, except_ok_then, hfin,
      optionalString_string, hmsg, hrefusal, hcalls.toToolCalls_eq asked,
      husage, toMessageContent_eq hcont]
    by_cases href : answer.refusal.getD "" = ""
    case neg =>
      rw [if_pos href]
      exact .refused (.inl href)
    by_cases hfil : answer.finishReason = "content_filter"
    case pos =>
      rw [if_neg (not_not.mpr href), if_pos (congrArg some hfil)]
      exact .refused (.inr hfil)
    have hnot : ¬ answer.Refused := fun h => h.elim (· href) hfil
    rw [if_neg (not_not.mpr href), if_neg (fun h => hfil (Option.some.inj h))]
    change answer.Responds asked (answer.readCalls asked >>= _)
    cases hread : answer.readCalls asked with
    | error => exact .calls hnot hread
    | ok =>
      rw [except_ok_then]
      have hnil := Answer.readCalls_eq_nil hread
      by_cases hunwanted : answer.Unwanted asked
      · rw [if_pos ⟨hunwanted.1, mt hnil.mp hunwanted.2⟩]
        exact .unwanted hnot hread hunwanted
      rw [if_neg fun h => hunwanted ⟨h.1, mt hnil.mpr h.2⟩]
      by_cases hempty : answer.Empty
      · rw [if_pos ⟨hempty.1, hnil.mpr hempty.2⟩]
        exact .empty hnot hread hempty
      rw [if_neg fun h => hempty ⟨h.1, hnil.mp h.2⟩]
      change answer.Responds asked (answer.readOutput asked >>= _)
      cases houtp : answer.readOutput asked with
      | error => exact .output hnot hread hunwanted hempty houtp
      | ok => exact .returns hnot hread hunwanted hempty houtp

end Reading

section Finishing

variable (asked : Asked)

/-- What a stream emits for an exception that ends it. -/
def errorEvents (error : VllmError) : List ModelStreamEvent :=
  if error = .foreign then [] else [.error (toModelError error)]

/-- What a stream emits after the content and the refusal of an answer, but for `DONE`. -/
inductive Answer.Ends (answer : Answer) : List ModelStreamEvent → Prop
  | calls {calls : List ModelToolCall} (hfin : answer.finishReason = "tool_calls")
      (hcalls : answer.readCalls asked = .ok calls) :
      Ends answer (calls.map .toolCallCandidate)
  | badCalls {error : VllmError} (hfin : answer.finishReason = "tool_calls")
      (hcalls : answer.readCalls asked = .error error) :
      Ends answer (errorEvents error)
  | plain (hfin : answer.finishReason = "stop")
      (houtp : answer.readOutput asked = .ok .null) : Ends answer []
  | output {value : JsonValue} (hfin : answer.finishReason = "stop")
      (houtp : answer.readOutput asked = .ok value) :
      Ends answer [.structuredOutput value]
  | badOutput {error : VllmError} (hfin : answer.finishReason = "stop")
      (houtp : answer.readOutput asked = .error error) :
      Ends answer (errorEvents error)
  | unsuccessful {reason : ModelError} (htools : answer.finishReason ≠ "tool_calls")
      (hstop : answer.finishReason ≠ "stop") : Ends answer [.error reason]

variable {asked}

/-- The events of a stream that ends as given, but for `DONE`. -/
def eventsOf : Except VllmError Unit × StreamState → List ModelStreamEvent
  | (.error error, state) => state.events ++ errorEvents error
  | (.ok (), state) => state.events ++ state.terminalError.toList.map .error

variable {state : StreamState} {answer : Answer}

theorem toolCallEvents_run {pieces : List Piece}
    (hbuffers : state.toolBuffers = addFragments [] (pieces.flatMap (·.fragments)))
    (hcalls : Reassembles (pieces.flatMap (·.fragments)) answer.toolCalls) :
    toolCallEvents asked.decoder asked.constraints state =
      match answer.readCalls asked with
      | .error error => (.error error, state)
      | .ok calls =>
        (.ok (), { state with
          events := state.events ++ calls.map .toolCallCandidate
          toolBuffers := [] }) := by
  have hread : (sortedBuffers state.toolBuffers).mapM
      (·.toToolCall asked.decoder asked.constraints) = answer.readCalls asked := by
    rw [hbuffers]
    exact mapM_congr_forall₂ (hcalls.sortedBuffers.imp fun _ _ hholds =>
      hholds.toToolCall_eq asked)
  simp only [toolCallEvents, reads_bind_run, hread]
  cases answer.readCalls asked with
  | error => rfl
  | ok => rfl

theorem structuredOutputEvent_run {constraint : JsonSchemaConstraint}
    (hrequest : asked.request.structuredOutput = some constraint)
    (hcont : String.join state.structuredFragments = answer.content.getD "") :
    structuredOutputEvent asked.decoder constraint state =
      match answer.readOutput asked with
      | .error error => (.error error, state)
      | .ok value =>
        (.ok (), { state with events := state.events ++ [.structuredOutput value] }) := by
  simp only [structuredOutputEvent, reads_bind_run, hcont, Answer.readOutput, hrequest,
    requestedOutput]
  cases toStructuredOutput asked.decoder (answer.content.getD "") constraint with
  | error => rfl
  | ok => rfl

theorem finishes_ends {pieces : List Piece} (hstate : Collected asked.request pieces state)
    (hcont : String.join (pieces.filterMap (·.content)) = answer.content.getD "")
    (hcalls : Reassembles (pieces.flatMap (·.fragments)) answer.toolCalls) :
    ∃ ending, answer.Ends asked ending ∧
      eventsOf (finishes asked.decoder asked.request asked.constraints answer.finishReason state) =
        state.events ++ ending := by
  simp only [finishes, modify_bind_run]
  generalize hmarked : { state with finishReason := some answer.finishReason } = marked
  have hevs : marked.events = state.events := hmarked ▸ rfl
  have hbuffers : marked.toolBuffers = addFragments [] (pieces.flatMap (·.fragments)) :=
    hmarked ▸ hstate.buffers
  have hfrags : marked.structuredFragments = state.structuredFragments := hmarked ▸ rfl
  by_cases htools : answer.finishReason = "tool_calls"
  · have hstop : answer.finishReason ≠ "stop" := by
      rw [htools]
      decide
    rw [if_pos htools, if_neg hstop, bind_run, toolCallEvents_run hbuffers hcalls, ← hevs]
    cases hread : answer.readCalls asked with
    | error => exact ⟨_, .badCalls htools hread, rfl⟩
    | ok =>
      refine ⟨_, .calls htools hread, ?_⟩
      simp [eventsOf, finishReasonError, htools]
  · rw [if_neg htools]
    by_cases hstop : answer.finishReason = "stop"
    · rw [if_pos hstop]
      cases hrequest : asked.request.structuredOutput with
      | none =>
        refine ⟨_, .plain hstop (by rw [Answer.readOutput, hrequest]; rfl), ?_⟩
        simp [eventsOf, finishReasonError, hstop, hevs]
      | some =>
        have hjoined : String.join marked.structuredFragments = answer.content.getD "" := by
          rw [hfrags, ← hcont]
          exact hstate.fragments (by rw [hrequest]; rfl)
        simp only [bind_run, structuredOutputEvent_run hrequest hjoined, ← hevs]
        cases hread : answer.readOutput asked with
        | error => exact ⟨_, .badOutput hstop hread, rfl⟩
        | ok =>
          refine ⟨_, .output hstop hread, ?_⟩
          simp [eventsOf, finishReasonError, hstop]
    · rw [if_neg hstop]
      have herror : ∃ reason, finishReasonError answer.finishReason = some reason := by
        simp [finishReasonError, htools, hstop]
      obtain ⟨reason, hreason⟩ := herror
      refine ⟨[.error reason], .unsuccessful htools hstop, ?_⟩
      simp [eventsOf, hreason, hevs]

theorem concludes_events (run : Except VllmError Unit × StreamState) :
    ∃ dones, (∀ event ∈ dones, ∃ reason usage, event = .done reason usage) ∧
      (concludes run).events = eventsOf run ++ dones := by
  obtain ⟨outcome, state⟩ := run
  cases outcome with
  | ok =>
    refine ⟨[.done state.finishReason state.usage], ?_, rfl⟩
    intro event hevent
    exact ⟨_, _, mem_singleton.mp hevent⟩
  | error error =>
    by_cases hforeign : error = .foreign
    · refine ⟨[], fun event hevent => absurd hevent not_mem_nil, ?_⟩
      simp [hforeign, concludes, fails, eventsOf, errorEvents]
    · refine ⟨[.done none none], fun event hevent => ⟨_, _, mem_singleton.mp hevent⟩, ?_⟩
      cases error <;> simp_all [concludes, fails, eventsOf, errorEvents]

variable (asked) in
theorem stream_events (cut : Cut answer) {jsons : List JsonObject}
    (hjsons : List.Forall₂ IsChunk jsons cut.chunks) :
    ∃ state ending, Collected asked.request (cut.init ++ [cut.last]) state ∧
      answer.Ends asked ending ∧
      eventsOf (streamChunks asked.decoder asked.request asked.constraints (jsons.map .ok) {}) =
        state.events ++ ending := by
  obtain ⟨before, usage, _, hchunks, hinit, hafter⟩ := cut.split
  rw [hchunks] at hjsons
  have hfirst := forall₂_take_append _ _ _ hjsons
  have hrest := forall₂_drop_append _ _ _ hjsons
  rw [← take_append_drop before.length jsons]
  generalize jsons.take before.length = first at hfirst
  generalize jsons.drop before.length = rest at hrest
  cases hrest with
  | @cons json _ rest _ hlast hrest =>
  have hinitial : Collected asked.request [] {} := .initial
  obtain ⟨next, hnext, hrun⟩ := streamChunks_collect asked.decoder asked.constraints hfirst
    (hinit ▸ cut.unfinished) ((json :: rest).map .ok) hinitial
  rw [hinit, nil_append] at hnext
  have hcoll := (hnext.usage (usage.or next.usage)).accept cut.last
  have hlast := streamChunk_choice_run asked.request asked.decoder asked.constraints hlast rfl next
  rw [cut.finished, finishesIfAny] at hlast
  obtain ⟨ending, hend, hevs⟩ := finishes_ends hcoll cut.content cut.calls
  refine ⟨_, ending, hcoll, hend, ?_⟩
  rw [← hevs, map_append, hrun, map_cons, streamChunks, ofExcept_ok_then, bind_run, hlast, bind_run]
  -- the chunks that are left are read only if nothing was raised, and add the usage only
  generalize finishes asked.decoder asked.request asked.constraints answer.finishReason _ = finished
  obtain ⟨outcome, state⟩ := finished
  cases outcome with
  | error => rfl
  | ok =>
    obtain ⟨_, hlater⟩ := streamChunks_after asked.decoder asked.constraints hrest hafter state
    change eventsOf (streamChunks _ _ _ (rest.map .ok) state) = _
    rw [hlater]
    rfl

end Finishing

section Agreement

variable {α : Type} (asked : Asked)

namespace Answer

variable (answer : Answer)

/-- The answers that do not fit the request. -/
def Rejected : Prop :=
  answer.Refused ∨ Fails (answer.readCalls asked) ∨
    (∃ calls, answer.readCalls asked = .ok calls) ∧
      (answer.Unwanted asked ∨ answer.Empty ∨ Fails (answer.readOutput asked))

/-- An answer that finishes with its tool calls is not checked any further by the
stream: it has to be one that `complete` finds no fault with, and its content no output. -/
def FitsToolCalls : Prop :=
  (∀ calls, answer.readCalls asked ≠ .ok calls) ∨
    ¬ answer.Unwanted asked ∧ ¬ answer.Empty ∧
      (answer.readOutput asked = .ok .null ∨ answer.readOutput asked = .error .foreign)

/-- The stream ignores the tool calls of an answer that stops, and that there is no
content. -/
def FitsStop : Prop :=
  Fails (answer.readOutput asked) ∧ answer.readCalls asked ≠ .error .foreign ∨
    ¬ Fails (answer.readOutput asked) ∧
      (answer.readCalls asked = .error .foreign ∨
        answer.toolCalls = [] ∧ answer.content ≠ none ∨
        (∃ calls, answer.readCalls asked = .ok calls) ∧
          ¬ answer.Unwanted asked ∧ answer.readOutput asked = .error .foreign)

/-- The answers that the two read alike, once the stream is open. -/
def Consistent : Prop :=
  answer.Refused ∨
    answer.finishReason = "tool_calls" ∧ answer.FitsToolCalls asked ∨
    answer.finishReason = "stop" ∧ answer.FitsStop asked ∨
    answer.finishReason ≠ "tool_calls" ∧ answer.finishReason ≠ "stop" ∧ answer.Rejected asked

end Answer

variable {asked}

@[simp] theorem fails_error (error : VllmError) :
    Fails (.error error : Except VllmError α) ↔ error ≠ .foreign := by
  constructor
  · rintro ⟨_, heq, hforeign⟩
    cases heq
    exact hforeign
  · exact fun hforeign => ⟨error, rfl, hforeign⟩

@[simp] theorem not_fails_ok (value : α) : ¬ Fails (.ok value : Except VllmError α) := by
  rintro ⟨_, heq, _⟩
  cases heq

@[simp] theorem asError_errorEvents (error : VllmError) :
    (errorEvents error).filterMap (·.asError) ≠ [] ↔ error ≠ .foreign := by
  by_cases hforeign : error = .foreign
  · simp [errorEvents, hforeign]
  · simp [errorEvents, hforeign, ModelStreamEvent.asError]

variable {answer : Answer} {ending : List ModelStreamEvent}

theorem Answer.Ends.asToken_eq_nil (hend : answer.Ends asked ending) :
    ending.filterMap (·.asToken) = [] := by
  cases hend <;>
    simp [errorEvents, ModelStreamEvent.asToken, filterMap_map, apply_ite]

/-- The errors, the tool calls and the structured output agree. -/
def SameEnding (result : Except VllmError ModelResponse) (ending : List ModelStreamEvent) : Prop :=
  (ending.filterMap (·.asError) ≠ [] ↔ Fails result) ∧
    ∀ response, result = .ok response →
      ending.filterMap (·.asCandidate) = response.toolCalls ∧
        (ending.filterMap (·.asOutput)).getLast?.getD .null = response.structuredOutput

variable {result : Except VllmError ModelResponse}

/-- What is left of the agreement once the content is streamed and nothing is refused. -/
theorem agree_append_iff {state : StreamState} {pieces : List Piece}
    (hstate : Collected asked.request pieces state)
    (hcont : String.join (pieces.filterMap (·.content)) = answer.content.getD "")
    (hrefusal : String.join (pieces.filterMap (·.refusal)) = "")
    (hres : answer.Responds asked result)
    (hend : answer.Ends asked ending) :
    Agree result (state.events ++ ending) ↔ SameEnding result ending := by
  have herrors : state.events.filterMap (·.asError) = [] := by
    by_contra hne
    exact hstate.refusal.mp hne hrefusal
  constructor
  · intro hagree
    have herror := hagree.error
    rw [filterMap_append, herrors, nil_append] at herror
    refine ⟨herror, fun response hresp => ⟨?_, ?_⟩⟩
    · rw [← hagree.toolCalls response hresp, filterMap_append, hstate.candidates, nil_append]
    · rw [← hagree.structuredOutput response hresp, filterMap_append, hstate.outputs, nil_append]
  · rintro ⟨herror, hsame⟩
    refine ⟨?_, ?_, ?_, ?_⟩
    · rw [filterMap_append, herrors, nil_append]
      exact herror
    · intro response hresp
      rw [filterMap_append, hend.asToken_eq_nil, append_nil, hstate.content, hcont]
      cases hres with
      | returns =>
        cases hresp
        rfl
      | refused | calls | unwanted | empty | output => cases hresp
    · intro response hresp
      rw [filterMap_append, hstate.candidates, nil_append, (hsame response hresp).1]
    · intro response hresp
      rw [filterMap_append, hstate.outputs, nil_append, (hsame response hresp).2]

/-- `complete` raises an `AbstractVllmError` for the answers that do not fit. -/
theorem Answer.Responds.fails_iff (hres : answer.Responds asked result) :
    Fails result ↔ answer.Rejected asked := by
  cases hres with
  | refused href => simp [Answer.Rejected, href]
  | calls href hcalls => simp [Answer.Rejected, href, hcalls]
  | unwanted href hcalls hunwanted => simp [Answer.Rejected, href, hcalls, hunwanted]
  | empty href hcalls hempty => simp [Answer.Rejected, href, hcalls, hempty]
  | output href hcalls hunwanted hempty houtp | returns href hcalls hunwanted hempty houtp =>
    simp [Answer.Rejected, href, hcalls, hunwanted, hempty, houtp]

section Endings

theorem Answer.readOutput_of_empty (hempty : answer.Empty) :
    answer.readOutput asked ≠ .error .foreign := by
  rw [Answer.readOutput, hempty.1]
  cases asked.request.structuredOutput with
  | none => simp [requestedOutput]
  | some =>
    change (.error .response : Except VllmError JsonValue) ≠ .error .foreign
    simp

theorem Answer.toolCalls_ne_nil {error : VllmError}
    (hcalls : answer.readCalls asked = .error error) : answer.toolCalls ≠ [] := by
  intro hnil
  rw [Answer.readCalls, hnil] at hcalls
  cases hcalls

theorem sameEnding_error_iff (reason : ModelError) :
    SameEnding result [.error reason] ↔ Fails result := by
  constructor
  · exact fun hsame => hsame.1.mp (cons_ne_nil _ _)
  · rintro ⟨error, rfl, hforeign⟩
    refine ⟨⟨fun _ => ⟨error, rfl, hforeign⟩, fun _ => cons_ne_nil _ _⟩, ?_⟩
    intro response hresp
    cases hresp

variable (href : ¬ answer.Refused) (hres : answer.Responds asked result)
include href hres

theorem sameEnding_iff :
    SameEnding result ending ↔
      (ending.filterMap (·.asError) ≠ [] ↔ answer.Rejected asked) ∧
        ∀ calls output, answer.readCalls asked = .ok calls →
          answer.readOutput asked = .ok output →
          ¬ answer.Unwanted asked → ¬ answer.Empty →
          ending.filterMap (·.asCandidate) = calls ∧
            (ending.filterMap (·.asOutput)).getLast?.getD .null = output := by
  rw [SameEnding, hres.fails_iff]
  refine and_congr_right fun _ => ?_
  cases hres with
  | refused hrefuses => exact absurd hrefuses href
  | calls _ hcalls => simp [hcalls]
  | unwanted _ _ hunwanted => simp [hunwanted]
  | empty _ _ hempty => simp [hempty]
  | output _ _ _ _ houtp => simp [houtp]
  | returns _ hcalls hunwanted hempty houtp => simp [hcalls, houtp, hunwanted, hempty]

theorem sameEnding_calls_iff {calls : List ModelToolCall}
    (hcalls : answer.readCalls asked = .ok calls) :
    SameEnding result (calls.map .toolCallCandidate) ↔ answer.FitsToolCalls asked := by
  have herrors : (calls.map ModelStreamEvent.toolCallCandidate).filterMap (·.asError) = [] := by
    simp [ModelStreamEvent.asError, filterMap_map]
  have hcands :
      (calls.map ModelStreamEvent.toolCallCandidate).filterMap (·.asCandidate) = calls := by
    rw [filterMap_map]
    exact filterMap_some
  have houtputs : (calls.map ModelStreamEvent.toolCallCandidate).filterMap (·.asOutput) = [] := by
    simp [ModelStreamEvent.asOutput, filterMap_map]
  rw [sameEnding_iff href hres, herrors, hcands, houtputs]
  simp only [Answer.Rejected, Answer.FitsToolCalls, href, hcalls]
  cases houtp : answer.readOutput asked with
  | error => simp
  | ok =>
    simp [eq_comm (a := JsonValue.null)]
    tauto

theorem sameEnding_badCalls_iff {error : VllmError}
    (hcalls : answer.readCalls asked = .error error) :
    SameEnding result (errorEvents error) ↔ answer.FitsToolCalls asked := by
  rw [sameEnding_iff href hres, asError_errorEvents]
  simp [Answer.Rejected, Answer.FitsToolCalls, href, hcalls]

theorem sameEnding_output_iff {output : JsonValue}
    (houtp : answer.readOutput asked = .ok output)
    (herrors : ending.filterMap (·.asError) = []) (hcands : ending.filterMap (·.asCandidate) = [])
    (houtputs : (ending.filterMap (·.asOutput)).getLast?.getD .null = output) :
    SameEnding result ending ↔ answer.FitsStop asked := by
  rw [sameEnding_iff href hres, herrors, hcands, houtputs]
  cases hcalls : answer.readCalls asked with
  | error =>
    have hsome := Answer.toolCalls_ne_nil hcalls
    simp [Answer.Rejected, Answer.FitsStop, href, hcalls, houtp, hsome]
  | ok =>
    have hnil := Answer.readCalls_eq_nil hcalls
    simp [Answer.Rejected, Answer.FitsStop, href, hcalls, houtp, Answer.Unwanted, Answer.Empty]
    tauto

theorem sameEnding_badOutput_iff {error : VllmError}
    (houtp : answer.readOutput asked = .error error) :
    SameEnding result (errorEvents error) ↔ answer.FitsStop asked := by
  rw [sameEnding_iff href hres, asError_errorEvents]
  cases hcalls : answer.readCalls asked with
  | error =>
    have hsome := Answer.toolCalls_ne_nil hcalls
    simp [Answer.Rejected, Answer.FitsStop, href, hcalls, houtp, hsome]
    tauto
  | ok =>
    have hempty : answer.Empty → error ≠ .foreign := fun hempty hforeign =>
      Answer.readOutput_of_empty hempty (hforeign ▸ houtp)
    simp [Answer.Rejected, Answer.FitsStop, href, hcalls, houtp, Answer.Unwanted,
      Answer.Empty] at hempty ⊢
    tauto

end Endings

theorem agree_of_fails {events : List ModelStreamEvent} (hres : Fails result) :
    Agree result events ↔ events.filterMap (·.asError) ≠ [] := by
  obtain ⟨error, rfl, hforeign⟩ := hres
  constructor
  · exact fun hagree => hagree.error.mpr ((fails_error error).mpr hforeign)
  · intro herrors
    exact
      { error := ⟨fun _ => (fails_error error).mpr hforeign, fun _ => herrors⟩
        content := fun response hresp => by cases hresp
        toolCalls := fun response hresp => by cases hresp
        structuredOutput := fun response hresp => by cases hresp }

theorem agree_error_iff (reason : ModelError) : Agree result [.error reason] ↔ Fails result :=
  ⟨fun hagree => hagree.error.mp (cons_ne_nil _ _),
    fun hres => (agree_of_fails hres).mpr (cons_ne_nil _ _)⟩

theorem agree_done_iff {events dones : List ModelStreamEvent}
    (hdones : ∀ event ∈ dones, ∃ reason usage, event = .done reason usage) :
    Agree result (events ++ dones) ↔ Agree result events := by
  have hnone {β : Type} (observe : ModelStreamEvent → Option β)
      (hobserve : ∀ reason usage, observe (.done reason usage) = none) :
      (events ++ dones).filterMap observe = events.filterMap observe := by
    have hnil : dones.filterMap observe = [] := by
      refine filterMap_eq_nil_iff.mpr fun event hevent => ?_
      obtain ⟨reason, usage, rfl⟩ := hdones event hevent
      exact hobserve reason usage
    rw [filterMap_append, hnil, append_nil]
  have herror := hnone (·.asError) fun _ _ => rfl
  have htoken := hnone (·.asToken) fun _ _ => rfl
  have hcand := hnone (·.asCandidate) fun _ _ => rfl
  have houtp := hnone (·.asOutput) fun _ _ => rfl
  constructor
  all_goals
    rintro ⟨hfirst, hsnd, hthird, hfourth⟩
    exact ⟨herror ▸ hfirst, htoken ▸ hsnd, hcand ▸ hthird, houtp ▸ hfourth⟩

theorem agree_iff_consistent {state : StreamState} {pieces : List Piece}
    (hstate : Collected asked.request pieces state)
    (hcont : String.join (pieces.filterMap (·.content)) = answer.content.getD "")
    (hrefusal : String.join (pieces.filterMap (·.refusal)) = answer.refusal.getD "")
    (hres : answer.Responds asked result)
    (hend : answer.Ends asked ending) :
    Agree result (state.events ++ ending) ↔ answer.Consistent asked := by
  by_cases href : answer.Refused
  · have hfails : Fails result := hres.fails_iff.mpr (.inl href)
    refine ⟨fun _ => .inl href, fun _ => (agree_of_fails hfails).mpr ?_⟩
    rw [filterMap_append]
    rcases href with href | hfil
    · exact append_ne_nil_of_left_ne_nil (hstate.refusal.mpr (hrefusal ▸ href)) _
    · cases hend with
      | unsuccessful => exact append_ne_nil_of_right_ne_nil _ (cons_ne_nil _ _)
      | calls hfin | badCalls hfin | plain hfin | output hfin | badOutput hfin =>
        rw [hfil] at hfin
        exact absurd hfin (by decide)
  · have hnone : answer.refusal.getD "" = "" := by
      by_contra hsome
      exact href (.inl hsome)
    rw [agree_append_iff hstate hcont (hrefusal.trans hnone) hres hend]
    cases hend with
    | calls hfin hcalls =>
      simp [sameEnding_calls_iff href hres hcalls, Answer.Consistent, href, hfin]
    | badCalls hfin hcalls =>
      simp [sameEnding_badCalls_iff href hres hcalls, Answer.Consistent, href, hfin]
    | plain hfin houtp =>
      have hsame : SameEnding result [] ↔ _ := sameEnding_output_iff href hres houtp rfl rfl rfl
      simp [hsame, Answer.Consistent, href, hfin]
    | @output value hfin houtp =>
      have hsame : SameEnding result [.structuredOutput value] ↔ _ :=
        sameEnding_output_iff href hres houtp rfl rfl rfl
      simp [hsame, Answer.Consistent, href, hfin]
    | badOutput hfin houtp =>
      simp [sameEnding_badOutput_iff href hres houtp, Answer.Consistent, href, hfin]
    | unsuccessful htools hstop =>
      simp [sameEnding_error_iff, hres.fails_iff, Answer.Consistent, href, htools, hstop]

variable {toolCalling : Option ToolCallingSpec} {error : VllmError}

theorem ensureToolConstraintsSupported_error
    (herror : ensureToolConstraintsSupported toolCalling = .error error) :
    error = .constrainedDecodingUnsupported := by
  cases toolCalling with
  | none => cases herror
  | some =>
    rw [ensureToolConstraintsSupported] at herror
    split at herror
    · cases herror
      rfl
    · cases herror

theorem addConstraints_error {constraints : List (String × JsonSchemaConstraint)}
    {tools : List ModelToolSpec} (herror : addConstraints constraints tools = .error error) :
    error = .response := by
  induction tools generalizing constraints with
  | nil => cases herror
  | cons _ _ ih =>
    rw [addConstraints] at herror
    split at herror
    · cases herror
      rfl
    · exact ih herror

theorem toolConstraintsByName_error (herror : toolConstraintsByName toolCalling = .error error) :
    error = .response := by
  cases toolCalling with
  | none => cases herror
  | some toolCalling =>
    rw [toolConstraintsByName] at herror
    cases hadd : addConstraints [] toolCalling.tools with
    | ok =>
      rw [hadd] at herror
      cases herror
    | error =>
      rw [hadd] at herror
      cases herror
      exact addConstraints_error hadd

variable (decoder : Decoder) (request : ModelRequest)

/-- When the two agree on an answer. A request that is not supported is reported by both,
and one with two tools of a name only by `complete`; a disabled stream reports that it is
disabled, whatever `complete` does. -/
def Answer.Alike (streamEnabled : Bool) (answer : Answer) : Prop :=
  match ensureToolConstraintsSupported request.toolCalling,
    toolConstraintsByName request.toolCalling with
  | .error _, _ => True
  | .ok (), .error _ => streamEnabled = false
  | .ok (), .ok constraints =>
    if streamEnabled = false then answer.Rejected ⟨decoder, constraints, request⟩
    else answer.Consistent ⟨decoder, constraints, request⟩

theorem stream_agrees_iff (streamEnabled : Bool) {answer : Answer} (cut : Cut answer)
    {response : JsonObject} {jsons : List JsonObject} (hresponse : IsResponse response answer)
    (hjsons : List.Forall₂ IsChunk jsons cut.chunks) :
    Agree (complete decoder request (.ok response))
        (stream decoder request streamEnabled (.ok (jsons.map .ok))).events ↔
      answer.Alike decoder request streamEnabled := by
  cases hsupported : ensureToolConstraintsSupported request.toolCalling with
  | error error =>
    have herror := ensureToolConstraintsSupported_error hsupported
    have hcomplete : complete decoder request (.ok response) = .error error := by
      rw [complete, hsupported, except_error_then]
    rw [hcomplete, agree_of_fails ((fails_error error).mpr (by rw [herror]; decide))]
    cases streamEnabled with
    | false => simp [stream, fails, Answer.Alike, hsupported, ModelStreamEvent.asError]
    | true => simp [stream, fails, Answer.Alike, hsupported, herror, ModelStreamEvent.asError]
  | ok =>
    cases hconstraints : toolConstraintsByName request.toolCalling with
    | error error =>
      have herror := toolConstraintsByName_error hconstraints
      have hcomplete : complete decoder request (.ok response) = .error error := by
        rw [complete, hsupported, except_ok_then, hconstraints, except_error_then]
      rw [hcomplete, agree_of_fails ((fails_error error).mpr (by rw [herror]; decide))]
      cases streamEnabled with
      | false =>
        simp [stream, fails, Answer.Alike, hsupported, hconstraints, ModelStreamEvent.asError]
      | true => simp [stream, Answer.Alike, hsupported, hconstraints]
    | ok constraints =>
      have hcomplete : complete decoder request (.ok response) =
          toModelResponse decoder request constraints response := by
        rw [complete, hsupported, except_ok_then, hconstraints, except_ok_then, except_ok_then]
      have hresult : answer.Responds ⟨decoder, constraints, request⟩
          (toModelResponse decoder request constraints response) := hresponse.responds
      rw [hcomplete]
      cases streamEnabled with
      | false =>
        have hevents : (stream decoder request false (.ok (jsons.map .ok))).events =
            [.error (toModelError .streamingDisabled)] ++ [.done none none] := rfl
        rw [hevents, agree_done_iff fun event hevent => ⟨_, _, mem_singleton.mp hevent⟩,
          agree_error_iff, hresult.fails_iff]
        simp [Answer.Alike, hsupported, hconstraints]
      | true =>
        obtain ⟨state, ending, hstate, hending, hevents⟩ :=
          stream_events ⟨decoder, constraints, request⟩ cut hjsons
        obtain ⟨_, hdones, hconcludes⟩ :=
          concludes_events (streamChunks decoder request constraints (jsons.map .ok) {})
        have hstream : stream decoder request true (.ok (jsons.map .ok)) =
            concludes (streamChunks decoder request constraints (jsons.map .ok) {}) := by
          simp [stream, hsupported, hconstraints]
        rw [hstream, hconcludes, hevents, agree_done_iff hdones,
          agree_iff_consistent hstate cut.content cut.refusal hresult hending]
        simp [Answer.Alike, hsupported, hconstraints]

/-- Decodes an empty object only. -/
def emptyObjectDecoder : Decoder where
  loads text := if text = "\x7b\x7d" then .ok (.object []) else .error .jsonDecodeError
  equal _ _ := false

def searchAnswer : Answer where
  content := none
  toolCalls := [⟨some "call-1", "search", "\x7b\x7d"⟩]
  refusal := none
  finishReason := "tool_calls"

def searchResponse : JsonObject :=
  [("choices", .array [.object
    [("message", .object
      [("tool_calls", .array [.object
        [("id", .string "call-1"),
          ("function",
            .object [("name", .string "search"), ("arguments", .string "\x7b\x7d")])]])]),
      ("finish_reason", .string "tool_calls")]])]

def searchChunks : List JsonObject :=
  [[("choices", .array [.object
      [("delta", .object
        [("tool_calls", .array [.object
          [("index", .integer 0), ("id", .string "call-1"),
            ("function",
              .object [("name", .string "search"), ("arguments", .string "\x7b")])]])])]])],
    [("choices", .array [.object
      [("delta", .object
        [("tool_calls", .array [.object
          [("index", .integer 0), ("function", .object [("arguments", .string "\x7d")])]])]),
        ("finish_reason", .string "tool_calls")]])],
    [("choices", .array []), ("usage", .object [("total_tokens", .integer 5)])]]

/-- The arguments cut in two, and a chunk for the usage. -/
def searchCut : Cut searchAnswer where
  chunks :=
    [{ choice := some { fragments := [⟨0, some "call-1", some "search", some "\x7b"⟩] } },
      { choice := some
          { fragments := [⟨0, none, none, some "\x7d"⟩], finishReason := some "tool_calls" } },
      { choice := none, usage := some { totalTokens := some 5 } }]
  init := [{ fragments := [⟨0, some "call-1", some "search", some "\x7b"⟩] }]
  last := { fragments := [⟨0, none, none, some "\x7d"⟩], finishReason := some "tool_calls" }
  pieces := rfl
  unfinished := by simp
  finished := rfl
  content := rfl
  refusal := rfl
  calls :=
    { index := by simp [searchAnswer]
      call := by
        intro index hindex
        obtain rfl : index = 0 := Nat.lt_one_iff.mp hindex
        exact
          { callId := ⟨by simp [searchAnswer], by simp⟩
            name := ⟨by simp [searchAnswer], by simp⟩
            arguments := by simp [searchAnswer] } }

theorem searchResponse_isResponse : IsResponse searchResponse searchAnswer :=
  .response rfl rfl rfl rfl (.present (.cons (.call rfl rfl rfl rfl) .nil)) rfl rfl

theorem searchChunks_isChunk : List.Forall₂ IsChunk searchChunks searchCut.chunks :=
  .cons (.choice rfl .absent rfl
      (.present rfl rfl (.present (.cons (.function rfl rfl rfl rfl rfl rfl) .nil))) rfl)
    (.cons (.choice rfl .absent rfl
        (.present rfl rfl (.present (.cons (.function rfl rfl rfl rfl rfl rfl) .nil))) rfl)
      (.cons (.usage rfl (.present rfl) rfl) .nil))

theorem stream_agrees_iff_search :
    Agree (complete emptyObjectDecoder {} (.ok searchResponse))
      (stream emptyObjectDecoder {} true (.ok (searchChunks.map .ok))).events := by
  refine (stream_agrees_iff emptyObjectDecoder {} true searchCut searchResponse_isResponse
    searchChunks_isChunk).mpr ?_
  refine .inr (.inl ⟨rfl, .inr ⟨?_, ?_, .inl rfl⟩⟩)
  · exact fun hunwanted => Bool.noConfusion hunwanted.1
  · exact fun hempty => cons_ne_nil _ _ hempty.2

/-- A request with two tools of one name, of which one has to be called. -/
def repeatedTool : ModelRequest where
  toolCalling := some
    { tools := replicate 2 ⟨"search", { schema := [] }⟩
      choice := .required }

/-- Two tools of one name are an error, which leaves the stream without an event. -/
theorem stream_lets_error_escape :
    IsResponse searchResponse searchAnswer ∧
      List.Forall₂ IsChunk searchChunks searchCut.chunks ∧
      complete emptyObjectDecoder repeatedTool (.ok searchResponse) = .error .response ∧
      stream emptyObjectDecoder repeatedTool true (.ok (searchChunks.map .ok)) =
        { events := [], raised := some .response } ∧
      ¬ Agree (complete emptyObjectDecoder repeatedTool (.ok searchResponse))
        (stream emptyObjectDecoder repeatedTool true (.ok (searchChunks.map .ok))).events := by
  refine ⟨searchResponse_isResponse, searchChunks_isChunk, rfl, rfl, fun hagree => ?_⟩
  exact hagree.error.mpr ⟨.response, rfl, by decide⟩ rfl

end Agreement

end Spakky.Vllm
