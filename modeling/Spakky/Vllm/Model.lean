import Spakky.Vllm.Validation

/-!
`VllmAgentModel`: the mapping of a vLLM chat completion to a response, and the
mapping of its chunks to stream events. Both work on decoded JSON, of which any
shape may arrive.

The payload of the request is not modelled, apart from the check that raises
while it is built; nor is the metadata that is the same for all events.
-/

namespace Spakky.Vllm

open Agent Effect Exec

structure JsonSchemaConstraint where
  schema : JsonObject
  strict : Bool := true

inductive ModelToolChoice where
  | auto
  | none
  | required
  deriving DecidableEq, Repr

structure ModelToolSpec where
  name : String
  parameters : JsonSchemaConstraint

structure ToolCallingSpec where
  tools : List ModelToolSpec
  choice : ModelToolChoice := .auto

/-- What the answer is read with: the constraint of the structured output and the
tools. -/
structure ModelRequest where
  structuredOutput : Option JsonSchemaConstraint := none
  toolCalling : Option ToolCallingSpec := none

structure ModelUsage where
  inputTokens : Option Int := none
  outputTokens : Option Int := none
  totalTokens : Option Int := none
  deriving DecidableEq, Repr

structure ModelToolCall where
  name : String
  arguments : JsonObject
  callId : Option String
  providerArguments : String

structure ModelResponse where
  content : String
  structuredOutput : JsonValue
  toolCalls : List ModelToolCall
  usage : ModelUsage
  finishReason : Option String

structure ModelError where
  code : String
  message : String
  retryable : Bool := false
  finishReason : Option String := none
  deriving DecidableEq, Repr

inductive ModelStreamEvent where
  | tokenDelta (content : String)
  | toolCallCandidate (call : ModelToolCall)
  | structuredOutput (value : JsonValue)
  | error (error : ModelError)
  | done (finishReason : Option String) (usage : Option ModelUsage)

def toUsage : JsonValue → Except VllmError ModelUsage
  | .null => .ok {}
  | value => do
      let usage ← expectMapping value
      let inputTokens ← optionalInt (get usage "prompt_tokens")
      let outputTokens ← optionalInt (get usage "completion_tokens")
      let totalTokens ← optionalInt (get usage "total_tokens")
      return ⟨inputTokens, outputTokens, totalTokens⟩

section Tools

/-- `_ensure_tool_constraints_supported` -/
def ensureToolConstraintsSupported : Option ToolCallingSpec → Except VllmError Unit
  | none => .ok ()
  | some toolCalling =>
    if toolCalling.choice = .auto ∧ toolCalling.tools.any (·.parameters.strict) then
      .error .constrainedDecodingUnsupported
    else .ok ()

def addConstraints (constraints : List (String × JsonSchemaConstraint)) :
    List ModelToolSpec → Except VllmError (List (String × JsonSchemaConstraint))
  | [] => .ok constraints
  | tool :: rest =>
    if (constraints.lookup tool.name).isSome then .error .response
    else addConstraints (constraints ++ [(tool.name, tool.parameters)]) rest

/-- `_tool_constraints_by_name` -/
def toolConstraintsByName :
    Option ToolCallingSpec → Except VllmError (Option (List (String × JsonSchemaConstraint)))
  | none => .ok none
  | some toolCalling => (addConstraints [] toolCalling.tools).map some

/-- `_tool_constraint_for` -/
def toolConstraintFor (name : String) :
    Option (List (String × JsonSchemaConstraint)) → Except VllmError (Option JsonSchemaConstraint)
  | none => .ok none
  | some constraints =>
    match constraints.lookup name with
    | none => .error .response
    | some constraint => .ok (some constraint)

variable (decoder : Decoder)

def validate (value : JsonValue) : Option JsonSchemaConstraint → Except VllmError Unit
  | none => .ok ()
  | some constraint => validateJsonValue decoder value constraint.schema

/-- `json.loads` with its `JSONDecodeError` turned into a `VllmResponseError`. -/
def decode (text : String) : Except VllmError JsonValue :=
  match decoder.loads text with
  | .ok value => .ok value
  | .error .jsonDecodeError => .error .response
  | .error .other => .error .foreign

/-- `_to_tool_arguments` -/
def toToolArguments (value : JsonValue) (constraint : Option JsonSchemaConstraint) :
    Except VllmError JsonObject := do
  match ← optionalString value with
  | none | some "" =>
    validate decoder (.object []) constraint
    return []
  | some raw =>
    let decoded ← decode decoder raw
    let arguments ← expectMapping decoded
    validate decoder (.object arguments) constraint
    return arguments

variable (constraints : Option (List (String × JsonSchemaConstraint)))

/-- One round of the loop of `_to_tool_calls`. -/
def toToolCall (rawCall : JsonValue) : Except VllmError ModelToolCall := do
  let item ← expectMapping rawCall
  let function ← expectMapping (get item "function")
  match get function "name" with
  | .string name =>
    let constraint ← toolConstraintFor name constraints
    let arguments ← toToolArguments decoder (get function "arguments") constraint
    let callId ← optionalString (get item "id")
    let providerArguments ← optionalString (get function "arguments")
    return ⟨name, arguments, callId, providerArguments.getD ""⟩
  | _ => throw .response

/-- `_to_tool_calls` -/
def toToolCalls : JsonValue → Except VllmError (List ModelToolCall)
  | .null => .ok []
  | value => do
      let rawCalls ← expectSequence value
      rawCalls.mapM (toToolCall decoder constraints)

end Tools

section Complete

variable (decoder : Decoder)

/-- `_to_message_content` -/
def toMessageContent (value : JsonValue) (toolCalls : List ModelToolCall) :
    Except VllmError String :=
  match value with
  | .string content => .ok content
  | .null => if toolCalls ≠ [] then .ok "" else .error .response
  | _ => .error .response

/-- `_to_structured_output` -/
def toStructuredOutput (content : String) (constraint : JsonSchemaConstraint) :
    Except VllmError JsonValue := do
  if content = "" then throw .response
  let structuredOutput ← decode decoder content
  validate decoder structuredOutput (some constraint)
  return structuredOutput

/-- `None`, unless a structured output was requested. -/
def requestedOutput (content : String) :
    Option JsonSchemaConstraint → Except VllmError JsonValue
  | none => .ok .null
  | some constraint => toStructuredOutput decoder content constraint

/-- The tool calls are not wanted. -/
def forbidsToolCalls (request : ModelRequest) : Bool := request.toolCalling.any (·.choice = .none)

variable (request : ModelRequest)

/-- `_to_model_response` -/
def toModelResponse (constraints : Option (List (String × JsonSchemaConstraint)))
    (response : JsonObject) : Except VllmError ModelResponse := do
  let choices ← expectSequence (get response "choices")
  match choices with
  | [] => throw .response
  | first :: _ =>
    let firstChoice ← expectMapping first
    let finishReason ← optionalString (get firstChoice "finish_reason")
    let message ← expectMapping (get firstChoice "message")
    let refusal ← optionalString (get message "refusal")
    if refusal.getD "" ≠ "" then throw .modelRefusal
    if finishReason = some "content_filter" then throw .modelRefusal
    let toolCalls ← toToolCalls decoder constraints (get message "tool_calls")
    if forbidsToolCalls request ∧ toolCalls ≠ [] then throw .response
    let content ← toMessageContent (get message "content") toolCalls
    let structuredOutput ← requestedOutput decoder content request.structuredOutput
    let usage ← toUsage (get response "usage")
    return ⟨content, structuredOutput, toolCalls, usage, finishReason⟩

/-- `complete`, with what the client returns or raises. -/
def complete (client : Except VllmError JsonObject) : Except VllmError ModelResponse := do
  ensureToolConstraintsSupported request.toolCalling
  let constraints ← toolConstraintsByName request.toolCalling
  let response ← client
  toModelResponse decoder request constraints response

end Complete

section Stream

/-- `_ToolCallBuffer` -/
structure ToolCallBuffer where
  callId : Option String := none
  name : Option String := none
  argumentsFragments : List String := []
  deriving DecidableEq, Repr

structure StreamState where
  events : List ModelStreamEvent := []
  structuredFragments : List String := []
  toolBuffers : List (Int × ToolCallBuffer) := []
  finishReason : Option String := none
  usage : Option ModelUsage := none
  terminalError : Option ModelError := none

abbrev Streaming := Exec StreamState VllmError

def emit (event : ModelStreamEvent) : Streaming Unit :=
  modify fun state => { state with events := state.events ++ [event] }

/-- Changes the buffer of an index, which is a new one if there was none. -/
def changeBuffer (index : Int) (change : ToolCallBuffer → ToolCallBuffer) :
    List (Int × ToolCallBuffer) → List (Int × ToolCallBuffer)
  | [] => [(index, change {})]
  | (other, buffer) :: rest =>
    if other = index then (other, change buffer) :: rest
    else (other, buffer) :: changeBuffer index change rest

def inBuffer (index : Int) (change : ToolCallBuffer → ToolCallBuffer) : Streaming Unit :=
  modify fun state => { state with toolBuffers := changeBuffer index change state.toolBuffers }

/-- One round of the loop of `_accumulate_tool_call_chunks`. -/
def accumulateToolCallChunk (rawCall : JsonValue × Nat) : Streaming Unit := do
  let item ← ofExcept (expectMapping rawCall.1)
  let given ← ofExcept (optionalInt (get item "index"))
  let index := given.getD rawCall.2
  inBuffer index id
  let callId ← ofExcept (optionalString (get item "id"))
  inBuffer index fun buffer => { buffer with callId := callId.or buffer.callId }
  match get item "function" with
  | .null => pure ()
  | value =>
    let function ← ofExcept (expectMapping value)
    let name ← ofExcept (optionalString (get function "name"))
    inBuffer index fun buffer => { buffer with name := name.or buffer.name }
    let fragment ← ofExcept (optionalString (get function "arguments"))
    inBuffer index fun buffer =>
      { buffer with argumentsFragments := buffer.argumentsFragments ++ fragment.toList }

/-- `_accumulate_tool_call_chunks` -/
def accumulateToolCallChunks (value : JsonValue) : Streaming Unit := do
  let rawCalls ← ofExcept (expectSequence value)
  forEach accumulateToolCallChunk rawCalls.zipIdx

variable (decoder : Decoder) (request : ModelRequest)
  (constraints : Option (List (String × JsonSchemaConstraint)))

/-- `_ToolCallBuffer.to_tool_call` -/
def ToolCallBuffer.toToolCall (buffer : ToolCallBuffer) : Except VllmError ModelToolCall :=
  match buffer.name with
  | none => .error .response
  | some name => do
      let constraint ← toolConstraintFor name constraints
      let providerArguments := String.join buffer.argumentsFragments
      let arguments ← toToolArguments decoder (.string providerArguments) constraint
      return ⟨name, arguments, buffer.callId, providerArguments⟩

/-- The buffers in the order of `sorted(tool_buffers)`. -/
def sortedBuffers (buffers : List (Int × ToolCallBuffer)) : List ToolCallBuffer :=
  ((buffers.map Prod.fst).mergeSort).map fun index => (buffers.lookup index).getD {}

/-- `_tool_call_events`. No event is emitted unless all calls can be made. -/
def toolCallEvents : Streaming Unit := do
  let buffers ← reads (·.toolBuffers)
  let calls ← ofExcept ((sortedBuffers buffers).mapM fun buffer =>
    buffer.toToolCall decoder constraints)
  modify fun state =>
    { state with
      events := state.events ++ calls.map ModelStreamEvent.toolCallCandidate
      toolBuffers := [] }

/-- The content of a delta, which is kept for a structured output. -/
def streamContent (content : String) : Streaming Unit :=
  if content = "" then pure ()
  else do
    if request.structuredOutput.isSome then
      modify fun state =>
        { state with structuredFragments := state.structuredFragments ++ [content] }
    emit (.tokenDelta content)

def refusalError (refusal : String) : ModelError where
  code := "model_refusal"
  message := refusal

def streamRefusal (refusal : String) : Streaming Unit :=
  if refusal = "" then pure () else emit (.error (refusalError refusal))

def streamToolCalls : JsonValue → Streaming Unit
  | .null => pure ()
  | toolCalls => accumulateToolCallChunks toolCalls

/-- `_stream_choice_events`. An empty string is treated as `None` is. -/
def streamChoiceEvents (choice : JsonObject) : Streaming Unit :=
  match get choice "delta" with
  | .null => pure ()
  | value => do
      let delta ← ofExcept (expectMapping value)
      let content ← ofExcept (optionalString (get delta "content"))
      streamContent request (content.getD "")
      let refusal ← ofExcept (optionalString (get delta "refusal"))
      streamRefusal (refusal.getD "")
      streamToolCalls (get delta "tool_calls")

/-- `_finish_reason_error` -/
def finishReasonError (finishReason : String) : Option ModelError :=
  if finishReason = "stop" ∨ finishReason = "tool_calls" then none
  else
    some
      { code := if finishReason = "content_filter" then "model_refusal" else "model_finish_reason"
        message := "vLLM stream finished with reason: " ++ finishReason
        finishReason := some finishReason }

/-- `_to_structured_output_event` -/
def structuredOutputEvent (constraint : JsonSchemaConstraint) : Streaming Unit := do
  let fragments ← reads (·.structuredFragments)
  let value ← ofExcept (toStructuredOutput decoder (String.join fragments) constraint)
  emit (.structuredOutput value)

/-- What follows on the finish reason of a choice. -/
def finishes (finishReason : String) : Streaming Unit := do
  modify fun state => { state with finishReason := some finishReason }
  if finishReason = "tool_calls" then toolCallEvents decoder constraints
  if finishReason = "stop" then
    match request.structuredOutput with
    | none => pure ()
    | some constraint => structuredOutputEvent decoder constraint
  modify fun state => { state with terminalError := finishReasonError finishReason }

def finishesIfAny : Option String → Streaming Unit
  | none => pure ()
  | some finishReason => finishes decoder request constraints finishReason

/-- One round of the loop over the choices of a chunk. -/
def streamChoice (rawChoice : JsonValue) : Streaming Unit := do
  let choice ← ofExcept (expectMapping rawChoice)
  streamChoiceEvents request choice
  let finishReason ← ofExcept (optionalString (get choice "finish_reason"))
  finishesIfAny decoder request constraints finishReason

/-- An empty string is replaced as `None` is. -/
def orElse (value : Option String) (default : String) : String :=
  if value.getD "" = "" then default else value.getD ""

/-- `_to_provider_error` -/
def toProviderError : JsonValue → Except VllmError (Option ModelError)
  | .null => .ok none
  | value => do
      let error ← expectMapping value
      let code ← optionalString (get error "code")
      let message ← optionalString (get error "message")
      return some
        { code := orElse code "provider_error", message := orElse message "vLLM stream error" }

/-- The usage of a chunk, if it has any. -/
def streamUsage : JsonValue → Streaming Unit
  | .null => pure ()
  | value => do
      let usage ← ofExcept (toUsage value)
      modify fun state => { state with usage := some usage }

/-- One round of the loop over the chunks, and whether it goes on. -/
def streamChunk (chunk : JsonObject) : Streaming Bool := do
  match ← ofExcept (toProviderError (get chunk "error")) with
  | some providerError =>
    modify fun state => { state with terminalError := some providerError }
    return false
  | none =>
    streamUsage (get chunk "usage")
    let choices ← ofExcept (expectSequence (get chunk "choices"))
    forEach (streamChoice decoder request constraints) choices
    return true

def streamChunks : List (Except VllmError JsonObject) → Streaming Unit
  | [] => pure ()
  | chunk :: rest => do
      let received ← ofExcept chunk
      if ← streamChunk decoder request constraints received then streamChunks rest

/-- `_to_model_error` -/
def toModelError : VllmError → ModelError
  | .timeout =>
    { code := "vllm_timeout", message := "vLLM request timed out", retryable := true }
  | .transport =>
    { code := "vllm_transport_error", message := "vLLM transport request failed"
      retryable := true }
  | .streamingDisabled =>
    { code := "vllm_streaming_disabled", message := "vLLM streaming is disabled" }
  | .constrainedDecodingUnsupported =>
    { code := "vllm_constrained_decoding_unsupported"
      message := "vLLM cannot enforce requested constrained decoding mode" }
  | .response | .modelRefusal | .foreign =>
    { code := "vllm_response_error", message := "vLLM response is invalid" }

/-- What iterating the stream yields, the exception that ends the iteration, and how often
the stream of the client is closed. -/
structure Streamed where
  events : List ModelStreamEvent
  raised : Option VllmError := none
  closes : Nat := 0

/-- The handlers of `AbstractVllmError`, after some events. -/
def fails (events : List ModelStreamEvent) (closes : Nat) : VllmError → Streamed
  | .foreign => { events := events, raised := some .foreign, closes := closes }
  | error =>
    { events := events ++ [.error (toModelError error), .done none none], closes := closes }

/-- What follows the loop over the chunks, however it ends. -/
def concludes : Except VllmError Unit × StreamState → Streamed
  | (.error error, state) => fails state.events 1 error
  | (.ok (), state) =>
    { events := state.events ++ state.terminalError.toList.map ModelStreamEvent.error ++
        [.done state.finishReason state.usage]
      closes := 1 }

/-- `stream`, with what the client raises when it opens the stream, or the chunks it
yields up to the one that fails. Nothing handles an error of `_tool_constraints_by_name`. -/
def stream (streamEnabled : Bool)
    (client : Except VllmError (List (Except VllmError JsonObject))) : Streamed :=
  if streamEnabled = false then fails [] 0 .streamingDisabled
  else
    match ensureToolConstraintsSupported request.toolCalling with
    | .error error => fails [] 0 error
    | .ok () =>
      match toolConstraintsByName request.toolCalling with
      | .error error => { events := [], raised := some error }
      | .ok constraints =>
        match client with
        | .error error => fails [] 0 error
        | .ok chunks => concludes (streamChunks decoder request constraints chunks {})

end Stream

end Spakky.Vllm
