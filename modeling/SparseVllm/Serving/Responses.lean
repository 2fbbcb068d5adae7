import SparseVllm.Serving.Deltas

/-!
# The Responses endpoint (`entrypoints/openai/serving/responses.py`)

`responseResponse` answers with one response object; `responseStream` folds the deltas into the
output of a `ResponseStreamState` and ends with a response object of its own. Items carry no ids.
The stream keeps the frames that carry a response object; `Serving.Frames` has all of them. Left out:
the checks of a request, timestamps, the fields that echo the request, and the disconnect of a client.
-/

namespace SparseVllm.Serving

open Lib

/-! ## Response objects -/

/-- The status of an output item. -/
inductive ItemStatus where
  | inProgress
  | completed
deriving DecidableEq

/-- An output item; a message has the texts of its parts. -/
inductive OutputItem where
  | reasoning (text : Text)
  | functionCall (name arguments : Text) (status : ItemStatus)
  | message (parts : List Text) (status : ItemStatus)
deriving DecidableEq

/-- The status of a response. -/
inductive ResponseStatus where
  | inProgress
  | completed
  | incomplete
  | failed
deriving DecidableEq

/-- `_usage_from_final`. -/
structure Usage where
  inputTokens : Nat
  outputTokens : Nat
  totalTokens : Nat
deriving DecidableEq

/-- `response_object`. -/
structure ResponseObject where
  status : ResponseStatus
  output : List OutputItem
  usage : Option Usage := none
  incompleteReason : Option String := none
  error : Option (String × Complaint) := none

def usageFromFinal (final : FinalItem) : Usage where
  inputTokens := final.promptTokens
  outputTokens := final.completionTokens
  totalTokens := final.promptTokens + final.completionTokens

/-- The response object of a finished answer. -/
def finishedResponse (final : FinalItem) (output : List OutputItem) : ResponseObject :=
  let incomplete := final.finishReason = .length
  { status := if incomplete then .incomplete else .completed
    output
    usage := some (usageFromFinal final)
    incompleteReason := if incomplete then some "max_output_tokens" else none }

/-! ## Without streaming -/

/-- `_message_output_item`. -/
def messageOutputItem (text : Text) : OutputItem :=
  .message [text] .completed

/-- `_response_output_items`. -/
def responseOutputItems (parsed : ParsedModelResponse) : List OutputItem :=
  let reasoning := match parsed.reasoningContent with
    | some text => [OutputItem.reasoning text]
    | none => []
  if !parsed.toolCalls.isEmpty then
    reasoning ++ parsed.toolCalls.map fun function =>
      OutputItem.functionCall function.name function.arguments .completed
  else if !parsed.content.isEmpty || parsed.reasoningContent.isNone then
    reasoning ++ [messageOutputItem parsed.content]
  else reasoning

variable {P : Type}

/-- `raise HTTPException(status_code=500, detail=f"… parse failed: {exc}") from exc`. -/
def parseFailed (endpoint : String) (exc : PyException) : PyException where
  kind := .httpException 500
  message := .parseFailed endpoint exc.message
  causes := exc.kind :: exc.causes

/-- What the Responses endpoint makes of a final text. -/
def responseParsed (options : ParseOptions P) (final : FinalItem) :
    Except PyException ParsedModelResponse :=
  if options.shouldParse then
    match options.responseParser with
    | none => .error { kind := .httpException 500, message := .parserNotConfigured }
    | some tokenizer =>
      match parse tokenizer options.prompt final.parserText options.parseTools with
      | .ok parsed => .ok parsed
      | .error exc =>
        .error (if exc.isResponseParseError then parseFailed "Responses" exc else exc)
  else .ok { reasoningContent := none, content := final.text, toolCalls := [] }

/-- `_response_response`. -/
def responseResponse (options : ParseOptions P) (queue : Queue) :
    Except PyException ResponseObject := do
  let final ← waitFinal queue
  let parsed ← responseParsed options final
  return finishedResponse final (responseOutputItems parsed)

/-! ## Streaming -/

/-- `_ResponseStreamState`; an item under construction is given by its index in the output. -/
structure ResponseStreamState where
  output : List OutputItem := []
  messageIndex : Option Nat := none
  messageText : Text := []
  messageDone : Bool := false
  reasoningIndex : Option Nat := none
  reasoningText : Text := []
  reasoningDone : Bool := false
  functionIndex : Option Nat := none
  functionArguments : Text := []

namespace ResponseStreamState

/-- `_ensure_message`. -/
def ensureMessage (self : ResponseStreamState) : ResponseStreamState :=
  match self.messageIndex with
  | some _ => self
  | none =>
    { self with
      messageIndex := some self.output.length
      output := self.output ++ [.message [[]] .inProgress] }

/-- `item["content"][0]["text"] = text`. -/
def setMessageText (text : Text) : OutputItem → OutputItem
  | .message (_ :: parts) status => .message (text :: parts) status
  | item => item

/-- `message_delta`. -/
def messageDelta (text : Text) (self : ResponseStreamState) : ResponseStreamState :=
  if text.isEmpty then self
  else
    let self := self.ensureMessage
    let messageText := self.messageText ++ text
    match self.messageIndex with
    | some index =>
      { self with messageText, output := self.output.modify index (setMessageText messageText) }
    | none => { self with messageText }

/-- `_ensure_reasoning`. -/
def ensureReasoning (self : ResponseStreamState) : ResponseStreamState :=
  match self.reasoningIndex with
  | some _ => self
  | none =>
    { self with
      reasoningIndex := some self.output.length
      output := self.output ++ [.reasoning []] }

/-- `item["text"] = text`. -/
def setReasoningText (text : Text) : OutputItem → OutputItem
  | .reasoning _ => .reasoning text
  | item => item

/-- `reasoning_delta`. -/
def reasoningDelta (text : Text) (self : ResponseStreamState) : ResponseStreamState :=
  if text.isEmpty then self
  else
    let self := self.ensureReasoning
    let reasoningText := self.reasoningText ++ text
    match self.reasoningIndex with
    | some index =>
      { self with reasoningText, output := self.output.modify index (setReasoningText reasoningText) }
    | none => { self with reasoningText }

/-- `reasoning_done`. -/
def markReasoningDone (self : ResponseStreamState) : ResponseStreamState :=
  { self.ensureReasoning with reasoningDone := true }

/-- `finish_reasoning`. -/
def finishReasoning (self : ResponseStreamState) : ResponseStreamState :=
  if self.reasoningIndex.isNone || self.reasoningDone then self else self.markReasoningDone

/-- `item["arguments"] = arguments`. -/
def setArguments (arguments : Text) : OutputItem → OutputItem
  | .functionCall name _ status => .functionCall name arguments status
  | item => item

/-- `item["status"] = "completed"`. -/
def complete : OutputItem → OutputItem
  | .functionCall name arguments _ => .functionCall name arguments .completed
  | .message parts _ => .message parts .completed
  | item => item

/-- `function_call_started`. -/
def functionCallStarted (name : Text) : EStateM PyException ResponseStreamState Unit := do
  let self ← get
  raiseIf (name.isEmpty = true) (responseParseError .streamedNameMissing)
  raiseIf (self.functionIndex.isSome = true) (responseParseError .callNotFinished)
  set { self with
    functionIndex := some self.output.length
    functionArguments := []
    output := self.output ++ [OutputItem.functionCall name [] .inProgress] }

/-- `function_call_arguments_delta`. -/
def functionCallArgumentsDelta (argumentsDelta : Text) :
    EStateM PyException ResponseStreamState Unit := do
  let self ← get
  match self.functionIndex with
  | none => throw (responseParseError .argumentsBeforeItem)
  | some index =>
    if argumentsDelta.isEmpty then pure ()
    else
      let functionArguments := self.functionArguments ++ argumentsDelta
      set { self with
        functionArguments
        output := self.output.modify index (setArguments functionArguments) }

/-- `function_call_done`. -/
def functionCallDone : EStateM PyException ResponseStreamState Unit := do
  let self ← get
  match self.functionIndex with
  | none => throw (responseParseError .doneBeforeItem)
  | some index =>
    set { self with
      output := self.output.modify index complete
      functionIndex := none
      functionArguments := [] }

/-- `_finish_message`. -/
def finishMessage (self : ResponseStreamState) : ResponseStreamState :=
  match self.messageIndex, self.messageDone with
  | some index, false =>
    { self with output := self.output.modify index complete, messageDone := true }
  | _, _ => self

/-- `finish_open_items`. -/
def finishOpenItems : EStateM PyException ResponseStreamState Unit := do
  modify finishMessage
  modify finishReasoning
  let self ← get
  if self.functionIndex.isSome then functionCallDone
  let self ← get
  if self.output.isEmpty then modify fun self => self.ensureMessage.finishMessage

end ResponseStreamState

/-- The body of the loop over the tool calls of a delta. -/
def responseStreamToolCall (toolCall : ToolCallDelta) :
    EStateM PyException ResponseStreamState Unit := do
  modify ResponseStreamState.finishReasoning
  ResponseStreamState.functionCallStarted toolCall.function.name
  ResponseStreamState.functionCallArgumentsDelta toolCall.function.arguments
  ResponseStreamState.functionCallDone

/-- The body of the loop of `_response_stream_deltas`. -/
def responseStreamDelta (delta : Delta) : EStateM PyException ResponseStreamState Unit := do
  match delta.reasoningContent with
  | some reasoning => modify (ResponseStreamState.reasoningDelta reasoning)
  | none => pure ()
  match delta.content with
  | some content =>
    if content.isEmpty then pure ()
    else modify fun state => (state.finishReasoning).messageDelta content
  | none => pure ()
  forEach delta.toolCalls responseStreamToolCall

/-- `_response_stream_deltas`. -/
def responseStreamDeltas (deltas : List Delta) : EStateM PyException ResponseStreamState Unit :=
  forEach deltas responseStreamDelta

/-- A frame of the stream that carries a response object. -/
inductive Frame where
  | created (response : ResponseObject)
  | completed (response : ResponseObject)
  | failed (response : ResponseObject)

/-- The state of `_response_stream`: what it has shown, and the run of its parser. -/
structure ResponseRun (P : Type) where
  state : ResponseStreamState
  stream : StreamRun P

/-- `_response_stream_failed`. -/
def responseStreamFailed (state : ResponseStreamState) (typeName : String) (message : Complaint) :
    Frame :=
  .failed { status := .failed, output := state.output, error := some (typeName, message) }

/-- Run a step of the parser. -/
def onStream {α : Type} (m : EStateM PyException (StreamRun P) α) :
    EStateM PyException (ResponseRun P) α :=
  zoom ResponseRun.stream (fun stream run => { run with stream }) id m

/-- Run a step of the output. -/
def onState {α : Type} (m : EStateM PyException ResponseStreamState α) :
    EStateM PyException (ResponseRun P) α :=
  zoom ResponseRun.state (fun state run => { run with state }) id m

/-- The loop of `_response_stream`. -/
def responseStreamLoop : Queue → EStateM PyException (ResponseRun P) Frame
  | .error message => do
    let run ← get
    return responseStreamFailed run.state "server_error" (.foreign message)
  | .token item rest => do
    let parsedDeltas ← onStream (tokenDeltas item)
    onState (responseStreamDeltas parsedDeltas)
    responseStreamLoop rest
  | .final item => do
    let parsedDeltas ← onStream (finalDeltas item)
    onState (responseStreamDeltas parsedDeltas)
    onState ResponseStreamState.finishOpenItems
    let run ← get
    return .completed (finishedResponse item run.state.output)

/-- The first frame. -/
def createdFrame : Frame :=
  .created { status := .inProgress, output := [] }

/-- `_response_stream`: the frames that carry a response object. -/
def responseStream (options : ParseOptions P) (queue : Queue) :
    Except PyException (List Frame) := do
  let parser ← openParser options
  match responseStreamLoop queue { state := {}, stream := { parser } } with
  | .ok frame _ => return [createdFrame, frame]
  | .error exc run => return [createdFrame, responseStreamFailed run.state exc.kind.name exc.message]

end SparseVllm.Serving
