import SparseVllm.Lib.Program
import SparseVllm.Serving.Value

/-!
# Response parsing (`entrypoints/openai/serving/response_parsing.py`)

The adapter between the Transformers response parser and the endpoints. The parser itself is a
parameter (`Tokenizer`): `parseResponse` reads a whole text, and a parser object reads the same text
in feeds and reports events. `parse` turns the parsed message into a `ParsedModelResponse`;
`feed` and `finish` turn the events into deltas.

Exceptions keep their class, their text and the classes behind them, which the endpoints test. The
parser is assumed nothing of here. Left out: `response_parser_prefix` and the choice of a parser.
-/

namespace SparseVllm.Serving

open Lib

/-! ## Exceptions -/

/-- The exception classes the adapter and the endpoints tell apart. -/
inductive ExceptionKind where
  | valueError
  | jsonDecodeError
  | responseParseError
  | modelOutputParseError
  | keyError
  | typeError
  | attributeError
  | httpException (statusCode : Nat)
  | other (name : String)
deriving DecidableEq

/-- `type(exc).__name__`. -/
def ExceptionKind.name : ExceptionKind → String
  | valueError => "ValueError"
  | jsonDecodeError => "JSONDecodeError"
  | responseParseError => "ResponseParseError"
  | modelOutputParseError => "ModelOutputParseError"
  | keyError => "KeyError"
  | typeError => "TypeError"
  | attributeError => "AttributeError"
  | httpException _ => "HTTPException"
  | other name => name

/-- What an exception says. -/
inductive Complaint where
  /-- The text of an exception of the parser or of the engine. -/
  | foreign (message : String)
  /-- "Transformers response parser returned …; expected a message object." -/
  | notAMessage (parsed : Value)
  /-- "Parsed response role must be 'assistant', got …." -/
  | roleNotAssistant (role : Value)
  /-- "Model returned tool calls when the request did not enable tools." -/
  | toolsNotEnabled
  /-- "Unsupported parsed response fields: …." -/
  | unsupportedFields (fields : List String)
  /-- "Parsed reasoning content must be a string." -/
  | reasoningNotString
  /-- "Parsed assistant content must be a string." -/
  | contentNotString
  /-- "Parsed tool_calls must be a list." -/
  | toolCallsNotList
  /-- "Parsed tool call must be an object." -/
  | toolCallNotObject
  /-- "Parsed tool call function must be an object." -/
  | functionNotObject
  /-- "Parsed tool call requires a non-empty function name." -/
  | functionNameMissing
  /-- "Unknown Transformers response event …." -/
  | unknownEvent (name : String)
  /-- "tool call stream event missing function name." -/
  | streamedNameMissing
  /-- "new tool call started before previous tool call finished." -/
  | callNotFinished
  /-- "tool call arguments arrived before tool call item." -/
  | argumentsBeforeItem
  /-- "tool call done arrived before tool call item." -/
  | doneBeforeItem
  /-- "Responses parser is not configured." -/
  | parserNotConfigured
  /-- "Chat response parser is not configured." -/
  | chatParserNotConfigured
  /-- "… parse failed: …". -/
  | parseFailed (endpoint : String) (cause : Complaint)

/-- An exception; `causes` are the classes met by following `__cause__` or else `__context__`. -/
structure PyException where
  kind : ExceptionKind
  message : Complaint
  causes : List ExceptionKind := []

/-- `raise ResponseParseError(message)`. -/
def responseParseError (message : Complaint) : PyException where
  kind := .responseParseError
  message := message

namespace PyException

/-- `isinstance(exc, ResponseParseError)`. -/
def isResponseParseError (exc : PyException) : Bool :=
  exc.kind = .responseParseError || exc.kind = .modelOutputParseError

/-- `isinstance(exc, ValueError)`. -/
def isValueError (exc : PyException) : Bool :=
  exc.isResponseParseError || exc.kind = .valueError || exc.kind = .jsonDecodeError

/-- `raise kind(str(exc)) from exc`. -/
def reraised (kind : ExceptionKind) (exc : PyException) : PyException where
  kind := kind
  message := exc.message
  causes := exc.kind :: exc.causes

end PyException

/-- `_caused_by_json_decode_error`. -/
def causedByJsonDecodeError (exc : PyException) : Bool :=
  (exc.kind :: exc.causes).contains .jsonDecodeError

/-! ## The Transformers parser -/

/-- The type of a parser event. -/
inductive EventType where
  | regionOpen
  | regionChunk
  | regionClose
  | other (name : String)

/-- An event of the incremental parser. -/
structure Event where
  type : EventType
  field : String
  text : Text := []
  dirty : Bool := false
  value : Value := .none

/-- The Transformers tokenizer with its response template; `P` is the type of its incremental
parsers, `prompt` the text a parser resumes after. -/
structure Tokenizer (P : Type) where
  parseResponse (prompt text : Text) : Except PyException Value
  getResponseParser (prompt : Text) : Except PyException P
  initialEvents (parser : P) : List Event
  feed (parser : P) (textDelta : Text) : Except PyException (List Event × P)
  finalize (parser : P) : Except PyException (Value × List Event)

/-! ## Messages -/

/-- The function of a tool call. -/
structure FunctionCall where
  name : Text
  arguments : Text
deriving DecidableEq

/-- `ParsedModelResponse`. -/
structure ParsedModelResponse where
  reasoningContent : Option Text
  content : Text
  toolCalls : List FunctionCall
deriving DecidableEq

/-- `_normalize_tool_call`. -/
def normalizeToolCall : Value → Except PyException FunctionCall
  | .dict toolCall =>
    match (toolCall.lookup "function").getD (.dict toolCall) with
    | .dict function =>
      match (function.lookup "name").getD .none with
      | .str [] => .error (responseParseError .functionNameMissing)
      | .str name =>
        match (function.lookup "arguments").getD (.dict []) with
        | .str arguments => .ok { name, arguments }
        | arguments => .ok { name, arguments := dumps arguments }
      | _ => .error (responseParseError .functionNameMissing)
    | _ => .error (responseParseError .functionNotObject)
  | _ => .error (responseParseError .toolCallNotObject)

/-- `[_normalize_tool_call(tool_call) for tool_call in raw_tool_calls]`. -/
def normalizeToolCalls : List Value → Except PyException (List FunctionCall)
  | [] => .ok []
  | toolCall :: rest => do
    let call ← normalizeToolCall toolCall
    let calls ← normalizeToolCalls rest
    return call :: calls

/-- The names reasoning may have, in the order they are looked for. -/
def reasoningKeys : List String := ["thinking", "reasoning_content", "reasoning"]

/-- Pop the first of the keys that is present. -/
def popFirst : List String → List (String × Value) → Value × List (String × Value)
  | [], parsed => (.none, parsed)
  | key :: keys, parsed =>
    match parsed.lookup key with
    | some value => (value, popKey key parsed)
    | none => popFirst keys parsed

/-- `if fails: raise ResponseParseError(complaint)`. -/
def refuseIf (fails : Bool) (complaint : Complaint) : Except PyException Unit :=
  if fails then .error (responseParseError complaint) else .ok ()

/-- The reasoning, when it is absent or a string. -/
def reasoningText : Value → Except PyException (Option Text)
  | .none => .ok none
  | .str text => .ok (some text)
  | _ => .error (responseParseError .reasoningNotString)

/-- The content, when it is a string. -/
def contentText : Value → Except PyException Text
  | .str text => .ok text
  | _ => .error (responseParseError .contentNotString)

/-- The tool calls, when they are a list. -/
def toolCallList : Value → Except PyException (List Value)
  | .list calls => .ok calls
  | _ => .error (responseParseError .toolCallsNotList)

/-- `_normalize_parsed_message`. -/
def normalizeParsedMessage (parseTools : Bool) : Value → Except PyException ParsedModelResponse
  | .dict message => do
    let role := (message.lookup "role").getD (.str "assistant".toList)
    refuseIf (!role.isText "assistant".toList) (.roleNotAssistant role)
    let (reasoning, parsed) := popFirst reasoningKeys (popKey "role" message)
    let content := (parsed.lookup "content").getD (.str [])
    let parsed := popKey "content" parsed
    let rawToolCalls := (parsed.lookup "tool_calls").getD (.list [])
    let parsed := popKey "tool_calls" parsed
    refuseIf (rawToolCalls.truthy && !parseTools) .toolsNotEnabled
    let unexpected := parsed.filter fun item => !item.2.isBlank
    refuseIf (!unexpected.isEmpty) (.unsupportedFields ((unexpected.map Prod.fst).mergeSort))
    let reasoningContent ← reasoningText reasoning
    let content ← contentText content
    let rawToolCalls ← toolCallList rawToolCalls
    let toolCalls ← normalizeToolCalls rawToolCalls
    return { reasoningContent, content, toolCalls }
  | parsed => .error (responseParseError (.notAMessage parsed))

/-! ## `TransformersResponseParser` -/

variable {P : Type}

/-- The handlers of `parse`. -/
def parseHandler (exc : PyException) : PyException :=
  if exc.isResponseParseError then exc
  else if exc.isValueError then
    if causedByJsonDecodeError exc then exc.reraised .modelOutputParseError
    else exc.reraised .responseParseError
  else if exc.kind = .attributeError || exc.kind = .keyError || exc.kind = .typeError then
    exc.reraised .responseParseError
  else exc

/-- `TransformersResponseParser.parse`. -/
def parse (tokenizer : Tokenizer P) (prompt text : Text) (parseTools : Bool) :
    Except PyException ParsedModelResponse :=
  match tokenizer.parseResponse prompt text >>= normalizeParsedMessage parseTools with
  | .ok parsed => .ok parsed
  | .error exc => .error (parseHandler exc)

/-- A tool call in a delta. -/
structure ToolCallDelta where
  index : Nat
  function : FunctionCall
deriving DecidableEq

/-- What a delta adds to the answer; a field that is not there is `none` or empty. -/
structure Delta where
  reasoningContent : Option Text := none
  content : Option Text := none
  toolCalls : List ToolCallDelta := []
deriving DecidableEq

/-- `TransformersResponseStreamParser`. -/
structure StreamParser (P : Type) where
  tokenizer : Tokenizer P
  parser : P
  parseTools : Bool
  initialEvents : List Event
  toolIndex : Nat := 0
  toolsCalled : Bool := false

/-- `TransformersResponseParser.stream`. -/
def stream (tokenizer : Tokenizer P) (prompt : Text) (parseTools : Bool) :
    Except PyException (StreamParser P) :=
  match tokenizer.getResponseParser prompt with
  | .ok parser =>
    .ok { tokenizer, parser, parseTools, initialEvents := tokenizer.initialEvents parser }
  | .error exc =>
    .error <|
      if exc.isValueError || exc.kind = .attributeError || exc.kind = .keyError ||
          exc.kind = .typeError then
        exc.reraised .responseParseError
      else exc

/-- `field in {"thinking", "reasoning", "reasoning_content"}`. -/
def isReasoningField (field : String) : Bool :=
  reasoningKeys.contains field

/-- The body of the loop of `_events_to_deltas`. -/
def eventToDeltas (event : Event) : EStateM PyException (StreamParser P) (List Delta) := do
  let self ← get
  match event.type, event.dirty with
  | .regionChunk, false =>
    if isReasoningField event.field then
      return if event.text.isEmpty then [] else [{ reasoningContent := some event.text }]
    else if event.field = "content" && !event.text.isEmpty then
      return [{ content := some event.text }]
    else return []
  | .regionClose, _ =>
    if event.field = "tool_calls" && self.parseTools then
      match normalizeToolCall event.value with
      | .ok function =>
        set { self with toolIndex := self.toolIndex + 1, toolsCalled := true }
        return [{ toolCalls := [{ index := self.toolIndex, function }] }]
      | .error exc => throw exc
    else return []
  | .regionOpen, _ | .regionChunk, true => return []
  | .other name, _ => throw (responseParseError (.unknownEvent name))

/-- `_events_to_deltas`. -/
def eventsToDeltas : List Event → EStateM PyException (StreamParser P) (List Delta)
  | [] => pure []
  | event :: rest => do
    let deltas ← eventToDeltas event
    let others ← eventsToDeltas rest
    return deltas ++ others

/-- `except (KeyError, TypeError, ValueError) as exc: raise ResponseParseError(str(exc)) from exc`. -/
def asParseError {α : Type} (m : EStateM PyException (StreamParser P) α) :
    EStateM PyException (StreamParser P) α :=
  catchIf m (fun exc => exc.isValueError || exc.kind = .keyError || exc.kind = .typeError)
    fun exc => throw (exc.reraised .responseParseError)

/-- `TransformersResponseStreamParser.feed`. -/
def feed (textDelta : Text) : EStateM PyException (StreamParser P) (List Delta) := do
  let self ← get
  set { self with initialEvents := [] }
  asParseError do
    match self.tokenizer.feed self.parser textDelta with
    | .ok (events, parser) =>
      set { self with initialEvents := [], parser }
      eventsToDeltas (self.initialEvents ++ events)
    | .error exc => throw exc

/-- `TransformersResponseStreamParser.finish`. -/
def finish : EStateM PyException (StreamParser P) (List Delta) :=
  asParseError do
    let self ← get
    match self.tokenizer.finalize self.parser with
    | .ok (_, events) => eventsToDeltas events
    | .error exc => throw exc

end SparseVllm.Serving
