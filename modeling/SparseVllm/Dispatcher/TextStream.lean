import SparseVllm.Dispatcher.Detokenizer

/-!
# The texts of a request's events (`entrypoints/openai/dispatcher.py`)

What `_publish_token_deltas` and `_publish_finished` do for one request: the tokens of each step are
decoded, the text before the first stop word is emitted as it becomes safe, and the final event repeats
the whole text. The raw text for the response parser goes along, without the EOS tokens at its end.

Of the log-probabilities only whether a pending token has some is kept: they decide whether a last token
event without text is published.
-/

namespace SparseVllm.Dispatcher

open Lib

/-- What the functions read of a request. -/
structure StreamRequest where
  stop : List Text
  eosTokenIds : List Nat
  ignoreEos : Bool
  maxTokens : Nat

/-- `_ActiveRequest`. -/
structure ActiveRequest where
  completionTokenIds : List Nat := []
  pendingTokenIds : List Nat := []
  pendingLogprobs : List Bool := []
  emittedTextLen : Nat := 0
  emittedRawTextLen : Nat := 0
  detokenizer : IncrementalDetokenizer := {}

inductive FinishReason where
  | stop
  | length
  deriving DecidableEq

/-- An event on the request's queue. -/
inductive TextEvent where
  | token (text rawTextDelta : Text) (tokenIds : List Nat)
  | final (text rawText textDelta : Text) (finishReason : FinishReason) (tokenIds : List Nat)
  deriving DecidableEq

variable (tk : Tokenizer) (q : StreamRequest)

/-- The text of the response parser, before it is cut at a stop word. -/
def contentRawText (tokenIds : List Nat) (rawText : Text) : Text :=
  if q.ignoreEos = true ∨ q.eosTokenIds = [] ∨ ∀ tokenId ∈ tokenIds.getLast?, tokenId ∉ q.eosTokenIds
  then rawText
  else tk.decode false (tokenIds.rdropWhile fun tokenId => decide (tokenId ∈ q.eosTokenIds))

/-- `_response_parser_raw_text`. -/
def responseParserRawText (d : IncrementalDetokenizer) (tokenIds : List Nat) (rawText : Text)
    (visibleTextLen : Nat) : Except StreamError Text :=
  let parserRawText := contentRawText tk q tokenIds rawText
  if ¬ parserRawText <+: rawText then .error (.parserNotPrefix parserRawText rawText)
  else if q.stop = [] then .ok parserRawText
  else (d.rawOffsetForVisiblePrefix visibleTextLen parserRawText.length).map parserRawText.take

/-- `_publish_pending_token_event`. -/
def publishPendingTokenEvent (r : ActiveRequest) (text rawTextDelta : Text) :
    ActiveRequest × TextEvent :=
  ({ r with
      pendingTokenIds := []
      pendingLogprobs := []
      emittedRawTextLen := r.emittedRawTextLen + rawTextDelta.length },
    .token text rawTextDelta r.pendingTokenIds)

/-- The stop path of `_publish_token_deltas`, from the emitted part of the step on. -/
def publishStop (visibleText text rawTextDelta : Text) (r : ActiveRequest) :
    Except StreamError (List TextEvent) := do
  let final ← r.detokenizer.finish tk r.completionTokenIds
  match firstStop final.text q.stop with
  | none => throw .stopDisappeared
  | some finalStopIndex =>
    let finalParserRawText ←
      responseParserRawText tk q final r.completionTokenIds final.rawText finalStopIndex
    let published := publishPendingTokenEvent r text rawTextDelta
    let emits : Bool := text ≠ [] ∨ rawTextDelta ≠ []
    let emittedRawTextLen := if emits then published.1.emittedRawTextLen else r.emittedRawTextLen
    if finalParserRawText.length < emittedRawTextLen then
      throw (.finalShorter emittedRawTextLen finalParserRawText.length)
    else
      pure ((if emits then [published.2] else []) ++
        [.final visibleText finalParserRawText (visibleText.drop r.emittedTextLen) .stop
          r.completionTokenIds])

/-- `_publish_token_deltas`, for the output of a step for a request: the request, unless it has ended, and
its events. -/
def publishTokenDeltas (tokenIds : List Nat) (logprobs : List Bool) (r : ActiveRequest) :
    Except StreamError (Option ActiveRequest × List TextEvent) := do
  let detokenizer ← r.detokenizer.push tk tokenIds
  let fullText := detokenizer.text
  let stopIndex := firstStop fullText q.stop
  let visibleText := (stopIndex.map fullText.take).getD fullText
  let emitLen := if stopIndex.isSome then visibleText.length else safeLen visibleText q.stop
  let parserRawText ← responseParserRawText tk q detokenizer (r.completionTokenIds ++ tokenIds)
    detokenizer.rawText emitLen
  if parserRawText.length < r.emittedRawTextLen then
    throw (.boundaryPrecedes r.emittedRawTextLen parserRawText.length)
  else
    let rawTextDelta := parserRawText.drop r.emittedRawTextLen
    let text := (visibleText.take emitLen).drop r.emittedTextLen
    let r := { r with
      completionTokenIds := r.completionTokenIds ++ tokenIds
      pendingTokenIds := r.pendingTokenIds ++ tokenIds
      pendingLogprobs := r.pendingLogprobs ++ logprobs
      emittedTextLen := emitLen
      detokenizer }
    if stopIndex.isSome then
      let events ← publishStop tk q visibleText text rawTextDelta r
      pure (none, events)
    else
      let published := publishPendingTokenEvent r text rawTextDelta
      let emits : Bool := text ≠ [] ∨ rawTextDelta ≠ []
      pure (some (if emits then published.1 else r), if emits then [published.2] else [])

/-- `finish_reason` of a request that ended without a stop word. -/
def endReason (completionTokenIds : List Nat) : FinishReason :=
  let endedByEos := q.ignoreEos = false ∧ ∃ tokenId ∈ completionTokenIds.getLast?, tokenId ∈ q.eosTokenIds
  if endedByEos ∨ completionTokenIds.length < q.maxTokens then .stop else .length

/-- `_publish_finished`, for a request. -/
def publishFinished (completionTokenIds : List Nat) (logprobs : List Bool) (r : ActiveRequest) :
    Except StreamError (List TextEvent) := do
  let observed := r.completionTokenIds.length
  let final ← r.detokenizer.finish tk completionTokenIds
  let r := { r with
    pendingTokenIds := r.pendingTokenIds ++ completionTokenIds.drop observed
    pendingLogprobs := r.pendingLogprobs ++ logprobs.drop observed
    completionTokenIds
    detokenizer := final }
  let stopIndex := firstStop final.text q.stop
  let parserRawText ← responseParserRawText tk q final completionTokenIds final.rawText
    (stopIndex.getD final.text.length)
  if parserRawText.length < r.emittedRawTextLen then
    throw (.finalShorter r.emittedRawTextLen parserRawText.length)
  else
    let parserRawTextDelta := parserRawText.drop r.emittedRawTextLen
    let text := (stopIndex.map final.text.take).getD final.text
    let finishReason := if stopIndex.isSome then .stop else endReason q completionTokenIds
    let textDelta := text.drop r.emittedTextLen
    let emits : Bool := r.pendingTokenIds ≠ [] ∧
      (textDelta ≠ [] ∨ parserRawTextDelta ≠ [] ∨ true ∈ r.pendingLogprobs)
    let published := publishPendingTokenEvent r textDelta parserRawTextDelta
    let emittedTextLen := if emits then text.length else r.emittedTextLen
    pure ((if emits then [published.2] else []) ++
      [.final text parserRawText (text.drop emittedTextLen) finishReason completionTokenIds])

/-! ## A whole completion -/

/-- A request as the dispatcher holds it, and its events so far. -/
structure TextStream where
  request : Option ActiveRequest := some {}
  events : List TextEvent := []

/-- The output of a step for a request that may have ended. -/
def TextStream.push (out : List Nat × List Bool) (s : TextStream) : Except StreamError TextStream :=
  match s.request with
  | none => .ok s
  | some r => (publishTokenDeltas tk q out.1 out.2 r).map fun p => ⟨p.1, s.events ++ p.2⟩

/-- The end of the completion, for a request that may have ended. -/
def TextStream.finish (completionTokenIds : List Nat) (logprobs : List Bool) (s : TextStream) :
    Except StreamError TextStream :=
  match s.request with
  | none => .ok s
  | some r => (publishFinished tk q completionTokenIds logprobs r).map fun events =>
    ⟨none, s.events ++ events⟩

/-- The outputs of a list of steps. -/
def pushAll (outs : List (List Nat × List Bool)) : Except StreamError TextStream :=
  outs.foldlM (fun s out => s.push tk q out) {}

/-- A completion cut into outputs of steps, with the tokens that come with its end. -/
def serve (outs : List (List Nat × List Bool)) (rest : List Nat) (logprobs : List Bool) :
    Except StreamError TextStream :=
  (pushAll tk q outs).bind fun s => s.finish tk q (outs.flatMap Prod.fst ++ rest) logprobs

end SparseVllm.Dispatcher
