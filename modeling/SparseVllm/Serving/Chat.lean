import SparseVllm.Serving.Responses

/-!
# The chat endpoint (`entrypoints/openai/serving/chat.py`)

`chatCompletionResponse` answers with one message; `chatCompletionStream` yields chunks. A client
reads the streamed answer by concatenating what the chunks carry (`streamedContent`,
`streamedReasoning`, `streamedCalls`, `streamedFinish`).

Modelled are `_chat_completion_response` and `_chat_completion_stream` for one choice; a queue holds what
the dispatcher puts there. Left out: the checks of a request, ids, timestamps, logprobs, and the
disconnect of a client.

Headlines:
* **`chatStreamLoop_of_collect`**: over a queue whose deltas can be collected, the chunks carry these
  deltas, then the finish reason.
-/

namespace SparseVllm.Serving

open Lib

/-! ## Without streaming -/

/-- A chat message; no tool calls is the empty list. -/
structure ChatMessage where
  content : Option Text
  reasoningContent : Option Text
  toolCalls : List FunctionCall
deriving DecidableEq

/-- A chat completion. -/
structure ChatCompletion where
  message : ChatMessage
  finishReason : FinishReason
  promptTokens : Nat
  completionTokens : Nat
deriving DecidableEq

/-- `_chat_message`. -/
def chatMessage (parsed : ParsedModelResponse) : ChatMessage where
  content := if !parsed.content.isEmpty || parsed.toolCalls.isEmpty then some parsed.content else none
  reasoningContent := parsed.reasoningContent
  toolCalls := parsed.toolCalls

theorem chatMessage_content (parsed : ParsedModelResponse) :
    (chatMessage parsed).content.getD [] = parsed.content := by
  obtain ⟨reasoning, content, functions⟩ := parsed
  cases content <;> cases functions <;> rfl

/-- `"tool_calls" if parsed.tool_calls and final["finish_reason"] == "stop" else …`. -/
def chatFinishReason (toolsCalled : Bool) (finishReason : FinishReason) : FinishReason :=
  if toolsCalled && finishReason = .stop then .toolCalls else finishReason

variable {P : Type}

/-- What the chat endpoint makes of a final text: malformed tool JSON is answered as plain text. -/
def chatParsed (options : ParseOptions P) (final : FinalItem) :
    Except PyException ParsedModelResponse :=
  let plain : ParsedModelResponse :=
    { reasoningContent := none, content := final.text, toolCalls := [] }
  if options.shouldParse then
    match options.responseParser with
    | none => .error { kind := .httpException 500, message := .chatParserNotConfigured }
    | some tokenizer =>
      match parse tokenizer options.prompt final.parserText options.parseTools with
      | .ok parsed => .ok parsed
      | .error exc =>
        if exc.kind = .modelOutputParseError then .ok plain
        else if exc.isResponseParseError then .error (parseFailed "Chat Completions" exc)
        else .error exc
  else .ok plain

/-- `_chat_completion_response`. -/
def chatCompletionResponse (options : ParseOptions P) (queue : Queue) :
    Except PyException ChatCompletion := do
  let final ← waitFinal queue
  let parsed ← chatParsed options final
  return {
    message := chatMessage parsed
    finishReason := chatFinishReason (!parsed.toolCalls.isEmpty) final.finishReason
    promptTokens := final.promptTokens
    completionTokens := final.completionTokens }

/-! ## Streaming -/

/-- A frame of the chat stream. -/
inductive ChatFrame where
  | role
  | chunk (delta : Delta) (logprobs : Bool)
  | finish (finishReason : FinishReason)
  | error (message : Complaint)
  | usage (promptTokens completionTokens : Nat)
  | done

/-- The state of `_chat_completion_stream`: the frames it has yielded and the run of its parser. -/
structure ChatRun (P : Type) where
  frames : List ChatFrame
  stream : StreamRun P
  promptTokens : Nat := 0
  completionTokens : Nat := 0

/-- `yield` a list of frames. -/
def yieldFrames (frames : List ChatFrame) : EStateM PyException (ChatRun P) Unit :=
  modify fun run => { run with frames := run.frames ++ frames }

/-- Run a step of the parser. -/
def onChatStream {α : Type} (m : EStateM PyException (StreamRun P) α) :
    EStateM PyException (ChatRun P) α :=
  zoom ChatRun.stream (fun stream run => { run with stream }) id m

/-- The chunks of a token item; the first one has the log-probabilities, and there is one if there
are log-probabilities to send. -/
def tokenChunks (item : TokenItem) : List Delta → List ChatFrame
  | [] => if item.logprobs then [.chunk { content := some [] } true] else []
  | delta :: rest => .chunk delta item.logprobs :: rest.map fun delta => .chunk delta false

/-- `parser is not None and parser.tools_called`. -/
def StreamRun.toolsCalled (run : StreamRun P) : Bool :=
  match run.parser with
  | some parser => parser.toolsCalled
  | none => false

/-- The loop of `_chat_completion_stream`. -/
def chatStreamLoop : Queue → EStateM PyException (ChatRun P) Unit
  | .error message => yieldFrames [.error (.foreign message)]
  | .token item rest => do
    let deltas ← onChatStream (tokenDeltas item)
    yieldFrames (tokenChunks item deltas)
    chatStreamLoop rest
  | .final item => do
    let deltas ← onChatStream (finalDeltas item)
    yieldFrames (deltas.map fun delta => .chunk delta false)
    let run ← get
    let finishReason := chatFinishReason run.stream.toolsCalled item.finishReason
    set { run with
      frames := run.frames ++ [ChatFrame.finish finishReason]
      promptTokens := run.promptTokens + item.promptTokens
      completionTokens := max run.stream.completionTokens item.completionTokens }

/-- `_chat_completion_stream`. -/
def chatCompletionStream (options : ParseOptions P) (includeUsage : Bool) (queue : Queue) :
    Except PyException (List ChatFrame) := do
  let parser ← openParser options .chatParserNotConfigured
  match chatStreamLoop queue { frames := [.role], stream := { parser } } with
  | .ok _ run =>
    let usage := if includeUsage then [.usage run.promptTokens run.completionTokens] else []
    return run.frames ++ usage ++ [.done]
  | .error exc run =>
    if exc.isResponseParseError then
      return run.frames ++ [.error (.parseFailed "Chat Completions" exc.message), .done]
    else throw exc

/-! ## Reading a stream -/

namespace ChatFrame

/-- What a frame carries of the answer. -/
def delta : ChatFrame → Delta
  | chunk delta _ => delta
  | _ => {}

/-- The finish reason of a frame. -/
def finishReason? : ChatFrame → Option FinishReason
  | finish finishReason => some finishReason
  | _ => none

/-- A frame that reports an error. -/
def isError : ChatFrame → Bool
  | error _ => true
  | _ => false

end ChatFrame

/-- The concatenated `content` of deltas. -/
def deltasContent (deltas : List Delta) : Text :=
  (deltas.map fun delta => delta.content.getD []).flatten

/-- The concatenated `reasoning_content` of deltas. -/
def deltasReasoning (deltas : List Delta) : Text :=
  (deltas.map fun delta => delta.reasoningContent.getD []).flatten

/-- The tool calls of deltas. -/
def deltasCalls (deltas : List Delta) : List FunctionCall :=
  (deltas.map fun delta => delta.toolCalls.map ToolCallDelta.function).flatten

/-- The content a client reads. -/
def streamedContent (frames : List ChatFrame) : Text :=
  deltasContent (frames.map ChatFrame.delta)

/-- The reasoning a client reads. -/
def streamedReasoning (frames : List ChatFrame) : Text :=
  deltasReasoning (frames.map ChatFrame.delta)

/-- The tool calls a client reads. -/
def streamedCalls (frames : List ChatFrame) : List FunctionCall :=
  deltasCalls (frames.map ChatFrame.delta)

/-- The finish reason a client reads. -/
def streamedFinish (frames : List ChatFrame) : Option FinishReason :=
  (frames.filterMap ChatFrame.finishReason?).getLast?

/-- A stream that reports an error. -/
def reportsError (frames : List ChatFrame) : Bool :=
  frames.any ChatFrame.isError

/-! ## The chunks of an answer -/

/-- Frames that carry the deltas and the finish reasons, and report no error. -/
structure Carries (frames : List ChatFrame) (deltas : List Delta)
    (finishReasons : List FinishReason) : Prop where
  content : streamedContent frames = deltasContent deltas
  reasoning : streamedReasoning frames = deltasReasoning deltas
  calls : streamedCalls frames = deltasCalls deltas
  finishReasons : frames.filterMap ChatFrame.finishReason? = finishReasons
  noError : reportsError frames = false

namespace Carries

variable {frames others : List ChatFrame} {out more : List Delta}
  {finishReasons laterReasons : List FinishReason}

theorem append (h : Carries frames out finishReasons) (h' : Carries others more laterReasons) :
    Carries (frames ++ others) (out ++ more) (finishReasons ++ laterReasons) where
  content := by
    have hcontent := h.content
    have hcontent' := h'.content
    simp only [streamedContent, deltasContent, List.map_append, List.flatten_append] at *
    rw [hcontent, hcontent']
  reasoning := by
    have hreasoning := h.reasoning
    have hreasoning' := h'.reasoning
    simp only [streamedReasoning, deltasReasoning, List.map_append, List.flatten_append] at *
    rw [hreasoning, hreasoning']
  calls := by
    have hcalls := h.calls
    have hcalls' := h'.calls
    simp only [streamedCalls, deltasCalls, List.map_append, List.flatten_append] at *
    rw [hcalls, hcalls']
  finishReasons := by rw [List.filterMap_append, h.finishReasons, h'.finishReasons]
  noError := by
    have hfirst := h.noError
    have hsecond := h'.noError
    unfold reportsError at *
    rw [List.any_append, hfirst, hsecond]
    rfl

theorem chunks (out : List Delta) : Carries (out.map fun delta => .chunk delta false) out [] := by
  have hdelta : (out.map fun delta => ChatFrame.chunk delta false).map ChatFrame.delta = out := by
    rw [List.map_map]
    exact List.map_id out
  refine ⟨?_, ?_, ?_, ?_, ?_⟩
  · exact congrArg deltasContent hdelta
  · exact congrArg deltasReasoning hdelta
  · exact congrArg deltasCalls hdelta
  · rw [List.filterMap_map, List.filterMap_eq_nil_iff]
    exact fun _ _ => rfl
  · unfold reportsError
    rw [List.any_map]
    exact List.any_eq_false.mpr fun _ _ => Bool.false_ne_true

theorem tokenChunks (item : TokenItem) (out : List Delta) :
    Carries (Serving.tokenChunks item out) out [] := by
  cases out with
  | nil =>
    unfold Serving.tokenChunks
    cases item.logprobs <;> exact ⟨rfl, rfl, rfl, rfl, rfl⟩
  | cons delta rest =>
    have hhead : Carries [.chunk delta item.logprobs] [delta] [] := ⟨rfl, rfl, rfl, rfl, rfl⟩
    exact hhead.append (chunks rest)

end Carries

theorem onChatStream_ok_iff {α : Type} {m : EStateM PyException (StreamRun P) α}
    {run run' : ChatRun P} {a : α} :
    onChatStream m run = .ok a run' ↔
      ∃ stream, m run.stream = .ok a stream ∧ run' = { run with stream } := by
  unfold onChatStream zoom
  cases m run.stream with
  | ok b stream =>
    refine ⟨fun h => ?_, fun ⟨_, h, hrun⟩ => ?_⟩
    · cases h
      exact ⟨stream, rfl, rfl⟩
    · cases h
      rw [hrun]
  | error exc stream => simp

/-- When the deltas of an answer can be collected, the chunks carry them, then the finish reason. -/
theorem chatStreamLoop_of_collect {queue : Queue} {final : FinalItem} {run run' : StreamRun P}
    {chat : ChatRun P} {out : List Delta} (hrun : chat.stream = run)
    (hfinal : queue.final? = some final)
    (hcollect : collect final queue.tokens run = .ok out run') :
    ∃ chunks last, chatStreamLoop queue chat = .ok () last ∧ Carries chunks out [] ∧
      last.frames = chat.frames ++ chunks ++
        [.finish (chatFinishReason run'.toolsCalled final.finishReason)] := by
  induction queue generalizing chat run out with
  | error message => cases hfinal
  | final item =>
    obtain rfl : item = final := Option.some.inj hfinal
    have hfinished : onChatStream (finalDeltas item) chat = .ok out { chat with stream := run' } :=
      onChatStream_ok_iff.mpr ⟨run', by rw [hrun]; exact hcollect, rfl⟩
    have hloop : chatStreamLoop (.final item) chat = .ok ()
        { frames := chat.frames ++ (out.map fun delta => .chunk delta false) ++
            [.finish (chatFinishReason run'.toolsCalled item.finishReason)]
          stream := run'
          promptTokens := chat.promptTokens + item.promptTokens
          completionTokens := max run'.completionTokens item.completionTokens } := by
      unfold chatStreamLoop
      rw [bind_ok hfinished]
      rfl
    exact ⟨_, _, hloop, Carries.chunks out, rfl⟩
  | token item rest ih =>
    obtain ⟨first, middle, hfirst, hrest⟩ := exists_of_bind_ok hcollect
    obtain ⟨others, last, hothers, heq⟩ := exists_of_bind_ok hrest
    cases heq
    have htoken : onChatStream (tokenDeltas item) chat = .ok first { chat with stream := middle } :=
      onChatStream_ok_iff.mpr ⟨middle, by rw [hrun]; exact hfirst, rfl⟩
    obtain ⟨chunks, last, hlast, hcarries, hframes⟩ := @ih middle
      { chat with frames := chat.frames ++ tokenChunks item first, stream := middle } others rfl
      hfinal hothers
    refine ⟨tokenChunks item first ++ chunks, last, ?_, (Carries.tokenChunks item first).append hcarries,
      ?_⟩
    · unfold chatStreamLoop
      rw [bind_ok htoken]
      exact hlast
    · rw [hframes, List.append_assoc chat.frames]

/-- The loop ends normally only when the deltas of the answer can be collected. -/
theorem collect_of_chatStreamLoop {queue : Queue} {final : FinalItem} {chat last : ChatRun P}
    (hfinal : queue.final? = some final) (h : chatStreamLoop queue chat = .ok () last) :
    ∃ out run', collect final queue.tokens chat.stream = .ok out run' := by
  induction queue generalizing chat with
  | error message => cases hfinal
  | final item =>
    obtain rfl : item = final := Option.some.inj hfinal
    unfold chatStreamLoop at h
    obtain ⟨out, middle, hout, -⟩ := exists_of_bind_ok h
    obtain ⟨run', hrun, -⟩ := onChatStream_ok_iff.mp hout
    exact ⟨out, run', hrun⟩
  | token item rest ih =>
    unfold chatStreamLoop at h
    obtain ⟨first, middle, hfirst, h⟩ := exists_of_bind_ok h
    obtain ⟨run', hrun, rfl⟩ := onChatStream_ok_iff.mp hfirst
    obtain ⟨others, final', hothers⟩ := @ih { chat with
      frames := chat.frames ++ tokenChunks item first, stream := run' } hfinal h
    refine ⟨first ++ others, final', ?_⟩
    show collect final (item :: rest.tokens) chat.stream = _
    unfold collect
    rw [bind_ok hrun, bind_ok hothers]
    rfl

end SparseVllm.Serving
