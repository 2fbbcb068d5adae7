import Mathlib
import SparseVllm.Serving.Consistent
import SparseVllm.Serving.Endpoints

/-!
# Streamed and non-streamed answers

Both endpoints answer a finished queue in two ways: once from the parser's reading of the whole
text, once from its events. `ResponsesMeet` and `ChatMeet` are conditions on the parsed message and
its events.

Headlines:
* **`streaming_agrees_iff`**: on each endpoint the streamed and the non-streamed answer agree iff the
  endpoint's condition holds.
* **`streaming_drops_content`**: on the Responses endpoint, content beside a tool call is streamed but
  left out of the non-streamed answer.
-/

namespace SparseVllm.Serving

open Lib

variable {P : Type}

/-! ## The conditions -/

/-- An event closes a tool call that names no function. -/
def ClosesBadCall (events : List Event) : Prop :=
  ∃ event ∈ events, event.closesCall = true ∧ ¬ IsToolCall event.value

/-- The exception of malformed tool JSON. -/
def MalformedJson (exc : PyException) : Prop :=
  exc.kind = .modelOutputParseError ∨
    exc.isResponseParseError = false ∧ exc.isValueError = true ∧ causedByJsonDecodeError exc = true

/-- What the Responses endpoint needs of a parsed message and its events: the message is accepted,
its reasoning is absent or not empty, no content stands beside a tool call, and reasoning comes
first; or the message is refused and the stream meets the reason, a bad tool call. -/
def ResponsesMeet (options : ParseOptions P) (queue : Queue) : Prop :=
  ∀ final tokenizer parsed events, queue.final? = some final → options.shouldParse = true →
    options.responseParser = some tokenizer →
    tokenizer.parseResponse options.prompt final.parserText = .ok parsed →
    eventRun tokenizer options.prompt (feeds final 0 queue.tokens) = .ok events →
    Acceptable options.parseTools parsed ∧ parsed.reasoning ≠ .str [] ∧
        (parsed.toolCalls ≠ .list [] → parsed.content = .str []) ∧
        (parsed.reasoning ≠ .none →
          (pieces options.parseTools events).head?.map Piece.isReasoning = some true) ∨
      options.parseTools = true ∧ ClosesBadCall events

/-- What the chat endpoint needs: no malformed tool JSON, and the message is accepted, or it is
refused and the stream meets the reason, a bad tool call. -/
def ChatMeet (options : ParseOptions P) (queue : Queue) : Prop :=
  ∀ final tokenizer, queue.final? = some final → options.shouldParse = true →
    options.responseParser = some tokenizer →
    (∀ exc, tokenizer.parseResponse options.prompt final.parserText = .error exc →
      ¬ MalformedJson exc) ∧
    ∀ parsed events, tokenizer.parseResponse options.prompt final.parserText = .ok parsed →
      eventRun tokenizer options.prompt (feeds final 0 queue.tokens) = .ok events →
      Acceptable options.parseTools parsed ∨ options.parseTools = true ∧ ClosesBadCall events

/-! ## Agreement -/

/-- The response object of a frame. -/
def Frame.response : Frame → ResponseObject
  | created response => response
  | completed response => response
  | failed response => response

/-- The streamed and the non-streamed Responses answers agree: one reports an error iff the other
does, and the last streamed response object has the output of the other. -/
def ResponsesAgree (options : ParseOptions P) (queue : Queue) : Prop :=
  ((∃ exc, responseResponse options queue = .error exc) ↔
    ResponseFails (responseStream options queue)) ∧
  ∀ response frames, responseResponse options queue = .ok response →
    responseStream options queue = .ok frames →
    frames.getLast?.map (fun frame => frame.response.output) = some response.output

/-- The streamed and the non-streamed chat answers agree: one reports an error iff the other does,
and the chunks add up to the message. -/
def ChatAgree (options : ParseOptions P) (includeUsage : Bool) (queue : Queue) : Prop :=
  ((∃ exc, chatCompletionResponse options queue = .error exc) ↔
    ChatFails (chatCompletionStream options includeUsage queue)) ∧
  ∀ completion frames, chatCompletionResponse options queue = .ok completion →
    chatCompletionStream options includeUsage queue = .ok frames →
    streamedContent frames = completion.message.content.getD [] ∧
      streamedReasoning frames = completion.message.reasoningContent.getD [] ∧
      streamedCalls frames = completion.message.toolCalls ∧
      streamedFinish frames = some completion.finishReason

section

variable {options : ParseOptions P} {queue : Queue} {final : FinalItem} {shown : List Piece}
  {parsed : ParsedModelResponse}

theorem waitFinal_of_final (hfinal : queue.final? = some final) : waitFinal queue = .ok final := by
  induction queue with
  | token item rest ih => exact ih hfinal
  | final item => exact congrArg Except.ok (Option.some.inj hfinal)
  | error message => cases hfinal

theorem waitFinal_of_error (hfinal : queue.final? = none) : ∃ exc, waitFinal queue = .error exc := by
  induction queue with
  | token item rest ih => exact ih hfinal
  | final item => cases hfinal
  | error message => exact ⟨_, rfl⟩

theorem responseResponse_eq (options : ParseOptions P) (hfinal : queue.final? = some final) :
    responseResponse options queue = (responseParsed options final).map fun parsed =>
      finishedResponse final (responseOutputItems parsed) := by
  unfold responseResponse
  rw [waitFinal_of_final hfinal]
  show (responseParsed options final >>= _) = _
  cases responseParsed options final <;> rfl

theorem chatCompletionResponse_eq (options : ParseOptions P) (hfinal : queue.final? = some final) :
    chatCompletionResponse options queue = (chatParsed options final).map fun parsed =>
      { message := chatMessage parsed
        finishReason := chatFinishReason (!parsed.toolCalls.isEmpty) final.finishReason
        promptTokens := final.promptTokens
        completionTokens := final.completionTokens } := by
  unfold chatCompletionResponse
  rw [waitFinal_of_final hfinal]
  show (chatParsed options final >>= _) = _
  cases chatParsed options final <;> rfl

/-! ### When one side fails -/

theorem not_responseFails (hfinal : queue.final? = some final)
    (hshows : StreamShows options final queue.tokens shown) (hsolid : ∀ piece ∈ shown, piece.Solid) :
    ¬ ResponseFails (responseStream options queue) := by
  rw [responseStream_of_shows hfinal hshows hsolid]
  rintro (⟨exc, h⟩ | ⟨frames, response, h, hmem⟩)
  · cases h
  · cases h
    rcases List.mem_cons.mp hmem with h | hmem
    · cases h
    · cases List.mem_singleton.mp hmem

theorem not_chatFails (includeUsage : Bool) (hfinal : queue.final? = some final)
    (hshows : StreamShows options final queue.tokens shown) :
    ¬ ChatFails (chatCompletionStream options includeUsage queue) := by
  obtain ⟨frames, hstream, hnone, -⟩ := chatStream_of_shows includeUsage hfinal hshows
  rw [hstream]
  rintro (⟨exc, h⟩ | ⟨frames', h, herror⟩)
  · cases h
  · cases h
    rw [hnone] at herror
    cases herror

theorem ResponseFails.agree (hfails : ResponseFails (responseStream options queue))
    {exc : PyException} (herror : responseResponse options queue = .error exc) :
    ResponsesAgree options queue := by
  refine ⟨iff_of_true ⟨exc, herror⟩ hfails, fun response _ h => ?_⟩
  rw [herror] at h
  cases h

theorem ChatFails.agree {includeUsage : Bool}
    (hfails : ChatFails (chatCompletionStream options includeUsage queue)) {exc : PyException}
    (herror : chatCompletionResponse options queue = .error exc) :
    ChatAgree options includeUsage queue := by
  refine ⟨iff_of_true ⟨exc, herror⟩ hfails, fun completion _ h => ?_⟩
  rw [herror] at h
  cases h

/-! ### When both sides answer -/

/-- On the Responses endpoint two answers agree iff the message has a shape that streams. -/
theorem responsesAgree_of_shows (hfinal : queue.final? = some final)
    (hshows : StreamShows options final queue.tokens shown) (hsolid : ∀ piece ∈ shown, piece.Solid)
    (hparsed : responseParsed options final = .ok parsed)
    (hreasoning : reasoningOf shown = parsed.reasoningContent.getD [])
    (hcontent : contentOf shown = parsed.content) (hcalls : calls shown = parsed.toolCalls) :
    ResponsesAgree options queue ↔
      parsed.reasoningContent ≠ some [] ∧ (parsed.toolCalls ≠ [] → parsed.content = []) ∧
        (reasoningOf shown ≠ [] → shown.head?.map Piece.isReasoning = some true) := by
  rw [← closed_layout_eq_iff hsolid hreasoning hcontent hcalls]
  have hresponse := responseResponse_eq options hfinal
  have hnot := not_responseFails hfinal hshows hsolid
  have hstream := responseStream_of_shows hfinal hshows hsolid
  rw [hparsed] at hresponse
  constructor
  · intro h
    exact Option.some.inj (h.2 _ _ hresponse hstream)
  · intro h
    refine ⟨iff_of_false ?_ hnot, fun response frames hok hframes => ?_⟩
    · rintro ⟨exc, herror⟩
      rw [hresponse] at herror
      cases herror
    · rw [hresponse] at hok
      rw [hstream] at hframes
      cases hok
      cases hframes
      exact congrArg some h

/-- On the chat endpoint two answers always agree. -/
theorem chatAgree_of_shows (includeUsage : Bool) (hfinal : queue.final? = some final)
    (hshows : StreamShows options final queue.tokens shown)
    (hparsed : chatParsed options final = .ok parsed)
    (hreasoning : reasoningOf shown = parsed.reasoningContent.getD [])
    (hcontent : contentOf shown = parsed.content) (hcalls : calls shown = parsed.toolCalls) :
    ChatAgree options includeUsage queue := by
  have hcompletion := chatCompletionResponse_eq options hfinal
  have hnot := not_chatFails includeUsage hfinal hshows
  obtain ⟨frames, hstream, -, hstreamed, hthought, hcalled, hfinish⟩ :=
    chatStream_of_shows includeUsage hfinal hshows
  rw [hparsed] at hcompletion
  refine ⟨iff_of_false ?_ hnot, fun completion frames' hok hframes => ?_⟩
  · rintro ⟨exc, herror⟩
    rw [hcompletion] at herror
    cases herror
  · rw [hcompletion] at hok
    rw [hstream] at hframes
    cases hok
    cases hframes
    refine ⟨?_, hthought.trans hreasoning, hcalled.trans hcalls, ?_⟩
    · exact (hstreamed.trans hcontent).trans (chatMessage_content parsed).symm
    · rw [hfinish, hcalls]
      show _ = some (chatFinishReason (!parsed.toolCalls.isEmpty) final.finishReason)
      cases parsed.toolCalls <;> rfl

end

/-! ## The answers of a parsed text -/

section

variable {options : ParseOptions P} {queue : Queue} {final : FinalItem} {tokenizer : Tokenizer P}

theorem parsed_unparsed (final : FinalItem) (hparse : options.shouldParse = false) :
    responseParsed options final =
        .ok { reasoningContent := none, content := final.text, toolCalls := [] } ∧
      chatParsed options final =
        .ok { reasoningContent := none, content := final.text, toolCalls := [] } := by
  unfold responseParsed chatParsed
  rw [hparse]
  exact ⟨rfl, rfl⟩

theorem parsed_unconfigured (final : FinalItem) (hparse : options.shouldParse = true)
    (hnone : options.responseParser = none) :
    (∃ exc, responseParsed options final = .error exc) ∧
      ∃ exc, chatParsed options final = .error exc := by
  unfold responseParsed chatParsed
  rw [if_pos hparse, if_pos hparse, hnone]
  exact ⟨⟨_, rfl⟩, ⟨_, rfl⟩⟩

theorem parsed_of_normalized (hparse : options.shouldParse = true)
    (htokenizer : options.responseParser = some tokenizer) {parsed : Value}
    (hread : tokenizer.parseResponse options.prompt final.parserText = .ok parsed)
    {answer : ParsedModelResponse}
    (hanswer : normalizeParsedMessage options.parseTools parsed = .ok answer) :
    responseParsed options final = .ok answer ∧ chatParsed options final = .ok answer := by
  have hall : parse tokenizer options.prompt final.parserText options.parseTools = .ok answer := by
    have hboth : tokenizer.parseResponse options.prompt final.parserText >>=
        normalizeParsedMessage options.parseTools = .ok answer :=
      bind_eq_ok_iff.mpr ⟨parsed, hread, hanswer⟩
    unfold parse
    rw [hboth]
  unfold responseParsed chatParsed
  rw [if_pos hparse, if_pos hparse, htokenizer]
  simp [hall]

/-- A refused message is an error on both endpoints. -/
theorem parsed_of_refused (hparse : options.shouldParse = true)
    (htokenizer : options.responseParser = some tokenizer) {parsed : Value}
    (hread : tokenizer.parseResponse options.prompt final.parserText = .ok parsed)
    (hrefused : ¬ Acceptable options.parseTools parsed) :
    (∃ exc, responseParsed options final = .error exc) ∧
      ∃ exc, chatParsed options final = .error exc := by
  cases hnormal : normalizeParsedMessage options.parseTools parsed with
  | ok answer =>
    exact absurd ((normalizeParsedMessage_ok_iff _ _).mp ⟨answer, hnormal⟩) hrefused
  | error exc =>
    have hkind := (yields_normalize options.parseTools parsed).error_of_eq hnormal
    have hall : parse tokenizer options.prompt final.parserText options.parseTools =
        .error exc := by
      have hboth : tokenizer.parseResponse options.prompt final.parserText >>=
          normalizeParsedMessage options.parseTools = .error exc := by
        rw [hread]
        exact hnormal
      unfold parse
      rw [hboth]
      simp [parseHandler, PyException.isResponseParseError, hkind]
    unfold responseParsed chatParsed
    rw [if_pos hparse, if_pos hparse, htokenizer]
    simp [hall, hkind, PyException.isResponseParseError]

/-- A text the parser cannot read is an error on the Responses endpoint; the chat endpoint answers it
iff the tool JSON is malformed. -/
theorem parsed_of_exception (hparse : options.shouldParse = true)
    (htokenizer : options.responseParser = some tokenizer) {exc : PyException}
    (hread : tokenizer.parseResponse options.prompt final.parserText = .error exc) :
    (∃ exc', responseParsed options final = .error exc') ∧
      ((∃ exc', chatParsed options final = .error exc') ↔ ¬ MalformedJson exc) := by
  have hall : parse tokenizer options.prompt final.parserText options.parseTools =
      .error (parseHandler exc) := by
    unfold parse
    rw [hread]
    rfl
  have hkind : (parseHandler exc).kind = .modelOutputParseError ↔ MalformedJson exc := by
    unfold parseHandler MalformedJson
    cases hown : exc.isResponseParseError with
    | true => simp
    | false =>
      have hkind : exc.kind ≠ .modelOutputParseError := by
        intro h
        simp [PyException.isResponseParseError, h] at hown
      cases hvalue : exc.isValueError with
      | true =>
        cases hcause : causedByJsonDecodeError exc <;> simp [hkind, PyException.reraised]
      | false =>
        simp only [Bool.false_eq_true, if_false, hkind, false_or, false_and, and_false, iff_false]
        split
        · simp [PyException.reraised]
        · exact hkind
  unfold responseParsed chatParsed
  rw [if_pos hparse, if_pos hparse, htokenizer]
  simp only [hall]
  refine ⟨⟨_, rfl⟩, ?_⟩
  rw [← hkind]
  split
  · rename_i hmalformed
    simp [hmalformed]
  · rename_i hmalformed
    simp only [hmalformed, not_false_eq_true, iff_true]
    split <;> exact ⟨_, rfl⟩

end

/-! ## The comparison -/

section

variable {options : ParseOptions P} {queue : Queue} {final : FinalItem} {tokenizer : Tokenizer P}

/-- An answer that is not parsed agrees on both endpoints. -/
theorem agree_unparsed (includeUsage : Bool) (hfinal : queue.final? = some final)
    (hcuts : Cuts queue.tokens final) (hparse : options.shouldParse = false) :
    ResponsesAgree options queue ∧ ChatAgree options includeUsage queue := by
  have hshows := streamShows_unparsed final queue.tokens hparse
  obtain ⟨hresponse, hchat⟩ := parsed_unparsed final hparse
  have hcontent := (contentOf_textPieces _).trans (flatten_visibleTexts hcuts)
  have hreasoning := reasoningOf_textPieces (visibleTexts final 0 queue.tokens)
  have hcalls := calls_textPieces (visibleTexts final 0 queue.tokens)
  refine ⟨?_, chatAgree_of_shows includeUsage hfinal hshows hchat hreasoning hcontent hcalls⟩
  rw [responsesAgree_of_shows hfinal hshows (solid_textPieces _) hresponse hreasoning hcontent hcalls]
  exact ⟨nofun, fun h => absurd rfl h, fun h => absurd hreasoning h⟩

/-- An accepted message: the chat answers agree, the Responses answers do iff its shape streams. -/
theorem agree_accepted (includeUsage : Bool) (hfinal : queue.final? = some final)
    (hcuts : Cuts queue.tokens final) (hparse : options.shouldParse = true)
    (htokenizer : options.responseParser = some tokenizer)
    (hconsistent : Consistent tokenizer options.prompt) {parsed : Value}
    (hread : tokenizer.parseResponse options.prompt final.parserText = .ok parsed)
    {events : List Event}
    (hrun : eventRun tokenizer options.prompt (feeds final 0 queue.tokens) = .ok events)
    (haccepted : Acceptable options.parseTools parsed) :
    ChatAgree options includeUsage queue ∧
      (ResponsesAgree options queue ↔ parsed.reasoning ≠ .str [] ∧
        (parsed.toolCalls ≠ .list [] → parsed.content = .str []) ∧
        (parsed.reasoning ≠ .none →
          (pieces options.parseTools events).head?.map Piece.isReasoning = some true)) := by
  obtain ⟨items, rfl⟩ := haccepted.isMessage
  have htext := flatten_feeds hcuts
  have hread' : tokenizer.parseResponse options.prompt (feeds final 0 queue.tokens).flatten =
      .ok (.dict items) := by
    rw [htext]
    exact hread
  have hchunks := hconsistent.chunks _ events items hrun hread'
  have hcalled := fun called => hconsistent.calls _ events items called hrun hread'
  have hdocumented := hconsistent.documented _ events hrun
  obtain ⟨answer, hanswer⟩ := (normalizeParsedMessage_ok_iff _ _).mpr haccepted
  obtain ⟨hreasoning, hcontent, hcalls⟩ := answer_shown hanswer hchunks hcalled hdocumented
  have hshows := streamShows_of_run hparse htokenizer hrun
    (fits_of_acceptable haccepted hcalled hdocumented)
  obtain ⟨hresponse, hchat⟩ := parsed_of_normalized hparse htokenizer hread hanswer
  refine ⟨chatAgree_of_shows includeUsage hfinal hshows hchat hreasoning hcontent hcalls, ?_⟩
  rw [responsesAgree_of_shows hfinal hshows solid_pieces hresponse hreasoning hcontent hcalls,
    hreasoning]
  obtain ⟨-, -, -, hthought, hsaid, called, hlist, hfunctions⟩ :=
    (normalizeParsedMessage_eq_ok_iff haccepted.isMessage answer).mp hanswer
  have hempty : called = [] ↔ answer.toolCalls = [] := by
    cases called with
    | nil => exact iff_of_true rfl (Except.ok.inj hfunctions).symm
    | cons call rest =>
      refine iff_of_false (List.cons_ne_nil call rest) fun hnone => ?_
      rw [hnone, normalizeToolCalls] at hfunctions
      obtain ⟨function, -, h⟩ := bind_eq_ok_iff.mp hfunctions
      obtain ⟨functions, -, h⟩ := bind_eq_ok_iff.mp h
      cases h
  rw [hthought, hsaid, hlist]
  cases hcase : answer.reasoningContent with
  | none =>
    refine and_congr (iff_of_true (by simp) (by simp)) (and_congr ?_ ?_)
    · simp [hempty]
    · exact iff_of_true (fun h => absurd rfl h) fun h => absurd rfl h
  | some text =>
    constructor
    · rintro ⟨hsome, halone, hfirst⟩
      refine ⟨by simpa using hsome, fun h => congrArg Value.str (halone ?_), fun _ => hfirst ?_⟩
      · exact fun hnone => h (congrArg Value.list (hempty.mpr hnone))
      · exact fun hnone => hsome (congrArg some hnone)
    · rintro ⟨hsome, halone, hfirst⟩
      refine ⟨by simpa using hsome, fun h => ?_, fun _ => hfirst (by simp)⟩
      exact Value.str.inj (halone fun hnone => h (hempty.mp (Value.list.inj hnone)))

/-! ### The conditions, with their data at hand -/

theorem responsesMeet_iff (hfinal : queue.final? = some final)
    (hparse : options.shouldParse = true) (htokenizer : options.responseParser = some tokenizer)
    {parsed : Value} (hread : tokenizer.parseResponse options.prompt final.parserText = .ok parsed)
    {events : List Event}
    (hrun : eventRun tokenizer options.prompt (feeds final 0 queue.tokens) = .ok events) :
    ResponsesMeet options queue ↔
      Acceptable options.parseTools parsed ∧ parsed.reasoning ≠ .str [] ∧
          (parsed.toolCalls ≠ .list [] → parsed.content = .str []) ∧
          (parsed.reasoning ≠ .none →
            (pieces options.parseTools events).head?.map Piece.isReasoning = some true) ∨
        options.parseTools = true ∧ ClosesBadCall events := by
  refine ⟨fun h => h final tokenizer parsed events hfinal hparse htokenizer hread hrun, fun h => ?_⟩
  intro final' tokenizer' parsed' events' hfinal' _ htokenizer' hread' hrun'
  obtain rfl := Option.some.inj (hfinal.symm.trans hfinal')
  obtain rfl := Option.some.inj (htokenizer.symm.trans htokenizer')
  obtain rfl := Except.ok.inj (hread.symm.trans hread')
  obtain rfl := Except.ok.inj (hrun.symm.trans hrun')
  exact h

theorem chatMeet_iff (hfinal : queue.final? = some final)
    (hparse : options.shouldParse = true) (htokenizer : options.responseParser = some tokenizer)
    {parsed : Value} (hread : tokenizer.parseResponse options.prompt final.parserText = .ok parsed)
    {events : List Event}
    (hrun : eventRun tokenizer options.prompt (feeds final 0 queue.tokens) = .ok events) :
    ChatMeet options queue ↔
      Acceptable options.parseTools parsed ∨ options.parseTools = true ∧ ClosesBadCall events := by
  refine ⟨fun h => (h final tokenizer hfinal hparse htokenizer).2 parsed events hread hrun,
    fun h => ?_⟩
  intro final' tokenizer' hfinal' _ htokenizer'
  obtain rfl := Option.some.inj (hfinal.symm.trans hfinal')
  obtain rfl := Option.some.inj (htokenizer.symm.trans htokenizer')
  refine ⟨fun exc herror => ?_, fun parsed' events' hread' hrun' => ?_⟩
  · rw [hread] at herror
    cases herror
  · obtain rfl := Except.ok.inj (hread.symm.trans hread')
    obtain rfl := Except.ok.inj (hrun.symm.trans hrun')
    exact h

theorem chatMeet_error_iff (hfinal : queue.final? = some final)
    (hparse : options.shouldParse = true) (htokenizer : options.responseParser = some tokenizer)
    {exc : PyException}
    (hread : tokenizer.parseResponse options.prompt final.parserText = .error exc) :
    ChatMeet options queue ↔ ¬ MalformedJson exc := by
  refine ⟨fun h => (h final tokenizer hfinal hparse htokenizer).1 exc hread, fun h => ?_⟩
  intro final' tokenizer' hfinal' _ htokenizer'
  obtain rfl := Option.some.inj (hfinal.symm.trans hfinal')
  obtain rfl := Option.some.inj (htokenizer.symm.trans htokenizer')
  refine ⟨fun exc' herror => ?_, fun parsed' events' hread' => ?_⟩
  · obtain rfl := Except.error.inj (hread.symm.trans herror)
    exact h
  · rw [hread] at hread'
    cases hread'

/-! ### The two ways a stream can miss the answer -/

/-- A text the parser cannot read: the Responses answers agree; the chat answers do iff its tool JSON
is not malformed. -/
theorem agree_exception (includeUsage : Bool) (hfinal : queue.final? = some final)
    (hcuts : Cuts queue.tokens final) (hparse : options.shouldParse = true)
    (htokenizer : options.responseParser = some tokenizer)
    (hconsistent : Consistent tokenizer options.prompt) {exc : PyException}
    (hread : tokenizer.parseResponse options.prompt final.parserText = .error exc) :
    ResponsesAgree options queue ∧ (ChatAgree options includeUsage queue ↔ ¬ MalformedJson exc) := by
  obtain ⟨exc', hrun⟩ := (hconsistent.raises (feeds final 0 queue.tokens)).mpr
    ⟨exc, by rw [flatten_feeds hcuts]; exact hread⟩
  have hraises : StreamRaises options final queue.tokens :=
    streamRaises_of_run hparse htokenizer fun events hevents => by
      rw [hrun] at hevents
      cases hevents
  obtain ⟨⟨failure, hresponse⟩, hchat⟩ := parsed_of_exception hparse htokenizer hread
  have herror := responseResponse_eq options hfinal
  rw [hresponse] at herror
  refine ⟨(responseStream_of_raises hfinal hraises).agree herror, ?_⟩
  have hfails := chatStream_of_raises includeUsage hfinal hraises
  have hcompletion := chatCompletionResponse_eq options hfinal
  rw [← hchat]
  constructor
  · intro h
    obtain ⟨exc'', h⟩ := h.1.mpr hfails
    cases hparsed : chatParsed options final with
    | ok parsed =>
      rw [hcompletion, hparsed] at h
      cases h
    | error failure => exact ⟨failure, rfl⟩
  · rintro ⟨failure, hparsed⟩
    rw [hparsed] at hcompletion
    exact hfails.agree hcompletion

/-- A refused message: the answers agree iff the stream meets a bad tool call. -/
theorem agree_refused (includeUsage : Bool) (hfinal : queue.final? = some final)
    (hparse : options.shouldParse = true) (htokenizer : options.responseParser = some tokenizer)
    (hconsistent : Consistent tokenizer options.prompt) {parsed : Value}
    (hread : tokenizer.parseResponse options.prompt final.parserText = .ok parsed)
    {events : List Event}
    (hrun : eventRun tokenizer options.prompt (feeds final 0 queue.tokens) = .ok events)
    (hrefused : ¬ Acceptable options.parseTools parsed) :
    (ResponsesAgree options queue ↔ options.parseTools = true ∧ ClosesBadCall events) ∧
      (ChatAgree options includeUsage queue ↔
        options.parseTools = true ∧ ClosesBadCall events) := by
  obtain ⟨⟨failure, hresponse⟩, failure', hchat⟩ :=
    parsed_of_refused hparse htokenizer hread hrefused
  have herror := responseResponse_eq options hfinal
  have herror' := chatCompletionResponse_eq options hfinal
  rw [hresponse] at herror
  rw [hchat] at herror'
  by_cases hbad : options.parseTools = true ∧ ClosesBadCall events
  · have hraises : StreamRaises options final queue.tokens := by
      refine streamRaises_of_run hparse htokenizer fun events' hevents hfits => ?_
      obtain rfl := Except.ok.inj (hrun.symm.trans hevents)
      obtain ⟨htools, event, hevent, hcloses, hnot⟩ := hbad
      exact hnot ((hfits event hevent).2 hcloses htools)
    exact ⟨iff_of_true ((responseStream_of_raises hfinal hraises).agree herror) hbad,
      iff_of_true ((chatStream_of_raises includeUsage hfinal hraises).agree herror') hbad⟩
  · have hfits : ∀ event ∈ events, event.Fits options.parseTools := by
      intro event hevent
      refine ⟨hconsistent.documented _ events hrun event hevent, fun hcloses htools => ?_⟩
      by_contra hnot
      exact hbad ⟨htools, event, hevent, hcloses, hnot⟩
    have hshows := streamShows_of_run hparse htokenizer hrun hfits
    refine ⟨iff_of_false (fun h => ?_) hbad, iff_of_false (fun h => ?_) hbad⟩
    · exact not_responseFails hfinal hshows solid_pieces (h.1.mp ⟨_, herror⟩)
    · exact not_chatFails includeUsage hfinal hshows (h.1.mp ⟨_, herror'⟩)

/-- **Streamed and non-streamed answers agree** on each endpoint iff its condition holds, for every
cut of an answer and every consistent parser. -/
theorem streaming_agrees_iff (includeUsage : Bool) (options : ParseOptions P) (queue : Queue)
    (hcuts : ∀ final, queue.final? = some final → Cuts queue.tokens final)
    (hconsistent : ∀ tokenizer, options.responseParser = some tokenizer →
      Consistent tokenizer options.prompt) :
    (ResponsesAgree options queue ↔ ResponsesMeet options queue) ∧
      (ChatAgree options includeUsage queue ↔ ChatMeet options queue) := by
  cases hfinal : queue.final? with
  | none =>
    -- The queue ends with an error: every path reports it.
    obtain ⟨exc, hwait⟩ := waitFinal_of_error hfinal
    have hresponse : responseResponse options queue = .error exc := by
      unfold responseResponse
      rw [hwait]
      rfl
    have hchat : chatCompletionResponse options queue = .error exc := by
      unfold chatCompletionResponse
      rw [hwait]
      rfl
    refine ⟨iff_of_true ((responseStream_of_error hfinal).agree hresponse) ?_,
      iff_of_true ((chatStream_of_error includeUsage hfinal).agree hchat) ?_⟩
    · intro final _ _ _ hsome
      rw [hfinal] at hsome
      cases hsome
    · intro final _ hsome
      rw [hfinal] at hsome
      cases hsome
  | some final =>
  have hcut := hcuts final hfinal
  cases hparse : options.shouldParse with
  | false =>
    obtain ⟨hresponse, hchat⟩ := agree_unparsed includeUsage hfinal hcut hparse
    refine ⟨iff_of_true hresponse ?_, iff_of_true hchat ?_⟩
    · intro final' _ _ _ _ hon
      rw [hparse] at hon
      cases hon
    · intro final' _ _ hon
      rw [hparse] at hon
      cases hon
  | true =>
  cases htokenizer : options.responseParser with
  | none =>
    have hraises := streamRaises_unconfigured final queue.tokens hparse htokenizer
    obtain ⟨⟨exc, hresponse⟩, exc', hchat⟩ := parsed_unconfigured final hparse htokenizer
    have herror := responseResponse_eq options hfinal
    have herror' := chatCompletionResponse_eq options hfinal
    rw [hresponse] at herror
    rw [hchat] at herror'
    refine ⟨iff_of_true ((responseStream_of_raises hfinal hraises).agree herror) ?_,
      iff_of_true ((chatStream_of_raises includeUsage hfinal hraises).agree herror') ?_⟩
    · intro _ _ _ _ _ _ hsome
      rw [htokenizer] at hsome
      cases hsome
    · intro _ _ _ _ hsome
      rw [htokenizer] at hsome
      cases hsome
  | some tokenizer =>
  have hparser := hconsistent tokenizer htokenizer
  cases hread : tokenizer.parseResponse options.prompt final.parserText with
  | error exc =>
    obtain ⟨hresponse, hchat⟩ :=
      agree_exception includeUsage hfinal hcut hparse htokenizer hparser hread
    refine ⟨iff_of_true hresponse ?_,
      hchat.trans (chatMeet_error_iff hfinal hparse htokenizer hread).symm⟩
    intro final' tokenizer' parsed _ hfinal' _ htokenizer' hread'
    obtain rfl := Option.some.inj (hfinal.symm.trans hfinal')
    obtain rfl := Option.some.inj (htokenizer.symm.trans htokenizer')
    rw [hread] at hread'
    cases hread'
  | ok parsed =>
  cases hrun : eventRun tokenizer options.prompt (feeds final 0 queue.tokens) with
  | error exc =>
    obtain ⟨exc', hfailed⟩ := (hparser.raises _).mp ⟨exc, hrun⟩
    rw [flatten_feeds hcut, hread] at hfailed
    cases hfailed
  | ok events =>
  rw [responsesMeet_iff hfinal hparse htokenizer hread hrun,
    chatMeet_iff hfinal hparse htokenizer hread hrun]
  by_cases haccepted : Acceptable options.parseTools parsed
  · obtain ⟨hchat, hresponse⟩ :=
      agree_accepted includeUsage hfinal hcut hparse htokenizer hparser hread hrun haccepted
    refine ⟨hresponse.trans ⟨fun h => Or.inl ⟨haccepted, h⟩, ?_⟩,
      iff_of_true hchat (Or.inl haccepted)⟩
    rintro (⟨-, h⟩ | ⟨htools, event, hevent, hcloses, hnot⟩)
    · exact h
    · -- An accepted message closes no bad call.
      obtain ⟨items, rfl⟩ := haccepted.isMessage
      have hread' := hread
      rw [← flatten_feeds hcut] at hread'
      have hfits := fits_of_acceptable haccepted
        (fun called => hparser.calls _ events items called hrun hread')
        (hparser.documented _ events hrun) event hevent
      exact absurd (hfits.2 hcloses htools) hnot
  · obtain ⟨hresponse, hchat⟩ :=
      agree_refused includeUsage hfinal hparse htokenizer hparser hread hrun haccepted
    refine ⟨hresponse.trans ⟨Or.inr, ?_⟩, hchat.trans ⟨Or.inr, ?_⟩⟩
    · rintro (⟨h, -⟩ | h)
      · exact absurd h haccepted
      · exact h
    · rintro (h | h)
      · exact absurd h haccepted
      · exact h

end

/-! ## An answer with content beside a tool call -/

/-- A parser that reports the events of a text when it is finalized. -/
def bufferedTokenizer (read : Text → List (String × Value) × List Event) : Tokenizer Text where
  parseResponse _ text := .ok (.dict (read text).1)
  getResponseParser _ := .ok []
  initialEvents _ := []
  feed parser textDelta := .ok ([], parser ++ textDelta)
  finalize parser := .ok (.dict (read parser).1, (read parser).2)

theorem feedAll_buffered (read : Text → List (String × Value) × List Event) (parser : Text)
    (fed : List Text) :
    feedAll (bufferedTokenizer read) parser fed = .ok ([], parser ++ fed.flatten) := by
  induction fed generalizing parser with
  | nil => exact congrArg (fun text => Except.ok ([], text)) (List.append_nil parser).symm
  | cons feed rest ih =>
    show (feedAll (bufferedTokenizer read) (parser ++ feed) rest >>= _) = _
    rw [ih, List.append_assoc]
    rfl

theorem eventRun_buffered (read : Text → List (String × Value) × List Event) (prompt : Text)
    (fed : List Text) :
    eventRun (bufferedTokenizer read) prompt fed = .ok (read fed.flatten).2 := by
  show (feedAll (bufferedTokenizer read) [] fed >>= _) = _
  rw [feedAll_buffered]
  rfl

theorem consistent_buffered {read : Text → List (String × Value) × List Event} (prompt : Text)
    (hchunks : ∀ text, ∀ field ∈ textFields,
      chunkText field (read text).2 = (Value.field (.dict (read text).1) field .none).text)
    (hcalls : ∀ text called, Value.toolCalls (.dict (read text).1) = .list called →
      closedCalls (read text).2 = called)
    (hdocumented : ∀ text, ∀ event ∈ (read text).2, event.Documented) :
    Consistent (bufferedTokenizer read) prompt where
  raises fed := by
    rw [eventRun_buffered]
    exact iff_of_false nofun nofun
  chunks fed events items hrun hread := by
    rw [eventRun_buffered] at hrun
    cases hrun
    cases hread
    exact hchunks fed.flatten
  calls fed events items called hrun hread := by
    rw [eventRun_buffered] at hrun
    cases hrun
    cases hread
    exact hcalls fed.flatten called
  documented fed events hrun := by
    rw [eventRun_buffered] at hrun
    cases hrun
    exact hdocumented fed.flatten

/-- Content followed by a tool call. -/
def callText : Text :=
  "Looking.<tool_call>\x7b\"name\":\"search\",\"arguments\":\x7b\x7d\x7d</tool_call>".toList

/-- The tool call of `callText`. -/
def searchCall : Value :=
  .dict [("type", .str "function".toList),
    ("function", .dict [("name", .str "search".toList), ("arguments", .dict [])])]

/-- The reading of `callText`; any other text is content. -/
def readCall (text : Text) : List (String × Value) × List Event :=
  if text = callText then
    ([("role", .str "assistant".toList), ("content", .str "Looking.".toList),
        ("tool_calls", .list [searchCall])],
      [{ type := .regionChunk, field := "content", text := "Looking.".toList },
        { type := .regionClose, field := "tool_calls", value := searchCall }])
  else
    ([("role", .str "assistant".toList), ("content", .str text)],
      [{ type := .regionChunk, field := "content", text }])

/-- A text read as content only. -/
theorem chunkText_content (text : Text) {field : String} (hfield : field ∈ textFields) :
    chunkText field [{ type := .regionChunk, field := "content", text }] =
      (Value.field (.dict [("role", .str "assistant".toList), ("content", .str text)]) field
        .none).text := by
  have hnames : ∀ name ∈ textFields, name ≠ "role" := by decide
  have hrole := hnames field hfield
  unfold chunkText Value.field Value.entries
  by_cases hcontent : field = "content"
  · subst hcontent
    cases text <;> simp [List.lookup, Event.isClean, Value.text]
  · simp [List.lookup, hcontent, Ne.symm hcontent, hrole, beq_false_of_ne, Value.text]

theorem readCall_consistent (prompt : Text) : Consistent (bufferedTokenizer readCall) prompt := by
  refine consistent_buffered prompt (fun text field hfield => ?_) (fun text called h => ?_)
    fun text event hevent => ?_
  · unfold readCall
    split
    · revert field
      decide +kernel
    · exact chunkText_content text hfield
  · unfold readCall at h ⊢
    by_cases htext : text = callText
    · rw [if_pos htext] at h ⊢
      cases h
      rfl
    · rw [if_neg htext] at h ⊢
      cases h
      rfl
  · unfold readCall at hevent
    split at hevent
    · rcases List.mem_cons.mp hevent with rfl | hevent
      · exact True.intro
      · obtain rfl := List.mem_singleton.mp hevent
        exact True.intro
    · obtain rfl := List.mem_singleton.mp hevent
      exact True.intro

theorem acceptable_readCall : Acceptable true (.dict (readCall callText).1) := by
  have hread : (readCall callText).1 = [("role", .str "assistant".toList),
      ("content", .str "Looking.".toList), ("tool_calls", .list [searchCall])] := by
    unfold readCall
    rw [if_pos rfl]
  rw [hread]
  refine ⟨⟨_, rfl⟩, by decide +kernel, Or.inl rfl, ⟨"Looking.".toList, rfl⟩,
    ⟨[searchCall], rfl, nofun, ?_⟩, ?_⟩
  · intro call hcall
    obtain rfl := List.mem_singleton.mp hcall
    exact ⟨"search".toList, by decide +kernel, rfl⟩
  · intro item hitem hrole hcontent hcalls
    simp [Value.entries] at hitem
    rcases hitem with rfl | rfl | rfl
    · exact absurd rfl hrole
    · exact absurd rfl hcontent
    · exact absurd rfl hcalls

/-- A request with tools. -/
def callOptions : ParseOptions Text where
  prompt := []
  reasoningParserName := none
  parseTools := true
  responseParser := some (bufferedTokenizer readCall)

/-- The final item of `callText`. -/
def callFinal : FinalItem where
  text := "Looking.".toList
  rawText := some callText
  finishReason := .stop
  promptTokens := 3
  completionTokens := 5

/-- The token item that carries the content. -/
def callToken : TokenItem where
  text := "Looking.".toList
  rawTextDelta := some "Looking.".toList
  tokenIds := [1, 2]
  logprobs := false

/-- The answer in one token item. -/
def callQueue : Queue :=
  .token callToken (.final callFinal)

/-- The output of the non-streamed answer. -/
def answeredOutput (options : ParseOptions P) (queue : Queue) : Option (List OutputItem) :=
  match responseResponse options queue with
  | .ok response => some response.output
  | .error _ => none

/-- The output of the last streamed response object. -/
def streamedOutput (options : ParseOptions P) (queue : Queue) : Option (List OutputItem) :=
  match responseStream options queue with
  | .ok frames => frames.getLast?.map fun frame => frame.response.output
  | .error _ => none

theorem ResponsesAgree.output_eq {options : ParseOptions P} {queue : Queue}
    {answered streamed : List OutputItem} (h : ResponsesAgree options queue)
    (hanswered : answeredOutput options queue = some answered)
    (hstreamed : streamedOutput options queue = some streamed) : streamed = answered := by
  unfold answeredOutput at hanswered
  unfold streamedOutput at hstreamed
  split at hanswered
  · rename_i response hresponse
    cases hanswered
    split at hstreamed
    · rename_i frames hframes
      exact Option.some.inj (hstreamed.symm.trans (h.2 response frames hresponse hframes))
    · cases hstreamed
  · cases hanswered

/-- **Content beside a tool call** is streamed on the Responses endpoint and left out of the
non-streamed answer. -/
theorem streaming_drops_content : Consistent (bufferedTokenizer readCall) callOptions.prompt ∧
    Cuts callQueue.tokens callFinal ∧ ¬ ResponsesAgree callOptions callQueue := by
  have hanswered : answeredOutput callOptions callQueue =
      some [.functionCall "search".toList "\x7b\x7d".toList .completed] := by
    decide +kernel
  have hstreamed : streamedOutput callOptions callQueue =
      some [messageOutputItem "Looking.".toList,
        .functionCall "search".toList "\x7b\x7d".toList .completed] := by
    decide +kernel
  refine ⟨readCall_consistent _, ⟨by decide +kernel, by decide +kernel⟩, fun h => ?_⟩
  cases h.output_eq hanswered hstreamed

/-- The chat endpoint answers the same queue alike both ways. -/
theorem streaming_agrees_iff_call : ChatAgree callOptions false callQueue := by
  have hcuts : ∀ final, callQueue.final? = some final → Cuts callQueue.tokens final := by
    intro final hfinal
    obtain rfl : callFinal = final := Option.some.inj hfinal
    exact ⟨by decide +kernel, by decide +kernel⟩
  have hconsistent : ∀ tokenizer, callOptions.responseParser = some tokenizer →
      Consistent tokenizer callOptions.prompt := by
    intro tokenizer htokenizer
    obtain rfl : bufferedTokenizer readCall = tokenizer := Option.some.inj htokenizer
    exact readCall_consistent _
  refine (streaming_agrees_iff false callOptions callQueue hcuts hconsistent).2.mpr ?_
  intro final tokenizer hfinal _ htokenizer
  obtain rfl : callFinal = final := Option.some.inj hfinal
  obtain rfl : bufferedTokenizer readCall = tokenizer := Option.some.inj htokenizer
  refine ⟨nofun, fun parsed events hread _ => Or.inl ?_⟩
  cases hread
  exact acceptable_readCall

end SparseVllm.Serving
