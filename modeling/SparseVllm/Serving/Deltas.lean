import SparseVllm.Serving.Message

/-!
# From queue items to deltas

Both streaming endpoints read the same queue: token items, then one final item or an error. They
keep the parser and the lengths of what they have passed on; a token item and the final item each
give deltas. `eventRun` is the parser alone over the same feeds, and `pieces` is what its events
show of the answer.

Headlines:
* **`eventsToDeltas_ok`**, **`eventsToDeltas_fits`**: the adapter turns events into the deltas of
  their pieces, and raises iff an event does not fit.
* **`collect_parsed`**: over any cut of the text the deltas are those of the whole event run.
-/

namespace SparseVllm.Serving

open Lib

/-! ## The queue of a request -/

/-- `finish_reason`. -/
inductive FinishReason where
  | stop
  | length
  | toolCalls
deriving DecidableEq

/-- A token item; `logprobs` says whether the request asked for log-probabilities. -/
structure TokenItem where
  text : Text
  rawTextDelta : Option Text
  tokenIds : List Nat
  logprobs : Bool

/-- The final item. -/
structure FinalItem where
  text : Text
  rawText : Option Text
  finishReason : FinishReason
  promptTokens : Nat
  completionTokens : Nat

/-- The output queue of a request, in the order it is read; it ends with the one final item or with
an error. -/
inductive Queue where
  | token (item : TokenItem) (rest : Queue)
  | final (item : FinalItem)
  | error (message : String)

/-- The token items of a queue. -/
def Queue.tokens : Queue → List TokenItem
  | token item rest => item :: rest.tokens
  | final _ => []
  | error _ => []

/-- The final item of a queue, unless it ends with an error. -/
def Queue.final? : Queue → Option FinalItem
  | token _ rest => rest.final?
  | final item => some item
  | error _ => none

/-- `_wait_final`. -/
def waitFinal : Queue → Except PyException FinalItem
  | .token _ rest => waitFinal rest
  | .final item => .ok item
  | .error message => .error { kind := .httpException 500, message := .foreign message }

/-- What a request asks of the endpoint. -/
structure ParseOptions (P : Type) where
  prompt : Text
  reasoningParserName : Option String
  parseTools : Bool
  responseParser : Option (Tokenizer P)

/-- `reasoning_parser_name is not None or parse_tools`. -/
def ParseOptions.shouldParse {P : Type} (options : ParseOptions P) : Bool :=
  options.reasoningParserName.isSome || options.parseTools

/-- `item.get("raw_text_delta", item.get("text", ""))`. -/
def TokenItem.rawDelta (item : TokenItem) : Text :=
  item.rawTextDelta.getD item.text

/-- `final.get("raw_text", final["text"])`. -/
def FinalItem.parserText (final : FinalItem) : Text :=
  final.rawText.getD final.text

/-- A cut of an answer: the token items carry consecutive pieces of the final texts, from their
start. -/
structure Cuts (tokens : List TokenItem) (final : FinalItem) : Prop where
  text : (tokens.map TokenItem.text).flatten <+: final.text
  rawText : (tokens.map TokenItem.rawDelta).flatten <+: final.parserText

variable {P : Type}

/-- What a streaming endpoint keeps between two items. -/
structure StreamRun (P : Type) where
  parser : Option (StreamParser P)
  rawTextLen : Nat := 0
  visibleTextLen : Nat := 0
  completionTokens : Nat := 0

/-- `[{"content": text}] if text else []`. -/
def contentDeltas (text : Text) : List Delta :=
  if text.isEmpty then [] else [{ content := some text }]

/-- The parser a streaming endpoint starts with; `missing` is its text where there is none. -/
def openParser (options : ParseOptions P) (missing : Complaint := .parserNotConfigured) :
    Except PyException (Option (StreamParser P)) :=
  if options.shouldParse then
    match options.responseParser with
    | none => .error { kind := .httpException 500, message := missing }
    | some tokenizer => (stream tokenizer options.prompt options.parseTools).map some
  else .ok none

/-- `parser.feed(delta)` on the run's parser. -/
def onParser {α : Type} (m : EStateM PyException (StreamParser P) α) (parser : StreamParser P) :
    EStateM PyException (StreamRun P) α :=
  zoom (fun _ => parser) (fun parser run => { run with parser := some parser }) id m

/-- The deltas of a token item. -/
def tokenDeltas (item : TokenItem) : EStateM PyException (StreamRun P) (List Delta) := do
  modify fun run => { run with completionTokens := run.completionTokens + item.tokenIds.length }
  let run ← get
  match run.parser with
  | some parser =>
    modify fun run => { run with rawTextLen := run.rawTextLen + item.rawDelta.length }
    onParser (feed item.rawDelta) parser
  | none =>
    modify fun run => { run with visibleTextLen := run.visibleTextLen + item.text.length }
    return contentDeltas item.text

/-- The deltas of the final item. -/
def finalDeltas (final : FinalItem) : EStateM PyException (StreamRun P) (List Delta) := do
  let run ← get
  match run.parser with
  | some parser =>
    onParser (do
      let fed ← feed (final.parserText.drop run.rawTextLen)
      let closing ← finish
      return fed ++ closing) parser
  | none => return contentDeltas (final.text.drop run.visibleTextLen)

/-- The deltas of a whole answer. -/
def collect (final : FinalItem) : List TokenItem → EStateM PyException (StreamRun P) (List Delta)
  | [] => finalDeltas final
  | item :: rest => do
    let deltas ← tokenDeltas item
    let others ← collect final rest
    return deltas ++ others

/-! ## What events show -/

/-- A piece of the answer. -/
inductive Piece where
  | reasoning (text : Text)
  | content (text : Text)
  | call (function : FunctionCall)
deriving DecidableEq

/-- A non-empty clean chunk. -/
def Event.isClean (event : Event) : Bool :=
  match event.type with
  | .regionChunk => !event.dirty && !event.text.isEmpty
  | _ => false

/-- The end of a tool call. -/
def Event.closesCall (event : Event) : Bool :=
  match event.type with
  | .regionClose => event.field = "tool_calls"
  | _ => false

/-- An event of one of the three documented types. -/
def Event.Documented (event : Event) : Prop :=
  match event.type with
  | .other _ => False
  | _ => True

/-- The event raises in the adapter iff it does not fit. -/
def Event.Fits (parseTools : Bool) (event : Event) : Prop :=
  event.Documented ∧ (event.closesCall = true → parseTools = true → IsToolCall event.value)

/-- What an event shows. -/
def Event.piece (parseTools : Bool) (event : Event) : Option Piece :=
  if event.isClean then
    if isReasoningField event.field then some (.reasoning event.text)
    else if event.field = "content" then some (.content event.text)
    else none
  else if event.closesCall && parseTools then
    match normalizeToolCall event.value with
    | .ok function => some (.call function)
    | .error _ => none
  else none

/-- What a list of events shows. -/
def pieces (parseTools : Bool) (events : List Event) : List Piece :=
  events.filterMap (Event.piece parseTools)

/-- The delta of a piece. -/
def Piece.delta (toolIndex : Nat) : Piece → Delta
  | reasoning text => { reasoningContent := some text }
  | content text => { content := some text }
  | call function => { toolCalls := [{ index := toolIndex, function }] }

/-- The functions called. -/
def calls (shown : List Piece) : List FunctionCall :=
  shown.filterMap fun
    | .call function => some function
    | _ => none

/-- The deltas of a list of pieces; tool calls are numbered from `toolIndex`. -/
def deltas (toolIndex : Nat) : List Piece → List Delta
  | [] => []
  | piece :: rest => piece.delta toolIndex :: deltas (toolIndex + (calls [piece]).length) rest

theorem calls_append (first second : List Piece) :
    calls (first ++ second) = calls first ++ calls second :=
  List.filterMap_append

theorem deltas_append (toolIndex : Nat) (first second : List Piece) :
    deltas toolIndex (first ++ second) =
      deltas toolIndex first ++ deltas (toolIndex + (calls first).length) second := by
  induction first generalizing toolIndex with
  | nil => rfl
  | cons piece first ih =>
    rw [List.cons_append, deltas, deltas, ih, List.cons_append]
    congr 3
    rw [show calls (piece :: first) = calls [piece] ++ calls first from
      calls_append [piece] first, List.length_append]
    omega

theorem pieces_cons (parseTools : Bool) (event : Event) (rest : List Event) :
    pieces parseTools (event :: rest) =
      (event.piece parseTools).toList ++ pieces parseTools rest := by
  unfold pieces
  rw [List.filterMap_cons]
  cases event.piece parseTools <;> rfl

theorem pieces_append (parseTools : Bool) (first second : List Event) :
    pieces parseTools (first ++ second) = pieces parseTools first ++ pieces parseTools second :=
  List.filterMap_append

/-! ## The adapter -/

/-- The adapter after `n` more tool calls. -/
def StreamParser.advanced (n : Nat) (self : StreamParser P) : StreamParser P :=
  { self with toolIndex := self.toolIndex + n, toolsCalled := self.toolsCalled || n != 0 }

theorem called_add (called : Bool) (m n : Nat) :
    ((called || m != 0) || n != 0) = (called || m + n != 0) := by
  cases m <;> cases n <;> simp

theorem StreamParser.advanced_advanced (m n : Nat) (self : StreamParser P) :
    (self.advanced m).advanced n = self.advanced (m + n) := by
  unfold StreamParser.advanced
  congr 1
  · exact Nat.add_assoc _ _ _
  · exact called_add _ m n

@[simp] theorem StreamParser.advanced_parseTools (n : Nat) (self : StreamParser P) :
    (self.advanced n).parseTools = self.parseTools := rfl

@[simp] theorem StreamParser.advanced_toolIndex (n : Nat) (self : StreamParser P) :
    (self.advanced n).toolIndex = self.toolIndex + n := rfl

theorem advanced_zero (self : StreamParser P) : self.advanced 0 = self := by
  simp [StreamParser.advanced]

theorem eventToDeltas_ok {event : Event} {self : StreamParser P}
    (h : event.Fits self.parseTools) :
    eventToDeltas event self =
      .ok (deltas self.toolIndex (event.piece self.parseTools).toList)
        (self.advanced (calls (event.piece self.parseTools).toList).length) := by
  obtain ⟨type, field, text, dirty, value⟩ := event
  unfold eventToDeltas Event.piece Event.isClean Event.closesCall
  cases type with
  | regionOpen => simp [deltas, calls, advanced_zero]
  | regionChunk =>
    cases dirty with
    | true => simp [deltas, calls, advanced_zero]
    | false =>
      cases hfield : isReasoningField field with
      | true => cases text <;> simp [deltas, calls, advanced_zero, Piece.delta]
      | false =>
        cases text <;> by_cases hcontent : field = "content" <;>
          simp [hcontent, deltas, calls, advanced_zero, Piece.delta]
  | regionClose =>
    by_cases hfield : field = "tool_calls"
    · cases htools : self.parseTools with
      | false => simp [hfield, htools, deltas, calls, advanced_zero]
      | true =>
        obtain ⟨function, hfunction⟩ :=
          (normalizeToolCall_ok_iff value).mpr (h.2 (by simp [Event.closesCall, hfield]) htools)
        simp [hfield, htools, hfunction, deltas, calls, StreamParser.advanced, Piece.delta]
        rfl
    · simp [hfield, deltas, calls, advanced_zero]
  | other name => exact h.1.elim

theorem fits_of_eventToDeltas {event : Event} {self self' : StreamParser P} {out : List Delta}
    (h : eventToDeltas event self = .ok out self') : event.Fits self.parseTools := by
  obtain ⟨type, field, text, dirty, value⟩ := event
  refine ⟨?_, fun hcall htools => ?_⟩
  · cases type with
    | other name => simp [eventToDeltas] at h
    | _ => exact True.intro
  · cases type with
    | regionClose =>
      have hfield : field = "tool_calls" := by simpa [Event.closesCall] using hcall
      refine (normalizeToolCall_ok_iff value).mp ?_
      cases hvalue : normalizeToolCall value with
      | ok function => exact ⟨function, rfl⟩
      | error exc => simp [eventToDeltas, hfield, htools, hvalue] at h
    | _ => cases hcall

/-- Events that fit become the deltas of their pieces. -/
theorem eventsToDeltas_ok {events : List Event} {self : StreamParser P}
    (h : ∀ event ∈ events, event.Fits self.parseTools) :
    eventsToDeltas events self =
      .ok (deltas self.toolIndex (pieces self.parseTools events))
        (self.advanced (calls (pieces self.parseTools events)).length) := by
  induction events generalizing self with
  | nil => simp [eventsToDeltas, pieces, deltas, calls, advanced_zero]
  | cons event rest ih =>
    have hrest := @ih (self.advanced (calls (event.piece self.parseTools).toList).length)
      fun e he => h e (List.mem_cons_of_mem event he)
    unfold eventsToDeltas
    rw [bind_ok (eventToDeltas_ok (h event List.mem_cons_self)), bind_ok hrest, pure_apply]
    simp only [StreamParser.advanced_parseTools, StreamParser.advanced_toolIndex,
      StreamParser.advanced_advanced, pieces_cons, deltas_append, calls_append, List.length_append]

theorem fits_of_eventsToDeltas {events : List Event} {self self' : StreamParser P}
    {out : List Delta} (h : eventsToDeltas events self = .ok out self') :
    ∀ event ∈ events, event.Fits self.parseTools := by
  induction events generalizing self self' out with
  | nil => exact List.forall_mem_nil _
  | cons event rest ih =>
    unfold eventsToDeltas at h
    obtain ⟨first, middle, hfirst, h⟩ := exists_of_bind_ok h
    obtain ⟨others, last, hothers, -⟩ := exists_of_bind_ok h
    have hfits := fits_of_eventToDeltas hfirst
    rw [eventToDeltas_ok hfits] at hfirst
    cases hfirst
    have hrest := ih hothers
    exact List.forall_mem_cons.mpr ⟨hfits, hrest⟩

/-! ## The parser over a cut -/

/-- The parser over a list of feeds. -/
def feedAll (tokenizer : Tokenizer P) : P → List Text → Except PyException (List Event × P)
  | parser, [] => .ok ([], parser)
  | parser, feed :: rest => do
    let (events, next) ← tokenizer.feed parser feed
    let (others, last) ← feedAll tokenizer next rest
    return (events ++ others, last)

/-- The events an adapter still gets: those it holds, those of the feeds and the closing ones. -/
def remainingEvents (self : StreamParser P) (feeds : List Text) :
    Except PyException (List Event) := do
  let (events, last) ← feedAll self.tokenizer self.parser feeds
  let (_, closing) ← self.tokenizer.finalize last
  return self.initialEvents ++ events ++ closing

/-- The events of the parser over a list of feeds. -/
def eventRun (tokenizer : Tokenizer P) (prompt : Text) (feeds : List Text) :
    Except PyException (List Event) := do
  let parser ← tokenizer.getResponseParser prompt
  let (events, last) ← feedAll tokenizer parser feeds
  let (_, closing) ← tokenizer.finalize last
  return tokenizer.initialEvents parser ++ events ++ closing

/-- The adapter after a feed. -/
def StreamParser.fed (parser : P) (self : StreamParser P) : StreamParser P :=
  { self with initialEvents := [], parser }

@[simp] theorem asParseError_ok {α : Type} {m : EStateM PyException (StreamParser P) α}
    {s t : StreamParser P} {a : α} : asParseError m s = .ok a t ↔ m s = .ok a t := by
  unfold asParseError catchIf
  cases h : m s with
  | ok b u => rfl
  | error exc u =>
    dsimp only
    split <;> simp

/-- A feed returns iff the parser does and its events fit. -/
theorem feed_ok_iff {text : Text} {self self' : StreamParser P}
    {out : List Delta} :
    feed text self = .ok out self' ↔
      ∃ events parser, self.tokenizer.feed self.parser text = .ok (events, parser) ∧
        eventsToDeltas (self.initialEvents ++ events) (self.fed parser) = .ok out self' := by
  unfold feed
  rw [get_bind]
  show asParseError _ { self with initialEvents := [] } = _ ↔ _
  rw [asParseError_ok]
  cases hfeed : self.tokenizer.feed self.parser text with
  | error exc => simp
  | ok result =>
    obtain ⟨events, parser⟩ := result
    refine ⟨fun h => ⟨events, parser, rfl, h⟩, fun ⟨_, _, heq, h⟩ => ?_⟩
    cases heq
    exact h

/-- A feed whose events fit gives the deltas of their pieces. -/
theorem feed_of_fits {text : Text} {self : StreamParser P}
    {got : List Event} {parser : P} (hfeed : self.tokenizer.feed self.parser text = .ok (got, parser))
    (hfits : ∀ event ∈ self.initialEvents ++ got, event.Fits self.parseTools) :
    feed text self =
      .ok (deltas self.toolIndex (pieces self.parseTools (self.initialEvents ++ got)))
        ((self.fed parser).advanced
          (calls (pieces self.parseTools (self.initialEvents ++ got))).length) :=
  feed_ok_iff.mpr ⟨got, parser, hfeed, eventsToDeltas_ok hfits⟩

theorem finish_ok_iff {self self' : StreamParser P} {out : List Delta} :
    finish self = .ok out self' ↔
      ∃ message closing, self.tokenizer.finalize self.parser = .ok (message, closing) ∧
        eventsToDeltas closing self = .ok out self' := by
  unfold finish
  rw [asParseError_ok, get_bind]
  cases hlast : self.tokenizer.finalize self.parser with
  | error exc => simp
  | ok result =>
    obtain ⟨message, closing⟩ := result
    refine ⟨fun h => ⟨message, closing, rfl, h⟩, fun ⟨_, _, heq, h⟩ => ?_⟩
    cases heq
    exact h

theorem remainingEvents_last {self : StreamParser P} {feed : Text}
    {events closing : List Event} {parser : P} {message : Value}
    (hfeed : self.tokenizer.feed self.parser feed = .ok (events, parser))
    (hlast : self.tokenizer.finalize parser = .ok (message, closing)) :
    remainingEvents self [feed] = .ok (self.initialEvents ++ events ++ closing) := by
  simp [remainingEvents, feedAll, hfeed, hlast, bind, Except.bind, pure, Except.pure]

theorem remainingEvents_cons {self : StreamParser P} {feed : Text}
    {feeds : List Text} {events : List Event} {parser : P}
    (hfeed : self.tokenizer.feed self.parser feed = .ok (events, parser)) (n : Nat) :
    remainingEvents self (feed :: feeds) =
      (remainingEvents ((self.fed parser).advanced n) feeds).map
        fun others => self.initialEvents ++ events ++ others := by
  unfold remainingEvents
  simp only [feedAll, hfeed, bind, Except.bind, pure, Except.pure, StreamParser.advanced,
    StreamParser.fed]
  cases feedAll self.tokenizer parser feeds with
  | error exc => rfl
  | ok result =>
    cases hlast : self.tokenizer.finalize result.2 with
    | error exc => simp [hlast, Except.map]
    | ok closing => simp [hlast, Except.map]

theorem exists_of_remainingEvents_cons {self : StreamParser P}
    {feed : Text} {feeds : List Text} {events : List Event}
    (h : remainingEvents self (feed :: feeds) = .ok events) :
    ∃ got parser others, self.tokenizer.feed self.parser feed = .ok (got, parser) ∧
      events = self.initialEvents ++ got ++ others ∧
      ∀ n, remainingEvents ((self.fed parser).advanced n) feeds = .ok others := by
  cases hfeed : self.tokenizer.feed self.parser feed with
  | error exc =>
    unfold remainingEvents feedAll at h
    rw [hfeed] at h
    cases h
  | ok result =>
    obtain ⟨got, parser⟩ := result
    rw [remainingEvents_cons hfeed 0] at h
    cases hothers : remainingEvents ((self.fed parser).advanced 0) feeds with
    | error exc =>
      rw [hothers] at h
      cases h
    | ok others =>
      rw [hothers] at h
      cases h
      exact ⟨got, parser, others, rfl, rfl, fun _ => hothers⟩

theorem exists_of_remainingEvents_nil {self : StreamParser P}
    {events : List Event} (h : remainingEvents self [] = .ok events) :
    ∃ message closing, self.tokenizer.finalize self.parser = .ok (message, closing) ∧
      events = self.initialEvents ++ closing := by
  unfold remainingEvents feedAll at h
  cases hlast : self.tokenizer.finalize self.parser with
  | ok result =>
    simp only [hlast, bind, Except.bind, pure, Except.pure, List.append_nil] at h
    cases h
    exact ⟨result.1, result.2, rfl, rfl⟩
  | error exc =>
    simp only [hlast, bind, Except.bind] at h
    cases h

/-- The feeds of an answer of which `sent` characters were passed on. -/
def feeds (final : FinalItem) (sent : Nat) (tokens : List TokenItem) : List Text :=
  tokens.map TokenItem.rawDelta ++
    [final.parserText.drop (sent + (tokens.map TokenItem.rawDelta).flatten.length)]

theorem feeds_cons (final : FinalItem) (sent : Nat) (item : TokenItem) (rest : List TokenItem) :
    feeds final sent (item :: rest) =
      item.rawDelta :: feeds final (sent + item.rawDelta.length) rest := by
  unfold feeds
  rw [List.map_cons, List.flatten_cons, List.length_append, List.cons_append, Nat.add_assoc]

/-- The feeds of a cut concatenate to the text. -/
theorem flatten_feeds {tokens : List TokenItem} {final : FinalItem} (h : Cuts tokens final) :
    (feeds final 0 tokens).flatten = final.parserText := by
  obtain ⟨rest, hrest⟩ := h.rawText
  unfold feeds
  rw [List.flatten_append, List.flatten_singleton, Nat.zero_add, ← hrest, List.drop_left]

/-! ## Collecting the deltas -/

theorem onParser_ok_iff {m : EStateM PyException (StreamParser P) (List Delta)}
    {parser : StreamParser P} {run run' : StreamRun P} {out : List Delta} :
    onParser m parser run = .ok out run' ↔
      ∃ parser', m parser = .ok out parser' ∧ run' = { run with parser := some parser' } := by
  unfold onParser zoom
  cases m parser with
  | ok found parser' =>
    refine ⟨fun h => ?_, fun ⟨_, h, hrun⟩ => ?_⟩
    · cases h
      exact ⟨parser', rfl, rfl⟩
    · cases h
      rw [hrun]
  | error exc parser' => simp

/-- The run after a token item went through its parser. -/
def StreamRun.parsed (item : TokenItem) (self : StreamParser P) (run : StreamRun P) : StreamRun P :=
  { run with
    parser := some self
    rawTextLen := run.rawTextLen + item.rawDelta.length
    completionTokens := run.completionTokens + item.tokenIds.length }

theorem tokenDeltas_parsed {item : TokenItem} {run run' : StreamRun P}
    {self : StreamParser P} {out : List Delta} (hparser : run.parser = some self) :
    tokenDeltas item run = .ok out run' ↔
      ∃ self', feed item.rawDelta self = .ok out self' ∧ run' = run.parsed item self' := by
  unfold tokenDeltas
  rw [modify_bind, get_bind]
  simp only [hparser]
  rw [modify_bind, onParser_ok_iff]
  rfl

theorem finalDeltas_parsed {final : FinalItem} {run run' : StreamRun P}
    {self : StreamParser P} {out : List Delta} (hparser : run.parser = some self) :
    finalDeltas final run = .ok out run' ↔
      ∃ fed middle closing last,
        feed (final.parserText.drop run.rawTextLen) self = .ok fed middle ∧
        finish middle = .ok closing last ∧ out = fed ++ closing ∧
        run' = { run with parser := some last } := by
  unfold finalDeltas
  rw [get_bind]
  simp only [hparser]
  rw [onParser_ok_iff]
  constructor
  · rintro ⟨last, h, hrun⟩
    obtain ⟨fed, middle, hfed, h⟩ := exists_of_bind_ok h
    obtain ⟨closing, last', hclosing, h⟩ := exists_of_bind_ok h
    cases h
    exact ⟨fed, middle, closing, last, hfed, hclosing, rfl, hrun⟩
  · rintro ⟨fed, middle, closing, last, hfed, hclosing, rfl, hrun⟩
    refine ⟨last, ?_, hrun⟩
    rw [bind_ok hfed, bind_ok hclosing]
    rfl

/-- The deltas of an answer are those of the events the parser still gives, provided they fit. -/
theorem collect_parsed {final : FinalItem} {tokens : List TokenItem}
    {run : StreamRun P} {self : StreamParser P} {events : List Event}
    (hparser : run.parser = some self)
    (hevents : remainingEvents self (feeds final run.rawTextLen tokens) = .ok events)
    (hfits : ∀ event ∈ events, event.Fits self.parseTools) :
    ∃ run' self', collect final tokens run =
        .ok (deltas self.toolIndex (pieces self.parseTools events)) run' ∧
      run'.parser = some self' ∧
      self'.toolsCalled =
        (self.toolsCalled || (calls (pieces self.parseTools events)).length != 0) := by
  induction tokens generalizing run self events with
  | nil =>
    obtain ⟨got, parser, others, hfeed, rfl, hothers⟩ := exists_of_remainingEvents_cons hevents
    obtain ⟨message, closing, hlast, hclosing⟩ := exists_of_remainingEvents_nil
      (hothers (calls (pieces self.parseTools (self.initialEvents ++ got))).length)
    obtain rfl : others = closing := hclosing
    rw [List.forall_mem_append] at hfits
    have hfed := feed_of_fits hfeed hfits.1
    have hending := finish_ok_iff.mpr ⟨message, others, hlast, eventsToDeltas_ok hfits.2⟩
    have hfinal : collect final [] run = _ :=
      (finalDeltas_parsed hparser).mpr ⟨_, _, _, _, hfed, hending, rfl, rfl⟩
    rw [pieces_append, deltas_append, calls_append, List.length_append]
    exact ⟨_, _, hfinal, rfl, called_add _ _ _⟩
  | cons item rest ih =>
    rw [feeds_cons] at hevents
    obtain ⟨got, parser, others, hfeed, rfl, hothers⟩ := exists_of_remainingEvents_cons hevents
    rw [List.forall_mem_append] at hfits
    have htoken := (tokenDeltas_parsed hparser).mpr ⟨_, feed_of_fits hfeed hfits.1, rfl⟩
    have hrest := @ih (run.parsed item ((self.fed parser).advanced
      (calls (pieces self.parseTools (self.initialEvents ++ got))).length)) _ others rfl
      (hothers _) hfits.2
    obtain ⟨run', self', hcollect, hrun, hcalled⟩ := hrest
    refine ⟨run', self', ?_, hrun, ?_⟩
    · unfold collect
      rw [bind_ok htoken, bind_ok hcollect, pieces_append _ (self.initialEvents ++ got),
        deltas_append]
      rfl
    · rw [hcalled, pieces_append _ (self.initialEvents ++ got), calls_append, List.length_append,
        ← called_add]
      rfl

/-- Collecting returns only when the parser does and its events fit. -/
theorem fits_of_collect {final : FinalItem} {tokens : List TokenItem}
    {run run' : StreamRun P} {self : StreamParser P} {out : List Delta}
    (hparser : run.parser = some self) (h : collect final tokens run = .ok out run') :
    ∃ events, remainingEvents self (feeds final run.rawTextLen tokens) = .ok events ∧
      ∀ event ∈ events, event.Fits self.parseTools := by
  induction tokens generalizing run run' self out with
  | nil =>
    obtain ⟨fed, middle, closing, last, hfed, hclosing, -, -⟩ := (finalDeltas_parsed hparser).mp h
    obtain ⟨events, parser, hfeed, hout⟩ := feed_ok_iff.mp hfed
    have hfits := fits_of_eventsToDeltas hout
    rw [eventsToDeltas_ok hfits] at hout
    cases hout
    obtain ⟨message, ending, hlast, hout⟩ := finish_ok_iff.mp hclosing
    have hending := fits_of_eventsToDeltas hout
    exact ⟨_, remainingEvents_last hfeed hlast, List.forall_mem_append.mpr ⟨hfits, hending⟩⟩
  | cons item rest ih =>
    unfold collect at h
    obtain ⟨first, middle, hfirst, h⟩ := exists_of_bind_ok h
    obtain ⟨others, last, hothers, -⟩ := exists_of_bind_ok h
    obtain ⟨self', hfed, rfl⟩ := (tokenDeltas_parsed hparser).mp hfirst
    obtain ⟨events, parser, hfeed, hout⟩ := feed_ok_iff.mp hfed
    have hfits := fits_of_eventsToDeltas hout
    rw [eventsToDeltas_ok hfits] at hout
    cases hout
    obtain ⟨more, hmore, hrest⟩ := ih rfl hothers
    refine ⟨self.initialEvents ++ events ++ more, ?_, List.forall_mem_append.mpr ⟨hfits, hrest⟩⟩
    rw [feeds_cons, remainingEvents_cons hfeed
      (calls (pieces self.parseTools (self.initialEvents ++ events))).length]
    exact congrArg (Except.map _) hmore

end SparseVllm.Serving
