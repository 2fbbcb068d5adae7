import SparseVllm.Serving.Chat
import SparseVllm.Serving.Shown

/-!
# What the streams of an answer come to

`StreamShows`: the stream of an answer shows certain pieces; `StreamRaises`: it raises. Which of the
two holds is read off the parser's events; what either means for the frames of each endpoint is said
once for every answer.

Headlines:
* **`responseStream_of_shows`**, **`chatStream_of_shows`**: the answer a client reads.
* **`responseStream_of_raises`**, **`chatStream_of_raises`**: the stream reports a failure.
* **`streamShows_of_run`**, **`streamRaises_of_run`**: events that all fit are shown, others raise.
-/

namespace SparseVllm.Serving

open Lib

variable {P : Type}

/-! ## What a stream shows -/

/-- The stream of an answer shows the pieces. -/
def StreamShows (options : ParseOptions P) (final : FinalItem) (tokens : List TokenItem)
    (shown : List Piece) : Prop :=
  ∃ parser run, openParser options = .ok parser ∧
    collect final tokens { parser } = .ok (deltas 0 shown) run ∧
    run.toolsCalled = ((calls shown).length != 0)

/-- The stream of an answer raises. -/
def StreamRaises (options : ParseOptions P) (final : FinalItem) (tokens : List TokenItem) : Prop :=
  ∀ parser out run, openParser options = .ok parser →
    collect final tokens { parser } ≠ .ok out run

/-- The text that is not parsed, as pieces. -/
def textPieces (texts : List Text) : List Piece :=
  (texts.filter fun text => !text.isEmpty).map Piece.content

theorem contentDeltas_eq (text : Text) (toolIndex : Nat) :
    contentDeltas text = deltas toolIndex (textPieces [text]) := by
  cases text <;> rfl

theorem calls_textPieces (texts : List Text) : calls (textPieces texts) = [] := by
  unfold calls textPieces
  rw [List.filterMap_map, List.filterMap_eq_nil_iff]
  exact fun _ _ => rfl

theorem solid_textPieces (texts : List Text) : ∀ piece ∈ textPieces texts, piece.Solid := by
  intro piece hpiece
  obtain ⟨text, htext, rfl⟩ := List.mem_map.mp hpiece
  show text ≠ []
  simpa using (List.mem_filter.mp htext).2

theorem reasoningOf_textPieces (texts : List Text) : reasoningOf (textPieces texts) = [] := by
  unfold reasoningOf textPieces
  rw [List.map_map, List.flatten_eq_nil_iff]
  intro text htext
  obtain ⟨_, -, rfl⟩ := List.mem_map.mp htext
  rfl

theorem contentOf_textPieces (texts : List Text) : contentOf (textPieces texts) = texts.flatten := by
  induction texts with
  | nil => rfl
  | cons text texts ih =>
    unfold contentOf textPieces at ih ⊢
    cases text with
    | nil => exact ih
    | cons c text => exact congrArg ((c :: text) ++ ·) ih

/-- The texts an endpoint without a parser passes on. -/
def visibleTexts (final : FinalItem) (sent : Nat) (tokens : List TokenItem) : List Text :=
  tokens.map TokenItem.text ++
    [final.text.drop (sent + (tokens.map TokenItem.text).flatten.length)]

theorem collect_unparsed {final : FinalItem} {tokens : List TokenItem} {run : StreamRun P}
    (hparser : run.parser = none) :
    ∃ run', collect final tokens run =
        .ok (deltas 0 (textPieces (visibleTexts final run.visibleTextLen tokens))) run' ∧
      run'.parser = none := by
  induction tokens generalizing run with
  | nil =>
    refine ⟨run, ?_, hparser⟩
    unfold collect finalDeltas
    rw [get_bind, hparser]
    show EStateM.Result.ok (contentDeltas _) run = _
    rw [contentDeltas_eq _ 0]
    rfl
  | cons item rest ih =>
    have htoken : tokenDeltas item run = .ok (contentDeltas item.text)
        { run with
          completionTokens := run.completionTokens + item.tokenIds.length
          visibleTextLen := run.visibleTextLen + item.text.length } := by
      unfold tokenDeltas
      rw [modify_bind, get_bind]
      simp only [hparser]
      rfl
    obtain ⟨run', hcollect, hnone⟩ := @ih { run with
      completionTokens := run.completionTokens + item.tokenIds.length
      visibleTextLen := run.visibleTextLen + item.text.length } hparser
    refine ⟨run', ?_, hnone⟩
    have htexts : textPieces (visibleTexts final run.visibleTextLen (item :: rest)) =
        textPieces [item.text] ++
          textPieces (visibleTexts final (run.visibleTextLen + item.text.length) rest) := by
      unfold textPieces visibleTexts
      rw [← List.map_append, ← List.filter_append, List.map_cons, List.flatten_cons,
        List.length_append, Nat.add_assoc]
      rfl
    unfold collect
    rw [bind_ok htoken, bind_ok hcollect, htexts, deltas_append, calls_textPieces,
      contentDeltas_eq item.text 0]
    rfl

theorem flatten_visibleTexts {tokens : List TokenItem} {final : FinalItem}
    (h : Cuts tokens final) : (visibleTexts final 0 tokens).flatten = final.text := by
  obtain ⟨rest, hrest⟩ := h.text
  unfold visibleTexts
  rw [List.flatten_append, List.flatten_singleton, Nat.zero_add, ← hrest, List.drop_left]

/-! ## The two endpoints over what a stream shows -/

section

variable {options : ParseOptions P} {queue : Queue} {final : FinalItem} {shown : List Piece}

theorem responseStream_ok {parser : Option (StreamParser P)} {frame : Frame} {last : ResponseRun P}
    (hopen : openParser options = .ok parser)
    (hloop : responseStreamLoop queue { state := {}, stream := { parser } } = .ok frame last) :
    responseStream options queue = .ok [createdFrame, frame] := by
  unfold responseStream
  rw [hopen]
  simp only [bind, Except.bind, hloop]
  rfl

theorem responseStream_error {parser : Option (StreamParser P)} {exc : PyException}
    {run : ResponseRun P} (hopen : openParser options = .ok parser)
    (hloop : responseStreamLoop queue { state := {}, stream := { parser } } = .error exc run) :
    responseStream options queue =
      .ok [createdFrame, responseStreamFailed run.state exc.kind.name exc.message] := by
  unfold responseStream
  rw [hopen]
  simp only [bind, Except.bind, hloop]
  rfl

theorem responseStream_of_shows (hfinal : queue.final? = some final)
    (h : StreamShows options final queue.tokens shown) (hsolid : ∀ piece ∈ shown, piece.Solid) :
    responseStream options queue =
      .ok [createdFrame, .completed (finishedResponse final (closed (layout shown)))] := by
  obtain ⟨parser, run, hopen, hcollect, -⟩ := h
  obtain ⟨state, hdeltas, hshows⟩ := Shows.initial.deltas hsolid 0
  obtain ⟨done, hdone, houtput⟩ := hshows.finishOpenItems
  obtain ⟨last, hloop⟩ := responseStreamLoop_of_collect hfinal hcollect hdeltas hdone
  rw [responseStream_ok hopen hloop, houtput]
  rfl

/-- The stream raises, or one of its frames reports a failure. -/
def ResponseFails (result : Except PyException (List Frame)) : Prop :=
  (∃ exc, result = .error exc) ∨ ∃ frames response, result = .ok frames ∧ .failed response ∈ frames

theorem responseStream_of_raises (hfinal : queue.final? = some final)
    (h : StreamRaises options final queue.tokens) :
    ResponseFails (responseStream options queue) := by
  cases hopen : openParser options with
  | error exc =>
    refine Or.inl ⟨exc, ?_⟩
    unfold responseStream
    rw [hopen]
    rfl
  | ok parser =>
    cases hloop : responseStreamLoop queue { state := {}, stream := { parser } } with
    | ok frame last =>
      obtain ⟨out, run, hcollect⟩ := collect_of_responseStreamLoop hfinal hloop
      exact absurd hcollect (h parser out run hopen)
    | error exc run =>
      exact Or.inr ⟨_, _, responseStream_error hopen hloop, List.mem_cons_of_mem _ List.mem_cons_self⟩

/-- A queue that ends with an error never completes. -/
theorem responseStreamLoop_of_error {queue : Queue} (hfinal : queue.final? = none)
    {start last : ResponseRun P} {frame : Frame} (h : responseStreamLoop queue start = .ok frame last) :
    ∃ response, frame = .failed response := by
  induction queue generalizing start with
  | error message =>
    cases h
    exact ⟨_, rfl⟩
  | final item => cases hfinal
  | token item rest ih =>
    unfold responseStreamLoop at h
    obtain ⟨first, middle, hfirst, h⟩ := exists_of_bind_ok h
    obtain ⟨u, shown, hshown, h⟩ := exists_of_bind_ok h
    exact ih hfinal h

theorem responseStream_of_error (hfinal : queue.final? = none) :
    ResponseFails (responseStream options queue) := by
  cases hopen : openParser options with
  | error exc =>
    refine Or.inl ⟨exc, ?_⟩
    unfold responseStream
    rw [hopen]
    rfl
  | ok parser =>
    cases hloop : responseStreamLoop queue { state := {}, stream := { parser } } with
    | ok frame last =>
      obtain ⟨response, rfl⟩ := responseStreamLoop_of_error hfinal hloop
      exact Or.inr ⟨_, response, responseStream_ok hopen hloop,
        List.mem_cons_of_mem _ List.mem_cons_self⟩
    | error exc run =>
      exact Or.inr ⟨_, _, responseStream_error hopen hloop, List.mem_cons_of_mem _ List.mem_cons_self⟩

end

/-! ## The chat endpoint over what a stream shows -/

theorem deltas_texts (toolIndex : Nat) (shown : List Piece) :
    deltasContent (deltas toolIndex shown) = contentOf shown ∧
      deltasReasoning (deltas toolIndex shown) = reasoningOf shown ∧
      deltasCalls (deltas toolIndex shown) = calls shown := by
  induction shown generalizing toolIndex with
  | nil => exact ⟨rfl, rfl, rfl⟩
  | cons piece rest ih =>
    obtain ⟨hcontent, hreasoning, hcalls⟩ := ih (toolIndex + (calls [piece]).length)
    unfold deltas
    refine ⟨?_, ?_, ?_⟩
    · rw [show piece :: rest = [piece] ++ rest from rfl, contentOf_append, ← hcontent]
      cases piece <;> simp [deltasContent, contentOf, Piece.delta]
    · rw [show piece :: rest = [piece] ++ rest from rfl, reasoningOf_append, ← hreasoning]
      cases piece <;> simp [deltasReasoning, reasoningOf, Piece.delta]
    · rw [show piece :: rest = [piece] ++ rest from rfl, calls_append, ← hcalls]
      cases piece <;> simp [deltasCalls, calls, Piece.delta]

section

variable {options : ParseOptions P} {queue : Queue} {final : FinalItem} {shown : List Piece}

/-- The frames after the loop. -/
def closingFrames (includeUsage : Bool) (run : ChatRun P) : List ChatFrame :=
  (if includeUsage then [.usage run.promptTokens run.completionTokens] else []) ++ [.done]

/-- Whether the parser opens does not depend on the text for a missing one. -/
theorem openParser_ok {parser : Option (StreamParser P)} (h : openParser options = .ok parser)
    (missing : Complaint) : openParser options missing = .ok parser := by
  unfold openParser at h ⊢
  split
  · rw [if_pos ‹_›] at h
    cases hparser : options.responseParser with
    | none =>
      rw [hparser] at h
      cases h
    | some tokenizer => rwa [hparser] at h
  · rwa [if_neg ‹_›] at h

theorem openParser_error {exc : PyException} (h : openParser options = .error exc)
    (missing : Complaint) : ∃ exc, openParser options missing = .error exc := by
  cases hopen : openParser options missing with
  | error exc => exact ⟨exc, rfl⟩
  | ok parser =>
    unfold openParser at h hopen
    split at h
    · rw [if_pos ‹_›] at hopen
      cases hparser : options.responseParser with
      | none =>
        rw [hparser] at hopen
        cases hopen
      | some tokenizer =>
        rw [hparser] at h hopen
        cases h.symm.trans hopen
    · cases h

theorem chatStream_ok (includeUsage : Bool) {parser : Option (StreamParser P)} {last : ChatRun P}
    (hopen : openParser options = .ok parser)
    (hloop : chatStreamLoop queue { frames := [.role], stream := { parser } } = .ok () last) :
    chatCompletionStream options includeUsage queue =
      .ok (last.frames ++ closingFrames includeUsage last) := by
  unfold chatCompletionStream closingFrames
  rw [openParser_ok hopen, ← List.append_assoc]
  simp only [bind, Except.bind, hloop]
  rfl

theorem closingFrames_carries (includeUsage : Bool) (run : ChatRun P) :
    Carries (closingFrames includeUsage run) [] [] := by
  cases includeUsage <;> exact ⟨rfl, rfl, rfl, rfl, rfl⟩

/-- A client's reading of the stream of an answer. -/
theorem chatStream_of_shows (includeUsage : Bool) (hfinal : queue.final? = some final)
    (h : StreamShows options final queue.tokens shown) :
    ∃ frames, chatCompletionStream options includeUsage queue = .ok frames ∧
      reportsError frames = false ∧ streamedContent frames = contentOf shown ∧
      streamedReasoning frames = reasoningOf shown ∧ streamedCalls frames = calls shown ∧
      streamedFinish frames =
        some (chatFinishReason ((calls shown).length != 0) final.finishReason) := by
  obtain ⟨parser, run, hopen, hcollect, hcalled⟩ := h
  obtain ⟨chunks, last, hloop, hcarries, hframes⟩ := @chatStreamLoop_of_collect P queue final
    { parser } run { frames := [.role], stream := { parser } } _ rfl hfinal hcollect
  obtain ⟨hcontent, hreasoning, hcalls⟩ := deltas_texts 0 shown
  rw [hcalled] at hframes
  generalize chatFinishReason ((calls shown).length != 0) final.finishReason = finishReason
    at hframes ⊢
  have hstart : Carries [.role] [] [] := ⟨rfl, rfl, rfl, rfl, rfl⟩
  have hfinish : Carries [.finish finishReason] [] [finishReason] := ⟨rfl, rfl, rfl, rfl, rfl⟩
  have hall := ((hstart.append hcarries).append hfinish).append
    (closingFrames_carries includeUsage last)
  rw [← hframes, List.nil_append, List.append_nil, List.append_nil] at hall
  refine ⟨_, chatStream_ok includeUsage hopen hloop, hall.noError, hall.content.trans hcontent,
    hall.reasoning.trans hreasoning, hall.calls.trans hcalls, ?_⟩
  unfold streamedFinish
  rw [hall.finishReasons]
  rfl

/-- The stream raises, or it reports an error. -/
def ChatFails (result : Except PyException (List ChatFrame)) : Prop :=
  (∃ exc, result = .error exc) ∨ ∃ frames, result = .ok frames ∧ reportsError frames = true

theorem reportsError_append_left {frames others : List ChatFrame}
    (h : reportsError frames = true) : reportsError (frames ++ others) = true := by
  unfold reportsError at h ⊢
  rw [List.any_append, h, Bool.true_or]

theorem reportsError_append_right {frames others : List ChatFrame}
    (h : reportsError others = true) : reportsError (frames ++ others) = true := by
  unfold reportsError at h ⊢
  rw [List.any_append, h, Bool.or_true]

theorem chatStream_of_exception (includeUsage : Bool) {parser : Option (StreamParser P)}
    {exc : PyException} {run : ChatRun P} (hopen : openParser options = .ok parser)
    (hloop : chatStreamLoop queue { frames := [.role], stream := { parser } } = .error exc run) :
    ChatFails (chatCompletionStream options includeUsage queue) := by
  unfold chatCompletionStream
  rw [openParser_ok hopen]
  simp only [bind, Except.bind, hloop]
  split
  · exact Or.inr ⟨_, rfl, reportsError_append_right rfl⟩
  · exact Or.inl ⟨exc, rfl⟩

theorem chatStream_not_opened (includeUsage : Bool) {exc : PyException}
    (hopen : openParser options = .error exc) :
    ChatFails (chatCompletionStream options includeUsage queue) := by
  obtain ⟨exc', hopen⟩ := openParser_error hopen .chatParserNotConfigured
  unfold chatCompletionStream
  rw [hopen]
  exact Or.inl ⟨exc', rfl⟩

theorem chatStream_of_raises (includeUsage : Bool) (hfinal : queue.final? = some final)
    (h : StreamRaises options final queue.tokens) :
    ChatFails (chatCompletionStream options includeUsage queue) := by
  cases hopen : openParser options with
  | error exc => exact chatStream_not_opened includeUsage hopen
  | ok parser =>
    cases hloop : chatStreamLoop queue { frames := [.role], stream := { parser } } with
    | ok u last =>
      obtain ⟨out, run, hcollect⟩ := collect_of_chatStreamLoop hfinal hloop
      exact absurd hcollect (h parser out run hopen)
    | error exc run => exact chatStream_of_exception includeUsage hopen hloop

/-- A queue that ends with an error ends in an error frame. -/
theorem chatStreamLoop_of_error {queue : Queue} (hfinal : queue.final? = none)
    {chat last : ChatRun P} (h : chatStreamLoop queue chat = .ok () last) :
    reportsError last.frames = true := by
  induction queue generalizing chat with
  | error message =>
    cases h
    exact reportsError_append_right rfl
  | final item => cases hfinal
  | token item rest ih =>
    unfold chatStreamLoop at h
    obtain ⟨first, middle, hfirst, h⟩ := exists_of_bind_ok h
    exact ih hfinal h

theorem chatStream_of_error (includeUsage : Bool) (hfinal : queue.final? = none) :
    ChatFails (chatCompletionStream options includeUsage queue) := by
  cases hopen : openParser options with
  | error exc => exact chatStream_not_opened includeUsage hopen
  | ok parser =>
    cases hloop : chatStreamLoop queue { frames := [.role], stream := { parser } } with
    | ok u last =>
      exact Or.inr ⟨_, chatStream_ok includeUsage hopen hloop,
        reportsError_append_left (chatStreamLoop_of_error hfinal hloop)⟩
    | error exc run => exact chatStream_of_exception includeUsage hopen hloop

end

/-! ## The parser's readings and the stream -/

section

variable {options : ParseOptions P} {tokenizer : Tokenizer P} {final : FinalItem}
  {tokens : List TokenItem}

theorem openParser_eq (hparse : options.shouldParse = true)
    (htokenizer : options.responseParser = some tokenizer) :
    openParser options = (stream tokenizer options.prompt options.parseTools).map some := by
  unfold openParser
  rw [if_pos hparse, htokenizer]

/-- An opened parser has the events of a run still to give. -/
theorem remainingEvents_opened {self : StreamParser P}
    (hstream : stream tokenizer options.prompt options.parseTools = .ok self) (fed : List Text) :
    remainingEvents self fed = eventRun tokenizer options.prompt fed ∧
      self.parseTools = options.parseTools ∧ self.toolIndex = 0 ∧ self.toolsCalled = false := by
  unfold stream at hstream
  cases hparser : tokenizer.getResponseParser options.prompt with
  | error exc =>
    rw [hparser] at hstream
    cases hstream
  | ok parser =>
    rw [hparser] at hstream
    cases hstream
    unfold remainingEvents eventRun
    rw [hparser]
    exact ⟨rfl, rfl, rfl, rfl⟩

theorem streamShows_of_run (hparse : options.shouldParse = true)
    (htokenizer : options.responseParser = some tokenizer) {events : List Event}
    (hrun : eventRun tokenizer options.prompt (feeds final 0 tokens) = .ok events)
    (hfits : ∀ event ∈ events, event.Fits options.parseTools) :
    StreamShows options final tokens (pieces options.parseTools events) := by
  have hopen := openParser_eq hparse htokenizer
  cases hstream : stream tokenizer options.prompt options.parseTools with
  | error exc =>
    unfold stream at hstream
    cases hparser : tokenizer.getResponseParser options.prompt with
    | error exc =>
      unfold eventRun at hrun
      rw [hparser] at hrun
      cases hrun
    | ok parser =>
      rw [hparser] at hstream
      cases hstream
  | ok self =>
    obtain ⟨hremaining, htools, hindex, hcalled⟩ :=
      remainingEvents_opened hstream (feeds final 0 tokens)
    rw [hstream] at hopen
    obtain ⟨run, last, hcollect, hlast, hshown⟩ := @collect_parsed P final tokens
      { parser := some self } self events rfl (hremaining.trans hrun) (htools ▸ hfits)
    rw [htools, hindex] at hcollect
    refine ⟨some self, run, hopen, hcollect, ?_⟩
    unfold StreamRun.toolsCalled
    rw [hlast]
    show last.toolsCalled = _
    rw [hshown, hcalled, htools, Bool.false_or]

theorem streamRaises_of_run (hparse : options.shouldParse = true)
    (htokenizer : options.responseParser = some tokenizer)
    (hrun : ∀ events, eventRun tokenizer options.prompt (feeds final 0 tokens) = .ok events →
      ¬ ∀ event ∈ events, event.Fits options.parseTools) :
    StreamRaises options final tokens := by
  intro parser out run hopen hcollect
  rw [openParser_eq hparse htokenizer] at hopen
  cases hstream : stream tokenizer options.prompt options.parseTools with
  | error exc =>
    rw [hstream] at hopen
    cases hopen
  | ok self =>
    rw [hstream] at hopen
    cases hopen
    obtain ⟨hremaining, htools, -, -⟩ := remainingEvents_opened hstream (feeds final 0 tokens)
    obtain ⟨events, hevents, hfits⟩ := fits_of_collect rfl hcollect
    exact hrun events (hremaining.symm.trans hevents) (htools ▸ hfits)

theorem streamShows_unparsed (final : FinalItem) (tokens : List TokenItem)
    (hparse : options.shouldParse = false) :
    StreamShows options final tokens (textPieces (visibleTexts final 0 tokens)) := by
  have hopen : openParser options = .ok none := by
    unfold openParser
    rw [hparse]
    rfl
  obtain ⟨run, hcollect, hnone⟩ := @collect_unparsed P final tokens { parser := none } rfl
  refine ⟨none, run, hopen, hcollect, ?_⟩
  unfold StreamRun.toolsCalled
  rw [hnone, calls_textPieces]
  rfl

theorem streamRaises_unconfigured (final : FinalItem) (tokens : List TokenItem)
    (hparse : options.shouldParse = true) (hnone : options.responseParser = none) : StreamRaises options final tokens := by
  intro parser out run hopen _
  unfold openParser at hopen
  rw [if_pos hparse, hnone] at hopen
  cases hopen

end

end SparseVllm.Serving
