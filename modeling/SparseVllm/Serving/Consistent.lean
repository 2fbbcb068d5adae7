import SparseVllm.Serving.Output

/-!
# The parser's two readings of a text

The non-streaming path reads the message the parser makes of the whole text, the streaming path the
events of the parser over the feeds. `Consistent` says that the two readings agree; then an accepted
message is what its events show.

Headlines:
* **`answer_shown`**: reasoning, content and tool calls of the answer are those of the events.
* **`fits_of_acceptable`**: the events of an accepted message all fit.
-/

namespace SparseVllm.Serving

open Lib

variable {P : Type}

/-! ## The parser's two readings -/

/-- The clean text of a field. -/
def chunkText (field : String) (events : List Event) : Text :=
  ((events.filter fun event => event.isClean && event.field = field).map Event.text).flatten

/-- The values of the tool calls the events close. -/
def closedCalls (events : List Event) : List Value :=
  (events.filter Event.closesCall).map Event.value

/-- The fields whose text the adapter reads. -/
def textFields : List String := "content" :: reasoningKeys

/-- **The parser is consistent**: over any feeds of a text it raises iff it raises on the whole text;
the clean chunks of each text field concatenate to the field's text, the closed tool calls are the
message's tool calls in order, and only documented events come. -/
structure Consistent (tokenizer : Tokenizer P) (prompt : Text) : Prop where
  raises : ∀ feeds, (∃ exc, eventRun tokenizer prompt feeds = .error exc) ↔
    ∃ exc, tokenizer.parseResponse prompt feeds.flatten = .error exc
  chunks : ∀ feeds events items, eventRun tokenizer prompt feeds = .ok events →
    tokenizer.parseResponse prompt feeds.flatten = .ok (.dict items) →
    ∀ field ∈ textFields, chunkText field events = (Value.field (.dict items) field .none).text
  calls : ∀ feeds events items called, eventRun tokenizer prompt feeds = .ok events →
    tokenizer.parseResponse prompt feeds.flatten = .ok (.dict items) →
    Value.toolCalls (.dict items) = .list called → closedCalls events = called
  documented : ∀ feeds events, eventRun tokenizer prompt feeds = .ok events →
    ∀ event ∈ events, event.Documented

/-! ## What the events of an accepted message show -/

theorem text_ne_nil_of_isClean {event : Event} (h : event.isClean = true) : event.text ≠ [] := by
  unfold Event.isClean at h
  split at h
  · simpa using (Bool.and_eq_true_iff.mp h).2
  · cases h

theorem solid_pieces {parseTools : Bool} {events : List Event} :
    ∀ piece ∈ pieces parseTools events, piece.Solid := by
  intro piece hpiece
  obtain ⟨event, -, hshown⟩ := List.mem_filterMap.mp hpiece
  unfold Event.piece at hshown
  split at hshown
  · rename_i hclean
    have htext := text_ne_nil_of_isClean hclean
    split at hshown
    · cases hshown
      exact htext
    · split at hshown
      · cases hshown
        exact htext
      · cases hshown
  · split at hshown
    · split at hshown
      · rename_i function hfunction
        cases hshown
        exact name_ne_nil hfunction
      · cases hshown
    · cases hshown

theorem not_closesCall_of_isClean {event : Event} (h : event.isClean = true) :
    event.closesCall = false := by
  unfold Event.isClean at h
  unfold Event.closesCall
  split at h
  · rename_i htype
    rw [htype]
  · cases h

/-- What one event shows, kind by kind. -/
theorem piece_kinds (parseTools : Bool) (event : Event) :
    reasoningOf (event.piece parseTools).toList =
        (if event.isClean && isReasoningField event.field then event.text else []) ∧
      contentOf (event.piece parseTools).toList =
        if event.isClean && event.field = "content" then event.text else [] := by
  unfold Event.piece
  cases hclean : event.isClean with
  | false =>
    simp only [Bool.false_eq_true, if_false, Bool.false_and]
    split
    · split <;> exact ⟨rfl, rfl⟩
    · exact ⟨rfl, rfl⟩
  | true =>
    cases hfield : isReasoningField event.field with
    | true =>
      have hcontent : event.field ≠ "content" := by
        intro h
        rw [h] at hfield
        revert hfield
        decide
      simp [hcontent, reasoningOf, contentOf]
    | false =>
      by_cases hcontent : event.field = "content"
      · simp [hcontent, reasoningOf, contentOf]
      · simp [hcontent, reasoningOf, contentOf]

/-- The clean text of the fields `p` selects. -/
def cleanText (p : String → Bool) (events : List Event) : Text :=
  ((events.filter fun event => event.isClean && p event.field).map Event.text).flatten

theorem cleanText_cons (p : String → Bool) (event : Event) (events : List Event) :
    cleanText p (event :: events) =
      (if event.isClean && p event.field then event.text else []) ++ cleanText p events := by
  unfold cleanText
  rw [List.filter_cons]
  split <;> rfl

theorem reasoningOf_pieces (parseTools : Bool) (events : List Event) :
    reasoningOf (pieces parseTools events) = cleanText isReasoningField events := by
  induction events with
  | nil => rfl
  | cons event events ih =>
    rw [pieces_cons, reasoningOf_append, (piece_kinds parseTools event).1, ih, cleanText_cons]

theorem contentOf_pieces (parseTools : Bool) (events : List Event) :
    contentOf (pieces parseTools events) = chunkText "content" events := by
  show _ = cleanText (fun field => decide (field = "content")) events
  induction events with
  | nil => rfl
  | cons event events ih =>
    rw [pieces_cons, contentOf_append, (piece_kinds parseTools event).2, ih, cleanText_cons]

/-- A field whose clean text is empty has no clean chunk. -/
theorem field_ne_of_chunkText {field : String} {events : List Event}
    (h : chunkText field events = []) {event : Event} (hevent : event ∈ events)
    (hclean : event.isClean = true) : event.field ≠ field := by
  intro hfield
  refine text_ne_nil_of_isClean hclean (List.flatten_eq_nil_iff.mp h event.text ?_)
  refine List.mem_map.mpr ⟨event, List.mem_filter.mpr ⟨hevent, ?_⟩, rfl⟩
  rw [hclean, hfield]
  simp

/-- The reasoning is that of its one field, when the others show nothing. -/
theorem cleanText_reasoning {events : List Event} {key : String} (hkey : key ∈ reasoningKeys)
    (hothers : ∀ other ∈ reasoningKeys, other ≠ key → chunkText other events = []) :
    cleanText isReasoningField events = chunkText key events := by
  have hfilter : (events.filter fun event => event.isClean && isReasoningField event.field) =
      events.filter fun event => event.isClean && event.field = key := by
    refine List.filter_congr fun event hevent => ?_
    cases hclean : event.isClean with
    | false => rfl
    | true =>
      by_cases hown : event.field = key
      · simp [hown, isReasoningField, hkey]
      · have hnot : event.field ∉ reasoningKeys := fun hmem =>
          field_ne_of_chunkText (hothers event.field hmem hown) hevent hclean rfl
        simp [hown, isReasoningField, hnot]
  unfold cleanText chunkText
  rw [hfilter]

/-- Nothing is shown of the reasoning when no field shows anything. -/
theorem cleanText_reasoning_nil {events : List Event}
    (hall : ∀ key ∈ reasoningKeys, chunkText key events = []) :
    cleanText isReasoningField events = [] := by
  have hfirst : "thinking" ∈ reasoningKeys := by decide
  rw [cleanText_reasoning hfirst fun other hother _ => hall other hother]
  exact hall "thinking" hfirst

theorem calls_pieces {events : List Event} (hfits : ∀ event ∈ events, event.Fits true) :
    normalizeToolCalls (closedCalls events) = .ok (calls (pieces true events)) := by
  induction events with
  | nil => rfl
  | cons event events ih =>
    obtain ⟨hevent, hevents⟩ := List.forall_mem_cons.mp hfits
    have ih := ih hevents
    rw [pieces_cons, calls_append]
    unfold closedCalls at ih ⊢
    rw [List.filter_cons]
    cases hcloses : event.closesCall with
    | true =>
      have hdirty : event.isClean = false :=
        Bool.eq_false_iff.mpr fun hclean => by
          rw [not_closesCall_of_isClean hclean] at hcloses
          cases hcloses
      obtain ⟨function, hfunction⟩ := (normalizeToolCall_ok_iff _).mpr (hevent.2 hcloses rfl)
      have hpiece : event.piece true = some (.call function) := by
        unfold Event.piece
        simp [hdirty, hcloses, hfunction]
      rw [hpiece, if_pos rfl, List.map_cons, normalizeToolCalls, hfunction, ih]
      rfl
    | false =>
      have hpiece : calls (event.piece true).toList = [] := by
        unfold Event.piece
        rw [hcloses]
        split
        · split
          · rfl
          · split <;> rfl
        · rfl
      rw [hpiece, if_neg Bool.false_ne_true, List.nil_append]
      exact ih

theorem calls_pieces_off (events : List Event) : calls (pieces false events) = [] := by
  induction events with
  | nil => rfl
  | cons event events ih =>
    rw [pieces_cons, calls_append, ih, List.append_nil]
    unfold Event.piece
    rw [Bool.and_false]
    split
    · split
      · rfl
      · split <;> rfl
    · rfl

/-! ## An accepted message against its events -/

theorem text_eq_nil_of_isBlank {value : Value} (h : value.isBlank = true) : value.text = [] := by
  cases value with
  | str text => exact List.isEmpty_iff.mp h
  | _ => rfl

theorem mem_of_lookup {key : String} {items : List (String × Value)} {value : Value}
    (h : items.lookup key = some value) : (key, value) ∈ items := by
  induction items with
  | nil => cases h
  | cons item items ih =>
    rw [List.lookup_cons] at h
    split at h
    · rename_i hkey
      obtain rfl : key = item.1 := by simpa using hkey
      obtain rfl : item.2 = value := Option.some.inj h
      exact List.mem_cons_self
    · exact List.mem_cons_of_mem item (ih h)

theorem text_field_none {parsed : Value} {key : String} (h : parsed.entries.lookup key = none) :
    (parsed.field key .none).text = [] := by
  unfold Value.field
  rw [h]
  rfl

section

variable {parseTools : Bool} {parsed : Value} {events : List Event}

theorem reasoning_text (h : Acceptable parseTools parsed)
    (hchunks : ∀ field ∈ textFields, chunkText field events = (parsed.field field .none).text) :
    cleanText isReasoningField events = parsed.reasoning.text := by
  have hmem : ∀ key ∈ reasoningKeys, key ∈ textFields := fun key hkey =>
    List.mem_cons_of_mem "content" hkey
  unfold Value.reasoning
  cases hkey : parsed.reasoningKey? with
  | none =>
    refine cleanText_reasoning_nil fun key hin => ?_
    rw [hchunks key (hmem key hin)]
    have hnone := List.find?_eq_none.mp hkey key hin
    exact text_field_none (Option.not_isSome_iff_eq_none.mp hnone)
  | some key =>
    have hin : key ∈ reasoningKeys := List.mem_of_find?_eq_some hkey
    rw [cleanText_reasoning hin fun other hother hne => ?_]
    · exact hchunks key (hmem key hin)
    · rw [hchunks other (hmem other hother)]
      cases hlookup : parsed.entries.lookup other with
      | none => exact text_field_none hlookup
      | some value =>
        have hrole : ∀ name, name ∉ reasoningKeys → other ≠ name := by
          rintro name hname rfl
          exact hname hother
        have hblank := h.others (other, value) (mem_of_lookup hlookup) (hrole "role" (by decide))
          (hrole "content" (by decide)) (hrole "tool_calls" (by decide))
          (by rw [hkey]; exact fun heq => hne (Option.some.inj heq).symm)
        unfold Value.field
        rw [hlookup]
        exact text_eq_nil_of_isBlank hblank

theorem content_text {text : Text} (h : parsed.content = .str text)
    (hchunks : ∀ field ∈ textFields, chunkText field events = (parsed.field field .none).text) :
    chunkText "content" events = text := by
  rw [hchunks "content" List.mem_cons_self]
  unfold Value.content Value.field at h
  unfold Value.field
  cases hlookup : parsed.entries.lookup "content" with
  | none =>
    rw [hlookup] at h
    cases h
    rfl
  | some value =>
    rw [hlookup] at h
    obtain rfl : value = .str text := h
    rfl

/-- Every event of an accepted message fits. -/
theorem fits_of_acceptable (h : Acceptable parseTools parsed)
    (hcalls : ∀ called, parsed.toolCalls = .list called → closedCalls events = called)
    (hdocumented : ∀ event ∈ events, event.Documented) :
    ∀ event ∈ events, event.Fits parseTools := by
  intro event hevent
  refine ⟨hdocumented event hevent, fun hcloses _ => ?_⟩
  obtain ⟨called, hcalled, -, hwell⟩ := h.toolCalls
  refine hwell event.value ?_
  rw [← hcalls called hcalled]
  exact List.mem_map.mpr ⟨event, List.mem_filter.mpr ⟨hevent, hcloses⟩, rfl⟩

/-- The answer of an accepted message is what its events show. -/
theorem answer_shown {answer : ParsedModelResponse}
    (h : normalizeParsedMessage parseTools parsed = .ok answer)
    (hchunks : ∀ field ∈ textFields, chunkText field events = (parsed.field field .none).text)
    (hcalls : ∀ called, parsed.toolCalls = .list called → closedCalls events = called)
    (hdocumented : ∀ event ∈ events, event.Documented) :
    reasoningOf (pieces parseTools events) = answer.reasoningContent.getD [] ∧
      contentOf (pieces parseTools events) = answer.content ∧
      calls (pieces parseTools events) = answer.toolCalls := by
  have hacceptable := (normalizeParsedMessage_ok_iff parseTools parsed).mp ⟨answer, h⟩
  have hfits := fits_of_acceptable hacceptable hcalls hdocumented
  obtain ⟨-, htools, -, hreasoning, hcontent, called, hcalled, hfunctions⟩ :=
    (normalizeParsedMessage_eq_ok_iff hacceptable.isMessage answer).mp h
  refine ⟨?_, ?_, ?_⟩
  · rw [reasoningOf_pieces, reasoning_text hacceptable hchunks, hreasoning]
    cases answer.reasoningContent <;> rfl
  · rw [contentOf_pieces]
    exact content_text hcontent hchunks
  · cases parseTools with
    | true =>
      have hall := calls_pieces hfits
      rw [hcalls called hcalled, hfunctions] at hall
      exact (Except.ok.inj hall).symm
    | false =>
      obtain ⟨called', hcalled', hoff, -⟩ := hacceptable.toolCalls
      obtain rfl : called = called' := by
        rw [hcalled] at hcalled'
        exact Value.list.inj hcalled'
      rw [hoff rfl] at hfunctions
      rw [calls_pieces_off]
      exact Except.ok.inj hfunctions

end

end SparseVllm.Serving
