import SparseVllm.Serving.StreamForm

/-!
# Which orders of deltas give a well-formed stream

Content and calls close the reasoning. Reasoning that comes back after that is written to the item
that is done, and a delta follows the item's `output_item.done`. No other order of deltas is a problem.

## Results

* `streaming_or_broken`: after any pieces the stream is in order, or reasoning has come back.
* **`answer_wellFormed_iff`**: the stream of an answer is well formed iff each call has a name and no
  reasoning comes back.
-/

namespace SparseVllm.Serving

open Lib

/-- Reasoning, something else, and reasoning again. -/
def ReasoningReturns (shown : List Piece) : Prop :=
  [true, false, true].Sublist (shown.map Piece.isReasoning)

instance (shown : List Piece) : Decidable (ReasoningReturns shown) :=
  inferInstanceAs (Decidable (List.Sublist _ _))

namespace Streamed

open ResponseStreamState

variable {s : Streamed} {text : Text} {function : FunctionCall}

/-! ## What each method does to the flags -/

/-- The reasoning was started, and was finished. -/
def reasoningFlags (state : ResponseStreamState) : Bool × Bool :=
  (state.reasoningIndex.isSome, state.reasoningDone)

theorem reasoningFlags_messageDelta (text : Text) (state : ResponseStreamState) :
    reasoningFlags (messageDelta text state) = reasoningFlags state := by
  unfold messageDelta ResponseStreamState.ensureMessage
  split
  · rfl
  · cases hindex : state.messageIndex <;> simp [hindex, reasoningFlags]

theorem reasoningFlags_reasoningDelta (htext : text ≠ []) (state : ResponseStreamState) :
    reasoningFlags (reasoningDelta text state) = (true, state.reasoningDone) := by
  have hempty : ¬ text.isEmpty = true := by simpa using htext
  unfold reasoningDelta ResponseStreamState.ensureReasoning
  rw [if_neg hempty]
  cases hindex : state.reasoningIndex <;> simp [hindex, reasoningFlags]

theorem reasoningFlags_finishReasoning (state : ResponseStreamState) :
    reasoningFlags (finishReasoning state) =
      (state.reasoningIndex.isSome, state.reasoningIndex.isSome || state.reasoningDone) := by
  unfold finishReasoning markReasoningDone ResponseStreamState.ensureReasoning
  cases hindex : state.reasoningIndex <;> cases hdone : state.reasoningDone <;>
    simp [hindex, hdone, reasoningFlags]

theorem reasoningFlags_piece (s : Streamed) {last : Piece} (hsolid : last.Solid) :
    reasoningFlags (s.piece last).state =
      if last.isReasoning then (true, s.state.reasoningDone)
      else (s.state.reasoningIndex.isSome, s.state.reasoningIndex.isSome || s.state.reasoningDone) := by
  cases last with
  | reasoning text => exact reasoningFlags_reasoningDelta hsolid s.state
  | content text =>
    exact (reasoningFlags_messageDelta text _).trans (reasoningFlags_finishReasoning s.state)
  | call function => exact reasoningFlags_finishReasoning s.state

theorem messageDone_reasoningDelta (text : Text) (state : ResponseStreamState) :
    (reasoningDelta text state).messageDone = state.messageDone := by
  unfold reasoningDelta ResponseStreamState.ensureReasoning
  split
  · rfl
  · cases hindex : state.reasoningIndex <;> simp [hindex]

theorem messageDone_messageDelta (text : Text) (state : ResponseStreamState) :
    (messageDelta text state).messageDone = state.messageDone := by
  unfold messageDelta ResponseStreamState.ensureMessage
  split
  · rfl
  · cases hindex : state.messageIndex <;> simp [hindex]

theorem messageDone_pieces (shown : List Piece) (s : Streamed) :
    (shown.foldl piece s).state.messageDone = s.state.messageDone := by
  induction shown generalizing s with
  | nil => rfl
  | cons first shown ih =>
    refine (ih _).trans ?_
    cases first with
    | reasoning text => exact messageDone_reasoningDelta text s.state
    | content text =>
      exact (messageDone_messageDelta text _).trans (Shows.finishReasoning_rest s.state).2.1
    | call function => exact (Shows.finishReasoning_rest s.state).2.1

/-- A pattern that ends in a kind is in a longer list iff it was, or its start was and the kind came. -/
theorem snoc_sublist_snoc {α : Type} (pattern l : List α) (a b : α) :
    (pattern ++ [a]).Sublist (l ++ [b]) ↔
      (pattern ++ [a]).Sublist l ∨ pattern.Sublist l ∧ a = b := by
  have hwhole : (pattern ++ [a]).Sublist (l ++ [b]) ↔
      (a :: pattern.reverse).Sublist (b :: l.reverse) := by
    rw [← List.reverse_sublist]
    simp
  have hold : (pattern ++ [a]).Sublist l ↔ (a :: pattern.reverse).Sublist l.reverse := by
    rw [← List.reverse_sublist]
    simp
  have hstart : pattern.Sublist l ↔ pattern.reverse.Sublist l.reverse := List.reverse_sublist.symm
  rw [hwhole, hold, hstart, and_comm]
  exact List.cons_sublist_cons'

/-- **The flags say which pieces came.** -/
theorem reasoningFlags_pieces {shown : List Piece} (hsolid : ∀ piece ∈ shown, piece.Solid) :
    ((shown.foldl piece {}).state.reasoningIndex.isSome = true ↔
        [true].Sublist (shown.map Piece.isReasoning)) ∧
      ((shown.foldl piece {}).state.reasoningDone = true ↔
        [true, false].Sublist (shown.map Piece.isReasoning)) := by
  induction shown using List.reverseRecOn with
  | nil => simp
  | append_singleton shown last ih =>
    rw [List.forall_mem_append, List.forall_mem_singleton] at hsolid
    obtain ⟨hindex, hdone⟩ := ih hsolid.1
    rw [List.foldl_append, List.map_append]
    have hstarted : [true].Sublist (shown.map Piece.isReasoning ++ [last.isReasoning]) ↔
        [true].Sublist (shown.map Piece.isReasoning) ∨
          [].Sublist (shown.map Piece.isReasoning) ∧ true = last.isReasoning :=
      snoc_sublist_snoc [] _ true _
    have hfinished : [true, false].Sublist (shown.map Piece.isReasoning ++ [last.isReasoning]) ↔
        [true, false].Sublist (shown.map Piece.isReasoning) ∨
          [true].Sublist (shown.map Piece.isReasoning) ∧ false = last.isReasoning :=
      snoc_sublist_snoc [true] _ false _
    have hstarts : ((shown.foldl piece {}).piece last).state.reasoningIndex.isSome = _ :=
      congrArg Prod.fst (reasoningFlags_piece _ hsolid.2)
    have hfinishes : ((shown.foldl piece {}).piece last).state.reasoningDone = _ :=
      congrArg Prod.snd (reasoningFlags_piece _ hsolid.2)
    rw [List.map_singleton, hstarted, hfinished, ← hindex, ← hdone, List.foldl_cons, List.foldl_nil,
      hstarts, hfinishes]
    cases last.isReasoning <;> simp [or_comm]

/-! ## One piece -/

namespace Streaming

/-- Content starts the message if it has to. -/
theorem send_messageDelta (htext : text ≠ []) (s : Streamed) :
    s.send (messageDelta text) (messageDeltaFrames text) =
      (s.send ResponseStreamState.ensureMessage ensureMessageFrames).send (messageDelta text)
        (messageDeltaFrames text) := by
  have hempty : ¬ text.isEmpty = true := by simpa using htext
  unfold send messageDelta messageDeltaFrames ensureMessageFrames ResponseStreamState.ensureMessage
  rw [if_neg hempty, if_neg hempty, if_neg hempty, if_neg hempty]
  cases hindex : s.state.messageIndex <;> simp [hindex]

theorem send_reasoningDelta (htext : text ≠ []) (s : Streamed) :
    s.send (reasoningDelta text) (reasoningDeltaFrames text) =
      (s.send ResponseStreamState.ensureReasoning ensureReasoningFrames).send (reasoningDelta text)
        (reasoningDeltaFrames text) := by
  have hempty : ¬ text.isEmpty = true := by simpa using htext
  unfold send reasoningDelta reasoningDeltaFrames ensureReasoningFrames
    ResponseStreamState.ensureReasoning
  rw [if_neg hempty, if_neg hempty, if_neg hempty, if_neg hempty]
  cases hindex : s.state.reasoningIndex <;> simp [hindex]

theorem ensureMessage_index (s : Streamed) :
    ∃ i, (s.send ResponseStreamState.ensureMessage ensureMessageFrames).state.messageIndex =
      some i := by
  unfold send ResponseStreamState.ensureMessage
  cases hindex : s.state.messageIndex with
  | none => exact ⟨_, rfl⟩
  | some i => exact ⟨i, hindex⟩

theorem ensureReasoning_index (s : Streamed) :
    ∃ i, (s.send ResponseStreamState.ensureReasoning ensureReasoningFrames).state.reasoningIndex =
      some i := by
  unfold send ResponseStreamState.ensureReasoning
  cases hindex : s.state.reasoningIndex with
  | none => exact ⟨_, rfl⟩
  | some i => exact ⟨i, hindex⟩

theorem ensureMessage_done (s : Streamed) :
    (s.send ResponseStreamState.ensureMessage ensureMessageFrames).state.messageDone =
      s.state.messageDone := by
  unfold send ResponseStreamState.ensureMessage
  cases hindex : s.state.messageIndex <;> rfl

theorem ensureReasoning_done (s : Streamed) :
    (s.send ResponseStreamState.ensureReasoning ensureReasoningFrames).state.reasoningDone =
      s.state.reasoningDone := by
  unfold send ResponseStreamState.ensureReasoning
  cases hindex : s.state.reasoningIndex <;> rfl

/-- **A piece keeps the stream in order, unless it is reasoning that comes back.** -/
theorem piece (h : Streaming s) (hmessage : s.state.messageDone = false) {piece : Piece}
    (hsolid : piece.Solid) (hreasoning : piece.isReasoning = true → s.state.reasoningDone = false) :
    Streaming (s.piece piece) := by
  cases piece with
  | reasoning text =>
    show Streaming (s.send (reasoningDelta text) (reasoningDeltaFrames text))
    rw [send_reasoningDelta hsolid]
    obtain ⟨i, hindex⟩ := ensureReasoning_index s
    exact h.ensureReasoning.growReasoning hindex
      ((ensureReasoning_done s).trans (hreasoning rfl)) hsolid
  | content text =>
    show Streaming ((s.send ResponseStreamState.finishReasoning finishReasoningFrames).send
      (messageDelta text) (messageDeltaFrames text))
    rw [send_messageDelta hsolid]
    obtain ⟨i, hindex⟩ :=
      ensureMessage_index (s.send ResponseStreamState.finishReasoning finishReasoningFrames)
    refine h.finishReasoning.ensureMessage.growMessage hindex ?_ hsolid
    rw [ensureMessage_done]
    exact (Shows.finishReasoning_rest s.state).2.1.trans hmessage
  | call function => exact h.finishReasoning.sendCall function

end Streaming

/-! ## Runs -/

/-- Something happened to an item that was done. -/
def Broken (events : List StreamEvent) : Prop :=
  ∃ before event after i, events = before ++ event :: after ∧ event.mark = .inside i ∧
    i ∈ Mark.closed (marks before)

theorem Broken.append {events : List StreamEvent} (h : Broken events) (more : List StreamEvent) :
    Broken (events ++ more) := by
  obtain ⟨before, event, after, i, rfl, hmark, hclosed⟩ := h
  exact ⟨before, event, after ++ more, i, by simp, hmark, hclosed⟩

theorem broken_at {events : List StreamEvent} {event : StreamEvent} {n i : Nat}
    (hevent : events[n]? = some event) (hmark : event.mark = .inside i)
    (hclosed : i ∈ Mark.closed (marks (events.take n))) : Broken events := by
  obtain ⟨hn, rfl⟩ := List.getElem?_eq_some_iff.mp hevent
  refine ⟨events.take n, events[n], events.drop (n + 1), i, ?_, hmark, hclosed⟩
  rw [← List.drop_eq_getElem_cons hn, List.take_append_drop]

/-- A stream in which something happened to a done item is not well formed. -/
theorem Broken.not_wellFormed {events : List StreamEvent} {output : List OutputItem}
    (h : Broken events) : ¬ WellFormed output events := by
  rintro hwell
  obtain ⟨before, event, after, i, hsplit, hmark, hclosed⟩ := h
  have hagain := (hwell.between before event after i hsplit hmark).2
  have hnodup := hwell.closedOnce.nodup_iff.mpr List.nodup_range
  have hmarks : marks events = marks before ++ (marks [event] ++ marks after) := by
    rw [hsplit, marks_append]
    rfl
  rw [hmarks, Mark.closed_append, Mark.closed_append] at hnodup
  exact (List.disjoint_of_nodup_append hnodup) hclosed (List.mem_append_right _ hagain)

theorem streaming_nil : Streaming {} := by
  refine ⟨Logged.nil, ?_, ?_, ?_, ?_, ?_, ?_, rfl⟩
  · nofun
  · exact fun _ => ⟨rfl, rfl⟩
  · nofun
  · exact fun _ => ⟨rfl, rfl⟩
  · nofun
  · nofun

theorem events_piece (s : Streamed) (p : Piece) : ∃ more, (s.piece p).events = s.events ++ more := by
  cases p with
  | reasoning text => exact ⟨_, rfl⟩
  | content text => exact ⟨_, List.append_assoc ..⟩
  | call function => exact ⟨_, List.append_assoc ..⟩

/-- Reasoning that comes back is written to an item that is done. -/
theorem Streaming.breaks (h : Streaming s) (hdone : s.state.reasoningDone = true)
    (htext : text ≠ []) : Broken (s.piece (.reasoning text)).events := by
  have hempty : ¬ text.isEmpty = true := by simpa using htext
  cases hindex : s.state.reasoningIndex with
  | none =>
    rw [(h.noReasoning hindex).2] at hdone
    cases hdone
  | some i =>
    refine ⟨s.events, .reasoningTextDelta i text, [], i, ?_, rfl, h.reasoningClosed i hindex hdone⟩
    show s.events ++ reasoningDeltaFrames text s.state = _
    unfold reasoningDeltaFrames ensureReasoningFrames ResponseStreamState.ensureReasoning
    simp [hempty, hindex]

/-- **After any pieces the stream is in order, or reasoning has come back.** -/
theorem streaming_or_broken {shown : List Piece} (hsolid : ∀ piece ∈ shown, piece.Solid) :
    ¬ ReasoningReturns shown ∧ Streaming (shown.foldl piece {}) ∨
      ReasoningReturns shown ∧ Broken (shown.foldl piece {}).events := by
  induction shown using List.reverseRecOn with
  | nil => exact Or.inl ⟨by decide, streaming_nil⟩
  | append_singleton shown last ih =>
    rw [List.forall_mem_append, List.forall_mem_singleton] at hsolid
    have hreturns : ReasoningReturns (shown ++ [last]) ↔
        ReasoningReturns shown ∨
          (shown.foldl piece {}).state.reasoningDone = true ∧ true = last.isReasoning := by
      unfold ReasoningReturns
      rw [List.map_append, (reasoningFlags_pieces hsolid.1).2]
      exact snoc_sublist_snoc [true, false] _ true _
    rw [hreturns, List.foldl_append, List.foldl_cons, List.foldl_nil]
    rcases ih hsolid.1 with ⟨hfirst, hstreaming⟩ | ⟨hfirst, hbroken⟩
    · by_cases hback : (shown.foldl piece {}).state.reasoningDone = true ∧ true = last.isReasoning
      · refine Or.inr ⟨Or.inr hback, ?_⟩
        cases last with
        | reasoning text => exact hstreaming.breaks hback.1 hsolid.2
        | content text => cases hback.2
        | call function => cases hback.2
      · refine Or.inl ⟨not_or.mpr ⟨hfirst, hback⟩, ?_⟩
        refine hstreaming.piece (messageDone_pieces shown {}) hsolid.2 fun hlast => ?_
        exact Bool.eq_false_iff.mpr fun hdone => hback ⟨hdone, hlast.symm⟩
    · obtain ⟨more, hmore⟩ := events_piece (shown.foldl piece {}) last
      rw [hmore]
      exact Or.inr ⟨Or.inl hfirst, hbroken.append more⟩

/-! ## The whole answer -/

/-- The message is done, if there is one. -/
def MessageSettled (state : ResponseStreamState) : Prop :=
  state.messageIndex = none ∨ state.messageDone = true

/-- The reasoning is done, if there is any. -/
def ReasoningSettled (state : ResponseStreamState) : Prop :=
  state.reasoningIndex = none ∨ state.reasoningDone = true

theorem messageSettled_finishMessage (state : ResponseStreamState) :
    MessageSettled (finishMessage state) := by
  unfold finishMessage
  cases hindex : state.messageIndex with
  | none => exact Or.inl hindex
  | some i =>
    cases hdone : state.messageDone with
    | false => exact Or.inr rfl
    | true => exact Or.inr hdone

theorem reasoningSettled_finishReasoning (state : ResponseStreamState) :
    ReasoningSettled (finishReasoning state) := by
  unfold finishReasoning
  split
  · rename_i hclosed
    rcases Bool.or_eq_true_iff.mp hclosed with hnone | hdone
    · exact Or.inl (Option.isNone_iff_eq_none.mp hnone)
    · exact Or.inr hdone
  · exact Or.inr rfl

theorem ReasoningSettled.finishMessage {state : ResponseStreamState} (h : ReasoningSettled state) :
    ReasoningSettled state.finishMessage := by
  unfold ResponseStreamState.finishMessage
  split <;> exact h

theorem ReasoningSettled.ensureMessage {state : ResponseStreamState} (h : ReasoningSettled state) :
    ReasoningSettled state.ensureMessage := by
  unfold ResponseStreamState.ensureMessage
  split <;> exact h

theorem MessageSettled.finishReasoning {state : ResponseStreamState} (h : MessageSettled state) :
    MessageSettled state.finishReasoning := by
  obtain ⟨hindex, hdone, -, -⟩ := Shows.finishReasoning_rest state
  unfold MessageSettled
  rw [hindex, hdone]
  exact h

/-- When the message and the reasoning are done, everything is closed. -/
theorem Streaming.wellFormed (h : Streaming s) (hmessage : MessageSettled s.state)
    (hreasoning : ReasoningSettled s.state) : WellFormed s.state.output s.events := by
  refine h.logged.wellFormed fun i hi => ?_
  by_contra hopen
  rcases h.others i hi hopen with ⟨hindex, hdone⟩ | ⟨hindex, hdone⟩
  · rcases hmessage with hnone | hdone'
    · rw [hindex] at hnone
      cases hnone
    · rw [hdone] at hdone'
      cases hdone'
  · rcases hreasoning with hnone | hdone'
    · rw [hindex] at hnone
      cases hnone
    · rw [hdone] at hdone'
      cases hdone'

/-- What is sent for the items that are open. -/
def finishOpen (s : Streamed) : Streamed :=
  (s.send finishMessage finishMessageFrames).send finishReasoning finishReasoningFrames

/-- The stream after `finish_open_items`, when no call is open. -/
def finished (s : Streamed) : Streamed :=
  if (finishOpen s).state.output = [] then
    ((finishOpen s).send ensureMessage ensureMessageFrames).send finishMessage finishMessageFrames
  else finishOpen s

theorem finishOpenItems_eq (h : s.state.functionIndex = none) :
    finishOpenItems s = .ok () (finished s) := by
  have hmessage : (s.send finishMessage finishMessageFrames).state.functionIndex = none := by
    show (finishMessage s.state).functionIndex = none
    unfold finishMessage
    split <;> exact h
  have hnone : (finishOpen s).state.functionIndex = none :=
    send_finishReasoning_noFunction hmessage
  unfold finishOpenItems finished
  rw [bind_ok (emit_modify ..), bind_ok (emit_modify ..), get_bind]
  show (if (finishOpen s).state.functionIndex.isSome then _ else _ :
    EStateM PyException Streamed Unit) (finishOpen s) = _
  rw [hnone]
  show (if (finishOpen s).state.output.isEmpty then _ else _ :
    EStateM PyException Streamed Unit) (finishOpen s) = _
  by_cases hempty : (finishOpen s).state.output = []
  · rw [if_pos (List.isEmpty_iff.mpr hempty), if_pos hempty]
    rfl
  · rw [if_neg (fun hnil => hempty (List.isEmpty_iff.mp hnil)), if_neg hempty]
    rfl

/-- Finishing the open items takes nothing back. -/
theorem events_finished (s : Streamed) : ∃ more, (finished s).events = s.events ++ more := by
  unfold finished
  split
  · exact ⟨_, by simp only [finishOpen, send, List.append_assoc]; rfl⟩
  · exact ⟨_, List.append_assoc ..⟩

/-- A stream in order ends well formed. -/
theorem Streaming.finished (h : Streaming s) :
    WellFormed (finished s).state.output (finished s).events := by
  have hopen : Streaming (finishOpen s) := h.finishMessage.finishReasoning
  have hmessage : MessageSettled (finishOpen s).state :=
    (messageSettled_finishMessage s.state).finishReasoning
  have hreasoning : ReasoningSettled (finishOpen s).state :=
    reasoningSettled_finishReasoning _
  unfold Streamed.finished
  split
  · exact hopen.ensureMessage.finishMessage.wellFormed (messageSettled_finishMessage _)
      hreasoning.ensureMessage.finishMessage
  · exact hopen.wellFormed hmessage hreasoning

theorem solid_piecesOf {d : Delta} (h : Named d) : ∀ piece ∈ piecesOf d, piece.Solid := by
  have hfield : ∀ (text : Option Text), ∀ part ∈ fieldText text, part ≠ [] := by
    intro text part hpart
    unfold fieldText at hpart
    split at hpart
    · split at hpart
      · cases hpart
      · rename_i hempty
        rw [List.mem_singleton.mp hpart]
        simpa using hempty
    · cases hpart
  unfold piecesOf
  simp only [List.forall_mem_append, List.forall_mem_map]
  exact ⟨⟨fun part hpart => hfield _ part hpart, fun part hpart => hfield _ part hpart⟩, h⟩

/-- **The stream of an answer is well formed iff each call has a name and no reasoning comes back.** -/
theorem answer_wellFormed_iff (deltas : List Delta) :
    (∃ s, answer deltas {} = .ok () s ∧ WellFormed s.state.output s.events) ↔
      (∀ d ∈ deltas, Named d) ∧ ¬ ReasoningReturns (deltas.flatMap piecesOf) := by
  by_cases hnamed : ∀ d ∈ deltas, Named d
  · have hnone : ((deltas.flatMap piecesOf).foldl piece {}).state.functionIndex = none :=
      noFunction_pieces rfl _
    have hrun : answer deltas {} =
        .ok () (finished ((deltas.flatMap piecesOf).foldl piece {})) := by
      unfold answer
      rw [bind_ok (responseStreamDeltas_ok rfl hnamed), finishOpenItems_eq hnone]
    have hsolid : ∀ piece ∈ deltas.flatMap piecesOf, piece.Solid := by
      simp only [List.mem_flatMap]
      rintro piece ⟨d, hd, hpiece⟩
      exact solid_piecesOf (hnamed d hd) piece hpiece
    rw [hrun]
    rcases streaming_or_broken hsolid with ⟨hreturns, hstreaming⟩ | ⟨hreturns, hbroken⟩
    · exact iff_of_true ⟨_, rfl, hstreaming.finished⟩ ⟨hnamed, hreturns⟩
    · refine iff_of_false ?_ fun h => h.2 hreturns
      rintro ⟨s, hs, hwell⟩
      cases hs
      obtain ⟨more, hmore⟩ := events_finished ((deltas.flatMap piecesOf).foldl piece {})
      rw [hmore] at hwell
      exact (hbroken.append more).not_wellFormed hwell
  · obtain ⟨e, t, herror⟩ := responseStreamDeltas_error (s := {}) rfl hnamed
    refine iff_of_false ?_ fun h => hnamed h.1
    rintro ⟨s, hs, -⟩
    unfold answer at hs
    rw [bind_error herror] at hs
    cases hs

/-- Reasoning, content and reasoning again: the last text follows the end of its item. -/
theorem returning_reasoning_broken : ¬ ∃ s,
    answer [{ reasoningContent := some ['a'] }, { content := some ['b'] },
      { reasoningContent := some ['c'] }] {} = .ok () s ∧
    WellFormed s.state.output s.events := by
  rintro ⟨s, hs, hwell⟩
  have hshown : s = finished
      ([.reasoning ['a'], .content ['b'], .reasoning ['c']].foldl piece {}) := by
    cases hs
    rfl
  subst hshown
  have hlate : (finished
      ([.reasoning ['a'], .content ['b'], .reasoning ['c']].foldl piece {})).events[9]? =
      some (.reasoningTextDelta 0 ['c']) := by decide
  exact (broken_at hlate rfl (by decide)).not_wellFormed hwell

end Streamed

end SparseVllm.Serving
