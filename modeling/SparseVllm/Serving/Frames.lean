import SparseVllm.Lib.Lifecycle
import SparseVllm.Serving.Shown

/-!
# The events of a Responses stream

Every method of `_ResponseStreamState` returns the frames to send. `Streamed` is a stream state with
the events sent so far, and `emit` runs a method on it. An event shows the item as it is when the
event is made. Events carry output indices instead of ids, and only index 0 of an item's parts. The
frames of a call that raises are not sent.

## Results

* `projects_responseStreamDeltas`: the events do not change what the state does.
* `responseStreamDeltas_ok`: a run over the deltas is a fold over the pieces they show.
-/

namespace SparseVllm.Serving

open Lib

/-! ## Events -/

/-- `response_events`; `output_item` events carry an item, the others belong to one. -/
inductive StreamEvent where
  | outputItemAdded (index : Nat) (item : OutputItem)
  | outputItemDone (index : Nat) (item : OutputItem)
  | contentPartAdded (index : Nat) (part : Text)
  | contentPartDone (index : Nat) (part : Text)
  | reasoningPartAdded (index : Nat) (part : Text)
  | reasoningPartDone (index : Nat) (part : Text)
  | outputTextDelta (index : Nat) (delta : Text)
  | outputTextDone (index : Nat) (text : Text)
  | reasoningTextDelta (index : Nat) (delta : Text)
  | reasoningTextDone (index : Nat) (text : Text)
  | functionCallArgumentsDelta (index : Nat) (delta : Text)
  | functionCallArgumentsDone (index : Nat) (arguments : Text)
  deriving DecidableEq

/-- The text of an item, or its arguments. -/
def OutputItem.text : OutputItem → Text
  | reasoning text => text
  | functionCall _ arguments _ => arguments
  | message parts _ => parts.flatten

namespace StreamEvent

/-- What an event does to its item. -/
def mark : StreamEvent → Mark
  | outputItemAdded index _ => .opens index
  | outputItemDone index _ => .closes index
  | contentPartAdded index _ => .inside index
  | contentPartDone index _ => .inside index
  | reasoningPartAdded index _ => .inside index
  | reasoningPartDone index _ => .inside index
  | outputTextDelta index _ => .inside index
  | outputTextDone index _ => .inside index
  | reasoningTextDelta index _ => .inside index
  | reasoningTextDone index _ => .inside index
  | functionCallArgumentsDelta index _ => .inside index
  | functionCallArgumentsDone index _ => .inside index

/-- What a delta event adds to an item. -/
def delta? : StreamEvent → Option (Nat × Text)
  | outputTextDelta index delta => some (index, delta)
  | reasoningTextDelta index delta => some (index, delta)
  | functionCallArgumentsDelta index delta => some (index, delta)
  | _ => none

/-- The whole text a done event gives for an item. -/
def doneText? : StreamEvent → Option (Nat × Text)
  | outputItemDone index item => some (index, item.text)
  | contentPartDone index part => some (index, part)
  | reasoningPartDone index part => some (index, part)
  | outputTextDone index text => some (index, text)
  | reasoningTextDone index text => some (index, text)
  | functionCallArgumentsDone index arguments => some (index, arguments)
  | _ => none

end StreamEvent

/-- The deltas of an item, joined. -/
def deltaText (index : Nat) (events : List StreamEvent) : Text :=
  (events.filterMap fun event =>
    event.delta?.bind fun p => if p.1 = index then some p.2 else none).flatten

/-! ## The methods -/

namespace ResponseStreamState

/-- The frames of `_ensure_message`. -/
def ensureMessageFrames (self : ResponseStreamState) : List StreamEvent :=
  match self.messageIndex with
  | some _ => []
  | none =>
    [.outputItemAdded self.output.length (.message [] .inProgress),
      .contentPartAdded self.output.length []]

/-- The frames of `message_delta`. -/
def messageDeltaFrames (text : Text) (self : ResponseStreamState) : List StreamEvent :=
  if text.isEmpty then []
  else
    let frames := self.ensureMessageFrames
    match self.ensureMessage.messageIndex with
    | some index => frames ++ [.outputTextDelta index text]
    | none => frames

/-- The frames of `_ensure_reasoning`. -/
def ensureReasoningFrames (self : ResponseStreamState) : List StreamEvent :=
  match self.reasoningIndex with
  | some _ => []
  | none =>
    [.outputItemAdded self.output.length (.reasoning []),
      .reasoningPartAdded self.output.length []]

/-- The frames of `reasoning_delta`. -/
def reasoningDeltaFrames (text : Text) (self : ResponseStreamState) : List StreamEvent :=
  if text.isEmpty then []
  else
    let frames := self.ensureReasoningFrames
    match self.ensureReasoning.reasoningIndex with
    | some index => frames ++ [.reasoningTextDelta index text]
    | none => frames

/-- The frames of `reasoning_done`. -/
def markReasoningDoneFrames (self : ResponseStreamState) : List StreamEvent :=
  let frames := self.ensureReasoningFrames
  let self := self.ensureReasoning
  if self.reasoningDone then frames
  else
    match self.reasoningIndex with
    | some index =>
      frames ++ [.reasoningTextDone index self.reasoningText,
        .reasoningPartDone index self.reasoningText] ++
        (self.output[index]?.toList.map fun item => .outputItemDone index item)
    | none => frames

/-- The frames of `finish_reasoning`. -/
def finishReasoningFrames (self : ResponseStreamState) : List StreamEvent :=
  if self.reasoningIndex.isNone || self.reasoningDone then [] else self.markReasoningDoneFrames

/-- The frames of `function_call_started`. -/
def functionCallStartedFrames (name : Text) (self : ResponseStreamState) : List StreamEvent :=
  [.outputItemAdded self.output.length (.functionCall name [] .inProgress)]

/-- The frames of `function_call_arguments_delta`. -/
def functionCallArgumentsDeltaFrames (argumentsDelta : Text) (self : ResponseStreamState) :
    List StreamEvent :=
  match self.functionIndex with
  | some index =>
    if argumentsDelta.isEmpty then [] else [.functionCallArgumentsDelta index argumentsDelta]
  | none => []

/-- The frames of `function_call_done`; the item is complete when it is sent. -/
def functionCallDoneFrames (self : ResponseStreamState) : List StreamEvent :=
  match self.functionIndex with
  | some index =>
    .functionCallArgumentsDone index self.functionArguments ::
      (self.output[index]?.toList.map fun item => .outputItemDone index (complete item))
  | none => []

/-- `item["content"][0]`. -/
def firstPart : OutputItem → Text
  | .message (part :: _) _ => part
  | _ => []

/-- The frames of `_finish_message`. -/
def finishMessageFrames (self : ResponseStreamState) : List StreamEvent :=
  match self.messageIndex, self.messageDone with
  | some index, false =>
    .outputTextDone index self.messageText ::
      (self.output[index]?.toList.flatMap fun item =>
        [.contentPartDone index (firstPart item), .outputItemDone index (complete item)])
  | _, _ => []

end ResponseStreamState

/-- A stream state and the events sent. -/
structure Streamed where
  state : ResponseStreamState := {}
  events : List StreamEvent := []

namespace Streamed

open ResponseStreamState

/-- `frames.extend(method())`: run a method of the state, and send its frames. -/
def emit (m : EStateM PyException ResponseStreamState Unit)
    (frames : ResponseStreamState → List StreamEvent) : EStateM PyException Streamed Unit := do
  let before ← get
  zoom Streamed.state (fun state s => { s with state }) id m
  modify fun s => { s with events := s.events ++ frames before.state }

/-- The body of the loop over the tool calls of a delta. -/
def toolCall (toolCall : ToolCallDelta) : EStateM PyException Streamed Unit := do
  emit (modify finishReasoning) finishReasoningFrames
  emit (functionCallStarted toolCall.function.name)
    (functionCallStartedFrames toolCall.function.name)
  emit (functionCallArgumentsDelta toolCall.function.arguments)
    (functionCallArgumentsDeltaFrames toolCall.function.arguments)
  emit functionCallDone functionCallDoneFrames

/-- `if reasoning := delta.get("reasoning_content")`; an empty text sends nothing either way. -/
def reasoning : Option Text → EStateM PyException Streamed Unit
  | some text => emit (modify (reasoningDelta text)) (reasoningDeltaFrames text)
  | none => pure ()

/-- `if content := delta.get("content")`. -/
def content : Option Text → EStateM PyException Streamed Unit
  | some text =>
    if text.isEmpty then pure ()
    else do
      emit (modify finishReasoning) finishReasoningFrames
      emit (modify (messageDelta text)) (messageDeltaFrames text)
  | none => pure ()

/-- The body of the loop of `_response_stream_deltas`. -/
def delta (delta : Delta) : EStateM PyException Streamed Unit := do
  reasoning delta.reasoningContent
  content delta.content
  forEach delta.toolCalls toolCall

/-- `_response_stream_deltas`, with these deltas in one or more calls. -/
def responseStreamDeltas (deltas : List Delta) : EStateM PyException Streamed Unit :=
  forEach deltas delta

/-- `finish_open_items`. -/
def finishOpenItems : EStateM PyException Streamed Unit := do
  emit (modify finishMessage) finishMessageFrames
  emit (modify finishReasoning) finishReasoningFrames
  let s ← get
  if s.state.functionIndex.isSome then emit functionCallDone functionCallDoneFrames
  let s ← get
  if s.state.output.isEmpty then do
    emit (modify ensureMessage) ensureMessageFrames
    emit (modify finishMessage) finishMessageFrames

/-- The deltas of an answer, then its open items. -/
def answer (deltas : List Delta) : EStateM PyException Streamed Unit := do
  responseStreamDeltas deltas
  finishOpenItems

/-! ## The state -/

/-- A program on the stream does to the state what another does. -/
def Projects (M : EStateM PyException Streamed Unit)
    (m : EStateM PyException ResponseStreamState Unit) : Prop :=
  ∀ s, match M s with
    | .ok _ t => m s.state = .ok () t.state
    | .error e t => m s.state = .error e t.state

variable {M N : EStateM PyException Streamed Unit}
  {m n : EStateM PyException ResponseStreamState Unit}

theorem projects_emit (m : EStateM PyException ResponseStreamState Unit)
    (frames : ResponseStreamState → List StreamEvent) : Projects (emit m frames) m := by
  intro s
  unfold emit
  rw [get_bind]
  cases hm : m s.state with
  | ok a state =>
    rw [bind_ok (zoom_ok hm)]
    rfl
  | error e state =>
    rw [bind_error (zoom_error hm)]
    rfl

theorem Projects.pure : Projects (pure ()) (pure ()) := fun _ => rfl

theorem Projects.bind (hM : Projects M m) (hN : Projects N n) :
    Projects (do M; N) (do m; n) := by
  intro s
  have hfirst := hM s
  cases hrun : M s with
  | ok a t =>
    rw [hrun] at hfirst
    rw [bind_ok hrun, bind_ok hfirst]
    exact hN t
  | error e t =>
    rw [hrun] at hfirst
    rw [bind_error hrun]
    exact bind_error hfirst

theorem Projects.forEach {α : Type} {body : α → EStateM PyException Streamed Unit}
    {body' : α → EStateM PyException ResponseStreamState Unit}
    (h : ∀ a, Projects (body a) (body' a)) (l : List α) :
    Projects (Lib.forEach l body) (Lib.forEach l body') := by
  induction l with
  | nil => exact Projects.pure
  | cons a l ih => exact (h a).bind ih

theorem projects_delta (d : Delta) : Projects (delta d) (responseStreamDelta d) := by
  have hcalls : Projects (Lib.forEach d.toolCalls toolCall)
      (Lib.forEach d.toolCalls responseStreamToolCall) :=
    Projects.forEach (fun call => (projects_emit _ _).bind ((projects_emit _ _).bind
      ((projects_emit _ _).bind (projects_emit _ _)))) _
  have hshown : ∀ text, Projects
      (do emit (modify finishReasoning) finishReasoningFrames
          emit (modify (messageDelta text)) (messageDeltaFrames text))
      (modify fun state => state.finishReasoning.messageDelta text) := fun text =>
    (projects_emit _ _).bind (projects_emit _ _)
  have hcontent : ∀ text, Projects (do content text; Lib.forEach d.toolCalls toolCall)
      (match text with
      | some text =>
        if text.isEmpty then Lib.forEach d.toolCalls responseStreamToolCall
        else do
          modify fun state => state.finishReasoning.messageDelta text
          Lib.forEach d.toolCalls responseStreamToolCall
      | none => Lib.forEach d.toolCalls responseStreamToolCall) := by
    intro text
    cases text with
    | none => exact Projects.pure.bind hcalls
    | some text =>
      unfold content
      by_cases hempty : text.isEmpty = true
      · simp only [hempty, if_true]
        exact Projects.pure.bind hcalls
      · simp only [hempty]
        exact (hshown text).bind hcalls
  unfold delta responseStreamDelta
  cases d.reasoningContent with
  | none => exact Projects.pure.bind (hcontent d.content)
  | some text => exact (projects_emit _ _).bind (hcontent d.content)

/-- **The events do not change what the state does.** -/
theorem projects_responseStreamDeltas (deltas : List Delta) :
    Projects (responseStreamDeltas deltas) (Serving.responseStreamDeltas deltas) :=
  Projects.forEach projects_delta deltas

/-! ## Pieces -/

/-- A method that does not raise. -/
def send (f : ResponseStreamState → ResponseStreamState)
    (frames : ResponseStreamState → List StreamEvent) (s : Streamed) : Streamed where
  state := f s.state
  events := s.events ++ frames s.state

theorem emit_modify (f : ResponseStreamState → ResponseStreamState)
    (frames : ResponseStreamState → List StreamEvent) (s : Streamed) :
    emit (modify f) frames s = .ok () (s.send f frames) := rfl

theorem emit_ok {m : EStateM PyException ResponseStreamState Unit}
    {frames : ResponseStreamState → List StreamEvent} {s : Streamed} {state : ResponseStreamState}
    (h : m s.state = .ok () state) :
    emit m frames s = .ok () { state, events := s.events ++ frames s.state } := by
  unfold emit
  rw [get_bind, bind_ok (zoom_ok h)]
  rfl

theorem emit_error {m : EStateM PyException ResponseStreamState Unit}
    {frames : ResponseStreamState → List StreamEvent} {s : Streamed} {state : ResponseStreamState}
    {e : PyException} (h : m s.state = .error e state) :
    emit m frames s = .error e { s with state } := by
  unfold emit
  rw [get_bind, bind_error (zoom_error h)]
  rfl

/-- The frames of a whole tool call. -/
def callFrames (function : FunctionCall) (index : Nat) : List StreamEvent :=
  [.outputItemAdded index (.functionCall function.name [] .inProgress)] ++
    (if function.arguments.isEmpty then []
      else [.functionCallArgumentsDelta index function.arguments]) ++
    [.functionCallArgumentsDone index function.arguments,
      .outputItemDone index (.functionCall function.name function.arguments .completed)]

/-- A whole tool call. -/
def sendCall (function : FunctionCall) (s : Streamed) : Streamed where
  state := { s.state with
    output := s.state.output ++ [.functionCall function.name function.arguments .completed]
    functionIndex := none
    functionArguments := [] }
  events := s.events ++ callFrames function s.state.output.length

/-- What a piece of the answer sends. -/
def piece (s : Streamed) : Piece → Streamed
  | .reasoning text => s.send (reasoningDelta text) (reasoningDeltaFrames text)
  | .content text =>
    (s.send finishReasoning finishReasoningFrames).send (messageDelta text) (messageDeltaFrames text)
  | .call function => (s.send finishReasoning finishReasoningFrames).sendCall function

/-- The text of a field, unless it is missing or empty. -/
def fieldText : Option Text → List Text
  | some text => if text.isEmpty then [] else [text]
  | none => []

/-- The pieces of a delta. -/
def piecesOf (d : Delta) : List Piece :=
  (fieldText d.reasoningContent).map Piece.reasoning ++
    (fieldText d.content).map Piece.content ++
    d.toolCalls.map fun call => Piece.call call.function

theorem send_finishReasoning_noFunction {s : Streamed} (h : s.state.functionIndex = none) :
    (s.send finishReasoning finishReasoningFrames).state.functionIndex = none := by
  unfold send finishReasoning markReasoningDone ensureReasoning
  dsimp only
  split
  · exact h
  · split <;> exact h

theorem functionIndex_messageDelta (text : Text) (state : ResponseStreamState) :
    (messageDelta text state).functionIndex = state.functionIndex := by
  unfold messageDelta ensureMessage
  split
  · rfl
  · cases hindex : state.messageIndex <;> simp [hindex]

theorem functionIndex_reasoningDelta (text : Text) (state : ResponseStreamState) :
    (reasoningDelta text state).functionIndex = state.functionIndex := by
  unfold reasoningDelta ensureReasoning
  split
  · rfl
  · cases hindex : state.reasoningIndex <;> simp [hindex]

theorem noFunction_piece {s : Streamed} (h : s.state.functionIndex = none) (p : Piece) :
    (s.piece p).state.functionIndex = none := by
  cases p with
  | reasoning text => exact (functionIndex_reasoningDelta text s.state).trans h
  | content text =>
    exact (functionIndex_messageDelta text _).trans (send_finishReasoning_noFunction h)
  | call function => rfl

theorem functionCall_ok {s : Streamed} {function : FunctionCall}
    (h : s.state.functionIndex = none) (hname : function.name ≠ []) :
    (do
      emit (functionCallStarted function.name) (functionCallStartedFrames function.name)
      emit (functionCallArgumentsDelta function.arguments)
        (functionCallArgumentsDeltaFrames function.arguments)
      emit functionCallDone functionCallDoneFrames) s = .ok () (s.sendCall function) := by
  have hstarted : functionCallStarted function.name s.state = .ok () { s.state with
      functionIndex := some s.state.output.length
      functionArguments := []
      output := s.state.output ++ [OutputItem.functionCall function.name [] .inProgress] } := by
    unfold functionCallStarted
    rw [get_bind]
    simp [hname, h]
  have hcalled : functionCallArgumentsDelta function.arguments { s.state with
      functionIndex := some s.state.output.length
      functionArguments := []
      output := s.state.output ++ [OutputItem.functionCall function.name [] .inProgress] } =
      .ok () { s.state with
        functionIndex := some s.state.output.length
        functionArguments := function.arguments
        output := s.state.output ++
          [OutputItem.functionCall function.name function.arguments .inProgress] } := by
    unfold functionCallArgumentsDelta
    rw [get_bind]
    dsimp only
    split
    · rename_i harguments
      rw [List.isEmpty_iff.mp harguments]
      rfl
    · simp only [List.nil_append, modify_append_cons]
      rfl
  have hdone : functionCallDone { s.state with
      functionIndex := some s.state.output.length
      functionArguments := function.arguments
      output := s.state.output ++
        [OutputItem.functionCall function.name function.arguments .inProgress] } =
      .ok () (s.sendCall function).state := by
    unfold functionCallDone sendCall
    rw [get_bind]
    simp only [modify_append_cons]
    rfl
  have hevents : s.events ++ functionCallStartedFrames function.name s.state ++
      functionCallArgumentsDeltaFrames function.arguments { s.state with
        functionIndex := some s.state.output.length
        functionArguments := []
        output := s.state.output ++ [OutputItem.functionCall function.name [] .inProgress] } ++
      functionCallDoneFrames { s.state with
        functionIndex := some s.state.output.length
        functionArguments := function.arguments
        output := s.state.output ++
          [OutputItem.functionCall function.name function.arguments .inProgress] } =
      (s.sendCall function).events := by
    unfold functionCallStartedFrames functionCallArgumentsDeltaFrames functionCallDoneFrames sendCall
      callFrames
    simp [complete]
  rw [bind_ok (emit_ok hstarted), bind_ok (emit_ok hcalled), emit_ok hdone, hevents]

theorem toolCall_ok {s : Streamed} {call : ToolCallDelta} (h : s.state.functionIndex = none)
    (hname : call.function.name ≠ []) : toolCall call s = .ok () (s.piece (.call call.function)) := by
  unfold toolCall
  rw [bind_ok (emit_modify ..)]
  exact functionCall_ok (send_finishReasoning_noFunction h) hname

/-- A call without a name raises. -/
theorem toolCall_error {s : Streamed} {call : ToolCallDelta} (hname : call.function.name = []) :
    ∃ e t, toolCall call s = .error e t := by
  have hraises : ∀ state, functionCallStarted call.function.name state =
      .error (responseParseError .streamedNameMissing) state := by
    intro state
    unfold functionCallStarted
    rw [get_bind, raiseIf_bind, hname, if_pos List.isEmpty_nil]
  unfold toolCall
  rw [bind_ok (emit_modify ..), bind_error (emit_error (hraises _))]
  exact ⟨_, _, rfl⟩

theorem reasoning_ok (text : Option Text) (s : Streamed) :
    reasoning text s = .ok () (((fieldText text).map Piece.reasoning).foldl piece s) := by
  cases text with
  | none => rfl
  | some text =>
    show emit (modify (reasoningDelta text)) (reasoningDeltaFrames text) s = _
    rw [emit_modify]
    unfold fieldText
    by_cases hempty : text.isEmpty = true
    · simp only [hempty, if_true]
      unfold send reasoningDelta reasoningDeltaFrames
      rw [if_pos hempty, if_pos hempty, List.append_nil]
      rfl
    · simp only [hempty]
      rfl

theorem content_ok (text : Option Text) (s : Streamed) :
    content text s = .ok () (((fieldText text).map Piece.content).foldl piece s) := by
  cases text with
  | none => rfl
  | some text =>
    unfold content fieldText
    by_cases hempty : text.isEmpty = true
    · simp only [hempty, if_true]
      rfl
    · simp only [hempty]
      rfl

theorem noFunction_pieces {s : Streamed} (h : s.state.functionIndex = none) (pieces : List Piece) :
    (pieces.foldl piece s).state.functionIndex = none := by
  induction pieces generalizing s with
  | nil => exact h
  | cons p pieces ih => exact ih (noFunction_piece h p)

theorem toolCalls_ok {s : Streamed} {toolCalls : List ToolCallDelta}
    (h : s.state.functionIndex = none) (hnames : ∀ call ∈ toolCalls, call.function.name ≠ []) :
    forEach toolCalls toolCall s =
      .ok () ((toolCalls.map fun call => Piece.call call.function).foldl piece s) := by
  induction toolCalls generalizing s with
  | nil => rfl
  | cons call rest ih =>
    rw [List.forall_mem_cons] at hnames
    unfold forEach
    rw [bind_ok (toolCall_ok h hnames.1)]
    exact ih (noFunction_piece h _) hnames.2

theorem toolCalls_error {s : Streamed} {toolCalls : List ToolCallDelta}
    (h : s.state.functionIndex = none) (hname : ∃ call ∈ toolCalls, call.function.name = []) :
    ∃ e t, forEach toolCalls toolCall s = .error e t := by
  induction toolCalls generalizing s with
  | nil => simp at hname
  | cons call rest ih =>
    unfold forEach
    by_cases hcall : call.function.name = []
    · obtain ⟨e, t, hrun⟩ := toolCall_error (s := s) hcall
      exact ⟨e, t, bind_error hrun⟩
    · rw [bind_ok (toolCall_ok h hcall)]
      refine ih (noFunction_piece h _) ?_
      obtain ⟨other, hother, hempty⟩ := hname
      rcases List.mem_cons.mp hother with rfl | hother
      · exact absurd hempty hcall
      · exact ⟨other, hother, hempty⟩

/-- All tool calls of a delta have names. -/
def Named (d : Delta) : Prop := ∀ call ∈ d.toolCalls, call.function.name ≠ []

theorem delta_eq (d : Delta) (s : Streamed) : delta d s = forEach d.toolCalls toolCall
    (((fieldText d.reasoningContent).map Piece.reasoning ++
      (fieldText d.content).map Piece.content).foldl piece s) := by
  unfold delta
  rw [bind_ok (reasoning_ok ..), bind_ok (content_ok ..), List.foldl_append]

/-- **A run over the deltas shows their pieces.** -/
theorem responseStreamDeltas_ok {s : Streamed} {deltas : List Delta}
    (h : s.state.functionIndex = none) (hnamed : ∀ d ∈ deltas, Named d) :
    responseStreamDeltas deltas s = .ok () ((deltas.flatMap piecesOf).foldl piece s) := by
  induction deltas generalizing s with
  | nil => rfl
  | cons d deltas ih =>
    rw [List.forall_mem_cons] at hnamed
    have hdelta : delta d s = .ok () ((piecesOf d).foldl piece s) := by
      rw [delta_eq, toolCalls_ok (noFunction_pieces h _) hnamed.1, ← List.foldl_append]
      rfl
    unfold responseStreamDeltas forEach
    rw [bind_ok hdelta, List.flatMap_cons, List.foldl_append]
    exact ih (noFunction_pieces h _) hnamed.2

theorem responseStreamDeltas_error {s : Streamed} {deltas : List Delta}
    (h : s.state.functionIndex = none) (hnamed : ¬ ∀ d ∈ deltas, Named d) :
    ∃ e t, responseStreamDeltas deltas s = .error e t := by
  induction deltas generalizing s with
  | nil => exact absurd (List.forall_mem_nil _) hnamed
  | cons d deltas ih =>
    rw [List.forall_mem_cons, not_and] at hnamed
    unfold responseStreamDeltas forEach
    by_cases hd : Named d
    · have hdelta : delta d s = .ok () ((piecesOf d).foldl piece s) := by
        rw [delta_eq, toolCalls_ok (noFunction_pieces h _) hd, ← List.foldl_append]
        rfl
      rw [bind_ok hdelta]
      exact ih (noFunction_pieces h _) (hnamed hd)
    · unfold Named at hd
      push Not at hd
      obtain ⟨e, t, hrun⟩ := toolCalls_error (noFunction_pieces h _) hd
      exact ⟨e, t, bind_error ((delta_eq d s).trans hrun)⟩

end Streamed

end SparseVllm.Serving
