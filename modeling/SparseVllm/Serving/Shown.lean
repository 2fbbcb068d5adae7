import SparseVllm.Serving.Output

/-!
# What the stream state shows

`Shows state shown`: the state of the stream after the pieces `shown`. Its output is their layout, and
the message and the reasoning item are where the state has them. Each step of the stream adds its
piece; so the deltas of an answer leave a state that shows the whole answer.
-/

namespace SparseVllm.Serving

open Lib

/-- The item of a slot is at the index, holds the text, and is the only one of its kind. -/
def Slot.At (slot : Slot) (index : Option Nat) (text : Text) (items : List OutputItem) : Prop :=
  match index with
  | none => text = [] ∧ ∀ item ∈ items, slot.read item = none
  | some i => ∃ before item after, before.length = i ∧ items = before ++ item :: after ∧
      slot.read item = some text ∧ ∀ other ∈ before ++ after, slot.read other = none

theorem modify_append_cons {α : Type} (before : List α) (own : α) (after : List α) (f : α → α) :
    (before ++ own :: after).modify before.length f = before ++ f own :: after := by
  induction before with
  | nil => rfl
  | cons item before ih => exact congrArg (item :: ·) ih

namespace Slot.At

variable {slot : Slot} {index : Option Nat} {text : Text} {items : List OutputItem}

theorem append (h : slot.At index text items) {item : OutputItem} (hitem : slot.read item = none) :
    slot.At index text (items ++ [item]) := by
  cases index with
  | none =>
    refine ⟨h.1, fun other hother => ?_⟩
    rcases List.mem_append.mp hother with hold | hnew
    · exact h.2 other hold
    · exact List.mem_singleton.mp hnew ▸ hitem
  | some i =>
    obtain ⟨before, own, after, hlength, rfl, hread, hothers⟩ := h
    refine ⟨before, own, after ++ [item], hlength, by simp, hread, fun other hother => ?_⟩
    rw [← List.append_assoc] at hother
    rcases List.mem_append.mp hother with hold | hnew
    · exact hothers other hold
    · exact List.mem_singleton.mp hnew ▸ hitem

theorem map (h : slot.At index text items) {f : OutputItem → OutputItem}
    (hf : ∀ item, slot.read (f item) = slot.read item) : slot.At index text (items.map f) := by
  cases index with
  | none =>
    refine ⟨h.1, fun other hother => ?_⟩
    obtain ⟨item, hitem, rfl⟩ := List.mem_map.mp hother
    rw [hf]
    exact h.2 item hitem
  | some i =>
    obtain ⟨before, own, after, hlength, rfl, hread, hothers⟩ := h
    refine ⟨before.map f, f own, after.map f, by rw [List.length_map, hlength], by simp,
      (hf own).trans hread, fun other hother => ?_⟩
    rw [← List.map_append] at hother
    obtain ⟨item, hitem, rfl⟩ := List.mem_map.mp hother
    rw [hf]
    exact hothers item hitem

/-- Another slot's writing leaves this one. -/
theorem write (h : slot.At index text items) {other : Slot} {added : Text}
    (hadd : ∀ item, slot.read (other.add added item) = slot.read item)
    (hfresh : slot.read (other.fresh added) = none) :
    slot.At index text (other.write added items) := by
  unfold Slot.write
  split
  · exact h.map hadd
  · exact h.append hfresh

theorem any_false (h : slot.At none text items) :
    items.any (fun item => (slot.read item).isSome) = false := by
  rw [List.any_eq_false]
  intro item hitem
  rw [h.2 item hitem]
  decide

/-- Starting the item of a slot. -/
theorem fresh (h : slot.At none text items) {added : Text}
    (hfresh : slot.read (slot.fresh added) = some added) :
    slot.At (some items.length) added (slot.write added items) := by
  unfold Slot.write
  rw [h.any_false, if_neg Bool.false_ne_true]
  refine ⟨items, slot.fresh added, [], rfl, rfl, hfresh, fun other hother => ?_⟩
  rw [List.append_nil] at hother
  exact h.2 other hother

/-- Rewriting the item of a slot is what `Slot.write` does. -/
theorem modify {i : Nat} (h : slot.At (some i) text items) {added : Text}
    {f : OutputItem → OutputItem} (hkept : ∀ item ∈ items, item.Kept)
    (hf : ∀ item, item.Kept → slot.read item = some text →
      f item = slot.add added item ∧ slot.read (slot.add added item) = some (text ++ added))
    (hskip : ∀ item, slot.read item = none → slot.add added item = item) :
    items.modify i f = slot.write added items ∧
      slot.At (some i) (text ++ added) (slot.write added items) := by
  obtain ⟨before, own, after, rfl, rfl, hread, hothers⟩ := h
  obtain ⟨hown, hgrown⟩ := hf own
    (hkept own (List.mem_append_right _ List.mem_cons_self)) hread
  have hsame : ∀ l : List OutputItem, (∀ other ∈ l, slot.read other = none) →
      l.map (slot.add added) = l := fun l hl =>
    (List.map_congr_left (g := id) fun other hother => hskip other (hl other hother)).trans
      (List.map_id l)
  rw [List.forall_mem_append] at hothers
  have hwrite : slot.write added (before ++ own :: after) =
      before ++ slot.add added own :: after := by
    unfold Slot.write
    rw [if_pos (List.any_eq_true.mpr ⟨own, List.mem_append_right _ List.mem_cons_self, by
      rw [hread]; rfl⟩), List.map_append, List.map_cons, hsame before hothers.1,
      hsame after hothers.2]
  rw [hwrite]
  refine ⟨?_, before, slot.add added own, after, rfl, rfl, hgrown,
    List.forall_mem_append.mpr hothers⟩
  rw [← hown]
  exact modify_append_cons before own after f

end Slot.At

theorem setMessageText_eq {text before : Text} {item : OutputItem} (hkept : item.Kept)
    (hread : item.message? = some before) :
    ResponseStreamState.setMessageText (before ++ text) item = item.addContent text ∧
      (item.addContent text).message? = some (before ++ text) := by
  cases item with
  | message parts status =>
    obtain ⟨own, rfl⟩ := List.length_eq_one_iff.mp hkept
    obtain rfl : [own].flatten = before := Option.some.inj hread
    rw [List.flatten_singleton]
    exact ⟨rfl, congrArg some (List.append_nil _)⟩
  | _ => cases hread

theorem addContent_of_none (text : Text) (item : OutputItem) (hread : item.message? = none) :
    item.addContent text = item := by
  cases item with
  | message parts status => cases hread
  | _ => rfl

theorem setReasoningText_eq {text before : Text} {item : OutputItem}
    (hread : item.reasoning? = some before) :
    ResponseStreamState.setReasoningText (before ++ text) item = item.addReasoning text ∧
      (item.addReasoning text).reasoning? = some (before ++ text) := by
  cases item with
  | reasoning own =>
    obtain rfl : own = before := Option.some.inj hread
    exact ⟨rfl, rfl⟩
  | _ => cases hread

theorem addReasoning_of_none (text : Text) (item : OutputItem) (hread : item.reasoning? = none) :
    item.addReasoning text = item := by
  cases item with
  | reasoning own => cases hread
  | _ => rfl

/-- The state of the stream after the pieces `shown`. -/
structure Shows (state : ResponseStreamState) (shown : List Piece) : Prop where
  output : state.output = layout shown
  message : messageSlot.At state.messageIndex state.messageText state.output
  reasoning : reasoningSlot.At state.reasoningIndex state.reasoningText state.output
  messageOpen : state.messageDone = false
  noFunction : state.functionIndex = none

namespace Shows

variable {state : ResponseStreamState} {shown : List Piece}

theorem initial : Shows {} [] where
  output := rfl
  message := ⟨rfl, List.forall_mem_nil _⟩
  reasoning := ⟨rfl, List.forall_mem_nil _⟩
  messageOpen := rfl
  noFunction := rfl

theorem kept (h : Shows state shown) : ∀ item ∈ state.output, item.Kept :=
  h.output ▸ kept_layout shown

theorem messageDelta (h : Shows state shown) {text : Text} (htext : text ≠ []) :
    Shows (state.messageDelta text) (shown ++ [.content text]) := by
  have hplace : messageSlot.write text state.output = layout (shown ++ [.content text]) := by
    rw [layout_concat, h.output]
    rfl
  have hother : ∀ item, reasoningSlot.read (messageSlot.add text item) = reasoningSlot.read item :=
    reasoning?_addContent text
  have hreasoning := h.reasoning.write hother rfl
  have hmessage := h.message
  cases hindex : state.messageIndex with
  | none =>
    rw [hindex] at hmessage
    have hfresh := hmessage.fresh (congrArg some (List.append_nil text))
    have hwrite : messageSlot.write text state.output =
        state.output ++ [.message [text] .inProgress] := by
      unfold Slot.write
      rw [hmessage.any_false, if_neg Bool.false_ne_true]
      rfl
    have hrun : state.messageDelta text =
        { state with
          messageIndex := some state.output.length
          messageText := text
          output := messageSlot.write text state.output } := by
      unfold ResponseStreamState.messageDelta ResponseStreamState.ensureMessage
      rw [List.isEmpty_eq_false_iff.mpr htext, if_neg Bool.false_ne_true, hindex, hwrite]
      simp only [hmessage.1, List.nil_append, modify_append_cons]
      rfl
    rw [hrun]
    exact ⟨hplace, hfresh, hreasoning, h.messageOpen, h.noFunction⟩
  | some i =>
    rw [hindex] at hmessage
    obtain ⟨hmodify, hgrown⟩ := hmessage.modify h.kept
      (fun item => setMessageText_eq) (addContent_of_none text)
    have hrun : state.messageDelta text =
        { state with
          messageText := state.messageText ++ text
          output := messageSlot.write text state.output } := by
      unfold ResponseStreamState.messageDelta ResponseStreamState.ensureMessage
      rw [List.isEmpty_eq_false_iff.mpr htext, if_neg Bool.false_ne_true, hindex]
      simp only [hindex, hmodify]
    rw [hrun]
    exact ⟨hplace, by rw [hindex]; exact hgrown, hreasoning, h.messageOpen, h.noFunction⟩

theorem reasoningDelta (h : Shows state shown) {text : Text} (htext : text ≠ []) :
    Shows (state.reasoningDelta text) (shown ++ [.reasoning text]) := by
  have hplace : reasoningSlot.write text state.output = layout (shown ++ [.reasoning text]) := by
    rw [layout_concat, h.output]
    rfl
  have hother : ∀ item, messageSlot.read (reasoningSlot.add text item) = messageSlot.read item :=
    message?_addReasoning text
  have hmessage := h.message.write hother rfl
  have hreasoning := h.reasoning
  cases hindex : state.reasoningIndex with
  | none =>
    rw [hindex] at hreasoning
    have hfresh : reasoningSlot.At (some state.output.length) text
        (reasoningSlot.write text state.output) := hreasoning.fresh rfl
    have hwrite : reasoningSlot.write text state.output = state.output ++ [.reasoning text] := by
      unfold Slot.write
      rw [hreasoning.any_false, if_neg Bool.false_ne_true]
      rfl
    have hrun : state.reasoningDelta text =
        { state with
          reasoningIndex := some state.output.length
          reasoningText := text
          output := reasoningSlot.write text state.output } := by
      unfold ResponseStreamState.reasoningDelta ResponseStreamState.ensureReasoning
      rw [List.isEmpty_eq_false_iff.mpr htext, if_neg Bool.false_ne_true, hindex, hwrite]
      simp only [hreasoning.1, List.nil_append, modify_append_cons]
      rfl
    rw [hrun]
    exact ⟨hplace, hmessage, hfresh, h.messageOpen, h.noFunction⟩
  | some i =>
    rw [hindex] at hreasoning
    obtain ⟨hmodify, hgrown⟩ := hreasoning.modify h.kept
      (fun item _ => setReasoningText_eq) (addReasoning_of_none text)
    have hrun : state.reasoningDelta text =
        { state with
          reasoningText := state.reasoningText ++ text
          output := reasoningSlot.write text state.output } := by
      unfold ResponseStreamState.reasoningDelta ResponseStreamState.ensureReasoning
      rw [List.isEmpty_eq_false_iff.mpr htext, if_neg Bool.false_ne_true, hindex]
      simp only [hindex, hmodify]
    rw [hrun]
    exact ⟨hplace, hmessage, by rw [hindex]; exact hgrown, h.messageOpen, h.noFunction⟩

theorem finishReasoning (h : Shows state shown) : Shows state.finishReasoning shown := by
  unfold ResponseStreamState.finishReasoning
  split
  · exact h
  · rename_i hopen
    cases hindex : state.reasoningIndex with
    | none => simp [hindex] at hopen
    | some i =>
      have hrun : state.markReasoningDone = { state with reasoningDone := true } := by
        unfold ResponseStreamState.markReasoningDone ResponseStreamState.ensureReasoning
        simp only [hindex]
      rw [hrun]
      exact ⟨h.output, h.message, h.reasoning, h.messageOpen, h.noFunction⟩

/-- A tool call adds its item. -/
theorem functionCall (h : Shows state shown) {function : FunctionCall} (hname : function.name ≠ []) :
    ∃ state', (do
        ResponseStreamState.functionCallStarted function.name
        ResponseStreamState.functionCallArgumentsDelta function.arguments
        ResponseStreamState.functionCallDone : EStateM PyException ResponseStreamState Unit) state =
        .ok () state' ∧
      Shows state' (shown ++ [.call function]) := by
  have hplace : state.output ++ [callItem function] = layout (shown ++ [.call function]) := by
    rw [layout_concat, h.output]
    rfl
  have hshows : Shows { state with
      output := state.output ++ [callItem function]
      functionIndex := none
      functionArguments := [] } (shown ++ [.call function]) :=
    ⟨hplace, h.message.append rfl, h.reasoning.append rfl, h.messageOpen, rfl⟩
  refine ⟨_, ?_, hshows⟩
  have hstarted : ResponseStreamState.functionCallStarted function.name state =
      .ok () { state with
        functionIndex := some state.output.length
        functionArguments := []
        output := state.output ++ [OutputItem.functionCall function.name [] .inProgress] } := by
    unfold ResponseStreamState.functionCallStarted
    rw [get_bind]
    simp [hname, h.noFunction]
  have hcalled : ResponseStreamState.functionCallArgumentsDelta function.arguments
      { state with
        functionIndex := some state.output.length
        functionArguments := []
        output := state.output ++ [OutputItem.functionCall function.name [] .inProgress] } =
      .ok () { state with
        functionIndex := some state.output.length
        functionArguments := function.arguments
        output := state.output ++
          [OutputItem.functionCall function.name function.arguments .inProgress] } := by
    unfold ResponseStreamState.functionCallArgumentsDelta
    rw [get_bind]
    dsimp only
    split
    · rename_i harguments
      rw [List.isEmpty_iff.mp harguments]
      rfl
    · simp only [List.nil_append, modify_append_cons]
      rfl
  rw [bind_ok hstarted, bind_ok hcalled]
  unfold ResponseStreamState.functionCallDone
  rw [get_bind]
  simp only [modify_append_cons]
  rfl

/-- The delta of a piece adds the piece. -/
theorem delta (h : Shows state shown) {piece : Piece} (hsolid : piece.Solid) (toolIndex : Nat) :
    ∃ state', responseStreamDelta (piece.delta toolIndex) state = .ok () state' ∧
      Shows state' (shown ++ [piece]) := by
  cases piece with
  | reasoning text => exact ⟨_, rfl, h.reasoningDelta hsolid⟩
  | content text =>
    have hrun : responseStreamDelta ((Piece.content text).delta toolIndex) state =
        .ok () (state.finishReasoning.messageDelta text) := by
      cases text with
      | nil => exact absurd rfl hsolid
      | cons c text => rfl
    exact ⟨_, hrun, h.finishReasoning.messageDelta hsolid⟩
  | call function =>
    obtain ⟨state', hcall, hshows⟩ := h.finishReasoning.functionCall hsolid
    refine ⟨state', ?_, hshows⟩
    have hbody : responseStreamToolCall ⟨toolIndex, function⟩ state = .ok () state' := hcall
    unfold responseStreamDelta
    simp only [Piece.delta, forEach]
    exact bind_ok hbody

/-- The deltas of an answer add its pieces. -/
theorem deltas {pieces : List Piece} (h : Shows state shown)
    (hsolid : ∀ piece ∈ pieces, piece.Solid) (toolIndex : Nat) :
    ∃ state', responseStreamDeltas (Serving.deltas toolIndex pieces) state = .ok () state' ∧
      Shows state' (shown ++ pieces) := by
  induction pieces generalizing state shown toolIndex with
  | nil => exact ⟨state, rfl, by rwa [List.append_nil]⟩
  | cons piece rest ih =>
    obtain ⟨hpiece, hrest⟩ := List.forall_mem_cons.mp hsolid
    obtain ⟨middle, hrun, hmiddle⟩ := h.delta hpiece toolIndex
    obtain ⟨last, hlast, hshows⟩ := ih hmiddle hrest (toolIndex + (calls [piece]).length)
    refine ⟨last, ?_, by rwa [List.append_cons]⟩
    unfold Serving.deltas responseStreamDeltas forEach
    rw [bind_ok hrun]
    exact hlast

theorem complete_of_no_message {item : OutputItem} (hkept : item.Kept)
    (hmessage : item.message? = none) : ResponseStreamState.complete item = item := by
  cases item with
  | reasoning text => rfl
  | message parts status => cases hmessage
  | functionCall name arguments status =>
    obtain rfl : status = .completed := hkept
    rfl

theorem map_complete_of_no_message {items : List OutputItem} (hkept : ∀ item ∈ items, item.Kept)
    (hmessage : ∀ item ∈ items, item.message? = none) :
    items.map ResponseStreamState.complete = items :=
  (List.map_congr_left (g := id) fun item hitem =>
    complete_of_no_message (hkept item hitem) (hmessage item hitem)).trans (List.map_id items)

/-- Finishing the message completes every item. -/
theorem finishMessage_output (h : Shows state shown) :
    state.finishMessage.output = (layout shown).map ResponseStreamState.complete := by
  have hmessage := h.message
  unfold ResponseStreamState.finishMessage
  cases hindex : state.messageIndex with
  | none =>
    rw [hindex] at hmessage
    show state.output = _
    rw [map_complete_of_no_message (kept_layout shown) (h.output ▸ hmessage.2), h.output]
  | some i =>
    rw [hindex] at hmessage
    obtain ⟨before, own, after, rfl, houtput, -, hothers⟩ := hmessage
    have hkept := h.kept
    rw [houtput, List.forall_mem_append, List.forall_mem_cons] at hkept
    rw [List.forall_mem_append] at hothers
    rw [h.messageOpen]
    show state.output.modify before.length ResponseStreamState.complete = _
    rw [← h.output, houtput, modify_append_cons, List.map_append, List.map_cons,
      map_complete_of_no_message hkept.1 hothers.1, map_complete_of_no_message hkept.2.2 hothers.2]

theorem finishReasoning_rest (state : ResponseStreamState) :
    state.finishReasoning.messageIndex = state.messageIndex ∧
      state.finishReasoning.messageDone = state.messageDone ∧
      state.finishReasoning.functionIndex = state.functionIndex ∧
      state.finishReasoning.output = state.output := by
  unfold ResponseStreamState.finishReasoning ResponseStreamState.markReasoningDone
    ResponseStreamState.ensureReasoning
  cases hindex : state.reasoningIndex with
  | none => exact ⟨rfl, rfl, rfl, rfl⟩
  | some i => cases state.reasoningDone <;> exact ⟨rfl, rfl, rfl, rfl⟩

/-- **Finishing the open items closes the output.** -/
theorem finishOpenItems (h : Shows state shown) :
    ∃ state', ResponseStreamState.finishOpenItems state = .ok () state' ∧
      state'.output = closed (layout shown) := by
  obtain ⟨hindex, hdone, hfunction, houtput⟩ := finishReasoning_rest state.finishMessage
  rw [h.finishMessage_output] at houtput
  have hnone : state.finishMessage.functionIndex = none := by
    unfold ResponseStreamState.finishMessage
    split <;> exact h.noFunction
  rw [hnone] at hfunction
  unfold ResponseStreamState.finishOpenItems closed
  rw [modify_bind, modify_bind, get_bind, hfunction]
  by_cases hnil : layout shown = []
  · rw [hnil] at houtput
    have hempty : state.output = [] := h.output.trans hnil
    have hnoindex : state.messageIndex = none := by
      have hmessage := h.message
      cases hindex : state.messageIndex with
      | none => rfl
      | some i =>
        rw [hindex, hempty] at hmessage
        obtain ⟨before, own, after, -, hcons, -⟩ := hmessage
        exact absurd hcons.symm (List.append_ne_nil_of_right_ne_nil before (List.cons_ne_nil _ _))
    have hstart : state.finishMessage = state := by
      unfold ResponseStreamState.finishMessage
      rw [hnoindex]
    rw [hstart] at hindex hdone houtput ⊢
    rw [hnoindex] at hindex
    rw [h.messageOpen] at hdone
    refine ⟨state.finishReasoning.ensureMessage.finishMessage, ?_, ?_⟩
    · simp [houtput]
    · unfold ResponseStreamState.ensureMessage ResponseStreamState.finishMessage
      simp [hindex, hdone, houtput, hnil, ResponseStreamState.complete, messageOutputItem]
  · rw [if_neg hnil]
    refine ⟨_, ?_, houtput⟩
    simp [houtput, hnil]

end Shows

/-! ## The loop -/

variable {P : Type}

theorem forEach_append {α σ ε : Type} (first second : List α) (body : α → EStateM ε σ Unit) (s : σ) :
    forEach (first ++ second) body s = (do forEach first body; forEach second body) s := by
  induction first generalizing s with
  | nil => rfl
  | cons a first ih =>
    show (body a >>= fun _ => forEach (first ++ second) body) s = _
    rw [bind_apply]
    cases hbody : body a s with
    | ok u t =>
      show forEach (first ++ second) body t = _
      rw [ih]
      exact (bind_apply _ _ _).symm ▸ by simp [forEach, bind_apply, hbody]
    | error e t => simp [forEach, bind_apply, hbody]

theorem onStream_ok_iff {α : Type} {m : EStateM PyException (StreamRun P) α}
    {run run' : ResponseRun P} {a : α} :
    onStream m run = .ok a run' ↔
      ∃ stream, m run.stream = .ok a stream ∧ run' = { run with stream } := by
  unfold onStream zoom
  cases m run.stream with
  | ok b stream =>
    refine ⟨fun h => ?_, fun ⟨_, h, hrun⟩ => ?_⟩
    · cases h
      exact ⟨stream, rfl, rfl⟩
    · cases h
      rw [hrun]
  | error exc stream => simp

theorem onState_ok_iff {α : Type} {m : EStateM PyException ResponseStreamState α}
    {run run' : ResponseRun P} {a : α} :
    onState m run = .ok a run' ↔
      ∃ state, m run.state = .ok a state ∧ run' = { run with state } := by
  unfold onState zoom
  cases m run.state with
  | ok b state =>
    refine ⟨fun h => ?_, fun ⟨_, h, hrun⟩ => ?_⟩
    · cases h
      exact ⟨state, rfl, rfl⟩
    · cases h
      rw [hrun]
  | error exc state => simp

/-- When the deltas of an answer can be collected and shown, the loop ends with the response object
of the finished output. -/
theorem responseStreamLoop_of_collect {queue : Queue} {final : FinalItem} {run run' : StreamRun P}
    {state shown done : ResponseStreamState} {out : List Delta}
    (hfinal : queue.final? = some final) (hcollect : collect final queue.tokens run = .ok out run')
    (hshown : responseStreamDeltas out state = .ok () shown)
    (hdone : ResponseStreamState.finishOpenItems shown = .ok () done) :
    ∃ last, responseStreamLoop queue { state, stream := run } =
      .ok (.completed (finishedResponse final done.output)) last := by
  induction queue generalizing run state out with
  | error message => cases hfinal
  | final item =>
    obtain rfl : item = final := Option.some.inj hfinal
    have hfinished : onStream (finalDeltas item) { state, stream := run } =
        .ok out { state, stream := run' } :=
      onStream_ok_iff.mpr ⟨run', hcollect, rfl⟩
    have hstate : onState (responseStreamDeltas out) { state, stream := run' } =
        .ok () { state := shown, stream := run' } :=
      onState_ok_iff.mpr ⟨shown, hshown, rfl⟩
    have hclosed : onState ResponseStreamState.finishOpenItems { state := shown, stream := run' } =
        .ok () { state := done, stream := run' } :=
      onState_ok_iff.mpr ⟨done, hdone, rfl⟩
    refine ⟨{ state := done, stream := run' }, ?_⟩
    unfold responseStreamLoop
    rw [bind_ok hfinished, bind_ok hstate, bind_ok hclosed]
    rfl
  | token item rest ih =>
    obtain ⟨first, middle, hfirst, hrest⟩ := exists_of_bind_ok hcollect
    obtain ⟨others, last, hothers, heq⟩ := exists_of_bind_ok hrest
    cases heq
    unfold responseStreamDeltas at hshown
    rw [forEach_append] at hshown
    obtain ⟨u, halfway, hhalf, hshown⟩ := exists_of_bind_ok hshown
    have htoken : onStream (tokenDeltas item) { state, stream := run } =
        .ok first { state, stream := middle } :=
      onStream_ok_iff.mpr ⟨middle, hfirst, rfl⟩
    have hstate : onState (responseStreamDeltas first) { state, stream := middle } =
        .ok () { state := halfway, stream := middle } :=
      onState_ok_iff.mpr ⟨halfway, hhalf, rfl⟩
    obtain ⟨last, hlast⟩ := ih hfinal hothers hshown
    refine ⟨last, ?_⟩
    unfold responseStreamLoop
    rw [bind_ok htoken, bind_ok hstate]
    exact hlast

/-- The loop ends normally only when the deltas of the answer can be collected. -/
theorem collect_of_responseStreamLoop {queue : Queue} {final : FinalItem}
    {run : StreamRun P} {state : ResponseStreamState} {frame : Frame} {last : ResponseRun P}
    (hfinal : queue.final? = some final)
    (h : responseStreamLoop queue { state, stream := run } = .ok frame last) :
    ∃ out run', collect final queue.tokens run = .ok out run' := by
  induction queue generalizing run state with
  | error message => cases hfinal
  | final item =>
    obtain rfl : item = final := Option.some.inj hfinal
    unfold responseStreamLoop at h
    obtain ⟨out, middle, hout, -⟩ := exists_of_bind_ok h
    obtain ⟨run', hrun, -⟩ := onStream_ok_iff.mp hout
    exact ⟨out, run', hrun⟩
  | token item rest ih =>
    unfold responseStreamLoop at h
    obtain ⟨first, middle, hfirst, h⟩ := exists_of_bind_ok h
    obtain ⟨run', hrun, rfl⟩ := onStream_ok_iff.mp hfirst
    obtain ⟨u, shown, hshown, h⟩ := exists_of_bind_ok h
    obtain ⟨halfway, -, rfl⟩ := onState_ok_iff.mp hshown
    obtain ⟨others, final', hothers⟩ := ih hfinal h
    refine ⟨first ++ others, final', ?_⟩
    show collect final (item :: rest.tokens) run = _
    unfold collect
    rw [bind_ok hrun, bind_ok hothers]
    rfl

end SparseVllm.Serving
