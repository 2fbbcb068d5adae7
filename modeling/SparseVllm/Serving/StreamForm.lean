import Mathlib.Data.List.Sublists
import SparseVllm.Serving.Frames

/-!
# The form of a Responses stream

`WellFormed output events` is what a client of the stream relies on. While deltas come in, `Streaming`
holds: the events are in order so far, and what is not closed is the message or the reasoning that is
being written.

## Results

* `Logged.wellFormed`: a log in order is well formed once every item is closed.
* `Streaming.ensureMessage`, `growMessage`, `finishMessage`, their counterparts for the reasoning, and
  `sendCall`: every method keeps `Streaming`, as long as it writes to no item that is done.
-/

namespace SparseVllm.Serving

open Lib

/-! ## Well-formed streams -/

/-- What the events do to the items, in order. -/
def marks (events : List StreamEvent) : List Mark := events.map StreamEvent.mark

/-- Items are announced in order and closed once, everything about an item lies between, the done
events have its whole text, and the output is the items that were sent as done. -/
structure WellFormed (output : List OutputItem) (events : List StreamEvent) : Prop where
  announced : Mark.opened (marks events) = List.range output.length
  closedOnce : (Mark.closed (marks events)).Perm (List.range output.length)
  between : ∀ before event after i, events = before ++ event :: after → event.mark = .inside i →
    i ∈ Mark.opened (marks before) ∧ i ∈ Mark.closed (marks after)
  closedLater : ∀ before event after i, events = before ++ event :: after →
    event.mark = .closes i → i ∈ Mark.opened (marks before)
  texts : ∀ event ∈ events, ∀ i text, event.doneText? = some (i, text) → text = deltaText i events
  items : ∀ i item, .outputItemDone i item ∈ events → output[i]? = some item

/-- The log of a stream whose items may still be open. -/
structure Logged (output : List OutputItem) (events : List StreamEvent) : Prop where
  bracketed : Mark.Bracketed (marks events)
  announced : Mark.opened (marks events) = List.range output.length
  texts : ∀ event ∈ events, ∀ i text, event.doneText? = some (i, text) →
    text = deltaText i events ∧ i ∈ Mark.closed (marks events)
  items : ∀ i item, .outputItemDone i item ∈ events → output[i]? = some item

@[simp] theorem marks_append (events more : List StreamEvent) :
    marks (events ++ more) = marks events ++ marks more := List.map_append

@[simp] theorem deltaText_append (i : Nat) (events more : List StreamEvent) :
    deltaText i (events ++ more) = deltaText i events ++ deltaText i more := by
  unfold deltaText
  rw [List.filterMap_append, List.flatten_append]

/-- An event with a delta of another item, or with none. -/
theorem deltaText_singleton_of_ne {i : Nat} {event : StreamEvent}
    (h : ∀ p, event.delta? = some p → p.1 ≠ i) : deltaText i [event] = [] := by
  unfold deltaText
  cases hdelta : event.delta? with
  | none => simp [hdelta]
  | some p => simp [hdelta, h p hdelta]

namespace Logged

variable {output output' : List OutputItem} {events : List StreamEvent} {event : StreamEvent}
  {i : Nat}

theorem nil : Logged [] [] := ⟨Mark.Bracketed.nil, rfl, nofun, nofun⟩

theorem lt_of_closed (h : Logged output events) (hi : i ∈ Mark.closed (marks events)) :
    i < output.length := by
  have hopened := h.bracketed.opened_of_closed hi
  rwa [h.announced, List.mem_range] at hopened

theorem mem_opened (h : Logged output events) :
    i ∈ Mark.opened (marks events) ↔ i < output.length := by
  rw [h.announced, List.mem_range]

/-- A delta's item was announced. -/
theorem delta_lt (h : Logged output events) (hevent : event ∈ events) {p : Nat × Text}
    (hdelta : event.delta? = some p) : p.1 < output.length := by
  obtain ⟨before, after, rfl⟩ := List.append_of_mem hevent
  have hmark : event.mark = .inside p.1 := by
    cases event <;> cases hdelta <;> rfl
  have hsplit : marks (before ++ event :: after) =
      marks before ++ event.mark :: marks after := List.map_append
  have hopened := (h.bracketed.whileOpen _ _ _ hsplit p.1 (Or.inl hmark)).1
  rw [← h.mem_opened, hsplit, Mark.opened_append]
  exact List.mem_append_left _ hopened

/-- An item that was not announced has no deltas. -/
theorem deltaText_fresh (h : Logged output events) (hi : output.length ≤ i) :
    deltaText i events = [] := by
  unfold deltaText
  rw [List.filterMap_eq_nil_iff.mpr, List.flatten_nil]
  intro event hevent
  cases hdelta : event.delta? with
  | none => rfl
  | some p =>
    have hlt := h.delta_lt hevent hdelta
    exact if_neg (by omega)

/-- The items that are done are as they were. -/
def SameClosed (output output' : List OutputItem) (events : List StreamEvent) : Prop :=
  ∀ i ∈ Mark.closed (marks events), output'[i]? = output[i]?

/-- Events that close nothing, and change no text of a closed item. -/
theorem grow (h : Logged output events) {more : List StreamEvent}
    (hbracketed : Mark.Bracketed (marks (events ++ more)))
    (hannounced : Mark.opened (marks (events ++ more)) = List.range output'.length)
    (hclosed : Mark.closed (marks more) = [])
    (hdone : ∀ event ∈ more, event.doneText? = none)
    (hdeltas : ∀ i ∈ Mark.closed (marks events), deltaText i more = [])
    (hsame : SameClosed output output' events) : Logged output' (events ++ more) := by
  have hclosedAll : Mark.closed (marks (events ++ more)) = Mark.closed (marks events) := by
    rw [marks_append, Mark.closed_append, hclosed, List.append_nil]
  refine ⟨hbracketed, hannounced, fun event hevent i text htext => ?_, fun i item hitem => ?_⟩
  · rcases List.mem_append.mp hevent with hevent | hevent
    · obtain ⟨htextOf, hin⟩ := h.texts event hevent i text htext
      rw [hclosedAll, deltaText_append, hdeltas i hin, List.append_nil]
      exact ⟨htextOf, hin⟩
    · rw [hdone event hevent] at htext
      cases htext
  · rcases List.mem_append.mp hitem with hitem | hitem
    · have hin := (h.texts _ hitem i item.text rfl).2
      rw [hsame i hin]
      exact h.items i item hitem
    · have hnone := hdone _ hitem
      cases hnone

/-- A new item is announced. -/
theorem opens (h : Logged output events) (shown item : OutputItem) :
    Logged (output ++ [item]) (events ++ [.outputItemAdded output.length shown]) := by
  have hlen : (Mark.opened (marks events)).length = output.length := by
    rw [h.announced, List.length_range]
  refine h.grow ?_ ?_ rfl (by simp [StreamEvent.doneText?]) (fun i _ => ?_) fun i hi => ?_
  · have hopens := h.bracketed.snoc_opens
    rw [hlen] at hopens
    rwa [marks_append]
  · rw [marks_append, Mark.opened_append, h.announced, List.length_append]
    exact List.range_succ.symm
  · exact deltaText_singleton_of_ne nofun
  · exact List.getElem?_append_left (h.lt_of_closed hi)

/-- Something happens to an open item. -/
theorem inside (h : Logged output events) (hmark : event.mark = .inside i)
    (hi : i < output.length) (hopen : i ∉ Mark.closed (marks events))
    (hdone : event.doneText? = none) (hlen : output'.length = output.length)
    (hsame : ∀ j, j ≠ i → output'[j]? = output[j]?) : Logged output' (events ++ [event]) := by
  have hclosed : Mark.closed (marks [event]) = [] := by
    show List.filterMap _ [event.mark] = []
    rw [hmark]
    rfl
  refine h.grow ?_ ?_ hclosed (by simpa using hdone) (fun j hj => ?_) fun j hj => hsame j ?_
  · rw [marks_append]
    exact h.bracketed.snoc (Or.inl hmark) (h.mem_opened.mpr hi) hopen
  · have hnone : Mark.opened (marks [event]) = [] := by
      show List.filterMap _ [event.mark] = []
      rw [hmark]
      rfl
    rw [marks_append, Mark.opened_append, hnone, List.append_nil, h.announced, hlen]
  · refine deltaText_singleton_of_ne fun p hp => ?_
    have hindex : event.mark = .inside p.1 := by
      cases event <;> cases hp <;> rfl
    rw [hmark] at hindex
    cases hindex
    rintro rfl
    exact hopen hj
  · rintro rfl
    exact hopen hj

/-- An open item is closed, with its whole text. -/
theorem closes (h : Logged output events) {dones : List StreamEvent} {item : OutputItem}
    (hi : i < output.length) (hopen : i ∉ Mark.closed (marks events))
    (htext : item.text = deltaText i events)
    (hdones : ∀ event ∈ dones, event.mark = .inside i ∧ event.delta? = none ∧
      ∀ p, event.doneText? = some p → p = (i, deltaText i events))
    (hlen : output'.length = output.length) (hitem : output'[i]? = some item)
    (hsame : ∀ j, j ≠ i → output'[j]? = output[j]?) :
    Logged output' (events ++ dones ++ [.outputItemDone i item]) := by
  have hinside : ∀ mark ∈ marks dones, mark = .inside i := by
    intro mark hmark
    obtain ⟨event, hevent, rfl⟩ := List.mem_map.mp hmark
    exact (hdones event hevent).1
  have hsilent : ∀ j, deltaText j (dones ++ [.outputItemDone i item]) = [] := by
    intro j
    unfold deltaText
    rw [List.filterMap_eq_nil_iff.mpr, List.flatten_nil]
    intro event hevent
    rcases List.mem_append.mp hevent with hevent | hevent
    · rw [(hdones event hevent).2.1]
      rfl
    · rw [List.mem_singleton.mp hevent]
      rfl
  have hclosed : Mark.closed (marks (events ++ dones ++ [.outputItemDone i item])) =
      Mark.closed (marks events) ++ [i] := by
    rw [marks_append, marks_append, Mark.closed_append, Mark.closed_append,
      Mark.Bracketed.closed_inside hinside, List.append_nil]
    rfl
  have hwhole : ∀ j, deltaText j (events ++ dones ++ [.outputItemDone i item]) =
      deltaText j events := by
    intro j
    rw [List.append_assoc, deltaText_append, hsilent, List.append_nil]
  have hopened := h.mem_opened.mpr hi
  refine ⟨?_, ?_, fun event hevent j text hdone => ?_, fun j other hother => ?_⟩
  · rw [marks_append, marks_append]
    refine (h.bracketed.append_inside hinside hopened hopen).snoc (Or.inr rfl) ?_ ?_
    · rw [Mark.opened_append]
      exact List.mem_append_left _ hopened
    · rw [Mark.closed_append, Mark.Bracketed.closed_inside hinside, List.append_nil]
      exact hopen
  · rw [marks_append, marks_append, Mark.opened_append, Mark.opened_append,
      Mark.Bracketed.opened_inside hinside, h.announced, hlen]
    exact (List.append_nil _).trans (List.append_nil _)
  · rw [hwhole, hclosed, List.mem_append, List.mem_singleton]
    rw [List.append_assoc] at hevent
    rcases List.mem_append.mp hevent with hevent | hevent
    · obtain ⟨hold, hin⟩ := h.texts event hevent j text hdone
      exact ⟨hold, Or.inl hin⟩
    · rcases List.mem_append.mp hevent with hevent | hevent
      · cases (hdones event hevent).2.2 _ hdone
        exact ⟨rfl, Or.inr rfl⟩
      · rw [List.mem_singleton.mp hevent] at hdone
        cases hdone
        exact ⟨htext, Or.inr rfl⟩
  · rw [List.append_assoc] at hother
    rcases List.mem_append.mp hother with hother | hother
    · have hin := (h.texts _ hother j other.text rfl).2
      rw [hsame j fun hji => hopen (hji ▸ hin)]
      exact h.items j other hother
    · rcases List.mem_append.mp hother with hother | hother
      · cases (hdones _ hother).1
      · cases List.mem_singleton.mp hother
        exact hitem

/-- When every item is closed the stream is well formed. -/
theorem wellFormed (h : Logged output events)
    (hall : ∀ i < output.length, i ∈ Mark.closed (marks events)) : WellFormed output events := by
  have hopened : ∀ i ∈ Mark.opened (marks events), i ∈ Mark.closed (marks events) :=
    fun i hi => hall i (h.mem_opened.mp hi)
  refine ⟨h.announced, ?_, fun before event after i hsplit hmark => ?_,
    fun before event after i hsplit hmark => ?_, fun event hevent i text hdone =>
      (h.texts event hevent i text hdone).1, h.items⟩
  · rw [← h.announced]
    exact h.bracketed.closed_perm hopened
  · refine h.bracketed.between hopened ?_
    rw [hsplit, marks_append]
    exact congrArg (marks before ++ · :: marks after) hmark
  · refine (h.bracketed.whileOpen (marks before) (.closes i) (marks after) ?_ i (Or.inr rfl)).1
    rw [hsplit, marks_append]
    exact congrArg (marks before ++ · :: marks after) hmark

end Logged

/-! ## While deltas come in -/

namespace Streamed

open ResponseStreamState

/-- The item at an index is open, and has the text of its deltas. -/
structure OpenAt (s : Streamed) (i : Nat) (item : OutputItem) : Prop where
  holds : s.state.output[i]? = some item
  notClosed : i ∉ Mark.closed (marks s.events)
  text : item.text = deltaText i s.events

/-- What is not closed is the message or the reasoning that is being written. -/
structure Streaming (s : Streamed) : Prop where
  logged : Logged s.state.output s.events
  message : ∀ i, s.state.messageIndex = some i → s.state.messageDone = false →
    OpenAt s i (.message [s.state.messageText] .inProgress)
  noMessage : s.state.messageIndex = none →
    s.state.messageText = [] ∧ s.state.messageDone = false
  reasoning : ∀ i, s.state.reasoningIndex = some i → s.state.reasoningDone = false →
    OpenAt s i (.reasoning s.state.reasoningText)
  noReasoning : s.state.reasoningIndex = none →
    s.state.reasoningText = [] ∧ s.state.reasoningDone = false
  reasoningClosed : ∀ i, s.state.reasoningIndex = some i → s.state.reasoningDone = true →
    i ∈ Mark.closed (marks s.events)
  others : ∀ i < s.state.output.length, i ∉ Mark.closed (marks s.events) →
    s.state.messageIndex = some i ∧ s.state.messageDone = false ∨
      s.state.reasoningIndex = some i ∧ s.state.reasoningDone = false
  noFunction : s.state.functionIndex = none

variable {s s' : Streamed} {i : Nat} {item : OutputItem}

namespace OpenAt

theorem lt (h : OpenAt s i item) : i < s.state.output.length :=
  (List.getElem?_eq_some_iff.mp h.holds).1

/-- Events about other items leave an open item. -/
theorem keep (h : OpenAt s i item) {more : List StreamEvent} (hevents : s'.events = s.events ++ more)
    (houtput : s'.state.output[i]? = s.state.output[i]?) (hclosed : i ∉ Mark.closed (marks more))
    (hdelta : deltaText i more = []) : OpenAt s' i item := by
  refine ⟨houtput.trans h.holds, ?_, ?_⟩
  · rw [hevents, marks_append, Mark.closed_append, List.mem_append]
    exact not_or.mpr ⟨h.notClosed, hclosed⟩
  · rw [hevents, deltaText_append, hdelta, List.append_nil]
    exact h.text

end OpenAt

/-- The events of an item that is started: it is announced, and so is its part. -/
theorem Streaming.logged_started (h : Streaming s) (shown item : OutputItem) {part : StreamEvent}
    (hmark : part.mark = .inside s.state.output.length) (hdone : part.doneText? = none) :
    Logged (s.state.output ++ [item])
      (s.events ++ [.outputItemAdded s.state.output.length shown, part]) := by
  have hopens := h.logged.opens shown item
  have hnot : s.state.output.length ∉
      Mark.closed (marks (s.events ++ [.outputItemAdded s.state.output.length shown])) := by
    intro hin
    rw [marks_append, Mark.closed_append] at hin
    rcases List.mem_append.mp hin with hin | hin
    · exact (h.logged.lt_of_closed hin).false
    · cases hin
  have hinside := hopens.inside hmark (by simp) hnot hdone rfl fun _ _ => rfl
  rwa [List.append_assoc] at hinside

/-- An open item while another one is started. -/
theorem OpenAt.started (h : OpenAt s i item) {more : List StreamEvent} {new : OutputItem}
    (hevents : s'.events = s.events ++ more) (houtput : s'.state.output = s.state.output ++ [new])
    (hclosed : Mark.closed (marks more) = []) (hdelta : deltaText i more = []) :
    OpenAt s' i item := by
  refine h.keep hevents ?_ (by rw [hclosed]; exact List.not_mem_nil) hdelta
  rw [houtput]
  exact List.getElem?_append_left h.lt

/-- One item is rewritten, and events are sent. -/
structure Writes (s s' : Streamed) (i : Nat) (f : OutputItem → OutputItem)
    (more : List StreamEvent) : Prop where
  events : s'.events = s.events ++ more
  output : s'.state.output = s.state.output.modify i f

namespace Writes

variable {f : OutputItem → OutputItem} {more : List StreamEvent} {j : Nat}

theorem length (h : Writes s s' i f more) : s'.state.output.length = s.state.output.length := by
  rw [h.output, List.length_modify]

theorem other (h : Writes s s' i f more) (hj : j ≠ i) :
    s'.state.output[j]? = s.state.output[j]? := by
  rw [h.output]
  exact List.getElem?_modify_ne f _ hj.symm

theorem own (h : Writes s s' i f more) (hopen : OpenAt s i item) :
    s'.state.output[i]? = some (f item) := by
  rw [h.output, List.getElem?_modify_eq, hopen.holds]
  rfl

/-- Another item that is open. -/
theorem openAt (h : Writes s s' i f more) (hopen : OpenAt s j item) (hj : j ≠ i)
    (hclosed : j ∉ Mark.closed (marks more)) (hdelta : deltaText j more = []) :
    OpenAt s' j item := hopen.keep h.events (h.other hj) hclosed hdelta

/-- The item, with the text of one more delta. -/
theorem grown {event : StreamEvent} {text : Text} (h : Writes s s' i f [event])
    (hopen : OpenAt s i item) (hdelta : event.delta? = some (i, text))
    (htext : (f item).text = item.text ++ text) : OpenAt s' i (f item) := by
  have hmark : event.mark = .inside i := by
    cases event <;> cases hdelta <;> rfl
  have hclosed : Mark.closed (marks [event]) = [] := by
    show List.filterMap _ [event.mark] = []
    rw [hmark]
    rfl
  refine ⟨h.own hopen, ?_, ?_⟩
  · rw [h.events, marks_append, Mark.closed_append, hclosed, List.append_nil]
    exact hopen.notClosed
  · have hmore : deltaText i [event] = text := by
      unfold deltaText
      simp [hdelta]
    rw [h.events, deltaText_append, hmore, htext, hopen.text]

theorem logged_grown {event : StreamEvent} {text : Text} (h : Writes s s' i f [event])
    (hlogged : Logged s.state.output s.events) (hopen : OpenAt s i item)
    (hdelta : event.delta? = some (i, text)) : Logged s'.state.output s'.events := by
  have hevent : event.mark = .inside i ∧ event.doneText? = none := by
    cases event <;> cases hdelta <;> exact ⟨rfl, rfl⟩
  rw [h.events]
  exact hlogged.inside hevent.1 hopen.lt hopen.notClosed hevent.2 h.length fun j hj => h.other hj

end Writes

namespace Streaming

/-- The item that was just started. -/
theorem openAt_started (h : Streaming s) {more : List StreamEvent} {new : OutputItem}
    (hevents : s'.events = s.events ++ more) (houtput : s'.state.output = s.state.output ++ [new])
    (hclosed : Mark.closed (marks more) = []) (hdelta : ∀ i, deltaText i more = [])
    (htext : new.text = []) : OpenAt s' s.state.output.length new := by
  refine ⟨?_, ?_, ?_⟩
  · rw [houtput]
    exact List.getElem?_concat_length
  · rw [hevents, marks_append, Mark.closed_append, hclosed, List.append_nil]
    exact fun hin => (h.logged.lt_of_closed hin).false
  · rw [hevents, deltaText_append, hdelta, List.append_nil, htext,
      h.logged.deltaText_fresh (Nat.le_refl _)]

/-- Reasoning that is done stays closed. -/
theorem closed_kept (h : Streaming s) {more : List StreamEvent}
    (hevents : s'.events = s.events ++ more) (hindex : s.state.reasoningIndex = some i)
    (hdone : s.state.reasoningDone = true) : i ∈ Mark.closed (marks s'.events) := by
  rw [hevents, marks_append, Mark.closed_append]
  exact List.mem_append_left _ (h.reasoningClosed i hindex hdone)

/-- What is open after an item is started. -/
theorem others_started (h : Streaming s) {more : List StreamEvent} {new : OutputItem}
    (hevents : s'.events = s.events ++ more) (houtput : s'.state.output = s.state.output ++ [new])
    (hclosed : Mark.closed (marks more) = []) (hi : i < s'.state.output.length)
    (hopen : i ∉ Mark.closed (marks s'.events)) :
    i = s.state.output.length ∨ s.state.messageIndex = some i ∧ s.state.messageDone = false ∨
      s.state.reasoningIndex = some i ∧ s.state.reasoningDone = false := by
  rw [houtput, List.length_append, List.length_singleton] at hi
  rw [hevents, marks_append, Mark.closed_append, hclosed, List.append_nil] at hopen
  by_cases hlast : i = s.state.output.length
  · exact Or.inl hlast
  · exact Or.inr (h.others i (by omega) hopen)

theorem ensureMessage (h : Streaming s) :
    Streaming (s.send ResponseStreamState.ensureMessage ensureMessageFrames) := by
  cases hindex : s.state.messageIndex with
  | some i =>
    have hsame : s.send ResponseStreamState.ensureMessage ensureMessageFrames = s := by
      unfold send ResponseStreamState.ensureMessage ensureMessageFrames
      rw [hindex]
      exact congrArg (Streamed.mk s.state) (List.append_nil s.events)
    rw [hsame]
    exact h
  | none =>
    have hevents : (s.send ResponseStreamState.ensureMessage ensureMessageFrames).events =
        s.events ++ [.outputItemAdded s.state.output.length (.message [] .inProgress),
          .contentPartAdded s.state.output.length []] := by
      unfold send ensureMessageFrames
      rw [hindex]
    have hstate : (s.send ResponseStreamState.ensureMessage ensureMessageFrames).state =
        { s.state with
          messageIndex := some s.state.output.length
          output := s.state.output ++ [.message [[]] .inProgress] } := by
      unfold send ResponseStreamState.ensureMessage
      rw [hindex]
    generalize s.send ResponseStreamState.ensureMessage ensureMessageFrames = s' at hevents hstate
    have houtput : s'.state.output = s.state.output ++ [.message [[]] .inProgress] := by
      rw [hstate]
    obtain ⟨htext, hdone⟩ := h.noMessage hindex
    constructor
    · rw [houtput, hevents]
      exact h.logged_started _ _ rfl rfl
    · intro i hi _
      rw [hstate] at hi
      obtain rfl : s.state.output.length = i := Option.some.inj hi
      have hnew := h.openAt_started hevents houtput rfl (fun _ => rfl) rfl
      rw [hstate]
      dsimp only
      rw [htext]
      exact hnew
    · rw [hstate]
      nofun
    · intro i hi hdone
      rw [hstate] at hi hdone ⊢
      exact (h.reasoning i hi hdone).started hevents houtput rfl rfl
    · rw [hstate]
      exact h.noReasoning
    · intro i hi hdone
      rw [hstate] at hi hdone
      exact h.closed_kept hevents hi hdone
    · intro i hi hopen
      rw [hstate]
      rcases h.others_started hevents houtput rfl hi hopen with rfl | hmessage | hreasoning
      · exact Or.inl ⟨rfl, hdone⟩
      · rw [hindex] at hmessage
        cases hmessage.1
      · exact Or.inr hreasoning
    · rw [hstate]
      exact h.noFunction

theorem ensureReasoning (h : Streaming s) :
    Streaming (s.send ResponseStreamState.ensureReasoning ensureReasoningFrames) := by
  cases hindex : s.state.reasoningIndex with
  | some i =>
    have hsame : s.send ResponseStreamState.ensureReasoning ensureReasoningFrames = s := by
      unfold send ResponseStreamState.ensureReasoning ensureReasoningFrames
      rw [hindex]
      exact congrArg (Streamed.mk s.state) (List.append_nil s.events)
    rw [hsame]
    exact h
  | none =>
    have hevents : (s.send ResponseStreamState.ensureReasoning ensureReasoningFrames).events =
        s.events ++ [.outputItemAdded s.state.output.length (.reasoning []),
          .reasoningPartAdded s.state.output.length []] := by
      unfold send ensureReasoningFrames
      rw [hindex]
    have hstate : (s.send ResponseStreamState.ensureReasoning ensureReasoningFrames).state =
        { s.state with
          reasoningIndex := some s.state.output.length
          output := s.state.output ++ [.reasoning []] } := by
      unfold send ResponseStreamState.ensureReasoning
      rw [hindex]
    generalize s.send ResponseStreamState.ensureReasoning ensureReasoningFrames = s'
      at hevents hstate
    have houtput : s'.state.output = s.state.output ++ [.reasoning []] := by
      rw [hstate]
    obtain ⟨htext, hdone⟩ := h.noReasoning hindex
    constructor
    · rw [houtput, hevents]
      exact h.logged_started _ _ rfl rfl
    · intro i hi hmessage
      rw [hstate] at hi hmessage ⊢
      exact (h.message i hi hmessage).started hevents houtput rfl rfl
    · rw [hstate]
      exact h.noMessage
    · intro i hi _
      rw [hstate] at hi
      obtain rfl : s.state.output.length = i := Option.some.inj hi
      have hnew := h.openAt_started hevents houtput rfl (fun _ => rfl) rfl
      rw [hstate]
      dsimp only
      rw [htext]
      exact hnew
    · rw [hstate]
      nofun
    · intro i _ hdone'
      rw [hstate] at hdone'
      rw [hdone] at hdone'
      cases hdone'
    · intro i hi hopen
      rw [hstate]
      rcases h.others_started hevents houtput rfl hi hopen with rfl | hmessage | hreasoning
      · exact Or.inr ⟨rfl, hdone⟩
      · exact Or.inl hmessage
      · rw [hindex] at hreasoning
        cases hreasoning.1
    · rw [hstate]
      exact h.noFunction

theorem message_ne_reasoning (h : Streaming s) {j : Nat} (hi : s.state.messageIndex = some i)
    (hmessage : s.state.messageDone = false) (hj : s.state.reasoningIndex = some j)
    (hdone : s.state.reasoningDone = false) : i ≠ j := by
  rintro rfl
  have hmessage := (h.message i hi hmessage).holds
  rw [(h.reasoning i hj hdone).holds] at hmessage
  cases hmessage

theorem growMessage (h : Streaming s) (hindex : s.state.messageIndex = some i)
    (hmessage : s.state.messageDone = false) {text : Text} (htext : text ≠ []) :
    Streaming (s.send (messageDelta text) (messageDeltaFrames text)) := by
  have hopen := h.message i hindex hmessage
  have hempty : ¬ text.isEmpty = true := by simpa using htext
  have hevents : (s.send (messageDelta text) (messageDeltaFrames text)).events =
      s.events ++ [.outputTextDelta i text] := by
    unfold send messageDeltaFrames ensureMessageFrames ResponseStreamState.ensureMessage
    simp [hempty, hindex]
  have hstate : (s.send (messageDelta text) (messageDeltaFrames text)).state =
      { s.state with
        messageText := s.state.messageText ++ text
        output := s.state.output.modify i (setMessageText (s.state.messageText ++ text)) } := by
    unfold send messageDelta ResponseStreamState.ensureMessage
    simp [hempty, hindex]
  generalize s.send (messageDelta text) (messageDeltaFrames text) = s' at hevents hstate
  have hwrites : Writes s s' i (setMessageText (s.state.messageText ++ text))
      [.outputTextDelta i text] := ⟨hevents, by rw [hstate]⟩
  constructor
  · exact hwrites.logged_grown h.logged hopen rfl
  · intro j hj _
    rw [hstate] at hj ⊢
    obtain rfl : i = j := Option.some.inj (hindex.symm.trans hj)
    have hgrown := hwrites.grown hopen rfl (by simp [setMessageText, OutputItem.text])
    exact hgrown
  · intro hnone
    rw [hstate] at hnone
    rw [hindex] at hnone
    cases hnone
  · intro j hj hdone
    rw [hstate] at hj hdone ⊢
    have hne := h.message_ne_reasoning hindex hmessage hj hdone
    refine hwrites.openAt (h.reasoning j hj hdone) hne.symm (by simp [marks, StreamEvent.mark,
      Mark.closed, Mark.closed?]) (deltaText_singleton_of_ne fun p hp => ?_)
    cases hp
    exact hne
  · rw [hstate]
    exact h.noReasoning
  · intro j hj hdone
    rw [hstate] at hj hdone
    exact h.closed_kept hevents hj hdone
  · intro j hj hopenj
    rw [hwrites.length] at hj
    rw [hevents, marks_append, Mark.closed_append, List.mem_append, not_or] at hopenj
    rw [hstate]
    exact h.others j hj hopenj.1
  · rw [hstate]
    exact h.noFunction

theorem growReasoning (h : Streaming s) (hindex : s.state.reasoningIndex = some i)
    (hdone : s.state.reasoningDone = false) {text : Text} (htext : text ≠ []) :
    Streaming (s.send (reasoningDelta text) (reasoningDeltaFrames text)) := by
  have hopen := h.reasoning i hindex hdone
  have hempty : ¬ text.isEmpty = true := by simpa using htext
  have hevents : (s.send (reasoningDelta text) (reasoningDeltaFrames text)).events =
      s.events ++ [.reasoningTextDelta i text] := by
    unfold send reasoningDeltaFrames ensureReasoningFrames ResponseStreamState.ensureReasoning
    simp [hempty, hindex]
  have hstate : (s.send (reasoningDelta text) (reasoningDeltaFrames text)).state =
      { s.state with
        reasoningText := s.state.reasoningText ++ text
        output := s.state.output.modify i
          (setReasoningText (s.state.reasoningText ++ text)) } := by
    unfold send reasoningDelta ResponseStreamState.ensureReasoning
    simp [hempty, hindex]
  generalize s.send (reasoningDelta text) (reasoningDeltaFrames text) = s' at hevents hstate
  have hwrites : Writes s s' i (setReasoningText (s.state.reasoningText ++ text))
      [.reasoningTextDelta i text] := ⟨hevents, by rw [hstate]⟩
  constructor
  · exact hwrites.logged_grown h.logged hopen rfl
  · intro j hj hmessage
    rw [hstate] at hj hmessage ⊢
    have hne := h.message_ne_reasoning hj hmessage hindex hdone
    refine hwrites.openAt (h.message j hj hmessage) hne (by simp [marks, StreamEvent.mark,
      Mark.closed, Mark.closed?]) (deltaText_singleton_of_ne fun p hp => ?_)
    cases hp
    exact hne.symm
  · rw [hstate]
    exact h.noMessage
  · intro j hj _
    rw [hstate] at hj ⊢
    obtain rfl : i = j := Option.some.inj (hindex.symm.trans hj)
    exact hwrites.grown hopen rfl rfl
  · intro hnone
    rw [hstate] at hnone
    rw [hindex] at hnone
    cases hnone
  · intro j _ hdone'
    rw [hstate] at hdone'
    rw [hdone] at hdone'
    cases hdone'
  · intro j hj hopenj
    rw [hwrites.length] at hj
    rw [hevents, marks_append, Mark.closed_append, List.mem_append, not_or] at hopenj
    rw [hstate]
    exact h.others j hj hopenj.1
  · rw [hstate]
    exact h.noFunction

theorem finishReasoning_self (hopen : s.state.reasoningIndex = none ∨ s.state.reasoningDone = true) :
    s.send finishReasoning finishReasoningFrames = s := by
  have hcond : (s.state.reasoningIndex.isNone || s.state.reasoningDone) = true := by
    rcases hopen with h | h <;> simp [h]
  unfold send finishReasoning finishReasoningFrames
  rw [if_pos hcond, if_pos hcond]
  exact congrArg (Streamed.mk s.state) (List.append_nil s.events)

/-- The state after the reasoning was finished. -/
theorem finishReasoning_state (hindex : s.state.reasoningIndex = some i)
    (hdone : s.state.reasoningDone = false) :
    (s.send finishReasoning finishReasoningFrames).state =
      { s.state with reasoningDone := true } := by
  unfold send finishReasoning markReasoningDone ResponseStreamState.ensureReasoning
  simp [hindex, hdone]

theorem finishReasoning_events (h : Streaming s) (hindex : s.state.reasoningIndex = some i)
    (hdone : s.state.reasoningDone = false) :
    (s.send finishReasoning finishReasoningFrames).events =
      s.events ++ [.reasoningTextDone i s.state.reasoningText,
        .reasoningPartDone i s.state.reasoningText] ++
        [.outputItemDone i (.reasoning s.state.reasoningText)] := by
  unfold send finishReasoningFrames markReasoningDoneFrames ensureReasoningFrames
    ResponseStreamState.ensureReasoning
  simp [hindex, hdone, (h.reasoning i hindex hdone).holds]

theorem finishReasoning (h : Streaming s) :
    Streaming (s.send ResponseStreamState.finishReasoning finishReasoningFrames) := by
  by_cases hopen : s.state.reasoningIndex = none ∨ s.state.reasoningDone = true
  · rw [finishReasoning_self hopen]
    exact h
  · rw [not_or, Bool.not_eq_true] at hopen
    obtain ⟨i, hindex⟩ := Option.ne_none_iff_exists'.mp hopen.1
    have hitem := h.reasoning i hindex hopen.2
    have hstate := finishReasoning_state hindex hopen.2
    have hevents := h.finishReasoning_events hindex hopen.2
    generalize s.send ResponseStreamState.finishReasoning finishReasoningFrames = s'
      at hstate hevents
    have houtput : s'.state.output = s.state.output := by
      rw [hstate]
    constructor
    · rw [hevents, houtput]
      refine h.logged.closes hitem.lt hitem.notClosed hitem.text ?_ rfl hitem.holds fun _ _ => rfl
      rw [← hitem.text]
      simp [StreamEvent.mark, StreamEvent.delta?, StreamEvent.doneText?, OutputItem.text]
    · intro j hj hmessage
      rw [hstate] at hj hmessage ⊢
      have hne := h.message_ne_reasoning hj hmessage hindex hopen.2
      rw [List.append_assoc] at hevents
      refine (h.message j hj hmessage).keep hevents (by rw [houtput]) ?_ rfl
      show j ∉ [i]
      simpa using hne
    · rw [hstate]
      exact h.noMessage
    · intro j _ hdone
      rw [hstate] at hdone
      cases hdone
    · intro hnone
      rw [hstate] at hnone
      exact absurd hnone hopen.1
    · intro j hj _
      rw [hstate] at hj
      obtain rfl : i = j := Option.some.inj (hindex.symm.trans hj)
      rw [hevents, marks_append, Mark.closed_append]
      exact List.mem_append_right _ (List.mem_singleton_self i)
    · intro j hj hopenj
      rw [houtput] at hj
      rw [hevents, marks_append, marks_append, Mark.closed_append, Mark.closed_append] at hopenj
      simp only [List.mem_append, not_or] at hopenj
      rw [hstate]
      rcases h.others j hj hopenj.1.1 with hmessage | hreasoning
      · exact Or.inl hmessage
      · obtain rfl : i = j := Option.some.inj (hindex.symm.trans hreasoning.1)
        exact absurd (List.mem_singleton_self i) hopenj.2
    · rw [hstate]
      exact h.noFunction

theorem finishMessage_self (hopen : s.state.messageIndex = none ∨ s.state.messageDone = true) :
    s.send finishMessage finishMessageFrames = s := by
  unfold send finishMessage finishMessageFrames
  rcases hopen with h | h
  · rw [h]
    exact congrArg (Streamed.mk s.state) (List.append_nil s.events)
  · rw [h]
    cases s.state.messageIndex <;> exact congrArg (Streamed.mk s.state) (List.append_nil s.events)

/-- The message is completed when it is finished; its item is sent as it will be in the output. -/
theorem finishMessage (h : Streaming s) :
    Streaming (s.send ResponseStreamState.finishMessage finishMessageFrames) := by
  by_cases hopen : s.state.messageIndex = none ∨ s.state.messageDone = true
  · rw [finishMessage_self hopen]
    exact h
  · rw [not_or, Bool.not_eq_true] at hopen
    obtain ⟨i, hindex⟩ := Option.ne_none_iff_exists'.mp hopen.1
    have hitem := h.message i hindex hopen.2
    have hstate : (s.send ResponseStreamState.finishMessage finishMessageFrames).state =
        { s.state with output := s.state.output.modify i complete, messageDone := true } := by
      unfold send ResponseStreamState.finishMessage
      simp [hindex, hopen.2]
    have hevents : (s.send ResponseStreamState.finishMessage finishMessageFrames).events =
        s.events ++ ([.outputTextDone i s.state.messageText,
          .contentPartDone i s.state.messageText] ++
          [.outputItemDone i (.message [s.state.messageText] .completed)]) := by
      unfold send finishMessageFrames
      simp [hindex, hopen.2, hitem.holds, firstPart, complete]
    generalize s.send ResponseStreamState.finishMessage finishMessageFrames = s' at hstate hevents
    have hwrites : Writes s s' i complete _ := ⟨hevents, by rw [hstate]⟩
    constructor
    · rw [hevents, ← List.append_assoc]
      refine h.logged.closes hitem.lt hitem.notClosed hitem.text ?_ hwrites.length
        (hwrites.own hitem) fun j hj => hwrites.other hj
      rw [← hitem.text]
      simp [StreamEvent.mark, StreamEvent.delta?, StreamEvent.doneText?, OutputItem.text]
    · intro j _ hdone
      rw [hstate] at hdone
      cases hdone
    · intro hnone
      rw [hstate] at hnone
      exact absurd hnone hopen.1
    · intro j hj hdone
      rw [hstate] at hj hdone ⊢
      have hne := h.message_ne_reasoning hindex hopen.2 hj hdone
      refine hwrites.openAt (h.reasoning j hj hdone) hne.symm ?_ rfl
      show j ∉ [i]
      simpa using hne.symm
    · rw [hstate]
      exact h.noReasoning
    · intro j hj hdone
      rw [hstate] at hj hdone
      exact h.closed_kept hevents hj hdone
    · intro j hj hopenj
      rw [hwrites.length] at hj
      rw [hevents, marks_append, marks_append, Mark.closed_append, Mark.closed_append] at hopenj
      simp only [List.mem_append, not_or] at hopenj
      rw [hstate]
      rcases h.others j hj hopenj.1 with hmessage | hreasoning
      · obtain rfl : i = j := Option.some.inj (hindex.symm.trans hmessage.1)
        exact absurd (List.mem_singleton_self i) hopenj.2.2
      · exact Or.inr hreasoning
    · rw [hstate]
      exact h.noFunction

/-- The arguments of a call, and its end. -/
theorem logged_call {output : List OutputItem} {events : List StreamEvent} {function : FunctionCall}
    {shown : OutputItem}
    (h : Logged (output ++ [.functionCall function.name function.arguments .completed])
      (events ++ [.outputItemAdded output.length shown]))
    (hnot : output.length ∉ Mark.closed (marks (events ++ [.outputItemAdded output.length shown])))
    (hfresh : deltaText output.length (events ++ [.outputItemAdded output.length shown]) = []) :
    Logged (output ++ [.functionCall function.name function.arguments .completed])
      (events ++ ([.outputItemAdded output.length shown] ++
        (if function.arguments.isEmpty then []
          else [.functionCallArgumentsDelta output.length function.arguments]) ++
        [.functionCallArgumentsDone output.length function.arguments,
          .outputItemDone output.length
            (.functionCall function.name function.arguments .completed)])) := by
  have hlt : output.length <
      (output ++ [OutputItem.functionCall function.name function.arguments .completed]).length := by
    simp
  have hdone : ∀ {events' : List StreamEvent},
      Logged (output ++ [.functionCall function.name function.arguments .completed]) events' →
      output.length ∉ Mark.closed (marks events') →
      deltaText output.length events' = function.arguments →
      Logged (output ++ [.functionCall function.name function.arguments .completed])
        (events' ++ [.functionCallArgumentsDone output.length function.arguments] ++
          [.outputItemDone output.length
            (.functionCall function.name function.arguments .completed)]) := by
    intro events' hlogged hopen htext
    refine hlogged.closes hlt hopen htext.symm ?_ rfl List.getElem?_concat_length fun _ _ => rfl
    rw [htext]
    simp [StreamEvent.mark, StreamEvent.delta?, StreamEvent.doneText?]
  by_cases hempty : function.arguments.isEmpty = true
  · have hcall := hdone h hnot (by rw [hfresh, List.isEmpty_iff.mp hempty])
    rw [if_pos hempty]
    simpa using hcall
  · have hmark : (StreamEvent.functionCallArgumentsDelta output.length function.arguments).mark =
        .inside output.length := rfl
    have hgrown := h.inside hmark hlt hnot rfl rfl fun _ _ => rfl
    have hcall := hdone hgrown (by simpa [marks, StreamEvent.mark, Mark.closed, Mark.closed?] using hnot)
      (by rw [deltaText_append, hfresh]; simp [deltaText, StreamEvent.delta?])
    rw [if_neg hempty]
    simpa using hcall

/-- A whole tool call leaves the other items. -/
theorem sendCall (h : Streaming s) (function : FunctionCall) :
    Streaming (s.sendCall function) := by
  have hevents : (s.sendCall function).events = s.events ++ callFrames function s.state.output.length :=
    rfl
  have hcallText : ∀ j, j ≠ s.state.output.length →
      deltaText j (callFrames function s.state.output.length) = [] := by
    intro j hj
    unfold callFrames
    by_cases hempty : function.arguments.isEmpty = true
    · rw [if_pos hempty]
      rfl
    · rw [if_neg hempty]
      unfold deltaText
      simp [StreamEvent.delta?, hj.symm]
  have hcallClosed : Mark.closed (marks (callFrames function s.state.output.length)) =
      [s.state.output.length] := by
    unfold callFrames
    by_cases hempty : function.arguments.isEmpty = true
    · rw [if_pos hempty]
      rfl
    · rw [if_neg hempty]
      rfl
  have hold : ∀ {j : Nat} {item : OutputItem}, OpenAt s j item →
      OpenAt (s.sendCall function) j item := by
    intro j item hopen
    refine hopen.keep hevents (List.getElem?_append_left hopen.lt) ?_ (hcallText j hopen.lt.ne)
    rw [hcallClosed, List.mem_singleton]
    exact hopen.lt.ne
  refine ⟨?_, fun j hj hmessage => hold (h.message j hj hmessage), h.noMessage,
    fun j hj hdone => hold (h.reasoning j hj hdone), h.noReasoning,
    fun j hj hdone => h.closed_kept hevents hj hdone, fun j hj hopen => ?_, rfl⟩
  · have hopens := h.logged.opens (.functionCall function.name [] .inProgress)
      (.functionCall function.name function.arguments .completed)
    have hnot : s.state.output.length ∉ Mark.closed (marks (s.events ++
        [.outputItemAdded s.state.output.length (.functionCall function.name [] .inProgress)])) := by
      rw [marks_append, Mark.closed_append]
      show _ ∉ Mark.closed (marks s.events) ++ []
      rw [List.append_nil]
      exact fun hin => (h.logged.lt_of_closed hin).false
    have hfresh : deltaText s.state.output.length (s.events ++
        [.outputItemAdded s.state.output.length (.functionCall function.name [] .inProgress)]) = [] := by
      rw [deltaText_append, h.logged.deltaText_fresh (Nat.le_refl _)]
      rfl
    exact logged_call hopens hnot hfresh
  · rw [hevents, marks_append, Mark.closed_append, hcallClosed, List.mem_append, List.mem_singleton,
      not_or] at hopen
    have hlt : j < (s.state.output ++ [OutputItem.functionCall function.name function.arguments
        .completed]).length := hj
    rw [List.length_append, List.length_singleton] at hlt
    exact h.others j (by omega) hopen.1

end Streaming

end Streamed

end SparseVllm.Serving
