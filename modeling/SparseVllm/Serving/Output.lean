import Mathlib.Data.List.Basic
import Mathlib.Data.List.Induction
import SparseVllm.Serving.Responses

/-!
# The output a stream builds

`place` is what one piece of the answer does to the list of output items: a first piece of reasoning
or of content adds an item, later ones lengthen it, a call adds an item. `layout` places the pieces
of an answer in order. The items of a layout are known kind by kind, and so is its first item; that
is all a comparison with the output of one parsed message needs.

Headlines:
* **`run_stream`**: the stream's output is the layout of the pieces, with its message completed.
* **`closed_layout_eq_iff`**: it equals the output items of a parsed message with the same texts and
  calls iff the reasoning is absent or not empty, no content stands beside a call, and the reasoning
  came first.
-/

namespace SparseVllm.Serving

open Lib

/-! ## Kinds of items -/

namespace OutputItem

/-- The text of a reasoning item. -/
def reasoning? : OutputItem → Option Text
  | reasoning text => some text
  | _ => none

/-- The text of a message item. -/
def message? : OutputItem → Option Text
  | message parts _ => some parts.flatten
  | _ => none

/-- The function of a call item. -/
def call? : OutputItem → Option FunctionCall
  | functionCall name arguments _ => some { name, arguments }
  | _ => none

/-- An item as the stream keeps it: a message has one part, a call is complete. -/
def Kept : OutputItem → Prop
  | reasoning _ => True
  | message parts _ => parts.length = 1
  | functionCall _ _ status => status = .completed

/-- Add text to a reasoning item. -/
def addReasoning (text : Text) : OutputItem → OutputItem
  | reasoning before => reasoning (before ++ text)
  | item => item

/-- Add text to a message item. -/
def addContent (text : Text) : OutputItem → OutputItem
  | message (before :: parts) status => message ((before ++ text) :: parts) status
  | item => item

end OutputItem

/-- The item of a complete call. -/
def callItem (function : FunctionCall) : OutputItem :=
  .functionCall function.name function.arguments .completed

/-- An item that grows: how its text is read, how text is added to it, and how it starts. -/
structure Slot where
  read : OutputItem → Option Text
  add : Text → OutputItem → OutputItem
  fresh : Text → OutputItem

/-- The reasoning item. -/
def reasoningSlot : Slot where
  read := OutputItem.reasoning?
  add := OutputItem.addReasoning
  fresh := OutputItem.reasoning

/-- The message item. -/
def messageSlot : Slot where
  read := OutputItem.message?
  add := OutputItem.addContent
  fresh text := OutputItem.message [text] .inProgress

/-- Add text to the item of a slot, or start it. -/
def Slot.write (slot : Slot) (text : Text) (items : List OutputItem) : List OutputItem :=
  if items.any (fun item => (slot.read item).isSome) then items.map (slot.add text)
  else items ++ [slot.fresh text]

/-- What a piece does to the output. -/
def place (items : List OutputItem) : Piece → List OutputItem
  | .reasoning text => reasoningSlot.write text items
  | .content text => messageSlot.write text items
  | .call function => items ++ [callItem function]

/-- The output of an answer's pieces. -/
def layout (shown : List Piece) : List OutputItem :=
  shown.foldl place []

/-- The reasoning of an answer's pieces. -/
def reasoningOf (shown : List Piece) : Text :=
  (shown.map fun | .reasoning text => text | _ => []).flatten

/-- The content of an answer's pieces. -/
def contentOf (shown : List Piece) : Text :=
  (shown.map fun | .content text => text | _ => []).flatten

/-- A piece that shows something. -/
def Piece.Solid : Piece → Prop
  | reasoning text => text ≠ []
  | content text => text ≠ []
  | call function => function.name ≠ []

/-- A list of one text, or of none when it is empty. -/
def unlessEmpty (text : Text) : List Text :=
  if text = [] then [] else [text]

/-! ## One piece -/

theorem layout_concat (shown : List Piece) (piece : Piece) :
    layout (shown ++ [piece]) = place (layout shown) piece := by
  unfold layout
  rw [List.foldl_append]
  rfl

@[simp] theorem reasoning?_addReasoning (text : Text) (item : OutputItem) :
    (item.addReasoning text).reasoning? = item.reasoning?.map (· ++ text) := by
  cases item <;> rfl

@[simp] theorem message?_addReasoning (text : Text) (item : OutputItem) :
    (item.addReasoning text).message? = item.message? := by
  cases item <;> rfl

@[simp] theorem call?_addReasoning (text : Text) (item : OutputItem) :
    (item.addReasoning text).call? = item.call? := by
  cases item <;> rfl

@[simp] theorem reasoning?_addContent (text : Text) (item : OutputItem) :
    (item.addContent text).reasoning? = item.reasoning? := by
  rcases item with _ | _ | ⟨_ | _, _⟩ <;> rfl

theorem message?_addContent {text : Text} {item : OutputItem} (h : item.Kept) :
    (item.addContent text).message? = item.message?.map (· ++ text) := by
  rcases item with _ | _ | ⟨_ | ⟨before, parts⟩, status⟩
  · rfl
  · rfl
  · cases h
  · obtain rfl : parts = [] := List.eq_nil_of_length_eq_zero (Nat.succ.inj h)
    simp [OutputItem.addContent, OutputItem.message?]

@[simp] theorem call?_addContent (text : Text) (item : OutputItem) :
    (item.addContent text).call? = item.call? := by
  rcases item with _ | _ | ⟨_ | _, _⟩ <;> rfl

theorem Kept.addReasoning {text : Text} {item : OutputItem} (h : item.Kept) :
    (item.addReasoning text).Kept := by
  cases item <;> exact h

theorem Kept.addContent {text : Text} {item : OutputItem} (h : item.Kept) :
    (item.addContent text).Kept := by
  rcases item with _ | _ | ⟨_ | _, _⟩ <;> exact h

theorem mem_write {slot : Slot} {text : Text} {items : List OutputItem} {item : OutputItem}
    (h : item ∈ slot.write text items) :
    (∃ before ∈ items, item = before ∨ item = slot.add text before) ∨ item = slot.fresh text := by
  unfold Slot.write at h
  split at h
  · obtain ⟨before, hbefore, rfl⟩ := List.mem_map.mp h
    exact Or.inl ⟨before, hbefore, Or.inr rfl⟩
  · rcases List.mem_append.mp h with hold | hnew
    · exact Or.inl ⟨item, hold, Or.inl rfl⟩
    · exact Or.inr (List.mem_singleton.mp hnew)

theorem kept_layout (shown : List Piece) : ∀ item ∈ layout shown, item.Kept := by
  induction shown using List.reverseRecOn with
  | nil => exact List.forall_mem_nil _
  | append_singleton shown piece ih =>
    rw [layout_concat]
    intro item hitem
    cases piece with
    | reasoning text =>
      obtain ⟨before, hbefore, rfl | rfl⟩ | rfl := mem_write hitem
      · exact ih item hbefore
      · exact Kept.addReasoning (ih before hbefore)
      · exact True.intro
    | content text =>
      obtain ⟨before, hbefore, rfl | rfl⟩ | rfl := mem_write hitem
      · exact ih item hbefore
      · exact Kept.addContent (ih before hbefore)
      · rfl
    | call function =>
      rcases List.mem_append.mp hitem with hold | hnew
      · exact ih item hold
      · obtain rfl := List.mem_singleton.mp hnew
        rfl

/-! ## The items of a layout, kind by kind -/

/-- A slot that holds at most one item has the text written to it so far. -/
theorem write_own (slot : Slot) {text before : Text} {items : List OutputItem}
    (hadd : ∀ item ∈ items, slot.read (slot.add text item) = (slot.read item).map (· ++ text))
    (hfresh : slot.read (slot.fresh text) = some text) (hsolid : text ≠ [])
    (h : items.filterMap slot.read = unlessEmpty before) :
    (slot.write text items).filterMap slot.read = unlessEmpty (before ++ text) := by
  have hmap : (items.map (slot.add text)).filterMap slot.read =
      (items.filterMap slot.read).map (· ++ text) := by
    rw [List.filterMap_map, List.map_filterMap]
    exact List.filterMap_congr hadd
  unfold unlessEmpty at h ⊢
  rw [if_neg (List.append_ne_nil_of_right_ne_nil before hsolid)]
  unfold Slot.write
  by_cases hbefore : before = []
  · subst hbefore
    rw [if_pos rfl] at h
    have hnone : items.any (fun item => (slot.read item).isSome) = false := by
      rw [List.any_eq_false]
      intro item hitem
      rw [List.filterMap_eq_nil_iff.mp h item hitem]
      decide
    rw [hnone, if_neg Bool.false_ne_true, List.filterMap_append, h, List.filterMap_cons, hfresh]
    rfl
  · rw [if_neg hbefore] at h
    have hsome : items.any (fun item => (slot.read item).isSome) = true := by
      obtain ⟨item, hitem, hread⟩ := List.mem_filterMap.mp (h ▸ List.mem_singleton_self before)
      exact List.any_eq_true.mpr ⟨item, hitem, by rw [hread]; rfl⟩
    rw [hsome, if_pos rfl, hmap, h]
    rfl

/-- Writing to a slot leaves the items of another kind. -/
theorem write_other {β : Type} (slot : Slot) {text : Text} {items : List OutputItem}
    {read : OutputItem → Option β} (hadd : ∀ item, read (slot.add text item) = read item)
    (hfresh : read (slot.fresh text) = none) :
    (slot.write text items).filterMap read = items.filterMap read := by
  unfold Slot.write
  split
  · rw [List.filterMap_map]
    exact List.filterMap_congr fun item _ => hadd item
  · rw [List.filterMap_append, List.filterMap_cons, hfresh, List.filterMap_nil, List.append_nil]

theorem reasoningOf_append (first second : List Piece) :
    reasoningOf (first ++ second) = reasoningOf first ++ reasoningOf second := by
  simp [reasoningOf]

theorem contentOf_append (first second : List Piece) :
    contentOf (first ++ second) = contentOf first ++ contentOf second := by
  simp [contentOf]

/-- The items of an answer's layout: one of the reasoning and one of the content, unless empty, and
one a call. -/
theorem layout_kinds {shown : List Piece} (hsolid : ∀ piece ∈ shown, piece.Solid) :
    (layout shown).filterMap OutputItem.reasoning? = unlessEmpty (reasoningOf shown) ∧
      (layout shown).filterMap OutputItem.message? = unlessEmpty (contentOf shown) ∧
      (layout shown).filterMap OutputItem.call? = calls shown := by
  induction shown using List.reverseRecOn with
  | nil => exact ⟨rfl, rfl, rfl⟩
  | append_singleton shown piece ih =>
    obtain ⟨hreasoning, hcontent, hcalls⟩ :=
      ih fun piece hpiece => hsolid piece (List.mem_append_left _ hpiece)
    have hpiece := hsolid piece (List.mem_append_right _ (List.mem_singleton_self piece))
    rw [layout_concat, reasoningOf_append, contentOf_append, calls_append]
    cases piece with
    | reasoning text =>
      refine ⟨?_, ?_, ?_⟩
      · rw [show reasoningOf [.reasoning text] = text from List.append_nil text]
        exact write_own reasoningSlot (fun item _ => reasoning?_addReasoning text item) rfl hpiece hreasoning
      · rw [show contentOf [.reasoning text] = [] from rfl, List.append_nil, ← hcontent]
        exact write_other reasoningSlot (message?_addReasoning text) rfl
      · rw [show calls [.reasoning text] = [] from rfl, List.append_nil, ← hcalls]
        exact write_other reasoningSlot (call?_addReasoning text) rfl
    | content text =>
      refine ⟨?_, ?_, ?_⟩
      · rw [show reasoningOf [.content text] = [] from rfl, List.append_nil, ← hreasoning]
        exact write_other messageSlot (reasoning?_addContent text) rfl
      · rw [show contentOf [.content text] = text from List.append_nil text]
        refine write_own messageSlot (fun item hitem => ?_) ?_ hpiece hcontent
        · exact message?_addContent (kept_layout shown item hitem)
        · exact congrArg some (List.append_nil text)
      · rw [show calls [.content text] = [] from rfl, List.append_nil, ← hcalls]
        exact write_other messageSlot (call?_addContent text) rfl
    | call function =>
      unfold place
      rw [List.filterMap_append, List.filterMap_append, List.filterMap_append, hreasoning, hcontent,
        hcalls]
      refine ⟨?_, ?_, rfl⟩
      · rw [show reasoningOf [.call function] = [] from rfl, List.append_nil]
        exact List.append_nil _
      · rw [show contentOf [.call function] = [] from rfl, List.append_nil]
        exact List.append_nil _

/-! ## The first item -/

/-- A piece of reasoning. -/
def Piece.isReasoning : Piece → Bool
  | reasoning _ => true
  | _ => false

/-- A reasoning item. -/
def OutputItem.isReasoning (item : OutputItem) : Bool :=
  item.reasoning?.isSome

theorem write_head {slot : Slot} {text : Text} {items : List OutputItem} (hitems : items ≠ [])
    (hadd : ∀ item, (slot.add text item).isReasoning = item.isReasoning) :
    (slot.write text items).head?.map OutputItem.isReasoning =
      items.head?.map OutputItem.isReasoning := by
  cases items with
  | nil => exact absurd rfl hitems
  | cons item items =>
    unfold Slot.write
    split
    · exact congrArg some (hadd item)
    · rfl

/-- The first item is the reasoning iff the first piece is. -/
theorem layout_head {shown : List Piece} :
    (layout shown).head?.map OutputItem.isReasoning = shown.head?.map Piece.isReasoning := by
  induction shown using List.reverseRecOn with
  | nil => rfl
  | append_singleton shown piece ih =>
    rw [layout_concat]
    by_cases hnil : layout shown = []
    · have hshown : shown = [] := by
        rw [hnil] at ih
        cases shown with
        | nil => rfl
        | cons first rest => cases ih
      subst hshown
      cases piece <;> rfl
    · have hshown : shown ≠ [] := by
        rintro rfl
        exact hnil rfl
      rw [List.head?_append_of_ne_nil shown hshown, ← ih]
      cases piece with
      | reasoning text =>
        exact write_head hnil fun item => by
          rw [OutputItem.isReasoning, reasoningSlot, reasoning?_addReasoning, Option.isSome_map]
          rfl
      | content text =>
        exact write_head hnil fun item => by
          rw [OutputItem.isReasoning, messageSlot, reasoning?_addContent]
          rfl
      | call function =>
        unfold place
        rw [List.head?_append_of_ne_nil _ hnil]

/-! ## The finished output -/

/-- The output once the open items are finished. -/
def closed (items : List OutputItem) : List OutputItem :=
  if items = [] then [messageOutputItem []] else items.map ResponseStreamState.complete

/-- An item of a finished output. -/
def OutputItem.Finished (item : OutputItem) : Prop :=
  (∃ text, item = .reasoning text) ∨ (∃ text, item = messageOutputItem text) ∨
    ∃ function, item = callItem function

theorem finished_complete {item : OutputItem} (h : item.Kept) :
    (ResponseStreamState.complete item).Finished := by
  cases item with
  | reasoning text => exact Or.inl ⟨text, rfl⟩
  | message parts status =>
    obtain ⟨text, rfl⟩ := List.length_eq_one_iff.mp h
    exact Or.inr (Or.inl ⟨text, rfl⟩)
  | functionCall name arguments status =>
    exact Or.inr (Or.inr ⟨⟨name, arguments⟩, rfl⟩)

@[simp] theorem reasoning?_complete (item : OutputItem) :
    (ResponseStreamState.complete item).reasoning? = item.reasoning? := by
  cases item <;> rfl

@[simp] theorem message?_complete (item : OutputItem) :
    (ResponseStreamState.complete item).message? = item.message? := by
  cases item <;> rfl

@[simp] theorem call?_complete (item : OutputItem) :
    (ResponseStreamState.complete item).call? = item.call? := by
  cases item <;> rfl

/-- Finished items of one kind are those of their texts. -/
theorem eq_callItems {items : List OutputItem} (hfinished : ∀ item ∈ items, item.Finished)
    (hreasoning : items.filterMap OutputItem.reasoning? = [])
    (hmessage : items.filterMap OutputItem.message? = []) :
    items = (items.filterMap OutputItem.call?).map callItem := by
  induction items with
  | nil => rfl
  | cons item items ih =>
    obtain ⟨hitem, hitems⟩ := List.forall_mem_cons.mp hfinished
    rcases hitem with ⟨text, rfl⟩ | ⟨text, rfl⟩ | ⟨function, rfl⟩
    · cases hreasoning
    · cases hmessage
    · exact congrArg (callItem function :: ·) (ih hitems hreasoning hmessage)

theorem eq_messageItems {items : List OutputItem} (hfinished : ∀ item ∈ items, item.Finished)
    (hreasoning : items.filterMap OutputItem.reasoning? = [])
    (hcalls : items.filterMap OutputItem.call? = []) :
    items = (items.filterMap OutputItem.message?).map messageOutputItem := by
  induction items with
  | nil => rfl
  | cons item items ih =>
    obtain ⟨hitem, hitems⟩ := List.forall_mem_cons.mp hfinished
    rcases hitem with ⟨text, rfl⟩ | ⟨text, rfl⟩ | ⟨function, rfl⟩
    · cases hreasoning
    · have hrest := ih hitems hreasoning hcalls
      show _ = messageOutputItem ([text].flatten) :: _
      rw [List.flatten_singleton]
      exact congrArg (messageOutputItem text :: ·) hrest
    · cases hcalls

/-- An output without a beginning of reasoning holds calls or one message. -/
theorem finished_tail {items : List OutputItem} (hfinished : ∀ item ∈ items, item.Finished)
    (hreasoning : items.filterMap OutputItem.reasoning? = []) {content : Text}
    {functions : List FunctionCall}
    (hmessage : items.filterMap OutputItem.message? = unlessEmpty content)
    (hcalls : items.filterMap OutputItem.call? = functions)
    (halone : functions ≠ [] → content = []) :
    items = if functions ≠ [] then functions.map callItem
      else (unlessEmpty content).map messageOutputItem := by
  split
  · rename_i hsome
    rw [halone hsome] at hmessage
    rw [← hcalls]
    exact eq_callItems hfinished hreasoning hmessage
  · rename_i hnone
    rw [← hmessage]
    exact eq_messageItems hfinished hreasoning (hcalls.trans (not_not.mp hnone))

theorem unlessEmpty_eq_nil {text : Text} : unlessEmpty text = [] ↔ text = [] := by
  unfold unlessEmpty
  split
  · exact iff_of_true rfl ‹_›
  · exact iff_of_false (List.cons_ne_nil text []) ‹_›

theorem unlessEmpty_of_ne {text : Text} (h : text ≠ []) : unlessEmpty text = [text] :=
  if_neg h

/-- The output items of a parsed message, with its parts in place. -/
theorem responseOutputItems_eq (parsed : ParsedModelResponse) :
    responseOutputItems parsed = parsed.reasoningContent.toList.map OutputItem.reasoning ++
      if parsed.toolCalls ≠ [] then parsed.toolCalls.map callItem
      else if parsed.content ≠ [] ∨ parsed.reasoningContent = none then
        [messageOutputItem parsed.content]
      else [] := by
  obtain ⟨reasoning, content, functions⟩ := parsed
  unfold responseOutputItems
  cases functions with
  | cons function functions => cases reasoning <;> rfl
  | nil => cases reasoning <;> cases content <;> rfl

section

variable {shown : List Piece} {parsed : ParsedModelResponse}

theorem layout_eq_nil (hsolid : ∀ piece ∈ shown, piece.Solid) (h : layout shown = []) :
    reasoningOf shown = [] ∧ contentOf shown = [] ∧ calls shown = [] := by
  obtain ⟨hreasoning, hcontent, hcalls⟩ := layout_kinds hsolid
  rw [h] at hreasoning hcontent hcalls
  exact ⟨unlessEmpty_eq_nil.mp hreasoning.symm, unlessEmpty_eq_nil.mp hcontent.symm, hcalls.symm⟩

theorem complete_kinds (hsolid : ∀ piece ∈ shown, piece.Solid) :
    ((layout shown).map ResponseStreamState.complete).filterMap OutputItem.reasoning? =
        unlessEmpty (reasoningOf shown) ∧
      ((layout shown).map ResponseStreamState.complete).filterMap OutputItem.message? =
        unlessEmpty (contentOf shown) ∧
      ((layout shown).map ResponseStreamState.complete).filterMap OutputItem.call? =
        calls shown := by
  obtain ⟨hreasoning, hcontent, hcalls⟩ := layout_kinds hsolid
  simp only [List.filterMap_map, Function.comp_def, reasoning?_complete, message?_complete,
    call?_complete]
  exact ⟨hreasoning, hcontent, hcalls⟩

theorem complete_finished (shown : List Piece) :
    ∀ item ∈ (layout shown).map ResponseStreamState.complete, item.Finished := by
  intro item hitem
  obtain ⟨before, hbefore, rfl⟩ := List.mem_map.mp hitem
  exact finished_complete (kept_layout shown before hbefore)

/-- The streamed output is that of the parsed message, when its shape allows it. -/
theorem closed_layout_of_shape (hsolid : ∀ piece ∈ shown, piece.Solid)
    (hreasoning : reasoningOf shown = parsed.reasoningContent.getD [])
    (hcontent : contentOf shown = parsed.content) (hcalls : calls shown = parsed.toolCalls)
    (hempty : parsed.reasoningContent ≠ some [])
    (halone : parsed.toolCalls ≠ [] → parsed.content = [])
    (hfirst : reasoningOf shown ≠ [] → shown.head?.map Piece.isReasoning = some true) :
    closed (layout shown) = responseOutputItems parsed := by
  obtain ⟨hkinds, hmessages, hfunctions⟩ := complete_kinds hsolid
  have hfinished := complete_finished shown
  rw [hcontent] at hmessages
  rw [hcalls] at hfunctions
  rw [responseOutputItems_eq]
  unfold closed
  cases hparsed : parsed.reasoningContent with
  | none =>
    rw [hparsed] at hreasoning
    rw [hreasoning] at hkinds
    have htail := finished_tail hfinished hkinds hmessages hfunctions halone
    split
    · rename_i hnil
      obtain ⟨-, hnone, hnocalls⟩ := layout_eq_nil hsolid hnil
      rw [hcontent] at hnone
      rw [hcalls] at hnocalls
      simp [hnone, hnocalls]
    · rename_i hsome
      rw [htail]
      split
      · rfl
      · have hne : parsed.content ≠ [] := by
          rename_i hnocalls
          intro hnone
          rw [if_neg hnocalls, hnone] at htail
          exact hsome (List.map_eq_nil_iff.mp htail)
        rw [unlessEmpty_of_ne hne]
        simp
  | some text =>
    have htext : text ≠ [] := fun h => hempty (by rw [hparsed, h])
    rw [hparsed] at hreasoning
    have hne : reasoningOf shown ≠ [] := hreasoning ▸ htext
    have hhead := hfirst hne
    rw [← layout_head] at hhead
    cases hlayout : layout shown with
    | nil =>
      rw [hlayout] at hhead
      cases hhead
    | cons item items =>
      rw [hlayout] at hhead hkinds hmessages hfunctions hfinished
      rw [if_neg (List.cons_ne_nil item items)]
      obtain ⟨before, rfl⟩ : ∃ before, item = .reasoning before := by
        cases item with
        | reasoning before => exact ⟨before, rfl⟩
        | _ => cases hhead
      obtain ⟨hbefore, hkinds⟩ := List.cons.inj (hkinds.trans (unlessEmpty_of_ne hne))
      obtain ⟨-, hfinished⟩ := List.forall_mem_cons.mp hfinished
      have htail := finished_tail hfinished hkinds hmessages hfunctions halone
      rw [List.map_cons, htail]
      unfold unlessEmpty
      have hfirst : before = text := hbefore.trans hreasoning
      by_cases hnocalls : parsed.toolCalls = []
      · by_cases hnone : parsed.content = []
        · simp [hnocalls, hnone, ResponseStreamState.complete, hfirst]
        · simp [hnocalls, hnone, ResponseStreamState.complete, hfirst]
      · simp [hnocalls, ResponseStreamState.complete, hfirst]

theorem filterMap_reasoning_items (parsed : ParsedModelResponse) :
    (responseOutputItems parsed).filterMap OutputItem.reasoning? =
      parsed.reasoningContent.toList := by
  have hcalls : ∀ functions : List FunctionCall,
      (functions.map callItem).filterMap OutputItem.reasoning? = [] := by
    intro functions
    rw [List.filterMap_map, List.filterMap_eq_nil_iff]
    exact fun _ _ => rfl
  have hreasoning : (parsed.reasoningContent.toList.map OutputItem.reasoning).filterMap
      OutputItem.reasoning? = parsed.reasoningContent.toList := by
    cases parsed.reasoningContent <;> rfl
  rw [responseOutputItems_eq, List.filterMap_append, hreasoning]
  split
  · rw [hcalls, List.append_nil]
  · split <;> exact List.append_nil _

/-- **The streamed output is that of the parsed message** iff the message's reasoning is absent or
not empty, no content stands beside a tool call, and reasoning was shown first. -/
theorem closed_layout_eq_iff (hsolid : ∀ piece ∈ shown, piece.Solid)
    (hreasoning : reasoningOf shown = parsed.reasoningContent.getD [])
    (hcontent : contentOf shown = parsed.content) (hcalls : calls shown = parsed.toolCalls) :
    closed (layout shown) = responseOutputItems parsed ↔
      parsed.reasoningContent ≠ some [] ∧ (parsed.toolCalls ≠ [] → parsed.content = []) ∧
        (reasoningOf shown ≠ [] → shown.head?.map Piece.isReasoning = some true) := by
  refine ⟨fun h => ⟨?_, ?_, ?_⟩, fun ⟨hempty, halone, hfirst⟩ =>
    closed_layout_of_shape hsolid hreasoning hcontent hcalls hempty halone hfirst⟩
  · intro hempty
    have hkinds := congrArg (List.filterMap OutputItem.reasoning?) h
    rw [filterMap_reasoning_items, hempty] at hkinds
    rw [hempty] at hreasoning
    unfold closed at hkinds
    split at hkinds
    · cases hkinds
    · rw [(complete_kinds hsolid).1, hreasoning] at hkinds
      cases hkinds
  · intro hsome
    have hne : layout shown ≠ [] := fun hnil =>
      hsome (hcalls ▸ (layout_eq_nil hsolid hnil).2.2)
    have hkinds := congrArg (List.filterMap OutputItem.message?) h
    unfold closed at hkinds
    rw [if_neg hne, (complete_kinds hsolid).2.1, hcontent, responseOutputItems_eq, if_pos hsome,
      List.filterMap_append] at hkinds
    refine unlessEmpty_eq_nil.mp (hkinds.trans ?_)
    rw [List.append_eq_nil_iff, List.filterMap_eq_nil_iff, List.filterMap_eq_nil_iff]
    constructor
    · intro item hitem
      obtain ⟨text, -, rfl⟩ := List.mem_map.mp hitem
      rfl
    · intro item hitem
      obtain ⟨function, -, rfl⟩ := List.mem_map.mp hitem
      rfl
  · intro hne
    have hnil : layout shown ≠ [] := fun hnil => hne (layout_eq_nil hsolid hnil).1
    rw [← layout_head]
    cases hparsed : parsed.reasoningContent with
    | none =>
      rw [hparsed] at hreasoning
      exact absurd hreasoning hne
    | some text =>
      have hhead := congrArg List.head? h
      unfold closed at hhead
      rw [if_neg hnil, responseOutputItems_eq, hparsed] at hhead
      cases hlayout : layout shown with
      | nil => exact absurd hlayout hnil
      | cons item items =>
        rw [hlayout] at hhead
        cases item with
        | reasoning before => rfl
        | _ => cases hhead

end

end SparseVllm.Serving
