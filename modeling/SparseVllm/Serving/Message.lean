import SparseVllm.Lib.Outcome
import SparseVllm.Serving.Parsing

/-!
# The messages the adapter accepts

`Acceptable` says of a parsed value, field by field, when `_normalize_parsed_message` returns; a
value it accepts is then read off its fields (`normalizeParsedMessage_of_acceptable`).

Headlines:
* **`normalizeToolCall_ok_iff`**: a tool call is accepted iff it names a function.
* **`normalizeParsedMessage_ok_iff`**: a message is accepted iff it is `Acceptable`.
-/

namespace SparseVllm.Serving

open Lib

/-! ## Reading a message -/

namespace Value

/-- The entries of a mapping. -/
def entries : Value → List (String × Value)
  | .dict items => items
  | _ => []

/-- `parsed.get(key, default)`. -/
def field (parsed : Value) (key : String) (default : Value) : Value :=
  (parsed.entries.lookup key).getD default

/-- The name the message gives its reasoning. -/
def reasoningKey? (parsed : Value) : Option String :=
  reasoningKeys.find? fun key => (parsed.entries.lookup key).isSome

/-- The reasoning of a message. -/
def reasoning (parsed : Value) : Value :=
  match parsed.reasoningKey? with
  | .some key => parsed.field key .none
  | .none => .none

/-- The content of a message. -/
def content (parsed : Value) : Value :=
  parsed.field "content" (.str [])

/-- The tool calls of a message. -/
def toolCalls (parsed : Value) : Value :=
  parsed.field "tool_calls" (.list [])

end Value

/-- A function object with a non-empty name. -/
def NamesFunction (function : List (String × Value)) : Prop :=
  ∃ name, name ≠ [] ∧ function.lookup "name" = some (.str name)

/-- A tool call that names a function. -/
def IsToolCall : Value → Prop
  | .dict toolCall =>
    match (toolCall.lookup "function").getD (.dict toolCall) with
    | .dict function => NamesFunction function
    | _ => False
  | _ => False

/-- The messages `_normalize_parsed_message` turns into an answer. -/
structure Acceptable (parseTools : Bool) (parsed : Value) : Prop where
  isMessage : ∃ items, parsed = .dict items
  role : (parsed.field "role" (.str "assistant".toList)).isText "assistant".toList = true
  reasoning : parsed.reasoning = .none ∨ ∃ text, parsed.reasoning = .str text
  content : ∃ text, parsed.content = .str text
  toolCalls : ∃ calls, parsed.toolCalls = .list calls ∧ (parseTools = false → calls = []) ∧
    ∀ call ∈ calls, IsToolCall call
  others : ∀ item ∈ parsed.entries, item.1 ≠ "role" → item.1 ≠ "content" → item.1 ≠ "tool_calls" →
    parsed.reasoningKey? ≠ some item.1 → item.2.isBlank = true

/-! ## Tool calls -/

theorem normalizeToolCall_ok_iff (toolCall : Value) :
    (∃ call, normalizeToolCall toolCall = .ok call) ↔ IsToolCall toolCall := by
  unfold normalizeToolCall IsToolCall
  cases toolCall with
  | dict items =>
    dsimp only
    generalize (items.lookup "function").getD (.dict items) = function
    cases function with
    | dict function =>
      unfold NamesFunction
      cases hname : function.lookup "name" with
      | none => simp [hname]
      | some name =>
        cases name with
        | str name =>
          cases name with
          | nil => simp [hname]
          | cons c name =>
            refine iff_of_true ?_ ⟨c :: name, List.cons_ne_nil c name, hname⟩
            simp only [hname, Option.getD_some]
            split <;> simp
        | _ => simp [hname]
    | _ => simp
  | _ => simp

/-- An accepted tool call has a name. -/
theorem name_ne_nil {toolCall : Value} {call : FunctionCall}
    (h : normalizeToolCall toolCall = .ok call) : call.name ≠ [] := by
  unfold normalizeToolCall at h
  split at h
  · split at h
    · split at h
      · cases h
      · rename_i name hname _
        split at h <;> cases h <;> exact hname
      · cases h
    · cases h
  · cases h

theorem normalizeToolCalls_ok_iff (toolCalls : List Value) :
    (∃ calls, normalizeToolCalls toolCalls = .ok calls) ↔ ∀ call ∈ toolCalls, IsToolCall call := by
  induction toolCalls with
  | nil => simp [normalizeToolCalls]
  | cons toolCall rest ih =>
    rw [List.forall_mem_cons, ← normalizeToolCall_ok_iff, ← ih, normalizeToolCalls]
    cases normalizeToolCall toolCall with
    | error exc => simp [bind, Except.bind]
    | ok call =>
      cases normalizeToolCalls rest with
      | error exc => simp [bind, Except.bind]
      | ok calls => simp [bind, Except.bind, pure, Except.pure]

/-! ## Messages -/

theorem popFirst_eq (keys : List String) (parsed : List (String × Value)) :
    popFirst keys parsed =
      match keys.find? fun key => (parsed.lookup key).isSome with
      | some key => ((parsed.lookup key).getD .none, popKey key parsed)
      | none => (.none, parsed) := by
  induction keys with
  | nil => rfl
  | cons key keys ih =>
    unfold popFirst
    rw [List.find?_cons]
    cases hkey : parsed.lookup key with
    | some value => simp [hkey]
    | none => simpa using ih

/-- The message without its reasoning, its role, its content and its tool calls. -/
def remaining (parsed : Value) : List (String × Value) :=
  popKey "tool_calls" (popKey "content" (popFirst reasoningKeys (popKey "role" parsed.entries)).2)

theorem lookup_popRole {key : String} (hkey : key ≠ "role") (items : List (String × Value)) :
    (popKey "role" items).lookup key = items.lookup key := by
  rw [lookup_popKey, if_neg hkey]

theorem popReasoning_eq (parsed : Value) :
    popFirst reasoningKeys (popKey "role" parsed.entries) =
      (parsed.reasoning, match parsed.reasoningKey? with
        | some key => popKey key (popKey "role" parsed.entries)
        | none => popKey "role" parsed.entries) := by
  have hfind : (reasoningKeys.find? fun key => ((popKey "role" parsed.entries).lookup key).isSome) =
      parsed.reasoningKey? := by
    unfold Value.reasoningKey? reasoningKeys
    simp only [List.find?_cons, List.find?_nil, lookup_popRole (show "thinking" ≠ "role" by decide),
      lookup_popRole (show "reasoning_content" ≠ "role" by decide),
      lookup_popRole (show "reasoning" ≠ "role" by decide)]
  rw [popFirst_eq, hfind]
  unfold Value.reasoning
  cases hkey : parsed.reasoningKey? with
  | none => rfl
  | some key =>
    have hmem : key ∈ reasoningKeys := List.mem_of_find?_eq_some hkey
    have hrole : key ≠ "role" := by
      rintro rfl
      revert hmem
      decide
    simp only [lookup_popRole hrole, Value.field]

theorem ne_of_reasoningKey? {parsed : Value} {key other : String}
    (hkey : parsed.reasoningKey? = some key) (hother : other ∉ reasoningKeys) : other ≠ key := by
  rintro rfl
  exact hother (List.mem_of_find?_eq_some hkey)

/-- Popping the reasoning leaves the other fields. -/
theorem lookup_afterReasoning (parsed : Value) {key : String} (hrole : key ≠ "role")
    (hkey : key ∉ reasoningKeys) :
    (popFirst reasoningKeys (popKey "role" parsed.entries)).2.lookup key =
      parsed.entries.lookup key := by
  rw [popReasoning_eq]
  cases hreasoning : parsed.reasoningKey? with
  | none => exact lookup_popRole hrole parsed.entries
  | some name =>
    dsimp only
    rw [lookup_popKey, if_neg (ne_of_reasoningKey? hreasoning hkey), lookup_popRole hrole]

theorem mem_popKey {key : String} {items : List (String × Value)} {item : String × Value} :
    item ∈ popKey key items ↔ item ∈ items ∧ item.1 ≠ key := by
  simp [popKey]

theorem mem_remaining {parsed : Value} {item : String × Value} :
    item ∈ remaining parsed ↔ item ∈ parsed.entries ∧ item.1 ≠ "role" ∧ item.1 ≠ "content" ∧
      item.1 ≠ "tool_calls" ∧ parsed.reasoningKey? ≠ some item.1 := by
  unfold remaining
  rw [mem_popKey, mem_popKey, popReasoning_eq]
  cases hreasoning : parsed.reasoningKey? with
  | none =>
    rw [mem_popKey]
    simp only [ne_eq, reduceCtorEq, not_false_eq_true, and_true]
    tauto
  | some key =>
    rw [mem_popKey, mem_popKey]
    simp only [ne_eq, Option.some.injEq, eq_comm (a := key)]
    tauto

/-- The entries the adapter does not know are all blank. -/
theorem remaining_blank_iff (parsed : Value) :
    ((remaining parsed).filter fun item => !item.2.isBlank) = [] ↔
      ∀ item ∈ parsed.entries, item.1 ≠ "role" → item.1 ≠ "content" → item.1 ≠ "tool_calls" →
        parsed.reasoningKey? ≠ some item.1 → item.2.isBlank = true := by
  rw [List.filter_eq_nil_iff]
  simp only [Bool.not_eq_true', Bool.not_eq_false, mem_remaining]
  exact ⟨fun h item hitem hrole hcontent hcalls hkey =>
      h item ⟨hitem, hrole, hcontent, hcalls, hkey⟩,
    fun h item ⟨hitem, hrole, hcontent, hcalls, hkey⟩ => h item hitem hrole hcontent hcalls hkey⟩

/-- A message through its fields. -/
theorem normalizeParsedMessage_eq (parseTools : Bool) {parsed : Value}
    (hmessage : ∃ items, parsed = .dict items) :
    normalizeParsedMessage parseTools parsed = (do
      let role := parsed.field "role" (.str "assistant".toList)
      refuseIf (!role.isText "assistant".toList) (.roleNotAssistant role)
      refuseIf (parsed.toolCalls.truthy && !parseTools) .toolsNotEnabled
      let unexpected := (remaining parsed).filter fun item => !item.2.isBlank
      refuseIf (!unexpected.isEmpty) (.unsupportedFields ((unexpected.map Prod.fst).mergeSort))
      let reasoningContent ← reasoningText parsed.reasoning
      let content ← contentText parsed.content
      let rawToolCalls ← toolCallList parsed.toolCalls
      let toolCalls ← normalizeToolCalls rawToolCalls
      return { reasoningContent, content, toolCalls }) := by
  obtain ⟨items, rfl⟩ := hmessage
  have hreasoning : (popFirst reasoningKeys (popKey "role" items)).1 =
      Value.reasoning (.dict items) :=
    congrArg Prod.fst (popReasoning_eq (.dict items))
  have hcontent : (popFirst reasoningKeys (popKey "role" items)).2.lookup "content" =
      items.lookup "content" :=
    lookup_afterReasoning (.dict items) (by decide) (by decide)
  have hcalls : (popKey "content" (popFirst reasoningKeys (popKey "role" items)).2).lookup
      "tool_calls" = items.lookup "tool_calls" := by
    rw [lookup_popKey, if_neg (by decide)]
    exact lookup_afterReasoning (.dict items) (by decide) (by decide)
  unfold normalizeParsedMessage
  simp only [hcontent, hcalls, hreasoning]
  rfl

theorem isMessage_of_ok {parseTools : Bool} {parsed : Value} {answer : ParsedModelResponse}
    (h : normalizeParsedMessage parseTools parsed = .ok answer) : ∃ items, parsed = .dict items := by
  cases parsed with
  | dict items => exact ⟨items, rfl⟩
  | _ => cases h

theorem refuseIf_ok_iff (fails : Bool) (complaint : Complaint) (u : Unit) :
    refuseIf fails complaint = .ok u ↔ fails = false := by
  cases fails <;> simp [refuseIf]

theorem reasoningText_ok_iff (value : Value) (text : Option Text) :
    reasoningText value = .ok text ↔ value = (text.map Value.str).getD .none := by
  cases text <;> cases value <;> simp [reasoningText]

theorem contentText_ok_iff (value : Value) (text : Text) :
    contentText value = .ok text ↔ value = .str text := by
  cases value <;> simp [contentText]

theorem toolCallList_ok_iff (value : Value) (calls : List Value) :
    toolCallList value = .ok calls ↔ value = .list calls := by
  cases value <;> simp [toolCallList]

/-- The checks a message passes, and the answer it becomes. -/
theorem normalizeParsedMessage_eq_ok_iff {parseTools : Bool} {parsed : Value}
    (hmessage : ∃ items, parsed = .dict items) (answer : ParsedModelResponse) :
    normalizeParsedMessage parseTools parsed = .ok answer ↔
      (parsed.field "role" (.str "assistant".toList)).isText "assistant".toList = true ∧
      (parsed.toolCalls.truthy && !parseTools) = false ∧
      ((remaining parsed).filter fun item => !item.2.isBlank) = [] ∧
      parsed.reasoning = (answer.reasoningContent.map Value.str).getD .none ∧
      parsed.content = .str answer.content ∧
      ∃ calls, parsed.toolCalls = .list calls ∧ normalizeToolCalls calls = .ok answer.toolCalls := by
  rw [normalizeParsedMessage_eq parseTools hmessage]
  simp only [bind_eq_ok_iff, refuseIf_ok_iff, reasoningText_ok_iff, contentText_ok_iff,
    toolCallList_ok_iff, exists_const, Bool.not_eq_eq_eq_not, Bool.not_false, List.isEmpty_iff]
  constructor
  · rintro ⟨hrole, htools, hothers, reasoning, hreasoning, content, hcontent, calls, hcalls,
      functions, hfunctions, h⟩
    cases h
    exact ⟨hrole, htools, hothers, hreasoning, hcontent, calls, hcalls, hfunctions⟩
  · rintro ⟨hrole, htools, hothers, hreasoning, hcontent, calls, hcalls, hfunctions⟩
    exact ⟨hrole, htools, hothers, _, hreasoning, _, hcontent, calls, hcalls, _, hfunctions, rfl⟩

/-- A message is accepted iff it is `Acceptable`. -/
theorem normalizeParsedMessage_ok_iff (parseTools : Bool) (parsed : Value) :
    (∃ answer, normalizeParsedMessage parseTools parsed = .ok answer) ↔
      Acceptable parseTools parsed := by
  constructor
  · rintro ⟨answer, h⟩
    have hmessage := isMessage_of_ok h
    obtain ⟨hrole, htools, hothers, hreasoning, hcontent, calls, hcalls, hfunctions⟩ :=
      (normalizeParsedMessage_eq_ok_iff hmessage answer).mp h
    refine ⟨hmessage, hrole, ?_, ⟨_, hcontent⟩,
      ⟨calls, hcalls, fun hoff => ?_, (normalizeToolCalls_ok_iff calls).mp ⟨_, hfunctions⟩⟩,
      (remaining_blank_iff parsed).mp hothers⟩
    · cases htext : answer.reasoningContent with
      | none => exact Or.inl (by rw [hreasoning, htext]; rfl)
      | some text => exact Or.inr ⟨text, by rw [hreasoning, htext]; rfl⟩
    · simpa [hcalls, hoff, Value.truthy] using htools
  · intro h
    obtain ⟨calls, hcalls, henabled, hwell⟩ := h.toolCalls
    obtain ⟨content, hcontent⟩ := h.content
    obtain ⟨functions, hfunctions⟩ := (normalizeToolCalls_ok_iff calls).mpr hwell
    have hreasoning : ∃ text : Option Text,
        parsed.reasoning = (text.map Value.str).getD .none := by
      rcases h.reasoning with hnone | ⟨text, htext⟩
      · exact ⟨none, hnone⟩
      · exact ⟨some text, htext⟩
    obtain ⟨reasoning, hreasoning⟩ := hreasoning
    refine ⟨⟨reasoning, content, functions⟩,
      (normalizeParsedMessage_eq_ok_iff h.isMessage _).mpr ⟨h.role, ?_,
        (remaining_blank_iff parsed).mpr h.others, hreasoning, hcontent, calls, hcalls,
        hfunctions⟩⟩
    cases parseTools with
    | true => simp
    | false => simp [hcalls, henabled rfl, Value.truthy]

/-! ## Exceptions of the normaliser -/

theorem kind_of_normalizeToolCall {toolCall : Value} {exc : PyException}
    (h : normalizeToolCall toolCall = .error exc) : exc.kind = .responseParseError := by
  unfold normalizeToolCall at h
  split at h
  · split at h
    · split at h
      · cases h
        rfl
      · split at h <;> cases h
      · cases h
        rfl
    · cases h
      rfl
  · cases h
    rfl

theorem kind_of_normalizeToolCalls {toolCalls : List Value} {exc : PyException}
    (h : normalizeToolCalls toolCalls = .error exc) : exc.kind = .responseParseError := by
  induction toolCalls with
  | nil => cases h
  | cons toolCall rest ih =>
    rw [normalizeToolCalls] at h
    cases hcall : normalizeToolCall toolCall with
    | error exc' =>
      rw [hcall] at h
      cases h
      exact kind_of_normalizeToolCall hcall
    | ok call =>
      cases hrest : normalizeToolCalls rest with
      | error exc' =>
        rw [hcall, hrest] at h
        cases h
        exact ih hrest
      | ok calls =>
        rw [hcall, hrest] at h
        cases h

/-- The normaliser raises `ResponseParseError`s only. -/
theorem yields_normalize (parseTools : Bool) (parsed : Value) :
    Yields (fun _ => True) (fun exc => exc.kind = .responseParseError)
      (normalizeParsedMessage parseTools parsed) := by
  have hrefuse : ∀ fails complaint, Yields (fun _ => True)
      (fun exc : PyException => exc.kind = .responseParseError) (refuseIf fails complaint) := by
    intro fails complaint
    cases fails <;> simp [refuseIf, Yields, responseParseError]
  cases parsed with
  | dict items =>
    rw [normalizeParsedMessage_eq parseTools ⟨items, rfl⟩]
    refine (hrefuse _ _).bind fun _ _ => (hrefuse _ _).bind fun _ _ => (hrefuse _ _).bind fun _ _ => ?_
    have hreasoning : Yields (fun _ => True)
        (fun exc : PyException => exc.kind = .responseParseError)
        (reasoningText (Value.reasoning (.dict items))) := by
      cases Value.reasoning (.dict items) <;> first | exact True.intro | exact rfl
    have hcontent : Yields (fun _ => True)
        (fun exc : PyException => exc.kind = .responseParseError)
        (contentText (Value.content (.dict items))) := by
      cases Value.content (.dict items) <;> first | exact True.intro | exact rfl
    have hcalls : Yields (fun _ => True)
        (fun exc : PyException => exc.kind = .responseParseError)
        (toolCallList (Value.toolCalls (.dict items))) := by
      cases Value.toolCalls (.dict items) <;> first | exact True.intro | exact rfl
    refine hreasoning.bind fun _ _ => hcontent.bind fun _ _ => hcalls.bind fun called _ => ?_
    refine Yields.bind (P := fun _ => True) ?_ fun _ _ => True.intro
    cases hnormal : normalizeToolCalls called with
    | ok calls => exact True.intro
    | error exc => exact kind_of_normalizeToolCalls hnormal
  | _ => exact rfl

end SparseVllm.Serving
