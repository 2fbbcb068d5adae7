import Mathlib.Data.List.DropRight
import SparseVllm.Lib.Occurrence

/-!
# The incremental detokenizer (`entrypoints/openai/detokenizer.py`)

Two decode streams give the visible and the raw text of each token as it comes; `finish` replaces both by
the decoding of the whole list. Each visible fragment is kept with the place of its raw one, so that
a length of the visible text can be mapped to one of the raw text.

## Results

* `finish_pushed`: finishing what was pushed gives the decoded texts, with one more fragment.
* `offset_pushed_append`, `rawOffset_finished`: the raw place of a visible one stays as tokens come and
  when the text is finished.
-/

namespace SparseVllm.Dispatcher

open Lib

abbrev Text := List Char

/-- The fragments that a decode stream gives for a list of tokens, after those of `history`. -/
def streamFrom (step : List Nat → Nat → Text) : List Nat → List Nat → Text
  | _, [] => []
  | history, tokenId :: tokenIds =>
    step history tokenId ++ streamFrom step (history ++ [tokenId]) tokenIds

/-- A fast tokenizer whose decoding extends its decode streams. -/
structure Tokenizer where
  /-- `DecodeStream(skip_special_tokens=True).step`, after the tokens of a history. -/
  visibleStep : List Nat → Nat → Text
  /-- `DecodeStream(skip_special_tokens=False).step`. -/
  rawStep : List Nat → Nat → Text
  /-- `tokenizer.decode(token_ids, skip_special_tokens)`. -/
  decode : Bool → List Nat → Text
  fragment : ∀ history tokenId, visibleStep history tokenId = rawStep history tokenId ∨
    visibleStep history tokenId = []
  visible_extends : ∀ tokenIds, streamFrom visibleStep [] tokenIds <+: decode true tokenIds
  raw_extends : ∀ tokenIds, streamFrom rawStep [] tokenIds <+: decode false tokenIds

/-- What the detokenizer and the dispatcher raise over the texts of a request. -/
inductive StreamError where
  | pushFinished
  | alreadyFinished
  | historyMismatch (observed final : List Nat)
  | visibleNotPrefix (incremental final : Text)
  | rawNotPrefix (incremental final : Text)
  | visibleOutside (visibleTextLen textLen : Nat)
  | rawLimitOutside (rawTextLimit rawTextLen : Nat)
  | fragmentOutside (visibleOffset visibleStart visibleEnd : Nat)
  | cannotAlign (visible raw : Text)
  | parserNotPrefix (parser raw : Text)
  | boundaryPrecedes (emitted boundary : Nat)
  | finalShorter (emitted final : Nat)
  | stopDisappeared
  deriving DecidableEq

/-- `_VisibleFragment`. -/
structure VisibleFragment where
  visibleStart : Nat
  text : Text
  rawStart : Nat
  rawText : Text

namespace VisibleFragment

/-- `visible_end`. -/
def visibleEnd (f : VisibleFragment) : Nat := f.visibleStart + f.text.length

/-- `raw_offset`. -/
def rawOffset (f : VisibleFragment) (visibleOffset : Nat) : Except StreamError Nat :=
  let relative := visibleOffset - f.visibleStart
  if visibleOffset < f.visibleStart ∨ f.visibleEnd ≤ visibleOffset then
    .error (.fragmentOutside visibleOffset f.visibleStart f.visibleEnd)
  else if f.text = f.rawText then .ok (f.rawStart + relative)
  else if f.rawText = [] then .ok f.rawStart
  else match find f.rawText f.text with
    | none => .error (.cannotAlign f.text f.rawText)
    | some first =>
      if find (f.rawText.drop (first + 1)) f.text = none then .ok (f.rawStart + first + relative)
      else .error (.cannotAlign f.text f.rawText)

theorem le_of_rawOffset {f : VisibleFragment} {visibleOffset o : Nat}
    (h : f.rawOffset visibleOffset = .ok o) : f.rawStart ≤ o := by
  unfold rawOffset at h
  dsimp only at h
  split at h
  · cases h
  split at h
  · cases h
    omega
  split at h
  · cases h
    exact le_refl _
  split at h
  · cases h
  split at h
  · cases h
    omega
  · cases h

theorem rawOffset_aligned {f : VisibleFragment} {x : Nat} (hstart : f.visibleStart ≤ x)
    (hend : x < f.visibleEnd) (h : f.text = f.rawText) :
    f.rawOffset x = .ok (f.rawStart + (x - f.visibleStart)) := by
  unfold rawOffset
  rw [if_neg (by omega), if_pos h]

end VisibleFragment

/-- `IncrementalDetokenizer`. -/
structure IncrementalDetokenizer where
  tokenIds : List Nat := []
  text : Text := []
  rawText : Text := []
  visibleFragments : List VisibleFragment := []
  finished : Bool := false

namespace IncrementalDetokenizer

/-- `_record_fragment`. -/
def recordFragment (d : IncrementalDetokenizer) (text rawText : Text) : IncrementalDetokenizer :=
  if text = [] then d
  else { d with visibleFragments :=
    d.visibleFragments ++ [⟨d.text.length, text, d.rawText.length, rawText⟩] }

/-- One token of `push`. -/
def pushToken (tk : Tokenizer) (d : IncrementalDetokenizer) (tokenId : Nat) : IncrementalDetokenizer :=
  let text := tk.visibleStep d.tokenIds tokenId
  let rawText := tk.rawStep d.tokenIds tokenId
  let d := d.recordFragment text rawText
  { d with
    tokenIds := d.tokenIds ++ [tokenId]
    text := d.text ++ text
    rawText := d.rawText ++ rawText }

/-- `push`. -/
def push (tk : Tokenizer) (tokenIds : List Nat) (d : IncrementalDetokenizer) :
    Except StreamError IncrementalDetokenizer :=
  if d.finished then .error .pushFinished else .ok (tokenIds.foldl (pushToken tk) d)

/-- The end of `finish`. -/
def canonical (tk : Tokenizer) (tokenIds : List Nat) (d : IncrementalDetokenizer) :
    Except StreamError IncrementalDetokenizer :=
  let finalText := tk.decode true tokenIds
  let finalRawText := tk.decode false tokenIds
  if ¬ d.text <+: finalText then .error (.visibleNotPrefix d.text finalText)
  else if ¬ d.rawText <+: finalRawText then .error (.rawNotPrefix d.rawText finalRawText)
  else .ok { d.recordFragment (finalText.drop d.text.length) (finalRawText.drop d.rawText.length) with
    text := finalText
    rawText := finalRawText
    finished := true }

/-- `finish`. -/
def finish (tk : Tokenizer) (tokenIds : List Nat) (d : IncrementalDetokenizer) :
    Except StreamError IncrementalDetokenizer := do
  if d.finished then .error .alreadyFinished
  else if ¬ d.tokenIds <+: tokenIds then .error (.historyMismatch d.tokenIds tokenIds)
  else if d.tokenIds.length < tokenIds.length then
    (d.push tk (tokenIds.drop d.tokenIds.length)).bind (canonical tk tokenIds)
  else canonical tk tokenIds d

/-- `raw_offset_for_visible_prefix`; the search is `bisect_right` over the ends of the fragments. -/
def rawOffsetForVisiblePrefix (d : IncrementalDetokenizer) (visibleTextLen rawTextLimit : Nat) :
    Except StreamError Nat :=
  if d.text.length < visibleTextLen then .error (.visibleOutside visibleTextLen d.text.length)
  else if d.rawText.length < rawTextLimit then .error (.rawLimitOutside rawTextLimit d.rawText.length)
  else match d.visibleFragments.find? fun f => decide (visibleTextLen < f.visibleEnd) with
    | none => .ok rawTextLimit
    | some f => (f.rawOffset visibleTextLen).map (min · rawTextLimit)

/-! ## What was pushed -/

variable (tk : Tokenizer)

/-- The detokenizer after a list of tokens. -/
def pushed (tokenIds : List Nat) : IncrementalDetokenizer := tokenIds.foldl (pushToken tk) {}

/-- The visible and the raw text of a list of tokens, as they come. -/
def visible (tokenIds : List Nat) : Text := streamFrom tk.visibleStep [] tokenIds

def raw (tokenIds : List Nat) : Text := streamFrom tk.rawStep [] tokenIds

theorem streamFrom_append (step : List Nat → Nat → Text) (history ids ids' : List Nat) :
    streamFrom step history (ids ++ ids') =
      streamFrom step history ids ++ streamFrom step (history ++ ids) ids' := by
  induction ids generalizing history with
  | nil => rw [List.nil_append, List.append_nil, streamFrom, List.nil_append]
  | cons tokenId ids ih =>
    rw [List.cons_append, streamFrom, streamFrom, ih, List.append_assoc, List.append_assoc]
    rfl

theorem visible_append (ids ids' : List Nat) :
    visible tk (ids ++ ids') = visible tk ids ++ streamFrom tk.visibleStep ids ids' := by
  have h : streamFrom tk.visibleStep [] (ids ++ ids') = _ := streamFrom_append _ _ _ _
  exact h

theorem raw_append (ids ids' : List Nat) :
    raw tk (ids ++ ids') = raw tk ids ++ streamFrom tk.rawStep ids ids' := by
  have h : streamFrom tk.rawStep [] (ids ++ ids') = _ := streamFrom_append _ _ _ _
  exact h

theorem prefix_visible {ids ids' : List Nat} (h : ids <+: ids') : visible tk ids <+: visible tk ids' := by
  obtain ⟨rest, rfl⟩ := h
  rw [visible_append]
  exact List.prefix_append _ _

theorem prefix_raw {ids ids' : List Nat} (h : ids <+: ids') : raw tk ids <+: raw tk ids' := by
  obtain ⟨rest, rfl⟩ := h
  rw [raw_append]
  exact List.prefix_append _ _

theorem pushed_concat (ids : List Nat) (tokenId : Nat) :
    pushed tk (ids ++ [tokenId]) = pushToken tk (pushed tk ids) tokenId := by
  unfold pushed
  rw [List.foldl_append]
  rfl

theorem recordFragment_fields (d : IncrementalDetokenizer) (text rawText : Text) :
    (d.recordFragment text rawText).tokenIds = d.tokenIds ∧
      (d.recordFragment text rawText).text = d.text ∧
      (d.recordFragment text rawText).rawText = d.rawText ∧
      (d.recordFragment text rawText).finished = d.finished := by
  unfold recordFragment
  split <;> exact ⟨rfl, rfl, rfl, rfl⟩

theorem pushed_fields (ids : List Nat) : (pushed tk ids).tokenIds = ids ∧
    (pushed tk ids).text = visible tk ids ∧ (pushed tk ids).rawText = raw tk ids ∧
    (pushed tk ids).finished = false := by
  induction ids using List.reverseRecOn with
  | nil => exact ⟨rfl, rfl, rfl, rfl⟩
  | append_singleton ids tokenId ih =>
    obtain ⟨hids, htext, hraw, hfinished⟩ := ih
    obtain ⟨hids', htext', hraw', hfinished'⟩ := recordFragment_fields (pushed tk ids)
      (tk.visibleStep ids tokenId) (tk.rawStep ids tokenId)
    rw [pushed_concat, visible_append, raw_append]
    unfold pushToken
    rw [hids]
    refine ⟨?_, ?_, ?_, ?_⟩
    · exact congrArg (· ++ [tokenId]) (hids'.trans hids)
    · show _ ++ _ = _ ++ _
      rw [htext', htext, streamFrom, streamFrom, List.append_nil]
    · show _ ++ _ = _ ++ _
      rw [hraw', hraw, streamFrom, streamFrom, List.append_nil]
    · exact hfinished'.trans hfinished

theorem push_pushed (ids ids' : List Nat) :
    (pushed tk ids).push tk ids' = .ok (pushed tk (ids ++ ids')) := by
  unfold push
  rw [(pushed_fields tk ids).2.2.2, if_neg Bool.false_ne_true]
  unfold pushed
  rw [List.foldl_append]

/-- The finished detokenizer of a list of tokens. -/
def finishedOf (ids : List Nat) : IncrementalDetokenizer :=
  { (pushed tk ids).recordFragment ((tk.decode true ids).drop (visible tk ids).length)
      ((tk.decode false ids).drop (raw tk ids).length) with
    text := tk.decode true ids
    rawText := tk.decode false ids
    finished := true }

/-- Finishing what was pushed gives the decoded texts. -/
theorem finish_pushed {ids ids' : List Nat} (h : ids <+: ids') :
    (pushed tk ids).finish tk ids' = .ok (finishedOf tk ids') := by
  have hcanonical : canonical tk ids' (pushed tk ids') = .ok (finishedOf tk ids') := by
    obtain ⟨-, htext, hraw, -⟩ := pushed_fields tk ids'
    have hvisible : visible tk ids' <+: tk.decode true ids' := tk.visible_extends ids'
    have hrawText : raw tk ids' <+: tk.decode false ids' := tk.raw_extends ids'
    unfold canonical
    dsimp only
    rw [htext, hraw, if_neg (not_not.mpr hvisible), if_neg (not_not.mpr hrawText)]
    rfl
  obtain ⟨hids, -, -, hfinished⟩ := pushed_fields tk ids
  unfold finish
  rw [hfinished, if_neg Bool.false_ne_true, hids, if_neg (not_not.mpr h)]
  have happend : ids ++ ids'.drop ids.length = ids' := List.prefix_iff_eq_append.mp h
  split
  · rw [push_pushed, happend]
    exact hcanonical
  · rename_i hlen
    rw [h.eq_of_length_le (by omega)]
    exact hcanonical

/-! ## Raw offsets -/

/-- The raw place of a place in the visible text. -/
def offset (d : IncrementalDetokenizer) (x : Nat) : Option Nat :=
  (d.visibleFragments.find? fun f => decide (x < f.visibleEnd)).map fun f =>
    f.rawStart + (x - f.visibleStart)

/-- The fragments cover the visible text in order, and each is its raw one. -/
structure Placed (d : IncrementalDetokenizer) : Prop where
  aligned : ∀ x f, (d.visibleFragments.find? fun f => decide (x < f.visibleEnd)) = some f →
    f.visibleStart ≤ x ∧ f.text = f.rawText
  none_iff : ∀ x, d.offset x = none ↔ d.text.length ≤ x
  mono : ∀ x y a b, x ≤ y → d.offset x = some a → d.offset y = some b → a ≤ b
  le_raw : ∀ x a, d.offset x = some a → a ≤ d.rawText.length

variable {tk} {d : IncrementalDetokenizer}

/-- A recorded fragment starts where the visible text ends. -/
theorem find_recordFragment (h : d.Placed) {text : Text} (hne : text ≠ []) (rawText : Text) (x : Nat) :
    ((d.recordFragment text rawText).visibleFragments.find? fun f => decide (x < f.visibleEnd)) =
      if x < d.text.length then d.visibleFragments.find? fun f => decide (x < f.visibleEnd)
      else if x < d.text.length + text.length then
        some ⟨d.text.length, text, d.rawText.length, rawText⟩ else none := by
  have hnone : (d.visibleFragments.find? fun f => decide (x < f.visibleEnd)) = none ↔
      d.text.length ≤ x := by
    rw [← h.none_iff x]
    unfold offset
    rw [Option.map_eq_none_iff]
  unfold recordFragment
  rw [if_neg hne]
  show (d.visibleFragments ++ [_]).find? _ = _
  rw [List.find?_append]
  by_cases hx : x < d.text.length
  · rw [if_pos hx]
    cases hfind : d.visibleFragments.find? fun f => decide (x < f.visibleEnd) with
    | none => exact absurd (hnone.mp hfind) (by omega)
    | some f => rfl
  · rw [if_neg hx, hnone.mpr (by omega), Option.none_or, List.find?_singleton]
    unfold VisibleFragment.visibleEnd
    by_cases hin : x < d.text.length + text.length
    · rw [if_pos hin, if_pos (decide_eq_true hin)]
    · rw [if_neg hin, if_neg (by simpa using hin)]

/-- The offsets after a token. -/
theorem offset_place (h : d.Placed) {text rawText : Text} (hne : text ≠ []) (x : Nat) :
    (d.recordFragment text rawText).offset x = if x < d.text.length then d.offset x
      else if x < d.text.length + text.length then some (d.rawText.length + (x - d.text.length))
      else none := by
  unfold offset
  rw [find_recordFragment h hne]
  split
  · rfl
  · split <;> rfl

/-- One more fragment that is its raw one. -/
theorem Placed.place (h : d.Placed) {d' : IncrementalDetokenizer} {text : Text} (hne : text ≠ [])
    (hfragments : d'.visibleFragments = (d.recordFragment text text).visibleFragments)
    (htext : d'.text.length = d.text.length + text.length)
    (hraw : d'.rawText.length = d.rawText.length + text.length) : d'.Placed := by
  have hfind : ∀ x, (d'.visibleFragments.find? fun f => decide (x < f.visibleEnd)) = _ := fun x =>
    hfragments ▸ find_recordFragment h hne text x
  have hoffset : ∀ x, d'.offset x = if x < d.text.length then d.offset x
      else if x < d.text.length + text.length then some (d.rawText.length + (x - d.text.length))
      else none := fun x => by
    have hplace : (d.recordFragment text text).offset x = _ := offset_place h hne x
    rw [← hplace]
    unfold offset
    rw [hfragments]
  constructor
  · intro x f hf
    rw [hfind] at hf
    split at hf
    · exact h.aligned x f hf
    split at hf
    · cases hf
      exact ⟨by show d.text.length ≤ x; omega, rfl⟩
    · cases hf
  · intro x
    rw [hoffset]
    split
    · rw [h.none_iff]
      omega
    split
    · refine iff_of_false (Option.some_ne_none _) ?_
      omega
    · refine iff_of_true rfl ?_
      omega
  · intro x y a b hle ha hb
    rw [hoffset] at ha hb
    split at hb
    · rw [if_pos (by omega)] at ha
      exact h.mono x y a b hle ha hb
    split at hb
    · cases hb
      split at ha
      · have := h.le_raw x a ha
        omega
      split at ha
      · cases ha
        omega
      · cases ha
    · cases hb
  · intro x a ha
    rw [hoffset] at ha
    split at ha
    · have := h.le_raw x a ha
      omega
    split at ha
    · cases ha
      omega
    · cases ha

/-- No fragment. -/
theorem Placed.skip (h : d.Placed) {d' : IncrementalDetokenizer}
    (hfragments : d'.visibleFragments = d.visibleFragments) (htext : d'.text = d.text)
    (hraw : d.rawText.length ≤ d'.rawText.length) : d'.Placed := by
  have hoffset : ∀ x, d'.offset x = d.offset x := fun x => by
    unfold offset
    rw [hfragments]
  constructor
  · rw [hfragments]
    exact h.aligned
  · intro x
    rw [hoffset, htext]
    exact h.none_iff x
  · intro x y a b hle ha hb
    exact h.mono x y a b hle (hoffset x ▸ ha) (hoffset y ▸ hb)
  · intro x a ha
    exact (h.le_raw x a (hoffset x ▸ ha)).trans hraw

theorem placed_pushToken (h : d.Placed) (tokenId : Nat) : (pushToken tk d tokenId).Placed := by
  obtain ⟨-, htext, hraw, -⟩ := recordFragment_fields d (tk.visibleStep d.tokenIds tokenId)
    (tk.rawStep d.tokenIds tokenId)
  have htext' : (pushToken tk d tokenId).text = d.text ++ tk.visibleStep d.tokenIds tokenId :=
    congrArg (· ++ _) htext
  have hraw' : (pushToken tk d tokenId).rawText = d.rawText ++ tk.rawStep d.tokenIds tokenId :=
    congrArg (· ++ _) hraw
  have hfragments : (pushToken tk d tokenId).visibleFragments =
      (d.recordFragment (tk.visibleStep d.tokenIds tokenId)
        (tk.rawStep d.tokenIds tokenId)).visibleFragments := rfl
  by_cases hempty : tk.visibleStep d.tokenIds tokenId = []
  · rw [hempty, List.append_nil] at htext'
    rw [hempty, recordFragment, if_pos rfl] at hfragments
    refine h.skip hfragments htext' ?_
    rw [hraw', List.length_append]
    exact Nat.le_add_right _ _
  · have heq := (tk.fragment d.tokenIds tokenId).resolve_right hempty
    rw [← heq] at hfragments hraw'
    exact h.place hempty hfragments (htext' ▸ List.length_append) (hraw' ▸ List.length_append)

theorem placed_pushed (tk : Tokenizer) (ids : List Nat) : (pushed tk ids).Placed := by
  induction ids using List.reverseRecOn with
  | nil =>
    refine ⟨nofun, fun x => iff_of_true rfl (Nat.zero_le x), nofun, nofun⟩
  | append_singleton ids tokenId ih =>
    rw [pushed_concat]
    exact placed_pushToken ih tokenId

/-- A place keeps its offset, and later text has later offsets. -/
theorem offset_pushed_append (tk : Tokenizer) (ids rest : List Nat) :
    (∀ x a, (pushed tk ids).offset x = some a → (pushed tk (ids ++ rest)).offset x = some a) ∧
      ∀ x b, (visible tk ids).length ≤ x → (pushed tk (ids ++ rest)).offset x = some b →
        (raw tk ids).length ≤ b := by
  induction rest using List.reverseRecOn with
  | nil =>
    rw [List.append_nil]
    refine ⟨fun _ _ h => h, fun x b hx hb => ?_⟩
    obtain ⟨-, htext, -, -⟩ := pushed_fields tk ids
    rw [((placed_pushed tk ids).none_iff x).mpr (htext ▸ hx)] at hb
    cases hb
  | append_singleton rest tokenId ih =>
    obtain ⟨hkept, hlater⟩ := ih
    obtain ⟨-, htext, hraw, -⟩ := pushed_fields tk (ids ++ rest)
    have hvisible := (prefix_visible tk (List.prefix_append ids rest)).length_le
    have hrawLen := (prefix_raw tk (List.prefix_append ids rest)).length_le
    have hplaced := placed_pushed tk (ids ++ rest)
    rw [← List.append_assoc, pushed_concat]
    generalize pushed tk (ids ++ rest) = d at *
    have hfragments : (pushToken tk d tokenId).offset = (d.recordFragment
        (tk.visibleStep d.tokenIds tokenId) (tk.rawStep d.tokenIds tokenId)).offset := rfl
    rw [hfragments]
    by_cases hempty : tk.visibleStep d.tokenIds tokenId = []
    · rw [hempty, recordFragment, if_pos rfl]
      exact ⟨hkept, hlater⟩
    · refine ⟨fun x a ha => ?_, fun x b hx hb => ?_⟩
      · rw [offset_place hplaced hempty, if_pos, hkept x a ha]
        by_contra hx
        have := hkept x a ha
        rw [(hplaced.none_iff x).mpr (by omega)] at this
        cases this
      · rw [offset_place hplaced hempty] at hb
        split at hb
        · exact hlater x b hx hb
        split at hb
        · cases hb
          rw [hraw]
          omega
        · cases hb

theorem lt_end_of_find {x : Nat} {f : VisibleFragment} {fs : List VisibleFragment}
    (h : (fs.find? fun f => decide (x < f.visibleEnd)) = some f) : x < f.visibleEnd := by
  have := List.find?_some h
  exact of_decide_eq_true this

/-- A raw length for a visible one, in what was pushed. -/
theorem rawOffset_pushed (tk : Tokenizer) (ids : List Nat) {x limit : Nat}
    (hx : x ≤ (visible tk ids).length) (hlimit : limit ≤ (raw tk ids).length) :
    (pushed tk ids).rawOffsetForVisiblePrefix x limit =
      .ok (((pushed tk ids).offset x).elim limit (min · limit)) := by
  obtain ⟨-, htext, hraw, -⟩ := pushed_fields tk ids
  unfold rawOffsetForVisiblePrefix
  rw [htext, if_neg (by omega), hraw, if_neg (by omega)]
  unfold offset
  cases hfind : (pushed tk ids).visibleFragments.find? fun f => decide (x < f.visibleEnd) with
  | none => rfl
  | some f =>
    obtain ⟨hstart, haligned⟩ := (placed_pushed tk ids).aligned x f hfind
    dsimp only
    rw [f.rawOffset_aligned hstart (lt_end_of_find hfind) haligned]
    rfl

/-- A raw length in the finished text: that of what was pushed, or one past it. -/
theorem rawOffset_finished (tk : Tokenizer) (ids : List Nat) {x limit b : Nat}
    (h : (finishedOf tk ids).rawOffsetForVisiblePrefix x limit = .ok b) :
    (∃ a, (pushed tk ids).offset x = some a ∧ b = min a limit) ∨
      (pushed tk ids).offset x = none ∧ min (raw tk ids).length limit ≤ b := by
  obtain ⟨-, htext, hraw, -⟩ := pushed_fields tk ids
  have hplaced := placed_pushed tk ids
  have hfragments : (finishedOf tk ids).visibleFragments =
      ((pushed tk ids).recordFragment ((tk.decode true ids).drop (visible tk ids).length)
        ((tk.decode false ids).drop (raw tk ids).length)).visibleFragments := rfl
  -- the last fragment is found only past what was pushed
  have hfind : ∀ f, (finishedOf tk ids).visibleFragments.find? (fun f => decide (x < f.visibleEnd)) =
      some f → ((pushed tk ids).visibleFragments.find? fun f => decide (x < f.visibleEnd)) = some f ∨
        (pushed tk ids).offset x = none ∧ f.rawStart = (raw tk ids).length := by
    intro f hf
    rw [hfragments] at hf
    by_cases hempty : (tk.decode true ids).drop (visible tk ids).length = []
    · rw [hempty, recordFragment, if_pos rfl] at hf
      exact Or.inl hf
    · rw [find_recordFragment hplaced hempty] at hf
      split at hf
      · exact Or.inl hf
      split at hf
      · cases hf
        exact Or.inr ⟨(hplaced.none_iff x).mpr (by omega), congrArg List.length hraw⟩
      · cases hf
  unfold rawOffsetForVisiblePrefix at h
  split at h
  · cases h
  split at h
  · cases h
  cases hf : (finishedOf tk ids).visibleFragments.find? fun f => decide (x < f.visibleEnd) with
  | none =>
    rw [hf] at h
    cases h
    refine Or.inr ⟨?_, Nat.min_le_right _ _⟩
    cases hoffset : (pushed tk ids).offset x with
    | none => rfl
    | some a =>
      -- a fragment of what was pushed would have been found
      unfold offset at hoffset
      obtain ⟨f, hpushed, -⟩ := Option.map_eq_some_iff.mp hoffset
      have hmem := List.mem_of_find?_eq_some hpushed
      have hin : f ∈ (finishedOf tk ids).visibleFragments := by
        rw [hfragments, recordFragment]
        split
        · exact hmem
        · exact List.mem_append_left _ hmem
      have := List.find?_eq_none.mp hf f hin
      exact absurd (decide_eq_true (lt_end_of_find hpushed)) this
  | some f =>
    rw [hf] at h
    dsimp only at h
    rcases hfind f hf with hpushed | ⟨hnone, hstart⟩
    · obtain ⟨hle, haligned⟩ := hplaced.aligned x f hpushed
      have hvalue := f.rawOffset_aligned hle (lt_end_of_find hpushed) haligned
      rw [hvalue] at h
      cases h
      refine Or.inl ⟨_, ?_, rfl⟩
      unfold offset
      rw [hpushed]
      rfl
    · refine Or.inr ⟨hnone, ?_⟩
      cases hvalue : f.rawOffset x with
      | error e =>
        rw [hvalue] at h
        cases h
      | ok o =>
        rw [hvalue] at h
        cases h
        have := f.le_of_rawOffset hvalue
        show min _ _ ≤ min o limit
        omega

end IncrementalDetokenizer

end SparseVllm.Dispatcher
