import SparseVllm.Dispatcher.TextStream

/-!
# Streamed text and final text

The invariant `Streaming` says what was emitted of the texts so far: a part of the visible text that no
stop word can start in, and a part of the raw text that no later boundary precedes. It is kept by a step
without a stop word. The step with the first stop word and the end of the completion both finish the
text; the first of them cuts at the stop word of the incremental text, so it is right when the decoding
of the whole list has no earlier one.

## Results

* `Streaming.step`: a step without a stop word keeps the invariant.
* `Streaming.stop`, `Streaming.finish`: the two ends.
* **`serve_agrees`**: the streamed texts are those of the final event as long as the first stop word of the
  decoded text is where the stream saw it, and not otherwise.
-/

namespace SparseVllm.Dispatcher

open Lib IncrementalDetokenizer

/-! ## What the events show -/

namespace TextEvent

def isToken : TextEvent → Bool
  | .token .. => true
  | .final .. => false

/-- What the event adds to the text. -/
def text : TextEvent → Text
  | .token text _ _ => text
  | .final _ _ textDelta _ _ => textDelta

def rawTextDelta : TextEvent → Text
  | .token _ rawTextDelta _ => rawTextDelta
  | .final .. => []

end TextEvent

/-- A text up to its first stop word. -/
def cut (text : Text) (stop : List Text) : Text := ((firstStop text stop).map text.take).getD text

variable (tk : Tokenizer) (q : StreamRequest)

/-- The events are token events and a final one of `tokenIds` that repeats them: its text is the decoded
text up to the first stop word, and the raw text starts with the raw deltas. -/
def Agrees (tokenIds : List Nat) (events : List TextEvent) : Prop :=
  ∃ before text rawText textDelta finishReason,
    events = before ++ [.final text rawText textDelta finishReason tokenIds] ∧
      (∀ event ∈ before, event.isToken = true) ∧
      before.flatMap TextEvent.text ++ textDelta = text ∧
      text = cut (tk.decode true tokenIds) q.stop ∧
      before.flatMap TextEvent.rawTextDelta <+: rawText

/-- The errors that say that a stream and its end disagree. -/
def StreamError.disagrees : StreamError → Bool
  | .boundaryPrecedes .. | .finalShorter .. | .stopDisappeared => true
  | _ => false

/-! ## The raw text of the response parser -/

variable {tk q} {ids rest : List Nat}

theorem rdropWhile_append (p : Nat → Bool) (ids rest : List Nat) :
    (ids ++ rest).rdropWhile p = ids.rdropWhile p ∨ ids <+: (ids ++ rest).rdropWhile p := by
  induction rest using List.reverseRecOn with
  | nil =>
    rw [List.append_nil]
    exact Or.inl rfl
  | append_singleton rest tokenId ih =>
    rw [← List.append_assoc, List.rdropWhile_concat]
    split
    · exact ih
    · refine Or.inr ?_
      rw [List.append_assoc]
      exact List.prefix_append _ _

/-- The parser's text does not get shorter. -/
theorem contentRawText_le {rawText : Text} (hprefixed : contentRawText tk q ids (raw tk ids) <+: raw tk ids)
    (hraw : raw tk (ids ++ rest) <+: rawText) : (contentRawText tk q ids (raw tk ids)).length ≤
      (contentRawText tk q (ids ++ rest) rawText).length := by
  have hgrow : raw tk ids <+: raw tk (ids ++ rest) := prefix_raw tk (List.prefix_append _ _)
  unfold contentRawText at hprefixed ⊢
  split_ifs with hids hall hall
  · exact (hgrow.trans hraw).length_le
  · -- the tokens so far do not end in an EOS token, so none of them is dropped
    have hkeep : ids <+: (ids ++ rest).rdropWhile fun tokenId => decide (tokenId ∈ q.eosTokenIds) := by
      rcases rdropWhile_append (fun tokenId => decide (tokenId ∈ q.eosTokenIds)) ids rest with h | h
      · have hself : (ids.rdropWhile fun tokenId => decide (tokenId ∈ q.eosTokenIds)) = ids := by
          rw [List.rdropWhile_eq_self_iff]
          intro hne
          rw [decide_eq_true_eq]
          have hlast := (hids.resolve_left fun h => hall (Or.inl h)).resolve_left
            fun h => hall (Or.inr (Or.inl h))
          exact hlast _ (List.getLast?_eq_some_getLast hne)
        rw [h, hself]
      · exact h
    exact ((prefix_raw tk hkeep).trans (tk.raw_extends _)).length_le
  · rw [if_neg hids] at hprefixed
    exact (hprefixed.trans (hgrow.trans hraw)).length_le
  · rcases rdropWhile_append (fun tokenId => decide (tokenId ∈ q.eosTokenIds)) ids rest with h | h
    · rw [h]
    · rw [if_neg hids] at hprefixed
      exact (hprefixed.trans ((prefix_raw tk h).trans (tk.raw_extends _))).length_le

/-- The raw length that goes with a visible one. -/
def boundary (tk : Tokenizer) (q : StreamRequest) (ids : List Nat) (visibleTextLen : Nat) : Nat :=
  let limit := (contentRawText tk q ids (raw tk ids)).length
  if q.stop = [] then limit else ((pushed tk ids).offset visibleTextLen).elim limit (min · limit)

theorem boundary_le (tk : Tokenizer) (q : StreamRequest) (ids : List Nat) (x : Nat) :
    boundary tk q ids x ≤ (contentRawText tk q ids (raw tk ids)).length := by
  unfold boundary
  dsimp only
  split
  · exact le_refl _
  · cases (pushed tk ids).offset x with
    | none => exact le_refl _
    | some a => exact Nat.min_le_right _ _

/-- The parser's text over what was pushed. -/
theorem responseParserRawText_pushed (q : StreamRequest) {x : Nat} (hx : x ≤ (visible tk ids).length) :
    responseParserRawText tk q (pushed tk ids) ids (raw tk ids) x =
      if contentRawText tk q ids (raw tk ids) <+: raw tk ids then
        .ok ((contentRawText tk q ids (raw tk ids)).take (boundary tk q ids x))
      else .error (.parserNotPrefix (contentRawText tk q ids (raw tk ids)) (raw tk ids)) := by
  unfold responseParserRawText boundary
  dsimp only
  by_cases hprefixed : contentRawText tk q ids (raw tk ids) <+: raw tk ids
  · rw [if_neg (not_not.mpr hprefixed), if_pos hprefixed]
    by_cases hstop : q.stop = []
    · rw [if_pos hstop, if_pos hstop, List.take_length]
    · rw [if_neg hstop, if_neg hstop, rawOffset_pushed tk ids hx hprefixed.length_le]
      rfl
  · rw [if_pos hprefixed, if_neg hprefixed]

/-- What was emitted of the raw text is before every later boundary. -/
structure Emitted (tk : Tokenizer) (q : StreamRequest) (ids : List Nat) (textLen rawTextLen : Nat) :
    Prop where
  content : contentRawText tk q ids (raw tk ids) <+: raw tk ids
  le_content : rawTextLen ≤ (contentRawText tk q ids (raw tk ids)).length
  le_offset : q.stop ≠ [] → ∀ a, (pushed tk ids).offset textLen = some a → rawTextLen ≤ a

/-- The parser's text starts the decoded raw text. -/
theorem prefix_of_responseParserRawText {d : IncrementalDetokenizer} {rawText parser : Text} {x : Nat}
    (h : responseParserRawText tk q d ids rawText x = .ok parser) : parser <+: rawText := by
  unfold responseParserRawText at h
  dsimp only at h
  split at h
  · cases h
  rename_i hprefixed
  replace hprefixed := not_not.mp hprefixed
  split at h
  · cases h
    exact hprefixed
  · cases hoffset : d.rawOffsetForVisiblePrefix x (contentRawText tk q ids rawText).length with
    | error e =>
      rw [hoffset] at h
      cases h
    | ok b =>
      rw [hoffset] at h
      cases h
      exact (List.take_prefix _ _).trans hprefixed

theorem rawOffset_disagrees {f : VisibleFragment} {x : Nat} {e : StreamError}
    (h : f.rawOffset x = .error e) : e.disagrees = false := by
  unfold VisibleFragment.rawOffset at h
  dsimp only at h
  split at h
  · cases h
    rfl
  split at h
  · cases h
  split at h
  · cases h
  split at h
  · cases h
    rfl
  split at h
  · cases h
  · cases h
    rfl

/-- The parser's text fails for other reasons. -/
theorem responseParserRawText_disagrees {d : IncrementalDetokenizer} {rawText : Text} {x : Nat}
    {e : StreamError} (h : responseParserRawText tk q d ids rawText x = .error e) :
    e.disagrees = false := by
  unfold responseParserRawText at h
  dsimp only at h
  split at h
  · cases h
    rfl
  split at h
  · cases h
  cases hoffset : d.rawOffsetForVisiblePrefix x (contentRawText tk q ids rawText).length with
  | ok b =>
    rw [hoffset] at h
    cases h
  | error e' =>
    rw [hoffset] at h
    cases h
    unfold rawOffsetForVisiblePrefix at hoffset
    split at hoffset
    · cases hoffset
      rfl
    split at hoffset
    · cases hoffset
      rfl
    split at hoffset
    · cases hoffset
    · rename_i f _
      cases hf : f.rawOffset x with
      | ok o =>
        rw [hf] at hoffset
        cases hoffset
      | error e' =>
        rw [hf] at hoffset
        cases hoffset
        exact rawOffset_disagrees hf

namespace Emitted

variable {e n : Nat}

theorem le_raw (h : Emitted tk q ids e n) : n ≤ (raw tk ids).length :=
  h.le_content.trans h.content.length_le

/-- A later offset is past what was emitted. -/
theorem le_later (h : Emitted tk q ids e n) (hstop : q.stop ≠ []) {x b : Nat} (hx : e ≤ x)
    (hb : (pushed tk (ids ++ rest)).offset x = some b) : n ≤ b := by
  obtain ⟨hkept, hlater⟩ := offset_pushed_append tk ids rest
  cases ha : (pushed tk ids).offset e with
  | some a =>
    have hmono := (placed_pushed tk (ids ++ rest)).mono e x a b hx (hkept e a ha) hb
    exact (h.le_offset hstop a ha).trans hmono
  | none =>
    have hpast := ((placed_pushed tk ids).none_iff e).mp ha
    rw [(pushed_fields tk ids).2.1] at hpast
    exact h.le_raw.trans (hlater x b (hpast.trans hx) hb)

theorem le_boundary (h : Emitted tk q ids e n) {x : Nat} (hx : e ≤ x) :
    n ≤ boundary tk q (ids ++ rest) x := by
  have hlimit : n ≤ (contentRawText tk q (ids ++ rest) (raw tk (ids ++ rest))).length :=
    h.le_content.trans (contentRawText_le h.content (List.prefix_refl _))
  unfold boundary
  dsimp only
  split
  · exact hlimit
  · rename_i hstop
    cases hb : (pushed tk (ids ++ rest)).offset x with
    | none => exact hlimit
    | some b => exact le_min (h.le_later hstop hx hb) hlimit

/-- The boundary of a step is the next emitted length. -/
theorem boundary (ids : List Nat) (x : Nat)
    (hcontent : contentRawText tk q ids (raw tk ids) <+: raw tk ids) :
    Emitted tk q ids x (boundary tk q ids x) := by
  refine ⟨hcontent, boundary_le tk q ids x, fun hstop a ha => ?_⟩
  unfold Dispatcher.boundary
  dsimp only
  rw [if_neg hstop, ha]
  exact Nat.min_le_left _ _

/-- The raw text of the end is past what was emitted. -/
theorem le_finished (h : Emitted tk q ids e n) {ids' : List Nat} (hids : ids <+: ids') {x : Nat}
    (hx : e ≤ x) {parser : Text} (hparser : responseParserRawText tk q (finishedOf tk ids') ids'
      (tk.decode false ids') x = .ok parser) : n ≤ parser.length := by
  obtain ⟨rest, rfl⟩ := hids
  have hlimit : n ≤ (contentRawText tk q (ids ++ rest) (tk.decode false (ids ++ rest))).length :=
    h.le_content.trans (contentRawText_le h.content (tk.raw_extends _))
  unfold responseParserRawText at hparser
  dsimp only at hparser
  split at hparser
  · cases hparser
  split at hparser
  · cases hparser
    exact hlimit
  rename_i hstop
  cases hoffset : (finishedOf tk (ids ++ rest)).rawOffsetForVisiblePrefix x
      (contentRawText tk q (ids ++ rest) (tk.decode false (ids ++ rest))).length with
  | error error =>
    rw [hoffset] at hparser
    cases hparser
  | ok b =>
    rw [hoffset] at hparser
    cases hparser
    rw [List.length_take]
    refine le_min ?_ hlimit
    rcases rawOffset_finished tk (ids ++ rest) hoffset with ⟨a, ha, rfl⟩ | ⟨-, hb⟩
    · exact le_min (h.le_later hstop hx ha) hlimit
    · refine le_trans (le_min ?_ hlimit) hb
      exact h.le_raw.trans (prefix_raw tk (List.prefix_append _ _)).length_le

end Emitted

/-! ## A request in progress -/

/-- What holds of a request whose text has no stop word so far. -/
structure Streaming (tk : Tokenizer) (q : StreamRequest) (ids : List Nat) (r : ActiveRequest)
    (events : List TextEvent) : Prop where
  ids_eq : r.completionTokenIds = ids
  detokenizer : r.detokenizer = pushed tk ids
  noStop : firstStop (visible tk ids) q.stop = none
  settled : Settled q.stop (visible tk ids) r.emittedTextLen
  emitted_le : r.emittedTextLen ≤ (visible tk ids).length
  tokens : ∀ event ∈ events, event.isToken = true
  text : events.flatMap TextEvent.text = (visible tk ids).take r.emittedTextLen
  emitted : Emitted tk q ids r.emittedTextLen r.emittedRawTextLen
  rawText : events.flatMap TextEvent.rawTextDelta = (raw tk ids).take r.emittedRawTextLen

theorem streaming_initial (tk : Tokenizer) (q : StreamRequest) : Streaming tk q [] {} [] := by
  have hcontent : contentRawText tk q [] (raw tk []) = raw tk [] := by
    unfold contentRawText
    rw [if_pos (Or.inr (Or.inr nofun))]
  refine ⟨rfl, rfl, ?_, settled_zero _ _, Nat.zero_le _, nofun, rfl, ⟨?_, Nat.zero_le _, ?_⟩, rfl⟩
  · rw [firstStop_eq_none_iff]
    exact fun i hi => absurd hi.lt (Nat.not_lt_zero i)
  · rw [hcontent]
  · exact fun _ _ _ => Nat.zero_le _

theorem take_of_isPrefix {text text' : Text} {n : Nat} (h : text <+: text') (hn : n ≤ text.length) :
    text'.take n = text.take n := by
  obtain ⟨rest, rfl⟩ := h
  exact List.take_append_of_le_length hn

/-- The deltas of a step continue what was emitted. -/
theorem take_append_drop_take {text text' : Text} {e n : Nat} (h : text <+: text') (he : e ≤ text.length)
    (hn : e ≤ n) : text.take e ++ (text'.take n).drop e = text'.take n := by
  have htake : text.take e = (text'.take n).take e := by
    rw [List.take_take, Nat.min_eq_left hn, take_of_isPrefix h he]
  rw [htake, List.take_append_drop]

variable {r : ActiveRequest} {events : List TextEvent} {out : List Nat × List Bool}

/-- Publishing, or not publishing when there is nothing to say. -/
theorem flatMap_published (text rawTextDelta : Text) (tokenIds : List Nat) {emits : Bool}
    (hemits : emits = false → text = [] ∧ rawTextDelta = []) :
    ((if emits then [TextEvent.token text rawTextDelta tokenIds] else []).flatMap TextEvent.text = text) ∧
      (if emits then [TextEvent.token text rawTextDelta tokenIds] else []).flatMap
        TextEvent.rawTextDelta = rawTextDelta := by
  cases emits with
  | true => exact ⟨List.flatMap_singleton _ _, List.flatMap_singleton _ _⟩
  | false =>
    obtain ⟨rfl, rfl⟩ := hemits rfl
    exact ⟨rfl, rfl⟩

theorem isToken_published (text rawTextDelta : Text) (tokenIds : List Nat) (emits : Bool) :
    ∀ event ∈ (if emits then [TextEvent.token text rawTextDelta tokenIds] else []),
      event.isToken = true := by
  cases emits with
  | true =>
    intro event hevent
    rw [List.mem_singleton.mp hevent]
    rfl
  | false => exact nofun

/-- The request after its texts were emitted up to `e` and `b`, with an event or, when there is nothing
new, without one. -/
theorem Streaming.publish (h : Streaming tk q ids r events) {e b : Nat}
    (hstop : firstStop (visible tk (ids ++ rest)) q.stop = none)
    (hsettled : Settled q.stop (visible tk (ids ++ rest)) e) (hle : r.emittedTextLen ≤ e)
    (he : e ≤ (visible tk (ids ++ rest)).length) (hemitted : Emitted tk q (ids ++ rest) e b)
    (hb : r.emittedRawTextLen ≤ b) (logprobs : List Bool) :
    let r' : ActiveRequest := { r with
      completionTokenIds := ids ++ rest
      pendingTokenIds := r.pendingTokenIds ++ rest
      pendingLogprobs := logprobs
      emittedTextLen := e
      detokenizer := pushed tk (ids ++ rest) }
    let text := ((visible tk (ids ++ rest)).take e).drop r.emittedTextLen
    let rawTextDelta := ((raw tk (ids ++ rest)).take b).drop r.emittedRawTextLen
    let emits : Bool := text ≠ [] ∨ rawTextDelta ≠ []
    let published := publishPendingTokenEvent r' text rawTextDelta
    Streaming tk q (ids ++ rest) (if emits then published.1 else r')
      (events ++ if emits then [published.2] else []) := by
  intro r' text rawTextDelta emits published
  have hvisible : visible tk ids <+: visible tk (ids ++ rest) :=
    prefix_visible tk (List.prefix_append _ _)
  have hrawPrefix : raw tk ids <+: raw tk (ids ++ rest) := prefix_raw tk (List.prefix_append _ _)
  have htexts : (visible tk ids).take r.emittedTextLen ++ text = (visible tk (ids ++ rest)).take e :=
    take_append_drop_take hvisible h.emitted_le hle
  have hraws : (raw tk ids).take r.emittedRawTextLen ++ rawTextDelta = (raw tk (ids ++ rest)).take b :=
    take_append_drop_take hrawPrefix h.emitted.le_raw hb
  have hlen : r.emittedRawTextLen + rawTextDelta.length = b := by
    have hdelta : rawTextDelta.length = min b (raw tk (ids ++ rest)).length - r.emittedRawTextLen := by
      show (((raw tk (ids ++ rest)).take b).drop r.emittedRawTextLen).length = _
      rw [List.length_drop, List.length_take]
    have := hemitted.le_raw
    omega
  have hsilent : emits = false → text = [] ∧ rawTextDelta = [] := fun hfalse => by
    simpa using of_decide_eq_false hfalse
  obtain ⟨htextOut, hrawOut⟩ := flatMap_published text rawTextDelta r'.pendingTokenIds hsilent
  have htokens := isToken_published text rawTextDelta r'.pendingTokenIds emits
  have htext : (events ++ if emits then [published.2] else []).flatMap TextEvent.text =
      (visible tk (ids ++ rest)).take e := by
    rw [List.flatMap_append, h.text, ← htexts]
    exact congrArg (_ ++ ·) htextOut
  have hraw : (events ++ if emits then [published.2] else []).flatMap TextEvent.rawTextDelta =
      (raw tk (ids ++ rest)).take b := by
    rw [List.flatMap_append, h.rawText, ← hraws]
    exact congrArg (_ ++ ·) hrawOut
  have hall : ∀ event ∈ (events ++ if emits then [published.2] else []), event.isToken = true :=
    List.forall_mem_append.mpr ⟨h.tokens, htokens⟩
  generalize emits = emits at *
  cases emits with
  | true =>
    rw [← hlen] at hemitted hraw
    exact ⟨rfl, rfl, hstop, hsettled, he, hall, htext, hemitted, hraw⟩
  | false =>
    rw [← hlen, (hsilent rfl).2, List.length_nil, Nat.add_zero] at hemitted hraw
    exact ⟨rfl, rfl, hstop, hsettled, he, hall, htext, hemitted, hraw⟩

/-- A step without a stop word keeps the invariant. -/
theorem Streaming.step (h : Streaming tk q ids r events)
    (hstop : firstStop (visible tk (ids ++ out.1)) q.stop = none) :
    match publishTokenDeltas tk q out.1 out.2 r with
    | .error e => e.disagrees = false
    | .ok p => ∃ r', p.1 = some r' ∧ Streaming tk q (ids ++ out.1) r' (events ++ p.2) := by
  obtain ⟨-, htext, hraw, -⟩ := pushed_fields tk (ids ++ out.1)
  have hvisible : visible tk ids <+: visible tk (ids ++ out.1) :=
    prefix_visible tk (List.prefix_append _ _)
  have hsafe : safeLen (visible tk (ids ++ out.1)) q.stop ≤ (visible tk (ids ++ out.1)).length :=
    Nat.sub_le _ _
  have hle : r.emittedTextLen ≤ safeLen (visible tk (ids ++ out.1)) q.stop :=
    le_safeLen (h.settled.mono hvisible) (h.emitted_le.trans hvisible.length_le)
  have hparser := responseParserRawText_pushed q hsafe
  unfold publishTokenDeltas
  rw [h.detokenizer, push_pushed, h.ids_eq]
  simp only [bind, Except.bind, htext, hraw, hstop, Option.map_none, Option.getD_none,
    Option.isSome_none, Bool.false_eq_true, if_false, hparser]
  by_cases hcontent : contentRawText tk q (ids ++ out.1) (raw tk (ids ++ out.1)) <+: raw tk (ids ++ out.1)
  · have hlimit := boundary_le tk q (ids ++ out.1)
      (safeLen (visible tk (ids ++ out.1)) q.stop)
    have hb : r.emittedRawTextLen ≤ boundary tk q (ids ++ out.1) _ := h.emitted.le_boundary hle
    have hlen : ((raw tk (ids ++ out.1)).take
        (boundary tk q (ids ++ out.1) (safeLen (visible tk (ids ++ out.1)) q.stop))).length = _ :=
      List.length_take_of_le (hlimit.trans hcontent.length_le)
    rw [if_pos hcontent, ← take_of_isPrefix hcontent hlimit]
    dsimp only
    rw [if_neg (by rw [hlen]; omega)]
    exact ⟨_, rfl, h.publish hstop (settled_safeLen hstop) hle hsafe
      (Emitted.boundary _ _ hcontent) hb _⟩
  · rw [if_neg hcontent]
    rfl

/-! ## The two ends -/

theorem cut_of_some {text : Text} {stop : List Text} {s : Nat} (h : firstStop text stop = some s) :
    cut text stop = text.take s := by
  unfold cut
  rw [h]
  rfl

theorem prefix_cut (text : Text) (stop : List Text) : cut text stop <+: text := by
  unfold cut
  cases firstStop text stop with
  | none => exact List.prefix_refl _
  | some s => exact List.take_prefix _ _

/-- The text cut at the stop word of a part of it is right when the whole text has it first too. -/
theorem take_eq_cut_iff {text text' : Text} {stop : List Text} {s : Nat} (h : text <+: text')
    (hstop : firstStop text stop = some s) :
    text.take s = cut text' stop ↔ firstStop text' stop = some s := by
  obtain ⟨s', hle, hs'⟩ := exists_firstStop_le hstop h
  have hs : s < text.length := (firstStop_eq_some_iff.mp hstop).1.lt
  rw [cut_of_some hs', hs']
  constructor
  · intro heq
    have hlen := congrArg List.length heq
    have := h.length_le
    rw [List.length_take, List.length_take] at hlen
    exact congrArg some (by omega)
  · intro heq
    cases heq
    exact (take_of_isPrefix h hs.le).symm

/-- Whether the events agree is up to their final event. -/
theorem agrees_iff {before : List TextEvent} {text rawText textDelta : Text} {reason : FinishReason}
    {tokenIds : List Nat} (htokens : ∀ event ∈ before, event.isToken = true)
    (htext : before.flatMap TextEvent.text ++ textDelta = text)
    (hraw : before.flatMap TextEvent.rawTextDelta <+: rawText) :
    Agrees tk q tokenIds (before ++ [.final text rawText textDelta reason tokenIds]) ↔
      text = cut (tk.decode true tokenIds) q.stop := by
  constructor
  · rintro ⟨before', text', rawText', textDelta', reason', heq, -, -, hcut, -⟩
    obtain ⟨-, hlast⟩ := List.append_inj' heq rfl
    cases List.singleton_inj.mp hlast
    exact hcut
  · intro hcut
    exact ⟨before, text, rawText, textDelta, reason, rfl, htokens, htext, hcut, hraw⟩

/-- What was emitted of the raw text after a step, with an event or without one. -/
theorem emitted_published {text rawTextDelta : Text} {n b : Nat} (h : n + rawTextDelta.length = b) :
    (if (decide (text ≠ [] ∨ rawTextDelta ≠ [])) = true then n + rawTextDelta.length else n) = b := by
  split
  · exact h
  · rename_i hemits
    have hempty : rawTextDelta = [] := by simp_all
    rw [hempty] at h
    exact h

/-- The end of a step with a stop word. -/
theorem publishStop_eq {s b : Nat} (hids : r.completionTokenIds = ids)
    (hdetok : r.detokenizer = pushed tk ids) (hs : firstStop (tk.decode true ids) q.stop = some s)
    (visibleText text rawTextDelta : Text) (hb : r.emittedRawTextLen + rawTextDelta.length = b) :
    publishStop tk q visibleText text rawTextDelta r =
      (responseParserRawText tk q (finishedOf tk ids) ids (tk.decode false ids) s).bind fun parser =>
        if parser.length < b then .error (.finalShorter b parser.length)
        else .ok ((if decide (text ≠ [] ∨ rawTextDelta ≠ []) then
            [.token text rawTextDelta r.pendingTokenIds] else []) ++
          [.final visibleText parser (visibleText.drop r.emittedTextLen) .stop ids]) := by
  have htext : (finishedOf tk ids).text = tk.decode true ids := rfl
  have hemitted : (if decide (text ≠ [] ∨ rawTextDelta ≠ []) = true then
      r.emittedRawTextLen + rawTextDelta.length else r.emittedRawTextLen) = b := emitted_published hb
  unfold publishStop
  rw [hdetok, hids, finish_pushed tk (List.prefix_refl ids)]
  simp only [bind, Except.bind, htext, hs, publishPendingTokenEvent, hemitted]
  rfl

/-- A step with a stop word ends the stream, rightly if the decoded text has it first too. -/
theorem Streaming.stop (h : Streaming tk q ids r events) {s : Nat}
    (hstop : firstStop (visible tk (ids ++ out.1)) q.stop = some s) :
    match publishTokenDeltas tk q out.1 out.2 r with
    | .error e => firstStop (tk.decode true (ids ++ out.1)) q.stop = some s → e.disagrees = false
    | .ok p => p.1 = none ∧
      (Agrees tk q (ids ++ out.1) (events ++ p.2) ↔
        firstStop (tk.decode true (ids ++ out.1)) q.stop = some s) := by
  obtain ⟨-, htext, hraw, -⟩ := pushed_fields tk (ids ++ out.1)
  have hvisible : visible tk ids <+: visible tk (ids ++ out.1) :=
    prefix_visible tk (List.prefix_append _ _)
  have hs : s < (visible tk (ids ++ out.1)).length := (firstStop_eq_some_iff.mp hstop).1.lt
  have hle : r.emittedTextLen ≤ s := h.settled.le_firstStop hvisible hstop
  have hlen : ((visible tk (ids ++ out.1)).take s).length = s := List.length_take_of_le hs.le
  have htake : ((visible tk (ids ++ out.1)).take s).take s = (visible tk (ids ++ out.1)).take s :=
    List.take_of_length_le hlen.le
  obtain ⟨s', -, hs'⟩ := exists_firstStop_le hstop (tk.visible_extends (ids ++ out.1))
  have hparser := responseParserRawText_pushed q hs.le
  unfold publishTokenDeltas
  rw [h.detokenizer, push_pushed, h.ids_eq]
  simp only [bind, Except.bind, htext, hraw, hstop, Option.map_some, Option.getD_some,
    Option.isSome_some, if_true, hlen, htake, hparser]
  by_cases hcontent : contentRawText tk q (ids ++ out.1) (raw tk (ids ++ out.1)) <+: raw tk (ids ++ out.1)
  · have hlimit := boundary_le tk q (ids ++ out.1) s
    have hb : r.emittedRawTextLen ≤ boundary tk q (ids ++ out.1) s := h.emitted.le_boundary hle
    have hemitted := Emitted.boundary (ids ++ out.1) s hcontent
    have hrawPrefix : raw tk ids <+: raw tk (ids ++ out.1) := prefix_raw tk (List.prefix_append _ _)
    rw [if_pos hcontent, ← take_of_isPrefix hcontent hlimit]
    replace hlimit := hlimit.trans hcontent.length_le
    generalize boundary tk q (ids ++ out.1) s = b at *
    have hblen : ((raw tk (ids ++ out.1)).take b).length = b := List.length_take_of_le hlimit
    have htexts := take_append_drop_take hvisible h.emitted_le hle
    have hraws := take_append_drop_take hrawPrefix h.emitted.le_raw hb
    have hdelta : r.emittedRawTextLen + (((raw tk (ids ++ out.1)).take b).drop r.emittedRawTextLen).length =
        b := by
      rw [List.length_drop, hblen]
      omega
    dsimp only
    rw [if_neg (by rw [hblen]; omega), publishStop_eq (by rfl) (by rfl) hs' _ _ _ (by exact hdelta)]
    generalize ((visible tk (ids ++ out.1)).take s).drop r.emittedTextLen = text at *
    generalize ((raw tk (ids ++ out.1)).take b).drop r.emittedRawTextLen = rawTextDelta at *
    cases hfinal : responseParserRawText tk q (finishedOf tk (ids ++ out.1)) (ids ++ out.1)
        (tk.decode false (ids ++ out.1)) s' with
    | error e => exact fun _ => responseParserRawText_disagrees hfinal
    | ok parser =>
      dsimp only [Except.bind]
      generalize hemits : decide (text ≠ [] ∨ rawTextDelta ≠ []) = emits
      have hsilent : emits = false → text = [] ∧ rawTextDelta = [] := by
        rintro rfl
        simpa using hemits
      obtain ⟨htextOut, hrawOut⟩ :=
        flatMap_published text rawTextDelta (r.pendingTokenIds ++ out.1) hsilent
      have htokens := isToken_published text rawTextDelta (r.pendingTokenIds ++ out.1) emits
      by_cases hshort : parser.length < b
      · rw [if_pos hshort]
        intro hsame
        cases hs'.symm.trans hsame
        exact absurd (hemitted.le_finished (List.prefix_refl _) le_rfl hfinal) (not_le.mpr hshort)
      · rw [if_neg hshort]
        refine ⟨rfl, ?_⟩
        dsimp only
        rw [← List.append_assoc, agrees_iff]
        · exact take_eq_cut_iff (tk.visible_extends _) hstop
        · exact List.forall_mem_append.mpr ⟨h.tokens, htokens⟩
        · rw [List.flatMap_append, htextOut, h.text, htexts, List.drop_of_length_le hlen.le,
            List.append_nil]
        · rw [List.flatMap_append, hrawOut, h.rawText, hraws]
          refine List.prefix_of_prefix_length_le ((List.take_prefix _ _).trans
            (tk.raw_extends (ids ++ out.1))) (prefix_of_responseParserRawText hfinal) ?_
          rw [hblen]
          omega
  · rw [if_neg hcontent]
    exact fun _ => rfl

/-- The last token event, or none, and the final event. -/
theorem Streaming.agrees_ended (h : Streaming tk q ids r events) {ids' pending : List Nat} {parser : Text}
    {reason : FinishReason} {emits : Bool}
    (htexts : (visible tk ids).take r.emittedTextLen ++
      (cut (tk.decode true ids') q.stop).drop r.emittedTextLen = cut (tk.decode true ids') q.stop)
    (hstart : (raw tk ids).take r.emittedRawTextLen = parser.take r.emittedRawTextLen) :
    Agrees tk q ids' (events ++ ((if emits = true then
        [TextEvent.token ((cut (tk.decode true ids') q.stop).drop r.emittedTextLen)
          (parser.drop r.emittedRawTextLen) pending] else []) ++
      [.final (cut (tk.decode true ids') q.stop) parser ((cut (tk.decode true ids') q.stop).drop
        (if emits = true then (cut (tk.decode true ids') q.stop).length else r.emittedTextLen))
        reason ids'])) := by
  rw [← List.append_assoc, agrees_iff]
  · exact List.forall_mem_append.mpr ⟨h.tokens, isToken_published _ _ _ emits⟩
  · cases emits with
    | true =>
      show (events ++ [TextEvent.token _ _ _]).flatMap TextEvent.text ++ List.drop (List.length _) _ = _
      rw [List.flatMap_append, h.text, List.flatMap_singleton, List.drop_length, List.append_nil]
      exact htexts
    | false =>
      show (events ++ []).flatMap TextEvent.text ++ List.drop _ _ = _
      rw [List.append_nil, h.text]
      exact htexts
  · cases emits with
    | true =>
      show (events ++ [TextEvent.token _ _ _]).flatMap TextEvent.rawTextDelta <+: _
      rw [List.flatMap_append, h.rawText, List.flatMap_singleton, hstart]
      show _ ++ List.drop _ _ <+: _
      rw [List.take_append_drop]
    | false =>
      show (events ++ []).flatMap TextEvent.rawTextDelta <+: _
      rw [List.append_nil, h.rawText, hstart]
      exact List.take_prefix _ _

/-- The end of a completion whose text had no stop word so far. -/
theorem Streaming.finish (h : Streaming tk q ids r events) (rest : List Nat) (logprobs : List Bool) :
    match publishFinished tk q (ids ++ rest) logprobs r with
    | .error e => e.disagrees = false
    | .ok ended => Agrees tk q (ids ++ rest) (events ++ ended) := by
  have hdecoded : visible tk ids <+: tk.decode true (ids ++ rest) :=
    (prefix_visible tk (List.prefix_append _ _)).trans (tk.visible_extends _)
  have htext : (finishedOf tk (ids ++ rest)).text = tk.decode true (ids ++ rest) := rfl
  have hraw : (finishedOf tk (ids ++ rest)).rawText = tk.decode false (ids ++ rest) := rfl
  have hcut : ((firstStop (tk.decode true (ids ++ rest)) q.stop).map
      (tk.decode true (ids ++ rest)).take).getD (tk.decode true (ids ++ rest)) =
      cut (tk.decode true (ids ++ rest)) q.stop := rfl
  -- what was emitted is before the first stop word of the decoded text, or before its end
  have hle : r.emittedTextLen ≤ (firstStop (tk.decode true (ids ++ rest)) q.stop).getD
        (tk.decode true (ids ++ rest)).length ∧
      r.emittedTextLen ≤ (cut (tk.decode true (ids ++ rest)) q.stop).length := by
    have hlen := h.emitted_le.trans hdecoded.length_le
    cases hstop : firstStop (tk.decode true (ids ++ rest)) q.stop with
    | none =>
      refine ⟨hlen, ?_⟩
      unfold cut
      rw [hstop]
      exact hlen
    | some s =>
      have hs := h.settled.le_firstStop hdecoded hstop
      refine ⟨hs, ?_⟩
      rw [cut_of_some hstop, List.length_take]
      exact le_min hs hlen
  have htexts : (visible tk ids).take r.emittedTextLen ++
      (cut (tk.decode true (ids ++ rest)) q.stop).drop r.emittedTextLen =
        cut (tk.decode true (ids ++ rest)) q.stop := by
    rw [← take_of_isPrefix hdecoded h.emitted_le, take_of_isPrefix (prefix_cut _ _) hle.2,
      List.take_append_drop]
  unfold publishFinished
  rw [h.detokenizer, finish_pushed tk (List.prefix_append ids rest), h.ids_eq]
  simp only [bind, Except.bind, htext, hraw, hcut]
  cases hparser : responseParserRawText tk q (finishedOf tk (ids ++ rest)) (ids ++ rest)
      (tk.decode false (ids ++ rest)) ((firstStop (tk.decode true (ids ++ rest)) q.stop).getD
        (tk.decode true (ids ++ rest)).length) with
  | error e => exact responseParserRawText_disagrees hparser
  | ok parser =>
    have hemitted := h.emitted.le_finished (List.prefix_append ids rest) hle.1 hparser
    have hstart : (raw tk ids).take r.emittedRawTextLen = parser.take r.emittedRawTextLen := by
      have hdecodedRaw : raw tk ids <+: tk.decode false (ids ++ rest) :=
        (prefix_raw tk (List.prefix_append _ _)).trans (tk.raw_extends _)
      rw [← take_of_isPrefix hdecodedRaw h.emitted.le_raw,
        take_of_isPrefix (prefix_of_responseParserRawText hparser) hemitted]
    dsimp only
    rw [if_neg (not_lt.mpr hemitted)]
    exact h.agrees_ended htexts hstart

/-! ## Whole completions -/

/-- After the step with the first stop word, the decoded text has it first too. -/
def StopKept (tk : Tokenizer) (q : StreamRequest) : List Nat → List (List Nat × List Bool) → Prop
  | _, [] => True
  | ids, out :: outs =>
    match firstStop (visible tk (ids ++ out.1)) q.stop with
    | none => StopKept tk q (ids ++ out.1) outs
    | some s => firstStop (tk.decode true (ids ++ out.1)) q.stop = some s

/-- The tokens of the completion: all of them, or those through the step with the first stop word. -/
def endedIds (tk : Tokenizer) (q : StreamRequest) (rest : List Nat) :
    List Nat → List (List Nat × List Bool) → List Nat
  | ids, [] => ids ++ rest
  | ids, out :: outs =>
    match firstStop (visible tk (ids ++ out.1)) q.stop with
    | none => endedIds tk q rest (ids ++ out.1) outs
    | some _ => ids ++ out.1

variable {outs : List (List Nat × List Bool)}

/-- A request that has ended stays as it is. -/
theorem foldlM_push_ended (tk : Tokenizer) (q : StreamRequest) (events : List TextEvent)
    (outs : List (List Nat × List Bool)) :
    outs.foldlM (fun s out => TextStream.push tk q out s) ⟨none, events⟩ = .ok ⟨none, events⟩ := by
  induction outs with
  | nil => rfl
  | cons out outs ih =>
    rw [List.foldlM_cons]
    exact ih

/-- A completion ends rightly exactly if `kept`, and then no error says otherwise. -/
def Ends (tk : Tokenizer) (q : StreamRequest) (tokenIds : List Nat) (kept : Prop) :
    Except StreamError TextStream → Prop
  | .error e => kept → e.disagrees = false
  | .ok s => Agrees tk q tokenIds s.events ↔ kept

/-- The rest of a completion, from a request in progress. -/
theorem Streaming.run (h : Streaming tk q ids r events) (outs : List (List Nat × List Bool))
    (rest : List Nat) (logprobs : List Bool) :
    Ends tk q (endedIds tk q rest ids outs) (StopKept tk q ids outs)
      ((outs.foldlM (fun s out => TextStream.push tk q out s) ⟨some r, events⟩).bind
        (TextStream.finish tk q (ids ++ (outs.flatMap Prod.fst ++ rest)) logprobs)) := by
  induction outs generalizing ids r events with
  | nil =>
    have hfinish := h.finish rest logprobs
    show Ends tk q (ids ++ rest) True ((publishFinished tk q (ids ++ rest) logprobs r).map _)
    cases hended : publishFinished tk q (ids ++ rest) logprobs r with
    | error e =>
      rw [hended] at hfinish
      exact fun _ => hfinish
    | ok ended =>
      rw [hended] at hfinish
      exact iff_of_true hfinish trivial
  | cons out outs ih =>
    rw [List.foldlM_cons]
    show Ends _ _ _ _ ((((publishTokenDeltas tk q out.1 out.2 r).map _).bind _).bind _)
    cases hfirst : firstStop (visible tk (ids ++ out.1)) q.stop with
    | none =>
      have hkept : StopKept tk q ids (out :: outs) = StopKept tk q (ids ++ out.1) outs := by
        rw [StopKept, hfirst]
      have hended : endedIds tk q rest ids (out :: outs) = endedIds tk q rest (ids ++ out.1) outs := by
        rw [endedIds, hfirst]
      have hstep := h.step hfirst
      rw [hkept, hended]
      cases hpublish : publishTokenDeltas tk q out.1 out.2 r with
      | error e =>
        rw [hpublish] at hstep
        exact fun _ => hstep
      | ok p =>
        rw [hpublish] at hstep
        obtain ⟨r', hr', hstreaming⟩ := hstep
        have hrest := ih hstreaming
        rw [List.append_assoc, ← List.append_assoc out.1] at hrest
        show Ends _ _ _ _ (Except.bind (outs.foldlM _ (TextStream.mk p.1 (events ++ p.2))) _)
        rw [hr', List.flatMap_cons]
        exact hrest
    | some s =>
      have hkept : StopKept tk q ids (out :: outs) =
          (firstStop (tk.decode true (ids ++ out.1)) q.stop = some s) := by
        rw [StopKept, hfirst]
      have hids : endedIds tk q rest ids (out :: outs) = ids ++ out.1 := by
        rw [endedIds, hfirst]
      have hstop := h.stop hfirst
      rw [hkept, hids]
      cases hpublish : publishTokenDeltas tk q out.1 out.2 r with
      | error e =>
        rw [hpublish] at hstop
        exact hstop
      | ok p =>
        rw [hpublish] at hstop
        obtain ⟨hended, hagrees⟩ := hstop
        show Ends _ _ _ _ (Except.bind (outs.foldlM _ (TextStream.mk p.1 (events ++ p.2))) _)
        rw [hended, foldlM_push_ended]
        exact hagrees

/-- A request that is still in progress. -/
theorem Streaming.inProgress (h : Streaming tk q ids r events) (outs : List (List Nat × List Bool))
    {s : TextStream} {r' : ActiveRequest}
    (hpush : outs.foldlM (fun s out => TextStream.push tk q out s) ⟨some r, events⟩ = .ok s)
    (hactive : s.request = some r') : Streaming tk q (ids ++ outs.flatMap Prod.fst) r' s.events := by
  induction outs generalizing ids r events with
  | nil =>
    cases hpush
    cases hactive
    rw [List.flatMap_nil, List.append_nil]
    exact h
  | cons out outs ih =>
    rw [List.foldlM_cons] at hpush
    replace hpush : ((publishTokenDeltas tk q out.1 out.2 r).map fun p =>
        (⟨p.1, events ++ p.2⟩ : TextStream)).bind (fun s => outs.foldlM _ s) = .ok s := hpush
    cases hpublish : publishTokenDeltas tk q out.1 out.2 r with
    | error e =>
      rw [hpublish] at hpush
      cases hpush
    | ok p =>
      rw [hpublish] at hpush
      replace hpush : outs.foldlM (fun s out => TextStream.push tk q out s) ⟨p.1, events ++ p.2⟩ =
        .ok s := hpush
      cases hfirst : firstStop (visible tk (ids ++ out.1)) q.stop with
      | none =>
        have hstep := h.step hfirst
        rw [hpublish] at hstep
        obtain ⟨r'', hr'', hstreaming⟩ := hstep
        rw [hr''] at hpush
        rw [List.flatMap_cons, ← List.append_assoc]
        exact ih hstreaming hpush
      | some i =>
        have hstop := h.stop hfirst
        rw [hpublish] at hstop
        rw [hstop.1, foldlM_push_ended] at hpush
        cases hpush
        cases hactive

/-- For every completion and every way it comes: while it is in progress, a part of the decoded text is
emitted in which no stop word can start. If the first stop word of the decoded text is where the
stream saw it, then no error says that stream and end disagree and the events agree with the final one; if
it is not, the events do not agree. The final event has the tokens of the completion. -/
theorem serve_agrees (tk : Tokenizer) (q : StreamRequest) (outs : List (List Nat × List Bool))
    (rest : List Nat) (logprobs : List Bool) :
    (∀ s, pushAll tk q outs = .ok s → s.request ≠ none →
      s.events.flatMap TextEvent.text <+: tk.decode true (outs.flatMap Prod.fst) ∧
        Settled q.stop (tk.decode true (outs.flatMap Prod.fst))
          (s.events.flatMap TextEvent.text).length) ∧
    (StopKept tk q [] outs → (∀ e, serve tk q outs rest logprobs = .error e → e.disagrees = false) ∧
      ∀ s, serve tk q outs rest logprobs = .ok s → Agrees tk q (endedIds tk q rest [] outs) s.events) ∧
    ∀ s, serve tk q outs rest logprobs = .ok s → Agrees tk q (endedIds tk q rest [] outs) s.events →
      StopKept tk q [] outs := by
  have hrun := (streaming_initial tk q).run outs rest logprobs
  refine ⟨fun s hs hactive => ?_, fun hkept => ⟨fun e he => ?_, fun s hs => ?_⟩, fun s hs hagrees => ?_⟩
  · obtain ⟨r, hr⟩ := Option.ne_none_iff_exists'.mp hactive
    have h := (streaming_initial tk q).inProgress outs hs hr
    rw [List.nil_append] at h
    have hdecoded : visible tk (outs.flatMap Prod.fst) <+: tk.decode true (outs.flatMap Prod.fst) :=
      tk.visible_extends _
    rw [h.text, List.length_take_of_le h.emitted_le]
    exact ⟨(List.take_prefix _ _).trans hdecoded, h.settled.mono hdecoded⟩
  · replace hrun : Ends tk q _ _ (serve tk q outs rest logprobs) := hrun
    rw [he] at hrun
    exact hrun hkept
  · replace hrun : Ends tk q _ _ (serve tk q outs rest logprobs) := hrun
    rw [hs] at hrun
    exact hrun.mpr hkept
  · replace hrun : Ends tk q _ _ (serve tk q outs rest logprobs) := hrun
    rw [hs] at hrun
    exact hrun.mp hagrees

/-! ## A stop word that only the whole decoding shows -/

/-- A byte of a longer character has no text until the character is whole; the decoding of the list shows
such a byte at its end. -/
def byteTokenizer : Tokenizer where
  visibleStep := fun _ tokenId => if tokenId < 128 then [Char.ofNat tokenId] else []
  rawStep := fun _ tokenId => if tokenId < 128 then [Char.ofNat tokenId] else []
  decode := fun _ tokenIds =>
    streamFrom (fun _ tokenId => if tokenId < 128 then [Char.ofNat tokenId] else []) [] tokenIds ++
      if ∃ tokenId ∈ tokenIds.getLast?, 128 ≤ tokenId then ['\uFFFD'] else []
  fragment := fun _ _ => Or.inl rfl
  visible_extends := fun _ => List.prefix_append _ _
  raw_extends := fun _ => List.prefix_append _ _

/-- A completion of three steps: the stop word comes with the second. -/
theorem serve_agrees_stopped : ∃ events,
    serve byteTokenizer ⟨[['c']], [], false, 16⟩ [([97], []), ([98, 99], []), ([100], [])] [101] [] =
        .ok ⟨none, events⟩ ∧
      Agrees byteTokenizer ⟨[['c']], [], false, 16⟩ [97, 98, 99] events := by
  have hkept : StopKept byteTokenizer ⟨[['c']], [], false, 16⟩ []
      [([97], []), ([98, 99], []), ([100], [])] := by
    show firstStop _ _ = some 2
    rfl
  exact ⟨_, rfl, ((serve_agrees _ _ _ [101] []).2.1 hkept).2 _ rfl⟩

/-- The stop words of a request: one of them is found later and starts earlier. -/
def nestedStops : StreamRequest := ⟨[['a', 'b', '\uFFFD'], ['b']], [], false, 16⟩

/-- The stream shows `a`, the end of the same step cuts before it. -/
theorem nestedStops_shorter :
    serve byteTokenizer nestedStops [([97, 98, 226], [])] [] [] = .error (.finalShorter 1 0) ∧
      (StreamError.finalShorter 1 0).disagrees = true :=
  ⟨rfl, rfl⟩

end SparseVllm.Dispatcher
