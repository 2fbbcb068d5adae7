import Mathlib.Data.List.GetD
import SparseVllm.Scheduler.Landing

/-!
# How far the rows of a request have come

How far a request has come is split over `num_prefilled_tokens`, the replay cursor and the
completion length. `Sequence.reached` puts them together: the next index of the history to execute.
`Rebuilt` says that the inputs executed on the rows are `(token_ids[i], position i)` from the
starting point up to `reached`, each once and in order.

`Waits` and `Decodes` are what holds of a request in each queue between two steps. The inputs of a
batch are the next piece of the history (`Ready.inputs`), and a landing moves `reached` past exactly
these (`PrefillLanding.tracks`, `DecodeLanding.tracks`).
-/

namespace SparseVllm

open SparseVllm.Lib

variable {ε σ B κ ν : Type}

/-! ## How far a request has come -/

namespace Sequence

/-- The position of a token: those of the completion are shifted by the delta of the images. -/
def positionOf (a : Sequence B) (i : Nat) : Int :=
  if i < a.numPromptTokens then i else i + a.multimodalPositionDelta

/-- The inputs `(token_ids[i], position i)` for `i` from `start` up to `stop`. -/
def inputsFrom (a : Sequence B) (start stop : Nat) : List (Nat × Int) :=
  (List.range' start (stop - start)).map fun i => (a.tokenIds.getD i 0, a.positionOf i)

/-- Where the inputs on the rows start: 0, or the attached prefix hit. -/
def startPoint (a : Sequence B) : Nat :=
  if a.numPrefilledTokens = 0 then 0 else a.prefixCacheHitLen

/-- The next index to execute. -/
def reached (a : Sequence B) : Nat :=
  if a.numPrefilledTokens < a.numPromptTokens then a.numPrefilledTokens
  else match a.recomputeReplayCursor with
    | some cursor => a.numPromptTokens + cursor
    | none => a.numTokens - 1

/-- The accepted history is one list: the fields that describe it agree. -/
structure Accepted (a : Sequence B) : Prop where
  tokens : a.numTokens = a.tokenIds.length
  prompt : a.numPromptTokens ≤ a.numTokens
  last : a.lastToken = a.tokenIds.getLast?

/-- `token_ids`, the logprob lists and `num_tokens` are the same. -/
structure SameHistory (a b : Sequence B) : Prop where
  tokenIds : b.tokenIds = a.tokenIds
  numTokens : b.numTokens = a.numTokens
  completionTokenLogprobs : b.completionTokenLogprobs = a.completionTokenLogprobs
  completionTopLogprobs : b.completionTopLogprobs = a.completionTopLogprobs

theorem SameHistory.refl (a : Sequence B) : SameHistory a a := ⟨rfl, rfl, rfl, rfl⟩

theorem SameHistory.trans {a b c : Sequence B} (h : SameHistory a b) (h' : SameHistory b c) :
    SameHistory a c :=
  ⟨h'.1.trans h.1, h'.2.trans h.2, h'.3.trans h.3, h'.4.trans h.4⟩

theorem inputsFrom_self (a : Sequence B) (start : Nat) : a.inputsFrom start start = [] := by
  unfold inputsFrom
  rw [Nat.sub_self]
  rfl

/-- Inputs up to the middle, then from the middle. -/
theorem inputsFrom_append (a : Sequence B) {start middle stop : Nat} (h : start ≤ middle)
    (h' : middle ≤ stop) :
    a.inputsFrom start middle ++ a.inputsFrom middle stop = a.inputsFrom start stop := by
  unfold inputsFrom
  rw [← List.map_append]
  congr 1
  have happend := @List.range'_append start (middle - start) (stop - middle) 1
  rw [Nat.one_mul, Nat.add_sub_cancel' h] at happend
  rw [happend]
  congr 1
  omega

/-- The inputs read the history only up to where they stop. -/
theorem inputsFrom_congr {a b : Sequence B} {start stop : Nat}
    (tokens : ∀ i < stop, b.tokenIds.getD i 0 = a.tokenIds.getD i 0)
    (prompt : b.numPromptTokens = a.numPromptTokens)
    (delta : b.multimodalPositionDelta = a.multimodalPositionDelta) :
    b.inputsFrom start stop = a.inputsFrom start stop := by
  unfold inputsFrom
  refine List.map_congr_left fun i hi => ?_
  obtain ⟨hlow, hhigh⟩ := List.mem_range'_1.mp hi
  unfold positionOf
  rw [tokens i (by omega), prompt, delta]

/-- One input. -/
theorem inputsFrom_succ (a : Sequence B) (i : Nat) :
    a.inputsFrom i (i + 1) = [(a.tokenIds.getD i 0, a.positionOf i)] := by
  unfold inputsFrom
  rw [Nat.add_sub_cancel_left]
  rfl

end Sequence

open Sequence

/-- The inputs executed on the rows are the history from the starting point up to `reached`. -/
structure Rebuilt (a : Sequence B) (ran : List (Nat × Int)) : Prop where
  start : a.startPoint ≤ a.reached
  stop : a.reached ≤ a.tokenIds.length
  inputs : ran = a.inputsFrom a.startPoint a.reached

/-- A request in the waiting queue: new or replaying, with nothing or a part of its prompt on its
rows. -/
structure Waits (memory : MemoryOracle ε σ B κ ν) (a : Sequence B) (ran : List (Nat × Int)) :
    Prop where
  accepted : a.Accepted
  replay : a.recomputeReplayCursor = none ∧ a.numTokens = a.numPromptTokens ∨
    a.recomputeReplayCursor = some 0 ∧ a.numPromptTokens < a.numTokens
  progress : a.numPrefilledTokens = 0 ∧ ran = [] ∧ WrittenHit memory a.prefixCacheHitLen ∨
    0 < a.numPrefilledTokens ∧ a.numPrefilledTokens < a.numPromptTokens ∧
      a.prefixCacheHitLen ≤ a.numPrefilledTokens ∧
      ran = a.inputsFrom a.prefixCacheHitLen a.numPrefilledTokens

/-- A request with a complete prompt: sampling, or replaying its completion. -/
structure Generates (a : Sequence B) : Prop where
  accepted : a.Accepted
  completion : a.numPromptTokens < a.numTokens
  prompt : 0 < a.numPromptTokens
  prefilled : a.numPrefilledTokens = a.numPromptTokens
  hit : a.prefixCacheHitLen ≤ a.numPromptTokens
  cursor : ∀ c, a.recomputeReplayCursor = some c → c < a.replayDecodeTokenCount

/-- A request in the decode queue. -/
structure Decodes (a : Sequence B) (ran : List (Nat × Int)) : Prop extends Generates a where
  inputs : ran = a.inputsFrom a.prefixCacheHitLen a.reached

/-- A request of a prefill batch: its chunk ends inside its prompt. -/
structure Prefills (a : Sequence B) : Prop where
  accepted : a.Accepted
  replay : a.recomputeReplayCursor = none ∧ a.numTokens = a.numPromptTokens ∨
    a.recomputeReplayCursor = some 0 ∧ a.numPromptTokens < a.numTokens
  chunk : ∃ k, a.currentChunkSize = some k ∧ 0 < k ∧
    a.numPrefilledTokens + k ≤ a.numPromptTokens
  hit : a.prefixCacheHitLen ≤ a.numPrefilledTokens

theorem Waits.rebuilt {memory : MemoryOracle ε σ B κ ν} {a : Sequence B} {ran : List (Nat × Int)}
    (h : Waits memory a ran) : Rebuilt a ran := by
  have htokens := h.accepted.tokens
  have hprompt := h.accepted.prompt
  rcases h.progress with ⟨hzero, rfl, -⟩ | ⟨hpos, hshort, hhit, rfl⟩
  · have hstart : a.startPoint = 0 := if_pos hzero
    have hreached : a.reached = 0 := by
      unfold reached
      by_cases hempty : a.numPrefilledTokens < a.numPromptTokens
      · rw [if_pos hempty, hzero]
      · rw [if_neg hempty]
        rcases h.replay with ⟨hnone, hsame⟩ | ⟨hsome, hless⟩
        · rw [hnone]
          show a.numTokens - 1 = 0
          omega
        · rw [hsome]
          show a.numPromptTokens + 0 = 0
          omega
    refine ⟨?_, ?_, ?_⟩
    · rw [hstart, hreached]
    · rw [hreached]
      exact Nat.zero_le _
    · rw [hstart, hreached, inputsFrom_self]
  · have hstart : a.startPoint = a.prefixCacheHitLen := if_neg (by omega)
    have hreached : a.reached = a.numPrefilledTokens := if_pos hshort
    refine ⟨?_, ?_, ?_⟩
    · rw [hstart, hreached]
      exact hhit
    · rw [hreached]
      omega
    · rw [hstart, hreached]

theorem Generates.startPoint {a : Sequence B} (h : Generates a) :
    a.startPoint = a.prefixCacheHitLen := by
  have := h.prompt
  have := h.prefilled
  exact if_neg (by omega)

theorem Generates.reached_none {a : Sequence B} (h : Generates a)
    (hnone : a.recomputeReplayCursor = none) : a.reached = a.numTokens - 1 := by
  unfold reached
  rw [if_neg (by rw [h.prefilled]; exact lt_irrefl _), hnone]

theorem Generates.reached_some {a : Sequence B} (h : Generates a) {cursor : Nat}
    (hsome : a.recomputeReplayCursor = some cursor) :
    a.reached = a.numPromptTokens + cursor := by
  unfold reached
  rw [if_neg (by rw [h.prefilled]; exact lt_irrefl _), hsome]

/-- The next input is an accepted token of the completion, or the last token of the prompt's
successor. -/
theorem Generates.reached_bounds {a : Sequence B} (h : Generates a) :
    a.numPromptTokens ≤ a.reached ∧ a.reached < a.numTokens := by
  have hcompletion := h.completion
  cases hc : a.recomputeReplayCursor with
  | none =>
    rw [h.reached_none hc]
    omega
  | some cursor =>
    have hcursor := h.cursor cursor hc
    unfold replayDecodeTokenCount numCompletionTokens at hcursor
    rw [h.reached_some hc]
    omega

theorem Decodes.rebuilt {a : Sequence B} {ran : List (Nat × Int)} (h : Decodes a ran) :
    Rebuilt a ran := by
  have hbounds := h.reached_bounds
  have hhit := h.hit
  refine ⟨?_, ?_, ?_⟩
  · rw [h.startPoint]
    omega
  · rw [← h.accepted.tokens]
    omega
  · rw [h.startPoint]
    exact h.inputs

/-! ## The inputs of a batch -/

theorem Sequence.positionOf_prompt {a : Sequence B} {i : Nat} (h : i < a.numPromptTokens) :
    a.positionOf i = i := if_pos h

theorem Sequence.positionOf_completion {a : Sequence B} {i : Nat} (h : a.numPromptTokens ≤ i) :
    a.positionOf i = i + a.multimodalPositionDelta := if_neg (not_lt.mpr h)

/-- A slice of the prompt beside its positions. -/
theorem Sequence.zip_positions (a : Sequence B) {start chunk : Nat}
    (hprompt : start + chunk ≤ a.numPromptTokens) (hlen : start + chunk ≤ a.tokenIds.length) :
    ((a.tokenIds.take (start + chunk)).drop start).zip ((List.range' start chunk).map Int.ofNat) =
      a.inputsFrom start (start + chunk) := by
  unfold inputsFrom
  rw [Nat.add_sub_cancel_left]
  refine List.ext_getElem ?_ fun i hi hi' => ?_
  · simp only [List.length_zip, List.length_drop, List.length_take, List.length_map,
      List.length_range']
    omega
  · have hi : i < chunk := by simpa using hi'
    rw [List.getElem_zip, List.getElem_map, List.getElem_map, List.getElem_range']
    rw [List.getElem_drop, List.getElem_take, Nat.one_mul, positionOf_prompt (by omega)]
    rw [List.getD_eq_getElem _ _ (by omega)]
    rfl

/-- A chunk is the next piece of the prompt. -/
theorem Prefills.inputs {a : Sequence B} (h : Prefills a) {chunk : Nat}
    (hchunk : a.currentChunkSize = some chunk) :
    a.prefillInputs = .ok (a.inputsFrom a.numPrefilledTokens (a.numPrefilledTokens + chunk)) := by
  obtain ⟨k, hk, hpos, hle⟩ := h.chunk
  obtain rfl : k = chunk := Option.some.inj (hk.symm.trans hchunk)
  have htokens := h.accepted.tokens
  have hprompt := h.accepted.prompt
  have hslice : (if k < a.tokenIds.length then
      (a.tokenIds.take (a.numPrefilledTokens + k)).drop a.numPrefilledTokens else a.tokenIds) =
      (a.tokenIds.take (a.numPrefilledTokens + k)).drop a.numPrefilledTokens := by
    split
    · rfl
    · -- The chunk is the whole history: it starts at 0.
      have hzero : a.numPrefilledTokens = 0 := by omega
      rw [hzero, List.take_of_length_le (by omega), List.drop_zero]
  unfold Sequence.prefillInputs
  rw [hchunk]
  simp only
  rw [hslice, a.zip_positions hle (by omega)]

/-- A decode input is the next token of the history: the one under the cursor of a replay, or the
last one. -/
theorem Generates.inputs {a : Sequence B} (h : Generates a) :
    a.decodeInputs = .ok (a.inputsFrom a.reached (a.reached + 1)) := by
  have htokens := h.accepted.tokens
  have hbounds := h.reached_bounds
  have htoken : a.decodeInputToken = .ok (a.tokenIds.getD a.reached 0) := by
    unfold Sequence.decodeInputToken isRecomputeDecode isRecomputeReplay
    cases hc : a.recomputeReplayCursor with
    | none =>
      have hlast : a.lastToken = some (a.tokenIds.getD a.reached 0) := by
        rw [h.accepted.last, List.getLast?_eq_getElem?, h.reached_none hc, ← htokens]
        rw [List.getD_eq_getElem?_getD]
        rw [List.getElem?_eq_getElem (by omega)]
        rfl
      rw [hlast]
      rfl
    | some cursor =>
      have hcursor := h.cursor cursor hc
      have hreached := h.reached_some hc
      rw [Option.isSome_some, Bool.true_and, h.prefilled, decide_eq_true (le_refl _)]
      rw [if_neg Bool.noConfusion, Option.getD_some]
      simp only
      rw [if_neg (not_le.mpr hcursor), ← hreached, List.getElem?_eq_getElem (by omega)]
      simp only
      rw [List.getD_eq_getElem _ _ (by omega)]
  have hposition : a.decodeInputPosition = a.positionOf a.reached := by
    rw [positionOf_completion hbounds.1]
    unfold Sequence.decodeInputPosition isRecomputeDecode isRecomputeReplay
    congr 1
    cases hc : a.recomputeReplayCursor with
    | none =>
      rw [h.reached_none hc]
      show (a.numTokens : Int) - 1 = _
      omega
    | some cursor =>
      rw [h.reached_some hc, Option.isSome_some, Bool.true_and, h.prefilled,
        decide_eq_true (le_refl _)]
      simp
  unfold Sequence.decodeInputs
  rw [htoken, hposition, inputsFrom_succ]

/-- Where the inputs of a batch stop for a request. -/
def Sequence.stopPoint (isPrefill : Bool) (a : Sequence B) : Nat :=
  a.reached + if isPrefill then a.currentChunkSize.getD 0 else 1

/-- A request of a batch that is about to run. -/
def Ready (isPrefill : Bool) (a : Sequence B) : Prop :=
  if isPrefill then Prefills a else Generates a

theorem Prefills.reached {a : Sequence B} (h : Prefills a) : a.reached = a.numPrefilledTokens := by
  obtain ⟨k, -, hpos, hle⟩ := h.chunk
  exact if_pos (by omega)

theorem Ready.inputs {isPrefill : Bool} {a : Sequence B} (h : Ready isPrefill a) :
    batchInputs isPrefill a = .ok (a.inputsFrom a.reached (a.stopPoint isPrefill)) := by
  cases isPrefill with
  | false => exact Generates.inputs h
  | true =>
    obtain ⟨k, hk, -, -⟩ := Prefills.chunk h
    show a.prefillInputs = .ok (a.inputsFrom a.reached (a.reached + a.currentChunkSize.getD 0))
    rw [Prefills.inputs h hk, Prefills.reached h, hk]
    rfl

/-! ## Landings -/

/-- What a step may do to the history of a request: a replay keeps it, and an accepted sample
follows inputs that cover it. -/
structure Advanced (a b : Sequence B) : Prop where
  replay : a.isRecomputeReplay = true → SameHistory a b
  sampled : b.numTokens ≠ a.numTokens → b.reached = b.numTokens - 1

theorem Advanced.of_same {a b : Sequence B} (h : SameHistory a b) : Advanced a b :=
  ⟨fun _ => h, fun hne => absurd h.numTokens hne⟩

/-- The inputs end where the history ends, so the request may sample. -/
structure Samples (a : Sequence B) (ran : List (Nat × Int)) : Prop where
  accepted : a.Accepted
  prompt : 0 < a.numPromptTokens
  prefilled : a.numPrefilledTokens = a.numPromptTokens
  hit : a.prefixCacheHitLen ≤ a.numPromptTokens
  fresh : a.recomputeReplayCursor = none
  inputs : ran = a.inputsFrom a.prefixCacheHitLen a.numTokens

theorem Samples.append {a : Sequence B} {ran : List (Nat × Int)} (h : Samples a ran)
    (sample : Sample) : Decodes (a.appendToken sample) ran := by
  have htokens := h.accepted.tokens
  have hgenerates : Generates (a.appendToken sample) := by
    refine ⟨⟨?_, ?_, ?_⟩, ?_, h.prompt, h.prefilled, h.hit, ?_⟩
    · show a.numTokens + 1 = (a.tokenIds ++ [sample.tokenId]).length
      rw [List.length_append, htokens]
      rfl
    · show a.numPromptTokens ≤ a.numTokens + 1
      exact Nat.le_succ_of_le h.accepted.prompt
    · show some sample.tokenId = (a.tokenIds ++ [sample.tokenId]).getLast?
      rw [List.getLast?_concat]
    · show a.numPromptTokens < a.numTokens + 1
      exact Nat.lt_succ_of_le h.accepted.prompt
    · intro cursor hcursor
      rw [show (a.appendToken sample).recomputeReplayCursor = none from h.fresh] at hcursor
      cases hcursor
  refine ⟨hgenerates, ?_⟩
  rw [hgenerates.reached_none h.fresh, h.inputs]
  have hsame : (a.appendToken sample).inputsFrom a.prefixCacheHitLen a.numTokens =
      a.inputsFrom a.prefixCacheHitLen a.numTokens :=
    inputsFrom_congr (fun i hi => List.getD_append _ _ 0 i (by omega)) rfl rfl
  exact hsame.symm

/-- An accepted sample, whether the request goes on or ends. -/
theorem Acceptance.tracks {cfg : SchedulerConfig} {sample : Sample} {seq : SeqId}
    {a b : Sequence B} {decoding decoding' : List SeqId} {ran : List (Nat × Int)}
    (land : Acceptance cfg sample seq a decoding b decoding') (h : Samples a ran) :
    Decodes b ran ∧ b.recomputeReplayCursor = none := by
  cases land with
  | lives live => exact ⟨h.append sample, h.fresh⟩
  | ends done =>
    have happend := h.append sample
    refine ⟨⟨⟨?_, happend.completion, happend.prompt, happend.prefilled, happend.hit,
      happend.cursor⟩, happend.inputs⟩, h.fresh⟩
    exact ⟨happend.accepted.tokens, happend.accepted.prompt, happend.accepted.last⟩

/-- The chunk of a prefill, done. -/
theorem Prefills.stopPoint {a : Sequence B} (h : Prefills a) {chunk : Nat}
    (hchunk : a.currentChunkSize = some chunk) :
    a.stopPoint true = a.numPrefilledTokens + chunk := by
  unfold Sequence.stopPoint
  rw [h.reached, hchunk]
  rfl

/-- **A prefill landing**: the request waits with the longer prefix, or decodes. -/
theorem PrefillLanding.tracks {cfg : SchedulerConfig} {sample : Sample} {seq : SeqId}
    {a b : Sequence B} {waiting decoding waiting' decoding' : List SeqId} {ran : List (Nat × Int)}
    (land : PrefillLanding cfg sample seq a waiting decoding b waiting' decoding')
    (memory : MemoryOracle ε σ B κ ν)
    (h : Prefills a) (inputs : ran = a.inputsFrom a.prefixCacheHitLen (a.stopPoint true)) :
    Advanced a b ∧ ((waiting' = seq :: waiting ∧ decoding' = decoding ∧ Waits memory b ran ∧
        b.status ≠ .finished) ∨
      (waiting' = waiting ∧ Decodes b ran ∧
        (decoding' = decoding ++ [seq] ∧ b.status ≠ .finished ∨
          decoding' = (decoding ++ [seq]).erase seq))) := by
  have haccepted := h.accepted
  have hhit := h.hit
  -- The prompt is complete: the chunk ends where the prompt does.
  have hexact : ∀ {chunk}, a.currentChunkSize = some chunk →
      a.numPromptTokens ≤ a.numPrefilledTokens + chunk →
      a.numPrefilledTokens + chunk = a.numPromptTokens ∧ 0 < a.numPromptTokens := by
    intro chunk hchunk hfull
    obtain ⟨k, hk, hpos, hle⟩ := h.chunk
    obtain rfl : k = chunk := Option.some.inj (hk.symm.trans hchunk)
    omega
  have hreplays : a.isRecomputeReplay = true →
      a.recomputeReplayCursor = some 0 ∧ a.numPromptTokens < a.numTokens := by
    intro hreplay
    rcases h.replay with ⟨hnone, -⟩ | hsome
    · unfold isRecomputeReplay at hreplay
      rw [hnone] at hreplay
      cases hreplay
    · exact hsome
  cases land with
  | more chunk given short =>
    obtain ⟨k, hk, hpos, -⟩ := h.chunk
    obtain rfl : k = chunk := Option.some.inj (hk.symm.trans given)
    rw [h.stopPoint given] at inputs
    refine ⟨.of_same ⟨rfl, rfl, rfl, rfl⟩, Or.inl ⟨rfl, rfl, ?_, nofun⟩⟩
    refine ⟨⟨haccepted.tokens, haccepted.prompt, haccepted.last⟩, h.replay, Or.inr ?_⟩
    exact ⟨Nat.add_pos_right _ hpos, short, Nat.le_add_right_of_le hhit, inputs⟩
  | replays chunk given full replay more =>
    obtain ⟨hprompt, hpos⟩ := hexact given full
    obtain ⟨hcursor, hcompletion⟩ := hreplays replay
    rw [h.stopPoint given, hprompt] at inputs
    refine ⟨.of_same ⟨rfl, rfl, rfl, rfl⟩, Or.inr ⟨rfl, ?_, Or.inl ⟨rfl, nofun⟩⟩⟩
    have hgenerates : Generates { a.prefilled chunk with status := .running } := by
      refine ⟨⟨haccepted.tokens, haccepted.prompt, haccepted.last⟩, hcompletion, hpos, hprompt,
        ?_, fun cursor hc => ?_⟩
      · show a.prefixCacheHitLen ≤ a.numPromptTokens
        omega
      · obtain rfl := Option.some.inj (hcursor.symm.trans hc)
        exact more
    refine ⟨hgenerates, ?_⟩
    rw [hgenerates.reached_some hcursor]
    exact inputs
  | recovers chunk given full replay none =>
    obtain ⟨hprompt, hpos⟩ := hexact given full
    obtain ⟨hcursor, hcompletion⟩ := hreplays replay
    rw [h.stopPoint given, hprompt] at inputs
    refine ⟨.of_same ⟨rfl, rfl, rfl, rfl⟩, Or.inr ⟨rfl, ?_, Or.inl ⟨rfl, nofun⟩⟩⟩
    have hgenerates : Generates { a.prefilled chunk with status := .running }.recovered := by
      refine ⟨⟨haccepted.tokens, haccepted.prompt, haccepted.last⟩, hcompletion, hpos, hprompt,
        ?_, fun cursor hc => ?_⟩
      · show a.prefixCacheHitLen ≤ a.numPromptTokens
        omega
      · cases hc
    refine ⟨hgenerates, ?_⟩
    rw [hgenerates.reached_none rfl]
    -- One completion token: the prompt is all there is to rebuild.
    have hone : a.numTokens - 1 = a.numPromptTokens := by
      unfold replayDecodeTokenCount numCompletionTokens at none
      omega
    show ran = a.inputsFrom a.prefixCacheHitLen (a.numTokens - 1)
    rw [hone]
    exact inputs
  | accepts chunk b decoding' given full fresh accepted =>
    obtain ⟨hprompt, hpos⟩ := hexact given full
    obtain ⟨hnone, hsame⟩ : a.recomputeReplayCursor = .none ∧ a.numTokens = a.numPromptTokens := by
      rcases h.replay with hfresh | ⟨hsome, -⟩
      · exact hfresh
      · unfold isRecomputeReplay at fresh
        rw [hsome] at fresh
        cases fresh
    rw [h.stopPoint given, hprompt, ← hsame] at inputs
    have hsamples : Samples { a.prefilled chunk with status := .running } ran := by
      refine ⟨⟨haccepted.tokens, haccepted.prompt, haccepted.last⟩, hpos, hprompt, ?_, hnone, inputs⟩
      show a.prefixCacheHitLen ≤ a.numPromptTokens
      omega
    obtain ⟨hdecodes, hcursor⟩ := accepted.tracks hsamples
    refine ⟨⟨fun hreplay => ?_, fun _ => hdecodes.reached_none hcursor⟩, Or.inr ⟨rfl, hdecodes, ?_⟩⟩
    · rw [fresh] at hreplay
      cases hreplay
    · cases accepted with
      | lives => exact Or.inl ⟨rfl, nofun⟩
      | ends => exact Or.inr rfl

/-- **A decode landing**: one more input, and the request still decodes, unless it ended. -/
theorem DecodeLanding.tracks {cfg : SchedulerConfig} {sample : Sample} {seq : SeqId}
    {a b : Sequence B} {decoding decoding' : List SeqId} {ran : List (Nat × Int)}
    (land : DecodeLanding cfg sample seq a decoding b decoding') (h : Generates a)
    (inputs : ran = a.inputsFrom a.prefixCacheHitLen (a.stopPoint false)) :
    Advanced a b ∧ Decodes b ran ∧
      (decoding' = decoding ∧ b.status = a.status ∨ decoding' = decoding.erase seq) := by
  have haccepted := h.accepted
  have hreplays : a.isRecomputeDecode = true → ∃ cursor, a.recomputeReplayCursor = some cursor := by
    intro hreplay
    unfold isRecomputeDecode isRecomputeReplay at hreplay
    exact Option.isSome_iff_exists.mp (Bool.and_eq_true_iff.mp hreplay).1
  cases land with
  | replays replay more =>
    obtain ⟨cursor, hcursor⟩ := hreplays replay
    rw [hcursor, Option.getD_some] at more
    have hnext : a.replayed.recomputeReplayCursor = some (cursor + 1) := by
      unfold replayed
      rw [hcursor]
      rfl
    have hgenerates : Generates a.replayed := by
      refine ⟨⟨haccepted.tokens, haccepted.prompt, haccepted.last⟩, h.completion, h.prompt,
        h.prefilled, h.hit, fun c hc => ?_⟩
      obtain rfl := Option.some.inj (hnext.symm.trans hc)
      exact more
    refine ⟨.of_same ⟨rfl, rfl, rfl, rfl⟩, ⟨hgenerates, ?_⟩, Or.inl ⟨rfl, rfl⟩⟩
    rw [hgenerates.reached_some hnext, inputs]
    unfold stopPoint
    rw [h.reached_some hcursor]
    rfl
  | recovers replay last =>
    obtain ⟨cursor, hcursor⟩ := hreplays replay
    have hless := h.cursor cursor hcursor
    rw [hcursor, Option.getD_some] at last
    have hgenerates : Generates a.replayed.recovered :=
      ⟨⟨haccepted.tokens, haccepted.prompt, haccepted.last⟩, h.completion, h.prompt, h.prefilled,
        h.hit, fun c hc => by cases hc⟩
    refine ⟨.of_same ⟨rfl, rfl, rfl, rfl⟩, ⟨hgenerates, ?_⟩, Or.inl ⟨rfl, rfl⟩⟩
    rw [hgenerates.reached_none rfl, inputs]
    -- The last token replayed is the last but one of the history.
    have hstop : a.stopPoint false = a.numTokens - 1 := by
      unfold stopPoint
      rw [h.reached_some hcursor]
      unfold replayDecodeTokenCount numCompletionTokens at hless last
      show a.numPromptTokens + cursor + 1 = a.numTokens - 1
      omega
    rw [hstop]
    rfl
  | accepts b decoding' fresh accepted =>
    have hnone : a.recomputeReplayCursor = none := by
      unfold isRecomputeDecode isRecomputeReplay at fresh
      rw [h.prefilled, decide_eq_true (le_refl _), Bool.and_true] at fresh
      exact Option.isSome_eq_false_iff.mp fresh |> Option.isNone_iff_eq_none.mp
    have hcompletion := h.completion
    have hstop : a.stopPoint false = a.numTokens := by
      unfold stopPoint
      rw [h.reached_none hnone]
      show a.numTokens - 1 + 1 = a.numTokens
      omega
    rw [hstop] at inputs
    obtain ⟨hdecodes, hcursor⟩ := accepted.tracks
      ⟨haccepted, h.prompt, h.prefilled, h.hit, hnone, inputs⟩
    refine ⟨⟨fun hreplay => ?_, fun _ => hdecodes.reached_none hcursor⟩, hdecodes, ?_⟩
    · unfold isRecomputeReplay at hreplay
      rw [hnone] at hreplay
      cases hreplay
    · cases accepted with
      | lives => exact Or.inl ⟨rfl, rfl⟩
      | ends => exact Or.inr rfl

end SparseVllm
