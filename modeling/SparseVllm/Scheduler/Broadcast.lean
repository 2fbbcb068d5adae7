import SparseVllm.Scheduler.Publish

/-!
# What a worker sees of a request (`Sequence.__getstate__`, `Sequence.__setstate__`)

Rank 0 sends the requests of a batch to the tensor-parallel workers without their histories: the
counters, and the tokens of the chunk in a prefill or one token in a decode. A worker tells the two
apart by the counters, and then reads its copy with the methods rank 0 reads the original with.

Left out: the sampling parameters and the penalty state, as in `Sequence`, and `_prompt_token_ids`,
which no method here reads.

## Results

* `Prefills.received`, `Generates.received`: the copy of a request that is about to run.
* **`broadcast_agrees`**: rank 0 and the workers execute the same inputs, in every step of every run.
-/

namespace SparseVllm

open SparseVllm.Lib

variable {ε σ B κ ν : Type}

namespace Sequence

/-! ## What both sides read -/

def isRecomputePrefill (seq : Sequence B) : Bool :=
  seq.isRecomputeReplay && decide (seq.numPrefilledTokens < seq.numPromptTokens)

/-- `token_ids[start:stop]`. -/
def tokenSlice (seq : Sequence B) (start stop : Nat) : List Nat :=
  (seq.tokenIds.take stop).drop start

/-- `replay_input_token_ids`: a list of the length of the chunk is the chunk. -/
def replayInputTokenIds (seq : Sequence B) : List Nat :=
  if seq.isRecomputePrefill = false then []
  else
    let start := seq.numPrefilledTokens
    let stop := start + seq.currentChunkSize.getD 0
    if seq.tokenIds.length = stop - start then seq.tokenIds else seq.tokenSlice start stop

/-- `chunk_tokens` of `_prepare_prefill`. -/
def chunkTokens (seq : Sequence B) : Except SequenceError (List Nat) :=
  match seq.currentChunkSize with
  | none => .error .chunkSizeMissing
  | some chunk =>
    if chunk < seq.tokenIds.length then
      .ok (seq.tokenSlice seq.numPrefilledTokens (seq.numPrefilledTokens + chunk))
    else .ok seq.tokenIds

end Sequence

/-! ## The message -/

/-- `data` of `__getstate__`. -/
inductive SentTokens where
  | chunk (tokenIds : List Nat)
  | token (token : Option Nat)
  deriving DecidableEq, Repr

/-- The tuple of `__getstate__`. -/
structure SequenceState (B : Type) where
  status : SequenceStatus
  numTokens : Nat
  numPromptTokens : Nat
  numPrefilledTokens : Nat
  currentChunkSize : Option Nat
  maxTokens : Nat
  ignoreEos : Bool
  eosTokenIds : List Nat
  data : SentTokens
  prefixCacheHitLen : Nat
  prefixCacheHitBlockCount : Nat
  prefixCacheHitLastBlockId : Option B
  recomputeReplayCursor : Option Nat
  decodeProgressCheckpoint : Nat
  hasMultimodalDigest : Bool
  multimodalPositionDelta : Int
  multimodalFullPrefill : Bool

namespace Sequence

/-- The tokens of `__getstate__`: of a prompt the chunk, of a replay the token under the cursor, else
the last token. -/
def sentTokens (seq : Sequence B) : Except SequenceError SentTokens :=
  if seq.numCompletionTokens = 0 ∨ seq.isRecomputePrefill = true then
    let chunkSize := seq.currentChunkSize.getD seq.numPromptTokens
    .ok (.chunk (seq.tokenSlice seq.numPrefilledTokens (seq.numPrefilledTokens + chunkSize)))
  else if seq.isRecomputeDecode = true then
    match seq.decodeInputToken with
    | .error e => .error e
    | .ok token => .ok (.token (some token))
  else .ok (.token seq.lastToken)

/-- `__getstate__`. -/
def getState (seq : Sequence B) : Except SequenceError (SequenceState B) :=
  match seq.sentTokens with
  | .error e => .error e
  | .ok data => .ok
    { status := seq.status
      numTokens := seq.numTokens
      numPromptTokens := seq.numPromptTokens
      numPrefilledTokens := seq.numPrefilledTokens
      currentChunkSize := seq.currentChunkSize
      maxTokens := seq.maxTokens
      ignoreEos := seq.ignoreEos
      eosTokenIds := seq.eosTokenIds
      data := data
      prefixCacheHitLen := seq.prefixCacheHitLen
      prefixCacheHitBlockCount := seq.prefixCacheHitBlockCount
      prefixCacheHitLastBlockId := seq.prefixCacheHitLastBlockId
      recomputeReplayCursor := seq.recomputeReplayCursor
      decodeProgressCheckpoint := seq.decodeProgressCheckpoint
      hasMultimodalDigest := seq.hasMultimodalDigest
      multimodalPositionDelta := seq.multimodalPositionDelta
      multimodalFullPrefill := seq.multimodalFullPrefill }

/-- A request with the fields of a message, and no tokens yet. -/
def ofState (state : SequenceState B) : Sequence B where
  status := state.status
  tokenIds := []
  numTokens := state.numTokens
  numPromptTokens := state.numPromptTokens
  numPrefilledTokens := state.numPrefilledTokens
  currentChunkSize := state.currentChunkSize
  prefixCacheHitLen := state.prefixCacheHitLen
  prefixCacheHitBlockCount := state.prefixCacheHitBlockCount
  prefixCacheHitLastBlockId := state.prefixCacheHitLastBlockId
  hasMultimodalDigest := state.hasMultimodalDigest
  multimodalFullPrefill := state.multimodalFullPrefill
  recomputeReplayCursor := state.recomputeReplayCursor
  decodeProgressCheckpoint := state.decodeProgressCheckpoint
  multimodalPositionDelta := state.multimodalPositionDelta
  maxTokens := state.maxTokens
  ignoreEos := state.ignoreEos
  eosTokenIds := state.eosTokenIds

/-- `__setstate__`; `none` when the tokens are not of the kind the counters tell. -/
def setState (state : SequenceState B) : Option (Sequence B) :=
  let seq := ofState state
  if seq.numCompletionTokens = 0 ∨ seq.isRecomputePrefill = true then
    match state.data with
    | .chunk tokenIds => some { seq with tokenIds := tokenIds, lastToken := tokenIds.getLast? }
    | .token _ => none
  else
    match state.data with
    | .chunk _ => none
    | .token token => some { seq with lastToken := token }

/-- The copy of a request that a worker rebuilds. -/
def received (seq : Sequence B) : Option (Sequence B) :=
  match seq.getState with
  | .error _ => none
  | .ok state => setState state

/-- The copy of a request, with its tokens. -/
def copyWith (seq : Sequence B) (tokenIds : List Nat) (lastToken : Option Nat) : Sequence B :=
  { seq with
    tokenIds := tokenIds
    lastToken := lastToken
    completionTokenLogprobs := []
    completionTopLogprobs := [] }

end Sequence

/-! ## The copies -/

open Sequence

/-- A worker's copy of a request in a step agrees with the original. -/
structure SameStep (isPrefill : Bool) (original copy : Sequence B) : Prop where
  inputs : batchInputs isPrefill copy = batchInputs isPrefill original
  chunk : isPrefill = true → copy.chunkTokens = original.chunkTokens
  token : isPrefill = false → copy.decodeInputToken = original.decodeInputToken
  position : copy.decodeInputPosition = original.decodeInputPosition
  replayTokens : copy.replayInputTokenIds = original.replayInputTokenIds
  recomputePrefill : copy.isRecomputePrefill = original.isRecomputePrefill
  recomputeDecode : copy.isRecomputeDecode = original.isRecomputeDecode
  lastChunk : copy.isLastChunkPrefill = original.isLastChunkPrefill
  publish : copy.shouldPublishSample = original.shouldPublishSample

section Copies

variable {a : Sequence B}

theorem received_chunk (hprompt : a.numCompletionTokens = 0 ∨ a.isRecomputePrefill = true)
    {chunk : Nat} (hchunk : a.currentChunkSize = some chunk) :
    a.received = some (a.copyWith
      (a.tokenSlice a.numPrefilledTokens (a.numPrefilledTokens + chunk))
      (a.tokenSlice a.numPrefilledTokens (a.numPrefilledTokens + chunk)).getLast?) := by
  have hsent : a.sentTokens =
      .ok (.chunk (a.tokenSlice a.numPrefilledTokens (a.numPrefilledTokens + chunk))) := by
    unfold sentTokens
    rw [if_pos hprompt, hchunk]
    rfl
  unfold received getState
  rw [hsent]
  exact if_pos hprompt

theorem received_token (hprompt : ¬ (a.numCompletionTokens = 0 ∨ a.isRecomputePrefill = true))
    {token : Option Nat} (hsent : a.sentTokens = .ok (.token token)) :
    a.received = some (a.copyWith [] token) := by
  unfold received getState
  rw [hsent]
  exact if_neg hprompt

/-- A request of a prefill batch has no completion, or is replayed. -/
theorem Prefills.prompt (h : Prefills a) :
    a.numCompletionTokens = 0 ∨ a.isRecomputePrefill = true := by
  obtain ⟨k, -, hpos, hle⟩ := h.chunk
  rcases h.replay with ⟨-, hsame⟩ | ⟨hsome, -⟩
  · left
    unfold numCompletionTokens
    omega
  · right
    unfold isRecomputePrefill isRecomputeReplay
    rw [hsome, Option.isSome_some, Bool.true_and]
    exact decide_eq_true (by omega)

theorem Generates.not_prompt (h : Generates a) :
    ¬ (a.numCompletionTokens = 0 ∨ a.isRecomputePrefill = true) := by
  have hcompletion := h.completion
  have hprefilled := h.prefilled
  unfold numCompletionTokens isRecomputePrefill
  rw [Bool.and_eq_true, decide_eq_true_iff]
  omega

theorem prefillInputs_of_chunkTokens {k : Nat} (hk : a.currentChunkSize = some k)
    {tokens : List Nat} (h : a.chunkTokens = .ok tokens) :
    a.prefillInputs =
      .ok (tokens.zip ((List.range' a.numPrefilledTokens k).map Int.ofNat)) := by
  unfold chunkTokens at h
  unfold prefillInputs
  rw [hk] at h ⊢
  simp only at h ⊢
  split at h
  · rename_i hshort
    rw [if_pos hshort, ← Except.ok.inj h]
    rfl
  · rename_i hwhole
    rw [if_neg hwhole, ← Except.ok.inj h]

theorem replayInputTokenIds_of_chunk (hreplay : a.isRecomputePrefill = true) {k : Nat}
    (hk : a.currentChunkSize = some k) : a.replayInputTokenIds =
      if a.tokenIds.length = k then a.tokenIds
      else a.tokenSlice a.numPrefilledTokens (a.numPrefilledTokens + k) := by
  unfold replayInputTokenIds
  rw [if_neg (by rw [hreplay]; exact Bool.noConfusion), hk]
  simp only [Option.getD_some, Nat.add_sub_cancel_left]

/-- The chunk of a prefill is a slice of the prompt, also when it is the whole history. -/
theorem Prefills.chunkTokens (h : Prefills a) {k : Nat} (hk : a.currentChunkSize = some k) :
    a.chunkTokens = .ok (a.tokenSlice a.numPrefilledTokens (a.numPrefilledTokens + k)) ∧
      (a.tokenSlice a.numPrefilledTokens (a.numPrefilledTokens + k)).length = k := by
  obtain ⟨k', hk', hpos, hle⟩ := h.chunk
  obtain rfl : k' = k := Option.some.inj (hk'.symm.trans hk)
  have htokens := h.accepted.tokens
  have hprompt := h.accepted.prompt
  refine ⟨?_, ?_⟩
  · unfold Sequence.chunkTokens
    rw [hk]
    simp only
    split
    · rfl
    · have hzero : a.numPrefilledTokens = 0 := by omega
      unfold tokenSlice
      rw [hzero, List.drop_zero, List.take_of_length_le (by omega)]
  · unfold tokenSlice
    rw [List.length_drop, List.length_take]
    omega

/-- **The copy of a request in a prefill** carries the chunk alone. -/
theorem Prefills.received (h : Prefills a) :
    ∃ copy, a.received = some copy ∧ SameStep true a copy := by
  obtain ⟨k, hk, hpos, hle⟩ := h.chunk
  have htokens := h.accepted.tokens
  obtain ⟨hchunk, hlength⟩ := h.chunkTokens hk
  have hcopy : ∀ last, (a.copyWith (a.tokenSlice a.numPrefilledTokens (a.numPrefilledTokens + k))
      last).chunkTokens = a.chunkTokens := by
    intro last
    rw [hchunk]
    unfold Sequence.chunkTokens copyWith
    simp only [hk]
    rw [if_neg (by rw [hlength]; exact lt_irrefl k)]
  refine ⟨_, received_chunk h.prompt hk, ?_, fun _ => hcopy _, nofun, rfl, ?_, rfl, rfl, rfl, rfl⟩
  · show Sequence.prefillInputs _ = a.prefillInputs
    rw [prefillInputs_of_chunkTokens hk hchunk]
    have hcopied := (hcopy (a.tokenSlice a.numPrefilledTokens
      (a.numPrefilledTokens + k)).getLast?).trans hchunk
    exact prefillInputs_of_chunkTokens (a := a.copyWith _ _) hk hcopied
  · by_cases hreplay : a.isRecomputePrefill = true
    · have hcompletion : a.numPromptTokens < a.numTokens := by
        rcases h.replay with ⟨hnone, -⟩ | ⟨-, hless⟩
        · unfold isRecomputePrefill isRecomputeReplay at hreplay
          rw [hnone] at hreplay
          cases hreplay
        · exact hless
      have hwhole : a.replayInputTokenIds =
          a.tokenSlice a.numPrefilledTokens (a.numPrefilledTokens + k) := by
        rw [replayInputTokenIds_of_chunk hreplay hk, if_neg (by omega)]
      rw [hwhole, replayInputTokenIds_of_chunk (a := a.copyWith _ _) hreplay hk]
      exact if_pos hlength
    · rw [Bool.not_eq_true] at hreplay
      exact (if_pos hreplay).trans (if_pos hreplay).symm

/-- The token a decode is sent. -/
theorem Generates.sentTokens (h : Generates a) : ∃ token,
    a.decodeInputToken = .ok token ∧ a.sentTokens = .ok (.token (some token)) := by
  obtain ⟨token, htoken⟩ : ∃ token, a.decodeInputToken = .ok token := by
    have hinputs := h.inputs
    unfold decodeInputs at hinputs
    cases hrun : a.decodeInputToken with
    | error e => rw [hrun] at hinputs; cases hinputs
    | ok token => exact ⟨token, rfl⟩
  refine ⟨token, htoken, ?_⟩
  unfold Sequence.sentTokens
  rw [if_neg h.not_prompt]
  split
  · rw [htoken]
  · rename_i hdecode
    unfold decodeInputToken at htoken
    rw [if_pos (by simpa using hdecode)] at htoken
    cases hlast : a.lastToken with
    | none => rw [hlast] at htoken; cases htoken
    | some last =>
      rw [hlast] at htoken
      rw [Except.ok.inj htoken]

/-- **The copy of a request in a decode** carries its input token alone. -/
theorem Generates.received (h : Generates a) :
    ∃ copy, a.received = some copy ∧ SameStep false a copy := by
  obtain ⟨token, htoken, hsent⟩ := h.sentTokens
  have hcopy : (a.copyWith [] (some token)).decodeInputToken = a.decodeInputToken := by
    rw [htoken]
    unfold decodeInputToken at htoken ⊢
    by_cases hdecode : a.isRecomputeDecode = false
    · exact if_pos hdecode
    · rw [if_neg hdecode] at htoken
      simp only at htoken
      split at htoken
      · cases htoken
      · rename_i hcursor
        refine (if_neg hdecode).trans ?_
        exact if_neg hcursor
  refine ⟨_, received_token h.not_prompt hsent, ?_, nofun, fun _ => hcopy, rfl, ?_, rfl, rfl, rfl, rfl⟩
  · show Sequence.decodeInputs _ = a.decodeInputs
    unfold decodeInputs
    rw [hcopy]
    rfl
  · have hprompt : a.isRecomputePrefill = false := by
      have := h.not_prompt
      rw [not_or, Bool.not_eq_true] at this
      exact this.2
    exact (if_pos hprompt).trans (if_pos hprompt).symm

theorem Ready.received {isPrefill : Bool} (h : Ready isPrefill a) :
    ∃ copy, a.received = some copy ∧ SameStep isPrefill a copy := by
  cases isPrefill with
  | true => exact Prefills.received h
  | false => exact Generates.received h

end Copies

/-! ## Runs -/

section Runs

variable [DecidableEq κ] [DecidableEq ν] (cfg : SchedulerConfig) {memory : MemoryOracle ε σ B κ ν}
  {runner : ModelRunner ε σ B}

/-- **Rank 0 and the workers see the same step**: in every run, a worker rebuilds each request of a
broadcast batch, and its copy gives the inputs of the step, the positions, the replayed tokens and the
flags the original gives. -/
theorem broadcast_agrees (hits : WritesHitsOnly memory) (fits : RemainsInPrompt memory)
    (reads : RunnerReads runner) {init e : Engine σ B} (emptyWaiting : init.scheduler.waiting = [])
    (emptyDecoding : init.scheduler.decoding = [])
    (run : Reachable (EngineOp.exec cfg memory runner) (EngineOp.Allowed cfg memory runner) init e)
    {r : ScheduleResult} {s : Engine σ B} (begun : beginStep cfg memory runner e = .ok r s) {q : SeqId}
    (hq : q ∈ r.seqs) :
    ∃ copy, (s.request q).received = some copy ∧ SameStep r.isPrefill (s.request q) copy := by
  have he := reachable_coherent cfg hits fits reads emptyWaiting emptyDecoding run
  have hstep := beginStep_outcome reads hits cfg he.distinct e rfl
  rw [begun] at hstep
  have hbegun := hstep.1.begun fits he (List.ne_nil_of_mem hq)
  exact (hbegun.ready q hq).1.received

end Runs

/-! ### A prompt in two chunks -/

theorem fourTokens_positive : 0 < 4 := by decide

/-- A request of four prompt tokens, about to prefill two of them. -/
def chunkedEngine : Engine Unit Unit :=
  runAll (EngineOp.exec smallConfig (pooledOracle 8) constantRunner) idleEngine
    [.add 1 [7, 8, 9, 10] { maxTokens := 4, positive := fourTokens_positive } 0 false false 0]

theorem chunkedEngine_reachable : Reachable (EngineOp.exec smallConfig (pooledOracle 8) constantRunner)
    (EngineOp.Allowed smallConfig (pooledOracle 8) constantRunner) idleEngine chunkedEngine :=
  Reachable.runAll .init ⟨by decide +kernel, trivial⟩

theorem broadcast_agrees_chunkedEngine : ∃ r s,
    beginStep smallConfig (pooledOracle 8) constantRunner chunkedEngine = .ok r s ∧ 1 ∈ r.seqs ∧
      ∃ copy, (s.request 1).received = some copy ∧ SameStep r.isPrefill (s.request 1) copy := by
  have hrun : (beginStep smallConfig (pooledOracle 8) constantRunner).run' chunkedEngine =
      some ⟨[1], true, []⟩ := by decide +kernel
  obtain ⟨s, hs⟩ := run'_eq_some.mp hrun
  exact ⟨_, s, hs, by decide, broadcast_agrees smallConfig (pooledOracle_writesHitsOnly 8)
    (pooledOracle_remainsInPrompt 8) constantRunner_reads rfl rfl chunkedEngine_reachable hs (by decide)⟩

/-- In a prefill that does not end the prompt a worker takes the end of the chunk for the last
token. -/
theorem worker_lastToken_chunkedEngine : ¬ ∀ (e : Engine Unit Unit) (r : ScheduleResult)
    (s : Engine Unit Unit) (q : SeqId),
    Reachable (EngineOp.exec smallConfig (pooledOracle 8) constantRunner)
      (EngineOp.Allowed smallConfig (pooledOracle 8) constantRunner) idleEngine e →
    beginStep smallConfig (pooledOracle 8) constantRunner e = .ok r s → q ∈ r.seqs →
    ∃ copy, (s.request q).received = some copy ∧
      copy.decodeInputToken = (s.request q).decodeInputToken := by
  intro h
  have hrun : (beginStep smallConfig (pooledOracle 8) constantRunner).run' chunkedEngine =
      some ⟨[1], true, []⟩ := by decide +kernel
  obtain ⟨s, hs⟩ := run'_eq_some.mp hrun
  obtain ⟨copy, hcopy, htoken⟩ := h _ _ _ 1 chunkedEngine_reachable hs (by decide)
  have hafter : s = stateAfter (beginStep smallConfig (pooledOracle 8) constantRunner)
      chunkedEngine := (stateAfter_ok hs).symm
  have hwrong : ((s.request 1).received.map fun copy => copy.decodeInputToken.toOption) =
      some (some 8) ∧ (s.request 1).decodeInputToken.toOption = some 10 := by
    rw [hafter]
    decide +kernel
  rw [hcopy, Option.map_some, htoken, hwrong.2] at hwrong
  exact absurd hwrong.1 (by decide)

end SparseVllm
