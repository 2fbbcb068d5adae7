import Mathlib.Tactic.Common

/-!
# Requests (`engine/sequence.py`, with the method names of `method_registry.py`)

`Sequence` carries what the scheduler and the cache managers read of a request. Rank 0 owns the
request objects: a queue holds sequence ids, and the objects live in a heap `SeqId → Sequence`, so
that two queues naming one request share its fields, as two deques holding one Python object do.

Left out: the sampling parameters that shape a distribution and the penalty state (no modelled
function reads them), and `prefix_cache_enabled`, `prefix_cache_block_size`, `prefix_cache_method`,
which are written with the hit and read by no modelled function. What a tensor-parallel worker is
sent of a request is in `Scheduler.Broadcast`.
-/

namespace SparseVllm

/-- The canonical names of `config.sparse_method`; `vanilla` is the empty string. -/
inductive SparseMethod where
  | vanilla
  | streamingllm
  | snapkv
  | h2o
  | pyramidkv
  | omnikv
  | quest
  | rkv
  | skipkv
  | deltakv
  | shadowkv
  deriving DecidableEq, Repr

/-- `SamplingParams`: what ends a request. `__post_init__` refuses a `max_tokens` of 0. -/
structure SamplingParams where
  maxTokens : Nat := 8192
  ignoreEos : Bool := false
  eosTokenIds : List Nat := []
  positive : 0 < maxTokens := by decide

/-- `Sequence.seq_id`. -/
abbrev SeqId := Nat

/-- `SequenceStatus`. -/
inductive SequenceStatus where
  | waiting
  | running
  | finished
  deriving DecidableEq, Repr

/-- `Sequence`, over the type `B` of stable prefix block ids. -/
structure Sequence (B : Type) where
  status : SequenceStatus := .waiting
  /-- `token_ids`: the prompt followed by the accepted completion. -/
  tokenIds : List Nat
  numTokens : Nat
  numPromptTokens : Nat
  numPrefilledTokens : Nat := 0
  currentChunkSize : Option Nat := none
  prefixCacheHitLen : Nat := 0
  prefixCacheHitBlockCount : Nat := 0
  prefixCacheHitLastBlockId : Option B := none
  /-- `multimodal_digest is not None`. -/
  hasMultimodalDigest : Bool := false
  multimodalFullPrefill : Bool := false
  recomputeReplayCursor : Option Nat := none
  decodeProgressCheckpoint : Nat := 0
  lastToken : Option Nat := none
  multimodalPositionDelta : Int := 0
  /-- `DEFAULT_MAX_TOKENS` unless the request sets it. -/
  maxTokens : Nat := 8192
  ignoreEos : Bool := false
  eosTokenIds : List Nat := []
  completionTokenLogprobs : List (Option Float) := []
  completionTopLogprobs : List (Option (List (Nat × Float))) := []

/-- What the replay methods of a request raise. -/
inductive SequenceError where
  | decodeInputMissing
  | replayCursorPast (cursor replayDecodeTokens : Nat)
  | replayInputMissing
  | notReplaying
  | notReplayingDecode
  | chunkSizeMissing
  deriving DecidableEq, Repr

/-- What the model returns for a request of the batch: a token and its log-probabilities. -/
structure Sample where
  tokenId : Nat
  logprob : Option Float := none
  topLogprobs : Option (List (Nat × Float)) := none

namespace Sequence

variable {B : Type}

/-- `Sequence.__init__`. -/
def ofPrompt (tokenIds : List Nat) : Sequence B where
  tokenIds := tokenIds
  numTokens := tokenIds.length
  numPromptTokens := tokenIds.length
  lastToken := tokenIds.getLast?

/-- `Sequence.__init__` with sampling parameters, and the position delta of its images. -/
def ofRequest (tokenIds : List Nat) (params : SamplingParams) (positionDelta : Int) : Sequence B :=
  { ofPrompt tokenIds with
    multimodalPositionDelta := positionDelta
    maxTokens := params.maxTokens
    ignoreEos := params.ignoreEos
    eosTokenIds := params.eosTokenIds }

def numCompletionTokens (seq : Sequence B) : Nat :=
  seq.numTokens - seq.numPromptTokens

def promptTokenIds (seq : Sequence B) : List Nat :=
  seq.tokenIds.take seq.numPromptTokens

def isRecomputeReplay (seq : Sequence B) : Bool :=
  seq.recomputeReplayCursor.isSome

def isRecomputeDecode (seq : Sequence B) : Bool :=
  seq.isRecomputeReplay && decide (seq.numPromptTokens ≤ seq.numPrefilledTokens)

def replayDecodeTokenCount (seq : Sequence B) : Nat :=
  seq.numCompletionTokens - 1

/-- `clear_prefix_cache_hit`. -/
def clearPrefixCacheHit (seq : Sequence B) : Sequence B :=
  { seq with
    prefixCacheHitLen := 0
    prefixCacheHitBlockCount := 0
    prefixCacheHitLastBlockId := none }

/-- `start_recompute_replay`, past its guard (the caller checks for a completion token). -/
def startRecomputeReplay (seq : Sequence B) : Sequence B :=
  clearPrefixCacheHit
    { seq with
      recomputeReplayCursor := some 0
      decodeProgressCheckpoint := seq.numCompletionTokens
      numPrefilledTokens := 0
      currentChunkSize := none
      status := .waiting }

/-- `finish_recompute_replay`. -/
def finishRecomputeReplay (seq : Sequence B) : Except SequenceError (Sequence B) :=
  if seq.isRecomputeReplay = false then .error .notReplaying
  else .ok { seq with
    recomputeReplayCursor := none
    decodeProgressCheckpoint := seq.numCompletionTokens }

/-- `advance_recompute_replay`. -/
def advanceRecomputeReplay (seq : Sequence B) : Except SequenceError (Sequence B) :=
  if seq.isRecomputeDecode = false then .error .notReplayingDecode
  else
    let cursor := seq.recomputeReplayCursor.getD 0 + 1
    let seq := { seq with recomputeReplayCursor := some cursor }
    if seq.replayDecodeTokenCount ≤ cursor then seq.finishRecomputeReplay else .ok seq

/-- `decode_input_token`. -/
def decodeInputToken (seq : Sequence B) : Except SequenceError Nat :=
  if seq.isRecomputeDecode = false then
    match seq.lastToken with
    | none => .error .decodeInputMissing
    | some token => .ok token
  else
    let cursor := seq.recomputeReplayCursor.getD 0
    if seq.replayDecodeTokenCount ≤ cursor then
      .error (.replayCursorPast cursor seq.replayDecodeTokenCount)
    else match seq.tokenIds[seq.numPromptTokens + cursor]? with
      | some token => .ok token
      | none =>
        match seq.lastToken with
        | none => .error .replayInputMissing
        | some token => .ok token

/-- `decode_input_position`. -/
def decodeInputPosition (seq : Sequence B) : Int :=
  (if seq.isRecomputeDecode then
    (seq.numPromptTokens + seq.recomputeReplayCursor.getD 0 : Int)
  else seq.numTokens - 1) + seq.multimodalPositionDelta

/-- `append_token`. -/
def appendToken (seq : Sequence B) (sample : Sample) : Sequence B :=
  { seq with
    tokenIds := seq.tokenIds ++ [sample.tokenId]
    completionTokenLogprobs := seq.completionTokenLogprobs ++ [sample.logprob]
    completionTopLogprobs := seq.completionTopLogprobs ++ [sample.topLogprobs]
    lastToken := some sample.tokenId
    numTokens := seq.numTokens + 1 }

/-- The inputs of a prefill chunk: the slice of `token_ids` and the positions beside it. -/
def prefillInputs (seq : Sequence B) : Except SequenceError (List (Nat × Int)) :=
  match seq.currentChunkSize with
  | none => .error .chunkSizeMissing
  | some chunk =>
    let start := seq.numPrefilledTokens
    let tokens := if chunk < seq.tokenIds.length then (seq.tokenIds.take (start + chunk)).drop start
      else seq.tokenIds
    .ok (tokens.zip ((List.range' start chunk).map Int.ofNat))

/-- The input of a decode step. -/
def decodeInputs (seq : Sequence B) : Except SequenceError (List (Nat × Int)) :=
  match seq.decodeInputToken with
  | .error e => .error e
  | .ok token => .ok [(token, seq.decodeInputPosition)]

/-- `num_prefilled_tokens += current_chunk_size`. -/
def advancePrefill (seq : Sequence B) : Except SequenceError (Sequence B) :=
  match seq.currentChunkSize with
  | none => .error .chunkSizeMissing
  | some chunk => .ok { seq with numPrefilledTokens := seq.numPrefilledTokens + chunk }

end Sequence

end SparseVllm
