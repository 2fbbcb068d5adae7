import SparseVllm.Lib.Outcome
import SparseVllm.Scheduler.Publish

/-!
# Prefill of a SnapKV request (`cache_manager/snapkv.py`, `sparse_methods/snapkv.py`)

The life of one request in a `SnapKVCacheManager`: its rows, its score accumulators and its raw
offload phase, which no step of another request touches. Layers are numbered by their KV position.
A prefill step asks the scheduler for a chunk, prepares the rows, runs the attention of every layer,
and evicts. The step budgets, and whether the batch fits the staging buffer, are inputs.

`snapkv_window_size` is a `Nat`: a negative window takes the branches of 0. `pyramidTopTokens` is the
scaled count of a layer, which the source computes in floating point, by one expression in both
files. Left out: the slots and the capacity of the buffers, the values of the scores, and the pool
kernel.
-/

namespace SparseVllm

open SparseVllm.Lib

variable {B : Type}

/-- The fields a chain writes into a request. `chainResumed` is `chain_status == "resumed"`. -/
structure ChainSequence (B : Type) extends Sequence B where
  chainResumed : Bool := false
  chainReusedTokens : Nat := 0

namespace ChainSequence

/-- `is_chain_resume`, in every function that reads it. -/
def isChainResume (seq : ChainSequence B) : Bool :=
  seq.chainResumed && !seq.isRecomputeReplay

/-- `remaining_prefill_tokens`. -/
def remainingPrefillTokens (seq : ChainSequence B) : Nat :=
  seq.numPromptTokens - seq.numPrefilledTokens

end ChainSequence

/-- What the SnapKV family reads of the configuration, with what its validation promises. -/
structure SnapKvConfig extends SchedulerConfig where
  snapkvWindowSize : Nat
  snapkvNumFullLayers : Nat
  numKvLayers : Nat
  pyramidTopTokens : Nat → Nat
  /-- `prefill_schedule_policy == PREFILL_POLICY_LONG_BS1FULL_SHORT_BATCH`. -/
  longBs1FullShortBatch : Bool
  longPrefillOffloadThreshold : Nat
  method : sparseMethod = .snapkv ∨ sparseMethod = .pyramidkv
  noFullLayers : snapkvNumFullLayers = 0
  window_le : snapkvWindowSize ≤ enginePrefillChunkSize
  layers_pos : 0 < numKvLayers

/-- What a step raises. -/
inductive SnapKvError where
  | sequence (error : SequenceError)
  | noResidual (residual : Nat)
  | missingChainRow (layer : Nat)
  | negativeProgress (start residualStart : Nat)
  | missingPrefixRow (layer : Nat)
  | rowLengthMismatch (layer observed expected : Nat)
  | stagingFirstPrefillOnly
  | scoreWindow (layer scoreStart scoreEnd chunkStart chunkEnd : Nat)
  | accumulatorLength (layer existing requested : Nat)
  | stagingFinalChunkOnly
  | missingStagingScores (layer : Nat)
  | residentPrefixChanged (layer expected observed : Nat)
  | stagingRowNotEmpty (layer rowLen : Nat)
  | stagingRowMissing (layer : Nat)
  | stagingKeepsNothing
  | missingEvictionScores (layer : Nat)
  | freePartRowMissing (layer : Nat)
  | freePartKeepsNothing (layer : Nat)
  deriving DecidableEq, Repr

/-- One layer of the request: the length of its row, and of its score accumulator. -/
structure LayerRow where
  rowLen : Option Nat := none
  scores : Option Nat := none
  deriving DecidableEq, Repr

/-- The request, with what the manager keeps for it. -/
structure SnapKv (B : Type) where
  seq : ChainSequence B
  /-- The entry of `_raw_offload_prefill_phases`. -/
  rawOffloadPhase : Option Bool := none
  layers : Nat → LayerRow := fun _ => {}

section Manager

variable (cfg : SnapKvConfig)

/-- `_pyramidkv_layer_budget`. -/
def pyramidkvLayerBudget (layer : Nat) : Nat :=
  cfg.sinkKeepTokens + cfg.pyramidTopTokens layer + cfg.recentKeepTokens

/-- `_prefill_score_layer_budget`. -/
def prefillScoreLayerBudget (layer : Nat) : Option Nat :=
  if layer < cfg.snapkvNumFullLayers then none
  else match cfg.sparseMethod with
    | .pyramidkv => some (pyramidkvLayerBudget cfg layer)
    | .snapkv => some (cfg.sinkKeepTokens + cfg.decodeKeepTokens + cfg.recentKeepTokens)
    | _ => none

/-- `_get_layer_budget` and the `_sparse_layer_budget` of each runtime. -/
def getLayerBudget (layer : Nat) : Option Nat :=
  if layer < cfg.snapkvNumFullLayers then none
  else match cfg.sparseMethod with
    | .pyramidkv => some (cfg.sinkKeepTokens + cfg.pyramidTopTokens layer + cfg.recentKeepTokens)
    | _ => some (cfg.sinkKeepTokens + cfg.decodeKeepTokens + cfg.recentKeepTokens)

/-- `_pyramidkv_can_use_full_prefill_staging`. -/
def pyramidkvCanUseFullPrefillStaging : Bool :=
  decide (cfg.sparseMethod = .pyramidkv) && cfg.longBs1FullShortBatch

/-! ## Execution modes -/

/-- `_apply_sticky_raw_offload_mode`. -/
def applyStickyRawOffloadMode (s : SnapKv B) (mode : PrefillExecutionMode) :
    PrefillExecutionMode × SnapKv B :=
  let replayPhase := s.seq.isRecomputeReplay
  let phase := s.rawOffloadPhase.filter (· = replayPhase)
  match phase with
  | some _ => (.rawOffload, { s with rawOffloadPhase := phase })
  | none =>
    if mode = .rawOffload then (mode, { s with rawOffloadPhase := some replayPhase })
    else (mode, { s with rawOffloadPhase := none })

/-- `prefill_execution_mode`. -/
def prefillExecutionMode (s : SnapKv B) :
    Except SnapKvError (PrefillExecutionMode × SnapKv B) :=
  if pyramidkvCanUseFullPrefillStaging cfg = false then .ok (.chunked, s)
  else
    let residual := s.seq.remainingPrefillTokens
    if residual = 0 then .error (.noResidual residual)
    else .ok (applyStickyRawOffloadMode s
      (if residual ≤ cfg.longPrefillOffloadThreshold then .full else .rawOffload))

/-- `requires_long_prefill_offload`. -/
def requiresLongPrefillOffload (s : SnapKv B) : Except SnapKvError (Bool × SnapKv B) := do
  let (mode, s) ← prefillExecutionMode cfg s
  return (decide (mode = .rawOffload), s)

/-! ## The scheduler's chunk -/

/-- `chain_physical_kv_len`. -/
def chainPhysicalKvLen (layers : Nat → LayerRow) (layer : Nat) : Except SnapKvError Nat :=
  match (layers layer).rowLen with
  | none => .error (.missingChainRow layer)
  | some len => .ok len

/-- `final_physical_len` of a layer to which a resumed turn appends `appended` tokens. -/
def finalPhysicalLen (s : SnapKv B) (appended layer : Nat) : Except SnapKvError Nat :=
  if s.seq.isChainResume then do
    let len ← chainPhysicalKvLen s.layers layer
    return len + appended
  else .ok s.seq.numPromptTokens

/-- The loop over the PyramidKV layers. -/
def pyramidNeedsScore (s : SnapKv B) (appended : Nat) : List Nat → Except SnapKvError Bool
  | [] => .ok false
  | layer :: rest =>
    if layer < cfg.snapkvNumFullLayers then pyramidNeedsScore s appended rest
    else do
      let len ← finalPhysicalLen s appended layer
      if pyramidkvLayerBudget cfg layer < len then return true
      else pyramidNeedsScore s appended rest

/-- `needs_score`. -/
def needsScore (s : SnapKv B) (rawOffload : Bool) : Except SnapKvError Bool :=
  let residual := s.seq.numPromptTokens - s.seq.numPrefilledTokens
  let rawOffloadTurnTokens :=
    s.seq.numPromptTokens - max s.seq.chainReusedTokens s.seq.prefixCacheHitLen
  if cfg.sparseMethod = .snapkv then do
    let len ← finalPhysicalLen s residual 0
    return decide (cfg.sinkKeepTokens + cfg.decodeKeepTokens + cfg.recentKeepTokens < len)
  else
    pyramidNeedsScore cfg s (if rawOffload then rawOffloadTurnTokens else residual)
      (List.range cfg.numKvLayers)

/-- `min_final_prefill_chunk_size`. -/
def minFinalPrefillChunkSize (s : SnapKv B) : Except SnapKvError (Nat × SnapKv B) :=
  if cfg.snapkvWindowSize = 0 then .ok (0, s)
  else if cfg.numKvLayers ≤ cfg.snapkvNumFullLayers then .ok (0, s)
  else do
    let (rawOffload, s) ←
      (if cfg.sparseMethod = .pyramidkv ∧ s.seq.isChainResume then requiresLongPrefillOffload cfg s
      else .ok (false, s) : Except SnapKvError (Bool × SnapKv B))
    let needed ← needsScore cfg s rawOffload
    return (if needed then min cfg.snapkvWindowSize s.seq.remainingPrefillTokens else 0, s)

/-- What `_respect_min_final_prefill_chunk` returns for a bound that is not negative. -/
def respectMinFinal (minFinal remaining proposed : Int) : Int :=
  if minFinal = 0 ∨ remaining - proposed ≤ 0 ∨ minFinal ≤ remaining - proposed then proposed
  else max 0 (remaining - minFinal)

/-- The scheduler's budgets when it reaches the request. -/
structure StepBudget where
  numBatchedTokens : Int
  stepFreeCount : Int

/-- The chunk the scheduler offers the request. -/
def chunkTokens (budget : StepBudget) (s : SnapKv B) :
    Except SnapKvError (Int × SnapKv B) := do
  let (mode, s) ← prefillExecutionMode cfg s
  let remaining := s.seq.remainingPrefillTokens
  let proposed := prefillStepTokens cfg.toSchedulerConfig mode remaining budget.numBatchedTokens
    budget.stepFreeCount
  let (minFinal, s) ← minFinalPrefillChunkSize cfg s
  return (respectMinFinal minFinal remaining proposed, s)

/-! ## Preparation -/

/-- The staging buffer a prefill step writes to, if any. -/
inductive Staging where
  | off
  | full
  | long
  deriving DecidableEq, Repr

/-- `_should_use_pyramidkv_long_prefill_offload_staging` and
`_should_use_pyramidkv_full_prefill_staging`; `batchFits` is what the latter asks of the batch. -/
def chooseStaging (batchFits : Bool) (chunk : Nat) (s : SnapKv B) :
    Except SnapKvError (Staging × SnapKv B) :=
  if pyramidkvCanUseFullPrefillStaging cfg = false then .ok (.off, s)
  else do
    let (rawOffload, s) ← requiresLongPrefillOffload cfg s
    if rawOffload then return (if 0 < chunk then .long else .off, s)
    else if batchFits ∧ s.seq.numPrefilledTokens = 0 ∧ chunk = s.seq.remainingPrefillTokens then
      return (.full, s)
    else return (.off, s)

/-- A layer in the course of a step: its row, and the context its attention sees. -/
structure LayerStep where
  row : LayerRow
  contextLen : Nat
  residentPrefixLen : Nat

section Step

variable (staging : Staging) (seq : ChainSequence B) (chunk : Nat)

/-- `residual_start`. -/
def residualStart : Nat :=
  if staging = .long ∧ seq.isRecomputeReplay = false then
    max seq.chainReusedTokens seq.prefixCacheHitLen
  else 0

/-- `_clear_prefill_attention_scores` at the start of a prefill. -/
def startScores (row : LayerRow) : LayerRow :=
  if seq.numPrefilledTokens = 0 ∨
      (seq.isChainResume ∧ seq.numPrefilledTokens = seq.chainReusedTokens) then
    { row with scores := none }
  else row

/-- `resident_prefix_len`. -/
def residentPrefix (layer : Nat) (row : LayerRow) : Except SnapKvError Nat :=
  if staging = .long ∧ 0 < residualStart staging seq then
    match row.rowLen with
    | none => .error (.missingPrefixRow layer)
    | some len => .ok len
  else .ok 0

/-- The check of a row that exists. -/
def checkRow (layer resident : Nat) (row : LayerRow) : Except SnapKvError Unit :=
  let expected := if staging = .long then resident else seq.numPrefilledTokens
  match row.rowLen with
  | none => .ok ()
  | some len =>
    if seq.isChainResume = false ∧ len ≠ expected then .error (.rowLengthMismatch layer len expected)
    else .ok ()

/-- The body of `_prepare_prefill` for one layer. -/
def prepareLayer (layer : Nat) (row : LayerRow) : Except SnapKvError LayerStep := do
  let row := startScores seq row
  let resident ← residentPrefix staging seq layer row
  checkRow staging seq layer resident row
  let len := row.rowLen.getD 0
  match staging with
  | .off =>
    return ⟨{ row with rowLen := some (len + chunk) }, len + chunk, 0⟩
  | .full =>
    if seq.numPrefilledTokens ≠ 0 then .error .stagingFirstPrefillOnly
    else return ⟨{ row with rowLen := some len }, chunk, 0⟩
  | .long =>
    let progress := seq.numPrefilledTokens - residualStart staging seq
    return ⟨{ row with rowLen := some len }, resident + progress + chunk, resident⟩

/-! ## Attention -/

/-- `physical_context_len`. -/
def physicalContextLen (layer : Nat) (step : LayerStep) : Except SnapKvError Nat :=
  if seq.isChainResume = false then .ok seq.numPromptTokens
  else if staging ≠ .off then .ok step.contextLen
  else chainPhysicalKvLen (fun _ => step.row) layer

/-- The query window of a row that is longer than its budget. -/
def scoreRange (layer physicalLen : Nat) : Except SnapKvError (Option (Nat × Nat)) :=
  let promptLen := seq.numPromptTokens
  let reusedTokens := if seq.isRecomputeReplay then 0 else seq.chainReusedTokens
  let appendedDeltaLen := promptLen - reusedTokens
  let scoreWindow :=
    if appendedDeltaLen = 0 then cfg.snapkvWindowSize
    else min cfg.snapkvWindowSize appendedDeltaLen
  let scoreStart := promptLen - scoreWindow
  let chunkStart := seq.numPrefilledTokens
  let chunkEnd := chunkStart + chunk
  if chunkStart ≤ scoreStart ∧ promptLen ≤ chunkEnd then
    if seq.isChainResume then .ok (some (physicalLen - scoreWindow, physicalLen))
    else .ok (some (scoreStart, promptLen))
  else if promptLen ≤ chunkEnd ∧ chunkStart < promptLen ∧ scoreStart < chunkEnd then
    .error (.scoreWindow layer scoreStart promptLen chunkStart chunkEnd)
  else .ok none

/-- `_prefill_score_rows`: the query window that is scored, if any. -/
def prefillScoreRow (layer : Nat) (step : LayerStep) : Except SnapKvError (Option (Nat × Nat)) :=
  match prefillScoreLayerBudget cfg layer with
  | none => .ok none
  | some budget =>
    if cfg.snapkvWindowSize = 0 then .ok none
    else do
      let physicalLen ← physicalContextLen staging seq layer step
      if physicalLen ≤ budget then return none
      else scoreRange cfg seq chunk layer physicalLen

/-- `collect_prefill_attention_score`: the accumulator gets the length of the context. -/
def collectPrefillAttentionScore (layer : Nat) (step : LayerStep) :
    Except SnapKvError LayerStep := do
  match ← prefillScoreRow cfg staging seq chunk layer step with
  | none => return step
  | some _ =>
    let existing := if seq.numPrefilledTokens = 0 then none else step.row.scores
    match existing with
    | some len =>
      if len ≠ step.contextLen then .error (.accumulatorLength layer len step.contextLen)
      else return { step with row := { step.row with scores := some step.contextLen } }
    | none => return { step with row := { step.row with scores := some step.contextLen } }

/-! ## Eviction -/

/-- The number of indices `_snapkv_select_indices` returns for `scores[:kv_len]`. -/
def selectIndicesCount (scores kvLen budget : Nat) : Nat :=
  let recentStart := kvLen - cfg.recentKeepTokens
  let numTopk := budget - cfg.sinkKeepTokens - cfg.recentKeepTokens
  if 0 < numTopk ∧ cfg.sinkKeepTokens < recentStart then
    cfg.sinkKeepTokens +
      min numTopk (min recentStart (min scores kvLen) - cfg.sinkKeepTokens) + cfg.recentKeepTokens
  else cfg.sinkKeepTokens + cfg.recentKeepTokens

/-- `materialize_prefill_staging_layer`. -/
def materializePrefillStagingLayer (layer keep : Nat) (step : LayerStep) :
    Except SnapKvError LayerStep :=
  match step.row.rowLen with
  | none => .error (.stagingRowMissing layer)
  | some len =>
    if 0 < step.residentPrefixLen ∧ len ≠ step.residentPrefixLen then
      .error (.residentPrefixChanged layer step.residentPrefixLen len)
    else
      let len := if 0 < step.residentPrefixLen then 0 else len
      if len ≠ 0 then .error (.stagingRowNotEmpty layer len)
      else if keep = 0 then .error .stagingKeepsNothing
      else .ok { step with row := { step.row with rowLen := some keep } }

/-- `PyramidKVRuntime.on_attention_end`, for the chunk that ends the prompt (`last`) or another. -/
def onAttentionEnd (last : Bool) (layer : Nat) (step : LayerStep) :
    Except SnapKvError LayerStep :=
  if staging = .off then .ok step
  else if last = false then
    if staging = .long then .ok step else .error .stagingFinalChunkOnly
  else
    match getLayerBudget cfg layer with
    | none => materializePrefillStagingLayer layer step.contextLen step
    | some budget =>
      if step.contextLen ≤ budget then materializePrefillStagingLayer layer step.contextLen step
      else match step.row.scores with
        | none => .error (.missingStagingScores layer)
        | some scores =>
          materializePrefillStagingLayer layer (selectIndicesCount cfg scores step.contextLen budget)
            { step with row := { step.row with scores := none } }

/-- `free_part_slots`. -/
def freePartSlots (layer keep : Nat) (step : LayerStep) : Except SnapKvError LayerStep :=
  match step.row.rowLen with
  | none => .error (.freePartRowMissing layer)
  | some _ =>
    if keep = 0 then .error (.freePartKeepsNothing layer)
    else .ok { step with row := { step.row with rowLen := some keep } }

/-- `kv_len`. -/
def evictionKvLen (layer : Nat) (step : LayerStep) : Except SnapKvError Nat :=
  if seq.isChainResume then chainPhysicalKvLen (fun _ => step.row) layer
  else .ok (seq.numPrefilledTokens + chunk)

/-- `_snapkv_prefill_eviction`, on a layer. -/
def snapkvPrefillEviction (layer : Nat) (step : LayerStep) : Except SnapKvError LayerStep :=
  match getLayerBudget cfg layer with
  | none => .ok step
  | some budget => do
    let kvLen ← evictionKvLen seq chunk layer step
    if kvLen ≤ budget then return step
    else match step.row.scores with
      | none => .error (.missingEvictionScores layer)
      | some scores =>
        freePartSlots layer (selectIndicesCount cfg scores kvLen budget)
          { step with row := { step.row with scores := none } }

/-- `finish_step`: a staged step has evicted already. -/
def finishPrefillStep (last : Bool) (layer : Nat) (step : LayerStep) :
    Except SnapKvError LayerStep :=
  if last = false ∨ staging ≠ .off then .ok step
  else snapkvPrefillEviction cfg seq chunk layer step

/-- The forward pass of a prefill chunk. -/
def prefillForward (layers : Nat → LayerRow) : Except SnapKvError (Nat → LayerRow) := do
  let start := residualStart staging seq
  if seq.numPrefilledTokens < start then .error (.negativeProgress seq.numPrefilledTokens start)
  else
    let last := decide (seq.numPromptTokens ≤ seq.numPrefilledTokens + chunk)
    let idle := fun layer => (⟨layers layer, 0, 0⟩ : LayerStep)
    let steps ← forRange (prepareLayer staging seq chunk) layers idle cfg.numKvLayers
    let steps ← forRange (fun layer step => do
        let step ← collectPrefillAttentionScore cfg staging seq chunk layer step
        onAttentionEnd cfg staging last layer step) steps steps cfg.numKvLayers
    let steps ← forRange (finishPrefillStep cfg staging seq chunk last) steps steps cfg.numKvLayers
    return fun layer => (steps layer).row

end Step

/-! ## The life of a request -/

/-- `postprocess` after a prefill chunk, up to the end of the request. -/
def postprocessChunk (sample : Sample) (s : SnapKv B) : Except SnapKvError (SnapKv B) :=
  match s.seq.advancePrefill with
  | .error error => .error (.sequence error)
  | .ok seq =>
    if seq.numPrefilledTokens < seq.numPromptTokens then
      .ok { s with seq := { s.seq with toSequence := { seq with status := .waiting } } }
    else
      let seq := { seq with status := .running }
      if seq.isRecomputeReplay then
        match if seq.replayDecodeTokenCount = 0 then seq.finishRecomputeReplay else .ok seq with
        | .error error => .error (.sequence error)
        | .ok seq =>
          .ok { s with seq := { s.seq with toSequence := seq }, rawOffloadPhase := none }
      else
        .ok { s with
          seq := { s.seq with toSequence := seq.appendToken sample }, rawOffloadPhase := none }

/-- A scheduling pass: the chunk, with the staging of the step that runs it, or none this time. -/
def schedulePrefill (budget : StepBudget) (batchFits : Bool) (s : SnapKv B) :
    Except SnapKvError (Option (Nat × Staging) × SnapKv B) := do
  let (tokens, s) ← chunkTokens cfg budget s
  if tokens ≤ 0 then return (none, s)
  else
    let chunk := tokens.toNat
    -- The scheduler attaches a prefix hit when it admits the prompt.
    let prefilled :=
      if s.seq.numPrefilledTokens = 0 ∧ 0 < s.seq.prefixCacheHitLen then s.seq.prefixCacheHitLen
      else s.seq.numPrefilledTokens
    let seq := { s.seq with
      numPrefilledTokens := prefilled, currentChunkSize := some chunk, status := .running }
    let (staging, s) ← chooseStaging cfg batchFits chunk { s with seq := seq }
    return (some (chunk, staging), s)

/-- A scheduling pass and, if it gives the request a chunk, the step that runs it. -/
def prefillStep (budget : StepBudget) (batchFits : Bool) (sample : Sample) (s : SnapKv B) :
    Except SnapKvError (Nat × SnapKv B) := do
  match ← schedulePrefill cfg budget batchFits s with
  | (none, s) => return (0, s)
  | (some (chunk, staging), s) =>
    let layers ← prefillForward cfg staging s.seq chunk s.layers
    let s ← postprocessChunk sample { s with layers := layers }
    return (chunk, s)

/-- The decode eviction of PyramidKV, on the layers it chooses to score; SnapKV has none. -/
def decodeLayer (scored : Bool) (layer : Nat) (row : LayerRow) : LayerRow :=
  let len := row.rowLen.getD 0 + 1
  match cfg.sparseMethod, getLayerBudget cfg layer with
  | .pyramidkv, some budget =>
    let topBudget := budget - cfg.sinkKeepTokens - cfg.recentKeepTokens
    if scored ∧ budget < len ∧ budget + topBudget ≤ len then
      { row with rowLen := some (selectIndicesCount cfg len len budget) }
    else { row with rowLen := some len }
  | _, _ => { row with rowLen := some len }

/-- A decode step: the input token is stored in every layer, and the request accepts its sample or
replays the next accepted token. -/
def decodeStep (scored : Nat → Bool) (sample : Sample) (s : SnapKv B) :
    Except SnapKvError (SnapKv B) :=
  let layers := fun layer => decodeLayer cfg (scored layer) layer (s.layers layer)
  if s.seq.isRecomputeDecode then
    match s.seq.toSequence.advanceRecomputeReplay with
    | .error error => .error (.sequence error)
    | .ok seq => .ok { s with seq := { s.seq with toSequence := seq }, layers := layers }
  else .ok { s with
    seq := { s.seq with toSequence := s.seq.toSequence.appendToken sample }, layers := layers }

/-- `_preempt_decode_victim` and the release of the victim. -/
def preemptRequest (s : SnapKv B) : SnapKv B :=
  let seq :=
    if 0 < s.seq.numCompletionTokens then s.seq.toSequence.startRecomputeReplay
    else { s.seq.toSequence with numPrefilledTokens := 0 }
  { seq := { s.seq with toSequence := seq.clearPrefixCacheHit } }

end Manager

/-- A request as it is admitted without a chain, or as the first turn of one. -/
def SnapKv.fresh (tokens : List Nat) : SnapKv B where
  seq := { Sequence.ofPrompt tokens with }

/-- The next turn of a finished request: the rows stay, with the tokens processed so far. -/
def SnapKv.resume (tokens : List Nat) (s : SnapKv B) : SnapKv B :=
  let reused := s.seq.numTokens - 1
  { s with seq := { Sequence.ofPrompt tokens with
      numPrefilledTokens := reused
      prefixCacheHitLen := reused
      chainResumed := true
      chainReusedTokens := reused } }

/-- The states of a request over its life, with the chunks its present prefill was given. -/
inductive SnapKv.Reachable (cfg : SnapKvConfig) : SnapKv B → List Nat → Prop
  | fresh {tokens : List Nat} (nonempty : tokens ≠ []) : Reachable cfg (.fresh tokens) []
  | prefill {s s' : SnapKv B} {chunks : List Nat} {budget : StepBudget} {batchFits : Bool}
      {sample : Sample} {chunk : Nat} (reach : Reachable cfg s chunks)
      (waiting : s.seq.numPrefilledTokens < s.seq.numPromptTokens)
      (step : prefillStep cfg budget batchFits sample s = .ok (chunk, s')) :
      Reachable cfg s' (if chunk = 0 then chunks else chunks ++ [chunk])
  | decode {s s' : SnapKv B} {chunks : List Nat} {scored : Nat → Bool} {sample : Sample}
      (reach : Reachable cfg s chunks)
      (decoding : s.seq.numPromptTokens ≤ s.seq.numPrefilledTokens)
      (step : decodeStep cfg scored sample s = .ok s') : Reachable cfg s' chunks
  | preempt {s : SnapKv B} {chunks : List Nat} (reach : Reachable cfg s chunks)
      (decoding : s.seq.numPromptTokens ≤ s.seq.numPrefilledTokens) :
      Reachable cfg (preemptRequest s) []
  | resume {s : SnapKv B} {chunks : List Nat} {tokens : List Nat} (reach : Reachable cfg s chunks)
      (finished : s.seq.numPromptTokens ≤ s.seq.numPrefilledTokens)
      (live : s.seq.isRecomputeReplay = false) (suffix : s.seq.numTokens - 1 < tokens.length) :
      Reachable cfg (s.resume tokens) []

end SparseVllm
