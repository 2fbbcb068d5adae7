import SparseVllm.Chain.Index

/-!
# Chain admissions against the resident rows

What the engine does with chains: `LLMEngine.admit_request`, the chain calls of `RuntimeState`, the
capacity accounting of `ChainCacheCoordinator` and the row side of `SnapKVCacheManager` and
`H2OCacheManager` (`engine/cache_manager/snapkv.py`, `h2o.py`).

Every KV layer keeps its own row table: a free list and the rows of resident sequences. The slot
side of a layer is two counters (free slots, length of each row); a step or a compaction changes
them in ways that depend on the method, so a step carries the counters it leaves behind.

Left out: token ids and payloads (`on_chain_turn_finished`, slot lists), the recurrent state, and
`_pyramidkv_layer_budget`, which is floating-point and therefore a configuration value here.
-/

namespace SparseVllm

open SparseVllm.Lib

/-- The configuration the chain calls read. -/
structure ChainConfig where
  sparseMethod : SparseMethod
  sinkKeepTokens : Int
  decodeKeepTokens : Int
  recentKeepTokens : Int
  snapkvNumFullLayers : Nat
  rkvCompressionInterval : Int
  skipkvCompressionInterval : Int
  h2oPrefillBudget : Int
  h2oDecodeBudget : Int
  enginePrefillChunkSize : Int
  /-- `_pyramidkv_layer_budget`, by KV layer. -/
  pyramidkvLayerBudget : Nat → Int
  /-- `_pyramidkv_can_use_full_prefill_staging()`. -/
  pyramidkvFullPrefillStaging : Bool
  maxModelLen : Int

/-- One KV layer of the cache manager: its slot counters and its rows. -/
structure KvLayer where
  numFreeSlots : Int
  freeRows : List Nat
  seqIdToRow : Dict SeqId Nat := ∅
  rowSeqLens : Nat → Int := fun _ => 0

/-- The chain state of one rank. -/
structure ChainRuntime (C D : Type) where
  index : ChainCacheIndex C D
  layers : List KvLayer
  /-- `Sequence.counter`. -/
  nextSeqId : SeqId := 0

namespace KvLayer

/-- `_get_free_row`. -/
def getFreeRow {C : Type} (seq : SeqId) (layer : KvLayer) : Except (ChainError C) KvLayer :=
  match layer.seqIdToRow.get? seq with
  | some _ => .ok layer
  | none =>
    match layer.freeRows with
    | [] => .error .noFreeRow
    | row :: rest =>
      .ok { layer with freeRows := rest, seqIdToRow := layer.seqIdToRow.set seq row }

/-- `free_seq` on one layer. -/
def freeSeq {C : Type} (seq : SeqId) (layer : KvLayer) : Except (ChainError C) KvLayer :=
  match layer.seqIdToRow.get? seq with
  | none => .error (.notResident seq)
  | some row =>
    .ok { layer with
          seqIdToRow := layer.seqIdToRow.pop seq
          numFreeSlots := layer.numFreeSlots + max 0 (layer.rowSeqLens row)
          rowSeqLens := Function.update layer.rowSeqLens row 0
          freeRows := layer.freeRows ++ [row] }

end KvLayer

/-- Run `f` on each layer in turn, up to the first one that raises. -/
def forLayers {E : Type} (f : KvLayer → Except E KvLayer) : List KvLayer → List KvLayer × Option E
  | [] => ([], none)
  | layer :: rest =>
    match f layer with
    | .error e => (layer :: rest, some e)
    | .ok layer' => (layer' :: (forLayers f rest).1, (forLayers f rest).2)

/-- `min((len(free_rows) for layers), default=0)`. -/
def freeResidentRows (layers : List KvLayer) : Nat :=
  ((layers.map fun layer => layer.freeRows.length).min?).getD 0

/-- `chain_has_residency`. -/
def chainHasResidency (layers : List KvLayer) (seq : SeqId) : Bool :=
  layers.any fun layer => (layer.seqIdToRow.get? seq).isSome

/-- `chain_physical_residency`. -/
def chainPhysicalResidency {C : Type} (seq : SeqId) :
    List KvLayer → Except (ChainError C) (List Int)
  | [] => .ok []
  | layer :: rest =>
    match layer.seqIdToRow.get? seq with
    | none => .error (.missingRow seq)
    | some row => (chainPhysicalResidency seq rest).map (layer.rowSeqLens row :: ·)

section Capacity

variable (cfg : ChainConfig)

/-- The budget of a layer of `SnapKVCacheManager`, and the length at which it evicts. -/
def chainLayerBudget (layer : Nat) : Option Int × Option Int :=
  let fixed := cfg.sinkKeepTokens + cfg.decodeKeepTokens + cfg.recentKeepTokens
  match cfg.sparseMethod with
  | .pyramidkv =>
    if layer < cfg.snapkvNumFullLayers then (none, none)
    else
      let budget := cfg.pyramidkvLayerBudget layer
      let top := budget - cfg.sinkKeepTokens - cfg.recentKeepTokens
      (some budget, some (max (budget + 1) (budget + max 0 top)))
  | .snapkv => if layer < cfg.snapkvNumFullLayers then (none, none) else (some fixed, none)
  | .rkv => (some fixed, some (max (fixed + 1) (fixed + cfg.rkvCompressionInterval)))
  | .skipkv => (some fixed, some (max (fixed + 1) (fixed + cfg.skipkvCompressionInterval)))
  | _ => (none, none)

/-- The slots one layer of `SnapKVCacheManager` needs at the peak of the request. -/
def snapkvRequiredSlots (needsRow : Bool) (suffix generated : Int) (layer : Nat)
    (existing : Int) : Int :=
  let staging := needsRow && cfg.sparseMethod == .pyramidkv && cfg.pyramidkvFullPrefillStaging
  let (budget, trigger) := chainLayerBudget cfg layer
  let prefillPeak := match budget with
    | some b => if staging then min suffix b else existing + suffix
    | none => existing + suffix
  let decodePeak := match budget, trigger with
    | some b, some t =>
      let uncompacted := cfg.sparseMethod == .rkv || cfg.sparseMethod == .skipkv
      let resident :=
        if staging then min suffix b
        else if uncompacted then existing + suffix
        else min (existing + suffix) b
      if generated ≤ 0 then resident
      else if t ≤ resident then resident + 1
      else resident + min generated (t - resident)
    | some b, none =>
      (if 0 < suffix then min (existing + suffix) b else existing) + generated
    | none, _ => prefillPeak + generated
  max prefillPeak decodePeak - existing

/-- The slots one layer of `H2OCacheManager` needs at the peak of the request. -/
def h2oRequiredSlots (suffix generated existing : Int) : Int :=
  let chunk := max 1 cfg.enginePrefillChunkSize
  let prefillPeak := min (existing + suffix) (max existing cfg.h2oPrefillBudget + chunk)
  let resident := if 0 < suffix then min (existing + suffix) cfg.h2oDecodeBudget else existing
  max 0 (max prefillPeak (resident + generated) - existing)

/-- The required slots of one layer. -/
def chainRequiredSlots (needsRow : Bool) (suffix generated : Int) (layer : Nat)
    (existing : Int) : Int :=
  match cfg.sparseMethod with
  | .h2o => h2oRequiredSlots cfg suffix generated existing
  | _ => snapkvRequiredSlots cfg needsRow suffix generated layer existing

/-- `chain_capacity_deficits`. -/
def chainCapacityDeficits (layers : List KvLayer) (suffixTokens generationTokens : Int)
    (existing outstandingSlots : List Int) (outstandingRows : Int) (needsRow : Bool) :
    ChainCacheIndex.ChainRequirements :=
  let suffix := max 0 suffixTokens
  let generated := max 0 (generationTokens - 1)
  let required := (List.range layers.length).map fun layer =>
    chainRequiredSlots cfg needsRow suffix generated layer (existing.getD layer 0)
  let free := (List.range layers.length).map fun layer =>
    max 0 ((layers[layer]?.map KvLayer.numFreeSlots).getD 0 - outstandingSlots.getD layer 0)
  let requiredRows : Int := if needsRow then 1 else 0
  let availableRows := max 0 ((freeResidentRows layers : Int) - max 0 outstandingRows)
  { requiredSlotsByLayer := (required.zip free).map fun (need, available) => max 0 (need - available)
    rowDeficit := max 0 (requiredRows - availableRows)
    reservedSlotsByLayer := required
    reservedRows := requiredRows }

end Capacity

section Coordinator

variable {C D : Type} [LinearOrder C] [DecidableEq D]
variable (cfg : ChainConfig) (hash : TokenHash D) (fingerprint : D)

/-- The programs of the chain runtime. -/
abbrev ChainM (C D α : Type) := EStateM (ChainError C) (ChainRuntime C D) α

/-- A call of the index. -/
def onIndex {α : Type} (m : ChainCacheIndex.IndexM C D α) : ChainM C D α :=
  zoom ChainRuntime.index (fun index s => { s with index := index }) id m

/-- A call of the cache manager that visits the layers in turn. -/
def onLayers (f : KvLayer → Except (ChainError C) KvLayer) : ChainM C D Unit := fun s =>
  match forLayers f s.layers with
  | (layers, none) => .ok () { s with layers := layers }
  | (layers, some e) => .error e { s with layers := layers }

/-- `max(0, reserved - max(0, current - baseline))`, by layer of the reservation. -/
def outstandingOf : List Int → List Int → List Int → List Int
  | [], _, _ => []
  | reserved :: rest, current, baseline =>
    max 0 (reserved - max 0 (current.headD 0 - baseline.headD 0)) ::
      outstandingOf rest current.tail baseline.tail

/-- Add two tuples layer by layer, keeping the longer one's length. -/
def addByLayer : List Int → List Int → List Int
  | [], ys => ys
  | xs, [] => xs
  | x :: xs, y :: ys => (x + y) :: addByLayer xs ys

/-- The rows an ACTIVE record still has to take. -/
def outstandingRowsOf (layers : List KvLayer) (record : ChainRecord C D) : Int :=
  max 0 (record.reservedRows - if chainHasResidency layers record.seqId then 1 else 0)

/-- The loop of `_outstanding_active_reservations`. -/
def outstandingReservations (layers : List KvLayer) :
    List (ChainRecord C D) → List Int × Int → Except (ChainError C) (List Int × Int)
  | [], acc => .ok acc
  | record :: rest, (slots, rows) =>
    if record.state ≠ .active then outstandingReservations layers rest (slots, rows)
    else do
      let current ←
        if chainHasResidency layers record.seqId then chainPhysicalResidency record.seqId layers
        else pure record.physicalSlotsByLayer
      outstandingReservations layers rest
        (addByLayer slots
          (outstandingOf record.reservedSlotsByLayer current record.physicalSlotsByLayer),
        rows + outstandingRowsOf layers record)

/-- `_outstanding_active_reservations`. -/
def outstandingActiveReservations (s : ChainRuntime C D) :
    Except (ChainError C) (List Int × Int) :=
  outstandingReservations s.layers s.index.records.values ([], 0)

/-- `admission_requirements`. -/
def admissionRequirements (s : ChainRuntime C D) (chain : C) (tokenCount generationTokens : Int) :
    Except (ChainError C) ChainCacheIndex.ChainRequirements := do
  let record := s.index.records.get? chain
  let reused := (record.map ChainRecord.processedTokenCount).getD 0
  let existing := (record.map ChainRecord.physicalSlotsByLayer).getD []
  let (outstandingSlots, outstandingRows) ← outstandingActiveReservations s
  return chainCapacityDeficits cfg s.layers (max 0 (tokenCount - reused)) (max 0 generationTokens)
    existing outstandingSlots outstandingRows record.isNone

/-- `ChainCacheCoordinator.plan_admission`, and the same call of `validate_admission_plan`. -/
def coordinatorPlan (chain : C) (seq : SeqId) (input : ChainCacheIndex.ChainInput D)
    (generationTokens : Int) : ChainM C D (ChainAdmissionPlan C) := do
  let s ← get
  match admissionRequirements cfg s chain input.tokenCount generationTokens with
  | .error e => throw e
  | .ok needs =>
    onIndex (ChainCacheIndex.planAdmission hash chain seq input fingerprint needs)

/-- `validate_admission_plan`. -/
def validateAdmissionPlan (expected : ChainAdmissionPlan C) (tokenCount : Int) (prefixDigest : D)
    (generationTokens : Int) : ChainM C D Unit := do
  let local_ ← coordinatorPlan cfg hash fingerprint expected.chainId expected.seqId
    (.digest tokenCount prefixDigest) generationTokens
  raiseIf (local_ ≠ expected) (.planDiverged expected.chainId)

/-- The owners of the victims, looked up before the index forgets them. -/
def victimSeqIds : List C → ChainM C D (List SeqId)
  | [] => pure []
  | victim :: rest => do
    let record ← onIndex (ChainCacheIndex.lookup victim)
    let seqs ← victimSeqIds rest
    return record.seqId :: seqs

/-- `_free_seq_payload`, on the rows. -/
def freeSeqPayload (seq : SeqId) : ChainM C D Unit :=
  onLayers (KvLayer.freeSeq seq)

/-- `RuntimeState.chain_apply_admission`. -/
def chainApplyAdmission (plan : ChainAdmissionPlan C) : ChainM C D Unit := do
  let victims ← victimSeqIds plan.victimChainIds
  let _ ← onIndex (ChainCacheIndex.applyAdmission hash plan fingerprint)
  forEach victims freeSeqPayload

/-- `RuntimeState.chain_invalidate`. -/
def chainInvalidate (chain : C) (expectedSeq : Option SeqId) : ChainM C D Unit := do
  let record ← onIndex (ChainCacheIndex.lookup chain)
  raiseIf (∃ expected ∈ expectedSeq, record.seqId ≠ expected)
    (.ownerMismatch chain record.seqId (expectedSeq.getD 0))
  let record ← onIndex (ChainCacheIndex.invalidate chain)
  let s ← get
  if chainHasResidency s.layers record.seqId then freeSeqPayload record.seqId else pure ()

/-- `RuntimeState.chain_finish`. -/
def chainFinish (chain : C) (seq : SeqId) (digest : D) (processed : Int) : ChainM C D Unit := do
  let record ← onIndex (ChainCacheIndex.lookup chain)
  raiseIf (record.seqId ≠ seq) (.ownerMismatch chain record.seqId seq)
  let s ← get
  match chainPhysicalResidency seq s.layers with
  | .error e => throw e
  | .ok slots =>
    let _ ← onIndex (ChainCacheIndex.finishDigest hash chain digest processed slots)

/-- What a client sends: the chain it continues, and either a whole prompt or a suffix to append. -/
structure ChainRequest (C : Type) where
  chainId : Option C
  tokens : List Int
  appendOnly : Bool := false
  maxTokens : Int

/-- The prompt of a request: an append extends the stored tokens of the chain. -/
def requestPrompt (request : ChainRequest C) (existing : Option (ChainRecord C D)) :
    Except (ChainError C) (List Int) :=
  if request.appendOnly then
    match existing with
    | none => .error .appendWithoutChain
    | some record =>
      if request.tokens = [] then .error (.emptyAppend request.chainId)
      else .ok (record.tokenIds ++ request.tokens)
  else .ok request.tokens

/-- The record of the chain a request names; an unknown chain raises. -/
def existingChain (chainId : Option C) : ChainM C D (Option (ChainRecord C D)) :=
  match chainId with
  | none => pure none
  | some chain => do
    let record ← onIndex (ChainCacheIndex.lookup chain)
    return some record

/-- `next(Sequence.counter)`. -/
def newSeqId : ChainM C D SeqId := do
  modify fun s => { s with nextSeqId := s.nextSeqId + 1 }
  return (← get).nextSeqId - 1

/-- Plan the admission; a prefix mismatch of an existing chain drops it and plans a new one under
`newChain`, on the same sequence id. -/
def planOrRecreate (chain newChain : C) (seq : SeqId) (prompt : List Int)
    (existing : Option (ChainRecord C D)) (appendOnly : Bool) (maxTokens : Int) :
    ChainM C D (ChainAdmissionPlan C) :=
  catchIf (coordinatorPlan cfg hash fingerprint chain seq (.tokens prompt) maxTokens)
    ChainError.isPrefixMismatch fun e => do
      raiseIf (existing.isNone = true ∨ appendOnly = true) e
      chainInvalidate chain (existing.map ChainRecord.seqId)
      coordinatorPlan cfg hash fingerprint newChain seq (.tokens prompt) maxTokens

/-- `LLMEngine.admit_request` in chain mode. `newChain` is the id `new_chain_id` draws, and
`rejected` tells whether `scheduler.add` raises. -/
def admitRequest (request : ChainRequest C) (newChain : C) (rejected : Bool) :
    ChainM C D Unit := do
  let existing ← existingChain request.chainId
  match requestPrompt request existing with
  | .error e => throw e
  | .ok prompt =>
    raiseIf (cfg.maxModelLen < prompt.length + request.maxTokens)
      (.exceedsModelLen prompt.length request.maxTokens cfg.maxModelLen)
    let fresh ← newSeqId
    let seq := (existing.map ChainRecord.seqId).getD fresh
    let plan ← planOrRecreate cfg hash fingerprint (request.chainId.getD newChain) newChain seq
      prompt existing request.appendOnly request.maxTokens
    raiseIf (plan.status = .resumed ∧ (prompt.length : Int) ≤ plan.reusedTokens)
      (.noSuffix plan.chainId)
    match stableTokenDigest hash prompt (some plan.reusedTokens) with
    | .error e => throw e
    | .ok digest =>
      validateAdmissionPlan cfg hash fingerprint plan prompt.length digest request.maxTokens
      chainApplyAdmission hash fingerprint plan
      if rejected then
        chainInvalidate plan.chainId (some seq)
        throw (.schedulerRejected seq)
      else
        pure ()

/-- The slot counters a step leaves behind, by layer. -/
structure SlotCounters where
  numFreeSlots : Nat → Int
  rowSeqLens : Nat → Nat → Int

/-- Write the slot counters of the layers. -/
def setSlotCounters (counters : SlotCounters) (layers : List KvLayer) : List KvLayer :=
  layers.mapIdx fun idx layer =>
    { layer with
      numFreeSlots := counters.numFreeSlots idx
      rowSeqLens := counters.rowSeqLens idx }

/-- A prefill or decode step of an admitted request: it takes a row on first use, and leaves the
slot counters of the method behind. -/
def runStep (chain : C) (counters : SlotCounters) : ChainM C D Unit := do
  let record ← onIndex (ChainCacheIndex.lookup chain)
  if record.state = .active then
    onLayers (KvLayer.getFreeRow record.seqId)
    modify fun s => { s with layers := setSlotCounters counters s.layers }
  else
    pure ()

/-- `_release_preempted_sequences` of an admitted request: its rows go, its record stays. -/
def releasePreempted (chain : C) : ChainM C D Unit := do
  let record ← onIndex (ChainCacheIndex.lookup chain)
  if record.state = .active then freeSeqPayload record.seqId else pure ()

/-- The end of a chain request in `LLMEngine.step`: `chain_finish` on all tokens but the last, and
`remember_processed_tokens` of the coordinator. -/
def finishRequest (chain : C) (seq : SeqId) (tokens : List Int) : ChainM C D Unit := do
  let processed : Int := max 0 (tokens.length - 1)
  match stableTokenDigest hash tokens (some processed) with
  | .error e => throw e
  | .ok digest =>
    chainFinish hash chain seq digest processed
    let _ ← onIndex (ChainCacheIndex.rememberProcessedTokens hash chain seq tokens processed)

/-- The events of a chain run. -/
inductive ChainEvent (C D : Type) where
  | admission (request : ChainRequest C) (newChain : C) (rejected : Bool)
  | step (chain : C) (counters : SlotCounters)
  | preempt (chain : C)
  | finish (chain : C) (seq : SeqId) (tokens : List Int)
  | invalidate (chain : C) (expectedSeq : Option SeqId)

/-- What one event does. -/
def ChainEvent.run : ChainEvent C D → ChainM C D Unit
  | .admission request newChain rejected => admitRequest cfg hash fingerprint request newChain rejected
  | .step chain counters => runStep chain counters
  | .preempt chain => releasePreempted chain
  | .finish chain seq tokens => finishRequest hash chain seq tokens
  | .invalidate chain expectedSeq => chainInvalidate chain expectedSeq

end Coordinator

end SparseVllm
