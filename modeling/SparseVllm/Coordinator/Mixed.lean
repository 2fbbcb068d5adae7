import Mathlib.Data.Finset.Basic
import SparseVllm.Prefix.IndexSpec
import SparseVllm.Prefix.WriteThrough
import SparseVllm.Scheduler.Sequence

/-!
# The mixed prefix cache coordinator (`PrefixCacheCoordinator`, `engine/prefix_cache_coordinator.py`)

A model that mixes attention with recurrent layers caches a prompt block as a KV payload and a
snapshot of the recurrent state. A block is reserved against two budgets, blocks and recurrent
bytes, when its last token is recorded, and enters the index when the step commits. Requests that
complete the same block in one step share the reservation of the first.

The cache manager, the recurrent state manager and the offload controller are `Components` over a
state `W`, any of whose calls may raise. Payloads `K` and `R` are references into it. What the
controller does to the index is a list of transfer calls.

The coordinator here has `prefix_cache` set. A loop takes at most `fuel` passes and is otherwise
`stillRunning`. `free_prefix_recurrent_payload` does nothing and is not called.

Left out: attaching a hit (`AttachedHit` in the runs of `Reservation` is what it leaves), queries,
`reset_after_warmup`, `host_block_index`, profiling.
-/

namespace SparseVllm.Mixed

open SparseVllm.Lib

/-- `MixedPrefixBlockPayload`. -/
structure MixedPrefixBlockPayload (K R : Type) where
  kvPayload : K
  recurrentPayload : R
  tokenCount : Nat
  accountingBytes : Int
  recurrentBytes : Int
  deriving DecidableEq, Repr

/-- `_PendingMixedPrefixBlock`. -/
structure PendingMixedPrefixBlock (B K R : Type) where
  stableBlockId : B
  parentBlockId : Option B
  logicalBlockIdx : Nat
  tokenIds : List Int
  payload : MixedPrefixBlockPayload K R
  deriving DecidableEq, Repr

/-- `_MixedPrefixRuntimeState`. -/
structure MixedPrefixRuntimeState (B : Type) where
  parentBlockId : Option B
  nextLogicalBlockIdx : Nat
  pendingTokens : List Int := []
  deriving DecidableEq, Repr

/-- The index of a mixed runtime. -/
abbrev MixedIndex (B K R : Type) := RadixPrefixIndex B (MixedPrefixBlockPayload K R)

/-- A block of it. -/
abbrev MixedBlock (B K R : Type) := PrefixCacheBlock B (MixedPrefixBlockPayload K R)

/-- The block `commit_pending_blocks` builds. -/
def PendingMixedPrefixBlock.toBlock {B K R : Type} (blockSize : Nat)
    (pending : PendingMixedPrefixBlock B K R) :
    MixedBlock B K R where
  stableBlockId := pending.stableBlockId
  parentBlockId := pending.parentBlockId
  blockSize := blockSize
  logicalBlockIdx := pending.logicalBlockIdx
  payload := pending.payload
  tokenIds := pending.tokenIds
  refCount := 1

/-- A call of an offload controller on the index. -/
inductive TransferCall (B : Type) where
  | beginD2h (id : B)
  | finishD2h (id : B)
  | abortD2h (id : B)
  | beginH2d (id : B)
  | finishH2d (id : B)
  | abortH2d (id : B)
  deriving DecidableEq, Repr

/-- The index's method of a call. -/
def TransferCall.op {B P : Type} : TransferCall B → RadixPrefixIndex.IndexOp B P
  | .beginD2h id => .beginD2h id
  | .finishD2h id => .finishD2h id
  | .abortD2h id => .abortD2h id
  | .beginH2d id => .beginH2d id
  | .finishH2d id => .finishH2d id
  | .abortH2d id => .abortH2d id

/-- What a method of the controller did: its calls on the index, how it ended, what it left. -/
structure OffloadReply (B W X α : Type) where
  calls : List (TransferCall B)
  result : Except X α
  world : W

/-- What the coordinator calls: the fingerprinted hash, the cache manager, the recurrent state
manager, and the offload controller. `X` is what they raise. -/
structure Components (B K R W X : Type) where
  stableBlockId : List Int → Option B → B
  prefixRecurrentSnapshotNbytes : EStateM X W Int
  buildPrefixKvPayload : SeqId → Nat → Nat → EStateM X W K
  buildPrefixRecurrentPayload : SeqId → Nat → EStateM X W R
  prefixRecurrentPayloadNbytes : R → EStateM X W Int
  prefixKvPayloadNbytes : K → EStateM X W Int
  markMaterializedPrefixKvPayload : SeqId → K → EStateM X W Unit
  rollbackMaterializedPrefixKvPayload : SeqId → K → EStateM X W Unit
  freePrefixKvPayload : K → EStateM X W Unit
  freePrefixKvPayloadDevice : K → EStateM X W Unit
  /-- `offload_controller is not None`. -/
  offloadEnabled : Bool
  freeDeviceRecurrent : MixedBlock B K R → EStateM X W Unit
  /-- `recurrent.layer_states = {}`. -/
  clearLayerStates : R → W → W
  freeHostPayloads : List (MixedBlock B K R) → EStateM X W Unit
  /-- `host_pool.free_blocks`. -/
  hostFreeBlocks : W → Nat
  isStreamCapturing : W → Bool
  poll : MixedIndex B K R → W → OffloadReply B W X Unit
  waitOldestD2h : MixedIndex B K R → W → OffloadReply B W X Bool
  submitD2h : List B → MixedIndex B K R → W → OffloadReply B W X Unit

/-- What the coordinator raises. -/
inductive CoordinatorError (B X : Type) where
  | index (error : PrefixIndexError B)
  | component (error : X)
  | sequence (error : SequenceError)
  | crossesBoundary (seqId : SeqId) (start stop blockSize : Nat)
  | snapshotBytes (declared actual : Int)
  | becameDuplicate
  | unexpectedDuplicate
  | duplicateNotCommitted
  | reservationMissing
  | negativePendingBytes
  | negativeIncoming (bytes : Int)
  | payloadOverBudget (payload : Int) (maxBytes : Nat)
  | hostEvictionWithoutController
  | demotionWithoutController
  | hostCapacityWithoutController
  | hostPoolTooSmall (need free : Nat)
  | d2hWhileCapturing
  /-- The pass of a loop after the last. -/
  | stillRunning
  deriving DecidableEq, Repr

/-- `PrefixCacheCoordinator`. -/
structure PrefixCacheCoordinator (B K R W : Type) where
  blockSize : Nat
  maxRecurrentBytes : Nat
  prefixCache : MixedIndex B K R
  world : W
  seqIdToPrefixBlocks : Dict SeqId (List B) := ∅
  seqIdToMaterializedBlocks : Dict SeqId (List B) := ∅
  runtimeStates : Dict SeqId (MixedPrefixRuntimeState B) := ∅
  pendingBlocks : Dict SeqId (List (PendingMixedPrefixBlock B K R)) := ∅
  pendingDuplicateRefs : Dict SeqId (List B) := ∅
  pendingBlockIds : Finset B := ∅
  pendingRecurrentBytes : Int := 0
  capacityLimitedSeqIds : Finset SeqId := ∅
  skippedCapacityBlocks : Nat := 0
  writeThroughCandidates : List B := []

/-- A method of the coordinator. -/
abbrev CoordinatorM (B K R W X α : Type) :=
  EStateM (CoordinatorError B X) (PrefixCacheCoordinator B K R W) α

namespace PrefixCacheCoordinator

variable {B K R W X α : Type} [LinearOrder B]

/-- A method of the index. -/
def onIndex (m : PrefixIndexM B (MixedPrefixBlockPayload K R) α) : CoordinatorM B K R W X α :=
  zoom prefixCache (fun s c => { c with prefixCache := s }) .index m

/-- A method of a component. -/
def onWorld (m : EStateM X W α) : CoordinatorM B K R W X α :=
  zoom world (fun w c => { c with world := w }) .component m

/-- A method of the offload controller. -/
def onController (f : MixedIndex B K R → W → OffloadReply B W X α) :
    CoordinatorM B K R W X α := fun c =>
  let reply := f c.prefixCache c.world
  let c' := { c with
    prefixCache := runAll RadixPrefixIndex.IndexOp.exec c.prefixCache
      (reply.calls.map TransferCall.op)
    world := reply.world }
  match reply.result with
  | .ok a => .ok a c'
  | .error e => .error (.component e) c'

/-- `_live_recurrent_bytes`. -/
def liveRecurrentBytes (c : PrefixCacheCoordinator B K R W) : Int :=
  (c.prefixCache.blocks.values.map (·.payload.recurrentBytes)).sum

/-- The number of blocks in D2H. -/
def inflightD2h (c : PrefixCacheCoordinator B K R W) : Nat :=
  c.prefixCache.blocks.values.countP (·.residency.transfer = some .d2h)

/-- `_poll_offload`. -/
def pollOffload (h : Components B K R W X) : CoordinatorM B K R W X Unit :=
  if h.offloadEnabled then onController h.poll else pure ()

/-! ## Freeing blocks -/

/-- `_free_device_block`. -/
def freeDeviceBlock (h : Components B K R W X) (block : MixedBlock B K R) :
    CoordinatorM B K R W X Unit := do
  raiseIf (h.offloadEnabled = false) .demotionWithoutController
  onWorld (h.freePrefixKvPayloadDevice block.payload.kvPayload)
  onWorld (h.freeDeviceRecurrent block)

/-- The loop body of `_free_blocks` with offload. -/
def freeTiers (h : Components B K R W X) (block : MixedBlock B K R) :
    CoordinatorM B K R W X Unit := do
  if block.residency.devicePresent then freeDeviceBlock h block else pure ()
  modify fun c => { c with world := h.clearLayerStates block.payload.recurrentPayload c.world }

/-- `_free_blocks`, of blocks taken out of the index. -/
def freeBlocks (h : Components B K R W X) (blocks : List (MixedBlock B K R)) :
    CoordinatorM B K R W X Unit := do
  modify fun c => { c with
    writeThroughCandidates :=
      c.writeThroughCandidates.filter (· ∉ blocks.map (·.stableBlockId)) }
  if h.offloadEnabled then
    forEach blocks (freeTiers h)
    let hostBlocks := blocks.filter (·.residency.hostPresent)
    if hostBlocks.isEmpty then pure () else onWorld (h.freeHostPayloads hostBlocks)
  else forEach blocks fun block => onWorld (h.freePrefixKvPayload block.payload.kvPayload)

/-! ## Evictions -/

/-- `evict_host_until_freeable(remaining)`, and the free after it: the number of blocks. -/
def evictHost (h : Components B K R W X) (remaining : Nat) : CoordinatorM B K R W X Nat := do
  let evicted ← onIndex (RadixPrefixIndex.evictHostUntilFreeable remaining)
  freeBlocks h evicted
  pure evicted.length

/-- The end of a pass of `_evict_host_blocks`: wait for a D2H, and say if one has gone. -/
def awaitD2h (h : Components B K R W X) : CoordinatorM B K R W X Bool := do
  let c ← get
  if c.inflightD2h = 0 then pure false
  else
    let waited ← onController h.waitOldestD2h
    if waited = false then pure false
    else
      pollOffload h
      let c' ← get
      pure (decide (c'.inflightD2h < c.inflightD2h))

/-- The loop of `_evict_host_blocks`: the number of blocks evicted. -/
def evictHostLoop (h : Components B K R W X) (needed : Nat) :
    Nat → Nat → CoordinatorM B K R W X Nat
  | 0, _ => throw .stillRunning
  | fuel + 1, evicted =>
    if needed ≤ evicted then pure evicted
    else do
      pollOffload h
      let first ← evictHost h (needed - evicted)
      if needed ≤ evicted + first then pure (evicted + first)
      else
        let demoted ←
          onIndex (RadixPrefixIndex.demoteDeviceUntilFreeable (needed - evicted : Nat))
        forEach demoted (freeDeviceBlock h)
        let second ← evictHost h (needed - evicted)
        if needed ≤ evicted + first + second then pure (evicted + first + second)
        else
          let progress ← awaitD2h h
          if progress then evictHostLoop h needed fuel (evicted + first + second)
          else pure (evicted + first + second)

/-- `_evict_host_blocks`. -/
def evictHostBlocks (h : Components B K R W X) (fuel needed : Nat) :
    CoordinatorM B K R W X Bool := do
  raiseIf (h.offloadEnabled = false) .hostEvictionWithoutController
  let evicted ← evictHostLoop h needed fuel 0
  pure (decide (evicted = needed))

/-- `evict_until_freeable`, and the free after it: the number of blocks. -/
def evictDevice (h : Components B K R W X) (needed : Nat) : CoordinatorM B K R W X Nat := do
  let evicted ← onIndex (RadixPrefixIndex.evictUntilFreeable needed)
  freeBlocks h evicted
  pure evicted.length

/-- Make `needed` blocks go, in the tier `_evict_for_insert` evicts from. -/
def evictBlocks (h : Components B K R W X) (fuel needed : Nat) : CoordinatorM B K R W X Bool :=
  if h.offloadEnabled then evictHostBlocks h fuel needed
  else do
    let evicted ← evictDevice h needed
    pure (decide (evicted = needed))

/-- The block budget of `_evict_for_insert`. -/
def evictForBlocks (h : Components B K R W X) (fuel neededBlocks : Nat) :
    CoordinatorM B K R W X Bool := do
  let c ← get
  match c.prefixCache.maxBlocks with
  | none => pure true
  | some maxBlocks =>
    let live := c.prefixCache.blocks.entries.length + c.pendingBlockIds.card
    if live + neededBlocks ≤ maxBlocks then pure true
    else evictBlocks h fuel (live + neededBlocks - maxBlocks)

/-- The loop on the byte budget of `_evict_for_insert`; one pass evicts one block. -/
def evictForBytes (h : Components B K R W X) (incoming : Int) :
    Nat → CoordinatorM B K R W X Bool
  | 0 => throw .stillRunning
  | fuel + 1 => do
    let c ← get
    if c.liveRecurrentBytes + c.pendingRecurrentBytes + incoming ≤ c.maxRecurrentBytes then
      pure true
    else
      let evicted ← evictBlocks h fuel 1
      if evicted then evictForBytes h incoming fuel else pure false

/-- `_evict_for_insert`. -/
def evictForInsert (h : Components B K R W X) (fuel neededBlocks : Nat) (incoming : Int) :
    CoordinatorM B K R W X Bool := do
  raiseIf (incoming < 0) (.negativeIncoming incoming)
  let c ← get
  raiseIf ((c.maxRecurrentBytes : Int) < incoming)
    (.payloadOverBudget incoming c.maxRecurrentBytes)
  let room ← evictForBlocks h fuel neededBlocks
  if room then evictForBytes h incoming fuel else pure false

/-! ## Reservations -/

/-- `_reserve_pending_block`. -/
def reservePendingBlock (h : Components B K R W X) (fuel : Nat) (id : B) (recurrentBytes : Int) :
    CoordinatorM B K R W X Bool := do
  let c ← get
  if id ∈ c.pendingBlockIds then pure false
  else
    let room ← evictForInsert h fuel 1 recurrentBytes
    if room = false then pure false
    else
      modify fun c => { c with
        pendingBlockIds := insert id c.pendingBlockIds
        pendingRecurrentBytes := c.pendingRecurrentBytes + recurrentBytes }
      pure true

/-- `_release_pending_reservation`. -/
def releasePendingReservation (id : B) (recurrentBytes : Int) :
    CoordinatorM B K R W X Unit := do
  let c ← get
  raiseIf (id ∉ c.pendingBlockIds) .reservationMissing
  modify fun c => { c with
    pendingBlockIds := c.pendingBlockIds.erase id
    pendingRecurrentBytes := c.pendingRecurrentBytes - recurrentBytes }
  let c ← get
  raiseIf (c.pendingRecurrentBytes < 0) .negativePendingBytes

/-- Release the reservation of a pending block. -/
def releasePending (pending : PendingMixedPrefixBlock B K R) : CoordinatorM B K R W X Unit :=
  releasePendingReservation pending.stableBlockId pending.payload.recurrentBytes

/-- `_hold_materialized_ref`. -/
def holdMaterializedRef (seqId : SeqId) (id : B) : CoordinatorM B K R W X Unit := do
  let c ← get
  let materialized := (c.seqIdToMaterializedBlocks.get? seqId).getD []
  if id ∈ (c.seqIdToPrefixBlocks.get? seqId).getD [] ++ materialized then pure ()
  else
    onIndex (RadixPrefixIndex.acquireBlockRef id)
    modify fun c => { c with
      seqIdToMaterializedBlocks := c.seqIdToMaterializedBlocks.set seqId (materialized ++ [id]) }

/-! ## Recording tokens -/

/-- `state.parent_block_id = …; state.next_logical_block_idx += 1`. -/
def advance (seqId : SeqId) (id : B) : CoordinatorM B K R W X Unit :=
  modify fun c => { c with
    runtimeStates := c.runtimeStates.modify seqId fun state =>
      { state with parentBlockId := some id, nextLogicalBlockIdx := state.nextLogicalBlockIdx + 1 } }

/-- The duplicate branch of `add_block`. -/
def addDuplicateRef (seqId : SeqId) (id : B) : CoordinatorM B K R W X Unit :=
  modify fun c =>
    let refs := (c.pendingDuplicateRefs.get? seqId).getD []
    { c with pendingDuplicateRefs :=
        c.pendingDuplicateRefs.set seqId (if id ∈ refs then refs else refs ++ [id]) }

/-- The payload of a block, built from the components. -/
def buildPayload (h : Components B K R W X) (seqId : SeqId) (blockSize blockStart : Nat)
    (recurrentBytes : Int) : CoordinatorM B K R W X (MixedPrefixBlockPayload K R) := do
  let kv ← onWorld (h.buildPrefixKvPayload seqId blockStart (blockStart + blockSize))
  let recurrent ← onWorld (h.buildPrefixRecurrentPayload seqId (blockStart + blockSize))
  let actual ← onWorld (h.prefixRecurrentPayloadNbytes recurrent)
  raiseIf (actual ≠ recurrentBytes) (.snapshotBytes recurrentBytes actual)
  let kvBytes ← onWorld (h.prefixKvPayloadNbytes kv)
  pure
    { kvPayload := kv
      recurrentPayload := recurrent
      tokenCount := blockSize
      accountingBytes := kvBytes + recurrentBytes
      recurrentBytes := recurrentBytes }

/-- `pending.append(…)`. -/
def appendPending (seqId : SeqId) (pending : PendingMixedPrefixBlock B K R) :
    CoordinatorM B K R W X Unit :=
  modify fun c => { c with
    pendingBlocks := c.pendingBlocks.modify seqId (· ++ [pending]) }

/-- The `try` of `add_block`. -/
def addReserved (h : Components B K R W X) (seqId : SeqId) (state : MixedPrefixRuntimeState B)
    (blockTokens : List Int) (id : B) (recurrentBytes : Int) : CoordinatorM B K R W X Unit := do
  let c ← get
  let payload ← buildPayload h seqId c.blockSize (state.nextLogicalBlockIdx * c.blockSize)
    recurrentBytes
  appendPending seqId
    { stableBlockId := id
      parentBlockId := state.parentBlockId
      logicalBlockIdx := state.nextLogicalBlockIdx
      tokenIds := blockTokens
      payload := payload }

/-- The last part of `add_block`, for an id that is neither indexed nor pending. -/
def addNew (h : Components B K R W X) (fuel : Nat) (seqId : SeqId)
    (state : MixedPrefixRuntimeState B) (blockTokens : List Int) (id : B) :
    CoordinatorM B K R W X Unit := do
  let recurrentBytes ← onWorld h.prefixRecurrentSnapshotNbytes
  let reserved ← reservePendingBlock h fuel id recurrentBytes
  if reserved = false then
    modify fun c => { c with
      capacityLimitedSeqIds := insert seqId c.capacityLimitedSeqIds
      skippedCapacityBlocks := c.skippedCapacityBlocks + 1 }
  else
    onRaise (addReserved h seqId state blockTokens id recurrentBytes)
      (releasePendingReservation id recurrentBytes)
    advance seqId id

/-- `add_block`. -/
def addBlock (h : Components B K R W X) (fuel : Nat) (seqId : SeqId) (blockTokens : List Int) :
    CoordinatorM B K R W X Unit := do
  let c ← get
  let state := (c.runtimeStates.get? seqId).getD ⟨none, 0, []⟩
  raiseIf (blockTokens.length ≠ c.prefixCache.blockSize)
    (.index (.blockNotFull blockTokens.length c.prefixCache.blockSize))
  let id := h.stableBlockId blockTokens state.parentBlockId
  if (c.prefixCache.getBlock id).isSome then
    holdMaterializedRef seqId id
    advance seqId id
  else if id ∈ c.pendingBlockIds then
    addDuplicateRef seqId id
    advance seqId id
  else addNew h fuel seqId state blockTokens id

/-- `state.pending_tokens = …`. -/
def setPendingTokens (seqId : SeqId) (tokens : List Int) : CoordinatorM B K R W X Unit :=
  modify fun c => { c with
    runtimeStates := c.runtimeStates.modify seqId fun state =>
      { state with pendingTokens := tokens } }

/-- `[l[i : i + size] for i in range(0, n * size, size)]`. -/
def fullBlocks (size : Nat) : Nat → List Int → List (List Int)
  | 0, _ => []
  | n + 1, l => l.take size :: fullBlocks size n (l.drop size)

/-- The last part of `_record_tokens`, on the tokens after `offset`. -/
def recordFullBlocks (h : Components B K R W X) (fuel : Nat) (seqId : SeqId)
    (tokenIds : List Int) : CoordinatorM B K R W X Unit := do
  let c ← get
  let full := tokenIds.length / c.blockSize
  forEach (fullBlocks c.blockSize full tokenIds) (addBlock h fuel seqId)
  setPendingTokens seqId (tokenIds.drop (full * c.blockSize))

/-- `_record_tokens`, once the runtime state is there. -/
def recordInto (h : Components B K R W X) (fuel : Nat) (seqId : SeqId)
    (state : MixedPrefixRuntimeState B) (tokenIds : List Int) : CoordinatorM B K R W X Unit := do
  let c ← get
  if state.pendingTokens = [] then recordFullBlocks h fuel seqId tokenIds
  else
    let take := min (c.blockSize - state.pendingTokens.length) tokenIds.length
    let tokens := state.pendingTokens ++ tokenIds.take take
    setPendingTokens seqId tokens
    if tokens.length = c.blockSize then
      addBlock h fuel seqId tokens
      setPendingTokens seqId []
      recordFullBlocks h fuel seqId (tokenIds.drop take)
    else pure ()

/-- `_record_tokens`. -/
def recordTokens (h : Components B K R W X) (fuel : Nat) (seqId : SeqId) (seq : Sequence B)
    (tokenIds : List Int) : CoordinatorM B K R W X Unit :=
  if seq.hasMultimodalDigest then pure ()
  else if tokenIds = [] then pure ()
  else do
    let c ← get
    let state := (c.runtimeStates.get? seqId).getD
      ⟨seq.prefixCacheHitLastBlockId, seq.prefixCacheHitBlockCount, []⟩
    let pending := (c.pendingBlocks.get? seqId).getD []
    set { c with
      runtimeStates := c.runtimeStates.set seqId state
      pendingBlocks := c.pendingBlocks.set seqId pending }
    recordInto h fuel seqId state tokenIds

/-- The prefill branch of `record_step_tokens`. -/
def recordPrefill (h : Components B K R W X) (fuel : Nat) (seqId : SeqId) (seq : Sequence B) :
    CoordinatorM B K R W X Unit := do
  let c ← get
  let chunkSize := seq.currentChunkSize.getD 0
  let start := seq.numPrefilledTokens
  let boundary := start + (c.blockSize - start % c.blockSize)
  if chunkSize = 0 then pure ()
  else
    raiseIf (boundary < start + chunkSize)
      (.crossesBoundary seqId start (start + chunkSize) c.blockSize)
    let tokenIds := if chunkSize < seq.tokenIds.length
      then (seq.tokenIds.drop start).take chunkSize else seq.tokenIds
    recordTokens h fuel seqId seq (tokenIds.map Int.ofNat)

/-- The decode branch of `record_step_tokens`. -/
def recordDecode (h : Components B K R W X) (fuel : Nat) (seqId : SeqId) (seq : Sequence B) :
    CoordinatorM B K R W X Unit :=
  match seq.decodeInputToken with
  | .error e => throw (.sequence e)
  | .ok token => recordTokens h fuel seqId seq [Int.ofNat token]

/-- `record_step_tokens`. -/
def recordStepTokens (h : Components B K R W X) (fuel : Nat) (seqs : List (SeqId × Sequence B))
    (isPrefill : Bool) : CoordinatorM B K R W X Unit :=
  forEach seqs fun (seqId, seq) => do
    let c ← get
    if seqId ∈ c.capacityLimitedSeqIds then pure ()
    else if isPrefill then recordPrefill h fuel seqId seq
    else recordDecode h fuel seqId seq

/-! ## Committing -/

/-- Update `seq_id_to_materialized_blocks[seq_id]`, which is there. -/
def updateMaterialized (seqId : SeqId) (f : List B → List B) : CoordinatorM B K R W X Unit :=
  modify fun c => { c with
    seqIdToMaterializedBlocks := c.seqIdToMaterializedBlocks.modify seqId f }

/-- The handler of `mark_materialized_prefix_kv_payload`. -/
def rollbackCommitted (h : Components B K R W X) (seqId : SeqId)
    (pending : PendingMixedPrefixBlock B K R) : CoordinatorM B K R W X Unit := do
  onWorld (h.rollbackMaterializedPrefixKvPayload seqId pending.payload.kvPayload)
  updateMaterialized seqId (·.erase pending.stableBlockId)
  onIndex (RadixPrefixIndex.setBlockRefCount pending.stableBlockId 0)
  onIndex (RadixPrefixIndex.rollbackInsertedLeaf pending.stableBlockId)

/-- The outer `try` of `commit_pending_blocks`, for one pending block. -/
def commitBlock (h : Components B K R W X) (seqId : SeqId)
    (pending : PendingMixedPrefixBlock B K R) : CoordinatorM B K R W X Unit := do
  let c ← get
  let indexed := (c.prefixCache.getBlock pending.stableBlockId).isSome
  raiseIf (indexed = true) .becameDuplicate
  let _ ← onIndex (RadixPrefixIndex.insertBlock (pending.toBlock c.blockSize))
  -- `insert_block` returns another object when the id was indexed
  raiseIf (indexed = true) .unexpectedDuplicate
  updateMaterialized seqId (· ++ [pending.stableBlockId])
  onRaise (onWorld (h.markMaterializedPrefixKvPayload seqId pending.payload.kvPayload))
    (rollbackCommitted h seqId pending)

/-- The outer handler of `commit_pending_blocks`, with the blocks not yet processed. -/
def abandon (seqId : SeqId) (unprocessed : List (PendingMixedPrefixBlock B K R)) :
    CoordinatorM B K R W X Unit := do
  forEach unprocessed releasePending
  modify fun c => { c with
    pendingDuplicateRefs := c.pendingDuplicateRefs.pop seqId
    seqIdToMaterializedBlocks := if c.seqIdToMaterializedBlocks.get? seqId = some []
      then c.seqIdToMaterializedBlocks.pop seqId else c.seqIdToMaterializedBlocks }

/-- The loop over the pending blocks of one request. -/
def commitBlocks (h : Components B K R W X) (seqId : SeqId) :
    List (PendingMixedPrefixBlock B K R) → CoordinatorM B K R W X Unit
  | [] => pure ()
  | pending :: rest => do
    andFinally (onRaise (commitBlock h seqId pending) (abandon seqId rest))
      (releasePending pending)
    commitBlocks h seqId rest

/-- A duplicate reference, resolved. -/
def resolveDuplicate (seqId : SeqId) (id : B) : CoordinatorM B K R W X Unit := do
  let c ← get
  raiseIf ((c.prefixCache.getBlock id).isNone = true) .duplicateNotCommitted
  holdMaterializedRef seqId id

/-- The pass of `commit_pending_blocks` for one request. -/
def commitSeq (h : Components B K R W X) (seqId : SeqId) : CoordinatorM B K R W X Unit := do
  let c ← get
  let pending := (c.pendingBlocks.get? seqId).getD []
  let materialized := (c.seqIdToMaterializedBlocks.get? seqId).getD []
  set { c with
    pendingBlocks := c.pendingBlocks.pop seqId
    seqIdToMaterializedBlocks := c.seqIdToMaterializedBlocks.set seqId materialized }
  commitBlocks h seqId pending
  let c ← get
  let duplicates := (c.pendingDuplicateRefs.get? seqId).getD []
  set { c with pendingDuplicateRefs := c.pendingDuplicateRefs.pop seqId }
  forEach duplicates (resolveDuplicate seqId)

/-- `commit_pending_blocks`. -/
def commitPendingBlocks (h : Components B K R W X) (seqs : List SeqId) :
    CoordinatorM B K R W X Unit :=
  forEach seqs (commitSeq h)

/-! ## Releasing a request -/

/-- `_ensure_host_capacity`. -/
def ensureHostCapacity (h : Components B K R W X) (fuel neededBlocks : Nat) :
    CoordinatorM B K R W X Unit := do
  raiseIf (h.offloadEnabled = false) .hostCapacityWithoutController
  let c ← get
  if neededBlocks ≤ h.hostFreeBlocks c.world then pure ()
  else
    let evicted ← evictHostBlocks h fuel (neededBlocks - h.hostFreeBlocks c.world)
    let c ← get
    raiseIf (evicted = false) (.hostPoolTooSmall neededBlocks (h.hostFreeBlocks c.world))

/-- The submission of `_schedule_write_through`. -/
def submitWriteThrough (h : Components B K R W X) (fuel : Nat) (selected : List B) :
    CoordinatorM B K R W X Unit :=
  if selected = [] then pure ()
  else do
    ensureHostCapacity h fuel selected.length
    onController (h.submitD2h selected)
    modify fun c => { c with
      writeThroughCandidates := c.writeThroughCandidates.filter (· ∉ selected) }

/-- `_schedule_write_through`. -/
def scheduleWriteThrough (h : Components B K R W X) (fuel : Nat) (newlyUnreferenced : List B) :
    CoordinatorM B K R W X Unit :=
  if h.offloadEnabled then do
    let c ← get
    raiseIf (h.isStreamCapturing c.world = true) .d2hWhileCapturing
    pollOffload h
    let c ← get
    let chosen := c.prefixCache.selectWriteThroughCandidates c.writeThroughCandidates
      newlyUnreferenced
    set { c with writeThroughCandidates := chosen.2 }
    submitWriteThrough h fuel chosen.1
  else pure ()

/-- The pops at the end of `release_seq`, and the releases between them. -/
def dropPending (seqId : SeqId) : CoordinatorM B K R W X Unit := do
  let c ← get
  let pending := (c.pendingBlocks.get? seqId).getD []
  set { c with
    runtimeStates := c.runtimeStates.pop seqId
    pendingBlocks := c.pendingBlocks.pop seqId }
  forEach pending releasePending
  modify fun c => { c with
    pendingDuplicateRefs := c.pendingDuplicateRefs.pop seqId
    capacityLimitedSeqIds := c.capacityLimitedSeqIds.erase seqId }

/-- `release_seq`. -/
def releaseSeq (h : Components B K R W X) (fuel : Nat) (seqId : SeqId) :
    CoordinatorM B K R W X Unit := do
  let c ← get
  let released := (c.seqIdToPrefixBlocks.get? seqId).getD [] ++
    (c.seqIdToMaterializedBlocks.get? seqId).getD []
  set { c with
    seqIdToPrefixBlocks := c.seqIdToPrefixBlocks.pop seqId
    seqIdToMaterializedBlocks := c.seqIdToMaterializedBlocks.pop seqId }
  forEach released fun id => onIndex (RadixPrefixIndex.releaseBlockRef id)
  dropPending seqId
  scheduleWriteThrough h fuel released

end PrefixCacheCoordinator

end SparseVllm.Mixed
