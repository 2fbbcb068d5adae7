import SparseVllm.CacheManager.Lookup
import SparseVllm.Prefix.Offload

/-!
# The Standard cache manager (`StandardCacheManager`, `cache_manager/standard.py`, `PrefixCacheMixin`)

KV slots are handed out from a stack. A live request owns a row, the list of its slots; the slots of
a committed prefix block belong to the block's payload. Full blocks are formed while tokens are
recorded and committed to the index when the forward pass ends.

The index is the controller's (both names refer to one object). Without offload the rest of the
controller is unused.

Here are the lookups, the counts and the materialisation. Left out: the calls that move slots between
the stack, the rows and the blocks, and the tensors.
-/

namespace SparseVllm

open SparseVllm.Lib

/-- `PrefixRuntimeState`; `pending_slots` is a list of tensors. -/
structure PrefixRuntimeState (B : Type) where
  parentBlockId : Option B
  nextLogicalBlockIdx : Nat
  pendingTokens : List Int := []
  pendingSlots : List (List Nat) := []
  deriving DecidableEq, Repr

/-- `PendingPrefixBlock`; its payload is made of `slots`. -/
structure PendingPrefixBlock (B : Type) where
  stableBlockId : B
  parentBlockId : Option B
  logicalBlockIdx : Nat
  slots : List Nat
  tokenIds : List Int
  deriving DecidableEq, Repr

/-- A row of `buffer_req_to_token_slots`, with `row_seq_lens` (the length of `slots`) and
`row_logical_lens`. -/
structure KvRow where
  rowIdx : Nat
  slots : List Nat := []
  logicalLen : Nat := 0
  deriving DecidableEq, Repr

/-- What the manager raises. -/
inductive StandardCacheError (B : Type) where
  | offload (error : PrefixOffloadError B)
  | hit (error : PrefixHitError B)
  | outOfKvSlots (need free : Nat)
  | outOfPromotionSlots (need free : Nat)
  | noFreeRows
  | hitWithoutLastBlock (seq : SeqId)
  | hitNotAligned (seq : SeqId) (hitLen blockSize : Nat)
  | chainLengthMismatch (seq : SeqId) (hitLen blocks : Nat)
  | notPromotable (seq : SeqId) (block : B)
  | unexpectedTransfer (seq : SeqId)
  | missingHostAllocation (seq : SeqId) (block : B)
  | notRootContiguous (seq : SeqId) (block : B)
  | invalidBlockSlots (seq : SeqId) (logicalBlockIdx : Nat)
  | untrackedH2d (block : B)
  | nonEmptyRow (seq : SeqId) (rowLen : Nat)
  | cpuHitWithoutOffload
  | missingSlotsAfterPromotion (block : B)
  | logicalLengthMismatch (seq : SeqId) (rowLogicalLen start : Nat)
  | tokenSlotMismatch (seq : SeqId) (tokens slots : Nat)
  | negativeRowOffset (seq : SeqId) (logicalBlockIdx : Nat)
  | invalidDeviceSlots (block : B)
  | hostPayloadWithoutController
  | logicalCapacityExceeded (maxBlocks evicted : Nat)
  | hostCapacityWithoutController
  | hostPoolTooSmall (need free evicted : Nat)
  | unknownSequence (seq : SeqId)
  | prefixCacheDisabled
  | pruneNotAligned
  | pruneNotIndexed (requestedEnd matched : Nat)
  | pruneEmpty
  | pruneBlocked (blocks : List B)
  | recompressNotImplemented
  | alreadyPruned
  | keepOutOfRange
  | keepDuplicate
  | pruneInconsistent (block : B)
  deriving DecidableEq, Repr

/-- `StandardCacheManager`, with the configuration it reads. -/
structure StandardCacheManager (B : Type) where
  /-- `stable_block_id`: the hash of a block's tokens and its parent's id. -/
  stableBlockId : List Int → Option B → B
  prefixCacheBlockSize : Nat
  maxNumBatchedTokens : Nat
  maxDecodingSeqs : Nat
  /-- `enable_prefix_caching`: the manager has an index. -/
  enablePrefixCaching : Bool
  /-- `prefix_offload_controller is not None`. -/
  offloadEnabled : Bool
  /-- `free_slots_stack[:_num_free_slots]`. -/
  freeSlots : List Nat
  freeRows : List Nat
  controller : StandardPrefixOffloadController B
  seqIdToRow : Dict SeqId KvRow := ∅
  prefixLookupCache : Dict SeqId (PrefixLookupCacheEntry B) := ∅
  prefixHitCapacityCache : Dict SeqId (PrefixHitCapacityCacheEntry B) := ∅
  seqIdToPrefixBlocks : Dict SeqId (List B) := ∅
  seqIdToCachedRanges : Dict SeqId (List (Nat × Nat)) := ∅
  seqIdToMaterializedBlocks : Dict SeqId (List B) := ∅
  prefixRuntimeStates : Dict SeqId (PrefixRuntimeState B) := ∅
  pendingPrefixBlocks : Dict SeqId (List (PendingPrefixBlock B)) := ∅
  /-- The keys of `_prefix_write_through_candidates`, oldest first. -/
  writeThroughCandidates : List B := []
  snapshotDepth : Nat := 0
  schedulerFreeableBlockIds : Option (Finset B) := none
  schedulerReclaimableSlots : Option Nat := none

section Pending

variable {B : Type}

/-- `stable_block_id`: only a full block has one. -/
def fullBlockId (hash : List Int → Option B → B) (blockSize : Nat) (tokens : List Int)
    (parent : Option B) : Except (PrefixIndexError B) B :=
  if tokens.length = blockSize then .ok (hash tokens parent)
  else .error (.blockNotFull tokens.length blockSize)

namespace PrefixRuntimeState

/-- `add_block` of `_record_prefix_materialization`: the state after it, and the pending block. -/
def addBlock (blockId : List Int → Option B → Except (PrefixIndexError B) B)
    (state : PrefixRuntimeState B) (tokens : List Int) (slots : List Nat) :
    Except (PrefixIndexError B) (PrefixRuntimeState B × PendingPrefixBlock B) := do
  let id ← blockId tokens state.parentBlockId
  pure ({ state with
      parentBlockId := some id, nextLogicalBlockIdx := state.nextLogicalBlockIdx + 1 },
    { stableBlockId := id, parentBlockId := state.parentBlockId,
      logicalBlockIdx := state.nextLogicalBlockIdx, slots := slots, tokenIds := tokens })

/-- The loop over the `count` full blocks from `offset` on, then the tokens left over. -/
def addBlocks (blockId : List Int → Option B → Except (PrefixIndexError B) B) (blockSize : Nat) :
    Nat → PrefixRuntimeState B → List Int → List Nat →
      Except (PrefixIndexError B) (PrefixRuntimeState B × List (PendingPrefixBlock B))
  | 0, state, tokens, slots =>
    if tokens = [] then .ok ({ state with pendingTokens := [], pendingSlots := [] }, [])
    else .ok ({ state with pendingTokens := tokens, pendingSlots := [slots] }, [])
  | count + 1, state, tokens, slots => do
    let added ← state.addBlock blockId (tokens.take blockSize) (slots.take blockSize)
    let rest ← added.1.addBlocks blockId blockSize count (tokens.drop blockSize)
      (slots.drop blockSize)
    pure (rest.1, added.2 :: rest.2)

/-- `state.pending_tokens.extend(token_ids[:take])`, and the slots with them. -/
def carry (state : PrefixRuntimeState B) (tokens : List Int) (slots : List Nat) :
    PrefixRuntimeState B :=
  { state with
    pendingTokens := state.pendingTokens ++ tokens
    pendingSlots := state.pendingSlots ++ [slots] }

/-- `_record_prefix_materialization` on the runtime state: the state after it, and the blocks
completed. A block begun by an earlier call is filled first. -/
def record (blockId : List Int → Option B → Except (PrefixIndexError B) B) (blockSize : Nat)
    (state : PrefixRuntimeState B) (tokens : List Int) (slots : List Nat) :
    Except (PrefixIndexError B) (PrefixRuntimeState B × List (PendingPrefixBlock B)) :=
  if state.pendingTokens = [] then
    state.addBlocks blockId blockSize (tokens.length / blockSize) tokens slots
  else
    let take := min (blockSize - state.pendingTokens.length) tokens.length
    let carried := state.carry (tokens.take take) (slots.take take)
    if carried.pendingTokens.length = blockSize then do
      let added ← carried.addBlock blockId carried.pendingTokens carried.pendingSlots.flatten
      let rest ← ({ added.1 with pendingTokens := [], pendingSlots := [] }).addBlocks blockId
        blockSize ((tokens.length - take) / blockSize) (tokens.drop take) (slots.drop take)
      pure (rest.1, added.2 :: rest.2)
    else .ok (carried, [])

end PrefixRuntimeState

end Pending

/-- A method of the manager. -/
abbrev StandardM (B α : Type) := EStateM (StandardCacheError B) (StandardCacheManager B) α

namespace StandardCacheManager

variable {B : Type} [LinearOrder B]

/-- The index. -/
def prefixCache (m : StandardCacheManager B) : StandardIndex B := m.controller.prefixCache

/-- A method of the offload controller. -/
def onController {α : Type} (p : PrefixOffloadM B α) : StandardM B α :=
  zoom StandardCacheManager.controller (fun c m => { m with controller := c }) .offload p

/-- A method of the index. -/
def onIndex {α : Type} (p : PrefixIndexM B StandardPrefixBlockPayload α) : StandardM B α :=
  onController (StandardPrefixOffloadController.onIndex p)

/-- The index and its memos. -/
def lookups (m : StandardCacheManager B) : PrefixLookups B StandardPrefixBlockPayload where
  prefixCache := m.prefixCache
  prefixLookupCache := m.prefixLookupCache
  prefixHitCapacityCache := m.prefixHitCapacityCache

/-- A lookup. -/
def onLookups {α : Type} (p : PrefixLookupM B StandardPrefixBlockPayload α) : StandardM B α :=
  zoom lookups (fun l m => { m with
    controller := { m.controller with prefixCache := l.prefixCache }
    prefixLookupCache := l.prefixLookupCache
    prefixHitCapacityCache := l.prefixHitCapacityCache }) .hit p

/-- `_num_free_slots`. -/
def numFreeSlots (m : StandardCacheManager B) : Nat := m.freeSlots.length

/-- `_block_resident_tokens_or_full`. -/
def blockResidentTokens (m : StandardCacheManager B) (block : StandardBlock B) : Nat :=
  block.payload.residentTokens m.prefixCacheBlockSize

/-- `_poll_prefix_offload`. -/
def pollPrefixOffload : StandardM B Unit := do
  let m ← get
  if m.offloadEnabled then onController StandardPrefixOffloadController.poll else pure ()

/-! ## Materialisation -/

/-- `prefix_runtime_states.get(seq_id)`, or the state a sequence starts with. -/
def runtimeState (m : StandardCacheManager B) (seqId : SeqId) (seq : Sequence B) :
    PrefixRuntimeState B :=
  (m.prefixRuntimeStates.get? seqId).getD
    { parentBlockId := seq.prefixCacheHitLastBlockId
      nextLogicalBlockIdx := seq.prefixCacheHitBlockCount }

/-- `_record_prefix_materialization`. -/
def recordPrefixMaterialization (seqId : SeqId) (seq : Sequence B) (tokens : List Int)
    (slots : List Nat) : StandardM B Unit := do
  let m ← get
  if seq.hasMultimodalDigest = true ∨ m.enablePrefixCaching = false then pure ()
  else
    raiseIf (tokens.length ≠ slots.length) (.tokenSlotMismatch seqId tokens.length slots.length)
    if tokens = [] then pure ()
    else
      match (m.runtimeState seqId seq).record
        (fullBlockId m.stableBlockId m.prefixCache.blockSize) m.prefixCacheBlockSize tokens slots with
      | .error e => onIndex (throw e)
      | .ok recorded =>
        let pending := (m.pendingPrefixBlocks.get? seqId).getD []
        set { m with
          prefixRuntimeStates := m.prefixRuntimeStates.set seqId recorded.1
          pendingPrefixBlocks := m.pendingPrefixBlocks.set seqId (pending ++ recorded.2) }

end StandardCacheManager

end SparseVllm
