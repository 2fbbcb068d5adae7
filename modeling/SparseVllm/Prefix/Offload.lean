import SparseVllm.Prefix.Index

/-!
# The offload controller (`StandardPrefixOffloadController`, `cache_manager/prefix_offload.py`)

Blocks are backed up to pinned host memory (D2H) and brought back (H2D) by asynchronous transfers.
The controller begins a transfer in the index, keeps the operation, and publishes its blocks when
the completion event has been reached. Blocks without retained tokens have nothing to copy: they are
begun and finished at once, before the blocks with tokens.

A block is named by its id, and the callers pass ids they looked up in the index. Events and
transfer kernels succeed, and no graph is being captured; an operation is `complete` once its
completion event has been reached. Left out: `submit_d2h` and the pinned pool it allocates from (the
operations it queued are polled), `free_host_payloads`, the byte and block counters of `stats()`, the
layer events (of `_h2d_by_block_id` the keys stay, since an attach looks its blocks up), and the
auxiliary tensors of the other controllers.
-/

namespace SparseVllm

open SparseVllm.Lib

/-- `StandardPrefixBlockPayload`; `block_start` and `block_end` are for mixed caches. -/
structure StandardPrefixBlockPayload where
  tokenSlots : Option (List Nat)
  hostBlockIndex : Option Nat := none
  retainedOffsets : Option (List Nat) := none
  deriving DecidableEq, Repr

namespace StandardPrefixBlockPayload

/-- `resident_tokens`. -/
def residentTokens (payload : StandardPrefixBlockPayload) (blockSize : Nat) : Nat :=
  match payload.retainedOffsets with
  | none => blockSize
  | some offsets => offsets.length

/-- `_payload_device_slots`, if it does not raise. -/
def deviceSlots (payload : StandardPrefixBlockPayload) (blockSize : Nat) : Option (List Nat) :=
  payload.tokenSlots.filter fun slots => slots.length = payload.residentTokens blockSize

/-- The offsets of `_payload_retained_offsets`. -/
def offsets (payload : StandardPrefixBlockPayload) (blockSize : Nat) : List Nat :=
  payload.retainedOffsets.getD (List.range blockSize)

end StandardPrefixBlockPayload

/-- A block of a Standard cache. -/
abbrev StandardBlock (B : Type) := PrefixCacheBlock B StandardPrefixBlockPayload

/-- The index of a Standard cache. -/
abbrev StandardIndex (B : Type) := RadixPrefixIndex B StandardPrefixBlockPayload

/-- What the controller raises. -/
inductive PrefixOffloadError (B : Type) where
  | index (error : PrefixIndexError B)
  | inconsistentDeviceSlots (block : B) (expected : Nat)
  | invalidRetainedOffsets
  | missingHostIndex (block : B)
  | noH2dBlocks
  deriving DecidableEq, Repr

/-! ## The controller -/

/-- `PrefixD2HOperation`. -/
structure PrefixD2HOperation (B : Type) where
  blocks : List B
  hostIndices : List Nat
  complete : Bool := false
  deriving DecidableEq, Repr

/-- `PrefixH2DOperation`. -/
structure PrefixH2DOperation (B : Type) where
  blocks : List B
  deviceTokenIndices : List Nat
  complete : Bool := false
  deriving DecidableEq, Repr

/-- `StandardPrefixOffloadController`. -/
structure StandardPrefixOffloadController (B : Type) where
  prefixCache : StandardIndex B
  blockSize : Nat
  d2hOperations : List (PrefixD2HOperation B) := []
  h2dOperations : List (PrefixH2DOperation B) := []
  /-- The keys of `_h2d_by_block_id`. -/
  h2dBlockIds : List B := []

/-- A method of the controller. -/
abbrev PrefixOffloadM (B α : Type) :=
  EStateM (PrefixOffloadError B) (StandardPrefixOffloadController B) α

namespace StandardPrefixOffloadController

variable {B : Type} [LinearOrder B]

/-! ## Blocks and their payloads -/

/-- A method of the index. -/
def onIndex {α : Type} (m : PrefixIndexM B StandardPrefixBlockPayload α) : PrefixOffloadM B α :=
  zoom StandardPrefixOffloadController.prefixCache (fun s c => { c with prefixCache := s }) .index m

/-- The block object of an id. -/
def blockOf (id : B) : PrefixOffloadM B (StandardBlock B) :=
  onIndex (RadixPrefixIndex.indexed id .updateNotIndexed)

/-- An attribute update of the payload of the block at `id`. -/
def setPayload (id : B) (f : StandardPrefixBlockPayload → StandardPrefixBlockPayload) :
    PrefixOffloadM B Unit :=
  modify fun c => { c with prefixCache := { c.prefixCache with
    blocks := c.prefixCache.blocks.modify id fun block =>
      { block with payload := f block.payload } } }

/-- `_payload_device_slots`. -/
def payloadDeviceSlots (id : B) : PrefixOffloadM B (List Nat) := do
  let block ← blockOf id
  let c ← get
  match block.payload.deviceSlots c.blockSize with
  | some slots => pure slots
  | none => throw (.inconsistentDeviceSlots id (block.payload.residentTokens c.blockSize))

/-- `_payload_retained_offsets`. -/
def payloadRetainedOffsets (id : B) : PrefixOffloadM B (List Nat) := do
  let block ← blockOf id
  let c ← get
  raiseIf (∃ offset ∈ block.payload.offsets c.blockSize, c.blockSize ≤ offset)
    .invalidRetainedOffsets
  pure (block.payload.offsets c.blockSize)

/-- `_payload_host_index`. -/
def payloadHostIndex (id : B) : PrefixOffloadM B Nat := do
  let block ← blockOf id
  match block.payload.hostBlockIndex with
  | some index => pure index
  | none => throw (.missingHostIndex id)

/-- `empty_blocks`: the blocks without device slots. -/
def emptyBlocks (blocks : List B) : PrefixOffloadM B (List B) := do
  let slots ← mapEach blocks payloadDeviceSlots
  pure (((blocks.zip slots).filter fun entry => entry.2.length = 0).map (·.1))

/-- `for block in blocks: begin(block); begun.append(block)`; on a raise, `undo` runs on the blocks
begun, newest first. -/
def beginEach (begin : B → PrefixOffloadM B Unit) (undo : List B → PrefixOffloadM B Unit) :
    List B → List B → PrefixOffloadM B Unit
  | [], _ => pure ()
  | id :: rest, begun => do
    onRaise (begin id) (undo begun)
    beginEach begin undo rest (id :: begun)

/-! ## D2H -/

/-- One pass of `_finish_d2h`. -/
def publishD2h (entry : B × Nat) : PrefixOffloadM B Unit := do
  setPayload entry.1 fun payload => { payload with hostBlockIndex := some entry.2 }
  onIndex (RadixPrefixIndex.finishD2h entry.1)

/-- `_finish_d2h`. -/
def finishOperation (operation : PrefixD2HOperation B) : PrefixOffloadM B Unit :=
  forEach (operation.blocks.zip operation.hostIndices) publishD2h

/-- `poll_d2h`, on the operations left: the head is popped while it is complete. -/
def pollD2hFrom : List (PrefixD2HOperation B) → PrefixOffloadM B Nat
  | [] => pure 0
  | operation :: rest =>
    if operation.complete then do
      modify fun c => { c with d2hOperations := rest }
      finishOperation operation
      let completed ← pollD2hFrom rest
      pure (completed + 1)
    else pure 0

/-- `poll_d2h`. -/
def pollD2h : PrefixOffloadM B Nat := do
  let c ← get
  pollD2hFrom c.d2hOperations

/-! ## H2D -/

/-- One block without tokens: begun and finished. -/
def promoteEmpty (id : B) : PrefixOffloadM B Unit := do
  onIndex (RadixPrefixIndex.beginH2d id)
  onIndex (RadixPrefixIndex.finishH2d id)

/-- The asynchronous part of `submit_h2d`; the operation, unless no block has tokens. -/
def transferH2d (blocks : List B) : PrefixOffloadM B (Option (PrefixH2DOperation B)) :=
  if blocks = [] then pure none
  else do
    let _ ← mapEach blocks payloadHostIndex
    let _ ← mapEach blocks payloadRetainedOffsets
    let deviceSlots ← mapEach blocks payloadDeviceSlots
    beginEach (fun id => onIndex (RadixPrefixIndex.beginH2d id))
      (fun begun => forEach begun fun id => onIndex (RadixPrefixIndex.abortH2d id)) blocks []
    let operation := { blocks := blocks, deviceTokenIndices := deviceSlots.flatten }
    modify fun c => { c with
      h2dOperations := c.h2dOperations ++ [operation]
      h2dBlockIds := blocks ++ c.h2dBlockIds }
    pure (some operation)

/-- `submit_h2d`. -/
def submitH2d (blocks : List B) : PrefixOffloadM B (Option (PrefixH2DOperation B)) := do
  raiseIf (blocks = []) .noH2dBlocks
  let emptyIds ← emptyBlocks blocks
  forEach emptyIds promoteEmpty
  transferH2d (blocks.filter (· ∉ emptyIds))

/-- One block of a complete H2D operation. -/
def publishH2d (id : B) : PrefixOffloadM B Unit := do
  onIndex (RadixPrefixIndex.finishH2d id)
  modify fun c => { c with h2dBlockIds := c.h2dBlockIds.filter (· ≠ id) }

/-- `poll_h2d`, on the operations left; those not complete stay. A raise leaves `h2d_operations` as
it was. -/
def pollH2dFrom : List (PrefixH2DOperation B) → List (PrefixH2DOperation B) → PrefixOffloadM B Unit
  | [], remaining => modify fun c => { c with h2dOperations := remaining }
  | operation :: rest, remaining =>
    if operation.complete then do
      forEach operation.blocks publishH2d
      pollH2dFrom rest remaining
    else pollH2dFrom rest (remaining ++ [operation])

/-- `poll_h2d`. -/
def pollH2d : PrefixOffloadM B Unit := do
  let c ← get
  pollH2dFrom c.h2dOperations []

/-- `poll`. -/
def poll : PrefixOffloadM B Unit := do
  let _ ← pollD2h
  pollH2d

end StandardPrefixOffloadController

end SparseVllm
