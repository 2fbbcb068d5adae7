import SparseVllm.Lib.Pool
import SparseVllm.Lib.Run
import SparseVllm.Lib.Table
import SparseVllm.Scheduler.Sequence
import Mathlib.Algebra.Order.Group.Nat
import Mathlib.Algebra.Order.Ring.Int
import Mathlib.Data.List.GetD

/-!
# Full-layer KIVI storage (`engine/cache_manager/deltakv_less_memory.py`)

A full-attention layer of `DeltaKVLessMemoryCacheManager` keeps the sink and the recent tokens of a
row in raw slots and packs what lies between into quantised blocks of `group` tokens. A staged prefill
plans the packed interval of the whole prompt (`prepareKiviPlan`), a decode step appends a raw slot
and the eviction after it packs the groups that have left the residual window
(`kiviEvictRow`).

Left out: the tensors themselves, the positions kept for a raw slot, admission, the staging slots that
a prompt holds in the table until its plan overwrites them, and the raises of the sparse layers.
-/

namespace SparseVllm

open SparseVllm.Lib

/-! ## The state -/

/-- The sizes of the full-layer KIVI storage. -/
structure KiviGeometry where
  sinkKeepTokens : Nat
  groupSize : Nat
  residualLength : Nat
  group_pos : 0 < groupSize := by decide
  residual_pos : 0 < residualLength := by decide

/-- The full layers of the cache manager. An unset entry of a table is `-1`. -/
structure KiviCache where
  /-- `free_slots_stack_full`, the bottom first. -/
  freeSlots : List Nat
  /-- `free_slots_stack_full_layer_kivi`, the bottom first. -/
  freeBlocks : List Nat
  seqIdToRow : SeqId → Option Nat
  freeRows : List Nat
  rowSeqLens : Nat → Nat
  /-- `num_prompt_tokens` of the request of a row. -/
  promptLens : Nat → Nat
  /-- `full_layer_slots_map`. -/
  slotsMap : Nat → Nat → Int
  /-- `full_layer_kivi_block_slots_map`. -/
  blockSlotsMap : Nat → Nat → Int
  /-- `full_layer_kivi_block_start_pos`. -/
  blockStartPos : Nat → Int
  /-- `row_full_layer_kivi_quantized_lens`. -/
  quantizedLens : Nat → Nat

/-- What the cache manager raises. -/
inductive KiviError where
  | noFreeRows
  | outOfSlots (need free : Nat)
  | outOfBlocks (need free : Nat)
  | rowLengthMismatch (seq : SeqId) (rowLen start : Nat)
  | rawSlotMissing
  | unknownSequence (seq : SeqId)
  | emptyRow (seq : SeqId)
  deriving DecidableEq, Repr

/-- `range(start, stop, step)`. -/
def strided (start stop step : Nat) : List Nat :=
  (List.range ((stop - start + step - 1) / step)).map fun k => start + step * k

namespace KiviCache

/-- The state at construction. -/
def initial (numSlots numBlocks numRows : Nat) : KiviCache where
  freeSlots := List.range numSlots
  freeBlocks := List.range numBlocks
  seqIdToRow := fun _ => none
  freeRows := List.range numRows
  rowSeqLens := fun _ => 0
  promptLens := fun _ => 0
  slotsMap := fun _ _ => 0
  blockSlotsMap := fun _ _ => -1
  blockStartPos := fun _ => -1
  quantizedLens := fun _ => 0

/-- The slots held by the first `len` positions of a row. -/
def slotsOf (c : KiviCache) (row len : Nat) : List Nat :=
  (((List.range len).map (c.slotsMap row)).filter (0 ≤ ·)).map Int.toNat

/-- The blocks that hold the first `len` positions of a row: `torch.unique`, in order. -/
def blocksOf (c : KiviCache) (row len : Nat) : List Nat :=
  ((((List.range len).map (c.blockSlotsMap row)).filter (0 ≤ ·)).map Int.toNat).dedup.mergeSort

end KiviCache

/-! ## The methods -/

/-- The programs of the full layers. -/
abbrev KiviM (α : Type) := EStateM KiviError KiviCache α

section Methods

variable (g : KiviGeometry)

/-- `_get_free_row`. -/
def getKiviRow (seq : SeqId) : KiviM Nat := do
  let c ← get
  match c.seqIdToRow seq with
  | some row => return row
  | none =>
    match c.freeRows with
    | [] => throw .noFreeRows
    | row :: rest =>
      set { c with seqIdToRow := Function.update c.seqIdToRow seq (some row), freeRows := rest }
      return row

/-- `_allocate_full_positions`, for a request that has its row. -/
def allocateFullPositions (row : Nat) (positions : List Nat) : KiviM Unit := do
  let c ← get
  raiseIf (c.freeSlots.length < positions.length)
    (.outOfSlots positions.length c.freeSlots.length)
  let kept := c.freeSlots.length - positions.length
  set { c with
    freeSlots := c.freeSlots.take kept
    slotsMap := assign c.slotsMap
      ((positions.map fun i => (row, i)).zip ((c.freeSlots.drop kept).map fun slot : Nat => (slot : Int))) }

/-- `_allocate_full_layer_kivi_blocks`. -/
def allocateKiviBlocks (size : Nat) : KiviM (List Nat) := do
  let c ← get
  raiseIf (c.freeBlocks.length < size) (.outOfBlocks size c.freeBlocks.length)
  let kept := c.freeBlocks.length - size
  set { c with freeBlocks := c.freeBlocks.take kept }
  return c.freeBlocks.drop kept

/-- The groups of a row from `start` on are packed in `blocks`. -/
def mapBlocks (row start : Nat) (blocks : List Nat) (c : KiviCache) : KiviCache :=
  { c with
    blockSlotsMap := fun r i =>
      if r = row ∧ start ≤ i ∧ i < start + blocks.length * g.groupSize then
        (blocks.getD ((i - start) / g.groupSize) 0 : Nat)
      else c.blockSlotsMap r i
    blockStartPos := fun b =>
      if b ∈ blocks then (start + blocks.idxOf b * g.groupSize : Nat) else c.blockStartPos b }

/-- `_prepare_full_layer_kivi_full_prefill_plan`. -/
def prepareKiviPlan (row totalLen : Nat) : KiviM Unit := do
  let sink := min g.sinkKeepTokens totalLen
  let quantRelEnd := (totalLen - sink - g.residualLength) / g.groupSize * g.groupSize
  let quantEnd := sink + quantRelEnd
  let blockStarts := strided sink quantEnd g.groupSize
  -- The table of the row is cleared before the kept slots are written to it once more.
  modify fun c => { c with
    slotsMap := fun r i => if r = row ∧ i < totalLen then -1 else c.slotsMap r i }
  allocateFullPositions row (List.range sink ++ List.range' quantEnd (totalLen - quantEnd))
  let blocks ← allocateKiviBlocks blockStarts.length
  modify (mapBlocks g row sink blocks)
  modify fun c => { c with
    quantizedLens := Function.update c.quantizedLens row quantEnd
    promptLens := Function.update c.promptLens row totalLen }

/-- The check of `_prepare_prefill` on a row in use. -/
def checkKiviRow (seq : SeqId) (start : Nat) : KiviM Unit := do
  let c ← get
  match c.seqIdToRow seq with
  | none => return ()
  | some row =>
    raiseIf (c.rowSeqLens row ≠ start) (.rowLengthMismatch seq (c.rowSeqLens row) start)

/-- A chunk of a prompt of `totalLen` tokens. The plan is made with the first chunk: a full-staging
prefill has one chunk, a raw-offload prefill any number of them. -/
def prefillKiviChunk (seq : SeqId) (totalLen start size : Nat) : KiviM Unit := do
  checkKiviRow seq start
  let row ← getKiviRow seq
  if start = 0 then prepareKiviPlan g row totalLen
  modify fun c => { c with
    rowSeqLens := Function.update c.rowSeqLens row (c.rowSeqLens row + size) }

/-- `_allocate_batch_full`, and the lengths of a decode step. -/
def decodeKivi (seqs : List SeqId) : KiviM Unit := do
  let c ← get
  raiseIf (c.freeSlots.length < seqs.length) (.outOfSlots seqs.length c.freeSlots.length)
  let rows ← mapEach seqs getKiviRow
  modify fun c =>
    let kept := c.freeSlots.length - seqs.length
    { c with
      freeSlots := c.freeSlots.take kept
      slotsMap := assign c.slotsMap ((rows.map fun row => (row, c.rowSeqLens row)).zip
        ((c.freeSlots.drop kept).map fun slot : Nat => (slot : Int)))
      rowSeqLens := fun r => if r ∈ rows then c.rowSeqLens r + 1 else c.rowSeqLens r }

/-- A row of `_full_layer_kivi_evict`. -/
def kiviEvictRow (row : Nat) : KiviM Unit := do
  let c ← get
  let sink := g.sinkKeepTokens
  let bufferLen := c.rowSeqLens row - sink
  if bufferLen ≤ g.residualLength then return ()
  let quantRelEnd := (bufferLen - g.residualLength) / g.groupSize * g.groupSize
  if quantRelEnd = 0 then return ()
  let quantEnd := sink + quantRelEnd
  let quantized := if c.quantizedLens row = 0 then sink else c.quantizedLens row
  let quantStart := sink +
    (max sink quantized - sink + g.groupSize - 1) / g.groupSize * g.groupSize
  if quantEnd ≤ quantStart then return ()
  let slots := (List.range' quantStart (quantEnd - quantStart)).map (c.slotsMap row)
  raiseIf (∃ slot ∈ slots, slot < 0) .rawSlotMissing
  let blocks ← allocateKiviBlocks ((quantEnd - quantStart) / g.groupSize)
  modify (mapBlocks g row quantStart blocks)
  modify fun c => { c with
    freeSlots := c.freeSlots ++ slots.map Int.toNat
    slotsMap := fun r i => if r = row ∧ quantStart ≤ i ∧ i < quantEnd then -1 else c.slotsMap r i
    quantizedLens := Function.update c.quantizedLens row quantEnd }

/-- `_full_layer_kivi_evict`. -/
def kiviEvict (seqs : List SeqId) : KiviM Unit :=
  forEach seqs fun seq => do
    let c ← get
    match c.seqIdToRow seq with
    | none => return ()
    | some row => kiviEvictRow g row

/-- `free_seq`. -/
def freeKiviSeq (seq : SeqId) : KiviM Unit := do
  let c ← get
  match c.seqIdToRow seq with
  | none => throw (.unknownSequence seq)
  | some row =>
    let curLen := c.rowSeqLens row
    set { c with seqIdToRow := Function.update c.seqIdToRow seq none }
    raiseIf (curLen = 0) (.emptyRow seq)
    modify fun c => { c with
      freeSlots := c.freeSlots ++ c.slotsOf row curLen
      freeBlocks := c.freeBlocks ++ c.blocksOf row curLen
      blockStartPos := fun b => if b ∈ c.blocksOf row curLen then -1 else c.blockStartPos b
      slotsMap := fun r i => if r = row then 0 else c.slotsMap r i
      blockSlotsMap := fun r i => if r = row then -1 else c.blockSlotsMap r i
      rowSeqLens := Function.update c.rowSeqLens row 0
      promptLens := Function.update c.promptLens row 0
      quantizedLens := Function.update c.quantizedLens row 0
      freeRows := c.freeRows ++ [row] }

/-! ## Steps -/

/-- A step of the engine, or the end of a request. -/
inductive KiviOp where
  /-- A full-staging prefill of whole prompts. -/
  | prefill (prompts : List (SeqId × Nat))
  /-- A chunk of a raw-offload prefill, which defers its eviction. -/
  | offload (seq : SeqId) (totalLen start size : Nat)
  | decode (seqs : List SeqId)
  | free (seq : SeqId)

/-- A step, with the eviction after it. -/
def KiviOp.run : KiviOp → KiviM Unit
  | .prefill prompts => do
    forEach prompts fun prompt => prefillKiviChunk g prompt.1 prompt.2 0 prompt.2
    kiviEvict g (prompts.map Prod.fst)
  | .offload seq totalLen start size => prefillKiviChunk g seq totalLen start size
  | .decode seqs => do
    decodeKivi seqs
    kiviEvict g seqs
  | .free seq => freeKiviSeq seq

/-- The prompt of a request in a row has been prefilled. -/
def KiviCache.Prefilled (c : KiviCache) (row : Nat) : Prop := c.promptLens row ≤ c.rowSeqLens row

/-- What the scheduler sends: prompts and chunks are not empty, a chunk lies within its prompt, and a
decode batch has distinct requests whose prompts have been prefilled. -/
def KiviOp.Scheduled (c : KiviCache) : KiviOp → Prop
  | .prefill prompts => ∀ prompt ∈ prompts, 0 < prompt.2
  | .offload seq totalLen start size => 0 < size ∧
      if start = 0 then size ≤ totalLen
      else ∃ row, c.seqIdToRow seq = some row ∧ start + size ≤ c.promptLens row
  | .decode seqs => seqs.Nodup ∧ ∀ seq ∈ seqs, ∃ row, c.seqIdToRow seq = some row ∧ c.Prefilled row
  | .free _ => True

/-- A run goes on while its steps return. -/
def KiviOp.Allowed (c : KiviCache) (op : KiviOp) : Prop :=
  op.Scheduled c ∧ (raises (op.run g) c).isNone = true

/-- The states of the runs from construction. -/
def KiviReachable (numSlots numBlocks numRows : Nat) (c : KiviCache) : Prop :=
  Reachable (fun op => stateAfter (KiviOp.run g op)) (KiviOp.Allowed g)
    (.initial numSlots numBlocks numRows) c

end Methods

end SparseVllm
