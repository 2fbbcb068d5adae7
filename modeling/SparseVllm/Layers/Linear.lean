import SparseVllm.Lib.Tensor

/-!
# Tensor-parallel linear layers and their loaders (`layers/linear.py`, `utils/loader.py`)

A layer holds the rows (`ColumnParallelLinear` and its subclasses) or the columns
(`RowParallelLinear`) of its rank. A loader is given either a whole source tensor or the piece that
`rank_local_weight_slice` cuts out of it, and recognises the piece by its size alone. With FP8
quantization the weight comes with a scale for each of its 128x128 blocks.

Entries are values of one type `R`: an unquantised weight, or an FP8 entry and its scale. The
loaders of the packed layers differ in their arithmetic only, so they share `packedWeightLoader` and
`packedLoadQuantized`, applied to the shard of each class (`Shard`: the four numbers that
`ReplicatedKVQKVParallelLinear._shard` returns); `ColumnParallelLinear` and `RowParallelLinear`
share `parallelWeightLoader` and `parallelLoadQuantized`, applied to their axis.

Left out: biases, element types, the record of the row ranges loaded, and the choice of an FP8
kernel (the Triton one takes every positive size).
-/

namespace SparseVllm

open SparseVllm.Lib

/-- What a constructor or a loader raises. -/
inductive LinearError where
  | notDivisible (numerator denominator : Nat)
  | scaleNotDivisible (size tpSize : Nat)
  | featureSizes (inputFeatures outputFeatures : Nat)
  | unaligned (offset size : Nat)
  | kvHeads (kvHeads tpSize : Nat)
  | shardId
  | weightShape
  | scaleShape
  | tensor (error : TensorError)
  deriving DecidableEq, Repr

/-- The tensor-parallel group and the place of this process in it. -/
structure ParallelContext where
  tpSize : Nat
  tpRank : Nat
  rank_lt : tpRank < tpSize := by decide

/-- `loaded_shard_id`: none, an index, or the letter of a QKV projection. -/
inductive ShardId where
  | none
  | index (i : Nat)
  | q
  | k
  | v
  deriving DecidableEq, Repr

/-- `divide`. -/
def divide (numerator denominator : Nat) : Except LinearError Nat :=
  if numerator % denominator = 0 then .ok (numerator / denominator)
  else .error (.notDivisible numerator denominator)

/-- The class of a layer, with the attributes its loaders read. -/
inductive LinearClass where
  | column
  | mergedColumn (outputSizes : List Nat)
  | qkv (headSize numHeads numKvHeads : Nat)
  | replicatedKvQkv (headSize numHeads totalNumKvHeads numKvHeadReplicas : Nat)
  | row
  deriving DecidableEq, Repr

/-- `LinearBase`: `output_size` and `input_size` are those of the rank. -/
structure Linear where
  cls : LinearClass
  context : ParallelContext
  tpDim : Axis
  inputSize : Nat
  outputSize : Nat
  quantized : Bool

/-- `weight` and `weight_scale_inv`. -/
structure LinearParams (R : Type) where
  weight : Tensor R
  scale : Tensor R

/-- `_scale_shape_for_weight_shape`. -/
def scaleShapeForWeightShape (rows cols : Nat) : Nat × Nat :=
  ((rows + 127) / 128, (cols + 127) / 128)

/-! ## Constructors -/

section Constructors

variable (context : ParallelContext) (quantized : Bool)

/-- `LinearBase.__init__`. -/
def linearBase (cls : LinearClass) (inputSize outputSize : Nat) (tpDim : Axis) :
    Except LinearError Linear :=
  if quantized ∧ (inputSize = 0 ∨ outputSize = 0) then .error (.featureSizes inputSize outputSize)
  else .ok { cls, context, tpDim, inputSize, outputSize, quantized }

/-- `ColumnParallelLinear.__init__`, for the class and its subclasses. -/
def columnBase (cls : LinearClass) (inputSize outputSize : Nat) : Except LinearError Linear := do
  let outputSize ← divide outputSize context.tpSize
  linearBase context quantized cls inputSize outputSize .row

def columnParallelLinear (inputSize outputSize : Nat) : Except LinearError Linear :=
  columnBase context quantized .column inputSize outputSize

def mergedColumnParallelLinear (inputSize : Nat) (outputSizes : List Nat) :
    Except LinearError Linear :=
  columnBase context quantized (.mergedColumn outputSizes) inputSize outputSizes.sum

def qkvParallelLinear (hiddenSize headSize totalNumHeads totalNumKvHeads : Nat) :
    Except LinearError Linear := do
  -- `total_num_kv_heads or total_num_heads`
  let totalNumKvHeads := if totalNumKvHeads = 0 then totalNumHeads else totalNumKvHeads
  let numHeads ← divide totalNumHeads context.tpSize
  let numKvHeads ← divide totalNumKvHeads context.tpSize
  columnBase context quantized (.qkv headSize numHeads numKvHeads) hiddenSize
    ((totalNumHeads + 2 * totalNumKvHeads) * headSize)

def replicatedKvQkvParallelLinear (hiddenSize headSize totalNumHeads totalNumKvHeads : Nat) :
    Except LinearError Linear :=
  if context.tpSize ≤ totalNumKvHeads then .error (.kvHeads totalNumKvHeads context.tpSize)
  else do
    let numHeads ← divide totalNumHeads context.tpSize
    -- `divide` by zero raises.
    if totalNumKvHeads = 0 then .error (.notDivisible context.tpSize 0) else do
    let replicas ← divide context.tpSize totalNumKvHeads
    linearBase context quantized (.replicatedKvQkv headSize numHeads totalNumKvHeads replicas)
      hiddenSize ((numHeads + 2) * headSize) .row

def rowParallelLinear (inputSize outputSize : Nat) : Except LinearError Linear := do
  let inputSize ← divide inputSize context.tpSize
  linearBase context quantized .row inputSize outputSize .col

end Constructors

/-! ## Loaders -/

/-- A shard of a packed layer: its local size and offset, and which of how many shards of the source
it is. -/
structure Shard where
  size : Nat
  offset : Nat
  count : Nat
  rank : Nat
  deriving DecidableEq, Repr

variable {R : Type}

/-- A view or a copy of a tensor. -/
def tensorOp {α : Type} (op : Except TensorError α) : Except LinearError α :=
  op.mapError .tensor

/-- `_require_scale_shardable`. -/
def requireScaleShardable (size tpSize : Nat) : Except LinearError Nat :=
  if size % tpSize = 0 then .ok (size / tpSize) else .error (.scaleNotDivisible size tpSize)

/-- `_copy_quantized_weight_and_scale`, into `rows` rows of the weight from `start` and `blocks` rows
of the scale from `blockStart`. -/
def copyQuantizedWeightAndScale (start rows blockStart blocks : Nat) (weight scale : Tensor R)
    (params : LinearParams R) : Except LinearError (LinearParams R) :=
  if (weight.rows, weight.cols) ≠ (rows, params.weight.cols) then .error .weightShape
  else if (scale.rows, scale.cols) ≠ (blocks, params.scale.cols) then .error .scaleShape
  else do
    let weight ← tensorOp (weight.copyRows start rows params.weight)
    let scale ← tensorOp (scale.copyRows blockStart blocks params.scale)
    return { weight, scale }

/-- The range of the rank, of a tensor that may be that range already. -/
def takeRange (context : ParallelContext) (tpDim : Axis) (shardSize : Nat) (loaded : Tensor R) :
    Except LinearError (Tensor R) :=
  if loaded.size tpDim = shardSize then .ok loaded
  else tensorOp (loaded.narrow tpDim (context.tpRank * shardSize) shardSize)

/-- The part of a scale that has one part for each rank. -/
def narrowScale (context : ParallelContext) (tpDim : Axis) (scale : Tensor R) :
    Except LinearError (Tensor R) := do
  let blocks ← requireScaleShardable (scale.size tpDim) context.tpSize
  tensorOp (scale.narrow tpDim (context.tpRank * blocks) blocks)

/-- The scale itself if it has the shape of the target, else a part of it. -/
def takeScale (shardScale : Tensor R → Except LinearError (Tensor R)) (rows cols : Nat)
    (scale : Tensor R) : Except LinearError (Tensor R) :=
  if (scale.rows, scale.cols) = (rows, cols) then .ok scale else shardScale scale

/-- `weight_loader` of a layer that holds one range of an axis. -/
def parallelWeightLoader (context : ParallelContext) (tpDim : Axis) (loaded : Tensor R)
    (params : LinearParams R) : Except LinearError (LinearParams R) := do
  let loaded ← takeRange context tpDim (params.weight.size tpDim) loaded
  let weight ← tensorOp (loaded.copyRows 0 params.weight.rows params.weight)
  return { params with weight }

/-- `load_quantized_weight` of a layer that holds one range of an axis. -/
def parallelLoadQuantized (context : ParallelContext) (tpDim : Axis) (loaded scale : Tensor R)
    (params : LinearParams R) : Except LinearError (LinearParams R) := do
  let loaded ← takeRange context tpDim (params.weight.size tpDim) loaded
  let scale ← takeScale (narrowScale context tpDim) params.scale.rows params.scale.cols scale
  copyQuantizedWeightAndScale 0 params.weight.rows 0 params.scale.rows loaded scale params

/-- The chunk of a shard, of a tensor that may be that chunk already. -/
def takeShard (shard : Shard) (loaded : Tensor R) : Except LinearError (Tensor R) :=
  if loaded.rows = shard.size then .ok loaded
  else tensorOp (loaded.chunk .row shard.count shard.rank)

/-- `weight_loader` of a packed layer. -/
def packedWeightLoader (shard : Shard) (loaded : Tensor R) (params : LinearParams R) :
    Except LinearError (LinearParams R) := do
  let loaded ← takeShard shard loaded
  let weight ← tensorOp (loaded.copyRows shard.offset shard.size params.weight)
  return { params with weight }

/-- `load_quantized_weight` of a packed layer, which takes its part of a scale by `shardScale`. -/
def packedLoadQuantized (shardScale : Tensor R → Except LinearError (Tensor R)) (shard : Shard)
    (loaded scale : Tensor R) (params : LinearParams R) : Except LinearError (LinearParams R) :=
  if shard.offset % 128 ≠ 0 ∨ shard.size % 128 ≠ 0 then
    .error (.unaligned shard.offset shard.size)
  else do
    let loaded ← takeShard shard loaded
    let scale ← takeScale shardScale (shard.size / 128) params.scale.cols scale
    copyQuantizedWeightAndScale shard.offset shard.size (shard.offset / 128) (shard.size / 128)
      loaded scale params

/-- The shard of an unquantised `MergedColumnParallelLinear`, whose divisions round down. -/
def mergedShard (context : ParallelContext) (outputSizes : List Nat) (i : Nat) :
    Except LinearError Shard :=
  match outputSizes[i]? with
  | none => .error .shardId
  | some outputSize => .ok {
      size := outputSize / context.tpSize
      offset := (outputSizes.take i).sum / context.tpSize
      count := context.tpSize
      rank := context.tpRank }

/-- The shard of a quantised `MergedColumnParallelLinear`, whose divisions are exact. -/
def mergedQuantizedShard (context : ParallelContext) (outputSizes : List Nat) (i : Nat) :
    Except LinearError Shard := do
  let localOutputSizes ← outputSizes.mapM fun outputSize => divide outputSize context.tpSize
  match localOutputSizes[i]? with
  | none => .error .shardId
  | some size => .ok {
      size
      offset := (localOutputSizes.take i).sum
      count := context.tpSize
      rank := context.tpRank }

/-- The shard of a `QKVParallelLinear`. -/
def qkvShard (context : ParallelContext) (headSize numHeads numKvHeads : Nat) :
    ShardId → Except LinearError Shard
  | .q => .ok ⟨numHeads * headSize, 0, context.tpSize, context.tpRank⟩
  | .k => .ok ⟨numKvHeads * headSize, numHeads * headSize, context.tpSize, context.tpRank⟩
  | .v => .ok ⟨numKvHeads * headSize, numHeads * headSize + numKvHeads * headSize, context.tpSize,
      context.tpRank⟩
  | _ => .error .shardId

/-- `ReplicatedKVQKVParallelLinear._shard`. -/
def replicatedShard (context : ParallelContext)
    (headSize numHeads totalNumKvHeads numKvHeadReplicas : Nat) :
    ShardId → Except LinearError Shard
  | .q => .ok ⟨numHeads * headSize, 0, context.tpSize, context.tpRank⟩
  | .k => .ok ⟨headSize, numHeads * headSize, totalNumKvHeads,
      context.tpRank / numKvHeadReplicas⟩
  | .v => .ok ⟨headSize, numHeads * headSize + headSize, totalNumKvHeads,
      context.tpRank / numKvHeadReplicas⟩
  | _ => .error .shardId

namespace Linear

/-- `weight_loader`. -/
def weightLoader (l : Linear) (loaded : Tensor R) (id : ShardId) (params : LinearParams R) :
    Except LinearError (LinearParams R) :=
  match l.cls, id with
  | .column, .none => parallelWeightLoader l.context .row loaded params
  | .row, .none => parallelWeightLoader l.context .col loaded params
  | .mergedColumn outputSizes, .index i => do
    let shard ← mergedShard l.context outputSizes i
    packedWeightLoader shard loaded params
  | .qkv headSize numHeads numKvHeads, id => do
    let shard ← qkvShard l.context headSize numHeads numKvHeads id
    packedWeightLoader shard loaded params
  | .replicatedKvQkv headSize numHeads totalNumKvHeads numKvHeadReplicas, id => do
    let shard ← replicatedShard l.context headSize numHeads totalNumKvHeads numKvHeadReplicas id
    packedWeightLoader shard loaded params
  | _, _ => .error .shardId

/-- `load_quantized_weight`. -/
def loadQuantizedWeight (l : Linear) (loaded scale : Tensor R) (id : ShardId)
    (params : LinearParams R) : Except LinearError (LinearParams R) :=
  match l.cls, id with
  | .column, .none => parallelLoadQuantized l.context .row loaded scale params
  | .row, .none => parallelLoadQuantized l.context .col loaded scale params
  | .mergedColumn outputSizes, .index i => do
    let shard ← mergedQuantizedShard l.context outputSizes i
    packedLoadQuantized (narrowScale l.context .row) shard loaded scale params
  | .qkv headSize numHeads numKvHeads, id => do
    let shard ← qkvShard l.context headSize numHeads numKvHeads id
    packedLoadQuantized (narrowScale l.context .row) shard loaded scale params
  | .replicatedKvQkv headSize numHeads totalNumKvHeads numKvHeadReplicas, id => do
    let shard ← replicatedShard l.context headSize numHeads totalNumKvHeads numKvHeadReplicas id
    -- The scale is cut as the weight is, by `chunk`.
    packedLoadQuantized (fun scale => tensorOp (scale.chunk .row shard.count shard.rank)) shard
      loaded scale params
  | _, _ => .error .shardId

/-- `rank_local_weight_slice` of a rank-2 source: the range of the axis, or none for all of it. -/
def rankLocalWeightSlice (l : Linear) (id : ShardId) (isScale : Bool) (size : Nat) :
    Except LinearError (Option (Nat × Nat)) :=
  match l.cls with
  | .replicatedKvQkv headSize numHeads totalNumKvHeads numKvHeadReplicas =>
    if l.context.tpSize = 1 ∨ id = .none then .ok none
    else do
      let shard ← replicatedShard l.context headSize numHeads totalNumKvHeads numKvHeadReplicas id
      let shardSize ← divide size shard.count
      if isScale ∧ shardSize * shard.count ≠ size then .error (.scaleNotDivisible size shard.count)
      else .ok (some (shard.rank * shardSize, shardSize))
  | _ =>
    if l.context.tpSize = 1 then .ok none
    else do
      let shardSize ← divide size l.context.tpSize
      .ok (some (l.context.tpRank * shardSize, shardSize))

/-- `_read_safetensors_shard`: the piece of a tensor that the rank reads. -/
def readPiece (l : Linear) (id : ShardId) (isScale : Bool) (source : Tensor R) :
    Except LinearError (Tensor R) := do
  match ← l.rankLocalWeightSlice id isScale (source.size l.tpDim) with
  | none => .ok source
  | some (start, length) => .ok (source.slice l.tpDim start length)

end Linear

/-- A weight of the checkpoint, with its scale if it is quantised. -/
structure Source (R : Type) where
  weight : Tensor R
  scale : Tensor R

namespace Linear

/-- What a load is given of a source: all of it, or the piece of the rank. -/
def read (l : Linear) (sliced : Bool) (id : ShardId) (source : Source R) :
    Except LinearError (Source R) :=
  if sliced then do
    let weight ← l.readPiece id false source.weight
    let scale ← if l.quantized then l.readPiece id true source.scale else .ok source.scale
    return { weight, scale }
  else .ok source

/-- Load one source. -/
def loadShard (l : Linear) (sliced : Bool) (sources : ShardId → Source R)
    (params : LinearParams R) (id : ShardId) : Except LinearError (LinearParams R) := do
  let source ← l.read sliced id (sources id)
  if l.quantized then l.loadQuantizedWeight source.weight source.scale id params
  else l.weightLoader source.weight id params

/-- Load the sources of a layer, in the order of the checkpoint. -/
def load (l : Linear) (sliced : Bool) (sources : ShardId → Source R) (params : LinearParams R)
    (order : List ShardId) : Except LinearError (LinearParams R) :=
  order.foldlM (l.loadShard sliced sources) params

end Linear

end SparseVllm
