import SparseVllm.Layers.Linear

/-!
# The shares of a linear weight

What the ranks of a tensor-parallel group are meant to hold, said without the loaders. A layer is
given by its full sizes (`LinearSpec`). Each source tensor is split along the axis of the layer into
`shareCount` equal shares, one for each rank, except that a KV head that is replicated is held by
several ranks. A rank holds the shares of the sources one after the other (`offset`).

`Reads` says that a rank's parameters are its shares of the dequantised sources: the value of an
entry is its weight times the scale of its own block.
-/

namespace SparseVllm

open SparseVllm.Lib

/-- A layer by its full sizes. -/
inductive LinearSpec where
  | column (inputSize outputSize : Nat)
  | mergedColumn (inputSize : Nat) (outputSizes : List Nat)
  | qkv (hiddenSize headSize totalNumHeads totalNumKvHeads : Nat)
  | replicatedKvQkv (hiddenSize headSize totalNumHeads totalNumKvHeads : Nat)
  | row (inputSize outputSize : Nat)
  deriving DecidableEq, Repr

namespace LinearSpec

/-- The constructor of the class. -/
def construct (spec : LinearSpec) (context : ParallelContext) (quantized : Bool) :
    Except LinearError Linear :=
  match spec with
  | .column inputSize outputSize => columnParallelLinear context quantized inputSize outputSize
  | .mergedColumn inputSize outputSizes =>
    mergedColumnParallelLinear context quantized inputSize outputSizes
  | .qkv hiddenSize headSize totalNumHeads totalNumKvHeads =>
    qkvParallelLinear context quantized hiddenSize headSize totalNumHeads totalNumKvHeads
  | .replicatedKvQkv hiddenSize headSize totalNumHeads totalNumKvHeads =>
    replicatedKvQkvParallelLinear context quantized hiddenSize headSize totalNumHeads
      totalNumKvHeads
  | .row inputSize outputSize => rowParallelLinear context quantized inputSize outputSize

/-- The axis that is split. -/
def axis : LinearSpec → Axis
  | .row .. => .col
  | _ => .row

/-- The source tensors, in the order of their places on a rank. -/
def shards : LinearSpec → List ShardId
  | .column .. => [.none]
  | .mergedColumn _ outputSizes => (List.range outputSizes.length).map .index
  | .qkv .. => [.q, .k, .v]
  | .replicatedKvQkv .. => [.q, .k, .v]
  | .row .. => [.none]

/-- The size of a source along the axis. -/
def sourceSize : LinearSpec → ShardId → Nat
  | .column _ outputSize, _ => outputSize
  | .mergedColumn _ outputSizes, .index i => outputSizes.getD i 0
  | .mergedColumn .., _ => 0
  | .qkv _ headSize totalNumHeads _, .q => totalNumHeads * headSize
  | .qkv _ headSize totalNumHeads totalNumKvHeads, _ =>
    (if totalNumKvHeads = 0 then totalNumHeads else totalNumKvHeads) * headSize
  | .replicatedKvQkv _ headSize totalNumHeads _, .q => totalNumHeads * headSize
  | .replicatedKvQkv _ headSize _ totalNumKvHeads, _ => totalNumKvHeads * headSize
  | .row inputSize _, _ => inputSize

/-- The size of the sources across the axis. -/
def across : LinearSpec → Nat
  | .column inputSize _ => inputSize
  | .mergedColumn inputSize _ => inputSize
  | .qkv hiddenSize .. => hiddenSize
  | .replicatedKvQkv hiddenSize .. => hiddenSize
  | .row _ outputSize => outputSize

/-- How many shares a source has in a group of `tp` ranks: a replicated KV projection has one for
each KV head. -/
def shareCount (tp : Nat) : LinearSpec → ShardId → Nat
  | .replicatedKvQkv _ _ _ totalNumKvHeads, .k => totalNumKvHeads
  | .replicatedKvQkv _ _ _ totalNumKvHeads, .v => totalNumKvHeads
  | _, _ => tp

/-- The size of a share. -/
def shareSize (tp : Nat) (spec : LinearSpec) (id : ShardId) : Nat :=
  spec.sourceSize id / spec.shareCount tp id

/-- How many ranks hold a share: one, but for a replicated KV head. -/
def copies (tp : Nat) : LinearSpec → ShardId → Nat
  | .replicatedKvQkv _ _ _ totalNumKvHeads, .k => tp / totalNumKvHeads
  | .replicatedKvQkv _ _ _ totalNumKvHeads, .v => tp / totalNumKvHeads
  | _, _ => 1

/-- The share of a rank: the ranks that hold one share follow each other. -/
def shareIndex (tp : Nat) (spec : LinearSpec) (id : ShardId) (rank : Nat) : Nat :=
  rank / (tp / spec.shareCount tp id)

/-- Where the share of a source starts on a rank: after the shares of the sources before it. -/
def offset (tp : Nat) (spec : LinearSpec) (id : ShardId) : Nat :=
  ((spec.shards.takeWhile (· ≠ id)).map (spec.shareSize tp)).sum

/-- The sources of a checkpoint have the sizes of the layer, and a quantised one a scale for each
block. -/
def WellShaped {R : Type} (spec : LinearSpec) (quantized : Bool) (sources : ShardId → Source R) :
    Prop :=
  ∀ id ∈ spec.shards,
    ((sources id).weight.size spec.axis = spec.sourceSize id ∧
      (sources id).weight.across spec.axis = spec.across) ∧
    (quantized = true → (sources id).scale.size spec.axis = ceilDiv (spec.sourceSize id) 128 ∧
      (sources id).scale.across spec.axis = ceilDiv spec.across 128)

end LinearSpec

/-- The parameters have the sizes of the layer. -/
structure Linear.Shaped {R : Type} (l : Linear) (params : LinearParams R) : Prop where
  weight : params.weight.rows = l.outputSize ∧ params.weight.cols = l.inputSize
  scale : l.quantized = true → (params.scale.rows, params.scale.cols) =
    scaleShapeForWeightShape l.outputSize l.inputSize

/-- Parameters of the sizes of the layer. -/
def Linear.blank {R : Type} (l : Linear) (entry : R) : LinearParams R where
  weight := { rows := l.outputSize, cols := l.inputSize, entry := fun _ _ => entry }
  scale := {
    rows := (scaleShapeForWeightShape l.outputSize l.inputSize).1
    cols := (scaleShapeForWeightShape l.outputSize l.inputSize).2
    entry := fun _ _ => entry }

theorem Linear.blank_shaped {R : Type} (l : Linear) (entry : R) : l.Shaped (l.blank entry) :=
  ⟨⟨rfl, rfl⟩, fun _ => rfl⟩

/-- Sources of the sizes of the layer, with these entries along and across its axis. -/
def LinearSpec.sample {R : Type} (spec : LinearSpec) (weight scale : Nat → Nat → R)
    (id : ShardId) : Source R where
  weight := .ofAlong spec.axis (spec.sourceSize id) spec.across weight
  scale := .ofAlong spec.axis (ceilDiv (spec.sourceSize id) 128) (ceilDiv spec.across 128) scale

theorem LinearSpec.sample_wellShaped {R : Type} (spec : LinearSpec) (quantized : Bool)
    (weight scale : Nat → Nat → R) : spec.WellShaped quantized (spec.sample weight scale) :=
  fun _ _ => ⟨⟨Tensor.ofAlong_size .., Tensor.ofAlong_across ..⟩,
    fun _ => ⟨Tensor.ofAlong_size .., Tensor.ofAlong_across ..⟩⟩

section Values

variable {R : Type} [Mul R]

/-- A dequantised entry: its weight times the scale of its block. -/
def dequantized (axis : Axis) (quantized : Bool) (weight scale : Tensor R) (a b : Nat) : R :=
  if quantized then weight.along axis a b * scale.along axis (a / 128) (b / 128)
  else weight.along axis a b

/-- The parameters hold the rank's share of one source. -/
def ReadsShare (spec : LinearSpec) (context : ParallelContext) (quantized : Bool)
    (sources : ShardId → Source R) (params : LinearParams R) (id : ShardId) : Prop :=
  ∀ a < spec.shareSize context.tpSize id, ∀ b < spec.across,
    dequantized spec.axis quantized params.weight params.scale
        (spec.offset context.tpSize id + a) b =
      dequantized spec.axis quantized (sources id).weight (sources id).scale
        (spec.shareIndex context.tpSize id context.tpRank * spec.shareSize context.tpSize id + a) b

/-- The sources split into equal shares, and the parameters hold the rank's share of each. -/
def Reads (spec : LinearSpec) (context : ParallelContext) (quantized : Bool)
    (sources : ShardId → Source R) (params : LinearParams R) : Prop :=
  ∀ id ∈ spec.shards, spec.shareCount context.tpSize id ∣ spec.sourceSize id ∧
    ReadsShare spec context quantized sources params id

/-- Every load of well-shaped sources, of the pieces or whole and in any order, raises or reads the
shares of the rank. -/
def LoadsShares (R : Type) [Mul R] (spec : LinearSpec) (l : Linear) : Prop :=
  ∀ (sources : ShardId → Source R) (init params : LinearParams R) (order : List ShardId)
    (sliced : Bool), spec.WellShaped l.quantized sources → l.Shaped init →
    order.Perm spec.shards → l.load sliced sources init order = .ok params →
    Reads spec l.context l.quantized sources params

/-- Loading the pieces and loading the whole sources give the same parameters, or both raise. -/
def LoadsAlike (R : Type) (spec : LinearSpec) (l : Linear) : Prop :=
  ∀ (sources : ShardId → Source R) (init : LinearParams R) (order : List ShardId),
    spec.WellShaped l.quantized sources → l.Shaped init → order.Perm spec.shards →
    (l.load true sources init order).toOption = (l.load false sources init order).toOption

end Values

/-- The ranks whose share contains the row `x` of a source (the column, for `RowParallelLinear`). -/
def Holds (tp : Nat) (spec : LinearSpec) (id : ShardId) (rank x : Nat) : Prop :=
  spec.shareIndex tp id rank * spec.shareSize tp id ≤ x ∧
    x < (spec.shareIndex tp id rank + 1) * spec.shareSize tp id

/-- Over the ranks of the group, every row of a source that splits is held by as many ranks as share
it, one after the other. -/
def HeldByCopies (tp : Nat) (spec : LinearSpec) : Prop :=
  ∀ id ∈ spec.shards, spec.shareCount tp id ∣ spec.sourceSize id → ∀ x < spec.sourceSize id,
    ∃ first, first + spec.copies tp id ≤ tp ∧ ∀ rank < tp, Holds tp spec id rank x ↔
      first ≤ rank ∧ rank < first + spec.copies tp id

/-! ## The exact conditions -/

/-- The chunk of a rank exists and can be copied into its rows: it has `⌊size / tp⌋` rows, or one. -/
def ChunkFits (context : ParallelContext) (size : Nat) : Prop :=
  let chunk := ceilDiv size context.tpSize
  let rows := min chunk (size - context.tpRank * chunk)
  (context.tpRank * chunk < size ∨ size = 0) ∧ (rows = size / context.tpSize ∨ rows = 1)

instance (context : ParallelContext) (size : Nat) : Decidable (ChunkFits context size) := by
  unfold ChunkFits
  infer_instance

namespace LinearSpec

/-- The sizes of a merged layer that an unquantised load serves: all divide by the size of the group,
or the copy of some chunk raises. -/
def MergedFits (context : ParallelContext) (outputSizes : List Nat) : Prop :=
  (∀ size ∈ outputSizes, context.tpSize ∣ size) ∨ ∃ size ∈ outputSizes, ¬ ChunkFits context size

/-- The scale shards of a full size along the split axis are those of the rank: it is the first rank,
or its part starts at a block, or the number of blocks does not split. -/
def ScaleFits (context : ParallelContext) (size : Nat) : Prop :=
  context.tpRank = 0 ∨ 128 ∣ size / context.tpSize ∨
    ceilDiv size 128 ≠ context.tpSize * ceilDiv (size / context.tpSize) 128

/-- When every load raises or is right. -/
def LoadsSharesWhen (context : ParallelContext) : LinearSpec → Bool → Prop
  | .column _ outputSize, true => ScaleFits context outputSize
  | .row inputSize _, true => ScaleFits context inputSize
  | .mergedColumn _ outputSizes, false => MergedFits context outputSizes
  | _, _ => True

/-- When the piece and the whole source load alike: a single block is not cut into pieces. -/
def LoadsAlikeWhen (context : ParallelContext) : LinearSpec → Bool → Prop
  | .column _ outputSize, true => context.tpSize = 1 ∨ 128 < outputSize
  | .row inputSize _, true => context.tpSize = 1 ∨ 128 < inputSize
  | .mergedColumn _ outputSizes, false => MergedFits context outputSizes
  | _, _ => True

end LinearSpec

end SparseVllm
