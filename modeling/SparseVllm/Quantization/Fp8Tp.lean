import Mathlib.Algebra.BigOperators.Fin
import Mathlib.Algebra.BigOperators.Intervals
import SparseVllm.Lib.Tensor

/-!
# Tensor-parallel shards of FP8 experts (`quantization/fp8_tp.py`)

A rank owns a logical range of the intermediate size, and keeps the blocks that cover it: the rows of
the gate and up projections and the columns of the down projection. Neighbouring ranks may keep the
same block; the columns of the down projection that another rank owns are zero.

Modelled are `Fp8ExpertTpShard` with its properties, `checkpoint_slice` and `prepare_projection`, and
the expert that the kernels evaluate: weights times their block's scale, the activation of gate and up,
the down projection. Entries are in a semiring, so sums are exact and have no order; the entry of a
weight is its decoded value. Left out: devices, dtypes, and copies against views.

## Results

* `logical_partition`: the logical ranges partition the intermediate size.
* `prepareProjection_cut`: a tensor that was cut while reading is prepared as the whole one.
* **`shards_add_up`**: in exact arithmetic the outputs of the ranks add up to that of the expert.
-/

namespace SparseVllm.Fp8Tp

open Lib

/-! ## Shards -/

/-- What the methods raise. -/
inductive Fp8TpError where
  | dimensionsNotPositive
  | rankOutside (tpRank tpSize : Nat)
  | notDivisibleByTp (globalSize tpSize : Nat)
  | notBlockAligned (globalSize blockSize : Nat)
  | checkpointShape (isScale : Bool) (expected got : Nat × Nat)
  | weightShape (expectedLocal expectedGlobal got : Nat × Nat)
  | scaleShape (expectedLocal expectedGlobal got : Nat × Nat)
  deriving DecidableEq

/-- `Fp8ExpertTpShard`, with what `__post_init__` checks. -/
structure Fp8ExpertTpShard where
  globalSize : Nat
  tpRank : Nat
  tpSize : Nat
  blockSize : Nat := 128
  global_pos : 0 < globalSize
  block_pos : 0 < blockSize
  rank_lt : tpRank < tpSize
  tp_dvd : tpSize ∣ globalSize
  block_dvd : blockSize ∣ globalSize

namespace Fp8ExpertTpShard

/-- `Fp8ExpertTpShard(global_size, tp_rank, tp_size, block_size)`. -/
def postInit (globalSize tpRank tpSize blockSize : Nat) : Except Fp8TpError Fp8ExpertTpShard :=
  if hpos : globalSize = 0 ∨ tpSize = 0 ∨ blockSize = 0 then .error .dimensionsNotPositive
  else if hrank : ¬ tpRank < tpSize then .error (.rankOutside tpRank tpSize)
  else if htp : globalSize % tpSize ≠ 0 then .error (.notDivisibleByTp globalSize tpSize)
  else if hblock : globalSize % blockSize ≠ 0 then .error (.notBlockAligned globalSize blockSize)
  else .ok {
    globalSize, tpRank, tpSize, blockSize
    global_pos := by omega
    block_pos := by omega
    rank_lt := not_not.mp hrank
    tp_dvd := Nat.dvd_of_mod_eq_zero (not_not.mp htp)
    block_dvd := Nat.dvd_of_mod_eq_zero (not_not.mp hblock) }

variable (s : Fp8ExpertTpShard)

def logicalSize : Nat := s.globalSize / s.tpSize

def logicalStart : Nat := s.tpRank * s.logicalSize

def logicalStop : Nat := s.logicalStart + s.logicalSize

def alignedStart : Nat := s.logicalStart / s.blockSize * s.blockSize

def alignedStop : Nat := (s.logicalStop + s.blockSize - 1) / s.blockSize * s.blockSize

def physicalSize : Nat := s.alignedStop - s.alignedStart

def localLogicalStart : Nat := s.logicalStart - s.alignedStart

def localLogicalStop : Nat := s.localLogicalStart + s.logicalSize

/-- The shard of another rank. -/
def atRank (r : Fin s.tpSize) : Fp8ExpertTpShard :=
  { s with tpRank := r, rank_lt := r.isLt }

/-- The axis of the intermediate size. -/
def axis (downProjection : Bool) : Axis := if downProjection then .col else .row

/-- The shape of a projection with this hidden and this intermediate size. -/
def projectionShape (downProjection : Bool) (hidden size : Nat) : Nat × Nat :=
  if downProjection then (hidden, size) else (size, hidden)

/-- `(slice(None), slice(start, stop))`, or with the axes exchanged. -/
structure Slices where
  axis : Axis
  start : Nat
  stop : Nat
  deriving DecidableEq

/-- `checkpoint_slice`. -/
def checkpointSlice (sourceShape : Nat × Nat) (hiddenSize : Nat) (downProjection isScale : Bool) :
    Except Fp8TpError (Option Slices) :=
  if s.tpSize = 1 then .ok none
  else
    let globalShape :=
      if isScale then
        projectionShape downProjection (hiddenSize / s.blockSize) (s.globalSize / s.blockSize)
      else projectionShape downProjection hiddenSize s.globalSize
    let start := if isScale then s.alignedStart / s.blockSize else s.alignedStart
    let stop := if isScale then s.alignedStop / s.blockSize else s.alignedStop
    if sourceShape ≠ globalShape then .error (.checkpointShape isScale globalShape sourceShape)
    else .ok (some { axis := axis downProjection, start, stop })

end Fp8ExpertTpShard

open Fp8ExpertTpShard

variable {R : Type}

/-- A tensor read with these slices, or whole. -/
def cut (slices : Option Slices) (t : Tensor R) : Tensor R :=
  match slices with
  | some slices => t.slice slices.axis slices.start (slices.stop - slices.start)
  | none => t

/-- The part of a tensor of the global shape, and a tensor of the local shape as it is. -/
def localPart (axis : Axis) (start stop : Nat) (localShape globalShape : Nat × Nat)
    (error : Nat × Nat → Nat × Nat → Nat × Nat → Fp8TpError) (t : Tensor R) :
    Except Fp8TpError (Tensor R) :=
  if (t.rows, t.cols) = globalShape then .ok (t.slice axis start (stop - start))
  else if (t.rows, t.cols) ≠ localShape then .error (error localShape globalShape (t.rows, t.cols))
  else .ok t

/-- `w[:, :prefix] = 0` and `w[:, suffix:] = 0`. -/
def zeroOutside [Zero R] (start stop : Nat) (w : Tensor R) : Tensor R :=
  { w with entry i j := if j < start ∨ stop ≤ j then 0 else w.entry i j }

/-- `prepare_projection`. -/
def Fp8ExpertTpShard.prepareProjection [Zero R] (s : Fp8ExpertTpShard)
    (loadedWeight loadedScale : Tensor R) (hiddenSize : Nat) (downProjection : Bool) :
    Except Fp8TpError (Tensor R × Tensor R) := do
  let block := s.blockSize
  let weight ← localPart (axis downProjection) s.alignedStart s.alignedStop
    (projectionShape downProjection hiddenSize s.physicalSize)
    (projectionShape downProjection hiddenSize s.globalSize) .weightShape loadedWeight
  let scale ← localPart (axis downProjection) (s.alignedStart / block) (s.alignedStop / block)
    (projectionShape downProjection (hiddenSize / block) (s.physicalSize / block))
    (projectionShape downProjection (hiddenSize / block) (s.globalSize / block)) .scaleShape
    loadedScale
  -- the down columns alone define ownership; gate and up keep whole blocks
  if s.logicalSize ≠ s.physicalSize ∧ downProjection then
    return (zeroOutside s.localLogicalStart s.localLogicalStop weight, scale)
  else return (weight, scale)

/-! ## Experts -/

/-- The tensors of an expert. -/
structure ExpertTensors (R : Type) where
  gate : Tensor R
  gateScale : Tensor R
  up : Tensor R
  upScale : Tensor R
  down : Tensor R
  downScale : Tensor R

/-- An expert of a checkpoint: its tensors have the global shapes. -/
structure Fp8Expert (R : Type) (s : Fp8ExpertTpShard) (hiddenSize : Nat) extends ExpertTensors R where
  gate_shape : (gate.rows, gate.cols) = projectionShape false hiddenSize s.globalSize
  gateScale_shape : (gateScale.rows, gateScale.cols) =
    projectionShape false (hiddenSize / s.blockSize) (s.globalSize / s.blockSize)
  up_shape : (up.rows, up.cols) = projectionShape false hiddenSize s.globalSize
  upScale_shape : (upScale.rows, upScale.cols) =
    projectionShape false (hiddenSize / s.blockSize) (s.globalSize / s.blockSize)
  down_shape : (down.rows, down.cols) = projectionShape true hiddenSize s.globalSize
  downScale_shape : (downScale.rows, downScale.cols) =
    projectionShape true (hiddenSize / s.blockSize) (s.globalSize / s.blockSize)

/-- All projections of an expert, prepared for a rank. -/
def prepareExpert [Zero R] (s : Fp8ExpertTpShard) (hiddenSize : Nat) (e : ExpertTensors R) :
    Except Fp8TpError (ExpertTensors R) := do
  let (gate, gateScale) ← s.prepareProjection e.gate e.gateScale hiddenSize false
  let (up, upScale) ← s.prepareProjection e.up e.upScale hiddenSize false
  let (down, downScale) ← s.prepareProjection e.down e.downScale hiddenSize true
  return { gate, gateScale, up, upScale, down, downScale }

/-- A tensor of a checkpoint, cut to what a rank keeps. -/
def readTensor (s : Fp8ExpertTpShard) (hiddenSize : Nat) (downProjection isScale : Bool)
    (t : Tensor R) : Except Fp8TpError (Tensor R) := do
  let slices ← s.checkpointSlice (t.rows, t.cols) hiddenSize downProjection isScale
  return cut slices t

/-- All tensors of an expert, cut while they are read. -/
def readExpert (s : Fp8ExpertTpShard) (hiddenSize : Nat) (e : ExpertTensors R) :
    Except Fp8TpError (ExpertTensors R) := do
  let gate ← readTensor s hiddenSize false false e.gate
  let gateScale ← readTensor s hiddenSize false true e.gateScale
  let up ← readTensor s hiddenSize false false e.up
  let upScale ← readTensor s hiddenSize false true e.upScale
  let down ← readTensor s hiddenSize true false e.down
  let downScale ← readTensor s hiddenSize true true e.downScale
  return { gate, gateScale, up, upScale, down, downScale }

/-- A weight times the scale of its block. -/
def dequantise [Mul R] (block : Nat) (weight scale : Tensor R) (i j : Nat) : R :=
  weight.entry i j * scale.entry (i / block) (j / block)

/-- A row of a dequantised projection times the input. -/
def project [NonUnitalNonAssocSemiring R] (block : Nat) (weight scale : Tensor R) (x : Nat → R)
    (i : Nat) : R :=
  ∑ k ∈ Finset.range weight.cols, dequantise block weight scale i k * x k

/-- The output of an expert at a hidden index: the down projection of the gated activation. -/
def ExpertTensors.output [NonUnitalNonAssocSemiring R] (block : Nat) (act : R → R → R) (x : Nat → R)
    (e : ExpertTensors R) (h : Nat) : R :=
  ∑ i ∈ Finset.range e.down.cols, dequantise block e.down e.downScale h i *
    act (project block e.gate e.gateScale x i) (project block e.up e.upScale x i)

/-! ## Bounds -/

namespace Fp8ExpertTpShard

variable (s : Fp8ExpertTpShard)

theorem logicalSize_mul : s.tpSize * s.logicalSize = s.globalSize := Nat.mul_div_cancel' s.tp_dvd

theorem logicalStop_le : s.logicalStop ≤ s.globalSize := by
  have hnext : s.logicalStop = (s.tpRank + 1) * s.logicalSize := (Nat.succ_mul _ _).symm
  rw [hnext, ← s.logicalSize_mul]
  exact Nat.mul_le_mul_right _ s.rank_lt

theorem alignedStart_le : s.alignedStart ≤ s.logicalStart := Nat.div_mul_le_self _ _

theorem block_dvd_alignedStart : s.blockSize ∣ s.alignedStart := Nat.dvd_mul_left _ _

theorem le_alignedStop : s.logicalStop ≤ s.alignedStop := by
  have hpos := s.block_pos
  have hlt : s.logicalStop + s.blockSize - 1 < _ := Nat.lt_div_mul_add hpos
  unfold alignedStop
  omega

theorem alignedStop_le : s.alignedStop ≤ s.globalSize := by
  obtain ⟨blocks, hblocks⟩ := s.block_dvd
  have hstop := s.logicalStop_le
  have hpos := s.block_pos
  unfold alignedStop
  have hdiv : (s.logicalStop + s.blockSize - 1) / s.blockSize ≤ blocks := by
    rw [Nat.div_le_iff_le_mul_add_pred hpos, ← hblocks]
    omega
  calc (s.logicalStop + s.blockSize - 1) / s.blockSize * s.blockSize
      ≤ blocks * s.blockSize := Nat.mul_le_mul_right _ hdiv
    _ = s.globalSize := by rw [hblocks, Nat.mul_comm]

theorem alignedStart_le_alignedStop : s.alignedStart ≤ s.alignedStop :=
  s.alignedStart_le.trans ((Nat.le_add_right _ _).trans s.le_alignedStop)

/-- The blocks a rank keeps. -/
theorem physicalSize_div :
    s.physicalSize / s.blockSize = s.alignedStop / s.blockSize - s.alignedStart / s.blockSize := by
  unfold physicalSize alignedStop alignedStart
  rw [← Nat.sub_mul, Nat.mul_div_cancel _ s.block_pos, Nat.mul_div_cancel _ s.block_pos,
    Nat.mul_div_cancel _ s.block_pos]

/-- **The logical ranges partition the intermediate size.** -/
theorem logical_partition {i : Nat} (hi : i < s.globalSize) :
    ∃! r : Fin s.tpSize, (s.atRank r).logicalStart ≤ i ∧ i < (s.atRank r).logicalStop := by
  have hpos : 0 < s.logicalSize := by
    have hglobal := s.global_pos
    rw [← s.logicalSize_mul] at hglobal
    exact Nat.pos_of_mul_pos_left hglobal
  have hrank : i / s.logicalSize < s.tpSize := by
    rw [Nat.div_lt_iff_lt_mul hpos, s.logicalSize_mul]
    exact hi
  refine ⟨⟨i / s.logicalSize, hrank⟩, ⟨?_, ?_⟩, fun r hr => Fin.ext ?_⟩
  · exact Nat.div_mul_le_self i s.logicalSize
  · exact Nat.lt_div_mul_add hpos
  · exact (Nat.div_eq_of_lt_le hr.1 (hr.2.trans_eq (Nat.succ_mul _ _).symm)).symm

end Fp8ExpertTpShard

/-- A sum over ranges of one length, side by side. -/
theorem sum_range_ranges [AddCommMonoid R] (n length : Nat) (f : Nat → R) :
    ∑ r : Fin n, ∑ m ∈ Finset.range length, f (r * length + m) =
      ∑ i ∈ Finset.range (n * length), f i := by
  induction n with
  | zero => simp
  | succ n ih =>
    rw [Fin.sum_univ_castSucc, Nat.succ_mul, Finset.sum_range_add]
    simp only [Fin.val_castSucc, Fin.val_last]
    rw [ih]

/-! ## Preparing what was read -/

section Prepare

variable {down : Bool} {across size start stop : Nat} {t : Tensor R}
  {error : Nat × Nat → Nat × Nat → Nat × Nat → Fp8TpError}

theorem shape_slice (h : (t.rows, t.cols) = projectionShape down across size) (start length : Nat) :
    ((t.slice (axis down) start length).rows, (t.slice (axis down) start length).cols) =
      projectionShape down across length := by
  cases down with
  | true => exact Prod.ext (Prod.ext_iff.mp h).1 rfl
  | false => exact Prod.ext rfl (Prod.ext_iff.mp h).2

theorem localPart_global {localShape globalShape : Nat × Nat}
    (h : (t.rows, t.cols) = globalShape) :
    localPart (axis down) start stop localShape globalShape error t =
      .ok (t.slice (axis down) start (stop - start)) := if_pos h

/-- A tensor that was cut before is taken as it is, also when the cut is all of it. -/
theorem localPart_cut (h : (t.rows, t.cols) = projectionShape down across size)
    (hstart : start ≤ stop) (hstop : stop ≤ size) :
    localPart (axis down) start stop (projectionShape down across (stop - start))
        (projectionShape down across size) error (t.slice (axis down) start (stop - start)) =
      .ok (t.slice (axis down) start (stop - start)) := by
  have hshape := shape_slice h start (stop - start)
  by_cases hall : stop - start = size
  · have hzero : start = 0 := by omega
    rw [hall] at hshape ⊢
    rw [localPart_global hshape, hall, hzero]
    have hself := Tensor.slice_self (axis down) (t.slice (axis down) 0 size)
    rw [Tensor.slice_size] at hself
    rw [hself]
  · have hne : projectionShape down across (stop - start) ≠ projectionShape down across size := by
      intro heq
      cases down with
      | true => exact hall (Prod.ext_iff.mp heq).2
      | false => exact hall (Prod.ext_iff.mp heq).1
    unfold localPart
    rw [hshape, if_neg hne, if_neg (not_not.mpr rfl)]

/-- The part of a projection a rank keeps. -/
def keptWeight (s : Fp8ExpertTpShard) (down : Bool) (weight : Tensor R) : Tensor R :=
  weight.slice (axis down) s.alignedStart s.physicalSize

def keptScale (s : Fp8ExpertTpShard) (down : Bool) (scale : Tensor R) : Tensor R :=
  scale.slice (axis down) (s.alignedStart / s.blockSize)
    (s.alignedStop / s.blockSize - s.alignedStart / s.blockSize)

variable (s : Fp8ExpertTpShard) {hiddenSize : Nat} {weight scale : Tensor R}

theorem readTensor_weight
    (h : (weight.rows, weight.cols) = projectionShape down hiddenSize s.globalSize) :
    readTensor s hiddenSize down false weight =
      .ok (if s.tpSize = 1 then weight else keptWeight s down weight) := by
  unfold readTensor Fp8ExpertTpShard.checkpointSlice
  by_cases hone : s.tpSize = 1
  · rw [if_pos hone, if_pos hone]
    rfl
  · rw [if_neg hone, if_neg hone]
    dsimp only
    rw [if_neg (by simpa using h)]
    rfl

theorem readTensor_scale
    (h : (scale.rows, scale.cols) =
      projectionShape down (hiddenSize / s.blockSize) (s.globalSize / s.blockSize)) :
    readTensor s hiddenSize down true scale =
      .ok (if s.tpSize = 1 then scale else keptScale s down scale) := by
  unfold readTensor Fp8ExpertTpShard.checkpointSlice
  by_cases hone : s.tpSize = 1
  · rw [if_pos hone, if_pos hone]
    rfl
  · rw [if_neg hone, if_neg hone]
    dsimp only
    rw [if_neg (by simpa using h)]
    rfl

variable [NonUnitalNonAssocSemiring R]

/-- The columns of the other ranks are zero. -/
def owned (s : Fp8ExpertTpShard) (down : Bool) (weight : Tensor R) : Tensor R :=
  if s.logicalSize ≠ s.physicalSize ∧ down then
    zeroOutside s.localLogicalStart s.localLogicalStop weight
  else weight

theorem prepareProjection_of_parts {weight' scale' : Tensor R}
    (hweight : localPart (axis down) s.alignedStart s.alignedStop
      (projectionShape down hiddenSize s.physicalSize)
      (projectionShape down hiddenSize s.globalSize) .weightShape weight = .ok weight')
    (hscale : localPart (axis down) (s.alignedStart / s.blockSize) (s.alignedStop / s.blockSize)
      (projectionShape down (hiddenSize / s.blockSize) (s.physicalSize / s.blockSize))
      (projectionShape down (hiddenSize / s.blockSize) (s.globalSize / s.blockSize)) .scaleShape
      scale = .ok scale') :
    s.prepareProjection weight scale hiddenSize down = .ok (owned s down weight', scale') := by
  unfold Fp8ExpertTpShard.prepareProjection owned
  simp only [hweight, hscale]
  show (if _ then _ else _ : Except Fp8TpError (Tensor R × Tensor R)) = _
  split <;> rfl

/-- **What a rank keeps of a projection.** -/
theorem prepareProjection_global
    (hweight : (weight.rows, weight.cols) = projectionShape down hiddenSize s.globalSize)
    (hscale : (scale.rows, scale.cols) =
      projectionShape down (hiddenSize / s.blockSize) (s.globalSize / s.blockSize)) :
    s.prepareProjection weight scale hiddenSize down =
      .ok (owned s down (keptWeight s down weight), keptScale s down scale) :=
  prepareProjection_of_parts s (localPart_global hweight) (localPart_global hscale)

/-- **A projection that was cut while reading is prepared as the whole one.** -/
theorem prepareProjection_kept
    (hweight : (weight.rows, weight.cols) = projectionShape down hiddenSize s.globalSize)
    (hscale : (scale.rows, scale.cols) =
      projectionShape down (hiddenSize / s.blockSize) (s.globalSize / s.blockSize)) :
    s.prepareProjection (keptWeight s down weight) (keptScale s down scale) hiddenSize down =
      .ok (owned s down (keptWeight s down weight), keptScale s down scale) := by
  have hstop : s.alignedStop / s.blockSize ≤ s.globalSize / s.blockSize :=
    Nat.div_le_div_right s.alignedStop_le
  have hstart : s.alignedStart / s.blockSize ≤ s.alignedStop / s.blockSize :=
    Nat.div_le_div_right s.alignedStart_le_alignedStop
  refine prepareProjection_of_parts s ?_ ?_
  · exact localPart_cut hweight s.alignedStart_le_alignedStop s.alignedStop_le
  · rw [s.physicalSize_div]
    exact localPart_cut hscale hstart hstop

end Prepare

/-! ## Experts -/

section Experts

variable [NonUnitalNonAssocSemiring R] {s : Fp8ExpertTpShard} {hiddenSize : Nat}

/-- An expert as a rank keeps it. -/
def keptExpert (s : Fp8ExpertTpShard) (e : ExpertTensors R) : ExpertTensors R where
  gate := keptWeight s false e.gate
  gateScale := keptScale s false e.gateScale
  up := keptWeight s false e.up
  upScale := keptScale s false e.upScale
  down := keptWeight s true e.down
  downScale := keptScale s true e.downScale

/-- An expert as it is prepared for a rank. -/
def preparedExpert (s : Fp8ExpertTpShard) (e : ExpertTensors R) : ExpertTensors R :=
  { keptExpert s e with down := owned s true (keptWeight s true e.down) }

theorem owned_rows (s : Fp8ExpertTpShard) (weight : Tensor R) : owned s false weight = weight :=
  if_neg fun h => Bool.false_ne_true h.2

theorem prepareExpert_eq (e : Fp8Expert R s hiddenSize) (r : Fin s.tpSize) :
    prepareExpert (s.atRank r) hiddenSize e.toExpertTensors =
      .ok (preparedExpert (s.atRank r) e.toExpertTensors) := by
  have hgate : (s.atRank r).prepareProjection e.gate e.gateScale hiddenSize false = _ :=
    prepareProjection_global _ e.gate_shape e.gateScale_shape
  have hup : (s.atRank r).prepareProjection e.up e.upScale hiddenSize false = _ :=
    prepareProjection_global _ e.up_shape e.upScale_shape
  have hdown : (s.atRank r).prepareProjection e.down e.downScale hiddenSize true = _ :=
    prepareProjection_global _ e.down_shape e.downScale_shape
  unfold prepareExpert
  rw [hgate, hup, hdown, owned_rows, owned_rows]
  rfl

/-- **Cutting an expert while reading it changes nothing.** -/
theorem prepareExpert_read (e : Fp8Expert R s hiddenSize) (r : Fin s.tpSize) :
    ∃ cutExpert, readExpert (s.atRank r) hiddenSize e.toExpertTensors = .ok cutExpert ∧
      prepareExpert (s.atRank r) hiddenSize cutExpert =
        prepareExpert (s.atRank r) hiddenSize e.toExpertTensors := by
  have hread : readExpert (s.atRank r) hiddenSize e.toExpertTensors =
      .ok (if s.tpSize = 1 then e.toExpertTensors
        else keptExpert (s.atRank r) e.toExpertTensors) := by
    have hgate : readTensor (s.atRank r) hiddenSize false false e.gate = _ :=
      readTensor_weight _ e.gate_shape
    have hgateScale : readTensor (s.atRank r) hiddenSize false true e.gateScale = _ :=
      readTensor_scale _ e.gateScale_shape
    have hup : readTensor (s.atRank r) hiddenSize false false e.up = _ :=
      readTensor_weight _ e.up_shape
    have hupScale : readTensor (s.atRank r) hiddenSize false true e.upScale = _ :=
      readTensor_scale _ e.upScale_shape
    have hdown : readTensor (s.atRank r) hiddenSize true false e.down = _ :=
      readTensor_weight _ e.down_shape
    have hdownScale : readTensor (s.atRank r) hiddenSize true true e.downScale = _ :=
      readTensor_scale _ e.downScale_shape
    have hsize : (s.atRank r).tpSize = s.tpSize := rfl
    unfold readExpert
    rw [hgate, hgateScale, hup, hupScale, hdown, hdownScale, hsize]
    by_cases hone : s.tpSize = 1
    · simp only [if_pos hone]
      rfl
    · simp only [if_neg hone]
      rfl
  refine ⟨_, hread, ?_⟩
  by_cases hone : s.tpSize = 1
  · rw [if_pos hone]
  · rw [if_neg hone, prepareExpert_eq]
    have hgate : (s.atRank r).prepareProjection (keptWeight (s.atRank r) false e.gate)
        (keptScale (s.atRank r) false e.gateScale) hiddenSize false = _ :=
      prepareProjection_kept _ e.gate_shape e.gateScale_shape
    have hup : (s.atRank r).prepareProjection (keptWeight (s.atRank r) false e.up)
        (keptScale (s.atRank r) false e.upScale) hiddenSize false = _ :=
      prepareProjection_kept _ e.up_shape e.upScale_shape
    have hdown : (s.atRank r).prepareProjection (keptWeight (s.atRank r) true e.down)
        (keptScale (s.atRank r) true e.downScale) hiddenSize true = _ :=
      prepareProjection_kept _ e.down_shape e.downScale_shape
    unfold prepareExpert keptExpert
    rw [hgate, hup, hdown, owned_rows, owned_rows]
    rfl

/-! ## The sum over the ranks -/

variable (act : R → R → R) (x : Nat → R)

/-- What an intermediate index adds to the output. -/
def contribution (block : Nat) (act : R → R → R) (x : Nat → R) (e : ExpertTensors R) (h i : Nat) : R :=
  dequantise block e.down e.downScale h i *
    act (project block e.gate e.gateScale x i) (project block e.up e.upScale x i)

/-- A local block is the block of the checkpoint it was cut from. -/
theorem alignedStart_div (s : Fp8ExpertTpShard) (j : Nat) :
    s.alignedStart / s.blockSize + j / s.blockSize = (s.alignedStart + j) / s.blockSize := by
  obtain ⟨blocks, hblocks⟩ := s.block_dvd_alignedStart
  rw [hblocks, Nat.mul_add_div s.block_pos, Nat.mul_div_cancel_left _ s.block_pos]

theorem project_kept (s : Fp8ExpertTpShard) (weight scale : Tensor R) (j : Nat) :
    project s.blockSize (keptWeight s false weight) (keptScale s false scale) x j =
      project s.blockSize weight scale x (s.alignedStart + j) := by
  unfold project
  refine Finset.sum_congr rfl fun k _ => ?_
  show weight.entry (s.alignedStart + j) k *
    scale.entry (s.alignedStart / s.blockSize + j / s.blockSize) (k / s.blockSize) * x k = _
  rw [alignedStart_div]
  rfl

/-- A column of the prepared down projection is that of the checkpoint if the rank owns it. -/
theorem entry_owned (s : Fp8ExpertTpShard) (weight : Tensor R) (h : Nat) {j : Nat}
    (hj : j < s.physicalSize) : (owned s true (keptWeight s true weight)).entry h j =
      if s.localLogicalStart ≤ j ∧ j < s.localLogicalStop then
        weight.entry h (s.alignedStart + j) else 0 := by
  have hbefore := s.alignedStart_le
  have hafter := s.le_alignedStop
  have hstop : s.logicalStop = s.logicalStart + s.logicalSize := rfl
  unfold owned
  by_cases hpartials : s.logicalSize ≠ s.physicalSize
  · rw [if_pos ⟨hpartials, rfl⟩]
    show (if j < s.localLogicalStart ∨ s.localLogicalStop ≤ j then 0
      else weight.entry h (s.alignedStart + j)) = _
    by_cases howned : s.localLogicalStart ≤ j ∧ j < s.localLogicalStop
    · rw [if_neg (by omega), if_pos howned]
    · rw [if_pos (by omega), if_neg howned]
  · -- the logical range is aligned, and the rank owns all it keeps
    have hall : s.localLogicalStart ≤ j ∧ j < s.localLogicalStop := by
      unfold localLogicalStop localLogicalStart
      unfold physicalSize at hpartials hj
      omega
    rw [if_neg (fun hzero => hpartials hzero.1), if_pos hall]
    rfl

theorem owned_cols (s : Fp8ExpertTpShard) (weight : Tensor R) :
    (owned s true (keptWeight s true weight)).cols = s.physicalSize := by
  unfold owned
  split <;> rfl

theorem contribution_prepared (s : Fp8ExpertTpShard) (e : ExpertTensors R) (h : Nat) {j : Nat}
    (hj : j < s.physicalSize) : contribution s.blockSize act x (preparedExpert s e) h j =
      if s.localLogicalStart ≤ j ∧ j < s.localLogicalStop then
        contribution s.blockSize act x e h (s.alignedStart + j) else 0 := by
  have hscale : (keptScale s true e.downScale).entry (h / s.blockSize) (j / s.blockSize) =
      e.downScale.entry (h / s.blockSize) ((s.alignedStart + j) / s.blockSize) := by
    rw [← alignedStart_div]
    rfl
  have hdown : dequantise s.blockSize (preparedExpert s e).down (preparedExpert s e).downScale h j =
      if s.localLogicalStart ≤ j ∧ j < s.localLogicalStop then
        dequantise s.blockSize e.down e.downScale h (s.alignedStart + j) else 0 := by
    show (owned s true (keptWeight s true e.down)).entry h j *
      (keptScale s true e.downScale).entry (h / s.blockSize) (j / s.blockSize) = _
    rw [entry_owned s e.down h hj, hscale]
    split
    · rfl
    · exact zero_mul _
  have hgate : project s.blockSize (preparedExpert s e).gate (preparedExpert s e).gateScale x j = _ :=
    project_kept x s e.gate e.gateScale j
  have hup : project s.blockSize (preparedExpert s e).up (preparedExpert s e).upScale x j = _ :=
    project_kept x s e.up e.upScale j
  unfold contribution
  rw [hdown, hgate, hup]
  split
  · rfl
  · exact zero_mul _

/-- **A rank's output is what its logical range adds.** -/
theorem output_prepared (s : Fp8ExpertTpShard) (e : ExpertTensors R) (h : Nat) :
    (preparedExpert s e).output s.blockSize act x h =
      ∑ m ∈ Finset.range s.logicalSize, contribution s.blockSize act x e h (s.logicalStart + m) := by
  have hbefore := s.alignedStart_le
  have hafter := s.le_alignedStop
  have hstop : s.logicalStop = s.logicalStart + s.logicalSize := rfl
  have howned : (Finset.range s.physicalSize).filter
      (fun j => s.localLogicalStart ≤ j ∧ j < s.localLogicalStop) =
      Finset.Ico s.localLogicalStart s.localLogicalStop := by
    ext j
    rw [Finset.mem_filter, Finset.mem_range, Finset.mem_Ico]
    unfold localLogicalStop localLogicalStart physicalSize
    omega
  calc (preparedExpert s e).output s.blockSize act x h
      = ∑ j ∈ Finset.range s.physicalSize,
          contribution s.blockSize act x (preparedExpert s e) h j := by
        have hcols : (preparedExpert s e).down.cols = s.physicalSize := owned_cols s e.down
        unfold ExpertTensors.output
        rw [hcols]
        rfl
    _ = ∑ j ∈ Finset.range s.physicalSize,
          if s.localLogicalStart ≤ j ∧ j < s.localLogicalStop then
            contribution s.blockSize act x e h (s.alignedStart + j) else 0 :=
        Finset.sum_congr rfl fun j hj =>
          contribution_prepared act x s e h (Finset.mem_range.mp hj)
    _ = ∑ j ∈ Finset.Ico s.localLogicalStart s.localLogicalStop,
          contribution s.blockSize act x e h (s.alignedStart + j) := by
        rw [← Finset.sum_filter, howned]
    _ = ∑ m ∈ Finset.range s.logicalSize,
          contribution s.blockSize act x e h (s.logicalStart + m) := by
        rw [Finset.sum_Ico_eq_sum_range]
        refine Finset.sum_congr ?_ fun m _ => ?_
        · unfold localLogicalStop
          rw [Nat.add_sub_cancel_left]
        · unfold localLogicalStart
          congr 1
          omega

/-- What the ranks make of an expert: their logical ranges partition the intermediate size, cutting
the tensors while reading changes nothing, and the outputs add up to that of the whole expert. -/
structure AddsUp (s : Fp8ExpertTpShard) (hiddenSize : Nat) (e : ExpertTensors R) : Prop where
  within : ∀ r, (s.atRank r).logicalStop ≤ s.globalSize
  partition : ∀ i < s.globalSize, ∃! r : Fin s.tpSize,
    (s.atRank r).logicalStart ≤ i ∧ i < (s.atRank r).logicalStop
  read : ∀ r, ∃ cutExpert, readExpert (s.atRank r) hiddenSize e = .ok cutExpert ∧
    prepareExpert (s.atRank r) hiddenSize cutExpert = prepareExpert (s.atRank r) hiddenSize e
  sum : ∃ prepared : Fin s.tpSize → ExpertTensors R,
    (∀ r, prepareExpert (s.atRank r) hiddenSize e = .ok (prepared r)) ∧
    ∀ act x h, ∑ r, (prepared r).output s.blockSize act x h = e.output s.blockSize act x h

/-- **The shards of an FP8 expert add up to the expert.** -/
theorem shards_add_up (s : Fp8ExpertTpShard) (hiddenSize : Nat) (e : Fp8Expert R s hiddenSize) :
    AddsUp s hiddenSize e.toExpertTensors := by
  refine ⟨fun r => (s.atRank r).logicalStop_le, fun i hi => s.logical_partition hi,
    prepareExpert_read e, _, prepareExpert_eq e, fun act x h => ?_⟩
  have hcols : e.down.cols = s.tpSize * s.logicalSize := by
    rw [s.logicalSize_mul]
    exact (Prod.ext_iff.mp e.down_shape).2
  calc ∑ r, (preparedExpert (s.atRank r) e.toExpertTensors).output s.blockSize act x h
      = ∑ r : Fin s.tpSize, ∑ m ∈ Finset.range s.logicalSize,
          contribution s.blockSize act x e.toExpertTensors h (r * s.logicalSize + m) :=
        Finset.sum_congr rfl fun r _ => output_prepared act x (s.atRank r) e.toExpertTensors h
    _ = ∑ i ∈ Finset.range (s.tpSize * s.logicalSize),
          contribution s.blockSize act x e.toExpertTensors h i := sum_range_ranges _ _ _
    _ = e.output s.blockSize act x h := by
        rw [← hcols]
        rfl

end Experts

/-- Six columns in blocks of two, for two ranks. -/
def middleShard : Fp8ExpertTpShard :=
  (Fp8ExpertTpShard.postInit 6 0 2 2).toOption.get rfl

def middleExpert : Fp8Expert Int middleShard 2 where
  gate := ⟨6, 2, fun i j => i + j⟩
  gateScale := ⟨3, 1, fun i _ => i + 1⟩
  up := ⟨6, 2, fun i j => i - j⟩
  upScale := ⟨3, 1, fun i _ => i + 2⟩
  down := ⟨2, 6, fun i j => 2 * i + j⟩
  downScale := ⟨1, 3, fun _ j => j + 1⟩
  gate_shape := rfl
  gateScale_shape := rfl
  up_shape := rfl
  upScale_shape := rfl
  down_shape := rfl
  downScale_shape := rfl

/-- Both ranks keep the middle block. -/
theorem shards_add_up_middle :
    Fp8ExpertTpShard.postInit 6 0 2 2 = .ok middleShard ∧
    (middleShard.atRank ⟨1, by decide⟩).alignedStart <
      (middleShard.atRank ⟨0, by decide⟩).alignedStop ∧
    AddsUp middleShard 2 middleExpert.toExpertTensors :=
  ⟨rfl, by decide, shards_add_up middleShard 2 middleExpert⟩

end SparseVllm.Fp8Tp
