import Mathlib.Algebra.GroupWithZero.Defs
import SparseVllm.Layers.Packed

/-!
# Loads of a layer that holds one range

`ColumnParallelLinear` and `RowParallelLinear` cut one source along their axis. Of a quantised source
they cut the weight by its size and the scale by its number of blocks, and neither checks that the
range of the rank starts at a block. A scale of the right size may then be the wrong one
(`loadsShares_scaleFits`).
-/

namespace SparseVllm

open SparseVllm.Lib

variable {R : Type}

/-! ## Blocks -/

theorem ceilDiv_eq_of_group {n size tp : Nat} (pos : 0 < n) (two : 2 ≤ tp) (split : size = tp * n) :
    ceilDiv size 128 = ceilDiv n 128 ↔ size ≤ 128 := by
  have hdouble : 2 * n ≤ size := split ▸ Nat.mul_le_mul_right n two
  rw [ceilDiv_blocks, ceilDiv_blocks]
  omega

theorem ceilDiv_le_group {n size tp : Nat} (split : size = tp * n) :
    ceilDiv size 128 ≤ tp * ceilDiv n 128 := by
  have hcover : n ≤ 128 * ceilDiv n 128 := by
    rw [ceilDiv_blocks]
    omega
  have hgroup : size ≤ 128 * (tp * ceilDiv n 128) := by
    rw [split, Nat.mul_left_comm]
    exact Nat.mul_le_mul_left tp hcover
  rw [ceilDiv_blocks size]
  omega

/-- A range that does not start at a block: the block of its first entry is not the first of the
blocks cut out for it. -/
theorem block_ne_of_unaligned {n rank : Nat} (later : rank ≠ 0) (unaligned : ¬ 128 ∣ n) :
    rank * n / 128 ≠ rank * ceilDiv n 128 := by
  have hless : n < 128 * ceilDiv n 128 := by
    rw [ceilDiv_blocks]
    omega
  have hrange : rank * n < 128 * (rank * ceilDiv n 128) := by
    rw [Nat.mul_left_comm]
    exact Nat.mul_lt_mul_of_pos_left hless (Nat.pos_of_ne_zero later)
  exact Nat.ne_of_lt (Nat.div_lt_of_lt_mul hrange)

/-! ## One range -/

/-- A layer that holds one range, of `n`, of the split axis. -/
structure RangeLayer (R : Type) (spec : LinearSpec) (l : Linear) (n : Nat) : Prop where
  axis : spec.axis = l.tpDim
  shards : spec.shards = [.none]
  size : spec.sourceSize .none = l.context.tpSize * n
  count : spec.shareCount l.context.tpSize .none = l.context.tpSize
  positive : l.quantized = true → 0 < n ∧ 0 < spec.across
  localShape : (l.tpDim = .row ∧ l.outputSize = n ∧ l.inputSize = spec.across) ∨
    (l.tpDim = .col ∧ l.inputSize = n ∧ l.outputSize = spec.across)
  weightLoader : ∀ (loaded : Tensor R) p,
    l.weightLoader loaded .none p = parallelWeightLoader l.context l.tpDim loaded p
  loadQuantizedWeight : ∀ (loaded scale : Tensor R) p, l.loadQuantizedWeight loaded scale .none p =
    parallelLoadQuantized l.context l.tpDim loaded scale p
  slice : ∀ isScale k, l.rankLocalWeightSlice .none isScale k =
    if l.context.tpSize = 1 then .ok none
    else do
      let shardSize ← divide k l.context.tpSize
      .ok (some (l.context.tpRank * shardSize, shardSize))

/-- The range of the rank, of an axis with `k` for each rank. -/
def ParallelContext.range (context : ParallelContext) (axis : Axis) (k : Nat) (t : Tensor R) :
    Tensor R :=
  t.slice axis (context.tpRank * k) k

theorem ParallelContext.tpSize_pos (context : ParallelContext) : 0 < context.tpSize :=
  Nat.zero_lt_of_lt context.rank_lt

theorem ParallelContext.range_self {context : ParallelContext} {axis : Axis} {k : Nat}
    {t : Tensor R} (split : t.size axis = context.tpSize * k) (only : t.size axis = k) :
    context.range axis k t = t := Tensor.slice_only split only context.rank_lt

section Take

variable {context : ParallelContext} {axis : Axis} {k : Nat} {t : Tensor R}

theorem narrow_range (split : t.size axis = context.tpSize * k) :
    tensorOp (t.narrow axis (context.tpRank * k) k) = .ok (context.range axis k t) := by
  have hstop : (context.tpRank + 1) * k ≤ context.tpSize * k :=
    Nat.mul_le_mul_right k context.rank_lt
  rw [Nat.add_mul, Nat.one_mul, ← split] at hstop
  rw [Tensor.narrow_ok hstop]
  rfl

theorem takeRange_whole (split : t.size axis = context.tpSize * k) :
    takeRange context axis k t = .ok (context.range axis k t) := by
  unfold takeRange
  by_cases honly : t.size axis = k
  · rw [if_pos honly, ParallelContext.range_self split honly]
  · rw [if_neg honly]
    exact narrow_range split

theorem takeRange_range (context : ParallelContext) (axis : Axis) (k : Nat) (t : Tensor R) :
    takeRange context axis k (context.range axis k t) = .ok (context.range axis k t) :=
  if_pos (t.slice_size axis _ k)

theorem narrowScale_range (split : t.size axis = context.tpSize * k) :
    narrowScale context axis t = .ok (context.range axis k t) := by
  have hshard : requireScaleShardable (t.size axis) context.tpSize = .ok k := by
    unfold requireScaleShardable
    rw [split, if_pos (Nat.mul_mod_right _ _), Nat.mul_div_cancel_left k context.tpSize_pos]
  unfold narrowScale
  rw [hshard]
  exact narrow_range split

/-- What `narrowScale` returns is one of as many parts. -/
theorem narrowScale_size {part : Tensor R} (h : narrowScale context axis t = .ok part) :
    t.size axis = context.tpSize * part.size axis := by
  unfold narrowScale requireScaleShardable at h
  by_cases hsplit : t.size axis % context.tpSize = 0
  · rw [if_pos hsplit] at h
    simp only [bind, Except.bind] at h
    rw [tensorOp_eq_ok] at h
    unfold Tensor.narrow at h
    split at h
    · obtain rfl := Except.ok.inj h
      rw [Tensor.slice_size]
      exact (Nat.mul_div_cancel' (Nat.dvd_of_mod_eq_zero hsplit)).symm
    · cases h
  · rw [if_neg hsplit] at h
    cases h

end Take

namespace RangeLayer

variable {spec : LinearSpec} {l : Linear} {n : Nat} (h : RangeLayer R spec l n)

include h

theorem param_weight {p : LinearParams R} (hp : l.Shaped p) :
    p.weight.size l.tpDim = n ∧ p.weight.across l.tpDim = spec.across := by
  rcases h.localShape with ⟨haxis, hsize, hacross⟩ | ⟨haxis, hsize, hacross⟩
  · rw [haxis]
    exact ⟨hp.weight.1.trans hsize, hp.weight.2.trans hacross⟩
  · rw [haxis]
    exact ⟨hp.weight.2.trans hsize, hp.weight.1.trans hacross⟩

theorem param_scale {p : LinearParams R} (hp : l.Shaped p) (quantized : l.quantized = true) :
    p.scale.size l.tpDim = ceilDiv n 128 ∧ p.scale.across l.tpDim = ceilDiv spec.across 128 := by
  obtain ⟨hrows, hcols⟩ := Prod.mk.inj (hp.scale quantized)
  rcases h.localShape with ⟨haxis, rfl, hacross⟩ | ⟨haxis, rfl, hacross⟩
  · rw [haxis, ← hacross]
    exact ⟨hrows, hcols⟩
  · rw [haxis, ← hacross]
    exact ⟨hcols, hrows⟩

theorem member : ShardId.none ∈ spec.shards := by
  rw [h.shards]
  exact List.mem_cons_self

theorem readPiece_split (isScale : Bool) {t : Tensor R} {k : Nat}
    (split : t.size l.tpDim = l.context.tpSize * k) :
    l.readPiece .none isScale t = .ok (l.context.range l.tpDim k t) := by
  unfold Linear.readPiece
  rw [h.slice]
  by_cases hone : l.context.tpSize = 1
  · rw [if_pos hone]
    have honly : t.size l.tpDim = k := by rw [split, hone, Nat.one_mul]
    exact congrArg _ (ParallelContext.range_self split honly).symm
  · have hdivide : divide (t.size l.tpDim) l.context.tpSize = .ok k := by
      unfold divide
      rw [split, if_pos (Nat.mul_mod_right _ _), Nat.mul_div_cancel_left k l.context.tpSize_pos]
    rw [if_neg hone, hdivide]
    rfl

theorem readPiece_raises (isScale : Bool) {t : Tensor R}
    (uneven : ¬ l.context.tpSize ∣ t.size l.tpDim) :
    ∃ error, l.readPiece .none isScale t = .error error := by
  have hone : l.context.tpSize ≠ 1 := fun hone => uneven (hone ▸ one_dvd _)
  refine ⟨.notDivisible (t.size l.tpDim) l.context.tpSize, ?_⟩
  have hdivide : divide (t.size l.tpDim) l.context.tpSize =
      .error (.notDivisible (t.size l.tpDim) l.context.tpSize) :=
    if_neg fun hmod => uneven (Nat.dvd_of_mod_eq_zero hmod)
  unfold Linear.readPiece
  rw [h.slice, if_neg hone, hdivide]
  rfl

variable {sources : ShardId → Source R} (shaped : spec.WellShaped l.quantized sources)

include shaped

theorem source_weight : (sources .none).weight.size l.tpDim = l.context.tpSize * n ∧
    (sources .none).weight.across l.tpDim = spec.across := by
  obtain ⟨hsize, hacross⟩ := (shaped .none h.member).1
  rw [h.axis] at hsize hacross
  exact ⟨hsize.trans h.size, hacross⟩

theorem source_scale (quantized : l.quantized = true) :
    (sources .none).scale.size l.tpDim = ceilDiv (l.context.tpSize * n) 128 ∧
      (sources .none).scale.across l.tpDim = ceilDiv spec.across 128 := by
  obtain ⟨hsize, hacross⟩ := (shaped .none h.member).2 quantized
  rw [h.axis] at hsize hacross
  exact ⟨hsize.trans (congrArg (ceilDiv · 128) h.size), hacross⟩

/-- The range of the weight has the shape of the parameter. -/
theorem range_shape {p : LinearParams R} (hp : l.Shaped p) :
    (l.context.range l.tpDim n (sources .none).weight).rows = p.weight.rows ∧
      (l.context.range l.tpDim n (sources .none).weight).cols = p.weight.cols := by
  obtain ⟨hsize, hacross⟩ := h.param_weight hp
  refine Prod.mk.inj ((Tensor.shape_eq_iff l.tpDim).mpr ⟨?_, ?_⟩)
  · exact (Tensor.slice_size _ _ _ _).trans hsize.symm
  · exact (Tensor.slice_across _ _ _ _).trans ((h.source_weight shaped).2.trans hacross.symm)

/-- An unquantised source, whole or in pieces: the range is copied. -/
theorem loadShard_weight (plain : l.quantized = false) (sliced : Bool) {p : LinearParams R}
    (hp : l.Shaped p) : l.loadShard sliced sources p .none = (do
      let weight ← tensorOp ((l.context.range l.tpDim n (sources .none).weight).copyRows 0
        p.weight.rows p.weight)
      return { p with weight }) := by
  obtain ⟨hsplit, -⟩ := h.source_weight shaped
  have hlocal := (h.param_weight hp).1
  unfold Linear.loadShard Linear.read
  cases sliced with
  | false =>
    simp only [plain]
    show l.weightLoader (sources .none).weight .none p = _
    rw [h.weightLoader]
    unfold parallelWeightLoader
    rw [hlocal, takeRange_whole hsplit]
    rfl
  | true =>
    simp only [plain]
    rw [h.readPiece_split false hsplit]
    show l.weightLoader (l.context.range l.tpDim n (sources .none).weight) .none p = _
    rw [h.weightLoader]
    unfold parallelWeightLoader
    rw [hlocal, takeRange_range]
    rfl

/-- A quantised source whose scale has as many blocks as the range: all of them are copied. -/
theorem loadShard_wholeScale (quantized : l.quantized = true) {p : LinearParams R}
    (hp : l.Shaped p) (only : ceilDiv (l.context.tpSize * n) 128 = ceilDiv n 128) :
    l.loadShard false sources p .none = copyQuantizedWeightAndScale 0 p.weight.rows 0 p.scale.rows
      (l.context.range l.tpDim n (sources .none).weight) (sources .none).scale p := by
  obtain ⟨hsplit, -⟩ := h.source_weight shaped
  obtain ⟨hsize, hacross⟩ := h.source_scale shaped quantized
  obtain ⟨hsize', hacross'⟩ := h.param_scale hp quantized
  have hlocal := (h.param_weight hp).1
  have hshape : ((sources .none).scale.rows, (sources .none).scale.cols) =
      (p.scale.rows, p.scale.cols) :=
    (Tensor.shape_eq_iff l.tpDim).mpr
      ⟨hsize.trans (only.trans hsize'.symm), hacross.trans hacross'.symm⟩
  unfold Linear.loadShard Linear.read
  simp only [quantized]
  show l.loadQuantizedWeight (sources .none).weight (sources .none).scale .none p = _
  rw [h.loadQuantizedWeight]
  unfold parallelLoadQuantized takeScale
  rw [hlocal, takeRange_whole hsplit, if_pos hshape]
  rfl

/-- A quantised source whose blocks split as its entries do: a part of them is copied, the right one
or not. -/
theorem loadShard_splitScale (quantized : l.quantized = true) (sliced : Bool) {p : LinearParams R}
    (hp : l.Shaped p)
    (split : ceilDiv (l.context.tpSize * n) 128 = l.context.tpSize * ceilDiv n 128) :
    l.loadShard sliced sources p .none = copyQuantizedWeightAndScale 0 p.weight.rows 0 p.scale.rows
      (l.context.range l.tpDim n (sources .none).weight)
      (l.context.range l.tpDim (ceilDiv n 128) (sources .none).scale) p := by
  obtain ⟨hsplit, -⟩ := h.source_weight shaped
  obtain ⟨hsize, hacross⟩ := h.source_scale shaped quantized
  obtain ⟨hsize', hacross'⟩ := h.param_scale hp quantized
  have hlocal := (h.param_weight hp).1
  rw [split] at hsize
  unfold Linear.loadShard Linear.read
  cases sliced with
  | false =>
    simp only [quantized]
    show l.loadQuantizedWeight (sources .none).weight (sources .none).scale .none p = _
    have hscale : takeScale (narrowScale l.context l.tpDim) p.scale.rows p.scale.cols
        (sources .none).scale = .ok (l.context.range l.tpDim (ceilDiv n 128) (sources .none).scale)
        := by
      unfold takeScale
      by_cases hshape : ((sources .none).scale.rows, (sources .none).scale.cols) =
          (p.scale.rows, p.scale.cols)
      · have honly := ((Tensor.shape_eq_iff l.tpDim).mp hshape).1.trans hsize'
        rw [if_pos hshape, ParallelContext.range_self hsize honly]
      · rw [if_neg hshape]
        exact narrowScale_range hsize
    rw [h.loadQuantizedWeight]
    unfold parallelLoadQuantized
    rw [hlocal, takeRange_whole hsplit, hscale]
    rfl
  | true =>
    simp only [quantized]
    rw [h.readPiece_split false hsplit]
    simp only [if_true]
    rw [h.readPiece_split true hsize]
    show l.loadQuantizedWeight (l.context.range l.tpDim n (sources .none).weight)
      (l.context.range l.tpDim (ceilDiv n 128) (sources .none).scale) .none p = _
    have hshape : ((l.context.range l.tpDim (ceilDiv n 128) (sources .none).scale).rows,
        (l.context.range l.tpDim (ceilDiv n 128) (sources .none).scale).cols) =
        (p.scale.rows, p.scale.cols) := by
      refine (Tensor.shape_eq_iff l.tpDim).mpr ⟨?_, ?_⟩
      · exact (Tensor.slice_size _ _ _ _).trans hsize'.symm
      · exact (Tensor.slice_across _ _ _ _).trans (hacross.trans hacross'.symm)
    rw [h.loadQuantizedWeight]
    unfold parallelLoadQuantized takeScale
    rw [hlocal, takeRange_range, if_pos hshape]
    rfl

omit h shaped in
/-- A scale with another number of blocks than the range, or the whole, is refused. -/
theorem parallelLoadQuantized_raises {context : ParallelContext} {axis : Axis}
    {loaded scale : Tensor R} {p : LinearParams R}
    (notRange : scale.size axis ≠ p.scale.size axis)
    (notWhole : scale.size axis ≠ context.tpSize * p.scale.size axis) :
    ∃ error, parallelLoadQuantized context axis loaded scale p = .error error := by
  cases hrun : parallelLoadQuantized context axis loaded scale p with
  | error error => exact ⟨error, rfl⟩
  | ok p' =>
    exfalso
    unfold parallelLoadQuantized takeScale at hrun
    rw [if_neg fun hshape => notRange ((Tensor.shape_eq_iff axis).mp hshape).1] at hrun
    cases hloaded : takeRange context axis (p.weight.size axis) loaded with
    | error error => rw [hloaded] at hrun; cases hrun
    | ok loaded' =>
      cases hscale : narrowScale context axis scale with
      | error error => rw [hloaded, hscale] at hrun; cases hrun
      | ok part =>
        rw [hloaded, hscale] at hrun
        have hshape := copyQuantized_shape hrun
        exact notWhole (((Tensor.shape_eq_iff axis).mp hshape).1 ▸ narrowScale_size hscale)

/-- The whole scale is refused unless it has the blocks of the range, or as many for each rank. -/
theorem loadShard_whole_raises (quantized : l.quantized = true) {p : LinearParams R}
    (hp : l.Shaped p) (notRange : ceilDiv (l.context.tpSize * n) 128 ≠ ceilDiv n 128)
    (notSplit : ceilDiv (l.context.tpSize * n) 128 ≠ l.context.tpSize * ceilDiv n 128) :
    ∃ error, l.loadShard false sources p .none = .error error := by
  obtain ⟨hsize, -⟩ := h.source_scale shaped quantized
  obtain ⟨hsize', -⟩ := h.param_scale hp quantized
  unfold Linear.loadShard Linear.read
  simp only [quantized]
  show ∃ error, l.loadQuantizedWeight (sources .none).weight (sources .none).scale .none p = _
  rw [h.loadQuantizedWeight]
  refine parallelLoadQuantized_raises ?_ ?_
  · rw [hsize, hsize']
    exact notRange
  · rw [hsize, hsize']
    exact notSplit

/-- A piece of the scale is refused unless the blocks split as the entries do. -/
theorem loadShard_piece_raises (quantized : l.quantized = true) {p : LinearParams R}
    (hp : l.Shaped p)
    (notSplit : ceilDiv (l.context.tpSize * n) 128 ≠ l.context.tpSize * ceilDiv n 128) :
    ∃ error, l.loadShard true sources p .none = .error error := by
  obtain ⟨hsplit, -⟩ := h.source_weight shaped
  obtain ⟨hsize, -⟩ := h.source_scale shaped quantized
  obtain ⟨hsize', -⟩ := h.param_scale hp quantized
  unfold Linear.loadShard Linear.read
  simp only [quantized]
  rw [h.readPiece_split false hsplit]
  simp only [if_true]
  by_cases heven : l.context.tpSize ∣ (sources .none).scale.size l.tpDim
  · obtain ⟨k, hk⟩ := heven
    rw [h.readPiece_split true hk]
    show ∃ error, l.loadQuantizedWeight (l.context.range l.tpDim n (sources .none).weight)
      (l.context.range l.tpDim k (sources .none).scale) .none p = _
    have hpart : (l.context.range l.tpDim k (sources .none).scale).size l.tpDim = k :=
      Tensor.slice_size _ _ _ _
    have hblocks : l.context.tpSize * k = ceilDiv (l.context.tpSize * n) 128 := hk ▸ hsize
    have hk' : k ≠ ceilDiv n 128 := fun heq => notSplit (hblocks ▸ heq ▸ rfl)
    rw [h.loadQuantizedWeight]
    refine parallelLoadQuantized_raises ?_ ?_
    · rw [hpart, hsize']
      exact hk'
    · rw [hpart, hsize']
      intro heq
      -- The blocks of the whole are at most those of the ranges together.
      have hle : l.context.tpSize * k ≤ l.context.tpSize * ceilDiv n 128 :=
        hblocks ▸ ceilDiv_le_group rfl
      have hle : k ≤ ceilDiv n 128 := Nat.le_of_mul_le_mul_left hle l.context.tpSize_pos
      have hge : ceilDiv n 128 ≤ k := heq ▸ Nat.le_mul_of_pos_left _ l.context.tpSize_pos
      exact hk' (Nat.le_antisymm hle hge)
  · obtain ⟨error, herror⟩ := h.readPiece_raises true heven
    rw [herror]
    exact ⟨error, rfl⟩

omit shaped

/-! ### The share of the rank -/

theorem shareSize : spec.shareSize l.context.tpSize .none = n := by
  unfold LinearSpec.shareSize
  rw [h.size, h.count, Nat.mul_div_cancel_left n l.context.tpSize_pos]

theorem shareIndex : spec.shareIndex l.context.tpSize .none l.context.tpRank = l.context.tpRank := by
  unfold LinearSpec.shareIndex
  rw [h.count, Nat.div_self l.context.tpSize_pos, Nat.div_one]

theorem offset : spec.offset l.context.tpSize .none = 0 := by
  unfold LinearSpec.offset
  rw [h.shards]
  exact sizeBefore_head _ _ _

section Values

variable [Mul R]

/-- The parameters read the source if they read its range entry by entry. -/
theorem reads_iff (p : LinearParams R) : Reads spec l.context l.quantized sources p ↔
    ∀ a < n, ∀ b < spec.across,
      dequantized l.tpDim l.quantized p.weight p.scale a b =
        dequantized l.tpDim l.quantized (sources .none).weight (sources .none).scale
          (l.context.tpRank * n + a) b := by
  unfold Reads ReadsShare
  rw [h.shards, List.forall_mem_singleton, h.shareSize, h.shareIndex, h.offset, h.axis, h.size,
    h.count]
  simp only [Nat.zero_add, dvd_mul_right, true_and]

include shaped

omit [Mul R] in
/-- The weight of a load that copied the range. -/
theorem weight_along {p p' : LinearParams R} (hp : l.Shaped p)
    (wrote : Tensor.Wrote 0 (l.context.range l.tpDim n (sources .none).weight) p.weight p'.weight)
    {a b : Nat} (ha : a < n) (hb : b < spec.across) :
    p'.weight.along l.tpDim a b =
      (sources .none).weight.along l.tpDim (l.context.tpRank * n + a) b := by
  obtain ⟨-, hacross⟩ := h.source_weight shaped
  have hsize : (l.context.range l.tpDim n (sources .none).weight).size l.tpDim = n :=
    Tensor.slice_size _ _ _ _
  have hacross' : (l.context.range l.tpDim n (sources .none).weight).across l.tpDim = spec.across :=
    (Tensor.slice_across _ _ _ _).trans hacross
  refine (wrote.along (h.range_shape shaped hp).2 (hsize.symm ▸ ha) (hacross'.symm ▸ hb)).trans ?_
  exact Tensor.slice_along _ _ _ _ _ _

/-- Unquantised, a load reads the range. -/
theorem reads_weight (plain : l.quantized = false) {sliced : Bool} {p p' : LinearParams R}
    (hp : l.Shaped p) (run : l.loadShard sliced sources p .none = .ok p') :
    Reads spec l.context l.quantized sources p' := by
  rw [h.loadShard_weight shaped plain sliced hp] at run
  obtain ⟨hrows, hcols⟩ := h.range_shape shaped hp
  cases hcopy : tensorOp ((l.context.range l.tpDim n (sources .none).weight).copyRows 0
      p.weight.rows p.weight) with
  | error error => rw [hcopy] at run; cases run
  | ok w =>
    rw [hcopy] at run
    obtain rfl := Except.ok.inj run
    have hwrote : Tensor.Wrote 0 _ p.weight (LinearParams.mk w p.scale).weight :=
      Tensor.wrote_of_copyRows (tensorOp_eq_ok.mp hcopy) hrows hcols
    rw [h.reads_iff]
    intro a ha b hb
    unfold dequantized
    rw [plain]
    exact h.weight_along shaped hp hwrote ha hb

/-- Quantised, a load that copied the blocks from `start` on: its entries, each with the scale it
has now. -/
theorem dequantized_copied (quantized : l.quantized = true) {p p' : LinearParams R}
    (hp : l.Shaped p) {start : Nat} {scale : Tensor R} (cols : scale.cols = p.scale.cols)
    (scaleSize : scale.size l.tpDim = ceilDiv n 128)
    (scaleAcross : scale.across l.tpDim = ceilDiv spec.across 128)
    (scaleAlong : ∀ a b,
      scale.along l.tpDim a b = (sources .none).scale.along l.tpDim (start + a) b)
    (copied : p.Copied 0 0 (l.context.range l.tpDim n (sources .none).weight) scale p') {a b : Nat}
    (ha : a < n) (hb : b < spec.across) :
    dequantized l.tpDim l.quantized p'.weight p'.scale a b =
      (sources .none).weight.along l.tpDim (l.context.tpRank * n + a) b *
        (sources .none).scale.along l.tpDim (start + a / 128) (b / 128) := by
  have ha' : a / 128 < ceilDiv n 128 := by
    rw [ceilDiv_blocks]
    omega
  have hb' : b / 128 < ceilDiv spec.across 128 := by
    rw [ceilDiv_blocks]
    omega
  unfold dequantized
  rw [quantized, if_pos rfl, h.weight_along shaped hp copied.weight ha hb,
    copied.scale.along cols (scaleSize.symm ▸ ha') (scaleAcross.symm ▸ hb'), scaleAlong]

/-- The blocks of a load that copied the part of the scale that splits as the entries do. -/
theorem dequantized_split (quantized : l.quantized = true) {sliced : Bool} {p p' : LinearParams R}
    (hp : l.Shaped p)
    (split : ceilDiv (l.context.tpSize * n) 128 = l.context.tpSize * ceilDiv n 128)
    (run : l.loadShard sliced sources p .none = .ok p') {a b : Nat} (ha : a < n)
    (hb : b < spec.across) :
    dequantized l.tpDim l.quantized p'.weight p'.scale a b =
      (sources .none).weight.along l.tpDim (l.context.tpRank * n + a) b *
        (sources .none).scale.along l.tpDim (l.context.tpRank * ceilDiv n 128 + a / 128)
          (b / 128) := by
  rw [h.loadShard_splitScale shaped quantized sliced hp split] at run
  obtain ⟨-, -, hcopied⟩ := copyQuantized_copied run
  exact h.dequantized_copied shaped quantized hp (Prod.mk.inj (copyQuantized_shape run)).2
    (Tensor.slice_size _ _ _ _)
    ((Tensor.slice_across _ _ _ _).trans (h.source_scale shaped quantized).2)
    (fun _ _ => Tensor.slice_along _ _ _ _ _ _) hcopied ha hb

omit shaped

omit [Mul R] in
/-- A load of the layer loads its one source. -/
theorem load_eq {order : List ShardId} (perm : order.Perm spec.shards) (sliced : Bool)
    (sources : ShardId → Source R) (init : LinearParams R) :
    l.load sliced sources init order = l.loadShard sliced sources init .none := by
  rw [h.shards] at perm
  rw [List.perm_singleton.mp perm]
  exact load_one sliced init .none

theorem loadsShares_weight (plain : l.quantized = false) : LoadsShares R spec l := by
  intro sources init params order sliced hsources hinit horder run
  rw [h.load_eq horder] at run
  exact h.reads_weight hsources plain hinit run

omit [Mul R] in
theorem loadsAlike_weight (plain : l.quantized = false) : LoadsAlike R spec l := by
  intro sources init order hsources hinit horder
  rw [h.load_eq horder, h.load_eq horder, h.loadShard_weight hsources plain true hinit,
    h.loadShard_weight hsources plain false hinit]

/-- The scale that is copied is the one of the range. -/
theorem loadsShares_of_scaleFits (quantized : l.quantized = true)
    (fits : LinearSpec.ScaleFits l.context (l.context.tpSize * n)) : LoadsShares R spec l := by
  intro sources init params order sliced hsources hinit horder run
  rw [h.load_eq horder] at run
  have hpos := (h.positive quantized).1
  unfold LinearSpec.ScaleFits at fits
  rw [Nat.mul_div_cancel_left n l.context.tpSize_pos] at fits
  rw [h.reads_iff]
  intro a ha b hb
  by_cases hsplit : ceilDiv (l.context.tpSize * n) 128 = l.context.tpSize * ceilDiv n 128
  · rw [h.dequantized_split hsources quantized hinit hsplit run ha hb]
    unfold dequantized
    rw [quantized, if_pos rfl]
    have hblock : l.context.tpRank * ceilDiv n 128 + a / 128 = (l.context.tpRank * n + a) / 128 := by
      rcases fits with hfirst | ⟨m, hm⟩ | hodd
      · rw [hfirst]
        simp
      · have hceil : ceilDiv n 128 = m := by
          rw [ceilDiv_blocks]
          omega
        rw [hceil, hm, Nat.mul_left_comm, Nat.mul_add_div (by decide)]
      · exact absurd hsplit hodd
    rw [hblock]
  · have hrange : ceilDiv (l.context.tpSize * n) 128 = ceilDiv n 128 := by
      by_contra hnot
      cases sliced with
      | false =>
        obtain ⟨_, hraise⟩ := h.loadShard_whole_raises hsources quantized hinit hnot hsplit
        rw [run] at hraise
        cases hraise
      | true =>
        obtain ⟨_, hraise⟩ := h.loadShard_piece_raises hsources quantized hinit hsplit
        rw [run] at hraise
        cases hraise
    have htwo : 2 ≤ l.context.tpSize := by
      by_contra hless
      obtain hone : l.context.tpSize = 1 := by
        have := l.context.tpSize_pos
        omega
      rw [hone, Nat.one_mul, Nat.one_mul] at hsplit
      exact hsplit rfl
    -- One block covers the source, so there is nothing to choose.
    have hsmall : l.context.tpSize * n ≤ 128 := (ceilDiv_eq_of_group hpos htwo rfl).mp hrange
    cases sliced with
    | true =>
      obtain ⟨_, hraise⟩ := h.loadShard_piece_raises hsources quantized hinit hsplit
      rw [run] at hraise
      cases hraise
    | false =>
      rw [h.loadShard_wholeScale hsources quantized hinit hrange] at run
      obtain ⟨-, -, hcopied⟩ := copyQuantized_copied run
      obtain ⟨hsize, hacross⟩ := h.source_scale hsources quantized
      rw [h.dequantized_copied hsources quantized hinit (Prod.mk.inj (copyQuantized_shape run)).2
        (hsize.trans hrange) hacross (fun a b => by rw [Nat.zero_add]) hcopied ha hb]
      unfold dequantized
      rw [quantized, if_pos rfl]
      have hstop : (l.context.tpRank + 1) * n ≤ l.context.tpSize * n :=
        Nat.mul_le_mul_right n l.context.rank_lt
      rw [Nat.add_mul, Nat.one_mul] at hstop
      have hblock : 0 + a / 128 = (l.context.tpRank * n + a) / 128 := by omega
      rw [hblock]

end Values

/-! ### The loads that go through -/

include shaped

theorem loadShard_split_ok (quantized : l.quantized = true) (sliced : Bool) {p : LinearParams R}
    (hp : l.Shaped p)
    (split : ceilDiv (l.context.tpSize * n) 128 = l.context.tpSize * ceilDiv n 128) :
    ∃ p', l.loadShard sliced sources p .none = .ok p' := by
  obtain ⟨hsize', hacross'⟩ := h.param_scale hp quantized
  have hshape := (Tensor.shape_eq_iff (t := l.context.range l.tpDim (ceilDiv n 128)
    (sources .none).scale) (u := p.scale) l.tpDim).mpr
    ⟨(Tensor.slice_size _ _ _ _).trans hsize'.symm, (Tensor.slice_across _ _ _ _).trans
      ((h.source_scale shaped quantized).2.trans hacross'.symm)⟩
  rw [h.loadShard_splitScale shaped quantized sliced hp split]
  exact copyQuantized_ok (by omega) (by omega) (h.range_shape shaped hp) (Prod.mk.inj hshape)

theorem loadShard_whole_ok (quantized : l.quantized = true) {p : LinearParams R} (hp : l.Shaped p)
    (only : ceilDiv (l.context.tpSize * n) 128 = ceilDiv n 128) :
    ∃ p', l.loadShard false sources p .none = .ok p' := by
  obtain ⟨hsize, hacross⟩ := h.source_scale shaped quantized
  obtain ⟨hsize', hacross'⟩ := h.param_scale hp quantized
  have hshape := (Tensor.shape_eq_iff (t := (sources .none).scale) (u := p.scale) l.tpDim).mpr
    ⟨hsize.trans (only.trans hsize'.symm), hacross.trans hacross'.symm⟩
  rw [h.loadShard_wholeScale shaped quantized hp only]
  exact copyQuantized_ok (by omega) (by omega) (h.range_shape shaped hp) (Prod.mk.inj hshape)

omit shaped

/-- A range that does not start at a block is given a block of another rank. -/
theorem scaleFits_of_loadsShares [MulZeroOneClass R] [Nontrivial R]
    (quantized : l.quantized = true) (loads : LoadsShares R spec l) :
    LinearSpec.ScaleFits l.context (l.context.tpSize * n) := by
  by_contra hbad
  unfold LinearSpec.ScaleFits at hbad
  rw [Nat.mul_div_cancel_left n l.context.tpSize_pos, not_or, not_or, not_not] at hbad
  obtain ⟨hlater, hunaligned, hsplit⟩ := hbad
  obtain ⟨hn, hacross⟩ := h.positive quantized
  -- Every weight is 1; the scale is 1 at the block that is copied first and 0 elsewhere.
  have hsources := spec.sample_wellShaped l.quantized (fun _ _ => (1 : R))
    fun a _ => if a = l.context.tpRank * ceilDiv n 128 then 1 else 0
  obtain ⟨p, hrun⟩ :=
    h.loadShard_split_ok hsources quantized false (l.blank_shaped (0 : R)) hsplit
  have hload := (h.load_eq (List.Perm.refl _) false _ (l.blank (0 : R))).trans hrun
  have hreads := (h.reads_iff p).mp
    (loads _ _ p _ false hsources (l.blank_shaped 0) (List.Perm.refl _) hload) 0 hn 0 hacross
  rw [h.dequantized_split hsources quantized (l.blank_shaped 0) hsplit hrun hn hacross] at hreads
  unfold dequantized LinearSpec.sample at hreads
  rw [quantized, if_pos rfl, h.axis, Tensor.ofAlong_along, Tensor.ofAlong_along,
    Tensor.ofAlong_along, one_mul, one_mul, Nat.zero_div, Nat.add_zero,
    Nat.add_zero, if_pos rfl, if_neg (block_ne_of_unaligned hlater hunaligned)] at hreads
  exact one_ne_zero hreads

/-- The piece and the whole load alike, unless one block covers the source and is not cut. -/
theorem loadsAlike_iff [Inhabited R] (quantized : l.quantized = true) :
    LoadsAlike R spec l ↔ l.context.tpSize = 1 ∨ 128 < l.context.tpSize * n := by
  have hpos := (h.positive quantized).1
  constructor
  · intro halike
    by_contra hbad
    rw [not_or, not_lt] at hbad
    obtain ⟨hone, hsmall⟩ := hbad
    have htwo : 2 ≤ l.context.tpSize := by
      have := l.context.tpSize_pos
      omega
    have hrange := (ceilDiv_eq_of_group hpos htwo rfl).mpr hsmall
    have hsplit : ceilDiv (l.context.tpSize * n) 128 ≠ l.context.tpSize * ceilDiv n 128 := by
      have hceil : ceilDiv n 128 = 1 := by
        have hn : n ≤ l.context.tpSize * n := Nat.le_mul_of_pos_left n l.context.tpSize_pos
        rw [ceilDiv_blocks]
        omega
      rw [hrange, hceil, Nat.mul_one]
      exact Ne.symm hone
    have hsources := spec.sample_wellShaped l.quantized (fun _ _ => (default : R)) fun _ _ => default
    have hinit := l.blank_shaped (default : R)
    obtain ⟨p, hwhole⟩ := h.loadShard_whole_ok hsources quantized hinit hrange
    obtain ⟨error, hpiece⟩ := h.loadShard_piece_raises hsources quantized hinit hsplit
    have hsame := halike _ _ _ hsources hinit (List.Perm.refl _)
    rw [h.load_eq (List.Perm.refl _), h.load_eq (List.Perm.refl _), hpiece, hwhole] at hsame
    cases hsame
  · intro hfine sources init order hsources hinit horder
    rw [h.load_eq horder, h.load_eq horder]
    by_cases hsplit : ceilDiv (l.context.tpSize * n) 128 = l.context.tpSize * ceilDiv n 128
    · rw [h.loadShard_splitScale hsources quantized true hinit hsplit,
        h.loadShard_splitScale hsources quantized false hinit hsplit]
    · have hrange : ceilDiv (l.context.tpSize * n) 128 ≠ ceilDiv n 128 := by
        intro hrange
        rcases hfine with hone | hlarge
        · rw [hone, Nat.one_mul, Nat.one_mul] at hsplit
          exact hsplit rfl
        · have htwo : 2 ≤ l.context.tpSize := by
            by_contra hless
            have hone : l.context.tpSize = 1 := by
              have := l.context.tpSize_pos
              omega
            rw [hone, Nat.one_mul, Nat.one_mul] at hsplit
            exact hsplit rfl
          exact absurd ((ceilDiv_eq_of_group hpos htwo rfl).mp hrange) (not_le.mpr hlarge)
      obtain ⟨_, hpiece⟩ := h.loadShard_piece_raises hsources quantized hinit hsplit
      obtain ⟨_, hwhole⟩ := h.loadShard_whole_raises hsources quantized hinit hrange hsplit
      rw [hpiece, hwhole]
      rfl

end RangeLayer

end SparseVllm
