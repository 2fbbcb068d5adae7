import Mathlib.Algebra.BigOperators.Group.List.Basic
import SparseVllm.Layers.Share

/-!
# Loads of packed layers

A load runs over the sources of a layer. `load_alike` and `load_reads` are the rules for it: the
first carries over that the piece and the whole load alike, the second that a load reads a share and
leaves the others alone.

A packed layer whose loaders take the shards it is meant to hold (`PackedLayer`) reads its shares,
whole or in pieces: an FP8 load refuses a shard that is not made of whole blocks.
-/

namespace SparseVllm

open SparseVllm.Lib

variable {R : Type}

/-! ## Runs of loads -/

section Runs

variable {l : Linear} {sources : ShardId → Source R}

/-- Sources that load alike one by one load alike. -/
theorem load_alike {order : List ShardId}
    (alike : ∀ id ∈ order, ∀ p, l.Shaped p →
      (l.loadShard true sources p id).toOption = (l.loadShard false sources p id).toOption)
    (keeps : ∀ id ∈ order, ∀ p p', l.Shaped p → l.loadShard false sources p id = .ok p' →
      l.Shaped p')
    {init : LinearParams R} (shaped : l.Shaped init) :
    (l.load true sources init order).toOption = (l.load false sources init order).toOption := by
  unfold Linear.load
  induction order generalizing init with
  | nil => rfl
  | cons id rest ih =>
    rw [List.foldlM_cons, List.foldlM_cons]
    have hfirst := alike id List.mem_cons_self init shaped
    cases hwhole : l.loadShard false sources init id with
    | error error =>
      rw [hwhole] at hfirst
      cases hpiece : l.loadShard true sources init id with
      | error error' => rfl
      | ok p => rw [hpiece] at hfirst; cases hfirst
    | ok p' =>
      rw [hwhole] at hfirst
      cases hpiece : l.loadShard true sources init id with
      | error error' => rw [hpiece] at hfirst; cases hfirst
      | ok p =>
        rw [hpiece] at hfirst
        obtain rfl : p = p' := Option.some.inj hfirst
        exact ih (fun id hid => alike id (List.mem_cons_of_mem _ hid))
          (fun id hid => keeps id (List.mem_cons_of_mem _ hid))
          (keeps id List.mem_cons_self _ _ shaped hwhole)

/-- A load reads the share of its source and keeps those of the others, so a run reads them all. -/
theorem load_reads {sliced : Bool} {shards order : List ShardId} {I : LinearParams R → Prop}
    {Q : ShardId → LinearParams R → Prop}
    (step : ∀ id ∈ shards, ∀ p p', I p → l.loadShard sliced sources p id = .ok p' →
      I p' ∧ Q id p' ∧ ∀ other ∈ shards, other ≠ id → Q other p → Q other p')
    (sub : order ⊆ shards) {init params : LinearParams R} (start : I init)
    (run : l.load sliced sources init order = .ok params) :
    I params ∧ (∀ id ∈ order, Q id params) ∧ ∀ id ∈ shards, Q id init → Q id params := by
  unfold Linear.load at run
  induction order generalizing init with
  | nil =>
    obtain rfl : init = params := Except.ok.inj run
    exact ⟨start, nofun, fun _ _ h => h⟩
  | cons id rest ih =>
    rw [List.foldlM_cons] at run
    cases hfirst : l.loadShard sliced sources init id with
    | error error => rw [hfirst] at run; cases run
    | ok p =>
      rw [hfirst] at run
      obtain ⟨hp, hread, hothers⟩ := step id (sub List.mem_cons_self) init p start hfirst
      obtain ⟨hparams, hrest, hkept⟩ := ih (fun _ h => sub (List.mem_cons_of_mem _ h)) hp run
      refine ⟨hparams, fun other hother => ?_, fun other hother h => hkept other hother ?_⟩
      · rcases List.mem_cons.mp hother with rfl | hother
        · exact hkept other (sub List.mem_cons_self) hread
        · exact hrest other hother
      · by_cases heq : other = id
        · exact heq ▸ hread
        · exact hothers other hother heq h

/-- A load raises if one of its steps always does. -/
theorem load_raises {sliced : Bool} {order : List ShardId} {id : ShardId} (member : id ∈ order)
    (raises : ∀ p, ∃ error, l.loadShard sliced sources p id = .error error)
    (init : LinearParams R) : ∃ error, l.load sliced sources init order = .error error := by
  unfold Linear.load
  induction order generalizing init with
  | nil => cases member
  | cons first rest ih =>
    rw [List.foldlM_cons]
    cases hfirst : l.loadShard sliced sources init first with
    | error error => exact ⟨error, rfl⟩
    | ok p =>
      rcases List.mem_cons.mp member with rfl | hrest
      · obtain ⟨error, herror⟩ := raises init
        rw [hfirst] at herror
        cases herror
      · exact ih hrest p

/-- Loads that return one after the other return. -/
theorem load_returns {sliced : Bool} {order : List ShardId} {I : LinearParams R → Prop}
    (step : ∀ id ∈ order, ∀ p, I p → ∃ p', l.loadShard sliced sources p id = .ok p' ∧ I p')
    {init : LinearParams R} (start : I init) :
    ∃ params, l.load sliced sources init order = .ok params := by
  unfold Linear.load
  induction order generalizing init with
  | nil => exact ⟨init, rfl⟩
  | cons id rest ih =>
    obtain ⟨p, hfirst, hp⟩ := step id List.mem_cons_self init start
    rw [List.foldlM_cons, hfirst]
    exact ih (fun other hother => step other (List.mem_cons_of_mem _ hother)) hp

/-- A load of one source. -/
theorem load_one (sliced : Bool) (init : LinearParams R) (id : ShardId) :
    l.load sliced sources init [id] = l.loadShard sliced sources init id := by
  unfold Linear.load
  rw [List.foldlM_cons]
  cases l.loadShard sliced sources init id <;> rfl

end Runs

/-! ## Copies -/

namespace LinearParams

/-- What a quantised copy did. -/
structure Copied (start blockStart : Nat) (weight scale : Tensor R) (p p' : LinearParams R) :
    Prop where
  weight : Tensor.Wrote start weight p.weight p'.weight
  scale : Tensor.Wrote blockStart scale p.scale p'.scale

end LinearParams

theorem tensorOp_eq_ok {α : Type} {op : Except TensorError α} {a : α} :
    tensorOp op = .ok a ↔ op = .ok a := by
  unfold tensorOp Except.mapError
  cases op with
  | error error => exact ⟨nofun, nofun⟩
  | ok b => exact ⟨fun h => congrArg _ (Except.ok.inj h), fun h => congrArg _ (Except.ok.inj h)⟩

section Copies

variable {start rows blockStart blocks : Nat} {weight scale : Tensor R} {p p' : LinearParams R}

theorem copyQuantized_copied
    (h : copyQuantizedWeightAndScale start rows blockStart blocks weight scale p = .ok p') :
    weight.rows = rows ∧ scale.rows = blocks ∧ p.Copied start blockStart weight scale p' := by
  unfold copyQuantizedWeightAndScale at h
  by_cases hweight : (weight.rows, weight.cols) = (rows, p.weight.cols)
  · rw [if_neg (not_not.mpr hweight)] at h
    by_cases hscale : (scale.rows, scale.cols) = (blocks, p.scale.cols)
    · rw [if_neg (not_not.mpr hscale)] at h
      obtain ⟨hrows, hcols⟩ := Prod.mk.inj hweight
      obtain ⟨hblocks, hscols⟩ := Prod.mk.inj hscale
      cases hw : tensorOp (weight.copyRows start rows p.weight) with
      | error error => rw [hw] at h; cases h
      | ok w =>
        rw [hw] at h
        cases hs : tensorOp (scale.copyRows blockStart blocks p.scale) with
        | error error => simp only [hs, bind, Except.bind] at h; cases h
        | ok s =>
          simp only [hs, bind, Except.bind] at h
          obtain rfl := Except.ok.inj h
          exact ⟨hrows, hblocks, Tensor.wrote_of_copyRows (tensorOp_eq_ok.mp hw) hrows hcols,
            Tensor.wrote_of_copyRows (tensorOp_eq_ok.mp hs) hblocks hscols⟩
    · rw [if_pos hscale] at h
      cases h
  · rw [if_pos hweight] at h
    cases h

theorem copyQuantized_shape
    (h : copyQuantizedWeightAndScale start rows blockStart blocks weight scale p = .ok p') :
    (scale.rows, scale.cols) = (blocks, p.scale.cols) := by
  by_contra hscale
  unfold copyQuantizedWeightAndScale at h
  rw [if_pos hscale] at h
  split at h
  · cases h
  · cases h

theorem copyQuantized_ok (room : start + rows ≤ p.weight.rows)
    (blockRoom : blockStart + blocks ≤ p.scale.rows) (weightShape : weight.rows = rows ∧
      weight.cols = p.weight.cols) (scaleShape : scale.rows = blocks ∧ scale.cols = p.scale.cols) :
    ∃ p', copyQuantizedWeightAndScale start rows blockStart blocks weight scale p = .ok p' := by
  obtain ⟨w, hw⟩ := Tensor.copyRows_ok room weightShape.1 weightShape.2
  obtain ⟨s, hs⟩ := Tensor.copyRows_ok blockRoom scaleShape.1 scaleShape.2
  refine ⟨⟨w, s⟩, ?_⟩
  unfold copyQuantizedWeightAndScale
  rw [if_neg (not_not.mpr (Prod.ext weightShape.1 weightShape.2)),
    if_neg (not_not.mpr (Prod.ext scaleShape.1 scaleShape.2)), tensorOp_eq_ok.mpr hw,
    tensorOp_eq_ok.mpr hs]
  rfl

end Copies

/-! ## Packed layers -/

namespace Shard

/-- The rows of a source that are the shard's. -/
def cut (s : Shard) (t : Tensor R) : Tensor R := t.slice .row (s.rank * s.size) s.size

/-- The rows of a scale that are the shard's. -/
def cutScale (s : Shard) (t : Tensor R) : Tensor R :=
  t.slice .row (s.rank * (s.size / 128)) (s.size / 128)

variable {s : Shard} {t : Tensor R}

theorem takeShard_whole (rows : t.rows = s.count * s.size) (h : s.rank < s.count) :
    takeShard s t = .ok (s.cut t) := by
  unfold takeShard
  by_cases hone : t.rows = s.size
  · rw [if_pos hone]
    unfold cut
    rw [Tensor.slice_only (show t.size .row = _ from rows) hone h]
  · rw [if_neg hone, Tensor.chunk_even (show t.size .row = _ from rows) h]
    rfl

theorem takeShard_cut (s : Shard) (t : Tensor R) : takeShard s (s.cut t) = .ok (s.cut t) :=
  if_pos rfl

end Shard

/-- A source that a packed layer loads as a shard. -/
structure PackedLoad (R : Type) (l : Linear) (id : ShardId) (s : Shard) : Prop where
  axis : l.tpDim = .row
  rank : s.rank < s.count
  weight : ∀ (loaded : Tensor R) p, l.weightLoader loaded id p = packedWeightLoader s loaded p
  quantizedWeight : ∃ shardScale : Tensor R → Except LinearError (Tensor R),
    (∀ scale k, scale.rows = s.count * k →
      shardScale scale = .ok (scale.slice .row (s.rank * k) k)) ∧
    ∀ loaded scale p,
      l.loadQuantizedWeight loaded scale id p = packedLoadQuantized shardScale s loaded scale p
  slice : ∀ isScale k, l.rankLocalWeightSlice id isScale (s.count * k) = .ok none ∧ s.count = 1 ∨
    l.rankLocalWeightSlice id isScale (s.count * k) = .ok (some (s.rank * k, k))

namespace PackedLoad

variable {l : Linear} {id : ShardId} {s : Shard}

theorem readPiece (h : PackedLoad R l id s) (isScale : Bool) {t : Tensor R} {k : Nat}
    (rows : t.rows = s.count * k) :
    l.readPiece id isScale t = .ok (t.slice .row (s.rank * k) k) := by
  unfold Linear.readPiece
  rw [h.axis, show t.size .row = s.count * k from rows]
  rcases h.slice isScale k with ⟨hslice, hone⟩ | hslice
  · rw [hslice]
    have hall : t.rows = k := by rw [rows, hone, Nat.one_mul]
    exact congrArg _ (Tensor.slice_only (show t.size .row = _ from rows) hall h.rank).symm
  · rw [hslice]
    rfl

theorem weightLoader_whole (h : PackedLoad R l id s) {loaded : Tensor R}
    (rows : loaded.rows = s.count * s.size) (p : LinearParams R) :
    l.weightLoader loaded id p = l.weightLoader (s.cut loaded) id p := by
  rw [h.weight, h.weight]
  unfold packedWeightLoader
  rw [Shard.takeShard_whole rows h.rank, Shard.takeShard_cut]

/-- An unquantised source, whole or in pieces: the rows of the shard are copied. -/
theorem loadShard_weight (h : PackedLoad R l id s) (plain : l.quantized = false)
    {sources : ShardId → Source R} (rows : (sources id).weight.rows = s.count * s.size)
    (sliced : Bool) (p : LinearParams R) :
    l.loadShard sliced sources p id = l.weightLoader (s.cut (sources id).weight) id p := by
  unfold Linear.loadShard Linear.read
  cases sliced with
  | false =>
    simp only [plain]
    exact h.weightLoader_whole rows p
  | true =>
    simp only [plain]
    rw [h.readPiece false rows]
    rfl

theorem takeScale_whole {shardScale : Tensor R → Except LinearError (Tensor R)} {scale : Tensor R}
    {cols : Nat} (rank : s.rank < s.count) (cuts : ∀ k, scale.rows = s.count * k →
      shardScale scale = .ok (scale.slice .row (s.rank * k) k))
    (rows : scale.rows = s.count * (s.size / 128)) :
    takeScale shardScale (s.size / 128) cols scale = .ok (s.cutScale scale) := by
  unfold takeScale
  by_cases hsame : (scale.rows, scale.cols) = (s.size / 128, cols)
  · rw [if_pos hsame]
    unfold Shard.cutScale
    rw [Tensor.slice_only (show scale.size .row = _ from rows) (Prod.mk.inj hsame).1 rank]
  · rw [if_neg hsame]
    exact cuts _ rows

/-- A quantised source, whole or in pieces: the rows and the blocks of an aligned shard are
copied. -/
theorem loadShard_aligned (h : PackedLoad R l id s) (quantized : l.quantized = true)
    (offset : 128 ∣ s.offset) (size : 128 ∣ s.size) {sources : ShardId → Source R}
    (rows : (sources id).weight.rows = s.count * s.size) (sliced : Bool) {p : LinearParams R}
    (scaleRows : (sources id).scale.rows = s.count * (s.size / 128))
    (scaleCols : (sources id).scale.cols = p.scale.cols) :
    l.loadShard sliced sources p id =
      copyQuantizedWeightAndScale s.offset s.size (s.offset / 128) (s.size / 128)
        (s.cut (sources id).weight) (s.cutScale (sources id).scale) p := by
  obtain ⟨shardScale, hcuts, hload⟩ := h.quantizedWeight
  have haligned : ¬ (s.offset % 128 ≠ 0 ∨ s.size % 128 ≠ 0) := by
    rw [Nat.mod_eq_zero_of_dvd offset, Nat.mod_eq_zero_of_dvd size]
    simp
  unfold Linear.loadShard Linear.read
  cases sliced with
  | false =>
    simp only [quantized]
    show l.loadQuantizedWeight _ _ id p = _
    rw [hload]
    unfold packedLoadQuantized
    rw [if_neg haligned, Shard.takeShard_whole rows h.rank,
      takeScale_whole h.rank (fun k => hcuts _ k) scaleRows]
    rfl
  | true =>
    simp only [quantized]
    rw [h.readPiece false rows]
    simp only [if_true]
    rw [h.readPiece true scaleRows]
    show l.loadQuantizedWeight (s.cut _) (s.cutScale _) id p = _
    have hscale : takeScale shardScale (s.size / 128) p.scale.cols
        (s.cutScale (sources id).scale) = .ok (s.cutScale (sources id).scale) := by
      have hshape : ((s.cutScale (sources id).scale).rows, (s.cutScale (sources id).scale).cols) =
          (s.size / 128, p.scale.cols) := Prod.ext rfl scaleCols
      unfold takeScale
      exact if_pos hshape
    rw [hload]
    unfold packedLoadQuantized
    rw [if_neg haligned, Shard.takeShard_cut, hscale]
    rfl

/-- A shard that is not aligned is refused. -/
theorem loadShard_unaligned (h : PackedLoad R l id s) (quantized : l.quantized = true)
    (unaligned : ¬ (128 ∣ s.offset ∧ 128 ∣ s.size)) (sources : ShardId → Source R) (sliced : Bool)
    (p : LinearParams R) : ∃ error, l.loadShard sliced sources p id = .error error := by
  obtain ⟨shardScale, -, hload⟩ := h.quantizedWeight
  have hrefused : s.offset % 128 ≠ 0 ∨ s.size % 128 ≠ 0 := by
    by_contra hnone
    rw [not_or, not_not, not_not] at hnone
    exact unaligned ⟨Nat.dvd_of_mod_eq_zero hnone.1, Nat.dvd_of_mod_eq_zero hnone.2⟩
  unfold Linear.loadShard
  cases hread : l.read sliced id (sources id) with
  | error error => exact ⟨error, rfl⟩
  | ok source =>
    refine ⟨.unaligned s.offset s.size, ?_⟩
    simp only [quantized]
    show l.loadQuantizedWeight source.weight source.scale id p = _
    rw [hload]
    exact if_pos hrefused

end PackedLoad

/-! ### Places on a rank -/

section Places

variable {ι : Type} [DecidableEq ι] (size : ι → Nat)

/-- The sizes of what stands before an element. -/
def sizeBefore (l : List ι) (a : ι) : Nat := ((l.takeWhile (· ≠ a)).map size).sum

theorem sizeBefore_head (a : ι) (l : List ι) : sizeBefore size (a :: l) a = 0 := by
  unfold sizeBefore
  rw [List.takeWhile_cons_of_neg (by simp)]
  rfl

theorem sizeBefore_cons {a b : ι} (h : b ≠ a) (l : List ι) :
    sizeBefore size (b :: l) a = size b + sizeBefore size l a := by
  unfold sizeBefore
  rw [List.takeWhile_cons_of_pos (by simp [h]), List.map_cons, List.sum_cons]

theorem sizeBefore_add_le {l : List ι} {a : ι} (h : a ∈ l) :
    sizeBefore size l a + size a ≤ (l.map size).sum := by
  induction l with
  | nil => cases h
  | cons b l ih =>
    rw [List.map_cons, List.sum_cons]
    by_cases heq : b = a
    · subst heq
      rw [sizeBefore_head]
      omega
    · rw [sizeBefore_cons size heq]
      have hrest := ih ((List.mem_cons.mp h).resolve_left fun hab => heq hab.symm)
      omega

/-- Two elements have disjoint places. -/
theorem sizeBefore_disjoint {l : List ι} {a b : ι} (ha : a ∈ l) (hb : b ∈ l) (h : a ≠ b) :
    sizeBefore size l a + size a ≤ sizeBefore size l b ∨
      sizeBefore size l b + size b ≤ sizeBefore size l a := by
  induction l with
  | nil => cases ha
  | cons c l ih =>
    by_cases hca : c = a
    · subst hca
      rw [sizeBefore_head, sizeBefore_cons size h]
      omega
    · by_cases hcb : c = b
      · subst hcb
        rw [sizeBefore_head, sizeBefore_cons size hca]
        omega
      · rw [sizeBefore_cons size hca, sizeBefore_cons size hcb]
        have hrest := ih ((List.mem_cons.mp ha).resolve_left fun hac => hca hac.symm)
          ((List.mem_cons.mp hb).resolve_left fun hbc => hcb hbc.symm)
        omega

end Places

/-! ### Reading the shares -/

/-- The shard of a source, as the layer is meant to hold it. -/
def LinearSpec.shard (spec : LinearSpec) (context : ParallelContext) (id : ShardId) : Shard where
  size := spec.shareSize context.tpSize id
  offset := spec.offset context.tpSize id
  count := spec.shareCount context.tpSize id
  rank := spec.shareIndex context.tpSize id context.tpRank

/-- A layer of row shards whose loaders take the shards the layer is meant to hold. -/
structure PackedLayer (R : Type) (spec : LinearSpec) (l : Linear) : Prop where
  axis : spec.axis = .row
  across : l.inputSize = spec.across
  split : ∀ id ∈ spec.shards, spec.sourceSize id =
    spec.shareCount l.context.tpSize id * spec.shareSize l.context.tpSize id
  load : ∀ id ∈ spec.shards, PackedLoad R l id (spec.shard l.context id)
  room : ∀ id ∈ spec.shards,
    spec.offset l.context.tpSize id + spec.shareSize l.context.tpSize id ≤ l.outputSize

theorem ceilDiv_blocks (n : Nat) : ceilDiv n 128 = (n + 127) / 128 := by
  unfold ceilDiv
  rw [Nat.add_sub_assoc (by decide)]

theorem ceilDiv_mul {n k : Nat} (h : 128 ∣ n) : ceilDiv (k * n) 128 = k * (n / 128) := by
  obtain ⟨m, rfl⟩ := h
  rw [ceilDiv_blocks, Nat.mul_left_comm, Nat.mul_add_div (by decide), Nat.mul_div_cancel_left _
    (by decide)]
  rfl

namespace PackedLayer

variable {spec : LinearSpec} {l : Linear}

/-- Every shard starts and ends at a block. -/
def Aligned (spec : LinearSpec) (l : Linear) : Prop :=
  ∀ id ∈ spec.shards, 128 ∣ spec.offset l.context.tpSize id ∧
    128 ∣ spec.shareSize l.context.tpSize id

variable (h : PackedLayer R spec l) {sources : ShardId → Source R}
variable (shaped : spec.WellShaped l.quantized sources)

include h shaped

theorem weight_rows {id : ShardId} (member : id ∈ spec.shards) :
    (sources id).weight.rows =
      (spec.shard l.context id).count * (spec.shard l.context id).size := by
  have hsize := (shaped id member).1.1
  rw [h.axis] at hsize
  exact hsize.trans (h.split id member)

theorem weight_cols {id : ShardId} (member : id ∈ spec.shards) :
    (sources id).weight.cols = l.inputSize := by
  have hacross := (shaped id member).1.2
  rw [h.axis] at hacross
  exact hacross.trans h.across.symm

theorem scale_rows (quantized : l.quantized = true) {id : ShardId} (member : id ∈ spec.shards)
    (aligned : 128 ∣ spec.shareSize l.context.tpSize id) : (sources id).scale.rows =
      (spec.shard l.context id).count * ((spec.shard l.context id).size / 128) := by
  have hsize := ((shaped id member).2 quantized).1
  rw [h.axis, h.split id member, ceilDiv_mul aligned] at hsize
  exact hsize

theorem scale_cols (quantized : l.quantized = true) {id : ShardId} (member : id ∈ spec.shards)
    {p : LinearParams R} (hp : l.Shaped p) : (sources id).scale.cols = p.scale.cols := by
  have hacross := ((shaped id member).2 quantized).2
  rw [h.axis] at hacross
  have hscale := (Prod.mk.inj (hp.scale quantized)).2
  rw [hscale, h.across]
  exact hacross

/-- What loading one source did. -/
theorem loadShard_wrote {id : ShardId} (member : id ∈ spec.shards) {sliced : Bool}
    (aligned : l.quantized = true → 128 ∣ spec.offset l.context.tpSize id ∧
      128 ∣ spec.shareSize l.context.tpSize id) {p p' : LinearParams R} (hp : l.Shaped p)
    (run : l.loadShard sliced sources p id = .ok p') :
    Tensor.Wrote (spec.offset l.context.tpSize id)
      ((spec.shard l.context id).cut (sources id).weight) p.weight p'.weight ∧
    (l.quantized = false → p'.scale = p.scale) ∧
    (l.quantized = true → Tensor.Wrote (spec.offset l.context.tpSize id / 128)
      ((spec.shard l.context id).cutScale (sources id).scale) p.scale p'.scale) := by
  have hload := h.load id member
  have hrows := h.weight_rows shaped member
  have hcols : ((spec.shard l.context id).cut (sources id).weight).cols = p.weight.cols :=
    (h.weight_cols shaped member).trans hp.weight.2.symm
  cases hq : l.quantized with
  | false =>
    rw [hload.loadShard_weight hq hrows, hload.weight] at run
    unfold packedWeightLoader at run
    rw [Shard.takeShard_cut] at run
    cases hcopy : tensorOp (((spec.shard l.context id).cut (sources id).weight).copyRows
      (spec.shard l.context id).offset (spec.shard l.context id).size p.weight) with
    | error error => simp only [hcopy, bind, Except.bind] at run; cases run
    | ok w =>
      simp only [hcopy, bind, Except.bind] at run
      obtain rfl := Except.ok.inj run
      exact ⟨Tensor.wrote_of_copyRows (tensorOp_eq_ok.mp hcopy) rfl hcols, fun _ => rfl, nofun⟩
  | true =>
    obtain ⟨hoffset, hsize⟩ := aligned hq
    rw [hload.loadShard_aligned hq hoffset hsize hrows sliced
      (h.scale_rows shaped hq member hsize) (h.scale_cols shaped hq member hp)] at run
    obtain ⟨-, -, hcopied⟩ := copyQuantized_copied run
    exact ⟨hcopied.weight, nofun, fun _ => hcopied.scale⟩

theorem loadShard_shaped {id : ShardId} (member : id ∈ spec.shards) {sliced : Bool}
    (aligned : l.quantized = true → 128 ∣ spec.offset l.context.tpSize id ∧
      128 ∣ spec.shareSize l.context.tpSize id) {p p' : LinearParams R} (hp : l.Shaped p)
    (run : l.loadShard sliced sources p id = .ok p') : l.Shaped p' := by
  obtain ⟨hweight, -, hscale⟩ := h.loadShard_wrote shaped member aligned hp run
  refine ⟨⟨hweight.rows.trans hp.weight.1, hweight.cols.trans hp.weight.2⟩, fun hq => ?_⟩
  rw [(hscale hq).rows, (hscale hq).cols]
  exact hp.scale hq

/-- One source loads alike, whole or in pieces. -/
theorem loadShard_alike {id : ShardId} (member : id ∈ spec.shards) {p : LinearParams R}
    (hp : l.Shaped p) : (l.loadShard true sources p id).toOption =
      (l.loadShard false sources p id).toOption := by
  have hload := h.load id member
  have hrows := h.weight_rows shaped member
  cases hq : l.quantized with
  | false => rw [hload.loadShard_weight hq hrows, hload.loadShard_weight hq hrows]
  | true =>
    by_cases haligned : 128 ∣ spec.offset l.context.tpSize id ∧
        128 ∣ spec.shareSize l.context.tpSize id
    · have hscaleRows := h.scale_rows shaped hq member haligned.2
      have hscaleCols := h.scale_cols shaped hq member hp
      rw [hload.loadShard_aligned hq haligned.1 haligned.2 hrows true hscaleRows hscaleCols,
        hload.loadShard_aligned hq haligned.1 haligned.2 hrows false hscaleRows hscaleCols]
    · obtain ⟨_, hpiece⟩ := hload.loadShard_unaligned hq haligned sources true p
      obtain ⟨_, hwhole⟩ := hload.loadShard_unaligned hq haligned sources false p
      rw [hpiece, hwhole]
      rfl

variable [Mul R]

/-- A load reads the share of its source. -/
theorem loadShard_reads {id : ShardId} (member : id ∈ spec.shards) {sliced : Bool}
    (aligned : l.quantized = true → 128 ∣ spec.offset l.context.tpSize id ∧
      128 ∣ spec.shareSize l.context.tpSize id) {p p' : LinearParams R} (hp : l.Shaped p)
    (run : l.loadShard sliced sources p id = .ok p') :
    ReadsShare spec l.context l.quantized sources p' id := by
  obtain ⟨hweight, -, hscale⟩ := h.loadShard_wrote shaped member aligned hp run
  intro a ha b hb
  have hb : b < l.inputSize := h.across ▸ hb
  have hentry : p'.weight.entry (spec.offset l.context.tpSize id + a) b =
      (sources id).weight.entry (spec.shareIndex l.context.tpSize id l.context.tpRank *
        spec.shareSize l.context.tpSize id + a) b := by
    rw [hweight.entry _ _ (hp.weight.2 ▸ hb), if_pos ⟨Nat.le_add_right _ _, Nat.add_lt_add_left ha _⟩,
      Nat.add_sub_cancel_left]
    rfl
  unfold dequantized
  rw [h.axis]
  cases hq : l.quantized with
  | false => exact hentry
  | true =>
    obtain ⟨⟨o, ho⟩, ⟨m, hm⟩⟩ := aligned hq
    have hcols : p.scale.cols = ceilDiv l.inputSize 128 := (Prod.mk.inj (hp.scale hq)).2
    have hblock : (spec.offset l.context.tpSize id + a) / 128 =
        spec.offset l.context.tpSize id / 128 + a / 128 := by omega
    have hsource : (spec.shareIndex l.context.tpSize id l.context.tpRank *
        spec.shareSize l.context.tpSize id + a) / 128 =
        spec.shareIndex l.context.tpSize id l.context.tpRank *
          (spec.shareSize l.context.tpSize id / 128) + a / 128 := by
      rw [hm, Nat.mul_div_cancel_left _ (by decide), Nat.mul_left_comm,
        Nat.mul_add_div (by decide)]
    have hscaleEntry : p'.scale.entry ((spec.offset l.context.tpSize id + a) / 128) (b / 128) =
        (sources id).scale.entry ((spec.shareIndex l.context.tpSize id l.context.tpRank *
          spec.shareSize l.context.tpSize id + a) / 128) (b / 128) := by
      have hb' : b / 128 < p.scale.cols := by
        rw [hcols, ceilDiv_blocks]
        omega
      have ha' : a / 128 < spec.shareSize l.context.tpSize id / 128 := by omega
      rw [hblock, (hscale hq).entry _ _ hb',
        if_pos ⟨Nat.le_add_right _ _, Nat.add_lt_add_left ha' _⟩, Nat.add_sub_cancel_left, hsource]
      rfl
    exact congrArg₂ (· * ·) hentry hscaleEntry

/-- It leaves the shares of the other sources. -/
theorem loadShard_others {id other : ShardId} (member : id ∈ spec.shards)
    (member' : other ∈ spec.shards) (hne : other ≠ id) {sliced : Bool}
    (aligned : l.quantized = true → Aligned spec l) {p p' : LinearParams R} (hp : l.Shaped p)
    (run : l.loadShard sliced sources p id = .ok p')
    (hread : ReadsShare spec l.context l.quantized sources p other) :
    ReadsShare spec l.context l.quantized sources p' other := by
  obtain ⟨hweight, hplain, hscale⟩ :=
    h.loadShard_wrote shaped member (fun hq => aligned hq id member) hp run
  have hapart := sizeBefore_disjoint (spec.shareSize l.context.tpSize) member member' hne.symm
  have hapart : spec.offset l.context.tpSize id + spec.shareSize l.context.tpSize id ≤
      spec.offset l.context.tpSize other ∨
      spec.offset l.context.tpSize other + spec.shareSize l.context.tpSize other ≤
        spec.offset l.context.tpSize id := hapart
  have hcutRows : ((spec.shard l.context id).cut (sources id).weight).rows =
      spec.shareSize l.context.tpSize id := rfl
  have hcutBlocks : ((spec.shard l.context id).cutScale (sources id).scale).rows =
      spec.shareSize l.context.tpSize id / 128 := rfl
  intro a ha b hb
  rw [← hread a ha b hb]
  have hb : b < l.inputSize := h.across ▸ hb
  have hentry : p'.weight.entry (spec.offset l.context.tpSize other + a) b =
      p.weight.entry (spec.offset l.context.tpSize other + a) b := by
    rw [hweight.entry _ _ (hp.weight.2 ▸ hb), hcutRows, if_neg (by omega)]
  unfold dequantized
  rw [h.axis]
  cases hq : l.quantized with
  | false => exact hentry
  | true =>
    obtain ⟨⟨o, ho⟩, ⟨m, hm⟩⟩ := aligned hq id member
    obtain ⟨⟨o', ho'⟩, ⟨m', hm'⟩⟩ := aligned hq other member'
    have hcols : p.scale.cols = ceilDiv l.inputSize 128 := (Prod.mk.inj (hp.scale hq)).2
    have hb' : b / 128 < p.scale.cols := by
      rw [hcols, ceilDiv_blocks]
      omega
    have hscaleEntry : p'.scale.entry ((spec.offset l.context.tpSize other + a) / 128) (b / 128) =
        p.scale.entry ((spec.offset l.context.tpSize other + a) / 128) (b / 128) := by
      rw [(hscale hq).entry _ _ hb', hcutBlocks, if_neg (by omega)]
    exact congrArg₂ (· * ·) hentry hscaleEntry

omit [Mul R] shaped in
theorem loadsAlike : LoadsAlike R spec l := by
  intro sources init order hsources hinit horder
  by_cases haligned : l.quantized = true → Aligned spec l
  · exact load_alike (fun id hid p hp => h.loadShard_alike hsources (horder.subset hid) hp)
      (fun id hid p p' hp hrun => h.loadShard_shaped hsources (horder.subset hid)
        (fun hq => haligned hq id (horder.subset hid)) hp hrun) hinit
  · obtain ⟨hq, hrefused⟩ := Classical.not_imp.mp haligned
    obtain ⟨id, hid, hunaligned⟩ : ∃ id ∈ spec.shards, ¬ (128 ∣ spec.offset l.context.tpSize id ∧
        128 ∣ spec.shareSize l.context.tpSize id) := by
      by_contra hnone
      exact hrefused fun id hid => by_contra fun hcon => hnone ⟨id, hid, hcon⟩
    obtain ⟨_, hpiece⟩ := load_raises (horder.symm.subset hid)
      ((h.load id hid).loadShard_unaligned hq hunaligned sources true) init
    obtain ⟨_, hwhole⟩ := load_raises (horder.symm.subset hid)
      ((h.load id hid).loadShard_unaligned hq hunaligned sources false) init
    rw [hpiece, hwhole]
    rfl

omit shaped in
theorem loadsShares : LoadsShares R spec l := by
  intro sources init params order sliced hsources hinit horder run
  have haligned : l.quantized = true → Aligned spec l := by
    intro hq id hid
    by_contra hunaligned
    obtain ⟨_, hraise⟩ := load_raises (horder.symm.subset hid)
      ((h.load id hid).loadShard_unaligned hq hunaligned sources sliced) init
    rw [run] at hraise
    cases hraise
  have hstep : ∀ id ∈ spec.shards, ∀ p p', l.Shaped p →
      l.loadShard sliced sources p id = .ok p' → l.Shaped p' ∧
      ReadsShare spec l.context l.quantized sources p' id ∧ ∀ other ∈ spec.shards, other ≠ id →
        ReadsShare spec l.context l.quantized sources p other →
        ReadsShare spec l.context l.quantized sources p' other := by
    intro id hid p p' hp hrun
    have hid' : l.quantized = true → _ := fun hq => haligned hq id hid
    exact ⟨h.loadShard_shaped hsources hid hid' hp hrun, h.loadShard_reads hsources hid hid' hp hrun,
      fun other hother hne hread =>
        h.loadShard_others hsources hid hother hne haligned hp hrun hread⟩
  have hreads := load_reads (Q := fun id p => ReadsShare spec l.context l.quantized sources p id)
    hstep horder.subset hinit run
  exact fun id hid => ⟨⟨_, h.split id hid⟩, hreads.2.1 id (horder.symm.subset hid)⟩

end PackedLayer

end SparseVllm
