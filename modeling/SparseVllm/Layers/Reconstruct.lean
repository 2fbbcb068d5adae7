import Mathlib.Data.List.GetD
import Mathlib.Data.Nat.ModEq
import SparseVllm.Layers.Parallel

/-!
# Sharded linear weights reconstruct the checkpoint

Each class is an instance of `RangeLayer` or of `PackedLayer`, but for a `MergedColumnParallelLinear`
with an output size that the group does not divide: its unquantised loader rounds down, and copies
whatever `chunk` returns if the sizes happen to fit.

Results: `linear_reconstructs_iff`, the exact conditions under which every load of a layer raises or
reads its shares, and the pieces and the whole sources load alike; and which ranks hold a share.
-/

namespace SparseVllm

open SparseVllm.Lib

variable {R : Type} {context : ParallelContext} {quantized : Bool}

/-! ## Constructors -/

theorem divide_eq_ok {numerator denominator k : Nat}
    (h : divide numerator denominator = .ok k) :
    denominator ∣ numerator ∧ k = numerator / denominator := by
  unfold divide at h
  split at h
  · exact ⟨Nat.dvd_of_mod_eq_zero ‹_›, (Except.ok.inj h).symm⟩
  · cases h

theorem divide_mul {denominator k : Nat} (pos : 0 < denominator) :
    divide (denominator * k) denominator = .ok k := by
  unfold divide
  rw [if_pos (Nat.mul_mod_right _ _), Nat.mul_div_cancel_left k pos]

theorem linearBase_eq_ok {cls : LinearClass} {inputSize outputSize : Nat} {axis : Axis} {l : Linear}
    (h : linearBase context quantized cls inputSize outputSize axis = .ok l) :
    (quantized = true → 0 < inputSize ∧ 0 < outputSize) ∧
      l = { cls, context, tpDim := axis, inputSize, outputSize, quantized } := by
  unfold linearBase at h
  split at h
  · cases h
  · rename_i hpos
    refine ⟨fun hq => ?_, (Except.ok.inj h).symm⟩
    constructor
    · exact Nat.pos_of_ne_zero fun hzero => hpos ⟨hq, Or.inl hzero⟩
    · exact Nat.pos_of_ne_zero fun hzero => hpos ⟨hq, Or.inr hzero⟩

theorem columnBase_eq_ok {cls : LinearClass} {inputSize outputSize : Nat} {l : Linear}
    (h : columnBase context quantized cls inputSize outputSize = .ok l) :
    context.tpSize ∣ outputSize ∧
      (quantized = true → 0 < inputSize ∧ 0 < outputSize / context.tpSize) ∧
      l = { cls, context, tpDim := .row, inputSize,
            outputSize := outputSize / context.tpSize, quantized } := by
  unfold columnBase at h
  cases hdivide : divide outputSize context.tpSize with
  | error error => rw [hdivide] at h; cases h
  | ok k =>
    rw [hdivide] at h
    obtain ⟨hdvd, rfl⟩ := divide_eq_ok hdivide
    exact ⟨hdvd, linearBase_eq_ok h⟩

/-! ## One range -/

/-- The slice of every class but the one with replicated KV heads. -/
theorem rankLocalWeightSlice_base {l : Linear} (id : ShardId) (isScale : Bool) (k : Nat)
    (base : ∀ headSize numHeads totalNumKvHeads replicas,
      l.cls ≠ .replicatedKvQkv headSize numHeads totalNumKvHeads replicas) :
    l.rankLocalWeightSlice id isScale k =
      if l.context.tpSize = 1 then .ok none
      else (do
        let shardSize ← divide k l.context.tpSize
        .ok (some (l.context.tpRank * shardSize, shardSize))) := by
  unfold Linear.rankLocalWeightSlice
  split
  · rename_i hcls
    exact absurd hcls (base _ _ _ _)
  · rfl

theorem column_rangeLayer {inputSize outputSize : Nat} {l : Linear}
    (built : columnParallelLinear context quantized inputSize outputSize = .ok l) :
    l.context = context ∧ l.quantized = quantized ∧ outputSize = context.tpSize * l.outputSize ∧
      RangeLayer R (.column inputSize outputSize) l l.outputSize := by
  obtain ⟨⟨n, rfl⟩, hpos, rfl⟩ := columnBase_eq_ok built
  rw [Nat.mul_div_cancel_left n context.tpSize_pos] at hpos
  have hn : context.tpSize * n / context.tpSize = n := Nat.mul_div_cancel_left n context.tpSize_pos
  refine ⟨rfl, rfl, congrArg _ hn.symm, ⟨rfl, rfl, congrArg _ hn.symm, rfl, fun hq => ?_,
    Or.inl ⟨rfl, rfl, rfl⟩, fun _ _ => rfl, fun _ _ _ => rfl, fun isScale k => ?_⟩⟩
  · exact ⟨hn.symm ▸ (hpos hq).2, (hpos hq).1⟩
  · exact rankLocalWeightSlice_base .none isScale k fun _ _ _ _ h => LinearClass.noConfusion h

theorem row_rangeLayer {inputSize outputSize : Nat} {l : Linear}
    (built : rowParallelLinear context quantized inputSize outputSize = .ok l) :
    l.context = context ∧ l.quantized = quantized ∧ inputSize = context.tpSize * l.inputSize ∧
      RangeLayer R (.row inputSize outputSize) l l.inputSize := by
  unfold rowParallelLinear at built
  cases hdivide : divide inputSize context.tpSize with
  | error error => rw [hdivide] at built; cases built
  | ok n =>
    rw [hdivide] at built
    obtain ⟨hdvd, hn⟩ := divide_eq_ok hdivide
    obtain ⟨hpos, rfl⟩ := linearBase_eq_ok built
    have hsize : inputSize = context.tpSize * n := by
      rw [hn, Nat.mul_div_cancel' hdvd]
    refine ⟨rfl, rfl, hsize, ⟨rfl, rfl, hsize, rfl, hpos, Or.inr ⟨rfl, rfl, rfl⟩, fun _ _ => rfl,
      fun _ _ _ => rfl, fun isScale k => ?_⟩⟩
    exact rankLocalWeightSlice_base .none isScale k fun _ _ _ _ h => LinearClass.noConfusion h

/-! ## Packed classes -/

/-- A shard of a layer whose sources have one share for each rank. -/
theorem packedLoad_base {l : Linear} {id : ShardId} {s : Shard} (axis : l.tpDim = .row)
    (base : ∀ headSize numHeads totalNumKvHeads replicas,
      l.cls ≠ .replicatedKvQkv headSize numHeads totalNumKvHeads replicas)
    (count : s.count = l.context.tpSize) (rank : s.rank = l.context.tpRank)
    (weight : ∀ (loaded : Tensor R) p, l.weightLoader loaded id p = packedWeightLoader s loaded p)
    (quantizedWeight : ∀ (loaded scale : Tensor R) p, l.loadQuantizedWeight loaded scale id p =
      packedLoadQuantized (narrowScale l.context .row) s loaded scale p) :
    PackedLoad R l id s := by
  refine ⟨axis, ?_, weight, ⟨narrowScale l.context .row, fun scale k hscale => ?_, quantizedWeight⟩,
    fun isScale k => ?_⟩
  · rw [count, rank]
    exact l.context.rank_lt
  · rw [rank]
    rw [count] at hscale
    exact narrowScale_range hscale
  · rw [rankLocalWeightSlice_base id isScale _ base, count, rank]
    by_cases hone : l.context.tpSize = 1
    · rw [if_pos hone]
      exact Or.inl ⟨rfl, hone⟩
    · rw [if_neg hone, divide_mul l.context.tpSize_pos]
      exact Or.inr rfl

section Qkv

variable {hiddenSize headSize totalNumHeads totalNumKvHeads : Nat}

/-- The shards of a QKV projection, in their order on a rank. -/
theorem sizeBefore_qkv (size : ShardId → Nat) :
    sizeBefore size [.q, .k, .v] .q = 0 ∧ sizeBefore size [.q, .k, .v] .k = size .q ∧
      sizeBefore size [.q, .k, .v] .v = size .q + size .k := by
  refine ⟨sizeBefore_head _ _ _, ?_, ?_⟩
  · rw [sizeBefore_cons size (by decide), sizeBefore_head]
    rfl
  · rw [sizeBefore_cons size (by decide), sizeBefore_cons size (by decide), sizeBefore_head]
    rfl

theorem qkv_packedLayer {l : Linear} (built : qkvParallelLinear context quantized hiddenSize
    headSize totalNumHeads totalNumKvHeads = .ok l) :
    l.context = context ∧ l.quantized = quantized ∧
      PackedLayer R (.qkv hiddenSize headSize totalNumHeads totalNumKvHeads) l := by
  unfold qkvParallelLinear at built
  obtain ⟨kvHeads, hkv⟩ : ∃ kvHeads, kvHeads =
      if totalNumKvHeads = 0 then totalNumHeads else totalNumKvHeads := ⟨_, rfl⟩
  simp only [← hkv] at built
  cases hheads : divide totalNumHeads context.tpSize with
  | error error => rw [hheads] at built; cases built
  | ok numHeads =>
  rw [hheads] at built
  cases hkvHeads : divide kvHeads context.tpSize with
  | error error => simp only [hkvHeads, bind, Except.bind] at built; cases built
  | ok numKvHeads =>
  simp only [hkvHeads, bind, Except.bind] at built
  obtain ⟨hheadsDvd, hheadsEq⟩ := divide_eq_ok hheads
  obtain ⟨hkvDvd, hkvEq⟩ := divide_eq_ok hkvHeads
  obtain ⟨-, -, rfl⟩ := columnBase_eq_ok built
  have hheads : totalNumHeads = context.tpSize * numHeads := by
    rw [hheadsEq, Nat.mul_div_cancel' hheadsDvd]
  have hkvHeads : kvHeads = context.tpSize * numKvHeads := by
    rw [hkvEq, Nat.mul_div_cancel' hkvDvd]
  obtain ⟨spec, hspec⟩ : ∃ spec : LinearSpec, spec =
    .qkv hiddenSize headSize totalNumHeads totalNumKvHeads := ⟨_, rfl⟩
  have hsourceQ : spec.sourceSize .q = context.tpSize * (numHeads * headSize) := by
    rw [hspec, ← Nat.mul_assoc, ← hheads]
    rfl
  have hsourceKv : spec.sourceSize .k = context.tpSize * (numKvHeads * headSize) ∧
      spec.sourceSize .v = context.tpSize * (numKvHeads * headSize) := by
    rw [hspec, ← Nat.mul_assoc, ← hkvHeads, hkv]
    exact ⟨rfl, rfl⟩
  have hshareOf : ∀ id m, spec.sourceSize id = context.tpSize * m →
      spec.shareSize context.tpSize id = m := by
    intro id m hid
    unfold LinearSpec.shareSize
    rw [hid, show spec.shareCount context.tpSize id = context.tpSize by rw [hspec]; rfl,
      Nat.mul_div_cancel_left m context.tpSize_pos]
  have hq := hshareOf .q _ hsourceQ
  have hk := hshareOf .k _ hsourceKv.1
  have hv := hshareOf .v _ hsourceKv.2
  have hbefore := sizeBefore_qkv (spec.shareSize context.tpSize)
  rw [hq, hk] at hbefore
  have hshards : spec.shards = [.q, .k, .v] := by rw [hspec]; rfl
  have hcount : ∀ id, spec.shareCount context.tpSize id = context.tpSize := by
    intro id
    rw [hspec]
    rfl
  have hindex : ∀ id, spec.shareIndex context.tpSize id context.tpRank = context.tpRank := by
    intro id
    unfold LinearSpec.shareIndex
    rw [hcount, Nat.div_self context.tpSize_pos, Nat.div_one]
  have hshard : ∀ id ∈ spec.shards, qkvShard context headSize numHeads numKvHeads id =
      .ok (spec.shard context id) := by
    intro id hid
    unfold LinearSpec.shard LinearSpec.offset
    rw [hcount, hindex, hshards]
    rw [hshards] at hid
    simp only [List.mem_cons, List.not_mem_nil, or_false] at hid
    rcases hid with rfl | rfl | rfl
    · rw [hq, show ((List.takeWhile _ _).map _).sum = 0 from hbefore.1]
      rfl
    · rw [hk, show ((List.takeWhile _ _).map _).sum = _ from hbefore.2.1]
      rfl
    · rw [hv, show ((List.takeWhile _ _).map _).sum = _ from hbefore.2.2]
      rfl
  rw [← hspec]
  refine ⟨rfl, rfl, ⟨by rw [hspec]; rfl, by rw [hspec]; rfl, fun id hid => ?_, fun id hid => ?_,
    fun id hid => ?_⟩⟩
  · show spec.sourceSize id = spec.shareCount context.tpSize id * spec.shareSize context.tpSize id
    rw [hcount]
    rw [hshards] at hid
    simp only [List.mem_cons, List.not_mem_nil, or_false] at hid
    rcases hid with rfl | rfl | rfl
    · rw [hq, hsourceQ]
    · rw [hk, hsourceKv.1]
    · rw [hv, hsourceKv.2]
  · refine packedLoad_base rfl (fun _ _ _ _ h => LinearClass.noConfusion h) (hcount id) (hindex id)
      (fun loaded p => ?_) fun loaded scale p => ?_
    · show (do
        let shard ← qkvShard context headSize numHeads numKvHeads id
        packedWeightLoader shard loaded p) = _
      rw [hshard id hid]
      rfl
    · show (do
        let shard ← qkvShard context headSize numHeads numKvHeads id
        packedLoadQuantized (narrowScale context .row) shard loaded scale p) = _
      rw [hshard id hid]
      rfl
  · have hle := sizeBefore_add_le (spec.shareSize context.tpSize) hid
    refine hle.trans ?_
    show ((spec.shards).map _).sum ≤ (totalNumHeads + 2 * kvHeads) * headSize / context.tpSize
    rw [hshards]
    simp only [List.map_cons, List.map_nil, List.sum_cons, List.sum_nil, Nat.add_zero]
    have htotal : (totalNumHeads + 2 * kvHeads) * headSize = context.tpSize *
        (numHeads * headSize + (numKvHeads * headSize + numKvHeads * headSize)) := by
      rw [hheads, hkvHeads]
      ring
    rw [hq, hk, hv, htotal, Nat.mul_div_cancel_left _ context.tpSize_pos]

/-- The rank's share is one of them. -/
theorem shareIndex_lt {count : Nat} (split : count ∣ context.tpSize) :
    context.tpRank / (context.tpSize / count) < count := by
  refine Nat.div_lt_of_lt_mul ?_
  rw [Nat.div_mul_cancel split]
  exact context.rank_lt

theorem replicatedKvQkv_packedLayer {l : Linear} (built : replicatedKvQkvParallelLinear context
    quantized hiddenSize headSize totalNumHeads totalNumKvHeads = .ok l) :
    l.context = context ∧ l.quantized = quantized ∧ totalNumKvHeads ∣ context.tpSize ∧
      PackedLayer R (.replicatedKvQkv hiddenSize headSize totalNumHeads totalNumKvHeads) l := by
  unfold replicatedKvQkvParallelLinear at built
  by_cases hmany : context.tpSize ≤ totalNumKvHeads
  · rw [if_pos hmany] at built
    cases built
  rw [if_neg hmany] at built
  cases hheads : divide totalNumHeads context.tpSize with
  | error error => rw [hheads] at built; cases built
  | ok numHeads =>
  rw [hheads] at built
  by_cases hzero : totalNumKvHeads = 0
  · simp only [bind, Except.bind] at built
    rw [if_pos hzero] at built
    cases built
  simp only [bind, Except.bind] at built
  rw [if_neg hzero] at built
  cases hreplicas : divide context.tpSize totalNumKvHeads with
  | error error => simp only [hreplicas] at built; cases built
  | ok replicas =>
  simp only [hreplicas] at built
  obtain ⟨hheadsDvd, hheadsEq⟩ := divide_eq_ok hheads
  obtain ⟨hkvDvd, hreplicasEq⟩ := divide_eq_ok hreplicas
  obtain ⟨-, rfl⟩ := linearBase_eq_ok built
  have hkvPos : 0 < totalNumKvHeads := Nat.pos_of_ne_zero hzero
  have hheads : totalNumHeads = context.tpSize * numHeads := by
    rw [hheadsEq, Nat.mul_div_cancel' hheadsDvd]
  obtain ⟨spec, hspec⟩ : ∃ spec : LinearSpec, spec =
    .replicatedKvQkv hiddenSize headSize totalNumHeads totalNumKvHeads := ⟨_, rfl⟩
  have hshards : spec.shards = [.q, .k, .v] := by rw [hspec]; rfl
  have hcountQ : spec.shareCount context.tpSize .q = context.tpSize := by rw [hspec]; rfl
  have hcountK : spec.shareCount context.tpSize .k = totalNumKvHeads := by rw [hspec]; rfl
  have hcountV : spec.shareCount context.tpSize .v = totalNumKvHeads := by rw [hspec]; rfl
  have hsourceQ : spec.sourceSize .q = context.tpSize * (numHeads * headSize) := by
    rw [hspec, ← Nat.mul_assoc, ← hheads]
    rfl
  have hsourceK : spec.sourceSize .k = totalNumKvHeads * headSize := by rw [hspec]; rfl
  have hsourceV : spec.sourceSize .v = totalNumKvHeads * headSize := by rw [hspec]; rfl
  have hq : spec.shareSize context.tpSize .q = numHeads * headSize := by
    unfold LinearSpec.shareSize
    rw [hsourceQ, hcountQ, Nat.mul_div_cancel_left _ context.tpSize_pos]
  have hk : spec.shareSize context.tpSize .k = headSize := by
    unfold LinearSpec.shareSize
    rw [hsourceK, hcountK, Nat.mul_div_cancel_left _ hkvPos]
  have hv : spec.shareSize context.tpSize .v = headSize := by
    unfold LinearSpec.shareSize
    rw [hsourceV, hcountV, Nat.mul_div_cancel_left _ hkvPos]
  have hbefore := sizeBefore_qkv (spec.shareSize context.tpSize)
  rw [hq, hk] at hbefore
  have hshard : ∀ id ∈ spec.shards,
      replicatedShard context headSize numHeads totalNumKvHeads replicas id =
        .ok (spec.shard context id) := by
    intro id hid
    unfold LinearSpec.shard LinearSpec.offset LinearSpec.shareIndex
    rw [hshards] at hid ⊢
    simp only [List.mem_cons, List.not_mem_nil, or_false] at hid
    rcases hid with rfl | rfl | rfl
    · rw [hq, show ((List.takeWhile _ _).map _).sum = 0 from hbefore.1, hcountQ,
        Nat.div_self context.tpSize_pos, Nat.div_one]
      rfl
    · rw [hk, show ((List.takeWhile _ _).map _).sum = _ from hbefore.2.1, hcountK, ← hreplicasEq]
      rfl
    · rw [hv, show ((List.takeWhile _ _).map _).sum = _ from hbefore.2.2, hcountV, ← hreplicasEq]
      rfl
  have hcount : ∀ id ∈ spec.shards, spec.shareCount context.tpSize id ∣ context.tpSize ∧
      0 < spec.shareCount context.tpSize id ∧ id ≠ .none := by
    intro id hid
    rw [hshards] at hid
    simp only [List.mem_cons, List.not_mem_nil, or_false] at hid
    rcases hid with rfl | rfl | rfl
    · rw [hcountQ]
      exact ⟨dvd_refl _, context.tpSize_pos, nofun⟩
    · rw [hcountK]
      exact ⟨hkvDvd, hkvPos, nofun⟩
    · rw [hcountV]
      exact ⟨hkvDvd, hkvPos, nofun⟩
  rw [← hspec]
  refine ⟨rfl, rfl, hkvDvd, ⟨by rw [hspec]; rfl, by rw [hspec]; rfl, fun id hid => ?_,
    fun id hid => ?_, fun id hid => ?_⟩⟩
  · show spec.sourceSize id = spec.shareCount context.tpSize id * spec.shareSize context.tpSize id
    rw [hshards] at hid
    simp only [List.mem_cons, List.not_mem_nil, or_false] at hid
    rcases hid with rfl | rfl | rfl
    · rw [hq, hsourceQ, hcountQ]
    · rw [hk, hsourceK, hcountK]
    · rw [hv, hsourceV, hcountV]
  · obtain ⟨hdvd, hpos, hid'⟩ := hcount id hid
    refine ⟨rfl, shareIndex_lt hdvd, fun loaded p => ?_, ⟨fun scale => tensorOp (scale.chunk .row
      (spec.shard context id).count (spec.shard context id).rank), fun scale k hscale => ?_,
      fun loaded scale p => ?_⟩, fun isScale k => Or.inr ?_⟩
    · show (do
        let shard ← replicatedShard context headSize numHeads totalNumKvHeads replicas id
        packedWeightLoader shard loaded p) = _
      rw [hshard id hid]
      rfl
    · exact congrArg tensorOp
        (Tensor.chunk_even (show scale.size .row = _ from hscale) (shareIndex_lt hdvd))
    · show (do
        let shard ← replicatedShard context headSize numHeads totalNumKvHeads replicas id
        packedLoadQuantized (fun scale => tensorOp (scale.chunk .row shard.count shard.rank)) shard
          loaded scale p) = _
      rw [hshard id hid]
      rfl
    · have hgroup : context.tpSize ≠ 1 := by omega
      unfold Linear.rankLocalWeightSlice
      simp only
      rw [if_neg (not_or.mpr ⟨hgroup, hid'⟩), hshard id hid]
      simp only [bind, Except.bind]
      rw [show divide ((spec.shard context id).count * k) (spec.shard context id).count = .ok k from
        divide_mul hpos]
      simp only
      rw [if_neg fun h => h.2 (Nat.mul_comm _ _)]
  · refine (sizeBefore_add_le (spec.shareSize context.tpSize) hid).trans ?_
    show ((spec.shards).map _).sum ≤ (numHeads + 2) * headSize
    rw [hshards]
    simp only [List.map_cons, List.map_nil, List.sum_cons, List.sum_nil, Nat.add_zero]
    rw [hq, hk, hv]
    exact Nat.le_of_eq (by ring)

end Qkv

/-! ## Merged layers -/

section Merged

theorem sizeBefore_index (size : ShardId → Nat) {i n : Nat} (h : i < n) (start : Nat) :
    sizeBefore size ((List.range' start n).map .index) (.index (start + i)) =
      ((List.range' start i).map fun j => size (.index j)).sum := by
  induction i generalizing start n with
  | zero =>
    obtain ⟨n, rfl⟩ : ∃ m, n = m + 1 := ⟨n - 1, by omega⟩
    exact sizeBefore_head _ _ _
  | succ i ih =>
    obtain ⟨n, rfl⟩ : ∃ m, n = m + 1 := ⟨n - 1, by omega⟩
    have hne : ShardId.index start ≠ .index (start + (i + 1)) := by
      intro heq
      have := ShardId.index.inj heq
      omega
    rw [List.range'_succ, List.range'_succ, List.map_cons, sizeBefore_cons size hne, List.map_cons,
      List.sum_cons]
    have hrest := ih (Nat.lt_of_succ_lt_succ h) (start + 1)
    rw [show start + 1 + i = start + (i + 1) by omega] at hrest
    rw [hrest]

theorem sum_map_div {tp : Nat} {sizes : List Nat} (even : ∀ size ∈ sizes, tp ∣ size) :
    (sizes.map (· / tp)).sum = sizes.sum / tp := by
  induction sizes with
  | nil => exact (Nat.zero_div tp).symm
  | cons size rest ih =>
    rw [List.map_cons, List.sum_cons, List.sum_cons,
      Nat.add_div_of_dvd_right (even size List.mem_cons_self),
      ih fun other hother => even other (List.mem_cons_of_mem _ hother)]

theorem mapM_divide {tp : Nat} {sizes : List Nat} (even : ∀ size ∈ sizes, tp ∣ size) :
    sizes.mapM (fun size => divide size tp) = .ok (sizes.map (· / tp)) := by
  induction sizes with
  | nil => rfl
  | cons size rest ih =>
    have hsize : divide size tp = .ok (size / tp) :=
      if_pos (Nat.mod_eq_zero_of_dvd (even size List.mem_cons_self))
    rw [List.mapM_cons, hsize, ih fun other hother => even other (List.mem_cons_of_mem _ hother)]
    rfl

/-- An uneven size stops the exact divisions. -/
theorem mapM_divide_raises {tp : Nat} {sizes : List Nat} {size : Nat} (member : size ∈ sizes)
    (uneven : ¬ tp ∣ size) :
    ∃ error, sizes.mapM (fun size => divide size tp) = .error error := by
  induction sizes with
  | nil => cases member
  | cons first rest ih =>
    rw [List.mapM_cons]
    cases hfirst : divide first tp with
    | error error => exact ⟨error, rfl⟩
    | ok k =>
      rcases List.mem_cons.mp member with rfl | hrest
      · exact absurd (divide_eq_ok hfirst).1 uneven
      · obtain ⟨error, herror⟩ := ih hrest
        rw [herror]
        exact ⟨error, rfl⟩

variable {inputSize : Nat} {outputSizes : List Nat}

theorem merged_mem {id : ShardId} (h : id ∈ (LinearSpec.mergedColumn inputSize outputSizes).shards) :
    ∃ i, ∃ hi : i < outputSizes.length, id = .index i ∧
      (LinearSpec.mergedColumn inputSize outputSizes).sourceSize id = outputSizes[i] := by
  obtain ⟨i, hi, rfl⟩ := List.mem_map.mp h
  have hi := List.mem_range.mp hi
  exact ⟨i, hi, rfl, List.getD_eq_getElem _ _ hi⟩

theorem merged_index_mem {i : Nat} (hi : i < outputSizes.length) :
    .index i ∈ (LinearSpec.mergedColumn inputSize outputSizes).shards :=
  List.mem_map.mpr ⟨i, List.mem_range.mpr hi, rfl⟩

theorem merged_shard {i : Nat} (hi : i < outputSizes.length) :
    (LinearSpec.mergedColumn inputSize outputSizes).shard context (.index i) =
      ⟨outputSizes[i] / context.tpSize, ((outputSizes.take i).map (· / context.tpSize)).sum,
        context.tpSize, context.tpRank⟩ := by
  obtain ⟨spec, hspec⟩ : ∃ spec, spec = LinearSpec.mergedColumn inputSize outputSizes := ⟨_, rfl⟩
  have hsize : ∀ j, spec.shareSize context.tpSize (.index j) =
      outputSizes.getD j 0 / context.tpSize := fun j => by
    rw [hspec]
    rfl
  have hbefore := sizeBefore_index (spec.shareSize context.tpSize) hi 0
  rw [Nat.zero_add, ← List.range_eq_range', ← List.range_eq_range'] at hbefore
  have htake : ((List.range i).map fun j => spec.shareSize context.tpSize (.index j)) =
      (outputSizes.take i).map (· / context.tpSize) := by
    refine List.ext_getElem ?_ fun j hj hj' => ?_
    · simp only [List.length_map, List.length_range, List.length_take]
      omega
    · have hj : j < i := by simpa using hj
      rw [List.getElem_map, List.getElem_map, List.getElem_range, List.getElem_take, hsize,
        List.getD_eq_getElem _ _ (by omega)]
  have hoffset : spec.offset context.tpSize (.index i) =
      ((outputSizes.take i).map (· / context.tpSize)).sum := by
    rw [← htake]
    refine Eq.trans ?_ hbefore
    rw [hspec]
    rfl
  rw [← hspec]
  unfold LinearSpec.shard LinearSpec.shareIndex
  rw [hoffset, hsize, List.getD_eq_getElem _ _ hi,
    show spec.shareCount context.tpSize (.index i) = context.tpSize by rw [hspec]; rfl,
    Nat.div_self context.tpSize_pos, Nat.div_one]

theorem mergedShard_eq {i : Nat} (hi : i < outputSizes.length) :
    mergedShard context outputSizes i = .ok ⟨outputSizes[i] / context.tpSize,
      (outputSizes.take i).sum / context.tpSize, context.tpSize, context.tpRank⟩ := by
  unfold mergedShard
  rw [List.getElem?_eq_getElem hi]

theorem mergedQuantizedShard_eq (even : ∀ size ∈ outputSizes, context.tpSize ∣ size) {i : Nat}
    (hi : i < outputSizes.length) :
    mergedQuantizedShard context outputSizes i =
      .ok ((LinearSpec.mergedColumn inputSize outputSizes).shard context (.index i)) := by
  unfold mergedQuantizedShard
  rw [mapM_divide even, merged_shard hi]
  simp only [bind, Except.bind]
  rw [List.getElem?_eq_getElem (by rw [List.length_map]; exact hi)]
  simp only [List.getElem_map, List.map_take]

/-- Even sizes: the divisions that round down are exact. -/
theorem merged_packedLayer {l : Linear}
    (built : mergedColumnParallelLinear context quantized inputSize outputSizes = .ok l)
    (even : ∀ size ∈ outputSizes, context.tpSize ∣ size) :
    PackedLayer R (.mergedColumn inputSize outputSizes) l := by
  obtain ⟨-, -, rfl⟩ := columnBase_eq_ok built
  have hevenTake : ∀ i, ∀ size ∈ outputSizes.take i, context.tpSize ∣ size := fun i size hsize =>
    even size (List.mem_of_mem_take hsize)
  refine ⟨rfl, rfl, fun id hid => ?_, fun id hid => ?_, fun id hid => ?_⟩
  · obtain ⟨i, hi, rfl, hsize⟩ := merged_mem hid
    have hdvd := even _ (List.getElem_mem hi)
    unfold LinearSpec.shareSize
    rw [hsize]
    exact (Nat.mul_div_cancel' hdvd).symm
  · obtain ⟨i, hi, rfl, -⟩ := merged_mem hid
    have hshard : (LinearSpec.mergedColumn inputSize outputSizes).shard context (.index i) = _ :=
      merged_shard hi
    refine packedLoad_base rfl (fun _ _ _ _ h => LinearClass.noConfusion h) ?_ ?_
      (fun loaded p => ?_) fun loaded scale p => ?_
    · exact congrArg Shard.count hshard
    · exact congrArg Shard.rank hshard
    · show (do
        let shard ← mergedShard context outputSizes i
        packedWeightLoader shard loaded p) = _
      rw [mergedShard_eq hi, ← sum_map_div (hevenTake i), ← hshard]
      rfl
    · show (do
        let shard ← mergedQuantizedShard context outputSizes i
        packedLoadQuantized (narrowScale context .row) shard loaded scale p) = _
      rw [mergedQuantizedShard_eq even hi]
      rfl
  · refine (sizeBefore_add_le _ hid).trans ?_
    show (((List.range outputSizes.length).map ShardId.index).map _).sum ≤ _
    have hall : ((List.range outputSizes.length).map ShardId.index).map
        ((LinearSpec.mergedColumn inputSize outputSizes).shareSize context.tpSize) =
        outputSizes.map (· / context.tpSize) := by
      refine List.ext_getElem (by simp) fun j hj hj' => ?_
      have hj : j < outputSizes.length := by simpa using hj'
      simp only [List.getElem_map, List.getElem_range]
      show outputSizes.getD j 0 / context.tpSize = _
      rw [List.getD_eq_getElem _ _ hj]
    rw [hall, sum_map_div even]

/-! ### Sizes that do not divide -/

/-- A quantised loader divides every size exactly. -/
theorem merged_quantized_raises {l : Linear} (cls : l.cls = .mergedColumn outputSizes)
    (quantized : l.quantized = true) (uneven : ∃ size ∈ outputSizes, ¬ l.context.tpSize ∣ size)
    (sources : ShardId → Source R) (sliced : Bool) (i : Nat) (p : LinearParams R) :
    ∃ error, l.loadShard sliced sources p (.index i) = .error error := by
  obtain ⟨size, hmem, hsize⟩ := uneven
  obtain ⟨error, herror⟩ := mapM_divide_raises hmem hsize
  unfold Linear.loadShard
  cases hread : l.read sliced (.index i) (sources (.index i)) with
  | error error => exact ⟨error, rfl⟩
  | ok source =>
    refine ⟨error, ?_⟩
    simp only [quantized]
    show l.loadQuantizedWeight source.weight source.scale (.index i) p = _
    unfold Linear.loadQuantizedWeight mergedQuantizedShard
    rw [cls]
    simp only
    rw [herror]
    rfl

/-- The piece of an uneven size is never cut. -/
theorem merged_piece_raises {l : Linear} (cls : l.cls = .mergedColumn outputSizes)
    {sources : ShardId → Source R} {i : Nat}
    (uneven : ¬ l.context.tpSize ∣ (sources (.index i)).weight.size l.tpDim) (p : LinearParams R) :
    ∃ error, l.loadShard true sources p (.index i) = .error error := by
  have hgroup : l.context.tpSize ≠ 1 := fun hone => uneven (hone ▸ one_dvd _)
  unfold Linear.loadShard Linear.read Linear.readPiece
  rw [rankLocalWeightSlice_base _ _ _ fun _ _ _ _ h => LinearClass.noConfusion (cls ▸ h),
    if_neg hgroup]
  unfold divide
  rw [if_neg fun hmod => uneven (Nat.dvd_of_mod_eq_zero hmod)]
  exact ⟨_, rfl⟩

theorem chunkFits_of_dvd {n : Nat} (even : context.tpSize ∣ n) : ChunkFits context n := by
  obtain ⟨k, rfl⟩ := even
  obtain ⟨hexists, hfull⟩ := Tensor.chunk_full context.rank_lt
  unfold ChunkFits
  simp only
  rw [Tensor.ceilDiv_even context.tpSize_pos, hfull, Nat.mul_div_cancel_left _ context.tpSize_pos]
  exact ⟨hexists, Or.inl rfl⟩

/-- When a packed loader returns: the chunk exists and has the rows of the shard, or one. -/
theorem packedWeightLoader_returns_iff {s : Shard} {loaded : Tensor R} {p : LinearParams R}
    (count : s.count = context.tpSize) (rank : s.rank = context.tpRank)
    (size : s.size = loaded.rows / context.tpSize) (cols : loaded.cols = p.weight.cols)
    (room : s.offset + s.size ≤ p.weight.rows) :
    (∃ p', packedWeightLoader s loaded p = .ok p') ↔ ChunkFits context loaded.rows := by
  have hcopy : ∀ taken : Tensor R, takeShard s loaded = .ok taken → taken.cols = p.weight.cols →
      ((∃ p', packedWeightLoader s loaded p = .ok p') ↔ taken.rows = s.size ∨ taken.rows = 1) := by
    intro taken htaken hcols
    unfold packedWeightLoader
    simp only [htaken, bind, Except.bind]
    constructor
    · rintro ⟨p', hrun⟩
      cases hw : tensorOp (taken.copyRows s.offset s.size p.weight) with
      | error error => rw [hw] at hrun; cases hrun
      | ok w => exact (Tensor.copyRows_eq_ok.mp (tensorOp_eq_ok.mp hw)).2.1
    · intro hrows
      rw [tensorOp_eq_ok.mpr (Tensor.copyRows_eq_ok.mpr ⟨room, hrows, Or.inl hcols, rfl⟩)]
      exact ⟨_, rfl⟩
  by_cases hall : loaded.rows = s.size
  · have heven : context.tpSize ∣ loaded.rows := by
      rw [size] at hall
      rcases Nat.eq_zero_or_pos loaded.rows with hzero | hpos
      · exact hzero ▸ dvd_zero _
      · rcases Nat.lt_or_ge 1 context.tpSize with hgroup | hgroup
        · exact absurd hall (Nat.ne_of_gt (Nat.div_lt_self hpos hgroup))
        · rw [Nat.le_antisymm hgroup context.tpSize_pos]
          exact one_dvd _
    rw [hcopy loaded (if_pos hall) cols]
    exact iff_of_true (Or.inl hall) (chunkFits_of_dvd heven)
  · have htake : takeShard s loaded =
        tensorOp (loaded.chunk .row context.tpSize context.tpRank) := by
      unfold takeShard
      rw [if_neg hall, count, rank]
    by_cases hexists : context.tpRank * ceilDiv loaded.rows context.tpSize < loaded.rows ∨
        loaded.rows = 0
    · rw [hcopy _ (htake.trans (tensorOp_eq_ok.mpr (Tensor.chunk_eq_ok.mpr ⟨hexists, rfl⟩))) cols,
        size]
      exact ⟨fun h => ⟨hexists, h⟩, fun h => h.2⟩
    · refine iff_of_false ?_ fun h => hexists h.1
      rintro ⟨p', hrun⟩
      unfold packedWeightLoader at hrun
      rw [htake] at hrun
      cases hchunk : tensorOp (loaded.chunk .row context.tpSize context.tpRank) with
      | error error => rw [hchunk] at hrun; cases hrun
      | ok taken =>
        exact hexists (Tensor.chunk_eq_ok.mp (tensorOp_eq_ok.mp hchunk)).1

theorem packedWeightLoader_shape {s : Shard} {loaded : Tensor R} {p p' : LinearParams R}
    (h : packedWeightLoader s loaded p = .ok p') :
    p'.weight.rows = p.weight.rows ∧ p'.weight.cols = p.weight.cols ∧ p'.scale = p.scale := by
  unfold packedWeightLoader at h
  cases htake : takeShard s loaded with
  | error error => rw [htake] at h; cases h
  | ok taken =>
    simp only [htake, bind, Except.bind] at h
    cases hcopy : tensorOp (taken.copyRows s.offset s.size p.weight) with
    | error error => rw [hcopy] at h; cases h
    | ok w =>
      rw [hcopy] at h
      obtain rfl := Except.ok.inj h
      obtain ⟨-, -, -, rfl⟩ := Tensor.copyRows_eq_ok.mp (tensorOp_eq_ok.mp hcopy)
      exact ⟨rfl, rfl, rfl⟩

variable {l : Linear}
  (built : mergedColumnParallelLinear context quantized inputSize outputSizes = .ok l)

include built

theorem merged_whole_eq (plain : quantized = false) {i : Nat} (hi : i < outputSizes.length)
    (sources : ShardId → Source R) (p : LinearParams R) :
    l.loadShard false sources p (.index i) =
      packedWeightLoader ⟨outputSizes[i] / context.tpSize,
        (outputSizes.take i).sum / context.tpSize, context.tpSize, context.tpRank⟩
        (sources (.index i)).weight p := by
  obtain ⟨-, -, rfl⟩ := columnBase_eq_ok built
  unfold Linear.loadShard Linear.read
  simp only [plain]
  show (do
    let shard ← mergedShard context outputSizes i
    packedWeightLoader shard (sources (.index i)).weight p) = _
  rw [mergedShard_eq hi]
  rfl

variable {sources : ShardId → Source R}
  (shaped : (LinearSpec.mergedColumn inputSize outputSizes).WellShaped l.quantized sources)

include shaped

theorem merged_rows {i : Nat} (hi : i < outputSizes.length) :
    (sources (.index i)).weight.rows = outputSizes[i] ∧
      (sources (.index i)).weight.cols = l.inputSize := by
  obtain ⟨-, -, rfl⟩ := columnBase_eq_ok built
  obtain ⟨⟨hrows, hcols⟩, -⟩ := shaped _ (merged_index_mem hi)
  exact ⟨hrows.trans (List.getD_eq_getElem _ _ hi), hcols⟩

/-- Unquantised, a whole source of a merged layer loads if the chunk of the rank fits. -/
theorem merged_whole_returns_iff (plain : quantized = false) {i : Nat} (hi : i < outputSizes.length)
    {p : LinearParams R} (hp : l.Shaped p) :
    (∃ p', l.loadShard false sources p (.index i) = .ok p') ↔ ChunkFits context outputSizes[i] := by
  obtain ⟨hrows, hcols⟩ := merged_rows built shaped hi
  have hsum : (outputSizes.take i).sum + outputSizes[i] ≤ outputSizes.sum := by
    have hsplit := congrArg List.sum (List.take_append_drop i outputSizes)
    rw [List.sum_append, List.drop_eq_getElem_cons hi, List.sum_cons] at hsplit
    omega
  have houtput : l.outputSize = outputSizes.sum / context.tpSize := by
    rw [(columnBase_eq_ok built).2.2]
  have hroom : (outputSizes.take i).sum / context.tpSize + outputSizes[i] / context.tpSize ≤
      p.weight.rows := by
    rw [hp.weight.1, houtput]
    exact Nat.div_add_div_le_add_div.trans (Nat.div_le_div_right hsum)
  rw [merged_whole_eq built plain hi, ← hrows]
  refine packedWeightLoader_returns_iff rfl rfl rfl (hcols.trans hp.weight.2.symm) ?_
  rw [hrows]
  exact hroom

omit shaped in
theorem merged_whole_shaped (plain : quantized = false) {i : Nat} (hi : i < outputSizes.length)
    {p p' : LinearParams R} (hp : l.Shaped p)
    (run : l.loadShard false sources p (.index i) = .ok p') : l.Shaped p' := by
  rw [merged_whole_eq built plain hi] at run
  obtain ⟨hrows, hcols, hscale⟩ := packedWeightLoader_shape run
  exact ⟨⟨hrows.trans hp.weight.1, hcols.trans hp.weight.2⟩, fun hq => hscale ▸ hp.scale hq⟩

/-- Unquantised, a merged layer loads its whole sources if every chunk fits. -/
theorem merged_load_returns_iff (plain : quantized = false) {order : List ShardId}
    (perm : order.Perm (LinearSpec.mergedColumn inputSize outputSizes).shards)
    {init : LinearParams R} (hinit : l.Shaped init) :
    (∃ params, l.load false sources init order = .ok params) ↔
      ∀ size ∈ outputSizes, ChunkFits context size := by
  constructor
  · rintro ⟨params, hrun⟩ size hsize
    obtain ⟨k, hk, rfl⟩ := List.getElem_of_mem hsize
    have hreads := load_reads (I := l.Shaped)
      (Q := fun id _ => ∀ i (hi : i < outputSizes.length), id = .index i →
        ChunkFits context outputSizes[i]) (fun id hid p p' hp hload => ?_) perm.subset hinit hrun
    · exact hreads.2.1 (.index k) (perm.symm.subset (merged_index_mem hk)) k hk rfl
    · obtain ⟨i, hi, rfl, -⟩ := merged_mem hid
      refine ⟨merged_whole_shaped built plain hi hp hload, ?_, fun _ _ _ h => h⟩
      intro j hj hij
      obtain rfl := ShardId.index.inj hij
      exact (merged_whole_returns_iff built shaped plain hi hp).mp ⟨p', hload⟩
  · intro hfit
    refine load_returns (I := l.Shaped) (fun id hid p hp => ?_) hinit
    obtain ⟨i, hi, rfl, -⟩ := merged_mem (perm.subset hid)
    obtain ⟨p', hrun⟩ := (merged_whole_returns_iff built shaped plain hi hp).mpr
      (hfit _ (List.getElem_mem hi))
    exact ⟨p', hrun, merged_whole_shaped built plain hi hp hrun⟩

/-- The pieces of uneven sizes never load. -/
theorem merged_pieces_raise (uneven : ∃ size ∈ outputSizes, ¬ context.tpSize ∣ size)
    {order : List ShardId}
    (perm : order.Perm (LinearSpec.mergedColumn inputSize outputSizes).shards)
    (init : LinearParams R) : ∃ error, l.load true sources init order = .error error := by
  have hl := (columnBase_eq_ok built).2.2
  obtain ⟨size, hsize, hodd⟩ := uneven
  obtain ⟨k, hk, rfl⟩ := List.getElem_of_mem hsize
  refine load_raises (perm.symm.subset (merged_index_mem hk)) (merged_piece_raises (congrArg Linear.cls hl) ?_) init
  rw [← (merged_rows built shaped hk).1] at hodd
  rw [hl]
  exact hodd

omit shaped in
/-- Quantised, the whole sources do not load either. -/
theorem merged_quantized_load_raises (hq : quantized = true)
    (uneven : ∃ size ∈ outputSizes, ¬ context.tpSize ∣ size) {order : List ShardId}
    (perm : order.Perm (LinearSpec.mergedColumn inputSize outputSizes).shards)
    (init : LinearParams R) : ∃ error, l.load false sources init order = .error error := by
  have hl := (columnBase_eq_ok built).2.2
  obtain ⟨k, hk, -⟩ := List.getElem_of_mem uneven.choose_spec.1
  refine load_raises (perm.symm.subset (merged_index_mem hk)) (merged_quantized_raises
    (congrArg Linear.cls hl) ?_ ?_ sources false k) init
  · rw [hl]
    exact hq
  · rw [hl]
    exact uneven

omit shaped in
/-- An uneven merged layer that can load reads no equal shares. -/
theorem merged_uneven [Inhabited R] [Mul R]
    (uneven : ∃ size ∈ outputSizes, ¬ context.tpSize ∣ size) :
    (LoadsShares R (.mergedColumn inputSize outputSizes) l ↔
      quantized = true ∨ ∃ size ∈ outputSizes, ¬ ChunkFits context size) ∧
    (LoadsAlike R (.mergedColumn inputSize outputSizes) l ↔
      quantized = true ∨ ∃ size ∈ outputSizes, ¬ ChunkFits context size) := by
  have hl := (columnBase_eq_ok built).2.2
  by_cases hfine : quantized = true ∨ ∃ size ∈ outputSizes, ¬ ChunkFits context size
  · -- Every load raises.
    have hwhole : ∀ (sources : ShardId → Source R) init order,
        (LinearSpec.mergedColumn inputSize outputSizes).WellShaped l.quantized sources →
        l.Shaped init →
        order.Perm (LinearSpec.mergedColumn inputSize outputSizes).shards →
        ∃ error, l.load false sources init order = .error error := by
      intro sources init order hsources hinit horder
      by_cases hq : quantized = true
      · exact merged_quantized_load_raises built hq uneven horder init
      · obtain ⟨size, hsize, hunfit⟩ := hfine.resolve_left hq
        cases hrun : l.load false sources init order with
        | error error => exact ⟨error, rfl⟩
        | ok params =>
          exact absurd ((merged_load_returns_iff built hsources (Bool.eq_false_of_not_eq_true hq)
            horder hinit).mp ⟨params, hrun⟩ size hsize) hunfit
    refine ⟨iff_of_true (fun sources init params order sliced hsources hinit horder hrun => ?_)
      hfine, iff_of_true (fun sources init order hsources hinit horder => ?_) hfine⟩
    · cases sliced with
      | true =>
        obtain ⟨_, hraise⟩ := merged_pieces_raise built hsources uneven horder init
        rw [hrun] at hraise
        cases hraise
      | false =>
        obtain ⟨_, hraise⟩ := hwhole sources init order hsources hinit horder
        rw [hrun] at hraise
        cases hraise
    · obtain ⟨_, hpiece⟩ := merged_pieces_raise built hsources uneven horder init
      obtain ⟨_, hraise⟩ := hwhole sources init order hsources hinit horder
      rw [hpiece, hraise]
      rfl
  · -- The whole sources load.
    obtain ⟨hplain, hfit⟩ := not_or.mp hfine
    have hplain := Bool.eq_false_of_not_eq_true hplain
    have hfit : ∀ size ∈ outputSizes, ChunkFits context size := fun size hsize =>
      by_contra fun hunfit => hfit ⟨size, hsize, hunfit⟩
    have hsources := LinearSpec.sample_wellShaped (.mergedColumn inputSize outputSizes)
      l.quantized (fun _ _ => (default : R)) fun _ _ => default
    have hinit := l.blank_shaped (default : R)
    have horder := List.Perm.refl (LinearSpec.mergedColumn inputSize outputSizes).shards
    obtain ⟨params, hrun⟩ :=
      (merged_load_returns_iff built hsources hplain horder hinit).mpr hfit
    refine ⟨iff_of_false (fun hloads => ?_) hfine, iff_of_false (fun halike => ?_) hfine⟩
    · obtain ⟨size, hsize, hodd⟩ := uneven
      obtain ⟨k, hk, rfl⟩ := List.getElem_of_mem hsize
      apply hodd
      have hsplit := (hloads _ _ params _ false hsources hinit horder hrun (.index k)
        (merged_index_mem hk)).1
      rw [hl] at hsplit
      rw [← List.getD_eq_getElem _ 0 hk]
      exact hsplit
    · obtain ⟨_, hpiece⟩ := merged_pieces_raise built hsources uneven horder (l.blank default)
      have hsame := halike _ _ _ hsources hinit horder
      rw [hpiece, hrun] at hsame
      cases hsame

end Merged

/-! ## Every layer -/

section Layers

variable {spec : LinearSpec} {l : Linear}

theorem loadsShares_iff [MulZeroOneClass R] [Nontrivial R]
    (built : spec.construct context quantized = .ok l) :
    LoadsShares R spec l ↔ spec.LoadsSharesWhen context quantized := by
  cases spec with
  | column inputSize outputSize =>
    obtain ⟨rfl, rfl, rfl, hrange⟩ := column_rangeLayer (R := R) built
    cases hq : l.quantized with
    | false => exact iff_of_true (hrange.loadsShares_weight hq) trivial
    | true => exact ⟨hrange.scaleFits_of_loadsShares hq, hrange.loadsShares_of_scaleFits hq⟩
  | mergedColumn inputSize outputSizes =>
    by_cases heven : ∀ size ∈ outputSizes, context.tpSize ∣ size
    · refine iff_of_true (merged_packedLayer built heven).loadsShares ?_
      cases quantized with
      | false => exact Or.inl heven
      | true => trivial
    · have : Inhabited R := ⟨0⟩
      have huneven : ∃ size ∈ outputSizes, ¬ context.tpSize ∣ size := by simpa using heven
      refine (merged_uneven built huneven).1.trans ?_
      cases quantized with
      | false =>
        unfold LinearSpec.LoadsSharesWhen LinearSpec.MergedFits
        simp only [heven, Bool.false_eq_true, false_or]
      | true => exact iff_of_true (Or.inl rfl) trivial
  | qkv hiddenSize headSize totalNumHeads totalNumKvHeads =>
    obtain ⟨-, -, hpacked⟩ := qkv_packedLayer (R := R) built
    exact iff_of_true hpacked.loadsShares (by cases quantized <;> trivial)
  | replicatedKvQkv hiddenSize headSize totalNumHeads totalNumKvHeads =>
    obtain ⟨-, -, -, hpacked⟩ := replicatedKvQkv_packedLayer (R := R) built
    exact iff_of_true hpacked.loadsShares (by cases quantized <;> trivial)
  | row inputSize outputSize =>
    obtain ⟨rfl, rfl, rfl, hrange⟩ := row_rangeLayer (R := R) built
    cases hq : l.quantized with
    | false => exact iff_of_true (hrange.loadsShares_weight hq) trivial
    | true => exact ⟨hrange.scaleFits_of_loadsShares hq, hrange.loadsShares_of_scaleFits hq⟩

theorem loadsAlike_iff [MulZeroOneClass R] (built : spec.construct context quantized = .ok l) :
    LoadsAlike R spec l ↔ spec.LoadsAlikeWhen context quantized := by
  have : Inhabited R := ⟨0⟩
  cases spec with
  | column inputSize outputSize =>
    obtain ⟨rfl, rfl, rfl, hrange⟩ := column_rangeLayer (R := R) built
    cases hq : l.quantized with
    | false => exact iff_of_true (hrange.loadsAlike_weight hq) trivial
    | true => exact hrange.loadsAlike_iff hq
  | mergedColumn inputSize outputSizes =>
    by_cases heven : ∀ size ∈ outputSizes, context.tpSize ∣ size
    · refine iff_of_true (merged_packedLayer built heven).loadsAlike ?_
      cases quantized with
      | false => exact Or.inl heven
      | true => trivial
    · have huneven : ∃ size ∈ outputSizes, ¬ context.tpSize ∣ size := by simpa using heven
      refine (merged_uneven built huneven).2.trans ?_
      cases quantized with
      | false =>
        unfold LinearSpec.LoadsAlikeWhen LinearSpec.MergedFits
        simp only [heven, Bool.false_eq_true, false_or]
      | true => exact iff_of_true (Or.inl rfl) trivial
  | qkv hiddenSize headSize totalNumHeads totalNumKvHeads =>
    obtain ⟨-, -, hpacked⟩ := qkv_packedLayer (R := R) built
    exact iff_of_true hpacked.loadsAlike (by cases quantized <;> trivial)
  | replicatedKvQkv hiddenSize headSize totalNumHeads totalNumKvHeads =>
    obtain ⟨-, -, -, hpacked⟩ := replicatedKvQkv_packedLayer (R := R) built
    exact iff_of_true hpacked.loadsAlike (by cases quantized <;> trivial)
  | row inputSize outputSize =>
    obtain ⟨rfl, rfl, rfl, hrange⟩ := row_rangeLayer (R := R) built
    cases hq : l.quantized with
    | false => exact iff_of_true (hrange.loadsAlike_weight hq) trivial
    | true => exact hrange.loadsAlike_iff hq

/-! ### Who holds what -/

/-- The number of shares of a source of a built layer divides the size of the group. -/
theorem shareCount_dvd (built : spec.construct context quantized = .ok l) (id : ShardId) :
    spec.shareCount context.tpSize id ∣ context.tpSize := by
  cases spec with
  | replicatedKvQkv hiddenSize headSize totalNumHeads totalNumKvHeads =>
    have hdvd := (replicatedKvQkv_packedLayer (R := Nat) built).2.2.1
    cases id with
    | k | v => exact hdvd
    | none | index i | q => exact dvd_refl _
  | column inputSize outputSize | mergedColumn inputSize outputSizes
  | qkv hiddenSize headSize totalNumHeads totalNumKvHeads | row inputSize outputSize =>
    exact dvd_refl _

/-- A row is held by the ranks of its share. -/
theorem holds_iff {tp : Nat} {id : ShardId} (pos : 0 < tp) (split : spec.shareCount tp id ∣ tp)
    (even : spec.shareCount tp id ∣ spec.sourceSize id) {x : Nat} (hx : x < spec.sourceSize id)
    (rank : Nat) : Holds tp spec id rank x ↔
      x / spec.shareSize tp id * (tp / spec.shareCount tp id) ≤ rank ∧
        rank < x / spec.shareSize tp id * (tp / spec.shareCount tp id) +
          tp / spec.shareCount tp id := by
  have hcount : 0 < spec.shareCount tp id := Nat.pos_of_dvd_of_pos split pos
  have hcopies : 0 < tp / spec.shareCount tp id :=
    Nat.div_pos (Nat.le_of_dvd pos split) hcount
  have hshare : 0 < spec.shareSize tp id :=
    Nat.div_pos (Nat.le_of_dvd (Nat.zero_lt_of_lt hx) even) hcount
  have hindex : Holds tp spec id rank x ↔
      x / spec.shareSize tp id = rank / (tp / spec.shareCount tp id) := by
    unfold Holds LinearSpec.shareIndex
    rw [Nat.div_eq_iff hshare, Nat.add_mul]
    omega
  rw [hindex, eq_comm, Nat.div_eq_iff hcopies]
  omega

theorem heldByCopies (built : spec.construct context quantized = .ok l) :
    HeldByCopies context.tpSize spec := by
  intro id _ heven x hx
  have hsplit := shareCount_dvd built id
  have hcount := Nat.pos_of_dvd_of_pos hsplit context.tpSize_pos
  have hcopies : spec.copies context.tpSize id =
      context.tpSize / spec.shareCount context.tpSize id := by
    unfold LinearSpec.copies LinearSpec.shareCount
    split
    · rfl
    · rfl
    · exact (Nat.div_self context.tpSize_pos).symm
  have hshare : x / spec.shareSize context.tpSize id < spec.shareCount context.tpSize id := by
    refine Nat.div_lt_of_lt_mul ?_
    unfold LinearSpec.shareSize
    rw [Nat.div_mul_cancel heven]
    exact hx
  refine ⟨x / spec.shareSize context.tpSize id * spec.copies context.tpSize id, ?_, fun rank _ => ?_⟩
  · have hle := Nat.mul_le_mul_right (context.tpSize / spec.shareCount context.tpSize id) hshare
    rw [Nat.mul_div_cancel' hsplit, Nat.succ_mul] at hle
    rw [hcopies]
    exact hle
  · rw [hcopies]
    exact holds_iff context.tpSize_pos hsplit heven hx rank

/-- When the loaders of a layer reconstruct its weight. Every load raises or leaves the rank's shares
of the dequantised sources, unless an FP8 `ColumnParallelLinear` or `RowParallelLinear` cuts its
scale at another place than its weight, or an unquantised `MergedColumnParallelLinear` rounds an
uneven size and the copy happens to fit. The pieces and the whole sources load alike, unless in
those two classes the piece of a single FP8 block is cut. And each row of an evenly split source is
held once, or by the consecutive ranks of a replicated KV head. -/
theorem linear_reconstructs_iff [MulZeroOneClass R] [Nontrivial R]
    (built : spec.construct context quantized = .ok l) :
    (LoadsShares R spec l ↔ spec.LoadsSharesWhen context quantized) ∧
      (LoadsAlike R spec l ↔ spec.LoadsAlikeWhen context quantized) ∧
      HeldByCopies context.tpSize spec :=
  ⟨loadsShares_iff built, loadsAlike_iff built, heldByCopies built⟩

theorem linear_reconstructs_iff_qkv :
    ∃ l, (LinearSpec.qkv 256 128 4 2).construct ⟨2, 1, by decide⟩ true = .ok l ∧
      LoadsShares Int (.qkv 256 128 4 2) l ∧ LoadsAlike Int (.qkv 256 128 4 2) l := by
  have built : (LinearSpec.qkv 256 128 4 2).construct ⟨2, 1, by decide⟩ true = .ok _ := rfl
  have hparts := linear_reconstructs_iff (R := Int) built
  exact ⟨_, built, hparts.1.mpr trivial, hparts.2.1.mpr trivial⟩

/-- A weight of ones with the scale 0 in its first block and 1 in its second. -/
def twoBlocks : ShardId → Source Int :=
  (LinearSpec.column 128 192).sample (fun _ _ => 1) fun a _ => a

/-- The last of two ranks holds the columns of the outputs from 96 on, with the scale of the second
block: the output 96 is in the first. -/
theorem column_takes_another_block :
    ∃ (l : Linear) (params : LinearParams Int),
      (LinearSpec.column 128 192).construct ⟨2, 1, by decide⟩ true = .ok l ∧
      l.load false twoBlocks (l.blank 0) [.none] = .ok params ∧
      dequantized .row true params.weight params.scale 0 0 = 1 ∧
      dequantized .row true (twoBlocks .none).weight (twoBlocks .none).scale 96 0 = 0 ∧
      ¬ LoadsShares Int (.column 128 192) l := by
  have built : (LinearSpec.column 128 192).construct ⟨2, 1, by decide⟩ true = .ok _ := rfl
  refine ⟨_, _, built, rfl, by decide, by decide, ?_⟩
  rw [loadsShares_iff built]
  show ¬ (_ ∨ _ ∨ _)
  decide

end Layers

end SparseVllm
