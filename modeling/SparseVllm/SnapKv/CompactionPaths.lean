import Mathlib.Data.List.Zip
import SparseVllm.SnapKv.Compaction

/-!
# The paths of compaction (`cache_manager/snapkv.py`)

`free_part_slots` compacts one row of one layer, `free_part_slots_batch` a batch of rows of a layer,
`free_part_slots_batch_layers` a batch in several layers, and `free_prefix_recent_slots_batch_layers`
the same for the keep set of a prefix and the recent tokens. The batched forms read the rows first
and check them all, then work in tiles of layers, of rows or of columns, or row by row when the
lengths differ.

Whether the layers' tables are views of one tensor (`common_views_match`) is an input. A tensor of
keep indices is rectangular.

## Results

* `freePartSlots_spec`, `freePartSlotsBatch_spec`: the rows are compacted, and no other layer changes.
-/

namespace SparseVllm

open SparseVllm.Lib

/-- `keep_indices` of a batch. -/
structure KeepTable where
  keepCount : Nat
  rows : List (List Int)
  rect : ∀ row ∈ rows, row.length = keepCount

/-- `keep_indices` of a batch in several layers. -/
structure KeepTensor where
  keepCount : Nat
  batch : Nat
  tables : List KeepTable
  rect : ∀ table ∈ tables, table.keepCount = keepCount ∧ table.rows.length = batch

namespace SlotLayer

/-- The rows of a batch with their lengths. -/
def mappedRows (seqIds : List Nat) : EStateM CompactionError SlotLayer (List (Nat × Nat)) :=
  mapEach seqIds fun seqId => do
    let rowIdx ← mappedRow seqId
    let l ← get
    pure (rowIdx, l.rowSeqLens rowIdx)

/-- `_prepare_free_part_slots`. -/
def prepareFreePartSlots (cfg : SlotConfig) (layerIdx seqId : Nat) (keepIndices : List Int)
    (keepIndicesSorted : Bool) : EStateM CompactionError SlotLayer (Nat × Nat × List Int) := do
  raiseIf (layerIdx ∉ cfg.kvLayers) (.notKvLayer layerIdx)
  let rowIdx ← mappedRow seqId
  let l ← get
  let curLen := l.rowSeqLens rowIdx
  raiseIf (keepIndices.length = 0) (.emptyKeep .freePartSlots)
  let keep ← prepareKeep .freePartSlots keepIndicesSorted [(keepIndices, curLen)]
  preflightCompactionFreeCapacity .freePartSlots layerIdx (curLen - (keep.headD []).length)
  pure (rowIdx, curLen, keep.headD [])

/-- `sum(cur_len - keep_count for cur_len in cur_lens)`. -/
def releaseCount (rows : List (Nat × Nat)) (keepCount : Nat) : Int :=
  (rows.map fun p => (p.2 : Int) - keepCount).sum

/-- The page-table writes of `free_prefix_recent_slots_batch_layers` to one row. -/
def keepPrefixRecent (sinkEnd recentStart kvLen : Nat) (row : List Nat) : List Nat :=
  let newLen := sinkEnd + (kvLen - recentStart)
  let moved :=
    if recentStart < kvLen then overwrite sinkEnd (between recentStart kvLen row) row else row
  overwrite newLen (List.replicate (kvLen - newLen) 0) moved

/-- The page-table writes of `free_prefix_recent_slots_batch_layers` to a layer. -/
def writePrefixRecent (sinkEnd recentStart kvLen : Nat) (rowIndices : List Nat)
    (l : SlotLayer) : SlotLayer :=
  { l with
    bufferReqToTokenSlots := scatter (fun (_ : Unit) row => keepPrefixRecent sinkEnd recentStart kvLen row)
      (rowIndices.map fun row => (row, ())) l.bufferReqToTokenSlots
    rowSeqLens := fun row =>
      if row ∈ rowIndices then sinkEnd + (kvLen - recentStart) else l.rowSeqLens row }

/-- `free_slots_stack[layer][ptr : ptr + drop_count] = dropped`, the pointer left. -/
def writeStack (dropped : List Nat) : EStateM CompactionError SlotLayer Unit := do
  let l ← get
  raiseIf (l.freeSlotsStack.length < l.numFreeSlots + dropped.length) .sliceMismatch
  set { l with freeSlotsStack := overwrite l.numFreeSlots dropped l.freeSlotsStack }

end SlotLayer

/-! ## The methods -/

namespace SlotTables

open SlotLayer

variable (cfg : SlotConfig)

/-- `_uniform_decode_metadata = False`. -/
def clearUniform : EStateM CompactionError SlotTables Unit :=
  modify fun t => { t with uniformDecodeMetadata := false }

/-- `free_part_slots`. -/
def freePartSlots (layerIdx seqId : Nat) (keepIndices : List Int) (keepIndicesSorted : Bool) :
    EStateM CompactionError SlotTables Unit := do
  let (rowIdx, curLen, keep) ← onLayer layerIdx
    (prepareFreePartSlots cfg layerIdx seqId keepIndices keepIndicesSorted)
  clearUniform
  onLayer layerIdx (applyFreePartSlots rowIdx curLen (keep.map Int.toNat))

/-- `free_part_slots_batch`, from the second row on: the rows are read and checked, then compacted. -/
def compactBatch (layerIdx : Nat) (seqIds : List Nat) (keepIndices : KeepTable)
    (keepIndicesSorted : Bool) : EStateM CompactionError SlotTables Unit := do
  let rows ← onLayer layerIdx (mappedRows seqIds)
  raiseIf (¬ (rows.map Prod.fst).Nodup)
    (.duplicateRows .freePartSlotsBatch layerIdx (rows.map Prod.fst))
  let keep ← prepareKeep .freePartSlotsBatch keepIndicesSorted
    (keepIndices.rows.zip (rows.map Prod.snd))
  onLayer layerIdx (preflightCompactionFreeCapacity .freePartSlotsBatch layerIdx
    (releaseCount rows keepIndices.keepCount))
  clearUniform
  let firstLen := (rows.map Prod.snd).headD 0
  if ∃ curLen ∈ rows.map Prod.snd, curLen ≠ firstLen then
    forEach (seqIds.zip keep) fun p => freePartSlots cfg layerIdx p.1 p.2 true
  else
    onLayer layerIdx (compactUniformRowsBounded cfg (rows.map Prod.fst) firstLen
      (keep.map fun row => row.map Int.toNat))

/-- `free_part_slots_batch`. -/
def freePartSlotsBatch (layerIdx : Nat) (seqIds : List Nat) (keepIndices : KeepTable)
    (keepIndicesSorted : Bool) : EStateM CompactionError SlotTables Unit :=
  if seqIds = [] then pure ()
  else do
    raiseIf (layerIdx ∉ cfg.kvLayers) (.notKvLayer layerIdx)
    raiseIf (keepIndices.rows.length ≠ seqIds.length) (.keepShape .freePartSlotsBatch)
    raiseIf (keepIndices.keepCount = 0) (.emptyKeep .freePartSlotsBatch)
    match seqIds, keepIndices.rows with
    | [seqId], [keep] => freePartSlots cfg layerIdx seqId keep keepIndicesSorted
    | _, _ => compactBatch cfg layerIdx seqIds keepIndices keepIndicesSorted

/-- `_compact_uniform_layer_tile`: all rows of all layers are read before the first write. -/
def compactUniformLayerTile (layerIndices : List Nat) (rowIndices : List (List Nat))
    (curLen : Nat) (keepIndices : List (List (List Nat))) :
    EStateM CompactionError SlotTables Unit := do
  let t ← get
  let oldSlots := (layerIndices.zip rowIndices).map fun p =>
    p.2.map fun row => ((t.layers p.1).bufferReqToTokenSlots row).take curLen
  let newSlots := List.zipWith (List.zipWith (gather 0)) keepIndices oldSlots
  let droppedPerLayer := List.zipWith
    (fun keep old => (List.zipWith (without 0) keep old).flatten) keepIndices oldSlots
  forEach (layerIndices.zip droppedPerLayer) fun p =>
    onLayer p.1 (appendCompactionFreeSlots p.2)
  let newLen := ((newSlots.headD []).headD []).length
  forEach (layerIndices.zip (rowIndices.zip newSlots)) fun p =>
    onLayer p.1 (modify (writeRows newLen p.2.1 p.2.2))

/-- `free_part_slots_batch_layers`, from the second layer on. -/
def compactBatchLayers (commonViewsMatch : Bool) (layerIndices seqIds : List Nat)
    (keepIndices : KeepTensor) (keepIndicesSorted : Bool) :
    EStateM CompactionError SlotTables Unit := do
  let rows ← mapEach layerIndices fun layer => onLayer layer (mappedRows seqIds)
  forEach (layerIndices.zip rows) fun p => raiseIf (¬ (p.2.map Prod.fst).Nodup)
    (.duplicateRows .freePartSlotsBatchLayers p.1 (p.2.map Prod.fst))
  let _ ← prepareKeep .freePartSlotsBatchLayers keepIndicesSorted
    (List.zipWith (fun table row => table.rows.zip (row.map Prod.snd))
      keepIndices.tables rows).flatten
  -- the result in the shape of the tensor
  let keep := keepIndices.tables.map fun table => table.rows.map (sortedKeep keepIndicesSorted)
  forEach (layerIndices.zip rows) fun p => onLayer p.1
    (preflightCompactionFreeCapacity .freePartSlotsBatchLayers p.1
      (releaseCount p.2 keepIndices.keepCount))
  clearUniform
  let curLen := ((rows.headD []).map Prod.snd).headD 0
  let elementsPerLayer := seqIds.length * curLen
  if commonViewsMatch = true ∧ (∀ row ∈ rows, ∀ p ∈ row, p.2 = curLen) ∧
      elementsPerLayer ≤ cfg.tileElements then
    let layersPerTile := max 1 (cfg.tileElements / max 1 elementsPerLayer)
    forEach (tiles layerIndices.length layersPerTile) fun tile =>
      compactUniformLayerTile (between tile.1 tile.2 layerIndices)
        (between tile.1 tile.2 (rows.map fun row => row.map Prod.fst)) curLen
        (between tile.1 tile.2 (keep.map fun table => table.map fun row => row.map Int.toNat))
  else
    forEach (layerIndices.zip (rows.zip keep)) fun p =>
      let curLen := (p.2.1.map Prod.snd).headD 0
      if ∀ row ∈ p.2.1, row.2 = curLen then
        onLayer p.1 (compactUniformRowsBounded cfg (p.2.1.map Prod.fst) curLen
          (p.2.2.map fun row => row.map Int.toNat))
      else
        forEach (seqIds.zip p.2.2) fun q => freePartSlots cfg p.1 q.1 q.2 true

/-- `free_part_slots_batch_layers`. -/
def freePartSlotsBatchLayers (commonViewsMatch : Bool) (layerIndices seqIds : List Nat)
    (keepIndices : KeepTensor) (keepIndicesSorted : Bool) :
    EStateM CompactionError SlotTables Unit :=
  if layerIndices = [] ∨ seqIds = [] then pure ()
  else do
    forEach layerIndices fun layer => raiseIf (layer ∉ cfg.kvLayers) (.notKvLayer layer)
    raiseIf (keepIndices.tables.length ≠ layerIndices.length ∨ keepIndices.batch ≠ seqIds.length)
      (.keepShape .freePartSlotsBatchLayers)
    raiseIf (keepIndices.keepCount = 0) (.emptyKeep .freePartSlotsBatchLayers)
    raiseIf (¬ layerIndices.Nodup) (.duplicateLayers layerIndices)
    match layerIndices, keepIndices.tables with
    | [layer], [table] => freePartSlotsBatch cfg layer seqIds table keepIndicesSorted
    | _, _ =>
      compactBatchLayers cfg commonViewsMatch layerIndices seqIds keepIndices keepIndicesSorted

/-- `free_prefix_recent_slots_batch_layers`. -/
def freePrefixRecentSlotsBatchLayers (layerIndices seqIds : List Nat)
    (kvLen sinkKeepTokens recentKeepTokens : Nat) : EStateM CompactionError SlotTables Unit :=
  if layerIndices = [] ∨ seqIds = [] then pure ()
  else do
    forEach layerIndices fun layer => raiseIf (layer ∉ cfg.kvLayers) (.notKvLayer layer)
    clearUniform
    let sinkEnd := min sinkKeepTokens kvLen
    let recentStart := max sinkEnd (kvLen - recentKeepTokens)
    let newLen := sinkEnd + (kvLen - recentStart)
    raiseIf (newLen = 0) .keepsNothing
    if kvLen ≤ newLen then pure ()
    else do
      let rows ← mapEach layerIndices fun layer => onLayer layer (mappedRows seqIds)
      raiseIf (∃ row ∈ rows, ∃ p ∈ row, p.2 ≠ kvLen) (.unevenRows kvLen)
      let t ← get
      let droppedPerLayer := (layerIndices.zip rows).map fun p =>
        p.2.flatMap fun q => between sinkEnd recentStart ((t.layers p.1).bufferReqToTokenSlots q.1)
      let dropCount := seqIds.length * (recentStart - sinkEnd)
      if 0 < dropCount then do
        -- one indexed write of the stack tensor checks all layers first
        raiseIf (cfg.hasStackTensor = true ∧ ∃ layer ∈ layerIndices,
          (t.layers layer).freeSlotsStack.length < (t.layers layer).numFreeSlots + dropCount)
          .sliceMismatch
        forEach (layerIndices.zip droppedPerLayer) fun p => onLayer p.1 (writeStack p.2)
        forEach layerIndices fun layer => onLayer layer
          (modify fun l => { l with numFreeSlots := l.numFreeSlots + dropCount })
      else pure ()
      forEach (layerIndices.zip rows) fun p => onLayer p.1
        (modify (writePrefixRecent sinkEnd recentStart kvLen (p.2.map Prod.fst)))

end SlotTables

/-! ## What a call does -/

namespace SlotLayer

variable {l l' : SlotLayer}

/-- The row of a sequence that has one. -/
def rowOf (l : SlotLayer) (seqId : Nat) : Nat := (l.seqIdToRow.get? seqId).getD 0

/-- The rows of a batch with the positions each keeps. -/
def jobs (l : SlotLayer) (seqIds : List Nat) (keep : List (List Int)) : List (Nat × List Nat) :=
  (seqIds.zip keep).map fun q => (l.rowOf q.1, q.2.map Int.toNat)

/-- The positions increase and are in the row of the sequence. -/
structure Keepable (l : SlotLayer) (seqId : Nat) (keep : List Int) : Prop where
  mapped : l.seqIdToRow.get? seqId = some (l.rowOf seqId)
  ne_nil : keep ≠ []
  increasing : keep.Pairwise (· < ·)
  inRange : ∀ i ∈ keep, 0 ≤ i ∧ i < l.rowSeqLens (l.rowOf seqId)

theorem Keepable.of_same {seqId : Nat} {keep : List Int} (h : Keepable l seqId keep)
    (hmap : l'.seqIdToRow = l.seqIdToRow)
    (hlen : l'.rowSeqLens (l.rowOf seqId) = l.rowSeqLens (l.rowOf seqId)) :
    Keepable l' seqId keep := by
  have hrow : l'.rowOf seqId = l.rowOf seqId := by
    unfold rowOf
    rw [hmap]
  refine ⟨?_, h.ne_nil, h.increasing, ?_⟩
  · rw [hmap, hrow]
    exact h.mapped
  · rw [hrow, hlen]
    exact h.inRange

theorem sortedKeep_of_increasing {keep : List Int} (h : keep.Pairwise (· < ·)) (sorted : Bool) :
    sortedKeep sorted keep = keep := by
  unfold sortedKeep
  split
  · rfl
  · exact List.mergeSort_of_pairwise (h.imp fun hlt => decide_eq_true hlt.le)

/-- Increasing positions in range pass the validation. -/
theorem prepareKeep_ok {σ : Type} {op : CompactionOp} {sorted : Bool} {rows : List (List Int × Nat)}
    (hrows : ∀ row ∈ rows, row.1.Pairwise (· < ·) ∧ ∀ i ∈ row.1, 0 ≤ i ∧ i < row.2) (s : σ) :
    prepareKeep op sorted rows s = .ok (rows.map Prod.fst) s := by
  have hkeep : (rows.map fun row => sortedKeep sorted row.1) = rows.map Prod.fst :=
    List.map_congr_left fun row hrow => sortedKeep_of_increasing (hrows row hrow).1 sorted
  have hprepared : prepareCompactionKeepIndices sorted rows = .ok (rows.map Prod.fst) := by
    unfold prepareCompactionKeepIndices
    rw [hkeep, if_neg, if_neg]
    · rintro ⟨keep, hmem, hchain⟩
      obtain ⟨row, hrow, rfl⟩ := List.mem_map.mp hmem
      exact hchain (hrows row hrow).1.isChain
    · rintro ⟨row, hrow, i, hi, hrange⟩
      exact hrange ((hrows row hrow).2 i hi)
  unfold prepareKeep
  rw [hprepared]
  rfl

section Jobs

variable {seqIds : List Nat} {keep : List (List Int)}

theorem jobs_fst (hlen : keep.length = seqIds.length) :
    (l.jobs seqIds keep).map Prod.fst = seqIds.map l.rowOf :=
  calc (l.jobs seqIds keep).map Prod.fst
    _ = ((seqIds.zip keep).map Prod.fst).map l.rowOf := by
      unfold jobs
      rw [List.map_map, List.map_map]
      rfl
    _ = seqIds.map l.rowOf := congrArg _ (List.map_fst_zip hlen.ge)

theorem jobs_snd (hlen : keep.length = seqIds.length) :
    (l.jobs seqIds keep).map Prod.snd = keep.map fun row => row.map Int.toNat :=
  calc (l.jobs seqIds keep).map Prod.snd
    _ = ((seqIds.zip keep).map Prod.snd).map fun row => row.map Int.toNat := by
      unfold jobs
      rw [List.map_map, List.map_map]
      rfl
    _ = keep.map fun row => row.map Int.toNat := congrArg _ (List.map_snd_zip hlen.le)

/-- What the rows release, of which each keeps `n`. -/
theorem releaseCount_jobs {jobs : List (Nat × List Nat)} {n : Nat} (lens : Nat → Nat)
    (hjobs : ∀ p ∈ jobs, p.2.length = n ∧ n ≤ lens p.1) :
    releaseCount ((jobs.map Prod.fst).map fun row => (row, lens row)) n =
      ((jobs.map fun p => lens p.1 - p.2.length).sum : Nat) := by
  induction jobs with
  | nil => rfl
  | cons p jobs ih =>
    obtain ⟨hlen, hle⟩ := hjobs p List.mem_cons_self
    have hrest := ih fun q hq => hjobs q (List.mem_cons_of_mem p hq)
    unfold releaseCount at hrest ⊢
    rw [List.map_cons, List.map_cons, List.map_cons, List.sum_cons, List.map_cons, List.sum_cons,
      hrest, hlen]
    push_cast
    omega

end Jobs

theorem mappedRow_ok {seqId : Nat} (h : l.seqIdToRow.get? seqId = some (l.rowOf seqId)) :
    mappedRow seqId l = .ok (l.rowOf seqId) l := by
  unfold mappedRow
  rw [get_bind, h]
  rfl

theorem mappedRows_ok {seqIds : List Nat}
    (h : ∀ s ∈ seqIds, l.seqIdToRow.get? s = some (l.rowOf s)) :
    mappedRows seqIds l = .ok (seqIds.map fun s => (l.rowOf s, l.rowSeqLens (l.rowOf s))) l := by
  refine mapEach_ok fun s hs => ?_
  rw [bind_ok (mappedRow_ok (h s hs)), get_bind]
  rfl

theorem preflight_ok {op : CompactionOp} {layerIdx : Nat} {release : Int} (hpos : 0 ≤ release)
    (hroom : (l.numFreeSlots : Int) + release ≤ l.freeSlotsStack.length) :
    preflightCompactionFreeCapacity op layerIdx release l = .ok () l := by
  unfold preflightCompactionFreeCapacity raiseIf
  rw [get_bind, if_neg (by omega)]
  rfl

end SlotLayer

namespace SlotTables

open SlotLayer

variable {cfg : SlotConfig} {t t' t₁ t₂ : SlotTables} {layerIdx : Nat}

/-- Each layer of the work is compacted, and no other layer is touched. -/
structure Compacted (t t' : SlotTables) (work : List (Nat × List (Nat × List Nat))) : Prop where
  layer : ∀ w ∈ work, RowsCompacted (t.layers w.1) (t'.layers w.1) w.2
  other : ∀ i ∉ work.map Prod.fst, t'.layers i = t.layers i

/-- The tables after one layer's compaction. -/
theorem compacted_setLayers {l : SlotLayer} {work : List (Nat × List Nat)}
    (hlayers : t₁.layers = t.layers) (h : RowsCompacted (t.layers layerIdx) l work) :
    Compacted t (t₁.setLayers [layerIdx] fun _ => l) [(layerIdx, work)] := by
  constructor
  · intro w hw
    obtain rfl := List.mem_singleton.mp hw
    rw [setLayers_of_mem List.mem_cons_self]
    exact h
  · intro i hi
    have hne : i ∉ [layerIdx] := hi
    rw [setLayers_of_notMem hne, hlayers]

theorem freePartSlots_spec {seqId : Nat} {keep : List Int} (sorted : Bool)
    (hlayer : layerIdx ∈ cfg.kvLayers) (hkeep : Keepable (t.layers layerIdx) seqId keep)
    (hready : SlotLayer.Ready (t.layers layerIdx)
      [((t.layers layerIdx).rowOf seqId, keep.map Int.toNat)]) :
    Spec (· = t) (freePartSlots cfg layerIdx seqId keep sorted)
      (fun _ t' => Compacted t t'
        [(layerIdx, [((t.layers layerIdx).rowOf seqId, keep.map Int.toNat)])])
      fun _ _ => False := by
  have hmem : ((t.layers layerIdx).rowOf seqId, keep.map Int.toNat) ∈
      [((t.layers layerIdx).rowOf seqId, keep.map Int.toNat)] := List.mem_singleton_self _
  have hlen : keep.length ≤ (t.layers layerIdx).rowSeqLens ((t.layers layerIdx).rowOf seqId) := by
    have h := length_le_of_nodup (hready.nodup hmem) (hready.inRange _ hmem)
    rwa [List.length_map] at h
  have hroom := hready.room
  rw [List.map_singleton, List.sum_singleton, List.length_map] at hroom
  dsimp only at hroom
  have hprepared : prepareFreePartSlots cfg layerIdx seqId keep sorted (t.layers layerIdx) =
      .ok ((t.layers layerIdx).rowOf seqId,
        (t.layers layerIdx).rowSeqLens ((t.layers layerIdx).rowOf seqId), keep)
        (t.layers layerIdx) := by
    have hvalid : prepareKeep (σ := SlotLayer) .freePartSlots sorted
        [(keep, (t.layers layerIdx).rowSeqLens ((t.layers layerIdx).rowOf seqId))] _ =
          .ok [keep] (t.layers layerIdx) :=
      prepareKeep_ok (fun row hrow => by
        obtain rfl := List.mem_singleton.mp hrow
        exact ⟨hkeep.increasing, hkeep.inRange⟩) _
    have hrelease : (0 : Int) ≤
        (t.layers layerIdx).rowSeqLens ((t.layers layerIdx).rowOf seqId) - keep.length := by
      omega
    have hfits : ((t.layers layerIdx).numFreeSlots : Int) +
        ((t.layers layerIdx).rowSeqLens ((t.layers layerIdx).rowOf seqId) - keep.length) ≤
          (t.layers layerIdx).freeSlotsStack.length := by
      omega
    unfold prepareFreePartSlots
    rw [raiseIf_bind, if_neg (not_not.mpr hlayer), bind_ok (mappedRow_ok hkeep.mapped), get_bind,
      raiseIf_bind, if_neg (by simpa using hkeep.ne_nil), bind_ok hvalid,
      List.headD_cons, bind_ok (preflight_ok hrelease hfits)]
    rfl
  have hrun : freePartSlots cfg layerIdx seqId keep sorted t =
      onLayer layerIdx (applyFreePartSlots ((t.layers layerIdx).rowOf seqId)
        ((t.layers layerIdx).rowSeqLens ((t.layers layerIdx).rowOf seqId)) (keep.map Int.toNat))
        { t with uniformDecodeMetadata := false } := by
    unfold freePartSlots
    rw [bind_ok (onLayer_ok hprepared), setLayers_self rfl]
    rfl
  have happly := onLayer_spec (t := { t with uniformDecodeMetadata := false })
    (applyFreePartSlots_spec hready)
  rintro _ rfl
  rw [hrun]
  refine happly.post (fun _ t' h => ?_) _ rfl
  obtain ⟨l, hl, rfl⟩ := h
  exact compacted_setLayers rfl hl

/-! ### One layer -/

theorem Compacted.append {a b : List (Nat × List Nat)} (h₁ : Compacted t t₁ [(layerIdx, a)])
    (h₂ : Compacted t₁ t₂ [(layerIdx, b)]) (hrows : ((a ++ b).map Prod.fst).Nodup) :
    Compacted t t₂ [(layerIdx, a ++ b)] := by
  constructor
  · intro w hw
    obtain rfl := List.mem_singleton.mp hw
    exact (h₁.layer _ List.mem_cons_self).trans (h₂.layer _ List.mem_cons_self) hrows
  · intro i hi
    exact (h₂.other i hi).trans (h₁.other i hi)

/-- Rows of different lengths, one after another. -/
theorem forEach_freePartSlots_spec {items : List (Nat × List Int)}
    (hlayer : layerIdx ∈ cfg.kvLayers)
    (hkeep : ∀ q ∈ items, Keepable (t.layers layerIdx) q.1 q.2)
    (hready : SlotLayer.Ready (t.layers layerIdx)
      (items.map fun q => ((t.layers layerIdx).rowOf q.1, q.2.map Int.toNat))) :
    Spec (· = t) (forEach items fun q => freePartSlots cfg layerIdx q.1 q.2 true)
      (fun _ t' => Compacted t t' [(layerIdx,
        items.map fun q => ((t.layers layerIdx).rowOf q.1, q.2.map Int.toNat))])
      fun _ _ => False := by
  induction items generalizing t with
  | nil =>
    rintro _ rfl
    constructor
    · intro w hw
      obtain rfl := List.mem_singleton.mp hw
      exact RowsCompacted.refl hready.ptr_le
    · exact fun _ _ => rfl
  | cons q items ih =>
    have hsplit : SlotLayer.Ready (t.layers layerIdx)
      ([((t.layers layerIdx).rowOf q.1, q.2.map Int.toNat)] ++
        items.map fun q => ((t.layers layerIdx).rowOf q.1, q.2.map Int.toNat)) := hready
    have hfirst := freePartSlots_spec true hlayer (hkeep q List.mem_cons_self) hsplit.left
    refine Spec.bind hfirst fun _ => Spec.intro fun t₁ h₁ => ?_
    have hrows := h₁.layer _ List.mem_cons_self
    have hmap : ∀ s, (t₁.layers layerIdx).rowOf s = (t.layers layerIdx).rowOf s := by
      intro s
      unfold rowOf
      rw [hrows.rowMap.1]
    have hrest := hrows.rest hsplit
    have hnext := ih (t := t₁) (fun p hp => ?_) (by simpa only [hmap] using hrest)
    · refine hnext.post fun _ t' h₂ => ?_
      simp only [hmap] at h₂
      exact h₁.append h₂ hsplit.rows
    · refine (hkeep p (List.mem_cons_of_mem q hp)).of_same hrows.rowMap.1 ?_
      exact (hrows.restRow hsplit.rows (List.mem_map_of_mem hp)).2

/-- A batch of rows of a layer that can be compacted. -/
structure ValidBatch (cfg : SlotConfig) (layerIdx : Nat) (l : SlotLayer) (seqIds : List Nat)
    (table : KeepTable) : Prop where
  kvLayer : layerIdx ∈ cfg.kvLayers
  seqs_ne : seqIds ≠ []
  shape : table.rows.length = seqIds.length
  keep : ∀ q ∈ seqIds.zip table.rows, Keepable l q.1 q.2
  ready : SlotLayer.Ready l (l.jobs seqIds table.rows)

namespace ValidBatch

variable {l : SlotLayer} {seqIds : List Nat} {table : KeepTable}

theorem exists_keep (h : ValidBatch cfg layerIdx l seqIds table) {s : Nat} (hs : s ∈ seqIds) :
    ∃ keep, (s, keep) ∈ seqIds.zip table.rows := by
  have hzip : (seqIds.zip table.rows).map Prod.fst = seqIds := List.map_fst_zip h.shape.ge
  rw [← hzip] at hs
  obtain ⟨q, hq, rfl⟩ := List.mem_map.mp hs
  exact ⟨q.2, hq⟩

theorem mapped (h : ValidBatch cfg layerIdx l seqIds table) {s : Nat} (hs : s ∈ seqIds) :
    l.seqIdToRow.get? s = some (l.rowOf s) := by
  obtain ⟨keep, hmem⟩ := h.exists_keep hs
  exact (h.keep _ hmem).mapped

theorem keepCount_pos (h : ValidBatch cfg layerIdx l seqIds table) : table.keepCount ≠ 0 := by
  obtain ⟨s, hs⟩ := List.exists_mem_of_ne_nil seqIds h.seqs_ne
  obtain ⟨keep, hmem⟩ := h.exists_keep hs
  rw [← table.rect keep (List.of_mem_zip hmem).2]
  exact fun hzero => (h.keep _ hmem).ne_nil (List.length_eq_zero_iff.mp hzero)

theorem keepCount_le (h : ValidBatch cfg layerIdx l seqIds table) :
    ∀ p ∈ l.jobs seqIds table.rows,
      p.2.length = table.keepCount ∧ table.keepCount ≤ l.rowSeqLens p.1 := by
  intro p hp
  have hle := length_le_of_nodup (h.ready.nodup hp) (h.ready.inRange p hp)
  obtain ⟨q, hq, rfl⟩ := List.mem_map.mp hp
  have hlen : (q.2.map Int.toNat).length = table.keepCount := by
    rw [List.length_map]
    exact table.rect q.2 (List.of_mem_zip hq).2
  exact ⟨hlen, hlen ▸ hle⟩

theorem rows_eq (h : ValidBatch cfg layerIdx l seqIds table) :
    (seqIds.map fun s => (l.rowOf s, l.rowSeqLens (l.rowOf s))) =
      ((l.jobs seqIds table.rows).map Prod.fst).map fun row => (row, l.rowSeqLens row) := by
  rw [jobs_fst h.shape, List.map_map]
  rfl

theorem mappedRows_ok (h : ValidBatch cfg layerIdx l seqIds table) :
    mappedRows seqIds l =
      .ok (((l.jobs seqIds table.rows).map Prod.fst).map fun row => (row, l.rowSeqLens row)) l := by
  rw [← h.rows_eq]
  exact SlotLayer.mappedRows_ok fun s hs => h.mapped hs

/-- The positions of each row with its length. -/
theorem zip_lens (h : ValidBatch cfg layerIdx l seqIds table) :
    table.rows.zip ((((l.jobs seqIds table.rows).map Prod.fst).map fun row =>
      (row, l.rowSeqLens row)).map Prod.snd) =
      (seqIds.zip table.rows).map fun q => (q.2, l.rowSeqLens (l.rowOf q.1)) := by
  rw [jobs_fst h.shape, List.map_map, List.map_map, List.zip_map_right, ← List.zip_swap,
    List.map_map]
  rfl

theorem prepareKeep_ok (h : ValidBatch cfg layerIdx l seqIds table) {σ : Type} {op : CompactionOp}
    {sorted : Bool} (s : σ) :
    prepareKeep op sorted (table.rows.zip ((((l.jobs seqIds table.rows).map Prod.fst).map
      fun row => (row, l.rowSeqLens row)).map Prod.snd)) s = .ok table.rows s := by
  have hvalid : prepareKeep op sorted
      ((seqIds.zip table.rows).map fun q => (q.2, l.rowSeqLens (l.rowOf q.1))) s = _ :=
    SlotLayer.prepareKeep_ok (fun row hrow => by
      obtain ⟨q, hq, rfl⟩ := List.mem_map.mp hrow
      exact ⟨(h.keep q hq).increasing, (h.keep q hq).inRange⟩) s
  rw [h.zip_lens, hvalid, List.map_map]
  exact congrArg (EStateM.Result.ok · s) (List.map_snd_zip h.shape.le)

/-- The release fits the stack. -/
theorem preflight_ok (h : ValidBatch cfg layerIdx l seqIds table) (op : CompactionOp) :
    preflightCompactionFreeCapacity op layerIdx
      (releaseCount (((l.jobs seqIds table.rows).map Prod.fst).map fun row =>
        (row, l.rowSeqLens row)) table.keepCount) l = .ok () l := by
  have hroom := h.ready.room
  rw [releaseCount_jobs l.rowSeqLens h.keepCount_le]
  exact SlotLayer.preflight_ok (by omega) (by omega)

end ValidBatch

theorem Compacted.of_layers {work : List (Nat × List (Nat × List Nat))}
    (h : Compacted t₁ t' work) (hlayers : t₁.layers = t.layers) : Compacted t t' work :=
  ⟨fun w hw => hlayers ▸ h.layer w hw, fun i hi => hlayers ▸ h.other i hi⟩

/-- Rows of one length. -/
theorem ValidBatch.bounded_spec {seqIds : List Nat} {table : KeepTable} {curLen : Nat}
    (h : ValidBatch cfg layerIdx (t.layers layerIdx) seqIds table)
    (hall : ∀ p ∈ (t.layers layerIdx).jobs seqIds table.rows,
      (t.layers layerIdx).rowSeqLens p.1 = curLen) :
    Spec (· = t)
      (onLayer layerIdx (compactUniformRowsBounded cfg
        (((t.layers layerIdx).jobs seqIds table.rows).map Prod.fst) curLen
        (table.rows.map fun row => row.map Int.toNat)))
      (fun _ t' => Compacted t t' [(layerIdx, (t.layers layerIdx).jobs seqIds table.rows)])
      fun _ _ => False := by
  have hbounded := onLayer_spec (t := t)
    (compactUniformRowsBounded_spec cfg h.ready hall fun p hp => (h.keepCount_le p hp).1)
  rw [jobs_snd h.shape] at hbounded
  refine hbounded.post fun _ t' hdone => ?_
  obtain ⟨l, hl, rfl⟩ := hdone
  exact compacted_setLayers rfl hl

/-- The rows and the keep positions of a batch are read; then it is compacted. -/
theorem compactBatch_spec {seqIds : List Nat} {table : KeepTable} (sorted : Bool)
    (h : ValidBatch cfg layerIdx (t.layers layerIdx) seqIds table) :
    Spec (· = t) (compactBatch cfg layerIdx seqIds table sorted)
      (fun _ t' => Compacted t t' [(layerIdx, (t.layers layerIdx).jobs seqIds table.rows)])
      fun _ _ => False := by
  have hpreflight := h.preflight_ok .freePartSlotsBatch
  have hrows : ((((t.layers layerIdx).jobs seqIds table.rows).map Prod.fst).map fun row =>
      (row, (t.layers layerIdx).rowSeqLens row)).map Prod.fst =
      ((t.layers layerIdx).jobs seqIds table.rows).map Prod.fst := by
    rw [List.map_map]
    exact List.map_id _
  generalize hfirst : (((((t.layers layerIdx).jobs seqIds table.rows).map Prod.fst).map fun row =>
    (row, (t.layers layerIdx).rowSeqLens row)).map Prod.snd).headD 0 = firstLen
  have hrun : compactBatch cfg layerIdx seqIds table sorted t =
      (if ∃ curLen ∈ ((((t.layers layerIdx).jobs seqIds table.rows).map Prod.fst).map fun row =>
          (row, (t.layers layerIdx).rowSeqLens row)).map Prod.snd, curLen ≠ firstLen then
        forEach (seqIds.zip table.rows) fun p => freePartSlots cfg layerIdx p.1 p.2 true
      else
        onLayer layerIdx (compactUniformRowsBounded cfg
          (((t.layers layerIdx).jobs seqIds table.rows).map Prod.fst) firstLen
          (table.rows.map fun row => row.map Int.toNat)))
        { t with uniformDecodeMetadata := false } := by
    unfold compactBatch clearUniform
    rw [bind_ok (onLayer_ok h.mappedRows_ok), setLayers_self rfl, raiseIf_bind, hrows,
      if_neg (not_not.mpr h.ready.rows), bind_ok (h.prepareKeep_ok _),
      bind_ok (onLayer_ok hpreflight), setLayers_self rfl, modify_bind, ← hfirst]
  by_cases hall : ∃ curLen ∈ ((((t.layers layerIdx).jobs seqIds table.rows).map Prod.fst).map
      fun row => (row, (t.layers layerIdx).rowSeqLens row)).map Prod.snd, curLen ≠ firstLen
  · have hmixed := forEach_freePartSlots_spec (t := { t with uniformDecodeMetadata := false })
      h.kvLayer h.keep h.ready
    rintro _ rfl
    rw [hrun, if_pos hall]
    refine (hmixed.post fun _ t' hdone => ?_) _ rfl
    exact hdone.of_layers rfl
  · have huniform : ∀ p ∈ (t.layers layerIdx).jobs seqIds table.rows,
        (t.layers layerIdx).rowSeqLens p.1 = firstLen := by
      intro p hp
      by_contra hne
      refine hall ⟨_, ?_, hne⟩
      rw [List.map_map, List.map_map]
      exact List.mem_map_of_mem hp
    have hbounded := ValidBatch.bounded_spec (t := { t with uniformDecodeMetadata := false }) h
      huniform
    rintro _ rfl
    rw [hrun, if_neg hall]
    refine (hbounded.post fun _ t' hdone => ?_) _ rfl
    exact hdone.of_layers rfl

theorem freePartSlotsBatch_spec {seqIds : List Nat} {table : KeepTable} (sorted : Bool)
    (h : ValidBatch cfg layerIdx (t.layers layerIdx) seqIds table) :
    Spec (· = t) (freePartSlotsBatch cfg layerIdx seqIds table sorted)
      (fun _ t' => Compacted t t' [(layerIdx, (t.layers layerIdx).jobs seqIds table.rows)])
      fun _ _ => False := by
  unfold freePartSlotsBatch
  rw [if_neg h.seqs_ne]
  refine Spec.raiseIf_bind (fun hnot => absurd h.kvLayer hnot) fun _ => ?_
  refine Spec.raiseIf_bind (fun hshape => absurd h.shape hshape) fun _ => ?_
  refine Spec.raiseIf_bind (fun hcount => absurd hcount h.keepCount_pos) fun _ => ?_
  split
  · rename_i s keep hkeep _
    have hjobs : (t.layers layerIdx).jobs [s] table.rows =
        [((t.layers layerIdx).rowOf s, keep.map Int.toNat)] := by
      rw [hkeep]
      rfl
    have hmem : (s, keep) ∈ [s].zip table.rows := by
      rw [hkeep]
      exact List.mem_singleton_self _
    have hready := h.ready
    rw [hjobs] at hready ⊢
    exact freePartSlots_spec sorted h.kvLayer (h.keep (s, keep) hmem) hready
  · exact compactBatch_spec sorted h

end SlotTables

end SparseVllm
