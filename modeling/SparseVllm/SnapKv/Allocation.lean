import SparseVllm.SnapKv.Slots

/-!
# Batched prefill allocation (`_allocate_prefill_batch_same_size_all_layers`)

The batched allocation takes the rows of all sequences in all layers, then one block of each layer's
stack, which it deals out from the end, and writes the page table and the row lengths at once. Taking
slots sequence by sequence gives the same tables. The rows are taken while the checks run, so a check
that fails after a row was taken leaves it taken.

Modelled are its checks, the slots it selects with and without one pointer for all layers, and the
writes into the tables. Left out: the copies of the tables on the device.

## Results

* `allocateEach_ok`: within a layer, the batched form is the sequential one.
* **`allocatesAlike_iff`**: when the batched allocation raises with nothing taken or agrees with the
  sequential one.
-/

namespace SparseVllm

open SparseVllm.Lib

/-- What allocation reads of a scheduled sequence. -/
structure PrefillSeq where
  seqId : Nat
  currentChunkSize : Nat
  numPrefilledTokens : Nat
  /-- `chain_status == "resumed"`. -/
  chainResumed : Bool := false
  isRecomputeReplay : Bool := false
  deriving DecidableEq, Repr

/-- `is_chain_resume`. -/
def PrefillSeq.isChainResume (seq : PrefillSeq) : Bool :=
  seq.chainResumed && !seq.isRecomputeReplay

variable (cfg : SlotConfig)

/-! ## The batched form -/

namespace SlotLayer

/-- The row of a sequence and its length, checked. -/
def planRow (layerIdx chunkSize : Nat) (seq : PrefillSeq) : EStateM SlotError SlotLayer (Nat × Nat) :=
  do
    let rowIdx ← getFreeRow seq.seqId
    let l ← get
    let rowLen := l.rowSeqLens rowIdx
    raiseIf (seq.isChainResume = false ∧ rowLen ≠ seq.numPrefilledTokens)
      (.rowLengthMismatch layerIdx seq.seqId rowLen seq.numPrefilledTokens)
    raiseIf (cfg.maxModelLen < rowLen + chunkSize)
      (.batchedRowTooLong layerIdx seq.seqId rowIdx rowLen chunkSize)
    pure (rowIdx, rowLen)

/-- `selected_slots` of a layer, all pointers equal: the block of `ptr`, as a batch of chunks,
flipped. -/
def alignedSlots (ptr batchSize chunkSize : Nat) (stack : List Nat) : List (List Nat) :=
  let block := between (ptr - batchSize * chunkSize) ptr stack
  ((List.range batchSize).map fun b => between (b * chunkSize) (b * chunkSize + chunkSize) block)
    |>.reverse

/-- `selected_slots` of a layer by its own pointer, from `slot_offsets`. -/
def offsetSlots (ptr batchSize chunkSize : Nat) (stack : List Nat) : List (List Nat) :=
  (List.range batchSize).map fun b => (List.range chunkSize).map fun t =>
    stack.getD (ptr - batchSize * chunkSize + (batchSize - 1 - b) * chunkSize + t) 0

/-- The writes to a layer. -/
def commitRows (totalSize chunkSize : Nat) (plan : List (Nat × Nat)) (selected : List (List Nat))
    (l : SlotLayer) : SlotLayer :=
  { l with
    numFreeSlots := l.numFreeSlots - totalSize
    bufferReqToTokenSlots := (plan.zip selected).foldl
      (fun buffer p => Function.update buffer p.1.1 (overwrite p.1.2 p.2 (buffer p.1.1)))
      l.bufferReqToTokenSlots
    rowSeqLens := fun row =>
      if row ∈ plan.map Prod.fst then l.rowSeqLens row + chunkSize else l.rowSeqLens row }

end SlotLayer

namespace SlotTables

open SlotLayer

/-- `selected_slots`. -/
def selectedSlots (batchSize chunkSize : Nat) (t : SlotTables) : List (List (List Nat)) :=
  let firstPtr := (t.layers (cfg.kvLayers.headD 0)).numFreeSlots
  if ∀ layer ∈ cfg.kvLayers, (t.layers layer).numFreeSlots = firstPtr then
    cfg.kvLayers.map fun layer =>
      alignedSlots firstPtr batchSize chunkSize (t.layers layer).freeSlotsStack
  else
    cfg.kvLayers.map fun layer =>
      offsetSlots (t.layers layer).numFreeSlots batchSize chunkSize (t.layers layer).freeSlotsStack

/-- `_allocate_prefill_batch_same_size_all_layers`: `none` is the `False` result, else the slots of
each layer as they are written to `layers_slot_mapping`, by sequence. -/
def allocatePrefillBatchSameSizeAllLayers (seqs : List PrefillSeq) :
    EStateM SlotError SlotTables (Option (List (List (List Nat)))) := do
  let chunkSize := (seqs.head?.map (·.currentChunkSize)).getD 0
  if cfg.hasStackTensor = false ∨ seqs = [] ∨ chunkSize = 0 ∨
      (∃ seq ∈ seqs, seq.currentChunkSize ≠ chunkSize) ∨ cfg.kvLayers = [] then
    pure none
  else do
    let totalSize := seqs.length * chunkSize
    let t ← get
    let minFree := ((cfg.kvLayers.map fun layer => (t.layers layer).numFreeSlots).min?).getD 0
    raiseIf (minFree < totalSize) (.outOfSlotsBatched totalSize minFree)
    let plans ← mapEach cfg.kvLayers fun layer =>
      onLayer layer (mapEach seqs (planRow cfg layer chunkSize))
    let t ← get
    let selected := selectedSlots cfg seqs.length chunkSize t
    forEach (cfg.kvLayers.zip (plans.zip selected)) fun p =>
      onLayer p.1 (modify (commitRows totalSize chunkSize p.2.1 p.2.2))
    pure (some selected)

/-- Layer by layer, `_allocate` for the sequences in order. -/
def allocateEach (seqs : List PrefillSeq) :
    EStateM SlotError SlotTables (List (List (List Nat))) :=
  mapEach cfg.kvLayers fun layer => onLayer layer
    (mapEach seqs fun seq => SlotLayer.allocate cfg layer seq.seqId seq.currentChunkSize)

end SlotTables

/-! ## One layer -/

namespace SlotLayer

variable {cfg} {layerIdx chunk : Nat} {l l' : SlotLayer} {seq : PrefillSeq}
  {seqs : List PrefillSeq}

theorem getFreeRow_place {seqId row r c n : Nat} {slots : List Nat}
    (h : getFreeRow seqId l = .ok row l') :
    getFreeRow seqId (l.place r c n slots) = .ok row (l'.place r c n slots) := by
  cases hmapped : l.seqIdToRow.get? seqId with
  | some row' =>
    rw [getFreeRow_mapped hmapped] at h
    cases h
    exact getFreeRow_mapped hmapped
  | none =>
    cases hfree : l.freeRows with
    | nil =>
      rw [getFreeRow_full hmapped hfree] at h
      cases h
    | cons row' rest =>
      rw [getFreeRow_fresh hmapped hfree] at h
      cases h
      exact getFreeRow_fresh hmapped hfree

/-- What a planned row says. -/
theorem planRow_ok {p : Nat × Nat} (h : planRow cfg layerIdx chunk seq l = .ok p l') :
    getFreeRow seq.seqId l = .ok p.1 l' ∧ p.2 = l'.rowSeqLens p.1 ∧
      ¬ (seq.isChainResume = false ∧ p.2 ≠ seq.numPrefilledTokens) ∧
      ¬ cfg.maxModelLen < p.2 + chunk := by
  unfold planRow at h
  obtain ⟨row, l₁, hrow, h⟩ := exists_of_bind_ok h
  rw [get_bind, raiseIf_bind] at h
  split at h
  · cases h
  · rename_i hlen
    rw [raiseIf_bind] at h
    split at h
    · cases h
    · rename_i hroom
      cases h
      exact ⟨hrow, rfl, hlen, hroom⟩

theorem planRow_of {row : Nat} (hrow : getFreeRow seq.seqId l = .ok row l')
    (hlen : ¬ (seq.isChainResume = false ∧ l'.rowSeqLens row ≠ seq.numPrefilledTokens))
    (hroom : ¬ cfg.maxModelLen < l'.rowSeqLens row + chunk) :
    planRow cfg layerIdx chunk seq l = .ok (row, l'.rowSeqLens row) l' := by
  unfold planRow
  rw [bind_ok hrow, get_bind, raiseIf_bind, if_neg hlen, raiseIf_bind, if_neg hroom]
  rfl

/-- Planning does not see slots placed in a row of another sequence. -/
theorem planRows_place {q r c n : Nat} {slots : List Nat} {plan : List (Nat × Nat)}
    (hq : l.seqIdToRow.get? q = some r) (hnot : q ∉ seqs.map PrefillSeq.seqId)
    (hdistinct : l.RowsDistinct)
    (h : mapEach seqs (planRow cfg layerIdx chunk) l = .ok plan l') :
    mapEach seqs (planRow cfg layerIdx chunk) (l.place r c n slots) =
      .ok plan (l'.place r c n slots) ∧ r ∉ plan.map Prod.fst := by
  induction seqs generalizing l plan with
  | nil =>
    cases h
    exact ⟨rfl, List.not_mem_nil⟩
  | cons seq seqs ih =>
    unfold mapEach at h
    obtain ⟨p, l₁, hp, h⟩ := exists_of_bind_ok h
    obtain ⟨ps, l₂, hps, h⟩ := exists_of_bind_ok h
    cases h
    obtain ⟨hrow, hlen, hmatch, hroom⟩ := planRow_ok hp
    have htakes := takesRow_of_getFreeRow hrow
    rw [List.map_cons, List.mem_cons, not_or] at hnot
    have hq₁ : l₁.seqIdToRow.get? q = some r := (htakes.others q hnot.1).trans hq
    have hdistinct₁ := htakes.distinct hdistinct
    have hne : p.1 ≠ r := by
      rintro rfl
      exact hnot.1 (Dict.eq_of_nodup_values (List.nodup_append.mp hdistinct₁).1 htakes.mapped hq₁)
    have hsame : (l₁.place r c n slots).rowSeqLens p.1 = p.2 :=
      (Function.update_of_ne hne ..).trans hlen.symm
    obtain ⟨hrest, hnotRest⟩ := ih hq₁ hnot.2 hdistinct₁ hps
    have hfirst : planRow cfg layerIdx chunk seq (l.place r c n slots) =
        .ok p (l₁.place r c n slots) := by
      rw [planRow_of (getFreeRow_place hrow) (by rwa [hsame]) (by rwa [hsame]), hsame]
    constructor
    · unfold mapEach
      rw [bind_ok hfirst, bind_ok hrest]
      rfl
    · rw [List.map_cons, List.mem_cons, not_or]
      exact ⟨hne.symm, hnotRest⟩

theorem offsetSlots_succ {ptr n : Nat} {stack : List Nat} (hroom : (n + 1) * chunk ≤ ptr)
    (hptr : ptr ≤ stack.length) : offsetSlots ptr (n + 1) chunk stack =
      between (ptr - chunk) ptr stack :: offsetSlots (ptr - chunk) n chunk stack := by
  rw [Nat.succ_mul] at hroom
  unfold offsetSlots
  rw [List.range_succ_eq_map, List.map_cons, List.map_map]
  congr 1
  · have hend : ptr - chunk + chunk = ptr := by omega
    have h : between (ptr - chunk) (ptr - chunk + chunk) stack = _ :=
      between_eq_map 0 (by omega)
    rw [hend] at h
    rw [h]
    refine List.map_congr_left fun t _ => ?_
    congr 1
    rw [Nat.succ_mul, Nat.add_sub_cancel, Nat.sub_zero]
    omega
  · refine List.map_congr_left fun b hb => List.map_congr_left fun t _ => ?_
    have hb := List.mem_range.mp hb
    have hindex : n + 1 - 1 - b.succ = n - 1 - b := by omega
    have hbase : ptr - (n + 1) * chunk = ptr - chunk - n * chunk := by
      rw [Nat.succ_mul]
      omega
    rw [hindex, hbase]

/-- Both branches take the same slots. -/
theorem alignedSlots_eq {ptr batch : Nat} {stack : List Nat} (hroom : batch * chunk ≤ ptr)
    (hptr : ptr ≤ stack.length) :
    alignedSlots ptr batch chunk stack = offsetSlots ptr batch chunk stack := by
  unfold alignedSlots offsetSlots
  have hblock : (between (ptr - batch * chunk) ptr stack).length = batch * chunk := by
    rw [length_between hptr]
    omega
  apply List.ext_getElem
  · simp
  · intro b hb hb'
    rw [List.length_map, List.length_range] at hb'
    rw [List.getElem_reverse, List.getElem_map, List.getElem_map, List.getElem_range,
      List.getElem_range, List.length_map, List.length_range]
    have hend : (batch - 1 - b) * chunk + chunk ≤ batch * chunk := by
      rw [← Nat.succ_mul]
      exact Nat.mul_le_mul_right chunk (by omega)
    rw [between_eq_map 0 (by rw [hblock]; exact hend)]
    refine List.map_congr_left fun t ht => ?_
    have ht := List.mem_range.mp ht
    rw [getD_between 0 stack (by omega)]
    congr 1
    omega

/-- The first sequence's writes come first. -/
theorem commitRows_cons {n row len : Nat} {block : List Nat} {plan : List (Nat × Nat)}
    {selected : List (List Nat)} (hnot : row ∉ plan.map Prod.fst) :
    commitRows (n * chunk) chunk plan selected (l.place row len chunk block) =
      commitRows ((n + 1) * chunk) chunk ((row, len) :: plan) (block :: selected) l := by
  have hptr : l.numFreeSlots - chunk - n * chunk = l.numFreeSlots - (n + 1) * chunk := by
    rw [Nat.succ_mul]
    omega
  have hlens : (fun r => if r ∈ plan.map Prod.fst then
        Function.update l.rowSeqLens row (l.rowSeqLens row + chunk) r + chunk
      else Function.update l.rowSeqLens row (l.rowSeqLens row + chunk) r) =
      fun r => if r ∈ ((row, len) :: plan).map Prod.fst then l.rowSeqLens r + chunk
        else l.rowSeqLens r := by
    funext r
    by_cases hr : r = row
    · subst r
      simp [hnot]
    · have hmem : r ∈ ((row, len) :: plan).map Prod.fst ↔ r ∈ plan.map Prod.fst := by
        rw [List.map_cons, List.mem_cons]
        exact or_iff_right hr
      simp only [hmem, Function.update_of_ne hr]
  unfold commitRows place
  dsimp only
  rw [hptr, hlens]
  rfl

/-- Slots taken sequence by sequence are the batched ones. -/
theorem allocateEach_ok {plan : List (Nat × Nat)} (hdistinct : l.RowsDistinct)
    (hids : (seqs.map PrefillSeq.seqId).Nodup) (hsize : ∀ seq ∈ seqs, seq.currentChunkSize = chunk)
    (hroom : seqs.length * chunk ≤ l.numFreeSlots)
    (hstack : l.numFreeSlots ≤ l.freeSlotsStack.length)
    (h : mapEach seqs (planRow cfg layerIdx chunk) l = .ok plan l') :
    mapEach seqs (fun seq => allocate cfg layerIdx seq.seqId seq.currentChunkSize) l =
      .ok (offsetSlots l.numFreeSlots seqs.length chunk l.freeSlotsStack)
        (commitRows (seqs.length * chunk) chunk plan
          (offsetSlots l.numFreeSlots seqs.length chunk l.freeSlotsStack) l') := by
  induction seqs generalizing l plan l' with
  | nil =>
    cases h
    simp [mapEach, offsetSlots, commitRows]
  | cons seq seqs ih =>
    unfold mapEach at h
    obtain ⟨⟨row, len⟩, l₁, hp, h⟩ := exists_of_bind_ok h
    obtain ⟨ps, l₂, hps, h⟩ := exists_of_bind_ok h
    cases h
    obtain ⟨hrow, hlen, -, hfits⟩ := planRow_ok hp
    dsimp only at hrow hlen hfits
    have htakes := takesRow_of_getFreeRow hrow
    rw [List.map_cons, List.nodup_cons] at hids
    rw [List.length_cons] at hroom ⊢
    have hsucc := hroom
    rw [Nat.succ_mul] at hsucc
    obtain ⟨seqIdToRow, freeRows, hframe⟩ := htakes.frame
    have hptr : l₁.numFreeSlots = l.numFreeSlots := by rw [hframe]
    have hstack₁ : l₁.freeSlotsStack = l.freeSlotsStack := by rw [hframe]
    have hchunk : seq.currentChunkSize = chunk := hsize seq List.mem_cons_self
    rw [offsetSlots_succ hroom hstack]
    generalize hblock : between (l.numFreeSlots - chunk) l.numFreeSlots l.freeSlotsStack = block
    have hfirst : allocate cfg layerIdx seq.seqId seq.currentChunkSize l =
        .ok block (l₁.place row len chunk block) := by
      unfold allocate
      rw [get_bind, raiseIf_bind, if_neg (by omega), bind_ok hrow, get_bind, raiseIf_bind,
        if_neg (by omega), hptr, hstack₁, hchunk, ← hlen, hblock]
      rfl
    obtain ⟨hplaced, hnot⟩ : _ ∧ row ∉ ps.map Prod.fst :=
      planRows_place htakes.mapped hids.1 (htakes.distinct hdistinct) hps
    have hptr₂ : (l₁.place row len chunk block).numFreeSlots = l.numFreeSlots - chunk := by
      rw [← hptr]
      rfl
    have hstack₂ : (l₁.place row len chunk block).freeSlotsStack = l.freeSlotsStack := hstack₁
    have hdistinct₂ : (l₁.place row len chunk block).RowsDistinct := htakes.distinct hdistinct
    have hrest := ih hdistinct₂ hids.2 (fun s hs => hsize s (List.mem_cons_of_mem seq hs))
      (by omega) (by rw [hptr₂, hstack₂]; omega) hplaced
    rw [hptr₂, hstack₂] at hrest
    unfold mapEach
    rw [bind_ok hfirst, bind_ok hrest]
    have hcommit : commitRows (seqs.length * chunk) chunk ps
          (offsetSlots (l.numFreeSlots - chunk) seqs.length chunk l.freeSlotsStack)
          (l'.place row len chunk block) =
        commitRows ((seqs.length + 1) * chunk) chunk ((row, len) :: ps)
          (block :: offsetSlots (l.numFreeSlots - chunk) seqs.length chunk l.freeSlotsStack) l' :=
      commitRows_cons hnot
    rw [← hcommit]
    rfl

/-! ### Which checks fail -/

/-- The sequence has a row in the layer. -/
def HasRow (l : SlotLayer) (seq : PrefillSeq) : Prop := l.seqIdToRow.get? seq.seqId ≠ none

/-- The length of the sequence's row, 0 for a row still to be taken. -/
def rowLenOf (l : SlotLayer) (seq : PrefillSeq) : Nat :=
  ((l.seqIdToRow.get? seq.seqId).map l.rowSeqLens).getD 0

/-- The length checks of `planRow`. -/
def FitsRow (cfg : SlotConfig) (chunk : Nat) (l : SlotLayer) (seq : PrefillSeq) : Prop :=
  (seq.isChainResume = true ∨ l.rowLenOf seq = seq.numPrefilledTokens) ∧
    l.rowLenOf seq + chunk ≤ cfg.maxModelLen

/-- Every sequence gets a row, of the right length and with room for its chunk. -/
structure RowsFit (cfg : SlotConfig) (chunk : Nat) (l : SlotLayer) (seqs : List PrefillSeq) :
    Prop where
  rows : seqs.countP (fun seq => decide (l.seqIdToRow.get? seq.seqId = none)) ≤ l.freeRows.length
  fits : ∀ seq ∈ seqs, FitsRow cfg chunk l seq

/-- The check of the sequence fails before it takes a row. -/
def Stopped (cfg : SlotConfig) (chunk : Nat) (l : SlotLayer) (seq : PrefillSeq) : Prop :=
  HasRow l seq ∧ ¬ FitsRow cfg chunk l seq ∨ ¬ HasRow l seq ∧ l.freeRows = []

/-- The first check to fail comes before any row is taken. -/
def RowsBlocked (cfg : SlotConfig) (chunk : Nat) (l : SlotLayer) (seqs : List PrefillSeq) : Prop :=
  Until (fun seq => HasRow l seq ∧ FitsRow cfg chunk l seq) (Stopped cfg chunk l) seqs

theorem fitsRow_iff {row : Nat} (hlen : l'.rowSeqLens row = l.rowLenOf seq) :
    FitsRow cfg chunk l seq ↔
      ¬ (seq.isChainResume = false ∧ l'.rowSeqLens row ≠ seq.numPrefilledTokens) ∧
        ¬ cfg.maxModelLen < l'.rowSeqLens row + chunk := by
  unfold FitsRow
  rw [hlen, not_lt, not_and_or, not_not, Bool.not_eq_false]

/-- The checks of one sequence, its row taken. -/
theorem planRow_error {row : Nat} (hrow : getFreeRow seq.seqId l = .ok row l')
    (hlen : l'.rowSeqLens row = l.rowLenOf seq) (hfits : ¬ FitsRow cfg chunk l seq) :
    ∃ e, planRow cfg layerIdx chunk seq l = .error e l' := by
  unfold planRow
  rw [bind_ok hrow, get_bind, raiseIf_bind]
  split
  · exact ⟨_, rfl⟩
  · rename_i hmatch
    rw [raiseIf_bind]
    split
    · exact ⟨_, rfl⟩
    · rename_i hroom
      exact absurd ((fitsRow_iff hlen).mpr ⟨hmatch, hroom⟩) hfits

/-- Rows are only added. -/
theorem keeps_planRows (q : PrefillSeq) :
    Keeps (fun l => HasRow l q) (mapEach seqs (planRow cfg layerIdx chunk)) := by
  refine Keeps.mapEach fun seq _ => ?_
  unfold planRow
  refine Keeps.bind (keeps_getFreeRow q.seqId) fun row => Keeps.bind Keeps.get fun l => ?_
  exact Keeps.bind (Keeps.raiseIf _ _) fun _ => Keeps.bind (Keeps.raiseIf _ _) fun _ => Keeps.pure _

/-- Taking a row of another sequence changes no length. -/
theorem rowLenOf_takesRow {seqId row : Nat} {q : PrefillSeq} (h : TakesRow seqId row l l')
    (hne : q.seqId ≠ seqId) : l'.rowLenOf q = l.rowLenOf q := by
  obtain ⟨seqIdToRow, freeRows, hframe⟩ := h.frame
  unfold rowLenOf
  rw [h.others q.seqId hne]
  rw [hframe]

theorem rowsFit_cons_mapped (hhas : HasRow l seq) (hfits : FitsRow cfg chunk l seq) :
    RowsFit cfg chunk l (seq :: seqs) ↔ RowsFit cfg chunk l seqs := by
  have hcount : (seq :: seqs).countP (fun s => decide (l.seqIdToRow.get? s.seqId = none)) =
      seqs.countP fun s => decide (l.seqIdToRow.get? s.seqId = none) :=
    List.countP_cons_of_neg (by rw [decide_eq_true_eq]; exact hhas)
  constructor
  · intro h
    exact ⟨hcount ▸ h.rows, fun s hs => h.fits s (List.mem_cons_of_mem seq hs)⟩
  · intro h
    refine ⟨hcount ▸ h.rows, fun s hs => ?_⟩
    rcases List.mem_cons.mp hs with rfl | hs
    · exact hfits
    · exact h.fits s hs

theorem rowsFit_cons_fresh {row : Nat} (htakes : TakesRow seq.seqId row l l')
    (hnone : l.seqIdToRow.get? seq.seqId = none) (hnot : seq.seqId ∉ seqs.map PrefillSeq.seqId)
    (hfits : FitsRow cfg chunk l seq) :
    RowsFit cfg chunk l (seq :: seqs) ↔ RowsFit cfg chunk l' seqs := by
  have hne : ∀ s ∈ seqs, s.seqId ≠ seq.seqId := fun s hs h =>
    hnot (List.mem_map.mpr ⟨s, hs, h⟩)
  have hcount : (seq :: seqs).countP (fun s => decide (l.seqIdToRow.get? s.seqId = none)) =
      seqs.countP (fun s => decide (l'.seqIdToRow.get? s.seqId = none)) + 1 := by
    rw [List.countP_cons_of_pos (by simpa using hnone)]
    congr 1
    refine List.countP_congr fun s hs => ?_
    rw [htakes.others s.seqId (hne s hs)]
  have hfree : l.freeRows.length = l'.freeRows.length + 1 := by
    rw [htakes.fresh hnone, List.length_cons]
  have hsame : ∀ s ∈ seqs, (FitsRow cfg chunk l' s ↔ FitsRow cfg chunk l s) := by
    intro s hs
    unfold FitsRow
    rw [rowLenOf_takesRow htakes (hne s hs)]
  constructor
  · intro h
    have hrows := h.rows
    exact ⟨by omega, fun s hs => (hsame s hs).mpr (h.fits s (List.mem_cons_of_mem seq hs))⟩
  · intro h
    have hrows := h.rows
    refine ⟨by omega, fun s hs => ?_⟩
    rcases List.mem_cons.mp hs with rfl | hs
    · exact hfits
    · exact (hsame s hs).mp (h.fits s hs)

/-- Planning the rows of a layer returns when they all fit. It leaves the layer as it was when it
takes no row, or raises before it takes one. -/
theorem planRows_outcome (layerIdx : Nat) (hempty : ∀ row ∈ l.freeRows, l.rowSeqLens row = 0)
    (hids : (seqs.map PrefillSeq.seqId).Nodup) :
    EndsAs (RowsFit cfg chunk l seqs) (∀ seq ∈ seqs, HasRow l seq) (RowsBlocked cfg chunk l seqs) l
      (mapEach seqs (planRow cfg layerIdx chunk)) := by
  induction seqs generalizing l with
  | nil =>
    show RowsFit cfg chunk l [] ∧ (l = l ↔ _)
    exact ⟨⟨Nat.zero_le _, nofun⟩, iff_of_true rfl nofun⟩
  | cons seq seqs ih =>
    rw [List.map_cons, List.nodup_cons] at hids
    unfold EndsAs mapEach
    cases hmapped : l.seqIdToRow.get? seq.seqId with
    | some row =>
      have hrow := getFreeRow_mapped hmapped
      have hlen : l.rowSeqLens row = l.rowLenOf seq := by
        unfold rowLenOf
        rw [hmapped]
        rfl
      have hhas : HasRow l seq := by
        unfold HasRow
        rw [hmapped]
        exact Option.some_ne_none row
      by_cases hfits : FitsRow cfg chunk l seq
      · obtain ⟨hmatch, hroom⟩ := (fitsRow_iff hlen).mp hfits
        rw [bind_ok (planRow_of hrow hmatch hroom)]
        have hrest := ih hempty hids.2
        cases hrun : mapEach seqs (planRow cfg layerIdx chunk) l with
        | ok ps l' =>
          have hrest := hrest.ok hrun
          rw [bind_ok hrun]
          show RowsFit cfg chunk l (seq :: seqs) ∧ (l' = l ↔ _)
          rw [rowsFit_cons_mapped hhas hfits, List.forall_mem_cons]
          exact ⟨hrest.1, hrest.2.trans (and_iff_right hhas).symm⟩
        | error e l' =>
          have hrest := hrest.error hrun
          rw [bind_error hrun]
          show ¬ RowsFit cfg chunk l (seq :: seqs) ∧ (l' = l ↔ _)
          rw [rowsFit_cons_mapped hhas hfits, RowsBlocked, until_cons]
          exact ⟨hrest.1, hrest.2.trans (by simp [RowsBlocked, Stopped, hhas, hfits])⟩
      · obtain ⟨e, he⟩ := planRow_error hrow hlen hfits
        rw [bind_error he]
        refine ⟨fun h => hfits (h.fits seq List.mem_cons_self), iff_of_true rfl ?_⟩
        exact until_cons.mpr (Or.inl (Or.inl ⟨hhas, hfits⟩))
    | none =>
      have hhas : ¬ HasRow l seq := not_not.mpr hmapped
      cases hfree : l.freeRows with
      | nil =>
        have herror : planRow cfg layerIdx chunk seq l = .error .noFreeRows l :=
          bind_error (getFreeRow_full hmapped hfree)
        rw [bind_error herror]
        refine ⟨fun h => ?_, iff_of_true rfl (until_cons.mpr (Or.inl (Or.inr ⟨hhas, hfree⟩)))⟩
        have hrows := h.rows
        rw [hfree, List.countP_cons_of_pos (by simpa using hmapped)] at hrows
        exact Nat.not_succ_le_zero _ hrows
      | cons row rest =>
        obtain ⟨l₁, hl₁, hrow⟩ : ∃ l₁ : SlotLayer,
            l₁ = { l with freeRows := rest, seqIdToRow := l.seqIdToRow.set seq.seqId row } ∧
            getFreeRow seq.seqId l = .ok row l₁ := ⟨_, rfl, getFreeRow_fresh hmapped hfree⟩
        have htakes := takesRow_of_getFreeRow hrow
        have hhas₁ : HasRow l₁ seq := fun h => Option.some_ne_none row (htakes.mapped.symm.trans h)
        have hempty₁ : ∀ r ∈ l₁.freeRows, l₁.rowSeqLens r = 0 := by
          subst hl₁
          exact fun r hr => hempty r (by rw [hfree]; exact List.mem_cons_of_mem row hr)
        have hlen : l₁.rowSeqLens row = l.rowLenOf seq := by
          unfold rowLenOf
          rw [hmapped, hl₁]
          exact hempty row (by rw [hfree]; exact List.mem_cons_self)
        have hblocked : ¬ RowsBlocked cfg chunk l (seq :: seqs) := by
          rw [RowsBlocked, until_cons]
          simp [Stopped, hhas, hfree]
        have htaken : ∀ l' : SlotLayer, HasRow l' seq → l' ≠ l := by
          rintro l' h rfl
          exact hhas h
        by_cases hfits : FitsRow cfg chunk l seq
        · obtain ⟨hmatch, hroom⟩ := (fitsRow_iff hlen).mp hfits
          rw [bind_ok (planRow_of hrow hmatch hroom)]
          have hrest := ih hempty₁ hids.2
          have hkeeps : Keeps (fun l => HasRow l seq) (mapEach seqs (planRow cfg layerIdx chunk)) :=
            keeps_planRows seq
          have hstill := hkeeps l₁ hhas₁
          cases hrun : mapEach seqs (planRow cfg layerIdx chunk) l₁ with
          | ok ps l' =>
            have hrest := hrest.ok hrun
            rw [hrun] at hstill
            rw [bind_ok hrun]
            show RowsFit cfg chunk l (seq :: seqs) ∧ (l' = l ↔ _)
            rw [rowsFit_cons_fresh htakes hmapped hids.1 hfits]
            refine ⟨hrest.1, iff_of_false (htaken l' hstill) fun h => ?_⟩
            exact hhas (h seq List.mem_cons_self)
          | error e l' =>
            have hrest := hrest.error hrun
            rw [hrun] at hstill
            rw [bind_error hrun]
            show ¬ RowsFit cfg chunk l (seq :: seqs) ∧ (l' = l ↔ _)
            rw [rowsFit_cons_fresh htakes hmapped hids.1 hfits]
            exact ⟨hrest.1, iff_of_false (htaken l' hstill) hblocked⟩
        · obtain ⟨e, he⟩ := planRow_error hrow hlen hfits
          rw [bind_error he]
          refine ⟨fun h => hfits (h.fits seq List.mem_cons_self), ?_⟩
          exact iff_of_false (htaken l₁ hhas₁) hblocked

theorem RowsBlocked.not_rowsFit (h : RowsBlocked cfg chunk l seqs) : ¬ RowsFit cfg chunk l seqs := by
  obtain ⟨before, seq, after, rfl, -, ⟨-, hfits⟩ | ⟨hhas, hfree⟩⟩ := h
  · exact fun hfit => hfits (hfit.fits seq (by simp))
  · intro hfit
    have hrows := hfit.rows
    rw [hfree, List.length_nil, Nat.le_zero, List.countP_eq_zero] at hrows
    have hmapped := hrows seq (by simp)
    rw [decide_eq_true_eq] at hmapped
    exact hhas hmapped

/-- Planning takes no slot. -/
theorem keeps_planRows_stack (ptr : Nat) (stack : List Nat) :
    Keeps (fun l => l.numFreeSlots = ptr ∧ l.freeSlotsStack = stack)
      (mapEach seqs (planRow cfg layerIdx chunk)) := by
  refine Keeps.mapEach fun seq _ => ?_
  unfold planRow
  refine Keeps.bind (keeps_getFreeRow_stack ptr stack) fun row => Keeps.bind Keeps.get fun l => ?_
  exact Keeps.bind (Keeps.raiseIf _ _) fun _ => Keeps.bind (Keeps.raiseIf _ _) fun _ => Keeps.pure _

end SlotLayer

/-! ## All layers -/

namespace SlotTables

open SlotLayer

variable {cfg} {chunk : Nat} {t : SlotTables} {seqs : List PrefillSeq}

/-- The call raises with nothing taken, or agrees with the sequential allocation. A `False` result
leaves the tables for the caller's own loop. -/
def AllocatesAlike (cfg : SlotConfig) (seqs : List PrefillSeq) (t : SlotTables) : Prop :=
  match allocatePrefillBatchSameSizeAllLayers cfg seqs t with
  | .ok none t' => t' = t
  | .ok (some slots) t' => allocateEach cfg seqs t = .ok slots t'
  | .error _ t' => t' = t

/-- Some layer has too few slots, or all rows fit, or the first check to fail, in the order of the
layers and then of the sequences, comes before any row is taken. -/
def PlansCleanly (cfg : SlotConfig) (chunk : Nat) (seqs : List PrefillSeq) (t : SlotTables) :
    Prop :=
  (∃ i ∈ cfg.kvLayers, (t.layers i).numFreeSlots < seqs.length * chunk) ∨
    (∀ i ∈ cfg.kvLayers, RowsFit cfg chunk (t.layers i) seqs) ∨
    Until (fun i => RowsFit cfg chunk (t.layers i) seqs ∧ ∀ seq ∈ seqs, HasRow (t.layers i) seq)
      (fun i => RowsBlocked cfg chunk (t.layers i) seqs) cfg.kvLayers

/-- The fast path does not apply. -/
def Declines (cfg : SlotConfig) (chunk : Nat) (seqs : List PrefillSeq) : Prop :=
  cfg.hasStackTensor = false ∨ seqs = [] ∨ chunk = 0 ∨ cfg.kvLayers = []

theorem min_lt_iff {layers : List Nat} (hne : layers ≠ []) {f : Nat → Nat} {n : Nat} :
    ((layers.map f).min?).getD 0 < n ↔ ∃ i ∈ layers, f i < n := by
  cases hmin : (layers.map f).min? with
  | none =>
    rw [List.min?_eq_none_iff, List.map_eq_nil_iff] at hmin
    exact absurd hmin hne
  | some m =>
    obtain ⟨hmem, hle⟩ := List.min?_eq_some_iff.mp hmin
    obtain ⟨i, hi, rfl⟩ := List.mem_map.mp hmem
    constructor
    · exact fun h => ⟨i, hi, h⟩
    · rintro ⟨j, hj, h⟩
      exact lt_of_le_of_lt (hle (f j) (List.mem_map_of_mem hj)) h

/-- Both branches give each layer the slots of its own pointer. -/
theorem selectedSlots_eq (hstack : ∀ i ∈ cfg.kvLayers,
      (t.layers i).numFreeSlots ≤ (t.layers i).freeSlotsStack.length)
    (hroom : ∀ i ∈ cfg.kvLayers, seqs.length * chunk ≤ (t.layers i).numFreeSlots) :
    selectedSlots cfg seqs.length chunk t = cfg.kvLayers.map fun i =>
      offsetSlots (t.layers i).numFreeSlots seqs.length chunk (t.layers i).freeSlotsStack := by
  unfold selectedSlots
  dsimp only
  split
  · rename_i hall
    refine List.map_congr_left fun i hi => ?_
    rw [← hall i hi]
    exact alignedSlots_eq (hroom i hi) (hstack i hi)
  · rfl

/-- The writes of all layers. -/
theorem commit_ok {totalSize : Nat} {layers : List Nat} {l : Nat → SlotLayer}
    (hnodup : layers.Nodup) (plan : Nat → List (Nat × Nat)) (selected : Nat → List (List Nat))
    (hl : ∀ i ∈ layers, t.layers i = l i) :
    forEach (layers.zip ((layers.map plan).zip (layers.map selected)))
      (fun p => onLayer (ε := SlotError) p.1 (modify (commitRows totalSize chunk p.2.1 p.2.2))) t =
        .ok () (t.setLayers layers fun i =>
          commitRows totalSize chunk (plan i) (selected i) (l i)) := by
  induction layers generalizing t with
  | nil =>
    rw [setLayers_nil]
    rfl
  | cons i layers ih =>
    obtain ⟨hnot, hnodup⟩ := List.nodup_cons.mp hnodup
    have hfirst : onLayer (ε := SlotError) i
        (modify (commitRows totalSize chunk (plan i) (selected i))) t =
          .ok () (t.setLayers [i] fun _ =>
            commitRows totalSize chunk (plan i) (selected i) (l i)) := by
      rw [← hl i List.mem_cons_self]
      exact onLayer_ok rfl
    have hrest : ∀ j ∈ layers, (t.setLayers [i] fun _ =>
        commitRows totalSize chunk (plan i) (selected i) (l i)).layers j = l j := by
      intro j hj
      rw [setLayers_of_notMem (by rw [List.mem_singleton]; rintro rfl; exact hnot hj)]
      exact hl j (List.mem_cons_of_mem i hj)
    rw [List.map_cons, List.map_cons, List.zip_cons_cons, List.zip_cons_cons, forEach,
      bind_ok hfirst, ih hnodup hrest]
    exact congrArg _ (setLayers_cons (l := fun i =>
      commitRows totalSize chunk (plan i) (selected i) (l i)) hnot)

/-- When the rows fit, the batched allocation is the sequential one. -/
theorem allocatePrefillBatch_ok {plans : List (List (Nat × Nat))} {t' : SlotTables}
    (hsound : ∀ i ∈ cfg.kvLayers, (t.layers i).Sound)
    (hids : (seqs.map PrefillSeq.seqId).Nodup) (hsize : ∀ seq ∈ seqs, seq.currentChunkSize = chunk)
    (hroom : ∀ i ∈ cfg.kvLayers, seqs.length * chunk ≤ (t.layers i).numFreeSlots)
    (hplans : mapEach cfg.kvLayers
      (fun i => onLayer i (mapEach seqs (planRow cfg i chunk))) t = .ok plans t') :
    ∃ t'', forEach (cfg.kvLayers.zip (plans.zip (selectedSlots cfg seqs.length chunk t')))
        (fun p => onLayer (ε := SlotError) p.1
          (modify (commitRows (seqs.length * chunk) chunk p.2.1 p.2.2))) t' = .ok () t'' ∧
      allocateEach cfg seqs t = .ok (selectedSlots cfg seqs.length chunk t') t'' := by
  obtain ⟨plan, l, hplan, rfl, rfl⟩ := exists_of_mapEach_onLayer cfg.kvLayers_nodup hplans
  have hframe : ∀ i ∈ cfg.kvLayers, (l i).numFreeSlots = (t.layers i).numFreeSlots ∧
      (l i).freeSlotsStack = (t.layers i).freeSlotsStack := by
    intro i hi
    have hkeeps : Keeps _ (mapEach seqs (planRow cfg i chunk)) :=
      keeps_planRows_stack (t.layers i).numFreeSlots (t.layers i).freeSlotsStack
    have h := hkeeps (t.layers i) ⟨rfl, rfl⟩
    rw [hplan i hi] at h
    exact h
  have hstack : ∀ i ∈ cfg.kvLayers,
      (t.layers i).numFreeSlots ≤ (t.layers i).freeSlotsStack.length :=
    fun i hi => (hsound i hi).ptr_le
  have hlayer : ∀ i ∈ cfg.kvLayers, (t.setLayers cfg.kvLayers l).layers i = l i :=
    fun i hi => setLayers_of_mem hi
  have hselected : selectedSlots cfg seqs.length chunk (t.setLayers cfg.kvLayers l) =
      cfg.kvLayers.map fun i =>
        offsetSlots (t.layers i).numFreeSlots seqs.length chunk (t.layers i).freeSlotsStack := by
    rw [selectedSlots_eq]
    · refine List.map_congr_left fun i hi => ?_
      rw [hlayer i hi, (hframe i hi).1, (hframe i hi).2]
    · intro i hi
      rw [hlayer i hi, (hframe i hi).1, (hframe i hi).2]
      exact hstack i hi
    · intro i hi
      rw [hlayer i hi, (hframe i hi).1]
      exact hroom i hi
  have heach : ∀ i ∈ cfg.kvLayers,
      mapEach seqs (fun seq => SlotLayer.allocate cfg i seq.seqId seq.currentChunkSize) (t.layers i) =
        .ok (offsetSlots (t.layers i).numFreeSlots seqs.length chunk (t.layers i).freeSlotsStack)
          (commitRows (seqs.length * chunk) chunk (plan i)
            (offsetSlots (t.layers i).numFreeSlots seqs.length chunk
              (t.layers i).freeSlotsStack) (l i)) :=
    fun i hi => allocateEach_ok (hsound i hi).distinct hids hsize (hroom i hi)
      (hstack i hi) (hplan i hi)
  rw [hselected]
  refine ⟨_, commit_ok cfg.kvLayers_nodup plan _ hlayer, ?_⟩
  unfold allocateEach
  rw [mapEach_onLayer_ok cfg.kvLayers_nodup heach, setLayers_setLayers]

/-- **Batched allocation is sequential allocation**, or raises with nothing taken, exactly when the
rows are planned cleanly. -/
theorem allocatesAlike_iff (cfg : SlotConfig) (t : SlotTables) (seqs : List PrefillSeq) (chunk : Nat)
    (hsound : ∀ i ∈ cfg.kvLayers, (t.layers i).Sound)
    (hids : (seqs.map PrefillSeq.seqId).Nodup)
    (hsize : ∀ seq ∈ seqs, seq.currentChunkSize = chunk) :
    AllocatesAlike cfg seqs t ↔ Declines cfg chunk seqs ∨ PlansCleanly cfg chunk seqs t := by
  unfold AllocatesAlike allocatePrefillBatchSameSizeAllLayers
  by_cases hdeclines : Declines cfg chunk seqs
  · rw [if_pos]
    · exact iff_of_true rfl (Or.inl hdeclines)
    · rcases hdeclines with h | h | h | h
      · exact Or.inl h
      · exact Or.inr (Or.inl h)
      · cases seqs with
        | nil => exact Or.inr (Or.inl rfl)
        | cons seq rest => exact Or.inr (Or.inr (Or.inl ((hsize seq List.mem_cons_self).trans h)))
      · exact Or.inr (Or.inr (Or.inr (Or.inr h)))
  · rw [or_iff_right hdeclines]
    unfold Declines at hdeclines
    push Not at hdeclines
    obtain ⟨htensor, hseqs, hchunk, hlayers⟩ := hdeclines
    have hhead : (seqs.head?.map (·.currentChunkSize)).getD 0 = chunk := by
      cases seqs with
      | nil => exact absurd rfl hseqs
      | cons seq rest => exact hsize seq List.mem_cons_self
    have happlies : ¬ (cfg.hasStackTensor = false ∨ seqs = [] ∨ chunk = 0 ∨
        (∃ seq ∈ seqs, seq.currentChunkSize ≠ chunk) ∨ cfg.kvLayers = []) := by
      push Not
      exact ⟨htensor, hseqs, hchunk, hsize, hlayers⟩
    rw [hhead, if_neg happlies, get_bind, raiseIf_bind]
    unfold PlansCleanly
    by_cases hfew : ∃ i ∈ cfg.kvLayers, (t.layers i).numFreeSlots < seqs.length * chunk
    · rw [if_pos ((min_lt_iff hlayers).mpr hfew)]
      exact iff_of_true rfl (Or.inl hfew)
    · rw [if_neg fun hmin => hfew ((min_lt_iff hlayers).mp hmin), or_iff_right hfew]
      have hexclusive : ∀ i ∈ cfg.kvLayers, RowsBlocked cfg chunk (t.layers i) seqs →
          ¬ RowsFit cfg chunk (t.layers i) seqs := fun i _ hblocked => hblocked.not_rowsFit
      have hout := mapEach_onLayer_outcome cfg.kvLayers_nodup hexclusive
        fun i hi => planRows_outcome i (hsound i hi).freeRow hids
      cases hplans : mapEach cfg.kvLayers
          (fun i => onLayer i (mapEach seqs (planRow cfg i chunk))) t with
      | ok plans t' =>
        rw [hplans] at hout
        push Not at hfew
        obtain ⟨t'', hcommit, heach⟩ :=
          allocatePrefillBatch_ok hsound hids hsize hfew hplans
        rw [bind_ok hplans, get_bind, bind_ok hcommit]
        exact iff_of_true heach (Or.inl hout)
      | error e t' =>
        rw [hplans] at hout
        rw [bind_error hplans, or_iff_right hout.1]
        exact hout.2

/-- One layer with two slots, for rows of two tokens. -/
def smallSlotConfig (rows : Nat) : SlotConfig where
  kvLayers := [0]
  kvLayers_nodup := List.nodup_singleton 0
  maxModelLen := 2
  maxBufferRows := rows
  numSlots _ := 2
  hasStackTensor := true
  tileElements := 1
  tileElements_pos := Nat.one_pos

/-- Two new sequences with a chunk of one token. -/
def twoNewSeqs : List PrefillSeq :=
  [{ seqId := 10, currentChunkSize := 1, numPrefilledTokens := 0 },
    { seqId := 11, currentChunkSize := 1, numPrefilledTokens := 0 }]

theorem allocatesAlike_twoRows :
    AllocatesAlike (smallSlotConfig 2) twoNewSeqs (initial (smallSlotConfig 2) false) := by
  refine (allocatesAlike_iff _ _ _ 1 (fun i _ => (consistent_initial _ i).sound) (by decide)
    (by decide)).mpr (Or.inr (Or.inr (Or.inl fun i _ => ⟨Nat.le_refl 2, ?_⟩)))
  intro seq hseq
  rcases List.mem_pair.mp hseq with rfl | rfl
  · exact ⟨Or.inr rfl, Nat.le_succ 1⟩
  · exact ⟨Or.inr rfl, Nat.le_succ 1⟩

/-- With one free row the second sequence raises, and the first keeps the row. -/
theorem row_kept_by_failed_batch :
    (∀ i ∈ (smallSlotConfig 1).kvLayers,
      ((initial (smallSlotConfig 1) false).layers i).Sound) ∧
    (twoNewSeqs.map PrefillSeq.seqId).Nodup ∧
    (∀ seq ∈ twoNewSeqs, seq.currentChunkSize = 1) ∧
    ¬ AllocatesAlike (smallSlotConfig 1) twoNewSeqs (initial (smallSlotConfig 1) false) := by
  refine ⟨fun i _ => (consistent_initial _ i).sound, by decide, by decide, fun h => ?_⟩
  have hrows : ([] : List Nat) = [0] := congrArg (fun t : SlotTables => (t.layers 0).freeRows) h
  cases hrows

end SlotTables

end SparseVllm
