import SparseVllm.SnapKv.Select
import SparseVllm.SnapKv.Slots

/-!
# Compaction of rows (`cache_manager/snapkv.py`)

A compaction keeps some positions of a row, moves their slots to the front, pads with zeros, and
pushes the dropped slots on the layer's free stack. One row is compacted through copies
(`_apply_free_part_slots`), rows of one length in tiles of rows (`_compact_uniform_row_tile`), and a
row longer than a tile in place, in tiles of columns (`_compact_single_row_column_tiles`).

## Results

* `compactSingleRowColumnTiles_spec`: the tiles moved in place leave what the copies would.
* `applyFreePartSlots_spec`, `compactUniformRowsBounded_spec`: each path does what `RowsCompacted` says.
-/

namespace SparseVllm

open SparseVllm.Lib

inductive CompactionOp where
  | freePartSlots
  | freePartSlotsBatch
  | freePartSlotsBatchLayers
  deriving DecidableEq, Repr

inductive CompactionError where
  | notKvLayer (layer : Nat)
  | missingRow
  | keepShape (op : CompactionOp)
  | emptyKeep (op : CompactionOp)
  | keepIndices (op : CompactionOp) (error : KeepIndicesError)
  | stackOverflow (op : CompactionOp) (layer ptr : Nat) (release : Int) (capacity : Nat)
  | duplicateRows (op : CompactionOp) (layer : Nat) (rows : List Nat)
  | duplicateLayers (layers : List Nat)
  | sliceMismatch
  | keepsNothing
  | unevenRows (kvLen : Nat)
  deriving DecidableEq, Repr

/-! ## The methods of one layer -/

namespace SlotLayer

/-- Slots pushed on the free stack. -/
def push (slots : List Nat) (l : SlotLayer) : SlotLayer :=
  { l with
    freeSlotsStack := overwrite l.numFreeSlots slots l.freeSlotsStack
    numFreeSlots := l.numFreeSlots + slots.length }

/-- A row and its length replaced. -/
def setRow (row : Nat) (slots : List Nat) (len : Nat) (l : SlotLayer) : SlotLayer :=
  { l with
    bufferReqToTokenSlots := Function.update l.bufferReqToTokenSlots row slots
    rowSeqLens := Function.update l.rowSeqLens row len }

/-- `slot_row[start:] = 0`. -/
def zeroFrom (start : Nat) (row : List Nat) : List Nat :=
  overwrite start (List.replicate (row.length - start) 0) row

/-- `seq_id_to_row[layer].get(seq_id)`, or `ValueError`. -/
def mappedRow (seqId : Nat) : EStateM CompactionError SlotLayer Nat := do
  let l ← get
  match l.seqIdToRow.get? seqId with
  | some rowIdx => pure rowIdx
  | none => throw .missingRow

/-- `_prepare_compaction_keep_indices`. -/
def prepareKeep {σ : Type} (op : CompactionOp) (keepIndicesSorted : Bool)
    (rows : List (List Int × Nat)) : EStateM CompactionError σ (List (List Int)) :=
  match prepareCompactionKeepIndices keepIndicesSorted rows with
  | .ok keep => pure keep
  | .error e => throw (.keepIndices op e)

/-- `_preflight_compaction_free_capacity`. -/
def preflightCompactionFreeCapacity (op : CompactionOp) (layerIdx : Nat) (releaseCount : Int) :
    EStateM CompactionError SlotLayer Unit := do
  let l ← get
  raiseIf (releaseCount < 0 ∨ (l.freeSlotsStack.length : Int) < l.numFreeSlots + releaseCount)
    (.stackOverflow op layerIdx l.numFreeSlots releaseCount l.freeSlotsStack.length)

/-- `_append_compaction_free_slots`. -/
def appendCompactionFreeSlots (droppedSlots : List Nat) :
    EStateM CompactionError SlotLayer Unit := do
  let l ← get
  if droppedSlots.length = 0 then pure ()
  else do
    raiseIf (l.freeSlotsStack.length < l.numFreeSlots + droppedSlots.length) .sliceMismatch
    set (l.push droppedSlots)

/-- `_apply_free_part_slots`. -/
def applyFreePartSlots (rowIdx curLen : Nat) (keepIndices : List Nat) :
    EStateM CompactionError SlotLayer Unit := do
  let l ← get
  let oldSlots := (l.bufferReqToTokenSlots rowIdx).take curLen
  let newSlots := gather 0 keepIndices oldSlots
  appendCompactionFreeSlots (without 0 keepIndices oldSlots)
  modify fun l => l.setRow rowIdx
    (overwrite 0 newSlots (List.replicate (l.bufferReqToTokenSlots rowIdx).length 0))
    newSlots.length

/-- New entries of rows, each followed by zeros. -/
def writeRows (newLen : Nat) (rowIndices : List Nat) (newSlots : List (List Nat))
    (l : SlotLayer) : SlotLayer :=
  { l with
    bufferReqToTokenSlots := scatter (fun new row => zeroFrom newLen (overwrite 0 new row))
      (rowIndices.zip newSlots) l.bufferReqToTokenSlots
    rowSeqLens := fun row => if row ∈ rowIndices then newLen else l.rowSeqLens row }

/-- `_compact_uniform_row_tile`. -/
def compactUniformRowTile (rowIndices : List Nat) (curLen : Nat) (keepIndices : List (List Nat)) :
    EStateM CompactionError SlotLayer Unit := do
  let l ← get
  let oldSlots := rowIndices.map fun row => (l.bufferReqToTokenSlots row).take curLen
  let newSlots := List.zipWith (gather 0) keepIndices oldSlots
  appendCompactionFreeSlots (List.zipWith (without 0) keepIndices oldSlots).flatten
  modify (writeRows (newSlots.headD []).length rowIndices newSlots)

/-- The slots a tile of columns drops. -/
def dropTile (rowIdx : Nat) (keepIndices : List Nat) (tile : Nat × Nat) :
    EStateM CompactionError SlotLayer Unit := do
  let l ← get
  let oldSlots := between tile.1 tile.2 (l.bufferReqToTokenSlots rowIdx)
  let left := searchsorted keepIndices tile.1
  let right := searchsorted keepIndices tile.2
  let kept := (between left right keepIndices).map (· - tile.1)
  appendCompactionFreeSlots (without 0 kept oldSlots)

/-- The slots a tile of the new row gets, read from the row itself. -/
def moveTile (rowIdx : Nat) (keepIndices : List Nat) (tile : Nat × Nat) :
    EStateM CompactionError SlotLayer Unit := modify fun l =>
  let slotRow := l.bufferReqToTokenSlots rowIdx
  let selectedSlots := gather 0 (between tile.1 tile.2 keepIndices) slotRow
  l.setRow rowIdx (overwrite tile.1 selectedSlots slotRow) (l.rowSeqLens rowIdx)

/-- `_compact_single_row_column_tiles`: all drops are read before the first move. -/
def compactSingleRowColumnTiles (rowIdx curLen : Nat) (keepIndices : List Nat)
    (tileElements : Nat) : EStateM CompactionError SlotLayer Unit := do
  forEach (tiles curLen tileElements) (dropTile rowIdx keepIndices)
  let newLen := keepIndices.length
  forEach (tiles newLen tileElements) (moveTile rowIdx keepIndices)
  modify fun l => l.setRow rowIdx (zeroFrom newLen (l.bufferReqToTokenSlots rowIdx)) newLen

/-- `_compact_uniform_rows_bounded`. -/
def compactUniformRowsBounded (cfg : SlotConfig) (rowIndices : List Nat) (curLen : Nat)
    (keepIndices : List (List Nat)) : EStateM CompactionError SlotLayer Unit :=
  if curLen ≤ cfg.tileElements then
    let rowsPerTile := max 1 (cfg.tileElements / max 1 curLen)
    forEach (tiles rowIndices.length rowsPerTile) fun tile =>
      compactUniformRowTile (between tile.1 tile.2 rowIndices) curLen
        (between tile.1 tile.2 keepIndices)
  else
    forEach (rowIndices.zip keepIndices) fun p =>
      compactSingleRowColumnTiles p.1 curLen p.2 cfg.tileElements

/-! ## What a compaction does -/

/-- The rows of the jobs keep the given positions of their slots; their other slots are on the free
stack. -/
structure RowsCompacted (l l' : SlotLayer) (jobs : List (Nat × List Nat)) : Prop where
  row : ∀ p ∈ jobs, l'.bufferReqToTokenSlots p.1 = gather 0 p.2 (l.rowSlots p.1) ++
    List.replicate ((l.bufferReqToTokenSlots p.1).length - p.2.length) 0
  rowLen : ∀ p ∈ jobs, l'.rowSeqLens p.1 = p.2.length
  otherRow : ∀ row ∉ jobs.map Prod.fst, l'.bufferReqToTokenSlots row = l.bufferReqToTokenSlots row ∧
    l'.rowSeqLens row = l.rowSeqLens row
  freed : l'.freeSlots = l.freeSlots ++ jobs.flatMap fun p => without 0 p.2 (l.rowSlots p.1)
  stack : l'.freeSlotsStack.length = l.freeSlotsStack.length
  ptr_le : l'.numFreeSlots ≤ l'.freeSlotsStack.length
  rowMap : l'.seqIdToRow = l.seqIdToRow ∧ l'.freeRows = l.freeRows

/-- Distinct rows, increasing positions within each, and room for what is dropped. -/
structure Ready (l : SlotLayer) (jobs : List (Nat × List Nat)) : Prop where
  rows : (jobs.map Prod.fst).Nodup
  increasing : ∀ p ∈ jobs, p.2.Pairwise (· < ·)
  inRange : ∀ p ∈ jobs, ∀ i ∈ p.2, i < l.rowSeqLens p.1
  width : ∀ p ∈ jobs, l.rowSeqLens p.1 ≤ (l.bufferReqToTokenSlots p.1).length
  room : l.numFreeSlots + (jobs.map fun p => l.rowSeqLens p.1 - p.2.length).sum ≤
    l.freeSlotsStack.length

variable {l l₁ l₂ : SlotLayer} {jobs jobs₁ jobs₂ : List (Nat × List Nat)} {slots : List Nat}

/-! ### Rules for jobs -/

theorem length_freeSlots (h : l.numFreeSlots ≤ l.freeSlotsStack.length) :
    l.freeSlots.length = l.numFreeSlots := by
  unfold freeSlots
  rw [List.length_take, Nat.min_eq_left h]

theorem freeSlots_push (h : l.numFreeSlots ≤ l.freeSlotsStack.length) :
    (l.push slots).freeSlots = l.freeSlots ++ slots := take_overwrite h

theorem push_append {slots' : List Nat}
    (h : l.numFreeSlots + slots.length ≤ l.freeSlotsStack.length) :
    (l.push slots).push slots' = l.push (slots ++ slots') := by
  unfold push
  dsimp only
  rw [overwrite_append h, List.length_append, Nat.add_assoc]

theorem appendCompactionFreeSlots_ok
    (h : l.numFreeSlots + slots.length ≤ l.freeSlotsStack.length) :
    appendCompactionFreeSlots slots l = .ok () (l.push slots) := by
  unfold appendCompactionFreeSlots
  rw [get_bind]
  split
  · rename_i hempty
    rw [List.length_eq_zero_iff] at hempty
    subst hempty
    unfold push
    rw [overwrite_nil]
    rfl
  · rw [raiseIf_bind, if_neg (Nat.not_lt.mpr h)]
    rfl

namespace Ready

theorem nodup (h : Ready l jobs) {p : Nat × List Nat} (hp : p ∈ jobs) : p.2.Nodup :=
  (h.increasing p hp).imp fun hlt => Nat.ne_of_lt hlt

theorem length_rowSlots (h : Ready l jobs) {p : Nat × List Nat} (hp : p ∈ jobs) :
    (l.rowSlots p.1).length = l.rowSeqLens p.1 := by
  unfold rowSlots
  rw [List.length_take, Nat.min_eq_left (h.width p hp)]

theorem length_dropped (h : Ready l jobs) {p : Nat × List Nat} (hp : p ∈ jobs) :
    (without 0 p.2 (l.rowSlots p.1)).length = l.rowSeqLens p.1 - p.2.length := by
  rw [length_without (h.nodup hp), h.length_rowSlots hp]
  rw [h.length_rowSlots hp]
  exact h.inRange p hp

theorem length_flatMap (h : Ready l jobs) :
    (jobs.flatMap fun p => without 0 p.2 (l.rowSlots p.1)).length =
      (jobs.map fun p => l.rowSeqLens p.1 - p.2.length).sum := by
  rw [List.length_flatMap]
  exact congrArg List.sum (List.map_congr_left fun p hp => h.length_dropped hp)

theorem ptr_le (h : Ready l jobs) : l.numFreeSlots ≤ l.freeSlotsStack.length :=
  (Nat.le_add_right _ _).trans h.room

theorem left (h : Ready l (jobs₁ ++ jobs₂)) : Ready l jobs₁ := by
  have hroom := h.room
  rw [List.map_append, List.sum_append] at hroom
  refine ⟨(List.map_append ▸ h.rows).of_append_left, ?_, ?_, ?_, by omega⟩
  · exact fun p hp => h.increasing p (List.mem_append_left jobs₂ hp)
  · exact fun p hp => h.inRange p (List.mem_append_left jobs₂ hp)
  · exact fun p hp => h.width p (List.mem_append_left jobs₂ hp)

end Ready

namespace RowsCompacted

theorem refl (h : l.numFreeSlots ≤ l.freeSlotsStack.length) : RowsCompacted l l [] := by
  refine ⟨nofun, nofun, fun _ _ => ⟨rfl, rfl⟩, ?_, rfl, h, rfl, rfl⟩
  rw [List.flatMap_nil, List.append_nil]

/-- A row of other jobs. -/
theorem rowSlots_of_notMem (h : RowsCompacted l l₁ jobs) {row : Nat} (hrow : row ∉ jobs.map Prod.fst) :
    l₁.rowSlots row = l.rowSlots row := by
  unfold rowSlots
  rw [(h.otherRow row hrow).1, (h.otherRow row hrow).2]

theorem numFreeSlots_eq (h : RowsCompacted l l₁ jobs) (hready : Ready l jobs) :
    l₁.numFreeSlots = l.numFreeSlots + (jobs.map fun p => l.rowSeqLens p.1 - p.2.length).sum := by
  have hlen := congrArg List.length h.freed
  rw [List.length_append, length_freeSlots h.ptr_le, length_freeSlots hready.ptr_le,
    hready.length_flatMap] at hlen
  exact hlen

/-- The rows of the jobs that are left. -/
theorem restRow (h : RowsCompacted l l₁ jobs₁) (hrows : ((jobs₁ ++ jobs₂).map Prod.fst).Nodup)
    {p : Nat × List Nat} (hp : p ∈ jobs₂) :
    l₁.bufferReqToTokenSlots p.1 = l.bufferReqToTokenSlots p.1 ∧
      l₁.rowSeqLens p.1 = l.rowSeqLens p.1 := by
  rw [List.map_append] at hrows
  exact h.otherRow p.1 fun hmem =>
    (List.nodup_append.mp hrows).2.2 p.1 hmem p.1 (List.mem_map_of_mem hp) rfl

/-- The jobs that are left. -/
theorem rest (h : RowsCompacted l l₁ jobs₁) (hready : Ready l (jobs₁ ++ jobs₂)) : Ready l₁ jobs₂ := by
  have hlens : ∀ p ∈ jobs₂, l₁.rowSeqLens p.1 = l.rowSeqLens p.1 := fun p hp =>
    (h.restRow hready.rows hp).2
  refine ⟨(List.map_append ▸ hready.rows).of_append_right, ?_, ?_, ?_, ?_⟩
  · exact fun p hp => hready.increasing p (List.mem_append_right jobs₁ hp)
  · intro p hp
    rw [hlens p hp]
    exact hready.inRange p (List.mem_append_right jobs₁ hp)
  · intro p hp
    rw [hlens p hp, (h.restRow hready.rows hp).1]
    exact hready.width p (List.mem_append_right jobs₁ hp)
  · have hroom := hready.room
    rw [List.map_append, List.sum_append] at hroom
    have hsum : (jobs₂.map fun p => l₁.rowSeqLens p.1 - p.2.length) =
        jobs₂.map fun p => l.rowSeqLens p.1 - p.2.length :=
      List.map_congr_left fun p hp => by rw [hlens p hp]
    rw [h.stack, h.numFreeSlots_eq hready.left, hsum]
    omega

/-- Two compactions of distinct rows are one. -/
theorem trans (h₁ : RowsCompacted l l₁ jobs₁) (h₂ : RowsCompacted l₁ l₂ jobs₂)
    (hrows : ((jobs₁ ++ jobs₂).map Prod.fst).Nodup) : RowsCompacted l l₂ (jobs₁ ++ jobs₂) := by
  rw [List.map_append] at hrows
  have hdisjoint := (List.nodup_append.mp hrows).2.2
  have hfirst : ∀ p ∈ jobs₁, p.1 ∉ jobs₂.map Prod.fst := fun p hp hmem =>
    hdisjoint p.1 (List.mem_map_of_mem hp) p.1 hmem rfl
  have hsecond : ∀ p ∈ jobs₂, p.1 ∉ jobs₁.map Prod.fst := fun p hp hmem =>
    hdisjoint p.1 hmem p.1 (List.mem_map_of_mem hp) rfl
  constructor
  · intro p hp
    rcases List.mem_append.mp hp with hp | hp
    · rw [(h₂.otherRow p.1 (hfirst p hp)).1]
      exact h₁.row p hp
    · rw [h₂.row p hp, h₁.rowSlots_of_notMem (hsecond p hp), (h₁.otherRow p.1 (hsecond p hp)).1]
  · intro p hp
    rcases List.mem_append.mp hp with hp | hp
    · rw [(h₂.otherRow p.1 (hfirst p hp)).2]
      exact h₁.rowLen p hp
    · exact h₂.rowLen p hp
  · intro row hrow
    rw [List.map_append, List.mem_append, not_or] at hrow
    obtain ⟨hbuffer₁, hlen₁⟩ := h₁.otherRow row hrow.1
    obtain ⟨hbuffer₂, hlen₂⟩ := h₂.otherRow row hrow.2
    exact ⟨hbuffer₂.trans hbuffer₁, hlen₂.trans hlen₁⟩
  · rw [h₂.freed, h₁.freed, List.flatMap_append, List.append_assoc]
    have hdropped : (jobs₂.flatMap fun p => without 0 p.2 (l₁.rowSlots p.1)) =
        jobs₂.flatMap fun p => without 0 p.2 (l.rowSlots p.1) :=
      List.flatMap_congr fun p hp => by rw [h₁.rowSlots_of_notMem (hsecond p hp)]
    rw [hdropped]
  · exact h₂.stack.trans h₁.stack
  · exact h₂.ptr_le
  · exact ⟨h₂.rowMap.1.trans h₁.rowMap.1, h₂.rowMap.2.trans h₁.rowMap.2⟩

/-- A compaction after another one. -/
theorem next {m : EStateM CompactionError SlotLayer Unit} (h : RowsCompacted l l₁ jobs₁)
    (hready : Ready l (jobs₁ ++ jobs₂))
    (hm : Ready l₁ jobs₂ → Spec (· = l₁) m (fun _ l' => RowsCompacted l₁ l' jobs₂) fun _ _ => False) :
    Spec (· = l₁) m (fun _ l' => RowsCompacted l l' (jobs₁ ++ jobs₂)) fun _ _ => False :=
  (hm (h.rest hready)).post fun _ _ h₂ => h.trans h₂ hready.rows

end RowsCompacted

/-- One job after another. -/
theorem forEach_spec {body : Nat × List Nat → EStateM CompactionError SlotLayer Unit}
    (lens : Nat → Nat) (hready : Ready l jobs) (hlens : ∀ p ∈ jobs, l.rowSeqLens p.1 = lens p.1)
    (hbody : ∀ l₁, ∀ p ∈ jobs, Ready l₁ [p] → l₁.rowSeqLens p.1 = lens p.1 →
      Spec (· = l₁) (body p) (fun _ l' => RowsCompacted l₁ l' [p]) fun _ _ => False) :
    Spec (· = l) (forEach jobs body) (fun _ l' => RowsCompacted l l' jobs) fun _ _ => False := by
  induction jobs generalizing l with
  | nil =>
    rintro _ rfl
    exact RowsCompacted.refl hready.ptr_le
  | cons p jobs ih =>
    have hsplit : Ready l ([p] ++ jobs) := hready
    have hfirst := hbody l p List.mem_cons_self hsplit.left (hlens p List.mem_cons_self)
    refine Spec.bind hfirst fun _ => Spec.intro fun l₁ h₁ => ?_
    refine h₁.next hsplit fun hrest => ih hrest (fun q hq => ?_)
      fun l₂ q hq => hbody l₂ q (List.mem_cons_of_mem p hq)
    exact (h₁.restRow hsplit.rows hq).2.trans (hlens q (List.mem_cons_of_mem p hq))

/-! ### Through copies -/

/-- Rows written after their dropped slots are pushed. -/
theorem compacts_of_push (buffer : Nat → List Nat) (lens : Nat → Nat) (hready : Ready l jobs)
    (hrow : ∀ p ∈ jobs, buffer p.1 = gather 0 p.2 (l.rowSlots p.1) ++
      List.replicate ((l.bufferReqToTokenSlots p.1).length - p.2.length) 0)
    (hlen : ∀ p ∈ jobs, lens p.1 = p.2.length)
    (hother : ∀ row ∉ jobs.map Prod.fst, buffer row = l.bufferReqToTokenSlots row ∧
      lens row = l.rowSeqLens row) :
    RowsCompacted l
      { l.push (jobs.flatMap fun p => without 0 p.2 (l.rowSlots p.1)) with
        bufferReqToTokenSlots := buffer, rowSeqLens := lens } jobs := by
  have hroom := hready.room
  rw [← hready.length_flatMap] at hroom
  have hstack := length_overwrite hroom
  refine ⟨hrow, hlen, hother, freeSlots_push hready.ptr_le, hstack, ?_, rfl, rfl⟩
  exact hroom.trans hstack.ge

theorem push_room (hready : Ready l jobs) : l.numFreeSlots +
    (jobs.flatMap fun p => without 0 p.2 (l.rowSlots p.1)).length ≤ l.freeSlotsStack.length := by
  rw [hready.length_flatMap]
  exact hready.room

/-- The kept slots of a row and zeros fill it. -/
theorem zeroFrom_overwrite {new row : List Nat} (h : new.length ≤ row.length) :
    zeroFrom new.length (overwrite 0 new row) =
      new ++ List.replicate (row.length - new.length) 0 := by
  have hlen : (overwrite 0 new row).length = row.length := length_overwrite (by omega)
  unfold zeroFrom
  rw [hlen, overwrite_zero, overwrite, List.take_left, List.length_replicate,
    List.drop_eq_nil_of_le, List.append_nil]
  simp

/-- The room a job's kept slots have in its row. -/
theorem Ready.keep_le (h : Ready l jobs) {p : Nat × List Nat} (hp : p ∈ jobs) :
    p.2.length ≤ (l.bufferReqToTokenSlots p.1).length :=
  (length_le_of_nodup (h.nodup hp) (h.inRange p hp)).trans (h.width p hp)

theorem applyFreePartSlots_spec {row : Nat} {keep : List Nat} (hready : Ready l [(row, keep)]) :
    Spec (· = l) (applyFreePartSlots row (l.rowSeqLens row) keep)
      (fun _ l' => RowsCompacted l l' [(row, keep)]) fun _ _ => False := by
  have hroom := push_room hready
  have hdone := compacts_of_push
    (Function.update l.bufferReqToTokenSlots row (overwrite 0 (gather 0 keep (l.rowSlots row))
      (List.replicate (l.bufferReqToTokenSlots row).length 0)))
    (Function.update l.rowSeqLens row (gather 0 keep (l.rowSlots row)).length) hready
    (by
      intro p hp
      obtain rfl := List.mem_singleton.mp hp
      rw [Function.update_self, overwrite_zero, List.drop_replicate, length_gather])
    (by
      intro p hp
      obtain rfl := List.mem_singleton.mp hp
      rw [Function.update_self, length_gather])
    (by
      intro other hother
      rw [List.map_singleton, List.mem_singleton] at hother
      exact ⟨Function.update_of_ne hother .., Function.update_of_ne hother ..⟩)
  rw [List.flatMap_singleton] at hroom hdone
  have happend : appendCompactionFreeSlots
      (without 0 keep ((l.bufferReqToTokenSlots row).take (l.rowSeqLens row))) l =
        .ok () (l.push (without 0 keep (l.rowSlots row))) := appendCompactionFreeSlots_ok hroom
  rintro _ rfl
  unfold applyFreePartSlots
  rw [get_bind, bind_ok happend]
  exact hdone

/-- Rows of one length, read together. -/
theorem zipWith_jobs {curLen : Nat} (hlen : ∀ p ∈ jobs, l.rowSeqLens p.1 = curLen) {α : Type}
    (f : List Nat → List Nat → α) :
    List.zipWith f (jobs.map Prod.snd) ((jobs.map Prod.fst).map fun row =>
      (l.bufferReqToTokenSlots row).take curLen) = jobs.map fun p => f p.2 (l.rowSlots p.1) := by
  rw [List.map_map, List.zipWith_map, List.zipWith_self]
  refine List.map_congr_left fun p hp => ?_
  rw [Function.comp_apply, rowSlots, hlen p hp]

/-- Rows written together after their dropped slots are pushed. -/
theorem compacts_writeRows {n : Nat} (hready : Ready l jobs) (hkeep : ∀ p ∈ jobs, p.2.length = n) :
    RowsCompacted l
      (writeRows n (jobs.map Prod.fst) (jobs.map fun p => gather 0 p.2 (l.rowSlots p.1))
        (l.push (jobs.flatMap fun p => without 0 p.2 (l.rowSlots p.1)))) jobs := by
  have hwrites : (jobs.map Prod.fst).zip (jobs.map fun p => gather 0 p.2 (l.rowSlots p.1)) =
      jobs.map fun p => (p.1, gather 0 p.2 (l.rowSlots p.1)) := by
    rw [List.zip_map']
  have hfst : (jobs.map fun p => (p.1, gather 0 p.2 (l.rowSlots p.1))).map Prod.fst =
      jobs.map Prod.fst := by
    rw [List.map_map]
    rfl
  have hnodup := hready.rows
  rw [← hfst] at hnodup
  unfold writeRows
  rw [hwrites]
  refine compacts_of_push _ _ hready (fun p hp => ?_) (fun p hp => ?_) fun row hother => ?_
  · have hwrite := scatter_of_mem (g := fun new row => zeroFrom n (overwrite 0 new row))
      l.bufferReqToTokenSlots hnodup (List.mem_map_of_mem hp)
    have hkept : (gather 0 p.2 (l.rowSlots p.1)).length = n := by
      rw [length_gather, hkeep p hp]
    have hfits : (gather 0 p.2 (l.rowSlots p.1)).length ≤
        (l.bufferReqToTokenSlots p.1).length := by
      rw [length_gather]
      exact hready.keep_le hp
    refine hwrite.trans ?_
    rw [← hkept, zeroFrom_overwrite hfits, length_gather]
  · rw [if_pos (List.mem_map_of_mem hp), hkeep p hp]
  · refine ⟨scatter_of_notMem (by rwa [hfst]), if_neg hother⟩

/-- The length of the rows a tile writes. -/
theorem newLen_jobs {n : Nat} (hne : jobs ≠ []) (hkeep : ∀ p ∈ jobs, p.2.length = n) :
    ((jobs.map fun p => gather 0 p.2 (l.rowSlots p.1)).headD []).length = n := by
  cases jobs with
  | nil => exact absurd rfl hne
  | cons p jobs => exact (length_gather ..).trans (hkeep p List.mem_cons_self)

/-- A tile of rows of one length. -/
theorem compactUniformRowTile_spec {curLen n : Nat} (hne : jobs ≠ []) (hready : Ready l jobs)
    (hlen : ∀ p ∈ jobs, l.rowSeqLens p.1 = curLen) (hkeep : ∀ p ∈ jobs, p.2.length = n) :
    Spec (· = l) (compactUniformRowTile (jobs.map Prod.fst) curLen (jobs.map Prod.snd))
      (fun _ l' => RowsCompacted l l' jobs) fun _ _ => False := by
  have hdone := compacts_writeRows hready hkeep
  rintro _ rfl
  unfold compactUniformRowTile
  rw [get_bind, zipWith_jobs hlen, zipWith_jobs hlen, ← List.flatMap_def,
    bind_ok (appendCompactionFreeSlots_ok (push_room hready)), newLen_jobs hne hkeep]
  exact hdone

/-! ### In place -/

@[simp] theorem setRow_setRow (row : Nat) (slots slots' : List Nat) (n n' : Nat) (l : SlotLayer) :
    (l.setRow row slots n).setRow row slots' n' = l.setRow row slots' n' := by
  unfold setRow
  simp

@[simp] theorem setRow_slots (row : Nat) (slots : List Nat) (n : Nat) (l : SlotLayer) :
    (l.setRow row slots n).bufferReqToTokenSlots row = slots := Function.update_self ..

@[simp] theorem setRow_len (row : Nat) (slots : List Nat) (n : Nat) (l : SlotLayer) :
    (l.setRow row slots n).rowSeqLens row = n := Function.update_self ..

theorem setRow_self (row : Nat) (l : SlotLayer) :
    l.setRow row (l.bufferReqToTokenSlots row) (l.rowSeqLens row) = l := by
  unfold setRow
  simp

@[simp] theorem push_nil (l : SlotLayer) : l.push [] = l := by
  unfold push
  rw [overwrite_nil]
  rfl

theorem dropTile_ok {row start stop : Nat} {keep slots : List Nat}
    (hrow : l.bufferReqToTokenSlots row = slots) (hkeep : keep.Pairwise (· < ·))
    (hle : start ≤ stop) (hstop : stop ≤ slots.length)
    (hroom : l.numFreeSlots + (dropped 0 keep start stop slots).length ≤
      l.freeSlotsStack.length) :
    dropTile row keep (start, stop) l = .ok () (l.push (dropped 0 keep start stop slots)) := by
  unfold dropTile
  rw [get_bind, hrow, without_tile hkeep hle hstop]
  exact appendCompactionFreeSlots_ok hroom

/-- The dropped slots of a row, pushed tile by tile. -/
theorem dropTiles_spec {row n tile : Nat} {keep : List Nat} (htile : 0 < tile)
    (hkeep : keep.Pairwise (· < ·)) (hwidth : n ≤ (l.bufferReqToTokenSlots row).length)
    (hroom : l.numFreeSlots + (dropped 0 keep 0 n (l.bufferReqToTokenSlots row)).length ≤
      l.freeSlotsStack.length) :
    Spec (· = l) (forEach (tiles n tile) (dropTile row keep))
      (fun _ l' => l' = l.push (dropped 0 keep 0 n (l.bufferReqToTokenSlots row)))
      fun _ _ => False := by
  have hbody : ∀ start, start < n →
      Spec (fun l' => l' = l.push (dropped 0 keep 0 start (l.bufferReqToTokenSlots row)))
        (dropTile row keep (start, min n (start + tile)))
        (fun _ l' => l' = l.push (dropped 0 keep 0 (min n (start + tile))
          (l.bufferReqToTokenSlots row))) fun _ _ => False := by
    rintro start hstart _ rfl
    have hle : start ≤ min n (start + tile) := by omega
    have hfirst := dropped_append hle 0 keep (l.bufferReqToTokenSlots row)
    have hall := dropped_append (Nat.min_le_left n (start + tile)) 0 keep
      (l.bufferReqToTokenSlots row)
    have hlen₁ := congrArg List.length hfirst
    have hlen₂ := congrArg List.length hall
    rw [List.length_append] at hlen₁ hlen₂
    have hpushed : (l.push (dropped 0 keep 0 start
        (l.bufferReqToTokenSlots row))).freeSlotsStack.length = l.freeSlotsStack.length :=
      length_overwrite (by omega)
    have hrow : (l.push (dropped 0 keep 0 start
        (l.bufferReqToTokenSlots row))).bufferReqToTokenSlots row = l.bufferReqToTokenSlots row :=
      rfl
    have hstep := dropTile_ok hrow hkeep hle ((Nat.min_le_left n _).trans hwidth) (by
        rw [hpushed]
        show l.numFreeSlots + _ + _ ≤ _
        omega)
    rw [hstep]
    exact (push_append (by omega)).trans (congrArg (l.push ·) hfirst)
  refine (Spec.forTiles htile hbody).pre fun l' hl' => ?_
  rw [hl']
  exact (push_nil l).symm

/-- The kept slots of a row, moved tile by tile. -/
theorem moveTiles_spec {row tile : Nat} {keep : List Nat} (htile : 0 < tile)
    (hkeep : keep.Pairwise (· < ·)) :
    Spec (· = l) (forEach (tiles keep.length tile) (moveTile row keep))
      (fun _ l' => l' = l.setRow row (gather 0 keep (l.bufferReqToTokenSlots row) ++
        (l.bufferReqToTokenSlots row).drop keep.length) (l.rowSeqLens row))
      fun _ _ => False := by
  have hbody : ∀ start, start < keep.length →
      Spec (fun l' => l' = l.setRow row (gather 0 (keep.take start) (l.bufferReqToTokenSlots row) ++
          (l.bufferReqToTokenSlots row).drop start) (l.rowSeqLens row))
        (moveTile row keep (start, min keep.length (start + tile)))
        (fun _ l' => l' = l.setRow row
          (gather 0 (keep.take (min keep.length (start + tile))) (l.bufferReqToTokenSlots row) ++
            (l.bufferReqToTokenSlots row).drop (min keep.length (start + tile)))
          (l.rowSeqLens row)) fun _ _ => False := by
    rintro start hstart _ rfl
    have hle : start ≤ min keep.length (start + tile) := by omega
    have htile : _ = gather 0 _ (l.bufferReqToTokenSlots row) ++ _ :=
      overwrite_gather_tile hkeep hle (Nat.min_le_left _ _)
    unfold moveTile
    rw [modify_apply, ← htile]
    simp
  refine (Spec.forTiles htile hbody).conseq (fun l' hl' => ?_) (fun _ l' hl' => ?_) fun _ _ h => h
  · rw [hl', List.take_zero, gather, List.map_nil, List.nil_append, List.drop_zero, setRow_self]
  · rw [hl', List.take_length]

theorem compactSingleRowColumnTiles_spec {row tile : Nat} {keep : List Nat} (htile : 0 < tile)
    (hready : Ready l [(row, keep)]) :
    Spec (· = l) (compactSingleRowColumnTiles row (l.rowSeqLens row) keep tile)
      (fun _ l' => RowsCompacted l l' [(row, keep)]) fun _ _ => False := by
  have hmem : (row, keep) ∈ [(row, keep)] := List.mem_singleton_self _
  have hkeep := hready.increasing _ hmem
  have hwidth := hready.width _ hmem
  have hslots : dropped 0 keep 0 (l.rowSeqLens row) (l.bufferReqToTokenSlots row) =
      without 0 keep (l.rowSlots row) := dropped_all hwidth
  have hkept : gather 0 keep (l.bufferReqToTokenSlots row) = gather 0 keep (l.rowSlots row) :=
    gather_congr fun i hi => (getD_take (hready.inRange _ hmem i hi) 0 _).symm
  have hroom := push_room hready
  rw [List.flatMap_singleton, ← hslots] at hroom
  have hdone := compacts_of_push
    (Function.update l.bufferReqToTokenSlots row (gather 0 keep (l.rowSlots row) ++
      List.replicate ((l.bufferReqToTokenSlots row).length - keep.length) 0))
    (Function.update l.rowSeqLens row keep.length) hready
    (by
      intro p hp
      obtain rfl := List.mem_singleton.mp hp
      exact Function.update_self ..)
    (by
      intro p hp
      obtain rfl := List.mem_singleton.mp hp
      exact Function.update_self ..)
    (by
      intro other hother
      rw [List.map_singleton, List.mem_singleton] at hother
      exact ⟨Function.update_of_ne hother .., Function.update_of_ne hother ..⟩)
  rw [List.flatMap_singleton, ← hslots, ← hkept] at hdone
  have hzero : zeroFrom keep.length (gather 0 keep (l.bufferReqToTokenSlots row) ++
      (l.bufferReqToTokenSlots row).drop keep.length) =
      gather 0 keep (l.bufferReqToTokenSlots row) ++
        List.replicate ((l.bufferReqToTokenSlots row).length - keep.length) 0 := by
    have hfits : (gather 0 keep (l.bufferReqToTokenSlots row)).length ≤
        (l.bufferReqToTokenSlots row).length := by
      rw [length_gather]
      exact hready.keep_le hmem
    have h := zeroFrom_overwrite hfits
    rw [overwrite_zero, length_gather] at h
    exact h
  unfold compactSingleRowColumnTiles
  refine Spec.bind (dropTiles_spec htile hkeep hwidth hroom) fun _ => ?_
  refine Spec.bind (moveTiles_spec htile hkeep) fun _ => Spec.modify fun l' hl' => ?_
  subst hl'
  simp only [setRow_slots, setRow_setRow]
  exact hzero ▸ hdone

/-- Rows of one length, in tiles of rows or each in place. -/
theorem compactUniformRowsBounded_spec (cfg : SlotConfig) {curLen n : Nat} (hready : Ready l jobs)
    (hlen : ∀ p ∈ jobs, l.rowSeqLens p.1 = curLen) (hkeep : ∀ p ∈ jobs, p.2.length = n) :
    Spec (· = l)
      (compactUniformRowsBounded cfg (jobs.map Prod.fst) curLen (jobs.map Prod.snd))
      (fun _ l' => RowsCompacted l l' jobs) fun _ _ => False := by
  unfold compactUniformRowsBounded
  split
  · rw [List.length_map]
    have hbody : ∀ start, start < jobs.length →
        Spec (fun l' => RowsCompacted l l' (jobs.take start))
          (compactUniformRowTile
            (between start (min jobs.length (start + max 1 (cfg.tileElements / max 1 curLen)))
              (jobs.map Prod.fst)) curLen
            (between start (min jobs.length (start + max 1 (cfg.tileElements / max 1 curLen)))
              (jobs.map Prod.snd)))
          (fun _ l' => RowsCompacted l l' (jobs.take
            (min jobs.length (start + max 1 (cfg.tileElements / max 1 curLen)))))
          fun _ _ => False := by
      intro start hstart
      generalize hstop : min jobs.length (start + max 1 (cfg.tileElements / max 1 curLen)) = stop
      have hlt : start < stop := by omega
      have hjobs := take_append_between hlt.le jobs
      have hleft : Ready l (jobs.take start ++ between start stop jobs) := by
        rw [hjobs]
        exact Ready.left (by rwa [List.take_append_drop])
      have hne : between start stop jobs ≠ [] := by
        have hpos : 0 < (between start stop jobs).length := by
          rw [length_between (by omega)]
          omega
        exact List.ne_nil_of_length_pos hpos
      rw [between_map, between_map, ← hjobs]
      refine Spec.intro fun l₁ h₁ => h₁.next hleft fun hrest => ?_
      refine compactUniformRowTile_spec hne hrest (fun p hp => ?_)
        fun p hp => hkeep p (mem_of_mem_between hp)
      exact (h₁.restRow hleft.rows hp).2.trans (hlen p (mem_of_mem_between hp))
    refine (Spec.forTiles (by omega) hbody).conseq (fun l' hl' => ?_) (fun _ l' hl' => ?_)
      fun _ _ h => h
    · rw [hl', List.take_zero]
      exact RowsCompacted.refl hready.ptr_le
    · rwa [List.take_length] at hl'
  · have hzip : (jobs.map Prod.fst).zip (jobs.map Prod.snd) = jobs := by
      rw [List.zip_map']
      exact List.map_id jobs
    rw [hzip]
    refine forEach_spec (fun _ => curLen) hready hlen fun l₁ p _ hone hcur => ?_
    rw [← hcur]
    exact compactSingleRowColumnTiles_spec cfg.tileElements_pos hone

end SlotLayer

end SparseVllm
