import SparseVllm.Lib.Dict
import SparseVllm.Lib.Outcome
import SparseVllm.Lib.Rows

/-!
# The slot tables of `SnapKVCacheManager` (`cache_manager/snapkv.py`)

Each KV layer has its own free-slot stack, row map and page table. A row of the page table is a list
of `max_model_len` slots, of which the first `row_seq_lens[row]` are the row's. `Consistent` is what
holds of a layer between two calls: the rows are mapped or free, and every slot is on the stack or in
one mapped row.
-/

namespace SparseVllm

open SparseVllm.Lib

/-- What the slot tables read of the configuration. -/
structure SlotConfig where
  /-- `kv_transformer_layer_indices()`. -/
  kvLayers : List Nat
  kvLayers_nodup : kvLayers.Nodup
  maxModelLen : Nat
  maxBufferRows : Nat
  numSlots : Nat → Nat
  /-- `free_slots_stack_tensor is not None`. -/
  hasStackTensor : Bool
  /-- `_PAGE_TABLE_COMPACTION_TILE_ELEMENTS`, or its override. -/
  tileElements : Nat
  tileElements_pos : 0 < tileElements

/-- One KV layer. -/
structure SlotLayer where
  freeSlotsStack : List Nat
  numFreeSlots : Nat
  seqIdToRow : Dict Nat Nat
  freeRows : List Nat
  bufferReqToTokenSlots : Nat → List Nat
  rowSeqLens : Nat → Nat

/-- The tables of all layers. -/
structure SlotTables where
  layers : Nat → SlotLayer
  uniformDecodeMetadata : Bool

inductive SlotError where
  | outOfSlots (need free : Nat)
  | noFreeRows
  | rowTooLong (layer seqId row curLen size : Nat)
  | outOfSlotsBatched (need free : Nat)
  | rowLengthMismatch (layer seqId rowLen start : Nat)
  | batchedRowTooLong (layer seqId row curLen size : Nat)
  deriving DecidableEq, Repr

namespace SlotLayer

/-- `free_slots_stack[:num_free_slots]`. -/
def freeSlots (l : SlotLayer) : List Nat := l.freeSlotsStack.take l.numFreeSlots

/-- `buffer_req_to_token_slots[row, :row_seq_lens[row]]`. -/
def rowSlots (l : SlotLayer) (row : Nat) : List Nat :=
  (l.bufferReqToTokenSlots row).take (l.rowSeqLens row)

/-- `size` slots of the top of the stack go to a row. -/
def place (row curLen size : Nat) (slots : List Nat) (l : SlotLayer) : SlotLayer :=
  { l with
    numFreeSlots := l.numFreeSlots - size
    bufferReqToTokenSlots := Function.update l.bufferReqToTokenSlots row
      (overwrite curLen slots (l.bufferReqToTokenSlots row))
    rowSeqLens := Function.update l.rowSeqLens row (l.rowSeqLens row + size) }

/-- What holds of a layer between two calls. -/
structure Consistent (cfg : SlotConfig) (layerIdx : Nat) (l : SlotLayer) : Prop where
  rows : (l.seqIdToRow.values ++ l.freeRows).Perm (List.range cfg.maxBufferRows)
  slots : (l.freeSlots ++ l.seqIdToRow.values.flatMap l.rowSlots).Perm
    (List.range (cfg.numSlots layerIdx))
  stack : l.freeSlotsStack.length = cfg.numSlots layerIdx
  numFree_le : l.numFreeSlots ≤ cfg.numSlots layerIdx
  width : ∀ row, (l.bufferReqToTokenSlots row).length = cfg.maxModelLen
  rowLen_le : ∀ row, l.rowSeqLens row ≤ cfg.maxModelLen
  freeRow : ∀ row ∈ l.freeRows, l.rowSeqLens row = 0
  padding : ∀ row, ∀ slot ∈ (l.bufferReqToTokenSlots row).drop (l.rowSeqLens row), slot = 0

/-- The tables of a new manager. -/
def initial (cfg : SlotConfig) (layerIdx : Nat) : SlotLayer where
  freeSlotsStack := List.range (cfg.numSlots layerIdx)
  numFreeSlots := cfg.numSlots layerIdx
  seqIdToRow := ∅
  freeRows := List.range cfg.maxBufferRows
  bufferReqToTokenSlots _ := List.replicate cfg.maxModelLen 0
  rowSeqLens _ := 0

theorem consistent_initial (cfg : SlotConfig) (layerIdx : Nat) :
    (initial cfg layerIdx).Consistent cfg layerIdx := by
  constructor
  · exact List.Perm.refl _
  · unfold freeSlots initial
    simp
  · exact List.length_range
  · exact le_refl (cfg.numSlots layerIdx)
  · exact fun _ => List.length_replicate
  · exact fun _ => Nat.zero_le _
  · exact fun _ _ => rfl
  · exact fun _ _ h => List.eq_of_mem_replicate h

/-! ## Rows and slots of one layer -/

/-- `_get_free_row`. -/
def getFreeRow (seqId : Nat) : EStateM SlotError SlotLayer Nat := do
  let l ← get
  match l.seqIdToRow.get? seqId, l.freeRows with
  | some rowIdx, _ => pure rowIdx
  | none, [] => throw .noFreeRows
  | none, rowIdx :: freeRows => do
    set { l with freeRows, seqIdToRow := l.seqIdToRow.set seqId rowIdx }
    pure rowIdx

/-- `_allocate`. -/
def allocate (cfg : SlotConfig) (layerIdx seqId size : Nat) :
    EStateM SlotError SlotLayer (List Nat) := do
  let l ← get
  raiseIf (l.numFreeSlots < size) (.outOfSlots size l.numFreeSlots)
  let rowIdx ← getFreeRow seqId
  let l ← get
  let curLen := l.rowSeqLens rowIdx
  raiseIf (cfg.maxModelLen < curLen + size) (.rowTooLong layerIdx seqId rowIdx curLen size)
  let ptr := l.numFreeSlots
  let selectIndex := between (ptr - size) ptr l.freeSlotsStack
  set (l.place rowIdx curLen size selectIndex)
  pure selectIndex

variable {l : SlotLayer} {seqId row : Nat}

theorem getFreeRow_mapped (h : l.seqIdToRow.get? seqId = some row) :
    getFreeRow seqId l = .ok row l := by
  unfold getFreeRow
  rw [get_bind, h]
  rfl

theorem getFreeRow_full (h : l.seqIdToRow.get? seqId = none) (full : l.freeRows = []) :
    getFreeRow seqId l = .error .noFreeRows l := by
  unfold getFreeRow
  rw [get_bind, h, full]
  rfl

theorem getFreeRow_fresh {rest : List Nat} (h : l.seqIdToRow.get? seqId = none)
    (free : l.freeRows = row :: rest) : getFreeRow seqId l =
      .ok row { l with freeRows := rest, seqIdToRow := l.seqIdToRow.set seqId row } := by
  unfold getFreeRow
  rw [get_bind, h, free]
  rfl

/-- No row is mapped twice, or mapped and free. -/
def RowsDistinct (l : SlotLayer) : Prop := (l.seqIdToRow.values ++ l.freeRows).Nodup

theorem Consistent.rowsDistinct {cfg : SlotConfig} {layerIdx : Nat}
    (h : l.Consistent cfg layerIdx) : l.RowsDistinct := h.rows.nodup_iff.mpr List.nodup_range

/-- What allocation needs of a layer, whatever slots are on its stack and in its rows. -/
structure Sound (l : SlotLayer) : Prop where
  distinct : l.RowsDistinct
  freeRow : ∀ row ∈ l.freeRows, l.rowSeqLens row = 0
  ptr_le : l.numFreeSlots ≤ l.freeSlotsStack.length

theorem Consistent.sound {cfg : SlotConfig} {layerIdx : Nat} (h : l.Consistent cfg layerIdx) :
    l.Sound := ⟨h.rowsDistinct, h.freeRow, h.numFree_le.trans h.stack.ge⟩

/-- `row` is the row of a sequence, taken from the free rows if it had none. -/
structure TakesRow (seqId row : Nat) (l l' : SlotLayer) : Prop where
  frame : ∃ seqIdToRow freeRows, l' = { l with seqIdToRow, freeRows }
  mapped : l'.seqIdToRow.get? seqId = some row
  others : ∀ q, q ≠ seqId → l'.seqIdToRow.get? q = l.seqIdToRow.get? q
  distinct : l.RowsDistinct → l'.RowsDistinct
  kept : l.seqIdToRow.get? seqId ≠ none → l' = l
  fresh : l.seqIdToRow.get? seqId = none → l.freeRows = row :: l'.freeRows

theorem takesRow_of_getFreeRow {l' : SlotLayer} (h : getFreeRow seqId l = .ok row l') :
    TakesRow seqId row l l' := by
  cases hmapped : l.seqIdToRow.get? seqId with
  | some row' =>
    rw [getFreeRow_mapped hmapped] at h
    cases h
    exact ⟨⟨_, _, rfl⟩, hmapped, fun _ _ => rfl, id, fun _ => rfl, by simp [hmapped]⟩
  | none =>
    cases hfree : l.freeRows with
    | nil =>
      rw [getFreeRow_full hmapped hfree] at h
      cases h
    | cons row' rest =>
      rw [getFreeRow_fresh hmapped hfree] at h
      cases h
      refine ⟨⟨_, _, rfl⟩, Dict.get?_set_self .., fun q hq => ?_, fun hdistinct => ?_,
        fun hne => absurd hmapped hne, fun _ => hfree⟩
      · exact (Dict.get?_set ..).trans (if_neg hq)
      · unfold RowsDistinct at hdistinct ⊢
        rw [hfree] at hdistinct
        have hperm : ((l.seqIdToRow.set seqId row).values ++ rest).Perm
            (l.seqIdToRow.values ++ row :: rest) := by
          rw [Dict.values_set, Dict.pop_of_get?_none hmapped]
          exact List.perm_middle.symm
        exact hperm.nodup_iff.mpr hdistinct

/-- What holds of a layer with other rows mapped holds after a row is taken. -/
theorem Keeps.getFreeRow {I : SlotLayer → Prop}
    (h : ∀ l l' row, TakesRow seqId row l l' → I l → I l') : Keeps I (getFreeRow seqId) := by
  intro l hl
  cases hmapped : l.seqIdToRow.get? seqId with
  | some row =>
    rw [getFreeRow_mapped hmapped]
    exact hl
  | none =>
    cases hfree : l.freeRows with
    | nil =>
      rw [getFreeRow_full hmapped hfree]
      exact hl
    | cons row rest =>
      have hrow := getFreeRow_fresh hmapped hfree
      rw [hrow]
      exact h l _ row (takesRow_of_getFreeRow hrow) hl

/-- Rows are only added. -/
theorem keeps_getFreeRow (q : Nat) :
    Keeps (fun l => l.seqIdToRow.get? q ≠ none) (getFreeRow seqId) := by
  refine Keeps.getFreeRow fun l l' row htakes hq => ?_
  by_cases hid : q = seqId
  · subst q
    rw [htakes.mapped]
    exact Option.some_ne_none row
  · rwa [htakes.others q hid]

/-- Taking a row takes no slot. -/
theorem keeps_getFreeRow_stack (ptr : Nat) (stack : List Nat) :
    Keeps (fun l => l.numFreeSlots = ptr ∧ l.freeSlotsStack = stack) (getFreeRow seqId) := by
  refine Keeps.getFreeRow fun l l' row htakes hl => ?_
  obtain ⟨seqIdToRow, freeRows, rfl⟩ := htakes.frame
  exact hl

end SlotLayer

/-! ## Loops over the layers -/

namespace SlotTables

/-- The tables of a new manager. -/
def initial (cfg : SlotConfig) (uniform : Bool) : SlotTables where
  layers := SlotLayer.initial cfg
  uniformDecodeMetadata := uniform

/-- The layers of a list replaced. -/
def setLayers (layers : List Nat) (l : Nat → SlotLayer) (t : SlotTables) : SlotTables :=
  { t with layers := fun i => if i ∈ layers then l i else t.layers i }

/-- A method of one layer. -/
def onLayer {ε α : Type} (layer : Nat) (m : EStateM ε SlotLayer α) : EStateM ε SlotTables α :=
  zoom (fun t => t.layers layer) (fun l t => t.setLayers [layer] fun _ => l) id m

variable {ε α : Type} {layers : List Nat} {t t' : SlotTables} {layer : Nat}
  {m : Nat → EStateM ε SlotLayer α}

theorem setLayers_of_mem {l : Nat → SlotLayer} (h : layer ∈ layers) :
    (t.setLayers layers l).layers layer = l layer := if_pos h

theorem setLayers_of_notMem {l : Nat → SlotLayer} (h : layer ∉ layers) :
    (t.setLayers layers l).layers layer = t.layers layer := if_neg h

theorem setLayers_nil (l : Nat → SlotLayer) (t : SlotTables) : t.setLayers [] l = t := by
  unfold setLayers
  simp

theorem setLayers_cons {l : Nat → SlotLayer} (h : layer ∉ layers) :
    (t.setLayers [layer] fun _ => l layer).setLayers layers l = t.setLayers (layer :: layers) l := by
  unfold setLayers
  congr 1
  funext i
  by_cases hi : i = layer
  · subst i
    simp [h]
  · simp [hi]

theorem setLayers_setLayers (l l' : Nat → SlotLayer) :
    (t.setLayers layers l).setLayers layers l' = t.setLayers layers l' := by
  unfold setLayers
  congr 1
  funext i
  split
  · rfl
  · exact setLayers_of_notMem ‹_›

theorem setLayers_self {l : SlotLayer} (h : l = t.layers layer) :
    (t.setLayers [layer] fun _ => l) = t := by
  have hlayers : (fun i => if i ∈ [layer] then l else t.layers i) = t.layers := by
    funext i
    split
    · rename_i hi
      rw [h, List.mem_singleton.mp hi]
    · rfl
  unfold setLayers
  rw [hlayers]

theorem onLayer_ok {n : EStateM ε SlotLayer α} {a : α} {l : SlotLayer}
    (h : n (t.layers layer) = .ok a l) :
    onLayer layer n t = .ok a (t.setLayers [layer] fun _ => l) := zoom_ok h

theorem onLayer_error {n : EStateM ε SlotLayer α} {e : ε} {l : SlotLayer}
    (h : n (t.layers layer) = .error e l) :
    onLayer layer n t = .error e (t.setLayers [layer] fun _ => l) := zoom_error h

/-- A layer's method that returns. -/
theorem onLayer_spec {n : EStateM ε SlotLayer α} {Q : α → SlotLayer → Prop}
    (h : Spec (· = t.layers layer) n Q fun _ _ => False) :
    Spec (· = t) (onLayer layer n)
      (fun a t' => ∃ l, Q a l ∧ t' = t.setLayers [layer] fun _ => l) fun _ _ => False := by
  refine Spec.zoom fun u hu => ?_
  subst hu
  exact h.conseq (fun _ hl => hl) (fun a l hl => ⟨l, hl, rfl⟩) fun _ _ h => h

/-- A loop does not touch a layer that is not in it. -/
theorem keeps_mapEach_onLayer {l : SlotLayer} (h : layer ∉ layers) :
    Keeps (fun t => t.layers layer = l) (mapEach layers fun i => onLayer i (m i)) := by
  refine Keeps.mapEach fun i hi t ht => ?_
  have hne : layer ∉ [i] := by
    rw [List.mem_singleton]
    rintro rfl
    exact h hi
  cases hm : m i (t.layers i) with
  | ok a l' =>
    rw [onLayer_ok hm]
    exact (setLayers_of_notMem hne).trans ht
  | error e l' =>
    rw [onLayer_error hm]
    exact (setLayers_of_notMem hne).trans ht

/-- A loop that returns from each layer. -/
theorem mapEach_onLayer_ok {a : Nat → α} {l : Nat → SlotLayer} (hnodup : layers.Nodup)
    (h : ∀ i ∈ layers, m i (t.layers i) = .ok (a i) (l i)) :
    mapEach layers (fun i => onLayer i (m i)) t = .ok (layers.map a) (t.setLayers layers l) := by
  induction layers generalizing t with
  | nil =>
    rw [setLayers_nil]
    rfl
  | cons i layers ih =>
    obtain ⟨hnot, hnodup⟩ := List.nodup_cons.mp hnodup
    have hrest : ∀ j ∈ layers, m j ((t.setLayers [i] fun _ => l i).layers j) = .ok (a j) (l j) := by
      intro j hj
      rw [setLayers_of_notMem (by rw [List.mem_singleton]; rintro rfl; exact hnot hj)]
      exact h j (List.mem_cons_of_mem i hj)
    unfold mapEach
    rw [bind_ok (onLayer_ok (h i List.mem_cons_self)), bind_ok (ih hnodup hrest),
      setLayers_cons hnot]
    rfl

theorem ok_of_mapEach_onLayer {as : List α} (hnodup : layers.Nodup)
    (h : mapEach layers (fun i => onLayer i (m i)) t = .ok as t') :
    ∀ i ∈ layers, ∃ a l, m i (t.layers i) = .ok a l := by
  induction layers generalizing t as with
  | nil => exact nofun
  | cons i layers ih =>
    obtain ⟨hnot, hnodup⟩ := List.nodup_cons.mp hnodup
    unfold mapEach at h
    obtain ⟨a, t₁, hfirst, h⟩ := exists_of_bind_ok h
    obtain ⟨bs, t₂, hrest, h⟩ := exists_of_bind_ok h
    cases h
    cases hm : m i (t.layers i) with
    | error e l =>
      rw [onLayer_error hm] at hfirst
      cases hfirst
    | ok b l =>
      rw [onLayer_ok hm] at hfirst
      cases hfirst
      rw [List.forall_mem_cons]
      refine ⟨⟨a, l, hm⟩, fun j hj => ?_⟩
      have hsame : (t.setLayers [i] fun _ => l).layers j = t.layers j :=
        setLayers_of_notMem (by rw [List.mem_singleton]; rintro rfl; exact hnot hj)
      rw [← hsame]
      exact ih hnodup hrest j hj

/-- Each layer's part of a loop that returns. -/
theorem exists_of_mapEach_onLayer [Nonempty α] {as : List α} (hnodup : layers.Nodup)
    (h : mapEach layers (fun i => onLayer i (m i)) t = .ok as t') :
    ∃ (a : Nat → α) (l : Nat → SlotLayer), (∀ i ∈ layers, m i (t.layers i) = .ok (a i) (l i)) ∧
      as = layers.map a ∧ t' = t.setLayers layers l := by
  have : Nonempty SlotLayer := ⟨t.layers 0⟩
  choose! a l hal using ok_of_mapEach_onLayer hnodup h
  have hrun := mapEach_onLayer_ok hnodup hal
  rw [h] at hrun
  cases hrun
  exact ⟨a, l, hal, rfl, rfl⟩

/-- How a loop ends, by how the method ends on each layer. -/
theorem mapEach_onLayer_outcome {fits same blocked : Nat → Prop} (hnodup : layers.Nodup)
    (hexclusive : ∀ i ∈ layers, blocked i → ¬ fits i)
    (h : ∀ i ∈ layers, EndsAs (fits i) (same i) (blocked i) (t.layers i) (m i)) :
    match mapEach layers (fun i => onLayer i (m i)) t with
    | .ok _ _ => ∀ i ∈ layers, fits i
    | .error _ t' => (¬ ∀ i ∈ layers, fits i) ∧
        (t' = t ↔ Until (fun i => fits i ∧ same i) blocked layers) := by
  induction layers generalizing t with
  | nil => exact nofun
  | cons i layers ih =>
    obtain ⟨hnot, hnodup⟩ := List.nodup_cons.mp hnodup
    have hfirst := h i List.mem_cons_self
    unfold mapEach
    rw [List.forall_mem_cons, until_cons]
    cases hm : m i (t.layers i) with
    | error e l =>
      have hfirst := hfirst.error hm
      rw [bind_error (onLayer_error hm)]
      refine ⟨fun hall => hfirst.1 hall.1, ?_⟩
      rw [or_iff_left fun hrest => hfirst.1 hrest.1.1, ← hfirst.2]
      exact ⟨fun heq => (setLayers_of_mem List.mem_cons_self).symm.trans (congrArg (·.layers i) heq),
        setLayers_self⟩
    | ok a l =>
      have hfirst := hfirst.ok hm
      rw [bind_ok (onLayer_ok hm)]
      have hlayer : (t.setLayers [i] fun _ => l).layers i = l := setLayers_of_mem List.mem_cons_self
      have hrest := ih (t := t.setLayers [i] fun _ => l) hnodup
        (fun j hj => hexclusive j (List.mem_cons_of_mem i hj)) (by
          intro j hj
          rw [setLayers_of_notMem (by rw [List.mem_singleton]; rintro rfl; exact hnot hj)]
          exact h j (List.mem_cons_of_mem i hj))
      have hkept : Keeps (fun t => t.layers i = l) (mapEach layers fun i => onLayer i (m i)) :=
        keeps_mapEach_onLayer hnot
      have hkept := hkept _ hlayer
      rw [or_iff_right fun hblocked => hexclusive i List.mem_cons_self hblocked hfirst.1]
      cases hrun : mapEach layers (fun i => onLayer i (m i)) (t.setLayers [i] fun _ => l) with
      | ok as t' =>
        rw [hrun] at hrest
        rw [bind_ok hrun]
        exact ⟨hfirst.1, hrest⟩
      | error e t' =>
        rw [hrun] at hrest hkept
        rw [bind_error hrun]
        refine ⟨fun hall => hrest.1 hall.2, ?_⟩
        by_cases hsame : same i
        · have heq : (t.setLayers [i] fun _ => l) = t := setLayers_self (hfirst.2.mpr hsame)
          rw [heq] at hrest
          exact hrest.2.trans (and_iff_right ⟨hfirst.1, hsame⟩).symm
        · refine iff_of_false (fun heq => hsame (hfirst.2.mp ?_)) fun hall => hsame hall.1.2
          rw [← heq]
          exact hkept.symm

end SlotTables

end SparseVllm
