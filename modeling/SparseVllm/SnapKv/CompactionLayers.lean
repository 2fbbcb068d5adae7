import SparseVllm.SnapKv.CompactionPaths

/-!
# Compaction of a batch in several layers (`cache_manager/snapkv.py`)

A layer's tables are not read by the compaction of another layer, so the layers of a call can be
compacted one after another or a tile of them at a time.

## Results

* `compactUniformLayerTile_spec`: a tile of layers is read, then written.
* `freePartSlotsBatchLayers_spec`: every branch compacts each layer and no other.
-/

namespace SparseVllm

open SparseVllm.Lib

namespace SlotTables

open SlotLayer

variable {cfg : SlotConfig} {t t' t₁ t₂ : SlotTables} {work work₁ work₂ : List (Nat × List (Nat × List Nat))}

/-! ## Loops -/

/-- A loop over distinct layers runs each method on the layer as it was. -/
theorem forEach_onLayer_spec {ε β : Type} {items : List β} {layerOf : β → Nat}
    {body : β → EStateM ε SlotLayer Unit} {Q : β → SlotLayer → Prop}
    (hnodup : (items.map layerOf).Nodup)
    (h : ∀ b ∈ items, Spec (· = t.layers (layerOf b)) (body b) (fun _ => Q b) fun _ _ => False) :
    Spec (· = t) (forEach items fun b => onLayer (layerOf b) (body b))
      (fun _ t' => (∀ b ∈ items, Q b (t'.layers (layerOf b))) ∧
        ∀ i ∉ items.map layerOf, t'.layers i = t.layers i) fun _ _ => False := by
  induction items generalizing t with
  | nil =>
    rintro _ rfl
    exact ⟨nofun, fun _ _ => rfl⟩
  | cons b items ih =>
    obtain ⟨hnot, hnodup⟩ := List.nodup_cons.mp hnodup
    refine Spec.bind (onLayer_spec (h b List.mem_cons_self)) fun _ => Spec.intro fun t₁ h₁ => ?_
    obtain ⟨l, hl, rfl⟩ := h₁
    have hsame : ∀ c ∈ items, (t.setLayers [layerOf b] fun _ => l).layers (layerOf c) =
        t.layers (layerOf c) := by
      intro c hc
      refine setLayers_of_notMem fun hmem => hnot ?_
      rw [← List.mem_singleton.mp hmem]
      exact List.mem_map_of_mem hc
    have hrest := ih (t := t.setLayers [layerOf b] fun _ => l) hnodup fun c hc => by
      rw [hsame c hc]
      exact h c (List.mem_cons_of_mem b hc)
    refine hrest.post fun _ t' ht' => ⟨?_, fun i hi => ?_⟩
    · rw [List.forall_mem_cons]
      refine ⟨?_, ht'.1⟩
      rw [ht'.2 _ hnot, setLayers_of_mem List.mem_cons_self]
      exact hl
    · rw [List.map_cons, List.mem_cons, not_or] at hi
      rw [ht'.2 i hi.2]
      exact setLayers_of_notMem (by simpa using hi.1)

theorem Compacted.nil : Compacted t t [] := ⟨nofun, fun _ _ => rfl⟩

/-- Two compactions of distinct layers are one. -/
theorem Compacted.trans (h₁ : Compacted t t₁ work₁) (h₂ : Compacted t₁ t₂ work₂)
    (hnodup : ((work₁ ++ work₂).map Prod.fst).Nodup) : Compacted t t₂ (work₁ ++ work₂) := by
  rw [List.map_append] at hnodup
  have hdisjoint := (List.nodup_append.mp hnodup).2.2
  constructor
  · intro w hw
    rcases List.mem_append.mp hw with hw | hw
    · rw [h₂.other w.1 fun hmem => hdisjoint w.1 (List.mem_map_of_mem hw) w.1 hmem rfl]
      exact h₁.layer w hw
    · rw [← h₁.other w.1 fun hmem => hdisjoint w.1 hmem w.1 (List.mem_map_of_mem hw) rfl]
      exact h₂.layer w hw
  · intro i hi
    rw [List.map_append, List.mem_append, not_or] at hi
    exact (h₂.other i hi.2).trans (h₁.other i hi.1)

/-- A layer of the work that is left. -/
theorem Compacted.restLayer (h : Compacted t t₁ work₁)
    (hnodup : ((work₁ ++ work₂).map Prod.fst).Nodup) {w : Nat × List (Nat × List Nat)}
    (hw : w ∈ work₂) : t₁.layers w.1 = t.layers w.1 := by
  rw [List.map_append] at hnodup
  exact h.other w.1 fun hmem =>
    (List.nodup_append.mp hnodup).2.2 w.1 hmem w.1 (List.mem_map_of_mem hw) rfl

/-- One layer after another. -/
theorem forEach_compacted_spec {β : Type} {items : List β} {toWork : β → Nat × List (Nat × List Nat)}
    {body : β → EStateM CompactionError SlotTables Unit}
    (hnodup : ((items.map toWork).map Prod.fst).Nodup)
    (h : ∀ b ∈ items, ∀ t₁ : SlotTables, t₁.layers (toWork b).1 = t.layers (toWork b).1 →
      Spec (· = t₁) (body b) (fun _ t' => Compacted t₁ t' [toWork b]) fun _ _ => False) :
    Spec (· = t) (forEach items body) (fun _ t' => Compacted t t' (items.map toWork))
      fun _ _ => False := by
  induction items generalizing t with
  | nil =>
    rintro _ rfl
    exact Compacted.nil
  | cons b items ih =>
    have hsplit : (([toWork b] ++ items.map toWork).map Prod.fst).Nodup := hnodup
    refine Spec.bind (h b List.mem_cons_self t rfl) fun _ => Spec.intro fun t₁ h₁ => ?_
    have hrest := ih (t := t₁) (List.nodup_cons.mp hnodup).2 fun c hc t₂ ht₂ =>
      h c (List.mem_cons_of_mem b hc) t₂
        (ht₂.trans (h₁.restLayer hsplit (List.mem_map_of_mem hc)))
    exact hrest.post fun _ t' h₂ => h₁.trans h₂ hsplit

/-! ## A tile of layers -/

/-- The rows of a layer are distinct, of one length, and keep as many positions each. -/
structure UniformWork (t : SlotTables) (curLen n : Nat) (w : Nat × List (Nat × List Nat)) :
    Prop where
  ne_nil : w.2 ≠ []
  ready : SlotLayer.Ready (t.layers w.1) w.2
  lens : ∀ p ∈ w.2, (t.layers w.1).rowSeqLens p.1 = curLen
  keep : ∀ p ∈ w.2, p.2.length = n

theorem UniformWork.of_same {curLen n : Nat} {w : Nat × List (Nat × List Nat)}
    (h : UniformWork t curLen n w) (hsame : t₁.layers w.1 = t.layers w.1) :
    UniformWork t₁ curLen n w := by
  refine ⟨h.ne_nil, ?_, ?_, h.keep⟩
  · rw [hsame]
    exact h.ready
  · rw [hsame]
    exact h.lens

theorem compactUniformLayerTile_spec {curLen n : Nat} (hne : work ≠ [])
    (hnodup : (work.map Prod.fst).Nodup) (h : ∀ w ∈ work, UniformWork t curLen n w) :
    Spec (· = t)
      (compactUniformLayerTile (work.map Prod.fst) (work.map fun w => w.2.map Prod.fst) curLen
        (work.map fun w => w.2.map Prod.snd))
      (fun _ t' => Compacted t t' work) fun _ _ => False := by
  have hold : ((work.map Prod.fst).zip (work.map fun w => w.2.map Prod.fst)).map (fun p =>
      p.2.map fun row => ((t.layers p.1).bufferReqToTokenSlots row).take curLen) =
      work.map fun w => (w.2.map Prod.fst).map fun row =>
        ((t.layers w.1).bufferReqToTokenSlots row).take curLen := by
    rw [List.zip_map', List.map_map]
    rfl
  have hnew : List.zipWith (List.zipWith (gather 0)) (work.map fun w => w.2.map Prod.snd)
      (work.map fun w => (w.2.map Prod.fst).map fun row =>
        ((t.layers w.1).bufferReqToTokenSlots row).take curLen) =
      work.map fun w => w.2.map fun p => gather 0 p.2 ((t.layers w.1).rowSlots p.1) := by
    rw [List.zipWith_map, List.zipWith_self]
    exact List.map_congr_left fun w hw => zipWith_jobs (h w hw).lens _
  have hdropped : List.zipWith (fun keep old => (List.zipWith (without 0) keep old).flatten)
      (work.map fun w => w.2.map Prod.snd) (work.map fun w => (w.2.map Prod.fst).map fun row =>
        ((t.layers w.1).bufferReqToTokenSlots row).take curLen) =
      work.map fun w => w.2.flatMap fun p => without 0 p.2 ((t.layers w.1).rowSlots p.1) := by
    rw [List.zipWith_map, List.zipWith_self]
    refine List.map_congr_left fun w hw => ?_
    rw [zipWith_jobs (h w hw).lens, List.flatMap_def]
  have hlen : (((work.map fun w => w.2.map fun p =>
      gather 0 p.2 ((t.layers w.1).rowSlots p.1)).headD []).headD []).length = n := by
    cases work with
    | nil => exact absurd rfl hne
    | cons w work =>
      have hw := h w List.mem_cons_self
      exact newLen_jobs hw.ne_nil hw.keep
  have hpushes : ∀ w ∈ work, Spec (· = t.layers w.1) (appendCompactionFreeSlots
      (w.2.flatMap fun p => without 0 p.2 ((t.layers w.1).rowSlots p.1)))
      (fun _ l => l = (t.layers w.1).push
        (w.2.flatMap fun p => without 0 p.2 ((t.layers w.1).rowSlots p.1))) fun _ _ => False := by
    rintro w hw _ rfl
    rw [appendCompactionFreeSlots_ok (push_room (h w hw).ready)]
  have hwrites : ∀ t₁ : SlotTables, ∀ w ∈ work, Spec (· = t₁.layers w.1)
      (modify (writeRows n (w.2.map Prod.fst)
        (w.2.map fun p => gather 0 p.2 ((t.layers w.1).rowSlots p.1))))
      (fun _ l => l = writeRows n (w.2.map Prod.fst)
        (w.2.map fun p => gather 0 p.2 ((t.layers w.1).rowSlots p.1)) (t₁.layers w.1))
      fun (_ : CompactionError) _ => False := by
    rintro t₁ w _ _ rfl
    rfl
  have hboth := Spec.bind (forEach_onLayer_spec hnodup hpushes) fun _ => Spec.intro fun t₁ h₁ =>
    (forEach_onLayer_spec hnodup (hwrites t₁)).post fun _ t₂ h₂ =>
      (⟨fun w hw => by
          rw [h₂.1 w hw, h₁.1 w hw]
          exact compacts_writeRows (h w hw).ready (h w hw).keep,
        fun i hi => (h₂.2 i hi).trans (h₁.2 i hi)⟩ : Compacted t t₂ work)
  rintro _ rfl
  unfold compactUniformLayerTile
  rw [get_bind, hold, hnew, hdropped, hlen, List.zip_map', List.zip_map', List.zip_map',
    forEach_map, forEach_map]
  exact hboth _ rfl

/-- Tiles of layers, one after another. -/
theorem compactLayerTiles_spec {curLen n tile : Nat} (htile : 0 < tile)
    (hnodup : (work.map Prod.fst).Nodup) (h : ∀ w ∈ work, UniformWork t curLen n w) :
    Spec (· = t)
      (forEach (tiles work.length tile) fun tile =>
        compactUniformLayerTile (between tile.1 tile.2 (work.map Prod.fst))
          (between tile.1 tile.2 (work.map fun w => w.2.map Prod.fst)) curLen
          (between tile.1 tile.2 (work.map fun w => w.2.map Prod.snd)))
      (fun _ t' => Compacted t t' work) fun _ _ => False := by
  have hbody : ∀ start, start < work.length →
      Spec (fun t₁ => Compacted t t₁ (work.take start))
        (compactUniformLayerTile
          (between start (min work.length (start + tile)) (work.map Prod.fst))
          (between start (min work.length (start + tile)) (work.map fun w => w.2.map Prod.fst)) curLen
          (between start (min work.length (start + tile)) (work.map fun w => w.2.map Prod.snd)))
        (fun _ t₁ => Compacted t t₁ (work.take (min work.length (start + tile))))
        fun _ _ => False := by
    intro start hstart
    generalize hstop : min work.length (start + tile) = stop
    have hlt : start < stop := by omega
    have hwork := take_append_between hlt.le work
    have hsplit : ((work.take start ++ between start stop work).map Prod.fst).Nodup := by
      rw [hwork, List.map_take]
      exact hnodup.sublist (List.take_sublist _ _)
    have hne : between start stop work ≠ [] := by
      have hpos : 0 < (between start stop work).length := by
        rw [length_between (by omega)]
        omega
      exact List.ne_nil_of_length_pos hpos
    rw [between_map, between_map, between_map, ← hwork]
    refine Spec.intro fun t₁ h₁ => ?_
    have htile := compactUniformLayerTile_spec (t := t₁) hne
      (List.map_append ▸ hsplit).of_append_right fun w hw =>
        (h w (mem_of_mem_between hw)).of_same (h₁.restLayer hsplit hw)
    exact htile.post fun _ t' h₂ => h₁.trans h₂ hsplit
  refine (Spec.forTiles htile hbody).conseq (fun t₁ ht₁ => ?_) (fun _ t' ht' => ?_) fun _ _ h => h
  · rw [ht₁, List.take_zero]
    exact Compacted.nil
  · rwa [List.take_length] at ht'

/-! ## The branches -/

section Batch

variable {seqIds : List Nat} {batch : List (Nat × KeepTable)} {keepCount : Nat}

/-- The work of a layer. -/
def toWork (t : SlotTables) (seqIds : List Nat) (b : Nat × KeepTable) :
    Nat × List (Nat × List Nat) :=
  (b.1, (t.layers b.1).jobs seqIds b.2.rows)

/-- The rows of a batch in a layer, with their lengths. -/
def batchRows (t : SlotTables) (seqIds : List Nat) (layer : Nat) : List (Nat × Nat) :=
  seqIds.map fun s => ((t.layers layer).rowOf s, (t.layers layer).rowSeqLens ((t.layers layer).rowOf s))

theorem toWork_fst (t : SlotTables) (seqIds : List Nat) (batch : List (Nat × KeepTable)) :
    (batch.map (t.toWork seqIds)).map Prod.fst = batch.map Prod.fst := by
  rw [List.map_map]
  rfl

/-- A batch of rows in several layers that can be compacted. -/
structure ValidLayers (cfg : SlotConfig) (t : SlotTables) (seqIds : List Nat) (keepCount : Nat)
    (batch : List (Nat × KeepTable)) : Prop where
  distinct : (batch.map Prod.fst).Nodup
  valid : ∀ b ∈ batch, ValidBatch cfg b.1 (t.layers b.1) seqIds b.2
  keepCount : ∀ b ∈ batch, b.2.keepCount = keepCount

namespace ValidLayers

/-- The rows of a layer, as its jobs have them. -/
theorem batchRows_eq (h : ValidLayers cfg t seqIds keepCount batch) {b : Nat × KeepTable}
    (hb : b ∈ batch) : t.batchRows seqIds b.1 =
      (((t.layers b.1).jobs seqIds b.2.rows).map Prod.fst).map fun row =>
        (row, (t.layers b.1).rowSeqLens row) := (h.valid b hb).rows_eq

theorem batchRows_fst (h : ValidLayers cfg t seqIds keepCount batch) {b : Nat × KeepTable}
    (hb : b ∈ batch) : (t.batchRows seqIds b.1).map Prod.fst = (t.toWork seqIds b).2.map Prod.fst := by
  rw [h.batchRows_eq hb, List.map_map]
  exact List.map_id _

theorem rows_ok (h : ValidLayers cfg t seqIds keepCount batch) :
    mapEach (batch.map Prod.fst) (fun layer => onLayer layer (mappedRows seqIds)) t =
      .ok (batch.map fun b => t.batchRows seqIds b.1) t := by
  have hlayer : ∀ layer ∈ batch.map Prod.fst, onLayer layer (mappedRows seqIds) t =
      .ok (t.batchRows seqIds layer) t := by
    intro layer hlayer
    obtain ⟨b, hb, rfl⟩ := List.mem_map.mp hlayer
    have hrows : mappedRows seqIds (t.layers b.1) = .ok (t.batchRows seqIds b.1) (t.layers b.1) :=
      SlotLayer.mappedRows_ok fun s hs => (h.valid b hb).mapped hs
    rw [onLayer_ok hrows, setLayers_self rfl]
  rw [mapEach_ok hlayer, List.map_map]
  rfl

theorem distinctRows_ok (h : ValidLayers cfg t seqIds keepCount batch) :
    forEach ((batch.map Prod.fst).zip (batch.map fun b => t.batchRows seqIds b.1)) (fun p =>
      raiseIf (¬ (p.2.map Prod.fst).Nodup)
        (CompactionError.duplicateRows .freePartSlotsBatchLayers p.1 (p.2.map Prod.fst))) t =
      .ok () t := by
  rw [List.zip_map', forEach_map]
  refine forEach_ok fun b hb => ?_
  unfold raiseIf
  rw [if_neg (not_not.mpr ?_)]
  · rfl
  · rw [h.batchRows_fst hb]
    exact (h.valid b hb).ready.rows

/-- The positions of all rows pass the validation. -/
theorem prepareKeep_ok (h : ValidLayers cfg t seqIds keepCount batch) (sorted : Bool) :
    ∃ keep, prepareKeep .freePartSlotsBatchLayers sorted
      (List.zipWith (fun (table : KeepTable) row => table.rows.zip (row.map Prod.snd))
        (batch.map Prod.snd) (batch.map fun b => t.batchRows seqIds b.1)).flatten t = .ok keep t := by
  refine ⟨_, SlotLayer.prepareKeep_ok (fun row hrow => ?_) t⟩
  rw [List.zipWith_map, List.zipWith_self, List.mem_flatten] at hrow
  obtain ⟨rows, hrows, hrow⟩ := hrow
  obtain ⟨b, hb, rfl⟩ := List.mem_map.mp hrows
  rw [h.batchRows_eq hb, (h.valid b hb).zip_lens] at hrow
  obtain ⟨q, hq, rfl⟩ := List.mem_map.mp hrow
  have hkeep := (h.valid b hb).keep q hq
  exact ⟨hkeep.increasing, hkeep.inRange⟩

theorem sortedKeep_eq (h : ValidLayers cfg t seqIds keepCount batch) (sorted : Bool) :
    ((batch.map Prod.snd).map fun (table : KeepTable) => table.rows.map (sortedKeep sorted)) =
      batch.map fun b => b.2.rows := by
  rw [List.map_map]
  refine List.map_congr_left fun b hb => ?_
  have hrows : ∀ row ∈ b.2.rows, sortedKeep sorted row = row := by
    intro row hrow
    rw [← List.map_snd_zip (h.valid b hb).shape.le] at hrow
    obtain ⟨q, hq, rfl⟩ := List.mem_map.mp hrow
    exact sortedKeep_of_increasing ((h.valid b hb).keep q hq).increasing sorted
  exact (List.map_congr_left hrows).trans (List.map_id _)

theorem preflights_ok (h : ValidLayers cfg t seqIds keepCount batch) :
    forEach ((batch.map Prod.fst).zip (batch.map fun b => t.batchRows seqIds b.1)) (fun p =>
      onLayer p.1 (preflightCompactionFreeCapacity .freePartSlotsBatchLayers p.1
        (releaseCount p.2 keepCount))) t = .ok () t := by
  rw [List.zip_map', forEach_map]
  refine forEach_ok fun b hb => ?_
  have hpreflight := (h.valid b hb).preflight_ok .freePartSlotsBatchLayers
  rw [← h.batchRows_eq hb, h.keepCount b hb] at hpreflight
  rw [onLayer_ok hpreflight, setLayers_self rfl]

/-- The layers work of equal lengths. -/
theorem uniformWork (h : ValidLayers cfg t seqIds keepCount batch) {curLen : Nat}
    (hall : ∀ row ∈ batch.map fun b => t.batchRows seqIds b.1, ∀ p ∈ row, p.2 = curLen) :
    ∀ w ∈ batch.map (t.toWork seqIds), UniformWork t curLen keepCount w := by
  intro w hw
  obtain ⟨b, hb, rfl⟩ := List.mem_map.mp hw
  refine ⟨?_, (h.valid b hb).ready, fun p hp => ?_, fun p hp => ?_⟩
  · intro hnil
    have hfst := congrArg (List.map Prod.fst) hnil
    rw [toWork, jobs_fst (h.valid b hb).shape, List.map_nil, List.map_eq_nil_iff] at hfst
    exact (h.valid b hb).seqs_ne hfst
  · have hrow := hall _ (List.mem_map_of_mem hb) (p.1, (t.layers b.1).rowSeqLens p.1)
    refine hrow ?_
    rw [h.batchRows_eq hb]
    exact List.mem_map_of_mem (List.mem_map_of_mem hp)
  · rw [((h.valid b hb).keepCount_le p hp).1, h.keepCount b hb]

/-- The rows of the work, as the tiles read them. -/
theorem work_rows (h : ValidLayers cfg t seqIds keepCount batch) :
    ((batch.map (t.toWork seqIds)).map fun w => w.2.map Prod.fst) =
      (batch.map fun b => t.batchRows seqIds b.1).map fun row => row.map Prod.fst := by
  rw [List.map_map, List.map_map]
  exact List.map_congr_left fun b hb => (h.batchRows_fst hb).symm

theorem work_keep (h : ValidLayers cfg t seqIds keepCount batch) :
    ((batch.map (t.toWork seqIds)).map fun w => w.2.map Prod.snd) =
      (batch.map fun b => b.2.rows).map fun table => table.map fun row => row.map Int.toNat := by
  rw [List.map_map, List.map_map]
  exact List.map_congr_left fun b hb => jobs_snd (h.valid b hb).shape

/-- One layer's rows, of one length or not. -/
theorem layer_spec (h : ValidLayers cfg t seqIds keepCount batch) : ∀ b ∈ batch,
    ∀ t₁ : SlotTables, t₁.layers b.1 = t.layers b.1 → Spec (· = t₁)
      (if ∀ row ∈ t.batchRows seqIds b.1,
          row.2 = ((t.batchRows seqIds b.1).map Prod.snd).headD 0 then
        onLayer b.1 (compactUniformRowsBounded cfg ((t.batchRows seqIds b.1).map Prod.fst)
          (((t.batchRows seqIds b.1).map Prod.snd).headD 0)
          (b.2.rows.map fun row => row.map Int.toNat))
      else
        forEach (seqIds.zip b.2.rows) fun q => freePartSlots cfg b.1 q.1 q.2 true)
      (fun _ t' => Compacted t₁ t' [t.toWork seqIds b]) fun _ _ => False := by
  intro b hb t₁ hsame
  have hvalid := h.valid b hb
  rw [← hsame] at hvalid
  have hwork : t.toWork seqIds b = (b.1, (t₁.layers b.1).jobs seqIds b.2.rows) := by
    rw [toWork, hsame]
  rw [h.batchRows_fst hb, hwork]
  by_cases hall : ∀ row ∈ t.batchRows seqIds b.1,
      row.2 = ((t.batchRows seqIds b.1).map Prod.snd).headD 0
  · rw [if_pos hall]
    refine hvalid.bounded_spec fun p hp => ?_
    rw [hsame] at hp ⊢
    refine hall (p.1, _) ?_
    rw [h.batchRows_eq hb]
    exact List.mem_map_of_mem (List.mem_map_of_mem hp)
  · rw [if_neg hall]
    exact forEach_freePartSlots_spec hvalid.kvLayer hvalid.keep hvalid.ready

end ValidLayers

theorem compactBatchLayers_spec {tensor : KeepTensor} (views sorted : Bool)
    (htables : tensor.tables = batch.map Prod.snd)
    (h : ValidLayers cfg t seqIds tensor.keepCount batch) :
    Spec (· = t)
      (compactBatchLayers cfg views (batch.map Prod.fst) seqIds tensor sorted)
      (fun _ t' => Compacted t t' (batch.map (t.toWork seqIds))) fun _ _ => False := by
  obtain ⟨keep, hprepared⟩ := h.prepareKeep_ok sorted
  generalize hcurLen : (((batch.map fun b => t.batchRows seqIds b.1).headD []).map
    Prod.snd).headD 0 = curLen
  have hnodup : ((batch.map (t.toWork seqIds)).map Prod.fst).Nodup := by
    rw [toWork_fst]
    exact h.distinct
  have hrun : compactBatchLayers cfg views (batch.map Prod.fst) seqIds tensor sorted t =
      (if views = true ∧ (∀ row ∈ batch.map fun b => t.batchRows seqIds b.1,
          ∀ p ∈ row, p.2 = curLen) ∧ seqIds.length * curLen ≤ cfg.tileElements then
        forEach (tiles (batch.map Prod.fst).length
            (max 1 (cfg.tileElements / max 1 (seqIds.length * curLen)))) fun tile =>
          compactUniformLayerTile (between tile.1 tile.2 (batch.map Prod.fst))
            (between tile.1 tile.2 ((batch.map fun b => t.batchRows seqIds b.1).map
              fun row => row.map Prod.fst)) curLen
            (between tile.1 tile.2 ((batch.map fun b => b.2.rows).map
              fun table => table.map fun row => row.map Int.toNat))
      else
        forEach ((batch.map Prod.fst).zip ((batch.map fun b => t.batchRows seqIds b.1).zip
            (batch.map fun b => b.2.rows))) fun p =>
          if ∀ row ∈ p.2.1, row.2 = (p.2.1.map Prod.snd).headD 0 then
            onLayer p.1 (compactUniformRowsBounded cfg (p.2.1.map Prod.fst)
              ((p.2.1.map Prod.snd).headD 0) (p.2.2.map fun row => row.map Int.toNat))
          else
            forEach (seqIds.zip p.2.2) fun q => freePartSlots cfg p.1 q.1 q.2 true)
        { t with uniformDecodeMetadata := false } := by
    unfold compactBatchLayers clearUniform
    rw [bind_ok h.rows_ok, bind_ok h.distinctRows_ok, htables, bind_ok hprepared,
      bind_ok h.preflights_ok, modify_bind, h.sortedKeep_eq, ← hcurLen]
  by_cases hcond : views = true ∧ (∀ row ∈ batch.map fun b => t.batchRows seqIds b.1,
      ∀ p ∈ row, p.2 = curLen) ∧ seqIds.length * curLen ≤ cfg.tileElements
  · have htiles := compactLayerTiles_spec (t := { t with uniformDecodeMetadata := false })
      (Nat.le_max_left 1 (cfg.tileElements / max 1 (seqIds.length * curLen))) hnodup
      fun w hw => (h.uniformWork hcond.2.1 w hw).of_same rfl
    rw [h.work_rows, h.work_keep, toWork_fst, List.length_map] at htiles
    rintro _ rfl
    rw [hrun, if_pos hcond, List.length_map]
    refine (htiles.post fun _ t' hdone => ?_) _ rfl
    exact hdone.of_layers rfl
  · have hlayers := forEach_compacted_spec (t := { t with uniformDecodeMetadata := false }) hnodup
      (h.layer_spec)
    rintro _ rfl
    rw [hrun, if_neg hcond, List.zip_map', List.zip_map', forEach_map]
    refine (hlayers.post fun _ t' hdone => ?_) _ rfl
    exact hdone.of_layers rfl

theorem freePartSlotsBatchLayers_spec {tensor : KeepTensor} (views sorted : Bool)
    (hne : batch ≠ []) (hseqs : seqIds ≠ []) (htables : tensor.tables = batch.map Prod.snd)
    (h : ValidLayers cfg t seqIds tensor.keepCount batch) :
    Spec (· = t)
      (freePartSlotsBatchLayers cfg views (batch.map Prod.fst) seqIds tensor sorted)
      (fun _ t' => Compacted t t' (batch.map (t.toWork seqIds))) fun _ _ => False := by
  obtain ⟨b, hb⟩ := List.exists_mem_of_ne_nil batch hne
  have hempty : ¬ (batch.map Prod.fst = [] ∨ seqIds = []) := by
    rw [List.map_eq_nil_iff]
    exact not_or.mpr ⟨hne, hseqs⟩
  have hkvLayers : forEach (batch.map Prod.fst) (fun layer =>
      raiseIf (layer ∉ cfg.kvLayers) (CompactionError.notKvLayer layer)) t = .ok () t := by
    rw [forEach_map]
    refine forEach_ok fun c hc => ?_
    unfold raiseIf
    rw [if_neg (not_not.mpr (h.valid c hc).kvLayer)]
    rfl
  have hshape : ¬ (tensor.tables.length ≠ (batch.map Prod.fst).length ∨
      tensor.batch ≠ seqIds.length) := by
    have hmem : b.2 ∈ tensor.tables := htables ▸ List.mem_map_of_mem hb
    rw [htables, List.length_map, List.length_map, ← (tensor.rect b.2 hmem).2, (h.valid b hb).shape]
    simp
  have hcount : tensor.keepCount ≠ 0 := by
    rw [← h.keepCount b hb]
    exact (h.valid b hb).keepCount_pos
  rintro _ rfl
  unfold freePartSlotsBatchLayers
  rw [if_neg hempty, bind_ok hkvLayers, raiseIf_bind, if_neg hshape, raiseIf_bind, if_neg hcount,
    raiseIf_bind, if_neg (not_not.mpr h.distinct), htables]
  cases batch with
  | nil => exact compactBatchLayers_spec views sorted htables h _ rfl
  | cons c rest =>
    cases rest with
    | nil => exact freePartSlotsBatch_spec sorted (h.valid c List.mem_cons_self) _ rfl
    | cons d rest => exact compactBatchLayers_spec views sorted htables h _ rfl

end Batch

end SlotTables

end SparseVllm
