import Mathlib.Algebra.Order.BigOperators.Group.List
import SparseVllm.SnapKv.PrefixRecent

/-!
# All compaction paths agree (`cache_manager/snapkv.py`)

A consistent layer has room on its stack for the slots its mapped rows hold, so a compaction of
mapped rows is never refused for want of room, and it leaves the layer consistent.

## Results

* `Consistent.ready`: the rows of distinct sequences of a consistent layer can be compacted.
* `Consistent.compacted`: slots are conserved.
* `moveTiles_reads`: a tile moved in place reads only entries that no earlier tile wrote.
* **`compactionPaths_agree`**: every path does what `RowsCompacted` says in each layer, and leaves all
  other layers alone.
-/

namespace SparseVllm

open SparseVllm.Lib

namespace SlotLayer

variable {cfg : SlotConfig} {layerIdx : Nat} {l l' : SlotLayer} {jobs : List (Nat × List Nat)}

theorem toNat_pairwise {keep : List Int} (h : keep.Pairwise (· < ·)) (hpos : ∀ i ∈ keep, 0 ≤ i) :
    (keep.map Int.toNat).Pairwise (· < ·) := by
  rw [List.pairwise_map]
  refine h.imp_of_mem fun {i j} hi hj hlt => ?_
  have := hpos i hi
  have := hpos j hj
  omega

/-! ## Consistent layers -/

namespace Consistent

/-- The stack has room for the slots of mapped rows. -/
theorem room (h : l.Consistent cfg layerIdx) (hrows : (jobs.map Prod.fst).Nodup)
    (hmapped : ∀ p ∈ jobs, p.1 ∈ l.seqIdToRow.values) :
    l.numFreeSlots + (jobs.map fun p => l.rowSeqLens p.1).sum ≤ l.freeSlotsStack.length := by
  have hlen : ∀ row, (l.rowSlots row).length = l.rowSeqLens row := by
    intro row
    unfold rowSlots
    rw [List.length_take, h.width row, Nat.min_eq_left (h.rowLen_le row)]
  have hslots := h.slots.length_eq
  rw [List.length_append, List.length_range, length_freeSlots (h.numFree_le.trans h.stack.ge),
    List.length_flatMap] at hslots
  have hsub : jobs.map Prod.fst ⊆ l.seqIdToRow.values := by
    intro row hrow
    obtain ⟨p, hp, rfl⟩ := List.mem_map.mp hrow
    exact hmapped p hp
  obtain ⟨rows, hperm, hsublist⟩ := List.subperm_of_subset hrows hsub
  have hsum : (jobs.map fun p => l.rowSeqLens p.1).sum ≤
      (l.seqIdToRow.values.map fun row => (l.rowSlots row).length).sum :=
    calc (jobs.map fun p => l.rowSeqLens p.1).sum
      _ = ((jobs.map Prod.fst).map l.rowSeqLens).sum := by
        rw [List.map_map]
        rfl
      _ = (rows.map l.rowSeqLens).sum := ((hperm.map l.rowSeqLens).sum_eq).symm
      _ ≤ (l.seqIdToRow.values.map l.rowSeqLens).sum :=
        (hsublist.map l.rowSeqLens).sum_le_sum fun _ _ => Nat.zero_le _
      _ = (l.seqIdToRow.values.map fun row => (l.rowSlots row).length).sum := by
        rw [List.map_congr_left fun row _ => (hlen row).symm]
  rw [h.stack]
  omega

theorem ready (h : l.Consistent cfg layerIdx) (hrows : (jobs.map Prod.fst).Nodup)
    (hmapped : ∀ p ∈ jobs, p.1 ∈ l.seqIdToRow.values)
    (increasing : ∀ p ∈ jobs, p.2.Pairwise (· < ·))
    (inRange : ∀ p ∈ jobs, ∀ i ∈ p.2, i < l.rowSeqLens p.1) : SlotLayer.Ready l jobs := by
  refine ⟨hrows, increasing, inRange, fun p _ => ?_, ?_⟩
  · rw [h.width p.1]
    exact h.rowLen_le p.1
  · have hsum : (jobs.map fun p => l.rowSeqLens p.1 - p.2.length).sum ≤
        (jobs.map fun p => l.rowSeqLens p.1).sum :=
      List.sum_le_sum fun p _ => Nat.sub_le _ _
    have := h.room hrows hmapped
    omega

/-- Distinct sequences have distinct rows. -/
theorem rowOf_nodup (h : l.Consistent cfg layerIdx) {seqIds : List Nat} (hnodup : seqIds.Nodup)
    (hmapped : ∀ s ∈ seqIds, l.seqIdToRow.get? s = some (l.rowOf s)) :
    (seqIds.map l.rowOf).Nodup := by
  have hvalues : l.seqIdToRow.values.Nodup := h.rowsDistinct.of_append_left
  refine List.Nodup.map_on (fun s hs s' hs' heq => ?_) hnodup
  have hrow := hmapped s hs
  rw [heq] at hrow
  exact Dict.eq_of_nodup_values hvalues (hmapped s' hs') hrow

/-- The rows of a batch that keeps increasing positions can be compacted. -/
theorem ready_jobs (h : l.Consistent cfg layerIdx) {seqIds : List Nat} {keep : List (List Int)}
    (hnodup : seqIds.Nodup) (hlen : keep.length = seqIds.length)
    (hkeep : ∀ q ∈ seqIds.zip keep, Keepable l q.1 q.2) : SlotLayer.Ready l (l.jobs seqIds keep) := by
  have hmapped : ∀ s ∈ seqIds, l.seqIdToRow.get? s = some (l.rowOf s) := by
    intro s hs
    rw [← List.map_fst_zip hlen.ge] at hs
    obtain ⟨q, hq, rfl⟩ := List.mem_map.mp hs
    exact (hkeep q hq).mapped
  refine h.ready ?_ (fun p hp => ?_) (fun p hp => ?_) fun p hp i hi => ?_
  · rw [jobs_fst hlen]
    exact h.rowOf_nodup hnodup hmapped
  · obtain ⟨q, hq, rfl⟩ := List.mem_map.mp hp
    exact Dict.mem_values.mpr ⟨q.1, (hkeep q hq).mapped⟩
  · obtain ⟨q, hq, rfl⟩ := List.mem_map.mp hp
    exact toNat_pairwise (hkeep q hq).increasing fun i hi => ((hkeep q hq).inRange i hi).1
  · obtain ⟨q, hq, rfl⟩ := List.mem_map.mp hp
    obtain ⟨j, hj, rfl⟩ := List.mem_map.mp hi
    have := (hkeep q hq).inRange j hj
    dsimp only
    omega

theorem validBatch (h : l.Consistent cfg layerIdx) {seqIds : List Nat} {table : KeepTable}
    (hlayer : layerIdx ∈ cfg.kvLayers) (hseqs : seqIds ≠ []) (hnodup : seqIds.Nodup)
    (hshape : table.rows.length = seqIds.length)
    (hkeep : ∀ q ∈ seqIds.zip table.rows, Keepable l q.1 q.2) :
    SlotTables.ValidBatch cfg layerIdx l seqIds table :=
  ⟨hlayer, hseqs, hshape, hkeep, h.ready_jobs hnodup hshape hkeep⟩

/-- Rows of one length whose prefix and recent tokens are kept. -/
theorem evenRows (h : l.Consistent cfg layerIdx) {seqIds : List Nat} {sinkEnd recentStart kvLen : Nat}
    (hsink : sinkEnd ≤ recentStart) (hrecent : recentStart ≤ kvLen) (hnodup : seqIds.Nodup)
    (hmapped : ∀ s ∈ seqIds, l.seqIdToRow.get? s = some (l.rowOf s))
    (hlens : ∀ s ∈ seqIds, l.rowSeqLens (l.rowOf s) = kvLen) :
    EvenRows l sinkEnd recentStart kvLen (seqIds.map l.rowOf) := by
  have hrowLens : ∀ row ∈ seqIds.map l.rowOf, l.rowSeqLens row = kvLen := by
    intro row hrow
    obtain ⟨s, hs, rfl⟩ := List.mem_map.mp hrow
    exact hlens s hs
  refine ⟨h.ready ?_ (fun p hp => ?_) (fun p hp => ?_) fun p hp i hi => ?_, hrowLens,
    fun row hrow => ?_⟩
  · have hfst : ((seqIds.map l.rowOf).map fun row =>
        (row, prefixRecent sinkEnd recentStart kvLen)).map Prod.fst = seqIds.map l.rowOf := by
      rw [List.map_map]
      exact List.map_id _
    rw [hfst]
    exact h.rowOf_nodup hnodup hmapped
  · obtain ⟨row, hrow, rfl⟩ := List.mem_map.mp hp
    obtain ⟨s, hs, rfl⟩ := List.mem_map.mp hrow
    exact Dict.mem_values.mpr ⟨s, hmapped s hs⟩
  · obtain ⟨row, hrow, rfl⟩ := List.mem_map.mp hp
    exact prefixRecent_pairwise hsink
  · obtain ⟨row, hrow, rfl⟩ := List.mem_map.mp hp
    rw [hrowLens row hrow]
    have := (mem_prefixRecent hrecent).mp hi
    omega
  · rw [← hrowLens row hrow]
    exact h.padding row

end Consistent

/-! ## Reads in place -/

/-- Tiles that end before a bound write nothing past it. -/
theorem moveTiles_keep {row bound : Nat} {keep : List Nat} {before : List (Nat × Nat)}
    (hwidth : keep.length ≤ (l.bufferReqToTokenSlots row).length)
    (htiles : ∀ tile ∈ before, tile.1 ≤ tile.2 ∧ tile.2 ≤ keep.length ∧ tile.2 ≤ bound) :
    Spec (· = l) (forEach before (moveTile row keep))
      (fun _ l' => (l'.bufferReqToTokenSlots row).drop bound =
        (l.bufferReqToTokenSlots row).drop bound) fun _ _ => False := by
  induction before generalizing l with
  | nil =>
    rintro _ rfl
    rfl
  | cons tile before ih =>
    obtain ⟨hle, hkeep, hbound⟩ := htiles tile List.mem_cons_self
    have hselected : tile.1 + (gather 0 (between tile.1 tile.2 keep)
        (l.bufferReqToTokenSlots row)).length = tile.2 := by
      rw [length_gather, length_between hkeep]
      omega
    have hlen : (overwrite tile.1 (gather 0 (between tile.1 tile.2 keep)
        (l.bufferReqToTokenSlots row)) (l.bufferReqToTokenSlots row)).length =
        (l.bufferReqToTokenSlots row).length := length_overwrite (by omega)
    have hdrop : (overwrite tile.1 (gather 0 (between tile.1 tile.2 keep)
        (l.bufferReqToTokenSlots row)) (l.bufferReqToTokenSlots row)).drop bound =
        (l.bufferReqToTokenSlots row).drop bound := drop_overwrite_of_le (by omega) (by omega)
    have hmove : Spec (· = l) (moveTile row keep tile) (fun _ l₁ => l₁ = l.setRow row
        (overwrite tile.1 (gather 0 (between tile.1 tile.2 keep) (l.bufferReqToTokenSlots row))
          (l.bufferReqToTokenSlots row)) (l.rowSeqLens row)) fun _ _ => False := by
      rintro _ rfl
      rfl
    refine Spec.bind hmove fun _ => Spec.intro fun l₁ h₁ => ?_
    subst h₁
    refine (ih ?_ fun p hp => htiles p (List.mem_cons_of_mem tile hp)).post fun _ l' h' => ?_
    · rwa [setRow_slots, hlen]
    · rwa [setRow_slots, hdrop] at h'

/-- A tile reads entries that no earlier tile wrote. -/
theorem moveTiles_reads {row n : Nat} {keep : List Nat} {before after : List (Nat × Nat)}
    {tile : Nat × Nat} (hincreasing : keep.Pairwise (· < ·))
    (hwidth : keep.length ≤ (l.bufferReqToTokenSlots row).length)
    (hsplit : tiles keep.length n = before ++ tile :: after) :
    Spec (· = l) (forEach before (moveTile row keep))
      (fun _ l' => ∀ i ∈ between tile.1 tile.2 keep, (∀ earlier ∈ before, earlier.2 ≤ i) ∧
        (l'.bufferReqToTokenSlots row)[i]? = (l.bufferReqToTokenSlots row)[i]?)
      fun _ _ => False := by
  have hpairwise := tiles_pairwise keep.length n
  rw [hsplit, List.pairwise_append] at hpairwise
  have hbefore : ∀ earlier ∈ before, earlier.2 ≤ tile.1 := fun earlier hearlier =>
    hpairwise.2.2 earlier hearlier tile List.mem_cons_self
  have htiles : ∀ earlier ∈ before,
      earlier.1 ≤ earlier.2 ∧ earlier.2 ≤ keep.length ∧ earlier.2 ≤ tile.1 := by
    intro earlier hearlier
    have hin : earlier ∈ tiles keep.length n := hsplit ▸ List.mem_append_left _ hearlier
    obtain ⟨hle, hkeep⟩ := le_of_mem_tiles hin
    exact ⟨hle, hkeep, hbefore earlier hearlier⟩
  refine (moveTiles_keep hwidth htiles).post fun _ l' hdrop i hi => ?_
  have hstart : tile.1 ≤ i := le_of_mem_drop hincreasing
    (List.mem_of_mem_take (by rwa [between, List.drop_take] at hi))
  refine ⟨fun earlier hearlier => (hbefore earlier hearlier).trans hstart, ?_⟩
  have hread := congrArg (·[i - tile.1]?) hdrop
  simpa only [List.getElem?_drop, Nat.add_sub_cancel' hstart] using hread

end SlotLayer

/-! ## The paths -/

namespace SlotTables

open SlotLayer

variable {cfg : SlotConfig} {t : SlotTables}

/-- A call returns, with the work done. -/
def Does (t : SlotTables) (m : EStateM CompactionError SlotTables Unit)
    (work : List (Nat × List (Nat × List Nat))) : Prop :=
  ∃ t', m t = .ok () t' ∧ Compacted t t' work

theorem does_of_spec {m : EStateM CompactionError SlotTables Unit}
    {work : List (Nat × List (Nat × List Nat))}
    (h : Spec (· = t) m (fun _ t' => Compacted t t' work) fun _ _ => False) : t.Does m work := by
  have hrun := h t rfl
  cases hm : m t with
  | ok a t' =>
    rw [hm] at hrun
    exact ⟨t', hm, hrun⟩
  | error e t' =>
    rw [hm] at hrun
    exact hrun.elim

/-- Nothing to do in any layer. -/
theorem compacted_nil (hptr : ∀ i ∈ cfg.kvLayers, (t.layers i).Consistent cfg i) {layers : List Nat}
    (hlayers : layers ⊆ cfg.kvLayers) : Compacted t t (layers.map fun i => (i, [])) := by
  refine ⟨fun w hw => ?_, fun _ _ => rfl⟩
  obtain ⟨i, hi, rfl⟩ := List.mem_map.mp hw
  exact RowsCompacted.refl (hptr i (hlayers hi)).sound.ptr_le

theorem freePartSlots_does (hconsistent : ∀ i ∈ cfg.kvLayers, (t.layers i).Consistent cfg i)
    {layer seqId : Nat} {keep : List Int} (sorted : Bool) (hlayer : layer ∈ cfg.kvLayers)
    (hkeep : Keepable (t.layers layer) seqId keep) :
    t.Does (freePartSlots cfg layer seqId keep sorted)
      [(layer, [((t.layers layer).rowOf seqId, keep.map Int.toNat)])] := by
  have hready : SlotLayer.Ready (t.layers layer) ((t.layers layer).jobs [seqId] [keep]) :=
    (hconsistent layer hlayer).ready_jobs (List.nodup_singleton seqId) rfl fun q hq => by
      obtain rfl := List.mem_singleton.mp hq
      exact hkeep
  exact does_of_spec (freePartSlots_spec sorted hlayer hkeep hready)

theorem freePartSlotsBatch_does (hconsistent : ∀ i ∈ cfg.kvLayers, (t.layers i).Consistent cfg i)
    {layer : Nat} {seqIds : List Nat} {table : KeepTable} (sorted : Bool)
    (hlayer : layer ∈ cfg.kvLayers) (hnodup : seqIds.Nodup)
    (hshape : table.rows.length = seqIds.length)
    (hkeep : ∀ q ∈ seqIds.zip table.rows, Keepable (t.layers layer) q.1 q.2) :
    t.Does (freePartSlotsBatch cfg layer seqIds table sorted)
      [(layer, (t.layers layer).jobs seqIds table.rows)] := by
  by_cases hseqs : seqIds = []
  · subst hseqs
    have hlayers : [layer] ⊆ cfg.kvLayers := by simpa using hlayer
    exact ⟨t, rfl, compacted_nil hconsistent hlayers⟩
  · exact does_of_spec (freePartSlotsBatch_spec sorted
      ((hconsistent layer hlayer).validBatch hlayer hseqs hnodup hshape hkeep))

theorem freePartSlotsBatchLayers_does
    (hconsistent : ∀ i ∈ cfg.kvLayers, (t.layers i).Consistent cfg i) {layers seqIds : List Nat}
    {tensor : KeepTensor} (views sorted : Bool) (hlayers : layers ⊆ cfg.kvLayers)
    (hdistinct : layers.Nodup) (hnodup : seqIds.Nodup)
    (hshape : tensor.tables.length = layers.length ∧ tensor.batch = seqIds.length)
    (hkeep : ∀ b ∈ layers.zip tensor.tables, ∀ q ∈ seqIds.zip b.2.rows,
      Keepable (t.layers b.1) q.1 q.2) :
    t.Does (freePartSlotsBatchLayers cfg views layers seqIds tensor sorted)
      ((layers.zip tensor.tables).map (t.toWork seqIds)) := by
  have hfst : (layers.zip tensor.tables).map Prod.fst = layers := List.map_fst_zip hshape.1.ge
  have hsnd : (layers.zip tensor.tables).map Prod.snd = tensor.tables := List.map_snd_zip hshape.1.le
  by_cases hempty : layers = [] ∨ seqIds = []
  · refine ⟨t, ?_, ?_⟩
    · unfold freePartSlotsBatchLayers
      rw [if_pos hempty]
      rfl
    · rcases hempty with rfl | rfl
      · exact Compacted.nil
      · have hnil := compacted_nil hconsistent hlayers
        rw [← hfst, List.map_map] at hnil
        exact hnil
  · rw [not_or] at hempty
    have hbatch : layers.zip tensor.tables ≠ [] := by
      intro hnil
      rw [hnil] at hfst
      exact hempty.1 hfst.symm
    have hvalid : ValidLayers cfg t seqIds tensor.keepCount (layers.zip tensor.tables) := by
      refine ⟨by rwa [hfst], fun b hb => ?_, fun b hb => ?_⟩
      · have hlayer := hlayers (List.of_mem_zip hb).1
        have hrect := tensor.rect b.2 (List.of_mem_zip hb).2
        exact (hconsistent b.1 hlayer).validBatch hlayer hempty.2 hnodup
          (hrect.2.trans hshape.2) (hkeep b hb)
      · exact (tensor.rect b.2 (List.of_mem_zip hb).2).1
    have hspec := freePartSlotsBatchLayers_spec views sorted hbatch hempty.2 hsnd.symm hvalid
    rw [hfst] at hspec
    exact does_of_spec hspec

theorem freePrefixRecent_does
    (hconsistent : ∀ i ∈ cfg.kvLayers, (t.layers i).Consistent cfg i) {layers seqIds : List Nat}
    {kvLen sink recent sinkEnd recentStart : Nat} (hlayers : layers ⊆ cfg.kvLayers)
    (hdistinct : layers.Nodup) (hnodup : seqIds.Nodup) (hsinkEnd : min sink kvLen = sinkEnd)
    (hrecentStart : max sinkEnd (kvLen - recent) = recentStart)
    (hkeeps : prefixRecent sinkEnd recentStart kvLen ≠ [])
    (hrows : ∀ i ∈ layers, ∀ s ∈ seqIds,
      (t.layers i).seqIdToRow.get? s = some ((t.layers i).rowOf s) ∧
        (t.layers i).rowSeqLens ((t.layers i).rowOf s) = kvLen) :
    t.Does (freePrefixRecentSlotsBatchLayers cfg layers seqIds kvLen sink recent)
      (t.prefixRecentWork layers seqIds sinkEnd recentStart kvLen) := by
  by_cases hempty : layers = [] ∨ seqIds = []
  · refine ⟨t, ?_, ?_⟩
    · unfold freePrefixRecentSlotsBatchLayers
      rw [if_pos hempty]
      rfl
    · rcases hempty with rfl | rfl
      · exact Compacted.nil
      · exact compacted_nil hconsistent hlayers
  · rw [not_or] at hempty
    have hnonzero : sinkEnd + (kvLen - recentStart) ≠ 0 := by
      intro hzero
      exact hkeeps (List.length_eq_zero_iff.mp (length_prefixRecent.trans hzero))
    refine does_of_spec (freePrefixRecent_spec hempty.1 hempty.2 hsinkEnd hrecentStart hnonzero
      ⟨hdistinct, hlayers, fun i hi s hs => (hrows i hi s hs).1, fun i hi => ?_⟩)
    exact (hconsistent i (hlayers hi)).evenRows (by omega) (by omega) hnodup
      (fun s hs => (hrows i hi s hs).1) fun s hs => (hrows i hi s hs).2

/-- **The compaction paths agree**: each leaves every row of the batch with its kept slots in order,
then zeros, the dropped slots on the layer's stack, and all other rows and layers as they were. -/
theorem compactionPaths_agree (cfg : SlotConfig) (t : SlotTables)
    (hconsistent : ∀ i ∈ cfg.kvLayers, (t.layers i).Consistent cfg i) :
    (∀ layer ∈ cfg.kvLayers, ∀ seqId keep sorted, Keepable (t.layers layer) seqId keep →
      t.Does (freePartSlots cfg layer seqId keep sorted)
        [(layer, [((t.layers layer).rowOf seqId, keep.map Int.toNat)])]) ∧
    (∀ layer ∈ cfg.kvLayers, ∀ (seqIds : List Nat) (table : KeepTable) (sorted : Bool),
      seqIds.Nodup → table.rows.length = seqIds.length →
      (∀ q ∈ seqIds.zip table.rows, Keepable (t.layers layer) q.1 q.2) →
      t.Does (freePartSlotsBatch cfg layer seqIds table sorted)
        [(layer, (t.layers layer).jobs seqIds table.rows)]) ∧
    (∀ layers ⊆ cfg.kvLayers, ∀ (seqIds : List Nat) (tensor : KeepTensor) (views sorted : Bool),
      layers.Nodup → seqIds.Nodup →
      tensor.tables.length = layers.length ∧ tensor.batch = seqIds.length →
      (∀ b ∈ layers.zip tensor.tables, ∀ q ∈ seqIds.zip b.2.rows,
        Keepable (t.layers b.1) q.1 q.2) →
      t.Does (freePartSlotsBatchLayers cfg views layers seqIds tensor sorted)
        ((layers.zip tensor.tables).map fun b =>
          (b.1, (t.layers b.1).jobs seqIds b.2.rows))) ∧
    (∀ layers ⊆ cfg.kvLayers, ∀ (seqIds : List Nat) (kvLen sink recent sinkEnd recentStart : Nat),
      layers.Nodup → seqIds.Nodup → min sink kvLen = sinkEnd →
      max sinkEnd (kvLen - recent) = recentStart →
      prefixRecent sinkEnd recentStart kvLen ≠ [] →
      (∀ i ∈ layers, ∀ s ∈ seqIds,
        (t.layers i).seqIdToRow.get? s = some ((t.layers i).rowOf s) ∧
          (t.layers i).rowSeqLens ((t.layers i).rowOf s) = kvLen) →
      t.Does (freePrefixRecentSlotsBatchLayers cfg layers seqIds kvLen sink recent)
        (layers.map fun i => (i, (seqIds.map (t.layers i).rowOf).map fun row =>
          (row, prefixRecent sinkEnd recentStart kvLen)))) ∧
    ∀ (l l' : SlotLayer) (row : Nat) (keep : List Nat) (before after : List (Nat × Nat))
      (tile : Nat × Nat), keep.Pairwise (· < ·) →
      keep.length ≤ (l.bufferReqToTokenSlots row).length →
      tiles keep.length cfg.tileElements = before ++ tile :: after →
      forEach before (moveTile row keep) l = .ok () l' →
      ∀ i ∈ between tile.1 tile.2 keep, (∀ earlier ∈ before, earlier.2 ≤ i) ∧
        (l'.bufferReqToTokenSlots row)[i]? = (l.bufferReqToTokenSlots row)[i]? := by
  refine ⟨?_, ?_, ?_, ?_, ?_⟩
  · intro layer hlayer seqId keep sorted hkeep
    exact freePartSlots_does hconsistent sorted hlayer hkeep
  · intro layer hlayer seqIds table sorted hnodup hshape hkeep
    exact freePartSlotsBatch_does hconsistent sorted hlayer hnodup hshape hkeep
  · intro layers hlayers seqIds tensor views sorted hdistinct hnodup hshape hkeep
    exact freePartSlotsBatchLayers_does hconsistent views sorted hlayers hdistinct hnodup hshape
      hkeep
  · intro layers hlayers seqIds kvLen sink recent sinkEnd recentStart hdistinct hnodup hsinkEnd
      hrecentStart hkeeps hrows
    exact freePrefixRecent_does hconsistent hlayers hdistinct hnodup hsinkEnd hrecentStart hkeeps
      hrows
  · intro l l' row keep before after tile hincreasing hwidth hsplit hrun
    have hreads := moveTiles_reads hincreasing hwidth hsplit l rfl
    rwa [hrun] at hreads

/-- Two layers with tiles of two elements. -/
def twoLayerConfig : SlotConfig where
  kvLayers := [0, 1]
  kvLayers_nodup := by decide
  maxModelLen := 4
  maxBufferRows := 2
  numSlots _ := 4
  hasStackTensor := true
  tileElements := 2
  tileElements_pos := Nat.two_pos

/-- Row 0 holds three slots and row 1 holds one. -/
def unevenLayer : SlotLayer where
  freeSlotsStack := [0, 0, 0, 0]
  numFreeSlots := 0
  seqIdToRow := ((∅ : Dict Nat Nat).set 7 0).set 8 1
  freeRows := []
  bufferReqToTokenSlots row :=
    if row = 0 then [2, 0, 1, 0] else if row = 1 then [3, 0, 0, 0] else [0, 0, 0, 0]
  rowSeqLens row := if row = 0 then 3 else if row = 1 then 1 else 0

def unevenTables : SlotTables where
  layers _ := unevenLayer
  uniformDecodeMetadata := true

theorem unevenLayer_consistent (i : Nat) : unevenLayer.Consistent twoLayerConfig i := by
  have hslots : (unevenLayer.freeSlots ++
      unevenLayer.seqIdToRow.values.flatMap unevenLayer.rowSlots).Perm (List.range 4) := by decide
  refine ⟨by decide, hslots, rfl, Nat.zero_le 4, fun row => ?_, fun row => ?_, nofun, fun row => ?_⟩
  · dsimp only [unevenLayer]
    split_ifs <;> rfl
  · dsimp only [unevenLayer]
    split_ifs <;> decide
  · dsimp only [unevenLayer]
    split_ifs <;> decide

/-- One position of each row. -/
def oneEach : KeepTable where
  keepCount := 1
  rows := [[1], [0]]
  rect := by decide

def oneEachLayer : KeepTensor where
  keepCount := 1
  batch := 2
  tables := [oneEach, oneEach]
  rect := by simp [oneEach]

/-- Rows of different lengths in two layers, and the ends of one row. -/
theorem compactionPaths_agree_uneven :
    unevenTables.Does (freePartSlotsBatchLayers twoLayerConfig true [0, 1] [7, 8] oneEachLayer false)
      [(0, [(0, [1]), (1, [0])]), (1, [(0, [1]), (1, [0])])] ∧
    unevenTables.Does (freePrefixRecentSlotsBatchLayers twoLayerConfig [0, 1] [7] 3 1 1)
      [(0, [(0, [0, 2])]), (1, [(0, [0, 2])])] := by
  obtain ⟨-, -, hlayers, hprefixed, -⟩ :=
    compactionPaths_agree twoLayerConfig unevenTables fun i _ => unevenLayer_consistent i
  have hkeep₀ : Keepable unevenLayer 7 [1] := ⟨rfl, by decide, by decide, by decide⟩
  have hkeep₁ : Keepable unevenLayer 8 [0] := ⟨rfl, by decide, by decide, by decide⟩
  have hkeeps : ∀ b ∈ [0, 1].zip oneEachLayer.tables, ∀ q ∈ [7, 8].zip b.2.rows,
      Keepable (unevenTables.layers b.1) q.1 q.2 := by
    intro b hb q hq
    have hq : q = (7, [1]) ∨ q = (8, [0]) := by
      rcases List.mem_pair.mp hb with rfl | rfl
      · exact List.mem_pair.mp hq
      · exact List.mem_pair.mp hq
    rcases hq with rfl | rfl
    · exact hkeep₀
    · exact hkeep₁
  have hrows : ∀ i ∈ [0, 1], ∀ s ∈ [7],
      (unevenTables.layers i).seqIdToRow.get? s = some ((unevenTables.layers i).rowOf s) ∧
        (unevenTables.layers i).rowSeqLens ((unevenTables.layers i).rowOf s) = 3 := by
    intro i _ s hs
    obtain rfl := List.mem_singleton.mp hs
    exact ⟨rfl, rfl⟩
  exact ⟨hlayers [0, 1] (by decide) [7, 8] oneEachLayer true false (by decide) (by decide)
      ⟨rfl, rfl⟩ hkeeps,
    hprefixed [0, 1] (by decide) [7] 3 1 1 1 2 (by decide) (by decide) rfl rfl (by decide) hrows⟩

/-- An empty keep list raises, and so do a prefix and recent tokens of rows of different lengths. -/
theorem empty_keep_refused :
    (∀ i ∈ twoLayerConfig.kvLayers, (unevenTables.layers i).Consistent twoLayerConfig i) ∧
    (unevenTables.layers 0).seqIdToRow.get? 7 = some 0 ∧
    (unevenTables.layers 0).seqIdToRow.get? 8 = some 1 ∧
    freePartSlots twoLayerConfig 0 7 [] true unevenTables =
      .error (.emptyKeep .freePartSlots) unevenTables ∧
    ¬ unevenTables.Does (freePartSlots twoLayerConfig 0 7 [] true) [(0, [(0, [])])] ∧
    ∀ work, ¬ unevenTables.Does
      (freePrefixRecentSlotsBatchLayers twoLayerConfig [0] [7, 8] 3 1 1) work := by
  have hempty : freePartSlots twoLayerConfig 0 7 [] true unevenTables =
      .error (.emptyKeep .freePartSlots) unevenTables := by
    unfold freePartSlots
    have hprepare : prepareFreePartSlots twoLayerConfig 0 7 [] true (unevenTables.layers 0) =
        .error (.emptyKeep .freePartSlots) (unevenTables.layers 0) := rfl
    rw [bind_error (onLayer_error hprepare), setLayers_self rfl]
  have huneven : freePrefixRecentSlotsBatchLayers twoLayerConfig [0] [7, 8] 3 1 1 unevenTables =
      .error (.unevenRows 3) _ := rfl
  refine ⟨fun i _ => unevenLayer_consistent i, rfl, rfl, hempty, ?_, ?_⟩
  · rintro ⟨t', hrun, -⟩
    rw [hempty] at hrun
    cases hrun
  · rintro work ⟨t', hrun, -⟩
    rw [huneven] at hrun
    cases hrun

end SlotTables

end SparseVllm
