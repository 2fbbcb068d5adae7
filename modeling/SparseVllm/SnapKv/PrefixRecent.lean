import SparseVllm.SnapKv.CompactionLayers

/-!
# Prefix and recent tokens (`cache_manager/snapkv.py`)

`free_prefix_recent_slots_batch_layers` keeps the first and the last tokens of rows of one length
without a tensor of keep indices. Its writes are the ones a compaction with these positions makes.

## Results

* `keepPrefixRecent_eq`: the writes to a row leave its kept slots and zeros.
* `freePrefixRecent_spec`: the rows keep their prefix and recent tokens, and no other layer changes.
-/

namespace SparseVllm

open SparseVllm.Lib

/-- The positions a prefix/recent compaction keeps. -/
def prefixRecent (sinkEnd recentStart kvLen : Nat) : List Nat :=
  List.range sinkEnd ++ List.range' recentStart (kvLen - recentStart)

section Positions

variable {sinkEnd recentStart kvLen : Nat} {row : List Nat}

theorem prefixRecent_pairwise (hsink : sinkEnd ≤ recentStart) :
    (prefixRecent sinkEnd recentStart kvLen).Pairwise (· < ·) := by
  refine List.pairwise_append.mpr ⟨List.pairwise_lt_range, List.pairwise_lt_range', ?_⟩
  intro i hi j hj
  have hi := List.mem_range.mp hi
  have hj := (List.mem_range'_1.mp hj).1
  omega

theorem mem_prefixRecent {i : Nat} (hrecent : recentStart ≤ kvLen) :
    i ∈ prefixRecent sinkEnd recentStart kvLen ↔ i < sinkEnd ∨ recentStart ≤ i ∧ i < kvLen := by
  unfold prefixRecent
  rw [List.mem_append, List.mem_range, List.mem_range'_1, Nat.add_sub_cancel' hrecent]

@[simp] theorem length_prefixRecent : (prefixRecent sinkEnd recentStart kvLen).length =
    sinkEnd + (kvLen - recentStart) := by
  unfold prefixRecent
  rw [List.length_append, List.length_range, List.length_range']

theorem gather_prefixRecent (hsink : sinkEnd ≤ recentStart) (hrecent : recentStart ≤ kvLen)
    (hlen : kvLen ≤ row.length) : gather 0 (prefixRecent sinkEnd recentStart kvLen) row =
      row.take sinkEnd ++ between recentStart kvLen row := by
  have hfirst : gather 0 (List.range sinkEnd) row = row.take sinkEnd := by
    have h : gather 0 (List.range' 0 sinkEnd) row = _ := gather_range' (by omega)
    rw [← List.range_eq_range', Nat.zero_add, between, List.drop_zero] at h
    exact h
  have hlast : gather 0 (List.range' recentStart (kvLen - recentStart)) row =
      between recentStart kvLen row := by
    have h : gather 0 (List.range' recentStart (kvLen - recentStart)) row = _ :=
      gather_range' (by omega)
    rwa [Nat.add_sub_cancel' hrecent] at h
  unfold prefixRecent
  rw [gather_append, hfirst, hlast]

theorem without_prefixRecent (hsink : sinkEnd ≤ recentStart) (hrecent : recentStart ≤ kvLen)
    (hlen : row.length = kvLen) : without 0 (prefixRecent sinkEnd recentStart kvLen) row =
      between sinkEnd recentStart row := by
  have hkept : (List.range kvLen).filter (· ∉ prefixRecent sinkEnd recentStart kvLen) =
      List.range' sinkEnd (recentStart - sinkEnd) := by
    refine (List.pairwise_lt_range.filter _).eq_of_mem_iff List.pairwise_lt_range' fun i => ?_
    rw [List.mem_filter, List.mem_range, decide_eq_true_eq, mem_prefixRecent hrecent,
      List.mem_range'_1]
    omega
  have hdropped : gather 0 (List.range' sinkEnd (recentStart - sinkEnd)) row = _ :=
    gather_range' (by omega)
  unfold without
  rw [hlen, hkept, hdropped, Nat.add_sub_cancel' hsink]

/-- The writes to a row leave its kept slots and zeros. -/
theorem keepPrefixRecent_eq (hsink : sinkEnd ≤ recentStart) (hrecent : recentStart ≤ kvLen)
    (hlen : kvLen ≤ row.length) (hpadding : ∀ slot ∈ row.drop kvLen, slot = 0) :
    SlotLayer.keepPrefixRecent sinkEnd recentStart kvLen row =
      gather 0 (prefixRecent sinkEnd recentStart kvLen) (row.take kvLen) ++
        List.replicate (row.length - (prefixRecent sinkEnd recentStart kvLen).length) 0 := by
  have hmoved : (if recentStart < kvLen then overwrite sinkEnd (between recentStart kvLen row) row
      else row) = overwrite sinkEnd (between recentStart kvLen row) row := by
    split
    · rfl
    · have hnil : between recentStart kvLen row = [] :=
        List.drop_eq_nil_of_le (by rw [List.length_take]; omega)
      rw [hnil, overwrite_nil]
  have hkept : gather 0 (prefixRecent sinkEnd recentStart kvLen) (row.take kvLen) =
      row.take sinkEnd ++ between recentStart kvLen row := by
    rw [← gather_prefixRecent hsink hrecent hlen]
    refine gather_congr fun i hi => getD_take ?_ 0 row
    have := (mem_prefixRecent hrecent).mp hi
    omega
  have hrecentLen : (between recentStart kvLen row).length = kvLen - recentStart :=
    length_between hlen
  have hzeros : row.drop kvLen = List.replicate (row.length - kvLen) 0 :=
    List.eq_replicate_iff.mpr ⟨List.length_drop, hpadding⟩
  have hsinkLen : sinkEnd ≤ row.length := by omega
  have htake : (overwrite sinkEnd (between recentStart kvLen row) row).take _ = _ :=
    take_overwrite hsinkLen
  have hdrop : (overwrite sinkEnd (between recentStart kvLen row) row).drop kvLen =
      row.drop kvLen := drop_overwrite_of_le hsinkLen (by omega)
  rw [hrecentLen] at htake
  unfold SlotLayer.keepPrefixRecent
  dsimp only
  rw [hmoved, hkept, overwrite, htake, List.length_replicate, length_prefixRecent,
    Nat.add_sub_cancel' (by omega), hdrop, hzeros, List.append_assoc, List.replicate_append_replicate]
  congr 2
  omega

theorem prefixRecent_all (h : sinkEnd ≤ kvLen) :
    prefixRecent sinkEnd sinkEnd kvLen = List.range kvLen := by
  unfold prefixRecent
  rw [List.range_eq_range', List.range_eq_range']
  have happend : List.range' 0 sinkEnd ++ List.range' (0 + sinkEnd) (kvLen - sinkEnd) = _ :=
    List.range'_append_1
  rwa [Nat.zero_add, Nat.add_sub_cancel' h] at happend

end Positions

/-! ## One layer -/

namespace SlotLayer

variable {l : SlotLayer} {sinkEnd recentStart kvLen : Nat} {jobs : List (Nat × List Nat)}

/-- A compaction that keeps all positions changes nothing. -/
theorem RowsCompacted.of_all (hready : SlotLayer.Ready l jobs)
    (hall : ∀ p ∈ jobs, p.2 = List.range (l.rowSeqLens p.1))
    (hpadding : ∀ p ∈ jobs, ∀ slot ∈ (l.bufferReqToTokenSlots p.1).drop (l.rowSeqLens p.1),
      slot = 0) : RowsCompacted l l jobs := by
  have hdropped : (jobs.flatMap fun p => without 0 p.2 (l.rowSlots p.1)) = [] := by
    rw [List.flatMap_eq_nil_iff]
    intro p hp
    have hlen := hready.length_dropped hp
    have hkeep := congrArg List.length (hall p hp)
    rw [List.length_range] at hkeep
    exact List.length_eq_zero_iff.mp (by omega)
  refine ⟨fun p hp => ?_, fun p hp => ?_, fun _ _ => ⟨rfl, rfl⟩, ?_, rfl, hready.ptr_le, rfl, rfl⟩
  · have hkept : gather 0 p.2 (l.rowSlots p.1) = l.rowSlots p.1 := by
      rw [hall p hp, ← hready.length_rowSlots hp]
      exact gather_range 0 _
    have hzeros : (l.bufferReqToTokenSlots p.1).drop (l.rowSeqLens p.1) =
        List.replicate ((l.bufferReqToTokenSlots p.1).length - p.2.length) 0 := by
      rw [hall p hp, List.length_range]
      exact List.eq_replicate_iff.mpr ⟨List.length_drop, hpadding p hp⟩
    rw [hkept, ← hzeros]
    exact (List.take_append_drop _ _).symm
  · rw [hall p hp, List.length_range]
  · rw [hdropped, List.append_nil]

/-- The rows of one length whose prefix and recent tokens are kept. -/
structure EvenRows (l : SlotLayer) (sinkEnd recentStart kvLen : Nat) (rows : List Nat) : Prop where
  ready : SlotLayer.Ready l (rows.map fun row => (row, prefixRecent sinkEnd recentStart kvLen))
  lens : ∀ row ∈ rows, l.rowSeqLens row = kvLen
  padding : ∀ row ∈ rows, ∀ slot ∈ (l.bufferReqToTokenSlots row).drop kvLen, slot = 0

namespace EvenRows

variable {rows : List Nat}

theorem width (h : EvenRows l sinkEnd recentStart kvLen rows) {row : Nat} (hrow : row ∈ rows) :
    kvLen ≤ (l.bufferReqToTokenSlots row).length := by
  rw [← h.lens row hrow]
  exact h.ready.width _ (List.mem_map_of_mem hrow)

theorem dropped (h : EvenRows l sinkEnd recentStart kvLen rows) (hsink : sinkEnd ≤ recentStart)
    (hrecent : recentStart ≤ kvLen) :
    ((rows.map fun row => (row, prefixRecent sinkEnd recentStart kvLen)).flatMap fun p =>
      without 0 p.2 (l.rowSlots p.1)) =
      rows.flatMap fun row => between sinkEnd recentStart (l.bufferReqToTokenSlots row) := by
  rw [List.flatMap_map]
  refine List.flatMap_congr fun row hrow => ?_
  have hlen := h.ready.length_rowSlots (List.mem_map_of_mem hrow)
  dsimp only at hlen
  rw [h.lens row hrow] at hlen
  rw [without_prefixRecent hsink hrecent hlen, rowSlots, h.lens row hrow, between, List.take_take,
    Nat.min_eq_left hrecent, between]

/-- What one layer's writes do. -/
theorem compacted (h : EvenRows l sinkEnd recentStart kvLen rows) (hsink : sinkEnd ≤ recentStart)
    (hrecent : recentStart ≤ kvLen) :
    RowsCompacted l
      (writePrefixRecent sinkEnd recentStart kvLen rows
        (l.push (rows.flatMap fun row => between sinkEnd recentStart (l.bufferReqToTokenSlots row))))
      (rows.map fun row => (row, prefixRecent sinkEnd recentStart kvLen)) := by
  have hfst : (rows.map fun row => (row, prefixRecent sinkEnd recentStart kvLen)).map Prod.fst =
      rows := by
    rw [List.map_map]
    exact List.map_id _
  have hwrites : ((rows.map fun row => (row, ())).map Prod.fst) = rows := by
    rw [List.map_map]
    exact List.map_id _
  have hnodup := h.ready.rows
  rw [hfst, ← hwrites] at hnodup
  rw [← h.dropped hsink hrecent]
  refine compacts_of_push _ _ h.ready (fun p hp => ?_) (fun p hp => ?_) fun row hother => ?_
  · obtain ⟨row, hrow, rfl⟩ := List.mem_map.mp hp
    have hwrite := scatter_of_mem
      (g := fun (_ : Unit) row => keepPrefixRecent sinkEnd recentStart kvLen row)
      l.bufferReqToTokenSlots hnodup (List.mem_map_of_mem hrow)
    refine hwrite.trans ?_
    rw [keepPrefixRecent_eq hsink hrecent (h.width hrow) (h.padding row hrow), rowSlots,
      h.lens row hrow]
  · obtain ⟨row, hrow, rfl⟩ := List.mem_map.mp hp
    rw [if_pos hrow, length_prefixRecent]
  · rw [hfst] at hother
    exact ⟨scatter_of_notMem (by rwa [hwrites]), if_neg hother⟩

end EvenRows

end SlotLayer

/-! ## All layers -/

namespace SlotTables

open SlotLayer

variable {cfg : SlotConfig} {t : SlotTables} {layers seqIds : List Nat}

/-- A loop over the layers themselves. -/
theorem forEach_layers_spec {ε : Type} {body : Nat → EStateM ε SlotLayer Unit}
    {Q : Nat → SlotLayer → Prop} (hnodup : layers.Nodup)
    (h : ∀ i ∈ layers, Spec (· = t.layers i) (body i) (fun _ => Q i) fun _ _ => False) :
    Spec (· = t) (forEach layers fun i => onLayer i (body i))
      (fun _ t' => (∀ i ∈ layers, Q i (t'.layers i)) ∧
        ∀ i ∉ layers, t'.layers i = t.layers i) fun _ _ => False := by
  have hid : (layers.map id).Nodup := by rwa [List.map_id]
  have hspec : Spec (· = t) (forEach layers fun i => onLayer (id i) (body i)) _ _ :=
    forEach_onLayer_spec hid h
  rwa [List.map_id] at hspec

/-- Rows of one length in several layers. -/
structure EvenLayers (cfg : SlotConfig) (t : SlotTables) (layers seqIds : List Nat)
    (sinkEnd recentStart kvLen : Nat) : Prop where
  distinct : layers.Nodup
  kvLayer : ∀ i ∈ layers, i ∈ cfg.kvLayers
  mapped : ∀ i ∈ layers, ∀ s ∈ seqIds,
    (t.layers i).seqIdToRow.get? s = some ((t.layers i).rowOf s)
  rows : ∀ i ∈ layers,
    EvenRows (t.layers i) sinkEnd recentStart kvLen (seqIds.map (t.layers i).rowOf)

/-- The rows keep their prefix and their recent tokens. -/
def prefixRecentWork (t : SlotTables) (layers seqIds : List Nat) (sinkEnd recentStart kvLen : Nat) :
    List (Nat × List (Nat × List Nat)) :=
  layers.map fun i => (i, (seqIds.map (t.layers i).rowOf).map fun row =>
    (row, prefixRecent sinkEnd recentStart kvLen))

theorem prefixRecentWork_fst (t : SlotTables) (layers seqIds : List Nat)
    (sinkEnd recentStart kvLen : Nat) :
    (t.prefixRecentWork layers seqIds sinkEnd recentStart kvLen).map Prod.fst = layers := by
  unfold prefixRecentWork
  rw [List.map_map]
  exact List.map_id _

/-- The slots a layer drops. -/
def prefixRecentDropped (t : SlotTables) (seqIds : List Nat) (sinkEnd recentStart layer : Nat) :
    List Nat :=
  (t.batchRows seqIds layer).flatMap fun q =>
    between sinkEnd recentStart ((t.layers layer).bufferReqToTokenSlots q.1)

section Layers

variable {sinkEnd recentStart kvLen : Nat}

theorem prefixRecentDropped_eq (t : SlotTables) (seqIds : List Nat)
    (sinkEnd recentStart layer : Nat) :
    t.prefixRecentDropped seqIds sinkEnd recentStart layer =
      (seqIds.map (t.layers layer).rowOf).flatMap fun row =>
        between sinkEnd recentStart ((t.layers layer).bufferReqToTokenSlots row) := by
  unfold prefixRecentDropped batchRows
  rw [List.flatMap_map, List.flatMap_map]

namespace EvenLayers

theorem rows_ok (h : EvenLayers cfg t layers seqIds sinkEnd recentStart kvLen) :
    mapEach layers (fun layer => onLayer layer (mappedRows seqIds)) t =
      .ok (layers.map (t.batchRows seqIds)) t := by
  refine mapEach_ok fun i hi => ?_
  have hrows : mappedRows seqIds (t.layers i) = .ok (t.batchRows seqIds i) (t.layers i) :=
    SlotLayer.mappedRows_ok fun s hs => h.mapped i hi s hs
  rw [onLayer_ok hrows, setLayers_self rfl]

theorem even (h : EvenLayers cfg t layers seqIds sinkEnd recentStart kvLen) :
    ¬ ∃ row ∈ layers.map (t.batchRows seqIds), ∃ p ∈ row, p.2 ≠ kvLen := by
  rintro ⟨row, hrow, p, hp, hne⟩
  obtain ⟨i, hi, rfl⟩ := List.mem_map.mp hrow
  obtain ⟨s, hs, rfl⟩ := List.mem_map.mp hp
  exact hne ((h.rows i hi).lens _ (List.mem_map_of_mem hs))

theorem length_dropped (h : EvenLayers cfg t layers seqIds sinkEnd recentStart kvLen)
    (hrecent : recentStart ≤ kvLen) {i : Nat} (hi : i ∈ layers) :
    (t.prefixRecentDropped seqIds sinkEnd recentStart i).length =
      seqIds.length * (recentStart - sinkEnd) := by
  rw [prefixRecentDropped_eq, List.length_flatMap]
  have hlens : ((seqIds.map (t.layers i).rowOf).map fun row => (between sinkEnd recentStart
      ((t.layers i).bufferReqToTokenSlots row)).length) =
      List.replicate seqIds.length (recentStart - sinkEnd) := by
    rw [List.eq_replicate_iff, List.length_map, List.length_map]
    refine ⟨rfl, fun n hn => ?_⟩
    obtain ⟨row, hrow, rfl⟩ := List.mem_map.mp hn
    exact length_between (hrecent.trans ((h.rows i hi).width hrow))
  rw [hlens, List.sum_replicate_nat]

/-- The dropped slots fit the stack. -/
theorem room (h : EvenLayers cfg t layers seqIds sinkEnd recentStart kvLen)
    (hsink : sinkEnd ≤ recentStart) (hrecent : recentStart ≤ kvLen) {i : Nat} (hi : i ∈ layers) :
    (t.layers i).numFreeSlots + (t.prefixRecentDropped seqIds sinkEnd recentStart i).length ≤
      (t.layers i).freeSlotsStack.length := by
  have hroom := push_room (h.rows i hi).ready
  rwa [(h.rows i hi).dropped hsink hrecent, ← prefixRecentDropped_eq] at hroom

/-- The loops of the method, from the reads on. -/
theorem writes_spec (h : EvenLayers cfg t layers seqIds sinkEnd recentStart kvLen)
    (hsink : sinkEnd ≤ recentStart) (hrecent : recentStart ≤ kvLen) :
    Spec (· = t)
      (do
        forEach layers fun i => onLayer i
          (writeStack (t.prefixRecentDropped seqIds sinkEnd recentStart i))
        forEach layers fun i => onLayer i (modify fun l =>
          { l with numFreeSlots := l.numFreeSlots + seqIds.length * (recentStart - sinkEnd) })
        forEach layers fun i => onLayer i (modify (writePrefixRecent sinkEnd recentStart kvLen
          ((t.batchRows seqIds i).map Prod.fst))))
      (fun _ t' => Compacted t t' (t.prefixRecentWork layers seqIds sinkEnd recentStart kvLen))
      fun _ _ => False := by
  have hstack : ∀ i ∈ layers, Spec (· = t.layers i)
      (writeStack (t.prefixRecentDropped seqIds sinkEnd recentStart i))
      (fun _ l => l = { t.layers i with
        freeSlotsStack := overwrite (t.layers i).numFreeSlots
          (t.prefixRecentDropped seqIds sinkEnd recentStart i) (t.layers i).freeSlotsStack })
      fun _ _ => False := by
    rintro i hi _ rfl
    unfold writeStack
    rw [get_bind, raiseIf_bind, if_neg (Nat.not_lt.mpr (h.room hsink hrecent hi))]
    rfl
  have hptr : ∀ t₁ : SlotTables, ∀ i ∈ layers, Spec (· = t₁.layers i)
      (modify fun l : SlotLayer =>
        { l with numFreeSlots := l.numFreeSlots + seqIds.length * (recentStart - sinkEnd) })
      (fun _ l => l = { t₁.layers i with
        numFreeSlots := (t₁.layers i).numFreeSlots + seqIds.length * (recentStart - sinkEnd) })
      fun (_ : CompactionError) _ => False := by
    rintro t₁ i _ _ rfl
    rfl
  have hrows : ∀ t₁ : SlotTables, ∀ i ∈ layers, Spec (· = t₁.layers i)
      (modify (writePrefixRecent sinkEnd recentStart kvLen ((t.batchRows seqIds i).map Prod.fst)))
      (fun _ l => l = writePrefixRecent sinkEnd recentStart kvLen
        ((t.batchRows seqIds i).map Prod.fst) (t₁.layers i))
      fun (_ : CompactionError) _ => False := by
    rintro t₁ i _ _ rfl
    rfl
  refine Spec.bind (forEach_layers_spec h.distinct hstack) fun _ => Spec.intro fun t₁ h₁ => ?_
  refine Spec.bind (forEach_layers_spec h.distinct (hptr t₁)) fun _ => Spec.intro fun t₂ h₂ => ?_
  refine (forEach_layers_spec h.distinct (hrows t₂)).post fun _ t₃ h₃ => ⟨?_, fun i hi => ?_⟩
  · intro w hw
    obtain ⟨i, hi, rfl⟩ := List.mem_map.mp hw
    have hpushed : t₂.layers i =
        (t.layers i).push (t.prefixRecentDropped seqIds sinkEnd recentStart i) := by
      rw [h₂.1 i hi, h₁.1 i hi, ← h.length_dropped hrecent hi]
      rfl
    have hfst : (t.batchRows seqIds i).map Prod.fst = seqIds.map (t.layers i).rowOf := by
      unfold batchRows
      rw [List.map_map]
      rfl
    rw [h₃.1 i hi, hpushed, hfst, prefixRecentDropped_eq]
    exact (h.rows i hi).compacted hsink hrecent
  · rw [prefixRecentWork_fst] at hi
    exact (h₃.2 i hi).trans ((h₂.2 i hi).trans (h₁.2 i hi))

/-- Nothing is dropped, and nothing changes. -/
theorem compacted_self (h : EvenLayers cfg t layers seqIds sinkEnd recentStart kvLen)
    (hsink : sinkEnd ≤ recentStart) (hrecent : recentStart ≤ kvLen)
    (hall : kvLen ≤ sinkEnd + (kvLen - recentStart)) :
    Compacted t t (t.prefixRecentWork layers seqIds sinkEnd recentStart kvLen) := by
  refine ⟨fun w hw => ?_, fun _ _ => rfl⟩
  obtain ⟨i, hi, rfl⟩ := List.mem_map.mp hw
  have hstart : recentStart = sinkEnd := by omega
  subst hstart
  refine RowsCompacted.of_all (h.rows i hi).ready (fun p hp => ?_) fun p hp => ?_
  · obtain ⟨row, hrow, rfl⟩ := List.mem_map.mp hp
    rw [(h.rows i hi).lens row hrow]
    exact prefixRecent_all hrecent
  · obtain ⟨row, hrow, rfl⟩ := List.mem_map.mp hp
    rw [(h.rows i hi).lens row hrow]
    exact (h.rows i hi).padding row hrow

end EvenLayers

theorem freePrefixRecent_spec {sink recent : Nat} (hlayers : layers ≠ []) (hseqs : seqIds ≠ [])
    (hsinkEnd : min sink kvLen = sinkEnd) (hrecentStart : max sinkEnd (kvLen - recent) = recentStart)
    (hkeeps : sinkEnd + (kvLen - recentStart) ≠ 0)
    (h : EvenLayers cfg t layers seqIds sinkEnd recentStart kvLen) :
    Spec (· = t) (freePrefixRecentSlotsBatchLayers cfg layers seqIds kvLen sink recent)
      (fun _ t' => Compacted t t' (t.prefixRecentWork layers seqIds sinkEnd recentStart kvLen))
      fun _ _ => False := by
  have hsink : sinkEnd ≤ recentStart := by omega
  have hrecent : recentStart ≤ kvLen := by omega
  have hkvLayers : forEach layers (fun layer =>
      raiseIf (layer ∉ cfg.kvLayers) (CompactionError.notKvLayer layer)) t = .ok () t := by
    refine forEach_ok fun i hi => ?_
    unfold raiseIf
    rw [if_neg (not_not.mpr (h.kvLayer i hi))]
    rfl
  have h₀ : EvenLayers cfg { t with uniformDecodeMetadata := false } layers seqIds sinkEnd
      recentStart kvLen := ⟨h.distinct, h.kvLayer, h.mapped, h.rows⟩
  have hsame : ∀ {t' : SlotTables}, Compacted { t with uniformDecodeMetadata := false } t'
      (t.prefixRecentWork layers seqIds sinkEnd recentStart kvLen) →
      Compacted t t' (t.prefixRecentWork layers seqIds sinkEnd recentStart kvLen) :=
    fun hdone => hdone.of_layers rfl
  by_cases hall : kvLen ≤ sinkEnd + (kvLen - recentStart)
  · rintro _ rfl
    unfold freePrefixRecentSlotsBatchLayers clearUniform
    rw [if_neg (not_or.mpr ⟨hlayers, hseqs⟩), bind_ok hkvLayers, modify_bind]
    dsimp only
    rw [hsinkEnd, hrecentStart, raiseIf_bind, if_neg hkeeps, if_pos hall]
    exact hsame (h₀.compacted_self hsink hrecent hall)
  · have hdropCount : 0 < seqIds.length * (recentStart - sinkEnd) :=
      Nat.mul_pos (List.length_pos_of_ne_nil hseqs) (by omega)
    have hroom : ¬ ∃ i ∈ layers, (t.layers i).freeSlotsStack.length <
        (t.layers i).numFreeSlots + seqIds.length * (recentStart - sinkEnd) := by
      rintro ⟨i, hi, hlt⟩
      rw [← h.length_dropped hrecent hi] at hlt
      exact hlt.not_ge (h.room hsink hrecent hi)
    have hwrites := h₀.writes_spec hsink hrecent
    rintro _ rfl
    unfold freePrefixRecentSlotsBatchLayers clearUniform
    rw [if_neg (not_or.mpr ⟨hlayers, hseqs⟩), bind_ok hkvLayers, modify_bind]
    dsimp only
    rw [hsinkEnd, hrecentStart, raiseIf_bind, if_neg hkeeps, if_neg hall, bind_ok h₀.rows_ok,
      raiseIf_bind, if_neg h₀.even, get_bind, if_pos hdropCount, raiseIf_bind,
      if_neg fun hcond => hroom hcond.2, ← List.map_prod_left_eq_zip, List.map_map,
      ← List.map_prod_left_eq_zip, forEach_map, forEach_map]
    refine (hwrites.post fun _ t' hdone => ?_) _ rfl
    exact hsame hdone

end Layers

end SlotTables

end SparseVllm
