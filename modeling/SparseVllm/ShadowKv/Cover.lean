import SparseVllm.ShadowKv.Layout

/-!
# ShadowKV and the positions of a prompt

The chunks of a head are the factorised ones, each once. So a layout covers every position once exactly
when its local region starts where they end (`once_iff`). The batched view bounds the local region by the
local window and one ragged chunk, which is too short as soon as rounding down to a multiple of eight
leaves a chunk over. The host builder starts the local region at its length.

## Results

* `batched_neverLoses_iff`, `host_neverLoses_iff`: when each builder covers the prompt.
* **`decode_neverLoses_iff`**: the same for every step over a finalized prompt.
-/

namespace SparseVllm.ShadowKv

open Lib

/-! ## Covering a prompt -/

/-- Position `p` is in chunk `c`. -/
def inChunk (chunkSize p c : Nat) : Bool := decide (c * chunkSize ≤ p ∧ p < c * chunkSize + chunkSize)

/-- Every position is in one chunk or in the local region, and what is not optional is paid for. -/
structure Layout.NeverLoses (l : Layout) (chunkSize promptLen : Nat) : Prop where
  once : ∀ p < promptLen, (l.outliers ++ l.candidates).countP (inChunk chunkSize p) +
    (if l.localStart ≤ p then 1 else 0) = 1
  outliers_in : ∀ c ∈ l.outliers, ∀ p, inChunk chunkSize p c → p ∈ l.payload
  local_in : ∀ p < promptLen, l.localStart ≤ p → p ∈ l.payload
  destinations_lt : ∀ d ∈ l.destinations, d < l.width

theorem inChunk_iff {chunkSize p c : Nat} (hpos : 0 < chunkSize) :
    inChunk chunkSize p c = true ↔ c = p / chunkSize := by
  unfold inChunk
  rw [decide_eq_true_eq, eq_comm, Nat.div_eq_iff hpos, Nat.mul_comm]
  rw [Nat.mul_comm chunkSize c]
  omega

/-- The first `n` chunks cover what is before their end, once. -/
theorem countP_inChunk {chunkSize n p : Nat} {chunks : List Nat} (hpos : 0 < chunkSize)
    (hperm : chunks.Perm (List.range n)) :
    chunks.countP (inChunk chunkSize p) = if p < n * chunkSize then 1 else 0 := by
  have hcount : (List.range n).countP (inChunk chunkSize p) = (List.range n).count (p / chunkSize) :=
    List.countP_congr fun c _ => by rw [inChunk_iff hpos, beq_iff_eq]
  rw [hperm.countP_eq, hcount, List.nodup_range.count]
  simp only [List.mem_range, Nat.div_lt_iff_lt_mul hpos]

/-- Positions are covered once exactly when the local region starts where the chunks end. -/
theorem once_iff {chunkSize n promptLen start : Nat} {chunks : List Nat} (hpos : 0 < chunkSize)
    (hperm : chunks.Perm (List.range n)) (hn : n * chunkSize ≤ promptLen) (hstart : start ≤ promptLen) :
    (∀ p < promptLen, chunks.countP (inChunk chunkSize p) + (if start ≤ p then 1 else 0) = 1) ↔
      start = n * chunkSize := by
  constructor
  · intro h
    rcases lt_trichotomy start (n * chunkSize) with hlt | heq | hgt
    · have htwice := h start (by omega)
      rw [countP_inChunk hpos hperm, if_pos hlt, if_pos le_rfl] at htwice
      cases htwice
    · exact heq
    · have hnever := h (n * chunkSize) (by omega)
      rw [countP_inChunk hpos hperm, if_neg (lt_irrefl _), if_neg (by omega)] at hnever
      cases hnever
  · rintro rfl p -
    rw [countP_inChunk hpos hperm]
    split
    · rw [if_neg (by omega)]
    · rw [if_pos (by omega)]

variable {cfg : ShadowKvConfig} {heads : Nat} {e : Entry cfg heads} {contextCapacity : Nat}

theorem alignedChunks_le (cfg : ShadowKvConfig) (promptLen : Nat) :
    alignedChunks cfg promptLen ≤ promptLen / cfg.chunkSize :=
  (Nat.sub_le _ _).trans (Nat.sub_le _ _)

theorem alignedChunks_mul_le (cfg : ShadowKvConfig) (promptLen : Nat) :
    alignedChunks cfg promptLen * cfg.chunkSize ≤ promptLen :=
  (Nat.mul_le_mul_right _ (alignedChunks_le cfg promptLen)).trans (Nat.div_mul_le_self _ _)

/-- The chunks of a head are the factorised ones, each once. -/
theorem Entry.chunks_perm (e : Entry cfg heads) (h : Fin heads) :
    (e.outlierChunks h ++ e.landmarkIndices h).Perm
      (List.range (alignedChunks cfg e.promptLen)) := by
  rw [e.landmarks_eq h]
  exact keep_append_perm (e.nodup_outliers h) (e.outliers_lt h)

theorem Entry.length_landmarks (e : Entry cfg heads) (h : Fin heads) :
    (e.landmarkIndices h).length = e.candidateChunks := by
  have hlen := (e.chunks_perm h).length_eq
  rw [List.length_append, List.length_range, e.length_outliers h] at hlen
  rw [e.candidates_eq]
  omega

/-! ## The batched view -/

/-- The local window and one ragged chunk hold the tail exactly when rounding leaves no chunk over. -/
theorem tail_le_iff (cfg : ShadowKvConfig) (promptLen : Nat) :
    promptLen - alignedChunks cfg promptLen * cfg.chunkSize ≤
        cfg.localChunks * cfg.chunkSize + cfg.chunkSize - 1 ↔
      (promptLen / cfg.chunkSize - cfg.localChunks) % 8 = 0 := by
  have hpos := cfg.chunk_pos
  have hdiv : promptLen < (promptLen / cfg.chunkSize + 1) * cfg.chunkSize := by
    have := Nat.lt_div_mul_add hpos (a := promptLen)
    rw [Nat.add_mul]
    omega
  have hle := Nat.div_mul_le_self promptLen cfg.chunkSize
  unfold alignedChunks
  generalize promptLen / cfg.chunkSize = q at hdiv hle ⊢
  generalize hn : q - cfg.localChunks - (q - cfg.localChunks) % 8 = n
  constructor
  · -- a chunk left over is a whole chunk too many
    intro htail
    by_contra hres
    have hmore : (n + cfg.localChunks + 1) * cfg.chunkSize ≤ q * cfg.chunkSize :=
      Nat.mul_le_mul_right _ (by omega)
    rw [Nat.add_mul, Nat.add_mul, Nat.one_mul] at hmore
    omega
  · intro hres
    have hfew : (q + 1) * cfg.chunkSize ≤ (n + cfg.localChunks + 1) * cfg.chunkSize :=
      Nat.mul_le_mul_right _ (by omega)
    rw [Nat.add_mul (n + cfg.localChunks), Nat.add_mul n, Nat.one_mul] at hfew
    omega

/-- The sizes of the workspace add up. -/
theorem rawWidth_le (cfg : ShadowKvConfig) (contextCapacity : Nat) :
    cfg.outlierChunks * cfg.chunkSize + cfg.sparseBudget +
        (ensureDecodeWorkspace cfg contextCapacity).maxLocalTokens +
        (ensureDecodeWorkspace cfg contextCapacity).maxRecentTokens ≤
      (ensureDecodeWorkspace cfg contextCapacity).width := by
  have hpage : 0 < cfg.decodePageSize := by
    have := cfg.page_mem
    by_contra h
    rw [Nat.eq_zero_of_not_pos h] at this
    simp at this
  unfold ensureDecodeWorkspace
  dsimp only
  generalize cfg.outlierChunks * cfg.chunkSize + _ + _ + _ = raw
  have := Nat.lt_div_mul_add hpage (a := raw + cfg.decodePageSize - 1)
  omega

theorem selectSets_mul (cfg : ShadowKvConfig) :
    cfg.sparseBudget / cfg.chunkSize * cfg.chunkSize = cfg.sparseBudget :=
  Nat.div_mul_cancel cfg.chunk_dvd

/-- Staging cuts nothing off. -/
theorem stage_eq (h : Fin heads) (hcap : e.promptLen ≤ contextCapacity) :
    stageDecodeWorkspace e contextCapacity h =
      ⟨e.outlierChunks h, e.landmarkIndices h, e.promptLen, e.localTokens⟩ := by
  have hlocal : e.localTokens ≤ e.promptLen := by
    rw [e.localTokens_eq]
    exact Nat.sub_le _ _
  have houtliers : (e.outlierChunks h).length ≤ cfg.outlierChunks := by
    rw [e.length_outliers h]
    exact Nat.min_le_left _ _
  have hcandidates : e.candidateChunks ≤ (ensureDecodeWorkspace cfg contextCapacity).maxCandidateChunks := by
    have hchunks : alignedChunks cfg e.promptLen ≤
        (contextCapacity + cfg.chunkSize - 1) / cfg.chunkSize :=
      (alignedChunks_le cfg e.promptLen).trans (Nat.div_le_div_right (by have := cfg.chunk_pos; omega))
    have := e.candidates_eq
    unfold ensureDecodeWorkspace
    dsimp only
    split <;> omega
  unfold stageDecodeWorkspace
  dsimp only
  rw [Nat.min_eq_right hcap, Nat.min_eq_left hlocal, Nat.min_eq_right hcandidates,
    List.take_of_length_le (e.length_landmarks h).le, Nat.min_eq_left (by exact houtliers),
    List.take_length]

namespace Batched

variable (reorder : Reorder) (step : DecodeStep e contextCapacity) (h : Fin heads)

theorem prompt_le_capacity (step : DecodeStep e contextCapacity) : e.promptLen ≤ contextCapacity :=
  step.prompt_le.trans step.context_le

theorem localTokens_eq (hcap : e.promptLen ≤ contextCapacity) (h : Fin heads) :
    localTokens e contextCapacity h =
      min e.localTokens (cfg.localChunks * cfg.chunkSize + cfg.chunkSize - 1) := by
  have hwidth := rawWidth_le cfg contextCapacity
  have hlocal := e.localTokens_eq
  have hmax : (ensureDecodeWorkspace cfg contextCapacity).maxLocalTokens = min contextCapacity _ := rfl
  unfold localTokens localSlots
  rw [stage_eq h hcap, selectSets_mul]
  show min e.localTokens (min (_ - cfg.outlierChunks * cfg.chunkSize - _) _) = _
  omega

/-- The bounds on the parts of a payload. -/
theorem parts_le :
    selectedStart e contextCapacity h ≤ cfg.outlierChunks * cfg.chunkSize ∧
      validCount reorder step h * cfg.chunkSize ≤ cfg.sparseBudget ∧
      localTokens e contextCapacity h ≤ (ensureDecodeWorkspace cfg contextCapacity).maxLocalTokens := by
  have hcap := prompt_le_capacity step
  refine ⟨Nat.mul_le_mul_right _ ?_, ?_, ?_⟩
  · unfold outlierCount
    rw [stage_eq h hcap, e.length_outliers h]
    exact Nat.min_le_left _ _
  · rw [← selectSets_mul cfg]
    refine Nat.mul_le_mul_right _ (List.countP_le_length.trans ?_)
    unfold selectedChunkIds
    rw [reorder.length_apply, List.length_map, step.length_picked h]
  · have hlocal := e.localTokens_eq
    rw [localTokens_eq hcap h]
    show _ ≤ min contextCapacity _
    omega

theorem map_fst_rangeWrites (offset n count start : Nat) :
    (rangeWrites offset n count start).map Prod.fst = List.range' offset n := by
  unfold rangeWrites
  rw [List.map_map, List.range'_eq_map_range]
  rfl

theorem map_fst_selectedWrites : (selectedWrites reorder step h).map Prod.fst =
    List.range' (selectedStart e contextCapacity h) cfg.sparseBudget := by
  unfold selectedWrites
  rw [List.map_map, List.range'_eq_map_range, selectSets_mul]
  rfl

theorem map_fst_outlierWrites : (outlierWrites e contextCapacity h).map Prod.fst =
    List.range (cfg.outlierChunks * cfg.chunkSize) := by
  unfold outlierWrites
  rw [List.map_map]
  exact List.map_id _

/-- All destinations are in the workspace. -/
theorem destinations_lt : ∀ d ∈ (layout reorder step h).destinations, d < (layout reorder step h).width := by
  intro d hd
  have hwidth := rawWidth_le cfg contextCapacity
  obtain ⟨hstart, hvalid, hlocal⟩ := parts_le reorder step h
  show d < (ensureDecodeWorkspace cfg contextCapacity).width
  replace hd : d ∈ (writes reorder step h).map Prod.fst := hd
  unfold writes localWrites recentWrites recentOffset localOffset at hd
  rw [List.map_append, List.map_append, List.map_append, map_fst_outlierWrites, map_fst_selectedWrites,
    map_fst_rangeWrites, map_fst_rangeWrites] at hd
  simp only [List.mem_append, List.mem_range, List.mem_range'_1] at hd
  omega

/-- The outlier chunks stay where they were written. -/
theorem headPositions_outlier {o : Nat} (ho : o < selectedStart e contextCapacity h) :
    headPositions reorder step h o = some (tokenOf cfg.chunkSize
      ((stageDecodeWorkspace e contextCapacity h).outlierChunks.getD (o / cfg.chunkSize) 0) o) := by
  have hstart := (parts_le reorder step h).1
  have hin : (o, some (tokenOf cfg.chunkSize
      ((stageDecodeWorkspace e contextCapacity h).outlierChunks.getD (o / cfg.chunkSize) 0) o)) ∈
      outlierWrites e contextCapacity h := by
    refine List.mem_map.mpr ⟨o, List.mem_range.mpr (lt_of_lt_of_le ho hstart), ?_⟩
    exact congrArg (Prod.mk o) (if_pos ho)
  have hnodup : ((outlierWrites e contextCapacity h).map Prod.fst).Nodup := by
    rw [map_fst_outlierWrites]
    exact List.nodup_range
  unfold headPositions writes
  rw [scatter_append, scatter_append, scatter_append, scatter_of_notMem, scatter_of_notMem,
    scatter_of_notMem]
  · exact scatter_of_mem (g := fun p _ => p) (fun _ => none) hnodup hin
  · rw [map_fst_selectedWrites, List.mem_range'_1]
    omega
  · unfold localWrites localOffset
    rw [map_fst_rangeWrites, List.mem_range'_1]
    omega
  · unfold recentWrites recentOffset localOffset
    rw [map_fst_rangeWrites, List.mem_range'_1]
    omega

/-- The local region stays where it was written. -/
theorem headPositions_local {o : Nat} (ho : o < localTokens e contextCapacity h) :
    headPositions reorder step h (localOffset reorder step h + o) =
      some (localStart e contextCapacity h + o) := by
  have hslots : localTokens e contextCapacity h ≤ localSlots cfg contextCapacity := Nat.min_le_right _ _
  have hmax := (parts_le reorder step h).2.2
  have hin : (localOffset reorder step h + o, some (localStart e contextCapacity h + o)) ∈
      localWrites reorder step h := by
    refine List.mem_map.mpr ⟨o, List.mem_range.mpr (by omega), ?_⟩
    exact congrArg (Prod.mk _) (if_pos ho)
  have hnodup : ((localWrites reorder step h).map Prod.fst).Nodup := by
    unfold localWrites
    rw [map_fst_rangeWrites]
    exact List.nodup_range'
  unfold headPositions writes
  rw [scatter_append, scatter_append, scatter_of_notMem]
  · exact scatter_of_mem (g := fun p _ => p) _ hnodup hin
  · unfold recentWrites recentOffset
    rw [map_fst_rangeWrites, List.mem_range'_1]
    omega

/-- The positions of the outlier chunks are in the payload. -/
theorem outliers_in : ∀ c ∈ (layout reorder step h).outliers, ∀ p, inChunk cfg.chunkSize p c →
    p ∈ (layout reorder step h).payload := by
  intro c hc p hp
  obtain ⟨hle, hlt⟩ := of_decide_eq_true hp
  obtain ⟨i, hi, hget⟩ := List.mem_iff_getElem.mp hc
  have hoff : p - c * cfg.chunkSize < cfg.chunkSize := by omega
  have hslot : i * cfg.chunkSize + (p - c * cfg.chunkSize) < selectedStart e contextCapacity h := by
    have hnext : (i + 1) * cfg.chunkSize ≤ selectedStart e contextCapacity h :=
      Nat.mul_le_mul_right _ hi
    rw [Nat.add_mul, Nat.one_mul] at hnext
    omega
  refine List.mem_filterMap.mpr ⟨_, List.mem_range.mpr ?_, (headPositions_outlier reorder step h hslot).trans ?_⟩
  · unfold headContextLen
    omega
  · have hdiv : (i * cfg.chunkSize + (p - c * cfg.chunkSize)) / cfg.chunkSize = i := by
      rw [Nat.add_comm, Nat.add_mul_div_right _ _ cfg.chunk_pos, Nat.div_eq_of_lt hoff, Nat.zero_add]
    have hmod : (i * cfg.chunkSize + (p - c * cfg.chunkSize)) % cfg.chunkSize = p - c * cfg.chunkSize := by
      rw [Nat.add_comm, Nat.add_mul_mod_self_right, Nat.mod_eq_of_lt hoff]
    have hgetD : (stageDecodeWorkspace e contextCapacity h).outlierChunks.getD i 0 = c :=
      (List.getD_eq_getElem _ 0 hi).trans hget
    rw [hdiv, hgetD]
    unfold tokenOf
    rw [hmod]
    congr 1
    omega

/-- The positions of the local region are in the payload. -/
theorem local_in : ∀ p < e.promptLen, (layout reorder step h).localStart ≤ p →
    p ∈ (layout reorder step h).payload := by
  intro p hp hstart
  have hstaged := stage_eq h (prompt_le_capacity step)
  have hlocal : localStart e contextCapacity h = e.promptLen - localTokens e contextCapacity h := by
    unfold localStart
    rw [hstaged]
  replace hstart : localStart e contextCapacity h ≤ p := hstart
  have ho : p - localStart e contextCapacity h < localTokens e contextCapacity h := by omega
  refine List.mem_filterMap.mpr ⟨_, List.mem_range.mpr ?_, (headPositions_local reorder step h ho).trans ?_⟩
  · unfold headContextLen localOffset
    omega
  · congr 1
    omega

/-- The batched view covers a prompt exactly when rounding leaves no chunk over. -/
theorem neverLoses_iff : (layout reorder step h).NeverLoses cfg.chunkSize e.promptLen ↔
    (e.promptLen / cfg.chunkSize - cfg.localChunks) % 8 = 0 := by
  have hcap := prompt_le_capacity step
  have hstaged := stage_eq h hcap
  have hlocal := e.localTokens_eq
  have hchunks := alignedChunks_mul_le cfg e.promptLen
  have htokens := localTokens_eq hcap h
  have hstart : (layout reorder step h).localStart = e.promptLen - localTokens e contextCapacity h := by
    show (stageDecodeWorkspace e contextCapacity h).promptLen - _ = _
    rw [hstaged]
  have hperm : ((layout reorder step h).outliers ++ (layout reorder step h).candidates).Perm
      (List.range (alignedChunks cfg e.promptLen)) := by
    show ((stageDecodeWorkspace e contextCapacity h).outlierChunks ++
      (stageDecodeWorkspace e contextCapacity h).candidateChunkIndices).Perm _
    rw [hstaged]
    exact e.chunks_perm h
  have hiff := once_iff cfg.chunk_pos hperm hchunks (hstart.le.trans (Nat.sub_le _ _))
  rw [← tail_le_iff]
  constructor
  · intro hnever
    have := hiff.mp hnever.once
    omega
  · intro htail
    refine ⟨hiff.mpr ?_, outliers_in reorder step h, local_in reorder step h,
      destinations_lt reorder step h⟩
    omega

end Batched

/-! ## The host builder -/

namespace Host

variable (step : HostStep e) (h : Fin heads)

theorem mem_uniqueSorted {xs : List Nat} {x : Nat} : x ∈ uniqueSorted xs ↔ x ∈ xs := by
  unfold uniqueSorted
  rw [List.mem_mergeSort, List.mem_dedup]

theorem mem_expand {chunkSize p c : Nat} {chunks : List Nat} (hc : c ∈ chunks)
    (hp : inChunk chunkSize p c) : p ∈ expand chunkSize chunks := by
  obtain ⟨hle, hlt⟩ := of_decide_eq_true hp
  refine List.mem_flatMap.mpr ⟨c, hc, List.mem_map.mpr ⟨p - c * chunkSize, ?_, ?_⟩⟩
  · rw [List.mem_range]
    omega
  · omega

/-- The host builder covers a prompt exactly when its chunks are half of it. -/
theorem neverLoses_iff : (layout step h).NeverLoses cfg.chunkSize e.promptLen ↔
    e.promptLen = 2 * (alignedChunks cfg e.promptLen * cfg.chunkSize) := by
  have hchunks := alignedChunks_mul_le cfg e.promptLen
  have hstart : (layout step h).localStart =
      e.promptLen - alignedChunks cfg e.promptLen * cfg.chunkSize := rfl
  have hiff := once_iff cfg.chunk_pos (e.chunks_perm h) hchunks (hstart.le.trans (Nat.sub_le _ _))
  constructor
  · intro hnever
    have := hiff.mp hnever.once
    omega
  · intro hhalf
    refine ⟨hiff.mpr (by omega), ?_, ?_, ?_⟩
    · intro c hc p hp
      have hunion : c ∈ uniqueSorted ((List.finRange heads).flatMap e.outlierChunks) :=
        mem_uniqueSorted.mpr (List.mem_flatMap.mpr ⟨h, List.mem_finRange h, hc⟩)
      refine mem_uniqueSorted.mpr (List.mem_append_left _ (List.mem_append_left _ ?_))
      exact List.mem_append_left _ (mem_expand hunion hp)
    · intro p hp hlocal
      replace hlocal : localStart e ≤ p := hlocal
      refine mem_uniqueSorted.mpr (List.mem_append_left _ (List.mem_append_right _ ?_))
      rw [List.mem_range'_1]
      omega
    · intro d hd
      refine lt_of_lt_of_le (List.mem_range.mp hd) ?_
      have hmem : (positions step).length ∈ (step.before ++ positions step :: step.after).map List.length :=
        List.mem_map_of_mem (List.mem_append_right _ List.mem_cons_self)
      exact List.le_max_of_le' 0 hmem le_rfl

end Host

/-! ## Every step -/

/-- A finalized prompt keeps all positions in every step exactly when, for the batched view, its chunks
before the local window are a multiple of eight, and for the host builder, it is twice as long as
its factorised chunks. -/
theorem decode_neverLoses_iff (cfg : ShadowKvConfig) {heads : Nat} (e : Entry cfg heads)
    (h : Fin heads) :
    (∀ contextCapacity (reorder : Reorder) (step : DecodeStep e contextCapacity),
      (Batched.layout reorder step h).NeverLoses cfg.chunkSize e.promptLen ↔
        (e.promptLen / cfg.chunkSize - cfg.localChunks) % 8 = 0) ∧
    ∀ step : HostStep e, (Host.layout step h).NeverLoses cfg.chunkSize e.promptLen ↔
      e.promptLen = 2 * (alignedChunks cfg e.promptLen * cfg.chunkSize) :=
  ⟨fun _ reorder step => Batched.neverLoses_iff reorder step h,
    fun step => Host.neverLoses_iff step h⟩

/-! ## A prompt of one chunk more than the local window -/

theorem defaultChunks_pos : 0 < 4 := by decide

/-- The default sizes. -/
def defaultConfig : ShadowKvConfig where
  sparseBudget := 2048
  chunkSize := 8
  localChunks := 4
  outlierChunks := 48
  recentTokens := 512
  decodePageSize := 16
  cutlassRequested := false
  budget_pos := by decide
  chunk_pos := by decide
  local_pos := defaultChunks_pos
  outlier_pos := by decide
  recent_pos := by decide
  page_mem := by decide
  chunk_dvd := by decide

def shortPrompt : Entry defaultConfig 1 := entryOf defaultConfig (Lib.TopK.favouring 0) (fun _ _ => 0) 40

/-- The first decode step over a short prompt, for both builders. -/
def batchedStep : DecodeStep shortPrompt 4096 where
  contextLen := 41
  picked := fun _ => List.range 256
  prompt_le := by decide
  context_le := by decide
  length_picked := fun _ => List.length_range

def hostStep : HostStep shortPrompt where
  contextLen := 41
  selected := []
  before := []
  after := []
  prompt_le := by decide
  length_selected := by decide
  selected_lt := by decide

def sameOrder : Reorder := ⟨id, fun _ => rfl⟩

/-- Both builders lose positions of a prompt of five chunks. -/
theorem short_prompt_lost :
    ¬ (Batched.layout sameOrder batchedStep 0).NeverLoses defaultConfig.chunkSize shortPrompt.promptLen ∧
      ¬ (Host.layout hostStep 0).NeverLoses defaultConfig.chunkSize shortPrompt.promptLen := by
  rw [Batched.neverLoses_iff, Host.neverLoses_iff]
  decide

end SparseVllm.ShadowKv
