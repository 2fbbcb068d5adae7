import Mathlib
import SparseVllm.Lib.Rows
import SparseVllm.Lib.TopK

/-!
# The ShadowKV decode layout (`engine/cache_manager/shadowkv.py`)

A finalized prompt is cut into chunks. A multiple of eight of them is factorised: per KV head a few are
outliers, the others are landmark candidates. The tail behind them is the local region. A decode step
puts the outlier chunks, the selected candidates, the local region and the recent tokens into a payload:
the batched view scatters them into a table of a fixed width, the host builder sorts them.

Modelled are `_normalize_shadowkv`, `_finalize_entry`, the decode workspace and the two builders of a
step, by positions; keys, values and factors are left out.

## Results

* `normalizeShadowKv_self`: every configuration of the layout is one that the source admits.
* `finalizeEntry_ok`: a populated prompt gives an entry of its length.
-/

namespace SparseVllm.ShadowKv

open Lib

/-! ## Configuration -/

/-- What the methods raise. -/
inductive ShadowKvError where
  | notPositive (name : String) (got : Nat)
  | decodePageSize (got : Nat)
  | budgetNotDivisible (budget chunkSize : Nat)
  | prefillIncomplete (filled prompt : Nat)
  deriving DecidableEq

/-- The normalized configuration of the layout. -/
structure ShadowKvConfig where
  sparseBudget : Nat
  chunkSize : Nat
  localChunks : Nat
  outlierChunks : Nat
  recentTokens : Nat
  decodePageSize : Nat
  cutlassRequested : Bool
  budget_pos : 0 < sparseBudget
  chunk_pos : 0 < chunkSize
  local_pos : 0 < localChunks
  outlier_pos : 0 < outlierChunks
  recent_pos : 0 < recentTokens
  page_mem : decodePageSize ∈ [1, 2, 4, 8, 16, 32, 64]
  chunk_dvd : chunkSize ∣ sparseBudget

/-- `resolve_shadowkv_outlier_chunks`. -/
def resolveShadowkvOutlierChunks (sparseBudget : Nat) : Option Nat → Except ShadowKvError Nat
  | none => .ok (max 1 (24 * sparseBudget / 1024))
  | some value =>
    if value = 0 then .error (.notPositive "shadowkv_outlier_chunks" value) else .ok value

theorem resolveShadowkvOutlierChunks_pos {sparseBudget n : Nat} {configured : Option Nat}
    (h : resolveShadowkvOutlierChunks sparseBudget configured = .ok n) : 0 < n := by
  unfold resolveShadowkvOutlierChunks at h
  cases configured with
  | none =>
    cases h
    omega
  | some value =>
    dsimp only at h
    split at h
    · cases h
    · cases h
      omega

theorem chunk_dvd_budget {sparseBudget chunkSize : Nat} (h : ¬ sparseBudget % chunkSize ≠ 0) :
    chunkSize ∣ sparseBudget := Nat.dvd_of_mod_eq_zero (not_not.mp h)

/-- `_normalize_shadowkv`, for the fields of the layout. -/
def normalizeShadowKv (sparseBudget chunkSize localChunks : Nat) (outlierChunks : Option Nat)
    (recentTokens decodePageSize : Nat) (cutlassRequested : Bool) :
    Except ShadowKvError ShadowKvConfig :=
  if hbudget : sparseBudget = 0 then .error (.notPositive "shadowkv_sparse_budget" sparseBudget)
  else if hchunk : chunkSize = 0 then .error (.notPositive "shadowkv_chunk_size" chunkSize)
  else if hlocal : localChunks = 0 then .error (.notPositive "shadowkv_local_chunks" localChunks)
  else if hrecent : recentTokens = 0 then .error (.notPositive "shadowkv_recent_tokens" recentTokens)
  else if decodePageSize = 0 then .error (.notPositive "shadowkv_decode_page_size" decodePageSize)
  else if hpage : decodePageSize ∉ [1, 2, 4, 8, 16, 32, 64] then .error (.decodePageSize decodePageSize)
  else if hdvd : sparseBudget % chunkSize ≠ 0 then .error (.budgetNotDivisible sparseBudget chunkSize)
  else match hresolve : resolveShadowkvOutlierChunks sparseBudget outlierChunks with
    | .error e => .error e
    | .ok outlierChunks => .ok {
        sparseBudget, chunkSize, localChunks, outlierChunks, recentTokens, decodePageSize
        cutlassRequested
        budget_pos := Nat.pos_of_ne_zero hbudget
        chunk_pos := Nat.pos_of_ne_zero hchunk
        local_pos := Nat.pos_of_ne_zero hlocal
        outlier_pos := resolveShadowkvOutlierChunks_pos hresolve
        recent_pos := Nat.pos_of_ne_zero hrecent
        page_mem := not_not.mp hpage
        chunk_dvd := chunk_dvd_budget hdvd }

/-- Every configuration of the layout is admitted: it is what its own fields normalize to. -/
theorem normalizeShadowKv_self (cfg : ShadowKvConfig) :
    normalizeShadowKv cfg.sparseBudget cfg.chunkSize cfg.localChunks (some cfg.outlierChunks)
      cfg.recentTokens cfg.decodePageSize cfg.cutlassRequested = .ok cfg := by
  have hpage : cfg.decodePageSize ≠ 0 := by
    intro h
    have := cfg.page_mem
    rw [h] at this
    simp at this
  have hresolve : resolveShadowkvOutlierChunks cfg.sparseBudget (some cfg.outlierChunks) =
      .ok cfg.outlierChunks := if_neg cfg.outlier_pos.ne'
  unfold normalizeShadowKv
  rw [dif_neg cfg.budget_pos.ne', dif_neg cfg.chunk_pos.ne', dif_neg cfg.local_pos.ne',
    dif_neg cfg.recent_pos.ne', if_neg hpage, dif_neg (not_not.mpr cfg.page_mem),
    dif_neg (not_not.mpr (Nat.mod_eq_zero_of_dvd cfg.chunk_dvd))]
  split
  · rename_i e h
    cases hresolve.symm.trans h
  · rename_i n h
    cases hresolve.symm.trans h
    rfl

/-! ## The finalized prompt -/

variable (cfg : ShadowKvConfig) {heads : Nat}

/-- The factorised chunks of a prompt. -/
def alignedChunks (promptLen : Nat) : Nat :=
  let chunks := promptLen / cfg.chunkSize - cfg.localChunks
  chunks - chunks % 8

/-- What `_finalize_entry` stores about a prompt. -/
structure Entry (heads : Nat) where
  promptLen : Nat
  outlierChunks : Fin heads → List Nat
  landmarkIndices : Fin heads → List Nat
  candidateChunks : Nat
  localTokens : Nat
  nodup_outliers : ∀ h, (outlierChunks h).Nodup
  outliers_lt : ∀ h, ∀ c ∈ outlierChunks h, c < alignedChunks cfg promptLen
  length_outliers : ∀ h, (outlierChunks h).length = min cfg.outlierChunks (alignedChunks cfg promptLen)
  landmarks_eq : ∀ h, landmarkIndices h =
    (List.range (alignedChunks cfg promptLen)).filter (· ∉ outlierChunks h)
  candidates_eq : candidateChunks = alignedChunks cfg promptLen - min cfg.outlierChunks (alignedChunks cfg promptLen)
  localTokens_eq : localTokens = promptLen - alignedChunks cfg promptLen * cfg.chunkSize

variable {R : Type} [LinearOrder R]

/-- `cosine.amin(dim=-1).topk(outlier_count, largest=False).indices` of a head. -/
def outlierChunks (topk : Lib.TopK Rᵒᵈ) (minima : Nat → R) (chunks : Nat) : List Nat :=
  (topk.pick ((List.range chunks).map fun c => OrderDual.toDual (minima c))
    (min cfg.outlierChunks chunks)).map Fin.val

theorem outlierChunks_spec (topk : Lib.TopK Rᵒᵈ) (minima : Nat → R) (chunks : Nat) :
    (outlierChunks cfg topk minima chunks).length = min cfg.outlierChunks chunks ∧
      (outlierChunks cfg topk minima chunks).Nodup ∧
      ∀ c ∈ outlierChunks cfg topk minima chunks, c < chunks := by
  have hlen : ((List.range chunks).map fun c => OrderDual.toDual (minima c)).length = chunks := by
    rw [List.length_map, List.length_range]
  have hspec := topk.spec _ (min cfg.outlierChunks chunks) ((Nat.min_le_right _ _).trans hlen.ge)
  refine ⟨(List.length_map _).trans hspec.length, hspec.nodup.map Fin.val_injective, ?_⟩
  rintro c hc
  obtain ⟨i, -, rfl⟩ := List.mem_map.mp hc
  exact lt_of_lt_of_eq i.isLt hlen

/-- The entry of a prompt, from the least cosine of every chunk of every head. -/
def entryOf (topk : Lib.TopK Rᵒᵈ) (minima : Fin heads → Nat → R) (promptLen : Nat) : Entry cfg heads :=
  let chunks := alignedChunks cfg promptLen
  let outliers := fun h => outlierChunks cfg topk (minima h) chunks
  { promptLen
    outlierChunks := outliers
    landmarkIndices := fun h => (List.range chunks).filter (· ∉ outliers h)
    candidateChunks := chunks - min cfg.outlierChunks chunks
    localTokens := promptLen - chunks * cfg.chunkSize
    nodup_outliers := fun h => (outlierChunks_spec cfg topk (minima h) chunks).2.1
    outliers_lt := fun h => (outlierChunks_spec cfg topk (minima h) chunks).2.2
    length_outliers := fun h => (outlierChunks_spec cfg topk (minima h) chunks).1
    landmarks_eq := fun _ => rfl
    candidates_eq := rfl
    localTokens_eq := rfl }

/-- `_finalize_entry`, with the entry that was held before. -/
def finalizeEntry (topk : Lib.TopK Rᵒᵈ) (minima : Fin heads → Nat → R) (held : Option (Entry cfg heads))
    (filled promptLen : Nat) : Except ShadowKvError (Entry cfg heads) :=
  match held with
  | some e => if e.promptLen = promptLen then .ok e else populated
  | none => populated
where
  populated : Except ShadowKvError (Entry cfg heads) :=
    if filled < promptLen then .error (.prefillIncomplete filled promptLen)
    else .ok (entryOf cfg topk minima promptLen)

/-- A populated prompt has an entry of its length. -/
theorem finalizeEntry_ok (topk : Lib.TopK Rᵒᵈ) (minima : Fin heads → Nat → R)
    (held : Option (Entry cfg heads)) {filled promptLen : Nat} (h : promptLen ≤ filled) :
    ∃ e, finalizeEntry cfg topk minima held filled promptLen = .ok e ∧ e.promptLen = promptLen := by
  have hpopulated : finalizeEntry.populated cfg topk minima filled promptLen =
      .ok (entryOf cfg topk minima promptLen) := if_neg (not_lt.mpr h)
  unfold finalizeEntry
  cases held with
  | none => exact ⟨_, hpopulated, rfl⟩
  | some e =>
    by_cases heq : e.promptLen = promptLen
    · exact ⟨e, if_pos heq, heq⟩
    · exact ⟨_, (if_neg heq).trans hpopulated, rfl⟩

/-! ## The decode workspace -/

/-- The sizes of the decode workspace. -/
structure DecodeWorkspace where
  selectSets : Nat
  maxCandidateChunks : Nat
  maxOutlierChunks : Nat
  maxLocalTokens : Nat
  maxRecentTokens : Nat
  width : Nat

/-- `_ensure_decode_workspace`. -/
def ensureDecodeWorkspace (contextCapacity : Nat) : DecodeWorkspace :=
  let selectSets := max 1 (cfg.sparseBudget / cfg.chunkSize)
  let rawCandidateChunks :=
    max selectSets ((contextCapacity + cfg.chunkSize - 1) / cfg.chunkSize)
  let maxLocalTokens :=
    min contextCapacity (cfg.localChunks * cfg.chunkSize + cfg.chunkSize - 1)
  let maxRecentTokens := min contextCapacity cfg.recentTokens
  let rawWidth := cfg.outlierChunks * cfg.chunkSize + cfg.sparseBudget + maxLocalTokens + maxRecentTokens
  { selectSets
    maxCandidateChunks :=
      if cfg.cutlassRequested then (rawCandidateChunks + 255) / 256 * 256 else rawCandidateChunks
    maxOutlierChunks := cfg.outlierChunks
    maxLocalTokens
    maxRecentTokens
    width := (rawWidth + cfg.decodePageSize - 1) / cfg.decodePageSize * cfg.decodePageSize }

/-- What is staged for a KV head of a row. -/
structure Staged where
  outlierChunks : List Nat
  candidateChunkIndices : List Nat
  promptLen : Nat
  localTokens : Nat

variable {cfg}

/-- `_stage_decode_workspace`, for a KV head of a row. -/
def stageDecodeWorkspace (e : Entry cfg heads) (contextCapacity : Nat) (h : Fin heads) : Staged :=
  let workspace := ensureDecodeWorkspace cfg contextCapacity
  let promptLen := min contextCapacity e.promptLen
  { outlierChunks := (e.outlierChunks h).take (min (e.outlierChunks h).length workspace.maxOutlierChunks)
    candidateChunkIndices :=
      (e.landmarkIndices h).take (min workspace.maxCandidateChunks e.candidateChunks)
    promptLen
    localTokens := min e.localTokens promptLen }

/-! ## A decode step -/

/-- What a head attends of the prompt, and where its payload goes. -/
structure Layout where
  outliers : List Nat
  candidates : List Nat
  localStart : Nat
  payload : List Nat
  destinations : List Nat
  width : Nat

/-- A decode step of a row: its context, and the candidates that the scores pick for each head. -/
structure DecodeStep (e : Entry cfg heads) (contextCapacity : Nat) where
  contextLen : Nat
  picked : Fin heads → List Nat
  prompt_le : e.promptLen ≤ contextLen
  context_le : contextLen ≤ contextCapacity
  length_picked : ∀ h, (picked h).length = cfg.sparseBudget / cfg.chunkSize

/-- A decode step of the host builder: one selection for all heads, and the other rows of the batch. -/
structure HostStep (e : Entry cfg heads) where
  contextLen : Nat
  selected : List Nat
  before : List (List Nat)
  after : List (List Nat)
  prompt_le : e.promptLen ≤ contextLen
  length_selected : selected.length = min (cfg.sparseBudget / cfg.chunkSize) e.candidateChunks
  selected_lt : ∀ i ∈ selected, i < e.candidateChunks

/-- The copies with offsets may reorder the selected chunks. -/
structure Reorder where
  apply : List (Option Nat) → List (Option Nat)
  length_apply : ∀ ids, (apply ids).length = ids.length

/-- Entry `o` of `(ids[..., None] * chunk_size + offsets).reshape(-1)`. -/
def tokenOf (chunkSize c o : Nat) : Nat := c * chunkSize + o % chunkSize

variable {e : Entry cfg heads} {contextCapacity : Nat}

namespace Batched

variable (reorder : Reorder) (step : DecodeStep e contextCapacity) (h : Fin heads)

/-- `selected_chunk_ids`, with `none` for -1. -/
def selectedChunkIds : List (Option Nat) :=
  reorder.apply ((step.picked h).map
    ((stageDecodeWorkspace e contextCapacity h).candidateChunkIndices[·]?))

/-- `selected_valid.sum()`. -/
def validCount : Nat := (selectedChunkIds reorder step h).countP Option.isSome

def outlierCount (e : Entry cfg heads) (contextCapacity : Nat) (h : Fin heads) : Nat :=
  (stageDecodeWorkspace e contextCapacity h).outlierChunks.length

/-- `local_slots`. -/
def localSlots (cfg : ShadowKvConfig) (contextCapacity : Nat) : Nat :=
  let workspace := ensureDecodeWorkspace cfg contextCapacity
  let budgetSlots := cfg.sparseBudget / cfg.chunkSize * cfg.chunkSize
  min (workspace.width - workspace.maxOutlierChunks * cfg.chunkSize - budgetSlots)
    (cfg.localChunks * cfg.chunkSize + cfg.chunkSize - 1)

/-- `local_tokens`, bounded by the slots. -/
def localTokens (e : Entry cfg heads) (contextCapacity : Nat) (h : Fin heads) : Nat :=
  min (stageDecodeWorkspace e contextCapacity h).localTokens (localSlots cfg contextCapacity)

def localStart (e : Entry cfg heads) (contextCapacity : Nat) (h : Fin heads) : Nat :=
  (stageDecodeWorkspace e contextCapacity h).promptLen - localTokens e contextCapacity h

def selectedStart (e : Entry cfg heads) (contextCapacity : Nat) (h : Fin heads) : Nat :=
  outlierCount e contextCapacity h * cfg.chunkSize

def localOffset : Nat :=
  selectedStart e contextCapacity h + validCount reorder step h * cfg.chunkSize

def recentSlots (cfg : ShadowKvConfig) (contextCapacity : Nat) : Nat :=
  min cfg.recentTokens (ensureDecodeWorkspace cfg contextCapacity).width

def recentCount : Nat :=
  min (step.contextLen - (stageDecodeWorkspace e contextCapacity h).promptLen)
    (recentSlots cfg contextCapacity)

def recentStart : Nat :=
  max (stageDecodeWorkspace e contextCapacity h).promptLen
    (step.contextLen - recentCount step h)

def recentOffset : Nat := localOffset reorder step h + localTokens e contextCapacity h

/-- A range of `n` slots at `offset`, of which those below `count` hold consecutive positions. -/
def rangeWrites (offset n count start : Nat) : List (Nat × Option Nat) :=
  (List.range n).map fun o => (offset + o, if o < count then some (start + o) else none)

/-- The scatter of the outlier chunks. -/
def outlierWrites (e : Entry cfg heads) (contextCapacity : Nat) (h : Fin heads) :
    List (Nat × Option Nat) :=
  let staged := stageDecodeWorkspace e contextCapacity h
  (List.range ((ensureDecodeWorkspace cfg contextCapacity).maxOutlierChunks * cfg.chunkSize)).map
    fun o => (o, if o < staged.outlierChunks.length * cfg.chunkSize then
      some (tokenOf cfg.chunkSize (staged.outlierChunks.getD (o / cfg.chunkSize) 0) o) else none)

/-- The scatter of the selected chunks. -/
def selectedWrites : List (Nat × Option Nat) :=
  (List.range (cfg.sparseBudget / cfg.chunkSize * cfg.chunkSize)).map fun o =>
    (selectedStart e contextCapacity h + o,
      ((selectedChunkIds reorder step h).getD (o / cfg.chunkSize) none).map
        (tokenOf cfg.chunkSize · o))

/-- The scatter of the local region. -/
def localWrites : List (Nat × Option Nat) :=
  rangeWrites (localOffset reorder step h)
    (min (localSlots cfg contextCapacity) (ensureDecodeWorkspace cfg contextCapacity).maxLocalTokens)
    (localTokens e contextCapacity h) (localStart e contextCapacity h)

/-- The scatter of the recent tokens. -/
def recentWrites : List (Nat × Option Nat) :=
  rangeWrites (recentOffset reorder step h)
    (min (recentSlots cfg contextCapacity) (ensureDecodeWorkspace cfg contextCapacity).maxRecentTokens)
    (recentCount step h) (recentStart step h)

def writes : List (Nat × Option Nat) :=
  outlierWrites e contextCapacity h ++ selectedWrites reorder step h ++ localWrites reorder step h ++
    recentWrites reorder step h

/-- `head_positions`, with `none` for -1. -/
def headPositions : Nat → Option Nat := scatter (fun p _ => p) (writes reorder step h) fun _ => none

/-- `head_context_lens`. -/
def headContextLen : Nat :=
  selectedStart e contextCapacity h + validCount reorder step h * cfg.chunkSize +
    localTokens e contextCapacity h + recentCount step h

/-- `_build_batched_cuda_decode_view`, for a KV head of a row. -/
def layout : Layout where
  outliers := (stageDecodeWorkspace e contextCapacity h).outlierChunks
  candidates := (stageDecodeWorkspace e contextCapacity h).candidateChunkIndices
  localStart := localStart e contextCapacity h
  payload := (List.range (headContextLen reorder step h)).filterMap (headPositions reorder step h)
  destinations := (writes reorder step h).map Prod.fst
  width := (ensureDecodeWorkspace cfg contextCapacity).width

end Batched

namespace Host

/-- `expand`. -/
def expand (chunkSize : Nat) (chunks : List Nat) : List Nat :=
  chunks.flatMap fun c => (List.range chunkSize).map (c * chunkSize + ·)

/-- `unique(sorted=True)`. -/
def uniqueSorted (xs : List Nat) : List Nat := xs.dedup.mergeSort

/-- `local_start`. -/
def localStart (e : Entry cfg heads) : Nat :=
  e.promptLen - alignedChunks cfg e.promptLen * cfg.chunkSize

variable (step : HostStep e)

/-- The positions of a row. -/
def positions : List Nat :=
  let ofHeads := fun (chunks : Fin heads → List Nat) => (List.finRange heads).flatMap chunks
  let selectedChunks := uniqueSorted (ofHeads fun h => gather 0 step.selected (e.landmarkIndices h))
  let outliers := uniqueSorted (ofHeads e.outlierChunks)
  let recentStart := max e.promptLen (step.contextLen - cfg.recentTokens)
  uniqueSorted (expand cfg.chunkSize outliers ++ expand cfg.chunkSize selectedChunks ++
    List.range' (localStart e) (e.promptLen - localStart e) ++
    List.range' recentStart (step.contextLen - recentStart))

/-- `max_len`. -/
def maxLen (positionRows : List (List Nat)) : Nat := (positionRows.map List.length).foldr max 0

/-- `_decode_positions_and_payload`, for a KV head of a row. -/
def layout (h : Fin heads) : Layout where
  outliers := e.outlierChunks h
  candidates := e.landmarkIndices h
  localStart := localStart e
  payload := positions step
  destinations := List.range (positions step).length
  width := maxLen (step.before ++ positions step :: step.after)

end Host

end SparseVllm.ShadowKv
