import SparseVllm.Kernels.TopK

/-!
# OmniKV decode selection (`engine/sparse_methods/dynamic.py`, `kernels/triton/omnikv_fused.py`)

In a long decode batch an observation layer picks, for each row, the tokens the next layers attend
to: the sinks, the candidates with the best scores and the recent tokens. `observed_valid_iff`
says for which rows this is a valid token set whatever order `torch.topk` uses.

The score of a candidate is the largest of its softmax values over the heads, in the dtype of the model;
scores are those of a linear order, and the fills of what is masked (`finfo.min`, `-1e10`) are `⊥`.
`-1e10` is no float16 value, and its fill raises. Left out: the logits, the CUDA-graph buffers (the
kernel writes the same values to them) and the prefill branch, which `on_layer_end` does not reach.
-/

namespace SparseVllm.OmniKv

/-- The budgets of a selection. -/
structure Budget where
  numSink : Nat
  numRecent : Nat
  decodeKeepTokens : Nat
  deriving DecidableEq, Repr

/-- A row of a decode batch. -/
structure Row (S : Type) where
  /-- `context_lens`. -/
  contextLen : Nat
  /-- `num_tokens` of its request; a recompute replay has fewer tokens in context. -/
  numTokens : Nat
  score : Nat → S
  /-- The row of `buffer_req_to_token_slots`. -/
  slots : Nat → Int

/-- The dtype of `token_scores`: that of the model if it is a half one, and else that of the softmax. -/
inductive ScoreDtype where
  | float16
  | bfloat16
  | float32
  deriving DecidableEq, Repr

/-- A decode batch, with the widths of its score matrix and of the slot table. -/
structure Batch (S : Type) where
  rows : List (Row S)
  dtype : ScoreDtype
  maxLen : Nat
  bufMaxLen : Nat
  context_le : ∀ row ∈ rows, row.contextLen ≤ maxLen
  slots_le : ∀ row ∈ rows, row.contextLen ≤ bufMaxLen

/-- What the normalization and `masked_fill_(mask, -1e10)` raise. -/
inductive Error where
  | candidateStart (start length : Nat)
  | fillOverflow
  deriving DecidableEq, Repr

/-- The outputs of a row. -/
structure Selection where
  keepIndices : List Nat
  activeSlots : List Int
  newContextLen : Nat
  deriving DecidableEq, Repr

section Source

variable (b : Budget)

/-- `decode_sparse_long_text_threshold`. -/
def Budget.longTextThreshold : Nat := b.numSink + b.decodeKeepTokens + b.numRecent

/-- `_is_long_text`. -/
def Row.isLongText {S : Type} (row : Row S) : Prop := b.longTextThreshold < row.numTokens

/-- `(context_lens - num_recent).clamp_min(num_sink)`. -/
def histLen (contextLen : Nat) : Nat := max (contextLen - b.numRecent) b.numSink

variable {S : Type}

/-- `_normalize_decode_scores`. -/
def normalizeDecodeScores (maxLen : Nat) (row : Row S) : List (WithBot S) :=
  let candidateLen := min (histLen b row.contextLen - b.numSink) (maxLen - b.numSink)
  (List.range maxLen).map fun i =>
    if b.numSink ≤ i ∧ i - b.numSink < candidateLen then (row.score i : WithBot S) else ⊥

/-- `token_scores[:, num_sink:]`, masked behind the history. -/
def searchScores (maxLen : Nat) (row : Row S) : List (WithBot S) :=
  ((normalizeDecodeScores b maxLen row).drop b.numSink).mapIdx fun j score =>
    if histLen b row.contextLen - b.numSink ≤ j then ⊥ else score

/-- `keep_idx` of `_omnikv_build_keep_and_slots_kernel`. -/
def keepIndex (numSink topkLen recentLen histLen : Nat) (topkIndices : List Nat) (offs : Nat) : Nat :=
  if offs < numSink then offs
  else if offs < numSink + topkLen then topkIndices.getD (offs - numSink) 0
  else if offs < numSink + topkLen + recentLen then histLen + (offs - numSink - topkLen)
  else 0

/-- `build_omnikv_keep_and_slots`, for one row. -/
def buildKeepAndSlots (topkIndices : List Nat) (topkLen histLen : Nat) (recentChunkLen : Int)
    (slots : Nat → Int) (bufMaxLen numSink maxS : Nat) : Selection :=
  let recentLen := recentChunkLen.toNat
  let keepIndices := (List.range maxS).map (keepIndex numSink topkLen recentLen histLen topkIndices)
  { keepIndices
    activeSlots := keepIndices.map fun i => if i < bufMaxLen then slots i else 0
    newContextLen := numSink + topkLen + recentLen }

/-- `k_max`. -/
def kMax (maxLen : Nat) : Nat := min b.decodeKeepTokens (maxLen - b.numSink)

variable [LinearOrder S]

/-- A row of `_update_dynamic_indices`. -/
def selectRow (topk : TopK S) (maxLen bufMaxLen : Nat) (row : Row S) : Selection :=
  let hist := histLen b row.contextLen
  let topkIndices := (topk.indices (kMax b maxLen) (searchScores b maxLen row)).map (· + b.numSink)
  buildKeepAndSlots topkIndices (min (hist - b.numSink) (kMax b maxLen)) hist
    (row.contextLen - hist) row.slots bufMaxLen b.numSink
    (b.numSink + kMax b maxLen + b.numRecent)

/-- The selection of an observation layer: `_normalize_decode_scores`, `_update_dynamic_indices`. -/
def updateDynamicIndices (topk : TopK S) (batch : Batch S) : Except Error (List Selection) :=
  if batch.maxLen < b.numSink then .error (.candidateStart b.numSink batch.maxLen)
  else if batch.dtype = .float16 then .error .fillOverflow
  else .ok (batch.rows.map (selectRow b topk batch.maxLen batch.bufMaxLen))

end Source

/-! ## Valid selections -/

/-- The tokens that the next layers attend to. -/
def Selection.kept (out : Selection) : List Nat := out.keepIndices.take out.newContextLen

section Valid

variable {S : Type} [LinearOrder S]

/-- A valid token set of a row. -/
structure Valid (b : Budget) (row : Row S) (out : Selection) : Prop where
  length_kept : out.kept.length = out.newContextLen
  nodup : out.kept.Nodup
  lt : ∀ i ∈ out.kept, i < row.contextLen
  sinks : ∀ i < min b.numSink row.contextLen, i ∈ out.kept
  recents : ∀ i < row.contextLen, row.contextLen - min b.numRecent row.contextLen ≤ i → i ∈ out.kept
  count : out.newContextLen = min row.contextLen (b.numSink + b.decodeKeepTokens + b.numRecent)
  greatest : ∀ i ∈ out.kept, b.numSink ≤ i → i < row.contextLen - b.numRecent →
    ∀ j, b.numSink ≤ j → j < row.contextLen - b.numRecent → j ∉ out.kept → row.score j ≤ row.score i
  slots : out.activeSlots.take out.newContextLen = out.kept.map row.slots

end Valid

variable {S : Type} {b : Budget} {maxLen bufMaxLen : Nat} {row : Row S}

/-- The row reaches past the sinks, and has no candidates or as many as are taken. -/
def Fits (b : Budget) (maxLen : Nat) (row : Row S) : Prop :=
  b.numSink ≤ row.contextLen ∧ (row.contextLen ≤ b.numSink + b.numRecent ∨
    kMax b maxLen ≤ row.contextLen - b.numRecent - b.numSink)

/-- The rows of long requests fit when their tokens are all in context. -/
theorem fits_of_complete (hlong : row.isLongText b) (hcomplete : row.contextLen = row.numTokens) :
    Fits b maxLen row := by
  unfold Row.isLongText Budget.longTextThreshold at hlong
  unfold Fits kMax
  omega

theorem take_keepIndices {numSink topkLen recentLen hist maxS : Nat} {topkIndices : List Nat}
    (htopk : topkLen ≤ topkIndices.length) (hmax : numSink + topkLen + recentLen ≤ maxS) :
    ((List.range maxS).map (keepIndex numSink topkLen recentLen hist topkIndices)).take
        (numSink + topkLen + recentLen) =
      List.range numSink ++ topkIndices.take topkLen ++ (List.range recentLen).map (hist + ·) := by
  rw [← List.map_take, List.take_range, min_eq_left hmax, List.range_add, List.range_add,
    List.map_append, List.map_append, List.map_map, List.map_map]
  congr 1
  · congr 1
    · refine (List.map_congr_left fun i hi => ?_).trans (List.map_id _)
      exact if_pos (List.mem_range.mp hi)
    · refine List.ext_getElem (by simp [htopk]) fun j hj hj' => ?_
      have hlt : j < topkLen := by simpa using hj
      have hget := List.getElem?_eq_getElem (hlt.trans_le htopk)
      simp [keepIndex, hlt, hget]
  · refine List.map_congr_left fun i hi => ?_
    have hlt := List.mem_range.mp hi
    have hsub : numSink + topkLen + i - numSink - topkLen = i := by omega
    show keepIndex _ _ _ _ _ (numSink + topkLen + i) = _
    unfold keepIndex
    rw [if_neg (by omega), if_neg (by omega), if_pos (by omega), hsub]

theorem length_searchScores : (searchScores b maxLen row).length = maxLen - b.numSink := by
  unfold searchScores normalizeDecodeScores
  rw [List.length_mapIdx, List.length_drop, List.length_map, List.length_range]

theorem histLen_sub_le (hcontext : row.contextLen ≤ maxLen) :
    histLen b row.contextLen - b.numSink ≤ maxLen - b.numSink := by
  unfold histLen
  omega

/-- The candidates are what is not masked. -/
theorem getD_searchScores (hcontext : row.contextLen ≤ maxLen) (j : Nat) :
    (searchScores b maxLen row).getD j ⊥ =
      if j < histLen b row.contextLen - b.numSink then
        (row.score (b.numSink + j) : WithBot S) else ⊥ := by
  have hle := histLen_sub_le (b := b) hcontext
  by_cases hj : j < maxLen - b.numSink
  · rw [List.getD_eq_getElem _ _ (hj.trans_eq length_searchScores.symm)]
    simp only [searchScores, normalizeDecodeScores, List.getElem_mapIdx, List.getElem_drop,
      List.getElem_map, List.getElem_range, Nat.add_sub_cancel_left, Nat.le_add_right, true_and,
      min_eq_left hle]
    by_cases hhist : j < histLen b row.contextLen - b.numSink
    · rw [if_neg (not_le.mpr hhist), if_pos hhist]
    · rw [if_pos (not_lt.mp hhist), if_neg hhist]
  · rw [List.getD_eq_default _ _ (length_searchScores.trans_le (not_lt.mp hj)),
      if_neg fun hhist => hj (hhist.trans_le hle)]

theorem searchScores_ne_bot (hcontext : row.contextLen ≤ maxLen) (j : Nat) :
    (searchScores b maxLen row).getD j ⊥ ≠ ⊥ ↔ j < histLen b row.contextLen - b.numSink := by
  rw [getD_searchScores hcontext]
  by_cases hj : j < histLen b row.contextLen - b.numSink
  · simp [hj]
  · simp [hj]

theorem kMax_le : kMax b maxLen ≤ (searchScores b maxLen row).length := by
  rw [length_searchScores]
  exact min_le_right _ _

section Rows

variable [LinearOrder S] {topk : TopK S}

/-- The columns that a row takes from `torch.topk`. -/
def topkColumns (b : Budget) (topk : TopK S) (maxLen : Nat) (row : Row S) : List Nat :=
  (topk.indices (kMax b maxLen) (searchScores b maxLen row)).take
    (min (histLen b row.contextLen - b.numSink) (kMax b maxLen))

theorem length_topkColumns :
    (topkColumns b topk maxLen row).length =
      min (histLen b row.contextLen - b.numSink) (kMax b maxLen) := by
  unfold topkColumns
  rw [List.length_take, topk.length kMax_le]
  omega

theorem nodup_topkColumns : (topkColumns b topk maxLen row).Nodup :=
  topk.nodup.sublist (List.take_sublist _ _)

theorem newContextLen_selectRow :
    (selectRow b topk maxLen bufMaxLen row).newContextLen =
      b.numSink + min (histLen b row.contextLen - b.numSink) (kMax b maxLen) +
        (row.contextLen - histLen b row.contextLen) := by
  show _ + _ + Int.toNat _ = _
  omega

theorem kept_selectRow :
    (selectRow b topk maxLen bufMaxLen row).kept =
      List.range b.numSink ++ (topkColumns b topk maxLen row).map (· + b.numSink) ++
        (List.range (row.contextLen - histLen b row.contextLen)).map
          (histLen b row.contextLen + ·) := by
  have hrecent : ((row.contextLen : Int) - histLen b row.contextLen).toNat =
      row.contextLen - histLen b row.contextLen := by omega
  unfold Selection.kept selectRow buildKeepAndSlots topkColumns
  dsimp only
  rw [hrecent, take_keepIndices, List.map_take]
  · rw [List.length_map, topk.length kMax_le]
    exact min_le_right _ _
  · unfold histLen
    omega

theorem mem_kept_selectRow {i : Nat} :
    i ∈ (selectRow b topk maxLen bufMaxLen row).kept ↔
      i < b.numSink ∨ (∃ col ∈ topkColumns b topk maxLen row, col + b.numSink = i) ∨
        histLen b row.contextLen ≤ i ∧ i < row.contextLen := by
  rw [kept_selectRow, List.mem_append, List.mem_append, List.mem_range, List.mem_map, List.mem_map,
    or_assoc]
  refine or_congr_right (or_congr_right ⟨?_, ?_⟩)
  · rintro ⟨offs, hoffs, rfl⟩
    have := List.mem_range.mp hoffs
    omega
  · rintro ⟨hle, hlt⟩
    exact ⟨i - histLen b row.contextLen, List.mem_range.mpr (by omega), by omega⟩

theorem length_kept_selectRow :
    (selectRow b topk maxLen bufMaxLen row).kept.length =
      (selectRow b topk maxLen bufMaxLen row).newContextLen := by
  rw [kept_selectRow, newContextLen_selectRow, List.length_append, List.length_append,
    List.length_map, List.length_map, List.length_range, List.length_range, length_topkColumns]

/-- The slots are those of the positions, as far as these are in context. -/
theorem slots_selectRow (hslots : row.contextLen ≤ bufMaxLen)
    (hlt : ∀ i ∈ (selectRow b topk maxLen bufMaxLen row).kept, i < row.contextLen) :
    (selectRow b topk maxLen bufMaxLen row).activeSlots.take
        (selectRow b topk maxLen bufMaxLen row).newContextLen =
      (selectRow b topk maxLen bufMaxLen row).kept.map row.slots := by
  refine (List.map_take (f := fun i => if i < bufMaxLen then row.slots i else 0)).symm.trans
    (List.map_congr_left fun i hi => ?_)
  exact if_pos ((hlt i hi).trans_le hslots)

/-- No token is taken twice when the columns are candidates. -/
theorem nodup_kept
    (hcols : ∀ col ∈ topkColumns b topk maxLen row, col < histLen b row.contextLen - b.numSink) :
    (selectRow b topk maxLen bufMaxLen row).kept.Nodup := by
  rw [kept_selectRow, List.nodup_append', List.nodup_append']
  refine ⟨⟨List.nodup_range, nodup_topkColumns.map (add_left_injective _), ?_⟩,
    List.nodup_range.map (add_right_injective _), ?_⟩
  · intro i hi hi'
    obtain ⟨col, -, rfl⟩ := List.mem_map.mp hi'
    have := List.mem_range.mp hi
    omega
  · intro i hi hi'
    obtain ⟨offs, -, rfl⟩ := List.mem_map.mp hi'
    rcases List.mem_append.mp hi with hi | hi
    · have hsink := le_max_right (row.contextLen - b.numRecent) b.numSink
      have := List.mem_range.mp hi
      unfold histLen at this
      omega
    · obtain ⟨col, hcol, heq⟩ := List.mem_map.mp hi
      have := hcols col hcol
      omega

/-- In a row that fits, the columns are candidates. -/
theorem lt_of_mem_topkColumns (hcontext : row.contextLen ≤ maxLen) (hfits : Fits b maxLen row)
    {col : Nat} (hcol : col ∈ topkColumns b topk maxLen row) :
    col < histLen b row.contextLen - b.numSink := by
  have hpos := List.length_pos_of_mem hcol
  rw [length_topkColumns] at hpos
  have hwidth : kMax b maxLen ≤ histLen b row.contextLen - b.numSink := by
    have hhist : histLen b row.contextLen = max (row.contextLen - b.numRecent) b.numSink := rfl
    unfold Fits at hfits
    omega
  exact TopK.lt_of_mem (searchScores_ne_bot hcontext)
    ((histLen_sub_le hcontext).trans_eq length_searchScores.symm) hwidth (List.mem_of_mem_take hcol)

theorem valid_of_fits (hcontext : row.contextLen ≤ maxLen) (hslots : row.contextLen ≤ bufMaxLen)
    (hfits : Fits b maxLen row) : Valid b row (selectRow b topk maxLen bufMaxLen row) := by
  have hhist : histLen b row.contextLen = max (row.contextLen - b.numRecent) b.numSink := rfl
  have hmax : kMax b maxLen = min b.decodeKeepTokens (maxLen - b.numSink) := rfl
  have hcols : ∀ col ∈ topkColumns b topk maxLen row,
      col < histLen b row.contextLen - b.numSink := fun _ => lt_of_mem_topkColumns hcontext hfits
  obtain ⟨hsink, hrow⟩ := hfits
  have hlt : ∀ i ∈ (selectRow b topk maxLen bufMaxLen row).kept, i < row.contextLen := by
    intro i hi
    rcases mem_kept_selectRow.mp hi with hi | ⟨col, hcol, rfl⟩ | ⟨-, hi⟩
    · omega
    · have := hcols col hcol
      omega
    · exact hi
  refine ⟨length_kept_selectRow, ?_, hlt, ?_, ?_, ?_, ?_, slots_selectRow hslots hlt⟩
  · exact nodup_kept hcols
  · intro i hi
    exact mem_kept_selectRow.mpr (.inl (hi.trans_le (min_le_left _ _)))
  · intro i hi hle
    refine mem_kept_selectRow.mpr ?_
    by_cases hi' : i < b.numSink
    · exact .inl hi'
    · exact .inr (.inr (by omega))
  · rw [newContextLen_selectRow]
    omega
  · intro i hi hfirst hlast j hfirst' hlast' hj
    obtain ⟨col, hcol, rfl⟩ : ∃ col ∈ topkColumns b topk maxLen row, col + b.numSink = i := by
      rcases mem_kept_selectRow.mp hi with hi | hi | ⟨hi, -⟩
      · omega
      · exact hi
      · omega
    obtain ⟨col', rfl⟩ := Nat.exists_eq_add_of_le' hfirst'
    have hout : col' ∉ topkColumns b topk maxLen row :=
      fun hin => hj (mem_kept_selectRow.mpr (.inr (.inl ⟨col', hin, rfl⟩)))
    have hall : topkColumns b topk maxLen row =
        topk.indices (kMax b maxLen) (searchScores b maxLen row) :=
      List.take_of_length_le (by rw [topk.length kMax_le]; omega)
    have hbound := histLen_sub_le (b := b) hcontext
    rw [hall] at hcol hout
    have hle := topk.dominates hcol (by rw [length_searchScores]; omega) hout
    rw [getD_searchScores hcontext, getD_searchScores hcontext, if_pos (by omega),
      if_pos (by omega), WithBot.coe_le_coe, Nat.add_comm, Nat.add_comm b.numSink col] at hle
    exact hle

/-- Under the order that lists masked columns first, a row with too few candidates takes one. -/
theorem fits_of_valid (hcontext : row.contextLen ≤ maxLen)
    (hvalid : Valid b row (selectRow b topk.maskedFirst maxLen bufMaxLen row)) :
    Fits b maxLen row := by
  have hhist : histLen b row.contextLen = max (row.contextLen - b.numRecent) b.numSink := rfl
  have hcount := hvalid.count
  rw [newContextLen_selectRow] at hcount
  have hsink : b.numSink ≤ row.contextLen := by omega
  refine ⟨hsink, ?_⟩
  by_contra! hfew
  obtain ⟨col, rest, hcons, hcol⟩ := topk.exists_masked_head (searchScores_ne_bot hcontext)
    kMax_le (show histLen b row.contextLen - b.numSink < kMax b maxLen by omega)
  have hmem : col ∈ topkColumns b topk.maskedFirst maxLen row := by
    unfold topkColumns
    rw [hcons, min_eq_left (by omega)]
    obtain ⟨k, hk⟩ := Nat.exists_eq_add_of_lt (show 0 < histLen b row.contextLen - b.numSink by omega)
    rw [hk, List.take_succ_cons]
    exact List.mem_cons_self
  have hlt := hvalid.lt _ (mem_kept_selectRow.mpr (.inr (.inl ⟨col, hmem, rfl⟩)))
  have hdistinct := hvalid.nodup
  rw [kept_selectRow, List.nodup_append'] at hdistinct
  -- The masked column is one of the recent tokens.
  refine hdistinct.2.2 (List.mem_append_right _ (List.mem_map_of_mem hmem)) (List.mem_map.mpr
    ⟨col + b.numSink - histLen b row.contextLen, List.mem_range.mpr (by omega), by omega⟩)

end Rows

/-! ## The batch -/

section Batch

variable [LinearOrder S]

/-- The selections of a batch are valid in every order of `torch.topk` exactly when its scores are not
float16 and its rows fit; the rows of a long request with all its tokens in context do. -/
theorem observed_valid_iff (b : Budget) (batch : Batch S) :
    ((∀ (topk : TopK S) (i : Nat) (row : Row S), batch.rows[i]? = some row →
        ∃ outs out, updateDynamicIndices b topk batch = .ok outs ∧ outs[i]? = some out ∧
          Valid b row out) ↔
      ∀ row ∈ batch.rows, batch.dtype ≠ .float16 ∧ Fits b batch.maxLen row) ∧
    ∀ row ∈ batch.rows, row.isLongText b → row.contextLen = row.numTokens →
      Fits b batch.maxLen row := by
  refine ⟨⟨?_, ?_⟩, fun row _ hlong hcomplete => fits_of_complete hlong hcomplete⟩
  · intro hall row hrow
    obtain ⟨i, hi⟩ := List.getElem?_of_mem hrow
    obtain ⟨outs, out, houts, hout, hvalid⟩ := hall (stableTopK S).maskedFirst i row hi
    unfold updateDynamicIndices at houts
    split at houts
    · cases houts
    split at houts
    · cases houts
    · rename_i hdtype
      cases houts
      rw [List.getElem?_map, hi] at hout
      cases hout
      exact ⟨hdtype, fits_of_valid (batch.context_le row hrow) hvalid⟩
  · intro hfits topk i row hi
    have hrow := List.mem_of_getElem? hi
    have hcontext := batch.context_le row hrow
    obtain ⟨hdtype, hfits⟩ := hfits row hrow
    have hsink : ¬batch.maxLen < b.numSink := not_lt.mpr (hfits.1.trans hcontext)
    have hout : (batch.rows.map (selectRow b topk batch.maxLen batch.bufMaxLen))[i]? =
        some (selectRow b topk batch.maxLen batch.bufMaxLen row) := by
      rw [List.getElem?_map, hi]
      rfl
    exact ⟨_, _, (if_neg hsink).trans (if_neg hdtype), hout,
      valid_of_fits hcontext (batch.slots_le row hrow) hfits⟩

end Batch

/-- A replay row of six tokens with three in context: one candidate, two columns. -/
def replayRow : Row Nat where
  contextLen := 3
  numTokens := 6
  score := id
  slots := Nat.cast

def replayBatch : Batch Nat where
  rows := [replayRow]
  dtype := .bfloat16
  maxLen := 3
  bufMaxLen := 3
  context_le _ hrow := List.mem_singleton.mp hrow ▸ le_refl 3
  slots_le _ hrow := List.mem_singleton.mp hrow ▸ le_refl 3

/-- The row is long, and its only candidate is not taken: the last token is, twice. -/
theorem replayBatch_selects :
    replayRow.isLongText ⟨1, 1, 2⟩ ∧
      updateDynamicIndices ⟨1, 1, 2⟩ (stableTopK Nat).maskedFirst replayBatch =
        .ok [⟨[0, 2, 2, 0], [0, 2, 2, 0], 3⟩] ∧
      ¬Valid ⟨1, 1, 2⟩ replayRow ⟨[0, 2, 2, 0], [0, 2, 2, 0], 3⟩ := by
  refine ⟨show 4 < 6 by decide, rfl, fun hvalid => ?_⟩
  exact absurd hvalid.nodup (by decide)

end SparseVllm.OmniKv
