import SparseVllm.SnapKv.Prefill

/-!
# SnapKV has its scores when it evicts

`finalLen` is the length the row of a layer will have when the prefill ends: every chunk of it sees
the same value, so the scheduler and the manager agree on the layers that will be evicted. While a
request waits (`Waiting`), either its prefill has not begun or the window is still ahead of it. Hence
the last chunk covers the window, and the layers that are longer than their budget are scored in
it.

Results: `scores_when_evicting`, about every step of every reachable request.
-/

namespace SparseVllm

open SparseVllm.Lib

variable {B : Type} {cfg : SnapKvConfig}

/-! ## Budgets and lengths -/

/-- The budget of a layer; no layer is full. -/
def sparseBudget (cfg : SnapKvConfig) (layer : Nat) : Nat :=
  if cfg.sparseMethod = .pyramidkv then pyramidkvLayerBudget cfg layer
  else cfg.sinkKeepTokens + cfg.decodeKeepTokens + cfg.recentKeepTokens

theorem not_fullLayer (cfg : SnapKvConfig) (layer : Nat) : ¬ layer < cfg.snapkvNumFullLayers := by
  rw [cfg.noFullLayers]
  exact Nat.not_lt_zero layer

theorem prefillScoreLayerBudget_eq (cfg : SnapKvConfig) (layer : Nat) :
    prefillScoreLayerBudget cfg layer = some (sparseBudget cfg layer) := by
  unfold prefillScoreLayerBudget sparseBudget
  rw [if_neg (not_fullLayer cfg layer)]
  rcases cfg.method with hm | hm
  · simp only [hm, reduceCtorEq, if_false]
  · simp only [hm, if_true]

theorem getLayerBudget_eq (cfg : SnapKvConfig) (layer : Nat) :
    getLayerBudget cfg layer = some (sparseBudget cfg layer) := by
  unfold getLayerBudget sparseBudget pyramidkvLayerBudget
  rw [if_neg (not_fullLayer cfg layer)]
  rcases cfg.method with hm | hm
  · simp only [hm, reduceCtorEq, if_false]
  · simp only [hm, if_true]

theorem sparseBudget_ge (cfg : SnapKvConfig) (layer : Nat) :
    cfg.sinkKeepTokens + cfg.recentKeepTokens ≤ sparseBudget cfg layer := by
  unfold sparseBudget pyramidkvLayerBudget
  split <;> omega

/-- A row longer than its budget is cut to it. -/
theorem selectIndicesCount_eq {layer kvLen : Nat} (h : sparseBudget cfg layer < kvLen) :
    selectIndicesCount cfg kvLen kvLen (sparseBudget cfg layer) = sparseBudget cfg layer := by
  have hge := sparseBudget_ge cfg layer
  unfold selectIndicesCount
  simp only [Nat.min_self]
  split <;> omega

namespace SnapKv

/-- Where the present prefill began. -/
def start (s : SnapKv B) : Nat :=
  if s.seq.isChainResume then s.seq.chainReusedTokens else 0

/-- The tokens of the present prefill: the prompt, or the suffix of a resumed turn. -/
def suffix (s : SnapKv B) : Nat := s.seq.numPromptTokens - s.start

/-- The length of the row of a layer when the present prefill ends, before it is cut. -/
def finalLen (s : SnapKv B) (layer : Nat) : Nat :=
  if s.seq.isChainResume then
    (s.layers layer).rowLen.getD 0 +
      if s.rawOffloadPhase.isSome then s.suffix else s.seq.remainingPrefillTokens
  else s.seq.numPromptTokens

/-- Some layer will have to be cut. -/
def NeedsScore (cfg : SnapKvConfig) (s : SnapKv B) : Prop :=
  ∃ layer < cfg.numKvLayers, sparseBudget cfg layer < s.finalLen layer

/-- The request has tokens to prefill. -/
structure Waiting (cfg : SnapKvConfig) (s : SnapKv B) : Prop where
  prefilled_lt : s.seq.numPrefilledTokens < s.seq.numPromptTokens
  start_le : s.start ≤ s.seq.numPrefilledTokens
  tokens_le : s.seq.numPromptTokens ≤ s.seq.numTokens
  accepted : s.seq.isRecomputeReplay = true → s.seq.numPromptTokens < s.seq.numTokens
  reused : s.seq.chainResumed = true → 0 < s.seq.chainReusedTokens
  plain : s.seq.chainResumed = false → s.seq.chainReusedTokens = 0
  hit : s.seq.prefixCacheHitLen = s.start
  unscored : ∀ layer, (s.layers layer).scores = none
  rows : s.seq.isChainResume = true → ∀ layer < cfg.numKvLayers, (s.layers layer).rowLen.isSome
  filled : s.seq.isChainResume = false → ∀ layer < cfg.numKvLayers,
    (s.layers layer).rowLen.getD 0 =
      if s.rawOffloadPhase.isSome then 0 else s.seq.numPrefilledTokens
  uniform : cfg.sparseMethod = .snapkv → ∀ layer < cfg.numKvLayers,
    (s.layers layer).rowLen = (s.layers 0).rowLen
  phase : ∀ p, s.rawOffloadPhase = some p →
    pyramidkvCanUseFullPrefillStaging cfg = true ∧ p = s.seq.isRecomputeReplay
  begun : pyramidkvCanUseFullPrefillStaging cfg = true → s.seq.numPrefilledTokens ≠ s.start →
    s.rawOffloadPhase.isSome
  -- The window is ahead of a prefill that has begun.
  tail : s.NeedsScore cfg → s.seq.numPrefilledTokens = s.start ∨
    cfg.snapkvWindowSize ≤ s.seq.remainingPrefillTokens

/-- The request is prefilled. -/
structure Decoding (cfg : SnapKvConfig) (s : SnapKv B) : Prop where
  prefilled : s.seq.numPrefilledTokens = s.seq.numPromptTokens
  accepted : 0 < s.seq.numPromptTokens ∧ s.seq.numPromptTokens < s.seq.numTokens
  reused : s.seq.chainResumed = true → 0 < s.seq.chainReusedTokens
  plain : s.seq.chainResumed = false → s.seq.chainReusedTokens = 0
  unscored : ∀ layer, (s.layers layer).scores = none
  rows : ∀ layer < cfg.numKvLayers, (s.layers layer).rowLen.isSome
  uniform : cfg.sparseMethod = .snapkv → ∀ layer < cfg.numKvLayers,
    (s.layers layer).rowLen = (s.layers 0).rowLen
  phase : s.rawOffloadPhase = none

end SnapKv

/-! ## The mode -/

/-- Asking for the mode again gives it again. -/
structure ModeSettled (cfg : SnapKvConfig) (s : SnapKv B) (mode : PrefillExecutionMode) : Prop where
  waiting : s.Waiting cfg
  mode_eq : prefillExecutionMode cfg s = .ok (mode, s)
  off : mode = .chunked → pyramidkvCanUseFullPrefillStaging cfg = false ∧ s.rawOffloadPhase = none
  full : mode = .full → pyramidkvCanUseFullPrefillStaging cfg = true ∧ s.rawOffloadPhase = none ∧
    s.seq.numPrefilledTokens = s.start
  long : mode = .rawOffload → pyramidkvCanUseFullPrefillStaging cfg = true ∧
    s.rawOffloadPhase = some s.seq.isRecomputeReplay

theorem SnapKv.Waiting.withPhase {s : SnapKv B} (h : s.Waiting cfg)
    (fresh : s.seq.numPrefilledTokens = s.start)
    (staged : pyramidkvCanUseFullPrefillStaging cfg = true) :
    SnapKv.Waiting cfg { s with rawOffloadPhase := some s.seq.isRecomputeReplay } where
  prefilled_lt := h.prefilled_lt
  start_le := h.start_le
  tokens_le := h.tokens_le
  accepted := h.accepted
  reused := h.reused
  plain := h.plain
  hit := h.hit
  unscored := h.unscored
  rows := h.rows
  filled hresume layer hlayer := by
    have hzero : s.seq.numPrefilledTokens = 0 := by
      rw [fresh]
      unfold SnapKv.start
      rw [hresume]
      rfl
    have hrow := h.filled hresume layer hlayer
    rw [hzero, ite_self] at hrow
    exact hrow
  uniform := h.uniform
  phase p hp := ⟨staged, (Option.some.inj hp).symm⟩
  begun _ _ := rfl
  tail _ := Or.inl fresh

/-- Scheduling a request changes its raw offload phase only, and settles it. -/
theorem prefillExecutionMode_settles {s : SnapKv B} (h : s.Waiting cfg) :
    ∃ mode phase, prefillExecutionMode cfg s = .ok (mode, { s with rawOffloadPhase := phase }) ∧
      ModeSettled cfg { s with rawOffloadPhase := phase } mode := by
  by_cases hstaging : pyramidkvCanUseFullPrefillStaging cfg = false
  · have hnone : s.rawOffloadPhase = none := by
      cases hphase : s.rawOffloadPhase with
      | none => rfl
      | some p => exact absurd (h.phase p hphase).1 (by rw [hstaging]; nofun)
    have hmode : prefillExecutionMode cfg s = .ok (.chunked, s) := if_pos hstaging
    exact ⟨.chunked, s.rawOffloadPhase, hmode, h, hmode, fun _ => ⟨hstaging, hnone⟩, nofun, nofun⟩
  · have hresidual : s.seq.remainingPrefillTokens ≠ 0 :=
      Nat.sub_ne_zero_of_lt h.prefilled_lt
    have hsticky : ∀ t : SnapKv B, t.seq = s.seq → prefillExecutionMode cfg t =
        .ok (applyStickyRawOffloadMode t (if s.seq.remainingPrefillTokens ≤
          cfg.longPrefillOffloadThreshold then .full else .rawOffload)) := by
      intro t ht
      unfold prefillExecutionMode
      simp only [ht]
      rw [if_neg hstaging, if_neg hresidual]
    have hstaged := eq_true_of_ne_false hstaging
    have hraw : ∀ t : SnapKv B, t.seq = s.seq →
        t.rawOffloadPhase = some s.seq.isRecomputeReplay →
        prefillExecutionMode cfg t = .ok (.rawOffload, t) := by
      intro t ht hphase
      rw [hsticky t ht]
      unfold applyStickyRawOffloadMode
      simp only [hphase, ht, Option.filter_some, decide_true, if_true]
      rw [← hphase, ← ht]
    cases hphase : s.rawOffloadPhase with
    | some p =>
      obtain ⟨-, rfl⟩ := h.phase p hphase
      have hmode := hraw s rfl hphase
      exact ⟨.rawOffload, s.rawOffloadPhase, hmode, h, hmode, nofun, nofun,
        fun _ => ⟨hstaged, hphase⟩⟩
    | none =>
      have hfresh : s.seq.numPrefilledTokens = s.start := by
        by_contra hbegun
        have := h.begun hstaged hbegun
        rw [hphase] at this
        cases this
      by_cases hshort : s.seq.remainingPrefillTokens ≤ cfg.longPrefillOffloadThreshold
      · have hmode : prefillExecutionMode cfg s = .ok (.full, s) := by
          rw [hsticky s rfl, if_pos hshort]
          unfold applyStickyRawOffloadMode
          simp only [hphase, Option.filter_none, reduceCtorEq, if_false]
          rw [← hphase]
        exact ⟨.full, s.rawOffloadPhase, hmode, h, hmode, nofun,
          fun _ => ⟨hstaged, hphase, hfresh⟩, nofun⟩
      · have hmode : prefillExecutionMode cfg s =
            .ok (.rawOffload, { s with rawOffloadPhase := some s.seq.isRecomputeReplay }) := by
          rw [hsticky s rfl, if_neg hshort]
          unfold applyStickyRawOffloadMode
          simp only [hphase, Option.filter_none, if_true]
        exact ⟨.rawOffload, _, hmode, h.withPhase hfresh hstaged, hraw _ rfl rfl, nofun, nofun,
          fun _ => ⟨hstaged, rfl⟩⟩

/-! ## The chunk -/

theorem requiresLong_settled {s : SnapKv B} {mode : PrefillExecutionMode}
    (h : ModeSettled cfg s mode) :
    requiresLongPrefillOffload cfg s = .ok (decide (mode = .rawOffload), s) := by
  unfold requiresLongPrefillOffload
  rw [h.mode_eq]
  rfl

theorem chainPhysicalKvLen_eq {layers : Nat → LayerRow} {layer : Nat}
    (h : (layers layer).rowLen.isSome) :
    chainPhysicalKvLen layers layer = .ok ((layers layer).rowLen.getD 0) := by
  unfold chainPhysicalKvLen
  cases hrow : (layers layer).rowLen with
  | none => rw [hrow] at h; cases h
  | some len => rfl

theorem start_eq_reused {s : SnapKv B} (h : s.seq.isChainResume = true) :
    s.start = s.seq.chainReusedTokens := if_pos h

theorem start_eq_zero {s : SnapKv B} (h : s.seq.isChainResume = false) : s.start = 0 := by
  unfold SnapKv.start
  rw [h]
  rfl

theorem finalPhysicalLen_eq {s : SnapKv B} {layer : Nat} (appended : Nat)
    (row : s.seq.isChainResume = true → (s.layers layer).rowLen.isSome) :
    finalPhysicalLen s appended layer = .ok (if s.seq.isChainResume then
      (s.layers layer).rowLen.getD 0 + appended else s.seq.numPromptTokens) := by
  unfold finalPhysicalLen
  by_cases hresume : s.seq.isChainResume = true
  · rw [if_pos hresume, if_pos hresume, chainPhysicalKvLen_eq (row hresume)]
    rfl
  · rw [if_neg hresume, if_neg hresume]

/-- The PyramidKV loop finds a layer that will have to be cut. -/
theorem pyramidNeedsScore_eq {s : SnapKv B} {appended : Nat}
    (final : ∀ layer < cfg.numKvLayers,
      finalPhysicalLen s appended layer = .ok (s.finalLen layer))
    {layers : List Nat} (sub : ∀ layer ∈ layers, layer < cfg.numKvLayers) :
    ∃ needs, pyramidNeedsScore cfg s appended layers = .ok needs ∧
      (needs = true ↔ ∃ layer ∈ layers, pyramidkvLayerBudget cfg layer < s.finalLen layer) := by
  induction layers with
  | nil => exact ⟨false, rfl, nofun, nofun⟩
  | cons layer rest ih =>
    obtain ⟨needs, hrest, hneeds⟩ := ih fun other hother => sub other (List.mem_cons_of_mem _ hother)
    unfold pyramidNeedsScore
    rw [if_neg (not_fullLayer cfg layer), final layer (sub layer List.mem_cons_self)]
    by_cases hlong : pyramidkvLayerBudget cfg layer < s.finalLen layer
    · exact ⟨true, if_pos hlong, fun _ => ⟨layer, List.mem_cons_self, hlong⟩, fun _ => rfl⟩
    · refine ⟨needs, (if_neg hlong).trans hrest, hneeds.trans ?_⟩
      rw [List.exists_mem_cons_iff, or_iff_right hlong]

/-- In SnapKV every layer has the length of the first. -/
theorem finalLen_uniform {s : SnapKv B} (h : s.Waiting cfg) (method : cfg.sparseMethod = .snapkv)
    {layer : Nat} (hlayer : layer < cfg.numKvLayers) : s.finalLen layer = s.finalLen 0 := by
  unfold SnapKv.finalLen
  rw [h.uniform method layer hlayer]

/-- The manager knows whether some layer will have to be cut. -/
theorem needsScore_eq {s : SnapKv B} {mode : PrefillExecutionMode} (h : ModeSettled cfg s mode)
    (rawOffload : Bool) (raw : s.seq.isChainResume = true → cfg.sparseMethod = .pyramidkv →
      rawOffload = decide (mode = .rawOffload)) :
    ∃ needed, needsScore cfg s rawOffload = .ok needed ∧ (needed = true ↔ s.NeedsScore cfg) := by
  have hw := h.waiting
  unfold needsScore
  rcases cfg.method with hmethod | hmethod
  · have hphase : s.rawOffloadPhase = none := by
      cases hphase : s.rawOffloadPhase with
      | none => rfl
      | some p =>
        have hstaging := (hw.phase p hphase).1
        unfold pyramidkvCanUseFullPrefillStaging at hstaging
        rw [hmethod] at hstaging
        cases hstaging
    have hfinal : finalPhysicalLen s (s.seq.numPromptTokens - s.seq.numPrefilledTokens) 0 =
        .ok (s.finalLen 0) := by
      rw [finalPhysicalLen_eq _ fun hresume => hw.rows hresume 0 cfg.layers_pos]
      unfold SnapKv.finalLen
      rw [hphase]
      rfl
    refine ⟨_, (if_pos hmethod).trans (by rw [hfinal]; rfl), ?_⟩
    rw [decide_eq_true_iff]
    have hbudget : ∀ layer, sparseBudget cfg layer =
        cfg.sinkKeepTokens + cfg.decodeKeepTokens + cfg.recentKeepTokens := fun layer => by
      unfold sparseBudget
      rw [hmethod]
      rfl
    constructor
    · exact fun hlong => ⟨0, cfg.layers_pos, (hbudget 0).symm ▸ hlong⟩
    · rintro ⟨layer, hlayer, hlong⟩
      rw [hbudget, finalLen_uniform hw hmethod hlayer] at hlong
      exact hlong
  · have hsnap : ¬ cfg.sparseMethod = .snapkv := by
      rw [hmethod]
      nofun
    have hfinal : ∀ layer < cfg.numKvLayers, finalPhysicalLen s
        (if rawOffload then
          s.seq.numPromptTokens - max s.seq.chainReusedTokens s.seq.prefixCacheHitLen
        else s.seq.numPromptTokens - s.seq.numPrefilledTokens) layer = .ok (s.finalLen layer) := by
      intro layer hlayer
      rw [finalPhysicalLen_eq _ fun hresume => hw.rows hresume layer hlayer]
      unfold SnapKv.finalLen
      by_cases hresume : s.seq.isChainResume = true
      · rw [if_pos hresume, if_pos hresume, raw hresume hmethod, hw.hit, start_eq_reused hresume,
          Nat.max_self]
        unfold SnapKv.suffix
        rw [start_eq_reused hresume]
        cases mode with
        | rawOffload =>
          rw [(h.long rfl).2]
          rfl
        | chunked =>
          rw [(h.off rfl).2]
          rfl
        | full =>
          rw [(h.full rfl).2.1]
          rfl
      · rw [if_neg hresume, if_neg hresume]
    obtain ⟨needs, hneeds, hiff⟩ := pyramidNeedsScore_eq hfinal
      (fun layer hlayer => List.mem_range.mp hlayer)
    refine ⟨needs, (if_neg hsnap).trans hneeds, hiff.trans ?_⟩
    unfold SnapKv.NeedsScore sparseBudget
    simp only [hmethod, if_true, List.mem_range]

/-- The least final chunk the manager asks for. -/
theorem minFinalPrefillChunkSize_eq {s : SnapKv B} {mode : PrefillExecutionMode}
    (h : ModeSettled cfg s mode) (window : 0 < cfg.snapkvWindowSize) :
    ∃ needed, (needed = true ↔ s.NeedsScore cfg) ∧ minFinalPrefillChunkSize cfg s =
      .ok (if needed then min cfg.snapkvWindowSize s.seq.remainingPrefillTokens else 0, s) := by
  have hlayers : ¬ cfg.numKvLayers ≤ cfg.snapkvNumFullLayers := by
    rw [cfg.noFullLayers]
    exact Nat.not_le.mpr cfg.layers_pos
  unfold minFinalPrefillChunkSize
  rw [if_neg (Nat.pos_iff_ne_zero.mp window), if_neg hlayers]
  by_cases hturn : cfg.sparseMethod = .pyramidkv ∧ s.seq.isChainResume = true
  · obtain ⟨needed, hneeded, hiff⟩ := needsScore_eq h (decide (mode = .rawOffload))
      fun _ _ => rfl
    refine ⟨needed, hiff, ?_⟩
    rw [if_pos hturn, requiresLong_settled h]
    simp only [bind, Except.bind]
    rw [hneeded]
    rfl
  · obtain ⟨needed, hneeded, hiff⟩ := needsScore_eq h false
      fun hresume hmethod => absurd ⟨hmethod, hresume⟩ hturn
    refine ⟨needed, hiff, ?_⟩
    rw [if_neg hturn]
    simp only [bind, Except.bind]
    rw [hneeded]
    rfl

/-- A chunk leaves nothing, or what the bound asks for. -/
theorem respectMinFinal_spec {minFinal remaining proposed : Int} (bound : minFinal ≤ remaining)
    (fits : proposed ≤ remaining) :
    respectMinFinal minFinal remaining proposed ≤ remaining ∧
      (0 < respectMinFinal minFinal remaining proposed →
        respectMinFinal minFinal remaining proposed = remaining ∨
        minFinal ≤ remaining - respectMinFinal minFinal remaining proposed) := by
  unfold respectMinFinal
  split
  · omega
  · omega

theorem chunkTokens_spec {s : SnapKv B} (h : s.Waiting cfg) (window : 0 < cfg.snapkvWindowSize)
    (budget : StepBudget) :
    ∃ tokens mode phase, chunkTokens cfg budget s =
        .ok (tokens, { s with rawOffloadPhase := phase }) ∧
      ModeSettled cfg { s with rawOffloadPhase := phase } mode ∧
      tokens ≤ s.seq.remainingPrefillTokens ∧
      (mode = .full → 0 < tokens → tokens = s.seq.remainingPrefillTokens) ∧
      (SnapKv.NeedsScore cfg { s with rawOffloadPhase := phase } → 0 < tokens →
        tokens < s.seq.remainingPrefillTokens →
        (cfg.snapkvWindowSize : Int) ≤ s.seq.remainingPrefillTokens - tokens) := by
  obtain ⟨mode, phase, hmode, hsettled⟩ := prefillExecutionMode_settles h
  obtain ⟨needed, hneeded, hmin⟩ := minFinalPrefillChunkSize_eq hsettled window
  have hremaining : (0 : Int) < s.seq.remainingPrefillTokens :=
    Int.natCast_pos.mpr (Nat.sub_pos_of_lt h.prefilled_lt)
  obtain ⟨proposed, hproposed⟩ : ∃ proposed, proposed = prefillStepTokens cfg.toSchedulerConfig mode
    s.seq.remainingPrefillTokens budget.numBatchedTokens budget.stepFreeCount := ⟨_, rfl⟩
  have hle : proposed ≤ s.seq.remainingPrefillTokens :=
    hproposed ▸ prefillStepTokens_le _ _ hremaining
  obtain ⟨minFinal, hminFinal⟩ : ∃ minFinal, minFinal =
    if needed then min cfg.snapkvWindowSize s.seq.remainingPrefillTokens else 0 := ⟨_, rfl⟩
  have hbound : (minFinal : Int) ≤ s.seq.remainingPrefillTokens := by
    rw [hminFinal]
    split <;> omega
  obtain ⟨hfits, htail⟩ := respectMinFinal_spec hbound hle
  refine ⟨respectMinFinal minFinal s.seq.remainingPrefillTokens proposed, mode, phase, ?_, hsettled,
    hfits, fun hfull hpos => ?_, fun hneeds hpos hless => ?_⟩
  · unfold chunkTokens
    rw [hmode]
    simp only [bind, Except.bind]
    rw [hmin, hminFinal, hproposed]
    rfl
  · -- A full prefill is proposed whole or not at all.
    have hwhole : proposed = s.seq.remainingPrefillTokens ∨ proposed = 0 := by
      rw [hproposed, hfull]
      unfold prefillStepTokens
      simp only
      split
      · exact Or.inl rfl
      · exact Or.inr rfl
    unfold respectMinFinal at hpos ⊢
    split at hpos <;> omega
  · rw [hneeded.mpr hneeds, if_pos rfl] at hminFinal
    rcases htail hpos with hall | hrest
    · omega
    · omega

/-- The request with its chunk. -/
def SnapKv.withChunk (chunk : Nat) (s : SnapKv B) : SnapKv B :=
  { s with seq := { s.seq with currentChunkSize := some chunk, status := .running } }

/-- The chunk of a request is no part of its invariant. -/
theorem SnapKv.Waiting.withChunk {s : SnapKv B} (h : s.Waiting cfg) (chunk : Nat) :
    (s.withChunk chunk).Waiting cfg where
  prefilled_lt := h.prefilled_lt
  start_le := h.start_le
  tokens_le := h.tokens_le
  accepted := h.accepted
  reused := h.reused
  plain := h.plain
  hit := h.hit
  unscored := h.unscored
  rows := h.rows
  filled := h.filled
  uniform := h.uniform
  phase := h.phase
  begun := h.begun
  tail := h.tail

theorem prefillExecutionMode_withChunk {s : SnapKv B} {mode : PrefillExecutionMode}
    (h : prefillExecutionMode cfg s = .ok (mode, s)) (chunk : Nat) :
    prefillExecutionMode cfg (s.withChunk chunk) = .ok (mode, s.withChunk chunk) := by
  have hwith : prefillExecutionMode cfg (s.withChunk chunk) =
      (prefillExecutionMode cfg s).map fun out => (out.1, out.2.withChunk chunk) := by
    unfold prefillExecutionMode applyStickyRawOffloadMode
    have hsame : (s.withChunk chunk).seq.remainingPrefillTokens = s.seq.remainingPrefillTokens ∧
        (s.withChunk chunk).seq.isRecomputeReplay = s.seq.isRecomputeReplay ∧
        (s.withChunk chunk).rawOffloadPhase = s.rawOffloadPhase := ⟨rfl, rfl, rfl⟩
    rw [hsame.1, hsame.2.1, hsame.2.2]
    by_cases hstaging : pyramidkvCanUseFullPrefillStaging cfg = false
    · rw [if_pos hstaging, if_pos hstaging]
      rfl
    · rw [if_neg hstaging, if_neg hstaging]
      by_cases hzero : s.seq.remainingPrefillTokens = 0
      · simp only [hzero, if_true]
        rfl
      · simp only [hzero, if_false]
        cases s.rawOffloadPhase.filter (· = s.seq.isRecomputeReplay) with
        | some p => rfl
        | none =>
          simp only
          split <;> rfl
  rw [hwith, h]
  rfl

/-- A request that was given a chunk. -/
structure SnapKv.Chunked (cfg : SnapKvConfig) (chunk : Nat) (staging : Staging) (s : SnapKv B) :
    Prop where
  waiting : s.Waiting cfg
  current : s.seq.currentChunkSize = some chunk
  chunk_pos : 0 < chunk
  chunk_le : chunk ≤ s.seq.remainingPrefillTokens
  tail : s.NeedsScore cfg → chunk < s.seq.remainingPrefillTokens →
    cfg.snapkvWindowSize ≤ s.seq.remainingPrefillTokens - chunk
  off : staging = .off → s.rawOffloadPhase = none ∧
    (pyramidkvCanUseFullPrefillStaging cfg = true → chunk = s.seq.remainingPrefillTokens)
  full : staging = .full → s.rawOffloadPhase = none ∧ s.seq.numPrefilledTokens = 0 ∧
    chunk = s.seq.remainingPrefillTokens
  long : staging = .long → pyramidkvCanUseFullPrefillStaging cfg = true ∧
    s.rawOffloadPhase = some s.seq.isRecomputeReplay

/-- A scheduling pass leaves the request waiting, or gives it a chunk. -/
theorem schedulePrefill_spec {s : SnapKv B} (h : s.Waiting cfg) (window : 0 < cfg.snapkvWindowSize)
    (budget : StepBudget) (batchFits : Bool) : ∃ phase,
    (schedulePrefill cfg budget batchFits s = .ok (none, { s with rawOffloadPhase := phase }) ∧
      SnapKv.Waiting cfg { s with rawOffloadPhase := phase }) ∨
    ∃ chunk staging, schedulePrefill cfg budget batchFits s = .ok (some (chunk, staging),
        SnapKv.withChunk chunk { s with rawOffloadPhase := phase }) ∧
      SnapKv.Chunked cfg chunk staging
        (SnapKv.withChunk chunk { s with rawOffloadPhase := phase }) := by
  obtain ⟨tokens, mode, phase, htokens, hsettled, hle, hfull, htail⟩ := chunkTokens_spec h window budget
  refine ⟨phase, ?_⟩
  unfold schedulePrefill
  rw [htokens]
  simp only [bind, Except.bind]
  by_cases hpos : tokens ≤ 0
  · rw [if_pos hpos]
    exact Or.inl ⟨rfl, hsettled.waiting⟩
  · right
    obtain ⟨chunk, rfl⟩ := Int.eq_ofNat_of_zero_le (by omega : 0 ≤ tokens)
    have hnohit : ¬ (s.seq.numPrefilledTokens = 0 ∧ 0 < s.seq.prefixCacheHitLen) := by
      rintro ⟨hzero, hhit⟩
      rw [h.hit] at hhit
      have := h.start_le
      omega
    have hchunk : 0 < chunk ∧ chunk ≤ s.seq.remainingPrefillTokens := by omega
    obtain ⟨t, ht⟩ : ∃ t, t = SnapKv.withChunk chunk { s with rawOffloadPhase := phase } := ⟨_, rfl⟩
    have hmode : prefillExecutionMode cfg t = .ok (mode, t) :=
      ht ▸ prefillExecutionMode_withChunk hsettled.mode_eq chunk
    have hgiven : ∀ staging, (staging = .off → phase = none ∧
        (pyramidkvCanUseFullPrefillStaging cfg = true → chunk = s.seq.remainingPrefillTokens)) →
        (staging = .full → phase = none ∧ s.seq.numPrefilledTokens = 0 ∧
          chunk = s.seq.remainingPrefillTokens) →
        (staging = .long → pyramidkvCanUseFullPrefillStaging cfg = true ∧
          phase = some s.seq.isRecomputeReplay) → t.Chunked cfg chunk staging := by
      intro staging hoff hfullStaging hlong
      rw [ht]
      refine ⟨hsettled.waiting.withChunk chunk, rfl, hchunk.1, hchunk.2, fun hneeds hless => ?_, hoff,
        hfullStaging, hlong⟩
      have hless : chunk < s.seq.remainingPrefillTokens := hless
      have hwindow := htail hneeds (by omega) (by omega)
      show cfg.snapkvWindowSize ≤ s.seq.remainingPrefillTokens - chunk
      omega
    rw [if_neg hpos, if_neg hnohit]
    show ∃ chunk' staging, (do
      let out ← chooseStaging cfg batchFits chunk (SnapKv.withChunk chunk
        { s with rawOffloadPhase := phase })
      Except.ok (some (chunk, out.1), out.2)) = _ ∧ _
    unfold chooseStaging requiresLongPrefillOffload
    rw [← ht, hmode]
    by_cases hstaging : pyramidkvCanUseFullPrefillStaging cfg = false
    · have hphase : phase = none := by
        cases phase with
        | none => rfl
        | some p => exact absurd (hsettled.waiting.phase p rfl).1 (by rw [hstaging]; nofun)
      rw [if_pos hstaging]
      refine ⟨chunk, .off, ht ▸ rfl, ht ▸ hgiven .off (fun _ => ⟨hphase, ?_⟩) nofun nofun⟩
      rw [hstaging]
      nofun
    · rw [if_neg hstaging]
      have hstaged := eq_true_of_ne_false hstaging
      cases mode with
      | chunked => exact absurd (hsettled.off rfl).1 hstaging
      | rawOffload =>
        refine ⟨chunk, .long, ?_, ht ▸ hgiven .long nofun nofun fun _ => hsettled.long rfl⟩
        show (Except.ok (some (chunk, if 0 < chunk then Staging.long else .off), t) :
          Except SnapKvError _) = _
        rw [if_pos hchunk.1, ht]
      | full =>
        obtain ⟨-, hphase, -⟩ := hsettled.full rfl
        have hwhole : chunk = s.seq.remainingPrefillTokens := by
          have := hfull rfl (by omega)
          omega
        by_cases hfits : batchFits = true ∧ t.seq.numPrefilledTokens = 0 ∧
            chunk = t.seq.remainingPrefillTokens
        · refine ⟨chunk, .full, ?_, ht ▸ hgiven .full nofun (fun _ => ⟨hphase, ?_, hwhole⟩) nofun⟩
          · show (do
              let out ← (if batchFits = true ∧ t.seq.numPrefilledTokens = 0 ∧
                chunk = t.seq.remainingPrefillTokens then Except.ok (Staging.full, t)
                else Except.ok (.off, t) : Except SnapKvError _)
              Except.ok (some (chunk, out.1), out.2)) = _
            rw [if_pos hfits, ht]
            rfl
          · have hzero := hfits.2.1
            rw [ht] at hzero
            exact hzero
        · refine ⟨chunk, .off, ?_, ht ▸ hgiven .off (fun _ => ⟨hphase, fun _ => hwhole⟩) nofun nofun⟩
          show (do
            let out ← (if batchFits = true ∧ t.seq.numPrefilledTokens = 0 ∧
              chunk = t.seq.remainingPrefillTokens then Except.ok (Staging.full, t)
              else Except.ok (.off, t) : Except SnapKvError _)
            Except.ok (some (chunk, out.1), out.2)) = _
          rw [if_neg hfits, ht]
          rfl

/-! ## One layer -/

section Layer

variable {s : SnapKv B} {chunk layer : Nat} {staging : Staging}

theorem startScores_eq {seq : ChainSequence B} {row : LayerRow} (h : row.scores = none) :
    startScores seq row = row := by
  unfold startScores
  split
  · rw [← h]
  · rfl

/-- Raw offload leaves out the tokens of the earlier turns. -/
theorem residualStart_long (h : s.Waiting cfg) : residualStart .long s.seq = s.start := by
  unfold residualStart
  by_cases hreplay : s.seq.isRecomputeReplay = false
  · rw [if_pos ⟨rfl, hreplay⟩, h.hit]
    by_cases hchain : s.seq.chainResumed = true
    · have hresume : s.seq.isChainResume = true := by
        unfold ChainSequence.isChainResume
        rw [hchain, hreplay]
        rfl
      rw [start_eq_reused hresume, Nat.max_self]
    · rw [h.plain (eq_false_of_ne_true hchain)]
      exact Nat.zero_max _
  · rw [if_neg fun hlong => hreplay hlong.2]
    have hresume : s.seq.isChainResume = false := by
      unfold ChainSequence.isChainResume
      rw [eq_true_of_ne_false hreplay]
      exact Bool.and_false _
    exact (start_eq_zero hresume).symm

theorem residualStart_le (h : s.Waiting cfg) (staging : Staging) :
    residualStart staging s.seq ≤ s.seq.numPrefilledTokens := by
  cases staging with
  | long => exact (residualStart_long h).symm ▸ h.start_le
  | off => exact Nat.zero_le _
  | full => exact Nat.zero_le _

theorem residentPrefix_long (h : s.Waiting cfg) (hlayer : layer < cfg.numKvLayers) :
    residentPrefix .long s.seq layer (s.layers layer) =
      .ok (if s.seq.isChainResume then (s.layers layer).rowLen.getD 0 else 0) := by
  unfold residentPrefix
  rw [residualStart_long h]
  by_cases hresume : s.seq.isChainResume = true
  · have hchain : s.seq.chainResumed = true := (Bool.and_eq_true_iff.mp hresume).1
    rw [start_eq_reused hresume, if_pos ⟨rfl, h.reused hchain⟩, if_pos hresume]
    have hrow := h.rows hresume layer hlayer
    cases hlen : (s.layers layer).rowLen with
    | none => rw [hlen] at hrow; cases hrow
    | some len => rfl
  · have hzero := start_eq_zero (eq_false_of_ne_true hresume)
    rw [if_neg fun hpos => absurd hpos.2 (by omega), if_neg hresume]

/-- What preparing a layer gives. -/
structure Prepared (cfg : SnapKvConfig) (s : SnapKv B) (chunk : Nat) (staging : Staging)
    (layer : Nat) (step : LayerStep) : Prop where
  unscored : step.row.scores = none
  context_pos : 0 < step.contextLen
  context : chunk = s.seq.remainingPrefillTokens → step.contextLen = s.finalLen layer
  appended : staging = .off → step.row.rowLen = some step.contextLen ∧
    step.contextLen = (s.layers layer).rowLen.getD 0 + chunk
  staged : staging ≠ .off → step.row.rowLen = some ((s.layers layer).rowLen.getD 0) ∧
    (step.residentPrefixLen = 0 ∧ (s.layers layer).rowLen.getD 0 = 0 ∨
      0 < step.residentPrefixLen ∧ step.residentPrefixLen = (s.layers layer).rowLen.getD 0)

theorem prepareLayer_spec (h : s.Chunked cfg chunk staging) (hlayer : layer < cfg.numKvLayers) :
    ∃ step, prepareLayer staging s.seq chunk layer (s.layers layer) = .ok step ∧
      Prepared cfg s chunk staging layer step := by
  have hw := h.waiting
  have hstart := hw.start_le
  have hlt := hw.prefilled_lt
  have hpos := h.chunk_pos
  have hremaining : s.seq.remainingPrefillTokens = s.seq.numPromptTokens - s.seq.numPrefilledTokens :=
    rfl
  obtain ⟨len, hlen⟩ : ∃ len, len = (s.layers layer).rowLen.getD 0 := ⟨_, rfl⟩
  unfold prepareLayer
  rw [startScores_eq (hw.unscored layer)]
  cases staging with
  | off =>
    obtain ⟨hphase, -⟩ := h.off rfl
    have hcheck : checkRow .off s.seq layer 0 (s.layers layer) = .ok () := by
      unfold checkRow
      cases hrow : (s.layers layer).rowLen with
      | none => rfl
      | some row =>
        refine if_neg ?_
        rintro ⟨hfresh, hne⟩
        have hfilled := hw.filled hfresh layer hlayer
        rw [hphase, hrow] at hfilled
        exact hne hfilled
    refine ⟨⟨{ s.layers layer with rowLen := some (len + chunk) }, len + chunk, 0⟩, ?_,
      hw.unscored layer, by simp; omega, fun hlast => ?_, fun _ => ⟨rfl, ?_⟩, fun hon => absurd rfl hon⟩
    · show (do
        let _ ← checkRow .off s.seq layer 0 (s.layers layer)
        Except.ok _ : Except SnapKvError LayerStep) = _
      rw [hcheck, hlen]
      rfl
    · unfold SnapKv.finalLen
      simp only
      by_cases hresume : s.seq.isChainResume = true
      · rw [if_pos hresume, hphase, ← hlen, hlast]
        rfl
      · have hfilled := hw.filled (eq_false_of_ne_true hresume) layer hlayer
        rw [hphase, ← hlen] at hfilled
        rw [if_neg hresume, hfilled, hlast]
        show s.seq.numPrefilledTokens + (s.seq.numPromptTokens - s.seq.numPrefilledTokens) = _
        omega
    · exact congrArg (· + chunk) hlen
  | full =>
    obtain ⟨hphase, hzero, hlast⟩ := h.full rfl
    have hfresh : s.seq.isChainResume = false := by
      by_contra hresume
      have hresume := eq_true_of_ne_false hresume
      have hreused := hw.reused (Bool.and_eq_true_iff.mp hresume).1
      rw [start_eq_reused hresume] at hstart
      omega
    have hempty : len = 0 := by
      have hfilled := hw.filled hfresh layer hlayer
      rw [hphase, hzero, ← hlen] at hfilled
      exact hfilled
    have hcheck : checkRow .full s.seq layer 0 (s.layers layer) = .ok () := by
      unfold checkRow
      cases hrow : (s.layers layer).rowLen with
      | none => rfl
      | some row =>
        refine if_neg fun hmismatch => hmismatch.2 ?_
        rw [hrow] at hlen
        show row = s.seq.numPrefilledTokens
        rw [hzero, ← hempty, hlen]
        rfl
    refine ⟨⟨{ s.layers layer with rowLen := some len }, chunk, 0⟩, ?_, hw.unscored layer, hpos,
      fun _ => ?_, nofun, fun _ => ⟨congrArg some hlen, Or.inl ⟨rfl, hlen ▸ hempty⟩⟩⟩
    · show (do
        let _ ← checkRow .full s.seq layer 0 (s.layers layer)
        if s.seq.numPrefilledTokens ≠ 0 then .error .stagingFirstPrefillOnly
        else Except.ok _ : Except SnapKvError LayerStep) = _
      rw [hcheck, hlen]
      exact if_neg (not_not.mpr hzero)
    · unfold SnapKv.finalLen
      rw [hfresh]
      show chunk = s.seq.numPromptTokens
      omega
  | long =>
    obtain ⟨-, hphase⟩ := h.long rfl
    have hresident := residentPrefix_long hw hlayer
    rw [← hlen] at hresident
    have hempty : s.seq.isChainResume = false → len = 0 := by
      intro hfresh
      have hfilled := hw.filled hfresh layer hlayer
      rw [hphase, ← hlen] at hfilled
      exact hfilled
    have hcheck : checkRow .long s.seq layer (if s.seq.isChainResume then len else 0)
        (s.layers layer) = .ok () := by
      unfold checkRow
      cases hrow : (s.layers layer).rowLen with
      | none => rfl
      | some row =>
        refine if_neg ?_
        rintro ⟨hfresh, hne⟩
        apply hne
        rw [hfresh]
        rw [hrow] at hlen
        exact hlen.symm.trans (hempty hfresh)
    refine ⟨⟨{ s.layers layer with rowLen := some len }, (if s.seq.isChainResume then len else 0) +
      (s.seq.numPrefilledTokens - s.start) + chunk, if s.seq.isChainResume then len else 0⟩, ?_,
      hw.unscored layer, Nat.add_pos_right _ hpos, fun hlast => ?_, nofun,
      fun _ => ⟨congrArg some hlen, ?_⟩⟩
    · show (do
        let resident ← residentPrefix .long s.seq layer (s.layers layer)
        let _ ← checkRow .long s.seq layer resident (s.layers layer)
        Except.ok _ : Except SnapKvError LayerStep) = _
      rw [hresident]
      simp only [bind, Except.bind]
      rw [hcheck, residualStart_long hw, hlen]
    · unfold SnapKv.finalLen SnapKv.suffix
      rw [hphase, ← hlen]
      by_cases hresume : s.seq.isChainResume = true
      · simp only [hresume, if_true, Option.isSome_some]
        omega
      · have hzero := start_eq_zero (eq_false_of_ne_true hresume)
        simp only [hresume]
        rw [if_neg (by simp), if_neg (by simp)]
        omega
    · rw [← hlen]
      by_cases hresume : s.seq.isChainResume = true
      · simp only [hresume, if_true]
        rcases Nat.eq_zero_or_pos len with hzero | hlenPos
        · exact Or.inl ⟨hzero, hzero⟩
        · exact Or.inr ⟨hlenPos, trivial⟩
      · exact Or.inl ⟨if_neg hresume, hempty (eq_false_of_ne_true hresume)⟩

/-- The window is in the last chunk of a prefill that needs it. -/
theorem window_in_last_chunk (h : s.Chunked cfg chunk staging)
    (last : chunk = s.seq.remainingPrefillTokens) (needs : s.NeedsScore cfg) :
    min cfg.snapkvWindowSize s.suffix ≤ chunk := by
  unfold SnapKv.suffix
  rw [last]
  rcases h.waiting.tail needs with hfresh | hwindow
  · rw [← hfresh]
    exact Nat.min_le_right _ _
  · exact (Nat.min_le_left _ _).trans hwindow

/-- The length that is compared with the budget: in the last chunk, that of the context. -/
theorem physicalContextLen_eq {step : LayerStep} (h : Prepared cfg s chunk staging layer step) :
    ∃ len, physicalContextLen staging s.seq layer step = .ok len ∧
      (chunk = s.seq.remainingPrefillTokens → len = step.contextLen) := by
  unfold physicalContextLen
  by_cases hresume : s.seq.isChainResume = false
  · rw [if_pos hresume]
    refine ⟨_, rfl, fun hlast => ?_⟩
    rw [h.context hlast]
    unfold SnapKv.finalLen
    rw [hresume]
    rfl
  · rw [if_neg hresume]
    refine ⟨step.contextLen, ?_, fun _ => rfl⟩
    by_cases hoff : staging = .off
    · rw [if_neg (not_not.mpr hoff)]
      unfold chainPhysicalKvLen
      rw [(h.appended hoff).1]
    · rw [if_pos hoff]

/-- The window is the end of the tokens of this prefill. -/
theorem appendedDelta_eq (h : s.Waiting cfg) :
    s.seq.numPromptTokens - (if s.seq.isRecomputeReplay then 0 else s.seq.chainReusedTokens) =
      s.suffix := by
  have hstart : s.start = if s.seq.isRecomputeReplay then 0 else s.seq.chainReusedTokens := by
    unfold SnapKv.start ChainSequence.isChainResume
    cases hchain : s.seq.chainResumed with
    | true => cases s.seq.isRecomputeReplay <;> rfl
    | false =>
      rw [h.plain hchain, ite_self, ite_self]
  rw [← hstart]
  rfl

theorem scoreRange_last (h : s.Chunked cfg chunk staging)
    (last : chunk = s.seq.remainingPrefillTokens) (needs : s.NeedsScore cfg) (physicalLen : Nat) :
    ∃ range, scoreRange cfg s.seq chunk layer physicalLen = .ok (some range) := by
  have hw := h.waiting
  have hlt := hw.prefilled_lt
  have hwindow := window_in_last_chunk h last needs
  have hsuffix : s.suffix ≠ 0 := Nat.sub_ne_zero_of_lt (Nat.lt_of_le_of_lt hw.start_le hlt)
  have hremaining : s.seq.remainingPrefillTokens = s.seq.numPromptTokens - s.seq.numPrefilledTokens :=
    rfl
  unfold scoreRange
  simp only
  rw [appendedDelta_eq hw, if_neg hsuffix, if_pos (by omega)]
  split
  · exact ⟨_, rfl⟩
  · exact ⟨_, rfl⟩

theorem scoreRange_early (early : s.seq.numPrefilledTokens + chunk < s.seq.numPromptTokens)
    (physicalLen : Nat) : scoreRange cfg s.seq chunk layer physicalLen = .ok none := by
  unfold scoreRange
  simp only
  rw [if_neg fun hin => absurd hin.2 (by omega), if_neg fun hpart => absurd hpart.1 (by omega)]

/-- The accumulators of a layer: the last chunk scores a row that is too long. -/
theorem collectScores_spec (h : s.Chunked cfg chunk staging) (window : 0 < cfg.snapkvWindowSize)
    (hlayer : layer < cfg.numKvLayers) {step : LayerStep}
    (hstep : Prepared cfg s chunk staging layer step) :
    collectPrefillAttentionScore cfg staging s.seq chunk layer step = .ok
      { step with row := { step.row with scores :=
          (if chunk = s.seq.remainingPrefillTokens ∧ sparseBudget cfg layer < step.contextLen then
            some step.contextLen
          else none) } } := by
  have hle := h.chunk_le
  have hlt := h.waiting.prefilled_lt
  have hremaining : s.seq.remainingPrefillTokens = s.seq.numPromptTokens - s.seq.numPrefilledTokens :=
    rfl
  obtain ⟨len, hlen, hcontext⟩ := physicalContextLen_eq hstep
  have hrow : prefillScoreRow cfg staging s.seq chunk layer step =
      if len ≤ sparseBudget cfg layer then .ok none else scoreRange cfg s.seq chunk layer len := by
    unfold prefillScoreRow
    rw [prefillScoreLayerBudget_eq]
    simp only
    rw [if_neg (Nat.pos_iff_ne_zero.mp window), hlen]
    rfl
  have hunscored : step = { step with row := { step.row with scores := none } } := by
    rw [← hstep.unscored]
  unfold collectPrefillAttentionScore
  by_cases hscored : chunk = s.seq.remainingPrefillTokens ∧ sparseBudget cfg layer < step.contextLen
  · obtain ⟨hlast, hlong⟩ := hscored
    obtain ⟨range, hrange⟩ : ∃ range, scoreRange cfg s.seq chunk layer len = .ok (some range) :=
      scoreRange_last h hlast ⟨layer, hlayer, hstep.context hlast ▸ hlong⟩ len
    have hsome : prefillScoreRow cfg staging s.seq chunk layer step = .ok (some range) := by
      rw [hrow, if_neg (by rw [hcontext hlast]; exact Nat.not_le.mpr hlong), hrange]
    have hscores : (if s.seq.numPrefilledTokens = 0 then none else step.row.scores) = none := by
      rw [hstep.unscored, ite_self]
    rw [hsome]
    simp only [bind, Except.bind, hscores, hlast, hlong, and_self, if_true]
    rfl
  · have hnone : prefillScoreRow cfg staging s.seq chunk layer step = .ok none := by
      rw [hrow]
      by_cases hlast : chunk = s.seq.remainingPrefillTokens
      · rw [hcontext hlast, if_pos (Nat.not_lt.mp fun hlong => hscored ⟨hlast, hlong⟩)]
      · rw [scoreRange_early (by omega), ite_self]
    rw [hnone, if_neg hscored, ← hunscored]
    rfl

/-- A budget of no tokens at all keeps none. -/
def KeepsNothing (e : SnapKvError) : Prop :=
  e = .stagingKeepsNothing ∨ ∃ layer, e = .freePartKeepsNothing layer

/-- The length of a row that was cut to its budget. -/
def keptLen (cfg : SnapKvConfig) (s : SnapKv B) (layer : Nat) : Nat :=
  min (s.finalLen layer) (sparseBudget cfg layer)

/-- A layer after its attention. -/
structure Attended (cfg : SnapKvConfig) (s : SnapKv B) (chunk : Nat) (staging : Staging)
    (layer : Nat) (row : LayerRow) : Prop where
  plain : staging = .off → row = ⟨some ((s.layers layer).rowLen.getD 0 + chunk),
    if chunk = s.seq.remainingPrefillTokens ∧ sparseBudget cfg layer < s.finalLen layer then
      some (s.finalLen layer) else none⟩
  early : staging ≠ .off → chunk ≠ s.seq.remainingPrefillTokens →
    row = ⟨some ((s.layers layer).rowLen.getD 0), none⟩
  materialized : staging ≠ .off → chunk = s.seq.remainingPrefillTokens →
    row = ⟨some (keptLen cfg s layer), none⟩

theorem materialize_spec {step : LayerStep} {keep : Nat} (unscored : step.row.scores = none)
    (row : ∃ len, step.row.rowLen = some len ∧ (step.residentPrefixLen = 0 ∧ len = 0 ∨
      0 < step.residentPrefixLen ∧ step.residentPrefixLen = len)) :
    Yields (fun done => done.row = ⟨some keep, none⟩) KeepsNothing
      (materializePrefillStagingLayer layer keep step) := by
  obtain ⟨len, hlen, hresident⟩ := row
  unfold materializePrefillStagingLayer
  rw [hlen]
  simp only
  rw [if_neg (by omega), if_neg (by split <;> omega)]
  by_cases hkeep : keep = 0
  · rw [if_pos hkeep]
    exact Or.inl rfl
  · rw [if_neg hkeep]
    show (⟨some keep, step.row.scores⟩ : LayerRow) = _
    rw [unscored]

theorem attention_spec (h : s.Chunked cfg chunk staging) (window : 0 < cfg.snapkvWindowSize)
    (hlayer : layer < cfg.numKvLayers) {step : LayerStep}
    (hstep : Prepared cfg s chunk staging layer step) :
    Yields (fun done => Attended cfg s chunk staging layer done.row) KeepsNothing
      (do
        let step ← collectPrefillAttentionScore cfg staging s.seq chunk layer step
        onAttentionEnd cfg staging (decide (chunk = s.seq.remainingPrefillTokens)) layer step) := by
  rw [collectScores_spec h window hlayer hstep]
  show Yields _ _ (onAttentionEnd cfg staging _ layer _)
  unfold onAttentionEnd
  by_cases hoff : staging = .off
  · rw [if_pos hoff]
    obtain ⟨hrow, hcontext⟩ := hstep.appended hoff
    refine ⟨fun _ => ?_, fun hon => absurd hoff hon, fun hon => absurd hoff hon⟩
    show (⟨step.row.rowLen, _⟩ : LayerRow) = _
    rw [hrow, hcontext]
    by_cases hlast : chunk = s.seq.remainingPrefillTokens
    · have hfinal := hstep.context hlast
      rw [hcontext] at hfinal
      rw [hfinal]
    · rw [if_neg fun h => hlast h.1, if_neg fun h => hlast h.1]
  · rw [if_neg hoff]
    obtain ⟨hrow, hresident⟩ := hstep.staged hoff
    by_cases hlast : chunk = s.seq.remainingPrefillTokens
    · rw [if_neg (by rw [decide_eq_true hlast]; nofun), getLayerBudget_eq]
      simp only
      have hdone : ∀ keep, keep = keptLen cfg s layer → ∀ step' : LayerStep,
          step'.row = ⟨step.row.rowLen, none⟩ →
          step'.residentPrefixLen = step.residentPrefixLen →
          Yields (fun done => Attended cfg s chunk staging layer done.row) KeepsNothing
            (materializePrefillStagingLayer layer keep step') := by
        intro keep hkeep step' hrow' hresident'
        refine (materialize_spec (by rw [hrow']) ⟨_, by rw [hrow', hrow], ?_⟩).mono
          fun done hdone => ⟨fun hon => absurd hon hoff, fun _ hearly => absurd hlast hearly,
            fun _ _ => hkeep ▸ hdone⟩
        rw [hresident']
        exact hresident
      have hfinal := hstep.context hlast
      by_cases hshort : step.contextLen ≤ sparseBudget cfg layer
      · rw [if_pos hshort]
        refine hdone _ ?_ _ ?_ rfl
        · unfold keptLen
          rw [← hfinal, Nat.min_eq_left hshort]
        · rw [if_neg fun hlong => absurd hlong.2 (Nat.not_lt.mpr hshort)]
      · have hlong := Nat.not_le.mp hshort
        rw [if_neg hshort, if_pos ⟨hlast, hlong⟩]
        refine hdone _ ?_ _ rfl rfl
        unfold keptLen
        rw [selectIndicesCount_eq hlong, ← hfinal, Nat.min_eq_right hlong.le]
    · have hlong : staging = .long := by
        cases staging with
        | off => exact absurd rfl hoff
        | full => exact absurd (h.full rfl).2.2 hlast
        | long => rfl
      rw [if_pos (decide_eq_false hlast), if_pos hlong]
      refine ⟨fun hon => absurd hon hoff, fun _ _ => ?_, fun _ h => absurd h hlast⟩
      show (⟨step.row.rowLen, _⟩ : LayerRow) = _
      rw [hrow, if_neg fun h => hlast h.1]

theorem appended_eq_finalLen (h : s.Chunked cfg chunk staging) (hlayer : layer < cfg.numKvLayers)
    (off : staging = .off) (last : chunk = s.seq.remainingPrefillTokens) :
    (s.layers layer).rowLen.getD 0 + chunk = s.finalLen layer := by
  obtain ⟨step, -, hstep⟩ := prepareLayer_spec h hlayer
  rw [← (hstep.appended off).2]
  exact hstep.context last

/-- A layer after the step. -/
structure Finished (cfg : SnapKvConfig) (s : SnapKv B) (chunk : Nat) (staging : Staging)
    (layer : Nat) (row : LayerRow) : Prop where
  early : chunk ≠ s.seq.remainingPrefillTokens → row = ⟨some
    ((s.layers layer).rowLen.getD 0 + if staging = .off then chunk else 0), none⟩
  last : chunk = s.seq.remainingPrefillTokens → row = ⟨some (keptLen cfg s layer), none⟩

theorem finishStep_spec (h : s.Chunked cfg chunk staging) (hlayer : layer < cfg.numKvLayers)
    {step : LayerStep} (hstep : Attended cfg s chunk staging layer step.row) :
    Yields (fun done => Finished cfg s chunk staging layer done.row) KeepsNothing
      (finishPrefillStep cfg staging s.seq chunk
        (decide (chunk = s.seq.remainingPrefillTokens)) layer step) := by
  have hlt := h.waiting.prefilled_lt
  have hremaining : s.seq.remainingPrefillTokens = s.seq.numPromptTokens - s.seq.numPrefilledTokens :=
    rfl
  unfold finishPrefillStep
  by_cases hoff : staging = .off
  · have hrow := hstep.plain hoff
    by_cases hlast : chunk = s.seq.remainingPrefillTokens
    · rw [if_neg (by rw [decide_eq_true hlast, hoff]; simp)]
      have hfinal := appended_eq_finalLen h hlayer hoff hlast
      have hkvLen : evictionKvLen s.seq chunk layer step = .ok (s.finalLen layer) := by
        unfold evictionKvLen
        by_cases hresume : s.seq.isChainResume = true
        · rw [if_pos hresume]
          unfold chainPhysicalKvLen
          simp only
          rw [hrow, hfinal]
        · rw [if_neg hresume]
          unfold SnapKv.finalLen
          rw [if_neg hresume]
          exact congrArg _ (by omega)
      unfold snapkvPrefillEviction
      rw [getLayerBudget_eq]
      simp only
      rw [hkvLen]
      show Yields _ _ (if s.finalLen layer ≤ sparseBudget cfg layer then _ else _)
      by_cases hshort : s.finalLen layer ≤ sparseBudget cfg layer
      · rw [if_pos hshort]
        refine ⟨fun hearly => absurd hlast hearly, fun _ => ?_⟩
        rw [hrow, hfinal, if_neg fun hlong => absurd hlong.2 (Nat.not_lt.mpr hshort)]
        unfold keptLen
        rw [Nat.min_eq_left hshort]
      · have hlong := Nat.not_le.mp hshort
        rw [if_neg hshort, hrow, hfinal, if_pos ⟨hlast, hlong⟩]
        simp only
        unfold freePartSlots
        simp only
        rw [selectIndicesCount_eq hlong]
        by_cases hzero : sparseBudget cfg layer = 0
        · rw [if_pos hzero]
          exact Or.inr ⟨layer, rfl⟩
        · rw [if_neg hzero]
          refine ⟨fun hearly => absurd hlast hearly, fun _ => ?_⟩
          unfold keptLen
          rw [Nat.min_eq_right hlong.le]
    · rw [if_pos (Or.inl (decide_eq_false hlast))]
      refine ⟨fun _ => ?_, fun h => absurd h hlast⟩
      rw [hrow, if_neg fun h => hlast h.1, if_pos hoff]
  · rw [if_pos (Or.inr hoff)]
    refine ⟨fun hearly => ?_, fun hlast => hstep.materialized hoff hlast⟩
    rw [hstep.early hoff hearly, if_neg hoff]
    rfl

theorem last_iff (h : s.Chunked cfg chunk staging) :
    decide (s.seq.numPromptTokens ≤ s.seq.numPrefilledTokens + chunk) =
      decide (chunk = s.seq.remainingPrefillTokens) := by
  have hle := h.chunk_le
  have hlt := h.waiting.prefilled_lt
  have hremaining : s.seq.remainingPrefillTokens = s.seq.numPromptTokens - s.seq.numPrefilledTokens :=
    rfl
  rw [decide_eq_decide]
  omega

/-- The rows after the step. -/
structure Forwarded (cfg : SnapKvConfig) (s : SnapKv B) (chunk : Nat) (staging : Staging)
    (layers : Nat → LayerRow) : Prop where
  finished : ∀ layer < cfg.numKvLayers, Finished cfg s chunk staging layer (layers layer)
  others : ∀ layer, cfg.numKvLayers ≤ layer → layers layer = s.layers layer

theorem prefillForward_spec (h : s.Chunked cfg chunk staging) (window : 0 < cfg.snapkvWindowSize) :
    Yields (Forwarded cfg s chunk staging) KeepsNothing
      (prefillForward cfg staging s.seq chunk s.layers) := by
  unfold prefillForward
  simp only
  rw [if_neg (Nat.not_lt.mpr (residualStart_le h.waiting staging)), last_iff h]
  refine .bind (.forRange (P := fun layer step => Prepared cfg s chunk staging layer step)
    fun layer hlayer => ?_) fun steps hsteps => ?_
  · obtain ⟨step, hrun, hstep⟩ := prepareLayer_spec h hlayer
    exact .of_eq hrun hstep
  refine .bind (.forRange (P := fun layer step => Attended cfg s chunk staging layer step.row)
    fun layer hlayer => attention_spec h window hlayer (hsteps.1 layer hlayer))
    fun attended hattended => ?_
  refine .bind (.forRange (P := fun layer step => Finished cfg s chunk staging layer step.row)
    fun layer hlayer => finishStep_spec h hlayer (hattended.1 layer hlayer))
    fun done hdone => ?_
  refine ⟨hdone.1, fun layer hlayer => ?_⟩
  rw [hdone.2 layer hlayer, hattended.2 layer hlayer, hsteps.2 layer hlayer]

theorem Forwarded.unscored {layers : Nat → LayerRow} (h : s.Chunked cfg chunk staging)
    (done : Forwarded cfg s chunk staging layers) (layer : Nat) : (layers layer).scores = none := by
  rcases Nat.lt_or_ge layer cfg.numKvLayers with hlayer | hlayer
  · by_cases hlast : chunk = s.seq.remainingPrefillTokens
    · rw [(done.finished layer hlayer).last hlast]
    · rw [(done.finished layer hlayer).early hlast]
  · rw [done.others layer hlayer]
    exact h.waiting.unscored layer

/-- An early chunk leaves the rows that the next one expects. -/
theorem Forwarded.waiting {layers : Nat → LayerRow} {seq : ChainSequence B}
    (h : s.Chunked cfg chunk staging) (done : Forwarded cfg s chunk staging layers)
    (early : chunk < s.seq.remainingPrefillTokens)
    (advanced : seq = { s.seq with
      numPrefilledTokens := s.seq.numPrefilledTokens + chunk, status := .waiting }) :
    SnapKv.Waiting cfg { s with seq := seq, layers := layers } := by
  have hw := h.waiting
  have hstart := hw.start_le
  have hremaining : s.seq.remainingPrefillTokens = s.seq.numPromptTokens - s.seq.numPrefilledTokens :=
    rfl
  have hrow : ∀ layer < cfg.numKvLayers, layers layer =
      ⟨some ((s.layers layer).rowLen.getD 0 + if staging = .off then chunk else 0), none⟩ :=
    fun layer hlayer => (done.finished layer hlayer).early (by omega)
  have hphase : s.rawOffloadPhase.isSome = decide (staging ≠ .off) := by
    cases staging with
    | off => rw [(h.off rfl).1]; rfl
    | full => exact absurd (h.full rfl).2.2 (by omega)
    | long => rw [(h.long rfl).2]; rfl
  subst advanced
  have hnext : (SnapKv.mk { s.seq with
      numPrefilledTokens := s.seq.numPrefilledTokens + chunk, status := .waiting }
      s.rawOffloadPhase layers).seq.remainingPrefillTokens =
      s.seq.remainingPrefillTokens - chunk := Nat.sub_add_eq _ _ _
  refine ⟨?_, Nat.le_add_right_of_le hstart, hw.tokens_le, hw.accepted, hw.reused, hw.plain, hw.hit,
    done.unscored h, fun _ layer hlayer => ?_, fun hfresh layer hlayer => ?_,
    fun hmethod layer hlayer => ?_, hw.phase, fun hstaged _ => ?_, fun hneeds => Or.inr ?_⟩
  · show s.seq.numPrefilledTokens + chunk < s.seq.numPromptTokens
    omega
  · show (layers layer).rowLen.isSome
    rw [hrow layer hlayer]
    rfl
  · show (layers layer).rowLen.getD 0 =
      if s.rawOffloadPhase.isSome then 0 else s.seq.numPrefilledTokens + chunk
    have hfilled := hw.filled hfresh layer hlayer
    rw [hphase] at hfilled ⊢
    rw [hrow layer hlayer]
    by_cases hoff : staging = .off
    · subst hoff
      exact congrArg (· + chunk) hfilled
    · rw [decide_eq_true hoff] at hfilled ⊢
      show _ + _ = 0
      rw [hfilled, if_neg hoff]
      rfl
  · show (layers layer).rowLen = (layers 0).rowLen
    rw [hrow layer hlayer, hrow 0 cfg.layers_pos]
    simp only
    rw [hw.uniform hmethod layer hlayer]
  · cases staging with
    | off => exact absurd ((h.off rfl).2 hstaged) (by omega)
    | full => exact absurd (h.full rfl).2.2 (by omega)
    | long => exact hphase
  · rw [hnext]
    refine h.tail ?_ early
    obtain ⟨layer, hlayer, hlong⟩ := hneeds
    refine ⟨layer, hlayer, lt_of_lt_of_eq hlong ?_⟩
    unfold SnapKv.finalLen
    rw [hnext]
    show (if s.seq.isChainResume then (layers layer).rowLen.getD 0 +
      (if s.rawOffloadPhase.isSome then s.suffix else _) else _) = _
    rw [hphase, hrow layer hlayer]
    by_cases hoff : staging = .off
    · subst hoff
      have hsum : (s.layers layer).rowLen.getD 0 + chunk + (s.seq.remainingPrefillTokens - chunk) =
          (s.layers layer).rowLen.getD 0 + s.seq.remainingPrefillTokens := by omega
      exact congrArg (fun len => if s.seq.isChainResume then len else s.seq.numPromptTokens) hsum
    · rw [decide_eq_true hoff, if_neg hoff]
      rfl

/-- The last chunk leaves rows within their budgets. -/
theorem Forwarded.decoding {layers : Nat → LayerRow} {seq : ChainSequence B}
    (h : s.Chunked cfg chunk staging) (done : Forwarded cfg s chunk staging layers)
    (last : chunk = s.seq.remainingPrefillTokens)
    (prefilled : seq.numPrefilledTokens = seq.numPromptTokens)
    (prompt : seq.numPromptTokens = s.seq.numPromptTokens)
    (accepted : seq.numPromptTokens < seq.numTokens)
    (resumed : seq.chainResumed = s.seq.chainResumed)
    (reused : seq.chainReusedTokens = s.seq.chainReusedTokens) :
    SnapKv.Decoding cfg { seq := seq, layers := layers } := by
  have hw := h.waiting
  have hrow : ∀ layer < cfg.numKvLayers, layers layer = ⟨some (keptLen cfg s layer), none⟩ :=
    fun layer hlayer => (done.finished layer hlayer).last last
  refine ⟨prefilled, ⟨?_, accepted⟩, fun hchain => ?_, fun hchain => ?_, done.unscored h,
    fun layer hlayer => ?_, fun hmethod layer hlayer => ?_, rfl⟩
  · show 0 < seq.numPromptTokens
    rw [prompt]
    exact Nat.zero_lt_of_lt hw.prefilled_lt
  · show 0 < seq.chainReusedTokens
    rw [reused]
    exact hw.reused (resumed ▸ hchain)
  · show seq.chainReusedTokens = 0
    rw [reused]
    exact hw.plain (resumed ▸ hchain)
  · show (layers layer).rowLen.isSome
    rw [hrow layer hlayer]
    rfl
  · show (layers layer).rowLen = (layers 0).rowLen
    rw [hrow layer hlayer, hrow 0 cfg.layers_pos]
    have hkept : keptLen cfg s layer = keptLen cfg s 0 := by
      unfold keptLen sparseBudget
      rw [finalLen_uniform hw hmethod hlayer, hmethod]
      rfl
    rw [hkept]

theorem postprocessChunk_early {layers : Nat → LayerRow} (h : s.Chunked cfg chunk staging)
    (done : Forwarded cfg s chunk staging layers) (early : chunk < s.seq.remainingPrefillTokens)
    (sample : Sample) :
    ∃ s', postprocessChunk sample { s with layers := layers } = .ok s' ∧ s'.Waiting cfg ∧
      s'.start = s.start ∧ s'.seq.numPromptTokens = s.seq.numPromptTokens ∧
      s'.seq.numPrefilledTokens = s.seq.numPrefilledTokens + chunk := by
  have hremaining : s.seq.remainingPrefillTokens = s.seq.numPromptTokens - s.seq.numPrefilledTokens :=
    rfl
  unfold postprocessChunk Sequence.advancePrefill
  simp only
  rw [h.current]
  simp only
  rw [if_pos (by omega)]
  exact ⟨_, rfl, done.waiting h early (by simp only [h.current]), rfl, rfl, rfl⟩

theorem finishRecomputeReplay_ok {seq : Sequence B} (h : seq.isRecomputeReplay = true) :
    seq.finishRecomputeReplay = .ok { seq with
      recomputeReplayCursor := none
      decodeProgressCheckpoint := seq.numCompletionTokens } :=
  if_neg (by rw [h]; nofun)

theorem postprocessChunk_last {layers : Nat → LayerRow} (h : s.Chunked cfg chunk staging)
    (done : Forwarded cfg s chunk staging layers) (last : chunk = s.seq.remainingPrefillTokens)
    (sample : Sample) :
    ∃ s', postprocessChunk sample { s with layers := layers } = .ok s' ∧ s'.Decoding cfg ∧
      s'.seq.numPromptTokens = s.seq.numPromptTokens := by
  have hw := h.waiting
  have hlt := hw.prefilled_lt
  have hprefilled : s.seq.numPrefilledTokens + chunk = s.seq.numPromptTokens := by
    have hremaining : s.seq.remainingPrefillTokens =
      s.seq.numPromptTokens - s.seq.numPrefilledTokens := rfl
    omega
  unfold postprocessChunk Sequence.advancePrefill
  simp only
  rw [h.current]
  simp only
  rw [hprefilled, if_neg (Nat.lt_irrefl _)]
  split
  · next hreplay =>
    have haccepted := hw.accepted hreplay
    rw [finishRecomputeReplay_ok hreplay]
    split
    · next heq =>
      split at heq <;> cases heq
    · next heq =>
      split at heq <;> cases heq <;>
        exact ⟨_, rfl, done.decoding h last rfl rfl haccepted rfl rfl, rfl⟩
  · exact ⟨_, rfl, done.decoding h last rfl rfl (Nat.lt_succ_of_le hw.tokens_le) rfl rfl, rfl⟩

end Layer

/-! ## The life of a request -/

theorem prefillStep_spec {s : SnapKv B} (h : s.Waiting cfg) (window : 0 < cfg.snapkvWindowSize)
    (budget : StepBudget) (batchFits : Bool) (sample : Sample) :
    Yields (fun out : Nat × SnapKv B =>
        (out.2.Decoding cfg ∨ out.2.Waiting cfg ∧ out.2.start = s.start) ∧
        out.2.seq.numPromptTokens = s.seq.numPromptTokens ∧
        out.2.seq.numPrefilledTokens = s.seq.numPrefilledTokens + out.1) KeepsNothing
      (prefillStep cfg budget batchFits sample s) := by
  obtain ⟨phase, ⟨hrun, hwaiting⟩ | ⟨chunk, staging, hrun, hchunked⟩⟩ :=
    schedulePrefill_spec h window budget batchFits
  · unfold prefillStep
    rw [hrun]
    exact ⟨Or.inr ⟨hwaiting, rfl⟩, rfl, rfl⟩
  · unfold prefillStep
    rw [hrun]
    show Yields _ _ (prefillForward cfg staging _ chunk _ >>= _)
    refine .bind (prefillForward_spec hchunked window) fun layers hdone => ?_
    rcases Nat.eq_or_lt_of_le hchunked.chunk_le with hlast | hearly
    · obtain ⟨s', hrun', hdecoding, hprompt⟩ := postprocessChunk_last hchunked hdone hlast sample
      refine .bind (.of_eq (P := fun t => t = s') hrun' rfl) fun t ht => ?_
      subst ht
      refine ⟨Or.inl hdecoding, hprompt, ?_⟩
      have hlt := h.prefilled_lt
      have hwhole : chunk = s.seq.numPromptTokens - s.seq.numPrefilledTokens := hlast
      show t.seq.numPrefilledTokens = s.seq.numPrefilledTokens + chunk
      rw [hdecoding.prefilled, hprompt]
      show s.seq.numPromptTokens = _
      omega
    · obtain ⟨s', hrun', hwaiting, hstart, hprompt, hprefilled⟩ :=
        postprocessChunk_early hchunked hdone hearly sample
      refine .bind (.of_eq (P := fun t => t = s') hrun' rfl) fun t ht => ?_
      subst ht
      exact ⟨Or.inr ⟨hwaiting, hstart⟩, hprompt, hprefilled⟩

theorem SnapKv.fresh_waiting {tokens : List Nat} (nonempty : tokens ≠ []) :
    (SnapKv.fresh tokens : SnapKv B).Waiting cfg where
  prefilled_lt := List.length_pos_of_ne_nil nonempty
  start_le := Nat.le_refl 0
  tokens_le := Nat.le_refl _
  accepted := nofun
  reused := nofun
  plain _ := rfl
  hit := rfl
  unscored _ := rfl
  rows := nofun
  filled _ _ _ := rfl
  uniform _ _ _ := rfl
  phase := nofun
  begun _ hbegun := absurd rfl hbegun
  tail _ := Or.inl rfl

theorem decodeStep_decoding {s s' : SnapKv B} {scored : Nat → Bool} {sample : Sample}
    (h : s.Decoding cfg) (step : decodeStep cfg scored sample s = .ok s') : s'.Decoding cfg := by
  obtain ⟨layers, hlayers⟩ : ∃ layers, layers =
    fun layer => decodeLayer cfg (scored layer) layer (s.layers layer) := ⟨_, rfl⟩
  have hscores : ∀ layer, (layers layer).scores = none := by
    intro layer
    rw [hlayers]
    unfold decodeLayer
    simp only
    split
    · split <;> exact h.unscored layer
    · exact h.unscored layer
  have hrows : ∀ layer < cfg.numKvLayers, (layers layer).rowLen.isSome := by
    intro layer _
    rw [hlayers]
    unfold decodeLayer
    simp only
    split
    · split <;> rfl
    · rfl
  have huniform : cfg.sparseMethod = .snapkv → ∀ layer < cfg.numKvLayers,
      (layers layer).rowLen = (layers 0).rowLen := by
    intro hmethod layer hlayer
    rw [hlayers]
    unfold decodeLayer
    simp only [hmethod]
    rw [h.uniform hmethod layer hlayer]
  have hkeep : ∀ seq : ChainSequence B, seq.numPrefilledTokens = s.seq.numPrefilledTokens →
      seq.numPromptTokens = s.seq.numPromptTokens → s.seq.numTokens ≤ seq.numTokens →
      seq.chainResumed = s.seq.chainResumed → seq.chainReusedTokens = s.seq.chainReusedTokens →
      SnapKv.Decoding cfg { s with seq := seq, layers := layers } := by
    intro seq hprefilled hprompt htokens hresumed hreused
    refine ⟨?_, ?_, fun hchain => ?_, fun hchain => ?_, hscores, hrows, huniform, h.phase⟩
    · show seq.numPrefilledTokens = seq.numPromptTokens
      rw [hprefilled, hprompt, h.prefilled]
    · show 0 < seq.numPromptTokens ∧ seq.numPromptTokens < seq.numTokens
      rw [hprompt]
      exact ⟨h.accepted.1, Nat.lt_of_lt_of_le h.accepted.2 htokens⟩
    · show 0 < seq.chainReusedTokens
      rw [hreused]
      exact h.reused (hresumed ▸ hchain)
    · show seq.chainReusedTokens = 0
      rw [hreused]
      exact h.plain (hresumed ▸ hchain)
  unfold decodeStep at step
  simp only at step
  rw [← hlayers] at step
  split at step
  · next hreplay =>
    unfold Sequence.advanceRecomputeReplay Sequence.finishRecomputeReplay at step
    simp only at step
    split at step
    · cases step
    · next seq hadvance =>
      cases step
      split at hadvance
      · cases hadvance
      · split at hadvance
        · split at hadvance
          · cases hadvance
          · cases hadvance
            exact hkeep _ rfl rfl (Nat.le_refl _) rfl rfl
        · cases hadvance
          exact hkeep _ rfl rfl (Nat.le_refl _) rfl rfl
  · cases step
    exact hkeep _ rfl rfl (Nat.le_succ _) rfl rfl

theorem preemptRequest_waiting {s : SnapKv B} (h : s.Decoding cfg) :
    (preemptRequest s).Waiting cfg ∧
      (preemptRequest s).seq.numPrefilledTokens = (preemptRequest s).start := by
  have hcompletion : 0 < s.seq.toSequence.numCompletionTokens := Nat.sub_pos_of_lt h.accepted.2
  have hpreempt : preemptRequest s = { seq := { s.seq with
      toSequence := s.seq.toSequence.startRecomputeReplay.clearPrefixCacheHit } } := by
    unfold preemptRequest
    simp only
    rw [if_pos hcompletion]
  have hresume : (preemptRequest s).seq.isChainResume = false := by
    rw [hpreempt]
    exact Bool.and_false _
  have hstart : (preemptRequest s).start = 0 := start_eq_zero hresume
  have hprefilled : (preemptRequest s).seq.numPrefilledTokens = 0 := by
    rw [hpreempt]
    rfl
  refine ⟨⟨?_, ?_, ?_, fun _ => ?_, ?_, ?_, ?_, fun _ => rfl, fun h => ?_, fun _ _ _ => ?_,
    fun _ _ _ => rfl, nofun, fun _ hbegun => ?_, fun _ => Or.inl ?_⟩, ?_⟩
  · rw [hprefilled, hpreempt]
    exact h.accepted.1
  · rw [hprefilled, hstart]
  · rw [hpreempt]
    exact h.accepted.2.le
  · rw [hpreempt]
    exact h.accepted.2
  · rw [hpreempt]
    exact h.reused
  · rw [hpreempt]
    exact h.plain
  · rw [hstart, hpreempt]
    rfl
  · rw [hresume] at h
    cases h
  · rw [hprefilled]
    rfl
  · exact absurd (hprefilled.trans hstart.symm) hbegun
  · rw [hprefilled, hstart]
  · rw [hprefilled, hstart]

theorem SnapKv.resume_waiting {s : SnapKv B} {tokens : List Nat} (h : s.Decoding cfg)
    (suffix : s.seq.numTokens - 1 < tokens.length) : (s.resume tokens).Waiting cfg := by
  have haccepted := h.accepted
  refine ⟨suffix, Nat.le_refl _, Nat.le_refl _, nofun, fun _ => ?_, nofun, rfl, h.unscored,
    fun _ => h.rows, nofun, h.uniform, fun p hp => ?_, fun _ hbegun => absurd rfl hbegun,
    fun _ => Or.inl rfl⟩
  · show 0 < s.seq.numTokens - 1
    omega
  · rw [show (s.resume tokens).rawOffloadPhase = none from h.phase] at hp
    cases hp

/-- Over its life a request waits, with the chunks of its prefill behind it, or is prefilled. -/
theorem SnapKv.Reachable.phases (window : 0 < cfg.snapkvWindowSize) {s : SnapKv B}
    {chunks : List Nat} (reach : SnapKv.Reachable cfg s chunks) :
    s.Decoding cfg ∨ s.Waiting cfg ∧ s.seq.numPrefilledTokens = s.start + chunks.sum ∧
      ∀ chunk ∈ chunks, 0 < chunk := by
  induction reach with
  | fresh nonempty => exact Or.inr ⟨SnapKv.fresh_waiting nonempty, rfl, nofun⟩
  | @prefill s s' chunks budget batchFits sample chunk _ waiting step ih =>
    rcases ih with hdecoding | ⟨hwaiting, hsum, hpos⟩
    · exact absurd hdecoding.prefilled (Nat.ne_of_lt waiting)
    obtain ⟨hdecoding | ⟨hwaiting', hstart⟩, -, hprefilled⟩ :=
      (prefillStep_spec hwaiting window budget batchFits sample).ok_of_eq step
    · exact Or.inl hdecoding
    refine Or.inr ⟨hwaiting', ?_, fun other hother => ?_⟩
    · rw [hprefilled, hsum, hstart]
      split
      · next hzero =>
        rw [hzero]
        rfl
      · rw [List.sum_append, List.sum_singleton, Nat.add_assoc]
    · split at hother
      · exact hpos other hother
      · next hne =>
        rcases List.mem_append.mp hother with hold | hnew
        · exact hpos other hold
        · rw [List.mem_singleton.mp hnew]
          exact Nat.pos_of_ne_zero hne
  | decode _ decoding step ih =>
    rcases ih with hdecoding | ⟨hwaiting, -⟩
    · exact Or.inl (decodeStep_decoding hdecoding step)
    · exact absurd hwaiting.prefilled_lt (Nat.not_lt.mpr decoding)
  | preempt _ decoding ih =>
    rcases ih with hdecoding | ⟨hwaiting, -⟩
    · obtain ⟨hwaiting, hprefilled⟩ := preemptRequest_waiting hdecoding
      exact Or.inr ⟨hwaiting, hprefilled, nofun⟩
    · exact absurd hwaiting.prefilled_lt (Nat.not_lt.mpr decoding)
  | resume _ finished _ suffix ih =>
    rcases ih with hdecoding | ⟨hwaiting, -⟩
    · exact Or.inr ⟨SnapKv.resume_waiting hdecoding suffix, rfl, nofun⟩
    · exact absurd hwaiting.prefilled_lt (Nat.not_lt.mpr finished)

/-- What a layer has when the last chunk has been through its attention. -/
structure LastChunkLayer (cfg : SnapKvConfig) (s : SnapKv B) (chunk : Nat) (staging : Staging)
    (layer : Nat) (step : LayerStep) : Prop where
  context : step.contextLen = s.finalLen layer
  row : staging = .off → step.row.rowLen = some step.contextLen
  /-- The length that the eviction compares with the budget. -/
  evicted : staging = .off → evictionKvLen s.seq chunk layer step = .ok step.contextLen
  scored : ∀ budget, getLayerBudget cfg layer = some budget → budget < step.contextLen →
    step.row.scores = some step.contextLen

theorem lastChunkLayer {s : SnapKv B} {chunk layer : Nat} {staging : Staging} {step : LayerStep}
    (h : s.Chunked cfg chunk staging) (last : chunk = s.seq.remainingPrefillTokens)
    (hstep : Prepared cfg s chunk staging layer step) :
    LastChunkLayer cfg s chunk staging layer { step with row := { step.row with scores :=
      (if chunk = s.seq.remainingPrefillTokens ∧ sparseBudget cfg layer < step.contextLen then
        some step.contextLen
      else none) } } := by
  have hcontext := hstep.context last
  refine ⟨hcontext, fun hoff => (hstep.appended hoff).1, fun hoff => ?_,
    fun budget hbudget hlong => ?_⟩
  · unfold evictionKvLen
    by_cases hresume : s.seq.isChainResume = true
    · rw [if_pos hresume]
      unfold chainPhysicalKvLen
      simp only
      rw [(hstep.appended hoff).1]
    · have hlt := h.waiting.prefilled_lt
      have hremaining : s.seq.remainingPrefillTokens =
        s.seq.numPromptTokens - s.seq.numPrefilledTokens := rfl
      rw [if_neg hresume]
      simp only [hcontext]
      unfold SnapKv.finalLen
      rw [if_neg hresume]
      exact congrArg _ (by omega)
  · rw [getLayerBudget_eq] at hbudget
    cases hbudget
    exact if_pos ⟨last, hlong⟩

/-- SnapKV has its scores when it must evict: the chunks of a prefill add up to its tokens, the last
one covers the window if a row will be longer than its budget, and no step of the prefill is stopped
by its scores. -/
theorem scores_when_evicting (window : 0 < cfg.snapkvWindowSize) {s : SnapKv B} {chunks : List Nat}
    (reach : SnapKv.Reachable cfg s chunks)
    (waiting : s.seq.numPrefilledTokens < s.seq.numPromptTokens)
    (budget : StepBudget) (batchFits : Bool) (sample : Sample) :
    s.seq.numPrefilledTokens = s.start + chunks.sum ∧ (∀ chunk ∈ chunks, 0 < chunk) ∧
    (∀ chunk s', prefillStep cfg budget batchFits sample s = .ok (chunk, s') →
      s'.seq.numPromptTokens = s.seq.numPromptTokens ∧
      s'.seq.numPrefilledTokens = s.start + chunks.sum + chunk ∧
      s'.seq.numPrefilledTokens ≤ s'.seq.numPromptTokens) ∧
    (∀ error, prefillStep cfg budget batchFits sample s = .error error → KeepsNothing error) ∧
    ∀ chunk staging t, schedulePrefill cfg budget batchFits s = .ok (some (chunk, staging), t) →
      0 < chunk ∧ chunk ≤ t.seq.remainingPrefillTokens ∧ t.suffix = s.suffix ∧
      (chunk = t.seq.remainingPrefillTokens → t.NeedsScore cfg →
        min cfg.snapkvWindowSize t.suffix ≤ chunk) ∧
      ∀ layer < cfg.numKvLayers, ∃ step done,
        prepareLayer staging t.seq chunk layer (t.layers layer) = .ok step ∧
        collectPrefillAttentionScore cfg staging t.seq chunk layer step = .ok done ∧
        (chunk = t.seq.remainingPrefillTokens →
          LastChunkLayer cfg t chunk staging layer done) := by
  rcases reach.phases window with hdecoding | ⟨hwaiting, hsum, hpos⟩
  · exact absurd hdecoding.prefilled (Nat.ne_of_lt waiting)
  have hspec := prefillStep_spec hwaiting window budget batchFits sample
  refine ⟨hsum, hpos, fun chunk s' hrun => ?_, fun error herror => hspec.error_of_eq herror, ?_⟩
  · obtain ⟨hphase, hprompt, hprefilled⟩ := hspec.ok_of_eq hrun
    refine ⟨hprompt, hsum ▸ hprefilled, ?_⟩
    rcases hphase with hdecoding | ⟨hwaiting', -⟩
    · exact hdecoding.prefilled.le
    · exact hwaiting'.prefilled_lt.le
  intro chunk staging t hrun
  obtain ⟨phase, ⟨hnone, -⟩ | ⟨chunk', staging', hsome, hchunked⟩⟩ :=
    schedulePrefill_spec hwaiting window budget batchFits
  · rw [hnone] at hrun
    cases hrun
  rw [hsome] at hrun
  cases hrun
  refine ⟨hchunked.chunk_pos, hchunked.chunk_le, rfl, window_in_last_chunk hchunked, ?_⟩
  intro layer hlayer
  obtain ⟨step, hprepare, hstep⟩ := prepareLayer_spec hchunked hlayer
  exact ⟨step, _, hprepare, collectScores_spec hchunked window hlayer hstep,
    fun hlast => lastChunkLayer hchunked hlast hstep⟩

/-! ## Short last chunks and missing windows -/

/-- SnapKV with one layer, a chunk of four tokens, and room for `kept` tokens between one sink token
and one recent token. -/
def oneLayer (window kept : Nat) (window_le : window ≤ 4) : SnapKvConfig where
  maxNumSeqsInBatch := 1
  maxNumBatchedTokens := 16
  maxDecodingSeqs := 1
  enginePrefillChunkSize := 4
  sparseMethod := .snapkv
  sinkKeepTokens := 1
  recentKeepTokens := 1
  decodeKeepTokens := kept
  snapkvWindowSize := window
  snapkvNumFullLayers := 0
  numKvLayers := 1
  pyramidTopTokens _ := 0
  longBs1FullShortBatch := false
  longPrefillOffloadThreshold := 0
  method := Or.inl rfl
  noFullLayers := rfl
  window_le := window_le
  layers_pos := Nat.one_pos

/-- Room for sixteen tokens. -/
def ampleBudget : StepBudget := ⟨0, 16⟩

/-- A prompt of six tokens. -/
def sixTokens : SnapKv Nat := .fresh [10, 11, 12, 13, 14, 15]

/-- Its first chunk. -/
def firstChunk (window kept : Nat) (window_le : window ≤ 4) : SnapKv Nat :=
  match prefillStep (oneLayer window kept window_le) ampleBudget true ⟨0, none, none⟩ sixTokens with
  | .ok (_, s) => s
  | .error _ => sixTokens

theorem scores_when_evicting_six :
    SnapKv.Reachable (oneLayer 2 1 (by decide)) (firstChunk 2 1 (by decide)) [4] ∧ ∀ error,
      prefillStep (oneLayer 2 1 (by decide)) ampleBudget true ⟨0, none, none⟩
        (firstChunk 2 1 (by decide)) = .error error → KeepsNothing error :=
  have step : prefillStep (oneLayer 2 1 (by decide)) ampleBudget true ⟨0, none, none⟩ sixTokens =
    .ok (4, firstChunk 2 1 (by decide)) := rfl
  have reach : SnapKv.Reachable (oneLayer 2 1 (by decide)) (firstChunk 2 1 (by decide)) [4] :=
    .prefill (.fresh (by decide)) (by decide) step
  ⟨reach, (scores_when_evicting (by decide) reach (by decide) _ _ _).2.2.2.1⟩

/-- A prompt that fits its budget has a last chunk shorter than the window, and without a window the
eviction finds no scores. -/
theorem short_last_chunk_or_no_scores :
    (∃ s t : SnapKv Nat, SnapKv.Reachable (oneLayer 4 10 (by decide)) s [4] ∧
      schedulePrefill (oneLayer 4 10 (by decide)) ampleBudget true s = .ok (some (2, .off), t) ∧
      t.seq.remainingPrefillTokens = 2 ∧ 2 < min 4 t.suffix) ∧
    ∃ s : SnapKv Nat, SnapKv.Reachable (oneLayer 0 1 (by decide)) s [4] ∧
      s.seq.numPrefilledTokens < s.seq.numPromptTokens ∧
      prefillStep (oneLayer 0 1 (by decide)) ampleBudget true ⟨0, none, none⟩ s =
        .error (.missingEvictionScores 0) :=
  have short : prefillStep (oneLayer 4 10 (by decide)) ampleBudget true ⟨0, none, none⟩ sixTokens =
    .ok (4, firstChunk 4 10 (by decide)) := rfl
  have unscored : prefillStep (oneLayer 0 1 (by decide)) ampleBudget true ⟨0, none, none⟩
    sixTokens = .ok (4, firstChunk 0 1 (by decide)) := rfl
  ⟨⟨_, _, .prefill (.fresh (by decide)) (by decide) short, rfl, by decide, by decide⟩,
    ⟨_, .prefill (.fresh (by decide)) (by decide) unscored, by decide, rfl⟩⟩

end SparseVllm
