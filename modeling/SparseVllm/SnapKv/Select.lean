import Mathlib.Data.List.GetD
import Mathlib.Order.Nat
import SparseVllm.Lib.TopK

/-!
# What SnapKV keeps of a row (`_snapkv_select_indices`, `_prepare_compaction_keep_indices`)

The sinks, the recent tokens and the highest scores of the middle are kept. With a pooling kernel
above 1 the middle is pooled first, padded by half a kernel on both ends. An odd kernel leaves its
length alone. An even one adds a position, and picking it keeps the first recent token a second
time, or a position past the row.

The scores are from any linear order with a bottom, which stands for minus infinity: NaN is left
out. `topk` is any choice of the largest values.

## Results

* `selectedFor_iff`: when every choice of `topk` selects `budget` valid positions.
* **`selections_valid_iff`**: the same for a batch, and that its rows are those of the single form.
-/

namespace SparseVllm

open SparseVllm.Lib

variable {R : Type} [LinearOrder R] [OrderBot R]

/-! ## Selection -/

/-- What `_snapkv_select_indices` and its batched form raise. -/
inductive SelectError where
  | kvLenWithinBudget
  | shortScores (kvLen : Nat)
  deriving DecidableEq, Repr

/-- `torch.arange(start, start + n)`. -/
def arange (start : Int) (n : Nat) : List Int :=
  (List.range n).map fun i : Nat => start + (i : Int)

/-- `middle_scores`, pooled. -/
def pooledMiddle (numSink : Nat) (recentStart : Int) (poolKernelSize : Nat) (scores : List R) :
    List R :=
  let middleScores := (scores.take recentStart.toNat).drop numSink
  if 1 < poolKernelSize then maxPool1d poolKernelSize (poolKernelSize / 2) middleScores
  else middleScores

/-- The indices of a row, the checks passed. -/
def selectedIndices (topk : Lib.TopK R) (numSink numRecent : Nat) (scores : List R)
    (kvLen budget poolKernelSize : Nat) : List Int :=
  let recentStart : Int := kvLen - numRecent
  let numTopk : Int := budget - numSink - numRecent
  if 0 < numTopk ∧ numSink < recentStart then
    let middleScores := pooledMiddle numSink recentStart poolKernelSize scores
    let topkIndices := topk.pick middleScores (min numTopk.toNat middleScores.length)
    arange 0 numSink ++ topkIndices.map (fun i => (i.val : Int) + numSink) ++
      arange recentStart numRecent
  else arange 0 numSink ++ arange recentStart numRecent

/-- `_snapkv_select_indices`. -/
def snapkvSelectIndices (topk : Lib.TopK R) (numSink numRecent : Nat) (scores : List R)
    (kvLen budget poolKernelSize : Nat) : Except SelectError (List Int) :=
  if kvLen ≤ budget then .error .kvLenWithinBudget
  else .ok (selectedIndices topk numSink numRecent scores kvLen budget poolKernelSize)

/-- `_snapkv_select_indices_batch`: `topk` chooses for each row. -/
def snapkvSelectIndicesBatch (topk : Nat → Lib.TopK R) (numSink numRecent : Nat)
    (scores : List (List R)) (kvLen budget poolKernelSize : Nat) :
    Except SelectError (List (List Int)) :=
  if kvLen ≤ budget then .error .kvLenWithinBudget
  else if ∃ row ∈ scores, row.length < kvLen then .error (.shortScores kvLen)
  else .ok (scores.mapIdx fun b row =>
    selectedIndices (topk b) numSink numRecent row kvLen budget poolKernelSize)

/-! ## Validation -/

/-- What `_prepare_compaction_keep_indices` raises. -/
inductive KeepIndicesError where
  | outOfBounds
  | notUnique
  deriving DecidableEq, Repr

/-- `torch.sort(keep_indices).values`, unless they are sorted. -/
def sortedKeep (keepIndicesSorted : Bool) (keep : List Int) : List Int :=
  if keepIndicesSorted then keep else keep.mergeSort fun i j => decide (i ≤ j)

/-- `_prepare_compaction_keep_indices`, on the rows of the last dimension with their lengths. -/
def prepareCompactionKeepIndices (keepIndicesSorted : Bool) (rows : List (List Int × Nat)) :
    Except KeepIndicesError (List (List Int)) :=
  let keepIndices := rows.map fun row => sortedKeep keepIndicesSorted row.1
  if ∃ row ∈ rows, ∃ i ∈ row.1, ¬ (0 ≤ i ∧ i < row.2) then .error .outOfBounds
  else if ∃ keep ∈ keepIndices, ¬ keep.IsChain (· < ·) then .error .notUnique
  else .ok keepIndices

/-! ## What a selection is for -/

/-- `budget` distinct positions of the row, among them the sinks and the recent tokens. -/
structure ValidSelection (numSink numRecent kvLen budget : Nat) (keep : List Int) : Prop where
  length : keep.length = budget
  nodup : keep.Nodup
  inRange : ∀ i ∈ keep, 0 ≤ i ∧ i < kvLen
  sinks : ∀ i : Int, 0 ≤ i → i < numSink → i ∈ keep
  recents : ∀ i : Int, (kvLen : Int) - numRecent ≤ i → i < kvLen → i ∈ keep

/-- The slots of a row at the kept positions. -/
def keptSlots (slots : List Nat) (keep : List Int) : List Nat :=
  keep.map fun i => slots.getD i.toNat 0

/-- Sorting and compacting by a selection passes the check and keeps no slot twice. -/
def Compacts (kvLen : Nat) (keep : List Int) : Prop :=
  ∃ sorted, prepareCompactionKeepIndices false [(keep, kvLen)] = .ok [sorted] ∧
    ∀ slots : List Nat, kvLen ≤ slots.length → slots.Nodup → (keptSlots slots sorted).Nodup

variable {numSink numRecent kvLen budget kernel : Nat}

theorem ValidSelection.compacts {keep : List Int}
    (h : ValidSelection numSink numRecent kvLen budget keep) : Compacts kvLen keep := by
  have hperm : (sortedKeep false keep).Perm keep := List.mergeSort_perm _ _
  have hnodup : (sortedKeep false keep).Nodup := hperm.nodup_iff.mpr h.nodup
  have hsorted : (sortedKeep false keep).Pairwise fun i j => i ≤ j :=
    List.pairwise_mergeSort (by simpa using fun _ _ _ => le_trans)
      (by simpa using fun i j => le_total i j) keep |>.imp fun hle => of_decide_eq_true hle
  have hchain : (sortedKeep false keep).IsChain (· < ·) :=
    (hsorted.imp₂ (fun _ _ hle hne => lt_of_le_of_ne hle hne) hnodup).isChain
  refine ⟨sortedKeep false keep, ?_, fun slots hlen hslots => ?_⟩
  · unfold prepareCompactionKeepIndices
    simp only [List.mem_singleton, exists_eq_left, List.map_cons, List.map_nil]
    rw [if_neg (by push Not; exact h.inRange), if_neg (not_not.mpr hchain)]
  · unfold keptSlots
    refine List.Nodup.map_on (fun i hi j hj hij => ?_) hnodup
    obtain ⟨hi0, hilt⟩ := h.inRange i (hperm.mem_iff.mp hi)
    obtain ⟨hj0, hjlt⟩ := h.inRange j (hperm.mem_iff.mp hj)
    rw [List.getD_eq_getElem _ _ (by omega), List.getD_eq_getElem _ _ (by omega)] at hij
    have := (List.Nodup.getElem_inj_iff hslots).mp hij
    omega

/-! ## Which selections are valid -/

theorem mem_arange {start i : Int} {n : Nat} :
    i ∈ arange start n ↔ start ≤ i ∧ i < start + n := by
  unfold arange
  rw [List.mem_map]
  constructor
  · rintro ⟨j, hj, rfl⟩
    have := List.mem_range.mp hj
    omega
  · rintro ⟨hlo, hhi⟩
    exact ⟨(i - start).toNat, List.mem_range.mpr (by omega), by omega⟩

theorem nodup_arange (start : Int) (n : Nat) : (arange start n).Nodup :=
  List.nodup_range.map fun i j (h : start + (i : Int) = start + (j : Int)) => by omega

@[simp] theorem length_arange (start : Int) (n : Nat) : (arange start n).length = n := by
  simp [arange]

/-- The three parts of a selection. -/
def parts (numSink numRecent kvLen : Nat) (picked : List Nat) : List Int :=
  arange 0 numSink ++ picked.map (fun i : Nat => (i : Int) + numSink) ++
    arange ((kvLen : Int) - numRecent) numRecent

/-- The parts are a valid selection when the picked positions are in the middle. -/
theorem parts_valid_iff {picked : List Nat} (hnodup : picked.Nodup)
    (hlen : numSink + picked.length + numRecent = budget) (hfit : numSink + numRecent ≤ kvLen) :
    ValidSelection numSink numRecent kvLen budget (parts numSink numRecent kvLen picked) ↔
      ∀ i ∈ picked, i < kvLen - numRecent - numSink := by
  constructor
  · intro h i hi
    by_contra hout
    have hmem : (i : Int) + numSink ∈ picked.map (fun i : Nat => (i : Int) + numSink) :=
      List.mem_map.mpr ⟨i, hi, rfl⟩
    have hrange := h.inRange _ (List.mem_append_left _ (List.mem_append_right _ hmem))
    have hrecent : (i : Int) + numSink ∈ arange ((kvLen : Int) - numRecent) numRecent :=
      mem_arange.mpr (by omega)
    exact (List.nodup_append.mp h.nodup).2.2 _ (List.mem_append_right _ hmem) _ hrecent rfl
  · intro h
    have hmiddle : ∀ x ∈ picked.map (fun i : Nat => (i : Int) + numSink),
        numSink ≤ x ∧ x < (kvLen : Int) - numRecent := by
      intro x hx
      obtain ⟨i, hi, rfl⟩ := List.mem_map.mp hx
      have := h i hi
      omega
    constructor
    · unfold parts
      simp only [List.length_append, length_arange, List.length_map]
      omega
    · refine List.nodup_append.mpr ⟨List.nodup_append.mpr ⟨nodup_arange _ _, ?_, ?_⟩,
        nodup_arange _ _, ?_⟩
      · exact hnodup.map fun i j (hij : (i : Int) + numSink = (j : Int) + numSink) => by omega
      · rintro x hx y hy rfl
        have := mem_arange.mp hx
        have := hmiddle x hy
        omega
      · rintro x hx y hy rfl
        have hy := mem_arange.mp hy
        rcases List.mem_append.mp hx with hx | hx
        · have := mem_arange.mp hx
          omega
        · have := hmiddle x hx
          omega
    · intro x hx
      unfold parts at hx
      simp only [List.mem_append, mem_arange] at hx
      rcases hx with (hx | hx) | hx
      · omega
      · have := hmiddle x hx
        omega
      · omega
    · intro i hlo hhi
      exact List.mem_append_left _ (List.mem_append_left _ (mem_arange.mpr (by omega)))
    · intro i hlo hhi
      exact List.mem_append_right _ (mem_arange.mpr (by omega))

/-! ## When every choice is valid -/

/-- The middle of a row, before pooling. -/
def middleScores (numSink numRecent kvLen : Nat) (scores : List R) : List R :=
  (scores.take (kvLen - numRecent)).drop numSink

/-- The windows that hold a score above all of the last `kernel / 2`. -/
def outscoredWindows (kernel : Nat) (middle : List R) : Nat :=
  (List.range middle.length).countP fun i => (window kernel (kernel / 2) middle i).any fun x =>
    (middle.drop (middle.length - kernel / 2)).all fun y => decide (y < x)

/-- Nothing is selected by score, or the kernel is odd, or enough windows of the middle score above
its end. -/
def SelectionFits (numSink numRecent kvLen budget kernel : Nat) (scores : List R) : Prop :=
  budget = numSink + numRecent ∨ kernel % 2 = 1 ∨
    budget - numSink - numRecent ≤
      outscoredWindows kernel (middleScores numSink numRecent kvLen scores)

/-- The middle as `topk` sees it. -/
def pooled (numSink numRecent kvLen kernel : Nat) (scores : List R) : List R :=
  let middle := middleScores numSink numRecent kvLen scores
  if 1 < kernel then maxPool1d kernel (kernel / 2) middle else middle

variable {scores : List R}

omit [LinearOrder R] [OrderBot R] in
theorem length_middleScores (hlen : kvLen ≤ scores.length) :
    (middleScores numSink numRecent kvLen scores).length = kvLen - numRecent - numSink := by
  unfold middleScores
  rw [List.length_drop, List.length_take]
  omega

/-- An even kernel adds a position. -/
theorem length_pooled (hlen : kvLen ≤ scores.length) (hkernel : 1 ≤ kernel) :
    (pooled numSink numRecent kvLen kernel scores).length =
      kvLen - numRecent - numSink + (1 - kernel % 2) := by
  have hmiddle : (middleScores numSink numRecent kvLen scores).length =
      kvLen - numRecent - numSink := length_middleScores hlen
  unfold pooled
  split
  · rw [length_maxPool1d, hmiddle]
    omega
  · rw [hmiddle]
    omega

omit [LinearOrder R] [OrderBot R] in
theorem window_last (kernel : Nat) (middle : List R) :
    window kernel (kernel / 2) middle middle.length =
      middle.drop (middle.length - kernel / 2) := by
  unfold window
  rw [List.take_of_length_le (by omega)]

theorem countP_finRange {n : Nat} (p : Nat → Bool) :
    (List.finRange n).countP (fun i => p i.val) = (List.range n).countP p := by
  rw [← List.map_coe_finRange_eq_range, List.countP_map]
  rfl

/-- The values above the position an even kernel adds. -/
theorem outscoring_last {middle : List R} (heven : kernel % 2 = 0) (hkernel : 1 < kernel)
    (hmiddle : middle ≠ []) {m : Fin (maxPool1d kernel (kernel / 2) middle).length}
    (hm : m.val = middle.length) :
    outscoring (maxPool1d kernel (kernel / 2) middle) m = outscoredWindows kernel middle := by
  have hlen : (maxPool1d kernel (kernel / 2) middle).length = middle.length + 1 := by
    rw [length_maxPool1d]
    omega
  have hne : middle.drop (middle.length - kernel / 2) ≠ [] := by
    rw [ne_eq, List.drop_eq_nil_iff]
    have := List.length_pos_iff.mpr hmiddle
    omega
  have habove : ∀ i : Fin (maxPool1d kernel (kernel / 2) middle).length,
      decide ((maxPool1d kernel (kernel / 2) middle).get m <
        (maxPool1d kernel (kernel / 2) middle).get i) =
        (window kernel (kernel / 2) middle i.val).any fun x =>
          (middle.drop (middle.length - kernel / 2)).all fun y => decide (y < x) := by
    intro i
    rw [get_maxPool1d, get_maxPool1d, hm, window_last, Bool.eq_iff_iff, decide_eq_true_eq,
      lt_foldr_max_iff]
    simp only [foldr_max_lt_iff hne, List.any_eq_true, List.all_eq_true, decide_eq_true_eq]
  -- The added position is not above itself.
  have hself : ((window kernel (kernel / 2) middle middle.length).any fun x =>
      (middle.drop (middle.length - kernel / 2)).all fun y => decide (y < x)) = false := by
    have hlast := habove m
    rw [hm] at hlast
    rw [← hlast]
    exact decide_eq_false (lt_irrefl _)
  unfold outscoring outscoredWindows
  simp only [habove]
  rw [countP_finRange fun i => (window kernel (kernel / 2) middle i).any fun x =>
      (middle.drop (middle.length - kernel / 2)).all fun y => decide (y < x),
    hlen, List.range_succ, List.countP_append, List.countP_singleton, hself]
  rfl

theorem outscoring_of_eq {values middle : List R}
    (hvalues : values = maxPool1d kernel (kernel / 2) middle) (heven : kernel % 2 = 0)
    (hkernel : 1 < kernel) (hmiddle : middle ≠ []) {m : Fin values.length}
    (hm : m.val = middle.length) : outscoring values m = outscoredWindows kernel middle := by
  subst hvalues
  exact outscoring_last heven hkernel hmiddle hm

theorem pooledMiddle_eq (hrecent : numRecent ≤ kvLen) :
    pooledMiddle numSink ((kvLen : Int) - numRecent) kernel scores =
      pooled numSink numRecent kvLen kernel scores := by
  have hstart : ((kvLen : Int) - numRecent).toNat = kvLen - numRecent := by omega
  unfold pooledMiddle pooled middleScores
  rw [hstart]

section Domain

variable (hbudget : budget < kvLen) (hkeep : numSink + numRecent ≤ budget)
  (hlen : kvLen ≤ scores.length) (hkernel : 1 ≤ kernel)

include hbudget hkeep hlen hkernel

theorem topk_le_pooled :
    budget - numSink - numRecent ≤ (pooled numSink numRecent kvLen kernel scores).length := by
  rw [length_pooled hlen hkernel]
  omega

theorem selectedIndices_eq (topk : Lib.TopK R) :
    selectedIndices topk numSink numRecent scores kvLen budget kernel =
      parts numSink numRecent kvLen
        ((topk.pick (pooled numSink numRecent kvLen kernel scores)
          (budget - numSink - numRecent)).map Fin.val) := by
  have hle := topk_le_pooled hbudget hkeep hlen hkernel
  have hpick := topk.spec (pooled numSink numRecent kvLen kernel scores) _ hle
  unfold selectedIndices parts
  simp only
  rw [pooledMiddle_eq (by omega)]
  by_cases hpos : 0 < budget - numSink - numRecent
  · have htopk : ((budget : Int) - numSink - numRecent).toNat = budget - numSink - numRecent := by
      omega
    rw [if_pos (by omega), htopk, Nat.min_eq_left hle, List.map_map]
    rfl
  · have hnil : topk.pick (pooled numSink numRecent kvLen kernel scores)
        (budget - numSink - numRecent) = [] :=
      List.eq_nil_of_length_eq_zero (by rw [hpick.length]; omega)
    rw [if_neg (by omega), hnil]
    simp

/-- A selection is valid when its choice stays in the middle. -/
theorem selectedIndices_valid_iff (topk : Lib.TopK R) :
    ValidSelection numSink numRecent kvLen budget
        (selectedIndices topk numSink numRecent scores kvLen budget kernel) ↔
      ∀ i ∈ topk.pick (pooled numSink numRecent kvLen kernel scores)
        (budget - numSink - numRecent), i.val < kvLen - numRecent - numSink := by
  have hpick := topk.spec _ _ (topk_le_pooled hbudget hkeep hlen hkernel)
  rw [selectedIndices_eq hbudget hkeep hlen hkernel]
  refine (parts_valid_iff (hpick.nodup.map Fin.val_injective) ?_ (by omega)).trans ?_
  · rw [List.length_map, hpick.length]
    omega
  · simp only [List.forall_mem_map]

/-- **Every choice is valid exactly when the selection fits.** -/
theorem selectedIndices_fits_iff :
    (∀ topk : Lib.TopK R, ValidSelection numSink numRecent kvLen budget
        (selectedIndices topk numSink numRecent scores kvLen budget kernel)) ↔
      SelectionFits numSink numRecent kvLen budget kernel scores := by
  have hpooled : (pooled numSink numRecent kvLen kernel scores).length =
      kvLen - numRecent - numSink + (1 - kernel % 2) := length_pooled hlen hkernel
  have hle := topk_le_pooled hbudget hkeep hlen hkernel
  simp only [selectedIndices_valid_iff hbudget hkeep hlen hkernel]
  by_cases hnone : budget = numSink + numRecent
  · refine iff_of_true (fun topk i hi => ?_) (Or.inl hnone)
    have hpick := topk.spec _ _ hle
    have hnil := List.eq_nil_of_length_eq_zero (hpick.length.trans (by omega))
    rw [hnil] at hi
    cases hi
  by_cases hodd : kernel % 2 = 1
  · refine iff_of_true (fun topk i _ => ?_) (Or.inr (Or.inl hodd))
    have := i.isLt
    omega
  -- The position an even kernel adds is the only one outside the middle.
  have hmiddle : (middleScores numSink numRecent kvLen scores).length =
      kvLen - numRecent - numSink := length_middleScores hlen
  have hone : 1 < kernel := by omega
  have hpos : 0 < kvLen - numRecent - numSink := by omega
  let last : Fin (pooled numSink numRecent kvLen kernel scores).length :=
    ⟨kvLen - numRecent - numSink, by omega⟩
  have hlast : ∀ i : Fin (pooled numSink numRecent kvLen kernel scores).length,
      i.val < kvLen - numRecent - numSink ↔ i ≠ last := by
    intro i
    rw [ne_eq, Fin.ext_iff]
    have := i.isLt
    show _ ↔ ¬ i.val = kvLen - numRecent - numSink
    omega
  have hcount : outscoring (pooled numSink numRecent kvLen kernel scores) last =
      outscoredWindows kernel (middleScores numSink numRecent kvLen scores) :=
    outscoring_of_eq (if_pos hone) (by omega) hone (List.length_pos_iff.mp (by omega)) hmiddle.symm
  have hfits : SelectionFits numSink numRecent kvLen budget kernel scores ↔
      budget - numSink - numRecent ≤
        outscoring (pooled numSink numRecent kvLen kernel scores) last := by
    unfold SelectionFits
    rw [hcount]
    exact ⟨fun h => (h.resolve_left hnone).resolve_left hodd, fun h => Or.inr (Or.inr h)⟩
  rw [hfits]
  constructor
  · intro h
    by_contra hfew
    exact (hlast last).mp (h (.favouring last.val) last (mem_favouring hle (by omega))) rfl
  · intro h topk i hi
    rw [hlast]
    rintro rfl
    exact (topk.spec _ _ hle).not_mem_of_outscored h hi

end Domain

/-! ## The two forms -/

/-- What is asked of the selection of one row. -/
structure SelectsWell (numSink numRecent kvLen budget : Nat) (keep : List Int) : Prop where
  valid : ValidSelection numSink numRecent kvLen budget keep
  compacts : Compacts kvLen keep

/-- **Selections are valid exactly when they fit**: every choice of `topk` gives the single form a
valid selection of a row exactly when the row fits, and gives the batched form, row by row, the
selections of the single form, valid ones exactly when all the rows fit. -/
theorem selections_valid_iff (hbudget : budget < kvLen) (hkeep : numSink + numRecent ≤ budget)
    (hkernel : 1 ≤ kernel) {rows : List (List R)} (hrows : ∀ row ∈ rows, kvLen ≤ row.length) :
    (∀ row ∈ rows, (∀ topk : Lib.TopK R, ∃ keep,
        snapkvSelectIndices topk numSink numRecent row kvLen budget kernel = .ok keep ∧
        SelectsWell numSink numRecent kvLen budget keep) ↔
      SelectionFits numSink numRecent kvLen budget kernel row) ∧
    ((∀ topk : Nat → Lib.TopK R, ∃ keeps,
        snapkvSelectIndicesBatch topk numSink numRecent rows kvLen budget kernel = .ok keeps ∧
        keeps.length = rows.length ∧
        ∀ (b : Nat) (row : List R) (keep : List Int), rows[b]? = some row → keeps[b]? = some keep →
          snapkvSelectIndices (topk b) numSink numRecent row kvLen budget kernel = .ok keep ∧
          SelectsWell numSink numRecent kvLen budget keep) ↔
      ∀ row ∈ rows, SelectionFits numSink numRecent kvLen budget kernel row) := by
  have hsingle : ∀ (topk : Lib.TopK R) (row : List R),
      snapkvSelectIndices topk numSink numRecent row kvLen budget kernel =
        .ok (selectedIndices topk numSink numRecent row kvLen budget kernel) :=
    fun topk row => if_neg (not_le.mpr hbudget)
  have hbatch : ∀ topk : Nat → Lib.TopK R,
      snapkvSelectIndicesBatch topk numSink numRecent rows kvLen budget kernel =
        .ok (rows.mapIdx fun b row =>
          selectedIndices (topk b) numSink numRecent row kvLen budget kernel) := by
    intro topk
    unfold snapkvSelectIndicesBatch
    rw [if_neg (not_le.mpr hbudget), if_neg]
    rintro ⟨row, hrow, hshort⟩
    exact absurd (hrows row hrow) (not_le.mpr hshort)
  constructor
  · intro row hrow
    rw [← selectedIndices_fits_iff hbudget hkeep (hrows row hrow) hkernel]
    constructor
    · intro h topk
      obtain ⟨keep, hrun, hwell⟩ := h topk
      obtain rfl := Except.ok.inj ((hsingle topk row).symm.trans hrun)
      exact hwell.valid
    · exact fun h topk => ⟨_, hsingle topk row, h topk, (h topk).compacts⟩
  · constructor
    · intro h row hrow
      rw [← selectedIndices_fits_iff hbudget hkeep (hrows row hrow) hkernel]
      intro topk
      obtain ⟨keeps, hrun, -, hkeeps⟩ := h fun _ => topk
      obtain rfl := Except.ok.inj ((hbatch _).symm.trans hrun)
      obtain ⟨b, hb⟩ := List.mem_iff_getElem?.mp hrow
      refine (hkeeps b row _ hb ?_).2.valid
      rw [List.getElem?_mapIdx, hb, Option.map_some]
    · intro h topk
      refine ⟨_, hbatch topk, List.length_mapIdx, fun b row keep hb hkeep' => ?_⟩
      rw [List.getElem?_mapIdx, hb, Option.map_some] at hkeep'
      obtain rfl := Option.some.inj hkeep'
      have hrow := List.mem_of_getElem? hb
      have hvalid := (selectedIndices_fits_iff hbudget hkeep (hrows row hrow) hkernel).mpr
        (h row hrow) (topk b)
      exact ⟨hsingle (topk b) row, hvalid, hvalid.compacts⟩

theorem selections_valid_iff_oddKernel : SelectionFits 1 1 5 4 3 [0, 1, 2, 9, 0] ∧
    ∀ topk : Lib.TopK Nat, ∃ keep,
      snapkvSelectIndices topk 1 1 [0, 1, 2, 9, 0] 5 4 3 = .ok keep ∧ SelectsWell 1 1 5 4 keep := by
  have hrows : ∀ row ∈ [[0, 1, 2, 9, 0]], 5 ≤ row.length := by decide
  have hfits : SelectionFits 1 1 5 4 3 [0, 1, 2, 9, 0] := Or.inr (Or.inl rfl)
  exact ⟨hfits, ((selections_valid_iff (by decide) (by decide) (by decide) hrows).1 _
    (List.mem_singleton_self _)).mpr hfits⟩

/-- The best score is the last of the middle: a kernel of 2 sees it at two positions, and the second
is the first recent token. -/
theorem selections_invalid_evenKernel : ¬ ∀ topk : Lib.TopK Nat, ∃ keep,
    snapkvSelectIndices topk 1 1 [0, 1, 2, 9, 0] 5 4 2 = .ok keep ∧ SelectsWell 1 1 5 4 keep := by
  intro h
  have hlen : 5 ≤ [0, 1, 2, 9, 0].length := by decide
  have hfits := (selectedIndices_fits_iff (by decide : 4 < 5) (by decide : 1 + 1 ≤ 4) hlen
    (by decide : 1 ≤ 2)).mp fun topk => by
      obtain ⟨keep, hrun, hwell⟩ := h topk
      obtain rfl := Except.ok.inj hrun
      exact hwell.valid
  revert hfits
  unfold SelectionFits
  decide

end SparseVllm
