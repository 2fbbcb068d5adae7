import Mathlib.Data.List.Perm.Subperm
import Mathlib.Data.List.Sort
import Mathlib.Order.WithBot
import SparseVllm.Kernels.TopK
import SparseVllm.Quest.Pages

/-!
# QuEST decode views (`build_decode_view`, `build_decode_compute_view`, `quest_decode_view.py`)

A decode step attends to a view of each row: the pages a layer reads, or for MLA the token slots. A
long batch reads the pages with the best scores and the last page, a short batch every page, and a
batch whose pinned context fits the budget a dense view. `paged_valid_iff` and `token_valid_iff` say
when the view of a row is one of the row's own pages.

Scores are those of a linear order, so none is `-inf` or NaN; `torch.topk` is a `TopK`. The selector
is the Torch provider (the others list the same pages), the finalizers are the kernels, row by row.
Left out: the query, the page scoring and the payload (no page id depends on them).
-/

namespace SparseVllm

/-! ## Budgets -/

namespace QuestGeometry

variable (g : QuestGeometry)

/-- `page_budget_base`. -/
def pageBudgetBase (tokenBudget : Nat) : Nat := max 3 (tokenBudget / g.pageSize)

/-- `max_keep`. -/
def maxKeep (tokenBudget : Nat) : Nat :=
  max tokenBudget (max (g.pageBudgetBase tokenBudget * g.pageSize) g.pageSize)

/-- `max_pages`. -/
def maxPages (maxContextLen : Nat) : Nat := min g.maxPagesPerRow (g.pagesFor maxContextLen)

/-- `prev_budget`. -/
def prevBudget (tokenBudget maxContextLen : Nat) : Nat :=
  min (g.pageBudgetBase tokenBudget - 1) (g.maxPages maxContextLen - 1)

/-- `last_page_len` of a row. -/
def lastPageLen (contextLen : Nat) : Nat :=
  contextLen - (max (g.pagesFor contextLen) 1 - 1) * g.pageSize

end QuestGeometry

/-! ## The views of a row -/

/-- A row of a paged view. -/
structure PagedRow where
  pageTable : List Int
  contextLen : Nat
  pageCount : Nat
  lastPageLen : Nat
  deriving DecidableEq, Repr

/-- A row of a token view. -/
structure TokenRow where
  slots : List Int
  contextLen : Nat
  deriving DecidableEq, Repr

section Views

variable {S : Type} [LinearOrder S] (g : QuestGeometry) (tokenBudget : Nat)

/-- `select` of the Torch provider: the best of the first `length` of `width` columns, `-1` for a
column past them. -/
def selectPages (topk : TopK S) (scores : Nat → S) (table : Nat → Int) (width length k : Nat) :
    List Int :=
  (topk.indices k ((List.range width).map fun col => if col < length then (scores col : WithBot S) else ⊥)).map
    fun col => if length ≤ col then -1 else table col

/-- `_dense_paged_decode_view`. -/
def densePagedRow (table : Nat → Int) (contextLen width : Nat) : PagedRow where
  pageTable := (List.range width).map table
  contextLen := contextLen
  pageCount := g.pagesFor contextLen
  lastPageLen := contextLen - (g.pagesFor contextLen - 1) * g.pageSize

/-- `use_dense` of the finalizers, where the fallback is on. -/
def usesDense (contextLen prevBudget : Nat) : Bool :=
  decide (contextLen ≤ tokenBudget) || decide (max (g.pagesFor contextLen) 1 ≤ prevBudget + 1)

/-- The pages of a sparse row: the selected ones, then the last one. -/
def sparsePage (table : Nat → Int) (contextLen : Nat) (selected : List Int) (j : Nat) : Int :=
  if j < selected.length then selected.getD j 0
  else table (max (g.pagesFor contextLen) 1 - 1)

/-- `finalize_quest_paged_decode_view`. -/
def finalizePagedRow (selected : List Int) (table : Nat → Int) (contextLen width : Nat)
    (useDenseFallback : Bool) : PagedRow :=
  if useDenseFallback && usesDense g tokenBudget contextLen selected.length then
    { pageTable := (List.range width).map fun j =>
        if j < max (g.pagesFor contextLen) 1 then table j else 0
      contextLen := contextLen
      pageCount := max (g.pagesFor contextLen) 1
      lastPageLen := g.lastPageLen contextLen }
  else
    { pageTable := (List.range width).map fun j =>
        if j < selected.length + 1 then sparsePage g table contextLen selected j else 0
      contextLen := selected.length * g.pageSize + g.lastPageLen contextLen
      pageCount := selected.length + 1
      lastPageLen := g.lastPageLen contextLen }

/-- `finalize_quest_decode_view`; `dense` is `dense_slots`. -/
def finalizeTokenRow (selected : List Int) (table : Nat → Int) (contextLen width : Nat)
    (dense : Option (Nat → Int)) : TokenRow :=
  let sparse := fun j =>
    sparsePage g table contextLen selected (j / g.pageSize) * g.pageSize + (j % g.pageSize : Nat)
  match dense with
  | none =>
    { slots := (List.range width).map sparse
      contextLen := selected.length * g.pageSize + g.lastPageLen contextLen }
  | some dense =>
    if usesDense g tokenBudget contextLen selected.length then
      { slots := (List.range width).map dense, contextLen := contextLen }
    else
      { slots := (List.range width).map fun j =>
          if j < (selected.length + 1) * g.pageSize then sparse j else dense j
        contextLen := selected.length * g.pageSize + g.lastPageLen contextLen }

variable (topk : TopK S) (scores : Nat → S) (c : QuestCache) (row maxContextLen : Nat)
variable (isLongText : Bool)

/-- The selected previous pages of a row. -/
def selectedPages : List Int :=
  selectPages topk scores (c.pageSlots row) (g.maxPages maxContextLen)
    (g.pagesFor (c.rowSeqLens row) - 1) (g.prevBudget tokenBudget maxContextLen)

/-- `_build_paged_decode_view_static`, a row. -/
def pagedDecodeView (skipLayers layer : Nat) : PagedRow :=
  if layer < skipLayers ∨ tokenBudget = 0 ∨ maxContextLen ≤ g.maxKeep tokenBudget then
    densePagedRow g (c.pageSlots row) (c.rowSeqLens row)
      (min g.maxPagesPerRow (max 1 (g.pagesFor maxContextLen)))
  else if g.prevBudget tokenBudget maxContextLen = 0 then
    densePagedRow g (c.pageSlots row) (c.rowSeqLens row) (g.maxPages maxContextLen)
  else
    finalizePagedRow g tokenBudget (selectedPages g tokenBudget topk scores c row maxContextLen)
      (c.pageSlots row) (c.rowSeqLens row)
      (if isLongText then g.prevBudget tokenBudget maxContextLen + 1
        else g.pageBudgetBase tokenBudget)
      (!isLongText)

/-- The row of the token table. -/
def activeTokenRow : TokenRow where
  slots := (List.range g.maxModelLen).map (c.tokenSlots row)
  contextLen := c.rowSeqLens row

/-- The check of `dense_slots`, the first `max_keep` columns of the rows of a batch: as wide as the
output, and contiguous, which such columns of several rows are not. -/
def denseSlotsFit (batchSize : Nat) : Bool :=
  let width := min (g.maxKeep tokenBudget) g.maxModelLen
  width = g.maxKeep tokenBudget ∧ (batchSize ≤ 1 ∨ width = g.maxModelLen)

/-- `build_decode_view` for MLA, a row of a batch: `_build_token_decode_view_static` from the skipped
layers on. `none` is the `ValueError` for the dense slots of the batch. -/
def tokenDecodeView (batchSize skipLayers layer : Nat) : Option TokenRow :=
  if layer < skipLayers ∨ tokenBudget = 0 ∨ maxContextLen ≤ g.maxKeep tokenBudget ∨
      g.prevBudget tokenBudget maxContextLen = 0 then
    some (activeTokenRow g c row)
  else if isLongText then
    some (finalizeTokenRow g tokenBudget
      (selectedPages g tokenBudget topk scores c row maxContextLen) (c.pageSlots row)
      (c.rowSeqLens row) ((g.prevBudget tokenBudget maxContextLen + 1) * g.pageSize) none)
  else if denseSlotsFit g tokenBudget batchSize = false then none
  else
    some (finalizeTokenRow g tokenBudget
      (selectedPages g tokenBudget topk scores c row maxContextLen) (c.pageSlots row)
      (c.rowSeqLens row) (g.maxKeep tokenBudget) (some (c.tokenSlots row)))

end Views

/-! ## Valid views -/

/-- The pages of a row that a view lists, and the context length it reports: distinct pages of the
row, the last one among them, as long as the tokens they hold; all of them when they fit the page
budget. -/
structure ListsPages (g : QuestGeometry) (tokenBudget : Nat) (c : QuestCache) (row : Nat)
    (pages : List Int) (contextLen : Nat) : Prop where
  distinct : pages.Nodup
  own : ∀ page ∈ pages, ∃ col < g.pagesFor (c.rowSeqLens row), page = c.pageSlots row col
  last : c.pageSlots row (g.pagesFor (c.rowSeqLens row) - 1) ∈ pages
  tokens : contextLen = (List.range (c.rowSeqLens row)).countP fun i =>
    c.tokenSlots row i / g.pageSize ∈ pages
  all : g.pagesFor (c.rowSeqLens row) ≤ g.pageBudgetBase tokenBudget →
    ∀ col < g.pagesFor (c.rowSeqLens row), c.pageSlots row col ∈ pages

/-- The pages a paged row lists. -/
def PagedRow.pages (v : PagedRow) : List Int := v.pageTable.take v.pageCount

/-- As many pages as `page_counts` says, within the table. -/
structure PagedRow.Valid (g : QuestGeometry) (tokenBudget : Nat) (c : QuestCache) (row : Nat)
    (v : PagedRow) : Prop where
  fits : v.pages.length = v.pageCount
  lists : ListsPages g tokenBudget c row v.pages v.contextLen

/-- The pages of the slots a token row lists. -/
def TokenRow.pages (g : QuestGeometry) (v : TokenRow) : List Int :=
  (List.range (g.pagesFor v.contextLen)).map fun j => v.slots.getD (j * g.pageSize) 0 / g.pageSize

/-- The slots listed are those of the pages, in order, within the table. -/
structure TokenRow.Valid (g : QuestGeometry) (tokenBudget : Nat) (c : QuestCache) (row : Nat)
    (v : TokenRow) : Prop where
  fits : v.contextLen ≤ v.slots.length
  slots : ∀ i < v.contextLen, v.slots.getD i 0 =
    (v.pages g).getD (i / g.pageSize) 0 * g.pageSize + (i % g.pageSize : Nat)
  lists : ListsPages g tokenBudget c row (v.pages g) v.contextLen

/-! ## The tokens of some pages -/

/-- Positions below `m` pages whose page satisfies `p`: a page of them for each. -/
theorem countP_range_mul (p : Nat → Bool) {size : Nat} (hpos : 0 < size) :
    ∀ m, (List.range (m * size)).countP (fun i => p (i / size)) =
      (List.range m).countP p * size
  | 0 => by simp
  | m + 1 => by
    have hpage : ∀ i ∈ List.range size, p ((m * size + i) / size) = p m := by
      intro i hi
      rw [Nat.mul_comm, Nat.mul_add_div hpos, Nat.div_eq_of_lt (List.mem_range.mp hi), Nat.add_zero]
    rw [Nat.succ_mul, List.range_add, List.countP_append, countP_range_mul p hpos m, List.countP_map,
      List.range_succ, List.countP_append, Nat.add_mul]
    congr 1
    rw [List.countP_congr (q := fun _ => p m) fun i hi => by rw [← hpage i hi]; rfl]
    cases hm : p m with
    | true => simp [hm]
    | false => simp [hm]

/-- Distinct columns below `m`: as many of the first `m` numbers. -/
theorem countP_mem_range {cols : List Nat} (distinct : cols.Nodup) {m : Nat}
    (below : ∀ col ∈ cols, col < m) : (List.range m).countP (· ∈ cols) = cols.length := by
  rw [List.countP_eq_length_filter]
  refine List.Perm.length_eq ((List.perm_ext_iff_of_nodup (List.nodup_range.filter _) distinct).mpr
    fun col => ?_)
  rw [List.mem_filter, List.mem_range, decide_eq_true_iff]
  exact ⟨fun h => h.2, fun h => ⟨below col h, h⟩⟩

namespace QuestGeometry

variable (g : QuestGeometry)

/-- A row ends inside its last page. -/
theorem lastPageLen_spec {contextLen : Nat} (h : 0 < contextLen) :
    contextLen = (g.pagesFor contextLen - 1) * g.pageSize + g.lastPageLen contextLen ∧
      0 < g.lastPageLen contextLen ∧ g.lastPageLen contextLen ≤ g.pageSize := by
  have hpages := g.pagesFor_pos h
  have hlow := g.lt_pagesFor.mp (Nat.sub_lt hpages Nat.one_pos)
  have hhigh := g.pagesFor_le.mp (le_refl (g.pagesFor contextLen))
  have hmul : g.pagesFor contextLen * g.pageSize =
      (g.pagesFor contextLen - 1) * g.pageSize + g.pageSize := by
    rw [← Nat.succ_mul]
    congr 1
    omega
  unfold lastPageLen
  rw [max_eq_left hpages]
  omega

end QuestGeometry

namespace QuestCache.WellFormed

variable {g : QuestGeometry} {c : QuestCache} (h : WellFormed g c) {row : Nat}

include h

theorem page_of_token {i : Nat} (hi : i < c.rowSeqLens row) :
    c.tokenSlots row i / g.pageSize = c.pageSlots row (i / g.pageSize) := by
  rw [h.tokens hi, slotAt_div]

/-- The pages of a row are those of its columns. -/
theorem page_mem {cols : List Nat} (below : ∀ col ∈ cols, col < g.pagesFor (c.rowSeqLens row))
    {col : Nat} (hcol : col < g.pagesFor (c.rowSeqLens row)) :
    c.pageSlots row col ∈ cols.map (c.pageSlots row) ↔ col ∈ cols := by
  refine ⟨fun hin => ?_, fun hin => List.mem_map_of_mem hin⟩
  obtain ⟨col', hcol', heq⟩ := List.mem_map.mp hin
  obtain ⟨-, rfl⟩ := h.apart (below col' hcol') hcol heq
  exact hcol'

/-- Distinct columns of a row, the last one among them, are pages of a valid view. -/
theorem listsPages (tokenBudget : Nat) {cols : List Nat} (distinct : cols.Nodup)
    (below : ∀ col ∈ cols, col < g.pagesFor (c.rowSeqLens row)) (occupied : 0 < c.rowSeqLens row)
    (last : g.pagesFor (c.rowSeqLens row) - 1 ∈ cols)
    (all : g.pagesFor (c.rowSeqLens row) ≤ g.pageBudgetBase tokenBudget →
      ∀ col < g.pagesFor (c.rowSeqLens row), col ∈ cols) :
    ListsPages g tokenBudget c row (cols.map (c.pageSlots row))
      ((cols.length - 1) * g.pageSize + g.lastPageLen (c.rowSeqLens row)) := by
  obtain ⟨hlen, hlastPos, hlastLe⟩ := g.lastPageLen_spec occupied
  obtain ⟨m, hm⟩ : ∃ m, m = g.pagesFor (c.rowSeqLens row) - 1 := ⟨_, rfl⟩
  have hpages := g.pagesFor_pos occupied
  refine ⟨?_, fun page hpage => ?_, List.mem_map_of_mem last, ?_, fun hfew col hcol =>
    List.mem_map_of_mem (all hfew col hcol)⟩
  · refine distinct.map_on fun col hcol col' hcol' heq => ?_
    exact (h.apart (below col hcol) (below col' hcol') heq).2
  · obtain ⟨col, hcol, rfl⟩ := List.mem_map.mp hpage
    exact ⟨col, below col hcol, rfl⟩
  -- The pages before the last are full, and the tokens of the last one end the row.
  have hcount : (List.range (c.rowSeqLens row)).countP (fun i =>
      decide (c.tokenSlots row i / g.pageSize ∈ cols.map (c.pageSlots row))) =
      (List.range (c.rowSeqLens row)).countP fun i => decide (i / g.pageSize ∈ cols) := by
    refine List.countP_congr fun i hi => ?_
    have hi := List.mem_range.mp hi
    rw [decide_eq_true_iff, decide_eq_true_iff, h.page_of_token hi,
      h.page_mem below (g.div_lt_pagesFor hi)]
  have hlastPage : ∀ i ∈ List.range (g.lastPageLen (c.rowSeqLens row)),
      (m * g.pageSize + i) / g.pageSize ∈ cols := by
    intro i hi
    have hi := List.mem_range.mp hi
    rw [Nat.mul_comm, Nat.mul_add_div g.positive, Nat.div_eq_of_lt (by omega), Nat.add_zero, hm]
    exact last
  have hrest : ∀ col ∈ cols.erase m, col < m := by
    intro col hcol
    have hne := (List.Nodup.mem_erase_iff distinct).mp hcol
    have := below col hne.2
    have := hne.1
    omega
  have hbefore : (List.range m).countP (fun col => decide (col ∈ cols)) = cols.length - 1 := by
    rw [← List.length_erase_of_mem (hm ▸ last), ← countP_mem_range (distinct.erase m) hrest]
    refine List.countP_congr fun col hcol => ?_
    have hne : col ≠ m := (List.mem_range.mp hcol).ne
    rw [decide_eq_true_iff, decide_eq_true_iff, List.Nodup.mem_erase_iff distinct]
    exact ⟨fun hin => ⟨hne, hin⟩, fun hin => hin.2⟩
  rw [hcount]
  conv_rhs => rw [hlen, ← hm, List.range_add, List.countP_append, List.countP_map]
  rw [countP_range_mul (fun col => decide (col ∈ cols)) g.positive, hbefore]
  congr 1
  exact ((List.countP_eq_length.mpr fun i hi => decide_eq_true (hlastPage i hi)).trans
    List.length_range).symm

end QuestCache.WellFormed

/-! ## Selected pages -/

section Selection

variable {S : Type} [LinearOrder S] (topk : TopK S) (scores : Nat → S)

/-- The columns the selector takes. -/
def selectedColumns (width length k : Nat) : List Nat :=
  topk.indices k ((List.range width).map fun col =>
    if col < length then (scores col : WithBot S) else ⊥)

variable {topk scores} {width length k : Nat}

theorem selectedColumns_length (fits : k ≤ width) :
    (selectedColumns topk scores width length k).length = k :=
  topk.length (by rwa [List.length_map, List.length_range])

/-- The columns taken are among the first `length` exactly when there are enough of these. -/
theorem selectedColumns_below (fits : k ≤ width) :
    (∀ col ∈ selectedColumns topk scores width length k, col < length) ↔ k ≤ length := by
  have hlength : (selectedColumns topk scores width length k).length = k :=
    selectedColumns_length fits
  have hvalue : ∀ col < width, ((List.range width).map fun col =>
      if col < length then (scores col : WithBot S) else ⊥).getD col ⊥ =
        if col < length then (scores col : WithBot S) else ⊥ := by
    intro col hcol
    rw [List.getD_eq_getElem _ _ (by rwa [List.length_map, List.length_range]), List.getElem_map,
      List.getElem_range]
  constructor
  · intro hbelow
    have hsub : (selectedColumns topk scores width length k) ⊆ List.range length :=
      fun col hcol => List.mem_range.mpr (hbelow col hcol)
    have hle := (topk.nodup.subperm hsub).length_le
    rwa [← selectedColumns, hlength, List.length_range] at hle
  · intro henough col hcol
    by_contra hout
    -- One of the first `length` columns is left out: it has a larger value.
    have hmissing : ∃ other < length, other ∉ selectedColumns topk scores width length k := by
      by_contra hnone
      push Not at hnone
      have hsub : col :: List.range length ⊆ selectedColumns topk scores width length k := by
        intro other hother
        rcases List.mem_cons.mp hother with rfl | hother
        · exact hcol
        · exact hnone other (List.mem_range.mp hother)
      have hnd : (col :: List.range length).Nodup :=
        List.nodup_cons.mpr ⟨fun hin => hout (List.mem_range.mp hin), List.nodup_range⟩
      have hle := (hnd.subperm hsub).length_le
      rw [hlength, List.length_cons, List.length_range] at hle
      omega
    obtain ⟨other, hother, hfree⟩ := hmissing
    have hcolLt : col < width := by
      have := topk.lt hcol
      rwa [List.length_map, List.length_range] at this
    have hotherLt : other < ((List.range width).map fun col =>
        if col < length then (scores col : WithBot S) else ⊥).length := by
      rw [List.length_map, List.length_range]
      omega
    have hle := topk.dominates hcol hotherLt hfree
    rw [hvalue col hcolLt, hvalue other (by omega), if_pos hother, if_neg hout] at hle
    exact absurd hle (not_le.mpr (WithBot.bot_lt_coe _))

end Selection

/-! ## When a view is valid -/

section Valid

variable {S : Type} [LinearOrder S] {topk : TopK S} {scores : Nat → S} {g : QuestGeometry}
variable {c : QuestCache} {row tokenBudget maxContextLen : Nat}

/-- The exact condition for a row of a paged view: the view is dense, or the batch is long and the
row has a page for every place of the sparse view, or it is short and its pages fit the table. -/
def PagedCovers (g : QuestGeometry) (tokenBudget maxContextLen : Nat) (isLongText : Bool)
    (contextLen : Nat) : Prop :=
  maxContextLen ≤ g.maxKeep tokenBudget ∨ g.maxPages maxContextLen ≤ 1 ∨
    if isLongText then
      min (g.pageBudgetBase tokenBudget) (g.maxPages maxContextLen) ≤ g.pagesFor contextLen
    else g.pagesFor contextLen ≤ g.pageBudgetBase tokenBudget

/-- The exact condition for a row of a token view; a short batch needs dense slots as wide as the
output, and of one row or of whole rows. -/
def TokenCovers (g : QuestGeometry) (tokenBudget maxContextLen batchSize : Nat) (isLongText : Bool)
    (contextLen : Nat) : Prop :=
  maxContextLen ≤ g.maxKeep tokenBudget ∨ g.maxPages maxContextLen ≤ 1 ∨
    if isLongText then
      min (g.pageBudgetBase tokenBudget) (g.maxPages maxContextLen) ≤ g.pagesFor contextLen
    else g.maxKeep tokenBudget ≤ g.maxModelLen ∧
      (batchSize ≤ 1 ∨ g.maxKeep tokenBudget = g.maxModelLen)

instance (isLongText : Bool) (contextLen : Nat) :
    Decidable (PagedCovers g tokenBudget maxContextLen isLongText contextLen) := by
  unfold PagedCovers
  infer_instance

instance (batchSize : Nat) (isLongText : Bool) (contextLen : Nat) :
    Decidable (TokenCovers g tokenBudget maxContextLen batchSize isLongText contextLen) := by
  unfold TokenCovers
  infer_instance

theorem QuestGeometry.three_le_pageBudgetBase (g : QuestGeometry) (tokenBudget : Nat) :
    3 ≤ g.pageBudgetBase tokenBudget := le_max_left ..

/-- A place for the last page is left. -/
theorem QuestGeometry.prevBudget_succ (tokenBudget : Nat) (h : 1 < g.maxPages maxContextLen) :
    g.prevBudget tokenBudget maxContextLen + 1 =
      min (g.pageBudgetBase tokenBudget) (g.maxPages maxContextLen) := by
  have := g.three_le_pageBudgetBase tokenBudget
  unfold QuestGeometry.prevBudget
  omega

theorem QuestGeometry.prevBudget_eq_zero :
    g.prevBudget tokenBudget maxContextLen = 0 ↔ g.maxPages maxContextLen ≤ 1 := by
  have := g.three_le_pageBudgetBase tokenBudget
  unfold QuestGeometry.prevBudget
  omega

/-- The pages of a row are within the pages of the batch. -/
theorem QuestCache.WellFormed.pages_le (h : c.WellFormed g)
    (covers : c.rowSeqLens row ≤ maxContextLen) :
    g.pagesFor (c.rowSeqLens row) ≤ g.maxPages maxContextLen :=
  le_min (g.pagesFor_mono (h.fits row)) (g.pagesFor_mono covers)

/-- All pages of a row are listed. -/
theorem QuestCache.WellFormed.listsAll (h : c.WellFormed g) (occupied : 0 < c.rowSeqLens row) :
    ListsPages g tokenBudget c row
      ((List.range (g.pagesFor (c.rowSeqLens row))).map (c.pageSlots row)) (c.rowSeqLens row) := by
  have hpages := g.pagesFor_pos occupied
  have hlists := h.listsPages tokenBudget List.nodup_range
    (fun col hcol => List.mem_range.mp hcol) occupied (List.mem_range.mpr (by omega))
    fun _ col hcol => List.mem_range.mpr hcol
  rw [List.length_range, ← (g.lastPageLen_spec occupied).1] at hlists
  exact hlists

/-- A dense view whose table holds the pages of the row. -/
theorem densePagedRow_valid (h : c.WellFormed g) (occupied : 0 < c.rowSeqLens row) {width : Nat}
    (fits : g.pagesFor (c.rowSeqLens row) ≤ width) :
    (densePagedRow g (c.pageSlots row) (c.rowSeqLens row) width).Valid g tokenBudget c row := by
  have hpages : (densePagedRow g (c.pageSlots row) (c.rowSeqLens row) width).pages =
      (List.range (g.pagesFor (c.rowSeqLens row))).map (c.pageSlots row) := by
    show ((List.range width).map _).take _ = _
    rw [← List.map_take, List.take_range]
    exact congrArg (fun count => (List.range count).map (c.pageSlots row)) (min_eq_left fits)
  refine ⟨?_, ?_⟩
  · rw [hpages, List.length_map, List.length_range]
    rfl
  · rw [hpages]
    exact h.listsAll occupied

/-- A sparse row lists the selected pages, then the last one. -/
theorem sparsePages_eq (table : Nat → Int) (contextLen : Nat) (selected : List Int) :
    (List.range (selected.length + 1)).map (sparsePage g table contextLen selected) =
      selected ++ [table (max (g.pagesFor contextLen) 1 - 1)] := by
  have hselected : (List.range selected.length).map (sparsePage g table contextLen selected) =
      selected := by
    refine List.ext_getElem (by rw [List.length_map, List.length_range]) fun i hi hi' => ?_
    rw [List.getElem_map, List.getElem_range]
    unfold sparsePage
    rw [if_pos hi', List.getD_eq_getElem _ _ hi']
  rw [List.range_succ, List.map_append, hselected]
  congr 1
  show [sparsePage g table contextLen selected selected.length] = _
  unfold sparsePage
  rw [if_neg (lt_irrefl _)]

variable (topk scores) in
/-- The pages of a sparse row are pages of the row exactly when it has enough of them. -/
theorem sparse_listsPages_iff (h : c.WellFormed g) (occupied : 0 < c.rowSeqLens row)
    (covers : c.rowSeqLens row ≤ maxContextLen) (sparse : 1 < g.maxPages maxContextLen) :
    ListsPages g tokenBudget c row
      (selectedPages g tokenBudget topk scores c row maxContextLen ++
        [c.pageSlots row (g.pagesFor (c.rowSeqLens row) - 1)])
      ((selectedPages g tokenBudget topk scores c row maxContextLen).length * g.pageSize +
        g.lastPageLen (c.rowSeqLens row)) ↔
      min (g.pageBudgetBase tokenBudget) (g.maxPages maxContextLen) ≤
        g.pagesFor (c.rowSeqLens row) := by
  have hpages := g.pagesFor_pos occupied
  have hwithin := h.pages_le covers
  obtain ⟨k, hk⟩ : ∃ k, k = g.prevBudget tokenBudget maxContextLen := ⟨_, rfl⟩
  have hsucc := g.prevBudget_succ tokenBudget sparse
  obtain ⟨cols, hcols⟩ : ∃ cols, cols = selectedColumns topk scores (g.maxPages maxContextLen)
    (g.pagesFor (c.rowSeqLens row) - 1) k := ⟨_, rfl⟩
  have hfits : k ≤ g.maxPages maxContextLen := by omega
  have hlength : cols.length = k := hcols ▸ selectedColumns_length hfits
  have hbelow : (∀ col ∈ cols, col < g.pagesFor (c.rowSeqLens row) - 1) ↔
      k ≤ g.pagesFor (c.rowSeqLens row) - 1 := hcols ▸ selectedColumns_below hfits
  have hselected : selectedPages g tokenBudget topk scores c row maxContextLen = cols.map fun col =>
      if g.pagesFor (c.rowSeqLens row) - 1 ≤ col then -1 else c.pageSlots row col := by
    rw [hcols, hk]
    rfl
  rw [hselected, List.length_map, hlength, ← hsucc, ← hk]
  constructor
  · intro hlists
    by_contra hfew
    have hout : ¬ ∀ col ∈ cols, col < g.pagesFor (c.rowSeqLens row) - 1 :=
      fun hall => hfew (by have := hbelow.mp hall; omega)
    push Not at hout
    obtain ⟨col, hcol, hpast⟩ := hout
    -- A column past the pages is listed as `-1`, which is no page.
    have hmem : (-1 : Int) ∈ (cols.map fun col =>
        if g.pagesFor (c.rowSeqLens row) - 1 ≤ col then -1 else c.pageSlots row col) :=
      List.mem_map.mpr ⟨col, hcol, if_pos hpast⟩
    obtain ⟨col', hcol', hpage⟩ := hlists.own (-1) (List.mem_append_left _ hmem)
    obtain ⟨page, hslot, -⟩ := h.owned hcol'
    omega
  · intro henough
    have hall := hbelow.mpr (by omega)
    have hmap : (cols.map fun col =>
        if g.pagesFor (c.rowSeqLens row) - 1 ≤ col then -1 else c.pageSlots row col) =
        cols.map (c.pageSlots row) :=
      List.map_congr_left fun col hcol => if_neg (not_le.mpr (hall col hcol))
    have hdistinct : (cols ++ [g.pagesFor (c.rowSeqLens row) - 1]).Nodup := by
      refine List.nodup_append.mpr ⟨hcols ▸ topk.nodup, List.nodup_singleton _, ?_⟩
      rintro col hcol _ hlast rfl
      have := hall col hcol
      rw [List.mem_singleton.mp hlast] at this
      omega
    have hbelow' : ∀ col ∈ cols ++ [g.pagesFor (c.rowSeqLens row) - 1],
        col < g.pagesFor (c.rowSeqLens row) := by
      intro col hcol
      rcases List.mem_append.mp hcol with hcol | hcol
      · have := hall col hcol
        omega
      · rw [List.mem_singleton.mp hcol]
        omega
    have hlists := h.listsPages tokenBudget hdistinct hbelow' occupied
      (List.mem_append_right _ (List.mem_singleton_self _)) fun hfew col hcol => ?_
    · rw [hmap, ← List.map_singleton (f := c.pageSlots row), ← List.map_append]
      rwa [List.length_append, List.length_singleton, Nat.add_sub_cancel, hlength] at hlists
    · -- As many distinct columns as there are pages: all of them.
      have hsub : cols ++ [g.pagesFor (c.rowSeqLens row) - 1] ⊆
          List.range (g.pagesFor (c.rowSeqLens row)) :=
        fun col hcol => List.mem_range.mpr (hbelow' col hcol)
      refine ((hdistinct.subperm hsub).perm_of_length_le ?_).mem_iff.mpr (List.mem_range.mpr hcol)
      rw [List.length_append, List.length_singleton, hlength, List.length_range]
      omega

/-- A paged row without the fallback is valid when the pages it lists are. -/
theorem finalizePagedRow_sparse_valid_iff (occupied : 0 < c.rowSeqLens row) (selected : List Int) :
    (finalizePagedRow g tokenBudget selected (c.pageSlots row) (c.rowSeqLens row)
        (selected.length + 1) false).Valid g tokenBudget c row ↔
      ListsPages g tokenBudget c row
        (selected ++ [c.pageSlots row (g.pagesFor (c.rowSeqLens row) - 1)])
        (selected.length * g.pageSize + g.lastPageLen (c.rowSeqLens row)) := by
  have hpages : (finalizePagedRow g tokenBudget selected (c.pageSlots row) (c.rowSeqLens row)
      (selected.length + 1) false).pages =
        selected ++ [c.pageSlots row (g.pagesFor (c.rowSeqLens row) - 1)] := by
    show ((List.range (selected.length + 1)).map fun j =>
      if j < selected.length + 1 then sparsePage g (c.pageSlots row) (c.rowSeqLens row) selected j
        else 0).take (selected.length + 1) = _
    rw [List.take_of_length_le (by rw [List.length_map, List.length_range])]
    have hlast := sparsePages_eq (g := g) (c.pageSlots row) (c.rowSeqLens row) selected
    rw [max_eq_left (g.pagesFor_pos occupied)] at hlast
    rw [← hlast]
    exact List.map_congr_left fun j hj => if_pos (List.mem_range.mp hj)
  constructor
  · intro hvalid
    have hlists := hvalid.lists
    rwa [hpages] at hlists
  · intro hlists
    refine ⟨?_, ?_⟩
    · rw [hpages, List.length_append]
      rfl
    · rw [hpages]
      exact hlists

/-- A paged row that falls back to its dense pages is valid when they fit the table. -/
theorem finalizePagedRow_dense_valid_iff (h : c.WellFormed g) (occupied : 0 < c.rowSeqLens row)
    (selected : List Int) (width : Nat) (short : c.rowSeqLens row ≤ tokenBudget) :
    (finalizePagedRow g tokenBudget selected (c.pageSlots row) (c.rowSeqLens row) width
        true).Valid g tokenBudget c row ↔ g.pagesFor (c.rowSeqLens row) ≤ width := by
  have hmax : max (g.pagesFor (c.rowSeqLens row)) 1 = g.pagesFor (c.rowSeqLens row) :=
    max_eq_left (g.pagesFor_pos occupied)
  obtain ⟨v, hv⟩ : ∃ v, v = finalizePagedRow g tokenBudget selected (c.pageSlots row)
    (c.rowSeqLens row) width true := ⟨_, rfl⟩
  rw [← hv]
  unfold finalizePagedRow usesDense at hv
  rw [decide_eq_true short, Bool.true_or, Bool.and_true, if_pos rfl, hmax] at hv
  have hpages : v.pages = (List.range (min (g.pagesFor (c.rowSeqLens row)) width)).map
      (c.pageSlots row) := by
    rw [hv]
    show ((List.range width).map _).take (g.pagesFor (c.rowSeqLens row)) = _
    rw [← List.map_take, List.take_range]
    refine List.map_congr_left fun j hj => if_pos ?_
    exact lt_of_lt_of_le (List.mem_range.mp hj) (min_le_left ..)
  have hcount : v.pageCount = g.pagesFor (c.rowSeqLens row) := by rw [hv]
  have hlen : v.contextLen = c.rowSeqLens row := by rw [hv]
  constructor
  · intro hvalid
    have hfits := hvalid.fits
    rw [hpages, hcount, List.length_map, List.length_range] at hfits
    omega
  · intro hfew
    rw [min_eq_left hfew] at hpages
    refine ⟨?_, ?_⟩
    · rw [hpages, hcount, List.length_map, List.length_range]
    · rw [hpages, hlen]
      exact h.listsAll occupied

/-- A token row that expands pages is valid when the pages are. -/
theorem TokenRow.valid_iff {v : TokenRow} {pages : List Int} (fits : v.contextLen ≤ v.slots.length)
    (count : pages.length = g.pagesFor v.contextLen)
    (slots : ∀ i < v.contextLen, v.slots.getD i 0 =
      pages.getD (i / g.pageSize) 0 * g.pageSize + (i % g.pageSize : Nat)) :
    v.Valid g tokenBudget c row ↔ ListsPages g tokenBudget c row pages v.contextLen := by
  have hpos := g.positive
  have hpages : v.pages g = pages := by
    unfold TokenRow.pages
    refine List.ext_getElem ?_ fun j hj hj' => ?_
    · rw [List.length_map, List.length_range, count]
    · rw [List.getElem_map, List.getElem_range, slots _ (g.lt_pagesFor.mp (count ▸ hj')),
        Nat.mul_div_cancel _ hpos, Nat.mul_mod_left, List.getD_eq_getElem _ _ hj', Nat.cast_zero,
        add_zero]
      exact Int.mul_ediv_cancel _ (by omega)
  constructor
  · intro hvalid
    have hlists := hvalid.lists
    rwa [hpages] at hlists
  · intro hlists
    refine ⟨fits, fun i hi => ?_, ?_⟩
    · rw [hpages]
      exact slots i hi
    · rw [hpages]
      exact hlists

theorem getD_map_range {f : Nat → Int} {width i : Nat} (hi : i < width) :
    ((List.range width).map f).getD i 0 = f i := by
  rw [List.getD_eq_getElem _ _ (by rwa [List.length_map, List.length_range]), List.getElem_map,
    List.getElem_range]

/-- A token row with every slot of the row. -/
theorem denseTokenRow_valid (h : c.WellFormed g) (occupied : 0 < c.rowSeqLens row) {width : Nat}
    (fits : c.rowSeqLens row ≤ width) :
    TokenRow.Valid g tokenBudget c row
      { slots := (List.range width).map (c.tokenSlots row), contextLen := c.rowSeqLens row } := by
  refine (TokenRow.valid_iff ?_ ?_ fun i hi => ?_).mpr (h.listsAll occupied)
  · rw [List.length_map, List.length_range]
    exact fits
  · rw [List.length_map, List.length_range]
  · rw [getD_map_range (hi.trans_le fits), getD_map_range (g.div_lt_pagesFor hi)]
    exact h.tokens hi

/-- A token row without the fallback is valid when the pages it lists are. -/
theorem finalizeTokenRow_sparse_valid_iff (occupied : 0 < c.rowSeqLens row) (selected : List Int) :
    (finalizeTokenRow g tokenBudget selected (c.pageSlots row) (c.rowSeqLens row)
        ((selected.length + 1) * g.pageSize) none).Valid g tokenBudget c row ↔
      ListsPages g tokenBudget c row
        (selected ++ [c.pageSlots row (g.pagesFor (c.rowSeqLens row) - 1)])
        (selected.length * g.pageSize + g.lastPageLen (c.rowSeqLens row)) := by
  have hpos := g.positive
  obtain ⟨-, hlastPos, hlastLe⟩ := g.lastPageLen_spec occupied
  have hlast := sparsePages_eq (g := g) (c.pageSlots row) (c.rowSeqLens row) selected
  rw [max_eq_left (g.pagesFor_pos occupied)] at hlast
  have hwidth : selected.length * g.pageSize + g.lastPageLen (c.rowSeqLens row) ≤
      (selected.length + 1) * g.pageSize := by
    rw [Nat.succ_mul]
    omega
  refine TokenRow.valid_iff ?_ ?_ fun i hi => ?_
  · show _ ≤ ((List.range _).map _).length
    rw [List.length_map, List.length_range]
    exact hwidth
  · show _ = g.pagesFor (selected.length * g.pageSize + g.lastPageLen (c.rowSeqLens row))
    rw [List.length_append, List.length_singleton]
    refine le_antisymm (g.lt_pagesFor.mpr (by omega)) (g.pagesFor_le.mpr hwidth)
  · have hi : i < selected.length * g.pageSize + g.lastPageLen (c.rowSeqLens row) := hi
    have hpage : i / g.pageSize < selected.length + 1 :=
      Nat.div_lt_of_lt_mul (by rw [Nat.mul_comm]; omega)
    rw [← hlast, getD_map_range hpage]
    exact getD_map_range (hi.trans_le hwidth)

variable (topk scores) in
theorem selectedPages_length (sparse : 1 < g.maxPages maxContextLen) :
    (selectedPages g tokenBudget topk scores c row maxContextLen).length =
      g.prevBudget tokenBudget maxContextLen := by
  have := g.prevBudget_succ tokenBudget sparse
  unfold selectedPages selectPages
  rw [List.length_map]
  exact selectedColumns_length (by omega)

section Views

variable (topk scores) {skipLayers layer : Nat} {isLongText : Bool}
variable (h : c.WellFormed g) (occupied : 0 < c.rowSeqLens row)
variable (covers : c.rowSeqLens row ≤ maxContextLen) (budget : 0 < tokenBudget)
variable (sparseLayer : skipLayers ≤ layer)
variable (short : isLongText = false → c.rowSeqLens row ≤ tokenBudget)

include h occupied covers budget sparseLayer short

/-- **When the paged view of a row is valid.** -/
theorem pagedDecodeView_valid_iff :
    (pagedDecodeView g tokenBudget topk scores c row maxContextLen isLongText skipLayers layer).Valid
        g tokenBudget c row ↔
      PagedCovers g tokenBudget maxContextLen isLongText (c.rowSeqLens row) := by
  have hwithin := h.pages_le covers
  have hguard : (layer < skipLayers ∨ tokenBudget = 0 ∨ maxContextLen ≤ g.maxKeep tokenBudget) ↔
      maxContextLen ≤ g.maxKeep tokenBudget := by omega
  unfold pagedDecodeView PagedCovers
  rw [if_congr hguard rfl rfl]
  by_cases hkeep : maxContextLen ≤ g.maxKeep tokenBudget
  · rw [if_pos hkeep]
    refine iff_of_true (densePagedRow_valid h occupied ?_) (Or.inl hkeep)
    unfold QuestGeometry.maxPages at hwithin
    omega
  rw [if_neg hkeep]
  by_cases hsingle : g.maxPages maxContextLen ≤ 1
  · rw [if_pos (g.prevBudget_eq_zero.mpr hsingle)]
    exact iff_of_true (densePagedRow_valid h occupied hwithin) (Or.inr (Or.inl hsingle))
  rw [if_neg fun hzero => hsingle (g.prevBudget_eq_zero.mp hzero)]
  have hsparse : 1 < g.maxPages maxContextLen := not_le.mp hsingle
  simp only [hkeep, hsingle, false_or]
  cases isLongText with
  | true =>
    have hlength : (selectedPages g tokenBudget topk scores c row maxContextLen).length =
        g.prevBudget tokenBudget maxContextLen := selectedPages_length topk scores hsparse
    simp only [if_true, Bool.not_true]
    rw [← hlength, finalizePagedRow_sparse_valid_iff occupied]
    exact sparse_listsPages_iff topk scores h occupied covers hsparse
  | false =>
    simp only [if_false, Bool.false_eq_true, Bool.not_false]
    exact finalizePagedRow_dense_valid_iff h occupied _ _ (short rfl)

/-- **When the token view of a row is valid.** -/
theorem tokenDecodeView_valid_iff (batchSize : Nat) :
    (∃ v, tokenDecodeView g tokenBudget topk scores c row maxContextLen isLongText batchSize skipLayers
        layer = some v ∧ v.Valid g tokenBudget c row) ↔
      TokenCovers g tokenBudget maxContextLen batchSize isLongText (c.rowSeqLens row) := by
  have hguard : (layer < skipLayers ∨ tokenBudget = 0 ∨ maxContextLen ≤ g.maxKeep tokenBudget ∨
      g.prevBudget tokenBudget maxContextLen = 0) ↔
      maxContextLen ≤ g.maxKeep tokenBudget ∨ g.maxPages maxContextLen ≤ 1 := by
    rw [g.prevBudget_eq_zero]
    omega
  unfold tokenDecodeView TokenCovers
  rw [if_congr hguard rfl rfl]
  by_cases hdense : maxContextLen ≤ g.maxKeep tokenBudget ∨ g.maxPages maxContextLen ≤ 1
  · rw [if_pos hdense, ← or_assoc]
    exact iff_of_true ⟨_, rfl, denseTokenRow_valid h occupied (h.fits row)⟩ (Or.inl hdense)
  rw [if_neg hdense]
  obtain ⟨hkeep, hsingle⟩ := not_or.mp hdense
  have hsparse : 1 < g.maxPages maxContextLen := not_le.mp hsingle
  simp only [hkeep, hsingle, false_or]
  cases isLongText with
  | true =>
    have hlength : (selectedPages g tokenBudget topk scores c row maxContextLen).length =
        g.prevBudget tokenBudget maxContextLen := selectedPages_length topk scores hsparse
    simp only [if_true, Option.some.injEq, exists_eq_left']
    rw [← hlength, finalizeTokenRow_sparse_valid_iff occupied]
    exact sparse_listsPages_iff topk scores h occupied covers hsparse
  | false =>
    have hshort := short rfl
    simp only [if_false, Bool.false_eq_true]
    have hdenseSlots : denseSlotsFit g tokenBudget batchSize = true ↔
        g.maxKeep tokenBudget ≤ g.maxModelLen ∧
          (batchSize ≤ 1 ∨ g.maxKeep tokenBudget = g.maxModelLen) := by
      unfold denseSlotsFit
      rw [decide_eq_true_iff]
      omega
    by_cases hwidth : denseSlotsFit g tokenBudget batchSize = true
    · rw [if_neg (by rw [hwidth]; nofun)]
      refine iff_of_true ⟨_, rfl, ?_⟩ (hdenseSlots.mp hwidth)
      unfold finalizeTokenRow usesDense
      rw [decide_eq_true hshort, Bool.true_or]
      exact denseTokenRow_valid h occupied (hshort.trans (le_max_left ..))
    · rw [if_pos (Bool.not_eq_true _ ▸ hwidth)]
      exact iff_of_false (fun ⟨_, hnone, _⟩ => nomatch hnone) (hwidth ∘ hdenseSlots.mpr)

end Views

end Valid

end SparseVllm
