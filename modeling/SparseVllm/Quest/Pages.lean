import SparseVllm.Lib.Program
import SparseVllm.Scheduler.Sequence
import Mathlib.Algebra.Order.Group.Nat
import Mathlib.Algebra.Order.Ring.Int
import Mathlib.Data.List.GetD
import Mathlib.Data.List.Nodup

/-!
# The pages of QuEST rows (`engine/cache_manager/quest.py`)

`QuestCacheManager` without its prefix cache: a stack of free pages, a row for each request, and for
each row the pages and the token slots it holds. Prefill allocates a chunk (`allocate`), a decode
step one token for each request of the batch, in eager mode (`allocateBatch`) or for a captured
graph (`prepareDecodeGraphStep`), and `freeSeq` returns the pages of a request.

`QuestCache.WellFormed` is what every operation keeps: the pages of the rows and the free ones are
all distinct, and a token slot lies in the page of its position.

The page table is kept in a host and a device copy that the same assignments write; it is one table
here, and the graph kernel writes into it what it writes into the device copy. `free_pages_stack` and
`free_pages_cpu_stack` are one list, as they are for a manager with its own prefix cache or none: hybrid
models, whose coordinator returns pages to one of them only, are left out, with the page metadata (no
page id depends on it) and the tensors the inputs are packed in.
-/

namespace SparseVllm

open SparseVllm.Lib

/-- The sizes of a `QuestCacheManager`. -/
structure QuestGeometry where
  pageSize : Nat
  maxModelLen : Nat
  positive : 0 < pageSize := by decide

namespace QuestGeometry

/-- The pages that hold `tokens` tokens. -/
def pagesFor (g : QuestGeometry) (tokens : Nat) : Nat :=
  (tokens + g.pageSize - 1) / g.pageSize

/-- `max_pages_per_row`. -/
def maxPagesPerRow (g : QuestGeometry) : Nat := g.pagesFor g.maxModelLen

end QuestGeometry

/-- The allocator's state. An unset entry of the page table is `-1`. -/
structure QuestCache where
  /-- The free pages, the top of the stack first. -/
  freePages : List Nat
  seqIdToRow : SeqId → Option Nat
  freeRows : List Nat
  rowSeqLens : Nat → Nat
  /-- `buffer_req_to_page_slots`. -/
  pageSlots : Nat → Nat → Int
  /-- `buffer_req_to_token_slots`. -/
  tokenSlots : Nat → Nat → Int

/-- What the allocator raises. -/
inductive QuestError where
  | noFreeRows
  | outOfPages (need free : Nat)
  | rowTooLong
  | rowLengthMismatch (seq : SeqId) (rowLen start : Nat)
  | graphCapacity (requested captured : Nat)
  | unknownSequence (seq : SeqId)
  deriving DecidableEq, Repr

namespace QuestCache

/-- The state at construction. -/
def initial (numPages numRows : Nat) : QuestCache where
  freePages := (List.range numPages).reverse
  seqIdToRow := fun _ => none
  freeRows := List.range numRows
  rowSeqLens := fun _ => 0
  pageSlots := fun _ _ => -1
  tokenSlots := fun _ _ => 0

/-- The tokens a request holds. -/
def rowLen (c : QuestCache) (seq : SeqId) : Nat :=
  match c.seqIdToRow seq with
  | none => 0
  | some row => c.rowSeqLens row

/-- Pop `count` pages into the columns of a row from `first` on. -/
def takePages (row first count : Nat) (c : QuestCache) : QuestCache :=
  { c with
    freePages := c.freePages.drop count
    pageSlots := fun r col =>
      if r = row ∧ first ≤ col ∧ col < first + count then (c.freePages.getD (col - first) 0 : Nat)
      else c.pageSlots r col }

/-- Write the slots of the next `size` tokens of a row, and advance its length. -/
def writeTokens (g : QuestGeometry) (row size : Nat) (c : QuestCache) : QuestCache :=
  { c with
    tokenSlots := fun r i =>
      if r = row ∧ c.rowSeqLens row ≤ i ∧ i < c.rowSeqLens row + size then
        c.pageSlots row (i / g.pageSize) * g.pageSize + (i % g.pageSize : Nat)
      else c.tokenSlots r i
    rowSeqLens := Function.update c.rowSeqLens row (c.rowSeqLens row + size) }

/-- Write one token slot of a row, and advance its length. -/
def writeToken (row : Nat) (slot : Int) (c : QuestCache) : QuestCache :=
  { c with
    tokenSlots := fun r i => if r = row ∧ i = c.rowSeqLens row then slot else c.tokenSlots r i
    rowSeqLens := Function.update c.rowSeqLens row (c.rowSeqLens row + 1) }

/-- The graph kernel writes the page of a token slot into the page table. -/
def publishPage (g : QuestGeometry) (row col : Nat) (slot : Int) (c : QuestCache) : QuestCache :=
  { c with
    pageSlots := fun r k => if r = row ∧ k = col then slot / g.pageSize else c.pageSlots r k }

/-- The slot of position `i` of a row, from its page. -/
def slotAt (g : QuestGeometry) (c : QuestCache) (row i : Nat) : Int :=
  c.pageSlots row (i / g.pageSize) * g.pageSize + (i % g.pageSize : Nat)

/-- The next token of a row opens a page. -/
def opensPage (g : QuestGeometry) (c : QuestCache) (row : Nat) : Bool :=
  c.rowSeqLens row % g.pageSize == 0

/-- Pop a page for a row whose next token opens one. -/
def takeNewPage (g : QuestGeometry) (row : Nat) (c : QuestCache) : QuestCache :=
  if c.opensPage g row then c.takePages row (c.rowSeqLens row / g.pageSize) 1 else c

/-- The rows are distinct, so the vectorised assignments of a batch are made row by row. -/
def appendEager (g : QuestGeometry) (noNewPages : Bool) (row : Nat) (c : QuestCache) :
    QuestCache :=
  let c := c.takeNewPage g row
  let cur := c.rowSeqLens row
  c.writeToken row (if noNewPages then c.tokenSlots row (cur - 1) + 1 else c.slotAt g row cur)

/-- A row of a graph step: the host reserves the slot, the kernel publishes it. -/
def appendGraph (g : QuestGeometry) (row : Nat) (c : QuestCache) : QuestCache :=
  let c := c.takeNewPage g row
  let cur := c.rowSeqLens row
  let slot := c.slotAt g row cur
  (c.writeToken row slot).publishPage g row (cur / g.pageSize) slot

/-- Give a request the first free row. -/
def assignRow (seq : SeqId) (row : Nat) (rest : List Nat) (c : QuestCache) : QuestCache :=
  { c with seqIdToRow := Function.update c.seqIdToRow seq (some row), freeRows := rest }

/-- Return the pages of a row and forget it. -/
def releaseRow (g : QuestGeometry) (seq row : Nat) (c : QuestCache) : QuestCache where
  freePages := ((List.range (g.pagesFor (c.rowSeqLens row))).map
    fun col => (c.pageSlots row col).toNat).reverse ++ c.freePages
  seqIdToRow := Function.update c.seqIdToRow seq none
  freeRows := c.freeRows ++ [row]
  rowSeqLens := Function.update c.rowSeqLens row 0
  pageSlots := fun r col => if r = row then -1 else c.pageSlots r col
  tokenSlots := fun r i => if r = row then 0 else c.tokenSlots r i

end QuestCache

/-! ## The methods -/

section Methods

variable (g : QuestGeometry)

/-- The programs of the cache manager. -/
abbrev QuestM (α : Type) := EStateM QuestError QuestCache α

/-- `_get_free_row`. -/
def getFreeRow (seq : SeqId) : QuestM Nat := do
  let c ← get
  match c.seqIdToRow seq with
  | some row => return row
  | none =>
    match c.freeRows with
    | [] => throw .noFreeRows
    | row :: rest =>
      set (c.assignRow seq row rest)
      return row

/-- `_required_new_pages`. -/
def requiredNewPages (c : QuestCache) (seq : SeqId) (size : Nat) : Nat :=
  g.pagesFor (c.rowLen seq + size) - g.pagesFor (c.rowLen seq)

/-- `_allocate`. -/
def allocate (seq : SeqId) (size : Nat) : QuestM Unit := do
  let c ← get
  let needed := requiredNewPages g c seq size
  raiseIf (c.freePages.length < needed) (.outOfPages needed c.freePages.length)
  let row ← getFreeRow seq
  let c ← get
  raiseIf (g.maxModelLen < c.rowSeqLens row + size) .rowTooLong
  modify (QuestCache.takePages row (g.pagesFor (c.rowSeqLens row)) needed)
  modify (QuestCache.writeTokens g row size)

/-- A request of `_prepare_prefill`: its row must end where the chunk starts. -/
def preparePrefillRow (seq : SeqId) (start size : Nat) : QuestM Unit := do
  let c ← get
  raiseIf ((c.seqIdToRow seq).isSome ∧ c.rowLen seq ≠ start)
    (.rowLengthMismatch seq (c.rowLen seq) start)
  allocate g seq size

/-- `_allocate_batch`. -/
def allocateBatch (seqs : List SeqId) : QuestM Unit := do
  let rows ← mapEach seqs getFreeRow
  let c ← get
  raiseIf (∃ row ∈ rows, g.maxModelLen < c.rowSeqLens row + 1) .rowTooLong
  let needed := rows.countP fun row => c.opensPage g row
  raiseIf (c.freePages.length < needed) (.outOfPages needed c.freePages.length)
  forEach rows fun row => modify (QuestCache.appendEager g (needed == 0) row)

/-- The checks of a graph step on the planned rows. -/
def checkGraphRows (contextCapacity : Nat) (rows : List Nat) (c : QuestCache) : QuestM Unit := do
  let maxContextLen := (rows.map fun row => c.rowSeqLens row + 1).foldl max 0
  raiseIf (contextCapacity < maxContextLen) (.graphCapacity maxContextLen contextCapacity)
  raiseIf (g.maxModelLen < maxContextLen) .rowTooLong
  let needed := rows.countP fun row => c.opensPage g row
  raiseIf (c.freePages.length < needed) (.outOfPages needed c.freePages.length)

/-- `_prepare_decode_graph_step_no_prefix`, then `prepare_decode_graph_in`. -/
def prepareDecodeGraphStep (contextCapacity : Nat) (seqs : List SeqId) : QuestM Unit := do
  let c ← get
  -- The rows are planned on a copy and committed after the checks.
  match mapEach seqs getFreeRow c with
  | .error error _ => throw error
  | .ok rows planned =>
    checkGraphRows g contextCapacity rows planned
    set planned
    forEach rows fun row => modify (QuestCache.appendGraph g row)

/-- `free_seq`. -/
def freeSeq (seq : SeqId) : QuestM Unit := do
  let c ← get
  match c.seqIdToRow seq with
  | none => throw (.unknownSequence seq)
  | some row => set (c.releaseRow g seq row)

end Methods

/-! ## Page counts -/

namespace QuestGeometry

variable (g : QuestGeometry)

/-- A page is needed exactly when its first token is there. -/
theorem lt_pagesFor {col tokens : Nat} : col < g.pagesFor tokens ↔ col * g.pageSize < tokens := by
  have hpos := g.positive
  unfold pagesFor
  rw [← Nat.succ_le_iff, Nat.le_div_iff_mul_le hpos, Nat.succ_mul]
  omega

theorem pagesFor_le {count tokens : Nat} :
    g.pagesFor tokens ≤ count ↔ tokens ≤ count * g.pageSize := by
  rw [← not_lt, lt_pagesFor, not_lt]

theorem pagesFor_mono {m n : Nat} (h : m ≤ n) : g.pagesFor m ≤ g.pagesFor n := by
  rw [pagesFor_le]
  exact h.trans (g.pagesFor_le.mp (le_refl _))

/-- A position lies in one of the pages. -/
theorem div_lt_pagesFor {i tokens : Nat} (h : i < tokens) : i / g.pageSize < g.pagesFor tokens := by
  rw [lt_pagesFor]
  exact lt_of_le_of_lt (Nat.div_mul_le_self _ _) h

theorem pagesFor_pos {tokens : Nat} (h : 0 < tokens) : 0 < g.pagesFor tokens := by
  rw [lt_pagesFor, Nat.zero_mul]
  exact h

/-- The full pages, and the one that is not. -/
theorem pagesFor_eq (tokens : Nat) :
    g.pagesFor tokens = tokens / g.pageSize + if tokens % g.pageSize = 0 then 0 else 1 := by
  have hpos := g.positive
  have hdiv := Nat.div_add_mod tokens g.pageSize
  have hmod := Nat.mod_lt tokens hpos
  rw [Nat.mul_comm] at hdiv
  unfold pagesFor
  apply Nat.div_eq_of_lt_le
  · split
    · rw [Nat.add_zero]
      omega
    · rw [Nat.succ_mul]
      omega
  · split
    · rw [Nat.add_zero, Nat.succ_mul]
      omega
    · rw [Nat.succ_mul, Nat.succ_mul]
      omega

/-- One more token opens a page exactly when the pages are full. -/
theorem pagesFor_succ (tokens : Nat) :
    g.pagesFor (tokens + 1) =
      g.pagesFor tokens + if tokens % g.pageSize == 0 then 1 else 0 := by
  have hlast : g.pagesFor (tokens + 1) = tokens / g.pageSize + 1 := by
    unfold pagesFor
    rw [show tokens + 1 + g.pageSize - 1 = tokens + g.pageSize by omega]
    exact Nat.add_div_right _ g.positive
  rw [hlast, pagesFor_eq]
  by_cases hzero : tokens % g.pageSize = 0
  · simp [hzero]
  · simp [hzero]

/-- Full pages: as many as the quotient. -/
theorem pagesFor_of_full {tokens : Nat} (h : tokens % g.pageSize = 0) :
    g.pagesFor tokens = tokens / g.pageSize := by
  rw [pagesFor_eq, if_pos h, Nat.add_zero]

end QuestGeometry

/-! ## The invariant -/

namespace QuestCache

variable {g : QuestGeometry} {c : QuestCache}

/-- What holds between two operations: a row belongs to one request, the pages of the rows and the
free ones are distinct, and a token slot lies in the page of its position. -/
structure WellFormed (g : QuestGeometry) (c : QuestCache) : Prop where
  rows : ∀ {s s' row}, c.seqIdToRow s = some row → c.seqIdToRow s' = some row → s = s'
  distinctRows : c.freeRows.Nodup
  idle : ∀ row ∈ c.freeRows, c.rowSeqLens row = 0 ∧ ∀ s, c.seqIdToRow s ≠ some row
  fits : ∀ row, c.rowSeqLens row ≤ g.maxModelLen
  owned : ∀ {row col}, col < g.pagesFor (c.rowSeqLens row) →
    ∃ page : Nat, c.pageSlots row col = page ∧ page ∉ c.freePages
  apart : ∀ {row col row' col'}, col < g.pagesFor (c.rowSeqLens row) →
    col' < g.pagesFor (c.rowSeqLens row') → c.pageSlots row col = c.pageSlots row' col' →
    row = row' ∧ col = col'
  distinctPages : c.freePages.Nodup
  tokens : ∀ {row i}, i < c.rowSeqLens row → c.tokenSlots row i = c.slotAt g row i

theorem wellFormed_initial (numPages numRows : Nat) : WellFormed g (initial numPages numRows) where
  rows := nofun
  distinctRows := List.nodup_range
  idle _ _ := ⟨rfl, nofun⟩
  fits _ := Nat.zero_le _
  owned h := by
    rw [QuestGeometry.lt_pagesFor] at h
    exact absurd h (Nat.not_lt_zero _)
  apart h := by
    rw [QuestGeometry.lt_pagesFor] at h
    exact absurd h (Nat.not_lt_zero _)
  distinctPages := List.nodup_reverse.mpr List.nodup_range
  tokens h := absurd h (Nat.not_lt_zero _)

/-- A row grows by `size` tokens. -/
def grow (g : QuestGeometry) (row size : Nat) (c : QuestCache) : QuestCache :=
  (c.takePages row (g.pagesFor (c.rowSeqLens row))
    (g.pagesFor (c.rowSeqLens row + size) - g.pagesFor (c.rowSeqLens row))).writeTokens g row size

/-- Each row grows by one token. -/
def growAll (g : QuestGeometry) (rows : List Nat) (c : QuestCache) : QuestCache :=
  rows.foldl (fun c row => c.grow g row 1) c

@[simp] theorem growAll_nil : c.growAll g [] = c := rfl

@[simp] theorem growAll_cons (row : Nat) (rows : List Nat) :
    c.growAll g (row :: rows) = (c.grow g row 1).growAll g rows := rfl

@[simp] theorem grow_seqIdToRow (row size : Nat) :
    (c.grow g row size).seqIdToRow = c.seqIdToRow := rfl

@[simp] theorem grow_freeRows (row size : Nat) : (c.grow g row size).freeRows = c.freeRows := rfl

@[simp] theorem grow_rowSeqLens (row size : Nat) :
    (c.grow g row size).rowSeqLens =
      Function.update c.rowSeqLens row (c.rowSeqLens row + size) := rfl

@[simp] theorem grow_freePages (row size : Nat) :
    (c.grow g row size).freePages = c.freePages.drop
      (g.pagesFor (c.rowSeqLens row + size) - g.pagesFor (c.rowSeqLens row)) := rfl

/-- A page of a row that has grown: one it had, or one that was free. -/
theorem grow_page {row size : Nat}
    (room : g.pagesFor (c.rowSeqLens row + size) - g.pagesFor (c.rowSeqLens row) ≤
      c.freePages.length) {r col : Nat}
    (hcol : col < g.pagesFor ((c.grow g row size).rowSeqLens r)) :
    (col < g.pagesFor (c.rowSeqLens r) ∧
      (c.grow g row size).pageSlots r col = c.pageSlots r col) ∨
    (r = row ∧ ∃ k, ∃ hk : k < c.freePages.length,
      k < g.pagesFor (c.rowSeqLens row + size) - g.pagesFor (c.rowSeqLens row) ∧
      col = g.pagesFor (c.rowSeqLens row) + k ∧
      (c.grow g row size).pageSlots r col = (c.freePages[k] : Nat)) := by
  have hslots : (c.grow g row size).pageSlots r col =
      if r = row ∧ g.pagesFor (c.rowSeqLens row) ≤ col ∧ col < g.pagesFor (c.rowSeqLens row) +
        (g.pagesFor (c.rowSeqLens row + size) - g.pagesFor (c.rowSeqLens row))
      then ((c.freePages.getD (col - g.pagesFor (c.rowSeqLens row)) 0 : Nat) : Int)
      else c.pageSlots r col := rfl
  rw [grow_rowSeqLens] at hcol
  by_cases hrow : r = row
  · subst hrow
    rw [Function.update_self] at hcol
    by_cases hold : col < g.pagesFor (c.rowSeqLens r)
    · left
      refine ⟨hold, ?_⟩
      rw [hslots, if_neg (by omega)]
    · right
      have hk : col - g.pagesFor (c.rowSeqLens r) < c.freePages.length := by omega
      refine ⟨rfl, col - g.pagesFor (c.rowSeqLens r), hk, by omega, by omega, ?_⟩
      rw [hslots, if_pos ⟨rfl, by omega, by omega⟩, List.getD_eq_getElem _ _ hk]
  · left
    rw [Function.update_of_ne hrow] at hcol
    exact ⟨hcol, by rw [hslots, if_neg fun h => hrow h.1]⟩

/-- The pages a row had stay. -/
theorem grow_pageSlots_old {row size r col : Nat} (hcol : col < g.pagesFor (c.rowSeqLens r)) :
    (c.grow g row size).pageSlots r col = c.pageSlots r col := by
  refine if_neg fun h => ?_
  obtain ⟨rfl, hle, -⟩ := h
  omega

/-- Growing a row keeps the invariant. -/
theorem WellFormed.grow (h : WellFormed g c) {row size : Nat}
    (room : g.pagesFor (c.rowSeqLens row + size) - g.pagesFor (c.rowSeqLens row) ≤
      c.freePages.length)
    (used : row ∉ c.freeRows) (fits : c.rowSeqLens row + size ≤ g.maxModelLen) :
    WellFormed g (c.grow g row size) := by
  have hnew : ∀ {k : Nat} (hk : k < c.freePages.length), c.freePages[k] ∈ c.freePages :=
    fun hk => List.getElem_mem hk
  refine ⟨h.rows, h.distinctRows, fun r hr => ?_, fun r => ?_, fun {r col} hcol => ?_,
    fun {r col r' col'} hcol hcol' heq => ?_, h.distinctPages.sublist (List.drop_sublist _ _),
    fun {r i} hi => ?_⟩
  · have hne : r ≠ row := fun heq => used (heq ▸ hr)
    rw [grow_rowSeqLens, Function.update_of_ne hne]
    exact h.idle r hr
  · rw [grow_rowSeqLens]
    by_cases hrow : r = row
    · subst hrow
      rw [Function.update_self]
      exact fits
    · rw [Function.update_of_ne hrow]
      exact h.fits r
  · rw [grow_freePages]
    rcases grow_page room hcol with ⟨hold, hslot⟩ | ⟨rfl, k, hk, hlt, rfl, hslot⟩
    · obtain ⟨page, hpage, hfree⟩ := h.owned hold
      exact ⟨page, hslot.trans hpage, fun hin => hfree (List.mem_of_mem_drop hin)⟩
    · refine ⟨c.freePages[k], hslot, fun hin => ?_⟩
      obtain ⟨j, hj, heq⟩ := List.mem_drop_iff_getElem.mp hin
      have := (List.Nodup.getElem_inj_iff h.distinctPages).mp heq
      omega
  · rcases grow_page room hcol with ⟨hold, hslot⟩ | ⟨hr, k, hk, hlt, hk', hslot⟩
    · rcases grow_page room hcol' with ⟨hold', hslot'⟩ | ⟨hr', k', hk', hlt', -, hslot'⟩
      · exact h.apart hold hold' ((hslot.symm.trans heq).trans hslot')
      · obtain ⟨page, hpage, hfree⟩ := h.owned hold
        have hsame : (page : Int) = (c.freePages[k'] : Nat) :=
          hpage.symm.trans ((hslot.symm.trans heq).trans hslot')
        exact absurd (hnew hk') (Int.ofNat.inj hsame ▸ hfree)
    · rcases grow_page room hcol' with ⟨hold', hslot'⟩ | ⟨hr', k', hk'', hlt', hcol'', hslot'⟩
      · obtain ⟨page, hpage, hfree⟩ := h.owned hold'
        have hsame : (page : Int) = (c.freePages[k] : Nat) :=
          hpage.symm.trans ((hslot'.symm.trans heq.symm).trans hslot)
        exact absurd (hnew hk) (Int.ofNat.inj hsame ▸ hfree)
      · have hsame : ((c.freePages[k] : Nat) : Int) = (c.freePages[k'] : Nat) :=
          (hslot.symm.trans heq).trans hslot'
        have hindex := (List.Nodup.getElem_inj_iff h.distinctPages).mp (Int.ofNat.inj hsame)
        exact ⟨hr.trans hr'.symm, by omega⟩
  · have hwrite : (c.grow g row size).tokenSlots r i =
        if r = row ∧ c.rowSeqLens row ≤ i ∧ i < c.rowSeqLens row + size then
          (c.grow g row size).slotAt g row i else c.tokenSlots r i := rfl
    rw [hwrite]
    split
    · rename_i hin
      rw [hin.1]
    · rename_i hout
      have hold : i < c.rowSeqLens r := by
        rw [grow_rowSeqLens] at hi
        by_cases hrow : r = row
        · subst hrow
          rw [Function.update_self] at hi
          by_contra hge
          exact hout ⟨rfl, by omega, hi⟩
        · rwa [Function.update_of_ne hrow] at hi
      rw [h.tokens hold]
      unfold slotAt
      rw [grow_pageSlots_old (g.div_lt_pagesFor hold)]

/-- A new page, when the next token opens one, is a row that grows by one token. -/
theorem takeNewPage_eq (row : Nat) :
    c.takeNewPage g row = c.takePages row (g.pagesFor (c.rowSeqLens row))
      (g.pagesFor (c.rowSeqLens row + 1) - g.pagesFor (c.rowSeqLens row)) := by
  unfold takeNewPage opensPage
  rw [g.pagesFor_succ, Nat.add_sub_cancel_left]
  split
  · rename_i hfull
    rw [g.pagesFor_of_full (by simpa using hfull)]
  · have hslots : (c.takePages row (g.pagesFor (c.rowSeqLens row)) 0).pageSlots = c.pageSlots := by
      funext r col
      exact if_neg (by omega)
    exact (congrArg (fun slots => { c with pageSlots := slots }) hslots).symm

/-- The slot of the next token is that of a row that has grown. -/
theorem writeToken_takeNewPage (row : Nat) :
    (c.takeNewPage g row).writeToken row
      ((c.takeNewPage g row).slotAt g row (c.rowSeqLens row)) = c.grow g row 1 := by
  rw [takeNewPage_eq]
  unfold grow writeToken writeTokens
  congr 1
  funext r i
  show (if r = row ∧ i = c.rowSeqLens row then _ else _) =
    if r = row ∧ c.rowSeqLens row ≤ i ∧ i < c.rowSeqLens row + 1 then _ else _
  by_cases hi : r = row ∧ i = c.rowSeqLens row
  · obtain ⟨rfl, rfl⟩ := hi
    rw [if_pos ⟨rfl, rfl⟩, if_pos ⟨rfl, le_refl _, Nat.lt_succ_self _⟩]
    rfl
  · rw [if_neg hi, if_neg fun h => hi ⟨h.1, by omega⟩]

theorem takeNewPage_rowSeqLens (row : Nat) :
    (c.takeNewPage g row).rowSeqLens = c.rowSeqLens := by
  rw [takeNewPage_eq]
  rfl

/-- The slot after the last one, inside a page, when the last one lies in its page. -/
theorem next_slot {row : Nat} (inside : c.opensPage g row = false)
    (hlast : ∀ i < c.rowSeqLens row, c.tokenSlots row i = c.slotAt g row i) :
    c.tokenSlots row (c.rowSeqLens row - 1) + 1 = c.slotAt g row (c.rowSeqLens row) := by
  have hmod : c.rowSeqLens row % g.pageSize ≠ 0 := by
    unfold opensPage at inside
    simpa using inside
  have hpos : 0 < c.rowSeqLens row := by
    refine Nat.pos_of_ne_zero fun hzero => hmod ?_
    rw [hzero, Nat.zero_mod]
  have hdiv := Nat.div_add_mod (c.rowSeqLens row) g.pageSize
  have hlt := Nat.mod_lt (c.rowSeqLens row) g.positive
  have hprev : c.rowSeqLens row - 1 =
      g.pageSize * (c.rowSeqLens row / g.pageSize) + (c.rowSeqLens row % g.pageSize - 1) := by
    omega
  have hpage : (c.rowSeqLens row - 1) / g.pageSize = c.rowSeqLens row / g.pageSize := by
    have hsmall : c.rowSeqLens row % g.pageSize - 1 < g.pageSize := by omega
    rw [hprev, Nat.mul_add_div g.positive, Nat.div_eq_of_lt hsmall, Nat.add_zero]
  have hoffset : (c.rowSeqLens row - 1) % g.pageSize = c.rowSeqLens row % g.pageSize - 1 := by
    rw [hprev, Nat.mul_add_mod, Nat.mod_eq_of_lt (by omega)]
  rw [hlast _ (by omega)]
  unfold slotAt
  rw [hpage, hoffset]
  omega

/-- A row of an eager batch grows by one token. -/
theorem appendEager_eq {row : Nat} {noNewPages : Bool}
    (inside : noNewPages = true → c.opensPage g row = false)
    (hlast : ∀ i < c.rowSeqLens row, c.tokenSlots row i = c.slotAt g row i) :
    c.appendEager g noNewPages row = c.grow g row 1 := by
  rw [← writeToken_takeNewPage]
  unfold QuestCache.appendEager
  simp only [takeNewPage_rowSeqLens]
  cases noNewPages with
  | false => rfl
  | true =>
    have hsame : c.takeNewPage g row = c := by
      unfold takeNewPage
      rw [inside rfl]
      rfl
    rw [hsame, if_pos rfl, next_slot (inside rfl) hlast]

theorem WellFormed.appendEager (h : WellFormed g c) {row : Nat} {noNewPages : Bool}
    (inside : noNewPages = true → c.opensPage g row = false) :
    c.appendEager g noNewPages row = c.grow g row 1 :=
  appendEager_eq inside fun _ hi => h.tokens hi

/-- The page of a slot. -/
theorem slotAt_div (row i : Nat) :
    c.slotAt g row i / g.pageSize = c.pageSlots row (i / g.pageSize) := by
  have hpos := g.positive
  have hlt : ((i % g.pageSize : Nat) : Int) < g.pageSize := by exact_mod_cast Nat.mod_lt i hpos
  unfold slotAt
  rw [Int.add_comm, Int.add_mul_ediv_right _ _ (by omega),
    Int.ediv_eq_zero_of_lt (Int.natCast_nonneg _) hlt, Int.zero_add]

/-- A row of a graph step grows by one token: the kernel publishes the page that is there. -/
theorem appendGraph_eq (row : Nat) : c.appendGraph g row = c.grow g row 1 := by
  unfold appendGraph
  simp only [takeNewPage_rowSeqLens]
  rw [writeToken_takeNewPage]
  unfold publishPage
  congr 1
  funext r col
  split
  · rename_i hin
    obtain ⟨rfl, rfl⟩ := hin
    rw [slotAt_div, takeNewPage_eq]
  · rfl

/-- Releasing the row of a request keeps the invariant. -/
theorem WellFormed.releaseRow (h : WellFormed g c) {seq row : Nat}
    (hrow : c.seqIdToRow seq = some row) : WellFormed g (c.releaseRow g seq row) := by
  have hmap : ∀ {s r}, (c.releaseRow g seq row).seqIdToRow s = some r →
      s ≠ seq ∧ c.seqIdToRow s = some r := by
    intro s r hs
    have hne : s ≠ seq := by
      rintro rfl
      rw [show (c.releaseRow g s row).seqIdToRow s = none from Function.update_self ..] at hs
      cases hs
    exact ⟨hne, (Function.update_of_ne hne ..).symm.trans hs⟩
  have hlens : ∀ r, (c.releaseRow g seq row).rowSeqLens r =
      if r = row then 0 else c.rowSeqLens r := fun r => Function.update_apply ..
  have hempty : ∀ {col}, ¬ col < g.pagesFor 0 := by
    intro col hcol
    rw [QuestGeometry.lt_pagesFor] at hcol
    exact Nat.not_lt_zero _ hcol
  have hslots : ∀ {r col}, r ≠ row → (c.releaseRow g seq row).pageSlots r col = c.pageSlots r col :=
    fun hne => if_neg hne
  -- The pages that come back are those of the row.
  have hback : ∀ {page}, page ∈ (List.range (g.pagesFor (c.rowSeqLens row))).map
      (fun col => (c.pageSlots row col).toNat) →
      ∃ col, col < g.pagesFor (c.rowSeqLens row) ∧ c.pageSlots row col = (page : Nat) ∧
        page ∉ c.freePages := by
    intro page hpage
    obtain ⟨col, hcol, rfl⟩ := List.mem_map.mp hpage
    obtain ⟨page, hslot, hfree⟩ := h.owned (List.mem_range.mp hcol)
    refine ⟨col, List.mem_range.mp hcol, ?_, ?_⟩
    · rw [hslot, Int.toNat_natCast]
    · rwa [hslot, Int.toNat_natCast]
  refine ⟨fun hs hs' => h.rows (hmap hs).2 (hmap hs').2, ?_, fun r hr => ?_, fun r => ?_,
    fun {r col} hcol => ?_, fun {r col r' col'} hcol hcol' heq => ?_, ?_, fun {r i} hi => ?_⟩
  · refine List.nodup_append.mpr ⟨h.distinctRows, List.nodup_singleton _, fun r hr r' hr' heq => ?_⟩
    obtain rfl := List.mem_singleton.mp hr'
    exact (h.idle r hr).2 seq (heq ▸ hrow)
  · rcases List.mem_append.mp hr with hr | hr
    · refine ⟨?_, fun s hs => (h.idle r hr).2 s (hmap hs).2⟩
      rw [hlens]
      split
      · rfl
      · exact (h.idle r hr).1
    · obtain rfl := List.mem_singleton.mp hr
      refine ⟨by rw [hlens, if_pos rfl], fun s hs => ?_⟩
      exact (hmap hs).1 (h.rows (hmap hs).2 hrow)
  · rw [hlens]
    split
    · exact Nat.zero_le _
    · exact h.fits r
  · rw [hlens] at hcol
    split at hcol
    · exact absurd hcol hempty
    · rename_i hne
      obtain ⟨page, hpage, hfree⟩ := h.owned hcol
      refine ⟨page, (hslots hne).trans hpage, fun hin => ?_⟩
      rcases List.mem_append.mp hin with hin | hin
      · obtain ⟨col', hcol', hslot, -⟩ := hback (List.mem_reverse.mp hin)
        exact hne (h.apart hcol hcol' (hpage.trans hslot.symm)).1
      · exact hfree hin
  · rw [hlens] at hcol hcol'
    split at hcol
    · exact absurd hcol hempty
    · split at hcol'
      · exact absurd hcol' hempty
      · rename_i hne hne'
        rw [hslots hne, hslots hne'] at heq
        exact h.apart hcol hcol' heq
  · refine List.nodup_append.mpr ⟨List.nodup_reverse.mpr ?_, h.distinctPages,
      fun page hpage page' hpage' heq => ?_⟩
    · refine List.Nodup.map_on (fun col hcol col' hcol' heq => ?_) List.nodup_range
      obtain ⟨page, hpage, -⟩ := h.owned (List.mem_range.mp hcol)
      obtain ⟨page', hpage', -⟩ := h.owned (List.mem_range.mp hcol')
      rw [hpage, hpage', Int.toNat_natCast, Int.toNat_natCast] at heq
      exact (h.apart (List.mem_range.mp hcol) (List.mem_range.mp hcol')
        (by rw [hpage, hpage', heq])).2
    · obtain ⟨col, -, -, hfree⟩ := hback (List.mem_reverse.mp hpage)
      exact hfree (heq ▸ hpage')
  · rw [hlens] at hi
    split at hi
    · exact absurd hi (Nat.not_lt_zero _)
    · rename_i hne
      have htoken : (c.releaseRow g seq row).tokenSlots r i = c.tokenSlots r i := if_neg hne
      rw [htoken, h.tokens hi]
      unfold slotAt
      rw [hslots hne]

/-! ## What the methods do -/

/-- Requests have been given rows: nothing else has changed. -/
structure Placed (g : QuestGeometry) (c c' : QuestCache) : Prop where
  formed : WellFormed g c'
  lens : c'.rowSeqLens = c.rowSeqLens
  pages : c'.freePages = c.freePages
  kept : ∀ s row, c.seqIdToRow s = some row → c'.seqIdToRow s = some row
  rowLen : ∀ s, c'.rowLen s = c.rowLen s

theorem Placed.refl (h : WellFormed g c) : Placed g c c := ⟨h, rfl, rfl, fun _ _ h => h, fun _ => rfl⟩

theorem Placed.trans {c' c'' : QuestCache} (h : Placed g c c') (h' : Placed g c' c'') :
    Placed g c c'' :=
  ⟨h'.formed, h'.lens.trans h.lens, h'.pages.trans h.pages,
    fun s row hrow => h'.kept s row (h.kept s row hrow), fun s => (h'.rowLen s).trans (h.rowLen s)⟩

/-- The row of a request is not free. -/
theorem WellFormed.used (h : WellFormed g c) {seq row : Nat} (hrow : c.seqIdToRow seq = some row) :
    row ∉ c.freeRows := fun hin => (h.idle row hin).2 seq hrow

theorem rowLen_of_row {seq row : Nat} (hrow : c.seqIdToRow seq = some row) :
    c.rowLen seq = c.rowSeqLens row := by
  unfold rowLen
  rw [hrow]

/-- Requests grew by `size` tokens, the others stayed. -/
structure Appended (g : QuestGeometry) (seqs : List SeqId) (size : Nat) (c c' : QuestCache) :
    Prop where
  formed : WellFormed g c'
  rowLen : ∀ s, c'.rowLen s = c.rowLen s + if s ∈ seqs then size else 0
  kept : ∀ s row, c.seqIdToRow s = some row → c'.seqIdToRow s = some row
  placed : ∀ s ∈ seqs, ∃ row, c'.seqIdToRow s = some row

theorem Placed.appended {c' c'' : QuestCache} {seqs : List SeqId} {size : Nat}
    (h : Placed g c c') (h' : Appended g seqs size c' c'') : Appended g seqs size c c'' :=
  ⟨h'.formed, fun s => by rw [h'.rowLen, h.rowLen], fun s row hrow => h'.kept s row (h.kept s row hrow),
    h'.placed⟩

end QuestCache

open QuestCache

section Methods

variable {g : QuestGeometry} {c : QuestCache}

theorem getFreeRow_places (h : WellFormed g c) (seq : SeqId) :
    Spec (· = c) (getFreeRow seq) (fun row c' => Placed g c c' ∧ c'.seqIdToRow seq = some row)
      fun _ c' => Placed g c c' := by
  refine Spec.get_bind fun t ht => ?_
  subst ht
  cases hrow : t.seqIdToRow seq with
  | some row =>
    refine Spec.pure fun u hu => ?_
    obtain rfl : t = u := hu.symm
    exact ⟨.refl h, hrow⟩
  | none =>
    cases hfree : t.freeRows with
    | nil =>
      refine Spec.throw fun u hu => ?_
      obtain rfl : t = u := hu.symm
      exact .refl h
    | cons row rest =>
      have hdistinct : (row :: rest).Nodup := hfree ▸ h.distinctRows
      obtain ⟨hnew, hrest⟩ := List.nodup_cons.mp hdistinct
      have hidle := h.idle row (hfree ▸ List.mem_cons_self)
      have hself : (t.assignRow seq row rest).seqIdToRow seq = some row := Function.update_self ..
      have hother : ∀ s, s ≠ seq → (t.assignRow seq row rest).seqIdToRow s = t.seqIdToRow s :=
        fun s hne => Function.update_of_ne hne ..
      have hmap : ∀ s r, (t.assignRow seq row rest).seqIdToRow s = some r →
          s = seq ∧ r = row ∨ t.seqIdToRow s = some r := by
        intro s r hs
        by_cases heq : s = seq
        · rw [heq, hself] at hs
          exact Or.inl ⟨heq, (Option.some.inj hs).symm⟩
        · rw [hother s heq] at hs
          exact Or.inr hs
      intro u hu
      obtain rfl : t = u := hu.symm
      refine ⟨⟨⟨fun {s s' r} hs hs' => ?_, hrest, fun r hr => ⟨?_, fun s hs => ?_⟩, h.fits, h.owned,
        h.apart, h.distinctPages, h.tokens⟩, rfl, rfl, fun s r hs => ?_, fun s => ?_⟩, hself⟩
      · rcases hmap s r hs with ⟨rfl, rfl⟩ | hold
        · rcases hmap s' r hs' with ⟨rfl, -⟩ | hold'
          · rfl
          · exact absurd hold' (hidle.2 s')
        · rcases hmap s' r hs' with ⟨-, rfl⟩ | hold'
          · exact absurd hold (hidle.2 s)
          · exact h.rows hold hold'
      · exact (h.idle r (hfree ▸ List.mem_cons_of_mem _ hr)).1
      · rcases hmap s r hs with ⟨-, rfl⟩ | hold
        · exact hnew hr
        · exact (h.idle r (hfree ▸ List.mem_cons_of_mem _ hr)).2 s hold
      · have hne : s ≠ seq := by
          rintro rfl
          rw [hrow] at hs
          cases hs
        exact (hother s hne).trans hs
      · by_cases heq : s = seq
        · subst heq
          unfold rowLen
          simp only [hself, hrow]
          exact hidle.1
        · unfold rowLen
          simp only [hother s heq]
          rfl

/-- A request that grows. -/
theorem QuestCache.WellFormed.appended (h : WellFormed g c) {seq row size : Nat}
    (hrow : c.seqIdToRow seq = some row)
    (room : g.pagesFor (c.rowSeqLens row + size) - g.pagesFor (c.rowSeqLens row) ≤
      c.freePages.length)
    (fits : c.rowSeqLens row + size ≤ g.maxModelLen) :
    Appended g [seq] size c (c.grow g row size) := by
  refine ⟨h.grow room (h.used hrow) fits, fun s => ?_, fun _ _ h => h, fun s hs => ?_⟩
  · unfold rowLen
    rw [grow_seqIdToRow, grow_rowSeqLens]
    cases hs : c.seqIdToRow s with
    | none =>
      have hne : s ∉ [seq] := fun hin => by
        rw [List.mem_singleton.mp hin, hrow] at hs
        cases hs
      rw [if_neg hne]
    | some r =>
      simp only [List.mem_singleton]
      by_cases heq : s = seq
      · subst heq
        obtain rfl : r = row := Option.some.inj (hs.symm.trans hrow)
        rw [Function.update_self, if_pos rfl]
      · have hne : r ≠ row := fun hr => heq (h.rows (hr ▸ hs) hrow)
        rw [Function.update_of_ne hne, if_neg heq, Nat.add_zero]
  · obtain rfl := List.mem_singleton.mp hs
    exact ⟨row, hrow⟩

theorem allocate_appends (h : WellFormed g c) (seq : SeqId) (size : Nat) :
    Spec (· = c) (allocate g seq size) (fun _ c' => Appended g [seq] size c c')
      fun _ c' => Placed g c c' := by
  refine Spec.get_bind fun t ht => ?_
  subst ht
  refine Spec.raiseIf_bind (fun _ _ hu => by rw [hu]; exact .refl h) fun hroom => ?_
  refine Spec.bind (getFreeRow_places h seq) fun row => Spec.get_bind fun u hu => ?_
  obtain ⟨hplaced, hrow⟩ := hu
  refine Spec.raiseIf_bind (fun _ _ hv => hv ▸ hplaced) fun hfits => ?_
  have hlen : t.rowLen seq = u.rowSeqLens row := by
    rw [← hplaced.rowLen, rowLen_of_row hrow]
  have hneeded : requiredNewPages g t seq size =
      g.pagesFor (u.rowSeqLens row + size) - g.pagesFor (u.rowSeqLens row) := by
    unfold requiredNewPages
    rw [hlen]
  rw [hneeded] at hroom
  rw [hneeded]
  have hgrown := hplaced.formed.appended hrow (by rw [hplaced.pages]; exact not_lt.mp hroom)
    (not_lt.mp hfits)
  intro v hv
  obtain rfl : u = v := hv.symm
  exact hplaced.appended hgrown

theorem preparePrefillRow_appends (h : WellFormed g c) (seq : SeqId) (start size : Nat) :
    Spec (· = c) (preparePrefillRow g seq start size) (fun _ c' => Appended g [seq] size c c')
      fun _ c' => Placed g c c' := by
  refine Spec.get_bind fun t ht => ?_
  subst ht
  exact Spec.raiseIf_bind (fun _ _ hu => by rw [hu]; exact .refl h) fun _ => allocate_appends h seq size

/-- The rows of a batch. -/
theorem placeRows (seqs : List SeqId) : ∀ {c : QuestCache}, WellFormed g c →
    Spec (· = c) (mapEach seqs getFreeRow)
      (fun rows c' => Placed g c c' ∧
        List.Forall₂ (fun s row => c'.seqIdToRow s = some row) seqs rows)
      fun _ c' => Placed g c c' := by
  induction seqs with
  | nil =>
    intro c h
    refine Spec.pure fun u hu => ?_
    obtain rfl : c = u := hu.symm
    exact ⟨.refl h, .nil⟩
  | cons seq seqs ih =>
    intro c h
    refine Spec.bind (getFreeRow_places h seq) fun row => Spec.intro fun u hu => ?_
    obtain ⟨hplaced, hrow⟩ := hu
    refine Spec.bind ((ih hplaced.formed).conseq (fun _ h => h) (fun _ _ h => h)
      fun _ _ hv => hplaced.trans hv) fun rows => Spec.pure fun v hv => ?_
    exact ⟨hplaced.trans hv.1, .cons (hv.1.kept seq row hrow) hv.2⟩

/-- The rows of a batch of distinct requests grow by one token each (`growAll`); `inside` is that no row opens a
page. The induction is on the rows, with the free pages left for those to come. -/
theorem growRows {append : Nat → QuestCache → QuestCache} (inside : Bool)
    (happend : ∀ {c row}, WellFormed g c → (inside = true → c.opensPage g row = false) →
      append row c = c.grow g row 1) {seqs : List SeqId} {rows : List Nat} :
    ∀ {c : QuestCache}, WellFormed g c →
      List.Forall₂ (fun s row => c.seqIdToRow s = some row) seqs rows → seqs.Nodup →
      (∀ row ∈ rows, c.rowSeqLens row + 1 ≤ g.maxModelLen) →
      rows.countP (fun row => c.opensPage g row) ≤ c.freePages.length →
      (inside = true → rows.countP (fun row => c.opensPage g row) = 0) →
      Spec (· = c) (forEach rows fun row => (modify (append row) : QuestM Unit))
        (fun _ c' => c' = c.growAll g rows ∧ Appended g seqs 1 c c') fun _ _ => False := by
  induction rows generalizing seqs with
  | nil =>
    intro c h hrows _ _ _ _
    cases hrows
    refine Spec.pure fun u hu => ?_
    obtain rfl : c = u := hu.symm
    exact ⟨rfl, h, fun s => by rw [if_neg List.not_mem_nil, Nat.add_zero], fun _ _ h => h, nofun⟩
  | cons row rows ih =>
    intro c h hrows hnd hfits hroom hinside
    cases hrows with
    | @cons seq _ seqs _ hrow hrows =>
    obtain ⟨hfresh, hnd⟩ := List.nodup_cons.mp hnd
    have hneeded : g.pagesFor (c.rowSeqLens row + 1) - g.pagesFor (c.rowSeqLens row) =
        if c.opensPage g row then 1 else 0 := by
      rw [g.pagesFor_succ, Nat.add_sub_cancel_left]
      rfl
    rw [List.countP_cons] at hroom hinside
    have hin : inside = true → c.opensPage g row = false := by
      intro hyes
      have := hinside hyes
      by_contra hopen
      rw [if_pos (by simpa using hopen)] at this
      omega
    have hgrown := h.appended hrow (by rw [hneeded]; omega) (hfits row List.mem_cons_self)
    -- The other rows belong to other requests: they are as long as before.
    have hother : ∀ r ∈ rows, (c.grow g row 1).rowSeqLens r = c.rowSeqLens r := by
      intro r hr
      refine Function.update_of_ne ?_ ..
      rintro rfl
      obtain ⟨i, hi, hget⟩ := List.mem_iff_getElem.mp hr
      have hlen := hrows.length_eq
      have hseq := hrows.get (i := i) (by omega) hi
      rw [List.get_eq_getElem, List.get_eq_getElem, hget] at hseq
      exact hfresh (h.rows hrow hseq ▸ List.getElem_mem _)
    have hopens : ∀ r ∈ rows, (c.grow g row 1).opensPage g r = c.opensPage g r := by
      intro r hr
      unfold opensPage
      rw [hother r hr]
    have hcount : rows.countP (fun r => (c.grow g row 1).opensPage g r) =
        rows.countP fun r => c.opensPage g r :=
      List.countP_congr fun r hr => by rw [hopens r hr]
    refine Spec.bind (R := fun _ u => u = c.grow g row 1) ?_ fun _ => ?_
    · intro u hu
      obtain rfl : c = u := hu.symm
      exact happend h hin
    · refine (ih hgrown.formed hrows hnd (fun r hr => ?_) ?_ fun hyes => ?_).post
        fun _ u ⟨hrun, hu⟩ => ?_
      · rw [hother r hr]
        exact hfits r (List.mem_cons_of_mem _ hr)
      · rw [hcount, grow_freePages, List.length_drop, hneeded]
        omega
      · rw [hcount]
        have := hinside hyes
        omega
      · refine ⟨hrun, hu.formed, fun s => ?_, hu.kept, fun s hs => ?_⟩
        · rw [hu.rowLen, hgrown.rowLen]
          simp only [List.mem_cons, List.not_mem_nil, or_false]
          by_cases hs : s = seq
          · rw [if_pos hs, if_neg fun h => hfresh (hs ▸ h), if_pos (Or.inl hs)]
          · simp only [hs, false_or, if_false, Nat.add_zero]
        · rcases List.mem_cons.mp hs with rfl | hs
          · exact ⟨row, hu.kept s row hrow⟩
          · exact hu.placed s hs

theorem allocateBatch_appends (h : WellFormed g c) {seqs : List SeqId} (hnd : seqs.Nodup) :
    Spec (· = c) (allocateBatch g seqs) (fun _ c' => Appended g seqs 1 c c')
      fun _ c' => Placed g c c' := by
  refine Spec.bind (placeRows seqs h) fun rows => Spec.get_bind fun u hu => ?_
  obtain ⟨hplaced, hrows⟩ := hu
  refine Spec.raiseIf_bind (fun _ _ hv => hv ▸ hplaced) fun hfits => ?_
  refine Spec.raiseIf_bind (fun _ _ hv => hv ▸ hplaced) fun hroom => ?_
  refine (growRows _ (fun hc => hc.appendEager) hplaced.formed hrows hnd (fun r hr => ?_)
    (not_lt.mp hroom) fun hnone => by simpa using hnone).conseq (fun _ h => h)
      (fun _ _ hv => hplaced.appended hv.2) fun _ _ hv => hv.elim
  exact not_lt.mp fun hlt => hfits ⟨r, hr, hlt⟩

theorem checkGraphRows_checks (contextCapacity : Nat) (rows : List Nat) (c : QuestCache)
    {P : QuestCache → Prop} :
    Spec P (checkGraphRows g contextCapacity rows c)
      (fun _ u => P u ∧ (∀ row ∈ rows, c.rowSeqLens row + 1 ≤ g.maxModelLen) ∧
        rows.countP (fun row => c.opensPage g row) ≤ c.freePages.length)
      fun _ => P := by
  refine Spec.raiseIf_bind (fun _ _ hu => hu) fun _ => ?_
  refine Spec.raiseIf_bind (fun _ _ hu => hu) fun hfits => ?_
  refine (Spec.raiseIf (E := fun _ => P) fun _ hu _ => hu).post fun _ u hu => ?_
  refine ⟨hu.1, fun row hrow => ?_, not_lt.mp hu.2⟩
  have hmax : ∀ (l : List Nat) (start : Nat), start ≤ l.foldl max start ∧
      ∀ n ∈ l, n ≤ l.foldl max start := by
    intro l
    induction l with
    | nil => exact fun start => ⟨le_refl _, nofun⟩
    | cons a l ih =>
      intro start
      obtain ⟨hstart, hall⟩ := ih (max start a)
      refine ⟨(le_max_left _ _).trans hstart, fun n hn => ?_⟩
      rcases List.mem_cons.mp hn with rfl | hn
      · exact (le_max_right _ _).trans hstart
      · exact hall n hn
  exact ((hmax _ 0).2 _ (List.mem_map_of_mem hrow)).trans (not_lt.mp hfits)

theorem prepareDecodeGraphStep_appends (h : WellFormed g c) (contextCapacity : Nat)
    {seqs : List SeqId} (hnd : seqs.Nodup) :
    Returns (· = c) (prepareDecodeGraphStep g contextCapacity seqs) fun _ c' =>
      Appended g seqs 1 c c' := by
  refine Spec.get_bind fun t ht => ?_
  subst ht
  have hplan := placeRows seqs h t rfl
  cases hrun : mapEach seqs getFreeRow t with
  | error error u => exact Spec.throw fun _ _ => trivial
  | ok rows planned =>
    rw [hrun] at hplan
    obtain ⟨hplaced, hrows⟩ := hplan
    refine Spec.bind (checkGraphRows_checks contextCapacity rows planned).returns fun _ =>
      Spec.intro fun u hu => ?_
    obtain ⟨-, hfits, hroom⟩ := hu
    refine Spec.bind (R := fun _ v => v = planned) (fun _ _ => rfl) fun _ => ?_
    exact (growRows false (fun _ _ => appendGraph_eq _) hplaced.formed hrows hnd hfits
      hroom nofun).returns.post fun _ _ hv => hplaced.appended hv.2

/-- The request gives its pages back. -/
theorem freeSeq_releases (h : WellFormed g c) (seq : SeqId) :
    Spec (· = c) (freeSeq g seq)
      (fun _ c' => WellFormed g c' ∧
        (∀ s, c'.rowLen s = if s = seq then 0 else c.rowLen s) ∧ c'.seqIdToRow seq = none)
      fun _ c' => c' = c := by
  refine Spec.get_bind fun t ht => ?_
  subst ht
  cases hrow : t.seqIdToRow seq with
  | none => exact Spec.throw fun _ h => h
  | some row =>
    have hself : (t.releaseRow g seq row).seqIdToRow seq = none := Function.update_self ..
    intro u _
    refine ⟨h.releaseRow hrow, fun s => ?_, hself⟩
    by_cases hs : s = seq
    · subst hs
      unfold rowLen
      rw [hself, if_pos rfl]
    · rw [if_neg hs]
      have hother : (t.releaseRow g seq row).seqIdToRow s = t.seqIdToRow s :=
        Function.update_of_ne hs ..
      unfold rowLen
      rw [hother]
      cases hs' : t.seqIdToRow s with
      | none => rfl
      | some r =>
        have hne : r ≠ row := fun heq => hs (h.rows (heq ▸ hs') hrow)
        exact Function.update_of_ne hne ..

end Methods

end SparseVllm
