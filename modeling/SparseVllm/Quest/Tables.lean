import SparseVllm.Lib.Image
import SparseVllm.Lib.Run
import SparseVllm.Lib.Table
import SparseVllm.Quest.Pages

/-!
# The host and the device tables of QuEST (`engine/cache_manager/quest.py`)

A page table is kept twice: on the host, where the pages of a step are planned, and on the device,
with the token table, where the kernels read them. An eager step (`_allocate_batch`) writes all of
them; a graph step (`_prepare_decode_graph_step_no_prefix`) plans rows, pages and lengths on the
host, and the graph's metadata kernel stores each active request's write slot and page
(`publishGraphMetadata`).

* `allocateBatch_lifts`: an eager step is a batch whose rows grow by one token (`growBatch`), which
  with one table for both is the `allocateBatch` of `Quest.Pages` (`allocateBatch_grows`).
* `prepareGraph_spec`, `publish_prepared`: a graph step raises without a change or reserves such a
  batch, and the kernel completes it.
* `graphStep_refines`: both hold after any run, and the device tables are those of the host.

Left out: the tensors the inputs are packed in, and the prefix cache: no run has rows that the mixed
coordinator attached.
-/

namespace SparseVllm

open SparseVllm.Lib

/-! ## The state -/

/-- The allocator with both page tables: `host.pageSlots` is `buffer_req_to_page_slots_cpu`. The
token table is on the device only. -/
structure QuestTables where
  host : QuestCache
  /-- `buffer_req_to_page_slots`. -/
  devicePages : Nat → Nat → Int

/-- What a step raises. -/
inductive QuestTablesError where
  | allocator (error : QuestError)
  | graphBatch (real capacity : Nat)
  | rowPlanChanged (expected : Nat) (actual : Option Nat)
  | unallocatedPage
  deriving DecidableEq, Repr

/-- The capacities a decode graph is captured for. -/
structure QuestGraphContract where
  batchCapacity : Nat
  contextCapacity : Nat

/-- A row of the graph's inputs. -/
structure QuestGraphRow where
  requestIndex : Nat
  contextLen : Nat
  writeSlot : Int
  active : Bool
  deriving DecidableEq, Repr

/-- The requests of a decode batch. -/
structure QuestBatch where
  seqs : List SeqId
  distinct : seqs.Nodup := by decide

namespace QuestCache

variable (g : QuestGeometry)

/-- The cells of the page table that a batch opens, and the pages they get. -/
def newPages (rows : List Nat) (c : QuestCache) : List ((Nat × Nat) × Int) :=
  ((rows.filter fun row => c.opensPage g row).map fun row =>
    (row, c.rowSeqLens row / g.pageSize)).zip (c.freePages.map fun page : Nat => (page : Int))

/-- Pop the pages a batch opens into the page table of the host. -/
def reservePages (rows : List Nat) (c : QuestCache) : QuestCache :=
  { c with
    freePages := c.freePages.drop (rows.countP fun row => c.opensPage g row)
    pageSlots := assign c.pageSlots (c.newPages g rows) }

/-- `row_seq_lens[rows] += 1`. -/
def advanceRows (rows : List Nat) (c : QuestCache) : QuestCache :=
  { c with rowSeqLens := fun r => if r ∈ rows then c.rowSeqLens r + 1 else c.rowSeqLens r }

/-- The slots of the next tokens, from the pages. -/
def nextSlots (rows : List Nat) (c : QuestCache) : List Int :=
  rows.map fun row => c.slotAt g row (c.rowSeqLens row)

end QuestCache

namespace QuestTables

variable (g : QuestGeometry)

/-- Both page tables in one. -/
def mirror (c : QuestCache) : QuestTables := ⟨c, c.pageSlots⟩

/-- The state at construction. -/
def initial (numPages numRows : Nat) : QuestTables := mirror (.initial numPages numRows)

/-- Pop `count` pages into the columns of a row from `first` on. -/
def takePages (row first count : Nat) (t : QuestTables) : QuestTables where
  host := t.host.takePages row first count
  devicePages := fun r col =>
    if r = row ∧ first ≤ col ∧ col < first + count then (t.host.freePages.getD (col - first) 0 : Nat)
    else t.devicePages r col

/-- The token slots of a chunk come from the page table of the device. -/
def writeTokens (row size : Nat) (t : QuestTables) : QuestTables :=
  { t with host :=
    { t.host with
      tokenSlots := fun r i =>
        if r = row ∧ t.host.rowSeqLens row ≤ i ∧ i < t.host.rowSeqLens row + size then
          t.devicePages row (i / g.pageSize) * g.pageSize + (i % g.pageSize : Nat)
        else t.host.tokenSlots r i
      rowSeqLens := Function.update t.host.rowSeqLens row (t.host.rowSeqLens row + size) } }

/-- Pop the pages an eager batch opens, into both tables. -/
def takeNewPages (rows : List Nat) (t : QuestTables) : QuestTables where
  host := t.host.reservePages g rows
  devicePages := assign t.devicePages (t.host.newPages g rows)

/-- Write the next token of each row, and advance the lengths. -/
def writeSlots (rows : List Nat) (slots : List Int) (t : QuestTables) : QuestTables :=
  { t with host :=
    { t.host.advanceRows rows with
      tokenSlots := assign t.host.tokenSlots
        ((rows.map fun row => (row, t.host.rowSeqLens row)).zip slots) } }

/-- Forget the row of a request, on both sides. -/
def releaseRow (seq row : Nat) (t : QuestTables) : QuestTables where
  host := t.host.releaseRow g seq row
  devicePages := fun r col => if r = row then -1 else t.devicePages r col

/-! ## The methods -/

/-- The programs of the cache manager. -/
abbrev TablesM (α : Type) := EStateM QuestTablesError QuestTables α

/-- A method that stays on the host. -/
def onHost {α : Type} (m : QuestM α) : TablesM α :=
  zoom QuestTables.host (fun c t => { t with host := c }) .allocator m

/-- `_allocate`. -/
def allocate (seq : SeqId) (size : Nat) : TablesM Unit := do
  let t ← get
  let needed := requiredNewPages g t.host seq size
  raiseIf (t.host.freePages.length < needed)
    (.allocator (.outOfPages needed t.host.freePages.length))
  let row ← onHost (getFreeRow seq)
  let t ← get
  raiseIf (g.maxModelLen < t.host.rowSeqLens row + size) (.allocator .rowTooLong)
  modify (takePages row (g.pagesFor (t.host.rowSeqLens row)) needed)
  modify (writeTokens g row size)

/-- A request of `_prepare_prefill`. -/
def preparePrefillRow (seq : SeqId) (start size : Nat) : TablesM Unit := do
  let t ← get
  raiseIf ((t.host.seqIdToRow seq).isSome ∧ t.host.rowLen seq ≠ start)
    (.allocator (.rowLengthMismatch seq (t.host.rowLen seq) start))
  allocate g seq size

/-- `_allocate_batch`: the slots it returns. -/
def allocateBatch (seqs : List SeqId) : TablesM (List Int) := do
  let rows ← onHost (mapEach seqs getFreeRow)
  let t ← get
  raiseIf (∃ row ∈ rows, g.maxModelLen < t.host.rowSeqLens row + 1) (.allocator .rowTooLong)
  let needed := rows.countP fun row => t.host.opensPage g row
  raiseIf (t.host.freePages.length < needed)
    (.allocator (.outOfPages needed t.host.freePages.length))
  modify (takeNewPages g rows)
  let t ← get
  -- Without a new page the slot is the one after the last, which is on the device.
  let slots := if needed = 0 then
      rows.map fun row => t.host.tokenSlots row (t.host.rowSeqLens row - 1) + 1
    else t.host.nextSlots g rows
  modify (writeSlots rows slots)
  return slots

/-- `_plan_decode_rows`: the row of each request, and those taken from the free rows. -/
def planDecodeRows (c : QuestCache) :
    List SeqId → List Nat → List (SeqId × Nat) → Except QuestError (List Nat × List (SeqId × Nat))
  | [], _, pending => .ok ([], pending)
  | seq :: seqs, free, pending =>
    match (c.seqIdToRow seq).or (pending.lookup seq), free with
    | some row, free => do
      let (rows, pending) ← planDecodeRows c seqs free pending
      return (row :: rows, pending)
    | none, [] => .error .noFreeRows
    | none, row :: free => do
      let (rows, pending) ← planDecodeRows c seqs free (pending ++ [(seq, row)])
      return (row :: rows, pending)

/-- A request of `_commit_decode_rows`. -/
def commitDecodeRow (seq : SeqId) (expected : Nat) : TablesM Unit := do
  let t ← get
  match t.host.freeRows with
  | [] => throw (.rowPlanChanged expected none)
  | row :: rest =>
    if row ≠ expected then throw (.rowPlanChanged expected (some row))
    else set { t with host := t.host.assignRow seq row rest }

/-- `_commit_decode_rows`. -/
def commitDecodeRows (pending : List (SeqId × Nat)) : TablesM Unit :=
  forEach pending fun planned => commitDecodeRow planned.1 planned.2

/-- `DecodeGraphPaddingContract`: no caller changes its defaults. -/
def padded (row : QuestGraphRow) : QuestGraphRow := { row with writeSlot := -1, active := false }

/-- `pack_cache_facts`: the active rows, then the first one again up to the capacity. -/
def packInputs (capacity : Nat) : List QuestGraphRow → List QuestGraphRow
  | [] => []
  | row :: rows => (row :: rows) ++ List.replicate (capacity - (rows.length + 1)) (padded row)

/-- `_prepare_decode_graph_step_no_prefix`: the graph's inputs. -/
def prepareDecodeGraphStepNoPrefix (k : QuestGraphContract) (seqs : List SeqId) :
    TablesM (List QuestGraphRow) := do
  raiseIf (seqs.length = 0 ∨ k.batchCapacity < seqs.length)
    (.graphBatch seqs.length k.batchCapacity)
  let t ← get
  match planDecodeRows t.host seqs t.host.freeRows [] with
  | .error error => throw (.allocator error)
  | .ok (rows, pending) => do
    onHost (checkGraphRows g k.contextCapacity rows t.host)
    commitDecodeRows pending
    modify fun t => { t with host := t.host.reservePages g rows }
    let t ← get
    raiseIf (∃ row ∈ rows, t.host.pageSlots row (t.host.rowSeqLens row / g.pageSize) < 0)
      .unallocatedPage
    modify fun t => { t with host := t.host.advanceRows rows }
    return packInputs k.batchCapacity (rows.zipWith
      (fun row slot => ⟨row, t.host.rowSeqLens row + 1, slot, true⟩) (t.host.nextSlots g rows))

/-- The metadata kernel: each active request's write slot and its page. -/
def publishGraphMetadata (inputs : List QuestGraphRow) (t : QuestTables) : QuestTables where
  host := { t.host with
    tokenSlots := assign t.host.tokenSlots ((inputs.filter (·.active)).map fun row =>
      ((row.requestIndex, row.contextLen - 1), row.writeSlot)) }
  devicePages := assign t.devicePages ((inputs.filter (·.active)).map fun row =>
    ((row.requestIndex, (row.contextLen - 1) / g.pageSize), row.writeSlot / g.pageSize))

/-- A graph step: the host prepares it, the graph starts with the kernel. -/
def graphStep (k : QuestGraphContract) (seqs : List SeqId) : TablesM Unit := do
  let inputs ← prepareDecodeGraphStepNoPrefix g k seqs
  modify (publishGraphMetadata g inputs)

/-- `free_seq`. -/
def freeSeq (seq : SeqId) : TablesM Unit := do
  let t ← get
  match t.host.seqIdToRow seq with
  | none => throw (.allocator (.unknownSequence seq))
  | some row => set (t.releaseRow g seq row)

end QuestTables

/-! ## Rows that grow together -/

namespace QuestCache

variable {g : QuestGeometry} {c : QuestCache}

@[simp] theorem growAll_seqIdToRow (rows : List Nat) :
    (c.growAll g rows).seqIdToRow = c.seqIdToRow := by
  induction rows generalizing c with
  | nil => rfl
  | cons row rows ih => exact ih

@[simp] theorem growAll_freeRows (rows : List Nat) : (c.growAll g rows).freeRows = c.freeRows := by
  induction rows generalizing c with
  | nil => rfl
  | cons row rows ih => exact ih

/-- A row that grows opens a page exactly when its pages are full. -/
theorem grow_needed (row : Nat) :
    g.pagesFor (c.rowSeqLens row + 1) - g.pagesFor (c.rowSeqLens row) =
      if c.opensPage g row then 1 else 0 := by
  rw [g.pagesFor_succ, Nat.add_sub_cancel_left]
  rfl

theorem grow_rowSeqLens_of_ne {row r : Nat} (h : r ≠ row) :
    (c.grow g row 1).rowSeqLens r = c.rowSeqLens r := Function.update_of_ne h ..

theorem grow_pageSlots_of_ne {row r : Nat} (h : r ≠ row) :
    (c.grow g row 1).pageSlots r = c.pageSlots r := by
  funext col
  exact if_neg fun hin => h hin.1

theorem grow_tokenSlots_of_ne {row r : Nat} (h : r ≠ row) :
    (c.grow g row 1).tokenSlots r = c.tokenSlots r := by
  funext i
  exact if_neg fun hin => h hin.1

theorem grow_opensPage_of_ne {row r : Nat} (h : r ≠ row) :
    (c.grow g row 1).opensPage g r = c.opensPage g r := by
  unfold opensPage
  rw [grow_rowSeqLens_of_ne h]

/-- The other rows stay. -/
theorem growAll_of_notMem {rows : List Nat} {r : Nat} (h : r ∉ rows) :
    (c.growAll g rows).rowSeqLens r = c.rowSeqLens r ∧
      (c.growAll g rows).pageSlots r = c.pageSlots r ∧
      (c.growAll g rows).tokenSlots r = c.tokenSlots r := by
  induction rows generalizing c with
  | nil => exact ⟨rfl, rfl, rfl⟩
  | cons row rows ih =>
    have hne : r ≠ row := List.ne_of_not_mem_cons h
    have hout : r ∉ rows := List.not_mem_of_not_mem_cons h
    obtain ⟨hlens, hpages, htokens⟩ := ih (c := c.grow g row 1) hout
    exact ⟨hlens.trans (grow_rowSeqLens_of_ne hne), hpages.trans (grow_pageSlots_of_ne hne),
      htokens.trans (grow_tokenSlots_of_ne hne)⟩

/-- A row of the batch is one token longer. -/
theorem growAll_rowSeqLens {rows : List Nat} (hnd : rows.Nodup) :
    (c.growAll g rows).rowSeqLens = (c.advanceRows rows).rowSeqLens := by
  funext r
  show _ = if r ∈ rows then c.rowSeqLens r + 1 else c.rowSeqLens r
  induction rows generalizing c with
  | nil => rfl
  | cons row rows ih =>
    obtain ⟨hfresh, hnd⟩ := List.nodup_cons.mp hnd
    rw [growAll_cons]
    by_cases hrow : r = row
    · subst hrow
      rw [if_pos List.mem_cons_self, (growAll_of_notMem hfresh).1]
      exact Function.update_self ..
    · rw [ih hnd, grow_rowSeqLens_of_ne hrow]
      simp only [List.mem_cons, hrow, false_or]

/-- What a row that grows leaves to the others. -/
theorem countP_grow {row : Nat} {rows : List Nat} (h : row ∉ rows) :
    rows.countP (fun r => (c.grow g row 1).opensPage g r) =
      rows.countP fun r => c.opensPage g r :=
  List.countP_congr fun r hr => by rw [grow_opensPage_of_ne (ne_of_mem_of_not_mem hr h)]

theorem growAll_freePages {rows : List Nat} (hnd : rows.Nodup) :
    (c.growAll g rows).freePages =
      c.freePages.drop (rows.countP fun row => c.opensPage g row) := by
  induction rows generalizing c with
  | nil => rfl
  | cons row rows ih =>
    obtain ⟨hfresh, hnd⟩ := List.nodup_cons.mp hnd
    rw [growAll_cons, ih hnd, countP_grow hfresh, grow_freePages, grow_needed, List.drop_drop,
      List.countP_cons, Nat.add_comm]

/-- The pages a batch opens: the first row's, then those of the rest. -/
theorem newPages_cons {row : Nat} {rows : List Nat} (hfresh : row ∉ rows)
    (room : (if c.opensPage g row then 1 else 0) ≤ c.freePages.length) :
    c.newPages g (row :: rows) =
      (if c.opensPage g row then [((row, c.rowSeqLens row / g.pageSize), (c.freePages.getD 0 0 : Int))]
        else []) ++ (c.grow g row 1).newPages g rows := by
  have hne : ∀ r ∈ rows, r ≠ row := fun r hr => ne_of_mem_of_not_mem hr hfresh
  have hfilter : rows.filter (fun r => (c.grow g row 1).opensPage g r) =
      rows.filter fun r => c.opensPage g r :=
    List.filter_congr fun r hr => grow_opensPage_of_ne (hne r hr)
  have hcells : ((rows.filter fun r => c.opensPage g r).map fun r =>
      (r, (c.grow g row 1).rowSeqLens r / g.pageSize)) =
      (rows.filter fun r => c.opensPage g r).map fun r => (r, c.rowSeqLens r / g.pageSize) :=
    List.map_congr_left fun r hr => by
      rw [grow_rowSeqLens_of_ne (hne r (List.mem_of_mem_filter hr))]
  unfold newPages
  rw [hfilter, hcells, grow_freePages, grow_needed]
  by_cases hopen : c.opensPage g row = true
  · rw [if_pos hopen] at room
    obtain ⟨page, free, hfree⟩ := List.exists_cons_of_length_pos room
    rw [List.filter_cons_of_pos hopen, if_pos hopen, if_pos hopen, hfree]
    rfl
  · rw [List.filter_cons_of_neg hopen, if_neg hopen, if_neg hopen]
    rfl

theorem grow_pageSlots (row : Nat) :
    (c.grow g row 1).pageSlots = assign c.pageSlots (if c.opensPage g row then
      [((row, c.rowSeqLens row / g.pageSize), (c.freePages.getD 0 0 : Int))] else []) := by
  have hgrow : (c.grow g row 1).pageSlots = (c.takeNewPage g row).pageSlots := by
    rw [takeNewPage_eq]
    rfl
  rw [hgrow]
  unfold takeNewPage
  split
  · funext r col
    rw [assign_single]
    show (if r = row ∧ c.rowSeqLens row / g.pageSize ≤ col ∧ col < c.rowSeqLens row / g.pageSize + 1
      then _ else _) = _
    by_cases hcell : r = row ∧ col = c.rowSeqLens row / g.pageSize
    · rw [if_pos ⟨hcell.1, by omega, by omega⟩, if_pos hcell, hcell.2, Nat.sub_self]
    · rw [if_neg fun h => hcell ⟨h.1, by omega⟩, if_neg hcell]
  · rfl

theorem growAll_pageSlots {rows : List Nat} (hnd : rows.Nodup)
    (room : (rows.countP fun row => c.opensPage g row) ≤ c.freePages.length) :
    (c.growAll g rows).pageSlots = assign c.pageSlots (c.newPages g rows) := by
  induction rows generalizing c with
  | nil => rfl
  | cons row rows ih =>
    obtain ⟨hfresh, hnd⟩ := List.nodup_cons.mp hnd
    rw [List.countP_cons] at room
    have hrest : (rows.countP fun r => (c.grow g row 1).opensPage g r) ≤
        (c.grow g row 1).freePages.length := by
      rw [countP_grow hfresh, grow_freePages, grow_needed, List.length_drop]
      omega
    rw [growAll_cons, ih hnd hrest, newPages_cons hfresh (by omega), grow_pageSlots]
    exact (List.foldl_append ..).symm

/-- A row that grows writes the slot of its new token. -/
theorem grow_tokenSlots (row : Nat) :
    (c.grow g row 1).tokenSlots = assign c.tokenSlots
      [((row, c.rowSeqLens row), (c.grow g row 1).slotAt g row (c.rowSeqLens row))] := by
  funext r i
  rw [assign_single]
  show (if r = row ∧ c.rowSeqLens row ≤ i ∧ i < c.rowSeqLens row + 1 then _ else _) = _
  by_cases hcell : r = row ∧ i = c.rowSeqLens row
  · rw [if_pos ⟨hcell.1, by omega, by omega⟩, if_pos hcell, hcell.2]
    rfl
  · rw [if_neg fun h => hcell ⟨h.1, by omega⟩, if_neg hcell]
    rfl

theorem growAll_tokenSlots {rows : List Nat} (hnd : rows.Nodup) :
    (c.growAll g rows).tokenSlots = assign c.tokenSlots (rows.map fun row =>
      ((row, c.rowSeqLens row), (c.growAll g rows).slotAt g row (c.rowSeqLens row))) := by
  induction rows generalizing c with
  | nil => rfl
  | cons row rows ih =>
    obtain ⟨hfresh, hnd⟩ := List.nodup_cons.mp hnd
    have hslot : (c.growAll g (row :: rows)).slotAt g row (c.rowSeqLens row) =
        (c.grow g row 1).slotAt g row (c.rowSeqLens row) := by
      unfold slotAt
      rw [growAll_cons, (growAll_of_notMem hfresh).2.1]
    have hlens : (rows.map fun r => ((r, (c.grow g row 1).rowSeqLens r),
        ((c.grow g row 1).growAll g rows).slotAt g r ((c.grow g row 1).rowSeqLens r))) =
        rows.map fun r => ((r, c.rowSeqLens r),
          ((c.grow g row 1).growAll g rows).slotAt g r (c.rowSeqLens r)) :=
      List.map_congr_left fun r hr => by rw [grow_rowSeqLens_of_ne (ne_of_mem_of_not_mem hr hfresh)]
    rw [List.map_cons, hslot, growAll_cons, ih hnd, hlens, grow_tokenSlots]
    rfl

/-- A batch that has grown: the pages are reserved, the slots written, the lengths advanced. -/
theorem growAll_eq {rows : List Nat} (hnd : rows.Nodup)
    (room : (rows.countP fun row => c.opensPage g row) ≤ c.freePages.length) :
    c.growAll g rows =
      { (c.reservePages g rows).advanceRows rows with
        tokenSlots := assign c.tokenSlots ((rows.map fun row => (row, c.rowSeqLens row)).zip
          ((c.reservePages g rows).nextSlots g rows)) } := by
  have hslots : (c.reservePages g rows).nextSlots g rows =
      rows.map fun row => (c.growAll g rows).slotAt g row (c.rowSeqLens row) := by
    unfold nextSlots slotAt
    rw [growAll_pageSlots hnd room]
    rfl
  have htokens : (c.growAll g rows).tokenSlots =
      assign c.tokenSlots ((rows.map fun row => (row, c.rowSeqLens row)).zip
        ((c.reservePages g rows).nextSlots g rows)) := by
    rw [growAll_tokenSlots hnd, hslots, List.zip_map']
  have hfields : c.growAll g rows = ⟨(c.growAll g rows).freePages, (c.growAll g rows).seqIdToRow,
    (c.growAll g rows).freeRows, (c.growAll g rows).rowSeqLens, (c.growAll g rows).pageSlots,
    (c.growAll g rows).tokenSlots⟩ := rfl
  rw [hfields, htokens, growAll_freePages hnd, growAll_rowSeqLens hnd, growAll_pageSlots hnd room, growAll_seqIdToRow, growAll_freeRows]
  rfl

/-- Without a new page the slot after the last one is the next. -/
theorem WellFormed.nextSlots (h : WellFormed g c) (rows : List Nat) :
    (if (rows.countP fun row => c.opensPage g row) = 0 then
      rows.map fun row => c.tokenSlots row (c.rowSeqLens row - 1) + 1
    else (c.reservePages g rows).nextSlots g rows) = (c.reservePages g rows).nextSlots g rows := by
  split
  · rename_i hnone
    have hinside : ∀ row ∈ rows, c.opensPage g row = false := fun row hrow => by
      simpa using List.countP_eq_zero.mp hnone row hrow
    have hpages : (c.reservePages g rows).pageSlots = c.pageSlots := by
      have hnew : c.newPages g rows = [] := by
        unfold newPages
        rw [List.filter_eq_nil_iff.mpr fun row hrow => by rw [hinside row hrow]; exact Bool.false_ne_true]
        rfl
      show assign c.pageSlots (c.newPages g rows) = c.pageSlots
      rw [hnew]
      rfl
    refine List.map_congr_left fun row hrow => ?_
    rw [next_slot (hinside row hrow) fun _ hi => h.tokens hi]
    unfold slotAt
    rw [hpages]
    rfl
  · rfl

/-- The rows of distinct requests are distinct. -/
theorem WellFormed.nodup_rows (h : WellFormed g c) {seqs : List SeqId} {rows : List Nat}
    (hrows : List.Forall₂ (fun s row => c.seqIdToRow s = some row) seqs rows) (hnd : seqs.Nodup) :
    rows.Nodup := by
  induction hrows with
  | nil => exact List.nodup_nil
  | @cons seq row seqs rows hrow hrows ih =>
    obtain ⟨hfresh, hnd⟩ := List.nodup_cons.mp hnd
    refine List.nodup_cons.mpr ⟨fun hin => ?_, ih hnd⟩
    obtain ⟨i, hi, hget⟩ := List.mem_iff_getElem.mp hin
    have hlen := hrows.length_eq
    have hmap := hrows.get (i := i) (by omega) hi
    rw [List.get_eq_getElem, List.get_eq_getElem, hget] at hmap
    exact hfresh (h.rows hrow hmap ▸ List.getElem_mem _)

end QuestCache

/-! ## One table for both -/

open QuestCache

variable {g : QuestGeometry} {c : QuestCache}

theorem getFreeRow_pageSlots (seq : SeqId) (pages : Nat → Nat → Int) :
    Keeps (fun c => c.pageSlots = pages) (getFreeRow seq) := by
  refine Spec.get_bind fun t ht => ?_
  cases t.seqIdToRow seq with
  | some row => exact Spec.pure fun u hu => hu ▸ ht
  | none =>
    cases t.freeRows with
    | nil => exact Spec.throw fun u hu => hu ▸ ht
    | cons row rest => exact fun _ _ => ht

/-- The requests of the rows grow. -/
theorem growAll_appended (h : WellFormed g c) {seqs : List SeqId} {rows : List Nat}
    (hrows : List.Forall₂ (fun s row => c.seqIdToRow s = some row) seqs rows) (hnd : seqs.Nodup)
    (fits : ∀ row ∈ rows, c.rowSeqLens row + 1 ≤ g.maxModelLen)
    (room : (rows.countP fun row => c.opensPage g row) ≤ c.freePages.length) :
    Appended g seqs 1 c (c.growAll g rows) := by
  have hrun : ∀ (rows : List Nat) (c : QuestCache),
      forEach rows (fun row => (modify fun c => c.grow g row 1 : QuestM Unit)) c =
        .ok ⟨⟩ (c.growAll g rows) := by
    intro rows
    induction rows with
    | nil => exact fun _ => rfl
    | cons row rows ih => exact fun c => ih (c.grow g row 1)
  have hgrown : Spec (· = c) (forEach rows fun row => (modify fun c => c.grow g row 1 : QuestM Unit))
      (fun _ u => u = c.growAll g rows ∧ Appended g seqs 1 c u) fun _ _ => False :=
    growRows false (fun _ _ => rfl) h hrows hnd fits room nofun
  have happended := hgrown c rfl
  rw [hrun] at happended
  exact happended.2

/-- A decode batch with one page table: the slots of the new tokens. -/
def growBatch (g : QuestGeometry) (seqs : List SeqId) : QuestM (List Int) := do
  let rows ← mapEach seqs getFreeRow
  let c ← get
  raiseIf (∃ row ∈ rows, g.maxModelLen < c.rowSeqLens row + 1) .rowTooLong
  let needed := rows.countP fun row => c.opensPage g row
  raiseIf (c.freePages.length < needed) (.outOfPages needed c.freePages.length)
  set (c.growAll g rows)
  return (c.reservePages g rows).nextSlots g rows

/-- What the rows of a decode step must meet. -/
structure Planned (g : QuestGeometry) (c : QuestCache) (seqs : List SeqId) (rows : List Nat)
    (u : QuestCache) : Prop where
  run : mapEach seqs getFreeRow c = .ok rows u
  fits : ∀ row ∈ rows, u.rowSeqLens row + 1 ≤ g.maxModelLen
  room : (rows.countP fun row => u.opensPage g row) ≤ u.freePages.length

theorem growBatch_ok {seqs : List SeqId} {rows : List Nat} {u : QuestCache}
    (h : Planned g c seqs rows u) :
    growBatch g seqs c = .ok ((u.reservePages g rows).nextSlots g rows) (u.growAll g rows) := by
  have hfits : ¬ ∃ row ∈ rows, g.maxModelLen < u.rowSeqLens row + 1 :=
    fun ⟨row, hrow, hlong⟩ => absurd (h.fits row hrow) (not_le.mpr hlong)
  unfold growBatch
  rw [bind_ok h.run, bind_ok (get_apply u), Lib.raiseIf_bind, if_neg hfits, Lib.raiseIf_bind,
    if_neg (not_lt.mpr h.room)]
  rfl

/-- With one page table `_allocate_batch` is such a batch. -/
theorem allocateBatch_grows (h : WellFormed g c) {seqs : List SeqId} (hnd : seqs.Nodup) :
    match growBatch g seqs c with
    | .ok _ u => allocateBatch g seqs c = .ok ⟨⟩ u
    | .error e u => allocateBatch g seqs c = .error e u := by
  unfold growBatch allocateBatch
  have hplan := placeRows seqs h c rfl
  cases hrun : mapEach seqs getFreeRow c with
  | error e u =>
    rw [bind_error hrun, bind_error hrun]
  | ok rows u =>
    rw [hrun] at hplan
    obtain ⟨hplaced, hrows⟩ := hplan
    rw [bind_ok hrun, bind_ok hrun, bind_ok (get_apply u), bind_ok (get_apply u),
      Lib.raiseIf_bind, Lib.raiseIf_bind, Lib.raiseIf_bind, Lib.raiseIf_bind]
    by_cases hfits : ∃ row ∈ rows, g.maxModelLen < u.rowSeqLens row + 1
    · rw [if_pos hfits, if_pos hfits]
    · rw [if_neg hfits, if_neg hfits]
      by_cases hroom : u.freePages.length < rows.countP fun row => u.opensPage g row
      · rw [if_pos hroom, if_pos hroom]
      · rw [if_neg hroom, if_neg hroom]
        have hgrown : Spec (· = u) (forEach rows fun row => modify
            (QuestCache.appendEager g ((rows.countP fun row => u.opensPage g row) == 0) row))
            (fun _ v => v = u.growAll g rows ∧ Appended g seqs 1 u v) fun _ _ => False :=
          growRows _ (fun hc => hc.appendEager) hplaced.formed hrows hnd
            (fun r hr => not_lt.mp fun hlt => hfits ⟨r, hr, hlt⟩) (not_lt.mp hroom)
            fun hnone => by simpa using hnone
        have hgrown := hgrown u rfl
        show forEach rows _ u = _
        split at hgrown
        · rename_i v hloop
          rw [hloop, hgrown.1]
        · exact hgrown.elim

/-- A decode batch keeps the invariant, and takes at most rows when it raises. -/
theorem growBatch_spec (h : WellFormed g c) {seqs : List SeqId} (hnd : seqs.Nodup) :
    Spec (· = c) (growBatch g seqs) (fun _ u => Appended g seqs 1 c u) fun _ u => Placed g c u := by
  rintro _ rfl
  have hrun := allocateBatch_grows h hnd
  have hspec := allocateBatch_appends h hnd _ rfl
  split at hrun
  · rename_i slots u hgrow
    rw [hrun] at hspec
    rw [hgrow]
    exact hspec
  · rename_i e u hgrow
    rw [hrun] at hspec
    rw [hgrow]
    exact hspec

namespace QuestTables

theorem onHost_lifts {α : Type} {m : QuestM α}
    (h : ∀ pages, Keeps (fun c : QuestCache => c.pageSlots = pages) m) :
    Lifts mirror QuestTablesError.allocator c (onHost m) m :=
  Lifts.zoom rfl <| (Spec.start (h c.pageSlots) rfl).conseq (fun _ h => h)
    (fun _ _ hu => congrArg (QuestTables.mk _) hu.symm) fun _ _ hu =>
      congrArg (QuestTables.mk _) hu.symm

theorem allocate_lifts (seq : SeqId) (size : Nat) :
    Lifts mirror .allocator c (allocate g seq size) (SparseVllm.allocate g seq size) := by
  refine Lifts.get_bind (Lifts.raiseIf_bind Iff.rfl fun _ => ?_)
  refine Lifts.bind (onHost_lifts (getFreeRow_pageSlots seq)) fun row u _ => ?_
  refine Lifts.get_bind (Lifts.raiseIf_bind Iff.rfl fun _ => ?_)
  exact Lifts.bind (Lifts.modify rfl) fun _ _ _ => rfl

theorem preparePrefillRow_lifts (seq : SeqId) (start size : Nat) :
    Lifts mirror .allocator c (preparePrefillRow g seq start size)
      (SparseVllm.preparePrefillRow g seq start size) :=
  Lifts.get_bind (Lifts.raiseIf_bind Iff.rfl fun _ => allocate_lifts seq size)

theorem freeSeq_lifts (seq : SeqId) :
    Lifts mirror .allocator c (freeSeq g seq) (SparseVllm.freeSeq g seq) := by
  refine Lifts.get_bind ?_
  cases hrow : c.seqIdToRow seq with
  | none =>
    rw [show (mirror c).host.seqIdToRow seq = none from hrow]
    rfl
  | some row =>
    rw [show (mirror c).host.seqIdToRow seq = some row from hrow]
    rfl

/-- Both tables take the pages, and the slots are those of the pages. -/
theorem writeSlots_takeNewPages {rows : List Nat} (hnd : rows.Nodup)
    (room : (rows.countP fun row => c.opensPage g row) ≤ c.freePages.length) :
    writeSlots rows ((c.reservePages g rows).nextSlots g rows) (takeNewPages g rows (mirror c)) =
      mirror (c.growAll g rows) := by
  unfold mirror
  rw [growAll_eq hnd room]
  rfl

/-- An eager step is a batch whose rows grow by one token. -/
theorem allocateBatch_lifts (h : WellFormed g c) {seqs : List SeqId} (hnd : seqs.Nodup) :
    Lifts mirror .allocator c (allocateBatch g seqs) (growBatch g seqs) := by
  refine Lifts.bind (onHost_lifts fun pages => Keeps.mapEach fun seq _ =>
    getFreeRow_pageSlots seq pages) fun rows u hrun => ?_
  have hplan := placeRows seqs h c rfl
  rw [hrun] at hplan
  obtain ⟨hplaced, hrows⟩ := hplan
  refine Lifts.get_bind (Lifts.raiseIf_bind Iff.rfl fun _ => Lifts.raiseIf_bind Iff.rfl fun hroom => ?_)
  have hgrown := writeSlots_takeNewPages (hplaced.formed.nodup_rows hrows hnd) (not_lt.mp hroom)
  have hslots := hplaced.formed.nextSlots rows
  exact congrArg₂ EStateM.Result.ok hslots
    ((congrArg (fun slots => writeSlots rows slots _) hslots).trans hgrown)

/-! ## The graph step -/

theorem getFreeRow_mapped {seq : SeqId} {row : Nat} (h : c.seqIdToRow seq = some row) :
    getFreeRow seq c = .ok row c := by
  unfold getFreeRow
  rw [bind_ok (get_apply c), h]
  rfl

theorem getFreeRow_full {seq : SeqId} (h : c.seqIdToRow seq = none) (hfree : c.freeRows = []) :
    getFreeRow seq c = .error .noFreeRows c := by
  unfold getFreeRow
  rw [bind_ok (get_apply c), h]
  dsimp only
  rw [hfree]
  rfl

theorem getFreeRow_takes {seq : SeqId} {row : Nat} {free : List Nat} (h : c.seqIdToRow seq = none)
    (hfree : c.freeRows = row :: free) :
    getFreeRow seq c = .ok row (c.assignRow seq row free) := by
  unfold getFreeRow
  rw [bind_ok (get_apply c), h]
  dsimp only
  rw [hfree]
  rfl

theorem commitDecodeRow_takes {seq : SeqId} {row : Nat} {free : List Nat}
    (hfree : c.freeRows = row :: free) :
    commitDecodeRow seq row (mirror c) = .ok ⟨⟩ (mirror (c.assignRow seq row free)) := by
  unfold commitDecodeRow
  rw [bind_ok (get_apply _), show (mirror c).host.freeRows = row :: free from hfree]
  dsimp only
  rw [if_neg (not_not.mpr rfl)]
  rfl

/-- A plan over the first rows of a batch: `c` has the rows of `pending`, and the rest of the batch is
planned as `_get_free_row` would take it. -/
theorem planDecodeRows_run (start : QuestCache) (seqs : List SeqId) :
    ∀ (c : QuestCache) (pending : List (SeqId × Nat)),
      (∀ s, c.seqIdToRow s = (start.seqIdToRow s).or (pending.lookup s)) →
      match mapEach seqs getFreeRow c with
      | .ok rows u => ∃ more, planDecodeRows start seqs c.freeRows pending =
          .ok (rows, pending ++ more) ∧ commitDecodeRows more (mirror c) = .ok ⟨⟩ (mirror u)
      | .error _ _ => ∃ error, planDecodeRows start seqs c.freeRows pending = .error error := by
  induction seqs with
  | nil =>
    intro c pending _
    exact ⟨[], by rw [List.append_nil]; rfl, rfl⟩
  | cons seq seqs ih =>
    intro c pending hmap
    have hseq := hmap seq
    unfold planDecodeRows mapEach
    rw [← hseq]
    cases hrow : c.seqIdToRow seq with
    | some row =>
      rw [bind_ok (getFreeRow_mapped hrow)]
      have hrest := ih c pending hmap
      cases hrun : mapEach seqs getFreeRow c with
      | ok rows u =>
        rw [hrun] at hrest
        obtain ⟨more, hplan, hcommit⟩ := hrest
        rw [bind_ok hrun]
        refine ⟨more, ?_, hcommit⟩
        dsimp only
        rw [hplan]
        rfl
      | error e u =>
        rw [hrun] at hrest
        obtain ⟨error, hplan⟩ := hrest
        rw [bind_error hrun]
        refine ⟨error, ?_⟩
        dsimp only
        rw [hplan]
        rfl
    | none =>
      cases hfree : c.freeRows with
      | nil =>
        rw [bind_error (getFreeRow_full hrow hfree)]
        exact ⟨.noFreeRows, rfl⟩
      | cons row free =>
        rw [bind_ok (getFreeRow_takes hrow hfree)]
        have hnew : ∀ s, (c.assignRow seq row free).seqIdToRow s =
            (start.seqIdToRow s).or ((pending ++ [(seq, row)]).lookup s) := by
          intro s
          rw [List.lookup_append, List.lookup_cons, List.lookup_nil, ← Option.or_assoc, ← hmap s]
          show Function.update c.seqIdToRow seq (some row) s = _
          by_cases hs : s = seq
          · subst hs
            rw [Function.update_self, hrow, beq_self_eq_true]
            rfl
          · rw [Function.update_of_ne hs, beq_eq_false_iff_ne.mpr hs]
            exact (Option.or_none ..).symm
        have hrest := ih _ _ hnew
        cases hrun : mapEach seqs getFreeRow (c.assignRow seq row free) with
        | ok rows u =>
          rw [hrun] at hrest
          obtain ⟨more, hplan, hcommit⟩ := hrest
          rw [bind_ok hrun]
          refine ⟨(seq, row) :: more, ?_, (bind_ok (commitDecodeRow_takes hfree)).trans hcommit⟩
          dsimp only
          rw [show free = (c.assignRow seq row free).freeRows from rfl, hplan]
          rw [List.append_assoc]
          rfl
        | error e u =>
          rw [hrun] at hrest
          obtain ⟨error, hplan⟩ := hrest
          rw [bind_error hrun]
          refine ⟨error, ?_⟩
          dsimp only
          rw [show free = (c.assignRow seq row free).freeRows from rfl, hplan]
          rfl

/-- The active rows of a graph's inputs. -/
def graphRows (g : QuestGeometry) (rows : List Nat) (c : QuestCache) : List QuestGraphRow :=
  rows.map fun row => ⟨row, c.rowSeqLens row + 1,
    (c.reservePages g rows).slotAt g row (c.rowSeqLens row), true⟩

/-- The host after a graph step has been prepared from `u`. -/
def prepared (g : QuestGeometry) (rows : List Nat) (u : QuestCache) : QuestTables :=
  ⟨(u.reservePages g rows).advanceRows rows, u.pageSlots⟩

/-- The pages of a batch that has grown are there. -/
theorem growAll_page_nonneg (h : WellFormed g c) {seqs : List SeqId} {rows : List Nat}
    (hrows : List.Forall₂ (fun s row => c.seqIdToRow s = some row) seqs rows) (hnd : seqs.Nodup)
    (fits : ∀ row ∈ rows, c.rowSeqLens row + 1 ≤ g.maxModelLen)
    (room : (rows.countP fun row => c.opensPage g row) ≤ c.freePages.length) {row : Nat}
    (hrow : row ∈ rows) : ¬ (c.growAll g rows).pageSlots row (c.rowSeqLens row / g.pageSize) < 0 := by
  have hgrown := (growAll_appended h hrows hnd fits room).formed
  have hlen : (c.growAll g rows).rowSeqLens row = c.rowSeqLens row + 1 := by
    rw [growAll_rowSeqLens (h.nodup_rows hrows hnd)]
    exact if_pos hrow
  have hcol : c.rowSeqLens row / g.pageSize < g.pagesFor ((c.growAll g rows).rowSeqLens row) := by
    rw [hlen]
    exact g.div_lt_pagesFor (Nat.lt_succ_self _)
  obtain ⟨page, hpage, -⟩ := hgrown.owned hcol
  rw [hpage]
  omega

/-- **A graph step raises without a change, or it has reserved a batch.** -/
theorem prepareGraph_spec (h : WellFormed g c) (k : QuestGraphContract) {seqs : List SeqId}
    (hnd : seqs.Nodup) :
    Spec (· = mirror c) (prepareDecodeGraphStepNoPrefix g k seqs)
      (fun inputs t => ∃ rows u, Planned g c seqs rows u ∧ t = prepared g rows u ∧
        inputs = packInputs k.batchCapacity (graphRows g rows u))
      fun _ t => t = mirror c := by
  refine Spec.raiseIf_bind (fun _ _ ht => ht) fun _ => Spec.get_bind fun t ht => ?_
  subst ht
  have hplan := planDecodeRows_run c seqs c [] fun s => by
    rw [List.lookup_nil, Option.or_none]
  have hplaced := placeRows seqs h c rfl
  cases hrun : mapEach seqs getFreeRow c with
  | error e u =>
    rw [hrun] at hplan
    obtain ⟨error, hplan⟩ := hplan
    rw [show planDecodeRows (mirror c).host seqs (mirror c).host.freeRows [] = .error error from hplan]
    exact Spec.throw fun _ ht => ht
  | ok rows u =>
    rw [hrun] at hplan hplaced
    obtain ⟨pending, hplan, hcommit⟩ := hplan
    obtain ⟨hplaced, hrows⟩ := hplaced
    rw [show planDecodeRows (mirror c).host seqs (mirror c).host.freeRows [] =
      .ok (rows, pending) from hplan]
    have hcheck : Spec (· = mirror c) (onHost (checkGraphRows g k.contextCapacity rows (mirror c).host))
        (fun _ t => t = mirror c ∧ (∀ row ∈ rows, c.rowSeqLens row + 1 ≤ g.maxModelLen) ∧
          rows.countP (fun row => c.opensPage g row) ≤ c.freePages.length)
        fun _ t => t = mirror c := by
      refine Spec.zoom fun t ht => ?_
      subst ht
      exact (checkGraphRows_checks (P := (· = c)) k.contextCapacity rows c).conseq (fun _ h => h)
        (fun _ _ hu => ⟨congrArg (fun c' => QuestTables.mk c' c.pageSlots) hu.1, hu.2⟩)
        fun _ _ hu => congrArg (fun c' => QuestTables.mk c' c.pageSlots) hu
    refine Spec.bind hcheck fun _ => Spec.intro fun t ht => ?_
    obtain ⟨rfl, hfits, hroom⟩ := ht
    have hplanned : Planned g c seqs rows u := by
      refine ⟨hrun, ?_, ?_⟩
      · rw [hplaced.lens]
        exact hfits
      · unfold opensPage at hroom ⊢
        rw [hplaced.lens, hplaced.pages]
        exact hroom
    refine Spec.bind (Spec.of_ok hcommit) fun _ => ?_
    refine Spec.bind (R := fun _ t => t = ⟨u.reservePages g rows, u.pageSlots⟩)
      (Spec.modify fun t ht => by rw [ht.2]; rfl) fun _ => Spec.get_bind fun t ht => ?_
    subst ht
    refine Spec.raiseIf_bind (fun hbad _ _ => ?_) fun _ => ?_
    · obtain ⟨row, hrow, hpage⟩ := hbad
      refine absurd hpage ?_
      have hpages := growAll_page_nonneg hplaced.formed hrows hnd hplanned.fits hplanned.room hrow
      rwa [growAll_pageSlots (hplaced.formed.nodup_rows hrows hnd) hplanned.room] at hpages
    · refine Spec.bind (R := fun _ t => t = prepared g rows u)
        (Spec.modify fun t ht => by rw [ht]; rfl) fun _ => Spec.pure fun t ht => ?_
      refine ⟨rows, u, hplanned, ht, congrArg (packInputs k.batchCapacity) ?_⟩
      show rows.zipWith _ (rows.map _) = _
      rw [List.zipWith_map_right, List.zipWith_self]
      rfl

/-- The kernel stores the active requests only. -/
theorem packInputs_active {capacity : Nat} {rows : List QuestGraphRow}
    (h : ∀ row ∈ rows, row.active = true) :
    (packInputs capacity rows).filter (·.active) = rows := by
  cases rows with
  | nil => rfl
  | cons row rows =>
    have hpadding : (List.replicate (capacity - (rows.length + 1)) (padded row)).filter (·.active) =
        [] :=
      List.filter_eq_nil_iff.mpr fun r hr => by
        rw [(List.mem_replicate.mp hr).2]
        exact Bool.false_ne_true
    unfold packInputs
    rw [List.filter_append, hpadding, List.append_nil, List.filter_eq_self.mpr h]

theorem packInputs_take (capacity : Nat) (rows : List QuestGraphRow) :
    (packInputs capacity rows).take rows.length = rows := by
  cases rows with
  | nil => rfl
  | cons row rows => exact List.take_left ..

/-- A page the batch does not open is not written. -/
theorem newPages_fst {rows : List Nat} {cell : Nat × Nat}
    (h : cell ∈ (c.newPages g rows).map Prod.fst) :
    cell ∈ rows.map fun row => (row, c.rowSeqLens row / g.pageSize) := by
  obtain ⟨⟨cell, page⟩, hin, rfl⟩ := List.mem_map.mp h
  obtain ⟨row, hrow, hcell⟩ := List.mem_map.mp (List.of_mem_zip hin).1
  exact List.mem_map.mpr ⟨row, List.mem_of_mem_filter hrow, hcell⟩

/-- **The kernel completes the batch**: the tables of the device are those of the host. -/
theorem publish_prepared {rows : List Nat} (hnd : rows.Nodup)
    (room : (rows.countP fun row => c.opensPage g row) ≤ c.freePages.length) (capacity : Nat) :
    publishGraphMetadata g (packInputs capacity (graphRows g rows c)) (prepared g rows c) =
      mirror (c.growAll g rows) := by
  have hactive : (packInputs capacity (graphRows g rows c)).filter (·.active) = graphRows g rows c :=
    packInputs_active fun row hrow => by
      obtain ⟨r, -, rfl⟩ := List.mem_map.mp hrow
      rfl
  have hpages := growAll_pageSlots hnd room
  unfold publishGraphMetadata
  rw [hactive]
  unfold graphRows
  rw [List.map_map, List.map_map]
  have htokens : assign c.tokenSlots (rows.map ((fun row : QuestGraphRow =>
      ((row.requestIndex, row.contextLen - 1), row.writeSlot)) ∘ fun row =>
        ⟨row, c.rowSeqLens row + 1, (c.reservePages g rows).slotAt g row (c.rowSeqLens row), true⟩)) =
      (c.growAll g rows).tokenSlots := by
    rw [growAll_tokenSlots hnd]
    refine congrArg _ (List.map_congr_left fun row _ => ?_)
    unfold slotAt
    rw [hpages]
    rfl
  have hdevice : assign c.pageSlots (rows.map ((fun row : QuestGraphRow =>
      ((row.requestIndex, (row.contextLen - 1) / g.pageSize), row.writeSlot / g.pageSize)) ∘ fun row =>
        ⟨row, c.rowSeqLens row + 1, (c.reservePages g rows).slotAt g row (c.rowSeqLens row), true⟩)) =
      (c.growAll g rows).pageSlots := by
    refine assign_eq (fun cell hcell => ?_) fun row col hout => ?_
    · obtain ⟨row, -, rfl⟩ := List.mem_map.mp hcell
      show _ = (c.reservePages g rows).slotAt g row (c.rowSeqLens row) / g.pageSize
      rw [slotAt_div, hpages]
      rfl
    · rw [hpages]
      refine (assign_of_notMem fun hin => hout ?_).symm
      rw [List.map_map]
      exact newPages_fst hin
  have hhost : { (c.reservePages g rows).advanceRows rows with
      tokenSlots := (c.growAll g rows).tokenSlots } = c.growAll g rows := by
    have heq := growAll_eq hnd room
    rw [congrArg QuestCache.tokenSlots heq]
    exact heq.symm
  exact congrArg₂ QuestTables.mk ((congrArg (fun tokens =>
    { (c.reservePages g rows).advanceRows rows with tokenSlots := tokens }) htokens).trans hhost) hdevice

/-- An eager step on planned rows returns. -/
theorem allocateBatch_ok (h : WellFormed g c) {seqs : List SeqId} (hnd : seqs.Nodup)
    {rows : List Nat} {u : QuestCache} (hplan : Planned g c seqs rows u) :
    allocateBatch g seqs (mirror c) =
      .ok ((u.reservePages g rows).nextSlots g rows) (mirror (u.growAll g rows)) := by
  have hlift := allocateBatch_lifts h hnd
  unfold Lifts at hlift
  rw [hlift, growBatch_ok hplan]
  rfl

/-! ## Runs -/

/-- What the cache manager is asked to do. A prefill batch is its requests one after the other. -/
inductive TableOp where
  | prefill (seq : SeqId) (start size : Nat)
  | eager (batch : QuestBatch)
  | graph (k : QuestGraphContract) (batch : QuestBatch)
  | free (seq : SeqId)

/-- One operation; a raise leaves the state it reached. -/
def TableOp.exec (g : QuestGeometry) : TableOp → QuestTables → QuestTables
  | .prefill seq start size => stateAfter (preparePrefillRow g seq start size)
  | .eager batch => stateAfter (allocateBatch g batch.seqs)
  | .graph k batch => stateAfter (graphStep g k batch.seqs)
  | .free seq => stateAfter (freeSeq g seq)

/-- The tables are those of a well-formed cache. -/
def Synced (g : QuestGeometry) (t : QuestTables) : Prop := ∃ c, t = mirror c ∧ WellFormed g c

/-- Every operation keeps the tables together. -/
theorem Synced.exec (op : TableOp) {t : QuestTables} (h : Synced g t) :
    Synced g (op.exec g t) := by
  obtain ⟨c, rfl, hc⟩ := h
  cases op with
  | prefill seq start size =>
    exact (preparePrefillRow_lifts seq start size).stateAfter
      ((preparePrefillRow_appends hc seq start size).conseq (fun _ h => h) (fun _ _ hu => hu.formed)
        fun _ _ hu => hu.formed)
  | eager batch =>
    exact (allocateBatch_lifts hc batch.distinct).stateAfter
      ((growBatch_spec hc batch.distinct).conseq (fun _ h => h) (fun _ _ hu => hu.formed)
        fun _ _ hu => hu.formed)
  | graph k batch =>
    have hstep : Spec (· = mirror c) (graphStep g k batch.seqs) (fun _ => Synced g)
        fun _ => Synced g := by
      refine Spec.bind ((prepareGraph_spec hc k batch.distinct).conseq (fun _ h => h)
        (fun _ _ h => h) fun _ t ht => ⟨c, ht, hc⟩) fun inputs => Spec.modify fun t ht => ?_
      obtain ⟨rows, u, hplan, rfl, rfl⟩ := ht
      have hplaced := placeRows batch.seqs hc c rfl
      rw [hplan.run] at hplaced
      obtain ⟨hplaced, hrows⟩ := hplaced
      have hrowsnd := hplaced.formed.nodup_rows hrows batch.distinct
      refine ⟨u.growAll g rows, publish_prepared hrowsnd hplan.room _, ?_⟩
      exact (growAll_appended hplaced.formed hrows batch.distinct hplan.fits hplan.room).formed
    exact hstep.stateAfter rfl
  | free seq =>
    exact (freeSeq_lifts seq).stateAfter ((freeSeq_releases hc seq).conseq (fun _ h => h)
      (fun _ _ hu => hu.1) fun _ _ hu => hu ▸ hc)

/-- The allocator's state, but for the tables of the device. -/
structure SameAllocation (c c' : QuestCache) : Prop where
  seqIdToRow : c.seqIdToRow = c'.seqIdToRow
  freeRows : c.freeRows = c'.freeRows
  rowSeqLens : c.rowSeqLens = c'.rowSeqLens
  freePages : c.freePages = c'.freePages
  pageSlots : c.pageSlots = c'.pageSlots

theorem sameAllocation_growAll {rows : List Nat} (hnd : rows.Nodup)
    (room : (rows.countP fun row => c.opensPage g row) ≤ c.freePages.length) :
    SameAllocation ((c.reservePages g rows).advanceRows rows) (c.growAll g rows) := by
  refine ⟨?_, ?_, ?_, ?_, ?_⟩
  · exact (growAll_seqIdToRow (g := g) (c := c) rows).symm
  · exact (growAll_freeRows (g := g) (c := c) rows).symm
  · exact (growAll_rowSeqLens (g := g) (c := c) hnd).symm
  · exact (growAll_freePages hnd).symm
  · exact (growAll_pageSlots hnd room).symm

/-- A graph step raises without a change, or an eager step would have returned: with the slots of the
graph's first rows, with what the host has reserved, and with what the kernel then leaves. -/
def GraphRefines (g : QuestGeometry) (k : QuestGraphContract) (batch : QuestBatch)
    (t : QuestTables) : Prop :=
  match prepareDecodeGraphStepNoPrefix g k batch.seqs t with
  | .error _ u => u = t
  | .ok inputs u => ∃ slots v, allocateBatch g batch.seqs t = .ok slots v ∧
      (inputs.take batch.seqs.length).map (·.writeSlot) = slots ∧ SameAllocation u.host v.host ∧
      publishGraphMetadata g inputs u = v

/-- The tables of the device agree with the host on the rows in use. -/
def DeviceAgrees (g : QuestGeometry) (t : QuestTables) : Prop :=
  ∀ seq row, t.host.seqIdToRow seq = some row →
    (∀ col < g.pagesFor (t.host.rowSeqLens row), t.devicePages row col = t.host.pageSlots row col) ∧
      ∀ i < t.host.rowSeqLens row, t.host.tokenSlots row i = t.host.slotAt g row i

theorem Synced.agrees {t : QuestTables} (h : Synced g t) : DeviceAgrees g t := by
  obtain ⟨c, rfl, hc⟩ := h
  exact fun _ row _ => ⟨fun _ _ => rfl, fun i hi => hc.tokens hi⟩

theorem Synced.graphRefines {t : QuestTables} (h : Synced g t) (k : QuestGraphContract)
    (batch : QuestBatch) : GraphRefines g k batch t := by
  obtain ⟨c, rfl, hc⟩ := h
  have hspec := prepareGraph_spec hc k batch.distinct (mirror c) rfl
  unfold GraphRefines
  cases hrun : prepareDecodeGraphStepNoPrefix g k batch.seqs (mirror c) with
  | error e t =>
    rw [hrun] at hspec
    exact hspec
  | ok inputs t =>
    rw [hrun] at hspec
    obtain ⟨rows, u, hplan, rfl, rfl⟩ := hspec
    have hplaced := placeRows batch.seqs hc c rfl
    rw [hplan.run] at hplaced
    obtain ⟨hplaced, hrows⟩ := hplaced
    have hnd := hplaced.formed.nodup_rows hrows batch.distinct
    refine ⟨_, _, allocateBatch_ok hc batch.distinct hplan, ?_, ?_,
      publish_prepared hnd hplan.room k.batchCapacity⟩
    · have hlength : batch.seqs.length = (graphRows g rows u).length :=
        hrows.length_eq.trans (List.length_map ..).symm
      rw [hlength, packInputs_take]
      exact List.map_map
    · exact sameAllocation_growAll hnd hplan.room

/-- **Graph steps refine eager ones.** After any run from construction, of prefills, eager steps,
graph steps and frees in any order: a graph step raises without a change or reserves on the host what
an eager step would allocate, with its slots, and the kernel completes it; and the page and token
tables of the device are those of the host on every row in use. -/
theorem graphStep_refines (g : QuestGeometry) (numPages numRows : Nat) (ops : List TableOp) :
    (∀ k batch, GraphRefines g k batch
      (runAll (TableOp.exec g) (initial numPages numRows) ops)) ∧
    DeviceAgrees g (runAll (TableOp.exec g) (initial numPages numRows) ops) := by
  have hrun : Synced g (runAll (TableOp.exec g) (initial numPages numRows) ops) :=
    runAll_invariant (fun t op ht => Synced.exec op ht) ops
      ⟨_, rfl, wellFormed_initial numPages numRows⟩
  exact ⟨fun k batch => hrun.graphRefines k batch, hrun.agrees⟩

/-- A graph of two rows for one request with three tokens, in pages of two. -/
example : reply (prepareDecodeGraphStepNoPrefix ⟨2, 8, by decide⟩ ⟨2, 8⟩ [7])
    (runAll (TableOp.exec ⟨2, 8, by decide⟩) (initial 4 1) [.prefill 7 0 3]) =
      .ok [⟨0, 4, 5, true⟩, ⟨0, 4, -1, false⟩] := by
  rfl

end QuestTables

end SparseVllm
