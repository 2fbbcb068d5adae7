import SparseVllm.Lib.Pool
import SparseVllm.Quest.Bounds

/-!
# Shared pages (`engine/cache_manager/quest.py`, `engine/cache_manager/prefix_cache_mixin.py`)

`QuestCacheManager` with its prefix cache. A block of the prefix cache has a full page; a request
attaches the pages of a cached prefix before its first chunk, and the pages it fills become blocks
when a step ends. A request returns its pages except those of blocks, and a block returns its page
when it is evicted or demoted to the host, which only happens to blocks that no request refers to.

`Shared` is what every operation keeps: a page of a row is free for nobody else, unless it is that
of a block.

The index chooses the blocks (which prefix is attached, which blocks make room, under which id a
page is kept); here they are inputs. The references of a block are listed in `held` rather than
counted. Left out: ids, tokens, the transfers of the host tier, and the payload operations of
`PrefixCacheCoordinator` (hybrid models); the free pages are one list.
-/

namespace SparseVllm

open SparseVllm.Lib

/-- A block of the prefix cache. A block on the host only has no page. -/
structure QuestPrefixBlock where
  /-- `payload.block_slot`. -/
  blockSlot : Option Nat
  deriving DecidableEq, Repr

/-- The allocator with its prefix cache; `B` is the type of block ids. -/
structure QuestPrefixCache (B : Type) where
  cache : QuestCache
  blocks : B → Option QuestPrefixBlock
  /-- The references to blocks: `seq_id_to_prefix_blocks` and `seq_id_to_materialized_blocks`. -/
  held : List (SeqId × B)
  /-- `seq_id_to_cached_pages`. -/
  cachedPages : SeqId → List Nat

/-- What it raises. -/
inductive QuestPrefixError where
  | allocator (error : QuestError)
  | referencedBlock
  | missingPage
  | residentBlock
  | outOfPages (need free : Nat)
  | nonEmptyRow (seq : SeqId) (rowLen : Nat)
  | notFullPage
  deriving DecidableEq, Repr

/-- A chunk of a prefill batch, with what the index chooses for it. -/
structure QuestChunk (B : Type) where
  seq : SeqId
  startIdx : Nat
  chunkSize : Nat
  /-- The chain of its prefix hit; empty without a hit, and when the hit is attached already. -/
  hitChain : List B
  /-- The blocks that make room for its pages: evicted, and demoted to the host. -/
  evicted : List B
  demoted : List B

namespace QuestPrefixCache

variable {B : Type} [DecidableEq B]

/-- The state at construction. -/
def initial (numPages numRows : Nat) : QuestPrefixCache B where
  cache := .initial numPages numRows
  blocks := fun _ => none
  held := []
  cachedPages := fun _ => []

/-- The device page of a block. -/
def devicePage (q : QuestPrefixCache B) (b : B) : Option Nat := (q.blocks b).bind (·.blockSlot)

/-- The row of a request. -/
def rowOf (q : QuestPrefixCache B) (seq : SeqId) : Nat := (q.cache.seqIdToRow seq).getD 0

/-- Return the page of a block, which leaves the index or stays in it without a page. -/
def releasePage (b : B) (page : Nat) (after : Option QuestPrefixBlock) (q : QuestPrefixCache B) :
    QuestPrefixCache B :=
  { q with
    cache := { q.cache with freePages := page :: q.cache.freePages }
    blocks := Function.update q.blocks b after }

/-- Give a block a free page. -/
def assignPage (b : B) (page : Nat) (q : QuestPrefixCache B) : QuestPrefixCache B :=
  { q with blocks := Function.update q.blocks b (some ⟨some page⟩) }

/-- Write the pages of a prefix into an empty row. -/
def attachPages (g : QuestGeometry) (seq : SeqId) (row : Nat) (chain : List B) (pages : List Nat)
    (q : QuestPrefixCache B) : QuestPrefixCache B where
  cache :=
    { q.cache with
      pageSlots := fun r col =>
        if r = row ∧ col < pages.length then (pages.getD col 0 : Nat) else q.cache.pageSlots r col
      tokenSlots := fun r i =>
        if r = row ∧ i < pages.length * g.pageSize then
          (pages.getD (i / g.pageSize) 0 : Nat) * g.pageSize + (i % g.pageSize : Nat)
        else q.cache.tokenSlots r i
      rowSeqLens := Function.update q.cache.rowSeqLens row (pages.length * g.pageSize) }
  blocks := q.blocks
  held := chain.map (seq, ·) ++ q.held
  cachedPages := Function.update q.cachedPages seq (List.range pages.length ++ q.cachedPages seq)

/-- Return the pages of a row that are not cached, and forget the request. -/
def releaseRow (g : QuestGeometry) (seq row : Nat) (q : QuestPrefixCache B) : QuestPrefixCache B where
  cache :=
    { q.cache.releaseRow g seq row with
      freePages := (((List.range (g.pagesFor (q.cache.rowSeqLens row))).filter
        fun col => !(q.cachedPages seq).contains col).map
          fun col => (q.cache.pageSlots row col).toNat).reverse ++ q.cache.freePages }
  blocks := q.blocks
  held := q.held.filter fun ref => ref.1 ≠ seq
  cachedPages := Function.update q.cachedPages seq []

/-- Keep the page of a full column of a row as a block. -/
def keepPage (seq : SeqId) (col : Nat) (b : B) (page : Nat) (q : QuestPrefixCache B) :
    QuestPrefixCache B :=
  { q with
    blocks := Function.update q.blocks b (some ⟨some page⟩)
    held := (seq, b) :: q.held
    cachedPages := Function.update q.cachedPages seq (col :: q.cachedPages seq) }

end QuestPrefixCache

/-! ## The methods -/

section Methods

variable {B : Type} [DecidableEq B] (g : QuestGeometry)

/-- The programs of the cache manager. -/
abbrev QuestPrefixM (B : Type) (α : Type) := EStateM QuestPrefixError (QuestPrefixCache B) α

/-- A method of the allocator. -/
def onAllocator {α : Type} (m : QuestM α) : QuestPrefixM B α :=
  zoom (·.cache) (fun c q => { q with cache := c }) .allocator m

/-- `_free_device_prefix_block` of a block that no request refers to. -/
def freeDevicePrefixBlock (after : Option QuestPrefixBlock) (b : B) : QuestPrefixM B Unit := do
  let q ← get
  raiseIf (∃ ref ∈ q.held, ref.2 = b) .referencedBlock
  match q.devicePage b with
  | none => throw .missingPage
  | some page => modify (QuestPrefixCache.releasePage b page after)

/-- `_evict_prefix_cache_until_free`, with the blocks the index takes. -/
def evictPrefixCacheUntilFree (evicted demoted : List B) : QuestPrefixM B Unit := do
  forEach evicted (freeDevicePrefixBlock none)
  forEach demoted (freeDevicePrefixBlock (some ⟨none⟩))

/-- The page of a block of a hit chain. -/
def requirePage (b : B) : QuestPrefixM B Nat := do
  let q ← get
  match q.devicePage b with
  | none => throw .missingPage
  | some page => return page

/-- `_attach_prefix_cache_if_needed`, after the blocks on the host have been promoted. -/
def attachPrefixCacheIfNeeded (seq : SeqId) (chain : List B) : QuestPrefixM B Unit := do
  let q ← get
  if chain = [] then return
  else
    let pages ← mapEach chain requirePage
    raiseIf (q.cache.rowLen seq ≠ 0) (.nonEmptyRow seq (q.cache.rowLen seq))
    let row ← onAllocator (getFreeRow seq)
    modify (QuestPrefixCache.attachPages g seq row chain pages)

/-- The promotion of blocks on the host: `_take_prefix_device_pages`, then their new pages. -/
def promotePrefixBlock (b : B) : QuestPrefixM B Nat := do
  let q ← get
  raiseIf (q.blocks b ≠ some ⟨none⟩) .residentBlock
  match q.cache.freePages with
  | [] => throw (.outOfPages 1 0)
  | page :: rest =>
    set ({ q with cache := { q.cache with freePages := rest } }.assignPage b page)
    return page

/-- A request of `_prepare_prefill`: its slots. -/
def prepareChunk (chunk : QuestChunk B) : QuestPrefixM B (List Int) := do
  evictPrefixCacheUntilFree chunk.evicted chunk.demoted
  onAllocator (preparePrefillRow g chunk.seq chunk.startIdx chunk.chunkSize)
  let q ← get
  return (List.range' chunk.startIdx chunk.chunkSize).map (q.cache.tokenSlots (q.rowOf chunk.seq))

/-- The loop of `_prepare_prefill`, from `token_offset` on. -/
def prepareChunks (tokenOffset : Nat) : List (QuestChunk B) → QuestPrefixM B QuestPrefillPlan
  | [] => return ⟨[], [], true⟩
  | chunk :: chunks => do
    let slots ← prepareChunk g chunk
    let plan ← prepareChunks (tokenOffset + chunk.chunkSize) chunks
    return {
      slotMapping := slots ++ plan.slotMapping
      segments := pageSegments g tokenOffset chunk.startIdx chunk.chunkSize ++ plan.segments
      metadataFullPages := decide (chunk.startIdx % g.pageSize = 0 ∧ 0 < chunk.chunkSize ∧
        chunk.chunkSize % g.pageSize = 0) && plan.metadataFullPages }

/-- `_prepare_prefill`. -/
def preparePrefill (chunks : List (QuestChunk B)) : QuestPrefixM B QuestPrefillPlan := do
  forEach chunks fun chunk => attachPrefixCacheIfNeeded g chunk.seq chunk.hitChain
  prepareChunks g 0 chunks

/-- The preparation of a decode step: of an eager batch, or for a captured graph. -/
inductive QuestDecodePath where
  | eager
  | graph (contextCapacity : Nat)
  deriving DecidableEq, Repr

/-- `_prepare_decode` or `prepare_decode_graph_step`: the slots of the batch. -/
def prepareDecode (path : QuestDecodePath) (seqs : List SeqId) (evicted demoted : List B) :
    QuestPrefixM B (List Int) := do
  evictPrefixCacheUntilFree evicted demoted
  match path with
  | .eager => onAllocator (allocateBatch g seqs)
  | .graph contextCapacity => onAllocator (prepareDecodeGraphStep g contextCapacity seqs)
  let q ← get
  return seqs.map fun seq => q.cache.tokenSlots (q.rowOf seq) (q.cache.rowLen seq - 1)

/-- `on_forward_end` for one full page: a new block keeps it, a block that is there already is only
held. -/
def commitPrefixBlock (seq : SeqId) (col : Nat) (b : B) : QuestPrefixM B Unit := do
  let q ← get
  match q.cache.seqIdToRow seq with
  | none => throw (.allocator (.unknownSequence seq))
  | some row =>
    raiseIf (q.cache.rowSeqLens row < (col + 1) * g.pageSize ∨ col ∈ q.cachedPages seq) .notFullPage
    match q.blocks b with
    | some _ => set { q with held := if (seq, b) ∈ q.held then q.held else (seq, b) :: q.held }
    | none => set (q.keepPage seq col b (q.cache.pageSlots row col).toNat)

/-- `free_seq`. -/
def freePrefixSeq (seq : SeqId) : QuestPrefixM B Unit := do
  let q ← get
  match q.cache.seqIdToRow seq with
  | none => throw (.allocator (.unknownSequence seq))
  | some row => set (q.releaseRow g seq row)

end Methods

/-! ## The invariant -/

namespace QuestPrefixCache

variable {B : Type} {g : QuestGeometry} {numPages : Nat} {filled : SeqId → Nat}
  {q : QuestPrefixCache B}

/-- Who a page belongs to: a column of a request, unless it is cached, or a block. -/
def owner (g : QuestGeometry) (q : QuestPrefixCache B) : (SeqId × Nat) ⊕ B → Option Nat
  | .inl (seq, col) => (q.cache.seqIdToRow seq).bind fun row =>
      if col < g.pagesFor (q.cache.rowSeqLens row) ∧ col ∉ q.cachedPages seq then
        some (q.cache.pageSlots row col).toNat
      else none
  | .inr b => q.devicePage b

theorem owner_cell_iff {seq col page : Nat} :
    q.owner g (.inl (seq, col)) = some page ↔ ∃ row, q.cache.seqIdToRow seq = some row ∧
      col < g.pagesFor (q.cache.rowSeqLens row) ∧ col ∉ q.cachedPages seq ∧
        (q.cache.pageSlots row col).toNat = page := by
  simp only [owner, Option.bind_eq_some_iff, Option.ite_none_right_eq_some, Option.some.injEq,
    and_assoc]

/-- Between two operations: a row belongs to one request, a page to one owner, and a cached column
has the page of a block that the request holds. `filled` says how many tokens of each request are
stored. -/
structure Shared (g : QuestGeometry) (numPages : Nat) (filled : SeqId → Nat)
    (q : QuestPrefixCache B) : Prop where
  rows : ∀ {s s' row}, q.cache.seqIdToRow s = some row → q.cache.seqIdToRow s' = some row → s = s'
  distinctRows : q.cache.freeRows.Nodup
  idle : ∀ row ∈ q.cache.freeRows,
    q.cache.rowSeqLens row = 0 ∧ ∀ s, q.cache.seqIdToRow s ≠ some row
  pool : Pool q.cache.freePages (q.owner g)
  freeInRange : ∀ page ∈ q.cache.freePages, page < numPages
  blockInRange : ∀ {b page}, q.devicePage b = some page → page < numPages
  pages : ∀ {s row col}, q.cache.seqIdToRow s = some row →
    col < g.pagesFor (q.cache.rowSeqLens row) →
      ∃ page : Nat, page < numPages ∧ q.cache.pageSlots row col = page
  tokens : ∀ {s row i}, q.cache.seqIdToRow s = some row → i < q.cache.rowSeqLens row →
    q.cache.tokenSlots row i = q.cache.slotAt g row i
  filled_le : ∀ s, filled s ≤ q.cache.rowLen s
  cached : ∀ {s row col}, q.cache.seqIdToRow s = some row → col ∈ q.cachedPages s →
    (col + 1) * g.pageSize ≤ filled s ∧ ∃ b page, (s, b) ∈ q.held ∧ q.devicePage b = some page ∧
      q.cache.pageSlots row col = page
  uncached : ∀ {s}, q.cache.seqIdToRow s = none → q.cachedPages s = []

/-- The pages of the stored tokens have exact bounds, and so have those of the blocks. -/
structure Filled {K : Type} [Lattice K] [BoundedOrder K] (g : QuestGeometry) (filled : SeqId → Nat)
    (q : QuestPrefixCache B) (m : PagedStore K) : Prop where
  rows : ∀ {s row col}, q.cache.seqIdToRow s = some row → col < g.pagesFor (filled s) →
    m.Exact g.pageSize (q.cache.pageSlots row col) (min g.pageSize (filled s - col * g.pageSize))
  blocks : ∀ {b page}, q.devicePage b = some page → m.Exact g.pageSize page g.pageSize

theorem shared_initial (numRows : Nat) :
    Shared g numPages (fun _ => 0) (initial numPages numRows : QuestPrefixCache B) where
  rows h := by cases h
  distinctRows := List.nodup_range
  idle _ _ := ⟨rfl, fun _ h => by cases h⟩
  pool := by
    refine Pool.empty (List.nodup_reverse.mpr List.nodup_range) fun a => ?_
    rcases a with ⟨seq, col⟩ | b
    · rfl
    · rfl
  freeInRange page h := List.mem_range.mp (List.mem_reverse.mp h)
  blockInRange h := by cases h
  pages h := by cases h
  tokens h := by cases h
  filled_le _ := Nat.zero_le _
  cached h := by cases h
  uncached _ := rfl

theorem filled_initial {K : Type} [Lattice K] [BoundedOrder K] (numRows : Nat) (m : PagedStore K) :
    Filled g (fun _ => 0) (initial numPages numRows : QuestPrefixCache B) m where
  rows h := by cases h
  blocks h := by cases h

/-- The pages of a request, as far as its tokens are stored. -/
theorem Shared.filled_lt (h : Shared g numPages filled q) {seq row col : Nat}
    (hrow : q.cache.seqIdToRow seq = some row) (hcol : col < g.pagesFor (filled seq)) :
    col < g.pagesFor (q.cache.rowSeqLens row) :=
  hcol.trans_le (g.pagesFor_mono ((h.filled_le seq).trans_eq (QuestCache.rowLen_of_row hrow)))

/-! ### A new row -/

/-- What `_get_free_row` does. -/
theorem getFreeRow_ok {seq row : Nat} {c c' : QuestCache} (h : getFreeRow seq c = .ok row c') :
    c' = c ∧ c.seqIdToRow seq = some row ∨
      ∃ rest, c.seqIdToRow seq = none ∧ c.freeRows = row :: rest ∧ c' = c.assignRow seq row rest := by
  unfold getFreeRow at h
  rw [get_bind] at h
  cases hrow : c.seqIdToRow seq with
  | some r =>
    rw [hrow] at h
    cases h
    exact Or.inl ⟨rfl, rfl⟩
  | none =>
    cases hfree : c.freeRows with
    | nil =>
      rw [hrow, hfree] at h
      cases h
    | cons r rest =>
      rw [hrow, hfree] at h
      cases h
      exact Or.inr ⟨rest, rfl, rfl, rfl⟩

/-- The state with another allocator. -/
def withCache (c : QuestCache) (q : QuestPrefixCache B) : QuestPrefixCache B := { q with cache := c }

/-- Requests have `added` tokens, and blocks may have lost their pages. The rows and the pages of the
tokens there were stay. -/
structure Grows (g : QuestGeometry) (numPages : Nat) (filled added : SeqId → Nat)
    (q q' : QuestPrefixCache B) : Prop where
  shared : Shared g numPages filled q'
  rows : ∀ {s row}, q.cache.seqIdToRow s = some row → q'.cache.seqIdToRow s = some row
  lens : ∀ s, q'.cache.rowLen s = q.cache.rowLen s + added s
  pages : ∀ {s row col}, q.cache.seqIdToRow s = some row →
    col < g.pagesFor (q.cache.rowSeqLens row) → q'.cache.pageSlots row col = q.cache.pageSlots row col
  blocks : ∀ {b page}, q'.devicePage b = some page → q.devicePage b = some page

variable {added added' : SeqId → Nat} {q' q'' : QuestPrefixCache B}

theorem Shared.refl (h : Shared g numPages filled q) : Grows g numPages filled (fun _ => 0) q q :=
  ⟨h, fun h => h, fun _ => rfl, fun _ _ => rfl, fun h => h⟩

theorem Grows.trans (h : Grows g numPages filled added q q')
    (h' : Grows g numPages filled added' q' q'') :
    Grows g numPages filled (fun s => added s + added' s) q q'' where
  shared := h'.shared
  rows hrow := h'.rows (h.rows hrow)
  lens s := by rw [h'.lens, h.lens, Nat.add_assoc]
  pages {s row col} hrow hcol := by
    have hlen := h.lens s
    rw [QuestCache.rowLen_of_row hrow, QuestCache.rowLen_of_row (h.rows hrow)] at hlen
    have hle : q.cache.rowSeqLens row ≤ q'.cache.rowSeqLens row := hlen ▸ Nat.le_add_right _ _
    exact (h'.pages (h.rows hrow) (hcol.trans_le (g.pagesFor_mono hle))).trans (h.pages hrow hcol)
  blocks hb := h.blocks (h'.blocks hb)

/-- What is stored stays stored. -/
theorem Filled.grows {K : Type} [Lattice K] [BoundedOrder K] {m : PagedStore K}
    (hm : Filled g filled q m) (h : Shared g numPages filled q)
    (hgrows : Grows g numPages filled added q q') : Filled g filled q' m where
  rows {s row col} hrow hcol := by
    cases hold : q.cache.seqIdToRow s with
    | none =>
      have hzero := h.filled_le s
      unfold QuestCache.rowLen at hzero
      rw [hold] at hzero
      rw [g.lt_pagesFor, Nat.le_zero.mp hzero] at hcol
      exact absurd hcol (Nat.not_lt_zero _)
    | some r =>
      obtain rfl : r = row := Option.some.inj ((hgrows.rows hold).symm.trans hrow)
      rw [hgrows.pages hold (h.filled_lt hold hcol)]
      exact hm.rows hold hcol
  blocks hb := hm.blocks (hgrows.blocks hb)

section AssignRow

variable {seq row : Nat} {rest : List Nat}

theorem assignRow_rows (hnone : q.cache.seqIdToRow seq = none) {s r : Nat}
    (hs : (q.cache.assignRow seq row rest).seqIdToRow s = some r) :
    s = seq ∧ r = row ∨ s ≠ seq ∧ q.cache.seqIdToRow s = some r := by
  by_cases heq : s = seq
  · subst heq
    have hself : (q.cache.assignRow s row rest).seqIdToRow s = some row := Function.update_self ..
    exact Or.inl ⟨rfl, Option.some.inj (hs.symm.trans hself)⟩
  · exact Or.inr ⟨heq, (Function.update_of_ne heq ..).symm.trans hs⟩

theorem rowLen_assignRow (h : Shared g numPages filled q)
    (hnone : q.cache.seqIdToRow seq = none) (hfree : q.cache.freeRows = row :: rest) (s : SeqId) :
    (q.cache.assignRow seq row rest).rowLen s = q.cache.rowLen s := by
  have hidle := (h.idle row (hfree ▸ List.mem_cons_self)).1
  by_cases heq : s = seq
  · subst heq
    have hself : (q.cache.assignRow s row rest).seqIdToRow s = some row := Function.update_self ..
    rw [QuestCache.rowLen_of_row hself]
    unfold QuestCache.rowLen
    rw [hnone]
    exact hidle
  · have hother : (q.cache.assignRow seq row rest).seqIdToRow s = q.cache.seqIdToRow s :=
      Function.update_of_ne heq ..
    unfold QuestCache.rowLen
    rw [hother]
    rfl

theorem Shared.assignRow (h : Shared g numPages filled q) (hnone : q.cache.seqIdToRow seq = none)
    (hfree : q.cache.freeRows = row :: rest) :
    Shared g numPages filled (q.withCache (q.cache.assignRow seq row rest)) := by
  have hidle := h.idle row (hfree ▸ List.mem_cons_self)
  obtain ⟨hnew, hrest⟩ := List.nodup_cons.mp (hfree ▸ h.distinctRows)
  have hempty : ∀ {col}, ¬col < g.pagesFor (q.cache.rowSeqLens row) := by
    intro col hcol
    rw [hidle.1, g.lt_pagesFor] at hcol
    exact Nat.not_lt_zero _ hcol
  have hkept : ∀ r ∈ rest, r ∈ q.cache.freeRows := fun r hr => hfree ▸ List.mem_cons_of_mem _ hr
  refine ⟨fun {s s' r} hs hs' => ?_, hrest, fun r hr => ⟨(h.idle r (hkept r hr)).1, fun s hs => ?_⟩, ?_,
    h.freeInRange, h.blockInRange, fun {s r col} hs hcol => ?_, fun {s r i} hs hi => ?_,
    fun s => (h.filled_le s).trans_eq (rowLen_assignRow h hnone hfree s).symm,
    fun {s r col} hs hcol => ?_, fun {s} hs => ?_⟩
  · rcases assignRow_rows hnone hs with ⟨rfl, rfl⟩ | ⟨-, hold⟩
    · rcases assignRow_rows hnone hs' with ⟨rfl, -⟩ | ⟨-, hold'⟩
      · rfl
      · exact absurd hold' (hidle.2 s')
    · rcases assignRow_rows hnone hs' with ⟨-, rfl⟩ | ⟨-, hold'⟩
      · exact absurd hold (hidle.2 s)
      · exact h.rows hold hold'
  · rcases assignRow_rows hnone hs with ⟨-, rfl⟩ | ⟨-, hold⟩
    · exact hnew hr
    · exact (h.idle r (hkept r hr)).2 s hold
  · refine h.pool.mono fun a page hpage => ?_
    rcases a with ⟨s, col⟩ | b
    · obtain ⟨r, hs, hcol, hout, hslot⟩ := owner_cell_iff.mp hpage
      rcases assignRow_rows hnone hs with ⟨rfl, rfl⟩ | ⟨-, hold⟩
      · exact absurd hcol hempty
      · exact owner_cell_iff.mpr ⟨r, hold, hcol, hout, hslot⟩
    · exact hpage
  · rcases assignRow_rows hnone hs with ⟨rfl, rfl⟩ | ⟨-, hold⟩
    · exact absurd hcol hempty
    · exact h.pages hold hcol
  · rcases assignRow_rows hnone hs with ⟨rfl, rfl⟩ | ⟨-, hold⟩
    · exact absurd (hidle.1 ▸ hi) (Nat.not_lt_zero _)
    · exact h.tokens hold hi
  · rcases assignRow_rows hnone hs with ⟨rfl, rfl⟩ | ⟨-, hold⟩
    · exact absurd (h.uncached hnone ▸ hcol) List.not_mem_nil
    · exact h.cached hold hcol
  · refine h.uncached ?_
    by_cases heq : s = seq
    · exact heq ▸ hnone
    · exact (Function.update_of_ne heq ..).symm.trans hs

end AssignRow

/-- `_get_free_row`. -/
theorem getFreeRow_grows (h : Shared g numPages filled q) (seq : SeqId) :
    Returns (· = q.cache) (getFreeRow seq) fun row c =>
      Grows g numPages filled (fun _ => 0) q (q.withCache c) ∧ c.seqIdToRow seq = some row ∧
        c.freePages = q.cache.freePages := by
  intro c hc
  subst hc
  cases hrun : getFreeRow seq q.cache with
  | error error c => trivial
  | ok row c =>
    rcases getFreeRow_ok hrun with ⟨rfl, hrow⟩ | ⟨rest, hnone, hfree, rfl⟩
    · exact ⟨h.refl, hrow, rfl⟩
    · refine ⟨⟨h.assignRow hnone hfree, fun {s r} hs => ?_, rowLen_assignRow h hnone hfree,
        fun _ _ => rfl, fun hb => hb⟩, Function.update_self .., rfl⟩
      have hne : s ≠ seq := by
        rintro rfl
        rw [hnone] at hs
        cases hs
      exact (Function.update_of_ne hne ..).trans hs

/-! ### More tokens -/

section Grow

variable {seq row size : Nat}

theorem rowLen_grow (h : Shared g numPages filled q) (hrow : q.cache.seqIdToRow seq = some row)
    (s : SeqId) :
    (q.cache.grow g row size).rowLen s = q.cache.rowLen s + if s = seq then size else 0 := by
  cases hs : q.cache.seqIdToRow s with
  | none =>
    have hne : s ≠ seq := by
      rintro rfl
      rw [hrow] at hs
      cases hs
    have hsame : (q.cache.grow g row size).seqIdToRow s = none := hs
    unfold QuestCache.rowLen
    rw [hsame, hs, if_neg hne]
  | some r =>
    have hsame : (q.cache.grow g row size).seqIdToRow s = some r := hs
    rw [QuestCache.rowLen_of_row hsame, QuestCache.rowLen_of_row hs, QuestCache.grow_rowSeqLens]
    by_cases heq : s = seq
    · subst heq
      obtain rfl : r = row := Option.some.inj (hs.symm.trans hrow)
      rw [Function.update_self, if_pos rfl]
    · have hne : r ≠ row := fun hr => heq (h.rows (hr ▸ hs) hrow)
      rw [Function.update_of_ne hne, if_neg heq, Nat.add_zero]

/-- A cached column has a page. -/
theorem Shared.cached_lt (h : Shared g numPages filled q) {s r col : Nat}
    (hs : q.cache.seqIdToRow s = some r) (hcol : col ∈ q.cachedPages s) :
    col < g.pagesFor (q.cache.rowSeqLens r) := by
  refine h.filled_lt hs (g.lt_pagesFor.mpr ?_)
  have hle := (h.cached hs hcol).1
  have hpos := g.positive
  rw [Nat.succ_mul] at hle
  omega

theorem Shared.grow (h : Shared g numPages filled q) (hrow : q.cache.seqIdToRow seq = some row)
    (room : g.pagesFor (q.cache.rowSeqLens row + size) - g.pagesFor (q.cache.rowSeqLens row) ≤
      q.cache.freePages.length) :
    Shared g numPages filled (q.withCache (q.cache.grow g row size)) := by
  have hused : ∀ r ∈ q.cache.freeRows, r ≠ row := fun r hr heq =>
    (h.idle r hr).2 seq (heq ▸ hrow)
  refine ⟨h.rows, h.distinctRows, fun r hr => ⟨?_, (h.idle r hr).2⟩, ?_,
    fun page hpage => h.freeInRange page (List.mem_of_mem_drop hpage), h.blockInRange,
    fun {s r col} hs hcol => ?_, fun {s r i} hs hi => ?_, fun s => ?_, fun {s r col} hs hcol => ?_,
    h.uncached⟩
  · exact (Function.update_of_ne (hused r hr) ..).trans (h.idle r hr).1
  · generalize hneeded : g.pagesFor (q.cache.rowSeqLens row + size) -
      g.pagesFor (q.cache.rowSeqLens row) = needed at room
    have hsplit : q.cache.freePages.Perm
        (q.cache.freePages.drop needed ++ q.cache.freePages.take needed) := by
      conv_lhs => rw [← List.take_append_drop needed q.cache.freePages]
      exact List.perm_append_comm
    have hcells : (((List.range needed).map fun k =>
        (Sum.inl (seq, g.pagesFor (q.cache.rowSeqLens row) + k) : (SeqId × Nat) ⊕ B)).zip
          (q.cache.freePages.take needed)).map Prod.snd = q.cache.freePages.take needed := by
      refine List.map_snd_zip ?_
      rw [List.length_take, List.length_map, List.length_range]
      exact min_le_left _ _
    have hfree : (q.withCache (q.cache.grow g row size)).cache.freePages =
        q.cache.freePages.drop needed := by
      rw [← hneeded]
      rfl
    rw [hfree]
    refine (h.pool.perm hsplit).take rfl _ hcells fun a page hpage => ?_
    rcases a with ⟨s, col⟩ | b
    · obtain ⟨r, hs, hcol, hout, hslot⟩ := owner_cell_iff.mp hpage
      rcases QuestCache.grow_page (hneeded ▸ room) hcol with
        ⟨hold, hsame⟩ | ⟨rfl, k, hk, hlt, rfl, hnew⟩
      · refine Or.inl (owner_cell_iff.mpr ⟨r, hs, hold, hout, ?_⟩)
        rw [← hslot]
        exact congrArg Int.toNat hsame.symm
      · right
        obtain rfl : s = seq := h.rows hs hrow
        have hpage' : page = q.cache.freePages[k] := by
          rw [← hslot]
          exact (congrArg Int.toNat hnew).trans (Int.toNat_natCast _)
        rw [hneeded] at hlt
        refine List.mem_iff_getElem.mpr ⟨k, ?_, ?_⟩
        · rw [List.length_zip, List.length_map, List.length_range, List.length_take]
          omega
        · rw [List.getElem_zip, List.getElem_map, List.getElem_range, List.getElem_take, hpage']
    · exact Or.inl hpage
  · rcases QuestCache.grow_page room hcol with ⟨hold, hsame⟩ | ⟨rfl, k, hk, hlt, rfl, hnew⟩
    · obtain ⟨page, hlt, hslot⟩ := h.pages hs hold
      exact ⟨page, hlt, hsame.trans hslot⟩
    · exact ⟨_, h.freeInRange _ (List.getElem_mem hk), hnew⟩
  · have hwrite : (q.cache.grow g row size).tokenSlots r i =
        if r = row ∧ q.cache.rowSeqLens row ≤ i ∧ i < q.cache.rowSeqLens row + size then
          (q.cache.grow g row size).slotAt g row i else q.cache.tokenSlots r i := rfl
    refine hwrite.trans ?_
    split
    · rename_i hin
      rw [hin.1]
      rfl
    · rename_i hout
      have hold : i < q.cache.rowSeqLens r := by
        have hi' : i < Function.update q.cache.rowSeqLens row (q.cache.rowSeqLens row + size) r := hi
        by_cases hr : r = row
        · subst hr
          rw [Function.update_self] at hi'
          by_contra hge
          exact hout ⟨rfl, not_lt.mp hge, hi'⟩
        · rwa [Function.update_of_ne hr] at hi'
      rw [h.tokens hs hold]
      unfold QuestCache.slotAt
      exact congrArg (· * _ + _) (QuestCache.grow_pageSlots_old (g.div_lt_pagesFor hold)).symm
  · exact (h.filled_le s).trans ((Nat.le_add_right _ _).trans_eq (rowLen_grow h hrow s).symm)
  · obtain ⟨hle, b, page, hheld, hpage, hslot⟩ := h.cached hs hcol
    exact ⟨hle, b, page, hheld, hpage,
      (QuestCache.grow_pageSlots_old (h.cached_lt hs hcol)).trans hslot⟩

/-- A request has more tokens. -/
theorem Shared.grow_grows (h : Shared g numPages filled q)
    (hrow : q.cache.seqIdToRow seq = some row)
    (room : g.pagesFor (q.cache.rowSeqLens row + size) - g.pagesFor (q.cache.rowSeqLens row) ≤
      q.cache.freePages.length) :
    Grows g numPages filled (fun s => if s = seq then size else 0) q
      (q.withCache (q.cache.grow g row size)) :=
  ⟨h.grow hrow room, fun hs => hs, rowLen_grow h hrow,
    fun _ hcol => QuestCache.grow_pageSlots_old hcol, fun hb => hb⟩

end Grow

/-! ### The methods of the allocator -/

section Allocator

/-- `_allocate`. -/
theorem allocate_grows (h : Shared g numPages filled q) (seq : SeqId) (size : Nat) :
    Returns (· = q.cache) (allocate g seq size) fun _ c =>
      Grows g numPages filled (fun s => if s = seq then size else 0) q (q.withCache c) ∧
        ∃ row, c.seqIdToRow seq = some row := by
  refine Spec.get_bind fun t ht => ?_
  subst ht
  refine Spec.raiseIf_bind (fun _ _ _ => trivial) fun hroom => ?_
  refine Spec.bind (getFreeRow_grows h seq) fun row => Spec.get_bind fun u hu => ?_
  obtain ⟨hplaced, hrow, hfree⟩ := hu
  refine Spec.raiseIf_bind (fun _ _ _ => trivial) fun _ => ?_
  have hlen : q.cache.rowLen seq = u.rowSeqLens row :=
    (hplaced.lens seq).symm.trans (QuestCache.rowLen_of_row hrow)
  have hneeded : requiredNewPages g q.cache seq size =
      g.pagesFor (u.rowSeqLens row + size) - g.pagesFor (u.rowSeqLens row) := by
    unfold requiredNewPages
    rw [hlen]
  rw [hneeded, ← hfree, not_lt] at hroom
  rw [hneeded]
  intro v hv
  obtain rfl : u = v := hv.symm
  refine ⟨?_, row, hrow⟩
  have hgrown := hplaced.trans (hplaced.shared.grow_grows hrow hroom)
  exact { hgrown with lens := fun s => (hgrown.lens s).trans (by rw [Nat.zero_add]) }

/-- A request of `_prepare_prefill`. -/
theorem preparePrefillRow_grows (h : Shared g numPages filled q) (seq : SeqId) (startIdx size : Nat) :
    Returns (· = q.cache) (preparePrefillRow g seq startIdx size) fun _ c =>
      (Grows g numPages filled (fun s => if s = seq then size else 0) q (q.withCache c) ∧
        ∃ row, c.seqIdToRow seq = some row) ∧
      (q.cache.seqIdToRow seq ≠ none → q.cache.rowLen seq = startIdx) := by
  refine Spec.get_bind fun t ht => ?_
  subst ht
  refine Spec.raiseIf_bind (fun _ _ _ => trivial) fun hstart => ?_
  refine (allocate_grows h seq size).post fun _ c hc => ⟨hc, fun hsome => ?_⟩
  by_contra hne
  exact hstart ⟨Option.isSome_iff_ne_none.mpr hsome, hne⟩

/-- The rows of a batch. -/
theorem placeRows_grows (seqs : List SeqId) : ∀ {q : QuestPrefixCache B}, Shared g numPages filled q →
    Returns (· = q.cache) (mapEach seqs getFreeRow) fun rows c =>
      Grows g numPages filled (fun _ => 0) q (q.withCache c) ∧
        List.Forall₂ (fun s row => c.seqIdToRow s = some row) seqs rows ∧
        c.freePages = q.cache.freePages := by
  induction seqs with
  | nil =>
    intro q h
    refine Spec.pure fun c hc => ?_
    obtain rfl : q.cache = c := hc.symm
    exact ⟨h.refl, .nil, rfl⟩
  | cons seq seqs ih =>
    intro q h
    refine Spec.bind (getFreeRow_grows h seq) fun row => Spec.intro fun u hu => ?_
    obtain ⟨hplaced, hrow, hfree⟩ := hu
    refine Spec.bind (ih hplaced.shared) fun rows => Spec.pure fun v hv => ?_
    obtain ⟨hrest, hrows, hfree'⟩ := hv
    exact ⟨hplaced.trans hrest, .cons (hrest.rows hrow) hrows, hfree'.trans hfree⟩

/-- The rows of a batch of distinct requests grow by one token each; `inside` is that no row opens a
page. -/
theorem growRows_grows {append : Nat → QuestCache → QuestCache} (inside : Bool)
    (happend : ∀ {q : QuestPrefixCache B} {seq row}, Shared g numPages filled q →
      q.cache.seqIdToRow seq = some row → (inside = true → q.cache.opensPage g row = false) →
        append row q.cache = q.cache.grow g row 1) {seqs : List SeqId} {rows : List Nat} :
    ∀ {q : QuestPrefixCache B}, Shared g numPages filled q →
      List.Forall₂ (fun s row => q.cache.seqIdToRow s = some row) seqs rows → seqs.Nodup →
      rows.countP (fun row => q.cache.opensPage g row) ≤ q.cache.freePages.length →
      (inside = true → rows.countP (fun row => q.cache.opensPage g row) = 0) →
      Returns (· = q.cache) (forEach rows fun row => (modify (append row) : QuestM Unit)) fun _ c =>
        Grows g numPages filled (fun s => if s ∈ seqs then 1 else 0) q (q.withCache c) := by
  induction rows generalizing seqs with
  | nil =>
    intro q h hrows _ _ _
    cases hrows
    refine Spec.pure fun c hc => ?_
    obtain rfl : q.cache = c := hc.symm
    exact { h.refl with lens := fun s => by rw [if_neg List.not_mem_nil]; rfl }
  | cons row rows ih =>
    intro q h hrows hnd hroom hinside
    cases hrows with
    | @cons seq _ seqs _ hrow hrows =>
    obtain ⟨hfresh, hnd⟩ := List.nodup_cons.mp hnd
    have hneeded : g.pagesFor (q.cache.rowSeqLens row + 1) - g.pagesFor (q.cache.rowSeqLens row) =
        if q.cache.opensPage g row then 1 else 0 := by
      rw [g.pagesFor_succ, Nat.add_sub_cancel_left]
      rfl
    rw [List.countP_cons] at hroom hinside
    have hin : inside = true → q.cache.opensPage g row = false := by
      intro hyes
      have := hinside hyes
      by_contra hopen
      rw [if_pos (by simpa using hopen)] at this
      omega
    have hgrown := h.grow_grows hrow (by rw [hneeded]; omega)
    -- The other rows belong to other requests: they are as long as before.
    have hopens : ∀ r ∈ rows,
        (q.cache.grow g row 1).opensPage g r = q.cache.opensPage g r := by
      intro r hr
      have hne : r ≠ row := by
        rintro rfl
        obtain ⟨i, hi, hget⟩ := List.mem_iff_getElem.mp hr
        have hlen := hrows.length_eq
        have hseq := hrows.get (i := i) (by omega) hi
        rw [List.get_eq_getElem, List.get_eq_getElem, hget] at hseq
        exact hfresh (h.rows hrow hseq ▸ List.getElem_mem _)
      unfold QuestCache.opensPage
      rw [QuestCache.grow_rowSeqLens, Function.update_of_ne hne]
    have hcount : rows.countP (fun r => (q.cache.grow g row 1).opensPage g r) =
        rows.countP fun r => q.cache.opensPage g r :=
      List.countP_congr fun r hr => by rw [hopens r hr]
    have hfree : (q.cache.grow g row 1).freePages.length =
        q.cache.freePages.length - if q.cache.opensPage g row then 1 else 0 := by
      rw [QuestCache.grow_freePages, List.length_drop, hneeded]
    refine Spec.bind (R := fun _ c => c = q.cache.grow g row 1) ?_ fun _ => ?_
    · intro c hc
      obtain rfl : q.cache = c := hc.symm
      exact happend h hrow hin
    · refine (ih hgrown.shared hrows hnd ?_ fun hyes => ?_).post fun _ c hc => ?_
      · show rows.countP (fun r => (q.cache.grow g row 1).opensPage g r) ≤
          (q.cache.grow g row 1).freePages.length
        rw [hcount, hfree]
        omega
      · have := hinside hyes
        exact hcount.trans (by omega)
      · have htotal := hgrown.trans hc
        refine { htotal with lens := fun s => (htotal.lens s).trans ?_ }
        by_cases heq : s = seq
        · subst heq
          simp [hfresh]
        · simp [heq]

/-- What a decode step has done to its requests. -/
def Decoded (g : QuestGeometry) (numPages : Nat) (filled : SeqId → Nat) (seqs : List SeqId)
    (q q' : QuestPrefixCache B) : Prop :=
  Grows g numPages filled (fun s => if s ∈ seqs then 1 else 0) q q' ∧
    ∀ s ∈ seqs, ∃ row, q'.cache.seqIdToRow s = some row

/-- The rows of a batch are placed, and grow. -/
theorem decoded_of_grows {seqs : List SeqId} {rows : List Nat}
    (hplaced : Grows g numPages filled (fun _ => 0) q q')
    (hrows : List.Forall₂ (fun s row => q'.cache.seqIdToRow s = some row) seqs rows)
    (hgrows : Grows g numPages filled (fun s => if s ∈ seqs then 1 else 0) q' q'') :
    Decoded g numPages filled seqs q q'' := by
  have htotal := hplaced.trans hgrows
  refine ⟨{ htotal with lens := fun s => (htotal.lens s).trans (by rw [Nat.zero_add]) }, fun s hs => ?_⟩
  obtain ⟨i, hi, rfl⟩ := List.getElem_of_mem hs
  have hlen := hrows.length_eq
  exact ⟨_, hgrows.rows (hrows.get hi (by omega))⟩

/-- `_allocate_batch`. -/
theorem allocateBatch_decodes (h : Shared g numPages filled q) {seqs : List SeqId}
    (hnd : seqs.Nodup) :
    Returns (· = q.cache) (allocateBatch g seqs) fun _ c =>
      Decoded g numPages filled seqs q (q.withCache c) := by
  refine Spec.bind (placeRows_grows seqs h) fun rows => Spec.get_bind fun u hu => ?_
  obtain ⟨hplaced, hrows, hfree⟩ := hu
  refine Spec.raiseIf_bind (fun _ _ _ => trivial) fun _ => ?_
  refine Spec.raiseIf_bind (fun _ _ _ => trivial) fun hroom => ?_
  refine (growRows_grows (rows.countP (fun row => u.opensPage g row) == 0)
    (fun hq hrow hin => QuestCache.appendEager_eq hin fun i hi => hq.tokens hrow hi) hplaced.shared
    hrows hnd (not_lt.mp hroom) fun hnone => eq_of_beq hnone).post fun _ c hc =>
      decoded_of_grows hplaced hrows hc

/-- `_prepare_decode_graph_step_no_prefix`. -/
theorem prepareDecodeGraphStep_decodes (h : Shared g numPages filled q) (contextCapacity : Nat)
    {seqs : List SeqId} (hnd : seqs.Nodup) :
    Returns (· = q.cache) (prepareDecodeGraphStep g contextCapacity seqs) fun _ c =>
      Decoded g numPages filled seqs q (q.withCache c) := by
  refine Spec.get_bind fun t ht => ?_
  subst ht
  have hplan := placeRows_grows seqs h q.cache rfl
  cases hrun : mapEach seqs getFreeRow q.cache with
  | error error c => exact Spec.throw fun _ _ => trivial
  | ok rows planned =>
    rw [hrun] at hplan
    obtain ⟨hplaced, hrows, hfree⟩ := hplan
    refine Spec.bind (checkGraphRows_checks contextCapacity rows planned).returns fun _ =>
      Spec.intro fun u hu => ?_
    obtain ⟨-, -, hroom⟩ := hu
    refine Spec.bind (R := fun _ v => v = planned) (fun _ _ => rfl) fun _ => ?_
    exact (growRows_grows false (fun _ _ _ => QuestCache.appendGraph_eq _) hplaced.shared hrows hnd
      hroom (fun hno => by cases hno)).post fun _ c hc => decoded_of_grows hplaced hrows hc

end Allocator

theorem forEach_grows {α : Type} {body : α → QuestPrefixM B Unit}
    (hbody : ∀ {q : QuestPrefixCache B} (a), Shared g numPages filled q →
      Returns (· = q) (body a) fun _ q' => Grows g numPages filled (fun _ => 0) q q') (l : List α) :
    ∀ {q : QuestPrefixCache B}, Shared g numPages filled q →
      Returns (· = q) (forEach l body) fun _ q' => Grows g numPages filled (fun _ => 0) q q' := by
  induction l with
  | nil =>
    intro q h
    refine Spec.pure fun u hu => ?_
    obtain rfl : q = u := hu.symm
    exact h.refl
  | cons a l ih =>
    intro q h
    refine Spec.bind (hbody a h) fun _ => Spec.intro fun u hu => ?_
    exact (ih hu.shared).post fun _ v hv => hu.trans hv

/-! ### Blocks -/

section Blocks

variable [DecidableEq B] {b : B} {page : Nat} {after : Option QuestPrefixBlock}

theorem devicePage_update {q : QuestPrefixCache B} (b' : B) :
    ({ q with blocks := Function.update q.blocks b after } : QuestPrefixCache B).devicePage b' =
      if b' = b then after.bind (·.blockSlot) else q.devicePage b' := by
  unfold devicePage
  dsimp only
  rw [Function.update_apply]
  split <;> rfl

/-- A block that no request refers to returns its page. -/
theorem Shared.releasePage (h : Shared g numPages filled q) (hpage : q.devicePage b = some page)
    (hfree : ∀ ref ∈ q.held, ref.2 ≠ b) (hafter : after.bind (·.blockSlot) = none) :
    Shared g numPages filled (q.releasePage b page after) := by
  have hdevice : ∀ b', (q.releasePage b page after).devicePage b' =
      if b' = b then none else q.devicePage b' := fun b' => hafter ▸ devicePage_update b'
  have howner : ∀ a p, (q.releasePage b page after).owner g a = some p →
      q.owner g a = some p ∧ a ≠ .inr b := by
    intro a p ha
    rcases a with cell | b'
    · exact ⟨ha, fun h => by cases h⟩
    · have hb : (q.releasePage b page after).devicePage b' = some p := ha
      rw [hdevice] at hb
      split at hb
      · cases hb
      · rename_i hne
        exact ⟨hb, fun heq => hne (Sum.inr.inj heq)⟩
  have hback : q.owner g (.inr b) = some page := hpage
  refine ⟨h.rows, h.distinctRows, h.idle, ?_, fun p hp => ?_, fun {b' p} hb => ?_, h.pages, h.tokens,
    h.filled_le, fun {s row col} hrow hcol => ?_, h.uncached⟩
  · refine (h.pool.give (List.nodup_singleton page) (fun p hp => ⟨.inr b, ?_⟩)
      fun a p ha => ?_).perm (List.perm_append_singleton page q.cache.freePages)
    · rw [List.mem_singleton.mp hp]
      exact hback
    · obtain ⟨hold, hne⟩ := howner a p ha
      refine ⟨hold, fun hin => hne (h.pool.apart hold ?_)⟩
      rw [List.mem_singleton.mp hin]
      exact hback
  · rcases List.mem_cons.mp hp with rfl | hp
    · exact h.blockInRange hpage
    · exact h.freeInRange p hp
  · rw [hdevice] at hb
    split at hb
    · cases hb
    · exact h.blockInRange hb
  · obtain ⟨hle, b', p, hheld, hb, hslot⟩ := h.cached hrow hcol
    refine ⟨hle, b', p, hheld, ?_, hslot⟩
    rw [hdevice, if_neg (hfree _ hheld)]
    exact hb

/-- A block that no request refers to goes, or goes to the host. -/
theorem freeDevicePrefixBlock_grows (h : Shared g numPages filled q)
    (hafter : after.bind (·.blockSlot) = none) :
    Returns (· = q) (freeDevicePrefixBlock after b) fun _ q' =>
      Grows g numPages filled (fun _ => 0) q q' := by
  refine Spec.get_bind fun t ht => ?_
  subst ht
  refine Spec.raiseIf_bind (fun _ _ _ => trivial) fun hheld => ?_
  cases hpage : t.devicePage b with
  | none => exact Spec.throw fun _ _ => trivial
  | some page =>
    intro u hu
    obtain rfl : t = u := hu.symm
    have hfree : ∀ ref ∈ t.held, ref.2 ≠ b := fun ref href heq => hheld ⟨ref, href, heq⟩
    refine ⟨h.releasePage hpage hfree hafter, fun h => h, fun _ => rfl, fun _ _ => rfl,
      fun {b' p} hb => ?_⟩
    have hdevice : (t.releasePage b page after).devicePage b' =
        if b' = b then after.bind (·.blockSlot) else t.devicePage b' := devicePage_update b'
    rw [hdevice, hafter] at hb
    split at hb
    · cases hb
    · exact hb

/-- `_evict_prefix_cache_until_free`. -/
theorem evictPrefixCacheUntilFree_grows (h : Shared g numPages filled q) (evicted demoted : List B) :
    Returns (· = q) (evictPrefixCacheUntilFree evicted demoted) fun _ q' =>
      Grows g numPages filled (fun _ => 0) q q' := by
  refine Spec.bind (forEach_grows (fun b hq => freeDevicePrefixBlock_grows hq rfl) evicted h) fun _ =>
    Spec.intro fun u hu => ?_
  exact (forEach_grows (fun b hq => freeDevicePrefixBlock_grows hq rfl) demoted hu.shared).post
    fun _ v hv => hu.trans hv

end Blocks

/-! ### Operations between steps -/

/-- `Shared`, when the tokens of all requests are stored. -/
def Settled (g : QuestGeometry) (numPages : Nat) (q : QuestPrefixCache B) : Prop :=
  Shared g numPages q.cache.rowLen q

/-- An operation that keeps what is stored. -/
def Settles (g : QuestGeometry) (numPages : Nat) (q q' : QuestPrefixCache B) : Prop :=
  Settled g numPages q' ∧ ∀ (K : Type) [Lattice K] [BoundedOrder K] (m : PagedStore K),
    Filled g q.cache.rowLen q m → Filled g q'.cache.rowLen q' m

theorem Settled.refl (h : Settled g numPages q) : Settles g numPages q q := ⟨h, fun _ _ _ _ hm => hm⟩

theorem Settles.trans (h : Settles g numPages q q') (h' : Settles g numPages q' q'') :
    Settles g numPages q q'' :=
  ⟨h'.1, fun K _ _ m hm => h'.2 K m (h.2 K m hm)⟩

/-- When the tokens of all requests have been stored. -/
theorem Shared.settled (h : Shared g numPages filled q) : Settled g numPages q where
  __ := h
  filled_le _ := le_refl _
  cached hrow hcol := by
    obtain ⟨hle, hpage⟩ := h.cached hrow hcol
    exact ⟨hle.trans (h.filled_le _), hpage⟩

theorem Settled.settles (h : Settled g numPages q)
    (hgrows : Grows g numPages q.cache.rowLen (fun _ => 0) q q') : Settles g numPages q q' := by
  have hsame : q'.cache.rowLen = q.cache.rowLen := funext hgrows.lens
  refine ⟨?_, fun K _ _ m hm => ?_⟩
  · unfold Settled
    rw [hsame]
    exact hgrows.shared
  · rw [hsame]
    exact hm.grows h hgrows

/-! #### Attaching a prefix -/

section Attach

variable {seq row : Nat} {chain : List B} {pages : List Nat}

theorem rowLen_attachPages (h : Settled g numPages q) (hrow : q.cache.seqIdToRow seq = some row)
    (s : SeqId) :
    (q.attachPages g seq row chain pages).cache.rowLen s =
      if s = seq then pages.length * g.pageSize else q.cache.rowLen s := by
  cases hs : q.cache.seqIdToRow s with
  | none =>
    have hne : s ≠ seq := by
      rintro rfl
      rw [hrow] at hs
      cases hs
    have hsame : (q.attachPages g seq row chain pages).cache.seqIdToRow s = none := hs
    unfold QuestCache.rowLen
    rw [hsame, hs, if_neg hne]
  | some r =>
    have hsame : (q.attachPages g seq row chain pages).cache.seqIdToRow s = some r := hs
    rw [QuestCache.rowLen_of_row hsame, QuestCache.rowLen_of_row hs]
    by_cases heq : s = seq
    · subst heq
      obtain rfl : r = row := Option.some.inj (hs.symm.trans hrow)
      rw [if_pos rfl]
      exact Function.update_self ..
    · rw [if_neg heq]
      exact Function.update_of_ne (fun hr : r = row => heq (h.rows (hr ▸ hs) hrow)) ..

theorem pagesFor_mul (count : Nat) : g.pagesFor (count * g.pageSize) = count := by
  rw [g.pagesFor_of_full (Nat.mul_mod_left _ _), Nat.mul_div_cancel _ g.positive]

theorem mem_chain_of_page (hchain : List.Forall₂ (fun b page => q.devicePage b = some page) chain pages)
    {col : Nat} (hcol : col < pages.length) :
    ∃ b ∈ chain, q.devicePage b = some (pages.getD col 0) := by
  have hlen := hchain.length_eq
  refine ⟨chain.get ⟨col, by omega⟩, List.get_mem _ _, ?_⟩
  rw [List.getD_eq_getElem _ _ hcol]
  exact hchain.get (by omega) hcol

theorem Settled.attachPages (h : Settled g numPages q) (hrow : q.cache.seqIdToRow seq = some row)
    (hempty : q.cache.rowLen seq = 0)
    (hchain : List.Forall₂ (fun b page => q.devicePage b = some page) chain pages) :
    Settles g numPages q (q.attachPages g seq row chain pages) := by
  have hlen : ∀ s, (q.attachPages g seq row chain pages).cache.rowLen s =
      if s = seq then pages.length * g.pageSize else q.cache.rowLen s := rowLen_attachPages h hrow
  have hself : (q.attachPages g seq row chain pages).cache.rowSeqLens row =
      pages.length * g.pageSize := Function.update_self ..
  have hother : ∀ {s r}, q.cache.seqIdToRow s = some r → s ≠ seq →
      r ≠ row ∧ (q.attachPages g seq row chain pages).cache.rowSeqLens r = q.cache.rowSeqLens r ∧
        (q.attachPages g seq row chain pages).cachedPages s = q.cachedPages s := by
    intro s r hs hne
    have hr : r ≠ row := fun hr => hne (h.rows (hr ▸ hs) hrow)
    exact ⟨hr, Function.update_of_ne hr .., Function.update_of_ne hne ..⟩
  have hslots : ∀ {r col}, r ≠ row →
      (q.attachPages g seq row chain pages).cache.pageSlots r col = q.cache.pageSlots r col :=
    fun hr => if_neg fun hin => hr hin.1
  have hnew : ∀ {col}, col < pages.length →
      (q.attachPages g seq row chain pages).cache.pageSlots row col = (pages.getD col 0 : Nat) :=
    fun hcol => if_pos ⟨rfl, hcol⟩
  -- The columns of the row are those attached, and all of them are cached.
  have hcols : ∀ {col}, col < g.pagesFor ((q.attachPages g seq row chain pages).cache.rowSeqLens row) →
      col < pages.length := by
    intro col hcol
    rwa [hself, pagesFor_mul] at hcol
  have hcached : (q.attachPages g seq row chain pages).cachedPages seq =
      List.range pages.length ++ q.cachedPages seq := Function.update_self ..
  have hnone : ∀ col, col ∉ q.cachedPages seq := by
    intro col hcol
    have hle := (h.cached hrow hcol).1
    have hpos := g.positive
    rw [hempty, Nat.succ_mul] at hle
    omega
  refine ⟨⟨h.rows, h.distinctRows, fun r hr => ⟨?_, (h.idle r hr).2⟩, ?_, h.freeInRange, h.blockInRange,
    fun {s r col} hs hcol => ?_, fun {s r i} hs hi => ?_, fun s => le_refl _,
    fun {s r col} hs hcol => ?_, fun {s} hs => ?_⟩, fun K _ _ m hm => ⟨fun {s r col} hs hcol => ?_,
      hm.blocks⟩⟩
  · have hne : r ≠ row := fun heq => (h.idle r hr).2 seq (heq ▸ hrow)
    exact (Function.update_of_ne hne ..).trans (h.idle r hr).1
  · refine h.pool.mono fun a p ha => ?_
    rcases a with ⟨s, col⟩ | b
    · obtain ⟨r, hs, hcol, hout, hslot⟩ := owner_cell_iff.mp ha
      by_cases heq : s = seq
      · subst heq
        obtain rfl : r = row := Option.some.inj (hs.symm.trans hrow)
        rw [hcached] at hout
        exact absurd (List.mem_append_left _ (List.mem_range.mpr (hcols hcol))) hout
      · obtain ⟨hr, hlens, hpages⟩ := hother hs heq
        rw [hlens] at hcol
        rw [hpages] at hout
        rw [hslots hr] at hslot
        exact owner_cell_iff.mpr ⟨r, hs, hcol, hout, hslot⟩
    · exact ha
  · by_cases heq : s = seq
    · subst heq
      obtain rfl : r = row := Option.some.inj (hs.symm.trans hrow)
      obtain ⟨b, -, hpage⟩ := mem_chain_of_page hchain (hcols hcol)
      exact ⟨_, h.blockInRange hpage, hnew (hcols hcol)⟩
    · obtain ⟨hr, hlens, -⟩ := hother hs heq
      rw [hlens] at hcol
      rw [hslots hr]
      exact h.pages hs hcol
  · by_cases heq : s = seq
    · subst heq
      obtain rfl : r = row := Option.some.inj (hs.symm.trans hrow)
      rw [hself] at hi
      have hcol : i / g.pageSize < pages.length := Nat.div_lt_of_lt_mul (Nat.mul_comm _ _ ▸ hi)
      refine (if_pos ⟨rfl, hi⟩).trans ?_
      unfold QuestCache.slotAt
      rw [hnew hcol]
    · obtain ⟨hr, hlens, -⟩ := hother hs heq
      rw [hlens] at hi
      refine (if_neg fun hin => hr hin.1).trans ((h.tokens hs hi).trans ?_)
      unfold QuestCache.slotAt
      rw [hslots hr]
  · by_cases heq : s = seq
    · subst heq
      obtain rfl : r = row := Option.some.inj (hs.symm.trans hrow)
      rw [hcached] at hcol
      have hlt := List.mem_range.mp ((List.mem_append.mp hcol).resolve_right (hnone col))
      obtain ⟨b, hb, hpage⟩ := mem_chain_of_page hchain hlt
      refine ⟨?_, b, _, List.mem_append_left _ (List.mem_map_of_mem hb), hpage, hnew hlt⟩
      rw [hlen, if_pos rfl]
      exact Nat.mul_le_mul_right _ hlt
    · obtain ⟨hr, -, hpages⟩ := hother hs heq
      rw [hpages] at hcol
      obtain ⟨hle, b, p, hheld, hpage, hslot⟩ := h.cached hs hcol
      refine ⟨?_, b, p, List.mem_append_right _ hheld, hpage, (hslots hr).trans hslot⟩
      rw [hlen, if_neg heq]
      exact hle
  · have hne : s ≠ seq := by
      rintro rfl
      rw [show q.cache.seqIdToRow s = none from hs] at hrow
      cases hrow
    exact (Function.update_of_ne hne ..).trans (h.uncached hs)
  · rw [hlen] at hcol ⊢
    by_cases heq : s = seq
    · subst heq
      obtain rfl : r = row := Option.some.inj (hs.symm.trans hrow)
      rw [if_pos rfl, pagesFor_mul] at hcol
      obtain ⟨b, -, hpage⟩ := mem_chain_of_page hchain hcol
      have hfull : min g.pageSize (pages.length * g.pageSize - col * g.pageSize) = g.pageSize := by
        have hle := Nat.mul_le_mul_right g.pageSize (Nat.succ_le_of_lt hcol)
        rw [Nat.succ_mul] at hle
        omega
      rw [if_pos rfl, hfull, hnew hcol]
      exact hm.blocks hpage
    · obtain ⟨hr, -, -⟩ := hother hs heq
      rw [if_neg heq] at hcol ⊢
      rw [hslots hr]
      exact hm.rows hs hcol

theorem requirePage_returns (b : B) :
    Returns (· = q) (requirePage b) fun page q' => q' = q ∧ q.devicePage b = some page := by
  refine Spec.get_bind fun t ht => ?_
  subst ht
  cases hpage : t.devicePage b with
  | none => exact Spec.throw fun _ _ => trivial
  | some page => exact Spec.pure fun u hu => ⟨hu, rfl⟩

theorem requirePages (chain : List B) :
    Returns (· = q) (mapEach chain requirePage) fun pages q' =>
      q' = q ∧ List.Forall₂ (fun b page => q.devicePage b = some page) chain pages := by
  induction chain with
  | nil => exact Spec.pure fun u hu => ⟨hu, .nil⟩
  | cons b chain ih =>
    refine Spec.bind (requirePage_returns b) fun page => Spec.intro fun u hu => ?_
    obtain ⟨rfl, hpage⟩ := hu
    refine Spec.bind ih fun pages => Spec.pure fun v hv => ?_
    exact ⟨hv.1, .cons hpage hv.2⟩

/-- `_attach_prefix_cache_if_needed`. -/
theorem attachPrefixCacheIfNeeded_settles (h : Settled g numPages q) (seq : SeqId) (chain : List B) :
    Returns (· = q) (attachPrefixCacheIfNeeded g seq chain) fun _ q' => Settles g numPages q q' ∧
      (∀ s row, q.cache.seqIdToRow s = some row → q'.cache.seqIdToRow s = some row) ∧
      (chain ≠ [] → q'.cache.seqIdToRow seq ≠ none) := by
  refine Spec.get_bind fun t ht => ?_
  subst ht
  refine Spec.ite (fun hnil => ?_) fun _ => ?_
  · refine Spec.pure fun u hu => ?_
    obtain rfl : t = u := hu.symm
    exact ⟨h.refl, fun _ _ hs => hs, fun hne => absurd hnil hne⟩
  · refine Spec.bind (requirePages chain) fun pages => Spec.intro fun u hu => ?_
    obtain ⟨rfl, hpages⟩ := hu
    refine Spec.raiseIf_bind (fun _ _ _ => trivial) fun hempty => ?_
    refine Spec.bind (R := fun row q' => ∃ c, q' = u.withCache c ∧
      Grows g numPages u.cache.rowLen (fun _ => 0) u (u.withCache c) ∧ c.seqIdToRow seq = some row)
      ?_ fun row => Spec.intro fun v hv => ?_
    · intro v hv
      subst hv
      have hplaced := getFreeRow_grows (q := v) h seq v.cache rfl
      unfold onAllocator zoom
      cases hrun : getFreeRow seq v.cache with
      | error error c => trivial
      | ok row c =>
        rw [hrun] at hplaced
        exact ⟨c, rfl, hplaced.1, hplaced.2.1⟩
    · obtain ⟨c, rfl, hplaced, hrow⟩ := hv
      have hsettles := Settled.settles h hplaced
      intro w hw
      subst hw
      refine ⟨hsettles.trans (hsettles.1.attachPages hrow ?_ hpages), fun s r hs => hplaced.rows hs,
        fun _ hnone => ?_⟩
      · exact (hplaced.lens seq).trans (not_not.mp hempty)
      · rw [show c.seqIdToRow seq = none from hnone] at hrow
        cases hrow

end Attach

/-! #### Keeping a page -/

section Commit

variable {seq row col : Nat} {b : B} {page : Nat}

/-- More references, and nothing else. -/
theorem Settled.hold (h : Settled g numPages q) {held : List (SeqId × B)}
    (hheld : ∀ ref ∈ q.held, ref ∈ held) : Settles g numPages q { q with held := held } := by
  refine ⟨⟨h.rows, h.distinctRows, h.idle, h.pool, h.freeInRange, h.blockInRange, h.pages, h.tokens,
    h.filled_le, fun hs hcol => ?_, h.uncached⟩, fun K _ _ m hm => ⟨hm.rows, hm.blocks⟩⟩
  obtain ⟨hle, b, p, href, hpage, hslot⟩ := h.cached hs hcol
  exact ⟨hle, b, p, hheld _ href, hpage, hslot⟩

variable [DecidableEq B]

/-- A new block keeps the page of a full column. -/
theorem Settled.keepPage (h : Settled g numPages q) (hrow : q.cache.seqIdToRow seq = some row)
    (hfull : (col + 1) * g.pageSize ≤ q.cache.rowSeqLens row) (hout : col ∉ q.cachedPages seq)
    (hnew : q.blocks b = none) (hpage : q.cache.pageSlots row col = page) (hrange : page < numPages) :
    Settles g numPages q (q.keepPage seq col b page) := by
  have hcol : col < g.pagesFor (q.cache.rowSeqLens row) := by
    have hpos := g.positive
    rw [Nat.succ_mul] at hfull
    exact g.lt_pagesFor.mpr (by omega)
  have hdevice : ∀ b', (q.keepPage seq col b page).devicePage b' =
      if b' = b then some page else q.devicePage b' := fun b' => devicePage_update b'
  have hcached : ∀ s, (q.keepPage seq col b page).cachedPages s =
      if s = seq then col :: q.cachedPages seq else q.cachedPages s := fun s => by
    unfold QuestPrefixCache.keepPage
    dsimp only
    rw [Function.update_apply]
  have hold : q.owner g (.inl (seq, col)) = some page :=
    owner_cell_iff.mpr ⟨row, hrow, hcol, hout, by rw [hpage]; exact Int.toNat_natCast _⟩
  have hnone : q.devicePage b = none := by
    unfold devicePage
    rw [hnew]
    rfl
  -- The cells that have an owner are those there were, without the column.
  have hcell : ∀ {s k p}, (q.keepPage seq col b page).owner g (.inl (s, k)) = some p →
      q.owner g (.inl (s, k)) = some p ∧ (s, k) ≠ (seq, col) := by
    intro s k p ha
    obtain ⟨r, hs, hk, hk', hslot⟩ := owner_cell_iff.mp ha
    rw [hcached] at hk'
    split at hk'
    · rename_i heq
      subst heq
      rw [List.mem_cons, not_or] at hk'
      exact ⟨owner_cell_iff.mpr ⟨r, hs, hk, hk'.2, hslot⟩, fun heq => hk'.1 (Prod.mk.inj heq).2⟩
    · rename_i hne
      exact ⟨owner_cell_iff.mpr ⟨r, hs, hk, hk', hslot⟩, fun heq => hne (Prod.mk.inj heq).1⟩
  have hblock : ∀ {b' p}, (q.keepPage seq col b page).owner g (.inr b') = some p →
      b' = b ∧ p = page ∨ b' ≠ b ∧ q.owner g (.inr b') = some p := by
    intro b' p ha
    have ha' : (q.keepPage seq col b page).devicePage b' = some p := ha
    rw [hdevice] at ha'
    split at ha'
    · rename_i heq
      exact Or.inl ⟨heq, (Option.some.inj ha').symm⟩
    · rename_i hne
      exact Or.inr ⟨hne, ha'⟩
  refine ⟨⟨h.rows, h.distinctRows, h.idle, ?_, h.freeInRange, fun {b' p} hb => ?_, h.pages, h.tokens,
    h.filled_le, fun {s r k} hs hk => ?_, fun {s} hs => ?_⟩, fun K _ _ m hm =>
      ⟨hm.rows, fun {b' p} hb => ?_⟩⟩
  · refine h.pool.pass (fun a => if a = .inr b then .inl (seq, col) else a) (fun a p ha => ?_)
      fun a a' p ha ha' heq => ?_
    · rcases a with ⟨s, k⟩ | b'
      · rw [if_neg (by simp)]
        exact (hcell ha).1
      · rcases hblock ha with ⟨rfl, rfl⟩ | ⟨hne, hb⟩
        · rw [if_pos rfl]
          exact hold
        · rw [if_neg fun heq => hne (Sum.inr.inj heq)]
          exact hb
    · split at heq
      · split at heq
        · rename_i h₁ h₂
          exact h₁.trans h₂.symm
        · subst heq
          exact absurd rfl (hcell ha').2
      · split at heq
        · subst heq
          exact absurd rfl (hcell ha).2
        · exact heq
  · rcases hblock hb with ⟨-, rfl⟩ | ⟨-, hb⟩
    · exact hrange
    · exact h.blockInRange hb
  · have hkept : ∀ {k}, k ∈ q.cachedPages s → (k + 1) * g.pageSize ≤ q.cache.rowLen s ∧
        ∃ b' p, (s, b') ∈ (seq, b) :: q.held ∧
          (q.keepPage seq col b page).devicePage b' = some p ∧ q.cache.pageSlots r k = p := by
      intro k hk
      obtain ⟨hle, b', p, href, hb, hslot⟩ := h.cached hs hk
      refine ⟨hle, b', p, List.mem_cons_of_mem _ href, ?_, hslot⟩
      have hne : b' ≠ b := by
        rintro rfl
        rw [hnone] at hb
        cases hb
      rw [hdevice, if_neg hne]
      exact hb
    rw [hcached] at hk
    split at hk
    · rename_i heq
      subst heq
      rcases List.mem_cons.mp hk with rfl | hk
      · obtain rfl : r = row := Option.some.inj (hs.symm.trans hrow)
        refine ⟨hfull.trans_eq (QuestCache.rowLen_of_row hrow).symm, b, page, List.mem_cons_self, ?_,
          hpage⟩
        rw [hdevice, if_pos rfl]
      · exact hkept hk
    · exact hkept hk
  · have hne : s ≠ seq := by
      rintro rfl
      rw [show q.cache.seqIdToRow s = none from hs] at hrow
      cases hrow
    rw [hcached, if_neg hne]
    exact h.uncached hs
  · rcases hblock hb with ⟨-, rfl⟩ | ⟨-, hb⟩
    · have hstored : col < g.pagesFor (q.cache.rowLen seq) := by
        rw [QuestCache.rowLen_of_row hrow]
        exact hcol
      have hexact := hm.rows hrow hstored
      have hmin : min g.pageSize (q.cache.rowLen seq - col * g.pageSize) = g.pageSize := by
        rw [QuestCache.rowLen_of_row hrow]
        rw [Nat.succ_mul] at hfull
        omega
      rw [hmin, hpage] at hexact
      exact hexact
    · exact hm.blocks hb

/-- `on_forward_end`, for a page. -/
theorem commitPrefixBlock_settles (h : Settled g numPages q) (seq : SeqId) (col : Nat) (b : B) :
    Returns (· = q) (commitPrefixBlock g seq col b) fun _ q' => Settles g numPages q q' := by
  refine Spec.get_bind fun t ht => ?_
  subst ht
  cases hrow : t.cache.seqIdToRow seq with
  | none => exact Spec.throw fun _ _ => trivial
  | some row =>
    refine Spec.raiseIf_bind (fun _ _ _ => trivial) fun hfull => ?_
    rw [not_or, not_lt] at hfull
    cases hb : t.blocks b with
    | some block =>
      intro u _
      refine h.hold fun ref href => ?_
      split
      · exact href
      · exact List.mem_cons_of_mem _ href
    | none =>
      have hcol : col < g.pagesFor (t.cache.rowSeqLens row) := by
        have hpos := g.positive
        have hle := hfull.1
        rw [Nat.succ_mul] at hle
        exact g.lt_pagesFor.mpr (by omega)
      obtain ⟨page, hrange, hpage⟩ := h.pages hrow hcol
      intro u _
      have hnat : (t.cache.pageSlots row col).toNat = page := by rw [hpage]; exact Int.toNat_natCast _
      show Settles g numPages t (t.keepPage seq col b (t.cache.pageSlots row col).toNat)
      rw [hnat]
      exact h.keepPage hrow hfull.1 hfull.2 hb hpage hrange

end Commit

/-! #### Leaving -/

section Release

variable {seq row : Nat}

theorem rowLen_releaseRow (h : Settled g numPages q) (hrow : q.cache.seqIdToRow seq = some row)
    (s : SeqId) :
    (q.releaseRow g seq row).cache.rowLen s = if s = seq then 0 else q.cache.rowLen s := by
  by_cases heq : s = seq
  · subst heq
    have hself : (q.releaseRow g s row).cache.seqIdToRow s = none := Function.update_self ..
    unfold QuestCache.rowLen
    rw [hself, if_pos rfl]
  · have hother : (q.releaseRow g seq row).cache.seqIdToRow s = q.cache.seqIdToRow s :=
      Function.update_of_ne heq ..
    unfold QuestCache.rowLen
    rw [hother, if_neg heq]
    cases hs : q.cache.seqIdToRow s with
    | none => rfl
    | some r => exact Function.update_of_ne (fun hr : r = row => heq (h.rows (hr ▸ hs) hrow)) ..

theorem Settled.releaseRow (h : Settled g numPages q) (hrow : q.cache.seqIdToRow seq = some row) :
    Settles g numPages q (q.releaseRow g seq row) := by
  have hlen : ∀ s, (q.releaseRow g seq row).cache.rowLen s =
      if s = seq then 0 else q.cache.rowLen s := rowLen_releaseRow h hrow
  have hmap : ∀ {s r}, (q.releaseRow g seq row).cache.seqIdToRow s = some r →
      s ≠ seq ∧ q.cache.seqIdToRow s = some r ∧ r ≠ row := by
    intro s r hs
    have hne : s ≠ seq := by
      rintro rfl
      rw [show (q.releaseRow g s row).cache.seqIdToRow s = none from Function.update_self ..] at hs
      cases hs
    have hold := (Function.update_of_ne hne ..).symm.trans hs
    exact ⟨hne, hold, fun hr => hne (h.rows (hr ▸ hold) hrow)⟩
  have hlens : ∀ {r}, r ≠ row →
      (q.releaseRow g seq row).cache.rowSeqLens r = q.cache.rowSeqLens r :=
    fun hr => Function.update_of_ne hr ..
  have hslots : ∀ {r col}, r ≠ row →
      (q.releaseRow g seq row).cache.pageSlots r col = q.cache.pageSlots r col := fun hr => if_neg hr
  have hpages : ∀ {s}, s ≠ seq → (q.releaseRow g seq row).cachedPages s = q.cachedPages s :=
    fun hne => Function.update_of_ne hne ..
  generalize hback : (((List.range (g.pagesFor (q.cache.rowSeqLens row))).filter
    fun col => !(q.cachedPages seq).contains col).map
      fun col => (q.cache.pageSlots row col).toNat) = back
  have hfree : (q.releaseRow g seq row).cache.freePages = back.reverse ++ q.cache.freePages := by
    rw [← hback]
    rfl
  -- The pages that come back are those of the columns that are not cached.
  have howner : ∀ {col}, col ∈ (List.range (g.pagesFor (q.cache.rowSeqLens row))).filter
      (fun col => !(q.cachedPages seq).contains col) →
        q.owner g (.inl (seq, col)) = some (q.cache.pageSlots row col).toNat := by
    intro col hcol
    obtain ⟨hlt, hout⟩ := List.mem_filter.mp hcol
    refine owner_cell_iff.mpr ⟨row, hrow, List.mem_range.mp hlt, ?_, rfl⟩
    simpa using hout
  have hmem : ∀ page ∈ back, ∃ col, q.owner g (.inl (seq, col)) = some page := by
    intro page hpage
    rw [← hback] at hpage
    obtain ⟨col, hcol, rfl⟩ := List.mem_map.mp hpage
    exact ⟨col, howner hcol⟩
  have hnd : back.Nodup := by
    rw [← hback]
    refine List.Nodup.map_on (fun col hcol col' hcol' heq => ?_) (List.nodup_range.filter _)
    have hsame := h.pool.apart (howner hcol) (heq ▸ howner hcol')
    exact (Prod.mk.inj (Sum.inl.inj hsame)).2
  have hkept : ∀ {a page}, (q.releaseRow g seq row).owner g a = some page →
      q.owner g a = some page ∧ ∀ col, a ≠ .inl (seq, col) := by
    intro a page ha
    rcases a with ⟨s, col⟩ | b
    · obtain ⟨r, hs, hcol, hout, hslot⟩ := owner_cell_iff.mp ha
      obtain ⟨hne, hold, hr⟩ := hmap hs
      rw [hlens hr] at hcol
      rw [hpages hne] at hout
      rw [hslots hr] at hslot
      exact ⟨owner_cell_iff.mpr ⟨r, hold, hcol, hout, hslot⟩,
        fun col heq => hne (Prod.mk.inj (Sum.inl.inj heq)).1⟩
    · exact ⟨ha, fun _ heq => by cases heq⟩
  refine ⟨⟨fun hs hs' => h.rows (hmap hs).2.1 (hmap hs').2.1, ?_, fun r hr => ?_, ?_, fun page hpage => ?_,
    h.blockInRange, fun {s r col} hs hcol => ?_, fun {s r i} hs hi => ?_, fun s => le_refl _,
    fun {s r col} hs hcol => ?_, fun {s} hs => ?_⟩, fun K _ _ m hm => ⟨fun {s r col} hs hcol => ?_,
      hm.blocks⟩⟩
  · refine List.nodup_append.mpr ⟨h.distinctRows, List.nodup_singleton _, fun r hr r' hr' heq => ?_⟩
    obtain rfl := List.mem_singleton.mp hr'
    exact (h.idle r hr).2 seq (heq ▸ hrow)
  · rcases List.mem_append.mp hr with hr | hr
    · have hne : r ≠ row := fun heq => (h.idle r hr).2 seq (heq ▸ hrow)
      exact ⟨(hlens hne).trans (h.idle r hr).1, fun s hs => (h.idle r hr).2 s (hmap hs).2.1⟩
    · obtain rfl := List.mem_singleton.mp hr
      exact ⟨Function.update_self .., fun s hs => (hmap hs).2.2 rfl⟩
  · rw [hfree]
    refine (h.pool.give hnd (fun page hpage => ?_) fun a page ha => ?_).perm
      (List.perm_append_comm.trans ((List.reverse_perm back).symm.append_right _))
    · obtain ⟨col, hcol⟩ := hmem page hpage
      exact ⟨_, hcol⟩
    · obtain ⟨hold, hne⟩ := hkept ha
      refine ⟨hold, fun hpage => ?_⟩
      obtain ⟨col, hcol⟩ := hmem page hpage
      exact hne col (h.pool.apart hold hcol)
  · rw [hfree] at hpage
    rcases List.mem_append.mp hpage with hpage | hpage
    · rw [List.mem_reverse, ← hback] at hpage
      obtain ⟨col, hcol, rfl⟩ := List.mem_map.mp hpage
      obtain ⟨page, hrange, hslot⟩ := h.pages hrow (List.mem_range.mp (List.mem_of_mem_filter hcol))
      rw [hslot]
      exact hrange
    · exact h.freeInRange page hpage
  · obtain ⟨hne, hold, hr⟩ := hmap hs
    rw [hlens hr] at hcol
    rw [hslots hr]
    exact h.pages hold hcol
  · obtain ⟨hne, hold, hr⟩ := hmap hs
    rw [hlens hr] at hi
    have htoken : (q.releaseRow g seq row).cache.tokenSlots r i = q.cache.tokenSlots r i := if_neg hr
    rw [htoken, h.tokens hold hi]
    unfold QuestCache.slotAt
    rw [hslots hr]
  · obtain ⟨hne, hold, hr⟩ := hmap hs
    rw [hpages hne] at hcol
    obtain ⟨hle, b, page, href, hb, hslot⟩ := h.cached hold hcol
    refine ⟨?_, b, page, List.mem_filter.mpr ⟨href, decide_eq_true hne⟩, hb, (hslots hr).trans hslot⟩
    rw [hlen, if_neg hne]
    exact hle
  · by_cases heq : s = seq
    · exact heq ▸ Function.update_self ..
    · rw [hpages heq]
      exact h.uncached ((Function.update_of_ne heq ..).symm.trans hs)
  · obtain ⟨hne, hold, hr⟩ := hmap hs
    rw [hlen, if_neg hne] at hcol ⊢
    rw [hslots hr]
    exact hm.rows hold hcol

/-- `free_seq`. -/
theorem freePrefixSeq_settles (h : Settled g numPages q) (seq : SeqId) :
    Returns (· = q) (freePrefixSeq g seq) fun _ q' => Settles g numPages q q' := by
  refine Spec.get_bind fun t ht => ?_
  subst ht
  cases hrow : t.cache.seqIdToRow seq with
  | none => exact Spec.throw fun _ _ => trivial
  | some row => exact fun _ _ => h.releaseRow hrow

end Release

/-! #### Coming back from the host -/

section Promote

/-- A page of a row is not free. -/
theorem Shared.notMem_free (h : Shared g numPages filled q) {seq row col : Nat}
    (hrow : q.cache.seqIdToRow seq = some row) (hcol : col < g.pagesFor (q.cache.rowSeqLens row))
    {page : Nat} (hpage : q.cache.pageSlots row col = page) : page ∉ q.cache.freePages := by
  by_cases hcached : col ∈ q.cachedPages seq
  · obtain ⟨-, b, p, -, hb, hslot⟩ := h.cached hrow hcached
    obtain rfl : p = page := Int.ofNat.inj (hslot.symm.trans hpage)
    have howner : q.owner g (.inr b) = some p := hb
    exact h.pool.taken howner
  · refine h.pool.taken (owner_cell_iff.mpr ⟨row, hrow, hcol, hcached, ?_⟩)
    rw [hpage]
    exact Int.toNat_natCast _

/-- A store in which a page has been filled, and the others are as they were. -/
structure PageFilled {K : Type} [Lattice K] [BoundedOrder K] (size : Nat) (page : Int)
    (m m' : PagedStore K) : Prop where
  exact : m'.Exact size page size
  others : ∀ {page' filled}, page' ≠ page → filled ≤ size → m.Exact size page' filled →
    m'.Exact size page' filled

/-- A block on the host gets a free page, and the page its contents. -/
theorem promotePrefixBlock_settles [DecidableEq B] (h : Settled g numPages q) (b : B) :
    Returns (· = q) (promotePrefixBlock b) fun page q' => Settled g numPages q' ∧
      ∀ (K : Type) [Lattice K] [BoundedOrder K] (m m' : PagedStore K),
        PageFilled g.pageSize page m m' → Filled g q.cache.rowLen q m →
          Filled g q'.cache.rowLen q' m' := by
  refine Spec.get_bind fun t ht => ?_
  subst ht
  refine Spec.raiseIf_bind (fun _ _ _ => trivial) fun hhost => ?_
  cases hfree : t.cache.freePages with
  | nil => exact Spec.throw fun _ _ => trivial
  | cons page rest =>
    intro u _
    have hnone : t.devicePage b = none := by
      unfold devicePage
      rw [not_not.mp hhost]
      rfl
    have hpage : page ∈ t.cache.freePages := hfree ▸ List.mem_cons_self
    have hdevice : ∀ b', (({ t with cache := { t.cache with freePages := rest } } :
        QuestPrefixCache B).assignPage b page).devicePage b' =
          if b' = b then some page else t.devicePage b' := fun b' => devicePage_update b'
    have hblock : ∀ {b' p}, (({ t with cache := { t.cache with freePages := rest } } :
        QuestPrefixCache B).assignPage b page).devicePage b' = some p →
          b' = b ∧ p = page ∨ b' ≠ b ∧ t.devicePage b' = some p := by
      intro b' p hb
      rw [hdevice] at hb
      split at hb
      · rename_i heq
        exact Or.inl ⟨heq, (Option.some.inj hb).symm⟩
      · rename_i hne
        exact Or.inr ⟨hne, hb⟩
    refine ⟨⟨h.rows, h.distinctRows, h.idle, ?_, fun p hp => ?_, fun {b' p} hb => ?_, h.pages, h.tokens,
      fun s => le_refl _, fun {s r col} hs hcol => ?_, h.uncached⟩, fun K _ _ m m' hm' hm =>
        ⟨fun {s r col} hs hcol => ?_, fun {b' p} hb => ?_⟩⟩
    · have hsplit : t.cache.freePages.Perm (rest ++ [page]) := by
        rw [hfree]
        exact (List.perm_append_singleton page rest).symm
      refine (h.pool.perm hsplit).take rfl [(.inr b, page)] rfl fun a p ha => ?_
      rcases a with cell | b'
      · exact Or.inl ha
      · rcases hblock ha with ⟨rfl, rfl⟩ | ⟨-, hb⟩
        · exact Or.inr (List.mem_singleton.mpr rfl)
        · exact Or.inl hb
    · exact h.freeInRange p (hfree ▸ List.mem_cons_of_mem _ hp)
    · rcases hblock hb with ⟨-, rfl⟩ | ⟨-, hb⟩
      · exact h.freeInRange p hpage
      · exact h.blockInRange hb
    · obtain ⟨hle, b', p, href, hb, hslot⟩ := h.cached hs hcol
      have hne : b' ≠ b := by
        rintro rfl
        rw [hnone] at hb
        cases hb
      refine ⟨hle, b', p, href, ?_, hslot⟩
      rw [hdevice, if_neg hne]
      exact hb
    · have hlt := h.filled_lt hs hcol
      obtain ⟨p, -, hslot⟩ := h.pages hs hlt
      have hne : ((p : Nat) : Int) ≠ page := by
        intro heq
        exact h.notMem_free hs hlt (hslot.trans heq) hpage
      have hslot' : t.cache.pageSlots r col = p := hslot
      show m'.Exact g.pageSize (t.cache.pageSlots r col) _
      rw [hslot']
      refine hm'.others hne (min_le_left _ _) ?_
      have hexact := hm.rows hs hcol
      rw [hslot] at hexact
      exact hexact
    · rcases hblock hb with ⟨-, rfl⟩ | ⟨-, hb⟩
      · exact hm'.exact
      · have howner : t.owner g (.inr b') = some p := hb
        have hne : ((p : Nat) : Int) ≠ page := fun heq =>
          h.pool.taken howner (Int.ofNat.inj heq ▸ hpage)
        exact hm'.others hne (le_refl _) (hm.blocks hb)

end Promote

end QuestPrefixCache

end SparseVllm
