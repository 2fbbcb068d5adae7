import SparseVllm.Quest.BoundsRun

/-!
# QuEST pages are conserved

`Shared` says that no page has two owners. Here is the other half: no page is lost. A page is known
when it is free, or the page of a column of a request, or that of a block; every operation keeps what
is known known (`Accounts`).

* `Shared.grow_accounts`, `attachPages_accounts`, `keepPage_accounts`, `releaseRow_accounts`: pages
  change hands.
* **`quest_pages_conserved`**: after every run each page is free or has exactly one owner.

The runs are those of a manager with its own prefix cache or none, as in `Quest.Sharing`.
-/

namespace SparseVllm

open SparseVllm.Lib

namespace QuestPrefixCache

variable {B : Type} {g : QuestGeometry} {numPages : Nat} {filled : SeqId → Nat}
  {q q' q'' : QuestPrefixCache B}

/-- A page is free, or belongs to somebody. -/
def Known (g : QuestGeometry) (q : QuestPrefixCache B) (page : Nat) : Prop :=
  page ∈ q.cache.freePages ∨ ∃ a, q.owner g a = some page

/-- No page is lost. -/
def Accounts (g : QuestGeometry) (q q' : QuestPrefixCache B) : Prop :=
  ∀ page, Known g q page → Known g q' page

theorem Accounts.refl (q : QuestPrefixCache B) : Accounts g q q := fun _ h => h

theorem Accounts.trans (h : Accounts g q q') (h' : Accounts g q' q'') : Accounts g q q'' :=
  fun page hpage => h' page (h page hpage)

/-- An operation under which every owner keeps what it has, unless it returns it. -/
theorem accounts_of (hfree : ∀ page ∈ q.cache.freePages, Known g q' page)
    (howner : ∀ a page, q.owner g a = some page → Known g q' page) : Accounts g q q' := by
  rintro page (hpage | ⟨a, ha⟩)
  · exact hfree page hpage
  · exact howner a page ha

/-- Requests have been placed or have more tokens, and nothing has been taken. -/
theorem Grows.accounts {added : SeqId → Nat} {c : QuestCache}
    (h : Grows g numPages filled added q (q.withCache c))
    (hfree : ∀ page ∈ q.cache.freePages, page ∈ c.freePages) : Accounts g q (q.withCache c) := by
  refine accounts_of (fun page hpage => Or.inl (hfree page hpage)) fun a page ha => Or.inr ⟨a, ?_⟩
  rcases a with ⟨s, col⟩ | b
  · obtain ⟨row, hrow, hcol, hout, hslot⟩ := owner_cell_iff.mp ha
    have hlen := h.lens s
    rw [QuestCache.rowLen_of_row hrow, QuestCache.rowLen_of_row (h.rows hrow)] at hlen
    refine owner_cell_iff.mpr ⟨row, h.rows hrow, hcol.trans_le (g.pagesFor_mono ?_), hout, ?_⟩
    · exact hlen ▸ Nat.le_add_right _ _
    · rw [h.pages hrow hcol]
      exact hslot
  · exact ha

/-! ### More tokens -/

/-- A row belongs to one request, and the cached columns of a request are columns. -/
structure Placed (g : QuestGeometry) (q : QuestPrefixCache B) : Prop where
  rows : ∀ {s s' row}, q.cache.seqIdToRow s = some row → q.cache.seqIdToRow s' = some row → s = s'
  cached : ∀ {s row col}, q.cache.seqIdToRow s = some row → col ∈ q.cachedPages s →
    col < g.pagesFor (q.cache.rowSeqLens row)

theorem Shared.isPlaced (h : Shared g numPages filled q) : Placed g q := ⟨h.rows, h.cached_lt⟩

section Grow

variable {seq row size : Nat}

theorem pagesFor_grow (c : QuestCache) (r : Nat) :
    g.pagesFor (c.rowSeqLens r) ≤ g.pagesFor ((c.grow g row size).rowSeqLens r) := by
  refine g.pagesFor_mono ?_
  rw [QuestCache.grow_rowSeqLens, Function.update_apply]
  split
  · rename_i heq
    subst heq
    exact Nat.le_add_right _ _
  · exact le_refl _

theorem Placed.grow (h : Placed g q) : Placed g (q.withCache (q.cache.grow g row size)) :=
  ⟨h.rows, fun hs hcol => (h.cached hs hcol).trans_le (pagesFor_grow ..)⟩

/-- The pages that a row takes are pages of its columns. -/
theorem Placed.grow_accounts (h : Placed g q) (hrow : q.cache.seqIdToRow seq = some row) :
    Accounts g q (q.withCache (q.cache.grow g row size)) := by
  refine accounts_of (fun page hpage => ?_) fun a page ha => Or.inr ⟨a, ?_⟩
  · obtain ⟨k, hk, rfl⟩ := List.getElem_of_mem hpage
    generalize hneeded : g.pagesFor (q.cache.rowSeqLens row + size) -
      g.pagesFor (q.cache.rowSeqLens row) = needed
    rcases Nat.lt_or_ge k needed with hlt | hge
    · have hlens : (q.cache.grow g row size).rowSeqLens row = q.cache.rowSeqLens row + size :=
        Function.update_self ..
      refine Or.inr ⟨.inl (seq, g.pagesFor (q.cache.rowSeqLens row) + k),
        owner_cell_iff.mpr ⟨row, hrow, ?_, fun hin => ?_, ?_⟩⟩
      · show _ < g.pagesFor ((q.cache.grow g row size).rowSeqLens row)
        rw [hlens]
        omega
      · exact absurd (h.cached hrow hin) (by omega)
      · have hslot : (q.cache.grow g row size).pageSlots row (g.pagesFor (q.cache.rowSeqLens row) + k) =
            ((q.cache.freePages.getD (g.pagesFor (q.cache.rowSeqLens row) + k -
              g.pagesFor (q.cache.rowSeqLens row)) 0 : Nat) : Int) := if_pos ⟨rfl, by omega, by omega⟩
        rw [Nat.add_sub_cancel_left, List.getD_eq_getElem _ _ hk] at hslot
        exact (congrArg Int.toNat hslot).trans (Int.toNat_natCast _)
    · refine Or.inl ?_
      show _ ∈ (q.cache.grow g row size).freePages
      rw [QuestCache.grow_freePages, hneeded]
      exact List.mem_drop_iff_getElem.mpr ⟨k - needed, by omega, by simp [hge]⟩
  · rcases a with ⟨s, col⟩ | b
    · obtain ⟨r, hs, hcol, hout, hslot⟩ := owner_cell_iff.mp ha
      refine owner_cell_iff.mpr ⟨r, hs, hcol.trans_le (pagesFor_grow ..), hout, ?_⟩
      show ((q.cache.grow g row size).pageSlots r col).toNat = page
      rw [QuestCache.grow_pageSlots_old hcol]
      exact hslot
    · exact ha

end Grow

/-! ### The methods of the allocator -/

section Allocator

theorem getFreeRow_accounts (h : Shared g numPages filled q) (seq : SeqId) :
    Returns (· = q.cache) (getFreeRow seq) fun row c =>
      Grows g numPages filled (fun _ => 0) q (q.withCache c) ∧ Accounts g q (q.withCache c) ∧
        c.seqIdToRow seq = some row := by
  refine (getFreeRow_grows h seq).post fun row c hc => ?_
  exact ⟨hc.1, hc.1.accounts fun page hpage => hc.2.2 ▸ hpage, hc.2.1⟩

/-- `_allocate`. -/
theorem allocate_accounts (h : Shared g numPages filled q) (seq : SeqId) (size : Nat) :
    Returns (· = q.cache) (allocate g seq size) fun _ c => Accounts g q (q.withCache c) := by
  refine Spec.get_bind fun t ht => ?_
  subst ht
  refine Spec.raiseIf_bind (fun _ _ _ => trivial) fun _ => ?_
  refine Spec.bind (getFreeRow_accounts h seq) fun row => Spec.get_bind fun u hu => ?_
  obtain ⟨hplaced, haccounts, hrow⟩ := hu
  refine Spec.raiseIf_bind (fun _ _ _ => trivial) fun _ => ?_
  have hneeded : requiredNewPages g q.cache seq size =
      g.pagesFor (u.rowSeqLens row + size) - g.pagesFor (u.rowSeqLens row) := by
    unfold requiredNewPages
    rw [← (hplaced.lens seq).trans (Nat.add_zero _)]
    show g.pagesFor (u.rowLen seq + size) - g.pagesFor (u.rowLen seq) = _
    rw [QuestCache.rowLen_of_row hrow]
  rw [hneeded]
  intro v hv
  subst hv
  exact haccounts.trans (hplaced.shared.isPlaced.grow_accounts hrow)

/-- The rows of a batch grow, one after the other. -/
theorem growRows_accounts {append : Nat → QuestCache → QuestCache}
    (happend : ∀ c row, ∃ slots, append row c = { c.grow g row 1 with tokenSlots := slots })
    (rows : List Nat) : ∀ {q : QuestPrefixCache B}, Placed g q →
      (∀ row ∈ rows, ∃ s, q.cache.seqIdToRow s = some row) →
      Returns (· = q.cache) (forEach rows fun row => (modify (append row) : QuestM Unit)) fun _ c =>
        Accounts g q (q.withCache c) := by
  induction rows with
  | nil =>
    intro q _ _
    refine Spec.pure fun c hc => ?_
    subst hc
    exact Accounts.refl q
  | cons row rows ih =>
    intro q h hrows
    obtain ⟨s, hs⟩ := hrows row List.mem_cons_self
    obtain ⟨slots, hslots⟩ := happend q.cache row
    have hgrow : Placed g (q.withCache (append row q.cache)) := by
      have hgrown : Placed g (q.withCache (q.cache.grow g row 1)) := h.grow
      rw [hslots]
      exact ⟨hgrown.rows, hgrown.cached⟩
    have hfirst : Accounts g q (q.withCache (append row q.cache)) := by
      rw [hslots]
      exact fun page hpage => h.grow_accounts hs page hpage
    refine Spec.bind (R := fun _ c => c = append row q.cache) ?_ fun _ => ?_
    · intro c hc
      subst hc
      rfl
    · refine (ih hgrow fun r hr => ?_).post fun _ c hc => hfirst.trans hc
      show ∃ s, (append row q.cache).seqIdToRow s = some r
      rw [hslots]
      exact hrows r (List.mem_cons_of_mem _ hr)

theorem appendEager_grows (noNewPages : Bool) (c : QuestCache) (row : Nat) :
    ∃ slots, c.appendEager g noNewPages row = { c.grow g row 1 with tokenSlots := slots } := by
  rw [← QuestCache.writeToken_takeNewPage]
  exact ⟨_, rfl⟩

theorem appendGraph_grows (c : QuestCache) (row : Nat) :
    ∃ slots, c.appendGraph g row = { c.grow g row 1 with tokenSlots := slots } :=
  ⟨_, QuestCache.appendGraph_eq row⟩

/-- Each of the rows of a batch has a request. -/
theorem exists_seq_of_rows {c : QuestCache} {seqs : List SeqId} {rows : List Nat}
    (h : List.Forall₂ (fun s row => c.seqIdToRow s = some row) seqs rows) :
    ∀ row ∈ rows, ∃ s, c.seqIdToRow s = some row := by
  intro row hrow
  obtain ⟨i, hi, rfl⟩ := List.getElem_of_mem hrow
  have hlen := h.length_eq
  exact ⟨_, h.get (i := i) (by omega) hi⟩

/-- `_allocate_batch`. -/
theorem allocateBatch_accounts (h : Shared g numPages filled q) (seqs : List SeqId) :
    Returns (· = q.cache) (allocateBatch g seqs) fun _ c => Accounts g q (q.withCache c) := by
  refine Spec.bind (placeRows_grows seqs h) fun rows => Spec.get_bind fun u hu => ?_
  obtain ⟨hplaced, hrows, hfree⟩ := hu
  refine Spec.raiseIf_bind (fun _ _ _ => trivial) fun _ => ?_
  refine Spec.raiseIf_bind (fun _ _ _ => trivial) fun _ => ?_
  refine (growRows_accounts (appendEager_grows _) rows hplaced.shared.isPlaced
    (exists_seq_of_rows hrows)).post fun _ c hc => ?_
  exact (hplaced.accounts fun page hpage => hfree ▸ hpage).trans hc

/-- `_prepare_decode_graph_step_no_prefix`. -/
theorem prepareDecodeGraphStep_accounts (h : Shared g numPages filled q) (contextCapacity : Nat)
    (seqs : List SeqId) :
    Returns (· = q.cache) (prepareDecodeGraphStep g contextCapacity seqs) fun _ c =>
      Accounts g q (q.withCache c) := by
  refine Spec.get_bind fun t ht => ?_
  subst ht
  have hplan := placeRows_grows seqs h q.cache rfl
  cases hrun : mapEach seqs getFreeRow q.cache with
  | error error c => exact Spec.throw fun _ _ => trivial
  | ok rows planned =>
    rw [hrun] at hplan
    obtain ⟨hplaced, hrows, hfree⟩ := hplan
    refine Spec.bind (checkGraphRows_checks contextCapacity rows planned).returns fun _ =>
      Spec.intro fun u hu => ?_
    refine Spec.bind (R := fun _ v => v = planned) (fun _ _ => rfl) fun _ => ?_
    refine (growRows_accounts appendGraph_grows rows hplaced.shared.isPlaced
      (exists_seq_of_rows hrows)).post fun _ c hc => ?_
    exact (hplaced.accounts fun page hpage => hfree ▸ hpage).trans hc

/-- A method of the allocator. -/
theorem onAllocator_accounts {α : Type} {n : QuestM α}
    (hn : Returns (· = q.cache) n fun _ c => Accounts g q (q.withCache c)) :
    Returns (· = q) (onAllocator n) fun _ q' => Accounts g q q' := by
  refine (onAllocator_returns hn).post fun _ v hv => ?_
  obtain ⟨c, rfl, hc⟩ := hv
  exact hc

end Allocator

/-! ### The prefix cache -/

section Blocks

variable [DecidableEq B]

/-- A block returns its page. -/
theorem freeDevicePrefixBlock_accounts {after : Option QuestPrefixBlock} (b : B) :
    Returns (· = q) (freeDevicePrefixBlock after b) fun _ q' => Accounts g q q' := by
  refine Spec.get_bind fun t ht => ?_
  subst ht
  refine Spec.raiseIf_bind (fun _ _ _ => trivial) fun _ => ?_
  cases hpage : t.devicePage b with
  | none => exact Spec.throw fun _ _ => trivial
  | some page =>
    intro u hu
    subst hu
    refine accounts_of (fun p hp => Or.inl (List.mem_cons_of_mem _ hp)) fun a p ha => ?_
    rcases a with cell | b'
    · exact Or.inr ⟨.inl cell, ha⟩
    · have hb : u.devicePage b' = some p := ha
      by_cases heq : b' = b
      · subst heq
        obtain rfl : page = p := Option.some.inj (hpage.symm.trans hb)
        exact Or.inl List.mem_cons_self
      · have hdevice : (u.releasePage b page after).devicePage b' =
            if b' = b then after.bind (·.blockSlot) else u.devicePage b' := devicePage_update b'
        rw [if_neg heq] at hdevice
        exact Or.inr ⟨.inr b', hdevice.trans hb⟩

omit [DecidableEq B] in
theorem forEach_accounts {α : Type} {body : α → QuestPrefixM B Unit}
    (hbody : ∀ (q : QuestPrefixCache B) a, Returns (· = q) (body a) fun _ q' => Accounts g q q')
    (l : List α) : ∀ (q : QuestPrefixCache B),
      Returns (· = q) (forEach l body) fun _ q' => Accounts g q q' := by
  induction l with
  | nil =>
    refine fun q => Spec.pure fun u hu => ?_
    subst hu
    exact Accounts.refl u
  | cons a l ih =>
    refine fun q => Spec.bind (hbody q a) fun _ => Spec.intro fun u hu => ?_
    exact (ih u).post fun _ v hv => hu.trans hv

/-- `_evict_prefix_cache_until_free`. -/
theorem evictPrefixCacheUntilFree_accounts (evicted demoted : List B) :
    Returns (· = q) (evictPrefixCacheUntilFree evicted demoted) fun _ q' => Accounts g q q' := by
  refine Spec.bind (forEach_accounts (g := g) (fun _ b => freeDevicePrefixBlock_accounts b) evicted q) fun _ =>
    Spec.intro fun u hu => ?_
  exact (forEach_accounts (fun _ b => freeDevicePrefixBlock_accounts b) demoted u).post
    fun _ v hv => hu.trans hv

omit [DecidableEq B] in
/-- A row that has no tokens loses no page when it gets those of a prefix. -/
theorem attachPages_accounts (h : Shared g numPages filled q) {seq row : Nat} {chain : List B}
    {pages : List Nat} (hrow : q.cache.seqIdToRow seq = some row) (hempty : q.cache.rowLen seq = 0) :
    Accounts g q (q.attachPages g seq row chain pages) := by
  refine accounts_of (fun _ hpage => Or.inl hpage) fun a page ha => Or.inr ⟨a, ?_⟩
  rcases a with ⟨s, col⟩ | b
  · obtain ⟨r, hs, hcol, hout, hslot⟩ := owner_cell_iff.mp ha
    have hne : s ≠ seq := by
      rintro rfl
      rw [← QuestCache.rowLen_of_row hs, hempty, g.lt_pagesFor] at hcol
      exact Nat.not_lt_zero _ hcol
    have hr : r ≠ row := fun hr => hne (h.rows (hr ▸ hs) hrow)
    refine owner_cell_iff.mpr ⟨r, hs, ?_, ?_, ?_⟩
    · exact hcol.trans_eq (congrArg g.pagesFor (Function.update_of_ne hr ..).symm)
    · show col ∉ Function.update q.cachedPages seq _ s
      rw [Function.update_of_ne hne]
      exact hout
    · exact (congrArg Int.toNat (if_neg fun hin => hr hin.1)).trans hslot
  · exact ha

/-- A new block takes over the page of its column. -/
theorem keepPage_accounts {seq row col : Nat} {b : B} (hrow : q.cache.seqIdToRow seq = some row)
    (hnew : q.blocks b = none) :
    Accounts g q (q.keepPage seq col b (q.cache.pageSlots row col).toNat) := by
  have hdevice : ∀ b', (q.keepPage seq col b (q.cache.pageSlots row col).toNat).devicePage b' =
      if b' = b then some (q.cache.pageSlots row col).toNat else q.devicePage b' :=
    fun b' => devicePage_update b'
  refine accounts_of (fun _ hpage => Or.inl hpage) fun a page ha => Or.inr ?_
  rcases a with ⟨s, k⟩ | b'
  · obtain ⟨r, hs, hk, hout, hslot⟩ := owner_cell_iff.mp ha
    by_cases heq : s = seq ∧ k = col
    · obtain ⟨rfl, rfl⟩ := heq
      obtain rfl : r = row := Option.some.inj (hs.symm.trans hrow)
      refine ⟨.inr b, ?_⟩
      show (q.keepPage s k b (q.cache.pageSlots r k).toNat).devicePage b = some page
      rw [hdevice, if_pos rfl, hslot]
    · refine ⟨.inl (s, k), owner_cell_iff.mpr ⟨r, hs, hk, ?_, hslot⟩⟩
      show k ∉ Function.update q.cachedPages seq (col :: q.cachedPages seq) s
      rw [Function.update_apply]
      split
      · rename_i hseq
        subst hseq
        rw [List.mem_cons, not_or]
        exact ⟨fun hk => heq ⟨rfl, hk⟩, hout⟩
      · exact hout
  · have hb : q.devicePage b' = some page := ha
    have hne : b' ≠ b := by
      rintro rfl
      unfold devicePage at hb
      rw [hnew] at hb
      cases hb
    refine ⟨.inr b', ?_⟩
    show (q.keepPage seq col b (q.cache.pageSlots row col).toNat).devicePage b' = some page
    rw [hdevice, if_neg hne]
    exact hb

omit [DecidableEq B] in
/-- The pages of a row that are not those of blocks come back. -/
theorem releaseRow_accounts (h : Shared g numPages filled q) {seq row : Nat}
    (hrow : q.cache.seqIdToRow seq = some row) : Accounts g q (q.releaseRow g seq row) := by
  refine accounts_of (fun _ hpage => Or.inl (List.mem_append_right _ hpage)) fun a page ha => ?_
  rcases a with ⟨s, col⟩ | b
  · obtain ⟨r, hs, hcol, hout, hslot⟩ := owner_cell_iff.mp ha
    by_cases heq : s = seq
    · subst heq
      obtain rfl : r = row := Option.some.inj (hs.symm.trans hrow)
      refine Or.inl (List.mem_append_left _ (List.mem_reverse.mpr (List.mem_map.mpr ⟨col, ?_, hslot⟩)))
      exact List.mem_filter.mpr ⟨List.mem_range.mpr hcol, by simpa using hout⟩
    · have hr : r ≠ row := fun hr => heq (h.rows (hr ▸ hs) hrow)
      refine Or.inr ⟨.inl (s, col), owner_cell_iff.mpr ⟨r, ?_, ?_, ?_, ?_⟩⟩
      · exact (Function.update_of_ne heq ..).trans hs
      · exact hcol.trans_eq (congrArg g.pagesFor (Function.update_of_ne hr ..).symm)
      · show col ∉ Function.update q.cachedPages seq [] s
        rw [Function.update_of_ne heq]
        exact hout
      · exact (congrArg Int.toNat (if_neg hr)).trans hslot
  · exact Or.inr ⟨.inr b, ha⟩

/-! ### Operations -/

omit [DecidableEq B] in
/-- `_attach_prefix_cache_if_needed`. -/
theorem attachPrefixCacheIfNeeded_accounts (h : Settled g numPages q) (seq : SeqId) (chain : List B) :
    Returns (· = q) (attachPrefixCacheIfNeeded g seq chain) fun _ q' => Accounts g q q' := by
  refine Spec.get_bind fun t ht => ?_
  subst ht
  refine Spec.ite (fun _ => ?_) fun _ => ?_
  · refine Spec.pure fun u hu => ?_
    subst hu
    exact Accounts.refl u
  · refine Spec.bind (requirePages chain) fun pages => Spec.intro fun u hu => ?_
    obtain ⟨rfl, -⟩ := hu
    refine Spec.raiseIf_bind (fun _ _ _ => trivial) fun hempty => ?_
    refine Spec.bind (onAllocator_returns (getFreeRow_accounts h seq)) fun row => Spec.intro fun v hv => ?_
    obtain ⟨c, rfl, hplaced, haccounts, hrow⟩ := hv
    intro w hw
    subst hw
    refine haccounts.trans (attachPages_accounts hplaced.shared hrow ?_)
    exact (hplaced.lens seq).trans (not_not.mp hempty)

omit [DecidableEq B] in
theorem attachPrefixes_accounts (chunks : List (QuestChunk B)) : ∀ {q : QuestPrefixCache B},
    Settled g numPages q →
      Returns (· = q) (forEach chunks fun chunk => attachPrefixCacheIfNeeded g chunk.seq chunk.hitChain)
        fun _ q' => Accounts g q q' := by
  induction chunks with
  | nil =>
    intro q _
    refine Spec.pure fun u hu => ?_
    subst hu
    exact Accounts.refl u
  | cons chunk chunks ih =>
    intro q h
    refine Spec.bind ((attachPrefixCacheIfNeeded_settles h chunk.seq chunk.hitChain).and
      (attachPrefixCacheIfNeeded_accounts h chunk.seq chunk.hitChain)) fun _ => Spec.intro fun u hu => ?_
    exact (ih hu.1.1.1).post fun _ v hv => hu.2.trans hv

/-- The loop of `_prepare_prefill`. -/
theorem prepareChunks_accounts (chunks : List (QuestChunk B)) : ∀ {q : QuestPrefixCache B}
    (tokenOffset : Nat), Shared g numPages filled q →
      Returns (· = q) (prepareChunks g tokenOffset chunks) fun _ q' => Accounts g q q' := by
  induction chunks with
  | nil =>
    intro q tokenOffset _
    refine Spec.pure fun u hu => ?_
    subst hu
    exact Accounts.refl u
  | cons chunk chunks ih =>
    intro q tokenOffset h
    have hchunk : Returns (· = q) (prepareChunk g chunk) fun _ q' =>
        Shared g numPages filled q' ∧ Accounts g q q' := by
      refine Spec.bind ((evictPrefixCacheUntilFree_grows h chunk.evicted chunk.demoted).and
        (evictPrefixCacheUntilFree_accounts (g := g) chunk.evicted chunk.demoted)) fun _ =>
          Spec.intro fun u hu => ?_
      have hrow : Returns (· = u.cache) (preparePrefillRow g chunk.seq chunk.startIdx chunk.chunkSize)
          fun _ c => Shared g numPages filled (u.withCache c) ∧ Accounts g u (u.withCache c) := by
        refine ((preparePrefillRow_grows hu.1.shared chunk.seq chunk.startIdx chunk.chunkSize).and
          ?_).post fun _ c hc => ⟨hc.1.1.1.shared, hc.2⟩
        refine Spec.get_bind fun t ht => ?_
        subst ht
        exact Spec.raiseIf_bind (fun _ _ _ => trivial) fun _ =>
          allocate_accounts hu.1.shared chunk.seq chunk.chunkSize
      refine Spec.bind (onAllocator_returns hrow) fun _ => Spec.get_bind fun v hv =>
        Spec.pure fun w hw => ?_
      obtain ⟨c, rfl, hshared, haccounts⟩ := hv
      subst hw
      exact ⟨hshared, hu.2.trans haccounts⟩
    refine Spec.bind hchunk fun _ => Spec.intro fun u hu => ?_
    refine Spec.bind (ih (tokenOffset + chunk.chunkSize) hu.1) fun plan => Spec.pure fun v hv => ?_
    exact hu.2.trans hv

/-- `_prepare_prefill`. -/
theorem preparePrefill_accounts (h : Settled g numPages q) (chunks : List (QuestChunk B)) :
    Returns (· = q) (preparePrefill g chunks) fun _ q' => Accounts g q q' := by
  refine Spec.bind ((attachPrefixes_settles chunks h).and (attachPrefixes_accounts chunks h)) fun _ =>
    Spec.intro fun u hu => ?_
  exact (prepareChunks_accounts chunks 0 hu.1.1.1).post fun _ v hv => hu.2.trans hv

/-- `_prepare_decode` and `prepare_decode_graph_step`. -/
theorem prepareDecode_accounts (h : Settled g numPages q) (path : QuestDecodePath) (seqs : List SeqId)
    (evicted demoted : List B) :
    Returns (· = q) (prepareDecode g path seqs evicted demoted) fun _ q' => Accounts g q q' := by
  refine Spec.bind ((evictPrefixCacheUntilFree_grows h evicted demoted).and
    (evictPrefixCacheUntilFree_accounts (g := g) evicted demoted)) fun _ => Spec.intro fun u hu => ?_
  have hallocated : ∀ {n : QuestM Unit},
      Returns (· = u.cache) n (fun _ c => Accounts g u (u.withCache c)) →
        Returns (· = u) (onAllocator n) fun _ v => Accounts g q v :=
    fun hn => (onAllocator_accounts hn).post fun _ _ hv => hu.2.trans hv
  cases path with
  | eager =>
    refine Spec.bind (hallocated (allocateBatch_accounts hu.1.shared seqs)) fun _ =>
      Spec.get_bind fun v hv => Spec.pure fun w hw => ?_
    subst hw
    exact hv
  | graph contextCapacity =>
    refine Spec.bind (hallocated (prepareDecodeGraphStep_accounts hu.1.shared contextCapacity seqs))
      fun _ => Spec.get_bind fun v hv => Spec.pure fun w hw => ?_
    subst hw
    exact hv

/-- `on_forward_end`, for a page. -/
theorem commitPrefixBlock_accounts (seq : SeqId) (col : Nat) (b : B) :
    Returns (· = q) (commitPrefixBlock g seq col b) fun _ q' => Accounts g q q' := by
  refine Spec.get_bind fun t ht => ?_
  subst ht
  cases hrow : t.cache.seqIdToRow seq with
  | none => exact Spec.throw fun _ _ => trivial
  | some row =>
    refine Spec.raiseIf_bind (fun _ _ _ => trivial) fun _ => ?_
    cases hb : t.blocks b with
    | some block => exact fun _ _ => fun page hpage => hpage
    | none => exact fun _ _ => keepPage_accounts hrow hb

/-- A block on the host takes a free page. -/
theorem promotePrefixBlock_accounts (b : B) :
    Returns (· = q) (promotePrefixBlock b) fun _ q' => Accounts g q q' := by
  refine Spec.get_bind fun t ht => ?_
  subst ht
  refine Spec.raiseIf_bind (fun _ _ _ => trivial) fun hhost => ?_
  cases hfree : t.cache.freePages with
  | nil => exact Spec.throw fun _ _ => trivial
  | cons page rest =>
    intro u _
    have hdevice : ∀ b', (({ t with cache := { t.cache with freePages := rest } } :
        QuestPrefixCache B).assignPage b page).devicePage b' =
          if b' = b then some page else t.devicePage b' := fun b' => devicePage_update b'
    refine accounts_of (fun p hp => ?_) fun a p ha => Or.inr ⟨a, ?_⟩
    · rw [hfree] at hp
      rcases List.mem_cons.mp hp with rfl | hp
      · exact Or.inr ⟨.inr b, (hdevice b).trans (if_pos rfl)⟩
      · exact Or.inl hp
    · rcases a with cell | b'
      · exact ha
      · have hb : t.devicePage b' = some p := ha
        have hne : b' ≠ b := by
          rintro rfl
          unfold devicePage at hb
          rw [not_not.mp hhost] at hb
          cases hb
        exact (hdevice b').trans ((if_neg hne).trans hb)

omit [DecidableEq B] in
/-- `free_seq`. -/
theorem freePrefixSeq_accounts (h : Settled g numPages q) (seq : SeqId) :
    Returns (· = q) (freePrefixSeq g seq) fun _ q' => Accounts g q q' := by
  refine Spec.get_bind fun t ht => ?_
  subst ht
  cases hrow : t.cache.seqIdToRow seq with
  | none => exact Spec.throw fun _ _ => trivial
  | some row => exact fun _ _ => releaseRow_accounts h hrow

end Blocks

end QuestPrefixCache

/-! ## Runs -/

section Runs

variable {B L K : Type} [DecidableEq B] [Lattice K] [BoundedOrder K] {g : QuestGeometry}
  {numPages : Nat} {storage : QuestStorage} {s : QuestMemory B L K}

omit [DecidableEq B] [Lattice K] [BoundedOrder K] in
theorem onPrefixCache_accounts {α : Type} {m : QuestPrefixM B α}
    (hm : Lib.Returns (· = s.prefixCache) m fun _ q => QuestPrefixCache.Accounts g s.prefixCache q) :
    Lib.Returns (· = s) (onPrefixCache m) fun _ s' =>
      QuestPrefixCache.Accounts g s.prefixCache s'.prefixCache := by
  refine (onPrefixCache_returns hm).post fun _ s' hs => ?_
  obtain ⟨q, rfl, hq⟩ := hs
  exact hq

/-- **No operation loses a page.** -/
theorem runMemoryOp_accounts (h : QuestPrefixCache.Settled g numPages s.prefixCache)
    (op : QuestMemoryOp B L K) :
    Lib.Returns (· = s) (runMemoryOp g numPages storage op) fun _ s' =>
      QuestPrefixCache.Accounts g s.prefixCache s'.prefixCache := by
  cases op with
  | prefill chunks keys =>
    refine Spec.bind (onPrefixCache_accounts (QuestPrefixCache.preparePrefill_accounts h chunks))
      fun plan => Spec.intro fun t ht => ?_
    intro u hu
    subst hu
    exact ht
  | decode path seqs padding evicted demoted keys =>
    refine Spec.bind (onPrefixCache_accounts
      (QuestPrefixCache.prepareDecode_accounts h path seqs evicted demoted)) fun slots =>
        Spec.intro fun t ht => ?_
    intro u hu
    subst hu
    exact ht
  | commit seq col b =>
    exact onPrefixCache_accounts (QuestPrefixCache.commitPrefixBlock_accounts seq col b)
  | makeRoom evicted demoted =>
    exact onPrefixCache_accounts (QuestPrefixCache.evictPrefixCacheUntilFree_accounts evicted demoted)
  | copyToHost b =>
    refine Spec.bind (onPrefixCache_returns (QuestPrefixCache.requirePage_returns b)) fun page =>
      Spec.intro fun t ht => ?_
    obtain ⟨q, rfl, rfl, -⟩ := ht
    intro u hu
    subst hu
    exact QuestPrefixCache.Accounts.refl _
  | promote b =>
    refine Spec.get_bind fun t ht => ?_
    subst ht
    cases t.hostPages b with
    | none => exact Spec.throw fun _ _ => trivial
    | some copies =>
      refine Spec.bind (onPrefixCache_accounts (g := g) (QuestPrefixCache.promotePrefixBlock_accounts b))
        fun page => Spec.intro fun u hu => ?_
      intro v hv
      subst hv
      exact hu
  | free seq => exact onPrefixCache_accounts (QuestPrefixCache.freePrefixSeq_accounts h seq)

/-- **QuEST pages are conserved.** After every run of operations that return, the free pages are
distinct and each page is free and belongs to nobody, or is not free and belongs to exactly one
column of a request or block. -/
theorem quest_pages_conserved {numRows : Nat} {layers : L → PagedStore K}
    (run : s.Reached g numPages numRows storage layers) :
    s.prefixCache.cache.freePages.Nodup ∧ ∀ page < numPages,
      (page ∈ s.prefixCache.cache.freePages ∧ ∀ a, s.prefixCache.owner g a ≠ some page) ∨
        (page ∉ s.prefixCache.cache.freePages ∧ ∃! a, s.prefixCache.owner g a = some page) := by
  have hkept : ∀ (t : QuestMemory B L K) op, t.Sound g numPages ∧
      (∀ page < numPages, QuestPrefixCache.Known g t.prefixCache page) →
        op.Returns g numPages storage t →
        (stateAfter (runMemoryOp g numPages storage op) t).Sound g numPages ∧
          ∀ page < numPages, QuestPrefixCache.Known g
            (stateAfter (runMemoryOp g numPages storage op) t).prefixCache page := by
    intro t op ht hop
    obtain ⟨hformed, t', ht'⟩ := hop
    have haccounts : Lib.Returns (· = t) (runMemoryOp g numPages storage op) fun _ s' =>
        QuestPrefixCache.Accounts g t.prefixCache s'.prefixCache := runMemoryOp_accounts ht.1.settled op
    have hstep := haccounts t rfl
    rw [ht'] at hstep
    rw [stateAfter_ok ht']
    exact ⟨runMemoryOp_ok ht.1 hformed ht', fun page hpage => hstep page (ht.2 page hpage)⟩
  obtain ⟨hsound, hknown⟩ := run.invariant
    (I := fun t => t.Sound g numPages ∧ ∀ page < numPages, QuestPrefixCache.Known g t.prefixCache page)
    ⟨sound_initial numRows layers, fun page hpage =>
      Or.inl (List.mem_reverse.mpr (List.mem_range.mpr hpage))⟩ hkept
  have hpool := hsound.settled.pool
  refine ⟨hpool.distinct, fun page hpage => ?_⟩
  by_cases hfree : page ∈ s.prefixCache.cache.freePages
  · exact Or.inl ⟨hfree, fun a ha => hpool.taken ha hfree⟩
  · obtain ⟨a, ha⟩ := (hknown page hpage).resolve_left hfree
    exact Or.inr ⟨hfree, a, ha, fun a' ha' => hpool.apart ha' ha⟩

end Runs

/-- The page that two requests share belongs to its block. -/
theorem quest_pages_conserved_pageSharers :
    ∃! a, (pageSharersState .mlaLatent).prefixCache.owner ⟨2, 8, Nat.zero_lt_two⟩ a = some 3 := by
  have hrun : (pageSharersState .mlaLatent).Reached ⟨2, 8, Nat.zero_lt_two⟩ 4 2 .mlaLatent
      fun _ => ⟨fun _ _ => 7, fun _ _ => 7, fun _ _ => 0⟩ :=
    Reachable.init.runAll ⟨⟨⟨by decide, by decide, fun _ => rfl⟩, _, rfl⟩, ⟨trivial, _, rfl⟩,
      ⟨⟨by decide, by decide, fun _ => rfl⟩, _, rfl⟩, trivial⟩
  have hused : 3 ∉ (pageSharersState .mlaLatent).prefixCache.cache.freePages := by decide
  exact (((quest_pages_conserved hrun).2 3 (by decide)).resolve_left fun h => hused h.1).2

end SparseVllm
