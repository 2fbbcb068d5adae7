import SparseVllm.Lib.Run
import SparseVllm.Quest.Sharing

/-!
# QuEST page bounds are exact

A step prepares its batch and then stores it layer by layer; each layer has its own keys and bounds.
Between steps the pages of the rows and of the blocks have exact bounds in every layer (`QuestMemory.Sound`). A
prepared batch is the pieces of its chunks (`batchPieces`): they start where the stored tokens end,
in pages nobody else has, so the writers of `Quest.Bounds` leave exact bounds behind.

* `preparePrefill_prepares`, `prepareDecode_prepares`: what a prepared batch is.
* `Prepared.filled_storePrefill`, `Prepared.filled_storeDecode`: storing it.
* **`quest_bounds_exact`**: in every layer, when a decode step scores it, every page of every row.

The transfers of the host tier are done when they are submitted here.
-/

namespace SparseVllm

open SparseVllm.Lib

namespace QuestPrefixCache

variable {B : Type} {g : QuestGeometry} {numPages : Nat} {filled : SeqId → Nat}
  {q q' q'' : QuestPrefixCache B}

/-! ## Prepared batches -/

/-- A part of a batch: the tokens of a request from a position on. -/
structure BatchPart where
  seq : SeqId
  startIdx : Nat
  size : Nat

/-- The slots of a part. -/
def partSlots (g : QuestGeometry) (q : QuestPrefixCache B) (part : BatchPart) : List Int :=
  (List.range' part.startIdx part.size).map (pageSlot g (q.cache.pageSlots (q.rowOf part.seq)))

/-- The pieces of a batch with its keys. -/
def batchPieces {K : Type} (g : QuestGeometry) (q : QuestPrefixCache B) :
    List BatchPart → List K → List (PagePiece K)
  | [], _ => []
  | part :: parts, keys =>
    chunkPieces g (q.cache.pageSlots (q.rowOf part.seq)) part.startIdx (keys.take part.size) ++
      batchPieces g q parts (keys.drop part.size)

/-- The tokens that a batch adds to a request. -/
def addedTokens (parts : List BatchPart) (s : SeqId) : Nat :=
  (parts.map fun part => if s = part.seq then part.size else 0).sum

/-- The segments of a batch, from a token on. -/
def partSegments (g : QuestGeometry) : Nat → List BatchPart → List (Nat × Nat)
  | _, [] => []
  | tokenOffset, part :: parts =>
    pageSegments g tokenOffset part.startIdx part.size ++
      partSegments g (tokenOffset + part.size) parts

/-- `q'` is prepared for a batch: its requests have rows, whose stored tokens end where their parts
start and whose tokens end where the parts do. -/
structure Prepared (g : QuestGeometry) (numPages : Nat) (filled : SeqId → Nat)
    (parts : List BatchPart) (q' : QuestPrefixCache B) : Prop where
  shared : Shared g numPages filled q'
  nodup : (parts.map BatchPart.seq).Nodup
  placed : ∀ part ∈ parts, ∃ row, q'.cache.seqIdToRow part.seq = some row
  starts : ∀ part ∈ parts, filled part.seq = part.startIdx
  lens : ∀ s, q'.cache.rowLen s = filled s + addedTokens parts s

theorem rowOf_eq {seq row : Nat} (hrow : q.cache.seqIdToRow seq = some row) : q.rowOf seq = row := by
  unfold rowOf
  rw [hrow]
  rfl

/-- The slots of a part stay when the batch goes on. -/
theorem Grows.partSlots {added : SeqId → Nat} (h : Grows g numPages filled added q q')
    {part : BatchPart} {row : Nat} (hrow : q.cache.seqIdToRow part.seq = some row)
    (hle : part.startIdx + part.size ≤ q.cache.rowLen part.seq) :
    partSlots g q' part = partSlots g q part := by
  unfold QuestPrefixCache.partSlots
  rw [rowOf_eq hrow, rowOf_eq (h.rows hrow)]
  refine List.map_congr_left fun i hi => ?_
  have hlt : i < q.cache.rowSeqLens row := by
    rw [QuestCache.rowLen_of_row hrow] at hle
    have := (List.mem_range'_1.mp hi).2
    omega
  unfold pageSlot
  rw [h.pages hrow (g.div_lt_pagesFor hlt)]

/-- The token slots of a row, from its pages. -/
theorem Shared.tokenSlots_eq (h : Shared g numPages filled q) {part : BatchPart} {row : Nat}
    (hrow : q.cache.seqIdToRow part.seq = some row)
    (hle : part.startIdx + part.size ≤ q.cache.rowLen part.seq) :
    (List.range' part.startIdx part.size).map (q.cache.tokenSlots (q.rowOf part.seq)) =
      partSlots g q part := by
  unfold QuestPrefixCache.partSlots
  rw [rowOf_eq hrow]
  refine List.map_congr_left fun i hi => h.tokens hrow ?_
  rw [QuestCache.rowLen_of_row hrow] at hle
  have := (List.mem_range'_1.mp hi).2
  omega

/-! ### Prefill -/

/-- The part of a chunk. -/
def chunkPart (chunk : QuestChunk B) : BatchPart := ⟨chunk.seq, chunk.startIdx, chunk.chunkSize⟩

section Prefill

theorem onAllocator_returns {α : Type} {m : QuestM α} {Q : α → QuestCache → Prop}
    (h : Returns (· = q.cache) m Q) :
    Returns (· = q) (onAllocator m) fun a q' => ∃ c, q' = q.withCache c ∧ Q a c := by
  intro t ht
  subst ht
  have hrun := h t.cache rfl
  unfold onAllocator zoom
  cases hm : m t.cache with
  | error error c => trivial
  | ok a c =>
    rw [hm] at hrun
    exact ⟨c, rfl, hrun⟩

/-- The prefixes of a batch are attached. -/
theorem attachPrefixes_settles (chunks : List (QuestChunk B)) : ∀ {q : QuestPrefixCache B},
    Settled g numPages q →
      Returns (· = q) (forEach chunks fun chunk => attachPrefixCacheIfNeeded g chunk.seq chunk.hitChain)
        fun _ q' => Settles g numPages q q' ∧
          (∀ s row, q.cache.seqIdToRow s = some row → q'.cache.seqIdToRow s = some row) ∧
          ∀ chunk ∈ chunks, chunk.hitChain ≠ [] → q'.cache.seqIdToRow chunk.seq ≠ none := by
  induction chunks with
  | nil =>
    intro q h
    refine Spec.pure fun u hu => ?_
    subst hu
    exact ⟨h.refl, fun _ _ hrow => hrow, fun _ hc => absurd hc List.not_mem_nil⟩
  | cons chunk chunks ih =>
    intro q h
    refine Spec.bind (attachPrefixCacheIfNeeded_settles h chunk.seq chunk.hitChain) fun _ =>
      Spec.intro fun u hu => ?_
    obtain ⟨hsettles, hrows, hplaced⟩ := hu
    refine (ih hsettles.1).post fun _ v hv => ?_
    obtain ⟨hrest, hkept, hothers⟩ := hv
    refine ⟨hsettles.trans hrest, fun s row hrow => hkept s row (hrows s row hrow), fun c hc hne => ?_⟩
    rcases List.mem_cons.mp hc with rfl | hc
    · obtain ⟨row, hrow⟩ := Option.ne_none_iff_exists'.mp (hplaced hne)
      rw [hkept _ row hrow]
      exact Option.some_ne_none row
    · exact hothers c hc hne

variable [DecidableEq B]

/-- A request of `_prepare_prefill`. -/
theorem prepareChunk_grows (h : Shared g numPages filled q) {chunk : QuestChunk B}
    (hstart : q.cache.seqIdToRow chunk.seq = none → chunk.startIdx = 0) :
    Returns (· = q) (prepareChunk g chunk) fun slots q' =>
      Grows g numPages filled (fun s => if s = chunk.seq then chunk.chunkSize else 0) q q' ∧
        q.cache.rowLen chunk.seq = chunk.startIdx ∧
        (∃ row, q'.cache.seqIdToRow chunk.seq = some row) ∧
        slots = partSlots g q' (chunkPart chunk) := by
  refine Spec.bind (evictPrefixCacheUntilFree_grows h chunk.evicted chunk.demoted) fun _ =>
    Spec.intro fun u hu => ?_
  refine Spec.bind (onAllocator_returns
    (preparePrefillRow_grows hu.shared chunk.seq chunk.startIdx chunk.chunkSize)) fun _ =>
      Spec.get_bind fun v hv => ?_
  obtain ⟨c, rfl, ⟨hgrows, row, hrow⟩, hlen⟩ := hv
  refine Spec.pure fun w hw => ?_
  subst hw
  have htotal := hu.trans hgrows
  have hsame : u.cache.rowLen chunk.seq = q.cache.rowLen chunk.seq := hu.lens chunk.seq
  have hstarts : q.cache.rowLen chunk.seq = chunk.startIdx := by
    cases hold : q.cache.seqIdToRow chunk.seq with
    | none =>
      unfold QuestCache.rowLen
      rw [hold, hstart hold]
    | some r =>
      have hsome : u.cache.seqIdToRow chunk.seq ≠ none := by
        rw [hu.rows hold]
        exact Option.some_ne_none r
      exact hsame.symm.trans (hlen hsome)
  have hend : (u.withCache c).cache.rowLen chunk.seq = chunk.startIdx + chunk.chunkSize := by
    rw [hgrows.lens, hsame, hstarts, if_pos rfl]
  refine ⟨{ htotal with lens := fun s => (htotal.lens s).trans (by rw [Nat.zero_add]) }, hstarts,
    ⟨row, hrow⟩, ?_⟩
  have hpart : (u.withCache c).cache.seqIdToRow (chunkPart chunk).seq = some row := hrow
  exact hgrows.shared.tokenSlots_eq hpart hend.ge

/-- The loop of `_prepare_prefill`. -/
theorem prepareChunks_grows (chunks : List (QuestChunk B)) : ∀ {q : QuestPrefixCache B}
    (tokenOffset : Nat), Shared g numPages filled q → (chunks.map QuestChunk.seq).Nodup →
      (∀ chunk ∈ chunks, q.cache.seqIdToRow chunk.seq = none → chunk.startIdx = 0) →
      Returns (· = q) (prepareChunks g tokenOffset chunks) fun plan q' =>
        Grows g numPages filled (addedTokens (chunks.map chunkPart)) q q' ∧
        (∀ chunk ∈ chunks, q.cache.rowLen chunk.seq = chunk.startIdx ∧
          ∃ row, q'.cache.seqIdToRow chunk.seq = some row) ∧
        plan.slotMapping = (chunks.map chunkPart).flatMap (partSlots g q') ∧
        plan.segments = partSegments g tokenOffset (chunks.map chunkPart) ∧
        (plan.metadataFullPages = true → ∀ chunk ∈ chunks,
          chunk.startIdx % g.pageSize = 0 ∧ chunk.chunkSize % g.pageSize = 0) := by
  induction chunks with
  | nil =>
    intro q tokenOffset h _ _
    refine Spec.pure fun u hu => ?_
    subst hu
    exact ⟨h.refl, fun _ hc => absurd hc List.not_mem_nil, rfl, rfl,
      fun _ _ hc => absurd hc List.not_mem_nil⟩
  | cons chunk chunks ih =>
    intro q tokenOffset h hnd hstart
    obtain ⟨hfresh, hnd⟩ := List.nodup_cons.mp hnd
    have hother : ∀ c ∈ chunks, c.seq ≠ chunk.seq := fun c hc heq =>
      hfresh (heq ▸ List.mem_map_of_mem hc)
    refine Spec.bind (prepareChunk_grows h (hstart chunk List.mem_cons_self)) fun slots =>
      Spec.intro fun u hu => ?_
    obtain ⟨hgrows, hlen, ⟨row, hrow⟩, rfl⟩ := hu
    refine Spec.bind (ih (tokenOffset + chunk.chunkSize) hgrows.shared hnd fun c hc hnone => ?_)
      fun plan => Spec.pure fun v hv => ?_
    · refine hstart c (List.mem_cons_of_mem _ hc) ?_
      by_contra hsome
      obtain ⟨r, hr⟩ := Option.ne_none_iff_exists'.mp hsome
      rw [hgrows.rows hr] at hnone
      cases hnone
    · obtain ⟨hrest, hchunks, hslots, hsegments, hfull⟩ := hv
      have htotal := hgrows.trans hrest
      have hend : u.cache.rowLen chunk.seq = chunk.startIdx + chunk.chunkSize := by
        rw [hgrows.lens, hlen, if_pos rfl]
      have hsame : partSlots g v (chunkPart chunk) = partSlots g u (chunkPart chunk) :=
        hrest.partSlots hrow hend.ge
      refine ⟨{ htotal with lens := fun s => htotal.lens s }, fun c hc => ?_, ?_, ?_,
        fun hyes c hc => ?_⟩
      · rcases List.mem_cons.mp hc with rfl | hc
        · exact ⟨hlen, row, hrest.rows hrow⟩
        · obtain ⟨hlens, hplaced⟩ := hchunks c hc
          rw [hgrows.lens, if_neg (hother c hc), Nat.add_zero] at hlens
          exact ⟨hlens, hplaced⟩
      · rw [List.map_cons, List.flatMap_cons, hsame, hslots]
      · rw [hsegments]
        rfl
      · obtain ⟨hfirst, hplan⟩ := Bool.and_eq_true_iff.mp hyes
        rcases List.mem_cons.mp hc with rfl | hc
        · have hpages := of_decide_eq_true hfirst
          exact ⟨hpages.1, hpages.2.2⟩
        · exact hfull hplan c hc

/-- **A prepared prefill batch**: its plan lists the slots of its parts, and what is stored stays. -/
theorem preparePrefill_prepares (h : Settled g numPages q) {chunks : List (QuestChunk B)}
    (hnd : (chunks.map QuestChunk.seq).Nodup)
    (hstart : ∀ chunk ∈ chunks, chunk.hitChain = [] → q.cache.seqIdToRow chunk.seq = none →
      chunk.startIdx = 0) :
    Returns (· = q) (preparePrefill g chunks) fun plan q' => ∃ filled,
      Prepared g numPages filled (chunks.map chunkPart) q' ∧
      (∀ (K : Type) [Lattice K] [BoundedOrder K] (m : PagedStore K),
        Filled g q.cache.rowLen q m → Filled g filled q' m) ∧
      plan.slotMapping = (chunks.map chunkPart).flatMap (partSlots g q') ∧
      plan.segments = partSegments g 0 (chunks.map chunkPart) ∧
      (plan.metadataFullPages = true → ∀ part ∈ chunks.map chunkPart,
        part.startIdx % g.pageSize = 0 ∧ part.size % g.pageSize = 0) := by
  refine Spec.bind (attachPrefixes_settles chunks h) fun _ => Spec.intro fun u hu => ?_
  obtain ⟨hsettles, hrows, hplaced⟩ := hu
  have hfresh : ∀ chunk ∈ chunks, u.cache.seqIdToRow chunk.seq = none → chunk.startIdx = 0 := by
    intro chunk hc hnone
    by_cases hchain : chunk.hitChain = []
    · refine hstart chunk hc hchain ?_
      by_contra hsome
      obtain ⟨row, hrow⟩ := Option.ne_none_iff_exists'.mp hsome
      rw [hrows _ row hrow] at hnone
      cases hnone
    · exact absurd hnone (hplaced chunk hc hchain)
  refine (prepareChunks_grows chunks 0 hsettles.1 hnd hfresh).post fun plan v hv => ?_
  obtain ⟨hgrows, hchunks, hslots, hsegments, hfull⟩ := hv
  refine ⟨u.cache.rowLen, ⟨hgrows.shared, ?_, fun part hpart => ?_, fun part hpart => ?_, hgrows.lens⟩,
    fun K _ _ m hm => (hsettles.2 K m hm).grows hsettles.1 hgrows, hslots, hsegments,
    fun hyes part hpart => ?_⟩
  · rw [List.map_map]
    exact hnd
  · obtain ⟨chunk, hc, rfl⟩ := List.mem_map.mp hpart
    exact (hchunks chunk hc).2
  · obtain ⟨chunk, hc, rfl⟩ := List.mem_map.mp hpart
    exact (hchunks chunk hc).1
  · obtain ⟨chunk, hc, rfl⟩ := List.mem_map.mp hpart
    exact hfull hyes chunk hc

end Prefill

/-! ### Decode -/

section Decode

/-- The parts of a decode batch: a token for each request. -/
def decodeParts (q : QuestPrefixCache B) (seqs : List SeqId) : List BatchPart :=
  seqs.map fun s => ⟨s, q.cache.rowLen s, 1⟩

theorem addedTokens_decodeParts {seqs : List SeqId} (hnd : seqs.Nodup) (s : SeqId) :
    addedTokens (q.decodeParts seqs) s = if s ∈ seqs then 1 else 0 := by
  induction seqs with
  | nil => rfl
  | cons seq seqs ih =>
    obtain ⟨hout, hnd⟩ := List.nodup_cons.mp hnd
    have hsum : addedTokens (q.decodeParts (seq :: seqs)) s =
        (if s = seq then 1 else 0) + addedTokens (q.decodeParts seqs) s := rfl
    rw [hsum, ih hnd]
    by_cases heq : s = seq
    · subst heq
      simp [hout]
    · simp [heq]

/-- What a batch of single tokens has been prepared for. -/
theorem Decoded.prepared (h : Settled g numPages q) (hu : Grows g numPages q.cache.rowLen (fun _ => 0) q q')
    {seqs : List SeqId} (hnd : seqs.Nodup) (hv : Decoded g numPages q.cache.rowLen seqs q' q'') :
    Prepared g numPages q.cache.rowLen (q.decodeParts seqs) q'' ∧
      (∀ (K : Type) [Lattice K] [BoundedOrder K] (m : PagedStore K),
        Filled g q.cache.rowLen q m → Filled g q.cache.rowLen q'' m) ∧
      (seqs.map fun s => q''.cache.tokenSlots (q''.rowOf s) (q''.cache.rowLen s - 1)) =
        (q.decodeParts seqs).flatMap (partSlots g q'') := by
  obtain ⟨hgrows, hplaced⟩ := hv
  have htotal := hu.trans hgrows
  have hparts : (q.decodeParts seqs).map BatchPart.seq = seqs := by
    unfold decodeParts
    rw [List.map_map]
    exact List.map_id seqs
  have hlens : ∀ s, q''.cache.rowLen s = q.cache.rowLen s + addedTokens (q.decodeParts seqs) s := by
    intro s
    rw [htotal.lens, Nat.zero_add, addedTokens_decodeParts hnd]
  have hprepared : Prepared g numPages q.cache.rowLen (q.decodeParts seqs) q'' := by
    refine ⟨htotal.shared, hparts.symm ▸ hnd, fun part hpart => ?_, fun part hpart => ?_, hlens⟩
    · obtain ⟨s, hs, rfl⟩ := List.mem_map.mp hpart
      exact hplaced s hs
    · obtain ⟨s, hs, rfl⟩ := List.mem_map.mp hpart
      rfl
  have hslot : ∀ s ∈ seqs, [q''.cache.tokenSlots (q''.rowOf s) (q''.cache.rowLen s - 1)] =
      partSlots g q'' ⟨s, q.cache.rowLen s, 1⟩ := by
    intro s hs
    obtain ⟨row, hrow⟩ := hplaced s hs
    have hlen : q''.cache.rowLen s = q.cache.rowLen s + 1 := by
      rw [hlens, addedTokens_decodeParts hnd, if_pos hs]
    have hslots := hprepared.shared.tokenSlots_eq
      (show q''.cache.seqIdToRow (BatchPart.mk s (q.cache.rowLen s) 1).seq = some row from hrow) hlen.ge
    rw [← hslots, hlen]
    rfl
  refine ⟨hprepared, fun K _ _ m hm => hm.grows h htotal, ?_⟩
  unfold decodeParts
  rw [List.flatMap_map, List.map_eq_flatMap]
  exact List.flatMap_congr hslot

/-- **A prepared decode batch.** -/
theorem prepareDecode_prepares [DecidableEq B] (h : Settled g numPages q) (path : QuestDecodePath)
    {seqs : List SeqId} (hnd : seqs.Nodup) (evicted demoted : List B) :
    Returns (· = q) (prepareDecode g path seqs evicted demoted) fun slots q' =>
      Prepared g numPages q.cache.rowLen (q.decodeParts seqs) q' ∧
      (∀ (K : Type) [Lattice K] [BoundedOrder K] (m : PagedStore K),
        Filled g q.cache.rowLen q m → Filled g q.cache.rowLen q' m) ∧
      slots = (q.decodeParts seqs).flatMap (partSlots g q') := by
  refine Spec.bind (evictPrefixCacheUntilFree_grows h evicted demoted) fun _ =>
    Spec.intro fun u hu => ?_
  have hallocated : ∀ {m : QuestM Unit},
      Returns (· = u.cache) m (fun _ c => Decoded g numPages q.cache.rowLen seqs u (u.withCache c)) →
        Returns (· = u) (onAllocator m) fun _ v => Decoded g numPages q.cache.rowLen seqs u v := by
    intro m hm
    refine (onAllocator_returns hm).post fun _ v hv => ?_
    obtain ⟨c, rfl, hc⟩ := hv
    exact hc
  cases path with
  | eager =>
    refine Spec.bind (hallocated (allocateBatch_decodes hu.shared hnd)) fun _ =>
      Spec.get_bind fun v hv => Spec.pure fun w hw => ?_
    subst hw
    exact Decoded.prepared h hu hnd hv
  | graph contextCapacity =>
    refine Spec.bind (hallocated (prepareDecodeGraphStep_decodes hu.shared contextCapacity hnd))
      fun _ => Spec.get_bind fun v hv => Spec.pure fun w hw => ?_
    subst hw
    exact Decoded.prepared h hu hnd hv

end Decode

/-! ## Storing a batch -/

/-- The tokens of a batch. -/
def totalTokens (parts : List BatchPart) : Nat := (parts.map BatchPart.size).sum

theorem totalTokens_decodeParts (seqs : List SeqId) : totalTokens (q.decodeParts seqs) = seqs.length := by
  unfold totalTokens decodeParts
  rw [List.map_map]
  induction seqs with
  | nil => rfl
  | cons seq seqs ih => rw [List.map_cons, List.sum_cons, ih, List.length_cons, Nat.add_comm]; rfl

section Store

variable {K : Type} {parts : List BatchPart} {keys : List K}

theorem length_partSlots (part : BatchPart) : (partSlots g q part).length = part.size := by
  unfold partSlots
  rw [List.length_map, List.length_range']

/-- The keys of a part, and those of the other parts. -/
theorem totalTokens_cons_le {part : BatchPart}
    (hlen : totalTokens (part :: parts) ≤ keys.length) :
    (keys.take part.size).length = part.size ∧
      totalTokens parts ≤ (keys.drop part.size).length := by
  unfold totalTokens at hlen ⊢
  rw [List.map_cons, List.sum_cons] at hlen
  rw [List.length_take, List.length_drop]
  omega

theorem tokens_batchPieces (hlen : totalTokens parts ≤ keys.length) :
    (batchPieces g q parts keys).flatMap (fun p => p.tokens g.pageSize) =
      (parts.flatMap (partSlots g q)).zip keys := by
  induction parts generalizing keys with
  | nil => rfl
  | cons part parts ih =>
    obtain ⟨htake, hrest⟩ := totalTokens_cons_le hlen
    have hfirst : (chunkPieces g (q.cache.pageSlots (q.rowOf part.seq)) part.startIdx
        (keys.take part.size)).flatMap (fun p => p.tokens g.pageSize) =
          (partSlots g q part).zip (keys.take part.size) := by
      rw [tokens_chunkPieces, htake]
      rfl
    rw [batchPieces, List.flatMap_append, hfirst, ih hrest, List.flatMap_cons]
    conv_rhs => rw [← List.take_append_drop part.size keys]
    rw [List.zip_append (by rw [htake]; exact length_partSlots part)]

theorem length_batchSlots : (parts.flatMap (partSlots g q)).length = totalTokens parts := by
  unfold totalTokens
  rw [List.length_flatMap]
  exact congrArg List.sum (List.map_congr_left fun part _ => length_partSlots part)

theorem slots_batchPieces (hlen : totalTokens parts ≤ keys.length) :
    ((batchPieces g q parts keys).flatMap fun p => p.tokens g.pageSize).map Prod.fst =
      parts.flatMap (partSlots g q) := by
  rw [tokens_batchPieces hlen]
  exact List.map_fst_zip (length_batchSlots.trans_le hlen)

theorem fits_batchPieces : ∀ p ∈ batchPieces g q parts keys, p.Fits g.pageSize := by
  induction parts generalizing keys with
  | nil => exact fun p hp => absurd hp List.not_mem_nil
  | cons part parts ih =>
    intro p hp
    rcases List.mem_append.mp hp with hp | hp
    · exact fits_chunkPieces p hp
    · exact ih p hp

/-- The pieces of a batch of single tokens have one token. -/
theorem length_batchPieces (hsingle : ∀ part ∈ parts, part.size = 1) :
    ∀ p ∈ batchPieces g q parts keys, p.entries.length = 1 := by
  induction parts generalizing keys with
  | nil => exact fun p hp => absurd hp List.not_mem_nil
  | cons part parts ih =>
    intro p hp
    rcases List.mem_append.mp hp with hp | hp
    · obtain ⟨col, hcol, hpage, hoffset, hstop⟩ := exists_column p hp
      have hpos := List.length_pos_iff.mpr (fits_chunkPieces p hp).nonempty
      rw [List.length_take, hsingle part List.mem_cons_self] at hstop
      unfold PagePiece.stop at hstop
      omega
    · exact ih (fun other hother => hsingle other (List.mem_cons_of_mem _ hother)) p hp

/-- A piece of a batch, in its row. -/
theorem exists_part (hlen : totalTokens parts ≤ keys.length) : ∀ p ∈ batchPieces g q parts keys,
    ∃ part ∈ parts, ∃ col, part.startIdx / g.pageSize ≤ col ∧
      (0 < part.size ∧ col < g.pagesFor (part.startIdx + part.size)) ∧
      p.page = q.cache.pageSlots (q.rowOf part.seq) col ∧
      p.offset = part.startIdx - col * g.pageSize := by
  induction parts generalizing keys with
  | nil => exact fun p hp => absurd hp List.not_mem_nil
  | cons part parts ih =>
    obtain ⟨htake, hrest⟩ := totalTokens_cons_le hlen
    intro p hp
    rcases List.mem_append.mp hp with hp | hp
    · obtain ⟨col, hcol, hpage, hoffset, hstop⟩ := exists_column p hp
      have hpos := List.length_pos_iff.mpr (fits_chunkPieces p hp).nonempty
      rw [htake] at hstop
      unfold PagePiece.stop at hstop
      exact ⟨part, List.mem_cons_self, col, hcol, ⟨by omega, g.lt_pagesFor.mpr (by omega)⟩, hpage,
        hoffset⟩
    · obtain ⟨other, hother, hpiece⟩ := ih hrest p hp
      exact ⟨other, List.mem_cons_of_mem _ hother, hpiece⟩

/-- A page that a part reaches has a piece. -/
theorem exists_batchPiece (hlen : totalTokens parts ≤ keys.length) {part : BatchPart}
    (hpart : part ∈ parts) {col : Nat} (hsize : 0 < part.size)
    (hcol : part.startIdx / g.pageSize ≤ col)
    (hlast : col < g.pagesFor (part.startIdx + part.size)) :
    ∃ p ∈ batchPieces g q parts keys, p.page = q.cache.pageSlots (q.rowOf part.seq) col ∧
      p.stop = min g.pageSize (part.startIdx + part.size - col * g.pageSize) := by
  induction parts generalizing keys with
  | nil => cases hpart
  | cons first parts ih =>
    obtain ⟨htake, hrest⟩ := totalTokens_cons_le hlen
    rcases List.mem_cons.mp hpart with rfl | hpart
    · have hne : keys.take part.size ≠ [] := List.ne_nil_of_length_pos (by rw [htake]; exact hsize)
      have hreach : col * g.pageSize < part.startIdx + (keys.take part.size).length := by
        rw [htake]
        exact g.lt_pagesFor.mp hlast
      obtain ⟨p, hp, hpage, hstop⟩ : ∃ p ∈ chunkPieces g (q.cache.pageSlots (q.rowOf part.seq))
          part.startIdx (keys.take part.size), p.page = q.cache.pageSlots (q.rowOf part.seq) col ∧
            p.stop = min g.pageSize (part.startIdx + (keys.take part.size).length - col * g.pageSize) :=
        exists_piece hne hcol hreach
      rw [htake] at hstop
      exact ⟨p, List.mem_append_left _ hp, hpage, hstop⟩
    · obtain ⟨p, hp, hpiece⟩ := ih hrest hpart
      exact ⟨p, List.mem_append_right _ hp, hpiece⟩

/-- The page plan of a batch lists its pieces. -/
theorem segments_batchPieces (hlen : totalTokens parts ≤ keys.length) (tokenOffset : Nat) :
    partSegments g tokenOffset parts = pieceSegments tokenOffset (batchPieces g q parts keys) := by
  induction parts generalizing keys tokenOffset with
  | nil => rfl
  | cons part parts ih =>
    obtain ⟨htake, hrest⟩ := totalTokens_cons_le hlen
    have hfirst : pageSegments g tokenOffset part.startIdx part.size = pieceSegments tokenOffset
        (chunkPieces g (q.cache.pageSlots (q.rowOf part.seq)) part.startIdx (keys.take part.size)) := by
      rw [← pageSegments_eq, htake]
    have hcount : ((chunkPieces g (q.cache.pageSlots (q.rowOf part.seq)) part.startIdx
        (keys.take part.size)).flatMap fun p => p.tokens g.pageSize).length = part.size := by
      rw [tokens_chunkPieces, List.length_zip, List.length_map, List.length_range', htake, min_self]
    rw [partSegments, batchPieces, pieceSegments_append g.pageSize, hfirst, hcount, ih hrest]

theorem full_batchPieces (hlen : totalTokens parts ≤ keys.length)
    (hfull : ∀ part ∈ parts, part.startIdx % g.pageSize = 0 ∧ part.size % g.pageSize = 0) :
    ∀ p ∈ batchPieces g q parts keys, p.offset = 0 ∧ p.entries.length = g.pageSize := by
  induction parts generalizing keys with
  | nil => exact fun p hp => absurd hp List.not_mem_nil
  | cons part parts ih =>
    obtain ⟨htake, hrest⟩ := totalTokens_cons_le hlen
    intro p hp
    rcases List.mem_append.mp hp with hp | hp
    · obtain ⟨hstart, hsize⟩ := hfull part List.mem_cons_self
      exact chunkPieces_full hstart (htake.symm ▸ hsize) p hp
    · exact ih hrest (fun other hother => hfull other (List.mem_cons_of_mem _ hother)) p hp

end Store

section Exact

variable {K : Type} {parts : List BatchPart} {keys : List K}

theorem addedTokens_of_notMem {s : SeqId} (h : s ∉ parts.map BatchPart.seq) : addedTokens parts s = 0 := by
  refine List.sum_eq_zero fun n hn => ?_
  obtain ⟨part, hpart, rfl⟩ := List.mem_map.mp hn
  exact if_neg fun heq : s = part.seq => h (heq ▸ List.mem_map_of_mem hpart)

theorem addedTokens_of_mem (hnd : (parts.map BatchPart.seq).Nodup) {part : BatchPart}
    (hpart : part ∈ parts) : addedTokens parts part.seq = part.size := by
  induction parts with
  | nil => cases hpart
  | cons first parts ih =>
    obtain ⟨hout, hnd⟩ := List.nodup_cons.mp hnd
    have hsum : ∀ s, addedTokens (first :: parts) s =
        (if s = first.seq then first.size else 0) + addedTokens parts s := fun _ => rfl
    rw [hsum]
    rcases List.mem_cons.mp hpart with rfl | hpart
    · rw [if_pos rfl, addedTokens_of_notMem hout, Nat.add_zero]
    · have hne : part.seq ≠ first.seq := fun heq => hout (heq ▸ List.mem_map_of_mem hpart)
      rw [if_neg hne, Nat.zero_add, ih hnd hpart]

/-- The tokens of a request of the batch end where its part does. -/
theorem Prepared.rowLen (h : Prepared g numPages filled parts q) {part : BatchPart}
    (hpart : part ∈ parts) : q.cache.rowLen part.seq = part.startIdx + part.size := by
  rw [h.lens, h.starts part hpart, addedTokens_of_mem h.nodup hpart]

/-- The pages that a part reaches belong to its request alone. -/
theorem Prepared.owner (h : Prepared g numPages filled parts q) {part : BatchPart}
    (hpart : part ∈ parts) {col : Nat} (hcol : part.startIdx / g.pageSize ≤ col)
    (hlast : col < g.pagesFor (part.startIdx + part.size)) :
    ∃ page : Nat, page < numPages ∧ q.cache.pageSlots (q.rowOf part.seq) col = page ∧
      q.owner g (.inl (part.seq, col)) = some page := by
  obtain ⟨row, hrow⟩ := h.placed part hpart
  have hlt : col < g.pagesFor (q.cache.rowSeqLens row) := by
    rw [← QuestCache.rowLen_of_row hrow, h.rowLen hpart]
    exact hlast
  obtain ⟨page, hrange, hpage⟩ := h.shared.pages hrow hlt
  have hout : col ∉ q.cachedPages part.seq := by
    intro hin
    have hle := (h.shared.cached hrow hin).1
    rw [h.starts part hpart] at hle
    have hdiv := (Nat.le_div_iff_mul_le g.positive).mpr hle
    omega
  rw [rowOf_eq hrow]
  refine ⟨page, hrange, hpage, owner_cell_iff.mpr ⟨row, hrow, hlt, hout, ?_⟩⟩
  rw [hpage]
  exact Int.toNat_natCast _

/-- A page of a row belongs to the request or to a block. -/
theorem Shared.page_owner (h : Shared g numPages filled q) {s row col : Nat}
    (hrow : q.cache.seqIdToRow s = some row) (hcol : col < g.pagesFor (q.cache.rowSeqLens row)) :
    ∃ page : Nat, q.cache.pageSlots row col = page ∧ (q.owner g (.inl (s, col)) = some page ∨
      ∃ b, q.owner g (.inr b) = some page) := by
  by_cases hin : col ∈ q.cachedPages s
  · obtain ⟨-, b, page, -, hb, hpage⟩ := h.cached hrow hin
    exact ⟨page, hpage, Or.inr ⟨b, hb⟩⟩
  · obtain ⟨page, -, hpage⟩ := h.pages hrow hcol
    refine ⟨page, hpage, Or.inl (owner_cell_iff.mpr ⟨row, hrow, hcol, hin, ?_⟩)⟩
    rw [hpage]
    exact Int.toNat_natCast _

/-- Columns of different owners lie in different pages. -/
theorem nodup_batchPieces (hpool : Pool q.cache.freePages (q.owner g))
    (howner : ∀ part ∈ parts, ∀ col, part.startIdx / g.pageSize ≤ col →
      col < g.pagesFor (part.startIdx + part.size) → ∃ page : Nat,
        q.cache.pageSlots (q.rowOf part.seq) col = page ∧
          q.owner g (.inl (part.seq, col)) = some page)
    (hnd : (parts.map BatchPart.seq).Nodup) (hlen : totalTokens parts ≤ keys.length) :
    ((batchPieces g q parts keys).map PagePiece.page).Nodup := by
  induction parts generalizing keys with
  | nil => exact List.nodup_nil
  | cons part parts ih =>
    obtain ⟨hout, hnd⟩ := List.nodup_cons.mp hnd
    obtain ⟨htake, hrest⟩ := totalTokens_cons_le hlen
    have hpart := howner part List.mem_cons_self
    have hparts : ∀ other ∈ parts, ∀ col, other.startIdx / g.pageSize ≤ col →
        col < g.pagesFor (other.startIdx + other.size) → ∃ page : Nat,
          q.cache.pageSlots (q.rowOf other.seq) col = page ∧
            q.owner g (.inl (other.seq, col)) = some page :=
      fun other hother => howner other (List.mem_cons_of_mem _ hother)
    rw [batchPieces, List.map_append, List.nodup_append']
    refine ⟨nodup_chunkPieces fun {col col'} hcol hcol' hlast hlast' heq => ?_, ih hparts hnd hrest,
      fun page hpage hpage' => ?_⟩
    · rw [htake] at hlast hlast'
      obtain ⟨page, hslot, hown⟩ := hpart col hcol hlast
      obtain ⟨page', hslot', hown'⟩ := hpart col' hcol' hlast'
      obtain rfl : page = page' := Int.ofNat.inj (hslot.symm.trans (heq.trans hslot'))
      exact (Prod.mk.inj (Sum.inl.inj (hpool.apart hown hown'))).2
    · obtain ⟨p, hp, rfl⟩ := List.mem_map.mp hpage
      obtain ⟨p', hp', heq⟩ := List.mem_map.mp hpage'
      obtain ⟨col, hcol, hcolumn, hoffset, hstop⟩ := exists_column p hp
      have hpos := List.length_pos_iff.mpr (fits_chunkPieces p hp).nonempty
      rw [htake] at hstop
      unfold PagePiece.stop at hstop
      obtain ⟨page, hslot, hown⟩ := hpart col hcol (g.lt_pagesFor.mpr (by omega))
      obtain ⟨other, hother, col', hcol', ⟨-, hlast'⟩, hcolumn', -⟩ := exists_part hrest p' hp'
      obtain ⟨page', hslot', hown'⟩ := hparts other hother col' hcol' hlast'
      have hsame : (page : Int) = page' :=
        (hcolumn.trans hslot).symm.trans (heq.symm.trans (hcolumn'.trans hslot'))
      obtain rfl : page = page' := Int.ofNat.inj hsame
      have hseq := (Prod.mk.inj (Sum.inl.inj (hpool.apart hown hown'))).1
      exact hout (hseq ▸ List.mem_map_of_mem hother)

/-- The slots of a batch are slots of the pages. -/
theorem Prepared.validSlots (h : Prepared g numPages filled parts q) :
    ∀ slot ∈ parts.flatMap (partSlots g q), validSlot (numPages * g.pageSize) slot = true := by
  intro slot hslot
  obtain ⟨part, hpart, hslot⟩ := List.mem_flatMap.mp hslot
  obtain ⟨i, hi, rfl⟩ := List.mem_map.mp hslot
  obtain ⟨row, hrow⟩ := h.placed part hpart
  have hlt : i < q.cache.rowSeqLens row := by
    rw [← QuestCache.rowLen_of_row hrow, h.rowLen hpart]
    exact (List.mem_range'_1.mp hi).2
  obtain ⟨page, hrange, hpage⟩ := h.shared.pages hrow (g.div_lt_pagesFor hlt)
  have hmod := Nat.mod_lt i g.positive
  have hbound : page * g.pageSize + i % g.pageSize < numPages * g.pageSize := by
    have := Nat.mul_le_mul_right g.pageSize (Nat.succ_le_of_lt hrange)
    rw [Nat.succ_mul] at this
    omega
  unfold pageSlot validSlot
  rw [rowOf_eq hrow, hpage, Bool.and_eq_true_iff, decide_eq_true_iff, decide_eq_true_iff]
  exact_mod_cast And.intro (Nat.zero_le _) hbound

/-- The pieces of a batch lie in different pages. -/
theorem Prepared.nodup_pages (h : Prepared g numPages filled parts q)
    (hlen : totalTokens parts ≤ keys.length) :
    ((batchPieces g q parts keys).map PagePiece.page).Nodup :=
  nodup_batchPieces h.shared.pool (fun _ hpart _ hcol hlast => by
    obtain ⟨page, -, hown⟩ := h.owner hpart hcol hlast
    exact ⟨page, hown⟩) h.nodup hlen

variable [Lattice K] [BoundedOrder K] {m : PagedStore K}

/-- The bounds of the pages that a batch goes on with are exact up to where it does. -/
theorem Prepared.exact_offsets (h : Prepared g numPages filled parts q)
    (hlen : totalTokens parts ≤ keys.length) (hm : Filled g filled q m) :
    ∀ p ∈ batchPieces g q parts keys, p.offset ≠ 0 → m.Exact g.pageSize p.page p.offset := by
  intro p hp hpos
  obtain ⟨part, hpart, col, hcol, -, hpage, hoffset⟩ := exists_part hlen p hp
  obtain ⟨row, hrow⟩ := h.placed part hpart
  have hstored : col < g.pagesFor (filled part.seq) := by
    rw [h.starts part hpart]
    exact g.lt_pagesFor.mpr (by omega)
  have hexact := hm.rows hrow hstored
  have hinside := (fits_batchPieces p hp).inside
  unfold PagePiece.stop at hinside
  rw [h.starts part hpart, ← hoffset, min_eq_right (by omega)] at hexact
  rw [hpage, rowOf_eq hrow]
  exact hexact

/-- A page before the parts of a batch has no new tokens. -/
theorem Prepared.filled_page (h : Prepared g numPages filled parts q) {s : SeqId} {col : Nat}
    (hcol : col < g.pagesFor (q.cache.rowLen s))
    (hbefore : ∀ part ∈ parts, part.seq = s → 0 < part.size → col < part.startIdx / g.pageSize) :
    col < g.pagesFor (filled s) ∧ min g.pageSize (q.cache.rowLen s - col * g.pageSize) =
      min g.pageSize (filled s - col * g.pageSize) := by
  have hsame : addedTokens parts s = 0 →
      col < g.pagesFor (filled s) ∧ min g.pageSize (q.cache.rowLen s - col * g.pageSize) =
        min g.pageSize (filled s - col * g.pageSize) := by
    intro hadded
    have hlen := h.lens s
    rw [hadded, Nat.add_zero] at hlen
    rw [hlen] at hcol ⊢
    exact ⟨hcol, rfl⟩
  by_cases hmem : s ∈ parts.map BatchPart.seq
  · obtain ⟨part, hpart, rfl⟩ := List.mem_map.mp hmem
    have hadded := addedTokens_of_mem h.nodup hpart
    rcases Nat.eq_zero_or_pos part.size with hsize | hsize
    · exact hsame (hadded.trans hsize)
    · have hpage := (Nat.le_div_iff_mul_le g.positive).mp (hbefore part hpart rfl hsize)
      have hpos := g.positive
      rw [Nat.succ_mul] at hpage
      rw [h.rowLen hpart, h.starts part hpart, g.lt_pagesFor]
      omega
  · exact hsame (addedTokens_of_notMem hmem)

/-- **Storing a prepared batch** leaves exact bounds in the pages of all its tokens, and of all
others. -/
theorem Prepared.filled_writePieces (h : Prepared g numPages filled parts q)
    (hlen : totalTokens parts ≤ keys.length) (hm : Filled g filled q m) :
    Filled g q.cache.rowLen q (m.writePieces g.pageSize (batchPieces g q parts keys)) := by
  have hfits : ∀ p ∈ batchPieces g q parts keys, p.Fits g.pageSize := fits_batchPieces
  have hnd : ((batchPieces g q parts keys).map PagePiece.page).Nodup := h.nodup_pages hlen
  have hoffsets := h.exact_offsets hlen hm
  -- A page with another owner than the columns of the batch is not written.
  have hothers : ∀ {a : (SeqId × Nat) ⊕ B} {page : Nat}, q.owner g a = some page →
      (∀ part ∈ parts, 0 < part.size → ∀ col, part.startIdx / g.pageSize ≤ col →
        a ≠ .inl (part.seq, col)) → ∀ p ∈ batchPieces g q parts keys, p.page ≠ page := by
    intro a page ha hother p hp heq
    obtain ⟨part, hpart, col, hcol, ⟨hsize, hlast⟩, hpage, -⟩ := exists_part hlen p hp
    obtain ⟨page', -, hslot, hown⟩ := h.owner hpart hcol hlast
    obtain rfl : page = page' := Int.ofNat.inj (heq.symm.trans (hpage.trans hslot))
    exact hother part hpart hsize col hcol (h.shared.pool.apart ha hown)
  have hblocks : ∀ {b page}, q.owner g (.inr b) = some page →
      ∀ p ∈ batchPieces g q parts keys, p.page ≠ page := fun hb =>
    hothers hb fun _ _ _ _ _ heq => by cases heq
  constructor
  · intro s row col hrow hcol
    have hrowcol : col < g.pagesFor (q.cache.rowSeqLens row) := by
      rw [← QuestCache.rowLen_of_row hrow]
      exact hcol
    obtain ⟨page, hslot, hown⟩ := h.shared.page_owner hrow hrowcol
    by_cases hin : ∃ part ∈ parts, part.seq = s ∧ 0 < part.size ∧ part.startIdx / g.pageSize ≤ col
    · -- The page has a piece.
      obtain ⟨part, hpart, rfl, hsize, hfirst⟩ := hin
      rw [h.rowLen hpart] at hcol ⊢
      obtain ⟨p, hp, hpage, hstop⟩ := exists_batchPiece (g := g) (q := q) hlen hpart hsize hfirst hcol
      rw [rowOf_eq hrow] at hpage
      rw [← hpage, ← hstop]
      exact PagedStore.exact_writePieces hfits hnd hoffsets p hp
    · -- The page is not written, and none of its tokens is new.
      have hkept : ∀ p ∈ batchPieces g q parts keys, p.page ≠ page := by
        rcases hown with hown | ⟨b, hb⟩
        · refine hothers hown fun part hpart hsize k hk heq => ?_
          obtain ⟨rfl, rfl⟩ := Prod.mk.inj (Sum.inl.inj heq)
          exact hin ⟨part, hpart, rfl, hsize, hk⟩
        · exact hblocks hb
      obtain ⟨hstored, hfill⟩ := h.filled_page hcol fun part hpart hseq hsize =>
        not_le.mp fun hle => hin ⟨part, hpart, hseq, hsize, hle⟩
      rw [hfill, hslot]
      have hexact := hm.rows hrow hstored
      rw [hslot] at hexact
      exact hexact.writePieces_of_notMem (min_le_left _ _) hfits hkept
  · intro b page hb
    exact (hm.blocks hb).writePieces_of_notMem (le_refl _) hfits (hblocks hb)

/-- **Storing a prefill batch.** -/
theorem Prepared.filled_storePrefill (h : Prepared g numPages filled parts q) {plan : QuestPrefillPlan}
    (hslots : plan.slotMapping = parts.flatMap (partSlots g q))
    (hsegments : plan.segments = partSegments g 0 parts)
    (hfull : plan.metadataFullPages = true →
      ∀ part ∈ parts, part.startIdx % g.pageSize = 0 ∧ part.size % g.pageSize = 0)
    (hkeys : keys.length = totalTokens parts) (storage : QuestStorage) (hm : Filled g filled q m) :
    Filled g q.cache.rowLen q (storePrefill g (numPages * g.pageSize) storage plan keys m) := by
  have hlen : totalTokens parts ≤ keys.length := hkeys.ge
  have hdescribes : plan.Describes g (batchPieces g q parts keys) :=
    ⟨hslots.trans (slots_batchPieces hlen).symm, hsegments.trans (segments_batchPieces hlen 0),
      fun hyes => full_batchPieces hlen (hfull hyes)⟩
  have hstored : storePrefill g (numPages * g.pageSize) storage plan keys m =
      m.writePieces g.pageSize (batchPieces g q parts keys) := storePrefill_pieces hdescribes
    (by rw [hslots, tokens_batchPieces hlen]) fits_batchPieces (h.nodup_pages hlen)
    (h.exact_offsets hlen hm) (hslots ▸ h.validSlots)
  rw [hstored]
  exact h.filled_writePieces hlen hm

theorem stores_of_valid {cacheSlotCount : Nat} {slot : Int} (h : validSlot cacheSlotCount slot = true)
    (storage : QuestStorage) : storage.stores cacheSlotCount slot = true := by
  cases storage with
  | explicitKv =>
    have hpos := of_decide_eq_true (Bool.and_eq_true_iff.mp h).1
    refine bne_iff_ne.mpr fun heq => ?_
    rw [heq] at hpos
    omega
  | mlaLatent => exact h

/-- **Storing a decode batch**, padded to the size of its graph. -/
theorem Prepared.filled_storeDecode (h : Prepared g numPages filled parts q)
    (hsingle : ∀ part ∈ parts, part.size = 1) {padding : Nat}
    (hkeys : keys.length = totalTokens parts + padding) (storage : QuestStorage)
    (hm : Filled g filled q m) :
    Filled g q.cache.rowLen q (storeDecode g (numPages * g.pageSize) storage
      (parts.flatMap (partSlots g q) ++ List.replicate padding (-1)) keys m) := by
  have hlen : totalTokens parts ≤ keys.length := (Nat.le_add_right _ _).trans_eq hkeys.symm
  have hstored : storeDecode g (numPages * g.pageSize) storage
      (parts.flatMap (partSlots g q) ++ List.replicate padding (-1)) keys m =
        m.writePieces g.pageSize (batchPieces g q parts keys) := storeDecode_pieces
    (tokens_batchPieces hlen).symm
    (length_batchSlots.trans_le hlen) fits_batchPieces (length_batchPieces hsingle)
    fun slot hslot => stores_of_valid (h.validSlots slot hslot) storage
  rw [hstored]
  exact h.filled_writePieces hlen hm

end Exact

end QuestPrefixCache

/-! ## Runs -/

/-- The prefix cache, the stores of the KV layers, and the pages kept on the host. -/
structure QuestMemory (B L K : Type) where
  prefixCache : QuestPrefixCache B
  layers : L → PagedStore K
  hostPages : B → Option (L → PageCopy K)

/-- What happens to it; `keys` are the metadata keys of the batch in each layer. -/
inductive QuestMemoryOp (B L K : Type) where
  | prefill (chunks : List (QuestChunk B)) (keys : L → List K)
  | decode (path : QuestDecodePath) (seqs : List SeqId) (padding : Nat) (evicted demoted : List B)
      (keys : L → List K)
  | commit (seq : SeqId) (col : Nat) (b : B)
  | makeRoom (evicted demoted : List B)
  | copyToHost (b : B)
  | promote (b : B)
  | free (seq : SeqId)

/-- A batch has a request once, a new request starts at its first token unless it has a prefix, and
each token has a key. -/
def QuestMemoryOp.Formed {B L K : Type} (s : QuestMemory B L K) : QuestMemoryOp B L K → Prop
  | .prefill chunks keys => (chunks.map QuestChunk.seq).Nodup ∧
      (∀ chunk ∈ chunks, chunk.hitChain = [] → s.prefixCache.cache.seqIdToRow chunk.seq = none →
        chunk.startIdx = 0) ∧
      ∀ layer, (keys layer).length = (chunks.map QuestChunk.chunkSize).sum
  | .decode _ seqs padding _ _ keys => seqs.Nodup ∧ ∀ layer, (keys layer).length = seqs.length + padding
  | _ => True

section Runs

variable {B L K : Type}

namespace QuestMemory

/-- At construction; the memory is not initialised. -/
def initial (numPages numRows : Nat) (layers : L → PagedStore K) : QuestMemory B L K :=
  ⟨.initial numPages numRows, layers, fun _ => none⟩

/-- The attention layers store, one after the other. -/
def storeLayers (store : L → PagedStore K → PagedStore K) (s : QuestMemory B L K) : QuestMemory B L K :=
  { s with layers := fun layer => store layer (s.layers layer) }

/-- Copy the page of a block to the host, with its metadata. -/
def copyToHost [DecidableEq B] (g : QuestGeometry) (b : B) (page : Nat) (s : QuestMemory B L K) :
    QuestMemory B L K :=
  { s with
    hostPages := Function.update s.hostPages b
      (some fun layer => (s.layers layer).copyPage g.pageSize page) }

theorem hostPages_copyToHost [DecidableEq B] {g : QuestGeometry} {b : B} {page : Nat}
    {s : QuestMemory B L K} (b' : B) :
    (s.copyToHost g b page).hostPages b' =
      if b' = b then some fun layer => (s.layers layer).copyPage g.pageSize page
      else s.hostPages b' :=
  Function.update_apply ..

end QuestMemory

/-- A method of the prefix cache. -/
def onPrefixCache {α : Type} (m : QuestPrefixM B α) : EStateM QuestPrefixError (QuestMemory B L K) α :=
  zoom (·.prefixCache) (fun q s => { s with prefixCache := q }) id m

variable [DecidableEq B] [Lattice K] [BoundedOrder K]

/-- An operation. -/
def runMemoryOp (g : QuestGeometry) (numPages : Nat) (storage : QuestStorage) :
    QuestMemoryOp B L K → EStateM QuestPrefixError (QuestMemory B L K) Unit
  | .prefill chunks keys => do
    let plan ← onPrefixCache (preparePrefill g chunks)
    modify (QuestMemory.storeLayers fun layer =>
      storePrefill g (numPages * g.pageSize) storage plan (keys layer))
  | .decode path seqs padding evicted demoted keys => do
    let slots ← onPrefixCache (prepareDecode g path seqs evicted demoted)
    modify (QuestMemory.storeLayers fun layer =>
      storeDecode g (numPages * g.pageSize) storage (slots ++ List.replicate padding (-1)) (keys layer))
  | .commit seq col b => onPrefixCache (commitPrefixBlock g seq col b)
  | .makeRoom evicted demoted => onPrefixCache (evictPrefixCacheUntilFree evicted demoted)
  | .copyToHost b => do
    let page ← onPrefixCache (requirePage b)
    modify (QuestMemory.copyToHost g b page)
  | .promote b => do
    let s ← get
    match s.hostPages b with
    | none => throw .missingPage
    | some copies =>
      let page ← onPrefixCache (promotePrefixBlock b)
      modify (QuestMemory.storeLayers fun layer =>
        PagedStore.restorePage g.pageSize page (copies layer))
  | .free seq => onPrefixCache (freePrefixSeq g seq)

/-- An operation that is formed and returns; a raise ends the run. -/
def QuestMemoryOp.Returns (g : QuestGeometry) (numPages : Nat) (storage : QuestStorage)
    (s : QuestMemory B L K) (op : QuestMemoryOp B L K) : Prop :=
  op.Formed s ∧ ∃ s', runMemoryOp g numPages storage op s = .ok () s'

/-- The tokens of all requests are stored, and all pages have exact bounds, in every layer and on the
host. -/
structure QuestMemory.Sound (g : QuestGeometry) (numPages : Nat) (s : QuestMemory B L K) : Prop where
  settled : QuestPrefixCache.Settled g numPages s.prefixCache
  stored : ∀ layer, QuestPrefixCache.Filled g s.prefixCache.cache.rowLen s.prefixCache (s.layers layer)
  copies : ∀ {b copies}, s.hostPages b = some copies → ∀ layer, (copies layer).Exact g.pageSize

variable {g : QuestGeometry} {numPages : Nat} {storage : QuestStorage} {s : QuestMemory B L K}

omit [DecidableEq B] [Lattice K] [BoundedOrder K] in
theorem onPrefixCache_returns {α : Type} {m : QuestPrefixM B α} {Q : α → QuestPrefixCache B → Prop}
    (h : Lib.Returns (· = s.prefixCache) m Q) :
    Lib.Returns (· = s) (onPrefixCache m) fun a s' => ∃ q, s' = { s with prefixCache := q } ∧ Q a q := by
  intro t ht
  subst ht
  have hrun := h t.prefixCache rfl
  unfold onPrefixCache zoom
  cases hm : m t.prefixCache with
  | error error q => trivial
  | ok a q =>
    rw [hm] at hrun
    exact ⟨q, rfl, hrun⟩

omit [DecidableEq B] in
/-- An operation of the prefix cache that keeps what is stored. -/
theorem QuestMemory.Sound.settles (h : s.Sound g numPages) {m : QuestPrefixM B Unit}
    (hm : Lib.Returns (· = s.prefixCache) m fun _ q =>
      QuestPrefixCache.Settles g numPages s.prefixCache q) :
    Lib.Returns (· = s) (onPrefixCache m) fun _ s' => s'.Sound g numPages := by
  refine (onPrefixCache_returns hm).post fun _ s' hs => ?_
  obtain ⟨q, rfl, hq⟩ := hs
  exact ⟨hq.1, fun layer => hq.2 K _ (h.stored layer), h.copies⟩

theorem pageFilled_restorePage {page : Int} {copy : PageCopy K} (h : copy.Exact g.pageSize)
    (m : PagedStore K) :
    QuestPrefixCache.PageFilled g.pageSize page m (m.restorePage g.pageSize page copy) where
  exact := PagedStore.exact_restorePage h
  others hne hle hm := hm.restorePage_of_ne hle hne

/-- **Every operation** keeps the bounds exact. -/
theorem runMemoryOp_sound (h : s.Sound g numPages) {op : QuestMemoryOp B L K} (hop : op.Formed s) :
    Lib.Returns (· = s) (runMemoryOp g numPages storage op) fun _ s' => s'.Sound g numPages := by
  cases op with
  | prefill chunks keys =>
    obtain ⟨hnd, hstart, hkeys⟩ := hop
    refine Spec.bind (onPrefixCache_returns (QuestPrefixCache.preparePrefill_prepares h.settled hnd hstart))
      fun plan => Spec.intro fun t ht => ?_
    obtain ⟨q, rfl, filled, hprepared, hstored, hslots, hsegments, hfull⟩ := ht
    intro u hu
    subst hu
    refine ⟨hprepared.shared.settled, fun layer => ?_, h.copies⟩
    refine hprepared.filled_storePrefill hslots hsegments hfull ?_ storage (hstored K _ (h.stored layer))
    rw [hkeys]
    unfold QuestPrefixCache.totalTokens
    rw [List.map_map]
    rfl
  | decode path seqs padding evicted demoted keys =>
    obtain ⟨hnd, hkeys⟩ := hop
    refine Spec.bind (onPrefixCache_returns
      (QuestPrefixCache.prepareDecode_prepares h.settled path hnd evicted demoted)) fun slots =>
        Spec.intro fun t ht => ?_
    obtain ⟨q, rfl, hprepared, hstored, rfl⟩ := ht
    intro u hu
    subst hu
    refine ⟨hprepared.shared.settled, fun layer => ?_, h.copies⟩
    refine hprepared.filled_storeDecode ?_ ?_ storage (hstored K _ (h.stored layer))
    · intro part hpart
      obtain ⟨seq, -, rfl⟩ := List.mem_map.mp hpart
      rfl
    · rw [hkeys, QuestPrefixCache.totalTokens_decodeParts]
  | commit seq col b => exact h.settles (QuestPrefixCache.commitPrefixBlock_settles h.settled seq col b)
  | makeRoom evicted demoted =>
    exact h.settles ((QuestPrefixCache.evictPrefixCacheUntilFree_grows h.settled evicted demoted).post
      fun _ q hq => QuestPrefixCache.Settled.settles h.settled hq)
  | copyToHost b =>
    refine Spec.bind (onPrefixCache_returns (QuestPrefixCache.requirePage_returns b)) fun page =>
      Spec.intro fun t ht => ?_
    obtain ⟨q, rfl, rfl, hpage⟩ := ht
    intro u hu
    subst hu
    refine ⟨h.settled, h.stored, fun {b' copies} hcopies layer => ?_⟩
    rw [QuestMemory.hostPages_copyToHost] at hcopies
    split at hcopies
    · cases hcopies
      exact ((h.stored layer).blocks hpage).copyPage
    · exact h.copies hcopies layer
  | promote b =>
    refine Spec.get_bind fun t ht => ?_
    subst ht
    cases hcopies : t.hostPages b with
    | none => exact Spec.throw fun _ _ => trivial
    | some copies =>
      refine Spec.bind (onPrefixCache_returns (QuestPrefixCache.promotePrefixBlock_settles h.settled b))
        fun page => Spec.intro fun u hu => ?_
      obtain ⟨q, rfl, hq, hfilled⟩ := hu
      intro v hv
      subst hv
      refine ⟨hq, fun layer => ?_, h.copies⟩
      exact hfilled K _ _ (pageFilled_restorePage (h.copies hcopies layer) _) (h.stored layer)
  | free seq => exact h.settles (QuestPrefixCache.freePrefixSeq_settles h.settled seq)

theorem runMemoryOp_ok {s' : QuestMemory B L K} {op : QuestMemoryOp B L K} (h : s.Sound g numPages)
    (hop : op.Formed s) (hstep : runMemoryOp g numPages storage op s = .ok () s') :
    s'.Sound g numPages := by
  have hreturns := (runMemoryOp_sound h hop : Lib.Returns (· = s) (runMemoryOp g numPages storage op) _) s rfl
  rw [hstep] at hreturns
  exact hreturns

omit [DecidableEq B] in
theorem sound_initial (numRows : Nat) (layers : L → PagedStore K) :
    (QuestMemory.initial numPages numRows layers : QuestMemory B L K).Sound g numPages := by
  have hlens : (QuestPrefixCache.initial numPages numRows : QuestPrefixCache B).cache.rowLen =
      fun _ => 0 := funext fun _ => rfl
  refine ⟨(QuestPrefixCache.shared_initial numRows).settled, fun layer => ?_, fun h => by cases h⟩
  show QuestPrefixCache.Filled g (QuestPrefixCache.initial numPages numRows : QuestPrefixCache B).cache.rowLen
    (QuestPrefixCache.initial numPages numRows) (layers layer)
  rw [hlens]
  exact QuestPrefixCache.filled_initial numRows (layers layer)

/-- The states of the runs from construction. -/
def QuestMemory.Reached (g : QuestGeometry) (numPages numRows : Nat) (storage : QuestStorage)
    (layers : L → PagedStore K) : QuestMemory B L K → Prop :=
  Reachable (fun op s => stateAfter (runMemoryOp g numPages storage op) s)
    (fun s op => op.Returns g numPages storage s) (.initial numPages numRows layers)

theorem QuestMemory.Reached.sound {numRows : Nat} {layers : L → PagedStore K}
    (run : s.Reached g numPages numRows storage layers) : s.Sound g numPages := by
  refine run.invariant (sound_initial numRows layers) fun t op ht hop => ?_
  obtain ⟨hformed, t', ht'⟩ := hop
  rw [stateAfter_ok ht']
  exact runMemoryOp_ok ht hformed ht'

end Runs

section Bounds

variable {B L ι S : Type} [DecidableEq B] [LinearOrder S] [BoundedOrder S]

/-- The element `i` of the metadata keys that a page of a row has now, at the positions of the page
that the row has. -/
def pageElements (g : QuestGeometry) (s : QuestMemory B L (ι → S)) (layer : L) (row col : Nat) (i : ι) :
    Set S :=
  {key | ∃ pos < s.prefixCache.cache.rowSeqLens row, pos / g.pageSize = col ∧
    (s.layers layer).keys (s.prefixCache.cache.tokenSlots row pos) i = key}

/-- **QuEST page bounds are exact.** A decode step stores the keys of a layer and then scores its
pages: the bounds of every page of every row are then, element by element, the greatest and the
least of the keys there. -/
theorem quest_bounds_exact {g : QuestGeometry} {numPages numRows : Nat} {storage : QuestStorage}
    {layers : L → PagedStore (ι → S)} {s s' : QuestMemory B L (ι → S)}
    (run : s.Reached g numPages numRows storage layers) {path : QuestDecodePath} {seqs : List SeqId}
    {padding : Nat} {evicted demoted : List B} {keys : L → List (ι → S)}
    (formed : (QuestMemoryOp.decode path seqs padding evicted demoted keys).Formed s)
    (step : runMemoryOp g numPages storage (.decode path seqs padding evicted demoted keys) s =
      .ok () s')
    (layer : L) {seq row col : Nat} (hrow : s'.prefixCache.cache.seqIdToRow seq = some row)
    (hcol : col < g.pagesFor (s'.prefixCache.cache.rowSeqLens row)) (i : ι) :
    IsGreatest (pageElements g s' layer row col i)
        ((s'.layers layer).pageMax (s'.prefixCache.cache.pageSlots row col) i) ∧
      IsLeast (pageElements g s' layer row col i)
        ((s'.layers layer).pageMin (s'.prefixCache.cache.pageSlots row col) i) := by
  have hsound : s'.Sound g numPages := runMemoryOp_ok run.sound formed step
  have hlen := QuestCache.rowLen_of_row hrow
  have hexact := (hsound.stored layer).rows hrow (by rw [hlen]; exact hcol)
  rw [hlen] at hexact
  have hreach := g.lt_pagesFor.mp hcol
  have hpos : 0 < min g.pageSize (s'.prefixCache.cache.rowSeqLens row - col * g.pageSize) :=
    lt_min g.positive (Nat.sub_pos_of_lt hreach)
  have hset : pageElements g s' layer row col i =
      {key | ∃ j < min g.pageSize (s'.prefixCache.cache.rowSeqLens row - col * g.pageSize),
        (s'.layers layer).keys (s'.prefixCache.cache.pageSlots row col * g.pageSize + (j : Nat)) i = key} := by
    refine Set.ext fun key => ⟨?_, ?_⟩
    · rintro ⟨pos, hlt, rfl, rfl⟩
      have hdiv := Nat.div_add_mod pos g.pageSize
      have hmod := Nat.mod_lt pos g.positive
      rw [Nat.mul_comm] at hdiv
      refine ⟨pos % g.pageSize, by omega, ?_⟩
      rw [hsound.settled.tokens hrow hlt]
      rfl
    · rintro ⟨j, hj, rfl⟩
      have hsize : j < g.pageSize := by omega
      have hlt : col * g.pageSize + j < s'.prefixCache.cache.rowSeqLens row := by omega
      have hdiv : (col * g.pageSize + j) / g.pageSize = col := by
        rw [Nat.mul_comm, Nat.mul_add_div g.positive, Nat.div_eq_of_lt hsize, Nat.add_zero]
      have hmod : (col * g.pageSize + j) % g.pageSize = j := by
        rw [Nat.mul_comm, Nat.mul_add_mod, Nat.mod_eq_of_lt hsize]
      refine ⟨col * g.pageSize + j, hlt, hdiv, ?_⟩
      rw [hsound.settled.tokens hrow hlt]
      unfold QuestCache.slotAt
      rw [hdiv, hmod]
  rw [hset]
  exact ⟨hexact.isGreatest hpos i, hexact.isLeast hpos i⟩

end Bounds

/-- A request of three tokens, whose first page becomes a block that another request attaches. -/
def pageSharers : List (QuestMemoryOp Nat Unit (Unit → Fin 8)) :=
  [.prefill [⟨0, 0, 3, [], [], []⟩] fun _ => [fun _ => 3, fun _ => 1, fun _ => 6],
    .commit 0 0 9,
    .prefill [⟨1, 2, 1, [9], [], []⟩] fun _ => [fun _ => 2]]

/-- The decode step that follows them. -/
def pageSharersDecode : QuestMemoryOp Nat Unit (Unit → Fin 8) :=
  .decode .eager [0, 1] 0 [] [] fun _ => [fun _ => 5, fun _ => 4]

/-- The state before it. -/
def pageSharersState (storage : QuestStorage) : QuestMemory Nat Unit (Unit → Fin 8) :=
  runAll (fun op s => stateAfter (runMemoryOp ⟨2, 8, Nat.zero_lt_two⟩ 4 storage op) s)
    (.initial 4 2 fun _ => ⟨fun _ _ => 7, fun _ _ => 7, fun _ _ => 0⟩) pageSharers

/-- The state after it. -/
def pageSharersDecoded (storage : QuestStorage) : QuestMemory Nat Unit (Unit → Fin 8) :=
  stateAfter (runMemoryOp ⟨2, 8, Nat.zero_lt_two⟩ 4 storage pageSharersDecode) (pageSharersState storage)

/-- The first page of the second request is that of the first one. -/
theorem quest_bounds_exact_pageSharers :
    IsGreatest (pageElements ⟨2, 8, Nat.zero_lt_two⟩ (pageSharersDecoded .mlaLatent) () 1 0 ())
        (((pageSharersDecoded .mlaLatent).layers ()).pageMax
          ((pageSharersDecoded .mlaLatent).prefixCache.cache.pageSlots 1 0) ()) ∧
      IsLeast (pageElements ⟨2, 8, Nat.zero_lt_two⟩ (pageSharersDecoded .mlaLatent) () 1 0 ())
        (((pageSharersDecoded .mlaLatent).layers ()).pageMin
          ((pageSharersDecoded .mlaLatent).prefixCache.cache.pageSlots 1 0) ()) := by
  have hrun : (pageSharersState .mlaLatent).Reached ⟨2, 8, Nat.zero_lt_two⟩ 4 2 .mlaLatent
      fun _ => ⟨fun _ _ => 7, fun _ _ => 7, fun _ _ => 0⟩ :=
    Reachable.init.runAll ⟨⟨⟨by decide, by decide, fun _ => rfl⟩, _, rfl⟩, ⟨trivial, _, rfl⟩,
      ⟨⟨by decide, by decide, fun _ => rfl⟩, _, rfl⟩, trivial⟩
  have hformed : pageSharersDecode.Formed (pageSharersState .mlaLatent) := ⟨by decide, fun _ => rfl⟩
  have hrow : (pageSharersDecoded .mlaLatent).prefixCache.cache.seqIdToRow 1 = some 1 := rfl
  exact quest_bounds_exact hrun hformed rfl () hrow (by decide) ()

end SparseVllm
