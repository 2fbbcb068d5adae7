import SparseVllm.Lib.PageBounds
import SparseVllm.Quest.Pages

/-!
# The writers of QuEST page bounds (`kernels/triton/store_kvcache.py`, `engine/cache_manager/quest.py`)

A decode step stores a key per request and updates the bounds of its page in the same kernel, with
explicit KV and with MLA latents. A prefill step stores its batch by page segments with explicit KV;
with MLA latents it stores the latents and `on_kv_stored` computes the bounds of the touched pages
from what it stored (full pages) or from the cache.

A batch is cut into the pieces of its chunks that lie in one page each (`chunkPieces`). Each writer
stores these pieces (`PagedStore.writePieces`).

A metadata key is a key of explicit KV, or a latent and a rope part side by side; `⊥` and `⊤` are
the infinities. The programs of a launch touch different pages, and are run in order here. Left out:
the values, and `on_kv_stored` under graph capture.
-/

namespace SparseVllm

open SparseVllm.Lib

variable {K : Type}

/-! ## The page plan of a prefill batch -/

/-- The `while` loop of `_prepare_prefill` over the pages of a chunk. -/
def pageSegments (g : QuestGeometry) (tokenOffset startIdx chunkSize : Nat) : List (Nat × Nat) :=
  if chunkSize = 0 then []
  else
    let segmentSize := min chunkSize (g.pageSize - startIdx % g.pageSize)
    (tokenOffset, segmentSize) ::
      pageSegments g (tokenOffset + segmentSize) (startIdx + segmentSize) (chunkSize - segmentSize)
termination_by chunkSize
decreasing_by
  have := Nat.mod_lt startIdx g.positive
  omega

/-- What a prefill step hands to the stores: `slot_mapping`, `QuestPrefillPagePlan.segments` and
`_prefill_metadata_full_pages`. -/
structure QuestPrefillPlan where
  slotMapping : List Int
  segments : List (Nat × Nat)
  metadataFullPages : Bool

/-! ## The kernels -/

section Kernels

variable [Lattice K] [BoundedOrder K] (g : QuestGeometry)

/-- A program of the decode kernels, which skip the slots that are not `valid`. -/
def storeTokenWithQuestMetadata (valid : Int → Bool) (token : Int × K) (m : PagedStore K) :
    PagedStore K :=
  if valid token.1 then
    let pageSlot := token.1 / g.pageSize
    let pageOffset := token.1 % g.pageSize
    { keys := Function.update m.keys token.1 token.2
      pageMax := Function.update m.pageMax pageSlot
        ((if pageOffset ≠ 0 then m.pageMax pageSlot else ⊥) ⊔ token.2)
      pageMin := Function.update m.pageMin pageSlot
        ((if pageOffset ≠ 0 then m.pageMin pageSlot else ⊤) ⊓ token.2) }
  else m

/-- `store_kvcache_with_quest_metadata`: a program per token, padding has slot `-1`. -/
def storeKvcacheWithQuestMetadata (tokens : List (Int × K)) (m : PagedStore K) : PagedStore K :=
  tokens.foldl (fun m token => storeTokenWithQuestMetadata g (fun slot => slot != -1) token m) m

/-- `valid_slot` of `_copy_latent_kernel`. -/
def validSlot (cacheSlotCount : Nat) (slot : Int) : Bool := 0 ≤ slot && slot < cacheSlotCount

/-- `copy_latent_to_cache_with_quest_metadata`: a program per token. -/
def copyLatentToCacheWithQuestMetadata (cacheSlotCount : Nat) (tokens : List (Int × K))
    (m : PagedStore K) : PagedStore K :=
  tokens.foldl (fun m token => storeTokenWithQuestMetadata g (validSlot cacheSlotCount) token m) m

/-- `copy_latent_to_cache`, without metadata. -/
def copyLatentToCache (cacheSlotCount : Nat) (tokens : List (Int × K)) (m : PagedStore K) :
    PagedStore K :=
  m.store (tokens.filter fun token => validSlot cacheSlotCount token.1)

/-- `store_prefill_kvcache_with_quest_metadata_kernel`: the program of a segment. -/
def storePrefillKernel (tokens : List (Int × K)) (segment : Nat × Nat) (m : PagedStore K) :
    PagedStore K :=
  let segmentTokens := (tokens.drop segment.1).take segment.2
  let firstSlot := (tokens.map Prod.fst).getD segment.1 0
  let pageSlot := firstSlot / g.pageSize
  let pageOffset := firstSlot % g.pageSize
  { keys := (m.store segmentTokens).keys
    pageMax := Function.update m.pageMax pageSlot
      ((if pageOffset ≠ 0 then m.pageMax pageSlot else ⊥) ⊔ listMax (segmentTokens.map Prod.snd))
    pageMin := Function.update m.pageMin pageSlot
      ((if pageOffset ≠ 0 then m.pageMin pageSlot else ⊤) ⊓ listMin (segmentTokens.map Prod.snd)) }

/-- `store_prefill_kvcache_with_quest_metadata`: a program per segment. -/
def storePrefillKvcacheWithQuestMetadata (tokens : List (Int × K)) (segments : List (Nat × Nat))
    (m : PagedStore K) : PagedStore K :=
  segments.foldl (fun m segment => storePrefillKernel g tokens segment m) m

end Kernels

/-! ## `on_kv_stored` -/

/-- `torch.unique_consecutive(return_counts=True)`. -/
def uniqueConsecutive : List Int → List (Int × Nat)
  | [] => []
  | page :: rest =>
    match uniqueConsecutive rest with
    | [] => [(page, 1)]
    | (next, count) :: runs =>
      if next = page then (page, count + 1) :: runs else (page, 1) :: (next, count) :: runs

/-- The pages of the runs, each with its `end_offsets`; `runStart` is that of the first run. -/
def runEnds (g : QuestGeometry) (slotMapping : List Int) : Nat → List (Int × Nat) → List (Int × Nat)
  | _, [] => []
  | runStart, (page, count) :: runs =>
    (page, (slotMapping.getD runStart 0 % g.pageSize).toNat + count) ::
      runEnds g slotMapping (runStart + count) runs

section OnKvStored

variable [Lattice K] [BoundedOrder K] (g : QuestGeometry)

/-- The full-page branch: the bounds of the `k`-th page of the batch, from the keys of its slots. -/
def boundFullPage (slotMapping : List Int) (k : Nat) (m : PagedStore K) : PagedStore K :=
  let page := slotMapping.getD (k * g.pageSize) 0 / g.pageSize
  let fullPageK := ((slotMapping.drop (k * g.pageSize)).take g.pageSize).map m.keys
  { m with
    pageMax := Function.update m.pageMax page (listMax fullPageK)
    pageMin := Function.update m.pageMin page (listMin fullPageK) }

/-- `on_kv_stored` after a prefill of MLA latents. -/
def onKvStored (plan : QuestPrefillPlan) (m : PagedStore K) : PagedStore K :=
  if plan.metadataFullPages then
    (List.range (plan.slotMapping.length / g.pageSize)).foldl
      (fun m k => boundFullPage g plan.slotMapping k m) m
  else
    let runs := uniqueConsecutive (plan.slotMapping.map (· / (g.pageSize : Int)))
    m.reboundAll g.pageSize
      ((runEnds g plan.slotMapping 0 runs).map fun run => (run.1, min g.pageSize run.2))

end OnKvStored

/-! ## The stores of a layer -/

/-- `attention_cache_storage`. -/
inductive QuestStorage where
  | explicitKv
  | mlaLatent
  deriving DecidableEq, Repr

/-- The slots that the decode kernels do not skip. -/
def QuestStorage.stores (storage : QuestStorage) (cacheSlotCount : Nat) (slot : Int) : Bool :=
  match storage with
  | .explicitKv => slot != -1
  | .mlaLatent => validSlot cacheSlotCount slot

section Stores

variable [Lattice K] [BoundedOrder K] (g : QuestGeometry) (cacheSlotCount : Nat)

/-- `store_attention_payload` and `on_kv_stored` of a prefill step. -/
def storePrefill (storage : QuestStorage) (plan : QuestPrefillPlan) (keys : List K)
    (m : PagedStore K) : PagedStore K :=
  match storage with
  | .explicitKv =>
    storePrefillKvcacheWithQuestMetadata g (plan.slotMapping.zip keys) plan.segments m
  | .mlaLatent =>
    onKvStored g plan (copyLatentToCache cacheSlotCount (plan.slotMapping.zip keys) m)

/-- `store_attention_payload` of a decode step. -/
def storeDecode (storage : QuestStorage) (slotMapping : List Int) (keys : List K)
    (m : PagedStore K) : PagedStore K :=
  match storage with
  | .explicitKv => storeKvcacheWithQuestMetadata g (slotMapping.zip keys) m
  | .mlaLatent =>
    copyLatentToCacheWithQuestMetadata g cacheSlotCount (slotMapping.zip keys) m

end Stores

/-! ## Pieces of a chunk -/

/-- The parts of a chunk that lie in one page each; `pages` are those of the row. -/
def chunkPieces (g : QuestGeometry) (pages : Nat → Int) (startIdx : Nat) (keys : List K) :
    List (PagePiece K) :=
  if keys = [] then []
  else
    let segmentSize := g.pageSize - startIdx % g.pageSize
    ⟨pages (startIdx / g.pageSize), startIdx % g.pageSize, keys.take segmentSize⟩ ::
      chunkPieces g pages (startIdx + min keys.length segmentSize) (keys.drop segmentSize)
termination_by keys.length
decreasing_by
  have := Nat.mod_lt startIdx g.positive
  have := List.length_pos_iff.mpr ‹¬keys = []›
  rw [List.length_drop]
  omega

/-- The slot of position `i` of a row with pages `pages`. -/
def pageSlot (g : QuestGeometry) (pages : Nat → Int) (i : Nat) : Int :=
  pages (i / g.pageSize) * g.pageSize + (i % g.pageSize : Nat)

/-- The segments of consecutive pieces. -/
def pieceSegments : Nat → List (PagePiece K) → List (Nat × Nat)
  | _, [] => []
  | tokenOffset, p :: pieces =>
    (tokenOffset, p.entries.length) :: pieceSegments (tokenOffset + p.entries.length) pieces

section Pieces

variable {g : QuestGeometry} {pages : Nat → Int} {startIdx : Nat} {keys : List K}

theorem fits_chunkPieces : ∀ p ∈ chunkPieces g pages startIdx keys, p.Fits g.pageSize := by
  fun_induction chunkPieces g pages startIdx keys with
  | case1 => exact fun p hp => absurd hp List.not_mem_nil
  | case2 startIdx keys hne segmentSize ih =>
    intro p hp
    rcases List.mem_cons.mp hp with rfl | hp
    · have hlt := Nat.mod_lt startIdx g.positive
      have hpos := List.length_pos_iff.mpr hne
      constructor
      · rw [← List.length_pos_iff, List.length_take]
        omega
      · show startIdx % g.pageSize + (keys.take segmentSize).length ≤ g.pageSize
        rw [List.length_take]
        omega
    · exact ih p hp

/-- The page of a piece, and where it is in the row. -/
theorem exists_column : ∀ p ∈ chunkPieces g pages startIdx keys,
    ∃ col, startIdx / g.pageSize ≤ col ∧ p.page = pages col ∧
      p.offset = startIdx - col * g.pageSize ∧
      col * g.pageSize + p.stop ≤ startIdx + keys.length := by
  fun_induction chunkPieces g pages startIdx keys with
  | case1 => exact fun p hp => absurd hp List.not_mem_nil
  | case2 startIdx keys hne segmentSize ih =>
    have hdiv := Nat.div_add_mod startIdx g.pageSize
    have hlt := Nat.mod_lt startIdx g.positive
    rw [Nat.mul_comm] at hdiv
    intro p hp
    rcases List.mem_cons.mp hp with rfl | hp
    · refine ⟨startIdx / g.pageSize, le_refl _, rfl, ?_, ?_⟩
      · show startIdx % g.pageSize = _
        omega
      · show _ + (startIdx % g.pageSize + (keys.take segmentSize).length) ≤ _
        rw [List.length_take]
        omega
    · obtain ⟨col, hcol, hpage, hoffset, hstop⟩ := ih p hp
      have hmore : segmentSize < keys.length := by
        by_contra hle
        rw [List.drop_eq_nil_of_le (not_lt.mp hle)] at hp
        unfold chunkPieces at hp
        exact List.not_mem_nil hp
      rw [min_eq_right hmore.le] at hcol hoffset hstop
      have hnext : startIdx + segmentSize = (startIdx / g.pageSize + 1) * g.pageSize := by
        rw [Nat.succ_mul]
        omega
      rw [hnext, Nat.mul_div_cancel _ g.positive] at hcol
      have hbound := Nat.mul_le_mul_right g.pageSize hcol
      rw [List.length_drop] at hstop
      exact ⟨col, by omega, hpage, by omega, by omega⟩

/-- Every page that the chunk reaches has a piece, which ends where the chunk does or the page. -/
theorem exists_piece {col : Nat} (hne : keys ≠ []) (hcol : startIdx / g.pageSize ≤ col)
    (hlast : col * g.pageSize < startIdx + keys.length) :
    ∃ p ∈ chunkPieces g pages startIdx keys, p.page = pages col ∧
      p.stop = min g.pageSize (startIdx + keys.length - col * g.pageSize) := by
  fun_induction chunkPieces g pages startIdx keys with
  | case1 => exact absurd rfl hne
  | case2 startIdx keys hkeys segmentSize ih =>
    have hdiv := Nat.div_add_mod startIdx g.pageSize
    have hlt := Nat.mod_lt startIdx g.positive
    rw [Nat.mul_comm] at hdiv
    rcases Nat.eq_or_lt_of_le hcol with heq | hnext
    · refine ⟨_, List.mem_cons_self, congrArg pages heq, ?_⟩
      show startIdx % g.pageSize + (keys.take segmentSize).length = _
      rw [List.length_take, ← heq]
      omega
    · have hbound : (startIdx / g.pageSize + 1) * g.pageSize ≤ col * g.pageSize :=
        Nat.mul_le_mul_right _ hnext
      have hstart : startIdx + segmentSize = (startIdx / g.pageSize + 1) * g.pageSize := by
        rw [Nat.succ_mul]
        omega
      have hmore : segmentSize < keys.length := by omega
      have hlen : (keys.drop segmentSize).length = keys.length - segmentSize := List.length_drop
      rw [min_eq_right hmore.le] at ih ⊢
      obtain ⟨p, hp, hpage, hstop⟩ := ih
        (List.ne_nil_of_length_pos (by rw [hlen]; omega))
        (by rw [hstart, Nat.mul_div_cancel _ g.positive]; exact hnext) (by rw [hlen]; omega)
      refine ⟨p, List.mem_cons_of_mem _ hp, hpage, ?_⟩
      rw [hstop, hlen]
      omega

/-- The pieces lie in different pages, as the columns of the row do. -/
theorem nodup_chunkPieces
    (hpages : ∀ {col col'}, startIdx / g.pageSize ≤ col → startIdx / g.pageSize ≤ col' →
      col < g.pagesFor (startIdx + keys.length) → col' < g.pagesFor (startIdx + keys.length) →
      pages col = pages col' → col = col') :
    ((chunkPieces g pages startIdx keys).map PagePiece.page).Nodup := by
  fun_induction chunkPieces g pages startIdx keys with
  | case1 => exact List.nodup_nil
  | case2 startIdx keys hne segmentSize ih =>
    have hdiv := Nat.div_add_mod startIdx g.pageSize
    have hlt := Nat.mod_lt startIdx g.positive
    rw [Nat.mul_comm] at hdiv
    have hlen : startIdx + min keys.length segmentSize + (keys.drop segmentSize).length =
        startIdx + keys.length := by
      rw [List.length_drop]
      omega
    have hle : startIdx / g.pageSize ≤ (startIdx + min keys.length segmentSize) / g.pageSize :=
      Nat.div_le_div_right (Nat.le_add_right _ _)
    rw [hlen] at ih
    rw [List.map_cons, List.nodup_cons]
    refine ⟨fun hin => ?_, ih fun h h' => hpages (hle.trans h) (hle.trans h')⟩
    obtain ⟨p, hp, hpage⟩ := List.mem_map.mp hin
    obtain ⟨col, hcol, hcolumn, hoffset, hstop⟩ := exists_column p hp
    have hfits := fits_chunkPieces p hp
    have hpos := List.length_pos_iff.mpr hfits.nonempty
    unfold PagePiece.stop at hstop
    have hneeded : col < g.pagesFor (startIdx + keys.length) := g.lt_pagesFor.mpr (by omega)
    have hfirst := Nat.lt_of_le_of_lt (hle.trans hcol) hneeded
    have hsame := hpages (le_refl _) (hle.trans hcol) hfirst hneeded (hpage.symm.trans hcolumn)
    have hmore : segmentSize < keys.length := by
      by_contra hge
      rw [List.drop_eq_nil_of_le (not_lt.mp hge)] at hp
      unfold chunkPieces at hp
      exact List.not_mem_nil hp
    have hnext : startIdx + segmentSize = (startIdx / g.pageSize + 1) * g.pageSize := by
      rw [Nat.succ_mul]
      omega
    rw [min_eq_right hmore.le, hnext, Nat.mul_div_cancel _ g.positive] at hcol
    omega

theorem pageSlot_column {col offset : Nat} (h : offset < g.pageSize) :
    pageSlot g pages (col * g.pageSize + offset) = pages col * g.pageSize + offset := by
  unfold pageSlot
  rw [Nat.mul_comm, Nat.mul_add_div g.positive, Nat.div_eq_of_lt h, Nat.add_zero, Nat.mul_add_mod,
    Nat.mod_eq_of_lt h]

/-- The slots from an offset of a page on are those of the positions from there on. -/
theorem slotsFrom_eq {entries : List K} (col : Nat) :
    ∀ {offset : Nat}, offset + entries.length ≤ g.pageSize →
      slotsFrom g.pageSize (pages col) offset entries =
        ((List.range' (col * g.pageSize + offset) entries.length).map (pageSlot g pages)).zip
          entries := by
  induction entries with
  | nil => exact fun _ => rfl
  | cons key rest ih =>
    intro offset hinside
    rw [List.length_cons] at hinside
    rw [List.length_cons, List.range'_succ, List.map_cons, List.zip_cons_cons,
      pageSlot_column (by omega), Nat.add_assoc, ← ih (by omega)]
    rfl

/-- The tokens of the pieces are the keys with their slots. -/
theorem tokens_chunkPieces :
    (chunkPieces g pages startIdx keys).flatMap (fun p => p.tokens g.pageSize) =
      ((List.range' startIdx keys.length).map (pageSlot g pages)).zip keys := by
  fun_induction chunkPieces g pages startIdx keys with
  | case1 => rfl
  | case2 startIdx keys hne segmentSize ih =>
    have hdiv := Nat.div_add_mod startIdx g.pageSize
    have hlt := Nat.mod_lt startIdx g.positive
    rw [Nat.mul_comm] at hdiv
    have hsplit : List.range' startIdx keys.length =
        List.range' startIdx (keys.take segmentSize).length ++
          List.range' (startIdx + min keys.length segmentSize) (keys.drop segmentSize).length := by
      rw [List.length_take, List.length_drop, min_comm, List.range'_append_1]
      congr 1
      omega
    have hinside : startIdx % g.pageSize + (keys.take segmentSize).length ≤ g.pageSize := by
      rw [List.length_take]
      omega
    have hfirst : slotsFrom g.pageSize (pages (startIdx / g.pageSize)) (startIdx % g.pageSize)
        (keys.take segmentSize) = ((List.range' startIdx (keys.take segmentSize).length).map
          (pageSlot g pages)).zip (keys.take segmentSize) := by
      rw [slotsFrom_eq _ hinside, hdiv]
    rw [List.flatMap_cons, ih, hsplit, List.map_append]
    show slotsFrom _ _ _ _ ++ _ = _
    rw [hfirst, ← List.zip_append (by rw [List.length_map, List.length_range']),
      List.take_append_drop]

theorem pieceSegments_append (size tokenOffset : Nat) (pieces pieces' : List (PagePiece K)) :
    pieceSegments tokenOffset (pieces ++ pieces') = pieceSegments tokenOffset pieces ++
      pieceSegments (tokenOffset + (pieces.flatMap fun p => p.tokens size).length) pieces' := by
  induction pieces generalizing tokenOffset with
  | nil => rfl
  | cons p pieces ih =>
    have hlength : (p.tokens size).length = p.entries.length := length_slotsFrom ..
    rw [List.flatMap_cons, List.length_append, hlength, ← Nat.add_assoc]
    exact congrArg (_ :: ·) (ih _)

/-- The page plan of a chunk lists its pieces. -/
theorem pageSegments_eq (tokenOffset : Nat) :
    pageSegments g tokenOffset startIdx keys.length =
      pieceSegments tokenOffset (chunkPieces g pages startIdx keys) := by
  fun_induction chunkPieces g pages startIdx keys generalizing tokenOffset with
  | case1 =>
    unfold pageSegments
    rfl
  | case2 startIdx keys hne segmentSize ih =>
    have hpos := List.length_pos_iff.mpr hne
    have hrest := ih (tokenOffset + min keys.length segmentSize)
    rw [List.length_drop] at hrest
    have hsub : keys.length - min keys.length segmentSize = keys.length - segmentSize := by omega
    unfold pageSegments
    rw [if_neg (by omega)]
    simp only [pieceSegments, List.length_take, min_comm segmentSize]
    rw [← hrest, ← hsub]

/-- In a chunk of full pages the pieces are full pages. -/
theorem chunkPieces_full (hstart : startIdx % g.pageSize = 0)
    (hsize : keys.length % g.pageSize = 0) :
    ∀ p ∈ chunkPieces g pages startIdx keys, p.offset = 0 ∧ p.entries.length = g.pageSize := by
  fun_induction chunkPieces g pages startIdx keys with
  | case1 => exact fun p hp => absurd hp List.not_mem_nil
  | case2 startIdx keys hne segmentSize ih =>
    have hpos := List.length_pos_iff.mpr hne
    have hsegment : segmentSize = g.pageSize := by
      show g.pageSize - startIdx % g.pageSize = _
      rw [hstart, Nat.sub_zero]
    have hle : g.pageSize ≤ keys.length := Nat.le_of_dvd hpos (Nat.dvd_of_mod_eq_zero hsize)
    rw [hsegment, min_eq_right hle, Nat.add_mod_right, List.length_drop] at ih
    intro p hp
    rcases List.mem_cons.mp hp with rfl | hp
    · refine ⟨hstart, ?_⟩
      rw [hsegment, List.length_take, min_eq_left hle]
    · rw [hsegment, min_eq_right hle] at hp
      refine ih hstart ?_ p hp
      rw [← Nat.mod_eq_sub_mod hle]
      exact hsize

end Pieces

/-! ## The writers store the pieces -/

section Runs

variable {g : QuestGeometry} {p : PagePiece K} {pieces : List (PagePiece K)}

/-- The first token of a piece is in the slot of its offset. -/
theorem exists_first_token (hfits : p.Fits g.pageSize) :
    ∃ key rest, p.tokens g.pageSize = (p.page * g.pageSize + p.offset, key) :: rest ∧
      (p.page * g.pageSize + p.offset) / g.pageSize = p.page ∧
      (p.page * g.pageSize + p.offset) % g.pageSize = p.offset := by
  obtain ⟨key, rest, hcons⟩ := List.exists_cons_of_ne_nil hfits.nonempty
  have hstop := hfits.inside
  have hpos := List.length_pos_iff.mpr hfits.nonempty
  unfold PagePiece.stop at hstop
  have hoffset : p.offset < g.pageSize := by omega
  refine ⟨key, slotsFrom g.pageSize p.page (p.offset + 1) rest, ?_, slot_div hoffset,
    slot_mod hoffset⟩
  unfold PagePiece.tokens
  rw [hcons]
  rfl

theorem uniqueConsecutive_replicate {page : Int} {rest : List Int}
    (hrest : ∀ run ∈ (uniqueConsecutive rest).head?, run.1 ≠ page) (count : Nat) :
    uniqueConsecutive (List.replicate (count + 1) page ++ rest) =
      (page, count + 1) :: uniqueConsecutive rest := by
  induction count with
  | zero =>
    rw [Nat.zero_add, List.replicate_one, List.singleton_append, uniqueConsecutive]
    cases hruns : uniqueConsecutive rest with
    | nil => rfl
    | cons run runs =>
      rw [hruns] at hrest
      exact if_neg (hrest run rfl)
  | succ count ih =>
    rw [List.replicate_succ, List.cons_append, uniqueConsecutive, ih]
    exact if_pos rfl

/-- The slots of a piece lie in its page. -/
theorem pages_tokens (hfits : p.Fits g.pageSize) :
    ((p.tokens g.pageSize).map Prod.fst).map (· / (g.pageSize : Int)) =
      List.replicate p.entries.length p.page := by
  have hstop := hfits.inside
  unfold PagePiece.stop at hstop
  refine List.eq_replicate_iff.mpr ⟨?_, fun page hpage => ?_⟩
  · rw [List.length_map, List.length_map]
    exact length_slotsFrom ..
  · obtain ⟨slot, hslot, rfl⟩ := List.mem_map.mp hpage
    obtain ⟨token, htoken, rfl⟩ := List.mem_map.mp hslot
    obtain ⟨j, hj, rfl⟩ := mem_slotsFrom htoken
    exact slot_div (by omega)

/-- The runs of pieces of different pages. -/
theorem uniqueConsecutive_pieces (hfits : ∀ p ∈ pieces, p.Fits g.pageSize)
    (hnd : (pieces.map PagePiece.page).Nodup) :
    uniqueConsecutive (((pieces.flatMap fun p => p.tokens g.pageSize).map Prod.fst).map
        (· / (g.pageSize : Int))) = pieces.map fun p => (p.page, p.entries.length) := by
  induction pieces with
  | nil => rfl
  | cons p pieces ih =>
    obtain ⟨hout, hnd⟩ := List.nodup_cons.mp hnd
    have hp := hfits p List.mem_cons_self
    have hruns := ih (fun q hq => hfits q (List.mem_cons_of_mem _ hq)) hnd
    obtain ⟨count, hcount⟩ := Nat.exists_eq_add_of_lt (List.length_pos_iff.mpr hp.nonempty)
    rw [Nat.zero_add] at hcount
    rw [List.flatMap_cons, List.map_append, List.map_append, pages_tokens hp, hcount,
      uniqueConsecutive_replicate, hruns, List.map_cons, hcount]
    intro run hrun heq
    rw [hruns] at hrun
    obtain ⟨q, hq, rfl⟩ := List.mem_map.mp (List.mem_of_mem_head? hrun)
    exact hout (heq ▸ List.mem_map_of_mem hq)

/-- The ends of the runs are those of the pieces. -/
theorem runEnds_pieces (hfits : ∀ p ∈ pieces, p.Fits g.pageSize) (before : List Int) :
    runEnds g (before ++ (pieces.flatMap fun p => p.tokens g.pageSize).map Prod.fst) before.length
        (pieces.map fun p => (p.page, p.entries.length)) =
      pieces.map fun p => (p.page, p.stop) := by
  induction pieces generalizing before with
  | nil => rfl
  | cons p pieces ih =>
    obtain ⟨key, rest, hfirst, -, hmod⟩ := exists_first_token (hfits p List.mem_cons_self)
    have hlength : ((p.tokens g.pageSize).map Prod.fst).length = p.entries.length := by
      rw [List.length_map]
      exact length_slotsFrom ..
    have hrest := ih (fun q hq => hfits q (List.mem_cons_of_mem _ hq))
      (before ++ (p.tokens g.pageSize).map Prod.fst)
    rw [List.append_assoc, List.length_append, hlength] at hrest
    have hslot : (before ++ ((p.tokens g.pageSize).map Prod.fst ++
        (pieces.flatMap fun p => p.tokens g.pageSize).map Prod.fst)).getD before.length 0 =
          p.page * g.pageSize + p.offset := by
      rw [List.getD_append_right _ _ _ _ (le_refl _), Nat.sub_self, hfirst]
      rfl
    rw [List.flatMap_cons, List.map_append, List.map_cons, List.map_cons, runEnds, hrest, hslot, hmod,
      Int.toNat_natCast]
    rfl

theorem length_pieces_full (hfull : ∀ p ∈ pieces, p.offset = 0 ∧ p.entries.length = g.pageSize) :
    ((pieces.flatMap fun p => p.tokens g.pageSize).map Prod.fst).length = pieces.length * g.pageSize := by
  induction pieces with
  | nil => rw [List.length_nil, Nat.zero_mul]; rfl
  | cons p pieces ih =>
    have hp : (p.tokens g.pageSize).length = g.pageSize :=
      (length_slotsFrom ..).trans (hfull p List.mem_cons_self).2
    have hrest := ih fun q hq => hfull q (List.mem_cons_of_mem _ hq)
    rw [List.flatMap_cons, List.map_append, List.length_append, hrest, List.length_map, hp,
      List.length_cons, Nat.succ_mul, Nat.add_comm]

/-- When all slots are valid, the latents are stored. -/
theorem copyLatentToCache_eq {m : PagedStore K} {cacheSlotCount : Nat} {tokens : List (Int × K)}
    (hvalid : ∀ token ∈ tokens, validSlot cacheSlotCount token.1 = true) :
    copyLatentToCache cacheSlotCount tokens m = m.store tokens := by
  unfold copyLatentToCache
  rw [List.filter_eq_self.mpr hvalid]

end Runs

section Writers

variable [Lattice K] [BoundedOrder K] {g : QuestGeometry} {p : PagePiece K}
  {pieces : List (PagePiece K)} {m : PagedStore K}

/-- The program of the segment of a piece. -/
theorem storePrefillKernel_piece (hfits : p.Fits g.pageSize) (before after : List (Int × K)) :
    storePrefillKernel g (before ++ (p.tokens g.pageSize ++ after)) (before.length, p.entries.length) m =
      m.writePiece g.pageSize p := by
  obtain ⟨key, rest, hfirst, hdiv, hmod⟩ := exists_first_token hfits
  have hlength : (p.tokens g.pageSize).length = p.entries.length := length_slotsFrom ..
  have hsegment : ((before ++ (p.tokens g.pageSize ++ after)).drop before.length).take
      p.entries.length = p.tokens g.pageSize := by
    rw [List.drop_left, ← hlength, List.take_left]
  have hslot : ((before ++ (p.tokens g.pageSize ++ after)).map Prod.fst).getD before.length 0 =
      p.page * g.pageSize + p.offset := by
    rw [List.map_append, List.getD_append_right _ _ _ _ (by rw [List.length_map]), List.length_map,
      Nat.sub_self, hfirst]
    rfl
  have hkeys : (p.tokens g.pageSize).map Prod.snd = p.entries := map_snd_slotsFrom ..
  have hzero : ((p.offset : Int) ≠ 0) = ¬(p.offset = 0) := by
    rw [ne_eq, Int.natCast_eq_zero]
  unfold storePrefillKernel
  simp only [hsegment, hslot, hdiv, hmod, hkeys, hzero, ite_not]
  rfl

/-- The fused prefill kernel stores the pieces its segments are. -/
theorem storePrefill_segments (hfits : ∀ p ∈ pieces, p.Fits g.pageSize)
    (before : List (Int × K)) :
    storePrefillKvcacheWithQuestMetadata g
        (before ++ pieces.flatMap fun p => p.tokens g.pageSize)
        (pieceSegments before.length pieces) m = m.writePieces g.pageSize pieces := by
  induction pieces generalizing before m with
  | nil => rfl
  | cons p pieces ih =>
    have hlength : (p.tokens g.pageSize).length = p.entries.length := length_slotsFrom ..
    have hrest := ih (m := m.writePiece g.pageSize p)
      (fun q hq => hfits q (List.mem_cons_of_mem _ hq)) (before ++ p.tokens g.pageSize)
    rw [List.append_assoc, List.length_append, hlength] at hrest
    rw [PagedStore.writePieces_cons, ← hrest, List.flatMap_cons]
    show List.foldl _ (storePrefillKernel g _ _ m) _ = _
    rw [storePrefillKernel_piece (hfits p List.mem_cons_self)]
    rfl

/-- A program of a decode kernel stores a piece of one key. -/
theorem storeTokenWithQuestMetadata_piece {valid : Int → Bool} {page : Int} {offset : Nat} {key : K}
    (hoffset : offset < g.pageSize) (hvalid : valid (page * g.pageSize + offset) = true) :
    storeTokenWithQuestMetadata g valid (page * g.pageSize + offset, key) m =
      m.writePiece g.pageSize ⟨page, offset, [key]⟩ := by
  have hdiv : (page * g.pageSize + (offset : Int)) / g.pageSize = page := slot_div hoffset
  have hmod : (page * g.pageSize + (offset : Int)) % g.pageSize = offset := slot_mod hoffset
  have hzero : ((offset : Int) ≠ 0) = ¬(offset = 0) := by
    rw [ne_eq, Int.natCast_eq_zero]
  unfold storeTokenWithQuestMetadata PagedStore.writePiece listMax listMin
  simp only [hvalid, hdiv, hmod, hzero, ite_not, if_true, List.foldr, sup_bot_eq, inf_top_eq]
  rfl

/-! ### MLA latents -/

/-- The bounds of a full page are those of all its slots. -/
theorem boundFullPage_piece {before after : List Int} {k : Nat} (hbefore : before.length = k * g.pageSize)
    (hfits : p.Fits g.pageSize) (hoffset : p.offset = 0) (hfull : p.entries.length = g.pageSize) :
    boundFullPage g (before ++ ((p.tokens g.pageSize).map Prod.fst ++ after)) k m =
      m.rebound g.pageSize p.page g.pageSize := by
  obtain ⟨key, rest, hfirst, hdiv, -⟩ := exists_first_token hfits
  have hlength : ((p.tokens g.pageSize).map Prod.fst).length = g.pageSize := by
    rw [List.length_map, ← hfull]
    exact length_slotsFrom ..
  have hslots : (((before ++ ((p.tokens g.pageSize).map Prod.fst ++ after)).drop
      (k * g.pageSize)).take g.pageSize).map m.keys =
        (List.range g.pageSize).map fun i : Nat => m.keys (p.page * g.pageSize + i) := by
    rw [← hbefore, List.drop_left, List.take_left' hlength]
    unfold PagePiece.tokens
    rw [map_fst_slotsFrom, hoffset, hfull, List.map_map, List.range_eq_range']
    rfl
  have hslot : (before ++ ((p.tokens g.pageSize).map Prod.fst ++ after)).getD (k * g.pageSize) 0 =
      p.page * g.pageSize + p.offset := by
    rw [← hbefore, List.getD_append_right _ _ _ _ (le_refl _), Nat.sub_self, hfirst]
    rfl
  unfold boundFullPage PagedStore.rebound
  simp only [hslots, hslot, hdiv, listMax_range, listMin_range]

/-- The full-page branch bounds the pages of the pieces. -/
theorem boundFullPages_pieces (hfits : ∀ p ∈ pieces, p.Fits g.pageSize)
    (hfull : ∀ p ∈ pieces, p.offset = 0 ∧ p.entries.length = g.pageSize) {before : List Int} {k : Nat}
    (hbefore : before.length = k * g.pageSize) :
    (List.range' k pieces.length).foldl (fun m k => boundFullPage g
        (before ++ (pieces.flatMap fun p => p.tokens g.pageSize).map Prod.fst) k m) m =
      m.reboundAll g.pageSize (pieces.map fun p => (p.page, p.stop)) := by
  induction pieces generalizing before k m with
  | nil => rfl
  | cons p pieces ih =>
    obtain ⟨hoffset, hlength⟩ := hfull p List.mem_cons_self
    have hslots : ((p.tokens g.pageSize).map Prod.fst).length = g.pageSize := by
      rw [List.length_map, ← hlength]
      exact length_slotsFrom ..
    have hnext : (before ++ (p.tokens g.pageSize).map Prod.fst).length = (k + 1) * g.pageSize := by
      rw [List.length_append, hbefore, hslots, Nat.succ_mul]
    have hrest := ih (m := m.rebound g.pageSize p.page g.pageSize)
      (fun q hq => hfits q (List.mem_cons_of_mem _ hq))
      (fun q hq => hfull q (List.mem_cons_of_mem _ hq)) hnext
    have hstop : p.stop = g.pageSize := by
      unfold PagePiece.stop
      rw [hoffset, hlength, Nat.zero_add]
    rw [List.append_assoc] at hrest
    rw [List.length_cons, List.range'_succ, List.foldl_cons, List.flatMap_cons, List.map_append,
      boundFullPage_piece hbefore (hfits p List.mem_cons_self) hoffset hlength, hrest, List.map_cons,
      hstop]
    rfl

/-! ### The stores of a step -/

/-- A plan describes pieces: their slots, their segments, and whether they are full pages. -/
structure QuestPrefillPlan.Describes (g : QuestGeometry) (plan : QuestPrefillPlan)
    (pieces : List (PagePiece K)) : Prop where
  slots : plan.slotMapping = (pieces.flatMap fun p => p.tokens g.pageSize).map Prod.fst
  segments : plan.segments = pieceSegments 0 pieces
  full : plan.metadataFullPages = true →
    ∀ p ∈ pieces, p.offset = 0 ∧ p.entries.length = g.pageSize

/-- **A prefill step stores the pieces of its batch**, whatever the storage and the branch. -/
theorem storePrefill_pieces {storage : QuestStorage} {cacheSlotCount : Nat}
    {plan : QuestPrefillPlan} {keys : List K}
    (hplan : plan.Describes g pieces)
    (htokens : plan.slotMapping.zip keys = pieces.flatMap fun p => p.tokens g.pageSize)
    (hfits : ∀ p ∈ pieces, p.Fits g.pageSize) (hnd : (pieces.map PagePiece.page).Nodup)
    (hexact : ∀ p ∈ pieces, p.offset ≠ 0 → m.Exact g.pageSize p.page p.offset)
    (hvalid : ∀ slot ∈ plan.slotMapping, validSlot cacheSlotCount slot = true) :
    storePrefill g cacheSlotCount storage plan keys m = m.writePieces g.pageSize pieces := by
  cases storage with
  | explicitKv =>
    have hstored := storePrefill_segments (m := m) hfits []
    unfold storePrefill
    rw [htokens, hplan.segments]
    exact hstored
  | mlaLatent =>
    have hall : ∀ token ∈ plan.slotMapping.zip keys, validSlot cacheSlotCount token.1 = true :=
      fun token htoken => hvalid _ (List.of_mem_zip htoken).1
    unfold storePrefill onKvStored
    dsimp only
    rw [copyLatentToCache_eq hall, htokens, ← PagedStore.reboundAll_eq hfits hnd hexact]
    split
    · rename_i hfull
      have hpages := hplan.full hfull
      have hbound := boundFullPages_pieces (m := m.store (pieces.flatMap fun p => p.tokens g.pageSize))
        (k := 0) hfits hpages (show ([] : List Int).length = 0 * g.pageSize from (Nat.zero_mul _).symm)
      rw [hplan.slots, length_pieces_full hpages, Nat.mul_div_cancel _ g.positive, List.range_eq_range']
      exact hbound
    · have hends := runEnds_pieces hfits []
      have hmin : ∀ p ∈ pieces, ((p.page, min g.pageSize p.stop) : Int × Nat) = (p.page, p.stop) :=
        fun p hp => by rw [min_eq_right (hfits p hp).inside]
      rw [List.length_nil, List.nil_append] at hends
      rw [hplan.slots, uniqueConsecutive_pieces hfits hnd, hends, List.map_map]
      exact congrArg (PagedStore.reboundAll g.pageSize · _) (List.map_congr_left hmin)

/-- Both decode kernels run a program per token. -/
theorem storeDecode_eq (storage : QuestStorage) (cacheSlotCount : Nat) (slots : List Int)
    (keys : List K) :
    storeDecode g cacheSlotCount storage slots keys m = (slots.zip keys).foldl
      (fun m token => storeTokenWithQuestMetadata g (storage.stores cacheSlotCount) token m) m := by
  cases storage with
  | explicitKv => rfl
  | mlaLatent => rfl

theorem stores_padding (storage : QuestStorage) (cacheSlotCount : Nat) :
    storage.stores cacheSlotCount (-1) = false := by
  cases storage with
  | explicitKv => rfl
  | mlaLatent => rfl

/-- Padding tokens store nothing. -/
theorem foldl_padding {valid : Int → Bool} (hvalid : valid (-1) = false) (tokens : List (Int × K))
    (hpadding : ∀ token ∈ tokens, token.1 = -1) :
    tokens.foldl (fun m token => storeTokenWithQuestMetadata g valid token m) m = m := by
  induction tokens with
  | nil => rfl
  | cons token rest ih =>
    have hskip : storeTokenWithQuestMetadata g valid token m = m := by
      unfold storeTokenWithQuestMetadata
      rw [hpadding token List.mem_cons_self, hvalid]
      rfl
    rw [List.foldl_cons, hskip]
    exact ih fun t ht => hpadding t (List.mem_cons_of_mem _ ht)

theorem foldl_pieces {valid : Int → Bool} (hfits : ∀ p ∈ pieces, p.Fits g.pageSize)
    (hsingle : ∀ p ∈ pieces, p.entries.length = 1)
    (hvalid : ∀ p ∈ pieces, ∀ token ∈ p.tokens g.pageSize, valid token.1 = true) :
    (pieces.flatMap fun p => p.tokens g.pageSize).foldl
        (fun m token => storeTokenWithQuestMetadata g valid token m) m =
      m.writePieces g.pageSize pieces := by
  induction pieces generalizing m with
  | nil => rfl
  | cons p pieces ih =>
    obtain ⟨page, offset, entries⟩ := p
    obtain ⟨key, rfl⟩ := List.length_eq_one_iff.mp (hsingle _ List.mem_cons_self)
    have hinside : offset + 1 ≤ g.pageSize := (hfits _ List.mem_cons_self).inside
    have hslot : valid (page * g.pageSize + offset) = true :=
      hvalid _ List.mem_cons_self _ List.mem_cons_self
    rw [List.flatMap_cons, List.foldl_append, PagedStore.writePieces_cons,
      ← storeTokenWithQuestMetadata_piece hinside hslot]
    exact ih (fun q hq => hfits q (List.mem_cons_of_mem _ hq))
      (fun q hq => hsingle q (List.mem_cons_of_mem _ hq))
      fun q hq => hvalid q (List.mem_cons_of_mem _ hq)

/-- **A decode step stores a piece of one key for each request**, and nothing for the padding. -/
theorem storeDecode_pieces {storage : QuestStorage} {cacheSlotCount padding : Nat}
    {slots : List Int} {keys : List K}
    (htokens : slots.zip keys = pieces.flatMap fun p => p.tokens g.pageSize)
    (hlength : slots.length ≤ keys.length) (hfits : ∀ p ∈ pieces, p.Fits g.pageSize)
    (hsingle : ∀ p ∈ pieces, p.entries.length = 1)
    (hvalid : ∀ slot ∈ slots, storage.stores cacheSlotCount slot = true) :
    storeDecode g cacheSlotCount storage (slots ++ List.replicate padding (-1)) keys m =
      m.writePieces g.pageSize pieces := by
  have hzip : (slots ++ List.replicate padding (-1)).zip keys =
      slots.zip keys ++ (List.replicate padding (-1)).zip (keys.drop slots.length) := by
    have htake : slots.zip keys = slots.zip (keys.take slots.length) := by
      rw [List.zip_eq_zip_take_min, min_eq_left hlength, List.take_length]
    rw [htake, ← List.zip_append (by rw [List.length_take, min_eq_left hlength]),
      List.take_append_drop]
  have hpieces : ∀ p ∈ pieces, ∀ token ∈ p.tokens g.pageSize,
      storage.stores cacheSlotCount token.1 = true := fun p hp token htoken =>
    hvalid _ (List.of_mem_zip (htokens ▸ List.mem_flatMap.mpr ⟨p, hp, htoken⟩ :
      token ∈ slots.zip keys)).1
  rw [storeDecode_eq, hzip, List.foldl_append, htokens, foldl_pieces hfits hsingle hpieces]
  refine foldl_padding (stores_padding storage cacheSlotCount) _ fun token htoken => ?_
  exact (List.mem_replicate.mp (List.of_mem_zip htoken).1).2

end Writers

end SparseVllm
