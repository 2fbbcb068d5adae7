import SparseVllm.Quest.BoundsRun

/-!
# Paged memory keeps each request's keys

What the pages are for: a request has a list of keys and a block has the keys of a page
(`TokenStore`). A prefix hit copies the keys of its blocks, a batch appends, a commit copies a page of
keys, a demoted block has its keys on the host. No page is shared in it, and nothing is overwritten.

`QuestMemory.contents` reads a layer of the paged memory through the token slots of its rows, as
attention does. Every operation commutes with it:

* `Prepared.contents_store`: storing a prepared batch appends its keys, and overwrites none.
* `Settled.contents_attachPages`, `Settled.contents_keepPage`, `promotePrefixBlock_contents`: pages
  change hands.
* **`quest_memory_refines`**: after every run the rows, the blocks and the host have the keys of the
  `TokenStore` that has done the same.
-/

namespace SparseVllm

open SparseVllm.Lib

/-! ## Keys without pages -/

/-- The keys of each request and of each block. -/
@[ext] structure TokenStore (B K : Type) where
  rows : SeqId → List K
  /-- The blocks of the index, with their keys; those of a demoted block are on the host only. -/
  blocks : B → Option (Option (List K))
  host : B → Option (List K)

namespace TokenStore

variable {B K : Type} [DecidableEq B]

/-- Nothing is stored. -/
def empty : TokenStore B K := ⟨fun _ => [], fun _ => none, fun _ => none⟩

/-- The keys that a block has on the device. -/
def blockKeys (t : TokenStore B K) (b : B) : List K := ((t.blocks b).bind id).getD []

def setRow (seq : SeqId) (keys : List K) (t : TokenStore B K) : TokenStore B K :=
  { t with rows := Function.update t.rows seq keys }

def setBlock (b : B) (keys : Option (Option (List K))) (t : TokenStore B K) : TokenStore B K :=
  { t with blocks := Function.update t.blocks b keys }

/-- A request starts with the keys of its prefix. -/
def attach (seq : SeqId) (chain : List B) (t : TokenStore B K) : TokenStore B K :=
  if chain = [] then t else t.setRow seq (chain.flatMap t.blockKeys)

/-- Blocks leave the index, or their keys leave the device. -/
def makeRoom (evicted demoted : List B) (t : TokenStore B K) : TokenStore B K :=
  demoted.foldl (fun t b => t.setBlock b (some none)) (evicted.foldl (fun t b => t.setBlock b none) t)

/-- Each request of a batch appends its part of the keys. -/
def appendBatch : List (SeqId × Nat) → List K → TokenStore B K → TokenStore B K
  | [], _, t => t
  | (seq, size) :: parts, keys, t =>
    appendBatch parts (keys.drop size) (t.setRow seq (t.rows seq ++ keys.take size))

/-- A new block copies a page of keys of a request. -/
def commit (size : Nat) (seq : SeqId) (col : Nat) (b : B) (t : TokenStore B K) : TokenStore B K :=
  match t.blocks b with
  | some _ => t
  | none => t.setBlock b (some (some (((t.rows seq).drop (col * size)).take size)))

/-- What an operation does to the keys of a layer; `size` is that of a page. -/
def step {L : Type} (size : Nat) (layer : L) (t : TokenStore B K) :
    QuestMemoryOp B L K → TokenStore B K
  | .prefill chunks keys =>
    ((chunks.foldl (fun t chunk => t.makeRoom chunk.evicted chunk.demoted)
      (chunks.foldl (fun t chunk => t.attach chunk.seq chunk.hitChain) t)).appendBatch
        (chunks.map fun chunk => (chunk.seq, chunk.chunkSize)) (keys layer))
  | .decode _ seqs _ evicted demoted keys =>
    (t.makeRoom evicted demoted).appendBatch (seqs.map (·, 1)) (keys layer)
  | .commit seq col b => t.commit size seq col b
  | .makeRoom evicted demoted => t.makeRoom evicted demoted
  | .copyToHost b => { t with host := Function.update t.host b (some (t.blockKeys b)) }
  | .promote b => t.setBlock b (some (t.host b))
  | .free seq => t.setRow seq []

end TokenStore

/-! ## Reading the pages -/

namespace Lib

/-- The entries of a copied page. -/
def PageCopy.entries {K : Type} (size : Nat) (copy : PageCopy K) : List K :=
  (List.range size).map copy.keys

end Lib

namespace QuestPrefixCache

variable {B K : Type} {g : QuestGeometry} {numPages : Nat} {filled : SeqId → Nat}
  {q q' : QuestPrefixCache B} {m m' : PagedStore K} {host : B → Option (PageCopy K)}

/-- The keys of a layer: those of the stored tokens of each request, of the pages of the blocks, and
of the copies. -/
def contents (g : QuestGeometry) (filled : SeqId → Nat) (q : QuestPrefixCache B) (m : PagedStore K)
    (host : B → Option (PageCopy K)) : TokenStore B K where
  rows s := (List.range (filled s)).map fun i => m.keys (pageSlot g (q.cache.pageSlots (q.rowOf s)) i)
  blocks b := (q.blocks b).map fun block => block.blockSlot.map fun page : Nat =>
    (m.copyPage g.pageSize page).entries g.pageSize
  host b := (host b).map (PageCopy.entries g.pageSize)

theorem blockKeys_contents {b : B} {page : Nat} (hpage : q.devicePage b = some page) :
    (contents g filled q m host).blockKeys b = (m.copyPage g.pageSize page).entries g.pageSize := by
  unfold devicePage at hpage
  obtain ⟨block, hblock, hslot⟩ := Option.bind_eq_some_iff.mp hpage
  simp [TokenStore.blockKeys, contents, hblock, hslot]

theorem contents_congr (h : m'.keys = m.keys) :
    contents g filled q m' host = contents g filled q m host := by
  unfold contents PageCopy.entries PagedStore.copyPage
  rw [h]

/-- The slots of the stored tokens stay. -/
theorem Grows.slot_eq {added : SeqId → Nat} (hgrows : Grows g numPages filled added q q')
    (h : Shared g numPages filled q) (s : SeqId) {i : Nat} (hi : i < filled s) :
    pageSlot g (q'.cache.pageSlots (q'.rowOf s)) i = pageSlot g (q.cache.pageSlots (q.rowOf s)) i := by
  have hlt := hi.trans_le (h.filled_le s)
  unfold QuestCache.rowLen at hlt
  cases hrow : q.cache.seqIdToRow s with
  | none =>
    rw [hrow] at hlt
    exact absurd hlt (Nat.not_lt_zero i)
  | some row =>
    rw [hrow] at hlt
    rw [rowOf_eq hrow, rowOf_eq (hgrows.rows hrow)]
    unfold pageSlot
    rw [hgrows.pages hrow (g.div_lt_pagesFor hlt)]

/-- More tokens and fewer blocks leave the keys of the rows. -/
theorem Grows.contents_rows {added : SeqId → Nat} (hgrows : Grows g numPages filled added q q')
    (h : Shared g numPages filled q) :
    (contents g filled q' m host).rows = (contents g filled q m host).rows := by
  funext s
  exact List.map_congr_left fun i hi => by rw [hgrows.slot_eq h s (List.mem_range.mp hi)]

/-! ## Preparing a batch -/

section Prepare

/-- What happens before a batch is stored: requests get `added` tokens, and what is stored changes as
`change` says. -/
structure Changes (g : QuestGeometry) (numPages : Nat) (filled added : SeqId → Nat)
    (m : PagedStore K) (host : B → Option (PageCopy K)) (change : TokenStore B K → TokenStore B K)
    (q q' : QuestPrefixCache B) : Prop where
  grows : Grows g numPages filled added q q'
  keys : contents g filled q' m host = change (contents g filled q m host)

variable (m host) {added added' : SeqId → Nat} {change change' : TokenStore B K → TokenStore B K}
  {q'' : QuestPrefixCache B}

theorem Changes.trans {m host} (h : Changes g numPages filled added m host change q q')
    (h' : Changes g numPages filled added' m host change' q' q'') :
    Changes g numPages filled (fun s => added s + added' s) m host (change' ∘ change) q q'' :=
  ⟨h.grows.trans h'.grows, h'.keys.trans (congrArg change' h.keys)⟩

/-- The blocks stay. -/
theorem Grows.changes (hgrows : Grows g numPages filled added q q') (h : Shared g numPages filled q)
    (hblocks : q'.blocks = q.blocks) : Changes g numPages filled added m host id q q' := by
  refine ⟨hgrows, TokenStore.ext (hgrows.contents_rows h) (funext fun b => ?_) rfl⟩
  unfold contents
  dsimp only [id]
  rw [hblocks]

/-- Room is made block by block. -/
theorem forEach_changes {body : B → QuestPrefixM B Unit}
    {drop : B → TokenStore B K → TokenStore B K}
    (hbody : ∀ {q : QuestPrefixCache B} (b), Shared g numPages filled q →
      Returns (· = q) (body b) fun _ q' => Changes g numPages filled (fun _ => 0) m host (drop b) q q')
    (blocks : List B) : ∀ {q : QuestPrefixCache B}, Shared g numPages filled q →
      Returns (· = q) (forEach blocks body) fun _ q' =>
        Changes g numPages filled (fun _ => 0) m host (fun t => blocks.foldl (fun t b => drop b t) t) q q' := by
  induction blocks with
  | nil =>
    intro q h
    refine Spec.pure fun u hu => ?_
    subst hu
    exact ⟨h.refl, rfl⟩
  | cons b blocks ih =>
    intro q h
    refine Spec.bind (hbody b h) fun _ => Spec.intro fun u hu => ?_
    exact (ih hu.grows.shared).post fun _ v hv => hu.trans hv

variable [DecidableEq B]

theorem freeDevicePrefixBlock_changes (h : Shared g numPages filled q) {after : Option QuestPrefixBlock}
    (hafter : after.bind (·.blockSlot) = none) (b : B) :
    Returns (· = q) (freeDevicePrefixBlock after b) fun _ q' => Changes g numPages filled (fun _ => 0)
      m host (fun t => t.setBlock b (after.map fun _ => none)) q q' := by
  have hblocks : Returns (· = q) (freeDevicePrefixBlock after b) fun _ q' =>
      q'.blocks = Function.update q.blocks b after := by
    refine Spec.get_bind fun t ht => ?_
    subst ht
    refine Spec.raiseIf_bind (fun _ _ _ => trivial) fun _ => ?_
    cases t.devicePage b with
    | none => exact Spec.throw fun _ _ => trivial
    | some page =>
      intro u hu
      subst hu
      rfl
  refine ((freeDevicePrefixBlock_grows h hafter).and hblocks).post fun _ u hu =>
    ⟨hu.1, TokenStore.ext (hu.1.contents_rows h) (funext fun b' => ?_) rfl⟩
  unfold contents TokenStore.setBlock
  dsimp only
  rw [hu.2]
  by_cases heq : b' = b
  · subst heq
    rw [Function.update_self, Function.update_self]
    cases after with
    | none => rfl
    | some block =>
      have hslot : block.blockSlot = none := hafter
      simp [hslot]
  · rw [Function.update_of_ne heq, Function.update_of_ne heq]

/-- `_evict_prefix_cache_until_free`. -/
theorem evictPrefixCacheUntilFree_changes (h : Shared g numPages filled q) (evicted demoted : List B) :
    Returns (· = q) (evictPrefixCacheUntilFree evicted demoted) fun _ q' =>
      Changes g numPages filled (fun _ => 0) m host (TokenStore.makeRoom evicted demoted) q q' := by
  refine Spec.bind (forEach_changes m host (fun b hq => freeDevicePrefixBlock_changes m host hq rfl b) evicted h)
    fun _ => Spec.intro fun u hu => ?_
  exact (forEach_changes m host (fun b hq => freeDevicePrefixBlock_changes m host hq rfl b) demoted
    hu.grows.shared).post fun _ v hv => hu.trans hv

omit [DecidableEq B] in
/-- The allocator does not touch what is stored. -/
theorem onAllocator_changes {α : Type} {n : QuestM α} (h : Shared g numPages filled q)
    (hn : Returns (· = q.cache) n fun _ c => Grows g numPages filled added q (q.withCache c)) :
    Returns (· = q) (onAllocator n) fun _ q' => Changes g numPages filled added m host id q q' := by
  refine (onAllocator_returns hn).post fun _ v hv => ?_
  obtain ⟨c, rfl, hc⟩ := hv
  exact hc.changes m host h rfl

/-- A request of `_prepare_prefill`. -/
theorem prepareChunk_changes (h : Shared g numPages filled q) (chunk : QuestChunk B) :
    Returns (· = q) (prepareChunk g chunk) fun _ q' =>
      Changes g numPages filled (fun s => if s = chunk.seq then chunk.chunkSize else 0) m host
        (TokenStore.makeRoom chunk.evicted chunk.demoted) q q' := by
  refine Spec.bind (evictPrefixCacheUntilFree_changes m host h chunk.evicted chunk.demoted) fun _ =>
    Spec.intro fun u hu => ?_
  refine Spec.bind (onAllocator_changes m host hu.grows.shared ((preparePrefillRow_grows hu.grows.shared
    chunk.seq chunk.startIdx chunk.chunkSize).post fun _ _ hc => hc.1.1)) fun _ =>
      Spec.get_bind fun v hv => Spec.pure fun w hw => ?_
  subst hw
  have htotal := hu.trans hv
  exact { htotal with grows := { htotal.grows with
    lens := fun s => (htotal.grows.lens s).trans (by rw [Nat.zero_add]) } }

/-- The loop of `_prepare_prefill`. -/
theorem prepareChunks_changes (chunks : List (QuestChunk B)) : ∀ {q : QuestPrefixCache B}
    (tokenOffset : Nat), Shared g numPages filled q →
      Returns (· = q) (prepareChunks g tokenOffset chunks) fun _ q' =>
        Changes g numPages filled (addedTokens (chunks.map chunkPart)) m host
          (fun t => chunks.foldl (fun t chunk => t.makeRoom chunk.evicted chunk.demoted) t) q q' := by
  induction chunks with
  | nil =>
    intro q tokenOffset h
    refine Spec.pure fun u hu => ?_
    subst hu
    exact ⟨h.refl, rfl⟩
  | cons chunk chunks ih =>
    intro q tokenOffset h
    refine Spec.bind (prepareChunk_changes m host h chunk) fun _ => Spec.intro fun u hu => ?_
    refine Spec.bind (ih (tokenOffset + chunk.chunkSize) hu.grows.shared) fun plan =>
      Spec.pure fun v hv => ?_
    exact hu.trans hv

/-- A decode step, as far as it is prepared. -/
theorem prepareDecode_changes (h : Shared g numPages filled q) (path : QuestDecodePath)
    {seqs : List SeqId} (hnd : seqs.Nodup) (evicted demoted : List B) :
    Returns (· = q) (prepareDecode g path seqs evicted demoted) fun _ q' => ∃ added,
      Changes g numPages filled added m host (TokenStore.makeRoom evicted demoted) q q' := by
  refine Spec.bind (evictPrefixCacheUntilFree_changes m host h evicted demoted) fun _ =>
    Spec.intro fun u hu => ?_
  have hallocated : ∀ {n : QuestM Unit}, Returns (· = u.cache) n
      (fun _ c => Decoded g numPages filled seqs u (u.withCache c)) →
        Returns (· = u) (onAllocator n) fun _ v => ∃ added,
          Changes g numPages filled added m host (TokenStore.makeRoom evicted demoted) q v :=
    fun hn => (onAllocator_changes m host hu.grows.shared (hn.post fun _ _ hc => hc.1)).post
      fun _ _ hv => ⟨_, hu.trans hv⟩
  cases path with
  | eager =>
    refine Spec.bind (hallocated (allocateBatch_decodes hu.grows.shared hnd)) fun _ =>
      Spec.get_bind fun v hv => Spec.pure fun w hw => ?_
    subst hw
    exact hv
  | graph contextCapacity =>
    refine Spec.bind (hallocated (prepareDecodeGraphStep_decodes hu.grows.shared contextCapacity hnd))
      fun _ => Spec.get_bind fun v hv => Spec.pure fun w hw => ?_
    subst hw
    exact hv

end Prepare

/-! ## Storing a batch -/

section Store

variable {parts : List BatchPart} {part : BatchPart}

/-- A new token has a slot that no other token has. -/
theorem Prepared.slot_apart (h : Prepared g numPages filled parts q) (hpart : part ∈ parts) {i : Nat}
    (hstart : part.startIdx ≤ i) (hend : i < part.startIdx + part.size) {s : SeqId} {i' : Nat}
    (hlt : i' < q.cache.rowLen s) (hne : (s, i') ≠ (part.seq, i)) :
    pageSlot g (q.cache.pageSlots (q.rowOf s)) i' ≠
      pageSlot g (q.cache.pageSlots (q.rowOf part.seq)) i := by
  intro heq
  cases hrow : q.cache.seqIdToRow s with
  | none =>
    unfold QuestCache.rowLen at hlt
    rw [hrow] at hlt
    exact absurd hlt (Nat.not_lt_zero i')
  | some row =>
    rw [QuestCache.rowLen_of_row hrow] at hlt
    obtain ⟨page, -, hpage, hown⟩ := h.owner hpart (Nat.div_le_div_right hstart) (g.div_lt_pagesFor hend)
    obtain ⟨page', hpage', hown'⟩ := h.shared.page_owner hrow (g.div_lt_pagesFor hlt)
    unfold pageSlot at heq
    rw [rowOf_eq hrow, hpage, hpage'] at heq
    obtain ⟨hsame, hmod⟩ := slot_inj (Nat.mod_lt i' g.positive) (Nat.mod_lt i g.positive) heq
    obtain rfl : page' = page := Int.ofNat.inj hsame
    rcases hown' with hown' | ⟨b, hb⟩
    · obtain ⟨hseq, hcol⟩ := Prod.mk.inj (Sum.inl.inj (h.shared.pool.apart hown' hown))
      refine hne (Prod.ext hseq ?_)
      rw [← Nat.div_add_mod i' g.pageSize, ← Nat.div_add_mod i g.pageSize, hcol, hmod]
    · cases h.shared.pool.apart hb hown

/-- A new token is not in the page of a block. -/
theorem Prepared.slot_outside (h : Prepared g numPages filled parts q) (hpart : part ∈ parts) {i : Nat}
    (hstart : part.startIdx ≤ i) (hend : i < part.startIdx + part.size) {b : B} {page j : Nat}
    (hb : q.devicePage b = some page) (hj : j < g.pageSize) :
    (page : Int) * g.pageSize + j ≠ pageSlot g (q.cache.pageSlots (q.rowOf part.seq)) i := by
  intro heq
  obtain ⟨page', -, hpage, hown⟩ := h.owner hpart (Nat.div_le_div_right hstart) (g.div_lt_pagesFor hend)
  unfold pageSlot at heq
  rw [hpage] at heq
  obtain ⟨hsame, -⟩ := slot_inj hj (Nat.mod_lt i g.positive) heq
  obtain rfl : page = page' := Int.ofNat.inj hsame
  have hblock : q.owner g (.inr b) = some page := hb
  cases h.shared.pool.apart hblock hown

/-- After its first part, the rest of a batch is prepared. -/
theorem Prepared.tail (h : Prepared g numPages filled (part :: parts) q) :
    Prepared g numPages (fun s => filled s + if s = part.seq then part.size else 0) parts q := by
  obtain ⟨hfresh, hnd⟩ := List.nodup_cons.mp h.nodup
  have hlens : ∀ s, q.cache.rowLen s =
      filled s + (if s = part.seq then part.size else 0) + addedTokens parts s := fun s =>
    (h.lens s).trans (Nat.add_assoc ..).symm
  refine ⟨{ h.shared with
      filled_le := fun s => (hlens s).symm ▸ Nat.le_add_right _ _
      cached := fun hrow hcol => ?_ }, hnd, fun p hp => h.placed p (List.mem_cons_of_mem _ hp),
    fun p hp => ?_, hlens⟩
  · obtain ⟨hle, hpage⟩ := h.shared.cached hrow hcol
    exact ⟨hle.trans (Nat.le_add_right _ _), hpage⟩
  · have hne : p.seq ≠ part.seq := fun heq => hfresh (heq ▸ List.mem_map_of_mem hp)
    rw [if_neg hne, Nat.add_zero]
    exact h.starts p (List.mem_cons_of_mem _ hp)

theorem Prepared.nodup_slots (h : Prepared g numPages filled parts q) (hpart : part ∈ parts) :
    (partSlots g q part).Nodup := by
  refine List.Nodup.map_on (fun i hi i' hi' heq => ?_) List.nodup_range'
  obtain ⟨hstart, hend⟩ := List.mem_range'_1.mp hi
  have hlt : i' < q.cache.rowLen part.seq := by
    rw [h.rowLen hpart]
    exact (List.mem_range'_1.mp hi').2
  by_contra hne
  exact h.slot_apart hpart hstart hend hlt (fun hsame => hne (Prod.mk.inj hsame).2.symm) heq.symm

/-- **Storing a part** appends its keys to its request, and does nothing else. -/
theorem Prepared.contents_storePart (h : Prepared g numPages filled (part :: parts) q) {entries : List K}
    (hlen : entries.length = part.size) :
    contents g (fun s => filled s + if s = part.seq then part.size else 0) q
        (m.store ((partSlots g q part).zip entries)) host =
      (contents g filled q m host).setRow part.seq
        ((contents g filled q m host).rows part.seq ++ entries) := by
  have hpart : part ∈ part :: parts := List.mem_cons_self
  have hslots : ∀ {slot : Int}, (∀ i, part.startIdx ≤ i → i < part.startIdx + part.size →
      slot ≠ pageSlot g (q.cache.pageSlots (q.rowOf part.seq)) i) →
        (m.store ((partSlots g q part).zip entries)).keys slot = m.keys slot := by
    refine fun {slot} hne => PagedStore.store_keys_of_notMem fun token htoken heq => ?_
    obtain ⟨i, hi, hslot⟩ := List.mem_map.mp (List.of_mem_zip htoken).1
    obtain ⟨hstart, hend⟩ := List.mem_range'_1.mp hi
    exact hne i hstart hend (heq.symm.trans hslot.symm)
  have hrows : ∀ s, (List.range (filled s)).map (fun i =>
      (m.store ((partSlots g q part).zip entries)).keys
        (pageSlot g (q.cache.pageSlots (q.rowOf s)) i)) =
      (contents g filled q m host).rows s := by
    refine fun s => List.map_congr_left fun i hi => hslots fun i' hstart hend => ?_
    have hlt := List.mem_range.mp hi
    refine h.slot_apart hpart hstart hend (hlt.trans_le (h.shared.filled_le s)) fun hsame => ?_
    obtain ⟨rfl, rfl⟩ := Prod.mk.inj hsame
    rw [h.starts part hpart] at hlt
    omega
  have hnew : (List.range' part.startIdx part.size).map (fun i =>
      (m.store ((partSlots g q part).zip entries)).keys
        (pageSlot g (q.cache.pageSlots (q.rowOf part.seq)) i)) = entries := by
    have hstored := PagedStore.map_store_zip (m := m) (h.nodup_slots hpart)
      ((length_partSlots part).trans hlen.symm)
    conv_rhs => rw [← hstored]
    exact (List.map_map ..).symm
  have hblocks : ∀ b, (q.blocks b).map (fun block => block.blockSlot.map fun page : Nat =>
      ((m.store ((partSlots g q part).zip entries)).copyPage g.pageSize page).entries g.pageSize) =
        (contents g filled q m host).blocks b := by
    intro b
    refine Option.map_congr fun block hblock => Option.map_congr fun page hpage => ?_
    have hb : q.devicePage b = some page := Option.bind_eq_some_iff.mpr ⟨block, hblock, hpage⟩
    exact List.map_congr_left fun j hj => hslots fun i hstart hend =>
      h.slot_outside hpart hstart hend hb (List.mem_range.mp hj)
  refine TokenStore.ext (funext fun s => ?_) (funext hblocks) rfl
  clear hblocks hslots
  generalize m.store ((partSlots g q part).zip entries) = m' at hrows hnew ⊢
  unfold TokenStore.setRow
  dsimp only
  by_cases heq : s = part.seq
  · subst heq
    rw [Function.update_self, ← hrows part.seq]
    conv_rhs => rw [← hnew]
    unfold contents
    dsimp only
    rw [if_pos rfl, h.starts part hpart, List.range_eq_range', List.range_eq_range',
      ← List.range'_append_1, List.map_append, Nat.zero_add]
  · rw [Function.update_of_ne heq, ← hrows s]
    unfold contents
    dsimp only
    rw [if_neg heq, Nat.add_zero]

/-- **Storing a prepared batch** appends its keys. -/
theorem Prepared.contents_store (h : Prepared g numPages filled parts q) {keys : List K}
    (hlen : totalTokens parts ≤ keys.length) :
    contents g q.cache.rowLen q (m.store ((parts.flatMap (partSlots g q)).zip keys)) host =
      (contents g filled q m host).appendBatch (parts.map fun part => (part.seq, part.size)) keys := by
  induction parts generalizing filled keys m with
  | nil =>
    have hsame : q.cache.rowLen = filled := funext h.lens
    rw [hsame]
    rfl
  | cons part parts ih =>
    unfold totalTokens at hlen ih
    rw [List.map_cons, List.sum_cons] at hlen
    have htake : (keys.take part.size).length = part.size := by
      rw [List.length_take]
      omega
    have hrest : (parts.map BatchPart.size).sum ≤ (keys.drop part.size).length := by
      rw [List.length_drop]
      omega
    have hzip : ((part :: parts).flatMap (partSlots g q)).zip keys =
        (partSlots g q part).zip (keys.take part.size) ++
          (parts.flatMap (partSlots g q)).zip (keys.drop part.size) := by
      rw [List.flatMap_cons]
      conv_lhs => rw [← List.take_append_drop part.size keys]
      exact List.zip_append (by rw [htake]; exact length_partSlots part)
    rw [hzip, PagedStore.store_append, ih h.tail hrest, h.contents_storePart htake]
    rfl

end Store

/-! ## Between steps -/

section Settled

variable {seq row col page : Nat} {b : B}

theorem map_range_mul {α : Type} (f : Nat → α) (count size : Nat) :
    (List.range (count * size)).map f =
      (List.range count).flatMap fun col => (List.range size).map fun j => f (col * size + j) := by
  induction count with
  | zero => rw [Nat.zero_mul]; rfl
  | succ count ih =>
    rw [Nat.succ_mul, List.range_add, List.map_append, ih, List.map_map, List.range_succ,
      List.flatMap_append, List.flatMap_singleton]
    rfl

theorem take_drop_range {start size count : Nat} (h : start + size ≤ count) :
    ((List.range count).drop start).take size = (List.range size).map (start + ·) := by
  refine List.ext_getElem (by simp; omega) fun i hi hi' => ?_
  simp

/-- The slots of a page of a row. -/
theorem pageSlot_add (pages : Nat → Int) (col : Nat) {j : Nat} (hj : j < g.pageSize) :
    pageSlot g pages (col * g.pageSize + j) = pages col * g.pageSize + j := by
  unfold pageSlot
  rw [Nat.mul_comm, Nat.mul_add_div g.positive, Nat.div_eq_of_lt hj, Nat.add_zero, Nat.mul_add_mod,
    Nat.mod_eq_of_lt hj]

theorem rowOf_of_none {s : SeqId} (h : q.cache.seqIdToRow s = none) : q.cache.rowLen s = 0 := by
  unfold QuestCache.rowLen
  rw [h]

/-- The requests whose row is another one keep their keys. -/
theorem rows_congr {s : SeqId} (hlen : q'.cache.rowLen s = q.cache.rowLen s)
    (hslots : ∀ {row}, q.cache.seqIdToRow s = some row → q'.cache.seqIdToRow s = some row ∧
      ∀ col < g.pagesFor (q.cache.rowSeqLens row),
        q'.cache.pageSlots row col = q.cache.pageSlots row col) :
    (contents g q'.cache.rowLen q' m host).rows s = (contents g q.cache.rowLen q m host).rows s := by
  unfold contents
  dsimp only
  rw [hlen]
  refine List.map_congr_left fun i hi => ?_
  have hlt := List.mem_range.mp hi
  cases hrow : q.cache.seqIdToRow s with
  | none =>
    rw [rowOf_of_none hrow] at hlt
    exact absurd hlt (Nat.not_lt_zero i)
  | some row =>
    rw [QuestCache.rowLen_of_row hrow] at hlt
    obtain ⟨hrow', hpages⟩ := hslots hrow
    rw [rowOf_eq hrow, rowOf_eq hrow']
    unfold pageSlot
    rw [hpages _ (g.div_lt_pagesFor hlt)]

theorem flatMap_blockKeys {chain : List B} {pages : List Nat}
    (hchain : List.Forall₂ (fun b page => q.devicePage b = some page) chain pages) :
    chain.flatMap (contents g filled q m host).blockKeys =
      pages.flatMap fun page => (m.copyPage g.pageSize (page : Nat)).entries g.pageSize := by
  induction hchain with
  | nil => rfl
  | cons hpage _ ih => rw [List.flatMap_cons, List.flatMap_cons, ih, blockKeys_contents hpage]

/-- **Attached pages**: the request has the keys of the blocks. -/
theorem Settled.contents_attachPages (h : Settled g numPages q)
    (hrow : q.cache.seqIdToRow seq = some row) {chain : List B} {pages : List Nat}
    (hchain : List.Forall₂ (fun b page => q.devicePage b = some page) chain pages) :
    contents g (q.attachPages g seq row chain pages).cache.rowLen (q.attachPages g seq row chain pages)
        m host =
      (contents g q.cache.rowLen q m host).setRow seq
        (chain.flatMap (contents g q.cache.rowLen q m host).blockKeys) := by
  have hlen : ∀ s, (q.attachPages g seq row chain pages).cache.rowLen s =
      if s = seq then pages.length * g.pageSize else q.cache.rowLen s := rowLen_attachPages h hrow
  refine TokenStore.ext (funext fun s => ?_) rfl rfl
  unfold TokenStore.setRow
  dsimp only
  by_cases heq : s = seq
  · subst heq
    rw [Function.update_self, flatMap_blockKeys hchain]
    have hrow' : (q.attachPages g s row chain pages).cache.seqIdToRow s = some row := hrow
    have hpages : (List.range pages.length).map (fun col => pages.getD col 0) = pages := by
      refine List.ext_getElem (by simp) fun i hi hi' => ?_
      simp [hi']
    conv_rhs => rw [← hpages, List.flatMap_map]
    unfold contents
    dsimp only
    rw [hlen, if_pos rfl, map_range_mul, rowOf_eq hrow']
    refine List.flatMap_congr fun col hcol => List.map_congr_left fun j hj => ?_
    rw [pageSlot_add _ _ (List.mem_range.mp hj)]
    have hslot : (q.attachPages g s row chain pages).cache.pageSlots row col = (pages.getD col 0 : Nat) :=
      if_pos ⟨rfl, List.mem_range.mp hcol⟩
    rw [hslot]
    rfl
  · rw [Function.update_of_ne heq]
    refine rows_congr (by rw [hlen, if_neg heq]) fun {r} hs => ⟨hs, fun col _ => ?_⟩
    have hne : r ≠ row := fun hr => heq (h.rows (hr ▸ hs) hrow)
    exact if_neg fun hin => hne hin.1

/-- **A returned row**: the request has no keys. -/
theorem Settled.contents_releaseRow (h : Settled g numPages q)
    (hrow : q.cache.seqIdToRow seq = some row) :
    contents g (q.releaseRow g seq row).cache.rowLen (q.releaseRow g seq row) m host =
      (contents g q.cache.rowLen q m host).setRow seq [] := by
  have hlen : ∀ s, (q.releaseRow g seq row).cache.rowLen s =
      if s = seq then 0 else q.cache.rowLen s := rowLen_releaseRow h hrow
  refine TokenStore.ext (funext fun s => ?_) rfl rfl
  unfold TokenStore.setRow
  dsimp only
  by_cases heq : s = seq
  · subst heq
    unfold contents
    dsimp only
    rw [Function.update_self, hlen, if_pos rfl]
    rfl
  · rw [Function.update_of_ne heq]
    refine rows_congr (by rw [hlen, if_neg heq]) fun {r} hs => ⟨?_, fun col _ => ?_⟩
    · exact (Function.update_of_ne heq ..).trans hs
    · exact if_neg fun hr : r = row => heq (h.rows (hr ▸ hs) hrow)

variable [DecidableEq B]

/-- **A kept page**: the block has the keys of the column. -/
theorem Settled.contents_keepPage (hrow : q.cache.seqIdToRow seq = some row)
    (hfull : (col + 1) * g.pageSize ≤ q.cache.rowSeqLens row)
    (hpage : q.cache.pageSlots row col = page) :
    contents g (q.keepPage seq col b page).cache.rowLen (q.keepPage seq col b page) m host =
      (contents g q.cache.rowLen q m host).setBlock b
        (some (some ((((contents g q.cache.rowLen q m host).rows seq).drop (col * g.pageSize)).take
          g.pageSize))) := by
  refine TokenStore.ext rfl (funext fun b' => ?_) rfl
  have hkeys : ((((contents g q.cache.rowLen q m host).rows seq).drop (col * g.pageSize)).take
      g.pageSize) = (m.copyPage g.pageSize page).entries g.pageSize := by
    unfold contents
    dsimp only
    rw [QuestCache.rowLen_of_row hrow, rowOf_eq hrow, ← List.map_drop, ← List.map_take,
      take_drop_range (by rw [Nat.succ_mul] at hfull; exact hfull), List.map_map]
    refine List.map_congr_left fun j hj => ?_
    rw [Function.comp_apply, pageSlot_add _ _ (List.mem_range.mp hj), hpage]
    rfl
  rw [hkeys]
  unfold contents TokenStore.setBlock QuestPrefixCache.keepPage
  dsimp only
  by_cases heq : b' = b
  · subst heq
    rw [Function.update_self, Function.update_self]
    rfl
  · rw [Function.update_of_ne heq, Function.update_of_ne heq]

omit [DecidableEq B] in
/-- What a page does not hold does not change when the page is restored. -/
theorem restorePage_keys {p : Int} {copy : PageCopy K} {page' : Int} (hne : page' ≠ p) {j : Nat}
    (hj : j < g.pageSize) :
    (m.restorePage g.pageSize p copy).keys (page' * g.pageSize + j) =
      m.keys (page' * g.pageSize + j) := by
  have hdiv : (page' * g.pageSize + j) / (g.pageSize : Int) = page' := slot_div hj
  unfold PagedStore.restorePage
  dsimp only
  rw [hdiv, if_neg hne]

omit [DecidableEq B] in
theorem entries_restorePage {p : Int} {copy : PageCopy K} :
    ((m.restorePage g.pageSize p copy).copyPage g.pageSize p).entries g.pageSize =
      copy.entries g.pageSize := by
  refine List.map_congr_left fun j hj => ?_
  have hdiv : (p * g.pageSize + j) / (g.pageSize : Int) = p := slot_div (List.mem_range.mp hj)
  have hmod : (p * g.pageSize + j) % (g.pageSize : Int) = j := slot_mod (List.mem_range.mp hj)
  refine (if_pos hdiv).trans ?_
  rw [hmod, Int.toNat_natCast]

/-- **A page that comes back** has the keys of its copy. -/
theorem promotePrefixBlock_contents (h : Settled g numPages q) {copy : PageCopy K}
    (hcopy : host b = some copy) :
    Returns (· = q) (promotePrefixBlock b) fun page q' =>
      contents g q'.cache.rowLen q' (m.restorePage g.pageSize page copy) host =
        (contents g q.cache.rowLen q m host).setBlock b
          (some ((contents g q.cache.rowLen q m host).host b)) := by
  refine Spec.get_bind fun t ht => ?_
  subst ht
  refine Spec.raiseIf_bind (fun _ _ _ => trivial) fun _ => ?_
  cases hfree : t.cache.freePages with
  | nil => exact Spec.throw fun _ _ => trivial
  | cons page rest =>
    intro u _
    have hpage : page ∈ t.cache.freePages := hfree ▸ List.mem_cons_self
    refine TokenStore.ext (funext fun s => ?_) (funext fun b' => ?_) rfl
    · refine List.map_congr_left fun i hi => ?_
      have hlt : i < t.cache.rowLen s := List.mem_range.mp hi
      cases hrow : t.cache.seqIdToRow s with
      | none =>
        rw [rowOf_of_none hrow] at hlt
        exact absurd hlt (Nat.not_lt_zero i)
      | some row =>
        rw [QuestCache.rowLen_of_row hrow] at hlt
        obtain ⟨p, -, hslot⟩ := h.pages hrow (g.div_lt_pagesFor hlt)
        have hne : (p : Int) ≠ page := fun heq =>
          h.notMem_free hrow (g.div_lt_pagesFor hlt) (hslot.trans heq) hpage
        show (m.restorePage g.pageSize page copy).keys (pageSlot g (t.cache.pageSlots (t.rowOf s)) i) = _
        rw [rowOf_eq hrow]
        unfold pageSlot
        rw [hslot]
        exact restorePage_keys hne (Nat.mod_lt i g.positive)
    · unfold contents TokenStore.setBlock QuestPrefixCache.assignPage
      dsimp only
      by_cases heq : b' = b
      · subst heq
        rw [Function.update_self, Function.update_self, hcopy]
        exact congrArg (fun keys => some (some keys)) entries_restorePage
      · rw [Function.update_of_ne heq, Function.update_of_ne heq]
        refine Option.map_congr fun block hblock => Option.map_congr fun p hp => ?_
        have hb : t.owner g (.inr b') = some p := Option.bind_eq_some_iff.mpr ⟨block, hblock, hp⟩
        have hne : (p : Int) ≠ page := fun heq => h.pool.taken hb (Int.ofNat.inj heq ▸ hpage)
        exact List.map_congr_left fun j hj => restorePage_keys hne (List.mem_range.mp hj)

end Settled

section Methods

variable (m host)

/-- `free_seq`. -/
theorem freePrefixSeq_contents (h : Settled g numPages q) (seq : SeqId) :
    Returns (· = q) (freePrefixSeq g seq) fun _ q' =>
      contents g q'.cache.rowLen q' m host = (contents g q.cache.rowLen q m host).setRow seq [] := by
  refine Spec.get_bind fun t ht => ?_
  subst ht
  cases hrow : t.cache.seqIdToRow seq with
  | none => exact Spec.throw fun _ _ => trivial
  | some row => exact fun _ _ => h.contents_releaseRow hrow

/-- `_attach_prefix_cache_if_needed`. -/
theorem attachPrefixCacheIfNeeded_contents (h : Settled g numPages q) (seq : SeqId) (chain : List B) :
    Returns (· = q) (attachPrefixCacheIfNeeded g seq chain) fun _ q' =>
      contents g q'.cache.rowLen q' m host = (contents g q.cache.rowLen q m host).attach seq chain := by
  refine Spec.get_bind fun t ht => ?_
  subst ht
  unfold TokenStore.attach
  refine Spec.ite (fun hnil => ?_) fun hne => ?_
  · refine Spec.pure fun u hu => ?_
    subst hu
    rw [if_pos hnil]
  · rw [if_neg hne]
    refine Spec.bind (requirePages chain) fun pages => Spec.intro fun u hu => ?_
    obtain ⟨rfl, hpages⟩ := hu
    refine Spec.raiseIf_bind (fun _ _ _ => trivial) fun _ => ?_
    refine Spec.bind (onAllocator_returns (getFreeRow_grows h seq)) fun row => Spec.intro fun v hv => ?_
    obtain ⟨c, rfl, hplaced, hrow, -⟩ := hv
    intro w hw
    subst hw
    have hlens : (u.withCache c).cache.rowLen = u.cache.rowLen := funext hplaced.lens
    have hsame : contents g (u.withCache c).cache.rowLen (u.withCache c) m host =
        contents g u.cache.rowLen u m host := by
      rw [hlens]
      exact (hplaced.changes m host h rfl).keys
    rw [← hsame]
    exact (hplaced.shared.settled).contents_attachPages hrow hpages

/-- The prefixes of a batch. -/
theorem attachPrefixes_contents (chunks : List (QuestChunk B)) : ∀ {q : QuestPrefixCache B},
    Settled g numPages q →
      Returns (· = q) (forEach chunks fun chunk => attachPrefixCacheIfNeeded g chunk.seq chunk.hitChain)
        fun _ q' => Settled g numPages q' ∧ contents g q'.cache.rowLen q' m host =
          chunks.foldl (fun t chunk => t.attach chunk.seq chunk.hitChain)
            (contents g q.cache.rowLen q m host) := by
  induction chunks with
  | nil =>
    intro q h
    refine Spec.pure fun u hu => ?_
    subst hu
    exact ⟨h, rfl⟩
  | cons chunk chunks ih =>
    intro q h
    refine Spec.bind ((attachPrefixCacheIfNeeded_settles h chunk.seq chunk.hitChain).and
      (attachPrefixCacheIfNeeded_contents m host h chunk.seq chunk.hitChain)) fun _ => Spec.intro fun u hu => ?_
    obtain ⟨⟨hsettles, -, -⟩, hkeys⟩ := hu
    refine (ih hsettles.1).post fun _ v hv => ⟨hv.1, ?_⟩
    rw [hv.2, hkeys]
    rfl

variable [DecidableEq B]

/-- `on_forward_end`, for a page. -/
theorem commitPrefixBlock_contents (h : Settled g numPages q) (seq : SeqId) (col : Nat) (b : B) :
    Returns (· = q) (commitPrefixBlock g seq col b) fun _ q' =>
      contents g q'.cache.rowLen q' m host =
        (contents g q.cache.rowLen q m host).commit g.pageSize seq col b := by
  refine Spec.get_bind fun t ht => ?_
  subst ht
  cases hrow : t.cache.seqIdToRow seq with
  | none => exact Spec.throw fun _ _ => trivial
  | some row =>
    refine Spec.raiseIf_bind (fun _ _ _ => trivial) fun hfull => ?_
    rw [not_or, not_lt] at hfull
    cases hb : t.blocks b with
    | some block =>
      intro u _
      unfold TokenStore.commit contents
      simp [hb]
      rfl
    | none =>
      have hcol : col < g.pagesFor (t.cache.rowSeqLens row) := by
        have hpos := g.positive
        have hle := hfull.1
        rw [Nat.succ_mul] at hle
        exact g.lt_pagesFor.mpr (by omega)
      obtain ⟨page, -, hpage⟩ := h.pages hrow hcol
      intro u _
      have hnat : page = (t.cache.pageSlots row col).toNat := by
        rw [hpage]
        exact (Int.toNat_natCast _).symm
      have hnew : (contents g t.cache.rowLen t m host).blocks b = none := by
        unfold contents
        simp [hb]
      unfold TokenStore.commit
      rw [hnew]
      refine Settled.contents_keepPage hrow hfull.1 ?_
      rw [← hnat]
      exact hpage

/-- A prefill step, as far as it is prepared. -/
theorem preparePrefill_contents (h : Settled g numPages q) (chunks : List (QuestChunk B)) :
    Returns (· = q) (preparePrefill g chunks) fun _ q' => ∃ filled,
      (∀ s, q'.cache.rowLen s = filled s + addedTokens (chunks.map chunkPart) s) ∧
      contents g filled q' m host = chunks.foldl (fun t chunk => t.makeRoom chunk.evicted chunk.demoted)
        (chunks.foldl (fun t chunk => t.attach chunk.seq chunk.hitChain)
          (contents g q.cache.rowLen q m host)) := by
  refine Spec.bind (attachPrefixes_contents m host chunks h) fun _ => Spec.intro fun u hu => ?_
  refine (prepareChunks_changes m host chunks 0 hu.1).post fun _ v hv =>
    ⟨_, hv.grows.lens, ?_⟩
  rw [hv.keys, hu.2]

end Methods

/-! ## The stores of a step -/

section Stores

variable [Lattice K] [BoundedOrder K] {parts : List BatchPart} {keys : List K}

/-- A prefill step stores the keys of its batch in their slots. -/
theorem Prepared.keys_storePrefill (h : Prepared g numPages filled parts q) {plan : QuestPrefillPlan}
    (hslots : plan.slotMapping = parts.flatMap (partSlots g q))
    (hsegments : plan.segments = partSegments g 0 parts)
    (hfull : plan.metadataFullPages = true →
      ∀ part ∈ parts, part.startIdx % g.pageSize = 0 ∧ part.size % g.pageSize = 0)
    (hlen : totalTokens parts ≤ keys.length) (storage : QuestStorage) (hm : Filled g filled q m) :
    (storePrefill g (numPages * g.pageSize) storage plan keys m).keys =
      (m.store ((parts.flatMap (partSlots g q)).zip keys)).keys := by
  have hdescribes : plan.Describes g (batchPieces g q parts keys) :=
    ⟨hslots.trans (slots_batchPieces hlen).symm, hsegments.trans (segments_batchPieces hlen 0),
      fun hyes => full_batchPieces hlen (hfull hyes)⟩
  rw [storePrefill_pieces hdescribes (by rw [hslots, tokens_batchPieces hlen]) fits_batchPieces
    (h.nodup_pages hlen) (h.exact_offsets hlen hm) (hslots ▸ h.validSlots), PagedStore.writePieces_keys,
    tokens_batchPieces hlen]

/-- A decode step does too; its padding stores nothing. -/
theorem Prepared.keys_storeDecode (h : Prepared g numPages filled parts q)
    (hsingle : ∀ part ∈ parts, part.size = 1) {padding : Nat} (hlen : totalTokens parts ≤ keys.length)
    (storage : QuestStorage) :
    (storeDecode g (numPages * g.pageSize) storage
        (parts.flatMap (partSlots g q) ++ List.replicate padding (-1)) keys m).keys =
      (m.store ((parts.flatMap (partSlots g q)).zip keys)).keys := by
  rw [storeDecode_pieces (tokens_batchPieces hlen).symm (length_batchSlots.trans_le hlen)
    fits_batchPieces (length_batchPieces hsingle)
    fun slot hslot => stores_of_valid (h.validSlots slot hslot) storage, PagedStore.writePieces_keys,
    tokens_batchPieces hlen]

end Stores

end QuestPrefixCache

/-! ## Runs -/

section Runs

variable {B L K : Type}

/-- What a layer holds, read through the token slots of the rows. -/
def QuestMemory.contents (g : QuestGeometry) (s : QuestMemory B L K) (layer : L) : TokenStore B K where
  rows seq := (List.range (s.prefixCache.cache.rowLen seq)).map fun i =>
    (s.layers layer).keys (s.prefixCache.cache.tokenSlots (s.prefixCache.rowOf seq) i)
  blocks b := (s.prefixCache.blocks b).map fun block => block.blockSlot.map fun page : Nat =>
    ((s.layers layer).copyPage g.pageSize page).entries g.pageSize
  host b := (s.hostPages b).map fun copies => (copies layer).entries g.pageSize

variable {g : QuestGeometry} {numPages : Nat} {storage : QuestStorage} {s : QuestMemory B L K}

/-- The copies of a layer on the host. -/
def QuestMemory.hostCopies (s : QuestMemory B L K) (layer : L) (b : B) : Option (PageCopy K) :=
  (s.hostPages b).map fun copies => copies layer

theorem QuestMemory.contents_eq (h : QuestPrefixCache.Settled g numPages s.prefixCache) (layer : L) :
    s.contents g layer = QuestPrefixCache.contents g s.prefixCache.cache.rowLen s.prefixCache
      (s.layers layer) (s.hostCopies layer) := by
  refine TokenStore.ext (funext fun seq => List.map_congr_left fun i hi => ?_) rfl
    (funext fun b => ?_)
  · have hlt := List.mem_range.mp hi
    cases hrow : s.prefixCache.cache.seqIdToRow seq with
    | none =>
      rw [QuestPrefixCache.rowOf_of_none hrow] at hlt
      exact absurd hlt (Nat.not_lt_zero i)
    | some row =>
      rw [QuestCache.rowLen_of_row hrow] at hlt
      rw [QuestPrefixCache.rowOf_eq hrow, h.tokens hrow hlt]
      rfl
  · show (s.hostPages b).map _ = ((s.hostPages b).map _).map _
    rw [Option.map_map]
    rfl

variable [DecidableEq B] [Lattice K] [BoundedOrder K]

/-- What a layer holds, read through the pages of the rows. -/
def QuestMemory.pageContents (g : QuestGeometry) (s : QuestMemory B L K) (layer : L) : TokenStore B K :=
  QuestPrefixCache.contents g s.prefixCache.cache.rowLen s.prefixCache (s.layers layer)
    (s.hostCopies layer)

omit [DecidableEq B] [Lattice K] [BoundedOrder K] in
/-- An operation of the prefix cache that does `change` to the keys of every memory. -/
theorem QuestMemory.pageContents_of {m : QuestPrefixM B Unit} {change : TokenStore B K → TokenStore B K}
    (layer : L)
    (hm : Lib.Returns (· = s.prefixCache) m fun _ q =>
      QuestPrefixCache.contents g q.cache.rowLen q (s.layers layer) (s.hostCopies layer) =
        change (s.pageContents g layer)) :
    Lib.Returns (· = s) (onPrefixCache m) fun _ s' =>
      s'.pageContents g layer = change (s.pageContents g layer) := by
  refine (onPrefixCache_returns hm).post fun _ s' hs => ?_
  obtain ⟨q, rfl, hq⟩ := hs
  exact hq

/-- **Every operation** does to the keys of a layer what it does without pages. -/
theorem runMemoryOp_pageContents (h : s.Sound g numPages) {op : QuestMemoryOp B L K}
    (hop : op.Formed s) (layer : L) :
    Lib.Returns (· = s) (runMemoryOp g numPages storage op) fun _ s' =>
      s'.pageContents g layer = TokenStore.step g.pageSize layer (s.pageContents g layer) op := by
  cases op with
  | prefill chunks keys =>
    obtain ⟨hnd, hstart, hkeys⟩ := hop
    refine Spec.bind (onPrefixCache_returns
      ((QuestPrefixCache.preparePrefill_prepares h.settled hnd hstart).and
        (QuestPrefixCache.preparePrefill_contents (s.layers layer) (s.hostCopies layer) h.settled chunks)))
      fun plan => Spec.intro fun t ht => ?_
    obtain ⟨q, rfl, ⟨filled, hprepared, hstored, hslots, hsegments, hfull⟩, filled', hlens, hcontents⟩ := ht
    -- What is prepared and what is stored before it are as long.
    obtain rfl : filled = filled' := funext fun seq =>
      Nat.add_right_cancel ((hprepared.lens seq).symm.trans (hlens seq))
    have hlen : QuestPrefixCache.totalTokens (chunks.map QuestPrefixCache.chunkPart) ≤
        (keys layer).length := by
      rw [hkeys]
      unfold QuestPrefixCache.totalTokens
      rw [List.map_map]
      exact le_refl _
    intro u hu
    subst hu
    refine (QuestPrefixCache.contents_congr (hprepared.keys_storePrefill hslots hsegments hfull hlen
      storage (hstored K _ (h.stored layer)))).trans ((hprepared.contents_store hlen).trans ?_)
    show TokenStore.appendBatch _ _ (QuestPrefixCache.contents g filled q (s.layers layer)
      (s.hostCopies layer)) = _
    rw [hcontents, List.map_map]
    rfl
  | decode path seqs padding evicted demoted keys =>
    obtain ⟨hnd, hkeys⟩ := hop
    refine Spec.bind (onPrefixCache_returns
      ((QuestPrefixCache.prepareDecode_prepares h.settled path hnd evicted demoted).and
        (QuestPrefixCache.prepareDecode_changes (s.layers layer) (s.hostCopies layer) h.settled path hnd
          evicted demoted))) fun slots => Spec.intro fun t ht => ?_
    obtain ⟨q, rfl, ⟨hprepared, -, rfl⟩, added, hchanges⟩ := ht
    have hlen : QuestPrefixCache.totalTokens (s.prefixCache.decodeParts seqs) ≤ (keys layer).length := by
      rw [hkeys, QuestPrefixCache.totalTokens_decodeParts]
      exact Nat.le_add_right _ _
    have hsingle : ∀ part ∈ s.prefixCache.decodeParts seqs, part.size = 1 := by
      intro part hpart
      obtain ⟨seq, -, rfl⟩ := List.mem_map.mp hpart
      rfl
    intro u hu
    subst hu
    refine (QuestPrefixCache.contents_congr (hprepared.keys_storeDecode hsingle hlen storage)).trans
      ((hprepared.contents_store hlen).trans ?_)
    show TokenStore.appendBatch _ _ (QuestPrefixCache.contents g s.prefixCache.cache.rowLen q
      (s.layers layer) (s.hostCopies layer)) = _
    rw [hchanges.keys]
    unfold QuestPrefixCache.decodeParts
    rw [List.map_map]
    rfl
  | commit seq col b =>
    exact QuestMemory.pageContents_of layer
      (QuestPrefixCache.commitPrefixBlock_contents _ _ h.settled seq col b)
  | makeRoom evicted demoted =>
    have hroom : Lib.Returns (· = s.prefixCache) (evictPrefixCacheUntilFree evicted demoted) fun _ q =>
        QuestPrefixCache.contents g q.cache.rowLen q (s.layers layer) (s.hostCopies layer) =
          TokenStore.makeRoom evicted demoted (s.pageContents g layer) := by
      refine (QuestPrefixCache.evictPrefixCacheUntilFree_changes (s.layers layer) (s.hostCopies layer)
        h.settled evicted demoted).post fun _ q hq => ?_
      have hlens : q.cache.rowLen = s.prefixCache.cache.rowLen := funext hq.grows.lens
      rw [hlens]
      exact hq.keys
    exact QuestMemory.pageContents_of layer hroom
  | copyToHost b =>
    refine Spec.bind (onPrefixCache_returns (QuestPrefixCache.requirePage_returns b)) fun page =>
      Spec.intro fun t ht => ?_
    obtain ⟨q, rfl, rfl, hpage⟩ := ht
    intro u hu
    subst hu
    refine TokenStore.ext rfl rfl (funext fun b' => ?_)
    show ((s.copyToHost g b page).hostCopies layer b').map _ =
      Function.update (s.pageContents g layer).host b
        (some ((s.pageContents g layer).blockKeys b)) b'
    unfold QuestMemory.hostCopies
    rw [QuestMemory.hostPages_copyToHost, Function.update_apply]
    unfold QuestMemory.pageContents
    rw [QuestPrefixCache.blockKeys_contents hpage]
    split
    · rfl
    · rfl
  | promote b =>
    refine Spec.get_bind fun t ht => ?_
    subst ht
    cases hcopies : t.hostPages b with
    | none => exact Spec.throw fun _ _ => trivial
    | some copies =>
      have hcopy : t.hostCopies layer b = some (copies layer) := by
        unfold QuestMemory.hostCopies
        rw [hcopies]
        rfl
      refine Spec.bind (onPrefixCache_returns
        (QuestPrefixCache.promotePrefixBlock_contents (m := t.layers layer) h.settled hcopy)) fun page => Spec.intro fun u hu => ?_
      obtain ⟨q, rfl, hq⟩ := hu
      intro v hv
      subst hv
      exact hq
  | free seq =>
    exact QuestMemory.pageContents_of layer (QuestPrefixCache.freePrefixSeq_contents _ _ h.settled seq)

/-- **Paged memory keeps each request's keys.** Along every run of operations that return, in every
layer, the slots of each request read the keys that it was given, in order: those of the blocks it
attached, of its chunks and of its decode steps. The blocks and the host have theirs. -/
theorem quest_memory_refines (numRows : Nat) (layers : L → PagedStore K) {ops : List (QuestMemoryOp B L K)}
    (run : Along (fun op s => stateAfter (runMemoryOp g numPages storage op) s)
      (fun s op => op.Returns g numPages storage s) (.initial numPages numRows layers) ops) (layer : L) :
    (runAll (fun op s => stateAfter (runMemoryOp g numPages storage op) s)
      (.initial numPages numRows layers) ops).contents g layer =
        ops.foldl (TokenStore.step g.pageSize layer) .empty := by
  have hrefines : ∀ (s : QuestMemory B L K) op, s.Sound g numPages → op.Returns g numPages storage s →
      (stateAfter (runMemoryOp g numPages storage op) s).Sound g numPages ∧
        (stateAfter (runMemoryOp g numPages storage op) s).contents g layer =
          TokenStore.step g.pageSize layer (s.contents g layer) op := by
    intro s op h hop
    obtain ⟨hformed, t, ht⟩ := hop
    have hstep : Lib.Returns (· = s) (runMemoryOp g numPages storage op) fun _ s' =>
        s'.pageContents g layer = TokenStore.step g.pageSize layer (s.pageContents g layer) op :=
      runMemoryOp_pageContents h hformed layer
    have hkeys := hstep s rfl
    rw [ht] at hkeys
    have hsound := runMemoryOp_ok h hformed ht
    rw [stateAfter_ok ht, QuestMemory.contents_eq h.settled, QuestMemory.contents_eq hsound.settled]
    exact ⟨hsound, hkeys⟩
  exact runAll_refines (fun s => s.contents g layer) hrefines ops (sound_initial numRows layers) run

end Runs

/-- Two requests that share a page, and a copy of it that comes back from the host. -/
def pageSharersRun : List (QuestMemoryOp Nat Unit (Unit → Fin 8)) :=
  pageSharers ++ [pageSharersDecode, .copyToHost 9, .free 0, .free 1, .makeRoom [] [9], .promote 9,
    .prefill [⟨2, 2, 1, [9], [], []⟩] fun _ => [fun _ => Fin.last 7]]

/-- The first page of the last request has been on the host. -/
theorem quest_memory_refines_pageSharersRun :
    ((runAll (fun op s => stateAfter (runMemoryOp ⟨2, 8, Nat.zero_lt_two⟩ 4 .explicitKv op) s)
      (.initial 4 2 fun _ => ⟨fun _ _ => 7, fun _ _ => 7, fun _ _ => 0⟩) pageSharersRun).contents
        ⟨2, 8, Nat.zero_lt_two⟩ ()).rows 2 = [fun _ => 3, fun _ => 1, fun _ => 7] := by
  have hrun : Along (fun op s => stateAfter (runMemoryOp ⟨2, 8, Nat.zero_lt_two⟩ 4 .explicitKv op) s)
      (fun s op => QuestMemoryOp.Returns ⟨2, 8, Nat.zero_lt_two⟩ 4 .explicitKv s op)
      (.initial 4 2 fun _ => ⟨fun _ _ => 7, fun _ _ => 7, fun _ _ => 0⟩) pageSharersRun :=
    ⟨⟨⟨by decide, by decide, fun _ => rfl⟩, _, rfl⟩, ⟨trivial, _, rfl⟩,
      ⟨⟨by decide, by decide, fun _ => rfl⟩, _, rfl⟩, ⟨⟨by decide, fun _ => rfl⟩, _, rfl⟩,
      ⟨trivial, _, rfl⟩, ⟨trivial, _, rfl⟩, ⟨trivial, _, rfl⟩, ⟨trivial, _, rfl⟩, ⟨trivial, _, rfl⟩,
      ⟨⟨by decide, by decide, fun _ => rfl⟩, _, rfl⟩, trivial⟩
  rw [quest_memory_refines 2 _ hrun ()]
  rfl

end SparseVllm
