import SparseVllm.CacheManager.Lookup
import SparseVllm.Prefix.CapacityEpoch
import SparseVllm.Prefix.Query

/-!
# The memos of a request are exact (`lookup_prefix_cache_hit`, `prefix_hit_capacity_counts`)

A lookup is memoised under the removal epoch: while it stands, the matched blocks stay where they
are in the tree, and the match grows only by its next block, which is looked for by id. The counts
of a hit are memoised under both epochs, its chain under the removal epoch alone. `MemosKept` is
what any call on the index keeps for them.

The exactness is relative to the index as it stands, its own memoised views included: whether those
are what a scan returns is the matter of `memos_fresh`.

## Results

* `Outcome.memosKept`: what every call on the index keeps.
* **`memos_exact`**: in every reachable state, a call answers as with empty tables.
-/

namespace SparseVllm

open SparseVllm.Lib

namespace RadixTreeBackend

variable {B : Type} [DecidableEq B] {t u : RadixTreeBackend B}

/-- A path is still the path when edges are added. -/
theorem pathToBlock_mono {b : B} (hb : b ∈ t.ids) (hedges : ∀ e ∈ t.edges, e ∈ u.edges) :
    u.pathToBlock b = t.pathToBlock b := by
  obtain ⟨p, hp⟩ := mem_ids.mp hb
  obtain ⟨hlast, hpath⟩ := pathToBlock_chain hb
  obtain ⟨hlast', hpath'⟩ := pathToBlock_chain (mem_ids.mpr ⟨p, hedges _ hp⟩)
  exact chain_unique _ hpath' (fun e he => hedges e (hpath e he)) (hlast'.trans hlast.symm)

omit [DecidableEq B] in
theorem mem_ids_of_chain {l : List B} (h : ∀ e ∈ RadixForest.chainEdges none l, e ∈ t.edges)
    {b : B} (hb : b ∈ l) : b ∈ t.ids := by
  rw [← RadixForest.chainEdges_fst none l] at hb
  obtain ⟨e, he, rfl⟩ := List.mem_map.mp hb
  exact mem_ids.mpr ⟨e.2, h e he⟩

end RadixTreeBackend

namespace RadixPrefixIndex

variable {B P : Type} [LinearOrder B] {s t u : RadixPrefixIndex B P}

/-! ## What the memos rely on -/

/-- The epochs only grow; without a removal no edge goes, and without a capacity change no block
goes or moves to or from the device, and no current view is taken again. -/
structure MemosKept (s t : RadixPrefixIndex B P) : Prop where
  blockSize : t.blockSize = s.blockSize
  removals : s.removeEpoch ≤ t.removeEpoch
  capacity : s.capacityEpoch ≤ t.capacityEpoch
  edges : t.removeEpoch = s.removeEpoch → ∀ e ∈ s.backend.edges, e ∈ t.backend.edges
  device : t.capacityEpoch = s.capacityEpoch → ∀ id b, s.getBlock id = some b →
    ∃ b', t.getBlock id = some b' ∧ b'.residency.devicePresent = b.residency.devicePresent
  memo : t.capacityEpoch = s.capacityEpoch → ∀ view, (s.memo view).epoch = s.capacityEpoch →
    t.memo view = s.memo view

theorem MemosKept.refl (s : RadixPrefixIndex B P) : MemosKept s s where
  blockSize := rfl
  removals := le_rfl
  capacity := le_rfl
  edges _ _ he := he
  device _ _ b hb := ⟨b, hb, rfl⟩
  memo _ _ _ := rfl

theorem MemosKept.trans (h : MemosKept s t) (h' : MemosKept t u) : MemosKept s u where
  blockSize := h'.blockSize.trans h.blockSize
  removals := h.removals.trans h'.removals
  capacity := h.capacity.trans h'.capacity
  edges hsame e he := by
    have hst := h.removals
    have htu := h'.removals
    exact h'.edges (by omega) e (h.edges (by omega) e he)
  device hsame id b hb := by
    have hst := h.capacity
    have htu := h'.capacity
    obtain ⟨b', hb', hdevice⟩ := h.device (by omega) id b hb
    obtain ⟨b'', hb'', hdevice'⟩ := h'.device (by omega) id b' hb'
    exact ⟨b'', hb'', hdevice'.trans hdevice⟩
  memo hsame view hview := by
    have hst := h.capacity
    have htu := h'.capacity
    have hfirst := h.memo (by omega) view hview
    rw [← hfirst]
    exact h'.memo (by omega) view (by rw [hfirst]; omega)

theorem Retagged.device {R : PrefixCacheBlock B P → PrefixCacheBlock B P → Prop}
    (hR : ∀ b b', R b b' → b'.residency = b.residency) (h : Retagged R s t) (id : B)
    (b : PrefixCacheBlock B P) (hb : s.getBlock id = some b) :
    ∃ b', t.getBlock id = some b' ∧ b'.residency.devicePresent = b.residency.devicePresent := by
  obtain ⟨b', hb', hsame⟩ := h.forward hb
  exact ⟨b', hb', congrArg _ (hR b b' hsame)⟩

theorem memosKept_resided (s : RadixPrefixIndex B P) (id : B) (b : PrefixCacheBlock B P)
    (r : PrefixBlockResidency) : MemosKept s (s.resided id b r) where
  blockSize := rfl
  removals := le_rfl
  capacity := (Int.lt_succ _).le
  edges _ _ he := he
  device hsame := absurd hsame (Int.lt_succ _).ne'
  memo hsame := absurd hsame (Int.lt_succ _).ne'

theorem Change.memosKept (h : Change s t) : MemosKept s t := by
  cases h with
  | minor tags epoch =>
    exact {
      blockSize := tags.routing.blockSize
      removals := tags.routing.removals.ge
      capacity := epoch.ge
      edges := fun _ e he => tags.backend ▸ he
      device := fun _ => tags.device fun _ _ hR => hR.residency
      memo := fun _ view _ => congrFun tags.memo view }
  | retag tags epoch =>
    exact {
      blockSize := tags.routing.blockSize
      removals := tags.routing.removals.ge
      capacity := epoch.le
      edges := fun _ e he => tags.backend ▸ he
      device := fun hsame => absurd hsame epoch.ne'
      memo := fun hsame => absurd hsame epoch.ne' }
  | reside here _ => exact memosKept_resided s _ _ _
  | remove here _ gone =>
    exact {
      blockSize := gone.blockSize
      removals := gone.removals.le
      capacity := gone.epoch.le
      edges := fun hsame => absurd hsame gone.removals.ne'
      device := fun hsame => absurd hsame gone.epoch.ne'
      memo := fun hsame => absurd hsame gone.epoch.ne' }
  | memo view stale =>
    have hkept := MemosKept.refl s
    exact {
      blockSize := hkept.blockSize
      removals := hkept.removals
      capacity := hkept.capacity
      edges := hkept.edges
      device := hkept.device
      memo := fun _ other hother => by
        have hne : other ≠ view := by
          rintro rfl
          exact stale hother
        exact Function.update_of_ne hne _ _ }

theorem MemosKept.changes (h : Relation.ReflTransGen Change s t) : MemosKept s t := by
  induction h with
  | refl => exact .refl _
  | tail _ last ih => exact MemosKept.trans ih last.memosKept

theorem Inserted.memosKept {block : PrefixCacheBlock B P} (h : Inserted s block t) :
    MemosKept s t where
  blockSize := h.blockSize
  removals := h.removals.ge
  capacity := by
    rw [h.epoch]
    split
    · exact le_rfl
    · exact (Int.lt_succ _).le
  edges _ e he := (h.edges e).mpr (Or.inr he)
  device _ id b hb := by
    have hne : id ≠ block.stableBlockId := fun e => by
      rw [e, h.fresh] at hb
      cases hb
    exact ⟨b, by rw [h.getBlock, if_neg hne, hb], rfl⟩
  memo _ view _ := congrFun h.memo view

/-- **Every call on the index keeps what the memos rely on.** -/
theorem Outcome.memosKept {op : IndexOp B P} (h : Outcome s op t) : MemosKept s t := by
  cases h with
  | changes steps => exact .changes steps
  | inserted new => exact new.memosKept
  | aborted _ _ _ => exact memosKept_resided s _ _ _

theorem afterView_change (s : RadixPrefixIndex B P) (view : CapacityView) :
    Relation.ReflTransGen Change s (s.afterView view) := by
  unfold afterView
  split
  · exact .refl
  · exact .single (.memo view ‹_›)

theorem epoch_afterView (s : RadixPrefixIndex B P) (view : CapacityView) :
    ((s.afterView view).memo view).epoch = (s.afterView view).capacityEpoch := by
  unfold afterView
  split
  · assumption
  · simp

/-! ## Chains -/

/-- `get_chain` finds a chain. -/
def HasChain (s : RadixPrefixIndex B P) (last : B) (count : Nat) : Prop :=
  0 < count ∧ last ∈ s.backend.ids ∧ count ≤ (s.backend.pathToBlock last).length

/-- The ids of the chain. -/
def chainIds (s : RadixPrefixIndex B P) (last : B) (count : Nat) : List B :=
  (s.backend.pathToBlock last).drop ((s.backend.pathToBlock last).length - count)

theorem recoverChain_ok (hs : Indexed s) (expected : Int) {path : List B}
    (h : ∀ id ∈ path, id ∈ s.backend.ids) :
    ∃ chain, recoverChain expected path s = .ok chain s ∧
      chain.map (·.stableBlockId) = path := by
  induction path with
  | nil => exact ⟨[], rfl, rfl⟩
  | cons id path ih =>
    obtain ⟨b, hb⟩ := hs.mem_ids.mp (h id List.mem_cons_self)
    obtain ⟨chain, hrun, hids⟩ := ih fun q hq => h q (List.mem_cons_of_mem _ hq)
    refine ⟨b :: chain, ?_, by rw [List.map_cons, hids, hs.ids id b hb]⟩
    unfold recoverChain
    rw [bind_ok (indexed_some _ hb), bind_ok hrun]
    rfl

theorem mem_ids_of_chainIds {last id : B} {count : Nat} (hlast : last ∈ s.backend.ids)
    (h : id ∈ s.chainIds last count) : id ∈ s.backend.ids :=
  RadixTreeBackend.mem_ids_of_chain (RadixTreeBackend.pathToBlock_chain hlast).2
    (List.mem_of_mem_drop h)

theorem getChain_ok (hs : Indexed s) {last : B} {count : Nat} (h : s.HasChain last count) :
    ∃ chain, getChain last count s = .ok chain s ∧
      chain.map (·.stableBlockId) = s.chainIds last count := by
  obtain ⟨hpos, hlast, hlen⟩ := h
  have hpath : ∀ id ∈ s.chainIds last count, id ∈ s.backend.ids :=
    fun id hid => mem_ids_of_chainIds hlast hid
  obtain ⟨chain, hrun, hids⟩ := recoverChain_ok hs (count : Int) hpath
  refine ⟨chain, ?_, hids⟩
  unfold getChain
  simp only [raiseIf_bind, get_bind]
  rw [if_neg (by omega), if_neg (not_not.mpr hlast), if_neg (by omega)]
  exact hrun

theorem hasChain_of_getChain {last : B} {count : Nat} {chain : List (PrefixCacheBlock B P)}
    (h : getChain last count s = .ok chain t) : s.HasChain last count := by
  unfold getChain at h
  simp only [raiseIf_bind, get_bind] at h
  split at h
  · cases h
  split at h
  · cases h
  split at h
  · cases h
  rename_i hpos hlast hlen
  exact ⟨by omega, not_not.mp hlast, by omega⟩

theorem keeps_recoverChain {I : RadixPrefixIndex B P → Prop} (expected : Int) (path : List B) :
    Keeps I (recoverChain expected path) := by
  induction path with
  | nil => exact Keeps.pure []
  | cons id path ih =>
    refine Keeps.bind (Keeps.bind Keeps.get fun s => ?_) fun block => ?_
    · cases s.getBlock id with
      | none => exact Keeps.throw _
      | some block => exact Keeps.pure block
    · exact Keeps.bind ih fun chain => Keeps.pure _

theorem keeps_getChain {I : RadixPrefixIndex B P → Prop} (last : B) (count : Int) :
    Keeps I (getChain last count) :=
  (Keeps.raiseIf _ _).bind fun _ => Keeps.get.bind fun _ => (Keeps.raiseIf _ _).bind fun _ =>
    (Keeps.raiseIf _ _).bind fun _ => keeps_recoverChain _ _

/-- `get_chain` reads: without a chain it raises and leaves the index alone. -/
theorem getChain_error {last : B} {count : Nat} (h : ¬ s.HasChain last count) :
    ∃ e, getChain last count s = .error e s := by
  have hkeep := keeps_getChain (I := (· = s)) last count s rfl
  cases hrun : getChain last count s with
  | ok chain t => exact absurd (hasChain_of_getChain hrun) h
  | error e t =>
    rw [hrun] at hkeep
    obtain rfl : t = s := hkeep
    exact ⟨e, rfl⟩

/-- Without a removal a chain stays. -/
theorem MemosKept.chain (h : MemosKept s t) (hsame : t.removeEpoch = s.removeEpoch) {last : B}
    {count : Nat} (hchain : s.HasChain last count) :
    t.HasChain last count ∧ t.chainIds last count = s.chainIds last count := by
  obtain ⟨hpos, hlast, hlen⟩ := hchain
  have hpath := RadixTreeBackend.pathToBlock_mono hlast (h.edges hsame)
  have hlast' : last ∈ t.backend.ids := by
    obtain ⟨p, hp⟩ := RadixTreeBackend.mem_ids.mp hlast
    exact RadixTreeBackend.mem_ids.mpr ⟨p, h.edges hsame _ hp⟩
  unfold HasChain chainIds
  rw [hpath]
  exact ⟨⟨hpos, hlast', hlen⟩, rfl⟩

/-- The view that says which slots of a hit can be reclaimed. -/
def hitView (offloadEnabled : Bool) : CapacityView :=
  if offloadEnabled then .deviceReclaimable else .freeable

/-- The reclaimable blocks of a chain, and those to promote. -/
def hitCounts (s : RadixPrefixIndex B P) (offloadEnabled : Bool) (chain : List B) : Nat × Nat :=
  (chain.countP (· ∈ s.viewIds (hitView offloadEnabled)),
    if offloadEnabled then chain.countP fun b => !s.childOnDevice b else 0)

/-- Without a capacity change the counts of a chain stay, once their view is current. -/
theorem MemosKept.hitCounts (h : MemosKept s t) (hs : Indexed s)
    (hsame : t.capacityEpoch = s.capacityEpoch) {offloadEnabled : Bool} {chain : List B}
    (hview : (s.memo (hitView offloadEnabled)).epoch = s.capacityEpoch)
    (hchain : ∀ id ∈ chain, id ∈ s.backend.ids) :
    t.hitCounts offloadEnabled chain = s.hitCounts offloadEnabled chain := by
  have hids : t.viewIds (hitView offloadEnabled) = s.viewIds (hitView offloadEnabled) := by
    unfold viewIds
    rw [h.memo hsame _ hview, hsame, if_pos hview, if_pos hview]
  have hdevice : ∀ id ∈ chain, (!t.childOnDevice id) = true ↔ (!s.childOnDevice id) = true := by
    intro id hid
    obtain ⟨b, hb⟩ := hs.mem_ids.mp (hchain id hid)
    obtain ⟨b', hb', hpresent⟩ := h.device hsame id b hb
    unfold childOnDevice
    simp only [hb, hb', hpresent]
  unfold RadixPrefixIndex.hitCounts
  rw [hids, List.countP_congr hdevice]

end RadixPrefixIndex

/-! ## Replies -/

namespace PrefixLookups

variable {B P : Type} [LinearOrder B] {l l' : PrefixLookups B P}

/-- The index with empty tables. -/
def forgotten (l : PrefixLookups B P) : PrefixLookups B P := { prefixCache := l.prefixCache }

/-- A lookup memo that holds of the index. -/
structure LookupExact (hash : List Int → Option B → B) (s : RadixPrefixIndex B P)
    (entry : PrefixLookupCacheEntry B) : Prop where
  blockIds : entry.blockIds = RadixPrefixIndex.blockIdsForTokens hash s.blockSize
    (entry.tokenIds.map Int.ofNat) entry.usableTokens
  removals : entry.removeEpoch ≤ s.removeEpoch
  hit : entry.removeEpoch = s.removeEpoch → ∃ hit, hit <+: entry.blockIds ∧
    (∀ e ∈ RadixForest.chainEdges none hit, e ∈ s.backend.edges) ∧
    entry.result = (hit.length * s.blockSize, hit.getLast?, hit.length)

/-- A capacity memo that holds of the index. -/
structure HitExact (s : RadixPrefixIndex B P) (entry : PrefixHitCapacityCacheEntry B) : Prop where
  removals : entry.removeEpoch ≤ s.removeEpoch
  capacity : entry.capacityEpoch ≤ s.capacityEpoch
  chain : entry.removeEpoch = s.removeEpoch → s.HasChain entry.lastBlockId entry.hitBlocks ∧
    entry.chain = s.chainIds entry.lastBlockId entry.hitBlocks
  counts : entry.removeEpoch = s.removeEpoch → entry.capacityEpoch = s.capacityEpoch →
    (s.memo (RadixPrefixIndex.hitView entry.offloadEnabled)).epoch = s.capacityEpoch ∧
    (entry.reclaimableBlocks, entry.promotionBlocks) =
      s.hitCounts entry.offloadEnabled entry.chain

variable {hash : List Int → Option B → B} {s t : RadixPrefixIndex B P}

theorem LookupExact.kept {entry : PrefixLookupCacheEntry B} (h : LookupExact hash s entry)
    (hkept : s.MemosKept t) : LookupExact hash t entry where
  blockIds := by rw [hkept.blockSize, h.blockIds]
  removals := h.removals.trans hkept.removals
  hit hsame := by
    have hle := h.removals
    have hle' := hkept.removals
    obtain ⟨hit, hpre, hedges, hresult⟩ := h.hit (by omega)
    exact ⟨hit, hpre, fun e he => hkept.edges (by omega) e (hedges e he),
      by rw [hkept.blockSize, hresult]⟩

theorem HitExact.kept {entry : PrefixHitCapacityCacheEntry B} (h : HitExact s entry)
    (hs : s.Indexed) (hkept : s.MemosKept t) : HitExact t entry where
  removals := h.removals.trans hkept.removals
  capacity := h.capacity.trans hkept.capacity
  chain hsame := by
    have hle := h.removals
    have hle' := hkept.removals
    obtain ⟨hchain, hids⟩ := h.chain (by omega)
    obtain ⟨hchain', hids'⟩ := hkept.chain (by omega) hchain
    exact ⟨hchain', hids.trans hids'.symm⟩
  counts hsame hcapacity := by
    have hle := h.removals
    have hle' := hkept.removals
    have hce := h.capacity
    have hce' := hkept.capacity
    obtain ⟨hchain, hids⟩ := h.chain (by omega)
    obtain ⟨hview, hcounts⟩ := h.counts (by omega) (by omega)
    refine ⟨by rw [hkept.memo (by omega) _ hview, hview]; omega, ?_⟩
    rw [hkept.hitCounts hs (by omega) hview, hcounts]
    intro id hid
    rw [hids] at hid
    exact RadixPrefixIndex.mem_ids_of_chainIds hchain.2.1 hid

/-! ### Lookups -/

/-- A match ends where the tree does: what is matched is a chain, and the next block is not its
child. -/
theorem LookupExact.result_eq {entry : PrefixLookupCacheEntry B} (h : LookupExact hash s entry)
    (hs : s.Indexed) (hsame : entry.removeEpoch = s.removeEpoch)
    (hno : extendsNoFurther s entry = true) :
    s.matchLongestBlockIds entry.blockIds = entry.result := by
  obtain ⟨hit, hpre, hedges, hresult⟩ := h.hit hsame
  have hmax := RadixTreeBackend.lookup_maximal hpre hedges
  have hfound := RadixTreeBackend.lookup_prefix (t := s.backend) entry.blockIds
    entry.blockIds.length
  have hchain := RadixTreeBackend.lookup_chain (t := s.backend) entry.blockIds
    entry.blockIds.length
  unfold RadixPrefixIndex.matchLongestBlockIds
  generalize s.backend.lookup entry.blockIds entry.blockIds.length = found at hmax hfound hchain
  suffices hlen : found.length ≤ hit.length by
    obtain rfl := hmax.eq_of_length_le hlen
    exact hresult.symm
  by_contra hlt
  rw [not_le] at hlt
  have hnext := List.prefix_iff_getElem?.mp hfound _ hlt
  obtain ⟨b, hb⟩ := hs.mem_ids.mp
    (RadixTreeBackend.mem_ids_of_chain hchain (List.getElem_mem hlt))
  unfold extendsNoFurther at hno
  rw [hresult] at hno
  simp only [hnext, hb, Option.isNone_some] at hno
  cases hno

/-! ### Tables -/

/-- The tables hold of the index. -/
structure Exact (hash : List Int → Option B → B) (l : PrefixLookups B P) : Prop where
  indexed : l.prefixCache.Indexed
  lookups : ∀ id entry, l.prefixLookupCache.get? id = some entry →
    LookupExact hash l.prefixCache entry
  hits : ∀ id entry, l.prefixHitCapacityCache.get? id = some entry →
    HitExact l.prefixCache entry

theorem Exact.forgotten (h : Exact hash l) : Exact hash l.forgotten where
  indexed := h.indexed
  lookups _ _ hentry := by cases hentry
  hits _ _ hentry := by cases hentry

theorem Exact.withIndex (h : Exact hash l) (ht : t.Indexed) (hkept : l.prefixCache.MemosKept t) :
    Exact hash { l with prefixCache := t } where
  indexed := ht
  lookups id entry hentry := (h.lookups id entry hentry).kept hkept
  hits id entry hentry := (h.hits id entry hentry).kept h.indexed hkept

/-- What a lookup answers with empty tables. -/
def freshHit (hash : List Int → Option B → B) (s : RadixPrefixIndex B P) (prompt : List Nat)
    (usable : Nat) : Nat × Option B × Nat :=
  s.matchLongestBlockIds
    (RadixPrefixIndex.blockIdsForTokens hash s.blockSize (prompt.map Int.ofNat) usable)

theorem lookupExact_fresh (s : RadixPrefixIndex B P) (prompt : List Nat) (usable : Nat) :
    LookupExact hash s {
      tokenIds := prompt
      usableTokens := usable
      blockIds := RadixPrefixIndex.blockIdsForTokens hash s.blockSize (prompt.map Int.ofNat) usable
      removeEpoch := s.removeEpoch
      result := freshHit hash s prompt usable } where
  blockIds := rfl
  removals := le_rfl
  hit _ := ⟨_, RadixTreeBackend.lookup_prefix _ _, RadixTreeBackend.lookup_chain _ _, rfl⟩

/-- **A lookup is exact**, and leaves exact tables. -/
theorem Exact.lookup (h : Exact hash l) (id : SeqId) (prompt : List Nat) (usable : Nat) :
    ∃ l', lookupPrefixCacheHit hash id prompt usable l =
      .ok (freshHit hash l.prefixCache prompt usable) l' ∧ Exact hash l' := by
  unfold lookupPrefixCacheHit
  rw [get_bind]
  simp only
  cases hentry : (l.prefixLookupCache.get? id).filter fun entry =>
      decide (entry.tokenIds = prompt ∧ entry.usableTokens = usable) with
  | none =>
    refine ⟨_, rfl, h.indexed, fun q entry hq => ?_, h.hits⟩
    rw [Dict.get?_set] at hq
    split at hq
    · obtain rfl := Option.some.inj hq
      exact lookupExact_fresh _ _ _
    · exact h.lookups q entry hq
  | some entry =>
    obtain ⟨hstored, hsame⟩ := Option.filter_eq_some_iff.mp hentry
    obtain ⟨rfl, rfl⟩ := of_decide_eq_true hsame
    have hexact := h.lookups id entry hstored
    by_cases hcurrent : entry.removeEpoch = l.prefixCache.removeEpoch ∧
        extendsNoFurther l.prefixCache entry = true
    · refine ⟨l, ?_, h⟩
      rw [Option.filter_some, if_pos (decide_eq_true hcurrent)]
      unfold freshHit
      rw [← hexact.blockIds, hexact.result_eq h.indexed hcurrent.1 hcurrent.2]
      rfl
    · rw [Option.filter_some, if_neg (by simpa using hcurrent)]
      unfold lookupBlockIds
      simp only [hexact.blockIds]
      refine ⟨_, rfl, h.indexed, fun q entry' hq => ?_, h.hits⟩
      rw [Dict.get?_set] at hq
      split at hq
      · obtain rfl := Option.some.inj hq
        exact lookupExact_fresh _ _ _
      · exact h.lookups q entry' hq

/-! ### Counts -/

/-- What a count answers with empty tables. -/
def freshCounts (s : RadixPrefixIndex B P) (offloadEnabled : Bool) (seq : Sequence B) :
    Except (PrefixHitError B) (Nat × Nat) :=
  if seq.prefixCacheHitBlockCount = 0 then .ok (0, 0)
  else match seq.prefixCacheHitLastBlockId with
    | none => .error .missingLastBlock
    | some last => match RadixPrefixIndex.getChain last seq.prefixCacheHitBlockCount s with
      | .ok _ _ => .ok (s.hitCounts offloadEnabled (s.chainIds last seq.prefixCacheHitBlockCount))
      | .error e _ => .error (.index e)

/-- The memo `countHitCapacity` stores. -/
def storedHit (s : RadixPrefixIndex B P) (offloadEnabled : Bool) (last : B) (hitBlocks : Nat)
    (chain : List B) : PrefixHitCapacityCacheEntry B where
  lastBlockId := last
  hitBlocks := hitBlocks
  removeEpoch := s.removeEpoch
  capacityEpoch := s.capacityEpoch
  offloadEnabled := offloadEnabled
  chain := chain
  reclaimableBlocks := (s.hitCounts offloadEnabled chain).1
  promotionBlocks := (s.hitCounts offloadEnabled chain).2

theorem reclaimableIds_run (offloadEnabled : Bool) (l : PrefixLookups B P) :
    reclaimableIds offloadEnabled l =
      .ok (l.prefixCache.viewIds (RadixPrefixIndex.hitView offloadEnabled))
        { l with
          prefixCache := l.prefixCache.afterView (RadixPrefixIndex.hitView offloadEnabled) } := by
  have hquery : (reclaimableIds offloadEnabled : PrefixLookupM B P _) =
      onIndex (RadixPrefixIndex.memoised (RadixPrefixIndex.hitView offloadEnabled)) := by
    cases offloadEnabled <;> rfl
  rw [hquery]
  exact zoom_ok (RadixPrefixIndex.memoised_eq _ _)

theorem hitCounts_afterView (s : RadixPrefixIndex B P) (offloadEnabled : Bool) (chain : List B) :
    (s.afterView (RadixPrefixIndex.hitView offloadEnabled)).hitCounts offloadEnabled chain =
      s.hitCounts offloadEnabled chain := by
  have hsame := RadixPrefixIndex.sameAnswers_afterView s (RadixPrefixIndex.hitView offloadEnabled)
  obtain ⟨memo, hmemo⟩ := hsame.memos
  unfold RadixPrefixIndex.hitCounts
  rw [hsame.views, hmemo]
  rfl

theorem countHitCapacity_ok {offloadEnabled : Bool} {id : SeqId} {last : B} {hitBlocks : Nat}
    {entry : Option (PrefixHitCapacityCacheEntry B)} {chain : List B}
    (h : hitChainIds entry last hitBlocks l = .ok chain l) :
    countHitCapacity offloadEnabled id last hitBlocks entry l =
      .ok (l.prefixCache.hitCounts offloadEnabled chain) { l with
        prefixCache := l.prefixCache.afterView (RadixPrefixIndex.hitView offloadEnabled)
        prefixHitCapacityCache := l.prefixHitCapacityCache.set id
          (storedHit (l.prefixCache.afterView (RadixPrefixIndex.hitView offloadEnabled))
            offloadEnabled last hitBlocks chain) } := by
  have hcounts := hitCounts_afterView l.prefixCache offloadEnabled chain
  have hviews := (RadixPrefixIndex.sameAnswers_afterView l.prefixCache
    (RadixPrefixIndex.hitView offloadEnabled)).views (RadixPrefixIndex.hitView offloadEnabled)
  unfold countHitCapacity
  rw [bind_ok h, bind_ok (reclaimableIds_run offloadEnabled l), get_bind, ← hcounts]
  unfold storedHit RadixPrefixIndex.hitCounts
  rw [hviews]
  rfl

theorem hitExact_stored (offloadEnabled : Bool) {last : B} {hitBlocks : Nat}
    (h : s.HasChain last hitBlocks) :
    HitExact (s.afterView (RadixPrefixIndex.hitView offloadEnabled))
      (storedHit (s.afterView (RadixPrefixIndex.hitView offloadEnabled)) offloadEnabled last
        hitBlocks (s.chainIds last hitBlocks)) where
  removals := le_rfl
  capacity := le_rfl
  chain _ := by
    obtain ⟨memo, hmemo⟩ := (RadixPrefixIndex.sameAnswers_afterView s
      (RadixPrefixIndex.hitView offloadEnabled)).memos
    rw [hmemo]
    exact ⟨h, rfl⟩
  counts _ _ := ⟨RadixPrefixIndex.epoch_afterView s _, rfl⟩

/-- The memo of a hit, if it stands, names the chain that `get_chain` finds. -/
theorem Exact.hitMemo (h : Exact hash l) {id : SeqId} {last : B} {hitBlocks : Nat}
    {entry : PrefixHitCapacityCacheEntry B} (hmemo : l.hitMemo id last hitBlocks = some entry) :
    HitExact l.prefixCache entry ∧ l.prefixCache.HasChain last hitBlocks ∧
      entry.chain = l.prefixCache.chainIds last hitBlocks := by
  obtain ⟨hstored, hsame⟩ := Option.filter_eq_some_iff.mp hmemo
  obtain ⟨rfl, rfl, hepoch⟩ := of_decide_eq_true hsame
  have hexact := h.hits id entry hstored
  exact ⟨hexact, hexact.chain hepoch⟩

/-- The chain of a hit is the same with a memo and without. -/
theorem Exact.hitChainIds (h : Exact hash l) (id : SeqId) (last : B) (hitBlocks : Nat) :
    l.prefixCache.HasChain last hitBlocks ∧
        hitChainIds (l.hitMemo id last hitBlocks) last hitBlocks l =
          .ok (l.prefixCache.chainIds last hitBlocks) l ∨
      ¬ l.prefixCache.HasChain last hitBlocks ∧ ∃ e,
        RadixPrefixIndex.getChain last hitBlocks l.prefixCache = .error e l.prefixCache ∧
        hitChainIds (l.hitMemo id last hitBlocks) last hitBlocks l = .error (.index e) l := by
  cases hmemo : l.hitMemo id last hitBlocks with
  | some entry =>
    obtain ⟨-, hchain, hids⟩ := h.hitMemo hmemo
    refine Or.inl ⟨hchain, ?_⟩
    rw [← hids]
    rfl
  | none =>
    by_cases hchain : l.prefixCache.HasChain last hitBlocks
    · obtain ⟨chain, hrun, hids⟩ := RadixPrefixIndex.getChain_ok h.indexed hchain
      refine Or.inl ⟨hchain, ?_⟩
      rw [← hids]
      exact (bind_ok (zoom_ok hrun)).trans rfl
    · obtain ⟨e, hrun⟩ := RadixPrefixIndex.getChain_error hchain
      exact Or.inr ⟨hchain, e, hrun, bind_error (zoom_error hrun)⟩

theorem prefixHitCapacityCounts_none (offloadEnabled : Bool) (id : SeqId) {seq : Sequence B}
    {last : B} (hcount : seq.prefixCacheHitBlockCount ≠ 0)
    (hlast : seq.prefixCacheHitLastBlockId = some last)
    (hmemo : l.currentHitMemo offloadEnabled id last seq.prefixCacheHitBlockCount = none) :
    prefixHitCapacityCounts offloadEnabled id seq l =
      countHitCapacity offloadEnabled id last seq.prefixCacheHitBlockCount
        (l.hitMemo id last seq.prefixCacheHitBlockCount) l := by
  unfold prefixHitCapacityCounts
  rw [if_neg hcount, hlast]
  simp only [get_bind, hmemo]

theorem prefixHitCapacityCounts_some {offloadEnabled : Bool} {id : SeqId} {seq : Sequence B}
    {last : B} (hcount : seq.prefixCacheHitBlockCount ≠ 0)
    (hlast : seq.prefixCacheHitLastBlockId = some last)
    {entry : PrefixHitCapacityCacheEntry B}
    (hmemo : l.currentHitMemo offloadEnabled id last seq.prefixCacheHitBlockCount = some entry) :
    prefixHitCapacityCounts offloadEnabled id seq l =
      .ok (entry.reclaimableBlocks, entry.promotionBlocks) l := by
  unfold prefixHitCapacityCounts
  rw [if_neg hcount, hlast]
  simp only [get_bind, hmemo]
  rfl

/-- **The counts of a hit are exact**, and leave exact tables. -/
theorem Exact.counts (h : Exact hash l) (offloadEnabled : Bool) (id : SeqId) (seq : Sequence B) :
    reply (prefixHitCapacityCounts offloadEnabled id seq) l =
        freshCounts l.prefixCache offloadEnabled seq ∧
      Exact hash (stateAfter (prefixHitCapacityCounts offloadEnabled id seq) l) := by
  unfold freshCounts
  by_cases hcount : seq.prefixCacheHitBlockCount = 0
  · have hrun : prefixHitCapacityCounts offloadEnabled id seq l = .ok (0, 0) l := by
      unfold prefixHitCapacityCounts
      rw [if_pos hcount]
      rfl
    rw [reply_ok hrun, stateAfter_ok hrun, if_pos hcount]
    exact ⟨rfl, h⟩
  rw [if_neg hcount]
  cases hlast : seq.prefixCacheHitLastBlockId with
  | none =>
    have hrun : prefixHitCapacityCounts offloadEnabled id seq l = .error .missingLastBlock l := by
      unfold prefixHitCapacityCounts
      rw [if_neg hcount, hlast]
      rfl
    rw [reply_error hrun, stateAfter_error hrun]
    exact ⟨rfl, h⟩
  | some last =>
    simp only
    cases hmemo : l.currentHitMemo offloadEnabled id last seq.prefixCacheHitBlockCount with
    | some entry =>
      have hrun := prefixHitCapacityCounts_some hcount hlast hmemo
      obtain ⟨hstored, hsame⟩ := Option.filter_eq_some_iff.mp hmemo
      obtain ⟨hepoch, rfl⟩ := of_decide_eq_true hsame
      obtain ⟨hexact, hchain, hids⟩ := h.hitMemo hstored
      obtain ⟨-, hremove⟩ := Option.filter_eq_some_iff.mp hstored
      obtain ⟨chain, hget, -⟩ := RadixPrefixIndex.getChain_ok h.indexed hchain
      have hcounts := (hexact.counts (of_decide_eq_true hremove).2.2 hepoch).2
      rw [reply_ok hrun, stateAfter_ok hrun, hget, hcounts, hids]
      exact ⟨rfl, h⟩
    | none =>
      have hcall := prefixHitCapacityCounts_none offloadEnabled id hcount hlast hmemo
      rcases h.hitChainIds id last seq.prefixCacheHitBlockCount with
        ⟨hchain, hids⟩ | ⟨-, e, hget, hids⟩
      · obtain ⟨chain, hget, -⟩ := RadixPrefixIndex.getChain_ok h.indexed hchain
        have hrun := hcall.trans (countHitCapacity_ok hids)
        have hsteps := RadixPrefixIndex.afterView_change l.prefixCache
          (RadixPrefixIndex.hitView offloadEnabled)
        have hkept := h.withIndex (h.indexed.changes hsteps)
          (RadixPrefixIndex.MemosKept.changes hsteps)
        rw [reply_ok hrun, stateAfter_ok hrun, hget]
        refine ⟨rfl, hkept.indexed, hkept.lookups, fun q entry hq => ?_⟩
        rw [Dict.get?_set] at hq
        split at hq
        · obtain rfl := Option.some.inj hq
          exact hitExact_stored offloadEnabled hchain
        · exact hkept.hits q entry hq
      · have hrun := hcall.trans (bind_error hids)
        rw [reply_error hrun, stateAfter_error hrun, hget]
        exact ⟨rfl, h⟩

end PrefixLookups

/-! ## Runs -/

/-- A call on an index or on its tables, or a request that is gone from the tables. -/
inductive LookupOp (B P : Type) where
  | index (op : RadixPrefixIndex.IndexOp B P)
  | lookup (id : SeqId) (prompt : List Nat) (usable : Nat)
  | counts (offloadEnabled : Bool) (id : SeqId) (seq : Sequence B)
  | forget (id : SeqId)

namespace PrefixLookups

variable {B P : Type} [LinearOrder B] {l : PrefixLookups B P}

/-- A call, returning or raising. -/
def exec (hash : List Int → Option B → B) (op : LookupOp B P) (l : PrefixLookups B P) :
    PrefixLookups B P :=
  match op with
  | .index op => { l with prefixCache := op.exec l.prefixCache }
  | .lookup id prompt usable => stateAfter (lookupPrefixCacheHit hash id prompt usable) l
  | .counts offloadEnabled id seq => stateAfter (prefixHitCapacityCounts offloadEnabled id seq) l
  | .forget id =>
    { l with
      prefixLookupCache := l.prefixLookupCache.pop id
      prefixHitCapacityCache := l.prefixHitCapacityCache.pop id }

/-- An empty index with empty tables. -/
def initial (blockSize : Nat) (maxBlocks : Option Nat) : PrefixLookups B P :=
  { prefixCache := RadixPrefixIndex.initial blockSize maxBlocks }

theorem Exact.exec {hash : List Int → Option B → B} (h : Exact hash l) (op : LookupOp B P) :
    Exact hash (exec hash op l) := by
  cases op with
  | index op =>
    have hout := op.outcome h.indexed
    exact h.withIndex (hout.indexed h.indexed) hout.memosKept
  | lookup id prompt usable =>
    obtain ⟨l', hrun, hexact⟩ := h.lookup id prompt usable
    have hexec : PrefixLookups.exec hash (.lookup id prompt usable) l = l' := stateAfter_ok hrun
    rw [hexec]
    exact hexact
  | counts offloadEnabled id seq => exact (h.counts offloadEnabled id seq).2
  | forget id =>
    exact ⟨h.indexed, fun q entry hq => h.lookups q entry (Dict.get?_of_pop hq),
      fun q entry hq => h.hits q entry (Dict.get?_of_pop hq)⟩

/-- **Memoised lookups are exact**: in every state of every run, a lookup and a count answer, or
raise, as they would with empty tables on the same index. -/
theorem memos_exact (hash : List Int → Option B → B) {blockSize : Nat} {maxBlocks : Option Nat}
    (run : Reachable (exec hash) (fun _ _ => True) (initial blockSize maxBlocks) l) :
    (∀ id prompt usable, reply (lookupPrefixCacheHit hash id prompt usable) l =
      reply (lookupPrefixCacheHit hash id prompt usable) l.forgotten) ∧
    ∀ offloadEnabled id seq, reply (prefixHitCapacityCounts offloadEnabled id seq) l =
      reply (prefixHitCapacityCounts offloadEnabled id seq) l.forgotten := by
  have hinit : Exact hash (initial blockSize maxBlocks : PrefixLookups B P) :=
    ⟨RadixPrefixIndex.indexed_initial blockSize maxBlocks, nofun, nofun⟩
  have hexact : Exact hash l := run.invariant hinit fun _ op hu _ => hu.exec op
  refine ⟨fun id prompt usable => ?_, fun offloadEnabled id seq => ?_⟩
  · obtain ⟨l', hrun, -⟩ := hexact.lookup id prompt usable
    obtain ⟨l'', hrun', -⟩ := hexact.forgotten.lookup id prompt usable
    rw [reply_ok hrun, reply_ok hrun']
    rfl
  · exact (hexact.counts offloadEnabled id seq).1.trans
      (hexact.forgotten.counts offloadEnabled id seq).1.symm

/-- The second block of a prompt is committed between two lookups, and rolled back before a
third. -/
def memoRun : List (LookupOp Nat Unit) :=
  [.index (.insert (RadixPrefixIndex.bareBlock 1 none 0)), .lookup 0 [1, 2] 2,
    .index (.insert (RadixPrefixIndex.bareBlock 12 (some 1) 0)), .lookup 0 [1, 2] 2,
    .index (.rollback 12)]

/-- The digits of the tokens from the root to a block. -/
def digits (tokens : List Int) (parent : Option Nat) : Nat :=
  10 * parent.getD 0 + tokens.sum.toNat

theorem memos_exact_memoRun :
    reply (lookupPrefixCacheHit digits 0 [1, 2] 2) (runAll (exec digits) (initial 1 none) memoRun) =
      .ok (1, some 1, 1) := by
  have along : Along (exec digits) (fun _ _ => True) (initial 1 none) memoRun :=
    ⟨trivial, trivial, trivial, trivial, trivial, trivial⟩
  rw [(memos_exact digits (Reachable.init.runAll along)).1]
  decide +kernel

end PrefixLookups

end SparseVllm
