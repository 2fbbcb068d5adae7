import SparseVllm.CacheManager.RuntimeState
import SparseVllm.Prefix.Query
import SparseVllm.Scheduler.Admission

/-!
# When the two accountings of admission agree

With `F` the manager's free and reclaimable slots, `X` the coordinator's reclaimable slots and `R`
what the partly prefilled prompts still need, a pass starts with the slots budget
`max(0, F - R) + X` and the logical counter `max(0, F + X - R)`. Both are charged the same for an
admitted prompt, because a query of the cost only moves memos and is asked twice in one state. So a
pass can raise a mismatch exactly when `F < R`, `0 < X` and a prompt can be admitted at all.

Results: `neverMismatches_iff`, over every queue state of one memory state, and a pass that raises
(`mismatch_raised`).
-/

namespace SparseVllm

open SparseVllm.Lib

/-! ## The capacity of a hit -/

namespace PrefixLookups

variable {B P : Type} [LinearOrder B] {l l' : PrefixLookups B P}

/-- The lookups over an index with the same blocks and epochs. -/
def withMemo (l : PrefixLookups B P) (memo : CapacityView → CapacityMemo B) : PrefixLookups B P :=
  { l with prefixCache := { l.prefixCache with memo := memo } }

/-- The chain of a hit is read, and nothing moves. -/
theorem hitChainIds_run {entry : Option (PrefixHitCapacityCacheEntry B)} {last : B}
    {hitBlocks : Nat} {chain : List B} (h : hitChainIds entry last hitBlocks l = .ok chain l') :
    l' = l := by
  cases entry with
  | some entry => cases h; rfl
  | none =>
    change (onIndex (RadixPrefixIndex.getChain last hitBlocks) >>= fun chain =>
      pure (chain.map (·.stableBlockId)) : PrefixLookupM B P (List B)) l = .ok chain l' at h
    unfold onIndex at h
    cases hget : RadixPrefixIndex.getChain last hitBlocks l.prefixCache with
    | error e s => rw [bind_error (zoom_error hget)] at h; cases h
    | ok blocks s =>
      obtain ⟨rfl, _⟩ := RadixPrefixIndex.getChain_run hget l.prefixCache.memo
      rw [bind_ok (zoom_ok hget)] at h
      cases h
      rfl

theorem reclaimableIds_eq (offloadEnabled : Bool) (l : PrefixLookups B P) :
    ∃ memo ids, reclaimableIds offloadEnabled l = .ok ids (l.withMemo memo) ∧
      reclaimableIds offloadEnabled (l.withMemo memo) = .ok ids (l.withMemo memo) := by
  let view : CapacityView := if offloadEnabled then .deviceReclaimable else .freeable
  have hquery : (reclaimableIds offloadEnabled : PrefixLookupM B P _) =
      onIndex (RadixPrefixIndex.memoised view) := by
    cases offloadEnabled <;> rfl
  obtain ⟨memo, hmemo⟩ := (RadixPrefixIndex.sameAnswers_afterView l.prefixCache view).memos
  have hrun := RadixPrefixIndex.memoised_eq l.prefixCache view
  have hagain := RadixPrefixIndex.repeatable_memoised view hrun
  rw [hmemo] at hrun hagain
  rw [hquery]
  exact ⟨memo, _, zoom_ok hrun, zoom_ok hagain⟩

/-- A fresh count is stored under the epochs of the index. -/
theorem countHitCapacity_run {offloadEnabled : Bool} {id : SeqId} {last : B} {hitBlocks : Nat}
    {entry : Option (PrefixHitCapacityCacheEntry B)} {counts : Nat × Nat}
    (h : countHitCapacity offloadEnabled id last hitBlocks entry l = .ok counts l') :
    ∃ memo stored, l' = { l.withMemo memo with
        prefixHitCapacityCache := l.prefixHitCapacityCache.set id stored } ∧
      stored.lastBlockId = last ∧ stored.hitBlocks = hitBlocks ∧
      stored.removeEpoch = l.prefixCache.removeEpoch ∧
      stored.capacityEpoch = l.prefixCache.capacityEpoch ∧
      stored.offloadEnabled = offloadEnabled ∧
      (stored.reclaimableBlocks, stored.promotionBlocks) = counts := by
  unfold countHitCapacity at h
  cases hchain : hitChainIds entry last hitBlocks l with
  | error e u => rw [bind_error hchain] at h; cases h
  | ok chain u =>
    obtain rfl := hitChainIds_run hchain
    obtain ⟨memo, ids, hids, _⟩ := reclaimableIds_eq offloadEnabled u
    rw [bind_ok hchain, bind_ok hids] at h
    cases h
    exact ⟨memo, _, rfl, rfl, rfl, rfl, rfl, rfl, rfl⟩

/-- The counts of a hit are asked for again from a memo, whatever else the index memoises. -/
theorem prefixHitCapacityCounts_run {offloadEnabled : Bool} {id : SeqId} {seq : Sequence B}
    {counts : Nat × Nat}
    (h : prefixHitCapacityCounts offloadEnabled id seq l = .ok counts l') :
    (∃ memo hits, l' = { l.withMemo memo with prefixHitCapacityCache := hits }) ∧
      ∀ memo, prefixHitCapacityCounts offloadEnabled id seq (l'.withMemo memo) =
        .ok counts (l'.withMemo memo) := by
  unfold prefixHitCapacityCounts at h ⊢
  by_cases hcount : seq.prefixCacheHitBlockCount = 0
  · rw [if_pos hcount] at h
    cases h
    refine ⟨⟨l.prefixCache.memo, l.prefixHitCapacityCache, rfl⟩, fun memo => ?_⟩
    rw [if_pos hcount]
    rfl
  rw [if_neg hcount] at h
  simp only [if_neg hcount]
  cases hlast : seq.prefixCacheHitLastBlockId with
  | none => rw [hlast] at h; cases h
  | some last =>
    rw [hlast] at h
    simp only [get_bind] at h ⊢
    cases hmemo : l.currentHitMemo offloadEnabled id last seq.prefixCacheHitBlockCount with
    | some entry =>
      rw [hmemo] at h
      cases h
      refine ⟨⟨l.prefixCache.memo, l.prefixHitCapacityCache, rfl⟩, fun memo => ?_⟩
      have hsame : (l.withMemo memo).currentHitMemo offloadEnabled id last
          seq.prefixCacheHitBlockCount = some entry := hmemo
      rw [hsame]
      rfl
    | none =>
      rw [hmemo] at h
      obtain ⟨memo, stored, rfl, hl, hb, hr, hc, ho, hcounts⟩ := countHitCapacity_run h
      refine ⟨⟨memo, _, rfl⟩, fun memo' => ?_⟩
      have hcurrent : (PrefixLookups.withMemo { l.withMemo memo with
          prefixHitCapacityCache := l.prefixHitCapacityCache.set id stored } memo').currentHitMemo
            offloadEnabled id last seq.prefixCacheHitBlockCount = some stored := by
        unfold currentHitMemo hitMemo
        simp [withMemo, hl, hb, hr, hc, ho]
      rw [hcurrent, ← hcounts]
      rfl

end PrefixLookups

/-! ## Queries of the manager -/

namespace StandardCacheManager

variable {B : Type} [LinearOrder B] {m m' : StandardCacheManager B}

/-- The manager with another index. -/
def withIndex (m : StandardCacheManager B) (s : StandardIndex B) : StandardCacheManager B :=
  { m with controller := { m.controller with prefixCache := s } }

omit [LinearOrder B] in
theorem onIndex_ok {α : Type} {p : PrefixIndexM B StandardPrefixBlockPayload α} {a : α}
    {s : StandardIndex B} (h : p m.prefixCache = .ok a s) : onIndex p m = .ok a (m.withIndex s) := by
  unfold onIndex onController StandardPrefixOffloadController.onIndex
  exact zoom_ok (zoom_ok h)

theorem onIndex_view (m : StandardCacheManager B) (view : CapacityView) :
    onIndex (RadixPrefixIndex.memoised view) m = .ok (m.prefixCache.viewIds view)
      (m.withIndex (m.prefixCache.afterView view)) :=
  onIndex_ok (RadixPrefixIndex.memoised_eq _ view)

/-- A view asked for again is answered the same, and nothing moves. -/
theorem onIndex_view_again (m : StandardCacheManager B) (view : CapacityView) :
    onIndex (RadixPrefixIndex.memoised view) (m.withIndex (m.prefixCache.afterView view)) =
      .ok (m.prefixCache.viewIds view) (m.withIndex (m.prefixCache.afterView view)) :=
  onIndex_ok (RadixPrefixIndex.repeatable_memoised view (RadixPrefixIndex.memoised_eq _ view))

/-! ### Reclaimable slots -/

theorem prefixFreeableIdsForCapacity_outside (h : m.snapshotDepth = 0) :
    prefixFreeableIdsForCapacity m = onIndex (RadixPrefixIndex.memoised .freeable) m := by
  unfold prefixFreeableIdsForCapacity
  rw [get_bind, if_pos h]
  rfl

theorem prefixFreeableIdsForCapacity_stored {ids : Finset B} (h : m.snapshotDepth ≠ 0)
    (hmemo : m.schedulerFreeableBlockIds = some ids) :
    prefixFreeableIdsForCapacity m = .ok ids m := by
  unfold prefixFreeableIdsForCapacity
  rw [get_bind, if_neg h, hmemo]
  rfl

theorem prefixFreeableIdsForCapacity_store (h : m.snapshotDepth ≠ 0)
    (hmemo : m.schedulerFreeableBlockIds = none) :
    prefixFreeableIdsForCapacity m = .ok (m.prefixCache.viewIds .freeable)
      { m.withIndex (m.prefixCache.afterView .freeable) with
        schedulerFreeableBlockIds := some (m.prefixCache.viewIds .freeable) } := by
  unfold prefixFreeableIdsForCapacity
  rw [get_bind, if_neg h, hmemo]
  exact bind_ok (onIndex_view m .freeable)

/-- Equal in all but memos that a count of slots reads. -/
structure SameCounts (m m' : StandardCacheManager B) : Prop where
  freeSlots : m'.freeSlots = m.freeSlots
  freeRows : m'.freeRows = m.freeRows
  snapshotDepth : m'.snapshotDepth = m.snapshotDepth
  enablePrefixCaching : m'.enablePrefixCaching = m.enablePrefixCaching
  stored : m'.schedulerReclaimableSlots = m.schedulerReclaimableSlots

theorem reclaimableIds_run (m : StandardCacheManager B) :
    ∃ ids m', reclaimableIds m = .ok ids m' ∧ reclaimableIds m' = .ok ids m' ∧ SameCounts m m' := by
  have hoffload : ∀ n : StandardCacheManager B, n.offloadEnabled = true →
      reclaimableIds n = onIndex (RadixPrefixIndex.memoised .deviceReclaimable) n := by
    intro n hn
    unfold reclaimableIds
    rw [get_bind, if_pos hn]
    rfl
  have hplain : ∀ n : StandardCacheManager B, n.offloadEnabled = false →
      reclaimableIds n = prefixFreeableIdsForCapacity n := by
    intro n hn
    unfold reclaimableIds
    rw [get_bind, if_neg (by simp [hn])]
  -- The manager a view leaves behind has the same flags.
  let after (view : CapacityView) := m.withIndex (m.prefixCache.afterView view)
  cases hoff : m.offloadEnabled with
  | true =>
    refine ⟨_, _, (hoffload m hoff).trans (onIndex_view m _), ?_, ⟨rfl, rfl, rfl, rfl, rfl⟩⟩
    exact (hoffload (after _) hoff).trans (onIndex_view_again m .deviceReclaimable)
  | false =>
    rw [hplain m hoff]
    by_cases hdepth : m.snapshotDepth = 0
    · rw [prefixFreeableIdsForCapacity_outside hdepth]
      refine ⟨_, _, onIndex_view m _, ?_, ⟨rfl, rfl, rfl, rfl, rfl⟩⟩
      have hout := prefixFreeableIdsForCapacity_outside
        (show (after .freeable).snapshotDepth = 0 from hdepth)
      exact (hplain (after _) hoff).trans (hout.trans (onIndex_view_again m _))
    · cases hmemo : m.schedulerFreeableBlockIds with
      | some ids =>
        have hstored := prefixFreeableIdsForCapacity_stored hdepth hmemo
        exact ⟨ids, m, hstored, (hplain m hoff).trans hstored, ⟨rfl, rfl, rfl, rfl, rfl⟩⟩
      | none =>
        refine ⟨_, _, prefixFreeableIdsForCapacity_store hdepth hmemo, ?_, ⟨rfl, rfl, rfl, rfl, rfl⟩⟩
        let n : StandardCacheManager B := { after .freeable with
          schedulerFreeableBlockIds := some (m.prefixCache.viewIds .freeable) }
        have hstored : prefixFreeableIdsForCapacity n = .ok _ n :=
          prefixFreeableIdsForCapacity_stored hdepth rfl
        exact (hplain n hoff).trans hstored

/-- The count never raises; asked for again it is the same, and nothing moves. -/
theorem prefixStepReclaimableSlots_run (m : StandardCacheManager B) :
    ∃ slots m', prefixStepReclaimableSlots m = .ok slots m' ∧
      prefixStepReclaimableSlots m' = .ok slots m' ∧ m'.freeSlots = m.freeSlots ∧
      m'.freeRows = m.freeRows := by
  by_cases hcaching : m.enablePrefixCaching = false
  · have hzero : prefixStepReclaimableSlots m = .ok 0 m := by
      unfold prefixStepReclaimableSlots
      rw [get_bind, if_pos hcaching]
      rfl
    exact ⟨0, m, hzero, hzero, rfl, rfl⟩
  cases hmemo : m.schedulerReclaimableSlots.filter fun _ => m.snapshotDepth ≠ 0 with
  | some slots =>
    have hstored : prefixStepReclaimableSlots m = .ok slots m := by
      unfold prefixStepReclaimableSlots
      rw [get_bind, if_neg hcaching, hmemo]
      rfl
    exact ⟨slots, m, hstored, hstored, rfl, rfl⟩
  | none =>
    obtain ⟨ids, n, hids, hagain, hsame⟩ := reclaimableIds_run m
    have hcount : ∀ k : StandardCacheManager B, k.enablePrefixCaching ≠ false →
        (k.schedulerReclaimableSlots.filter fun _ => k.snapshotDepth ≠ 0) = none →
        reclaimableIds k = .ok ids n →
        prefixStepReclaimableSlots k = .ok (n.prefixResidentSlotsFor ids)
          (if n.snapshotDepth = 0 then n
            else { n with schedulerReclaimableSlots := some (n.prefixResidentSlotsFor ids) }) := by
      intro k hk hstored hrun
      unfold prefixStepReclaimableSlots countReclaimableSlots
      rw [get_bind, if_neg hk, hstored]
      exact bind_ok hrun
    have hcaching' : n.enablePrefixCaching ≠ false := by rwa [hsame.enablePrefixCaching]
    by_cases hdepth : n.snapshotDepth = 0
    · have hfirst := hcount m hcaching hmemo hids
      have hsecond := hcount n hcaching' (by simp [hdepth]) hagain
      rw [if_pos hdepth] at hfirst hsecond
      exact ⟨_, n, hfirst, hsecond, hsame.freeSlots, hsame.freeRows⟩
    · have hfirst := hcount m hcaching hmemo hids
      rw [if_neg hdepth] at hfirst
      refine ⟨_, _, hfirst, ?_, hsame.freeSlots, hsame.freeRows⟩
      unfold prefixStepReclaimableSlots
      rw [get_bind, if_neg (by exact hcaching')]
      simp only [Option.filter_some, hdepth, ne_eq, not_false_eq_true, decide_true, if_true]
      rfl

/-- The slots a pass counts on: the free ones and the reclaimable ones. -/
def capacity (m : StandardCacheManager B) : Nat := answer freeAndReclaimable m

/-- Counting them moves the manager to one where the count is settled. -/
theorem freeAndReclaimable_run (m : StandardCacheManager B) :
    ∃ m', freeAndReclaimable m = .ok m.capacity m' ∧ freeAndReclaimable m' = .ok m.capacity m' ∧
      m'.freeSlots = m.freeSlots ∧ m'.freeRows = m.freeRows := by
  obtain ⟨slots, n, hrun, hagain, hfree, hrows⟩ := prefixStepReclaimableSlots_run m
  have hfirst : freeAndReclaimable m = .ok (m.numFreeSlots + slots) n := by
    unfold freeAndReclaimable
    rw [get_bind, bind_ok hrun]
    rfl
  have hsecond : freeAndReclaimable n = .ok (m.numFreeSlots + slots) n := by
    unfold freeAndReclaimable
    rw [get_bind, bind_ok hagain]
    unfold numFreeSlots
    rw [hfree]
    rfl
  have hcap : m.capacity = m.numFreeSlots + slots := answer_ok hfirst
  rw [hcap]
  exact ⟨n, hfirst, hsecond, hfree, hrows⟩

/-! ### The cost of a prompt -/

/-- The manager over an index with other memos. -/
def withMemo (m : StandardCacheManager B) (memo : CapacityView → CapacityMemo B) :
    StandardCacheManager B :=
  m.withIndex { m.prefixCache with memo := memo }

theorem prefixHitChain_run {seqId : SeqId} {seq : Sequence B} {chain : List B}
    (h : prefixHitChain seqId seq m = .ok chain m') :
    m' = m ∧ ∀ memo, prefixHitChain seqId seq (m.withMemo memo) = .ok chain (m.withMemo memo) := by
  unfold prefixHitChain at h ⊢
  simp only [get_bind] at h ⊢
  have hmemo : ∀ memo, (m.withMemo memo).prefixHitCapacityCache.get? seqId =
      m.prefixHitCapacityCache.get? seqId := fun _ => rfl
  simp only [hmemo]
  cases hentry : m.prefixHitCapacityCache.get? seqId with
  | some entry => rw [hentry] at h; cases h; exact ⟨rfl, fun _ => rfl⟩
  | none =>
    rw [hentry] at h
    cases hlast : seq.prefixCacheHitLastBlockId with
    | none => rw [hlast] at h; cases h; exact ⟨rfl, fun _ => rfl⟩
    | some last =>
      rw [hlast] at h
      simp only at h ⊢
      cases hget : RadixPrefixIndex.getChain last seq.prefixCacheHitBlockCount m.prefixCache with
      | error e s =>
        unfold onIndex onController StandardPrefixOffloadController.onIndex at h
        rw [bind_error (zoom_error (zoom_error hget))] at h
        cases h
      | ok blocks s =>
        obtain ⟨rfl, hagain⟩ := RadixPrefixIndex.getChain_run hget m.prefixCache.memo
        rw [bind_ok (onIndex_ok hget)] at h
        cases h
        refine ⟨rfl, fun memo => ?_⟩
        have hother := (RadixPrefixIndex.getChain_run hget memo).2
        exact bind_ok (onIndex_ok (m := m.withMemo memo) hother)

theorem repeatable_prefixHitCapacitySlots (seqId : SeqId) (seq : Sequence B) :
    Repeatable (prefixHitCapacitySlots seqId seq) := by
  intro m m' slots h
  unfold prefixHitCapacitySlots at h
  rw [get_bind] at h
  by_cases hcaching : m.enablePrefixCaching = false
  · rw [if_pos hcaching] at h
    cases h
    unfold prefixHitCapacitySlots
    rw [get_bind, if_pos hcaching]
    rfl
  rw [if_neg hcaching] at h
  cases hcounts : PrefixLookups.prefixHitCapacityCounts m.offloadEnabled seqId seq m.lookups with
  | error e l =>
    unfold onLookups at h
    rw [bind_error (zoom_error hcounts)] at h
    cases h
  | ok counts l =>
    obtain ⟨⟨memo, hits, rfl⟩, hagain⟩ := PrefixLookups.prefixHitCapacityCounts_run hcounts
    -- The manager after the counts, and after the view.
    let counted : StandardCacheManager B := { m.withMemo memo with prefixHitCapacityCache := hits }
    have hfirst : onLookups (PrefixLookups.prefixHitCapacityCounts m.offloadEnabled seqId seq) m =
        .ok counts counted := by
      unfold onLookups
      exact zoom_ok hcounts
    rw [bind_ok hfirst] at h
    cases hchain : prefixHitChain seqId seq counted with
    | error e u => rw [bind_error hchain] at h; cases h
    | ok chain u =>
      obtain ⟨rfl, hchainAgain⟩ := prefixHitChain_run hchain
      rw [bind_ok hchain] at h
      let view : CapacityView := if m.offloadEnabled then .deviceReclaimable else .freeable
      have hquery : (if m.offloadEnabled then RadixPrefixIndex.deviceReclaimableBlockIds
          else RadixPrefixIndex.freeableBlockIds :
            PrefixIndexM B StandardPrefixBlockPayload (Finset B)) =
          RadixPrefixIndex.memoised view := by
        cases hoff : m.offloadEnabled <;> simp only [view, hoff] <;> rfl
      rw [hquery, bind_ok (onIndex_view counted view), get_bind] at h
      cases h
      obtain ⟨memo', hmemo'⟩ :=
        (RadixPrefixIndex.sameAnswers_afterView counted.prefixCache view).memos
      have hafter : counted.withIndex (counted.prefixCache.afterView view) =
          counted.withMemo memo' := by
        unfold withMemo
        rw [hmemo']
      have hview := onIndex_view_again counted view
      rw [hafter] at hview ⊢
      have hcountsAgain : onLookups (PrefixLookups.prefixHitCapacityCounts m.offloadEnabled seqId seq)
          (counted.withMemo memo') = .ok counts (counted.withMemo memo') := by
        have hrun : PrefixLookups.prefixHitCapacityCounts m.offloadEnabled seqId seq
            (counted.withMemo memo').lookups = .ok counts (counted.withMemo memo').lookups :=
          hagain memo'
        unfold onLookups
        exact zoom_ok hrun
      unfold prefixHitCapacitySlots
      rw [get_bind, if_neg (by exact hcaching)]
      show (onLookups (PrefixLookups.prefixHitCapacityCounts m.offloadEnabled seqId seq) >>= _)
        (counted.withMemo memo') = _
      rw [bind_ok hcountsAgain, bind_ok (hchainAgain memo')]
      show (onIndex (if m.offloadEnabled then RadixPrefixIndex.deviceReclaimableBlockIds
        else RadixPrefixIndex.freeableBlockIds) >>= _) (counted.withMemo memo') = _
      rw [hquery, bind_ok hview]
      rfl

theorem repeatable_promptAdmissionCost (seqId : SeqId) (seq : Sequence B) :
    Repeatable (promptAdmissionCost seqId seq) := by
  intro m m' cost h
  unfold promptAdmissionCost at h ⊢
  by_cases hhit : seq.prefixCacheHitLen = 0
  · rw [if_pos hhit] at h ⊢
    cases h
    rfl
  · rw [if_neg hhit] at h ⊢
    cases hslots : prefixHitCapacitySlots seqId seq m with
    | error e u => rw [bind_error hslots] at h; cases h
    | ok slots u =>
      rw [bind_ok hslots] at h
      cases h
      exact bind_ok (repeatable_prefixHitCapacitySlots seqId seq hslots)

end StandardCacheManager

/-! ## The runtime state -/

namespace RuntimeState

variable {B P : Type} [LinearOrder B]

/-- The coordinator's reclaimable slots. -/
def mixedCapacity (r : RuntimeState B P) : Int := answer mixedPrefixReclaimableSlots r

omit [LinearOrder B] in
/-- A method of the cache manager leaves the rest of the runtime state alone. -/
theorem onCache_ok {α : Type} {p : StandardM B α} {r : RuntimeState B P} {a : α}
    {m : StandardCacheManager B} (h : p r.cacheManager = .ok a m) :
    onCache p r = .ok a { r with cacheManager := m } := by
  unfold onCache
  exact zoom_ok h

omit [LinearOrder B] in
theorem onCoordinator_ok {α : Type} {p : PrefixLookupM B P α} {c : PrefixCacheCoordinator B P}
    {a : α} {l : PrefixLookups B P} (h : p c.lookups = .ok a l) (r : RuntimeState B P) :
    onCoordinator c p r =
      .ok a { r with prefixCacheCoordinator := some { c with lookups := l } } := by
  unfold onCoordinator zoom
  rw [h]

omit [LinearOrder B] in
theorem onCoordinator_error {α : Type} {p : PrefixLookupM B P α} {c : PrefixCacheCoordinator B P}
    {e : PrefixHitError B} {l : PrefixLookups B P} (h : p c.lookups = .error e l)
    (r : RuntimeState B P) : onCoordinator c p r =
      .error (.coordinator e) { r with prefixCacheCoordinator := some { c with lookups := l } } := by
  unfold onCoordinator zoom
  rw [h]

/-- The coordinator's count depends on the coordinator only, never raises, and is settled once
asked for. -/
theorem mixedPrefixReclaimableSlots_run (c : Option (PrefixCacheCoordinator B P)) :
    ∃ slots c', 0 ≤ slots ∧
      (∀ r : RuntimeState B P, r.prefixCacheCoordinator = c →
        mixedPrefixReclaimableSlots r = .ok slots { r with prefixCacheCoordinator := c' }) ∧
      ∀ r : RuntimeState B P, r.prefixCacheCoordinator = c' →
        mixedPrefixReclaimableSlots r = .ok slots r := by
  have hnone : ∀ r : RuntimeState B P, r.prefixCacheCoordinator = none →
      mixedPrefixReclaimableSlots r = .ok 0 r := by
    intro r hr
    unfold mixedPrefixReclaimableSlots
    rw [get_bind, hr]
    rfl
  have hsome : ∀ (r : RuntimeState B P) (c : PrefixCacheCoordinator B P),
      r.prefixCacheCoordinator = some c →
        mixedPrefixReclaimableSlots r = coordinatorReclaimableSlots c r := by
    intro r c hr
    unfold mixedPrefixReclaimableSlots
    rw [get_bind, hr]
  cases c with
  | none =>
    refine ⟨0, none, le_rfl, fun r hr => ?_, hnone⟩
    rw [hnone r hr, ← hr]
  | some c =>
    cases hen : c.enabled with
    | false =>
      have hzero : ∀ r : RuntimeState B P, r.prefixCacheCoordinator = some c →
          mixedPrefixReclaimableSlots r = .ok 0 r := by
        intro r hr
        rw [hsome r c hr]
        unfold coordinatorReclaimableSlots
        rw [if_pos hen]
        rfl
      refine ⟨0, some c, le_rfl, fun r hr => ?_, hzero⟩
      rw [hzero r hr, ← hr]
    | true =>
      obtain ⟨memo, ids, hids, hagain⟩ :=
        PrefixLookups.reclaimableIds_eq c.offloadEnabled c.lookups
      have hcount : ∀ (c' : PrefixCacheCoordinator B P) (l : PrefixLookups B P)
          (r : RuntimeState B P), c'.enabled = true →
          PrefixLookups.reclaimableIds c'.offloadEnabled c'.lookups = .ok ids l →
          coordinatorReclaimableSlots c' r = .ok (ids.card * c'.blockSize : Int)
            { r with prefixCacheCoordinator := some { c' with lookups := l } } := by
        intro c' l r hc' hrun
        unfold coordinatorReclaimableSlots
        rw [if_neg (by simp [hc'])]
        exact bind_ok (onCoordinator_ok hrun r)
      refine ⟨ids.card * c.blockSize, some { c with lookups := c.lookups.withMemo memo },
        Int.mul_nonneg (Int.natCast_nonneg _) (Int.natCast_nonneg _), fun r hr => ?_,
        fun r hr => ?_⟩
      · rw [hsome r c hr, hcount c _ r hen hids]
      · rw [hsome r _ hr, hcount { c with lookups := c.lookups.withMemo memo } _ r hen hagain, ← hr]

/-- The charge of the coordinator is not negative; asked for again it is the same, in every state
with the coordinator the first question left. -/
theorem mixedPrefixHitSlots_run {seqId : SeqId} {seq : Sequence B} {r r' : RuntimeState B P}
    {slots : Int} (h : mixedPrefixHitSlots seqId seq r = .ok slots r') :
    0 ≤ slots ∧ r'.cacheManager = r.cacheManager ∧
      ∀ u : RuntimeState B P, u.prefixCacheCoordinator = r'.prefixCacheCoordinator →
        mixedPrefixHitSlots seqId seq u = .ok slots u := by
  unfold mixedPrefixHitSlots at h ⊢
  simp only [get_bind] at h ⊢
  cases hc : r.prefixCacheCoordinator with
  | none =>
    rw [hc] at h
    cases h
    refine ⟨le_rfl, rfl, fun u hu => ?_⟩
    rw [hu, hc]
    rfl
  | some c =>
    rw [hc] at h
    simp only at h
    unfold coordinatorHitSlots at h
    by_cases hoff : c.enabled = false ∨ seq.prefixCacheHitLen = 0
    · rw [if_pos hoff] at h
      cases h
      refine ⟨le_rfl, rfl, fun u hu => ?_⟩
      rw [hu, hc]
      show coordinatorHitSlots c seqId seq u = _
      unfold coordinatorHitSlots
      rw [if_pos hoff]
      rfl
    · rw [if_neg hoff] at h
      cases hcounts : PrefixLookups.prefixHitCapacityCounts c.offloadEnabled seqId seq c.lookups with
      | error e l => rw [bind_error (onCoordinator_error hcounts r)] at h; cases h
      | ok counts l =>
        rw [bind_ok (onCoordinator_ok hcounts r)] at h
        cases h
        refine ⟨Int.mul_nonneg (by omega) (by omega), rfl, fun u hu => ?_⟩
        have hu' : u.prefixCacheCoordinator = some { c with lookups := l } := hu
        have hagain : PrefixLookups.prefixHitCapacityCounts c.offloadEnabled seqId seq l =
            .ok counts l :=
          (PrefixLookups.prefixHitCapacityCounts_run hcounts).2 l.prefixCache.memo
        have hself : ({ u with prefixCacheCoordinator := some { c with lookups := l } } :
            RuntimeState B P) = u := by
          rw [← hu']
        rw [hu']
        show coordinatorHitSlots { c with lookups := l } seqId seq u = _
        unfold coordinatorHitSlots
        rw [if_neg hoff]
        refine (bind_ok (onCoordinator_ok (c := { c with lookups := l }) hagain u)).trans ?_
        show EStateM.Result.ok _ _ = _
        rw [hself]

omit [LinearOrder B] in
theorem onCache_error {α : Type} {p : StandardM B α} {r : RuntimeState B P}
    {e : StandardCacheError B} {m : StandardCacheManager B} (h : p r.cacheManager = .error e m) :
    onCache p r = .error (.cache e) { r with cacheManager := m } := by
  unfold onCache
  exact zoom_error h

/-- The costs of a prompt; its logical reservation, asked for afterwards, is what it costs in
slots. -/
theorem promptAdmissionCosts_run {seqId : SeqId} {seq : Sequence B} {r r' : RuntimeState B P}
    {costs : List (AdmissionBudget × Int)}
    (h : promptAdmissionCosts seqId seq r = .ok costs r') :
    ∃ need resident, costs = [(.slots, need), (.rows, 1), (.residentSeqs, resident)] ∧
      ∀ u : RuntimeState B P, u.cacheManager = r'.cacheManager →
        u.prefixCacheCoordinator = r'.prefixCacheCoordinator →
        promptAdmissionCost seqId seq u = .ok need u := by
  unfold promptAdmissionCosts at h
  rw [get_bind] at h
  cases hcost : StandardCacheManager.promptAdmissionCost seqId seq r.cacheManager with
  | error e m => rw [bind_error (onCache_error hcost)] at h; cases h
  | ok cost m =>
    rw [bind_ok (onCache_ok hcost)] at h
    cases hextra : mixedPrefixHitSlots seqId seq { r with cacheManager := m } with
    | error e u => rw [bind_error hextra] at h; cases h
    | ok extra u =>
      obtain ⟨hpos, hmanager, hagain⟩ := mixedPrefixHitSlots_run hextra
      rw [bind_ok hextra] at h
      cases h
      refine ⟨_, _, rfl, fun v hv hc => ?_⟩
      have hcost' : StandardCacheManager.promptAdmissionCost seqId seq v.cacheManager =
          .ok cost v.cacheManager := by
        rw [hv, hmanager]
        exact StandardCacheManager.repeatable_promptAdmissionCost seqId seq hcost
      have hneed : (if extra ≤ 0 then cost else cost + extra) = cost + extra := by
        split <;> omega
      unfold promptAdmissionCost
      rw [bind_ok (onCache_ok hcost'), hneed]
      exact bind_ok (hagain v hc)

omit [LinearOrder B] in
/-- Starting at the hit changes nothing a cost reads. -/
theorem startedAtPrefixHit_fields (seq : Sequence B) :
    ∃ started, seq.startedAtPrefixHit = { seq with numPrefilledTokens := started } := by
  unfold Sequence.startedAtPrefixHit
  split
  · exact ⟨_, rfl⟩
  · exact ⟨_, rfl⟩

theorem promptAdmissionCost_started (seqId : SeqId) (seq : Sequence B) :
    (promptAdmissionCost seqId seq.startedAtPrefixHit : RuntimeStateM B P Int) =
      promptAdmissionCost seqId seq := by
  obtain ⟨started, h⟩ := startedAtPrefixHit_fields seq
  rw [h]
  rfl

omit [LinearOrder B] in
/-- A method of the runtime state, called by the scheduler. -/
theorem onRuntime_inv {α : Type} {p : RuntimeStateM B P α} {w w' : World (RuntimeState B P) B}
    {a : α} (h : onRuntime p w = .ok a w') :
    p w.oracle = .ok a w'.oracle ∧ w'.seqs = w.seqs := by
  unfold onRuntime zoom at h
  split at h
  · cases h
    exact ⟨‹_›, rfl⟩
  · cases h

/-- **The runtime state charges both accountings the same.** -/
theorem chargesAlike : ChargesAlike (oracle B P) .slots .rows where
  nodup {seq w w' costs} h := by
    obtain ⟨need, resident, rfl, _⟩ := promptAdmissionCosts_run (onRuntime_inv (B := B) h).1
    show [AdmissionBudget.slots, .rows, .residentSeqs].Nodup
    decide
  row {seq w w' costs} h := by
    obtain ⟨need, resident, rfl, _⟩ := promptAdmissionCosts_run (onRuntime_inv (B := B) h).1
    simp
  alike {seq w w₁ w₂ w₃ costs need} hcosts hadmitted hneed := by
    obtain ⟨hrun, hseqs₁⟩ := onRuntime_inv (B := B) hcosts
    have hadmitted' : onRuntime (onPromptAdmitted seq costs) w₁ = .ok () w₂ := hadmitted
    obtain ⟨hpromised, hseqs₂⟩ := onRuntime_inv hadmitted'
    obtain ⟨need', resident, rfl, hagain⟩ := promptAdmissionCosts_run hrun
    have hfields : w₂.oracle.cacheManager = w₁.oracle.cacheManager ∧
        w₂.oracle.prefixCacheCoordinator = w₁.oracle.prefixCacheCoordinator := by
      unfold onPromptAdmitted at hpromised
      rw [modify_apply] at hpromised
      injection hpromised with _ horacle
      rw [← horacle]
      split <;> exact ⟨rfl, rfl⟩
    obtain ⟨hlogical, -⟩ := onRuntime_inv (B := B) hneed
    have hrequest : (w₂.modifySeq seq Sequence.startedAtPrefixHit).seqs seq =
        (w.seqs seq).startedAtPrefixHit := by
      unfold World.modifySeq
      simp [hseqs₂, hseqs₁]
    have hcost := hagain w₂.oracle hfields.1 hfields.2
    rw [← promptAdmissionCost_started, ← hrequest] at hcost
    have hsame : promptAdmissionCost seq ((w₂.modifySeq seq Sequence.startedAtPrefixHit).seqs seq)
        w₂.oracle = .ok need w₃.oracle := hlogical
    rw [hcost] at hsame
    injection hsame with hneed' _
    rw [← hneed']
    exact List.mem_cons_self

/-! ## The counters a pass starts with -/

/-- The slots a pass counts on, of the manager and of the coordinator, and the same state after
the queries of `startPass`. -/
structure Settled (r r' : RuntimeState B P) : Prop where
  nonneg : 0 ≤ r.mixedCapacity
  free : StandardCacheManager.freeAndReclaimable r'.cacheManager =
    .ok r.cacheManager.capacity r'.cacheManager
  mixed : ∀ u : RuntimeState B P, u.prefixCacheCoordinator = r'.prefixCacheCoordinator →
    mixedPrefixReclaimableSlots u = .ok r.mixedCapacity u
  rows : r'.cacheManager.freeRows = r.cacheManager.freeRows
  residents : r'.residentSeqIds = r.residentSeqIds
  limit : r'.maxNumSeqsInGpu = r.maxNumSeqsInGpu

theorem promptAdmissionFreeSlots_run (r : RuntimeState B P) :
    ∃ r', promptAdmissionFreeSlots r = .ok (r.cacheManager.capacity + r.mixedCapacity) r' ∧
      Settled r r' := by
  obtain ⟨m, hrun, hagain, -, hrows⟩ := r.cacheManager.freeAndReclaimable_run
  obtain ⟨slots, c, hpos, hfirst, hmixed⟩ :=
    mixedPrefixReclaimableSlots_run (P := P) r.prefixCacheCoordinator
  have hcap : r.mixedCapacity = slots := answer_ok (hfirst r rfl)
  refine ⟨{ r with cacheManager := m, prefixCacheCoordinator := c }, ?_, ?_⟩
  · unfold promptAdmissionFreeSlots
    rw [bind_ok (onCache_ok hrun), bind_ok (hfirst { r with cacheManager := m } rfl), hcap]
    rfl
  · exact ⟨hcap ▸ hpos, hagain, fun u hu => hcap ▸ hmixed u hu, hrows, rfl, rfl⟩

/-- Every step of the scheduler is offered at least the coordinator's slots. -/
theorem prefillStepFreeSlots_run {r r' : RuntimeState B P} (h : Settled r r') :
    ∃ free, r.mixedCapacity ≤ free ∧ prefillStepFreeSlots r' = .ok free r' := by
  have hown : ∃ own : Nat, StandardCacheManager.prefillStepFreeSlots r'.cacheManager =
      .ok own r'.cacheManager := by
    unfold StandardCacheManager.prefillStepFreeSlots
    rw [get_bind]
    split
    · exact ⟨_, rfl⟩
    · exact ⟨_, h.free⟩
  obtain ⟨own, hown⟩ := hown
  refine ⟨own + r.mixedCapacity, by omega, ?_⟩
  unfold prefillStepFreeSlots
  rw [bind_ok (onCache_ok hown), bind_ok (h.mixed _ rfl)]
  rfl

/-- The slots budget of a pass. -/
def slotsBudget (r : RuntimeState B P) (reserved : Int) : Int :=
  max 0 ((r.cacheManager.capacity : Int) - reserved) + r.mixedCapacity

theorem promptAdmissionBudgets_run {r r' : RuntimeState B P} (h : Settled r r') (reserved : Int) :
    promptAdmissionBudgets reserved r' = .ok [(.slots, r.slotsBudget reserved),
      (.rows, r.cacheManager.freeRows.length),
      (.residentSeqs, (r.maxNumSeqsInGpu - r.residentSeqIds.length : Nat))] r' := by
  have hslots : (if r.mixedCapacity ≤ 0 then max 0 ((r.cacheManager.capacity : Int) - reserved)
      else max 0 ((r.cacheManager.capacity : Int) - reserved) + r.mixedCapacity) =
      r.slotsBudget reserved := by
    have := h.nonneg
    unfold slotsBudget
    split <;> omega
  unfold promptAdmissionBudgets
  rw [get_bind, bind_ok (onCache_ok h.free), bind_ok (h.mixed _ rfl), h.rows, h.residents, h.limit]
  rw [← hslots]
  rfl

/-- The counters of a pass with a waiting queue. -/
def firstPass (r : RuntimeState B P) (reserved stepFree : Int) : PrefillPass AdmissionBudget where
  promptLogicalFreeCount := max 0 (r.cacheManager.capacity + r.mixedCapacity - reserved)
  stepFreeCount := stepFree
  admissionBudgets := [(.slots, r.slotsBudget reserved), (.rows, r.cacheManager.freeRows.length),
    (.residentSeqs, (r.maxNumSeqsInGpu - r.residentSeqIds.length : Nat))]

omit [LinearOrder B] in
theorem onRuntime_ok {α : Type} {p : RuntimeStateM B P α} {w : World (RuntimeState B P) B} {a : α}
    {r : RuntimeState B P} (h : p w.oracle = .ok a r) :
    onRuntime p w = .ok a { w with oracle := r } := by
  unfold onRuntime
  exact zoom_ok h

omit [LinearOrder B] in
theorem ask_run {α : Type} {p : OracleM B P α} {s : Scheduler (RuntimeState B P) B} {a : α}
    {w : World (RuntimeState B P) B} (h : p s.world = .ok a w) :
    ask (ν := AdmissionBudget) p s = .ok a { s with world := w } := by
  unfold ask
  rw [h]

theorem startPass_run (cfg : SchedulerConfig) {s : Scheduler (RuntimeState B P) B}
    (hw : s.waiting ≠ []) :
    ∃ free r', s.world.oracle.mixedCapacity ≤ free ∧ Settled s.world.oracle r' ∧
      startPass cfg (oracle B P) s =
        .ok (s.world.oracle.firstPass (reservedPrefillSlots s.world.seqs s.waiting) free, 0)
          { s with world := { s.world with oracle := r' } } := by
  obtain ⟨r', hfree, hsettled⟩ := promptAdmissionFreeSlots_run s.world.oracle
  obtain ⟨free, hle, hstep⟩ := prefillStepFreeSlots_run hsettled
  have hbudgets := promptAdmissionBudgets_run hsettled
    (reservedPrefillSlots s.world.seqs s.waiting)
  let w : World (RuntimeState B P) B := { s.world with oracle := r' }
  let t : Scheduler (RuntimeState B P) B := { s with world := w }
  have hfree' : ask (ν := AdmissionBudget) (oracle B P).promptAdmissionFreeSlots s = .ok _ t :=
    ask_run (onRuntime_ok hfree)
  have hstep' : ask (ν := AdmissionBudget) (oracle B P).prefillStepFreeSlots t = .ok free t :=
    ask_run (onRuntime_ok (w := w) hstep)
  have hbudgets' : ask (ν := AdmissionBudget)
      ((oracle B P).promptAdmissionBudgets s.waiting cfg.enginePrefillChunkSize) t = .ok _ t :=
    ask_run (onRuntime_ok (w := w) hbudgets)
  refine ⟨free, r', hle, hsettled, ?_⟩
  unfold startPass
  have hnumFree : ask (ν := AdmissionBudget) (oracle B P).numFreeSlots s =
      .ok (s.world.oracle.cacheManager.numFreeSlots : Int) s := rfl
  have hreserved : ask (ν := AdmissionBudget)
      ((oracle B P).reservedPrefillSlots s.waiting cfg.enginePrefillChunkSize) s =
      .ok (reservedPrefillSlots s.world.seqs s.waiting) s := rfl
  rw [bind_ok hnumFree, get_bind, if_neg (by simpa using hw), bind_ok hreserved, bind_ok hfree',
    bind_ok hstep', bind_ok hbudgets']
  rfl

/-- The condition on the memory state and on what the partly prefilled prompts still need. -/
def Agrees (r : RuntimeState B P) (reserved : Int) : Prop :=
  reserved ≤ r.cacheManager.capacity ∨ r.mixedCapacity ≤ 0 ∨ r.cacheManager.freeRows = []

theorem covers_firstPass {r : RuntimeState B P} {reserved : Int} (h : r.Agrees reserved)
    (hpos : 0 ≤ r.mixedCapacity) (stepFree : Int) :
    Covers .slots .rows (r.firstPass reserved stepFree) := by
  have hslots : budgetOf (r.firstPass reserved stepFree).admissionBudgets .slots =
      max 0 ((r.cacheManager.capacity : Int) - reserved) + r.mixedCapacity := rfl
  have hrows : budgetOf (r.firstPass reserved stepFree).admissionBudgets .rows =
      r.cacheManager.freeRows.length := rfl
  have hlogical : (r.firstPass reserved stepFree).promptLogicalFreeCount =
      max 0 (r.cacheManager.capacity + r.mixedCapacity - reserved) := rfl
  unfold Covers
  rw [hslots, hrows, hlogical]
  rcases h with h | h | h
  · left; omega
  · left; omega
  · right; rw [h]; exact le_rfl

/-- No pass over this memory state, whose partly prefilled prompts need `reserved`, raises a
mismatch. -/
def NeverMismatches (r : RuntimeState B P) (reserved : Int) : Prop :=
  ∀ (cfg : SchedulerConfig) (s : Scheduler (RuntimeState B P) B), s.world.oracle = r →
    reservedPrefillSlots s.world.seqs s.waiting = reserved →
    ∀ e t, scheduleImpl cfg (oracle B P) s = .error e t → NoMismatch e

theorem neverMismatches_of_agrees {r : RuntimeState B P} {reserved : Int}
    (h : r.Agrees reserved) : r.NeverMismatches reserved := by
  rintro cfg s rfl rfl e t raised
  refine scheduleImpl_noMismatch cfg chargesAlike (fun pass margin u hstart => ?_) raised
  by_cases hw : s.waiting = []
  · have hempty : startPass cfg (oracle B P) s = .ok ({
        promptLogicalFreeCount := 0
        stepFreeCount := s.world.oracle.cacheManager.numFreeSlots
        admissionBudgets := [] }, 0) s := by
      unfold startPass
      have hnumFree : ask (ν := AdmissionBudget) (oracle B P).numFreeSlots s =
          .ok (s.world.oracle.cacheManager.numFreeSlots : Int) s := rfl
      rw [bind_ok hnumFree, get_bind, if_pos (by simp [hw])]
      rfl
    rw [hempty] at hstart
    cases hstart
    exact Or.inl le_rfl
  · obtain ⟨free, r', hle, hsettled, hrun⟩ := startPass_run cfg hw
    rw [hrun] at hstart
    cases hstart
    exact covers_firstPass h hsettled.nonneg free

/-! ## A pass that raises -/

/-- A fresh prompt with an image, which never has a prefix hit. -/
def freshPrompt (tokens : Nat) : Sequence B where
  tokenIds := List.replicate tokens 0
  numTokens := tokens
  numPromptTokens := tokens
  hasMultimodalDigest := true

/-- A prompt that still needs `tokens` of its slots. -/
def partialPrompt (tokens : Nat) : Sequence B where
  tokenIds := List.replicate (tokens + 1) 0
  numTokens := tokens + 1
  numPromptTokens := tokens + 1
  numPrefilledTokens := 1

/-- One token in each step. -/
def stepConfig : SchedulerConfig where
  maxNumSeqsInBatch := 1
  maxNumBatchedTokens := 1
  maxDecodingSeqs := 1
  enginePrefillChunkSize := 1
  sparseMethod := .vanilla
  sinkKeepTokens := 0
  recentKeepTokens := 0
  decodeKeepTokens := 0

/-- The queue: `fresh` has not started, the request after it is partly prefilled. -/
def gapQueue (r : RuntimeState B P) (fresh : SeqId) (tokens reserved : Nat) :
    Scheduler (RuntimeState B P) B where
  world := { oracle := r, seqs := fun id => if id = fresh then freshPrompt tokens
    else partialPrompt reserved }
  waiting := [fresh, fresh + 1]
  decoding := []

/-- The coordinator offers `mixed` slots, and the resident requests are those of `r`. -/
structure Offers (r r' : RuntimeState B P) (mixed : Int) : Prop where
  slots : ∀ u : RuntimeState B P, u.prefixCacheCoordinator = r'.prefixCacheCoordinator →
    mixedPrefixReclaimableSlots u = .ok mixed u
  residents : r'.residentSeqIds = r.residentSeqIds

theorem decodeStepFreeSlots_run {r r' : RuntimeState B P} {mixed : Int} (h : Offers r r' mixed) :
    ∃ free r'', decodeStepFreeSlots r' = .ok free r'' ∧ Offers r r'' mixed := by
  have hevictable : ∀ m : StandardCacheManager B, ∃ slots m',
      StandardCacheManager.prefixImmediatelyEvictableSlots m = .ok slots m' := by
    intro m
    unfold StandardCacheManager.prefixImmediatelyEvictableSlots
    rw [get_bind]
    split
    · exact ⟨_, _, rfl⟩
    · exact ⟨_, _, bind_ok (StandardCacheManager.onIndex_view m .evictable)⟩
  have hown : ∃ own m, StandardCacheManager.decodeStepFreeSlots r'.cacheManager = .ok own m := by
    unfold StandardCacheManager.decodeStepFreeSlots
    rw [get_bind]
    split
    · exact ⟨_, _, rfl⟩
    obtain ⟨slots, m', hslots⟩ := hevictable r'.cacheManager
    rw [bind_ok hslots]
    split
    · exact ⟨_, _, rfl⟩
    · obtain ⟨m'', hrun, -⟩ := m'.freeAndReclaimable_run
      exact ⟨_, _, hrun⟩
  obtain ⟨own, m, hown⟩ := hown
  refine ⟨own + mixed, { r' with cacheManager := m }, ?_, ⟨h.slots, h.residents⟩⟩
  unfold decodeStepFreeSlots
  rw [bind_ok (onCache_ok hown), bind_ok (h.slots { r' with cacheManager := m } rfl)]
  rfl

/-- A fresh prompt without a hit is offered a slot. -/
theorem prefillStepFreeSlotsFor_run {r r' : RuntimeState B P} {mixed : Int} {tokens : Nat}
    (h : Offers r r' mixed) (hmixed : 0 < mixed) (htokens : 0 < tokens) :
    ∃ free r'', 0 < free ∧ prefillStepFreeSlotsFor (freshPrompt tokens) r' = .ok free r'' ∧
      Offers r r'' mixed := by
  have hown : ∃ (own : Nat) (m : StandardCacheManager B),
      StandardCacheManager.prefillStepFreeSlots r'.cacheManager = .ok own m := by
    unfold StandardCacheManager.prefillStepFreeSlots
    rw [get_bind]
    split
    · exact ⟨_, _, rfl⟩
    · obtain ⟨m', hrun, -⟩ := r'.cacheManager.freeAndReclaimable_run
      exact ⟨_, _, hrun⟩
  obtain ⟨own, m, hown⟩ := hown
  let r'' : RuntimeState B P := { r' with cacheManager := m }
  have hstep : prefillStepFreeSlots r' = .ok (own + mixed) r'' := by
    unfold prefillStepFreeSlots
    rw [bind_ok (onCache_ok hown), bind_ok (h.slots r'' rfl)]
    rfl
  have hoffers : Offers r r'' mixed := ⟨h.slots, h.residents⟩
  unfold prefillStepFreeSlotsFor
  rw [bind_ok hstep, get_bind]
  cases hc : r''.prefixCacheCoordinator with
  | none => exact ⟨_, _, by omega, rfl, hoffers⟩
  | some c =>
    refine ⟨_, _, ?_, rfl, hoffers⟩
    have hlimit : 0 < mixedPrefixBoundaryLimit c (freshPrompt (B := B) tokens) := by
      unfold mixedPrefixBoundaryLimit freshPrompt
      split
      · simp only; omega
      · simp only [max_self, Nat.zero_mod]
        rw [if_neg (by omega)]
        omega
    omega

/-- A fresh prompt without a hit costs its tokens. -/
theorem promptAdmissionCost_fresh (seqId : SeqId) (tokens : Nat) (r : RuntimeState B P) :
    onCache (StandardCacheManager.promptAdmissionCost seqId (freshPrompt tokens)) r =
        .ok (tokens : Int) r ∧
      mixedPrefixHitSlots seqId (freshPrompt tokens) r = .ok 0 r := by
  constructor
  · have hcost : StandardCacheManager.promptAdmissionCost seqId (freshPrompt tokens)
        r.cacheManager = .ok (tokens : Int) r.cacheManager := by
      unfold StandardCacheManager.promptAdmissionCost
      show EStateM.Result.ok ((tokens : Int) - 0) _ = _
      rw [Int.sub_zero]
    rw [onCache_ok hcost]
  · unfold mixedPrefixHitSlots
    rw [get_bind]
    cases r.prefixCacheCoordinator with
    | none => rfl
    | some c =>
      show coordinatorHitSlots c seqId (freshPrompt tokens) r = _
      unfold coordinatorHitSlots
      rw [if_pos (Or.inr (show (freshPrompt (B := B) tokens).prefixCacheHitLen = 0 from rfl))]
      rfl

/-! ### Its steps -/

section Gap

variable {r r' : RuntimeState B P} {mixed : Int} {fresh : SeqId} {tokens reserved : Nat}

omit [LinearOrder B] in
theorem gapQueue_fresh :
    (gapQueue r fresh tokens reserved).world.seqs fresh = freshPrompt tokens := if_pos rfl

omit [LinearOrder B] in
theorem gapQueue_chunked :
    (gapQueue r fresh tokens reserved).world.seqs (fresh + 1) = partialPrompt reserved :=
  if_neg (Nat.succ_ne_self fresh)

theorem prefillBatchKey_chunked {id : SeqId} {s : Scheduler (RuntimeState B P) B}
    (h : (s.world.seqs id).multimodalFullPrefill = false) :
    prefillBatchKey (oracle B P) id s = .ok (.chunked, ()) s := by
  have hmode : ask (ν := AdmissionBudget) ((oracle B P).prefillExecutionMode id) s =
      .ok .chunked s := by
    refine ask_run (w := s.world) ?_
    show EStateM.Result.ok (if (s.world.seqs id).multimodalFullPrefill then _ else _) _ = _
    rw [h]
    rfl
  unfold prefillBatchKey
  rw [bind_ok hmode]
  rfl

/-- Refreshing the fresh prompt clears a hit it does not have. -/
theorem refresh_gap (id : SeqId) (hid : id = fresh ∨ id = fresh + 1) :
    refreshPrefillMetadata (oracle B P) id (gapQueue r fresh tokens reserved) =
      .ok () (gapQueue r fresh tokens reserved) := by
  have hget : getSeq (ε := RuntimeStateError B) (ν := AdmissionBudget) id
      (gapQueue r fresh tokens reserved) =
        .ok ((gapQueue r fresh tokens reserved).world.seqs id) (gapQueue r fresh tokens reserved) :=
    rfl
  unfold refreshPrefillMetadata
  rw [bind_ok hget]
  rcases hid with rfl | rfl
  · rw [gapQueue_fresh, if_pos ⟨rfl, Nat.sub_self _⟩]
    refine ask_run (w := (gapQueue r id tokens reserved).world) ?_
    show refreshPrefixCacheHit id _ = _
    unfold refreshPrefixCacheHit
    rw [get_bind, gapQueue_fresh,
      if_pos (show (freshPrompt (B := B) tokens).hasMultimodalDigest = true from rfl)]
    show EStateM.Result.ok () (World.modifySeq id _ _) = _
    unfold World.modifySeq
    rw [gapQueue_fresh]
    have hclear : (freshPrompt (B := B) tokens).clearPrefixCacheHit = freshPrompt tokens := rfl
    have hseqs : (gapQueue r id tokens reserved).world.seqs id = freshPrompt tokens := gapQueue_fresh
    rw [hclear, ← hseqs, Function.update_eq_self]
  · rw [gapQueue_chunked, if_neg (by rintro ⟨h, -⟩; exact absurd h Nat.one_ne_zero)]
    rfl

omit [LinearOrder B] in
theorem reservedPrefillSlots_gap :
    reservedPrefillSlots (gapQueue r fresh tokens reserved).world.seqs
      (gapQueue r fresh tokens reserved).waiting = reserved := by
  let need (seq : Sequence B) : Int :=
    if 0 < seq.numPrefilledTokens ∧ seq.numPrefilledTokens < seq.numPromptTokens
    then (seq.numPromptTokens - seq.numPrefilledTokens : Int) else 0
  have hfresh : need (freshPrompt tokens) = 0 := if_neg fun h => absurd h.1 (Nat.lt_irrefl 0)
  have hpartials : need (partialPrompt reserved) = reserved := by
    by_cases hpos : 1 < reserved + 1
    · have hneed : need (partialPrompt reserved) = ((reserved + 1 : Nat) : Int) - (1 : Nat) :=
        if_pos ⟨Nat.one_pos, hpos⟩
      omega
    · have hneed : need (partialPrompt reserved) = 0 := if_neg fun h => hpos h.2
      omega
  show need ((gapQueue r fresh tokens reserved).world.seqs fresh) +
    (need ((gapQueue r fresh tokens reserved).world.seqs (fresh + 1)) + 0) = reserved
  rw [gapQueue_fresh, gapQueue_chunked, hfresh, hpartials]
  omega

theorem passModes_gap : passModes (oracle B P) (gapQueue r fresh tokens reserved) =
    .ok [(.chunked, ())] (gapQueue r fresh tokens reserved) := by
  have hkeyFresh : prefillBatchKey (oracle B P) fresh (gapQueue r fresh tokens reserved) =
      .ok (.chunked, ()) _ := prefillBatchKey_chunked (by rw [gapQueue_fresh]; rfl)
  have hkeyPartial : prefillBatchKey (oracle B P) (fresh + 1) (gapQueue r fresh tokens reserved) =
      .ok (.chunked, ()) _ := prefillBatchKey_chunked (by rw [gapQueue_chunked]; rfl)
  have hpending : replayPending (gapQueue r fresh tokens reserved) = false := by
    show ([fresh, fresh + 1].any fun id => Sequence.isRecomputeReplay _) = false
    simp only [List.any_cons, List.any_nil, gapQueue_fresh, gapQueue_chunked]
    rfl
  unfold passModes prefillModeOrder
  rw [get_bind, hpending]
  show (collectPrefillModes (oracle B P) _ [fresh, fresh + 1] []) _ = _
  rw [hpending]
  unfold collectPrefillModes
  show (refreshPrefillMetadata (oracle B P) fresh >>= _) _ = _
  rw [bind_ok (refresh_gap fresh (Or.inl rfl)), bind_ok hkeyFresh]
  unfold collectPrefillModes
  show (refreshPrefillMetadata (oracle B P) (fresh + 1) >>= _) _ = _
  rw [bind_ok (refresh_gap (fresh + 1) (Or.inr rfl)), bind_ok hkeyPartial]
  rfl

/-- The fresh prompt fits the budgets and not the logical counter. -/
theorem admitPrompt_gap {pass : PrefillPass AdmissionBudget}
    {s : Scheduler (RuntimeState B P) B} (hseq : s.world.seqs fresh = freshPrompt tokens)
    (hslots : (tokens : Int) ≤ budgetOf pass.admissionBudgets .slots)
    (hrows : 1 ≤ budgetOf pass.admissionBudgets .rows)
    (hresidents : (if fresh ∈ s.world.oracle.residentSeqIds then 0 else 1 : Int) ≤
      budgetOf pass.admissionBudgets .residentSeqs)
    (hgap : pass.promptLogicalFreeCount < tokens) :
    ∃ t, admitPrompt (oracle B P) fresh pass s =
      .error (.promptAdmissionBudgetMismatch fresh tokens pass.promptLogicalFreeCount) t := by
  let costs : List (AdmissionBudget × Int) := [(.slots, tokens), (.rows, 1),
    (.residentSeqs, if fresh ∈ s.world.oracle.residentSeqIds then 0 else 1)]
  have hcosts : promptAdmissionCosts fresh (freshPrompt tokens) s.world.oracle =
      .ok costs s.world.oracle := by
    unfold promptAdmissionCosts
    rw [get_bind, bind_ok (promptAdmissionCost_fresh fresh tokens _).1,
      bind_ok (promptAdmissionCost_fresh fresh tokens _).2]
    rfl
  have hask : ask (ν := AdmissionBudget) ((oracle B P).promptAdmissionCosts fresh) s =
      .ok costs s := by
    refine ask_run (w := s.world) ?_
    show onRuntime (promptAdmissionCosts fresh (s.world.seqs fresh)) s.world = _
    rw [hseq, onRuntime_ok hcosts]
  have hfits : failedBudget pass.admissionBudgets costs = none := by
    simp only [costs, failedBudget]
    rw [if_neg (by omega), if_neg (by omega), if_neg (by omega)]
  -- The state in which the logical reservation is asked for.
  let admitted : RuntimeState B P :=
    if 0 < budgetOf costs .residentSeqs ∧ fresh ∉ s.world.oracle.residentSeqIds then
      { s.world.oracle with residentSeqIds := fresh :: s.world.oracle.residentSeqIds }
    else s.world.oracle
  let w : World (RuntimeState B P) B := { s.world with oracle := admitted }
  have hon : ask (ν := AdmissionBudget) ((oracle B P).onPromptAdmitted fresh costs) s =
      .ok () { s with world := w } := ask_run rfl
  have hlogical : ask (ν := AdmissionBudget) ((oracle B P).promptLogicalReservationCost fresh)
      { s with world := w.modifySeq fresh Sequence.startedAtPrefixHit } =
      .ok (tokens : Int) { s with world := w.modifySeq fresh Sequence.startedAtPrefixHit } := by
    refine ask_run (w := w.modifySeq fresh Sequence.startedAtPrefixHit) ?_
    have hfields : (w.modifySeq fresh Sequence.startedAtPrefixHit).seqs fresh =
        (freshPrompt tokens).startedAtPrefixHit := by
      unfold World.modifySeq
      simp [w, hseq]
    show onRuntime (promptAdmissionCost fresh _) _ = _
    rw [hfields, promptAdmissionCost_started]
    refine onRuntime_ok (r := admitted) ?_
    show promptAdmissionCost fresh (freshPrompt tokens) admitted = _
    unfold promptAdmissionCost
    rw [bind_ok (promptAdmissionCost_fresh fresh tokens admitted).1,
      bind_ok (promptAdmissionCost_fresh fresh tokens admitted).2]
    show EStateM.Result.ok ((tokens : Int) + 0) _ = _
    rw [Int.add_zero]
  refine ⟨{ s with world := w.modifySeq fresh Sequence.startedAtPrefixHit }, ?_⟩
  unfold admitPrompt
  rw [bind_ok hask, hfits]
  refine bind_error ?_
  unfold chargeAdmission
  show (ask _ >>= _) s = _
  rw [bind_ok hon]
  show (ask _ >>= _) { s with world := w.modifySeq fresh Sequence.startedAtPrefixHit } = _
  rw [bind_ok hlogical, raiseIf_bind, if_pos hgap]

theorem popNextPrefillSeq_gap :
    popNextPrefillSeq (oracle B P) (.chunked, ()) (gapQueue r fresh tokens reserved) =
      .ok (some fresh) { gapQueue r fresh tokens reserved with waiting := [fresh + 1] } := by
  have hkey : prefillBatchKey (oracle B P) fresh (gapQueue r fresh tokens reserved) =
      .ok (.chunked, ()) _ := prefillBatchKey_chunked (by rw [gapQueue_fresh]; rfl)
  have hpending : replayPending (gapQueue r fresh tokens reserved) = false := by
    show ([fresh, fresh + 1].any fun id => Sequence.isRecomputeReplay _) = false
    simp only [List.any_cons, List.any_nil, gapQueue_fresh, gapQueue_chunked]
    rfl
  have hfind : findPrefillSeq (oracle B P) (replayPending (gapQueue r fresh tokens reserved))
      (.chunked, ()) (gapQueue r fresh tokens reserved).waiting 0
      (gapQueue r fresh tokens reserved) = .ok (some 0) (gapQueue r fresh tokens reserved) := by
    rw [hpending]
    show findPrefillSeq (oracle B P) false (.chunked, ()) [fresh, fresh + 1] 0 _ = _
    have hget : getSeq (ε := RuntimeStateError B) (ν := AdmissionBudget) fresh
        (gapQueue r fresh tokens reserved) =
          .ok (freshPrompt tokens) (gapQueue r fresh tokens reserved) := by
      show EStateM.Result.ok ((gapQueue r fresh tokens reserved).world.seqs fresh) _ = _
      rw [gapQueue_fresh]
    unfold findPrefillSeq
    rw [bind_ok hget, if_neg (by simp), bind_ok hkey, if_pos rfl]
    rfl
  unfold popNextPrefillSeq
  rw [get_bind, bind_ok hfind]
  rfl

theorem prefillCandidate_gap {pass : PrefillPass AdmissionBudget} {stepFree : Int}
    (hoffers : Offers r r' mixed) (hmixed : 0 < mixed) (htokens : 0 < tokens)
    (hpass : pass = r.firstPass reserved stepFree) (hstep : 0 < stepFree)
    (hslots : (tokens : Int) ≤ r.slotsBudget reserved)
    (hrows : r.cacheManager.freeRows ≠ []) (hgpu : 0 < r.maxNumSeqsInGpu)
    (hfresh : fresh ∈ r.residentSeqIds ∨ r.residentSeqIds = [])
    (hgap : pass.promptLogicalFreeCount < tokens) :
    ∃ t, prefillCandidate stepConfig (oracle B P) .chunked fresh pass
        { gapQueue r' fresh tokens reserved with waiting := [fresh + 1] } =
      .error (.promptAdmissionBudgetMismatch fresh tokens pass.promptLogicalFreeCount) t := by
  obtain ⟨free, r'', hfree, hrun, hoffers'⟩ := prefillStepFreeSlotsFor_run hoffers hmixed htokens
  let s : Scheduler (RuntimeState B P) B :=
    { gapQueue r' fresh tokens reserved with waiting := [fresh + 1] }
  let t : Scheduler (RuntimeState B P) B :=
    { gapQueue r'' fresh tokens reserved with waiting := [fresh + 1] }
  have hremaining : ask (ν := AdmissionBudget) ((oracle B P).remainingPrefillTokens fresh) s =
      .ok (tokens : Int) s := by
    refine ask_run (w := s.world) ?_
    show EStateM.Result.ok (remainingPrefillTokens (s.world.seqs fresh)) _ = _
    have hseq : s.world.seqs fresh = freshPrompt tokens := gapQueue_fresh
    rw [hseq]
    show EStateM.Result.ok ((tokens : Int) - 0) _ = _
    rw [Int.sub_zero]
  have hcandidate : ask (ν := AdmissionBudget) ((oracle B P).prefillStepFreeSlotsFor fresh) s =
      .ok free t := by
    refine ask_run (w := t.world) ?_
    show onRuntime (prefillStepFreeSlotsFor (s.world.seqs fresh)) s.world = _
    have hseq : s.world.seqs fresh = freshPrompt tokens := gapQueue_fresh
    rw [hseq]
    exact onRuntime_ok hrun
  have hstaging : ask (ν := AdmissionBudget) ((oracle B P).shouldScheduleFullPrefill fresh) t =
      .ok false t := rfl
  have hminFinal : ∀ proposed : Int, respectMinFinalPrefillChunk (oracle B P) fresh tokens proposed
      t = .ok proposed t := by
    intro proposed
    have hask : ask (ν := AdmissionBudget) ((oracle B P).minFinalPrefillChunkSize fresh) t =
        .ok 0 t := rfl
    unfold respectMinFinalPrefillChunk
    rw [bind_ok hask, raiseIf_bind, if_neg (by decide), if_pos (Or.inl rfl)]
    rfl
  have hresidents : (if fresh ∈ t.world.oracle.residentSeqIds then 0 else 1 : Int) ≤
      budgetOf pass.admissionBudgets .residentSeqs := by
    have hbudget : budgetOf pass.admissionBudgets .residentSeqs =
        (r.maxNumSeqsInGpu - r.residentSeqIds.length : Nat) := by rw [hpass]; rfl
    have hsame : t.world.oracle.residentSeqIds = r.residentSeqIds := hoffers'.residents
    rw [hbudget, hsame]
    rcases hfresh with hmem | hnil
    · rw [if_pos hmem]
      omega
    · rw [hnil]
      simp only [List.not_mem_nil, if_false, List.length_nil]
      omega
  have hrowsBudget : 1 ≤ budgetOf pass.admissionBudgets .rows := by
    have hbudget : budgetOf pass.admissionBudgets .rows = r.cacheManager.freeRows.length := by
      rw [hpass]; rfl
    have := List.length_pos_of_ne_nil hrows
    omega
  have hslotsBudget : (tokens : Int) ≤ budgetOf pass.admissionBudgets .slots := by
    have hbudget : budgetOf pass.admissionBudgets .slots = r.slotsBudget reserved := by
      rw [hpass]; rfl
    omega
  obtain ⟨u, hpromised⟩ := admitPrompt_gap (s := t) gapQueue_fresh hslotsBudget hrowsBudget hresidents
    hgap
  have hchunk : 0 < prefillStepTokens stepConfig .chunked tokens pass.numBatchedTokens
      (min pass.stepFreeCount free) := by
    have hzero : pass.numBatchedTokens = 0 := by rw [hpass]; rfl
    have hfreeCount : pass.stepFreeCount = stepFree := by rw [hpass]; rfl
    unfold prefillStepTokens stepConfig
    rw [hzero, hfreeCount]
    simp only
    omega
  refine ⟨u, ?_⟩
  unfold prefillCandidate
  show (ask _ >>= _) s = _
  rw [bind_ok hremaining, bind_ok hcandidate, bind_ok hstaging]
  show (raiseIf _ _ >>= _) t = _
  rw [raiseIf_bind, if_neg (by omega)]
  show (respectMinFinalPrefillChunk (oracle B P) fresh tokens (prefillStepTokens stepConfig .chunked
    tokens pass.numBatchedTokens (min pass.stepFreeCount free)) >>= _) t = _
  rw [bind_ok (hminFinal _), if_neg (by omega)]
  have hget : getSeq (ε := RuntimeStateError B) (ν := AdmissionBudget) fresh t =
      .ok (freshPrompt tokens) t := by
    show EStateM.Result.ok (t.world.seqs fresh) _ = _
    rw [show t.world.seqs fresh = freshPrompt tokens from gapQueue_fresh]
  rw [bind_ok hget, if_pos (show (freshPrompt (B := B) tokens).numPrefilledTokens = 0 from rfl)]
  exact bind_error hpromised

end Gap

theorem agrees_of_neverMismatches {r : RuntimeState B P} {reserved : Int}
    (hgpu : 0 < r.maxNumSeqsInGpu) (h : r.NeverMismatches reserved) : r.Agrees reserved := by
  by_contra hgap
  unfold Agrees at hgap
  rw [not_or, not_or] at hgap
  obtain ⟨hreserved, hmixed, hrows⟩ := hgap
  rw [not_le] at hreserved hmixed
  lift reserved to ℕ using by omega
  obtain ⟨tokens, htokens⟩ : ∃ tokens : ℕ, r.mixedCapacity = tokens :=
    ⟨r.mixedCapacity.toNat, by omega⟩
  -- A resident request is charged no residence, so it fits even when no other may enter.
  let fresh : SeqId := r.residentSeqIds.headD 0
  have hfresh : fresh ∈ r.residentSeqIds ∨ r.residentSeqIds = [] := by
    cases hres : r.residentSeqIds with
    | nil => exact Or.inr rfl
    | cons id ids =>
      left
      show r.residentSeqIds.headD 0 ∈ _
      rw [hres]
      exact List.mem_cons_self
  let s := gapQueue r fresh tokens reserved
  have hwaiting : s.waiting ≠ [] := List.cons_ne_nil _ _
  have hsum : reservedPrefillSlots s.world.seqs s.waiting = reserved := reservedPrefillSlots_gap
  obtain ⟨stepFree, r', hle, hsettled, hstart⟩ := startPass_run stepConfig hwaiting
  have hle : r.mixedCapacity ≤ stepFree := hle
  rw [hsum] at hstart
  have hoffers : Offers r r' r.mixedCapacity := ⟨hsettled.mixed, hsettled.residents⟩
  obtain ⟨decodeFree, r'', hdecode, hoffers'⟩ := decodeStepFreeSlots_run hoffers
  let t := gapQueue r' fresh tokens reserved
  let u := gapQueue r'' fresh tokens reserved
  let pass := r.firstPass reserved stepFree
  have hpass : pass = r.firstPass reserved stepFree := rfl
  have hdecode' : ask (ν := AdmissionBudget) (oracle B P).decodeStepFreeSlots t =
      .ok decodeFree u := ask_run (w := u.world) (onRuntime_ok hdecode)
  have hgap : pass.promptLogicalFreeCount < tokens := by
    show max 0 ((r.cacheManager.capacity : Int) + r.mixedCapacity - reserved) < _
    omega
  have hslots : (tokens : Int) ≤ r.slotsBudget reserved := by
    unfold slotsBudget
    omega
  obtain ⟨v, hcandidate⟩ := prefillCandidate_gap hoffers' hmixed (by omega) hpass
    (by omega) hslots hrows hgpu hfresh hgap
  have hcontinue : canContinuePrefillBatch stepConfig .chunked pass 0 u = true := by
    show (decide (0 < stepFree) && true && true) = true
    simp only [Bool.and_true, decide_eq_true_eq]
    omega
  have hbuckets : prefillBuckets stepConfig (oracle B P) 0 [(.chunked, ())] pass u =
      .error (.promptAdmissionBudgetMismatch fresh tokens pass.promptLogicalFreeCount) v := by
    unfold prefillBuckets
    rw [if_pos (show pass.scheduledSeqs.isEmpty = true from rfl), get_bind]
    refine bind_error ?_
    show prefillBucket stepConfig (oracle B P) 0 (.chunked, ()) (1 + 1) pass u = _
    unfold prefillBucket
    rw [get_bind, hcontinue, if_pos rfl, bind_ok popNextPrefillSeq_gap]
    exact bind_error hcandidate
  refine h stepConfig s rfl hsum _ v ?_ fresh tokens pass.promptLogicalFreeCount rfl
  unfold scheduleImpl
  rw [bind_ok hstart]
  show (ask _ >>= _) t = _
  rw [bind_ok hdecode', bind_ok passModes_gap]
  exact bind_error hbuckets

/-! ### One memory state -/

/-- One cached block of four tokens that nothing refers to. -/
@[irreducible] def cachedIndex : RadixPrefixIndex Nat Unit :=
  runAll RadixPrefixIndex.IndexOp.exec (RadixPrefixIndex.initial 4 none) [.insert
    { stableBlockId := 7, parentBlockId := none, blockSize := 4, logicalBlockIdx := 0,
      payload := (), tokenIds := [1, 2, 3, 4] }]

/-- A manager without prefix caching and with `free` slots, under a coordinator with one cached
block. -/
def mixedRuntime (free : Nat) : RuntimeState Nat Unit where
  cacheManager :=
    { stableBlockId := fun tokens _ => tokens.length
      prefixCacheBlockSize := 4
      maxNumBatchedTokens := 8
      maxDecodingSeqs := 2
      enablePrefixCaching := false
      offloadEnabled := false
      freeSlots := List.range free
      freeRows := [0, 1]
      controller :=
        { prefixCache := RadixPrefixIndex.initial 4 none
          blockSize := 4 } }
  prefixCacheCoordinator := some
    { blockSize := 4
      enabled := true
      offloadEnabled := false
      stableBlockId := fun tokens _ => tokens.length
      lookups := { prefixCache := cachedIndex }
      poll := pure () }
  maxNumSeqsInGpu := 2

/-- Request 0 is a fresh prompt of four tokens, request 1 still needs five of its six. -/
def crowdedQueue (free : Nat) : Scheduler (RuntimeState Nat Unit) Nat where
  world :=
    { oracle := mixedRuntime free
      seqs := fun id => if id = 0 then Sequence.ofPrompt [5, 6, 7, 8]
        else { Sequence.ofPrompt [1, 2, 3, 4, 5, 6] with numPrefilledTokens := 1 } }
  waiting := [0, 1]
  decoding := []

/-- With no free slot the fresh prompt fits the four slots the coordinator offers, and the logical
counter is zero. -/
theorem mismatch_raised : ∃ t, scheduleImpl stepConfig (oracle Nat Unit) (crowdedQueue 0) =
    .error (.promptAdmissionBudgetMismatch 0 4 0) t :=
  raises_eq_some.mp (by decide +kernel)

/-- **When admission cannot mismatch**: no pass over a memory state raises a mismatch exactly when
the partly prefilled prompts still need no more than the manager's free and reclaimable slots, or
the coordinator offers nothing, or no row is free. -/
theorem neverMismatches_iff {r : RuntimeState B P} {reserved : Int}
    (limit : 0 < r.maxNumSeqsInGpu) : r.NeverMismatches reserved ↔ r.Agrees reserved :=
  ⟨agrees_of_neverMismatches limit, neverMismatches_of_agrees⟩

theorem neverMismatches_mixedRuntime :
    (mixedRuntime 0).NeverMismatches 0 ∧ ¬ (mixedRuntime 0).NeverMismatches 5 := by
  have hiff (reserved : Int) : (mixedRuntime 0).NeverMismatches reserved ↔
      (mixedRuntime 0).Agrees reserved := neverMismatches_iff (by decide)
  have hcapacity : (mixedRuntime 0).cacheManager.capacity = 0 := by decide +kernel
  have hmixed : (mixedRuntime 0).mixedCapacity = 4 := by decide +kernel
  constructor
  · exact (hiff 0).mpr (Or.inl (by rw [hcapacity]; decide))
  · intro h
    rcases (hiff 5).mp h with h | h | h
    · rw [hcapacity] at h
      exact absurd h (by decide)
    · rw [hmixed] at h
      exact absurd h (by decide)
    · cases h

end RuntimeState

end SparseVllm
