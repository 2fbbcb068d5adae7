import Mathlib.Algebra.Order.BigOperators.Group.Finset
import SparseVllm.Prefix.CapacityEpoch
import SparseVllm.Prefix.Greedy
import SparseVllm.Prefix.Query
import SparseVllm.Prefix.Residency

/-!
# What eviction and demotion deliver

`freeable_block_ids` and `device_freeable_block_ids` promise capacity, and the greedy loops redeem it:
they take blocks of the promised set alone, each after what is below it, and all of the set when less
will not do. `device_reclaimable_block_ids` promises the blocks in D2H too. They are freeable once
every D2H is finished, if the set was not stale: the memo of that view can be (`reclaimable_stale`).

## Results

* **`evict_delivers`**: `evict_until_weight`, in every reachable state.
* **`demote_delivers_of_kept`**: `demote_device_until_weight` and the reclaimable set, in every state
  of contiguous residency of a run that keeps the memo; `reclaimed_not_freeable` is the stale memo.
-/

namespace SparseVllm.RadixPrefixIndex

open SparseVllm.Lib

variable {B P : Type} [LinearOrder B] {s t : RadixPrefixIndex B P} {id : B}
  {b : PrefixCacheBlock B P}

/-! ## A harvest of a promised set -/

/-- The weight of the block at `id`. -/
def weightAt (s : RadixPrefixIndex B P) (weight : PrefixCacheBlock B P → Int) (id : B) : Int :=
  match s.getBlock id with
  | some b => weight b
  | none => 0

/-- `blocks`, taken in order, are of the promised ids, and as many as `needed` asks for. -/
structure Delivered (below : B → B → Prop) (promised : Finset B)
    (weight : PrefixCacheBlock B P → Int) (needed : Int) (s : RadixPrefixIndex B P)
    (blocks : List (PrefixCacheBlock B P)) : Prop where
  here : ∀ b ∈ blocks, s.getBlock b.stableBlockId = some b
  among : ∀ b ∈ blocks, b.stableBlockId ∈ promised
  once : (blocks.map (·.stableBlockId)).Nodup
  after : ∀ pre b post, blocks = pre ++ b :: post →
    ∀ d, below d b.stableBlockId → d ∈ pre.map (·.stableBlockId)
  enough : needed ≤ promised.sum (s.weightAt weight) → needed ≤ totalWeight weight blocks
  whole : promised.sum (s.weightAt weight) < needed →
    ∀ id, id ∈ promised ↔ id ∈ blocks.map (·.stableBlockId)
  unit : 0 ≤ needed → (∀ b, weight b = 1) → (blocks.length : Int) = min needed promised.card

section Harvest

variable {policy : EvictionPolicy B P} {child : RadixPrefixIndex B P → B → B → Prop}
  {ok : RadixPrefixIndex B P → B → Prop}
  {left : PrefixCacheBlock B P → Option (PrefixCacheBlock B P)} {needed : Int}
  {blocks : List (PrefixCacheBlock B P)}

theorem totalWeight_eq {weight : PrefixCacheBlock B P → Int}
    (hhere : ∀ b ∈ blocks, s.getBlock b.stableBlockId = some b)
    (hnodup : (blocks.map (·.stableBlockId)).Nodup) :
    totalWeight weight blocks =
      (blocks.map (·.stableBlockId)).toFinset.sum (s.weightAt weight) := by
  rw [List.sum_toFinset _ hnodup, List.map_map]
  unfold totalWeight
  congr 1
  apply List.map_congr_left
  intro b hb
  simp [weightAt, hhere b hb]

omit [LinearOrder B] in
theorem totalWeight_unit {weight : PrefixCacheBlock B P → Int} (hunit : ∀ b, weight b = 1)
    (blocks : List (PrefixCacheBlock B P)) : totalWeight weight blocks = blocks.length := by
  unfold totalWeight
  induction blocks with
  | nil => rfl
  | cons b blocks ih =>
    rw [List.map_cons, List.sum_cons, ih, hunit, List.length_cons]
    omega

/-- **A harvest delivers what the peelable set promises.** -/
theorem Harvest.delivered (h : Harvest policy child ok left needed 0 s blocks t)
    (hweight : ∀ b, 0 ≤ policy.weight b) {promised : Finset B}
    (hpromised : ∀ id, id ∈ promised ↔ Peelable (child s) (ok s) id) :
    Delivered (Relation.TransGen (child s)) promised policy.weight needed s blocks := by
  have hhere := fun b hb => (h.mem b hb).1
  have hmem : ∀ id ∈ blocks.map (·.stableBlockId), id ∈ promised := by
    intro id hid
    rw [hpromised]
    exact h.peeling.peelable (fun _ hy => False.elim hy) hid
  have hsub : (blocks.map (·.stableBlockId)).toFinset ⊆ promised := by
    intro id hid
    exact hmem id (List.mem_toFinset.mp hid)
  have hweightAt : ∀ id, 0 ≤ s.weightAt policy.weight id := by
    intro id
    unfold weightAt
    cases s.getBlock id with
    | none => exact le_rfl
    | some b => exact hweight b
  have htotal : totalWeight policy.weight blocks = _ := totalWeight_eq hhere h.peeling.nodup
  have hle : totalWeight policy.weight blocks ≤ promised.sum (s.weightAt policy.weight) := by
    rw [htotal]
    exact Finset.sum_le_sum_of_subset_of_nonneg hsub fun id _ _ => hweightAt id
  -- short of the weight, nothing peelable is left
  have hall : ¬ needed ≤ totalWeight policy.weight blocks →
      (blocks.map (·.stableBlockId)).toFinset = promised := by
    intro hshort
    refine Finset.Subset.antisymm hsub fun id hid => ?_
    rw [List.mem_toFinset]
    rcases h.enough with henough | hmax
    · exact absurd (by omega) hshort
    · exact Peeling.complete hmax ((hpromised id).mp hid)
  refine ⟨hhere, fun b hb => hmem _ (List.mem_map_of_mem hb), h.peeling.nodup, ?_, ?_, ?_, ?_⟩
  · rintro pre b post rfl d hd
    rcases h.peeling.before (fun _ hy => False.elim hy) (List.map_append ..) hd with hempty | hpre
    · exact False.elim hempty
    · exact hpre
  · intro hneeded
    by_contra hshort
    have hsame := hall hshort
    rw [htotal, hsame] at hshort
    exact hshort hneeded
  · intro hlow id
    rw [← hall (by omega), List.mem_toFinset]
  · intro hneeded hunit
    have hlength := totalWeight_unit hunit blocks
    have hcard : (blocks.map (·.stableBlockId)).toFinset.card = blocks.length := by
      rw [List.toFinset_card_of_nodup h.peeling.nodup, List.length_map]
    have hbound := Finset.card_le_card hsub
    have htight : (blocks.length : Int) ≤ needed := by
      rcases List.eq_nil_or_concat' blocks with rfl | ⟨pre, b, rfl⟩
      · simpa using hneeded
      · have := h.tight pre b [] rfl
        rw [totalWeight_unit hunit] at this
        rw [List.length_append, List.length_singleton]
        omega
    by_cases hshort : needed ≤ totalWeight policy.weight blocks
    · omega
    · rw [← hall hshort] at hbound ⊢
      omega

end Harvest

/-! ## Eviction -/

theorem removableAt_iff : At (fun b => decide (Removable b)) s id ↔ s.removableAt id = true := by
  unfold At removableAt
  cases s.getBlock id with
  | none => simp
  | some b => simp

/-- What is left after an eviction: the others, with all their fields and their parents. -/
structure EvictedFrom (s : RadixPrefixIndex B P) (ids : List B) (t : RadixPrefixIndex B P) : Prop where
  blocks : ∀ id, t.getBlock id = if id ∈ ids then none else s.getBlock id
  edges : ∀ e, e ∈ t.backend.edges ↔ e ∈ s.backend.edges ∧ e.1 ∉ ids

theorem Harvest.evictedFrom {policy : EvictionPolicy B P}
    {child : RadixPrefixIndex B P → B → B → Prop} {ok : RadixPrefixIndex B P → B → Prop}
    {needed taken : Int} {blocks : List (PrefixCacheBlock B P)} (hs : Indexed s)
    (h : Harvest policy child ok (fun _ => none) needed taken s blocks t) :
    EvictedFrom s (blocks.map (·.stableBlockId)) t := by
  have hblocks : ∀ id, t.getBlock id =
      if id ∈ blocks.map (·.stableBlockId) then none else s.getBlock id := by
    intro id
    split
    · rename_i hid
      obtain ⟨b, hb, rfl⟩ := List.mem_map.mp hid
      exact (h.mem b hb).2
    · exact h.kept id ‹_›
  refine ⟨hblocks, fun ⟨id, p⟩ => ?_⟩
  rw [h.indexed.edges, hs.edges, hblocks]
  by_cases hid : id ∈ blocks.map (·.stableBlockId)
  · simp only [hid, if_true]
    simp
  · simp only [hid, if_false, not_false_eq_true, and_true]

/-- `evict_until_weight` delivers what a scan finds freeable. -/
theorem evictUntilWeight_delivers (hs : Indexed s) (needed : Int)
    {weight : PrefixCacheBlock B P → Int} (hweight : ∀ b, 0 ≤ weight b) :
    ∃ gone t, evictUntilWeight needed weight s = .ok gone t ∧
      Delivered (fun d x => s.Ancestor x d) s.scanFreeable weight needed s gone ∧
      EvictedFrom s (gone.map (·.stableBlockId)) t := by
  have hloop : ∃ blocks t, greedyLoop (evictionPolicy weight) needed (s.size + 1) 0 s =
        .ok (blocks.map fun b => b) t ∧ Harvest (evictionPolicy weight) Child
          (At fun b => decide (Removable b)) (fun _ => none) needed 0 s blocks t :=
    greedyLoop_harvest (peels_eviction weight) hweight hs (Nat.lt_succ_self s.size)
  obtain ⟨blocks, t, hrun, hharvest⟩ := hloop
  rw [List.map_id'] at hrun
  refine ⟨blocks, t, ?_, ?_, hharvest.evictedFrom hs⟩
  · rw [evictUntilWeight_eq_greedyLoop hs needed weight (Nat.lt_succ_self s.size), hrun]
  · refine hharvest.delivered hweight fun id => ?_
    rw [mem_scanFreeable hs]
    exact Peelable.iff_of_agree (fun _ => removableAt_iff.symm) fun _ _ _ => Iff.rfl

/-- **Advertised freeable capacity is what eviction delivers**: in every reachable state and for every
weight, `evict_until_weight` removes blocks of `freeable_block_ids()` alone, each after all its
descendants, as much as it is asked for or the whole set; with unit weights `min(n, freeable)` blocks.
The others keep their fields and their places. -/
theorem evict_delivers {blockSize : Nat} {maxBlocks : Option Nat}
    (run : Reachable IndexOp.exec (fun _ _ => True) (initial blockSize maxBlocks) s) (needed : Int)
    {weight : PrefixCacheBlock B P → Int} (hweight : ∀ b, 0 ≤ weight b) :
    ∃ freeable gone t, freeableBlockIds.run' s = some freeable ∧
      evictUntilWeight needed weight s = .ok gone t ∧
      Delivered (fun d x => s.Ancestor x d) freeable weight needed s gone ∧
      EvictedFrom s (gone.map (·.stableBlockId)) t := by
  obtain ⟨gone, t, hrun, hdelivered, hleft⟩ :=
    evictUntilWeight_delivers (indexed_of_run run) needed hweight
  exact ⟨s.scanFreeable, gone, t, memoised_of_fresh (freshAt_of_run run nofun), hrun, hdelivered,
    hleft⟩

/-- A block and its child, with the child's weight asked for. -/
theorem evict_delivers_orderlyRun :
    ∃ freeable gone t, freeableBlockIds.run' (runAll IndexOp.exec (initial 1 none)
        (orderlyRun.take 2)) = some freeable ∧
      evictUntilWeight 1 (fun _ => 1) (runAll IndexOp.exec (initial 1 none) (orderlyRun.take 2)) =
        .ok gone t ∧
      Delivered (fun d x => (runAll IndexOp.exec (initial 1 none) (orderlyRun.take 2)).Ancestor x d)
        freeable (fun _ => 1) 1 (runAll IndexOp.exec (initial 1 none) (orderlyRun.take 2)) gone ∧
      EvictedFrom (runAll IndexOp.exec (initial 1 none) (orderlyRun.take 2))
        (gone.map (·.stableBlockId)) t :=
  evict_delivers (Reachable.init.runAll (by simp [orderlyRun, Along])) 1 fun _ => by decide

/-! ## Demotion -/

/-- Above a block with a device payload the path is on the device. -/
theorem Contiguous.deviceChild (hs : Indexed s) (h : Contiguous s) {d x : B}
    (hd : s.childOnDevice d = true) (hpath : Relation.TransGen s.Child d x) :
    Relation.TransGen s.DeviceChild d x := by
  -- one step up stays on the device
  have hup : ∀ {c p : B}, s.childOnDevice c = true → s.Child c p → s.childOnDevice p = true := by
    intro c p hc hchild
    obtain ⟨cb, hcb, hp⟩ := child_iff.mp hchild
    obtain ⟨parent, hparent⟩ := hs.parent_indexed hcb hp
    unfold childOnDevice at hc ⊢
    rw [hcb] at hc
    rw [hparent]
    exact (h c cb p parent hcb hp hparent).device hc
  induction hpath using Relation.TransGen.head_induction_on with
  | single hc => exact .single ⟨hc, hd⟩
  | head hc _ ih => exact .head ⟨hc, hd⟩ (ih (hup hd hc))

/-- The demotion a state delivers: blocks of the promised set, each after its device-resident
descendants, which only lose their device payload. -/
structure Demotes (promised : Finset B) (weight : PrefixCacheBlock B P → Int) (needed : Int)
    (s : RadixPrefixIndex B P) (blocks : List (PrefixCacheBlock B P)) (t : RadixPrefixIndex B P) :
    Prop where
  delivered : Delivered (fun d x => s.Ancestor x d ∧ s.childOnDevice d = true) promised weight needed
    s blocks
  gone : ∀ b ∈ blocks, t.getBlock b.stableBlockId = some (demoted b)
  kept : ∀ q, q ∉ blocks.map (·.stableBlockId) → t.getBlock q = s.getBlock q

/-- `demote_device_until_weight` delivers what a scan finds freeable. -/
theorem demote_delivers (hs : Indexed s) (hres : Contiguous s) (needed : Int)
    {weight : PrefixCacheBlock B P → Int} (hweight : ∀ b, 0 ≤ weight b) :
    ∃ blocks t, demoteDeviceUntilWeight needed weight s = .ok (blocks.map demoted) t ∧
      Demotes (s.scanDeviceReclaimable false) weight needed s blocks t := by
  have hloop : ∃ blocks t, greedyLoop (demotionPolicy weight) needed (s.size + 1) 0 s =
        .ok (blocks.map demoted) t ∧ Harvest (demotionPolicy weight) DeviceChild
          (fun s id => s.reclaimableAt false id = true) (fun b => some (demoted b)) needed 0 s
          blocks t :=
    greedyLoop_harvest (peels_demotion weight) hweight hs
      (Nat.lt_succ_of_le deviceIds_length_le)
  obtain ⟨blocks, t, hrun, hharvest⟩ := hloop
  have hdelivered := hharvest.delivered hweight fun id => mem_scanDeviceReclaimable hs
  refine ⟨blocks, t, ?_, ⟨?_, fun b hb => (hharvest.mem b hb).2, hharvest.kept⟩⟩
  · rw [demoteDeviceUntilWeight_eq_greedyLoop hs needed weight (Nat.lt_succ_self s.size), hrun]
  · exact { hdelivered with
      after := fun pre b post hsplit d hd =>
        hdelivered.after pre b post hsplit d (hres.deviceChild hs hd.2 hd.1) }

/-! ### Finishing the transfers -/

/-- The number of blocks that pass a test, when one block's residency changes. -/
theorem countP_resided {r : PrefixBlockResidency} (hb : s.getBlock id = some b)
    (p : PrefixCacheBlock B P → Bool) :
    (s.resided id b r).blocks.values.countP p + (if p b then 1 else 0) =
      s.blocks.values.countP p + (if p { b with residency := r } then 1 else 0) := by
  have hvalues : (s.resided id b r).blocks.values =
      { b with residency := r } :: (s.blocks.pop id).values := Dict.values_set _ _ _
  rw [hvalues, (Dict.values_perm (d := s.blocks) hb).countP_eq, List.countP_cons, List.countP_cons]
  omega

/-- The block at `id` is in D2H. -/
def BackingUp (s : RadixPrefixIndex B P) (id : B) : Prop :=
  ∃ b, s.getBlock id = some b ∧ b.residency.transfer = some .d2h

/-- The residency after a D2H. -/
def backedUp (b : PrefixCacheBlock B P) : PrefixBlockResidency :=
  { b.residency with hostPresent := true, transfer := none }

/-- A D2H whose parent is on the host is finished. -/
theorem finishD2h_ok (hs : Indexed s) (hb : s.getBlock id = some b)
    (hactive : b.residency.transfer = some .d2h)
    (hpath : s.parentReady b (·.hostPresent) = true) :
    finishD2h id s = .ok () (s.resided id b (backedUp b)) := by
  have hchange := ResidencyChange.finishD2h hactive hpath
  unfold finishD2h
  rw [bind_ok (indexed_some _ hb), raiseIf_bind, if_neg (by simp [hactive]), get_bind, raiseIf_bind,
    if_neg (by simp [hpath])]
  exact reside_ok (hchange.valid (hs.valid id b hb))

/-- What `finish_d2h` has checked when it returns. -/
theorem finishD2h_inv (hs : Indexed s) (h : finishD2h id s = .ok () t) :
    ∃ b, s.getBlock id = some b ∧ b.residency.transfer = some .d2h ∧
      s.parentReady b (·.hostPresent) = true ∧ t = s.resided id b (backedUp b) := by
  cases hb : s.getBlock id with
  | none =>
    unfold finishD2h at h
    rw [bind_error (indexed_none _ hb)] at h
    cases h
  | some b =>
    by_cases hok : b.residency.transfer = some .d2h ∧ s.parentReady b (·.hostPresent) = true
    · rw [finishD2h_ok hs hb hok.1 hok.2] at h
      cases h
      exact ⟨b, rfl, hok.1, hok.2, rfl⟩
    · unfold finishD2h at h
      rw [bind_ok (indexed_some _ hb), raiseIf_bind] at h
      split at h
      · cases h
      rw [get_bind, raiseIf_bind] at h
      split at h
      · cases h
      · rename_i hactive hpath
        simp only [ne_eq, not_not, Bool.not_eq_false] at hactive hpath
        exact absurd ⟨hactive, hpath⟩ hok

/-- Some block in D2H has no parent in D2H. -/
theorem exists_top_backingUp (hs : Indexed s) (h : BackingUp s id) :
    ∃ q, BackingUp s q ∧ ∀ p, s.Child q p → ¬ BackingUp s p := by
  induction hdepth : s.depth id using Nat.strong_induction_on generalizing id with
  | _ n ih =>
    by_cases htop : ∃ p, s.Child id p ∧ BackingUp s p
    · obtain ⟨p, hp, hup⟩ := htop
      have hlt : s.depth p < n := by
        have := hs.depth_child hp
        omega
      exact ih _ hlt hup rfl
    · exact ⟨id, h, fun p hp hup => htop ⟨p, hp, hup⟩⟩

/-- **The transfers can be finished**, parents first, when the residency is contiguous. -/
theorem exists_finish_order (hs : Indexed s) (hres : Contiguous s) :
    ∃ order t, forEach order finishD2h s = .ok () t ∧ ∀ id, ¬ BackingUp t id := by
  induction hcount : s.blocks.values.countP (fun b => b.residency.transfer = some .d2h)
    using Nat.strong_induction_on generalizing s with
  | _ n ih =>
    by_cases hnone : ∃ id, BackingUp s id
    · obtain ⟨id, hid⟩ := hnone
      obtain ⟨q, ⟨b, hb, hactive⟩, htop⟩ := exists_top_backingUp hs hid
      have hpath : s.parentReady b (·.hostPresent) = true := by
        cases hp : b.parentBlockId with
        | none => simp [parentReady, hp]
        | some p =>
          obtain ⟨parent, hparent⟩ := hs.parent_indexed hb hp
          rw [parentReady_iff hp hparent]
          rcases (hres q b p parent hb hp hparent).backup hactive with hhost | hd2h
          · exact hhost
          · exact absurd ⟨parent, hparent, hd2h⟩ (htop p (child_iff.mpr ⟨b, hb, hp⟩))
      have hchange : ResidencyChange s b (backedUp b) := ResidencyChange.finishD2h hactive hpath
      have hrun := finishD2h_ok hs hb hactive hpath
      have hless : (s.resided q b (backedUp b)).blocks.values.countP
          (fun b => b.residency.transfer = some .d2h) < n := by
        have := countP_resided (r := backedUp b) hb fun b =>
          decide (b.residency.transfer = some .d2h)
        rw [if_pos (decide_eq_true hactive), if_neg (by simp [backedUp])] at this
        omega
      obtain ⟨order, t, hrest, hdone⟩ := ih _ hless
        (hs.resided hb (hchange.valid (hs.valid q b hb))) (hres.reside hs hb hchange) rfl
      exact ⟨q :: order, t, (bind_ok hrun).trans hrest, hdone⟩
    · exact ⟨[], s, rfl, fun id hid => hnone ⟨id, hid⟩⟩

theorem reclaimableAt_backedUp {q : B} (hb : s.getBlock id = some b) (hs : Indexed s)
    (hactive : b.residency.transfer = some .d2h) :
    (s.resided id b (backedUp b)).reclaimableAt true q = s.reclaimableAt true q := by
  unfold reclaimableAt
  rw [getBlock_resided]
  by_cases hq : q = id
  · have hdevice := ((hs.valid id b hb).2.1 hactive).1
    simp [hq, hb, DeviceReclaimable, backedUp, hactive, hdevice]
  · simp [hq]

theorem deviceChild_resided {r : PrefixBlockResidency} (hb : s.getBlock id = some b)
    (hr : r.devicePresent = b.residency.devicePresent) {c p : B} :
    (s.resided id b r).DeviceChild c p ↔ s.DeviceChild c p := by
  unfold DeviceChild childOnDevice
  rw [child_resided hb, getBlock_resided]
  by_cases hc : c = id
  · simp [hc, hb, hr]
  · simp [hc]

/-- Finishing transfers changes no scan that counts them. -/
theorem finish_keeps {order : List B} (hs : Indexed s) (h : forEach order finishD2h s = .ok () t) :
    Relation.ReflTransGen Change s t ∧
      t.scanDeviceReclaimable true = s.scanDeviceReclaimable true := by
  induction order generalizing s with
  | nil =>
    cases h
    exact ⟨.refl, rfl⟩
  | cons q order ih =>
    unfold forEach at h
    cases hfinish : finishD2h q s with
    | error e u =>
      rw [bind_error hfinish] at h
      cases h
    | ok a u =>
      rw [bind_ok hfinish] at h
      obtain ⟨b, hb, hactive, hpath, rfl⟩ := finishD2h_inv hs hfinish
      have hchange : ResidencyChange s b (backedUp b) := ResidencyChange.finishD2h hactive hpath
      have hnext := hs.resided hb (hchange.valid (hs.valid q b hb))
      obtain ⟨hsteps, hscan⟩ := ih hnext h
      refine ⟨.head (.reside hb hchange) hsteps, hscan.trans ?_⟩
      ext id
      rw [mem_scanDeviceReclaimable hnext, mem_scanDeviceReclaimable hs]
      apply Peelable.iff_of_agree
      · intro y
        rw [reclaimableAt_backedUp hb hs hactive]
      · intro y _ c
        exact deviceChild_resided (r := backedUp b) hb rfl

/-- Without a D2H in flight the two scans agree. -/
theorem scan_without_backup (h : ∀ id, ¬ BackingUp t id) (ht : Indexed t) :
    t.scanDeviceReclaimable false = t.scanDeviceReclaimable true := by
  ext id
  rw [mem_scanDeviceReclaimable ht, mem_scanDeviceReclaimable ht]
  apply Peelable.iff_of_agree
  · intro y
    unfold reclaimableAt
    cases hb : t.getBlock y with
    | none => rfl
    | some b =>
      have hidle : b.residency.transfer ≠ some .d2h := fun hactive => h y ⟨b, hb, hactive⟩
      simp [DeviceReclaimable, hidle]
  · exact fun _ _ _ => Iff.rfl

/-- What `device_reclaimable_block_ids` returns. -/
theorem deviceReclaimable_run' :
    deviceReclaimableBlockIds.run' s = some (s.viewIds .deviceReclaimable) := by
  rw [run'_eq_some]
  exact ⟨_, memoised_eq s .deviceReclaimable⟩

/-- Once every D2H is finished, the freeable set is what a scan found reclaimable before. -/
theorem freeable_after_finish {order : List B} (hs : Indexed s) (hfresh : FreshAt s .deviceFreeable)
    (h : forEach order finishD2h s = .ok () t) (hdone : ∀ id, ¬ BackingUp t id) :
    deviceFreeableBlockIds.run' t = some (s.scanDeviceReclaimable true) := by
  obtain ⟨hsteps, hscan⟩ := finish_keeps hs h
  have hmemo : deviceFreeableBlockIds.run' t = some (t.scanDeviceReclaimable false) :=
    memoised_of_fresh (hfresh.changes hs hsteps)
  rw [hmemo, scan_without_backup hdone (hs.changes hsteps), hscan]

/-- Demotion delivers the freeable set, and finishing the transfers turns the reclaimable set that was
reported into the freeable one. -/
structure DemotionDelivers (s : RadixPrefixIndex B P) : Prop where
  demotes : ∀ (needed : Int) (weight : PrefixCacheBlock B P → Int), (∀ b, 0 ≤ weight b) →
    ∃ freeable blocks t, deviceFreeableBlockIds.run' s = some freeable ∧
      demoteDeviceUntilWeight needed weight s = .ok (blocks.map demoted) t ∧
      Demotes freeable weight needed s blocks t
  reclaims : ∀ (order : List B) (t : RadixPrefixIndex B P), forEach order finishD2h s = .ok () t →
    (∀ id, ¬ BackingUp t id) →
    deviceFreeableBlockIds.run' t = deviceReclaimableBlockIds.run' s

/-- In a reachable state of contiguous residency, demotion delivers exactly when the memo of the
reclaimable set is out of date or what a scan finds. -/
theorem demotionDelivers_iff {blockSize : Nat} {maxBlocks : Option Nat}
    (run : Reachable IndexOp.exec (fun _ _ => True) (initial blockSize maxBlocks) s)
    (hres : Contiguous s) :
    DemotionDelivers s ↔ ((s.memo .deviceReclaimable).epoch = s.capacityEpoch →
      (s.memo .deviceReclaimable).ids = s.scan .deviceReclaimable) := by
  have hs := indexed_of_run run
  have hfresh : FreshAt s .deviceFreeable := freshAt_of_run run nofun
  constructor
  · intro h hcur
    obtain ⟨order, t, hrun, hdone⟩ := exists_finish_order hs hres
    have hsame := h.reclaims order t hrun hdone
    rw [freeable_after_finish hs hfresh hrun hdone] at hsame
    rw [deviceReclaimable_run'] at hsame
    have hview : s.viewIds .deviceReclaimable = (s.memo .deviceReclaimable).ids := if_pos hcur
    exact hview.symm.trans (Option.some.inj hsame).symm
  · intro hmemo
    refine ⟨fun needed weight hweight => ?_, fun order t hrun hdone => ?_⟩
    · obtain ⟨blocks, t, hok, hdemotes⟩ := demote_delivers hs hres needed hweight
      exact ⟨_, blocks, t, memoised_of_fresh hfresh, hok, hdemotes⟩
    · rw [freeable_after_finish hs hfresh hrun hdone]
      rw [deviceReclaimable_run']
      unfold viewIds
      split
      · rename_i hcur
        rw [hmemo hcur]
        rfl
      · rfl

/-! ### Runs -/

/-- **Device reclaim capacity is what demotion delivers**, in every state of contiguous residency of a
run whose insertions keep the reclaimable set. -/
theorem demote_delivers_of_kept {blockSize : Nat} {maxBlocks : Option Nat}
    (run : Reachable IndexOp.exec ReclaimableKept (initial blockSize maxBlocks) s)
    (hres : Contiguous s) : DemotionDelivers s := by
  have hall : Reachable IndexOp.exec (fun _ _ => True) (initial blockSize maxBlocks) s :=
    run.invariant (I := Reachable IndexOp.exec (fun _ _ => True) _) .init fun _ op h _ =>
      h.step op trivial
  exact (demotionDelivers_iff hall hres).mpr ((fresh_of_run run).2 .deviceReclaimable).2

theorem demote_delivers_of_kept_freshRun :
    DemotionDelivers (runAll IndexOp.exec (initial 1 none) freshRun) := by
  have paths : Along IndexOp.exec BackupPathKept (initial 1 none) freshRun := by
    refine ⟨fun _ h => ?_, trivial, fun _ h => ?_, trivial, trivial, trivial⟩
    · cases h
    · cases h
  have kept : Along IndexOp.exec ReclaimableKept (initial 1 none) freshRun := by
    refine ⟨fun h => absurd h.2.1 ?_, trivial, fun h => absurd h.2.1 ?_, trivial, trivial, trivial⟩
    · decide +kernel
    · decide +kernel
  exact demote_delivers_of_kept (Reachable.init.runAll kept)
    (contiguous_of_run (Reachable.init.runAll paths)).2

/-- Block 1 is reported reclaimable; once its backup is finished it is not freeable, because of the
block in use below it. -/
theorem reclaimed_not_freeable : ¬ ∀ s : RadixPrefixIndex Nat Unit,
    Reachable IndexOp.exec (fun _ _ => True) (initial 1 none) s → Contiguous s →
    DemotionDelivers s := by
  intro h
  have run : Reachable IndexOp.exec (fun _ _ => True) (initial 1 none)
      (runAll IndexOp.exec (initial 1 none) staleRun) :=
    Reachable.init.runAll (by simp [staleRun, Along])
  have kept : Along IndexOp.exec BackupPathKept (initial 1 none) staleRun := by
    refine ⟨fun _ h => ?_, trivial, trivial, fun _ h => ?_, trivial⟩
    · cases h
    · cases h
  obtain ⟨hs, hres⟩ := contiguous_of_run (Reachable.init.runAll kept)
  obtain ⟨order, t, hrun, hdone⟩ := exists_finish_order hs hres
  have hsame := (h _ run hres).reclaims order t hrun hdone
  rw [freeable_after_finish hs (freshAt_of_run run (by decide)) hrun hdone] at hsame
  revert hsame
  decide +kernel

end SparseVllm.RadixPrefixIndex
