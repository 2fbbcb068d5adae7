import SparseVllm.Prefix.IndexSpec

/-!
# The capacity epoch and the memoised views

A view is memoised under the capacity epoch, so each call has to move the epoch when it changes one
of the four sets. `insert_block` leaves the epoch alone when the new block and its parent are
"locally blocked": referenced, of negative priority or in transfer. A block in D2H is blocked in
that sense and yet counted in `device_reclaimable_block_ids`, so a new block below such a parent
takes the parent out of the set without moving the epoch.

## Results

* **`memos_fresh`**: along every run whose insertions do not change the reclaimable set that way
  (`ReclaimableKept`), the four views are what a scan of the current index returns.
* `reclaimable_stale`: without that condition the reclaimable view is stale.
-/

namespace SparseVllm.RadixPrefixIndex

open SparseVllm.Lib

variable {B P : Type} [LinearOrder B] {s t : RadixPrefixIndex B P}

/-- Every memo of the current epoch is the set a scan returns; no memo is ahead of the epoch. -/
def Fresh (s : RadixPrefixIndex B P) : Prop :=
  ∀ view, (s.memo view).epoch ≤ s.capacityEpoch ∧
    ((s.memo view).epoch = s.capacityEpoch → (s.memo view).ids = s.scan view)

/-- `Fresh`, of one memo. -/
def FreshAt (s : RadixPrefixIndex B P) (view : CapacityView) : Prop :=
  (s.memo view).epoch ≤ s.capacityEpoch ∧
    ((s.memo view).epoch = s.capacityEpoch → (s.memo view).ids = s.scan view)

variable {view : CapacityView}

theorem FreshAt.of_epoch (h : FreshAt s view) (hmemo : t.memo = s.memo)
    (hepoch : s.capacityEpoch < t.capacityEpoch) : FreshAt t view := by
  have := h.1
  unfold FreshAt
  rw [hmemo]
  exact ⟨by omega, fun he => by omega⟩

theorem FreshAt.of_scan (h : FreshAt s view) (hmemo : t.memo = s.memo)
    (hepoch : t.capacityEpoch = s.capacityEpoch) (hscan : t.scan view = s.scan view) :
    FreshAt t view := by
  unfold FreshAt
  rw [hmemo, hepoch, hscan]
  exact h

/-- Membership in each scan, as the predicate it computes. -/
theorem scan_eq_of_views (hs : Indexed s) (ht : Indexed t)
    (hfreeable : ∀ id, Peelable t.Child (t.removableAt · = true) id ↔
      Peelable s.Child (s.removableAt · = true) id)
    (hevictable : ∀ id, (t.removableAt id = true ∧ ∀ c, ¬ t.Child c id) ↔
      (s.removableAt id = true ∧ ∀ c, ¬ s.Child c id))
    (hdevice : ∀ inflight id, Peelable t.DeviceChild (t.reclaimableAt inflight · = true) id ↔
      Peelable s.DeviceChild (s.reclaimableAt inflight · = true) id) (view : CapacityView) :
    t.scan view = s.scan view := by
  ext id
  cases view with
  | freeable => exact (mem_scanFreeable ht).trans ((hfreeable id).trans (mem_scanFreeable hs).symm)
  | evictable =>
    exact (mem_scanEvictable ht).trans ((hevictable id).trans (mem_scanEvictable hs).symm)
  | deviceFreeable =>
    exact (mem_scanDeviceReclaimable ht).trans
      ((hdevice false id).trans (mem_scanDeviceReclaimable hs).symm)
  | deviceReclaimable =>
    exact (mem_scanDeviceReclaimable ht).trans
      ((hdevice true id).trans (mem_scanDeviceReclaimable hs).symm)

/-! ## Changes -/

/-- No scan reads a tag beyond what `SameCapacity` keeps. -/
theorem scan_retagged (hs : Indexed s) (h : Retagged SameCapacity s t) (view : CapacityView) :
    t.scan view = s.scan view := by
  have hremovable : ∀ id, t.removableAt id = s.removableAt id := by
    intro id
    have := h.blocks id
    unfold removableAt
    revert this
    cases s.getBlock id <;> cases t.getBlock id <;> intro hrel <;> cases hrel
    · rfl
    · rename_i hb
      simp only [Removable, hb.refs, hb.priority, hb.residency]
  have hreclaimable : ∀ inflight id, t.reclaimableAt inflight id = s.reclaimableAt inflight id := by
    intro inflight id
    have := h.blocks id
    unfold reclaimableAt
    revert this
    cases s.getBlock id <;> cases t.getBlock id <;> intro hrel <;> cases hrel
    · rfl
    · rename_i hb
      simp only [DeviceReclaimable, hb.refs, hb.priority, hb.residency]
  have hchild : ∀ c p, t.Child c p ↔ s.Child c p := by
    intro c p
    have := h.blocks c
    unfold Child parentAt
    revert this
    cases s.getBlock c <;> cases t.getBlock c <;> intro hrel <;> cases hrel
    · rfl
    · rename_i hb
      simp only [hb.parent]
  have hdevice : ∀ c p, t.DeviceChild c p ↔ s.DeviceChild c p := by
    intro c p
    have := h.blocks c
    unfold DeviceChild childOnDevice
    rw [hchild]
    revert this
    cases s.getBlock c <;> cases t.getBlock c <;> intro hrel <;> cases hrel
    · rfl
    · rename_i hb
      simp only [hb.residency]
  apply scan_eq_of_views hs (hs.retagged h.shape)
  · intro id
    apply Peelable.iff_of_agree
    · simp [hremovable]
    · intro y _ c
      exact hchild c y
  · intro id
    simp only [hremovable, hchild]
  · intro inflight id
    apply Peelable.iff_of_agree
    · simp [hreclaimable]
    · intro y _ c
      exact hdevice c y

theorem FreshAt.change (hs : Indexed s) (h : FreshAt s view) (hchange : Change s t) :
    FreshAt t view := by
  cases hchange with
  | minor tags epoch => exact h.of_scan tags.memo epoch (scan_retagged hs tags view)
  | retag tags epoch => exact h.of_epoch tags.memo epoch
  | reside here change => exact h.of_epoch rfl (Int.lt_succ _)
  | remove here removable gone => exact h.of_epoch gone.memo gone.epoch
  | memo other _ =>
    unfold FreshAt
    simp only [Function.update_apply]
    split
    · rename_i heq
      exact ⟨le_refl _, fun _ => by rw [heq]; rfl⟩
    · exact h

theorem FreshAt.changes (hs : Indexed s) (h : FreshAt s view)
    (hsteps : Relation.ReflTransGen Change s t) : FreshAt t view := by
  induction hsteps with
  | refl => exact h
  | tail hsteps hlast ih => exact ih.change (hs.changes hsteps) hlast

/-! ## Insertions -/

/-- The insertion of `block` would change `device_reclaimable_block_ids` behind an unmoved epoch:
it counts as blocked, and it is reclaimable itself (unreferenced, in D2H), or it has a device
payload and everything on the device from its parent down is reclaimable. -/
def StalesReclaimable (s : RadixPrefixIndex B P) (block : PrefixCacheBlock B P) : Prop :=
  s.getBlock block.stableBlockId = none ∧ s.InsertedBlocked block ∧
    (DeviceReclaimable true block ∨
      block.residency.devicePresent = true ∧ ∃ p, block.parentBlockId = some p ∧
        ∀ q, Relation.ReflTransGen s.DeviceChild q p → s.reclaimableAt true q = true)

/-- The condition on a call. -/
def ReclaimableKept (s : RadixPrefixIndex B P) : IndexOp B P → Prop
  | .insert block => ¬ s.StalesReclaimable block
  | _ => True

section Insert

variable {block : PrefixCacheBlock B P}

omit [LinearOrder B] in
theorem LocallyBlocked.not_removable {b : PrefixCacheBlock B P} (h : LocallyBlocked b) :
    ¬ Removable b := by
  unfold LocallyBlocked at h
  unfold Removable
  rintro ⟨hrefs, hpriority, hidle⟩
  rcases h with h | h | h
  · exact h hrefs
  · omega
  · exact h hidle

omit [LinearOrder B] in
theorem LocallyBlocked.not_reclaimable {b : PrefixCacheBlock B P} (h : LocallyBlocked b) :
    ¬ DeviceReclaimable false b := by
  rintro ⟨hrefs, hpriority, _, hready⟩
  rcases hready with hready | hready
  · exact h.not_removable ⟨hrefs, hpriority, hready.2⟩
  · exact absurd hready.1 (by simp)

theorem Inserted.removableAt_eq (h : Inserted s block t) (hblocked : LocallyBlocked block) (id : B) :
    t.removableAt id = s.removableAt id := by
  unfold removableAt
  rw [h.getBlock]
  by_cases hid : id = block.stableBlockId
  · simp only [hid, if_true, h.fresh, decide_eq_false_iff_not]
    exact hblocked.not_removable
  · simp only [hid, if_false]

theorem Inserted.reclaimableAt_eq {inflight : Bool} (h : Inserted s block t)
    (hblock : ¬ DeviceReclaimable inflight block) (id : B) :
    t.reclaimableAt inflight id = s.reclaimableAt inflight id := by
  unfold reclaimableAt
  rw [h.getBlock]
  by_cases hid : id = block.stableBlockId
  · simp only [hid, if_true, h.fresh, decide_eq_false_iff_not]
    exact hblock
  · simp only [hid, if_false]

/-- A parent that counts as blocked is in none of the views that wait for transfers. -/
theorem InsertedBlocked.parent (h : Inserted s block t) (hblocked : s.InsertedBlocked block) {p : B}
    (hp : block.parentBlockId = some p) :
    s.removableAt p = false ∧ s.reclaimableAt false p = false := by
  obtain ⟨parent, hb, _⟩ := h.parent p hp
  have hparent := hblocked.2
  simp only [hp, hb] at hparent
  unfold removableAt reclaimableAt
  simp only [hb, decide_eq_false_iff_not]
  exact ⟨LocallyBlocked.not_removable hparent, LocallyBlocked.not_reclaimable hparent⟩

/-- The children of a block other than the new block's parent are the same. -/
theorem Inserted.child_of_ne (h : Inserted s block t) {y : B} (hy : block.parentBlockId ≠ some y)
    (c : B) : t.Child c y ↔ s.Child c y := by
  rw [h.child_iff]
  split
  · subst c
    simp [hy, not_child_fresh h.fresh]
  · rfl

theorem Inserted.deviceChild_of_ne (h : Inserted s block t) {y : B}
    (hy : ¬ (block.parentBlockId = some y ∧ block.residency.devicePresent = true)) (c : B) :
    t.DeviceChild c y ↔ s.DeviceChild c y := by
  rw [h.deviceChild_iff]
  split
  · subst c
    simp only [hy, false_iff]
    exact fun hc => not_child_fresh h.fresh y hc.1
  · rfl

/-- The parent of a new device block is not in the reclaimable set, before or after. -/
theorem Inserted.deviceChild_mono (h : Inserted s block t) {c p : B} (hc : s.DeviceChild c p) :
    t.DeviceChild c p := by
  rw [h.deviceChild_iff, if_neg]
  · exact hc
  · rintro rfl
    exact not_child_fresh h.fresh p hc.1

/-- The set that counts transfers in flight, after an insertion that keeps it. -/
theorem Inserted.reclaimable_iff (h : Inserted s block t) (hblocked : s.InsertedBlocked block)
    (hkept : ¬ s.StalesReclaimable block) (id : B) :
    Peelable t.DeviceChild (t.reclaimableAt true · = true) id ↔
      Peelable s.DeviceChild (s.reclaimableAt true · = true) id := by
  unfold StalesReclaimable at hkept
  simp only [h.fresh, hblocked, true_and, not_or, not_and, not_exists, not_forall] at hkept
  obtain ⟨hblock, hparent⟩ := hkept
  have hok := h.reclaimableAt_eq hblock
  by_cases hdevice : block.residency.devicePresent = true
  · cases hp : block.parentBlockId with
    | none =>
      apply Peelable.iff_of_agree
      · simp [hok]
      · intro y _ c
        exact h.deviceChild_of_ne (by simp [hp]) c
    | some p =>
      -- something on the device below the parent keeps the parent out of the set
      obtain ⟨q, hq, hbad⟩ := hparent hdevice p hp
      have hsbad : ¬ Peelable s.DeviceChild (s.reclaimableAt true · = true) p := fun hpeel =>
        hbad (hpeel.of_reachable hq).self
      have htbad : ¬ Peelable t.DeviceChild (t.reclaimableAt true · = true) p := by
        intro hpeel
        have hq' : Relation.ReflTransGen t.DeviceChild q p :=
          Relation.ReflTransGen.mono (fun _ _ hc => h.deviceChild_mono hc) _ _ hq
        exact hbad (hok q ▸ (hpeel.of_reachable hq').self)
      rw [Peelable.iff_avoid htbad, Peelable.iff_avoid hsbad]
      apply Peelable.iff_of_agree
      · simp [hok]
      · intro y hy c
        apply h.deviceChild_of_ne
        rintro ⟨hpy, _⟩
        exact hy.2 (Option.some.inj (hpy.symm.trans hp))
  · apply Peelable.iff_of_agree
    · simp [hok]
    · intro y _ c
      exact h.deviceChild_of_ne (fun hy => hdevice hy.2) c

/-- **An insertion that leaves the epoch alone changes no view**, when it keeps the reclaimable
set. -/
theorem scan_inserted (hs : Indexed s) (h : Inserted s block t)
    (hblocked : s.InsertedBlocked block)
    (hkept : view = .deviceReclaimable → ¬ s.StalesReclaimable block) :
    t.scan view = s.scan view := by
  have ht := hs.inserted h
  have hremovable := h.removableAt_eq hblocked.1
  have hparent : ∀ y, s.removableAt y = true → block.parentBlockId ≠ some y := by
    intro y hy hp
    rw [(InsertedBlocked.parent h hblocked hp).1] at hy
    cases hy
  ext id
  cases view with
  | freeable =>
    refine (mem_scanFreeable ht).trans (Iff.trans ?_ (mem_scanFreeable hs).symm)
    apply Peelable.iff_of_agree
    · simp [hremovable]
    · intro y hy c
      exact h.child_of_ne (hparent y (hremovable y ▸ hy)) c
  | evictable =>
    refine (mem_scanEvictable ht).trans (Iff.trans ?_ (mem_scanEvictable hs).symm)
    rw [hremovable]
    refine and_congr_right fun hid => ?_
    simp only [h.child_of_ne (hparent id hid)]
  | deviceFreeable =>
    refine (mem_scanDeviceReclaimable ht).trans (Iff.trans ?_ (mem_scanDeviceReclaimable hs).symm)
    have hok := h.reclaimableAt_eq (LocallyBlocked.not_reclaimable hblocked.1)
    apply Peelable.iff_of_agree
    · simp [hok]
    · intro y hy c
      apply h.deviceChild_of_ne
      rintro ⟨hp, _⟩
      rw [hok, (InsertedBlocked.parent h hblocked hp).2] at hy
      cases hy
  | deviceReclaimable =>
    exact (mem_scanDeviceReclaimable ht).trans
      ((h.reclaimable_iff hblocked (hkept rfl) id).trans (mem_scanDeviceReclaimable hs).symm)

end Insert

/-! ## Runs -/

theorem FreshAt.outcome (hs : Indexed s) (h : FreshAt s view) {op : IndexOp B P}
    (hkept : view = .deviceReclaimable → ReclaimableKept s op) (hout : Outcome s op t) :
    FreshAt t view := by
  cases hout with
  | changes steps => exact h.changes hs steps
  | @inserted block t new =>
    by_cases hblocked : s.InsertedBlocked block
    · exact h.of_scan new.memo (by rw [new.epoch, if_pos hblocked])
        (scan_inserted hs new hblocked hkept)
    · exact h.of_epoch new.memo (by rw [new.epoch, if_neg hblocked]; omega)
  | aborted here active valid => exact h.of_epoch rfl (Int.lt_succ _)

theorem fresh_initial (blockSize : Nat) (maxBlocks : Option Nat) :
    Fresh (initial blockSize maxBlocks : RadixPrefixIndex B P) := by
  intro view
  show (-1 : Int) ≤ 0 ∧ ((-1 : Int) = 0 → _)
  exact ⟨by omega, by omega⟩

/-- Along such a run the index stays in agreement and its memos fresh. -/
theorem fresh_of_run {blockSize : Nat} {maxBlocks : Option Nat}
    (run : Reachable IndexOp.exec ReclaimableKept (initial blockSize maxBlocks) s) :
    Indexed s ∧ Fresh s := by
  apply run.invariant (I := fun u => Indexed u ∧ Fresh u)
  · exact ⟨indexed_initial blockSize maxBlocks, fresh_initial blockSize maxBlocks⟩
  · rintro u op ⟨hu, hfresh⟩ hkept
    have hout := op.outcome hu
    exact ⟨hout.indexed hu, fun view => FreshAt.outcome hu (hfresh view) (fun _ => hkept) hout⟩

/-- The views other than the reclaimable one are fresh along every run. -/
theorem freshAt_of_run {guard : RadixPrefixIndex B P → IndexOp B P → Prop} {blockSize : Nat}
    {maxBlocks : Option Nat} (run : Reachable IndexOp.exec guard (initial blockSize maxBlocks) s)
    (hview : view ≠ .deviceReclaimable) : FreshAt s view := by
  have h := run.invariant (I := fun u => Indexed u ∧ FreshAt u view)
    ⟨indexed_initial blockSize maxBlocks, fresh_initial blockSize maxBlocks view⟩
    fun u op hu _ => ⟨(op.outcome hu.1).indexed hu.1,
      hu.2.outcome hu.1 (fun he => absurd he hview) (op.outcome hu.1)⟩
  exact h.2

theorem memoised_of_fresh (h : FreshAt s view) :
    (memoised view).run' s = some (s.scan view) := by
  rw [run'_eq_some]
  rcases memoised_run (s := s) view with ⟨hok, hcur⟩ | ⟨t, hok, _⟩
  · exact ⟨s, by rw [hok, h.2 hcur]⟩
  · exact ⟨t, hok⟩

/-- **The four views are exact** in every state of a run whose insertions keep the reclaimable
set. -/
theorem memos_fresh {blockSize : Nat} {maxBlocks : Option Nat}
    (run : Reachable IndexOp.exec ReclaimableKept (initial blockSize maxBlocks) s) :
    freeableBlockIds.run' s = some s.scanFreeable ∧
      evictableBlockIds.run' s = some s.scanEvictable ∧
      deviceFreeableBlockIds.run' s = some (s.scanDeviceReclaimable false) ∧
      deviceReclaimableBlockIds.run' s = some (s.scanDeviceReclaimable true) := by
  have h := (fresh_of_run run).2
  exact ⟨memoised_of_fresh (h .freeable), memoised_of_fresh (h .evictable),
    memoised_of_fresh (h .deviceFreeable), memoised_of_fresh (h .deviceReclaimable)⟩

/-! ### A run -/

/-- A block without tokens: `id` below `parent`. -/
def bareBlock (id : Nat) (parent : Option Nat) (refCount : Int) : PrefixCacheBlock Nat Unit :=
  { stableBlockId := id
    parentBlockId := parent
    blockSize := 1
    logicalBlockIdx := 0
    payload := ()
    refCount := refCount }

/-- A child is committed below a block being backed up, after that block was found reclaimable. -/
def staleRun : List (IndexOp Nat Unit) :=
  [.insert (bareBlock 1 none 0), .beginD2h 1, .query .deviceReclaimable,
    .insert (bareBlock 2 (some 1) 1)]

/-- The view still promises block 1, which a block in use now hangs below. -/
theorem reclaimable_stale : ¬ ∀ s : RadixPrefixIndex Nat Unit,
    Reachable IndexOp.exec (fun _ _ => True) (initial 1 none) s →
    deviceReclaimableBlockIds.run' s = some (s.scanDeviceReclaimable true) := by
  intro h
  have := h (runAll IndexOp.exec (initial 1 none) staleRun)
    (Reachable.init.runAll (by simp [staleRun, Along]))
  revert this
  decide +kernel

/-- The same blocks, with the child committed before the backup starts. -/
def freshRun : List (IndexOp Nat Unit) :=
  [.insert (bareBlock 1 none 0), .query .deviceReclaimable, .insert (bareBlock 2 (some 1) 1),
    .beginD2h 1, .query .deviceReclaimable]

theorem memos_fresh_freshRun :
    deviceReclaimableBlockIds.run' (runAll IndexOp.exec (initial 1 none) freshRun) = some ∅ := by
  have kept : Along IndexOp.exec ReclaimableKept (initial 1 none) freshRun := by
    refine ⟨fun h => absurd h.2.1 ?_, trivial, fun h => absurd h.2.1 ?_, trivial, trivial, trivial⟩
    · decide +kernel
    · decide +kernel
  rw [(memos_fresh (Reachable.init.runAll kept)).2.2.2]
  decide +kernel

end SparseVllm.RadixPrefixIndex
