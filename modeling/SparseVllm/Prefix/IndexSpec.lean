import Mathlib.Logic.Relation
import SparseVllm.Lib.Run
import SparseVllm.Prefix.Views

/-!
# What the methods of the prefix index do

One lemma for each method says where it leaves the index: where it was, or after one `Change`. The
changes are those of tags (counts, priorities, access times), of one residency, the removal of a
leaf, and a memo. `insert_block` and `abort_d2h` are kept apart (`Inserted`, `abortD2h_run`),
since what holds after them depends on their input.

`Evolves m` says that `m` only makes changes, whether it returns or raises.
-/

namespace SparseVllm.RadixPrefixIndex

open SparseVllm.Lib

variable {B P : Type} [LinearOrder B]

/-- Same id, place, residency and payload; a count does not become negative. -/
structure SameShape (b b' : PrefixCacheBlock B P) : Prop where
  id : b'.stableBlockId = b.stableBlockId
  parent : b'.parentBlockId = b.parentBlockId
  residency : b'.residency = b.residency
  payload : b'.payload = b.payload
  counts : 0 ≤ b.refCount → 0 ≤ b'.refCount

/-- Also the same as far as capacity is concerned. -/
structure SameCapacity (b b' : PrefixCacheBlock B P) : Prop extends SameShape b b' where
  refs : b'.refCount = 0 ↔ b.refCount = 0
  priority : 0 ≤ b'.evictionPriority ↔ 0 ≤ b.evictionPriority

/-- The same ids for routing, the same last snapshot, and no removal. -/
structure SameRouting (s t : RadixPrefixIndex B P) : Prop where
  blockSize : t.blockSize = s.blockSize
  membership : t.routingMembership = s.routingMembership
  snapshot : t.lastRoutingSnapshot = s.lastRoutingSnapshot
  removals : t.removeEpoch = s.removeEpoch

/-- The blocks differ by `R`, the tree, the memos and the routing not at all. -/
structure Retagged (R : PrefixCacheBlock B P → PrefixCacheBlock B P → Prop)
    (s t : RadixPrefixIndex B P) : Prop where
  backend : t.backend = s.backend
  memo : t.memo = s.memo
  maxBlocks : t.maxBlocks = s.maxBlocks
  routing : SameRouting s t
  blocks : ∀ id, Option.Rel R (s.getBlock id) (t.getBlock id)

/-- A new residency of the block at `id`, with the capacity epoch moved. -/
def resided (s : RadixPrefixIndex B P) (id : B) (block : PrefixCacheBlock B P)
    (r : PrefixBlockResidency) : RadixPrefixIndex B P :=
  (s.setBlock id { block with residency := r }).markCapacityMutated

/-- The residency changes of the transfers and of demotion, with what is checked before each. -/
inductive ResidencyChange (s : RadixPrefixIndex B P) (block : PrefixCacheBlock B P) :
    PrefixBlockResidency → Prop where
  | beginD2h (refs : block.refCount = 0) (host : block.residency.hostPresent = false)
    (idle : block.residency.transfer = none)
    (path : s.parentReady block (fun r => r.hostPresent || r.transfer = some .d2h) = true) :
    ResidencyChange s block { block.residency with transfer := some .d2h }
  | finishD2h (active : block.residency.transfer = some .d2h)
    (path : s.parentReady block (·.hostPresent) = true) :
    ResidencyChange s block { block.residency with hostPresent := true, transfer := none }
  | beginH2d (device : block.residency.devicePresent = false)
    (host : block.residency.hostPresent = true) (idle : block.residency.transfer = none)
    (path : s.parentReady block (·.devicePresent) = true) :
    ResidencyChange s block { block.residency with devicePresent := true, transfer := some .h2d }
  | finishH2d (active : block.residency.transfer = some .h2d) :
    ResidencyChange s block { block.residency with transfer := none }
  | abortH2d (active : block.residency.transfer = some .h2d)
    (children : ∀ c, ¬ s.DeviceChild c block.stableBlockId) :
    ResidencyChange s block { block.residency with devicePresent := false, transfer := none }
  | demote (host : block.residency.hostPresent = true) (idle : block.residency.transfer = none)
    (children : ∀ c, ¬ s.DeviceChild c block.stableBlockId) :
    ResidencyChange s block { block.residency with devicePresent := false }

/-- The block at `id` is gone; it had no child. -/
structure Removed (s : RadixPrefixIndex B P) (id : B) (t : RadixPrefixIndex B P) : Prop where
  here : ∃ b, s.getBlock id = some b
  childless : ∀ c, ¬ s.Child c id
  blocks : t.blocks = s.blocks.pop id
  edges : ∀ e, e ∈ t.backend.edges ↔ e ∈ s.backend.edges ∧ e.1 ≠ id
  memo : t.memo = s.memo
  epoch : s.capacityEpoch < t.capacityEpoch
  maxBlocks : t.maxBlocks = s.maxBlocks
  blockSize : t.blockSize = s.blockSize
  routing : s.routingMembership.remove id = .ok t.routingMembership
  snapshot : t.lastRoutingSnapshot = none
  removals : s.removeEpoch < t.removeEpoch

/-- The steps of an index. -/
inductive Change (s : RadixPrefixIndex B P) : RadixPrefixIndex B P → Prop where
  | minor {t : RadixPrefixIndex B P} (tags : Retagged SameCapacity s t)
    (epoch : t.capacityEpoch = s.capacityEpoch) : Change s t
  | retag {t : RadixPrefixIndex B P} (tags : Retagged SameShape s t)
    (epoch : s.capacityEpoch < t.capacityEpoch) : Change s t
  | reside {id : B} {block : PrefixCacheBlock B P} {r : PrefixBlockResidency}
    (here : s.getBlock id = some block) (change : ResidencyChange s block r) :
    Change s (s.resided id block r)
  | remove {id : B} {block : PrefixCacheBlock B P} {t : RadixPrefixIndex B P}
    (here : s.getBlock id = some block) (removable : Removable block) (gone : Removed s id t) :
    Change s t
  | memo (view : CapacityView) (stale : (s.memo view).epoch ≠ s.capacityEpoch) :
    Change s { s with memo := Function.update s.memo view ⟨s.capacityEpoch, s.scan view⟩ }

/-! ## States -/

section States

variable {s t : RadixPrefixIndex B P} {id q : B} {b : PrefixCacheBlock B P}

@[simp] theorem getBlock_setBlock :
    (s.setBlock id b).getBlock q = if q = id then some b else s.getBlock q :=
  Dict.get?_set s.blocks id b q

@[simp] theorem getBlock_markCapacityMutated :
    s.markCapacityMutated.getBlock q = s.getBlock q := rfl

@[simp] theorem getBlock_markMutated : s.markMutated.getBlock q = s.getBlock q := rfl

@[simp] theorem getBlock_tick : s.tick.getBlock q = s.getBlock q := rfl

theorem getBlock_resided {r : PrefixBlockResidency} : (s.resided id b r).getBlock q =
    if q = id then some { b with residency := r } else s.getBlock q := getBlock_setBlock

theorem Retagged.refl {R : PrefixCacheBlock B P → PrefixCacheBlock B P → Prop} (hR : ∀ b, R b b) :
    Retagged R s s where
  backend := rfl
  memo := rfl
  maxBlocks := rfl
  routing := ⟨rfl, rfl, rfl, rfl⟩
  blocks id := by
    cases s.getBlock id with
    | none => exact .none
    | some b => exact .some (hR b)

omit [LinearOrder B] in
theorem SameCapacity.refl (b : PrefixCacheBlock B P) : SameCapacity b b :=
  ⟨⟨rfl, rfl, rfl, rfl, id⟩, Iff.rfl, Iff.rfl⟩

omit [LinearOrder B] in
theorem rel_map {R : PrefixCacheBlock B P → PrefixCacheBlock B P → Prop}
    {f : PrefixCacheBlock B P → PrefixCacheBlock B P} (h : ∀ b, R b (f b))
    (o : Option (PrefixCacheBlock B P)) : Option.Rel R o (o.map f) := by
  cases o with
  | none => exact .none
  | some b => exact .some (h b)

/-- One block is retagged. -/
theorem retagged_setBlock {R : PrefixCacheBlock B P → PrefixCacheBlock B P → Prop}
    {b' : PrefixCacheBlock B P} (hR : ∀ b, R b b) (hb : s.getBlock id = some b) (h : R b b') :
    Retagged R s (s.setBlock id b') where
  backend := rfl
  memo := rfl
  maxBlocks := rfl
  routing := ⟨rfl, rfl, rfl, rfl⟩
  blocks q := by
    rw [getBlock_setBlock]
    split
    · subst q
      rw [hb]
      exact .some h
    · exact (Retagged.refl hR).blocks q

/-- The routing of an index that keeps its ids. -/
theorem Indexed.sameRouting (h : Indexed s) (ht : SameRouting s t)
    (hids : ∀ id, (∃ b, s.getBlock id = some b) ↔ ∃ b, t.getBlock id = some b) :
    (t.routingMembership.Holds fun id => ∃ b, t.getBlock id = some b) ∧
      ∀ last, t.lastRoutingSnapshot = some last → last = t.newRoutingSnapshot last.method := by
  constructor
  · rw [ht.membership]
    exact h.routing.congr hids
  · intro last hlast
    unfold newRoutingSnapshot
    rw [ht.blockSize, ht.membership]
    exact h.snapshot last (ht.snapshot ▸ hlast)

theorem Retagged.backward {R : PrefixCacheBlock B P → PrefixCacheBlock B P → Prop}
    (h : Retagged R s t) {b' : PrefixCacheBlock B P} (hb : t.getBlock id = some b') :
    ∃ b, s.getBlock id = some b ∧ R b b' := by
  have := h.blocks id
  rw [hb] at this
  cases hs : s.getBlock id with
  | none => rw [hs] at this; cases this
  | some b =>
    rw [hs] at this
    cases this
    exact ⟨b, rfl, ‹_›⟩

theorem Retagged.forward {R : PrefixCacheBlock B P → PrefixCacheBlock B P → Prop}
    (h : Retagged R s t) (hb : s.getBlock id = some b) :
    ∃ b', t.getBlock id = some b' ∧ R b b' := by
  have := h.blocks id
  rw [hb] at this
  cases ht : t.getBlock id with
  | none => rw [ht] at this; cases this
  | some b' =>
    rw [ht] at this
    cases this
    exact ⟨b', rfl, ‹_›⟩

theorem Retagged.indexed_iff {R : PrefixCacheBlock B P → PrefixCacheBlock B P → Prop}
    (h : Retagged R s t) (id : B) :
    (∃ b, s.getBlock id = some b) ↔ ∃ b, t.getBlock id = some b := by
  constructor
  · rintro ⟨b, hb⟩
    exact (h.forward hb).imp fun _ hb' => hb'.1
  · rintro ⟨b, hb⟩
    exact (h.backward hb).imp fun _ hb' => hb'.1

/-! ## The blocks and the tree stay in agreement -/

theorem Indexed.retagged (h : Indexed s) (ht : Retagged SameShape s t) : Indexed t where
  edges id p := by
    rw [ht.backend, h.edges]
    constructor
    · rintro ⟨b, hb, rfl⟩
      obtain ⟨b', hb', hsame⟩ := ht.forward hb
      exact ⟨b', hb', hsame.parent⟩
    · rintro ⟨b', hb', rfl⟩
      obtain ⟨b, hb, hsame⟩ := ht.backward hb'
      exact ⟨b, hb, hsame.parent.symm⟩
  ids id b' hb' := by
    obtain ⟨b, hb, hsame⟩ := ht.backward hb'
    rw [hsame.id, h.ids id b hb]
  valid id b' hb' := by
    obtain ⟨b, hb, hsame⟩ := ht.backward hb'
    rw [hsame.residency]
    exact h.valid id b hb
  routing := (h.sameRouting ht.routing ht.indexed_iff).1
  snapshot := (h.sameRouting ht.routing ht.indexed_iff).2

theorem Retagged.shape (h : Retagged SameCapacity s t) : Retagged SameShape s t where
  backend := h.backend
  memo := h.memo
  maxBlocks := h.maxBlocks
  routing := h.routing
  blocks id := by
    have := h.blocks id
    revert this
    cases s.getBlock id <;> cases t.getBlock id <;> intro h1 <;> cases h1
    · exact .none
    · rename_i hb
      exact .some hb.toSameShape

theorem indexed_resided {r : PrefixBlockResidency} (hb : s.getBlock id = some b) (q : B) :
    (∃ b', s.getBlock q = some b') ↔ ∃ b', (s.resided id b r).getBlock q = some b' := by
  rw [getBlock_resided]
  by_cases hq : q = id
  · subst q
    simp [hb]
  · rw [if_neg hq]

theorem Indexed.resided {r : PrefixBlockResidency} (h : Indexed s) (hb : s.getBlock id = some b)
    (hr : r.Valid) : Indexed (s.resided id b r) where
  edges q p := by
    show (q, p) ∈ s.backend.edges ↔ _
    rw [h.edges, getBlock_resided]
    split
    · subst q
      simp [hb]
    · rfl
  ids q b' hb' := by
    rw [getBlock_resided] at hb'
    split at hb'
    · subst q
      obtain rfl := Option.some.inj hb'
      exact h.ids id b hb
    · exact h.ids q b' hb'
  valid q b' hb' := by
    rw [getBlock_resided] at hb'
    split at hb'
    · obtain rfl := Option.some.inj hb'
      exact hr
    · exact h.valid q b' hb'
  routing :=
    (h.sameRouting (t := s.resided id b r) ⟨rfl, rfl, rfl, rfl⟩ (indexed_resided hb)).1
  snapshot :=
    (h.sameRouting (t := s.resided id b r) ⟨rfl, rfl, rfl, rfl⟩ (indexed_resided hb)).2

theorem Removed.getBlock (h : Removed s id t) :
    t.getBlock q = if q = id then none else s.getBlock q := by
  unfold RadixPrefixIndex.getBlock
  rw [h.blocks, Dict.get?_pop]

theorem Indexed.removed (h : Indexed s) (ht : Removed s id t) : Indexed t where
  edges q p := by
    rw [ht.edges, h.edges, ht.getBlock]
    by_cases hq : q = id
    · simp [hq]
    · simp [hq]
  ids q b hb := by
    rw [ht.getBlock] at hb
    split at hb
    · cases hb
    · exact h.ids q b hb
  valid q b hb := by
    rw [ht.getBlock] at hb
    split at hb
    · cases hb
    · exact h.valid q b hb
  routing := by
    obtain ⟨m, hm, hholds⟩ := h.routing.remove ht.here
    obtain rfl := Except.ok.inj (hm.symm.trans ht.routing)
    refine hholds.congr fun q => ?_
    rw [ht.getBlock]
    by_cases hq : q = id
    · simp [hq]
    · simp [hq]
  snapshot last hlast := by
    rw [ht.snapshot] at hlast
    cases hlast

theorem ResidencyChange.valid {r : PrefixBlockResidency} (hb : b.residency.Valid)
    (h : ResidencyChange s b r) : r.Valid := by
  unfold PrefixBlockResidency.Valid at hb ⊢
  cases h <;> simp_all

/-- **Every change keeps the blocks and the tree in agreement.** -/
theorem Change.indexed (hs : Indexed s) (h : Change s t) : Indexed t := by
  cases h with
  | minor tags _ => exact hs.retagged tags.shape
  | retag tags _ => exact hs.retagged tags
  | reside here change => exact hs.resided here (change.valid (hs.valid _ _ here))
  | remove _ _ gone => exact hs.removed gone
  | memo view _ => exact ⟨hs.edges, hs.ids, hs.valid, hs.routing, hs.snapshot⟩

theorem Indexed.changes (hs : Indexed s) (h : Relation.ReflTransGen Change s t) : Indexed t := by
  induction h with
  | refl => exact hs
  | tail _ hlast ih => exact hlast.indexed ih

end States

/-! ## Methods -/

section Methods

variable {s t : RadixPrefixIndex B P} {id : B} {b : PrefixCacheBlock B P}

theorem indexed_some (e : PrefixIndexError B) (h : s.getBlock id = some b) :
    (indexed id e : PrefixIndexM B P _) s = .ok b s := by
  unfold indexed
  rw [get_bind, h]
  rfl

theorem indexed_none (e : PrefixIndexError B) (h : s.getBlock id = none) :
    (indexed id e : PrefixIndexM B P _) s = .error e s := by
  unfold indexed
  rw [get_bind, h]
  rfl

omit [LinearOrder B] in
theorem validate_ok {r : PrefixBlockResidency} (h : r.Valid) :
    (validate r : PrefixIndexM B P _) s = .ok () s := by
  unfold validate
  rw [PrefixBlockResidency.defect_eq_none.mpr h]
  rfl

omit [LinearOrder B] in
/-- A check that passes or raises, and leaves the index alone. -/
theorem validate_cases (r : PrefixBlockResidency) :
    (∃ e, (validate r : PrefixIndexM B P _) s = .error e s) ∨
      r.Valid ∧ (validate r : PrefixIndexM B P _) s = .ok () s := by
  by_cases h : r.Valid
  · exact Or.inr ⟨h, validate_ok h⟩
  · left
    unfold validate
    cases hd : (r.defect : Option (PrefixIndexError B)) with
    | none => exact absurd (PrefixBlockResidency.defect_eq_none.mp hd) h
    | some e => exact ⟨e, rfl⟩

theorem reside_ok {r : PrefixBlockResidency} (h : r.Valid) :
    reside id b r s = .ok () (s.resided id b r) := by
  unfold reside
  rw [modify_bind, bind_ok (validate_ok h)]
  rfl

theorem beginD2h_run (hs : Indexed s) :
    (∃ e, beginD2h id s = .error e s) ∨ ∃ b r, s.getBlock id = some b ∧
      r = { b.residency with transfer := some .d2h } ∧ ResidencyChange s b r ∧
      beginD2h id s = .ok () (s.resided id b r) := by
  unfold beginD2h
  cases hb : s.getBlock id with
  | none => exact Or.inl ⟨_, bind_error (indexed_none _ hb)⟩
  | some b =>
    rw [bind_ok (indexed_some _ hb), bind_ok (validate_ok (hs.valid id b hb))]
    simp only [raiseIf_bind, get_bind]
    split
    · exact Or.inl ⟨_, rfl⟩
    split
    · exact Or.inl ⟨_, rfl⟩
    split
    · exact Or.inl ⟨_, rfl⟩
    split
    · exact Or.inl ⟨_, rfl⟩
    · rename_i hrefs hhost hidle hpath
      simp only [ne_eq, not_not, Bool.not_eq_true, Bool.not_eq_false] at hrefs hhost hidle hpath
      have hchange := ResidencyChange.beginD2h hrefs hhost hidle hpath
      exact Or.inr ⟨b, _, rfl, rfl, hchange, reside_ok (hchange.valid (hs.valid id b hb))⟩

theorem finishD2h_run (hs : Indexed s) :
    (∃ e, finishD2h id s = .error e s) ∨ ∃ b r, s.getBlock id = some b ∧
      r = { b.residency with hostPresent := true, transfer := none } ∧ ResidencyChange s b r ∧
      finishD2h id s = .ok () (s.resided id b r) := by
  unfold finishD2h
  cases hb : s.getBlock id with
  | none => exact Or.inl ⟨_, bind_error (indexed_none _ hb)⟩
  | some b =>
    rw [bind_ok (indexed_some _ hb)]
    simp only [raiseIf_bind, get_bind]
    split
    · exact Or.inl ⟨_, rfl⟩
    split
    · exact Or.inl ⟨_, rfl⟩
    · rename_i hactive hpath
      simp only [ne_eq, not_not, Bool.not_eq_false] at hactive hpath
      have hchange := ResidencyChange.finishD2h hactive hpath
      exact Or.inr ⟨b, _, rfl, rfl, hchange, reside_ok (hchange.valid (hs.valid id b hb))⟩

theorem beginH2d_run (hs : Indexed s) :
    (∃ e, beginH2d id s = .error e s) ∨ ∃ b r, s.getBlock id = some b ∧
      r = { b.residency with devicePresent := true, transfer := some .h2d } ∧
      ResidencyChange s b r ∧ beginH2d id s = .ok () (s.resided id b r) := by
  unfold beginH2d
  cases hb : s.getBlock id with
  | none => exact Or.inl ⟨_, bind_error (indexed_none _ hb)⟩
  | some b =>
    rw [bind_ok (indexed_some _ hb), bind_ok (validate_ok (hs.valid id b hb))]
    simp only [raiseIf_bind, get_bind]
    split
    · exact Or.inl ⟨_, rfl⟩
    split
    · exact Or.inl ⟨_, rfl⟩
    split
    · exact Or.inl ⟨_, rfl⟩
    split
    · exact Or.inl ⟨_, rfl⟩
    · rename_i hdevice hhost hidle hpath
      simp only [ne_eq, not_not, Bool.not_eq_true, Bool.not_eq_false] at hdevice hhost hidle hpath
      have hchange := ResidencyChange.beginH2d hdevice hhost hidle hpath
      exact Or.inr ⟨b, _, rfl, rfl, hchange, reside_ok (hchange.valid (hs.valid id b hb))⟩

theorem finishH2d_run (hs : Indexed s) :
    (∃ e, finishH2d id s = .error e s) ∨ ∃ b r, s.getBlock id = some b ∧
      r = { b.residency with transfer := none } ∧ ResidencyChange s b r ∧
      finishH2d id s = .ok () (s.resided id b r) := by
  unfold finishH2d
  cases hb : s.getBlock id with
  | none => exact Or.inl ⟨_, bind_error (indexed_none _ hb)⟩
  | some b =>
    rw [bind_ok (indexed_some _ hb)]
    simp only [raiseIf_bind]
    split
    · exact Or.inl ⟨_, rfl⟩
    · rename_i hactive
      simp only [ne_eq, not_not] at hactive
      have hchange := ResidencyChange.finishH2d (s := s) hactive
      exact Or.inr ⟨b, _, rfl, rfl, hchange, reside_ok (hchange.valid (hs.valid id b hb))⟩

theorem abortH2d_run (hs : Indexed s) :
    (∃ e, abortH2d id s = .error e s) ∨ ∃ b r, s.getBlock id = some b ∧
      r = { b.residency with devicePresent := false, transfer := none } ∧
      ResidencyChange s b r ∧ abortH2d id s = .ok () (s.resided id b r) := by
  unfold abortH2d
  cases hb : s.getBlock id with
  | none => exact Or.inl ⟨_, bind_error (indexed_none _ hb)⟩
  | some b =>
    rw [bind_ok (indexed_some _ hb)]
    simp only [raiseIf_bind, get_bind]
    split
    · exact Or.inl ⟨_, rfl⟩
    split
    · exact Or.inl ⟨_, rfl⟩
    · rename_i hactive hchildren
      simp only [ne_eq, not_not] at hactive hchildren
      have hchange := ResidencyChange.abortH2d hactive
        (hs.ids id b hb ▸ hs.deviceChildCount_eq_zero.mp hchildren)
      exact Or.inr ⟨b, _, rfl, rfl, hchange, reside_ok (hchange.valid (hs.valid id b hb))⟩

variable (id) in
/-- `abort_d2h` checks the block alone, not the blocks below it. -/
theorem abortD2h_run (hs : Indexed s) :
    (∃ e, abortD2h id s = .error e s) ∨ ∃ b r, s.getBlock id = some b ∧
      b.residency.transfer = some .d2h ∧ r = { b.residency with transfer := none } ∧ r.Valid ∧
      abortD2h id s = .ok () (s.resided id b r) := by
  unfold abortD2h
  cases hb : s.getBlock id with
  | none => exact Or.inl ⟨_, bind_error (indexed_none _ hb)⟩
  | some b =>
    rw [bind_ok (indexed_some _ hb)]
    simp only [raiseIf_bind]
    split
    · exact Or.inl ⟨_, rfl⟩
    · rename_i hactive
      simp only [ne_eq, not_not] at hactive
      have hvalid : ({ b.residency with transfer := none } : PrefixBlockResidency).Valid := by
        have := hs.valid id b hb
        unfold PrefixBlockResidency.Valid at this ⊢
        simp_all
      exact Or.inr ⟨b, _, rfl, hactive, rfl, hvalid, reside_ok hvalid⟩

/-- Storing a count is a change of tags, which moves the capacity epoch when it passes zero. -/
theorem storeRefCount_change (hb : s.getBlock id = some b) {n : Int} (hn : 0 ≤ n) :
    ∃ t, storeRefCount b id n s = .ok () t ∧ (t = s ∨ Change s t) := by
  unfold storeRefCount
  by_cases hsame : b.refCount = n
  · exact ⟨s, by rw [if_pos hsame]; rfl, Or.inl rfl⟩
  · rw [if_neg hsame]
    have hshape : SameShape b { b with refCount := n } := ⟨rfl, rfl, rfl, rfl, fun _ => hn⟩
    by_cases hzero : (b.refCount = 0) = (n = 0)
    · refine ⟨(s.setBlock id { b with refCount := n }).markMutated, ?_, Or.inr (.minor ?_ rfl)⟩
      · simp only [modify_apply, ne_eq, hzero, not_true_eq_false, if_false]
      · have htags : Retagged SameCapacity s (s.setBlock id { b with refCount := n }) :=
          retagged_setBlock SameCapacity.refl hb ⟨hshape, by simp [hzero], Iff.rfl⟩
        exact ⟨htags.backend, htags.memo, rfl, ⟨rfl, rfl, rfl, rfl⟩, htags.blocks⟩
    · refine ⟨(s.setBlock id { b with refCount := n }).markCapacityMutated, ?_,
        Or.inr (.retag ?_ (Int.lt_succ _))⟩
      · simp only [modify_apply, ne_eq, hzero, not_false_eq_true, if_true]
      · have htags := retagged_setBlock (s := s) (fun b => (SameCapacity.refl b).toSameShape) hb
          hshape
        exact ⟨htags.backend, htags.memo, rfl, ⟨rfl, rfl, rfl, rfl⟩, htags.blocks⟩

variable (s id) in
theorem setBlockRefCount_run (n : Int) :
    (∃ e, setBlockRefCount id n s = .error e s) ∨
      ∃ t, setBlockRefCount id n s = .ok () t ∧ (t = s ∨ Change s t) := by
  unfold setBlockRefCount
  cases hb : s.getBlock id with
  | none => exact Or.inl ⟨_, bind_error (indexed_none _ hb)⟩
  | some b =>
    rw [bind_ok (indexed_some _ hb), raiseIf_bind]
    split
    · exact Or.inl ⟨_, rfl⟩
    · exact Or.inr (storeRefCount_change hb (by omega))

theorem get?_touchAll (access : Nat) (ids : List B) (d : Dict B (PrefixCacheBlock B P)) (q : B) :
    (touchAll access d ids).get? q =
      (d.get? q).map fun b => if q ∈ ids then { b with lastAccess := access } else b := by
  induction ids generalizing d with
  | nil => simp [touchAll]
  | cons i ids ih =>
    rw [show touchAll access d (i :: ids) =
      touchAll access (d.modify i fun block => { block with lastAccess := access }) ids from rfl,
      ih, Dict.get?_modify]
    by_cases hq : q = i
    · subst i
      cases d.get? q with
      | none => simp
      | some b => by_cases hmem : q ∈ ids <;> simp [hmem]
    · simp [hq]

theorem touchChain_change (ids : List B) :
    ∃ t, touchChain ids s = .ok () t ∧ Change s t := by
  refine ⟨_, rfl, .minor ⟨rfl, rfl, rfl, ⟨rfl, rfl, rfl, rfl⟩, fun q => ?_⟩ rfl⟩
  show Option.Rel _ (s.blocks.get? q) ((touchAll s.tick.clock s.blocks ids).get? q)
  rw [get?_touchAll]
  apply rel_map
  intro b
  split
  · exact ⟨⟨rfl, rfl, rfl, rfl, fun h => h⟩, Iff.rfl, Iff.rfl⟩
  · exact SameCapacity.refl b

/-- A removable block without children is removed. -/
theorem removeBlockFromIndex_ok (hs : Indexed s) (hb : s.getBlock id = some b) (hrem : Removable b)
    (hchildren : s.backend.childCount id = 0) :
    ∃ t, removeBlockFromIndex id s = .ok b t ∧ Removed s id t := by
  obtain ⟨backend, hremove, hedges⟩ :=
    RadixTreeBackend.removeBlock_spec (hs.mem_ids.mpr ⟨b, hb⟩) hchildren
  obtain ⟨membership, hgone, -⟩ := hs.routing.remove ⟨b, hb⟩
  refine ⟨({ s with
      backend := backend, blocks := s.blocks.pop id, routingMembership := membership,
      lastRoutingSnapshot := none } : RadixPrefixIndex B P).markRemoved, ?_,
    ⟨⟨b, hb⟩, hs.childCount_eq_zero.mp hchildren, rfl, hedges, rfl, Int.lt_succ _, rfl, rfl, hgone,
      rfl, Int.lt_succ _⟩⟩
  unfold removeBlockFromIndex
  rw [bind_ok (indexed_some _ hb)]
  simp only [raiseIf_bind, get_bind, hrem.1, not_lt.mpr hrem.2.1, hrem.2.2, hchildren, ne_eq,
    not_true_eq_false, if_false]
  unfold dropFromIndex recordRoutingRemove
  simp only [bind_apply, get_apply, hremove, set_apply, hgone]
  rfl

variable (id) in
theorem removeBlockFromIndex_run (hs : Indexed s) :
    (∃ e, removeBlockFromIndex id s = .error e s) ∨ ∃ b t, s.getBlock id = some b ∧
      Removable b ∧ Removed s id t ∧ removeBlockFromIndex id s = .ok b t := by
  cases hb : s.getBlock id with
  | none => exact Or.inl ⟨_, bind_error (indexed_none _ hb)⟩
  | some b =>
    by_cases hok : Removable b ∧ s.backend.childCount id = 0
    · obtain ⟨t, hrun, hgone⟩ := removeBlockFromIndex_ok hs hb hok.1 hok.2
      exact Or.inr ⟨b, t, rfl, hok.1, hgone, hrun⟩
    · left
      unfold removeBlockFromIndex
      rw [bind_ok (indexed_some _ hb)]
      simp only [raiseIf_bind, get_bind]
      split
      · exact ⟨_, rfl⟩
      split
      · exact ⟨_, rfl⟩
      split
      · exact ⟨_, rfl⟩
      split
      · exact ⟨_, rfl⟩
      · rename_i hrefs hpriority hidle hchildren
        simp only [ne_eq, not_not, not_lt] at hrefs hpriority hidle hchildren
        exact absurd ⟨⟨hrefs, hpriority, hidle⟩, hchildren⟩ hok

variable (id) in
theorem rollbackInsertedLeaf_run (hs : Indexed s) :
    (∃ e, rollbackInsertedLeaf id s = .error e s) ∨ ∃ b t, s.getBlock id = some b ∧
      Removable b ∧ Removed s id t ∧ rollbackInsertedLeaf id s = .ok () t := by
  unfold rollbackInsertedLeaf
  cases hb : s.getBlock id with
  | none => exact Or.inl ⟨_, bind_error (indexed_none _ hb)⟩
  | some b =>
    rw [bind_ok (indexed_some _ hb)]
    simp only [raiseIf_bind, get_bind]
    split
    · exact Or.inl ⟨_, rfl⟩
    split
    · exact Or.inl ⟨_, rfl⟩
    split
    · exact Or.inl ⟨_, rfl⟩
    rcases removeBlockFromIndex_run id hs with ⟨e, he⟩ | ⟨b', t, hb', hrem, hgone, hok⟩
    · exact Or.inl ⟨e, bind_error he⟩
    · obtain rfl : b = b' := Option.some.inj (hb.symm.trans hb')
      right
      rw [bind_ok hok]
      exact ⟨b, { t with committedBlocks := t.committedBlocks - 1 }, rfl, hrem,
        ⟨hgone.here, hgone.childless, hgone.blocks, hgone.edges, hgone.memo, hgone.epoch,
          hgone.maxBlocks, hgone.blockSize, hgone.routing, hgone.snapshot, hgone.removals⟩, rfl⟩

theorem get?_storePriority (priority : Int) (r : Dict B (PrefixCacheBlock B P) × Bool × Bool)
    (id q : B) : (storePriority priority r id).1.get? q = (r.1.get? q).map fun b =>
      if q = id then { b with evictionPriority := priority } else b := by
  unfold storePriority
  cases hid : r.1.get? id with
  | none =>
    by_cases hq : q = id
    · subst q
      simp [hid]
    · simp [hq]
  | some block =>
    by_cases hsame : block.evictionPriority = priority
    · simp only [if_pos hsame]
      by_cases hq : q = id
      · subst q
        simp [hid, ← hsame]
      · simp [hq]
    · simp only [if_neg hsame, Dict.get?_set]
      by_cases hq : q = id
      · subst q
        simp [hid]
      · simp [hq]

/-- While `capacity_changed` stays unset, no sign has changed. -/
theorem storePriority_sign {priority : Int} {r : Dict B (PrefixCacheBlock B P) × Bool × Bool}
    {id : B} (h : (storePriority priority r id).2.2 = false) : r.2.2 = false ∧
      ∀ b, r.1.get? id = some b → (0 ≤ priority ↔ 0 ≤ b.evictionPriority) := by
  unfold storePriority at h
  cases hid : r.1.get? id with
  | none =>
    rw [hid] at h
    exact ⟨h, by simp⟩
  | some block =>
    rw [hid] at h
    by_cases hsame : block.evictionPriority = priority
    · simp only [if_pos hsame] at h
      refine ⟨h, fun b hb => ?_⟩
      obtain rfl := Option.some.inj hb
      rw [hsame]
    · simp only [if_neg hsame, Bool.or_eq_false_iff, bne_eq_false_iff_eq, decide_eq_decide] at h
      refine ⟨h.1, fun b hb => ?_⟩
      obtain rfl := Option.some.inj hb
      have := h.2
      omega

theorem get?_storePriorities (priority : Int) (ids : List B)
    (r : Dict B (PrefixCacheBlock B P) × Bool × Bool) (q : B) :
    (ids.foldl (storePriority priority) r).1.get? q = (r.1.get? q).map fun b =>
      if q ∈ ids then { b with evictionPriority := priority } else b := by
  induction ids generalizing r with
  | nil => simp
  | cons i ids ih =>
    rw [List.foldl_cons, ih, get?_storePriority]
    cases r.1.get? q with
    | none => rfl
    | some b => by_cases hq : q = i <;> by_cases hmem : q ∈ ids <;> simp [hq, hmem]

theorem storePriorities_sign {priority : Int} {ids : List B}
    {r : Dict B (PrefixCacheBlock B P) × Bool × Bool}
    (h : (ids.foldl (storePriority priority) r).2.2 = false) :
    r.2.2 = false ∧ ∀ q ∈ ids, ∀ b, r.1.get? q = some b →
      (0 ≤ priority ↔ 0 ≤ b.evictionPriority) := by
  induction ids generalizing r with
  | nil => exact ⟨h, by simp⟩
  | cons i ids ih =>
    obtain ⟨hr, hrest⟩ := ih h
    obtain ⟨hr', hi⟩ := storePriority_sign hr
    refine ⟨hr', fun q hq b hb => ?_⟩
    by_cases hqi : q = i
    · subst q
      exact hi b hb
    · have := hrest q ((List.mem_cons.mp hq).resolve_left hqi) b
        (by rw [get?_storePriority, hb]; simp [hqi])
      exact this

theorem setSubtreeEvictionPriority_change (ids : List B) (priority : Int) :
    ∃ t, setSubtreeEvictionPriority ids priority s = .ok () t ∧ (t = s ∨ Change s t) := by
  refine ⟨_, rfl, ?_⟩
  cases hsub : s.exactSubtreeIds ids with
  | none => exact Or.inl (by simp only [hsub])
  | some subtree =>
    right
    simp only [hsub]
    have hget := get?_storePriorities priority subtree (s.blocks, false, false)
    have hshape : ∀ q, Option.Rel SameShape (s.getBlock q)
        ((subtree.foldl (storePriority priority) (s.blocks, false, false)).1.get? q) := by
      intro q
      rw [hget]
      apply rel_map
      intro b
      split
      · exact ⟨rfl, rfl, rfl, rfl, id⟩
      · exact ⟨rfl, rfl, rfl, rfl, id⟩
    by_cases hsign : (subtree.foldl (storePriority priority) (s.blocks, false, false)).2.2 = true
    · rw [if_pos hsign]
      exact .retag ⟨rfl, rfl, rfl, ⟨rfl, rfl, rfl, rfl⟩, hshape⟩ (Int.lt_succ _)
    · rw [if_neg hsign]
      have hsame := (storePriorities_sign (by simpa using hsign)).2
      have hcapacity : ∀ q, Option.Rel SameCapacity (s.getBlock q)
          ((subtree.foldl (storePriority priority) (s.blocks, false, false)).1.get? q) := by
        intro q
        rw [hget]
        cases hb : s.blocks.get? q with
        | none => rw [show s.getBlock q = none from hb]; exact .none
        | some b =>
          rw [show s.getBlock q = some b from hb]
          refine .some ?_
          by_cases hmem : q ∈ subtree
          · simp only [hmem, if_true]
            exact ⟨⟨rfl, rfl, rfl, rfl, id⟩, Iff.rfl, hsame q hmem b hb⟩
          · simp only [hmem, if_false]
            exact SameCapacity.refl b
      split
      · exact .minor ⟨rfl, rfl, rfl, ⟨rfl, rfl, rfl, rfl⟩, hcapacity⟩ rfl
      · exact .minor ⟨rfl, rfl, rfl, ⟨rfl, rfl, rfl, rfl⟩, hcapacity⟩ rfl

theorem memoised_run (view : CapacityView) :
    memoised view s = .ok (s.memo view).ids s ∧ (s.memo view).epoch = s.capacityEpoch ∨
      ∃ t, memoised view s = .ok (s.scan view) t ∧ Change s t := by
  unfold memoised
  rw [get_bind]
  by_cases hcur : (s.memo view).epoch = s.capacityEpoch
  · rw [if_pos hcur]
    exact Or.inl ⟨rfl, hcur⟩
  · rw [if_neg hcur]
    exact Or.inr ⟨_, rfl, .memo view hcur⟩

end Methods

/-! ## Programs that only make changes -/

section Programs

variable {α β : Type}

/-- From an index in agreement, `m` only makes changes. -/
def Evolves (m : PrefixIndexM B P α) : Prop :=
  ∀ s, Indexed s → Keeps (Relation.ReflTransGen Change s) m

theorem Evolves.pure (a : α) : Evolves (Pure.pure a : PrefixIndexM B P α) :=
  fun _ _ => Keeps.pure a

theorem Evolves.bind {m : PrefixIndexM B P α} {f : α → PrefixIndexM B P β} (hm : Evolves m)
    (hf : ∀ a, Evolves (f a)) : Evolves (m >>= f) := by
  intro s hs
  -- the second program starts from an index the first one has changed
  have hrest : ∀ a, Keeps (Relation.ReflTransGen Change s) (f a) := by
    intro a t ht
    have := hf a t (hs.changes ht) t .refl
    cases h : f a t with
    | ok b u | error e u => rw [h] at this; exact ht.trans this
  exact Keeps.bind (hm s hs) hrest

/-- A method that either leaves the index alone or makes one change. -/
theorem Evolves.of_run {m : PrefixIndexM B P α}
    (h : ∀ s, Indexed s → stateAfter m s = s ∨ Change s (stateAfter m s)) : Evolves m := by
  intro s hs t ht
  have := h t (hs.changes ht)
  unfold stateAfter at this
  cases hm : m t with
  | ok a u | error e u =>
    rw [hm] at this
    rcases this with rfl | hchange
    · exact ht
    · exact ht.tail hchange

theorem evolves_indexed (id : B) (e : PrefixIndexError B) :
    Evolves (indexed id e : PrefixIndexM B P _) := by
  apply Evolves.of_run
  intro s _
  cases hb : s.getBlock id with
  | none => exact Or.inl (stateAfter_error (indexed_none e hb))
  | some b => exact Or.inl (stateAfter_ok (indexed_some e hb))

theorem evolves_setBlockRefCount (id : B) (n : Int) :
    Evolves (setBlockRefCount id n : PrefixIndexM B P _) := by
  apply Evolves.of_run
  intro s _
  rcases setBlockRefCount_run s id n with ⟨e, he⟩ | ⟨t, ht, hchange⟩
  · exact Or.inl (stateAfter_error he)
  · rw [stateAfter_ok ht]
    exact hchange

theorem evolves_acquireBlockRef (id : B) : Evolves (acquireBlockRef id : PrefixIndexM B P _) :=
  (evolves_indexed id _).bind fun _ => evolves_setBlockRefCount id _

theorem evolves_releaseBlockRef (id : B) : Evolves (releaseBlockRef id : PrefixIndexM B P _) :=
  (evolves_indexed id _).bind fun _ => evolves_setBlockRefCount id _

theorem evolves_touchChain (ids : List B) : Evolves (touchChain ids : PrefixIndexM B P _) := by
  apply Evolves.of_run
  intro s _
  obtain ⟨t, ht, hchange⟩ := touchChain_change (s := s) ids
  rw [stateAfter_ok ht]
  exact Or.inr hchange

theorem evolves_forEach {body : α → PrefixIndexM B P Unit} (h : ∀ a, Evolves (body a))
    (l : List α) : Evolves (forEach l body) := by
  induction l with
  | nil => exact Evolves.pure ()
  | cons a l ih => exact (h a).bind fun _ => ih

theorem evolves_markPayloadCompacted (ids : List B) :
    Evolves (markPayloadCompacted ids : PrefixIndexM B P _) := by
  unfold markPayloadCompacted
  split
  · exact Evolves.pure ()
  · refine (evolves_forEach (fun id => ?_) ids).bind fun _ => ?_
    · exact (evolves_indexed id _).bind fun _ => Evolves.pure ()
    · apply Evolves.of_run
      intro s _
      have htags := Retagged.refl (s := s) fun b => (SameCapacity.refl b).toSameShape
      exact Or.inr (.retag ⟨htags.backend, htags.memo, rfl, ⟨rfl, rfl, rfl, rfl⟩, htags.blocks⟩ (Int.lt_succ _))

theorem evolves_setSubtreeEvictionPriority (ids : List B) (priority : Int) :
    Evolves (setSubtreeEvictionPriority ids priority : PrefixIndexM B P _) := by
  apply Evolves.of_run
  intro s _
  obtain ⟨t, ht, hchange⟩ := setSubtreeEvictionPriority_change (s := s) ids priority
  rw [stateAfter_ok ht]
  exact hchange

theorem evolves_memoised (view : CapacityView) :
    Evolves (memoised view : PrefixIndexM B P _) := by
  apply Evolves.of_run
  intro s _
  rcases memoised_run (s := s) view with ⟨h, _⟩ | ⟨t, ht, hchange⟩
  · exact Or.inl (stateAfter_ok h)
  · rw [stateAfter_ok ht]
    exact Or.inr hchange

/-- The six methods that change one residency after checking it. -/
theorem Evolves.of_reside {m : PrefixIndexM B P Unit} {id : B}
    (h : ∀ s, Indexed s → (∃ e, m s = .error e s) ∨ ∃ b r, s.getBlock id = some b ∧
      ResidencyChange s b r ∧ m s = .ok () (s.resided id b r)) : Evolves m := by
  apply Evolves.of_run
  intro s hs
  rcases h s hs with ⟨e, he⟩ | ⟨b, r, hb, hchange, hok⟩
  · exact Or.inl (stateAfter_error he)
  · rw [stateAfter_ok hok]
    exact Or.inr (.reside hb hchange)

theorem evolves_beginD2h (id : B) : Evolves (beginD2h id : PrefixIndexM B P _) :=
  Evolves.of_reside fun _ hs => (beginD2h_run hs).imp_right
    fun ⟨b, r, hb, _, hchange, hok⟩ => ⟨b, r, hb, hchange, hok⟩

theorem evolves_finishD2h (id : B) : Evolves (finishD2h id : PrefixIndexM B P _) :=
  Evolves.of_reside fun _ hs => (finishD2h_run hs).imp_right
    fun ⟨b, r, hb, _, hchange, hok⟩ => ⟨b, r, hb, hchange, hok⟩

theorem evolves_beginH2d (id : B) : Evolves (beginH2d id : PrefixIndexM B P _) :=
  Evolves.of_reside fun _ hs => (beginH2d_run hs).imp_right
    fun ⟨b, r, hb, _, hchange, hok⟩ => ⟨b, r, hb, hchange, hok⟩

theorem evolves_finishH2d (id : B) : Evolves (finishH2d id : PrefixIndexM B P _) :=
  Evolves.of_reside fun _ hs => (finishH2d_run hs).imp_right
    fun ⟨b, r, hb, _, hchange, hok⟩ => ⟨b, r, hb, hchange, hok⟩

theorem evolves_abortH2d (id : B) : Evolves (abortH2d id : PrefixIndexM B P _) :=
  Evolves.of_reside fun _ hs => (abortH2d_run hs).imp_right
    fun ⟨b, r, hb, _, hchange, hok⟩ => ⟨b, r, hb, hchange, hok⟩

theorem evolves_removeBlockFromIndex (id : B) :
    Evolves (removeBlockFromIndex id : PrefixIndexM B P _) := by
  apply Evolves.of_run
  intro s hs
  rcases removeBlockFromIndex_run id hs with ⟨e, he⟩ | ⟨b, t, hb, hrem, hgone, hok⟩
  · exact Or.inl (stateAfter_error he)
  · rw [stateAfter_ok hok]
    exact Or.inr (.remove hb hrem hgone)

theorem evolves_rollbackInsertedLeaf (id : B) :
    Evolves (rollbackInsertedLeaf id : PrefixIndexM B P _) := by
  apply Evolves.of_run
  intro s hs
  rcases rollbackInsertedLeaf_run id hs with ⟨e, he⟩ | ⟨b, t, hb, hrem, hgone, hok⟩
  · exact Or.inl (stateAfter_error he)
  · rw [stateAfter_ok hok]
    exact Or.inr (.remove hb hrem hgone)

theorem evolves_deletePlanned (blocks : List (PrefixCacheBlock B P)) :
    Evolves (deletePlanned blocks) := by
  induction blocks with
  | nil => exact Evolves.pure _
  | cons b blocks ih =>
    exact (evolves_indexed _ _).bind fun _ => (evolves_removeBlockFromIndex _).bind fun _ =>
      ih.bind fun _ => Evolves.pure _

/-- Reading the index changes nothing. -/
theorem Evolves.get_bind {f : RadixPrefixIndex B P → PrefixIndexM B P α}
    (hf : ∀ s, Evolves (f s)) : Evolves (get >>= f) :=
  Evolves.bind (fun _ _ => Keeps.get) hf

theorem evolves_safeDeleteSubtree (ids : List B) :
    Evolves (safeDeleteSubtree ids : PrefixIndexM B P _) :=
  Evolves.get_bind fun _ => (evolves_deletePlanned _).bind fun _ => Evolves.pure _

/-! ## Eviction loops -/

/-- The loop keeps what taking an eligible block keeps. -/
theorem keeps_evictionLoop {I : RadixPrefixIndex B P → Prop} {policy : EvictionPolicy B P}
    {needed : Int} (htake : ∀ t id block, I t → t.getBlock id = some block →
      policy.eligible t block = true →
      Spec (· = t) (policy.take block) (fun _ => I) fun _ => I) :
    ∀ (fuel : Nat) (taken : Int) (q : List (EvictionKey B) × List B),
      Keeps I (evictionLoop policy needed fuel taken q)
  | 0, _, _ => Keeps.pure _
  | fuel + 1, taken, (heap, queued) => by
    unfold evictionLoop
    split
    · exact Keeps.pure _
    split
    · exact Keeps.pure _
    · apply Spec.get_bind
      intro t ht
      split
      · exact (keeps_evictionLoop htake fuel taken _).pre fun _ h => h ▸ ht
      · rename_i block hblock
        rw [Option.filter_eq_some_iff] at hblock
        refine Spec.raiseIf_bind (fun _ _ h => h ▸ ht) fun _ => ?_
        refine Spec.bind (htake t _ block ht hblock.1 hblock.2) fun gone => ?_
        exact Keeps.bind Keeps.get fun u =>
          Keeps.bind (keeps_evictionLoop htake fuel _ _) fun _ => Keeps.pure _

/-- An eviction only makes changes, when taking an eligible block does. -/
theorem Evolves.runEviction {policy : EvictionPolicy B P} {needed : Int}
    {candidates : RadixPrefixIndex B P → List B}
    (htake : ∀ t id block, Indexed t → t.getBlock id = some block →
      policy.eligible t block = true →
      Spec (· = t) (policy.take block) (fun _ => Relation.ReflTransGen Change t)
        fun _ => Relation.ReflTransGen Change t) :
    Evolves (runEviction policy needed candidates) := by
  apply Evolves.get_bind
  intro s t ht
  apply keeps_evictionLoop
  intro u id block hu hb hok
  exact (htake u id block (ht.changes hu) hb hok).conseq (fun _ h => h)
    (fun _ _ h => hu.trans h) fun _ _ h => hu.trans h

theorem take_remove {t : RadixPrefixIndex B P} (ht : Indexed t) (id : B) :
    Spec (· = t) (removeBlockFromIndex id) (fun _ => Relation.ReflTransGen Change t)
      fun _ => Relation.ReflTransGen Change t :=
  Spec.pre (evolves_removeBlockFromIndex id t ht) fun _ h => h ▸ .refl

theorem canDemoteDevice_spec {s : RadixPrefixIndex B P} (hs : Indexed s)
    {b : PrefixCacheBlock B P} (h : s.canDemoteDevice b = true) :
    Removable b ∧ b.residency.devicePresent = true ∧ b.residency.hostPresent = true ∧
      ∀ c, ¬ s.DeviceChild c b.stableBlockId := by
  unfold canDemoteDevice at h
  simp only [Bool.and_eq_true, decide_eq_true_eq] at h
  exact ⟨h.1.1.1, h.1.1.2, h.1.2, hs.deviceChildCount_eq_zero.mp h.2⟩

theorem demote_run {s : RadixPrefixIndex B P} {id : B} {b : PrefixCacheBlock B P} (hs : Indexed s)
    (hb : s.getBlock id = some b) (hok : s.canDemoteDevice b = true) :
    ∃ r, r = { b.residency with devicePresent := false } ∧ ResidencyChange s b r ∧
      demote b s = .ok { b with residency := r } (s.resided id b r) := by
  obtain ⟨hrem, _, hhost, hchildren⟩ := canDemoteDevice_spec hs hok
  have hchange := ResidencyChange.demote hhost hrem.2.2 hchildren
  refine ⟨_, rfl, hchange, ?_⟩
  unfold demote
  rw [hs.ids id b hb, bind_ok (reside_ok (hchange.valid (hs.valid id b hb)))]
  rfl

theorem evolves_evictUntilWeight (needed : Int) (weight : PrefixCacheBlock B P → Int) :
    Evolves (evictUntilWeight needed weight) :=
  Evolves.runEviction fun _ _ _ ht _ _ => take_remove ht _

theorem evolves_evictHostUntilFreeable (needed : Int) :
    Evolves (evictHostUntilFreeable needed : PrefixIndexM B P _) :=
  Evolves.runEviction fun _ _ _ ht _ _ => take_remove ht _

theorem evolves_demoteDeviceUntilWeight (needed : Int) (weight : PrefixCacheBlock B P → Int) :
    Evolves (demoteDeviceUntilWeight needed weight) := by
  apply Evolves.runEviction
  rintro t id b ht hb hok _ rfl
  obtain ⟨r, _, hchange, hrun⟩ := demote_run ht hb hok
  simp only [hrun]
  exact .single (.reside hb hchange)

end Programs

/-! ## Insertion -/

/-- What `insert_block` leaves when the block is new. -/
structure Inserted (s : RadixPrefixIndex B P) (block : PrefixCacheBlock B P)
    (t : RadixPrefixIndex B P) : Prop where
  valid : block.residency.Valid
  fresh : s.getBlock block.stableBlockId = none
  parent : ∀ p, block.parentBlockId = some p → ∃ parent, s.getBlock p = some parent ∧
    (block.residency.devicePresent = true → parent.residency.devicePresent = true) ∧
    (block.residency.hostPresent = true → parent.residency.hostPresent = true)
  blocks : t.blocks =
    s.blocks.set block.stableBlockId { block with lastAccess := s.clock + 1 }
  edges : ∀ e, e ∈ t.backend.edges ↔
    e = (block.stableBlockId, block.parentBlockId) ∨ e ∈ s.backend.edges
  memo : t.memo = s.memo
  epoch : t.capacityEpoch = if s.InsertedBlocked block then s.capacityEpoch
    else s.capacityEpoch + 1
  maxBlocks : t.maxBlocks = s.maxBlocks
  blockSize : t.blockSize = s.blockSize
  routing : s.routingMembership.insert block.stableBlockId = .ok t.routingMembership
  snapshot : t.lastRoutingSnapshot = none
  removals : t.removeEpoch = s.removeEpoch

section Insertion

variable {s t : RadixPrefixIndex B P} {block : PrefixCacheBlock B P}

theorem Inserted.getBlock (h : Inserted s block t) (q : B) : t.getBlock q =
    if q = block.stableBlockId then some { block with lastAccess := s.clock + 1 }
    else s.getBlock q := by
  unfold RadixPrefixIndex.getBlock
  rw [h.blocks, Dict.get?_set]

/-- The new block is the parent of nothing. -/
theorem Indexed.no_child_of_fresh (hs : Indexed s) {id : B} (h : s.getBlock id = none) (c : B) :
    ¬ s.Child c id := by
  intro hc
  obtain ⟨b, hb, hp⟩ := child_iff.mp hc
  obtain ⟨parent, hparent⟩ := hs.parent_indexed hb hp
  rw [h] at hparent
  cases hparent

theorem Inserted.child_iff (h : Inserted s block t) {c p : B} : t.Child c p ↔
    if c = block.stableBlockId then block.parentBlockId = some p else s.Child c p := by
  unfold Child parentAt
  rw [h.getBlock]
  by_cases hc : c = block.stableBlockId
  · simp only [hc, if_true]
  · simp only [hc, if_false]

theorem Inserted.deviceChild_iff (h : Inserted s block t) {c p : B} : t.DeviceChild c p ↔
    if c = block.stableBlockId then
      block.parentBlockId = some p ∧ block.residency.devicePresent = true
    else s.DeviceChild c p := by
  unfold DeviceChild childOnDevice
  rw [h.child_iff, h.getBlock]
  by_cases hc : c = block.stableBlockId
  · simp only [hc, if_true]
  · simp only [hc, if_false]

theorem not_child_fresh (hfresh : s.getBlock block.stableBlockId = none) (p : B) :
    ¬ s.Child block.stableBlockId p := by
  unfold Child parentAt
  rw [hfresh]
  simp

theorem Indexed.inserted (hs : Indexed s) (h : Inserted s block t) : Indexed t where
  edges q p := by
    rw [h.edges, hs.edges, h.getBlock]
    by_cases hq : q = block.stableBlockId
    · subst q
      simp [h.fresh, eq_comm]
    · simp [hq]
  ids q b hb := by
    rw [h.getBlock] at hb
    split at hb
    · obtain rfl := Option.some.inj hb
      exact ‹q = _›.symm
    · exact hs.ids q b hb
  valid q b hb := by
    rw [h.getBlock] at hb
    split at hb
    · obtain rfl := Option.some.inj hb
      exact h.valid
    · exact hs.valid q b hb
  routing := by
    have hnew : ¬ ∃ b, s.getBlock block.stableBlockId = some b := by
      rw [h.fresh]
      rintro ⟨b, hb⟩
      cases hb
    obtain ⟨m, hm, hholds⟩ := hs.routing.insert hnew
    obtain rfl := Except.ok.inj (hm.symm.trans h.routing)
    refine hholds.congr fun q => ?_
    rw [h.getBlock]
    by_cases hq : q = block.stableBlockId
    · simp [hq]
    · simp [hq]
  snapshot last hlast := by
    rw [h.snapshot] at hlast
    cases hlast

omit [LinearOrder B] in
theorem checkCapacity_cases :
    (∃ e, (checkCapacity : PrefixIndexM B P Unit) s = .error e s) ∨
      checkCapacity s = .ok () s := by
  unfold checkCapacity
  rw [get_bind]
  cases s.maxBlocks with
  | none => exact Or.inr rfl
  | some m =>
    simp only [raiseIf]
    split
    · exact Or.inl ⟨_, rfl⟩
    · exact Or.inr rfl

variable (s block) in
theorem checkParent_cases :
    (∃ e, checkParent block s = .error e s) ∨ checkParent block s = .ok () s ∧
      ∀ p, block.parentBlockId = some p → ∃ parent, s.getBlock p = some parent ∧
        (block.residency.devicePresent = true → parent.residency.devicePresent = true) ∧
        (block.residency.hostPresent = true → parent.residency.hostPresent = true) := by
  unfold checkParent
  cases hp : block.parentBlockId with
  | none => exact Or.inr ⟨rfl, by simp⟩
  | some p =>
    simp only
    cases hb : s.getBlock p with
    | none => exact Or.inl ⟨_, bind_error (indexed_none _ hb)⟩
    | some parent =>
      rw [bind_ok (indexed_some _ hb), raiseIf_bind]
      split
      · exact Or.inl ⟨_, rfl⟩
      · unfold raiseIf
        split
        · exact Or.inl ⟨_, rfl⟩
        · rename_i hdevice hhost
          refine Or.inr ⟨rfl, fun q hq => ?_⟩
          obtain rfl := Option.some.inj hq
          refine ⟨parent, hb, ?_, ?_⟩
          · simpa using hdevice
          · simpa using hhost

theorem insertedBlocked_stored (hfresh : s.getBlock block.stableBlockId = none)
    (hparent : ∀ p, block.parentBlockId = some p → ∃ parent, s.getBlock p = some parent) (n : Nat) :
    (s.tick.setBlock block.stableBlockId { block with lastAccess := n }).InsertedBlocked
      { block with lastAccess := n } ↔ s.InsertedBlocked block := by
  unfold InsertedBlocked
  cases hp : block.parentBlockId with
  | none => rfl
  | some p =>
    obtain ⟨parent, hb⟩ := hparent p hp
    have hne : p ≠ block.stableBlockId := fun e => by
      rw [e, hfresh] at hb
      cases hb
    simp only [getBlock_setBlock, if_neg hne, getBlock_tick, hb]
    rfl

omit [LinearOrder B] in
theorem markInserted_eq (s : RadixPrefixIndex B P) (capacityChanged : Bool) :
    s.markInserted capacityChanged = { s with
      insertEpoch := s.insertEpoch + 1, lookupEpoch := s.lookupEpoch + 1,
      capacityEpoch := if capacityChanged then s.capacityEpoch + 1 else s.capacityEpoch,
      mutationEpoch := s.mutationEpoch + 1 } := by
  cases capacityChanged with
  | false => rfl
  | true => rfl

theorem linkInserted_run {backend : RadixTreeBackend B}
    {membership : PrefixCacheRoutingMembership B}
    (h : s.routingMembership.insert block.stableBlockId = .ok membership) :
    linkInserted block (.ok backend) s = .ok block
      (({ s with
          backend := backend, committedBlocks := s.committedBlocks + 1,
          routingMembership := membership, lastRoutingSnapshot := none } :
        RadixPrefixIndex B P).markInserted (¬ s.InsertedBlocked block)) := by
  unfold linkInserted recordRoutingInsert
  simp only [bind_apply, modify_apply, get_apply, h]
  rfl

/-- **`insert_block`** raises and leaves the index alone, or touches the block it finds under the
id, or inserts. -/
theorem insertBlock_run (hs : Indexed s) (block : PrefixCacheBlock B P) :
    (∃ e, insertBlock block s = .error e s) ∨
    (∃ existing, s.getBlock block.stableBlockId = some existing ∧
      insertBlock block s = .ok { existing with lastAccess := s.clock + 1 }
        (s.tick.setBlock block.stableBlockId { existing with lastAccess := s.clock + 1 })) ∨
    ∃ t, Inserted s block t ∧
      insertBlock block s = .ok { block with lastAccess := s.clock + 1 } t := by
  unfold insertBlock
  rcases validate_cases (s := s) block.residency with ⟨e, he⟩ | ⟨hvalid, hok⟩
  · exact Or.inl ⟨e, bind_error he⟩
  rw [bind_ok hok, get_bind]
  cases hb : s.getBlock block.stableBlockId with
  | some existing => exact Or.inr (Or.inl ⟨existing, rfl, rfl⟩)
  | none =>
    simp only
    rcases checkCapacity_cases (s := s) with ⟨e, he⟩ | hok
    · exact Or.inl ⟨e, bind_error he⟩
    rw [bind_ok hok]
    rcases checkParent_cases s block with ⟨e, he⟩ | ⟨hok, hparent⟩
    · exact Or.inl ⟨e, bind_error he⟩
    rw [bind_ok hok]
    have hnew : block.stableBlockId ∉ s.backend.ids := by
      rw [hs.mem_ids, hb]
      rintro ⟨b, h⟩
      cases h
    have hpresent : ∀ p, block.parentBlockId = some p → p ∈ s.backend.ids := by
      intro p hp
      obtain ⟨parent, hparent, _⟩ := hparent p hp
      exact hs.mem_ids.mpr ⟨parent, hparent⟩
    obtain ⟨backend, hinsert, hedges⟩ := RadixTreeBackend.insertChild_spec hnew hpresent
    right
    right
    have hblocked := insertedBlocked_stored hb
      (fun p hp => (hparent p hp).imp fun _ h => h.1) (s.clock + 1)
    have hstore : storeInserted block s = linkInserted { block with lastAccess := s.clock + 1 }
        (s.backend.insertChild block.parentBlockId block.stableBlockId)
        (s.tick.setBlock block.stableBlockId { block with lastAccess := s.clock + 1 }) := rfl
    obtain ⟨membership, hrouted, -⟩ := hs.routing.insert fun ⟨b, h⟩ => nomatch hb.symm.trans h
    rw [hstore, hinsert]
    refine ⟨_, ?_, linkInserted_run hrouted⟩
    rw [markInserted_eq]
    refine ⟨hvalid, hb, hparent, rfl, hedges, rfl, ?_, rfl, rfl, hrouted, rfl, rfl⟩
    simp only [hblocked, decide_not, Bool.not_eq_true', decide_eq_false_iff_not, ite_not]
    rfl

/-- Committing a block again only touches it. -/
theorem touched_change {id : B} {b : PrefixCacheBlock B P} (hb : s.getBlock id = some b) (n : Nat) :
    Change s (s.tick.setBlock id { b with lastAccess := n }) := by
  have htags : Retagged SameCapacity s (s.setBlock id { b with lastAccess := n }) :=
    retagged_setBlock SameCapacity.refl hb ⟨⟨rfl, rfl, rfl, rfl, fun h => h⟩, Iff.rfl, Iff.rfl⟩
  exact .minor ⟨htags.backend, htags.memo, rfl, ⟨rfl, rfl, rfl, rfl⟩, htags.blocks⟩ rfl

end Insertion

/-! ## Runs of the index -/

/-- A call on the index. The calls on a token list take the ids of its full blocks. -/
inductive IndexOp (B P : Type) where
  | insert (block : PrefixCacheBlock B P)
  | setRefCount (id : B) (refCount : Int)
  | acquire (id : B)
  | release (id : B)
  | beginD2h (id : B)
  | finishD2h (id : B)
  | abortD2h (id : B)
  | beginH2d (id : B)
  | finishH2d (id : B)
  | abortH2d (id : B)
  | demote (needed : Int) (weight : PrefixCacheBlock B P → Int)
  | evict (needed : Int) (weight : PrefixCacheBlock B P → Int)
  | evictHost (needed : Int)
  | deleteSubtree (ids : List B)
  | setPriority (ids : List B) (priority : Int)
  | rollback (id : B)
  | touch (ids : List B)
  | compacted (ids : List B)
  | query (view : CapacityView)

/-- The method of a call, its result dropped. -/
def IndexOp.method : IndexOp B P → PrefixIndexM B P Unit
  | .insert block => do let _ ← insertBlock block
  | .setRefCount id refCount => setBlockRefCount id refCount
  | .acquire id => acquireBlockRef id
  | .release id => releaseBlockRef id
  | .beginD2h id => RadixPrefixIndex.beginD2h id
  | .finishD2h id => RadixPrefixIndex.finishD2h id
  | .abortD2h id => RadixPrefixIndex.abortD2h id
  | .beginH2d id => RadixPrefixIndex.beginH2d id
  | .finishH2d id => RadixPrefixIndex.finishH2d id
  | .abortH2d id => RadixPrefixIndex.abortH2d id
  | .demote needed weight => do let _ ← demoteDeviceUntilWeight needed weight
  | .evict needed weight => do let _ ← evictUntilWeight needed weight
  | .evictHost needed => do let _ ← evictHostUntilFreeable needed
  | .deleteSubtree ids => do let _ ← safeDeleteSubtree ids
  | .setPriority ids priority => setSubtreeEvictionPriority ids priority
  | .rollback id => rollbackInsertedLeaf id
  | .touch ids => touchChain ids
  | .compacted ids => markPayloadCompacted ids
  | .query view => do let _ ← memoised view

/-- A call leaves the index its method leaves, returning or raising. -/
def IndexOp.exec (op : IndexOp B P) (s : RadixPrefixIndex B P) : RadixPrefixIndex B P :=
  stateAfter op.method s

/-- Calls other than `insert_block` and `abort_d2h` only make changes. -/
theorem IndexOp.evolves (op : IndexOp B P) (hinsert : ∀ block, op ≠ .insert block)
    (habort : ∀ id, op ≠ .abortD2h id) : Evolves op.method := by
  cases op with
  | insert block => exact absurd rfl (hinsert block)
  | abortD2h id => exact absurd rfl (habort id)
  | setRefCount id n => exact evolves_setBlockRefCount id n
  | acquire id => exact evolves_acquireBlockRef id
  | release id => exact evolves_releaseBlockRef id
  | beginD2h id => exact evolves_beginD2h id
  | finishD2h id => exact evolves_finishD2h id
  | beginH2d id => exact evolves_beginH2d id
  | finishH2d id => exact evolves_finishH2d id
  | abortH2d id => exact evolves_abortH2d id
  | demote needed weight =>
    exact (evolves_demoteDeviceUntilWeight needed weight).bind fun _ => Evolves.pure ()
  | evict needed weight =>
    exact (evolves_evictUntilWeight needed weight).bind fun _ => Evolves.pure ()
  | evictHost needed =>
    exact (evolves_evictHostUntilFreeable needed).bind fun _ => Evolves.pure ()
  | deleteSubtree ids => exact (evolves_safeDeleteSubtree ids).bind fun _ => Evolves.pure ()
  | setPriority ids priority => exact evolves_setSubtreeEvictionPriority ids priority
  | rollback id => exact evolves_rollbackInsertedLeaf id
  | touch ids => exact evolves_touchChain ids
  | compacted ids => exact evolves_markPayloadCompacted ids
  | query view => exact (evolves_memoised view).bind fun _ => Evolves.pure ()

/-- Where a call takes an index: by changes, or by an insertion, or by an aborted D2H. -/
inductive Outcome (s : RadixPrefixIndex B P) :
    IndexOp B P → RadixPrefixIndex B P → Prop where
  | changes {op : IndexOp B P} {t : RadixPrefixIndex B P}
    (steps : Relation.ReflTransGen Change s t) : Outcome s op t
  | inserted {block : PrefixCacheBlock B P} {t : RadixPrefixIndex B P}
    (new : Inserted s block t) : Outcome s (.insert block) t
  | aborted {id : B} {b : PrefixCacheBlock B P} (here : s.getBlock id = some b)
    (active : b.residency.transfer = some .d2h)
    (valid : ({ b.residency with transfer := none } : PrefixBlockResidency).Valid) :
    Outcome s (.abortD2h id) (s.resided id b { b.residency with transfer := none })

/-- **Every call has one of these outcomes.** -/
theorem IndexOp.outcome {s : RadixPrefixIndex B P} (hs : Indexed s) (op : IndexOp B P) :
    Outcome s op (op.exec s) := by
  by_cases hinsert : ∃ block, op = .insert block
  · obtain ⟨block, rfl⟩ := hinsert
    rw [show (IndexOp.insert block).exec s = stateAfter (insertBlock block) s from
      stateAfter_discard _ s]
    rcases insertBlock_run hs block with ⟨e, he⟩ | ⟨existing, hb, hok⟩ | ⟨t, hnew, hok⟩
    · rw [stateAfter_error he]
      exact .changes .refl
    · rw [stateAfter_ok hok]
      exact .changes (.single (touched_change hb _))
    · rw [stateAfter_ok hok]
      exact .inserted hnew
  by_cases habort : ∃ id, op = .abortD2h id
  · obtain ⟨id, rfl⟩ := habort
    rw [show (IndexOp.abortD2h id).exec s = stateAfter (RadixPrefixIndex.abortD2h id) s from rfl]
    rcases abortD2h_run id hs with ⟨e, he⟩ | ⟨b, r, hb, hactive, rfl, hvalid, hok⟩
    · rw [stateAfter_error he]
      exact .changes .refl
    · rw [stateAfter_ok hok]
      exact .aborted hb hactive hvalid
  · have hevolves := op.evolves (fun b hb => hinsert ⟨b, hb⟩) fun id hid => habort ⟨id, hid⟩
    exact .changes (Keeps.stateAfter (hevolves s hs) .refl)

theorem Outcome.indexed {s t : RadixPrefixIndex B P} {op : IndexOp B P} (hs : Indexed s)
    (h : Outcome s op t) : Indexed t := by
  cases h with
  | changes steps => exact hs.changes steps
  | inserted new => exact hs.inserted new
  | aborted here active valid => exact hs.resided here valid

/-- `RadixPrefixIndex(block_size=…, max_blocks=…)`. -/
def initial (blockSize : Nat) (maxBlocks : Option Nat) : RadixPrefixIndex B P :=
  { blockSize := blockSize, maxBlocks := maxBlocks }

theorem indexed_initial (blockSize : Nat) (maxBlocks : Option Nat) :
    Indexed (initial blockSize maxBlocks : RadixPrefixIndex B P) where
  edges id p := by
    constructor
    · intro h
      cases h
    · rintro ⟨b, hb, _⟩
      cases hb
  ids id b hb := by cases hb
  valid id b hb := by cases hb
  routing := PrefixCacheRoutingMembership.holds_empty.congr fun id =>
    ⟨False.elim, fun ⟨_, hb⟩ => nomatch hb⟩
  snapshot last hlast := by cases hlast

/-- The blocks and the tree agree in every state of every run. -/
theorem indexed_of_run {guard : RadixPrefixIndex B P → IndexOp B P → Prop}
    {s : RadixPrefixIndex B P} {blockSize : Nat} {maxBlocks : Option Nat}
    (run : Reachable IndexOp.exec guard (initial blockSize maxBlocks) s) : Indexed s :=
  run.invariant (indexed_initial blockSize maxBlocks) fun _ op hs _ => (op.outcome hs).indexed hs

end SparseVllm.RadixPrefixIndex
