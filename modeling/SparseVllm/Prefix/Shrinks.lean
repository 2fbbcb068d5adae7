import SparseVllm.Prefix.IndexSpec

/-!
# What the index holds, by number and by payload

Only `insert_block` adds a block: any other call leaves a part of the blocks, each with its
payload. So the number of blocks, and a sum of weights of payloads, never grow under it, and an
eviction takes as many blocks as it returns.

## Results

* `IndexOp.shrinks`: every call but `insert_block`.
* `evictUntilWeight_shrinks`, `evictHostUntilFreeable_shrinks`: the evictions, with their count.
* `acquireBlockRef_retagged`, `insertBlock_full`: the calls of a commit.
-/

namespace SparseVllm

open SparseVllm.Lib

/-- The raises about capacity. -/
def PrefixIndexError.AboutCapacity {B : Type} : PrefixIndexError B → Prop
  | .capacityBeforeInsert _ _ => True
  | .notEnoughEvictable _ _ _ _ _ => True
  | _ => False

namespace RadixPrefixIndex

variable {B P : Type} [LinearOrder B] {s t u : RadixPrefixIndex B P}

/-- The number of blocks. -/
def size (s : RadixPrefixIndex B P) : Nat := s.blocks.entries.length

/-- Every block of `t` is one of `s`, with its payload. -/
structure Shrinks (s t : RadixPrefixIndex B P) : Prop where
  maxBlocks : t.maxBlocks = s.maxBlocks
  blocks : ∀ id b', t.getBlock id = some b' →
    ∃ b, s.getBlock id = some b ∧ b'.payload = b.payload

namespace Shrinks

theorem refl (s : RadixPrefixIndex B P) : Shrinks s s := ⟨rfl, fun _ b hb => ⟨b, hb, rfl⟩⟩

theorem trans (h : Shrinks s t) (h' : Shrinks t u) : Shrinks s u where
  maxBlocks := h'.maxBlocks.trans h.maxBlocks
  blocks id b'' hb'' := by
    obtain ⟨b', hb', hp'⟩ := h'.blocks id b'' hb''
    obtain ⟨b, hb, hp⟩ := h.blocks id b' hb'
    exact ⟨b, hb, hp'.trans hp⟩

theorem fresh (h : Shrinks s t) {id : B} (hid : s.getBlock id = none) : t.getBlock id = none := by
  cases hb : t.getBlock id with
  | none => rfl
  | some b' =>
    obtain ⟨b, hb, -⟩ := h.blocks id b' hb
    rw [hid] at hb
    cases hb

/-- A sum of non-negative weights of payloads does not grow. -/
theorem sum_le (h : Shrinks s t) {f : P → Int}
    (hf : ∀ id b, s.getBlock id = some b → 0 ≤ f b.payload) :
    (t.blocks.values.map fun b => f b.payload).sum ≤
      (s.blocks.values.map fun b => f b.payload).sum := by
  refine Dict.sum_values_le hf fun id b' hb' => ?_
  obtain ⟨b, hb, hp⟩ := h.blocks id b' hb'
  exact ⟨b, hb, by rw [hp]⟩

theorem size_le (h : Shrinks s t) : t.size ≤ s.size := by
  have hsum := h.sum_le (f := fun _ => 1) fun _ _ _ => Int.one_nonneg
  have hcount : ∀ r : RadixPrefixIndex B P, (r.blocks.values.map fun _ => (1 : Int)).sum = r.size := by
    intro r
    simp [Dict.values, size, Function.comp_def]
  rw [hcount, hcount] at hsum
  exact Int.ofNat_le.mp hsum

theorem retagged {R : PrefixCacheBlock B P → PrefixCacheBlock B P → Prop}
    (hR : ∀ b b', R b b' → b'.payload = b.payload) (h : Retagged R s t) : Shrinks s t where
  maxBlocks := h.maxBlocks
  blocks id b' hb' := by
    obtain ⟨b, hb, hsame⟩ := h.backward hb'
    exact ⟨b, hb, hR b b' hsame⟩

theorem resided {id : B} {b : PrefixCacheBlock B P} (hb : s.getBlock id = some b)
    (r : PrefixBlockResidency) : Shrinks s (s.resided id b r) where
  maxBlocks := rfl
  blocks q b' hb' := by
    rw [getBlock_resided] at hb'
    by_cases hq : q = id
    · rw [if_pos hq] at hb'
      obtain rfl := Option.some.inj hb'
      exact ⟨b, hq ▸ hb, rfl⟩
    · rw [if_neg hq] at hb'
      exact ⟨b', hb', rfl⟩

theorem removed {id : B} (h : Removed s id t) : Shrinks s t where
  maxBlocks := h.maxBlocks
  blocks q b hb := by
    rw [h.getBlock] at hb
    split at hb
    · cases hb
    · exact ⟨b, hb, rfl⟩

end Shrinks

theorem Change.shrinks (h : Change s t) : Shrinks s t := by
  cases h with
  | minor tags _ => exact Shrinks.retagged (fun _ _ h => h.payload) tags
  | retag tags _ => exact Shrinks.retagged (fun _ _ h => h.payload) tags
  | reside here _ => exact Shrinks.resided here _
  | remove _ _ gone => exact Shrinks.removed gone
  | memo view _ => exact ⟨rfl, fun _ b hb => ⟨b, hb, rfl⟩⟩

theorem Shrinks.of_changes (h : Relation.ReflTransGen Change s t) : Shrinks s t := by
  induction h with
  | refl => exact Shrinks.refl s
  | tail _ hlast ih => exact ih.trans hlast.shrinks

/-- **Every call but `insert_block` leaves a part of the blocks.** -/
theorem IndexOp.shrinks (hs : Indexed s) {op : IndexOp B P} (hop : ∀ block, op ≠ .insert block) :
    Shrinks s (op.exec s) := by
  have houtcome := op.outcome hs
  generalize op.exec s = t at houtcome
  cases houtcome with
  | changes steps => exact Shrinks.of_changes steps
  | inserted _ => exact absurd rfl (hop _)
  | aborted here _ _ => exact Shrinks.resided here _

/-- A program that only makes changes, as a triple. -/
theorem Evolves.shrinks {α : Type} {m : PrefixIndexM B P α} (h : Evolves m) (hs : Indexed s) :
    Spec (· = s) m (fun _ t => Indexed t ∧ Shrinks s t) fun _ t => Indexed t ∧ Shrinks s t :=
  (h s hs).conseq (fun _ ht => ht ▸ .refl)
    (fun _ _ ht => ⟨hs.changes ht, Shrinks.of_changes ht⟩)
    fun _ _ ht => ⟨hs.changes ht, Shrinks.of_changes ht⟩

/-! ## Counting evictions -/

theorem Removed.size {id : B} (h : Removed s id t) : t.size + 1 = s.size := by
  obtain ⟨b, hb⟩ := h.here
  have hperm := (Dict.values_perm hb).length_eq
  unfold RadixPrefixIndex.size
  rw [h.blocks]
  simpa [Dict.values] using hperm.symm

/-- One removal, in a count of removals. -/
theorem takes_one {n : Nat} (ht : Indexed t ∧ t.size + n = s.size) (id : B) :
    Returns (· = t) (removeBlockFromIndex id)
      fun _ t' => Indexed t' ∧ t'.size + (n + 1) = s.size := by
  rintro _ rfl
  rcases removeBlockFromIndex_run id ht.1 with ⟨e, he⟩ | ⟨b, t', _, _, hgone, hok⟩
  · rw [he]
    trivial
  · rw [hok]
    have hsize := hgone.size
    have hcount := ht.2
    exact ⟨ht.1.removed hgone, by omega⟩

/-- An eviction that removes returns what it removed. -/
theorem runEviction_removes {policy : EvictionPolicy B P}
    (htake : ∀ block, policy.take block = removeBlockFromIndex block.stableBlockId)
    {needed : Int} {candidates : RadixPrefixIndex B P → List B} (hs : Indexed s) :
    Returns (· = s) (runEviction policy needed candidates)
      fun gone t => t.size + gone.length = s.size := by
  have hloop : ∀ (fuel : Nat) (taken : Int) (q : List (EvictionKey B) × List B) (n : Nat),
      Returns (fun t => Indexed t ∧ t.size + n = s.size) (evictionLoop policy needed fuel taken q)
        fun gone t => t.size + (n + gone.length) = s.size := by
    intro fuel
    induction fuel with
    | zero => exact fun _ _ n => Spec.pure fun t ht => ht.2
    | succ fuel ih =>
      rintro taken ⟨heap, queued⟩ n
      unfold evictionLoop
      split
      · exact Spec.pure fun t ht => ht.2
      split
      · exact Spec.pure fun t ht => ht.2
      · apply Spec.get_bind
        intro t ht
        split
        · exact (ih taken _ n).start ht
        · refine Spec.raiseIf_bind (fun _ _ _ => trivial) fun _ => ?_
          rw [htake]
          -- one block goes, and the rest of the loop counts from there
          refine Spec.bind (takes_one ht _) fun gone => ?_
          refine Spec.bind (R := fun _ t' => Indexed t' ∧ t'.size + (n + 1) = s.size) ?_ fun t' => ?_
          · exact Spec.get fun _ h => h
          · refine Spec.bind (ih _ _ (n + 1)) fun rest => Spec.pure fun t' ht' => ?_
            rw [List.length_cons]
            omega
  refine Spec.get_bind fun t ht => ?_
  have h := (hloop t.evictionFuel 0 ((candidates t).foldl (queueIf policy.eligible t) ([], [])) 0).start
    (s := t) ⟨ht ▸ hs, by rw [ht]; rfl⟩
  exact h.post fun gone u hu => by rw [← hu, Nat.zero_add]

/-- The evictions that remove, with their count. -/
structure Evicted (s : RadixPrefixIndex B P) (n : Nat) (t : RadixPrefixIndex B P) : Prop where
  indexed : Indexed t
  shrinks : Shrinks s t
  size : t.size + n = s.size

theorem evictUntilWeight_evicts (hs : Indexed s) (needed : Int)
    (weight : PrefixCacheBlock B P → Int) :
    Spec (· = s) (evictUntilWeight needed weight) (fun gone t => Evicted s gone.length t)
      fun _ t => Indexed t ∧ Shrinks s t :=
  (((evolves_evictUntilWeight needed weight).shrinks hs).and
    (runEviction_removes (fun _ => rfl) hs)).conseq (fun _ h => h)
    (fun _ _ h => ⟨h.1.1, h.1.2, h.2⟩) fun _ _ h => h.1

theorem evictHostUntilFreeable_evicts (hs : Indexed s) (needed : Int) :
    Spec (· = s) (evictHostUntilFreeable needed) (fun gone t => Evicted s gone.length t)
      fun _ t => Indexed t ∧ Shrinks s t :=
  (((evolves_evictHostUntilFreeable needed).shrinks hs).and
    (runEviction_removes (fun _ => rfl) hs)).conseq (fun _ h => h)
    (fun _ _ h => ⟨h.1.1, h.1.2, h.2⟩) fun _ _ h => h.1

/-! ## The calls of a commit -/

theorem storeRefCount_retagged {id : B} {b : PrefixCacheBlock B P} (hb : s.getBlock id = some b)
    {n : Int} (hn : 0 ≤ n) : ∃ t, storeRefCount b id n s = .ok () t ∧ Retagged SameShape s t := by
  have hshape : ∀ b : PrefixCacheBlock B P, SameShape b b :=
    fun _ => ⟨rfl, rfl, rfl, rfl, fun h => h⟩
  unfold storeRefCount
  by_cases hsame : b.refCount = n
  · exact ⟨s, by rw [if_pos hsame]; rfl, Retagged.refl hshape⟩
  · rw [if_neg hsame]
    have htags : Retagged SameShape s (s.setBlock id { b with refCount := n }) :=
      retagged_setBlock hshape hb ⟨rfl, rfl, rfl, rfl, fun _ => hn⟩
    refine ⟨_, rfl, ?_⟩
    split
    · exact ⟨htags.backend, htags.memo, rfl, ⟨rfl, rfl, rfl, rfl⟩, htags.blocks⟩
    · exact ⟨htags.backend, htags.memo, rfl, ⟨rfl, rfl, rfl, rfl⟩, htags.blocks⟩

/-- A count changes nothing but tags. -/
theorem setBlockRefCount_retagged (id : B) (n : Int) :
    (∃ e, setBlockRefCount id n s = .error e s ∧ (e = .updateNotIndexed ∨ e = .negativeRefCount)) ∨
      ∃ t, setBlockRefCount id n s = .ok () t ∧ Retagged SameShape s t := by
  unfold setBlockRefCount
  cases hb : s.getBlock id with
  | none => exact Or.inl ⟨_, bind_error (indexed_none _ hb), Or.inl rfl⟩
  | some b =>
    rw [bind_ok (indexed_some _ hb), raiseIf_bind]
    split
    · exact Or.inl ⟨_, rfl, Or.inr rfl⟩
    · exact Or.inr (storeRefCount_retagged hb (by omega))

theorem acquireBlockRef_retagged (id : B) :
    (∃ e, acquireBlockRef id s = .error e s ∧ (e = .updateNotIndexed ∨ e = .negativeRefCount)) ∨
      ∃ t, acquireBlockRef id s = .ok () t ∧ Retagged SameShape s t := by
  unfold acquireBlockRef
  cases hb : s.getBlock id with
  | none => exact Or.inl ⟨_, bind_error (indexed_none _ hb), Or.inl rfl⟩
  | some b =>
    rw [bind_ok (indexed_some _ hb)]
    exact setBlockRefCount_retagged id _

/-! ## What a commit may raise -/

/-- No raise of these programs is about capacity. -/
abbrev RaisesNoCapacity {α : Type} (m : PrefixIndexM B P α) : Prop :=
  RaisesOnly (¬ ·.AboutCapacity) m

theorem raisesNoCapacity_indexed (id : B) {e : PrefixIndexError B} (he : ¬ e.AboutCapacity) :
    RaisesNoCapacity (indexed id e : PrefixIndexM B P _) := by
  unfold indexed
  refine RaisesOnly.bind RaisesOnly.get fun s => ?_
  split
  · exact RaisesOnly.pure _
  · exact RaisesOnly.throw he

omit [LinearOrder B] in
theorem raisesNoCapacity_validate (r : PrefixBlockResidency) :
    RaisesNoCapacity (validate r : PrefixIndexM B P _) := by
  unfold validate
  split
  · rename_i e he
    refine RaisesOnly.throw ?_
    unfold PrefixBlockResidency.defect at he
    split at he
    · obtain rfl := Option.some.inj he
      exact id
    split at he
    · split at he
      · obtain rfl := Option.some.inj he
        exact id
      · cases he
    · split at he
      · obtain rfl := Option.some.inj he
        exact id
      · cases he
    · cases he
  · exact RaisesOnly.pure _

omit [LinearOrder B] in
theorem raisesNoCapacity_storeRouting
    (r : Except RoutingError (PrefixCacheRoutingMembership B)) :
    RaisesNoCapacity (storeRouting r : PrefixIndexM B P _) := by
  cases r with
  | error e => exact RaisesOnly.throw id
  | ok membership => exact RaisesOnly.modify _

theorem raisesNoCapacity_checkParent (block : PrefixCacheBlock B P) :
    RaisesNoCapacity (checkParent block) := by
  unfold checkParent
  split
  · exact RaisesOnly.pure _
  · refine (raisesNoCapacity_indexed _ id).bind fun parent => ?_
    exact (RaisesOnly.raiseIf _ id).bind fun _ => RaisesOnly.raiseIf _ id

theorem raisesNoCapacity_storeInserted (block : PrefixCacheBlock B P) :
    RaisesNoCapacity (storeInserted block) := by
  unfold storeInserted
  refine (RaisesOnly.modify _).bind fun _ => RaisesOnly.get.bind fun s => ?_
  refine (RaisesOnly.set _).bind fun _ => ?_
  cases s.backend.insertChild block.parentBlockId block.stableBlockId with
  | error e => exact RaisesOnly.throw id
  | ok backend =>
    refine (RaisesOnly.modify _).bind fun _ => RaisesOnly.bind ?_ fun _ => ?_
    · exact RaisesOnly.get.bind fun s => raisesNoCapacity_storeRouting _
    · exact (RaisesOnly.modify _).bind fun _ => RaisesOnly.pure _

theorem raisesNoCapacity_removeBlockFromIndex (id : B) :
    RaisesNoCapacity (removeBlockFromIndex id : PrefixIndexM B P _) := by
  unfold removeBlockFromIndex
  refine (raisesNoCapacity_indexed id (e := .removeMissing) fun h => h).bind fun block => ?_
  refine (RaisesOnly.raiseIf _ fun h => h).bind fun _ => ?_
  refine (RaisesOnly.raiseIf _ fun h => h).bind fun _ => ?_
  refine (RaisesOnly.raiseIf _ fun h => h).bind fun _ => RaisesOnly.get.bind fun s => ?_
  refine (RaisesOnly.raiseIf _ fun h => h).bind fun _ => RaisesOnly.bind ?_ fun _ => RaisesOnly.pure _
  unfold dropFromIndex
  refine RaisesOnly.get.bind fun s => ?_
  split
  · exact RaisesOnly.throw fun h => h
  · refine (RaisesOnly.set _).bind fun _ => RaisesOnly.bind ?_ fun _ => RaisesOnly.modify _
    exact RaisesOnly.get.bind fun s => raisesNoCapacity_storeRouting _

theorem raisesNoCapacity_rollbackInsertedLeaf (id : B) :
    RaisesNoCapacity (rollbackInsertedLeaf id : PrefixIndexM B P _) := by
  unfold rollbackInsertedLeaf
  refine (raisesNoCapacity_indexed id (e := .rollbackStale) fun h => h).bind fun block => ?_
  refine (RaisesOnly.raiseIf _ fun h => h).bind fun _ => RaisesOnly.get.bind fun s => ?_
  refine (RaisesOnly.raiseIf _ fun h => h).bind fun _ => ?_
  refine (RaisesOnly.raiseIf _ fun h => h).bind fun _ => ?_
  exact (raisesNoCapacity_removeBlockFromIndex id).bind fun _ => RaisesOnly.modify _

/-- **`insert_block` raises about capacity only when the index is full.** -/
theorem insertBlock_full {block : PrefixCacheBlock B P} {e : PrefixIndexError B}
    (h : insertBlock block s = .error e t) (he : e.AboutCapacity) :
    ∃ m, s.maxBlocks = some m ∧ m ≤ s.size := by
  unfold insertBlock at h
  rcases validate_cases (s := s) block.residency with ⟨e', hv⟩ | ⟨-, hv⟩
  · rw [bind_error hv] at h
    cases h
    exact absurd he (raisesNoCapacity_validate block.residency hv)
  rw [bind_ok hv, get_bind] at h
  cases hb : s.getBlock block.stableBlockId with
  | some existing =>
    rw [hb] at h
    cases h
  | none =>
    rw [hb] at h
    simp only at h
    cases hm : s.maxBlocks with
    | none =>
      have hcap : (checkCapacity : PrefixIndexM B P Unit) s = .ok () s := by
        unfold checkCapacity
        rw [get_bind, hm]
        rfl
      rw [bind_ok hcap] at h
      exact absurd he (RaisesOnly.bind (raisesNoCapacity_checkParent block)
        (fun _ => raisesNoCapacity_storeInserted block) h)
    | some m =>
      by_cases hfull : m ≤ s.size
      · exact ⟨m, rfl, hfull⟩
      · have hcap : (checkCapacity : PrefixIndexM B P Unit) s = .ok () s := by
          unfold checkCapacity
          rw [get_bind, hm]
          simp only [raiseIf]
          exact if_neg hfull ▸ rfl
        rw [bind_ok hcap] at h
        exact absurd he (RaisesOnly.bind (raisesNoCapacity_checkParent block)
          (fun _ => raisesNoCapacity_storeInserted block) h)

end RadixPrefixIndex

end SparseVllm
