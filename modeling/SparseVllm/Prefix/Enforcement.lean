import SparseVllm.Prefix.Delivery

/-!
# Making room for inserts (`ensure_insert_capacity`)

`ensure_insert_capacity` evicts first and counts afterwards. When fewer blocks can go than it asks
for, it raises with those evicted already, and its caller, which frees the payloads of the blocks it
is given back, never hears of them.

## Results

* **`enforcesAtomically_iff`**: a call is atomic unless some block is freeable but not enough are.
-/

namespace SparseVllm.RadixPrefixIndex

open SparseVllm.Lib

variable {B P : Type} [LinearOrder B] {s t : RadixPrefixIndex B P} {maxBlocks : Nat} {needed : Int}

/-- How many blocks too many there would be. -/
def overCapacity (s : RadixPrefixIndex B P) (maxBlocks : Nat) (needed : Int) : Int :=
  s.size + needed - maxBlocks

/-- The blocks `gone` are what `t` has lost, and `needed` inserts fit into it. -/
structure MakesRoom (maxBlocks : Nat) (needed : Int) (s : RadixPrefixIndex B P)
    (gone : List (PrefixCacheBlock B P)) (t : RadixPrefixIndex B P) : Prop where
  here : ∀ b ∈ gone, s.getBlock b.stableBlockId = some b
  once : (gone.map (·.stableBlockId)).Nodup
  left : EvictedFrom s (gone.map (·.stableBlockId)) t
  fits : t.size + needed ≤ maxBlocks

/-- The index is what it was, but for a view asked for in between. -/
def Untouched (s t : RadixPrefixIndex B P) : Prop := ∃ memo, t = { s with memo := memo }

/-- A call returns what it evicted, with room for the inserts, or raises with the index as it was. -/
def EnforcesAtomically (s : RadixPrefixIndex B P) (maxBlocks : Nat) (needed : Int) : Prop :=
  (∃ gone t, ensureInsertCapacity needed s = .ok gone t ∧ MakesRoom maxBlocks needed s gone t) ∨
    ∃ e t, ensureInsertCapacity needed s = .error e t ∧ Untouched s t

/-- Nothing freeable, nothing evicted. -/
theorem evictUntilWeight_nothing (hs : Indexed s) (h : s.scanFreeable = ∅) (needed : Int)
    {weight : PrefixCacheBlock B P → Int} : evictUntilWeight needed weight s = .ok [] s := by
  rw [evictUntilWeight_eq_greedyLoop hs needed weight (Nat.lt_succ_self s.size)]
  unfold greedyLoop
  split
  · rfl
  · rw [get_bind]
    cases hmin : (s.eligibleKeys (evictionPolicy weight).eligible).min? with
    | none => rfl
    | some key =>
      obtain ⟨id, b, hb, hok, -⟩ := mem_eligibleKeys.mp (List.min?_mem hmin)
      obtain ⟨hbase, hleaf⟩ := ((peels_eviction weight).eligible_iff hs hb).mp hok
      have hfree : id ∈ s.scanFreeable :=
        (mem_scanFreeable hs).mpr (.peel (removableAt_iff.mp hbase) fun c hc => absurd hc (hleaf c))
      rw [h] at hfree
      exact absurd hfree (Finset.notMem_empty id)

/-- A call evicts as many blocks as are too many, or all that are freeable. -/
theorem evictUntilFreeable_run (hs : Indexed s) {n : Int} (hn : 0 ≤ n) :
    ∃ gone t, evictUntilFreeable n s = .ok gone t ∧ (gone.length : Int) = min n s.scanFreeable.card ∧
      (∀ b ∈ gone, s.getBlock b.stableBlockId = some b) ∧ (gone.map (·.stableBlockId)).Nodup ∧
      EvictedFrom s (gone.map (·.stableBlockId)) t ∧ t.size + gone.length = s.size := by
  have hunit : ∀ b : PrefixCacheBlock B P, (0 : Int) ≤ (fun _ => 1) b := fun _ => Int.one_nonneg
  obtain ⟨gone, t, hrun, hdelivered, hleft⟩ := evictUntilWeight_delivers hs n hunit
  have hsize := evictUntilWeight_evicts hs n (fun _ => 1) s rfl
  rw [hrun] at hsize
  exact ⟨gone, t, hrun, hdelivered.unit hn fun _ => rfl, hdelivered.here, hdelivered.once, hleft,
    hsize.size⟩

/-- The call with its eviction made. -/
theorem ensureInsertCapacity_evicts (hmax : s.maxBlocks = some maxBlocks) (hneeded : 1 ≤ needed)
    (hover : 0 < s.overCapacity maxBlocks needed) {gone : List (PrefixCacheBlock B P)}
    (hrun : evictUntilFreeable (s.overCapacity maxBlocks needed) s = .ok gone t) :
    ensureInsertCapacity needed s =
      if (gone.length : Int) = s.overCapacity maxBlocks needed then .ok gone t
      else .error (.notEnoughEvictable t.size maxBlocks needed gone.length
        (t.viewIds .evictable).card) (t.afterView .evictable) := by
  unfold overCapacity size at hover hrun ⊢
  unfold ensureInsertCapacity
  rw [get_bind, hmax]
  simp only
  rw [raiseIf_bind, if_neg (by omega), if_neg (by omega)]
  unfold evictForInsert
  rw [bind_ok hrun]
  split
  · rfl
  · rw [get_bind]
    unfold evictableBlockIds
    rw [bind_ok (memoised_eq t .evictable)]
    rfl

theorem untouched_afterView (s : RadixPrefixIndex B P) (view : CapacityView) :
    Untouched s (s.afterView view) :=
  (sameAnswers_afterView s view).memos

/-- A call is atomic when it has nothing to evict, can evict all it has to, or can evict nothing. -/
theorem enforcesAtomically_of (hs : Indexed s) (hmax : s.maxBlocks = some maxBlocks)
    (hneeded : 1 ≤ needed)
    (h : ¬ (0 < s.scanFreeable.card ∧ (s.scanFreeable.card : Int) < s.overCapacity maxBlocks needed)) :
    EnforcesAtomically s maxBlocks needed := by
  by_cases hover : 0 < s.overCapacity maxBlocks needed
  · by_cases hnone : s.scanFreeable = ∅
    · have hrun := ensureInsertCapacity_evicts hmax hneeded hover
        (evictUntilWeight_nothing hs hnone _)
      rw [if_neg (by simpa using hover.ne)] at hrun
      exact Or.inr ⟨_, _, hrun, untouched_afterView s _⟩
    · have hcard := Finset.card_pos.mpr (Finset.nonempty_iff_ne_empty.mpr hnone)
      obtain ⟨gone, t, hevict, hlength, hhere, honce, hleft, hsize⟩ :=
        evictUntilFreeable_run hs hover.le
      rw [min_eq_left (by omega)] at hlength
      have hrun := ensureInsertCapacity_evicts hmax hneeded hover hevict
      rw [if_pos hlength] at hrun
      refine Or.inl ⟨gone, t, hrun, hhere, honce, hleft, ?_⟩
      unfold overCapacity at hlength
      omega
  · refine Or.inl ⟨[], s, ?_, nofun, List.nodup_nil, ⟨fun _ => rfl, fun _ => by simp⟩, ?_⟩
    · unfold overCapacity size at hover
      unfold ensureInsertCapacity
      rw [get_bind, hmax]
      simp only
      rw [raiseIf_bind, if_neg (by omega), if_pos (by omega)]
      rfl
    · unfold overCapacity at hover
      omega

/-- Otherwise it raises with blocks gone. -/
theorem not_enforcesAtomically (hs : Indexed s) (hmax : s.maxBlocks = some maxBlocks)
    (hneeded : 1 ≤ needed) (hsome : 0 < s.scanFreeable.card)
    (hshort : (s.scanFreeable.card : Int) < s.overCapacity maxBlocks needed) :
    ¬ EnforcesAtomically s maxBlocks needed := by
  obtain ⟨gone, t, hevict, hlength, hhere, -, hleft, -⟩ :=
    evictUntilFreeable_run hs (n := s.overCapacity maxBlocks needed) (by omega)
  rw [min_eq_right hshort.le] at hlength
  have hrun := ensureInsertCapacity_evicts hmax hneeded (by omega) hevict
  rw [if_neg (by omega)] at hrun
  rintro (⟨gone', t', hok, -⟩ | ⟨e, t', herror, memo, rfl⟩)
  · rw [hrun] at hok
    cases hok
  · -- the first block evicted is gone from the index the raise leaves
    obtain ⟨b, rest, rfl⟩ : ∃ b rest, gone = b :: rest := by
      cases gone with
      | nil => simp at hlength; omega
      | cons b rest => exact ⟨b, rest, rfl⟩
    rw [hrun] at herror
    obtain ⟨memo', hview⟩ := untouched_afterView t .evictable
    have hleftover : t.getBlock b.stableBlockId = s.getBlock b.stableBlockId := by
      injection herror with _ hstate
      rw [hview] at hstate
      exact congrArg (fun u => u.getBlock b.stableBlockId) hstate
    rw [hleft.blocks, if_pos (by simp), hhere b List.mem_cons_self] at hleftover
    cases hleftover

/-- **Capacity enforcement is atomic exactly when** its eviction is not cut short: no block is
freeable, or as many as are too many. -/
theorem enforcesAtomically_iff {blockSize : Nat} {limit : Option Nat}
    (run : Reachable IndexOp.exec (fun _ _ => True) (initial blockSize limit) s)
    (hmax : s.maxBlocks = some maxBlocks) (hneeded : 1 ≤ needed) :
    ∃ freeable, freeableBlockIds.run' s = some freeable ∧
      (EnforcesAtomically s maxBlocks needed ↔
        freeable.card = 0 ∨ s.overCapacity maxBlocks needed ≤ freeable.card) := by
  have hs := indexed_of_run run
  refine ⟨s.scanFreeable, memoised_of_fresh (freshAt_of_run run nofun), ?_, fun h => ?_⟩
  · intro h
    by_contra hnot
    rw [not_or] at hnot
    exact not_enforcesAtomically hs hmax hneeded (by omega) (by omega) h
  · exact enforcesAtomically_of hs hmax hneeded (by omega)

/-- Two blocks, one of them in use, where two are allowed. -/
def fullRun : List (IndexOp Nat Unit) :=
  [.insert (deviceBlock 1 none), .insert (deviceBlock 2 none), .acquire 2]

theorem enforcesAtomically_iff_fullRun :
    ∃ freeable, freeableBlockIds.run' (runAll IndexOp.exec (initial 1 (some 2)) fullRun) =
        some freeable ∧
      (EnforcesAtomically (runAll IndexOp.exec (initial 1 (some 2)) fullRun) 2 1 ↔
        freeable.card = 0 ∨
          (runAll IndexOp.exec (initial 1 (some 2)) fullRun).overCapacity 2 1 ≤ freeable.card) :=
  enforcesAtomically_iff (Reachable.init.runAll (by simp [fullRun, Along])) (by decide +kernel)
    (by decide)

/-- Asked for two inserts, the call evicts block 1 and raises. -/
theorem not_enforcesAtomically_fullRun :
    ¬ ∀ (s : RadixPrefixIndex Nat Unit) (maxBlocks : Nat) (needed : Int),
      Reachable IndexOp.exec (fun _ _ => True) (initial 1 (some 2)) s →
      s.maxBlocks = some maxBlocks → 1 ≤ needed → EnforcesAtomically s maxBlocks needed := by
  intro h
  have run : Reachable IndexOp.exec (fun _ _ => True) (initial 1 (some 2))
      (runAll IndexOp.exec (initial 1 (some 2)) fullRun) :=
    Reachable.init.runAll (by simp [fullRun, Along])
  have hmax : (runAll IndexOp.exec (initial 1 (some 2)) fullRun).maxBlocks = some 2 := by
    decide +kernel
  have hneeded : (1 : Int) ≤ 2 := by decide
  refine not_enforcesAtomically (indexed_of_run run) hmax hneeded ?_ ?_ (h _ 2 2 run hmax hneeded)
  · decide +kernel
  · decide +kernel

end SparseVllm.RadixPrefixIndex
