import SparseVllm.DeltaKv.Storage

/-!
# Every token is stored once

`KiviCache.Kept` is what the plans and the evictions keep: of a row of `extent` tokens the first
`groups` whole groups after the sink are packed, the other tokens are raw, and the slots and the
blocks are each a `Pool` of their holders. Packing groups, planning a prompt, growing a row, a decode
step and the release of a row each have their lemma (`Kept.*`); `kiviEvictRow_keeps` is the first of
the methods.
-/

namespace SparseVllm

open SparseVllm.Lib

namespace KiviCache

variable {g : KiviGeometry} {c : KiviCache}

/-! ## The layout of a row -/

/-- The tokens a row has slots for: those it holds, or those of the prompt that is planned. -/
def extent (c : KiviCache) (row : Nat) : Nat := max (c.rowSeqLens row) (c.promptLens row)

/-- The packed groups of a row. -/
def groups (g : KiviGeometry) (c : KiviCache) (row : Nat) : Nat :=
  (c.quantizedLens row - g.sinkKeepTokens) / g.groupSize

/-- Where group `k` of a row starts. -/
def groupStart (g : KiviGeometry) (k : Nat) : Nat := g.sinkKeepTokens + k * g.groupSize

/-- The positions of a row that have a raw slot. -/
def RawAt (g : KiviGeometry) (c : KiviCache) (row i : Nat) : Prop :=
  i < c.extent row ∧ (i < g.sinkKeepTokens ∨ groupStart g (c.groups g row) ≤ i)

instance (row i : Nat) : Decidable (RawAt g c row i) := inferInstanceAs (Decidable (_ ∧ _))

/-- The slot of a position that has one. -/
def rawHeld (g : KiviGeometry) (c : KiviCache) (place : Nat × Nat) : Option Nat :=
  if RawAt g c place.1 place.2 then some (c.slotsMap place.1 place.2).toNat else none

/-- The block of a packed group. -/
def blockHeld (g : KiviGeometry) (c : KiviCache) (place : Nat × Nat) : Option Nat :=
  if place.2 < c.groups g place.1 then some (c.blockSlotsMap place.1 (groupStart g place.2)).toNat else none

/-- How a row is laid out. -/
structure RowStored (g : KiviGeometry) (c : KiviCache) (row : Nat) : Prop where
  grouped : c.quantizedLens row ≤ g.sinkKeepTokens ∨
    c.quantizedLens row = groupStart g (c.groups g row)
  behind : c.groups g row = 0 ∨
    groupStart g (c.groups g row) + g.residualLength ≤ c.extent row
  raw : ∀ {i}, RawAt g c row i → (∃ slot : Nat, c.slotsMap row i = slot) ∧ c.blockSlotsMap row i = -1
  packed : ∀ {k}, k < c.groups g row → ∃ block : Nat, c.blockStartPos block = groupStart g k ∧
    ∀ o < g.groupSize, c.slotsMap row (groupStart g k + o) = -1 ∧
      c.blockSlotsMap row (groupStart g k + o) = block
  clear : ∀ {i}, c.extent row ≤ i → c.blockSlotsMap row i = -1

/-- What the plans and the evictions keep. -/
structure Kept (g : KiviGeometry) (c : KiviCache) : Prop where
  stored : ∀ row, RowStored g c row
  slots : Pool c.freeSlots (rawHeld g c)
  blocks : Pool c.freeBlocks (blockHeld g c)

theorem groupStart_succ (k : Nat) : groupStart g (k + 1) = groupStart g k + g.groupSize := by
  unfold groupStart
  rw [Nat.succ_mul, Nat.add_assoc]

theorem groupStart_mono {j k : Nat} (h : j ≤ k) : groupStart g j ≤ groupStart g k :=
  Nat.add_le_add_left (Nat.mul_le_mul_right _ h) _

theorem groupStart_lt {j k : Nat} : groupStart g j < groupStart g k ↔ j < k := by
  unfold groupStart
  rw [Nat.add_lt_add_iff_left, Nat.mul_lt_mul_right g.group_pos]

/-- A position after the sink lies in a group. -/
theorem exists_group {i : Nat} (h : g.sinkKeepTokens ≤ i) :
    ∃ k, ∃ o < g.groupSize, i = groupStart g k + o := by
  refine ⟨(i - g.sinkKeepTokens) / g.groupSize, (i - g.sinkKeepTokens) % g.groupSize,
    Nat.mod_lt _ g.group_pos, ?_⟩
  have hdiv := Nat.div_add_mod (i - g.sinkKeepTokens) g.groupSize
  unfold groupStart
  rw [Nat.mul_comm] at hdiv
  omega

/-- The groups of a row whose packed tokens end with a group. -/
theorem groups_of_eq {row n : Nat} (h : c.quantizedLens row = groupStart g n) :
    c.groups g row = n := by
  unfold groups
  rw [h]
  unfold groupStart
  rw [Nat.add_sub_cancel_left, Nat.mul_div_cancel _ g.group_pos]

theorem groups_of_le {row : Nat} (h : c.quantizedLens row ≤ g.sinkKeepTokens) :
    c.groups g row = 0 := by
  unfold groups
  rw [Nat.sub_eq_zero_of_le h, Nat.zero_div]

theorem rawHeld_eq_some {row i slot : Nat} :
    rawHeld g c (row, i) = some slot ↔ RawAt g c row i ∧ (c.slotsMap row i).toNat = slot := by
  unfold rawHeld
  split
  · rename_i h
    exact ⟨fun hs => ⟨h, Option.some.inj hs⟩, fun hs => congrArg some hs.2⟩
  · rename_i h
    exact ⟨nofun, fun hs => absurd hs.1 h⟩

theorem blockHeld_eq_some {row k block : Nat} :
    blockHeld g c (row, k) = some block ↔
      k < c.groups g row ∧ (c.blockSlotsMap row (groupStart g k)).toNat = block := by
  unfold blockHeld
  split
  · rename_i h
    exact ⟨fun hs => ⟨h, Option.some.inj hs⟩, fun hs => congrArg some hs.2⟩
  · rename_i h
    exact ⟨nofun, fun hs => absurd hs.1 h⟩

/-- A packed group holds its block, at each of its positions. -/
theorem RowStored.packed_held {row k : Nat} (h : RowStored g c row) (hk : k < c.groups g row) :
    ∃ block : Nat, blockHeld g c (row, k) = some block ∧ c.blockStartPos block = groupStart g k ∧
      ∀ o < g.groupSize, c.slotsMap row (groupStart g k + o) = -1 ∧
        c.blockSlotsMap row (groupStart g k + o) = block := by
  obtain ⟨block, hstart, hall⟩ := h.packed hk
  refine ⟨block, blockHeld_eq_some.mpr ⟨hk, ?_⟩, hstart, hall⟩
  have hfirst := (hall 0 g.group_pos).2
  rw [Nat.add_zero] at hfirst
  rw [hfirst, Int.toNat_natCast]

/-! ## Rows a change leaves alone -/

/-- A row is the same in both states. -/
structure SameRow (c c' : KiviCache) (row : Nat) : Prop where
  extent : c'.extent row = c.extent row
  quantized : c'.quantizedLens row = c.quantizedLens row
  slots : c'.slotsMap row = c.slotsMap row
  blocks : c'.blockSlotsMap row = c.blockSlotsMap row

namespace SameRow

variable {c' : KiviCache} {row : Nat}

theorem groups_eq (h : SameRow c c' row) : c'.groups g row = c.groups g row := by
  unfold groups
  rw [h.quantized]

theorem rawAt_iff (h : SameRow c c' row) (i : Nat) : RawAt g c' row i ↔ RawAt g c row i := by
  unfold RawAt
  rw [h.extent, h.groups_eq]

theorem rawHeld_some (h : SameRow c c' row) {i slot : Nat} :
    rawHeld g c' (row, i) = some slot ↔ rawHeld g c (row, i) = some slot := by
  rw [rawHeld_eq_some, rawHeld_eq_some, h.rawAt_iff, h.slots]

theorem blockHeld_some (h : SameRow c c' row) {k block : Nat} :
    blockHeld g c' (row, k) = some block ↔ blockHeld g c (row, k) = some block := by
  rw [blockHeld_eq_some, blockHeld_eq_some, h.groups_eq, h.blocks]

/-- Its blocks start where they did. -/
theorem stored (h : SameRow c c' row) (hrow : RowStored g c row)
    (hstart : ∀ {k block}, blockHeld g c (row, k) = some block →
      c'.blockStartPos block = c.blockStartPos block) : RowStored g c' row := by
  refine ⟨?_, ?_, fun {i} hi => ?_, fun {k} hk => ?_, fun {i} hi => ?_⟩
  · rw [h.quantized, h.groups_eq]
    exact hrow.grouped
  · rw [h.groups_eq, h.extent]
    exact hrow.behind
  · rw [h.slots, h.blocks]
    exact hrow.raw ((h.rawAt_iff i).mp hi)
  · rw [h.groups_eq] at hk
    obtain ⟨block, hheld, hpos, hall⟩ := hrow.packed_held hk
    refine ⟨block, (hstart hheld).trans hpos, ?_⟩
    rw [h.slots, h.blocks]
    exact hall
  · rw [h.extent] at hi
    rw [h.blocks]
    exact hrow.clear hi

end SameRow

/-- A row without tokens. -/
theorem RowStored.of_empty {row : Nat} (hlen : c.rowSeqLens row = 0) (hprompt : c.promptLens row = 0)
    (hquantized : c.quantizedLens row = 0) (hclear : ∀ i, c.blockSlotsMap row i = -1) :
    RowStored g c row := by
  have hgroups : c.groups g row = 0 := groups_of_le (by rw [hquantized]; exact Nat.zero_le _)
  have hextent : c.extent row = 0 := by
    unfold extent
    rw [hlen, hprompt, max_self]
  refine ⟨Or.inl (by rw [hquantized]; exact Nat.zero_le _), Or.inl hgroups, fun {i} hi => ?_,
    fun {k} hk => ?_, fun {i} _ => hclear i⟩
  · exact absurd (hextent ▸ hi.1) (Nat.not_lt_zero _)
  · exact absurd (hgroups ▸ hk) (Nat.not_lt_zero _)

theorem rawHeld_of_empty {row i : Nat} (hextent : c.extent row = 0) :
    rawHeld g c (row, i) = none := by
  refine if_neg fun h => ?_
  exact absurd (hextent ▸ h.1) (Nat.not_lt_zero _)

theorem blockHeld_of_empty {row k : Nat} (hquantized : c.quantizedLens row = 0) :
    blockHeld g c (row, k) = none := by
  refine if_neg fun h => ?_
  have hgroups : c.groups g row = 0 := groups_of_le (by rw [hquantized]; exact Nat.zero_le _)
  exact absurd (hgroups ▸ h) (Nat.not_lt_zero _)

theorem kept_initial (numSlots numBlocks numRows : Nat) :
    Kept g (initial numSlots numBlocks numRows) where
  stored _ := .of_empty rfl rfl rfl fun _ => rfl
  slots := .empty List.nodup_range fun _ => rawHeld_of_empty rfl
  blocks := .empty List.nodup_range fun _ => blockHeld_of_empty rfl

/-! ## Groups in blocks -/

section Blocks

variable {row start : Nat} {blocks : List Nat}

theorem mapBlocks_inside {k o : Nat} (hk : k < blocks.length) (ho : o < g.groupSize) :
    (mapBlocks g row start blocks c).blockSlotsMap row (start + k * g.groupSize + o) =
      (blocks[k] : Nat) := by
  have hlast : k * g.groupSize + g.groupSize ≤ blocks.length * g.groupSize := by
    rw [← Nat.succ_mul]
    exact Nat.mul_le_mul_right _ hk
  have hindex : (start + k * g.groupSize + o - start) / g.groupSize = k := by
    rw [Nat.add_assoc, Nat.add_sub_cancel_left, Nat.mul_comm, Nat.mul_add_div g.group_pos,
      Nat.div_eq_of_lt ho, Nat.add_zero]
  refine (if_pos ⟨rfl, by omega, by omega⟩).trans ?_
  rw [hindex, List.getD_eq_getElem _ _ hk]

theorem mapBlocks_outside {i : Nat} (h : i < start ∨ start + blocks.length * g.groupSize ≤ i) :
    (mapBlocks g row start blocks c).blockSlotsMap row i = c.blockSlotsMap row i := by
  refine if_neg fun hin => ?_
  obtain ⟨-, hle, hlt⟩ := hin
  omega

theorem mapBlocks_blockStart (row : Nat) (hnd : blocks.Nodup) {k : Nat} (hk : k < blocks.length) :
    (mapBlocks g row start blocks c).blockStartPos blocks[k] =
      (start + k * g.groupSize : Nat) := by
  refine (if_pos (List.getElem_mem hk)).trans ?_
  rw [hnd.idxOf_getElem k hk]

/-- A block that is held is not one of the new ones. -/
theorem Kept.blockStart_old (h : Kept g c) (row : Nat) {rest : List Nat} (hfree : c.freeBlocks = rest ++ blocks)
    {place : Nat × Nat} {block : Nat} (hheld : blockHeld g c place = some block) :
    (mapBlocks g row start blocks c).blockStartPos block = c.blockStartPos block :=
  if_neg fun hin => h.blocks.taken hheld (hfree ▸ List.mem_append_right _ hin)

end Blocks

/-! ## Packing the groups that have left the window -/

/-- The next groups of a row are packed in `blocks`, and their raw slots come back. -/
def packRow (g : KiviGeometry) (row : Nat) (rest blocks : List Nat) (c : KiviCache) : KiviCache :=
  let start := groupStart g (c.groups g row)
  let stop := groupStart g (c.groups g row + blocks.length)
  { mapBlocks g row start blocks c with
    freeBlocks := rest
    freeSlots := c.freeSlots ++ ((List.range' start (stop - start)).map (c.slotsMap row)).map Int.toNat
    slotsMap := fun r i => if r = row ∧ start ≤ i ∧ i < stop then -1 else c.slotsMap r i
    quantizedLens := Function.update c.quantizedLens row stop }

section Pack

variable {row : Nat} {rest blocks : List Nat}

theorem packRow_sameRow {r : Nat} (h : r ≠ row) : SameRow c (packRow g row rest blocks c) r where
  extent := rfl
  quantized := Function.update_of_ne h ..
  slots := by
    funext i
    exact if_neg fun hin => h hin.1
  blocks := by
    funext i
    exact if_neg fun hin => h hin.1

theorem packRow_quantized :
    (packRow g row rest blocks c).quantizedLens row = groupStart g (c.groups g row + blocks.length) :=
  Function.update_self ..

theorem packRow_groups :
    (packRow g row rest blocks c).groups g row = c.groups g row + blocks.length :=
  groups_of_eq packRow_quantized

theorem groupStart_add (k n : Nat) : groupStart g (k + n) = groupStart g k + n * g.groupSize := by
  unfold groupStart
  rw [Nat.add_mul, Nat.add_assoc]

/-- The positions the packing does not touch. -/
theorem packRow_slotsMap {i : Nat} (h : i < groupStart g (c.groups g row) ∨
    groupStart g (c.groups g row + blocks.length) ≤ i) :
    (packRow g row rest blocks c).slotsMap row i = c.slotsMap row i := by
  refine if_neg fun hin => ?_
  obtain ⟨-, hle, hlt⟩ := hin
  omega

theorem packRow_blockSlotsMap {i : Nat} (h : i < groupStart g (c.groups g row) ∨
    groupStart g (c.groups g row + blocks.length) ≤ i) :
    (packRow g row rest blocks c).blockSlotsMap row i = c.blockSlotsMap row i := by
  rw [groupStart_add] at h
  exact mapBlocks_outside h

/-- The groups that are packed. -/
theorem packRow_inside {k o : Nat} (hk : k < blocks.length) (ho : o < g.groupSize) :
    (packRow g row rest blocks c).slotsMap row (groupStart g (c.groups g row + k) + o) = -1 ∧
      (packRow g row rest blocks c).blockSlotsMap row (groupStart g (c.groups g row + k) + o) =
        (blocks[k] : Nat) := by
  have hlast : groupStart g (c.groups g row + k) + g.groupSize ≤
      groupStart g (c.groups g row + blocks.length) := by
    rw [← groupStart_succ]
    exact groupStart_mono (by omega)
  have hfirst : groupStart g (c.groups g row) ≤ groupStart g (c.groups g row + k) :=
    groupStart_mono (Nat.le_add_right _ _)
  refine ⟨if_pos ⟨rfl, by omega, by omega⟩, ?_⟩
  rw [groupStart_add]
  exact mapBlocks_inside hk ho

theorem packRow_blockStart {k : Nat} (hnd : blocks.Nodup) (hk : k < blocks.length) :
    (packRow g row rest blocks c).blockStartPos blocks[k] = groupStart g (c.groups g row + k) := by
  rw [groupStart_add]
  exact mapBlocks_blockStart row hnd hk

/-- The raw positions that stay. -/
theorem packRow_rawAt {i : Nat} : RawAt g (packRow g row rest blocks c) row i ↔
    RawAt g c row i ∧ (i < g.sinkKeepTokens ∨
      groupStart g (c.groups g row + blocks.length) ≤ i) := by
  unfold RawAt
  rw [packRow_groups]
  have hextent : (packRow g row rest blocks c).extent row = c.extent row := rfl
  have hmono : groupStart g (c.groups g row) ≤ groupStart g (c.groups g row + blocks.length) :=
    groupStart_mono (Nat.le_add_right _ _)
  rw [hextent]
  constructor
  · rintro ⟨hlt, hi⟩
    exact ⟨⟨hlt, by omega⟩, hi⟩
  · rintro ⟨⟨hlt, -⟩, hi⟩
    exact ⟨hlt, hi⟩

/-- **Packing keeps the storage**, when the groups end in time for the residual window. -/
theorem Kept.packRow (h : Kept g c) (hfree : c.freeBlocks = rest ++ blocks)
    (hbehind : groupStart g (c.groups g row + blocks.length) + g.residualLength ≤ c.extent row) :
    Kept g (packRow g row rest blocks c) := by
  have hrow := h.stored row
  have hnd : blocks.Nodup := (List.nodup_append'.mp (hfree ▸ h.blocks.distinct)).2.1
  have hsink : g.sinkKeepTokens ≤ groupStart g (c.groups g row) := Nat.le_add_right _ _
  have hold : ∀ {place block}, blockHeld g c place = some block →
      (KiviCache.packRow g row rest blocks c).blockStartPos block = c.blockStartPos block :=
    fun hheld => h.blockStart_old row hfree hheld
  refine ⟨fun r => ?_, ?_, ?_⟩
  · by_cases hr : r = row
    · subst hr
      refine ⟨Or.inr ?_, Or.inr ?_, fun {i} hi => ?_, fun {k} hk => ?_, fun {i} hi => ?_⟩
      · rw [packRow_groups, packRow_quantized]
      · rw [packRow_groups]
        exact hbehind
      · obtain ⟨hraw, hi⟩ := packRow_rawAt.mp hi
        have hout : i < groupStart g (c.groups g r) ∨
            groupStart g (c.groups g r + blocks.length) ≤ i := by omega
        rw [packRow_slotsMap hout, packRow_blockSlotsMap hout]
        exact hrow.raw hraw
      · rw [packRow_groups] at hk
        by_cases hkold : k < c.groups g r
        · obtain ⟨block, hheld, hpos, hall⟩ := hrow.packed_held hkold
          refine ⟨block, (hold hheld).trans hpos, fun o ho => ?_⟩
          have hbefore : groupStart g k + o < groupStart g (c.groups g r) := by
            have := groupStart_mono (g := g) hkold
            rw [groupStart_succ] at this
            omega
          rw [packRow_slotsMap (Or.inl hbefore), packRow_blockSlotsMap (Or.inl hbefore)]
          exact hall o ho
        · obtain ⟨j, rfl⟩ : ∃ j, k = c.groups g r + j := ⟨k - c.groups g r, by omega⟩
          have hj : j < blocks.length := by omega
          exact ⟨blocks[j], packRow_blockStart hnd hj, fun o ho => packRow_inside hj ho⟩
      · have hextent : (KiviCache.packRow g r rest blocks c).extent r = c.extent r := rfl
        rw [hextent] at hi
        rw [packRow_blockSlotsMap (Or.inr (by omega))]
        exact hrow.clear hi
    · exact (packRow_sameRow hr).stored (h.stored r) hold
  · -- The raw slots that come back are those of the packed positions.
    have hheld : ∀ {i}, i ∈ List.range' (groupStart g (c.groups g row))
        (groupStart g (c.groups g row + blocks.length) - groupStart g (c.groups g row)) →
        rawHeld g c (row, i) = some (c.slotsMap row i).toNat ∧
          ¬ RawAt g (KiviCache.packRow g row rest blocks c) row i := by
      intro i hi
      obtain ⟨hle, hlt⟩ := List.mem_range'_1.mp hi
      refine ⟨rawHeld_eq_some.mpr ⟨⟨by omega, Or.inr hle⟩, rfl⟩, fun hraw => ?_⟩
      have := (packRow_rawAt.mp hraw).2
      omega
    refine h.slots.give ?_ ?_ ?_
    · rw [List.map_map]
      refine List.Nodup.map_on (fun i hi j hj heq => ?_) List.nodup_range'
      have hj := (hheld hj).1
      rw [show (c.slotsMap row j).toNat = (c.slotsMap row i).toNat from heq.symm] at hj
      exact congrArg Prod.snd (h.slots.apart (hheld hi).1 hj)
    · intro slot hslot
      rw [List.map_map] at hslot
      obtain ⟨i, hi, rfl⟩ := List.mem_map.mp hslot
      exact ⟨(row, i), (hheld hi).1⟩
    · rintro ⟨r, i⟩ slot hslot
      have hsame : rawHeld g c (r, i) = some slot := by
        by_cases hr : r = row
        · subst hr
          obtain ⟨hraw, hvalue⟩ := rawHeld_eq_some.mp hslot
          obtain ⟨hraw, hi⟩ := packRow_rawAt.mp hraw
          rw [packRow_slotsMap (by omega)] at hvalue
          exact rawHeld_eq_some.mpr ⟨hraw, hvalue⟩
        · exact (packRow_sameRow hr).rawHeld_some.mp hslot
      refine ⟨hsame, fun hin => ?_⟩
      rw [List.map_map] at hin
      obtain ⟨j, hj, hvalue⟩ := List.mem_map.mp hin
      obtain ⟨hjheld, hjout⟩ := hheld hj
      have hplace := h.slots.apart hsame (hjheld.trans (congrArg some hvalue))
      rw [Prod.mk.injEq] at hplace
      obtain ⟨rfl, rfl⟩ := hplace
      exact hjout (rawHeld_eq_some.mp hslot).1
  · refine h.blocks.take hfree (blocks.zipIdx.map fun block =>
      ((row, c.groups g row + block.2), block.1)) ?_ ?_
    · rw [List.map_map]
      exact List.zipIdx_map_fst 0 blocks
    · rintro ⟨r, k⟩ block hblock
      by_cases hr : r = row
      · subst hr
        obtain ⟨hk, hvalue⟩ := blockHeld_eq_some.mp hblock
        rw [packRow_groups] at hk
        by_cases hkold : k < c.groups g r
        · left
          have hbefore : groupStart g k < groupStart g (c.groups g r) := groupStart_lt.mpr hkold
          rw [packRow_blockSlotsMap (Or.inl hbefore)] at hvalue
          exact blockHeld_eq_some.mpr ⟨hkold, hvalue⟩
        · right
          obtain ⟨j, rfl⟩ : ∃ j, k = c.groups g r + j := ⟨k - c.groups g r, by omega⟩
          have hj : j < blocks.length := by omega
          rw [← Nat.add_zero (groupStart g _), (packRow_inside hj g.group_pos).2,
            Int.toNat_natCast] at hvalue
          exact List.mem_map.mpr ⟨(blocks[j], j),
            List.mk_mem_zipIdx_iff_getElem?.mpr (List.getElem?_eq_getElem hj), by rw [hvalue]⟩
      · exact Or.inl ((packRow_sameRow hr).blockHeld_some.mp hblock)

end Pack

/-! ## Planning a prompt -/

/-- The packed groups of a prompt that is staged. -/
def plannedGroups (g : KiviGeometry) (totalLen : Nat) : Nat :=
  (totalLen - g.sinkKeepTokens - g.residualLength) / g.groupSize

/-- The positions of a prompt that keep a raw slot. -/
def keepPositions (g : KiviGeometry) (totalLen : Nat) : List Nat :=
  let quantEnd := min g.sinkKeepTokens totalLen + plannedGroups g totalLen * g.groupSize
  List.range (min g.sinkKeepTokens totalLen) ++ List.range' quantEnd (totalLen - quantEnd)

/-- A prompt that is packed reaches past the sink and the residual window. -/
theorem plannedGroups_behind {totalLen : Nat} (h : plannedGroups g totalLen ≠ 0) :
    groupStart g (plannedGroups g totalLen) + g.residualLength ≤ totalLen := by
  have hle : plannedGroups g totalLen * g.groupSize ≤
      totalLen - g.sinkKeepTokens - g.residualLength := Nat.div_mul_le_self _ _
  have hpos : 0 < plannedGroups g totalLen * g.groupSize :=
    Nat.mul_pos (Nat.pos_of_ne_zero h) g.group_pos
  unfold groupStart
  omega

/-- The clipped sink and the packed groups. -/
theorem min_sink_add {totalLen : Nat} :
    min g.sinkKeepTokens totalLen + plannedGroups g totalLen * g.groupSize =
      if totalLen ≤ g.sinkKeepTokens then totalLen else groupStart g (plannedGroups g totalLen) := by
  split
  · rename_i hle
    have hnone : plannedGroups g totalLen = 0 := by
      unfold plannedGroups
      rw [Nat.sub_eq_zero_of_le hle, Nat.zero_sub, Nat.zero_div]
    rw [hnone, Nat.zero_mul, Nat.add_zero, min_eq_right hle]
  · rename_i hlt
    rw [min_eq_left (by omega)]
    rfl

theorem mem_keepPositions {totalLen i : Nat} : i ∈ keepPositions g totalLen ↔
    i < totalLen ∧ (i < g.sinkKeepTokens ∨ groupStart g (plannedGroups g totalLen) ≤ i) := by
  have hsink : g.sinkKeepTokens ≤ groupStart g (plannedGroups g totalLen) := Nat.le_add_right _ _
  unfold keepPositions
  rw [List.mem_append, List.mem_range, List.mem_range'_1, min_sink_add]
  split
  · omega
  · by_cases hnone : plannedGroups g totalLen = 0
    · have hstart : groupStart g (plannedGroups g totalLen) = g.sinkKeepTokens := by
        rw [hnone]
        unfold groupStart
        omega
      omega
    · have := plannedGroups_behind hnone
      omega

theorem nodup_keepPositions (totalLen : Nat) : (keepPositions g totalLen).Nodup := by
  refine List.nodup_append'.mpr ⟨List.nodup_range, List.nodup_range', fun i hi hi' => ?_⟩
  have hlt := List.mem_range.mp hi
  have hle := (List.mem_range'_1.mp hi').1
  omega

/-- The row of a prompt as its plan leaves it. -/
def planRow (g : KiviGeometry) (row totalLen : Nat) (restSlots slots restBlocks blocks : List Nat)
    (c : KiviCache) : KiviCache :=
  { mapBlocks g row (min g.sinkKeepTokens totalLen) blocks c with
    freeSlots := restSlots
    freeBlocks := restBlocks
    slotsMap := assign (fun r i => if r = row ∧ i < totalLen then -1 else c.slotsMap r i)
      (((keepPositions g totalLen).map fun i => (row, i)).zip (slots.map fun slot : Nat => (slot : Int)))
    quantizedLens := Function.update c.quantizedLens row
      (min g.sinkKeepTokens totalLen + plannedGroups g totalLen * g.groupSize)
    promptLens := Function.update c.promptLens row totalLen }

section Plan

variable {row totalLen : Nat} {restSlots slots restBlocks blocks : List Nat}

/-- The cells of the kept positions. -/
theorem keepCells_fst (hlen : slots.length = (keepPositions g totalLen).length) :
    ((((keepPositions g totalLen).map fun i => (row, i)).zip
      (slots.map fun slot : Nat => (slot : Int))).map Prod.fst) =
      (keepPositions g totalLen).map fun i => (row, i) := by
  refine List.map_fst_zip ?_
  rw [List.length_map, List.length_map, hlen]

theorem planRow_sameRow {r : Nat} (h : r ≠ row)
    (hlen : slots.length = (keepPositions g totalLen).length) :
    SameRow c (planRow g row totalLen restSlots slots restBlocks blocks c) r where
  extent := by
    show max _ (Function.update c.promptLens row totalLen r) = _
    rw [Function.update_of_ne h]
    rfl
  quantized := Function.update_of_ne h ..
  slots := by
    funext i
    refine (assign_of_notMem ?_).trans (if_neg fun hin => h hin.1)
    rw [keepCells_fst hlen]
    intro hin
    obtain ⟨j, -, heq⟩ := List.mem_map.mp hin
    exact h (congrArg Prod.fst heq).symm
  blocks := by
    funext i
    exact if_neg fun hin => h hin.1

theorem planRow_groups :
    (planRow g row totalLen restSlots slots restBlocks blocks c).groups g row =
      plannedGroups g totalLen := by
  have hquantized : (planRow g row totalLen restSlots slots restBlocks blocks c).quantizedLens row =
      _ := Function.update_self ..
  rw [min_sink_add] at hquantized
  split at hquantized
  · rename_i hle
    rw [groups_of_le (hquantized.trans_le hle)]
    unfold plannedGroups
    rw [Nat.sub_eq_zero_of_le hle, Nat.zero_sub, Nat.zero_div]
  · exact groups_of_eq hquantized

theorem planRow_extent (hempty : c.rowSeqLens row = 0) :
    (planRow g row totalLen restSlots slots restBlocks blocks c).extent row = totalLen := by
  show max (c.rowSeqLens row) (Function.update c.promptLens row totalLen row) = totalLen
  rw [hempty, Function.update_self, Nat.zero_max]

theorem planRow_rawAt (hempty : c.rowSeqLens row = 0) {i : Nat} :
    RawAt g (planRow g row totalLen restSlots slots restBlocks blocks c) row i ↔
      i ∈ keepPositions g totalLen := by
  unfold RawAt
  rw [planRow_groups, planRow_extent hempty, mem_keepPositions]

/-- A kept position has the slot that was taken for it. -/
theorem planRow_kept (hlen : slots.length = (keepPositions g totalLen).length) {i : Nat}
    (hi : i ∈ keepPositions g totalLen) :
    ∃ slot : Nat, (planRow g row totalLen restSlots slots restBlocks blocks c).slotsMap row i = slot ∧
      ((row, i), slot) ∈ ((keepPositions g totalLen).map fun i => (row, i)).zip slots := by
  obtain ⟨j, hj, rfl⟩ := List.mem_iff_getElem.mp hi
  have hmem : ((row, (keepPositions g totalLen)[j]), slots[j]) ∈
      ((keepPositions g totalLen).map fun i => (row, i)).zip slots := by
    refine List.mem_iff_getElem.mpr ⟨j, ?_, ?_⟩
    · rw [List.length_zip, List.length_map]
      omega
    · rw [List.getElem_zip, List.getElem_map]
  refine ⟨slots[j], assign_of_mem ?_ ?_, hmem⟩
  · rw [keepCells_fst hlen]
    exact (nodup_keepPositions totalLen).map fun i j heq => congrArg Prod.snd heq
  · rw [List.zip_map_right]
    exact List.mem_map.mpr ⟨_, hmem, rfl⟩

/-- A packed position has no slot. -/
theorem planRow_unkept (hlen : slots.length = (keepPositions g totalLen).length) {i : Nat}
    (hi : i < totalLen) (hout : i ∉ keepPositions g totalLen) :
    (planRow g row totalLen restSlots slots restBlocks blocks c).slotsMap row i = -1 := by
  refine (assign_of_notMem ?_).trans (if_pos ⟨rfl, hi⟩)
  rw [keepCells_fst hlen]
  intro hin
  obtain ⟨j, hj, heq⟩ := List.mem_map.mp hin
  have hij : j = i := congrArg Prod.snd heq
  exact hout (hij ▸ hj)

/-- The groups of the prompt that are packed. -/
theorem planRow_inside (hcount : blocks.length = plannedGroups g totalLen) {k o : Nat}
    (hk : k < blocks.length) (ho : o < g.groupSize) :
    (planRow g row totalLen restSlots slots restBlocks blocks c).blockSlotsMap row
      (groupStart g k + o) = (blocks[k] : Nat) := by
  have hpacked : plannedGroups g totalLen ≠ 0 := by omega
  have hbehind := plannedGroups_behind hpacked
  have hsink : min g.sinkKeepTokens totalLen = g.sinkKeepTokens :=
    min_eq_left (by unfold groupStart at hbehind; omega)
  unfold planRow
  rw [hsink]
  exact mapBlocks_inside hk ho

/-- The other positions are in no block. -/
theorem planRow_outside (hcount : blocks.length = plannedGroups g totalLen) {i : Nat}
    (hi : i ∈ keepPositions g totalLen ∨ totalLen ≤ i) :
    (planRow g row totalLen restSlots slots restBlocks blocks c).blockSlotsMap row i =
      c.blockSlotsMap row i := by
  refine mapBlocks_outside ?_
  rw [hcount, min_sink_add]
  rw [mem_keepPositions] at hi
  split
  · omega
  · by_cases hnone : plannedGroups g totalLen = 0
    · have hstart : groupStart g (plannedGroups g totalLen) = g.sinkKeepTokens := by
        rw [hnone]
        unfold groupStart
        omega
      omega
    · have := plannedGroups_behind hnone
      omega

/-- **A plan keeps the storage**, on a row that has no tokens. -/
theorem Kept.planRow (h : Kept g c) (hempty : c.rowSeqLens row = 0) (hprompt : c.promptLens row = 0)
    (hslots : c.freeSlots = restSlots ++ slots)
    (hlen : slots.length = (keepPositions g totalLen).length)
    (hblocks : c.freeBlocks = restBlocks ++ blocks)
    (hcount : blocks.length = plannedGroups g totalLen) :
    Kept g (planRow g row totalLen restSlots slots restBlocks blocks c) := by
  have hnd : blocks.Nodup := (List.nodup_append'.mp (hblocks ▸ h.blocks.distinct)).2.1
  have hold : ∀ {place block}, blockHeld g c place = some block →
      (KiviCache.planRow g row totalLen restSlots slots restBlocks blocks c).blockStartPos block =
        c.blockStartPos block :=
    fun hheld => h.blockStart_old row hblocks hheld
  have hclear : ∀ i, c.blockSlotsMap row i = -1 := fun i => (h.stored row).clear (by
    unfold extent
    rw [hempty, hprompt, max_self]
    exact Nat.zero_le _)
  refine ⟨fun r => ?_, ?_, ?_⟩
  · by_cases hr : r = row
    · subst hr
      refine ⟨?_, ?_, fun {i} hi => ?_, fun {k} hk => ?_, fun {i} hi => ?_⟩
      · have hquantized' : (KiviCache.planRow g r totalLen restSlots slots restBlocks blocks
            c).quantizedLens r = _ := Function.update_self ..
        rw [planRow_groups, hquantized', min_sink_add]
        split
        · rename_i hle
          exact Or.inl hle
        · exact Or.inr rfl
      · rw [planRow_groups, planRow_extent hempty]
        by_cases hnone : plannedGroups g totalLen = 0
        · exact Or.inl hnone
        · exact Or.inr (plannedGroups_behind hnone)
      · have hkeep := (planRow_rawAt hempty).mp hi
        obtain ⟨slot, hslot, -⟩ : ∃ slot : Nat, (KiviCache.planRow g r totalLen restSlots slots
            restBlocks blocks c).slotsMap r i = slot ∧ _ := planRow_kept hlen hkeep
        exact ⟨⟨slot, hslot⟩, (planRow_outside hcount (Or.inl hkeep)).trans (hclear i)⟩
      · rw [planRow_groups, ← hcount] at hk
        have hpacked : plannedGroups g totalLen ≠ 0 := by omega
        have hbehind := plannedGroups_behind hpacked
        have hlast : groupStart g k + g.groupSize ≤ groupStart g (plannedGroups g totalLen) := by
          rw [← groupStart_succ, ← hcount]
          exact groupStart_mono hk
        have hfirst : g.sinkKeepTokens ≤ groupStart g k := Nat.le_add_right _ _
        have hsink : min g.sinkKeepTokens totalLen = g.sinkKeepTokens := min_eq_left (by omega)
        have hstart : (KiviCache.planRow g r totalLen restSlots slots restBlocks blocks
            c).blockStartPos blocks[k] = (min g.sinkKeepTokens totalLen + k * g.groupSize : Nat) :=
          mapBlocks_blockStart r hnd hk
        rw [hsink] at hstart
        refine ⟨blocks[k], hstart, fun o ho => ⟨planRow_unkept hlen (by omega) fun hkeep => ?_,
          planRow_inside hcount hk ho⟩⟩
        have := (mem_keepPositions.mp hkeep).2
        omega
      · rw [planRow_extent hempty] at hi
        exact (planRow_outside hcount (Or.inr hi)).trans (hclear i)
    · exact (planRow_sameRow hr hlen).stored (h.stored r) hold
  · refine h.slots.take hslots (((keepPositions g totalLen).map fun i => (row, i)).zip slots) ?_ ?_
    · exact List.map_snd_zip (by rw [List.length_map, hlen])
    · rintro ⟨r, i⟩ slot hslot
      by_cases hr : r = row
      · subst hr
        obtain ⟨hraw, hvalue⟩ := rawHeld_eq_some.mp hslot
        obtain ⟨slot', hslot', hin⟩ : ∃ slot : Nat, (KiviCache.planRow g r totalLen restSlots slots
            restBlocks blocks c).slotsMap r i = slot ∧ _ :=
          planRow_kept hlen ((planRow_rawAt hempty).mp hraw)
        rw [hslot', Int.toNat_natCast] at hvalue
        exact Or.inr (hvalue ▸ hin)
      · exact Or.inl ((planRow_sameRow hr hlen).rawHeld_some.mp hslot)
  · refine h.blocks.take hblocks (blocks.zipIdx.map fun block => ((row, block.2), block.1)) ?_ ?_
    · rw [List.map_map]
      exact List.zipIdx_map_fst 0 blocks
    · rintro ⟨r, k⟩ block hblock
      by_cases hr : r = row
      · subst hr
        obtain ⟨hk, hvalue⟩ := blockHeld_eq_some.mp hblock
        rw [planRow_groups, ← hcount] at hk
        rw [← Nat.add_zero (groupStart g _), planRow_inside hcount hk g.group_pos,
          Int.toNat_natCast] at hvalue
        exact Or.inr (List.mem_map.mpr ⟨(blocks[k], k),
          List.mk_mem_zipIdx_iff_getElem?.mpr (List.getElem?_eq_getElem hk), by rw [hvalue]⟩)
      · exact Or.inl ((planRow_sameRow hr hlen).blockHeld_some.mp hblock)

end Plan

/-! ## Lengths -/

/-- The storage does not depend on more than the rows, the stacks and the starts of the blocks. -/
theorem Kept.congr {c' : KiviCache} (h : Kept g c) (hsame : ∀ row, SameRow c c' row)
    (hslots : c'.freeSlots = c.freeSlots) (hblocks : c'.freeBlocks = c.freeBlocks)
    (hstart : c'.blockStartPos = c.blockStartPos) : Kept g c' := by
  refine ⟨fun row => (hsame row).stored (h.stored row) fun _ => by rw [hstart], ?_, ?_⟩
  · rw [hslots]
    exact h.slots.mono fun place _ hs => (hsame place.1).rawHeld_some.mp hs
  · rw [hblocks]
    exact h.blocks.mono fun place _ hs => (hsame place.1).blockHeld_some.mp hs

/-- A row within its extent may be longer. -/
theorem Kept.lengthen (h : Kept g c) {row len : Nat}
    (hlen : max len (c.promptLens row) = c.extent row) :
    Kept g { c with rowSeqLens := Function.update c.rowSeqLens row len } := by
  refine h.congr (fun r => ⟨?_, rfl, rfl, rfl⟩) rfl rfl rfl
  show max (Function.update c.rowSeqLens row len r) (c.promptLens r) = c.extent r
  by_cases hr : r = row
  · subst hr
    rw [Function.update_self]
    exact hlen
  · rw [Function.update_of_ne hr]
    rfl

/-! ## A decode step -/

/-- Prefilled rows take one slot each. -/
def appendRows (rows rest slots : List Nat) (c : KiviCache) : KiviCache :=
  { c with
    freeSlots := rest
    slotsMap := assign c.slotsMap ((rows.map fun row => (row, c.rowSeqLens row)).zip
      (slots.map fun slot : Nat => (slot : Int)))
    rowSeqLens := fun r => if r ∈ rows then c.rowSeqLens r + 1 else c.rowSeqLens r }

section Append

variable {rows rest slots : List Nat}

theorem appendCells_fst (hlen : slots.length = rows.length) :
    (((rows.map fun row => (row, c.rowSeqLens row)).zip
      (slots.map fun slot : Nat => (slot : Int))).map Prod.fst) =
      rows.map fun row => (row, c.rowSeqLens row) := by
  refine List.map_fst_zip ?_
  rw [List.length_map, List.length_map, hlen]

/-- The positions a row had are where they were. -/
theorem appendRows_slotsMap (hlen : slots.length = rows.length) {row i : Nat}
    (h : row ∉ rows ∨ i ≠ c.rowSeqLens row) :
    (appendRows rows rest slots c).slotsMap row i = c.slotsMap row i := by
  refine assign_of_notMem ?_
  rw [appendCells_fst hlen]
  intro hin
  obtain ⟨r, hr, heq⟩ := List.mem_map.mp hin
  obtain ⟨rfl, rfl⟩ : r = row ∧ c.rowSeqLens r = i := Prod.ext_iff.mp heq
  rcases h with h | h
  · exact h hr
  · exact h rfl

/-- The new position of a row has the slot that was taken for it. -/
theorem appendRows_new (hnd : rows.Nodup) (hlen : slots.length = rows.length) {row : Nat}
    (hrow : row ∈ rows) :
    ∃ slot : Nat, (appendRows rows rest slots c).slotsMap row (c.rowSeqLens row) = slot ∧
      ((row, c.rowSeqLens row), slot) ∈ (rows.map fun row => (row, c.rowSeqLens row)).zip slots := by
  obtain ⟨j, hj, rfl⟩ := List.mem_iff_getElem.mp hrow
  have hmem : ((rows[j], c.rowSeqLens rows[j]), slots[j]) ∈
      (rows.map fun row => (row, c.rowSeqLens row)).zip slots := by
    refine List.mem_iff_getElem.mpr ⟨j, ?_, ?_⟩
    · rw [List.length_zip, List.length_map]
      omega
    · rw [List.getElem_zip, List.getElem_map]
  refine ⟨slots[j], assign_of_mem ?_ ?_, hmem⟩
  · rw [appendCells_fst hlen]
    exact hnd.map fun i j heq => congrArg Prod.fst heq
  · rw [List.zip_map_right]
    exact List.mem_map.mpr ⟨_, hmem, rfl⟩

theorem appendRows_extent {row : Nat} (hprefilled : c.Prefilled row) (hrow : row ∈ rows) :
    (appendRows rows rest slots c).extent row = c.extent row + 1 := by
  unfold KiviCache.Prefilled at hprefilled
  show max (if row ∈ rows then c.rowSeqLens row + 1 else c.rowSeqLens row) (c.promptLens row) =
    max (c.rowSeqLens row) (c.promptLens row) + 1
  rw [if_pos hrow]
  omega

theorem appendRows_sameRow (hlen : slots.length = rows.length) {row : Nat} (hrow : row ∉ rows) :
    SameRow c (appendRows rows rest slots c) row where
  extent := by
    show max (if row ∈ rows then c.rowSeqLens row + 1 else c.rowSeqLens row) (c.promptLens row) = _
    rw [if_neg hrow]
    rfl
  quantized := rfl
  slots := by
    funext i
    exact appendRows_slotsMap hlen (Or.inl hrow)
  blocks := rfl

/-- **A decode step keeps the storage** of prefilled rows. -/
theorem Kept.appendRows (h : Kept g c) (hnd : rows.Nodup) (hprefilled : ∀ row ∈ rows, c.Prefilled row)
    (hfree : c.freeSlots = rest ++ slots) (hlen : slots.length = rows.length) :
    Kept g (appendRows rows rest slots c) := by
  have hgroups : ∀ row, (KiviCache.appendRows rows rest slots c).groups g row = c.groups g row :=
    fun _ => rfl
  -- The new position is behind the packed groups.
  have hlast : ∀ {row}, row ∈ rows → c.extent row = c.rowSeqLens row :=
    fun hrow => max_eq_left (hprefilled _ hrow)
  have hraw : ∀ {row i}, row ∈ rows → RawAt g (KiviCache.appendRows rows rest slots c) row i →
      i = c.rowSeqLens row ∨ i ≠ c.rowSeqLens row ∧ RawAt g c row i := by
    intro row i hrow hi
    unfold RawAt at hi ⊢
    rw [appendRows_extent (hprefilled row hrow) hrow, hgroups] at hi
    have := hlast hrow
    omega
  refine ⟨fun row => ?_, ?_, h.blocks⟩
  · by_cases hrow : row ∈ rows
    · have hold := h.stored row
      have hextent : (KiviCache.appendRows rows rest slots c).extent row = c.extent row + 1 :=
        appendRows_extent (hprefilled row hrow) hrow
      refine ⟨hold.grouped, ?_, fun {i} hi => ?_, fun {k} hk => ?_, fun {i} hi => ?_⟩
      · rw [hgroups, hextent]
        exact hold.behind.imp_right fun hle => by omega
      · rcases hraw hrow hi with rfl | ⟨hne, hi⟩
        · obtain ⟨slot, hslot, -⟩ : ∃ slot : Nat, (KiviCache.appendRows rows rest slots c).slotsMap
              row (c.rowSeqLens row) = slot ∧ _ := appendRows_new hnd hlen hrow
          exact ⟨⟨slot, hslot⟩, hold.clear (hlast hrow).le⟩
        · rw [appendRows_slotsMap hlen (Or.inr hne)]
          exact hold.raw hi
      · obtain ⟨block, -, hpos, hall⟩ := hold.packed_held hk
        refine ⟨block, hpos, fun o ho => ?_⟩
        have hbefore : groupStart g k + o < c.rowSeqLens row := by
          have hk' : k < c.groups g row := hk
          have hbehind := hold.behind.resolve_left (by omega)
          have hnext : groupStart g (k + 1) ≤ groupStart g (c.groups g row) := groupStart_mono hk'
          rw [groupStart_succ] at hnext
          have := hlast hrow
          omega
        rw [appendRows_slotsMap hlen (Or.inr (Nat.ne_of_lt hbefore))]
        exact hall o ho
      · rw [hextent] at hi
        exact hold.clear (Nat.le_of_succ_le hi)
    · exact (appendRows_sameRow hlen hrow).stored (h.stored row) fun _ => rfl
  · refine h.slots.take hfree ((rows.map fun row => (row, c.rowSeqLens row)).zip slots) ?_ ?_
    · exact List.map_snd_zip (by rw [List.length_map, hlen])
    · rintro ⟨row, i⟩ slot hslot
      by_cases hrow : row ∈ rows
      · obtain ⟨hi, hvalue⟩ := rawHeld_eq_some.mp hslot
        rcases hraw hrow hi with rfl | ⟨hne, hi⟩
        · obtain ⟨slot', hslot', hin⟩ : ∃ slot : Nat, (KiviCache.appendRows rows rest slots c).slotsMap
              row (c.rowSeqLens row) = slot ∧ _ := appendRows_new hnd hlen hrow
          rw [hslot', Int.toNat_natCast] at hvalue
          exact Or.inr (hvalue ▸ hin)
        · rw [appendRows_slotsMap hlen (Or.inr hne)] at hvalue
          exact Or.inl (rawHeld_eq_some.mpr ⟨hi, hvalue⟩)
      · exact Or.inl ((appendRows_sameRow hlen hrow).rawHeld_some.mp hslot)

end Append

/-! ## The end of a request -/

/-- A row gives its slots and its blocks back. -/
def releaseRow (row len : Nat) (c : KiviCache) : KiviCache :=
  { c with
    freeSlots := c.freeSlots ++ c.slotsOf row len
    freeBlocks := c.freeBlocks ++ c.blocksOf row len
    blockStartPos := fun b => if b ∈ c.blocksOf row len then -1 else c.blockStartPos b
    slotsMap := fun r i => if r = row then 0 else c.slotsMap r i
    blockSlotsMap := fun r i => if r = row then -1 else c.blockSlotsMap r i
    rowSeqLens := Function.update c.rowSeqLens row 0
    promptLens := Function.update c.promptLens row 0
    quantizedLens := Function.update c.quantizedLens row 0 }

section Release

variable {row len : Nat}

theorem mem_held {f : Nat → Int} {s : Nat} :
    s ∈ (((List.range len).map f).filter (0 ≤ ·)).map Int.toNat ↔ ∃ i < len, f i = s := by
  constructor
  · intro hs
    obtain ⟨value, hvalue, rfl⟩ := List.mem_map.mp hs
    obtain ⟨hin, hle⟩ := List.mem_filter.mp hvalue
    obtain ⟨i, hi, rfl⟩ := List.mem_map.mp hin
    exact ⟨i, List.mem_range.mp hi, (Int.toNat_of_nonneg (of_decide_eq_true hle)).symm⟩
  · rintro ⟨i, hi, hvalue⟩
    refine List.mem_map.mpr ⟨f i, List.mem_filter.mpr ⟨?_, ?_⟩, by rw [hvalue, Int.toNat_natCast]⟩
    · exact List.mem_map_of_mem (List.mem_range.mpr hi)
    · rw [hvalue]
      exact decide_eq_true (Int.natCast_nonneg s)

theorem mem_slotsOf {slot : Nat} : slot ∈ c.slotsOf row len ↔ ∃ i < len, c.slotsMap row i = slot :=
  mem_held

theorem mem_blocksOf {block : Nat} :
    block ∈ c.blocksOf row len ↔ ∃ i < len, c.blockSlotsMap row i = block := by
  unfold blocksOf
  rw [List.mem_mergeSort, List.mem_dedup]
  exact mem_held

/-- Where a position of a row is. -/
theorem rawAt_or_packed (g : KiviGeometry) {i : Nat} (hi : i < c.extent row) :
    RawAt g c row i ∨ ∃ k < c.groups g row, ∃ o < g.groupSize, i = groupStart g k + o := by
  by_cases hsink : i < g.sinkKeepTokens
  · exact Or.inl ⟨hi, Or.inl hsink⟩
  obtain ⟨k, o, ho, rfl⟩ := exists_group (not_lt.mp hsink)
  by_cases hk : k < c.groups g row
  · exact Or.inr ⟨k, hk, o, ho, rfl⟩
  · refine Or.inl ⟨hi, Or.inr ?_⟩
    exact (groupStart_mono (not_lt.mp hk)).trans (Nat.le_add_right _ _)

/-- A position with a slot is raw. -/
theorem RowStored.rawAt_of_slot (h : RowStored g c row) {i slot : Nat} (hi : i < c.extent row)
    (hslot : c.slotsMap row i = slot) : RawAt g c row i := by
  rcases rawAt_or_packed g hi with hraw | ⟨k, hk, o, ho, rfl⟩
  · exact hraw
  · obtain ⟨block, -, -, hall⟩ := h.packed_held hk
    rw [(hall o ho).1] at hslot
    omega

/-- A position in a block is in a packed group. -/
theorem RowStored.packed_of_block (h : RowStored g c row) {i block : Nat}
    (hblock : c.blockSlotsMap row i = block) :
    ∃ k < c.groups g row, ∃ o < g.groupSize, i = groupStart g k + o ∧
      blockHeld g c (row, k) = some block ∧ c.blockStartPos block = groupStart g k := by
  have hi : i < c.extent row := by
    by_contra hout
    rw [h.clear (not_lt.mp hout)] at hblock
    omega
  rcases rawAt_or_packed g hi with hraw | ⟨k, hk, o, ho, rfl⟩
  · rw [(h.raw hraw).2] at hblock
    omega
  · obtain ⟨block', hheld, hstart, hall⟩ := h.packed_held hk
    rw [(hall o ho).2, Int.natCast_inj] at hblock
    subst hblock
    exact ⟨k, hk, o, ho, rfl, hheld, hstart⟩

theorem releaseRow_sameRow {r : Nat} (h : r ≠ row) : SameRow c (releaseRow row len c) r where
  extent := by
    show max (Function.update c.rowSeqLens row 0 r) (Function.update c.promptLens row 0 r) = _
    rw [Function.update_of_ne h, Function.update_of_ne h]
    rfl
  quantized := Function.update_of_ne h ..
  slots := by
    funext i
    exact if_neg h
  blocks := by
    funext i
    exact if_neg h

/-- **The end of a request keeps the storage**. -/
theorem Kept.releaseRow (h : Kept g c) (hlen : len ≤ c.extent row) :
    Kept g (releaseRow row len c) := by
  have hrow := h.stored row
  -- What comes back was held by the row.
  have hslots : ∀ slot ∈ c.slotsOf row len, ∃ i, rawHeld g c (row, i) = some slot := by
    intro slot hslot
    obtain ⟨i, hi, hvalue⟩ := mem_slotsOf.mp hslot
    have hraw := hrow.rawAt_of_slot (hi.trans_le hlen) hvalue
    exact ⟨i, rawHeld_eq_some.mpr ⟨hraw, by rw [hvalue, Int.toNat_natCast]⟩⟩
  have hblocks : ∀ block ∈ c.blocksOf row len, ∃ k, blockHeld g c (row, k) = some block := by
    intro block hblock
    obtain ⟨i, -, hvalue⟩ := mem_blocksOf.mp hblock
    obtain ⟨k, -, -, -, -, hheld, -⟩ := hrow.packed_of_block hvalue
    exact ⟨k, hheld⟩
  have hempty : (KiviCache.releaseRow row len c).extent row = 0 := by
    show max (Function.update c.rowSeqLens row 0 row) (Function.update c.promptLens row 0 row) = 0
    rw [Function.update_self, Function.update_self, max_self]
  have hquantized : (KiviCache.releaseRow row len c).quantizedLens row = 0 := Function.update_self ..
  refine ⟨fun r => ?_, ?_, ?_⟩
  · by_cases hr : r = row
    · subst hr
      exact .of_empty (Function.update_self ..) (Function.update_self ..) (Function.update_self ..)
        fun i => if_pos rfl
    · refine (releaseRow_sameRow hr).stored (h.stored r) fun {k block} hheld => if_neg fun hin => ?_
      obtain ⟨j, hj⟩ := hblocks block hin
      exact hr (congrArg Prod.fst (h.blocks.apart hheld hj))
  · refine h.slots.give ?_ (fun slot hslot => ?_) ?_
    · unfold slotsOf
      rw [List.filter_map, List.map_map]
      refine List.Nodup.map_on (fun i hi j hj heq => ?_) (List.nodup_range.filter _)
      have hheld : ∀ {i}, i ∈ (List.range len).filter ((0 ≤ ·) ∘ c.slotsMap row) →
          rawHeld g c (row, i) = some (c.slotsMap row i).toNat := by
        intro i hi
        obtain ⟨hin, hle⟩ := List.mem_filter.mp hi
        have hvalue : c.slotsMap row i = ((c.slotsMap row i).toNat : Nat) :=
          (Int.toNat_of_nonneg (of_decide_eq_true hle)).symm
        have hraw := hrow.rawAt_of_slot ((List.mem_range.mp hin).trans_le hlen) hvalue
        exact rawHeld_eq_some.mpr ⟨hraw, rfl⟩
      have hj := hheld hj
      rw [show (c.slotsMap row j).toNat = (c.slotsMap row i).toNat from heq.symm] at hj
      exact congrArg Prod.snd (h.slots.apart (hheld hi) hj)
    · obtain ⟨i, hi⟩ := hslots slot hslot
      exact ⟨(row, i), hi⟩
    · rintro ⟨r, i⟩ slot hslot
      by_cases hr : r = row
      · subst hr
        rw [rawHeld_of_empty hempty] at hslot
        cases hslot
      · have hold := (releaseRow_sameRow hr).rawHeld_some.mp hslot
        refine ⟨hold, fun hin => ?_⟩
        obtain ⟨j, hj⟩ := hslots slot hin
        exact hr (congrArg Prod.fst (h.slots.apart hold hj))
  · refine h.blocks.give ?_ (fun block hblock => ?_) ?_
    · exact (List.mergeSort_perm _ _).nodup_iff.mpr (List.nodup_dedup _)
    · obtain ⟨k, hk⟩ := hblocks block hblock
      exact ⟨(row, k), hk⟩
    · rintro ⟨r, k⟩ block hblock
      by_cases hr : r = row
      · subst hr
        rw [blockHeld_of_empty hquantized] at hblock
        cases hblock
      · have hold := (releaseRow_sameRow hr).blockHeld_some.mp hblock
        refine ⟨hold, fun hin => ?_⟩
        obtain ⟨j, hj⟩ := hblocks block hin
        exact hr (congrArg Prod.fst (h.blocks.apart hold hj))

end Release

/-- The rows, the lengths and the prompts are the same. -/
structure SameRows (c c' : KiviCache) : Prop where
  seqIdToRow : c'.seqIdToRow = c.seqIdToRow
  freeRows : c'.freeRows = c.freeRows
  rowSeqLens : c'.rowSeqLens = c.rowSeqLens
  promptLens : c'.promptLens = c.promptLens

theorem SameRows.refl (c : KiviCache) : SameRows c c := ⟨rfl, rfl, rfl, rfl⟩

theorem SameRows.trans {c' c'' : KiviCache} (h : SameRows c c') (h' : SameRows c' c'') :
    SameRows c c'' :=
  ⟨h'.seqIdToRow.trans h.seqIdToRow, h'.freeRows.trans h.freeRows,
    h'.rowSeqLens.trans h.rowSeqLens, h'.promptLens.trans h.promptLens⟩

end KiviCache

open KiviCache

section Methods

variable {g : KiviGeometry} {c : KiviCache}

theorem allocateKiviBlocks_takes (size : Nat) :
    Returns (· = c) (allocateKiviBlocks size) fun blocks c' => ∃ rest,
      c.freeBlocks = rest ++ blocks ∧ blocks.length = size ∧ c' = { c with freeBlocks := rest } := by
  refine Spec.get_bind fun t ht => ?_
  subst ht
  refine Spec.raiseIf_bind (fun _ _ _ => trivial) fun hroom u _ => ?_
  refine ⟨t.freeBlocks.take (t.freeBlocks.length - size), (List.take_append_drop ..).symm, ?_, rfl⟩
  rw [List.length_drop]
  omega

/-- The quantised length is where the packed groups end. -/
theorem KiviCache.RowStored.quantStart {row : Nat} (h : RowStored g c row) :
    g.sinkKeepTokens + (max g.sinkKeepTokens (if c.quantizedLens row = 0 then g.sinkKeepTokens
      else c.quantizedLens row) - g.sinkKeepTokens + g.groupSize - 1) / g.groupSize * g.groupSize =
      groupStart g (c.groups g row) := by
  have hup : ∀ n, (n * g.groupSize + g.groupSize - 1) / g.groupSize = n := by
    intro n
    have hpos := g.group_pos
    rw [Nat.add_sub_assoc hpos, Nat.mul_comm, Nat.mul_add_div hpos,
      Nat.div_eq_of_lt (by omega), Nat.add_zero]
  have hmax : max g.sinkKeepTokens (if c.quantizedLens row = 0 then g.sinkKeepTokens
      else c.quantizedLens row) - g.sinkKeepTokens = c.groups g row * g.groupSize := by
    rcases h.grouped with hle | heq
    · rw [groups_of_le hle, Nat.zero_mul]
      split <;> omega
    · have hstart : groupStart g (c.groups g row) =
          g.sinkKeepTokens + c.groups g row * g.groupSize := rfl
      rw [← heq] at hstart
      split <;> omega
  rw [hmax, hup]
  rfl

/-- **An eviction keeps the storage** of a row whose prompt has been prefilled. -/
theorem kiviEvictRow_keeps (h : Kept g c) {row : Nat} (hprefilled : c.Prefilled row) :
    Returns (· = c) (kiviEvictRow g row) fun _ c' => Kept g c' ∧ SameRows c c' := by
  have hrow := h.stored row
  have hstay : Returns (· = c) (pure () : KiviM Unit) fun _ c' => Kept g c' ∧ SameRows c c' :=
    Spec.pure fun u hu => by rw [hu]; exact ⟨h, .refl c⟩
  unfold kiviEvictRow
  refine Spec.get_bind fun t ht => ?_
  subst ht
  dsimp only
  rw [hrow.quantStart]
  refine Spec.ite (fun _ => hstay) fun hbuffer => ?_
  refine Spec.ite (fun _ => hstay) fun hrel => ?_
  refine Spec.ite (fun _ => hstay) fun hmore => ?_
  set n := (t.rowSeqLens row - g.sinkKeepTokens - g.residualLength) / g.groupSize with hn
  have hextent : t.extent row = t.rowSeqLens row := max_eq_left hprefilled
  have hend : g.sinkKeepTokens + n * g.groupSize = groupStart g n := rfl
  rw [hend] at hmore ⊢
  have hlt : t.groups g row < n := groupStart_lt.mp (not_le.mp hmore)
  obtain ⟨m, hm⟩ : ∃ m, n = t.groups g row + m := ⟨n - t.groups g row, by omega⟩
  rw [hm]
  have hsize : (groupStart g (t.groups g row + m) - groupStart g (t.groups g row)) / g.groupSize =
      m := by
    rw [groupStart_add, Nat.add_sub_cancel_left, Nat.mul_div_cancel _ g.group_pos]
  rw [hsize]
  refine Spec.raiseIf_bind (fun _ _ _ => trivial) fun _ => ?_
  refine Spec.bind (allocateKiviBlocks_takes m) fun blocks => Spec.intro fun u hu => ?_
  obtain ⟨rest, hfree, rfl, rfl⟩ := hu
  have hbehind : groupStart g (t.groups g row + blocks.length) + g.residualLength ≤
      t.extent row := by
    have hle := Nat.div_mul_le_self (t.rowSeqLens row - g.sinkKeepTokens - g.residualLength)
      g.groupSize
    rw [← hn] at hle
    rw [← hm, ← hend, hextent]
    omega
  intro v hv
  subst hv
  exact ⟨h.packRow hfree hbehind, rfl, rfl, rfl, rfl⟩

end Methods

end SparseVllm
