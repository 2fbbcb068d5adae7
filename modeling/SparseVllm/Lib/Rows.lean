import Mathlib.Data.List.GetD
import Mathlib.Data.List.Range
import Mathlib.Logic.Function.Basic
import SparseVllm.Lib.Program
import SparseVllm.Lib.Tensor

/-!
# Rows that are rewritten in tiles

A row is a list of fixed length. `overwrite` writes a range of it, `gather` reads the entries at some
positions and `without` the entries at all others. `tiles` cuts a range into ranges of one size, the
last one ragged, and `Spec.forTiles` is the loop rule over them.
-/

namespace SparseVllm.Lib

variable {ε σ α : Type}

/-- `row[start : start + len(xs)] = xs`. -/
def overwrite (start : Nat) (xs row : List α) : List α :=
  row.take start ++ xs ++ row.drop (start + xs.length)

/-- `row[start : stop]`. -/
def between (start stop : Nat) (row : List α) : List α := (row.take stop).drop start

/-- `row[keep]`. -/
def gather (d : α) (keep : List Nat) (row : List α) : List α := keep.map fun i => row.getD i d

/-- `row[mask]`, with the mask false at `keep`. -/
def without (d : α) (keep : List Nat) (row : List α) : List α :=
  gather d ((List.range row.length).filter (· ∉ keep)) row

/-- `torch.searchsorted(keep, value)`. -/
def searchsorted (keep : List Nat) (value : Nat) : Nat := (keep.takeWhile (· < value)).length

/-- Each write `(i, x)` replaces `table[i]` by `g x table[i]`. -/
def scatter {β : Type} (g : β → α → α) (writes : List (Nat × β)) (table : Nat → α) : Nat → α :=
  writes.foldl (fun t p => Function.update t p.1 (g p.2 (t p.1))) table

/-- `(start, min(n, start + tile))` for `start in range(0, n, tile)`. -/
def tiles (n tile : Nat) : List (Nat × Nat) :=
  (List.range (ceilDiv n tile)).map fun k => (k * tile, min n (k * tile + tile))

/-! ## Writing -/

@[simp] theorem length_overwrite {start : Nat} {xs row : List α}
    (h : start + xs.length ≤ row.length) : (overwrite start xs row).length = row.length := by
  unfold overwrite
  rw [List.length_append, List.length_append, List.length_take, List.length_drop]
  omega

@[simp] theorem overwrite_nil (start : Nat) (row : List α) : overwrite start [] row = row := by
  unfold overwrite
  simp

/-- What is before the end of a write. -/
theorem take_overwrite {start : Nat} {xs row : List α} (h : start ≤ row.length) :
    (overwrite start xs row).take (start + xs.length) = row.take start ++ xs := by
  unfold overwrite
  rw [List.take_append_of_le_length (by simp [h])]
  exact List.take_of_length_le (by simp [h])

theorem drop_overwrite {start : Nat} {xs row : List α} (h : start ≤ row.length) :
    (overwrite start xs row).drop (start + xs.length) = row.drop (start + xs.length) := by
  unfold overwrite
  rw [List.drop_append_of_le_length (by simp [h])]
  rw [List.drop_of_length_le (by simp [h]), List.nil_append]

/-- What is past a write. -/
theorem drop_overwrite_of_le {start stop : Nat} {xs row : List α} (h : start ≤ row.length)
    (hstop : start + xs.length ≤ stop) : (overwrite start xs row).drop stop = row.drop stop := by
  have hend : (overwrite start xs row).drop (start + xs.length) = _ := drop_overwrite h
  have hskip := congrArg (List.drop (stop - (start + xs.length))) hend
  rwa [List.drop_drop, List.drop_drop, Nat.add_sub_cancel' hstop] at hskip

theorem getElem?_overwrite {start : Nat} {xs row : List α} (h : start + xs.length ≤ row.length)
    (p : Nat) : (overwrite start xs row)[p]? =
      if start ≤ p ∧ p < start + xs.length then xs[p - start]? else row[p]? := by
  have htake : (row.take start).length = start := by
    rw [List.length_take]
    omega
  unfold overwrite
  rw [List.append_assoc]
  by_cases hbefore : p < start
  · rw [if_neg (by omega), List.getElem?_append_left (by omega), List.getElem?_take, if_pos hbefore]
  · rw [List.getElem?_append_right (by omega), htake]
    by_cases hin : p < start + xs.length
    · rw [if_pos ⟨by omega, hin⟩, List.getElem?_append_left (by omega)]
    · rw [if_neg (fun h => hin h.2), List.getElem?_append_right (by omega), List.getElem?_drop]
      exact congrArg (row[·]?) (by omega)

/-- Two writes side by side are one. -/
theorem overwrite_append {start : Nat} {xs ys row : List α} (h : start + xs.length ≤ row.length) :
    overwrite (start + xs.length) ys (overwrite start xs row) = overwrite start (xs ++ ys) row := by
  have hstart : start ≤ row.length := by omega
  rw [overwrite, take_overwrite hstart]
  have hdrop : (overwrite start xs row).drop (start + xs.length + ys.length) =
      row.drop (start + xs.length + ys.length) := by
    rw [← List.drop_drop, drop_overwrite hstart, List.drop_drop]
  rw [hdrop, overwrite, List.length_append, ← List.append_assoc, Nat.add_assoc]

theorem length_between {start stop : Nat} {row : List α} (h : stop ≤ row.length) :
    (between start stop row).length = stop - start := by
  unfold between
  rw [List.length_drop, List.length_take, Nat.min_eq_left h]

theorem getD_between {start stop i : Nat} (d : α) (row : List α) (h : start + i < stop) :
    (between start stop row).getD i d = row.getD (start + i) d := by
  unfold between
  simp only [List.getD_eq_getElem?_getD, List.getElem?_drop, List.getElem?_take, if_pos h]

/-- A range of a row, entry by entry. -/
theorem between_eq_map {start n : Nat} (d : α) {row : List α} (h : start + n ≤ row.length) :
    between start (start + n) row = (List.range n).map fun i => row.getD (start + i) d := by
  have hlen : (between start (start + n) row).length = n := by
    rw [length_between h]
    omega
  apply List.ext_getElem
  · rw [hlen, List.length_map, List.length_range]
  · intro i hi _
    have hin : i < n := hlen ▸ hi
    rw [List.getElem_map, List.getElem_range, ← getD_between d row (Nat.add_lt_add_left hin start),
      List.getD_eq_getElem _ _ hi]

theorem overwrite_zero (xs row : List α) : overwrite 0 xs row = xs ++ row.drop xs.length := by
  unfold overwrite
  rw [List.take_zero, List.nil_append, Nat.zero_add]

theorem between_map {β : Type} (f : α → β) (start stop : Nat) (row : List α) :
    between start stop (row.map f) = (between start stop row).map f := by
  unfold between
  rw [List.map_drop, List.map_take]

theorem take_append_between {start stop : Nat} (h : start ≤ stop) (row : List α) :
    row.take start ++ between start stop row = row.take stop := by
  unfold between
  rw [show row.take start = (row.take stop).take start by rw [List.take_take, Nat.min_eq_left h]]
  exact List.take_append_drop start (row.take stop)

theorem mem_of_mem_between {start stop : Nat} {a : α} {row : List α}
    (h : a ∈ between start stop row) : a ∈ row :=
  List.mem_of_mem_take (List.mem_of_mem_drop h)

variable {β : Type} {g : β → α → α} {writes : List (Nat × β)} {table : Nat → α}

theorem scatter_append (writes writes' : List (Nat × β)) (table : Nat → α) :
    scatter g (writes ++ writes') table = scatter g writes' (scatter g writes table) :=
  List.foldl_append

theorem scatter_of_notMem {i : Nat} (h : i ∉ writes.map Prod.fst) :
    scatter g writes table i = table i := by
  unfold scatter
  induction writes generalizing table with
  | nil => rfl
  | cons p writes ih =>
    rw [List.map_cons, List.mem_cons, not_or] at h
    rw [List.foldl_cons, ih h.2, Function.update_of_ne h.1]

theorem scatter_of_mem (table : Nat → α) (hnodup : (writes.map Prod.fst).Nodup) {p : Nat × β} (h : p ∈ writes) :
    scatter g writes table p.1 = g p.2 (table p.1) := by
  induction writes generalizing table with
  | nil => cases h
  | cons q writes ih =>
    obtain ⟨hnot, hnodup⟩ := List.nodup_cons.mp hnodup
    show scatter g writes (Function.update table q.1 (g q.2 (table q.1))) p.1 = _
    rcases List.mem_cons.mp h with rfl | h
    · rw [scatter_of_notMem hnot, Function.update_self]
    · have hne : p.1 ≠ q.1 := fun heq => hnot (heq ▸ List.mem_map_of_mem h)
      rw [ih _ hnodup h, Function.update_of_ne hne]

/-! ## Kept and dropped entries -/

variable {d : α} {keep : List Nat} {row : List α}

@[simp] theorem length_gather (d : α) (keep : List Nat) (row : List α) :
    (gather d keep row).length = keep.length := List.length_map _

@[simp] theorem gather_append (d : α) (keep keep' : List Nat) (row : List α) :
    gather d (keep ++ keep') row = gather d keep row ++ gather d keep' row := List.map_append

theorem gather_range (d : α) (row : List α) : gather d (List.range row.length) row = row := by
  unfold gather
  apply List.ext_getElem
  · simp
  · intro i h h'
    rw [List.getElem_map, List.getElem_range, List.getD_eq_getElem _ _ h']

/-- A range of positions reads a range of the row. -/
theorem gather_range' {start n : Nat} (h : start + n ≤ row.length) :
    gather d (List.range' start n) row = between start (start + n) row := by
  rw [between_eq_map d h, gather, List.range'_eq_map_range, List.map_map]
  rfl

/-- Kept and dropped positions are all positions. -/
theorem keep_append_perm {n : Nat} (nodup : keep.Nodup) (inRange : ∀ i ∈ keep, i < n) :
    (keep ++ (List.range n).filter (· ∉ keep)).Perm (List.range n) := by
  refine (List.perm_ext_iff_of_nodup ?_ List.nodup_range).mpr fun i => ?_
  · refine List.nodup_append.mpr ⟨nodup, List.nodup_range.filter _, ?_⟩
    rintro i hi j hj rfl
    simp_all
  · simp only [List.mem_append, List.mem_filter, List.mem_range, decide_eq_true_eq]
    constructor
    · rintro (hi | ⟨hi, _⟩)
      · exact inRange i hi
      · exact hi
    · intro hi
      by_cases hk : i ∈ keep
      · exact Or.inl hk
      · exact Or.inr ⟨hi, hk⟩

/-- Kept and dropped entries are all entries. -/
theorem gather_without_perm (nodup : keep.Nodup) (inRange : ∀ i ∈ keep, i < row.length) :
    (gather d keep row ++ without d keep row).Perm row := by
  unfold without
  rw [← gather_append]
  have h := (keep_append_perm nodup inRange).map fun i => row.getD i d
  exact h.trans (by rw [show (List.range row.length).map (fun i => row.getD i d) = row from
    gather_range d row])

theorem length_without (nodup : keep.Nodup) (inRange : ∀ i ∈ keep, i < row.length) :
    (without d keep row).length = row.length - keep.length := by
  have h := (gather_without_perm (d := d) nodup inRange).length_eq
  rw [List.length_append, length_gather] at h
  omega

theorem length_le_of_nodup {n : Nat} (nodup : keep.Nodup) (inRange : ∀ i ∈ keep, i < n) :
    keep.length ≤ n := by
  have h := (keep_append_perm nodup inRange).length_eq
  rw [List.length_append, List.length_range] at h
  omega

theorem gather_congr {row row' : List α} (h : ∀ i ∈ keep, row.getD i d = row'.getD i d) :
    gather d keep row = gather d keep row' := List.map_congr_left h

theorem getD_take {n i : Nat} (h : i < n) (d : α) (row : List α) :
    (row.take n).getD i d = row.getD i d := by
  rw [List.getD_eq_getElem?_getD, List.getElem?_take, if_pos h, List.getD_eq_getElem?_getD]

/-! ## Increasing positions -/

/-- An increasing list is above its positions. -/
theorem le_of_mem_drop (h : keep.Pairwise (· < ·)) {start i : Nat} (hi : i ∈ keep.drop start) :
    start ≤ i := by
  have hbase : ∀ (keep : List Nat) (base start : Nat), keep.Pairwise (· < ·) →
      (∀ i ∈ keep, base ≤ i) → ∀ i ∈ keep.drop start, base + start ≤ i := by
    intro keep
    induction keep with
    | nil => simp
    | cons k keep ih =>
      intro base start h hle i hi
      obtain ⟨hlt, h⟩ := List.pairwise_cons.mp h
      have hk := hle k List.mem_cons_self
      cases start with
      | zero => exact hle i hi
      | succ start =>
        have := ih (base + 1) start h (fun j hj => by have := hlt j hj; omega) i hi
        omega
  have := hbase keep 0 start h (fun _ _ => Nat.zero_le _) i hi
  omega

theorem mem_takeWhile_lt (h : keep.Pairwise (· < ·)) {stop i : Nat} :
    i ∈ keep.takeWhile (· < stop) ↔ i ∈ keep ∧ i < stop := by
  induction keep with
  | nil => simp
  | cons k keep ih =>
    obtain ⟨hlt, h⟩ := List.pairwise_cons.mp h
    rw [List.takeWhile_cons]
    by_cases hk : k < stop
    · rw [if_pos (by simpa using hk), List.mem_cons, ih h, List.mem_cons]
      constructor
      · rintro (rfl | ⟨hi, hs⟩)
        · exact ⟨Or.inl rfl, hk⟩
        · exact ⟨Or.inr hi, hs⟩
      · rintro ⟨rfl | hi, hs⟩
        · exact Or.inl rfl
        · exact Or.inr ⟨hi, hs⟩
    · rw [if_neg (by simpa using hk)]
      refine iff_of_false List.not_mem_nil ?_
      rintro ⟨hi, hs⟩
      rcases List.mem_cons.mp hi with rfl | hi
      · exact hk hs
      · have := hlt i hi
        omega

/-- The positions of a tile. -/
theorem mem_between_searchsorted (h : keep.Pairwise (· < ·)) {start stop i : Nat}
    (hle : start ≤ stop) : i ∈ between (searchsorted keep start) (searchsorted keep stop) keep ↔
      i ∈ keep ∧ start ≤ i ∧ i < stop := by
  unfold searchsorted between
  rw [List.prefix_iff_eq_take.mp (List.takeWhile_prefix _) |>.symm]
  induction keep with
  | nil => simp
  | cons k keep ih =>
    have hmem : i ∈ (k :: keep).takeWhile (· < stop) ↔ _ := mem_takeWhile_lt h
    obtain ⟨hlt, h'⟩ := List.pairwise_cons.mp h
    by_cases hk : k < start
    · have hks : k < stop := by omega
      rw [List.takeWhile_cons_of_pos (by simpa using hk),
        List.takeWhile_cons_of_pos (by simpa using hks), List.length_cons, List.drop_succ_cons,
        ih h', List.mem_cons]
      constructor
      · rintro ⟨hi, hs⟩
        exact ⟨Or.inr hi, hs⟩
      · rintro ⟨rfl | hi, hs⟩
        · omega
        · exact ⟨hi, hs⟩
    · rw [List.takeWhile_cons_of_neg (by simpa using hk), List.length_nil, List.drop_zero, hmem]
      refine and_congr_right fun hi => (and_iff_right ?_).symm
      rcases List.mem_cons.mp hi with rfl | hi
      · omega
      · have := hlt i hi
        omega

/-- The entries of `row[start:stop]` that are not kept. -/
def dropped (d : α) (keep : List Nat) (start stop : Nat) (row : List α) : List α :=
  gather d ((List.range' start (stop - start)).filter (· ∉ keep)) row

theorem dropped_append {start stop : Nat} (h : start ≤ stop) (d : α) (keep : List Nat)
    (row : List α) : dropped d keep 0 start row ++ dropped d keep start stop row =
      dropped d keep 0 stop row := by
  unfold dropped
  rw [← gather_append, ← List.filter_append, Nat.sub_zero, Nat.sub_zero]
  have hrange : List.range' 0 start ++ List.range' start (stop - start) = List.range' 0 stop := by
    have happend : List.range' 0 start ++ List.range' (0 + start) (stop - start) = _ :=
      List.range'_append_1
    rw [Nat.zero_add, Nat.add_sub_cancel' h] at happend
    exact happend
  rw [hrange]

/-- All dropped entries of the first `n`. -/
theorem dropped_all {n : Nat} (h : n ≤ row.length) :
    dropped d keep 0 n row = without d keep (row.take n) := by
  unfold dropped without
  rw [List.length_take, Nat.min_eq_left h, Nat.sub_zero, ← List.range_eq_range']
  refine gather_congr fun i hi => (getD_take ?_ d row).symm
  exact List.mem_range.mp (List.mem_filter.mp hi).1

/-- A tile drops its own entries, by positions relative to it. -/
theorem without_tile (h : keep.Pairwise (· < ·)) {start stop : Nat} (hle : start ≤ stop)
    (hstop : stop ≤ row.length) :
    without d ((between (searchsorted keep start) (searchsorted keep stop) keep).map (· - start))
      (between start stop row) = dropped d keep start stop row := by
  unfold without dropped gather
  rw [length_between hstop, List.range'_eq_map_range, List.filter_map, List.map_map]
  have hfilter : (List.range (stop - start)).filter (fun j => decide (j ∉
        (between (searchsorted keep start) (searchsorted keep stop) keep).map (· - start))) =
      (List.range (stop - start)).filter ((fun i => decide (i ∉ keep)) ∘ (start + ·)) := by
    refine List.filter_congr fun j hj => ?_
    have hj := List.mem_range.mp hj
    refine decide_eq_decide.mpr (not_congr ?_)
    rw [List.mem_map]
    constructor
    · rintro ⟨i, hi, rfl⟩
      obtain ⟨hi, hs, -⟩ := (mem_between_searchsorted h hle).mp hi
      show start + (i - start) ∈ keep
      rwa [Nat.add_sub_cancel' hs]
    · intro hi
      exact ⟨start + j, (mem_between_searchsorted h hle).mpr ⟨hi, by omega, by omega⟩, by omega⟩
  rw [hfilter]
  refine List.map_congr_left fun j hj => getD_between d row ?_
  have := List.mem_range.mp (List.mem_filter.mp hj).1
  omega

/-- One tile of a compaction in place: it reads only entries that are not rewritten yet. -/
theorem overwrite_gather_tile (h : keep.Pairwise (· < ·)) {start stop : Nat} (hle : start ≤ stop)
    (hstop : stop ≤ keep.length) :
    overwrite start
        (gather d (between start stop keep) (gather d (keep.take start) row ++ row.drop start))
        (gather d (keep.take start) row ++ row.drop start) =
      gather d (keep.take stop) row ++ row.drop stop := by
  have hlen : (gather d (keep.take start) row).length = start := by
    rw [length_gather, List.length_take]
    omega
  have hread : gather d (between start stop keep) (gather d (keep.take start) row ++ row.drop start) =
      gather d (between start stop keep) row := by
    refine gather_congr fun i hi => ?_
    have hstart : start ≤ i := le_of_mem_drop h
      (List.mem_of_mem_take (by rwa [between, List.drop_take] at hi))
    simp only [List.getD_eq_getElem?_getD]
    rw [List.getElem?_append_right (hlen.le.trans hstart), hlen, List.getElem?_drop,
      Nat.add_sub_cancel' hstart]
  have hwritten : start + (gather d (between start stop keep) row).length = stop := by
    rw [length_gather, length_between hstop]
    omega
  rw [hread, overwrite, hwritten, List.take_left' hlen, ← gather_append,
    take_append_between hle]
  congr 1
  rw [List.drop_append, hlen, List.drop_of_length_le (by omega), List.nil_append, List.drop_drop,
    Nat.add_sub_cancel' hle]

/-! ## Tiles -/

theorem mul_lt_of_lt_ceilDiv {n tile k : Nat} (h : k < ceilDiv n tile) : k * tile < n := by
  unfold ceilDiv at h
  rcases Nat.eq_zero_or_pos tile with rfl | hpos
  · simp at h
  · have hle : (k + 1) * tile ≤ n + tile - 1 :=
      (Nat.mul_le_mul_right tile h).trans (Nat.div_mul_le_self _ _)
    rw [Nat.succ_mul] at hle
    omega

theorem le_ceilDiv_mul {n tile : Nat} (hpos : 0 < tile) : n ≤ ceilDiv n tile * tile := by
  unfold ceilDiv
  have := Nat.div_add_mod (n + tile - 1) tile
  have := Nat.mod_lt (n + tile - 1) hpos
  rw [Nat.mul_comm]
  omega

/-- Tiles do not overlap. -/
theorem tiles_pairwise (n tile : Nat) : (tiles n tile).Pairwise fun p q => p.2 ≤ q.1 := by
  unfold tiles
  rw [List.pairwise_map]
  refine List.pairwise_lt_range.imp fun {j k} hlt => ?_
  have hle : (j + 1) * tile ≤ k * tile := Nat.mul_le_mul_right tile hlt
  rw [Nat.succ_mul] at hle
  exact (Nat.min_le_right _ _).trans hle

theorem le_of_mem_tiles {n tile : Nat} {p : Nat × Nat} (h : p ∈ tiles n tile) :
    p.1 ≤ p.2 ∧ p.2 ≤ n := by
  obtain ⟨k, hk, rfl⟩ := List.mem_map.mp h
  have hlt := mul_lt_of_lt_ceilDiv (List.mem_range.mp hk)
  exact ⟨le_min hlt.le (Nat.le_add_right _ _), Nat.min_le_left _ _⟩

/-- The loop rule: `I` holds of the part of the range that is done. -/
theorem Spec.forTiles {n tile : Nat} {I : Nat → σ → Prop} {E : ε → σ → Prop}
    {body : Nat × Nat → EStateM ε σ Unit} (hpos : 0 < tile)
    (hbody : ∀ start, start < n → Spec (I start) (body (start, min n (start + tile)))
      (fun _ => I (min n (start + tile))) E) :
    Spec (I 0) (Lib.forEach (tiles n tile) body) (fun _ => I n) E := by
  have hloop : ∀ m k, k + m = ceilDiv n tile →
      Spec (I (min n (k * tile)))
        (Lib.forEach ((List.range' k m).map fun k => (k * tile, min n (k * tile + tile))) body)
        (fun _ => I n) E := by
    intro m
    induction m with
    | zero =>
      intro k hk s hs
      rw [show k = ceilDiv n tile from hk, Nat.min_eq_left (le_ceilDiv_mul hpos)] at hs
      exact hs
    | succ m ih =>
      intro k hk
      have hlt : k * tile < n := mul_lt_of_lt_ceilDiv (by omega)
      rw [Nat.min_eq_right hlt.le, List.range'_succ, List.map_cons]
      have hnext := ih (k + 1) (by omega)
      rw [Nat.succ_mul] at hnext
      exact Spec.bind (hbody _ hlt) fun _ => hnext
  have h := hloop (ceilDiv n tile) 0 (Nat.zero_add _)
  rw [Nat.zero_mul, Nat.min_zero, ← List.range_eq_range'] at h
  exact h

end SparseVllm.Lib
