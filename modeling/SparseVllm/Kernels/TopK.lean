import Mathlib

/-!
# `torch.topk`

The selections of `QuestCacheManager` and of OmniKV take the columns of the largest values of a row,
in the order `torch.topk` happens to return them; a masked value is the least one.
-/

namespace SparseVllm

/-- `torch.topk(k)` of one row: distinct columns, none of the others with a larger value. -/
structure TopK (S : Type) [LinearOrder S] where
  indices : Nat → List (WithBot S) → List Nat
  length : ∀ {k values}, k ≤ values.length → (indices k values).length = k
  nodup : ∀ {k values}, (indices k values).Nodup
  lt : ∀ {k values col}, col ∈ indices k values → col < values.length
  dominates : ∀ {k values col other}, col ∈ indices k values → other < values.length →
    other ∉ indices k values → values.getD other ⊥ ≤ values.getD col ⊥

/-- Sort the columns by value, and take the first. -/
def stableTopK (S : Type) [LinearOrder S] : TopK S where
  indices k values := ((List.range values.length).insertionSort
    fun i j => values.getD j ⊥ ≤ values.getD i ⊥).take k
  length h := by
    rw [List.length_take, List.length_insertionSort, List.length_range]
    exact min_eq_left h
  nodup := ((List.perm_insertionSort _ _).nodup_iff.mpr List.nodup_range).sublist
    (List.take_sublist _ _)
  lt h := List.mem_range.mp ((List.mem_insertionSort _).mp (List.mem_of_mem_take h))
  dominates {k values col other} hcol hother hout := by
    have : Std.Total fun i j : Nat => values.getD j ⊥ ≤ values.getD i ⊥ := ⟨fun i j => le_total _ _⟩
    have : IsTrans Nat fun i j => values.getD j ⊥ ≤ values.getD i ⊥ := ⟨fun i j l h h' => h'.trans h⟩
    have hsorted := List.pairwise_insertionSort (fun i j => values.getD j ⊥ ≤ values.getD i ⊥)
      (List.range values.length)
    have hmem := (List.mem_insertionSort fun i j => values.getD j ⊥ ≤ values.getD i ⊥).mpr
      (List.mem_range.mpr hother)
    rw [← List.take_append_drop k (List.insertionSort _ _)] at hsorted hmem
    exact (List.pairwise_append.mp hsorted).2.2 col hcol other
      ((List.mem_append.mp hmem).resolve_left hout)

namespace TopK

variable {S : Type} [LinearOrder S] {topk : TopK S} {k r : Nat} {values : List (WithBot S)}

/-- When enough values are not masked, none that is masked is taken. -/
theorem lt_of_mem (hmask : ∀ j, values.getD j ⊥ ≠ ⊥ ↔ j < r) (hr : r ≤ values.length) (hk : k ≤ r)
    {col : Nat} (hcol : col ∈ topk.indices k values) : col < r := by
  by_contra hout
  have hbot : values.getD col ⊥ = ⊥ := by
    by_contra hne
    exact hout ((hmask col).mp hne)
  have hall : ∀ j < r, j ∈ topk.indices k values := by
    intro j hj
    by_contra hmissed
    have hle := topk.dominates hcol (hj.trans_le hr) hmissed
    rw [hbot, le_bot_iff] at hle
    exact (hmask j).mpr hj hle
  have hnodup : (col :: List.range r).Nodup :=
    List.nodup_cons.mpr ⟨fun hin => hout (List.mem_range.mp hin), List.nodup_range⟩
  have hsubset : (col :: List.range r) ⊆ topk.indices k values := by
    intro j hj
    rcases List.mem_cons.mp hj with rfl | hj
    · exact hcol
    · exact hall j (List.mem_range.mp hj)
  have hle := (List.subperm_of_subset hnodup hsubset).length_le
  rw [List.length_cons, List.length_range, topk.length (hk.trans hr)] at hle
  omega

/-- The value of the column is masked. -/
def masked (values : List (WithBot S)) (col : Nat) : Bool := decide (values.getD col ⊥ = ⊥)

theorem masked_iff {col : Nat} : masked values col = true ↔ values.getD col ⊥ = ⊥ := decide_eq_true_iff

/-- The order that lists the masked columns first. -/
def maskedFirst (topk : TopK S) : TopK S where
  indices k values := (topk.indices k values).filter (masked values) ++
    (topk.indices k values).filter fun col => !masked values col
  length {k values} h := by
    rw [(List.filter_append_perm (masked values) _).length_eq, topk.length h]
  nodup {k values} := (List.filter_append_perm (masked values) _).nodup_iff.mpr topk.nodup
  lt {k values col} h := topk.lt ((List.filter_append_perm (masked values) _).mem_iff.mp h)
  dominates {k values col other} h hlt hout :=
    topk.dominates ((List.filter_append_perm (masked values) _).mem_iff.mp h) hlt
      (mt (List.filter_append_perm (masked values) _).mem_iff.mpr hout)

/-- When not enough values are unmasked, it starts with a masked one. -/
theorem exists_masked_head (topk : TopK S) (hmask : ∀ j, values.getD j ⊥ ≠ ⊥ ↔ j < r)
    (hk : k ≤ values.length) (hr : r < k) :
    ∃ col rest, topk.maskedFirst.indices k values = col :: rest ∧ r ≤ col := by
  have hsome : (topk.indices k values).filter (masked values) ≠ [] := by
    intro hnil
    have hsubset : topk.indices k values ⊆ List.range r := by
      intro col hcol
      have hne := List.filter_eq_nil_iff.mp hnil col hcol
      exact List.mem_range.mpr ((hmask col).mp (mt masked_iff.mpr hne))
    have hle := (List.subperm_of_subset topk.nodup hsubset).length_le
    rw [List.length_range, topk.length hk] at hle
    omega
  obtain ⟨col, rest, hcons⟩ := List.exists_cons_of_ne_nil hsome
  have hcol : col ∈ (topk.indices k values).filter (masked values) := hcons ▸ List.mem_cons_self
  have hbot := masked_iff.mp (List.mem_filter.mp hcol).2
  refine ⟨col, rest ++ (topk.indices k values).filter fun col => !masked values col, ?_, ?_⟩
  · show (topk.indices k values).filter (masked values) ++ _ = _
    rw [hcons]
    rfl
  · by_contra hlt
    exact (hmask col).mpr (not_le.mp hlt) hbot

end TopK

end SparseVllm
