import Mathlib.Data.List.FinRange
import Mathlib.Data.List.Sort
import Mathlib.Order.BoundedOrder.Lattice
import Mathlib.Order.MinMax

/-!
# Selecting the largest values of a list

A `TopK` picks `k` positions of a list such that no position left out has a larger value. Between
equal values the choice is free: `TopK.favouring` is the one that takes a given position first. So
a position is picked by some choice as soon as fewer than `k` values are larger
(`mem_favouring`), and by none otherwise (`IsTopK.not_mem_of_outscored`).

`maxPool1d` is the maximum over a sliding window of a padded list. Padding is the bottom element, so
it only makes the windows at the ends shorter.
-/

namespace SparseVllm.Lib

variable {R : Type} [LinearOrder R]

/-! ## Top `k` -/

/-- `k` positions of the largest values, in decreasing order of value. -/
structure IsTopK (values : List R) (k : Nat) (picked : List (Fin values.length)) : Prop where
  length : picked.length = k
  nodup : picked.Nodup
  sorted : picked.Pairwise fun i j => values.get j ≤ values.get i
  maximal : ∀ i ∈ picked, ∀ j, j ∉ picked → values.get j ≤ values.get i

/-- A choice of the `k` largest values of every list. -/
structure TopK (R : Type) [LinearOrder R] where
  pick : (values : List R) → Nat → List (Fin values.length)
  spec : ∀ values k, k ≤ values.length → IsTopK values k (pick values k)

/-- The number of values larger than the one at `m`. -/
def outscoring (values : List R) (m : Fin values.length) : Nat :=
  (List.finRange values.length).countP fun i => decide (values.get m < values.get i)

theorem IsTopK.not_mem_of_outscored {values : List R} {k : Nat} {picked : List (Fin values.length)}
    (h : IsTopK values k picked) {m : Fin values.length} (hm : k ≤ outscoring values m) :
    m ∉ picked := by
  intro hpicked
  let larger := (List.finRange values.length).filter fun i => decide (values.get m < values.get i)
  have hsub : m :: larger ⊆ picked := by
    intro i hi
    rcases List.mem_cons.mp hi with rfl | hi
    · exact hpicked
    · have hlt : values.get m < values.get i := of_decide_eq_true (List.mem_filter.mp hi).2
      by_contra hout
      exact absurd (h.maximal m hpicked i hout) (not_le.mpr hlt)
  have hnodup : (m :: larger).Nodup := by
    refine List.nodup_cons.mpr ⟨fun hself => ?_, (List.nodup_finRange _).filter _⟩
    exact lt_irrefl _ (of_decide_eq_true (List.mem_filter.mp hself).2)
  have hle := (List.subperm_of_subset hnodup hsub).length_le
  have hcount : larger.length = outscoring values m := List.countP_eq_length_filter.symm
  rw [List.length_cons, hcount, h.length] at hle
  omega

/-- The order that takes position `m` first among equal values. -/
def takesBefore (values : List R) (m : Nat) (i j : Fin values.length) : Bool :=
  decide (values.get j < values.get i ∨ values.get i = values.get j ∧ (i.val = m ∨ j.val ≠ m))

theorem takesBefore_trans (values : List R) (m : Nat) (i j l : Fin values.length)
    (hij : takesBefore values m i j = true) (hjl : takesBefore values m j l = true) :
    takesBefore values m i l = true := by
  unfold takesBefore at hij hjl ⊢
  rw [decide_eq_true_eq] at hij hjl ⊢
  rcases hij with hij | ⟨hij, hi⟩
  · rcases hjl with hjl | ⟨hjl, -⟩
    · exact Or.inl (hjl.trans hij)
    · exact Or.inl (hjl ▸ hij)
  · rcases hjl with hjl | ⟨hjl, hj⟩
    · exact Or.inl (hij ▸ hjl)
    · refine Or.inr ⟨hij.trans hjl, ?_⟩
      omega

theorem takesBefore_total (values : List R) (m : Nat) (i j : Fin values.length) :
    (takesBefore values m i j || takesBefore values m j i) = true := by
  unfold takesBefore
  rw [Bool.or_eq_true, decide_eq_true_eq, decide_eq_true_eq]
  rcases lt_trichotomy (values.get i) (values.get j) with hlt | heq | hlt
  · exact Or.inr (Or.inl hlt)
  · by_cases hi : i.val = m
    · exact Or.inl (Or.inr ⟨heq, Or.inl hi⟩)
    · exact Or.inr (Or.inr ⟨heq.symm, Or.inr hi⟩)
  · exact Or.inl (Or.inl hlt)

theorem le_of_takesBefore {values : List R} {m : Nat} {i j : Fin values.length}
    (h : takesBefore values m i j = true) : values.get j ≤ values.get i := by
  rcases of_decide_eq_true h with hlt | ⟨heq, -⟩
  · exact hlt.le
  · exact heq.ge

/-- The positions in the order that favours `m`. -/
def ranking (values : List R) (m : Nat) : List (Fin values.length) :=
  (List.finRange values.length).mergeSort (takesBefore values m)

theorem ranking_perm (values : List R) (m : Nat) :
    (ranking values m).Perm (List.finRange values.length) := List.mergeSort_perm _ _

theorem ranking_sorted (values : List R) (m : Nat) :
    (ranking values m).Pairwise fun i j => takesBefore values m i j = true :=
  List.pairwise_mergeSort (takesBefore_trans values m) (takesBefore_total values m) _

theorem ranking_nodup (values : List R) (m : Nat) : (ranking values m).Nodup :=
  (ranking_perm values m).nodup_iff.mpr (List.nodup_finRange _)

/-- What is taken comes before what is left. -/
theorem takesBefore_of_not_mem_take {values : List R} {m k : Nat} {i j : Fin values.length}
    (hi : i ∈ (ranking values m).take k) (hj : j ∉ (ranking values m).take k) :
    takesBefore values m i j = true := by
  have hsorted := ranking_sorted values m
  rw [← List.take_append_drop k (ranking values m), List.pairwise_append] at hsorted
  have hmem : j ∈ (ranking values m).take k ++ (ranking values m).drop k := by
    rw [List.take_append_drop]
    exact (ranking_perm values m).mem_iff.mpr (List.mem_finRange j)
  exact hsorted.2.2 i hi j ((List.mem_append.mp hmem).resolve_left hj)

/-- The choice that favours position `m`. -/
def TopK.favouring (m : Nat) : TopK R where
  pick values k := (ranking values m).take k
  spec values k hk := by
    constructor
    · rw [List.length_take, (ranking_perm values m).length_eq, List.length_finRange]
      omega
    · exact (ranking_nodup values m).sublist (List.take_sublist _ _)
    · exact ((ranking_sorted values m).sublist (List.take_sublist _ _)).imp
        fun h => le_of_takesBefore h
    · exact fun i hi j hj => le_of_takesBefore (takesBefore_of_not_mem_take hi hj)

theorem mem_favouring {values : List R} {m : Fin values.length} {k : Nat}
    (hk : k ≤ values.length) (hm : outscoring values m < k) :
    m ∈ (TopK.favouring m.val).pick values k := by
  by_contra hout
  have hspec := (TopK.favouring (R := R) m.val).spec values k hk
  have hsub : (TopK.favouring m.val).pick values k ⊆
      (List.finRange values.length).filter fun i => decide (values.get m < values.get i) := by
    intro i hi
    refine List.mem_filter.mpr ⟨List.mem_finRange i, decide_eq_true ?_⟩
    rcases of_decide_eq_true (takesBefore_of_not_mem_take hi hout) with hlt | ⟨-, hself | hself⟩
    · exact hlt
    · exact absurd (Fin.ext hself ▸ hi) hout
    · exact absurd rfl hself
  have hle := (List.subperm_of_subset hspec.nodup hsub).length_le
  rw [hspec.length, ← List.countP_eq_length_filter] at hle
  unfold outscoring at hm
  omega

/-! ## Max pooling -/

variable [OrderBot R]

/-- The window of a list at position `i` of the padded list. -/
def window (kernel padding : Nat) (values : List R) (i : Nat) : List R :=
  (values.take (i + kernel - padding)).drop (i - padding)

/-- `max_pool1d` with stride 1. -/
def maxPool1d (kernel padding : Nat) (values : List R) : List R :=
  (List.range (values.length + 2 * padding + 1 - kernel)).map fun i =>
    (window kernel padding values i).foldr max ⊥

@[simp] theorem length_maxPool1d (kernel padding : Nat) (values : List R) :
    (maxPool1d kernel padding values).length = values.length + 2 * padding + 1 - kernel := by
  simp [maxPool1d]

theorem get_maxPool1d {kernel padding : Nat} {values : List R}
    (i : Fin (maxPool1d kernel padding values).length) :
    (maxPool1d kernel padding values).get i =
      (window kernel padding values i.val).foldr max ⊥ := by
  rw [List.get_eq_getElem]
  simp only [maxPool1d, List.getElem_map, List.getElem_range]

theorem lt_foldr_max_iff {x : R} {l : List R} : x < l.foldr max ⊥ ↔ ∃ y ∈ l, x < y := by
  induction l with
  | nil => simp
  | cons a l ih => simp [ih]

theorem foldr_max_lt_iff {x : R} {l : List R} (hl : l ≠ []) :
    l.foldr max ⊥ < x ↔ ∀ y ∈ l, y < x := by
  induction l with
  | nil => exact absurd rfl hl
  | cons a l ih =>
    rcases List.eq_nil_or_concat l with rfl | ⟨l', b, rfl⟩
    · simp only [List.foldr_cons, List.foldr_nil, max_bot_right, List.mem_singleton, forall_eq]
    · simp only [List.foldr_cons, max_lt_iff, ih (by simp), List.forall_mem_cons]

end SparseVllm.Lib
