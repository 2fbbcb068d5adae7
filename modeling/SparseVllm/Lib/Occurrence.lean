import Mathlib.Data.List.Infix
import Mathlib.Data.List.MinMax

/-!
# Stop words in a growing text

A text grows at its end, and is to be cut where the first stop word starts. `Settled stop text n` says
that no stop word starts before `n`, whatever follows the text; so its first `n` entries can be shown.
`safeLen` is the longest such prefix of a text without a stop word (`settled_safeLen`, `le_safeLen`).
-/

namespace SparseVllm.Lib

variable {α : Type} {stop : List (List α)} {text text' item : List α} {i n : Nat}

/-- A stop word starts at `i`. -/
def StopAt (stop : List (List α)) (text : List α) (i : Nat) : Prop :=
  ∃ item ∈ stop, item ≠ [] ∧ item <+: text.drop i

/-- No stop word starts before `n`, whatever follows the text. -/
def Settled (stop : List (List α)) (text : List α) (n : Nat) : Prop :=
  ∀ text', text <+: text' → ∀ i < n, ¬ StopAt stop text' i

theorem prefix_drop (h : text <+: text') (i : Nat) : text.drop i <+: text'.drop i := by
  obtain ⟨rest, rfl⟩ := h
  rw [List.drop_append]
  exact List.prefix_append _ _

theorem StopAt.mono (h : StopAt stop text i) (hle : text <+: text') : StopAt stop text' i := by
  obtain ⟨item, hmem, hne, hat⟩ := h
  exact ⟨item, hmem, hne, hat.trans (prefix_drop hle i)⟩

theorem StopAt.lt (h : StopAt stop text i) : i < text.length := by
  obtain ⟨item, -, hne, hat⟩ := h
  have hlen := hat.length_le
  rw [List.length_drop] at hlen
  have := List.length_pos_of_ne_nil hne
  omega

theorem Settled.mono (h : Settled stop text n) (hle : text <+: text') : Settled stop text' n :=
  fun _ hle' => h _ (hle.trans hle')

theorem settled_zero (stop : List (List α)) (text : List α) : Settled stop text 0 :=
  fun _ _ _ h => absurd h (Nat.not_lt_zero _)

/-- The end of a text that is the start of a word. -/
theorem drop_eq_take {o : Nat} (hends : item.take o <:+ text) (ho : o ≤ item.length) :
    text.drop (text.length - o) = item.take o := by
  have hlen : (item.take o).length = o := by
    rw [List.length_take]
    omega
  have hdrop := List.suffix_iff_eq_drop.mp hends
  rw [hlen] at hdrop
  exact hdrop.symm

variable [DecidableEq α]

/-- The first position where `item` starts. -/
def find (text item : List α) : Option Nat :=
  (List.range (text.length + 1)).find? fun i => decide (item <+: text.drop i)

/-- The first position where a stop word starts. -/
def firstStop (text : List α) (stop : List (List α)) : Option Nat :=
  ((stop.filter (· ≠ [])).filterMap (find text)).min?

/-- The longest proper prefix of `item` that ends the text. -/
def overlap (text item : List α) : Nat :=
  (((List.range (min (item.length - 1) text.length)).map (· + 1)).reverse.find? fun o =>
    decide (item.take o <:+ text)).getD 0

/-- What of a text without a stop word can be shown. -/
def safeLen (text : List α) (stop : List (List α)) : Nat :=
  text.length - (stop.map (overlap text)).foldr max 0

/-! ## The first stop word -/

theorem find_eq_some_iff (hne : item ≠ []) : find text item = some i ↔
    item <+: text.drop i ∧ ∀ j < i, ¬ item <+: text.drop j := by
  unfold find
  rw [List.find?_range_eq_some]
  simp only [decide_eq_true_eq, List.mem_range, Bool.not_eq_true', decide_eq_false_iff_not]
  constructor
  · rintro ⟨hat, -, hbefore⟩
    exact ⟨hat, hbefore⟩
  · rintro ⟨hat, hbefore⟩
    have hlt : i < text.length := StopAt.lt ⟨item, List.mem_singleton_self item, hne, hat⟩
    exact ⟨hat, by omega, hbefore⟩

/-- The first position where a word starts is at or before every one. -/
theorem exists_find_le (hne : item ≠ []) (h : item <+: text.drop i) :
    ∃ j ≤ i, find text item = some j := by
  induction i using Nat.strong_induction_on with
  | _ i ih =>
    by_cases hbefore : ∃ j < i, item <+: text.drop j
    · obtain ⟨j, hlt, hj⟩ := hbefore
      obtain ⟨k, hle, hk⟩ := ih j hlt hj
      exact ⟨k, by omega, hk⟩
    · refine ⟨i, le_refl i, (find_eq_some_iff hne).mpr ⟨h, fun j hlt hj => hbefore ⟨j, hlt, hj⟩⟩⟩

theorem firstStop_eq_some_iff : firstStop text stop = some i ↔
    StopAt stop text i ∧ ∀ j < i, ¬ StopAt stop text j := by
  unfold firstStop
  rw [List.min?_eq_some_iff]
  simp only [List.mem_filterMap, List.mem_filter, decide_eq_true_eq]
  constructor
  · rintro ⟨⟨item, ⟨hmem, hne⟩, hfind⟩, hmin⟩
    refine ⟨⟨item, hmem, hne, ((find_eq_some_iff hne).mp hfind).1⟩, ?_⟩
    rintro j hlt ⟨item', hmem', hne', hat⟩
    obtain ⟨k, hle, hk⟩ := exists_find_le hne' hat
    have := hmin k ⟨item', ⟨hmem', hne'⟩, hk⟩
    omega
  · rintro ⟨⟨item, hmem, hne, hat⟩, hbefore⟩
    refine ⟨⟨item, ⟨hmem, hne⟩, (find_eq_some_iff hne).mpr ⟨hat, fun j hlt hj => ?_⟩⟩, ?_⟩
    · exact hbefore j hlt ⟨item, hmem, hne, hj⟩
    · rintro k ⟨item', ⟨hmem', hne'⟩, hk⟩
      by_contra hlt
      exact hbefore k (by omega) ⟨item', hmem', hne', ((find_eq_some_iff hne').mp hk).1⟩

theorem firstStop_eq_none_iff : firstStop text stop = none ↔ ∀ i, ¬ StopAt stop text i := by
  constructor
  · intro h i hi
    unfold firstStop at h
    rw [List.min?_eq_none_iff] at h
    obtain ⟨item, hmem, hne, hat⟩ := hi
    obtain ⟨j, -, hj⟩ := exists_find_le hne hat
    have hin : j ∈ (stop.filter (· ≠ [])).filterMap (find text) :=
      List.mem_filterMap.mpr ⟨item, List.mem_filter.mpr ⟨hmem, by simpa using hne⟩, hj⟩
    rw [h] at hin
    cases hin
  · intro h
    cases hfind : firstStop text stop with
    | none => rfl
    | some i => exact absurd (firstStop_eq_some_iff.mp hfind).1 (h i)

/-- A stop word is not lost as the text grows, and an earlier one may come. -/
theorem exists_firstStop_le (h : firstStop text stop = some i) (hle : text <+: text') :
    ∃ j ≤ i, firstStop text' stop = some j := by
  have hat := (firstStop_eq_some_iff.mp h).1.mono hle
  cases hfind : firstStop text' stop with
  | none => exact absurd hat (firstStop_eq_none_iff.mp hfind i)
  | some j =>
    refine ⟨j, ?_, rfl⟩
    by_contra hlt
    exact (firstStop_eq_some_iff.mp hfind).2 i (by omega) hat

/-! ## What can be shown -/

/-- The first stop word starts at or after what can be shown. -/
theorem Settled.le_firstStop (h : Settled stop text n) (hle : text <+: text')
    (hfind : firstStop text' stop = some i) : n ≤ i := by
  by_contra hlt
  exact h text' hle i (by omega) (firstStop_eq_some_iff.mp hfind).1

theorem le_overlap {o : Nat} (hpos : 0 < o) (hitem : o < item.length) (htext : o ≤ text.length)
    (hends : item.take o <:+ text) : o ≤ overlap text item := by
  unfold overlap
  have hin : o ∈ (List.range (min (item.length - 1) text.length)).map (· + 1) :=
    List.mem_map.mpr ⟨o - 1, List.mem_range.mpr (by omega), by omega⟩
  have hsorted : ((List.range (min (item.length - 1) text.length)).map (· + 1)).reverse.Pairwise
      (· > ·) := by
    rw [List.pairwise_reverse, List.pairwise_map]
    exact List.pairwise_lt_range.imp fun h => Nat.add_lt_add_right h 1
  revert hin hsorted
  rw [← List.mem_reverse]
  generalize ((List.range (min (item.length - 1) text.length)).map (· + 1)).reverse = os
  intro hin hsorted
  -- the search goes down, so it stops at `o` or before it
  induction os with
  | nil => cases hin
  | cons a os ih =>
    obtain ⟨hgt, hsorted⟩ := List.pairwise_cons.mp hsorted
    rw [List.find?_cons]
    by_cases ha : item.take a <:+ text
    · rw [decide_eq_true ha]
      rcases List.mem_cons.mp hin with rfl | hin
      · exact le_refl _
      · exact (hgt o hin).le
    · rw [decide_eq_false ha]
      rcases List.mem_cons.mp hin with rfl | hin
      · exact absurd hends ha
      · exact ih hin hsorted

/-- An overlap is one. -/
theorem overlap_spec (text item : List α) (h : overlap text item ≠ 0) :
    overlap text item < item.length ∧ overlap text item ≤ text.length ∧
      item.take (overlap text item) <:+ text := by
  unfold overlap at h ⊢
  cases hfind : ((List.range (min (item.length - 1) text.length)).map (· + 1)).reverse.find? fun o =>
      decide (item.take o <:+ text) with
  | none =>
    rw [hfind] at h
    exact absurd rfl h
  | some o =>
    obtain ⟨k, hk, rfl⟩ := List.mem_map.mp (List.mem_reverse.mp (List.mem_of_find?_eq_some hfind))
    have hlt := List.mem_range.mp hk
    have hends := List.find?_some hfind
    exact ⟨by show k + 1 < _; omega, by show k + 1 ≤ _; omega, of_decide_eq_true hends⟩

/-- What is before every overlap is settled. -/
theorem settled_safeLen (h : firstStop text stop = none) : Settled stop text (safeLen text stop) := by
  rintro text' hle i hlt ⟨item, hmem, hne, hat⟩
  have hnot := firstStop_eq_none_iff.mp h i
  have hmax : overlap text item ≤ (stop.map (overlap text)).foldr max 0 :=
    List.le_max_of_le' 0 (List.mem_map_of_mem hmem) le_rfl
  unfold safeLen at hlt
  have hrest : text.drop i <+: text'.drop i := prefix_drop hle i
  rcases List.prefix_or_prefix_of_prefix hat hrest with hshort | hlong
  · exact hnot ⟨item, hmem, hne, hshort⟩
  · have hproper : (text.drop i).length < item.length := by
      refine lt_of_le_of_ne hlong.length_le fun heq => ?_
      have hsame := hlong.eq_of_length heq
      exact hnot ⟨item, hmem, hne, hsame ▸ List.prefix_refl _⟩
    have htake : item.take (text.drop i).length = text.drop i :=
      (List.prefix_iff_eq_take.mp hlong).symm
    have hends : item.take (text.drop i).length <:+ text := by
      rw [htake]
      exact List.drop_suffix i text
    have hover : (text.drop i).length ≤ overlap text item := by
      refine le_overlap ?_ hproper ?_ hends
      · rw [List.length_drop]
        omega
      · rw [List.length_drop]
        omega
    rw [List.length_drop] at hover
    omega

/-- No more is settled. -/
theorem le_safeLen (h : Settled stop text n) (hn : n ≤ text.length) : n ≤ safeLen text stop := by
  by_contra hlt
  have hmax : ∃ item ∈ stop, text.length - overlap text item = safeLen text stop ∧
      overlap text item ≠ 0 := by
    unfold safeLen at hlt ⊢
    have hpos : (stop.map (overlap text)).foldr max 0 ≠ 0 := by omega
    clear hlt h
    induction stop with
    | nil => exact absurd rfl hpos
    | cons item stop ih =>
      rw [List.map_cons, List.foldr_cons] at hpos ⊢
      rcases le_total ((stop.map (overlap text)).foldr max 0) (overlap text item) with hle | hle
      · rw [max_eq_left hle] at hpos ⊢
        exact ⟨item, List.mem_cons_self, rfl, hpos⟩
      · rw [max_eq_right hle] at hpos ⊢
        obtain ⟨other, hmem, hother⟩ := ih hpos
        exact ⟨other, List.mem_cons_of_mem _ hmem, hother⟩
  obtain ⟨item, hmem, hsafe, hne⟩ := hmax
  obtain ⟨hproper, hle, hends⟩ := overlap_spec text item hne
  -- the rest of the word may follow
  refine h (text ++ item.drop (overlap text item)) (List.prefix_append _ _) (safeLen text stop) (by omega)
    ⟨item, hmem, List.ne_nil_of_length_pos (by omega), ?_⟩
  rw [← hsafe, List.drop_append_of_le_length (Nat.sub_le _ _), drop_eq_take hends hproper.le,
    List.take_append_drop]

end SparseVllm.Lib
