import SparseVllm.Prefix.IndexSpec

/-!
# Queries of the index

Asking for a capacity view may store a memo, and asking for a chain changes nothing. So a query
moves the index at most to one that `SameAnswers`: equal but for the memos, with the same answer
to every view.
-/

namespace SparseVllm

open SparseVllm.Lib

namespace RadixPrefixIndex

variable {B P : Type} [LinearOrder B] {s t u : RadixPrefixIndex B P}

/-- What asking for a view answers. -/
def viewIds (s : RadixPrefixIndex B P) (view : CapacityView) : Finset B :=
  if (s.memo view).epoch = s.capacityEpoch then (s.memo view).ids else s.scan view

/-- The index after asking for a view. -/
def afterView (s : RadixPrefixIndex B P) (view : CapacityView) : RadixPrefixIndex B P :=
  if (s.memo view).epoch = s.capacityEpoch then s
  else { s with memo := Function.update s.memo view ⟨s.capacityEpoch, s.scan view⟩ }

theorem memoised_eq (s : RadixPrefixIndex B P) (view : CapacityView) :
    memoised view s = .ok (s.viewIds view) (s.afterView view) := by
  unfold memoised viewIds afterView
  rw [get_bind]
  split <;> rfl

/-- Equal but for the memos, with the same answer to every view. -/
structure SameAnswers (s t : RadixPrefixIndex B P) : Prop where
  memos : ∃ memo, t = { s with memo := memo }
  views : ∀ view, t.viewIds view = s.viewIds view

theorem SameAnswers.refl (s : RadixPrefixIndex B P) : SameAnswers s s := ⟨⟨s.memo, rfl⟩, fun _ => rfl⟩

theorem scan_memo (s : RadixPrefixIndex B P) (memo : CapacityView → CapacityMemo B)
    (view : CapacityView) : ({ s with memo := memo } : RadixPrefixIndex B P).scan view = s.scan view := by
  cases view <;> rfl

theorem sameAnswers_afterView (s : RadixPrefixIndex B P) (view : CapacityView) :
    SameAnswers s (s.afterView view) := by
  unfold afterView
  by_cases h : (s.memo view).epoch = s.capacityEpoch
  · rw [if_pos h]
    exact .refl s
  rw [if_neg h]
  refine ⟨⟨_, rfl⟩, fun other => ?_⟩
  unfold viewIds
  rw [scan_memo s (Function.update s.memo view ⟨s.capacityEpoch, s.scan view⟩) other]
  by_cases hv : other = view
  · subst hv
    simp [h]
  · simp [Function.update_of_ne hv]

/-- Asked a second time, a view is read from its memo. -/
theorem afterView_afterView (s : RadixPrefixIndex B P) (view : CapacityView) :
    (s.afterView view).afterView view = s.afterView view := by
  by_cases h : (s.memo view).epoch = s.capacityEpoch
  · have hs : s.afterView view = s := if_pos h
    rw [hs, hs]
  · have hs : s.afterView view =
        { s with memo := Function.update s.memo view ⟨s.capacityEpoch, s.scan view⟩ } := if_neg h
    rw [hs]
    unfold afterView
    simp

theorem repeatable_memoised (view : CapacityView) :
    Repeatable (memoised view : PrefixIndexM B P (Finset B)) := by
  intro s t ids h
  rw [memoised_eq] at h
  cases h
  rw [memoised_eq, (sameAnswers_afterView s view).views, afterView_afterView]

theorem recoverChain_run {expected : Int} {path : List B} {chain : List (PrefixCacheBlock B P)}
    (h : recoverChain expected path s = .ok chain t) (memo : CapacityView → CapacityMemo B) :
    t = s ∧ recoverChain expected path { s with memo := memo } =
      .ok chain { s with memo := memo } := by
  induction path generalizing chain t with
  | nil => cases h; exact ⟨rfl, rfl⟩
  | cons id path ih =>
    unfold recoverChain at h ⊢
    cases hb : s.getBlock id with
    | none => rw [bind_error (indexed_none _ hb)] at h; cases h
    | some block =>
      have hb' : ({ s with memo := memo } : RadixPrefixIndex B P).getBlock id = some block := hb
      rw [bind_ok (indexed_some _ hb)] at h
      rw [bind_ok (indexed_some _ hb')]
      rw [bind_apply] at h
      cases hrest : recoverChain expected path s with
      | error e u => rw [hrest] at h; cases h
      | ok rest u =>
        obtain ⟨rfl, hagain⟩ := ih hrest
        rw [hrest] at h
        cases h
        exact ⟨rfl, by rw [bind_ok hagain]; rfl⟩

/-- A chain is read from the tree and the blocks. -/
theorem getChain_run {last : B} {count : Int} {chain : List (PrefixCacheBlock B P)}
    (h : getChain last count s = .ok chain t) (memo : CapacityView → CapacityMemo B) :
    t = s ∧ getChain last count { s with memo := memo } = .ok chain { s with memo := memo } := by
  unfold getChain at h ⊢
  simp only [raiseIf_bind, get_bind] at h ⊢
  split at h
  · cases h
  split at h
  · cases h
  split at h
  · cases h
  rw [if_neg ‹_›, if_neg ‹_›, if_neg ‹_›]
  exact recoverChain_run h memo

end RadixPrefixIndex

end SparseVllm
