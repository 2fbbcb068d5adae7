import SparseVllm.Prefix.RadixFaithful
import SparseVllm.Prefix.RadixTree

/-!
# The forest stands for the heap

The index is modelled over `RadixTreeBackend`, which writes the tree as a forest. `Records` relates a
forest to the parent relation of its edges. Insertions and removals keep it, and a heap and a forest of
the same relation answer alike (`Faithful.agrees`), so the forest stands for the nodes and pointers.
-/

namespace SparseVllm

open SparseVllm.Lib RadixForest ParentRelation

variable {B : Type} [DecidableEq B] {t : RadixTreeBackend B} {par : ParentRelation B}
  {s : RadixHeap B} {x block : B}

/-- The parent relation is the edges of the forest. -/
def Records (t : RadixTreeBackend B) (par : ParentRelation B) : Prop :=
  ∀ x q, par.get? x = some q ↔ (x, q) ∈ t.edges

namespace Records

theorem present_iff (h : Records t par) : par.Present x ↔ x ∈ t.ids := by
  rw [RadixTreeBackend.mem_ids]
  exact exists_congr fun q => h x q

theorem rootPath_iff (h : Records t par) {l : List B} :
    par.RootPath l ↔ ∀ e ∈ chainEdges none l, e ∈ t.edges :=
  forall_congr' fun e => imp_congr_right fun _ => h e.1 e.2

theorem insertChild (h : Records t par) (parent : Option B) :
    match t.insertChild parent block with
    | .ok u => Records u (par.insertChild parent block)
    | .error _ => par.insertChild parent block = par := by
  by_cases hb : block ∈ t.ids
  · rw [RadixTreeBackend.insertChild_of_mem hb]
    obtain ⟨q, hq⟩ := h.present_iff.mpr hb
    unfold ParentRelation.insertChild
    simp only [hq]
    exact h
  · have hnone : par.get? block = none := by
      cases hget : par.get? block with
      | none => rfl
      | some q => exact absurd (h.present_iff.mp ⟨q, hget⟩) hb
    by_cases hp : ∀ p, parent = some p → p ∈ t.ids
    · obtain ⟨u, hrun, hedges⟩ := RadixTreeBackend.insertChild_spec hb hp
      rw [hrun]
      have hset : par.insertChild parent block = par.set block parent := by
        unfold ParentRelation.insertChild
        cases parent with
        | none => simp only [hnone]
        | some p =>
          obtain ⟨q, hq⟩ := h.present_iff.mpr (hp p rfl)
          simp only [hnone, hq]
      intro x q
      rw [hset, Dict.get?_set, hedges, ← h x q, Prod.mk.injEq]
      by_cases hx : x = block
      · subst hx
        rw [if_pos rfl, hnone]
        simp [eq_comm]
      · simp [hx]
    · obtain ⟨p, rfl, hmissing⟩ : ∃ p, parent = some p ∧ p ∉ t.ids := by
        push Not at hp
        exact hp
      have hpnone : par.get? p = none := by
        cases hget : par.get? p with
        | none => rfl
        | some q => exact absurd (h.present_iff.mp ⟨q, hget⟩) hmissing
      have hrun : t.insertChild (some p) block = .error .parentMissing := by
        unfold RadixTreeBackend.insertChild
        rw [dif_neg hb]
        exact dif_neg hmissing
      rw [hrun]
      unfold ParentRelation.insertChild
      simp only [hnone, hpnone]

theorem removeBlock (h : Records t par) :
    match t.removeBlock block with
    | .ok u => Records u (par.removeBlock block)
    | .error _ => par.removeBlock block = par := by
  by_cases hb : block ∈ t.ids
  · by_cases hzero : t.childCount block = 0
    · obtain ⟨u, hrun, hedges⟩ := RadixTreeBackend.removeBlock_spec hb hzero
      rw [hrun]
      have hpop : par.removeBlock block = par.pop block := by
        unfold ParentRelation.removeBlock
        rw [if_neg]
        rw [hasChild_iff]
        rintro ⟨y, hy⟩
        exact RadixTreeBackend.childCount_eq_zero.mp hzero y ((h y _).mp hy)
      intro x q
      rw [hpop, Dict.get?_pop, hedges, ← h x q]
      by_cases hx : x = block
      · simp [hx]
      · simp [hx]
    · have hrun : t.removeBlock block = .error .liveTreeChildren := by
        unfold RadixTreeBackend.removeBlock
        rw [dif_pos hb, dif_neg hzero]
      rw [hrun]
      unfold ParentRelation.removeBlock
      refine if_pos (hasChild_iff.mpr ?_)
      rw [RadixTreeBackend.childCount_eq_zero] at hzero
      push Not at hzero
      exact hzero.imp fun y hy => (h y _).mpr hy
  · have hrun : t.removeBlock block = .error .blockMissing := by
      unfold RadixTreeBackend.removeBlock
      rw [dif_neg hb]
    have hnone : par.get? block = none := by
      cases hget : par.get? block with
      | none => rfl
      | some q => exact absurd (h.present_iff.mp ⟨q, hget⟩) hb
    rw [hrun]
    unfold ParentRelation.removeBlock
    rw [Dict.pop_of_get?_none hnone, ite_self]

end Records

/-- **A heap and a forest of one relation answer alike**: the paths are equal, and the children and the
leaves are the same ids. -/
theorem RadixHeap.Faithful.agrees (hs : RadixHeap.Faithful s par) (h : Records t par) :
    (∀ b, b ∈ s.leafBlockIds ↔ b ∈ t.leafBlockIds) ∧
      ∀ x ∈ t.ids, s.pathToBlock x = some (t.pathToBlock x) ∧
        ∃ l, s.childBlockIds x = some l ∧ l.Perm (t.childBlockIds x) := by
  refine ⟨fun b => ?_, fun x hx => ⟨?_, ?_⟩⟩
  · rw [hs.leaf, t.leaves, h.present_iff]
    refine and_congr Iff.rfl (forall_congr' fun y => not_congr ?_)
    exact h y (some b)
  · obtain ⟨l, hrun, hpath⟩ := hs.path x (h.present_iff.mpr hx)
    obtain ⟨hlast, hchain⟩ := RadixTreeBackend.pathToBlock_chain hx
    obtain ⟨k, hk⟩ := List.getLast?_eq_some_iff.mp hlast
    rw [hk] at hchain
    rw [hrun, hk, hpath.unique (h.rootPath_iff.mpr hchain)]
  · obtain ⟨l, hrun, _, hnodup, hmem⟩ := hs.children x (h.present_iff.mpr hx)
    refine ⟨l, hrun, ?_⟩
    rw [List.perm_ext_iff_of_nodup hnodup RadixTreeBackend.nodup_childBlockIds]
    intro y
    rw [hmem, RadixTreeBackend.mem_childBlockIds]
    exact h y (some x)

end SparseVllm
