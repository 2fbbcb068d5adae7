import Mathlib.Data.List.Induction
import SparseVllm.Prefix.RadixForest

/-!
# The radix tree (`RadixTreeBackend`, `engine/prefix_cache.py`)

The forest below the root, and the set of leaf ids the source maintains next to it. A tree carries
its well-formedness: no empty segment, every id once, and the leaf set is the set of ids without a
child.

Left out: `insert` of a whole path, which the index never calls (`RadixHeap` has it), and `stats`.
-/

namespace SparseVllm

variable {B : Type}

/-- The `KeyError`s and `RuntimeError`s of the backend. -/
inductive RadixError where
  | parentMissing
  | blockMissing
  | liveTreeChildren
  deriving DecidableEq, Repr

/-- `RadixTreeBackend`: the children of the root, and the set of leaf ids. -/
structure RadixTreeBackend (B : Type) where
  root : RadixForest B
  leafBlockIds : List B
  proper : root.Proper
  nodup : root.blockIds.Nodup
  leaves : ∀ b, b ∈ leafBlockIds ↔ b ∈ root.blockIds ∧ ∀ x, (x, some b) ∉ root.edges none

namespace RadixTreeBackend

/-- `RadixTreeBackend()`. -/
def empty : RadixTreeBackend B where
  root := .nil
  leafBlockIds := []
  proper := trivial
  nodup := List.nodup_nil
  leaves := by simp [RadixForest.blockIds]

/-- The parent relation of the tree. -/
def edges (t : RadixTreeBackend B) : List (B × Option B) := t.root.edges none

/-- The ids of the tree. -/
def ids (t : RadixTreeBackend B) : List B := t.root.blockIds

theorem mem_ids {t : RadixTreeBackend B} {b : B} : b ∈ t.ids ↔ ∃ p, (b, p) ∈ t.edges :=
  RadixForest.mem_blockIds none

theorem mem_ids_of_edge {t : RadixTreeBackend B} {b p : B} (h : (b, some p) ∈ t.edges) :
    p ∈ t.ids := by
  rcases RadixForest.mem_edges_parent h with hp | hp
  · cases hp
  · exact hp

theorem parent_unique {t : RadixTreeBackend B} {b : B} {p q : Option B} (hp : (b, p) ∈ t.edges)
    (hq : (b, q) ∈ t.edges) : p = q := by
  have hnodup : ((t.root.edges none).map Prod.fst).Nodup := by
    rw [RadixForest.edges_fst]
    exact t.nodup
  exact congrArg Prod.snd (List.inj_on_of_nodup_map hnodup hp hq rfl)

variable [DecidableEq B]

/-- `_locations.get(block_id)`. -/
def location (t : RadixTreeBackend B) (block : B) : Option (RadixLocation B) :=
  t.root.locate block []

/-- `path_to_block`. -/
def pathToBlock (t : RadixTreeBackend B) (block : B) : List B :=
  match t.location block with
  | some loc => loc.path
  | none => []

/-- `subtree_block_ids`. -/
def subtreeBlockIds (t : RadixTreeBackend B) (block : B) : List B :=
  match t.location block with
  | some loc => loc.subtree block
  | none => []

/-- `child_block_ids`. -/
def childBlockIds (t : RadixTreeBackend B) (block : B) : List B :=
  match t.location block with
  | some loc => loc.childBlockIds
  | none => []

/-- `child_count`. -/
def childCount (t : RadixTreeBackend B) (block : B) : Nat := t.root.childCount block

/-- The block id before `block` on its path. -/
def parentOf (t : RadixTreeBackend B) (block : B) : Option B :=
  (t.pathToBlock block).dropLast.getLast?

/-- `lookup`: the matched ids; the hit count is their number and the last id their last. -/
def lookup (t : RadixTreeBackend B) (blockIds : List B) (maxBlocks : Nat) : List B :=
  t.root.matched (blockIds.take maxBlocks)

theorem location_eq_none {t : RadixTreeBackend B} {b : B} : t.location b = none ↔ b ∉ t.ids :=
  RadixForest.locate_eq_none

theorem mem_childBlockIds {t : RadixTreeBackend B} {b x : B} :
    x ∈ t.childBlockIds b ↔ (x, some b) ∈ t.edges := by
  unfold childBlockIds
  cases h : t.location b with
  | none =>
    have hb : b ∉ t.ids := location_eq_none.mp h
    simp only [List.not_mem_nil, false_iff]
    exact fun hx => hb (mem_ids_of_edge hx)
  | some loc => exact RadixForest.mem_childBlockIds t.proper t.nodup (by simp) h

theorem nodup_childBlockIds {t : RadixTreeBackend B} {b : B} : (t.childBlockIds b).Nodup := by
  unfold childBlockIds
  cases h : t.location b with
  | none => exact List.nodup_nil
  | some loc => exact RadixForest.nodup_locate t.nodup h

theorem childCount_eq_zero {t : RadixTreeBackend B} {b : B} :
    t.childCount b = 0 ↔ ∀ x, (x, some b) ∉ t.edges :=
  RadixForest.childCount_eq_zero t.proper t.nodup

theorem pathToBlock_chain {t : RadixTreeBackend B} {b : B} (hb : b ∈ t.ids) :
    (t.pathToBlock b).getLast? = some b ∧
      ∀ e ∈ RadixForest.chainEdges none (t.pathToBlock b), e ∈ t.edges := by
  unfold pathToBlock
  cases h : t.location b with
  | none => exact absurd hb (location_eq_none.mp h)
  | some loc =>
    obtain ⟨down, hpath, hlast, hdown⟩ := @RadixForest.path_spec _ _ _ _ _ none _ h
    simp only [hpath, List.nil_append]
    exact ⟨hlast, hdown⟩

theorem parentOf_edge {t : RadixTreeBackend B} {b : B} (hb : b ∈ t.ids) :
    (b, t.parentOf b) ∈ t.edges := by
  obtain ⟨hlast, hchain⟩ := pathToBlock_chain hb
  unfold parentOf
  rcases List.eq_nil_or_concat' (t.pathToBlock b) with hnil | ⟨m, a, hm⟩
  · rw [hnil] at hlast
    cases hlast
  · rw [hm] at hlast hchain ⊢
    simp only [List.getLast?_concat, Option.some.injEq] at hlast
    subst a
    rw [List.dropLast_concat]
    apply hchain
    rw [RadixForest.chainEdges_append, RadixForest.lastId_eq, Option.or_none]
    simp [RadixForest.chainEdges]

omit [DecidableEq B] in
/-- Two chains of edges from the root to one block are the same. -/
theorem chain_unique {t : RadixTreeBackend B} (l : List B) : ∀ {m : List B},
    (∀ e ∈ RadixForest.chainEdges none l, e ∈ t.edges) →
    (∀ e ∈ RadixForest.chainEdges none m, e ∈ t.edges) → l.getLast? = m.getLast? → l = m := by
  induction l using List.reverseRecOn with
  | nil =>
    intro m _ _ hlast
    exact (List.getLast?_eq_none_iff.mp hlast.symm).symm
  | append_singleton l a ih =>
    intro m hl hm hlast
    rcases List.eq_nil_or_concat' m with rfl | ⟨m, a', rfl⟩
    · simp at hlast
    obtain rfl : a = a' := by simpa using hlast
    have hstep : ∀ {k : List B}, (∀ e ∈ RadixForest.chainEdges none (k ++ [a]), e ∈ t.edges) →
        (∀ e ∈ RadixForest.chainEdges none k, e ∈ t.edges) ∧ (a, k.getLast?) ∈ t.edges := by
      intro k hk
      rw [RadixForest.chainEdges_append, RadixForest.lastId_eq, Option.or_none] at hk
      exact ⟨fun e he => hk e (List.mem_append_left _ he),
        hk _ (List.mem_append_right _ (by simp [RadixForest.chainEdges]))⟩
    obtain ⟨hl, hla⟩ := hstep hl
    obtain ⟨hm, hma⟩ := hstep hm
    rw [ih hl hm (parent_unique hla hma)]

theorem lookup_prefix {t : RadixTreeBackend B} (ids : List B) (n : Nat) : t.lookup ids n <+: ids :=
  (RadixForest.matched_prefix _ _).trans (List.take_prefix _ _)

theorem lookup_chain {t : RadixTreeBackend B} (ids : List B) (n : Nat) :
    ∀ e ∈ RadixForest.chainEdges none (t.lookup ids n), e ∈ t.edges :=
  RadixForest.matched_path t.root _ none

/-- A lookup matches every chain of edges its selector starts with. -/
theorem lookup_maximal {t : RadixTreeBackend B} {l ids : List B} (hl : l <+: ids)
    (hchain : ∀ e ∈ RadixForest.chainEdges none l, e ∈ t.edges) :
    l <+: t.lookup ids ids.length := by
  unfold lookup
  rw [List.take_length]
  obtain ⟨rest, rfl⟩ := hl
  rcases List.eq_nil_or_concat' l with rfl | ⟨m, b, rfl⟩
  · exact List.nil_prefix
  have hb : b ∈ t.ids := mem_ids.mpr ⟨_, hchain (b, RadixForest.lastId none m) (by
    rw [RadixForest.chainEdges_append]
    exact List.mem_append_right _ List.mem_cons_self)⟩
  obtain ⟨hlast, hpath⟩ := pathToBlock_chain hb
  have hsame : m ++ [b] = t.pathToBlock b :=
    chain_unique _ hchain hpath (by rw [hlast, List.getLast?_concat])
  unfold pathToBlock at hsame
  cases h : t.location b with
  | none => exact absurd hb (location_eq_none.mp h)
  | some loc =>
    obtain ⟨down, hdown, hmatched⟩ := RadixForest.path_matched t.proper t.nodup h
    rw [h] at hsame
    obtain rfl : m ++ [b] = down := hsame.trans hdown
    exact hmatched rest

/-- The path of a block is its parent's path and itself. -/
theorem pathToBlock_child {t : RadixTreeBackend B} {b p : B} (h : (b, some p) ∈ t.edges) :
    t.pathToBlock b = t.pathToBlock p ++ [b] := by
  obtain ⟨hlast, hchain⟩ := pathToBlock_chain (mem_ids_of_edge h)
  obtain ⟨hlast', hchain'⟩ := pathToBlock_chain (mem_ids.mpr ⟨_, h⟩)
  refine chain_unique _ hchain' (fun e he => ?_) (by rw [hlast', List.getLast?_concat])
  rw [RadixForest.chainEdges_append, RadixForest.lastId_eq, hlast, List.mem_append] at he
  rcases he with he | he
  · exact hchain e he
  · obtain rfl : e = (b, some p) := by simpa [RadixForest.chainEdges] using he
    exact h

/-! ## Updates -/

/-- A child of the root: `self.root.children[block_id] = child`. -/
def addRoot (t : RadixTreeBackend B) (block : B) (hb : block ∉ t.ids) : RadixTreeBackend B where
  root := t.root.append (.leaf block)
  leafBlockIds := block :: t.leafBlockIds
  proper := RadixForest.proper_append t.proper ⟨by simp, trivial, trivial⟩
  nodup := by
    rw [← RadixForest.edges_fst none, RadixForest.edges_append, List.map_append,
      RadixForest.edges_fst]
    simp only [RadixForest.leaf, RadixForest.edges, RadixForest.chainEdges, List.append_nil,
      List.map_cons, List.map_nil]
    exact List.nodup_append'.mpr ⟨t.nodup, List.nodup_singleton block, by simpa [ids] using hb⟩
  leaves := by
    intro b
    have hparent : ∀ x, (x, some block) ∉ t.root.edges none := fun x hx => hb (mem_ids_of_edge hx)
    rw [RadixForest.mem_blockIds none]
    simp only [RadixForest.edges_append, RadixForest.leaf, RadixForest.edges,
      RadixForest.chainEdges, List.append_nil, List.mem_append, Prod.mk.injEq,
      reduceCtorEq, and_false, List.mem_cons, t.leaves,
      RadixForest.mem_blockIds none]
    grind

/-- A leaf below `parent`, whose segment is split when `parent` does not end it. -/
def addBelow (t : RadixTreeBackend B) (parent block : B) (hp : parent ∈ t.ids)
    (hb : block ∉ t.ids) : RadixTreeBackend B where
  root := t.root.insertBelow parent block
  leafBlockIds :=
    -- `if not parent_node.children: self._discard_leaf(parent_node)`
    block :: if t.childCount parent = 0 then t.leafBlockIds.filter (· ≠ parent) else t.leafBlockIds
  proper := RadixForest.proper_insertBelow t.proper
  nodup := by
    rw [← RadixForest.edges_fst none,
      ((RadixForest.edges_insertBelow t.nodup hp).map Prod.fst).nodup_iff, List.map_cons,
      RadixForest.edges_fst]
    exact List.nodup_cons.mpr ⟨hb, t.nodup⟩
  leaves := by
    intro b
    have hmem : ∀ e, e ∈ (t.root.insertBelow parent block).edges none ↔
        e = (block, some parent) ∨ e ∈ t.root.edges none := by
      intro e
      rw [(RadixForest.edges_insertBelow t.nodup hp).mem_iff, List.mem_cons]
    have hblock : ∀ x, (x, some block) ∉ t.root.edges none := fun x hx => hb (mem_ids_of_edge hx)
    have hne : block ≠ parent := fun e => hb (e ▸ hp)
    have hcount := childCount_eq_zero (t := t) (b := parent)
    have hleaf := t.leaves b
    have hid : b ∈ t.root.blockIds ↔ _ := RadixForest.mem_blockIds none
    rw [RadixForest.mem_blockIds none]
    simp only [hmem, Prod.mk.injEq, Option.some.injEq]
    split
    · simp only [List.mem_cons, List.mem_filter, decide_eq_true_eq]
      unfold edges at hcount
      grind
    · rename_i hcc
      rw [hcount] at hcc
      unfold edges at hcc
      simp only [List.mem_cons]
      grind

/-- `insert_child`. -/
def insertChild (t : RadixTreeBackend B) (parent : Option B) (block : B) :
    Except RadixError (RadixTreeBackend B) :=
  if hb : block ∈ t.ids then .ok t
  else match parent with
    | none => .ok (t.addRoot block hb)
    | some p => if hp : p ∈ t.ids then .ok (t.addBelow p block hp hb) else .error .parentMissing

theorem edges_dropLeaf {t : RadixTreeBackend B} {block : B} (hb : block ∈ t.ids)
    (hzero : t.childCount block = 0) :
    t.edges.Perm ((block, t.parentOf block) :: (t.root.removeLast block).edges none) := by
  cases h : t.location block with
  | none => exact absurd hb (location_eq_none.mp h)
  | some loc =>
    have hcount : loc.childCount = 0 := by
      have : t.root.childCount block = 0 := hzero
      unfold RadixForest.childCount at this
      rw [show t.root.locate block [] = some loc from h] at this
      exact this
    obtain ⟨hsuffix, hchildren⟩ := RadixForest.suffix_of_childCount hcount
    obtain ⟨p, hp⟩ := @RadixForest.edges_removeLast _ _ _ _ _ none _ t.nodup h hsuffix hchildren
    have hparent : p = t.parentOf block :=
      parent_unique (t := t) (hp.mem_iff.mpr List.mem_cons_self) (parentOf_edge hb)
    exact hparent ▸ hp

theorem nodup_removeLast {t : RadixTreeBackend B} {block : B} (hb : block ∈ t.ids)
    (hzero : t.childCount block = 0) :
    block ∉ (t.root.removeLast block).blockIds ∧ (t.root.removeLast block).blockIds.Nodup := by
  have hperm := (edges_dropLeaf hb hzero).map Prod.fst
  rw [List.map_cons, RadixForest.edges_fst] at hperm
  exact List.nodup_cons.mp (hperm.nodup_iff.mp (RadixForest.edges_fst none t.root ▸ t.nodup))

theorem nodup_dropLeaf {t : RadixTreeBackend B} {block : B} (hb : block ∈ t.ids)
    (hzero : t.childCount block = 0) : (t.root.removeLast block).blockIds.Nodup :=
  (nodup_removeLast hb hzero).2

theorem proper_dropLeaf (t : RadixTreeBackend B) (block : B) :
    (t.root.removeLast block).Proper := t.root.proper_removeLast block t.proper

/-- The leaves when the childless `block` goes; its parent may become one (`_add_leaf`). -/
def leavesWithout (t : RadixTreeBackend B) (block : B) : List B :=
  match t.parentOf block with
  | some p =>
    if (t.root.removeLast block).childCount p = 0 then p :: t.leafBlockIds.filter (· ≠ block)
    else t.leafBlockIds.filter (· ≠ block)
  | none => t.leafBlockIds.filter (· ≠ block)

theorem mem_leavesWithout {t : RadixTreeBackend B} {block : B} (hb : block ∈ t.ids)
    (hzero : t.childCount block = 0) (b : B) : b ∈ t.leavesWithout block ↔
      b ∈ (t.root.removeLast block).blockIds ∧
        ∀ x, (x, some b) ∉ (t.root.removeLast block).edges none := by
  unfold leavesWithout
  have hmem : ∀ e, e ∈ t.root.edges none ↔
      e = (block, t.parentOf block) ∨ e ∈ (t.root.removeLast block).edges none := by
    intro e
    have hperm : (t.root.edges none).Perm _ := edges_dropLeaf hb hzero
    rw [hperm.mem_iff, List.mem_cons]
  have hparent := parentOf_edge hb
  have hleaf := t.leaves b
  have hid : b ∈ t.root.blockIds ↔ _ := RadixForest.mem_blockIds none
  have hid' : b ∈ (t.root.removeLast block).blockIds ↔ _ := RadixForest.mem_blockIds none
  have hblock := (nodup_removeLast hb hzero).1
  have hcount := fun p => RadixForest.childCount_eq_zero (b := p)
    (t.root.proper_removeLast block t.proper) (nodup_removeLast hb hzero).2
  have hnone := childCount_eq_zero.mp hzero
  unfold edges at hnone hparent
  cases hp : t.parentOf block with
  | none =>
    simp only [List.mem_filter, decide_eq_true_eq]
    grind
  | some p =>
    have hpids : p ∈ t.root.blockIds := mem_ids_of_edge (hp ▸ parentOf_edge hb)
    simp only
    split
    · simp only [List.mem_cons, List.mem_filter, decide_eq_true_eq]
      grind
    · simp only [List.mem_filter, decide_eq_true_eq]
      grind

/-- What is left when the childless `block` goes. -/
def dropLeaf (t : RadixTreeBackend B) (block : B) (hb : block ∈ t.ids)
    (hzero : t.childCount block = 0) : RadixTreeBackend B where
  root := t.root.removeLast block
  leafBlockIds := t.leavesWithout block
  proper := proper_dropLeaf t block
  nodup := nodup_dropLeaf hb hzero
  leaves := mem_leavesWithout hb hzero

/-- `remove_block`. -/
def removeBlock (t : RadixTreeBackend B) (block : B) : Except RadixError (RadixTreeBackend B) :=
  if hb : block ∈ t.ids then
    if hzero : t.childCount block = 0 then .ok (t.dropLeaf block hb hzero)
    else .error .liveTreeChildren
  else .error .blockMissing

theorem insertChild_of_mem {t : RadixTreeBackend B} {parent : Option B} {block : B}
    (hb : block ∈ t.ids) : t.insertChild parent block = .ok t := dif_pos hb

/-- **A new id is inserted below a present parent, which adds its edge.** -/
theorem insertChild_spec {t : RadixTreeBackend B} {parent : Option B} {block : B}
    (hb : block ∉ t.ids) (hp : ∀ p, parent = some p → p ∈ t.ids) :
    ∃ t', t.insertChild parent block = .ok t' ∧
      ∀ e, e ∈ t'.edges ↔ e = (block, parent) ∨ e ∈ t.edges := by
  unfold insertChild
  rw [dif_neg hb]
  cases parent with
  | none =>
    refine ⟨t.addRoot block hb, rfl, fun e => ?_⟩
    show e ∈ (t.root.append (.leaf block)).edges none ↔ _
    rw [RadixForest.edges_append, List.mem_append]
    simp [RadixForest.leaf, RadixForest.edges, RadixForest.chainEdges, edges, or_comm]
  | some p =>
    refine ⟨t.addBelow p block (hp p rfl) hb, dif_pos (hp p rfl), fun e => ?_⟩
    show e ∈ (t.root.insertBelow p block).edges none ↔ _
    rw [(RadixForest.edges_insertBelow t.nodup (hp p rfl)).mem_iff, List.mem_cons]
    rfl

/-- **A childless id is removed, with its edge.** -/
theorem removeBlock_spec {t : RadixTreeBackend B} {block : B} (hb : block ∈ t.ids)
    (hzero : t.childCount block = 0) :
    ∃ t', t.removeBlock block = .ok t' ∧ ∀ e, e ∈ t'.edges ↔ e ∈ t.edges ∧ e.1 ≠ block := by
  refine ⟨t.dropLeaf block hb hzero, ?_, fun e => ?_⟩
  · unfold removeBlock
    rw [dif_pos hb, dif_pos hzero]
  · show e ∈ (t.root.removeLast block).edges none ↔ _
    rw [(edges_dropLeaf hb hzero).mem_iff, List.mem_cons]
    constructor
    · intro he
      refine ⟨Or.inr he, fun heq => (nodup_removeLast hb hzero).1 ?_⟩
      rw [RadixForest.mem_blockIds none]
      exact ⟨e.2, heq ▸ he⟩
    · rintro ⟨rfl | he, hne⟩
      · exact absurd rfl hne
      · exact he

end RadixTreeBackend

end SparseVllm
