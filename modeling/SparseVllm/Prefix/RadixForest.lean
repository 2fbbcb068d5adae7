import Mathlib.Data.List.Perm.Basic
import Mathlib.Data.List.Nodup
import SparseVllm.Lib.Peel

/-!
# Radix forests (`RadixTreeNode`, `engine/prefix_cache.py`)

A compressed forest of block ids: a node carries a segment of one or more ids, and the parent of
an id is the id before it in the segment, or the last id of the node above. Nodes are written as
a forest, the children of a node in insertion order, so a node's parent pointer is the context of
the recursion and `_locations[id]` is found by descending (`locate`).

What the operations do is stated on `edges`, the list of pairs of an id and its parent.

## Results

* `mem_childBlockIds`, `path_spec`, `matched_path`: what a location and a lookup read are edges;
  `path_matched`: a lookup does not stop above a block it can reach.
* **`edges_insertBelow`**, **`edges_removeLast`**: an insertion adds one edge and a removal takes
  one away, whatever splits a segment.
-/

namespace SparseVllm

open SparseVllm.Lib

variable {B : Type}

/-- `RadixTreeNode` and the siblings after it. -/
inductive RadixForest (B : Type) where
  | nil
  | node (segment : List B) (children siblings : RadixForest B)
  deriving DecidableEq, Repr

namespace RadixForest

/-- A new leaf node. -/
def leaf (block : B) : RadixForest B := node [block] nil nil

/-- Add nodes after the last sibling. -/
def append : RadixForest B → RadixForest B → RadixForest B
  | nil, g => g
  | node segment children siblings, g => node segment children (append siblings g)

/-- Every id of the forest. -/
def blockIds : RadixForest B → List B
  | nil => []
  | node segment children siblings => segment ++ (blockIds children ++ blockIds siblings)

/-- `len(node.children)`, for the nodes of one level. -/
def width : RadixForest B → Nat
  | nil => 0
  | node _ _ siblings => width siblings + 1

/-- `[child.segment[0] for child in node.children.values()]`. -/
def heads : RadixForest B → List B
  | nil => []
  | node segment _ siblings => segment.head?.toList ++ heads siblings

/-- The ids of a forest in the order `stack.pop()` visits its nodes: last sibling first. -/
def walk : RadixForest B → List B
  | nil => []
  | node segment children siblings => walk siblings ++ (segment ++ walk children)

/-! ## Parents -/

/-- The ids of a segment with their parents; `ctx` is the id above the segment. -/
def chainEdges (ctx : Option B) : List B → List (B × Option B)
  | [] => []
  | a :: rest => (a, ctx) :: chainEdges (some a) rest

/-- The id above what hangs below a segment. -/
def lastId (ctx : Option B) : List B → Option B
  | [] => ctx
  | a :: rest => lastId (some a) rest

/-- Every id with its parent. -/
def edges (ctx : Option B) : RadixForest B → List (B × Option B)
  | nil => []
  | node segment children siblings =>
    chainEdges ctx segment ++ (edges (lastId ctx segment) children ++ edges ctx siblings)

/-- No node has an empty segment. -/
def Proper : RadixForest B → Prop
  | nil => True
  | node segment children siblings => segment ≠ [] ∧ Proper children ∧ Proper siblings

theorem chainEdges_append (ctx : Option B) (l m : List B) :
    chainEdges ctx (l ++ m) = chainEdges ctx l ++ chainEdges (lastId ctx l) m := by
  induction l generalizing ctx with
  | nil => rfl
  | cons a l ih => simp only [List.cons_append, chainEdges, lastId, ih]

theorem lastId_append (ctx : Option B) (l m : List B) :
    lastId ctx (l ++ m) = lastId (lastId ctx l) m := by
  induction l generalizing ctx with
  | nil => rfl
  | cons a l ih => simp only [List.cons_append, lastId, ih]

@[simp] theorem lastId_concat (ctx : Option B) (l : List B) (b : B) :
    lastId ctx (l ++ [b]) = some b := by
  rw [lastId_append]
  rfl

theorem lastId_eq (ctx : Option B) (l : List B) : lastId ctx l = l.getLast?.or ctx := by
  rcases List.eq_nil_or_concat' l with rfl | ⟨m, a, rfl⟩
  · rfl
  · simp

theorem chainEdges_fst (ctx : Option B) (l : List B) : (chainEdges ctx l).map Prod.fst = l := by
  induction l generalizing ctx with
  | nil => rfl
  | cons a l ih => simp only [chainEdges, List.map_cons, ih]

theorem edges_fst (ctx : Option B) (f : RadixForest B) :
    (f.edges ctx).map Prod.fst = f.blockIds := by
  induction f generalizing ctx with
  | nil => rfl
  | node segment children siblings ihc ihs =>
    simp only [edges, blockIds, List.map_append, chainEdges_fst, ihc, ihs]

theorem edges_append (ctx : Option B) (f g : RadixForest B) :
    (f.append g).edges ctx = f.edges ctx ++ g.edges ctx := by
  induction f with
  | nil => rfl
  | node segment children siblings _ ihs => simp only [append, edges, ihs, List.append_assoc]

theorem proper_append {f g : RadixForest B} (hf : f.Proper) (hg : g.Proper) :
    (f.append g).Proper := by
  induction f with
  | nil => exact hg
  | node segment children siblings _ ihs => exact ⟨hf.1, hf.2.1, ihs hf.2.2⟩

theorem mem_blockIds (ctx : Option B) {f : RadixForest B} {b : B} :
    b ∈ f.blockIds ↔ ∃ p, (b, p) ∈ f.edges ctx := by
  rw [← edges_fst ctx f]
  simp

/-- The parent of a chain's id is the context or an id of the chain before the last. -/
theorem mem_chainEdges_parent {ctx : Option B} {l : List B} {x p : B}
    (h : (x, some p) ∈ chainEdges ctx l) : ctx = some p ∨ p ∈ l.dropLast := by
  induction l generalizing ctx with
  | nil => cases h
  | cons a l ih =>
    rcases List.mem_cons.mp h with heq | hmem
    · exact Or.inl (congrArg Prod.snd heq).symm
    · cases l with
      | nil => cases hmem
      | cons b l =>
        rcases ih hmem with hp | hp
        · obtain rfl := Option.some.inj hp
          exact Or.inr (by simp)
        · exact Or.inr (by simp only [List.dropLast_cons_cons, List.mem_cons]; exact Or.inr hp)

theorem mem_edges_parent {ctx : Option B} {f : RadixForest B} {x p : B}
    (h : (x, some p) ∈ f.edges ctx) : ctx = some p ∨ p ∈ f.blockIds := by
  induction f generalizing ctx with
  | nil => cases h
  | node segment children siblings ihc ihs =>
    simp only [edges, List.mem_append] at h
    simp only [blockIds, List.mem_append]
    rcases h with h | h | h
    · rcases mem_chainEdges_parent h with hp | hp
      · exact Or.inl hp
      · exact Or.inr (Or.inl (List.dropLast_subset _ hp))
    · rcases ihc h with hp | hp
      · rcases List.eq_nil_or_concat' segment with rfl | ⟨m, a, rfl⟩
        · exact Or.inl hp
        · simp only [lastId_concat, Option.some.injEq] at hp
          subst a
          exact Or.inr (Or.inl (by simp))
      · exact Or.inr (Or.inr (Or.inl hp))
    · rcases ihs h with hp | hp
      · exact Or.inl hp
      · exact Or.inr (Or.inr (Or.inr hp))

/-- The ids directly below the context are the heads. -/
theorem mem_edges_root {f : RadixForest B} {b x : B} (hproper : f.Proper) (hb : b ∉ f.blockIds) :
    (x, some b) ∈ f.edges (some b) ↔ x ∈ f.heads := by
  induction f with
  | nil => simp [edges, heads]
  | node segment children siblings _ ihs =>
    cases segment with
    | nil => exact absurd rfl hproper.1
    | cons a segment =>
      simp only [blockIds, List.mem_append, not_or] at hb
      simp only [edges, heads, chainEdges, List.cons_append, List.mem_cons, List.mem_append,
        ihs hproper.2.2 hb.2.2, List.head?_cons, Option.toList_some, Prod.mk.injEq, and_true,
        List.nil_append]
      constructor
      · rintro (hx | hx | hx | hx)
        · exact Or.inl hx
        · rcases mem_chainEdges_parent hx with hp | hp
          · exact absurd (Option.some.inj hp ▸ List.mem_cons_self) hb.1
          · exact absurd (List.mem_cons_of_mem _ (List.dropLast_subset _ hp)) hb.1
        · rcases mem_edges_parent hx with hp | hp
          · have : some b = lastId (some a) segment := hp.symm
            rcases List.eq_nil_or_concat' segment with rfl | ⟨m, c, rfl⟩
            · exact absurd (Option.some.inj this ▸ List.mem_cons_self) hb.1
            · simp only [lastId_concat, Option.some.injEq] at this
              exact absurd (by simp [this]) hb.1
          · exact absurd hp hb.2.1
        · exact Or.inr hx
      · rintro (hx | hx)
        · exact Or.inl hx
        · exact Or.inr (Or.inr (Or.inr hx))

theorem heads_sublist (f : RadixForest B) : f.heads.Sublist f.blockIds := by
  induction f with
  | nil => exact List.Sublist.slnil
  | node segment children siblings _ ihs =>
    refine List.Sublist.append ?_ (ihs.trans (List.sublist_append_right _ _))
    cases segment with
    | nil => exact List.Sublist.slnil
    | cons a segment => simp

theorem width_eq_length_heads {f : RadixForest B} (hproper : f.Proper) :
    f.width = f.heads.length := by
  induction f with
  | nil => rfl
  | node segment children siblings _ ihs =>
    cases segment with
    | nil => exact absurd rfl hproper.1
    | cons a segment => simp [width, heads, ihs hproper.2.2]

/-! ## Locations and updates -/

variable [DecidableEq B]

/-- `segment[: index + 1], segment[index + 1 :]` at the index of `block`. -/
def splitAfter (block : B) : List B → List B × List B
  | [] => ([], [])
  | a :: rest =>
    if a = block then ([a], rest) else (a :: (splitAfter block rest).1, (splitAfter block rest).2)

end RadixForest

/-- `_locations[block_id]`: the node, cut at the block's index, with the segments above it. -/
structure RadixLocation (B : Type) where
  above : List B
  upTo : List B
  suffix : List B
  children : RadixForest B

namespace RadixLocation

/-- `path_to_block`. -/
def path (loc : RadixLocation B) : List B := loc.above ++ loc.upTo

/-- `child_count`. -/
def childCount (loc : RadixLocation B) : Nat :=
  if loc.suffix = [] then loc.children.width else 1

/-- `child_block_ids`. -/
def childBlockIds (loc : RadixLocation B) : List B :=
  match loc.suffix with
  | next :: _ => [next]
  | [] => loc.children.heads

/-- `subtree_block_ids`. -/
def subtree (block : B) (loc : RadixLocation B) : List B :=
  block :: loc.suffix ++ loc.children.walk

end RadixLocation

namespace RadixForest

variable [DecidableEq B]

/-- The location of an id below the segments `above`. -/
def locate (block : B) (above : List B) : RadixForest B → Option (RadixLocation B)
  | nil => none
  | node segment children siblings =>
    if block ∈ segment then
      some ⟨above, (splitAfter block segment).1, (splitAfter block segment).2, children⟩
    else match locate block (above ++ segment) children with
      | some loc => some loc
      | none => locate block above siblings

/-- `_split_after` at the parent, then a new leaf below it. -/
def insertBelow (parent block : B) : RadixForest B → RadixForest B
  | nil => nil
  | node segment children siblings =>
    if parent ∈ segment then
      match (splitAfter parent segment).2 with
      | [] => node segment (children.append (leaf block)) siblings
      | next :: rest =>
        node (splitAfter parent segment).1 (node (next :: rest) children (leaf block)) siblings
    else node segment (insertBelow parent block children) (insertBelow parent block siblings)

/-- Drop an id that ends the segment of a childless node, and the node if it was its only id. -/
def removeLast (block : B) : RadixForest B → RadixForest B
  | nil => nil
  | node segment children siblings =>
    if block ∈ segment then
      if segment.length = 1 then siblings else node segment.dropLast children siblings
    else node segment (removeLast block children) (removeLast block siblings)

/-- The ids a segment and a selector agree on. -/
def common : List B → List B → List B
  | a :: segment, b :: ids => if a = b then a :: common segment ids else []
  | _, _ => []

/-- The ids `lookup` matches, root first. -/
def matched : RadixForest B → List B → List B
  | nil, _ => []
  | _, [] => []
  | node segment children siblings, id :: ids =>
    if segment.head? = some id then
      if common segment (id :: ids) = segment then
        segment ++ matched children ((id :: ids).drop segment.length)
      else common segment (id :: ids)
    else matched siblings (id :: ids)

/-! ## Splitting a segment -/

theorem splitAfter_append (block : B) (l : List B) :
    (splitAfter block l).1 ++ (splitAfter block l).2 = l := by
  induction l with
  | nil => rfl
  | cons a l ih =>
    unfold splitAfter
    split
    · rfl
    · rw [List.cons_append, ih]

/-- The first part of the cut ends with the block, which does not occur before. -/
theorem splitAfter_fst {block : B} {l : List B} (h : block ∈ l) :
    ∃ m, (splitAfter block l).1 = m ++ [block] ∧ block ∉ m := by
  induction l with
  | nil => cases h
  | cons a l ih =>
    unfold splitAfter
    by_cases hab : a = block
    · subst a
      exact ⟨[], by simp⟩
    · rw [if_neg hab]
      obtain ⟨m, hm, hnot⟩ := ih ((List.mem_cons.mp h).resolve_left (Ne.symm hab))
      exact ⟨a :: m, by rw [hm]; rfl, by simp [Ne.symm hab, hnot]⟩

/-- A segment that holds the block, cut after it. -/
theorem exists_split {block : B} {l : List B} (h : block ∈ l) :
    ∃ m rest, l = (m ++ [block]) ++ rest ∧ block ∉ m ∧
      splitAfter block l = (m ++ [block], rest) := by
  obtain ⟨m, hm, hnot⟩ := splitAfter_fst h
  exact ⟨m, (splitAfter block l).2, by rw [← hm, splitAfter_append], hnot, by rw [← hm]⟩

theorem splitAfter_of_not_mem {block : B} {m rest : List B} (h : block ∉ m) :
    splitAfter block (m ++ block :: rest) = (m ++ [block], rest) := by
  induction m with
  | nil => simp [splitAfter]
  | cons a m ih =>
    simp only [List.mem_cons, not_or] at h
    rw [List.cons_append, splitAfter, if_neg (Ne.symm h.1), ih h.2]
    rfl

/-! ## Locations -/

theorem locate_eq_none {block : B} {f : RadixForest B} {above : List B} :
    locate block above f = none ↔ block ∉ f.blockIds := by
  induction f generalizing above with
  | nil => simp [locate, blockIds]
  | node segment children siblings ihc ihs =>
    unfold locate
    simp only [blockIds, List.mem_append, not_or]
    by_cases hseg : block ∈ segment
    · simp [hseg]
    · rw [if_neg hseg]
      cases hc : locate block (above ++ segment) children with
      | none => simp [hseg, ihc.mp hc, ihs]
      | some loc =>
        simp only [reduceCtorEq, hseg, not_false_eq_true, true_and, false_iff, not_and]
        intro hnot
        rw [ihc.mpr hnot] at hc
        cases hc

/-- What a located id has below it: exactly the ids whose parent it is. -/
theorem mem_childBlockIds {block x : B} {f : RadixForest B} {above : List B} {ctx : Option B}
    {loc : RadixLocation B} (hproper : f.Proper) (hnodup : f.blockIds.Nodup)
    (hctx : ctx ≠ some block) (h : locate block above f = some loc) :
    x ∈ loc.childBlockIds ↔ (x, some block) ∈ f.edges ctx := by
  induction f generalizing above ctx with
  | nil => cases h
  | node segment children siblings ihc ihs =>
    obtain ⟨_, hpc, hps⟩ := hproper
    simp only [blockIds, List.nodup_append', List.disjoint_append_right] at hnodup
    obtain ⟨hseg, ⟨hnc, hns, hcs⟩, hdc, hds⟩ := hnodup
    unfold locate at h
    simp only [edges, List.mem_append]
    by_cases hmem : block ∈ segment
    · rw [if_pos hmem] at h
      obtain ⟨m, rest, rfl, hm, hsplit⟩ := exists_split hmem
      rw [hsplit] at h
      obtain rfl := Option.some.inj h
      have hbc : block ∉ children.blockIds := fun hb => hdc hmem hb
      have hsib : (x, some block) ∉ siblings.edges ctx := fun hx => by
        rcases mem_edges_parent hx with hp | hp
        · exact hctx hp
        · exact hds hmem hp
      have hrest : block ∉ rest := (List.nodup_append'.mp hseg).2.2 (by simp)
      have hfront : (x, some block) ∉ chainEdges ctx (m ++ [block]) := fun hx => by
        rcases mem_chainEdges_parent hx with hp | hp
        · exact hctx hp
        · simp only [List.dropLast_concat] at hp
          exact hm hp
      rw [chainEdges_append, lastId_append ctx (m ++ [block]) rest, lastId_concat, List.mem_append]
      simp only [hfront, hsib, false_or, or_false]
      cases rest with
      | nil => simpa [RadixLocation.childBlockIds, chainEdges, lastId] using
          (mem_edges_root hpc hbc).symm
      | cons y rest =>
        have hlast : lastId (some block) (y :: rest) ≠ some block := by
          rw [lastId_eq]
          intro hl
          rw [List.getLast?_eq_some_getLast (by simp)] at hl
          simp only [Option.some_or, Option.some.injEq] at hl
          exact hrest (hl ▸ List.getLast_mem _)
        have hchild : (x, some block) ∉ children.edges (lastId (some block) (y :: rest)) :=
          fun hx => by
            rcases mem_edges_parent hx with hp | hp
            · exact hlast hp
            · exact hbc hp
        have htail : (x, some block) ∉ chainEdges (some y) rest := fun hx => by
          rcases mem_chainEdges_parent hx with hp | hp
          · exact hrest (Option.some.inj hp ▸ List.mem_cons_self)
          · exact hrest (List.mem_cons_of_mem _ (List.dropLast_subset _ hp))
        simp [RadixLocation.childBlockIds, chainEdges, htail, hchild]
    · rw [if_neg hmem] at h
      have hchain : (x, some block) ∉ chainEdges ctx segment := fun hx => by
        rcases mem_chainEdges_parent hx with hp | hp
        · exact hctx hp
        · exact hmem (List.dropLast_subset _ hp)
      have hlast : lastId ctx segment ≠ some block := by
        rw [lastId_eq]
        rcases List.eq_nil_or_concat' segment with rfl | ⟨l, a, rfl⟩
        · simpa using hctx
        · simp only [List.getLast?_concat, Option.some_or, ne_eq, Option.some.injEq]
          intro e
          exact hmem (by simp [e])
      cases hc : locate block (above ++ segment) children with
      | some loc' =>
        rw [hc] at h
        obtain rfl := Option.some.inj h
        have hbc : block ∈ children.blockIds := by
          by_contra hnot
          rw [locate_eq_none.mpr hnot] at hc
          cases hc
        have hsib : (x, some block) ∉ siblings.edges ctx := fun hx => by
          rcases mem_edges_parent hx with hp | hp
          · exact hctx hp
          · exact hcs hbc hp
        rw [ihc hpc hnc hlast hc]
        simp only [hchain, hsib, false_or, or_false]
      | none =>
        rw [hc] at h
        have hbc : block ∉ children.blockIds := locate_eq_none.mp hc
        have hchild : (x, some block) ∉ children.edges (lastId ctx segment) := fun hx => by
          rcases mem_edges_parent hx with hp | hp
          · exact hlast hp
          · exact hbc hp
        rw [ihs hps hns hctx h]
        simp only [hchain, hchild, false_or]

theorem locate_segment {block : B} {above m rest : List B} {children siblings : RadixForest B}
    (h : block ∉ m) : locate block above (node (m ++ block :: rest) children siblings) =
      some ⟨above, m ++ [block], rest, children⟩ := by
  unfold locate
  rw [if_pos (by simp), splitAfter_of_not_mem h]

theorem locate_children {block : B} {above segment : List B} {children siblings : RadixForest B}
    (hseg : block ∉ segment) (h : block ∈ children.blockIds) :
    locate block above (node segment children siblings) =
      locate block (above ++ segment) children := by
  rw [locate, if_neg hseg]
  cases hc : locate block (above ++ segment) children with
  | some loc => rfl
  | none => exact absurd h (locate_eq_none.mp hc)

theorem locate_siblings {block : B} {above segment : List B} {children siblings : RadixForest B}
    (hseg : block ∉ segment) (h : block ∉ children.blockIds) :
    locate block above (node segment children siblings) = locate block above siblings := by
  rw [locate, if_neg hseg, locate_eq_none.mpr h]

theorem nodup_locate {block : B} {f : RadixForest B} {above : List B} {loc : RadixLocation B}
    (hnodup : f.blockIds.Nodup) (h : locate block above f = some loc) :
    loc.childBlockIds.Nodup := by
  induction f generalizing above with
  | nil => cases h
  | node segment children siblings ihc ihs =>
    simp only [blockIds, List.nodup_append'] at hnodup
    obtain ⟨_, ⟨hnc, hns, _⟩, _⟩ := hnodup
    unfold locate at h
    by_cases hmem : block ∈ segment
    · rw [if_pos hmem] at h
      obtain rfl := Option.some.inj h
      unfold RadixLocation.childBlockIds
      cases (splitAfter block segment).2 with
      | nil => exact (heads_sublist children).nodup hnc
      | cons a rest => exact List.nodup_singleton a
    · rw [if_neg hmem] at h
      cases hc : locate block (above ++ segment) children with
      | some loc' =>
        rw [hc] at h
        obtain rfl := Option.some.inj h
        exact ihc hnc hc
      | none =>
        rw [hc] at h
        exact ihs hns h

theorem proper_locate {block : B} {f : RadixForest B} {above : List B} {loc : RadixLocation B}
    (hproper : f.Proper) (h : locate block above f = some loc) : loc.children.Proper := by
  induction f generalizing above with
  | nil => cases h
  | node segment children siblings ihc ihs =>
    unfold locate at h
    by_cases hmem : block ∈ segment
    · rw [if_pos hmem] at h
      obtain rfl := Option.some.inj h
      exact hproper.2.1
    · rw [if_neg hmem] at h
      cases hc : locate block (above ++ segment) children with
      | some loc' =>
        rw [hc] at h
        obtain rfl := Option.some.inj h
        exact ihc hproper.2.1 hc
      | none =>
        rw [hc] at h
        exact ihs hproper.2.2 h

/-- The path of a located id: it goes down from the context, edge by edge, to the id. -/
theorem path_spec {block : B} {f : RadixForest B} {above : List B} {ctx : Option B}
    {loc : RadixLocation B} (h : locate block above f = some loc) :
    ∃ down, loc.path = above ++ down ∧ down.getLast? = some block ∧
      ∀ e ∈ chainEdges ctx down, e ∈ f.edges ctx := by
  induction f generalizing above ctx with
  | nil => cases h
  | node segment children siblings ihc ihs =>
    unfold locate at h
    simp only [edges, List.mem_append]
    by_cases hmem : block ∈ segment
    · rw [if_pos hmem] at h
      obtain ⟨m, rest, rfl, _, hsplit⟩ := exists_split hmem
      rw [hsplit] at h
      obtain rfl := Option.some.inj h
      refine ⟨m ++ [block], rfl, by simp, fun e he => Or.inl ?_⟩
      rw [chainEdges_append]
      exact List.mem_append_left _ he
    · rw [if_neg hmem] at h
      cases hc : locate block (above ++ segment) children with
      | some loc' =>
        rw [hc] at h
        obtain rfl := Option.some.inj h
        obtain ⟨down, hpath, hlast, hdown⟩ :=
          @ihc (above ++ segment) (lastId ctx segment) hc
        refine ⟨segment ++ down, by rw [hpath, List.append_assoc], ?_, fun e he => ?_⟩
        · rw [List.getLast?_append, hlast, Option.some_or]
        · rw [chainEdges_append, List.mem_append] at he
          rcases he with he | he
          · exact Or.inl he
          · exact Or.inr (Or.inl (hdown e he))
      | none =>
        rw [hc] at h
        obtain ⟨down, hpath, hlast, hdown⟩ := @ihs above ctx h
        exact ⟨down, hpath, hlast, fun e he => Or.inr (Or.inr (hdown e he))⟩

theorem common_prefix (segment ids : List B) : common segment ids <+: ids := by
  induction segment generalizing ids with
  | nil => exact List.nil_prefix
  | cons a segment ih =>
    cases ids with
    | nil => exact List.nil_prefix
    | cons b ids =>
      unfold common
      split
      · subst b
        exact (List.prefix_cons_inj a).mpr (ih ids)
      · exact List.nil_prefix

theorem common_prefix_segment (segment ids : List B) : common segment ids <+: segment := by
  induction segment generalizing ids with
  | nil => exact List.nil_prefix
  | cons a segment ih =>
    cases ids with
    | nil => exact List.nil_prefix
    | cons b ids =>
      unfold common
      split
      · exact (List.prefix_cons_inj a).mpr (ih ids)
      · exact List.nil_prefix

theorem common_append (l : List B) : ∀ (segment ids : List B), l <+: segment →
    l <+: common segment (l ++ ids) := by
  induction l with
  | nil => exact fun _ _ _ => List.nil_prefix
  | cons a l ih =>
    rintro segment ids ⟨rest, rfl⟩
    simp only [List.cons_append, common, if_true]
    exact (List.prefix_cons_inj a).mpr (ih _ ids ⟨rest, rfl⟩)

/-- `lookup` matches a prefix of the selector. -/
theorem matched_prefix (f : RadixForest B) (ids : List B) : f.matched ids <+: ids := by
  induction f generalizing ids with
  | nil => exact List.nil_prefix
  | node segment children siblings ihc ihs =>
    cases ids with
    | nil => exact List.nil_prefix
    | cons id ids =>
      unfold matched
      split
      · split
        · rename_i hfull
          have hpre : segment <+: id :: ids := hfull ▸ common_prefix segment (id :: ids)
          obtain ⟨rest, hrest⟩ := hpre
          rw [← hrest, List.drop_left]
          exact (List.prefix_append_right_inj segment).mpr (ihc rest)
        · exact common_prefix segment (id :: ids)
      · exact ihs (id :: ids)

/-- The matched ids are a path of the forest. -/
theorem matched_path (f : RadixForest B) (ids : List B) (ctx : Option B) :
    ∀ e ∈ chainEdges ctx (f.matched ids), e ∈ f.edges ctx := by
  induction f generalizing ids ctx with
  | nil => simp [matched, chainEdges]
  | node segment children siblings ihc ihs =>
    cases ids with
    | nil => simp [matched, chainEdges]
    | cons id ids =>
      intro e he
      unfold matched at he
      simp only [edges, List.mem_append]
      split at he
      · split at he
        · rw [chainEdges_append, List.mem_append] at he
          rcases he with he | he
          · exact Or.inl he
          · exact Or.inr (Or.inl (ihc _ _ e he))
        · obtain ⟨rest, hrest⟩ := common_prefix_segment segment (id :: ids)
          rw [← hrest, chainEdges_append]
          exact Or.inl (List.mem_append_left _ he)
      · exact Or.inr (Or.inr (ihs _ _ e he))

/-- `lookup` does not stop above a block: a selector that goes down the path of a block is matched
at least down to it. -/
theorem path_matched {block : B} {f : RadixForest B} {above : List B} {loc : RadixLocation B}
    (hproper : f.Proper) (hnodup : f.blockIds.Nodup) (h : locate block above f = some loc) :
    ∃ down, loc.path = above ++ down ∧ ∀ rest, down <+: f.matched (down ++ rest) := by
  induction f generalizing above with
  | nil => cases h
  | node segment children siblings ihc ihs =>
    obtain ⟨hsegment, hpc, hps⟩ := hproper
    obtain ⟨a, tail, rfl⟩ := List.exists_cons_of_ne_nil hsegment
    simp only [blockIds] at hnodup
    obtain ⟨-, hrest, hdisjoint⟩ := List.nodup_append'.mp hnodup
    obtain ⟨hnc, hns, -⟩ := List.nodup_append'.mp hrest
    unfold locate at h
    by_cases hmem : block ∈ a :: tail
    · rw [if_pos hmem] at h
      obtain ⟨m, rest, hcut, -, hsplit⟩ := exists_split hmem
      rw [hsplit] at h
      obtain rfl := Option.some.inj h
      refine ⟨m ++ [block], rfl, fun ids => ?_⟩
      have hpre : m ++ [block] <+: a :: tail := ⟨rest, by rw [hcut, List.append_assoc, List.singleton_append]⟩
      obtain ⟨k, hk⟩ : ∃ k, m ++ [block] = a :: k := by
        cases m with
        | nil => exact ⟨[], by simpa using (List.cons_prefix_cons.mp hpre).1⟩
        | cons b m => exact ⟨m ++ [block], by rw [List.cons_append, (List.cons_prefix_cons.mp hpre).1]⟩
      have hcommon := common_append (m ++ [block]) (a :: tail) ids hpre
      rw [hk, List.cons_append] at hcommon ⊢
      unfold matched
      rw [if_pos List.head?_cons]
      split
      · exact (hk ▸ hpre).trans (List.prefix_append _ _)
      · exact hcommon
    · rw [if_neg hmem] at h
      cases hc : locate block (above ++ a :: tail) children with
      | some loc' =>
        rw [hc] at h
        obtain rfl := Option.some.inj h
        obtain ⟨down, hpath, hmatched⟩ := ihc hpc hnc hc
        refine ⟨a :: tail ++ down, by rw [hpath, List.append_assoc], fun rest => ?_⟩
        have hfull : common (a :: tail) (a :: tail ++ (down ++ rest)) = a :: tail :=
          ((common_prefix_segment _ _).eq_of_length_le
            (common_append (a :: tail) (a :: tail) (down ++ rest) (List.prefix_refl _)).length_le)
        have hdrop : (a :: (tail ++ (down ++ rest))).drop (a :: tail).length = down ++ rest :=
          @List.drop_left _ (a :: tail) _
        simp only [List.append_assoc, List.cons_append] at hfull ⊢
        unfold matched
        rw [if_pos List.head?_cons, if_pos hfull, hdrop]
        exact (List.prefix_append_right_inj (a :: tail)).mpr (hmatched rest)
      | none =>
        rw [hc] at h
        obtain ⟨down, hpath, hmatched⟩ := ihs hps hns h
        refine ⟨down, hpath, fun rest => ?_⟩
        -- the path starts at a sibling, so not at the head of this segment
        obtain ⟨down', hpath', hlast, hchain⟩ := @path_spec _ _ _ _ _ none _ h
        obtain rfl : down = down' := List.append_cancel_left (hpath.symm.trans hpath')
        cases down with
        | nil => cases hlast
        | cons b down =>
          have hb : b ∈ siblings.blockIds :=
            (mem_blockIds none).mpr ⟨none, hchain _ List.mem_cons_self⟩
          have hne : (a :: tail).head? ≠ some b := by
            rintro ⟨⟩
            exact hdisjoint List.mem_cons_self (List.mem_append_right _ hb)
          have := hmatched rest
          rw [List.cons_append] at this ⊢
          unfold matched
          rw [if_neg hne]
          exact this

/-- The number of children of an id of a whole forest. -/
def childCount (f : RadixForest B) (block : B) : Nat :=
  match f.locate block [] with
  | some loc => loc.childCount
  | none => 0

omit [DecidableEq B] in
theorem suffix_of_childCount {loc : RadixLocation B} (hzero : loc.childCount = 0) :
    loc.suffix = [] ∧ loc.children = nil := by
  unfold RadixLocation.childCount at hzero
  split at hzero
  · refine ⟨‹_›, ?_⟩
    cases hc : loc.children with
    | nil => rfl
    | node segment children siblings => rw [hc] at hzero; cases hzero
  · cases hzero

theorem childCount_eq_zero {f : RadixForest B} {b : B} (hproper : f.Proper)
    (hnodup : f.blockIds.Nodup) : f.childCount b = 0 ↔ ∀ x, (x, some b) ∉ f.edges none := by
  unfold childCount
  cases h : f.locate b [] with
  | none =>
    have hb : b ∉ f.blockIds := locate_eq_none.mp h
    simp only [true_iff]
    intro x hx
    rcases mem_edges_parent hx with hp | hp
    · cases hp
    · exact hb hp
  | some loc =>
    constructor
    · intro hzero x hx
      have hx' := (mem_childBlockIds hproper hnodup (by simp) h).mpr hx
      obtain ⟨hsuffix, hchildren⟩ := suffix_of_childCount hzero
      simp [RadixLocation.childBlockIds, hsuffix, hchildren, heads] at hx'
    · intro hnone
      have hempty : loc.childBlockIds = [] := by
        rw [List.eq_nil_iff_forall_not_mem]
        intro x hx
        exact hnone x ((mem_childBlockIds hproper hnodup (by simp) h).mp hx)
      unfold RadixLocation.childBlockIds at hempty
      unfold RadixLocation.childCount
      cases hs : loc.suffix with
      | cons y rest => rw [hs] at hempty; cases hempty
      | nil =>
        rw [hs] at hempty
        simp only [hs, if_true, width_eq_length_heads (proper_locate hproper h)]
        rw [show loc.children.heads = [] from hempty, List.length_nil]

/-! ## Updates -/

theorem insertBelow_of_not_mem {parent block : B} {f : RadixForest B} (h : parent ∉ f.blockIds) :
    f.insertBelow parent block = f := by
  induction f with
  | nil => rfl
  | node segment children siblings ihc ihs =>
    simp only [blockIds, List.mem_append, not_or] at h
    unfold insertBelow
    rw [if_neg h.1, ihc h.2.1, ihs h.2.2]

/-- **Insertion adds one edge**, whether or not the parent's segment has to be split. -/
theorem edges_insertBelow {parent block : B} {f : RadixForest B} {ctx : Option B}
    (hnodup : f.blockIds.Nodup) (h : parent ∈ f.blockIds) :
    ((f.insertBelow parent block).edges ctx).Perm ((block, some parent) :: f.edges ctx) := by
  induction f generalizing ctx with
  | nil => cases h
  | node segment children siblings ihc ihs =>
    simp only [blockIds, List.nodup_append', List.disjoint_append_right] at hnodup
    obtain ⟨_, ⟨hnc, hns, hcs⟩, hdc, hds⟩ := hnodup
    simp only [blockIds, List.mem_append] at h
    unfold insertBelow
    by_cases hmem : parent ∈ segment
    · rw [if_pos hmem]
      obtain ⟨m, rest, rfl, _, hsplit⟩ := exists_split hmem
      rw [hsplit]
      cases rest with
      | nil =>
        simp only [edges, List.append_nil, lastId_concat, edges_append, leaf, chainEdges]
        grind
      | cons next rest =>
        simp only [edges, leaf, chainEdges, chainEdges_append, lastId_concat, lastId,
          lastId_append ctx (m ++ [parent]), List.append_nil]
        grind
    · rw [if_neg hmem]
      simp only [edges]
      by_cases hc : parent ∈ children.blockIds
      · rw [insertBelow_of_not_mem fun hs => hcs hc hs]
        have := @ihc (lastId ctx segment) hnc hc
        grind
      · rw [insertBelow_of_not_mem hc]
        have := @ihs ctx hns ((h.resolve_left hmem).resolve_left hc)
        grind

theorem proper_insertBelow {parent block : B} {f : RadixForest B} (h : f.Proper) :
    (f.insertBelow parent block).Proper := by
  induction f with
  | nil => exact h
  | node segment children siblings ihc ihs =>
    obtain ⟨hseg, hpc, hps⟩ := h
    have hleaf : (leaf block).Proper := ⟨by simp, trivial, trivial⟩
    unfold insertBelow
    by_cases hmem : parent ∈ segment
    · rw [if_pos hmem]
      obtain ⟨m, rest, rfl, _, hsplit⟩ := exists_split hmem
      rw [hsplit]
      cases rest with
      | nil => exact ⟨hseg, proper_append hpc hleaf, hps⟩
      | cons next rest => exact ⟨by simp, ⟨by simp, hpc, hleaf⟩, hps⟩
    · rw [if_neg hmem]
      exact ⟨hseg, ihc hpc, ihs hps⟩

theorem removeLast_of_not_mem {block : B} {f : RadixForest B} (h : block ∉ f.blockIds) :
    f.removeLast block = f := by
  induction f with
  | nil => rfl
  | node segment children siblings ihc ihs =>
    simp only [blockIds, List.mem_append, not_or] at h
    unfold removeLast
    rw [if_neg h.1, ihc h.2.1, ihs h.2.2]

/-- **Removal takes one edge away**, when the id has no child. -/
theorem edges_removeLast {block : B} {f : RadixForest B} {above : List B} {ctx : Option B}
    {loc : RadixLocation B} (hnodup : f.blockIds.Nodup) (h : locate block above f = some loc)
    (hsuffix : loc.suffix = []) (hchildren : loc.children = nil) :
    ∃ p, (f.edges ctx).Perm ((block, p) :: (f.removeLast block).edges ctx) := by
  induction f generalizing above ctx with
  | nil => cases h
  | node segment children siblings ihc ihs =>
    simp only [blockIds, List.nodup_append', List.disjoint_append_right] at hnodup
    obtain ⟨_, ⟨hnc, hns, hcs⟩, hdc, hds⟩ := hnodup
    unfold locate at h
    unfold removeLast
    by_cases hmem : block ∈ segment
    · rw [if_pos hmem] at h ⊢
      obtain ⟨m, rest, rfl, _, hsplit⟩ := exists_split hmem
      rw [hsplit] at h
      obtain rfl := Option.some.inj h
      obtain rfl : rest = [] := hsuffix
      obtain rfl : children = nil := hchildren
      simp only [List.append_nil, List.dropLast_concat]
      refine ⟨lastId ctx m, ?_⟩
      cases m with
      | nil => simp [edges, chainEdges, lastId]
      | cons a m =>
        rw [if_neg (by simp)]
        simp only [edges, chainEdges_append, chainEdges, List.nil_append]
        grind
    · rw [if_neg hmem] at h ⊢
      simp only [edges]
      cases hc : locate block (above ++ segment) children with
      | some loc' =>
        rw [hc] at h
        obtain rfl := Option.some.inj h
        have hbc : block ∈ children.blockIds := by
          by_contra hnot
          rw [locate_eq_none.mpr hnot] at hc
          cases hc
        obtain ⟨p, hp⟩ := @ihc (above ++ segment) (lastId ctx segment) hnc hc
        refine ⟨p, ?_⟩
        rw [removeLast_of_not_mem fun hs => hcs hbc hs]
        grind
      | none =>
        rw [hc] at h
        obtain ⟨p, hp⟩ := @ihs above ctx hns h
        refine ⟨p, ?_⟩
        rw [removeLast_of_not_mem (locate_eq_none.mp hc)]
        grind

theorem proper_removeLast (f : RadixForest B) (block : B) (h : f.Proper) :
    (f.removeLast block).Proper := by
  induction f with
  | nil => exact h
  | node segment children siblings ihc ihs =>
    obtain ⟨hseg, hpc, hps⟩ := h
    unfold removeLast
    split
    · split
      · exact hps
      · refine ⟨?_, hpc, hps⟩
        rcases List.eq_nil_or_concat' segment with rfl | ⟨m, a, rfl⟩
        · exact absurd rfl hseg
        · rw [List.dropLast_concat]
          rintro rfl
          exact ‹¬ _› rfl
    · exact ⟨hseg, ihc hpc, ihs hps⟩

end RadixForest

end SparseVllm
