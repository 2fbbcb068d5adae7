import SparseVllm.Prefix.Delivery

/-!
# Deleting a subtree (`preview_delete_subtree`, `safe_delete_subtree`)

`subtree_block_ids` walks the nodes below a location, which is the location's block and all its
descendants. The plan takes them deepest first, so that the children of a block are decided before
the block is: it takes exactly the blocks of `freeable_block_ids()` among them, in an order in which
each has lost its children when it goes.

## Results

* `mem_subtreeBlockIds`, `nodup_subtreeBlockIds`: what the walk of a subtree visits.
* `planned_foldl`: what the plan decides about any list in which children stand before their parents.
* **`safeDeleteSubtree_exact`**: `safe_delete_subtree`, in every reachable state.
-/

namespace SparseVllm

open SparseVllm.Lib

variable {B P : Type}

/-! ## Subtrees -/

namespace RadixForest

/-- `g` is what hangs below the id `b` of `f`. -/
structure Hangs (f : RadixForest B) (ctx : Option B) (b : B) (g : RadixForest B) : Prop where
  ids : (b :: g.blockIds).Sublist f.blockIds
  edges : ∀ e ∈ g.edges (some b), e ∈ f.edges ctx
  closed : ∀ x p, (x, some p) ∈ f.edges ctx → p ∈ b :: g.blockIds → x ∈ g.blockIds

theorem walk_perm (f : RadixForest B) : f.walk.Perm f.blockIds := by
  induction f with
  | nil => rfl
  | node segment children siblings ihc ihs =>
    calc (siblings.walk ++ (segment ++ children.walk)).Perm
          ((segment ++ children.walk) ++ siblings.walk) := List.perm_append_comm
      List.Perm _ (segment ++ (children.blockIds ++ siblings.blockIds)) := by
        rw [List.append_assoc]
        exact (ihc.append ihs).append_left segment

/-- The last id of a segment is in it, or is the context. -/
theorem mem_of_lastId {ctx : Option B} {l : List B} {c : B} (h : lastId ctx l = some c) :
    c ∈ l ∨ ctx = some c := by
  rw [lastId_eq, Option.or_eq_some_iff] at h
  rcases h with h | h
  · exact Or.inl (List.mem_of_getLast? h)
  · exact Or.inr h.2

/-- Below an id every id has a parent. -/
theorem exists_parent {f : RadixForest B} {b x : B} {p : Option B}
    (h : (x, p) ∈ f.edges (some b)) : ∃ q, p = some q := by
  induction f generalizing b with
  | nil => cases h
  | node segment children siblings ihc ihs =>
    have hchain : ∀ {l : List B} {c : B}, (x, p) ∈ chainEdges (some c) l → ∃ q, p = some q := by
      intro l
      induction l with
      | nil => intro c hx; cases hx
      | cons a l ih =>
        intro c hx
        rcases List.mem_cons.mp hx with heq | hx
        · exact ⟨c, congrArg Prod.snd heq⟩
        · exact ih hx
    obtain ⟨c, hc⟩ : ∃ c, lastId (some b) segment = some c := by
      rw [lastId_eq]
      cases segment.getLast? with
      | none => exact ⟨b, rfl⟩
      | some c => exact ⟨c, rfl⟩
    simp only [edges, List.mem_append] at h
    rcases h with h | h | h
    · exact hchain h
    · exact ihc (hc ▸ h)
    · exact ihs h

variable [DecidableEq B]

/-- What a location has below it hangs below its block. -/
theorem hangs_of_locate {f : RadixForest B} {above : List B} {ctx : Option B} {b : B}
    {loc : RadixLocation B} (hnodup : f.blockIds.Nodup) (hctx : ∀ c, ctx = some c → c ∉ f.blockIds)
    (h : f.locate b above = some loc) : Hangs f ctx b (.node loc.suffix loc.children .nil) := by
  induction f generalizing above ctx with
  | nil => cases h
  | node segment children siblings ihc ihs =>
    simp only [blockIds, List.nodup_append', List.disjoint_append_right] at hnodup
    obtain ⟨hseg, ⟨hnc, hns, hcs⟩, hdc, hds⟩ := hnodup
    simp only [blockIds, List.mem_append, not_or] at hctx
    unfold locate at h
    by_cases hmem : b ∈ segment
    · rw [if_pos hmem] at h
      obtain ⟨m, rest, rfl, hm, hsplit⟩ := exists_split hmem
      rw [hsplit] at h
      obtain rfl := Option.some.inj h
      refine ⟨?_, fun e he => ?_, fun x p hx hp => ?_⟩
      · simp only [blockIds, List.append_nil, List.append_assoc, List.singleton_append]
        exact ((List.Sublist.refl _).append (List.sublist_append_left ..)).cons_cons b |>.trans
          (List.sublist_append_right ..)
      · simp only [edges, List.append_nil] at he
        simp only [edges, chainEdges_append ctx (m ++ [b]), lastId_append ctx (m ++ [b]),
          lastId_concat, List.mem_append] at he ⊢
        rcases he with he | he
        · exact Or.inl (Or.inr he)
        · exact Or.inr (Or.inl he)
      · simp only [blockIds, List.append_nil, List.mem_cons, List.mem_append] at hp ⊢
        simp only [edges, chainEdges_append ctx (m ++ [b]), lastId_append ctx (m ++ [b]),
          lastId_concat, List.mem_append] at hx
        have hbelow : ∀ q, q = b ∨ q ∈ rest ∨ q ∈ children.blockIds →
            (∀ c, ctx = some c → c ≠ q) ∧ q ∉ m ∧ q ∉ siblings.blockIds := by
          have hrest := (List.nodup_append'.mp hseg).2.2
          rintro q hq
          have hin : q ∈ (m ++ [b]) ++ rest ∨ q ∈ children.blockIds := by
            rcases hq with rfl | hq | hq
            · exact Or.inl (by simp)
            · exact Or.inl (List.mem_append_right _ hq)
            · exact Or.inr hq
          refine ⟨?_, fun hqm => ?_, fun hqs => ?_⟩
          · rintro c hc rfl
            rcases hin with hin | hin
            · exact (hctx c hc).1 hin
            · exact (hctx c hc).2.1 hin
          · rcases hq with rfl | hq | hq
            · exact hm hqm
            · exact hrest (List.mem_append_left _ hqm) hq
            · exact hdc (List.mem_append_left _ (List.mem_append_left _ hqm)) hq
          · rcases hin with hin | hin
            · exact hds hin hqs
            · exact hcs hin hqs
        obtain ⟨hpctx, hpm, hps⟩ := hbelow p hp
        rcases hx with (hx | hx) | hx | hx
        · -- above `b` in its segment
          rcases mem_chainEdges_parent hx with hq | hq
          · exact absurd rfl (hpctx p hq)
          · rw [List.dropLast_concat] at hq
            exact absurd hq hpm
        · have hxr := List.mem_map_of_mem (f := Prod.fst) hx
          rw [chainEdges_fst] at hxr
          exact Or.inl hxr
        · exact Or.inr ((mem_blockIds _).mpr ⟨_, hx⟩)
        · rcases mem_edges_parent hx with hq | hq
          · exact absurd rfl (hpctx p hq)
          · exact absurd hq hps
    · rw [if_neg hmem] at h
      cases hc : locate b (above ++ segment) children with
      | some loc' =>
        rw [hc] at h
        obtain rfl := Option.some.inj h
        have hlast : ∀ c, lastId ctx segment = some c → c ∉ children.blockIds := by
          intro c hcc hmemc
          rcases mem_of_lastId hcc with hcc | hcc
          · exact hdc hcc hmemc
          · exact (hctx c hcc).2.1 hmemc
        obtain ⟨hids, hedges, hclosed⟩ := ihc hnc hlast hc
        refine ⟨?_, fun e he => ?_, fun x p hx hp => ?_⟩
        · exact hids.trans ((List.sublist_append_left ..).trans (List.sublist_append_right ..))
        · exact List.mem_append_right _ (List.mem_append_left _ (hedges e he))
        · have hpc := hids.subset hp
          simp only [edges, List.mem_append] at hx
          rcases hx with hx | hx | hx
          · rcases mem_chainEdges_parent hx with hq | hq
            · exact absurd hpc (hctx p hq).2.1
            · exact absurd hpc (hdc (List.dropLast_subset _ hq))
          · exact hclosed x p hx hp
          · rcases mem_edges_parent hx with hq | hq
            · exact absurd hpc (hctx p hq).2.1
            · exact absurd hq (hcs hpc)
      | none =>
        rw [hc] at h
        obtain ⟨hids, hedges, hclosed⟩ := ihs hns (fun c hc => (hctx c hc).2.2) h
        refine ⟨?_, fun e he => ?_, fun x p hx hp => ?_⟩
        · exact hids.trans ((List.sublist_append_right ..).trans (List.sublist_append_right ..))
        · exact List.mem_append_right _ (List.mem_append_right _ (hedges e he))
        · have hpc := hids.subset hp
          simp only [edges, List.mem_append] at hx
          rcases hx with hx | hx | hx
          · rcases mem_chainEdges_parent hx with hq | hq
            · exact absurd hpc (hctx p hq).2.2
            · exact absurd hpc (hds (List.dropLast_subset _ hq))
          · rcases mem_edges_parent hx with hq | hq
            · rcases mem_of_lastId hq with hq | hq
              · exact absurd hpc (hds hq)
              · exact absurd hpc (hctx p hq).2.2
            · exact absurd hpc (hcs hq)
          · exact hclosed x p hx hp

end RadixForest

namespace RadixTreeBackend

variable [DecidableEq B] {t : RadixTreeBackend B} {b x : B}

theorem subtreeBlockIds_hangs (hb : b ∈ t.ids) : ∃ g : RadixForest B,
    (t.subtreeBlockIds b).Perm (b :: g.blockIds) ∧ RadixForest.Hangs t.root none b g := by
  unfold subtreeBlockIds
  cases h : t.location b with
  | none => exact absurd hb (location_eq_none.mp h)
  | some loc =>
    refine ⟨.node loc.suffix loc.children .nil, ?_, RadixForest.hangs_of_locate t.nodup nofun h⟩
    simp only [RadixLocation.subtree, RadixForest.blockIds, List.append_nil, List.cons_append]
    exact ((RadixForest.walk_perm _).append_left _).cons b

theorem nodup_subtreeBlockIds (hb : b ∈ t.ids) : (t.subtreeBlockIds b).Nodup := by
  obtain ⟨g, hperm, hangs⟩ := subtreeBlockIds_hangs hb
  exact hperm.nodup_iff.mpr (hangs.ids.nodup t.nodup)

/-- **A subtree is its root and what is below it.** -/
theorem mem_subtreeBlockIds (hb : b ∈ t.ids) : x ∈ t.subtreeBlockIds b ↔
    Relation.ReflTransGen (fun c p => (c, some p) ∈ t.edges) x b := by
  obtain ⟨g, hperm, hangs⟩ := subtreeBlockIds_hangs hb
  rw [hperm.mem_iff]
  constructor
  · intro hx
    -- up the path, until the parent is not in the subtree any more
    induction hdepth : (t.pathToBlock x).length using Nat.strong_induction_on generalizing x with
    | _ n ih =>
      rcases List.mem_cons.mp hx with rfl | hx
      · exact .refl
      · obtain ⟨p, hp⟩ := (RadixForest.mem_blockIds (some b)).mp hx
        obtain ⟨q, rfl⟩ := RadixForest.exists_parent hp
        have hedge : (x, some q) ∈ t.edges := hangs.edges _ hp
        have hq : q ∈ b :: g.blockIds := by
          rcases RadixForest.mem_edges_parent hp with hq | hq
          · exact List.mem_cons.mpr (Or.inl (Option.some.inj hq).symm)
          · exact List.mem_cons_of_mem _ hq
        have hlength := congrArg List.length (pathToBlock_child hedge)
        rw [List.length_append, List.length_singleton, hdepth] at hlength
        exact .head hedge (ih _ (by omega) hq rfl)
  · intro hx
    induction hx using Relation.ReflTransGen.head_induction_on with
    | refl => exact List.mem_cons_self
    | head hstep _ ih => exact List.mem_cons_of_mem _ (hangs.closed _ _ hstep ih)

end RadixTreeBackend

/-! ## The plan -/

namespace RadixPrefixIndex

variable [LinearOrder B] {s t : RadixPrefixIndex B P} {id root : B} {b : PrefixCacheBlock B P}

/-- The selector is the chain of blocks from the root of the tree to `root`. -/
def Selects (s : RadixPrefixIndex B P) (blockIds : List B) (root : B) : Prop :=
  blockIds.getLast? = some root ∧
    ∀ e ∈ RadixForest.chainEdges none blockIds, e ∈ s.backend.edges

/-- The block `id` is in the subtree of `root`. -/
def InSubtree (s : RadixPrefixIndex B P) (root id : B) : Prop :=
  Relation.ReflTransGen s.Child id root

omit [LinearOrder B] in
theorem Selects.mem_ids {blockIds : List B} (h : s.Selects blockIds root) :
    root ∈ s.backend.ids := by
  obtain ⟨m, rfl⟩ := List.getLast?_eq_some_iff.mp h.1
  refine RadixTreeBackend.mem_ids.mpr ⟨_, h.2 (root, RadixForest.lastId none m) ?_⟩
  rw [RadixForest.chainEdges_append]
  exact List.mem_append_right _ List.mem_cons_self

theorem exactSubtreeIds_of_selects {blockIds : List B} (h : s.Selects blockIds root) :
    s.exactSubtreeIds blockIds = some (s.backend.subtreeBlockIds root) := by
  have hhit : s.backend.lookup blockIds blockIds.length = blockIds :=
    (RadixTreeBackend.lookup_prefix _ _).eq_of_length_le
      (RadixTreeBackend.lookup_maximal List.prefix_rfl h.2).length_le
  unfold exactSubtreeIds
  simp only [hhit, h.1, if_true]

theorem exactSubtreeIds_eq_none {blockIds : List B} (h : ∀ root, ¬ s.Selects blockIds root) :
    s.exactSubtreeIds blockIds = none := by
  unfold exactSubtreeIds
  cases hlast : (s.backend.lookup blockIds blockIds.length).getLast? with
  | none => simp only [hlast]
  | some last =>
    simp only [hlast, ite_eq_right_iff, reduceCtorEq, imp_false]
    intro hlength
    have hhit := (RadixTreeBackend.lookup_prefix _ _).eq_of_length hlength
    have hpath := RadixForest.matched_path s.backend.root (blockIds.take blockIds.length) none
    rw [show s.backend.root.matched (blockIds.take blockIds.length) = blockIds from hhit] at hpath
    exact h last ⟨hhit ▸ hlast, hpath⟩

theorem mem_subtree (hs : Indexed s) (hroot : root ∈ s.backend.ids) :
    id ∈ s.backend.subtreeBlockIds root ↔ s.InSubtree root id := by
  rw [RadixTreeBackend.mem_subtreeBlockIds hroot]
  have hchild : (fun c p => (c, some p) ∈ s.backend.edges) = s.Child := by
    funext c p
    rw [hs.edges, child_iff]
  unfold InSubtree
  rw [hchild]

/-- No count is negative. -/
def CountsValid (s : RadixPrefixIndex B P) : Prop :=
  ∀ id b, s.getBlock id = some b → 0 ≤ b.refCount

/-- Nothing but the children can block a removable block, and nothing else is removable. -/
theorem blockedReason_eq_none (hs : Indexed s) (hcount : 0 ≤ b.refCount) {planned : List B} :
    s.blockedReason planned id b = none ↔ Removable b ∧ ∀ c, s.Child c id → c ∈ planned := by
  have hany : (s.backend.childBlockIds id).any (fun c => c ∉ planned) = false ↔
      ∀ c, s.Child c id → c ∈ planned := by
    simp [List.any_eq_false, hs.mem_childBlockIds]
  rw [← hany]
  unfold blockedReason Removable
  split
  · simp only [reduceCtorEq, false_iff]
    omega
  split
  · simp only [reduceCtorEq, false_iff]
    omega
  split
  · rename_i htransfer
    simp [htransfer]
  · rename_i hrefs hpriority htransfer
    simp only [ne_eq, not_not] at htransfer
    split
    · rename_i hmem
      simp only [reduceCtorEq, hmem, Bool.true_eq_false, and_false]
    · rename_i hmem
      simp only [Bool.not_eq_true] at hmem
      simp only [hmem, htransfer, and_true, true_iff]
      omega

theorem planBlock_blocked {r : PrefixCacheDeleteResult B P × List B} {reason : BlockedReason}
    (hb : s.getBlock id = some b) (h : s.blockedReason r.2 id b = some reason) :
    s.planBlock r id =
      ({ r.1 with blockedBlocks := r.1.blockedBlocks ++ [(some id, reason)] }, r.2) := by
  simp only [planBlock, hb, h]

theorem planBlock_planned {r : PrefixCacheDeleteResult B P × List B} (hb : s.getBlock id = some b)
    (h : s.blockedReason r.2 id b = none) : s.planBlock r id =
      ({ r.1 with deletedBlocks := r.1.deletedBlocks ++ [b] }, r.2 ++ [id]) := by
  simp only [planBlock, hb, h]

/-- What the plan has decided about the ids `done`. -/
structure Planned (s : RadixPrefixIndex B P) (done : List B)
    (r : PrefixCacheDeleteResult B P × List B) : Prop where
  ids : r.2 = done.filter (· ∈ s.scanFreeable)
  deleted : r.1.deletedBlocks.map (·.stableBlockId) = r.2
  here : ∀ b ∈ r.1.deletedBlocks, s.getBlock b.stableBlockId = some b
  blocked : r.1.blockedBlocks.map Prod.fst = (done.filter (· ∉ s.scanFreeable)).map some
  peeling : Peeling s.Child (s.removableAt · = true) ∅ r.2

theorem Planned.empty : Planned s [] (⟨[], []⟩, []) where
  ids := rfl
  deleted := rfl
  here := nofun
  blocked := rfl
  peeling := trivial

/-- A block whose children are decided is decided as `freeable_block_ids()` says. -/
theorem Planned.planBlock (hs : Indexed s) (hcounts : CountsValid s) {done : List B}
    {r : PrefixCacheDeleteResult B P × List B} (h : Planned s done r) (hnew : id ∉ done)
    (hb : s.getBlock id = some b) (hchildren : ∀ c, s.Child c id → c ∈ done) :
    Planned s (done ++ [id]) (s.planBlock r id) := by
  have hself : s.removableAt id = true ↔ Removable b := by
    unfold removableAt
    rw [hb]
    exact decide_eq_true_iff
  have hreason : s.blockedReason r.2 id b = none ↔ id ∈ s.scanFreeable := by
    rw [blockedReason_eq_none hs (hcounts id b hb), mem_scanFreeable hs, h.ids, ← hself]
    constructor
    · rintro ⟨hok, hbelow⟩
      refine .peel hok fun c hc => ?_
      exact (mem_scanFreeable hs).mp (of_decide_eq_true (List.mem_filter.mp (hbelow c hc)).2)
    · intro hpeel
      refine ⟨hpeel.self, fun c hc => List.mem_filter.mpr ⟨hchildren c hc, ?_⟩⟩
      exact decide_eq_true ((mem_scanFreeable hs).mpr (hpeel.of_child hc))
  cases hblocked : s.blockedReason r.2 id b with
  | none =>
    have hfree := hreason.mp hblocked
    have hpeel := (mem_scanFreeable hs).mp hfree
    rw [planBlock_planned hb hblocked]
    refine ⟨?_, ?_, ?_, ?_, ?_⟩
    · simp [h.ids, List.filter_append, hfree]
    · simp [h.deleted, hs.ids id b hb]
    · intro b' hb'
      rcases List.mem_append.mp hb' with hb' | hb'
      · exact h.here b' hb'
      · obtain rfl := List.mem_singleton.mp hb'
        rw [hs.ids id b' hb]
        exact hb
    · simp [h.blocked, List.filter_append, hfree]
    · refine h.peeling.concat hpeel.self ⟨nofun, fun hid => ?_⟩ fun c hc => Or.inr ?_
      · rw [h.ids] at hid
        exact hnew (List.mem_filter.mp hid).1
      · rw [h.ids]
        exact List.mem_filter.mpr ⟨hchildren c hc,
          decide_eq_true ((mem_scanFreeable hs).mpr (hpeel.of_child hc))⟩
  | some reason =>
    have hkept : id ∉ s.scanFreeable := by
      rw [← hreason, hblocked]
      exact nofun
    rw [planBlock_blocked hb hblocked]
    refine ⟨?_, h.deleted, h.here, ?_, h.peeling⟩
    · simp [h.ids, List.filter_append, hkept]
    · simp [h.blocked, List.filter_append, hkept]

/-- The loop decides every block of a list in which children stand before their parents. -/
theorem planned_foldl (hs : Indexed s) (hcounts : CountsValid s) {l : List B} (hnodup : l.Nodup)
    (hhere : ∀ id ∈ l, ∃ b, s.getBlock id = some b)
    (horder : ∀ pre id post, l = pre ++ id :: post → ∀ c, s.Child c id → c ∈ pre) :
    Planned s l (l.foldl s.planBlock (⟨[], []⟩, [])) := by
  induction l using List.reverseRecOn with
  | nil => exact .empty
  | append_singleton l id ih =>
    rw [List.foldl_append]
    obtain ⟨b, hb⟩ := hhere id (by simp)
    have hdone := by
      refine ih (List.nodup_append'.mp hnodup).1 (fun q hq => hhere q (by simp [hq])) ?_
      rintro pre q post rfl
      exact horder pre q (post ++ [id]) (by simp)
    refine hdone.planBlock hs hcounts (fun hid => ?_) hb (horder l id [] rfl)
    exact (List.nodup_append'.mp hnodup).2.2 hid List.mem_cons_self

/-- Deepest first, the children of a block stand before it. -/
theorem deepestFirst_order (hs : Indexed s) {l : List B}
    (hclosed : ∀ id ∈ l, ∀ c, s.Child c id → c ∈ l) {pre post : List B}
    (hsplit : s.deepestFirst l = pre ++ id :: post) {c : B} (hc : s.Child c id) : c ∈ pre := by
  have hperm : (s.deepestFirst l).Perm l := List.mergeSort_perm ..
  have hsorted : (s.deepestFirst l).Pairwise fun a b => s.depth b ≤ s.depth a := by
    refine (List.pairwise_mergeSort ?_ ?_ l).imp fun h => of_decide_eq_true h
    · intro a b c hab hbc
      exact decide_eq_true ((of_decide_eq_true hbc).trans (of_decide_eq_true hab))
    · intro a b
      simpa using Nat.le_total _ _
  have hmem : c ∈ s.deepestFirst l :=
    hperm.mem_iff.mpr (hclosed id (hperm.mem_iff.mp (by simp [hsplit])) c hc)
  have hdepth := hs.depth_child hc
  rw [hsplit] at hmem hsorted
  rcases List.mem_append.mp hmem with hpre | hpost
  · exact hpre
  · -- the ids from the block on are no deeper than it
    have hle : s.depth c ≤ s.depth id := by
      rcases List.mem_cons.mp hpost with rfl | hpost
      · exact le_rfl
      · exact (List.pairwise_cons.mp (List.pairwise_append.mp hsorted).2.1).1 c hpost
    omega

/-! ## The deletions -/

/-- A list that peels is deleted, block by block. -/
theorem deletePlanned_ok (hs : Indexed s) {blocks : List (PrefixCacheBlock B P)}
    (hhere : ∀ b ∈ blocks, s.getBlock b.stableBlockId = some b)
    (hpeel : Peeling s.Child (s.removableAt · = true) ∅ (blocks.map (·.stableBlockId))) :
    ∃ t, deletePlanned blocks s = .ok blocks t ∧ Indexed t ∧
      EvictedFrom s (blocks.map (·.stableBlockId)) t := by
  induction blocks generalizing s with
  | nil => exact ⟨s, rfl, hs, fun id => rfl, fun e => by simp⟩
  | cons b blocks ih =>
    obtain ⟨⟨hok, -, hleaf⟩, hrest⟩ := hpeel
    have hb := hhere b List.mem_cons_self
    have hrem : Removable b := by
      unfold removableAt at hok
      rw [hb] at hok
      exact of_decide_eq_true hok
    obtain ⟨u, hrun, hgone⟩ := removeBlockFromIndex_ok hs hb hrem
      (hs.childCount_eq_zero.mpr fun c hc => hleaf c hc)
    have hnodup : ((b :: blocks).map (·.stableBlockId)).Nodup :=
      Peeling.nodup ⟨⟨hok, Set.notMem_empty _, hleaf⟩, hrest⟩
    have hchild : u.Child = fun c p => s.Child c p ∧ c ≠ b.stableBlockId := by
      funext c p
      rw [child_iff, child_iff, hgone.getBlock]
      by_cases hc : c = b.stableBlockId
      · simp [hc]
      · simp [hc]
    have hremovable : (fun id => u.removableAt id = true) =
        fun id => s.removableAt id = true ∧ id ≠ b.stableBlockId := by
      funext id
      unfold removableAt
      rw [hgone.getBlock]
      by_cases hid : id = b.stableBlockId
      · simp [hid]
      · simp [hid]
    obtain ⟨t, hdelete, ht, hleft⟩ := ih (hs.removed hgone) (fun b' hb' => by
        rw [hgone.getBlock, if_neg]
        · exact hhere b' (List.mem_cons_of_mem _ hb')
        · intro heq
          have hmem : b'.stableBlockId ∈ blocks.map (·.stableBlockId) := List.mem_map_of_mem hb'
          rw [heq] at hmem
          exact (List.nodup_cons.mp hnodup).1 hmem)
      (by rw [hchild, hremovable]; exact hrest.removed)
    refine ⟨t, ?_, ht, fun id => ?_, fun e => ?_⟩
    · unfold deletePlanned
      rw [bind_ok (indexed_some _ hb), bind_ok hrun, bind_ok hdelete]
      rfl
    · rw [hleft.blocks, hgone.getBlock]
      by_cases hid : id = b.stableBlockId
      · simp [hid]
      · simp [hid]
    · rw [hleft.edges, hgone.edges]
      simp only [List.map_cons, List.mem_cons, not_or]
      tauto

/-- What is left keeps its path. -/
theorem EvictedFrom.path {ids : List B} (h : EvictedFrom s ids t) (hid : id ∈ t.backend.ids) :
    t.backend.pathToBlock id = s.backend.pathToBlock id := by
  obtain ⟨p, hp⟩ := RadixTreeBackend.mem_ids.mp hid
  obtain ⟨hlast, hpath⟩ := RadixTreeBackend.pathToBlock_chain hid
  obtain ⟨hlast', hpath'⟩ := RadixTreeBackend.pathToBlock_chain
    (RadixTreeBackend.mem_ids.mpr ⟨p, ((h.edges _).mp hp).1⟩)
  exact RadixTreeBackend.chain_unique _ (fun e he => ((h.edges e).mp (hpath e he)).1) hpath'
    (hlast.trans hlast'.symm)

/-- The deletion of the subtree of `root`: what it reports, and what it leaves. -/
structure DeletesSubtree (s : RadixPrefixIndex B P) (root : B) (freeable : Finset B)
    (result : PrefixCacheDeleteResult B P) (t : RadixPrefixIndex B P) : Prop where
  deleted : ∀ id, id ∈ result.deletedBlocks.map (·.stableBlockId) ↔
    s.InSubtree root id ∧ id ∈ freeable
  deletedHere : ∀ b ∈ result.deletedBlocks, s.getBlock b.stableBlockId = some b
  deletedOnce : (result.deletedBlocks.map (·.stableBlockId)).Nodup
  blocked : ∀ entry, entry ∈ result.blockedBlocks.map Prod.fst ↔
    ∃ id, entry = some id ∧ s.InSubtree root id ∧ id ∉ freeable
  blockedOnce : (result.blockedBlocks.map Prod.fst).Nodup
  others : EvictedFrom s (result.deletedBlocks.map (·.stableBlockId)) t
  paths : ∀ id, (∃ b, t.getBlock id = some b) →
    t.backend.pathToBlock id = s.backend.pathToBlock id

theorem deletesSubtree (hs : Indexed s) (hcounts : CountsValid s) {blockIds : List B}
    (h : s.Selects blockIds root) : ∃ t,
      safeDeleteSubtree blockIds s = .ok (s.previewDeleteSubtree blockIds) t ∧
      DeletesSubtree s root s.scanFreeable (s.previewDeleteSubtree blockIds) t := by
  have hroot := h.mem_ids
  have hperm : (s.deepestFirst (s.backend.subtreeBlockIds root)).Perm
      (s.backend.subtreeBlockIds root) := List.mergeSort_perm ..
  have hmem : ∀ id, id ∈ s.deepestFirst (s.backend.subtreeBlockIds root) ↔
      s.InSubtree root id := by
    intro id
    rw [hperm.mem_iff, mem_subtree hs hroot]
  have hnodup := hperm.nodup_iff.mpr (RadixTreeBackend.nodup_subtreeBlockIds hroot)
  have hhere : ∀ id, s.InSubtree root id → ∃ b, s.getBlock id = some b := by
    intro id hid
    cases Relation.ReflTransGen.cases_head hid with
    | inl heq => exact hs.mem_ids.mp (heq ▸ hroot)
    | inr hstep =>
      obtain ⟨p, hp, -⟩ := hstep
      obtain ⟨b, hb, -⟩ := child_iff.mp hp
      exact ⟨b, hb⟩
  have hplan : Planned s (s.deepestFirst (s.backend.subtreeBlockIds root)) _ :=
    planned_foldl hs hcounts hnodup (fun id hid => hhere id ((hmem id).mp hid))
      fun pre id post hsplit c hc => deepestFirst_order hs (fun q hq c hc =>
        (mem_subtree hs hroot).mpr (.head hc ((mem_subtree hs hroot).mp hq))) hsplit hc
  have hpreview : s.previewDeleteSubtree blockIds =
      ((s.deepestFirst (s.backend.subtreeBlockIds root)).foldl s.planBlock (⟨[], []⟩, [])).1 := by
    unfold previewDeleteSubtree
    rw [exactSubtreeIds_of_selects h]
  obtain ⟨t, hrun, ht, hleft⟩ := deletePlanned_ok hs hplan.here (hplan.deleted ▸ hplan.peeling)
  refine ⟨t, ?_, ?_⟩
  · unfold safeDeleteSubtree
    rw [get_bind, hpreview, bind_ok hrun]
    rfl
  · rw [hpreview]
    refine ⟨fun id => ?_, hplan.here, ?_, fun entry => ?_, ?_, hleft, fun id hid => ?_⟩
    · rw [hplan.deleted, hplan.ids, List.mem_filter, hmem, decide_eq_true_iff]
    · rw [hplan.deleted, hplan.ids]
      exact hnodup.filter _
    · rw [hplan.blocked, List.mem_map]
      simp only [List.mem_filter, hmem, decide_eq_true_iff]
      constructor
      · rintro ⟨id, hid, rfl⟩
        exact ⟨id, rfl, hid⟩
      · rintro ⟨id, rfl, hid⟩
        exact ⟨id, hid, rfl⟩
    · rw [hplan.blocked]
      exact (hnodup.filter _).map (Option.some_injective B)
    · exact hleft.path (ht.mem_ids.mpr hid)

/-- A selector whose blocks are not all there selects nothing. -/
theorem previewDeleteSubtree_missing {blockIds : List B} (h : ∀ root, ¬ s.Selects blockIds root) :
    s.previewDeleteSubtree blockIds = ⟨[], [(none, .notFound)]⟩ := by
  unfold previewDeleteSubtree
  rw [exactSubtreeIds_eq_none h]

/-! ## Runs -/

/-- The condition on a call: a block is inserted with a count of readers. -/
def InsertsCounted (_ : RadixPrefixIndex B P) : IndexOp B P → Prop
  | .insert block => 0 ≤ block.refCount
  | _ => True

theorem CountsValid.retagged (h : CountsValid s) (ht : Retagged SameShape s t) : CountsValid t := by
  intro id b hb
  obtain ⟨b₀, hb₀, hsame⟩ := ht.backward hb
  exact hsame.counts (h id b₀ hb₀)

theorem CountsValid.resided {r : PrefixBlockResidency} (h : CountsValid s)
    (hb : s.getBlock id = some b) : CountsValid (s.resided id b r) := by
  intro q b' hb'
  rw [getBlock_resided] at hb'
  split at hb'
  · obtain rfl := Option.some.inj hb'
    exact h id b hb
  · exact h q b' hb'

theorem CountsValid.change (h : CountsValid s) (hchange : Change s t) : CountsValid t := by
  cases hchange with
  | minor tags _ => exact h.retagged tags.shape
  | retag tags _ => exact h.retagged tags
  | reside here _ => exact h.resided here
  | remove _ _ gone =>
    intro q b hq
    rw [gone.getBlock] at hq
    split at hq
    · cases hq
    · exact h q b hq
  | memo view _ => exact h

theorem CountsValid.outcome {op : IndexOp B P} (h : CountsValid s) (hop : InsertsCounted s op)
    (hout : Outcome s op t) : CountsValid t := by
  cases hout with
  | changes steps =>
    induction steps with
    | refl => exact h
    | tail _ hlast ih => exact ih.change hlast
  | inserted new =>
    intro q b hq
    rw [new.getBlock] at hq
    split at hq
    · obtain rfl := Option.some.inj hq
      exact hop
    · exact h q b hq
  | aborted here _ _ => exact h.resided here

/-- **Subtree deletion is exact**, in every reachable state: it returns its preview, whose deleted
blocks are those of the subtree that `freeable_block_ids()` holds and whose blocked ones are the
others; with a selector that is not all there it does nothing. -/
theorem safeDeleteSubtree_exact {blockSize : Nat} {maxBlocks : Option Nat}
    (run : Reachable IndexOp.exec InsertsCounted (initial blockSize maxBlocks) s)
    (blockIds : List B) :
    ∃ freeable t, freeableBlockIds.run' s = some freeable ∧
      safeDeleteSubtree blockIds s = .ok (s.previewDeleteSubtree blockIds) t ∧
      (∀ root, s.Selects blockIds root →
        DeletesSubtree s root freeable (s.previewDeleteSubtree blockIds) t) ∧
      ((∀ root, ¬ s.Selects blockIds root) →
        s.previewDeleteSubtree blockIds = ⟨[], [(none, .notFound)]⟩ ∧ t = s) := by
  have hs := indexed_of_run run
  have hcounts : CountsValid s := by
    refine (run.invariant (I := fun u => Indexed u ∧ CountsValid u)
      ⟨indexed_initial blockSize maxBlocks, nofun⟩ fun u op hu hop => ?_).2
    have hout := op.outcome hu.1
    exact ⟨hout.indexed hu.1, hu.2.outcome hop hout⟩
  have hfresh : freeableBlockIds.run' s = some s.scanFreeable :=
    memoised_of_fresh (freshAt_of_run run nofun)
  by_cases h : ∃ root, s.Selects blockIds root
  · obtain ⟨root, hroot⟩ := h
    obtain ⟨t, hrun, hdeletes⟩ := deletesSubtree hs hcounts hroot
    refine ⟨s.scanFreeable, t, hfresh, hrun, fun root' hroot' => ?_, fun hnone => ?_⟩
    · obtain rfl : root' = root := Option.some.inj (hroot'.1.symm.trans hroot.1)
      exact hdeletes
    · exact absurd hroot (hnone root)
  · have hnone : ∀ root, ¬ s.Selects blockIds root := fun root hroot => h ⟨root, hroot⟩
    have hpreview := previewDeleteSubtree_missing hnone
    refine ⟨s.scanFreeable, s, hfresh, ?_, fun root hroot => absurd hroot (hnone root),
      fun _ => ⟨hpreview, rfl⟩⟩
    unfold safeDeleteSubtree
    rw [get_bind, hpreview]
    rfl

/-- A block with two children, one of them in use: deleting below it. -/
def forkRun : List (IndexOp Nat Unit) :=
  [.insert (deviceBlock 1 none), .insert (deviceBlock 2 (some 1)),
    .insert (deviceBlock 3 (some 1)), .acquire 3]

theorem safeDeleteSubtree_exact_forkRun :
    ∃ freeable t, freeableBlockIds.run' (runAll IndexOp.exec (initial 1 none) forkRun) =
        some freeable ∧
      safeDeleteSubtree [1] (runAll IndexOp.exec (initial 1 none) forkRun) =
        .ok ((runAll IndexOp.exec (initial 1 none) forkRun).previewDeleteSubtree [1]) t ∧
      (∀ root, (runAll IndexOp.exec (initial 1 none) forkRun).Selects [1] root →
        DeletesSubtree (runAll IndexOp.exec (initial 1 none) forkRun) root freeable
          ((runAll IndexOp.exec (initial 1 none) forkRun).previewDeleteSubtree [1]) t) ∧
      ((∀ root, ¬ (runAll IndexOp.exec (initial 1 none) forkRun).Selects [1] root) →
        (runAll IndexOp.exec (initial 1 none) forkRun).previewDeleteSubtree [1] =
          ⟨[], [(none, .notFound)]⟩ ∧ t = runAll IndexOp.exec (initial 1 none) forkRun) :=
  safeDeleteSubtree_exact (Reachable.init.runAll
    (by simp [forkRun, Along, InsertsCounted, deviceBlock])) [1]

end RadixPrefixIndex

end SparseVllm
