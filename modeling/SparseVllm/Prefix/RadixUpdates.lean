import SparseVllm.Prefix.RadixShape

/-!
# The radix tree is a faithful compressed forest
-/

namespace SparseVllm

open SparseVllm.Lib RadixForest ParentRelation

namespace RadixHeap

section Updates

variable {B : Type} {s : RadixHeap B} {n m p : NodeId}

@[simp] theorem setNode_nodes {node : RadixTreeNode B} :
    (s.setNode n node).nodes m = if m = n then node else s.nodes m := by
  unfold setNode
  simp [Function.update_apply]

@[simp] theorem setNode_locations {node : RadixTreeNode B} :
    (s.setNode n node).locations = s.locations := rfl

@[simp] theorem setNode_leafBlockIds {node : RadixTreeNode B} :
    (s.setNode n node).leafBlockIds = s.leafBlockIds := rfl

@[simp] theorem setNode_allocated {node : RadixTreeNode B} :
    (s.setNode n node).allocated = s.allocated := rfl

theorem reparent_nodes {children : List NodeId} :
    (s.reparent children p).nodes m =
      if m ∈ children then { s.nodes m with parent := some p } else s.nodes m := by
  unfold reparent
  induction children generalizing s with
  | nil => simp
  | cons c children ih =>
    rw [List.foldl_cons, ih, setNode_nodes]
    by_cases hc : m = c
    · subst hc
      simp
    · by_cases hm : m ∈ children
      · simp [hm, hc]
      · simp [hm, hc]

theorem reparent_rest {children : List NodeId} :
    (s.reparent children p).locations = s.locations ∧
      (s.reparent children p).leafBlockIds = s.leafBlockIds ∧
      (s.reparent children p).allocated = s.allocated := by
  unfold reparent
  induction children generalizing s with
  | nil => exact ⟨rfl, rfl, rfl⟩
  | cons c children ih =>
    rw [List.foldl_cons]
    exact ih

end Updates

variable {B : Type} [DecidableEq B] {s : RadixHeap B} {live : NodeId → Prop}
  {par : ParentRelation B} {n m p c : NodeId} {x y id a : B} {rest seg l : List B} {i : Nat}

/-! ## The invariant -/

/-- The heap holds `par`: its nodes have the shape, and the location map and the leaf set are what
the nodes say. -/
structure Holds (s : RadixHeap B) (live : NodeId → Prop) (par : ParentRelation B) : Prop where
  shape : Shape s.nodes live par
  allocated : ∀ n, live n → n < s.allocated
  locations : ∀ x n i, s.locations.get? x = some (n, i) ↔
    live n ∧ (s.nodes n).segment[i]? = some x
  leaves : ∀ x, x ∈ s.leafBlockIds ↔ ∃ n, live n ∧ (s.nodes n).segment.getLast? = some x ∧
    childless (s.nodes n) = true

theorem childless_iff {node : RadixTreeNode B} :
    childless node = true ↔ ∀ a, node.children.get? a = none := by
  unfold childless
  rw [List.isEmpty_iff, List.eq_nil_iff_forall_not_mem]
  constructor
  · intro h a
    cases ha : node.children.get? a with
    | none => rfl
    | some c => exact absurd (Dict.mem_values.mpr ⟨a, ha⟩) (h c)
  · intro h c hc
    obtain ⟨a, ha⟩ := Dict.mem_values.mp hc
    rw [h a] at ha
    cases ha

/-! ## The small updates -/

@[simp] theorem indexSegment_nodes : (s.indexSegment n).nodes = s.nodes := rfl

@[simp] theorem indexSegment_leafBlockIds :
    (s.indexSegment n).leafBlockIds = s.leafBlockIds := rfl

@[simp] theorem indexSegment_allocated : (s.indexSegment n).allocated = s.allocated := rfl

@[simp] theorem unindexSegment_nodes : (s.unindexSegment seg).nodes = s.nodes := rfl

@[simp] theorem unindexSegment_leafBlockIds :
    (s.unindexSegment seg).leafBlockIds = s.leafBlockIds := rfl

@[simp] theorem unindexSegment_allocated : (s.unindexSegment seg).allocated = s.allocated := rfl

theorem get?_unindexSegment :
    (s.unindexSegment seg).locations.get? x = if x ∈ seg then none else s.locations.get? x := by
  unfold unindexSegment
  dsimp only
  generalize s.locations = d
  induction seg generalizing d with
  | nil => simp
  | cons a seg ih =>
    rw [List.foldl_cons, ih, Dict.get?_pop]
    by_cases hx : x ∈ seg
    · simp [hx]
    · simp [hx]

/-- An indexed segment's ids are at their indices. -/
theorem get?_indexSegment (hnodup : (s.nodes n).segment.Nodup) :
    (s.indexSegment n).locations.get? x = some (m, i) ↔
      m = n ∧ (s.nodes n).segment[i]? = some x ∨
        x ∉ (s.nodes n).segment ∧ s.locations.get? x = some (m, i) := by
  have hfold : ∀ (l : List B) (k : Nat) (d : Dict B (NodeId × Nat)), l.Nodup →
      (((l.zipIdx k).foldl (fun d e => d.set e.1 (n, e.2)) d).get? x = some (m, i) ↔
        m = n ∧ k ≤ i ∧ l[i - k]? = some x ∨ x ∉ l ∧ d.get? x = some (m, i)) := by
    intro l
    induction l with
    | nil => simp
    | cons a l ih =>
      intro k d hl
      obtain ⟨ha, hl⟩ := List.nodup_cons.mp hl
      rw [List.zipIdx_cons, List.foldl_cons, ih (k + 1) _ hl, Dict.get?_set, List.mem_cons]
      by_cases hx : x = a
      · subst hx
        have hnone : ∀ j, l[j]? ≠ some x := fun j hj => ha (List.mem_of_getElem? hj)
        simp only [hnone, and_false, ha, not_false_eq_true, if_true, Option.some.injEq,
          Prod.mk.injEq, true_and, false_or, not_true_eq_false, false_and, or_false]
        constructor
        · rintro ⟨rfl, rfl⟩
          exact ⟨rfl, le_rfl, by simp⟩
        · rintro ⟨rfl, hki, hget⟩
          refine ⟨rfl, ?_⟩
          rcases hd : i - k with _ | j
          · omega
          · rw [hd, List.getElem?_cons_succ] at hget
            exact absurd hget (hnone j)
      · simp only [hx, if_false, false_or]
        refine or_congr (and_congr_right fun _ => ?_) Iff.rfl
        constructor
        · rintro ⟨hki, hget⟩
          refine ⟨by omega, ?_⟩
          rw [show i - k = i - (k + 1) + 1 by omega, List.getElem?_cons_succ]
          exact hget
        · rintro ⟨hki, hget⟩
          rcases hd : i - k with _ | j
          · rw [hd] at hget
            exact absurd (Option.some.inj hget).symm hx
          · rw [hd, List.getElem?_cons_succ] at hget
            refine ⟨by omega, ?_⟩
            rwa [show i - (k + 1) = j by omega]
  have := hfold (s.nodes n).segment 0 s.locations hnodup
  unfold indexSegment
  simpa using this

/-! ## Cutting a node -/

/-- Node `n` of `s` is cut into `top` and `bottom`, and both are indexed. -/
theorem Holds.cut {t : RadixHeap B} {top bottom : NodeId} {first next : B} {upper lower : List B}
    (h : Holds s live par) (hn : live n)
    (hc : Shape.Cut live s.nodes t.nodes n top bottom p first next upper lower)
    (hallocated : t.allocated = s.allocated + 1) (htop : top < t.allocated)
    (hbottom : bottom < t.allocated) (hleaves : t.leafBlockIds = s.leafBlockIds)
    (hlocations : ∀ x m i, t.locations.get? x = some (m, i) ↔
      m = top ∧ (first :: upper)[i]? = some x ∨ m = bottom ∧ (next :: lower)[i]? = some x ∨
        x ∉ (s.nodes n).segment ∧ s.locations.get? x = some (m, i)) :
    Holds t (fun m => live m ∨ m = top ∨ m = bottom) par := by
  refine ⟨h.shape.cut hn hc, ?_, ?_, ?_⟩
  · rintro m (hm | rfl | rfl)
    · rw [hallocated]
      exact Nat.lt_succ_of_lt (h.allocated m hm)
    · exact htop
    · exact hbottom
  · intro x m i
    rw [hlocations, hc.live_iff]
    constructor
    · rintro (⟨rfl, hx⟩ | ⟨rfl, hx⟩ | ⟨hx, hget⟩)
      · exact ⟨.inl rfl, by rwa [hc.topSegment]⟩
      · exact ⟨.inr (.inl rfl), by rwa [hc.bottomSegment]⟩
      · obtain ⟨hm, hi⟩ := (h.locations x m i).mp hget
        have hmn : m ≠ n := by
          rintro rfl
          exact hx (List.mem_of_getElem? hi)
        obtain ⟨hmtop, hmbottom⟩ := hc.other hm hmn
        exact ⟨.inr (.inr ⟨hm, hmn⟩), by rwa [hc.keepsSegment m hmtop hmbottom]⟩
    · rintro ⟨rfl | rfl | ⟨hm, hmn⟩, hx⟩
      · exact .inl ⟨rfl, by rwa [hc.topSegment] at hx⟩
      · exact .inr (.inl ⟨rfl, by rwa [hc.bottomSegment] at hx⟩)
      · obtain ⟨hmtop, hmbottom⟩ := hc.other hm hmn
        rw [hc.keepsSegment m hmtop hmbottom] at hx
        refine .inr (.inr ⟨fun hxn => ?_, (h.locations x m i).mpr ⟨hm, hx⟩⟩)
        exact hmn (h.shape.once m n x hm hn (List.mem_of_getElem? hx) hxn)
  · -- the lower half is childless when the node was, and ends with the same id
    have hlast : (s.nodes n).segment.getLast? = (next :: lower).getLast? := by
      rw [hc.segment]
      exact List.getLast?_append_of_ne_nil _ (by simp)
    have hbottomLeaf : childless (t.nodes bottom) = true ↔ childless (s.nodes n) = true := by
      rw [childless_iff, childless_iff]
      simp only [hc.bottomChildren]
    have htopLeaf : childless (t.nodes top) ≠ true := by
      intro hleaf
      have := childless_iff.mp hleaf next
      rw [hc.topChildren, if_pos rfl] at this
      cases this
    have hotherLeaf : ∀ m, live m → m ≠ n →
        (childless (t.nodes m) = true ↔ childless (s.nodes m) = true) := by
      intro m hm hmn
      obtain ⟨hmtop, hmbottom⟩ := hc.other hm hmn
      obtain ⟨_, hp, _, hget⟩ := hc.entry h.shape hn
      rw [childless_iff, childless_iff]
      by_cases hmp : m = p
      · subst hmp
        constructor
        · intro hall
          have := hall first
          rw [hc.keepsChildren m hmtop hmbottom, if_pos ⟨rfl, rfl⟩] at this
          cases this
        · intro hall
          rw [hall first] at hget
          cases hget
      · simp only [hc.keepsChildren m hmtop hmbottom, hmp, false_and, if_false]
    intro x
    rw [hleaves, h.leaves]
    constructor
    · rintro ⟨m, hm, hx, hleaf⟩
      by_cases hmn : m = n
      · subst hmn
        refine ⟨bottom, .inr (.inr rfl), ?_, hbottomLeaf.mpr hleaf⟩
        rw [hc.bottomSegment, ← hlast, hx]
      · obtain ⟨hmtop, hmbottom⟩ := hc.other hm hmn
        refine ⟨m, .inl hm, ?_, (hotherLeaf m hm hmn).mpr hleaf⟩
        rw [hc.keepsSegment m hmtop hmbottom, hx]
    · rintro ⟨m, hm, hx, hleaf⟩
      rcases hc.live_iff.mp hm with rfl | rfl | ⟨hm, hmn⟩
      · exact absurd hleaf htopLeaf
      · rw [hc.bottomSegment, ← hlast] at hx
        exact ⟨n, hn, hx, hbottomLeaf.mp hleaf⟩
      · obtain ⟨hmtop, hmbottom⟩ := hc.other hm hmn
        rw [hc.keepsSegment m hmtop hmbottom] at hx
        exact ⟨m, hm, hx, (hotherLeaf m hm hmn).mp hleaf⟩

/-- The location map after both halves of a segment are indexed. -/
theorem get?_indexed_halves {u : RadixHeap B} {old upper lower : List B} {top bottom : NodeId}
    (htop : (u.nodes top).segment = upper) (hbottom : (u.nodes bottom).segment = lower)
    (hold : old = upper ++ lower) (hnodup : old.Nodup) :
    ((u.indexSegment top).indexSegment bottom).locations.get? x = some (m, i) ↔
      m = top ∧ upper[i]? = some x ∨ m = bottom ∧ lower[i]? = some x ∨
        x ∉ old ∧ u.locations.get? x = some (m, i) := by
  subst hold
  obtain ⟨hupper, hlower, hapart⟩ := List.nodup_append.mp hnodup
  rw [get?_indexSegment (by rw [indexSegment_nodes, hbottom]; exact hlower), indexSegment_nodes,
    hbottom, get?_indexSegment (by rw [htop]; exact hupper), htop]
  simp only [List.mem_append]
  have hno : ∀ j, upper[j]? = some x → x ∉ lower := fun j hj hx =>
    hapart x (List.mem_of_getElem? hj) x hx rfl
  by_cases hx : x ∈ upper
  · simp only [hx, true_or, not_true_eq_false, false_and, or_false]
    constructor
    · rintro (hb | ⟨_, ht⟩)
      · exact .inr hb
      · exact .inl ht
    · rintro (ht | hb)
      · exact .inr ⟨hno i ht.2, ht⟩
      · exact .inl hb
  · have hnone : upper[i]? ≠ some x := fun hj => hx (List.mem_of_getElem? hj)
    by_cases hxl : x ∈ lower
    · simp [hx, hxl, hnone]
    · simp [hx, hxl, hnone]

/-- The location map after a segment is indexed again as two. -/
theorem get?_reindexed {t u : RadixHeap B} {old upper lower : List B} {top bottom : NodeId}
    (hu : u.locations = (s.unindexSegment old).locations) (htop : (u.nodes top).segment = upper)
    (hbottom : (u.nodes bottom).segment = lower) (hold : old = upper ++ lower)
    (hnodup : old.Nodup) (ht : t = (u.indexSegment top).indexSegment bottom) :
    t.locations.get? x = some (m, i) ↔ m = top ∧ upper[i]? = some x ∨
      m = bottom ∧ lower[i]? = some x ∨ x ∉ old ∧ s.locations.get? x = some (m, i) := by
  rw [ht, get?_indexed_halves htop hbottom hold hnodup, hu, get?_unindexSegment]
  by_cases hx : x ∈ old
  · simp [hx]
  · simp [hx]

theorem mem_children_iff (h : Shape s.nodes live par) (hn : live n) (hm : live m) :
    m ∈ (s.nodes n).children.values ↔ (s.nodes m).parent = some n := by
  rw [Dict.mem_values]
  constructor
  · rintro ⟨a, ha⟩
    exact (h.down n a m hn ha).2.1
  · intro hparent
    by_cases hm0 : m = 0
    · rw [hm0, h.rootParent] at hparent
      cases hparent
    · obtain ⟨r, a, hr, _, hget⟩ := h.up m hm hm0
      obtain rfl : r = n := Option.some.inj (hr.symm.trans hparent)
      exact ⟨a, hget⟩

/-- The state `_split_after` leaves when the suffix is not empty. -/
theorem splitAfter_cons {next : B} {lower : List B}
    (hdrop : (s.nodes n).segment.drop (i + 1) = next :: lower) (hne : s.allocated ≠ n)
    (hself : n ∉ (s.nodes n).children.values)
    (hnew : s.allocated ∉ (s.nodes n).children.values) :
    ∃ u : RadixHeap B, splitAfter n i s = (u.indexSegment n).indexSegment s.allocated ∧
      u.locations = (s.unindexSegment (s.nodes n).segment).locations ∧
      u.leafBlockIds = s.leafBlockIds ∧ u.allocated = s.allocated + 1 ∧
      ∀ m, u.nodes m =
        if m = n then
          { segment := (s.nodes n).segment.take (i + 1)
            parent := (s.nodes n).parent
            children := Dict.set ∅ next s.allocated }
        else if m = s.allocated then
          { segment := next :: lower, parent := some n, children := (s.nodes n).children }
        else if m ∈ (s.nodes n).children.values then
          { s.nodes m with parent := some s.allocated }
        else s.nodes m := by
  unfold splitAfter
  simp only [hdrop]
  refine ⟨_, rfl, ?_, ?_, ?_, fun m => ?_⟩
  · rw [setNode_locations, reparent_rest.1]
    rfl
  · rw [setNode_leafBlockIds, reparent_rest.2.1]
    rfl
  · rw [setNode_allocated, reparent_rest.2.2]
    rfl
  · simp only [setNode_nodes, reparent_nodes, unindexSegment_allocated, unindexSegment_nodes,
      if_neg hself, if_neg hne.symm]
    by_cases hmn : m = n
    · rw [if_pos hmn, if_pos hmn]
    · rw [if_neg hmn, if_neg hmn]
      by_cases hms : m = s.allocated
      · subst hms
        rw [if_pos rfl, if_neg hnew, if_pos rfl]
      · rw [if_neg hms, if_neg hms]

/-- `_split_after` cuts the node below the id at the index; the node keeps the upper half. -/
theorem holds_splitAfter (h : Holds s live par) (hn : live n)
    (hx : (s.nodes n).segment[i]? = some x) :
    ∃ live', Holds (splitAfter n i s) live' par ∧ live' n ∧
      ((splitAfter n i s).nodes n).segment.getLast? = some x := by
  have hlt := (List.getElem?_eq_some_iff.mp hx).1
  have hlast : ((s.nodes n).segment.take (i + 1)).getLast? = some x := by
    rw [List.take_add_one, hx]
    simp
  have hsplit := (List.take_append_drop (i + 1) (s.nodes n).segment).symm
  cases hdrop : (s.nodes n).segment.drop (i + 1) with
  | nil =>
    have hsame : splitAfter n i s = s := by
      unfold splitAfter
      simp only [hdrop]
    rw [hsame]
    rw [hdrop, List.append_nil] at hsplit
    exact ⟨live, h, hn, hsplit ▸ hlast⟩
  | cons next lower =>
    obtain ⟨first, upper, hupper⟩ : ∃ first upper,
        (s.nodes n).segment.take (i + 1) = first :: upper := by
      cases htake : (s.nodes n).segment.take (i + 1) with
      | nil => simp [htake] at hlast
      | cons first upper => exact ⟨first, upper, rfl⟩
    rw [hdrop, hupper] at hsplit
    have hn0 : n ≠ 0 := h.shape.ne_root_of_mem (List.mem_of_getElem? hx)
    obtain ⟨p, _, _, hparent, hp, _, _⟩ := h.shape.entry hn hn0
    have hpn := h.shape.parent_ne hn hparent
    have hfresh : ¬ live s.allocated := fun hl => (Nat.lt_irrefl _) (h.allocated _ hl)
    have hne : s.allocated ≠ n := fun he => hfresh (he ▸ hn)
    have hself : n ∉ (s.nodes n).children.values := fun hmem => by
      obtain ⟨a, ha⟩ := Dict.mem_values.mp hmem
      exact h.shape.child_ne hn ha rfl
    have hnew : s.allocated ∉ (s.nodes n).children.values := fun hmem => by
      obtain ⟨a, ha⟩ := Dict.mem_values.mp hmem
      exact hfresh (h.shape.down n a _ hn ha).1
    obtain ⟨u, hrun, hlocations, hleaves, hallocated, hnodes⟩ :=
      splitAfter_cons hdrop hne hself hnew
    have hupperNode : u.nodes n = _ := (hnodes n).trans (if_pos rfl)
    have hlowerNode : u.nodes s.allocated = _ := (hnodes _).trans ((if_neg hne).trans (if_pos rfl))
    have hcut : Shape.Cut live s.nodes (splitAfter n i s).nodes n n s.allocated p first next upper
        lower := by
      rw [hrun, indexSegment_nodes, indexSegment_nodes]
      refine ⟨hsplit, hparent, ?_, ?_, ?_, ?_, ?_, ?_, ?_, ?_, ?_, .inl ⟨rfl, hne, hfresh⟩⟩
      · rw [hupperNode, hupper]
      · rw [hupperNode, hparent]
      · intro a
        rw [hupperNode, Dict.get?_set, Dict.get?_empty]
      · rw [hlowerNode]
      · rw [hlowerNode]
      · intro a
        rw [hlowerNode]
      · intro m hmn hms
        rw [hnodes, if_neg hmn, if_neg hms]
        split <;> rfl
      · intro m hm hmn hms
        rw [hnodes, if_neg hmn, if_neg hms]
        simp only [mem_children_iff h.shape hn hm]
        split <;> rfl
      · intro m hmn hms a
        have hsame : (u.nodes m).children = (s.nodes m).children := by
          rw [hnodes, if_neg hmn, if_neg hms]
          split <;> rfl
        rw [hsame]
        split
        · rename_i hma
          obtain ⟨rfl, rfl⟩ := hma
          obtain ⟨_, _, _, hparent', _, hseg, hget⟩ := h.shape.entry hn hn0
          obtain rfl := Option.some.inj (hparent.symm.trans hparent')
          rw [hsplit] at hseg
          rw [(List.cons.inj hseg).1, hget]
        · rfl
    refine ⟨_, h.cut hn hcut ?_ ?_ ?_ ?_ ?_, .inl hn, ?_⟩
    · rw [hrun]
      exact hallocated
    · rw [hrun, indexSegment_allocated, indexSegment_allocated, hallocated]
      exact Nat.lt_succ_of_lt (h.allocated n hn)
    · rw [hrun, indexSegment_allocated, indexSegment_allocated, hallocated]
      exact Nat.lt_succ_self _
    · rw [hrun]
      exact hleaves
    · intro x m i
      exact get?_reindexed hlocations (by rw [hupperNode, hupper]) (by rw [hlowerNode]) hsplit
        (h.shape.nodup n hn) hrun
    · rw [hcut.topSegment, ← hupper]
      exact hlast

/-! ## A new child -/

theorem discarded_rest : (s.discarded p).nodes = s.nodes ∧
    (s.discarded p).locations = s.locations ∧ (s.discarded p).allocated = s.allocated := by
  unfold discarded discardLeaf
  split
  · split
    · exact ⟨rfl, rfl, rfl⟩
    · exact ⟨rfl, rfl, rfl⟩
  · exact ⟨rfl, rfl, rfl⟩

/-- The leaves but for the end of the node. -/
theorem mem_discarded (h : Holds s live par) (hp : live p) :
    x ∈ (s.discarded p).leafBlockIds ↔ ∃ m, live m ∧ (s.nodes m).segment.getLast? = some x ∧
      childless (s.nodes m) = true ∧ m ≠ p := by
  unfold discarded discardLeaf
  by_cases hleaf : childless (s.nodes p) = true
  · rw [if_pos hleaf]
    cases hlast : (s.nodes p).segment.getLast? with
    | none =>
      rw [h.leaves]
      refine exists_congr fun m => and_congr_right fun _ => ?_
      constructor
      · rintro ⟨hx, hm⟩
        refine ⟨hx, hm, ?_⟩
        rintro rfl
        rw [hlast] at hx
        cases hx
      · exact fun ⟨hx, hm, _⟩ => ⟨hx, hm⟩
    | some z =>
      rw [Finset.mem_erase, h.leaves]
      constructor
      · rintro ⟨hxz, m, hm, hx, hml⟩
        refine ⟨m, hm, hx, hml, ?_⟩
        rintro rfl
        rw [hlast] at hx
        exact hxz (Option.some.inj hx).symm
      · rintro ⟨m, hm, hx, hml, hmp⟩
        refine ⟨?_, m, hm, hx, hml⟩
        rintro rfl
        exact hmp (h.shape.once m p x hm hp (List.mem_of_getLast? hx) (List.mem_of_getLast? hlast))
  · rw [if_neg hleaf, h.leaves]
    refine exists_congr fun m => and_congr_right fun _ => and_congr_right fun _ => ?_
    constructor
    · intro hm
      refine ⟨hm, ?_⟩
      rintro rfl
      exact hleaf hm
    · exact And.left

/-- The state a new child leaves. -/
theorem addChild_spec (id : B) (rest : List B) {u : RadixHeap B} (hp : p ≠ u.allocated) :
    (∀ m, (addChild p id rest u).nodes m =
      if m = p then
        { u.nodes p with children := (u.nodes p).children.set id u.allocated }
      else if m = u.allocated then { segment := id :: rest, parent := some p }
      else u.nodes m) ∧
      (addChild p id rest u).allocated = u.allocated + 1 ∧
      (∀ x, x ∈ (addChild p id rest u).leafBlockIds ↔
        (id :: rest).getLast? = some x ∨ x ∈ u.leafBlockIds) ∧
      ((id :: rest).Nodup → ∀ x m i, (addChild p id rest u).locations.get? x = some (m, i) ↔
        m = u.allocated ∧ (id :: rest)[i]? = some x ∨
          x ∉ id :: rest ∧ u.locations.get? x = some (m, i)) := by
  obtain ⟨v, hv, hnodes, hlocations, hleaves, hallocated⟩ : ∃ v : RadixHeap B,
      addChild p id rest u = (v.indexSegment u.allocated).addLeaf u.allocated ∧
      (∀ m, v.nodes m =
        if m = p then
          { u.nodes p with children := (u.nodes p).children.set id u.allocated }
        else if m = u.allocated then { segment := id :: rest, parent := some p }
        else u.nodes m) ∧
      v.locations = u.locations ∧ v.leafBlockIds = u.leafBlockIds ∧
      v.allocated = u.allocated + 1 := by
    refine ⟨_, rfl, fun m => ?_, rfl, rfl, rfl⟩
    simp only [setNode_nodes, if_neg hp]
  have hchild : v.nodes u.allocated = { segment := id :: rest, parent := some p } :=
    (hnodes _).trans ((if_neg hp.symm).trans (if_pos rfl))
  obtain ⟨z, hz⟩ : ∃ z, (id :: rest).getLast? = some z := by
    cases hlast : (id :: rest).getLast? with
    | none => simp at hlast
    | some z => exact ⟨z, rfl⟩
  have hempty : childless ({ segment := id :: rest, parent := some p } : RadixTreeNode B) = true :=
    childless_iff.mpr fun a => Dict.get?_empty a
  have hadd : (v.indexSegment u.allocated).addLeaf u.allocated =
      { v.indexSegment u.allocated with leafBlockIds := Insert.insert z v.leafBlockIds } := by
    unfold addLeaf
    rw [indexSegment_nodes, hchild]
    dsimp only
    rw [hz]
    dsimp only
    rw [if_pos hempty]
    rfl
  rw [hv, hadd]
  refine ⟨hnodes, hallocated, fun x => ?_, fun hnodup x m i => ?_⟩
  · rw [Finset.mem_insert, hleaves, hz, Option.some.injEq, eq_comm]
  · have hget := get?_indexSegment (s := v) (n := u.allocated) (m := m) (x := x) (i := i)
      (by rw [hchild]; exact hnodup)
    rw [hchild, hlocations] at hget
    exact hget

/-- **A new child below a live node** is recorded below the node's last id. -/
theorem holds_addChild (h : Holds s live par) (hp : live p) (hnodup : (id :: rest).Nodup)
    (hnew : ∀ x ∈ id :: rest, ¬ par.Present x) :
    Holds (addChild p id rest (s.discarded p)) (fun m => live m ∨ m = s.allocated)
      (par.addChain (s.nodes p).segment.getLast? (id :: rest)) := by
  obtain ⟨hsame, hmap, hcount⟩ := discarded_rest (s := s) (p := p)
  have hfresh : ¬ live s.allocated := fun hl => Nat.lt_irrefl _ (h.allocated _ hl)
  have hpc : p ≠ s.allocated := fun he => hfresh (he ▸ hp)
  obtain ⟨hnodes, hallocated, hleaves, hlocations⟩ :=
    addChild_spec id rest (u := s.discarded p) (hcount.symm ▸ hpc)
  rw [hcount] at hallocated
  simp only [hcount, hsame] at hnodes
  simp only [hcount, hmap] at hlocations
  have hchild : (addChild p id rest (s.discarded p)).nodes s.allocated = _ :=
    (hnodes _).trans ((if_neg hpc.symm).trans (if_pos rfl))
  have hhang : Shape.Hang live s.nodes (addChild p id rest (s.discarded p)).nodes p s.allocated id
      rest := by
    refine ⟨?_, ?_, ?_, ?_, ?_, ?_, hfresh⟩
    · rw [hchild]
    · rw [hchild]
    · intro a
      rw [hchild]
      exact Dict.get?_empty a
    · intro m hm
      rw [hnodes, if_neg hm]
      split
      · rename_i hmp
        rw [hmp]
      · rfl
    · intro m hm
      rw [hnodes, if_neg hm]
      split
      · rename_i hmp
        rw [hmp]
      · rfl
    · intro m hm a
      rw [hnodes, if_neg hm]
      by_cases hmp : m = p
      · subst hmp
        rw [if_pos rfl, Dict.get?_set]
        simp
      · simp [hmp]
  have hne : ∀ m, live m → m ≠ s.allocated := fun m hm he => hfresh (he ▸ hm)
  have hapart : ∀ m x, live m → x ∈ (s.nodes m).segment → x ∉ id :: rest :=
    fun m x hm hx hmem => hnew x hmem (h.shape.present_iff.mpr ⟨m, hm, hx⟩)
  refine ⟨h.shape.hang hp hhang hnodup hnew, ?_, ?_, ?_⟩
  · rw [hallocated]
    rintro m (hm | rfl)
    · exact Nat.lt_succ_of_lt (h.allocated m hm)
    · exact Nat.lt_succ_self _
  · intro x m i
    rw [hlocations hnodup, h.locations]
    constructor
    · rintro (⟨rfl, hx⟩ | ⟨hx, hm, hi⟩)
      · exact ⟨.inr rfl, by rwa [hhang.segment]⟩
      · exact ⟨.inl hm, by rwa [hhang.keepsSegment m (hne m hm)]⟩
    · rintro ⟨hm | rfl, hi⟩
      · rw [hhang.keepsSegment m (hne m hm)] at hi
        exact .inr ⟨hapart m x hm (List.mem_of_getElem? hi), hm, hi⟩
      · rw [hhang.segment] at hi
        exact .inl ⟨rfl, hi⟩
  · intro x
    rw [hleaves, mem_discarded h hp]
    have hleaf : ∀ m, live m → m ≠ p →
        (childless ((addChild p id rest (s.discarded p)).nodes m) = true ↔
          childless (s.nodes m) = true) := by
      intro m hm hmp
      rw [hnodes, if_neg hmp, if_neg (hne m hm)]
    constructor
    · rintro (hx | ⟨m, hm, hx, hml, hmp⟩)
      · refine ⟨s.allocated, .inr rfl, by rwa [hhang.segment], ?_⟩
        rw [childless_iff]
        exact hhang.children
      · exact ⟨m, .inl hm, by rwa [hhang.keepsSegment m (hne m hm)], (hleaf m hm hmp).mpr hml⟩
    · rintro ⟨m, hm | rfl, hx, hml⟩
      · rw [hhang.keepsSegment m (hne m hm)] at hx
        by_cases hmp : m = p
        · subst hmp
          have := childless_iff.mp hml id
          rw [hhang.keepsChildren m (hne m hm), if_pos ⟨rfl, rfl⟩] at this
          cases this
        · exact .inr ⟨m, hm, hx, (hleaf m hm hmp).mp hml, hmp⟩
      · rw [hhang.segment] at hx
        exact .inl hx

/-! ## `insert_child` -/

/-- The location map holds the ids present. -/
theorem Holds.location_none (h : Holds s live par) :
    s.locations.get? x = none ↔ ¬ par.Present x := by
  rw [h.shape.present_iff]
  constructor
  · rintro hnone ⟨n, hn, hx⟩
    obtain ⟨i, hi⟩ := List.mem_iff_getElem?.mp hx
    rw [(h.locations x n i).mpr ⟨hn, hi⟩] at hnone
    cases hnone
  · intro hnot
    cases hget : s.locations.get? x with
    | none => rfl
    | some e =>
      obtain ⟨hn, hi⟩ := (h.locations x e.1 e.2).mp hget
      exact absurd ⟨e.1, hn, List.mem_of_getElem? hi⟩ hnot

/-- A new id is no key of a child map. -/
theorem Holds.children_none (h : Holds s live par) (hn : live n) (hx : ¬ par.Present x) :
    (s.nodes n).children.get? x = none := by
  cases hget : (s.nodes n).children.get? x with
  | none => rfl
  | some c =>
    obtain ⟨hc, _, hhead⟩ := h.shape.down n x c hn hget
    exact absurd (h.shape.present_iff.mpr ⟨c, hc, List.mem_of_head? hhead⟩) hx

theorem Holds.discarded_root (h : Holds s live par) : s.discarded 0 = s := by
  unfold discarded discardLeaf
  rw [h.shape.rootSegment]
  split <;> rfl

/-- What `insert_child` does when the id is new and its parent is present. -/
theorem insertChild_run {parent : B} (hid : s.locations.get? id = none)
    (hparent : s.locations.get? parent = some (n, i))
    (hnone : ((splitAfter n i s).nodes n).children.get? id = none) :
    insertChild (some parent) id s = .ok () (addChild n id [] ((splitAfter n i s).discarded n)) := by
  have hkept : (((splitAfter n i s).discarded n).nodes n).children.get? id = none := by
    rw [discarded_rest.1]
    exact hnone
  unfold insertChild
  simp only [get_bind, hid, hparent, modify_bind, raiseIf_bind]
  rw [if_neg (by simp [hkept])]
  rfl

/-- **`insert_child`** records the id below its parent, or raises without a change when the parent is
missing. -/
theorem insertChild_spec (h : Holds s live par) (parent : Option B) (id : B) :
    (∃ t live', insertChild parent id s = .ok () t ∧ Holds t live' (par.insertChild parent id)) ∨
      insertChild parent id s = .error .parentMissing s ∧ par.insertChild parent id = par := by
  cases hid : s.locations.get? id with
  | some e =>
    refine .inl ⟨s, live, ?_, ?_⟩
    · unfold insertChild
      simp only [get_bind, hid]
      rfl
    · have hpresent : par.Present id := by
        by_contra hnot
        rw [h.location_none.mpr hnot] at hid
        cases hid
      obtain ⟨q, hq⟩ := hpresent
      unfold ParentRelation.insertChild
      rw [hq]
      exact h
  | none =>
    have hnew := h.location_none.mp hid
    have habsent : par.get? id = none := by
      cases hget : par.get? id with
      | none => rfl
      | some q => exact absurd ⟨q, hget⟩ hnew
    have hids : ∀ x ∈ [id], ¬ par.Present x := fun x hx => List.mem_singleton.mp hx ▸ hnew
    cases parent with
    | none =>
      left
      have hadd := holds_addChild h h.shape.rootLive (List.nodup_singleton id) hids
      rw [h.discarded_root, h.shape.rootSegment] at hadd
      have hpar : par.insertChild none id = par.addChain none [id] := by
        unfold ParentRelation.insertChild
        rw [habsent]
        rfl
      rw [hpar]
      refine ⟨_, _, ?_, hadd⟩
      unfold insertChild
      simp only [get_bind, hid, raiseIf_bind]
      rw [if_neg (by simp [h.children_none h.shape.rootLive hnew])]
      rfl
    | some parent =>
      cases hloc : s.locations.get? parent with
      | none =>
        right
        constructor
        · unfold insertChild
          simp only [get_bind, hid, hloc]
          rfl
        · have hmissing : par.get? parent = none := by
            cases hget : par.get? parent with
            | none => rfl
            | some q => exact absurd ⟨q, hget⟩ (h.location_none.mp hloc)
          unfold ParentRelation.insertChild
          simp only [habsent, hmissing]
      | some e =>
        obtain ⟨n, i⟩ := e
        left
        obtain ⟨hn, hi⟩ := (h.locations parent n i).mp hloc
        obtain ⟨live', hsplit, hn', hlast⟩ := holds_splitAfter h hn hi
        have hadd := holds_addChild hsplit hn' (List.nodup_singleton id) hids
        rw [hlast] at hadd
        have hpar : par.insertChild (some parent) id = par.addChain (some parent) [id] := by
          obtain ⟨q, hq⟩ := h.shape.present_iff.mpr ⟨n, hn, List.mem_of_getElem? hi⟩
          unfold ParentRelation.insertChild
          simp only [habsent, hq]
          rfl
        rw [hpar]
        exact ⟨_, _, insertChild_run hid hloc (hsplit.children_none hn' hnew), hadd⟩

/-! ## `remove_block` -/

theorem addLeaf_rest : (s.addLeaf n).nodes = s.nodes ∧ (s.addLeaf n).locations = s.locations ∧
    (s.addLeaf n).allocated = s.allocated := by
  unfold addLeaf
  split
  · split
    · exact ⟨rfl, rfl, rfl⟩
    · exact ⟨rfl, rfl, rfl⟩
  · exact ⟨rfl, rfl, rfl⟩

theorem mem_addLeaf : y ∈ (s.addLeaf n).leafBlockIds ↔
    (s.nodes n).segment.getLast? = some y ∧ childless (s.nodes n) = true ∨ y ∈ s.leafBlockIds := by
  unfold addLeaf
  cases hlast : (s.nodes n).segment.getLast? with
  | none => simp
  | some z =>
    dsimp only
    split
    · rename_i hleaf
      rw [Finset.mem_insert, Option.some.injEq, eq_comm]
      simp [hleaf]
    · rename_i hleaf
      simp [hleaf]

/-- A node of one id is taken out. -/
theorem holds_drop (h : Holds s live par) (hn : live n) (hseg : (s.nodes n).segment = [x])
    (hleaf : childless (s.nodes n) = true) (hparent : (s.nodes n).parent = some p) {t : RadixHeap B}
    (ht : t = addLeaf p (setNode p
      { s.nodes p with children := (s.nodes p).children.pop x }
      { s with locations := s.locations.pop x, leafBlockIds := s.leafBlockIds.erase x })) :
    Holds t (fun m => live m ∧ m ≠ n) (par.pop x) := by
  have hn0 : n ≠ 0 := h.shape.ne_root_of_mem (x := x) (by simp [hseg])
  obtain ⟨p', a', seg', hp', hp, hseg', hget⟩ := h.shape.entry hn hn0
  obtain rfl : p = p' := Option.some.inj (hparent.symm.trans hp')
  obtain rfl : x = a' := by
    rw [hseg] at hseg'
    exact (List.cons.inj hseg').1
  obtain ⟨htnodes, htlocations, htallocated⟩ :
      (∀ m, t.nodes m = if m = p then
        { s.nodes p with children := (s.nodes p).children.pop x } else s.nodes m) ∧
      t.locations = s.locations.pop x ∧ t.allocated = s.allocated := by
    rw [ht]
    refine ⟨fun m => ?_, addLeaf_rest.2.1, addLeaf_rest.2.2⟩
    rw [addLeaf_rest.1, setNode_nodes]
  have hsegment : ∀ m, (t.nodes m).segment = (s.nodes m).segment := by
    intro m
    rw [htnodes]
    split
    · rename_i hm
      rw [hm]
    · rfl
  have hother : ∀ m, m ≠ p → t.nodes m = s.nodes m := fun m hm => (htnodes m).trans (if_neg hm)
  refine ⟨h.shape.drop hn hseg (childless_iff.mp hleaf) hparent hsegment ?_ ?_, ?_, ?_, ?_⟩
  · intro m
    rw [htnodes]
    split
    · rename_i hm
      rw [hm]
    · rfl
  · intro m a
    rw [htnodes]
    by_cases hm : m = p
    · subst hm
      rw [if_pos rfl, Dict.get?_pop]
      simp
    · simp [hm]
  · rintro m ⟨hm, _⟩
    rw [htallocated]
    exact h.allocated m hm
  · intro y m i
    rw [htlocations, Dict.get?_pop, hsegment]
    split
    · rename_i hy
      subst hy
      constructor
      · intro hnone
        cases hnone
      · rintro ⟨⟨hm, hmn⟩, hi⟩
        exact absurd (h.shape.once m n y hm hn (List.mem_of_getElem? hi) (by simp [hseg])) hmn
    · rename_i hy
      rw [h.locations]
      constructor
      · rintro ⟨hm, hi⟩
        refine ⟨⟨hm, ?_⟩, hi⟩
        rintro rfl
        have := List.mem_of_getElem? hi
        rw [hseg, List.mem_singleton] at this
        exact hy this
      · rintro ⟨⟨hm, -⟩, hi⟩
        exact ⟨hm, hi⟩
  · intro y
    have hmem : y ∈ t.leafBlockIds ↔ (t.nodes p).segment.getLast? = some y ∧
        childless (t.nodes p) = true ∨ y ≠ x ∧ y ∈ s.leafBlockIds := by
      rw [ht, mem_addLeaf, addLeaf_rest.1, setNode_leafBlockIds, Finset.mem_erase]
    have hlastn : (s.nodes n).segment.getLast? = some x := by simp [hseg]
    rw [hmem, h.leaves]
    constructor
    · rintro (⟨hlast, hpl⟩ | ⟨hyx, m, hm, hlast, hml⟩)
      · refine ⟨p, ⟨hp, h.shape.parent_ne hn hparent⟩, hlast, hpl⟩
      · have hmp : m ≠ p := by
          rintro rfl
          have := childless_iff.mp hml x
          rw [hget] at this
          cases this
        refine ⟨m, ⟨hm, ?_⟩, by rwa [hsegment], by rwa [hother m hmp]⟩
        rintro rfl
        exact hyx (Option.some.inj (hlast.symm.trans hlastn))
    · rintro ⟨m, ⟨hm, hmn⟩, hlast, hml⟩
      by_cases hmp : m = p
      · subst hmp
        exact .inl ⟨hlast, hml⟩
      · rw [hsegment] at hlast
        rw [hother m hmp] at hml
        refine .inr ⟨?_, m, hm, hlast, hml⟩
        rintro rfl
        exact hmn (h.shape.once m n y hm hn (List.mem_of_getLast? hlast) (by simp [hseg]))

/-- A segment loses its last id. -/
theorem holds_trim (h : Holds s live par) (hn : live n) (hseg : (s.nodes n).segment = l ++ [x])
    (hl : l ≠ []) (hleaf : childless (s.nodes n) = true) {t : RadixHeap B}
    (ht : t = addLeaf n (setNode n { s.nodes n with segment := l }
      { s with locations := s.locations.pop x, leafBlockIds := s.leafBlockIds.erase x })) :
    Holds t live (par.pop x) := by
  obtain ⟨htnodes, htlocations, htallocated⟩ :
      (∀ m, t.nodes m = if m = n then { s.nodes n with segment := l } else s.nodes m) ∧
      t.locations = s.locations.pop x ∧ t.allocated = s.allocated := by
    rw [ht]
    refine ⟨fun m => ?_, addLeaf_rest.2.1, addLeaf_rest.2.2⟩
    rw [addLeaf_rest.1, setNode_nodes]
  have hsegment : ∀ m, (t.nodes m).segment = if m = n then l else (s.nodes m).segment := by
    intro m
    rw [htnodes]
    split <;> rfl
  have hchildren : ∀ m, (t.nodes m).children = (s.nodes m).children := by
    intro m
    rw [htnodes]
    split
    · rename_i hm
      rw [hm]
    · rfl
  have hchildless : ∀ m, childless (t.nodes m) = childless (s.nodes m) := by
    intro m
    unfold childless
    rw [hchildren]
  have hnodup := h.shape.nodup n hn
  rw [hseg, List.nodup_append] at hnodup
  have hx : x ∈ (s.nodes n).segment := by simp [hseg]
  have hlastn : (s.nodes n).segment.getLast? = some x := by simp [hseg]
  refine ⟨h.shape.trim hn hseg hl (childless_iff.mp hleaf) hsegment ?_ ?_, ?_, ?_, ?_⟩
  · intro m
    rw [htnodes]
    split
    · rename_i hm
      rw [hm]
    · rfl
  · intro m a
    rw [hchildren]
  · intro m hm
    rw [htallocated]
    exact h.allocated m hm
  · intro y m i
    rw [htlocations, Dict.get?_pop, hsegment]
    split
    · rename_i hy
      subst hy
      constructor
      · intro hnone
        cases hnone
      · rintro ⟨hm, hi⟩
        split at hi
        · exact absurd rfl (hnodup.2.2 y (List.mem_of_getElem? hi) y (by simp))
        · rename_i hmn
          exact absurd (h.shape.once m n y hm hn (List.mem_of_getElem? hi) hx) hmn
    · rename_i hy
      rw [h.locations]
      refine and_congr_right fun _ => ?_
      split
      · rename_i hmn
        rw [hmn, hseg, List.getElem?_append]
        split
        · exact Iff.rfl
        · rename_i hil
          rw [List.getElem?_eq_none (by omega : l.length ≤ i)]
          constructor
          · intro hi
            exact absurd (List.mem_singleton.mp (List.mem_of_getElem? hi)) hy
          · intro hnone
            cases hnone
      · exact Iff.rfl
  · intro y
    have hmem : y ∈ t.leafBlockIds ↔ l.getLast? = some y ∨ y ≠ x ∧ y ∈ s.leafBlockIds := by
      rw [ht, mem_addLeaf, setNode_nodes, if_pos rfl, setNode_leafBlockIds, Finset.mem_erase]
      have : childless { s.nodes n with segment := l } = true := hleaf
      simp [this]
    rw [hmem, h.leaves]
    constructor
    · rintro (hlast | ⟨hyx, m, hm, hlast, hml⟩)
      · exact ⟨n, hn, by rwa [hsegment, if_pos rfl], by rwa [hchildless]⟩
      · have hmn : m ≠ n := by
          rintro rfl
          exact hyx (Option.some.inj (hlast.symm.trans hlastn))
        exact ⟨m, hm, by rwa [hsegment, if_neg hmn], by rwa [hchildless]⟩
    · rintro ⟨m, hm, hlast, hml⟩
      rw [hchildless] at hml
      rw [hsegment] at hlast
      split at hlast
      · exact .inl hlast
      · rename_i hmn
        refine .inr ⟨?_, m, hm, hlast, hml⟩
        rintro rfl
        exact hmn (h.shape.once m n y hm hn (List.mem_of_getLast? hlast) hx)

omit [DecidableEq B] in
/-- Where an id is, it ends its node or is followed by another. -/
theorem at_index (hx : (s.nodes n).segment[i]? = some x) :
    (i + 1 = (s.nodes n).segment.length ∧ (s.nodes n).segment.getLast? = some x) ∨
      ∃ upper next lower, (s.nodes n).segment = upper ++ x :: next :: lower ∧ upper.length = i := by
  obtain ⟨hi, hget⟩ := List.getElem?_eq_some_iff.mp hx
  have hsplit := (List.take_append_drop i (s.nodes n).segment).symm
  rw [List.drop_eq_getElem_cons hi, hget] at hsplit
  cases hdrop : (s.nodes n).segment.drop (i + 1) with
  | nil =>
    rw [hdrop] at hsplit
    left
    refine ⟨?_, by rw [hsplit, List.getLast?_concat]⟩
    have := List.drop_eq_nil_iff.mp hdrop
    omega
  | cons next lower =>
    rw [hdrop] at hsplit
    exact .inr ⟨_, next, lower, hsplit, by rw [List.length_take]; omega⟩

/-- **`remove_block`** takes an id without children out, and raises without a change otherwise. -/
theorem removeBlock_spec (h : Holds s live par) :
    (∃ t live', removeBlock x s = .ok () t ∧ Holds t live' (par.removeBlock x)) ∨
      (∃ e, (e = .blockMissing ∨ e = .liveTreeChildren) ∧ removeBlock x s = .error e s) ∧
        par.removeBlock x = par := by
  cases hloc : s.locations.get? x with
  | none =>
    have habsent : par.get? x = none := by
      cases hget : par.get? x with
      | none => rfl
      | some q => exact absurd ⟨q, hget⟩ (h.location_none.mp hloc)
    right
    refine ⟨⟨.blockMissing, .inl rfl, ?_⟩, ?_⟩
    · unfold removeBlock
      simp only [get_bind, hloc]
      rfl
    · unfold ParentRelation.removeBlock
      rw [Dict.pop_of_get?_none habsent, ite_self]
  | some e =>
    obtain ⟨n, i⟩ := e
    obtain ⟨hn, hx⟩ := (h.locations x n i).mp hloc
    have hn0 : n ≠ 0 := h.shape.ne_root_of_mem (List.mem_of_getElem? hx)
    by_cases hguard : i + 1 ≠ (s.nodes n).segment.length ∨ childless (s.nodes n) = false
    · right
      refine ⟨⟨.liveTreeChildren, .inr rfl, ?_⟩, ?_⟩
      · unfold removeBlock
        simp only [get_bind, hloc, raiseIf_bind]
        rw [if_pos hguard]
      · -- the id has a child
        unfold ParentRelation.removeBlock
        rw [if_pos]
        rw [hasChild_iff]
        rcases at_index hx with ⟨hlast, hend⟩ | ⟨upper, next, lower, hseg, _⟩
        · have hleaf : childless (s.nodes n) = false := hguard.resolve_left fun hne => hne hlast
          by_contra hnone
          have hall : childless (s.nodes n) = true := by
            rw [childless_iff]
            intro a
            cases hget : (s.nodes n).children.get? a with
            | none => rfl
            | some c => exact absurd ⟨a, (h.shape.child_iff_key hn hend).mpr ⟨c, hget⟩⟩ hnone
          rw [hleaf] at hall
          cases hall
        · exact ⟨next, (h.shape.child_iff_next hn hseg).mpr rfl⟩
    · left
      have hlength : i + 1 = (s.nodes n).segment.length := by
        by_contra hne
        exact hguard (.inl hne)
      have hleaf : childless (s.nodes n) = true := by
        cases hc : childless (s.nodes n) with
        | true => rfl
        | false => exact absurd (.inr hc) hguard
      have hend : (s.nodes n).segment.getLast? = some x := by
        rcases at_index hx with ⟨_, hend⟩ | ⟨upper, next, lower, hseg, hupper⟩
        · exact hend
        · rw [hseg] at hlength
          simp only [List.length_append, List.length_cons] at hlength
          omega
      have hpar : par.removeBlock x = par.pop x := by
        unfold ParentRelation.removeBlock
        rw [if_neg]
        rw [hasChild_iff]
        rintro ⟨y, hy⟩
        exact h.shape.no_child_of_last hn hend (childless_iff.mp hleaf) y hy
      rw [hpar]
      obtain ⟨p, _, _, hparent, _, _, _⟩ := h.shape.entry hn hn0
      obtain ⟨init, hinit⟩ := List.getLast?_eq_some_iff.mp hend
      cases init with
      | nil =>
        rw [List.nil_append] at hinit
        refine ⟨_, _, ?_, holds_drop h hn hinit hleaf hparent rfl⟩
        unfold removeBlock
        simp only [get_bind, hloc, raiseIf_bind]
        rw [if_neg hguard]
        simp only [hparent, hinit]
        rfl
      | cons a init =>
        obtain ⟨t, ht⟩ : ∃ t, t = addLeaf n (setNode n { s.nodes n with segment := a :: init }
            { s with
              locations := s.locations.pop x
              leafBlockIds := s.leafBlockIds.erase x }) := ⟨_, rfl⟩
        refine ⟨t, live, ?_, holds_trim h hn hinit (by simp) hleaf ht⟩
        have hdrop : (a :: init ++ [x]).dropLast = a :: init := List.dropLast_concat
        unfold removeBlock
        simp only [get_bind, hloc, raiseIf_bind]
        rw [if_neg hguard]
        simp only [hparent]
        cases init with
        | nil =>
          simp only [hinit]
          rw [ht]
          rfl
        | cons b init =>
          rw [← hdrop] at ht
          simp only [hinit]
          rw [ht]
          rfl

/-! ## `insert` -/

/-- The heap only matters up to what is read of it. -/
theorem Holds.congr {t : RadixHeap B} (h : Holds s live par) (hnodes : ∀ m, t.nodes m = s.nodes m)
    (hallocated : t.allocated = s.allocated)
    (hlocations : ∀ x m i, t.locations.get? x = some (m, i) ↔ s.locations.get? x = some (m, i))
    (hleaves : ∀ x, x ∈ t.leafBlockIds ↔ x ∈ s.leafBlockIds) : Holds t live par := by
  have hsame : t.nodes = s.nodes := funext hnodes
  refine ⟨?_, ?_, ?_, ?_⟩
  · rw [hsame]
    exact h.shape
  · rw [hallocated]
    exact h.allocated
  · intro x m i
    rw [hlocations, hsame]
    exact h.locations x m i
  · intro x
    rw [hleaves, hsame]
    exact h.leaves x

/-- Two updates of the location map commute when their ids are apart: `S` says that an id is in the
halves and `X` that it is new. -/
theorem updates_swap {T L N S X O : Prop} (hT : T → S) (hL : L → S) (hN : N → ¬ S) (hX : S → ¬ X) :
    (T ∨ L ∨ ¬ S ∧ (N ∨ ¬ X ∧ O)) ↔ (N ∨ ¬ X ∧ (T ∨ L ∨ ¬ S ∧ O)) := by
  by_cases hS : S
  · have hnN : ¬ N := fun h => hN h hS
    simp [hS, hnN, hX hS]
  · have hnT : ¬ T := fun h => hS (hT h)
    have hnL : ¬ L := fun h => hS (hL h)
    simp [hS, hnT, hnL]

/-- The state the split of `insert` leaves. -/
theorem halve_spec {child : NodeId} {k : Nat} {first next : B} {upper lower : List B}
    (hupper : (s.nodes child).segment.take k = first :: upper)
    (hlower : (s.nodes child).segment.drop k = next :: lower) (hnc : n ≠ child)
    (hna : n ≠ s.allocated) (hca : child ≠ s.allocated) :
    (∀ m, (halve n child k s).nodes m =
      if m = child then
        { s.nodes child with segment := next :: lower, parent := some s.allocated }
      else if m = n then
        { s.nodes n with children := (s.nodes n).children.set first s.allocated }
      else if m = s.allocated then
        { segment := first :: upper, parent := some n, children := Dict.set ∅ next child }
      else s.nodes m) ∧
      (halve n child k s).allocated = s.allocated + 1 ∧
      (halve n child k s).locations = (s.unindexSegment (s.nodes child).segment).locations ∧
      (halve n child k s).leafBlockIds = s.leafBlockIds := by
  unfold halve
  simp only [hupper, hlower]
  refine ⟨fun m => ?_, rfl, rfl, rfl⟩
  simp only [setNode_nodes, unindexSegment_allocated, unindexSegment_nodes, if_neg hnc.symm,
    if_neg hna, if_neg hca]

/-- The split of `insert` cuts the child; the new node takes the upper half. -/
theorem cut_halve (h : Holds s live par) {child : NodeId} {k : Nat} {first next : B}
    {upper lower : List B} (hn : live n) (hget : (s.nodes n).children.get? first = some child)
    (hupper : (s.nodes child).segment.take k = first :: upper)
    (hlower : (s.nodes child).segment.drop k = next :: lower) :
    Shape.Cut live s.nodes (halve n child k s).nodes child s.allocated child n first next upper
      lower := by
  obtain ⟨hchild, hparent, hhead⟩ := h.shape.down n first child hn hget
  have hfresh : ¬ live s.allocated := fun hl => Nat.lt_irrefl _ (h.allocated _ hl)
  have hnc := (h.shape.child_ne hn hget).symm
  have hna : n ≠ s.allocated := fun he => hfresh (he ▸ hn)
  have hca : child ≠ s.allocated := fun he => hfresh (he ▸ hchild)
  obtain ⟨hnodes, _⟩ := halve_spec hupper hlower hnc hna hca
  have htop : (halve n child k s).nodes s.allocated = _ :=
    (hnodes _).trans ((if_neg hca.symm).trans ((if_neg hna.symm).trans (if_pos rfl)))
  have hbottom : (halve n child k s).nodes child = _ := (hnodes _).trans (if_pos rfl)
  have hsplit := (List.take_append_drop k (s.nodes child).segment).symm
  rw [hupper, hlower] at hsplit
  refine ⟨hsplit, hparent, ?_, ?_, ?_, ?_, ?_, ?_, ?_, ?_, ?_, .inr ⟨rfl, hca.symm, hfresh⟩⟩
  · rw [htop]
  · rw [htop]
  · intro a
    rw [htop, Dict.get?_set, Dict.get?_empty]
  · rw [hbottom]
  · rw [hbottom]
  · intro a
    rw [hbottom]
  · intro m hms hmc
    rw [hnodes, if_neg hmc]
    split
    · rename_i hmn
      rw [hmn]
    · rfl
  · intro m hm hms hmc
    have hsame : ((halve n child k s).nodes m).parent = (s.nodes m).parent := by
      rw [hnodes, if_neg hmc]
      split
      · rename_i hmn
        rw [hmn]
      · rfl
    rw [hsame]
    split
    · rename_i hmp
      exact hmp
    · rfl
  · intro m hms hmc a
    rw [hnodes, if_neg hmc]
    by_cases hmn : m = n
    · subst hmn
      rw [if_pos rfl, Dict.get?_set]
      simp
    · rw [if_neg hmn, if_neg hms, if_neg (fun hma => hmn hma.1)]

/-- **A child is split before the id where the path leaves it**, and what is left of the path hangs
below the upper half. -/
theorem holds_splitBefore (h : Holds s live par) {child : NodeId} {k : Nat} {first next : B}
    {upper lower path : List B} (hn : live n)
    (hget : (s.nodes n).children.get? first = some child)
    (hupper : (s.nodes child).segment.take k = first :: upper)
    (hlower : (s.nodes child).segment.drop k = next :: lower) (hnodup : (path.drop k).Nodup)
    (hnew : ∀ x ∈ path.drop k, ¬ par.Present x) :
    ∃ live', Holds (splitBefore n child k path s) live'
      (par.addChain (lastId none (first :: upper)) (path.drop k)) := by
  obtain ⟨hchild, hparent, hhead⟩ := h.shape.down n first child hn hget
  have hfresh : ¬ live s.allocated := fun hl => Nat.lt_irrefl _ (h.allocated _ hl)
  have hnc := (h.shape.child_ne hn hget).symm
  have hna : n ≠ s.allocated := fun he => hfresh (he ▸ hn)
  have hca : child ≠ s.allocated := fun he => hfresh (he ▸ hchild)
  have hcut := cut_halve h hn hget hupper hlower
  obtain ⟨_, hallocated, hlocations, hleaves⟩ := halve_spec hupper hlower hnc hna hca
  have hseg := h.shape.nodup child hchild
  obtain ⟨u, hu⟩ : ∃ u, u = halve n child k s := ⟨_, rfl⟩
  rw [← hu] at hcut hallocated hlocations hleaves
  -- the halves, indexed before the rest of the path is added
  have hw : Holds ((u.indexSegment s.allocated).indexSegment child)
      (fun m => live m ∨ m = s.allocated ∨ m = child) par := by
    have hindexed : Shape.Cut live s.nodes ((u.indexSegment s.allocated).indexSegment child).nodes
        child s.allocated child n first next upper lower := hcut
    refine h.cut hchild hindexed hallocated ?_ ?_ hleaves ?_
    · rw [indexSegment_allocated, indexSegment_allocated, hallocated]
      exact Nat.lt_succ_self _
    · rw [indexSegment_allocated, indexSegment_allocated, hallocated]
      exact Nat.lt_succ_of_lt (h.allocated child hchild)
    · intro x m i
      exact get?_reindexed hlocations hcut.topSegment hcut.bottomSegment hcut.segment hseg rfl
  cases hpath : path.drop k with
  | nil =>
    have hrun : splitBefore n child k path s = (u.indexSegment s.allocated).indexSegment child := by
      unfold splitBefore
      simp only [hpath, ← hu]
    rw [hrun]
    exact ⟨_, hw⟩
  | cons id rest =>
    rw [hpath] at hnodup hnew
    have hrun : splitBefore n child k path s =
        ((addChild s.allocated id rest u).indexSegment s.allocated).indexSegment child := by
      unfold splitBefore
      simp only [hpath, ← hu]
    have hadd := holds_addChild hw (.inr (.inl rfl)) hnodup hnew
    have hkept : discarded s.allocated ((u.indexSegment s.allocated).indexSegment child) =
        (u.indexSegment s.allocated).indexSegment child := by
      unfold discarded
      rw [if_neg]
      intro hleaf
      have := childless_iff.mp hleaf next
      rw [indexSegment_nodes, indexSegment_nodes, hcut.topChildren, if_pos rfl] at this
      cases this
    have hlast : (u.nodes s.allocated).segment.getLast? = lastId none (first :: upper) := by
      rw [hcut.topSegment, lastId_eq, Option.or_none]
    rw [hkept, indexSegment_nodes, indexSegment_nodes, hlast] at hadd
    have hne : s.allocated ≠ u.allocated := by
      rw [hallocated]
      exact (Nat.lt_succ_self _).ne
    obtain ⟨hnodes₁, hallocated₁, hleaves₁, hlocations₁⟩ := addChild_spec id rest hne
    obtain ⟨hnodes₂, hallocated₂, hleaves₂, hlocations₂⟩ :=
      addChild_spec id rest (u := (u.indexSegment s.allocated).indexSegment child) hne
    have hsegment : ∀ m, m ≠ u.allocated →
        ((addChild s.allocated id rest u).nodes m).segment = (u.nodes m).segment := by
      intro m hm
      rw [hnodes₁]
      split
      · rename_i hms
        rw [hms]
      · rfl
    -- the new ids are in neither half
    have hapart : ∀ x ∈ (s.nodes child).segment, x ∉ id :: rest := fun x hx hmem =>
      hnew x hmem (h.shape.present_iff.mpr ⟨child, hchild, hx⟩)
    rw [hrun]
    refine ⟨_, hadd.congr (fun m => ?_) ?_ (fun x m i => ?_) fun x => ?_⟩
    · rw [indexSegment_nodes, indexSegment_nodes, hnodes₁, hnodes₂]
      rfl
    · rw [indexSegment_allocated, indexSegment_allocated, hallocated₁, hallocated₂]
      rfl
    · have hcu : child ≠ u.allocated := by
        rw [hallocated]
        exact (Nat.lt_succ_of_lt (h.allocated child hchild)).ne
      rw [get?_indexed_halves ((hsegment _ hne).trans hcut.topSegment)
        ((hsegment _ hcu).trans hcut.bottomSegment) hcut.segment hseg, hlocations₁ hnodup,
        hlocations₂ hnodup, get?_indexed_halves hcut.topSegment hcut.bottomSegment hcut.segment
        hseg]
      refine updates_swap ?_ ?_ ?_ (hapart x)
      · rintro ⟨_, hi⟩
        rw [hcut.segment]
        exact List.mem_append_left _ (List.mem_of_getElem? hi)
      · rintro ⟨_, hi⟩
        rw [hcut.segment]
        exact List.mem_append_right _ (List.mem_of_getElem? hi)
      · rintro ⟨_, hi⟩ hx
        exact hapart x hx (List.mem_of_getElem? hi)
    · rw [indexSegment_leafBlockIds, indexSegment_leafBlockIds, hleaves₁, hleaves₂]
      rfl

theorem commonLength_le (ids segment : List B) : commonLength ids segment ≤ segment.length := by
  induction segment generalizing ids with
  | nil => cases ids <;> exact Nat.le_refl 0
  | cons a segment ih =>
    cases ids with
    | nil => exact Nat.zero_le _
    | cons id ids =>
      unfold commonLength
      split
      · exact Nat.succ_le_succ (ih ids)
      · exact Nat.zero_le _

/-- Up to the common length the path is the segment, and past it they part. -/
theorem commonLength_spec (ids segment : List B) :
    ids.take (commonLength ids segment) = segment.take (commonLength ids segment) ∧
      ∀ a b, (ids.drop (commonLength ids segment)).head? = some a →
        (segment.drop (commonLength ids segment)).head? = some b → a ≠ b := by
  induction segment generalizing ids with
  | nil => cases ids <;> simp [commonLength]
  | cons c segment ih =>
    cases ids with
    | nil => simp [commonLength]
    | cons id ids =>
      unfold commonLength
      by_cases hc : id = c
      · subst hc
        simpa using ih ids
      · simp only [hc, if_false]
        refine ⟨rfl, fun a b ha hb hab => hc ?_⟩
        rw [List.drop_zero, List.head?_cons, Option.some.injEq] at ha hb
        rw [ha, hb, hab]

/-- **The loop of `insert`**: below a live node, a path that agrees with what is recorded gets its
missing ids, and the fuel is enough. -/
theorem insertLoop_spec (h : Holds s live par) (hn : live n) {path : List B} {fuel : Nat}
    (hnodup : path.Nodup)
    (hagree : ∀ e ∈ chainEdges (s.nodes n).segment.getLast? path,
      ∀ q, par.get? e.1 = some q → q = e.2) (hfuel : path.length < fuel) :
    ∃ t live', insertLoop fuel n path s = .ok () t ∧ Holds t live'
      (par.addChain (lastId (s.nodes n).segment.getLast? (par.recorded path).1)
        (par.recorded path).2) := by
  induction fuel generalizing n path with
  | zero => exact absurd hfuel (Nat.not_lt_zero _)
  | succ fuel ih =>
    cases path with
    | nil => exact ⟨s, live, rfl, h⟩
    | cons id rest =>
      have hhead : ∀ q, par.get? id = some q → q = (s.nodes n).segment.getLast? :=
        hagree (id, _) List.mem_cons_self
      cases hget : (s.nodes n).children.get? id with
      | none =>
        -- the path leaves the tree at the node
        have hmissing : ¬ par.Present id := by
          rintro ⟨q, hq⟩
          obtain ⟨c, hc⟩ := (h.shape.key_iff hn).mp ((hhead q hq) ▸ hq)
          rw [hget] at hc
          cases hc
        have hadd := holds_addChild h hn hnodup
          (missing_below h.shape.rooted.closed hagree hmissing)
        rw [recorded_cons_missing hmissing]
        refine ⟨_, _, ?_, hadd⟩
        unfold insertLoop
        simp only [get_bind, hget, modify_bind]
        rfl
      | some child =>
        obtain ⟨hchild, hparent, hfirst⟩ := h.shape.down n id child hn hget
        have habove : aboveOf s.nodes child = (s.nodes n).segment.getLast? := by
          unfold aboveOf
          rw [hparent, Option.bind_some]
        have hpresent : ∀ x ∈ (s.nodes child).segment, par.Present x := fun x hx =>
          h.shape.present_iff.mpr ⟨child, hchild, hx⟩
        obtain ⟨k, hk⟩ : ∃ k, k = commonLength (id :: rest) (s.nodes child).segment := ⟨_, rfl⟩
        have hle := commonLength_le (id :: rest) (s.nodes child).segment
        obtain ⟨htake, hpart⟩ := commonLength_spec (id :: rest) (s.nodes child).segment
        rw [← hk] at hle htake hpart
        have hpath := (List.take_append_drop k (id :: rest)).symm
        rw [htake] at hpath
        have hrecorded : par.recorded (id :: rest) = ((s.nodes child).segment.take k ++
            (par.recorded ((id :: rest).drop k)).1, (par.recorded ((id :: rest).drop k)).2) := by
          conv_lhs => rw [hpath]
          exact recorded_append fun x hx => hpresent x (List.take_subset k _ hx)
        have hpos : k ≠ 0 := by
          rw [hk]
          cases hseg : (s.nodes child).segment with
          | nil => simp [hseg] at hfirst
          | cons a tail =>
            obtain rfl : a = id := by simpa [hseg] using hfirst
            simp [commonLength]
        have hdropNodup : ((id :: rest).drop k).Nodup := hnodup.sublist (List.drop_sublist k _)
        have hdropAgree : ∀ e ∈ chainEdges (lastId (s.nodes n).segment.getLast?
            ((s.nodes child).segment.take k)) ((id :: rest).drop k),
            ∀ q, par.get? e.1 = some q → q = e.2 := by
          intro e he
          refine hagree e ?_
          rw [hpath, chainEdges_append]
          exact List.mem_append_right _ he
        by_cases hfull : k = (s.nodes child).segment.length
        · -- the whole segment agrees: down to the child
          have hall : (s.nodes child).segment.take k = (s.nodes child).segment := by
            rw [hfull, List.take_length]
          have hlast : lastId (s.nodes n).segment.getLast? (s.nodes child).segment =
              (s.nodes child).segment.getLast? := by
            rw [lastId_eq]
            cases hend : (s.nodes child).segment.getLast? with
            | none =>
              rw [List.getLast?_eq_none_iff.mp hend] at hfirst
              cases hfirst
            | some z => rfl
          rw [hall, hlast] at hdropAgree
          have hshorter : ((id :: rest).drop k).length < fuel := by
            rw [List.length_cons] at hfuel
            rw [List.length_drop, List.length_cons]
            omega
          obtain ⟨t, live', hrun, ht⟩ := ih hchild hdropNodup hdropAgree hshorter
          refine ⟨t, live', ?_, ?_⟩
          · unfold insertLoop
            simp only [get_bind, hget, ← hk]
            rw [if_pos hfull]
            exact hrun
          · rw [hrecorded, lastId_append, hall, hlast]
            exact ht
        · -- the path leaves the segment: the child is split
          have hlt : k < (s.nodes child).segment.length := by omega
          obtain ⟨first, upper, hupper⟩ : ∃ first upper,
              (s.nodes child).segment.take k = first :: upper := by
            cases htk : (s.nodes child).segment.take k with
            | nil =>
              rcases List.take_eq_nil_iff.mp htk with hk0 | hnil
              · exact absurd hk0 hpos
              · rw [hnil] at hlt
                exact absurd hlt (Nat.not_lt_zero _)
            | cons first upper => exact ⟨first, upper, rfl⟩
          obtain ⟨next, lower, hlower⟩ : ∃ next lower,
              (s.nodes child).segment.drop k = next :: lower := by
            cases hdk : (s.nodes child).segment.drop k with
            | nil =>
              have := List.drop_eq_nil_iff.mp hdk
              omega
            | cons next lower => exact ⟨next, lower, rfl⟩
          have hsegment := (List.take_append_drop k (s.nodes child).segment).symm
          rw [hupper, hlower] at hsegment
          obtain rfl : first = id := by
            rw [hsegment] at hfirst
            simpa using hfirst
          have habsent : ∀ x ∈ (first :: rest).drop k, ¬ par.Present x := by
            cases hdrop : (first :: rest).drop k with
            | nil => exact fun x hx => absurd hx List.not_mem_nil
            | cons a tail =>
              rw [hdrop] at hdropAgree
              refine missing_below h.shape.rooted.closed hdropAgree ?_
              -- the id where they part would be the next of the segment
              rintro ⟨q, hq⟩
              have hqa := hdropAgree (a, _) List.mem_cons_self q hq
              obtain ⟨init, z, hinit⟩ : ∃ init z, first :: upper = init ++ [z] := by
                rcases List.eq_nil_or_concat' (first :: upper) with hnil | ⟨init, z, hinit⟩
                · cases hnil
                · exact ⟨init, z, hinit⟩
              rw [hupper, hinit, lastId_concat] at hqa
              rw [hinit, List.append_assoc, List.singleton_append] at hsegment
              have hnext := (h.shape.child_iff_next hchild hsegment).mp (hqa ▸ hq)
              exact hpart a next (by rw [hdrop]; rfl) (by rw [hlower]; rfl) hnext
          obtain ⟨live', hsplit⟩ := holds_splitBefore h hn hget hupper hlower hdropNodup habsent
          have hlastId : lastId (s.nodes n).segment.getLast? (first :: upper) =
              lastId none (first :: upper) := rfl
          refine ⟨splitBefore n child k (first :: rest) s, live', ?_, ?_⟩
          · unfold insertLoop
            simp only [get_bind, hget, ← hk]
            rw [if_neg hfull, raiseIf_bind, if_neg (hk ▸ hpos)]
            rfl
          · have hnone : par.recorded ((first :: rest).drop k) = ([], (first :: rest).drop k) := by
              cases hdrop : (first :: rest).drop k with
              | nil => rfl
              | cons a tail =>
                rw [hdrop] at habsent
                exact recorded_cons_missing (habsent a List.mem_cons_self)
            rw [hrecorded, hnone, List.append_nil, hupper, hlastId]
            exact hsplit

/-- **`insert`** records the missing ids of a path that agrees with what is recorded. -/
theorem insert_spec (h : Holds s live par) {path : List B} (hpath : par.Consistent path) :
    ∃ t live', RadixHeap.insert path s = .ok () t ∧ Holds t live' (par.insertPath path) := by
  have hroot : (s.nodes 0).segment.getLast? = none := by
    rw [h.shape.rootSegment]
    rfl
  have := insertLoop_spec h h.shape.rootLive hpath.1 (by rw [hroot]; exact hpath.2)
    (Nat.lt_succ_self _)
  rw [hroot] at this
  exact this

end RadixHeap

end SparseVllm
