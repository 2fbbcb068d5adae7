import SparseVllm.Prefix.RadixHeap

/-!
# The shape of a radix tree in memory

`Shape nodes live par`: the live nodes are a tree of segments that reads as the parent relation
`par`. It speaks of the nodes alone. Every update of the nodes is one of four: a node is cut in two
(`Shape.cut`, whichever half keeps the reference), a chain of new ids is hung below a node
(`Shape.hang`), a node of one id is taken out (`Shape.drop`) and a segment loses its last id
(`Shape.trim`).
-/

namespace SparseVllm

open SparseVllm.Lib RadixForest ParentRelation

variable {B : Type} [DecidableEq B]

/-- The id above the segment of a node. -/
def aboveOf (nodes : NodeId → RadixTreeNode B) (n : NodeId) : Option B :=
  (nodes n).parent.bind fun p => (nodes p).segment.getLast?

/-- The live nodes make a tree, rooted at `0`, that reads as `par`. -/
structure Shape (nodes : NodeId → RadixTreeNode B) (live : NodeId → Prop) (par : ParentRelation B) :
    Prop where
  rootLive : live 0
  rootSegment : (nodes 0).segment = []
  rootParent : (nodes 0).parent = none
  down : ∀ p a c, live p → (nodes p).children.get? a = some c →
    live c ∧ (nodes c).parent = some p ∧ (nodes c).segment.head? = some a
  up : ∀ n, live n → n ≠ 0 →
    ∃ p a, (nodes n).parent = some p ∧ live p ∧ (nodes p).children.get? a = some n
  nodup : ∀ n, live n → (nodes n).segment.Nodup
  once : ∀ n m x, live n → live m → x ∈ (nodes n).segment → x ∈ (nodes m).segment → n = m
  edges : ∀ x q, par.get? x = some q ↔
    ∃ n, live n ∧ (x, q) ∈ chainEdges (aboveOf nodes n) (nodes n).segment
  rooted : par.Rooted

namespace Shape

variable {nodes nodes' : NodeId → RadixTreeNode B} {live : NodeId → Prop} {par : ParentRelation B}
  {n m p c : NodeId} {x a id : B} {seg rest l : List B} {q : Option B}

/-- A node other than the root has a first id, and its parent's map leads to it from there. -/
theorem entry (h : Shape nodes live par) (hn : live n) (h0 : n ≠ 0) :
    ∃ p a seg, (nodes n).parent = some p ∧ live p ∧ (nodes n).segment = a :: seg ∧
      (nodes p).children.get? a = some n := by
  obtain ⟨p, a, hparent, hp, hget⟩ := h.up n hn h0
  obtain ⟨_, _, hhead⟩ := h.down p a n hp hget
  cases hseg : (nodes n).segment with
  | nil =>
    rw [hseg] at hhead
    cases hhead
  | cons b seg =>
    rw [hseg] at hhead
    obtain rfl : b = a := by simpa using hhead
    exact ⟨p, b, seg, hparent, hp, rfl, hget⟩

theorem child_ne_root (h : Shape nodes live par) (hp : live p)
    (hget : (nodes p).children.get? a = some c) : c ≠ 0 := by
  rintro rfl
  have := (h.down p a 0 hp hget).2.1
  rw [h.rootParent] at this
  cases this

theorem segment_ne_nil (h : Shape nodes live par) (hn : live n) (h0 : n ≠ 0) :
    (nodes n).segment ≠ [] := by
  obtain ⟨_, _, _, _, _, hseg, _⟩ := h.entry hn h0
  simp [hseg]

theorem ne_root_of_mem (h : Shape nodes live par) (hx : x ∈ (nodes n).segment) : n ≠ 0 := by
  rintro rfl
  rw [h.rootSegment] at hx
  cases hx

/-- The ids of a live node's segment are a chain. -/
theorem chain (h : Shape nodes live par) (hn : live n) :
    par.Chain (aboveOf nodes n) (nodes n).segment :=
  fun e he => (h.edges e.1 e.2).mpr ⟨n, hn, he⟩

theorem present_iff (h : Shape nodes live par) :
    par.Present x ↔ ∃ n, live n ∧ x ∈ (nodes n).segment := by
  constructor
  · rintro ⟨q, hq⟩
    obtain ⟨n, hn, he⟩ := (h.edges x q).mp hq
    exact ⟨n, hn, mem_of_edge he⟩
  · rintro ⟨n, hn, hx⟩
    exact (h.chain hn).present hx

/-- The ids along a chain have rising ranks. -/
theorem rank_lt_of_chain {rank : B → Nat}
    (hrank : ∀ x p, par.get? x = some (some p) → rank p < rank x) {above : B}
    (hchain : par.Chain (some above) l) (hx : x ∈ l) : rank above < rank x := by
  induction l generalizing above with
  | nil => cases hx
  | cons a l ih =>
    obtain ⟨ha, hchain⟩ := chain_cons.mp hchain
    have hlt := hrank a above ha
    rcases List.mem_cons.mp hx with rfl | hx
    · exact hlt
    · exact hlt.trans (ih hchain hx)

/-- A rank of the nodes that rises from parent to child. -/
theorem exists_rank (h : Shape nodes live par) :
    ∃ rank : NodeId → Nat, ∀ p a c, live p → (nodes p).children.get? a = some c →
      rank p < rank c := by
  obtain ⟨rank, hrank⟩ := h.rooted.exists_rank
  refine ⟨fun n => ((nodes n).segment.head?.map fun a => rank a + 1).getD 0, fun p a c hp hget => ?_⟩
  obtain ⟨hc, hparent, hhead⟩ := h.down p a c hp hget
  cases hseg : (nodes p).segment with
  | nil => simp [hseg, hhead]
  | cons b seg =>
    -- the last id of the parent is the id above the child's first
    obtain ⟨tail, hcseg⟩ : ∃ tail, (nodes c).segment = a :: tail := by
      cases hcs : (nodes c).segment with
      | nil => simp [hcs] at hhead
      | cons b tail =>
        obtain rfl : b = a := by simpa [hcs] using hhead
        exact ⟨tail, rfl⟩
    have hchild := h.chain hc
    have hself := h.chain hp
    have hlast : aboveOf nodes c = (b :: seg).getLast? := by
      simp [aboveOf, hparent, hseg]
    rw [hcseg, hlast] at hchild
    rw [hseg] at hself
    have hba : rank b < rank a := by
      rcases List.eq_nil_or_concat' seg with rfl | ⟨seg, z, rfl⟩
      · exact hrank a b (chain_cons.mp hchild).1
      · have hz : rank b < rank z :=
          rank_lt_of_chain hrank (chain_cons.mp hself).2 (by simp)
        have ha : par.get? a = some (some z) := by
          have := (chain_cons.mp hchild).1
          rwa [← List.cons_append, List.getLast?_concat] at this
        exact hz.trans (hrank a z ha)
    simpa [hhead, hseg] using hba

theorem child_ne (h : Shape nodes live par) (hp : live p)
    (hget : (nodes p).children.get? a = some c) : c ≠ p := by
  rintro rfl
  obtain ⟨rank, hrank⟩ := h.exists_rank
  exact absurd (hrank c a c hp hget) (lt_irrefl _)

theorem parent_ne (h : Shape nodes live par) (hn : live n) (hparent : (nodes n).parent = some p) :
    p ≠ n := by
  have h0 : n ≠ 0 := by
    rintro rfl
    rw [h.rootParent] at hparent
    cases hparent
  obtain ⟨p', a, _, hp', hlive, _, hget⟩ := h.entry hn h0
  obtain rfl : p = p' := Option.some.inj (hparent.symm.trans hp')
  exact (h.child_ne hlive hget).symm

/-- The keys of a child map are first ids, so no two lead to one node. -/
theorem children_inj (h : Shape nodes live par) (hp : live p) {b : B}
    (ha : (nodes p).children.get? a = some c) (hb : (nodes p).children.get? b = some c) : a = b := by
  have := (h.down p a c hp ha).2.2.symm.trans (h.down p b c hp hb).2.2
  simpa using this

/-! ## Children -/

/-- The id above a node is the last id of another node. -/
theorem above_of_mem (h : Shape nodes live par) (hm : live m) (habove : aboveOf nodes m = some x) :
    ∃ r a tail, (nodes m).parent = some r ∧ live r ∧ r ≠ m ∧ (nodes r).segment.getLast? = some x ∧
      (nodes m).segment = a :: tail ∧ (nodes r).children.get? a = some m := by
  have hm0 : m ≠ 0 := by
    rintro rfl
    simp [aboveOf, h.rootParent] at habove
  obtain ⟨r, a, tail, hparent, hr, hseg, hget⟩ := h.entry hm hm0
  unfold aboveOf at habove
  rw [hparent, Option.bind_some] at habove
  exact ⟨r, a, tail, hparent, hr, h.parent_ne hm hparent, habove, hseg, hget⟩

/-- The id of a segment that is not the last has the next one as its only child. -/
theorem child_iff_next (h : Shape nodes live par) (hn : live n) {upper lower : List B} {next : B}
    (hseg : (nodes n).segment = upper ++ x :: next :: lower) {y : B} :
    par.get? y = some (some x) ↔ y = next := by
  have hnodup := h.nodup n hn
  rw [hseg, List.nodup_append, List.nodup_cons] at hnodup
  obtain ⟨_, ⟨hxlower, _⟩, hapart⟩ := hnodup
  have hx : x ∈ (nodes n).segment := by simp [hseg]
  -- the id is not above a node
  have hnotAbove : ∀ m, live m → aboveOf nodes m ≠ some x := by
    intro m hm habove
    obtain ⟨r, _, _, _, hr, _, hlast, _, _⟩ := h.above_of_mem hm habove
    obtain rfl := h.once r n x hr hn (List.mem_of_getLast? hlast) hx
    rw [hseg, List.getLast?_append_of_ne_nil _ (by simp), List.getLast?_cons_cons] at hlast
    exact hxlower (List.mem_of_getLast? hlast)
  have hedges : chainEdges (aboveOf nodes n) (nodes n).segment =
      chainEdges (aboveOf nodes n) (upper ++ [x]) ++ (next, some x) ::
        chainEdges (some next) lower := by
    rw [hseg, List.append_cons, chainEdges_append, lastId_concat]
    rfl
  constructor
  · intro hy
    obtain ⟨m, hm, he⟩ := (h.edges y _).mp hy
    obtain rfl : m = n := by
      rcases mem_chainEdges_parent he with habove | hmem
      · exact absurd habove (hnotAbove m hm)
      · exact h.once m n x hm hn (List.dropLast_subset _ hmem) hx
    rw [hedges, List.mem_append, List.mem_cons] at he
    rcases he with he | he | he
    · rcases mem_chainEdges_parent he with habove | hmem
      · exact absurd habove (hnotAbove m hm)
      · rw [List.dropLast_concat] at hmem
        exact absurd rfl (hapart x hmem x List.mem_cons_self)
    · exact congrArg Prod.fst he
    · rcases mem_chainEdges_parent he with hsame | hmem
      · exact absurd (List.mem_cons.mpr (.inl (Option.some.inj hsame).symm)) hxlower
      · exact absurd (List.mem_cons_of_mem _ (List.dropLast_subset _ hmem)) hxlower
  · rintro rfl
    refine (h.edges y _).mpr ⟨n, hn, ?_⟩
    rw [hedges]
    exact List.mem_append_right _ List.mem_cons_self

/-- A key of a child map is recorded below the node's last id. -/
theorem key_edge (h : Shape nodes live par) (hn : live n) {y : B}
    (hget : (nodes n).children.get? y = some c) :
    par.get? y = some (nodes n).segment.getLast? := by
  obtain ⟨hc, hparent, hhead⟩ := h.down n y c hn hget
  have habove : aboveOf nodes c = (nodes n).segment.getLast? := by
    unfold aboveOf
    rw [hparent, Option.bind_some]
  refine (h.edges y _).mpr ⟨c, hc, ?_⟩
  rw [habove]
  cases hseg : (nodes c).segment with
  | nil => simp [hseg] at hhead
  | cons a tail =>
    obtain rfl : a = y := by simpa [hseg] using hhead
    exact List.mem_cons_self

/-- The last id of a segment has the keys of the child map as its children. -/
theorem child_iff_key (h : Shape nodes live par) (hn : live n)
    (hlast : (nodes n).segment.getLast? = some x) {y : B} :
    par.get? y = some (some x) ↔ ∃ c, (nodes n).children.get? y = some c := by
  have hx := List.mem_of_getLast? hlast
  constructor
  · intro hy
    obtain ⟨m, hm, he⟩ := (h.edges y _).mp hy
    rcases mem_chainEdges_parent he with habove | hmem
    · obtain ⟨r, a, tail, hparent, hr, hrm, hrlast, hmseg, hget⟩ := h.above_of_mem hm habove
      obtain rfl := h.once r n x hr hn (List.mem_of_getLast? hrlast) hx
      have hnot : x ∉ (nodes m).segment := fun hxm => hrm (h.once r m x hr hm hx hxm)
      rw [habove, hmseg] at he
      rw [hmseg] at hnot
      rcases List.mem_cons.mp he with he | he
      · obtain rfl : y = a := congrArg Prod.fst he
        exact ⟨m, hget⟩
      · rcases mem_chainEdges_parent he with hsame | hmem
        · exact absurd (List.mem_cons.mpr (.inl (Option.some.inj hsame).symm)) hnot
        · exact absurd (List.mem_cons_of_mem _ (List.dropLast_subset _ hmem)) hnot
    · obtain rfl := h.once m n x hm hn (List.dropLast_subset _ hmem) hx
      obtain ⟨init, hinit⟩ := List.getLast?_eq_some_iff.mp hlast
      have hnodup := h.nodup m hm
      rw [hinit, List.dropLast_concat] at hmem
      rw [hinit, List.nodup_append] at hnodup
      exact absurd rfl (hnodup.2.2 x hmem x (by simp))
  · rintro ⟨c, hget⟩
    rw [h.key_edge hn hget, hlast]

/-- The ids below the end of a node, or the roots below the root node, are the keys of its map. -/
theorem key_iff (h : Shape nodes live par) (hn : live n) {y : B} :
    par.get? y = some (nodes n).segment.getLast? ↔ ∃ c, (nodes n).children.get? y = some c := by
  cases hlast : (nodes n).segment.getLast? with
  | some x => exact h.child_iff_key hn hlast
  | none =>
    -- only the root has no segment
    have hn0 : ∀ m, live m → (nodes m).segment.getLast? = none → m = 0 := by
      intro m hm hnone
      by_contra hm0
      exact h.segment_ne_nil hm hm0 (List.getLast?_eq_none_iff.mp hnone)
    obtain rfl := hn0 n hn hlast
    constructor
    · intro hy
      obtain ⟨m, hm, he⟩ := (h.edges y none).mp hy
      have hm0 : m ≠ 0 := h.ne_root_of_mem (mem_of_edge he)
      obtain ⟨r, a, tail, hparent, hr, hseg, hget⟩ := h.entry hm hm0
      rw [hseg] at he
      rcases List.mem_cons.mp he with he | he
      · obtain ⟨rfl, habove⟩ := Prod.mk.injEq _ _ _ _ ▸ he
        unfold aboveOf at habove
        rw [hparent, Option.bind_some] at habove
        obtain rfl := hn0 r hr habove.symm
        exact ⟨m, hget⟩
      · exact absurd he not_root_edge
    · rintro ⟨c, hget⟩
      rw [h.key_edge hn hget, hlast]

/-! ## Cutting a node in two -/

/-- Node `n`, of segment `upper ++ lower`, becomes the node `top` of `upper` with the one child
`bottom`, of `lower`, which takes over the children. -/
structure Cut (live : NodeId → Prop) (nodes nodes' : NodeId → RadixTreeNode B) (n top bottom p : NodeId)
    (first next : B) (upper lower : List B) : Prop where
  segment : (nodes n).segment = first :: upper ++ next :: lower
  parent : (nodes n).parent = some p
  topSegment : (nodes' top).segment = first :: upper
  topParent : (nodes' top).parent = some p
  topChildren : ∀ a, (nodes' top).children.get? a = if a = next then some bottom else none
  bottomSegment : (nodes' bottom).segment = next :: lower
  bottomParent : (nodes' bottom).parent = some top
  bottomChildren : ∀ a, (nodes' bottom).children.get? a = (nodes n).children.get? a
  keepsSegment : ∀ m, m ≠ top → m ≠ bottom → (nodes' m).segment = (nodes m).segment
  keepsParent : ∀ m, live m → m ≠ top → m ≠ bottom → (nodes' m).parent =
    if (nodes m).parent = some n then some bottom else (nodes m).parent
  keepsChildren : ∀ m, m ≠ top → m ≠ bottom → ∀ a, (nodes' m).children.get? a =
    if m = p ∧ a = first then some top else (nodes m).children.get? a
  fresh : top = n ∧ bottom ≠ n ∧ ¬ live bottom ∨ bottom = n ∧ top ≠ n ∧ ¬ live top

namespace Cut

variable {top bottom : NodeId} {first next : B} {upper lower : List B}

/-- A live node other than `n` is neither half. -/
theorem other (hc : Cut live nodes nodes' n top bottom p first next upper lower) (hm : live m)
    (hmn : m ≠ n) : m ≠ top ∧ m ≠ bottom := by
  rcases hc.fresh with ⟨rfl, _, hfresh⟩ | ⟨rfl, _, hfresh⟩
  · exact ⟨hmn, fun he => hfresh (he ▸ hm)⟩
  · exact ⟨fun he => hfresh (he ▸ hm), hmn⟩

/-- The nodes afterwards: the two halves and the other nodes. -/
theorem live_iff (hc : Cut live nodes nodes' n top bottom p first next upper lower) :
    (live m ∨ m = top ∨ m = bottom) ↔ m = top ∨ m = bottom ∨ live m ∧ m ≠ n := by
  rcases hc.fresh with ⟨rfl, _, _⟩ | ⟨rfl, _, _⟩ <;> tauto

/-- The parent of the node that is cut, with its entry. -/
theorem entry (hc : Cut live nodes nodes' n top bottom p first next upper lower)
    (h : Shape nodes live par) (hn : live n) :
    n ≠ 0 ∧ live p ∧ p ≠ n ∧ (nodes p).children.get? first = some n := by
  have hn0 : n ≠ 0 := h.ne_root_of_mem (x := first) (by simp [hc.segment])
  obtain ⟨p', a', seg', hp', hplive, hseg', hget'⟩ := h.entry hn hn0
  obtain rfl : p = p' := Option.some.inj (hc.parent.symm.trans hp')
  have hsame := hc.segment.symm.trans hseg'
  rw [List.cons_append, List.cons.injEq] at hsame
  exact ⟨hn0, hplive, h.parent_ne hn hc.parent, hsame.1 ▸ hget'⟩

theorem aboveOf_top (hc : Cut live nodes nodes' n top bottom p first next upper lower)
    (h : Shape nodes live par) (hn : live n) : aboveOf nodes' top = aboveOf nodes n := by
  obtain ⟨_, hp, hpn, _⟩ := hc.entry h hn
  obtain ⟨hptop, hpbottom⟩ := hc.other hp hpn
  unfold aboveOf
  rw [hc.topParent, hc.parent, Option.bind_some, Option.bind_some, hc.keepsSegment p hptop hpbottom]

theorem aboveOf_bottom (hc : Cut live nodes nodes' n top bottom p first next upper lower) :
    aboveOf nodes' bottom = lastId (aboveOf nodes n) (first :: upper) := by
  unfold aboveOf
  rw [hc.bottomParent, Option.bind_some, hc.topSegment, lastId_eq]
  cases hlast : (first :: upper).getLast? with
  | none => simp at hlast
  | some z => rfl

theorem aboveOf_other (hc : Cut live nodes nodes' n top bottom p first next upper lower)
    (h : Shape nodes live par) (hm : live m) (hmn : m ≠ n) : aboveOf nodes' m = aboveOf nodes m := by
  obtain ⟨hmtop, hmbottom⟩ := hc.other hm hmn
  unfold aboveOf
  rw [hc.keepsParent m hm hmtop hmbottom]
  split
  · rename_i hparent
    rw [hparent, Option.bind_some, Option.bind_some, hc.bottomSegment, hc.segment]
    exact (List.getLast?_append_of_ne_nil _ (by simp)).symm
  · rename_i hparent
    by_cases hm0 : m = 0
    · rw [hm0, h.rootParent]
      rfl
    · obtain ⟨r, a, hr, hrlive, _⟩ := h.up m hm hm0
      have hrn : r ≠ n := fun he => hparent (he ▸ hr)
      obtain ⟨hrtop, hrbottom⟩ := hc.other hrlive hrn
      rw [hr, Option.bind_some, Option.bind_some, hc.keepsSegment r hrtop hrbottom]

end Cut

/-- **Cutting a node in two keeps the parent relation**, whichever half keeps the reference. -/
theorem cut (h : Shape nodes live par) {top bottom : NodeId} {first next : B} {upper lower : List B}
    (hn : live n) (hc : Cut live nodes nodes' n top bottom p first next upper lower) :
    Shape nodes' (fun m => live m ∨ m = top ∨ m = bottom) par := by
  obtain ⟨hn0, hp, hpn, hget⟩ := hc.entry h hn
  obtain ⟨hptop, hpbottom⟩ := hc.other hp hpn
  obtain ⟨h0top, h0bottom⟩ := hc.other h.rootLive hn0.symm
  have hsegment := h.nodup n hn
  rw [hc.segment, List.nodup_append] at hsegment
  refine ⟨Or.inl h.rootLive, ?_, ?_, ?_, ?_, ?_, ?_, ?_, h.rooted⟩
  · rw [hc.keepsSegment 0 h0top h0bottom, h.rootSegment]
  · rw [hc.keepsParent 0 h.rootLive h0top h0bottom, h.rootParent, if_neg (by simp)]
  · intro r a c hr hrc
    rcases hc.live_iff.mp hr with rfl | rfl | ⟨hr, hrn⟩
    · rw [hc.topChildren] at hrc
      split at hrc
      · rename_i ha
        cases hrc
        rw [hc.bottomParent, hc.bottomSegment, ha]
        exact ⟨.inr (.inr rfl), rfl, rfl⟩
      · cases hrc
    · rw [hc.bottomChildren] at hrc
      obtain ⟨hlive, hparent, hhead⟩ := h.down n a c hn hrc
      obtain ⟨hctop, hcbottom⟩ := hc.other hlive (h.child_ne hn hrc)
      rw [hc.keepsParent c hlive hctop hcbottom, if_pos hparent, hc.keepsSegment c hctop hcbottom]
      exact ⟨.inl hlive, rfl, hhead⟩
    · obtain ⟨hrtop, hrbottom⟩ := hc.other hr hrn
      rw [hc.keepsChildren r hrtop hrbottom] at hrc
      split at hrc
      · rename_i hra
        obtain ⟨rfl, rfl⟩ := hra
        cases hrc
        rw [hc.topParent, hc.topSegment]
        exact ⟨.inr (.inl rfl), rfl, rfl⟩
      · rename_i hra
        obtain ⟨hlive, hparent, hhead⟩ := h.down r a c hr hrc
        have hcn : c ≠ n := by
          rintro rfl
          obtain rfl : r = p := Option.some.inj (hparent.symm.trans hc.parent)
          exact hra ⟨rfl, h.children_inj hr hrc hget⟩
        obtain ⟨hctop, hcbottom⟩ := hc.other hlive hcn
        rw [hc.keepsParent c hlive hctop hcbottom, hparent, if_neg (by simpa using hrn),
          hc.keepsSegment c hctop hcbottom]
        exact ⟨.inl hlive, rfl, hhead⟩
  · intro m hm hm0
    rcases hc.live_iff.mp hm with rfl | rfl | ⟨hm, hmn⟩
    · refine ⟨p, first, hc.topParent, .inl hp, ?_⟩
      rw [hc.keepsChildren p hptop hpbottom, if_pos ⟨rfl, rfl⟩]
    · exact ⟨top, next, hc.bottomParent, .inr (.inl rfl), by rw [hc.topChildren, if_pos rfl]⟩
    · obtain ⟨hmtop, hmbottom⟩ := hc.other hm hmn
      obtain ⟨r, a, hparent, hr, hrm⟩ := h.up m hm hm0
      rw [hc.keepsParent m hm hmtop hmbottom, hparent]
      by_cases hrn : r = n
      · subst hrn
        exact ⟨bottom, a, if_pos rfl, .inr (.inr rfl), by rw [hc.bottomChildren, hrm]⟩
      · obtain ⟨hrtop, hrbottom⟩ := hc.other hr hrn
        refine ⟨r, a, if_neg (by simpa using hrn), .inl hr, ?_⟩
        rw [hc.keepsChildren r hrtop hrbottom, if_neg, hrm]
        rintro ⟨rfl, rfl⟩
        exact hmn (Option.some.inj (hrm.symm.trans hget))
  · intro m hm
    rcases hc.live_iff.mp hm with rfl | rfl | ⟨hm, hmn⟩
    · rw [hc.topSegment]
      exact hsegment.1
    · rw [hc.bottomSegment]
      exact hsegment.2.1
    · obtain ⟨hmtop, hmbottom⟩ := hc.other hm hmn
      rw [hc.keepsSegment m hmtop hmbottom]
      exact h.nodup m hm
  · -- an id of a half was an id of `n`
    have hwas : ∀ m x, m = top ∨ m = bottom ∨ live m ∧ m ≠ n → x ∈ (nodes' m).segment →
        m = top ∧ x ∈ first :: upper ∨ m = bottom ∧ x ∈ next :: lower ∨
          (live m ∧ m ≠ n ∧ x ∈ (nodes m).segment) := by
      rintro m x (rfl | rfl | ⟨hm, hmn⟩) hx
      · exact .inl ⟨rfl, hc.topSegment ▸ hx⟩
      · exact .inr (.inl ⟨rfl, hc.bottomSegment ▸ hx⟩)
      · obtain ⟨hmtop, hmbottom⟩ := hc.other hm hmn
        exact .inr (.inr ⟨hm, hmn, hc.keepsSegment m hmtop hmbottom ▸ hx⟩)
    have hapart : ∀ m x, live m → m ≠ n → x ∈ (nodes m).segment →
        x ∉ first :: upper ∧ x ∉ next :: lower := by
      intro m x hm hmn hx
      have hnot : x ∉ (nodes n).segment := fun hxn => hmn (h.once m n x hm hn hx hxn)
      rw [hc.segment, List.mem_append, not_or] at hnot
      exact hnot
    have hsplit : ∀ x ∈ first :: upper, x ∉ next :: lower :=
      fun x hx hx' => hsegment.2.2 x hx x hx' rfl
    intro m r x hm hr hxm hxr
    rcases hwas m x (hc.live_iff.mp hm) hxm with ⟨rfl, hx⟩ | ⟨rfl, hx⟩ | ⟨hml, hmn, hx⟩ <;>
      rcases hwas r x (hc.live_iff.mp hr) hxr with ⟨rfl, hy⟩ | ⟨rfl, hy⟩ | ⟨hrl, hrn, hy⟩
    · rfl
    · exact absurd hy (hsplit x hx)
    · exact absurd hx (hapart r x hrl hrn hy).1
    · exact absurd hx (hsplit x hy)
    · rfl
    · exact absurd hx (hapart r x hrl hrn hy).2
    · exact absurd hy (hapart m x hml hmn hx).1
    · exact absurd hy (hapart m x hml hmn hx).2
    · exact h.once m r x hml hrl hx hy
  · intro x q
    rw [h.edges]
    have hwhole : chainEdges (aboveOf nodes n) (nodes n).segment =
        chainEdges (aboveOf nodes' top) (nodes' top).segment ++
          chainEdges (aboveOf nodes' bottom) (nodes' bottom).segment := by
      rw [hc.segment, chainEdges_append, hc.aboveOf_top h hn, hc.aboveOf_bottom, hc.topSegment,
        hc.bottomSegment]
    constructor
    · rintro ⟨m, hm, he⟩
      by_cases hmn : m = n
      · subst hmn
        rw [hwhole, List.mem_append] at he
        rcases he with he | he
        · exact ⟨top, .inr (.inl rfl), he⟩
        · exact ⟨bottom, .inr (.inr rfl), he⟩
      · obtain ⟨hmtop, hmbottom⟩ := hc.other hm hmn
        refine ⟨m, .inl hm, ?_⟩
        rwa [hc.aboveOf_other h hm hmn, hc.keepsSegment m hmtop hmbottom]
    · rintro ⟨m, hm, he⟩
      rcases hc.live_iff.mp hm with rfl | rfl | ⟨hm, hmn⟩
      · exact ⟨n, hn, by rw [hwhole]; exact List.mem_append_left _ he⟩
      · exact ⟨n, hn, by rw [hwhole]; exact List.mem_append_right _ he⟩
      · obtain ⟨hmtop, hmbottom⟩ := hc.other hm hmn
        rw [hc.aboveOf_other h hm hmn, hc.keepsSegment m hmtop hmbottom] at he
        exact ⟨m, hm, he⟩

/-! ## Hanging a chain below a node -/

/-- A new node `c` of segment `id :: rest` below `p`. -/
structure Hang (live : NodeId → Prop) (nodes nodes' : NodeId → RadixTreeNode B) (p c : NodeId)
    (id : B) (rest : List B) : Prop where
  segment : (nodes' c).segment = id :: rest
  parent : (nodes' c).parent = some p
  children : ∀ a, (nodes' c).children.get? a = none
  keepsSegment : ∀ m, m ≠ c → (nodes' m).segment = (nodes m).segment
  keepsParent : ∀ m, m ≠ c → (nodes' m).parent = (nodes m).parent
  keepsChildren : ∀ m, m ≠ c → ∀ a, (nodes' m).children.get? a =
    if m = p ∧ a = id then some c else (nodes m).children.get? a
  fresh : ¬ live c

/-- **A chain of new ids below a node** is recorded below the node's last id. -/
theorem hang (h : Shape nodes live par) (hp : live p) (hh : Hang live nodes nodes' p c id rest)
    (hnodup : (id :: rest).Nodup) (hnew : ∀ x ∈ id :: rest, ¬ par.Present x) :
    Shape nodes' (fun m => live m ∨ m = c)
      (par.addChain (nodes p).segment.getLast? (id :: rest)) := by
  have hne : ∀ m, live m → m ≠ c := fun m hm he => hh.fresh (he ▸ hm)
  have habove : ∀ m, live m → aboveOf nodes' m = aboveOf nodes m := by
    intro m hm
    unfold aboveOf
    rw [hh.keepsParent m (hne m hm)]
    by_cases hm0 : m = 0
    · rw [hm0, h.rootParent]
      rfl
    · obtain ⟨r, a, hr, hrlive, _⟩ := h.up m hm hm0
      rw [hr, Option.bind_some, Option.bind_some, hh.keepsSegment r (hne r hrlive)]
  have haboveNew : aboveOf nodes' c = (nodes p).segment.getLast? := by
    unfold aboveOf
    rw [hh.parent, Option.bind_some, hh.keepsSegment p (hne p hp)]
  -- the new ids are in no segment
  have hapart : ∀ m x, live m → x ∈ (nodes m).segment → x ∉ id :: rest :=
    fun m x hm hx hmem => hnew x hmem (h.present_iff.mpr ⟨m, hm, hx⟩)
  refine ⟨.inl h.rootLive, ?_, ?_, ?_, ?_, ?_, ?_, ?_, ?_⟩
  · rw [hh.keepsSegment 0 (hne 0 h.rootLive), h.rootSegment]
  · rw [hh.keepsParent 0 (hne 0 h.rootLive), h.rootParent]
  · rintro r a d (hr | rfl) hrd
    · rw [hh.keepsChildren r (hne r hr)] at hrd
      split at hrd
      · rename_i hra
        obtain ⟨rfl, rfl⟩ := hra
        cases hrd
        rw [hh.segment]
        exact ⟨.inr rfl, hh.parent, rfl⟩
      · obtain ⟨hlive, hparent, hhead⟩ := h.down r a d hr hrd
        rw [hh.keepsParent d (hne d hlive), hh.keepsSegment d (hne d hlive)]
        exact ⟨.inl hlive, hparent, hhead⟩
    · rw [hh.children] at hrd
      cases hrd
  · rintro m (hm | rfl) hm0
    · obtain ⟨r, a, hparent, hr, hrm⟩ := h.up m hm hm0
      refine ⟨r, a, (hh.keepsParent m (hne m hm)).trans hparent, .inl hr, ?_⟩
      rw [hh.keepsChildren r (hne r hr), if_neg, hrm]
      rintro ⟨rfl, rfl⟩
      obtain ⟨hlive, _, hhead⟩ := h.down r a m hr hrm
      exact hapart m a hlive (List.mem_of_head? hhead) List.mem_cons_self
    · refine ⟨p, id, hh.parent, .inl hp, ?_⟩
      rw [hh.keepsChildren p (hne p hp), if_pos ⟨rfl, rfl⟩]
  · rintro m (hm | rfl)
    · rw [hh.keepsSegment m (hne m hm)]
      exact h.nodup m hm
    · rw [hh.segment]
      exact hnodup
  · rintro m r x (hm | rfl) (hr | rfl) hxm hxr
    · rw [hh.keepsSegment m (hne m hm)] at hxm
      rw [hh.keepsSegment r (hne r hr)] at hxr
      exact h.once m r x hm hr hxm hxr
    · rw [hh.keepsSegment m (hne m hm)] at hxm
      rw [hh.segment] at hxr
      exact absurd hxr (hapart m x hm hxm)
    · rw [hh.keepsSegment r (hne r hr)] at hxr
      rw [hh.segment] at hxm
      exact absurd hxm (hapart r x hr hxr)
    · rfl
  · intro x q
    rw [get?_addChain hnodup, h.edges]
    constructor
    · rintro (he | ⟨_, m, hm, he⟩)
      · exact ⟨c, .inr rfl, by rwa [haboveNew, hh.segment]⟩
      · exact ⟨m, .inl hm, by rwa [habove m hm, hh.keepsSegment m (hne m hm)]⟩
    · rintro ⟨m, hm | rfl, he⟩
      · rw [habove m hm, hh.keepsSegment m (hne m hm)] at he
        have hx : x ∈ (nodes m).segment := mem_of_edge he
        exact .inr ⟨hapart m x hm hx, m, hm, he⟩
      · rw [haboveNew, hh.segment] at he
        exact .inl he
  · refine h.rooted.addChain (fun a ha => ?_) hnodup hnew
    exact h.present_iff.mpr ⟨p, hp, List.mem_of_getLast? ha⟩

/-! ## Taking an id out -/

/-- The last id of a childless node is no parent. -/
theorem no_child_of_last (h : Shape nodes live par) (hn : live n)
    (hlast : (nodes n).segment.getLast? = some x) (hleaf : ∀ a, (nodes n).children.get? a = none) :
    ∀ y, par.get? y ≠ some (some x) := by
  intro y hy
  obtain ⟨c, hc⟩ := (h.child_iff_key hn hlast).mp hy
  rw [hleaf] at hc
  cases hc

/-- **A node of one id without children is taken out.** -/
theorem drop (h : Shape nodes live par) (hn : live n) (hseg : (nodes n).segment = [x])
    (hleaf : ∀ a, (nodes n).children.get? a = none) (hparent : (nodes n).parent = some p)
    (hsegment : ∀ m, (nodes' m).segment = (nodes m).segment)
    (hkept : ∀ m, (nodes' m).parent = (nodes m).parent)
    (hchildren : ∀ m a, (nodes' m).children.get? a =
      if m = p ∧ a = x then none else (nodes m).children.get? a) :
    Shape nodes' (fun m => live m ∧ m ≠ n) (par.pop x) := by
  have hn0 : n ≠ 0 := h.ne_root_of_mem (x := x) (by simp [hseg])
  obtain ⟨p', a', seg', hp', hp, hseg', hget⟩ := h.entry hn hn0
  obtain rfl : p = p' := Option.some.inj (hparent.symm.trans hp')
  obtain rfl : x = a' := by
    rw [hseg] at hseg'
    exact (List.cons.inj hseg').1
  have habove : ∀ m, aboveOf nodes' m = aboveOf nodes m := by
    intro m
    unfold aboveOf
    rw [hkept]
    congr 1
    funext r
    exact congrArg _ (hsegment r)
  refine ⟨⟨h.rootLive, hn0.symm⟩, ?_, ?_, ?_, ?_, ?_, ?_, ?_, ?_⟩
  · rw [hsegment, h.rootSegment]
  · rw [hkept, h.rootParent]
  · rintro r a c ⟨hr, hrn⟩ hrc
    rw [hchildren] at hrc
    split at hrc
    · cases hrc
    · rename_i hra
      obtain ⟨hlive, hcparent, hhead⟩ := h.down r a c hr hrc
      rw [hkept, hsegment]
      refine ⟨⟨hlive, ?_⟩, hcparent, hhead⟩
      rintro rfl
      obtain rfl : r = p := Option.some.inj (hcparent.symm.trans hparent)
      exact hra ⟨rfl, h.children_inj hr hrc hget⟩
  · rintro m ⟨hm, hmn⟩ hm0
    obtain ⟨r, a, hmparent, hr, hrm⟩ := h.up m hm hm0
    refine ⟨r, a, (hkept m).trans hmparent, ⟨hr, ?_⟩, ?_⟩
    · rintro rfl
      rw [hleaf] at hrm
      cases hrm
    · rw [hchildren, if_neg, hrm]
      rintro ⟨rfl, rfl⟩
      exact hmn (Option.some.inj (hrm.symm.trans hget))
  · rintro m ⟨hm, _⟩
    rw [hsegment]
    exact h.nodup m hm
  · rintro m r y ⟨hm, _⟩ ⟨hr, _⟩ hym hyr
    rw [hsegment] at hym hyr
    exact h.once m r y hm hr hym hyr
  · intro y q
    rw [Dict.get?_pop]
    split
    · rename_i hy
      subst hy
      constructor
      · intro hnone
        cases hnone
      · rintro ⟨m, ⟨hm, hmn⟩, he⟩
        rw [habove, hsegment] at he
        have hy : y ∈ (nodes m).segment := mem_of_edge he
        exact absurd (h.once m n y hm hn hy (by simp [hseg])) hmn
    · rename_i hy
      rw [h.edges]
      constructor
      · rintro ⟨m, hm, he⟩
        refine ⟨m, ⟨hm, ?_⟩, by rwa [habove, hsegment]⟩
        rintro rfl
        rw [hseg] at he
        simp only [chainEdges, List.mem_singleton, Prod.mk.injEq] at he
        exact hy he.1
      · rintro ⟨m, ⟨hm, _⟩, he⟩
        rw [habove, hsegment] at he
        exact ⟨m, hm, he⟩
  · exact h.rooted.pop (h.no_child_of_last hn (by simp [hseg]) hleaf)

/-- **A segment of a childless node loses its last id.** -/
theorem trim (h : Shape nodes live par) (hn : live n) (hseg : (nodes n).segment = l ++ [x])
    (hl : l ≠ []) (hleaf : ∀ a, (nodes n).children.get? a = none)
    (hsegment : ∀ m, (nodes' m).segment = if m = n then l else (nodes m).segment)
    (hkept : ∀ m, (nodes' m).parent = (nodes m).parent)
    (hchildren : ∀ m a, (nodes' m).children.get? a = (nodes m).children.get? a) :
    Shape nodes' live (par.pop x) := by
  have hn0 : n ≠ 0 := h.ne_root_of_mem (x := x) (by simp [hseg])
  have habove : ∀ m, live m → aboveOf nodes' m = aboveOf nodes m := by
    intro m hm
    unfold aboveOf
    rw [hkept]
    by_cases hm0 : m = 0
    · rw [hm0, h.rootParent]
      rfl
    · obtain ⟨r, a, hr, _, hrm⟩ := h.up m hm hm0
      have hrn : r ≠ n := by
        rintro rfl
        rw [hleaf] at hrm
        cases hrm
      rw [hr, Option.bind_some, Option.bind_some, hsegment, if_neg hrn]
  have hsub : ∀ m y, y ∈ (nodes' m).segment → y ∈ (nodes m).segment := by
    intro m y hy
    rw [hsegment] at hy
    split at hy
    · rename_i hm
      rw [hm, hseg]
      exact List.mem_append_left _ hy
    · exact hy
  have hnodup := h.nodup n hn
  rw [hseg, List.nodup_append] at hnodup
  refine ⟨h.rootLive, ?_, ?_, ?_, ?_, ?_, ?_, ?_, ?_⟩
  · rw [hsegment, if_neg hn0.symm, h.rootSegment]
  · rw [hkept, h.rootParent]
  · intro r a c hr hrc
    rw [hchildren] at hrc
    obtain ⟨hlive, hparent, hhead⟩ := h.down r a c hr hrc
    refine ⟨hlive, (hkept c).trans hparent, ?_⟩
    rw [hsegment]
    split
    · rename_i hc
      subst hc
      rw [hseg] at hhead
      cases l with
      | nil => exact absurd rfl hl
      | cons b l => exact hhead
    · exact hhead
  · intro m hm hm0
    obtain ⟨r, a, hparent, hr, hrm⟩ := h.up m hm hm0
    exact ⟨r, a, (hkept m).trans hparent, hr, (hchildren r a).trans hrm⟩
  · intro m hm
    rw [hsegment]
    split
    · exact hnodup.1
    · exact h.nodup m hm
  · intro m r y hm hr hym hyr
    exact h.once m r y hm hr (hsub m y hym) (hsub r y hyr)
  · intro y q
    have hedges : chainEdges (aboveOf nodes n) (nodes n).segment =
        chainEdges (aboveOf nodes n) l ++ [(x, lastId (aboveOf nodes n) l)] := by
      rw [hseg, chainEdges_append]
      rfl
    rw [Dict.get?_pop]
    split
    · rename_i hy
      subst hy
      constructor
      · intro hnone
        cases hnone
      · rintro ⟨m, hm, he⟩
        have hym : y ∈ (nodes' m).segment := mem_of_edge he
        obtain rfl := h.once m n y hm hn (hsub m y hym) (by simp [hseg])
        rw [hsegment, if_pos rfl] at hym
        exact absurd rfl (hnodup.2.2 y hym y (by simp))
    · rename_i hy
      rw [h.edges]
      refine exists_congr fun m => and_congr_right fun hm => ?_
      rw [habove m hm, hsegment]
      split
      · rename_i hmn
        subst hmn
        rw [hedges, List.mem_append, List.mem_singleton, Prod.mk.injEq]
        constructor
        · rintro (he | ⟨rfl, _⟩)
          · exact he
          · exact absurd rfl hy
        · exact Or.inl
      · exact Iff.rfl
  · exact h.rooted.pop (h.no_child_of_last hn (by simp [hseg]) hleaf)

end Shape

end SparseVllm
