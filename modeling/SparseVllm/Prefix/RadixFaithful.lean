import SparseVllm.Prefix.RadixUpdates

/-!
# The radix tree is a faithful compressed forest

Whatever was inserted, split and removed before, the answers of the backend are those of the plain
parent relation: where an id is, its path, its children and descendants, the leaves, and how far a
lookup matches.

## Results

* `Holds.path`, `Holds.children`, `Holds.subtree`, `Holds.lookup`: each query, in a heap that holds a
  parent relation; the fuel of its loop is enough.
* **`faithful_of_run`**: every heap that a run of calls leaves is faithful to the relation that the
  calls record.
-/

namespace SparseVllm

open SparseVllm.Lib RadixForest ParentRelation

namespace RadixHeap

variable {B : Type} [DecidableEq B] {s : RadixHeap B} {live : NodeId → Prop}
  {par : ParentRelation B} {n m p c : NodeId} {x y a : B} {l : List B} {i j : Nat}

/-! ## Paths -/

/-- The ids above a node are what the climb collects. -/
theorem climb_spec (h : Holds s live par) {fuel : Nat} (hn : live n) (hl : par.RootPath l)
    (hlast : lastId none l = aboveOf s.nodes n) (hfuel : l.length + 2 ≤ fuel) :
    ∃ above, s.climb fuel n = some above ∧ above.reverse.flatten = l := by
  have hnil : ∀ {k : List B}, lastId none k = none → k = [] := by
    intro k hk
    rwa [lastId_eq, Option.or_none, List.getLast?_eq_none_iff] at hk
  have hroot : ∀ {fuel : Nat}, 0 < fuel → s.climb fuel 0 = some [] := by
    intro fuel hpos
    obtain ⟨k, rfl⟩ := Nat.exists_eq_succ_of_ne_zero hpos.ne'
    unfold climb
    rw [h.shape.rootParent]
  induction fuel generalizing n l with
  | zero => omega
  | succ fuel ih =>
    by_cases hn0 : n = 0
    · subst hn0
      have : aboveOf s.nodes 0 = none := by
        unfold aboveOf
        rw [h.shape.rootParent]
        rfl
      rw [this] at hlast
      rw [hnil hlast]
      exact ⟨[], hroot (Nat.succ_pos fuel), rfl⟩
    · obtain ⟨p, _, _, hparent, hp, _, _⟩ := h.shape.entry hn hn0
      have habove : aboveOf s.nodes n = (s.nodes p).segment.getLast? := by
        unfold aboveOf
        rw [hparent, Option.bind_some]
      rw [habove] at hlast
      unfold climb
      rw [hparent]
      dsimp only
      by_cases hp0 : p = 0
      · subst hp0
        rw [h.shape.rootSegment] at hlast
        rw [hnil hlast, hroot (by omega), Option.map_some, if_pos h.shape.rootSegment]
        exact ⟨[], rfl, rfl⟩
      · have hne := h.shape.segment_ne_nil hp hp0
        have hend : lastId (aboveOf s.nodes p) (s.nodes p).segment =
            (s.nodes p).segment.getLast? := by
          rw [lastId_eq]
          cases hget : (s.nodes p).segment.getLast? with
          | none => exact absurd (List.getLast?_eq_none_iff.mp hget) hne
          | some z => rfl
        obtain ⟨k, rfl, hk⟩ := hl.split_chain (h.shape.chain hp) hne (hlast.trans hend.symm)
        have hpos := List.length_pos_of_ne_nil hne
        rw [List.length_append] at hfuel
        obtain ⟨above, hrun, hflat⟩ := ih hp hl.left hk (by omega)
        rw [hrun, Option.map_some, if_neg hne]
        refine ⟨_, rfl, ?_⟩
        rw [List.reverse_cons, List.flatten_append, hflat]
        simp

/-- The path to a node's first id, without it. -/
theorem Holds.exists_above (h : Holds s live par) (hn : live n) :
    ∃ l, par.RootPath l ∧ lastId none l = aboveOf s.nodes n := by
  by_cases hn0 : n = 0
  · refine ⟨[], chain_nil, ?_⟩
    unfold aboveOf
    rw [hn0, h.shape.rootParent]
    rfl
  · obtain ⟨_, a, tail, _, _, hseg, _⟩ := h.shape.entry hn hn0
    have ha : par.Present a := h.shape.present_iff.mpr ⟨n, hn, by simp [hseg]⟩
    obtain ⟨l, hl⟩ := h.shape.rooted a ha
    obtain ⟨hl, hlast⟩ := rootPath_concat.mp hl
    have hchain := h.shape.chain hn
    rw [hseg] at hchain
    rw [(chain_cons.mp hchain).1] at hlast
    exact ⟨l, hl, (Option.some.inj hlast).symm⟩

/-- **`path_to_block`** is the path of the parent relation. -/
theorem Holds.path (h : Holds s live par) (hx : par.Present x) :
    ∃ l, s.pathToBlock x = some (l ++ [x]) ∧ par.RootPath (l ++ [x]) := by
  obtain ⟨n, hn, hmem⟩ := h.shape.present_iff.mp hx
  obtain ⟨i, hi⟩ := List.mem_iff_getElem?.mp hmem
  obtain ⟨l, hl, hlast⟩ := h.exists_above hn
  have hchain := h.shape.chain hn
  have hupto : (s.nodes n).segment.take (i + 1) = (s.nodes n).segment.take i ++ [x] := by
    rw [List.take_add_one, hi]
    rfl
  rw [← List.take_append_drop (i + 1) (s.nodes n).segment] at hchain
  have hpath : par.RootPath (l ++ (s.nodes n).segment.take (i + 1)) :=
    chain_append.mpr ⟨hl, by rw [hlast]; exact (chain_append.mp hchain).1⟩
  -- the ids of a path are keys of the location map
  have hlength : l.length + 1 ≤ s.locations.keys.length := by
    have hsub : l ++ [x] ⊆ s.locations.keys := by
      intro z hz
      have hpresent : par.Present z := by
        refine Chain.present hpath ?_
        rw [hupto]
        rcases List.mem_append.mp hz with hz | hz
        · exact List.mem_append_left _ hz
        · exact List.mem_append_right _ (List.mem_append_right _ hz)
      by_contra hnot
      exact h.location_none.mp (AList.lookup_eq_none.mpr hnot) hpresent
    have hnodup : (l ++ [x]).Nodup := by
      refine hpath.nodup.sublist ?_
      rw [hupto]
      exact (List.Sublist.refl l).append (List.sublist_append_right _ _)
    have := (hnodup.subperm hsub).length_le
    simpa using this
  obtain ⟨above, hrun, hflat⟩ := climb_spec h hn hl hlast
    (show l.length + 2 ≤ s.locations.keys.length + 1 by omega)
  have hresult : s.pathToBlock x = some (l ++ (s.nodes n).segment.take (i + 1)) := by
    unfold pathToBlock
    rw [(h.locations x n i).mpr ⟨hn, hi⟩]
    dsimp only
    rw [hrun, Option.map_some, List.reverse_cons, List.flatten_append, hflat]
    simp
  rw [hupto, ← List.append_assoc] at hresult hpath
  exact ⟨_, hresult, hpath⟩

/-! ## Children -/

theorem Holds.nodup_children (h : Holds s live par) (hn : live n) :
    (s.nodes n).children.values.Nodup :=
  Dict.nodup_values fun _ _ _ ha hb => h.shape.children_inj hn ha hb

/-- **`child_block_ids`** lists the children, each once, and **`child_count`** counts them. -/
theorem Holds.children (h : Holds s live par) (hx : par.Present x) :
    ∃ l, s.childBlockIds x = some l ∧ s.childCount x = some l.length ∧ l.Nodup ∧
      ∀ y, y ∈ l ↔ par.get? y = some (some x) := by
  obtain ⟨n, hn, hmem⟩ := h.shape.present_iff.mp hx
  obtain ⟨i, hi⟩ := List.mem_iff_getElem?.mp hmem
  have hloc := (h.locations x n i).mpr ⟨hn, hi⟩
  unfold childBlockIds childCount
  rw [hloc]
  dsimp only
  rcases at_index hi with ⟨hlength, hlast⟩ | ⟨upper, next, lower, hseg, hupper⟩
  · have hdrop : (s.nodes n).segment.drop (i + 1) = [] :=
      List.drop_eq_nil_of_le (by omega)
    have hhead : ∀ v ∈ (s.nodes n).children.values,
        ∃ b, (s.nodes n).children.get? b = some v ∧ (s.nodes v).segment.head? = some b := by
      intro v hv
      obtain ⟨b, hb⟩ := Dict.mem_values.mp hv
      exact ⟨b, hb, (h.shape.down n b v hn hb).2.2⟩
    rw [hdrop, if_neg (by omega)]
    refine ⟨_, rfl, ?_, ?_, ?_⟩
    · congr 1
      symm
      rw [List.filterMap_length_eq_length]
      intro v hv
      obtain ⟨b, _, hb⟩ := hhead v hv
      rw [hb]
      rfl
    · unfold List.Nodup
      rw [List.pairwise_filterMap]
      refine (h.nodup_children hn).imp_of_mem fun hv hw hvw b hb b' hb' hbb => ?_
      obtain ⟨k, hk, hkv⟩ := hhead _ hv
      obtain ⟨q, hq, hqw⟩ := hhead _ hw
      obtain rfl : k = b := Option.some.inj (hkv.symm.trans hb)
      obtain rfl : q = b' := Option.some.inj (hqw.symm.trans hb')
      rw [hbb, hq] at hk
      exact hvw (Option.some.inj hk).symm
    · intro y
      rw [List.mem_filterMap, h.shape.child_iff_key hn hlast]
      constructor
      · rintro ⟨v, hv, hy⟩
        obtain ⟨b, hb, hbv⟩ := hhead v hv
        obtain rfl : b = y := Option.some.inj (hbv.symm.trans hy)
        exact ⟨v, hb⟩
      · rintro ⟨v, hv⟩
        exact ⟨v, Dict.mem_values.mpr ⟨y, hv⟩, (h.shape.down n y v hn hv).2.2⟩
  · have hdrop : (s.nodes n).segment.drop (i + 1) = next :: lower := by
      rw [hseg, List.append_cons, List.drop_left' (by simp [hupper])]
    rw [hdrop, if_pos (by rw [hseg]; simp only [List.length_append, List.length_cons]; omega)]
    refine ⟨[next], rfl, rfl, List.nodup_singleton next, fun y => ?_⟩
    rw [List.mem_singleton, h.shape.child_iff_next hn hseg]

/-! ## Descendants -/

/-- `child` is recorded below `parent`. -/
def ChildOf (par : ParentRelation B) (parent child : B) : Prop :=
  par.get? child = some (some parent)

/-- `child` is a child node of `parent`. -/
def NodeBelow (s : RadixHeap B) (parent child : NodeId) : Prop :=
  child ∈ (s.nodes parent).children.values

theorem Holds.live_of_below (h : Holds s live par) (hn : live n)
    (hm : Relation.ReflTransGen (NodeBelow s) n m) : live m := by
  induction hm with
  | refl => exact hn
  | tail _ hc ih =>
    obtain ⟨a, ha⟩ := Dict.mem_values.mp hc
    exact (h.shape.down _ a _ ih ha).1

theorem Holds.treeBelow (h : Holds s live par) (hn : live n) :
    ∃ rank, TreeBelow (fun m => (s.nodes m).children.values) n rank := by
  obtain ⟨rank, hrank⟩ := h.shape.exists_rank
  refine ⟨rank, fun m hm => h.nodup_children (h.live_of_below hn hm), ?_, ?_⟩
  · intro a b c ha hb hac hbc
    obtain ⟨_, hk⟩ := Dict.mem_values.mp hac
    obtain ⟨_, hq⟩ := Dict.mem_values.mp hbc
    have hpa := (h.shape.down a _ c (h.live_of_below hn ha) hk).2.1
    have hpb := (h.shape.down b _ c (h.live_of_below hn hb) hq).2.1
    exact Option.some.inj (hpa.symm.trans hpb)
  · intro a c ha hac
    obtain ⟨k, hk⟩ := Dict.mem_values.mp hac
    exact hrank a k c (h.live_of_below hn ha) hk

/-- Down a segment every id descends from the ones before it. -/
theorem Holds.descends_segment (h : Holds s live par) (hn : live n)
    (hx : (s.nodes n).segment[i]? = some x) (hy : (s.nodes n).segment[j]? = some y) (hij : i ≤ j) :
    Relation.ReflTransGen (ChildOf par) x y := by
  induction j, hij using Nat.le_induction generalizing y with
  | base =>
    obtain rfl := Option.some.inj (hx.symm.trans hy)
    exact .refl
  | succ j hij ih =>
    obtain ⟨hj, _⟩ := List.getElem?_eq_some_iff.mp hy
    have hz : (s.nodes n).segment[j]? = some (s.nodes n).segment[j] :=
      List.getElem?_eq_getElem (by omega)
    refine (ih hz).tail ?_
    rcases at_index hz with ⟨hlength, _⟩ | ⟨upper, next, lower, hseg, hupper⟩
    · omega
    · have hnext : (s.nodes n).segment[j + 1]? = some next := by
        rw [hseg, List.append_cons, List.getElem?_append_right (by simp [hupper])]
        simp [hupper]
      obtain rfl : next = y := Option.some.inj (hnext.symm.trans hy)
      exact (h.shape.child_iff_next hn hseg).mpr rfl

/-- Every id of a node below descends from the ids of the segment. -/
theorem Holds.descends_below (h : Holds s live par) (hn : live n)
    (hx : (s.nodes n).segment[i]? = some x) (hm : Relation.TransGen (NodeBelow s) n m)
    (hy : y ∈ (s.nodes m).segment) : Relation.ReflTransGen (ChildOf par) x y := by
  -- into a child node: from the last id of the segment to the child's first, then down
  have hinto : ∀ {p c z}, live p → NodeBelow s p c →
      (∀ w ∈ (s.nodes p).segment.getLast?, Relation.ReflTransGen (ChildOf par) x w) →
      (s.nodes p).segment ≠ [] → z ∈ (s.nodes c).segment →
      Relation.ReflTransGen (ChildOf par) x z := by
    intro p c z hp hc hlast hne hz
    obtain ⟨b, hb⟩ := Dict.mem_values.mp hc
    obtain ⟨hclive, _, hhead⟩ := h.shape.down p b c hp hb
    obtain ⟨w, hw⟩ : ∃ w, (s.nodes p).segment.getLast? = some w := by
      cases hget : (s.nodes p).segment.getLast? with
      | none => exact absurd (List.getLast?_eq_none_iff.mp hget) hne
      | some w => exact ⟨w, rfl⟩
    have hwb : ChildOf par w b := (h.shape.child_iff_key hp hw).mpr ⟨c, hb⟩
    obtain ⟨k, hk⟩ := List.mem_iff_getElem?.mp hz
    rw [List.head?_eq_getElem?] at hhead
    exact ((hlast w hw).tail hwb).trans (h.descends_segment hclive hhead hk (Nat.zero_le k))
  induction hm generalizing y with
  | single hc =>
    refine hinto hn hc (fun w hw => ?_) (List.ne_nil_of_mem (List.mem_of_getElem? hx)) hy
    rw [List.getLast?_eq_getElem?] at hw
    obtain ⟨hi, _⟩ := List.getElem?_eq_some_iff.mp hx
    exact h.descends_segment hn hx hw (by omega)
  | @tail p c hp hc ih =>
    have hlive := h.live_of_below hn hp.to_reflTransGen
    have hne : (s.nodes p).segment ≠ [] := by
      refine h.shape.segment_ne_nil hlive ?_
      obtain ⟨q, _, hq⟩ := (Relation.TransGen.tail'_iff).mp hp
      obtain ⟨k, hk⟩ := Dict.mem_values.mp hq
      rename_i hqn
      exact h.shape.child_ne_root (h.live_of_below hn hqn) hk
    exact hinto hlive hc (fun w hw => ih (List.mem_of_getLast? hw)) hne hy

/-- The descendants of an id are in its node from its index on, or in a node below. -/
theorem Holds.descendant_place (h : Holds s live par) (hn : live n)
    (hx : (s.nodes n).segment[i]? = some x) (hy : Relation.ReflTransGen (ChildOf par) x y) :
    (∃ j, i ≤ j ∧ (s.nodes n).segment[j]? = some y) ∨
      ∃ m, Relation.TransGen (NodeBelow s) n m ∧ y ∈ (s.nodes m).segment := by
  -- the child of an id is next to it, or heads a child node
  have hnext : ∀ {p j z w}, live p → (s.nodes p).segment[j]? = some z → ChildOf par z w →
      (s.nodes p).segment[j + 1]? = some w ∨ ∃ c, NodeBelow s p c ∧ w ∈ (s.nodes c).segment := by
    intro p j z w hp hz hw
    rcases at_index hz with ⟨_, hlast⟩ | ⟨upper, next, lower, hseg, hupper⟩
    · obtain ⟨c, hc⟩ := (h.shape.child_iff_key hp hlast).mp hw
      exact .inr ⟨c, Dict.mem_values.mpr ⟨w, hc⟩,
        List.mem_of_head? (h.shape.down p w c hp hc).2.2⟩
    · obtain rfl := (h.shape.child_iff_next hp hseg).mp hw
      left
      rw [hseg, List.append_cons, List.getElem?_append_right (by simp [hupper])]
      simp [hupper]
  induction hy with
  | refl => exact .inl ⟨i, le_rfl, hx⟩
  | tail _ hw ih =>
    rcases ih with ⟨j, hij, hz⟩ | ⟨m, hm, hz⟩
    · rcases hnext hn hz hw with hnext | ⟨c, hc, hmem⟩
      · exact .inl ⟨j + 1, by omega, hnext⟩
      · exact .inr ⟨c, .single hc, hmem⟩
    · obtain ⟨j, hj⟩ := List.mem_iff_getElem?.mp hz
      rcases hnext (h.live_of_below hn hm.to_reflTransGen) hj hw with hnext | ⟨c, hc, hmem⟩
      · exact .inr ⟨m, hm, List.mem_of_getElem? hnext⟩
      · exact .inr ⟨c, hm.tail hc, hmem⟩

/-- **`subtree_block_ids`** lists the id and its descendants, each once. -/
theorem Holds.subtree (h : Holds s live par) (hx : par.Present x) :
    ∃ l, s.subtreeBlockIds x = some l ∧ l.Nodup ∧
      ∀ y, y ∈ l ↔ Relation.ReflTransGen (ChildOf par) x y := by
  obtain ⟨n, hn, hmem⟩ := h.shape.present_iff.mp hx
  obtain ⟨i, hi⟩ := List.mem_iff_getElem?.mp hmem
  obtain ⟨rank, htree⟩ := h.treeBelow hn
  have hlive : ∀ m, Relation.TransGen (NodeBelow s) n m → live m := fun m hm =>
    h.live_of_below hn hm.to_reflTransGen
  have hallocated : ∀ m, Relation.TransGen (NodeBelow s) n m → m ∈ Finset.range s.allocated :=
    fun m hm => Finset.mem_range.mpr (h.allocated m (hlive m hm))
  obtain ⟨visited, hrun, hnodup, hvisited⟩ := walk_tree htree hallocated (Finset.card_range _).le
  refine ⟨(s.nodes n).segment.drop i ++ visited.flatMap fun m => (s.nodes m).segment, ?_, ?_,
    fun y => ?_⟩
  · unfold subtreeBlockIds
    rw [(h.locations x n i).mpr ⟨hn, hi⟩]
    dsimp only
    rw [hrun]
    rfl
  · rw [List.nodup_append, List.nodup_flatMap]
    refine ⟨(h.shape.nodup n hn).sublist (List.drop_sublist i _), ⟨?_, ?_⟩, ?_⟩
    · exact fun m hm => h.shape.nodup m (hlive m ((hvisited m).mp hm))
    · refine hnodup.imp_of_mem fun {a b} ha hb hab => ?_
      intro z hza hzb
      exact hab (h.shape.once a b z (hlive a ((hvisited a).mp ha)) (hlive b ((hvisited b).mp hb))
        hza hzb)
    · intro z hz w hw hzw
      subst hzw
      obtain ⟨m, hm, hzm⟩ := List.mem_flatMap.mp hw
      have hbelow := (hvisited m).mp hm
      obtain rfl := h.shape.once n m z hn (hlive m hbelow) (List.drop_subset i _ hz) hzm
      -- the node would be below itself
      have hirrefl : ∀ {b}, Relation.TransGen (NodeBelow s) n b → rank n < rank b := by
        intro b hb
        induction hb with
        | single hc => exact htree.rank n _ .refl hc
        | tail hb hc ih => exact ih.trans (htree.rank _ _ hb.to_reflTransGen hc)
      exact absurd (hirrefl hbelow) (lt_irrefl _)
  · rw [List.mem_append, List.mem_flatMap]
    constructor
    · rintro (hy | ⟨m, hm, hy⟩)
      · obtain ⟨j, hj⟩ := List.mem_iff_getElem?.mp hy
        rw [List.getElem?_drop] at hj
        exact h.descends_segment hn hi hj (Nat.le_add_right i j)
      · exact h.descends_below hn hi ((hvisited m).mp hm) hy
    · intro hy
      rcases h.descendant_place hn hi hy with ⟨j, hij, hj⟩ | ⟨m, hm, hy⟩
      · left
        refine List.mem_of_getElem? (i := j - i) ?_
        rw [List.getElem?_drop, show i + (j - i) = j by omega]
        exact hj
      · exact .inr ⟨m, (hvisited m).mpr hm, hy⟩

/-! ## Lookup -/

/-- The ids a segment matches are counted; a segment that ends first leaves the rest. -/
theorem lookupSegment_spec (segment ids : List B) (hit : RadixLookupResult B) :
    ∃ m lower rest, segment = m ++ lower ∧ ids = m ++ rest ∧
      (lookupSegment segment ids hit).1 =
        ⟨hit.hitBlockCount + m.length, m.getLast?.or hit.lastBlockId⟩ ∧
      (lower = [] ∧ (lookupSegment segment ids hit).2 = some rest ∨
        lower ≠ [] ∧ (lookupSegment segment ids hit).2 = none ∧
          ∀ a b, rest.head? = some a → lower.head? = some b → a ≠ b) := by
  induction segment generalizing ids hit with
  | nil => exact ⟨[], [], ids, rfl, rfl, by simp [lookupSegment], .inl ⟨rfl, rfl⟩⟩
  | cons z segment ih =>
    cases ids with
    | nil =>
      refine ⟨[], z :: segment, [], rfl, rfl, by simp [lookupSegment], .inr ⟨by simp, rfl, ?_⟩⟩
      intro a b ha
      cases ha
    | cons id ids =>
      by_cases hid : id = z
      · subst hid
        obtain ⟨m, lower, rest, rfl, rfl, hcount, hend⟩ :=
          ih ids ⟨hit.hitBlockCount + 1, some id⟩
        refine ⟨id :: m, lower, rest, rfl, rfl, ?_, ?_⟩
        · unfold lookupSegment
          rw [if_pos rfl, hcount, List.getLast?_cons]
          cases m.getLast? with
          | none => simp only [List.length_cons, Option.getD_none]; congr 1; omega
          | some w => simp only [List.length_cons, Option.getD_some]; congr 1; omega
        · unfold lookupSegment
          rw [if_pos rfl]
          exact hend
      · refine ⟨[], z :: segment, id :: ids, rfl, rfl, ?_, .inr ⟨by simp, ?_, ?_⟩⟩
        · unfold lookupSegment
          rw [if_neg hid]
          simp
        · unfold lookupSegment
          rw [if_neg hid]
        · intro a b ha hb hab
          rw [List.head?_cons, Option.some.injEq] at ha hb
          exact hid (ha.trans (hab.trans hb.symm))

/-- From a node that ends what is matched, the loop matches on and stops where no id follows. -/
theorem lookupLoop_spec (h : Holds s live par) {fuel : Nat} (hn : live n) {done rest : List B}
    (hdone : par.RootPath done) (hend : lastId none done = (s.nodes n).segment.getLast?)
    (hfuel : rest.length < fuel) :
    ∃ m left, rest = m ++ left ∧ par.RootPath (done ++ m) ∧
      lookupLoop s fuel n rest ⟨done.length, done.getLast?⟩ =
        some ⟨(done ++ m).length, (done ++ m).getLast?⟩ ∧
      ∀ a, left.head? = some a → ¬ par.RootPath (done ++ m ++ [a]) := by
  induction fuel generalizing n done rest with
  | zero => exact absurd hfuel (Nat.not_lt_zero _)
  | succ fuel ih =>
    cases rest with
    | nil =>
      refine ⟨[], [], rfl, by rwa [List.append_nil], ?_, fun a ha => by cases ha⟩
      rw [List.append_nil]
      rfl
    | cons id rest =>
      unfold lookupLoop
      cases hget : (s.nodes n).children.get? id with
      | none =>
        refine ⟨[], id :: rest, rfl, by rwa [List.append_nil], by rw [List.append_nil], ?_⟩
        rintro a ha hpath
        obtain rfl : id = a := Option.some.inj ha
        rw [List.append_nil] at hpath
        have hid := (rootPath_concat.mp hpath).2
        rw [hend] at hid
        obtain ⟨c, hc⟩ := (h.shape.key_iff hn).mp hid
        rw [hget] at hc
        cases hc
      | some c =>
        obtain ⟨hc, hparent, hhead⟩ := h.shape.down n id c hn hget
        have habove : aboveOf s.nodes c = lastId none done := by
          unfold aboveOf
          rw [hparent, Option.bind_some, hend]
        have hchain := h.shape.chain hc
        obtain ⟨m, lower, left, hseg, hids, hcount, hstop⟩ :=
          lookupSegment_spec (s.nodes c).segment (id :: rest) ⟨done.length, done.getLast?⟩
        have hmne : m ≠ [] := by
          rintro rfl
          rcases hstop with ⟨rfl, _⟩ | ⟨_, _, hpart⟩
          · rw [hseg] at hhead
            cases hhead
          · rw [List.nil_append] at hids hseg
            rw [hseg] at hhead
            exact hpart id id (by rw [← hids]; rfl) hhead rfl
        rw [hseg, chain_append, habove] at hchain
        have hpath : par.RootPath (done ++ m) := chain_append.mpr ⟨hdone, hchain.1⟩
        have hhit : (lookupSegment (s.nodes c).segment (id :: rest)
            ⟨done.length, done.getLast?⟩).1 = ⟨(done ++ m).length, (done ++ m).getLast?⟩ := by
          rw [hcount, List.length_append, List.getLast?_append]
        obtain ⟨res, tail, hres⟩ : ∃ res tail, lookupSegment (s.nodes c).segment (id :: rest)
            ⟨done.length, done.getLast?⟩ = (res, tail) := ⟨_, _, rfl⟩
        rw [hres] at hhit hstop
        simp only [hres]
        subst hhit
        rcases hstop with ⟨rfl, rfl⟩ | ⟨hlower, rfl, hpart⟩
        · -- the whole segment matches: on from the child
          rw [List.append_nil] at hseg
          have hlast : lastId none (done ++ m) = (s.nodes c).segment.getLast? := by
            rw [lastId_append, hseg, lastId_eq]
            cases hget : m.getLast? with
            | none => exact absurd (List.getLast?_eq_none_iff.mp hget) hmne
            | some z => rfl
          have hshorter : left.length < fuel := by
            have hlength := congrArg List.length hids
            have := List.length_pos_of_ne_nil hmne
            rw [List.length_append] at hlength
            omega
          obtain ⟨m', left', rfl, hpath', hrun, hleft⟩ := ih hc hpath hlast hshorter
          refine ⟨m ++ m', left', by rw [hids, List.append_assoc], ?_, ?_, ?_⟩
          · rwa [← List.append_assoc]
          · rw [← List.append_assoc]
            exact hrun
          · rwa [← List.append_assoc]
        · refine ⟨m, left, hids, hpath, rfl, fun a ha hnext => ?_⟩
          -- after the last matched id the segment goes on with another id
          obtain ⟨init, z, rfl⟩ := (List.eq_nil_or_concat' m).resolve_left hmne
          obtain ⟨b, lower, rfl⟩ := List.exists_cons_of_ne_nil hlower
          have hza := (rootPath_concat.mp hnext).2
          rw [← List.append_assoc, lastId_concat] at hza
          rw [List.append_assoc, List.singleton_append] at hseg
          exact hpart a b ha rfl ((h.shape.child_iff_next hc hseg).mp hza)

/-- What `lookup` should answer: the longest part of the ids below the limit that is a path. -/
structure Longest (par : ParentRelation B) (ids : List B) (limit : Nat)
    (hit : RadixLookupResult B) : Prop where
  within : hit.hitBlockCount ≤ min limit ids.length
  path : par.RootPath (ids.take hit.hitBlockCount)
  last : hit.lastBlockId = (ids.take hit.hitBlockCount).getLast?
  longest : ∀ k ≤ min limit ids.length, par.RootPath (ids.take k) → k ≤ hit.hitBlockCount

/-- **`lookup`** finds the longest path. -/
theorem Holds.lookup (h : Holds s live par) (ids : List B) (maxBlocks : Int) :
    ∃ hit, s.lookup ids maxBlocks = some hit ∧ Longest par ids maxBlocks.toNat hit := by
  obtain ⟨limit, hlimit⟩ : ∃ limit, limit = min maxBlocks.toNat ids.length := ⟨_, rfl⟩
  have hlength : (ids.take limit).length = limit := by
    rw [List.length_take]
    omega
  have hstart : par.RootPath [] := chain_nil
  have hroot : lastId none [] = (s.nodes 0).segment.getLast? := by
    rw [h.shape.rootSegment]
    rfl
  have hfuel : (ids.take limit).length < limit + 1 := by
    rw [hlength]
    exact Nat.lt_succ_self limit
  obtain ⟨m, left, hsplit, hpath, hrun, hstop⟩ :=
    lookupLoop_spec h h.shape.rootLive hstart hroot hfuel
  rw [List.nil_append] at hpath hrun
  rw [List.nil_append] at hstop
  have hm : m.length ≤ limit := by
    have := congrArg List.length hsplit
    rw [hlength, List.length_append] at this
    omega
  have htake : ids.take m.length = m := by
    have := congrArg (List.take m.length) hsplit
    rwa [List.take_take, min_eq_left hm, List.take_left'] at this
    rfl
  refine ⟨⟨m.length, m.getLast?⟩, ?_, ?_⟩
  · unfold RadixHeap.lookup
    rw [← hlimit]
    exact hrun
  · refine ⟨hlimit ▸ hm, by rwa [htake], by rw [htake], fun k hk hkpath => ?_⟩
    by_contra hlt
    have hkm : m.length < k := by
      dsimp only at hlt
      omega
    rw [← hlimit] at hk
    -- a longer path would go on with the id where the loop stopped
    have hprefixed : ids.take k = m ++ left.take (k - m.length) := by
      have := congrArg (List.take k) hsplit
      rw [List.take_take, min_eq_left hk, List.take_append, List.take_of_length_le hkm.le] at this
      exact this
    cases left with
    | nil =>
      rw [List.append_nil] at hsplit
      rw [hsplit] at hlength
      omega
    | cons a left =>
      obtain ⟨d, hd⟩ : ∃ d, k - m.length = d + 1 := ⟨k - m.length - 1, by omega⟩
      rw [hprefixed, hd, List.take_succ_cons, List.append_cons] at hkpath
      exact hstop a rfl hkpath.left

/-! ## Leaves -/

/-- **The leaf set** is the ids without children. -/
theorem Holds.leaf_iff (h : Holds s live par) :
    x ∈ s.leafBlockIds ↔ par.Present x ∧ ∀ y, ¬ ChildOf par x y := by
  rw [h.leaves]
  constructor
  · rintro ⟨n, hn, hlast, hleaf⟩
    exact ⟨h.shape.present_iff.mpr ⟨n, hn, List.mem_of_getLast? hlast⟩,
      h.shape.no_child_of_last hn hlast (childless_iff.mp hleaf)⟩
  · rintro ⟨hx, hnone⟩
    obtain ⟨n, hn, hmem⟩ := h.shape.present_iff.mp hx
    obtain ⟨i, hi⟩ := List.mem_iff_getElem?.mp hmem
    rcases at_index hi with ⟨_, hlast⟩ | ⟨upper, next, lower, hseg, _⟩
    · refine ⟨n, hn, hlast, childless_iff.mpr fun a => ?_⟩
      cases hget : (s.nodes n).children.get? a with
      | none => rfl
      | some c => exact absurd ((h.shape.child_iff_key hn hlast).mpr ⟨c, hget⟩) (hnone a)
    · exact absurd ((h.shape.child_iff_next hn hseg).mpr rfl) (hnone next)

/-! ## Runs -/

/-- A node of the tree: the root, or one that child maps lead to. -/
def InTree (s : RadixHeap B) (n : NodeId) : Prop := Relation.ReflTransGen (NodeBelow s) 0 n

theorem Holds.inTree_iff (h : Holds s live par) : s.InTree n ↔ live n := by
  constructor
  · exact h.live_of_below h.shape.rootLive
  · obtain ⟨rank, hrank⟩ := h.shape.exists_rank
    intro hn
    induction hr : rank n using Nat.strong_induction_on generalizing n with
    | _ r ih =>
      by_cases hn0 : n = 0
      · rw [hn0]
        exact .refl
      · obtain ⟨p, a, _, hp, hget⟩ := h.shape.up n hn hn0
        have hlt := hrank p a n hp hget
        exact (ih _ (hr ▸ hlt) hp rfl).tail (Dict.mem_values.mpr ⟨a, hget⟩)

/-- The heap is the compressed forest of the parent relation, and answers as the relation does. -/
structure Faithful (s : RadixHeap B) (par : ParentRelation B) : Prop where
  located : ∀ x, s.locations.get? x = none ↔ ¬ par.Present x
  place : ∀ x n i, s.locations.get? x = some (n, i) ↔
    s.InTree n ∧ (s.nodes n).segment[i]? = some x
  keyed : ∀ n, s.InTree n → n ≠ 0 → ∃ p a rest, (s.nodes n).parent = some p ∧ s.InTree p ∧
    (s.nodes n).segment = a :: rest ∧ (s.nodes p).children.get? a = some n
  pointed : ∀ p a c, s.InTree p → (s.nodes p).children.get? a = some c →
    (s.nodes c).parent = some p ∧ (s.nodes c).segment.head? = some a
  leaf : ∀ x, x ∈ s.leafBlockIds ↔ par.Present x ∧ ∀ y, ¬ ChildOf par x y
  path : ∀ x, par.Present x → ∃ l, s.pathToBlock x = some (l ++ [x]) ∧ par.RootPath (l ++ [x])
  children : ∀ x, par.Present x → ∃ l, s.childBlockIds x = some l ∧
    s.childCount x = some l.length ∧ l.Nodup ∧ ∀ y, y ∈ l ↔ ChildOf par x y
  subtree : ∀ x, par.Present x → ∃ l, s.subtreeBlockIds x = some l ∧ l.Nodup ∧
    ∀ y, y ∈ l ↔ Relation.ReflTransGen (ChildOf par) x y
  lookup : ∀ ids maxBlocks, ∃ hit, s.lookup ids maxBlocks = some hit ∧
    Longest par ids maxBlocks.toNat hit

theorem Holds.faithful (h : Holds s live par) : Faithful s par where
  located := fun _ => h.location_none
  place := fun x n i => by
    rw [h.inTree_iff]
    exact h.locations x n i
  keyed := fun n hn hn0 => by
    obtain ⟨p, a, rest, hparent, hp, hseg, hget⟩ := h.shape.entry (h.inTree_iff.mp hn) hn0
    exact ⟨p, a, rest, hparent, h.inTree_iff.mpr hp, hseg, hget⟩
  pointed := fun p a c hp hget => (h.shape.down p a c (h.inTree_iff.mp hp) hget).2
  leaf := fun _ => h.leaf_iff
  path := fun _ hx => h.path hx
  children := fun _ hx => h.children hx
  subtree := fun _ hx => h.subtree hx
  lookup := h.lookup

/-- A call of the backend. -/
inductive TreeOp (B : Type) where
  | insertChild (parent : Option B) (block : B)
  | insert (path : List B)
  | removeBlock (block : B)

/-- The heap, and the parent relation that its calls record. -/
structure RecordedTree (B : Type) where
  heap : RadixHeap B
  recorded : ParentRelation B

/-- The call on the heap and what it records; a call that raises records nothing. -/
def TreeOp.exec : TreeOp B → RecordedTree B → RecordedTree B
  | .insertChild parent block, t =>
    ⟨stateAfter (RadixHeap.insertChild parent block) t.heap, t.recorded.insertChild parent block⟩
  | .insert path, t => ⟨stateAfter (RadixHeap.insert path) t.heap, t.recorded.insertPath path⟩
  | .removeBlock block, t =>
    ⟨stateAfter (RadixHeap.removeBlock block) t.heap, t.recorded.removeBlock block⟩

/-- A path is inserted under the parents that are recorded. -/
def Agrees (t : RecordedTree B) : TreeOp B → Prop
  | .insert path => t.recorded.Consistent path
  | _ => True

theorem holds_empty : Holds (empty : RadixHeap B) (fun n => n = 0) ∅ := by
  refine ⟨⟨rfl, rfl, rfl, ?_, ?_, ?_, ?_, ?_, ?_⟩, ?_, ?_, ?_⟩
  · rintro p a c rfl hget
    rw [show (empty : RadixHeap B).nodes 0 = {} from rfl, Dict.get?_empty] at hget
    cases hget
  · exact fun n hn hn0 => absurd hn hn0
  · exact fun _ _ => List.nodup_nil
  · rintro n m x rfl rfl _ _
    rfl
  · intro x q
    rw [Dict.get?_empty]
    constructor
    · intro hnone
      cases hnone
    · rintro ⟨n, _, he⟩
      cases he
  · rintro x ⟨q, hq⟩
    rw [Dict.get?_empty] at hq
    cases hq
  · rintro n rfl
    exact Nat.one_pos
  · intro x n i
    rw [show (empty : RadixHeap B).locations = ∅ from rfl, Dict.get?_empty]
    constructor
    · intro hnone
      cases hnone
    · rintro ⟨_, hi⟩
      cases hi
  · intro x
    constructor
    · intro hx
      cases hx
    · rintro ⟨n, _, hlast, _⟩
      cases hlast

/-- A call keeps the heap and the record together. -/
theorem holds_exec {t : RecordedTree B} {op : TreeOp B} (h : ∃ live, Holds t.heap live t.recorded)
    (hop : Agrees t op) : ∃ live, Holds (op.exec t).heap live (op.exec t).recorded := by
  obtain ⟨live, h⟩ := h
  cases op with
  | insertChild parent block =>
    simp only [TreeOp.exec]
    rcases insertChild_spec h parent block with ⟨u, live', hrun, hu⟩ | ⟨hrun, hsame⟩
    · rw [stateAfter_ok hrun]
      exact ⟨live', hu⟩
    · rw [stateAfter_error hrun]
      exact ⟨live, hsame.symm ▸ h⟩
  | insert path =>
    obtain ⟨u, live', hrun, hu⟩ := insert_spec h hop
    simp only [TreeOp.exec]
    rw [stateAfter_ok hrun]
    exact ⟨live', hu⟩
  | removeBlock block =>
    simp only [TreeOp.exec]
    rcases removeBlock_spec (x := block) h with ⟨u, live', hrun, hu⟩ | ⟨⟨e, _, hrun⟩, hsame⟩
    · rw [stateAfter_ok hrun]
      exact ⟨live', hu⟩
    · rw [stateAfter_error hrun]
      exact ⟨live, hsame.symm ▸ h⟩

/-- **The backend is a faithful compressed forest** after every run of calls whose inserted paths
agree with the parents already recorded. -/
theorem faithful_of_run {t : RecordedTree B}
    (run : Reachable TreeOp.exec Agrees ⟨empty, ∅⟩ t) : Faithful t.heap t.recorded := by
  obtain ⟨live, h⟩ := run.invariant
    (I := fun t : RecordedTree B => ∃ live, Holds t.heap live t.recorded) ⟨_, holds_empty⟩
    fun _ _ h hop => holds_exec h hop
  exact h.faithful

/-- A path of three, a branch that splits it in `insert`, a child that splits it in `insert_child`, and
a leaf that goes. -/
def branchingRun : List (TreeOp Nat) :=
  [.insert [1, 2, 3], .insert [1, 4], .insertChild (some 2) 5, .removeBlock 3]

theorem faithful_branchingRun :
    Faithful (runAll TreeOp.exec ⟨empty, ∅⟩ branchingRun).heap
      (runAll TreeOp.exec ⟨empty, ∅⟩ branchingRun).recorded := by
  have agrees : Along TreeOp.exec Agrees ⟨empty, ∅⟩ branchingRun := by
    refine ⟨⟨by decide, ?_⟩, ⟨by decide, ?_⟩, trivial, trivial, trivial⟩
    · decide +kernel
    · decide +kernel
  exact faithful_of_run (Reachable.init.runAll agrees)

example : (runAll TreeOp.exec ⟨empty, ∅⟩ branchingRun).heap.pathToBlock 5 = some [1, 2, 5] ∧
    (runAll TreeOp.exec ⟨empty, ∅⟩ branchingRun).heap.lookup [1, 2, 5, 6] 9 = some ⟨3, some 5⟩ := by
  decide +kernel

end RadixHeap

end SparseVllm
