import Mathlib.Data.Set.Card
import SparseVllm.Lib.Outcome
import SparseVllm.Prefix.RoutingMembership

/-!
# The routing membership stays balanced

An update changes the height of a subtree by at most one, and `_balance_routing_membership` makes an
AVL tree of two AVL trees whose heights differ by at most two (`balance_balanced`). With the order of
the ids (`Holds`) this makes the set an AVL set of the ids inserted and not removed since, after any
calls (`routingMembership_correct`).
-/

namespace SparseVllm

open SparseVllm.Lib

variable {B : Type}

/-! ## Heights -/

section Heights

variable {left right t : SearchTree B} {id : B}

/-- The stored height of an AVL tree is its height. -/
theorem routingMembershipHeight_eq (h : t.Balanced) : routingMembershipHeight t = t.height := by
  cases t with
  | empty => rfl
  | node left id right stored => exact h.1

/-- A node over two AVL trees of nearly one height. -/
theorem balanced_makeNode (hl : left.Balanced) (hr : right.Balanced)
    (hle : left.height ≤ right.height + 1) (hge : right.height ≤ left.height + 1) :
    (makeRoutingMembershipNode id left right).Balanced := by
  refine ⟨?_, hle, hge, hl, hr⟩
  rw [routingMembershipHeight_eq hl, routingMembershipHeight_eq hr]

theorem height_makeNode :
    (makeRoutingMembershipNode id left right).height = 1 + max left.height right.height := rfl

/-- What a rebalanced node is: an AVL tree about as high as its children. -/
structure Rebalanced (left right t : SearchTree B) : Prop where
  balanced : t.Balanced
  lower : max left.height right.height ≤ t.height
  upper : t.height ≤ max left.height right.height + 1
  level : left.height ≤ right.height + 1 → right.height ≤ left.height + 1 →
    t.height = max left.height right.height + 1

theorem balanceLeftHeavy_balanced (hl : left.Balanced) (hr : right.Balanced)
    (hheavy : left.height = right.height + 2)
    (h : balanceLeftHeavy id left right = .ok t) : Rebalanced left right t := by
  cases left with
  | empty => cases h
  | node inner leftId outer stored =>
    obtain ⟨-, hle, hge, hinner, houter⟩ := hl
    rw [SearchTree.height_node] at hheavy
    unfold balanceLeftHeavy at h
    dsimp only at h
    rw [routingMembershipHeight_eq hinner, routingMembershipHeight_eq houter] at h
    split at h
    · rename_i hdouble
      cases outer with
      | empty => cases h
      | node outerLeft outerId outerRight outerStored =>
        obtain ⟨-, hle', hge', hol, hor⟩ := houter
        rw [SearchTree.height_node] at hle hge hheavy hdouble
        cases h
        have hfirst : (makeRoutingMembershipNode leftId inner outerLeft).Balanced :=
          balanced_makeNode hinner hol (by omega) (by omega)
        have hsecond : (makeRoutingMembershipNode id outerRight right).Balanced :=
          balanced_makeNode hor hr (by omega) (by omega)
        refine ⟨balanced_makeNode hfirst hsecond ?_ ?_, ?_, ?_, fun hlevel => ?_⟩ <;>
          simp only [height_makeNode, SearchTree.height_node] at * <;> omega
    · cases h
      have hsecond : (makeRoutingMembershipNode id outer right).Balanced :=
        balanced_makeNode houter hr (by omega) (by omega)
      refine ⟨balanced_makeNode hinner hsecond ?_ ?_, ?_, ?_, fun hlevel => ?_⟩ <;>
        simp only [height_makeNode, SearchTree.height_node] at * <;> omega

theorem balanceRightHeavy_balanced (hl : left.Balanced) (hr : right.Balanced)
    (hheavy : right.height = left.height + 2)
    (h : balanceRightHeavy id left right = .ok t) : Rebalanced left right t := by
  cases right with
  | empty => cases h
  | node outer rightId inner stored =>
    obtain ⟨-, hle, hge, houter, hinner⟩ := hr
    rw [SearchTree.height_node] at hheavy
    unfold balanceRightHeavy at h
    dsimp only at h
    rw [routingMembershipHeight_eq hinner, routingMembershipHeight_eq houter] at h
    split at h
    · rename_i hdouble
      cases outer with
      | empty => cases h
      | node outerLeft outerId outerRight outerStored =>
        obtain ⟨-, hle', hge', hol, hor⟩ := houter
        rw [SearchTree.height_node] at hle hge hheavy hdouble
        cases h
        have hfirst : (makeRoutingMembershipNode id left outerLeft).Balanced :=
          balanced_makeNode hl hol (by omega) (by omega)
        have hsecond : (makeRoutingMembershipNode rightId outerRight inner).Balanced :=
          balanced_makeNode hor hinner (by omega) (by omega)
        refine ⟨balanced_makeNode hfirst hsecond ?_ ?_, ?_, ?_, fun hlevel => ?_⟩ <;>
          simp only [height_makeNode, SearchTree.height_node] at * <;> omega
    · cases h
      have hfirst : (makeRoutingMembershipNode id left outer).Balanced :=
        balanced_makeNode hl houter (by omega) (by omega)
      refine ⟨balanced_makeNode hfirst hinner ?_ ?_, ?_, ?_, fun hlevel => ?_⟩ <;>
        simp only [height_makeNode, SearchTree.height_node] at * <;> omega

/-- **Balancing** two AVL trees whose heights differ by at most two. -/
theorem balance_balanced (hl : left.Balanced) (hr : right.Balanced)
    (hle : left.height ≤ right.height + 2) (hge : right.height ≤ left.height + 2)
    (h : balanceRoutingMembership id left right = .ok t) : Rebalanced left right t := by
  unfold balanceRoutingMembership at h
  dsimp only at h
  rw [routingMembershipHeight_eq hl, routingMembershipHeight_eq hr] at h
  split at h
  · exact balanceLeftHeavy_balanced hl hr (by omega) h
  · split at h
    · exact balanceRightHeavy_balanced hl hr (by omega) h
    · cases h
      refine ⟨balanced_makeNode hl hr (by omega) (by omega), ?_, ?_, fun _ _ => ?_⟩ <;>
        rw [height_makeNode] <;> omega

end Heights

/-! ## Updates -/

section Changes

variable {t t' node left right left' right' : SearchTree B} {id : B} {stored : Nat}

/-- How an update goes on after the update of a subtree. -/
theorem rebalance_cases {changed answer : Bool}
    (h : (if changed = false then (.ok (node, false) : Except RoutingError (SearchTree B × Bool))
      else do
        let balanced ← balanceRoutingMembership id left right
        .ok (balanced, true)) = .ok (t', answer)) :
    t' = node ∨ balanceRoutingMembership id left right = .ok t' := by
  split at h
  · cases h
    exact Or.inl rfl
  · obtain ⟨balanced, hbalance, h⟩ := bind_eq_ok_iff.mp h
    cases h
    exact Or.inr hbalance

/-- An AVL tree, as high as the tree or one higher. -/
structure HeightGrown (t t' : SearchTree B) : Prop where
  balanced : t'.Balanced
  lower : t.height ≤ t'.height
  upper : t'.height ≤ t.height + 1

/-- An AVL tree, as high as the tree or one lower. -/
structure HeightShrunk (t t' : SearchTree B) : Prop where
  balanced : t'.Balanced
  lower : t.height ≤ t'.height + 1
  upper : t'.height ≤ t.height

theorem HeightGrown.of_left (hgrown : HeightGrown left left') (ht : (SearchTree.node left id right stored).Balanced)
    (h : balanceRoutingMembership id left' right = .ok t') :
    HeightGrown (.node left id right stored) t' := by
  obtain ⟨-, hle, hge, -, hr⟩ := ht
  obtain ⟨hl', hlower, hupper⟩ := hgrown
  obtain ⟨hbalanced, hlower', hupper', hlevel⟩ :=
    balance_balanced hl' hr (by omega) (by omega) h
  refine ⟨hbalanced, ?_, ?_⟩ <;> rw [SearchTree.height_node] <;> omega

theorem HeightGrown.of_right (hgrown : HeightGrown right right')
    (ht : (SearchTree.node left id right stored).Balanced)
    (h : balanceRoutingMembership id left right' = .ok t') :
    HeightGrown (.node left id right stored) t' := by
  obtain ⟨-, hle, hge, hl, -⟩ := ht
  obtain ⟨hr', hlower, hupper⟩ := hgrown
  obtain ⟨hbalanced, hlower', hupper', hlevel⟩ :=
    balance_balanced hl hr' (by omega) (by omega) h
  refine ⟨hbalanced, ?_, ?_⟩ <;> rw [SearchTree.height_node] <;> omega

theorem HeightShrunk.of_left (hshrunk : HeightShrunk left left')
    (ht : (SearchTree.node left id right stored).Balanced)
    (h : balanceRoutingMembership id left' right = .ok t') :
    HeightShrunk (.node left id right stored) t' := by
  obtain ⟨-, hle, hge, -, hr⟩ := ht
  obtain ⟨hl', hlower, hupper⟩ := hshrunk
  obtain ⟨hbalanced, hlower', hupper', hlevel⟩ :=
    balance_balanced hl' hr (by omega) (by omega) h
  refine ⟨hbalanced, ?_, ?_⟩ <;> rw [SearchTree.height_node] <;> omega

/-- The node may take another id, as its successor's. -/
theorem HeightShrunk.of_right (hshrunk : HeightShrunk right right') {id' : B}
    (ht : (SearchTree.node left id right stored).Balanced)
    (h : balanceRoutingMembership id' left right' = .ok t') :
    HeightShrunk (.node left id right stored) t' := by
  obtain ⟨-, hle, hge, hl, -⟩ := ht
  obtain ⟨hr', hlower, hupper⟩ := hshrunk
  obtain ⟨hbalanced, hlower', hupper', hlevel⟩ :=
    balance_balanced hl hr' (by omega) (by omega) h
  refine ⟨hbalanced, ?_, ?_⟩ <;> rw [SearchTree.height_node] <;> omega

end Changes

section Updates

variable [LinearOrder B] {t t' : SearchTree B} {blockId : B}

/-- **An insertion** keeps an AVL tree. -/
theorem insertRoutingMembership_grown {inserted : Bool} (ht : t.Balanced)
    (h : insertRoutingMembership blockId t = .ok (t', inserted)) : HeightGrown t t' := by
  induction t generalizing t' inserted with
  | empty =>
    cases h
    exact ⟨⟨rfl, by simp, by simp, trivial, trivial⟩, by simp, by simp⟩
  | node left id right stored ihl ihr =>
    have hsame : HeightGrown (.node left id right stored) (.node left id right stored) :=
      ⟨ht, le_refl _, Nat.le_succ _⟩
    have ⟨_, _, _, hl, hr⟩ := ht
    unfold insertRoutingMembership at h
    split at h
    · cases h
      exact hsame
    split at h
    · obtain ⟨⟨left', changed⟩, hinsert, h⟩ := bind_eq_ok_iff.mp h
      rcases rebalance_cases h with rfl | hbalance
      · exact hsame
      · exact (ihl hl hinsert).of_left ht hbalance
    · obtain ⟨⟨right', changed⟩, hinsert, h⟩ := bind_eq_ok_iff.mp h
      rcases rebalance_cases h with rfl | hbalance
      · exact hsame
      · exact (ihr hr hinsert).of_right ht hbalance

/-- **A removal** keeps an AVL tree. -/
theorem removeRoutingMembership_shrunk {removed : Bool} (ht : t.Balanced)
    (h : removeRoutingMembership blockId t = .ok (t', removed)) : HeightShrunk t t' := by
  induction t generalizing t' blockId removed with
  | empty =>
    cases h
    exact ⟨trivial, Nat.zero_le _, le_refl _⟩
  | node left id right stored ihl ihr =>
    have hsame : HeightShrunk (.node left id right stored) (.node left id right stored) :=
      ⟨ht, Nat.le_succ _, le_refl _⟩
    have ⟨_, hle, hge, hl, hr⟩ := ht
    unfold removeRoutingMembership at h
    split at h
    · obtain ⟨⟨left', changed⟩, hremove, h⟩ := bind_eq_ok_iff.mp h
      rcases rebalance_cases h with rfl | hbalance
      · exact hsame
      · exact (ihl hl hremove).of_left ht hbalance
    split at h
    · obtain ⟨⟨right', changed⟩, hremove, h⟩ := bind_eq_ok_iff.mp h
      rcases rebalance_cases h with rfl | hbalance
      · exact hsame
      · exact (ihr hr hremove).of_right ht hbalance
    · -- one child takes the place of the node, or its successor does
      split at h
      · cases h
        refine ⟨hr, ?_, ?_⟩ <;> simp only [SearchTree.height_node, SearchTree.height_empty] at * <;>
          omega
      · cases h
        refine ⟨hl, ?_, ?_⟩ <;> simp only [SearchTree.height_node, SearchTree.height_empty] at * <;>
          omega
      · obtain ⟨⟨right', changed⟩, hremove, h⟩ := bind_eq_ok_iff.mp h
        dsimp only at h
        split at h
        · cases h
        · obtain ⟨balanced, hbalance, h⟩ := bind_eq_ok_iff.mp h
          cases h
          exact (ihr hr hremove).of_right ht hbalance

theorem insertRoutingMembership_present (ht : t.Ordered) (hmem : blockId ∈ t.elems) :
    insertRoutingMembership blockId t = .ok (t, false) := by
  induction t with
  | empty => cases hmem
  | node left id right stored ihl ihr =>
    obtain ⟨hl, hr, -, -⟩ := SearchTree.ordered_node.mp ht
    unfold insertRoutingMembership
    rcases lt_trichotomy blockId id with hlt | rfl | hgt
    · rw [if_neg (ne_of_lt hlt), if_pos hlt, ihl hl ((ht.mem_left hlt).mp hmem)]
      rfl
    · exact if_pos rfl
    · rw [if_neg (ne_of_gt hgt), if_neg (lt_asymm hgt), ihr hr ((ht.mem_right hgt).mp hmem)]
      rfl

theorem removeRoutingMembership_absent (ht : t.Ordered) (hmem : blockId ∉ t.elems) :
    removeRoutingMembership blockId t = .ok (t, false) := by
  induction t with
  | empty => rfl
  | node left id right stored ihl ihr =>
    obtain ⟨hl, hr, -, -⟩ := SearchTree.ordered_node.mp ht
    unfold removeRoutingMembership
    rcases lt_trichotomy blockId id with hlt | rfl | hgt
    · rw [if_pos hlt, ihl hl fun hin => hmem ((ht.mem_left hlt).mpr hin)]
      rfl
    · exact absurd (List.mem_append_right _ List.mem_cons_self) hmem
    · rw [if_neg (lt_asymm hgt), if_pos hgt, ihr hr fun hin => hmem ((ht.mem_right hgt).mpr hin)]
      rfl

end Updates

/-! ## Runs -/

/-- A call of the set. -/
inductive RoutingCall (B : Type) where
  | insert (blockId : B)
  | remove (blockId : B)
  deriving DecidableEq

/-- The id was inserted by one of the calls and not removed since. -/
def InsertedSince (calls : List (RoutingCall B)) (blockId : B) : Prop :=
  ∃ before later, calls = before ++ .insert blockId :: later ∧ .remove blockId ∉ later

theorem not_insertedSince_nil (blockId : B) : ¬ InsertedSince [] blockId := by
  rintro ⟨before, later, heq, -⟩
  cases before <;> cases heq

/-- The last call decides about its id. -/
theorem insertedSince_append {calls : List (RoutingCall B)} {call : RoutingCall B} {blockId : B} :
    InsertedSince (calls ++ [call]) blockId ↔
      call = .insert blockId ∨ InsertedSince calls blockId ∧ call ≠ .remove blockId := by
  constructor
  · rintro ⟨before, later, heq, hlater⟩
    rcases List.eq_nil_or_concat' later with rfl | ⟨later, last, rfl⟩
    · obtain ⟨-, hlast⟩ := List.append_inj' heq rfl
      exact Or.inl (List.singleton_inj.mp hlast)
    · rw [← List.cons_append, ← List.append_assoc] at heq
      obtain ⟨hcalls, hlast⟩ := List.append_inj' heq rfl
      rw [List.mem_append, not_or] at hlater
      refine Or.inr ⟨⟨before, later, hcalls, hlater.1⟩, fun hremove => hlater.2 ?_⟩
      rw [← hlast, hremove]
      exact List.mem_singleton_self _
  · rintro (rfl | ⟨⟨before, later, rfl, hlater⟩, hkeep⟩)
    · exact ⟨calls, [], rfl, List.not_mem_nil⟩
    · refine ⟨before, later ++ [call], List.append_assoc .., fun hin => ?_⟩
      rcases List.mem_append.mp hin with hin | hin
      · exact hlater hin
      · exact hkeep (List.mem_singleton.mp hin).symm

namespace PrefixCacheRoutingMembership

variable [LinearOrder B] {m m' : PrefixCacheRoutingMembership B} {ids : B → Prop}

/-- `insert` or `remove`. -/
def call (m : PrefixCacheRoutingMembership B) :
    RoutingCall B → Except RoutingError (PrefixCacheRoutingMembership B)
  | .insert blockId => m.insert blockId
  | .remove blockId => m.remove blockId

/-- The set after a call. A call that raises returns no new set. -/
def after (m : PrefixCacheRoutingMembership B) (c : RoutingCall B) :
    PrefixCacheRoutingMembership B :=
  match m.call c with
  | .ok m' => m'
  | .error _ => m

theorem after_ok {c : RoutingCall B} (h : m.call c = .ok m') : m.after c = m' := by
  unfold after
  rw [h]

theorem after_error {c : RoutingCall B} {e : RoutingError} (h : m.call c = .error e) :
    m.after c = m := by
  unfold after
  rw [h]

/-- A correct AVL set of these ids. -/
structure IsAvlSet (m : PrefixCacheRoutingMembership B) (ids : B → Prop) : Prop where
  contains_iff : ∀ blockId, m.contains blockId = true ↔ ids blockId
  live : m.liveBlocks = Set.ncard {blockId | ids blockId}
  balanced : m.root.Balanced
  ordered : m.root.elems.Pairwise (· < ·)
  insert_raises : ∀ blockId, m.insert blockId = .error .alreadyContains ↔ ids blockId
  insert_returns : ∀ blockId, (∃ m', m.insert blockId = .ok m') ↔ ¬ ids blockId
  remove_raises : ∀ blockId, m.remove blockId = .error .missingRemoved ↔ ¬ ids blockId
  remove_returns : ∀ blockId, (∃ m', m.remove blockId = .ok m') ↔ ids blockId

theorem Holds.insert_present (h : m.Holds ids) {blockId : B} (hmem : ids blockId) :
    m.insert blockId = .error .alreadyContains := by
  unfold PrefixCacheRoutingMembership.insert
  rw [insertRoutingMembership_present h.ordered ((h.mem blockId).mpr hmem)]
  rfl

theorem Holds.remove_absent (h : m.Holds ids) {blockId : B} (hmem : ¬ ids blockId) :
    m.remove blockId = .error .missingRemoved := by
  unfold PrefixCacheRoutingMembership.remove
  rw [removeRoutingMembership_absent h.ordered (mt (h.mem blockId).mp hmem)]
  rfl

theorem Holds.ncard (h : m.Holds ids) :
    m.liveBlocks = Set.ncard {blockId | ids blockId} := by
  have hset : {blockId | ids blockId} = ↑(m.root.elems.toFinset) := by
    ext blockId
    rw [Set.mem_ofPred_eq, Finset.mem_coe, List.mem_toFinset, h.mem]
  rw [hset, Set.ncard_coe_finset, List.toFinset_card_of_nodup h.ordered.nodup, h.live]

theorem Holds.isAvlSet (h : m.Holds ids) (hbalanced : m.root.Balanced) : m.IsAvlSet ids where
  contains_iff _ := h.contains_iff
  live := h.ncard
  balanced := hbalanced
  ordered := h.ordered
  insert_raises blockId := by
    refine ⟨fun hraise => ?_, h.insert_present⟩
    by_contra hnew
    obtain ⟨m', hinsert, -⟩ := h.insert hnew
    rw [hraise] at hinsert
    cases hinsert
  insert_returns blockId := by
    refine ⟨?_, fun hnew => (h.insert hnew).imp fun _ hinsert => hinsert.1⟩
    rintro ⟨m', hinsert⟩ hmem
    rw [h.insert_present hmem] at hinsert
    cases hinsert
  remove_raises blockId := by
    refine ⟨fun hraise hmem => ?_, h.remove_absent⟩
    obtain ⟨m', hremove, -⟩ := h.remove hmem
    rw [hraise] at hremove
    cases hremove
  remove_returns blockId := by
    refine ⟨?_, fun hmem => (h.remove hmem).imp fun _ hremove => hremove.1⟩
    rintro ⟨m', hremove⟩
    by_contra hmem
    rw [h.remove_absent hmem] at hremove
    cases hremove

theorem call_balanced {c : RoutingCall B} (hm : m.root.Balanced) (h : m.call c = .ok m') :
    m'.root.Balanced := by
  cases c with
  | insert blockId =>
    obtain ⟨⟨root, inserted⟩, hinsert, h⟩ := bind_eq_ok_iff.mp h
    dsimp only at h
    split at h
    · cases h
    · cases h
      exact (insertRoutingMembership_grown hm hinsert).balanced
  | remove blockId =>
    obtain ⟨⟨root, removed⟩, hremove, h⟩ := bind_eq_ok_iff.mp h
    dsimp only at h
    split at h
    · cases h
    · cases h
      exact (removeRoutingMembership_shrunk hm hremove).balanced

theorem after_balanced (c : RoutingCall B) (hm : m.root.Balanced) : (m.after c).root.Balanced := by
  cases h : m.call c with
  | ok m' =>
    rw [after_ok h]
    exact call_balanced hm h
  | error e =>
    rw [after_error h]
    exact hm

/-- The ids after a call. -/
theorem Holds.after (h : m.Holds ids) (c : RoutingCall B) :
    (m.after c).Holds fun blockId =>
      c = .insert blockId ∨ ids blockId ∧ c ≠ .remove blockId := by
  cases c with
  | insert blockId =>
    by_cases hmem : ids blockId
    · have hcall : m.call (.insert blockId) = .error .alreadyContains := h.insert_present hmem
      rw [after_error hcall]
      refine h.congr fun id => ?_
      grind
    · obtain ⟨m', hinsert, hholds⟩ := h.insert hmem
      have hcall : m.call (.insert blockId) = .ok m' := hinsert
      rw [after_ok hcall]
      refine hholds.congr fun id => ?_
      grind
  | remove blockId =>
    by_cases hmem : ids blockId
    · obtain ⟨m', hremove, hholds⟩ := h.remove hmem
      have hcall : m.call (.remove blockId) = .ok m' := hremove
      rw [after_ok hcall]
      refine hholds.congr fun id => ?_
      grind
    · have hcall : m.call (.remove blockId) = .error .missingRemoved := h.remove_absent hmem
      rw [after_error hcall]
      refine h.congr fun id => ?_
      grind

/-- **The routing membership is a correct persistent AVL set**, after any calls. -/
theorem isAvlSet_of_calls (calls : List (RoutingCall B)) :
    (calls.foldl after {}).IsAvlSet (InsertedSince calls) := by
  suffices h : (calls.foldl after {}).Holds (InsertedSince calls) ∧
      (calls.foldl after {} : PrefixCacheRoutingMembership B).root.Balanced from
    h.1.isAvlSet h.2
  induction calls using List.reverseRecOn with
  | nil => exact ⟨holds_empty.congr fun id => (iff_false_intro (not_insertedSince_nil id)).symm,
      SearchTree.balanced_empty⟩
  | append_singleton calls c ih =>
    rw [List.foldl_append, List.foldl_cons, List.foldl_nil]
    exact ⟨(ih.1.after c).congr fun id => insertedSince_append.symm, after_balanced c ih.2⟩

end PrefixCacheRoutingMembership

end SparseVllm
