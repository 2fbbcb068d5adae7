import SparseVllm.Lib.SearchTree

/-!
# Routing membership (`_PrefixCacheRoutingMembership`, `engine/prefix_cache.py`)

The ids of the indexed blocks as a persistent AVL set: an update builds new nodes and leaves the
old set as it was, so a snapshot may keep it. `_PrefixCacheRoutingMembershipNode | None` is a
`SearchTree` of block ids.

The rotations raise where there is no pivot. `balance_spec` shows that balancing never gets there,
whatever heights the nodes store; `insert_spec` and `remove_spec` say what the set is afterwards.
-/

namespace SparseVllm

open SparseVllm.Lib

/-- What the routing membership and its snapshots raise, one constructor for each `raise`. -/
inductive RoutingError where
  | rotateLeft
  | rotateRight
  | leftHeavy
  | rightHeavy
  | removeSuccessor
  | alreadyContains
  | missingRemoved
  | inconsistent (routingBlocks : Int) (liveBlocks : Nat)
  | noBlockSize
  deriving DecidableEq, Repr

variable {B : Type}

/-- `_routing_membership_height`. -/
def routingMembershipHeight : SearchTree B → Nat
  | .empty => 0
  | .node _ _ _ height => height

/-- `_make_routing_membership_node`. -/
def makeRoutingMembershipNode (blockId : B) (left right : SearchTree B) : SearchTree B :=
  .node left blockId right (1 + max (routingMembershipHeight left) (routingMembershipHeight right))

/-- `_rotate_routing_membership_left`. -/
def rotateRoutingMembershipLeft (blockId : B) (left : SearchTree B) :
    SearchTree B → Except RoutingError (SearchTree B)
  | .empty => .error .rotateLeft
  | .node pivotLeft pivotId pivotRight _ =>
    .ok (makeRoutingMembershipNode pivotId (makeRoutingMembershipNode blockId left pivotLeft)
      pivotRight)

/-- `_rotate_routing_membership_right`. -/
def rotateRoutingMembershipRight (blockId : B) (left right : SearchTree B) :
    Except RoutingError (SearchTree B) :=
  match left with
  | .empty => .error .rotateRight
  | .node pivotLeft pivotId pivotRight _ =>
    .ok (makeRoutingMembershipNode pivotId pivotLeft
      (makeRoutingMembershipNode blockId pivotRight right))

/-- The left-heavy case of `_balance_routing_membership`. -/
def balanceLeftHeavy (blockId : B) (left right : SearchTree B) :
    Except RoutingError (SearchTree B) :=
  match left with
  | .empty => .error .leftHeavy
  | .node inner id outer _ =>
    if routingMembershipHeight inner < routingMembershipHeight outer then do
      let rotated ← rotateRoutingMembershipLeft id inner outer
      rotateRoutingMembershipRight blockId rotated right
    else rotateRoutingMembershipRight blockId left right

/-- The right-heavy case of `_balance_routing_membership`. -/
def balanceRightHeavy (blockId : B) (left right : SearchTree B) :
    Except RoutingError (SearchTree B) :=
  match right with
  | .empty => .error .rightHeavy
  | .node outer id inner _ =>
    if routingMembershipHeight inner < routingMembershipHeight outer then do
      let rotated ← rotateRoutingMembershipRight id outer inner
      rotateRoutingMembershipLeft blockId left rotated
    else rotateRoutingMembershipLeft blockId left right

/-- `_balance_routing_membership`, of the node `_make_routing_membership_node` makes. -/
def balanceRoutingMembership (blockId : B) (left right : SearchTree B) :
    Except RoutingError (SearchTree B) :=
  let balance : Int := routingMembershipHeight left - routingMembershipHeight right
  if 1 < balance then balanceLeftHeavy blockId left right
  else if balance < -1 then balanceRightHeavy blockId left right
  else .ok (makeRoutingMembershipNode blockId left right)

/-- `_minimum_routing_membership_node`, of a node with this left child and id. -/
def minimumRoutingMembership : SearchTree B → B → B
  | .empty, blockId => blockId
  | .node left id _ _, _ => minimumRoutingMembership left id

section Sets

variable [LinearOrder B]

/-- `_insert_routing_membership`. -/
def insertRoutingMembership (blockId : B) :
    SearchTree B → Except RoutingError (SearchTree B × Bool)
  | .empty => .ok (.node .empty blockId .empty 1, true)
  | .node left id right height =>
    if blockId = id then .ok (.node left id right height, false)
    else if blockId < id then do
      let (left', inserted) ← insertRoutingMembership blockId left
      if inserted = false then .ok (.node left id right height, false)
      else do
        let balanced ← balanceRoutingMembership id left' right
        .ok (balanced, true)
    else do
      let (right', inserted) ← insertRoutingMembership blockId right
      if inserted = false then .ok (.node left id right height, false)
      else do
        let balanced ← balanceRoutingMembership id left right'
        .ok (balanced, true)

/-- `_remove_routing_membership`. -/
def removeRoutingMembership (blockId : B) :
    SearchTree B → Except RoutingError (SearchTree B × Bool)
  | .empty => .ok (.empty, false)
  | .node left id right height =>
    if blockId < id then do
      let (left', removed) ← removeRoutingMembership blockId left
      if removed = false then .ok (.node left id right height, false)
      else do
        let balanced ← balanceRoutingMembership id left' right
        .ok (balanced, true)
    else if id < blockId then do
      let (right', removed) ← removeRoutingMembership blockId right
      if removed = false then .ok (.node left id right height, false)
      else do
        let balanced ← balanceRoutingMembership id left right'
        .ok (balanced, true)
    else
      match left, right with
      | .empty, right => .ok (right, true)
      | left, .empty => .ok (left, true)
      | left, .node rightLeft rightId rightRight rightHeight => do
        let successor := minimumRoutingMembership rightLeft rightId
        let (right', removed) ←
          removeRoutingMembership successor (.node rightLeft rightId rightRight rightHeight)
        if removed = false then .error .removeSuccessor
        else do
          let balanced ← balanceRoutingMembership successor left right'
          .ok (balanced, true)

/-- The loop of `_PrefixCacheRoutingMembership.contains`. -/
def routingMembershipContains (blockId : B) : SearchTree B → Bool
  | .empty => false
  | .node left id right _ =>
    if blockId = id then true
    else if blockId < id then routingMembershipContains blockId left
    else routingMembershipContains blockId right

end Sets

/-- `_PrefixCacheRoutingMembership`. -/
structure PrefixCacheRoutingMembership (B : Type) where
  root : SearchTree B := .empty
  liveBlocks : Int := 0
  deriving DecidableEq, Repr

namespace PrefixCacheRoutingMembership

variable [LinearOrder B]

/-- `contains`. -/
def contains (m : PrefixCacheRoutingMembership B) (blockId : B) : Bool :=
  routingMembershipContains blockId m.root

/-- `insert`. -/
def insert (m : PrefixCacheRoutingMembership B) (blockId : B) :
    Except RoutingError (PrefixCacheRoutingMembership B) := do
  let (root, inserted) ← insertRoutingMembership blockId m.root
  if inserted = false then .error .alreadyContains
  else .ok { root := root, liveBlocks := m.liveBlocks + 1 }

/-- `remove`. -/
def remove (m : PrefixCacheRoutingMembership B) (blockId : B) :
    Except RoutingError (PrefixCacheRoutingMembership B) := do
  let (root, removed) ← removeRoutingMembership blockId m.root
  if removed = false then .error .missingRemoved
  else .ok { root := root, liveBlocks := m.liveBlocks - 1 }

end PrefixCacheRoutingMembership

/-! ## Balancing -/

section Balancing

variable {left right : SearchTree B} {id : B}

theorem elems_makeRoutingMembershipNode :
    (makeRoutingMembershipNode id left right).elems = left.elems ++ id :: right.elems := rfl

theorem pivot_of_height (h : 0 < routingMembershipHeight right) : right ≠ .empty := by
  rintro rfl
  cases h

theorem rotateLeft_spec (id : B) (left : SearchTree B) (hpivot : right ≠ .empty) :
    ∃ t, rotateRoutingMembershipLeft id left right = .ok t ∧
      t.elems = left.elems ++ id :: right.elems := by
  cases right with
  | empty => exact absurd rfl hpivot
  | node pivotLeft pivotId pivotRight height =>
    refine ⟨_, rfl, ?_⟩
    simp only [elems_makeRoutingMembershipNode, SearchTree.elems_node, List.append_assoc,
      List.cons_append]

theorem rotateRight_spec (id : B) (right : SearchTree B) (hpivot : left ≠ .empty) :
    ∃ t, rotateRoutingMembershipRight id left right = .ok t ∧
      t.elems = left.elems ++ id :: right.elems := by
  cases left with
  | empty => exact absurd rfl hpivot
  | node pivotLeft pivotId pivotRight height =>
    refine ⟨_, rfl, ?_⟩
    simp only [elems_makeRoutingMembershipNode, SearchTree.elems_node, List.append_assoc,
      List.cons_append]

theorem balanceLeftHeavy_spec (hpivot : left ≠ .empty) :
    ∃ t, balanceLeftHeavy id left right = .ok t ∧ t.elems = left.elems ++ id :: right.elems := by
  cases left with
  | empty => exact absurd rfl hpivot
  | node inner leftId outer height =>
    unfold balanceLeftHeavy
    by_cases hdouble : routingMembershipHeight inner < routingMembershipHeight outer
    · -- the outer grandchild is the higher one, so it is not empty
      obtain ⟨rotated, hrotate, helems⟩ :=
        rotateLeft_spec leftId inner (pivot_of_height (Nat.zero_lt_of_lt hdouble))
      have hrotated : rotated ≠ .empty := by
        rintro rfl
        simp at helems
      obtain ⟨t, ht, helems'⟩ := rotateRight_spec id right hrotated
      refine ⟨t, ?_, by rw [helems', helems, SearchTree.elems_node]⟩
      simp only [hdouble, if_true, hrotate]
      exact ht
    · simp only [hdouble, if_false]
      exact rotateRight_spec id right hpivot

theorem balanceRightHeavy_spec (hpivot : right ≠ .empty) :
    ∃ t, balanceRightHeavy id left right = .ok t ∧ t.elems = left.elems ++ id :: right.elems := by
  cases right with
  | empty => exact absurd rfl hpivot
  | node outer rightId inner height =>
    unfold balanceRightHeavy
    by_cases hdouble : routingMembershipHeight inner < routingMembershipHeight outer
    · obtain ⟨rotated, hrotate, helems⟩ :=
        rotateRight_spec rightId inner (pivot_of_height (Nat.zero_lt_of_lt hdouble))
      have hrotated : rotated ≠ .empty := by
        rintro rfl
        simp at helems
      obtain ⟨t, ht, helems'⟩ := rotateLeft_spec id left hrotated
      refine ⟨t, ?_, by rw [helems', helems, SearchTree.elems_node]⟩
      simp only [hdouble, if_true, hrotate]
      exact ht
    · simp only [hdouble, if_false]
      exact rotateLeft_spec id left hpivot

/-- **Balancing never raises** and keeps the ids in order, whatever heights are stored. -/
theorem balance_spec (id : B) (left right : SearchTree B) :
    ∃ t, balanceRoutingMembership id left right = .ok t ∧
      t.elems = left.elems ++ id :: right.elems := by
  unfold balanceRoutingMembership
  by_cases hleft : (1 : Int) < routingMembershipHeight left - routingMembershipHeight right
  · simp only [if_pos hleft]
    exact balanceLeftHeavy_spec (pivot_of_height (by omega))
  by_cases hright : (routingMembershipHeight left - routingMembershipHeight right : Int) < -1
  · simp only [if_neg hleft, if_pos hright]
    exact balanceRightHeavy_spec (pivot_of_height (by omega))
  · simp only [if_neg hleft, if_neg hright]
    exact ⟨_, rfl, rfl⟩

/-- The least id stands first. -/
theorem head_minimumRoutingMembership (left right : SearchTree B) (id : B) :
    (left.elems ++ id :: right.elems).head? = some (minimumRoutingMembership left id) := by
  induction left generalizing id right with
  | empty => rfl
  | node inner leftId outer height ih =>
    rw [SearchTree.elems_node, List.append_assoc, List.cons_append]
    have := ih (makeRoutingMembershipNode id outer right) leftId
    rwa [elems_makeRoutingMembershipNode] at this

end Balancing

/-! ## Updates -/

section Updates

variable [LinearOrder B]

theorem routingMembershipContains_iff {t : SearchTree B} {blockId : B} (ht : t.Ordered) :
    routingMembershipContains blockId t = true ↔ blockId ∈ t.elems := by
  induction t with
  | empty => simp [routingMembershipContains]
  | node left id right height ihl ihr =>
    obtain ⟨hl, hr, -, -⟩ := SearchTree.ordered_node.mp ht
    unfold routingMembershipContains
    by_cases heq : blockId = id
    · simp [heq]
    by_cases hlt : blockId < id
    · rw [if_neg heq, if_pos hlt, ihl hl, ht.mem_left hlt]
    · rw [if_neg heq, if_neg hlt, ihr hr, ht.mem_right (lt_of_le_of_ne (not_lt.mp hlt) (Ne.symm heq))]

/-- `_insert_routing_membership` of an id the set does not hold. -/
theorem insertRoutingMembership_spec {t : SearchTree B} {blockId : B} (ht : t.Ordered)
    (hnew : blockId ∉ t.elems) :
    ∃ t', insertRoutingMembership blockId t = .ok (t', true) ∧ t.Gains blockId t' := by
  induction t with
  | empty => exact ⟨_, rfl, .leaf⟩
  | node left id right height ihl ihr =>
    obtain ⟨hl, hr, -, -⟩ := SearchTree.ordered_node.mp ht
    have hne : blockId ≠ id := by
      rintro rfl
      simp at hnew
    unfold insertRoutingMembership
    rw [if_neg hne]
    by_cases hlt : blockId < id
    · rw [ht.mem_left hlt] at hnew
      obtain ⟨left', hinsert, hgains⟩ := ihl hl hnew
      obtain ⟨balanced, hbalance, helems⟩ := balance_spec id left' right
      refine ⟨balanced, ?_, (hgains.left ht hlt height).congr helems⟩
      rw [if_pos hlt, hinsert]
      simp only [bind, Except.bind, hbalance, Bool.true_eq_false, if_false]
    · have hgt : id < blockId := lt_of_le_of_ne (not_lt.mp hlt) (Ne.symm hne)
      rw [ht.mem_right hgt] at hnew
      obtain ⟨right', hinsert, hgains⟩ := ihr hr hnew
      obtain ⟨balanced, hbalance, helems⟩ := balance_spec id left right'
      refine ⟨balanced, ?_, (hgains.right ht hgt height).congr helems⟩
      rw [if_neg hlt, hinsert]
      simp only [bind, Except.bind, hbalance, Bool.true_eq_false, if_false]

/-- `_remove_routing_membership` of an id the set holds. -/
theorem removeRoutingMembership_spec {t : SearchTree B} {blockId : B} (ht : t.Ordered)
    (hmem : blockId ∈ t.elems) :
    ∃ t', removeRoutingMembership blockId t = .ok (t', true) ∧ t.Loses blockId t' := by
  induction t generalizing blockId with
  | empty => cases hmem
  | node left id right height ihl ihr =>
    obtain ⟨hl, hr, -, -⟩ := SearchTree.ordered_node.mp ht
    unfold removeRoutingMembership
    rcases lt_trichotomy blockId id with hlt | rfl | hgt
    · obtain ⟨left', hremove, hloses⟩ := ihl hl ((ht.mem_left hlt).mp hmem)
      obtain ⟨balanced, hbalance, helems⟩ := balance_spec id left' right
      refine ⟨balanced, ?_, (hloses.left ht height).congr helems⟩
      rw [if_pos hlt, hremove]
      simp only [bind, Except.bind, hbalance, Bool.true_eq_false, if_false]
    · rw [if_neg (lt_irrefl _), if_neg (lt_irrefl _)]
      cases left with
      | empty => exact ⟨right, rfl, .root_right ht⟩
      | node inner leftId outer leftHeight =>
        cases right with
        | empty => exact ⟨_, rfl, .root_left ht⟩
        | node rightLeft rightId rightRight rightHeight =>
          have hleast := head_minimumRoutingMembership rightLeft rightRight rightId
          obtain ⟨right', hremove, hloses⟩ := ihr hr (List.mem_of_head? hleast)
          obtain ⟨balanced, hbalance, helems⟩ := balance_spec
            (minimumRoutingMembership rightLeft rightId) (.node inner leftId outer leftHeight) right'
          refine ⟨balanced, ?_, (hloses.root ht hleast height).congr helems⟩
          simp only [hremove, bind, Except.bind, hbalance, Bool.true_eq_false, if_false]
    · obtain ⟨right', hremove, hloses⟩ := ihr hr ((ht.mem_right hgt).mp hmem)
      obtain ⟨balanced, hbalance, helems⟩ := balance_spec id left right'
      refine ⟨balanced, ?_, (hloses.right ht height).congr helems⟩
      rw [if_neg (lt_asymm hgt), if_pos hgt, hremove]
      simp only [bind, Except.bind, hbalance, Bool.true_eq_false, if_false]

end Updates

/-! ## The membership of a set of ids -/

namespace PrefixCacheRoutingMembership

variable [LinearOrder B] {m : PrefixCacheRoutingMembership B} {ids : B → Prop} {blockId : B}

/-- The membership holds exactly these ids and counts them. -/
structure Holds (m : PrefixCacheRoutingMembership B) (ids : B → Prop) : Prop where
  ordered : m.root.Ordered
  mem : ∀ id, id ∈ m.root.elems ↔ ids id
  live : m.liveBlocks = m.root.elems.length

theorem holds_empty : (Holds {} fun _ : B => False) where
  ordered := SearchTree.ordered_empty
  mem id := by simp
  live := rfl

theorem Holds.congr (h : m.Holds ids) {ids' : B → Prop} (hsame : ∀ id, ids id ↔ ids' id) :
    m.Holds ids' where
  ordered := h.ordered
  mem id := (h.mem id).trans (hsame id)
  live := h.live

theorem Holds.contains_iff (h : m.Holds ids) : m.contains blockId = true ↔ ids blockId := by
  unfold contains
  rw [routingMembershipContains_iff h.ordered, h.mem]

theorem Holds.insert (h : m.Holds ids) (hnew : ¬ ids blockId) :
    ∃ m', m.insert blockId = .ok m' ∧ m'.Holds fun id => id = blockId ∨ ids id := by
  obtain ⟨root, hinsert, hgains⟩ :=
    insertRoutingMembership_spec h.ordered (mt (h.mem blockId).mp hnew)
  refine ⟨⟨root, m.liveBlocks + 1⟩, ?_, hgains.ordered, fun id => ?_, ?_⟩
  · unfold PrefixCacheRoutingMembership.insert
    rw [hinsert]
    rfl
  · rw [hgains.mem, h.mem]
  · have hlength := hgains.perm.length_eq
    rw [List.length_cons] at hlength
    rw [hlength, h.live]
    rfl

theorem Holds.remove (h : m.Holds ids) (hmem : ids blockId) :
    ∃ m', m.remove blockId = .ok m' ∧ m'.Holds fun id => ids id ∧ id ≠ blockId := by
  obtain ⟨root, hremove, hloses⟩ := removeRoutingMembership_spec h.ordered ((h.mem blockId).mpr hmem)
  refine ⟨⟨root, m.liveBlocks - 1⟩, ?_, hloses.ordered, fun id => ?_, ?_⟩
  · unfold PrefixCacheRoutingMembership.remove
    rw [hremove]
    rfl
  · rw [hloses.mem h.ordered, h.mem]
  · have hlength := hloses.perm.length_eq
    rw [List.length_cons] at hlength
    simp only [h.live, hlength]
    omega

end PrefixCacheRoutingMembership

end SparseVllm
