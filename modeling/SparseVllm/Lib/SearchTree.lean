import Mathlib

/-!
# Search trees

A binary tree whose nodes store a height, with its values in order (`elems`). What an update does
to a search tree is said once, as `Gains` and `Loses`; an update of a subtree is one of the whole
tree (`Gains.left`, `Loses.right`, …), and rebalancing keeps both, since it keeps `elems`.
-/

namespace SparseVllm.Lib

/-- A binary tree; `height` is what the node stores. -/
inductive SearchTree (α : Type) where
  | empty
  | node (left : SearchTree α) (value : α) (right : SearchTree α) (height : Nat)
  deriving DecidableEq, Repr

namespace SearchTree

variable {α : Type}

/-- The values, in order. -/
def elems : SearchTree α → List α
  | empty => []
  | node left value right _ => left.elems ++ value :: right.elems

@[simp] theorem elems_empty : (empty : SearchTree α).elems = [] := rfl

@[simp] theorem elems_node {l r : SearchTree α} {v : α} {h : Nat} :
    (node l v r h).elems = l.elems ++ v :: r.elems := rfl

/-- The height, counted. -/
def height : SearchTree α → Nat
  | empty => 0
  | node left _ right _ => 1 + max left.height right.height

/-- An AVL tree: its nodes store their heights, and siblings differ in height by at most one. -/
def Balanced : SearchTree α → Prop
  | empty => True
  | node left _ right stored =>
    stored = 1 + max left.height right.height ∧ left.height ≤ right.height + 1 ∧
      right.height ≤ left.height + 1 ∧ left.Balanced ∧ right.Balanced

@[simp] theorem height_empty : (empty : SearchTree α).height = 0 := rfl

@[simp] theorem height_node {l r : SearchTree α} {v : α} {h : Nat} :
    (node l v r h).height = 1 + max l.height r.height := rfl

theorem balanced_empty : (empty : SearchTree α).Balanced := trivial

variable [LinearOrder α]

/-- The values are in increasing order. -/
def Ordered (t : SearchTree α) : Prop := t.elems.Pairwise (· < ·)

variable {t t' u l l' r r' : SearchTree α} {x v m : α} {h h' : Nat}

theorem ordered_empty : (empty : SearchTree α).Ordered := List.Pairwise.nil

theorem ordered_node : (node l v r h).Ordered ↔
    l.Ordered ∧ r.Ordered ∧ (∀ y ∈ l.elems, y < v) ∧ ∀ y ∈ r.elems, v < y := by
  unfold Ordered
  rw [elems_node, List.pairwise_append, List.pairwise_cons]
  constructor
  · rintro ⟨hl, ⟨hv, hr⟩, hlr⟩
    exact ⟨hl, hr, fun y hy => hlr y hy v List.mem_cons_self, hv⟩
  · rintro ⟨hl, hr, hlv, hvr⟩
    refine ⟨hl, ⟨hvr, hr⟩, fun y hy z hz => ?_⟩
    rcases List.mem_cons.mp hz with rfl | hz
    · exact hlv y hy
    · exact lt_trans (hlv y hy) (hvr z hz)

theorem Ordered.nodup (ht : t.Ordered) : t.elems.Nodup := ht.imp fun hlt => ne_of_lt hlt

/-- Below the value of the root, a search goes left. -/
theorem Ordered.mem_left (ht : (node l v r h).Ordered) (hx : x < v) :
    x ∈ (node l v r h).elems ↔ x ∈ l.elems := by
  obtain ⟨-, -, -, hvr⟩ := ordered_node.mp ht
  simp only [elems_node, List.mem_append, List.mem_cons, or_iff_left_iff_imp]
  rintro (rfl | hr)
  · exact absurd hx (lt_irrefl x)
  · exact absurd hx (lt_asymm (hvr x hr))

/-- Above the value of the root, a search goes right. -/
theorem Ordered.mem_right (ht : (node l v r h).Ordered) (hx : v < x) :
    x ∈ (node l v r h).elems ↔ x ∈ r.elems := by
  obtain ⟨-, -, hlv, -⟩ := ordered_node.mp ht
  simp only [elems_node, List.mem_append, List.mem_cons]
  constructor
  · rintro (hl | rfl | hr)
    · exact absurd hx (lt_asymm (hlv x hl))
    · exact absurd hx (lt_irrefl x)
    · exact hr
  · exact fun hr => Or.inr (Or.inr hr)

/-! ## Updates -/

/-- `t'` holds `x` beside what `t` holds. -/
structure Gains (t : SearchTree α) (x : α) (t' : SearchTree α) : Prop where
  ordered : t'.Ordered
  perm : t'.elems.Perm (x :: t.elems)

/-- `t'` holds what `t` holds but `x`. -/
structure Loses (t : SearchTree α) (x : α) (t' : SearchTree α) : Prop where
  ordered : t'.Ordered
  perm : t.elems.Perm (x :: t'.elems)

theorem Gains.mem (h : Gains t x t') {y : α} : y ∈ t'.elems ↔ y = x ∨ y ∈ t.elems := by
  rw [h.perm.mem_iff, List.mem_cons]

theorem Loses.mem (hordered : t.Ordered) (h : Loses t x t') {y : α} :
    y ∈ t'.elems ↔ y ∈ t.elems ∧ y ≠ x := by
  have hnodup : x ∉ t'.elems := (List.nodup_cons.mp (h.perm.nodup_iff.mp hordered.nodup)).1
  rw [h.perm.mem_iff, List.mem_cons]
  constructor
  · exact fun hy => ⟨Or.inr hy, fun heq => hnodup (heq ▸ hy)⟩
  · rintro ⟨rfl | hy, hne⟩
    · exact absurd rfl hne
    · exact hy

theorem Gains.congr (hg : Gains t x t') (hu : u.elems = t'.elems) : Gains t x u where
  ordered := by unfold Ordered; rw [hu]; exact hg.ordered
  perm := hu ▸ hg.perm

theorem Loses.congr (hl : Loses t x t') (hu : u.elems = t'.elems) : Loses t x u where
  ordered := by unfold Ordered; rw [hu]; exact hl.ordered
  perm := hu ▸ hl.perm

theorem Gains.leaf : Gains empty x (node empty x empty h) where
  ordered := ordered_node.mpr ⟨ordered_empty, ordered_empty, by simp, by simp⟩
  perm := List.Perm.refl _

theorem Gains.left (hg : Gains l x l') (ht : (node l v r h).Ordered) (hx : x < v) (h' : Nat) :
    Gains (node l v r h) x (node l' v r h') where
  ordered := by
    obtain ⟨-, hr, hlv, hvr⟩ := ordered_node.mp ht
    refine ordered_node.mpr ⟨hg.ordered, hr, fun y hy => ?_, hvr⟩
    rcases hg.mem.mp hy with rfl | hy
    · exact hx
    · exact hlv y hy
  perm := hg.perm.append_right (v :: r.elems)

theorem Gains.right (hg : Gains r x r') (ht : (node l v r h).Ordered) (hx : v < x) (h' : Nat) :
    Gains (node l v r h) x (node l v r' h') where
  ordered := by
    obtain ⟨hl, -, hlv, hvr⟩ := ordered_node.mp ht
    refine ordered_node.mpr ⟨hl, hg.ordered, hlv, fun y hy => ?_⟩
    rcases hg.mem.mp hy with rfl | hy
    · exact hx
    · exact hvr y hy
  perm := by
    calc l.elems ++ v :: r'.elems
      _ |>.Perm (l.elems ++ v :: x :: r.elems) := (hg.perm.cons v).append_left l.elems
      _ |>.Perm (l.elems ++ x :: v :: r.elems) := (List.Perm.swap x v r.elems).append_left l.elems
      _ |>.Perm (x :: (l.elems ++ v :: r.elems)) := List.perm_middle

theorem Loses.left (hl : Loses l x l') (ht : (node l v r h).Ordered) (h' : Nat) :
    Loses (node l v r h) x (node l' v r h') where
  ordered := by
    obtain ⟨-, hr, hlv, hvr⟩ := ordered_node.mp ht
    refine ordered_node.mpr ⟨hl.ordered, hr, fun y hy => ?_, hvr⟩
    exact hlv y (hl.perm.mem_iff.mpr (List.mem_cons_of_mem x hy))
  perm := hl.perm.append_right (v :: r.elems)

theorem Loses.right (hr : Loses r x r') (ht : (node l v r h).Ordered) (h' : Nat) :
    Loses (node l v r h) x (node l v r' h') where
  ordered := by
    obtain ⟨hl, -, hlv, hvr⟩ := ordered_node.mp ht
    refine ordered_node.mpr ⟨hl, hr.ordered, hlv, fun y hy => ?_⟩
    exact hvr y (hr.perm.mem_iff.mpr (List.mem_cons_of_mem x hy))
  perm := by
    calc l.elems ++ v :: r.elems
      _ |>.Perm (l.elems ++ v :: x :: r'.elems) := (hr.perm.cons v).append_left l.elems
      _ |>.Perm (l.elems ++ x :: v :: r'.elems) := (List.Perm.swap x v r'.elems).append_left l.elems
      _ |>.Perm (x :: (l.elems ++ v :: r'.elems)) := List.perm_middle

theorem Loses.root_right (ht : (node empty v r h).Ordered) : Loses (node empty v r h) v r where
  ordered := (ordered_node.mp ht).2.1
  perm := List.Perm.refl _

theorem Loses.root_left (ht : (node l v empty h).Ordered) : Loses (node l v empty h) v l where
  ordered := (ordered_node.mp ht).1
  perm := List.perm_middle.trans (by rw [elems_empty, List.append_nil])

/-- The root is replaced by the least value on its right. -/
theorem Loses.root (hr : Loses r m r') (ht : (node l v r h).Ordered)
    (hleast : r.elems.head? = some m) (h' : Nat) : Loses (node l v r h) v (node l m r' h') where
  ordered := by
    obtain ⟨hl, hor, hlv, hvr⟩ := ordered_node.mp ht
    have hm : m ∈ r.elems := List.mem_of_head? hleast
    refine ordered_node.mpr ⟨hl, hr.ordered, fun y hy => lt_trans (hlv y hy) (hvr m hm), fun y hy => ?_⟩
    obtain ⟨hy', hne⟩ := (hr.mem hor).mp hy
    -- what is left on the right lies above its least value
    obtain ⟨rest, hrest⟩ := List.head?_eq_some_iff.mp hleast
    unfold Ordered at hor
    rw [hrest] at hor hy'
    exact (List.pairwise_cons.mp hor).1 y ((List.mem_cons.mp hy').resolve_left hne)
  perm := List.perm_middle.trans ((hr.perm.append_left l.elems).cons v)

end SearchTree

end SparseVllm.Lib
