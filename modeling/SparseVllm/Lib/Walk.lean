import Mathlib.Data.Finset.Card
import Mathlib.Data.List.Nodup
import Mathlib.Logic.Relation

/-!
# A walk with a stack

`walk children fuel stack` pops a node, visits it and pushes its children, until the stack is empty;
it is `none` when the fuel runs out first. Below the root of a tree, one unit of fuel for each node
is enough and every node is visited once (`walk_tree`).
-/

namespace SparseVllm.Lib

variable {N : Type}

/-- Pop a node, visit it, push its children. The head of the list is the top of the stack. -/
def walk (children : N → List N) : Nat → List N → Option (List N)
  | _, [] => some []
  | 0, _ :: _ => none
  | fuel + 1, n :: stack => (walk children fuel ((children n).reverse ++ stack)).map (n :: ·)

/-- The nodes below `root` make a tree: a node is the child of one node, once, and of a lower rank
than its children. -/
structure TreeBelow (children : N → List N) (root : N) (rank : N → Nat) : Prop where
  once : ∀ n, Relation.ReflTransGen (fun a b => b ∈ children a) root n → (children n).Nodup
  single : ∀ a a' b, Relation.ReflTransGen (fun a b => b ∈ children a) root a →
    Relation.ReflTransGen (fun a b => b ∈ children a) root a' →
    b ∈ children a → b ∈ children a' → a = a'
  rank : ∀ a b, Relation.ReflTransGen (fun a b => b ∈ children a) root a → b ∈ children a →
    rank a < rank b

/-- Midway through a walk: `done` is visited and `stack` is what is next. -/
structure Walking (children : N → List N) (root : N) (done stack : List N) : Prop where
  nodup : (root :: (done ++ stack)).Nodup
  below : ∀ n ∈ done ++ stack, ∃ a ∈ root :: done, n ∈ children a
  reached : ∀ n ∈ done ++ stack, Relation.TransGen (fun a b => b ∈ children a) root n
  closed : ∀ a ∈ root :: done, ∀ n ∈ children a, n ∈ done ++ stack

variable {children : N → List N} {root : N} {rank : N → Nat} {done stack : List N} {n : N}

theorem TreeBelow.rank_le (h : TreeBelow children root rank)
    (hn : Relation.ReflTransGen (fun a b => b ∈ children a) root n) : rank root ≤ rank n := by
  induction hn with
  | refl => exact le_rfl
  | tail hab hb ih => exact ih.trans (h.rank _ _ hab hb).le

/-- Before the walk the children of the root are next. -/
theorem Walking.start (h : TreeBelow children root rank) :
    Walking children root [] (children root).reverse := by
  refine ⟨?_, ?_, ?_, ?_⟩
  · rw [List.nil_append, List.nodup_cons, List.mem_reverse, List.nodup_reverse]
    exact ⟨fun hmem => absurd (h.rank root root .refl hmem) (lt_irrefl _), h.once root .refl⟩
  · intro n hn
    exact ⟨root, List.mem_cons_self, List.mem_reverse.mp hn⟩
  · intro n hn
    exact .single (List.mem_reverse.mp hn)
  · intro a ha n hn
    obtain rfl := List.mem_singleton.mp ha
    exact List.mem_reverse.mpr hn

/-- One node is visited and its children are pushed. -/
theorem Walking.step (h : TreeBelow children root rank)
    (w : Walking children root done (n :: stack)) :
    Walking children root (done ++ [n]) ((children n).reverse ++ stack) := by
  have hn : Relation.TransGen (fun a b => b ∈ children a) root n := w.reached n (by simp)
  have hmem : ∀ m, m ∈ done ++ [n] ++ ((children n).reverse ++ stack) ↔
      m ∈ done ++ n :: stack ∨ m ∈ children n := by
    intro m
    simp only [List.mem_append, List.mem_cons, List.mem_reverse, List.not_mem_nil, or_false]
    tauto
  -- a child of the popped node is new: the nodes seen so far have other parents
  have hnew : ∀ c ∈ children n, c ∉ root :: (done ++ n :: stack) := by
    intro c hc hseen
    rcases List.mem_cons.mp hseen with rfl | hseen
    · have := h.rank n c hn.to_reflTransGen hc
      have := h.rank_le hn.to_reflTransGen
      omega
    · obtain ⟨a, ha, hac⟩ := w.below c hseen
      have hreach : Relation.ReflTransGen (fun a b => b ∈ children a) root a := by
        rcases List.mem_cons.mp ha with rfl | ha
        · exact .refl
        · exact (w.reached a (by simp [ha])).to_reflTransGen
      obtain rfl := h.single a n c hreach hn.to_reflTransGen hac hc
      have hnodup := w.nodup
      rcases List.mem_cons.mp ha with rfl | ha
      · simp at hnodup
      · rw [List.nodup_cons, List.nodup_append] at hnodup
        exact hnodup.2.2.2 a ha a List.mem_cons_self rfl
  refine ⟨?_, ?_, ?_, ?_⟩
  · have hperm : (root :: (done ++ [n] ++ ((children n).reverse ++ stack))).Perm
        ((children n).reverse ++ (root :: (done ++ n :: stack))) := by
      have := List.perm_append_comm_assoc (root :: (done ++ [n])) (children n).reverse stack
      simpa using this
    rw [hperm.nodup_iff, List.nodup_append]
    refine ⟨List.nodup_reverse.mpr (h.once n hn.to_reflTransGen), w.nodup, fun c hc d hd hcd => ?_⟩
    exact hnew c (List.mem_reverse.mp hc) (hcd ▸ hd)
  · intro m hm
    rcases (hmem m).mp hm with hm | hm
    · obtain ⟨a, ha, ham⟩ := w.below m hm
      exact ⟨a, List.mem_cons.mpr ((List.mem_cons.mp ha).imp id fun ha => by simp [ha]), ham⟩
    · exact ⟨n, by simp, hm⟩
  · intro m hm
    rcases (hmem m).mp hm with hm | hm
    · exact w.reached m hm
    · exact hn.tail hm
  · intro a ha m hm
    rw [hmem]
    rw [← List.cons_append, List.mem_append, List.mem_singleton] at ha
    rcases ha with ha | rfl
    · exact Or.inl (w.closed a ha m hm)
    · exact Or.inr hm

/-- With an empty stack everything below the root is visited. -/
theorem Walking.visited (w : Walking children root done []) :
    ∀ n, n ∈ done ++ [] ↔ Relation.TransGen (fun a b => b ∈ children a) root n := by
  intro n
  constructor
  · exact w.reached n
  · intro hn
    induction hn with
    | single hb => exact w.closed root List.mem_cons_self _ hb
    | tail _ hb ih => exact w.closed _ (List.mem_cons_of_mem _ (by simpa using ih)) _ hb

/-- A walk under way ends with every node below the root visited once. -/
theorem Walking.finish (h : TreeBelow children root rank) {nodes : Finset N}
    (hnodes : ∀ n, Relation.TransGen (fun a b => b ∈ children a) root n → n ∈ nodes) {fuel : Nat}
    (w : Walking children root done stack) (hfuel : nodes.card ≤ fuel + done.length) :
    ∃ rest, walk children fuel stack = some rest ∧ (done ++ rest).Nodup ∧
      ∀ n, n ∈ done ++ rest ↔ Relation.TransGen (fun a b => b ∈ children a) root n := by
  induction fuel generalizing done stack with
  | zero =>
    cases stack with
    | nil => exact ⟨[], rfl, (List.nodup_cons.mp w.nodup).2, w.visited⟩
    | cons n stack =>
      -- one node more than there are
      classical
      have hnodup := (List.nodup_cons.mp w.nodup).2
      have hsub : (done ++ n :: stack).toFinset ⊆ nodes := fun m hm =>
        hnodes m (w.reached m (List.mem_toFinset.mp hm))
      have hcard := Finset.card_le_card hsub
      rw [List.toFinset_card_of_nodup hnodup] at hcard
      simp only [List.length_append, List.length_cons] at hcard
      omega
  | succ fuel ih =>
    cases stack with
    | nil => exact ⟨[], rfl, (List.nodup_cons.mp w.nodup).2, w.visited⟩
    | cons n stack =>
      have hlength : nodes.card ≤ fuel + (done ++ [n]).length := by
        rw [List.length_append, List.length_singleton]
        omega
      obtain ⟨rest, hrun, hnodup, hmem⟩ := ih (w.step h) hlength
      refine ⟨n :: rest, ?_, ?_, ?_⟩
      · unfold walk
        rw [hrun]
        rfl
      · rwa [List.append_cons]
      · rwa [List.append_cons]
/-- **Below the root of a tree a walk visits every node once.** -/
theorem walk_tree (h : TreeBelow children root rank) {nodes : Finset N}
    (hnodes : ∀ n, Relation.TransGen (fun a b => b ∈ children a) root n → n ∈ nodes) {fuel : Nat}
    (hfuel : nodes.card ≤ fuel) :
    ∃ visited, walk children fuel (children root).reverse = some visited ∧ visited.Nodup ∧
      ∀ n, n ∈ visited ↔ Relation.TransGen (fun a b => b ∈ children a) root n :=
  (Walking.start h).finish h hnodes hfuel

end SparseVllm.Lib
