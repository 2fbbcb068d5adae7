import Mathlib.Data.Set.Insert
import Mathlib.Logic.Relation
import SparseVllm.Lib.Dict

/-!
# Peeling leaves

An element of a forest is peelable when it is removable itself and each of its children is
peelable: the elements repeated removal of removable leaves can reach. `Peelable` is that
predicate for any child relation. `peelLoop` computes it with a worklist and a count of unpeeled
children, from the leaves up.

## Results

* `Peelable.iff_of_agree`: peelability only depends on the removable elements and their children.
* `mem_peelLoop`: the worklist finds exactly the peelable elements.
* `Peeling.peelable`, `Peeling.complete`: peeling one element after the other takes peelable
  elements, and all of them when it stops for want of one.
-/

namespace SparseVllm.Lib

variable {α : Type}

/-- `x` is removable, and so is everything below it. -/
inductive Peelable (child : α → α → Prop) (ok : α → Prop) : α → Prop where
  | peel {x : α} (self : ok x) (below : ∀ c, child c x → Peelable child ok c) :
    Peelable child ok x

namespace Peelable

variable {child child' : α → α → Prop} {ok ok' : α → Prop} {x : α}

theorem self (h : Peelable child ok x) : ok x := by
  cases h with
  | peel self _ => exact self

theorem of_child (h : Peelable child ok x) {c : α} (hc : child c x) : Peelable child ok c := by
  cases h with
  | peel _ below => exact below c hc

theorem of_agree (h : Peelable child ok x) (hok : ∀ y, ok y → ok' y)
    (hchild : ∀ y, ok y → ∀ c, child' c y → child c y) : Peelable child' ok' x := by
  induction h with
  | peel self _ ih => exact .peel (hok _ self) fun c hc => ih c (hchild _ self c hc)

/-- Only the removable elements and their children matter. -/
theorem iff_of_agree (hok : ∀ y, ok y ↔ ok' y)
    (hchild : ∀ y, ok y → ∀ c, child c y ↔ child' c y) :
    Peelable child ok x ↔ Peelable child' ok' x := by
  constructor
  · intro h
    exact h.of_agree (fun y => (hok y).mp) fun y hy c => (hchild y hy c).mpr
  · intro h
    exact h.of_agree (fun y => (hok y).mpr) fun y hy c => (hchild y ((hok y).mpr hy) c).mp

theorem of_reachable (h : Peelable child ok x) {q : α} (hq : Relation.ReflTransGen child q x) :
    Peelable child ok q := by
  induction hq using Relation.ReflTransGen.head_induction_on with
  | refl => exact h
  | head hstep _ ih => exact ih.of_child hstep

/-- An element that is not peelable can be taken out of the removable ones. -/
theorem iff_avoid {p : α} (hp : ¬ Peelable child ok p) :
    Peelable child ok x ↔ Peelable child (fun y => ok y ∧ y ≠ p) x := by
  constructor
  · intro h
    induction h with
    | @peel y self below ih =>
      refine .peel ⟨self, ?_⟩ ih
      rintro rfl
      exact hp (.peel self below)
  · intro h
    exact h.of_agree (fun _ hy => hy.1) fun _ _ _ hc => hc

end Peelable

/-! ## Peeling one after the other -/

/-- `l` takes removable elements that are not `taken`, each after all its children. -/
def Peeling (child : α → α → Prop) (ok : α → Prop) : Set α → List α → Prop
  | _, [] => True
  | taken, x :: l =>
    (ok x ∧ x ∉ taken ∧ ∀ c, child c x → c ∈ taken) ∧ Peeling child ok (insert x taken) l

namespace Peeling

variable {child : α → α → Prop} {ok : α → Prop} {taken : Set α} {l : List α} {x : α}

/-- What peels once `x` is gone peels after `x`. -/
theorem of_removed (h : Peeling (fun c y => child c y ∧ c ≠ x) (fun y => ok y ∧ y ≠ x) taken l) :
    Peeling child ok (insert x taken) l := by
  induction l generalizing taken with
  | nil => trivial
  | cons y l ih =>
    obtain ⟨⟨hok, hnew, hbelow⟩, hrest⟩ := h
    refine ⟨⟨hok.1, ?_, fun c hc => ?_⟩, ?_⟩
    · rintro (hy | hy)
      · exact hok.2 hy
      · exact hnew hy
    · by_cases hcx : c = x
      · exact Or.inl hcx
      · exact Or.inr (hbelow c ⟨hc, hcx⟩)
    · rw [Set.insert_comm]
      exact ih hrest

/-- What peels after `x` peels once `x` is gone. -/
theorem removed (h : Peeling child ok (insert x taken) l) :
    Peeling (fun c y => child c y ∧ c ≠ x) (fun y => ok y ∧ y ≠ x) taken l := by
  induction l generalizing taken with
  | nil => trivial
  | cons y l ih =>
    obtain ⟨⟨hok, hnew, hbelow⟩, hrest⟩ := h
    refine ⟨⟨⟨hok, ?_⟩, fun hy => hnew (Or.inr hy), fun c hc => ?_⟩, ?_⟩
    · rintro rfl
      exact hnew (Or.inl rfl)
    · exact (hbelow c hc.1).resolve_left hc.2
    · rw [Set.insert_comm] at hrest
      exact ih hrest

/-- One more element peels after what its children are among. -/
theorem concat (h : Peeling child ok taken l) (hok : ok x) (hnew : x ∉ taken ∧ x ∉ l)
    (hbelow : ∀ c, child c x → c ∈ taken ∨ c ∈ l) : Peeling child ok taken (l ++ [x]) := by
  induction l generalizing taken with
  | nil => exact ⟨⟨hok, hnew.1, fun c hc => (hbelow c hc).resolve_right List.not_mem_nil⟩, trivial⟩
  | cons y l ih =>
    simp only [List.mem_cons, not_or] at hnew
    refine ⟨h.1, ih h.2 ⟨?_, hnew.2.2⟩ fun c hc => ?_⟩
    · rintro (hxy | hx)
      · exact hnew.2.1 hxy
      · exact hnew.1 hx
    · rcases hbelow c hc with hc | hc
      · exact Or.inl (Or.inr hc)
      · rcases List.mem_cons.mp hc with hcy | hc
        · exact Or.inl (Or.inl hcy)
        · exact Or.inr hc

theorem mem_ok (h : Peeling child ok taken l) (hx : x ∈ l) : ok x ∧ x ∉ taken := by
  induction l generalizing taken with
  | nil => cases hx
  | cons y l ih =>
    rcases List.mem_cons.mp hx with rfl | hx
    · exact ⟨h.1.1, h.1.2.1⟩
    · obtain ⟨hok, hnew⟩ := ih h.2 hx
      exact ⟨hok, fun hmem => hnew (Or.inr hmem)⟩

theorem nodup (h : Peeling child ok taken l) : l.Nodup := by
  induction l generalizing taken with
  | nil => exact List.nodup_nil
  | cons y l ih =>
    exact List.nodup_cons.mpr ⟨fun hmem => (mem_ok h.2 hmem).2 (Or.inl rfl), ih h.2⟩

/-- Everything taken is peelable. -/
theorem peelable (h : Peeling child ok taken l) (htaken : ∀ y ∈ taken, Peelable child ok y)
    (hx : x ∈ l) : Peelable child ok x := by
  induction l generalizing taken with
  | nil => cases hx
  | cons y l ih =>
    have hy : Peelable child ok y := .peel h.1.1 fun c hc => htaken c (h.1.2.2 c hc)
    rcases List.mem_cons.mp hx with rfl | hx
    · exact hy
    · refine ih h.2 (fun z hz => ?_) hx
      rcases hz with rfl | hz
      · exact hy
      · exact htaken z hz

/-- Everything below an element goes before it. -/
theorem before (h : Peeling child ok taken l)
    (hclosed : ∀ y ∈ taken, ∀ c, child c y → c ∈ taken) {pre post : List α}
    (hl : l = pre ++ x :: post) {c : α} (hc : Relation.TransGen child c x) :
    c ∈ taken ∨ c ∈ pre := by
  -- what is taken is closed downwards, so it holds all that is below the children of `x`
  have hdown : ∀ {T : Set α}, (∀ y ∈ T, ∀ c, child c y → c ∈ T) →
      (∀ c, child c x → c ∈ T) → c ∈ T := by
    intro T hT hchildren
    induction hc using Relation.TransGen.head_induction_on with
    | single hc => exact hchildren _ hc
    | head hstep _ ih => exact hT _ ih _ hstep
  induction pre generalizing taken l with
  | nil =>
    subst hl
    exact Or.inl (hdown hclosed h.1.2.2)
  | cons y pre ih =>
    subst hl
    have hnext : ∀ z ∈ insert y taken, ∀ c, child c z → c ∈ insert y taken := by
      rintro z (rfl | hz) c hc
      · exact Or.inr (h.1.2.2 c hc)
      · exact Or.inr (hclosed z hz c hc)
    rcases ih h.2 hnext rfl with (rfl | hmem) | hmem
    · exact Or.inr List.mem_cons_self
    · exact Or.inl hmem
    · exact Or.inr (List.mem_cons_of_mem y hmem)

/-- A list that holds every removable element whose children it holds has all that is peelable. -/
theorem complete (hmax : ∀ y, ok y → (∀ c, child c y → c ∈ l) → y ∈ l)
    (hx : Peelable child ok x) : x ∈ l := by
  induction hx with
  | peel self _ ih => exact hmax _ self ih

end Peeling

/-! ## The worklist -/

section Worklist

variable [DecidableEq α] (parent : α → Option α) (ok : α → Bool) (nodes : List α)

/-- `while stack: x = stack.pop()`: peel `x` if it is removable, and count it at its parent, which
is pushed when its last child is peeled. `counts` are the unpeeled children. -/
def peelLoop : Nat → Dict α Int → List α → List α → List α
  | 0, _, _, peeled => peeled
  | _ + 1, _, [], peeled => peeled
  | fuel + 1, counts, x :: stack, peeled =>
    if x ∈ peeled ∨ ok x = false then peelLoop fuel counts stack peeled
    else match parent x with
      | none => peelLoop fuel counts stack (x :: peeled)
      | some p =>
        match counts.get? p with
        | none => peelLoop fuel counts stack (x :: peeled)
        | some k =>
          peelLoop fuel (counts.set p (k - 1)) (if k - 1 = 0 then p :: stack else stack)
            (x :: peeled)

/-- The children among the nodes. -/
def ChildOf (c x : α) : Prop := c ∈ nodes ∧ parent c = some x

/-- The number of children of `x` not peeled yet. -/
def unpeeled (peeled : List α) (x : α) : Nat :=
  nodes.countP fun c => decide (parent c = some x ∧ c ∉ peeled)

/-- The number of nodes with a child not peeled yet. -/
def waitingNodes (peeled : List α) : Nat :=
  nodes.countP fun x => decide (unpeeled parent nodes peeled x ≠ 0)

variable {parent ok nodes}

theorem unpeeled_eq_zero {peeled : List α} {x : α} :
    unpeeled parent nodes peeled x = 0 ↔ ∀ c, ChildOf parent nodes c x → c ∈ peeled := by
  unfold unpeeled ChildOf
  rw [List.countP_eq_zero]
  constructor
  · intro h c hc
    have := h c hc.1
    simp only [decide_eq_true_eq] at this
    by_contra hcp
    exact this ⟨hc.2, hcp⟩
  · intro h c hc
    simp only [decide_eq_true_eq, not_and, not_not]
    exact fun hp => h c ⟨hc, hp⟩

theorem unpeeled_cons_of_ne {peeled : List α} {x q : α} (hq : parent x ≠ some q) :
    unpeeled parent nodes (x :: peeled) q = unpeeled parent nodes peeled q := by
  unfold unpeeled
  apply List.countP_congr
  intro c _
  by_cases hcx : c = x
  · subst c
    simp [hq]
  · simp [hcx]

theorem unpeeled_cons_parent {peeled : List α} {x p : α} (hnodup : nodes.Nodup) (hx : x ∈ nodes)
    (hpeeled : x ∉ peeled) (hp : parent x = some p) :
    unpeeled parent nodes peeled p = unpeeled parent nodes (x :: peeled) p + 1 := by
  have perm := List.perm_cons_erase hx
  have hrest : x ∉ nodes.erase x := hnodup.not_mem_erase
  unfold unpeeled
  rw [perm.countP_eq, perm.countP_eq, List.countP_cons_of_pos (by simp [hp, hpeeled]),
    List.countP_cons_of_neg (by simp), List.countP_congr]
  intro c hc
  have hcx : c ≠ x := fun h => hrest (h ▸ hc)
  simp [hcx]

/-- Peeling the last child of `p` takes one node out of the waiting ones. -/
theorem waitingNodes_cons_last {peeled : List α} {x p : α} (hnodup : nodes.Nodup)
    (hp : p ∈ nodes) (hparent : parent x = some p)
    (hbefore : unpeeled parent nodes peeled p ≠ 0)
    (hafter : unpeeled parent nodes (x :: peeled) p = 0) :
    waitingNodes parent nodes peeled = waitingNodes parent nodes (x :: peeled) + 1 := by
  have perm := List.perm_cons_erase hp
  have hrest : p ∉ nodes.erase p := hnodup.not_mem_erase
  unfold waitingNodes
  rw [perm.countP_eq, perm.countP_eq, List.countP_cons_of_pos (by simp [hbefore]),
    List.countP_cons_of_neg (by simp [hafter]), List.countP_congr]
  intro q hq
  have hne : parent x ≠ some q := fun h => hrest (Option.some.inj (hparent.symm.trans h) ▸ hq)
  rw [unpeeled_cons_of_ne hne]

theorem waitingNodes_cons_le {peeled : List α} {x : α} :
    waitingNodes parent nodes (x :: peeled) ≤ waitingNodes parent nodes peeled := by
  unfold waitingNodes
  apply List.countP_mono_left
  intro q _ hq
  simp only [decide_eq_true_eq] at hq ⊢
  intro hzero
  apply hq
  rw [unpeeled_eq_zero] at hzero ⊢
  exact fun c hc => List.mem_cons_of_mem _ (hzero c hc)

variable (parent ok nodes) in
/-- What the worklist has done so far. -/
structure PeelInv (counts : Dict α Int) (stack peeled : List α) : Prop where
  counted : ∀ x ∈ nodes, counts.get? x = some (unpeeled parent nodes peeled x : Int)
  onlyNodes : ∀ x, x ∉ nodes → counts.get? x = none
  stackNodup : stack.Nodup
  stacked : ∀ x ∈ stack, x ∈ nodes ∧ x ∉ peeled ∧ unpeeled parent nodes peeled x = 0
  sound : ∀ x ∈ peeled, x ∈ nodes ∧ Peelable (ChildOf parent nodes) (fun y => ok y = true) x
  closed : ∀ x ∈ peeled, unpeeled parent nodes peeled x = 0
  complete : ∀ x ∈ nodes, unpeeled parent nodes peeled x = 0 →
    x ∈ stack ∨ x ∈ peeled ∨ ok x = false

variable {counts : Dict α Int} {stack peeled : List α} {x : α}

theorem unpeeled_cons_eq_zero {q : α} (h : unpeeled parent nodes peeled q = 0) :
    unpeeled parent nodes (x :: peeled) q = 0 := by
  rw [unpeeled_eq_zero] at h ⊢
  exact fun c hc => List.mem_cons_of_mem _ (h c hc)

theorem PeelInv.skip (h : PeelInv parent ok nodes counts (x :: stack)
    peeled) (hx : ok x = false) :
    PeelInv parent ok nodes counts stack peeled :=
  { h with
    stackNodup := h.stackNodup.of_cons
    stacked := fun y hy => h.stacked y (List.mem_cons_of_mem _ hy)
    complete := fun y hy hzero => by
      rcases h.complete y hy hzero with hmem | hpeeled | hok
      · rcases List.mem_cons.mp hmem with rfl | hmem
        · exact Or.inr (Or.inr hx)
        · exact Or.inl hmem
      · exact Or.inr (Or.inl hpeeled)
      · exact Or.inr (Or.inr hok) }

/-- The element on top of the stack is peelable when it is removable: its children are peeled. -/
theorem PeelInv.top_peelable
    (h : PeelInv parent ok nodes counts (x :: stack) peeled)
    (hx : ok x = true) : Peelable (ChildOf parent nodes) (fun y => ok y = true) x := by
  obtain ⟨_, _, hzero⟩ := h.stacked x List.mem_cons_self
  exact .peel hx fun c hc => (h.sound c (unpeeled_eq_zero.mp hzero c hc)).2

/-- What peeling `x` leaves true whatever its parent is. -/
theorem PeelInv.peel_sound
    (h : PeelInv parent ok nodes counts (x :: stack) peeled)
    (hx : ok x = true) : ∀ y ∈ x :: peeled,
      (y ∈ nodes ∧ Peelable (ChildOf parent nodes) (fun y => ok y = true) y) ∧
        unpeeled parent nodes (x :: peeled) y = 0 := by
  intro y hy
  obtain ⟨hnode, _, hzero⟩ := h.stacked x List.mem_cons_self
  rcases List.mem_cons.mp hy with rfl | hy
  · exact ⟨⟨hnode, h.top_peelable hx⟩, unpeeled_cons_eq_zero hzero⟩
  · exact ⟨h.sound y hy, unpeeled_cons_eq_zero (h.closed y hy)⟩

theorem PeelInv.stacked_tail
    (h : PeelInv parent ok nodes counts (x :: stack) peeled) :
    ∀ y ∈ stack, y ∈ nodes ∧ y ∉ x :: peeled ∧ unpeeled parent nodes (x :: peeled) y = 0 := by
  intro y hy
  obtain ⟨hnode, hpeeled, hzero⟩ := h.stacked y (List.mem_cons_of_mem _ hy)
  have hne : y ≠ x := fun e => (List.nodup_cons.mp h.stackNodup).1 (e ▸ hy)
  exact ⟨hnode, by simp [hne, hpeeled], unpeeled_cons_eq_zero hzero⟩

/-- A node whose count did not change is found as before. -/
theorem PeelInv.complete_tail
    (h : PeelInv parent ok nodes counts (x :: stack) peeled)
    {y : α} (hy : y ∈ nodes) (hzero : unpeeled parent nodes peeled y = 0) :
    y ∈ stack ∨ y ∈ x :: peeled ∨ ok y = false := by
  rcases h.complete y hy hzero with hmem | hpeeled | hok
  · rcases List.mem_cons.mp hmem with rfl | hmem
    · exact Or.inr (Or.inl List.mem_cons_self)
    · exact Or.inl hmem
  · exact Or.inr (Or.inl (List.mem_cons_of_mem _ hpeeled))
  · exact Or.inr (Or.inr hok)

/-- Peeling an element without a counted parent. -/
theorem PeelInv.peel_root
    (h : PeelInv parent ok nodes counts (x :: stack) peeled)
    (hx : ok x = true) (hroot : ∀ p ∈ nodes, parent x ≠ some p) :
    PeelInv parent ok nodes counts stack (x :: peeled) where
  counted y hy := by rw [h.counted y hy, unpeeled_cons_of_ne (hroot y hy)]
  onlyNodes := h.onlyNodes
  stackNodup := h.stackNodup.of_cons
  stacked := h.stacked_tail
  sound y hy := (h.peel_sound hx y hy).1
  closed y hy := (h.peel_sound hx y hy).2
  complete y hy hzero := h.complete_tail hy (by rwa [unpeeled_cons_of_ne (hroot y hy)] at hzero)

/-- Peeling an element with a counted parent, which is pushed when this was its last child. -/
theorem PeelInv.peel_child {p : α} {k : Int} (hnodup : nodes.Nodup)
    (h : PeelInv parent ok nodes counts (x :: stack) peeled)
    (hx : ok x = true) (hparent : parent x = some p) (hk : counts.get? p = some k) :
    PeelInv parent ok nodes (counts.set p (k - 1))
      (if k - 1 = 0 then p :: stack else stack) (x :: peeled) := by
  obtain ⟨hnode, hpeeled, _⟩ := h.stacked x List.mem_cons_self
  have hp : p ∈ nodes := by
    by_contra hp
    rw [h.onlyNodes p hp] at hk
    cases hk
  have hcount : k = unpeeled parent nodes peeled p :=
    Option.some.inj (hk.symm.trans (h.counted p hp))
  have hdrop := unpeeled_cons_parent hnodup hnode hpeeled hparent
  have hother : ∀ y, y ≠ p → unpeeled parent nodes (x :: peeled) y = unpeeled parent nodes peeled y :=
    fun y hy => unpeeled_cons_of_ne fun e => hy (Option.some.inj (e.symm.trans hparent))
  -- `p` waits for `x`, so it is neither queued nor peeled yet
  have hpstack : p ∉ stack := fun hmem => by
    have := (h.stacked p (List.mem_cons_of_mem _ hmem)).2.2
    omega
  have hppeeled : p ∉ x :: peeled := by
    intro hmem
    rcases List.mem_cons.mp hmem with rfl | hmem
    · have := (h.stacked p List.mem_cons_self).2.2
      omega
    · have := h.closed p hmem
      omega
  constructor
  · intro y hy
    rw [Dict.get?_set]
    by_cases hyp : y = p
    · subst y
      rw [if_pos rfl]
      congr 1
      omega
    · rw [if_neg hyp, h.counted y hy, hother y hyp]
  · intro y hy
    rw [Dict.get?_set, if_neg fun e : y = p => hy (e ▸ hp)]
    exact h.onlyNodes y hy
  · split
    · exact List.nodup_cons.mpr ⟨hpstack, h.stackNodup.of_cons⟩
    · exact h.stackNodup.of_cons
  · intro y hy
    split at hy
    · rcases List.mem_cons.mp hy with rfl | hy
      · exact ⟨hp, hppeeled, by omega⟩
      · exact h.stacked_tail y hy
    · exact h.stacked_tail y hy
  · exact fun y hy => (h.peel_sound hx y hy).1
  · exact fun y hy => (h.peel_sound hx y hy).2
  · intro y hy hzero
    by_cases hyp : y = p
    · subst y
      rw [if_pos (by omega)]
      exact Or.inl List.mem_cons_self
    · rw [hother y hyp] at hzero
      rcases h.complete_tail hy hzero with hmem | hrest
      · exact Or.inl (by split <;> simp [hmem])
      · exact Or.inr hrest

/-- The loop from any point: with fuel for the queued and the waiting nodes it peels exactly the
peelable nodes. -/
theorem PeelInv.mem_peelLoop (hnodup : nodes.Nodup) : ∀ (fuel : Nat) {counts : Dict α Int}
    {stack peeled : List α},
    PeelInv parent ok nodes counts stack peeled →
    stack.length + waitingNodes parent nodes peeled ≤ fuel → ∀ y,
    (y ∈ peelLoop parent ok fuel counts stack peeled ↔
      y ∈ nodes ∧ Peelable (ChildOf parent nodes) (fun z => ok z = true) y)
  | fuel, counts, [], peeled, h, _, y => by
    have hloop : peelLoop parent ok fuel counts [] peeled = peeled := by cases fuel <;> rfl
    rw [hloop]
    constructor
    · exact h.sound y
    · rintro ⟨hy, hpeel⟩
      -- the stack is empty: a node is peeled once its children are, by induction on peelability
      induction hpeel with
      | @peel z self below ih =>
        have hzero : unpeeled parent nodes peeled z = 0 :=
          unpeeled_eq_zero.mpr fun c hc => ih c hc hc.1
        rcases h.complete z hy hzero with hmem | hpeeled | hok
        · cases hmem
        · exact hpeeled
        · rw [hok] at self
          cases self
  | 0, _, _ :: _, _, _, hfuel, _ => by simp at hfuel
  | fuel + 1, counts, x :: stack, peeled, h, hfuel, y => by
    obtain ⟨hnode, hpeeled, hzero⟩ := h.stacked x List.mem_cons_self
    simp only [List.length_cons] at hfuel
    by_cases hok : ok x = false
    · rw [peelLoop, if_pos (Or.inr hok)]
      exact PeelInv.mem_peelLoop hnodup fuel (h.skip hok) (by omega) y
    · have hx : ok x = true := by simpa using hok
      have hwait : waitingNodes parent nodes (x :: peeled) ≤ waitingNodes parent nodes peeled :=
        waitingNodes_cons_le
      rw [peelLoop, if_neg (by simp [hpeeled, hx])]
      cases hparent : parent x with
      | none =>
        exact PeelInv.mem_peelLoop hnodup fuel (h.peel_root hx (by simp [hparent])) (by omega) y
      | some p =>
        cases hk : counts.get? p with
        | none =>
          have hroot : ∀ q ∈ nodes, parent x ≠ some q := by
            intro q hq e
            obtain rfl : p = q := Option.some.inj (hparent.symm.trans e)
            rw [h.counted p hq] at hk
            cases hk
          simp only [hk]
          exact PeelInv.mem_peelLoop hnodup fuel (h.peel_root hx hroot) (by omega) y
        | some k =>
          simp only [hk]
          apply PeelInv.mem_peelLoop hnodup fuel (h.peel_child hnodup hx hparent hk)
          have hp : p ∈ nodes := by
            by_contra hp
            rw [h.onlyNodes p hp] at hk
            cases hk
          have hcount : k = unpeeled parent nodes peeled p :=
            Option.some.inj (hk.symm.trans (h.counted p hp))
          have hdrop := unpeeled_cons_parent hnodup hnode hpeeled hparent
          split
          · have hlast : waitingNodes parent nodes peeled =
                waitingNodes parent nodes (x :: peeled) + 1 :=
              waitingNodes_cons_last hnodup hp hparent (by omega) (by omega)
            simp only [List.length_cons]
            omega
          · omega

/-- **The worklist is right**: started on the nodes without children, with the number of children
of each node, it peels exactly the peelable nodes. -/
theorem mem_peelLoop (hnodup : nodes.Nodup)
    (hcounts : ∀ x ∈ nodes, counts.get? x = some (unpeeled parent nodes [] x : Int))
    (honly : ∀ x, x ∉ nodes → counts.get? x = none) (hstack : stack.Nodup)
    (hleaves : ∀ x, x ∈ stack ↔ x ∈ nodes ∧ unpeeled parent nodes [] x = 0) (y : α) :
    y ∈ peelLoop parent ok nodes.length counts stack [] ↔
      y ∈ nodes ∧ Peelable (ChildOf parent nodes) (fun z => ok z = true) y := by
  apply PeelInv.mem_peelLoop hnodup
  · exact {
      counted := hcounts
      onlyNodes := honly
      stackNodup := hstack
      stacked := fun x hx => ⟨((hleaves x).mp hx).1, by simp, ((hleaves x).mp hx).2⟩
      sound := by simp
      closed := by simp
      complete := fun x hx hzero => Or.inl ((hleaves x).mpr ⟨hx, hzero⟩) }
  · have hperm : stack.Perm (nodes.filter fun x => decide (unpeeled parent nodes [] x = 0)) := by
      rw [List.perm_ext_iff_of_nodup hstack (hnodup.filter _)]
      intro x
      simp [hleaves]
    have hlen := List.length_eq_countP_add_countP
      (fun x => decide (unpeeled parent nodes [] x = 0)) (l := nodes)
    have hsame : nodes.countP (fun x => decide (unpeeled parent nodes [] x ≠ 0)) =
        nodes.countP (fun x => ¬ decide (unpeeled parent nodes [] x = 0) = true) := by
      congr
      funext x
      simp
    rw [hperm.length_eq, ← List.countP_eq_length_filter]
    unfold waitingNodes
    omega

end Worklist

end SparseVllm.Lib
