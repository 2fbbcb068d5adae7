import Mathlib.Data.List.Induction
import SparseVllm.Lib.Dict
import SparseVllm.Prefix.RadixForest

/-!
# The plain parent relation

What a radix tree stands for: which block ids are present and the parent recorded for each, `none`
for a root. A path is a list of ids that starts at a root and in which each id is the parent of the
next.

## Results

* `RootPath.unique`, `RootPath.nodup`: an id ends one path at most, and a path repeats no id.
* `Rooted`: every id present ends a path. Adding a chain below an id and removing an id without
  children keep it.
-/

namespace SparseVllm

open SparseVllm.Lib RadixForest

/-- The parent recorded for each id present. -/
abbrev ParentRelation (B : Type) := Dict B (Option B)

namespace ParentRelation

variable {B : Type} [DecidableEq B] {par : ParentRelation B} {x y p : B} {q : Option B}
  {l m seg : List B}

/-- The id is in the tree. -/
def Present (par : ParentRelation B) (x : B) : Prop := ∃ q, par.get? x = some q

/-- The ids of `l`, each the parent of the next, with `above` over the first. -/
def Chain (par : ParentRelation B) (above : Option B) (l : List B) : Prop :=
  ∀ e ∈ chainEdges above l, par.get? e.1 = some e.2

/-- A path from a root. -/
def RootPath (par : ParentRelation B) (l : List B) : Prop := par.Chain none l

/-- Every id present ends a path from a root. -/
def Rooted (par : ParentRelation B) : Prop := ∀ x, par.Present x → ∃ l, par.RootPath (l ++ [x])

/-- A parent is present. -/
def Closed (par : ParentRelation B) : Prop :=
  ∀ x p, par.get? x = some (some p) → par.Present p

/-- Record the ids of `l`, each below the one before it and the first below `above`. -/
def addChain (par : ParentRelation B) (above : Option B) (l : List B) : ParentRelation B :=
  (chainEdges above l).foldl (fun d e => d.set e.1 e.2) par

/-- What `insert_child` records. -/
def insertChild (par : ParentRelation B) (parent : Option B) (x : B) : ParentRelation B :=
  match par.get? x, parent with
  | some _, _ => par
  | none, none => par.set x none
  | none, some p =>
    match par.get? p with
    | some _ => par.set x (some p)
    | none => par

/-- The longest part of a path that is recorded, from `above` on, and the rest of it. -/
def recorded (par : ParentRelation B) : List B → List B × List B
  | [] => ([], [])
  | x :: rest =>
    match par.get? x with
    | some _ => (x :: (recorded par rest).1, (recorded par rest).2)
    | none => ([], x :: rest)

/-- What `insert` records: the ids that are not there yet, below those that are. -/
def insertPath (par : ParentRelation B) (ids : List B) : ParentRelation B :=
  par.addChain (lastId none (par.recorded ids).1) (par.recorded ids).2

/-- What `remove_block` records. -/
def removeBlock (par : ParentRelation B) (x : B) : ParentRelation B :=
  if par.values.contains (some x) then par else par.pop x

/-- A path that agrees with what is recorded. -/
def Consistent (par : ParentRelation B) (ids : List B) : Prop :=
  ids.Nodup ∧ ∀ e ∈ chainEdges none ids, ∀ q, par.get? e.1 = some q → q = e.2

/-! ## Paths -/

theorem chain_append {above : Option B} :
    par.Chain above (l ++ m) ↔ par.Chain above l ∧ par.Chain (lastId above l) m := by
  unfold Chain
  rw [chainEdges_append]
  simp only [List.mem_append]
  constructor
  · exact fun h => ⟨fun e he => h e (Or.inl he), fun e he => h e (Or.inr he)⟩
  · rintro ⟨hl, hm⟩ e (he | he)
    · exact hl e he
    · exact hm e he

theorem chain_cons {above : Option B} :
    par.Chain above (x :: l) ↔ par.get? x = some above ∧ par.Chain (some x) l := by
  simp [Chain, chainEdges]

omit [DecidableEq B] in
theorem mem_of_edge {above : Option B} (h : (x, q) ∈ chainEdges above l) : x ∈ l := by
  rw [← chainEdges_fst above l]
  exact List.mem_map.mpr ⟨_, h, rfl⟩

omit [DecidableEq B] in
/-- Below an id no id is a root. -/
theorem not_root_edge {above : B} : (x, none) ∉ chainEdges (some above) l := by
  induction l generalizing above with
  | nil => exact List.not_mem_nil
  | cons a l ih =>
    intro h
    rcases List.mem_cons.mp h with h | h
    · cases congrArg Prod.snd h
    · exact ih h

@[simp] theorem chain_nil {above : Option B} : par.Chain above [] := by simp [Chain, chainEdges]

theorem rootPath_concat :
    par.RootPath (l ++ [x]) ↔ par.RootPath l ∧ par.get? x = some (lastId none l) := by
  unfold RootPath
  rw [chain_append, chain_cons]
  simp

theorem RootPath.left (h : par.RootPath (l ++ m)) : par.RootPath l := (chain_append.mp h).1

/-- An id ends one path at most. -/
theorem RootPath.unique (hl : par.RootPath (l ++ [x])) (hm : par.RootPath (m ++ [x])) : l = m := by
  induction l using List.reverseRecOn generalizing m x with
  | nil =>
    have hx := (rootPath_concat.mp hl).2.symm.trans (rootPath_concat.mp hm).2
    rcases List.eq_nil_or_concat' m with rfl | ⟨m, y, rfl⟩
    · rfl
    · simp [lastId] at hx
  | append_singleton l y ih =>
    have hx := (rootPath_concat.mp hl).2.symm.trans (rootPath_concat.mp hm).2
    rw [lastId_concat] at hx
    rcases List.eq_nil_or_concat' m with rfl | ⟨m, z, rfl⟩
    · simp [lastId] at hx
    · rw [lastId_concat] at hx
      obtain rfl : y = z := by simpa using hx
      rw [ih hl.left hm.left]

theorem RootPath.nodup (h : par.RootPath l) : l.Nodup := by
  induction l using List.reverseRecOn with
  | nil => exact List.nodup_nil
  | append_singleton l x ih =>
    rw [List.nodup_append]
    refine ⟨ih h.left, List.nodup_singleton x, fun y hy z hz hyz => ?_⟩
    obtain rfl : y = x := hyz.trans (List.mem_singleton.mp hz)
    obtain ⟨k, r, rfl⟩ := List.append_of_mem hy
    have hk : par.RootPath (k ++ [y]) := by
      have : k ++ y :: r ++ [y] = (k ++ [y]) ++ (r ++ [y]) := by simp
      rw [this] at h
      exact h.left
    have heq := hk.unique h
    simpa using congrArg List.length heq

theorem Chain.present {above : Option B} (h : par.Chain above l) (hx : x ∈ l) : par.Present x := by
  rw [← chainEdges_fst above l] at hx
  obtain ⟨e, he, rfl⟩ := List.mem_map.mp hx
  exact ⟨e.2, h e he⟩

/-- A path that ends where a chain ends is the chain with a path before it. -/
theorem RootPath.split_chain {above : Option B} (h : par.RootPath l) (hseg : par.Chain above seg)
    (hne : seg ≠ []) (hlast : lastId none l = lastId above seg) :
    ∃ k, l = k ++ seg ∧ lastId none k = above := by
  induction seg using List.reverseRecOn generalizing l with
  | nil => exact absurd rfl hne
  | append_singleton seg z ih =>
    rw [lastId_concat] at hlast
    rcases List.eq_nil_or_concat' l with rfl | ⟨l, a, rfl⟩
    · cases hlast
    rw [lastId_concat] at hlast
    obtain rfl := Option.some.inj hlast
    have hz := (rootPath_concat.mp h).2
    obtain ⟨hinit, hchain⟩ := chain_append.mp hseg
    rw [(chain_cons.mp hchain).1] at hz
    rcases List.eq_nil_or_concat' seg with rfl | ⟨seg, b, rfl⟩
    · exact ⟨l, rfl, (Option.some.inj hz).symm⟩
    · obtain ⟨k, rfl, hk⟩ := ih h.left hinit (by simp) (Option.some.inj hz).symm
      exact ⟨k, by simp, hk⟩

/-! ## Ranks -/

/-- An id present has a path as long as its depth. -/
theorem Rooted.exists_rank (h : par.Rooted) :
    ∃ rank : B → Nat, ∀ x p, par.get? x = some (some p) → rank p < rank x := by
  classical
  refine ⟨fun x => if hx : par.Present x then (h x hx).choose.length else 0, fun x p hx => ?_⟩
  have hpresent : par.Present x := ⟨_, hx⟩
  have hpath := (h x hpresent).choose_spec
  dsimp only
  rw [dif_pos hpresent]
  generalize (h x hpresent).choose = l at hpath
  have hlast := (rootPath_concat.mp hpath).2
  rw [hx] at hlast
  rcases List.eq_nil_or_concat' l with rfl | ⟨k, a, rfl⟩
  · cases hlast
  · rw [lastId_concat] at hlast
    obtain rfl := Option.some.inj (Option.some.inj hlast)
    have hp : par.Present p := (chain_append.mp hpath).1.present (by simp)
    rw [dif_pos hp, (h p hp).choose_spec.unique hpath.left]
    simp

theorem Rooted.closed (h : par.Rooted) : par.Closed := by
  intro x p hx
  obtain ⟨l, hl⟩ := h x ⟨_, hx⟩
  obtain ⟨hpath, hlast⟩ := rootPath_concat.mp hl
  rw [hx] at hlast
  rcases List.eq_nil_or_concat' l with rfl | ⟨k, a, rfl⟩
  · cases hlast
  · rw [lastId_concat] at hlast
    obtain rfl := Option.some.inj (Option.some.inj hlast)
    exact Chain.present hpath (by simp)

/-! ## Updates -/

theorem get?_addChain {above : Option B} (hseg : seg.Nodup) :
    (par.addChain above seg).get? x = some q ↔
      (x, q) ∈ chainEdges above seg ∨ x ∉ seg ∧ par.get? x = some q := by
  unfold addChain
  induction seg generalizing par above with
  | nil => simp [chainEdges]
  | cons a seg ih =>
    obtain ⟨ha, hseg⟩ := List.nodup_cons.mp hseg
    rw [chainEdges, List.foldl_cons, ih hseg, Dict.get?_set]
    simp only [List.mem_cons, Prod.mk.injEq, not_or]
    by_cases hx : x = a
    · subst hx
      simp only [if_true, Option.some.injEq, true_and, not_true_eq_false, false_and, or_false]
      constructor
      · rintro (h | ⟨_, h⟩)
        · exact absurd (mem_of_edge h) ha
        · exact Or.inl h.symm
      · rintro (h | h)
        · exact Or.inr ⟨ha, h.symm⟩
        · exact Or.inl h
    · simp [hx]

theorem get?_addChain_of_not_mem {above : Option B} (hseg : seg.Nodup) (hx : x ∉ seg) :
    (par.addChain above seg).get? x = par.get? x := by
  apply Option.ext
  intro q
  rw [get?_addChain hseg]
  have : (x, q) ∉ chainEdges above seg := fun h => hx (mem_of_edge h)
  simp [this, hx]

theorem chain_addChain {above : Option B} (hseg : seg.Nodup) :
    (par.addChain above seg).Chain above seg :=
  fun _ he => (get?_addChain hseg).mpr (Or.inl he)

/-- A path without the new ids stays one. -/
theorem Chain.addChain {above ctx : Option B} (h : par.Chain ctx l) (hseg : seg.Nodup)
    (hnew : ∀ x ∈ seg, ¬ par.Present x) : (par.addChain above seg).Chain ctx l := by
  intro e he
  have hx : e.1 ∉ seg := fun hmem => hnew _ hmem ⟨_, h e he⟩
  rw [get?_addChain_of_not_mem hseg hx]
  exact h e he

/-- A chain of new ids below a root or an id present keeps every id rooted. -/
theorem Rooted.addChain (h : par.Rooted) {above : Option B} (habove : ∀ p, above = some p → par.Present p)
    (hseg : seg.Nodup) (hnew : ∀ x ∈ seg, ¬ par.Present x) : (par.addChain above seg).Rooted := by
  intro x hx
  by_cases hmem : x ∈ seg
  · obtain ⟨k, r, rfl⟩ := List.append_of_mem hmem
    have hbase : ∃ l, (par.addChain above (k ++ x :: r)).RootPath l ∧ lastId none l = above := by
      cases above with
      | none => exact ⟨[], chain_nil, rfl⟩
      | some p =>
        obtain ⟨l, hl⟩ := h p (habove p rfl)
        exact ⟨l ++ [p], Chain.addChain hl hseg hnew, lastId_concat none l p⟩
    obtain ⟨l, hl, hlast⟩ := hbase
    refine ⟨l ++ k, ?_⟩
    have hchain : (par.addChain above (k ++ x :: r)).Chain above (k ++ [x] ++ r) := by
      rw [← List.append_cons]
      exact chain_addChain hseg
    rw [List.append_assoc]
    exact chain_append.mpr ⟨hl, by rw [hlast]; exact (chain_append.mp hchain).1⟩
  · obtain ⟨q, hq⟩ := hx
    rw [get?_addChain_of_not_mem hseg hmem] at hq
    obtain ⟨l, hl⟩ := h x ⟨q, hq⟩
    exact ⟨l, Chain.addChain hl hseg hnew⟩

/-! ## A path that agrees -/

/-- Below an id that is missing, a path that agrees has no id that is present. -/
theorem missing_below (hclosed : par.Closed) {above : Option B}
    (hagree : ∀ e ∈ chainEdges above (x :: l), ∀ q, par.get? e.1 = some q → q = e.2)
    (hx : ¬ par.Present x) : ∀ y ∈ x :: l, ¬ par.Present y := by
  induction l generalizing x above with
  | nil =>
    intro y hy
    rwa [List.mem_singleton.mp hy]
  | cons a l ih =>
    have ha : ¬ par.Present a := by
      rintro ⟨q, hq⟩
      obtain rfl : q = some x := hagree (a, some x) (by simp [chainEdges]) q hq
      exact hx (hclosed a x hq)
    intro y hy
    rcases List.mem_cons.mp hy with rfl | hy
    · exact hx
    · exact ih (fun e he => hagree e (List.mem_cons_of_mem _ he)) ha y hy

theorem recorded_cons_present (hx : par.Present x) :
    par.recorded (x :: l) = (x :: (par.recorded l).1, (par.recorded l).2) := by
  obtain ⟨q, hq⟩ := hx
  rw [recorded, hq]

theorem recorded_cons_missing (hx : ¬ par.Present x) : par.recorded (x :: l) = ([], x :: l) := by
  rw [recorded]
  cases hget : par.get? x with
  | none => rfl
  | some q => exact absurd ⟨q, hget⟩ hx

theorem recorded_append (hl : ∀ x ∈ l, par.Present x) :
    par.recorded (l ++ m) = (l ++ (par.recorded m).1, (par.recorded m).2) := by
  induction l with
  | nil => rfl
  | cons a l ih =>
    rw [List.cons_append, recorded_cons_present (hl a List.mem_cons_self),
      ih fun x hx => hl x (List.mem_cons_of_mem a hx)]
    rfl

theorem hasChild_iff : par.values.contains (some x) = true ↔ ∃ y, par.get? y = some (some x) := by
  rw [List.contains_iff_mem, Dict.mem_values]

/-- Removing an id without children keeps every other id rooted. -/
theorem Rooted.pop (h : par.Rooted) (hleaf : ∀ y, par.get? y ≠ some (some x)) :
    Rooted (par.pop x) := by
  rintro y ⟨q, hq⟩
  rw [Dict.get?_pop] at hq
  split at hq
  · cases hq
  rename_i hy
  obtain ⟨l, hl⟩ := h y ⟨q, hq⟩
  refine ⟨l, ?_⟩
  intro e he
  rw [Dict.get?_pop, if_neg, hl e he]
  rintro rfl
  have hmem : e.1 ∈ l ++ [y] := mem_of_edge he
  -- an id before the last has the next one below it
  obtain ⟨k, r, hsplit⟩ := List.append_of_mem hmem
  rcases List.eq_nil_or_concat' r with rfl | ⟨r, z, rfl⟩
  · have := congrArg List.getLast? hsplit
    simp at this
    exact hy this
  · cases r with
    | nil =>
      rw [hsplit] at hl
      have := (chain_append.mp hl).2
      simp only [List.nil_append, chain_cons] at this
      exact hleaf z this.2.1
    | cons w r =>
      rw [hsplit] at hl
      have := (chain_append.mp hl).2
      simp only [List.cons_append, chain_cons] at this
      exact hleaf w this.2.1

end ParentRelation

end SparseVllm
