import Mathlib.Data.List.Nodup
import Mathlib.Data.List.Perm.Basic
import Mathlib.Data.List.Range

/-!
# Logs of numbered things

A log of marks says what happens to things numbered `0, 1, 2, …`: one is opened, something happens
inside it, it is closed. `Bracketed` is the discipline that holds while the log grows: the things are
opened in order, and nothing happens to a thing that is not open. Once all are closed, each is closed
once and everything lies between.
-/

namespace SparseVllm.Lib

/-- What an entry of a log does to a numbered thing. -/
inductive Mark where
  | opens (i : Nat)
  | inside (i : Nat)
  | closes (i : Nat)
  deriving DecidableEq, Repr

namespace Mark

def opened? : Mark → Option Nat
  | opens i => some i
  | _ => none

def closed? : Mark → Option Nat
  | closes i => some i
  | _ => none

/-- The things a log opens, in order. -/
def opened (log : List Mark) : List Nat := log.filterMap opened?

/-- The things a log closes, in order. -/
def closed (log : List Mark) : List Nat := log.filterMap closed?

variable {log log' before after : List Mark} {mark : Mark} {i : Nat}

@[simp] theorem opened_append : opened (log ++ log') = opened log ++ opened log' :=
  List.filterMap_append

@[simp] theorem closed_append : closed (log ++ log') = closed log ++ closed log' :=
  List.filterMap_append

/-- Things are opened in order, and nothing happens to a thing that is not open. -/
structure Bracketed (log : List Mark) : Prop where
  inOrder : opened log = List.range (opened log).length
  whileOpen : ∀ before mark after, log = before ++ mark :: after → ∀ i,
    mark = .inside i ∨ mark = .closes i → i ∈ opened before ∧ i ∉ closed before

namespace Bracketed

theorem nil : Bracketed [] := by
  refine ⟨rfl, fun before mark after hsplit => ?_⟩
  cases before <;> cases hsplit

/-- A split of a longer log is one of the log, or is at the new mark. -/
theorem snoc_cases (h : log ++ [mark] = before ++ mark' :: after) :
    (∃ rest, log = before ++ mark' :: rest) ∨ log = before ∧ mark = mark' := by
  rcases List.eq_nil_or_concat after with rfl | ⟨rest, last, rfl⟩
  · have hlast := List.append_inj' h rfl
    exact Or.inr ⟨hlast.1, List.singleton_inj.mp hlast.2⟩
  · rw [List.concat_eq_append, ← List.cons_append, ← List.append_assoc] at h
    exact Or.inl ⟨rest, (List.append_inj' h rfl).1⟩

theorem snoc_opens (h : Bracketed log) : Bracketed (log ++ [.opens (opened log).length]) := by
  refine ⟨?_, fun before mark after hsplit i hmark => ?_⟩
  · rw [opened_append, List.length_append]
    show opened log ++ [(opened log).length] = List.range ((opened log).length + 1)
    rw [List.range_succ, ← h.inOrder]
  · rcases snoc_cases hsplit with ⟨rest, hlog⟩ | ⟨-, rfl⟩
    · exact h.whileOpen before mark rest hlog i hmark
    · rcases hmark with hmark | hmark <;> cases hmark

/-- Something happens to a thing that is open. -/
theorem snoc (h : Bracketed log) (hmark : mark = .inside i ∨ mark = .closes i)
    (hopened : i ∈ opened log) (hclosed : i ∉ closed log) : Bracketed (log ++ [mark]) := by
  have hnone : opened [mark] = [] := by
    rcases hmark with rfl | rfl <;> rfl
  refine ⟨?_, fun before mark' after hsplit j hmark' => ?_⟩
  · rw [opened_append, hnone, List.append_nil]
    exact h.inOrder
  · rcases snoc_cases hsplit with ⟨rest, hlog⟩ | ⟨rfl, rfl⟩
    · exact h.whileOpen before mark' rest hlog j hmark'
    · have hsame : j = i := by
        rcases hmark with rfl | rfl <;> rcases hmark' with hmark' | hmark' <;> cases hmark' <;> rfl
      subst hsame
      exact ⟨hopened, hclosed⟩

theorem opened_inside (h : ∀ mark ∈ log, mark = .inside i) : opened log = [] := by
  unfold opened
  rw [List.filterMap_eq_nil_iff]
  intro mark hmark
  rw [h mark hmark]
  rfl

theorem closed_inside (h : ∀ mark ∈ log, mark = .inside i) : closed log = [] := by
  unfold closed
  rw [List.filterMap_eq_nil_iff]
  intro mark hmark
  rw [h mark hmark]
  rfl

/-- Several things happen to a thing that is open. -/
theorem append_inside (h : Bracketed log) (hinside : ∀ mark ∈ log', mark = .inside i)
    (hopened : i ∈ opened log) (hclosed : i ∉ closed log) : Bracketed (log ++ log') := by
  induction log' using List.reverseRecOn with
  | nil => rwa [List.append_nil]
  | append_singleton log' mark ih =>
    rw [List.forall_mem_append] at hinside
    have hmark := hinside.2 mark (List.mem_singleton_self mark)
    rw [← List.append_assoc]
    refine (ih hinside.1).snoc (Or.inl hmark) ?_ ?_
    · rw [opened_append, opened_inside hinside.1, List.append_nil]
      exact hopened
    · rw [closed_append, closed_inside hinside.1, List.append_nil]
      exact hclosed

/-- A thing is closed at most once. -/
theorem nodup_closed (h : Bracketed log) : (closed log).Nodup := by
  have hprefixed : ∀ rest, Bracketed (log ++ rest) → (closed log).Nodup := by
    clear h
    induction log using List.reverseRecOn with
    | nil => exact fun _ _ => List.nodup_nil
    | append_singleton log mark ih =>
      intro rest h
      rw [List.append_assoc] at h
      rw [closed_append]
      cases mark with
      | closes i =>
        have hnot := (h.whileOpen log (.closes i) rest rfl i (Or.inr rfl)).2
        show (closed log ++ [i]).Nodup
        exact List.nodup_append_comm.mpr (List.nodup_cons.mpr ⟨hnot, ih _ h⟩)
      | opens i => exact (List.append_nil _).symm ▸ ih _ h
      | inside i => exact (List.append_nil _).symm ▸ ih _ h
  exact hprefixed [] (by rwa [List.append_nil])

/-- Only what is open is closed. -/
theorem opened_of_closed (h : Bracketed log) (hi : i ∈ closed log) : i ∈ opened log := by
  obtain ⟨mark, hmem, hmark⟩ := List.mem_filterMap.mp hi
  obtain ⟨before, after, rfl⟩ := List.append_of_mem hmem
  have hcloses : mark = .closes i := by
    cases mark with
    | closes j => rw [Option.some.inj hmark]
    | opens j => cases hmark
    | inside j => cases hmark
  rw [opened_append]
  exact List.mem_append_left _ (h.whileOpen before mark after rfl i (Or.inr hcloses)).1

/-- When all is closed, each thing is closed exactly once. -/
theorem closed_perm (h : Bracketed log) (hall : ∀ i ∈ opened log, i ∈ closed log) :
    (closed log).Perm (opened log) := by
  have hnodup : (opened log).Nodup := by
    rw [h.inOrder]
    exact List.nodup_range
  exact (List.perm_ext_iff_of_nodup h.nodup_closed hnodup).mpr fun i =>
    ⟨h.opened_of_closed, hall i⟩

/-- When all is closed, what happens inside a thing is between its opening and its closing. -/
theorem between (h : Bracketed log) (hall : ∀ i ∈ opened log, i ∈ closed log)
    (hsplit : log = before ++ .inside i :: after) : i ∈ opened before ∧ i ∈ closed after := by
  obtain ⟨hopened, hclosed⟩ := h.whileOpen before (.inside i) after hsplit i (Or.inl rfl)
  refine ⟨hopened, ?_⟩
  have hin := hall i (by
    rw [hsplit, opened_append]
    exact List.mem_append_left _ hopened)
  rw [hsplit, closed_append] at hin
  rcases List.mem_append.mp hin with hin | hin
  · exact absurd hin hclosed
  · exact hin

end Bracketed

end Mark

end SparseVllm.Lib
