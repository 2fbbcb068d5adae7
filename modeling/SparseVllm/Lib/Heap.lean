import Mathlib

/-!
# Priority queues

A heap read through `heappop` alone: a list from which the least element is taken.
-/

namespace SparseVllm.Lib

variable {α : Type} [LinearOrder α]

/-- `heapq.heappop`: a least element and the others. -/
def popMin : List α → Option (α × List α)
  | [] => none
  | a :: l =>
    match popMin l with
    | none => some (a, [])
    | some (m, rest) => if a ≤ m then some (a, m :: rest) else some (m, a :: rest)

theorem popMin_eq_none {l : List α} : popMin l = none ↔ l = [] := by
  cases l with
  | nil => simp [popMin]
  | cons a l =>
    unfold popMin
    cases popMin l with
    | none => simp
    | some r => by_cases h : a ≤ r.1 <;> simp [h]

/-- What is popped is an element, the least one, and the rest is kept. -/
theorem popMin_spec {l : List α} {m : α} {rest : List α} (h : popMin l = some (m, rest)) :
    l.Perm (m :: rest) ∧ ∀ x ∈ l, m ≤ x := by
  induction l generalizing m rest with
  | nil => cases h
  | cons a l ih =>
    unfold popMin at h
    cases hl : popMin l with
    | none =>
      rw [hl] at h
      cases h
      rw [popMin_eq_none] at hl
      subst l
      simp
    | some r =>
      obtain ⟨n, others⟩ := r
      rw [hl] at h
      obtain ⟨hperm, hle⟩ := ih hl
      by_cases hcmp : a ≤ n
      · simp only [if_pos hcmp, Option.some.injEq, Prod.mk.injEq] at h
        obtain ⟨rfl, rfl⟩ := h
        refine ⟨hperm.cons a, fun x hx => ?_⟩
        rcases List.mem_cons.mp hx with rfl | hx
        · exact le_refl _
        · exact le_trans hcmp (hle x hx)
      · simp only [if_neg hcmp, Option.some.injEq, Prod.mk.injEq] at h
        obtain ⟨rfl, rfl⟩ := h
        refine ⟨(hperm.cons a).trans (List.Perm.swap _ _ _), fun x hx => ?_⟩
        rcases List.mem_cons.mp hx with rfl | hx
        · exact le_of_lt (not_le.mp hcmp)
        · exact hle x hx

end SparseVllm.Lib
