import Mathlib.Logic.Function.Basic
import Mathlib.Tactic.Common

/-!
# Outcomes of fallible functions

`Yields P E x`: the computation returns a value in `P` or raises an error in `E`. `forRange` is a loop
over independent states; its rule asks for one iteration.
-/

namespace SparseVllm.Lib

variable {ε α β : Type}

/-- The computation returns a value in `P` or raises an error in `E`. -/
def Yields (P : α → Prop) (E : ε → Prop) : Except ε α → Prop
  | .ok a => P a
  | .error e => E e

/-- `for i in range(n)`, over states that the iterations do not share. -/
def forRange (f : Nat → α → Except ε β) (state : Nat → α) (default : Nat → β) :
    Nat → Except ε (Nat → β)
  | 0 => .ok default
  | n + 1 => do
    let done ← forRange f state default n
    let next ← f n (state n)
    return Function.update done n next

theorem bind_eq_ok_iff {x : Except ε α} {f : α → Except ε β} {b : β} :
    (x >>= f) = .ok b ↔ ∃ a, x = .ok a ∧ f a = .ok b := by
  cases x with
  | ok a => simp [bind, Except.bind]
  | error e => simp [bind, Except.bind]

namespace Yields

variable {P Q : α → Prop} {R : β → Prop} {E : ε → Prop}

theorem of_eq {x : Except ε α} {a : α} (h : x = .ok a) (ha : P a) : Yields P E x := by
  rw [h]
  exact ha

theorem bind {x : Except ε α} {f : α → Except ε β} (first : Yields P E x)
    (rest : ∀ a, P a → Yields R E (f a)) : Yields R E (x >>= f) := by
  cases x with
  | ok a => exact rest a first
  | error e => exact first

theorem mono {x : Except ε α} (h : Yields P E x) (weaker : ∀ a, P a → Q a) : Yields Q E x := by
  cases x with
  | ok a => exact weaker a h
  | error e => exact h

theorem ok_of_eq {x : Except ε α} {a : α} (h : Yields P E x) (run : x = .ok a) : P a := by
  rw [run] at h
  exact h

theorem error_of_eq {x : Except ε α} {e : ε} (h : Yields P E x) (run : x = .error e) : E e := by
  rw [run] at h
  exact h

/-- A loop over independent states, by one iteration. -/
theorem forRange {f : Nat → α → Except ε β} {state : Nat → α} {default : Nat → β} {n : Nat}
    {P : Nat → β → Prop} (each : ∀ i < n, Yields (P i) E (f i (state i))) :
    Yields (fun done => (∀ i < n, P i (done i)) ∧ ∀ i, n ≤ i → done i = default i) E
      (Lib.forRange f state default n) := by
  induction n with
  | zero => exact ⟨nofun, fun _ _ => rfl⟩
  | succ n ih =>
    refine bind (ih fun i hi => each i (by omega)) fun done hdone => ?_
    refine bind (each n (by omega)) fun next hnext => ?_
    refine ⟨fun i hi => ?_, fun i hi => ?_⟩
    · by_cases heq : i = n
      · subst heq
        rw [Function.update_self]
        exact hnext
      · rw [Function.update_of_ne heq]
        exact hdone.1 i (by omega)
    · rw [Function.update_of_ne (by omega)]
      exact hdone.2 i (by omega)

end Yields

/-! ## The first of a list -/

/-- An element in `Q` with all elements before it in `P`. -/
def Until (P Q : α → Prop) (l : List α) : Prop :=
  ∃ before a after, l = before ++ a :: after ∧ (∀ b ∈ before, P b) ∧ Q a

theorem until_cons {P Q : α → Prop} {a : α} {l : List α} :
    Until P Q (a :: l) ↔ Q a ∨ P a ∧ Until P Q l := by
  constructor
  · rintro ⟨before, b, after, hsplit, hbefore, hlast⟩
    cases before with
    | nil =>
      obtain ⟨rfl, rfl⟩ := List.cons.inj hsplit
      exact Or.inl hlast
    | cons c before =>
      obtain ⟨rfl, rfl⟩ := List.cons.inj hsplit
      exact Or.inr ⟨hbefore a List.mem_cons_self, before, b, after, rfl,
        fun x hx => hbefore x (List.mem_cons_of_mem a hx), hlast⟩
  · rintro (hfirst | ⟨hfirst, before, b, after, rfl, hbefore, hlast⟩)
    · exact ⟨[], a, l, rfl, nofun, hfirst⟩
    · refine ⟨a :: before, b, after, rfl, fun x hx => ?_, hlast⟩
      rcases List.mem_cons.mp hx with rfl | hx
      · exact hfirst
      · exact hbefore x hx

end SparseVllm.Lib
