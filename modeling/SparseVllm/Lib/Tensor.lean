import Mathlib.Tactic.Common
import Mathlib.Tactic.Ring

/-!
# Rank-2 tensors: views and copies

A tensor is a shape and its entries; entries outside the shape mean nothing. `narrow` and `chunk`
are the views of a range of one axis, and `copyRows` writes into such a view, expanding a dimension
of size one.
-/

namespace SparseVllm.Lib

/-- An axis of a rank-2 tensor. -/
inductive Axis where
  | row
  | col
  deriving DecidableEq, Repr

structure Tensor (α : Type) where
  rows : Nat
  cols : Nat
  entry : Nat → Nat → α

inductive TensorError where
  | outOfRange
  | noSuchChunk
  | cannotExpand
  deriving DecidableEq, Repr

/-- The number of blocks of `k` that cover `n`. -/
def ceilDiv (n k : Nat) : Nat := (n + k - 1) / k

namespace Tensor

variable {α β : Type}

def size (axis : Axis) (t : Tensor α) : Nat :=
  match axis with
  | .row => t.rows
  | .col => t.cols

/-- The size across the axis. -/
def across (axis : Axis) (t : Tensor α) : Nat :=
  match axis with
  | .row => t.cols
  | .col => t.rows

/-- The entry at `a` along the axis and `b` across it. -/
def along (axis : Axis) (t : Tensor α) (a b : Nat) : α :=
  match axis with
  | .row => t.entry a b
  | .col => t.entry b a

/-- The range of an axis from `start`, of the given length. -/
def slice (axis : Axis) (start length : Nat) (t : Tensor α) : Tensor α :=
  match axis with
  | .row => { rows := length, cols := t.cols, entry := fun i j => t.entry (start + i) j }
  | .col => { rows := t.rows, cols := length, entry := fun i j => t.entry i (start + j) }

/-- The tensor with these entries along and across the axis. -/
def ofAlong (axis : Axis) (size across : Nat) (f : Nat → Nat → α) : Tensor α :=
  match axis with
  | .row => { rows := size, cols := across, entry := f }
  | .col => { rows := across, cols := size, entry := fun i j => f j i }

/-- `t.narrow(axis, start, length)`. -/
def narrow (axis : Axis) (start length : Nat) (t : Tensor α) : Except TensorError (Tensor α) :=
  if start + length ≤ t.size axis then .ok (t.slice axis start length) else .error .outOfRange

/-- `t.chunk(count, axis)[index]`: chunks of the same size, the last one smaller, and none that is
empty unless the tensor is. -/
def chunk (axis : Axis) (count index : Nat) (t : Tensor α) : Except TensorError (Tensor α) :=
  let size := t.size axis
  let length := ceilDiv size count
  if index * length < size ∨ size = 0 then
    .ok (t.slice axis (index * length) (min length (size - index * length)))
  else .error .noSuchChunk

/-- A dimension of size one is repeated. -/
def expanded (rows cols : Nat) (t : Tensor α) : Tensor α where
  rows := rows
  cols := cols
  entry i j := t.entry (if t.rows = 1 then 0 else i) (if t.cols = 1 then 0 else j)

/-- `t.expand(rows, cols)`. -/
def expand (rows cols : Nat) (t : Tensor α) : Except TensorError (Tensor α) :=
  if (t.rows = rows ∨ t.rows = 1) ∧ (t.cols = cols ∨ t.cols = 1) then .ok (t.expanded rows cols)
  else .error .cannotExpand

/-- The target with the rows from `start` replaced. -/
def written (start : Nat) (source target : Tensor α) : Tensor α :=
  { target with entry := fun i j =>
      if start ≤ i ∧ i < start + source.rows then source.entry (i - start) j
      else target.entry i j }

/-- `target.narrow(0, start, length).copy_(source)`. -/
def copyRows (start length : Nat) (source target : Tensor α) : Except TensorError (Tensor α) := do
  let _ ← target.narrow .row start length
  let source ← source.expand length target.cols
  return source.written start target

/-! ## Ranges -/

theorem slice_size (axis : Axis) (start length : Nat) (t : Tensor α) :
    (t.slice axis start length).size axis = length := by
  cases axis <;> rfl

theorem slice_across (axis : Axis) (start length : Nat) (t : Tensor α) :
    (t.slice axis start length).across axis = t.across axis := by
  cases axis <;> rfl

theorem slice_along (axis : Axis) (start length : Nat) (t : Tensor α) (a b : Nat) :
    (t.slice axis start length).along axis a b = t.along axis (start + a) b := by
  cases axis <;> rfl

theorem ofAlong_size (axis : Axis) (size across : Nat) (f : Nat → Nat → α) :
    (ofAlong axis size across f).size axis = size := by
  cases axis <;> rfl

theorem ofAlong_across (axis : Axis) (size across : Nat) (f : Nat → Nat → α) :
    (ofAlong axis size across f).across axis = across := by
  cases axis <;> rfl

theorem ofAlong_along (axis : Axis) (size across : Nat) (f : Nat → Nat → α) (a b : Nat) :
    (ofAlong axis size across f).along axis a b = f a b := by
  cases axis <;> rfl

/-- The whole axis. -/
theorem slice_self (axis : Axis) (t : Tensor α) : t.slice axis 0 (t.size axis) = t := by
  cases axis with
  | row =>
    unfold slice
    simp only [Nat.zero_add]
    rfl
  | col =>
    unfold slice
    simp only [Nat.zero_add]
    rfl

/-- A tensor that is one of the ranges it splits into is all of it. -/
theorem slice_only {axis : Axis} {count index length : Nat} {t : Tensor α}
    (even : t.size axis = count * length) (only : t.size axis = length) (h : index < count) :
    t.slice axis (index * length) length = t := by
  have hzero : index * length = 0 := by
    rcases Nat.eq_zero_or_pos length with rfl | hpos
    · rfl
    · obtain rfl : count = 1 := by
        rw [only] at even
        exact (Nat.eq_of_mul_eq_mul_right hpos ((Nat.one_mul length).trans even)).symm
      obtain rfl : index = 0 := by omega
      exact Nat.zero_mul length
  rw [hzero, ← only]
  exact t.slice_self axis

theorem narrow_ok {axis : Axis} {start length : Nat} {t : Tensor α}
    (h : start + length ≤ t.size axis) :
    t.narrow axis start length = .ok (t.slice axis start length) := if_pos h

theorem ceilDiv_even {count : Nat} (pos : 0 < count) (length : Nat) :
    ceilDiv (count * length) count = length := by
  unfold ceilDiv
  rw [Nat.add_sub_assoc pos, Nat.mul_add_div pos, Nat.div_eq_of_lt (by omega)]
  rfl

/-- When a chunk exists, and which it is. -/
theorem chunk_eq_ok {axis : Axis} {count index : Nat} {t u : Tensor α} :
    t.chunk axis count index = .ok u ↔
      (index * ceilDiv (t.size axis) count < t.size axis ∨ t.size axis = 0) ∧
        u = t.slice axis (index * ceilDiv (t.size axis) count)
          (min (ceilDiv (t.size axis) count)
            (t.size axis - index * ceilDiv (t.size axis) count)) := by
  unfold chunk
  by_cases hexists : index * ceilDiv (t.size axis) count < t.size axis ∨ t.size axis = 0
  · simp only [if_pos hexists]
    exact ⟨fun h => ⟨hexists, (Except.ok.inj h).symm⟩, fun h => congrArg _ h.2.symm⟩
  · simp only [if_neg hexists]
    exact ⟨nofun, fun h => absurd h.1 hexists⟩

/-- A chunk of an even split exists, and is no smaller than the others. -/
theorem chunk_full {count index length : Nat} (h : index < count) :
    (index * length < count * length ∨ count * length = 0) ∧
      min length (count * length - index * length) = length := by
  have hstop : (index + 1) * length ≤ count * length := Nat.mul_le_mul_right _ h
  rw [Nat.add_mul, Nat.one_mul] at hstop
  refine ⟨?_, Nat.min_eq_left (by omega)⟩
  by_cases hl : length = 0
  · rw [hl, Nat.mul_zero, Nat.mul_zero]
    exact Or.inr rfl
  · exact Or.inl (by omega)

/-- A chunk of an axis that splits evenly. -/
theorem chunk_even {axis : Axis} {count index length : Nat} {t : Tensor α}
    (even : t.size axis = count * length) (h : index < count) :
    t.chunk axis count index = .ok (t.slice axis (index * length) length) := by
  obtain ⟨hexists, hfull⟩ := chunk_full h
  rw [chunk_eq_ok, even, ceilDiv_even (Nat.zero_lt_of_lt h), hfull]
  exact ⟨hexists, rfl⟩

/-! ## Copies -/

/-- The copy replaced the rows of the target from `start` by those of the source. -/
structure Wrote (start : Nat) (source target result : Tensor α) : Prop where
  rows : result.rows = target.rows
  cols : result.cols = target.cols
  entry : ∀ i j, j < target.cols → result.entry i j =
    if start ≤ i ∧ i < start + source.rows then source.entry (i - start) j else target.entry i j

/-- When a copy returns, and what. -/
theorem copyRows_eq_ok {start length : Nat} {source target result : Tensor α} :
    source.copyRows start length target = .ok result ↔
      start + length ≤ target.rows ∧ (source.rows = length ∨ source.rows = 1) ∧
        (source.cols = target.cols ∨ source.cols = 1) ∧
        result = (source.expanded length target.cols).written start target := by
  unfold copyRows narrow expand
  by_cases hroom : start + length ≤ target.size .row
  · rw [if_pos hroom]
    by_cases hfits : (source.rows = length ∨ source.rows = 1) ∧
        (source.cols = target.cols ∨ source.cols = 1)
    · rw [if_pos hfits]
      refine ⟨fun h => ⟨hroom, hfits.1, hfits.2, (Except.ok.inj h).symm⟩, ?_⟩
      rintro ⟨-, -, -, rfl⟩
      rfl
    · rw [if_neg hfits]
      exact ⟨nofun, fun h => absurd ⟨h.2.1, h.2.2.1⟩ hfits⟩
  · rw [if_neg hroom]
    exact ⟨nofun, fun h => absurd h.1 hroom⟩

/-- A copy of a source of the view's shape. -/
theorem wrote_of_copyRows {start length : Nat} {source target result : Tensor α}
    (h : source.copyRows start length target = .ok result) (rows : source.rows = length)
    (cols : source.cols = target.cols) : Wrote start source target result := by
  obtain ⟨-, -, -, rfl⟩ := copyRows_eq_ok.mp h
  subst rows
  refine ⟨rfl, rfl, fun i j hj => ?_⟩
  show (if start ≤ i ∧ i < start + source.rows then source.entry _ _ else _) = _
  by_cases hrow : start ≤ i ∧ i < start + source.rows
  · rw [if_pos hrow, if_pos hrow]
    congr 1
    · split <;> omega
    · split <;> omega
  · rw [if_neg hrow, if_neg hrow]

/-- A copy over the whole target. -/
theorem Wrote.along {source target result : Tensor α} (h : Wrote 0 source target result)
    (cols : source.cols = target.cols) {axis : Axis} {a b : Nat}
    (ha : a < source.size axis) (hb : b < source.across axis) :
    result.along axis a b = source.along axis a b := by
  have hentry : ∀ i j, i < source.rows → j < source.cols → result.entry i j = source.entry i j := by
    intro i j hi hj
    rw [h.entry i j (cols ▸ hj), if_pos ⟨Nat.zero_le i, (Nat.zero_add _).symm ▸ hi⟩]
    rfl
  cases axis with
  | row => exact hentry a b ha hb
  | col => exact hentry b a hb ha

theorem shape_eq_iff (axis : Axis) {t : Tensor α} {u : Tensor β} :
    (t.rows, t.cols) = (u.rows, u.cols) ↔
      t.size axis = u.size axis ∧ t.across axis = u.across axis := by
  cases axis with
  | row => exact Prod.mk_inj
  | col => exact Prod.mk_inj.trans And.comm

theorem copyRows_ok {start length : Nat} {source target : Tensor α}
    (room : start + length ≤ target.rows) (rows : source.rows = length)
    (cols : source.cols = target.cols) :
    ∃ result, source.copyRows start length target = .ok result :=
  ⟨_, copyRows_eq_ok.mpr ⟨room, Or.inl rows, Or.inl cols, rfl⟩⟩

end Tensor

end SparseVllm.Lib
