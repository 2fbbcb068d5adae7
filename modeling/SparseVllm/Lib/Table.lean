import Mathlib.Data.List.Nodup
import Mathlib.Data.Prod.Basic

/-!
# Vectorised assignments

`assign table cells` is a table after `table[rows, cols] = values`, cell after cell: a later cell
overwrites an earlier one. Its values are known at the cells that are assigned once
(`assign_of_mem`) and outside all of them (`assign_of_notMem`).
-/

namespace SparseVllm.Lib

variable {ι κ α : Type} [DecidableEq ι] [DecidableEq κ]

/-- `table[rows, cols] = values`. -/
def assign (table : ι → κ → α) (cells : List ((ι × κ) × α)) : ι → κ → α :=
  cells.foldl (fun table cell row col => if (row, col) = cell.1 then cell.2 else table row col) table

variable {table : ι → κ → α} {cells : List ((ι × κ) × α)} {row : ι} {col : κ}

@[simp] theorem assign_nil : assign table [] = table := rfl

/-- The other cells stay. -/
theorem assign_of_notMem (h : (row, col) ∉ cells.map Prod.fst) :
    assign table cells row col = table row col := by
  induction cells generalizing table with
  | nil => rfl
  | cons cell cells ih =>
    rw [List.map_cons] at h
    exact (ih (List.not_mem_of_not_mem_cons h)).trans (if_neg (List.ne_of_not_mem_cons h))

/-- A cell assigned once has its value. -/
theorem assign_of_mem (hnd : (cells.map Prod.fst).Nodup) {value : α}
    (h : ((row, col), value) ∈ cells) : assign table cells row col = value := by
  induction cells generalizing table with
  | nil => exact absurd h List.not_mem_nil
  | cons cell cells ih =>
    rw [List.map_cons] at hnd
    obtain ⟨hfresh, hnd⟩ := List.nodup_cons.mp hnd
    rcases List.mem_cons.mp h with rfl | h
    · exact (assign_of_notMem hfresh).trans (if_pos rfl)
    · exact ih hnd h

/-- One cell. -/
theorem assign_single (cell : ι × κ) (value : α) :
    assign table [(cell, value)] row col =
      if row = cell.1 ∧ col = cell.2 then value else table row col := by
  unfold assign
  simp only [List.foldl_cons, List.foldl_nil, Prod.ext_iff]

/-- An assignment yields `target` when the values are those of `target` and the rest agrees. -/
theorem assign_eq {target : ι → κ → α} (hcells : ∀ cell ∈ cells, target cell.1.1 cell.1.2 = cell.2)
    (hrest : ∀ row col, (row, col) ∉ cells.map Prod.fst → table row col = target row col) :
    assign table cells = target := by
  induction cells generalizing table with
  | nil =>
    funext row col
    exact hrest row col List.not_mem_nil
  | cons cell cells ih =>
    refine ih (fun c hc => hcells c (List.mem_cons_of_mem _ hc)) fun row col hout => ?_
    by_cases hcell : (row, col) = cell.1
    · have hvalue := hcells cell List.mem_cons_self
      rw [← hcell] at hvalue
      exact (if_pos hcell).trans hvalue.symm
    · refine (if_neg hcell).trans (hrest row col fun hin => ?_)
      rcases List.mem_cons.mp hin with heq | hin
      · exact hcell heq
      · exact hout hin

end SparseVllm.Lib
