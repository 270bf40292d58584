/-!
Runs of cells in a row of fixed length: reading a run as a list and writing a list over a run.
A write leaves every cell outside its run as it was.
-/

namespace Chip8.Cells

/-- The cells from `start` up to, not including, `stop`. -/
def slice {α : Type} {size : Nat} (cells : Vector α size) (start stop : Nat) : List α :=
  (cells.extract start stop).toList

/-- Writes values into consecutive cells from `start` on; those beyond the end are dropped. -/
def overwrite {α : Type} {size : Nat} : Vector α size → (start : Nat) → List α → Vector α size
  | cells, _, [] => cells
  | cells, start, value :: rest => overwrite (cells.setIfInBounds start value) (start + 1) rest

theorem get_eq_getElem {α : Type} {size : Nat} (cells : Vector α size) (k : Fin size) :
    cells.get k = cells[k.val] :=
  rfl

/-! ### Reading a run -/

theorem slice_self {α : Type} {size : Nat} (cells : Vector α size) (place : Nat) :
    slice cells place place = [] := by
  apply List.eq_nil_of_length_eq_zero
  simp only [slice, Vector.length_toList]
  omega

theorem length_slice {α : Type} {size : Nat} (cells : Vector α size) (start count : Nat)
    (fits : start + count ≤ size) : (slice cells start (start + count)).length = count := by
  simp only [slice, Vector.length_toList]
  omega

theorem slice_succ {α : Type} {size : Nat} (cells : Vector α size) (start count : Nat)
    (fits : start + (count + 1) ≤ size) :
    slice cells start (start + (count + 1)) =
      cells[start] :: slice cells (start + 1) (start + 1 + count) := by
  have inside : start < cells.toList.length := by
    rw [Vector.length_toList]
    omega
  simp only [slice, Vector.toList_extract, Nat.add_sub_cancel_left]
  rw [List.drop_eq_getElem_cons inside, List.take_succ_cons, Vector.getElem_toList]

theorem getElem?_slice {α : Type} {size : Nat} (cells : Vector α size) (start : Nat)
    {count place : Nat} (inside : place < count) :
    (slice cells start (start + count))[place]? = cells[start + place]? := by
  simp [slice, Vector.toList_extract, List.getElem?_drop, inside]

/-! ### Writing a run -/

/-- Inside the run a cell holds the value written there, outside it what it held before. -/
theorem getElem_overwrite {α : Type} {size : Nat} (cells : Vector α size) (start : Nat)
    (values : List α) (k : Nat) (inside : k < size) :
    (overwrite cells start values)[k] =
      if start ≤ k then values.getD (k - start) cells[k] else cells[k] := by
  induction values generalizing cells start with
  | nil => simp [overwrite]
  | cons value rest ih =>
    rw [overwrite, ih]
    by_cases here : k = start
    · subst here
      have beyond : ¬ k + 1 ≤ k := by omega
      simp [beyond]
    · have kept : (cells.setIfInBounds start value)[k] = cells[k] :=
        Vector.getElem_setIfInBounds_ne inside (fun same => here same.symm)
      by_cases later : start + 1 ≤ k
      · have past : k - start = k - (start + 1) + 1 := by omega
        have covered : start ≤ k := by omega
        rw [kept, if_pos later, if_pos covered, past, List.getD_cons_succ]
      · have uncovered : ¬ start ≤ k := by omega
        rw [kept, if_neg later, if_neg uncovered]

/-- A cell that a write changes lies inside its run. -/
theorem inside_of_overwrite_ne {α : Type} {size : Nat} {cells : Vector α size} {start : Nat}
    {values : List α} {k : Fin size}
    (changed : (overwrite cells start values).get k ≠ cells.get k) :
    start ≤ k.val ∧ k.val < start + values.length := by
  simp only [get_eq_getElem, getElem_overwrite] at changed
  split at changed
  next low =>
    refine ⟨low, Nat.lt_of_not_le fun beyond => changed ?_⟩
    have none : values[k.val - start]? = none := List.getElem?_eq_none (by omega)
    rw [List.getD_eq_getElem?_getD, none, Option.getD_none]
  next => exact absurd rfl changed

/-- A run that was written is read back. -/
theorem slice_overwrite {α : Type} {size : Nat} (cells : Vector α size) (start : Nat)
    (values : List α) (fits : start + values.length ≤ size) :
    slice (overwrite cells start values) start (start + values.length) = values := by
  apply List.ext_getElem
  · exact length_slice _ start values.length fits
  · intro place _ held
    have inside : start + place < size := by omega
    rw [List.getElem_eq_iff, getElem?_slice _ start held, Vector.getElem?_eq_getElem inside,
      getElem_overwrite, if_pos (Nat.le_add_right start place), Nat.add_sub_cancel_left,
      List.getD_eq_getElem?_getD, List.getElem?_eq_getElem held, Option.getD_some]

/-- Writing back what a run holds changes nothing. -/
theorem overwrite_slice {α : Type} {size : Nat} (cells : Vector α size) (start count : Nat)
    (fits : start + count ≤ size) :
    overwrite cells start (slice cells start (start + count)) = cells := by
  have length := length_slice cells start count fits
  apply Vector.ext
  intro k inside
  rw [getElem_overwrite]
  split
  next low =>
    have here : start + (k - start) = k := by omega
    rw [List.getD_eq_getElem?_getD]
    by_cases within : k - start < count
    · rw [getElem?_slice _ _ within, here, Vector.getElem?_eq_getElem inside, Option.getD_some]
    · rw [List.getElem?_eq_none (by omega), Option.getD_none]
  next => rfl

end Chip8.Cells
