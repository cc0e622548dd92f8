import VisualNovel.Script.Sheet

/-!
# Cells of a sheet

A sheet is *usable* if it has cells and their number fits 32 bits. On a usable sheet the number of a
cell and its column and row determine each other (`Usable.cellCoords_eq_some_iff`), and the numbers
are those below the product of columns and rows.

On a larger sheet the number of cells is cut down to the largest number of 32 bits. A cell may still
have that number, but it does not lead back to the cell, while all smaller numbers do
(`cellCoords_inverse_iff`).
-/

namespace VisualNovel

theorem toUInt32?_eq_some_iff {n : Nat} {value : UInt32} :
    toUInt32? n = some value ↔ n = value.toNat := by
  rw [toUInt32?]
  constructor
  · intro h
    split at h
    · next hlt =>
      rw [← Option.some.inj h, UInt32.toNat_ofNat']
      exact (Nat.mod_eq_of_lt hlt).symm
    · exact absurd h nofun
  · rintro rfl
    rw [if_pos value.toNat_lt_size, UInt32.ofNat_toNat]

theorem toUInt32?_eq_none_iff {n : Nat} : toUInt32? n = none ↔ UInt32.size ≤ n := by
  rw [toUInt32?]
  split
  · exact ⟨nofun, fun h => absurd h (by omega)⟩
  · exact ⟨fun _ => by omega, fun _ => rfl⟩

namespace SheetSize

/-- The number of cells, which may be more than fit 32 bits. -/
def area (size : SheetSize) : Nat := size.columns.toNat * size.rows.toNat

/-- The sheet has cells, and their number fits 32 bits. -/
structure Usable (size : SheetSize) : Prop where
  columns_pos : 0 < size.columns.toNat
  rows_pos : 0 < size.rows.toNat
  area_lt : size.area < UInt32.size

theorem checkedCellCount_eq_none_iff {size : SheetSize} :
    size.checkedCellCount = none ↔ UInt32.size ≤ size.area := by
  rw [checkedCellCount, toUInt32?_eq_none_iff, area]

/-- What is refused of a sheet is just that it is not usable. -/
theorem usable_iff {size : SheetSize} :
    size.Usable ↔
      ¬(size.columns = 0 ∨ size.rows = 0) ∧ size.checkedCellCount ≠ none := by
  rw [Ne, checkedCellCount_eq_none_iff]
  simp only [← UInt32.toNat_inj, UInt32.toNat_zero]
  constructor
  · intro h
    have hcolumns := h.columns_pos
    have hrows := h.rows_pos
    have harea := h.area_lt
    omega
  · rintro ⟨hpos, harea⟩
    exact ⟨by omega, by omega, by omega⟩

/-- A cell inside the sheet has a number if its number fits 32 bits. -/
theorem cellIndex_eq_some_iff {size : SheetSize} {column row cell : UInt32} :
    size.cellIndex column row = some cell ↔
      column < size.columns ∧ row < size.rows ∧
        row.toNat * size.columns.toNat + column.toNat = cell.toNat := by
  rw [cellIndex]
  split
  · next h =>
    simp only [UInt32.le_iff_toNat_le] at h
    simp only [UInt32.lt_iff_toNat_lt]
    exact ⟨nofun, fun hcell => by omega⟩
  · next h =>
    simp only [UInt32.le_iff_toNat_le] at h
    simp only [UInt32.lt_iff_toNat_lt, toUInt32?_eq_some_iff]
    exact ⟨fun hcell => ⟨by omega, by omega, hcell⟩, fun hcell => hcell.2.2⟩

/-- Counted row by row, a cell inside the sheet comes before the end of the last row. -/
theorem number_lt_area {size : SheetSize} {column row : UInt32} (hcolumn : column < size.columns)
    (hrow : row < size.rows) : row.toNat * size.columns.toNat + column.toNat < size.area := by
  rw [UInt32.lt_iff_toNat_lt] at hcolumn hrow
  -- the end of the cell's row is still on the sheet
  have hnext : (row.toNat + 1) * size.columns.toNat ≤ size.rows.toNat * size.columns.toNat :=
    Nat.mul_le_mul_right _ hrow
  rw [Nat.succ_mul] at hnext
  rw [area, Nat.mul_comm size.columns.toNat]
  omega

/-- Cells inside a sheet are numbered below the number of its cells. -/
theorem cellIndex_lt_area {size : SheetSize} {column row cell : UInt32}
    (h : size.cellIndex column row = some cell) : cell.toNat < size.area := by
  obtain ⟨hcolumn, hrow, hcell⟩ := cellIndex_eq_some_iff.mp h
  exact hcell ▸ number_lt_area hcolumn hrow

/-- Each number below the product of columns and rows is that of a cell inside the sheet. -/
theorem cellIndex_mod_div {size : SheetSize} {cell : UInt32} (hcell : cell.toNat < size.area) :
    size.cellIndex (cell % size.columns) (cell / size.columns) = some cell := by
  have hcolumns : 0 < size.columns.toNat := Nat.pos_of_mul_pos_right (Nat.zero_lt_of_lt hcell)
  rw [cellIndex_eq_some_iff, UInt32.lt_iff_toNat_lt, UInt32.lt_iff_toNat_lt, UInt32.toNat_mod,
    UInt32.toNat_div]
  refine ⟨Nat.mod_lt _ hcolumns, ?_, ?_⟩
  · rw [Nat.div_lt_iff_lt_mul hcolumns, Nat.mul_comm]
    exact hcell
  · rw [Nat.mul_comm]
    exact Nat.div_add_mod _ _

/-- No other cell has that number. -/
theorem mod_div_of_cellIndex {size : SheetSize} {column row cell : UInt32}
    (h : size.cellIndex column row = some cell) :
    cell % size.columns = column ∧ cell / size.columns = row := by
  obtain ⟨hcolumn, -, hcell⟩ := cellIndex_eq_some_iff.mp h
  rw [UInt32.lt_iff_toNat_lt] at hcolumn
  rw [← UInt32.toNat_inj, ← UInt32.toNat_inj, UInt32.toNat_mod, UInt32.toNat_div, ← hcell]
  refine ⟨?_, ?_⟩
  · rw [Nat.mul_comm, Nat.mul_add_mod, Nat.mod_eq_of_lt hcolumn]
  · rw [Nat.mul_comm, Nat.mul_add_div (Nat.zero_lt_of_lt hcolumn), Nat.div_eq_of_lt hcolumn,
      Nat.add_zero]

/-- Whether a number is below the number of cells, as far as 32 bits can tell: the largest number
never is. -/
theorem lt_cellCount_iff {size : SheetSize} {cell : UInt32} :
    cell < size.cellCount ↔ cell.toNat < size.area ∧ cell.toNat + 1 < UInt32.size := by
  have hcell := cell.toNat_lt_size
  rw [UInt32.lt_iff_toNat_lt, cellCount]
  cases hchecked : size.checkedCellCount with
  | none =>
    have harea := checkedCellCount_eq_none_iff.mp hchecked
    have hlargest : (UInt32.ofNat (UInt32.size - 1)).toNat = UInt32.size - 1 := rfl
    rw [Option.getD_none, hlargest]
    omega
  | some count =>
    have harea : size.area = count.toNat := toUInt32?_eq_some_iff.mp hchecked
    have hcount := count.toNat_lt_size
    rw [Option.getD_some, harea]
    omega

/-- A number leads to the cell that has it, if it is below the number of cells. -/
theorem cellCoords_eq_some_iff {size : SheetSize} {column row cell : UInt32} :
    size.cellCoords cell = some (column, row) ↔
      size.cellIndex column row = some cell ∧ cell < size.cellCount := by
  rw [cellCoords]
  constructor
  · intro hcoords
    split at hcoords
    · exact absurd hcoords nofun
    · next hinside =>
      have hcount : cell < size.cellCount := UInt32.not_le.mp (not_or.mp hinside).2
      obtain ⟨rfl, rfl⟩ := Prod.mk.inj (Option.some.inj hcoords)
      exact ⟨cellIndex_mod_div (lt_cellCount_iff.mp hcount).1, hcount⟩
  · rintro ⟨hcell, hcount⟩
    obtain ⟨rfl, rfl⟩ := mod_div_of_cellIndex hcell
    have hcolumns : size.columns ≠ 0 := by
      intro hzero
      have hcolumn := (cellIndex_eq_some_iff.mp hcell).1
      rw [hzero] at hcolumn
      exact UInt32.not_lt_zero hcolumn
    exact if_neg (not_or.mpr ⟨hcolumns, UInt32.not_le.mpr hcount⟩)

namespace Usable

variable {size : SheetSize} (h : size.Usable)
include h

theorem lt_cellCount_iff {cell : UInt32} : cell < size.cellCount ↔ cell.toNat < size.area := by
  have harea := h.area_lt
  rw [SheetSize.lt_cellCount_iff]
  omega

theorem cellCoords_eq (cell : UInt32) :
    size.cellCoords cell =
      if cell.toNat < size.area then some (cell % size.columns, cell / size.columns) else none := by
  by_cases hcell : cell.toNat < size.area
  · rw [if_pos hcell, SheetSize.cellCoords_eq_some_iff]
    exact ⟨cellIndex_mod_div hcell, h.lt_cellCount_iff.mpr hcell⟩
  · rw [if_neg hcell, cellCoords, if_pos]
    exact Or.inr (UInt32.not_lt.mp (mt h.lt_cellCount_iff.mp hcell))

/-- Column and row lead to the number that leads back to them. -/
theorem cellCoords_eq_some_iff {column row cell : UInt32} :
    size.cellCoords cell = some (column, row) ↔ size.cellIndex column row = some cell := by
  rw [SheetSize.cellCoords_eq_some_iff]
  exact and_iff_left_of_imp fun hcell => h.lt_cellCount_iff.mpr (cellIndex_lt_area hcell)

/-- Only cells outside the sheet have no number. -/
theorem cellIndex_eq_none_iff {column row : UInt32} :
    size.cellIndex column row = none ↔ size.columns ≤ column ∨ size.rows ≤ row := by
  rw [cellIndex]
  split
  · next houtside => exact ⟨fun _ => houtside, fun _ => rfl⟩
  · next hinside =>
    refine ⟨fun hnone => ?_, fun houtside => absurd houtside hinside⟩
    rw [not_or, UInt32.not_le, UInt32.not_le] at hinside
    have hnumber := number_lt_area hinside.1 hinside.2
    have harea := h.area_lt
    rw [toUInt32?_eq_none_iff] at hnone
    omega

/-- Each number below the number of cells is that of a column and row. -/
theorem exists_cellIndex {cell : UInt32} (hcell : cell.toNat < size.area) :
    ∃ column row, size.cellCoords cell = some (column, row) ∧
      size.cellIndex column row = some cell :=
  have hindex := cellIndex_mod_div hcell
  ⟨_, _, h.cellCoords_eq_some_iff.mpr hindex, hindex⟩

end Usable

/-! ## Sheets of any size -/

/-- On every sheet a number leads back to the cell that has it, unless it is the largest of 32 bits.
So numbers and cells determine each other just on the sheets whose cells can be counted in 32
bits. -/
theorem cellCoords_inverse_iff (size : SheetSize) :
    (∀ column row cell, size.cellCoords cell = some (column, row) ↔
        size.cellIndex column row = some cell ∧ cell.toNat + 1 < UInt32.size) ∧
      ((∀ column row cell, size.cellIndex column row = some cell ↔
          size.cellCoords cell = some (column, row)) ↔
        size.area < UInt32.size) := by
  have hcoords (column row cell : UInt32) : size.cellCoords cell = some (column, row) ↔
      size.cellIndex column row = some cell ∧ cell.toNat + 1 < UInt32.size := by
    rw [cellCoords_eq_some_iff, lt_cellCount_iff, ← and_assoc]
    exact and_congr_left' (and_iff_left_of_imp cellIndex_lt_area)
  refine ⟨hcoords, ?_, ?_⟩
  · intro hinverse
    apply Nat.lt_of_not_le
    intro hlarge
    -- the largest number of 32 bits is that of a cell, which it does not lead back to
    have hlargest : (UInt32.ofNat (UInt32.size - 1)).toNat + 1 = UInt32.size := rfl
    have hin : (UInt32.ofNat (UInt32.size - 1)).toNat < size.area := by omega
    have hcell := cellIndex_mod_div hin
    have hlost := ((hcoords _ _ _).mp ((hinverse _ _ _).mp hcell)).2
    omega
  · intro harea column row cell
    rw [hcoords]
    refine (and_iff_left_of_imp fun hcell => ?_).symm
    have hlt := cellIndex_lt_area hcell
    omega

/-- The last cell of a sheet of 65536 columns and rows has a number that does not lead back to
it. -/
theorem last_cell_unreached :
    ¬((⟨65536, 65536⟩ : SheetSize).cellIndex 65535 65535 = some 4294967295 ↔
      (⟨65536, 65536⟩ : SheetSize).cellCoords 4294967295 = some (65535, 65535)) := by
  decide +kernel

end SheetSize

end VisualNovel
