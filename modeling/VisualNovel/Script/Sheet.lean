import VisualNovel.Binary.Arithmetic

/-!
# Sprite sheets

A sheet is a grid of cells, numbered row by row. `SheetSize.cellIndex` and `SheetSize.cellCoords`
go from column and row to the number and back; `SheetSize.cellRect` is the part of the texture that
a cell covers.
-/

namespace VisualNovel

/-- The columns and rows of a sheet. -/
structure SheetSize where
  columns : UInt32
  rows : UInt32
  deriving DecidableEq, Repr

/-- A part of a texture, whose width and height are one. -/
structure CellRect where
  u : Single
  v : Single
  width : Single
  height : Single
  deriving DecidableEq, Repr

/-- A natural number as a 32-bit one, if it fits. -/
def toUInt32? (n : Nat) : Option UInt32 :=
  if n < UInt32.size then some (.ofNat n) else none

namespace SheetSize

/-- The number of cells; `none` if it does not fit 32 bits. -/
def checkedCellCount (size : SheetSize) : Option UInt32 :=
  toUInt32? (size.columns.toNat * size.rows.toNat)

/-- The number of cells, or the largest 32-bit number if there are more. -/
def cellCount (size : SheetSize) : UInt32 :=
  size.checkedCellCount.getD (.ofNat (UInt32.size - 1))

/-- The number of the cell at a column and row inside the sheet. -/
def cellIndex (size : SheetSize) (column row : UInt32) : Option UInt32 :=
  if size.columns ≤ column ∨ size.rows ≤ row then none
  else toUInt32? (row.toNat * size.columns.toNat + column.toNat)

/-- The column and row of a cell. -/
def cellCoords (size : SheetSize) (cell : UInt32) : Option (UInt32 × UInt32) :=
  if size.columns = 0 ∨ size.cellCount ≤ cell then none
  else some (cell % size.columns, cell / size.columns)

/-- The part of the texture that a cell covers. -/
def cellRect (size : SheetSize) (cell : UInt32) : Option CellRect :=
  (size.cellCoords cell).map fun (column, row) =>
    let width := 1 / Binary.ofNat size.columns.toNat
    let height := 1 / Binary.ofNat size.rows.toNat
    ⟨.ofNat column.toNat * width, .ofNat row.toNat * height, width, height⟩

end SheetSize

end VisualNovel
