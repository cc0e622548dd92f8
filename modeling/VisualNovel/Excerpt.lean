import VisualNovel.Json.Fault
import VisualNovel.Slice

/-!
# Excerpts

An excerpt shows a place of a text with its surroundings. Its window reaches 160 bytes to either
side, and further where that would cut a character; the mark is counted in bytes of the window. The
window is a slice of the text, and slices can be refused; that of an excerpt never is
(`Excerpt.isSome_of?`).

The place is given as a line and a column and is looked up by counting *characters* of the line, so
in a line of ASCII it is the byte of that column, and elsewhere it lies further to the right.
-/

namespace VisualNovel

/-- A part of a text with a marked byte range. -/
structure Excerpt where
  window : String
  /-- Bytes of the window before the mark. -/
  start : Nat
  /-- Bytes of the mark. -/
  length : Nat
  deriving DecidableEq, Repr

namespace Excerpt

/-- The lines of a text, each with the line break that ends it. -/
def lines : List Char → List (List Char)
  | [] => []
  | c :: rest =>
    if c = '\n' then [c] :: lines rest
    else match lines rest with
      | [] => [[c]]
      | line :: others => (c :: line) :: others

/-- The byte before which the character of a column begins; past the end of a line its last byte. -/
def columnOffset (line : List Char) (column : Nat) : Nat :=
  if column - 1 < line.length then byteCount (line.take (column - 1)) else byteCount line - 1

/-- The byte offset of a place. A place without a column is the start of the text, and one past the
last line its last byte. -/
def offset (text : List Char) (place : Position) : Nat :=
  if place.line = 0 ∨ place.column = 0 then 0
  else
    match (lines text)[place.line - 1]? with
    | some line =>
      byteCount ((lines text).take (place.line - 1)).flatten + columnOffset line place.column
    | none => byteCount text - 1

/-- How far a window reaches to either side of the marked byte. -/
def reach : Nat := 160

/-- The excerpt of a text around a byte, or `none` if its window cannot be cut from the text. -/
def around? (text : List Char) (offset : Nat) : Option Excerpt := do
  let start := boundaryBefore text (offset - reach)
  let stop := boundaryAfter text (min (offset + 1 + reach) (byteCount text))
  let window ← slice? text start stop
  let marked := offset - start
  return ⟨String.ofList window, marked, min 1 (byteCount window - marked)⟩

/-- The excerpt of a text around a place, or `none` if its window cannot be cut from the text. -/
def of? (text : List Char) (place : Position) : Option Excerpt :=
  around? text (offset text place)

/-- The window of an excerpt ends where it begins or later, and it is cut at boundaries. -/
theorem isSome_slice?_window (text : List Char) (offset : Nat) :
    (slice? text (boundaryBefore text (offset - reach))
      (boundaryAfter text (min (offset + 1 + reach) (byteCount text)))).isSome := by
  have hstart := isBoundary_boundaryBefore text (offset - reach)
  have hle_start := boundaryBefore_le text (offset - reach)
  have hstart_le := le_of_isBoundary hstart
  have hle_stop := le_boundaryAfter text (min (offset + 1 + reach) (byteCount text))
  refine isSome_slice?_iff.mpr ⟨?_, hstart, isBoundary_boundaryAfter (Nat.min_le_right _ _)⟩
  omega

/-- The window of an excerpt can always be cut. -/
theorem isSome_of? (text : List Char) (place : Position) : (of? text place).isSome := by
  obtain ⟨window, hwindow⟩ :=
    Option.isSome_iff_exists.mp (isSome_slice?_window text (offset text place))
  rw [of?, around?, hwindow]
  rfl

/-- The excerpt of a text around a place. -/
def of (text : List Char) (place : Position) : Excerpt :=
  (of? text place).get (isSome_of? text place)

end Excerpt

end VisualNovel
