import VisualNovel.Text

/-!
# Blanks, comments and line breaks of TOML

A line break ends a statement, so blanks within a line and line breaks are told apart: `skipBlanks`
stays on the line, `skipLines` goes on to the next thing that is said, and `endLine?` checks that
nothing more is said on a line.
-/

namespace VisualNovel.Toml

/-- A valid reading at the front of a text of `length` characters, of which it takes some. -/
abbrev Reading (α : Type) (length : Nat) := Option (α × Rest length)

/-- A reading of the end of a text is one of the whole text. -/
def Reading.weaken {α : Type} {m n : Nat} (h : m ≤ n) : Reading α m → Reading α n
  | some (a, rest) => some (a, rest.weaken h)
  | none => none

/-! ## Blanks -/

/-- Space and tab. -/
def isBlank (c : Char) : Bool := c = ' ' || c = '\t'

/-- A text without the blanks at its front. -/
def skipBlanks (text : List Char) : List Char := text.dropWhile isBlank

theorem length_skipBlanks_le (text : List Char) : (skipBlanks text).length ≤ text.length :=
  length_dropWhile_le isBlank text

/-- What follows a character found after blanks is shorter than the text. -/
theorem length_lt_of_skipBlanks {text rest : List Char} {c : Char}
    (h : skipBlanks text = c :: rest) : rest.length < text.length := by
  have := length_skipBlanks_le text
  rw [h] at this
  exact this

/-! ## Comments and lines -/

/-- Tabs and everything but control characters may be written in comments and literal strings. -/
def isPlain (c : Char) : Bool := c = '\t' || (32 ≤ c.toNat && c.toNat ≠ 127)

/-- What follows a comment, if one begins here. -/
def skipComment : List Char → List Char
  | '#' :: rest => rest.dropWhile isPlain
  | text => text

theorem length_skipComment_le (text : List Char) : (skipComment text).length ≤ text.length := by
  unfold skipComment
  split
  · exact Nat.le_succ_of_le (length_dropWhile_le _ _)
  · exact Nat.le_refl _

/-- What follows a line break. -/
def lineBreak? (text : List Char) : Option (Rest text.length) :=
  match text with
  | '\n' :: rest => some (.tail rest)
  | '\r' :: '\n' :: rest => some ⟨rest, Nat.lt_succ_of_lt (Nat.lt_succ_self _)⟩
  | _ => none

/-- What follows the end of a line: blanks, a comment, and a line break or the end of the text. -/
def endLine? (text : List Char) : Option { rest : List Char // rest.length ≤ text.length } :=
  have h := Nat.le_trans (length_skipComment_le _) (length_skipBlanks_le text)
  match hrest : skipComment (skipBlanks text) with
  | [] => some ⟨[], Nat.zero_le _⟩
  | c :: rest =>
    (lineBreak? (c :: rest)).map fun ⟨after, hafter⟩ =>
      ⟨after, Nat.le_trans (Nat.le_of_lt hafter) (hrest ▸ h)⟩

/-- What follows blanks, comments and line breaks. -/
def skipLines (text : List Char) : List Char :=
  match h : skipComment (skipBlanks text) with
  | '\n' :: rest =>
    have : rest.length < text.length := by
      have := Nat.le_trans (length_skipComment_le _) (length_skipBlanks_le text)
      rw [h] at this
      exact this
    skipLines rest
  | '\r' :: '\n' :: rest =>
    have : rest.length < text.length := by
      have := Nat.le_trans (length_skipComment_le _) (length_skipBlanks_le text)
      rw [h] at this
      exact Nat.lt_of_succ_lt this
    skipLines rest
  | rest => rest
termination_by text.length

theorem length_skipLines_le (text : List Char) : (skipLines text).length ≤ text.length := by
  have h := Nat.le_trans (length_skipComment_le _) (length_skipBlanks_le text)
  unfold skipLines
  split
  · rename_i rest hrest
    rw [hrest] at h
    have : rest.length < text.length := h
    exact Nat.le_trans (length_skipLines_le rest) (Nat.le_of_lt this)
  · rename_i rest hrest
    rw [hrest] at h
    have : rest.length < text.length := Nat.lt_of_succ_lt h
    exact Nat.le_trans (length_skipLines_le rest) (Nat.le_of_lt this)
  · exact h
termination_by text.length

/-- What follows a character found after blanks and lines is shorter than the text. -/
theorem length_lt_of_skipLines {text rest : List Char} {c : Char}
    (h : skipLines text = c :: rest) : rest.length < text.length := by
  have := length_skipLines_le text
  rw [h] at this
  exact this

end VisualNovel.Toml
