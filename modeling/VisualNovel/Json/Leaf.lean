import VisualNovel.Json.Fault
import VisualNovel.Json.Numeral

/-!
# Reading numbers and strings of a JSON text

A reading consumes a part of the text that is not empty, so what it leaves is shorter. There are two
ways to read the leaves of a JSON text:

* `Leaves.strict` understands every number and string, and refuses a number beyond the doubles and
  a surrogate without its partner.
* `Leaves.tolerant` checks only the form, as is enough for a value that is skipped: what strict
  reading refuses for its meaning becomes `none`.
-/

namespace VisualNovel.Json

/-- The outcome of reading something in a text of `length` characters. -/
abbrev Reading (α : Type) (length : Nat) := Except Fault (α × Rest length)

/-- A reading of the end of a text is one of the whole text. -/
def Reading.weaken {α : Type} {m n : Nat} (h : m ≤ n) : Reading α m → Reading α n
  | .ok (a, rest) => .ok (a, rest.weaken h)
  | .error fault => .error fault

/-! ## Blanks -/

/-- Space, tab, line feed and carriage return are blank. -/
def isBlank (c : Char) : Bool := c = ' ' || c = '\t' || c = '\n' || c = '\r'

/-- A text without the blanks at its front. -/
def skipBlanks (text : List Char) : List Char := text.dropWhile isBlank

theorem length_skipBlanks_le (text : List Char) : (skipBlanks text).length ≤ text.length :=
  length_dropWhile_le isBlank text

/-- What follows a character found after blanks is shorter than the text. -/
theorem length_lt_of_skipBlanks {text rest : List Char} {c : Char}
    (h : skipBlanks text = c :: rest) : rest.length < text.length := by
  have := length_skipBlanks_le text
  rw [h] at this
  exact this

/-! ## Numerals -/

/-- At least one digit. -/
def digits (text : List Char) : Reading (List Nat) text.length :=
  match text with
  | [] => .error (.here .endInValue [])
  | c :: rest =>
    if c.isDigit then
      .ok (digitValue c :: (rest.takeWhile Char.isDigit).map digitValue,
        ⟨rest.dropWhile Char.isDigit, Nat.lt_succ_of_le (length_dropWhile_le _ rest)⟩)
    else .error (.here .invalidNumber (c :: rest))

/-- The digits before the point; a zero in front stands alone. -/
def wholeDigits (text : List Char) : Reading (List Nat) text.length :=
  match text with
  | '0' :: c :: rest =>
    if c.isDigit then .error (.here .invalidNumber (c :: rest))
    else .ok ([0], ⟨c :: rest, Nat.lt_succ_self _⟩)
  | text => digits text

/-- The digits after a point, none if there is no point. -/
def fractionDigits {length : Nat} : Rest length → Reading (List Nat) length
  | ⟨'.' :: rest, h⟩ => (digits rest).weaken (Nat.le_of_lt (Nat.lt_of_succ_lt h))
  | rest => .ok ([], rest)

/-- The digits of an exponent after its sign, and whether it is negative. -/
def signedDigits (text : List Char) : Reading (Bool × List Nat) text.length :=
  match text with
  | '+' :: rest => (digits rest).weaken (Nat.le_succ _) |>.map fun (ds, rest) => ((false, ds), rest)
  | '-' :: rest => (digits rest).weaken (Nat.le_succ _) |>.map fun (ds, rest) => ((true, ds), rest)
  | text => (digits text).map fun (ds, rest) => ((false, ds), rest)

/-- The exponent, if there is one. -/
def exponentPart {length : Nat} : Rest length → Reading (Option (Bool × List Nat)) length
  | ⟨[], h⟩ => .ok (none, ⟨[], h⟩)
  | ⟨c :: rest, h⟩ =>
    if c = 'e' ∨ c = 'E' then
      (signedDigits rest).weaken (Nat.le_of_lt (Nat.lt_of_succ_lt h))
        |>.map fun (exponent, rest) => (some exponent, rest)
    else .ok (none, ⟨c :: rest, h⟩)

/-- A numeral without its sign. -/
def unsignedNumeral (negative : Bool) (text : List Char) : Reading Numeral text.length := do
  let (whole, rest) ← wholeDigits text
  let (fraction, rest) ← fractionDigits rest
  let (exponent, rest) ← exponentPart rest
  return (⟨negative, whole, fraction, exponent⟩, rest)

/-- A numeral. -/
def numeral (text : List Char) : Reading Numeral text.length :=
  match text with
  | '-' :: rest => (unsignedNumeral true rest).weaken (Nat.le_succ _)
  | text => unsignedNumeral false text

/-! ## Strings -/

/-- The fault of four bytes that are not all hexadecimal digits, or are not there. -/
def hexFault (text : List Char) : Fault :=
  if byteCount text < 4 then ⟨.endInString, 0⟩ else ⟨.invalidEscape, byteCount text - 4⟩

/-- The four hexadecimal digits of a UTF-16 code unit. -/
def codeUnit (text : List Char) : Reading Nat text.length :=
  match text with
  | a :: b :: c :: d :: rest =>
    match hexValue? a, hexValue? b, hexValue? c, hexValue? d with
    | some a, some b, some c, some d =>
      .ok (((a * 16 + b) * 16 + c) * 16 + d, ⟨rest, by simp only [List.length_cons]; omega⟩)
    | _, _, _, _ => .error (hexFault text)
  | _ => .error (hexFault text)

/-- The second code unit of a surrogate pair, and the character of the pair. -/
def secondUnit {length : Nat} (high : Nat) : Rest length → Reading Char length
  | ⟨'\\' :: 'u' :: rest, h⟩ =>
    match codeUnit rest with
    | .ok (low, ⟨after, hafter⟩) =>
      if 0xDC00 ≤ low ∧ low ≤ 0xDFFF then
        .ok (.ofNat (0x10000 + (high - 0xD800) * 0x400 + (low - 0xDC00)),
          ⟨after, Nat.lt_trans hafter (Nat.lt_of_succ_lt (Nat.lt_of_succ_lt h))⟩)
      else .error (.before .unpairedSurrogate after)
    | .error fault => .error fault
  | ⟨[], _⟩ => .error (.here .endInString [])
  | ⟨'\\' :: [], _⟩ => .error (.here .endInString [])
  | ⟨'\\' :: rest, _⟩ => .error (.here .unfinishedPair rest)
  | ⟨rest, _⟩ => .error (.here .unfinishedPair rest)

/-- The character of an escape after `\u`: one code unit or a surrogate pair. -/
def unicodeEscape (text : List Char) : Reading Char text.length := do
  let (unit, rest) ← codeUnit text
  if 0xDC00 ≤ unit ∧ unit ≤ 0xDFFF then throw (.before .unpairedSurrogate rest.1)
  else if 0xD800 ≤ unit ∧ unit ≤ 0xDBFF then secondUnit unit rest
  else return (.ofNat unit, rest)

/-- `unicodeEscape`, where a surrogate without its partner gives `none`. -/
def tolerantEscape (text : List Char) : Reading (Option Char) text.length :=
  match unicodeEscape text with
  | .ok (c, rest) => .ok (some c, rest)
  | .error _ => (codeUnit text).map fun (_, rest) => (none, rest)

/-- The character of an escape of two characters. -/
def shortEscape? : Char → Option Char
  | '"' => some '"'
  | '\\' => some '\\'
  | '/' => some '/'
  | 'b' => some '\x08'
  | 'f' => some '\x0c'
  | 'n' => some '\n'
  | 'r' => some '\r'
  | 't' => some '\t'
  | _ => none

/-- The characters up to the closing quote, after those already read, which come last first. The
way a character and an escape after `\u` are taken is given. -/
def quotedFrom {χ : Type} (plain : Char → χ)
    (escape : (text : List Char) → Reading χ text.length) (bound : Nat) (read : List χ)
    (text : List Char) (h : text.length ≤ bound) : Reading (List χ) bound :=
  match text, h with
  | [], _ => .error (.here .endInString [])
  | '"' :: rest, h => .ok (read.reverse, ⟨rest, h⟩)
  | '\\' :: rest, h =>
    match rest, h with
    | [], _ => .error (.here .endInString [])
    | 'u' :: rest, h =>
      match escape rest with
      | .ok (x, ⟨after, hafter⟩) =>
        quotedFrom plain escape bound (x :: read) after
          (Nat.le_of_lt (Nat.lt_trans hafter (Nat.lt_of_succ_lt h)))
      | .error fault => .error fault
    | c :: rest, h =>
      match shortEscape? c with
      | some e =>
        quotedFrom plain escape bound (plain e :: read) rest (Nat.le_of_lt (Nat.lt_of_succ_lt h))
      | none => .error (.here .invalidEscape (c :: rest))
  | c :: rest, h =>
    if c.toNat < 32 then .error (.here .controlCharacter (c :: rest))
    else quotedFrom plain escape bound (plain c :: read) rest (Nat.le_of_lt h)
termination_by text.length
decreasing_by all_goals simp only [List.length_cons]; omega

/-! ## The two ways to read leaves -/

/-- How numbers, and strings after their opening quote, are read. -/
structure Leaves (ν σ : Type) where
  number : (text : List Char) → Reading ν text.length
  string : (text : List Char) → Reading σ text.length

/-- A number within the doubles. -/
def strictNumber (text : List Char) : Reading Number text.length := do
  let (n, rest) ← numeral text
  match n.value? with
  | some value => return (value, rest)
  | none => throw ⟨.numberOutOfRange, n.left + byteCount rest.1⟩

/-- Every number and string is understood. -/
def Leaves.strict : Leaves Number String where
  number := strictNumber
  string text := (quotedFrom id unicodeEscape text.length [] text (length_le_self text)).map
    fun (cs, rest) => (String.ofList cs, rest)

/-- Only the form is checked. -/
def Leaves.tolerant : Leaves (Option Number) (Option String) where
  number text := (numeral text).map fun (n, rest) => (n.value?, rest)
  string text := (quotedFrom some tolerantEscape text.length [] text (length_le_self text)).map
    fun (cs, rest) => ((cs.mapM id).map String.ofList, rest)

end VisualNovel.Json
