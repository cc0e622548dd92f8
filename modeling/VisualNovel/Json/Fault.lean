import VisualNovel.Text

/-!
# Faults in a JSON text

A fault names its cause and the *offending byte*, up to and including which the text has been
read; at the end of the text that is the last byte. It is kept as the number of bytes after it, so
that a reader needs to know only what is left of the text.

`Position.find` turns this into a line and a column. Lines count from 1; the column is the number
of bytes of the line up to and including the offending one, so it is zero where that byte is a line
break.
-/

namespace VisualNovel

namespace Json

/-- Why a text is not JSON. -/
inductive Fault.Cause where
  | endInValue
  | endInArray
  | endInObject
  | endInString
  | expectedValue
  | expectedWord
  | expectedKey
  | expectedColon
  | expectedCommaOrBracket
  | expectedCommaOrBrace
  | trailingComma
  | trailingCharacters
  | invalidEscape
  | invalidNumber
  | numberOutOfRange
  | controlCharacter
  | unpairedSurrogate
  | unfinishedPair
  | nestedTooDeep
  deriving DecidableEq, Repr

/-- The wording of a cause. -/
def Fault.Cause.message : Fault.Cause → String
  | endInValue => "EOF while parsing a value"
  | endInArray => "EOF while parsing a list"
  | endInObject => "EOF while parsing an object"
  | endInString => "EOF while parsing a string"
  | expectedValue => "expected value"
  | expectedWord => "expected ident"
  | expectedKey => "key must be a string"
  | expectedColon => "expected `:`"
  | expectedCommaOrBracket => "expected `,` or `]`"
  | expectedCommaOrBrace => "expected `,` or `\x7d`"
  | trailingComma => "trailing comma"
  | trailingCharacters => "trailing characters"
  | invalidEscape => "invalid escape"
  | invalidNumber => "invalid number"
  | numberOutOfRange => "number out of range"
  | controlCharacter => "control character (\\u0000-\\u001F) found while parsing a string"
  | unpairedSurrogate => "lone leading surrogate in hex escape"
  | unfinishedPair => "unexpected end of hex escape"
  | nestedTooDeep => "recursion limit exceeded"

/-- A cause and the number of bytes after the offending one. -/
structure Fault where
  cause : Fault.Cause
  left : Nat
  deriving DecidableEq, Repr

/-- The fault whose offending byte is the first of what is left. -/
def Fault.here (cause : Fault.Cause) (rest : List Char) : Fault :=
  ⟨cause, byteCount rest - 1⟩

/-- The fault whose offending byte is the last one before what is left. -/
def Fault.before (cause : Fault.Cause) (rest : List Char) : Fault :=
  ⟨cause, byteCount rest⟩

end Json

/-- A line and a column of a text. -/
structure Position where
  line : Nat
  column : Nat
  deriving DecidableEq, Repr

namespace Position

/-- The position reached from a line and column after `offset` more bytes. -/
def advance (line column : Nat) (offset : Nat) : List Char → Position
  | [] => ⟨line, column⟩
  | c :: rest =>
    if offset = 0 then ⟨line, column⟩
    else if c = '\n' then advance (line + 1) 0 (offset - 1) rest
    else advance line (column + min c.utf8Size offset) (offset - c.utf8Size) rest

/-- The position of the byte that ends the first `offset` bytes of a text. -/
def find (text : List Char) (offset : Nat) : Position :=
  advance 1 0 offset text

end Position

/-- Where in a text a fault is. -/
def Json.Fault.position (fault : Json.Fault) (text : List Char) : Position :=
  Position.find text (byteCount text - fault.left)

end VisualNovel
