import VisualNovel.Text
import VisualNovel.Toml.Table

/-!
# TOML scalars

Numbers, booleans, dates and times are words without blanks; only a date and a time may be written
as two words. A word is classified as a whole: `Scalar.ofWord?`.

Underscores may stand between two digits. Integers have 64 bits and a sign; decimal ones have no
zeros in front. A float needs a fraction or an exponent and is the double nearest to what is
written, but one too large is not valid unless it is negative.
-/

namespace VisualNovel.Toml.Scalar

/-! ## Digits -/

/-- The values of digits, where a single underscore may stand between two of them. -/
def digitsOf? (digit : Char → Option Nat) : List Char → Option (List Nat)
  | [] => none
  | [c] => (digit c).map ([·])
  | c :: '_' :: rest => do return (← digit c) :: (← digitsOf? digit rest)
  | c :: rest => do return (← digit c) :: (← digitsOf? digit rest)

/-- The value of a digit in a base up to 16. -/
def digitIn? (base : Nat) (c : Char) : Option Nat := (hexValue? c).filter (· < base)

/-- The number with given digits in a base. -/
def ofDigits (base : Nat) (digits : List Nat) : Nat :=
  digits.foldl (fun n d => n * base + d) 0

/-- The digits of a decimal integer: a zero in front stands alone. -/
def decimalDigits? (word : List Char) : Option (List Nat) :=
  match digitsOf? (digitIn? 10) word with
  | some (0 :: _ :: _) => none
  | digits => digits

/-- A sign in front, true for minus, and what follows. -/
def splitSign : List Char → Bool × List Char
  | '+' :: rest => (false, rest)
  | '-' :: rest => (true, rest)
  | word => (false, word)

/-! ## Numbers -/

/-- An integer of 64 bits with a sign. -/
def bounded? (n : Int) : Option Item :=
  if -0x8000000000000000 ≤ n ∧ n < 0x8000000000000000 then some (.integer n) else none

/-- An integer after the mark of its base. -/
def basedInteger? (base : Nat) (word : List Char) : Option Item :=
  (digitsOf? (digitIn? base) word).bind fun digits => bounded? (ofDigits base digits)

/-- An integer: decimal with an optional sign, or with the mark of its base. -/
def integer? (word : List Char) : Option Item :=
  match word with
  | '0' :: 'x' :: rest => basedInteger? 16 rest
  | '0' :: 'o' :: rest => basedInteger? 8 rest
  | '0' :: 'b' :: rest => basedInteger? 2 rest
  | word =>
    let (negative, word) := splitSign word
    (decimalDigits? word).bind fun digits =>
      bounded? (Binary.signed negative (ofDigits 10 digits))

/-- A word up to the first of some characters, and what follows that one. -/
def splitAt? (marks : List Char) (word : List Char) : List Char × Option (List Char) :=
  (word.takeWhile (· ∉ marks), (word.dropWhile (· ∉ marks)).tail?)

/-- The exponent of a float; zero if there is none. -/
def exponent? : Option (List Char) → Option Int
  | none => some 0
  | some word =>
    let (negative, word) := splitSign word
    (digitsOf? (digitIn? 10) word).map fun digits => Binary.signed negative (ofDigits 10 digits)

/-- The digits of the fraction of a float; none if there is no point. -/
def fraction? : Option (List Char) → Option (List Nat)
  | none => some []
  | some word => digitsOf? (digitIn? 10) word

/-- A float with a fraction, an exponent or both. -/
def decimalFloat? (word : List Char) : Option Item := do
  let (negative, word) := splitSign word
  let (mantissa, exponent) := splitAt? ['e', 'E'] word
  let (whole, fraction) := splitAt? ['.'] mantissa
  if exponent = none ∧ fraction = none then none
  let whole ← decimalDigits? whole
  let fraction ← fraction? fraction
  let exponent ← exponent? exponent
  let value : Double :=
    .ofDecimal negative (ofDigits 10 (whole ++ fraction)) (exponent - fraction.length)
  if value = .infinite false then none
  return .float value

/-- An infinity or not-a-number, with an optional sign. -/
def specialFloat? (word : List Char) : Option Item :=
  match splitSign word with
  | (negative, ['i', 'n', 'f']) => some (.float (.infinite negative))
  | (_, ['n', 'a', 'n']) => some (.float .nan)
  | _ => none

/-! ## Dates and times -/

/-- A number written with exactly so many digits. -/
def fixed? (count : Nat) (word : List Char) : Option Nat :=
  if word.length = count ∧ word.all Char.isDigit then some (ofDigits 10 (word.map digitValue))
  else none

/-- How many days a month has. -/
def daysIn (year month : Nat) : Nat :=
  if month = 2 then (if year % 4 = 0 ∧ (year % 100 ≠ 0 ∨ year % 400 = 0) then 29 else 28)
  else if month ∈ [4, 6, 9, 11] then 30
  else 31

/-- A date, as in `1979-05-27`. -/
def isDate (word : List Char) : Bool :=
  match word with
  | [y₁, y₂, y₃, y₄, '-', m₁, m₂, '-', d₁, d₂] =>
    match fixed? 4 [y₁, y₂, y₃, y₄], fixed? 2 [m₁, m₂], fixed? 2 [d₁, d₂] with
    | some year, some month, some day =>
      1 ≤ month && month ≤ 12 && 1 ≤ day && day ≤ daysIn year month
    | _, _, _ => false
  | _ => false

/-- Hours and minutes, as in `07:32`. -/
def isHourMinute (word : List Char) : Bool :=
  match word with
  | [h₁, h₂, ':', m₁, m₂] =>
    (fixed? 2 [h₁, h₂]).any (· < 24) && (fixed? 2 [m₁, m₂]).any (· < 60)
  | _ => false

/-- A time, as in `07:32:00` or `07:32:00.999`; a minute may have a leap second. -/
def isTime (word : List Char) : Bool :=
  isHourMinute (word.take 5) &&
    match word.drop 5 with
    | ':' :: s₁ :: s₂ :: rest =>
      (fixed? 2 [s₁, s₂]).any (· ≤ 60) &&
        match rest with
        | [] => true
        | '.' :: fraction => !fraction.isEmpty && fraction.all Char.isDigit
        | _ => false
    | _ => false

/-- A time with an optional offset: `Z`, or hours and minutes with a sign. -/
def isOffsetTime (word : List Char) : Bool :=
  let (time, offset) := word.span fun c => c ∉ ['Z', 'z', '+', '-']
  isTime time &&
    match offset with
    | [] => true
    | ['Z'] => true
    | ['z'] => true
    | '+' :: rest => isHourMinute rest
    | '-' :: rest => isHourMinute rest
    | _ => false

/-- A date, a time, or a date and a time joined by `T`. -/
def isMoment (word : List Char) : Bool :=
  isDate word || isTime word ||
    isDate (word.take 10) &&
      match word.drop 10 with
      | 'T' :: time => isOffsetTime time
      | 't' :: time => isOffsetTime time
      | _ => false

/-! ## Words -/

/-- The characters of words. -/
def isWordChar (c : Char) : Bool := c.isAlphanum || c ∈ ['_', '+', '-', '.', ':']

/-- The scalar that a word is. -/
def ofWord? (word : List Char) : Option Item :=
  if word = "true".toList then some (.boolean true)
  else if word = "false".toList then some (.boolean false)
  else if isMoment word then some .moment
  else (decimalFloat? word).or ((specialFloat? word).or (integer? word))

end VisualNovel.Toml.Scalar
