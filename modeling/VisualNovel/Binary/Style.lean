import VisualNovel.Binary.Shortest

/-!
# Number styles

How a binary number is written. All styles write the shortest digits that read back; a
`NumberStyle` says where the point goes, what a whole number looks like and how ties between equally
near digits go.

* `NumberStyle.display`: text shown to people, as in messages and transcripts.
* `NumberStyle.settings`: numbers of a settings file.
* `NumberStyle.jsonSingle` and `NumberStyle.jsonDouble`: numbers of a JSON text.
-/

namespace VisualNovel

/-- The decisions of one way to write numbers. -/
structure NumberStyle where
  tie : Tie
  /-- Written after a whole number in positional form. -/
  wholeMark : String
  /-- The decimal exponents of the leading digit written in positional form; `none` for all. -/
  positional : Option (Int × Int)
  infinity : String
  notANumber : String
  deriving DecidableEq, Repr

namespace NumberStyle

/-- Text for people: never an exponent, and whole numbers without a point. -/
def display : NumberStyle := ⟨.upward, "", none, "inf", "NaN"⟩

/-- Settings files: never an exponent, and whole numbers with a point. -/
def settings : NumberStyle := ⟨.upward, ".0", none, "inf", "nan"⟩

/-- Single-precision numbers of a JSON text, which has no other numbers than finite ones. -/
def jsonSingle : NumberStyle := ⟨.toEven, ".0", some (-6, 12), "null", "null"⟩

/-- Double-precision numbers of a JSON text, which has no other numbers than finite ones. -/
def jsonDouble : NumberStyle := ⟨.toEven, ".0", some (-5, 15), "null", "null"⟩

/-- Digits with the point after the first `point` of them; zeros fill up what is missing. -/
def positionalText (style : NumberStyle) (digits : List Char) (point : Int) : String :=
  if point ≤ 0 then
    "0." ++ String.ofList (List.replicate (-point).toNat '0' ++ digits)
  else if digits.length ≤ point then
    String.ofList (digits ++ List.replicate (point - digits.length).toNat '0') ++ style.wholeMark
  else
    String.ofList (digits.take point.toNat) ++ "." ++ String.ofList (digits.drop point.toNat)

/-- Digits with the point after the first, and an exponent whose sign is always written. -/
def exponentText (digits : List Char) (exponent : Int) : String :=
  let fraction := match digits.tail with
    | [] => ""
    | rest => "." ++ String.ofList rest
  let sign := if exponent < 0 then "-" else "+"
  String.ofList (digits.take 1) ++ fraction ++ "e" ++ sign ++ toString exponent.natAbs

/-- A decimal other than zero in a style. -/
def decimalText (style : NumberStyle) (decimal : Decimal) : String :=
  let digits := Nat.toDigits 10 decimal.digits
  let leading := decimal.exponent + digits.length - 1
  match style.positional with
  | none => style.positionalText digits (leading + 1)
  | some (low, high) =>
    if low ≤ leading ∧ leading ≤ high then style.positionalText digits (leading + 1)
    else exponentText digits leading

/-- A magnitude in a style. -/
def magnitudeText (style : NumberStyle) (f : Binary.Format) (place : Nat) : String :=
  if f.units place = 0 then "0" ++ style.wholeMark
  else style.decimalText (f.shortest style.tie place)

end NumberStyle

/-- A number in a style. -/
def Binary.text {f : Binary.Format} (style : NumberStyle) : Binary f → String
  | .finite negative place =>
    (if negative then "-" else "") ++ style.magnitudeText f place
  | .infinite negative => (if negative then "-" else "") ++ style.infinity
  | .nan => style.notANumber

end VisualNovel
