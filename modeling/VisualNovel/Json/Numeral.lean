import VisualNovel.Binary.Arithmetic
import VisualNovel.Json.Basic

/-!
# Numerals

A numeral is the digits of a JSON number as written. `Numeral.value?` is the number it stands for.
A whole number that fits 64 bits is exact. Otherwise the significand is gathered in 64 bits:
digits that no longer fit count as a power of ten before the point and are dropped after it. It is
rounded to a double and scaled by one power of ten, in steps of `10 ^ 308` downward, so the outcome
may differ in the last place from the double nearest to the numeral.
-/

namespace VisualNovel.Json

/-- The digits of a number. -/
structure Numeral where
  negative : Bool
  whole : List Nat
  /-- Digits after the point; none if there is no point. -/
  fraction : List Nat
  /-- Whether the exponent is negative, and its digits. -/
  exponent : Option (Bool × List Nat)
  deriving DecidableEq, Repr

namespace Numeral

/-- The largest significand that is gathered. -/
def maxSignificand : Nat := 0xffffffffffffffff

/-- The largest exponent that is read. -/
def maxExponent : Nat := 0x7fffffff

/-- Appends digits to a significand while it stays within `maxSignificand`; also gives the number
of digits appended. -/
def gather (significand : Nat) : List Nat → Nat × Nat
  | [] => (significand, 0)
  | digit :: rest =>
    if significand * 10 + digit ≤ maxSignificand then
      let (total, count) := gather (significand * 10 + digit) rest
      (total, count + 1)
    else (significand, 0)

/-- A power of ten as a double. -/
def powerOfTen (n : Nat) : Double := .ofDecimal false 1 n

/-- Division by a power of ten; beyond `10 ^ 308` in several steps, unless zero is reached. -/
def scaleDown (x : Double) (places : Nat) : Double :=
  if places ≤ 308 then x / powerOfTen places
  else if x == 0 then x
  else scaleDown (x / powerOfTen 308) (places - 308)
termination_by places

/-- Multiplication by a power of ten; `none` beyond the doubles. -/
def scaleUp (x : Double) (places : Nat) : Option Double :=
  if places ≤ 308 then
    let scaled := x * powerOfTen places
    if scaled.isFinite then some scaled else none
  else if x == 0 then some x
  else none

/-- A significand times a power of ten. -/
def scale (significand : Nat) (exponent : Int) : Option Double :=
  if 0 ≤ exponent then scaleUp (.ofNat significand) exponent.toNat
  else some (scaleDown (.ofNat significand) (-exponent).toNat)

/-- The number that digits form. -/
def ofDigits (digits : List Nat) : Nat := (digits : List Nat).foldl (fun n d => n * 10 + d) 0

/-- The magnitude of a numeral that is not a plain integer; `none` beyond the doubles. An exponent
beyond `maxExponent` makes any significand but zero either too large or zero. -/
def magnitude? (significand : Nat) (shift : Int) : Option (Bool × List Nat) → Option Double
  | none => scale significand shift
  | some (down, digits) =>
    let exponent := ofDigits digits
    if exponent ≤ maxExponent then
      scale significand (if down then shift - exponent else shift + exponent)
    else if significand = 0 ∨ down then some 0
    else none

/-- A whole number: an integer within 64 bits, where `-0` is the double. -/
def wholeValue (negative : Bool) (magnitude : Nat) : Number :=
  if !negative then .integer magnitude
  else if magnitude = 0 ∨ 0x8000000000000000 < magnitude then .real (Binary.ofNat magnitude).negate
  else .integer (-magnitude)

/-- The number that a numeral stands for; `none` beyond the doubles. -/
def value? (numeral : Numeral) : Option Number :=
  let (whole, wholeCount) := gather 0 numeral.whole
  let dropped := numeral.whole.length - wholeCount
  if numeral.fraction = [] ∧ numeral.exponent = none ∧ dropped = 0 then
    some (wholeValue numeral.negative whole)
  else
    let (significand, fractionCount) := gather whole numeral.fraction
    (magnitude? significand ((dropped : Int) - fractionCount) numeral.exponent).map fun x =>
      .real (if numeral.negative then x.negate else x)

/-- How many digits follow the one at which a number formed from the left exceeds `maxExponent`. -/
def digitsPastLimit (formed : Nat) : List Nat → Nat
  | [] => 0
  | digit :: rest =>
    if formed * 10 + digit ≤ maxExponent then digitsPastLimit (formed * 10 + digit) rest
    else rest.length

/-- How many bytes of a numeral follow the place where it is seen to be out of range. -/
def left (numeral : Numeral) : Nat :=
  match numeral.exponent with
  | none => 0
  | some (_, digits) => digitsPastLimit 0 digits

end Numeral

end VisualNovel.Json
