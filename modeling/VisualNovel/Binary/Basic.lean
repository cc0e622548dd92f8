/-!
# Binary floating-point numbers

A binary format has finitely many magnitudes, so a number is a sign and the place of its magnitude
in their increasing order. Every finite magnitude is a whole number of *units*, the unit being the
smallest positive number of the format; that makes each operation exact arithmetic on natural
numbers followed by one rounding.

* `Binary.Format.units` gives the value of a place in units.
* `Binary.Format.nearest` rounds a quotient of natural numbers to the nearest place, ties to even.
* `Binary.convert` moves a number to another format.
-/

namespace VisualNovel

/-- A binary format with an implicit leading bit and gradual underflow. -/
structure Binary.Format where
  /-- Significand bits, the leading one included. -/
  precision : Nat
  /-- The unit, the smallest positive number, is `2 ^ (-unitPlaces)`. -/
  unitPlaces : Nat
  /-- How many magnitudes, zero included, are finite. -/
  magnitudes : Nat

namespace Binary.Format

/-- Single precision: 24 significand bits, 8 exponent bits. -/
def single : Format := ⟨24, 149, 255 <<< 23⟩

/-- Double precision: 53 significand bits, 11 exponent bits. -/
def double : Format := ⟨53, 1074, 2047 <<< 52⟩

/-- The power of two by which the significand of a place is scaled. -/
def scale (f : Format) (place : Nat) : Nat :=
  place >>> (f.precision - 1) - 1

/-- The significand of a place: below `2 ^ (precision - 1)` only where the scale is zero. -/
def significand (f : Format) (place : Nat) : Nat :=
  place - f.scale place <<< (f.precision - 1)

/-- The magnitude at a place, in units. -/
def units (f : Format) (place : Nat) : Nat :=
  f.significand place <<< f.scale place

end Binary.Format

/-- The whole number nearest to `num / den`; of two equally near, the even one. -/
def roundHalfEven (num den : Nat) : Nat :=
  let quotient := num / den
  let twice := 2 * (num % den)
  if twice < den then quotient
  else if den < twice then quotient + 1
  else quotient + quotient % 2

namespace Binary.Format

/-- The place nearest to `num / den` units, on the scale that leaves `precision` bits. A carry out
of the significand is the next place, and a place from `magnitudes` on stands for an overflow. -/
def nearest (f : Format) (num den : Nat) : Nat :=
  let scale := (num / den).log2 - (f.precision - 1)
  scale <<< (f.precision - 1) + roundHalfEven num (den <<< scale)

end Binary.Format

/-- A number of a binary format. All not-a-number values are one. -/
inductive Binary (f : Binary.Format) where
  | finite (negative : Bool) (place : Fin f.magnitudes)
  | infinite (negative : Bool)
  | nan
  deriving DecidableEq, Repr

/-- Single-precision numbers: positions, sizes and times are kept in these. -/
abbrev Single := Binary .single

/-- Double-precision numbers: the fractions of a JSON text are read as these. -/
abbrev Double := Binary .double

namespace Binary

variable {f : Format}

/-- The number with a sign and a place; beyond the last magnitude it is infinite. -/
def ofPlace (negative : Bool) (place : Nat) : Binary f :=
  if h : place < f.magnitudes then .finite negative ⟨place, h⟩ else .infinite negative

/-- The number nearest to the quotient `num / den`. -/
def ofQuotient (negative : Bool) (num den : Nat) : Binary f :=
  ofPlace negative (f.nearest (num <<< f.unitPlaces) den)

/-- The number nearest to a natural number. -/
def ofNat (n : Nat) : Binary f := ofQuotient false n 1

/-- The number nearest to an integer; zero is positive. -/
def ofInt (n : Int) : Binary f := ofQuotient (n < 0) n.natAbs 1

instance (n : Nat) : OfNat (Binary f) n := ⟨ofNat n⟩

instance : Inhabited (Binary f) := ⟨0⟩

/-- The number nearest to `digits * 10 ^ exponent`. Beyond `unitPlaces` decimal places to either
side the outcome no longer depends on the exponent, and the power is not formed. -/
def ofDecimal (negative : Bool) (digits : Nat) (exponent : Int) : Binary f :=
  if digits = 0 then ofPlace negative 0
  else if exponent > f.unitPlaces then .infinite negative
  else if exponent + digits.log2 + 1 < -(f.unitPlaces : Int) then ofPlace negative 0
  else ofQuotient negative (digits * Nat.pow 10 exponent.toNat) (Nat.pow 10 (-exponent).toNat)

/-- The number of another format nearest to a number. -/
def convert (g : Format) : Binary f → Binary g
  | .finite negative place => ofQuotient negative (f.units place) (1 <<< f.unitPlaces)
  | .infinite negative => .infinite negative
  | .nan => .nan

/-- Single to double precision, which is exact. -/
def widen (x : Single) : Double := x.convert .double

/-- Double to single precision, rounded to nearest. -/
def narrow (x : Double) : Single := x.convert .single

/-- Neither infinite nor not-a-number. -/
def isFinite : Binary f → Bool
  | .finite .. => true
  | _ => false

/-- The natural number equal to a number, if there is one; a zero of either sign is `0`. -/
def toNat? : Binary f → Option Nat
  | .finite negative place =>
    let units := f.units place
    if negative && units != 0 then none
    else if units % (1 <<< f.unitPlaces) = 0 then some (units >>> f.unitPlaces) else none
  | _ => none

/-- The number with the sign changed. -/
def negate : Binary f → Binary f
  | .finite negative place => .finite (!negative) place
  | .infinite negative => .infinite (!negative)
  | .nan => .nan

/-- The interchange encoding of a number in single precision; `none` for not-a-number, whose
encoding is not unique. -/
def toBits? : Single → Option UInt32
  | .finite negative place => some (.ofNat (negative.toNat <<< 31 + place))
  | .infinite negative => some (.ofNat (negative.toNat <<< 31 + Format.single.magnitudes))
  | .nan => none

end Binary

end VisualNovel
