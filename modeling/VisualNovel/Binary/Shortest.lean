import VisualNovel.Binary.Basic

/-!
# Shortest decimals that read back

A decimal reads back as a number if it lies in the interval of the numbers that round to it. The
shortest decimal of a magnitude is the one on the coarsest power-of-ten grid that meets this
interval; of several, the one nearest to the magnitude. If a point of a grid lies in the interval,
so does one of the two grid points beside the magnitude, so only these are looked at.

Quantities are counted in half units, which makes the ends of the interval whole numbers.
-/

namespace VisualNovel

/-- The value `digits * 10 ^ exponent`. -/
structure Decimal where
  digits : Nat
  exponent : Int
  deriving DecidableEq, Repr

/-- What is done when two decimals are equally near. -/
inductive Tie where
  | toEven
  | upward
  deriving DecidableEq, Repr

namespace Binary.Format

/-- The largest count of half units that rounds to `place` or below. -/
def upperEnd (f : Format) (place : Nat) : Nat := f.units place + f.units (place + 1)

/-- The least count of half units that rounds to `place` or above. -/
def lowerEnd (f : Format) (place : Nat) : Nat := f.units (place - 1) + f.units place

/-- Whether `point / scale` half units read back as `place`; an end of the interval does if the
significand is even. -/
def readsBack (f : Format) (place point scale : Nat) : Bool :=
  if place % 2 = 0 then f.lowerEnd place * scale ≤ point && point ≤ f.upperEnd place * scale
  else f.lowerEnd place * scale < point && point < f.upperEnd place * scale

/-- The multiple of `10 ^ exponent` that reads back as `place` and is nearest to it, if there
is one. -/
def onGrid (f : Format) (tie : Tie) (place : Nat) (exponent : Int) : Option Decimal :=
  let scale := Nat.pow 10 (-exponent).toNat
  let step := Nat.pow 10 exponent.toNat <<< (f.unitPlaces + 1)
  let exact := 2 * f.units place * scale
  let below := exact / step
  let twice := 2 * (exact % step)
  let belowWins := twice < step || twice = step && tie = .toEven && below % 2 = 0
  let belowFits := f.readsBack place (below * step) scale
  let aboveFits := f.readsBack place ((below + 1) * step) scale
  if belowFits && (belowWins || !aboveFits) then some ⟨below, exponent⟩
  else if aboveFits then some ⟨below + 1, exponent⟩
  else none

/-- A power of ten above the magnitude of a place: its binary exponent times `log 2` (to five
places), and one more. -/
def coarsest (f : Format) (place : Nat) : Int :=
  (((f.units place).log2 : Int) + 1 - f.unitPlaces) * 30103 / 100000 + 1

/-- The shortest decimal of a magnitude other than zero. From `coarsest` on, a grid that is 17
digits finer than the leading digit is reached within twenty steps; the exact value, which no search
falls back on, closes the definition. -/
def shortest (f : Format) (tie : Tie) (place : Nat) : Decimal :=
  let start := f.coarsest place
  match (List.range 20).findSome? fun step : Nat => f.onGrid tie place (start - step) with
  | some decimal => decimal
  | none => ⟨f.units place * Nat.pow 5 f.unitPlaces, -f.unitPlaces⟩

end Binary.Format

end VisualNovel
