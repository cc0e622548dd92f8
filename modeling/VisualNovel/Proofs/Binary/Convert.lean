import Mathlib.Algebra.Group.Nat.Defs
import VisualNovel.Binary.Basic

/-!
# Exact conversion

Rounding gives back a magnitude that a format has (`Format.nearest_units`). A format *covers*
another if it has all of its magnitudes; conversion into it is then exact, and conversion back gives
the number it came from (`convert_convert`). Double precision covers single precision, so
widening and narrowing a finite number leaves it as it is (`narrow_widen`). It has all integers that
fit its significand, too, so these may be rounded by way of it (`narrow_ofInt`).
-/

namespace VisualNovel

/-- A whole quotient is not rounded. -/
theorem roundHalfEven_mul (q : Nat) {den : Nat} (hden : 0 < den) :
    roundHalfEven (q * den) den = q := by
  rw [roundHalfEven, Nat.mul_mod_left, Nat.mul_div_cancel q hden, Nat.mul_zero, if_pos hden]

/-- Rounding a quotient depends only on the quotient. -/
theorem roundHalfEven_mul_mul (num den : Nat) {k : Nat} (hk : 0 < k) :
    roundHalfEven (num * k) (den * k) = roundHalfEven num den := by
  have hlt : 2 * (num % den * k) < den * k ↔ 2 * (num % den) < den := by
    rw [← Nat.mul_assoc, Nat.mul_lt_mul_right hk]
  have hgt : den * k < 2 * (num % den * k) ↔ den < 2 * (num % den) := by
    rw [← Nat.mul_assoc, Nat.mul_lt_mul_right hk]
  simp only [roundHalfEven, Nat.mul_div_mul_right _ _ hk, Nat.mul_mod_mul_right, hlt, hgt]

namespace Binary

namespace Format

variable {f g : Format}

/-! ## Places and magnitudes -/

/-- The least significand above scale zero. -/
def leading (f : Format) : Nat := 1 <<< (f.precision - 1)

theorem leading_pos (f : Format) : 0 < f.leading := Nat.shiftLeft_pos_iff.mpr Nat.one_pos

/-- Shifting past the significand multiplies by `leading`. -/
theorem shiftLeft_eq_mul_leading (f : Format) (s : Nat) :
    s <<< (f.precision - 1) = s * f.leading := by
  rw [leading, Nat.one_shiftLeft, Nat.shiftLeft_eq]

/-- The scale counts the blocks of `leading` places, but for the first two. -/
theorem scale_eq (f : Format) (place : Nat) : f.scale place = place / f.leading - 1 := by
  rw [scale, leading, Nat.one_shiftLeft, Nat.shiftRight_eq_div_pow]

/-- In the first two blocks, places are magnitudes. -/
theorem units_of_lt {place : Nat} (h : place < 2 * f.leading) : f.units place = place := by
  have hscale : f.scale place = 0 := by
    have hdiv : place / f.leading < 2 := (Nat.div_lt_iff_lt_mul f.leading_pos).mpr h
    rw [scale_eq]
    exact Nat.sub_eq_zero_of_le (Nat.le_of_lt_succ hdiv)
  rw [units, significand, hscale, Nat.zero_shiftLeft, Nat.sub_zero, Nat.shiftLeft_zero]

/-- A place is its scale, in blocks of `leading` places, and its significand. -/
theorem units_of_significand {s n : Nat} (hle : f.leading ≤ n) (hlt : n < 2 * f.leading) :
    f.units (s * f.leading + n) = n <<< s := by
  have hscale : f.scale (s * f.leading + n) = s := by
    have hdiv : n / f.leading = 1 :=
      Nat.div_eq_of_lt_le (by rwa [Nat.one_mul]) (by simpa using hlt)
    rw [scale_eq, Nat.add_comm, Nat.add_mul_div_right _ _ f.leading_pos, hdiv]
    exact Nat.add_sub_cancel_left 1 s
  rw [units, significand, hscale, shiftLeft_eq_mul_leading, Nat.add_sub_cancel_left]

/-- Each place is below twice `leading` or in a block of its own scale. -/
theorem place_cases (f : Format) (place : Nat) :
    place < 2 * f.leading ∨ ∃ s n, f.leading ≤ n ∧ n < 2 * f.leading ∧
      place = s * f.leading + n := by
  by_cases h : place < 2 * f.leading
  · exact Or.inl h
  · have hmod : place % f.leading < f.leading := Nat.mod_lt _ f.leading_pos
    have hdiv : 2 ≤ place / f.leading :=
      (Nat.le_div_iff_mul_le f.leading_pos).mpr (Nat.le_of_not_lt h)
    refine Or.inr ⟨place / f.leading - 1, place % f.leading + f.leading, by omega, by omega, ?_⟩
    obtain ⟨s, hs⟩ := Nat.exists_eq_add_of_le' hdiv
    have hplace := Nat.div_add_mod place f.leading
    rw [hs, Nat.mul_comm] at hplace
    rw [hs, Nat.add_sub_cancel_right (s + 1) 1, Nat.add_comm (place % f.leading), ← Nat.add_assoc,
      ← Nat.succ_mul]
    exact hplace.symm

/-- The scale that rounding chooses is the one of the magnitude. -/
theorem log2_sub_of_lt {place : Nat} (h : place < 2 * f.leading) :
    place.log2 - (f.precision - 1) = 0 := by
  rw [leading, ← Nat.shiftLeft_succ, Nat.one_shiftLeft] at h
  by_cases hzero : place = 0
  · rw [hzero, Nat.log2_zero, Nat.zero_sub]
  · exact Nat.sub_eq_zero_of_le (Nat.le_of_lt_succ ((Nat.log2_lt hzero).mpr h))

/-- Each shift adds one binary place. -/
theorem log2_shiftLeft {n : Nat} (hpos : 0 < n) (s : Nat) : (n <<< s).log2 = n.log2 + s := by
  induction s with
  | zero => rfl
  | succ s ih =>
    have hne : n <<< s ≠ 0 := Nat.pos_iff_ne_zero.mp (Nat.shiftLeft_pos_iff.mpr hpos)
    rw [Nat.shiftLeft_succ, Nat.log2_two_mul hne, ih, Nat.add_assoc]

/-- The scale that rounding chooses is the one of the significand. -/
theorem log2_sub_of_significand {s n : Nat} (hle : f.leading ≤ n) (hlt : n < 2 * f.leading) :
    (n <<< s).log2 - (f.precision - 1) = s := by
  have hpos : 0 < n := Nat.lt_of_lt_of_le f.leading_pos hle
  have hlog : n.log2 = f.precision - 1 := by
    rw [Nat.log2_eq_iff (Nat.pos_iff_ne_zero.mp hpos), ← Nat.one_shiftLeft, ← Nat.one_shiftLeft,
      Nat.shiftLeft_succ]
    exact ⟨hle, hlt⟩
  rw [log2_shiftLeft hpos, hlog, Nat.add_sub_cancel_left]

/-- Rounding gives back a magnitude of the format. -/
theorem nearest_units (f : Format) (place : Nat) {den : Nat} (hden : 0 < den) :
    f.nearest (f.units place * den) den = place := by
  rw [nearest, Nat.mul_div_cancel _ hden, shiftLeft_eq_mul_leading]
  obtain hlt | ⟨s, n, hle, hlt, rfl⟩ := f.place_cases place
  · rw [units_of_lt hlt, log2_sub_of_lt hlt, Nat.zero_mul, Nat.zero_add, Nat.shiftLeft_zero,
      roundHalfEven_mul _ hden]
  · have hmul : n <<< s * den = n * den <<< s := by
      rw [Nat.shiftLeft_eq, Nat.shiftLeft_eq, Nat.mul_assoc, Nat.mul_comm _ den]
    rw [units_of_significand hle hlt, log2_sub_of_significand hle hlt, hmul,
      roundHalfEven_mul _ (Nat.shiftLeft_pos_iff.mpr hden)]

/-- The nearest magnitude depends only on the quotient. -/
theorem nearest_mul_mul (f : Format) (num den : Nat) {k : Nat} (hk : 0 < k) :
    f.nearest (num * k) (den * k) = f.nearest num den := by
  have hscale (s : Nat) : (den * k) <<< s = den <<< s * k := by
    rw [Nat.shiftLeft_eq, Nat.shiftLeft_eq, Nat.mul_right_comm]
  simp only [nearest, Nat.mul_div_mul_right _ _ hk, hscale, roundHalfEven_mul_mul _ _ hk]

/-- A multiple of a power of two is a magnitude if the factor fits the significand. -/
theorem exists_units_eq (f : Format) (k : Nat) {n : Nat} (h : n < 2 * f.leading) :
    ∃ place, place < (k + 2) * f.leading ∧ f.units place = n <<< k := by
  induction k generalizing n with
  | zero => exact ⟨n, by rwa [Nat.zero_add], by rw [units_of_lt h, Nat.shiftLeft_zero]⟩
  | succ k ih =>
    by_cases hle : f.leading ≤ n
    · refine ⟨(k + 1) * f.leading + n, ?_, units_of_significand hle h⟩
      rw [Nat.add_mul (k + 1) 2]
      exact Nat.add_lt_add_left h _
    -- too small a factor is doubled, which uses up one of the powers of two
    · have hdouble : 2 * n < 2 * f.leading := by omega
      obtain ⟨place, hplace, hunits⟩ := ih hdouble
      refine ⟨place, Nat.lt_of_lt_of_le hplace (Nat.mul_le_mul_right _ (by omega)), ?_⟩
      rw [hunits, Nat.shiftLeft_succ_inside]

/-- Each magnitude of a format is a magnitude of another, though in smaller units. -/
structure Covers (g f : Format) : Prop where
  precision_le : f.precision ≤ g.precision
  unitPlaces_le : f.unitPlaces ≤ g.unitPlaces
  magnitudes_le : (f.magnitudes / f.leading + (g.unitPlaces - f.unitPlaces) + 2) * g.leading ≤
    g.magnitudes

/-- The magnitude at a place of a covered format, in the units of the covering one. -/
theorem Covers.exists_units_eq (h : g.Covers f) {place : Nat} (hplace : place < f.magnitudes) :
    ∃ wide, wide < g.magnitudes ∧
      g.units wide = f.units place <<< (g.unitPlaces - f.unitPlaces) := by
  have hleading : f.leading ≤ g.leading := by
    rw [leading, leading, Nat.one_shiftLeft, Nat.one_shiftLeft]
    exact Nat.pow_le_pow_right Nat.two_pos (Nat.sub_le_sub_right h.precision_le 1)
  -- the scale of a place is bounded by the number of blocks of the format
  obtain ⟨s, n, hs, hn, hunits⟩ : ∃ s n, s ≤ f.magnitudes / f.leading ∧ n < 2 * f.leading ∧
      f.units place = n <<< s := by
    obtain hlt | ⟨s, n, hle, hlt, rfl⟩ := f.place_cases place
    · exact ⟨0, place, Nat.zero_le _, hlt, by rw [units_of_lt hlt, Nat.shiftLeft_zero]⟩
    · refine ⟨s, n, ?_, hlt, units_of_significand hle hlt⟩
      rw [Nat.le_div_iff_mul_le f.leading_pos]
      omega
  obtain ⟨wide, hwide, heq⟩ := g.exists_units_eq (s + (g.unitPlaces - f.unitPlaces))
    (Nat.lt_of_lt_of_le hn (Nat.mul_le_mul_left 2 hleading))
  have hscale : s + (g.unitPlaces - f.unitPlaces) + 2 ≤
      f.magnitudes / f.leading + (g.unitPlaces - f.unitPlaces) + 2 := by omega
  refine ⟨wide, ?_, by rw [heq, hunits, Nat.shiftLeft_add]⟩
  exact Nat.lt_of_lt_of_le hwide (Nat.le_trans (Nat.mul_le_mul_right _ hscale) h.magnitudes_le)

end Format

/-! ## There and back -/

variable {f g : Format}

/-- A place within the magnitudes gives a finite number. -/
theorem ofPlace_of_lt {negative : Bool} {place : Nat} (h : place < f.magnitudes) :
    (ofPlace negative place : Binary f) = .finite negative ⟨place, h⟩ := by
  rw [ofPlace, dif_pos h]

/-- Conversion to a covering format keeps the magnitude. -/
theorem convert_finite (h : g.Covers f) (negative : Bool) (place : Fin f.magnitudes) :
    ∃ wide : Fin g.magnitudes, (Binary.finite negative place).convert g = .finite negative wide ∧
      g.units wide = f.units place <<< (g.unitPlaces - f.unitPlaces) := by
  obtain ⟨wide, hwide, hunits⟩ := h.exists_units_eq place.isLt
  refine ⟨⟨wide, hwide⟩, ?_, hunits⟩
  have hnum : f.units place <<< g.unitPlaces = g.units wide * 1 <<< f.unitPlaces := by
    rw [Nat.one_shiftLeft, ← Nat.shiftLeft_eq, hunits, ← Nat.shiftLeft_add,
      Nat.sub_add_cancel h.unitPlaces_le]
  rw [convert, ofQuotient, hnum, g.nearest_units wide (Nat.shiftLeft_pos_iff.mpr Nat.one_pos),
    ofPlace_of_lt]

/-- What is converted to a covering format and back is what it was. -/
theorem convert_convert (h : g.Covers f) (x : Binary f) : (x.convert g).convert f = x := by
  cases x with
  | finite negative place =>
    obtain ⟨wide, hwide, hunits⟩ := convert_finite h negative place
    have hnum : g.units wide <<< f.unitPlaces = f.units place * 1 <<< g.unitPlaces := by
      rw [Nat.one_shiftLeft, ← Nat.shiftLeft_eq, hunits, ← Nat.shiftLeft_add,
        Nat.sub_add_cancel h.unitPlaces_le]
    rw [hwide, convert, ofQuotient, hnum,
      f.nearest_units place (Nat.shiftLeft_pos_iff.mpr Nat.one_pos), ofPlace_of_lt place.isLt]
  | infinite negative => rfl
  | nan => rfl

/-- Double precision has all magnitudes of single precision. -/
theorem double_covers_single : Format.double.Covers .single where
  precision_le := by decide
  unitPlaces_le := by decide
  magnitudes_le := by decide +kernel

/-- Double precision keeps what single precision can say. -/
theorem narrow_widen (x : Single) : x.widen.narrow = x := convert_convert double_covers_single x

/-- An integer that fits the significand of a double is a double, so rounding it by way of one is
rounding it once. -/
theorem narrow_ofInt {n : Int} (h : n.natAbs < 2 ^ 53) : (ofInt n : Double).narrow = ofInt n := by
  have hfits : n.natAbs < 2 * Format.double.leading := h
  obtain ⟨place, hplace, hunits⟩ := Format.double.exists_units_eq Format.double.unitPlaces hfits
  have hlt : place < Format.double.magnitudes :=
    Nat.lt_of_lt_of_le hplace (by decide +kernel)
  have hexact : Format.double.nearest (n.natAbs <<< Format.double.unitPlaces) 1 = place := by
    rw [← hunits, ← Nat.mul_one (Format.double.units place)]
    exact Format.double.nearest_units place Nat.one_pos
  have hdouble : (ofInt n : Double) = .finite (n < 0) ⟨place, hlt⟩ := by
    rw [ofInt, ofQuotient, hexact, ofPlace_of_lt]
  -- the units of doubles go out of the quotient again
  have hpos : 0 < 1 <<< Format.double.unitPlaces := Nat.shiftLeft_pos_iff.mpr Nat.one_pos
  have hunit : (n.natAbs <<< Format.double.unitPlaces) <<< Format.single.unitPlaces =
      n.natAbs <<< Format.single.unitPlaces * 1 <<< Format.double.unitPlaces := by
    rw [Nat.one_shiftLeft, ← Nat.shiftLeft_eq, ← Nat.shiftLeft_add, ← Nat.shiftLeft_add,
      Nat.add_comm]
  have hnearest := Format.single.nearest_mul_mul (n.natAbs <<< Format.single.unitPlaces) 1 hpos
  rw [Nat.one_mul, ← hunit] at hnearest
  rw [hdouble, narrow, convert, ofQuotient, hunits, hnearest, ofInt, ofQuotient]

end Binary

end VisualNovel
