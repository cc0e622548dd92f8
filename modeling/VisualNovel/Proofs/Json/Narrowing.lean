import VisualNovel.Proofs.Binary.Shortest
import VisualNovel.Proofs.Json.Midpoints

/-!
# Decimals that are read as doubles and narrowed

The shortest decimal of a single is read as a double, which is rounded to single precision. This
gives back the single that was written (`exists_scale_of_stands`), although the double need not be
the one nearest to the decimal: a decimal is far from both ends of the interval of numbers that
round to the single, or is an end and is read exactly, or is one of those that were tried.
-/

namespace VisualNovel.Json.Numeral

open Binary

/-! ## Narrowing -/

/-- The sign does not matter for the magnitude of the other format. -/
theorem convert_finite_sign {f g : Format} {c : Fin f.magnitudes} {place : Fin g.magnitudes}
    (h : (.finite false c : Binary f).convert g = .finite false place) (negative : Bool) :
    (.finite negative c : Binary f).convert g = .finite negative place := by
  rw [convert, ofQuotient, ofPlace] at h ⊢
  split at h
  · next hlt =>
    rw [dif_pos hlt]
    congr 1
    exact (Binary.finite.inj h).2
  · cases h

/-- A double whose value is rounded to a place is narrowed to the single there. -/
theorem narrow_of_roundsTo {c : Fin Format.double.magnitudes} {place : Fin Format.single.magnitudes}
    (h : Format.single.RoundsTo (Format.double.value c) place) (negative : Bool) :
    (.finite negative c : Double).narrow = .finite negative place := by
  have hden : 0 < 1 <<< Format.double.unitPlaces := Nat.shiftLeft_pos_iff.mpr Nat.one_pos
  have hvalue : (Format.double.units c : ℚ) / (1 <<< Format.double.unitPlaces : Nat) =
      Format.double.value c := by
    rw [cast_shiftLeft, Nat.cast_one, one_mul, Format.value]
  exact ofQuotient_of_roundsTo (by decide) hden (hvalue.symm ▸ h) negative

/-! ## The ends of an interval -/

/-- An end of an interval, in half units of single precision, has at most 25 bits. -/
theorem exists_upperEnd_eq {place : Nat} (hlt : place < Format.single.magnitudes) :
    ∃ s n, s < 255 ∧ n < 2 ^ 25 ∧ Format.single.upperEnd place = n <<< s := by
  have hleading : Format.single.leading = 2 ^ 23 := Format.leading_single
  have hmagnitudes : Format.single.magnitudes = 255 * 2 ^ 23 := by decide
  obtain ⟨s, n, hn, hfull, rfl⟩ := Format.single.exists_place_eq place
  refine ⟨s, 2 * n + 1, ?_, by omega, Format.upperEnd_eq hfull hn⟩
  rw [hleading] at hlt
  omega

/-- A half unit of single precision, in units of double precision. -/
theorem value_eq_of_units {place n s : Nat} (h : Format.double.units place = n <<< (s + 924)) :
    Format.double.value place = n * 2 ^ ((s : Int) - 150) := by
  have hpower : (2 : ℚ) ^ 924 ≠ 0 := pow_ne_zero _ two_ne_zero
  rw [Format.value, h, cast_shiftLeft, show Format.double.unitPlaces = 150 + 924 from rfl]
  generalize 924 = common at hpower
  rw [pow_add, pow_add, ← mul_assoc, mul_div_mul_right _ _ hpower, mul_div_assoc,
    zpow_sub₀ two_ne_zero, zpow_natCast]
  rfl

section Ends

variable {c digits : Nat} {exponent : Int} (haccurate : Accurate c digits exponent)
  (hpos : 0 < digits) (hdigits : digits ≤ 2 ^ 25) (hlower : -63 ≤ exponent) (hupper : exponent ≤ 40)
include haccurate hpos hdigits hlower hupper

/-- A decimal is far from an end of an interval, unless it is read exactly or was tried. -/
theorem exact_or_far {s n : Nat} (hs : s < 255) (hn : n < 2 ^ 25) :
    Format.double.value c = (digits : ℚ) * 10 ^ exponent ∨ narrowsToNearest digits exponent ∨
      (digits : ℚ) * 10 ^ exponent * 2 ^ 150 / 2 ^ 51 ≤
        |(digits : ℚ) * 10 ^ exponent * 2 ^ 150 - (n <<< s : Nat)| := by
  have hend : ((n <<< s : Nat) : ℚ) = n * 2 ^ ((s : Int) - 150) * 2 ^ 150 := by
    rw [cast_shiftLeft, mul_assoc, ← zpow_natCast 2 150, ← zpow_add₀ two_ne_zero,
      Nat.cast_ofNat, sub_add_cancel, zpow_natCast]
  rw [hend, ← sub_mul, abs_mul, abs_of_pos (by norm_num : (0 : ℚ) < 2 ^ 150), mul_div_right_comm,
    mul_le_mul_iff_left₀ (by norm_num)]
  by_cases hnear : |(digits : ℚ) * 10 ^ exponent - n * 2 ^ ((s : Int) - 150)| <
      digits * 10 ^ exponent / 2 ^ 51
  · rcases eq_or_narrowsToNearest hpos hdigits hlower hupper hn hnear with ⟨heq, hsmall⟩ | hread
    · -- an end of an interval of singles is a double
      obtain ⟨other, hother⟩ := exists_units (Nat.lt_trans hn (by decide))
        (by omega : s + 924 ≤ 2000)
      refine Or.inl (haccurate.exact hsmall other ?_)
      rw [heq, value_eq_of_units hother]
    · exact Or.inr (Or.inl hread)
  · exact Or.inr (Or.inr (not_lt.mp hnear))

end Ends

/-- A number that is near to one that is rounded to a place is rounded there too, if that one is far
from the ends of the interval. -/
theorem roundsTo_of_far {x y : ℚ} {place : Nat} (h : Format.single.RoundsTo x place)
    (hnear : |y - x| < x / 2 ^ 51)
    (hlower : x * 2 ^ 150 / 2 ^ 51 ≤ |x * 2 ^ 150 - Format.single.lowerEnd place|)
    (hupper : x * 2 ^ 150 / 2 ^ 51 ≤ |x * 2 ^ 150 - Format.single.upperEnd place|) :
    Format.single.RoundsTo y place := by
  have hbelow : (Format.single.lowerEnd place : ℚ) ≤ x * 2 ^ 150 := h.lower
  have habove : x * 2 ^ 150 ≤ (Format.single.upperEnd place : ℚ) := h.upper
  rw [abs_of_nonneg (sub_nonneg.mpr hbelow)] at hlower
  rw [abs_of_nonpos (sub_nonpos.mpr habove)] at hupper
  obtain ⟨hleft, hright⟩ := abs_lt.mp hnear
  have hinsideLeft : (Format.single.lowerEnd place : ℚ) < y * 2 ^ 150 := by linarith
  have hinsideRight : y * 2 ^ 150 < (Format.single.upperEnd place : ℚ) := by linarith
  refine ⟨hinsideLeft.le, hinsideRight.le, fun htie => ?_⟩
  rcases htie with heq | heq
  · exact absurd heq hinsideLeft.ne
  · exact absurd heq hinsideRight.ne

/-! ## Shortest decimals -/

/-- A decimal that was tried is narrowed to the place to which it is rounded. -/
theorem narrow_of_narrowsToNearest {digits : Nat} {exponent : Int}
    {c : Fin Format.double.magnitudes} {place : Fin Format.single.magnitudes} (hpos : 0 < digits)
    (hlower : -63 ≤ exponent) (hupper : exponent ≤ 40)
    (hscale : scale digits exponent = some (.finite false c))
    (h : Format.single.RoundsTo (digits * 10 ^ exponent) place)
    (hread : narrowsToNearest digits exponent) (negative : Bool) :
    (.finite negative c : Double).narrow = .finite negative place := by
  have hunitPlaces : Format.single.unitPlaces = 149 := rfl
  have hquotient : ((digits * 10 ^ exponent.toNat : Nat) : ℚ) / (10 ^ (-exponent).toNat : Nat) =
      digits * 10 ^ exponent := by
    push_cast
    rw [mul_div_assoc, pow_toNat_div_pow_toNat (by norm_num)]
  have hdecimal : (ofDecimal false digits exponent : Single) = .finite false place := by
    rw [ofDecimal_eq (Nat.pos_iff_ne_zero.mp hpos) (by omega) (by omega)]
    exact ofQuotient_of_roundsTo (by decide) (Nat.pow_pos (by decide)) (hquotient.symm ▸ h) false
  rw [narrowsToNearest, decide_eq_true_eq, product_eq_of_scale (by omega) hscale, hdecimal] at hread
  exact convert_finite_sign hread negative

/-- The shortest decimal of a magnitude is read and narrowed to the magnitude. -/
theorem exists_scale_of_stands {decimal : Decimal} {place : Fin Format.single.magnitudes}
    (hpos : 0 < place.val) (h : Format.Stands decimal place) (hlower : -63 ≤ decimal.exponent)
    (hupper : decimal.exponent ≤ 40) :
    ∃ c : Fin Format.double.magnitudes,
      scale decimal.digits decimal.exponent = some (.finite false c) ∧
        ∀ negative, (.finite negative c : Double).narrow = .finite negative place := by
  obtain ⟨digits, exponent⟩ := decimal
  dsimp only at hlower hupper
  obtain ⟨hdigitsPos, hdigitsLt, hroundsTo, hapart⟩ := h
  dsimp only at *
  obtain ⟨c, hc, haccurate⟩ := exists_scale hdigitsPos hdigitsLt (by omega : exponent.natAbs ≤ 63)
  refine ⟨c, hc, ?_⟩
  by_cases hlong : 2 ^ 25 < digits
  · -- more digits than an end has
    obtain ⟨hfarLower, hfarUpper⟩ := hapart hlong
    rw [Format.grid, ← mul_assoc] at hfarLower hfarUpper
    refine narrow_of_roundsTo (roundsTo_of_far hroundsTo haccurate.near ?_ ?_)
    · exact le_trans hfarLower (le_abs_self _)
    · rw [abs_sub_comm]
      exact le_trans hfarUpper (le_abs_self _)
  · obtain ⟨before, hbefore⟩ : ∃ before, place.val = before + 1 := ⟨place.val - 1, by omega⟩
    have hlt := place.isLt
    rw [hbefore] at hlt
    obtain ⟨s, n, hs, hn, hlowerEnd⟩ := exists_upperEnd_eq (Nat.lt_of_succ_lt hlt)
    obtain ⟨t, m, ht, hm, hupperEnd⟩ := exists_upperEnd_eq place.isLt
    rw [← Format.lowerEnd_succ, ← hbefore] at hlowerEnd
    rcases exact_or_far haccurate hdigitsPos (Nat.not_lt.mp hlong) hlower hupper hs hn with
      hexact | hread | hfarLower
    · exact narrow_of_roundsTo (hexact ▸ hroundsTo)
    · exact narrow_of_narrowsToNearest hdigitsPos hlower hupper hc hroundsTo hread
    · rcases exact_or_far haccurate hdigitsPos (Nat.not_lt.mp hlong) hlower hupper ht hm with
        hexact | hread | hfarUpper
      · exact narrow_of_roundsTo (hexact ▸ hroundsTo)
      · exact narrow_of_narrowsToNearest hdigitsPos hlower hupper hc hroundsTo hread
      · rw [← hlowerEnd] at hfarLower
        rw [← hupperEnd] at hfarUpper
        exact narrow_of_roundsTo (roundsTo_of_far hroundsTo haccurate.near hfarLower hfarUpper)

/-- A whole number with a zero after the point is read exactly. -/
theorem exists_scale_whole {n : Nat} {place : Fin Format.single.magnitudes} (hpos : 0 < n)
    (hlt : n * 10 < 2 ^ 53) (h : Format.single.RoundsTo n place) :
    ∃ c : Fin Format.double.magnitudes, scale (n * 10) (-1) = some (.finite false c) ∧
      ∀ negative, (.finite negative c : Double).narrow = .finite negative place := by
  obtain ⟨c, hc, haccurate⟩ := exists_scaleDown (by omega : 0 < n * 10) (by decide : 1 ≤ 63) hlt
  obtain ⟨other, hother⟩ := exists_value_natCast (by omega : n < 2 ^ 53)
  have hdecimal : ((n * 10 : Nat) : ℚ) * 10 ^ (-(1 : Nat) : Int) = n := by
    rw [zpow_neg, zpow_natCast, pow_one, Nat.cast_mul, Nat.cast_ofNat,
      mul_inv_cancel_right₀ (by norm_num)]
  have hvalue : Format.double.value c = n := by
    have hexact := haccurate.exact (by decide) other
    rw [hdecimal] at hexact
    exact hexact hother
  refine ⟨c, ?_, narrow_of_roundsTo (hvalue.symm ▸ h)⟩
  rw [scale, if_neg (by decide)]
  exact congrArg some hc

end VisualNovel.Json.Numeral
