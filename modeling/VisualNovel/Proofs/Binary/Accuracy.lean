import VisualNovel.Proofs.Binary.Nearest
import Mathlib.Tactic.FieldSimp
import Mathlib.Tactic.Linarith
import Mathlib.Tactic.Positivity

/-!
# The accuracy of double precision

The value of a place is a rational number. As long as it is neither tiny nor huge, a double that is
rounded once differs from the exact value by at most one part in `2 ^ 53`, and is the exact value if
that is the value of a place (`Binary.exists_ofPlace`).
-/

namespace VisualNovel.Binary

namespace Format

variable {f : Format}

/-- The magnitude at a place. -/
def value (f : Format) (place : Nat) : ℚ := f.units place / 2 ^ f.unitPlaces

/-- A quotient that is at least the leading significand has a full significand on some scale. -/
theorem exists_scale {num den : Nat} (hden : 0 < den) (h : f.leading * den ≤ num) :
    ∃ s, f.leading * den <<< s ≤ num ∧ num < 2 * f.leading * den <<< s := by
  have hquotient : f.leading ≤ num / den := (Nat.le_div_iff_mul_le hden).mpr h
  have hpos : num / den ≠ 0 := by
    have := f.leading_pos
    omega
  have hlog : f.precision - 1 ≤ (num / den).log2 := by
    rw [leading, Nat.one_shiftLeft] at hquotient
    exact (Nat.le_log2 hpos).mpr hquotient
  obtain ⟨s, hs⟩ := Nat.exists_eq_add_of_le hlog
  obtain ⟨hle, hlt⟩ := (Nat.log2_eq_iff hpos).mp hs
  have hpower (k : Nat) : k * den <<< s = k * 2 ^ s * den := by
    rw [Nat.shiftLeft_eq]
    ring
  rw [Nat.le_div_iff_mul_le hden, Nat.pow_add] at hle
  rw [Nat.div_lt_iff_lt_mul hden, Nat.pow_succ, Nat.pow_add] at hlt
  refine ⟨s, ?_, ?_⟩
  · rw [hpower, leading, Nat.one_shiftLeft]
    exact hle
  · rw [hpower, leading, Nat.one_shiftLeft, Nat.mul_comm 2, Nat.mul_right_comm _ 2]
    exact hlt

/-- Where the significand has its full length, rounding changes a quotient by half a step of it at
most. -/
theorem abs_units_nearest_sub_le {num den : Nat} (hden : 0 < den) (h : f.leading * den ≤ num) :
    |(f.units (f.nearest num den) : ℚ) - num / den| ≤ num / den / (2 * f.leading) := by
  obtain ⟨s, hle, hlt⟩ := exists_scale hden h
  have hstep : 0 < den <<< s := Nat.shiftLeft_pos_iff.mpr hden
  rw [nearest_eq (log2_div_of_scale hden hle hlt),
    units_eq (Or.inr (le_roundHalfEven hstep hle)) (roundHalfEven_le hstep (Nat.le_of_lt hlt))]
  obtain ⟨hlower, hupper⟩ := roundHalfEven_error num hstep
  generalize roundHalfEven num (den <<< s) = n at hlower hupper ⊢
  rw [Nat.shiftLeft_eq] at *
  have hdenPos : (0 : ℚ) < den := Nat.cast_pos.mpr hden
  have hleading : (0 : ℚ) < f.leading := Nat.cast_pos.mpr f.leading_pos
  have hlowerCast : 2 * ((n : ℚ) * (den * 2 ^ s)) ≤ 2 * num + den * 2 ^ s := by
    exact_mod_cast hlower
  have hupperCast : 2 * (num : ℚ) ≤ 2 * (n * (den * 2 ^ s)) + den * 2 ^ s := by
    exact_mod_cast hupper
  have hleCast : (f.leading : ℚ) * (den * 2 ^ s) ≤ num := by exact_mod_cast hle
  have hhalf : (2 : ℚ) ^ s / 2 ≤ num / den / (2 * f.leading) := by
    rw [le_div_iff₀ (by positivity), le_div_iff₀ hdenPos]
    linarith
  refine le_trans ?_ hhalf
  rw [abs_le]
  push_cast
  constructor
  · rw [neg_le_sub_iff_le_add, div_le_iff₀ hdenPos]
    linarith
  · rw [sub_le_iff_le_add', ← sub_le_iff_le_add, le_div_iff₀ hdenPos]
    linarith

/-- A number is rounded to a place: it is between the ends of the interval, and reaches them only if
the place is even. -/
structure RoundsTo (f : Format) (x : ℚ) (place : Nat) : Prop where
  lower : f.lowerEnd place ≤ x * 2 ^ (f.unitPlaces + 1)
  upper : x * 2 ^ (f.unitPlaces + 1) ≤ f.upperEnd place
  ties : f.lowerEnd place = x * 2 ^ (f.unitPlaces + 1) ∨
    x * 2 ^ (f.unitPlaces + 1) = f.upperEnd place → place % 2 = 0

/-- A fraction of half units reads back as a place if it is rounded to it. -/
theorem readsBack_iff_roundsTo {place point scale : Nat} {x : ℚ} (hscale : 0 < scale)
    (hx : (point : ℚ) / scale = x * 2 ^ (f.unitPlaces + 1)) :
    f.readsBack place point scale ↔ f.RoundsTo x place := by
  have hpos : (0 : ℚ) < scale := Nat.cast_pos.mpr hscale
  rw [readsBack_iff]
  constructor
  · rintro ⟨hlower, hupper, hties⟩
    refine ⟨?_, ?_, ?_⟩
    · rw [← hx, le_div_iff₀ hpos]
      exact_mod_cast hlower
    · rw [← hx, div_le_iff₀ hpos]
      exact_mod_cast hupper
    · rw [← hx, eq_div_iff hpos.ne', div_eq_iff hpos.ne']
      exact_mod_cast hties
  · rintro ⟨hlower, hupper, hties⟩
    rw [← hx, le_div_iff₀ hpos] at hlower
    rw [← hx, div_le_iff₀ hpos] at hupper
    rw [← hx, eq_div_iff hpos.ne', div_eq_iff hpos.ne'] at hties
    exact ⟨by exact_mod_cast hlower, by exact_mod_cast hupper, by exact_mod_cast hties⟩

end Format

/-- A quotient that is rounded to a place becomes the number at the place. -/
theorem ofQuotient_of_roundsTo {f : Format} (heven : f.leading % 2 = 0) {num den : Nat}
    (hden : 0 < den) {place : Fin f.magnitudes} (h : f.RoundsTo ((num : ℚ) / den) place)
    (negative : Bool) : ofQuotient negative num den = .finite negative place := by
  have hpoint : ((2 * num <<< f.unitPlaces : Nat) : ℚ) / den =
      num / den * 2 ^ (f.unitPlaces + 1) := by
    rw [Nat.shiftLeft_eq]
    push_cast
    ring
  rw [ofQuotient, f.nearest_of_readsBack heven hden
    ((Format.readsBack_iff_roundsTo hden hpoint).mpr h), ofPlace_of_lt place.isLt]

/-! ## Powers -/

theorem pow_toNat_div_pow_toNat {x : ℚ} (hx : x ≠ 0) (k : Int) :
    x ^ k.toNat / x ^ (-k).toNat = x ^ k := by
  rw [← zpow_natCast, ← zpow_natCast, ← zpow_sub₀ hx]
  congr 1
  omega

theorem cast_shiftLeft (n k : Nat) : ((n <<< k : Nat) : ℚ) = n * 2 ^ k := by
  rw [Nat.shiftLeft_eq, Nat.cast_mul, Nat.cast_pow, Nat.cast_ofNat]

/-! ## Double precision -/

/-- A number that is far from the ends of the range of doubles. -/
structure Moderate (x : ℚ) : Prop where
  le : 1 / 2 ^ 250 ≤ x
  le_pow : x ≤ 2 ^ 250

theorem leading_double : (Format.double.leading : ℚ) = 2 ^ 52 := by
  have hleading : Format.double.leading = 2 ^ 52 := by decide
  rw [hleading, Nat.cast_pow, Nat.cast_ofNat]

/-- The first power of two beyond the doubles. -/
theorem units_magnitudes_double :
    (Format.double.units Format.double.magnitudes : ℚ) = 2 ^ 1024 * 2 ^ 1074 := by
  have hunits : Format.double.units Format.double.magnitudes = 2 ^ 1024 * 2 ^ 1074 := by
    decide +kernel
  rw [hunits, Nat.cast_mul, Nat.cast_pow, Nat.cast_pow, Nat.cast_ofNat]

theorem pow_unitPlaces_pos : (0 : ℚ) < 2 ^ Format.double.unitPlaces := by positivity

/-- A place is what an exact value is rounded to: it is near, and exact if any place is. -/
structure Rounded (place : Nat) (x : ℚ) : Prop where
  near : |Format.double.value place - x| ≤ x / 2 ^ 53
  exact : ∀ other, Format.double.value other = x → Format.double.value place = x

section Quotient

variable {num den : Nat} {x : ℚ} (hden : 0 < den) (hx : Moderate x)
  (heq : (num : ℚ) / den = x * 2 ^ Format.double.unitPlaces)
include hden hx heq

/-- A value that is not too small fills the significand. -/
theorem leading_mul_le_of_moderate : Format.double.leading * den ≤ num := by
  have hunit : (2 : ℚ) ^ 52 * 2 ^ 250 ≤ 2 ^ Format.double.unitPlaces := by
    rw [← pow_add]
    exact pow_le_pow_right₀ one_le_two (by decide)
  have hle : (Format.double.leading : ℚ) ≤ num / den := by
    have hxPos : 0 < x := lt_of_lt_of_le (by norm_num) hx.le
    have hmul := mul_le_mul hx.le hunit (by norm_num) hxPos.le
    rw [heq, leading_double]
    refine le_trans (le_of_eq ?_) hmul
    norm_num
  rw [le_div_iff₀ (Nat.cast_pos.mpr hden)] at hle
  exact_mod_cast hle

/-- The error of rounding, in units. -/
theorem abs_nearest_sub_le :
    |(Format.double.units (Format.double.nearest num den) : ℚ) -
        x * 2 ^ Format.double.unitPlaces| ≤ x * 2 ^ Format.double.unitPlaces / 2 ^ 53 := by
  have herror := Format.abs_units_nearest_sub_le hden (leading_mul_le_of_moderate hden hx heq)
  rw [leading_double, ← pow_succ', heq] at herror
  exact herror

/-- A value that is not too large is rounded to a finite place. -/
theorem nearest_lt_magnitudes : Format.double.nearest num den < Format.double.magnitudes := by
  have herror := (abs_le.mp (abs_nearest_sub_le hden hx heq)).2
  have hxPos : 0 < x := lt_of_lt_of_le (by norm_num) hx.le
  have hbeyond : (2 : ℚ) ^ 251 * 2 ^ Format.double.unitPlaces <
      Format.double.units Format.double.magnitudes := by
    rw [units_magnitudes_double]
    exact mul_lt_mul_of_pos_right (pow_lt_pow_right₀ one_lt_two (by decide)) (by positivity)
  -- only the sign of the unit matters, and its digits stay closed
  have hunitPos := pow_unitPlaces_pos
  generalize (2 : ℚ) ^ Format.double.unitPlaces = unit at *
  by_contra hge
  have hmono : (Format.double.units Format.double.magnitudes : ℚ) ≤
      Format.double.units (Format.double.nearest num den) :=
    Nat.cast_le.mpr (Format.double.units_mono (Nat.not_lt.mp hge))
  have hxUnit : x * unit ≤ 2 ^ 250 * unit := mul_le_mul_of_nonneg_right hx.le_pow hunitPos.le
  have hpos : 0 < x * unit := mul_pos hxPos hunitPos
  linarith

theorem rounded_nearest : Rounded (Format.double.nearest num den) x := by
  have herror := abs_nearest_sub_le hden hx heq
  have hunitPos := pow_unitPlaces_pos
  constructor
  case near =>
    have hvalue : Format.double.value (Format.double.nearest num den) - x =
        (Format.double.units (Format.double.nearest num den) -
          x * 2 ^ Format.double.unitPlaces) / 2 ^ Format.double.unitPlaces := by
      rw [Format.value, sub_div, mul_div_cancel_right₀ _ hunitPos.ne']
    rw [hvalue, abs_div, abs_of_pos hunitPos, div_le_iff₀ hunitPos, div_mul_eq_mul_div]
    exact herror
  case exact =>
    intro other hother
    have hexact := hother
    rw [Format.value, div_eq_iff hunitPos.ne', ← heq,
      eq_div_iff (Nat.cast_pos.mpr hden).ne'] at hexact
    have hnum : num = Format.double.units other * den := by exact_mod_cast hexact.symm
    have hnearest : Format.double.nearest num den = other :=
      hnum ▸ Format.double.nearest_units other hden
    rw [hnearest]
    exact hother

/-- A quotient whose value is not too large or small is rounded to a double. -/
theorem exists_ofPlace (negative : Bool) : ∃ place : Fin Format.double.magnitudes,
    (ofPlace negative (Format.double.nearest num den) : Double) = .finite negative place ∧
      Rounded place x :=
  have hplace := nearest_lt_magnitudes hden hx heq
  ⟨⟨_, hplace⟩, ofPlace_of_lt hplace, rounded_nearest hden hx heq⟩

end Quotient

/-- A whole number of powers of two is the value of a place if it fits the significand. -/
theorem exists_units {n k : Nat} (hn : n < 2 ^ 53) (hk : k ≤ 2000) :
    ∃ place : Fin Format.double.magnitudes, Format.double.units place = n <<< k := by
  obtain ⟨place, hplace, hunits⟩ := Format.double.exists_units_eq k (n := n) (by
    have hleading : 2 * Format.double.leading = 2 ^ 53 := by decide
    omega)
  have hlt : place < Format.double.magnitudes := by
    refine Nat.lt_of_lt_of_le hplace ?_
    refine Nat.le_trans (Nat.mul_le_mul_right _ (by omega : k + 2 ≤ 2002)) ?_
    decide +kernel
  exact ⟨⟨place, hlt⟩, hunits⟩

/-- The number nearest to a decimal that is not too large or small is that of its quotient. -/
theorem ofDecimal_eq {f : Format} {negative : Bool} {digits : Nat} {exponent : Int}
    (hdigits : digits ≠ 0) (hhigh : exponent ≤ f.unitPlaces)
    (hlow : -(f.unitPlaces : Int) ≤ exponent + digits.log2 + 1) :
    (ofDecimal negative digits exponent : Binary f) =
      ofQuotient negative (digits * 10 ^ exponent.toNat) (10 ^ (-exponent).toNat) := by
  rw [ofDecimal, if_neg hdigits, if_neg (Int.not_lt.mpr hhigh), if_neg (Int.not_lt.mpr hlow)]
  rfl

/-- A product of doubles is rounded once. -/
theorem exists_mul {a b : Fin Format.double.magnitudes}
    (h : Moderate (Format.double.value a * Format.double.value b)) :
    ∃ c : Fin Format.double.magnitudes,
      (.finite false a * .finite false b : Double) = .finite false c ∧
        Rounded c (Format.double.value a * Format.double.value b) := by
  have hpos := pow_unitPlaces_pos
  refine exists_ofPlace (Nat.shiftLeft_pos_iff.mpr Nat.one_pos) h ?_ false
  rw [Format.value, Format.value, cast_shiftLeft, Nat.cast_mul, Nat.cast_one, one_mul]
  field_simp

/-- A quotient of doubles is rounded once. -/
theorem exists_div {a b : Fin Format.double.magnitudes} (hb : 0 < Format.double.value b)
    (h : Moderate (Format.double.value a / Format.double.value b)) :
    ∃ c : Fin Format.double.magnitudes,
      (.finite false a / .finite false b : Double) = .finite false c ∧
        Rounded c (Format.double.value a / Format.double.value b) := by
  have hpos := pow_unitPlaces_pos
  have hunits : 0 < Format.double.units b := by
    rw [Format.value, div_pos_iff_of_pos_right hpos] at hb
    exact_mod_cast hb
  have hdiv : (.finite false a / .finite false b : Double) =
      ofQuotient false (Format.double.units a) (Format.double.units b) :=
    if_neg (Nat.pos_iff_ne_zero.mp hunits)
  rw [hdiv, ofQuotient]
  refine exists_ofPlace hunits h ?_ false
  rw [Format.value, Format.value, cast_shiftLeft]
  field_simp

end VisualNovel.Binary
