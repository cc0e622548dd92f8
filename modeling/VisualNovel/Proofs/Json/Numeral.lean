import VisualNovel.Json.Numeral
import VisualNovel.Proofs.Binary.Accuracy

/-!
# How accurately numerals are read

A significand is rounded to a double and multiplied or divided by a power of ten, which is rounded
itself.
-/

namespace VisualNovel.Json.Numeral

open Binary

/-! ## Significands and powers of ten -/

/-- A number with at most as many bits as a significand is a double. -/
theorem exists_value_natCast {n : Nat} (hlt : n < 2 ^ 53) :
    ∃ place : Fin Format.double.magnitudes, Format.double.value place = n := by
  obtain ⟨place, hplace⟩ := exists_units hlt (by decide : Format.double.unitPlaces ≤ 2000)
  refine ⟨place, ?_⟩
  rw [Format.value, hplace, cast_shiftLeft, mul_div_cancel_right₀ _ pow_unitPlaces_pos.ne']

/-- A significand that is not too large is exact. -/
theorem exists_ofNat {n : Nat} (hpos : 0 < n) (hlt : n < 2 ^ 53) :
    ∃ place : Fin Format.double.magnitudes, (Binary.ofNat n : Double) = .finite false place ∧
      Format.double.value place = n := by
  have hmoderate : Moderate (n : ℚ) := by
    have hge : (1 : ℚ) ≤ n := by exact_mod_cast hpos
    have hle : (n : ℚ) ≤ 2 ^ 53 := by exact_mod_cast hlt.le
    exact ⟨le_trans (by norm_num) hge, le_trans hle (by norm_num)⟩
  have heq : ((n <<< Format.double.unitPlaces : Nat) : ℚ) / (1 : Nat) =
      n * 2 ^ Format.double.unitPlaces := by
    rw [cast_shiftLeft, Nat.cast_one, div_one]
  obtain ⟨place, hplace, hrounded⟩ := exists_ofPlace Nat.one_pos hmoderate heq false
  obtain ⟨exact, hexact⟩ := exists_value_natCast hlt
  exact ⟨place, hplace, hrounded.exact exact hexact⟩

/-- The powers of ten that are used are far from the ends of the range. -/
theorem pow_bounds {n : Nat} (hn : n ≤ 63) : (1 : ℚ) ≤ 10 ^ n ∧ (10 : ℚ) ^ n ≤ 2 ^ 210 :=
  ⟨one_le_pow₀ (by norm_num), le_trans (pow_le_pow_right₀ (by norm_num) hn) (by norm_num)⟩

/-- A power of ten is rounded once. -/
theorem exists_powerOfTen {n : Nat} (hn : n ≤ 63) :
    ∃ place : Fin Format.double.magnitudes, powerOfTen n = .finite false place ∧
      Rounded place (10 ^ n) := by
  obtain ⟨hge, hle⟩ := pow_bounds hn
  have hmoderate : Moderate (10 ^ n : ℚ) :=
    ⟨le_trans (by norm_num) hge, le_trans hle (by norm_num)⟩
  have hpower : powerOfTen n = ofQuotient false (10 ^ n) 1 := by
    have hexponent : (n : Int) ≤ Format.double.unitPlaces := by
      rw [show Format.double.unitPlaces = 1074 from rfl]
      omega
    rw [powerOfTen, ofDecimal_eq Nat.one_ne_zero hexponent (by omega), Nat.one_mul,
      Int.toNat_natCast, Int.toNat_neg_natCast, Nat.pow_zero]
  have heq : ((10 ^ n <<< Format.double.unitPlaces : Nat) : ℚ) / (1 : Nat) =
      10 ^ n * 2 ^ Format.double.unitPlaces := by
    rw [cast_shiftLeft, Nat.cast_pow, Nat.cast_ofNat, Nat.cast_one, div_one]
  rw [hpower]
  exact exists_ofPlace Nat.one_pos hmoderate heq false

/-- Small powers of ten are doubles. -/
theorem exists_value_pow {n : Nat} (hn : n ≤ 22) :
    ∃ place : Fin Format.double.magnitudes, Format.double.value place = 10 ^ n := by
  have hunit := pow_unitPlaces_pos
  have hfive : 5 ^ n < 2 ^ 53 :=
    Nat.lt_of_le_of_lt (Nat.pow_le_pow_right (by decide) hn) (by decide)
  obtain ⟨place, hplace⟩ := exists_units hfive
    (by rw [show Format.double.unitPlaces = 1074 from rfl]; omega :
      n + Format.double.unitPlaces ≤ 2000)
  refine ⟨place, ?_⟩
  rw [Format.value, hplace, cast_shiftLeft, Nat.cast_pow, Nat.cast_ofNat, pow_add, ← mul_assoc,
    ← mul_pow, mul_div_cancel_right₀ _ hunit.ne']
  norm_num

/-! ## Scaling -/

/-- A place is what a decimal is read as: it is near, and exact if any place is and the power of ten
is a double. -/
structure Accurate (place : Nat) (digits : Nat) (exponent : Int) : Prop where
  near : |Format.double.value place - digits * 10 ^ exponent| < digits * 10 ^ exponent / 2 ^ 51
  exact : exponent.natAbs ≤ 22 → ∀ other, Format.double.value other = digits * 10 ^ exponent →
    Format.double.value place = digits * 10 ^ exponent

/-- Two errors, of which one is a single rounding, stay below one part in `2 ^ 51`. -/
theorem near_of_near {x y v : ℚ} (hv : 0 < v) (hx : |x - v| ≤ v / 2 ^ 52)
    (hy : |y - x| ≤ x / 2 ^ 53) : |y - v| < v / 2 ^ 51 := by
  rw [abs_le] at hx hy
  rw [abs_lt]
  constructor <;> linarith

/-- The error of a factor is that of the product. -/
theorem near_mul {x p q : ℚ} (hx : 0 ≤ x) (h : |q - p| ≤ p / 2 ^ 52) :
    |x * q - x * p| ≤ x * p / 2 ^ 52 := by
  rw [← mul_sub, abs_mul, abs_of_nonneg hx, mul_div_assoc]
  exact mul_le_mul_of_nonneg_left h hx

/-- The error of a divisor, in parts of what it was rounded to, is that of the quotient. -/
theorem near_div {x p q : ℚ} (hx : 0 ≤ x) (hp : 0 < p) (hq : 0 < q) (h : |q - p| ≤ q / 2 ^ 52) :
    |x / q - x / p| ≤ x / p / 2 ^ 52 := by
  have hdifference : x / q - x / p = -(x * (q - p)) / (q * p) := by
    field_simp
    ring
  have hscaled : x / p / 2 ^ 52 * (q * p) = x * (q / 2 ^ 52) := by
    field_simp
  have hproduct := mul_pos hq hp
  rw [hdifference, abs_div, abs_neg, abs_mul, abs_of_nonneg hx, abs_of_pos hproduct,
    div_le_iff₀ hproduct, hscaled]
  exact mul_le_mul_of_nonneg_left h hx

variable {digits n : Nat} (hpos : 0 < digits) (hn : n ≤ 63)
include hpos hn

/-- Multiplying by a power of ten is accurate. -/
theorem exists_scaleUp (hlt : digits < 2 ^ 30) : ∃ place : Fin Format.double.magnitudes,
    scaleUp (Binary.ofNat digits) n = some (.finite false place) ∧ Accurate place digits n := by
  obtain ⟨a, ha, hvalueA⟩ := exists_ofNat hpos (Nat.lt_trans hlt (by decide))
  obtain ⟨b, hb, hroundedB⟩ := exists_powerOfTen hn
  obtain ⟨hpowerGe, hpowerLe⟩ := pow_bounds hn
  have hdigitsGe : (1 : ℚ) ≤ digits := by exact_mod_cast hpos
  have hdigitsLe : (digits : ℚ) ≤ 2 ^ 30 := by exact_mod_cast hlt.le
  have hproductGe : (1 : ℚ) ≤ digits * 10 ^ n := one_le_mul_of_one_le_of_one_le hdigitsGe hpowerGe
  have hproductLe : (digits : ℚ) * 10 ^ n ≤ 2 ^ 30 * 2 ^ 210 :=
    mul_le_mul hdigitsLe hpowerLe (by positivity) (by positivity)
  have hnearB : |Format.double.value b - 10 ^ n| ≤ 10 ^ n / 2 ^ 52 :=
    le_trans hroundedB.near (by linarith)
  have hnear := near_mul digits.cast_nonneg hnearB
  have hmoderate : Moderate (Format.double.value a * Format.double.value b) := by
    rw [hvalueA]
    rw [abs_le] at hnear
    constructor <;> linarith
  obtain ⟨c, hc, hrounded⟩ := exists_mul hmoderate
  rw [hvalueA] at hrounded
  refine ⟨c, ?_, ?_, ?_⟩
  · rw [scaleUp, if_pos (by omega), ha, hb, hc]
    rfl
  · rw [zpow_natCast]
    exact near_of_near (by positivity) hnear hrounded.near
  · intro hsmall other hother
    rw [zpow_natCast] at hother ⊢
    obtain ⟨exact, hexact⟩ := exists_value_pow (by omega : n ≤ 22)
    rw [← hroundedB.exact exact hexact] at hother ⊢
    exact hrounded.exact other hother

/-- Dividing by a power of ten is accurate. -/
theorem exists_scaleDown (hlt : digits < 2 ^ 53) : ∃ place : Fin Format.double.magnitudes,
    scaleDown (Binary.ofNat digits) n = .finite false place ∧ Accurate place digits (-n) := by
  obtain ⟨a, ha, hvalueA⟩ := exists_ofNat hpos hlt
  obtain ⟨b, hb, hroundedB⟩ := exists_powerOfTen hn
  obtain ⟨hpowerGe, hpowerLe⟩ := pow_bounds hn
  have hdigitsGe : (1 : ℚ) ≤ digits := by exact_mod_cast hpos
  have hdigitsLe : (digits : ℚ) ≤ 2 ^ 53 := by exact_mod_cast hlt.le
  have hb53 := abs_le.mp hroundedB.near
  have hvalueB : 1 / 2 ≤ Format.double.value b ∧ Format.double.value b ≤ 2 ^ 211 := by
    constructor <;> linarith
  have hvalueBPos : 0 < Format.double.value b := lt_of_lt_of_le (by norm_num) hvalueB.1
  have hnearB : |Format.double.value b - 10 ^ n| ≤ Format.double.value b / 2 ^ 52 :=
    le_trans hroundedB.near (by linarith)
  have hnear := near_div digits.cast_nonneg (by positivity) hvalueBPos hnearB
  have hmoderate : Moderate (Format.double.value a / Format.double.value b) := by
    rw [hvalueA]
    constructor
    · rw [div_le_div_iff₀ (by positivity) hvalueBPos]
      linarith
    · rw [div_le_iff₀ hvalueBPos]
      linarith
  obtain ⟨c, hc, hrounded⟩ := exists_div hvalueBPos hmoderate
  rw [hvalueA] at hrounded
  have hdecimal : (digits : ℚ) * 10 ^ (-n : Int) = digits / 10 ^ n := by
    rw [zpow_neg, zpow_natCast, div_eq_mul_inv]
  refine ⟨c, ?_, ?_, ?_⟩
  · rw [scaleDown, if_pos (by omega), ha, hb, hc]
  · rw [hdecimal]
    exact near_of_near (by positivity) hnear hrounded.near
  · intro hsmall other hother
    rw [hdecimal] at hother ⊢
    obtain ⟨exact, hexact⟩ := exists_value_pow (by omega : n ≤ 22)
    rw [← hroundedB.exact exact hexact] at hother ⊢
    exact hrounded.exact other hother

omit hn in
/-- A significand and an exponent, neither of them large, are read accurately. -/
theorem exists_scale (hlt : digits < 2 ^ 30) {exponent : Int} (hexponent : exponent.natAbs ≤ 63) :
    ∃ place : Fin Format.double.magnitudes,
      scale digits exponent = some (.finite false place) ∧ Accurate place digits exponent := by
  rw [scale]
  split
  · next hnonneg =>
    have hup := exists_scaleUp hpos (by omega : exponent.toNat ≤ 63) hlt
    rwa [Int.toNat_of_nonneg hnonneg] at hup
  · next hneg =>
    obtain ⟨place, hplace, haccurate⟩ := exists_scaleDown hpos (by omega : (-exponent).toNat ≤ 63)
      (Nat.lt_trans hlt (by decide))
    rw [Int.toNat_of_nonneg (by omega), neg_neg] at haccurate
    exact ⟨place, congrArg some hplace, haccurate⟩

end VisualNovel.Json.Numeral
