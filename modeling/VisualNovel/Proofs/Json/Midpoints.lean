import Mathlib.Algebra.Order.Field.Power
import VisualNovel.Proofs.Binary.Fractions
import VisualNovel.Proofs.Json.Numeral

/-!
# Decimals near a midpoint

A number that is rounded twice, first to a double and then to a single, may end at another single
than one that is rounded once, if it is near to a midpoint of two singles. A midpoint is a number of
at most 25 bits times a power of two, so a decimal of at most 25 bits that is near to one makes a
fraction of small numbers near to the power of ten. For each exponent the few such fractions are
found and the decimals that belong to them are tried (`separated_of_lt`). In the end a decimal that
is too near to a midpoint is that midpoint, or is read well (`eq_or_narrowsToNearest`).
-/

namespace VisualNovel.Json.Numeral

open Binary

/-! ## What is checked -/

/-- A significand times a power of ten, rounded as a numeral is read. -/
def product (digits : Nat) (exponent : Int) : Double :=
  if 0 ≤ exponent then .ofNat digits * powerOfTen exponent.toNat
  else .ofNat digits / powerOfTen (-exponent).toNat

/-- A scaled significand is the product. -/
theorem product_eq_of_scale {digits : Nat} {exponent : Int} (hexponent : exponent.natAbs ≤ 308)
    {x : Double} (h : scale digits exponent = some x) : product digits exponent = x := by
  rw [scale] at h
  rw [product]
  split at h
  · next hnonneg =>
    rw [scaleUp, if_pos (by omega)] at h
    rw [if_pos hnonneg]
    dsimp only at h
    split at h
    · exact Option.some.inj h
    · cases h
  · next hneg =>
    rw [scaleDown, if_pos (by omega)] at h
    rw [if_neg hneg]
    exact Option.some.inj h

/-- Whether a decimal that is read as a double and narrowed is the nearest single. -/
def narrowsToNearest (digits : Nat) (exponent : Int) : Bool :=
  (product digits exponent).narrow = .ofDecimal false digits exponent

/-- The power of two at a power of ten or next below it. -/
def binaryExponent (exponent : Int) : Int :=
  if 0 ≤ exponent then (10 ^ exponent.toNat).log2
  else -((10 ^ (-exponent).toNat).log2 + 1 : Nat)

/-- A power of ten over the power of two next below it, as a fraction. -/
def mantissa (exponent : Int) : Nat × Nat :=
  (10 ^ exponent.toNat * 2 ^ (-binaryExponent exponent).toNat,
    10 ^ (-exponent).toNat * 2 ^ (binaryExponent exponent).toNat)

/-- The numbers that, doubled some times, are a multiple of a number within a bound. -/
def divisorsOfMultiples (bound n : Nat) : List Nat :=
  (List.range (bound / n + 1)).flatMap fun factor =>
    ((List.range (bound.log2 + 1)).filter fun doublings => factor * n % 2 ^ doublings = 0).map
      fun doublings => factor * n / 2 ^ doublings

/-- Whether each decimal with an exponent, which makes a power of ten of a mantissa, is checked to
be read well if it is as near to a midpoint as the accuracy of reading, but is not that midpoint. -/
def separated (exponent : Int) (num den : Nat) : Bool :=
  den ≤ num && match fractionsBetween (num * (2 ^ 51 - 1)) (num * (2 ^ 51 + 1)) (den * 2 ^ 51)
      (2 ^ 25) 40 (0, 1) (1, 0) with
    | none => false
    | some found => found.all fun fraction =>
      fraction.1 * den = fraction.2 * num && exponent.natAbs ≤ 22 ||
        (divisorsOfMultiples (2 ^ 25) fraction.2).all (narrowsToNearest · exponent)

theorem separated_of_lt : ∀ n : Nat, n < 104 →
    separated ((n : Int) - 63) (mantissa ((n : Int) - 63)).1 (mantissa ((n : Int) - 63)).2 := by
  decide +kernel

/-! ## What follows from the check -/

theorem mem_divisorsOfMultiples {bound n digits factor doublings : Nat} (hdigits : 0 < digits)
    (heq : digits * 2 ^ doublings = factor * n) (hle : digits * 2 ^ doublings ≤ bound) :
    digits ∈ divisorsOfMultiples bound n := by
  have hpower : 0 < 2 ^ doublings := Nat.two_pow_pos doublings
  have hproduct : 0 < factor * n := heq ▸ Nat.mul_pos hdigits hpower
  have hn : 0 < n := Nat.pos_of_mul_pos_left hproduct
  have hfactor : factor < bound / n + 1 :=
    Nat.lt_succ_of_le ((Nat.le_div_iff_mul_le hn).mpr (heq ▸ hle))
  have hdoublings : doublings < bound.log2 + 1 := by
    refine Nat.lt_succ_of_le ((Nat.le_log2 ?_).mpr ?_)
    · omega
    · exact Nat.le_trans (Nat.le_mul_of_pos_left _ hdigits) hle
  rw [divisorsOfMultiples, List.mem_flatMap]
  refine ⟨factor, List.mem_range.mpr hfactor, List.mem_map.mpr ⟨doublings, ?_, ?_⟩⟩
  · rw [List.mem_filter, List.mem_range, ← heq, Nat.mul_mod_left]
    exact ⟨hdoublings, rfl⟩
  · rw [← heq, Nat.mul_div_cancel _ hpower]

/-- The mantissa times the power of two is the power of ten. -/
theorem mantissa_mul (exponent : Int) :
    ((mantissa exponent).1 : ℚ) / (mantissa exponent).2 * 2 ^ binaryExponent exponent =
      10 ^ exponent := by
  have htwo : (2 : ℚ) ≠ 0 := two_ne_zero
  rw [mantissa]
  push_cast
  rw [mul_div_mul_comm, pow_toNat_div_pow_toNat (by norm_num), mul_assoc]
  have hinverse := pow_toNat_div_pow_toNat htwo (-binaryExponent exponent)
  rw [neg_neg] at hinverse
  rw [hinverse, ← zpow_add₀ htwo, neg_add_cancel, zpow_zero, mul_one]

/-- Two products with powers of two, over a common power of two. The first factor is doubled if need
be, and stays within the bound of the second, to which the products are near. -/
theorem exists_doublings {digits n : Nat} {a : ℚ} (ha : 1 ≤ a) (hdigits : digits ≤ 2 ^ 25)
    (hn : n < 2 ^ 25) {b k : Int}
    (hnear : |digits * (a * 2 ^ b) - n * 2 ^ k| < digits * (a * 2 ^ b) / 2 ^ 51) :
    ∃ doublings multiple : Nat, ∃ w : ℚ, 0 < w ∧
      digits * (a * 2 ^ b) = (digits * 2 ^ doublings : Nat) * a * w ∧
      n * 2 ^ k = multiple * w ∧ digits * 2 ^ doublings ≤ 2 ^ 25 := by
  have htwo : (2 : ℚ) ≠ 0 := two_ne_zero
  by_cases hle : b ≤ k
  · refine ⟨0, n * 2 ^ (k - b).toNat, 2 ^ b, zpow_pos two_pos b, ?_, ?_, by omega⟩
    · push_cast
      ring
    · push_cast
      rw [mul_assoc, ← zpow_natCast, ← zpow_add₀ htwo]
      congr 2
      omega
  · have hpower : (2 : ℚ) ^ b = 2 ^ (b - k).toNat * 2 ^ k := by
      rw [← zpow_natCast, ← zpow_add₀ htwo]
      congr 1
      omega
    have hw : (0 : ℚ) < 2 ^ k := zpow_pos two_pos k
    have hproduct : digits * (a * 2 ^ b) = (digits * 2 ^ (b - k).toNat : Nat) * a * 2 ^ k := by
      rw [hpower]
      push_cast
      ring
    refine ⟨(b - k).toNat, n, 2 ^ k, hw, hproduct, rfl, ?_⟩
    rw [hproduct, ← sub_mul, abs_mul, abs_of_pos hw, mul_div_right_comm,
      mul_lt_mul_iff_left₀ hw] at hnear
    generalize digits * 2 ^ (b - k).toNat = doubled at hnear
    have hnCast : (n : ℚ) ≤ 2 ^ 25 - 1 := by
      rw [le_sub_iff_add_le]
      exact_mod_cast hn
    have hle : (doubled : ℚ) ≤ doubled * a := le_mul_of_one_le_right (Nat.cast_nonneg _) ha
    have hlt := (abs_lt.mp hnear).2
    have hdoubled : (doubled : ℚ) ≤ 2 ^ 25 := by
      by_contra hgt
      rw [not_le] at hgt
      linarith
    exact_mod_cast hdoubled

/-- What the check of an exponent says. -/
theorem exists_of_separated {exponent : Int} {num den : Nat} (h : separated exponent num den) :
    den ≤ num ∧ ∃ found,
      fractionsBetween (num * (2 ^ 51 - 1)) (num * (2 ^ 51 + 1)) (den * 2 ^ 51) (2 ^ 25) 40
        (0, 1) (1, 0) = some found ∧
      ∀ fraction ∈ found, fraction.1 * den = fraction.2 * num ∧ exponent.natAbs ≤ 22 ∨
        ∀ digits ∈ divisorsOfMultiples (2 ^ 25) fraction.2, narrowsToNearest digits exponent := by
  rw [separated, Bool.and_eq_true, decide_eq_true_eq] at h
  obtain ⟨hle, hfractions⟩ := h
  refine ⟨hle, ?_⟩
  split at hfractions
  · exact absurd hfractions Bool.false_ne_true
  · next found hfound =>
    refine ⟨found, hfound, fun fraction hfraction => ?_⟩
    have hchecked := List.all_eq_true.mp hfractions fraction hfraction
    rw [Bool.or_eq_true, Bool.and_eq_true, decide_eq_true_eq, decide_eq_true_eq,
      List.all_eq_true] at hchecked
    exact hchecked

/-- What is near to a multiple of a fraction, as a fraction, lies in the interval around it. -/
theorem bounds_of_near {num den n m : Nat} (hden : 0 < den)
    (h : |(m : ℚ) * (num / den) - n| < m * (num / den) / 2 ^ 51) :
    num * (2 ^ 51 - 1) * m < n * (den * 2 ^ 51) ∧ n * (den * 2 ^ 51) < num * (2 ^ 51 + 1) * m := by
  have hdenPos : (0 : ℚ) < den := Nat.cast_pos.mpr hden
  rw [abs_lt, mul_div_assoc'] at h
  obtain ⟨hupper, hlower⟩ := h
  have hcancel : (m : ℚ) * num / den * den = m * num := div_mul_cancel₀ _ hdenPos.ne'
  have hlowerMul := mul_lt_mul_of_pos_right hlower hdenPos
  have hupperMul := mul_lt_mul_of_pos_right hupper hdenPos
  rw [sub_mul, hcancel, div_mul_eq_mul_div, hcancel] at hlowerMul
  rw [sub_mul, hcancel, neg_mul, div_mul_eq_mul_div, hcancel] at hupperMul
  have hpower : ((2 ^ 51 - 1 : Nat) : ℚ) = 2 ^ 51 - 1 := by norm_num
  constructor
  · have hcast : ((num * (2 ^ 51 - 1) * m : Nat) : ℚ) < (n * (den * 2 ^ 51) : Nat) := by
      rw [Nat.cast_mul, Nat.cast_mul, hpower]
      push_cast
      linarith
    exact_mod_cast hcast
  · have hcast : ((n * (den * 2 ^ 51) : Nat) : ℚ) < (num * (2 ^ 51 + 1) * m : Nat) := by
      push_cast
      linarith
    exact_mod_cast hcast

/-- A decimal that is as near to a midpoint as the accuracy of reading is that midpoint, or is read
well. -/
theorem eq_or_narrowsToNearest {digits n : Nat} {exponent k : Int} (hpos : 0 < digits)
    (hdigits : digits ≤ 2 ^ 25) (hlower : -63 ≤ exponent) (hupper : exponent ≤ 40) (hn : n < 2 ^ 25)
    (hnear : |(digits : ℚ) * 10 ^ exponent - n * 2 ^ k| < digits * 10 ^ exponent / 2 ^ 51) :
    (digits : ℚ) * 10 ^ exponent = n * 2 ^ k ∧ exponent.natAbs ≤ 22 ∨
      narrowsToNearest digits exponent := by
  have hseparated := separated_of_lt (exponent + 63).toNat (by omega)
  rw [show ((exponent + 63).toNat : Int) - 63 = exponent by omega] at hseparated
  obtain ⟨hle, found, hfound, hchecked⟩ := exists_of_separated hseparated
  have hden : 0 < (mantissa exponent).2 := Nat.mul_pos (Nat.pow_pos (by decide)) (Nat.two_pow_pos _)
  rw [← mantissa_mul exponent] at hnear ⊢
  generalize (mantissa exponent).1 = num at *
  generalize (mantissa exponent).2 = den at *
  have hdenPos : (0 : ℚ) < den := Nat.cast_pos.mpr hden
  have ha : 1 ≤ (num : ℚ) / den := by
    rw [one_le_div hdenPos]
    exact_mod_cast hle
  obtain ⟨doublings, multiple, w, hw, hproduct, hmultiple, hbound⟩ :=
    exists_doublings ha hdigits hn hnear
  rw [hproduct, hmultiple, ← sub_mul, abs_mul, abs_of_pos hw, mul_div_right_comm,
    mul_lt_mul_iff_left₀ hw] at hnear
  obtain ⟨hinsideLeft, hinsideRight⟩ := bounds_of_near hden hnear
  have hdoubled : 0 < digits * 2 ^ doublings := Nat.mul_pos hpos (Nat.two_pow_pos doublings)
  have hmultiplePos : 0 < multiple :=
    Nat.pos_of_mul_pos_right (Nat.zero_lt_of_lt hinsideLeft)
  obtain ⟨fraction, hfraction, factor, hfactorLeft, hfactorRight⟩ :=
    mem_fractionsBetween hfound ⟨rfl, by omega, by omega⟩ hinsideLeft hinsideRight hbound
  rcases hchecked fraction hfraction with ⟨hexact, hsmall⟩ | hread
  · -- the fraction is the mantissa itself, so the products are equal
    refine Or.inl ⟨?_, hsmall⟩
    rw [hproduct, hmultiple, mul_div_assoc']
    congr 1
    rw [div_eq_iff hdenPos.ne', hfactorLeft, hfactorRight]
    have hexactCast : (fraction.1 : ℚ) * den = fraction.2 * num := by exact_mod_cast hexact
    push_cast
    rw [mul_assoc, mul_assoc, hexactCast]
  · exact Or.inr (hread digits (mem_divisorsOfMultiples hpos hfactorRight hbound))

end VisualNovel.Json.Numeral
