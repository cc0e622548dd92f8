import VisualNovel.Binary.Shortest
import VisualNovel.Proofs.Binary.Order
import Mathlib.Algebra.Order.Field.Rat
import Mathlib.Tactic.Ring

/-!
# The nearest place

A quotient is rounded to a place exactly if it lies between the ends of the interval of the place
(`Format.nearest_of_readsBack`): this is what `Format.readsBack` says, and it ties rounding to the
search for shortest decimals.
-/

namespace VisualNovel

/-! ## Whole numbers -/

/-- A whole number is the nearest one if it is at most one half away, and even where it is just
that. -/
theorem roundHalfEven_eq {num den n : Nat} (hden : 0 < den) (hlower : 2 * (n * den) ≤ 2 * num + den)
    (hupper : 2 * num ≤ 2 * (n * den) + den)
    (hties : 2 * (n * den) = 2 * num + den ∨ 2 * num = 2 * (n * den) + den → n % 2 = 0) :
    roundHalfEven num den = n := by
  have hnum := Nat.div_add_mod' num den
  have hmod := Nat.mod_lt num hden
  have hn : n = num / den ∨ n = num / den + 1 := by
    have hle : num / den ≤ n := by
      by_contra hlt
      have hmul : (n + 1) * den ≤ num / den * den := Nat.mul_le_mul_right den (Nat.not_le.mp hlt)
      rw [Nat.add_one_mul n] at hmul
      omega
    have hge : n ≤ num / den + 1 := by
      by_contra hlt
      have hmul : (num / den + 1 + 1) * den ≤ n * den :=
        Nat.mul_le_mul_right den (Nat.not_le.mp hlt)
      rw [Nat.add_one_mul (num / den + 1), Nat.add_one_mul (num / den)] at hmul
      omega
    omega
  rw [roundHalfEven]
  rcases hn with rfl | rfl
  · split
    · rfl
    · rw [if_neg (by omega), hties (by omega), Nat.add_zero]
  · rw [Nat.add_one_mul (num / den)] at hlower hties
    split
    · omega
    · split
      · rfl
      · have := hties (by omega)
        omega

/-- The nearest whole number is at most one half away. -/
theorem roundHalfEven_error (num : Nat) {den : Nat} (hden : 0 < den) :
    2 * (roundHalfEven num den * den) ≤ 2 * num + den ∧
      2 * num ≤ 2 * (roundHalfEven num den * den) + den := by
  have hnum := Nat.div_add_mod' num den
  have hmod := Nat.mod_lt num hden
  rw [roundHalfEven]
  split
  · omega
  · split
    · rw [Nat.add_one_mul (num / den)]
      omega
    · obtain heven | hodd := Nat.mod_two_eq_zero_or_one (num / den)
      · rw [heven, Nat.add_zero]
        omega
      · rw [hodd, Nat.add_one_mul (num / den)]
        omega

/-- A number that is at least a whole number is not rounded below it. -/
theorem le_roundHalfEven {num den n : Nat} (hden : 0 < den) (h : n * den ≤ num) :
    n ≤ roundHalfEven num den := by
  obtain ⟨-, hupper⟩ := roundHalfEven_error num hden
  by_contra hlt
  have hmul : (roundHalfEven num den + 1) * den ≤ n * den :=
    Nat.mul_le_mul_right den (Nat.not_le.mp hlt)
  rw [Nat.add_one_mul] at hmul
  omega

theorem roundHalfEven_le {num den n : Nat} (hden : 0 < den) (h : num ≤ n * den) :
    roundHalfEven num den ≤ n := by
  obtain ⟨hlower, -⟩ := roundHalfEven_error num hden
  by_contra hlt
  have hmul : (n + 1) * den ≤ roundHalfEven num den * den :=
    Nat.mul_le_mul_right den (Nat.not_le.mp hlt)
  rw [Nat.add_one_mul] at hmul
  omega

namespace Binary.Format

variable {f : Format}

/-! ## Ends of intervals -/

/-- Each place is in the first block of the lowest scale, or in a block of its own scale. -/
theorem exists_place_eq (f : Format) (place : Nat) : ∃ s n, n < 2 * f.leading ∧
    (s = 0 ∨ f.leading ≤ n) ∧ place = s * f.leading + n := by
  obtain hlt | ⟨s, n, hle, hlt, rfl⟩ := f.place_cases place
  · exact ⟨0, place, hlt, Or.inl rfl, by rw [Nat.zero_mul, Nat.zero_add]⟩
  · exact ⟨s, n, hlt, Or.inr hle, rfl⟩

/-- The magnitude of a place by scale and significand, where a significand may also be that of the
next scale. -/
theorem units_eq {s n : Nat} (hle : s = 0 ∨ f.leading ≤ n) (hlt : n ≤ 2 * f.leading) :
    f.units (s * f.leading + n) = n <<< s := by
  obtain hlt | rfl := Nat.lt_or_eq_of_le hlt
  · rcases hle with rfl | hle
    · rw [Nat.zero_mul, Nat.zero_add, units_of_lt hlt, Nat.shiftLeft_zero]
    · exact units_of_significand hle hlt
  · have hpos := f.leading_pos
    rw [show s * f.leading + 2 * f.leading = (s + 1) * f.leading + f.leading by
      rw [Nat.add_one_mul s]; omega, units_of_significand (Nat.le_refl _) (by omega),
      Nat.shiftLeft_succ_inside]

/-- The upper end of an interval is half a step of the scale above the magnitude. -/
theorem upperEnd_eq {s n : Nat} (hle : s = 0 ∨ f.leading ≤ n) (hlt : n < 2 * f.leading) :
    f.upperEnd (s * f.leading + n) = (2 * n + 1) <<< s := by
  rw [upperEnd, Nat.add_assoc, units_eq hle (Nat.le_of_lt hlt), units_eq (by omega) hlt,
    Nat.shiftLeft_eq, Nat.shiftLeft_eq, Nat.shiftLeft_eq, ← Nat.add_mul]
  congr 1
  omega

/-- Where one interval ends the next begins. -/
theorem lowerEnd_succ (f : Format) (place : Nat) : f.lowerEnd (place + 1) = f.upperEnd place := rfl

/-! ## Rounding -/

/-- What reads back lies between the ends, and reaches them only if the place is even. -/
theorem readsBack_iff {place point scale : Nat} : f.readsBack place point scale ↔
    f.lowerEnd place * scale ≤ point ∧ point ≤ f.upperEnd place * scale ∧
      (f.lowerEnd place * scale = point ∨ point = f.upperEnd place * scale → place % 2 = 0) := by
  rw [readsBack]
  split
  · next heven => simp [heven]
  · next hodd =>
    simp only [hodd, Bool.and_eq_true, decide_eq_true_eq, imp_false, not_or]
    omega

/-- The scale on which a quotient is rounded. -/
theorem nearest_eq {num den s : Nat} (hscale : (num / den).log2 - (f.precision - 1) = s) :
    f.nearest num den = s * f.leading + roundHalfEven num (den <<< s) := by
  rw [nearest, hscale, shiftLeft_eq_mul_leading]

/-- A quotient below twice the leading significand is rounded to a whole number of units. -/
theorem log2_div_of_lt {num den : Nat} (hden : 0 < den) (h : num < 2 * f.leading * den) :
    (num / den).log2 - (f.precision - 1) = 0 :=
  log2_sub_of_lt ((Nat.div_lt_iff_lt_mul hden).mpr h)

/-- A quotient with a full significand on a scale is rounded on it. -/
theorem log2_div_of_scale {num den s : Nat} (hden : 0 < den) (hle : f.leading * den <<< s ≤ num)
    (hlt : num < 2 * f.leading * den <<< s) : (num / den).log2 - (f.precision - 1) = s := by
  have hpower (k : Nat) : k * den <<< s = k <<< s * den := by
    rw [Nat.shiftLeft_eq, Nat.shiftLeft_eq, Nat.mul_right_comm, Nat.mul_assoc]
  rw [hpower] at hle hlt
  have hleQuotient : f.leading <<< s ≤ num / den := (Nat.le_div_iff_mul_le hden).mpr hle
  have hltQuotient : num / den < (2 * f.leading) <<< s := (Nat.div_lt_iff_lt_mul hden).mpr hlt
  have hpos : 0 < num / den :=
    Nat.lt_of_lt_of_le (Nat.shiftLeft_pos_iff.mpr f.leading_pos) hleQuotient
  have hlog : (num / den).log2 = f.precision - 1 + s := by
    rw [Nat.log2_eq_iff (Nat.pos_iff_ne_zero.mp hpos), ← Nat.one_shiftLeft, ← Nat.one_shiftLeft,
      Nat.shiftLeft_succ, Nat.shiftLeft_add, ← Nat.shiftLeft_succ, Nat.shiftLeft_succ_inside]
    exact ⟨hleQuotient, hltQuotient⟩
  rw [hlog, Nat.add_sub_cancel_left]

/-- Half a step of a scale above a significand. -/
theorem half_shiftLeft_mul (n den s : Nat) :
    (2 * n + 1) <<< s * den = 2 * (n * den <<< s) + den <<< s := by
  rw [Nat.shiftLeft_eq, Nat.shiftLeft_eq]
  ring

/-- A quotient is rounded on a scale to a significand that is at most half a step away, and even
where it is just that. -/
theorem nearest_on_scale {num den s n step : Nat} (hden : 0 < den) (hstep : den <<< s = step)
    (hle : s = 0 ∨ f.leading * step ≤ num) (hlt : num < 2 * f.leading * step)
    (hlower : 2 * (n * step) ≤ 2 * num + step) (hupper : 2 * num ≤ 2 * (n * step) + step)
    (hties : 2 * (n * step) = 2 * num + step ∨ 2 * num = 2 * (n * step) + step → n % 2 = 0) :
    f.nearest num den = s * f.leading + n := by
  subst hstep
  have hscale : (num / den).log2 - (f.precision - 1) = s := by
    obtain rfl | hle := hle
    · exact log2_div_of_lt hden hlt
    · exact log2_div_of_scale hden hle hlt
  rw [nearest_eq hscale, roundHalfEven_eq (Nat.shiftLeft_pos_iff.mpr hden) hlower hupper hties]

/-- On the lowest scale each step is a unit, and the first place has nothing below it. -/
theorem nearest_of_readsBack_lowest {num den n : Nat} (hden : 0 < den) (hlt : n < 2 * f.leading)
    (h : f.readsBack n (2 * num) den) : f.nearest num den = n := by
  have hupperEnd {n : Nat} (hlt : n < 2 * f.leading) :
      f.upperEnd n * den = 2 * (n * den) + den := by
    have hend := upperEnd_eq (f := f) (Or.inl rfl) hlt
    rw [Nat.zero_mul, Nat.zero_add] at hend
    rw [hend, half_shiftLeft_mul, Nat.shiftLeft_zero]
  obtain ⟨hlower, hupper, hties⟩ := readsBack_iff.mp h
  rw [hupperEnd hlt] at hupper hties
  have hmul : (n + 1) * den ≤ 2 * f.leading * den := Nat.mul_le_mul_right den hlt
  rw [Nat.add_one_mul] at hmul
  have hnearest (hlower : 2 * (n * den) ≤ 2 * num + den)
      (hties : 2 * (n * den) = 2 * num + den ∨ 2 * num = 2 * (n * den) + den → n % 2 = 0) :
      f.nearest num den = n := by
    rw [nearest_on_scale hden Nat.shiftLeft_zero (Or.inl rfl) (by omega) hlower hupper hties,
      Nat.zero_mul, Nat.zero_add]
  cases n with
  | zero => exact hnearest (by omega) fun _ => rfl
  | succ n =>
    rw [lowerEnd_succ, hupperEnd (Nat.lt_of_succ_lt hlt)] at hlower hties
    have hmul := Nat.add_one_mul n den
    exact hnearest (by omega) fun htie => hties (by omega)

/-- Above the lowest scale, what is below the first significand of a scale is reached from the scale
before. -/
theorem nearest_of_readsBack_scale (heven : f.leading % 2 = 0) {num den s n : Nat} (hden : 0 < den)
    (hle : f.leading ≤ n) (hlt : n < 2 * f.leading)
    (h : f.readsBack ((s + 1) * f.leading + n) (2 * num) den) :
    f.nearest num den = (s + 1) * f.leading + n := by
  obtain ⟨hlower, hupper, hties⟩ := readsBack_iff.mp h
  have hparity : ((s + 1) * f.leading + n) % 2 = n % 2 := by
    rw [Nat.add_mod, Nat.mul_mod, heven, Nat.mul_zero, Nat.zero_mod, Nat.zero_add, Nat.mod_mod]
  rw [hparity] at hties
  obtain ⟨step, hstep⟩ : ∃ step, den <<< s = step := ⟨_, rfl⟩
  have hstepPos : 0 < step := hstep ▸ Nat.shiftLeft_pos_iff.mpr hden
  have hdouble : den <<< (s + 1) = 2 * step := by rw [← hstep, Nat.shiftLeft_succ]
  rw [upperEnd_eq (Or.inr hle) hlt, half_shiftLeft_mul, hdouble] at hupper hties
  have hmul : (n + 1) * (2 * step) ≤ 2 * f.leading * (2 * step) := Nat.mul_le_mul_right _ hlt
  rw [Nat.add_one_mul] at hmul
  obtain rfl | hgt := Nat.eq_or_lt_of_le hle
  · by_cases hscale : f.leading * (2 * step) ≤ num
    · exact nearest_on_scale hden hdouble (Or.inr hscale) (by omega) (by omega) hupper
        fun htie => hties (by omega)
    · -- the significand is full on the scale before
      obtain ⟨full, hfull⟩ : ∃ full, 2 * f.leading = full + 1 := ⟨2 * f.leading - 1, by omega⟩
      have hbelow : (s + 1) * f.leading + f.leading = s * f.leading + full + 1 := by
        rw [Nat.add_one_mul]
        omega
      rw [hbelow, lowerEnd_succ, upperEnd_eq (Or.inr (by omega)) (by omega), half_shiftLeft_mul,
        hstep] at hlower
      have hleading : f.leading * (2 * step) = full * step + step := by
        rw [← Nat.add_one_mul, ← hfull]
        ring
      have htwice : 2 * f.leading * step = full * step + step := by
        rw [hfull, Nat.add_one_mul]
      have hpos : f.leading * step + f.leading * step = full * step + step := by
        rw [← htwice]
        ring
      rw [hbelow, nearest_on_scale hden hstep (Or.inr (by omega)) (by omega) (by omega) (by omega)
        fun _ => Nat.mul_mod_right 2 f.leading]
      omega
  · obtain ⟨m, rfl⟩ : ∃ m, n = m + 1 := ⟨n - 1, by omega⟩
    rw [← Nat.add_assoc, lowerEnd_succ, upperEnd_eq (Or.inr (by omega)) (by omega),
      half_shiftLeft_mul, hdouble] at hlower hties
    have hm := Nat.add_one_mul m (2 * step)
    have hscale : f.leading * (2 * step) ≤ m * (2 * step) :=
      Nat.mul_le_mul_right _ (Nat.le_of_lt_succ hgt)
    exact nearest_on_scale hden hdouble (Or.inr (by omega)) (by omega) (by omega) hupper
      fun htie => hties (by omega)

/-- A place that a quotient reads back as is the nearest one. -/
theorem nearest_of_readsBack (heven : f.leading % 2 = 0) {num den place : Nat} (hden : 0 < den)
    (h : f.readsBack place (2 * num) den) : f.nearest num den = place := by
  obtain hlt | ⟨s, n, hle, hlt, rfl⟩ := f.place_cases place
  · exact nearest_of_readsBack_lowest hden hlt h
  · cases s with
    | zero =>
      rw [Nat.zero_mul, Nat.zero_add] at h ⊢
      exact nearest_of_readsBack_lowest hden hlt h
    | succ s => exact nearest_of_readsBack_scale heven hden hle hlt h

end Binary.Format

end VisualNovel
