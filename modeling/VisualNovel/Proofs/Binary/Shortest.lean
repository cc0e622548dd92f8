import VisualNovel.Proofs.Binary.Accuracy

/-!
# Shortest decimals read back

The points of a decimal grid are compared in half units, in which the ends of an interval are whole.
The search for the shortest decimal of a magnitude ends with a point that is rounded to it
(`Binary.Format.stands_shortest`). As no coarser grid has such a point, its digits are few, and if
they are more than a significand has, the point is far from the ends of the interval.
-/

namespace VisualNovel.Binary.Format

variable {f : Format}

/-! ## One grid -/

section Grid

variable {tie : Tie} {place : Nat} {exponent : Int} {decimal : Decimal} {scale step : Nat}
  (hscale : Nat.pow 10 (-exponent).toNat = scale)
  (hstep : Nat.pow 10 exponent.toNat <<< (f.unitPlaces + 1) = step)
include hscale hstep

/-- A point that is found reads back, and is one of the two beside the magnitude. If it is the one
below, it is the nearer one, unless the other does not read back. -/
theorem onGrid_eq_some (hpos : 0 < step) (h : f.onGrid tie place exponent = some decimal) :
    decimal.exponent = exponent ∧ f.readsBack place (decimal.digits * step) scale ∧
      decimal.digits * step ≤ 2 * f.units place * scale + step ∧
      (f.readsBack place ((2 * f.units place * scale / step + 1) * step) scale →
        2 * (2 * f.units place * scale) ≤ 2 * (decimal.digits * step) + step) := by
  rw [onGrid] at h
  rw [hscale, hstep] at h
  generalize 2 * f.units place * scale = exact at h ⊢
  have hexact := Nat.div_add_mod' exact step
  have hmod := Nat.mod_lt exact hpos
  split at h
  · next hbelow =>
    obtain rfl := Option.some.inj h
    simp only [Bool.and_eq_true, Bool.or_eq_true, decide_eq_true_eq, Bool.not_eq_true'] at hbelow
    refine ⟨rfl, hbelow.1, ?_, fun habove => ?_⟩
    · dsimp only
      omega
    · rcases hbelow.2 with (hwins | ⟨⟨hwins, -⟩, -⟩) | hfits
      · dsimp only
        omega
      · dsimp only
        omega
      · exact absurd (habove.symm.trans hfits) nofun
  · split at h
    · next habove =>
      obtain rfl := Option.some.inj h
      have hmul := Nat.add_one_mul (exact / step) step
      refine ⟨rfl, habove, ?_, fun _ => ?_⟩
      · dsimp only
        omega
      · dsimp only
        omega
    · exact absurd h nofun

/-- If no point is found, not even the next one above the magnitude reads back. -/
theorem not_readsBack_of_onGrid_eq_none (h : f.onGrid tie place exponent = none) :
    ¬f.readsBack place ((2 * f.units place * scale / step + 1) * step) scale := by
  rw [onGrid] at h
  rw [hscale, hstep] at h
  split at h
  · exact absurd h nofun
  · split at h
    · exact absurd h nofun
    · next hfits => exact hfits

end Grid

/-- The next point above a magnitude reads back if the grid is finer than the distance to the upper
end. -/
theorem readsBack_above {place scale step gap : Nat} (hpos : 0 < step)
    (hgap : f.upperEnd place = 2 * f.units place + gap)
    (hlower : f.lowerEnd place ≤ 2 * f.units place) (hstep : step < gap * scale) :
    f.readsBack place ((2 * f.units place * scale / step + 1) * step) scale := by
  have hexact := Nat.div_add_mod' (2 * f.units place * scale) step
  have hmod := Nat.mod_lt (2 * f.units place * scale) hpos
  have hmul := Nat.add_one_mul (2 * f.units place * scale / step) step
  have hlowerMul := Nat.mul_le_mul_right scale hlower
  have hupper : f.upperEnd place * scale = 2 * f.units place * scale + gap * scale := by
    rw [hgap, Nat.add_mul]
  rw [readsBack_iff, hupper]
  exact ⟨by omega, by omega, fun htie => absurd htie (by omega)⟩

/-- The distance of the points of a grid, in half units. -/
def grid (f : Format) (exponent : Int) : ℚ := 10 ^ exponent * 2 ^ (f.unitPlaces + 1)

theorem grid_pos (f : Format) (exponent : Int) : 0 < f.grid exponent :=
  mul_pos (zpow_pos (by norm_num) _) (by positivity)

/-- The next coarser grid is ten times as wide. -/
theorem ten_mul_grid (f : Format) (exponent : Int) :
    10 * f.grid exponent = f.grid (exponent + 1) := by
  rw [grid, grid, zpow_add_one₀ (by norm_num)]
  ring

/-- The step between points is the distance on the grid, as a quotient. -/
theorem cast_step (f : Format) (exponent : Int) :
    ((Nat.pow 10 exponent.toNat <<< (f.unitPlaces + 1) : Nat) : ℚ) =
      f.grid exponent * (Nat.pow 10 (-exponent).toNat : Nat) := by
  have hpower : (10 : ℚ) ^ (-exponent).toNat ≠ 0 := pow_ne_zero _ (by norm_num)
  rw [cast_shiftLeft, Nat.pow_eq, Nat.pow_eq, Nat.cast_pow, Nat.cast_pow, Nat.cast_ofNat, grid,
    ← pow_toNat_div_pow_toNat (by norm_num)]
  field_simp

/-- What is found on a grid is rounded to the place. It is at most one step above the magnitude, and
if the next place is further away than that, at most half a step below. -/
theorem roundsTo_of_onGrid {tie : Tie} {place gap : Nat} {exponent : Int} {decimal : Decimal}
    (hgap : f.upperEnd place = 2 * f.units place + gap)
    (hlower : f.lowerEnd place ≤ 2 * f.units place)
    (h : f.onGrid tie place exponent = some decimal) :
    decimal.exponent = exponent ∧ f.RoundsTo (decimal.digits * 10 ^ exponent) place ∧
      decimal.digits * f.grid exponent ≤ 2 * f.units place + f.grid exponent ∧
      (f.grid exponent < gap →
        2 * (2 * f.units place) ≤ 2 * (decimal.digits * f.grid exponent) + f.grid exponent) := by
  have hcast := f.cast_step exponent
  have hscale : 0 < Nat.pow 10 (-exponent).toNat := Nat.pow_pos (by decide)
  have hstep : 0 < Nat.pow 10 exponent.toNat <<< (f.unitPlaces + 1) :=
    Nat.shiftLeft_pos_iff.mpr (Nat.pow_pos (by decide))
  obtain ⟨hexponent, hreads, habove, hbelow⟩ := onGrid_eq_some rfl rfl hstep h
  generalize Nat.pow 10 (-exponent).toNat = scale at *
  generalize Nat.pow 10 exponent.toNat <<< (f.unitPlaces + 1) = step at *
  have hscaleCast : (0 : ℚ) < scale := Nat.cast_pos.mpr hscale
  have hpoint : ((decimal.digits * step : Nat) : ℚ) / scale =
      decimal.digits * 10 ^ exponent * 2 ^ (f.unitPlaces + 1) := by
    rw [Nat.cast_mul, hcast, ← mul_assoc, mul_div_cancel_right₀ _ hscaleCast.ne', grid, mul_assoc]
  refine ⟨hexponent, (readsBack_iff_roundsTo hscale hpoint).mp hreads, ?_, fun hfine => ?_⟩
  · have haboveCast : (decimal.digits * step : ℚ) ≤ 2 * f.units place * scale + step := by
      exact_mod_cast habove
    rw [hcast] at haboveCast
    refine le_of_mul_le_mul_right ?_ hscaleCast
    linarith
  · have hstepLt : step < gap * scale := by
      have hlt : (step : ℚ) < gap * scale := by
        rw [hcast]
        exact mul_lt_mul_of_pos_right hfine hscaleCast
      exact_mod_cast hlt
    have hnear := hbelow (readsBack_above hstep hgap hlower hstepLt)
    have hnearCast : (2 * (2 * f.units place * scale) : ℚ) ≤
        2 * (decimal.digits * step) + step := by
      exact_mod_cast hnear
    rw [hcast] at hnearCast
    refine le_of_mul_le_mul_right ?_ hscaleCast
    linarith

/-- Where nothing is found, the grid is not finer than the distance to the upper end. -/
theorem le_grid_of_onGrid_eq_none {tie : Tie} {place gap : Nat} {exponent : Int}
    (hgap : f.upperEnd place = 2 * f.units place + gap)
    (hlower : f.lowerEnd place ≤ 2 * f.units place) (h : f.onGrid tie place exponent = none) :
    (gap : ℚ) ≤ f.grid exponent := by
  have hcast := f.cast_step exponent
  have hscale : 0 < Nat.pow 10 (-exponent).toNat := Nat.pow_pos (by decide)
  have hstep : 0 < Nat.pow 10 exponent.toNat <<< (f.unitPlaces + 1) :=
    Nat.shiftLeft_pos_iff.mpr (Nat.pow_pos (by decide))
  have habove := not_readsBack_of_onGrid_eq_none rfl rfl h
  generalize Nat.pow 10 (-exponent).toNat = scale at *
  generalize Nat.pow 10 exponent.toNat <<< (f.unitPlaces + 1) = step at *
  have hle : gap * scale ≤ step := by
    by_contra hlt
    exact habove (readsBack_above hstep hgap hlower (Nat.not_le.mp hlt))
  have hleCast : (gap * scale : ℚ) ≤ step := by exact_mod_cast hle
  rw [hcast] at hleCast
  exact le_of_mul_le_mul_right hleCast (Nat.cast_pos.mpr hscale)

/-! ## Single precision -/

/-- The magnitude of a place and the ends of its interval, by scale and significand. The lower end
is nearer where the scale begins. -/
structure Span (place s n : Nat) : Prop where
  pos : 0 < n
  lt : n < 2 ^ 24
  units_eq : Format.single.units place = n * 2 ^ s
  upperEnd_eq : Format.single.upperEnd place = 2 * Format.single.units place + 2 ^ s
  lowerEnd_pos : 0 < Format.single.lowerEnd place
  lowerEnd_le : (Format.single.lowerEnd place : ℚ) ≤ 2 * Format.single.units place - 2 ^ s / 2
  log2_eq : (Format.single.units place).log2 - 23 = s

theorem leading_single : Format.single.leading = 2 ^ 23 := by decide

/-- Each place but the first has a scale and a significand. -/
theorem exists_span {place : Nat} (hpos : 0 < place) : ∃ s n, Span place s n := by
  have hleading : Format.single.leading = 2 ^ 23 := leading_single
  obtain ⟨s, n, hlt, hle, rfl⟩ := Format.single.exists_place_eq place
  have hn : 0 < n := by
    rcases hle with rfl | hle
    · omega
    · omega
  have hunits := units_eq hle (Nat.le_of_lt hlt)
  have hpower : 0 < 2 ^ s := Nat.two_pow_pos s
  refine ⟨s, n, hn, by omega, ?_, ?_, ?_, ?_, ?_⟩
  · rw [hunits, Nat.shiftLeft_eq]
  · rw [upperEnd_eq hle hlt, hunits, Nat.shiftLeft_eq, Nat.shiftLeft_eq]
    ring
  · rw [lowerEnd, hunits]
    exact Nat.add_pos_right _ (Nat.shiftLeft_pos_iff.mpr hn)
  · rw [hunits, cast_shiftLeft]
    obtain ⟨m, rfl⟩ : ∃ m, n = m + 1 := ⟨n - 1, by omega⟩
    have hpowerCast : (0 : ℚ) < 2 ^ s := by positivity
    by_cases hfull : s = 0 ∨ Format.single.leading ≤ m
    · rw [← Nat.add_assoc, lowerEnd_succ, upperEnd_eq hfull (by omega), cast_shiftLeft]
      push_cast
      linarith
    · -- the place before has the largest significand of the scale before
      obtain ⟨k, rfl⟩ : ∃ k, s = k + 1 := ⟨s - 1, by omega⟩
      obtain rfl : m = 2 ^ 23 - 1 := by omega
      have hbefore : (k + 1) * Format.single.leading + (2 ^ 23 - 1 + 1) =
          k * Format.single.leading + (2 ^ 24 - 1) + 1 := by
        rw [hleading]
        omega
      rw [hbefore, lowerEnd_succ, upperEnd_eq (Or.inr (by omega)) (by omega), cast_shiftLeft]
      norm_num
      rw [pow_succ']
      linarith
  · rw [hunits]
    rcases hle with rfl | hle
    · rw [Nat.shiftLeft_zero]
      exact log2_sub_of_lt hlt
    · exact log2_sub_of_significand hle hlt

section Span

variable {place s n : Nat} (hspan : Span place s n)
include hspan

/-- The lower end is not above the magnitude. -/
theorem Span.lowerEnd_le_units :
    Format.single.lowerEnd place ≤ 2 * Format.single.units place := by
  have hpower : (0 : ℚ) < 2 ^ s := by positivity
  have hle : (Format.single.lowerEnd place : ℚ) ≤ 2 * Format.single.units place :=
    le_trans hspan.lowerEnd_le (by linarith)
  exact_mod_cast hle

/-- The upper end is half a step above the magnitude. -/
theorem Span.cast_upperEnd :
    (Format.single.upperEnd place : ℚ) = 2 * Format.single.units place + 2 ^ s := by
  exact_mod_cast hspan.upperEnd_eq

/-- A magnitude has a significand of 24 bits. -/
theorem Span.units_le : (Format.single.units place : ℚ) ≤ (2 ^ 24 - 1) * 2 ^ s := by
  have hunits : (Format.single.units place : ℚ) = n * 2 ^ s := by exact_mod_cast hspan.units_eq
  have hn : (n : ℚ) ≤ 2 ^ 24 - 1 := by
    rw [le_sub_iff_add_le]
    exact_mod_cast hspan.lt
  rw [hunits]
  exact mul_le_mul_of_nonneg_right hn (by positivity)

/-- Zero is not rounded to the place. -/
theorem Span.digits_pos {digits : Nat} {exponent : Int}
    (h : Format.single.RoundsTo (digits * 10 ^ exponent) place) : 0 < digits := by
  by_contra hzero
  have hlower : (0 : ℚ) < Format.single.lowerEnd place := by exact_mod_cast hspan.lowerEnd_pos
  have hle := h.lower
  rw [Nat.eq_zero_of_not_pos hzero, Nat.cast_zero, zero_mul, zero_mul] at hle
  exact absurd hlower (not_lt.mpr hle)

end Span

/-- What a shortest decimal of a magnitude is like. If it has more digits than a significand needs,
it is far from the ends of the interval. -/
structure Stands (decimal : Decimal) (place : Nat) : Prop where
  digits_pos : 0 < decimal.digits
  digits_lt : decimal.digits < 2 ^ 30
  roundsTo : Format.single.RoundsTo (decimal.digits * 10 ^ decimal.exponent) place
  apart : 2 ^ 25 < decimal.digits →
    decimal.digits * Format.single.grid decimal.exponent / 2 ^ 51 ≤
        decimal.digits * Format.single.grid decimal.exponent - Format.single.lowerEnd place ∧
      decimal.digits * Format.single.grid decimal.exponent / 2 ^ 51 ≤
        Format.single.upperEnd place - decimal.digits * Format.single.grid decimal.exponent

/-- What is found on a grid that is not much finer than the scale of a place stands for it. -/
theorem stands_of_onGrid {tie : Tie} {place s n : Nat} (hspan : Span place s n) {exponent : Int}
    {decimal : Decimal} (hcoarse : (2 : ℚ) ^ s ≤ 10 * Format.single.grid exponent)
    (h : Format.single.onGrid tie place exponent = some decimal) :
    decimal.exponent = exponent ∧ Stands decimal place := by
  obtain ⟨hexponent, hroundsTo, habove, hbelow⟩ :=
    roundsTo_of_onGrid hspan.upperEnd_eq hspan.lowerEnd_le_units h
  obtain ⟨digits, other⟩ := decimal
  obtain rfl : exponent = other := hexponent.symm
  have hgrid := Format.single.grid_pos exponent
  have hpower : (0 : ℚ) < 2 ^ s := by positivity
  have hunits := hspan.units_le
  have hlower := hspan.lowerEnd_le
  have hupperEnd := hspan.cast_upperEnd
  have hupper := hroundsTo.upper
  rw [mul_assoc] at hupper
  change (digits : ℚ) * Format.single.grid exponent ≤ _ at hupper
  push_cast at hbelow
  refine ⟨rfl, hspan.digits_pos hroundsTo, ?_, hroundsTo, fun hlong => ?_⟩
  · have hdigits : (digits : ℚ) ≤ 10 * (2 ^ 25 - 1) := by
      refine le_of_mul_le_mul_right ?_ hgrid
      linarith
    have hlt : (digits : ℚ) < 2 ^ 30 := lt_of_le_of_lt hdigits (by norm_num)
    exact_mod_cast hlt
  · -- so many digits are on a grid that is finer than the scale
    have hlongCast : (2 ^ 25 + 1 : ℚ) ≤ digits := by exact_mod_cast hlong
    have hfine := mul_le_mul_of_nonneg_right hlongCast hgrid.le
    dsimp only at *
    generalize (digits : ℚ) * Format.single.grid exponent = point at *
    have hnear := hbelow (by linarith)
    constructor <;> linarith

/-! ## The search -/

/-- At the coarsest grid of a magnitude, at which the search begins, the points are not much closer
than the steps of its scale, and when it ends they are closer. -/
theorem coarsest_bounds : ∀ l : Nat, l < 277 →
    let coarsest := ((l : Int) + 1 - 149) * 30103 / 100000 + 1
    (-44 : Int) ≤ coarsest ∧ coarsest ≤ 40 ∧
      2 ^ (l - 23) * Nat.pow 10 (-coarsest).toNat ≤ 10 * Nat.pow 10 coarsest.toNat <<< 150 ∧
      Nat.pow 10 (coarsest - 19).toNat <<< 150 <
        2 ^ (l - 23) * Nat.pow 10 (-(coarsest - 19)).toNat := by
  decide +kernel

/-- The first number of a range at which something is found. -/
theorem exists_findSome?_range {α : Type} {f : Nat → Option α} {n last : Nat} (hlast : last < n)
    (h : f last ≠ none) :
    ∃ first a, (List.range n).findSome? f = some a ∧ first ≤ last ∧ f first = some a ∧
      ∀ i < first, f i = none := by
  have hmem : last ∈ List.range n := List.mem_range.mpr hlast
  cases hfound : (List.range n).findSome? f with
  | none => exact absurd (List.findSome?_eq_none_iff.mp hfound last hmem) h
  | some a =>
    obtain ⟨before, first, after, hsplit, hfirst, hbefore⟩ := List.findSome?_eq_some_iff.mp hfound
    have hat (i : Nat) (hi : i ≤ before.length) : (before ++ first :: after)[i]? = some i := by
      have hlength := congrArg List.length hsplit
      simp only [List.length_range, List.length_append, List.length_cons] at hlength
      rw [← hsplit, List.getElem?_range (by omega)]
    have hindex : first = before.length := by
      have hself := hat before.length (Nat.le_refl _)
      rw [List.getElem?_append_right (Nat.le_refl _), Nat.sub_self,
        List.getElem?_cons_zero] at hself
      exact Option.some.inj hself
    have hnone (i : Nat) (hi : i < first) : f i = none := by
      have hself := hat i (by omega)
      rw [List.getElem?_append_left (by omega)] at hself
      exact hbefore i (List.mem_of_getElem? hself)
    refine ⟨first, a, rfl, ?_, hfirst, hnone⟩
    by_contra hlt
    exact h (hnone last (Nat.not_le.mp hlt))

/-- Where the search for a decimal of a magnitude begins and where it has come to an end. -/
theorem exists_coarsest {place s n : Nat} (hspan : Span place s n)
    (hlt : place < Format.single.magnitudes) :
    -44 ≤ Format.single.coarsest place ∧ Format.single.coarsest place ≤ 40 ∧
      (2 : ℚ) ^ s ≤ 10 * Format.single.grid (Format.single.coarsest place) ∧
      Format.single.grid (Format.single.coarsest place - 19) < 2 ^ s := by
  have hlog : (Format.single.units place).log2 < 277 := by
    have hne : Format.single.units place ≠ 0 := by
      rw [hspan.units_eq]
      exact Nat.pos_iff_ne_zero.mp (Nat.mul_pos hspan.pos (Nat.two_pow_pos s))
    rw [Nat.log2_lt hne]
    refine Nat.lt_of_le_of_lt (Format.single.units_mono (Nat.le_sub_one_of_lt hlt)) ?_
    decide +kernel
  obtain ⟨hlower, hupper, hcoarse, hfine⟩ := coarsest_bounds _ hlog
  rw [hspan.log2_eq] at hcoarse hfine
  change -44 ≤ Format.single.coarsest place at hlower
  change Format.single.coarsest place ≤ 40 at hupper
  change 2 ^ s * Nat.pow 10 (-Format.single.coarsest place).toNat ≤
    10 * Nat.pow 10 (Format.single.coarsest place).toNat <<<
      (Format.single.unitPlaces + 1) at hcoarse
  change Nat.pow 10 (Format.single.coarsest place - 19).toNat <<< (Format.single.unitPlaces + 1) <
    2 ^ s * Nat.pow 10 (-(Format.single.coarsest place - 19)).toNat at hfine
  generalize Format.single.coarsest place = coarsest at *
  refine ⟨hlower, hupper, ?_, ?_⟩
  · have hcast := Format.single.cast_step coarsest
    have hpower : (0 : ℚ) < (Nat.pow 10 (-coarsest).toNat : Nat) :=
      Nat.cast_pos.mpr (Nat.pow_pos (by decide))
    generalize Nat.pow 10 coarsest.toNat <<< (Format.single.unitPlaces + 1) = step at *
    have hcoarseCast : (2 : ℚ) ^ s * (Nat.pow 10 (-coarsest).toNat : Nat) ≤ 10 * step := by
      exact_mod_cast hcoarse
    rw [hcast, ← mul_assoc] at hcoarseCast
    exact le_of_mul_le_mul_right hcoarseCast hpower
  · have hcast := Format.single.cast_step (coarsest - 19)
    generalize Nat.pow 10 (coarsest - 19).toNat <<< (Format.single.unitPlaces + 1) = step at *
    have hfineCast : (step : ℚ) < 2 ^ s * (Nat.pow 10 (-(coarsest - 19)).toNat : Nat) := by
      exact_mod_cast hfine
    rw [hcast] at hfineCast
    exact lt_of_mul_lt_mul_right hfineCast (Nat.cast_nonneg _)

/-- The shortest decimal of a magnitude stands for it. -/
theorem stands_shortest {tie : Tie} {place : Nat} (hpos : 0 < place)
    (hlt : place < Format.single.magnitudes) :
    Stands (Format.single.shortest tie place) place ∧
      -63 ≤ (Format.single.shortest tie place).exponent ∧
        (Format.single.shortest tie place).exponent ≤ 40 := by
  obtain ⟨s, n, hspan⟩ := exists_span hpos
  obtain ⟨hlower, hupper, hcoarse, hfine⟩ := exists_coarsest hspan hlt
  rw [shortest]
  generalize Format.single.coarsest place = start at *
  have hlast : Format.single.onGrid tie place (start - (19 : Nat)) ≠ none := fun hnone => by
    have hle := le_grid_of_onGrid_eq_none hspan.upperEnd_eq hspan.lowerEnd_le_units hnone
    push_cast at hle
    exact absurd hfine (not_lt.mpr hle)
  obtain ⟨first, decimal, hfound, hfirst, hdecimal, hbefore⟩ :=
    exists_findSome?_range (f := fun step : Nat => Format.single.onGrid tie place (start - step))
      (by decide : 19 < 20) hlast
  have hgrid : (2 : ℚ) ^ s ≤ 10 * Format.single.grid (start - first) := by
    cases first with
    | zero => simpa using hcoarse
    | succ before =>
      -- one step coarser nothing was found
      have hle := le_grid_of_onGrid_eq_none hspan.upperEnd_eq hspan.lowerEnd_le_units
        (hbefore before (Nat.lt_succ_self before))
      rw [ten_mul_grid, Nat.cast_succ, sub_add_eq_sub_sub, sub_add_cancel]
      exact_mod_cast hle
  obtain ⟨hexponent, hstands⟩ := stands_of_onGrid hspan hgrid hdecimal
  rw [hfound]
  refine ⟨hstands, ?_, ?_⟩
  · dsimp only
    omega
  · dsimp only
    omega

end VisualNovel.Binary.Format
