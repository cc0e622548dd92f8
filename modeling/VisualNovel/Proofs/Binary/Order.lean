import VisualNovel.Binary.Arithmetic
import VisualNovel.Proofs.Binary.Convert

/-!
# Order of binary numbers

Numbers are compared by their ranks, which are integers, so two numbers that have ranks are
comparable (`lt_of_not_le`). Magnitudes grow with their places (`Format.units_mono`); hence what is
below a finite number and not negative is finite (`isFinite_of_lt`), and a sum of numbers that are
not negative is not negative, though it may be infinite (`zero_le_add`). What is negative after
narrowing was so before (`lt_zero_of_narrow_lt_zero`).
-/

namespace VisualNovel.Binary

namespace Format

variable (f : Format)

/-- The magnitude at the first place is zero. -/
theorem units_zero : f.units 0 = 0 := by
  have hpos := f.leading_pos
  exact units_of_lt (by omega)

/-- From one place to the next, numbers do not get smaller. -/
theorem units_le_units_succ (place : Nat) : f.units place ≤ f.units (place + 1) := by
  have hpos := f.leading_pos
  obtain hlt | ⟨s, n, hle, hlt, rfl⟩ := f.place_cases place
  · rw [units_of_lt hlt]
    by_cases hnext : place + 1 < 2 * f.leading
    · rw [units_of_lt hnext]
      omega
    · -- the first place of the next scale
      have hplace : place + 1 = 1 * f.leading + f.leading := by omega
      have htwice : f.leading <<< 1 = 2 * f.leading := by rw [Nat.shiftLeft_eq]; omega
      rw [hplace, units_of_significand (Nat.le_refl _) (by omega), htwice]
      omega
  · rw [units_of_significand hle hlt]
    by_cases hnext : n + 1 < 2 * f.leading
    · rw [Nat.add_assoc, units_of_significand (by omega) hnext, Nat.shiftLeft_eq, Nat.shiftLeft_eq]
      exact Nat.mul_le_mul_right _ (by omega)
    · -- the significand is full, and its successor is the least of the next scale
      have hplace : s * f.leading + n + 1 = (s + 1) * f.leading + f.leading := by
        rw [Nat.succ_mul]
        omega
      rw [hplace, units_of_significand (Nat.le_refl _) (by omega), Nat.shiftLeft_succ_inside,
        Nat.shiftLeft_eq, Nat.shiftLeft_eq]
      exact Nat.mul_le_mul_right _ (by omega)

/-- Magnitudes grow with their places. -/
theorem units_mono {place later : Nat} (h : place ≤ later) : f.units place ≤ f.units later := by
  induction h with
  | refl => exact Nat.le_refl _
  | step _ ih => exact Nat.le_trans ih (f.units_le_units_succ _)

end Format

variable {f : Format} {x y z : Binary f}

/-! ## Comparison by rank -/

/-- The order of two numbers is that of their ranks. -/
theorem le_iff : x ≤ y ↔ ∃ a b, x.rank? = some a ∧ y.rank? = some b ∧ a ≤ b := by
  change compareBy _ x y = true ↔ _
  rw [compareBy]
  cases x.rank? with
  | none => simp
  | some a => cases y.rank? <;> simp

/-- The strict order of two numbers is that of their ranks. -/
theorem lt_iff : x < y ↔ ∃ a b, x.rank? = some a ∧ y.rank? = some b ∧ a < b := by
  change compareBy _ x y = true ↔ _
  rw [compareBy]
  cases x.rank? with
  | none => simp
  | some a => cases y.rank? <;> simp

/-- Only what is not a number has no rank. -/
theorem rank?_eq_none_iff : x.rank? = none ↔ x = .nan := by
  cases x <;> simp [rank?]

/-- Of two numbers that are comparable, one is at most the other. -/
theorem lt_of_not_le (hx : x ≠ .nan) (hy : y ≠ .nan) (h : ¬y ≤ x) : x < y := by
  obtain ⟨a, ha⟩ := Option.ne_none_iff_exists'.mp (mt rank?_eq_none_iff.mp hx)
  obtain ⟨b, hb⟩ := Option.ne_none_iff_exists'.mp (mt rank?_eq_none_iff.mp hy)
  refine lt_iff.mpr ⟨a, b, ha, hb, Int.not_le.mp ?_⟩
  intro hle
  exact h (le_iff.mpr ⟨b, a, hb, ha, hle⟩)

/-- What is smaller is not as large. -/
theorem not_le_of_lt (h : x < y) : ¬y ≤ x := by
  obtain ⟨a, b, ha, hb, hlt⟩ := lt_iff.mp h
  intro hle
  obtain ⟨b', a', hb', ha', hle⟩ := le_iff.mp hle
  obtain rfl := Option.some.inj (ha.symm.trans ha')
  obtain rfl := Option.some.inj (hb.symm.trans hb')
  omega

/-- What is finite is a number. -/
theorem ne_nan_of_isFinite (h : x.isFinite) : x ≠ .nan := by
  rintro rfl
  exact absurd h nofun

/-- What something is compared with is a number. -/
theorem ne_nan_of_le (h : x ≤ y) : y ≠ .nan := by
  rintro rfl
  obtain ⟨-, b, -, hb, -⟩ := le_iff.mp h
  exact absurd hb nofun

/-! ## Signs -/

/-- Without a sign, a magnitude stays as it is. -/
theorem signed_false (magnitude : Nat) : signed false magnitude = magnitude := rfl

/-- A sign makes nothing larger. -/
theorem signed_le (negative : Bool) (magnitude : Nat) : signed negative magnitude ≤ magnitude := by
  cases negative with
  | false => exact Int.le_refl _
  | true =>
    show -(magnitude : Int) ≤ magnitude
    omega

/-- Zero has rank zero, with either sign. -/
theorem rank?_ofPlace_zero (negative : Bool) (h : 0 < f.magnitudes) :
    (ofPlace negative 0 : Binary f).rank? = some 0 := by
  rw [ofPlace_of_lt h, rank?, f.units_zero]
  cases negative <;> rfl

/-- What is not below zero where it is rounded is not below zero. -/
theorem exists_rank?_ofPlace_false (place : Nat) :
    ∃ a : Int, (ofPlace false place : Binary f).rank? = some a ∧ 0 ≤ a := by
  rw [ofPlace]
  split
  · exact ⟨_, rfl, Int.natCast_nonneg _⟩
  · exact ⟨_, rfl, Int.natCast_nonneg _⟩

/-- What is below zero where it is rounded was given a sign, and is not zero. -/
theorem of_rank?_ofQuotient_lt_zero {negative : Bool} {num den : Nat} {a : Int}
    (hmagnitudes : 0 < f.magnitudes)
    (h : (ofQuotient negative num den : Binary f).rank? = some a) (hneg : a < 0) :
    negative = true ∧ num ≠ 0 := by
  constructor
  · cases negative with
    | true => rfl
    | false =>
      obtain ⟨b, hb, hle⟩ := exists_rank?_ofPlace_false (f.nearest (num <<< f.unitPlaces) den)
      obtain rfl := Option.some.inj (h.symm.trans hb)
      omega
  · rintro rfl
    have hzero : f.nearest (0 <<< f.unitPlaces) den = 0 := by
      simp [Format.nearest, roundHalfEven]
    rw [ofQuotient, hzero, rank?_ofPlace_zero negative hmagnitudes] at h
    obtain rfl := Option.some.inj h
    exact Int.lt_irrefl 0 hneg

/-! ## Numbers that are not negative -/

section Single

variable {x y : Single}

/-- The single zero has rank zero. -/
theorem rank?_zero : (0 : Single).rank? = some 0 := by decide +kernel

/-- What is not below zero has a rank that is not negative. -/
theorem zero_le_iff : 0 ≤ x ↔ ∃ a, x.rank? = some a ∧ 0 ≤ a := by
  rw [le_iff, rank?_zero]
  simp

/-- Zero is not below itself. -/
theorem zero_le_zero : (0 : Single) ≤ 0 := by decide +kernel

/-- What is above zero is not below it. -/
theorem zero_le_of_zero_lt (h : 0 < x) : 0 ≤ x := by
  obtain ⟨a, b, ha, hb, hab⟩ := lt_iff.mp h
  exact le_iff.mpr ⟨a, b, ha, hb, Int.le_of_lt hab⟩

/-- The infinite number below all others is below zero. -/
theorem not_zero_le_infinite : ¬(0 : Single) ≤ .infinite true := by decide +kernel

/-- A number below a finite one is finite, unless it is negative. -/
theorem isFinite_of_lt (hx : 0 ≤ x) (h : x < y) (hy : y.isFinite) : x.isFinite := by
  cases x with
  | finite negative place => rfl
  | nan => exact absurd rfl (ne_nan_of_le hx)
  | infinite negative =>
    cases negative with
    | true => exact absurd hx not_zero_le_infinite
    | false =>
      cases y with
      | finite other place =>
        obtain ⟨a, b, ha, hb, hab⟩ := lt_iff.mp h
        obtain rfl := Option.some.inj ha
        obtain rfl := Option.some.inj hb
        have hle := signed_le other (Format.single.units place)
        have hmono := Format.single.units_mono (Nat.le_of_lt place.isLt)
        rw [signed_false] at hab
        omega
      | infinite other => exact absurd hy nofun
      | nan => exact absurd hy nofun

/-- A sum of numbers that are not negative is not negative. -/
theorem zero_le_add (hx : 0 ≤ x) (hy : 0 ≤ y) : 0 ≤ x + y := by
  change 0 ≤ add x y
  cases x with
  | nan => exact absurd rfl (ne_nan_of_le hx)
  | infinite s =>
    cases s with
    | true => exact absurd hx not_zero_le_infinite
    | false =>
      cases y with
      | nan => exact absurd rfl (ne_nan_of_le hy)
      | finite t b => exact hx
      | infinite t =>
        cases t with
        | true => exact absurd hy not_zero_le_infinite
        | false => exact hx
  | finite s a =>
    cases y with
    | nan => exact absurd rfl (ne_nan_of_le hy)
    | infinite t => exact hy
    | finite t b =>
      obtain ⟨m, hm, hmle⟩ := zero_le_iff.mp hx
      obtain ⟨n, hn, hnle⟩ := zero_le_iff.mp hy
      obtain rfl := Option.some.inj hm
      obtain rfl := Option.some.inj hn
      rw [zero_le_iff, add, addFinite]
      split
      · exact ⟨0, rank?_ofPlace_zero _ (by decide), Int.le_refl 0⟩
      · -- the exact sum is positive, and so the rounded one has no sign
        rw [decide_eq_false (by omega)]
        exact exists_rank?_ofPlace_false _

end Single

/-! ## Numbers that are negative -/

/-- The double zero has rank zero. -/
theorem rank?_zero_double : (0 : Double).rank? = some 0 := by decide +kernel

/-- What is below zero has a negative rank. -/
theorem lt_zero_iff {x : Double} : x < 0 ↔ ∃ a, x.rank? = some a ∧ a < 0 := by
  rw [lt_iff, rank?_zero_double]
  simp

/-- Narrowing makes no number negative. -/
theorem lt_zero_of_narrow_lt_zero {x : Double} (h : x.narrow < 0) : x < 0 := by
  obtain ⟨a, b, ha, hb, hab⟩ := lt_iff.mp h
  obtain rfl := Option.some.inj (rank?_zero.symm.trans hb)
  cases x with
  | nan => exact absurd ha nofun
  | infinite negative =>
    cases negative with
    | true => exact lt_zero_iff.mpr ⟨_, rfl, by decide +kernel⟩
    | false =>
      obtain rfl := Option.some.inj ha
      exact absurd hab (by decide +kernel)
  | finite negative place =>
    obtain ⟨rfl, hne⟩ := of_rank?_ofQuotient_lt_zero (by decide) ha hab
    refine lt_zero_iff.mpr ⟨_, rfl, ?_⟩
    show -(Format.double.units place : Int) < 0
    omega

/-- Only a negative integer is rounded to something negative. -/
theorem lt_zero_of_ofInt_lt_zero {n : Int} (h : (ofInt n : Double) < 0) : n < 0 := by
  obtain ⟨a, ha, hneg⟩ := lt_zero_iff.mp h
  exact of_decide_eq_true (of_rank?_ofQuotient_lt_zero (by decide) ha hneg).1

end VisualNovel.Binary
