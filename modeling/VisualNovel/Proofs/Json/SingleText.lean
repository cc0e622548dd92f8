import VisualNovel.Proofs.Json.Narrowing
import VisualNovel.Proofs.Json.Written

/-!
# The text of a single

The text of a finite single in a JSON text is a numeral (`exists_writtenAs_text`): the digits of its
shortest decimal, with a point among them or zeros around them, or with an exponent. What it stands
for is narrowed to the single, so the text keeps what the double in a value keeps.
-/

namespace VisualNovel.Json

open Binary Numeral

/-! ## What numerals stand for -/

/-- What is narrowed to a place with either sign keeps the sign of the numeral. -/
theorem exists_value?_of_magnitude? {numeral : Numeral} {c : Fin Format.double.magnitudes}
    {place : Fin Format.single.magnitudes}
    (hfits : ofDigits (numeral.whole ++ numeral.fraction) ≤ maxSignificand)
    (hreal : numeral.fraction ≠ [] ∨ numeral.exponent ≠ none)
    (hmagnitude : magnitude? (ofDigits (numeral.whole ++ numeral.fraction))
      (-numeral.fraction.length) numeral.exponent = some (.finite false c))
    (hnarrow : ∀ negative, (.finite negative c : Double).narrow = .finite negative place) :
    ∃ y, numeral.value? = some (.real y) ∧ y.narrow = .finite numeral.negative place := by
  rw [value?_eq hfits hreal, hmagnitude]
  refine ⟨_, rfl, ?_⟩
  cases numeral.negative with
  | false => exact hnarrow false
  | true => exact hnarrow true

/-- An exponent is added to the places after the point. -/
theorem magnitude?_exponent (significand : Nat) (shift : Int) {exponent : Int}
    (hexponent : exponent.natAbs ≤ maxExponent) :
    magnitude? significand shift (some (exponent < 0, digitsOf exponent.natAbs)) =
      scale significand (shift + exponent) := by
  rw [magnitude?, ofDigits_digitsOf, if_pos hexponent]
  congr 1
  split
  · next hneg =>
    rw [decide_eq_true_eq] at hneg
    omega
  · next hneg =>
    rw [decide_eq_true_eq] at hneg
    omega

theorem ofDigits_replicate_append (k n : Nat) :
    ofDigits (List.replicate k 0 ++ digitsOf n) = n := by
  have happend : ofDigits (List.replicate k 0 ++ digitsOf n) =
      appendDigits (appendDigits 0 (List.replicate k 0)) (digitsOf n) := appendDigits_append 0 _ _
  rw [happend, appendDigits_replicate, Nat.zero_mul]
  exact ofDigits_digitsOf n

theorem ofDigits_append_replicate (n k : Nat) :
    ofDigits (digitsOf n ++ List.replicate k 0) = n * 10 ^ k := by
  have happend : ofDigits (digitsOf n ++ List.replicate k 0) =
      appendDigits (ofDigits (digitsOf n)) (List.replicate k 0) := appendDigits_append 0 _ _
  rw [happend, appendDigits_replicate, ofDigits_digitsOf]

/-! ## Forms of text -/

theorem fractionChars_of_ne_nil {ds : List Nat} (h : ds ≠ []) :
    fractionChars ds = '.' :: ds.map Nat.digitChar := by
  cases ds with
  | nil => exact absurd rfl h
  | cons d ds => rfl

section Forms

variable (style : NumberStyle) {n : Nat} {point : Int} (negative : Bool)

/-- A number below one: zeros stand after the point. -/
theorem toList_positionalText_small (hpoint : point ≤ 0) :
    (style.positionalText (Nat.toDigits 10 n) point).toList =
      unsignedChars ⟨negative, [0], List.replicate (-point).toNat 0 ++ digitsOf n, none⟩ := by
  have hne : List.replicate (-point).toNat 0 ++ digitsOf n ≠ [] := by
    simp [digitsOf_ne_nil]
  rw [NumberStyle.positionalText, if_pos hpoint, unsignedChars, fractionChars_of_ne_nil hne,
    List.map_append, List.map_replicate, map_digitChar_digitsOf, String.toList_append,
    String.toList_ofList]
  simp [exponentChars]

/-- A whole number: zeros stand before the point, and one after it. -/
theorem toList_positionalText_whole (hpoint : 0 < point) (hlength : (digitsOf n).length ≤ point) :
    (NumberStyle.jsonSingle.positionalText (Nat.toDigits 10 n) point).toList =
      unsignedChars ⟨negative,
        digitsOf n ++ List.replicate (point - (digitsOf n).length).toNat 0, [0], none⟩ := by
  rw [length_digitsOf] at hlength ⊢
  rw [NumberStyle.positionalText, if_neg (Int.not_le.mpr hpoint), if_pos hlength, unsignedChars,
    List.map_append, List.map_replicate, map_digitChar_digitsOf, String.toList_append,
    String.toList_ofList]
  have hzero : Nat.digitChar 0 = '0' := rfl
  simp [exponentChars, fractionChars, NumberStyle.jsonSingle, hzero]

/-- The point stands among the digits. -/
theorem toList_positionalText_among (hpoint : 0 < point) (hlength : point < (digitsOf n).length) :
    (style.positionalText (Nat.toDigits 10 n) point).toList =
      unsignedChars ⟨negative, (digitsOf n).take point.toNat, (digitsOf n).drop point.toNat,
        none⟩ := by
  have hne : (digitsOf n).drop point.toNat ≠ [] := by
    rw [Ne, List.drop_eq_nil_iff]
    omega
  rw [length_digitsOf] at hlength
  rw [NumberStyle.positionalText, if_neg (Int.not_le.mpr hpoint), if_neg (Int.not_le.mpr hlength),
    unsignedChars, fractionChars_of_ne_nil hne, List.map_take, List.map_drop,
    map_digitChar_digitsOf, String.toList_append, String.toList_append, String.toList_ofList,
    String.toList_ofList]
  simp [exponentChars]

/-- The point stands after the first digit, and an exponent at the end. -/
theorem toList_exponentText (exponent : Int) :
    (NumberStyle.exponentText (Nat.toDigits 10 n) exponent).toList =
      unsignedChars ⟨negative, (digitsOf n).take 1, (digitsOf n).drop 1,
        some (exponent < 0, digitsOf exponent.natAbs)⟩ := by
  have hsign : (if exponent < 0 then "-" else "+").toList =
      [if decide (exponent < 0) then '-' else '+'] := by
    split <;> simp [*]
  have htail : (Nat.toDigits 10 n).tail = ((digitsOf n).drop 1).map Nat.digitChar := by
    rw [← List.drop_one, ← map_digitChar_digitsOf, List.map_drop]
  have htake : (Nat.toDigits 10 n).take 1 = ((digitsOf n).take 1).map Nat.digitChar := by
    rw [List.map_take, map_digitChar_digitsOf]
  rw [NumberStyle.exponentText, unsignedChars, exponentChars, htail, htake]
  -- the point is there only if another digit is
  generalize (digitsOf n).drop 1 = rest
  cases rest with
  | nil => simp [fractionChars, hsign, map_digitChar_digitsOf, Nat.toString_eq_repr]
  | cons d ds => simp [fractionChars, hsign, map_digitChar_digitsOf, Nat.toString_eq_repr]

end Forms

/-! ## Texts that survive -/

/-- A text is that of a numeral with a sign, which is read and narrowed to a place. -/
def Survives (negative : Bool) (text : List Char) (place : Fin Format.single.magnitudes) : Prop :=
  ∃ numeral : Numeral, numeral.Regular ∧ numeral.negative = negative ∧
    numeral.unsignedChars = text ∧
    ∃ y, numeral.value? = some (.real y) ∧ y.narrow = .finite negative place

/-- A numeral without an exponent is regular if its digits are. -/
theorem regular_positional {negative : Bool} {whole fraction : List Nat}
    (hdigits : ∀ d ∈ whole ++ fraction, d < 10)
    (hwhole : whole = [0] ∨ ∃ d rest, whole = d :: rest ∧ d ≠ 0) :
    Regular ⟨negative, whole, fraction, none⟩ :=
  ⟨hdigits, hwhole, nofun⟩

theorem le_maxSignificand {n : Nat} (h : n < 2 ^ 53) : n ≤ maxSignificand :=
  Nat.le_trans (Nat.le_of_lt h) (by decide)

section Survives

variable {n : Nat} {exponent : Int} {c : Fin Format.double.magnitudes}
  {place : Fin Format.single.magnitudes} (negative : Bool)
  (hnarrow : ∀ negative, (.finite negative c : Double).narrow = .finite negative place)
include hnarrow

/-- A number below one survives if its digits and its exponent do. -/
theorem survives_small (hlt : n < 2 ^ 53) (hscale : scale n exponent = some (.finite false c))
    (hpoint : exponent + (digitsOf n).length ≤ 0) :
    Survives negative (NumberStyle.jsonSingle.positionalText (Nat.toDigits 10 n)
      (exponent + (digitsOf n).length)).toList place := by
  have htext := toList_positionalText_small .jsonSingle (n := n) negative hpoint
  have hlength : -((List.replicate (-(exponent + (digitsOf n).length)).toNat 0 ++
      digitsOf n).length : Int) = exponent := by
    rw [List.length_append, List.length_replicate]
    omega
  generalize (-(exponent + (digitsOf n).length)).toNat = zeros at htext hlength
  have hvalue : ofDigits ([0] ++ (List.replicate zeros 0 ++ digitsOf n)) = n :=
    ofDigits_replicate_append (zeros + 1) n
  have hdigits : ∀ d ∈ [0] ++ (List.replicate zeros 0 ++ digitsOf n), d < 10 := by
    simp only [List.forall_mem_append, List.mem_replicate]
    refine ⟨by simp, fun d hd => ?_, fun d hd => lt_of_mem_digitsOf hd⟩
    omega
  refine ⟨_, regular_positional hdigits (Or.inl rfl), rfl, htext.symm,
    exists_value?_of_magnitude? ?_ (Or.inl ?_) ?_ hnarrow⟩
  · exact hvalue.symm ▸ le_maxSignificand hlt
  · simp [digitsOf_ne_nil]
  · dsimp only
    rw [hvalue, hlength, magnitude?]
    exact hscale

/-- A whole number survives if it does with one more digit. -/
theorem survives_whole (hn : 0 < n) (hnonneg : 0 ≤ exponent)
    (hlt : n * 10 ^ exponent.toNat * 10 < 2 ^ 53)
    (hscale : scale (n * 10 ^ exponent.toNat * 10) (-1) = some (.finite false c)) :
    Survives negative (NumberStyle.jsonSingle.positionalText (Nat.toDigits 10 n)
      (exponent + (digitsOf n).length)).toList place := by
  obtain ⟨d, others, hdigitsOf, hd⟩ := exists_digitsOf_eq_cons hn
  have hpoint : 0 < exponent + (digitsOf n).length := by
    rw [hdigitsOf, List.length_cons]
    omega
  have htext := toList_positionalText_whole (n := n) negative hpoint (by omega)
  have hzeros : (exponent + (digitsOf n).length - (digitsOf n).length).toNat = exponent.toNat := by
    omega
  rw [hzeros] at htext
  generalize exponent.toNat = zeros at htext hlt hscale
  have hvalue : ofDigits (digitsOf n ++ List.replicate zeros 0 ++ [0]) = n * 10 ^ zeros * 10 := by
    rw [List.append_assoc]
    have hmore := ofDigits_append_replicate n (zeros + 1)
    rw [List.replicate_succ', Nat.pow_succ, ← Nat.mul_assoc] at hmore
    exact hmore
  have hdigits : ∀ d ∈ digitsOf n ++ List.replicate zeros 0 ++ [0], d < 10 := by
    simp only [List.forall_mem_append, List.mem_replicate]
    refine ⟨⟨fun d hd => lt_of_mem_digitsOf hd, fun d hd => ?_⟩, by simp⟩
    omega
  refine ⟨_, regular_positional hdigits (Or.inr ⟨d, others ++ List.replicate zeros 0, ?_, hd⟩),
    rfl, htext.symm, exists_value?_of_magnitude? ?_ (Or.inl ?_) ?_ hnarrow⟩
  · rw [hdigitsOf, List.cons_append]
  · exact hvalue.symm ▸ le_maxSignificand hlt
  · exact List.cons_ne_nil _ _
  · dsimp only
    rw [hvalue, magnitude?]
    exact hscale

/-- A number with its point among its digits survives. -/
theorem survives_among (hn : 0 < n) (hlt : n < 2 ^ 53)
    (hscale : scale n exponent = some (.finite false c))
    (hpoint : 0 < exponent + (digitsOf n).length) (hneg : exponent < 0) :
    Survives negative (NumberStyle.jsonSingle.positionalText (Nat.toDigits 10 n)
      (exponent + (digitsOf n).length)).toList place := by
  obtain ⟨d, others, hdigitsOf, hd⟩ := exists_digitsOf_eq_cons hn
  have htext := toList_positionalText_among .jsonSingle (n := n) negative hpoint (by omega)
  obtain ⟨k, hk⟩ : ∃ k, (exponent + (digitsOf n).length).toNat = k + 1 :=
    ⟨(exponent + (digitsOf n).length).toNat - 1, by omega⟩
  rw [hk] at htext
  have hvalue : ofDigits ((digitsOf n).take (k + 1) ++ (digitsOf n).drop (k + 1)) = n := by
    rw [List.take_append_drop, ofDigits_digitsOf]
  have hlength : -(((digitsOf n).drop (k + 1)).length : Int) = exponent := by
    rw [List.length_drop]
    omega
  have hdigits : ∀ d ∈ (digitsOf n).take (k + 1) ++ (digitsOf n).drop (k + 1), d < 10 := by
    rw [List.take_append_drop]
    exact fun d hd => lt_of_mem_digitsOf hd
  refine ⟨_, regular_positional hdigits (Or.inr ⟨d, others.take k, ?_, hd⟩), rfl,
    htext.symm, exists_value?_of_magnitude? ?_ (Or.inl ?_) ?_ hnarrow⟩
  · rw [hdigitsOf, List.take_succ_cons]
  · exact hvalue.symm ▸ le_maxSignificand hlt
  · rw [Ne, List.drop_eq_nil_iff]
    omega
  · dsimp only
    rw [hvalue, hlength, magnitude?]
    exact hscale

/-- A number with an exponent survives. -/
theorem survives_exponent (hn : 0 < n) (hlt : n < 2 ^ 53)
    (hexponent : (exponent + (digitsOf n).length - 1).natAbs ≤ maxExponent)
    (hscale : scale n exponent = some (.finite false c)) :
    Survives negative (NumberStyle.exponentText (Nat.toDigits 10 n)
      (exponent + (digitsOf n).length - 1)).toList place := by
  obtain ⟨d, others, hdigitsOf, hd⟩ := exists_digitsOf_eq_cons hn
  have htext := toList_exponentText (n := n) negative (exponent + (digitsOf n).length - 1)
  have hvalue : ofDigits ((digitsOf n).take 1 ++ (digitsOf n).drop 1) = n := by
    rw [List.take_append_drop, ofDigits_digitsOf]
  have hdigits : ∀ d ∈ (digitsOf n).take 1 ++ (digitsOf n).drop 1, d < 10 := by
    rw [List.take_append_drop]
    exact fun d hd => lt_of_mem_digitsOf hd
  have hshift : -(((digitsOf n).drop 1).length : Int) + (exponent + (digitsOf n).length - 1) =
      exponent := by
    rw [hdigitsOf, List.drop_one, List.tail_cons, List.length_cons]
    omega
  refine ⟨_, ⟨hdigits, Or.inr ⟨d, [], ?_, hd⟩, ?_⟩, rfl, htext.symm,
    exists_value?_of_magnitude? ?_ (Or.inr (Option.some_ne_none _)) ?_ hnarrow⟩
  · rw [hdigitsOf, List.take_succ_cons, List.take_zero]
  · rintro _ _ ⟨rfl⟩
    exact ⟨digitsOf_ne_nil _, fun d hd => lt_of_mem_digitsOf hd⟩
  · exact hvalue.symm ▸ le_maxSignificand hlt
  · dsimp only
    rw [hvalue, magnitude?_exponent _ _ hexponent, hshift]
    exact hscale

end Survives

/-! ## Texts of singles -/

/-- A number with few digits and zeros fits a significand with one more. -/
theorem mul_pow_lt {n k : Nat} (h : (digitsOf n).length + k ≤ 13) : n * 10 ^ k * 10 < 2 ^ 53 := by
  rw [length_digitsOf] at h
  have hlt : n < 10 ^ (Nat.toDigits 10 n).length :=
    (Nat.length_toDigits_le_iff (by decide) Nat.length_toDigits_pos).mp (Nat.le_refl _)
  have hproduct := Nat.mul_lt_mul_of_pos_right hlt (Nat.pow_pos (by decide) : 0 < 10 ^ k)
  rw [← Nat.pow_add] at hproduct
  have hpower : 10 ^ ((Nat.toDigits 10 n).length + k) ≤ 10 ^ 13 :=
    Nat.pow_le_pow_right (by decide) h
  omega

/-- The shortest decimal of a magnitude survives in either form. -/
theorem survives_decimalText {decimal : Decimal} {place : Fin Format.single.magnitudes}
    (hpos : 0 < place.val) (h : Format.Stands decimal place) (hlower : -63 ≤ decimal.exponent)
    (hupper : decimal.exponent ≤ 40) (negative : Bool) :
    Survives negative (NumberStyle.jsonSingle.decimalText decimal).toList place := by
  obtain ⟨c, hscale, hnarrow⟩ := exists_scale_of_stands hpos h hlower hupper
  obtain ⟨n, exponent⟩ := decimal
  obtain ⟨hn, hlt, hroundsTo, -⟩ := h
  dsimp only at *
  have hltWide : n < 2 ^ 53 := Nat.lt_trans hlt (by decide)
  have hlength : (digitsOf n).length ≤ 10 := by
    rw [length_digitsOf, Nat.length_toDigits_le_iff (by decide) (by decide)]
    exact Nat.lt_trans hlt (by decide)
  have hform : NumberStyle.jsonSingle.decimalText ⟨n, exponent⟩ =
      if -6 ≤ exponent + (digitsOf n).length - 1 ∧ exponent + (digitsOf n).length - 1 ≤ 12 then
        NumberStyle.jsonSingle.positionalText (Nat.toDigits 10 n) (exponent + (digitsOf n).length)
      else NumberStyle.exponentText (Nat.toDigits 10 n) (exponent + (digitsOf n).length - 1) := by
    rw [NumberStyle.decimalText]
    simp only [length_digitsOf, Int.sub_add_cancel, NumberStyle.jsonSingle]
  rw [hform]
  split
  · next hrange =>
    by_cases hsmall : exponent + (digitsOf n).length ≤ 0
    · exact survives_small negative hnarrow hltWide hscale hsmall
    · by_cases hneg : exponent < 0
      · exact survives_among negative hnarrow hn hltWide hscale (Int.not_le.mp hsmall) hneg
      · -- a whole number is written with all its zeros and one more
        have hbound := mul_pow_lt (by omega : (digitsOf n).length + exponent.toNat ≤ 13)
        have hwhole : Format.single.RoundsTo (n * 10 ^ exponent.toNat : Nat) place := by
          push_cast
          rw [← zpow_natCast, Int.toNat_of_nonneg (Int.not_lt.mp hneg)]
          exact hroundsTo
        obtain ⟨c, hscale, hnarrow⟩ := exists_scale_whole
          (Nat.mul_pos hn (Nat.pow_pos (by decide))) hbound hwhole
        exact survives_whole negative hnarrow hn (Int.not_lt.mp hneg) hbound hscale
  · exact survives_exponent negative hnarrow hn hltWide
      (Nat.le_trans (by omega) (by decide : 80 ≤ maxExponent)) hscale

/-- Zero survives. -/
theorem survives_zero {place : Fin Format.single.magnitudes} (h : place.val = 0) (negative : Bool) :
    Survives negative "0.0".toList place := by
  have hzero : place = ⟨0, by decide⟩ := Fin.ext h
  have hscale : scale 0 (-1) = some (.finite false ⟨0, by decide⟩) := by
    rw [scale, if_neg (by decide), scaleDown, if_pos (by decide)]
    decide +kernel
  have hnarrow : ∀ negative, (.finite negative ⟨0, by decide⟩ : Double).narrow =
      .finite negative ⟨0, by decide⟩ := by
    decide +kernel
  have hfits : ofDigits ([0] ++ [0]) ≤ maxSignificand := by decide
  exact ⟨⟨negative, [0], [0], none⟩, regular_positional (by decide) (Or.inl rfl), rfl, rfl,
    exists_value?_of_magnitude? hfits (Or.inl (List.cons_ne_nil _ _)) hscale (hzero ▸ hnarrow)⟩

/-- A finite single is written as a number that is narrowed to it. -/
theorem exists_writtenAs_text {x : Single} (h : x.isFinite) :
    ∃ y, (Number.real y).WrittenAs (x.text .jsonSingle).toList ∧ y.narrow = x := by
  cases x with
  | infinite negative => exact absurd h nofun
  | nan => exact absurd h nofun
  | finite negative place =>
    have hsurvives : Survives negative
        (NumberStyle.jsonSingle.magnitudeText .single place).toList place := by
      rw [NumberStyle.magnitudeText]
      split
      · next hunits =>
        refine survives_zero ?_ negative
        by_contra hne
        obtain ⟨s, n, hspan⟩ := Format.exists_span (Nat.pos_of_ne_zero hne)
        have hpos := Nat.mul_pos hspan.pos (Nat.two_pow_pos s)
        rw [← hspan.units_eq, hunits] at hpos
        exact Nat.lt_irrefl 0 hpos
      · next hunits =>
        have hpos : 0 < place.val := by
          refine Nat.pos_of_ne_zero fun hzero => hunits ?_
          rw [hzero]
          exact Format.units_zero _
        obtain ⟨hstands, hlower, hupper⟩ := Format.stands_shortest hpos place.isLt
        exact survives_decimalText hpos hstands hlower hupper negative
    obtain ⟨numeral, hregular, hnegative, hchars, y, hy, hnarrow⟩ := hsurvives
    refine ⟨y, ⟨numeral, hregular, ?_, hy⟩, hnarrow⟩
    rw [Numeral.chars, hchars, hnegative, Binary.text, String.toList_append]
    cases negative <;> rfl

end VisualNovel.Json
