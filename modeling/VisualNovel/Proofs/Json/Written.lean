import VisualNovel.Json.Leaf
import Mathlib.Algebra.Group.Nat.Defs
import Mathlib.Data.Nat.Init

/-!
# Numerals as they are written

A numeral is written as its sign, its digits with a point between them, and its exponent
(`Numeral.chars`). If it is regular and nothing follows that belongs to a number, it is read back as
it is (`numeral_gives`), and as a number if it stands for one (`strictNumber_gives`). If its digits
fit 64 bits they make up the significand of the number it stands for (`Numeral.value?_eq`).
-/

namespace VisualNovel.Json

/-- A reading gives something and leaves a rest. -/
def Reading.Gives {α : Type} {length : Nat} (reading : Reading α length) (a : α)
    (rest : List Char) : Prop :=
  ∃ h : rest.length < length, reading = .ok (a, ⟨rest, h⟩)

section Gives

variable {α β : Type} {m n : Nat} {reading : Reading α m} {a : α} {rest : List Char}

/-- A reading gives the same where more might have been left. -/
theorem Reading.Gives.weaken (h : reading.Gives a rest) (hle : m ≤ n) :
    (reading.weaken hle).Gives a rest := by
  obtain ⟨hlt, rfl⟩ := h
  exact ⟨Nat.lt_of_lt_of_le hlt hle, rfl⟩

/-- What is given can be changed, and the rest stays. -/
theorem Reading.Gives.map (h : reading.Gives a rest) (f : α → β) :
    Reading.Gives (Except.map (fun result => (f result.1, result.2)) reading) (f a) rest := by
  obtain ⟨hlt, rfl⟩ := h
  exact ⟨hlt, rfl⟩

end Gives

/-! ## Digits -/

/-- The decimal digits of a number. -/
def digitsOf (n : Nat) : List Nat := (Nat.toDigits 10 n).map digitValue

/-- A digit that is written has its value. -/
theorem digitValue_digitChar {d : Nat} (h : d < 10) : digitValue d.digitChar = d :=
  Nat.toNat_digitChar_sub_48_of_lt_ten h

/-- A digit is written as it was read. -/
theorem digitChar_digitValue {c : Char} (h : c.isDigit) : (digitValue c).digitChar = c := by
  rw [Char.isDigit_iff_toNat] at h
  have hzero : '0'.toNat = 48 := rfl
  have hnine : '9'.toNat = 57 := rfl
  rw [← Char.toNat_inj, digitValue, Nat.toNat_digitChar_of_lt_ten (by omega)]
  omega

/-- A number is written in digits. -/
theorem isDigit_of_mem_toDigits {c : Char} {n : Nat} (h : c ∈ Nat.toDigits 10 n) : c.isDigit :=
  Nat.isDigit_of_mem_toDigits (by decide) (by decide) h

/-- The digits of a number are written as the number is. -/
theorem map_digitChar_digitsOf (n : Nat) : (digitsOf n).map Nat.digitChar = Nat.toDigits 10 n := by
  rw [digitsOf, List.map_map]
  calc (Nat.toDigits 10 n).map (Nat.digitChar ∘ digitValue)
    _ = (Nat.toDigits 10 n).map id :=
      List.map_congr_left fun c hc => digitChar_digitValue (isDigit_of_mem_toDigits hc)
    _ = Nat.toDigits 10 n := List.map_id _

/-- A number has as many digits as are written. -/
theorem length_digitsOf (n : Nat) : (digitsOf n).length = (Nat.toDigits 10 n).length :=
  List.length_map _

/-- A digit is below ten. -/
theorem lt_of_mem_digitsOf {d n : Nat} (h : d ∈ digitsOf n) : d < 10 := by
  obtain ⟨c, hc, rfl⟩ := List.mem_map.mp h
  have hdigit := Char.isDigit_iff_toNat.mp (isDigit_of_mem_toDigits hc)
  have hzero : '0'.toNat = 48 := rfl
  have hnine : '9'.toNat = 57 := rfl
  rw [digitValue]
  omega

/-- Every number has a digit. -/
theorem digitsOf_ne_nil (n : Nat) : digitsOf n ≠ [] := by
  rw [digitsOf, Ne, List.map_eq_nil_iff]
  exact Nat.toDigits_ne_nil

/-- No zero stands in front. -/
theorem exists_digitsOf_eq_cons {n : Nat} (h : 0 < n) :
    ∃ d rest, digitsOf n = d :: rest ∧ d ≠ 0 := by
  induction n using Nat.strongRecOn with
  | ind n ih =>
    rw [digitsOf]
    by_cases hlt : n < 10
    · rw [Nat.toDigits_of_lt_base hlt, List.map_singleton, digitValue_digitChar hlt]
      exact ⟨n, [], rfl, Nat.pos_iff_ne_zero.mp h⟩
    · obtain ⟨d, rest, hrest, hd⟩ := ih (n / 10) (by omega) (by omega)
      rw [Nat.toDigits_of_base_le (by decide) (Nat.not_lt.mp hlt), List.map_append]
      rw [digitsOf] at hrest
      exact ⟨d, _, by rw [hrest, List.cons_append], hd⟩

namespace Numeral

/-- The number that more digits make of a number. -/
def appendDigits (n : Nat) (digits : List Nat) : Nat := digits.foldl (fun n d => n * 10 + d) n

/-- Digits may be appended in two parts. -/
theorem appendDigits_append (n : Nat) (ds es : List Nat) :
    appendDigits n (ds ++ es) = appendDigits (appendDigits n ds) es :=
  List.foldl_append

/-- Each zero that is appended multiplies by ten. -/
theorem appendDigits_replicate (n k : Nat) :
    appendDigits n (List.replicate k 0) = n * 10 ^ k := by
  induction k generalizing n with
  | zero => rw [List.replicate_zero, Nat.pow_zero, Nat.mul_one, appendDigits, List.foldl_nil]
  | succ k ih =>
    rw [List.replicate_succ, appendDigits, List.foldl_cons, Nat.add_zero, Nat.pow_succ',
      ← Nat.mul_assoc]
    exact ih (n * 10)

/-- Appending digits makes no number smaller. -/
theorem le_appendDigits (n : Nat) (ds : List Nat) : n ≤ appendDigits n ds := by
  induction ds generalizing n with
  | nil => exact Nat.le_refl n
  | cons d ds ih =>
    rw [appendDigits, List.foldl_cons]
    exact Nat.le_trans (by omega) (ih (n * 10 + d))

/-- A number is what its digits stand for. -/
theorem ofDigits_digitsOf (n : Nat) : ofDigits (digitsOf n) = n := by
  have hfold : Nat.ofDigitChars 10 (Nat.toDigits 10 n) 0 = _ := Nat.ofDigitChars_eq_foldl
  rw [Nat.ofDigitChars_ten_toDigits] at hfold
  rw [ofDigits, digitsOf, List.foldl_map]
  refine Eq.trans ?_ hfold.symm
  congr 1
  funext sofar c
  rw [Nat.mul_comm, digitValue]

/-- All digits are gathered if what they make up fits. -/
theorem gather_eq {significand : Nat} {ds : List Nat}
    (h : appendDigits significand ds ≤ maxSignificand) :
    gather significand ds = (appendDigits significand ds, ds.length) := by
  induction ds generalizing significand with
  | nil => rfl
  | cons d ds ih =>
    have hfits : significand * 10 + d ≤ maxSignificand :=
      Nat.le_trans (le_appendDigits (significand * 10 + d) ds) h
    rw [gather, if_pos hfits, ih h]
    rfl

/-! ## Values -/

section Values

variable {numeral : Numeral}
  (hfits : ofDigits (numeral.whole ++ numeral.fraction) ≤ maxSignificand)
include hfits

/-- The significand is what the digits make up, and each digit after the point is a place. -/
theorem value?_eq (hreal : numeral.fraction ≠ [] ∨ numeral.exponent ≠ none) :
    numeral.value? = (magnitude? (ofDigits (numeral.whole ++ numeral.fraction))
      (-numeral.fraction.length) numeral.exponent).map fun x =>
        .real (if numeral.negative then x.negate else x) := by
  have happend : ofDigits (numeral.whole ++ numeral.fraction) =
      appendDigits (appendDigits 0 numeral.whole) numeral.fraction :=
    appendDigits_append 0 _ _
  rw [happend] at hfits ⊢
  have hwhole : gather 0 numeral.whole = (appendDigits 0 numeral.whole, numeral.whole.length) :=
    gather_eq (Nat.le_trans (le_appendDigits _ _) hfits)
  have hplain : ¬(numeral.fraction = [] ∧ numeral.exponent = none ∧ True) :=
    fun h => hreal.elim (fun hne => hne h.1) (fun hne => hne h.2.1)
  rw [value?, hwhole]
  simp only [Nat.sub_self, gather_eq hfits, hplain, if_false, Int.natCast_zero,
    Int.zero_sub]

/-- Without a point and an exponent it is a whole number. -/
theorem value?_eq_whole (hfraction : numeral.fraction = []) (hexponent : numeral.exponent = none) :
    numeral.value? = some (wholeValue numeral.negative (ofDigits numeral.whole)) := by
  rw [hfraction, List.append_nil] at hfits
  have hwhole : gather 0 numeral.whole = (ofDigits numeral.whole, numeral.whole.length) :=
    gather_eq hfits
  rw [value?, hwhole]
  simp only [Nat.sub_self, hfraction, hexponent, and_self, if_true]

end Values

/-! ## Characters -/

/-- The point and the digits after it, if there are any. -/
def fractionChars : List Nat → List Char
  | [] => []
  | ds => '.' :: ds.map Nat.digitChar

/-- The exponent with its sign, if there is one. -/
def exponentChars : Option (Bool × List Nat) → List Char
  | none => []
  | some (down, ds) => 'e' :: (if down then '-' else '+') :: ds.map Nat.digitChar

/-- A numeral without its sign. -/
def unsignedChars (numeral : Numeral) : List Char :=
  numeral.whole.map Nat.digitChar ++ fractionChars numeral.fraction
    ++ exponentChars numeral.exponent

/-- A numeral as it is written. -/
def chars (numeral : Numeral) : List Char :=
  (if numeral.negative then ['-'] else []) ++ numeral.unsignedChars

/-- There are digits wherever a text has to have them, and none in front that is in vain. -/
structure Regular (numeral : Numeral) : Prop where
  digit : ∀ d ∈ numeral.whole ++ numeral.fraction, d < 10
  whole : numeral.whole = [0] ∨ ∃ d rest, numeral.whole = d :: rest ∧ d ≠ 0
  exponent : ∀ down ds, numeral.exponent = some (down, ds) → ds ≠ [] ∧ ∀ d ∈ ds, d < 10

end Numeral

/-! ## Reading -/

/-- No digit comes first. -/
def NoDigit (rest : List Char) : Prop := ∀ c ∈ rest.head?, c.isDigit = false

/-- No digit and no point comes first. -/
def AfterFraction (rest : List Char) : Prop :=
  ∀ c ∈ rest.head?, c.isDigit = false ∧ c ≠ '.'

/-- Nothing that belongs to a number comes first. -/
def AfterNumber (rest : List Char) : Prop :=
  ∀ c ∈ rest.head?, (c.isDigit = false ∧ c ≠ '.') ∧ c ≠ 'e' ∧ c ≠ 'E'

/-- What comes after a fraction does not go on with digits. -/
theorem AfterFraction.noDigit {rest : List Char} (h : AfterFraction rest) : NoDigit rest :=
  fun c hc => (h c hc).1

/-- What comes after a number may come after its fraction. -/
theorem AfterNumber.afterFraction {rest : List Char} (h : AfterNumber rest) : AfterFraction rest :=
  fun c hc => (h c hc).1

/-- A value below ten is written as a digit. -/
theorem isDigit_digitChar {d : Nat} (h : d < 10) : d.digitChar.isDigit := by
  rw [Nat.isDigit_digitChar, decide_eq_true h]

section Digits

variable {ds : List Nat} {rest : List Char} (hds : ∀ d ∈ ds, d < 10)
include hds

/-- Digits that are written have their values. -/
theorem map_digitValue_digitChar : (ds.map Nat.digitChar).map digitValue = ds := by
  rw [List.map_map]
  calc ds.map (digitValue ∘ Nat.digitChar)
    _ = ds.map id := List.map_congr_left fun d hd => digitValue_digitChar (hds d hd)
    _ = ds := List.map_id _

/-- Digits are told from what follows them. -/
theorem span_digitChars (hrest : NoDigit rest) :
    (ds.map Nat.digitChar ++ rest).takeWhile Char.isDigit = ds.map Nat.digitChar ∧
      (ds.map Nat.digitChar ++ rest).dropWhile Char.isDigit = rest := by
  have hall : ∀ c ∈ ds.map Nat.digitChar, c.isDigit := by
    rw [List.forall_mem_map]
    exact fun d hd => isDigit_digitChar (hds d hd)
  rw [List.takeWhile_append_of_pos hall, List.dropWhile_append_of_pos hall]
  cases rest with
  | nil => exact ⟨List.append_nil _, rfl⟩
  | cons c rest =>
    have hc : c.isDigit = false := hrest c rfl
    rw [List.takeWhile_cons_of_neg (by simp [hc]), List.dropWhile_cons_of_neg (by simp [hc])]
    exact ⟨List.append_nil _, rfl⟩

/-- Digits are read up to where they end. -/
theorem digits_gives (hne : ds ≠ []) (hrest : NoDigit rest) :
    (digits (ds.map Nat.digitChar ++ rest)).Gives ds rest := by
  cases ds with
  | nil => exact absurd rfl hne
  | cons d ds =>
    obtain ⟨hd, hds⟩ := List.forall_mem_cons.mp hds
    obtain ⟨htake, hdrop⟩ := span_digitChars hds hrest
    rw [List.map_cons, List.cons_append, digits, if_pos (isDigit_digitChar hd)]
    simp only [htake, hdrop, map_digitValue_digitChar hds, digitValue_digitChar hd]
    exact ⟨_, rfl⟩

end Digits

/-- But for a leading zero, whole numbers are read as digits are. -/
theorem wholeDigits_eq_digits {c : Char} (h : c ≠ '0') (rest : List Char) :
    wholeDigits (c :: rest) = digits (c :: rest) := by
  rw [wholeDigits]
  rintro _ _ ⟨rfl, -⟩
  exact h rfl

/-- The digits before the point are read up to where they end. -/
theorem wholeDigits_gives {ds : List Nat} {rest : List Char} (hds : ∀ d ∈ ds, d < 10)
    (hwhole : ds = [0] ∨ ∃ d others, ds = d :: others ∧ d ≠ 0) (hrest : NoDigit rest) :
    (wholeDigits (ds.map Nat.digitChar ++ rest)).Gives ds rest := by
  rcases hwhole with rfl | ⟨d, others, rfl, hd⟩
  · cases rest with
    | nil => exact digits_gives hds (by decide) hrest
    | cons c rest =>
      have hc : c.isDigit = false := hrest c rfl
      refine ⟨Nat.lt_succ_self _, ?_⟩
      show wholeDigits ('0' :: c :: rest) = _
      rw [wholeDigits, if_neg (by simp [hc])]
  · have hdigits := digits_gives hds (by simp) hrest
    rw [List.map_cons, List.cons_append] at hdigits ⊢
    rw [wholeDigits_eq_digits (by simpa using hd)]
    exact hdigits

/-- What stands after the point is read, and nothing if there is no point. -/
theorem fractionDigits_gives {ds : List Nat} {rest : List Char} (hds : ∀ d ∈ ds, d < 10)
    (hrest : AfterFraction rest) {length : Nat}
    (h : (Numeral.fractionChars ds ++ rest).length < length) :
    (fractionDigits ⟨Numeral.fractionChars ds ++ rest, h⟩).Gives ds rest := by
  cases ds with
  | nil =>
    refine ⟨h, ?_⟩
    rw [fractionDigits]
    · rfl
    · intro after _ heq
      obtain rfl : rest = '.' :: after := congrArg Subtype.val heq
      exact (hrest '.' rfl).2 rfl
  | cons d ds =>
    exact (digits_gives hds (by simp) hrest.noDigit).weaken _

/-- An exponent begins with a letter. -/
theorem exponentPart_marked (rest : List Char) {length : Nat} (h : ('e' :: rest).length < length) :
    exponentPart ⟨'e' :: rest, h⟩ =
      Except.map (fun result => (some result.1, result.2))
        ((signedDigits rest).weaken (Nat.le_of_lt (Nat.lt_of_succ_lt h))) := by
  rw [exponentPart.eq_def]
  simp

/-- An exponent with its sign is read, and nothing if there is none. -/
theorem exponentPart_gives {exponent : Option (Bool × List Nat)} {rest : List Char}
    (hexponent : ∀ down ds, exponent = some (down, ds) → ds ≠ [] ∧ ∀ d ∈ ds, d < 10)
    (hrest : AfterNumber rest) {length : Nat}
    (h : (Numeral.exponentChars exponent ++ rest).length < length) :
    (exponentPart ⟨Numeral.exponentChars exponent ++ rest, h⟩).Gives exponent rest := by
  cases exponent with
  | none =>
    refine ⟨h, ?_⟩
    cases rest with
    | nil => rfl
    | cons c rest =>
      obtain ⟨-, he, hE⟩ := hrest c rfl
      exact if_neg (not_or.mpr ⟨he, hE⟩)
  | some exponent =>
    obtain ⟨down, ds⟩ := exponent
    obtain ⟨hne, hds⟩ := hexponent down ds rfl
    have hdigits := digits_gives hds hne hrest.afterFraction.noDigit
    -- both signs are read alike
    have hsigned : (signedDigits ((if down then '-' else '+') ::
        (ds.map Nat.digitChar ++ rest))).Gives (down, ds) rest := by
      cases down with
      | false => exact (hdigits.weaken _).map (Prod.mk false)
      | true => exact (hdigits.weaken _).map (Prod.mk true)
    have hpart := (hsigned.weaken (Nat.le_of_lt (Nat.lt_of_succ_lt h))).map some
    obtain ⟨hlt, heq⟩ := hpart
    exact ⟨hlt, (exponentPart_marked _ h).trans heq⟩

/-- An exponent follows digits and a point. -/
theorem AfterNumber.exponentChars {rest : List Char} (h : AfterNumber rest)
    (exponent : Option (Bool × List Nat)) :
    AfterFraction (Numeral.exponentChars exponent ++ rest) := by
  cases exponent with
  | none => exact h.afterFraction
  | some exponent =>
    rintro _ ⟨rfl⟩
    decide

/-- A point follows digits. -/
theorem AfterFraction.fractionChars {rest : List Char} (h : AfterFraction rest) (ds : List Nat) :
    NoDigit (Numeral.fractionChars ds ++ rest) := by
  cases ds with
  | nil => exact h.noDigit
  | cons d ds =>
    rintro _ ⟨rfl⟩
    decide

section Numerals

variable {numeral : Numeral} (hregular : numeral.Regular) {rest : List Char}
  (hrest : AfterNumber rest)
include hregular hrest

/-- What is written behind the sign is read as the numeral. -/
theorem unsignedNumeral_gives :
    (unsignedNumeral numeral.negative (numeral.unsignedChars ++ rest)).Gives numeral rest := by
  obtain ⟨negative, whole, fraction, exponent⟩ := numeral
  obtain ⟨hdigit, hwhole, hexponent⟩ := hregular
  rw [List.forall_mem_append] at hdigit
  obtain ⟨hdigitWhole, hdigitFraction⟩ := hdigit
  dsimp only at *
  have hafterFraction := hrest.exponentChars exponent
  have happend : Numeral.unsignedChars ⟨negative, whole, fraction, exponent⟩ ++ rest =
      whole.map Nat.digitChar ++ (Numeral.fractionChars fraction ++
        (Numeral.exponentChars exponent ++ rest)) := by
    rw [Numeral.unsignedChars, List.append_assoc, List.append_assoc]
  rw [happend, unsignedNumeral]
  obtain ⟨hltWhole, hreadWhole⟩ :=
    wholeDigits_gives hdigitWhole hwhole (hafterFraction.fractionChars fraction)
  obtain ⟨hltFraction, hreadFraction⟩ := fractionDigits_gives hdigitFraction hafterFraction hltWhole
  obtain ⟨hltExponent, hreadExponent⟩ := exponentPart_gives hexponent hrest hltFraction
  refine ⟨hltExponent, ?_⟩
  simp only [hreadWhole, bind, Except.bind, hreadFraction, hreadExponent]
  rfl

omit hrest in
/-- A digit comes first. -/
theorem exists_unsignedChars_eq_cons :
    ∃ c cs, numeral.unsignedChars = c :: cs ∧ c.isDigit := by
  obtain ⟨d, ds, hwhole⟩ : ∃ d ds, numeral.whole = d :: ds := by
    rcases hregular.whole with h | ⟨d, ds, h, -⟩
    · exact ⟨0, [], h⟩
    · exact ⟨d, ds, h⟩
  have hd : d < 10 := hregular.digit d (by rw [hwhole]; exact List.mem_cons_self)
  rw [Numeral.unsignedChars, hwhole]
  exact ⟨d.digitChar, _, rfl, isDigit_digitChar hd⟩

omit hrest in
/-- A sign or a digit comes first. -/
theorem exists_chars_eq_cons : ∃ c cs, numeral.chars = c :: cs ∧ (c = '-' ∨ c.isDigit) := by
  obtain ⟨c, cs, hchars, hdigit⟩ := exists_unsignedChars_eq_cons hregular
  rw [Numeral.chars]
  cases numeral.negative with
  | false => exact ⟨c, cs, hchars, Or.inr hdigit⟩
  | true => exact ⟨'-', _, rfl, Or.inl rfl⟩

/-- A numeral is read back. -/
theorem numeral_gives : (Json.numeral (numeral.chars ++ rest)).Gives numeral rest := by
  have hunsigned := unsignedNumeral_gives hregular hrest
  obtain ⟨c, cs, hchars, hdigit⟩ := exists_unsignedChars_eq_cons hregular
  rw [Numeral.chars]
  cases hnegative : numeral.negative with
  | true =>
    rw [hnegative] at hunsigned
    exact hunsigned.weaken _
  | false =>
    rw [hnegative, hchars, List.cons_append] at hunsigned
    rw [hchars]
    have hsign : c ≠ '-' := by
      rintro rfl
      exact absurd hdigit (by decide)
    have hplain : Json.numeral (c :: (cs ++ rest)) = unsignedNumeral false (c :: (cs ++ rest)) := by
      rw [Json.numeral]
      rintro _ ⟨rfl, -⟩
      exact hsign rfl
    rw [← hplain] at hunsigned
    exact hunsigned

/-- The number that a numeral stands for is read where it is written. -/
theorem strictNumber_gives {number : Number} (hvalue : numeral.value? = some number) :
    (strictNumber (numeral.chars ++ rest)).Gives number rest := by
  obtain ⟨hlt, hnumeral⟩ := numeral_gives hregular hrest
  refine ⟨hlt, ?_⟩
  simp only [strictNumber, hnumeral, bind, Except.bind, hvalue]
  rfl

end Numerals

/-- A text is a numeral that stands for a number. -/
def Number.WrittenAs (number : Number) (text : List Char) : Prop :=
  ∃ numeral : Numeral, numeral.Regular ∧ numeral.chars = text ∧ numeral.value? = some number

/-- Whole numbers are written by their digits. -/
theorem writtenAs_toString (n : UInt32) :
    (Number.integer n.toNat).WrittenAs (toString n).toList := by
  have hfits : Numeral.ofDigits (digitsOf n.toNat ++ []) ≤ Numeral.maxSignificand := by
    rw [List.append_nil, Numeral.ofDigits_digitsOf]
    exact Nat.le_trans (Nat.le_of_lt n.toNat_lt) (by decide)
  have hwhole : digitsOf n.toNat = [0] ∨ ∃ d rest, digitsOf n.toNat = d :: rest ∧ d ≠ 0 := by
    by_cases hzero : n.toNat = 0
    · rw [hzero]
      exact Or.inl (by decide)
    · exact Or.inr (exists_digitsOf_eq_cons (Nat.pos_of_ne_zero hzero))
  refine ⟨⟨false, digitsOf n.toNat, [], none⟩, ⟨?_, hwhole, nofun⟩, ?_, ?_⟩
  · rw [List.append_nil]
    exact fun d hd => lt_of_mem_digitsOf hd
  · have htext : (toString n).toList = Nat.toDigits 10 n.toNat := Nat.toList_repr
    rw [Numeral.chars, Numeral.unsignedChars, map_digitChar_digitsOf, htext]
    simp [Numeral.fractionChars, Numeral.exponentChars]
  · rw [Numeral.value?_eq_whole hfits rfl rfl, Numeral.ofDigits_digitsOf]
    rfl

end VisualNovel.Json
