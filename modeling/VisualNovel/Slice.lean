import VisualNovel.Text

/-!
# Slices of a text

A text can be divided before a byte if a character begins there, or if the text ends there: such a
byte is a boundary. A slice is taken from one boundary up to another and is refused anywhere else,
also where it would end before it begins or reach past the text.

From any byte, the nearest boundary is found going backward (`boundaryBefore`) or forward
(`boundaryAfter`), byte by byte.
-/

namespace VisualNovel

/-- The two parts of a text before and after a byte, or `none` inside a character and past the end
of the text. -/
def splitAtByte? : Nat → List Char → Option (List Char × List Char)
  | 0, text => some ([], text)
  | _ + 1, [] => none
  | byte + 1, c :: rest =>
    if byte + 1 < c.utf8Size then none
    else (splitAtByte? (byte + 1 - c.utf8Size) rest).map fun (before, after) => (c :: before, after)

/-- Whether a text can be divided before a byte. -/
def isBoundary (text : List Char) (byte : Nat) : Bool := (splitAtByte? byte text).isSome

/-- The part of a text from one byte up to another, or `none` if there is no such part. -/
def slice? (text : List Char) (start stop : Nat) : Option (List Char) := do
  let (before, _) ← splitAtByte? stop text
  let (_, part) ← splitAtByte? start before
  return part

/-- The first boundary that is met going backward from a byte. -/
def boundaryBefore (text : List Char) : Nat → Nat
  | 0 => 0
  | byte + 1 => if isBoundary text (byte + 1) then byte + 1 else boundaryBefore text byte

/-- The first boundary that is met going forward from a byte, which ends with the text. -/
def boundaryAfter (text : List Char) (byte : Nat) : Nat :=
  if h : byte < byteCount text ∧ ¬isBoundary text byte then boundaryAfter text (byte + 1) else byte
termination_by byteCount text - byte
decreasing_by exact Nat.sub_succ_lt_self _ _ h.1

/-! ## Division at a byte -/

section Slice

variable {text : List Char} {byte : Nat}

/-- Nothing comes before the first byte. -/
theorem splitAtByte?_zero (text : List Char) : splitAtByte? 0 text = some ([], text) := by
  cases text <;> rfl

/-- A text is divided behind its first character where the rest is divided. -/
theorem splitAtByte?_cons {c : Char} (h : c.utf8Size ≤ byte) (rest : List Char) :
    splitAtByte? byte (c :: rest) = (splitAtByte? (byte - c.utf8Size) rest).map
      fun (before, after) => (c :: before, after) := by
  cases byte with
  | zero => exact absurd h (Nat.not_le.mpr c.utf8Size_pos)
  | succ byte => rw [splitAtByte?, if_neg (Nat.not_lt.mpr h)]

/-- Two texts in a row are divided again where the first ends. -/
theorem splitAtByte?_append (before after : List Char) :
    splitAtByte? (byteCount before) (before ++ after) = some (before, after) := by
  induction before with
  | nil => exact splitAtByte?_zero after
  | cons c before ih =>
    rw [List.cons_append, byteCount_cons, splitAtByte?_cons (Nat.le_add_right _ _),
      Nat.add_sub_cancel_left, ih]
    rfl

/-- The parts that a text is divided into make it up, and the first has so many bytes. -/
theorem splitAtByte?_eq_some_iff {before after : List Char} :
    splitAtByte? byte text = some (before, after) ↔
      text = before ++ after ∧ byteCount before = byte := by
  constructor
  · intro h
    induction byte, text using splitAtByte?.induct generalizing before with
    | case1 text =>
      rw [splitAtByte?_zero] at h
      obtain ⟨rfl, rfl⟩ := Prod.mk.inj (Option.some.inj h)
      exact ⟨rfl, rfl⟩
    | case2 byte => cases h
    | case3 byte c rest hlt =>
      rw [splitAtByte?, if_pos hlt] at h
      cases h
    | case4 byte c rest hfits ih =>
      rw [splitAtByte?_cons (Nat.not_lt.mp hfits)] at h
      obtain ⟨⟨first, second⟩, hsplit, heq⟩ := Option.map_eq_some_iff.mp h
      obtain ⟨rfl, rfl⟩ := Prod.mk.inj heq
      obtain ⟨rfl, hcount⟩ := ih hsplit
      refine ⟨rfl, ?_⟩
      rw [byteCount_cons, hcount, Nat.add_sub_cancel' (Nat.not_lt.mp hfits)]
  · rintro ⟨rfl, rfl⟩
    exact splitAtByte?_append before after

/-- At a boundary a text consists of two parts. -/
theorem isBoundary_iff :
    isBoundary text byte ↔ ∃ before after, text = before ++ after ∧ byteCount before = byte := by
  simp only [isBoundary, Option.isSome_iff_exists, Prod.exists, splitAtByte?_eq_some_iff]

/-- A text begins at a boundary. -/
theorem isBoundary_zero (text : List Char) : isBoundary text 0 :=
  isBoundary_iff.mpr ⟨[], text, rfl, rfl⟩

/-- A text ends at a boundary. -/
theorem isBoundary_byteCount (text : List Char) : isBoundary text (byteCount text) :=
  isBoundary_iff.mpr ⟨text, [], (List.append_nil text).symm, rfl⟩

/-- No boundary is past the end of the text. -/
theorem le_of_isBoundary (h : isBoundary text byte) : byte ≤ byteCount text := by
  obtain ⟨before, after, rfl, rfl⟩ := isBoundary_iff.mp h
  rw [byteCount_append]
  exact Nat.le_add_right _ _

/-! ## Slices -/

variable {start stop : Nat}

/-- A slice is a part of the text, with the bytes before it and those up to its end. -/
theorem slice?_eq_some_iff {part : List Char} :
    slice? text start stop = some part ↔
      ∃ before after, text = before ++ part ++ after ∧ byteCount before = start ∧
        byteCount before + byteCount part = stop := by
  simp only [slice?, Option.bind_eq_bind, Option.bind_eq_some_iff, Prod.exists,
    splitAtByte?_eq_some_iff, Option.pure_def, Option.some.injEq]
  constructor
  · rintro ⟨_, after, ⟨rfl, rfl⟩, before, _, ⟨rfl, rfl⟩, rfl⟩
    exact ⟨before, after, rfl, rfl, (byteCount_append before _).symm⟩
  · rintro ⟨before, after, rfl, rfl, rfl⟩
    exact ⟨before ++ part, after, ⟨rfl, byteCount_append before part⟩,
      before, part, ⟨rfl, rfl⟩, rfl⟩

/-- Of two beginnings of a text, the one that has no more bytes is the beginning of the other. -/
theorem exists_part_of_byteCount_le {first rest second after : List Char}
    (h : first ++ rest = second ++ after) (hle : byteCount first ≤ byteCount second) :
    ∃ part, second = first ++ part ∧ rest = part ++ after := by
  rcases List.append_eq_append_iff.mp h with hpart | ⟨back, rfl, rfl⟩
  · exact hpart
  · cases back with
    | nil => exact ⟨[], by rw [List.append_nil, List.append_nil], rfl⟩
    | cons c back =>
      have hmore := byteCount_pos (List.cons_ne_nil c back)
      rw [byteCount_append] at hle
      omega

/-- A slice is refused just if it ends before it begins, or either end is no boundary. -/
theorem isSome_slice?_iff : (slice? text start stop).isSome ↔
    start ≤ stop ∧ isBoundary text start ∧ isBoundary text stop := by
  rw [Option.isSome_iff_exists]
  constructor
  · rintro ⟨part, hpart⟩
    obtain ⟨before, after, rfl, rfl, rfl⟩ := slice?_eq_some_iff.mp hpart
    refine ⟨Nat.le_add_right _ _, isBoundary_iff.mpr ⟨before, part ++ after, ?_, rfl⟩,
      isBoundary_iff.mpr ⟨before ++ part, after, rfl, byteCount_append before part⟩⟩
    exact List.append_assoc before part after
  · rintro ⟨hle, hstart, hstop⟩
    obtain ⟨before, rest, rfl, rfl⟩ := isBoundary_iff.mp hstart
    obtain ⟨upTo, after, heq, rfl⟩ := isBoundary_iff.mp hstop
    obtain ⟨part, rfl, rfl⟩ := exists_part_of_byteCount_le heq hle
    exact ⟨part, slice?_eq_some_iff.mpr ⟨before, after, heq, rfl, (byteCount_append _ _).symm⟩⟩

example : slice? ['a', 'é', 'b'] 1 3 = some ['é'] ∧ slice? ['a', 'é', 'b'] 1 2 = none := by decide

/-! ## The nearest boundaries -/

/-- Going backward never goes forward. -/
theorem boundaryBefore_le (text : List Char) (byte : Nat) : boundaryBefore text byte ≤ byte := by
  induction byte with
  | zero => exact Nat.le_refl 0
  | succ byte ih =>
    rw [boundaryBefore]
    split
    · exact Nat.le_refl _
    · exact Nat.le_succ_of_le ih

/-- Going backward ends at a boundary, if not before then at the start of the text. -/
theorem isBoundary_boundaryBefore (text : List Char) (byte : Nat) :
    isBoundary text (boundaryBefore text byte) := by
  induction byte with
  | zero => exact isBoundary_zero text
  | succ byte ih =>
    rw [boundaryBefore]
    split
    · next h => exact h
    · exact ih

/-- Going forward never goes backward. -/
theorem le_boundaryAfter (text : List Char) (byte : Nat) : byte ≤ boundaryAfter text byte := by
  induction byte using boundaryAfter.induct text with
  | case1 byte h ih =>
    rw [boundaryAfter, dif_pos h]
    exact Nat.le_of_succ_le ih
  | case2 byte h =>
    have hstay : boundaryAfter text byte = byte := by rw [boundaryAfter, dif_neg h]
    exact Nat.le_of_eq hstay.symm

/-- Going forward ends at a boundary, if not before then at the end of the text. -/
theorem isBoundary_boundaryAfter (h : byte ≤ byteCount text) :
    isBoundary text (boundaryAfter text byte) := by
  induction byte using boundaryAfter.induct text with
  | case1 byte hmore ih =>
    rw [boundaryAfter, dif_pos hmore]
    exact ih hmore.1
  | case2 byte hdone =>
    rw [boundaryAfter, dif_neg hdone]
    rcases Nat.lt_or_eq_of_le h with hlt | rfl
    · exact Decidable.not_not.mp fun hno => hdone ⟨hlt, hno⟩
    · exact isBoundary_byteCount text

example : boundaryBefore ['a', 'é', 'b'] 2 = 1 ∧ boundaryAfter ['a', 'é', 'b'] 2 = 3 := by
  decide +kernel

end Slice

end VisualNovel
