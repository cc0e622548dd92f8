/-!
# Texts

A text is a list of characters where it is taken apart, and a string elsewhere. Lengths that answers
show are in UTF-8 bytes.
-/

namespace VisualNovel

/-- The length of a text in UTF-8 bytes. -/
def byteCount (text : List Char) : Nat :=
  text.foldl (fun count c => count + c.utf8Size) 0

/-- An empty text has no bytes. -/
theorem byteCount_nil : byteCount [] = 0 := rfl

/-- The bytes of a text are those of its parts. -/
theorem byteCount_append (text more : List Char) :
    byteCount (text ++ more) = byteCount text + byteCount more := by
  have hfrom (count : Nat) (rest : List Char) :
      rest.foldl (fun count c => count + c.utf8Size) count = count + byteCount rest := by
    induction rest generalizing count with
    | nil => rfl
    | cons c rest ih =>
      rw [byteCount, List.foldl_cons, List.foldl_cons, ih, ih (0 + c.utf8Size)]
      omega
  rw [byteCount, List.foldl_append, hfrom]
  rfl

/-- The bytes of the first character come first. -/
theorem byteCount_cons (c : Char) (text : List Char) :
    byteCount (c :: text) = c.utf8Size + byteCount text := by
  rw [← List.singleton_append, byteCount_append]
  exact congrArg (· + byteCount text) (Nat.zero_add c.utf8Size)

/-- A text that is not empty has bytes. -/
theorem byteCount_pos {text : List Char} (h : text ≠ []) : 0 < byteCount text := by
  obtain ⟨c, rest, rfl⟩ := List.exists_cons_of_ne_nil h
  rw [byteCount_cons]
  exact Nat.add_pos_left c.utf8Size_pos _

/-! ## What is left of a text

A reading says in its type that it leaves less than there was. The bounds that readers start from
have names here, so that a reader cites them and needs no argument of its own.
-/

/-- What is left of a text of which at least one of `length` characters has been read. -/
abbrev Rest (length : Nat) := { rest : List Char // rest.length < length }

/-- A text is no longer than itself. -/
theorem length_le_self (s : List Char) : s.length ≤ s.length := Nat.le_refl _

/-- A text is shorter than one with a character more. -/
theorem length_lt_succ (s : List Char) : s.length < s.length + 1 := Nat.lt_succ_self _

/-- A text is no longer than one with a character more. -/
theorem length_le_succ (s : List Char) : s.length ≤ s.length + 1 := Nat.le_succ _

/-- What follows the first character. -/
def Rest.tail (rest : List Char) : Rest (rest.length + 1) := ⟨rest, length_lt_succ rest⟩

/-- What is left of the end of a text is left of the whole text. -/
def Rest.weaken {m n : Nat} (h : m ≤ n) (rest : Rest m) : Rest n :=
  ⟨rest, Nat.lt_of_lt_of_le rest.2 h⟩

/-- Dropping characters makes no text longer. -/
theorem length_dropWhile_le {α : Type} (p : α → Bool) (s : List α) :
    (s.dropWhile p).length ≤ s.length :=
  (List.dropWhile_sublist p).length_le

/-! ## Digits -/

/-- The value of a decimal digit. -/
def digitValue (c : Char) : Nat := c.toNat - '0'.toNat

/-- The value of a hexadecimal digit. -/
def hexValue? (c : Char) : Option Nat :=
  if '0' ≤ c ∧ c ≤ '9' then some (c.toNat - '0'.toNat)
  else if 'a' ≤ c ∧ c ≤ 'f' then some (c.toNat - 'a'.toNat + 10)
  else if 'A' ≤ c ∧ c ≤ 'F' then some (c.toNat - 'A'.toNat + 10)
  else none

end VisualNovel
