import VisualNovel.Toml.Blank
import VisualNovel.Toml.Scalar

/-!
# TOML strings

Strings come in four kinds: in double quotes with escapes or in single quotes without, on one line
or, in triple quotes, on several. A line break right behind opening triple quotes does not count,
and a backslash at the end of a line joins it with the next.
-/

namespace VisualNovel.Toml

/-! ## Escapes -/

/-- The character with a code point given in exactly so many hexadecimal digits. -/
def codePoint? (digits : List Char) : Option Char := do
  let digits ← digits.mapM hexValue?
  let code := Scalar.ofDigits 16 digits
  if code < 0xD800 ∨ (0xDFFF < code ∧ code < 0x110000) then some (.ofNat code) else none

/-- The character of an escape after its backslash. -/
def escape? (text : List Char) : Reading Char text.length :=
  match text with
  | 'b' :: rest => some ('\x08', .tail rest)
  | 't' :: rest => some ('\t', .tail rest)
  | 'n' :: rest => some ('\n', .tail rest)
  | 'f' :: rest => some ('\x0c', .tail rest)
  | 'r' :: rest => some ('\r', .tail rest)
  | '"' :: rest => some ('"', .tail rest)
  | '\\' :: rest => some ('\\', .tail rest)
  | 'u' :: rest =>
    if (rest.take 4).length = 4 then
      (codePoint? (rest.take 4)).map fun c =>
        (c, ⟨rest.drop 4, by simp only [List.length_drop, List.length_cons]; omega⟩)
    else none
  | 'U' :: rest =>
    if (rest.take 8).length = 8 then
      (codePoint? (rest.take 8)).map fun c =>
        (c, ⟨rest.drop 8, by simp only [List.length_drop, List.length_cons]; omega⟩)
    else none
  | _ => none

/-! ## Strings on one line -/

/-- The rest of a string in double quotes on one line, after what is already read, which comes last
first. -/
def basicString (bound : Nat) (read : List Char) (text : List Char) (h : text.length ≤ bound) :
    Reading String bound :=
  match text, h with
  | '"' :: rest, h => some (String.ofList read.reverse, ⟨rest, h⟩)
  | '\\' :: rest, h =>
    match escape? rest with
    | some (c, ⟨after, hafter⟩) =>
      basicString bound (c :: read) after
        (Nat.le_trans (Nat.le_of_lt hafter) (Nat.le_of_lt h))
    | none => none
  | c :: rest, h => if isPlain c then basicString bound (c :: read) rest (Nat.le_of_lt h) else none
  | [], _ => none
termination_by text.length
decreasing_by all_goals simp only [List.length_cons]; omega

/-- The rest of a string in single quotes on one line. -/
def literalString (bound : Nat) (read : List Char) (text : List Char) (h : text.length ≤ bound) :
    Reading String bound :=
  match text, h with
  | '\'' :: rest, h => some (String.ofList read.reverse, ⟨rest, h⟩)
  | c :: rest, h =>
    if isPlain c then literalString bound (c :: read) rest (Nat.le_of_lt h) else none
  | [], _ => none

/-! ## Strings on several lines -/

/-- The end of a string of several lines: three quotes, and up to two more that belong to the
string, which are given back. -/
def closing? (quote : Char) (text : List Char) : Reading (List Char) text.length :=
  match text with
  | a :: b :: c :: rest =>
    if a = quote ∧ b = quote ∧ c = quote then
      match rest with
      | d :: e :: after =>
        if d = quote ∧ e = quote then
          some ([quote, quote], ⟨after, by simp only [List.length_cons]; omega⟩)
        else if d = quote then some ([quote], ⟨e :: after, by simp only [List.length_cons]; omega⟩)
        else some ([], ⟨d :: e :: after, by simp only [List.length_cons]; omega⟩)
      | [d] =>
        if d = quote then some ([quote], ⟨[], by simp⟩)
        else some ([], ⟨[d], by simp only [List.length_cons]; omega⟩)
      | [] => some ([], ⟨[], by simp⟩)
    else none
  | _ => none

/-- What follows a backslash at the end of a line: the next character that is not a blank or a line
break. -/
def skipSplit (text : List Char) : List Char :=
  match h : skipBlanks text with
  | '\n' :: rest =>
    have : rest.length < text.length := length_lt_of_skipBlanks h
    skipSplit rest
  | '\r' :: '\n' :: rest =>
    have : rest.length < text.length := Nat.lt_of_succ_lt (length_lt_of_skipBlanks h)
    skipSplit rest
  | rest => rest
termination_by text.length

theorem length_skipSplit_le (text : List Char) : (skipSplit text).length ≤ text.length := by
  unfold skipSplit
  split
  · rename_i rest h
    have := length_lt_of_skipBlanks h
    exact Nat.le_trans (length_skipSplit_le rest) (Nat.le_of_lt this)
  · rename_i rest h
    have : rest.length < text.length := Nat.lt_of_succ_lt (length_lt_of_skipBlanks h)
    exact Nat.le_trans (length_skipSplit_le rest) (Nat.le_of_lt this)
  · exact length_skipBlanks_le text
termination_by text.length

/-- Whether a backslash is at the end of its line. -/
def splitsLine (text : List Char) : Bool :=
  match skipBlanks text with
  | '\n' :: _ => true
  | '\r' :: '\n' :: _ => true
  | _ => false

/-- The rest of a string of several lines in triple quotes, with escapes or without. -/
def longString (quote : Char) (escapes : Bool) (bound : Nat) (read : List Char)
    (text : List Char) (h : text.length ≤ bound) : Reading String bound :=
  match closing? quote text with
  | some (quotes, ⟨rest, hrest⟩) =>
    some (String.ofList (quotes ++ read).reverse, ⟨rest, Nat.lt_of_lt_of_le hrest h⟩)
  | none =>
    match lineBreak? text with
    | some ⟨rest, hrest⟩ =>
      longString quote escapes bound ('\n' :: read) rest (Nat.le_trans (Nat.le_of_lt hrest) h)
    | none =>
      match text, h with
      | [], _ => none
      | c :: rest, h =>
        if escapes && c = '\\' then
          if splitsLine rest then
            have := length_skipSplit_le rest
            longString quote escapes bound read (skipSplit rest)
              (Nat.le_trans this (Nat.le_of_lt h))
          else
            match escape? rest with
            | some (c, ⟨after, hafter⟩) =>
              longString quote escapes bound (c :: read) after
                (Nat.le_trans (Nat.le_of_lt hafter) (Nat.le_of_lt h))
            | none => none
        else if isPlain c then
          longString quote escapes bound (c :: read) rest (Nat.le_of_lt h)
        else none
termination_by text.length
decreasing_by
  · exact hrest
  · exact Nat.lt_succ_of_le this
  · exact Nat.lt_succ_of_lt hafter
  · exact Nat.lt_succ_self _

/-- A string of several lines after its opening quotes, where a line break right behind them does
not count. -/
def longBody (quote : Char) (escapes : Bool) (text : List Char) : Reading String text.length :=
  match lineBreak? text with
  | some ⟨rest, h⟩ => longString quote escapes text.length [] rest (Nat.le_of_lt h)
  | none => longString quote escapes text.length [] text (length_le_self text)

/-- A string of any of the four kinds. -/
def string? (text : List Char) : Reading String text.length :=
  match text with
  | '"' :: '"' :: '"' :: rest =>
    (longBody '"' true rest).weaken (by simp only [List.length_cons]; omega)
  | '"' :: rest => basicString (rest.length + 1) [] rest (length_le_succ rest)
  | '\'' :: '\'' :: '\'' :: rest =>
    (longBody '\'' false rest).weaken (by simp only [List.length_cons]; omega)
  | '\'' :: rest => literalString (rest.length + 1) [] rest (length_le_succ rest)
  | _ => none

end VisualNovel.Toml
