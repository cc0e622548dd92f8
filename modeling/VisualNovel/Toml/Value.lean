import VisualNovel.Toml.Quoted

/-!
# TOML keys and values

A key is one or more parts with points between them. A value is a string, a scalar, an array or an
inline table. Arrays and inline tables may be nested 79 deep, and a key has at most 79 parts.
-/

namespace VisualNovel.Toml

/-! ## Keys -/

/-- The characters of keys without quotes. -/
def isBareChar (c : Char) : Bool := c.isAlphanum || c = '_' || c = '-'

/-- One part of a key. -/
def simpleKey (text : List Char) : Reading String text.length :=
  match text with
  | '"' :: rest => basicString (rest.length + 1) [] rest (length_le_succ rest)
  | '\'' :: rest => literalString (rest.length + 1) [] rest (length_le_succ rest)
  | c :: rest =>
    if isBareChar c then
      some (String.ofList (c :: rest.takeWhile isBareChar),
        ⟨rest.dropWhile isBareChar, Nat.lt_succ_of_le (length_dropWhile_le _ rest)⟩)
    else none
  | [] => none

/-- The most parts of a key, and the deepest nesting of values. -/
def maxDepth : Nat := 79

/-- The parts of a key from the front of a text on, after those already read, which come last first;
points are between them, and blanks are allowed around them. -/
def keyParts (bound : Nat) (read : List String) (text : List Char) (h : text.length ≤ bound) :
    Reading (List String) bound :=
  have hblanks := length_skipBlanks_le text
  match simpleKey (skipBlanks text) with
  | none => none
  | some (part, ⟨rest, hrest⟩) =>
    match hafter : skipBlanks rest with
    | '.' :: after =>
      have := length_lt_of_skipBlanks hafter
      have hlt : after.length < bound :=
        Nat.lt_trans this (Nat.lt_of_lt_of_le hrest (Nat.le_trans hblanks h))
      keyParts bound (part :: read) after (Nat.le_of_lt hlt)
    | after =>
      have : after.length ≤ rest.length := hafter ▸ length_skipBlanks_le rest
      have hlt : rest.length < bound := Nat.lt_of_lt_of_le hrest (Nat.le_trans hblanks h)
      some ((part :: read).reverse, ⟨after, Nat.lt_of_le_of_lt this hlt⟩)
termination_by text.length

/-- A key: the parts before the last, and the last. -/
def key (text : List Char) : Reading (List String × String) text.length :=
  match keyParts text.length [] text (length_le_self text) with
  | some (parts, rest) =>
    if parts.length ≤ maxDepth then
      parts.getLast?.map fun last => ((parts.dropLast, last), rest)
    else none
  | none => none

/-! ## Values -/

/-- A scalar; a date and a time may be two words. -/
def scalar (text : List Char) : Reading Item text.length :=
  match text with
  | [] => none
  | c :: rest =>
    let word := (c :: rest).takeWhile Scalar.isWordChar
    let after := rest.dropWhile Scalar.isWordChar
    have hafter : after.length < rest.length + 1 :=
      Nat.lt_succ_of_le (length_dropWhile_le _ rest)
    match h : after with
    | ' ' :: d :: more =>
      if Scalar.isDate word && d.isDigit then
        if Scalar.isOffsetTime ((d :: more).takeWhile Scalar.isWordChar) then
          some (.moment, ⟨(d :: more).dropWhile Scalar.isWordChar,
            Nat.lt_of_le_of_lt (length_dropWhile_le _ _) (Nat.lt_of_succ_lt hafter)⟩)
        else none
      else (Scalar.ofWord? word).map fun item => (item, ⟨' ' :: d :: more, h ▸ hafter⟩)
    | after => (Scalar.ofWord? word).map fun item => (item, ⟨after, h ▸ hafter⟩)

mutual

/-- The value at the front of a text, nested at most so deep. -/
def value (depth : Nat) (text : List Char) : Reading Item text.length :=
  match text with
  | '[' :: rest =>
    if depth = 0 then none
    else
      match elements (depth - 1) (rest.length + 1) [] rest (length_le_succ rest) with
      | some (items, rest) => some (.array items, rest)
      | none => none
  | '{' :: rest =>
    if depth = 0 then none
    else
      match h : skipBlanks rest with
      | '}' :: after =>
        some (.inlineTable [], ⟨after, Nat.lt_succ_of_lt (length_lt_of_skipBlanks h)⟩)
      | _ =>
        match inlineEntries (depth - 1) (rest.length + 1) [] rest (length_le_succ rest) with
        | some (entries, rest) => some (.inlineTable entries, rest)
        | none => none
  | '"' :: rest => (string? ('"' :: rest)).map fun (s, rest) => (.string s, rest)
  | '\'' :: rest => (string? ('\'' :: rest)).map fun (s, rest) => (.string s, rest)
  | text => scalar text
termination_by 2 * text.length

/-- The elements of an array from the front of a text on, after those already read, which come last
first. They may be on several lines, with comments, and a comma may follow the last. -/
def elements (depth bound : Nat) (read : List Item) (text : List Char) (h : text.length ≤ bound) :
    Reading (List Item) bound :=
  match hfront : skipLines text with
  | ']' :: after =>
    some (read.reverse, ⟨after, Nat.lt_of_lt_of_le (length_lt_of_skipLines hfront) h⟩)
  | front =>
    have hle : front.length ≤ text.length := hfront ▸ length_skipLines_le text
    match value depth front with
    | none => none
    | some (item, ⟨rest, hrest⟩) =>
      have hlt : rest.length < bound := Nat.lt_of_lt_of_le hrest (Nat.le_trans hle h)
      match hnext : skipLines rest with
      | ',' :: after =>
        have := length_lt_of_skipLines hnext
        elements depth bound (item :: read) after (Nat.le_of_lt (Nat.lt_trans this hlt))
      | ']' :: after =>
        some ((item :: read).reverse, ⟨after, Nat.lt_trans (length_lt_of_skipLines hnext) hlt⟩)
      | _ => none
termination_by 2 * text.length + 1

/-- The entries of an inline table from the front of a text on, added to those already read. They
are on one line, and no comma follows the last. -/
def inlineEntries (depth bound : Nat) (read : Entries) (text : List Char)
    (h : text.length ≤ bound) : Reading Entries bound :=
  match key text with
  | some ((path, last), ⟨c :: rest, hrest⟩) =>
    if c = '=' then
      have : (skipBlanks rest).length < text.length :=
        Nat.lt_of_le_of_lt (length_skipBlanks_le rest) (Nat.lt_of_succ_lt hrest)
      match value depth (skipBlanks rest) with
      | none => none
      | some (item, ⟨rest', hrest'⟩) =>
        have hlt : rest'.length < bound := Nat.lt_trans hrest' (Nat.lt_of_lt_of_le this h)
        match read.insert path last item with
        | none => none
        | some read =>
          match hnext : skipBlanks rest' with
          | ',' :: after =>
            have := length_lt_of_skipBlanks hnext
            inlineEntries depth bound read after (Nat.le_of_lt (Nat.lt_trans this hlt))
          | '}' :: after =>
            some (read, ⟨after, Nat.lt_trans (length_lt_of_skipBlanks hnext) hlt⟩)
          | _ => none
    else none
  | _ => none
termination_by 2 * text.length + 1

end

end VisualNovel.Toml
