import VisualNovel.Json.Leaf

/-!
# Reading JSON

A recursive descent over the characters of a text. Each step consumes something, so the length of
what is left bounds the recursion. Containers may be nested to a given depth.

* `Json.parse` gives the value of a text, or the first fault in it.
* `Json.scan?` gives the tree of a text as written: entries in their order with all repetitions, and
  leaves checked for their form only.
-/

namespace VisualNovel.Json

variable {ν σ : Type}

/-- The rest of a word after some of its letters; a wrong character is the fault. -/
def restOfWord (letters : List Char) (text : List Char) :
    Except Fault { rest : List Char // rest.length ≤ text.length } :=
  match letters, text with
  | [], text => .ok ⟨text, Nat.le_refl _⟩
  | _ :: _, [] => .error (.here .endInValue [])
  | letter :: letters, c :: text =>
    if letter = c then
      (restOfWord letters text).map fun ⟨rest, h⟩ => ⟨rest, Nat.le_succ_of_le h⟩
    else .error (.here .expectedWord (c :: text))

/-- A word after its first letter, standing for a tree. -/
def word (letters : List Char) (tree : Tree ν σ) (text : List Char) :
    Reading (Tree ν σ) (text.length + 1) :=
  (restOfWord letters text).map fun ⟨rest, h⟩ => (tree, ⟨rest, Nat.lt_succ_of_le h⟩)

mutual

/-- The tree at the front of a text, which does not begin with a blank. -/
def readTree (leaves : Leaves ν σ) (depth : Nat) (text : List Char) :
    Reading (Tree ν σ) text.length :=
  match text with
  | [] => .error (.here .endInValue [])
  | 'n' :: rest => word ['u', 'l', 'l'] .null rest
  | 't' :: rest => word ['r', 'u', 'e'] (.bool true) rest
  | 'f' :: rest => word ['a', 'l', 's', 'e'] (.bool false) rest
  | '"' :: rest =>
    (leaves.string rest).weaken (Nat.le_succ _) |>.map fun (s, rest) => (.string s, rest)
  | '[' :: rest =>
    if depth = 0 then .error (.here .nestedTooDeep ('[' :: rest))
    else
      match h : skipBlanks rest with
      | [] => .error (.here .endInArray [])
      | ']' :: after => .ok (.array [], ⟨after, Nat.lt_succ_of_lt (length_lt_of_skipBlanks h)⟩)
      | c :: after =>
        have hlt : after.length < rest.length := length_lt_of_skipBlanks h
        (readElements leaves (depth - 1) (rest.length + 1) [] (c :: after)
          (Nat.le_of_lt (Nat.succ_lt_succ hlt))).map
          fun (elements, rest) => (.array elements, rest)
  | '{' :: rest =>
    if depth = 0 then .error (.here .nestedTooDeep ('{' :: rest))
    else
      match h : skipBlanks rest with
      | [] => .error (.here .endInObject [])
      | '}' :: after => .ok (.object [], ⟨after, Nat.lt_succ_of_lt (length_lt_of_skipBlanks h)⟩)
      | '"' :: after =>
        have hlt : after.length < rest.length := length_lt_of_skipBlanks h
        (readEntries leaves (depth - 1) (rest.length + 1) [] after
          (Nat.le_of_lt (Nat.lt_succ_of_lt hlt))).map
          fun (entries, rest) => (.object entries, rest)
      | c :: after => .error (.here .expectedKey (c :: after))
  | c :: rest =>
    if c = '-' ∨ c.isDigit then
      (leaves.number (c :: rest)).map fun (n, rest) => (.number n, rest)
    else .error (.here .expectedValue (c :: rest))
termination_by 2 * text.length

/-- The elements of an array from the front of a text on, after those already read, which come last
first. -/
def readElements (leaves : Leaves ν σ) (depth bound : Nat) (read : List (Tree ν σ))
    (text : List Char) (hbound : text.length ≤ bound) : Reading (List (Tree ν σ)) bound :=
  match readTree leaves depth text with
  | .error fault => .error fault
  | .ok (element, ⟨rest, hrest⟩) =>
    match h : skipBlanks rest with
    | [] => .error (.here .endInArray [])
    | ']' :: after =>
      have := length_lt_of_skipBlanks h
      .ok ((element :: read).reverse, ⟨after, by omega⟩)
    | ',' :: after =>
      have := length_lt_of_skipBlanks h
      match hafter : skipBlanks after with
      | ']' :: after => .error (.here .trailingComma (']' :: after))
      | next =>
        have : next.length ≤ after.length := hafter ▸ length_skipBlanks_le after
        readElements leaves depth bound (element :: read) next (by omega)
    | c :: after => .error (.here .expectedCommaOrBracket (c :: after))
termination_by 2 * text.length + 1

/-- The entries of an object from the front of a text on, which is after the opening quote of a key,
after those already read, which come last first. -/
def readEntries (leaves : Leaves ν σ) (depth bound : Nat) (read : List (σ × Tree ν σ))
    (text : List Char) (hbound : text.length ≤ bound) : Reading (List (σ × Tree ν σ)) bound :=
  match leaves.string text with
  | .error fault => .error fault
  | .ok (key, ⟨rest, hrest⟩) =>
    match hcolon : skipBlanks rest with
    | ':' :: after =>
      have := length_lt_of_skipBlanks hcolon
      have := length_skipBlanks_le after
      match readTree leaves depth (skipBlanks after) with
      | .error fault => .error fault
      | .ok (value, ⟨rest, hrest⟩) =>
        match h : skipBlanks rest with
        | [] => .error (.here .endInObject [])
        | '}' :: after =>
          have := length_lt_of_skipBlanks h
          .ok (((key, value) :: read).reverse, ⟨after, by omega⟩)
        | ',' :: after =>
          have := length_lt_of_skipBlanks h
          match hafter : skipBlanks after with
          | '"' :: next =>
            have := length_lt_of_skipBlanks hafter
            readEntries leaves depth bound ((key, value) :: read) next (by omega)
          | '}' :: rest => .error (.here .trailingComma ('}' :: rest))
          | [] => .error (.here .endInValue [])
          | c :: rest => .error (.here .expectedKey (c :: rest))
        | c :: after => .error (.here .expectedCommaOrBrace (c :: after))
    | [] => .error (.here .endInObject [])
    | c :: after => .error (.here .expectedColon (c :: after))
termination_by 2 * text.length + 1

end

/-- The tree of a whole text, blanks around it allowed. -/
def readText (leaves : Leaves ν σ) (depth : Nat) (text : List Char) : Except Fault (Tree ν σ) := do
  let (tree, rest) ← readTree leaves depth (skipBlanks text)
  match skipBlanks rest.1 with
  | [] => return tree
  | rest => throw (.here .trailingCharacters rest)

/-- How deep containers may be nested. -/
def maxDepth : Nat := 127

/-- The value of a text. -/
def parse (text : List Char) : Except Fault Json :=
  (readText .strict maxDepth text).map Tree.canonical

/-- The tree of a text as written. No text is nested deeper than it is long, so the depth is not
bounded. -/
def scan? (text : List Char) : Option (Tree (Option Number) (Option String)) :=
  (readText .tolerant text.length text).toOption

end VisualNovel.Json
