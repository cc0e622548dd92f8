import VisualNovel.Json.Basic

/-!
# Printing JSON

A tree is printed in one of two layouts: `Layout.compact` writes no blanks, `Layout.pretty` puts
each element and entry on a line of its own, two spaces deeper than its container. Empty containers
have no inside in either. Entries are printed in the order of their list.
-/

namespace VisualNovel.Json

/-- What stands between the parts of a container. -/
structure Layout where
  /-- What comes before an element at a depth, and before the closing bracket. -/
  lineBreak : Nat → List Char
  /-- What separates a key from its value. -/
  colon : List Char

/-- No blanks at all. -/
def Layout.compact : Layout := ⟨fun _ => [], [':']⟩

/-- One line per element, indented by two spaces for each level. -/
def Layout.pretty : Layout := ⟨fun depth => '\n' :: List.replicate (2 * depth) ' ', [':', ' ']⟩

/-- One character inside a string. -/
def escapeChar (c : Char) : List Char :=
  if c = '"' then ['\\', '"']
  else if c = '\\' then ['\\', '\\']
  else if c = '\x08' then ['\\', 'b']
  else if c = '\x0c' then ['\\', 'f']
  else if c = '\n' then ['\\', 'n']
  else if c = '\r' then ['\\', 'r']
  else if c = '\t' then ['\\', 't']
  else if c.toNat < 32 then
    ['\\', 'u', '0', '0', (c.toNat / 16).digitChar, (c.toNat % 16).digitChar]
  else [c]

/-- A string in quotes. -/
def quote (s : String) : List Char :=
  '"' :: s.toList.flatMap escapeChar ++ ['"']

namespace Tree

variable {ν : Type}

mutual

/-- A tree at a depth, its numbers written by `number`. -/
def render (number : ν → String) (layout : Layout) (depth : Nat) : Tree ν String → List Char
  | null => ['n', 'u', 'l', 'l']
  | bool true => ['t', 'r', 'u', 'e']
  | bool false => ['f', 'a', 'l', 's', 'e']
  | .number n => (number n).toList
  | string s => quote s
  | array [] => ['[', ']']
  | array (element :: rest) =>
    '[' :: layout.lineBreak (depth + 1) ++ element.render number layout (depth + 1)
      ++ renderElements number layout depth rest
  | object [] => ['{', '}']
  | object ((key, value) :: rest) =>
    '{' :: layout.lineBreak (depth + 1) ++ quote key ++ layout.colon
      ++ value.render number layout (depth + 1) ++ renderEntries number layout depth rest

/-- The elements after the first, and the closing bracket. -/
def renderElements (number : ν → String) (layout : Layout) (depth : Nat) :
    List (Tree ν String) → List Char
  | [] => layout.lineBreak depth ++ [']']
  | element :: rest =>
    ',' :: layout.lineBreak (depth + 1) ++ element.render number layout (depth + 1)
      ++ renderElements number layout depth rest

/-- The entries after the first, and the closing brace. -/
def renderEntries (number : ν → String) (layout : Layout) (depth : Nat) :
    List (String × Tree ν String) → List Char
  | [] => layout.lineBreak depth ++ ['}']
  | (key, value) :: rest =>
    ',' :: layout.lineBreak (depth + 1) ++ quote key ++ layout.colon
      ++ value.render number layout (depth + 1) ++ renderEntries number layout depth rest

end

/-- A tree in a layout, its numbers written by `number`. -/
def print (number : ν → String) (layout : Layout) (tree : Tree ν String) : String :=
  String.ofList (tree.render number layout 0)

end Tree

/-- A value without blanks. -/
def compact (value : Json) : String := value.print Number.text .compact

end VisualNovel.Json
