import VisualNovel.Toml.Value

/-!
# TOML documents

A document is a sequence of lines, each an entry or a header. `Toml.parse?` gives the entries of a
document, or `none` if it is not valid TOML 1.0.
-/

namespace VisualNovel.Toml

/-- One line of a document that says something. -/
inductive Line where
  | entry (path : List String) (key : String) (value : Item)
  | table (path : List String) (key : String)
  | element (path : List String) (key : String)

/-- The line at the front of a text, which does not begin with a blank, a comment or a line
break. -/
def line (text : List Char) : Reading Line text.length :=
  match text with
  | '[' :: '[' :: rest =>
    match key rest with
    | some ((path, last), ⟨']' :: ']' :: after, h⟩) =>
      (endLine? after).map fun ⟨after, hafter⟩ =>
        (.element path last, ⟨after, by simp only [List.length_cons] at *; omega⟩)
    | _ => none
  | '[' :: rest =>
    match key rest with
    | some ((path, last), ⟨']' :: after, h⟩) =>
      (endLine? after).map fun ⟨after, hafter⟩ =>
        (.table path last, ⟨after, by simp only [List.length_cons] at *; omega⟩)
    | _ => none
  | text =>
    match key text with
    | some ((path, last), ⟨'=' :: rest, h⟩) =>
      match value maxDepth (skipBlanks rest) with
      | some (item, ⟨after, hvalue⟩) =>
        (endLine? after).map fun ⟨after, hafter⟩ =>
          (.entry path last item, ⟨after, by
            have := length_skipBlanks_le rest
            simp only [List.length_cons] at *
            omega⟩)
      | none => none
    | _ => none

/-- A document being built: its entries, and the path of the header under which lines stand. -/
structure Draft where
  entries : Entries
  header : List String

/-- A document with one more line. -/
def Draft.add (draft : Draft) : Line → Option Draft
  | .entry path key value =>
    (draft.entries.update draft.header (Entries.insert path key value)).map (⟨·, draft.header⟩)
  | .table path key => (draft.entries.openTable path key).map (⟨·, path ++ [key]⟩)
  | .element path key => (draft.entries.openElement path key).map (⟨·, path ++ [key]⟩)

/-- The document of a draft and the lines of a text. -/
def document (draft : Draft) (text : List Char) : Option Entries :=
  match h : skipLines text with
  | [] => some draft.entries
  | c :: rest =>
    match line (c :: rest) with
    | none => none
    | some (line, ⟨after, hafter⟩) =>
      match draft.add line with
      | none => none
      | some draft =>
        have : after.length < text.length :=
          Nat.lt_of_lt_of_le hafter (h ▸ length_skipLines_le text)
        document draft after
termination_by text.length

/-- The entries of a document; a byte order mark in front does not count. -/
def parse? (text : List Char) : Option Entries :=
  document ⟨[], []⟩ (match text with
    | '\ufeff' :: rest => rest
    | text => text)

end VisualNovel.Toml
