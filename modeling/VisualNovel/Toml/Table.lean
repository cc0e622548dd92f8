import VisualNovel.Binary.Arithmetic

/-!
# TOML tables

A TOML document is a table of items that is built up by its key-value lines and headers. Tables come
into being in several ways, and this decides what may still be added to them: a table with a header
of its own is complete under that header, one that a dotted key has made grows by dotted keys only,
and one that is only on the way of another header may still get a header of its own. Inline tables
and arrays of values cannot be added to.

`insert` adds a value under a dotted key, `openTable` and `openElement` are the two kinds of
headers; each is `none` where the document is not valid.
-/

namespace VisualNovel.Toml

/-- How a table came into being. -/
inductive Origin where
  /-- By its own header. -/
  | header
  /-- On the way of the header of another table. -/
  | implied
  /-- By a dotted key. -/
  | dotted
  deriving DecidableEq, Repr

/-- What stands under a key. -/
inductive Item where
  | string (value : String)
  | integer (value : Int)
  | float (value : Double)
  | boolean (value : Bool)
  /-- A date, a time or both. -/
  | moment
  | array (elements : List Item)
  | inlineTable (entries : List (String × Item))
  | table (origin : Origin) (entries : List (String × Item))
  /-- Tables that are appended one by one, each by a header. -/
  | tables (elements : List (List (String × Item)))
  deriving Inhabited

/-- The entries of a table, in the order of their making. -/
abbrev Entries := List (String × Item)

namespace Entries

/-- Sets the item of a key that is there. -/
def replace (key : String) (item : Item) (entries : Entries) : Entries :=
  entries.map fun entry => if entry.1 = key then (key, item) else entry

/-- Puts a value under a dotted key. New tables on the way are dotted, and the last one has to be;
the last of appended tables stands for all. -/
def insert (path : List String) (key : String) (value : Item) (entries : Entries) :
    Option Entries :=
  match path with
  | [] => if (entries.lookup key).isSome then none else some (entries ++ [(key, value)])
  | step :: path =>
    match entries.lookup step with
    | none => do
      let inner ← insert path key value []
      return entries ++ [(step, .table .dotted inner)]
    | some (.table origin inner) =>
      if origin = .header ∨ (origin = .implied ∧ path = []) then none
      else do
        let inner ← insert path key value inner
        return entries.replace step (.table origin inner)
    | some (.tables elements) =>
      match elements.getLast? with
      | none => none
      | some inner =>
        if path = [] then none
        else do
          let inner ← insert path key value inner
          return entries.replace step (.tables (elements.dropLast ++ [inner]))
    | _ => none

/-- Changes the table at the end of a path of headers. Missing tables on the way are implied, and
the last of appended tables stands for all. -/
def update (path : List String) (change : Entries → Option Entries) (entries : Entries) :
    Option Entries :=
  match path with
  | [] => change entries
  | step :: path =>
    match entries.lookup step with
    | none => do
      let inner ← update path change []
      return entries ++ [(step, .table .implied inner)]
    | some (.table origin inner) => do
      let inner ← update path change inner
      return entries.replace step (.table origin inner)
    | some (.tables elements) =>
      match elements.getLast? with
      | none => none
      | some inner => do
        let inner ← update path change inner
        return entries.replace step (.tables (elements.dropLast ++ [inner]))
    | _ => none

/-- The header of a table: it has none yet. -/
def openTable (path : List String) (key : String) : Entries → Option Entries :=
  update path fun entries =>
    match entries.lookup key with
    | none => some (entries ++ [(key, .table .header [])])
    | some (.table .implied inner) => some (entries.replace key (.table .header inner))
    | _ => none

/-- The header of one more appended table. -/
def openElement (path : List String) (key : String) : Entries → Option Entries :=
  update path fun entries =>
    match entries.lookup key with
    | none => some (entries ++ [(key, .tables [[]])])
    | some (.tables elements) => some (entries.replace key (.tables (elements ++ [[]])))
    | _ => none

end Entries

end VisualNovel.Toml
