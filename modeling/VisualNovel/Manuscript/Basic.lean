import VisualNovel.Json.Printer
import VisualNovel.Script.Command

/-!
# Manuscripts

A manuscript is a script as it is written down: actors and assets appear by name, portraits by
column and row. It is typed, but nothing in it has to resolve.

`Manuscript.outline` is its JSON tree with the fields in their written order and numbers as they
are. From it come the texts `Manuscript.compact` and `Manuscript.pretty`, and the JSON value
`Manuscript.toJson`, which has ordered keys and numbers in double precision.
-/

namespace VisualNovel

namespace Manuscript

/-- A written actor; its id is the key it stands under. -/
structure Actor where
  name : String
  sheet : String
  sheetSize : UInt32 × UInt32
  deriving DecidableEq, Repr

/-- A written sprite command. -/
structure Sprite where
  id : String
  hide : Bool
  actor : Option String
  portrait : Option (UInt32 × UInt32)
  pos : Option (Single × Single)
  size : Option (Single × Single)
  deriving DecidableEq, Repr

/-- A written speak command. -/
structure Speak where
  actor : String
  text : String
  portrait : Option (UInt32 × UInt32)
  deriving DecidableEq, Repr

/-- A written background command: an empty name clears. -/
structure Background where
  image : Option String
  music : Option String
  deriving DecidableEq, Repr

/-- A written command. -/
inductive Command where
  | sprite (command : Sprite)
  | speak (command : Speak)
  | wait (time : Single)
  | background (command : Background)
  deriving DecidableEq, Repr

/-- A number of a manuscript. -/
inductive Figure where
  | whole (value : UInt32)
  | single (value : Single)
  deriving DecidableEq, Repr

namespace Figure

/-- Single precision is written with as few digits as tell it from other single-precision
numbers. -/
def text : Figure → String
  | whole n => toString n
  | single x => x.text .jsonSingle

/-- The number in a JSON value. -/
def toNumber : Figure → Json.Number
  | whole n => .integer n.toNat
  | single x => .real x.widen

end Figure

end Manuscript

/-- A script as it is written down: the cast ordered by id, and the commands. -/
structure Manuscript where
  actors : List (String × Manuscript.Actor)
  commands : List Manuscript.Command
  deriving DecidableEq, Repr

namespace Manuscript

/-! ## Outline -/

/-- The JSON tree of a part of a manuscript. -/
abbrev Outline := Json.Tree Figure String

/-- A number that is not finite has no JSON form. -/
def outlineSingle (x : Single) : Outline := if x.isFinite then .number (.single x) else .null

/-- A pair of whole numbers. -/
def outlineCell (cell : UInt32 × UInt32) : Outline :=
  .array [.number (.whole cell.1), .number (.whole cell.2)]

/-- A position or size. -/
def outlineVector (v : Single × Single) : Outline :=
  .array [outlineSingle v.1, outlineSingle v.2]

/-- A field that is written only if there is something to write. -/
def optionalField {α : Type} (key : String) (outline : α → Outline) :
    Option α → List (String × Outline)
  | none => []
  | some value => [(key, outline value)]

/-- The fields of an actor. -/
def Actor.fields (actor : Actor) : List (String × Outline) :=
  [("name", .string actor.name), ("sheet", .string actor.sheet),
    ("sheetSize", outlineCell actor.sheetSize)]

/-- The fields of a sprite command; `hide` is written only where it is true. -/
def Sprite.fields (command : Sprite) : List (String × Outline) :=
  [("id", .string command.id)]
    ++ (if command.hide then [("hide", .bool true)] else [])
    ++ optionalField "actor" .string command.actor
    ++ optionalField "portrait" outlineCell command.portrait
    ++ optionalField "pos" outlineVector command.pos
    ++ optionalField "size" outlineVector command.size

/-- The fields of a speak command; the text is always written. -/
def Speak.fields (command : Speak) : List (String × Outline) :=
  [("actor", .string command.actor), ("text", .string command.text)]
    ++ optionalField "portrait" outlineCell command.portrait

/-- The fields of a background command. -/
def Background.fields (command : Background) : List (String × Outline) :=
  optionalField "image" .string command.image ++ optionalField "music" .string command.music

/-- The kind of a written command. -/
def Command.kind : Command → CommandKind
  | .sprite _ => .sprite
  | .speak _ => .speak
  | .wait _ => .wait
  | .background _ => .background

/-- The fields of a command. -/
def Command.fields : Command → List (String × Outline)
  | .sprite command => command.fields
  | .speak command => command.fields
  | .wait time => [("time", outlineSingle time)]
  | .background command => command.fields

/-- A command: its fields under one key, that of its kind. -/
def Command.outline (command : Command) : Outline :=
  .object [(command.kind.key, .object command.fields)]

/-- The whole manuscript. -/
def outline (manuscript : Manuscript) : Outline :=
  .object
    [("actors", .object (manuscript.actors.map fun (id, actor) => (id, .object actor.fields))),
      ("commands", .array (manuscript.commands.map Command.outline))]

/-! ## Written forms -/

/-- The text without blanks, fields in their written order. -/
def compact (manuscript : Manuscript) : String := manuscript.outline.print Figure.text .compact

/-- The text with one field or element a line. -/
def pretty (manuscript : Manuscript) : String := manuscript.outline.print Figure.text .pretty

/-- The JSON value. -/
def toJson (manuscript : Manuscript) : Json :=
  (manuscript.outline.map Figure.toNumber id).canonical

end Manuscript

end VisualNovel
