import VisualNovel.Json.Reader
import VisualNovel.Manuscript.Basic

/-!
# Reading manuscripts

A manuscript is read from a JSON tree by the types of its fields alone. A record is an object, where
unknown keys are ignored and a known key may not be repeated, or an array of its fields in their
written order. `null` stands for an absent optional field.

`Manuscript.ofJson?` reads a value; `Manuscript.ofText?` reads a text, in which the values of
unknown keys only have to be well formed.
-/

namespace VisualNovel.Manuscript

/-- A JSON tree in which what cannot be understood is `none`. -/
abbrev Source := Json.Tree (Option Json.Number) (Option String)

/-- How a type is read from a tree. -/
abbrev Reader (α : Type) := Source → Option α

namespace Reader

variable {α : Type}

/-- A string. -/
def string : Reader String
  | .string s => s
  | _ => none

/-- A boolean. -/
def bool : Reader Bool
  | .bool b => some b
  | _ => none

/-- An integer of 32 bits without a sign. -/
def whole : Reader UInt32
  | .number (some (.integer n)) => n.toNat?.bind toUInt32?
  | _ => none

/-- Any number, rounded to single precision; beyond it, an infinity. -/
def single : Reader Single
  | .number (some (.integer n)) => some (.ofInt n)
  | .number (some (.real x)) => some x.narrow
  | _ => none

/-- An array of two elements. -/
def pair (element : Reader α) : Reader (α × α)
  | .array [a, b] => do return (← element a, ← element b)
  | _ => none

/-- An array. -/
def list (element : Reader α) : Reader (List α)
  | .array elements => elements.mapM element
  | _ => none

/-- `null`, or a value. -/
def optional (value : Reader α) : Reader (Option α)
  | .null => some none
  | tree => (value tree).map some

end Reader

/-! ## Records -/

namespace Record

/-- The value of a key among entries, if it is there; `none` if it is there several times. -/
def valueOf? (key : String) (entries : List (Option String × Source)) : Option (Option Source) :=
  match entries.filter (·.1 = some key) with
  | [] => some none
  | [(_, value)] => some (some value)
  | _ => none

/-- The values of the named fields of a record, in the order of the names. -/
def fields? (names : List String) : Source → Option (List (Option Source))
  | .object entries =>
    if entries.all (·.1.isSome) then names.mapM (valueOf? · entries) else none
  | .array elements =>
    if elements.length ≤ names.length then
      some (elements.map some ++ List.replicate (names.length - elements.length) none)
    else none
  | _ => none

/-- A field that has to be there. -/
def required {α : Type} (reader : Reader α) (value : Option Source) : Option α :=
  value.bind reader

/-- A field with a value to take if it is not there. -/
def defaulted {α : Type} (reader : Reader α) (default : α) : Option Source → Option α
  | none => some default
  | some value => reader value

end Record

open Record

/-- A written actor. -/
def readActor : Reader Actor := fun tree => do
  match ← fields? ["name", "sheet", "sheetSize"] tree with
  | [name, sheet, sheetSize] =>
    return ⟨← required .string name, ← required .string sheet,
      ← required (.pair .whole) sheetSize⟩
  | _ => none

/-- A written sprite command. -/
def readSprite : Reader Sprite := fun tree => do
  match ← fields? ["id", "hide", "actor", "portrait", "pos", "size"] tree with
  | [id, hide, actor, portrait, pos, size] =>
    return ⟨← required .string id, ← defaulted .bool false hide,
      ← defaulted (.optional .string) none actor,
      ← defaulted (.optional (.pair .whole)) none portrait,
      ← defaulted (.optional (.pair .single)) none pos,
      ← defaulted (.optional (.pair .single)) none size⟩
  | _ => none

/-- A written speak command. -/
def readSpeak : Reader Speak := fun tree => do
  match ← fields? ["actor", "text", "portrait"] tree with
  | [actor, text, portrait] =>
    return ⟨← required .string actor, ← defaulted .string "" text,
      ← defaulted (.optional (.pair .whole)) none portrait⟩
  | _ => none

/-- The time of a written wait command. -/
def readWait : Reader Single := fun tree => do
  match ← fields? ["time"] tree with
  | [time] => required .single time
  | _ => none

/-- A written background command. -/
def readBackground : Reader Background := fun tree => do
  match ← fields? ["image", "music"] tree with
  | [image, music] =>
    return ⟨← defaulted (.optional .string) none image,
      ← defaulted (.optional .string) none music⟩
  | _ => none

/-- A written command: an object with one key, which is that of a kind. -/
def readCommand : Reader Command
  | .object [(some key, body)] =>
    match CommandKind.all.find? (·.key = key) with
    | some .sprite => .sprite <$> readSprite body
    | some .speak => .speak <$> readSpeak body
    | some .wait => .wait <$> readWait body
    | some .background => .background <$> readBackground body
    | none => none
  | _ => none

/-- An entry of a cast. -/
def readCastEntry (entry : Option String × Source) : Option (String × Actor) := do
  return (← entry.1, ← readActor entry.2)

/-- A cast: every entry has to be an actor, also one that a later entry replaces. -/
def readCast : Reader (List (String × Actor))
  | .object entries => (entries.mapM readCastEntry).map Json.orderEntries
  | _ => none

/-- The manuscript in a tree. -/
def read : Reader Manuscript := fun tree => do
  match ← fields? ["actors", "commands"] tree with
  | [actors, commands] =>
    return ⟨← required readCast actors, ← required (.list readCommand) commands⟩
  | _ => none

/-- The manuscript in a JSON value. -/
def ofJson? (value : Json) : Option Manuscript := read (value.map some some)

/-- The manuscript in a JSON text. -/
def ofText? (text : String) : Option Manuscript := (Json.scan? text.toList).bind read

end VisualNovel.Manuscript
