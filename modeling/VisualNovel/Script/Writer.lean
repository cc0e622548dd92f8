import VisualNovel.Manuscript.Basic
import VisualNovel.Script.Basic

/-!
# Writing scripts

A script is written by putting names back in the place of indices and columns and rows in the place
of cell numbers. `Script.toManuscript` gives the manuscript, `Script.toJson` its JSON value and
`Script.toText` its text.
-/

namespace VisualNovel.Script

/-- The error of an index that resolves to nothing. -/
def dangling (kind : ReferenceKind) (index : Nat) (location : Location) : Error :=
  .unresolved kind (.numbered index) location

/-- An actor of the cast, by index. -/
def writtenActor (script : Script) (index : Nat) (location : Location) : Except Error Actor :=
  match script.actorAt? index with
  | some actor => .ok actor
  | none => .error (dangling .actor index location)

/-- The column and row of a cell on an actor's sheet. -/
def writtenPortrait (actor : Option Actor) (portrait : Option UInt32) :
    Option (UInt32 × UInt32) := do
  (← actor).sheetSize.cellCoords (← portrait)

/-- The name of an asset: absent to keep, empty to clear. -/
def writtenAsset (pool : Pool String) (asset : AssetRef) (kind : ReferenceKind)
    (location : Location) : Except Error (Option String) :=
  match asset with
  | .keep => .ok none
  | .clear => .ok (some "")
  | .set index =>
    match pool.nameAt? index with
    | some name => .ok (some name)
    | none => .error (dangling kind index location)

/-- A sprite command as written. -/
def writtenSprite (script : Script) (location : Location) (command : SpriteCommand) :
    Except Error Manuscript.Sprite := do
  let id ← match script.sprites.nameAt? command.sprite with
    | some id => pure id
    | none => throw (dangling .sprite command.sprite location)
  let actor ← match command.actor with
    | some index => some <$> script.writtenActor index location
    | none => pure none
  return ⟨id, command.hide, actor.map (·.id), writtenPortrait actor command.portrait,
    command.pos.map fun v => (v.x, v.y), command.size.map fun v => (v.x, v.y)⟩

/-- A speak command as written. -/
def writtenSpeak (script : Script) (location : Location) (command : SpeakCommand) :
    Except Error Manuscript.Speak := do
  match command.actor with
  | none =>
    throw (.invalid ((location.key CommandKind.speak.key).key "actor") .speakWithoutActor)
  | some index =>
    let actor ← script.writtenActor index location
    return ⟨actor.id, command.text, writtenPortrait (some actor) command.portrait⟩

/-- A background command as written. -/
def writtenBackground (script : Script) (location : Location) (command : BackgroundCommand) :
    Except Error Manuscript.Background := do
  let image ← writtenAsset script.backgrounds command.image .background location
  let music ← writtenAsset script.music command.music .music location
  return ⟨image, music⟩

/-- The command at a place as written. -/
def writtenCommand (script : Script) (place : Nat) (command : Command) :
    Except Error Manuscript.Command :=
  let location := Location.command place
  match command with
  | .sprite command => .sprite <$> script.writtenSprite location command
  | .speak command => .speak <$> script.writtenSpeak location command
  | .wait duration => .ok (.wait duration)
  | .background command => .background <$> script.writtenBackground location command

/-- An actor as written, under its id. -/
def castEntry (actor : Actor) : String × Manuscript.Actor :=
  (actor.id, ⟨actor.name, actor.sheet, (actor.sheetSize.columns, actor.sheetSize.rows)⟩)

/-- The manuscript of a script. -/
def toManuscript (script : Script) : Except Error Manuscript := do
  let commands ← script.commands.zipIdx.mapM fun (command, place) =>
    script.writtenCommand place command
  return ⟨Json.orderEntries (script.actors.map castEntry), commands⟩

/-- The JSON value of a script. -/
def toJson (script : Script) : Except Error Json := script.toManuscript.map Manuscript.toJson

/-- The JSON text of a script. -/
def toText (script : Script) : Except Error String := script.toManuscript.map Manuscript.pretty

end VisualNovel.Script
