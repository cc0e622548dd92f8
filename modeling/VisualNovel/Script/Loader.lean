import VisualNovel.Json.Reader
import VisualNovel.Limits
import VisualNovel.Script.Basic
import VisualNovel.Script.Section

/-!
# Loading scripts

A script is loaded from a JSON value in four steps: the cast; the sprites that commands mention; the
backgrounds and music they mention; and the commands themselves, whose names are then all known.
Each step goes through all commands before the next begins, and the first error ends the load.

`Script.load` loads a value, `Script.loadText` a JSON text.
-/

namespace VisualNovel.Script

/-! ## The cast -/

/-- One actor of the cast. -/
def loadActor (limits : Limits) (id : String) (value : Json) : Except Error Actor := do
  let location := Location.actor id
  limits.checkId location id
  let fields ← FieldReader.object location value
  let name ← fields.required "name" .string
  let sheet ← fields.required "sheet" .string
  if sheet = "" then throw (.invalid (location.key "sheet") .expectedNonEmptyString)
  let (columns, rows) ← fields.required "sheetSize" (.pair (.whole 1))
  return ⟨id, name, sheet, ⟨columns, rows⟩⟩

/-- A script with one more actor; if the actor is refused, the script is given up. -/
def addCastEntry (limits : Limits) (script : Script) (entry : String × Json) :
    Except Error Script := do
  let actor ← loadActor limits entry.1 entry.2
  let (added, script) := script.addActor actor
  let _ ← added
  return script

/-- The script whose cast is loaded and that has nothing else. -/
def loadCast (limits : Limits) (value : Json) : Except Error Script := do
  let cast ← FieldReader.object .cast value
  limits.checkActors cast.entries.length
  cast.entries.foldlM (addCastEntry limits) .empty

/-! ## Names that commands mention -/

/-- The sprite that a command mentions, if it has a sprite part. -/
def mentionedSprite? (limits : Limits) (place : Nat) (command : Json) :
    Except Error (Option String) := do
  let fields ← FieldReader.object (.command place) command
  match fields.find? CommandKind.sprite.key with
  | none => return none
  | some body =>
    let body ← FieldReader.object (fields.location.key CommandKind.sprite.key) body
    let id ← body.required "id" .string
    limits.checkId (body.location.key "id") id
    return some id

/-- The name in an optional field, if it is there and not empty. -/
def mentionedName? (limits : Limits) (fields : Section) (key : String) :
    Except Error (Option String) := do
  match ← fields.optional key .string with
  | none => return none
  | some name =>
    if name = "" then return none
    limits.checkId (fields.location.key key) name
    return some name

/-- The image and the track that a command mentions, if it has a background part. -/
def mentionedAssets (limits : Limits) (place : Nat) (command : Json) :
    Except Error (Option String × Option String) := do
  let fields ← FieldReader.object (.command place) command
  match fields.find? CommandKind.background.key with
  | none => return (none, none)
  | some body =>
    let body ← FieldReader.object (fields.location.key CommandKind.background.key) body
    let image ← mentionedName? limits body "image"
    let music ← mentionedName? limits body "music"
    return (image, music)

/-! ## Commands -/

/-- The index of the actor that a field names. -/
def resolveActor (script : Script) (fields : Section) (id : String) : Except Error Nat :=
  match script.actorIndex? id with
  | some index => .ok index
  | none => .error (.unresolved .actor (.named id) (fields.location.key "actor"))

/-- The number of the cell that `portrait` gives by column and row. -/
def resolvePortrait (script : Script) (fields : Section) (actor : Option Nat) :
    Except Error (Option UInt32) := do
  match ← fields.optional "portrait" (.pair (.whole 0)) with
  | none => return none
  | some (column, row) =>
    let location := fields.location.key "portrait"
    match actor.bind script.actorAt? with
    | none => throw (.invalid location .portraitWithoutActor)
    | some actor =>
      let size := actor.sheetSize
      match size.cellIndex column row with
      | some cell => return some cell
      | none =>
        throw (.invalid location
          (.cellOutsideSheet column row size.columns size.rows actor.id))

/-- A sprite command from its fields. -/
def resolveSprite (script : Script) (fields : Section) : Except Error SpriteCommand := do
  let id ← fields.required "id" .string
  let sprite ← match script.sprites.position? id with
    | some index => pure index
    | none => throw (.unresolved .sprite (.named id) (fields.location.key "id"))
  let actor ← match ← fields.optional "actor" .string with
    | some id => some <$> script.resolveActor fields id
    | none => pure none
  let hide ← fields.optional "hide" .bool
  let portrait ← script.resolvePortrait fields actor
  let pos ← fields.optional "pos" .vector
  let size ← fields.optional "size" .vector
  return ⟨sprite, hide.getD false, actor, portrait, pos, size⟩

/-- A speak command from its fields. -/
def resolveSpeak (limits : Limits) (script : Script) (fields : Section) :
    Except Error SpeakCommand := do
  let id ← fields.required "actor" .string
  let actor ← script.resolveActor fields id
  let text := (← fields.optional "text" .string).getD ""
  limits.checkText (fields.location.key "text") text
  let portrait ← script.resolvePortrait fields (some actor)
  return ⟨some actor, portrait, text⟩

/-- The duration of a wait command from its fields. -/
def resolveWait (fields : Section) : Except Error Single := do
  let time ← fields.required "time" .single
  if time < 0 then throw (.invalid (fields.location.key "time") .expectedNonNegativeNumber)
  return time

/-- What a field does to an asset: absent keeps it, an empty name clears it. -/
def resolveAsset (kind : ReferenceKind) (pool : Pool String) (fields : Section) (key : String) :
    Except Error AssetRef := do
  match ← fields.optional key .string with
  | none => return .keep
  | some name =>
    if name = "" then return .clear
    match pool.position? name with
    | some index => return .set index
    | none => throw (.unresolved kind (.named name) (fields.location.key key))

/-- A background command from its fields. -/
def resolveBackground (script : Script) (fields : Section) : Except Error BackgroundCommand := do
  let image ← resolveAsset .background script.backgrounds fields "image"
  let music ← resolveAsset .music script.music fields "music"
  return ⟨image, music⟩

/-- The kinds whose key a command has, with the values of these keys. -/
def presentKinds (fields : Section) : List (CommandKind × Json) :=
  CommandKind.all.filterMap fun kind => (fields.find? kind.key).map (kind, ·)

/-- The command of a kind from the fields of its body. -/
def resolveBody (limits : Limits) (script : Script) (kind : CommandKind) (body : Section) :
    Except Error Command :=
  match kind with
  | .sprite => .sprite <$> script.resolveSprite body
  | .speak => .speak <$> script.resolveSpeak limits body
  | .wait => .wait <$> resolveWait body
  | .background => .background <$> script.resolveBackground body

/-- The command in an element of the command list, its names resolved in a script. -/
def resolveCommand (limits : Limits) (script : Script) (place : Nat) (command : Json) :
    Except Error Command := do
  let fields ← FieldReader.object (.command place) command
  match presentKinds fields with
  | [] => throw (.invalid fields.location (.noCommandKind place))
  | [(kind, body)] =>
    let body ← FieldReader.object (fields.location.key kind.key) body
    script.resolveBody limits kind body
  | _ => throw (.invalid fields.location (.severalCommandKinds place))

/-- Applies a function to each element of a command list and its place, up to the first error. -/
def forEachCommand {α : Type} (commands : List Json) (f : Nat → Json → Except Error α) :
    Except Error (List α) :=
  commands.zipIdx.mapM fun (command, place) => f place command

/-! ## Whole scripts -/

/-- A script whose pools hold what commands mention, and nothing else. -/
def withMentions (script : Script) (sprites : List (Option String))
    (assets : List (Option String × Option String)) : Script :=
  { script with
    sprites := .ofNames (sprites.filterMap id)
    backgrounds := .ofNames (assets.filterMap Prod.fst)
    music := .ofNames (assets.filterMap Prod.snd) }

/-- The script in a JSON value. -/
def load (limits : Limits) (value : Json) : Except Error Script := do
  let fields ← FieldReader.object .root value
  let cast ← fields.required "actors" fun _ value => .ok value
  let commands ← fields.required "commands" .array
  limits.checkCommands commands.length
  let script ← loadCast limits cast
  let sprites ← forEachCommand commands (mentionedSprite? limits)
  let assets ← forEachCommand commands (mentionedAssets limits)
  let script := script.withMentions sprites assets
  let commands ← forEachCommand commands (resolveCommand limits script)
  return { script with commands }

/-- The value of a JSON text, or the error of its first fault. -/
def parseJson (text : List Char) : Except Error Json :=
  (Json.parse text).mapError (.ofFault text)

/-- The script in a JSON text. -/
def loadText (limits : Limits) (text : String) : Except Error Script := do
  limits.checkScript text.utf8ByteSize
  load limits (← parseJson text.toList)

/-- Replaces a script by the one in a JSON value; it stays as it is if that cannot be loaded. -/
def reload (limits : Limits) (script : Script) (value : Json) : Except Error Unit × Script :=
  match load limits value with
  | .ok loaded => (.ok (), loaded)
  | .error error => (.error error, script)

end VisualNovel.Script
