import VisualNovel.Files
import VisualNovel.Script.Loader
import VisualNovel.Script.Writer

/-!
# Scenes

A scene is a script with a title, what is shown and played when it opens, and the name of the scene
that follows. Its JSON form is that of the script with further keys beside the cast and the
commands.
-/

namespace VisualNovel

/-- A script with all that surrounds it. -/
structure Scene where
  name : String
  title : String
  background : Option String
  music : Option String
  /-- The name of the scene that follows. -/
  next : Option String
  story : Script
  deriving DecidableEq, BEq, Repr

namespace Scene

/-- The word for scenes that have a story. -/
def storyType : String := "story"

/-- The word for scenes that are walked through and have none. -/
def fieldType : String := "field"

/-- An optional name, where an empty one counts as none. -/
def optionalName (fields : Section) (key : String) : Except Error (Option String) := do
  return (← fields.optional key .string).filter (· ≠ "")

/-- Only scenes with a story are loaded; the type may be written in capitals. -/
def checkType (fields : Section) : Except Error Unit := do
  let type ← fields.required "type" .string
  if type.toLower = fieldType then throw (.unsupportedScene type)
  if type.toLower ≠ storyType then
    throw (.invalid (fields.location.key "type") (.unknownSceneType type))

/-- The scene in a JSON value; without a title it is titled by its name. -/
def load (limits : Limits) (name : String) (value : Json) : Except Error Scene := do
  let fields ← FieldReader.object .root value
  let title ← fields.optional "title" .string
  let background ← optionalName fields "background"
  let music ← optionalName fields "music"
  let next ← optionalName fields "next"
  checkType fields
  let story ← Script.load limits value
  return ⟨name, title.getD name, background, music, next, story⟩

/-- The scene in a JSON text. -/
def loadText (name : String) (text : String) : Except Error Scene := do
  Limits.standard.checkScript text.utf8ByteSize
  load .standard name (← Script.parseJson text.toList)

/-- The scene in a file; it is named by the stem of the path. -/
def loadFile (files : Files) (path : String) : Except Error Scene := do
  loadText (((Path.fileName? path).map Path.stem).getD "") (← files.readText path)

/-- The keys of a scene beside those of its script. -/
def envelope (scene : Scene) : List (String × Json) :=
  let optionalField (key : String) : Option String → List (String × Json)
    | none => []
    | some name => [(key, .string name)]
  [("title", .string scene.title)]
    ++ optionalField "background" scene.background
    ++ optionalField "music" scene.music
    ++ optionalField "next" scene.next
    ++ [("type", .string storyType)]

/-- The entries of a JSON object, none for other values. -/
def entriesOf : Json → List (String × Json)
  | .object entries => entries
  | _ => []

/-- The JSON value of a scene. -/
def toJson (scene : Scene) : Except Error Json := do
  let story ← scene.story.toJson
  return .object (Json.orderEntries (scene.envelope ++ entriesOf story))

/-- The assets of the script, and what is shown and played when the scene opens. -/
def requiredAssets (scene : Scene) : Assets :=
  let assets := scene.story.requiredAssets
  let assets := scene.background.elim assets assets.addTexture
  scene.music.elim assets assets.addMusic

end Scene

end VisualNovel
