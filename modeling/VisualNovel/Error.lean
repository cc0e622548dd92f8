import VisualNovel.Binary.Style
import VisualNovel.Excerpt
import VisualNovel.Location

/-!
# Errors

Every error of the library is a value that says what is wrong and where. Wording comes last:
`Error.message`, with `Error.code` and `Error.help` beside it.
-/

namespace VisualNovel

/-- What a command can refer to. -/
inductive ReferenceKind where
  | actor
  | sprite
  | background
  | music
  deriving DecidableEq, Repr

/-- The word for a kind of reference. -/
def ReferenceKind.word : ReferenceKind → String
  | actor => "actor"
  | sprite => "sprite"
  | background => "background"
  | music => "music"

/-- How a reference is written: by name in a script text, by index in an edited script. -/
inductive Referent where
  | named (name : String)
  | numbered (index : Nat)
  deriving DecidableEq, Repr

/-- A referent as shown in messages. -/
def Referent.text : Referent → String
  | named name => name
  | numbered index => "#" ++ toString index

/-- What is wrong with a part of a script. -/
inductive Problem where
  | missingField
  | expectedObject
  | expectedArray
  | expectedPair
  | expectedString
  | expectedNonEmptyString
  | expectedBoolean
  | expectedNumber
  | numberOutOfRange
  | expectedPositiveInteger
  | expectedNaturalNumber
  | expectedNonNegativeNumber
  | expectedFiniteNumbers
  | duplicateActor
  | emptySheet
  | tooManyCells
  | noCommandKind (command : Nat)
  | severalCommandKinds (command : Nat)
  | portraitWithoutActor
  | cellOutsideSheet (column row columns rows : UInt32) (actor : String)
  | cellNumberOutsideSheet (cell : UInt32) (actor : String)
  | insertedOutOfRange
  | speakWithoutActor
  | unknownSceneType (type : String)
  deriving DecidableEq, Repr

/-- The wording of a problem. -/
def Problem.message : Problem → String
  | missingField => "missing required field"
  | expectedObject => "expected object"
  | expectedArray => "expected array"
  | expectedPair => "expected array of two elements"
  | expectedString => "expected string"
  | expectedNonEmptyString => "expected non-empty string"
  | expectedBoolean => "expected boolean"
  | expectedNumber => "expected number"
  | numberOutOfRange => "number out of range"
  | expectedPositiveInteger => "expected positive integer"
  | expectedNaturalNumber => "expected non-negative integer"
  | expectedNonNegativeNumber => "expected non-negative number"
  | expectedFiniteNumbers => "expected finite numbers"
  | duplicateActor => "duplicate actor id"
  | emptySheet => "sheet dimensions must be positive"
  | tooManyCells => "sheet has more than 4294967295 cells"
  | noCommandKind command =>
    "invalid command " ++ toString command
      ++ ": expected one of sprite, speak, wait, background"
  | severalCommandKinds command =>
    "invalid command " ++ toString command ++ ": more than one command kind present"
  | portraitWithoutActor => "portrait requires an actor"
  | cellOutsideSheet column row columns rows actor =>
    "cell [" ++ toString column ++ ", " ++ toString row ++ "] outside the " ++ toString columns
      ++ "x" ++ toString rows ++ " sheet of actor `" ++ actor ++ "`"
  | cellNumberOutsideSheet cell actor =>
    "cell " ++ toString cell ++ " outside sheet of actor `" ++ actor ++ "`"
  | insertedOutOfRange => "insert position out of range"
  | speakWithoutActor => "speak command has no actor"
  | unknownSceneType type => "unknown scene type `" ++ type ++ "`"

/-- A limit that a script exceeds. -/
inductive Excess where
  | scriptBytes (count limit : Nat)
  | actors (count limit : Nat)
  | commands (count limit : Nat)
  | idBytes (location : Location) (limit : Nat)
  | textBytes (location : Location) (limit : Nat)
  deriving DecidableEq, Repr

/-- The wording of an exceeded limit. -/
def Excess.message : Excess → String
  | scriptBytes count limit =>
    "script is " ++ toString count ++ " bytes, limit is " ++ toString limit
  | actors count limit => "actor count " ++ toString count ++ " exceeds " ++ toString limit
  | commands count limit => "command count " ++ toString count ++ " exceeds " ++ toString limit
  | idBytes location limit =>
    "id at `" ++ location.text ++ "` longer than " ++ toString limit ++ " bytes"
  | textBytes location limit =>
    "text at `" ++ location.text ++ "` longer than " ++ toString limit ++ " bytes"

/-- Why settings are refused. -/
inductive SettingsProblem where
  /-- The text is not a settings file. -/
  | unreadable
  | charInterval (seconds : Single)
  deriving DecidableEq, Repr

/-- The wording of a settings problem; what is wrong with an unreadable text is not told. -/
def SettingsProblem.message? : SettingsProblem → Option String
  | unreadable => none
  | charInterval seconds =>
    some ("char_interval must be a positive number of seconds, got " ++ seconds.text .display)

/-- All that can go wrong. -/
inductive Error where
  /-- A part of a script is not of the form it should have. -/
  | invalid (location : Location) (problem : Problem)
  /-- A command refers to something that is not declared. -/
  | unresolved (kind : ReferenceKind) (referent : Referent) (location : Location)
  /-- A text is not JSON. -/
  | malformed (cause : Json.Fault.Cause) (position : Position) (excerpt : Excerpt)
  | overLimit (excess : Excess)
  /-- A scene is of a type that has no story. -/
  | unsupportedScene (type : String)
  /-- An asset could not be loaded; the message is the host's. -/
  | asset (path : String) (message : String)
  | settings (problem : SettingsProblem)
  /-- A file could not be read as text, or could not be written. -/
  | inaccessibleFile
  deriving DecidableEq, Repr

namespace Error

/-- The error of a fault in a JSON text. -/
def ofFault (text : List Char) (fault : Json.Fault) : Error :=
  let position := fault.position text
  .malformed fault.cause position (.of text position)

/-- The wording of an error, where there is one of its own. -/
def message? : Error → Option String
  | invalid location problem =>
    some ("invalid scene script at `" ++ location.text ++ "`: " ++ problem.message)
  | unresolved kind referent location =>
    some ("unknown " ++ kind.word ++ " `" ++ referent.text ++ "` referenced at `"
      ++ location.text ++ "`")
  | malformed cause position _ =>
    some ("malformed scene json: " ++ cause.message ++ " at line " ++ toString position.line
      ++ " column " ++ toString position.column)
  | overLimit excess => some ("resource limit exceeded: " ++ excess.message)
  | unsupportedScene type => some ("unsupported scene type `" ++ type ++ "`")
  | asset path message =>
    some ("could not resolve asset `" ++ path ++ "`: " ++ message)
  | settings problem => problem.message?.map ("invalid playback config: " ++ ·)
  | inaccessibleFile => none

/-- A stable code for the kind of an error. -/
def code : Error → String
  | invalid .. => "scene.validation"
  | unresolved .. => "scene.reference"
  | malformed .. => "scene.syntax"
  | overLimit .. => "scene.resource_limit"
  | unsupportedScene .. => "scene.unsupported"
  | asset .. => "scene.resource"
  | settings .. => "scene.config"
  | inaccessibleFile => "scene.io"

/-- Advice for the author of a script. -/
def help? : Error → Option String
  | unresolved kind .. =>
    some ("declare the " ++ kind.word ++ " before referencing it from a command")
  | unsupportedScene .. => some "only story scenes can be played back"
  | _ => none

/-- The part of the script that an error is about. -/
def location? : Error → Option Location
  | invalid location _ => some location
  | unresolved _ _ location => some location
  | _ => none

end Error

end VisualNovel
