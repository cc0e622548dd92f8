import VisualNovel.Assets
import VisualNovel.Script.Command
import VisualNovel.Script.Pool

/-!
# Scripts

A script is a cast of actors, pools of sprites, backgrounds and music, and a list of commands that
refer to these by index. It grows by `Script.addActor`, `Script.ensureSprite` and the like, and
`Script.push`, `Script.insert` and `Script.remove` edit its commands. What is added is checked, so
that every index resolves and every portrait lies inside its actor's sheet. What can be refused
gives its outcome together with the script that is there afterwards.
-/

namespace VisualNovel

/-- A character, drawn from the cells of a sprite sheet. -/
structure Actor where
  id : String
  name : String
  sheet : String
  sheetSize : SheetSize
  deriving DecidableEq, Repr

/-- A sprite as it is before the first command. -/
structure Sprite where
  id : String
  visible : Bool
  pos : Vec2
  size : Vec2
  actor : Option Nat
  portrait : Option UInt32
  deriving DecidableEq, BEq, Repr

/-- A sprite that is only named: hidden, at the origin, of natural size. -/
def Sprite.ofId (id : String) : Sprite := ⟨id, false, .zero, .one, none, none⟩

instance : PoolEntry Sprite := ⟨Sprite.id, Sprite.ofId⟩

/-- A cast, the pools that commands refer to, and the commands. The ids under which actors were
registered are kept apart from the cast, as the names of a pool are from its entries. -/
structure Script where
  actors : List Actor
  actorIds : List String
  sprites : Pool Sprite
  backgrounds : Pool String
  music : Pool String
  commands : List Command
  deriving DecidableEq, BEq, Repr

namespace Script

/-- The script in which nothing happens. -/
def empty : Script := ⟨[], [], .empty, .empty, .empty, []⟩

instance : Inhabited Script := ⟨empty⟩

/-! ## Cast and pools -/

/-- The index of an actor. -/
def actorIndex? (script : Script) (id : String) : Option Nat := script.actorIds.idxOf? id

/-- The actor at an index. -/
def actorAt? (script : Script) (index : Nat) : Option Actor := script.actors[index]?

/-- The actor of an id. -/
def actor? (script : Script) (id : String) : Option Actor :=
  (script.actorIndex? id).bind script.actorAt?

/-- Adds an actor with a new id and a sheet whose cells can be numbered in 32 bits; gives its
index. -/
def addActor (script : Script) (actor : Actor) : Except Error Nat × Script :=
  let location := Location.actor actor.id
  if (script.actorIndex? actor.id).isSome then
    (.error (.invalid location .duplicateActor), script)
  else if actor.sheet = "" then
    (.error (.invalid (location.key "sheet") .expectedNonEmptyString), script)
  else if actor.sheetSize.columns = 0 ∨ actor.sheetSize.rows = 0 then
    (.error (.invalid (location.key "sheetSize") .emptySheet), script)
  else if actor.sheetSize.checkedCellCount = none then
    (.error (.invalid (location.key "sheetSize") .tooManyCells), script)
  else
    let index := script.actors.length
    let script := { script with actorIds := script.actorIds ++ [actor.id] }
    let script := { script with actors := script.actors ++ [actor] }
    (.ok index, script)

/-- The index of a sprite, which is added if it is new. -/
def ensureSprite (script : Script) (id : String) : Nat × Script :=
  let (index, sprites) := script.sprites.ensure id
  (index, { script with sprites })

/-- The index of a background, which is added if it is new. -/
def ensureBackground (script : Script) (name : String) : Nat × Script :=
  let (index, backgrounds) := script.backgrounds.ensure name
  (index, { script with backgrounds })

/-- The index of a music track, which is added if it is new. -/
def ensureMusic (script : Script) (name : String) : Nat × Script :=
  let (index, music) := script.music.ensure name
  (index, { script with music })

/-! ## Checks of commands -/

/-- A portrait needs an actor of the cast and lies inside that actor's sheet. -/
def checkPortrait (script : Script) (actor : Option Nat) (portrait : Option UInt32)
    (location : Location) : Except Error Unit :=
  match actor with
  | none =>
    if portrait.isSome then .error (.invalid (location.key "portrait") .portraitWithoutActor)
    else .ok ()
  | some index =>
    match script.actorAt? index with
    | none => .error (.unresolved .actor (.numbered index) (location.key "actor"))
    | some actor =>
      match portrait with
      | none => .ok ()
      | some cell =>
        if cell < actor.sheetSize.cellCount then .ok ()
        else .error (.invalid (location.key "portrait") (.cellNumberOutsideSheet cell actor.id))

/-- A position or size, if given, is finite. -/
def checkVector (vector : Option Vec2) (location : Location) : Except Error Unit :=
  if vector.all Vec2.isFinite then .ok () else .error (.invalid location .expectedFiniteNumbers)

/-- A reference into a pool of a size resolves. -/
def checkAsset (kind : ReferenceKind) (poolSize : Nat) (asset : AssetRef) (location : Location) :
    Except Error Unit :=
  match asset.index? with
  | none => .ok ()
  | some index =>
    if index < poolSize then .ok () else .error (.unresolved kind (.numbered index) location)

/-- The sprite exists, its vectors are finite, and its portrait fits. -/
def checkSprite (script : Script) (command : SpriteCommand) (location : Location) :
    Except Error Unit := do
  if script.sprites.size ≤ command.sprite then
    throw (.unresolved .sprite (.numbered command.sprite) (location.key "id"))
  checkVector command.pos (location.key "pos")
  checkVector command.size (location.key "size")
  script.checkPortrait command.actor command.portrait location

/-- The portrait fits, and someone speaks. -/
def checkSpeak (script : Script) (command : SpeakCommand) (location : Location) :
    Except Error Unit := do
  script.checkPortrait command.actor command.portrait location
  if command.actor.isNone then throw (.invalid (location.key "actor") .missingField)

/-- The duration is finite and not negative. -/
def checkWait (duration : Single) (location : Location) : Except Error Unit :=
  if duration.isFinite ∧ ¬duration < 0 then .ok ()
  else .error (.invalid (location.key "time") .expectedNonNegativeNumber)

/-- Image and music resolve. -/
def checkBackground (script : Script) (command : BackgroundCommand) (location : Location) :
    Except Error Unit := do
  checkAsset .background script.backgrounds.size command.image (location.key "image")
  checkAsset .music script.music.size command.music (location.key "music")

/-- Whether a command may stand in a script, at a location for the error. -/
def check (script : Script) (command : Command) (location : Location) : Except Error Unit :=
  let body := location.key command.kind.key
  match command with
  | .sprite command => script.checkSprite command body
  | .speak command => script.checkSpeak command body
  | .wait duration => checkWait duration body
  | .background command => script.checkBackground command body

/-! ## Editing commands -/

/-- Appends a command that passes the check. -/
def push (script : Script) (command : Command) : Except Error Unit × Script :=
  match script.check command (.command script.commands.length) with
  | .error error => (.error error, script)
  | .ok () => (.ok (), { script with commands := script.commands ++ [command] })

/-- Inserts a command that passes the check before the one at a place, or at the end. -/
def insert (script : Script) (place : Nat) (command : Command) : Except Error Unit × Script :=
  if script.commands.length < place then
    (.error (.invalid (.command place) .insertedOutOfRange), script)
  else
    match script.check command (.command place) with
    | .error error => (.error error, script)
    | .ok () => (.ok (), { script with commands := script.commands.insertIdx place command })

/-- Removes the command at a place, if there is one, and gives it; the pools keep their entries. -/
def remove (script : Script) (place : Nat) : Option Command × Script :=
  match script.commands[place]? with
  | none => (none, script)
  | some command =>
    (some command, { script with commands := script.commands.eraseIdx place })

/-! ## Assets -/

/-- The sheets of the actors, the backgrounds and the music. -/
def requiredAssets (script : Script) : Assets :=
  let sheets := (script.actors.map (·.sheet)).foldl Assets.addTexture .empty
  let images := script.backgrounds.entries.foldl Assets.addTexture sheets
  script.music.entries.foldl Assets.addMusic images

end Script

end VisualNovel
