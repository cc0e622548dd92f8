import VisualNovel.Script.Basic

/-!
# The stage

What a story has brought on so far: background, music, the line being spoken and by whom, and the
sprites, one for each entry of the script's pool and in the same order.
-/

namespace VisualNovel

/-- A sprite on stage. -/
structure SpriteState where
  visible : Bool
  pos : Vec2
  size : Vec2
  actor : Option Nat
  portrait : Option UInt32
  deriving DecidableEq, Repr

/-- A sprite before the first command. -/
def Sprite.state (sprite : Sprite) : SpriteState :=
  ⟨sprite.visible, sprite.pos, sprite.size, sprite.actor, sprite.portrait⟩

/-- A portrait belongs to an actor: it is dropped where another actor takes its place, and a given
portrait replaces it. -/
def switchPortrait (current : Option Nat) (portrait : Option UInt32) (actor : Option Nat)
    (given : Option UInt32) : Option UInt32 :=
  given.or (if actor.isSome ∧ actor ≠ current then none else portrait)

/-- A sprite after a command: shown or hidden, and changed in what the command gives. -/
def SpriteState.apply (state : SpriteState) (command : SpriteCommand) : SpriteState where
  visible := !command.hide
  pos := command.pos.getD state.pos
  size := command.size.getD state.size
  actor := command.actor.or state.actor
  portrait := switchPortrait state.actor state.portrait command.actor command.portrait

/-- A line of dialogue, revealed character by character. -/
structure Line where
  text : String
  /-- The number of characters of the whole line, counted once. -/
  charCount : Nat
  /-- How many characters are shown. -/
  revealed : Nat
  deriving DecidableEq, Repr

namespace Line

/-- A line of which nothing is shown yet. -/
def new (text : String) : Line := ⟨text, text.length, 0⟩

/-- The whole line is shown. -/
def isComplete (line : Line) : Bool := line.charCount ≤ line.revealed

/-- The part that is shown. -/
def shown (line : Line) : String := String.ofList (line.text.toList.take line.revealed)

/-- Shows one more character, if there is one. -/
def revealOne (line : Line) : Line :=
  if line.isComplete then line else { line with revealed := line.revealed + 1 }

/-- Shows the whole line. -/
def revealAll (line : Line) : Line := { line with revealed := line.charCount }

end Line

/-- All that a story has brought on. -/
structure Stage where
  background : Option String
  music : Option String
  /-- Who spoke last. -/
  speaker : Option Nat
  /-- The portrait of who spoke last. -/
  portrait : Option UInt32
  line : Option Line
  sprites : List SpriteState
  deriving DecidableEq, Repr

namespace Stage

/-- The stage before the first command of a script. -/
def forScript (script : Script) : Stage :=
  ⟨none, none, none, none, none, script.sprites.entries.map Sprite.state⟩

/-- The shown part of the line, if there is a line. -/
def shownText (stage : Stage) : Option String := stage.line.map Line.shown

/-- A line begins: its speaker takes the place of the last one. -/
def speak (stage : Stage) (command : SpeakCommand) : Stage :=
  { stage with
    speaker := command.actor.or stage.speaker
    portrait := switchPortrait stage.speaker stage.portrait command.actor command.portrait
    line := some (.new command.text) }

end Stage

end VisualNovel
