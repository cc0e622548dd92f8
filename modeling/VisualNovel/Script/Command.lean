import VisualNovel.Script.Sheet

/-!
# Commands

A script is played command by command. A command refers to actors, sprites, backgrounds and music by
their index in the script.
-/

namespace VisualNovel

/-- A pair of numbers: a position or a size. -/
structure Vec2 where
  x : Single
  y : Single
  deriving DecidableEq, BEq, Repr

namespace Vec2

/-- The origin. -/
def zero : Vec2 := ⟨0, 0⟩

/-- The natural size. -/
def one : Vec2 := ⟨1, 1⟩

/-- Both numbers are finite. -/
def isFinite (v : Vec2) : Bool := v.x.isFinite && v.y.isFinite

end Vec2

/-- What a command does to the background image or the music. -/
inductive AssetRef where
  /-- Leaves it as it is. -/
  | keep
  /-- Takes it away. -/
  | clear
  /-- Changes it to the pool entry at an index. -/
  | set (index : Nat)
  deriving DecidableEq, BEq, Repr

/-- The index of the pool entry that is referred to. -/
def AssetRef.index? : AssetRef → Option Nat
  | set index => some index
  | _ => none

/-- Shows, hides or changes a sprite; what is absent stays as it is. -/
structure SpriteCommand where
  sprite : Nat
  hide : Bool
  actor : Option Nat
  portrait : Option UInt32
  pos : Option Vec2
  size : Option Vec2
  deriving DecidableEq, BEq, Repr

/-- Has an actor speak a line. -/
structure SpeakCommand where
  actor : Option Nat
  portrait : Option UInt32
  text : String
  deriving DecidableEq, BEq, Repr

/-- Changes the background image and the music. -/
structure BackgroundCommand where
  image : AssetRef
  music : AssetRef
  deriving DecidableEq, BEq, Repr

/-- One step of a script. -/
inductive Command where
  | sprite (command : SpriteCommand)
  | speak (command : SpeakCommand)
  /-- Lets a time pass, in seconds. -/
  | wait (duration : Single)
  | background (command : BackgroundCommand)
  deriving DecidableEq, BEq, Repr

/-- The four kinds of commands. -/
inductive CommandKind where
  | sprite
  | speak
  | wait
  | background
  deriving DecidableEq, Repr

namespace CommandKind

/-- The key by which a kind is written. -/
def key : CommandKind → String
  | sprite => "sprite"
  | speak => "speak"
  | wait => "wait"
  | background => "background"

/-- All kinds. -/
def all : List CommandKind := [sprite, speak, wait, background]

end CommandKind

/-- The kind of a command. -/
def Command.kind : Command → CommandKind
  | sprite _ => .sprite
  | speak _ => .speak
  | wait _ => .wait
  | background _ => .background

end VisualNovel
