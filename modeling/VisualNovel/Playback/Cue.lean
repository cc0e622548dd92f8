import VisualNovel.Script.Command

/-!
# Cues and views

While a story plays it queues cues for the host: what to show, play or update. A sprite cue names
only the sprite, and the host is given a view of it as it is when the cue is passed on.
-/

namespace VisualNovel

/-- What the host has to do after a command. -/
inductive Cue where
  | showBackground (image : String)
  | clearBackground
  | playMusic (track : String)
  | stopMusic
  /-- The sprite at an index of the pool has changed. -/
  | spriteChanged (index : Nat)
  deriving DecidableEq, Repr

/-- A cell of an actor's sheet. -/
structure PortraitView where
  sheet : String
  cell : CellRect
  deriving DecidableEq, Repr

/-- A sprite as it is drawn. -/
structure SpriteView where
  id : String
  visible : Bool
  pos : Vec2
  size : Vec2
  portrait : Option PortraitView
  deriving DecidableEq, Repr

/-- What the host is told when cues are passed on. -/
inductive Notice where
  | showBackground (image : String)
  | clearBackground
  | playMusic (track : String)
  | stopMusic
  | updateSprite (sprite : SpriteView)
  deriving DecidableEq, Repr

end VisualNovel
