import VisualNovel.Playback.Basic

/-!
# Frames

A frame is all that is drawn at a moment: background, music, the shown part of a line with its
speaker, and the visible sprites. `Playback.present` passes the queued cues on, each sprite as it is
now.
-/

namespace VisualNovel

/-- All that is drawn at a moment. -/
structure Frame where
  background : Option String
  music : Option String
  /-- Who speaks, while a line is shown. -/
  speaker : Option Actor
  portrait : Option PortraitView
  text : Option String
  sprites : List SpriteView
  deriving DecidableEq, Repr

/-- A cell of an actor's sheet, if it is inside. -/
def Actor.portraitView (actor : Actor) (cell : UInt32) : Option PortraitView :=
  (actor.sheetSize.cellRect cell).map fun rect => ⟨actor.sheet, rect⟩

namespace Playback

/-- The sprite at an index of the pool as it is drawn. -/
def spriteView? (playback : Playback) (index : Nat) : Option SpriteView := do
  let state ← playback.stage.sprites[index]?
  let id ← playback.script.sprites.nameAt? index
  let portrait := do
    let actor ← playback.script.actorAt? (← state.actor)
    actor.portraitView (← state.portrait)
  return ⟨id, state.visible, state.pos, state.size, portrait⟩

/-- What is drawn now. -/
def frame (playback : Playback) : Frame :=
  let stage := playback.stage
  let speaker := do
    let _ ← stage.line
    playback.script.actorAt? (← stage.speaker)
  { background := stage.background
    music := stage.music
    speaker
    portrait := do (← speaker).portraitView (← stage.portrait)
    text := stage.shownText
    sprites :=
      ((List.range stage.sprites.length).filterMap playback.spriteView?).filter (·.visible) }

/-- What the host is told for a cue. -/
def notice? (playback : Playback) : Cue → Option Notice
  | .showBackground image => some (.showBackground image)
  | .clearBackground => some .clearBackground
  | .playMusic track => some (.playMusic track)
  | .stopMusic => some .stopMusic
  | .spriteChanged index => (playback.spriteView? index).map .updateSprite

/-- Takes the queued cues and tells the host. -/
def present (playback : Playback) : List Notice × Playback :=
  (playback.cues.filterMap playback.notice?, { playback with cues := [] })

end Playback

end VisualNovel
