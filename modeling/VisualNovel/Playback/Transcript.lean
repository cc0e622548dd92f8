import VisualNovel.Playback.Frame

/-!
# Transcripts

A transcript renders a story as text: a line for each notice to the host, and a few lines for a
frame.
-/

namespace VisualNovel.Transcript

/-- The line of a notice. -/
def line : Notice → String
  | .showBackground image => "show background " ++ image
  | .clearBackground => "clear background"
  | .playMusic track => "play music " ++ track
  | .stopMusic => "stop music"
  | .updateSprite sprite =>
    (if sprite.visible then "show" else "hide") ++ " sprite " ++ sprite.id ++ " at ("
      ++ sprite.pos.x.text .display ++ ", " ++ sprite.pos.y.text .display ++ ")"

/-- The lines of a frame; what is not there has no line. -/
def frameLines (frame : Frame) : List String :=
  (frame.background.map ("Background: " ++ ·)).toList
    ++ (frame.music.map ("Music: " ++ ·)).toList
    ++ (if frame.sprites.isEmpty then []
      else ["Sprites: " ++ ", ".intercalate (frame.sprites.map (·.id))])
    ++ (match frame.text, frame.speaker with
      | none, _ => []
      | some text, some actor => [actor.name ++ ": " ++ text]
      | some text, none => [text])

/-- A frame as text. -/
def render (frame : Frame) : String := "\n".intercalate (frameLines frame)

end VisualNovel.Transcript
