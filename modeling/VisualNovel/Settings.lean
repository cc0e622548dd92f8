import VisualNovel.Binary.Arithmetic
import VisualNovel.Error

/-!
# Playback settings

How fast lines are revealed, and what an advance signal does to a line that is still being
revealed.
-/

namespace VisualNovel

/-- What an advance signal does while a line is being revealed. -/
inductive RevealAdvance where
  /-- Nothing: the line has to be revealed first. -/
  | ignore
  /-- The rest of the line is revealed at once. -/
  | complete
  deriving DecidableEq, Repr

namespace RevealAdvance

/-- The word for a choice. -/
def word : RevealAdvance → String
  | ignore => "ignore"
  | complete => "complete"

/-- The choice of a word. -/
def ofWord? (word : String) : Option RevealAdvance :=
  [ignore, complete].find? (·.word = word)

end RevealAdvance

/-- Settings of playback. -/
structure Settings where
  /-- Seconds between two revealed characters. -/
  charInterval : Single
  revealAdvance : RevealAdvance
  deriving DecidableEq, BEq, Repr

namespace Settings

/-- The settings that hold where none are chosen: a character every 0.05 seconds. -/
def standard : Settings := ⟨.ofDecimal false 5 (-2), .ignore⟩

instance : Inhabited Settings := ⟨standard⟩

/-- Refuses an interval that is not finite or not positive. -/
def validate (settings : Settings) : Except Error Unit :=
  if settings.charInterval.isFinite ∧ 0 < settings.charInterval then .ok ()
  else .error (.settings (.charInterval settings.charInterval))

end Settings

end VisualNovel
