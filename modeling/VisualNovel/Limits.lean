import VisualNovel.Error

/-!
# Limits

Upper bounds on what a script may hold, checked while it is loaded. Lengths are in UTF-8 bytes.
-/

namespace VisualNovel

/-- Upper bounds on a script. -/
structure Limits where
  scriptBytes : Nat
  actors : Nat
  commands : Nat
  textBytes : Nat
  idBytes : Nat
  deriving DecidableEq, Repr

namespace Limits

/-- The bounds that hold where none are chosen. -/
def standard : Limits := ⟨4 * 1024 * 1024, 256, 65536, 4096, 256⟩

instance : Inhabited Limits := ⟨standard⟩

/-- Refuses a script text that is too long. -/
def checkScript (limits : Limits) (bytes : Nat) : Except Error Unit :=
  if bytes ≤ limits.scriptBytes then .ok ()
  else .error (.overLimit (.scriptBytes bytes limits.scriptBytes))

/-- Refuses too many actors. -/
def checkActors (limits : Limits) (count : Nat) : Except Error Unit :=
  if count ≤ limits.actors then .ok ()
  else .error (.overLimit (.actors count limits.actors))

/-- Refuses too many commands. -/
def checkCommands (limits : Limits) (count : Nat) : Except Error Unit :=
  if count ≤ limits.commands then .ok ()
  else .error (.overLimit (.commands count limits.commands))

/-- Refuses an id that is too long. -/
def checkId (limits : Limits) (location : Location) (id : String) : Except Error Unit :=
  if id.utf8ByteSize ≤ limits.idBytes then .ok ()
  else .error (.overLimit (.idBytes location limits.idBytes))

/-- Refuses a text that is too long. -/
def checkText (limits : Limits) (location : Location) (text : String) : Except Error Unit :=
  if text.utf8ByteSize ≤ limits.textBytes then .ok ()
  else .error (.overLimit (.textBytes location limits.textBytes))

end Limits

end VisualNovel
