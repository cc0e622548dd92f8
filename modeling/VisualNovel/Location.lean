/-!
# Locations

A location leads from the root of a JSON value to a place in it, by keys and indices. It is written
with points between keys and indices in brackets, as in `commands[2].sprite.pos[0]`; the root is
written as nothing.
-/

namespace VisualNovel

/-- One step into a JSON value. -/
inductive Location.Step where
  | key (name : String)
  | index (place : Nat)
  deriving DecidableEq, Repr

/-- The steps from the root of a JSON value to a place in it. -/
structure Location where
  steps : List Location.Step
  deriving DecidableEq, Repr

namespace Location

/-- The whole value. -/
def root : Location := ⟨[]⟩

/-- The value of a key of the object at a location. -/
def key (location : Location) (name : String) : Location :=
  ⟨location.steps ++ [.key name]⟩

/-- An element of the array at a location. -/
def index (location : Location) (place : Nat) : Location :=
  ⟨location.steps ++ [.index place]⟩

/-- A written location with one more step. -/
def appendStep (written : String) : Step → String
  | .key name => if written = "" then name else written ++ "." ++ name
  | .index place => written ++ "[" ++ toString place ++ "]"

/-- A location as written in messages. -/
def text (location : Location) : String :=
  location.steps.foldl appendStep ""

/-- The location of the cast of a script. -/
def cast : Location := root.key "actors"

/-- The location of an actor of a script. -/
def actor (id : String) : Location := cast.key id

/-- The location of a command of a script. -/
def command (place : Nat) : Location := (root.key "commands").index place

end Location

end VisualNovel
