import VisualNovel.Error
import VisualNovel.Json.Basic
import VisualNovel.Script.Command

/-!
# Sections

A section is a JSON object together with its location, so that an error in one of its fields can say
where it is. A field is read by one of the readers of this module, which are given the location of
the value, and is either required or optional.
-/

namespace VisualNovel

/-- The entries of a JSON object and where it is. -/
structure Section where
  location : Location
  entries : List (String × Json)

/-- How a value at a location is understood. -/
abbrev FieldReader (α : Type) := Location → Json → Except Error α

namespace FieldReader

/-- A string. -/
def string : FieldReader String
  | _, .string s => .ok s
  | location, _ => .error (.invalid location .expectedString)

/-- A boolean. -/
def bool : FieldReader Bool
  | _, .bool b => .ok b
  | location, _ => .error (.invalid location .expectedBoolean)

/-- An array. -/
def array : FieldReader (List Json)
  | _, .array elements => .ok elements
  | location, _ => .error (.invalid location .expectedArray)

/-- A number that is finite in single precision, to which it is rounded by way of double
precision. -/
def single : FieldReader Single
  | location, .number n =>
    let x := n.toDouble.narrow
    if x.isFinite then .ok x else .error (.invalid location .numberOutOfRange)
  | location, _ => .error (.invalid location .expectedNumber)

/-- The problem of something that is no whole number from `least` on. -/
def wholeProblem (least : Nat) : Problem :=
  if 0 < least then .expectedPositiveInteger else .expectedNaturalNumber

/-- A whole number of 32 bits that is at least `least`. -/
def whole (least : Nat) : FieldReader UInt32
  | location, .number n =>
    match n.toNat?.bind toUInt32? with
    | some value =>
      if least ≤ value.toNat then .ok value else .error (.invalid location (wholeProblem least))
    | none => .error (.invalid location (wholeProblem least))
  | location, _ => .error (.invalid location (wholeProblem least))

/-- An array of two elements of one kind. -/
def pair {α : Type} (element : FieldReader α) : FieldReader (α × α)
  | location, .array [a, b] => do
    let a ← element (location.index 0) a
    let b ← element (location.index 1) b
    return (a, b)
  | location, .array _ => .error (.invalid location .expectedPair)
  | location, _ => .error (.invalid location .expectedArray)

/-- A position or size: an array of two numbers. -/
def vector : FieldReader Vec2 := fun location value =>
  (pair single location value).map fun (x, y) => ⟨x, y⟩

/-- An object. -/
def object : FieldReader Section
  | location, .object entries => .ok ⟨location, entries⟩
  | location, _ => .error (.invalid location .expectedObject)

end FieldReader

namespace Section

variable {α : Type}

/-- The value of a key. -/
def find? (fields : Section) (key : String) : Option Json := fields.entries.lookup key

/-- A field that has to be there. -/
def required (fields : Section) (key : String) (reader : FieldReader α) : Except Error α :=
  match fields.find? key with
  | some value => reader (fields.location.key key) value
  | none => .error (.invalid (fields.location.key key) .missingField)

/-- A field that may be absent. -/
def optional (fields : Section) (key : String) (reader : FieldReader α) :
    Except Error (Option α) :=
  match fields.find? key with
  | some value => (reader (fields.location.key key) value).map some
  | none => .ok none

end Section

end VisualNovel
