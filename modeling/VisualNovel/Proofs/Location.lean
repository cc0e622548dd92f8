import VisualNovel.Json.Basic
import VisualNovel.Location

/-!
# Locations in a value

A location is followed step by step from the root of a JSON value (`Json.at?`): a key leads into an
object, an index into an array. Written out, a location is its keys and indices one after the other,
with a point before each key but the first (`Location.spelling`). In messages it is written so if it
begins with a key that is not empty (`Plain.text_eq`).
-/

namespace VisualNovel

/-- Where a step from a value leads. -/
def Json.step? : Json → Location.Step → Option Json
  | .object entries, .key name => entries.lookup name
  | .array elements, .index place => elements[place]?
  | _, _ => none

/-- What is at a location in a value. -/
def Json.at? (value : Json) (location : Location) : Option Json :=
  location.steps.foldlM Json.step? value

section At

variable {root : Json} {location : Location}

/-- At the root is the whole value. -/
theorem Json.at?_root (root : Json) : root.at? .root = some root := rfl

/-- The last step of a location starts from where the others lead. -/
theorem Json.at?_append (root : Json) (steps : List Location.Step) (step : Location.Step) :
    root.at? ⟨steps ++ [step]⟩ = (root.at? ⟨steps⟩).bind (·.step? step) := by
  simp only [at?, List.foldlM_append, List.foldlM_cons, List.foldlM_nil, bind_pure,
    Option.bind_eq_bind]

/-- At a key of an object is what the key leads to. -/
theorem Json.at?_key {entries : List (String × Json)}
    (h : root.at? location = some (.object entries)) (name : String) :
    root.at? (location.key name) = entries.lookup name := by
  rw [Location.key, at?_append, h]
  rfl

/-- At an index of an array is the element there. -/
theorem Json.at?_index {elements : List Json} (h : root.at? location = some (.array elements))
    (place : Nat) : root.at? (location.index place) = elements[place]? := by
  rw [Location.index, at?_append, h]
  rfl

end At

namespace Location

/-! ## Written locations -/

/-- A step as it is written after others. -/
def Step.spelling : Step → String
  | .key name => "." ++ name
  | .index place => "[" ++ toString place ++ "]"

/-- The keys and indices of a location as they are written one after the other. -/
def spelling : Location → String
  | ⟨[]⟩ => ""
  | ⟨.key name :: rest⟩ => name ++ String.join (rest.map Step.spelling)
  | ⟨.index place :: rest⟩ => "[" ++ toString place ++ "]" ++ String.join (rest.map Step.spelling)

/-- A location begins with a key that is not empty. -/
def Plain (location : Location) : Prop :=
  ∃ name rest, name ≠ "" ∧ location.steps = .key name :: rest

variable {location : Location}

/-- A further key leaves the first as it is. -/
theorem Plain.key (h : location.Plain) (name : String) : (location.key name).Plain := by
  obtain ⟨first, rest, hne, hsteps⟩ := h
  exact ⟨first, rest ++ [.key name], hne, by rw [Location.key, hsteps, List.cons_append]⟩

/-- A further index leaves the first key as it is. -/
theorem Plain.index (h : location.Plain) (place : Nat) : (location.index place).Plain := by
  obtain ⟨first, rest, hne, hsteps⟩ := h
  exact ⟨first, rest ++ [.index place], hne, by rw [Location.index, hsteps, List.cons_append]⟩

/-- The location of the cast begins with a key. -/
theorem plain_cast : cast.Plain := ⟨"actors", [], by decide, rfl⟩

/-- The location of the command list begins with a key. -/
theorem plain_commands : (root.key "commands").Plain := ⟨"commands", [], by decide, rfl⟩

/-- After something was written, each step adds its own spelling. -/
theorem foldl_appendStep {written : String} (h : written ≠ "") (steps : List Step) :
    steps.foldl appendStep written = written ++ String.join (steps.map Step.spelling) := by
  induction steps generalizing written with
  | nil => simp
  | cons step rest ih =>
    have hstep : appendStep written step = written ++ step.spelling := by
      cases step with
      | key name => rw [appendStep, if_neg h, Step.spelling, String.append_assoc]
      | index place => simp only [appendStep, Step.spelling, String.append_assoc]
    have hne : written ++ step.spelling ≠ "" := by simp [h]
    rw [List.foldl_cons, hstep, ih hne, List.map_cons]
    simp [String.append_assoc]

/-- A location is written in messages as its keys and indices are. -/
theorem Plain.text_eq (h : location.Plain) : location.text = location.spelling := by
  obtain ⟨steps⟩ := location
  obtain ⟨name, rest, hne, rfl⟩ := h
  exact foldl_appendStep hne rest

example : (((command 2).key "sprite").key "id").spelling = "commands[2].sprite.id" := by decide

end Location

end VisualNovel
