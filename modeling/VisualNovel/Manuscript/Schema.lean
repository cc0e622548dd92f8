import VisualNovel.Json.Basic

/-!
# The schema of manuscripts

`Manuscript.schema` is a JSON schema (draft 7) of the JSON values that are manuscripts. It describes
each record with its properties, which of them are required, and their types.
-/

namespace VisualNovel.Manuscript

namespace Schema

/-- An object with its keys in order. -/
def object (entries : List (String × Json)) : Json := .object (Json.orderEntries entries)

/-- A list of strings. -/
def strings (names : List String) : Json := .array (names.map .string)

/-- A JSON integer. -/
def integer (n : Int) : Json := .number (.integer n)

/-- A simple type. -/
def type (name : String) : Json := object [("type", .string name)]

/-- A simple type or null. -/
def nullable (name : String) : Json := object [("type", strings [name, "null"])]

/-- A reference to a definition of the schema. -/
def definition (name : String) : Json := object [("$ref", .string ("#/definitions/" ++ name))]

/-- A whole number of 32 bits. -/
def whole : Json :=
  object [("format", .string "uint32"), ("minimum", .number (.real 0)),
    ("type", .string "integer")]

/-- A single-precision number. -/
def single : Json := object [("format", .string "float"), ("type", .string "number")]

/-- The keywords of an array of two elements. -/
def pairOf (element : Json) (type : Json) : List (String × Json) :=
  [("items", element), ("maxItems", integer 2), ("minItems", integer 2), ("type", type)]

/-- An array of two elements or null. -/
def nullablePair (element : Json) : Json := object (pairOf element (strings ["array", "null"]))

/-- The keywords of a record. -/
def record (required : List String) (properties : List (String × Json)) : List (String × Json) :=
  [("properties", object properties), ("type", .string "object")]
    ++ (if required.isEmpty then [] else [("required", strings required)])

/-- An object with one key, whose value is defined under a name. -/
def variant (key name : String) : Json :=
  object (("additionalProperties", .bool false) :: record [key] [(key, definition name)])

/-- The definitions of the records below a manuscript. -/
def definitions : Json := object [
  ("ActorRaw", object (record ["name", "sheet", "sheetSize"] [
    ("name", type "string"),
    ("sheet", type "string"),
    ("sheetSize", object (("description", .string "`[columns, rows]`.")
      :: pairOf whole (.string "array")))])),
  ("BackgroundRaw", object (("description",
      .string "An empty string clears the image or stops the music.")
    :: record [] [("image", nullable "string"), ("music", nullable "string")])),
  ("CommandRaw", object [
    ("description", .string "Exactly one command kind per element."),
    ("oneOf", .array [variant "sprite" "SpriteRaw", variant "speak" "SpeakRaw",
      variant "wait" "WaitRaw", variant "background" "BackgroundRaw"])]),
  ("SpeakRaw", object (record ["actor"] [
    ("actor", type "string"),
    ("portrait", nullablePair whole),
    ("text", object [("default", .string ""), ("type", .string "string")])])),
  ("SpriteRaw", object (record ["id"] [
    ("actor", nullable "string"),
    ("hide", type "boolean"),
    ("id", type "string"),
    ("portrait", nullablePair whole),
    ("pos", nullablePair single),
    ("size", nullablePair single)])),
  ("WaitRaw", object (record ["time"] [("time", single)]))]

end Schema

/-- The JSON schema of manuscripts. -/
def schema : Json :=
  Schema.object ([
    ("$schema", .string "http://json-schema.org/draft-07/schema#"),
    ("definitions", Schema.definitions),
    ("description", .string "JSON-facing story script with symbolic ids."),
    ("title", .string "StoryScriptRaw")]
    ++ Schema.record ["actors", "commands"] [
      ("actors", Schema.object [
        ("additionalProperties", Schema.definition "ActorRaw"), ("type", .string "object")]),
      ("commands", Schema.object [
        ("items", Schema.definition "CommandRaw"), ("type", .string "array")])])

end VisualNovel.Manuscript
