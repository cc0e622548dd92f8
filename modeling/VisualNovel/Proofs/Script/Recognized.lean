import VisualNovel.Proofs.Outcome
import VisualNovel.Script.Loader

/-!
# Keys that are not recognized

The format of scripts names the keys of a script, of an actor, of a command and of the body of each
kind of command. `Script.recognized` erases all other keys from a JSON value, on each of these
levels. A load does not see them: with or without them it gives the same script or the same error
(`load_recognized`).

A level is given by a table of its keys that says what becomes of the value of each
(`Json.restrict`), and on each level what is looked up is found (`Json.lookup_restrictEntries`).
-/

namespace VisualNovel

open Outcome

/-! ## Keeping the keys of a table -/

namespace Json

/-- The entries whose keys are in a table, with their values changed as the table says. -/
def restrictEntries (table : List (String × (Json → Json))) (entries : List (String × Json)) :
    List (String × Json) :=
  entries.filterMap fun entry => (table.lookup entry.1).map fun change => (entry.1, change entry.2)

/-- Erases the entries of an object whose keys are not in a table. What is no object stays as it
is. -/
def restrict (table : List (String × (Json → Json))) : Json → Json
  | .object entries => .object (restrictEntries table entries)
  | value => value

/-- A table of keys whose values stay as they are. -/
def keysOnly (keys : List String) : List (String × (Json → Json)) := keys.map (·, id)

/-- A key that is kept leads to no change. -/
theorem lookup_keysOnly {keys : List String} {key : String} (h : key ∈ keys) :
    (keysOnly keys).lookup key = some id := by
  induction keys with
  | nil => exact absurd h List.not_mem_nil
  | cons first rest ih =>
    rw [keysOnly, List.map_cons, List.lookup_cons]
    by_cases hkey : key = first
    · rw [hkey, beq_self_eq_true]
    · rw [beq_false_of_ne hkey]
      exact ih ((List.mem_cons.mp h).resolve_left hkey)

/-- The key of a table has the value that it had, changed as the table says. -/
theorem lookup_restrictEntries {table : List (String × (Json → Json))} {key : String}
    {change : Json → Json} (h : table.lookup key = some change) (entries : List (String × Json)) :
    (restrictEntries table entries).lookup key = (entries.lookup key).map change := by
  induction entries with
  | nil => rfl
  | cons entry rest ih =>
    obtain ⟨other, value⟩ := entry
    rw [restrictEntries, List.filterMap_cons, List.lookup_cons]
    by_cases hkey : key = other
    · subst hkey
      rw [h, beq_self_eq_true]
      exact List.lookup_cons_self
    · rw [beq_false_of_ne hkey]
      cases table.lookup other with
      | none => exact ih
      | some kept =>
        rw [Option.map_some, List.lookup_cons, beq_false_of_ne hkey]
        exact ih

end Json

/-! ## The format -/

/-- The keys of the body of a command. -/
def CommandKind.fields : CommandKind → List String
  | sprite => ["id", "hide", "actor", "portrait", "pos", "size"]
  | speak => ["actor", "text", "portrait"]
  | wait => ["time"]
  | background => ["image", "music"]

namespace Script

open Json

/-- The keys of the kinds of commands, and the bodies under them with their keys. -/
def commandTable : List (String × (Json → Json)) :=
  CommandKind.all.map fun kind => (kind.key, restrict (keysOnly kind.fields))

/-- A command with recognized keys only. -/
def recognizedCommand : Json → Json := restrict commandTable

/-- The entry of an actor with recognized keys only. -/
def recognizedActor : Json → Json := restrict (keysOnly ["name", "sheet", "sheetSize"])

/-- A cast with recognized keys only; the ids are all recognized. -/
def recognizedCast : Json → Json
  | .object entries => .object (entries.map fun entry => (entry.1, recognizedActor entry.2))
  | value => value

/-- A list of commands with recognized keys only. -/
def recognizedCommands : Json → Json
  | .array commands => .array (commands.map recognizedCommand)
  | value => value

/-- The keys of a script, and the cast and the commands under them with their keys. -/
def scriptTable : List (String × (Json → Json)) :=
  [("actors", recognizedCast), ("commands", recognizedCommands)]

/-- A script with recognized keys only. -/
def recognized : Json → Json := restrict scriptTable

end Script

/-! ## Fields that agree -/

namespace Section

variable {α : Type} {keys : List String} {fields others : Section}

/-- Fields at one place that have the same values for some keys. -/
structure Agree (keys : List String) (fields others : Section) : Prop where
  location_eq : fields.location = others.location
  find?_eq : ∀ key ∈ keys, fields.find? key = others.find? key

namespace Agree

variable (h : Agree keys fields others) {key : String} (hkey : key ∈ keys) (reader : FieldReader α)
include h hkey

/-- A required field is read alike from fields that agree on its key. -/
theorem required_eq : fields.required key reader = others.required key reader := by
  rw [required.eq_def, required.eq_def, h.find?_eq key hkey, h.location_eq]

/-- An optional field is read alike from fields that agree on its key. -/
theorem optional_eq : fields.optional key reader = others.optional key reader := by
  rw [optional.eq_def, optional.eq_def, h.find?_eq key hkey, h.location_eq]

end Agree

/-- Fields agree with themselves on the keys that are kept. -/
theorem agree_restrict (keys : List String) (location : Location)
    (entries : List (String × Json)) :
    Agree keys ⟨location, Json.restrictEntries (Json.keysOnly keys) entries⟩
      ⟨location, entries⟩ where
  location_eq := rfl
  find?_eq key hkey := by
    rw [find?, find?, Json.lookup_restrictEntries (Json.lookup_keysOnly hkey), Option.map_id_apply]

end Section

namespace Script

open Json Section

variable {limits : Limits} {script : Script} {fields others : Section}

/-- A portrait depends on its own field only. -/
theorem resolvePortrait_congr {keys : List String} (h : Agree keys fields others)
    (hkey : "portrait" ∈ keys) (actor : Option Nat) :
    script.resolvePortrait fields actor = script.resolvePortrait others actor := by
  simp only [resolvePortrait, h.optional_eq hkey, h.location_eq]

/-- An asset depends on its own field only. -/
theorem resolveAsset_congr {keys : List String} (h : Agree keys fields others) {key : String}
    (hkey : key ∈ keys) (kind : ReferenceKind) (pool : Pool String) :
    resolveAsset kind pool fields key = resolveAsset kind pool others key := by
  simp only [resolveAsset, h.optional_eq hkey, h.location_eq]

/-- What a body comes to depends on the keys of its kind. -/
theorem resolveBody_congr {kind : CommandKind} (h : Agree kind.fields fields others) :
    script.resolveBody limits kind fields = script.resolveBody limits kind others := by
  cases kind with
  | sprite =>
    simp only [resolveBody, resolveSprite, resolveActor, h.location_eq,
      h.required_eq (by decide : "id" ∈ _), h.optional_eq (by decide : "actor" ∈ _),
      h.optional_eq (by decide : "hide" ∈ _), h.optional_eq (by decide : "pos" ∈ _),
      h.optional_eq (by decide : "size" ∈ _), resolvePortrait_congr h (by decide)]
  | speak =>
    simp only [resolveBody, resolveSpeak, resolveActor, h.location_eq,
      h.required_eq (by decide : "actor" ∈ _), h.optional_eq (by decide : "text" ∈ _),
      resolvePortrait_congr h (by decide)]
  | wait =>
    simp only [resolveBody, resolveWait, h.location_eq, h.required_eq (by decide : "time" ∈ _)]
  | background =>
    simp only [resolveBody, resolveBackground, resolveAsset_congr h (by decide : "image" ∈ _),
      resolveAsset_congr h (by decide : "music" ∈ _)]

/-- A mentioned name depends on its own field only. -/
theorem mentionedName?_congr {keys : List String} (h : Agree keys fields others) {key : String}
    (hkey : key ∈ keys) : mentionedName? limits fields key = mentionedName? limits others key := by
  simp only [mentionedName?, h.optional_eq hkey, h.location_eq]

/-! ## Erasing keys -/

/-- Under the key of a kind, the fields of that kind are kept. -/
theorem lookup_commandTable (kind : CommandKind) :
    commandTable.lookup kind.key = some (restrict (keysOnly kind.fields)) := by
  cases kind <;> rfl

/-- A body may be any value; if it is an object, its other keys do not matter. -/
theorem object_bind_restrict {α : Type} {keys : List String} {location : Location} {value : Json}
    {f : Section → Except Error α}
    (h : ∀ fields others, Agree keys fields others → f fields = f others) :
    (FieldReader.object location (restrict (keysOnly keys) value) >>= f) =
      (FieldReader.object location value >>= f) := by
  cases value with
  | object entries => exact h _ _ (agree_restrict keys location entries)
  | _ => rfl

/-- A command mentions the same sprite without its other keys. -/
theorem mentionedSprite?_recognized (place : Nat) (command : Json) :
    mentionedSprite? limits place (recognizedCommand command) =
      mentionedSprite? limits place command := by
  cases command with
  | object entries =>
    simp only [mentionedSprite?, recognizedCommand, restrict, FieldReader.object, ok_bind, find?,
      lookup_restrictEntries (lookup_commandTable .sprite)]
    cases entries.lookup CommandKind.sprite.key with
    | none => rfl
    | some body =>
      refine object_bind_restrict fun fields others h => ?_
      simp only [h.location_eq, h.required_eq (by decide : "id" ∈ _)]
  | _ => rfl

/-- A command mentions the same image and track without its other keys. -/
theorem mentionedAssets_recognized (place : Nat) (command : Json) :
    mentionedAssets limits place (recognizedCommand command) =
      mentionedAssets limits place command := by
  cases command with
  | object entries =>
    simp only [mentionedAssets, recognizedCommand, restrict, FieldReader.object, ok_bind, find?,
      lookup_restrictEntries (lookup_commandTable .background)]
    cases entries.lookup CommandKind.background.key with
    | none => rfl
    | some body =>
      refine object_bind_restrict fun fields others h => ?_
      simp only [mentionedName?_congr h (by decide : "image" ∈ _),
        mentionedName?_congr h (by decide : "music" ∈ _)]
  | _ => rfl

/-- Without its other keys, a command is of the same kinds. -/
theorem presentKinds_restrict (location : Location) (entries : List (String × Json)) :
    presentKinds ⟨location, restrictEntries commandTable entries⟩ =
      (presentKinds ⟨location, entries⟩).map fun present =>
        (present.1, restrict (keysOnly present.1.fields) present.2) := by
  rw [presentKinds, presentKinds, List.map_filterMap]
  refine List.filterMap_congr fun kind _ => ?_
  simp only [find?, lookup_restrictEntries (lookup_commandTable kind), Option.map_map]
  rfl

/-- A command is resolved alike without its other keys. -/
theorem resolveCommand_recognized (place : Nat) (command : Json) :
    script.resolveCommand limits place (recognizedCommand command) =
      script.resolveCommand limits place command := by
  cases command with
  | object entries =>
    simp only [resolveCommand, recognizedCommand, restrict, FieldReader.object, ok_bind,
      presentKinds_restrict]
    cases presentKinds ⟨.command place, entries⟩ with
    | nil => rfl
    | cons first rest =>
      cases rest with
      | nil => exact object_bind_restrict fun _ _ h => resolveBody_congr h
      | cons second rest => rfl
  | _ => rfl

/-- An actor loads alike without its other keys. -/
theorem loadActor_recognized (id : String) (value : Json) :
    loadActor limits id (recognizedActor value) = loadActor limits id value := by
  refine congrArg (limits.checkId (.actor id) id >>= ·) (funext fun _ => ?_)
  refine object_bind_restrict fun fields others h => ?_
  simp only [h.required_eq (by decide : "name" ∈ _), h.required_eq (by decide : "sheet" ∈ _),
    h.required_eq (by decide : "sheetSize" ∈ _)]

/-- An entry of the cast is added alike without its other keys. -/
theorem addCastEntry_recognized (entry : String × Json) :
    addCastEntry limits script (entry.1, recognizedActor entry.2) =
      addCastEntry limits script entry := by
  simp only [addCastEntry, loadActor_recognized]

/-- A cast loads alike without the other keys of its actors. -/
theorem loadCast_recognized (value : Json) :
    loadCast limits (recognizedCast value) = loadCast limits value := by
  cases value with
  | object entries =>
    simp only [loadCast, recognizedCast, FieldReader.object, ok_bind, List.length_map,
      List.foldlM_map, addCastEntry_recognized]
  | _ => rfl

/-- What is the same for each changed command is the same for all of them. -/
theorem forEachCommand_map {α : Type} {change : Json → Json} {f : Nat → Json → Except Error α}
    (h : ∀ place command, f place (change command) = f place command) (commands : List Json) :
    forEachCommand (commands.map change) f = forEachCommand commands f := by
  rw [forEachCommand, forEachCommand, List.zipIdx_map, List.mapM_map]
  exact congrArg (commands.zipIdx.mapM ·) (funext fun entry => h entry.2 entry.1)

/-- Keys that are not recognized are inert: whether they are in a value or erased from it, it loads
as the same script or is refused with the same error. -/
theorem load_recognized (limits : Limits) (value : Json) :
    load limits (recognized value) = load limits value := by
  cases value with
  | object entries =>
    have hcast : scriptTable.lookup "actors" = some recognizedCast := rfl
    have hcommands : scriptTable.lookup "commands" = some recognizedCommands := rfl
    simp only [load, recognized, restrict, FieldReader.object, ok_bind, required, find?,
      lookup_restrictEntries hcast, lookup_restrictEntries hcommands]
    cases entries.lookup "actors" with
    | none => rfl
    | some cast =>
      cases entries.lookup "commands" with
      | none => rfl
      | some commands =>
        cases commands with
        | array commands =>
          simp only [Option.map_some, recognizedCommands, FieldReader.array, ok_bind,
            List.length_map, loadCast_recognized, forEachCommand_map mentionedSprite?_recognized,
            forEachCommand_map mentionedAssets_recognized,
            forEachCommand_map resolveCommand_recognized]
        | _ => rfl
  | _ => rfl

/-- Keys are erased on the level where they are not recognized: a name means nothing to a wait. -/
example :
    recognized (.object [("commands", .array [.object [("wait", .object
      [("name", .string "pause"), ("time", .number (.integer 1))])]]), ("title", .string "Dusk")]) =
      .object [("commands", .array [.object [("wait", .object
        [("time", .number (.integer 1))])]])] := rfl

end Script

end VisualNovel
