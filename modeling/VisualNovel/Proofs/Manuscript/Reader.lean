import VisualNovel.Manuscript.Reader
import VisualNovel.Proofs.Manuscript.Value

/-!
# What is read as a manuscript

For each type of a field, the JSON values that are read as it, and for each record what its fields
have to be. In a JSON value keys differ, so a field is what is found under its key
(`fields?_source`).

A string, a boolean or a cell is read from the one value that is written for it. A single is also
read from other numbers: `Json.Number.toSingle` rounds them, an integer at once and not by way of a
double.
-/

namespace VisualNovel

open Outcome

/-- The single nearest to a number: an integer is rounded once. -/
def Json.Number.toSingle : Json.Number → Single
  | integer n => .ofInt n
  | real x => x.narrow

namespace Manuscript

open Record

/-- A JSON value as a tree of which everything is understood. -/
def source (value : Json) : Source := value.map some some

/-- An array becomes the array of what its elements become. -/
theorem source_array (elements : List Json) :
    source (.array elements) = .array (elements.map source) :=
  Json.Tree.map_array some some elements

/-- An object keeps its keys, with what its values become. -/
theorem source_object (entries : List (String × Json)) :
    source (.object entries) =
      .object (entries.map fun entry => (some entry.1, source entry.2)) :=
  Json.Tree.map_object some some entries

/-! ## Single values -/

namespace Reader

variable {α : Type} {value : Json}

/-- A string is read just from one. -/
theorem string_eq_some_iff {s : String} : string (source value) = some s ↔ value = .string s := by
  cases value <;> simp [source, Json.Tree.map, string]

/-- A truth value is read just from one. -/
theorem bool_eq_some_iff {b : Bool} : bool (source value) = some b ↔ value = .bool b := by
  cases value <;> simp [source, Json.Tree.map, bool]

/-- A single is read from a number, whichever it is, and is the nearest to it. -/
theorem single_eq_some_iff {x : Single} :
    single (source value) = some x ↔ ∃ n : Json.Number, value = .number n ∧ n.toSingle = x := by
  cases value with
  | number n =>
    simp only [Json.Tree.number.injEq, exists_eq_left']
    cases n <;> simp [source, Json.Tree.map, single, Json.Number.toSingle]
  | _ => simp [source, Json.Tree.map, single]

/-- A whole number is read just from an integer of 32 bits. -/
theorem whole_eq_some_iff {u : UInt32} :
    whole (source value) = some u ↔ value = .number (.integer u.toNat) := by
  cases value with
  | number n =>
    cases n with
    | real x => simp [source, Json.Tree.map, whole]
    | integer i =>
      simp only [source, Json.Tree.map, whole, Option.bind_eq_some_iff, toUInt32?_eq_some_iff,
        Json.Tree.number.injEq, Json.Number.integer.injEq]
      constructor
      · rintro ⟨n, hn, rfl⟩
        exact Int.mem_toNat?.mp hn
      · intro hi
        exact ⟨u.toNat, Int.mem_toNat?.mpr hi, rfl⟩
  | _ => simp [source, Json.Tree.map, whole]

/-- A pair is read just from an array of two, element by element. -/
theorem pair_eq_some_iff {element : Reader α} {result : α × α} :
    pair element (source value) = some result ↔
      ∃ a b, value = .array [a, b] ∧ element (source a) = some result.1 ∧
        element (source b) = some result.2 := by
  obtain ⟨x, y⟩ := result
  cases value with
  | array elements =>
    rw [source_array]
    match elements with
    | [a, b] =>
      simp only [List.map_cons, List.map_nil, pair, Option.bind_eq_bind, Option.bind_eq_some_iff,
        Option.pure_def, Option.some.injEq, Prod.mk.injEq, Json.Tree.array.injEq, List.cons.injEq,
        and_true]
      constructor
      · rintro ⟨x', hx, y', hy, rfl, rfl⟩
        exact ⟨a, b, ⟨rfl, rfl⟩, hx, hy⟩
      · rintro ⟨a, b, ⟨rfl, rfl⟩, hx, hy⟩
        exact ⟨x, hx, y, hy, rfl, rfl⟩
    | [] => simp [pair]
    | [_] => simp [pair]
    | _ :: _ :: _ :: _ => simp [pair]
  | _ => simp [source, Json.Tree.map, pair]

/-- A list is read just from an array, element by element. -/
theorem list_eq_some_iff {element : Reader α} {result : List α} :
    list element (source value) = some result ↔ ∃ elements, value = .array elements ∧
      List.Forall₂ (fun a b => element (source a) = some b) elements result := by
  cases value with
  | array elements =>
    rw [source_array, list, mapM_eq_some_iff, List.forall₂_map_left_iff]
    simp only [Json.Tree.array.injEq, exists_eq_left']
  | _ => simp [source, Json.Tree.map, list]

/-- `null` is read as nothing; every other value has to be understood. -/
theorem optional_eq_some_iff {reader : Reader α} {result : Option α} :
    optional reader (source value) = some result ↔
      (value = .null ∧ result = none) ∨
        ∃ a, value ≠ .null ∧ reader (source value) = some a ∧ result = some a := by
  have hvalue (tree : Source) :
      (reader tree).map some = some result ↔ ∃ a, reader tree = some a ∧ result = some a := by
    simp only [Option.map_eq_some_iff, eq_comm]
  cases value with
  | null => simp [source, Json.Tree.map, optional, eq_comm]
  | _ => simp [source, Json.Tree.map, optional, hvalue]

/-- A cell is read from what is written for it, and from nothing else. -/
theorem cell_eq_some_iff {cell : UInt32 × UInt32} :
    pair whole (source value) = some cell ↔ value = valueOf Figure.toNumber (outlineCell cell) := by
  simp only [pair_eq_some_iff, whole_eq_some_iff, outlineCell, valueOf_array]
  constructor
  · rintro ⟨a, b, rfl, rfl, rfl⟩
    rfl
  · rintro rfl
    exact ⟨_, _, rfl, rfl, rfl⟩

end Reader

/-! ## Fields of an object -/

section Fields

variable {α : Type} {entries : List (String × Json)}

/-- Among keys that differ, a field is found where the object has it. -/
theorem valueOf?_source (h : (entries.map Prod.fst).Nodup) (key : String) :
    valueOf? key (entries.map fun entry => (some entry.1, source entry.2)) =
      some ((entries.lookup key).map source) := by
  induction entries with
  | nil => rfl
  | cons entry rest ih =>
    obtain ⟨other, value⟩ := entry
    rw [List.map_cons, List.nodup_cons] at h
    rw [List.map_cons, valueOf?, List.lookup_cons]
    by_cases hkey : key = other
    · -- the key does not come again
      have hrest : (rest.map fun entry => (some entry.1, source entry.2)).filter
          (·.1 = some key) = [] := by
        rw [List.filter_eq_nil_iff, List.forall_mem_map]
        intro entry hentry heq
        refine h.1 (List.mem_map.mpr ⟨entry, hentry, ?_⟩)
        rw [← hkey, Option.some.inj (of_decide_eq_true heq)]
      rw [List.filter_cons_of_pos (by simp [hkey]), hrest]
      simp [hkey]
    · rw [List.filter_cons_of_neg (by simpa using Ne.symm hkey), beq_false_of_ne hkey]
      exact ih h.2

/-- What is read under a key. -/
def field (entries : List (String × Json)) (key : String) : Option Source :=
  (entries.lookup key).map source

/-- The fields of an object are what is found under their keys. -/
theorem fields?_source (h : (entries.map Prod.fst).Nodup) (names : List String) :
    fields? names (source (.object entries)) = some (names.map (field entries)) := by
  have hkeys : (entries.map fun entry => (some entry.1, source entry.2)).all (·.1.isSome) := by
    simp
  rw [source_object, fields?, if_pos hkeys]
  simp only [valueOf?_source h]
  exact List.mapM_pure

variable {key : String} {reader : Reader α}

/-- A required field is read just if it is there and its reader succeeds. -/
theorem required_eq_some_iff {a : α} :
    required reader (field entries key) = some a ↔
      ∃ value, entries.lookup key = some value ∧ reader (source value) = some a := by
  rw [field]
  cases entries.lookup key <;> simp [required]

/-- A field with a default has it just if it is missing; otherwise its reader decides. -/
theorem defaulted_eq_some_iff {default a : α} :
    defaulted reader default (field entries key) = some a ↔
      (entries.lookup key = none ∧ default = a) ∨
        ∃ value, entries.lookup key = some value ∧ reader (source value) = some a := by
  rw [field]
  cases entries.lookup key <;> simp [defaulted]

end Fields

/-! ## Records -/

section Records

variable {entries : List (String × Json)} (h : (entries.map Prod.fst).Nodup)
include h

/-- An actor is read field by field. -/
theorem readActor_eq_some_iff {actor : Actor} :
    readActor (source (.object entries)) = some actor ↔
      required .string (field entries "name") = some actor.name ∧
        required .string (field entries "sheet") = some actor.sheet ∧
        required (.pair .whole) (field entries "sheetSize") = some actor.sheetSize := by
  simp only [readActor, fields?_source h, List.map_cons, List.map_nil, Option.bind_eq_bind,
    Option.bind_some, Option.bind_eq_some_iff, Option.pure_def, Option.some.injEq]
  constructor
  · rintro ⟨_, hname, _, hsheet, _, hsize, rfl⟩
    exact ⟨hname, hsheet, hsize⟩
  · rintro ⟨hname, hsheet, hsize⟩
    exact ⟨_, hname, _, hsheet, _, hsize, rfl⟩

/-- A sprite command is read field by field, and only its id has to be there. -/
theorem readSprite_eq_some_iff {command : Sprite} :
    readSprite (source (.object entries)) = some command ↔
      required .string (field entries "id") = some command.id ∧
        defaulted .bool false (field entries "hide") = some command.hide ∧
        defaulted (.optional .string) none (field entries "actor") = some command.actor ∧
        defaulted (.optional (.pair .whole)) none (field entries "portrait") =
          some command.portrait ∧
        defaulted (.optional (.pair .single)) none (field entries "pos") = some command.pos ∧
        defaulted (.optional (.pair .single)) none (field entries "size") = some command.size := by
  simp only [readSprite, fields?_source h, List.map_cons, List.map_nil, Option.bind_eq_bind,
    Option.bind_some, Option.bind_eq_some_iff, Option.pure_def, Option.some.injEq]
  constructor
  · rintro ⟨_, hid, _, hhide, _, hactor, _, hportrait, _, hpos, _, hsize, rfl⟩
    exact ⟨hid, hhide, hactor, hportrait, hpos, hsize⟩
  · rintro ⟨hid, hhide, hactor, hportrait, hpos, hsize⟩
    exact ⟨_, hid, _, hhide, _, hactor, _, hportrait, _, hpos, _, hsize, rfl⟩

/-- A speak command is read field by field, and only its actor has to be there. -/
theorem readSpeak_eq_some_iff {command : Speak} :
    readSpeak (source (.object entries)) = some command ↔
      required .string (field entries "actor") = some command.actor ∧
        defaulted .string "" (field entries "text") = some command.text ∧
        defaulted (.optional (.pair .whole)) none (field entries "portrait") =
          some command.portrait := by
  obtain ⟨actor, text, portrait⟩ := command
  simp [readSpeak, fields?_source h, Option.bind_eq_some_iff]

/-- A wait is read from its time. -/
theorem readWait_eq_some_iff {time : Single} :
    readWait (source (.object entries)) = some time ↔
      required .single (field entries "time") = some time := by
  simp [readWait, fields?_source h]

/-- A background command is read field by field, and none has to be there. -/
theorem readBackground_eq_some_iff {command : Background} :
    readBackground (source (.object entries)) = some command ↔
      defaulted (.optional .string) none (field entries "image") = some command.image ∧
        defaulted (.optional .string) none (field entries "music") = some command.music := by
  obtain ⟨image, music⟩ := command
  simp [readBackground, fields?_source h, Option.bind_eq_some_iff]

/-- A manuscript is read from its cast and its commands, which both have to be there. -/
theorem read_eq_some_iff {manuscript : Manuscript} :
    read (source (.object entries)) = some manuscript ↔
      required readCast (field entries "actors") = some manuscript.actors ∧
        required (.list readCommand) (field entries "commands") = some manuscript.commands := by
  obtain ⟨actors, commands⟩ := manuscript
  simp [read, fields?_source h, Option.bind_eq_some_iff]

end Records

/-! ## Casts and commands -/

/-- A cast in the order of its keys is read entry by entry. -/
theorem readCast_eq_some_iff {entries : List (String × Json)} (h : Json.KeysIncrease entries)
    {cast : List (String × Actor)} :
    readCast (source (.object entries)) = some cast ↔
      List.Forall₂ (fun entry actor => entry.1 = actor.1 ∧
        readActor (source entry.2) = some actor.2) entries cast := by
  have hentry (entry : String × Json) (actor : String × Actor) :
      readCastEntry (some entry.1, source entry.2) = some actor ↔
        entry.1 = actor.1 ∧ readActor (source entry.2) = some actor.2 := by
    obtain ⟨id, actor⟩ := actor
    simp only [readCastEntry, Option.bind_eq_bind, Option.bind_some, Option.bind_eq_some_iff,
      Option.pure_def, Option.some.injEq, Prod.mk.injEq]
    constructor
    · rintro ⟨_, hread, hid, rfl⟩
      exact ⟨hid, hread⟩
    · rintro ⟨hid, hread⟩
      exact ⟨_, hread, hid, rfl⟩
  rw [source_object, readCast, Option.map_eq_some_iff]
  simp only [mapM_eq_some_iff, List.forall₂_map_left_iff, hentry]
  -- the keys of what is read are those of the value, which are in order already
  have hordered : ∀ {actors : List (String × Actor)}, List.Forall₂ (fun entry actor =>
      entry.1 = actor.1 ∧ readActor (source entry.2) = some actor.2) entries actors →
        Json.orderEntries actors = actors := by
    intro actors hactors
    have hkeys : entries.map Prod.fst = actors.map Prod.fst :=
      forall₂_eq_iff_map_eq.mp (hactors.imp fun _ _ hactor => hactor.1)
    apply Json.orderEntries_eq_self
    rwa [Json.KeysIncrease, ← hkeys]
  constructor
  · rintro ⟨actors, hactors, rfl⟩
    rwa [hordered hactors]
  · intro hactors
    exact ⟨cast, hactors, hordered hactors⟩

/-- A cast that was read is in the order of its keys. -/
theorem keysIncrease_of_readCast {tree : Source} {cast : List (String × Actor)}
    (h : readCast tree = some cast) : Json.KeysIncrease cast := by
  cases tree with
  | object entries =>
    obtain ⟨actors, -, rfl⟩ := Option.map_eq_some_iff.mp h
    exact Json.keysIncrease_orderEntries actors
  | _ => exact absurd h nofun

/-- A command is read from the tree of its body. -/
def Command.ReadFrom (body : Source) : Command → Prop
  | .sprite command => readSprite body = some command
  | .speak command => readSpeak body = some command
  | .wait time => readWait body = some time
  | .background command => readBackground body = some command

/-- A command stands under the key of its kind, alone. -/
theorem readCommand_eq_some_iff {value : Json} {command : Command} :
    readCommand (source value) = some command ↔
      ∃ body, value = .object [(command.kind.key, body)] ∧ command.ReadFrom (source body) := by
  constructor
  · intro h
    cases value with
    | object entries =>
      rw [source_object] at h
      match entries with
      | [] => exact absurd h nofun
      | _ :: _ :: _ => exact absurd h nofun
      | [(key, body)] =>
        rw [List.map_singleton, readCommand] at h
        cases hkind : CommandKind.all.find? (·.key = key) with
        | none =>
          rw [hkind] at h
          exact absurd h nofun
        | some kind =>
          -- the reader is chosen by the key, which then is that of its kind
          have hkey := List.find?_some hkind
          obtain rfl : kind.key = key := of_decide_eq_true hkey
          rw [hkind] at h
          refine ⟨body, ?_⟩
          cases kind with
          | sprite =>
            obtain ⟨_, hread, rfl⟩ := Option.map_eq_some_iff.mp h
            exact ⟨rfl, hread⟩
          | speak =>
            obtain ⟨_, hread, rfl⟩ := Option.map_eq_some_iff.mp h
            exact ⟨rfl, hread⟩
          | wait =>
            obtain ⟨_, hread, rfl⟩ := Option.map_eq_some_iff.mp h
            exact ⟨rfl, hread⟩
          | background =>
            obtain ⟨_, hread, rfl⟩ := Option.map_eq_some_iff.mp h
            exact ⟨rfl, hread⟩
    | _ => exact absurd h nofun
  · rintro ⟨body, rfl, hread⟩
    rw [source_object, List.map_singleton]
    cases command with
    | sprite command => exact Option.map_eq_some_iff.mpr ⟨command, hread, rfl⟩
    | speak command => exact Option.map_eq_some_iff.mpr ⟨command, hread, rfl⟩
    | wait time => exact Option.map_eq_some_iff.mpr ⟨time, hread, rfl⟩
    | background command => exact Option.map_eq_some_iff.mpr ⟨command, hread, rfl⟩

end Manuscript

end VisualNovel
