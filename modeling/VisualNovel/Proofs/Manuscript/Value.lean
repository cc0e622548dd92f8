import VisualNovel.Manuscript.Basic
import VisualNovel.Proofs.Binary.Convert
import VisualNovel.Proofs.Json.Entries
import VisualNovel.Proofs.Script.Section

/-!
# The JSON value of what is written

Each reader of fields understands what is written for it: strings and booleans as they are, cells
and vectors by their two numbers. Since the keys of a record differ, a field is found under its key
in the ordered entries of the value (`find?_valueEntries`), and an optional field is absent exactly
if it was not written.

What the numbers become is left open (`valueOf`). It is enough that whole numbers stay as they are
and that a finite single is narrowed back to itself (`Faithful`), as it is in a JSON value and in
what a JSON text is read as.
-/

namespace VisualNovel.Manuscript

open Outcome

/-! ## Values of outlines -/

/-- The JSON value of a part of a manuscript, by what its numbers become. -/
def valueOf (number : Figure → Json.Number) (outline : Outline) : Json :=
  (outline.map number id).canonical

/-- The entries of the value of an object. -/
def valueEntries (number : Figure → Json.Number) (fields : List (String × Outline)) :
    List (String × Json) :=
  Json.orderEntries (fields.map fun field => (field.1, valueOf number field.2))

/-- Nothing is lost of whole numbers and finite singles. -/
structure Faithful (number : Figure → Json.Number) : Prop where
  whole : ∀ n, number (.whole n) = .integer n.toNat
  single : ∀ x : Single, x.isFinite → ∃ y, number (.single x) = .real y ∧ y.narrow = x

/-- The numbers of a JSON value are faithful: a single is widened, and narrowed back. -/
theorem faithful_toNumber : Faithful Figure.toNumber where
  whole _ := rfl
  single x _ := ⟨x.widen, rfl, Binary.narrow_widen x⟩

variable {number : Figure → Json.Number}

/-- An array is valued element by element. -/
theorem valueOf_array (elements : List Outline) :
    valueOf number (.array elements) = .array (elements.map (valueOf number)) := by
  rw [valueOf, Json.Tree.map_array, Json.Tree.canonical_array, List.map_map]
  rfl

/-- An object is valued field by field. -/
theorem valueOf_object (fields : List (String × Outline)) :
    valueOf number (.object fields) = .object (valueEntries number fields) := by
  rw [valueOf, Json.Tree.map_object, Json.Tree.canonical_object, List.map_map]
  rfl

/-- Under a key stands the value of the field with the key, if fields have keys of their own. -/
theorem find?_valueEntries (location : Location) {fields : List (String × Outline)}
    (h : (fields.map Prod.fst).Nodup) (key : String) :
    (Section.mk location (valueEntries number fields)).find? key =
      (fields.lookup key).map (valueOf number) := by
  rw [Section.find?, valueEntries, Json.lookup_orderEntries, Json.lookup_map]
  rw [List.map_map]
  exact h

/-! ## Fields of records -/

section Fields

variable {α : Type} {outline : α → Outline}

/-- An optional field is under its own key, if it is there, and under no other. -/
theorem lookup_optionalField (key other : String) (value : Option α) :
    (optionalField key outline value).lookup other =
      if other = key then value.map outline else none := by
  cases value with
  | none => simp [optionalField]
  | some value =>
    rw [optionalField, List.lookup_cons, List.lookup_nil]
    by_cases h : other = key
    · simp [h]
    · simp [h, beq_false_of_ne h]

/-- An optional field has its own key or none. -/
theorem keys_optionalField_sublist (key : String) (value : Option α) :
    ((optionalField key outline value).map Prod.fst).Sublist [key] := by
  cases value with
  | none => exact List.nil_sublist _
  | some value => exact List.Sublist.refl _

end Fields

/-- The fields of a sprite command have keys of their own. -/
theorem Sprite.nodup_keys (command : Sprite) : (command.fields.map Prod.fst).Nodup := by
  have hhide : ((if command.hide then [("hide", Json.Tree.bool true)] else [] :
      List (String × Outline)).map Prod.fst).Sublist ["hide"] := by
    cases command.hide with
    | false => exact List.nil_sublist _
    | true => exact List.Sublist.refl _
  -- whichever fields are left out, the keys are among these six
  have hsublist : (command.fields.map Prod.fst).Sublist
      (["id"] ++ ["hide"] ++ ["actor"] ++ ["portrait"] ++ ["pos"] ++ ["size"]) := by
    simp only [Sprite.fields, List.map_append]
    exact (((((List.Sublist.refl _).append hhide).append (keys_optionalField_sublist _ _)).append
      (keys_optionalField_sublist _ _)).append (keys_optionalField_sublist _ _)).append
      (keys_optionalField_sublist _ _)
  exact hsublist.nodup (by decide)

/-- The fields of a speak command have keys of their own. -/
theorem Speak.nodup_keys (command : Speak) : (command.fields.map Prod.fst).Nodup := by
  have hsublist : (command.fields.map Prod.fst).Sublist (["actor", "text"] ++ ["portrait"]) := by
    rw [Speak.fields, List.map_append]
    exact (List.Sublist.refl _).append (keys_optionalField_sublist _ _)
  exact hsublist.nodup (by decide)

/-- The fields of a background command have keys of their own. -/
theorem Background.nodup_keys (command : Background) : (command.fields.map Prod.fst).Nodup := by
  have hsublist : (command.fields.map Prod.fst).Sublist (["image"] ++ ["music"]) := by
    rw [Background.fields, List.map_append]
    exact (keys_optionalField_sublist _ _).append (keys_optionalField_sublist _ _)
  exact hsublist.nodup (by decide)

/-! ## Where fields stand -/

section Find

variable (location : Location)

/-- The fields of a sprite command: one under each key that was written. -/
theorem Sprite.find?_fields (command : Sprite) :
    let fields := Section.mk location (valueEntries number command.fields)
    fields.find? "id" = some (.string command.id) ∧
      fields.find? "hide" = (if command.hide then some (.bool true) else none) ∧
      fields.find? "actor" = (command.actor.map Json.Tree.string).map (valueOf number) ∧
      fields.find? "portrait" = (command.portrait.map outlineCell).map (valueOf number) ∧
      fields.find? "pos" = (command.pos.map outlineVector).map (valueOf number) ∧
      fields.find? "size" = (command.size.map outlineVector).map (valueOf number) := by
  have hhide (key : String) : ((if command.hide then [("hide", Json.Tree.bool true)] else [] :
      List (String × Outline)).lookup key) =
        if key = "hide" then (if command.hide then some (.bool true) else none) else none := by
    cases command.hide with
    | false => simp
    | true => by_cases h : key = "hide" <;> simp [List.lookup_cons, h, beq_false_of_ne]
  simp only [find?_valueEntries location command.nodup_keys]
  have hmap : ((if command.hide then some (.bool true) else none : Option Outline).map
      (valueOf number)) = if command.hide then some (.bool true) else none := by
    cases command.hide <;> rfl
  refine ⟨rfl, ?_, ?_, ?_, ?_, ?_⟩
  all_goals
    simp [Sprite.fields, List.lookup_append, lookup_optionalField, hhide, hmap, List.lookup_cons]

/-- The fields of a speak command: one under each key that was written. -/
theorem Speak.find?_fields (command : Speak) :
    let fields := Section.mk location (valueEntries number command.fields)
    fields.find? "actor" = some (.string command.actor) ∧
      fields.find? "text" = some (.string command.text) ∧
      fields.find? "portrait" = (command.portrait.map outlineCell).map (valueOf number) := by
  simp only [find?_valueEntries location command.nodup_keys]
  refine ⟨rfl, rfl, ?_⟩
  simp [Speak.fields, lookup_optionalField, List.lookup_cons]

/-- The fields of a background command: one under each key that was written. -/
theorem Background.find?_fields (command : Background) :
    let fields := Section.mk location (valueEntries number command.fields)
    fields.find? "image" = (command.image.map Json.Tree.string).map (valueOf number) ∧
      fields.find? "music" = (command.music.map Json.Tree.string).map (valueOf number) := by
  simp only [find?_valueEntries location command.nodup_keys]
  refine ⟨?_, ?_⟩
  all_goals simp [Background.fields, List.lookup_append, lookup_optionalField]

/-- The fields of an actor: one under each key. -/
theorem Actor.find?_fields (actor : Actor) :
    let fields := Section.mk location (valueEntries number actor.fields)
    fields.find? "name" = some (.string actor.name) ∧
      fields.find? "sheet" = some (.string actor.sheet) ∧
      fields.find? "sheetSize" = some (valueOf number (outlineCell actor.sheetSize)) := by
  have hnodup : (actor.fields.map Prod.fst).Nodup :=
    (by decide : ["name", "sheet", "sheetSize"].Nodup)
  simp only [find?_valueEntries location hnodup]
  exact ⟨rfl, rfl, rfl⟩

end Find

/-! ## What readers make of a value -/

/-- A field that was written, or not, is read back if its values are. -/
theorem optional_eq_ok {α : Type} {fields : Section} {key : String} {reader : FieldReader α}
    {outline : α → Outline} {value : Option α}
    (hfind : fields.find? key = (value.map outline).map (valueOf number))
    (hread : ∀ a ∈ value, reader (fields.location.key key) (valueOf number (outline a)) = .ok a) :
    fields.optional key reader = .ok value := by
  cases value with
  | none => exact Section.optional_eq_ok_none.mpr hfind
  | some a => exact Section.optional_eq_ok_some.mpr ⟨_, hfind, hread a rfl⟩

variable {location : Location}

/-- A written string is read back. -/
theorem string_valueOf (s : String) :
    FieldReader.string location (valueOf number (.string s)) = .ok s :=
  rfl

section Faithful

variable (hnumber : Faithful number)
include hnumber

/-- A written whole number is read back, if it is large enough. -/
theorem whole_valueOf {least : Nat} {u : UInt32} (h : least ≤ u.toNat) :
    FieldReader.whole least location (valueOf number (.number (.whole u))) = .ok u :=
  FieldReader.whole_eq_ok.mpr
    ⟨.integer u.toNat, congrArg Json.Tree.number (hnumber.whole u), rfl, h⟩

/-- Both numbers of a cell are read back if they are large enough. -/
theorem pair_valueOf {least : Nat} {cell : UInt32 × UInt32} (hfst : least ≤ cell.1.toNat)
    (hsnd : least ≤ cell.2.toNat) :
    FieldReader.pair (.whole least) location (valueOf number (outlineCell cell)) = .ok cell := by
  rw [outlineCell, valueOf_array, FieldReader.pair_eq_ok]
  exact ⟨_, _, rfl, whole_valueOf hnumber hfst, whole_valueOf hnumber hsnd⟩

/-- A finite number is narrowed back to what it was. -/
theorem single_valueOf {x : Single} (h : x.isFinite) :
    FieldReader.single location (valueOf number (outlineSingle x)) = .ok x := by
  obtain ⟨y, hy, hnarrow⟩ := hnumber.single x h
  rw [outlineSingle, if_pos h, FieldReader.single_eq_ok]
  exact ⟨.real y, congrArg Json.Tree.number hy, hnarrow, h⟩

/-- A written vector is read back, if it is finite. -/
theorem vector_valueOf {v : Vec2} (h : v.isFinite) :
    FieldReader.vector location (valueOf number (outlineVector (v.x, v.y))) = .ok v := by
  rw [Vec2.isFinite, Bool.and_eq_true] at h
  rw [outlineVector, valueOf_array, FieldReader.vector_eq_ok, FieldReader.pair_eq_ok]
  exact ⟨_, _, rfl, single_valueOf hnumber h.1, single_valueOf hnumber h.2⟩

/-- An optional position or size is read back if it is finite. -/
theorem optional_vector_eq_ok {fields : Section} {key : String} {value : Option Vec2}
    (hfind : fields.find? key =
      ((value.map fun v => (v.x, v.y)).map outlineVector).map (valueOf number))
    (hfinite : ∀ v ∈ value, v.isFinite) : fields.optional key .vector = .ok value := by
  rw [Option.map_map outlineVector] at hfind
  exact optional_eq_ok hfind fun v hv => vector_valueOf hnumber (hfinite v hv)

end Faithful

/-! ## Whole manuscripts -/

/-- A command is an object with the key of its kind. -/
theorem valueOf_outline (command : Command) :
    valueOf number command.outline =
      .object [(command.kind.key, .object (valueEntries number command.fields))] := by
  rw [Command.outline, valueOf_object, valueEntries, List.map_singleton, valueOf_object]
  rfl

/-- The value of a manuscript whose cast is in order. -/
theorem valueOf_manuscript {manuscript : Manuscript} (h : Json.KeysIncrease manuscript.actors) :
    valueOf number manuscript.outline = .object
      [("actors", .object (manuscript.actors.map fun entry =>
          (entry.1, .object (valueEntries number entry.2.fields)))),
        ("commands", .array (manuscript.commands.map fun command =>
          valueOf number command.outline))] := by
  -- the keys of the cast and the two outer keys are in order already
  have hcast : valueEntries number
      (manuscript.actors.map fun entry => (entry.1, .object entry.2.fields)) =
        manuscript.actors.map fun entry =>
          (entry.1, .object (valueEntries number entry.2.fields)) := by
    rw [valueEntries, List.map_map, Json.orderEntries_eq_self]
    · exact List.map_congr_left fun entry _ => by rw [Function.comp_apply, valueOf_object]
    · rw [Json.KeysIncrease, List.map_map]
      exact h
  rw [outline, valueOf_object, valueEntries]
  simp only [List.map_cons, List.map_nil, valueOf_object, valueOf_array, List.map_map, hcast]
  rw [Json.orderEntries_eq_self]
  · rfl
  · exact (by decide : ["actors", "commands"].Pairwise (· < ·))

end VisualNovel.Manuscript
