import VisualNovel.Proofs.Binary.Order
import VisualNovel.Proofs.Location
import VisualNovel.Proofs.Script.Mentioned

/-!
# What the errors of a load say

An error of a load tells the truth about the value that was to be loaded: there is such a location
in it, and what is there, or is not, is what the text of the error says (`load_truthful`).
`Diagnosis` has the words of each message and their meaning, by what the value holds; no reader
comes into it.

A reader is given a value and, apart from it, the location that its error will name, so what is
carried through all of them is that the value is the one at this location (`Stands`). Errors about
the cast and about portraits need the cast that was loaded to be the one in the value (`HasCast`).
Sprites, backgrounds and tracks are never unknown, because the commands were searched for them
before.
-/

namespace VisualNovel

open Outcome Grammar

/-! ## Truthful errors -/

/-- A number of a JSON value is below zero. -/
def Json.Number.Negative : Json.Number → Prop
  | .integer n => n < 0
  | .real x => x < 0

/-- What is below zero once it is narrowed was so before. -/
theorem Json.Number.negative_of_narrow {n : Json.Number} (h : n.toDouble.narrow < 0) :
    n.Negative := by
  cases n with
  | integer n => exact Binary.lt_zero_of_ofInt_lt_zero (Binary.lt_zero_of_narrow_lt_zero h)
  | real x => exact Binary.lt_zero_of_narrow_lt_zero h

/-- A message tells the truth about a value at a location. Each case has the words of a message, and
what these words mean; messages that have no case are never given for a JSON value. -/
inductive Diagnosis (root : Json) : Location → String → Prop
  /-- There is an object around the location, without the key. -/
  | missingField {parent : Location} {key : String} {entries : List (String × Json)} :
    root.at? parent = some (.object entries) → entries.lookup key = none →
    Diagnosis root (parent.key key) "missing required field"
  | expectedObject {location : Location} {value : Json} : root.at? location = some value →
    (∀ entries, value ≠ .object entries) → Diagnosis root location "expected object"
  | expectedArray {location : Location} {value : Json} : root.at? location = some value →
    (∀ elements, value ≠ .array elements) → Diagnosis root location "expected array"
  | expectedPair {location : Location} {elements : List Json} :
    root.at? location = some (.array elements) → elements.length ≠ 2 →
    Diagnosis root location "expected array of two elements"
  | expectedString {location : Location} {value : Json} : root.at? location = some value →
    (∀ s, value ≠ .string s) → Diagnosis root location "expected string"
  | expectedNonEmptyString {location : Location} : root.at? location = some (.string "") →
    Diagnosis root location "expected non-empty string"
  | expectedBoolean {location : Location} {value : Json} : root.at? location = some value →
    (∀ b, value ≠ .bool b) → Diagnosis root location "expected boolean"
  | expectedNumber {location : Location} {value : Json} : root.at? location = some value →
    (∀ n, value ≠ .number n) → Diagnosis root location "expected number"
  | numberOutOfRange {location : Location} {n : Json.Number} :
    root.at? location = some (.number n) → ¬n.toDouble.narrow.isFinite →
    Diagnosis root location "number out of range"
  | expectedPositiveInteger {location : Location} {value : Json} :
    root.at? location = some value → (∀ n, 1 ≤ n → n < UInt32.size → ¬IsWhole value n) →
    Diagnosis root location "expected positive integer"
  | expectedNaturalNumber {location : Location} {value : Json} :
    root.at? location = some value → (∀ n < UInt32.size, ¬IsWhole value n) →
    Diagnosis root location "expected non-negative integer"
  | expectedNonNegativeNumber {location : Location} {n : Json.Number} :
    root.at? location = some (.number n) → n.Negative →
    Diagnosis root location "expected non-negative number"
  | tooManyCells {id : String} {size : Json} {columns rows : Nat} :
    root.at? ((Location.actor id).key "sheetSize") = some size →
    IsPair IsWhole size columns rows → UInt32.size ≤ columns * rows →
    Diagnosis root ((Location.actor id).key "sheetSize") "sheet has more than 4294967295 cells"
  | noCommandKind {place : Nat} {entries : List (String × Json)} :
    root.at? (.command place) = some (.object entries) →
    (∀ kind : CommandKind, entries.lookup kind.key = none) →
    Diagnosis root (.command place) ("invalid command " ++ toString place
      ++ ": expected one of sprite, speak, wait, background")
  | severalCommandKinds {place : Nat} {entries : List (String × Json)} {kind other : CommandKind} :
    root.at? (.command place) = some (.object entries) → kind ≠ other →
    (entries.lookup kind.key).isSome → (entries.lookup other.key).isSome →
    Diagnosis root (.command place) ("invalid command " ++ toString place
      ++ ": more than one command kind present")
  | portraitWithoutActor {body : Location} {entries : List (String × Json)} :
    root.at? body = some (.object entries) → (entries.lookup "portrait").isSome →
    entries.lookup "actor" = none →
    Diagnosis root (body.key "portrait") "portrait requires an actor"
  /-- The actor of the command has a sheet, and it ends before the column or row. -/
  | cellOutsideSheet {body : Location} {entries : List (String × Json)} {portrait size : Json}
      {column row columns rows : UInt32} {actor : String} :
    root.at? body = some (.object entries) → entries.lookup "actor" = some (.string actor) →
    entries.lookup "portrait" = some portrait →
    IsPair IsWhole portrait column.toNat row.toNat →
    root.at? ((Location.actor actor).key "sheetSize") = some size →
    IsPair IsWhole size columns.toNat rows.toNat → columns ≤ column ∨ rows ≤ row →
    Diagnosis root (body.key "portrait") ("cell [" ++ toString column ++ ", " ++ toString row
      ++ "] outside the " ++ toString columns ++ "x" ++ toString rows ++ " sheet of actor `"
      ++ actor ++ "`")

/-- An error is right about a value. Of references only those to actors can fail. -/
inductive Error.Fits (root : Json) : Error → Prop
  | invalid {location : Location} {problem : Problem} :
    Diagnosis root location problem.message → Fits root (.invalid location problem)
  | unresolved {location : Location} {id : String} {cast : List (String × Json)} :
    root.at? location = some (.string id) → root.at? .cast = some (.object cast) →
    cast.lookup id = none → Fits root (.unresolved .actor (.named id) location)
  | overLimit (excess : Excess) : Fits root (.overLimit excess)

/-- A text reports a location of a value: it has the location key by key, and with it a message
that is true there, or the id of an actor that stands there and is not in the cast. -/
inductive Report (root : Json) (location : Location) : String → Prop
  | invalid {message : String} : Diagnosis root location message →
    Report root location ("invalid scene script at `" ++ location.spelling ++ "`: " ++ message)
  | unknownActor {id : String} {cast : List (String × Json)} :
    root.at? location = some (.string id) → root.at? .cast = some (.object cast) →
    cast.lookup id = none →
    Report root location
      ("unknown actor `" ++ id ++ "` referenced at `" ++ location.spelling ++ "`")

/-- An error is right about a value, its location is written key by key, and its text reports the
location. -/
structure Error.Truthful (root : Json) (error : Error) : Prop where
  fits : error.Fits root
  spelled : ∀ location ∈ error.location?, location.text = location.spelling
  reported : ∀ location ∈ error.location?, ∃ text, error.message? = some text ∧
    Report root location text

/-- The text of an error reports what the error is right about. -/
theorem Error.Fits.truthful {root : Json} {error : Error} (h : error.Fits root)
    (hspelled : ∀ location ∈ error.location?, location.text = location.spelling) :
    error.Truthful root where
  fits := h
  spelled := hspelled
  reported := by
    intro location hlocation
    have htext := hspelled location hlocation
    cases h with
    | invalid hdiagnosis =>
      cases hlocation
      exact ⟨_, rfl, htext ▸ .invalid hdiagnosis⟩
    | unresolved hid hcast hnone =>
      cases hlocation
      exact ⟨_, rfl, htext ▸ .unknownActor hid hcast hnone⟩
    | overLimit excess => cases hlocation

/-! ## Values at their locations -/

/-- A value is at a location, which begins with a key that is not empty. -/
structure Stands (root : Json) (location : Location) (value : Json) : Prop where
  at_eq : root.at? location = some value
  plain : location.Plain

section Stands

variable {root value : Json} {location : Location} {α β : Type}

/-- What a key of an object leads to stands at this key. -/
theorem stands_key {entries : List (String × Json)} {name : String}
    (hat : root.at? location = some (.object entries)) (hplain : (location.key name).Plain)
    (hfind : entries.lookup name = some value) : Stands root (location.key name) value :=
  ⟨(Json.at?_key hat name).trans hfind, hplain⟩

/-- What a key leads to stands one step further. -/
theorem Stands.key {entries : List (String × Json)} (h : Stands root location (.object entries))
    {name : String} (hfind : entries.lookup name = some value) :
    Stands root (location.key name) value :=
  stands_key h.at_eq (h.plain.key name) hfind

/-- An element of an array stands one step further. -/
theorem Stands.index {elements : List Json} (h : Stands root location (.array elements))
    {place : Nat} (hplace : elements[place]? = some value) :
    Stands root (location.index place) value :=
  ⟨(Json.at?_index h.at_eq place).trans hplace, h.plain.index place⟩

/-- A message that is true of a value makes a truthful error. -/
theorem truthful_invalid {problem : Problem} (hspelled : location.text = location.spelling)
    (hdiagnosis : Diagnosis root location problem.message) :
    (Error.invalid location problem).Truthful root := by
  refine Error.Fits.truthful (.invalid hdiagnosis) ?_
  rintro _ ⟨⟩
  exact hspelled

/-- An exceeded limit says nothing about the value. -/
theorem truthful_overLimit (excess : Excess) : (Error.overLimit excess).Truthful root :=
  Error.Fits.truthful (.overLimit excess) nofun

/-- A value is refused with a message that is true of it. -/
theorem Stands.refuse (h : Stands root location value) {problem : Problem}
    (hdiagnosis : Diagnosis root location problem.message) :
    FailsOnly (Error.Truthful root) (.error (.invalid location problem) : Except Error α) :=
  failsOnly_error (truthful_invalid h.plain.text_eq hdiagnosis)

/-- An object is read entry by entry; anything else is refused. -/
theorem failsOnly_bind_object {next : Section → Except Error β}
    (hat : root.at? location = some value) (hspelled : location.text = location.spelling)
    (hnext : ∀ entries, value = .object entries →
      FailsOnly (Error.Truthful root) (next ⟨location, entries⟩)) :
    FailsOnly (Error.Truthful root) (FieldReader.object location value >>= next) := by
  cases value with
  | object entries => exact hnext entries rfl
  | _ =>
    have hdiagnosis := Diagnosis.expectedObject hat (by simp)
    exact FailsOnly.bind (failsOnly_error (truthful_invalid hspelled hdiagnosis)) nofun

/-- An object that stands somewhere is read entry by entry; anything else is refused. -/
theorem Stands.bind_object {next : Section → Except Error β} (h : Stands root location value)
    (hnext : ∀ entries, value = .object entries → Stands root location (.object entries) →
      FailsOnly (Error.Truthful root) (next ⟨location, entries⟩)) :
    FailsOnly (Error.Truthful root) (FieldReader.object location value >>= next) :=
  failsOnly_bind_object h.at_eq h.plain.text_eq fun entries hvalue =>
    hnext entries hvalue (hvalue ▸ h)

end Stands

/-! ## Readers of fields -/

/-- A reader says nothing wrong about a value at its location. -/
def FieldReader.Truthful {α : Type} (reader : FieldReader α) : Prop :=
  ∀ root location value, Stands root location value →
    FailsOnly (Error.Truthful root) (reader location value)

namespace FieldReader

/-- Only what is no string is refused as one. -/
theorem truthful_string : string.Truthful := by
  intro root location value h
  cases value with
  | string s => exact failsOnly_ok s
  | _ => exact h.refuse (.expectedString h.at_eq (by simp))

/-- Only what is no truth value is refused as one. -/
theorem truthful_bool : bool.Truthful := by
  intro root location value h
  cases value with
  | bool b => exact failsOnly_ok b
  | _ => exact h.refuse (.expectedBoolean h.at_eq (by simp))

/-- Only what is no array is refused as one. -/
theorem truthful_array : array.Truthful := by
  intro root location value h
  cases value with
  | array elements => exact failsOnly_ok elements
  | _ => exact h.refuse (.expectedArray h.at_eq (by simp))

/-- A single is refused only if there is no number, or one too large. -/
theorem truthful_single : single.Truthful := by
  intro root location value h
  cases value with
  | number n =>
    simp only [single]
    split
    · exact failsOnly_ok _
    · next hinfinite => exact h.refuse (.numberOutOfRange h.at_eq hinfinite)
  | _ => exact h.refuse (.expectedNumber h.at_eq (by simp))

/-- What is no whole number is refused for this and nothing else. -/
theorem whole_eq_error {least : Nat} {location : Location} {value : Json} {error : Error}
    (h : whole least location value = .error error) :
    error = .invalid location (wholeProblem least) := by
  cases value with
  | number n =>
    simp only [whole] at h
    split at h
    · split at h
      · cases h
      · exact (Except.error.inj h).symm
    · exact (Except.error.inj h).symm
  | _ => exact (Except.error.inj h).symm

/-- Where a whole number is refused, none of 32 bits is there. -/
theorem not_isWhole_of_eq_error {least : Nat} {location : Location} {value : Json} {error : Error}
    (h : whole least location value = .error error) {n : Nat} (hleast : least ≤ n)
    (hlt : n < UInt32.size) : ¬IsWhole value n := by
  intro hwhole
  obtain ⟨u, rfl⟩ := Script.exists_toNat hlt
  rw [whole_iff.mpr ⟨hwhole, hleast⟩] at h
  cases h

/-- A positive integer is refused only where none of 32 bits is. -/
theorem truthful_positive : (whole 1).Truthful := by
  intro root location value h error herror
  obtain rfl := whole_eq_error herror
  refine truthful_invalid h.plain.text_eq (.expectedPositiveInteger h.at_eq ?_)
  intro n hpos hlt
  exact not_isWhole_of_eq_error herror hpos hlt

/-- A natural number is refused only where none of 32 bits is. -/
theorem truthful_natural : (whole 0).Truthful := by
  intro root location value h error herror
  obtain rfl := whole_eq_error herror
  refine truthful_invalid h.plain.text_eq (.expectedNaturalNumber h.at_eq ?_)
  intro n hlt
  exact not_isWhole_of_eq_error herror n.zero_le hlt

variable {α : Type} {reader : FieldReader α}

/-- A pair is refused only for its form, or for one of its elements. -/
theorem Truthful.pair (h : reader.Truthful) : (pair reader).Truthful := by
  intro root location value hvalue
  cases value with
  | array elements =>
    match elements with
    | [a, b] =>
      refine (h root _ a (hvalue.index rfl)).bind fun x _ => ?_
      refine (h root _ b (hvalue.index rfl)).bind fun y _ => ?_
      exact failsOnly_ok (x, y)
    | [] => exact hvalue.refuse (.expectedPair hvalue.at_eq (by simp))
    | [_] => exact hvalue.refuse (.expectedPair hvalue.at_eq (by simp))
    | _ :: _ :: _ :: _ => exact hvalue.refuse (.expectedPair hvalue.at_eq (by simp))
  | _ => exact hvalue.refuse (.expectedArray hvalue.at_eq (by simp))

/-- A vector is refused only as a pair of singles is. -/
theorem truthful_vector : vector.Truthful := by
  intro root location value h
  exact FailsOnly.map _ (truthful_single.pair root location value h)

variable {root : Json} {fields : Section} {key : String}

/-- The key that is missing may be one of the root. -/
theorem Truthful.required_of_at (h : reader.Truthful)
    (hat : root.at? fields.location = some (.object fields.entries))
    (hplain : (fields.location.key key).Plain) :
    FailsOnly (Error.Truthful root) (fields.required key reader) := by
  rw [Section.required.eq_def]
  cases hfind : fields.find? key with
  | none => exact failsOnly_error (truthful_invalid hplain.text_eq (.missingField hat hfind))
  | some value => exact h root _ value (stands_key hat hplain hfind)

/-- A required field is refused only if it is missing, or for its value. -/
theorem Truthful.required (h : reader.Truthful)
    (hfields : Stands root fields.location (.object fields.entries)) :
    FailsOnly (Error.Truthful root) (fields.required key reader) :=
  h.required_of_at hfields.at_eq (hfields.plain.key key)

/-- An optional field is refused only for its value. -/
theorem Truthful.optional (h : reader.Truthful)
    (hfields : Stands root fields.location (.object fields.entries)) :
    FailsOnly (Error.Truthful root) (fields.optional key reader) := by
  rw [Section.optional.eq_def]
  cases hfind : fields.find? key with
  | none => exact failsOnly_ok none
  | some value => exact (h root _ value (hfields.key hfind)).map some

end FieldReader

namespace Script

open FieldReader

variable {limits : Limits} {root : Json} {script : Script}

/-- An exceeded limit is none of the errors that say something about the value. -/
theorem truthful_limit {c : Prop} [Decidable c] {excess : Excess} :
    FailsOnly (Error.Truthful root) (if c then .ok () else .error (.overLimit excess)) := by
  split
  · exact failsOnly_ok ()
  · exact failsOnly_error (truthful_overLimit excess)

/-! ## The cast -/

/-- An actor is refused only for what its entry holds or lacks. -/
theorem truthful_loadActor {id : String} {value : Json} (h : Stands root (.actor id) value) :
    FailsOnly (Error.Truthful root) (loadActor limits id value) := by
  refine truthful_limit.bind fun _ _ => ?_
  refine h.bind_object fun entries _ hentries => ?_
  refine (truthful_string.required hentries).bind fun name _ => ?_
  refine (truthful_string.required hentries).bind fun sheet hsheet => ?_
  refine failsOnly_guard ?_ fun _ => ?_
  · rintro rfl
    have hfind := Section.required_string_eq_ok.mp hsheet
    have hplace := hentries.key hfind
    exact truthful_invalid hplace.plain.text_eq (.expectedNonEmptyString hplace.at_eq)
  · refine (truthful_positive.pair.required hentries).bind fun size _ => ?_
    exact failsOnly_ok _

/-- An actor that was read is refused only for too large a sheet, if its id is new. -/
theorem truthful_addActor {actor : Actor} {entries : List (String × Json)}
    (h : Stands root (.actor actor.id) (.object entries)) (hreads : ReadsActor entries actor)
    (hnew : actor.id ∉ script.actorIds) :
    FailsOnly (Error.Truthful root) (script.addActor actor).1 := by
  obtain ⟨size, hfind, hsize⟩ := Section.required_eq_ok.mp hreads.sheetSize
  obtain ⟨hpair, hcolumns, hrows⟩ := pair_whole_iff.mp hsize
  have hplace := h.key hfind
  have hid : ¬(script.actorIndex? actor.id).isSome := by
    rw [actorIndex?, List.isSome_idxOf?]
    exact hnew
  have hpositive : ¬(actor.sheetSize.columns = 0 ∨ actor.sheetSize.rows = 0) := by
    rw [← UInt32.toNat_inj, ← UInt32.toNat_inj, UInt32.toNat_zero]
    omega
  rw [addActor, if_neg hid, if_neg hreads.sheet_ne, if_neg hpositive]
  split
  · next harea =>
    refine hplace.refuse (.tooManyCells hplace.at_eq hpair ?_)
    exact SheetSize.checkedCellCount_eq_none_iff.mp harea
  · exact failsOnly_ok _

/-- An entry with a new id is refused only for what it holds or lacks. -/
theorem truthful_addCastEntry {entry : String × Json} (h : Stands root (.actor entry.1) entry.2)
    (hnew : entry.1 ∉ script.actorIds) :
    FailsOnly (Error.Truthful root) (addCastEntry limits script entry) := by
  refine (truthful_loadActor h).bind fun actor hactor => ?_
  obtain ⟨-, hid, entries, hvalue, hreads⟩ := loadActor_eq_ok_iff.mp hactor
  rw [hvalue, ← hid] at h
  rw [← hid] at hnew
  exact (truthful_addActor h hreads hnew).bind fun _ _ => failsOnly_ok _

/-- Each entry is added to a cast that has none of its id. -/
theorem truthful_foldlM_addCastEntry {entries : List (String × Json)}
    (h : ∀ entry ∈ entries, Stands root (.actor entry.1) entry.2)
    (hnodup : (script.actorIds ++ entries.map Prod.fst).Nodup) :
    FailsOnly (Error.Truthful root) (entries.foldlM (addCastEntry limits) script) := by
  induction entries generalizing script with
  | nil => exact failsOnly_ok script
  | cons entry rest ih =>
    rw [List.forall_mem_cons] at h
    rw [List.map_cons] at hnodup
    have hnew : entry.1 ∉ script.actorIds := fun hmem =>
      List.disjoint_of_nodup_append hnodup hmem List.mem_cons_self
    rw [List.foldlM_cons]
    -- the id that is added is none of those to come, so a duplicate is never met
    refine (truthful_addCastEntry h.1 hnew).bind fun later hlater => ih h.2 ?_
    obtain ⟨actor, hactor, -, -, rfl⟩ := addCastEntry_eq_ok_iff.mp hlater
    rw [withCast, List.map_singleton, id_eq_of_loadActor hactor, List.append_assoc]
    exact hnodup

/-- The entries of a cast stand at the locations of their actors. -/
theorem stands_actor {entries : List (String × Json)} (h : Stands root .cast (.object entries))
    (hordered : (Json.Tree.object entries : Json).Ordered) {entry : String × Json}
    (hmem : entry ∈ entries) : Stands root (.actor entry.1) entry.2 where
  at_eq := by
    rw [Location.actor, Json.at?_key h.at_eq]
    exact (Json.lookup_eq_some_iff_mem hordered.keysIncrease.nodup).mpr hmem
  plain := h.plain.key entry.1

/-- A cast is refused only for what it holds or lacks. -/
theorem truthful_loadCast {value : Json} (h : Stands root .cast value) (hordered : value.Ordered) :
    FailsOnly (Error.Truthful root) (loadCast limits value) := by
  refine h.bind_object fun entries hvalue hentries => ?_
  subst hvalue
  refine truthful_limit.bind fun _ _ => ?_
  refine truthful_foldlM_addCastEntry (fun entry hmem => stands_actor h hordered hmem) ?_
  exact hordered.keysIncrease.nodup

/-- The cast of a script is the one in a value. -/
structure HasCast (root : Json) (script : Script) : Prop where
  sound : script.Sound
  ids : ∃ entries, root.at? .cast = some (.object entries) ∧
    script.actorIds = entries.map Prod.fst
  sheet : ∀ actor ∈ script.actors, ∃ size,
    root.at? ((Location.actor actor.id).key "sheetSize") = some size ∧
      IsPair IsWhole size actor.sheetSize.columns.toNat actor.sheetSize.rows.toNat

/-- A loaded cast is the one in the value, whatever names are mentioned. -/
theorem hasCast_of_loadCast {value : Json} (h : Stands root .cast value) (hordered : value.Ordered)
    (hload : loadCast limits value = .ok script) (sprites : List (Option String))
    (assets : List (Option String × Option String)) :
    HasCast root (script.withMentions sprites assets) := by
  have hsound := (sound_of_loadCast hload).withMentions (commands_eq_nil_of_loadCast hload)
    sprites assets
  obtain ⟨entries, actors, rfl, -, hactors, -, -, rfl⟩ := loadCast_eq_ok_iff.mp hload
  refine ⟨hsound, ⟨entries, h.at_eq, map_id_eq_of_loadActor hactors⟩, ?_⟩
  intro actor hmem
  obtain ⟨entry, hentry, hactor⟩ := exists_mem_of_forall₂ hactors hmem
  obtain ⟨-, hid, fields, hfields, hreads⟩ := loadActor_eq_ok_iff.mp hactor
  obtain ⟨size, hfind, hsize⟩ := Section.required_eq_ok.mp hreads.sheetSize
  have hplace := stands_actor h hordered hentry
  rw [hfields, ← hid] at hplace
  exact ⟨size, (hplace.key hfind).at_eq, (pair_whole_iff.mp hsize).1⟩

/-! ## Names that commands mention -/

variable {place : Nat} {command : Json}

/-- Looking for a sprite is right about the command. -/
theorem truthful_mentionedSprite? (h : Stands root (.command place) command) :
    FailsOnly (Error.Truthful root) (mentionedSprite? limits place command) := by
  refine h.bind_object fun entries _ hentries => ?_
  dsimp only
  split
  · exact failsOnly_ok none
  · next body hbody =>
    refine (hentries.key hbody).bind_object fun body _ hbody => ?_
    refine (truthful_string.required hbody).bind fun id _ => ?_
    exact truthful_limit.bind fun _ _ => failsOnly_ok (some id)

/-- Looking for a name is right about the field. -/
theorem truthful_mentionedName? {fields : Section} {key : String}
    (h : Stands root fields.location (.object fields.entries)) :
    FailsOnly (Error.Truthful root) (mentionedName? limits fields key) := by
  refine (truthful_string.optional h).bind fun name _ => ?_
  cases name with
  | none => exact failsOnly_ok none
  | some name =>
    dsimp only
    split
    · exact failsOnly_ok none
    · exact truthful_limit.bind fun _ _ => failsOnly_ok (some name)

/-- Looking for image and track is right about the command. -/
theorem truthful_mentionedAssets (h : Stands root (.command place) command) :
    FailsOnly (Error.Truthful root) (mentionedAssets limits place command) := by
  refine h.bind_object fun entries _ hentries => ?_
  dsimp only
  split
  · exact failsOnly_ok (none, none)
  · next body hbody =>
    refine (hentries.key hbody).bind_object fun body _ hbody => ?_
    refine (truthful_mentionedName? hbody).bind fun image _ => ?_
    refine (truthful_mentionedName? hbody).bind fun music _ => ?_
    exact failsOnly_ok (image, music)

/-! ## Commands -/

section Body

variable {fields : Section} (h : Stands root fields.location (.object fields.entries))
include h

/-- A wait is refused only for its time. -/
theorem truthful_resolveWait : FailsOnly (Error.Truthful root) (resolveWait fields) := by
  refine (truthful_single.required h).bind fun time htime => ?_
  obtain ⟨value, hfind, hsingle⟩ := Section.required_eq_ok.mp htime
  obtain ⟨n, rfl, rfl, -⟩ := single_eq_ok.mp hsingle
  have hplace := h.key hfind
  dsimp only
  split
  · next hneg =>
    exact hplace.refuse (.expectedNonNegativeNumber hplace.at_eq
      (Json.Number.negative_of_narrow hneg))
  · exact failsOnly_ok _

/-- A pool that knows the name does not fail. -/
theorem truthful_resolveAsset {kind : ReferenceKind} {pool : Pool String} {key : String}
    (hknows : ∀ name, fields.find? key = some (.string name) → name ≠ "" → name ∈ pool.names) :
    FailsOnly (Error.Truthful root) (resolveAsset kind pool fields key) := by
  refine (truthful_string.optional h).bind fun name hname => ?_
  cases name with
  | none => exact failsOnly_ok _
  | some name =>
    dsimp only
    split
    · exact failsOnly_ok _
    · next hne =>
      have hmem := hknows name (Section.optional_string_eq_ok.mp hname) hne
      obtain ⟨index, hindex⟩ := Pool.exists_position? hmem
      rw [hindex]
      exact failsOnly_ok _

/-- Pools that know the image and the track do not fail. -/
theorem truthful_resolveBackground (hknows : script.KnowsBody fields.entries .background) :
    FailsOnly (Error.Truthful root) (script.resolveBackground fields) := by
  refine (truthful_resolveAsset h hknows.1).bind fun image _ => ?_
  refine (truthful_resolveAsset h hknows.2).bind fun music _ => ?_
  exact failsOnly_ok _

variable (hcast : HasCast root script)
include hcast

/-- An actor is unknown if the cast has no entry of this id. -/
theorem truthful_resolveActor {id : String} (hid : fields.find? "actor" = some (.string id)) :
    FailsOnly (Error.Truthful root) (script.resolveActor fields id) := by
  rw [resolveActor]
  split
  · exact failsOnly_ok _
  · next hnone =>
    obtain ⟨entries, hentries, hids⟩ := hcast.ids
    have hplace := h.key hid
    refine failsOnly_error (Error.Fits.truthful (.unresolved hplace.at_eq hentries ?_) ?_)
    · rw [actorIndex?, List.idxOf?_eq_none_iff, hids] at hnone
      exact Option.eq_none_iff_forall_ne_some.mpr fun value hfind =>
        hnone (List.mem_map.mpr ⟨_, Json.mem_of_lookup hfind, rfl⟩)
    · rintro _ ⟨⟩
      exact hplace.plain.text_eq

/-- A portrait is refused if no actor is named, or for the sheet of the one that is. -/
theorem truthful_resolvePortrait {name : Option String} {actor : Option Nat}
    (hname : fields.optional "actor" .string = .ok name)
    (hactor : name.map script.actorIndex? = actor.map some) :
    FailsOnly (Error.Truthful root) (script.resolvePortrait fields actor) := by
  refine (truthful_natural.pair.optional h).bind fun portrait hportrait => ?_
  cases portrait with
  | none => exact failsOnly_ok none
  | some cell =>
    obtain ⟨column, row⟩ := cell
    obtain ⟨value, hfind, hpair⟩ := Section.optional_eq_ok_some.mp hportrait
    have hspelled := (h.key hfind).plain.text_eq
    cases name with
    | none =>
      obtain rfl := Option.map_eq_none_iff.mp hactor.symm
      have hnone := Section.optional_eq_ok_none.mp hname
      refine failsOnly_error (truthful_invalid hspelled (.portraitWithoutActor h.at_eq ?_ hnone))
      exact Option.isSome_of_eq_some hfind
    | some id =>
      -- the index is that of the name, so the sheet is that of the actor who is named
      obtain ⟨index, rfl, hindex⟩ := Option.map_eq_some_iff.mp hactor.symm
      obtain ⟨speaker, hspeaker, hid⟩ := hcast.sound.actorIndex?_eq_some_iff.mp hindex.symm
      simp only [Option.bind_some, hspeaker]
      cases hcell : speaker.sheetSize.cellIndex column row with
      | some cell => exact failsOnly_ok (some cell)
      | none =>
        have husable := (hcast.sound.drawable_of_actorAt? hspeaker).usable
        obtain ⟨size, hsize, hsheet⟩ := hcast.sheet speaker (List.mem_of_getElem? hspeaker)
        refine failsOnly_error (truthful_invalid hspelled (.cellOutsideSheet h.at_eq ?_ hfind
          (pair_whole_iff.mp hpair).1 hsize hsheet (husable.cellIndex_eq_none_iff.mp hcell)))
        rw [hid]
        exact Section.optional_string_eq_ok.mp hname

/-- A speak command is refused only for what its body holds or lacks. -/
theorem truthful_resolveSpeak :
    FailsOnly (Error.Truthful root) (script.resolveSpeak limits fields) := by
  refine (truthful_string.required h).bind fun id hid => ?_
  have hfind := Section.required_string_eq_ok.mp hid
  refine (truthful_resolveActor h hcast hfind).bind fun actor hactor => ?_
  refine (truthful_string.optional h).bind fun text _ => ?_
  refine truthful_limit.bind fun _ _ => ?_
  have hindex : (some id).map script.actorIndex? = (some actor).map some :=
    congrArg some (resolveActor_eq_ok_iff.mp hactor)
  refine (truthful_resolvePortrait h hcast (Section.optional_string_eq_ok.mpr hfind) hindex).bind
    fun portrait _ => ?_
  exact failsOnly_ok _

/-- Once the sprite is found, a sprite command is refused only for its other fields. -/
theorem truthful_resolveSpriteFields {name : Option String} {actor : Option Nat}
    (hname : fields.optional "actor" .string = .ok name)
    (hactor : name.map script.actorIndex? = actor.map some) (sprite : Nat) :
    FailsOnly (Error.Truthful root) (script.resolveSpriteFields fields sprite actor) := by
  refine (truthful_bool.optional h).bind fun hide _ => ?_
  refine (truthful_resolvePortrait h hcast hname hactor).bind fun portrait _ => ?_
  refine (truthful_vector.optional h).bind fun pos _ => ?_
  refine (truthful_vector.optional h).bind fun size _ => ?_
  exact failsOnly_ok _

/-- A script that knows the sprite does not fail to find it. -/
theorem truthful_resolveSprite (hknows : script.KnowsBody fields.entries .sprite) :
    FailsOnly (Error.Truthful root) (script.resolveSprite fields) := by
  refine (truthful_string.required h).bind fun id hid => ?_
  have hmem := hknows id (Section.required_string_eq_ok.mp hid)
  obtain ⟨sprite, hsprite⟩ := Pool.exists_position? hmem
  simp only [hsprite, pure_eq, ok_bind]
  refine (truthful_string.optional h).bind fun name hname => ?_
  cases name with
  | none => exact truthful_resolveSpriteFields h hcast hname rfl sprite
  | some id =>
    have hfind := Section.optional_string_eq_ok.mp hname
    refine ((truthful_resolveActor h hcast hfind).map some).bind fun actor hresolve => ?_
    obtain ⟨index, hindex, rfl⟩ := map_eq_ok.mp hresolve
    have hactor : (some id).map script.actorIndex? = (some index).map some :=
      congrArg some (resolveActor_eq_ok_iff.mp hindex)
    exact truthful_resolveSpriteFields h hcast hname hactor sprite

/-- A body is refused only for what it holds or lacks. -/
theorem truthful_resolveBody {kind : CommandKind} (hknows : script.KnowsBody fields.entries kind) :
    FailsOnly (Error.Truthful root) (script.resolveBody limits kind fields) := by
  cases kind with
  | sprite => exact (truthful_resolveSprite h hcast hknows).map _
  | speak => exact (truthful_resolveSpeak h hcast).map _
  | wait => exact (truthful_resolveWait h).map _
  | background => exact (truthful_resolveBackground h hknows).map _

end Body

/-- The kinds that a command has are each found once. -/
theorem nodup_presentKinds (fields : Section) : ((presentKinds fields).map Prod.fst).Nodup := by
  rw [presentKinds, List.map_filterMap]
  refine List.Nodup.filterMap ?_ (by decide)
  intro kind other found hkind hother
  simp only [Option.map_map, Option.mem_def, Option.map_eq_some_iff, Function.comp_apply]
    at hkind hother
  obtain ⟨-, -, rfl⟩ := hkind
  obtain ⟨-, -, hsame⟩ := hother
  exact hsame.symm

/-- A command is refused if it is of no kind or of several; otherwise for its body. -/
theorem truthful_resolveCommand (h : Stands root (.command place) command)
    (hcast : HasCast root script) (hknows : script.Knows command) :
    FailsOnly (Error.Truthful root) (script.resolveCommand limits place command) := by
  refine h.bind_object fun entries hvalue hentries => ?_
  have hnodup := nodup_presentKinds ⟨.command place, entries⟩
  have hmem {kind : CommandKind} {body : Json} :
      (kind, body) ∈ presentKinds ⟨.command place, entries⟩ ↔
        entries.lookup kind.key = some body := mem_presentKinds
  cases hpresent : presentKinds ⟨.command place, entries⟩ with
  | nil =>
    refine hentries.refuse (.noCommandKind hentries.at_eq fun kind => ?_)
    rw [Option.eq_none_iff_forall_ne_some]
    intro body hbody
    rw [← hmem, hpresent] at hbody
    exact List.not_mem_nil hbody
  | cons first rest =>
    obtain ⟨kind, body⟩ := first
    have hbody : entries.lookup kind.key = some body := by
      rw [← hmem, hpresent]
      exact List.mem_cons_self
    cases rest with
    | nil =>
      refine (hentries.key hbody).bind_object fun body hvalue' hplace => ?_
      subst hvalue'
      exact truthful_resolveBody hplace hcast (hknows entries kind body hvalue hbody)
    | cons second rest =>
      obtain ⟨other, further⟩ := second
      have hfurther : entries.lookup other.key = some further := by
        rw [← hmem, hpresent]
        exact List.mem_cons_of_mem _ List.mem_cons_self
      rw [hpresent, List.map_cons, List.map_cons, List.nodup_cons] at hnodup
      have hne : kind ≠ other := fun heq => hnodup.1 (heq ▸ List.mem_cons_self)
      exact hentries.refuse (.severalCommandKinds hentries.at_eq hne
        (Option.isSome_of_eq_some hbody) (Option.isSome_of_eq_some hfurther))

/-! ## Whole scripts -/

/-- What is done for each command fails for one of them. -/
theorem failsOnly_forEachCommand {α : Type} {P : Error → Prop} {commands : List Json}
    {f : Nat → Json → Except Error α}
    (h : ∀ place command, commands[place]? = some command → FailsOnly P (f place command)) :
    FailsOnly P (forEachCommand commands f) := by
  intro error herror
  obtain ⟨place, command, hcommand, hfail⟩ := exists_of_forEachCommand_eq_error herror
  exact h place command hcommand error hfail

/-- The errors of a load are right about the value that was to be loaded, and so are their texts. -/
theorem load_truthful {value : Json} (hordered : value.Ordered) {error : Error}
    (h : load limits value = .error error) : error.Truthful value := by
  suffices hload : FailsOnly (Error.Truthful value) (load limits value) from hload error h
  refine failsOnly_bind_object value.at?_root rfl fun entries hvalue => ?_
  have hat : value.at? .root = some (.object entries) := value.at?_root.trans (congrArg some hvalue)
  have hfound : Truthful fun _ value => (.ok value : Except Error Json) :=
    fun _ _ value _ => failsOnly_ok value
  refine FailsOnly.bind (hfound.required_of_at hat Location.plain_cast) fun cast hcast => ?_
  refine FailsOnly.bind (truthful_array.required_of_at hat Location.plain_commands)
    fun commands hcommands => ?_
  refine truthful_limit.bind fun _ _ => ?_
  obtain ⟨found, hfindCast, hsame⟩ := Section.required_eq_ok.mp hcast
  obtain rfl : found = cast := Except.ok.inj hsame
  obtain ⟨_, hfindCommands, harray⟩ := Section.required_eq_ok.mp hcommands
  obtain rfl := array_eq_ok.mp harray
  have hcastPlace : Stands value .cast found := stands_key hat Location.plain_cast hfindCast
  have hcastOrdered : found.Ordered := Json.Tree.Ordered.of_lookup (hvalue ▸ hordered) hfindCast
  have hlist : Stands value (Location.root.key "commands") (.array commands) :=
    stands_key hat Location.plain_commands hfindCommands
  have hcommand {place : Nat} {command : Json} (hget : commands[place]? = some command) :
      Stands value (.command place) command := hlist.index hget
  refine (truthful_loadCast hcastPlace hcastOrdered).bind fun script hscript => ?_
  refine (failsOnly_forEachCommand fun place command hget =>
    truthful_mentionedSprite? (hcommand hget)).bind fun sprites hsprites => ?_
  refine (failsOnly_forEachCommand fun place command hget =>
    truthful_mentionedAssets (hcommand hget)).bind fun assets hassets => ?_
  refine (failsOnly_forEachCommand fun place command hget => ?_).bind fun _ _ => failsOnly_ok _
  -- the names in the command were collected when it is resolved
  exact truthful_resolveCommand (hcommand hget)
    (hasCast_of_loadCast hcastPlace hcastOrdered hscript sprites assets)
    (knows_withMentions hsprites hassets (List.mem_of_getElem? hget))

/-- A script in which someone is to be seen in the third column of a sheet that has two. -/
def misplaced : Json :=
  .object [
    ("actors", .object [("ann", .object [("name", .string "Ann"), ("sheet", .string "ann.png"),
      ("sheetSize", .array [.number (.integer 2), .number (.integer 3)])])]),
    ("commands", .array [.object [("speak", .object [("actor", .string "ann"),
      ("portrait", .array [.number (.integer 2), .number (.integer 0)])])]])]

/-- The error that a load of `misplaced` ends with. -/
def misplacedError : Error :=
  .invalid (((Location.command 0).key "speak").key "portrait") (.cellOutsideSheet 2 0 2 3 "ann")

/-- The text of this error names the cell and the sheet that it lies outside of. -/
theorem load_truthful_misplaced : misplaced.Ordered ∧
    load .standard misplaced = .error misplacedError ∧ misplacedError.Truthful misplaced ∧
    misplacedError.message? = some ("invalid scene script at `commands[0].speak.portrait`: "
      ++ "cell [2, 0] outside the 2x3 sheet of actor `ann`") := by
  have hcanonical : misplaced.canonical = misplaced := rfl
  have hordered : misplaced.Ordered := hcanonical ▸ Json.Tree.ordered_canonical misplaced
  have hload : load .standard misplaced = .error misplacedError := by decide +kernel
  exact ⟨hordered, hload, load_truthful hordered hload, by decide +kernel⟩

end Script

end VisualNovel
