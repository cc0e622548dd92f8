import VisualNovel.Proofs.Script.Section
import VisualNovel.Proofs.Script.Sound
import VisualNovel.Script.Loader

/-!
# When a script loads

Each step of loading succeeds exactly under a condition on the JSON value that it reads, and what it
gives is determined by that value. `load_eq_ok_iff` is the condition for a whole script, put
together from those of the cast, of the names that commands mention, and of the commands.

A loaded script is sound (`sound_of_load`), though its commands never went through the check that
edited ones go through.
-/

namespace VisualNovel

open Outcome

/-- An id passes just if it has no more bytes than the limit. -/
theorem Limits.checkId_eq_ok_iff {limits : Limits} {location : Location} {id : String} :
    limits.checkId location id = .ok () ↔ id.utf8ByteSize ≤ limits.idBytes := by
  rw [checkId, ite_eq_ok, and_iff_left rfl]

/-- A text passes just if it has no more bytes than the limit. -/
theorem Limits.checkText_eq_ok_iff {limits : Limits} {location : Location} {text : String} :
    limits.checkText location text = .ok () ↔ text.utf8ByteSize ≤ limits.textBytes := by
  rw [checkText, ite_eq_ok, and_iff_left rfl]

/-- A cast passes just if it is no larger than the limit. -/
theorem Limits.checkActors_eq_ok_iff {limits : Limits} {count : Nat} :
    limits.checkActors count = .ok () ↔ count ≤ limits.actors := by
  rw [checkActors, ite_eq_ok, and_iff_left rfl]

/-- A command list passes just if it is no longer than the limit. -/
theorem Limits.checkCommands_eq_ok_iff {limits : Limits} {count : Nat} :
    limits.checkCommands count = .ok () ↔ count ≤ limits.commands := by
  rw [checkCommands, ite_eq_ok, and_iff_left rfl]

namespace Script

variable {limits : Limits} {script : Script}

/-! ## The cast -/

/-- The fields of an actor in the entries of an object. -/
structure ReadsActor (entries : List (String × Json)) (actor : Actor) : Prop where
  name : entries.lookup "name" = some (.string actor.name)
  sheet : entries.lookup "sheet" = some (.string actor.sheet)
  sheet_ne : actor.sheet ≠ ""
  sheetSize : (Section.mk (.actor actor.id) entries).required "sheetSize" (.pair (.whole 1)) =
    .ok (actor.sheetSize.columns, actor.sheetSize.rows)

/-- An actor loads under an id of allowed length, from an object with all its fields. -/
theorem loadActor_eq_ok_iff {id : String} {value : Json} {actor : Actor} :
    loadActor limits id value = .ok actor ↔
      id.utf8ByteSize ≤ limits.idBytes ∧ actor.id = id ∧
        ∃ entries, value = .object entries ∧ ReadsActor entries actor := by
  simp only [loadActor, bind_eq_ok, exists_unit, guard_eq_ok, pure_eq_ok,
    Limits.checkId_eq_ok_iff, FieldReader.object_eq_ok, Section.required_string_eq_ok]
  constructor
  · rintro ⟨hid, ⟨location, entries⟩, ⟨rfl, rfl⟩, name, hname, sheet, hsheet, hne, size, hsize, rfl⟩
    exact ⟨hid, rfl, entries, rfl, hname, hsheet, hne, hsize⟩
  · rintro ⟨hid, rfl, entries, rfl, hname, hsheet, hne, hsize⟩
    exact ⟨hid, ⟨_, entries⟩, ⟨rfl, rfl⟩, _, hname, _, hsheet, hne, _, hsize, rfl⟩

/-- An entry of the cast is added just if it loads as an actor with a new id who can be drawn. -/
theorem addCastEntry_eq_ok_iff {entry : String × Json} {later : Script} :
    addCastEntry limits script entry = .ok later ↔
      ∃ actor, loadActor limits entry.1 entry.2 = .ok actor ∧ actor.id ∉ script.actorIds ∧
        Drawable actor ∧ script.withCast [actor] = later := by
  simp only [addCastEntry, bind_eq_ok, pure_eq_ok]
  constructor
  · rintro ⟨actor, hactor, index, hadded, rfl⟩
    rcases script.addActor_cases actor with ⟨hid, hdrawable, heq⟩ | ⟨-, error, heq⟩
    · exact ⟨actor, hactor, hid, hdrawable, by rw [heq]⟩
    · rw [heq] at hadded
      cases hadded
  · rintro ⟨actor, hactor, hid, hdrawable, rfl⟩
    rcases script.addActor_cases actor with ⟨-, -, heq⟩ | ⟨hrefused, -⟩
    · exact ⟨actor, hactor, script.actors.length, by rw [heq], by rw [heq]⟩
    · exact absurd ⟨hid, hdrawable⟩ hrefused

/-- No further actors change nothing. -/
theorem withCast_nil : script.withCast [] = script := by
  rw [withCast, List.append_nil, List.map_nil, List.append_nil]

/-- Further actors may be added at once or one after the other. -/
theorem withCast_withCast (first rest : List Actor) :
    (script.withCast first).withCast rest = script.withCast (first ++ rest) := by
  simp only [withCast, List.append_assoc, List.map_append]

/-- Entries are added one by one if each of them is an actor that can be drawn, and no id is there
twice. -/
theorem foldlM_addCastEntry_eq_ok_iff {entries : List (String × Json)} {later : Script} :
    entries.foldlM (addCastEntry limits) script = .ok later ↔
      ∃ actors, List.Forall₂ (fun entry actor => loadActor limits entry.1 entry.2 = .ok actor)
          entries actors ∧ (∀ actor ∈ actors, Drawable actor ∧ actor.id ∉ script.actorIds) ∧
        (actors.map (·.id)).Nodup ∧ script.withCast actors = later := by
  induction entries generalizing script with
  | nil =>
    simp only [List.foldlM_nil, pure_eq_ok, List.forall₂_nil_left_iff, exists_eq_left,
      List.not_mem_nil, false_implies, implies_true, List.map_nil, List.nodup_nil, true_and,
      withCast_nil]
  | cons entry entries ih =>
    simp only [List.foldlM_cons, bind_eq_ok, addCastEntry_eq_ok_iff, ih,
      List.forall₂_cons_left_iff]
    constructor
    -- the id that is added first is one that the others may not have
    · rintro ⟨-, ⟨actor, hactor, hid, hdrawable, rfl⟩, actors, hactors, hnew, hnodup, rfl⟩
      refine ⟨actor :: actors, ⟨actor, actors, hactor, hactors, rfl⟩, ?_, ?_, ?_⟩
      · refine List.forall_mem_cons.mpr ⟨⟨hdrawable, hid⟩, fun other hother => ?_⟩
        exact ⟨(hnew other hother).1, fun h => (hnew other hother).2 (List.mem_append_left _ h)⟩
      · rw [List.map_cons, List.nodup_cons]
        refine ⟨fun hmem => ?_, hnodup⟩
        obtain ⟨other, hother, heq⟩ := List.mem_map.mp hmem
        exact (hnew other hother).2 (List.mem_append_right _ (heq ▸ List.mem_singleton_self _))
      · rw [withCast_withCast, List.singleton_append]
    · rintro ⟨-, ⟨actor, actors, hactor, hactors, rfl⟩, hnew, hnodup, rfl⟩
      rw [List.forall_mem_cons] at hnew
      rw [List.map_cons, List.nodup_cons] at hnodup
      refine ⟨_, ⟨actor, hactor, hnew.1.2, hnew.1.1, rfl⟩, actors, hactors, ?_, hnodup.2, ?_⟩
      · intro other hother
        refine ⟨(hnew.2 other hother).1, fun hmem => ?_⟩
        rcases List.mem_append.mp hmem with hmem | hmem
        · exact (hnew.2 other hother).2 hmem
        · rw [List.map_singleton, List.mem_singleton] at hmem
          exact hnodup.1 (hmem ▸ List.mem_map_of_mem hother)
      · rw [withCast_withCast, List.singleton_append]

/-- A cast loads if it is an object with no more entries than allowed, each an actor that can be
drawn, under keys that differ. -/
theorem loadCast_eq_ok_iff {value : Json} {later : Script} :
    loadCast limits value = .ok later ↔
      ∃ entries actors, value = .object entries ∧ entries.length ≤ limits.actors ∧
        List.Forall₂ (fun entry actor => loadActor limits entry.1 entry.2 = .ok actor)
          entries actors ∧ (∀ actor ∈ actors, Drawable actor) ∧ (actors.map (·.id)).Nodup ∧
        empty.withCast actors = later := by
  simp only [loadCast, bind_eq_ok, exists_unit, FieldReader.object_eq_ok,
    Limits.checkActors_eq_ok_iff, foldlM_addCastEntry_eq_ok_iff, empty, List.not_mem_nil,
    not_false_eq_true, and_true]
  constructor
  · rintro ⟨fields, ⟨-, hvalue⟩, hlength, actors, hactors, hdrawable, hnodup, heq⟩
    exact ⟨fields.entries, actors, hvalue, hlength, hactors, hdrawable, hnodup, heq⟩
  · rintro ⟨entries, actors, hvalue, hlength, hactors, hdrawable, hnodup, heq⟩
    exact ⟨⟨.cast, entries⟩, ⟨rfl, hvalue⟩, hlength, actors, hactors, hdrawable, hnodup, heq⟩

/-- A loaded actor has the id that it was loaded under. -/
theorem id_eq_of_loadActor {id : String} {value : Json} {actor : Actor}
    (h : loadActor limits id value = .ok actor) : actor.id = id :=
  (loadActor_eq_ok_iff.mp h).2.1

/-- The ids of a loaded cast are the keys of its entries. -/
theorem map_id_eq_of_loadActor {entries : List (String × Json)} {actors : List Actor}
    (h : List.Forall₂ (fun entry actor => loadActor limits entry.1 entry.2 = .ok actor)
      entries actors) : actors.map (·.id) = entries.map Prod.fst := by
  induction h with
  | nil => rfl
  | cons hactor _ ih => rw [List.map_cons, List.map_cons, ih, id_eq_of_loadActor hactor]

/-! ## Names that commands mention -/

/-- A command mentions the sprite that its sprite part names, or none if it has no such part. -/
theorem mentionedSprite?_eq_ok_iff {place : Nat} {command : Json} {name : Option String} :
    mentionedSprite? limits place command = .ok name ↔
      ∃ entries, command = .object entries ∧
        ((entries.lookup CommandKind.sprite.key = none ∧ name = none) ∨
          ∃ body id, entries.lookup CommandKind.sprite.key = some (.object body) ∧
            body.lookup "id" = some (.string id) ∧ id.utf8ByteSize ≤ limits.idBytes ∧
            name = some id) := by
  simp only [mentionedSprite?, bind_eq_ok, FieldReader.object_eq_ok]
  constructor
  · rintro ⟨⟨-, entries⟩, ⟨rfl, rfl⟩, hname⟩
    refine ⟨entries, rfl, ?_⟩
    split at hname
    · next hnone => exact Or.inl ⟨hnone, (pure_eq_ok.mp hname).symm⟩
    · next value hvalue =>
      simp only [bind_eq_ok, exists_unit, pure_eq_ok, FieldReader.object_eq_ok,
        Section.required_string_eq_ok, Limits.checkId_eq_ok_iff] at hname
      obtain ⟨⟨-, body⟩, ⟨rfl, rfl⟩, id, hid, hbytes, rfl⟩ := hname
      exact Or.inr ⟨body, id, hvalue, hid, hbytes, rfl⟩
  · rintro ⟨entries, rfl, ⟨hnone, rfl⟩ | ⟨body, id, hbody, hid, hbytes, rfl⟩⟩
    · exact ⟨⟨_, entries⟩, ⟨rfl, rfl⟩, by simp only [Section.find?, hnone, pure_eq_ok]⟩
    · refine ⟨⟨_, entries⟩, ⟨rfl, rfl⟩, ?_⟩
      simp only [Section.find?, hbody, bind_eq_ok, exists_unit, pure_eq_ok,
        FieldReader.object_eq_ok, Section.required_string_eq_ok, Limits.checkId_eq_ok_iff]
      exact ⟨⟨_, body⟩, ⟨rfl, rfl⟩, id, hid, hbytes, rfl⟩

/-- An empty name is not mentioned. -/
theorem mentionedName?_eq_ok_iff {fields : Section} {key : String} {name : Option String} :
    mentionedName? limits fields key = .ok name ↔
      (fields.find? key = none ∧ name = none) ∨
        ∃ written, fields.find? key = some (.string written) ∧
          if written = "" then name = none
          else written.utf8ByteSize ≤ limits.idBytes ∧ name = some written := by
  rw [mentionedName?, bind_eq_ok]
  have hsome (written : String) : (if written = "" then pure none else do
        limits.checkId (fields.location.key key) written
        return some written : Except Error (Option String)) = .ok name ↔
      if written = "" then name = none
      else written.utf8ByteSize ≤ limits.idBytes ∧ name = some written := by
    by_cases hempty : written = ""
    · rw [if_pos hempty, if_pos hempty, pure_eq_ok, eq_comm]
    · simp only [if_neg hempty, bind_eq_ok, exists_unit, pure_eq_ok, Limits.checkId_eq_ok_iff]
      exact and_congr_right fun _ => eq_comm
  constructor
  · rintro ⟨written, hwritten, hname⟩
    cases written with
    | none =>
      exact Or.inl ⟨Section.optional_eq_ok_none.mp hwritten, (pure_eq_ok.mp hname).symm⟩
    | some written =>
      exact Or.inr ⟨written, Section.optional_string_eq_ok.mp hwritten, (hsome written).mp hname⟩
  · rintro (⟨hnone, rfl⟩ | ⟨written, hwritten, hname⟩)
    · exact ⟨none, Section.optional_eq_ok_none.mpr hnone, rfl⟩
    · exact ⟨some written, Section.optional_string_eq_ok.mpr hwritten, (hsome written).mpr hname⟩

/-- A command mentions the image and track of its background part, or none if it has no such part.
-/
theorem mentionedAssets_eq_ok_iff {place : Nat} {command : Json}
    {names : Option String × Option String} :
    mentionedAssets limits place command = .ok names ↔
      ∃ entries, command = .object entries ∧
        ((entries.lookup CommandKind.background.key = none ∧ names = (none, none)) ∨
          ∃ body, entries.lookup CommandKind.background.key = some (.object body.entries) ∧
            body.location = (Location.command place).key CommandKind.background.key ∧
            mentionedName? limits body "image" = .ok names.1 ∧
            mentionedName? limits body "music" = .ok names.2) := by
  simp only [mentionedAssets, bind_eq_ok, FieldReader.object_eq_ok]
  constructor
  · rintro ⟨⟨-, entries⟩, ⟨rfl, rfl⟩, hnames⟩
    refine ⟨entries, rfl, ?_⟩
    split at hnames
    · next hnone => exact Or.inl ⟨hnone, (pure_eq_ok.mp hnames).symm⟩
    · next value hvalue =>
      simp only [bind_eq_ok, pure_eq_ok, FieldReader.object_eq_ok] at hnames
      obtain ⟨body, ⟨hlocation, rfl⟩, image, himage, music, hmusic, rfl⟩ := hnames
      exact Or.inr ⟨body, hvalue, hlocation, himage, hmusic⟩
  · rintro ⟨entries, rfl, ⟨hnone, rfl⟩ | ⟨body, hbody, hlocation, himage, hmusic⟩⟩
    · exact ⟨⟨_, entries⟩, ⟨rfl, rfl⟩, by simp only [Section.find?, hnone, pure_eq_ok]⟩
    · refine ⟨⟨_, entries⟩, ⟨rfl, rfl⟩, ?_⟩
      simp only [Section.find?, hbody, bind_eq_ok, pure_eq_ok, FieldReader.object_eq_ok]
      exact ⟨body, ⟨hlocation, rfl⟩, _, himage, _, hmusic, rfl⟩

/-! ## Commands -/

/-- An actor is resolved to the index of its id. -/
theorem resolveActor_eq_ok_iff {fields : Section} {id : String} {index : Nat} :
    script.resolveActor fields id = .ok index ↔ script.actorIndex? id = some index := by
  rw [resolveActor]
  cases script.actorIndex? id with
  | none => simp
  | some other => simp

/-- A portrait is absent, or a cell of the sheet of an actor of the cast. -/
theorem resolvePortrait_eq_ok_iff {fields : Section} {actor : Option Nat}
    {portrait : Option UInt32} :
    script.resolvePortrait fields actor = .ok portrait ↔
      (fields.find? "portrait" = none ∧ portrait = none) ∨
        ∃ column row speaker cell,
          fields.optional "portrait" (.pair (.whole 0)) = .ok (some (column, row)) ∧
            actor.bind script.actorAt? = some speaker ∧
            speaker.sheetSize.cellIndex column row = some cell ∧ portrait = some cell := by
  rw [resolvePortrait, bind_eq_ok]
  constructor
  · rintro ⟨pair, hpair, hportrait⟩
    cases pair with
    | none =>
      exact Or.inl ⟨Section.optional_eq_ok_none.mp hpair, (pure_eq_ok.mp hportrait).symm⟩
    | some pair =>
      obtain ⟨column, row⟩ := pair
      cases hspeaker : actor.bind script.actorAt? with
      | none => simp only [hspeaker, throw_eq_ok] at hportrait
      | some speaker =>
        simp only [hspeaker] at hportrait
        cases hcell : speaker.sheetSize.cellIndex column row with
        | none => simp only [hcell, throw_eq_ok] at hportrait
        | some cell =>
          simp only [hcell, pure_eq_ok] at hportrait
          exact Or.inr ⟨column, row, speaker, cell, hpair, rfl, hcell, hportrait.symm⟩
  · rintro (⟨hnone, rfl⟩ | ⟨column, row, speaker, cell, hpair, hspeaker, hcell, rfl⟩)
    · exact ⟨none, Section.optional_eq_ok_none.mpr hnone, rfl⟩
    · refine ⟨_, hpair, ?_⟩
      simp only [hspeaker, hcell, pure_eq_ok]

/-- What the fields of a sprite command say, their names resolved. -/
structure ReadsSprite (script : Script) (fields : Section) (command : SpriteCommand) : Prop where
  id : ∃ id, fields.find? "id" = some (.string id) ∧
    script.sprites.position? id = some command.sprite
  actor : ∃ name, fields.optional "actor" .string = .ok name ∧
    name.map script.actorIndex? = command.actor.map some
  hide : ∃ hide, fields.optional "hide" .bool = .ok hide ∧ hide.getD false = command.hide
  portrait : script.resolvePortrait fields command.actor = .ok command.portrait
  pos : fields.optional "pos" .vector = .ok command.pos
  size : fields.optional "size" .vector = .ok command.size

/-- A sprite command is resolved just to what its fields read as. -/
theorem resolveSprite_eq_ok_iff {fields : Section} {command : SpriteCommand} :
    script.resolveSprite fields = .ok command ↔ script.ReadsSprite fields command := by
  rw [resolveSprite, bind_eq_ok]
  -- the chain branches at the two names that are resolved, which is where it is taken apart
  constructor
  · rintro ⟨id, hid, h⟩
    have hfind := Section.required_string_eq_ok.mp hid
    cases hsprite : script.sprites.position? id with
    | none => simp only [hsprite, bind_eq_ok, throw_eq_ok, false_and, exists_const] at h
    | some sprite =>
      simp only [hsprite, bind_eq_ok, pure_eq_ok, exists_eq_left'] at h
      obtain ⟨name, hname, h⟩ := h
      cases name with
      | none =>
        simp only [bind_eq_ok, pure_eq_ok, exists_eq_left'] at h
        obtain ⟨hide, hhide, portrait, hportrait, pos, hpos, size, hsize, rfl⟩ := h
        exact ⟨⟨id, hfind, hsprite⟩, ⟨none, hname, rfl⟩, ⟨hide, hhide, rfl⟩, hportrait, hpos, hsize⟩
      | some name =>
        simp only [bind_eq_ok, pure_eq_ok, map_eq_ok, resolveActor_eq_ok_iff] at h
        obtain ⟨-, ⟨index, hindex, rfl⟩, hide, hhide, portrait, hportrait, pos, hpos, size, hsize,
          rfl⟩ := h
        exact ⟨⟨id, hfind, hsprite⟩, ⟨some name, hname, congrArg some hindex⟩, ⟨hide, hhide, rfl⟩,
          hportrait, hpos, hsize⟩
  · rintro ⟨⟨id, hfind, hsprite⟩, ⟨name, hname, hactor⟩, ⟨hide, hhide, hgetD⟩, hportrait, hpos,
      hsize⟩
    refine ⟨id, Section.required_string_eq_ok.mpr hfind, ?_⟩
    simp only [hsprite, bind_eq_ok, pure_eq_ok, exists_eq_left']
    refine ⟨name, hname, ?_⟩
    obtain ⟨sprite, _, actor, portrait, pos, size⟩ := command
    subst hgetD
    cases name with
    | none =>
      obtain rfl : actor = none := Option.map_eq_none_iff.mp hactor.symm
      simp only [bind_eq_ok, pure_eq_ok, exists_eq_left']
      exact ⟨hide, hhide, portrait, hportrait, pos, hpos, size, hsize, rfl⟩
    | some name =>
      obtain ⟨index, rfl, hindex⟩ := Option.map_eq_some_iff.mp hactor.symm
      simp only [bind_eq_ok, pure_eq_ok, map_eq_ok, resolveActor_eq_ok_iff]
      exact ⟨_, ⟨index, hindex.symm, rfl⟩, hide, hhide, portrait, hportrait, pos, hpos, size, hsize,
        rfl⟩

/-- What the fields of a speak command say, their names resolved. -/
structure ReadsSpeak (limits : Limits) (script : Script) (fields : Section)
    (command : SpeakCommand) : Prop where
  actor : ∃ id index, fields.find? "actor" = some (.string id) ∧
    script.actorIndex? id = some index ∧ command.actor = some index
  text : ∃ text, fields.optional "text" .string = .ok text ∧ text.getD "" = command.text
  text_le : command.text.utf8ByteSize ≤ limits.textBytes
  portrait : script.resolvePortrait fields command.actor = .ok command.portrait

/-- A speak command is resolved just to what its fields read as. -/
theorem resolveSpeak_eq_ok_iff {fields : Section} {command : SpeakCommand} :
    script.resolveSpeak limits fields = .ok command ↔
      ReadsSpeak limits script fields command := by
  simp only [resolveSpeak, bind_eq_ok, exists_unit, pure_eq_ok, resolveActor_eq_ok_iff,
    Section.required_string_eq_ok, Limits.checkText_eq_ok_iff]
  constructor
  · rintro ⟨id, hid, index, hindex, text, htext, hbytes, portrait, hportrait, rfl⟩
    exact ⟨⟨id, index, hid, hindex, rfl⟩, ⟨text, htext, rfl⟩, hbytes, hportrait⟩
  · rintro ⟨⟨id, index, hid, hindex, hactor⟩, ⟨text, htext, hgetD⟩, hbytes, hportrait⟩
    obtain ⟨actor, portrait, _⟩ := command
    subst hgetD hactor
    exact ⟨id, hid, index, hindex, text, htext, hbytes, portrait, hportrait, rfl⟩

/-- A wait is resolved to its time, which is not negative. -/
theorem resolveWait_eq_ok_iff {fields : Section} {duration : Single} :
    resolveWait fields = .ok duration ↔
      fields.required "time" .single = .ok duration ∧ ¬duration < 0 := by
  simp only [resolveWait, bind_eq_ok, guard_eq_ok, pure_eq_ok]
  constructor
  · rintro ⟨time, htime, hneg, rfl⟩
    exact ⟨htime, hneg⟩
  · rintro ⟨htime, hneg⟩
    exact ⟨duration, htime, hneg, rfl⟩

/-- What an optional name does to an asset. -/
def ReadsAsset (pool : Pool String) : Option String → AssetRef → Prop
  | none, asset => asset = .keep
  | some name, asset =>
    if name = "" then asset = .clear
    else ∃ index, pool.position? name = some index ∧ asset = .set index

/-- An asset is resolved just to what its name reads as. -/
theorem resolveAsset_eq_ok_iff {kind : ReferenceKind} {pool : Pool String} {fields : Section}
    {key : String} {asset : AssetRef} :
    resolveAsset kind pool fields key = .ok asset ↔
      ∃ name, fields.optional key .string = .ok name ∧ ReadsAsset pool name asset := by
  rw [resolveAsset, bind_eq_ok]
  refine exists_congr fun name => and_congr_right fun _ => ?_
  cases name with
  | none => exact pure_eq_ok.trans eq_comm
  | some name =>
    by_cases hempty : name = ""
    · simp only [hempty, if_true, pure_eq_ok, ReadsAsset]
      exact eq_comm
    · simp only [hempty, if_false, ReadsAsset]
      cases pool.position? name with
      | none => simp [throw_eq_ok]
      | some index =>
        simp only [pure_eq_ok, Option.some.injEq, exists_eq_left']
        exact eq_comm

/-- A background command is resolved just to what its two names read as. -/
theorem resolveBackground_eq_ok_iff {fields : Section} {command : BackgroundCommand} :
    script.resolveBackground fields = .ok command ↔
      (∃ name, fields.optional "image" .string = .ok name ∧
        ReadsAsset script.backgrounds name command.image) ∧
      ∃ name, fields.optional "music" .string = .ok name ∧
        ReadsAsset script.music name command.music := by
  simp only [resolveBackground, bind_eq_ok, pure_eq_ok, resolveAsset_eq_ok_iff]
  constructor
  · rintro ⟨image, himage, music, hmusic, rfl⟩
    exact ⟨himage, hmusic⟩
  · rintro ⟨himage, hmusic⟩
    exact ⟨_, himage, _, hmusic, rfl⟩

/-- What the fields of the body of a command say, their names resolved. -/
def ReadsBody (limits : Limits) (script : Script) (fields : Section) : Command → Prop
  | .sprite command => script.ReadsSprite fields command
  | .speak command => ReadsSpeak limits script fields command
  | .wait duration => fields.required "time" .single = .ok duration ∧ ¬duration < 0
  | .background command =>
    (∃ name, fields.optional "image" .string = .ok name ∧
      ReadsAsset script.backgrounds name command.image) ∧
    ∃ name, fields.optional "music" .string = .ok name ∧
      ReadsAsset script.music name command.music

/-- A body is resolved to a command of its kind that its fields read as. -/
theorem resolveBody_eq_ok_iff {kind : CommandKind} {fields : Section} {command : Command} :
    script.resolveBody limits kind fields = .ok command ↔
      command.kind = kind ∧ ReadsBody limits script fields command := by
  cases kind <;> cases command <;>
    simp [resolveBody, map_eq_ok, Command.kind, ReadsBody, resolveSprite_eq_ok_iff,
      resolveSpeak_eq_ok_iff, resolveWait_eq_ok_iff, resolveBackground_eq_ok_iff]

/-- A kind is present with a body just if its key leads to this body. -/
theorem mem_presentKinds {fields : Section} {kind : CommandKind} {body : Json} :
    (kind, body) ∈ presentKinds fields ↔ fields.find? kind.key = some body := by
  have hall : kind ∈ CommandKind.all := by cases kind <;> decide
  rw [presentKinds, List.mem_filterMap]
  constructor
  · rintro ⟨other, -, hother⟩
    obtain ⟨value, hvalue, heq⟩ := Option.map_eq_some_iff.mp hother
    obtain ⟨rfl, rfl⟩ := Prod.mk.inj heq
    exact hvalue
  · intro h
    exact ⟨kind, hall, Option.map_eq_some_iff.mpr ⟨body, h, rfl⟩⟩

/-- Where one kind is present, no key of another kind is there. -/
theorem lookup_of_presentKinds {location : Location} {entries : List (String × Json)}
    {kind : CommandKind} {body : Json} (h : presentKinds ⟨location, entries⟩ = [(kind, body)])
    (other : CommandKind) :
    entries.lookup other.key = if other = kind then some body else none := by
  -- the kinds that are present are those whose keys are there
  have hmem (value : Json) : entries.lookup other.key = some value ↔
      other = kind ∧ value = body := by
    have hpresent : (other, value) ∈ [(kind, body)] ↔ entries.lookup other.key = some value := by
      rw [← h, mem_presentKinds]
      rfl
    rw [← hpresent, List.mem_singleton, Prod.mk.injEq]
  split
  · next heq => exact (hmem body).mpr ⟨heq, rfl⟩
  · next hne =>
    rw [Option.eq_none_iff_forall_ne_some]
    intro value hvalue
    exact hne ((hmem value).mp hvalue).1

/-- A command is an object with the key of its kind and of no other; what is under the key is an
object that says what the command does. -/
theorem resolveCommand_eq_ok_iff {place : Nat} {value : Json} {command : Command} :
    script.resolveCommand limits place value = .ok command ↔
      ∃ entries body, value = .object entries ∧
        presentKinds ⟨.command place, entries⟩ = [(command.kind, .object body)] ∧
        ReadsBody limits script ⟨(Location.command place).key command.kind.key, body⟩ command := by
  simp only [resolveCommand, bind_eq_ok, FieldReader.object_eq_ok]
  constructor
  · rintro ⟨⟨-, entries⟩, ⟨rfl, rfl⟩, h⟩
    split at h
    · exact absurd (throw_eq_ok.mp h) id
    · next kind value hkinds =>
      simp only [bind_eq_ok, FieldReader.object_eq_ok, resolveBody_eq_ok_iff] at h
      obtain ⟨⟨-, body⟩, ⟨rfl, rfl⟩, rfl, hbody⟩ := h
      exact ⟨entries, body, rfl, hkinds, hbody⟩
    · exact absurd (throw_eq_ok.mp h) id
  · rintro ⟨entries, body, rfl, hkinds, hbody⟩
    refine ⟨⟨.command place, entries⟩, ⟨rfl, rfl⟩, ?_⟩
    simp only [hkinds, bind_eq_ok, FieldReader.object_eq_ok, resolveBody_eq_ok_iff]
    exact ⟨⟨_, body⟩, ⟨rfl, rfl⟩, trivial, hbody⟩

/-- Something succeeds for each command just if it does at every place. -/
theorem forEachCommand_eq_ok_iff {α : Type} {commands : List Json}
    {f : Nat → Json → Except Error α} {results : List α} :
    forEachCommand commands f = .ok results ↔
      commands.length = results.length ∧ ∀ place command result,
        commands[place]? = some command → results[place]? = some result →
          f place command = .ok result :=
  mapM_zipIdx_eq_ok_iff

/-! ## Whole scripts -/

/-- A script loads if its cast does, then what its commands mention is known, and then they are
resolved in the script of this cast and these names. -/
theorem load_eq_ok_iff {value : Json} {result : Script} :
    load limits value = .ok result ↔
      ∃ fields cast commands, value = .object fields ∧ fields.lookup "actors" = some cast ∧
        fields.lookup "commands" = some (.array commands) ∧ commands.length ≤ limits.commands ∧
        ∃ script sprites assets resolved, loadCast limits cast = .ok script ∧
          forEachCommand commands (mentionedSprite? limits) = .ok sprites ∧
          forEachCommand commands (mentionedAssets limits) = .ok assets ∧
          forEachCommand commands (resolveCommand limits (script.withMentions sprites assets)) =
            .ok resolved ∧
          { script.withMentions sprites assets with commands := resolved } = result := by
  simp only [load, bind_eq_ok, exists_unit, pure_eq_ok, FieldReader.object_eq_ok,
    Section.required_eq_ok, FieldReader.array_eq_ok, exists_eq_right, Except.ok.injEq,
    Limits.checkCommands_eq_ok_iff]
  constructor
  · rintro ⟨⟨-, fields⟩, ⟨rfl, rfl⟩, cast, hcast, commands, hcommands, hlength, script, hscript,
      sprites, hsprites, assets, hassets, resolved, hresolved, rfl⟩
    exact ⟨fields, cast, commands, rfl, hcast, hcommands, hlength, script, sprites, assets,
      resolved, hscript, hsprites, hassets, hresolved, rfl⟩
  · rintro ⟨fields, cast, commands, rfl, hcast, hcommands, hlength, script, sprites, assets,
      resolved, hscript, hsprites, hassets, hresolved, rfl⟩
    exact ⟨⟨_, fields⟩, ⟨rfl, rfl⟩, cast, hcast, commands, hcommands, hlength, script, hscript,
      sprites, hsprites, assets, hassets, resolved, hresolved, rfl⟩

/-! ## Soundness -/

/-- A script with nothing but a loaded cast is sound. -/
theorem sound_of_loadCast {value : Json} {result : Script}
    (h : loadCast limits value = .ok result) : result.Sound := by
  obtain ⟨-, actors, -, -, -, hdrawable, hnodup, rfl⟩ := loadCast_eq_ok_iff.mp h
  refine sound_empty.withCast ?_ hdrawable
  rw [empty, List.nil_append]
  exact hnodup

/-- A loaded cast brings no commands. -/
theorem commands_eq_nil_of_loadCast {value : Json} {result : Script}
    (h : loadCast limits value = .ok result) : result.commands = [] := by
  obtain ⟨-, -, -, -, -, -, -, rfl⟩ := loadCast_eq_ok_iff.mp h
  rfl

/-- The pools of mentioned names may take the place of others as long as there are no commands. -/
theorem Sound.withMentions (h : script.Sound) (hcommands : script.commands = [])
    (sprites : List (Option String)) (assets : List (Option String × Option String)) :
    (script.withMentions sprites assets).Sound := by
  refine h.withPools (Pool.registered_ofNames _) (Pool.registered_ofNames _)
    (Pool.registered_ofNames _) fun command hcommand => ?_
  rw [hcommands] at hcommand
  exact absurd hcommand List.not_mem_nil

/-- What the name of an asset reads as resolves. -/
theorem assetResolves_of_readsAsset {pool : Pool String} (hpool : pool.Registered)
    {name : Option String} {asset : AssetRef} (hasset : ReadsAsset pool name asset) :
    AssetResolves pool asset := by
  intro index hindex
  cases name with
  | none =>
    obtain rfl : asset = .keep := hasset
    exact absurd hindex nofun
  | some name =>
    rw [ReadsAsset] at hasset
    split at hasset
    · subst hasset
      exact absurd hindex nofun
    · obtain ⟨other, hposition, rfl⟩ := hasset
      obtain rfl := Option.some.inj hindex
      exact Pool.lt_size_iff.mpr ⟨name, hpool.position?_eq_some_iff.mp hposition⟩

section Admits

variable (h : script.Sound) {fields : Section}
include h

/-- Column and row of a cell inside the sheet give a number below that of the cells. -/
theorem portraitFits_of_resolvePortrait {actor : Option Nat} {portrait : Option UInt32}
    (hactor : ∀ index ∈ actor, ∃ id, script.actorIndex? id = some index)
    (hportrait : script.resolvePortrait fields actor = .ok portrait) :
    script.PortraitFits actor portrait := by
  rw [resolvePortrait_eq_ok_iff] at hportrait
  cases actor with
  | none =>
    obtain ⟨-, rfl⟩ | ⟨_, _, _, _, -, hspeaker, -⟩ := hportrait
    · rfl
    · exact absurd hspeaker nofun
  | some index =>
    -- an index that an id was resolved to is that of an actor
    obtain ⟨id, hindex⟩ := hactor index rfl
    obtain ⟨actor, hactor, -⟩ := h.actorIndex?_eq_some_iff.mp hindex
    refine ⟨actor, hactor, fun cell hcell => ?_⟩
    obtain ⟨-, rfl⟩ | ⟨column, row, speaker, other, -, hspeaker, hnumber, rfl⟩ := hportrait
    · exact absurd hcell nofun
    · obtain rfl := Option.some.inj hcell
      rw [Option.bind_some, hactor] at hspeaker
      obtain rfl := Option.some.inj hspeaker
      exact SheetSize.cellIndex_lt_area hnumber

/-- A command that resolves is one that the script admits. -/
theorem admits_of_readsBody {command : Command}
    (hbody : ReadsBody limits script fields command) : script.Admits command := by
  cases command with
  | sprite command =>
    obtain ⟨id, -, hsprite⟩ := hbody.id
    refine ⟨Pool.lt_size_iff.mpr ⟨id, h.sprites.position?_eq_some_iff.mp hsprite⟩,
      fun v hv => ?_, fun v hv => ?_, portraitFits_of_resolvePortrait h ?_ hbody.portrait⟩
    · obtain ⟨_, -, hvector⟩ := Section.optional_eq_ok_some.mp (hv ▸ hbody.pos)
      exact FieldReader.isFinite_of_vector hvector
    · obtain ⟨_, -, hvector⟩ := Section.optional_eq_ok_some.mp (hv ▸ hbody.size)
      exact FieldReader.isFinite_of_vector hvector
    · intro index hindex
      obtain ⟨name, -, hname⟩ := hbody.actor
      rw [hindex, Option.map_some, Option.map_eq_some_iff] at hname
      obtain ⟨id, -, hid⟩ := hname
      exact ⟨id, hid⟩
  | speak command =>
    obtain ⟨id, index, -, hindex, hactor⟩ := hbody.actor
    refine ⟨hactor ▸ nofun, portraitFits_of_resolvePortrait h ?_ hbody.portrait⟩
    intro other hother
    rw [hactor] at hother
    exact ⟨id, Option.some.inj hother ▸ hindex⟩
  | wait duration =>
    obtain ⟨_, -, hsingle⟩ := Section.required_eq_ok.mp hbody.1
    obtain ⟨_, -, -, hfinite⟩ := FieldReader.single_eq_ok.mp hsingle
    exact ⟨hfinite, hbody.2⟩
  | background command =>
    obtain ⟨⟨_, -, himage⟩, _, -, hmusic⟩ := hbody
    exact ⟨assetResolves_of_readsAsset h.backgrounds himage,
      assetResolves_of_readsAsset h.music hmusic⟩

end Admits

/-- What is loaded is sound: readers and the check of a command refuse the same. -/
theorem sound_of_load {value : Json} {result : Script} (h : load limits value = .ok result) :
    result.Sound := by
  obtain ⟨-, cast, commands, -, -, -, -, script, sprites, assets, resolved, hcast, -, -, hresolved,
    rfl⟩ := load_eq_ok_iff.mp h
  -- commands are resolved in the finished tables, before any of them is in the script
  have hsound : (script.withMentions sprites assets).Sound :=
    (sound_of_loadCast hcast).withMentions (commands_eq_nil_of_loadCast hcast) sprites assets
  apply hsound.withCommands
  intro command hcommand
  obtain ⟨hlength, hresolved⟩ := forEachCommand_eq_ok_iff.mp hresolved
  obtain ⟨place, hplace⟩ := List.getElem?_of_mem hcommand
  have hlt : place < commands.length := hlength ▸ (List.getElem?_eq_some_iff.mp hplace).1
  obtain ⟨_, _, -, -, hbody⟩ := resolveCommand_eq_ok_iff.mp
    (hresolved place _ command (List.getElem?_eq_getElem hlt) hplace)
  exact admits_of_readsBody hsound hbody

/-- In a loaded script, sprites are as their ids made them. -/
theorem untouched_of_load {value : Json} {result : Script} (h : load limits value = .ok result) :
    result.sprites.Untouched := by
  obtain ⟨-, -, -, -, -, -, -, _, _, _, _, -, -, -, -, rfl⟩ := load_eq_ok_iff.mp h
  exact Pool.untouched_ofNames _

end Script

end VisualNovel
