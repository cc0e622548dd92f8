import Mathlib.Data.List.InsertIdx
import VisualNovel.Proofs.Script.History
import VisualNovel.Proofs.Script.Reading

/-!
# Editing keeps what indices mean

Commands refer to the tables of a script by index, so a table must never move what stands in it. No
edit does, unless it replaces the script by a loaded one: what an index led to, it leads to after
any further edits (`grows_editAll`). So the readings of the commands stay as they are, up to the one
that an edit inserts or removes (`Sound.revises_edit`), and an edit that is refused changes nothing
(`edit_eq_of_refuses`).
-/

namespace VisualNovel.Script

/-! ## Edits and readings -/

/-- Whether an edit changes the script that is there, and does not replace it. -/
def Edit.isAuthoring : Edit → Bool
  | reload _ _ => false
  | _ => true

/-- The readings of the commands, in order. -/
def readings (script : Script) : List (Option Reading) := script.commands.map script.reading?

/-- The readings that an edit leaves if it is not refused: one more, one less, or the same. -/
def Revises (script : Script) (edit : Edit) (readings : List (Option Reading)) : Prop :=
  match edit with
  | .push command => readings = script.readings ++ [script.reading? command]
  | .insert place command =>
    place ≤ script.readings.length ∧
      readings = script.readings.insertIdx place (script.reading? command)
  | .remove place =>
    place < script.readings.length ∧ readings = script.readings.eraseIdx place
  | _ => readings = script.readings

variable {script later : Script}

/-- What is refused changes nothing: no operation has written to the script when it gives up. -/
theorem edit_eq_of_refuses {edit : Edit} (h : script.Refuses edit) : script.edit edit = script := by
  rcases script.edit_cases edit with ⟨haccepted, -⟩ | ⟨-, heq⟩
  · exact absurd h haccepted
  · exact heq

/-! ## Indices -/

/-- A script has grown if nothing was added. -/
theorem Grows.refl (script : Script) : script.Grows script :=
  ⟨fun h => h, fun h => h, fun h => h, fun h => h⟩

/-- Growing twice is growing. -/
theorem Grows.trans {latest : Script} (h : script.Grows later) (hlatest : later.Grows latest) :
    script.Grows latest where
  actors hactor := hlatest.actors (h.actors hactor)
  sprites hname := hlatest.sprites (h.sprites hname)
  backgrounds hname := hlatest.backgrounds (h.backgrounds hname)
  music hname := hlatest.music (h.music hname)

/-- Other commands change no table. -/
theorem grows_withCommands (script : Script) (commands : List Command) :
    script.Grows { script with commands } :=
  ⟨fun h => h, fun h => h, fun h => h, fun h => h⟩

/-- Nothing that is accepted moves what stands in a table, but for a reload. -/
theorem Accepts.grows {edit : Edit} (haccepts : script.Accepts edit later)
    (h : edit.isAuthoring) : script.Grows later := by
  cases haccepts with
  | addActor => exact grows_withCast script _
  | ensureSprite id => exact grows_ensureSprite script id
  | ensureBackground name => exact grows_ensureBackground script name
  | ensureMusic name => exact grows_ensureMusic script name
  | push | insert | remove => exact grows_withCommands script _
  | reload => exact absurd h Bool.false_ne_true

/-- No edit moves what stands in a table. -/
theorem grows_edit (script : Script) {edit : Edit} (h : edit.isAuthoring) :
    script.Grows (script.edit edit) := by
  rcases script.edit_cases edit with ⟨-, haccepts⟩ | ⟨-, heq⟩
  · exact haccepts.grows h
  · rw [heq]
    exact .refl script

/-- No further edits move what stands in a table. -/
theorem grows_editAll (script : Script) {edits : List Edit} (h : ∀ edit ∈ edits, edit.isAuthoring) :
    script.Grows (script.editAll edits) := by
  induction edits generalizing script with
  | nil => exact .refl script
  | cons edit edits ih =>
    rw [List.forall_mem_cons] at h
    exact (script.grows_edit h.1).trans (ih _ h.2)

/-! ## Readings -/

/-- An asset keeps the reading that it has. -/
theorem Grows.assetReading?_eq {pool laterPool : Pool String}
    (h : ∀ {index name}, pool.nameAt? index = some name → laterPool.nameAt? index = some name)
    {asset : AssetRef} {reading : AssetReading} (hreading : asset.reading? pool = some reading) :
    asset.reading? laterPool = some reading := by
  cases asset with
  | keep => exact hreading
  | clear => exact hreading
  | set index =>
    obtain ⟨name, hname, rfl⟩ := Option.map_eq_some_iff.mp hreading
    exact Option.map_eq_some_iff.mpr ⟨name, h hname, rfl⟩

/-- An actor keeps the reading that it has. -/
theorem Grows.actorReading?_eq (h : script.Grows later) {index : Option Nat} {actor : Option Actor}
    (hreading : script.actorReading? index = some actor) :
    later.actorReading? index = some actor := by
  cases index with
  | none => exact hreading
  | some index =>
    obtain ⟨speaker, hspeaker, rfl⟩ := Option.map_eq_some_iff.mp hreading
    exact Option.map_eq_some_iff.mpr ⟨speaker, h.actors hspeaker, rfl⟩

/-- A command keeps the reading that it has. -/
theorem Grows.reading?_eq (h : script.Grows later) {command : Command} {reading : Reading}
    (hreading : script.reading? command = some reading) :
    later.reading? command = some reading := by
  cases reading with
  | sprite id hide actor portrait pos size =>
    obtain ⟨sprite, index, rfl, hid, hactor⟩ := reading?_eq_sprite_iff.mp hreading
    exact reading?_eq_sprite_iff.mpr ⟨sprite, index, rfl, h.sprites hid, h.actorReading?_eq hactor⟩
  | speak actor portrait text =>
    obtain ⟨index, rfl, hactor⟩ := reading?_eq_speak_iff.mp hreading
    exact reading?_eq_speak_iff.mpr ⟨index, rfl, h.actors hactor⟩
  | wait duration =>
    exact reading?_eq_wait_iff.mpr (reading?_eq_wait_iff.mp hreading)
  | background image music =>
    obtain ⟨image', music', rfl, himage, hmusic⟩ := reading?_eq_background_iff.mp hreading
    exact reading?_eq_background_iff.mpr ⟨image', music', rfl,
      Grows.assetReading?_eq h.backgrounds himage, Grows.assetReading?_eq h.music hmusic⟩

/-- A script whose tables grow keeps the readings of its commands. -/
theorem Sound.readings_eq (hsound : script.Sound) (h : script.Grows later)
    (hcommands : later.commands = script.commands) : later.readings = script.readings := by
  rw [readings, hcommands, readings]
  refine List.map_congr_left fun command hcommand => ?_
  obtain ⟨reading, hreading, -⟩ := (hsound.admitted command hcommand).exists_reading
  rw [hreading]
  exact h.reading?_eq hreading

/-- Every command of a sound script has a reading. -/
theorem Sound.none_not_mem_readings (hsound : script.Sound) : none ∉ script.readings := by
  intro hnone
  obtain ⟨command, hcommand, heq⟩ := List.mem_map.mp hnone
  obtain ⟨reading, hreading, -⟩ := (hsound.admitted command hcommand).exists_reading
  rw [hreading] at heq
  exact absurd heq (Option.some_ne_none _)

theorem length_readings (script : Script) : script.readings.length = script.commands.length :=
  List.length_map _

theorem readings_withCommands (script : Script) (commands : List Command) :
    ({ script with commands } : Script).readings = commands.map script.reading? := by
  rw [readings, reading?_withCommands]

/-- What is accepted inserts or removes one reading, or leaves the readings as they are. -/
theorem Accepts.revises {edit : Edit} (haccepts : script.Accepts edit later)
    (hsound : script.Sound) (h : edit.isAuthoring) : script.Revises edit later.readings := by
  have hgrows := haccepts.grows h
  cases haccepts with
  | addActor | ensureSprite | ensureBackground | ensureMusic =>
    exact hsound.readings_eq hgrows rfl
  | push =>
    rw [Revises, readings_withCommands, List.map_append]
    rfl
  | insert hplace =>
    rw [Revises, length_readings, readings_withCommands, List.map_insertIdx]
    exact ⟨hplace, rfl⟩
  | remove hplace =>
    rw [Revises, length_readings, readings_withCommands, ← List.eraseIdx_map]
    exact ⟨hplace, rfl⟩
  | reload => exact absurd h Bool.false_ne_true

/-- An edit that is not refused revises the readings. -/
theorem Sound.revises_edit (hsound : script.Sound) {edit : Edit} (h : edit.isAuthoring)
    (haccepted : ¬script.Refuses edit) : script.Revises edit (script.edit edit).readings := by
  rcases script.edit_cases edit with ⟨-, haccepts⟩ | ⟨hrefuses, -⟩
  · exact haccepts.revises hsound h
  · exact absurd hrefuses haccepted

/-! ## Editing for any time -/

/-- However a script in use is edited, indices keep their meaning: actors and names stay where they
are, and a known name leads to its old index. Each further edit either is refused and changes
nothing, or inserts or removes one command where it says so, while all commands, whose indices
resolve throughout, are read as before. -/
theorem Reachable.indices_keep_meaning (h : script.Reachable) {edits : List Edit}
    (hedits : ∀ edit ∈ edits, edit.isAuthoring) :
    let later := script.editAll edits
    script.Grows later ∧
      (∀ index id, script.sprites.nameAt? index = some id →
        later.ensureSprite id = (index, later)) ∧
      (∀ index name, script.backgrounds.nameAt? index = some name →
        later.ensureBackground name = (index, later)) ∧
      (∀ index name, script.music.nameAt? index = some name →
        later.ensureMusic name = (index, later)) ∧
      none ∉ later.readings ∧
      ∀ edit : Edit, edit.isAuthoring →
        (later.Refuses edit → later.edit edit = later) ∧
          (¬later.Refuses edit → later.Revises edit (later.edit edit).readings) := by
  intro later
  have hgrows : script.Grows later := script.grows_editAll hedits
  have hsound : later.Sound := (h.editAll edits).sound
  refine ⟨hgrows, fun index id hid => ?_, fun index name hname => ?_, fun index name hname => ?_,
    hsound.none_not_mem_readings, fun edit hedit => ⟨edit_eq_of_refuses, hsound.revises_edit hedit⟩⟩
  · rw [ensureSprite, hsound.sprites.ensure_of_nameAt? (hgrows.sprites hid)]
  · rw [ensureBackground, hsound.backgrounds.ensure_of_nameAt? (hgrows.backgrounds hname)]
  · rw [ensureMusic, hsound.music.ensure_of_nameAt? (hgrows.music hname)]

/-- More is asked of the greeting: names it knows and new ones, an actor whose id is taken, a
command at the front, and the removal of one that is there and of one that is not. -/
def revision : List Edit :=
  [.ensureMusic "tune", .ensureBackground "hall", .addActor ⟨"ann", "Anna", "anna.png", ⟨1, 1⟩⟩,
    .addActor ⟨"bob", "Bob", "bob.png", ⟨1, 1⟩⟩, .insert 0 (.background ⟨.keep, .set 0⟩),
    .remove 2, .remove 9]

/-- After the revision, indices of the greeting lead where they led, and an actor whose id was taken
by it is refused without a trace. -/
theorem indices_keep_meaning_greeting :
    let later := (empty.editAll greeting).editAll revision
    (∀ edit ∈ revision, edit.isAuthoring) ∧
      later.actorAt? 0 = some ⟨"ann", "Ann", "ann.png", ⟨2, 3⟩⟩ ∧
      (later.ensureBackground "hall").1 = 0 ∧ none ∉ later.readings ∧
      later.edit (.addActor ⟨"bob", "Rob", "rob.png", ⟨1, 1⟩⟩) = later := by
  intro later
  have hrevision : ∀ edit ∈ revision, edit.isAuthoring := by decide +kernel
  obtain ⟨hgrows, -, hbackgrounds, -, hreadings, hedit⟩ :=
    (Reachable.empty.editAll greeting).indices_keep_meaning hrevision
  refine ⟨hrevision, hgrows.actors (by decide +kernel), ?_, hreadings, ?_⟩
  · rw [hbackgrounds 0 "hall" (by decide +kernel)]
  · refine (hedit (.addActor ⟨"bob", "Rob", "rob.png", ⟨1, 1⟩⟩) rfl).1 ?_
    exact ⟨.invalid (.actor "bob") .duplicateActor, by decide +kernel⟩

end VisualNovel.Script
