import VisualNovel.Proofs.Script.History
import VisualNovel.Proofs.Script.Loaded

/-!
# Saving and opening

A loaded script is written and read back as the very same script (`load_toJson_of_load`). A script
that was edited by hand may have its actors in any order, and entries in its pools that no command
mentions; it comes back with its actors in order and its pools rebuilt, and each command has the
reading it had (`Reachable.load_toJson`). The one thing that is lost is a change to an asset with an
empty name, which comes back as taking the asset away; it is written the same, so saving once more
gives the same value (`Reachable.toJson_load_toJson`).
-/

namespace VisualNovel.Script

open Outcome

/-! ## The cast in order -/

/-- The actors, ordered by id. -/
def castInOrder (script : Script) : List Actor :=
  (Json.orderEntries (script.actors.map fun actor => (actor.id, actor))).map Prod.snd

section Cast

variable {script : Script}

/-- In the ordered entries each actor stands under its id. -/
theorem fst_eq_id {entry : String × Actor}
    (h : entry ∈ Json.orderEntries (script.actors.map fun actor => (actor.id, actor))) :
    entry.1 = entry.2.id := by
  obtain ⟨actor, -, rfl⟩ := List.mem_map.mp (Json.mem_of_mem_orderEntries h)
  rfl

/-- The entries of a cast are ordered as the actors are. -/
theorem orderEntries_castEntry (script : Script) :
    Json.orderEntries (script.actors.map castEntry) = script.castInOrder.map castEntry := by
  have hentries : script.actors.map castEntry =
      (script.actors.map fun actor => (actor.id, actor)).map
        fun entry => (entry.1, (castEntry entry.2).2) := by
    rw [List.map_map]
    rfl
  rw [hentries, ← Json.map_orderEntries fun actor => (castEntry actor).2, castInOrder, List.map_map]
  apply List.map_congr_left
  intro entry hentry
  rw [fst_eq_id hentry]
  rfl

/-- The ids of the ordered cast are its keys. -/
theorem map_id_castInOrder (script : Script) :
    script.castInOrder.map (·.id) =
      (Json.orderEntries (script.actors.map fun actor => (actor.id, actor))).map Prod.fst := by
  rw [castInOrder, List.map_map]
  exact List.map_congr_left fun entry hentry => (fst_eq_id hentry).symm

/-- The ids of the ordered cast increase. -/
theorem castInOrder_sorted (script : Script) :
    (script.castInOrder.map (·.id)).Pairwise (· < ·) := by
  rw [map_id_castInOrder]
  exact Json.keysIncrease_orderEntries _

/-- The ordered cast has the actors of the script. -/
theorem castInOrder_perm (h : (script.actors.map (·.id)).Nodup) :
    script.castInOrder.Perm script.actors := by
  have hkeys : ((script.actors.map fun actor => (actor.id, actor)).map Prod.fst).Nodup := by
    rwa [List.map_map]
  have hperm := (Json.orderEntries_perm hkeys).map Prod.snd
  rwa [List.map_map, show Prod.snd ∘ (fun actor : Actor => (actor.id, actor)) = id from rfl,
    List.map_id] at hperm

/-- A cast that is in order stays so. -/
theorem castInOrder_eq_self (h : (script.actors.map (·.id)).Pairwise (· < ·)) :
    script.castInOrder = script.actors := by
  have hkeys : Json.KeysIncrease (script.actors.map fun actor => (actor.id, actor)) := by
    rwa [Json.KeysIncrease, List.map_map]
  rw [castInOrder, Json.orderEntries_eq_self hkeys, List.map_map]
  exact List.map_id _

end Cast

/-! ## Writing -/

/-- A script is written by its cast in order and the readings of its commands. -/
theorem toManuscript_eq_ok {script : Script} {readings : List Reading}
    (h : script.ReadAs readings) :
    script.toManuscript =
      .ok ⟨script.castInOrder.map castEntry, readings.map Reading.written⟩ := by
  rw [toManuscript, mapM_zipIdx_of_forall₂ (r := readings.map Reading.written),
    orderEntries_castEntry]
  · rfl
  · rw [List.forall₂_map_right_iff]
    exact List.Forall₂.imp (fun _ _ hreading place => writtenCommand_eq hreading place) h

/-- A script is written by its ordered cast and what its commands read as. -/
theorem toJson_eq_ok {script : Script} {readings : List Reading} (h : script.ReadAs readings) :
    script.toJson =
      .ok (Manuscript.toJson ⟨script.castInOrder.map castEntry, readings.map Reading.written⟩) := by
  rw [toJson, toManuscript_eq_ok h]
  rfl

/-! ## Limits -/

/-- The counts, names and texts of a script are within limits. -/
structure Within (limits : Limits) (script : Script) : Prop where
  actors_le : script.actors.length ≤ limits.actors
  commands_le : script.commands.length ≤ limits.commands
  ids_le : ∀ actor ∈ script.actors, actor.id.utf8ByteSize ≤ limits.idBytes
  sprites_le : ∀ name ∈ script.sprites.names, name.utf8ByteSize ≤ limits.idBytes
  backgrounds_le : ∀ name ∈ script.backgrounds.names, name.utf8ByteSize ≤ limits.idBytes
  music_le : ∀ name ∈ script.music.names, name.utf8ByteSize ≤ limits.idBytes
  texts_le : ∀ command ∈ script.commands, ∀ text ∈ command.text?,
    text.utf8ByteSize ≤ limits.textBytes

section Limits

variable {limits : Limits} {script : Script}

/-- What an index leads to is a name of the pool. -/
theorem mem_names_of_nameAt? {α : Type} [PoolEntry α] {pool : Pool α} (h : pool.Registered)
    {index : Nat} {name : String} (hname : pool.nameAt? index = some name) : name ∈ pool.names := by
  rw [h.nameAt?_eq] at hname
  exact List.mem_of_getElem? hname

/-- The name in a change of an asset is that of a pool entry. -/
theorem mem_names_of_reading? {pool : Pool String} (h : pool.Registered) {asset : AssetRef}
    {change : AssetReading} (hchange : asset.reading? pool = some change) {name : String}
    (hname : name ∈ change.name?) : name ∈ pool.names := by
  cases change with
  | keep => cases hname
  | clear => cases hname
  | set other =>
    obtain ⟨index, -, hother⟩ := AssetRef.reading?_eq_set_iff.mp hchange
    rw [AssetReading.name?] at hname
    split at hname
    · cases hname
    · exact Option.some.inj hname ▸ mem_names_of_nameAt? h hother

/-- What a command of a script within limits mentions is within limits. -/
theorem Within.reading (hwithin : Within limits script) (hsound : script.Sound) {command : Command}
    (hcommand : command ∈ script.commands) {reading : Reading}
    (hreading : script.reading? command = some reading) : reading.Within limits := by
  cases reading with
  | sprite id hide actor portrait pos size =>
    obtain ⟨sprite, index, -, hid, -⟩ := reading?_eq_sprite_iff.mp hreading
    refine ⟨fun name hname => ?_, forall_mem_none, forall_mem_none, forall_mem_none⟩
    exact hwithin.sprites_le name (Option.some.inj hname ▸ mem_names_of_nameAt? hsound.sprites hid)
  | speak actor portrait text =>
    obtain ⟨index, rfl, -⟩ := reading?_eq_speak_iff.mp hreading
    refine ⟨forall_mem_none, forall_mem_none, forall_mem_none, fun other hother => ?_⟩
    exact hwithin.texts_le _ hcommand other hother
  | wait duration => exact ⟨forall_mem_none, forall_mem_none, forall_mem_none, forall_mem_none⟩
  | background image music =>
    obtain ⟨_, _, -, himage, hmusic⟩ := reading?_eq_background_iff.mp hreading
    exact ⟨forall_mem_none,
      fun name hname =>
        hwithin.backgrounds_le name (mem_names_of_reading? hsound.backgrounds himage hname),
      fun name hname => hwithin.music_le name (mem_names_of_reading? hsound.music hmusic hname),
      forall_mem_none⟩

/-- Who is drawn or speaks in a reading is in the cast. -/
theorem mem_actors_of_reading? {command : Command} {reading : Reading}
    (h : script.reading? command = some reading) {actor : Actor} (hactor : actor ∈ reading.actor?) :
    actor ∈ script.actors := by
  cases reading with
  | sprite id hide speaker portrait pos size =>
    obtain ⟨sprite, index, -, -, hspeaker⟩ := reading?_eq_sprite_iff.mp h
    obtain rfl : speaker = some actor := hactor
    cases index with
    | none => cases hspeaker
    | some index =>
      obtain ⟨other, hother, heq⟩ := Option.map_eq_some_iff.mp hspeaker
      exact Option.some.inj heq ▸ List.mem_of_getElem? hother
  | speak speaker portrait text =>
    obtain ⟨index, -, hspeaker⟩ := reading?_eq_speak_iff.mp h
    exact Option.some.inj hactor ▸ List.mem_of_getElem? hspeaker
  | wait duration => cases hactor
  | background image music => cases hactor

end Limits

/-! ## Scripts that were loaded -/

/-- What was loaded from a value with ordered keys is written, and what is written loads under the
same limits as the very same script: with the same indices, names and commands. -/
theorem load_toJson_of_load {limits : Limits} {value : Json} {script : Script}
    (h : load limits value = .ok script) (hordered : value.Ordered) :
    ∃ written, script.toJson = .ok written ∧ load limits written = .ok script := by
  obtain ⟨readings, hreadings, htables, hlength, hclear⟩ := eq_tables_of_load h
  have hsound : script.Sound := sound_of_load h
  have hsorted := actors_sorted_of_load hordered h
  obtain ⟨hactors, hids⟩ := cast_within_of_load h
  -- in its own tables, which the load rebuilds, each command has the reading that it was written by
  have hcommands : List.Forall₂ (fun command reading =>
      (tables script.actors readings).reading? command = some reading.cleared)
      script.commands readings := by
    have hreadAs : List.Forall₂ (fun reading command =>
        reading.cleared = reading ∧ script.reading? command = some reading)
        readings script.commands :=
      (List.forall₂_and_left _ _).mpr ⟨fun reading hmem => (hclear reading hmem).1, hreadings.flip⟩
    refine (hreadAs.imp fun reading command hread => ?_).flip
    rw [htables, reading?_withCommands] at hread
    exact hread.2.trans (congrArg some hread.1.symm)
  have hload : load limits _ =
      .ok { tables script.actors readings with commands := script.commands } :=
    load_written hsorted hsound.drawable hactors hids hlength (hsound.valid_of_readAs hreadings)
      (fun reading hmem => (hclear reading hmem).2) hcommands
  refine ⟨_, toJson_eq_ok hreadings, ?_⟩
  rw [castInOrder_eq_self hsorted, hload, ← htables]

/-- A script as a JSON value: defaults left out, an empty name, an integer and a double. -/
def note : Json :=
  .object
    [("actors", .object
      [("ann", .object [("name", .string "Ann"), ("sheet", .string "ann.png"),
        ("sheetSize", .array [.number (.integer 2), .number (.integer 3)])])]),
    ("commands", .array
      [.object [("background", .object [("image", .string "hall"), ("music", .string "")])],
      .object [("sprite", .object [("actor", .string "ann"), ("id", .string "left"),
        ("portrait", .array [.number (.integer 1), .number (.integer 2)])])],
      .object [("speak", .object [("actor", .string "ann")])],
      .object [("wait", .object [("time", .number (.real (.ofDecimal false 5 (-1))))])]])]

theorem ordered_note : note.Ordered := by
  have hcanonical : note.canonical = note := rfl
  exact hcanonical ▸ Json.Tree.ordered_canonical note

/-- The note is loaded, saved, and loaded again as the same script. -/
theorem load_toJson_of_load_note :
    ∃ script written, load .standard note = .ok script ∧ script.commands.length = 4 ∧
      script.toJson = .ok written ∧ load .standard written = .ok script := by
  have hcommands : (load .standard note).toOption.map (·.commands.length) = some 4 := by
    decide +kernel
  cases hload : load .standard note with
  | error error =>
    rw [hload] at hcommands
    cases hcommands
  | ok script =>
    rw [hload] at hcommands
    obtain ⟨written, hwritten, hagain⟩ := load_toJson_of_load hload ordered_note
    exact ⟨script, written, rfl, Option.some.inj hcommands, hwritten, hagain⟩

/-! ## Scripts that were edited -/

/-- A command leads to no image or track with an empty name. -/
def NamesAssets (script : Script) : Command → Prop
  | .background command =>
    command.image.reading? script.backgrounds ≠ some (.set "") ∧
      command.music.reading? script.music ≠ some (.set "")
  | _ => True

instance (script : Script) : DecidablePred script.NamesAssets
  | .background _ => inferInstanceAs (Decidable (_ ∧ _))
  | .sprite _ => isTrue trivial
  | .speak _ => isTrue trivial
  | .wait _ => isTrue trivial

/-- Only an asset set to the empty name is read back as another. -/
theorem cleared_eq_self_iff {change : AssetReading} :
    change.cleared = change ↔ change ≠ .set "" := by
  cases change with
  | set name =>
    rw [AssetReading.cleared, Ne, AssetReading.set.injEq]
    split
    · next hempty =>
      refine iff_of_false (fun h => ?_) (not_not_intro hempty)
      cases h
    · next hempty => exact ⟨fun _ => hempty, fun _ => rfl⟩
  | _ => simp [AssetReading.cleared]

/-- The reading of a command survives if the command leads to no empty name, and only then. -/
theorem reading_cleared_eq_self_iff {script : Script} {command : Command} {reading : Reading}
    (h : script.reading? command = some reading) :
    reading.cleared = reading ↔ script.NamesAssets command := by
  cases reading with
  | background image music =>
    obtain ⟨_, _, rfl, himage, hmusic⟩ := reading?_eq_background_iff.mp h
    rw [NamesAssets, himage, hmusic, Reading.cleared, Reading.background.injEq,
      cleared_eq_self_iff, cleared_eq_self_iff]
    simp
  | sprite id hide actor portrait pos size =>
    obtain ⟨_, _, rfl, -⟩ := reading?_eq_sprite_iff.mp h
    exact iff_of_true rfl trivial
  | speak actor portrait text =>
    obtain ⟨_, rfl, -⟩ := reading?_eq_speak_iff.mp h
    exact iff_of_true rfl trivial
  | wait duration =>
    rw [reading?_eq_wait_iff.mp h]
    exact iff_of_true rfl trivial

/-- A sound script within limits is written, and loads with its cast in order and each command read
as it was, up to changes to empty names. What the written numbers become does not matter, as long as
they are faithful. -/
theorem Sound.exists_load_valueOf {limits : Limits} {script : Script} (hsound : script.Sound)
    (hwithin : Within limits script) :
    ∃ manuscript later, script.toManuscript = .ok manuscript ∧
      (∀ number, Manuscript.Faithful number →
        load limits (Manuscript.valueOf number manuscript.outline) = .ok later) ∧
      later.actors = script.castInOrder ∧
      later.commands.map later.reading? =
        script.commands.map fun command => (script.reading? command).map Reading.cleared := by
  obtain ⟨readings, hreadings⟩ := hsound.exists_readings
  have hperm : script.castInOrder.Perm script.actors := castInOrder_perm hsound.nodup_ids
  -- each reading is that of a command in the rebuilt tables
  obtain ⟨commands, hcommands⟩ : ∃ commands, List.Forall₂ (fun reading command =>
      (tables script.castInOrder readings).reading? command = some reading.cleared)
      readings commands := by
    refine exists_forall₂ fun reading hmem => exists_command hmem ?_
    intro actor hactor
    obtain ⟨command, -, hreading⟩ := exists_mem_of_forall₂ hreadings hmem
    exact hperm.mem_iff.mpr (mem_actors_of_reading? hreading hactor)
  have hwithins : ∀ reading ∈ readings, reading.Within limits := fun reading hmem => by
    obtain ⟨command, hcommand, hreading⟩ := exists_mem_of_forall₂ hreadings hmem
    exact hwithin.reading hsound hcommand hreading
  have hload : ∀ number, Manuscript.Faithful number → load limits (Manuscript.valueOf number _) =
      .ok { tables script.castInOrder readings with commands } := fun number =>
    load_valueOf script.castInOrder_sorted
      (fun actor hactor => hsound.drawable actor (hperm.mem_iff.mp hactor))
      (hperm.length_eq ▸ hwithin.actors_le)
      (fun actor hactor => hwithin.ids_le actor (hperm.mem_iff.mp hactor))
      (hreadings.length_eq ▸ hwithin.commands_le) (hsound.valid_of_readAs hreadings) hwithins
      hcommands.flip
  refine ⟨_, _, toManuscript_eq_ok hreadings, hload, rfl, ?_⟩
  rw [reading?_withCommands]
  calc commands.map (tables script.castInOrder readings).reading?
    _ = readings.map fun reading => some reading.cleared :=
      forall₂_eq_iff_map_eq.mp hcommands.flip
    _ = (readings.map some).map (Option.map Reading.cleared) := by rw [List.map_map]; rfl
    _ = (script.commands.map script.reading?).map (Option.map Reading.cleared) := by
      rw [forall₂_eq_iff_map_eq.mp hreadings]
    _ = script.commands.map fun command => (script.reading? command).map Reading.cleared :=
      List.map_map

/-- The JSON value of a sound script within limits loads. -/
theorem Sound.exists_load_toJson {limits : Limits} {script : Script} (hsound : script.Sound)
    (hwithin : Within limits script) :
    ∃ value later, script.toJson = .ok value ∧ load limits value = .ok later ∧
      later.actors = script.castInOrder ∧
      later.commands.map later.reading? =
        script.commands.map fun command => (script.reading? command).map Reading.cleared := by
  obtain ⟨manuscript, later, hmanuscript, hload, hlater⟩ := hsound.exists_load_valueOf hwithin
  refine ⟨manuscript.toJson, later, ?_, hload _ Manuscript.faithful_toNumber, hlater⟩
  rw [toJson, hmanuscript]
  rfl

/-- Whatever was edited, a script within limits can be saved and opened: the actors come back, and
so does each command, with the same reading unless it leads to an image or track with an empty name.
All commands come back as they were if and only if none does. -/
theorem Reachable.load_toJson {limits : Limits} {script : Script} (h : script.Reachable)
    (hwithin : Within limits script) :
    ∃ value later, script.toJson = .ok value ∧ Script.load limits value = .ok later ∧
      later.actors.Perm script.actors ∧ later.commands.length = script.commands.length ∧
      (∀ command ∈ script.commands, script.reading? command ≠ none) ∧
      (later.commands.map later.reading? =
        script.commands.map fun command => (script.reading? command).map Reading.cleared) ∧
      (later.commands.map later.reading? = script.commands.map script.reading? ↔
        ∀ command ∈ script.commands, script.NamesAssets command) := by
  have hsound : script.Sound := h.sound
  obtain ⟨value, later, hvalue, hload, hactors, hcommands⟩ := hsound.exists_load_toJson hwithin
  have hreading : ∀ command ∈ script.commands, ∃ reading, script.reading? command = some reading :=
    fun command hcommand => (hsound.admitted command hcommand).exists_reading.imp fun _ => And.left
  have hcast := hactors ▸ castInOrder_perm hsound.nodup_ids
  refine ⟨value, later, hvalue, hload, hcast, ?_, ?_, hcommands, ?_⟩
  · have hlength := congrArg List.length hcommands
    rwa [List.length_map, List.length_map] at hlength
  · intro command hcommand
    obtain ⟨reading, hsome⟩ := hreading command hcommand
    rw [hsome]
    exact Option.some_ne_none reading
  · rw [hcommands, List.map_inj_left]
    apply forall₂_congr
    intro command hcommand
    obtain ⟨reading, hsome⟩ := hreading command hcommand
    rw [hsome, Option.map_some, Option.some.injEq, reading_cleared_eq_self_iff hsome]

/-- The greeting names all its assets, so it comes back as it was. -/
theorem load_toJson_greeting :
    ∃ value later, (empty.editAll greeting).toJson = .ok value ∧
      load .standard value = .ok later ∧ later.commands.length = 4 ∧
      later.commands.map later.reading? =
        (empty.editAll greeting).commands.map (empty.editAll greeting).reading? := by
  have hwithin : Within .standard (empty.editAll greeting) := by
    constructor <;> decide +kernel
  obtain ⟨value, later, hvalue, hload, -, hlength, -, -, hreadings⟩ :=
    (Reachable.empty.editAll greeting).load_toJson hwithin
  exact ⟨value, later, hvalue, hload, hlength.trans (by decide +kernel),
    hreadings.mpr (by decide +kernel)⟩

/-- A history in which a background with an empty name is set. -/
def unnamed : List Edit := [.ensureBackground "", .push (.background ⟨.set 0, .keep⟩)]

/-- A background with an empty name is set, saved, opened, and taken away. -/
theorem reading_lost_unnamed :
    (empty.editAll unnamed).Reachable ∧ Within .standard (empty.editAll unnamed) ∧
      ∃ value later, (empty.editAll unnamed).toJson = .ok value ∧
        load .standard value = .ok later ∧
        later.commands.map later.reading? = [some (.background .clear .keep)] ∧
        later.commands.map later.reading? ≠
          (empty.editAll unnamed).commands.map (empty.editAll unnamed).reading? := by
  have hwithin : Within .standard (empty.editAll unnamed) := by
    constructor <;> decide +kernel
  have hreachable := Reachable.empty.editAll unnamed
  obtain ⟨value, later, hvalue, hload, -, hreadings⟩ :=
    hreachable.sound.exists_load_toJson hwithin
  have hcleared : later.commands.map later.reading? = [some (.background .clear .keep)] :=
    hreadings.trans (by decide +kernel)
  refine ⟨hreachable, hwithin, value, later, hvalue, hload, hcleared, ?_⟩
  rw [hcleared]
  decide +kernel

/-! ## Saving again -/

/-- What matters for writing is the cast in order and the readings up to what is cleared. -/
theorem toJson_eq_of_cleared {script later : Script}
    (hcast : later.castInOrder = script.castInOrder) {readings : List Reading}
    (h : script.ReadAs readings) (hlater : later.ReadAs (readings.map Reading.cleared)) :
    later.toJson = script.toJson := by
  have hwritten : (readings.map Reading.cleared).map Reading.written =
      readings.map Reading.written := by
    rw [List.map_map]
    exact List.map_congr_left fun reading _ => reading.written_cleared
  rw [toJson_eq_ok h, toJson_eq_ok hlater, hcast, hwritten]

/-- Whatever was edited, a script can be saved; if it is within limits, what was saved can be opened
under them, with the same actors and the readings as they are saved, and is saved again as the very
same value. -/
theorem Reachable.toJson_load_toJson {script : Script} (h : script.Reachable) :
    ∃ value, script.toJson = .ok value ∧ ∀ limits : Limits, Within limits script →
      ∃ later, Script.load limits value = .ok later ∧ later.toJson = .ok value ∧
        later.actors.Perm script.actors ∧
        later.commands.map later.reading? =
          script.commands.map fun command => (script.reading? command).map Reading.cleared := by
  have hsound : script.Sound := h.sound
  obtain ⟨readings, hreadings⟩ := hsound.exists_readings
  refine ⟨_, toJson_eq_ok hreadings, fun limits hwithin => ?_⟩
  obtain ⟨value, later, hvalue, hload, hactors, hcommands⟩ := hsound.exists_load_toJson hwithin
  obtain rfl := Except.ok.inj ((toJson_eq_ok hreadings).symm.trans hvalue)
  have hcast : later.castInOrder = script.castInOrder := by
    rw [castInOrder_eq_self, hactors]
    rw [hactors]
    exact script.castInOrder_sorted
  have hlater : later.ReadAs (readings.map Reading.cleared) := by
    refine forall₂_eq_iff_map_eq.mpr ?_
    calc later.commands.map later.reading?
      _ = (script.commands.map script.reading?).map (Option.map Reading.cleared) := by
        rw [hcommands, List.map_map]
        rfl
      _ = (readings.map some).map (Option.map Reading.cleared) := by
        rw [forall₂_eq_iff_map_eq.mp hreadings]
      _ = (readings.map Reading.cleared).map some := by rw [List.map_map, List.map_map]; rfl
  exact ⟨later, hload, (toJson_eq_of_cleared hcast hreadings hlater).trans hvalue,
    hactors ▸ castInOrder_perm hsound.nodup_ids, hcommands⟩

/-- The greeting is saved, opened, and saved again as the same value. -/
theorem toJson_load_toJson_greeting :
    ∃ value later, (empty.editAll greeting).toJson = .ok value ∧
      load .standard value = .ok later ∧ later.toJson = .ok value ∧
      later.commands.map later.reading? =
        (empty.editAll greeting).commands.map (empty.editAll greeting).reading? := by
  obtain ⟨value, hvalue, hagain⟩ := (Reachable.empty.editAll greeting).toJson_load_toJson
  have hwithin : Within .standard (empty.editAll greeting) := by
    constructor <;> decide +kernel
  obtain ⟨later, hload, hlater, -, hreadings⟩ := hagain .standard hwithin
  exact ⟨value, later, hvalue, hload, hlater, hreadings.trans (by decide +kernel)⟩

end VisualNovel.Script
