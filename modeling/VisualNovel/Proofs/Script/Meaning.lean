import VisualNovel.Proofs.Script.Grammar
import VisualNovel.Proofs.Script.RoundTrip

/-!
# What scripts mean

A JSON value *is a script* (`IsScript`) if it gives a cast and commands, each of which says a
reading in the terms of this cast. With limits that nothing exceeds, a value loads exactly if it is
one (`load_iff`). Whatever the limits are, what is loaded has the readings that the value says, and
its pools are the names that these mention, each once, in the order of first mention (`load_means`).
-/

namespace VisualNovel

open Outcome

/-! ## How large a value is -/

namespace Json.Tree

variable {ν : Type}

mutual

/-- The largest size of a string, array or object in a tree. -/
def extent : Tree ν String → Nat
  | null => 0
  | bool _ => 0
  | .number _ => 0
  | .string s => s.utf8ByteSize
  | array elements => max elements.length (extentElements elements)
  | object entries => max entries.length (extentEntries entries)

/-- `extent` of the elements of an array. -/
def extentElements : List (Tree ν String) → Nat
  | [] => 0
  | element :: rest => max element.extent (extentElements rest)

/-- `extent` of the entries of an object, keys included. -/
def extentEntries : List (String × Tree ν String) → Nat
  | [] => 0
  | (key, value) :: rest => max (max key.utf8ByteSize value.extent) (extentEntries rest)

end

theorem extent_le_elements {element : Tree ν String} {elements : List (Tree ν String)}
    (h : element ∈ elements) : element.extent ≤ extentElements elements := by
  induction elements with
  | nil => exact absurd h List.not_mem_nil
  | cons first rest ih =>
    rw [extentElements]
    rcases List.mem_cons.mp h with rfl | hrest
    · omega
    · have hle := ih hrest
      omega

theorem extent_le_entries {key : String} {value : Tree ν String}
    {entries : List (String × Tree ν String)} (h : (key, value) ∈ entries) :
    key.utf8ByteSize ≤ extentEntries entries ∧ value.extent ≤ extentEntries entries := by
  induction entries with
  | nil => exact absurd h List.not_mem_nil
  | cons first rest ih =>
    obtain ⟨other, old⟩ := first
    rw [extentEntries]
    rcases List.mem_cons.mp h with heq | hrest
    · obtain ⟨rfl, rfl⟩ := Prod.mk.inj heq
      omega
    · have hle := ih hrest
      omega

/-- What is found in an object is no larger than the object. -/
theorem extent_le_of_lookup {key : String} {value : Tree ν String}
    {entries : List (String × Tree ν String)} (h : entries.lookup key = some value) :
    value.extent ≤ (object entries).extent := by
  have hle := (extent_le_entries (mem_of_lookup h)).2
  rw [extent]
  omega

end Json.Tree

/-- Limits that are all the same. -/
def Limits.uniform (size : Nat) : Limits := ⟨size, size, size, size, size⟩

namespace Grammar

/-- A value that gives a cast, and commands that say these readings. -/
def IsScript (value : Json) (cast : List Actor) (readings : List Reading) : Prop :=
  ∃ fields actors commands, value = .object fields ∧
    fields.lookup "actors" = some (.object actors) ∧
    fields.lookup "commands" = some (.array commands) ∧
    List.Forall₂ IsActor actors cast ∧ List.Forall₂ (Says cast) commands readings

/-! ## What a command says -/

section Says

variable {cast : List Actor} {value : Json} {reading : Reading}

theorem mem_of_isMember {entry : Option Json} {speaker : Option Actor}
    (h : Option.Rel (IsMember cast) entry speaker) : ∀ actor ∈ speaker, actor ∈ cast := by
  cases h with
  | none => exact forall_mem_none
  | some hmember =>
    rintro _ ⟨⟩
    exact hmember.2

/-- A command speaks of actors of the cast only. -/
theorem Says.mem_cast (h : Says cast value reading) :
    ∀ actor ∈ reading.actor?, actor ∈ cast := by
  obtain ⟨body, -, hmeans⟩ := h
  cases hmeans with
  | sprite _ hactor => exact mem_of_isMember hactor
  | speak _ hmember =>
    rintro _ ⟨⟩
    exact hmember.2
  | wait => exact forall_mem_none
  | background => exact forall_mem_none

theorem cleared_of_isAsset {entry : Option Json} {change : AssetReading}
    (h : IsAsset entry change) : change.cleared = change := by
  cases h with
  | keep => rfl
  | clear => rfl
  | set hne => exact if_neg hne

/-- No command sets an image or track of empty name. -/
theorem Says.cleared (h : Says cast value reading) : reading.cleared = reading := by
  obtain ⟨body, -, hmeans⟩ := h
  cases hmeans with
  | background himage hmusic =>
    rw [Reading.cleared, cleared_of_isAsset himage, cleared_of_isAsset hmusic]
  | _ => rfl

theorem within_of_isAsset {entries : List (String × Json)} {key : String} {change : AssetReading}
    (h : IsAsset (entries.lookup key) change) :
    ∀ name ∈ change.name?, name.utf8ByteSize ≤ (Json.Tree.object entries : Json).extent := by
  generalize hfind : entries.lookup key = entry at h
  cases h with
  | keep => exact forall_mem_none
  | clear => exact forall_mem_none
  | set hne =>
    rw [AssetReading.name?, if_neg hne]
    rintro _ ⟨⟩
    exact Json.Tree.extent_le_of_lookup hfind

/-- A command says nothing that is larger than its value. -/
theorem Says.within (h : Says cast value reading) {size : Nat} (hsize : value.extent ≤ size) :
    reading.Within (.uniform size) := by
  obtain ⟨body, ⟨entries, rfl, hkind, -⟩, hmeans⟩ := h
  have hbody := Nat.le_trans (Json.Tree.extent_le_of_lookup hkind) hsize
  cases hmeans with
  | sprite hid =>
    refine ⟨?_, forall_mem_none, forall_mem_none, forall_mem_none⟩
    rintro _ ⟨⟩
    exact Nat.le_trans (Json.Tree.extent_le_of_lookup hid) hbody
  | @speak _ _ text _ _ _ htext =>
    refine ⟨forall_mem_none, forall_mem_none, forall_mem_none, ?_⟩
    rintro _ ⟨⟩
    generalize hfind : body.lookup "text" = entry at htext
    cases htext with
    | none => exact Nat.zero_le size
    | some heq =>
      obtain rfl := heq
      exact Nat.le_trans (Json.Tree.extent_le_of_lookup hfind) hbody
  | wait => exact ⟨forall_mem_none, forall_mem_none, forall_mem_none, forall_mem_none⟩
  | background himage hmusic =>
    exact ⟨forall_mem_none,
      fun name hname => Nat.le_trans (within_of_isAsset himage name hname) hbody,
      fun name hname => Nat.le_trans (within_of_isAsset hmusic name hname) hbody,
      forall_mem_none⟩

end Says

end Grammar

namespace Script

open Grammar

variable {limits : Limits} {cast : List Actor} {value : Json} {reading : Reading} {place : Nat}

/-! ## What a command mentions -/

/-- The sprite that is found in a command is the one that it speaks of. -/
theorem mentionedSprite?_eq (h : Says cast value reading) (hwithin : reading.Within limits) :
    mentionedSprite? limits place value = .ok reading.sprite? := by
  obtain ⟨body, ⟨entries, rfl, hkind, hother⟩, hmeans⟩ := h
  refine mentionedSprite?_eq_ok_iff.mpr ⟨entries, rfl, ?_⟩
  cases hmeans with
  | sprite hid => exact Or.inr ⟨body, _, hkind, hid, hwithin.sprite_le _ rfl, rfl⟩
  | speak => exact Or.inl ⟨hother .sprite nofun, rfl⟩
  | wait => exact Or.inl ⟨hother .sprite nofun, rfl⟩
  | background => exact Or.inl ⟨hother .sprite nofun, rfl⟩

theorem mentionedName?_of_isAsset {fields : Section} {key : String} {change : AssetReading}
    (h : IsAsset (fields.find? key) change)
    (hwithin : ∀ name ∈ change.name?, name.utf8ByteSize ≤ limits.idBytes) :
    mentionedName? limits fields key = .ok change.name? := by
  refine mentionedName?_eq_ok_iff.mpr ?_
  generalize fields.find? key = entry at h
  cases h with
  | keep => exact Or.inl ⟨rfl, rfl⟩
  | clear => exact Or.inr ⟨"", rfl, rfl⟩
  | set hne =>
    rw [AssetReading.name?, if_neg hne] at hwithin ⊢
    refine Or.inr ⟨_, rfl, ?_⟩
    rw [if_neg hne]
    exact ⟨hwithin _ rfl, rfl⟩

/-- Image and track that are found in a command are those that it speaks of. -/
theorem mentionedAssets_eq (h : Says cast value reading) (hwithin : reading.Within limits) :
    mentionedAssets limits place value = .ok reading.assets := by
  obtain ⟨body, ⟨entries, rfl, hkind, hother⟩, hmeans⟩ := h
  refine mentionedAssets_eq_ok_iff.mpr ⟨entries, rfl, ?_⟩
  cases hmeans with
  | sprite => exact Or.inl ⟨hother .background nofun, rfl⟩
  | speak => exact Or.inl ⟨hother .background nofun, rfl⟩
  | wait => exact Or.inl ⟨hother .background nofun, rfl⟩
  | background himage hmusic =>
    exact Or.inr ⟨⟨_, body⟩, hkind, rfl, mentionedName?_of_isAsset himage hwithin.image_le,
      mentionedName?_of_isAsset hmusic hwithin.music_le⟩

/-! ## Loading -/

theorem drawable_of_isActor {entry : String × Json} {actor : Actor} (h : IsActor entry actor) :
    Drawable actor := by
  obtain ⟨-, -, -, -, -, hsheet, -, hcolumns, hrows, harea⟩ := h
  exact ⟨hsheet, hcolumns, hrows, harea⟩

/-- The result of each element was found at some place. -/
theorem forall₂_of_forEachCommand {α : Type} {commands : List Json}
    {f : Nat → Json → Except Error α} {results : List α}
    (h : forEachCommand commands f = .ok results) :
    List.Forall₂ (fun command result => ∃ place, f place command = .ok result) commands
      results := by
  obtain ⟨hlength, hresult⟩ := forEachCommand_eq_ok_iff.mp h
  refine List.forall₂_iff_get.mpr ⟨hlength, fun place hcommand hplace => ⟨place, ?_⟩⟩
  exact hresult place _ _ (List.getElem?_eq_getElem hcommand) (List.getElem?_eq_getElem hplace)

/-- What loads is a script, and says what the commands are read as. -/
theorem isScript_of_load {script : Script} (h : load limits value = .ok script)
    {readings : List Reading} (hreadings : script.ReadAs readings) :
    IsScript value script.actors readings := by
  obtain ⟨fields, castValue, commands, rfl, hfind, hcommands, -, _, sprites, assets, resolved,
    hcast, -, -, hresolved, rfl⟩ := load_eq_ok_iff.mp h
  obtain ⟨entries, actors, rfl, -, hactors, hdrawable, -, rfl⟩ := loadCast_eq_ok_iff.mp hcast
  have hsound : ((empty.withCast actors).withMentions sprites assets).Sound :=
    (sound_of_loadCast hcast).withMentions rfl sprites assets
  refine ⟨fields, entries, commands, rfl, hfind, hcommands, ?_, ?_⟩
  · have hboth := (List.forall₂_and_left _ _).mpr ⟨hdrawable, hactors.flip⟩
    exact (hboth.imp fun actor entry h => (loadActor_iff.mp ⟨h.2, h.1⟩).2).flip
  · refine forall₂_comp (fun command resolved reading hcommand hreading => ?_)
      (forall₂_of_forEachCommand hresolved) hreadings
    obtain ⟨place, hplace⟩ := hcommand
    rw [reading?_withCommands] at hreading
    exact ((resolveCommand_iff hsound hreading).mp hplace).1

/-- A value that is a script and within the limits loads as any commands with its readings. -/
theorem load_eq_ok_of_isScript {readings : List Reading} {commands : List Command}
    (h : IsScript value cast readings) (hnodup : (cast.map (·.id)).Nodup)
    (hcommands : List.Forall₂ (fun reading command =>
      (tables cast readings).reading? command = some reading) readings commands)
    (hactors : cast.length ≤ limits.actors)
    (hids : ∀ actor ∈ cast, actor.id.utf8ByteSize ≤ limits.idBytes)
    (hlength : readings.length ≤ limits.commands)
    (hwithin : ∀ reading ∈ readings, reading.Within limits) :
    load limits value = .ok { tables cast readings with commands } := by
  obtain ⟨fields, entries, values, rfl, hfind, hvalues, hentries, hmeans⟩ := h
  have hdrawable : ∀ actor ∈ cast, Drawable actor := by
    intro actor hactor
    obtain ⟨entry, -, hentry⟩ := exists_mem_of_forall₂ hentries hactor
    exact drawable_of_isActor hentry
  have hsound : (tables cast readings).Sound := sound_tables hnodup hdrawable
  have hboth := (List.forall₂_and_left _ _).mpr ⟨hwithin, hmeans.flip⟩
  have hcast : loadCast limits (.object entries) = .ok (empty.withCast cast) := by
    refine loadCast_eq_ok_iff.mpr ⟨entries, cast, rfl, hentries.length_eq ▸ hactors, ?_, hdrawable,
      hnodup, rfl⟩
    have hshort := (List.forall₂_and_left _ _).mpr ⟨hids, hentries.flip⟩
    refine (hshort.imp fun actor entry h => ?_).flip
    exact (loadActor_iff.mpr ⟨h.2.1 ▸ h.1, h.2⟩).1
  have hsprites : forEachCommand values (mentionedSprite? limits) =
      .ok (readings.map Reading.sprite?) := by
    refine mapM_zipIdx_of_forall₂ (List.forall₂_map_right_iff.mpr ?_)
    exact (hboth.imp fun reading value h place => mentionedSprite?_eq h.2 h.1).flip
  have hassets : forEachCommand values (mentionedAssets limits) =
      .ok (readings.map Reading.assets) := by
    refine mapM_zipIdx_of_forall₂ (List.forall₂_map_right_iff.mpr ?_)
    exact (hboth.imp fun reading value h place => mentionedAssets_eq h.2 h.1).flip
  have hresolved : forEachCommand values (resolveCommand limits (tables cast readings)) =
      .ok commands := by
    refine mapM_zipIdx_of_forall₂ (forall₂_comp ?_ hboth.flip hcommands)
    intro value reading command hvalue hreading place
    exact (resolveCommand_iff hsound hreading).mpr ⟨hvalue.2, hvalue.1.text_le⟩
  refine load_eq_ok_iff.mpr ⟨fields, _, values, rfl, hfind, hvalues, ?_, _, _, _, commands, hcast,
    hsprites, hassets, hresolved, rfl⟩
  exact hmeans.length_eq ▸ hlength

/-- A value that is a script and within the limits loads. -/
theorem load_of_isScript {readings : List Reading} (h : IsScript value cast readings)
    (hnodup : (cast.map (·.id)).Nodup) (hactors : cast.length ≤ limits.actors)
    (hids : ∀ actor ∈ cast, actor.id.utf8ByteSize ≤ limits.idBytes)
    (hlength : readings.length ≤ limits.commands)
    (hwithin : ∀ reading ∈ readings, reading.Within limits) :
    ∃ script, load limits value = .ok script := by
  -- each reading is that of a command in the tables of all that is mentioned
  obtain ⟨commands, hcommands⟩ : ∃ commands, List.Forall₂ (fun reading command =>
      (tables cast readings).reading? command = some reading) readings commands := by
    refine exists_forall₂ fun reading hmem => ?_
    obtain ⟨_, _, values, -, -, -, -, hmeans⟩ := h
    obtain ⟨value, -, hvalue⟩ := exists_mem_of_forall₂ hmeans hmem
    have hcommand := exists_command hmem (Says.mem_cast hvalue)
    rwa [Says.cleared hvalue] at hcommand
  exact ⟨_, load_eq_ok_of_isScript h hnodup hcommands hactors hids hlength hwithin⟩

/-- What is loaded depends only on what the value says: another value that says the same loads as
the same script. -/
theorem load_of_same_meaning {script : Script} (h : load limits value = .ok script) {other : Json}
    (hmeans : ∀ cast readings, IsScript value cast readings → IsScript other cast readings) :
    load limits other = .ok script := by
  obtain ⟨readings, hreadings, htables, hlength, hclear⟩ := eq_tables_of_load h
  obtain ⟨hactors, hids⟩ := cast_within_of_load h
  have hsound : script.Sound := sound_of_load h
  have hcommands : List.Forall₂ (fun reading command =>
      (tables script.actors readings).reading? command = some reading)
      readings script.commands := by
    refine (hreadings.imp fun command reading hread => ?_).flip
    rwa [htables, reading?_withCommands] at hread
  have hscript := hmeans _ _ (isScript_of_load h hreadings)
  rw [load_eq_ok_of_isScript hscript hsound.nodup_ids hcommands hactors hids hlength
    fun reading hmem => (hclear reading hmem).2, ← htables]

/-- The ids of a cast are the keys of its entries. -/
theorem map_id_eq_of_isActor {entries : List (String × Json)}
    (h : List.Forall₂ IsActor entries cast) : cast.map (·.id) = entries.map Prod.fst := by
  refine (forall₂_eq_iff_map_eq.mp ?_).symm
  exact h.imp fun entry actor hactor => hactor.1.symm

/-- With limits that nothing in a value exceeds, it loads exactly if it is a script. -/
theorem load_iff {value : Json} (hordered : value.Ordered) {size : Nat}
    (hsize : value.extent ≤ size) :
    (∃ script, load (.uniform size) value = .ok script) ↔
      ∃ cast readings, IsScript value cast readings := by
  constructor
  · rintro ⟨script, hload⟩
    obtain ⟨readings, hreadings⟩ := (sound_of_load hload).exists_readings
    exact ⟨script.actors, readings, isScript_of_load hload hreadings⟩
  · rintro ⟨cast, readings, hscript⟩
    obtain ⟨fields, entries, values, rfl, hactors, hvalues, hentries, hmeans⟩ := id hscript
    have hkeys : Json.KeysIncrease entries := (hordered.of_lookup hactors).keysIncrease
    have hactorsSize := Nat.le_trans (Json.Tree.extent_le_of_lookup hactors) hsize
    have hvaluesSize := Nat.le_trans (Json.Tree.extent_le_of_lookup hvalues) hsize
    change max _ _ ≤ size at hactorsSize hvaluesSize
    apply load_of_isScript hscript
    · rw [map_id_eq_of_isActor hentries]
      exact hkeys.nodup
    · show cast.length ≤ size
      rw [← hentries.length_eq]
      omega
    · intro actor hactor
      obtain ⟨entry, hentry, hid, -⟩ := exists_mem_of_forall₂ hentries hactor
      have hle := (Json.Tree.extent_le_entries hentry).1
      show actor.id.utf8ByteSize ≤ size
      rw [hid]
      omega
    · show readings.length ≤ size
      rw [← hmeans.length_eq]
      omega
    · intro reading hreading
      obtain ⟨value, hvalue, hmeansValue⟩ := exists_mem_of_forall₂ hmeans hreading
      have hle := Json.Tree.extent_le_elements hvalue
      exact Says.within hmeansValue (by omega)

/-- The note loads where nothing exceeds the limits, so it is a script. -/
theorem load_iff_note :
    (∃ script, load (.uniform (UInt64.size - 1)) note = .ok script) ∧
      ∃ cast readings, IsScript note cast readings := by
  have hiff := load_iff ordered_note (by decide +kernel : note.extent ≤ UInt64.size - 1)
  have hloads := exists_eq_ok
    (by decide +kernel : (load (.uniform (UInt64.size - 1)) note).toOption.isSome)
  exact ⟨hloads, hiff.mp hloads⟩

/-- A pool of images or tracks holds just their names. -/
theorem ofNames_eq_eraseDups (names : List String) :
    (Pool.ofNames names : Pool String) = ⟨names.eraseDups, names.eraseDups⟩ := by
  rw [Pool.ofNames_eq]
  exact congrArg (Pool.mk · _) (List.map_id _)

/-- A loaded script is what the value says: the cast is that of the entries, in order of ids; each
command has the reading that its value says; and the pools are the names that these mention, each
once, in the order in which they are first mentioned. -/
theorem load_means {limits : Limits} {value : Json} (hordered : value.Ordered) {script : Script}
    (h : load limits value = .ok script) :
    ∃ fields actors commands readings, value = .object fields ∧
      fields.lookup "actors" = some (.object actors) ∧
      fields.lookup "commands" = some (.array commands) ∧
      List.Forall₂ IsActor actors script.actors ∧
      (script.actors.map (·.id)).Pairwise (· < ·) ∧
      List.Forall₂ (Says script.actors) commands readings ∧
      script.commands.map script.reading? = readings.map some ∧
      script.commands.map Command.kind = readings.map Reading.kind ∧
      let sprites := (readings.filterMap Reading.sprite?).eraseDups
      let images := (readings.filterMap fun reading => reading.assets.1).eraseDups
      let tracks := (readings.filterMap fun reading => reading.assets.2).eraseDups
      script.sprites = ⟨sprites.map Sprite.ofId, sprites⟩ ∧
        script.backgrounds = ⟨images, images⟩ ∧ script.music = ⟨tracks, tracks⟩ := by
  obtain ⟨readings, hreadings, htables, -, -⟩ := eq_tables_of_load h
  obtain ⟨fields, actors, commands, rfl, hactors, hcommands, hcast, hmeans⟩ :=
    isScript_of_load h hreadings
  refine ⟨fields, actors, commands, readings, rfl, hactors, hcommands, hcast,
    actors_sorted_of_load hordered h, hmeans, ?_, ?_, ?_, ?_, ?_⟩
  · exact forall₂_eq_iff_map_eq.mp hreadings
  · apply forall₂_eq_iff_map_eq.mp
    exact List.Forall₂.imp (fun command reading h => kind_eq_of_reading? h) hreadings
  · refine (congrArg Script.sprites htables).trans ?_
    show Pool.ofNames ((readings.map Reading.sprite?).filterMap id) = _
    rw [Pool.ofNames_eq, List.filterMap_map]
    rfl
  · refine (congrArg Script.backgrounds htables).trans ?_
    show Pool.ofNames ((readings.map Reading.assets).filterMap Prod.fst) = _
    rw [ofNames_eq_eraseDups, List.filterMap_map]
    rfl
  · refine (congrArg Script.music htables).trans ?_
    show Pool.ofNames ((readings.map Reading.assets).filterMap Prod.snd) = _
    rw [ofNames_eq_eraseDups, List.filterMap_map]
    rfl

/-- The background of the note is taken up, and the track with the empty name is not. -/
theorem load_means_note :
    ∃ (script : Script) (readings : List Reading), load .standard note = .ok script ∧
      script.commands.map script.reading? = readings.map some ∧
      script.backgrounds.names = (readings.filterMap fun reading => reading.assets.1).eraseDups ∧
      script.backgrounds.names = ["hall"] ∧ script.music.names = [] := by
  obtain ⟨script, hload⟩ := exists_eq_ok (by decide +kernel : (load .standard note).toOption.isSome)
  have hnames : (load .standard note).toOption.map (fun script =>
      (script.backgrounds.names, script.music.names)) = some (["hall"], []) := by decide +kernel
  rw [hload] at hnames
  obtain ⟨himages, htracks⟩ := Prod.mk.inj (Option.some.inj hnames)
  obtain ⟨-, -, -, readings, -, -, -, -, -, -, hreadings, -, -, hbackgrounds, -⟩ :=
    load_means ordered_note hload
  exact ⟨script, readings, hload, hreadings, congrArg Pool.names hbackgrounds, himages, htracks⟩

end Script

end VisualNovel
