import VisualNovel.Proofs.Script.Reopen

/-!
# What a loaded script holds

The readings of the commands of a loaded script mention just what the steps before the last one
found in the JSON value (`reading_of_resolveCommand`). So its tables are those of its own readings
(`eq_tables_of_load`), none of which is a change to an empty name, and all of which are within the
limits of the load; and its cast is in order if the keys of the value are.
-/

namespace VisualNovel.Script

open Outcome

variable {limits : Limits} {place : Nat}

/-! ## Mentions in a command of a known kind -/

section Mentions

variable {entries body : List (String × Json)}

/-- Without a sprite part, a command mentions no sprite. -/
theorem sprite_eq_none {name : Option String}
    (hmention : mentionedSprite? limits place (.object entries) = .ok name)
    (h : entries.lookup CommandKind.sprite.key = none) : name = none := by
  obtain ⟨_, hobject, ⟨-, hname⟩ | ⟨body, id, hbody, -⟩⟩ := mentionedSprite?_eq_ok_iff.mp hmention
  · exact hname
  · rw [← Json.Tree.object.inj hobject, h] at hbody
    cases hbody

/-- With a sprite part, a command mentions the id in it. -/
theorem exists_sprite_id {name : Option String}
    (hmention : mentionedSprite? limits place (.object entries) = .ok name)
    (h : entries.lookup CommandKind.sprite.key = some (.object body)) :
    ∃ id, body.lookup "id" = some (.string id) ∧ id.utf8ByteSize ≤ limits.idBytes ∧
      name = some id := by
  obtain ⟨_, hobject, ⟨hnone, -⟩ | ⟨other, id, hbody, hid, hbytes, hname⟩⟩ :=
    mentionedSprite?_eq_ok_iff.mp hmention
  · rw [← Json.Tree.object.inj hobject, h] at hnone
    cases hnone
  · rw [← Json.Tree.object.inj hobject, h] at hbody
    obtain rfl := Json.Tree.object.inj (Option.some.inj hbody)
    exact ⟨id, hid, hbytes, hname⟩

/-- Without a background part, a command mentions neither image nor track. -/
theorem assets_eq_none {names : Option String × Option String}
    (hmention : mentionedAssets limits place (.object entries) = .ok names)
    (h : entries.lookup CommandKind.background.key = none) : names = (none, none) := by
  obtain ⟨_, hobject, ⟨-, hnames⟩ | ⟨body, hbody, -⟩⟩ := mentionedAssets_eq_ok_iff.mp hmention
  · exact hnames
  · rw [← Json.Tree.object.inj hobject, h] at hbody
    cases hbody

/-- With a background part, a command mentions the names in it. -/
theorem mentionedName?_of_background {names : Option String × Option String}
    (hmention : mentionedAssets limits place (.object entries) = .ok names)
    (h : entries.lookup CommandKind.background.key = some (.object body)) :
    let fields : Section := ⟨(Location.command place).key CommandKind.background.key, body⟩
    mentionedName? limits fields "image" = .ok names.1 ∧
      mentionedName? limits fields "music" = .ok names.2 := by
  obtain ⟨_, hobject, ⟨hnone, -⟩ | ⟨fields, hbody, hlocation, himage, hmusic⟩⟩ :=
    mentionedAssets_eq_ok_iff.mp hmention
  · rw [← Json.Tree.object.inj hobject, h] at hnone
    cases hnone
  · rw [← Json.Tree.object.inj hobject, h] at hbody
    obtain ⟨location, others⟩ := fields
    obtain rfl : body = others := Json.Tree.object.inj (Option.some.inj hbody)
    obtain rfl : location = _ := hlocation
    exact ⟨himage, hmusic⟩

end Mentions

/-! ## Readings of resolved commands -/

/-- A name that an asset resolves to is the one that was mentioned. -/
theorem mention_of_readsAsset {pool : Pool String} (hpool : pool.Registered) {fields : Section}
    {key : String} {name : Option String} {asset : AssetRef} {change : AssetReading}
    {mention : Option String} (hname : fields.optional key .string = .ok name)
    (hreads : ReadsAsset pool name asset)
    (hmention : mentionedName? limits fields key = .ok mention)
    (hchange : asset.reading? pool = some change) :
    mention = change.name? ∧ change.cleared = change ∧
      ∀ name ∈ change.name?, name.utf8ByteSize ≤ limits.idBytes := by
  rw [mentionedName?_eq_ok_iff] at hmention
  cases name with
  | none =>
    obtain rfl : asset = .keep := hreads
    obtain rfl := Option.some.inj hchange
    have hfind := Section.optional_eq_ok_none.mp hname
    obtain ⟨-, rfl⟩ | ⟨written, hwritten, -⟩ := hmention
    · exact ⟨rfl, rfl, forall_mem_none⟩
    · rw [hfind] at hwritten
      cases hwritten
  | some name =>
    have hvalue := Section.optional_string_eq_ok.mp hname
    obtain ⟨hnone, -⟩ | ⟨written, hwritten, hmention⟩ := hmention
    · rw [hvalue] at hnone
      cases hnone
    rw [hvalue] at hwritten
    obtain rfl := Json.Tree.string.inj (Option.some.inj hwritten)
    rw [ReadsAsset] at hreads
    split at hreads
    · next hempty =>
      subst hreads
      rw [if_pos hempty] at hmention
      obtain rfl := Option.some.inj hchange
      exact ⟨hmention, rfl, forall_mem_none⟩
    · next hempty =>
      obtain ⟨index, hindex, rfl⟩ := hreads
      rw [if_neg hempty] at hmention
      obtain ⟨other, hother, rfl⟩ := Option.map_eq_some_iff.mp hchange
      rw [hpool.position?_eq_some_iff, hother] at hindex
      obtain rfl := Option.some.inj hindex
      rw [AssetReading.name?, AssetReading.cleared, if_neg hempty, if_neg hempty]
      exact ⟨hmention.2, rfl, fun _ h => Option.some.inj h ▸ hmention.1⟩

/-- The reading of a resolved command mentions what was found in the command, and is within limits.
No change leads to an empty name. -/
theorem reading_of_resolveCommand {target : Script} (htarget : target.Sound) {value : Json}
    {command : Command} {sprite : Option String} {assets : Option String × Option String}
    {reading : Reading} (hresolve : target.resolveCommand limits place value = .ok command)
    (hsprite : mentionedSprite? limits place value = .ok sprite)
    (hassets : mentionedAssets limits place value = .ok assets)
    (hreading : target.reading? command = some reading) :
    sprite = reading.sprite? ∧ assets = reading.assets ∧ reading.cleared = reading ∧
      reading.Within limits := by
  obtain ⟨entries, body, rfl, hkinds, hbody⟩ := resolveCommand_eq_ok_iff.mp hresolve
  have hlookup := lookup_of_presentKinds hkinds
  cases reading with
  | sprite id hide actor portrait pos size =>
    obtain ⟨index, speaker, rfl, hid, -⟩ := reading?_eq_sprite_iff.mp hreading
    obtain ⟨written, hwritten, hbytes, rfl⟩ := exists_sprite_id hsprite (hlookup .sprite)
    obtain ⟨name, hname, hposition⟩ := hbody.id
    rw [Section.find?, hwritten, Option.some.injEq, Json.Tree.string.injEq] at hname
    rw [htarget.sprites.position?_eq_some_iff, hid, ← hname, Option.some.injEq] at hposition
    subst hposition
    -- the id that was collected is the one that was resolved
    exact ⟨rfl, assets_eq_none hassets (hlookup .background), rfl,
      ⟨fun _ h => Option.some.inj h ▸ hbytes, forall_mem_none, forall_mem_none, forall_mem_none⟩⟩
  | speak actor portrait text =>
    obtain ⟨index, rfl, -⟩ := reading?_eq_speak_iff.mp hreading
    exact ⟨sprite_eq_none hsprite (hlookup .sprite), assets_eq_none hassets (hlookup .background),
      rfl, ⟨forall_mem_none, forall_mem_none, forall_mem_none,
        fun _ h => Option.some.inj h ▸ hbody.text_le⟩⟩
  | wait duration =>
    obtain rfl := reading?_eq_wait_iff.mp hreading
    exact ⟨sprite_eq_none hsprite (hlookup .sprite), assets_eq_none hassets (hlookup .background),
      rfl, ⟨forall_mem_none, forall_mem_none, forall_mem_none, forall_mem_none⟩⟩
  | background image music =>
    obtain ⟨_, _, rfl, himage, hmusic⟩ := reading?_eq_background_iff.mp hreading
    obtain ⟨hmentionImage, hmentionMusic⟩ :=
      mentionedName?_of_background hassets (hlookup .background)
    obtain ⟨⟨_, hoptionalImage, hreadsImage⟩, _, hoptionalMusic, hreadsMusic⟩ := hbody
    obtain ⟨himageEq, himageCleared, himageBytes⟩ :=
      mention_of_readsAsset htarget.backgrounds hoptionalImage hreadsImage hmentionImage himage
    obtain ⟨hmusicEq, hmusicCleared, hmusicBytes⟩ :=
      mention_of_readsAsset htarget.music hoptionalMusic hreadsMusic hmentionMusic hmusic
    refine ⟨sprite_eq_none hsprite (hlookup .sprite), Prod.ext himageEq hmusicEq, ?_,
      ⟨forall_mem_none, himageBytes, hmusicBytes, forall_mem_none⟩⟩
    rw [Reading.cleared, himageCleared, hmusicCleared]

/-! ## Whole scripts -/

/-- A list that has at each place what a function gives for the element of another there. -/
theorem eq_map_of_getElem? {α β : Type} {f : α → β} {l : List α} {r : List β}
    (hlength : r.length = l.length)
    (h : ∀ (i : Nat) (a : α), l[i]? = some a → r[i]? = some (f a)) : r = l.map f := by
  apply List.ext_getElem?
  intro i
  rw [List.getElem?_map]
  cases hl : l[i]? with
  | none =>
    rw [List.getElem?_eq_none_iff] at hl
    exact List.getElem?_eq_none_iff.mpr (hlength ▸ hl)
  | some a => exact h i a hl

/-- A loaded cast is within the limits. -/
theorem cast_within_of_load {value : Json} {script : Script} (h : load limits value = .ok script) :
    script.actors.length ≤ limits.actors ∧
      ∀ actor ∈ script.actors, actor.id.utf8ByteSize ≤ limits.idBytes := by
  obtain ⟨_, _, _, -, -, -, -, _, _, _, _, hcast, -, -, -, rfl⟩ := load_eq_ok_iff.mp h
  obtain ⟨entries, actors, -, hlength, hactors, -, -, rfl⟩ := loadCast_eq_ok_iff.mp hcast
  refine ⟨hactors.length_eq ▸ hlength, fun actor hactor => ?_⟩
  obtain ⟨entry, -, hload⟩ := exists_mem_of_forall₂ hactors hactor
  obtain ⟨hbytes, hid, -⟩ := loadActor_eq_ok_iff.mp hload
  exact hid ▸ hbytes

/-- If the keys of a value are in order, the cast that is loaded from it is. -/
theorem actors_sorted_of_load {value : Json} (hordered : value.Ordered) {script : Script}
    (h : load limits value = .ok script) : (script.actors.map (·.id)).Pairwise (· < ·) := by
  obtain ⟨fields, cast, _, rfl, hfind, -, -, _, _, _, _, hcast, -, -, -, rfl⟩ := load_eq_ok_iff.mp h
  obtain ⟨entries, actors, rfl, -, hactors, -, -, rfl⟩ := loadCast_eq_ok_iff.mp hcast
  change (actors.map (·.id)).Pairwise (· < ·)
  rw [map_id_eq_of_loadActor hactors]
  exact (hordered.of_lookup hfind).keysIncrease

/-- A loaded script is made of its cast, of the names that its readings mention, and of commands
with these readings. No change leads to an empty name, and all is within the limits. -/
theorem eq_tables_of_load {value : Json} {script : Script} (h : load limits value = .ok script) :
    ∃ readings, script.ReadAs readings ∧
      script = { tables script.actors readings with commands := script.commands } ∧
      readings.length ≤ limits.commands ∧
      ∀ reading ∈ readings, reading.cleared = reading ∧ reading.Within limits := by
  obtain ⟨readings, hreadings⟩ := (sound_of_load h).exists_readings
  obtain ⟨_, cast, commands, -, -, -, hcommands, script, sprites, assets, resolved, hcast, hsprites,
    hassets, hresolved, rfl⟩ := load_eq_ok_iff.mp h
  obtain ⟨_, actors, -, -, -, -, -, rfl⟩ := loadCast_eq_ok_iff.mp hcast
  obtain ⟨hspritesLength, hsprites⟩ := forEachCommand_eq_ok_iff.mp hsprites
  obtain ⟨hassetsLength, hassets⟩ := forEachCommand_eq_ok_iff.mp hassets
  obtain ⟨hresolvedLength, hresolved⟩ := forEachCommand_eq_ok_iff.mp hresolved
  have hsound : ((empty.withCast actors).withMentions sprites assets).Sound :=
    (sound_of_loadCast hcast).withMentions rfl sprites assets
  have hlength : commands.length = readings.length :=
    hresolvedLength.trans (List.Forall₂.length_eq hreadings)
  -- the passes over the commands have all seen the same value at a place
  have hplace : ∀ (place : Nat) (reading : Reading), readings[place]? = some reading →
      sprites[place]? = some reading.sprite? ∧ assets[place]? = some reading.assets ∧
        reading.cleared = reading ∧ reading.Within limits := by
    intro place reading hreading
    obtain ⟨hlt, rfl⟩ := List.getElem?_eq_some_iff.mp hreading
    have hvalue := List.getElem?_eq_getElem (hlength ▸ hlt : place < commands.length)
    have hsprite := List.getElem?_eq_getElem (by omega : place < sprites.length)
    have hasset := List.getElem?_eq_getElem (by omega : place < assets.length)
    have hcommand := List.getElem?_eq_getElem (by omega : place < resolved.length)
    have hread := List.Forall₂.get hreadings (by omega : place < resolved.length) hlt
    rw [reading?_withCommands] at hread
    obtain ⟨hspriteEq, hassetEq, hrest⟩ := reading_of_resolveCommand hsound
      (hresolved place _ _ hvalue hcommand) (hsprites place _ _ hvalue hsprite)
      (hassets place _ _ hvalue hasset) hread
    exact ⟨hsprite.trans (congrArg some hspriteEq), hasset.trans (congrArg some hassetEq), hrest⟩
  have hspritesEq : sprites = readings.map Reading.sprite? :=
    eq_map_of_getElem? (by omega) fun place reading h => (hplace place reading h).1
  have hassetsEq : assets = readings.map Reading.assets :=
    eq_map_of_getElem? (by omega) fun place reading h => (hplace place reading h).2.1
  refine ⟨readings, hreadings, ?_, hlength ▸ hcommands, fun reading hmem => ?_⟩
  · rw [hspritesEq, hassetsEq]
    rfl
  · obtain ⟨place, hreading⟩ := List.getElem?_of_mem hmem
    exact (hplace place reading hreading).2.2

end VisualNovel.Script
