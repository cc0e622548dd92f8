import VisualNovel.Proofs.Manuscript.Value
import VisualNovel.Proofs.Script.Load
import VisualNovel.Proofs.Script.Reading

/-!
# Opening what was written

The value written for a reading is read back as whatever command has this reading in the script that
resolves it (`resolveCommand_written`), up to changes to empty names. The script that a load builds
from written readings has just the names that they mention, so each of them has such a command
there (`exists_command`), and the load gives these commands (`load_valueOf`). It does so whatever
the written numbers become, as long as they are faithful; in a JSON value they are
(`load_written`).
-/

namespace VisualNovel

open Outcome Manuscript

/-! ## What a reading mentions -/

/-- The text that a command has spoken. -/
def Command.text? : Command → Option String
  | speak command => some command.text
  | _ => none

/-- The name by which an asset is mentioned: an empty name is not. -/
def AssetReading.name? : AssetReading → Option String
  | keep => none
  | clear => none
  | set name => if name = "" then none else some name

namespace Reading

/-- The sprite that is mentioned. -/
def sprite? : Reading → Option String
  | sprite id .. => some id
  | _ => none

/-- The image and the track that are mentioned. -/
def assets : Reading → Option String × Option String
  | background image music => (image.name?, music.name?)
  | _ => (none, none)

/-- The actor who is drawn or speaks. -/
def actor? : Reading → Option Actor
  | sprite _ _ actor .. => actor
  | speak actor _ _ => some actor
  | _ => none

/-- The text that is spoken. -/
def text? : Reading → Option String
  | speak _ _ text => some text
  | _ => none

/-- The names that are mentioned and the text that is spoken are not too long. -/
structure Within (limits : Limits) (reading : Reading) : Prop where
  sprite_le : ∀ id ∈ reading.sprite?, id.utf8ByteSize ≤ limits.idBytes
  image_le : ∀ name ∈ reading.assets.1, name.utf8ByteSize ≤ limits.idBytes
  music_le : ∀ name ∈ reading.assets.2, name.utf8ByteSize ≤ limits.idBytes
  text_le : ∀ text ∈ reading.text?, text.utf8ByteSize ≤ limits.textBytes

/-- The JSON value written for a reading, by what its numbers become. -/
def value (number : Figure → Json.Number) (reading : Reading) : Json :=
  valueOf number reading.written.outline

end Reading

namespace Script

variable {limits : Limits} {reading : Reading} {place : Nat} {number : Figure → Json.Number}

theorem mentionedSprite?_written (h : reading.Within limits) :
    mentionedSprite? limits place (reading.value number) = .ok reading.sprite? := by
  rw [mentionedSprite?_eq_ok_iff]
  refine ⟨_, valueOf_outline _, ?_⟩
  cases reading with
  | sprite id hide actor portrait pos size =>
    exact Or.inr ⟨_, id, rfl, (Sprite.find?_fields .root _).1, h.sprite_le id rfl, rfl⟩
  | _ => exact Or.inl ⟨rfl, rfl⟩

/-- A name that is not empty is mentioned where it is written. -/
theorem mentionedName?_written {asset : AssetReading} {fields : Section} {key : String}
    (hfind : fields.find? key = (asset.written.map Json.Tree.string).map (valueOf number))
    (h : ∀ name ∈ asset.name?, name.utf8ByteSize ≤ limits.idBytes) :
    mentionedName? limits fields key = .ok asset.name? := by
  rw [mentionedName?_eq_ok_iff]
  cases asset with
  | keep => exact Or.inl ⟨hfind, rfl⟩
  | clear => exact Or.inr ⟨"", hfind, by simp [AssetReading.name?]⟩
  | set name =>
    refine Or.inr ⟨name, hfind, ?_⟩
    by_cases hempty : name = ""
    · simp [hempty, AssetReading.name?]
    · rw [AssetReading.name?, if_neg hempty] at h
      simp only [hempty, if_false, AssetReading.name?, and_true]
      exact h name rfl

theorem mentionedAssets_written (h : reading.Within limits) :
    mentionedAssets limits place (reading.value number) = .ok reading.assets := by
  rw [mentionedAssets_eq_ok_iff]
  refine ⟨_, valueOf_outline _, ?_⟩
  cases reading with
  | background image music =>
    obtain ⟨himage, hmusic⟩ := Background.find?_fields
      ((Location.command place).key CommandKind.background.key) ⟨image.written, music.written⟩
    exact Or.inr ⟨⟨_, _⟩, rfl, rfl, mentionedName?_written himage h.image_le,
      mentionedName?_written hmusic h.music_le⟩
  | _ => exact Or.inl ⟨rfl, rfl⟩

/-! ## Commands -/

section Resolve

variable {target : Script} (htarget : target.Sound)
include htarget

/-- The id of an actor leads back to where the actor is. -/
theorem map_actorIndex? {index : Option Nat} {actor : Option Actor}
    (h : target.actorReading? index = some actor) :
    (actor.map (·.id)).map target.actorIndex? = index.map some := by
  cases index with
  | none =>
    rw [← Option.some.inj h]
    rfl
  | some index =>
    obtain ⟨speaker, hspeaker, rfl⟩ := Option.map_eq_some_iff.mp h
    exact congrArg some (htarget.actorIndex?_eq_some_iff.mpr ⟨speaker, hspeaker, rfl⟩)

/-- Column and row of a cell on the sheet lead back to its number. -/
theorem resolvePortrait_written (hnumber : Faithful number) {fields : Section} {index : Option Nat}
    {actor : Option Actor} {portrait : Option UInt32}
    (hactor : target.actorReading? index = some actor)
    (hfits : CellFits actor portrait)
    (hfind : fields.find? "portrait" =
      ((writtenPortrait actor portrait).map outlineCell).map (valueOf number)) :
    target.resolvePortrait fields index = .ok portrait := by
  rw [resolvePortrait_eq_ok_iff]
  cases portrait with
  | none =>
    refine Or.inl ⟨?_, rfl⟩
    cases actor <;> exact hfind
  | some cell =>
    obtain ⟨speaker, rfl, hcell⟩ := hfits cell rfl
    have hspeaker : index.bind target.actorAt? = some speaker := by
      cases index with
      | none => exact absurd hactor nofun
      | some index =>
        obtain ⟨other, hother, heq⟩ := Option.map_eq_some_iff.mp hactor
        rw [Option.bind_some, hother, Option.some.inj heq]
    have husable : speaker.sheetSize.Usable := by
      obtain ⟨index, -, hindex⟩ := Option.bind_eq_some_iff.mp hspeaker
      exact (htarget.drawable_of_actorAt? hindex).usable
    -- the cell is on the sheet, so it has a column and a row
    obtain ⟨column, row, hcoords, hback⟩ := husable.exists_cellIndex hcell
    refine Or.inr ⟨column, row, speaker, cell, ?_, hspeaker, hback, rfl⟩
    have hwritten : writtenPortrait (some speaker) (some cell) = some (column, row) := hcoords
    rw [hwritten] at hfind
    exact Section.optional_eq_ok_some.mpr
      ⟨_, hfind, pair_valueOf hnumber (Nat.zero_le _) (Nat.zero_le _)⟩

omit htarget in
/-- The name written for a change leads back to its entry, and an empty one clears. -/
theorem readsAsset_written {pool : Pool String} (hpool : pool.Registered) {asset : AssetRef}
    {change : AssetReading} (h : asset.reading? pool = some change.cleared) :
    ReadsAsset pool change.written asset := by
  cases change with
  | keep => exact AssetRef.reading?_eq_keep_iff.mp h
  | clear => exact AssetRef.reading?_eq_clear_iff.mp h
  | set name =>
    rw [AssetReading.cleared] at h
    rw [AssetReading.written, ReadsAsset]
    split
    · next hempty =>
      rw [if_pos hempty] at h
      exact AssetRef.reading?_eq_clear_iff.mp h
    · next hempty =>
      rw [if_neg hempty] at h
      obtain ⟨index, rfl, hname⟩ := AssetRef.reading?_eq_set_iff.mp h
      exact ⟨index, hpool.position?_eq_some_iff.mpr hname, rfl⟩

/-- What is written for a valid reading is understood as the command that has this reading. -/
theorem readsBody_written (hnumber : Faithful number) (hvalid : reading.Valid)
    (hwithin : reading.Within limits) {command : Command}
    (h : target.reading? command = some reading.cleared) (location : Location) :
    ReadsBody limits target ⟨location, valueEntries number reading.written.fields⟩ command := by
  cases reading with
  | sprite id hide actor portrait pos size =>
    obtain ⟨sprite, index, rfl, hid, hactor⟩ := reading?_eq_sprite_iff.mp h
    obtain ⟨hfindId, hfindHide, hfindActor, hfindPortrait, hfindPos, hfindSize⟩ :=
      Sprite.find?_fields location ⟨id, hide, actor.map (·.id), writtenPortrait actor portrait,
        pos.map fun v => (v.x, v.y), size.map fun v => (v.x, v.y)⟩
    constructor
    case id => exact ⟨id, hfindId, htarget.sprites.position?_eq_some_iff.mpr hid⟩
    case actor =>
      exact ⟨_, optional_eq_ok hfindActor fun name _ => string_valueOf name,
        map_actorIndex? htarget hactor⟩
    case hide =>
      cases hide with
      | false => exact ⟨none, Section.optional_eq_ok_none.mpr hfindHide, rfl⟩
      | true =>
        exact ⟨some true, Section.optional_eq_ok_some.mpr
          ⟨_, hfindHide, FieldReader.bool_eq_ok.mpr rfl⟩, rfl⟩
    case portrait => exact resolvePortrait_written htarget hnumber hactor hvalid.1 hfindPortrait
    case pos => exact optional_vector_eq_ok hnumber hfindPos hvalid.2.1
    case size => exact optional_vector_eq_ok hnumber hfindSize hvalid.2.2
  | speak actor portrait text =>
    obtain ⟨index, rfl, hactor⟩ := reading?_eq_speak_iff.mp h
    obtain ⟨hfindActor, hfindText, hfindPortrait⟩ :=
      Speak.find?_fields location ⟨actor.id, text, writtenPortrait actor portrait⟩
    constructor
    case actor =>
      exact ⟨actor.id, index, hfindActor,
        htarget.actorIndex?_eq_some_iff.mpr ⟨actor, hactor, rfl⟩, rfl⟩
    case text => exact ⟨some text, Section.optional_string_eq_ok.mpr hfindText, rfl⟩
    case text_le => exact hwithin.text_le text rfl
    case portrait =>
      have hreading : target.actorReading? (some index) = some (some actor) :=
        Option.map_eq_some_iff.mpr ⟨actor, hactor, rfl⟩
      exact resolvePortrait_written htarget hnumber hreading hvalid hfindPortrait
  | wait duration =>
    rw [reading?_eq_wait_iff.mp h]
    exact ⟨Section.required_eq_ok.mpr ⟨_, rfl, single_valueOf hnumber hvalid.1⟩, hvalid.2⟩
  | background image music =>
    obtain ⟨_, _, rfl, himage, hmusic⟩ := reading?_eq_background_iff.mp h
    obtain ⟨hfindImage, hfindMusic⟩ :=
      Background.find?_fields location ⟨image.written, music.written⟩
    exact ⟨⟨_, optional_eq_ok hfindImage fun name _ => string_valueOf name,
        readsAsset_written htarget.backgrounds himage⟩,
      _, optional_eq_ok hfindMusic fun name _ => string_valueOf name,
      readsAsset_written htarget.music hmusic⟩

omit htarget in
theorem presentKinds_singleton (location : Location) (kind : CommandKind) (body : Json) :
    presentKinds ⟨location, [(kind.key, body)]⟩ = [(kind, body)] := by
  cases kind <;> rfl

omit htarget in
theorem kind_written {command : Command} (h : target.reading? command = some reading.cleared) :
    reading.written.kind = command.kind := by
  cases reading with
  | sprite id hide actor portrait pos size =>
    obtain ⟨_, _, rfl, -⟩ := reading?_eq_sprite_iff.mp h
    rfl
  | speak actor portrait text =>
    obtain ⟨_, rfl, -⟩ := reading?_eq_speak_iff.mp h
    rfl
  | wait duration =>
    rw [reading?_eq_wait_iff.mp h]
    rfl
  | background image music =>
    obtain ⟨_, _, rfl, -⟩ := reading?_eq_background_iff.mp h
    rfl

/-- The value written for a reading resolves to the command that has this reading, up to changes to
empty names. -/
theorem resolveCommand_written (hnumber : Faithful number) (hvalid : reading.Valid)
    (hwithin : reading.Within limits) {command : Command}
    (h : target.reading? command = some reading.cleared) :
    target.resolveCommand limits place (reading.value number) = .ok command := by
  refine resolveCommand_eq_ok_iff.mpr ⟨_, _, valueOf_outline _, ?_,
    readsBody_written htarget hnumber hvalid hwithin h _⟩
  rw [presentKinds_singleton, kind_written h]

end Resolve

/-! ## Tables -/

/-- The script without commands that a load builds: a cast, and the names that commands mention. -/
def tables (cast : List Actor) (readings : List Reading) : Script :=
  (empty.withCast cast).withMentions (readings.map Reading.sprite?) (readings.map Reading.assets)

section Tables

variable {cast : List Actor} {readings : List Reading}

theorem sound_tables (hids : (cast.map (·.id)).Nodup)
    (hdrawable : ∀ actor ∈ cast, Drawable actor) : (tables cast readings).Sound :=
  (sound_empty.withCast hids hdrawable).withMentions rfl _ _

/-- A mentioned name has an index in the tables. -/
theorem exists_nameAt?_ofNames {α : Type} [PoolEntry α] [LawfulPoolEntry α] {names : List String}
    {name : String} (h : name ∈ names) :
    ∃ index, (Pool.ofNames names : Pool α).nameAt? index = some name := by
  have hregistered : (Pool.ofNames names : Pool α).Registered := Pool.registered_ofNames names
  have hmem : name ∈ (Pool.ofNames names : Pool α).names := Pool.mem_names_ofNames.mpr h
  obtain ⟨index, hindex⟩ := Pool.exists_position? hmem
  exact ⟨index, hregistered.position?_eq_some_iff.mp hindex⟩

theorem exists_assetRef {names : List String} {change : AssetReading}
    (h : ∀ name ∈ change.name?, name ∈ names) :
    ∃ asset : AssetRef, asset.reading? (Pool.ofNames names) = some change.cleared := by
  cases change with
  | keep => exact ⟨.keep, rfl⟩
  | clear => exact ⟨.clear, rfl⟩
  | set name =>
    rw [AssetReading.name?] at h
    rw [AssetReading.cleared]
    split
    · exact ⟨.clear, rfl⟩
    · next hempty =>
      rw [if_neg hempty] at h
      obtain ⟨index, hindex⟩ : ∃ index, (Pool.ofNames names : Pool String).nameAt? index =
          some name := exists_nameAt?_ofNames (h name rfl)
      exact ⟨.set index, AssetRef.reading?_eq_set_iff.mpr ⟨index, rfl, hindex⟩⟩

/-- An actor of the cast has an index. -/
theorem exists_actorAt? (readings : List Reading) {actor : Actor} (h : actor ∈ cast) :
    ∃ index, (tables cast readings).actorAt? index = some actor :=
  List.getElem?_of_mem h

/-- Each reading that mentions only what is in the tables is that of a command, up to changes to
empty names. -/
theorem exists_command {reading : Reading} (hreading : reading ∈ readings)
    (hactor : ∀ actor ∈ reading.actor?, actor ∈ cast) :
    ∃ command, (tables cast readings).reading? command = some reading.cleared := by
  cases reading with
  | sprite id hide actor portrait pos size =>
    obtain ⟨sprite, hsprite⟩ : ∃ sprite, (tables cast readings).sprites.nameAt? sprite = some id :=
      exists_nameAt?_ofNames (List.mem_filterMap.mpr ⟨_, List.mem_map_of_mem hreading, rfl⟩)
    obtain ⟨index, hindex⟩ : ∃ index, (tables cast readings).actorReading? index = some actor := by
      cases actor with
      | none => exact ⟨none, rfl⟩
      | some actor =>
        obtain ⟨index, hindex⟩ := exists_actorAt? readings (hactor actor rfl)
        exact ⟨some index, Option.map_eq_some_iff.mpr ⟨actor, hindex, rfl⟩⟩
    exact ⟨_, reading?_eq_sprite_iff.mpr ⟨sprite, index, rfl, hsprite, hindex⟩⟩
  | speak actor portrait text =>
    obtain ⟨index, hindex⟩ := exists_actorAt? readings (hactor actor rfl)
    exact ⟨_, reading?_eq_speak_iff.mpr ⟨index, rfl, hindex⟩⟩
  | wait duration => exact ⟨_, reading?_eq_wait_iff.mpr rfl⟩
  | background image music =>
    -- the pools hold the names that any of the readings mentions
    have hmentioned := List.mem_map_of_mem (f := Reading.assets) hreading
    obtain ⟨image', himage⟩ : ∃ asset : AssetRef,
        asset.reading? (tables cast readings).backgrounds = some image.cleared :=
      exists_assetRef fun name hname => List.mem_filterMap.mpr ⟨_, hmentioned, hname⟩
    obtain ⟨music', hmusic⟩ : ∃ asset : AssetRef,
        asset.reading? (tables cast readings).music = some music.cleared :=
      exists_assetRef fun name hname => List.mem_filterMap.mpr ⟨_, hmentioned, hname⟩
    exact ⟨_, reading?_eq_background_iff.mpr ⟨image', music', rfl, himage, hmusic⟩⟩

/-! ## Loading -/

/-- What is written of an actor is read back. -/
theorem loadActor_written (hnumber : Faithful number) {actor : Actor} (hdrawable : Drawable actor)
    (hid : actor.id.utf8ByteSize ≤ limits.idBytes) :
    loadActor limits actor.id (.object (valueEntries number (castEntry actor).2.fields)) =
      .ok actor := by
  refine loadActor_eq_ok_iff.mpr ⟨hid, rfl, _, rfl, ?_⟩
  obtain ⟨hname, hsheet, hsize⟩ :=
    Manuscript.Actor.find?_fields (.actor actor.id) (castEntry actor).2
  exact ⟨hname, hsheet, hdrawable.sheet_ne, Section.required_eq_ok.mpr
    ⟨_, hsize, pair_valueOf hnumber hdrawable.usable.columns_pos hdrawable.usable.rows_pos⟩⟩

theorem loadCast_written (hnumber : Faithful number) (hdrawable : ∀ actor ∈ cast, Drawable actor)
    (hids : ∀ actor ∈ cast, actor.id.utf8ByteSize ≤ limits.idBytes)
    (hnodup : (cast.map (·.id)).Nodup) (hlength : cast.length ≤ limits.actors) :
    loadCast limits (.object ((cast.map castEntry).map fun entry =>
      (entry.1, .object (valueEntries number entry.2.fields)))) = .ok (empty.withCast cast) := by
  refine loadCast_eq_ok_iff.mpr ⟨_, cast, rfl, ?_, ?_, hdrawable, hnodup, rfl⟩
  · rw [List.length_map, List.length_map]
    exact hlength
  · rw [List.forall₂_map_left_iff, List.forall₂_map_left_iff, List.forall₂_same]
    exact fun actor hactor => loadActor_written hnumber (hdrawable actor hactor) (hids actor hactor)

/-- A step that each written reading passes is passed by all of them. -/
theorem forEachCommand_written {α : Type} {f : Nat → Json → Except Error α} {g : Reading → α}
    (h : ∀ reading ∈ readings, ∀ place, f place (reading.value number) = .ok (g reading)) :
    forEachCommand (readings.map (Reading.value number)) f = .ok (readings.map g) := by
  refine mapM_zipIdx_of_forall₂ ?_
  rw [List.forall₂_map_left_iff, List.forall₂_map_right_iff, List.forall₂_same]
  exact h

section Load

variable (hsorted : (cast.map (·.id)).Pairwise (· < ·))
  (hdrawable : ∀ actor ∈ cast, Drawable actor) (hactors : cast.length ≤ limits.actors)
  (hids : ∀ actor ∈ cast, actor.id.utf8ByteSize ≤ limits.idBytes)
  (hlength : readings.length ≤ limits.commands) (hvalid : ∀ reading ∈ readings, reading.Valid)
  (hwithin : ∀ reading ∈ readings, reading.Within limits) {commands : List Command}
  (hcommands : List.Forall₂ (fun command reading =>
    (tables cast readings).reading? command = some reading.cleared) commands readings)
include hsorted hdrawable hactors hids hlength hvalid hwithin hcommands

/-- What is written of a cast in order and of valid readings loads: the tables are what it mentions,
and the commands are those that have the readings there, up to changes to empty names. -/
theorem load_valueOf (hnumber : Faithful number) :
    load limits (valueOf number
      (Manuscript.outline ⟨cast.map castEntry, readings.map Reading.written⟩)) =
        .ok { tables cast readings with commands } := by
  have hkeys : Json.KeysIncrease (cast.map castEntry) := by
    rw [Json.KeysIncrease, List.map_map]
    exact hsorted
  have hnodup : (cast.map (·.id)).Nodup := by
    have hcastKeys := hkeys.nodup
    rwa [List.map_map] at hcastKeys
  have hsound : (tables cast readings).Sound := sound_tables hnodup hdrawable
  -- all commands are resolved in the same tables, so their places do not matter
  have hresolved : forEachCommand (readings.map (Reading.value number))
      (resolveCommand limits (tables cast readings)) = .ok commands := by
    refine mapM_zipIdx_of_forall₂ ?_
    rw [List.forall₂_map_left_iff]
    have hreadings := (List.forall₂_and_left _ _).mpr
      ⟨fun reading hreading => And.intro (hvalid reading hreading) (hwithin reading hreading),
        hcommands.flip⟩
    exact hreadings.imp fun _ _ h place => resolveCommand_written hsound hnumber h.1.1 h.1.2 h.2
  have hvalues : (readings.map Reading.written).map
      (fun command => valueOf number command.outline) = readings.map (Reading.value number) :=
    List.map_map
  rw [valueOf_manuscript hkeys]
  dsimp only
  rw [hvalues]
  refine load_eq_ok_iff.mpr ⟨_, _, _, rfl, rfl, rfl, ?_, _, _, _, commands,
    loadCast_written hnumber hdrawable hids hnodup hactors, forEachCommand_written ?_,
    forEachCommand_written ?_, hresolved, rfl⟩
  · rw [List.length_map]
    exact hlength
  · exact fun reading hreading place => mentionedSprite?_written (hwithin reading hreading)
  · exact fun reading hreading place => mentionedAssets_written (hwithin reading hreading)

/-- The JSON value written loads. -/
theorem load_written :
    load limits (Manuscript.toJson ⟨cast.map castEntry, readings.map Reading.written⟩) =
      .ok { tables cast readings with commands } :=
  load_valueOf hsorted hdrawable hactors hids hlength hvalid hwithin hcommands faithful_toNumber

end Load

end Tables

end Script

end VisualNovel
