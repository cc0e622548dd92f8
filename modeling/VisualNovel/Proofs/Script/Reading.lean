import VisualNovel.Manuscript.Basic
import VisualNovel.Proofs.Script.Sound
import VisualNovel.Script.Writer

/-!
# Readings of commands

The reading of a command is the command with what its indices lead to in their place, so readings of
commands of different scripts can be compared. A script has a reading of each command that it admits
(`Sound.exists_reading`), and what is written for a command is determined by its reading
(`writtenCommand_eq`).

What is written does not tell a change to an asset with an empty name from taking the asset away.
`Reading.cleared` is the reading that is left of this difference.
-/

namespace VisualNovel

open Outcome

/-- A change of an asset, by name. -/
inductive AssetReading where
  | keep
  | clear
  | set (name : String)
  deriving DecidableEq, Repr

/-- A command whose indices are replaced by what they lead to. -/
inductive Reading where
  | sprite (id : String) (hide : Bool) (actor : Option Actor) (portrait : Option UInt32)
    (pos size : Option Vec2)
  | speak (actor : Actor) (portrait : Option UInt32) (text : String)
  | wait (duration : Single)
  | background (image music : AssetReading)
  deriving DecidableEq, Repr

/-! ## Readings of single commands -/

/-- The reading of a change of an asset; `none` if it leads to nothing. -/
def AssetRef.reading? (pool : Pool String) : AssetRef → Option AssetReading
  | keep => some .keep
  | clear => some .clear
  | set index => (pool.nameAt? index).map .set

/-- Only what keeps an asset reads so. -/
theorem AssetRef.reading?_eq_keep_iff {pool : Pool String} {asset : AssetRef} :
    asset.reading? pool = some .keep ↔ asset = .keep := by
  cases asset <;> simp [reading?]

/-- Only what clears an asset reads so. -/
theorem AssetRef.reading?_eq_clear_iff {pool : Pool String} {asset : AssetRef} :
    asset.reading? pool = some .clear ↔ asset = .clear := by
  cases asset <;> simp [reading?]

/-- What sets an asset to a name has an index that leads to it. -/
theorem AssetRef.reading?_eq_set_iff {pool : Pool String} {asset : AssetRef} {name : String} :
    asset.reading? pool = some (.set name) ↔
      ∃ index, asset = .set index ∧ pool.nameAt? index = some name := by
  cases asset <;> simp [reading?]

namespace Script

/-- The actor at an optional index; `none` if it leads to nothing. -/
def actorReading? (script : Script) : Option Nat → Option (Option Actor)
  | none => some none
  | some index => (script.actorAt? index).map some

/-- The actor in a reading is the one that its index leads to. -/
theorem bind_actorAt? {script : Script} {index : Option Nat} {actor : Option Actor}
    (h : script.actorReading? index = some actor) : index.bind script.actorAt? = actor := by
  cases index with
  | none => exact Option.some.inj h
  | some index =>
    obtain ⟨speaker, hspeaker, rfl⟩ := Option.map_eq_some_iff.mp h
    exact hspeaker

/-- The reading of a command; `none` if one of its indices leads to nothing, or nobody speaks. -/
def reading? (script : Script) : Command → Option Reading
  | .sprite command => do
    let id ← script.sprites.nameAt? command.sprite
    let actor ← script.actorReading? command.actor
    return .sprite id command.hide actor command.portrait command.pos command.size
  | .speak command => do
    let actor ← script.actorAt? (← command.actor)
    return .speak actor command.portrait command.text
  | .wait duration => some (.wait duration)
  | .background command => do
    let image ← command.image.reading? script.backgrounds
    let music ← command.music.reading? script.music
    return .background image music

/-- The reading of a command does not depend on the other commands. -/
theorem reading?_withCommands (script : Script) (commands : List Command) :
    ({ script with commands } : Script).reading? = script.reading? := by
  funext command
  cases command <;> rfl

section Inversion

variable {script : Script} {command : Command}

/-- A sprite command reads as the id and the actor that its indices lead to. -/
theorem reading?_eq_sprite_iff {id : String} {hide : Bool} {actor : Option Actor}
    {portrait : Option UInt32} {pos size : Option Vec2} :
    script.reading? command = some (.sprite id hide actor portrait pos size) ↔
      ∃ sprite index, command = .sprite ⟨sprite, hide, index, portrait, pos, size⟩ ∧
        script.sprites.nameAt? sprite = some id ∧ script.actorReading? index = some actor := by
  cases command with
  | sprite command =>
    obtain ⟨sprite, hide', index, portrait', pos', size'⟩ := command
    simp only [reading?, Option.bind_eq_bind, Option.bind_eq_some_iff, Option.pure_def,
      Option.some.injEq, Reading.sprite.injEq, Command.sprite.injEq, SpriteCommand.mk.injEq]
    constructor
    · rintro ⟨_, hid, _, hactor, rfl, rfl, rfl, rfl, rfl, rfl⟩
      exact ⟨sprite, index, ⟨rfl, rfl, rfl, rfl, rfl, rfl⟩, hid, hactor⟩
    · rintro ⟨_, _, ⟨rfl, rfl, rfl, rfl, rfl, rfl⟩, hid, hactor⟩
      exact ⟨id, hid, actor, hactor, rfl, rfl, rfl, rfl, rfl, rfl⟩
  | _ => simp [reading?, Option.bind_eq_some_iff]

/-- A speak command reads as the actor that its index leads to. -/
theorem reading?_eq_speak_iff {actor : Actor} {portrait : Option UInt32} {text : String} :
    script.reading? command = some (.speak actor portrait text) ↔
      ∃ index, command = .speak ⟨some index, portrait, text⟩ ∧
        script.actorAt? index = some actor := by
  cases command with
  | speak command =>
    obtain ⟨index, portrait', text'⟩ := command
    simp only [reading?, Option.bind_eq_bind, Option.bind_eq_some_iff, Option.pure_def,
      Option.some.injEq, Reading.speak.injEq, Command.speak.injEq, SpeakCommand.mk.injEq]
    constructor
    · rintro ⟨index, rfl, _, hactor, rfl, rfl, rfl⟩
      exact ⟨index, ⟨rfl, rfl, rfl⟩, hactor⟩
    · rintro ⟨index, ⟨rfl, rfl, rfl⟩, hactor⟩
      exact ⟨index, rfl, actor, hactor, rfl, rfl, rfl⟩
  | _ => simp [reading?, Option.bind_eq_some_iff]

/-- A wait has no indices and reads as it is. -/
theorem reading?_eq_wait_iff {duration : Single} :
    script.reading? command = some (.wait duration) ↔ command = .wait duration := by
  cases command <;> simp [reading?, Option.bind_eq_some_iff]

/-- A background command reads as the names that its indices lead to. -/
theorem reading?_eq_background_iff {image music : AssetReading} :
    script.reading? command = some (.background image music) ↔
      ∃ image' music', command = .background ⟨image', music'⟩ ∧
        image'.reading? script.backgrounds = some image ∧
        music'.reading? script.music = some music := by
  cases command with
  | background command =>
    obtain ⟨image', music'⟩ := command
    simp only [reading?, Option.bind_eq_bind, Option.bind_eq_some_iff, Option.pure_def,
      Option.some.injEq, Reading.background.injEq, Command.background.injEq,
      BackgroundCommand.mk.injEq]
    constructor
    · rintro ⟨_, himage, _, hmusic, rfl, rfl⟩
      exact ⟨image', music', ⟨rfl, rfl⟩, himage, hmusic⟩
    · rintro ⟨_, _, ⟨rfl, rfl⟩, himage, hmusic⟩
      exact ⟨image, himage, music, hmusic, rfl, rfl⟩
  | _ => simp [reading?, Option.bind_eq_some_iff]

end Inversion

end Script

/-! ## What is written for a reading -/

/-- The name by which a change of an asset is written. -/
def AssetReading.written : AssetReading → Option String
  | keep => none
  | clear => some ""
  | set name => some name

/-- The written command. -/
def Reading.written : Reading → Manuscript.Command
  | sprite id hide actor portrait pos size =>
    .sprite ⟨id, hide, actor.map (·.id), Script.writtenPortrait actor portrait,
      pos.map fun v => (v.x, v.y), size.map fun v => (v.x, v.y)⟩
  | speak actor portrait text => .speak ⟨actor.id, text, Script.writtenPortrait actor portrait⟩
  | wait duration => .wait duration
  | background image music => .background ⟨image.written, music.written⟩

/-- A change to an empty name counts as taking away. -/
def AssetReading.cleared : AssetReading → AssetReading
  | keep => keep
  | clear => clear
  | set name => if name = "" then clear else set name

/-- Changes to empty names count as taking away. -/
def Reading.cleared : Reading → Reading
  | background image music => background image.cleared music.cleared
  | reading => reading

/-- The difference is not written. -/
theorem Reading.written_cleared (reading : Reading) :
    reading.cleared.written = reading.written := by
  have hasset (asset : AssetReading) : asset.cleared.written = asset.written := by
    cases asset with
    | set name =>
      rw [AssetReading.cleared]
      split
      · next h => rw [h]; rfl
      · rfl
    | _ => rfl
  cases reading with
  | background image music =>
    rw [cleared, written, written, hasset, hasset]
  | _ => rfl

namespace Script

/-- An asset is written as it reads. -/
theorem writtenAsset_eq {pool : Pool String} {asset : AssetRef} {reading : AssetReading}
    (h : asset.reading? pool = some reading) (kind : ReferenceKind) (location : Location) :
    writtenAsset pool asset kind location = .ok reading.written := by
  cases asset with
  | keep => rw [← Option.some.inj h]; rfl
  | clear => rw [← Option.some.inj h]; rfl
  | set index =>
    obtain ⟨name, hname, rfl⟩ := Option.map_eq_some_iff.mp h
    simp only [writtenAsset, hname]
    rfl

variable {script : Script} {reading : Reading}

/-- A command is written by its reading. -/
theorem writtenCommand_eq {command : Command} (h : script.reading? command = some reading)
    (place : Nat) : script.writtenCommand place command = .ok reading.written := by
  cases reading with
  | sprite id hide actor portrait pos size =>
    obtain ⟨sprite, index, rfl, hid, hactor⟩ := reading?_eq_sprite_iff.mp h
    cases index with
    | none =>
      obtain rfl := Option.some.inj hactor
      simp [writtenCommand, writtenSprite, hid, Reading.written, pure_eq, ok_bind]
    | some index =>
      obtain ⟨actor, hindex, rfl⟩ := Option.map_eq_some_iff.mp hactor
      simp [writtenCommand, writtenSprite, hid, writtenActor, hindex, Reading.written, pure_eq,
        ok_bind]
  | speak actor portrait text =>
    obtain ⟨index, rfl, hindex⟩ := reading?_eq_speak_iff.mp h
    simp [writtenCommand, writtenSpeak, writtenActor, hindex, Reading.written, pure_eq, ok_bind]
  | wait duration =>
    rw [reading?_eq_wait_iff.mp h]
    rfl
  | background image music =>
    obtain ⟨_, _, rfl, himage, hmusic⟩ := reading?_eq_background_iff.mp h
    simp [writtenCommand, writtenBackground, writtenAsset_eq himage, writtenAsset_eq hmusic,
      Reading.written, pure_eq, ok_bind]

end Script

/-! ## Readings of admitted commands -/

/-- A portrait comes with an actor, and is a cell of the actor's sheet. -/
def CellFits (actor : Option Actor) (portrait : Option UInt32) : Prop :=
  ∀ cell ∈ portrait, ∃ speaker, actor = some speaker ∧ cell.toNat < speaker.sheetSize.area

/-- What a sound script says of the readings of its commands: cells are on the sheet, and numbers
are in range. -/
def Reading.Valid : Reading → Prop
  | sprite _ _ actor portrait pos size =>
    CellFits actor portrait ∧ (∀ v ∈ pos, v.isFinite) ∧ ∀ v ∈ size, v.isFinite
  | speak actor portrait _ => CellFits (some actor) portrait
  | wait duration => duration.isFinite ∧ ¬duration < 0
  | background _ _ => True

namespace Script

/-- What resolves has a reading. -/
theorem exists_assetReading {pool : Pool String} {asset : AssetRef} (h : AssetResolves pool asset) :
    ∃ reading, asset.reading? pool = some reading := by
  cases asset with
  | keep => exact ⟨_, rfl⟩
  | clear => exact ⟨_, rfl⟩
  | set index =>
    obtain ⟨name, hname⟩ := Pool.lt_size_iff.mp (h index rfl)
    exact ⟨.set name, Option.map_eq_some_iff.mpr ⟨name, hname, rfl⟩⟩

/-- An actor whose portrait fits has a reading, and the cell fits the sheet there. -/
theorem exists_actorReading {script : Script} {actor : Option Nat} {portrait : Option UInt32}
    (h : script.PortraitFits actor portrait) :
    ∃ speaker, script.actorReading? actor = some speaker ∧ CellFits speaker portrait := by
  cases actor with
  | none =>
    obtain rfl : portrait = none := h
    exact ⟨none, rfl, nofun⟩
  | some index =>
    obtain ⟨speaker, hspeaker, hcell⟩ := h
    exact ⟨some speaker, Option.map_eq_some_iff.mpr ⟨speaker, hspeaker, rfl⟩,
      fun cell hportrait => ⟨speaker, rfl, hcell cell hportrait⟩⟩

/-- An admitted command has a reading, and it is valid. -/
theorem Admits.exists_reading {script : Script} {command : Command} (h : script.Admits command) :
    ∃ reading, script.reading? command = some reading ∧ reading.Valid := by
  cases command with
  | sprite command =>
    obtain ⟨hsprite, hpos, hsize, hportrait⟩ := h
    obtain ⟨id, hid⟩ := Pool.lt_size_iff.mp hsprite
    obtain ⟨actor, hactor, hcell⟩ := exists_actorReading hportrait
    exact ⟨_, reading?_eq_sprite_iff.mpr ⟨_, _, rfl, hid, hactor⟩, hcell, hpos, hsize⟩
  | speak command =>
    obtain ⟨index, portrait, text⟩ := command
    obtain ⟨hsome, hportrait⟩ := h
    -- with a speaker, a fitting portrait is one of this speaker
    obtain ⟨index, rfl⟩ := Option.ne_none_iff_exists'.mp hsome
    obtain ⟨actor, hactor, hcell⟩ := hportrait
    exact ⟨_, reading?_eq_speak_iff.mpr ⟨index, rfl, hactor⟩,
      fun cell hportrait => ⟨actor, rfl, hcell cell hportrait⟩⟩
  | wait duration => exact ⟨_, reading?_eq_wait_iff.mpr rfl, h⟩
  | background command =>
    obtain ⟨image, himage⟩ := exists_assetReading h.1
    obtain ⟨music, hmusic⟩ := exists_assetReading h.2
    exact ⟨_, reading?_eq_background_iff.mpr ⟨_, _, rfl, himage, hmusic⟩, trivial⟩

/-- The commands of a script have these readings. -/
def ReadAs (script : Script) (readings : List Reading) : Prop :=
  List.Forall₂ (fun command reading => script.reading? command = some reading) script.commands
    readings

/-- All commands of a sound script have readings. -/
theorem Sound.exists_readings {script : Script} (h : script.Sound) :
    ∃ readings, script.ReadAs readings :=
  exists_forall₂ fun command hcommand =>
    (h.admitted command hcommand).exists_reading.imp fun _ => And.left

/-- The commands of a sound script have valid readings. -/
theorem Sound.valid_of_readAs {script : Script} (h : script.Sound) {readings : List Reading}
    (hreadings : script.ReadAs readings) : ∀ reading ∈ readings, reading.Valid := by
  intro reading hmem
  obtain ⟨command, hcommand, hreading⟩ := exists_mem_of_forall₂ hreadings hmem
  obtain ⟨other, hother, hvalid⟩ := (h.admitted command hcommand).exists_reading
  rw [hreading] at hother
  exact Option.some.inj hother ▸ hvalid

end Script

end VisualNovel
