import VisualNovel.Proofs.Outcome
import VisualNovel.Proofs.Pool
import VisualNovel.Proofs.Sheet

/-!
# Sound scripts

A script is *sound* if its tables agree with the names that lead into them, each actor can be drawn,
and each command refers only to what is there. Editing keeps a script sound: what is added is
checked (`check_eq_ok_iff` says what the check of a command comes to), and nothing that is there
moves, so that commands which were admitted before still are (`Admits.mono`).
-/

namespace VisualNovel.Script

open Outcome

/-! ## What a command may refer to -/

/-- A portrait comes with an actor of the cast and lies on that actor's sheet. -/
def PortraitFits (script : Script) : Option Nat → Option UInt32 → Prop
  | none, portrait => portrait = none
  | some index, portrait =>
    ∃ actor, script.actorAt? index = some actor ∧
      ∀ cell ∈ portrait, cell.toNat < actor.sheetSize.area

/-- A change of an asset leads into the pool of such assets. -/
def AssetResolves (pool : Pool String) (asset : AssetRef) : Prop :=
  ∀ index ∈ asset.index?, index < pool.size

/-- All that a command refers to is in the script, and its numbers are in range. -/
def Admits (script : Script) : Command → Prop
  | .sprite command =>
    command.sprite < script.sprites.size ∧ (∀ v ∈ command.pos, v.isFinite) ∧
      (∀ v ∈ command.size, v.isFinite) ∧ script.PortraitFits command.actor command.portrait
  | .speak command =>
    command.actor ≠ none ∧ script.PortraitFits command.actor command.portrait
  | .wait duration => duration.isFinite ∧ ¬duration < 0
  | .background command =>
    AssetResolves script.backgrounds command.image ∧ AssetResolves script.music command.music

/-- An actor has a sheet to be drawn from. -/
structure Drawable (actor : Actor) : Prop where
  sheet_ne : actor.sheet ≠ ""
  usable : actor.sheetSize.Usable

/-- Tables and names agree, actors can be drawn, and commands refer to what is there. -/
structure Sound (script : Script) : Prop where
  ids_eq : script.actorIds = script.actors.map (·.id)
  ids_nodup : script.actorIds.Nodup
  sprites : script.sprites.Registered
  backgrounds : script.backgrounds.Registered
  music : script.music.Registered
  drawable : ∀ actor ∈ script.actors, Drawable actor
  admitted : ∀ command ∈ script.commands, script.Admits command

/-- The empty script is sound. -/
theorem sound_empty : Sound empty where
  ids_eq := rfl
  ids_nodup := List.nodup_nil
  sprites := Pool.registered_empty
  backgrounds := Pool.registered_empty
  music := Pool.registered_empty
  drawable _ h := absurd h List.not_mem_nil
  admitted _ h := absurd h List.not_mem_nil

/-- No two actors have the same id. -/
theorem Sound.nodup_ids {script : Script} (h : script.Sound) :
    (script.actors.map (·.id)).Nodup :=
  h.ids_eq ▸ h.ids_nodup

/-- An id leads to an index exactly if the actor there has the id. -/
theorem Sound.actorIndex?_eq_some_iff {script : Script} (h : script.Sound) {id : String}
    {index : Nat} :
    script.actorIndex? id = some index ↔
      ∃ actor, script.actorAt? index = some actor ∧ actor.id = id := by
  rw [actorIndex?, idxOf?_eq_some_iff_of_nodup h.ids_nodup, h.ids_eq, List.getElem?_map,
    Option.map_eq_some_iff, actorAt?]

/-- An actor at an index can be drawn. -/
theorem Sound.drawable_of_actorAt? {script : Script} (h : script.Sound) {index : Nat}
    {actor : Actor} (hactor : script.actorAt? index = some actor) : Drawable actor :=
  h.drawable actor (List.mem_of_getElem? hactor)

/-! ## The check of a command -/

section Check

variable {script : Script} {location : Location}

/-- A vector passes just if it is finite, where it is given. -/
theorem checkVector_eq_ok_iff {vector : Option Vec2} :
    checkVector vector location = .ok () ↔ ∀ v ∈ vector, v.isFinite := by
  rw [checkVector, ite_eq_ok, and_iff_left rfl]
  cases vector with
  | none => simp
  | some v => simp

/-- A reference passes just if it resolves. -/
theorem checkAsset_eq_ok_iff {kind : ReferenceKind} {pool : Pool String} {asset : AssetRef} :
    checkAsset kind pool.size asset location = .ok () ↔ AssetResolves pool asset := by
  rw [checkAsset, AssetResolves]
  cases asset.index? with
  | none => simp
  | some index => simp

/-- A portrait passes just if it fits. -/
theorem checkPortrait_eq_ok_iff (drawable : ∀ actor ∈ script.actors, Drawable actor)
    {actor : Option Nat} {portrait : Option UInt32} :
    script.checkPortrait actor portrait location = .ok () ↔
      script.PortraitFits actor portrait := by
  cases actor with
  | none =>
    cases portrait with
    | none => simp [checkPortrait, PortraitFits]
    | some cell => simp [checkPortrait, PortraitFits]
  | some index =>
    cases hactor : script.actorAt? index with
    | none => simp [checkPortrait, PortraitFits, hactor]
    | some actor =>
      -- the check counts cells in 32 bits, which is exact on a usable sheet
      have husable := (drawable actor (List.mem_of_getElem? hactor)).usable
      cases portrait with
      | none => simp [checkPortrait, PortraitFits, hactor]
      | some cell =>
        simp [checkPortrait, PortraitFits, hactor, husable.lt_cellCount_iff]

/-- The check passes exactly the commands that the script admits. -/
theorem check_eq_ok_iff (drawable : ∀ actor ∈ script.actors, Drawable actor)
    {command : Command} :
    script.check command location = .ok () ↔ script.Admits command := by
  cases command with
  | sprite command =>
    simp only [check, checkSprite, guard_eq_ok, bind_eq_ok, exists_unit, checkVector_eq_ok_iff,
      checkPortrait_eq_ok_iff drawable, Admits, Nat.not_le]
  | speak command =>
    simp only [check, checkSpeak, bind_eq_ok, exists_unit, last_guard_eq_ok, pure_eq_ok, and_true,
      checkPortrait_eq_ok_iff drawable, Admits, Option.isNone_iff_eq_none]
    exact and_comm
  | wait duration => simp only [check, checkWait, ite_eq_ok, and_true, Admits]
  | background command =>
    simp only [check, checkBackground, bind_eq_ok, exists_unit, checkAsset_eq_ok_iff, Admits]

end Check

/-! ## Growing -/

/-- Whatever an index leads to in a script, it leads to in a later one. -/
structure Grows (script later : Script) : Prop where
  actors : ∀ {index actor}, script.actorAt? index = some actor → later.actorAt? index = some actor
  sprites : ∀ {index name},
    script.sprites.nameAt? index = some name → later.sprites.nameAt? index = some name
  backgrounds : ∀ {index name},
    script.backgrounds.nameAt? index = some name → later.backgrounds.nameAt? index = some name
  music : ∀ {index name},
    script.music.nameAt? index = some name → later.music.nameAt? index = some name

/-- What fits goes on fitting in a script that has grown. -/
theorem PortraitFits.mono {script later : Script} (hgrows : script.Grows later)
    {actor : Option Nat} {portrait : Option UInt32} (h : script.PortraitFits actor portrait) :
    later.PortraitFits actor portrait := by
  cases actor with
  | none => exact h
  | some index =>
    obtain ⟨actor, hactor, hcell⟩ := h
    exact ⟨actor, hgrows.actors hactor, hcell⟩

/-- What resolves goes on resolving in a pool that has grown. -/
theorem AssetResolves.mono {pool later : Pool String}
    (hgrows : ∀ {index name}, pool.nameAt? index = some name → later.nameAt? index = some name)
    {asset : AssetRef} (h : AssetResolves pool asset) : AssetResolves later asset := by
  intro index hindex
  obtain ⟨name, hname⟩ := Pool.lt_size_iff.mp (h index hindex)
  exact Pool.lt_size_iff.mpr ⟨name, hgrows hname⟩

/-- What a script admits, it admits when it has grown. -/
theorem Admits.mono {script later : Script} (hgrows : script.Grows later) {command : Command}
    (h : script.Admits command) : later.Admits command := by
  cases command with
  | sprite command =>
    obtain ⟨hsprite, hpos, hsize, hportrait⟩ := h
    obtain ⟨name, hname⟩ := Pool.lt_size_iff.mp hsprite
    exact ⟨Pool.lt_size_iff.mpr ⟨name, hgrows.sprites hname⟩, hpos, hsize, hportrait.mono hgrows⟩
  | speak command => exact ⟨h.1, h.2.mono hgrows⟩
  | wait duration => exact h
  | background command => exact ⟨h.1.mono hgrows.backgrounds, h.2.mono hgrows.music⟩

/-! ## Editing -/

section Editing

variable {script : Script}

/-- A script with further actors at the end of its cast. -/
def withCast (script : Script) (actors : List Actor) : Script :=
  { script with
    actors := script.actors ++ actors
    actorIds := script.actorIds ++ actors.map (·.id) }

/-- An actor can be drawn from a sheet that has a name and a usable size. -/
theorem drawable_iff {actor : Actor} :
    Drawable actor ↔ actor.sheet ≠ "" ∧ actor.sheetSize.Usable :=
  ⟨fun h => ⟨h.sheet_ne, h.usable⟩, fun h => ⟨h.1, h.2⟩⟩

/-- An actor is added if the id is new and there is a sheet to draw from, and is refused
otherwise. -/
theorem addActor_cases (script : Script) (actor : Actor) :
    (actor.id ∉ script.actorIds ∧ Drawable actor ∧
      script.addActor actor = (.ok script.actors.length, script.withCast [actor])) ∨
    (¬(actor.id ∉ script.actorIds ∧ Drawable actor) ∧
      ∃ error, script.addActor actor = (.error error, script)) := by
  have hknown : (script.actorIndex? actor.id).isSome ↔ actor.id ∈ script.actorIds := by
    rw [actorIndex?, List.isSome_idxOf?]
  rw [addActor, drawable_iff, SheetSize.usable_iff]
  by_cases hid : (script.actorIndex? actor.id).isSome
  · rw [if_pos hid]
    exact .inr ⟨fun h => h.1 (hknown.mp hid), _, rfl⟩
  rw [if_neg hid]
  by_cases hsheet : actor.sheet = ""
  · rw [if_pos hsheet]
    exact .inr ⟨fun h => h.2.1 hsheet, _, rfl⟩
  rw [if_neg hsheet]
  by_cases hempty : actor.sheetSize.columns = 0 ∨ actor.sheetSize.rows = 0
  · rw [if_pos hempty]
    exact .inr ⟨fun h => h.2.2.1 hempty, _, rfl⟩
  rw [if_neg hempty]
  by_cases hcells : actor.sheetSize.checkedCellCount = none
  · rw [if_pos hcells]
    exact .inr ⟨fun h => h.2.2.2 hcells, _, rfl⟩
  rw [if_neg hcells]
  exact .inl ⟨mt hknown.mpr hid, ⟨hsheet, hempty, hcells⟩, rfl⟩

/-- A command is appended if it passes the check, and is refused otherwise. -/
theorem push_cases (script : Script) (command : Command) :
    (script.check command (.command script.commands.length) = .ok () ∧
      script.push command = (.ok (), { script with commands := script.commands ++ [command] })) ∨
    ∃ error, script.check command (.command script.commands.length) = .error error ∧
      script.push command = (.error error, script) := by
  rw [push]
  cases script.check command (.command script.commands.length) with
  | ok => exact .inl ⟨rfl, rfl⟩
  | error error => exact .inr ⟨error, rfl, rfl⟩

/-- A command is inserted before one that is there or at the end, if it passes the check, and is
refused otherwise. -/
theorem insert_cases (script : Script) (place : Nat) (command : Command) :
    (place ≤ script.commands.length ∧ script.check command (.command place) = .ok () ∧
      script.insert place command =
        (.ok (), { script with commands := script.commands.insertIdx place command })) ∨
    (¬(place ≤ script.commands.length ∧ script.check command (.command place) = .ok ()) ∧
      ∃ error, script.insert place command = (.error error, script)) := by
  rw [insert]
  by_cases hplace : script.commands.length < place
  · rw [if_pos hplace]
    exact .inr ⟨fun h => Nat.not_le.mpr hplace h.1, _, rfl⟩
  rw [if_neg hplace]
  cases script.check command (.command place) with
  | ok => exact .inl ⟨Nat.not_lt.mp hplace, rfl, rfl⟩
  | error error => exact .inr ⟨fun h => absurd h.2 nofun, error, rfl⟩

/-- Further actors come after those there are. -/
theorem grows_withCast (script : Script) (actors : List Actor) :
    script.Grows (script.withCast actors) where
  actors {index actor} h := by
    have hlt : index < script.actors.length := (List.getElem?_eq_some_iff.mp h).1
    rw [actorAt?, withCast, List.getElem?_append_left hlt]
    exact h
  sprites h := h
  backgrounds h := h
  music h := h

/-- A further sprite comes after those there are. -/
theorem grows_ensureSprite (script : Script) (id : String) :
    script.Grows (script.ensureSprite id).2 where
  actors h := h
  sprites h := Pool.nameAt?_ensure id h
  backgrounds h := h
  music h := h

/-- A further background comes after those there are. -/
theorem grows_ensureBackground (script : Script) (name : String) :
    script.Grows (script.ensureBackground name).2 where
  actors h := h
  sprites h := h
  backgrounds h := Pool.nameAt?_ensure name h
  music h := h

/-- A further track comes after those there are. -/
theorem grows_ensureMusic (script : Script) (name : String) :
    script.Grows (script.ensureMusic name).2 where
  actors h := h
  sprites h := h
  backgrounds h := h
  music h := Pool.nameAt?_ensure name h

/-- Other commands, each of them admitted, keep a script sound. -/
theorem Sound.withCommands (h : script.Sound) {commands : List Command}
    (hcommands : ∀ command ∈ commands, script.Admits command) :
    Sound { script with commands } where
  ids_eq := h.ids_eq
  ids_nodup := h.ids_nodup
  sprites := h.sprites
  backgrounds := h.backgrounds
  music := h.music
  drawable := h.drawable
  admitted command hcommand :=
    (hcommands command hcommand).mono ⟨fun h => h, fun h => h, fun h => h, fun h => h⟩

/-- Other pools keep a script sound if they still admit its commands. -/
theorem Sound.withPools (h : script.Sound) {sprites : Pool Sprite}
    {backgrounds music : Pool String} (hsprites : sprites.Registered)
    (hbackgrounds : backgrounds.Registered) (hmusic : music.Registered)
    (hadmitted : ∀ command ∈ script.commands,
      Admits { script with sprites, backgrounds, music } command) :
    Sound { script with sprites, backgrounds, music } where
  ids_eq := h.ids_eq
  ids_nodup := h.ids_nodup
  sprites := hsprites
  backgrounds := hbackgrounds
  music := hmusic
  drawable := h.drawable
  admitted := hadmitted

/-- Further actors with new ids who can be drawn keep a script sound. -/
theorem Sound.withCast (h : script.Sound) {actors : List Actor}
    (hids : (script.actorIds ++ actors.map (·.id)).Nodup)
    (hdrawable : ∀ actor ∈ actors, Drawable actor) : (script.withCast actors).Sound where
  ids_eq := by rw [Script.withCast, List.map_append, h.ids_eq]
  ids_nodup := hids
  sprites := h.sprites
  backgrounds := h.backgrounds
  music := h.music
  drawable actor hactor :=
    (List.mem_append.mp hactor).elim (h.drawable actor) (hdrawable actor)
  admitted command hcommand := (h.admitted command hcommand).mono (grows_withCast script actors)

/-- A further sprite keeps a script sound. -/
theorem Sound.ensureSprite (h : script.Sound) (id : String) : (script.ensureSprite id).2.Sound :=
  h.withPools (h.sprites.ensure id) h.backgrounds h.music fun _ hcommand =>
    (h.admitted _ hcommand).mono (grows_ensureSprite script id)

/-- A further background keeps a script sound. -/
theorem Sound.ensureBackground (h : script.Sound) (name : String) :
    (script.ensureBackground name).2.Sound :=
  h.withPools h.sprites (h.backgrounds.ensure name) h.music fun _ hcommand =>
    (h.admitted _ hcommand).mono (grows_ensureBackground script name)

/-- A further track keeps a script sound. -/
theorem Sound.ensureMusic (h : script.Sound) (name : String) : (script.ensureMusic name).2.Sound :=
  h.withPools h.sprites h.backgrounds (h.music.ensure name) fun _ hcommand =>
    (h.admitted _ hcommand).mono (grows_ensureMusic script name)

end Editing

end VisualNovel.Script
