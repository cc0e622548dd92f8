import VisualNovel.Proofs.Assets
import VisualNovel.Proofs.Playback.Coherent
import VisualNovel.Proofs.Playback.Host
import VisualNovel.Proofs.Scene
import VisualNovel.Proofs.Script.Meaning

/-!
# What has to be loaded before a scene is played

Each cue that a playback gives is one of its opening or of a command of its script
(`Session.cue_origin`), and each portrait is a cell of the sheet of an actor of the cast. The assets
of a scene hold all of these: a name in a pool of a loaded script is not empty, nor is the name of
an image or track that a loaded scene opens with, so none is left out when they are collected
(`Session.run_preloaded`).
-/

namespace VisualNovel

open Outcome

/-! ## Names in the pools of a loaded script -/

namespace Script

/-- A name that is mentioned is not empty. -/
theorem ne_empty_of_name? {change : AssetReading} {name : String} (h : change.name? = some name) :
    name ≠ "" := by
  rintro rfl
  cases change with
  | set other =>
    rw [AssetReading.name?] at h
    split at h
    · cases h
    · next hne => exact hne (Option.some.inj h)
  | _ => cases h

/-- What a reading mentions of images and tracks is not empty. -/
theorem ne_empty_of_assets {reading : Reading} {name : String}
    (h : reading.assets.1 = some name ∨ reading.assets.2 = some name) : name ≠ "" := by
  cases reading with
  | background image music => exact h.elim ne_empty_of_name? ne_empty_of_name?
  | _ => rcases h with h | h <;> cases h

/-- No pool of a loaded script has an empty name. -/
theorem named_of_load {limits : Limits} {value : Json} {script : Script}
    (h : load limits value = .ok script) :
    "" ∉ script.backgrounds.entries ∧ "" ∉ script.music.entries := by
  obtain ⟨readings, -, htables, -, -⟩ := eq_tables_of_load h
  rw [htables]
  -- the pools are those of the names that the readings mention
  show "" ∉ (Pool.ofNames ((readings.map Reading.assets).filterMap Prod.fst) :
      Pool String).entries ∧
    "" ∉ (Pool.ofNames ((readings.map Reading.assets).filterMap Prod.snd) : Pool String).entries
  rw [ofNames_eq_eraseDups, ofNames_eq_eraseDups]
  dsimp only
  rw [List.mem_eraseDups, List.mem_eraseDups, List.filterMap_map, List.filterMap_map,
    List.mem_filterMap, List.mem_filterMap]
  constructor
  · rintro ⟨reading, -, hname⟩
    exact ne_empty_of_assets (Or.inl hname) rfl
  · rintro ⟨reading, -, hname⟩
    exact ne_empty_of_assets (Or.inr hname) rfl

end Script

/-! ## Where cues come from -/

namespace Session

variable {script : Script} {opening : Opening} {session : Session}

/-- Before it is started a playback queues nothing. -/
theorem Idle.run_quiet (h : Idle script opening session) (htaken : session.taken = [])
    (hcues : session.playback.cues = []) {signals : List Signal} (hstart : .start ∉ signals) :
    (session.run signals).taken ++ (session.run signals).playback.cues = [] := by
  induction signals generalizing session with
  | nil => rw [run, List.foldl_nil, htaken, hcues, List.append_nil]
  | cons signal signals ih =>
    rw [List.mem_cons, not_or] at hstart
    have hquiet := h.quiet_step hcues (Ne.symm hstart.1)
    exact ih (h.step (Ne.symm hstart.1)) (hquiet.2.trans htaken) hquiet.1 hstart.2

/-- Whatever was queued is a cue of the opening or of a command. -/
theorem cue_origin (hsound : script.Sound) (h : Idle script opening session)
    (htaken : session.taken = []) (hcues : session.playback.cues = []) {signals : List Signal}
    {cue : Cue} (hcue : cue ∈ (session.run signals).taken ++ (session.run signals).playback.cues) :
    cue ∈ opening.cues ∨ ∃ command ∈ script.commands, cue ∈ command.cues script := by
  by_cases hstart : .start ∈ signals
  · have hfollows := follows_of_start_mem hsound.admitted h hstart
    rw [hfollows.cues, List.mem_append, List.mem_flatMap] at hcue
    refine hcue.imp_right ?_
    rintro ⟨command, hdone, hmem⟩
    rw [Playback.done, hfollows.script_eq] at hdone
    exact ⟨command, List.mem_of_mem_take hdone, hmem⟩
  · rw [h.run_quiet htaken hcues hstart] at hcue
    exact absurd hcue List.not_mem_nil

end Session

/-- An image that a cue shows is the name of an entry of the pool. -/
theorem AssetRef.mem_entries_of_mem_cues {pool : Pool String} {asset : AssetRef}
    {shown : String → Cue} {cleared : Cue}
    (hinj : ∀ name other, shown name = shown other → name = other)
    (hcleared : ∀ name, cleared ≠ shown name) {name : String}
    (h : shown name ∈ asset.cues pool shown cleared) : name ∈ pool.entries := by
  cases asset with
  | keep => exact absurd h List.not_mem_nil
  | clear => exact absurd (List.mem_singleton.mp h).symm (hcleared name)
  | set index =>
    obtain ⟨other, hother, heq⟩ := List.mem_map.mp h
    obtain rfl := hinj _ _ heq
    obtain ⟨entry, hentry, rfl⟩ := Option.map_eq_some_iff.mp (Option.mem_toList.mp hother)
    exact List.mem_of_getElem? hentry

namespace Command

variable {script : Script} {command : Command} {name : String}

theorem mem_backgrounds_of_mem_cues (h : .showBackground name ∈ command.cues script) :
    name ∈ script.backgrounds.entries := by
  cases command with
  | background command =>
    rcases List.mem_append.mp h with himage | htrack
    · exact AssetRef.mem_entries_of_mem_cues (fun _ _ => Cue.showBackground.inj)
        (fun _ => Cue.noConfusion) himage
    · exact absurd htrack (AssetRef.not_mem_cues nofun nofun)
  | sprite change => exact absurd (List.mem_singleton.mp h) nofun
  | wait duration => exact absurd h List.not_mem_nil
  | speak command => exact absurd h List.not_mem_nil

theorem mem_music_of_mem_cues (h : .playMusic name ∈ command.cues script) :
    name ∈ script.music.entries := by
  cases command with
  | background command =>
    rcases List.mem_append.mp h with himage | htrack
    · exact absurd himage (AssetRef.not_mem_cues nofun nofun)
    · exact AssetRef.mem_entries_of_mem_cues (fun _ _ => Cue.playMusic.inj)
        (fun _ => Cue.noConfusion) htrack
  | sprite change => exact absurd (List.mem_singleton.mp h) nofun
  | wait duration => exact absurd h List.not_mem_nil
  | speak command => exact absurd h List.not_mem_nil

end Command

/-! ## Where portraits come from -/

section Portraits

theorem Actor.sheet_of_portraitView {actor : Actor} {cell : UInt32} {portrait : PortraitView}
    (h : actor.portraitView cell = some portrait) : portrait.sheet = actor.sheet := by
  obtain ⟨rect, -, rfl⟩ := Option.map_eq_some_iff.mp h
  rfl

variable {playback : Playback} {portrait : PortraitView}

/-- The portrait of a sprite is on the sheet of an actor of the cast. -/
theorem SpriteState.exists_actor_of_view {script : Script} {state : SpriteState} {name : String}
    (h : (state.view script name).portrait = some portrait) :
    ∃ index actor, script.actorAt? index = some actor ∧ portrait.sheet = actor.sheet := by
  obtain ⟨actor, hactor, hportrait⟩ := Option.bind_eq_some_iff.mp h
  obtain ⟨index, -, hindex⟩ := Option.bind_eq_some_iff.mp hactor
  obtain ⟨cell, -, hcell⟩ := Option.bind_eq_some_iff.mp hportrait
  exact ⟨index, actor, hindex, Actor.sheet_of_portraitView hcell⟩

/-- The portrait of a frame is on the sheet of an actor of the cast. -/
theorem Playback.exists_actor_of_frame (h : playback.frame.portrait = some portrait) :
    ∃ index actor, playback.script.actorAt? index = some actor ∧ portrait.sheet = actor.sheet := by
  obtain ⟨actor, hspeaker, hportrait⟩ := Option.bind_eq_some_iff.mp h
  obtain ⟨line, -, hline⟩ := Option.bind_eq_some_iff.mp hspeaker
  obtain ⟨index, -, hindex⟩ := Option.bind_eq_some_iff.mp hline
  obtain ⟨cell, -, hcell⟩ := Option.bind_eq_some_iff.mp hportrait
  exact ⟨index, actor, hindex, Actor.sheet_of_portraitView hcell⟩

/-- What a presenter is told of a sprite is its view. -/
theorem Playback.exists_view_of_present {view : SpriteView}
    (h : .updateSprite view ∈ playback.present.1) :
    ∃ index, playback.spriteView? index = some view := by
  obtain ⟨cue, -, hcue⟩ := List.mem_filterMap.mp h
  cases cue with
  | spriteChanged index =>
    obtain ⟨other, hother, heq⟩ := Option.map_eq_some_iff.mp hcue
    exact ⟨index, Notice.updateSprite.inj heq ▸ hother⟩
  | _ => exact absurd (Option.some.inj hcue) nofun

end Portraits

/-! ## Scenes -/

namespace Scene

variable {limits : Limits} {name : String} {value : Json} {scene : Scene}

/-- What a loaded scene shows, as it opens or by a command, is among its textures. -/
theorem background_mem_textures (hload : load limits name value = .ok scene) {image : String}
    (h : .showBackground image ∈ Opening.cues ⟨scene.background, scene.music⟩ ∨
      ∃ command ∈ scene.story.commands, .showBackground image ∈ command.cues scene.story) :
    image ∈ scene.requiredAssets.textures := by
  obtain ⟨-, -, -, hstory⟩ := load_eq_ok_iff.mp hload
  rw [mem_textures, textures, List.mem_append, List.mem_append]
  rcases h with hopening | ⟨command, -, hcommand⟩
  · have hbackground : scene.background = some image := by
      simpa [Opening.cues] using hopening
    refine ⟨Or.inr (Option.mem_toList.mpr hbackground), ?_⟩
    rintro rfl
    exact (named_of_load hload).background hbackground
  · have hentry := Command.mem_backgrounds_of_mem_cues hcommand
    exact ⟨Or.inl (Or.inr hentry), fun hempty =>
      (Script.named_of_load hstory).1 (hempty ▸ hentry)⟩

/-- What a loaded scene plays, as it opens or by a command, is among its music. -/
theorem track_mem_music (hload : load limits name value = .ok scene) {track : String}
    (h : .playMusic track ∈ Opening.cues ⟨scene.background, scene.music⟩ ∨
      ∃ command ∈ scene.story.commands, .playMusic track ∈ command.cues scene.story) :
    track ∈ scene.requiredAssets.music := by
  obtain ⟨-, -, -, hstory⟩ := load_eq_ok_iff.mp hload
  rw [mem_music, tracks, List.mem_append]
  rcases h with hopening | ⟨command, -, hcommand⟩
  · have hmusic : scene.music = some track := by
      simpa [Opening.cues] using hopening
    refine ⟨Or.inr (Option.mem_toList.mpr hmusic), ?_⟩
    rintro rfl
    exact (named_of_load hload).music hmusic
  · have hentry := Command.mem_music_of_mem_cues hcommand
    exact ⟨Or.inl hentry, fun hempty => (Script.named_of_load hstory).2 (hempty ▸ hentry)⟩

end Scene

/-- A playback of a loaded scene asks for nothing that is not among the scene's assets. At any point
of any session this holds of each image and track that was queued since the start, taken by the host
or not, of the portrait of the frame, and of the portraits of sprites, in the frame or passed on to
a presenter. The assets are listed once each, and none is empty. -/
theorem Session.run_preloaded {limits : Limits} {name : String} {value : Json} {scene : Scene}
    (hload : Scene.load limits name value = .ok scene) {settings : Settings} {playback : Playback}
    (hnew : Playback.ofScene scene settings = .ok playback) (signals : List Signal) :
    let assets := scene.requiredAssets
    let session := Session.run ⟨playback, []⟩ signals
    let queued := session.taken ++ session.playback.cues
    (∀ image, .showBackground image ∈ queued → image ∈ assets.textures) ∧
      (∀ track, .playMusic track ∈ queued → track ∈ assets.music) ∧
      (∀ portrait ∈ session.playback.frame.portrait, portrait.sheet ∈ assets.textures) ∧
      (∀ sprite ∈ session.playback.frame.sprites, ∀ portrait ∈ sprite.portrait,
        portrait.sheet ∈ assets.textures) ∧
      (∀ sprite, .updateSprite sprite ∈ session.playback.present.1 →
        ∀ portrait ∈ sprite.portrait, portrait.sheet ∈ assets.textures) ∧
      (assets.textures.Nodup ∧ "" ∉ assets.textures) ∧ assets.music.Nodup ∧ "" ∉ assets.music := by
  obtain ⟨-, -, -, hstory⟩ := Scene.load_eq_ok_iff.mp hload
  have hreachable : scene.story.Reachable := .load hstory
  have hsound : scene.story.Sound := hreachable.sound
  obtain ⟨hinterval, hfresh⟩ := Playback.coherent_of_new hreachable.untouched hnew
  have hcues : playback.cues = [] := by
    simp only [Playback.ofScene, Playback.new, bind_eq_ok, pure_eq_ok] at hnew
    obtain ⟨-, -, rfl⟩ := hnew
    rfl
  have horigin : ∀ cue ∈ (Session.run ⟨playback, []⟩ signals).taken ++
      (Session.run ⟨playback, []⟩ signals).playback.cues, _ :=
    fun cue hcue => cue_origin hsound (Playback.idle_of_new hnew) rfl hcues hcue
  generalize hsession : Session.run ⟨playback, []⟩ signals = session at horigin
  have hscript : session.playback.script = scene.story := by
    rw [← hsession]
    exact (coherent_run hsound hreachable.untouched hinterval hfresh signals).script_eq
  have hsheet {portrait : PortraitView} (h : ∃ index actor,
      session.playback.script.actorAt? index = some actor ∧ portrait.sheet = actor.sheet) :
      portrait.sheet ∈ scene.requiredAssets.textures := by
    obtain ⟨index, actor, hactor, heq⟩ := h
    rw [hscript] at hactor
    exact heq ▸ Scene.sheet_mem_textures hsound hactor
  refine ⟨?_, ?_, ?_, ?_, ?_, ?_, ?_⟩
  · exact fun image hqueued => Scene.background_mem_textures hload (horigin _ hqueued)
  · exact fun track hqueued => Scene.track_mem_music hload (horigin _ hqueued)
  · intro portrait hportrait
    exact hsheet (Playback.exists_actor_of_frame hportrait)
  · intro sprite hsprite portrait hportrait
    obtain ⟨-, index, state, id, -, -, rfl⟩ := Playback.mem_sprites_frame.mp hsprite
    exact hsheet (SpriteState.exists_actor_of_view hportrait)
  · intro sprite hsprite portrait hportrait
    obtain ⟨index, hview⟩ := Playback.exists_view_of_present hsprite
    obtain ⟨state, id, -, -, rfl⟩ := Playback.spriteView?_eq_some_iff.mp hview
    exact hsheet (SpriteState.exists_actor_of_view hportrait)
  · exact ⟨scene.listed_textures.nodup, scene.listed_textures.named⟩
  · exact ⟨scene.listed_music.nodup, scene.listed_music.named⟩

/-- The scene opens with a song, shows the hall, and draws a sprite from a sheet. -/
theorem Session.run_preloaded_dusk :
    ∃ scene playback, Scene.load .standard "dusk" Scene.dusk = .ok scene ∧
      Playback.ofScene scene .standard = .ok playback ∧
      let session := Session.run ⟨playback, []⟩ [.start, .tick 1]
      .showBackground "hall" ∈ session.taken ++ session.playback.cues ∧
        "hall" ∈ scene.requiredAssets.textures ∧
        (∃ sprite ∈ session.playback.frame.sprites, sprite.portrait.isSome ∧
          ∀ portrait ∈ sprite.portrait, portrait.sheet ∈ scene.requiredAssets.textures) ∧
        scene.requiredAssets.textures.Nodup := by
  obtain ⟨scene, hload⟩ :=
    exists_eq_ok (by decide +kernel : (Scene.load .standard "dusk" Scene.dusk).toOption.isSome)
  have hnew : Playback.ofScene scene .standard = .ok _ := rfl
  obtain ⟨himages, -, -, hsprites, -, hlisted, -⟩ := run_preloaded hload hnew [.start, .tick 1]
  have hqueued : (Scene.load .standard "dusk" Scene.dusk).toOption.all (fun scene =>
      (Playback.ofScene scene .standard).toOption.all fun playback =>
        let session := Session.run ⟨playback, []⟩ [.start, .tick 1]
        .showBackground "hall" ∈ session.taken ++ session.playback.cues ∧
          ∃ sprite ∈ session.playback.frame.sprites, sprite.portrait.isSome) := by
    decide +kernel
  rw [hload] at hqueued
  obtain ⟨hshown, sprite, hsprite, hportrait⟩ := of_decide_eq_true hqueued
  exact ⟨scene, _, hload, hnew, hshown, himages _ hshown,
    ⟨sprite, hsprite, hportrait, hsprites sprite hsprite⟩, hlisted.1⟩

end VisualNovel
