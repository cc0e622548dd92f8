import VisualNovel.Proofs.Playback.Preload
import VisualNovel.Proofs.Script.Limits

/-!
# How long the names are that a playback queues

The names in the pools of a loaded script were measured when they were collected, and commands show
and play nothing else (`Command.Within.cues`). What a scene opens with is read beside its script and
is not measured. So every name that a playback of a loaded scene ever queues is within the limit on
ids exactly if the two names of the opening are (`Session.run_names_within`); a scene with a longer
one loads all the same.
-/

namespace VisualNovel

open Outcome

/-- The images and tracks that cues show and play have names of at most so many bytes. -/
def Cue.NamesWithin (bytes : Nat) (cues : List Cue) : Prop :=
  (∀ image, .showBackground image ∈ cues → image.utf8ByteSize ≤ bytes) ∧
    ∀ track, .playMusic track ∈ cues → track.utf8ByteSize ≤ bytes

variable {limits : Limits} {name : String} {value : Json}

/-- What the commands of a loaded script show and play was measured when it was loaded. -/
theorem Script.namesWithin_of_load {script : Script} (h : Script.load limits value = .ok script)
    (command : Command) : Cue.NamesWithin limits.idBytes (command.cues script) := by
  have hsound := Script.sound_of_load h
  have hwithin := Script.within_of_load h
  constructor
  · intro image himage
    apply hwithin.backgrounds_le
    rw [hsound.backgrounds.names_eq, List.mem_map]
    exact ⟨image, Command.mem_backgrounds_of_mem_cues himage, rfl⟩
  · intro track htrack
    apply hwithin.music_le
    rw [hsound.music.names_eq, List.mem_map]
    exact ⟨track, Command.mem_music_of_mem_cues htrack, rfl⟩

namespace Opening

variable {opening : Opening}

/-- An opening shows the image it has. -/
theorem showBackground_mem_cues_iff {image : String} :
    .showBackground image ∈ opening.cues ↔ opening.background = some image := by
  simp [cues]

/-- An opening plays the track it has. -/
theorem playMusic_mem_cues_iff {track : String} :
    .playMusic track ∈ opening.cues ↔ opening.music = some track := by
  simp [cues]

end Opening

/-- The names that a scene opens with have at most so many bytes. -/
def Scene.OpensWithin (bytes : Nat) (scene : Scene) : Prop :=
  (∀ image, scene.background = some image → image.utf8ByteSize ≤ bytes) ∧
    ∀ track, scene.music = some track → track.utf8ByteSize ≤ bytes

/-- Whatever a playback of a script has queued is a cue of the opening or of a command. -/
theorem Session.cue_origin_of_new {script : Script} (hreachable : script.Reachable)
    {settings : Settings} {opening : Opening} {playback : Playback}
    (hnew : Playback.new script settings opening = .ok playback) (signals : List Signal) {cue : Cue}
    (hcue : cue ∈ (Session.run ⟨playback, []⟩ signals).taken ++
      (Session.run ⟨playback, []⟩ signals).playback.cues) :
    cue ∈ opening.cues ∨ ∃ command ∈ script.commands, cue ∈ command.cues script := by
  have hidle := Playback.idle_of_new hnew
  obtain ⟨-, hfresh⟩ := Playback.coherent_of_new hreachable.untouched hnew
  obtain ⟨-, -, hcues, -⟩ := (Playback.occupied_notStarted hidle.phase_eq).mp hfresh.occupied
  exact cue_origin hreachable.sound hidle rfl hcues hcue

/-- A start queues what the opening shows and plays. -/
theorem Session.mem_queued_start {script : Script} (hreachable : script.Reachable)
    {settings : Settings} {opening : Opening} {playback : Playback}
    (hnew : Playback.new script settings opening = .ok playback) {cue : Cue}
    (hcue : cue ∈ opening.cues) : cue ∈ (Session.run ⟨playback, []⟩ [.start]).taken ++
      (Session.run ⟨playback, []⟩ [.start]).playback.cues := by
  have hfollows := follows_of_start_mem hreachable.sound.admitted (Playback.idle_of_new hnew)
    (List.mem_singleton_self Signal.start)
  rw [hfollows.cues]
  exact List.mem_append_left _ hcue

/-- Of all the names that a playback of a loaded scene queues, at any point of any session, each is
within the limit on ids under which the scene was loaded, or is one that the scene opens with. These
two names were not measured: all that is ever queued is within the limit exactly if they are. -/
theorem Session.run_names_within {scene : Scene} (hload : Scene.load limits name value = .ok scene)
    {settings : Settings} {playback : Playback}
    (hnew : Playback.ofScene scene settings = .ok playback) :
    (∀ signals,
      let session := Session.run ⟨playback, []⟩ signals
      let queued := session.taken ++ session.playback.cues
      (∀ image, .showBackground image ∈ queued →
        image.utf8ByteSize ≤ limits.idBytes ∨ scene.background = some image) ∧
      ∀ track, .playMusic track ∈ queued →
        track.utf8ByteSize ≤ limits.idBytes ∨ scene.music = some track) ∧
    ((∀ signals,
      let session := Session.run ⟨playback, []⟩ signals
      Cue.NamesWithin limits.idBytes (session.taken ++ session.playback.cues)) ↔
        scene.OpensWithin limits.idBytes) := by
  obtain ⟨-, -, -, hstory⟩ := Scene.load_eq_ok_iff.mp hload
  have hreachable : scene.story.Reachable := .load hstory
  have hnames (signals : List Signal) :
      let session := Session.run ⟨playback, []⟩ signals
      let queued := session.taken ++ session.playback.cues
      (∀ image, .showBackground image ∈ queued →
        image.utf8ByteSize ≤ limits.idBytes ∨ scene.background = some image) ∧
      ∀ track, .playMusic track ∈ queued →
        track.utf8ByteSize ≤ limits.idBytes ∨ scene.music = some track := by
    constructor
    · intro image himage
      rcases cue_origin_of_new hreachable hnew signals himage with hopening | ⟨command, -, hcue⟩
      · exact Or.inr (Opening.showBackground_mem_cues_iff.mp hopening)
      · exact Or.inl ((Script.namesWithin_of_load hstory command).1 image hcue)
    · intro track htrack
      rcases cue_origin_of_new hreachable hnew signals htrack with hopening | ⟨command, -, hcue⟩
      · exact Or.inr (Opening.playMusic_mem_cues_iff.mp hopening)
      · exact Or.inl ((Script.namesWithin_of_load hstory command).2 track hcue)
  refine ⟨hnames, ?_⟩
  constructor
  · intro hall
    obtain ⟨himages, htracks⟩ := hall [.start]
    refine ⟨fun image himage => himages image ?_, fun track htrack => htracks track ?_⟩
    · exact mem_queued_start hreachable hnew (Opening.showBackground_mem_cues_iff.mpr himage)
    · exact mem_queued_start hreachable hnew (Opening.playMusic_mem_cues_iff.mpr htrack)
  · intro hopens signals
    obtain ⟨himages, htracks⟩ := hnames signals
    refine ⟨fun image himage => ?_, fun track htrack => ?_⟩
    · exact (himages image himage).elim id (hopens.1 image)
    · exact (htracks track htrack).elim id (hopens.2 track)

/-- A scene that opens in the hallway. -/
def Scene.arrival : Json :=
  .object [("actors", .object []), ("background", .string "hallway"), ("commands", .array []),
    ("type", .string "story")]

/-- The name of the hallway has seven bytes, so all that the scene queues is within eight. -/
theorem Session.run_names_within_arrival :
    ∃ scene playback, Scene.load (.uniform 8) "arrival" Scene.arrival = .ok scene ∧
      Playback.ofScene scene .standard = .ok playback ∧ ∀ signals,
        let session := Session.run ⟨playback, []⟩ signals
        Cue.NamesWithin 8 (session.taken ++ session.playback.cues) := by
  obtain ⟨scene, hload⟩ := exists_eq_ok
    (by decide +kernel : (Scene.load (.uniform 8) "arrival" Scene.arrival).toOption.isSome)
  have hopens : (Scene.load (.uniform 8) "arrival" Scene.arrival).toOption.map
      (fun scene => (scene.background, scene.music)) = some (some "hallway", none) := by
    decide +kernel
  rw [hload] at hopens
  obtain ⟨hbackground, hmusic⟩ := by simpa only [Prod.mk.injEq] using Option.some.inj hopens
  have hnew : Playback.ofScene scene .standard = .ok _ := rfl
  have hwithin : scene.OpensWithin 8 := by
    rw [Scene.OpensWithin, hbackground, hmusic]
    refine ⟨?_, nofun⟩
    rintro _ ⟨⟩
    decide +kernel
  exact ⟨scene, _, hload, hnew, (run_names_within hload hnew).2.mpr hwithin⟩

/-- Under a limit of four bytes the scene loads all the same, and a playback queues its name. -/
theorem Session.names_over_limit :
    ∃ scene playback, Scene.load (.uniform 4) "arrival" Scene.arrival = .ok scene ∧
      Playback.ofScene scene .standard = .ok playback ∧
      let session := Session.run ⟨playback, []⟩ [.start]
      ¬Cue.NamesWithin 4 (session.taken ++ session.playback.cues) := by
  obtain ⟨scene, hload⟩ := exists_eq_ok
    (by decide +kernel : (Scene.load (.uniform 4) "arrival" Scene.arrival).toOption.isSome)
  have hqueued : (Scene.load (.uniform 4) "arrival" Scene.arrival).toOption.all (fun scene =>
      (Playback.ofScene scene .standard).toOption.all fun playback =>
        let session := Session.run ⟨playback, []⟩ [.start]
        .showBackground "hallway" ∈ session.taken ++ session.playback.cues) := by
    decide +kernel
  rw [hload] at hqueued
  have hlong : ¬"hallway".utf8ByteSize ≤ 4 := by decide +kernel
  exact ⟨scene, _, hload, rfl, fun hwithin => hlong (hwithin.1 _ (of_decide_eq_true hqueued))⟩

end VisualNovel
