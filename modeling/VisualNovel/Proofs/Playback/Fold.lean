import VisualNovel.Playback.Basic
import VisualNovel.Proofs.Script.Sound

/-!
# What commands add up to

A command changes the scenery, which is background, music and sprites, or the voice, which is who
speaks with which portrait, and it gives cues. The effects here are those of single commands on
values, with no playback in sight; what a list of commands comes to is the left fold of its effects.

The commands of a playback that take no time have just this effect (`applyBackground_eq`,
`applySprite_eq`), provided that what they refer to is there.
-/

namespace VisualNovel

/-! ## Effects -/

/-- What stays on stage until a command changes it. -/
structure Scenery where
  background : Option String
  music : Option String
  sprites : List SpriteState
  deriving DecidableEq, Repr

/-- Who spoke last and with which portrait. -/
structure Voice where
  speaker : Option Nat
  portrait : Option UInt32
  deriving DecidableEq, Repr

/-- The scenery of a stage. -/
def Stage.scenery (stage : Stage) : Scenery := ⟨stage.background, stage.music, stage.sprites⟩

/-- The voice of a stage. -/
def Stage.voice (stage : Stage) : Voice := ⟨stage.speaker, stage.portrait⟩

/-- A stage with other scenery. -/
def Stage.withScenery (stage : Stage) (scenery : Scenery) : Stage :=
  { stage with
    background := scenery.background
    music := scenery.music
    sprites := scenery.sprites }

namespace AssetRef

/-- The image or track after a change. -/
def after (pool : Pool String) (current : Option String) : AssetRef → Option String
  | keep => current
  | clear => none
  | set index => pool.nameAt? index

/-- The cues of a change: one for what is shown or played, one for taking it away. -/
def cues (pool : Pool String) (shown : String → Cue) (cleared : Cue) : AssetRef → List Cue
  | keep => []
  | clear => [cleared]
  | set index => (pool.nameAt? index).toList.map shown

end AssetRef

namespace Scenery

/-- The scenery before the first command. -/
def opening (script : Script) (opening : Opening) : Scenery :=
  ⟨opening.background, opening.music, script.sprites.entries.map Sprite.state⟩

/-- The scenery after a command; waits and lines leave it as it is. -/
def after (script : Script) (scenery : Scenery) : Command → Scenery
  | .background command =>
    { scenery with
      background := command.image.after script.backgrounds scenery.background
      music := command.music.after script.music scenery.music }
  | .sprite command =>
    { scenery with sprites := scenery.sprites.modify command.sprite (·.apply command) }
  | .wait _ => scenery
  | .speak _ => scenery

end Scenery

namespace Voice

/-- Nobody has spoken. -/
def silent : Voice := ⟨none, none⟩

/-- The voice after a command; only lines change it. -/
def after (voice : Voice) : Command → Voice
  | .speak command =>
    ⟨command.actor.or voice.speaker,
      switchPortrait voice.speaker voice.portrait command.actor command.portrait⟩
  | _ => voice

end Voice

/-- The cues of a command; waits and lines give none. -/
def Command.cues (script : Script) : Command → List Cue
  | background command =>
    command.image.cues script.backgrounds .showBackground .clearBackground
      ++ command.music.cues script.music .playMusic .stopMusic
  | sprite command => [.spriteChanged command.sprite]
  | wait _ => []
  | speak _ => []

/-- The cues of what is shown and played before the first command. -/
def Opening.cues (opening : Opening) : List Cue :=
  opening.background.toList.map .showBackground ++ opening.music.toList.map .playMusic

/-- The commands from a place on begin with the one at the place, and go on with those after it. -/
theorem Command.ahead {commands rest : List Command} {place : Nat} {command : Command}
    (h : commands.drop place = command :: rest) :
    commands[place]? = some command ∧ commands.drop (place + 1) = rest := by
  constructor
  · rw [← Nat.add_zero place, ← List.getElem?_drop, h]
    rfl
  · rw [← List.tail_drop, h]
    rfl

/-- Commands change sprites and never their number. -/
theorem Scenery.length_sprites_foldl (script : Script) (commands : List Command)
    (scenery : Scenery) :
    (commands.foldl (after script) scenery).sprites.length = scenery.sprites.length := by
  induction commands generalizing scenery with
  | nil => rfl
  | cons command commands ih =>
    rw [List.foldl_cons, ih]
    cases command with
    | sprite command => exact List.length_modify _ _ _
    | _ => rfl

/-! ## Commands that take no time -/

namespace Playback

variable {playback : Playback}

/-- Other scenery is brought on, and the host is told. -/
def bringOn (playback : Playback) (scenery : Scenery) (cues : List Cue) : Playback :=
  { playback with
    stage := playback.stage.withScenery scenery
    cues := playback.cues ++ cues }

theorem bringOn_nil (playback : Playback) :
    playback.bringOn playback.stage.scenery [] = playback := by
  rw [bringOn, List.append_nil]
  rfl

theorem bringOn_bringOn (first second : Scenery) (cues more : List Cue) :
    (playback.bringOn first cues).bringOn second more = playback.bringOn second (cues ++ more) := by
  rw [bringOn, bringOn, bringOn, List.append_assoc]
  rfl

theorem applyImage_eq {asset : AssetRef}
    (h : Script.AssetResolves playback.script.backgrounds asset) :
    playback.applyImage asset =
      playback.bringOn
        { playback.stage.scenery with
          background := asset.after playback.script.backgrounds playback.stage.background }
        (asset.cues playback.script.backgrounds .showBackground .clearBackground) := by
  cases asset with
  | keep => exact playback.bringOn_nil.symm
  | clear => rfl
  | set index =>
    obtain ⟨image, himage⟩ := Pool.lt_size_iff.mp (h index rfl)
    simp only [applyImage, AssetRef.after, AssetRef.cues, himage]
    rfl

theorem applyMusic_eq {asset : AssetRef}
    (h : Script.AssetResolves playback.script.music asset) :
    playback.applyMusic asset =
      playback.bringOn
        { playback.stage.scenery with
          music := asset.after playback.script.music playback.stage.music }
        (asset.cues playback.script.music .playMusic .stopMusic) := by
  cases asset with
  | keep => exact playback.bringOn_nil.symm
  | clear => rfl
  | set index =>
    obtain ⟨track, htrack⟩ := Pool.lt_size_iff.mp (h index rfl)
    simp only [applyMusic, AssetRef.after, AssetRef.cues, htrack]
    rfl

/-- Whatever an asset refers to, only stage, cues and notes change. -/
theorem exists_applyImage_eq (playback : Playback) (asset : AssetRef) :
    ∃ stage cues advisories,
      playback.applyImage asset = { playback with stage, cues, advisories } := by
  cases asset with
  | keep => exact ⟨_, _, _, rfl⟩
  | clear => exact ⟨_, _, _, rfl⟩
  | set index =>
    rw [applyImage]
    split <;> exact ⟨_, _, _, rfl⟩

theorem exists_applyMusic_eq (playback : Playback) (asset : AssetRef) :
    ∃ stage cues advisories,
      playback.applyMusic asset = { playback with stage, cues, advisories } := by
  cases asset with
  | keep => exact ⟨_, _, _, rfl⟩
  | clear => exact ⟨_, _, _, rfl⟩
  | set index =>
    rw [applyMusic]
    split <;> exact ⟨_, _, _, rfl⟩

theorem exists_applyBackground_eq (playback : Playback) (command : BackgroundCommand) :
    ∃ stage cues advisories,
      playback.applyBackground command = { playback with stage, cues, advisories } := by
  obtain ⟨_, _, _, himage⟩ := playback.exists_applyImage_eq command.image
  rw [applyBackground, himage]
  exact exists_applyMusic_eq _ command.music

theorem exists_applySprite_eq (playback : Playback) (command : SpriteCommand) :
    ∃ stage cues advisories,
      playback.applySprite command = { playback with stage, cues, advisories } := by
  rw [applySprite]
  split <;> exact ⟨_, _, _, rfl⟩

/-- A background command has its effect on the scenery, and its cues. -/
theorem applyBackground_eq {command : BackgroundCommand}
    (h : playback.script.Admits (.background command)) :
    playback.applyBackground command =
      playback.bringOn (playback.stage.scenery.after playback.script (.background command))
        ((Command.background command).cues playback.script) := by
  rw [applyBackground, applyImage_eq h.1, applyMusic_eq, bringOn_bringOn]
  · rfl
  · exact h.2

/-- A sprite command has its effect on the scenery, and its cue. -/
theorem applySprite_eq {command : SpriteCommand}
    (h : command.sprite < playback.stage.sprites.length) :
    playback.applySprite command =
      playback.bringOn (playback.stage.scenery.after playback.script (.sprite command))
        ((Command.sprite command).cues playback.script) := by
  rw [applySprite, if_pos h]
  rfl

/-- Leaving a line leads to the next command, or past the last one. -/
theorem leaveLine_eq (playback : Playback) :
    playback.leaveLine = { playback with
      stage := { playback.stage with line := none }
      place := playback.place + 1
      phase := if playback.script.commands.length ≤ playback.place + 1 then .finished
        else .executing } := by
  by_cases hlast : playback.script.commands.length ≤ playback.place + 1
  · rw [if_pos hlast]
    exact if_pos hlast
  · rw [if_neg hlast]
    exact if_neg hlast

/-- Where no commands are carried out, none is carried out first. -/
theorem runUntilBlocked_of_not_executing (hphase : playback.phase ≠ .executing) :
    playback.runUntilBlocked = playback :=
  if_neg fun hready => hphase hready.1

/-- A tick first carries out commands, and what takes time is given its time after that. -/
theorem tick_eq_spend (playback : Playback) (delta : Single) :
    (playback.tick delta).2 = playback.runUntilBlocked.spend (usableDelta delta) := by
  rw [tick]
  split
  · next hphase =>
    have hidle : playback.phase ≠ .executing := ne_of_eq_of_ne hphase (by decide)
    rw [runUntilBlocked_of_not_executing hidle, spend, hphase]
  · next hphase =>
    have hidle : playback.phase ≠ .executing := ne_of_eq_of_ne hphase (by decide)
    rw [runUntilBlocked_of_not_executing hidle, spend, hphase]
  · rfl

end Playback

end VisualNovel
