import VisualNovel.Playback.Cue
import VisualNovel.Scene
import VisualNovel.Settings
import VisualNovel.Stage

/-!
# Playback

A playback runs a script. The host calls `Playback.tick` once a frame with the time since the last
one, and `Playback.advance` when the player asks for the next line. A tick first carries out
commands up to the next that takes time, a wait or a line; then the time goes to that one. What the
host has to show is queued as cues, taken by `Playback.drain` or `Playback.present`.
-/

namespace VisualNovel

/-- What a playback is doing. -/
inductive Phase where
  | notStarted
  /-- Carrying out commands, or waiting for a time to pass. -/
  | executing
  /-- A line is being revealed. -/
  | revealing
  /-- A line is shown until the player asks for the next. -/
  | awaitingInput
  | finished
  deriving DecidableEq, Repr

/-- Whether there is more to come. -/
inductive TickStatus where
  | continuing
  | finished
  deriving DecidableEq, Repr

/-- What an advance signal has done. -/
inductive AdvanceOutcome where
  | ignored
  /-- The line being revealed was shown as a whole. -/
  | completed
  /-- The line was left. -/
  | advanced
  deriving DecidableEq, Repr

/-- A wait that is running. -/
structure WaitTimer where
  duration : Single
  elapsed : Single
  deriving DecidableEq, Repr

/-- A note that a command referred to nothing and was passed over. -/
structure Advisory where
  command : Nat
  kind : ReferenceKind
  index : Nat
  deriving DecidableEq, Repr

/-- The wording of a note. -/
def Advisory.message (advisory : Advisory) : String :=
  advisory.kind.word ++ " #" ++ toString advisory.index ++ " is not in the pool"

/-- What is shown and played before the first command. -/
structure Opening where
  background : Option String
  music : Option String
  deriving DecidableEq, Repr

/-- A script being played. -/
structure Playback where
  script : Script
  settings : Settings
  opening : Opening
  phase : Phase
  /-- The index of the command that is next or going on. -/
  place : Nat
  wait : Option WaitTimer
  /-- The time since the last character was revealed. -/
  revealTimer : Single
  stage : Stage
  /-- Cues that the host has not taken yet. -/
  cues : List Cue
  advisories : List Advisory

namespace Playback

/-! ## Setting up -/

/-- A playback that has not started. -/
def new (script : Script) (settings : Settings) (opening : Opening) : Except Error Playback := do
  settings.validate
  return {
    script, settings, opening
    phase := .notStarted
    place := 0
    wait := none
    revealTimer := 0
    stage := .forScript script
    cues := []
    advisories := [] }

/-- A playback of a script alone. -/
def ofScript (script : Script) (settings : Settings) : Except Error Playback :=
  new script settings ⟨none, none⟩

/-- A playback of a scene, which opens with its background and music. -/
def ofScene (scene : Scene) (settings : Settings) : Except Error Playback :=
  new scene.story settings ⟨scene.background, scene.music⟩

/-! ## Commands that take no time -/

/-- Shows a background. -/
def showBackground (playback : Playback) (image : String) : Playback :=
  { playback with
    stage := { playback.stage with background := some image }
    cues := playback.cues ++ [.showBackground image] }

/-- Takes the background away. -/
def clearBackground (playback : Playback) : Playback :=
  { playback with
    stage := { playback.stage with background := none }
    cues := playback.cues ++ [.clearBackground] }

/-- Plays a music track. -/
def playMusic (playback : Playback) (track : String) : Playback :=
  { playback with
    stage := { playback.stage with music := some track }
    cues := playback.cues ++ [.playMusic track] }

/-- Stops the music. -/
def stopMusic (playback : Playback) : Playback :=
  { playback with
    stage := { playback.stage with music := none }
    cues := playback.cues ++ [.stopMusic] }

/-- Notes that the command at hand refers to nothing. -/
def advise (playback : Playback) (kind : ReferenceKind) (index : Nat) : Playback :=
  { playback with advisories := playback.advisories ++ [⟨playback.place, kind, index⟩] }

/-- What a command says about the background. -/
def applyImage (playback : Playback) : AssetRef → Playback
  | .keep => playback
  | .clear => playback.clearBackground
  | .set index =>
    match playback.script.backgrounds.nameAt? index with
    | some image => playback.showBackground image
    | none => playback.advise .background index

/-- What a command says about the music. -/
def applyMusic (playback : Playback) : AssetRef → Playback
  | .keep => playback
  | .clear => playback.stopMusic
  | .set index =>
    match playback.script.music.nameAt? index with
    | some track => playback.playMusic track
    | none => playback.advise .music index

/-- Carries out a background command. -/
def applyBackground (playback : Playback) (command : BackgroundCommand) : Playback :=
  (playback.applyImage command.image).applyMusic command.music

/-- Carries out a sprite command. -/
def applySprite (playback : Playback) (command : SpriteCommand) : Playback :=
  if command.sprite < playback.stage.sprites.length then
    { playback with
      stage := { playback.stage with
        sprites := playback.stage.sprites.modify command.sprite (·.apply command) }
      cues := playback.cues ++ [.spriteChanged command.sprite] }
  else playback.advise .sprite command.sprite

/-! ## Commands that take time -/

/-- Begins a line. -/
def speak (playback : Playback) (command : SpeakCommand) : Playback :=
  { playback with
    stage := playback.stage.speak command
    revealTimer := 0
    phase := .revealing }

/-- The last command is over. -/
def finish (playback : Playback) : Playback := { playback with phase := .finished }

/-- The command at hand is over. -/
def moveOn (playback : Playback) : Playback := { playback with place := playback.place + 1 }

/-- Carries out commands, which are those from the current place on, up to the first that takes
time. -/
def dispatch (playback : Playback) : List Command → Playback
  | [] => playback.finish
  | .background command :: rest => dispatch (playback.applyBackground command).moveOn rest
  | .sprite command :: rest => dispatch (playback.applySprite command).moveOn rest
  | .wait duration :: _ => { playback with wait := some ⟨duration, 0⟩ }
  | .speak command :: _ => playback.speak command

/-- Carries out commands unless one that takes time is going on. -/
def runUntilBlocked (playback : Playback) : Playback :=
  if playback.phase = .executing ∧ playback.wait = none then
    playback.dispatch (playback.script.commands.drop playback.place)
  else playback

/-- Lets a time pass for the line being revealed. It is good for one character at most, and what is
left of it is dropped. -/
def reveal (playback : Playback) (delta : Single) : Playback :=
  match playback.stage.line with
  | none => { playback with phase := .awaitingInput }
  | some line =>
    let timer := if line.isComplete then playback.revealTimer else playback.revealTimer + delta
    let reached := !line.isComplete && playback.settings.charInterval ≤ timer
    let line := if reached then line.revealOne else line
    { playback with
      stage := { playback.stage with line := some line }
      revealTimer := if reached then 0 else timer
      phase := if line.isComplete then .awaitingInput else playback.phase }

/-- Lets a time pass for the wait that is running; once it is over, goes on with the next
commands. -/
def waitFor (playback : Playback) (delta : Single) : Playback :=
  match playback.wait with
  | none => playback
  | some timer =>
    let elapsed := timer.elapsed + delta
    if timer.duration ≤ elapsed then { playback with wait := none }.moveOn.runUntilBlocked
    else { playback with wait := some { timer with elapsed } }

/-! ## Signals -/

/-- Starts from the first command, whatever was going on. -/
def start (playback : Playback) : Playback :=
  let fresh := { playback with
    stage := .forScript playback.script
    cues := []
    advisories := []
    place := 0
    wait := none
    revealTimer := 0
    phase := .executing }
  let shown := playback.opening.background.elim fresh fresh.showBackground
  playback.opening.music.elim shown shown.playMusic

/-- Whether there is more to come. -/
def status (playback : Playback) : TickStatus :=
  if playback.phase = .finished then .finished else .continuing

/-- Gives a time to whatever takes time now. -/
def spend (playback : Playback) (delta : Single) : Playback :=
  match playback.phase with
  | .revealing => playback.reveal delta
  | .executing => playback.waitFor delta
  | _ => playback

/-- The time that counts: nothing if it is negative or not finite. -/
def usableDelta (delta : Single) : Single :=
  if delta.isFinite ∧ 0 < delta then delta else 0

/-- Plays one frame that took a time. -/
def tick (playback : Playback) (delta : Single) : TickStatus × Playback :=
  match playback.phase with
  | .notStarted => (.continuing, playback)
  | .finished => (.finished, playback)
  | _ =>
    let played := playback.runUntilBlocked.spend (usableDelta delta)
    (played.status, played)

/-- Leaves the line that is shown. -/
def leaveLine (playback : Playback) : Playback :=
  let left := { playback with stage := { playback.stage with line := none } }.moveOn
  if left.script.commands.length ≤ left.place then left.finish
  else { left with phase := .executing }

/-- Shows the whole line that is being revealed. -/
def completeLine (playback : Playback) : Playback :=
  { playback with
    stage := { playback.stage with line := playback.stage.line.map Line.revealAll }
    revealTimer := 0
    phase := .awaitingInput }

/-- The player asks for the next line. -/
def advance (playback : Playback) : AdvanceOutcome × Playback :=
  match playback.phase with
  | .awaitingInput => (.advanced, playback.leaveLine)
  | .revealing =>
    match playback.settings.revealAdvance with
    | .ignore => (.ignored, playback)
    | .complete => (.completed, playback.completeLine)
  | _ => (.ignored, playback)

/-- Whether a wait is running. -/
def isWaiting (playback : Playback) : Bool := playback.wait.isSome

/-- Takes the queued cues. -/
def drain (playback : Playback) : List Cue × Playback :=
  (playback.cues, { playback with cues := [] })

end Playback

end VisualNovel
