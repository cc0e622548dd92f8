import VisualNovel.Proofs.Playback.Coherent
import VisualNovel.Proofs.Script.Reopen

/-!
# Lines that are read

Time takes a playback up to a line and never past it (`Follows.noLineBetween_tick`); only the player
leaves a line, and only one that is shown as a whole (`Playback.Coherent.advance_cases`). So the
texts that were shown when the player left a line are those of the lines before the place, each of
them once and in order (`Session.run_reads_lines`).

The induction is on the signals that are still to come. What carries it is that the lines before the
place grow by just what a signal has read (`Session.linesBefore_step`).
-/

namespace VisualNovel

/-! ## Stretches without a line -/

/-- Whether a command takes time. The others are carried out at once. -/
def Command.takesTime : Command → Bool
  | wait _ | speak _ => true
  | background _ | sprite _ => false

namespace Script

/-- From a place on, commands that take no time lead to a later place. -/
inductive LeadsTo (script : Script) : Nat → Nat → Prop
  | here {place : Nat} : LeadsTo script place place
  | on {place later : Nat} {command : Command} :
      script.commands[place]? = some command → command.takesTime = false →
        LeadsTo script (place + 1) later → LeadsTo script place later

/-- None of the commands from one place up to a later one speaks. -/
structure NoLineBetween (script : Script) (place later : Nat) : Prop where
  le : place ≤ later
  quiet : ∀ {i : Nat} {command : Command}, place ≤ i → i < later →
    script.commands[i]? = some command → command.text? = none

/-- The texts of the lines before a place. -/
def linesBefore (script : Script) (place : Nat) : List String :=
  (script.commands.take place).filterMap Command.text?

variable {script : Script} {place middle later : Nat}

theorem NoLineBetween.refl (script : Script) (place : Nat) : script.NoLineBetween place place :=
  ⟨Nat.le_refl place, fun hle hlt => absurd hlt (Nat.not_lt.mpr hle)⟩

theorem NoLineBetween.trans (h : script.NoLineBetween place middle)
    (hrest : script.NoLineBetween middle later) : script.NoLineBetween place later where
  le := Nat.le_trans h.le hrest.le
  quiet {i} _ hle hlt hcommand := by
    by_cases hmiddle : i < middle
    · exact h.quiet hle hmiddle hcommand
    · exact hrest.quiet (Nat.le_of_not_lt hmiddle) hlt hcommand

/-- A single command that is no line is such a stretch. -/
theorem noLineBetween_succ {command : Command} (hcommand : script.commands[place]? = some command)
    (hquiet : command.text? = none) : script.NoLineBetween place (place + 1) where
  le := Nat.le_succ place
  quiet {i} other hle hlt hother := by
    obtain rfl : i = place := Nat.le_antisymm (Nat.le_of_lt_succ hlt) hle
    rw [hcommand, Option.some.injEq] at hother
    exact hother ▸ hquiet

/-- Commands that take no time are no lines. -/
theorem LeadsTo.noLineBetween (h : script.LeadsTo place later) :
    script.NoLineBetween place later := by
  induction h with
  | here => exact .refl script _
  | @on place later command hcommand hquick _ ih =>
    have hquiet : command.text? = none := by
      cases command with
      | background | sprite => rfl
      | wait | speak => exact absurd hquick nofun
    exact (noLineBetween_succ hcommand hquiet).trans ih

theorem LeadsTo.trans (h : script.LeadsTo place middle) (hrest : script.LeadsTo middle later) :
    script.LeadsTo place later := by
  induction h with
  | here => exact hrest
  | on hcommand hquick _ ih => exact .on hcommand hquick (ih hrest)

/-- The lines before a place stay the same over such a stretch. -/
theorem NoLineBetween.linesBefore_eq (h : script.NoLineBetween place later) :
    script.linesBefore later = script.linesBefore place := by
  obtain ⟨count, rfl⟩ := Nat.exists_eq_add_of_le h.le
  have hnone : ((script.commands.drop place).take count).filterMap Command.text? = [] := by
    rw [List.filterMap_eq_nil_iff]
    intro command hcommand
    obtain ⟨offset, hoffset⟩ := List.getElem?_of_mem hcommand
    have hlt : offset < count :=
      Nat.lt_of_lt_of_le (List.getElem?_eq_some_iff.mp hoffset).1 (List.length_take_le _ _)
    rw [List.getElem?_take_of_lt hlt, List.getElem?_drop] at hoffset
    exact h.quiet (Nat.le_add_right place offset) (Nat.add_lt_add_left hlt place) hoffset
  rw [linesBefore, List.take_add, List.filterMap_append, hnone, List.append_nil, linesBefore]

/-- A line counts once the place is past it. -/
theorem linesBefore_succ {command : SpeakCommand}
    (hcommand : script.commands[place]? = some (.speak command)) :
    script.linesBefore (place + 1) = script.linesBefore place ++ [command.text] := by
  rw [linesBefore, List.take_add_one, hcommand, List.filterMap_append, linesBefore]
  rfl

/-- There are as many lines before a place as commands that speak. -/
theorem length_linesBefore (script : Script) (place : Nat) :
    (script.linesBefore place).length =
      (script.commands.take place).countP (·.kind = .speak) := by
  rw [linesBefore, List.length_filterMap_eq_countP]
  refine List.countP_congr fun command _ => ?_
  cases command <;> simp [Command.text?, Command.kind]

end Script

/-! ## Time takes a playback up to a line -/

namespace Playback

variable {script : Script} {playback : Playback}

theorem place_applyBackground (playback : Playback) (command : BackgroundCommand) :
    (playback.applyBackground command).place = playback.place := by
  obtain ⟨_, _, _, heq⟩ := playback.exists_applyBackground_eq command
  rw [heq]

theorem place_applySprite (playback : Playback) (command : SpriteCommand) :
    (playback.applySprite command).place = playback.place := by
  obtain ⟨_, _, _, heq⟩ := playback.exists_applySprite_eq command
  rw [heq]

/-- Commands are carried out as long as they take no time. -/
theorem leadsTo_dispatch {rest : List Command}
    (hrest : script.commands.drop playback.place = rest) :
    script.LeadsTo playback.place (playback.dispatch rest).place := by
  -- the commands ahead are those from the place on, so the place moves along with the induction
  induction rest generalizing playback with
  | nil => exact .here
  | cons command rest ih =>
    obtain ⟨hcommand, hnext⟩ := Command.ahead hrest
    have hfrom {moved : Playback} (hplace : moved.place = playback.place)
        (hquick : command.takesTime = false) :
        script.LeadsTo playback.place (moved.moveOn.dispatch rest).place := by
      have hmoved : moved.moveOn.place = playback.place + 1 := congrArg (· + 1) hplace
      have hrest : script.LeadsTo moved.moveOn.place (moved.moveOn.dispatch rest).place :=
        ih (hmoved ▸ hnext)
      rw [hmoved] at hrest
      exact .on hcommand hquick hrest
    cases command with
    | background command => exact hfrom (playback.place_applyBackground command) rfl
    | sprite command => exact hfrom (playback.place_applySprite command) rfl
    | wait duration => exact .here
    | speak command => exact .here

theorem leadsTo_runUntilBlocked (playback : Playback) (hscript : playback.script = script) :
    script.LeadsTo playback.place playback.runUntilBlocked.place := by
  rw [runUntilBlocked]
  split
  · exact leadsTo_dispatch (by rw [hscript])
  · exact .here

/-- A line that is being revealed stays at hand. -/
theorem place_reveal (playback : Playback) (delta : Single) :
    (playback.reveal delta).place = playback.place := by
  rw [reveal]
  split <;> rfl

end Playback

section Time

variable {script : Script} {opening : Opening} {taken : List Cue} {playback : Playback}

/-- When a wait is over, the commands after it are carried out up to the next line. -/
theorem Follows.noLineBetween_waitFor (h : Follows script opening taken playback) (delta : Single) :
    script.NoLineBetween playback.place (playback.waitFor delta).place := by
  rw [Playback.waitFor]
  cases hwait : playback.wait with
  | none => exact .refl script playback.place
  | some timer =>
    have hsome : playback.wait ≠ none := by
      rw [hwait]
      exact Option.some_ne_none timer
    obtain ⟨duration, hduration⟩ := h.waiting hsome
    rw [h.script_eq] at hduration
    dsimp only
    split
    · have hafter := Playback.leadsTo_runUntilBlocked
        ({ playback with wait := none } : Playback).moveOn h.script_eq
      exact (Script.noLineBetween_succ hduration rfl).trans hafter.noLineBetween
    · exact .refl script playback.place

/-- No tick takes a playback past a line. -/
theorem Follows.noLineBetween_tick (hadmitted : ∀ command ∈ script.commands, script.Admits command)
    (h : Follows script opening taken playback) (delta : Single) :
    script.NoLineBetween playback.place (playback.tick delta).2.place := by
  rw [Playback.tick_eq_spend]
  refine (playback.leadsTo_runUntilBlocked h.script_eq).noLineBetween.trans ?_
  rw [Playback.spend]
  split
  · rw [Playback.place_reveal]
    exact .refl script _
  · exact (h.runUntilBlocked hadmitted).noLineBetween_waitFor _
  · exact .refl script _

end Time

/-- A start goes back to the first command. -/
theorem Playback.place_start (playback : Playback) : playback.start.place = 0 := by
  obtain ⟨_, _, ⟨background, music⟩, _, _, _, _, _, _, _⟩ := playback
  cases background <;> cases music <;> rfl

/-! ## The player leaves a line -/

/-- A line of which all characters are revealed is shown as a whole. -/
theorem Line.Counted.shown_of_whole {line : Line} (hcounted : line.Counted)
    (h : line.revealed = line.charCount) : line.shown = line.text := by
  rw [shown, h, hcounted.charCount_eq, ← String.length_toList, List.take_length,
    String.ofList_toList]

/-- An advance signal leaves the line at hand, which is shown as a whole, or stays where it is. -/
theorem Playback.Coherent.advance_cases {script : Script} {settings : Settings}
    {playback : Playback} (h : playback.Coherent script settings) :
    (playback.advance.1 = .advanced ∧ playback.advance.2.place = playback.place + 1 ∧
        ∃ command, script.commands[playback.place]? = some (.speak command) ∧
          playback.stage.shownText = some command.text) ∨
      playback.advance.1 ≠ .advanced ∧ playback.advance.2.place = playback.place := by
  have hignored : AdvanceOutcome.ignored ≠ .advanced := by decide
  have hcompleted : AdvanceOutcome.completed ≠ .advanced := by decide
  cases hphase : playback.phase with
  | awaitingInput =>
    obtain ⟨line, ⟨hline, ⟨command, hcommand, htext⟩, hcounted⟩, hwhole⟩ :=
      h.uttered (Or.inr hphase)
    have hshown : playback.stage.shownText = some command.text := by
      rw [Stage.shownText, hline, Option.map_some, hcounted.shown_of_whole (hwhole hphase), htext]
    have hplace : playback.leaveLine.place = playback.place + 1 := by rw [leaveLine_eq]
    rw [Playback.advance, hphase]
    exact Or.inl ⟨rfl, hplace, command, hcommand, hshown⟩
  | revealing =>
    rw [Playback.advance, hphase]
    dsimp only
    split
    · exact Or.inr ⟨hignored, rfl⟩
    · exact Or.inr ⟨hcompleted, rfl⟩
  | notStarted | executing | finished =>
    rw [Playback.advance, hphase]
    exact Or.inr ⟨hignored, rfl⟩

/-! ## Sessions -/

namespace Session

/-- What is shown when a signal has the playback leave a line; nothing for other signals. -/
def leaving (session : Session) (signal : Signal) : List (Option String) :=
  if signal = .advance ∧ session.playback.advance.1 = .advanced then
    [session.playback.stage.shownText]
  else []

/-- What was shown each time a line was left, one entry for each signal that left one. -/
def linesRead (session : Session) : List Signal → List (Option String)
  | [] => []
  | signal :: signals => session.leaving signal ++ (session.step signal).linesRead signals

variable {script : Script} {settings : Settings} {opening : Opening} {session : Session}

section Steps

variable (hsound : script.Sound) (hfollows : Follows script opening session.taken session.playback)
  (hcoherent : session.playback.Coherent script settings)
include hsound hfollows hcoherent

/-- No signal but a start takes the place back. -/
theorem place_le_step {signal : Signal} (hsignal : signal ≠ .start) :
    session.playback.place ≤ (session.step signal).playback.place := by
  cases signal with
  | start => exact absurd rfl hsignal
  | tick delta => exact (hfollows.noLineBetween_tick hsound.admitted delta).le
  | advance =>
    show session.playback.place ≤ session.playback.advance.2.place
    rcases hcoherent.advance_cases with ⟨-, hplace, -⟩ | ⟨-, hplace⟩
    · exact hplace ▸ Nat.le_succ _
    · exact Nat.le_of_eq hplace.symm
  | drain => exact Nat.le_refl _
  | present => exact Nat.le_refl _
  | frame => exact Nat.le_refl _

/-- The lines before the place grow by what is shown when one is left. -/
theorem linesBefore_step {signal : Signal} (hsignal : signal ≠ .start) :
    (script.linesBefore (session.step signal).playback.place).map some =
      (script.linesBefore session.playback.place).map some ++ session.leaving signal := by
  have hstay (heq : script.linesBefore (session.step signal).playback.place =
      script.linesBefore session.playback.place) (hleaving : session.leaving signal = []) :
      (script.linesBefore (session.step signal).playback.place).map some =
        (script.linesBefore session.playback.place).map some ++ session.leaving signal := by
    rw [heq, hleaving, List.append_nil]
  cases signal with
  | start => exact absurd rfl hsignal
  | tick delta => exact hstay (hfollows.noLineBetween_tick hsound.admitted delta).linesBefore_eq rfl
  | advance =>
    rcases hcoherent.advance_cases with ⟨hadvanced, hplace, command, hcommand, hshown⟩ |
      ⟨hignored, hplace⟩
    · have hlater : (session.step .advance).playback.place = session.playback.place + 1 := hplace
      rw [leaving, if_pos ⟨rfl, hadvanced⟩, hlater, Script.linesBefore_succ hcommand,
        List.map_append, hshown]
      rfl
    · refine hstay (congrArg script.linesBefore hplace) ?_
      rw [leaving, if_neg fun h => hignored h.2]
  | drain => exact hstay rfl rfl
  | present => exact hstay rfl rfl
  | frame => exact hstay rfl rfl

end Steps

/-- What was shown each time a line was left are the lines that the place has moved past. -/
theorem linesBefore_run (hsound : script.Sound) (huntouched : script.sprites.Untouched)
    (hinterval : 0 < settings.charInterval)
    (hfollows : Follows script opening session.taken session.playback)
    (hcoherent : session.playback.Coherent script settings) {signals : List Signal}
    (hstart : .start ∉ signals) :
    (script.linesBefore (session.run signals).playback.place).map some =
      (script.linesBefore session.playback.place).map some ++ session.linesRead signals := by
  induction signals generalizing session with
  | nil => exact (List.append_nil _).symm
  | cons signal signals ih =>
    rw [List.mem_cons, not_or] at hstart
    have hstep := linesBefore_step hsound hfollows hcoherent (Ne.symm hstart.1)
    have hrest := ih (follows_step hsound.admitted hfollows signal)
      (coherent_step hsound huntouched hinterval hcoherent signal) hstart.2
    rw [linesRead, ← List.append_assoc, ← hstep]
    exact hrest

/-- A start leads before the first command, whatever came before it. -/
theorem started_of_new {script : Script} (hreachable : script.Reachable) {settings : Settings}
    {opening : Opening} {playback : Playback}
    (hnew : Playback.new script settings opening = .ok playback) (before : List Signal) :
    let started := (Session.run ⟨playback, []⟩ before).step .start
    Follows script opening started.taken started.playback ∧
      started.playback.Coherent script settings := by
  have hsound := hreachable.sound
  have huntouched := hreachable.untouched
  obtain ⟨hinterval, hfresh⟩ := Playback.coherent_of_new huntouched hnew
  have hmem : .start ∈ before ++ [.start] := List.mem_append_right before List.mem_cons_self
  have hfollows := follows_of_start_mem hsound.admitted (Playback.idle_of_new hnew) hmem
  have hrun : Session.run ⟨playback, []⟩ (before ++ [.start]) =
    (Session.run ⟨playback, []⟩ before).step .start := List.foldl_append
  rw [hrun] at hfollows
  exact ⟨hfollows, coherent_step hsound huntouched hinterval
    (coherent_run hsound huntouched hinterval hfresh before) .start⟩

/-- After a start, whatever signals follow, the player has left just as many lines as there are
before the place; what was shown each time are their texts, in order and as a whole. From there on
the place is not taken back, a line is left only if it is the one at hand and is shown as a whole,
and no tick goes past a line. -/
theorem run_reads_lines {script : Script} (hreachable : script.Reachable) {settings : Settings}
    {opening : Opening} {playback : Playback}
    (hnew : Playback.new script settings opening = .ok playback) (before : List Signal)
    {signals : List Signal} (hstart : .start ∉ signals) :
    let started := (Session.run ⟨playback, []⟩ before).step .start
    let session := started.run signals
    let place := session.playback.place
    (started.linesRead signals).length = (script.commands.take place).countP (·.kind = .speak) ∧
      started.linesRead signals =
        ((script.commands.take place).filterMap Command.text?).map some ∧
      (∀ signal ≠ .start, place ≤ (session.step signal).playback.place) ∧
      (session.playback.advance.1 = .advanced → ∃ command,
        script.commands[place]? = some (.speak command) ∧
          session.playback.stage.shownText = some command.text) ∧
      ∀ delta i command, place ≤ i → i < (session.playback.tick delta).2.place →
        script.commands[i]? ≠ some (.speak command) := by
  have hsound := hreachable.sound
  have huntouched := hreachable.untouched
  obtain ⟨hinterval, -⟩ := Playback.coherent_of_new huntouched hnew
  obtain ⟨hfollowsStarted, hcoherentStarted⟩ := started_of_new hreachable hnew before
  intro started session place
  have hfollows : Follows script opening session.taken session.playback :=
    follows_run hsound.admitted hfollowsStarted signals
  have hcoherent : session.playback.Coherent script settings :=
    coherent_run hsound huntouched hinterval hcoherentStarted signals
  have hread : started.linesRead signals = (script.linesBefore place).map some := by
    have hrun := linesBefore_run hsound huntouched hinterval hfollowsStarted hcoherentStarted hstart
    have hzero : started.playback.place = 0 := Playback.place_start _
    rw [hzero] at hrun
    exact hrun.symm
  refine ⟨?_, hread, fun signal hsignal => place_le_step hsound hfollows hcoherent hsignal, ?_, ?_⟩
  · rw [hread, List.length_map, Script.length_linesBefore]
  · intro hadvanced
    rcases hcoherent.advance_cases with ⟨-, -, hline⟩ | ⟨hignored, -⟩
    · exact hline
    · exact absurd hadvanced hignored
  · intro delta i command hle hlt hcommand
    exact absurd ((hfollows.noLineBetween_tick hsound.admitted delta).quiet hle hlt hcommand) nofun

/-- The line of the greeting is revealed, and left with the second of two advance signals, the first
of which comes too early. -/
theorem run_reads_lines_greeting :
    ∃ playback, Playback.new (Script.empty.editAll Script.greeting) .standard ⟨none, none⟩ =
        .ok playback ∧
      let started := (Session.run ⟨playback, []⟩ [.tick 1]).step .start
      let signals := [.tick 1, .advance] ++ List.replicate 4 (.tick 1) ++ [.advance, .tick 0]
      (started.run signals).playback.place = 3 ∧
        started.linesRead signals = [some "Hello"] := by
  have hnew : Playback.new (Script.empty.editAll Script.greeting) .standard ⟨none, none⟩ =
      .ok _ := rfl
  have hstart : Signal.start ∉
      [.tick 1, .advance] ++ List.replicate 4 (.tick 1) ++ [.advance, .tick 0] := by decide
  have hread := run_reads_lines (Script.Reachable.empty.editAll Script.greeting) hnew [.tick 1]
    hstart
  exact ⟨_, hnew, by decide +kernel, hread.2.1.trans (by decide +kernel)⟩

end Session

end VisualNovel
