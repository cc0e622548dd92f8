import VisualNovel.Proofs.Playback.Waiting

/-!
# One thing at a time

The time of a tick is good for one thing: it ends a wait, or it reveals a character, or it does
neither (`Playback.Event`). However many commands are carried out before and after, no tick does two
of these, and none goes past a line (`Session.run_one_event`).

A character is revealed when the times since the last one, added up, reach the interval of the
settings. Which times these are is read off the history of a session: all since the line began or
its last character was revealed (`Session.timesSince`), except that of a tick in which a wait has
ended. What carries the induction is `Playback.Timed`, by which the timer shows their sum as long as
the line is not complete.
-/

namespace VisualNovel

/-! ## What is shown of a line -/

/-- The characters that are shown; none if there is no line. -/
def Stage.shownChars (stage : Stage) : List Char := stage.shownText.elim [] String.toList

namespace Line

variable {line later : Line}

/-- What is shown of a line are its first characters. -/
theorem toList_shown (line : Line) : line.shown.toList = line.text.toList.take line.revealed :=
  String.toList_ofList

/-- As many characters are shown as are revealed. -/
theorem Counted.length_toList_shown (h : line.Counted) :
    line.shown.toList.length = line.revealed := by
  rw [toList_shown, List.length_take, String.length_toList, ← h.charCount_eq]
  exact Nat.min_eq_left h.revealed_le

/-- As much of the same line is revealed, or more. -/
structure Extends (later line : Line) : Prop where
  text_eq : later.text = line.text
  revealed_le : line.revealed ≤ later.revealed

theorem Extends.refl (line : Line) : line.Extends line := ⟨rfl, Nat.le_refl _⟩

theorem Extends.trans {latest : Line} (hlatest : latest.Extends later) (h : later.Extends line) :
    latest.Extends line :=
  ⟨hlatest.text_eq.trans h.text_eq, Nat.le_trans h.revealed_le hlatest.revealed_le⟩

/-- What is shown of a line stays shown. -/
theorem Extends.shown_prefix (h : later.Extends line) :
    line.shown.toList <+: later.shown.toList := by
  rw [toList_shown, toList_shown, h.text_eq]
  exact List.take_prefix_take_left h.revealed_le

/-- Revealing a character hides none. -/
theorem extends_revealOne (line : Line) : line.revealOne.Extends line := by
  refine ⟨line.text_revealOne, ?_⟩
  rw [revealOne]
  split
  · exact Nat.le_refl _
  · exact Nat.le_succ _

/-- One more character is shown of a line that is not complete. -/
theorem Counted.exists_shown_revealOne (hcounted : line.Counted) (h : ¬line.isComplete) :
    ∃ char, line.revealOne.shown.toList = line.shown.toList ++ [char] := by
  have hlt : line.revealed < line.text.toList.length := by
    rw [isComplete_iff, hcounted.charCount_eq] at h
    rw [String.length_toList]
    omega
  refine ⟨line.text.toList[line.revealed], ?_⟩
  rw [toList_shown, toList_shown, Line.revealOne, if_neg h]
  exact List.take_succ_eq_append_getElem hlt

end Line

/-- What the stage shows is what is shown of its line. -/
theorem Stage.shownChars_of_line {stage : Stage} {line : Line} (h : stage.line = some line) :
    stage.shownChars = line.shown.toList := by
  rw [shownChars, shownText, h]
  rfl

/-- Without a line, the stage shows no characters. -/
theorem Stage.shownChars_of_none {stage : Stage} (h : stage.line = none) :
    stage.shownChars = [] := by
  rw [shownChars, shownText, h]
  rfl

/-! ## Commands that are moved past -/

namespace Script

variable {script : Script} {place middle later : Nat} {kind : CommandKind}

/-- How many commands of a kind there are from one place up to another. -/
def countBetween (script : Script) (kind : CommandKind) (place later : Nat) : Nat :=
  ((script.commands.take later).drop place).countP (·.kind = kind)

/-- No command lies between a place and itself. -/
theorem countBetween_self (script : Script) (kind : CommandKind) (place : Nat) :
    script.countBetween kind place place = 0 := by
  rw [countBetween, List.drop_take_self]
  rfl

/-- From one place earlier, the command there is counted as well. -/
theorem countBetween_succ {command : Command} (hcommand : script.commands[place]? = some command)
    (hle : place + 1 ≤ later) :
    script.countBetween kind place later =
      script.countBetween kind (place + 1) later + if command.kind = kind then 1 else 0 := by
  obtain ⟨hlt, rfl⟩ := List.getElem?_eq_some_iff.mp hcommand
  have hlength : place < (script.commands.take later).length := by
    rw [List.length_take]
    omega
  rw [countBetween, List.drop_eq_getElem_cons hlength, List.countP_cons, List.getElem_take,
    countBetween]
  simp only [decide_eq_true_eq]

/-- None of the commands that take no time is a wait or a line. -/
theorem LeadsTo.countBetween_eq (h : script.LeadsTo place middle)
    (hkind : kind = .wait ∨ kind = .speak) (hle : middle ≤ later) :
    script.countBetween kind place later = script.countBetween kind middle later := by
  induction h with
  | here => rfl
  | @on place middle command hcommand hquick hrest ih =>
    have hother : command.kind ≠ kind := by
      rintro rfl
      cases command with
      | background | sprite => exact hkind.elim nofun nofun
      | wait | speak => exact absurd hquick nofun
    have hnext : place + 1 ≤ later := Nat.le_trans hrest.noLineBetween.le hle
    rw [countBetween_succ hcommand hnext, if_neg hother, ih hle, Nat.add_zero]

/-- On the way to where playback stops, no wait and no line is passed. -/
theorem LeadsTo.countBetween_eq_zero (h : script.LeadsTo place later)
    (hkind : kind = .wait ∨ kind = .speak) : script.countBetween kind place later = 0 := by
  rw [h.countBetween_eq hkind (Nat.le_refl _), countBetween_self]

/-- A wait among commands that take no time is the only one that is counted. -/
theorem countBetween_of_wait {duration : Single} (h : script.LeadsTo place middle)
    (hcommand : script.commands[middle]? = some (.wait duration))
    (hrest : script.LeadsTo (middle + 1) later) :
    script.countBetween .wait place later = 1 ∧ script.countBetween .speak place later = 0 := by
  have hle : middle + 1 ≤ later := hrest.noLineBetween.le
  have hcount {kind : CommandKind} (hkind : kind = .wait ∨ kind = .speak) :
      script.countBetween kind place later =
        if (Command.wait duration).kind = kind then 1 else 0 := by
    rw [h.countBetween_eq hkind (Nat.le_of_succ_le hle), countBetween_succ hcommand hle,
      hrest.countBetween_eq_zero hkind, Nat.zero_add]
  exact ⟨hcount (Or.inl rfl), hcount (Or.inr rfl)⟩

end Script

namespace Playback

variable {script : Script} {settings : Settings} {playback later : Playback} {delta : Single}
  {times : List Single}

/-! ## A line begins -/

/-- There is no line, or one that has just begun: nothing of it is shown, and no time has counted
towards its first character. -/
def NothingShown (playback : Playback) : Prop :=
  ∀ line, playback.stage.line = some line → line.revealed = 0 ∧ playback.revealTimer = 0

/-- Without a line, nothing is shown. -/
theorem nothingShown_of_none (h : playback.stage.line = none) : playback.NothingShown := by
  intro line hline
  exact absurd (hline.symm.trans h) (Option.some_ne_none _)

/-- Where nothing is shown, there are no characters. -/
theorem NothingShown.shownChars_eq (h : playback.NothingShown) :
    playback.stage.shownChars = [] := by
  cases hline : playback.stage.line with
  | none => exact Stage.shownChars_of_none hline
  | some line =>
    rw [Stage.shownChars_of_line hline, Line.toList_shown, (h line hline).1]
    exact List.take_zero

/-- A background command leaves the line alone. -/
theorem line_applyBackground (playback : Playback) (command : BackgroundCommand) :
    (playback.applyBackground command).stage.line = playback.stage.line := by
  have himage (asset : AssetRef) (playback : Playback) :
      (playback.applyImage asset).stage.line = playback.stage.line := by
    cases asset with
    | keep | clear => rfl
    | set index =>
      rw [applyImage]
      split <;> rfl
  have hmusic (asset : AssetRef) (playback : Playback) :
      (playback.applyMusic asset).stage.line = playback.stage.line := by
    cases asset with
    | keep | clear => rfl
    | set index =>
      rw [applyMusic]
      split <;> rfl
  rw [applyBackground, hmusic, himage]

/-- A sprite command leaves the line alone. -/
theorem line_applySprite (playback : Playback) (command : SpriteCommand) :
    (playback.applySprite command).stage.line = playback.stage.line := by
  rw [applySprite]
  split <;> rfl

/-- Where commands are carried out without a line, there is none in the end, or one that has just
begun. -/
theorem nothingShown_dispatch (hline : playback.stage.line = none) (commands : List Command) :
    (playback.dispatch commands).NothingShown := by
  induction commands generalizing playback with
  | nil => exact nothingShown_of_none hline
  | cons command commands ih =>
    cases command with
    | background command => exact ih ((playback.line_applyBackground command).trans hline)
    | sprite command => exact ih ((playback.line_applySprite command).trans hline)
    | wait duration => exact nothingShown_of_none hline
    | speak command =>
      intro line hspoken
      obtain rfl := Option.some.inj hspoken
      exact ⟨rfl, rfl⟩

/-- Without a line, playback runs on to where nothing is shown yet. -/
theorem nothingShown_runUntilBlocked (hline : playback.stage.line = none) :
    playback.runUntilBlocked.NothingShown := by
  rw [runUntilBlocked]
  split
  · exact nothingShown_dispatch hline _
  · exact nothingShown_of_none hline

/-! ## What a tick does -/

/-- These times have counted towards the next character: the timer of a line that is not complete
shows their sum. -/
structure Timed (playback : Playback) (times : List Single) : Prop where
  nil_of_none : playback.stage.line = none → times = []
  timer_eq : ∀ {line}, playback.stage.line = some line → ¬line.isComplete →
    playback.revealTimer = totalTime times

/-- Where nothing is shown, no times have counted. -/
theorem NothingShown.timed (h : playback.NothingShown) : playback.Timed [] :=
  ⟨fun _ => rfl, fun hline _ => (h _ hline).2⟩

/-- What comes of the time of a tick, when with it these times have counted towards the next
character. -/
inductive Event (playback later : Playback) (times : List Single) : Prop
  /-- No wait ends and no character is revealed: if the line has more, the times are not enough. -/
  | nothing :
      playback.script.LeadsTo playback.place later.place →
      later.stage.shownChars = playback.stage.shownChars →
      (∀ {line}, later.stage.line = some line → ¬line.isComplete →
        ¬playback.settings.charInterval ≤ totalTime times ∧
          later.revealTimer = totalTime times) →
      Event playback later times
  /-- A wait ends, and what comes after it is given no time. -/
  | waitEnds {place : Nat} {duration : Single} :
      playback.stage.line = none → playback.script.LeadsTo playback.place place →
      playback.script.commands[place]? = some (.wait duration) →
      playback.script.LeadsTo (place + 1) later.place → later.NothingShown →
      Event playback later times
  /-- The times are enough for a character, and what is left of them is dropped. -/
  | charShown {line : Line} {char : Char} :
      playback.script.LeadsTo playback.place later.place → later.stage.line = some line →
      later.stage.shownChars = playback.stage.shownChars ++ [char] →
      playback.settings.charInterval ≤ totalTime times → later.revealTimer = 0 →
      Event playback later times

/-- Without a line there is nothing to reveal. -/
theorem Event.of_none (hleads : playback.script.LeadsTo playback.place later.place)
    (hline : playback.stage.line = none) (hlater : later.stage.line = none) :
    playback.Event later times := by
  refine .nothing hleads ?_ fun hsome => ?_
  · rw [Stage.shownChars_of_none hlater, Stage.shownChars_of_none hline]
  · exact absurd (hsome.symm.trans hlater) (Option.some_ne_none _)

/-- A line that is revealed gets a character if the times are enough. -/
theorem event_reveal (hcoherent : playback.Coherent script settings)
    (hphase : playback.phase = .revealing) (htimed : playback.Timed times) :
    playback.Event (playback.reveal delta) (times ++ [delta]) := by
  obtain ⟨line, ⟨hline, -, hcounted⟩, -⟩ := hcoherent.uttered (Or.inl hphase)
  have hleads : playback.script.LeadsTo playback.place (playback.reveal delta).place := by
    rw [place_reveal]
    exact .here
  by_cases hcomplete : line.isComplete
  · have hsame : (playback.reveal delta).stage.line = some line := by
      simp [reveal, hline, hcomplete]
    refine .nothing hleads ?_ fun hother hmore => ?_
    · rw [Stage.shownChars_of_line hsame, Stage.shownChars_of_line hline]
    · rw [hsame, Option.some.injEq] at hother
      exact absurd (hother ▸ hcomplete) hmore
  · have hsum : playback.revealTimer + delta = totalTime (times ++ [delta]) := by
      rw [totalTime_concat, htimed.timer_eq hline hcomplete]
    by_cases henough : playback.settings.charInterval ≤ totalTime (times ++ [delta])
    · have hlater : (playback.reveal delta).stage.line = some line.revealOne ∧
          (playback.reveal delta).revealTimer = 0 := by
        simp [reveal, hline, hcomplete, hsum, henough]
      obtain ⟨char, hchar⟩ := hcounted.exists_shown_revealOne hcomplete
      have hshown : (playback.reveal delta).stage.shownChars =
          playback.stage.shownChars ++ [char] := by
        rw [Stage.shownChars_of_line hlater.1, Stage.shownChars_of_line hline, hchar]
      exact .charShown hleads hlater.1 hshown henough hlater.2
    · have hlater : (playback.reveal delta).stage.line = some line ∧
          (playback.reveal delta).revealTimer = totalTime (times ++ [delta]) := by
        simp [reveal, hline, hcomplete, hsum, henough]
      refine .nothing hleads ?_ fun _ _ => ⟨henough, hlater.2⟩
      rw [Stage.shownChars_of_line hlater.1, Stage.shownChars_of_line hline]

/-- A wait goes on or ends. -/
theorem event_waitFor (hcoherent : playback.Coherent script settings)
    (hphase : playback.phase = .executing) :
    playback.Event (playback.waitFor delta) times := by
  obtain ⟨hline, -⟩ := (occupied_executing hphase).mp hcoherent.occupied
  rw [waitFor]
  cases hwait : playback.wait with
  | none => exact .of_none .here hline hline
  | some timer =>
    obtain ⟨-, hcommand, -⟩ := hcoherent.running hwait
    rw [← hcoherent.script_eq] at hcommand
    dsimp only
    split
    · have hrest := leadsTo_runUntilBlocked ({ playback with wait := none } : Playback).moveOn rfl
      exact .waitEnds hline .here hcommand hrest (nothingShown_runUntilBlocked hline)
    · exact .of_none .here hline hline

/-- Whatever a playback is doing, its time does one thing at most. -/
theorem event_spend (hcoherent : playback.Coherent script settings)
    (htimed : playback.Timed times) :
    playback.Event (playback.spend delta) (times ++ [delta]) := by
  rw [spend]
  split
  · next hphase => exact event_reveal hcoherent hphase htimed
  · next hphase => exact event_waitFor hcoherent hphase
  · next hrevealing hexecuting =>
    by_cases hphase : playback.phase = .awaitingInput
    · -- a line that is shown as a whole has no more characters
      obtain ⟨line, ⟨hline, -, -⟩, hwhole⟩ := hcoherent.uttered (Or.inr hphase)
      refine .nothing .here rfl fun hother hmore => ?_
      obtain rfl := Option.some.inj (hline.symm.trans hother)
      exact absurd (Line.isComplete_iff.mpr (Nat.le_of_eq (hwhole hphase).symm)) hmore
    · have hnone := hcoherent.line_eq_none hrevealing hphase
      exact .of_none .here hnone hnone

/-- While there is no line, commands are carried out first; what comes of the time after that is the
same for the playback as it was. -/
theorem Event.of_runUntilBlocked (hcoherent : playback.Coherent script settings)
    (hready : playback.runUntilBlocked.Coherent script settings)
    (hline : playback.stage.line = none) (h : playback.runUntilBlocked.Event later times) :
    playback.Event later times := by
  have hleads := playback.leadsTo_runUntilBlocked rfl
  have hshown : playback.runUntilBlocked.stage.shownChars = playback.stage.shownChars := by
    rw [(nothingShown_runUntilBlocked hline).shownChars_eq, Stage.shownChars_of_none hline]
  have hscript : playback.runUntilBlocked.script = playback.script :=
    hready.script_eq.trans hcoherent.script_eq.symm
  have hsettings : playback.runUntilBlocked.settings = playback.settings :=
    hready.settings_eq.trans hcoherent.settings_eq.symm
  cases h with
  | nothing hrest hlater hshort =>
    rw [hscript] at hrest
    rw [hsettings] at hshort
    exact .nothing (hleads.trans hrest) (hlater.trans hshown) hshort
  | waitEnds _ hwait hcommand hrest hnothing =>
    rw [hscript] at hwait hcommand hrest
    exact .waitEnds hline (hleads.trans hwait) hcommand hrest hnothing
  | charShown hrest hlater hchar henough htimer =>
    rw [hscript] at hrest
    rw [hshown] at hchar
    rw [hsettings] at henough
    exact .charShown (hleads.trans hrest) hlater hchar henough htimer

/-- A tick does one thing at most, however many commands it carries out. -/
theorem event_tick (hsound : script.Sound) (hinterval : 0 < settings.charInterval)
    (hcoherent : playback.Coherent script settings) (htimed : playback.Timed times) :
    playback.Event (playback.tick delta).2 (times ++ [usableDelta delta]) := by
  have hready := hcoherent.runUntilBlocked hsound hinterval
  rw [tick_eq_spend]
  by_cases hphase : playback.phase = .executing
  · have hline := ((occupied_executing hphase).mp hcoherent.occupied).1
    obtain rfl := htimed.nil_of_none hline
    exact (event_spend hready (nothingShown_runUntilBlocked hline).timed).of_runUntilBlocked
      hcoherent hready hline
  · rw [runUntilBlocked_of_not_executing hphase]
    exact event_spend hcoherent htimed

/-- A tick moves past no line and past one wait at most, and reveals a character only if it moves
past no wait. -/
theorem Event.counts (h : playback.Event later times) : playback.place ≤ later.place ∧
    playback.script.countBetween .speak playback.place later.place = 0 ∧
    ∃ more, later.stage.shownChars = playback.stage.shownChars ++ more ∧
      playback.script.countBetween .wait playback.place later.place + more.length ≤ 1 := by
  cases h with
  | nothing hleads hshown _ =>
    refine ⟨hleads.noLineBetween.le, hleads.countBetween_eq_zero (Or.inr rfl), [], ?_, ?_⟩
    · rw [hshown, List.append_nil]
    · rw [hleads.countBetween_eq_zero (Or.inl rfl)]
      exact Nat.zero_le 1
  | waitEnds hline hleads hcommand hrest hnothing =>
    obtain ⟨hwait, hspeak⟩ := Script.countBetween_of_wait hleads hcommand hrest
    have hto := hleads.noLineBetween.le
    have hfrom := hrest.noLineBetween.le
    refine ⟨by omega, hspeak, [], ?_, ?_⟩
    · rw [hnothing.shownChars_eq, Stage.shownChars_of_none hline, List.append_nil]
    · rw [hwait]
      exact Nat.le_refl 1
  | charShown hleads _ hshown _ _ =>
    refine ⟨hleads.noLineBetween.le, hleads.countBetween_eq_zero (Or.inr rfl), [_], hshown, ?_⟩
    rw [hleads.countBetween_eq_zero (Or.inl rfl)]
    exact Nat.le_refl 1

end Playback

/-! ## A line stays -/

/-- A start takes the line away. -/
theorem Playback.line_start (playback : Playback) : playback.start.stage.line = none := by
  obtain ⟨_, _, ⟨background, music⟩, _, _, _, _, _, _, _⟩ := playback
  cases background <;> cases music <;> rfl

/-- An advance signal takes the line away, shows the whole of it, or is ignored. -/
theorem Playback.Coherent.line_advance {script : Script} {settings : Settings} {playback : Playback}
    (h : playback.Coherent script settings) :
    playback.advance.2.stage.line = none ∨
      (∃ line, playback.stage.line = some line ∧
        playback.advance.2.stage.line = some line.revealAll) ∨
      playback.advance.2 = playback := by
  rw [Playback.advance]
  split
  · refine Or.inl ?_
    rw [leaveLine_eq]
  · next hphase =>
    split
    · exact Or.inr (Or.inr rfl)
    · obtain ⟨line, ⟨hline, -, -⟩, -⟩ := h.uttered (Or.inl hphase)
      exact Or.inr (Or.inl ⟨line, hline, congrArg (Option.map Line.revealAll) hline⟩)
  · exact Or.inr (Or.inr rfl)

/-- Time reveals more of a line, or leaves it as it is. -/
theorem Playback.extends_tick {script : Script} {settings : Settings} {playback : Playback}
    (hcoherent : playback.Coherent script settings) {line : Line}
    (hline : playback.stage.line = some line) (delta : Single) :
    ∃ later, (playback.tick delta).2.stage.line = some later ∧ later.Extends line := by
  have hphase : playback.phase ≠ .executing := by
    intro hphase
    have hnone := ((occupied_executing hphase).mp hcoherent.occupied).1
    exact absurd (hline.symm.trans hnone) (Option.some_ne_none _)
  rw [tick_eq_spend, runUntilBlocked_of_not_executing hphase, spend]
  split
  · rw [reveal, hline]
    refine ⟨_, rfl, ?_⟩
    generalize (!line.isComplete && _) = reached
    cases reached with
    | true => exact line.extends_revealOne
    | false => exact .refl line
  · next hexecuting => exact absurd hexecuting hphase
  · exact ⟨line, hline, .refl line⟩

/-! ## Sessions -/

namespace Session

variable {script : Script} {settings : Settings} {session : Session} {times : List Single}

/-- How many commands of a kind a signal has the place move past. -/
def passes (session : Session) (signal : Signal) (kind : CommandKind) : Nat :=
  session.playback.script.countBetween kind session.playback.place
    (session.step signal).playback.place

/-- The time that a signal leaves for a line: that of a tick, unless a wait ends in it. -/
def freeTime (session : Session) (signal : Signal) : List Single :=
  if session.passes signal .wait = 0 then signal.time?.toList else []

/-- The times that have counted towards the next character after a signal, if before it these were
`times`. There are none without a line, and none once a character is revealed: what was left of the
times is dropped. -/
def timesAfter (session : Session) (times : List Single) (signal : Signal) : List Single :=
  let later := (session.step signal).playback.stage
  if later.line = none ∨ session.playback.stage.shownChars.length < later.shownChars.length then []
  else times ++ session.freeTime signal

/-- The times that have counted since the line began or its last character was revealed. -/
def timesSince (session : Session) (times : List Single) : List Signal → List Single
  | [] => times
  | signal :: signals =>
    (session.step signal).timesSince (session.timesAfter times signal) signals

/-- Without a line, or with one that has no more to show, nothing is said of the timer. -/
theorem timed_timesAfter {signal : Signal}
    (htimer : ∀ {line}, (session.step signal).playback.stage.line = some line → ¬line.isComplete →
      (session.step signal).playback.revealTimer = totalTime (session.timesAfter times signal)) :
    (session.step signal).playback.Timed (session.timesAfter times signal) :=
  ⟨fun hline => if_pos (Or.inl hline), htimer⟩

/-- A signal that lets no time pass, and leaves line and timer alone, leaves the times alone. -/
theorem timed_of_same {signal : Signal} (htimed : session.playback.Timed times)
    (htime : signal.time? = none)
    (hline : (session.step signal).playback.stage.line = session.playback.stage.line)
    (htimer : (session.step signal).playback.revealTimer = session.playback.revealTimer) :
    (session.step signal).playback.Timed (session.timesAfter times signal) := by
  refine timed_timesAfter fun {line} hlater hmore => ?_
  have hbefore : session.playback.stage.line = some line := hline.symm.trans hlater
  have htimes : session.timesAfter times signal = times := by
    rw [timesAfter, freeTime, htime, if_neg, Option.toList_none, ite_self, List.append_nil]
    rw [Stage.shownChars_of_line hlater, Stage.shownChars_of_line hbefore, hlater]
    exact not_or.mpr ⟨Option.some_ne_none line, Nat.lt_irrefl _⟩
  rw [htimer, htimes, htimed.timer_eq hbefore hmore]

/-- If only commands that take no time are moved past, the time of a tick is left for the line. -/
theorem freeTime_of_leadsTo {delta : Single} (hleads : session.playback.script.LeadsTo
      session.playback.place (session.step (.tick delta)).playback.place) :
    session.freeTime (.tick delta) = [Playback.usableDelta delta] :=
  if_pos (hleads.countBetween_eq_zero (Or.inl rfl))

/-- A wait that ends takes the time. -/
theorem freeTime_of_wait {delta duration : Single} {place : Nat}
    (hleads : session.playback.script.LeadsTo session.playback.place place)
    (hcommand : session.playback.script.commands[place]? = some (.wait duration))
    (hrest : session.playback.script.LeadsTo (place + 1)
      (session.step (.tick delta)).playback.place) :
    session.freeTime (.tick delta) = [] := by
  refine if_neg fun hnone => ?_
  have hone := (Script.countBetween_of_wait hleads hcommand hrest).1
  exact Nat.one_ne_zero (hone.symm.trans hnone)

section Steps

variable (hsound : script.Sound) (hinterval : 0 < settings.charInterval)
  (hcoherent : session.playback.Coherent script settings)
  (htimed : session.playback.Timed times)
include hsound hinterval hcoherent htimed

/-- A tick of a session is one of its playback. -/
theorem event_step (delta : Single) :
    session.playback.Event (session.step (.tick delta)).playback
      (times ++ [Playback.usableDelta delta]) :=
  Playback.event_tick hsound hinterval hcoherent htimed

/-- A tick keeps the timer in step with the times that were handed over. -/
theorem timed_tick (delta : Single) :
    (session.step (.tick delta)).playback.Timed (session.timesAfter times (.tick delta)) := by
  have hevent := event_step hsound hinterval hcoherent htimed delta
  refine timed_timesAfter fun {line} hline hmore => ?_
  -- which of these times count is known only once it is known what came of this tick
  cases hevent with
  | nothing hleads hshown hshort =>
    rw [timesAfter, freeTime_of_leadsTo hleads, if_neg]
    · exact (hshort hline hmore).2
    · rw [hline, hshown]
      exact not_or.mpr ⟨Option.some_ne_none line, Nat.lt_irrefl _⟩
  | waitEnds hnone hleads hcommand hrest hnothing =>
    rw [timesAfter, freeTime_of_wait hleads hcommand hrest, htimed.nil_of_none hnone,
      List.append_nil, ite_self]
    exact (hnothing line hline).2
  | charShown hleads hlater hshown henough htimer =>
    rw [timesAfter, if_pos]
    · exact htimer
    · rw [hshown, List.length_append]
      exact Or.inr (Nat.lt_succ_self _)

/-- The timer shows the sum of the times after any signal. -/
theorem timed_step (signal : Signal) :
    (session.step signal).playback.Timed (session.timesAfter times signal) := by
  cases signal with
  | start =>
    refine timed_timesAfter fun hline => ?_
    exact absurd (hline.symm.trans (Playback.line_start _)) (Option.some_ne_none _)
  | tick delta => exact timed_tick hsound hinterval hcoherent htimed delta
  | advance =>
    rcases hcoherent.line_advance with hleft | ⟨whole, -, hwhole⟩ | hignored
    · exact timed_timesAfter fun hline =>
        absurd (hline.symm.trans hleft) (Option.some_ne_none _)
    · refine timed_timesAfter fun hline hmore => absurd ?_ hmore
      rw [← Option.some.inj (hwhole.symm.trans hline), Line.isComplete_iff]
      exact Nat.le_refl _
    · have hsame : (session.step .advance).playback = session.playback := hignored
      exact timed_of_same htimed rfl (congrArg (·.stage.line) hsame)
        (congrArg (·.revealTimer) hsame)
  | drain => exact timed_of_same htimed rfl rfl rfl
  | present => exact timed_of_same htimed rfl rfl rfl
  | frame => exact timed_of_same htimed rfl rfl rfl

/-- A character is revealed just when the line has more and the times reach the interval. -/
theorem shown_lt_tick_iff (delta : Single) :
    let later := (session.step (.tick delta)).playback.stage
    session.playback.stage.shownChars.length < later.shownChars.length ↔
      ∃ line, later.line = some line ∧
        session.playback.stage.shownChars.length < line.charCount ∧
        settings.charInterval ≤ totalTime (times ++ session.freeTime (.tick delta)) := by
  intro later
  have hevent := event_step hsound hinterval hcoherent htimed delta
  have hlater : (session.step (.tick delta)).playback.Coherent script settings :=
    hcoherent.tick hsound hinterval delta
  have hlength {line : Line} (hline : later.line = some line) :
      later.shownChars.length = line.revealed ∧ line.revealed ≤ line.charCount := by
    have hcounted := hlater.counted hline
    rw [Stage.shownChars_of_line hline, hcounted.length_toList_shown]
    exact ⟨rfl, hcounted.revealed_le⟩
  cases hevent with
  | nothing hleads hshown hshort =>
    refine iff_of_false ?_ ?_
    · rw [hshown]
      exact Nat.lt_irrefl _
    · rintro ⟨line, hline, hlt, henough⟩
      rw [freeTime_of_leadsTo hleads] at henough
      rw [← hshown, (hlength hline).1] at hlt
      have hmore : ¬line.isComplete := mt Line.isComplete_iff.mp (Nat.not_le.mpr hlt)
      exact (hshort hline hmore).1 (hcoherent.settings_eq.symm ▸ henough)
  | waitEnds hnone hleads hcommand hrest hnothing =>
    refine iff_of_false ?_ ?_
    · rw [hnothing.shownChars_eq]
      exact Nat.not_lt_zero _
    · rintro ⟨line, -, -, henough⟩
      rw [freeTime_of_wait hleads hcommand hrest, htimed.nil_of_none hnone] at henough
      exact Binary.not_le_of_lt hinterval henough
  | charShown hleads hline hshown henough htimer =>
    have hlt : session.playback.stage.shownChars.length < later.shownChars.length := by
      rw [hshown, List.length_append]
      exact Nat.lt_succ_self _
    refine iff_of_true hlt ⟨_, hline, ?_, ?_⟩
    · obtain ⟨hrevealed, hle⟩ := hlength hline
      omega
    · rw [freeTime_of_leadsTo hleads, ← hcoherent.settings_eq]
      exact henough

end Steps

/-- The timer stays in step with the times that were handed over. -/
theorem timed_run (hsound : script.Sound) (huntouched : script.sprites.Untouched)
    (hinterval : 0 < settings.charInterval) (hcoherent : session.playback.Coherent script settings)
    (htimed : session.playback.Timed times) (signals : List Signal) :
    (session.run signals).playback.Timed (session.timesSince times signals) := by
  induction signals generalizing session times with
  | nil => exact htimed
  | cons signal signals ih =>
    exact ih (coherent_step hsound huntouched hinterval hcoherent signal)
      (timed_step hsound hinterval hcoherent htimed signal)

/-- A line that stays on stage over a signal is revealed as far as before, or further. -/
theorem extends_step (hcoherent : session.playback.Coherent script settings) {line : Line}
    (hline : session.playback.stage.line = some line) {signal : Signal}
    (hstays : (session.step signal).playback.stage.line ≠ none) :
    ∃ later, (session.step signal).playback.stage.line = some later ∧ later.Extends line := by
  cases signal with
  | start => exact absurd (Playback.line_start _) hstays
  | tick delta => exact Playback.extends_tick hcoherent hline delta
  | advance =>
    rcases hcoherent.line_advance with hleft | ⟨whole, hwhole, hlater⟩ | hignored
    · exact absurd hleft hstays
    · obtain rfl := Option.some.inj (hwhole.symm.trans hline)
      exact ⟨_, hlater, rfl, (hcoherent.counted hline).revealed_le⟩
    · have hsame : (session.step .advance).playback = session.playback := hignored
      exact ⟨line, hsame ▸ hline, .refl line⟩
  | drain => exact ⟨line, hline, .refl line⟩
  | present => exact ⟨line, hline, .refl line⟩
  | frame => exact ⟨line, hline, .refl line⟩

/-- So is one that stays over a run of signals. -/
theorem extends_run (hsound : script.Sound) (huntouched : script.sprites.Untouched)
    (hinterval : 0 < settings.charInterval) (hcoherent : session.playback.Coherent script settings)
    {line : Line} (hline : session.playback.stage.line = some line) {signals : List Signal}
    (hstays : ∀ first, first <+: signals → (session.run first).playback.stage.line ≠ none) :
    ∃ later, (session.run signals).playback.stage.line = some later ∧ later.Extends line := by
  induction signals generalizing session line with
  | nil => exact ⟨line, hline, .refl line⟩
  | cons signal signals ih =>
    have hfirst : (session.step signal).playback.stage.line ≠ none :=
      hstays [signal] (List.cons_prefix_cons.mpr ⟨rfl, List.nil_prefix⟩)
    obtain ⟨next, hnext, hextends⟩ := extends_step hcoherent hline hfirst
    obtain ⟨later, hlater, hfurther⟩ :=
      ih (coherent_step hsound huntouched hinterval hcoherent signal) hnext fun first hprefix =>
        hstays (signal :: first) (List.cons_prefix_cons.mpr ⟨rfl, hprefix⟩)
    exact ⟨later, hlater, hfurther.trans hextends⟩

/-- In a tick one thing happens at most, whatever came before it and however long it is: the place
moves past no line and past one wait at most, and if past none one more character may be shown. This
is so just when the line has more and the interval is reached by the sum of the times since it
began or its last character was revealed, the one of this tick included. What is shown of a line is
its first characters, as many as are revealed, and as long as the line stays, they stay. -/
theorem run_one_event {script : Script} (hreachable : script.Reachable) {settings : Settings}
    {opening : Opening} {playback : Playback}
    (hnew : Playback.new script settings opening = .ok playback) (before : List Signal) :
    let session := Session.run ⟨playback, []⟩ before
    let times := Session.timesSince ⟨playback, []⟩ [] before
    let shown := session.playback.stage.shownChars
    (∀ delta,
      let later := (session.step (.tick delta)).playback
      session.playback.place ≤ later.place ∧ session.passes (.tick delta) .speak = 0 ∧
        (∃ more, later.stage.shownChars = shown ++ more ∧
          session.passes (.tick delta) .wait + more.length ≤ 1) ∧
        (shown.length < later.stage.shownChars.length ↔ ∃ line,
          later.stage.line = some line ∧ shown.length < line.charCount ∧
            settings.charInterval ≤ totalTime (times ++ session.freeTime (.tick delta)))) ∧
      ∀ line, session.playback.stage.line = some line →
        line.shown.toList <+: line.text.toList ∧ line.shown.toList.length = line.revealed ∧
          ∀ signals, (∀ first, first <+: signals →
              (session.run first).playback.stage.line ≠ none) →
            ∃ later, (session.run signals).playback.stage.line = some later ∧
              later.text = line.text ∧ line.shown.toList <+: later.shown.toList := by
  intro session times shown
  have hsound := hreachable.sound
  have huntouched := hreachable.untouched
  obtain ⟨hinterval, hfresh⟩ := Playback.coherent_of_new huntouched hnew
  have hcoherent : session.playback.Coherent script settings :=
    coherent_run hsound huntouched hinterval hfresh before
  have hidle : playback.phase = .notStarted := (Playback.idle_of_new hnew).phase_eq
  have hnone : playback.stage.line = none :=
    hfresh.line_eq_none (hidle ▸ nofun) (hidle ▸ nofun)
  have htimed : session.playback.Timed times :=
    timed_run hsound huntouched hinterval hfresh (Playback.nothingShown_of_none hnone).timed before
  refine ⟨fun delta => ?_, fun line hline => ?_⟩
  · have hevent := event_step hsound hinterval hcoherent htimed delta
    obtain ⟨hplace, hspeak, hmore⟩ := hevent.counts
    exact ⟨hplace, hspeak, hmore, shown_lt_tick_iff hsound hinterval hcoherent htimed delta⟩
  · refine ⟨?_, (hcoherent.counted hline).length_toList_shown, ?_⟩
    · rw [Line.toList_shown]
      exact List.take_prefix _ _
    · intro signals hstays
      obtain ⟨later, hlater, hextends⟩ :=
        extends_run hsound huntouched hinterval hcoherent hline hstays
      exact ⟨later, hlater, hextends.text_eq, hextends.shown_prefix⟩

/-- The first letter of the greeting is shown by a tick of a second. What is left of the second is
dropped: a tick of no time shows nothing more, one of another second shows the next letter. -/
theorem run_one_event_greeting :
    ∃ playback, Playback.new (Script.empty.editAll Script.greeting) .standard ⟨none, none⟩ =
        .ok playback ∧
      let session := Session.run ⟨playback, []⟩ [.start, .tick 1]
      let shown := session.playback.stage.shownChars
      shown = ['H'] ∧
        ¬shown.length < (session.step (.tick 0)).playback.stage.shownChars.length ∧
        shown.length < (session.step (.tick 1)).playback.stage.shownChars.length := by
  have hnew : Playback.new (Script.empty.editAll Script.greeting) .standard ⟨none, none⟩ =
      .ok _ := rfl
  obtain ⟨htick, -⟩ :=
    run_one_event (Script.Reachable.empty.editAll Script.greeting) hnew [.start, .tick 1]
  refine ⟨_, hnew, by decide +kernel, fun hgrows => ?_, ?_⟩
  · obtain ⟨-, -, -, henough⟩ := (htick 0).2.2.2.mp hgrows
    exact absurd henough (by decide +kernel)
  · refine (htick 1).2.2.2.mpr ⟨⟨"Hello", 5, 2⟩, ?_, ?_, ?_⟩ <;> decide +kernel

end Session

end VisualNovel
