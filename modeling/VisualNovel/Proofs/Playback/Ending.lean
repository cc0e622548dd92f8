import VisualNovel.Proofs.Playback.Coherent
import Mathlib.Algebra.GroupWithZero.Nat

/-!
# Every playback comes to its end

Commands are carried out in a loop that may be written in turns (`Playback.turn`); whatever the
playback, it makes a turn for each command ahead at most, and one more to finish
(`Playback.exists_turns`).

What is left to do is measured in rounds of a tick and an advance signal (`Playback.rounds`). A wait
counts one round, a line one for each character and at least one. In a round whose time is enough
for a character and for each wait, one of the two signals gets ahead: the tick, if it ends a wait or
reveals a character other than the last, and else the advance signal, which leaves the line. The
timers are at zero at the beginning of each round (`Playback.Unspent`), so the time of the round
alone is what counts.
-/

namespace VisualNovel

/-! ## What a script takes -/

/-- The rounds that a command can take. -/
def Command.rounds : Command → Nat
  | .wait _ => 1
  | .speak command => max 1 command.text.length
  | _ => 0

namespace Script

/-- The rounds that the commands from a place on can take. -/
def roundsFrom (script : Script) (place : Nat) : Nat :=
  ((script.commands.drop place).map Command.rounds).sum

/-- The rounds that the commands of a script can take: one for each wait, and for each line as many
as it has characters, or one if it is empty. -/
def rounds (script : Script) : Nat := (script.commands.map Command.rounds).sum

variable {script : Script} {place : Nat}

/-- The command at a place comes before those after it. -/
theorem roundsFrom_of {command : Command} (h : script.commands[place]? = some command) :
    script.roundsFrom place = command.rounds + script.roundsFrom (place + 1) := by
  obtain ⟨hlt, rfl⟩ := List.getElem?_eq_some_iff.mp h
  rw [roundsFrom, List.drop_eq_getElem_cons hlt, List.map_cons, List.sum_cons]
  rfl

end Script

/-- One more character of a line is shown, if there is one. -/
theorem Line.hidden_revealOne (line : Line) :
    line.revealOne.charCount - line.revealOne.revealed = line.charCount - line.revealed - 1 := by
  rw [revealOne]
  split
  · next hcomplete =>
    rw [isComplete_iff] at hcomplete
    omega
  · exact (Nat.sub_sub _ _ _).symm

namespace Playback

variable {playback later : Playback}

/-! ## The loop that carries out commands -/

/-- No command that takes time is going on. -/
def Ready (playback : Playback) : Prop := playback.phase = .executing ∧ playback.wait = none

/-- Carries out the command at hand, or finishes after the last one. -/
def turn (playback : Playback) : Playback :=
  match playback.script.commands[playback.place]? with
  | none => playback.finish
  | some (.background command) => (playback.applyBackground command).moveOn
  | some (.sprite command) => (playback.applySprite command).moveOn
  | some (.wait duration) => { playback with wait := some ⟨duration, 0⟩ }
  | some (.speak command) => playback.speak command

/-- Turns are made as long as the playback is ready; `count` of them are, and then the loop is
over. -/
inductive Turns : Nat → Playback → Playback → Prop
  | stop {playback : Playback} : ¬playback.Ready → Turns 0 playback playback
  | turn {count : Nat} {playback later : Playback} :
      playback.Ready → Turns count playback.turn later → Turns (count + 1) playback later

theorem Turns.not_ready {count : Nat} (h : Turns count playback later) : ¬later.Ready := by
  induction h with
  | stop hready => exact hready
  | turn _ _ ih => exact ih

/-- What each turn keeps, the loop keeps. -/
theorem Turns.keeps {count : Nat} (h : Turns count playback later) {P : Playback → Prop}
    (hturn : ∀ {playback : Playback}, playback.Ready → P playback → P playback.turn)
    (hfirst : P playback) : P later := by
  induction h with
  | stop _ => exact hfirst
  | turn hready _ ih => exact ih (hturn hready hfirst)

/-- From a place on, the loop makes one turn for each command at most, and one to finish. -/
theorem exists_turns_dispatch (hready : playback.Ready) {rest : List Command}
    (hrest : playback.script.commands.drop playback.place = rest) :
    ∃ count ≤ rest.length + 1, Turns count playback (playback.dispatch rest) := by
  -- the commands ahead are those from the place on, so the place moves along with the induction
  induction rest generalizing playback with
  | nil =>
    have hturn : playback.turn = playback.finish := by
      rw [turn, List.getElem?_eq_none (List.drop_eq_nil_iff.mp hrest)]
    refine ⟨1, Nat.le_refl 1, .turn hready ?_⟩
    rw [hturn]
    exact .stop fun hfinished => absurd hfinished.1 nofun
  | cons command rest ih =>
    obtain ⟨hcommand, hnext⟩ := Command.ahead hrest
    have hblocked {after : Playback} (hturn : playback.turn = after) (hafter : ¬after.Ready) :
        ∃ count ≤ (command :: rest).length + 1, Turns count playback after := by
      refine ⟨1, Nat.le_add_left 1 _, .turn hready ?_⟩
      rw [hturn]
      exact .stop hafter
    have hmoved {after : Playback} (hturn : playback.turn = after.moveOn)
        (hkept : ∃ stage cues advisories, after = { playback with stage, cues, advisories }) :
        ∃ count ≤ (command :: rest).length + 1,
          Turns count playback (after.moveOn.dispatch rest) := by
      obtain ⟨stage, cues, advisories, rfl⟩ := hkept
      obtain ⟨count, hcount, hturns⟩ :=
        @ih ({ playback with stage, cues, advisories } : Playback).moveOn hready hnext
      refine ⟨count + 1, Nat.succ_le_succ hcount, .turn hready ?_⟩
      rw [hturn]
      exact hturns
    cases command with
    | background command =>
      exact hmoved (by rw [turn, hcommand]) (playback.exists_applyBackground_eq command)
    | sprite command =>
      exact hmoved (by rw [turn, hcommand]) (playback.exists_applySprite_eq command)
    | wait duration =>
      exact hblocked (by rw [turn, hcommand]; rfl) fun hwaiting => absurd hwaiting.2 nofun
    | speak command =>
      exact hblocked (by rw [turn, hcommand]; rfl) fun hspeaking => absurd hspeaking.1 nofun

/-- The loop comes to its end, whatever the commands are and whatever is going on. -/
theorem exists_turns (playback : Playback) :
    ∃ count ≤ playback.script.commands.length - playback.place + 1,
      Turns count playback playback.runUntilBlocked := by
  rw [runUntilBlocked]
  split
  · next hready =>
    rw [← List.length_drop]
    exact exists_turns_dispatch hready rfl
  · next hready => exact ⟨0, Nat.zero_le _, .stop hready⟩

/-! ## What is left to do -/

/-- The characters of the line on stage that are not shown yet. -/
def hidden (playback : Playback) : Nat :=
  playback.stage.line.elim 0 fun line => line.charCount - line.revealed

/-- The rounds that a playback can take before it is finished. While there is more to come this is
one more than what the commands take, for the end is seen only by the loop. -/
def rounds (playback : Playback) : Nat :=
  match playback.phase with
  | .notStarted | .executing => playback.script.roundsFrom playback.place + 1
  | .revealing | .awaitingInput =>
    max 1 playback.hidden + playback.script.roundsFrom (playback.place + 1) + 1
  | .finished => 0

theorem rounds_executing (h : playback.phase = .executing) :
    playback.rounds = playback.script.roundsFrom playback.place + 1 := by
  rw [rounds, h]

theorem rounds_speaking (h : playback.phase = .revealing ∨ playback.phase = .awaitingInput) :
    playback.rounds =
      max 1 playback.hidden + playback.script.roundsFrom (playback.place + 1) + 1 := by
  rcases h with h | h <;> rw [rounds, h]

theorem rounds_finished (h : playback.phase = .finished) : playback.rounds = 0 := by
  rw [rounds, h]

/-- Only what is finished has nothing left to do. -/
theorem phase_of_rounds_eq_zero (h : playback.rounds = 0) : playback.phase = .finished := by
  rw [rounds] at h
  cases hphase : playback.phase with
  | finished => rfl
  | notStarted | executing | revealing | awaitingInput =>
    rw [hphase] at h
    exact absurd h (Nat.succ_ne_zero _)

/-- No time has been spent on the line or the wait at hand. -/
structure Unspent (playback : Playback) : Prop where
  revealTimer : playback.revealTimer = 0
  elapsed : ∀ timer ∈ playback.wait, timer.elapsed = 0

/-- The line being revealed is shown up to some character. -/
def showing (playback : Playback) (line : Line) : Playback :=
  { playback with
    stage := { playback.stage with line := some line }
    revealTimer := 0
    phase := if line.isComplete then .awaitingInput else playback.phase }

theorem hidden_showing (line : Line) :
    (playback.showing line).hidden = line.charCount - line.revealed := rfl

theorem script_showing (line : Line) : (playback.showing line).script = playback.script := rfl

theorem place_showing (line : Line) : (playback.showing line).place = playback.place := rfl

theorem Unspent.showing (h : playback.Unspent) (line : Line) :
    (playback.showing line).Unspent where
  revealTimer := rfl
  elapsed := h.elapsed

theorem phase_showing (hphase : playback.phase = .revealing) (line : Line) :
    line.isComplete ∧ (playback.showing line).phase = .awaitingInput ∨
      ¬line.isComplete ∧ (playback.showing line).phase = .revealing := by
  by_cases hcomplete : line.isComplete
  · exact Or.inl ⟨hcomplete, if_pos hcomplete⟩
  · exact Or.inr ⟨hcomplete, (if_neg hcomplete).trans hphase⟩

/-- If no time was spent yet, a time that is enough for a character reveals the next, if there is
one. -/
theorem reveal_of_enough {line : Line} (hline : playback.stage.line = some line)
    (htimer : playback.revealTimer = 0) {delta : Single}
    (hinterval : playback.settings.charInterval ≤ 0 + delta) :
    playback.reveal delta = playback.showing line.revealOne := by
  rw [reveal, hline, htimer, showing]
  by_cases hcomplete : line.isComplete
  · simp [hcomplete, Line.revealOne]
  · simp [hcomplete, hinterval]

/-- A playback that is started and on which no time has been spent, with so much left to do at
most. -/
structure Left (bound : Nat) (playback : Playback) : Prop where
  started : playback.phase ≠ .notStarted
  unspent : playback.Unspent
  rounds_le : playback.rounds ≤ bound

namespace Left

variable {bound : Nat}

/-- A turn of the loop adds nothing to what is left. -/
theorem turn (hready : playback.Ready) (h : playback.Left bound) : playback.turn.Left bound := by
  have hbound := h.rounds_le
  rw [rounds_executing hready.1] at hbound
  have hmoved {after : Playback} {command : Command}
      (hcommand : playback.script.commands[playback.place]? = some command)
      (hkept : ∃ stage cues advisories, after = { playback with stage, cues, advisories }) :
      after.moveOn.Left bound := by
    obtain ⟨stage, cues, advisories, rfl⟩ := hkept
    refine ⟨h.started, ⟨h.unspent.revealTimer, h.unspent.elapsed⟩, ?_⟩
    rw [Script.roundsFrom_of hcommand] at hbound
    refine Nat.le_trans (Nat.le_of_eq (rounds_executing ?_)) (Nat.le_trans ?_ hbound)
    · exact hready.1
    · exact Nat.succ_le_succ (Nat.le_add_left _ _)
  rw [Playback.turn]
  split
  · exact ⟨nofun, ⟨h.unspent.revealTimer, h.unspent.elapsed⟩, Nat.zero_le _⟩
  · next command hcommand => exact hmoved hcommand (playback.exists_applyBackground_eq command)
  · next command hcommand => exact hmoved hcommand (playback.exists_applySprite_eq command)
  · next duration hcommand =>
    refine ⟨h.started, ⟨h.unspent.revealTimer, ?_⟩, h.rounds_le⟩
    intro timer htimer
    obtain rfl := Option.some.inj htimer
    rfl
  · next command hcommand =>
    refine ⟨nofun, ⟨rfl, h.unspent.elapsed⟩, ?_⟩
    rw [Script.roundsFrom_of hcommand] at hbound
    exact hbound

/-- Carrying out commands adds nothing to what is left, and ends at what takes time. -/
theorem runUntilBlocked (h : playback.Left bound) :
    playback.runUntilBlocked.Left bound ∧ ¬playback.runUntilBlocked.Ready := by
  obtain ⟨count, -, hturns⟩ := playback.exists_turns
  exact ⟨hturns.keeps turn h, hturns.not_ready⟩

section Rounds

variable {script : Script} {settings : Settings}
  (hcoherent : playback.Coherent script settings) (h : playback.Left bound)
include hcoherent h

/-- A time that is enough for each wait ends the wait that is running. -/
theorem waitFor (hphase : playback.phase = .executing) (hblocked : ¬playback.Ready) {delta : Single}
    (hwaits : ∀ duration, .wait duration ∈ script.commands → duration ≤ 0 + delta) :
    (playback.waitFor delta).Left (bound - 1) := by
  have hbound := h.rounds_le
  obtain ⟨timer, htimer⟩ := Option.ne_none_iff_exists'.mp fun hnone => hblocked ⟨hphase, hnone⟩
  obtain ⟨-, hcommand, -⟩ := hcoherent.running htimer
  have hover : timer.duration ≤ timer.elapsed + delta := by
    rw [h.unspent.elapsed timer htimer]
    exact hwaits _ (List.mem_of_getElem? hcommand)
  rw [Playback.waitFor, htimer]
  dsimp only
  rw [if_pos hover]
  rw [← hcoherent.script_eq] at hcommand
  rw [rounds_executing hphase, Script.roundsFrom_of hcommand] at hbound
  have hmoved : ({ playback with wait := none } : Playback).moveOn.Left (bound - 1) := by
    refine ⟨h.started, ⟨h.unspent.revealTimer, Outcome.forall_mem_none⟩, ?_⟩
    refine Nat.le_trans (Nat.le_of_eq (rounds_executing ?_)) (Nat.le_sub_of_add_le ?_)
    · exact hphase
    · show playback.script.roundsFrom (playback.place + 1) + 1 + 1 ≤ bound
      rw [Command.rounds] at hbound
      omega
  exact hmoved.runUntilBlocked.1

/-- A time that is enough for a character reveals one more, if there is one. After the last the line
is shown, and what is left to do is up to the player. -/
theorem reveal (hphase : playback.phase = .revealing) {delta : Single}
    (hinterval : settings.charInterval ≤ 0 + delta) :
    (playback.reveal delta).Left (bound - 1) ∨
      (playback.reveal delta).Left bound ∧ (playback.reveal delta).phase = .awaitingInput := by
  have hbound := h.rounds_le
  obtain ⟨line, ⟨hline, -, -⟩, -⟩ := hcoherent.uttered (Or.inl hphase)
  rw [rounds_speaking (Or.inl hphase), hidden, hline] at hbound
  rw [← hcoherent.settings_eq] at hinterval
  rw [reveal_of_enough hline h.unspent.revealTimer hinterval]
  have hphaseShowing := phase_showing hphase line.revealOne
  have hunspent := h.unspent.showing line.revealOne
  have hrounds : (playback.showing line.revealOne).rounds =
      max 1 (line.charCount - line.revealed - 1) +
        playback.script.roundsFrom (playback.place + 1) + 1 := by
    rw [rounds_speaking (hphaseShowing.symm.imp And.right And.right), hidden_showing,
      line.hidden_revealOne, script_showing, place_showing]
  change max 1 (line.charCount - line.revealed) + _ + 1 ≤ bound at hbound
  rcases hphaseShowing with ⟨hcomplete, hshown⟩ | ⟨hmore, hrevealing⟩
  · refine Or.inr ⟨⟨hshown ▸ nofun, hunspent, ?_⟩, hshown⟩
    omega
  · refine Or.inl ⟨hrevealing ▸ nofun, hunspent, ?_⟩
    rw [Line.isComplete_iff] at hmore
    have hhidden := line.hidden_revealOne
    omega

/-- Time gets a playback ahead by one round, unless a line is shown and only the player can. -/
theorem spend (hblocked : ¬playback.Ready) {delta : Single}
    (hinterval : settings.charInterval ≤ 0 + delta)
    (hwaits : ∀ duration, .wait duration ∈ script.commands → duration ≤ 0 + delta) :
    (playback.spend delta).Left (bound - 1) ∨
      (playback.spend delta).Left bound ∧ (playback.spend delta).phase = .awaitingInput := by
  rw [Playback.spend]
  cases hphase : playback.phase with
  | notStarted => exact absurd hphase h.started
  | executing => exact Or.inl (waitFor hcoherent h hphase hblocked hwaits)
  | revealing => exact reveal hcoherent h hphase hinterval
  | awaitingInput => exact Or.inr ⟨h, hphase⟩
  | finished =>
    refine Or.inl ⟨h.started, h.unspent, ?_⟩
    rw [rounds_finished hphase]
    exact Nat.zero_le _

end Rounds

theorem mono {larger : Nat} (h : playback.Left bound) (hle : bound ≤ larger) :
    playback.Left larger :=
  ⟨h.started, h.unspent, Nat.le_trans h.rounds_le hle⟩

/-- Leaving a line that is shown gets a playback ahead by one round. -/
theorem leaveLine (h : playback.Left bound) (hphase : playback.phase = .awaitingInput) :
    playback.leaveLine.Left (bound - 1) := by
  have hbound := h.rounds_le
  rw [rounds_speaking (Or.inr hphase)] at hbound
  rw [leaveLine_eq]
  by_cases hlast : playback.script.commands.length ≤ playback.place + 1
  · rw [if_pos hlast]
    have hfinished : Phase.finished ≠ .notStarted := by decide
    exact ⟨hfinished, ⟨h.unspent.revealTimer, h.unspent.elapsed⟩, Nat.zero_le _⟩
  · rw [if_neg hlast]
    have hexecuting : Phase.executing ≠ .notStarted := by decide
    refine ⟨hexecuting, ⟨h.unspent.revealTimer, h.unspent.elapsed⟩, ?_⟩
    show playback.script.roundsFrom (playback.place + 1) + 1 ≤ bound - 1
    omega

/-- Completing a line adds nothing to what is left. -/
theorem completeLine (h : playback.Left bound) (hphase : playback.phase = .revealing) :
    playback.completeLine.Left bound := by
  have hbound := h.rounds_le
  rw [rounds_speaking (Or.inl hphase)] at hbound
  have hshown : playback.completeLine.phase = .awaitingInput := rfl
  have hhidden : playback.completeLine.hidden = 0 := by
    rw [hidden, Playback.completeLine]
    cases playback.stage.line with
    | none => rfl
    | some line => exact Nat.sub_self _
  refine ⟨?_, ⟨rfl, h.unspent.elapsed⟩, ?_⟩
  · rw [hshown]
    decide
  · rw [rounds_speaking (Or.inr hshown), hhidden]
    change max 1 0 + playback.script.roundsFrom (playback.place + 1) + 1 ≤ bound
    omega

/-- An advance signal adds nothing to what is left, and gets a playback ahead by one round if a line
is shown. -/
theorem advance (h : playback.Left bound) : playback.advance.2.Left bound ∧
    (playback.phase = .awaitingInput → playback.advance.2.Left (bound - 1)) := by
  cases hphase : playback.phase with
  | awaitingInput =>
    have hleft := h.leaveLine hphase
    rw [Playback.advance, hphase]
    exact ⟨hleft.mono (Nat.sub_le _ _), fun _ => hleft⟩
  | revealing =>
    refine ⟨?_, fun hawaiting => absurd hawaiting (by decide)⟩
    rw [Playback.advance, hphase]
    dsimp only
    split
    · exact h
    · exact h.completeLine hphase
  | notStarted | executing | finished =>
    rw [Playback.advance, hphase]
    exact ⟨h, fun hawaiting => absurd hawaiting (by decide)⟩

/-- Of a tick and an advance signal, one gets a playback ahead. -/
theorem round {script : Script} {settings : Settings} (hsound : script.Sound)
    (hinterval : 0 < settings.charInterval) (hcoherent : playback.Coherent script settings)
    (h : playback.Left bound) {delta : Single} (husable : delta.isFinite ∧ 0 < delta)
    (hcharacter : settings.charInterval ≤ 0 + delta)
    (hwaits : ∀ duration, .wait duration ∈ script.commands → duration ≤ 0 + delta) :
    (playback.tick delta).2.advance.2.Left (bound - 1) := by
  have hplayed : (playback.tick delta).2.Left (bound - 1) ∨
      (playback.tick delta).2.Left bound ∧ (playback.tick delta).2.phase = .awaitingInput := by
    rw [Playback.tick]
    split
    · next hphase => exact absurd hphase h.started
    · next hphase =>
      refine Or.inl ⟨h.started, h.unspent, ?_⟩
      rw [rounds_finished hphase]
      exact Nat.zero_le _
    · obtain ⟨hleft, hblocked⟩ := h.runUntilBlocked
      rw [usableDelta, if_pos husable]
      exact spend (hcoherent.runUntilBlocked hsound hinterval) hleft hblocked hcharacter hwaits
  rcases hplayed with hahead | ⟨hleft, hphase⟩
  · exact hahead.advance.1
  · exact hleft.advance.2 hphase

end Left

/-- A start leaves all commands to do, and one round to see the end. -/
theorem left_start (playback : Playback) : playback.start.Left (playback.script.rounds + 1) := by
  obtain ⟨_, _, ⟨background, music⟩, _, _, _, _, _, _, _⟩ := playback
  cases background <;> cases music <;>
    exact ⟨nofun, ⟨rfl, Outcome.forall_mem_none⟩, Nat.le_refl _⟩

end Playback

/-! ## Sessions -/

/-- A tick of some time, and a signal that the player asks for the next line. -/
def Signal.round (delta : Single) : List Signal := [.tick delta, .advance]

namespace Session

/-- Each round gets a playback ahead, until nothing is left. -/
theorem left_rounds {script : Script} {settings : Settings} (hsound : script.Sound)
    (huntouched : script.sprites.Untouched) (hinterval : 0 < settings.charInterval)
    {session : Session} (hcoherent : session.playback.Coherent script settings) {bound : Nat}
    (h : session.playback.Left bound) {deltas : List Single}
    (hdeltas : ∀ delta ∈ deltas, (delta.isFinite ∧ 0 < delta) ∧ settings.charInterval ≤ 0 + delta ∧
      ∀ duration, .wait duration ∈ script.commands → duration ≤ 0 + delta) :
    (session.run (deltas.flatMap Signal.round)).playback.Left (bound - deltas.length) := by
  induction deltas generalizing session bound with
  | nil => exact h
  | cons delta deltas ih =>
    obtain ⟨⟨husable, hcharacter, hwaits⟩, hrest⟩ := List.forall_mem_cons.mp hdeltas
    have hlater := coherent_run hsound huntouched hinterval hcoherent (Signal.round delta)
    have hround := h.round hsound hinterval hcoherent husable hcharacter hwaits
    rw [List.length_cons, Nat.add_comm, ← Nat.sub_sub]
    exact ih hlater hround hrest

/-- A playback comes to its end in as many rounds as its waits and its characters take, and one
more: if it is started, after whatever signals, and each round is a tick and then an advance signal,
where the time of the tick, taken by itself, is enough for a character and for each wait, then it is
finished, whether advance signals complete a line or not. And on no playback does the loop that
carries out commands make more turns than there are commands ahead, but for the last one. -/
theorem run_finished {script : Script} (hreachable : script.Reachable) {settings : Settings}
    {opening : Opening} {playback : Playback}
    (hnew : Playback.new script settings opening = .ok playback) (before : List Signal)
    {deltas : List Single}
    (hlength : (script.commands.map Command.rounds).sum + 1 ≤ deltas.length)
    (hdeltas : ∀ delta ∈ deltas, (delta.isFinite ∧ 0 < delta) ∧ settings.charInterval ≤ 0 + delta ∧
      ∀ duration, .wait duration ∈ script.commands → duration ≤ 0 + delta) :
    (Session.run ⟨playback, []⟩ (before ++ .start :: deltas.flatMap Signal.round)).playback.phase =
        .finished ∧
      ∀ other : Playback, ∃ count ≤ other.script.commands.length - other.place + 1,
        Playback.Turns count other other.runUntilBlocked := by
  refine ⟨?_, Playback.exists_turns⟩
  obtain ⟨hinterval, hfresh⟩ := Playback.coherent_of_new hreachable.untouched hnew
  have hbefore : (Session.run ⟨playback, []⟩ before).playback.Coherent script settings :=
    coherent_run hreachable.sound hreachable.untouched hinterval hfresh before
  have hstarted := coherent_step hreachable.sound hreachable.untouched hinterval hbefore .start
  have hleft := (Session.run ⟨playback, []⟩ before).playback.left_start
  rw [hbefore.script_eq] at hleft
  have hend := left_rounds hreachable.sound hreachable.untouched hinterval hstarted hleft hdeltas
  have hrun : Session.run ⟨playback, []⟩ (before ++ .start :: deltas.flatMap Signal.round) =
      ((Session.run ⟨playback, []⟩ before).step .start).run (deltas.flatMap Signal.round) :=
    List.foldl_append
  rw [hrun]
  apply Playback.phase_of_rounds_eq_zero
  have hrounds := hend.rounds_le
  rw [Script.rounds, Nat.sub_eq_zero_of_le hlength] at hrounds
  exact Nat.le_zero.mp hrounds

/-- The greeting has five characters to reveal and a wait of one second, and is finished after seven
rounds of a second. -/
theorem run_finished_greeting :
    ∃ playback, Playback.new (Script.empty.editAll Script.greeting) .standard ⟨none, none⟩ =
        .ok playback ∧
      ((Script.empty.editAll Script.greeting).commands.map Command.rounds).sum = 6 ∧
      (Session.run ⟨playback, []⟩
        (.start :: (List.replicate 7 1).flatMap Signal.round)).playback.phase = .finished := by
  have hnew : Playback.new (Script.empty.editAll Script.greeting) .standard ⟨none, none⟩ =
      .ok _ := rfl
  have hrounds : ((Script.empty.editAll Script.greeting).commands.map Command.rounds).sum = 6 := by
    decide +kernel
  -- the only command of one round is the wait
  have hwaits : (Script.empty.editAll Script.greeting).commands.all fun command =>
      command = .wait 1 ∨ command.rounds ≠ 1 := by
    decide +kernel
  have hdeltas : ∀ delta ∈ List.replicate 7 (1 : Single), (delta.isFinite ∧ 0 < delta) ∧
      Settings.standard.charInterval ≤ 0 + delta ∧
        ∀ duration, .wait duration ∈ (Script.empty.editAll Script.greeting).commands →
          duration ≤ 0 + delta := by
    intro delta hdelta
    obtain rfl := List.eq_of_mem_replicate hdelta
    refine ⟨by decide +kernel, by decide +kernel, fun duration hduration => ?_⟩
    obtain hwait | hlonger := of_decide_eq_true (List.all_eq_true.mp hwaits _ hduration)
    · obtain rfl := Command.wait.inj hwait
      decide +kernel
    · exact absurd rfl hlonger
  have hfinished := run_finished (Script.Reachable.empty.editAll Script.greeting) hnew [] (by
    rw [hrounds]
    decide) hdeltas
  exact ⟨_, hnew, hrounds, hfinished.1⟩

end Session

end VisualNovel
