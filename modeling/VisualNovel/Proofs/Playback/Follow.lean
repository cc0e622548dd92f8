import VisualNovel.Playback.Frame
import VisualNovel.Proofs.Playback.Fold
import VisualNovel.Proofs.Script.History

/-!
# Playback follows the commands

A session is a playback together with the cues that the host has taken from it since it was last
started. Whatever signals are sent, once a session has started its stage and its cues are those that
the commands before the current place add up to, and the voice is that of the lines begun so far
(`Session.run_eq_fold`).

The invariant is `Follows`. Beside the three folds it says what command is at hand while a line is
shown or a wait is running; this is what lets the place move on past lines and waits, which change
nothing else.
-/

namespace VisualNovel

namespace Playback

/-- A line is being revealed or shown. -/
def speaking (playback : Playback) : Bool :=
  playback.phase = .revealing ∨ playback.phase = .awaitingInput

/-- The commands before the place. -/
def done (playback : Playback) : List Command := playback.script.commands.take playback.place

/-- The commands begun so far, when waits do not count: those before the place, and the one whose
line is being revealed or shown. -/
def begun (playback : Playback) : List Command :=
  playback.done ++
    if playback.speaking then playback.script.commands[playback.place]?.toList else []

variable {playback : Playback}

theorem done_moveOn {command : Command}
    (h : playback.script.commands[playback.place]? = some command) :
    playback.moveOn.done = playback.done ++ [command] := by
  change playback.script.commands.take (playback.place + 1) = _
  rw [List.take_add_one, h]
  rfl

theorem begun_of_quiet (h : playback.speaking = false) : playback.begun = playback.done := by
  rw [begun, h, if_neg Bool.false_ne_true, List.append_nil]

theorem begun_of_speaking (h : playback.speaking = true) {command : Command}
    (hcommand : playback.script.commands[playback.place]? = some command) :
    playback.begun = playback.done ++ [command] := by
  rw [begun, h, if_pos rfl, hcommand]
  rfl

/-- While commands are carried out, no line is shown. -/
theorem speaking_of_executing (h : playback.phase = .executing) : playback.speaking = false := by
  simp [speaking, h]

theorem started_of_speaking (h : playback.speaking = true) : playback.phase ≠ .notStarted := by
  rintro heq
  simp [speaking, heq] at h

/-- A line that is being revealed stays, whether it is complete now or not. -/
theorem speaking_reveal (h : playback.phase = .revealing) (delta : Single) :
    (playback.reveal delta).speaking = true := by
  have hphase (complete : Bool) : (if complete then Phase.awaitingInput else playback.phase) =
      .revealing ∨ (if complete then Phase.awaitingInput else playback.phase) = .awaitingInput := by
    cases complete with
    | false => exact Or.inl h
    | true => exact Or.inr rfl
  rw [speaking, decide_eq_true_iff, reveal]
  cases playback.stage.line with
  | none => exact Or.inr rfl
  | some line => exact hphase _

end Playback

/-! ## The invariant -/

/-- A started playback is where the commands before its place have led. -/
structure Follows (script : Script) (opening : Opening) (taken : List Cue) (playback : Playback) :
    Prop where
  script_eq : playback.script = script
  opening_eq : playback.opening = opening
  started : playback.phase ≠ .notStarted
  waiting : playback.wait ≠ none →
    ∃ duration, playback.script.commands[playback.place]? = some (.wait duration)
  speaking : playback.speaking →
    ∃ command, playback.script.commands[playback.place]? = some (.speak command)
  scenery : playback.stage.scenery =
    playback.done.foldl (Scenery.after script) (.opening script opening)
  voice : playback.stage.voice = playback.begun.foldl Voice.after .silent
  cues : taken ++ playback.cues = opening.cues ++ playback.done.flatMap (Command.cues script)

namespace Follows

variable {script : Script} {opening : Opening} {taken : List Cue} {playback : Playback}

/-- There is one sprite on stage for each entry of the pool. -/
theorem length_sprites (h : Follows script opening taken playback) :
    playback.stage.sprites.length = script.sprites.size := by
  have hsprites := congrArg (·.sprites.length) h.scenery
  rw [Scenery.length_sprites_foldl, Scenery.opening, List.length_map] at hsprites
  exact hsprites

/-- No wait runs while a line is shown. -/
theorem wait_eq_none (h : Follows script opening taken playback) (hspeaking : playback.speaking) :
    playback.wait = none := by
  by_contra hwait
  obtain ⟨duration, hduration⟩ := h.waiting hwait
  obtain ⟨command, hcommand⟩ := h.speaking hspeaking
  rw [hduration] at hcommand
  exact absurd hcommand nofun

/-- The place moves on past a command, once it has had its effect. -/
theorem bringOn_moveOn (h : Follows script opening taken playback)
    (hphase : playback.phase = .executing) (hwait : playback.wait = none) {command : Command}
    (hcommand : script.commands[playback.place]? = some command)
    (hvoice : ∀ voice : Voice, voice.after command = voice) :
    Follows script opening taken
      (playback.bringOn (playback.stage.scenery.after script command)
        (command.cues script)).moveOn := by
  have hquiet : playback.speaking = false := Playback.speaking_of_executing hphase
  rw [← h.script_eq] at hcommand
  -- the later playback stays closed, and its fields are looked up only where they matter
  generalize hlater : (playback.bringOn (playback.stage.scenery.after script command)
    (command.cues script)).moveOn = later
  have hdone : later.done = playback.done ++ [command] :=
    hlater ▸ Playback.done_moveOn hcommand
  have hlaterQuiet : later.speaking = false := hlater ▸ hquiet
  constructor
  case script_eq => exact hlater ▸ h.script_eq
  case opening_eq => exact hlater ▸ h.opening_eq
  case started => exact hlater ▸ h.started
  case waiting =>
    intro hne
    exact absurd (hlater ▸ hwait) hne
  case speaking =>
    intro hspeaking
    exact absurd (hlaterQuiet.symm.trans hspeaking) nofun
  case scenery =>
    rw [hdone, List.foldl_append, ← h.scenery, ← hlater]
    rfl
  case voice =>
    have hvoiceEq := h.voice
    rw [Playback.begun_of_quiet hquiet] at hvoiceEq
    rw [Playback.begun_of_quiet hlaterQuiet, hdone, List.foldl_append, ← hvoiceEq, ← hlater]
    exact (hvoice _).symm
  case cues =>
    rw [hdone, List.flatMap_append, List.flatMap_singleton, ← List.append_assoc, ← h.cues,
      List.append_assoc, ← hlater]
    rfl

/-! ## Steps -/

/-- What is not yet done may change: a wait may run on or end, and a line may be revealed. -/
theorem of_same_stage (h : Follows script opening taken playback) {later : Playback}
    (hscript : later.script = playback.script) (hopening : later.opening = playback.opening)
    (hstarted : later.phase ≠ .notStarted) (hplace : later.place = playback.place)
    (hwaiting : later.wait ≠ none →
      ∃ duration, playback.script.commands[playback.place]? = some (.wait duration))
    (hspeaking : later.speaking = playback.speaking)
    (hscenery : later.stage.scenery = playback.stage.scenery)
    (hvoice : later.stage.voice = playback.stage.voice) (hcues : later.cues = playback.cues) :
    Follows script opening taken later := by
  have hdone : later.done = playback.done := by
    rw [Playback.done, Playback.done, hscript, hplace]
  have hbegun : later.begun = playback.begun := by
    rw [Playback.begun, Playback.begun, hdone, hspeaking, hscript, hplace]
  constructor
  case script_eq => exact hscript.trans h.script_eq
  case opening_eq => exact hopening.trans h.opening_eq
  case started => exact hstarted
  case waiting => rwa [hscript, hplace]
  case speaking => rw [hspeaking, hscript, hplace]; exact h.speaking
  case scenery => rw [hscenery, hdone]; exact h.scenery
  case voice => rw [hvoice, hbegun]; exact h.voice
  case cues => rw [hcues, hdone]; exact h.cues

/-- A line begins: the voice is its speaker's, though its command is not yet done. -/
theorem speak (h : Follows script opening taken playback) (hphase : playback.phase = .executing)
    (hwait : playback.wait = none) {command : SpeakCommand}
    (hcommand : playback.script.commands[playback.place]? = some (.speak command)) :
    Follows script opening taken (playback.speak command) := by
  have hvoice := h.voice
  rw [Playback.begun_of_quiet (Playback.speaking_of_executing hphase)] at hvoice
  constructor
  case script_eq => exact h.script_eq
  case opening_eq => exact h.opening_eq
  case started => exact nofun
  case waiting => exact fun hne => absurd hwait hne
  case speaking => exact fun _ => ⟨command, hcommand⟩
  case scenery => exact h.scenery
  case voice =>
    have hbegun : (playback.speak command).begun = playback.done ++ [.speak command] :=
      Playback.begun_of_speaking rfl hcommand
    rw [hbegun, List.foldl_append, ← hvoice]
    rfl
  case cues => exact h.cues

/-- Commands are carried out up to the first that takes time. -/
theorem dispatch (hadmitted : ∀ command ∈ script.commands, script.Admits command)
    (h : Follows script opening taken playback) (hphase : playback.phase = .executing)
    (hwait : playback.wait = none) {rest : List Command}
    (hrest : script.commands.drop playback.place = rest) :
    Follows script opening taken (playback.dispatch rest) := by
  -- the commands ahead are those from the place on, so the place moves along with the induction
  induction rest generalizing playback with
  | nil =>
    refine h.of_same_stage rfl rfl nofun rfl h.waiting ?_ rfl rfl rfl
    exact (Playback.speaking_of_executing hphase).symm
  | cons command rest ih =>
    obtain ⟨hcommand, hnext⟩ := Command.ahead hrest
    have hadmits : script.Admits command := hadmitted command (List.mem_of_getElem? hcommand)
    cases command with
    | background command =>
      rw [Playback.dispatch, Playback.applyBackground_eq (h.script_eq ▸ hadmits), h.script_eq]
      exact ih (h.bringOn_moveOn hphase hwait hcommand fun _ => rfl) hphase hwait hnext
    | sprite command =>
      rw [Playback.dispatch, Playback.applySprite_eq (h.length_sprites ▸ hadmits.1), h.script_eq]
      exact ih (h.bringOn_moveOn hphase hwait hcommand fun _ => rfl) hphase hwait hnext
    | wait duration =>
      rw [← h.script_eq] at hcommand
      exact h.of_same_stage rfl rfl h.started rfl (fun _ => ⟨duration, hcommand⟩) rfl rfl rfl rfl
    | speak command =>
      rw [← h.script_eq] at hcommand
      exact h.speak hphase hwait hcommand

theorem runUntilBlocked (hadmitted : ∀ command ∈ script.commands, script.Admits command)
    (h : Follows script opening taken playback) :
    Follows script opening taken playback.runUntilBlocked := by
  rw [Playback.runUntilBlocked]
  split
  · next hready => exact h.dispatch hadmitted hready.1 hready.2 (by rw [h.script_eq])
  · exact h

/-- A line is revealed a little further; its voice stays. -/
theorem reveal (h : Follows script opening taken playback) (hphase : playback.phase = .revealing)
    (delta : Single) : Follows script opening taken (playback.reveal delta) := by
  have hspeaking : playback.speaking = true := by simp [Playback.speaking, hphase]
  have hlater : (playback.reveal delta).speaking = true := Playback.speaking_reveal hphase delta
  have hstarted := Playback.started_of_speaking hlater
  rw [← hspeaking] at hlater
  have hwait : playback.wait = none := h.wait_eq_none hspeaking
  rw [Playback.reveal] at hlater hstarted ⊢
  cases hline : playback.stage.line with
  | none =>
    rw [hline] at hlater hstarted
    exact h.of_same_stage rfl rfl hstarted rfl (fun hne => absurd hwait hne) hlater rfl rfl rfl
  | some line =>
    rw [hline] at hlater hstarted
    exact h.of_same_stage rfl rfl hstarted rfl (fun hne => absurd hwait hne) hlater rfl rfl rfl

/-- A wait runs on, or ends and is done. -/
theorem waitFor (hadmitted : ∀ command ∈ script.commands, script.Admits command)
    (h : Follows script opening taken playback) (hphase : playback.phase = .executing)
    (delta : Single) : Follows script opening taken (playback.waitFor delta) := by
  rw [Playback.waitFor]
  cases hwait : playback.wait with
  | none => exact h
  | some timer =>
    obtain ⟨duration, hduration⟩ := h.waiting (hwait ▸ nofun)
    dsimp only
    split
    · have hover : Follows script opening taken { playback with wait := none } :=
        h.of_same_stage rfl rfl h.started rfl (fun hne => absurd rfl hne) rfl rfl rfl rfl
      -- a wait has no effect, so to move on past it is to bring on what is there already
      have hmoved := hover.bringOn_moveOn hphase rfl (h.script_eq ▸ hduration) fun _ => rfl
      have hsame : ({ playback with wait := none } : Playback).bringOn _ _ = _ :=
        Playback.bringOn_nil { playback with wait := none }
      rw [Scenery.after, Command.cues, hsame] at hmoved
      exact hmoved.runUntilBlocked hadmitted
    · exact h.of_same_stage rfl rfl h.started rfl (fun _ => ⟨duration, hduration⟩) rfl rfl rfl rfl

/-- Time passes for whatever takes time. -/
theorem tick (hadmitted : ∀ command ∈ script.commands, script.Admits command)
    (h : Follows script opening taken playback) (delta : Single) :
    Follows script opening taken (playback.tick delta).2 := by
  have hrun := h.runUntilBlocked hadmitted
  rw [Playback.tick_eq_spend, Playback.spend]
  split
  · next hphase => exact hrun.reveal hphase _
  · next hphase => exact hrun.waitFor hadmitted hphase _
  · exact hrun

/-- A line is left, and its command is done. -/
theorem leaveLine (h : Follows script opening taken playback)
    (hphase : playback.phase = .awaitingInput) :
    Follows script opening taken playback.leaveLine := by
  have hspeaking : playback.speaking = true := by simp [Playback.speaking, hphase]
  obtain ⟨command, hcommand⟩ := h.speaking hspeaking
  -- the line counted among those begun while it was shown, so the voice stays when it is done
  have hleft (phase : Phase) (hstarted : phase ≠ .notStarted) (hrevealing : phase ≠ .revealing)
      (hawaiting : phase ≠ .awaitingInput) :
      Follows script opening taken
        { playback with
          stage := { playback.stage with line := none }
          place := playback.place + 1
          phase } := by
    have hquiet (later : Playback) (heq : later.phase = phase) : later.speaking = false := by
      simp [Playback.speaking, heq, hrevealing, hawaiting]
    generalize hlater : ({ playback with
      stage := { playback.stage with line := none }
      place := playback.place + 1
      phase } : Playback) = later
    have hdone : later.done = playback.done ++ [.speak command] :=
      hlater ▸ Playback.done_moveOn hcommand
    have hlaterQuiet : later.speaking = false := hquiet later (hlater ▸ rfl)
    constructor
    case script_eq => exact hlater ▸ h.script_eq
    case opening_eq => exact hlater ▸ h.opening_eq
    case started => exact hlater ▸ hstarted
    case waiting =>
      intro hne
      exact absurd (hlater ▸ h.wait_eq_none hspeaking) hne
    case speaking =>
      intro hspeaking
      exact absurd (hlaterQuiet.symm.trans hspeaking) nofun
    case scenery =>
      rw [hdone, List.foldl_append, ← h.scenery, ← hlater]
      rfl
    case voice =>
      rw [Playback.begun_of_quiet hlaterQuiet, hdone,
        ← Playback.begun_of_speaking hspeaking hcommand, ← h.voice, ← hlater]
      rfl
    case cues =>
      rw [hdone, List.flatMap_append, ← List.append_assoc, ← h.cues, ← hlater]
      exact (List.append_nil _).symm
  rw [Playback.leaveLine]
  dsimp only
  split
  · exact hleft .finished nofun nofun nofun
  · exact hleft .executing nofun nofun nofun

/-- The rest of a line is revealed at once. -/
theorem completeLine (h : Follows script opening taken playback)
    (hphase : playback.phase = .revealing) :
    Follows script opening taken playback.completeLine := by
  have hspeaking : playback.speaking = true := by simp [Playback.speaking, hphase]
  have hwait : playback.wait = none := h.wait_eq_none hspeaking
  exact h.of_same_stage rfl rfl nofun rfl (fun hne => absurd hwait hne) hspeaking.symm rfl rfl rfl

theorem advance (h : Follows script opening taken playback) :
    Follows script opening taken playback.advance.2 := by
  rw [Playback.advance]
  split
  · next hphase => exact h.leaveLine hphase
  · next hphase =>
    split
    · exact h
    · exact h.completeLine hphase
  · exact h

/-- The host takes the cues: they are pending no more. -/
theorem drain (h : Follows script opening taken playback) :
    Follows script opening (taken ++ playback.cues) { playback with cues := [] } where
  script_eq := h.script_eq
  opening_eq := h.opening_eq
  started := h.started
  waiting := h.waiting
  speaking := h.speaking
  scenery := h.scenery
  voice := h.voice
  cues := by
    rw [List.append_nil]
    exact h.cues

/-- Starting forgets what was done, whatever was going on. -/
theorem start (playback : Playback) :
    Follows playback.script playback.opening [] playback.start := by
  obtain ⟨script, settings, ⟨background, music⟩, phase, place, wait, timer, stage, cues, notes⟩ :=
    playback
  -- image and track of the opening give a cue each, if they are there
  cases background <;> cases music <;>
    exact ⟨rfl, rfl, nofun, fun h => absurd rfl h, nofun, rfl, rfl, rfl⟩

end Follows

/-! ## Sessions -/

/-- What a host does with a playback. -/
inductive Signal where
  | start
  | tick (delta : Single)
  | advance
  | drain
  | present
  | frame
  deriving DecidableEq

/-- A playback, and the cues that were taken from it since it was last started. -/
structure Session where
  playback : Playback
  taken : List Cue

namespace Session

/-- A session after a signal. Presenting takes the cues just as draining does, and a frame is only
looked at. -/
def step (session : Session) : Signal → Session
  | .start => ⟨session.playback.start, []⟩
  | .tick delta => ⟨(session.playback.tick delta).2, session.taken⟩
  | .advance => ⟨session.playback.advance.2, session.taken⟩
  | .drain => ⟨session.playback.drain.2, session.taken ++ session.playback.drain.1⟩
  | .present => ⟨session.playback.present.2, session.taken ++ session.playback.cues⟩
  | .frame => session

/-- A session after signals, one after the other. -/
def run (session : Session) (signals : List Signal) : Session := signals.foldl step session

/-- A playback that was never started, of a script and an opening. -/
structure Idle (script : Script) (opening : Opening) (session : Session) : Prop where
  script_eq : session.playback.script = script
  opening_eq : session.playback.opening = opening
  phase_eq : session.playback.phase = .notStarted

variable {script : Script} {opening : Opening} {session : Session}

/-- Before it is started a playback does nothing. -/
theorem Idle.step (h : Idle script opening session) {signal : Signal} (hsignal : signal ≠ .start) :
    Idle script opening (session.step signal) := by
  cases signal with
  | start => exact absurd rfl hsignal
  | tick delta =>
    rw [Session.step, Playback.tick, h.phase_eq]
    exact h
  | advance =>
    rw [Session.step, Playback.advance, h.phase_eq]
    exact h
  | drain => exact ⟨h.script_eq, h.opening_eq, h.phase_eq⟩
  | present => exact ⟨h.script_eq, h.opening_eq, h.phase_eq⟩
  | frame => exact h

/-- Nor does it queue anything. -/
theorem Idle.quiet_step (h : Idle script opening session) (hcues : session.playback.cues = [])
    {signal : Signal} (hsignal : signal ≠ .start) :
    (session.step signal).playback.cues = [] ∧ (session.step signal).taken = session.taken := by
  have htaken : session.taken ++ session.playback.cues = session.taken := by
    rw [hcues, List.append_nil]
  cases signal with
  | start => exact absurd rfl hsignal
  | tick delta =>
    rw [Session.step, Playback.tick, h.phase_eq]
    exact ⟨hcues, rfl⟩
  | advance =>
    rw [Session.step, Playback.advance, h.phase_eq]
    exact ⟨hcues, rfl⟩
  | drain => exact ⟨rfl, htaken⟩
  | present => exact ⟨rfl, htaken⟩
  | frame => exact ⟨hcues, rfl⟩

theorem idle_run (h : Idle script opening session) {signals : List Signal}
    (hstart : .start ∉ signals) : Idle script opening (session.run signals) := by
  induction signals generalizing session with
  | nil => exact h
  | cons signal signals ih =>
    rw [List.mem_cons, not_or] at hstart
    exact ih (h.step (Ne.symm hstart.1)) hstart.2

/-- Each signal keeps a started playback where its commands have led. -/
theorem follows_step (hadmitted : ∀ command ∈ script.commands, script.Admits command)
    (h : Follows script opening session.taken session.playback) (signal : Signal) :
    Follows script opening (session.step signal).taken (session.step signal).playback := by
  cases signal with
  | start =>
    have hstart := Follows.start session.playback
    rw [h.script_eq, h.opening_eq] at hstart
    exact hstart
  | tick delta => exact h.tick hadmitted delta
  | advance => exact h.advance
  | drain => exact h.drain
  | present => exact h.drain
  | frame => exact h

theorem follows_run (hadmitted : ∀ command ∈ script.commands, script.Admits command)
    (h : Follows script opening session.taken session.playback) (signals : List Signal) :
    Follows script opening (session.run signals).taken (session.run signals).playback := by
  induction signals generalizing session with
  | nil => exact h
  | cons signal signals ih => exact ih (follows_step hadmitted h signal)

/-- Once there was a start among the signals, the playback is where its commands have led. -/
theorem follows_of_start_mem (hadmitted : ∀ command ∈ script.commands, script.Admits command)
    (h : Idle script opening session) {signals : List Signal} (hstart : .start ∈ signals) :
    Follows script opening (session.run signals).taken (session.run signals).playback := by
  induction signals generalizing session with
  | nil => exact absurd hstart List.not_mem_nil
  | cons signal signals ih =>
    by_cases hsignal : signal = .start
    -- the first start sets the invariant up, whatever signals came before
    · subst hsignal
      refine follows_run hadmitted ?_ signals
      have hfollows := Follows.start session.playback
      rw [h.script_eq, h.opening_eq] at hfollows
      exact hfollows
    · refine ih (h.step hsignal) ((List.mem_cons.mp hstart).resolve_left ?_)
      exact fun heq => hsignal heq.symm

/-- What is started is where its commands have led. -/
theorem follows_of_started (hadmitted : ∀ command ∈ script.commands, script.Admits command)
    (h : Idle script opening session) {signals : List Signal}
    (hphase : (session.run signals).playback.phase ≠ .notStarted) :
    Follows script opening (session.run signals).taken (session.run signals).playback := by
  by_cases hstart : .start ∈ signals
  · exact follows_of_start_mem hadmitted h hstart
  · exact absurd (idle_run h hstart).phase_eq hphase

end Session

/-- A new playback is not started. -/
theorem Playback.idle_of_new {script : Script} {settings : Settings} {opening : Opening}
    {playback : Playback} (h : Playback.new script settings opening = .ok playback) :
    Session.Idle script opening ⟨playback, []⟩ := by
  simp only [Playback.new, Outcome.bind_eq_ok, Outcome.exists_unit, Outcome.pure_eq_ok] at h
  obtain ⟨-, rfl⟩ := h
  exact ⟨rfl, rfl, rfl⟩

/-- Playing a script is folding over it: after any signals, and a start among them, the scenery is
what the commands before the place make of the opening, the voice is that of the lines among these
and of the one being shown, and the cues taken since the last start and those still pending are the
opening's and those of these commands, in order. -/
theorem Session.run_eq_fold {script : Script} (hreachable : script.Reachable) {settings : Settings}
    {opening : Opening} {playback : Playback}
    (hnew : Playback.new script settings opening = .ok playback) {signals : List Signal}
    (hstart : .start ∈ signals) :
    let session := Session.run ⟨playback, []⟩ signals
    let place := session.playback.place
    let lines := script.commands.take place ++
      if session.playback.phase = .revealing ∨ session.playback.phase = .awaitingInput then
        script.commands[place]?.toList else []
    session.playback.stage.scenery =
        (script.commands.take place).foldl (Scenery.after script) (.opening script opening) ∧
      session.playback.stage.voice = lines.foldl Voice.after .silent ∧
      session.taken ++ session.playback.cues =
        opening.cues ++ (script.commands.take place).flatMap (Command.cues script) := by
  have hfollows := follows_of_start_mem hreachable.sound.admitted (Playback.idle_of_new hnew) hstart
  have hscenery := hfollows.scenery
  have hvoice := hfollows.voice
  have hcues := hfollows.cues
  simp only [Playback.begun, Playback.done, Playback.speaking, hfollows.script_eq,
    decide_eq_true_eq] at hscenery hvoice hcues
  exact ⟨hscenery, hvoice, hcues⟩

/-- The greeting is played up to its line, ticked in vain before it starts; the cues are taken half
way. -/
theorem Session.run_eq_fold_greeting :
    ∃ playback,
      Playback.new (Script.empty.editAll Script.greeting) .standard ⟨some "sky", none⟩ =
        .ok playback ∧
      let session := Session.run ⟨playback, []⟩ [.tick 1, .start, .drain, .tick 1, .frame]
      session.playback.place = 1 ∧
        session.taken ++ session.playback.cues = [.showBackground "sky", .spriteChanged 0] := by
  have hnew : Playback.new (Script.empty.editAll Script.greeting) .standard ⟨some "sky", none⟩ =
      .ok _ := rfl
  have hstart : Signal.start ∈ [.tick 1, .start, .drain, .tick 1, .frame] := by decide
  have hfold := Session.run_eq_fold (Script.Reachable.empty.editAll Script.greeting) hnew hstart
  exact ⟨_, hnew, by decide +kernel, hfold.2.2.trans (by decide +kernel)⟩

end VisualNovel
