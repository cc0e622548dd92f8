import VisualNovel.Proofs.Binary.Order
import VisualNovel.Proofs.Playback.Follow

/-!
# What a playback has on its hands

In each phase a playback is occupied in its own way (`Occupied`): with nothing before it starts,
with a wait or with nothing while it carries out commands, with the line of the command at hand
while one is revealed or shown, and with nothing again at the end. A playback is *coherent* if this
holds, its timers are in range, and whoever speaks or is drawn has a portrait of their own sheet.

Each signal keeps a playback coherent (`Session.coherent_step`), so every session is
(`Session.run_coherent`). The numbers matter where a timer runs: time that counts is not negative,
so a timer that has not run out is below its bound, and finite though sums may overflow.
-/

namespace VisualNovel

/-! ## Portraits -/

/-- A portrait that fits stays fitting when another actor takes its place, or when it is replaced by
one that fits that actor. -/
theorem Script.PortraitFits.switch {script : Script} {current actor : Option Nat}
    {portrait given : Option UInt32} (h : script.PortraitFits current portrait)
    (hgiven : script.PortraitFits actor given) :
    script.PortraitFits (actor.or current) (switchPortrait current portrait actor given) := by
  cases actor with
  | none =>
    obtain rfl : given = none := hgiven
    exact h
  | some index =>
    obtain ⟨speaker, hspeaker, hcell⟩ := hgiven
    cases given with
    | some cell => exact ⟨speaker, hspeaker, hcell⟩
    | none =>
      rw [switchPortrait, Option.none_or]
      split
      · exact ⟨speaker, hspeaker, nofun⟩
      · next hsame =>
        -- the actor is still the one that the portrait belonged to
        have hcurrent : some index = current := by
          by_contra hne
          exact hsame ⟨rfl, hne⟩
        rw [← hcurrent] at h
        exact h

/-- A sprite keeps a fitting portrait through a command that is admitted. -/
theorem SpriteState.portraitFits_apply {script : Script} {state : SpriteState}
    {command : SpriteCommand} (h : script.PortraitFits state.actor state.portrait)
    (hadmits : script.Admits (.sprite command)) :
    script.PortraitFits (state.apply command).actor (state.apply command).portrait :=
  h.switch hadmits.2.2.2

/-- Every sprite on stage has a portrait that fits. -/
def Scenery.Fits (script : Script) (scenery : Scenery) : Prop :=
  ∀ state ∈ scenery.sprites, script.PortraitFits state.actor state.portrait

/-- Commands that are admitted keep every portrait fitting. -/
theorem Scenery.Fits.after {script : Script} {scenery : Scenery} (h : scenery.Fits script)
    {command : Command} (hadmits : script.Admits command) :
    (scenery.after script command).Fits script := by
  cases command with
  | sprite command =>
    intro state hstate
    change state ∈ scenery.sprites.modify command.sprite _ at hstate
    obtain ⟨index, hindex⟩ := List.getElem?_of_mem hstate
    rw [List.getElem?_modify, Option.map_eq_map, Option.map_eq_some_iff] at hindex
    obtain ⟨old, hold, rfl⟩ := hindex
    have hfits := h old (List.mem_of_getElem? hold)
    split
    · exact SpriteState.portraitFits_apply hfits hadmits
    · exact hfits
  | speak command => exact h
  | wait duration => exact h
  | background command => exact h

/-- Sprites that are only named have no portrait. -/
theorem Scenery.fits_of_untouched {script : Script} (h : script.sprites.Untouched)
    {state : SpriteState} (hstate : state ∈ script.sprites.entries.map Sprite.state) :
    script.PortraitFits state.actor state.portrait := by
  obtain ⟨sprite, hsprite, rfl⟩ := List.mem_map.mp hstate
  rw [h] at hsprite
  obtain ⟨name, -, rfl⟩ := List.mem_map.mp hsprite
  rfl

/-! ## Lines -/

namespace Line

theorem isComplete_iff {line : Line} : line.isComplete ↔ line.charCount ≤ line.revealed :=
  decide_eq_true_iff

theorem text_revealOne (line : Line) : line.revealOne.text = line.text := by
  rw [revealOne]
  split <;> rfl

/-- The characters of a line are counted, and no more are shown than there are. -/
structure Counted (line : Line) : Prop where
  charCount_eq : line.charCount = line.text.length
  revealed_le : line.revealed ≤ line.charCount

/-- A new line is counted. -/
theorem counted_new (text : String) : (new text).Counted := ⟨rfl, Nat.zero_le _⟩

/-- One more character is shown only if there is one. -/
theorem Counted.revealOne {line : Line} (h : line.Counted) : line.revealOne.Counted := by
  rw [Line.revealOne]
  split
  · exact h
  · next hmore =>
    rw [isComplete_iff] at hmore
    exact ⟨h.charCount_eq, Nat.lt_of_not_le hmore⟩

/-- All characters are shown, and no more. -/
theorem Counted.revealAll {line : Line} (h : line.Counted) : line.revealAll.Counted :=
  ⟨h.charCount_eq, Nat.le_refl _⟩

end Line

/-! ## The invariant -/

/-- A wait that has begun and is not over. -/
structure WaitTimer.Running (timer : WaitTimer) : Prop where
  finite : timer.elapsed.isFinite
  nonneg : 0 ≤ timer.elapsed
  lt_or_zero : timer.elapsed < timer.duration ∨ timer.elapsed = 0

/-- The line on stage is that of the command at a place, and its characters are counted. -/
structure Stage.Utters (stage : Stage) (script : Script) (place : Nat) (line : Line) : Prop where
  line_eq : stage.line = some line
  command : ∃ command, script.commands[place]? = some (.speak command) ∧ line.text = command.text
  counted : line.Counted

namespace Playback

/-- What goes on in each phase. -/
def Occupied (script : Script) (playback : Playback) : Prop :=
  match playback.phase with
  | .notStarted =>
    playback.place = 0 ∧ playback.wait = none ∧ playback.cues = [] ∧
      playback.stage = .forScript script
  | .executing =>
    playback.stage.line = none ∧ ∀ timer ∈ playback.wait,
      script.commands[playback.place]? = some (.wait timer.duration) ∧ timer.Running
  | .revealing => playback.wait = none ∧ ∃ line, playback.stage.Utters script playback.place line
  | .awaitingInput =>
    playback.wait = none ∧ ∃ line, playback.stage.Utters script playback.place line ∧
      line.revealed = line.charCount
  | .finished =>
    playback.wait = none ∧ playback.stage.line = none ∧ playback.place = script.commands.length

variable {script : Script} {settings : Settings} {opening : Opening} {playback : Playback}

section Phases

theorem occupied_notStarted (h : playback.phase = .notStarted) :
    playback.Occupied script ↔ playback.place = 0 ∧ playback.wait = none ∧ playback.cues = [] ∧
      playback.stage = .forScript script := by
  rw [Occupied, h]

theorem occupied_executing (h : playback.phase = .executing) :
    playback.Occupied script ↔ playback.stage.line = none ∧ ∀ timer ∈ playback.wait,
      script.commands[playback.place]? = some (.wait timer.duration) ∧ timer.Running := by
  rw [Occupied, h]

theorem occupied_revealing (h : playback.phase = .revealing) :
    playback.Occupied script ↔
      playback.wait = none ∧ ∃ line, playback.stage.Utters script playback.place line := by
  rw [Occupied, h]

theorem occupied_awaitingInput (h : playback.phase = .awaitingInput) :
    playback.Occupied script ↔ playback.wait = none ∧
      ∃ line, playback.stage.Utters script playback.place line ∧
        line.revealed = line.charCount := by
  rw [Occupied, h]

theorem occupied_finished (h : playback.phase = .finished) :
    playback.Occupied script ↔ playback.wait = none ∧ playback.stage.line = none ∧
      playback.place = script.commands.length := by
  rw [Occupied, h]

end Phases

/-- A playback of a script with settings is where it can be. -/
structure Coherent (script : Script) (settings : Settings) (playback : Playback) : Prop where
  script_eq : playback.script = script
  settings_eq : playback.settings = settings
  place_le : playback.place ≤ script.commands.length
  occupied : playback.Occupied script
  timer_nonneg : 0 ≤ playback.revealTimer
  timer_lt : playback.revealTimer < settings.charInterval
  voice_fits : script.PortraitFits playback.stage.speaker playback.stage.portrait
  length_sprites : playback.stage.sprites.length = script.sprites.size
  sprites_fit : playback.stage.scenery.Fits script
  advisories : playback.advisories = []

namespace Coherent

/-! ## Commands -/

/-- A command that takes no time has its effect, and the place moves on. -/
theorem bringOn_moveOn (h : Coherent script settings playback)
    (hphase : playback.phase = .executing) (hwait : playback.wait = none) {command : Command}
    (hadmits : script.Admits command)
    (hcommand : script.commands[playback.place]? = some command) :
    Coherent script settings (playback.bringOn (playback.stage.scenery.after script command)
      (command.cues script)).moveOn := by
  have hlt : playback.place < script.commands.length := (List.getElem?_eq_some_iff.mp hcommand).1
  obtain ⟨hline, -⟩ := (occupied_executing hphase).mp h.occupied
  constructor
  case script_eq => exact h.script_eq
  case settings_eq => exact h.settings_eq
  case place_le => exact hlt
  case occupied =>
    refine (occupied_executing ?_).mpr ⟨hline, ?_⟩
    · exact hphase
    · show ∀ timer ∈ playback.wait, _
      rw [hwait]
      exact Outcome.forall_mem_none
  case timer_nonneg => exact h.timer_nonneg
  case timer_lt => exact h.timer_lt
  case voice_fits => exact h.voice_fits
  case length_sprites =>
    exact (Scenery.length_sprites_foldl script [command] playback.stage.scenery).trans
      h.length_sprites
  case sprites_fit => exact h.sprites_fit.after hadmits
  case advisories => exact h.advisories

/-- A line begins with nothing of it shown. -/
theorem speak (h : Coherent script settings playback) (hinterval : 0 < settings.charInterval)
    (hwait : playback.wait = none) {command : SpeakCommand}
    (hadmits : script.Admits (.speak command))
    (hcommand : script.commands[playback.place]? = some (.speak command)) :
    Coherent script settings (playback.speak command) := by
  constructor
  case script_eq => exact h.script_eq
  case settings_eq => exact h.settings_eq
  case place_le => exact h.place_le
  case occupied =>
    exact (occupied_revealing rfl).mpr
      ⟨hwait, .new command.text, rfl, ⟨command, hcommand, rfl⟩, Line.counted_new command.text⟩
  case timer_nonneg => exact Binary.zero_le_zero
  case timer_lt => exact hinterval
  case voice_fits => exact h.voice_fits.switch hadmits.2
  case length_sprites => exact h.length_sprites
  case sprites_fit => exact h.sprites_fit
  case advisories => exact h.advisories

/-- A wait begins with no time passed. -/
theorem beginWait (h : Coherent script settings playback) (hphase : playback.phase = .executing)
    {duration : Single} (hcommand : script.commands[playback.place]? = some (.wait duration)) :
    Coherent script settings { playback with wait := some ⟨duration, 0⟩ } := by
  obtain ⟨hline, -⟩ := (occupied_executing hphase).mp h.occupied
  have hoccupied : Occupied script { playback with wait := some ⟨duration, 0⟩ } := by
    refine (occupied_executing ?_).mpr ⟨hline, ?_⟩
    · exact hphase
    · intro timer htimer
      obtain rfl := Option.some.inj htimer
      exact ⟨hcommand, rfl, Binary.zero_le_zero, Or.inr rfl⟩
  exact { h with occupied := hoccupied }

/-- A line of the command at hand is on stage: it goes on being revealed unless it is complete. -/
theorem withLine (h : Coherent script settings playback) (hphase : playback.phase = .revealing)
    {line : Line} (hcommand : ∃ command,
      script.commands[playback.place]? = some (.speak command) ∧ line.text = command.text)
    (hcounted : line.Counted) {timer : Single} (htimer : 0 ≤ timer)
    (hlt : timer < settings.charInterval) :
    Coherent script settings { playback with
      stage := { playback.stage with line := some line }
      revealTimer := timer
      phase := if line.isComplete then .awaitingInput else playback.phase } := by
  obtain ⟨hwait, -⟩ := (occupied_revealing hphase).mp h.occupied
  constructor
  case script_eq => exact h.script_eq
  case settings_eq => exact h.settings_eq
  case place_le => exact h.place_le
  case occupied =>
    by_cases hcomplete : line.isComplete
    · refine (occupied_awaitingInput ?_).mpr ⟨hwait, line, ⟨rfl, hcommand, hcounted⟩, ?_⟩
      · exact if_pos hcomplete
      · exact Nat.le_antisymm hcounted.revealed_le (Line.isComplete_iff.mp hcomplete)
    · refine (occupied_revealing ?_).mpr ⟨hwait, line, rfl, hcommand, hcounted⟩
      exact (if_neg hcomplete).trans hphase
  case timer_nonneg => exact htimer
  case timer_lt => exact hlt
  case voice_fits => exact h.voice_fits
  case length_sprites => exact h.length_sprites
  case sprites_fit => exact h.sprites_fit
  case advisories => exact h.advisories

/-- The last command is over. -/
theorem finish (h : Coherent script settings playback) (hphase : playback.phase = .executing)
    (hwait : playback.wait = none) (hplace : script.commands.length ≤ playback.place) :
    Coherent script settings playback.finish := by
  obtain ⟨hline, -⟩ := (occupied_executing hphase).mp h.occupied
  have hoccupied : Occupied script playback.finish :=
    (occupied_finished rfl).mpr ⟨hwait, hline, Nat.le_antisymm h.place_le hplace⟩
  exact { h with occupied := hoccupied }

variable (hsound : script.Sound) (hinterval : 0 < settings.charInterval)
include hsound hinterval

/-- Commands are carried out up to the first that takes time. -/
theorem dispatch (h : Coherent script settings playback) (hphase : playback.phase = .executing)
    (hwait : playback.wait = none) {rest : List Command}
    (hrest : script.commands.drop playback.place = rest) :
    Coherent script settings (playback.dispatch rest) := by
  -- the commands ahead are those from the place on, so the place moves along with the induction
  induction rest generalizing playback with
  | nil =>
    apply h.finish hphase hwait
    exact List.drop_eq_nil_iff.mp hrest
  | cons command rest ih =>
    obtain ⟨hcommand, hnext⟩ := Command.ahead hrest
    have hadmits : script.Admits command := hsound.admitted command (List.mem_of_getElem? hcommand)
    have hmoved := h.bringOn_moveOn hphase hwait hadmits hcommand
    cases command with
    | background command =>
      rw [Playback.dispatch, applyBackground_eq (h.script_eq ▸ hadmits), h.script_eq]
      exact ih hmoved hphase hwait hnext
    | sprite command =>
      rw [Playback.dispatch, applySprite_eq (h.length_sprites ▸ hadmits.1), h.script_eq]
      exact ih hmoved hphase hwait hnext
    | wait duration => exact h.beginWait hphase hcommand
    | speak command => exact h.speak hinterval hwait hadmits hcommand

theorem runUntilBlocked (h : Coherent script settings playback) :
    Coherent script settings playback.runUntilBlocked := by
  rw [Playback.runUntilBlocked]
  split
  · next hready =>
    apply h.dispatch hsound hinterval hready.1 hready.2
    rw [h.script_eq]
  · exact h

omit hsound in
/-- A line is revealed by one character at most, and is shown once it is complete. -/
theorem reveal (h : Coherent script settings playback) (hphase : playback.phase = .revealing)
    {delta : Single} (hdelta : 0 ≤ delta) : Coherent script settings (playback.reveal delta) := by
  obtain ⟨-, line, hline, ⟨command, hcommand, htext⟩, hcounted⟩ :=
    (occupied_revealing hphase).mp h.occupied
  rw [Playback.reveal, hline]
  dsimp only
  generalize htimer : (if line.isComplete then playback.revealTimer
    else playback.revealTimer + delta) = timer
  generalize hreached :
    (!line.isComplete && decide (playback.settings.charInterval ≤ timer)) = reached
  cases reached with
  | true =>
    refine h.withLine hphase ⟨command, hcommand, ?_⟩ hcounted.revealOne Binary.zero_le_zero
      hinterval
    exact line.text_revealOne.trans htext
  | false =>
    have hrange : 0 ≤ timer ∧ timer < settings.charInterval := by
      by_cases hcomplete : line.isComplete
      · -- no time passes for a line that has no more characters
        rw [← htimer, if_pos hcomplete]
        exact ⟨h.timer_nonneg, h.timer_lt⟩
      · rw [if_neg hcomplete] at htimer
        have hnonneg : 0 ≤ timer := htimer ▸ Binary.zero_le_add h.timer_nonneg hdelta
        have hshort : ¬settings.charInterval ≤ timer := by
          simpa [hcomplete, h.settings_eq] using hreached
        have hinterval := Binary.ne_nan_of_le (Binary.zero_le_of_zero_lt hinterval)
        exact ⟨hnonneg, Binary.lt_of_not_le (Binary.ne_nan_of_le hnonneg) hinterval hshort⟩
    exact h.withLine hphase ⟨command, hcommand, htext⟩ hcounted hrange.1 hrange.2

/-- A wait runs on, or ends and is done. -/
theorem waitFor (h : Coherent script settings playback) (hphase : playback.phase = .executing)
    {delta : Single} (hdelta : 0 ≤ delta) : Coherent script settings (playback.waitFor delta) := by
  obtain ⟨hline, htimer⟩ := (occupied_executing hphase).mp h.occupied
  rw [Playback.waitFor]
  cases hwait : playback.wait with
  | none => exact h
  | some timer =>
    obtain ⟨hcommand, hrunning⟩ := htimer timer hwait
    have helapsed : 0 ≤ timer.elapsed + delta := Binary.zero_le_add hrunning.nonneg hdelta
    dsimp only
    split
    · apply runUntilBlocked hsound hinterval
      have hlt : playback.place < script.commands.length :=
        (List.getElem?_eq_some_iff.mp hcommand).1
      have hoccupied : Occupied script ({ playback with wait := none } : Playback).moveOn := by
        refine (occupied_executing ?_).mpr ⟨hline, Outcome.forall_mem_none⟩
        exact hphase
      exact { h with occupied := hoccupied, place_le := hlt }
    · next hshort =>
      obtain ⟨hfinite, -⟩ := hsound.admitted _ (List.mem_of_getElem? hcommand)
      have hlt : timer.elapsed + delta < timer.duration :=
        Binary.lt_of_not_le (Binary.ne_nan_of_le helapsed) (Binary.ne_nan_of_isFinite hfinite)
          hshort
      have hoccupied : Occupied script
          { playback with wait := some { timer with elapsed := timer.elapsed + delta } } := by
        refine (occupied_executing ?_).mpr ⟨hline, ?_⟩
        · exact hphase
        · intro other hother
          obtain rfl := Option.some.inj hother
          exact ⟨hcommand, Binary.isFinite_of_lt helapsed hlt hfinite, helapsed, Or.inl hlt⟩
      exact { h with occupied := hoccupied }

/-! ## Signals -/

omit hsound hinterval in
/-- Time that counts is not negative. -/
theorem zero_le_usableDelta (delta : Single) : 0 ≤ usableDelta delta := by
  rw [usableDelta]
  split
  · next husable => exact Binary.zero_le_of_zero_lt husable.2
  · exact Binary.zero_le_zero

theorem spend (h : Coherent script settings playback) {delta : Single} (hdelta : 0 ≤ delta) :
    Coherent script settings (playback.spend delta) := by
  rw [Playback.spend]
  split
  · next hphase => exact h.reveal hinterval hphase hdelta
  · next hphase => exact h.waitFor hsound hinterval hphase hdelta
  · exact h

theorem tick (h : Coherent script settings playback) (delta : Single) :
    Coherent script settings (playback.tick delta).2 := by
  rw [tick_eq_spend]
  have hready := h.runUntilBlocked hsound hinterval
  exact hready.spend hsound hinterval (zero_le_usableDelta delta)

omit hsound hinterval

/-- A line is left: it is gone, and the place moves on. -/
theorem leaveLine (h : Coherent script settings playback)
    (hphase : playback.phase = .awaitingInput) : Coherent script settings playback.leaveLine := by
  obtain ⟨hwait, line, hutters, -⟩ := (occupied_awaitingInput hphase).mp h.occupied
  obtain ⟨command, hcommand, -⟩ := hutters.command
  have hlt : playback.place < script.commands.length := (List.getElem?_eq_some_iff.mp hcommand).1
  rw [Playback.leaveLine_eq, h.script_eq]
  constructor
  case script_eq => rfl
  case settings_eq => exact h.settings_eq
  case place_le => exact hlt
  case occupied =>
    by_cases hlast : script.commands.length ≤ playback.place + 1
    · exact (occupied_finished (if_pos hlast)).mpr ⟨hwait, rfl, Nat.le_antisymm hlt hlast⟩
    · refine (occupied_executing (if_neg hlast)).mpr ⟨rfl, ?_⟩
      show ∀ timer ∈ playback.wait, _
      rw [hwait]
      exact Outcome.forall_mem_none
  case timer_nonneg => exact h.timer_nonneg
  case timer_lt => exact h.timer_lt
  case voice_fits => exact h.voice_fits
  case length_sprites => exact h.length_sprites
  case sprites_fit => exact h.sprites_fit
  case advisories => exact h.advisories

include hinterval in
/-- The rest of a line is revealed at once. -/
theorem completeLine (h : Coherent script settings playback)
    (hphase : playback.phase = .revealing) : Coherent script settings playback.completeLine := by
  obtain ⟨hwait, line, hline, hcommand, hcounted⟩ := (occupied_revealing hphase).mp h.occupied
  have hstage : playback.completeLine.stage.line = some line.revealAll := by
    rw [← Option.map_some, ← hline]
    rfl
  constructor
  case script_eq => exact h.script_eq
  case settings_eq => exact h.settings_eq
  case place_le => exact h.place_le
  case occupied =>
    refine (occupied_awaitingInput rfl).mpr ⟨hwait, line.revealAll, ?_, rfl⟩
    exact ⟨hstage, hcommand, hcounted.revealAll⟩
  case timer_nonneg => exact Binary.zero_le_zero
  case timer_lt => exact hinterval
  case voice_fits => exact h.voice_fits
  case length_sprites => exact h.length_sprites
  case sprites_fit => exact h.sprites_fit
  case advisories => exact h.advisories

include hinterval in
theorem advance (h : Coherent script settings playback) :
    Coherent script settings playback.advance.2 := by
  rw [Playback.advance]
  split
  · next hphase => exact h.leaveLine hphase
  · next hphase =>
    split
    · exact h
    · exact h.completeLine hinterval hphase
  · exact h

/-- Taking the cues changes nothing else. -/
theorem drain (h : Coherent script settings playback) :
    Coherent script settings { playback with cues := [] } := by
  have hoccupied : Occupied script { playback with cues := [] } := by
    by_cases hphase : playback.phase = .notStarted
    · obtain ⟨hplace, hwait, -, hstage⟩ := (occupied_notStarted hphase).mp h.occupied
      refine (occupied_notStarted ?_).mpr ⟨hplace, hwait, rfl, hstage⟩
      exact hphase
    · -- cues are spoken of only before the start
      have hbefore := h.occupied
      unfold Occupied at hbefore ⊢
      split at hbefore
      · next heq => exact absurd heq hphase
      all_goals
        next heq =>
          simp only [heq]
          exact hbefore
  exact { h with occupied := hoccupied }

/-- The stage before the first command, whatever is shown and played. -/
theorem start (huntouched : script.sprites.Untouched) (hinterval : 0 < settings.charInterval)
    (h : Coherent script settings playback) : Coherent script settings playback.start := by
  obtain ⟨_, _, ⟨background, music⟩, _, _, _, _, _, _, _⟩ := playback
  obtain rfl := h.script_eq
  obtain rfl := h.settings_eq
  -- image and track of the opening change only what is not spoken of
  cases background <;> cases music <;>
    exact ⟨rfl, rfl, Nat.zero_le _, ⟨rfl, Outcome.forall_mem_none⟩, Binary.zero_le_zero, hinterval,
      rfl, List.length_map _, fun _ => Scenery.fits_of_untouched huntouched, rfl⟩

/-! ## By phase -/

/-- A wait is kept only while commands are carried out, and is that of the command at hand. -/
theorem running (h : Coherent script settings playback) {timer : WaitTimer}
    (htimer : timer ∈ playback.wait) : playback.phase = .executing ∧
      script.commands[playback.place]? = some (.wait timer.duration) ∧ timer.Running := by
  have hoccupied := h.occupied
  cases hphase : playback.phase with
  | executing => exact ⟨rfl, ((occupied_executing hphase).mp hoccupied).2 timer htimer⟩
  | notStarted =>
    rw [((occupied_notStarted hphase).mp hoccupied).2.1] at htimer
    exact absurd htimer (Option.not_mem_none timer)
  | revealing =>
    rw [((occupied_revealing hphase).mp hoccupied).1] at htimer
    exact absurd htimer (Option.not_mem_none timer)
  | awaitingInput =>
    rw [((occupied_awaitingInput hphase).mp hoccupied).1] at htimer
    exact absurd htimer (Option.not_mem_none timer)
  | finished =>
    rw [((occupied_finished hphase).mp hoccupied).1] at htimer
    exact absurd htimer (Option.not_mem_none timer)

/-- A line is revealed or shown: it is that of the command at hand, and shown as a whole before the
player is asked. -/
theorem uttered (h : Coherent script settings playback)
    (hphase : playback.phase = .revealing ∨ playback.phase = .awaitingInput) :
    ∃ line, playback.stage.Utters script playback.place line ∧
      (playback.phase = .awaitingInput → line.revealed = line.charCount) := by
  rcases hphase with hphase | hphase
  · obtain ⟨-, line, hutters⟩ := (occupied_revealing hphase).mp h.occupied
    exact ⟨line, hutters, fun hshown => absurd (hphase.symm.trans hshown) nofun⟩
  · obtain ⟨-, line, hutters, hwhole⟩ := (occupied_awaitingInput hphase).mp h.occupied
    exact ⟨line, hutters, fun _ => hwhole⟩

/-- Only while a line is revealed or shown is there one on stage. -/
theorem line_eq_none (h : Coherent script settings playback)
    (hrevealing : playback.phase ≠ .revealing) (hawaiting : playback.phase ≠ .awaitingInput) :
    playback.stage.line = none := by
  cases hphase : playback.phase with
  | notStarted => exact congrArg Stage.line ((occupied_notStarted hphase).mp h.occupied).2.2.2
  | executing => exact ((occupied_executing hphase).mp h.occupied).1
  | revealing => exact absurd hphase hrevealing
  | awaitingInput => exact absurd hphase hawaiting
  | finished => exact ((occupied_finished hphase).mp h.occupied).2.1

/-- A line is on stage just while one is revealed or shown. -/
theorem isSome_line_iff (h : Coherent script settings playback) :
    playback.stage.line.isSome ↔ playback.speaking = true := by
  rw [speaking, decide_eq_true_iff]
  constructor
  · intro hline
    by_contra hquiet
    rw [not_or] at hquiet
    rw [h.line_eq_none hquiet.1 hquiet.2] at hline
    exact absurd hline Bool.false_ne_true
  · intro hphase
    obtain ⟨line, hutters, -⟩ := h.uttered hphase
    rw [hutters.line_eq]
    rfl

/-- The characters of the line on stage are counted. -/
theorem counted (h : Coherent script settings playback) {line : Line}
    (hline : playback.stage.line = some line) : line.Counted := by
  have hspeaking := h.isSome_line_iff.mp (hline ▸ rfl)
  rw [speaking, decide_eq_true_iff] at hspeaking
  obtain ⟨other, ⟨hother, -, hcounted⟩, -⟩ := h.uttered hspeaking
  exact Option.some.inj (hother.symm.trans hline) ▸ hcounted

end Coherent

/-- A new playback is coherent. -/
theorem coherent_of_new (huntouched : script.sprites.Untouched)
    (h : new script settings opening = .ok playback) :
    0 < settings.charInterval ∧ Coherent script settings playback := by
  simp only [new, Settings.validate, Outcome.bind_eq_ok, Outcome.exists_unit, Outcome.ite_eq_ok,
    Outcome.pure_eq_ok, and_true] at h
  obtain ⟨⟨-, hinterval⟩, rfl⟩ := h
  exact ⟨hinterval, rfl, rfl, Nat.zero_le _, ⟨rfl, rfl, rfl, rfl⟩, Binary.zero_le_zero, hinterval,
    rfl, List.length_map _, fun _ => Scenery.fits_of_untouched huntouched, rfl⟩

end Playback

/-! ## Sessions -/

/-- A tick says that the script is over exactly if it is. -/
theorem Playback.tick_eq_finished_iff {playback : Playback} {delta : Single} :
    (playback.tick delta).1 = .finished ↔ (playback.tick delta).2.phase = .finished := by
  rw [tick]
  split
  · next hphase => simp [hphase]
  · next hphase => simp [hphase]
  · dsimp only
    rw [status]
    split <;> simp_all

namespace Session

variable {script : Script} {settings : Settings} {session : Session}

/-- Each signal keeps a playback coherent. -/
theorem coherent_step (hsound : script.Sound) (huntouched : script.sprites.Untouched)
    (hinterval : 0 < settings.charInterval) (h : session.playback.Coherent script settings)
    (signal : Signal) : (session.step signal).playback.Coherent script settings := by
  cases signal with
  | start => exact h.start huntouched hinterval
  | tick delta => exact h.tick hsound hinterval delta
  | advance => exact h.advance hinterval
  | drain => exact h.drain
  | present => exact h.drain
  | frame => exact h

theorem coherent_run (hsound : script.Sound) (huntouched : script.sprites.Untouched)
    (hinterval : 0 < settings.charInterval) (h : session.playback.Coherent script settings)
    (signals : List Signal) : (session.run signals).playback.Coherent script settings := by
  induction signals generalizing session with
  | nil => exact h
  | cons signal signals ih => exact ih (coherent_step hsound huntouched hinterval h signal)

/-- On a new playback of a script that can be reached, every session is coherent. -/
theorem coherent_of_reachable (hreachable : script.Reachable) {opening : Opening}
    {playback : Playback} (hnew : Playback.new script settings opening = .ok playback)
    (signals : List Signal) :
    0 < settings.charInterval ∧
      (Session.run ⟨playback, []⟩ signals).playback.Coherent script settings := by
  obtain ⟨hinterval, hfresh⟩ := Playback.coherent_of_new hreachable.untouched hnew
  exact ⟨hinterval, coherent_run hreachable.sound hreachable.untouched hinterval hfresh signals⟩

/-- Whatever signals are sent to a playback, times of any size among them, place, line, wait and
timers are in step with the phase, portraits lie on the sheets of those they belong to, no command
refers to nothing, and a tick tells truly whether the script is over. -/
theorem run_coherent {script : Script} (hreachable : script.Reachable) {settings : Settings}
    {opening : Opening} {playback : Playback}
    (hnew : Playback.new script settings opening = .ok playback) (signals : List Signal) :
    let later := (Session.run ⟨playback, []⟩ signals).playback
    later.place ≤ script.commands.length ∧
      (later.phase = .finished → later.place = script.commands.length ∧ later.stage.line = none) ∧
      (later.phase = .notStarted →
        later.place = 0 ∧ later.stage.line = none ∧ later.cues = []) ∧
      (later.phase = .executing → later.stage.line = none) ∧
      (∀ timer ∈ later.wait, later.phase = .executing ∧
        script.commands[later.place]? = some (.wait timer.duration) ∧
        timer.elapsed.isFinite ∧
        (0 ≤ timer.elapsed ∧ timer.elapsed < timer.duration ∨ timer.elapsed = 0)) ∧
      (later.phase = .revealing ∨ later.phase = .awaitingInput → ∃ line command,
        later.stage.line = some line ∧ script.commands[later.place]? = some (.speak command) ∧
        line.text = command.text ∧ line.charCount = command.text.length ∧
        line.revealed ≤ line.charCount ∧
        (later.phase = .awaitingInput → line.revealed = line.charCount)) ∧
      (0 ≤ later.revealTimer ∧ later.revealTimer < settings.charInterval) ∧
      script.PortraitFits later.stage.speaker later.stage.portrait ∧
      (∀ state ∈ later.stage.sprites, script.PortraitFits state.actor state.portrait) ∧
      later.advisories = [] ∧
      ∀ delta, (later.tick delta).1 = .finished ↔ (later.tick delta).2.phase = .finished := by
  have huntouched := hreachable.untouched
  obtain ⟨hinterval, hfresh⟩ := Playback.coherent_of_new huntouched hnew
  generalize hlater : (Session.run ⟨playback, []⟩ signals).playback = later
  have h : later.Coherent script settings :=
    hlater ▸ coherent_run hreachable.sound huntouched hinterval hfresh signals
  refine ⟨h.place_le, ?_, ?_, ?_, ?_, ?_, ⟨h.timer_nonneg, h.timer_lt⟩, h.voice_fits,
    h.sprites_fit, h.advisories, fun delta => Playback.tick_eq_finished_iff⟩
  · intro hphase
    obtain ⟨-, hline, hplace⟩ := (Playback.occupied_finished hphase).mp h.occupied
    exact ⟨hplace, hline⟩
  · intro hphase
    obtain ⟨hplace, -, hcues, hstage⟩ := (Playback.occupied_notStarted hphase).mp h.occupied
    exact ⟨hplace, congrArg Stage.line hstage, hcues⟩
  · intro hphase
    exact ((Playback.occupied_executing hphase).mp h.occupied).1
  · intro timer htimer
    obtain ⟨hphase, hcommand, hrunning⟩ := h.running htimer
    refine ⟨hphase, hcommand, hrunning.finite, ?_⟩
    exact hrunning.lt_or_zero.imp_left (And.intro hrunning.nonneg)
  · intro hphase
    obtain ⟨line, ⟨hline, ⟨command, hcommand, htext⟩, hcounted⟩, hwhole⟩ := h.uttered hphase
    refine ⟨line, command, hline, hcommand, htext, ?_, hcounted.revealed_le, hwhole⟩
    rw [hcounted.charCount_eq, htext]

/-- The line of the greeting is revealed and left; then a wait of one second begins, and a time that
is not finite does not count for it. -/
theorem run_coherent_greeting :
    ∃ playback, Playback.new (Script.empty.editAll Script.greeting) .standard ⟨none, none⟩ =
        .ok playback ∧
      let signals := Signal.start :: List.replicate 5 (.tick 1) ++
        [.advance, .tick (.infinite false), .tick .nan]
      let later := (Session.run ⟨playback, []⟩ signals).playback
      ∃ timer, later.wait = some timer ∧ later.phase = .executing ∧
        (Script.empty.editAll Script.greeting).commands[later.place]? =
          some (.wait timer.duration) ∧
        timer.elapsed.isFinite := by
  have hnew : Playback.new (Script.empty.editAll Script.greeting) .standard ⟨none, none⟩ =
      .ok _ := rfl
  have hcoherent := run_coherent (Script.Reachable.empty.editAll Script.greeting) hnew
    (Signal.start :: List.replicate 5 (.tick 1) ++ [.advance, .tick (.infinite false), .tick .nan])
  obtain ⟨-, -, -, -, hwaiting, -⟩ := hcoherent
  refine ⟨_, hnew, ⟨1, 0⟩, by decide +kernel, ?_⟩
  obtain ⟨hphase, hcommand, hfinite, -⟩ := hwaiting ⟨1, 0⟩ (by decide +kernel)
  exact ⟨hphase, hcommand, hfinite⟩

end Session

end VisualNovel
