import VisualNovel.Proofs.Playback.Coherent
import VisualNovel.Proofs.Playback.View
import Mathlib.Data.List.Induction

/-!
# Which portrait is drawn

Speaker and sprites are cast alike: a command may put another actor in the place of the one who was
there, whose portrait then goes, and it may give a portrait. So what is drawn is the portrait that
was given last, if no other actor was named since (`Casting.exists_givesLast`,
`Casting.foldl_of_givesLast`), and it is there on the actor's sheet.

This holds for a fold over commands that are read in some way; it is used with `Command.voicing` for
the voice and with `Command.casting` for a sprite. `Session.run_frame` puts both together with what
else is in a frame.
-/

namespace VisualNovel

/-! ## Castings -/

/-- An actor, and the portrait of the actor, as far as they are given. -/
@[ext]
structure Casting where
  actor : Option Nat
  portrait : Option UInt32

namespace Casting

/-- Nobody. -/
def vacant : Casting := ⟨none, none⟩

/-- What a command gives takes the place of what was there. -/
def switch (current given : Casting) : Casting :=
  ⟨given.actor.or current.actor,
    switchPortrait current.actor current.portrait given.actor given.portrait⟩

/-- A casting after a command, if commands are read in some way. -/
def after (read : Command → Option Casting) (current : Casting) (command : Command) : Casting :=
  (read command).elim current current.switch

/-- A portrait is given only together with its actor. -/
def Proper (casting : Casting) : Prop := casting.actor = none → casting.portrait = none

/-- A casting as it is drawn: the portrait on the sheet of the actor. -/
def view (script : Script) (casting : Casting) : Option PortraitView :=
  (casting.actor.bind script.actorAt?).bind fun actor => casting.portrait.bind actor.portraitView

/-- One of some commands gives an actor a portrait, and no command after it names another actor. -/
structure Gives (read : Command → Option Casting) (commands : List Command) (index actor : Nat)
    (cell : UInt32) : Prop where
  given : (commands[index]?).bind read = some ⟨some actor, some cell⟩
  kept : ∀ later casting, index < later → (commands[later]?).bind read = some casting →
    casting.actor = none ∨ casting.actor = some actor

/-- No command after it does the same. -/
structure GivesLast (read : Command → Option Casting) (commands : List Command)
    (index actor : Nat) (cell : UInt32) : Prop extends Gives read commands index actor cell where
  last : ∀ later other next, Gives read commands later other next → later ≤ index

variable {read : Command → Option Casting} {commands : List Command} {command : Command}
  {index actor : Nat} {cell : UInt32}

/-- The actor stays if no other is named, and so does the portrait if none is given. -/
theorem switch_of_kept {current given : Casting} (hactor : current.actor = some actor)
    (hkept : given.actor = none ∨ given.actor = some actor) :
    current.switch given = ⟨some actor, given.portrait.or current.portrait⟩ := by
  have hsame : ¬(given.actor.isSome ∧ given.actor ≠ current.actor) := by
    rintro ⟨hsome, hne⟩
    rcases hkept with hnone | hactor'
    · rw [hnone] at hsome
      exact Bool.false_ne_true hsome
    · exact hne (hactor'.trans hactor.symm)
  rw [switch, switchPortrait, if_neg hsame, hactor]
  rcases hkept with hnone | hactor' <;> rw [‹given.actor = _›] <;> rfl

/-- A portrait is there because it is given, or was there before and its actor stays. -/
theorem switch_cases {current given : Casting} (hproper : given.Proper)
    (h : (current.switch given).portrait = some cell) :
    (∃ actor, given = ⟨some actor, some cell⟩) ∨
      given.portrait = none ∧ current.portrait = some cell ∧
        ∀ actor, current.actor = some actor → given.actor = none ∨ given.actor = some actor := by
  obtain ⟨named, portrait⟩ := given
  cases portrait with
  | some other =>
    obtain rfl := Option.some.inj h
    cases named with
    | none => exact absurd (hproper rfl) nofun
    | some actor => exact Or.inl ⟨actor, rfl⟩
  | none =>
    change (if named.isSome ∧ named ≠ current.actor then none else current.portrait) = _ at h
    split at h
    · exact absurd h nofun
    · next hstays =>
      refine Or.inr ⟨rfl, h, ?_⟩
      intro actor hactor
      cases named with
      | none => exact Or.inl rfl
      | some other => exact Or.inr (hactor ▸ not_not.mp fun hne => hstays ⟨rfl, hne⟩)

/-! ## What a list of commands comes to -/

theorem lt_length_of_read {casting : Casting} (h : (commands[index]?).bind read = some casting) :
    index < commands.length := by
  obtain ⟨command, hcommand, -⟩ := Option.bind_eq_some_iff.mp h
  exact (List.getElem?_eq_some_iff.mp hcommand).1

/-- What is read of one more command comes after what is read of those before it. -/
theorem read_concat_iff {casting : Casting} :
    ((commands ++ [command])[index]?).bind read = some casting ↔
      (commands[index]?).bind read = some casting ∨
        index = commands.length ∧ read command = some casting := by
  rcases Nat.lt_trichotomy index commands.length with hlt | rfl | hgt
  · rw [List.getElem?_append_left hlt, or_iff_left fun h => Nat.ne_of_lt hlt h.1]
  · have hnone : commands[commands.length]? = none := List.getElem?_eq_none (Nat.le_refl _)
    rw [List.getElem?_concat_length, hnone]
    simp
  · have hlength : (commands ++ [command]).length ≤ index := by
      rw [List.length_append, List.length_singleton]
      exact hgt
    rw [List.getElem?_eq_none hlength, List.getElem?_eq_none (Nat.le_of_lt hgt),
      or_iff_left fun h => Nat.ne_of_gt hgt h.1]

/-- With one more command, it is this that gives the portrait, or one before it whose actor it does
not replace. -/
theorem gives_concat_iff : Gives read (commands ++ [command]) index actor cell ↔
    index = commands.length ∧ read command = some ⟨some actor, some cell⟩ ∨
      Gives read commands index actor cell ∧
        ∀ casting ∈ read command, casting.actor = none ∨ casting.actor = some actor := by
  constructor
  · intro h
    rcases read_concat_iff.mp h.given with hbefore | hlast
    · refine Or.inr ⟨⟨hbefore, ?_⟩, ?_⟩
      · intro later casting hlt hlater
        exact h.kept later casting hlt (read_concat_iff.mpr (Or.inl hlater))
      · intro casting hcasting
        refine h.kept commands.length casting (lt_length_of_read hbefore) ?_
        exact read_concat_iff.mpr (Or.inr ⟨rfl, hcasting⟩)
    · exact Or.inl hlast
  · rintro (⟨rfl, hread⟩ | ⟨h, hcommand⟩)
    · refine ⟨read_concat_iff.mpr (Or.inr ⟨rfl, hread⟩), ?_⟩
      intro later casting hlt hlater
      rcases read_concat_iff.mp hlater with hbefore | ⟨hlast, -⟩
      · exact absurd (lt_length_of_read hbefore) (Nat.lt_asymm hlt)
      · exact absurd hlast (Nat.ne_of_gt hlt)
    · refine ⟨read_concat_iff.mpr (Or.inl h.given), ?_⟩
      intro later casting hlt hlater
      rcases read_concat_iff.mp hlater with hbefore | ⟨-, hlast⟩
      · exact h.kept later casting hlt hbefore
      · exact hcommand casting hlast

section Fold

variable (hproper : ∀ command ∈ commands, ∀ casting ∈ read command, casting.Proper)
include hproper

/-- As long as no other actor is named, the actor who was given a portrait is there and has one. -/
theorem foldl_of_gives (h : Gives read commands index actor cell) :
    (commands.foldl (after read) vacant).actor = some actor ∧
      (commands.foldl (after read) vacant).portrait.isSome := by
  induction commands using List.reverseRecOn with
  | nil => exact absurd (lt_length_of_read h.given) (Nat.not_lt_zero _)
  | append_singleton commands command ih =>
    rw [List.foldl_concat]
    generalize commands.foldl (after read) vacant = current at ih ⊢
    rcases gives_concat_iff.mp h with ⟨-, hread⟩ | ⟨hbefore, hkept⟩
    · rw [after, hread]
      exact ⟨rfl, rfl⟩
    · obtain ⟨hactor, hportrait⟩ := ih
        (fun next hnext => hproper next (List.mem_append_left _ hnext)) hbefore
      rw [after]
      cases hread : read command with
      | none => exact ⟨hactor, hportrait⟩
      | some casting =>
        rw [Option.elim_some, switch_of_kept hactor (hkept casting hread)]
        refine ⟨rfl, ?_⟩
        rw [Option.isSome_or, hportrait, Bool.or_true]

/-- A portrait that is there was given, and is the last that was. -/
theorem exists_givesLast (h : (commands.foldl (after read) vacant).portrait = some cell) :
    ∃ index actor, GivesLast read commands index actor cell := by
  induction commands using List.reverseRecOn generalizing cell with
  | nil => exact absurd h nofun
  | append_singleton commands command ih =>
    have hbefore : ∀ next ∈ commands, ∀ casting ∈ read next, casting.Proper :=
      fun next hnext => hproper next (List.mem_append_left _ hnext)
    -- a command that gives no portrait and names no other actor leaves the last one as it was
    have hkeeps (hportrait : (commands.foldl (after read) vacant).portrait = some cell)
        (hquiet : ∀ casting ∈ read command, casting.portrait = none ∧
          ∀ actor, (commands.foldl (after read) vacant).actor = some actor →
            casting.actor = none ∨ casting.actor = some actor) :
        ∃ index actor, GivesLast read (commands ++ [command]) index actor cell := by
      obtain ⟨index, actor, hgives⟩ := ih hbefore hportrait
      have hactor := (foldl_of_gives hbefore hgives.toGives).1
      refine ⟨index, actor, gives_concat_iff.mpr (Or.inr ⟨hgives.toGives, ?_⟩), ?_⟩
      · exact fun casting hcasting => (hquiet casting hcasting).2 actor hactor
      · intro later other next hlater
        rcases gives_concat_iff.mp hlater with ⟨-, hread⟩ | ⟨hearlier, -⟩
        · exact absurd (hquiet _ hread).1 nofun
        · exact hgives.last later other next hearlier
    rw [List.foldl_concat] at h
    cases hread : read command with
    | none =>
      rw [after, hread] at h
      exact hkeeps h (hread ▸ Outcome.forall_mem_none)
    | some casting =>
      have hcasting := hproper command (List.mem_append_right _ List.mem_cons_self) casting hread
      rw [after, hread, Option.elim_some] at h
      rcases switch_cases hcasting h with ⟨actor, rfl⟩ | ⟨hnone, hportrait, hstays⟩
      · refine ⟨commands.length, actor, gives_concat_iff.mpr (Or.inl ⟨rfl, hread⟩), ?_⟩
        intro later other next hlater
        have hlt := lt_length_of_read hlater.given
        rw [List.length_append, List.length_singleton] at hlt
        exact Nat.le_of_lt_succ hlt
      · refine hkeeps hportrait ?_
        rw [hread]
        rintro _ ⟨⟩
        exact ⟨hnone, hstays⟩

/-- The portrait that was given last is there, if no other actor was named since. -/
theorem foldl_of_givesLast (h : GivesLast read commands index actor cell) :
    commands.foldl (after read) vacant = ⟨some actor, some cell⟩ := by
  obtain ⟨hactor, hportrait⟩ := foldl_of_gives hproper h.toGives
  obtain ⟨other, hother⟩ := Option.isSome_iff_exists.mp hportrait
  obtain ⟨later, next, hlater⟩ := exists_givesLast hproper hother
  obtain rfl : later = index :=
    Nat.le_antisymm (h.last _ _ _ hlater.toGives) (hlater.last _ _ _ h.toGives)
  obtain ⟨⟩ := hlater.given.symm.trans h.given
  exact Casting.ext hactor hother

end Fold

/-! ## How a casting is drawn -/

/-- A portrait that fits is drawn: its cell lies inside the sheet. -/
theorem view_of_fits {script : Script} (hsound : script.Sound) {casting : Casting}
    (hfits : script.PortraitFits casting.actor casting.portrait)
    (hactor : casting.actor = some actor) (hportrait : casting.portrait = some cell) :
    ∃ who rect, script.actorAt? actor = some who ∧ who.sheetSize.cellRect cell = some rect ∧
      casting.view script = some ⟨who.sheet, rect⟩ := by
  rw [hactor, hportrait] at hfits
  obtain ⟨who, hwho, hcell⟩ := hfits
  have husable := (hsound.drawable_of_actorAt? hwho).usable
  have hrect : ∃ rect, who.sheetSize.cellRect cell = some rect := by
    rw [SheetSize.cellRect, husable.cellCoords_eq, if_pos (hcell cell rfl)]
    exact ⟨_, rfl⟩
  obtain ⟨rect, hrect⟩ := hrect
  refine ⟨who, rect, hwho, hrect, ?_⟩
  rw [view, hactor, hportrait, Option.bind_some, hwho, Option.bind_some, Option.bind_some,
    Actor.portraitView, hrect, Option.map_some]

/-- What is drawn of the casting that commands come to: a portrait exactly if one is given and no
other actor named after it, and then the last such one, on the sheet of its actor. -/
theorem view_foldl {script : Script} (hsound : script.Sound) {casting : Casting}
    (hproper : ∀ command ∈ commands, ∀ casting ∈ read command, casting.Proper)
    (hfits : script.PortraitFits casting.actor casting.portrait)
    (hcasting : casting = commands.foldl (after read) vacant) :
    ((casting.view script).isSome ↔ ∃ index actor cell, Gives read commands index actor cell) ∧
      ∀ index actor cell, GivesLast read commands index actor cell →
        ∃ who rect, script.actorAt? actor = some who ∧
          who.sheetSize.cellRect cell = some rect ∧ casting.actor = some actor ∧
          casting.view script = some ⟨who.sheet, rect⟩ := by
  have hlast (index actor cell) (h : GivesLast read commands index actor cell) :
      ∃ who rect, script.actorAt? actor = some who ∧
        who.sheetSize.cellRect cell = some rect ∧ casting.actor = some actor ∧
        casting.view script = some ⟨who.sheet, rect⟩ := by
    rw [foldl_of_givesLast hproper h] at hcasting
    obtain ⟨who, rect, hwho, hrect, hview⟩ := view_of_fits hsound hfits
      (congrArg Casting.actor hcasting) (congrArg Casting.portrait hcasting)
    exact ⟨who, rect, hwho, hrect, congrArg Casting.actor hcasting, hview⟩
  refine ⟨?_, hlast⟩
  constructor
  · intro hview
    cases hportrait : casting.portrait with
    | none =>
      rw [view, hportrait] at hview
      simp at hview
    | some cell =>
      rw [hcasting] at hportrait
      obtain ⟨index, actor, h⟩ := exists_givesLast hproper hportrait
      exact ⟨index, actor, cell, h.toGives⟩
  · rintro ⟨index, actor, cell, h⟩
    obtain ⟨-, hportrait⟩ := foldl_of_gives hproper h
    obtain ⟨other, hother⟩ := Option.isSome_iff_exists.mp hportrait
    obtain ⟨later, next, hlater⟩ := exists_givesLast hproper hother
    obtain ⟨who, rect, -, -, -, hview⟩ := hlast later next other hlater
    rw [hview, Option.isSome_some]

end Casting

/-! ## What commands say of the cast -/

/-- Who speaks a line, and with which portrait. -/
def Command.voicing : Command → Option Casting
  | speak command => some ⟨command.actor, command.portrait⟩
  | _ => none

/-- Whom a command has a sprite show, and with which portrait. -/
def Command.casting (index : Nat) : Command → Option Casting
  | sprite command =>
    if command.sprite = index then some ⟨command.actor, command.portrait⟩ else none
  | _ => none

/-- The casting of a sprite. -/
def SpriteState.casting (state : SpriteState) : Casting := ⟨state.actor, state.portrait⟩

/-- The casting of a voice. -/
def Voice.casting (voice : Voice) : Casting := ⟨voice.speaker, voice.portrait⟩

theorem Script.PortraitFits.proper {script : Script} {casting : Casting}
    (h : script.PortraitFits casting.actor casting.portrait) : casting.Proper := by
  intro hnone
  rw [hnone] at h
  exact h

/-- Commands that are admitted give no portrait without its actor. -/
theorem Command.proper_voicing {script : Script} {command : Command}
    (hadmits : script.Admits command) : ∀ casting ∈ command.voicing, casting.Proper := by
  cases command with
  | speak command =>
    rintro _ ⟨⟩
    exact Script.PortraitFits.proper hadmits.2
  | sprite | wait | background => exact Outcome.forall_mem_none

theorem Command.proper_casting {script : Script} {command : Command}
    (hadmits : script.Admits command) (index : Nat) :
    ∀ casting ∈ command.casting index, casting.Proper := by
  cases command with
  | sprite command =>
    rw [Command.casting]
    split
    · rintro _ ⟨⟩
      exact Script.PortraitFits.proper hadmits.2.2.2
    · exact Outcome.forall_mem_none
  | speak | wait | background => exact Outcome.forall_mem_none

/-- Before the first command, sprites have nobody to show. -/
theorem SpriteState.casting_of_untouched {script : Script} (h : script.sprites.Untouched)
    {state : SpriteState} (hstate : state ∈ script.sprites.entries.map Sprite.state) :
    state.casting = .vacant := by
  obtain ⟨sprite, hsprite, rfl⟩ := List.mem_map.mp hstate
  rw [h] at hsprite
  obtain ⟨name, -, rfl⟩ := List.mem_map.mp hsprite
  rfl

/-- The voice is cast by the lines. -/
theorem Voice.casting_foldl (commands : List Command) (voice : Voice) :
    (commands.foldl Voice.after voice).casting =
      commands.foldl (Casting.after Command.voicing) voice.casting := by
  induction commands generalizing voice with
  | nil => rfl
  | cons command commands ih =>
    rw [List.foldl_cons, List.foldl_cons, ih]
    cases command <;> rfl

/-- A sprite is cast by the commands for it. -/
theorem Scenery.casting_foldl (script : Script) (commands : List Command) (scenery : Scenery)
    (index : Nat) :
    ((commands.foldl (Scenery.after script) scenery).sprites[index]?).map SpriteState.casting =
      (scenery.sprites[index]?).map fun state =>
        commands.foldl (Casting.after (Command.casting index)) state.casting := by
  induction commands generalizing scenery with
  | nil => rfl
  | cons command commands ih =>
    rw [List.foldl_cons, ih]
    cases command with
    | sprite command =>
      have hmodify : (scenery.after script (.sprite command)).sprites =
          scenery.sprites.modify command.sprite (·.apply command) := rfl
      rw [hmodify, List.getElem?_modify]
      have hread (state : SpriteState) :
          Casting.after (Command.casting index) state.casting (.sprite command) =
            if command.sprite = index then (state.apply command).casting else state.casting := by
        rw [Casting.after, Command.casting]
        split <;> rfl
      simp only [List.foldl_cons, hread, Option.map_eq_map, Option.map_map]
      split <;> rfl
    | speak | wait | background => rfl

/-! ## Frames -/

section Started

variable {script : Script} {settings : Settings} {opening : Opening} {taken : List Cue}
  {playback : Playback}

/-- While a line is on stage, the voice is cast by the lines up to it. -/
theorem Follows.casting_voice (h : Follows script opening taken playback)
    (hspeaking : playback.speaking = true) :
    playback.stage.voice.casting = (script.commands.take (playback.place + 1)).foldl
      (Casting.after Command.voicing) .vacant := by
  obtain ⟨command, hcommand⟩ := h.speaking hspeaking
  have hbegun := Playback.begun_of_speaking hspeaking hcommand
  rw [h.script_eq] at hcommand
  rw [h.voice, Voice.casting_foldl, hbegun, Playback.done, h.script_eq, List.take_add_one,
    hcommand]
  rfl

/-- A sprite is cast by the commands before the place. -/
theorem Follows.casting_sprite (huntouched : script.sprites.Untouched)
    (h : Follows script opening taken playback) {index : Nat} {state : SpriteState}
    (hstate : playback.stage.sprites[index]? = some state) :
    state.casting = (script.commands.take playback.place).foldl
      (Casting.after (Command.casting index)) .vacant := by
  have hscenery := congrArg (fun scenery => scenery.sprites[index]?.map SpriteState.casting)
    h.scenery
  have hsprites : playback.stage.scenery.sprites[index]? = some state := hstate
  simp only [Scenery.casting_foldl, hsprites, Option.map_some] at hscenery
  obtain ⟨first, hfirst, hfold⟩ := Option.map_eq_some_iff.mp hscenery.symm
  have hvacant := SpriteState.casting_of_untouched huntouched (List.mem_of_getElem? hfirst)
  rw [← hfold, hvacant, Playback.done, h.script_eq]

/-- Who speaks is named by the command at hand. -/
theorem Follows.exists_speaker (hsound : script.Sound) (h : Follows script opening taken playback)
    (hspeaking : playback.speaking = true) :
    ∃ command actor who, script.commands[playback.place]? = some (.speak command) ∧
      command.actor = some actor ∧ script.actorAt? actor = some who ∧
      playback.stage.speaker = some actor := by
  obtain ⟨command, hcommand⟩ := h.speaking hspeaking
  have hvoice := h.casting_voice hspeaking
  rw [h.script_eq] at hcommand
  obtain ⟨hsome, hfits⟩ := hsound.admitted _ (List.mem_of_getElem? hcommand)
  obtain ⟨actor, hactor⟩ := Option.ne_none_iff_exists'.mp hsome
  rw [hactor] at hfits
  obtain ⟨who, hwho, -⟩ := hfits
  rw [List.take_add_one, hcommand, Option.toList_some, List.foldl_concat] at hvoice
  refine ⟨command, actor, who, hcommand, hactor, hwho, ?_⟩
  refine (congrArg Casting.actor hvoice).trans ?_
  show command.actor.or _ = _
  rw [hactor, Option.some_or]

/-- Sprites are cast by the commands before the place, also before there was a start. -/
theorem Playback.Coherent.casting_sprite (huntouched : script.sprites.Untouched)
    (h : playback.Coherent script settings)
    (hstarted : playback.phase ≠ .notStarted → Follows script opening taken playback) {index : Nat}
    {state : SpriteState} (hstate : playback.stage.sprites[index]? = some state) :
    state.casting = (script.commands.take playback.place).foldl
      (Casting.after (Command.casting index)) .vacant := by
  by_cases hphase : playback.phase = .notStarted
  · obtain ⟨hplace, -, -, hstage⟩ := (Playback.occupied_notStarted hphase).mp h.occupied
    rw [hstage] at hstate
    rw [hplace, List.take_zero, List.foldl_nil]
    exact SpriteState.casting_of_untouched huntouched (List.mem_of_getElem? hstate)
  · exact (hstarted hphase).casting_sprite huntouched hstate

namespace Playback

/-- Without a line nobody is shown to speak. -/
theorem frame_of_quiet (hline : playback.stage.line = none) :
    playback.frame.text = none ∧ playback.frame.speaker = none ∧
      playback.frame.portrait = none := by
  have hspeaker : playback.frame.speaker = none := by
    show playback.stage.line.bind _ = none
    rw [hline, Option.bind_none]
  refine ⟨congrArg (Option.map Line.shown) hline, hspeaker, ?_⟩
  show playback.frame.speaker.bind _ = none
  rw [hspeaker, Option.bind_none]

/-- With a line the speaker is shown, and with the portrait of the voice. -/
theorem frame_of_line {line : Line} (hline : playback.stage.line = some line) :
    playback.frame.text = some line.shown ∧
      playback.frame.speaker = playback.stage.speaker.bind playback.script.actorAt? ∧
      playback.frame.portrait = playback.stage.voice.casting.view playback.script := by
  have hspeaker : playback.frame.speaker =
      playback.stage.speaker.bind playback.script.actorAt? := by
    show playback.stage.line.bind _ = _
    rw [hline, Option.bind_some]
    rfl
  refine ⟨congrArg (Option.map Line.shown) hline, hspeaker, ?_⟩
  show playback.frame.speaker.bind _ = _
  rw [hspeaker]
  rfl

/-- Text, speaker and portrait are shown just while a line is on stage. -/
theorem Coherent.frame_speech (hsound : script.Sound) (h : playback.Coherent script settings)
    (hstarted : playback.phase ≠ .notStarted → Follows script opening taken playback) :
    playback.frame.text.isSome = playback.stage.line.isSome ∧
      playback.frame.speaker.isSome = playback.stage.line.isSome ∧
      (∀ who, playback.frame.speaker = some who → ∃ command actor,
        script.commands[playback.place]? = some (.speak command) ∧ command.actor = some actor ∧
          script.actorAt? actor = some who) ∧
      (playback.frame.portrait.isSome ↔ playback.stage.line.isSome ∧
        ∃ index actor cell, Casting.Gives Command.voicing
          (script.commands.take (playback.place + 1)) index actor cell) ∧
      (playback.stage.line.isSome → ∀ index actor cell,
        Casting.GivesLast Command.voicing
          (script.commands.take (playback.place + 1)) index actor cell →
            ∃ who rect, script.actorAt? actor = some who ∧
              who.sheetSize.cellRect cell = some rect ∧ playback.frame.speaker = some who ∧
              playback.frame.portrait = some ⟨who.sheet, rect⟩) := by
  cases hline : playback.stage.line with
  | none =>
    obtain ⟨htext, hspeaker, hportrait⟩ := frame_of_quiet hline
    simp [htext, hspeaker, hportrait]
  | some line =>
    obtain ⟨htext, hspeaker, hportrait⟩ := frame_of_line hline
    have hspeaking := h.isSome_line_iff.mp (Option.isSome_iff_exists.mpr ⟨line, hline⟩)
    have hfollows := hstarted (started_of_speaking hspeaking)
    obtain ⟨command, actor, who, hcommand, hactor, hwho, hvoice⟩ :=
      hfollows.exists_speaker hsound hspeaking
    have hproper : ∀ command ∈ script.commands.take (playback.place + 1),
        ∀ casting ∈ command.voicing, casting.Proper :=
      fun command hcommand => Command.proper_voicing
        (hsound.admitted command (List.mem_of_mem_take hcommand))
    obtain ⟨hsome, hlast⟩ := Casting.view_foldl hsound hproper h.voice_fits
      (hfollows.casting_voice hspeaking)
    rw [h.script_eq] at hspeaker hportrait
    rw [hvoice, Option.bind_some, hwho] at hspeaker
    rw [htext, hspeaker, hportrait]
    refine ⟨rfl, rfl, ?_, ?_, ?_⟩
    · rintro _ ⟨⟩
      exact ⟨command, actor, hcommand, hactor, hwho⟩
    · rw [hsome, Option.isSome_some, and_iff_right rfl]
    · intro _ index actor cell hgives
      obtain ⟨shown, rect, hshown, hrect, hsame, hview⟩ := hlast index actor cell hgives
      obtain ⟨⟩ := hvoice.symm.trans hsame
      exact ⟨shown, rect, hshown, hrect, hwho.symm.trans hshown, hview⟩

end Playback

end Started

namespace Session

/-- A frame shows whom it should. While a line is on stage, and only then, there are a text and a
speaker, who is the actor of the command at hand; and a portrait is shown if a line up to this one
has given one and no line after it names another actor, which is then the last such portrait, on the
sheet of the actor. The sprites are those that are visible, each once and in the order of the pool;
and with a sprite a portrait is shown under the same condition on the commands for it that were
carried out since the start. -/
theorem run_frame {script : Script} (hreachable : script.Reachable) {settings : Settings}
    {opening : Opening} {playback : Playback}
    (hnew : Playback.new script settings opening = .ok playback) (signals : List Signal) :
    let later := (Session.run ⟨playback, []⟩ signals).playback
    let frame := later.frame
    let lines := script.commands.take (later.place + 1)
    let done := script.commands.take later.place
    frame.text.isSome = later.stage.line.isSome ∧
      frame.speaker.isSome = later.stage.line.isSome ∧
      (∀ who, frame.speaker = some who → ∃ command actor,
        script.commands[later.place]? = some (.speak command) ∧ command.actor = some actor ∧
          script.actorAt? actor = some who) ∧
      (frame.portrait.isSome ↔ later.stage.line.isSome ∧
        ∃ index actor cell, Casting.Gives Command.voicing lines index actor cell) ∧
      (later.stage.line.isSome → ∀ index actor cell,
        Casting.GivesLast Command.voicing lines index actor cell →
          ∃ who rect, script.actorAt? actor = some who ∧
            who.sheetSize.cellRect cell = some rect ∧ frame.speaker = some who ∧
            frame.portrait = some ⟨who.sheet, rect⟩) ∧
      frame.sprites.map some = ((List.range script.sprites.size).filter fun index =>
        later.stage.sprites[index]?.any (·.visible)).map later.spriteView? ∧
      ∀ index, index < script.sprites.size → ∃ state view,
        later.stage.sprites[index]? = some state ∧ later.spriteView? index = some view ∧
          script.sprites.nameAt? index = some view.id ∧ view.visible = state.visible ∧
          (view.portrait.isSome ↔
            ∃ position actor cell, Casting.Gives (Command.casting index) done position actor cell) ∧
          ∀ position actor cell,
            Casting.GivesLast (Command.casting index) done position actor cell →
            ∃ who rect, script.actorAt? actor = some who ∧
              who.sheetSize.cellRect cell = some rect ∧ state.actor = some actor ∧
              view.portrait = some ⟨who.sheet, rect⟩ := by
  have hsound := hreachable.sound
  generalize hsession : Session.run ⟨playback, []⟩ signals = session
  intro later frame lines done
  have hcoherent : later.Coherent script settings := by
    subst hsession
    exact (coherent_of_reachable hreachable hnew signals).2
  have hstarted : later.phase ≠ .notStarted → Follows script opening session.taken later := by
    intro hphase
    subst hsession
    exact follows_of_started hsound.admitted (Playback.idle_of_new hnew) hphase
  clear_value later
  obtain ⟨htext, hspeaker, hactor, hportrait, hlast⟩ := hcoherent.frame_speech hsound hstarted
  obtain rfl := hcoherent.script_eq
  refine ⟨htext, hspeaker, hactor, hportrait, hlast,
    Playback.map_some_sprites_frame hcoherent.length_sprites, ?_⟩
  intro index hindex
  obtain ⟨state, name, hstate, hname, hview⟩ :=
    Playback.exists_view hcoherent.length_sprites hindex
  have hproper : ∀ command ∈ done, ∀ casting ∈ command.casting index, casting.Proper :=
    fun command hcommand => Command.proper_casting
      (hsound.admitted command (List.mem_of_mem_take hcommand)) index
  obtain ⟨hsome, hlastGiven⟩ := Casting.view_foldl hsound hproper
    (hcoherent.sprites_fit state (List.mem_of_getElem? hstate))
    (hcoherent.casting_sprite hreachable.untouched hstarted hstate)
  exact ⟨state, _, hstate, hview, hname, rfl, hsome, hlastGiven⟩

/-- While the line of the greeting is shown, its sprite has the portrait that the first command has
given, and the speaker has none. -/
theorem run_frame_greeting :
    ∃ playback, Playback.new (Script.empty.editAll Script.greeting) .standard ⟨none, none⟩ =
        .ok playback ∧
      let later := (Session.run ⟨playback, []⟩ [.start, .tick 0]).playback
      later.frame.speaker.isSome ∧ later.frame.portrait = none ∧
        ∃ view, later.spriteView? 0 = some view ∧ view.portrait.isSome := by
  have hnew : Playback.new (Script.empty.editAll Script.greeting) .standard ⟨none, none⟩ =
      .ok _ := rfl
  obtain ⟨-, hspeaker, -, -, -, -, hsprites⟩ :=
    run_frame (Script.Reachable.empty.editAll Script.greeting) hnew [.start, .tick 0]
  obtain ⟨state, view, -, hview, -, -, hportrait, -⟩ := hsprites 0 (by decide +kernel)
  have hgives : Casting.Gives (Command.casting 0)
      ([] ++ [.sprite ⟨0, false, some 0, some 5, some .zero, none⟩]) 0 0 5 :=
    Casting.gives_concat_iff.mpr (Or.inl ⟨rfl, rfl⟩)
  refine ⟨_, hnew, hspeaker.trans (by decide +kernel), by decide +kernel, view, hview, ?_⟩
  exact hportrait.mpr ⟨0, 0, 5, hgives⟩

end Session

end VisualNovel
