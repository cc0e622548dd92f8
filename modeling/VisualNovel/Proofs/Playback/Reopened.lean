import VisualNovel.Proofs.Playback.Follow
import VisualNovel.Proofs.Playback.View
import VisualNovel.Proofs.Script.RoundTrip

/-!
# Playing a script that was saved and opened

A script that is saved and opened has its actors, sprites and assets under other numbers. Played
with the same signals, the two take the same course, and each sprite is on both stages in the same
state (`Mirrors`): numbers are compared only with each other, and no two of them lead to the same
actor.

So a frame shows the same line by the same speaker, and the same sprites
(`Session.run_reopened`). But it shows the sprites in the order of the pool, and the pool is rebuilt
in the order of first mention. Where that is not the order in which the sprites were added, the
frames differ (`Session.frame_reordered`).
-/

namespace VisualNovel

open Outcome

/-! ## Actors under other numbers -/

/-- Two indices lead to one actor, or there is none. -/
inductive SameActor (script later : Script) : Option Nat → Option Nat → Prop
  | none : SameActor script later none none
  | some {index other : Nat} {actor : Actor} :
    script.actorAt? index = some actor → later.actorAt? other = some actor →
    SameActor script later (some index) (some other)

/-- No two indices lead to one actor. -/
theorem Script.Sound.actorAt?_inj {script : Script} (h : script.Sound) {index other : Nat}
    {actor : Actor} (hindex : script.actorAt? index = some actor)
    (hother : script.actorAt? other = some actor) : index = other := by
  have hfirst := h.actorIndex?_eq_some_iff.mpr ⟨actor, hindex, rfl⟩
  have hsecond := h.actorIndex?_eq_some_iff.mpr ⟨actor, hother, rfl⟩
  exact Option.some.inj (hfirst.symm.trans hsecond)

/-- Indices that read as one actor lead to it. -/
theorem sameActor_of_actorReading? {script later : Script} {index other : Option Nat}
    {actor : Option Actor} (hindex : script.actorReading? index = some actor)
    (hother : later.actorReading? other = some actor) : SameActor script later index other := by
  have hhere := Script.bind_actorAt? hindex
  have hthere := Script.bind_actorAt? hother
  cases index with
  | none =>
    obtain rfl : none = actor := hhere
    cases other with
    | none => exact SameActor.none
    | some other => simp [Script.actorReading?] at hother
  | some index =>
    obtain ⟨speaker, hspeaker, rfl⟩ := Option.map_eq_some_iff.mp hindex
    cases other with
    | none => exact absurd hthere nofun
    | some other => exact SameActor.some hspeaker hthere

namespace SameActor

variable {script later : Script} {index other actor actor' : Option Nat}

/-- What two indices of one actor lead to is equal. -/
theorem bind_eq (h : SameActor script later index other) :
    other.bind later.actorAt? = index.bind script.actorAt? := by
  cases h with
  | none => rfl
  | some hindex hother => exact hother.trans hindex.symm

/-- The first of two indices that is there is one of the same actor, too. -/
theorem or (h : SameActor script later index other) (hactor : SameActor script later actor actor') :
    SameActor script later (actor.or index) (actor'.or other) := by
  cases hactor with
  | none => exact h
  | some hindex hother => exact SameActor.some hindex hother

/-- Portraits are switched alike: actors are the same here if they are the same there. -/
theorem switchPortrait_eq (hsound : script.Sound) (hlater : later.Sound)
    (h : SameActor script later index other) (hactor : SameActor script later actor actor')
    (portrait given : Option UInt32) :
    switchPortrait other portrait actor' given = switchPortrait index portrait actor given := by
  have hsame : actor'.isSome ∧ actor' ≠ other ↔ actor.isSome ∧ actor ≠ index := by
    cases hactor with
    | none => simp
    | @some i i' _ hi hi' =>
      cases h with
      | none => exact iff_of_true ⟨rfl, nofun⟩ ⟨rfl, nofun⟩
      | @some k k' _ hk hk' =>
        have heq : i' = k' ↔ i = k := by
          constructor
          · rintro rfl
            rw [hi', Option.some.injEq] at hk'
            exact hsound.actorAt?_inj hi (hk' ▸ hk)
          · rintro rfl
            rw [hi, Option.some.injEq] at hk
            exact hlater.actorAt?_inj hi' (hk ▸ hk')
        simp [heq]
  rw [switchPortrait, switchPortrait, if_congr hsame rfl rfl]

end SameActor

/-! ## Commands under other numbers -/

/-- Two commands say the same under the numbers of two scripts; what they do to the background and
the music is left open. -/
inductive Counterpart (script later : Script) : Command → Command → Prop
  | sprite {command other : SpriteCommand} {id : String} :
    script.sprites.nameAt? command.sprite = some id →
    later.sprites.nameAt? other.sprite = some id →
    SameActor script later command.actor other.actor → other.hide = command.hide →
    other.portrait = command.portrait → other.pos = command.pos → other.size = command.size →
    Counterpart script later (.sprite command) (.sprite other)
  | speak {command other : SpeakCommand} :
    SameActor script later command.actor other.actor → other.portrait = command.portrait →
    other.text = command.text → Counterpart script later (.speak command) (.speak other)
  | wait {duration : Single} : Counterpart script later (.wait duration) (.wait duration)
  | background {command other : BackgroundCommand} :
    Counterpart script later (.background command) (.background other)

/-- Commands that read alike, up to an empty name, are counterparts. -/
theorem counterpart_of_reading? {script later : Script} {command other : Command}
    {reading : Reading} (h : script.reading? command = some reading)
    (hother : later.reading? other = some reading.cleared) :
    Counterpart script later command other := by
  cases reading with
  | sprite id hide actor portrait pos size =>
    obtain ⟨_, _, rfl, hid, hactor⟩ := Script.reading?_eq_sprite_iff.mp h
    obtain ⟨_, _, rfl, hid', hactor'⟩ := Script.reading?_eq_sprite_iff.mp hother
    exact Counterpart.sprite hid hid' (sameActor_of_actorReading? hactor hactor') rfl rfl rfl rfl
  | speak actor portrait text =>
    obtain ⟨_, rfl, hactor⟩ := Script.reading?_eq_speak_iff.mp h
    obtain ⟨_, rfl, hactor'⟩ := Script.reading?_eq_speak_iff.mp hother
    exact Counterpart.speak (SameActor.some hactor hactor') rfl rfl
  | wait duration =>
    obtain rfl := Script.reading?_eq_wait_iff.mp h
    obtain rfl := Script.reading?_eq_wait_iff.mp hother
    exact Counterpart.wait
  | background image music =>
    obtain ⟨_, _, rfl, -⟩ := Script.reading?_eq_background_iff.mp h
    obtain ⟨_, _, rfl, -⟩ := Script.reading?_eq_background_iff.mp hother
    exact Counterpart.background

/-- A script says the same as another under other numbers. It may know fewer sprites, but then no
command mentions the others. -/
structure Script.Restates (script later : Script) : Prop where
  sound : script.Sound
  sound_later : later.Sound
  untouched : script.sprites.Untouched
  untouched_later : later.sprites.Untouched
  commands : List.Forall₂ (Counterpart script later) script.commands later.commands
  names_subset : ∀ name ∈ later.sprites.names, name ∈ script.sprites.names

/-- A sprite of a loaded script is mentioned by one of its commands. -/
theorem Script.exists_mention_of_load {limits : Limits} {value : Json} {script : Script}
    (h : load limits value = .ok script) {name : String} (hname : name ∈ script.sprites.names) :
    ∃ command ∈ script.commands, ∃ reading, script.reading? command = some reading ∧
      reading.sprite? = some name := by
  obtain ⟨readings, hreadings, htables, -, -⟩ := eq_tables_of_load h
  have hpool : script.sprites = Pool.ofNames ((readings.map Reading.sprite?).filterMap id) :=
    congrArg Script.sprites htables
  rw [hpool, Pool.mem_names_ofNames, List.mem_filterMap] at hname
  obtain ⟨_, hmem, rfl⟩ := hname
  obtain ⟨reading, hreading, hsprite⟩ := List.mem_map.mp hmem
  obtain ⟨command, hcommand, hread⟩ := exists_mem_of_forall₂ hreadings hreading
  exact ⟨command, hcommand, reading, hread, hsprite⟩

/-- A script that can be saved and opened is restated. -/
theorem Script.Reachable.exists_restates {limits : Limits} {script : Script} (h : script.Reachable)
    (hwithin : Within limits script) :
    ∃ value later, script.toJson = .ok value ∧ Script.load limits value = .ok later ∧
      script.Restates later := by
  obtain ⟨value, later, hvalue, hload, -, hcommands⟩ := h.sound.exists_load_toJson hwithin
  have hcounterparts : List.Forall₂ (fun command other =>
      (script.reading? command).map Reading.cleared = later.reading? other)
      script.commands later.commands := forall₂_eq_iff_map_eq.mpr hcommands.symm
  refine ⟨value, later, hvalue, hload, h.sound, sound_of_load hload, h.untouched,
    untouched_of_load hload, ?_, ?_⟩
  · have hboth := (List.forall₂_and_left _ _).mpr ⟨h.sound.admitted, hcounterparts⟩
    refine hboth.imp fun command other hcommand => ?_
    obtain ⟨reading, hreading, -⟩ := hcommand.1.exists_reading
    have hother := hcommand.2
    rw [hreading, Option.map_some] at hother
    exact counterpart_of_reading? hreading hother.symm
  · intro name hname
    obtain ⟨other, hother, reading, hreading, hsprite⟩ := exists_mention_of_load hload hname
    obtain ⟨command, -, hcleared⟩ := exists_mem_of_forall₂ hcounterparts hother
    rw [hreading] at hcleared
    obtain ⟨first, hfirst, rfl⟩ := Option.map_eq_some_iff.mp hcleared
    cases first with
    | sprite id hide actor portrait pos size =>
      obtain ⟨_, _, -, hid, -⟩ := Script.reading?_eq_sprite_iff.mp hfirst
      obtain rfl := Option.some.inj hsprite
      exact mem_names_of_nameAt? h.sound.sprites hid
    | _ => exact absurd hsprite nofun

/-! ## Sprites under other numbers -/

/-- A sprite is in the same state, drawn with the same actor. -/
structure SameState (script later : Script) (here there : SpriteState) : Prop where
  visible : there.visible = here.visible
  pos : there.pos = here.pos
  size : there.size = here.size
  portrait : there.portrait = here.portrait
  actor : SameActor script later here.actor there.actor

/-- Under each name there is a sprite in the same state; what only one script knows is hidden. -/
structure SameSprites (script later : Script) (here there : List SpriteState) : Prop where
  length_here : here.length = script.sprites.size
  length_there : there.length = later.sprites.size
  same : ∀ {index other : Nat} {name : String} {state state' : SpriteState},
    script.sprites.nameAt? index = some name → later.sprites.nameAt? other = some name →
    here[index]? = some state → there[other]? = some state' → SameState script later state state'
  hidden : ∀ {index : Nat} {name : String} {state : SpriteState},
    script.sprites.nameAt? index = some name → name ∉ later.sprites.names →
    here[index]? = some state → state.visible = false

namespace Script.Restates

variable {script later : Script} (h : script.Restates later)
include h

/-- A command and its counterpart have the same effect on a sprite. -/
theorem sameState_apply {here there : SpriteState} (hstate : SameState script later here there)
    {command other : SpriteCommand}
    (hcommand : Counterpart script later (.sprite command) (.sprite other)) :
    SameState script later (here.apply command) (there.apply other) := by
  cases hcommand with
  | sprite _ _ hactor hhide hportrait hpos hsize =>
    constructor
    case visible => exact congrArg not hhide
    case pos => rw [SpriteState.apply, SpriteState.apply, hpos, hstate.pos]
    case size => rw [SpriteState.apply, SpriteState.apply, hsize, hstate.size]
    case portrait =>
      rw [SpriteState.apply, SpriteState.apply, hstate.portrait, hportrait]
      exact hstate.actor.switchPortrait_eq h.sound h.sound_later hactor _ _
    case actor => exact hstate.actor.or hactor

omit h in
/-- Before the first command a sprite is as its name makes it. -/
theorem state_of_untouched {pool : Pool Sprite} (hpool : pool.Registered)
    (huntouched : pool.Untouched) {index : Nat} {name : String} {state : SpriteState}
    (hname : pool.nameAt? index = some name)
    (hstate : (pool.entries.map Sprite.state)[index]? = some state) :
    state = (Sprite.ofId name).state := by
  rw [hpool.nameAt?_eq] at hname
  rw [huntouched, List.map_map, List.getElem?_map, hname] at hstate
  exact (Option.some.inj hstate).symm

/-- Before the first command no sprite is to be seen, and all are alike. -/
theorem sameSprites_initial : SameSprites script later (script.sprites.entries.map Sprite.state)
    (later.sprites.entries.map Sprite.state) where
  length_here := List.length_map _
  length_there := List.length_map _
  same hname hother hhere hthere := by
    obtain rfl := state_of_untouched h.sound.sprites h.untouched hname hhere
    obtain rfl := state_of_untouched h.sound_later.sprites h.untouched_later hother hthere
    exact ⟨rfl, rfl, rfl, rfl, SameActor.none⟩
  hidden hname _ hhere := by
    obtain rfl := state_of_untouched h.sound.sprites h.untouched hname hhere
    rfl

/-- A command changes the sprite of one name on both stages, and in the same way. -/
theorem sameSprites_modify {here there : List SpriteState}
    (hsprites : SameSprites script later here there) {command other : SpriteCommand}
    (hcommand : Counterpart script later (.sprite command) (.sprite other)) :
    SameSprites script later (here.modify command.sprite (·.apply command))
      (there.modify other.sprite (·.apply other)) := by
  obtain ⟨id, hid, hid'⟩ : ∃ id, script.sprites.nameAt? command.sprite = some id ∧
      later.sprites.nameAt? other.sprite = some id := by
    cases hcommand with
    | sprite hid hid' => exact ⟨_, hid, hid'⟩
  constructor
  case length_here => exact (List.length_modify _ _ _).trans hsprites.length_here
  case length_there => exact (List.length_modify _ _ _).trans hsprites.length_there
  case same =>
    intro index place name _ _ hname hname' hhere hthere
    rw [List.getElem?_modify, Option.map_eq_map, Option.map_eq_some_iff] at hhere hthere
    obtain ⟨state, hstate, rfl⟩ := hhere
    obtain ⟨state', hstate', rfl⟩ := hthere
    have hsame := hsprites.same hname hname' hstate hstate'
    by_cases hindex : command.sprite = index
    · have hplace : other.sprite = place := by
        rw [hindex, hname, Option.some.injEq] at hid
        exact h.sound_later.sprites.nameAt?_inj hid' (hid ▸ hname')
      rw [if_pos hindex, if_pos hplace]
      exact h.sameState_apply hsame hcommand
    · have hplace : other.sprite ≠ place := by
        rintro rfl
        rw [hid', Option.some.injEq] at hname'
        exact hindex (h.sound.sprites.nameAt?_inj hid (hname' ▸ hname))
      rw [if_neg hindex, if_neg hplace]
      exact hsame
  case hidden =>
    intro index name _ hname hnew hhere
    rw [List.getElem?_modify, Option.map_eq_map, Option.map_eq_some_iff] at hhere
    obtain ⟨state, hstate, rfl⟩ := hhere
    -- the command mentions a sprite that both scripts know
    have hindex : command.sprite ≠ index := by
      rintro rfl
      rw [hid, Option.some.injEq] at hname
      exact hnew (hname ▸ mem_names_of_nameAt? h.sound_later.sprites hid')
    rw [if_neg hindex]
    exact hsprites.hidden hname hnew hstate

end Script.Restates

/-! ## The simulation -/

/-- Two playbacks are at the same place of scripts that say the same, with the same on stage. -/
structure Mirrors (script later : Script) (here there : Playback) : Prop where
  script_eq : here.script = script
  later_eq : there.script = later
  settings_eq : there.settings = here.settings
  phase_eq : there.phase = here.phase
  place_eq : there.place = here.place
  wait_eq : there.wait = here.wait
  timer_eq : there.revealTimer = here.revealTimer
  line_eq : there.stage.line = here.stage.line
  speaker : SameActor script later here.stage.speaker there.stage.speaker
  portrait_eq : there.stage.portrait = here.stage.portrait
  sprites : SameSprites script later here.stage.sprites there.stage.sprites

namespace Mirrors

variable {script later : Script} (hrestates : script.Restates later) {here there : Playback}

/-! ### Commands -/

section Commands

include hrestates

/-- A line begins on both sides. -/
theorem speak (h : Mirrors script later here there) {command other : SpeakCommand}
    (hactor : SameActor script later command.actor other.actor)
    (hportrait : other.portrait = command.portrait) (htext : other.text = command.text) :
    Mirrors script later (here.speak command) (there.speak other) := by
  have hswitch : (there.speak other).stage.portrait = (here.speak command).stage.portrait := by
    show switchPortrait there.stage.speaker there.stage.portrait other.actor other.portrait =
      switchPortrait here.stage.speaker here.stage.portrait command.actor command.portrait
    rw [h.portrait_eq, hportrait]
    exact h.speaker.switchPortrait_eq hrestates.sound hrestates.sound_later hactor _ _
  exact { h with
    phase_eq := rfl
    timer_eq := rfl
    line_eq := congrArg (some ∘ Line.new) htext
    speaker := h.speaker.or hactor
    portrait_eq := hswitch }

/-- Commands are carried out on both sides, up to the first that takes time. -/
theorem dispatch (h : Mirrors script later here there) {rest others : List Command}
    (hrest : List.Forall₂ (Counterpart script later) rest others)
    (hadmits : ∀ command ∈ rest, script.Admits command)
    (hadmits' : ∀ command ∈ others, later.Admits command) :
    Mirrors script later (here.dispatch rest) (there.dispatch others) := by
  induction hrest generalizing here there with
  | nil => exact { h with phase_eq := rfl }
  | cons hfirst hrest ih =>
    rw [List.forall_mem_cons] at hadmits hadmits'
    have hcommand := hfirst
    cases hfirst with
    | sprite =>
      rw [Playback.dispatch, Playback.dispatch,
        Playback.applySprite_eq (h.sprites.length_here ▸ hadmits.1.1),
        Playback.applySprite_eq (h.sprites.length_there ▸ hadmits'.1.1)]
      refine ih ?_ hadmits.2 hadmits'.2
      exact { h with
        place_eq := congrArg (· + 1) h.place_eq
        sprites := hrestates.sameSprites_modify h.sprites hcommand }
    | background =>
      rw [Playback.dispatch, Playback.dispatch,
        Playback.applyBackground_eq (h.script_eq ▸ hadmits.1),
        Playback.applyBackground_eq (h.later_eq ▸ hadmits'.1)]
      refine ih ?_ hadmits.2 hadmits'.2
      exact { h with place_eq := congrArg (· + 1) h.place_eq }
    | wait => exact { h with wait_eq := rfl }
    | speak hactor hportrait htext => exact h.speak hrestates hactor hportrait htext

/-- Running on keeps the playbacks alike. -/
theorem runUntilBlocked (h : Mirrors script later here there) :
    Mirrors script later here.runUntilBlocked there.runUntilBlocked := by
  rw [Playback.runUntilBlocked, Playback.runUntilBlocked, h.phase_eq, h.wait_eq, h.place_eq,
    h.script_eq, h.later_eq]
  split
  · refine h.dispatch hrestates (List.forall₂_drop _ hrestates.commands) ?_ ?_
    · exact fun command hcommand => hrestates.sound.admitted _ (List.mem_of_mem_drop hcommand)
    · exact fun command hcommand => hrestates.sound_later.admitted _ (List.mem_of_mem_drop hcommand)
  · exact h

/-- A wait runs on for both, or ends for both. -/
theorem waitFor (h : Mirrors script later here there) (delta : Single) :
    Mirrors script later (here.waitFor delta) (there.waitFor delta) := by
  rw [Playback.waitFor, Playback.waitFor, h.wait_eq]
  cases here.wait with
  | none => exact h
  | some timer =>
    dsimp only
    split
    · apply runUntilBlocked hrestates
      exact { h with wait_eq := rfl, place_eq := congrArg (· + 1) h.place_eq }
    · exact { h with wait_eq := rfl }

end Commands

/-! ### Signals -/

/-- Revealing keeps the playbacks alike. -/
theorem reveal (h : Mirrors script later here there) (delta : Single) :
    Mirrors script later (here.reveal delta) (there.reveal delta) := by
  rw [Playback.reveal, Playback.reveal, h.line_eq]
  cases here.stage.line with
  | none => exact { h with phase_eq := rfl }
  | some line =>
    dsimp only
    rw [h.timer_eq, h.settings_eq, h.phase_eq]
    exact { h with settings_eq := rfl, phase_eq := rfl, timer_eq := rfl, line_eq := rfl }

include hrestates in
/-- A tick keeps the playbacks alike. -/
theorem tick (h : Mirrors script later here there) (delta : Single) :
    Mirrors script later (here.tick delta).2 (there.tick delta).2 := by
  have hready := h.runUntilBlocked hrestates
  have hspent : Mirrors script later (here.runUntilBlocked.spend (Playback.usableDelta delta))
      (there.runUntilBlocked.spend (Playback.usableDelta delta)) := by
    rw [Playback.spend, Playback.spend, hready.phase_eq]
    split
    · exact hready.reveal _
    · exact hready.waitFor hrestates _
    · exact hready
  rw [Playback.tick, Playback.tick, h.phase_eq]
  split
  · exact h
  · exact h
  · exact hspent

include hrestates in
/-- A line is left on both sides, and is the last on both or on neither. -/
theorem leaveLine (h : Mirrors script later here there) :
    Mirrors script later here.leaveLine there.leaveLine := by
  have hlast : there.script.commands.length ≤ there.place + 1 ↔
      here.script.commands.length ≤ here.place + 1 := by
    rw [h.later_eq, h.script_eq, h.place_eq, hrestates.commands.length_eq]
  rw [Playback.leaveLine_eq, Playback.leaveLine_eq]
  exact { h with
    line_eq := rfl
    place_eq := congrArg (· + 1) h.place_eq
    phase_eq := if_congr hlast rfl rfl }

/-- Completing a line keeps the playbacks alike. -/
theorem completeLine (h : Mirrors script later here there) :
    Mirrors script later here.completeLine there.completeLine :=
  { h with
    line_eq := congrArg (Option.map Line.revealAll) h.line_eq
    timer_eq := rfl
    phase_eq := rfl }

include hrestates in
/-- Going on keeps the playbacks alike. -/
theorem advance (h : Mirrors script later here there) :
    Mirrors script later here.advance.2 there.advance.2 := by
  rw [Playback.advance, Playback.advance, h.phase_eq, h.settings_eq]
  split
  · exact h.leaveLine hrestates
  · split
    · exact h
    · exact h.completeLine
  · exact h

include hrestates in
/-- Both start over from the first command. -/
theorem start (h : Mirrors script later here there) :
    Mirrors script later here.start there.start := by
  obtain ⟨_, _, ⟨image, track⟩, _, _, _, _, _, _, _⟩ := here
  obtain ⟨_, _, ⟨image', track'⟩, _, _, _, _, _, _, _⟩ := there
  obtain rfl := h.script_eq
  obtain rfl := h.later_eq
  have hsettings := h.settings_eq
  -- image and track of the openings change only what is not compared
  cases image <;> cases track <;> cases image' <;> cases track' <;>
    exact ⟨rfl, rfl, hsettings, rfl, rfl, rfl, rfl, rfl, SameActor.none, rfl,
      hrestates.sameSprites_initial⟩

include hrestates in
/-- Settings that one script can be played with are those that the other can be played with. -/
theorem exists_new {settings : Settings} {opening : Opening}
    (h : Playback.new script settings opening = .ok here) :
    ∃ there, Playback.new later settings opening = .ok there ∧
      Mirrors script later here there := by
  simp only [Playback.new, bind_eq_ok, exists_unit, pure_eq_ok] at h ⊢
  obtain ⟨hvalid, rfl⟩ := h
  exact ⟨_, ⟨hvalid, rfl⟩, rfl, rfl, rfl, rfl, rfl, rfl, rfl, rfl, SameActor.none, rfl,
    hrestates.sameSprites_initial⟩

end Mirrors

/-! ## Frames -/

/-- A sprite in the same state is drawn the same. -/
theorem SameState.view_eq {script later : Script} {here there : SpriteState}
    (h : SameState script later here there) (name : String) :
    there.view later name = here.view script name := by
  rw [SpriteState.view, SpriteState.view, h.visible, h.pos, h.size, h.actor.bind_eq, h.portrait]

/-- Sprites in the order of names that differ are in the order of their positions. -/
theorem pairwise_of_sublist {names : List String} (hnodup : names.Nodup) {views : List SpriteView}
    (h : (views.map (·.id)).Sublist names) :
    views.Pairwise fun view other => names.idxOf view.id < names.idxOf other.id := by
  have hnames : names.Pairwise fun name other => names.idxOf name < names.idxOf other := by
    rw [List.pairwise_iff_getElem]
    intro i j hi hj hlt
    rw [hnodup.idxOf_getElem, hnodup.idxOf_getElem]
    exact hlt
  have hids := hnames.sublist h
  rw [List.pairwise_map] at hids
  exact hids

namespace Mirrors

variable {script later : Script} {here there : Playback}

/-- The frames show one speaker. -/
theorem speaker_frame (h : Mirrors script later here there) :
    there.frame.speaker = here.frame.speaker := by
  show (there.stage.line.bind fun _ => there.stage.speaker.bind there.script.actorAt?) =
    here.stage.line.bind fun _ => here.stage.speaker.bind here.script.actorAt?
  rw [h.line_eq, h.later_eq, h.script_eq, h.speaker.bind_eq]

/-- The frames show one portrait. -/
theorem portrait_frame (h : Mirrors script later here there) :
    there.frame.portrait = here.frame.portrait := by
  show (there.frame.speaker.bind fun actor => there.stage.portrait.bind actor.portraitView) =
    here.frame.speaker.bind fun actor => here.stage.portrait.bind actor.portraitView
  rw [h.speaker_frame, h.portrait_eq]

/-- The frames show one text. -/
theorem text_frame (h : Mirrors script later here there) : there.frame.text = here.frame.text :=
  congrArg (Option.map Line.shown) h.line_eq

/-- The same sprites are shown. -/
theorem mem_sprites_frame_iff (hrestates : script.Restates later)
    (h : Mirrors script later here there) {view : SpriteView} :
    view ∈ there.frame.sprites ↔ view ∈ here.frame.sprites := by
  rw [Playback.mem_sprites_frame, Playback.mem_sprites_frame, h.later_eq, h.script_eq]
  refine and_congr_right fun hvisible => ?_
  constructor
  · rintro ⟨other, state', name, hstate', hname', rfl⟩
    have hknown : name ∈ script.sprites.names := hrestates.names_subset name
      (Script.mem_names_of_nameAt? hrestates.sound_later.sprites hname')
    obtain ⟨index, hname⟩ := hrestates.sound.sprites.exists_nameAt? hknown
    have hlt : index < here.stage.sprites.length :=
      h.sprites.length_here ▸ Pool.lt_size_iff.mpr ⟨name, hname⟩
    have hstate := List.getElem?_eq_getElem hlt
    have hsame := h.sprites.same hname hname' hstate hstate'
    exact ⟨index, _, name, hstate, hname, (hsame.view_eq name).symm⟩
  · rintro ⟨index, state, name, hstate, hname, rfl⟩
    -- a sprite that no command mentions is not to be seen
    have hknown : name ∈ later.sprites.names := by
      by_contra hnew
      have hhidden := h.sprites.hidden hname hnew hstate
      rw [SpriteState.view, hhidden] at hvisible
      exact Bool.false_ne_true hvisible
    obtain ⟨other, hname'⟩ := hrestates.sound_later.sprites.exists_nameAt? hknown
    have hlt : other < there.stage.sprites.length :=
      h.sprites.length_there ▸ Pool.lt_size_iff.mpr ⟨name, hname'⟩
    have hstate' := List.getElem?_eq_getElem hlt
    have hsame := h.sprites.same hname hname' hstate hstate'
    exact ⟨other, _, name, hstate', hname', hsame.view_eq name⟩

section Sprites

variable (hrestates : script.Restates later) (h : Mirrors script later here there)
include hrestates h

theorem ids_here : (here.frame.sprites.map (·.id)).Sublist script.sprites.names := by
  have hids := Playback.ids_frame_sublist (h.script_eq ▸ hrestates.sound.sprites)
    (h.script_eq ▸ h.sprites.length_here)
  rwa [h.script_eq] at hids

theorem ids_there : (there.frame.sprites.map (·.id)).Sublist later.sprites.names := by
  have hids := Playback.ids_frame_sublist (h.later_eq ▸ hrestates.sound_later.sprites)
    (h.later_eq ▸ h.sprites.length_there)
  rwa [h.later_eq] at hids

/-- The frames show the same sprites, in some order. -/
theorem perm_sprites_frame : there.frame.sprites.Perm here.frame.sprites := by
  rw [List.perm_ext_iff_of_nodup]
  · exact fun view => h.mem_sprites_frame_iff hrestates
  · exact ((h.ids_there hrestates).nodup hrestates.sound_later.sprites.nodup).of_map
  · exact ((h.ids_here hrestates).nodup hrestates.sound.sprites.nodup).of_map

/-- The frames show the sprites alike if they show them in the same order of the pool. -/
theorem sprites_frame_eq_iff : there.frame.sprites = here.frame.sprites ↔
    (there.frame.sprites.map (·.id)).Sublist script.sprites.names := by
  constructor
  · intro heq
    rw [heq]
    exact h.ids_here hrestates
  · intro hthere
    have hnodup := hrestates.sound.sprites.nodup
    refine List.Perm.eq_of_pairwise ?_ (pairwise_of_sublist hnodup hthere)
      (pairwise_of_sublist hnodup (h.ids_here hrestates)) (h.perm_sprites_frame hrestates)
    intro view other _ _ hlt hgt
    omega

end Sprites

end Mirrors

namespace Session

variable {script later : Script} (hrestates : script.Restates later) {here there : Session}
include hrestates

/-- Each signal keeps two playbacks at the same place. -/
theorem mirrors_step (h : Mirrors script later here.playback there.playback) (signal : Signal) :
    Mirrors script later (here.step signal).playback (there.step signal).playback := by
  cases signal with
  | start => exact h.start hrestates
  | tick delta => exact h.tick hrestates delta
  | advance => exact h.advance hrestates
  | drain => exact { h with }
  | present => exact { h with }
  | frame => exact h

/-- Playbacks that are alike stay so along any signals. -/
theorem mirrors_run (h : Mirrors script later here.playback there.playback)
    (signals : List Signal) :
    Mirrors script later (here.run signals).playback (there.run signals).playback := by
  induction signals generalizing here there with
  | nil => exact h
  | cons signal signals ih => exact ih (mirrors_step hrestates h signal)

omit hrestates

/-- A script within limits can be saved and opened, and played with the same signals it takes the
same course: after each of them phase and place are the same, and so are the speaker, portrait and
text of a frame and the sprites that it shows. These are shown in the same order if and only if it
is that of the pool they were added to. -/
theorem run_reopened {limits : Limits} {script : Script} (hreachable : script.Reachable)
    (hwithin : Script.Within limits script) :
    ∃ value later, script.toJson = .ok value ∧ Script.load limits value = .ok later ∧
      ∀ (settings : Settings) (opening : Opening) (here : Playback),
        Playback.new script settings opening = .ok here →
        ∃ there, Playback.new later settings opening = .ok there ∧ ∀ signals : List Signal,
          let here := (Session.run ⟨here, []⟩ signals).playback
          let there := (Session.run ⟨there, []⟩ signals).playback
          there.phase = here.phase ∧ there.place = here.place ∧
            there.frame.speaker = here.frame.speaker ∧
            there.frame.portrait = here.frame.portrait ∧ there.frame.text = here.frame.text ∧
            there.frame.sprites.Perm here.frame.sprites ∧
            (there.frame.sprites = here.frame.sprites ↔
              (there.frame.sprites.map (·.id)).Sublist script.sprites.names) := by
  obtain ⟨value, later, hvalue, hload, hrestates⟩ := hreachable.exists_restates hwithin
  refine ⟨value, later, hvalue, hload, ?_⟩
  intro settings opening here hhere
  obtain ⟨there, hthere, hmirrors⟩ := Mirrors.exists_new hrestates hhere
  refine ⟨there, hthere, fun signals => ?_⟩
  have h : Mirrors script later (Session.run ⟨here, []⟩ signals).playback
      (Session.run ⟨there, []⟩ signals).playback := mirrors_run hrestates hmirrors signals
  exact ⟨h.phase_eq, h.place_eq, h.speaker_frame, h.portrait_frame, h.text_frame,
    h.perm_sprites_frame hrestates, h.sprites_frame_eq_iff hrestates⟩

/-- The greeting is opened again, and begins to reveal the same line. -/
theorem run_reopened_greeting :
    ∃ value later there, (Script.empty.editAll Script.greeting).toJson = .ok value ∧
      Script.load .standard value = .ok later ∧
      Playback.new later .standard ⟨none, none⟩ = .ok there ∧
      let there := (Session.run ⟨there, []⟩ [.start, .tick 1]).playback
      there.place = 1 ∧ there.frame.text = some "H" := by
  have hwithin : Script.Within .standard (Script.empty.editAll Script.greeting) := by
    constructor <;> decide +kernel
  obtain ⟨value, later, hvalue, hload, hplay⟩ :=
    run_reopened (Script.Reachable.empty.editAll Script.greeting) hwithin
  have hhere : Playback.new (Script.empty.editAll Script.greeting) .standard ⟨none, none⟩ =
      .ok _ := rfl
  obtain ⟨there, hthere, hsame⟩ := hplay .standard ⟨none, none⟩ _ hhere
  obtain ⟨-, hplace, -, -, htext, -⟩ := hsame [.start, .tick 1]
  exact ⟨value, later, there, hvalue, hload, hthere, hplace.trans (by decide +kernel),
    htext.trans (by decide +kernel)⟩

/-- A history in which two sprites are added in one order and shown in the other. -/
def swapped : List Script.Edit :=
  [.ensureSprite "b", .ensureSprite "a", .push (.sprite ⟨1, false, none, none, none, none⟩),
    .push (.sprite ⟨0, false, none, none, none, none⟩)]

/-- Two sprites change places in the frame when the script is saved and opened. -/
theorem frame_reordered :
    (Script.empty.editAll swapped).Reachable ∧
      Script.Within .standard (Script.empty.editAll swapped) ∧
      ∃ value later here there, (Script.empty.editAll swapped).toJson = .ok value ∧
        Script.load .standard value = .ok later ∧
        Playback.new (Script.empty.editAll swapped) .standard ⟨none, none⟩ = .ok here ∧
        Playback.new later .standard ⟨none, none⟩ = .ok there ∧
        let here := (Session.run ⟨here, []⟩ [.start, .tick 1]).playback
        let there := (Session.run ⟨there, []⟩ [.start, .tick 1]).playback
        here.frame.sprites.map (·.id) = ["b", "a"] ∧
          there.frame.sprites.map (·.id) = ["a", "b"] := by
  have hwithin : Script.Within .standard (Script.empty.editAll swapped) := by
    constructor <;> decide +kernel
  obtain ⟨value, hvalue⟩ := exists_eq_ok
    (by decide +kernel : (Script.empty.editAll swapped).toJson.toOption.isSome)
  have hreopened : ((Script.empty.editAll swapped).toJson >>= Script.load .standard).toOption =
      some { Script.empty.editAll [.ensureSprite "a", .ensureSprite "b"] with
        commands := [.sprite ⟨0, false, none, none, none, none⟩,
          .sprite ⟨1, false, none, none, none, none⟩] } := by
    decide +kernel
  rw [hvalue, ok_bind] at hreopened
  cases hload : Script.load .standard value with
  | error error =>
    rw [hload] at hreopened
    cases hreopened
  | ok later =>
    rw [hload] at hreopened
    obtain rfl := Option.some.inj hreopened
    exact ⟨Script.Reachable.empty.editAll swapped, hwithin, value, _, _, _, hvalue, hload, rfl, rfl,
      by decide +kernel, by decide +kernel⟩

end Session

end VisualNovel
