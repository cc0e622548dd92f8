import VisualNovel.Proofs.Playback.Follow
import VisualNovel.Proofs.Playback.View

/-!
# Hosts

A host keeps a stage of its own, and changes it only when it is told to. It is told of a cue when
the cues are passed on, and a sprite is then drawn as it is by that time, which may be later than
the change that the cue was for.

Background and music are the two channels of the stage. What a channel is set to is what the last
cue for it says, on the host's stage (`Channel.heard_listen_present`) and in the scenery
(`Channel.staged_foldl`) alike. A sprite that one of the cues is for is drawn as it is now, however
often it has changed (`Playback.getElem?_sprites_foldl_tell`).
-/

namespace VisualNovel

/-! ## What a host does -/

/-- What a host shows and plays, and how it draws each sprite. -/
structure Host where
  background : Option String
  music : Option String
  sprites : List SpriteView
  deriving DecidableEq, Repr

namespace Host

/-- A host that was told nothing yet: no background or music, and each sprite as the pool has it. -/
def bare (script : Script) : Host :=
  ⟨none, none, script.sprites.entries.map fun sprite => sprite.state.view script sprite.id⟩

/-- A host does what it is told; a sprite takes the place of the one of its id. -/
def hear (host : Host) : Notice → Host
  | .showBackground image => { host with background := some image }
  | .clearBackground => { host with background := none }
  | .playMusic track => { host with music := some track }
  | .stopMusic => { host with music := none }
  | .updateSprite view =>
    { host with sprites := host.sprites.map fun old => if old.id = view.id then view else old }

/-- A host hears one notice after the other. -/
def listen (host : Host) (notices : List Notice) : Host := notices.foldl hear host

theorem listen_append (host : Host) (notices more : List Notice) :
    host.listen (notices ++ more) = (host.listen notices).listen more :=
  List.foldl_append

end Host

namespace Playback

/-- A host after a cue is passed on to it. -/
def tell (playback : Playback) (host : Host) (cue : Cue) : Host :=
  (playback.notice? cue).elim host host.hear

/-- Presenting tells a host of each of the cues. -/
theorem listen_present (playback : Playback) (host : Host) :
    host.listen playback.present.1 = playback.cues.foldl playback.tell host := by
  rw [Host.listen, present, List.foldl_filterMap]
  congr 1
  funext host cue
  rw [tell]
  cases playback.notice? cue <;> rfl

/-- A cue for a sprite changes nothing but how sprites are drawn. -/
theorem tell_spriteChanged (playback : Playback) (host : Host) (index : Nat) :
    ∃ sprites, playback.tell host (.spriteChanged index) = { host with sprites } := by
  rw [tell, notice?]
  cases playback.spriteView? index <;> exact ⟨_, rfl⟩

end Playback

/-- The commands that a playback has carried out refer to what is there. -/
theorem Follows.admitted_done {script : Script} {opening : Opening} {taken : List Cue}
    {playback : Playback} (hsound : script.Sound) (h : Follows script opening taken playback) :
    ∀ command ∈ playback.done, script.Admits command := by
  intro command hcommand
  rw [Playback.done, h.script_eq] at hcommand
  exact hsound.admitted command (List.mem_of_mem_take hcommand)

/-! ## What is said about background and music -/

namespace Command

/-- What a command says about the background. -/
def image : Command → AssetRef
  | background command => command.image
  | _ => .keep

/-- What a command says about the music. -/
def track : Command → AssetRef
  | background command => command.music
  | _ => .keep

end Command

namespace Cue

/-- What a cue says that the background is to be, if it is for the background. -/
def image? : Cue → Option (Option String)
  | showBackground image => some (some image)
  | clearBackground => some none
  | _ => none

/-- What a cue says that the music is to be, if it is for the music. -/
def track? : Cue → Option (Option String)
  | playMusic track => some (some track)
  | stopMusic => some none
  | _ => none

end Cue

namespace AssetRef

/-- What there is to be after a change, unless all is kept. -/
def change? (pool : Pool String) : AssetRef → Option (Option String)
  | keep => none
  | clear => some none
  | set index => some (pool.nameAt? index)

variable {pool : Pool String} {asset : AssetRef}

/-- A change has its effect on whatever there is now. -/
theorem after_eq (pool : Pool String) (current : Option String) (asset : AssetRef) :
    asset.after pool current = (asset.change? pool).getD current := by
  cases asset <;> rfl

theorem change?_eq_none_iff : asset.change? pool = none ↔ asset = .keep := by
  cases asset <;> simp [change?]

section Cues

variable {shown : String → Cue} {cleared : Cue} {says? : Cue → Option (Option String)}

/-- The cue of a change says what the change is. -/
theorem filterMap_cues (h : Script.AssetResolves pool asset)
    (hshown : ∀ name, says? (shown name) = some (some name))
    (hcleared : says? cleared = some none) :
    (asset.cues pool shown cleared).filterMap says? = (asset.change? pool).toList := by
  cases asset with
  | keep => rfl
  | clear =>
    rw [cues, List.filterMap_cons_some hcleared]
    rfl
  | set index =>
    obtain ⟨name, hname⟩ := Pool.lt_size_iff.mp (h index rfl)
    rw [cues, change?, hname]
    exact List.filterMap_cons_some (hshown name)

/-- It says nothing about anything else. -/
theorem filterMap_cues_eq_nil (hshown : ∀ name, says? (shown name) = none)
    (hcleared : says? cleared = none) : (asset.cues pool shown cleared).filterMap says? = [] := by
  cases asset with
  | keep => rfl
  | clear => exact List.filterMap_cons_none hcleared
  | set index =>
    rw [cues, List.filterMap_map, List.filterMap_eq_nil_iff]
    exact fun name _ => hshown name

/-- There are no cues but those for showing and taking away. -/
theorem not_mem_cues {cue : Cue} (hshown : ∀ name, shown name ≠ cue) (hcleared : cleared ≠ cue) :
    cue ∉ asset.cues pool shown cleared := by
  cases asset with
  | keep => exact List.not_mem_nil
  | clear =>
    rw [cues, List.mem_singleton]
    exact hcleared.symm
  | set index =>
    rw [cues, List.mem_map]
    rintro ⟨name, -, hname⟩
    exact hshown name hname

end Cues

end AssetRef

/-! ## Channels -/

/-- A part of the stage that is set as a whole: the background or the music. It comes with what
cues, commands and openings say about it, and all of them agree. -/
structure Channel where
  heard : Host → Option String
  staged : Scenery → Option String
  opened : Opening → Option String
  /-- What a cue says that it is to be, if the cue is for it. -/
  says? : Cue → Option (Option String)
  /-- What a command says about it; the names are those of a pool. -/
  asset : Command → AssetRef
  pool : Script → Pool String
  heard_bare : ∀ script, heard (.bare script) = none
  heard_tell : ∀ (playback : Playback) (host : Host) (cue : Cue),
    heard (playback.tell host cue) = (says? cue).getD (heard host)
  staged_opening : ∀ script opening, staged (.opening script opening) = opened opening
  staged_after : ∀ script scenery command,
    staged (scenery.after script command) = (asset command).after (pool script) (staged scenery)
  opening_cues : ∀ opening, opening.cues.filterMap says? = (opened opening).toList.map some
  command_cues : ∀ {script : Script} {command : Command}, script.Admits command →
    (command.cues script).filterMap says? = ((asset command).change? (pool script)).toList

namespace Channel

/-- What is shown. -/
def image : Channel where
  heard := Host.background
  staged := Scenery.background
  opened := Opening.background
  says? := Cue.image?
  asset := Command.image
  pool := Script.backgrounds
  heard_bare _ := rfl
  heard_tell playback host cue := by
    cases cue with
    | spriteChanged index =>
      obtain ⟨sprites, htold⟩ := playback.tell_spriteChanged host index
      rw [htold]
      rfl
    | _ => rfl
  staged_opening _ _ := rfl
  staged_after script scenery command := by cases command <;> rfl
  opening_cues opening := by
    obtain ⟨background, music⟩ := opening
    cases background <;> cases music <;> rfl
  command_cues {script command} hadmits := by
    cases command with
    | background command =>
      rw [Command.cues, List.filterMap_append,
        AssetRef.filterMap_cues hadmits.1 (fun _ => rfl) rfl,
        AssetRef.filterMap_cues_eq_nil (fun _ => rfl) rfl, List.append_nil]
      rfl
    | _ => rfl

/-- What is played. -/
def track : Channel where
  heard := Host.music
  staged := Scenery.music
  opened := Opening.music
  says? := Cue.track?
  asset := Command.track
  pool := Script.music
  heard_bare _ := rfl
  heard_tell playback host cue := by
    cases cue with
    | spriteChanged index =>
      obtain ⟨sprites, htold⟩ := playback.tell_spriteChanged host index
      rw [htold]
      rfl
    | _ => rfl
  staged_opening _ _ := rfl
  staged_after script scenery command := by cases command <;> rfl
  opening_cues opening := by
    obtain ⟨background, music⟩ := opening
    cases background <;> cases music <;> rfl
  command_cues {script command} hadmits := by
    cases command with
    | background command =>
      rw [Command.cues, List.filterMap_append,
        AssetRef.filterMap_cues_eq_nil (fun _ => rfl) rfl,
        AssetRef.filterMap_cues hadmits.2 (fun _ => rfl) rfl, List.nil_append]
      rfl
    | _ => rfl

variable (channel : Channel)

/-- What the last of the cues for a channel says, if there is one. -/
def last? (cues : List Cue) : Option (Option String) := (cues.filterMap channel.says?).getLast?

theorem last?_append (cues more : List Cue) :
    channel.last? (cues ++ more) = (channel.last? more).or (channel.last? cues) := by
  rw [last?, List.filterMap_append, List.getLast?_append, last?, last?]

/-- Once the cues are passed on, a host has what the last of them says. -/
theorem heard_listen_present (playback : Playback) (host : Host) :
    channel.heard (host.listen playback.present.1) =
      (channel.last? playback.cues).getD (channel.heard host) := by
  rw [Playback.listen_present]
  induction playback.cues generalizing host with
  | nil => rfl
  | cons cue cues ih =>
    have hsingle : channel.last? [cue] = channel.says? cue := by
      rw [last?, List.filterMap_cons]
      cases channel.says? cue <;> rfl
    rw [List.foldl_cons, ih, channel.heard_tell, ← List.singleton_append, channel.last?_append,
      Option.getD_or, hsingle]

section Scenery

variable {channel} {script : Script}

theorem last?_opening (opening : Opening) :
    channel.last? opening.cues = (channel.opened opening).map some := by
  rw [last?, channel.opening_cues]
  cases channel.opened opening <;> rfl

theorem last?_command {command : Command} (hadmits : script.Admits command) :
    channel.last? (command.cues script) =
      (channel.asset command).change? (channel.pool script) := by
  rw [last?, channel.command_cues hadmits]
  cases (channel.asset command).change? (channel.pool script) <;> rfl

/-- After commands, the scenery has what the last of their cues says. -/
theorem staged_foldl {commands : List Command}
    (hadmitted : ∀ command ∈ commands, script.Admits command) (scenery : Scenery) :
    channel.staged (commands.foldl (Scenery.after script) scenery) =
      (channel.last? (commands.flatMap (Command.cues script))).getD (channel.staged scenery) := by
  induction commands generalizing scenery with
  | nil => rfl
  | cons command commands ih =>
    rw [List.forall_mem_cons] at hadmitted
    rw [List.foldl_cons, ih hadmitted.2, channel.staged_after, AssetRef.after_eq,
      ← last?_command hadmitted.1, List.flatMap_cons, channel.last?_append, Option.getD_or]

/-- There is a cue for a channel if a command says anything about it. -/
theorem last?_commands_eq_none_iff {commands : List Command}
    (hadmitted : ∀ command ∈ commands, script.Admits command) :
    channel.last? (commands.flatMap (Command.cues script)) = none ↔
      ∀ command ∈ commands, channel.asset command = .keep := by
  induction commands with
  | nil => exact iff_of_true rfl (List.forall_mem_nil _)
  | cons command commands ih =>
    rw [List.forall_mem_cons] at hadmitted ⊢
    rw [List.flatMap_cons, channel.last?_append, Option.or_eq_none_iff, ih hadmitted.2,
      last?_command hadmitted.1, AssetRef.change?_eq_none_iff, and_comm]

end Scenery

end Channel

/-! ## Sprites -/

/-- A cue for a sprite comes from a command for it. -/
theorem Command.eq_sprite_of_mem_cues {script : Script} {command : Command} {index : Nat}
    (h : .spriteChanged index ∈ command.cues script) :
    ∃ change, command = .sprite change ∧ change.sprite = index := by
  cases command with
  | sprite change => exact ⟨change, rfl, (Cue.spriteChanged.inj (List.mem_singleton.mp h)).symm⟩
  | background command =>
    rcases List.mem_append.mp h with himage | htrack
    · exact absurd himage (AssetRef.not_mem_cues nofun nofun)
    · exact absurd htrack (AssetRef.not_mem_cues nofun nofun)
  | wait duration => exact absurd h List.not_mem_nil
  | speak command => exact absurd h List.not_mem_nil

/-- There is no cue for a sprite before the first command. -/
theorem Opening.spriteChanged_not_mem_cues (opening : Opening) (index : Nat) :
    .spriteChanged index ∉ opening.cues := by
  simp [cues]

/-- Sprites that no cue is for stay as they are. -/
theorem Scenery.getElem?_sprites_foldl {script : Script} {commands : List Command} {index : Nat}
    (h : .spriteChanged index ∉ commands.flatMap (Command.cues script)) (scenery : Scenery) :
    (commands.foldl (after script) scenery).sprites[index]? = scenery.sprites[index]? := by
  induction commands generalizing scenery with
  | nil => rfl
  | cons command commands ih =>
    rw [List.flatMap_cons, List.mem_append, not_or] at h
    rw [List.foldl_cons, ih h.2]
    cases command with
    | sprite change =>
      have hother : change.sprite ≠ index := by
        rintro rfl
        exact h.1 List.mem_cons_self
      show (scenery.sprites.modify change.sprite _)[index]? = _
      exact List.getElem?_modify_ne _ _ hother
    | _ => rfl

/-- What a cue for a sprite names is there. -/
theorem Follows.lt_size_of_mem_cues {script : Script} {opening : Opening} {taken : List Cue}
    {playback : Playback} (hsound : script.Sound) (h : Follows script opening taken playback)
    {index : Nat} (hcue : .spriteChanged index ∈ playback.cues) : index < script.sprites.size := by
  have hqueued : .spriteChanged index ∈ taken ++ playback.cues := List.mem_append_right taken hcue
  rw [h.cues, List.mem_append, or_iff_right (opening.spriteChanged_not_mem_cues index),
    List.mem_flatMap] at hqueued
  obtain ⟨command, hdone, hmem⟩ := hqueued
  obtain ⟨change, rfl, rfl⟩ := Command.eq_sprite_of_mem_cues hmem
  exact (h.admitted_done hsound _ hdone).1

/-- A host has a view of each sprite of a script, in the order of the pool. -/
structure Host.Draws (host : Host) (script : Script) : Prop where
  length_eq : host.sprites.length = script.sprites.size
  name : ∀ {index : Nat} {view : SpriteView}, host.sprites[index]? = some view →
    script.sprites.nameAt? index = some view.id

theorem Host.draws_bare (script : Script) : (Host.bare script).Draws script where
  length_eq := List.length_map _
  name {index view} hview := by
    rw [bare, List.getElem?_map, Option.map_eq_some_iff] at hview
    obtain ⟨sprite, hsprite, rfl⟩ := hview
    rw [Pool.nameAt?, Pool.get?, hsprite]
    rfl

namespace Playback

variable {script : Script} {opening : Opening} {taken : List Cue} {playback : Playback}
  {host : Host}

/-- There is a view of every sprite. -/
theorem exists_spriteView? (hfollows : Follows script opening taken playback) {index : Nat}
    (hindex : index < script.sprites.size) : ∃ view, playback.spriteView? index = some view := by
  obtain rfl := hfollows.script_eq
  obtain ⟨_, _, -, -, hview⟩ := exists_view hfollows.length_sprites hindex
  exact ⟨_, hview⟩

section Tell

variable (hsound : script.Sound) (hfollows : Follows script opening taken playback)
include hsound hfollows

/-- A cue for a sprite has the host draw it as it is now; the other sprites stay. -/
theorem getElem?_sprites_tell (h : host.Draws script) (cue : Cue) (index : Nat) :
    (playback.tell host cue).sprites[index]? =
      if cue = .spriteChanged index then playback.spriteView? index else host.sprites[index]? := by
  cases cue with
  | spriteChanged changed =>
    rw [tell, notice?]
    cases hview : playback.spriteView? changed with
    | none =>
      split
      · next heq =>
        -- there is no such sprite, here or there
        obtain rfl := Cue.spriteChanged.inj heq
        rw [hview]
        refine List.getElem?_eq_none (Nat.not_lt.mp fun hlt => ?_)
        obtain ⟨view, hsome⟩ := exists_spriteView? hfollows (h.length_eq ▸ hlt)
        exact absurd (hview.symm.trans hsome) nofun
      · rfl
    | some view =>
      have hchanged := nameAt?_of_spriteView? hfollows.script_eq hview
      show (host.sprites.map fun old => if old.id = view.id then view else old)[index]? = _
      rw [List.getElem?_map]
      split
      · next heq =>
        obtain rfl := Cue.spriteChanged.inj heq
        have hlt : changed < host.sprites.length :=
          h.length_eq ▸ Pool.lt_size_iff.mpr ⟨view.id, hchanged⟩
        have hold := h.name (List.getElem?_eq_getElem hlt)
        rw [hchanged, Option.some.injEq] at hold
        rw [List.getElem?_eq_getElem hlt, Option.map_some, if_pos hold.symm, hview]
      · next hne =>
        cases hold : host.sprites[index]? with
        | none => rfl
        | some old =>
          have hid : old.id ≠ view.id := by
            intro heq
            have hname := h.name hold
            rw [heq] at hname
            exact hne (congrArg Cue.spriteChanged (hsound.sprites.nameAt?_inj hchanged hname))
          rw [Option.map_some, if_neg hid]
  | _ => rfl

/-- A host that is told of a cue draws the same sprites. -/
theorem draws_tell (h : host.Draws script) (cue : Cue) : (playback.tell host cue).Draws script where
  length_eq := by
    rw [← h.length_eq]
    cases cue with
    | spriteChanged index =>
      rw [tell, notice?]
      cases playback.spriteView? index with
      | none => rfl
      | some view => exact List.length_map _
    | _ => rfl
  name {index view} hview := by
    rw [getElem?_sprites_tell hsound hfollows h] at hview
    split at hview
    · exact nameAt?_of_spriteView? hfollows.script_eq hview
    · exact h.name hview

theorem draws_foldl_tell (h : host.Draws script) (cues : List Cue) :
    (cues.foldl playback.tell host).Draws script := by
  induction cues generalizing host with
  | nil => exact h
  | cons cue cues ih => exact ih (draws_tell hsound hfollows h cue)

/-- A sprite that a cue was for is drawn as it is now, however often it has changed. -/
theorem getElem?_sprites_foldl_tell (h : host.Draws script) (cues : List Cue) (index : Nat) :
    (cues.foldl playback.tell host).sprites[index]? =
      if .spriteChanged index ∈ cues then playback.spriteView? index
      else host.sprites[index]? := by
  induction cues generalizing host with
  | nil => rfl
  | cons cue cues ih =>
    rw [List.foldl_cons, ih (draws_tell hsound hfollows h cue),
      getElem?_sprites_tell hsound hfollows h]
    by_cases hrest : .spriteChanged index ∈ cues
    · rw [if_pos hrest, if_pos (List.mem_cons_of_mem cue hrest)]
    · rw [if_neg hrest]
      by_cases hfirst : cue = .spriteChanged index
      · rw [if_pos hfirst, if_pos (hfirst ▸ List.mem_cons_self)]
      · rw [if_neg hfirst, if_neg]
        rw [List.mem_cons, not_or]
        exact ⟨Ne.symm hfirst, hrest⟩

end Tell

end Playback

end VisualNovel
