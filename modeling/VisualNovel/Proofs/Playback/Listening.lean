import VisualNovel.Proofs.Playback.Host
import VisualNovel.Proofs.Playback.Lines

/-!
# Hosts that only listen

A host that is told everything from a start on, and nothing else, is in step with the playback each
time the cues are passed on (`Session.host_in_step`). Cues that were taken without telling it would
be lost to it, and so are those that a later start drops.

After a later start the stage is as before the first command, but the host is told so only where the
opening has an image or a track. Until a command says otherwise it shows and plays what it did
before (`Session.host_after_restart`).
-/

namespace VisualNovel

/-! ## What a host is told -/

namespace Session

/-- What a host is told by a signal. -/
def notices (session : Session) : Signal → List Notice
  | .present => session.playback.present.1
  | _ => []

/-- What a host is told by signals, one after the other. -/
def told (session : Session) : List Signal → List Notice
  | [] => []
  | signal :: signals => session.notices signal ++ (session.step signal).told signals

theorem told_append (session : Session) (signals more : List Signal) :
    session.told (signals ++ more) = session.told signals ++ (session.run signals).told more := by
  induction signals generalizing session with
  | nil => rfl
  | cons signal signals ih =>
    rw [List.cons_append, told, ih, told, List.append_assoc]
    rfl

variable {script : Script} {settings : Settings} {opening : Opening} {session : Session}

/-- Before it is started a playback has nothing to tell. -/
theorem Idle.told_eq_nil (h : Idle script opening session) (hcues : session.playback.cues = [])
    {signals : List Signal} (hstart : .start ∉ signals) : session.told signals = [] := by
  induction signals generalizing session with
  | nil => rfl
  | cons signal signals ih =>
    rw [List.mem_cons, not_or] at hstart
    have hnotices : session.notices signal = [] := by
      cases signal with
      | present =>
        rw [notices, Playback.present, hcues]
        rfl
      | _ => rfl
    have hquiet := (h.quiet_step hcues (Ne.symm hstart.1)).1
    rw [told, hnotices, ih (h.step (Ne.symm hstart.1)) hquiet hstart.2, List.append_nil]

end Session

/-! ## Background and music -/

namespace Channel

variable {channel : Channel} {script : Script} {opening : Opening} {taken : List Cue}
  {playback : Playback}

/-- The stage has what the last cue since the start says. -/
theorem staged_eq (hsound : script.Sound) (h : Follows script opening taken playback) :
    channel.staged playback.stage.scenery =
      (channel.last? (taken ++ playback.cues)).getD none := by
  rw [h.scenery, h.cues, staged_foldl (h.admitted_done hsound), channel.last?_append,
    Option.getD_or, last?_opening, channel.staged_opening]
  cases channel.opened opening <;> rfl

/-- There was a cue since the start if the opening or a command says anything. -/
theorem last?_eq_none_iff (hsound : script.Sound) (h : Follows script opening taken playback) :
    channel.last? (taken ++ playback.cues) = none ↔
      channel.opened opening = none ∧ ∀ command ∈ playback.done, channel.asset command = .keep := by
  rw [h.cues, channel.last?_append, Option.or_eq_none_iff,
    last?_commands_eq_none_iff (h.admitted_done hsound), last?_opening, Option.map_eq_none_iff,
    and_comm]

/-- A host that is told all cues has what the last of those taken says. -/
theorem heard_told {session : Session} {host : Host} {before : Option String}
    (h : channel.heard host = (channel.last? session.taken).getD before) {signals : List Signal}
    (hstart : .start ∉ signals) (hdrain : .drain ∉ signals) :
    channel.heard (host.listen (session.told signals)) =
      (channel.last? (session.run signals).taken).getD before := by
  induction signals generalizing session host with
  | nil => exact h
  | cons signal signals ih =>
    rw [List.mem_cons, not_or] at hstart hdrain
    rw [Session.told, Host.listen_append]
    refine ih ?_ hstart.2 hdrain.2
    cases signal with
    | start => exact absurd rfl hstart.1
    | drain => exact absurd rfl hdrain.1
    | present =>
      rw [Session.notices, channel.heard_listen_present, h, ← Option.getD_or,
        ← channel.last?_append]
      rfl
    | tick delta => exact h
    | advance => exact h
    | frame => exact h

/-- Once the cues are passed on, a host that was told all cues since a start has what is on stage,
unless it had something else before and there was no cue. -/
theorem heard_present_eq_staged_iff (hsound : script.Sound) {session : Session}
    (h : Follows script opening session.taken session.playback) {host : Host}
    {before : Option String}
    (hheard : channel.heard host = (channel.last? session.taken).getD before) :
    channel.heard (host.listen session.playback.present.1) =
        channel.staged session.playback.stage.scenery ↔
      before = none ∨ channel.opened opening ≠ none ∨
        ∃ command ∈ session.playback.done, channel.asset command ≠ .keep := by
  have hlast (last : Option (Option String)) :
      last.getD before = last.getD none ↔ before = none ∨ last ≠ none := by
    cases last <;> simp
  rw [channel.heard_listen_present, hheard, ← Option.getD_or, ← channel.last?_append,
    staged_eq hsound h, hlast, ne_eq, last?_eq_none_iff hsound h, not_and_or]
  simp only [not_forall, exists_prop]

end Channel

/-! ## Sprites -/

section Later

variable {script : Script} {opening : Opening} {taken : List Cue} {playback later : Playback}

/-- From one place to a later one, the commands in between have their effects and their cues. -/
theorem Follows.exists_between (h : Follows script opening taken playback)
    (hlater : Follows script opening taken later) (hle : playback.place ≤ later.place) :
    ∃ commands : List Command,
      later.stage.scenery = commands.foldl (Scenery.after script) playback.stage.scenery ∧
        later.cues = playback.cues ++ commands.flatMap (Command.cues script) := by
  obtain ⟨count, hcount⟩ := Nat.exists_eq_add_of_le hle
  generalize hcommands : (script.commands.drop playback.place).take count = commands
  have hdone : later.done = playback.done ++ commands := by
    rw [Playback.done, Playback.done, h.script_eq, hlater.script_eq, hcount, List.take_add,
      hcommands]
  refine ⟨commands, ?_, ?_⟩
  · rw [hlater.scenery, hdone, List.foldl_append, ← h.scenery]
  · have hcues := hlater.cues
    rw [hdone, List.flatMap_append, ← List.append_assoc, ← h.cues, List.append_assoc] at hcues
    exact List.append_cancel_left hcues

end Later

/-- A host has a view of each sprite, and it is the current one unless a pending cue is for that
sprite. -/
structure Host.InStep (script : Script) (host : Host) (playback : Playback) : Prop where
  draws : host.Draws script
  current : ∀ {index : Nat}, .spriteChanged index ∉ playback.cues →
    host.sprites[index]? = playback.spriteView? index

namespace Host.InStep

variable {script : Script} {settings : Settings} {opening : Opening} {taken : List Cue}
  {playback later : Playback} {host : Host}

/-- Before the first command, sprites are as the pool has them. -/
theorem bare (h : Follows script opening taken playback) (hplace : playback.place = 0) :
    (Host.bare script).InStep script playback where
  draws := draws_bare script
  current {index} _ := by
    have hsprites : playback.stage.sprites = script.sprites.entries.map Sprite.state := by
      have hscenery := h.scenery
      rw [Playback.done, hplace] at hscenery
      exact congrArg Scenery.sprites hscenery
    rw [Host.bare, List.getElem?_map]
    cases hsprite : script.sprites.entries[index]? with
    | none =>
      rw [Playback.spriteView?, hsprites, List.getElem?_map, hsprite]
      rfl
    | some sprite =>
      have hview : playback.spriteView? index = some (sprite.state.view script sprite.id) := by
        rw [Playback.spriteView?_eq_some_iff, hsprites, List.getElem?_map, hsprite, h.script_eq,
          Pool.nameAt?, Pool.get?, hsprite]
        exact ⟨_, _, rfl, rfl, rfl⟩
      exact hview.symm

/-- Commands that are carried out give a cue for each sprite that they change. -/
theorem of_place_le (h : host.InStep script playback)
    (hfollows : Follows script opening taken playback)
    (hlater : Follows script opening taken later) (hle : playback.place ≤ later.place) :
    host.InStep script later where
  draws := h.draws
  current {index} hquiet := by
    obtain ⟨commands, hscenery, hcues⟩ := hfollows.exists_between hlater hle
    rw [hcues, List.mem_append, not_or] at hquiet
    have hstate := Scenery.getElem?_sprites_foldl hquiet.2 playback.stage.scenery
    rw [← hscenery] at hstate
    have hscript : later.script = playback.script := hlater.script_eq.trans hfollows.script_eq.symm
    exact (h.current hquiet.1).trans (Playback.spriteView?_congr hscript hstate).symm

section Sound

variable (hsound : script.Sound)
include hsound

/-- Once the cues are passed on, every view is the current one. -/
theorem present (h : host.InStep script playback)
    (hfollows : Follows script opening taken playback) :
    (host.listen playback.present.1).InStep script playback.present.2 where
  draws := playback.listen_present host ▸
    Playback.draws_foldl_tell hsound hfollows h.draws playback.cues
  current {index} _ := by
    rw [Playback.listen_present, Playback.getElem?_sprites_foldl_tell hsound hfollows h.draws]
    split
    · rfl
    · next hquiet => exact h.current hquiet

/-- A host that is told everything stays in step. -/
theorem step {session : Session} (h : host.InStep script session.playback)
    (hfollows : Follows script opening session.taken session.playback)
    (hcoherent : session.playback.Coherent script settings) {signal : Signal}
    (hstart : signal ≠ .start) (hdrain : signal ≠ .drain) :
    (host.listen (session.notices signal)).InStep script (session.step signal).playback := by
  have hlater := Session.follows_step hsound.admitted hfollows signal
  have hle := Session.place_le_step hsound hfollows hcoherent hstart
  cases signal with
  | start => exact absurd rfl hstart
  | drain => exact absurd rfl hdrain
  | present => exact h.present hsound hfollows
  | tick delta => exact h.of_place_le hfollows hlater hle
  | advance => exact h.of_place_le hfollows hlater hle
  | frame => exact h

theorem run (huntouched : script.sprites.Untouched) (hinterval : 0 < settings.charInterval)
    {session : Session} (h : host.InStep script session.playback)
    (hfollows : Follows script opening session.taken session.playback)
    (hcoherent : session.playback.Coherent script settings) {signals : List Signal}
    (hstart : .start ∉ signals) (hdrain : .drain ∉ signals) :
    (host.listen (session.told signals)).InStep script (session.run signals).playback := by
  induction signals generalizing session host with
  | nil => exact h
  | cons signal signals ih =>
    rw [List.mem_cons, not_or] at hstart hdrain
    rw [Session.told, Host.listen_append]
    exact ih (h.step hsound hfollows hcoherent (Ne.symm hstart.1) (Ne.symm hdrain.1))
      (Session.follows_step hsound.admitted hfollows signal)
      (Session.coherent_step hsound huntouched hinterval hcoherent signal) hstart.2 hdrain.2

end Sound

/-- With nothing pending, a host draws all sprites as they are. -/
theorem map_sprites_eq (h : host.InStep script playback)
    (hfollows : Follows script opening taken playback) (hcues : playback.cues = []) :
    host.sprites.map some = (List.range script.sprites.size).map playback.spriteView? := by
  apply List.ext_getElem?
  intro index
  rw [List.getElem?_map, List.getElem?_map]
  by_cases hindex : index < script.sprites.size
  · obtain ⟨view, hview⟩ := Playback.exists_spriteView? hfollows hindex
    rw [h.current (hcues ▸ List.not_mem_nil), List.getElem?_range hindex, Option.map_some, hview,
      Option.map_some]
  · have hnone : host.sprites[index]? = none :=
      List.getElem?_eq_none (h.draws.length_eq ▸ Nat.le_of_not_lt hindex)
    rw [hnone, List.getElem?_eq_none (List.length_range ▸ Nat.le_of_not_lt hindex),
      Option.map_none, Option.map_none]

end Host.InStep

/-- Every cue is passed on, each as one notice and in order. -/
theorem Playback.forall₂_present {script : Script} {opening : Opening} {taken : List Cue}
    {playback : Playback} (hsound : script.Sound)
    (hfollows : Follows script opening taken playback) :
    List.Forall₂ (fun cue notice => playback.notice? cue = some notice) playback.cues
      playback.present.1 := by
  have hnotice : ∀ cue ∈ playback.cues, ∃ notice, playback.notice? cue = some notice := by
    intro cue hcue
    cases cue with
    | spriteChanged index =>
      obtain ⟨view, hview⟩ :=
        exists_spriteView? hfollows (hfollows.lt_size_of_mem_cues hsound hcue)
      exact ⟨.updateSprite view, by rw [notice?, hview, Option.map_some]⟩
    | _ => exact ⟨_, rfl⟩
  rw [present]
  clear hfollows
  generalize playback.cues = cues at hnotice
  induction cues with
  | nil => exact List.Forall₂.nil
  | cons cue cues ih =>
    rw [List.forall_mem_cons] at hnotice
    obtain ⟨notice, hfirst⟩ := hnotice.1
    rw [List.filterMap_cons_some hfirst]
    exact List.Forall₂.cons hfirst (ih hnotice.2)

/-! ## Hosts and sessions -/

namespace Session

/-- A start divides what comes before it from what follows. -/
theorem run_restart (session : Session) (before signals : List Signal) :
    session.run (before ++ .start :: signals) =
      ((session.run before).step .start).run signals :=
  List.foldl_append

/-- A host is told what comes before a start, what follows it, and what is pending at last. -/
theorem told_restart (session : Session) (before signals : List Signal) :
    session.told (before ++ .start :: signals ++ [.present]) =
      session.told before ++ (((session.run before).step .start).told signals ++
        (((session.run before).step .start).run signals).playback.present.1) := by
  rw [List.append_assoc, told_append, List.cons_append, told, told_append]
  show _ ++ ([] ++ (_ ++ (_ ++ []))) = _
  rw [List.nil_append, List.append_nil]
  rfl

/-- A host that is told everything since the last start has what is on stage, unless it had
something else before and nothing was said since. -/
theorem heard_restart_iff {script : Script} (hreachable : script.Reachable) {settings : Settings}
    {opening : Opening} {playback : Playback}
    (hnew : Playback.new script settings opening = .ok playback) (channel : Channel)
    (before : List Signal) {signals : List Signal} (hstart : .start ∉ signals)
    (hdrain : .drain ∉ signals) :
    let later := (Session.run ⟨playback, []⟩ (before ++ .start :: signals)).playback
    let old := (Host.bare script).listen (Session.told ⟨playback, []⟩ before)
    let host := (Host.bare script).listen
      (Session.told ⟨playback, []⟩ (before ++ .start :: signals ++ [.present]))
    channel.heard host = channel.staged later.stage.scenery ↔
      channel.heard old = none ∨ channel.opened opening ≠ none ∨
        ∃ command ∈ script.commands.take later.place, channel.asset command ≠ .keep := by
  have hsound := hreachable.sound
  obtain ⟨hfollowsStarted, -⟩ := started_of_new hreachable hnew before
  rw [run_restart, told_restart, Host.listen_append, Host.listen_append]
  intro later old host
  have hfollows := follows_run hsound.admitted hfollowsStarted signals
  -- no cue was taken at the start, so the host has what it had before
  have hold : channel.heard old =
      (channel.last? ((Session.run ⟨playback, []⟩ before).step .start).taken).getD
        (channel.heard old) := rfl
  have hiff := channel.heard_present_eq_staged_iff hsound hfollows
    (channel.heard_told hold hstart hdrain)
  rw [Playback.done, hfollows.script_eq] at hiff
  exact hiff

/-- A host that begins with the bare stage, and is told everything from the first start on, shows
and plays what is on stage each time the cues are passed on, and has the current view of every
sprite, which is how the sprite on stage is drawn, though it changed a sprite only later than the
playback did. Each of the cues reaches it as one notice. -/
theorem host_in_step {script : Script} (hreachable : script.Reachable) {settings : Settings}
    {opening : Opening} {playback : Playback}
    (hnew : Playback.new script settings opening = .ok playback)
    {before signals : List Signal} (hbefore : .start ∉ before) (hstart : .start ∉ signals)
    (hdrain : .drain ∉ signals) :
    let session := Session.run ⟨playback, []⟩ (before ++ .start :: signals)
    let shown := (session.step .present).playback
    let host := (Host.bare script).listen
      (Session.told ⟨playback, []⟩ (before ++ .start :: signals ++ [.present]))
    host.background = shown.stage.background ∧ host.music = shown.stage.music ∧
      host.sprites.map some = (List.range script.sprites.size).map shown.spriteView? ∧
      (∀ index state name, shown.stage.sprites[index]? = some state →
        script.sprites.nameAt? index = some name →
        host.sprites[index]? = some (state.view script name)) ∧
      List.Forall₂ (fun cue notice => session.playback.notice? cue = some notice)
        session.playback.cues session.playback.present.1 := by
  have hsound := hreachable.sound
  obtain ⟨hinterval, hfresh⟩ := Playback.coherent_of_new hreachable.untouched hnew
  have hidle := Playback.idle_of_new hnew
  -- nothing is told before the start, so the host is still bare
  have hsilent : Session.told ⟨playback, []⟩ before = [] := by
    obtain ⟨-, -, hcues, -⟩ := (Playback.occupied_notStarted hidle.phase_eq).mp hfresh.occupied
    exact hidle.told_eq_nil hcues hbefore
  have hchannel (channel : Channel) := (heard_restart_iff hreachable hnew channel before hstart
    hdrain).mpr (Or.inl (hsilent ▸ channel.heard_bare script))
  rw [run_restart, told_restart, hsilent, List.nil_append, Host.listen_append] at hchannel ⊢
  intro session shown host
  obtain ⟨hfollowsStarted, hcoherentStarted⟩ := started_of_new hreachable hnew before
  have hfollows : Follows script opening session.taken session.playback :=
    follows_run hsound.admitted hfollowsStarted signals
  have hstarted := Host.InStep.bare hfollowsStarted (Playback.place_start _)
  have hlater : host.InStep script shown :=
    (hstarted.run hsound hreachable.untouched hinterval hfollowsStarted hcoherentStarted hstart
      hdrain).present hsound hfollows
  refine ⟨hchannel .image, hchannel .track, hlater.map_sprites_eq hfollows.drain rfl,
    fun index state name hstate hname => ?_, Playback.forall₂_present hsound hfollows⟩
  have hscript : shown.script = script := hfollows.script_eq
  rw [hlater.current List.not_mem_nil]
  exact Playback.spriteView?_eq_some_iff.mpr
    ⟨state, name, hstate, hscript.symm ▸ hname, by rw [hscript]⟩

/-- The greeting is played past its line, and the host is told half way and at last: it shows the
hall instead of the sky, plays no music, and draws the sprite with the last cell of the sheet. -/
theorem host_in_step_greeting :
    ∃ playback, Playback.new (Script.empty.editAll Script.greeting) .standard
        ⟨some "sky", some "theme"⟩ = .ok playback ∧
      let signals := [.tick 1, .present] ++ List.replicate 5 (.tick 1) ++ [.advance, .tick 0]
      let session := Session.run ⟨playback, []⟩ ([.tick 1, .present] ++ .start :: signals)
      let host := (Host.bare (Script.empty.editAll Script.greeting)).listen
        (Session.told ⟨playback, []⟩ ([.tick 1, .present] ++ .start :: signals ++ [.present]))
      host.background = some "hall" ∧ host.music = none ∧
        host.sprites.map some = [(session.step .present).playback.spriteView? 0] ∧
        host.sprites[0]? = some ⟨"left", true, .zero, .one,
          some ⟨"ann.png", ⟨1 / .ofNat 2, .ofNat 2 * (1 / .ofNat 3), 1 / .ofNat 2,
            1 / .ofNat 3⟩⟩⟩ := by
  have hnew : Playback.new (Script.empty.editAll Script.greeting) .standard
      ⟨some "sky", some "theme"⟩ = .ok _ := rfl
  have hbefore : Signal.start ∉ [.tick 1, .present] := by decide
  have hstart : Signal.start ∉
      [.tick 1, .present] ++ List.replicate 5 (.tick 1) ++ [.advance, .tick 0] := by decide
  have hdrain : Signal.drain ∉
      [.tick 1, .present] ++ List.replicate 5 (.tick 1) ++ [.advance, .tick 0] := by decide
  obtain ⟨hbackground, hmusic, hsprites, hviews, -⟩ := host_in_step
    (Script.Reachable.empty.editAll Script.greeting) hnew hbefore hstart hdrain
  have hview := hviews 0 ⟨true, .zero, .one, some 0, some 5⟩ "left" (by decide +kernel)
    (by decide +kernel)
  exact ⟨_, hnew, hbackground.trans (by decide +kernel), hmusic.trans (by decide +kernel),
    hsprites, hview.trans (by decide +kernel)⟩

/-- After any start, a host that is told everything since shows and plays what is on stage exactly
if it showed or played nothing before, or if the opening or one of the commands carried out since
has something to show or play, or takes it away. A start itself takes nothing away. -/
theorem host_after_restart {script : Script} (hreachable : script.Reachable) {settings : Settings}
    {opening : Opening} {playback : Playback}
    (hnew : Playback.new script settings opening = .ok playback) (before : List Signal)
    {signals : List Signal} (hstart : .start ∉ signals) (hdrain : .drain ∉ signals) :
    let later := (Session.run ⟨playback, []⟩ (before ++ .start :: signals)).playback
    let old := (Host.bare script).listen (Session.told ⟨playback, []⟩ before)
    let host := (Host.bare script).listen
      (Session.told ⟨playback, []⟩ (before ++ .start :: signals ++ [.present]))
    let commands := script.commands.take later.place
    (host.background = later.stage.background ↔ old.background = none ∨
        opening.background ≠ none ∨ ∃ command ∈ commands, command.image ≠ .keep) ∧
      (host.music = later.stage.music ↔ old.music = none ∨
        opening.music ≠ none ∨ ∃ command ∈ commands, command.track ≠ .keep) :=
  ⟨heard_restart_iff hreachable hnew .image before hstart hdrain,
    heard_restart_iff hreachable hnew .track before hstart hdrain⟩

/-- The greeting is played past its line and started again, with the sky for an opening: the host
shows the sky instead of the hall, and still plays nothing. -/
theorem host_after_restart_greeting :
    ∃ playback, Playback.new (Script.empty.editAll Script.greeting) .standard ⟨some "sky", none⟩ =
        .ok playback ∧
      let before := .start :: List.replicate 6 (.tick 1) ++ [.advance, .tick 0, .present]
      let host := (Host.bare (Script.empty.editAll Script.greeting)).listen
        (Session.told ⟨playback, []⟩ (before ++ .start :: [.tick 1] ++ [.present]))
      host.background = some "sky" ∧ host.music = none := by
  have hnew : Playback.new (Script.empty.editAll Script.greeting) .standard ⟨some "sky", none⟩ =
      .ok _ := rfl
  have hstart : Signal.start ∉ [.tick 1] := by decide
  have hdrain : Signal.drain ∉ [.tick 1] := by decide
  obtain ⟨hbackground, hmusic⟩ := host_after_restart
    (Script.Reachable.empty.editAll Script.greeting) hnew
    (.start :: List.replicate 6 (.tick 1) ++ [.advance, .tick 0, .present]) hstart hdrain
  exact ⟨_, hnew, (hbackground.mpr (Or.inr (Or.inl nofun))).trans (by decide +kernel),
    (hmusic.mpr (Or.inl (by decide +kernel))).trans (by decide +kernel)⟩

/-- A history of a script that shows a background and does nothing else. -/
def hall : List Script.Edit := [.ensureBackground "hall", .push (.background ⟨.set 0, .keep⟩)]

/-- When it is started again the background is gone from the stage, but the host still shows it. -/
theorem background_kept_by_host :
    (Script.empty.editAll hall).Reachable ∧
      ∃ playback, Playback.new (Script.empty.editAll hall) .standard ⟨none, none⟩ = .ok playback ∧
        let signals := [.start, .tick 1, .present, .start, .present]
        let host := (Host.bare (Script.empty.editAll hall)).listen
          (Session.told ⟨playback, []⟩ signals)
        host.background = some "hall" ∧
          (Session.run ⟨playback, []⟩ signals).playback.stage.background = none :=
  ⟨Script.Reachable.empty.editAll hall, _, rfl, by decide +kernel, by decide +kernel⟩

end Session

end VisualNovel
