import VisualNovel.Proofs.Script.Load

/-!
# Histories of a script

A script comes into being empty or loaded, and from then on changes by edits, each of which may
fail. `Reachable` are the scripts that some history leads to. What one edit can do is said once
(`Accepts`, `edit_cases`). It keeps a script sound (`Sound.edit`), so every reachable script is
sound (`Reachable.sound`), and what this means for its tables, its cast and its commands is
`Reachable.invariants`.
-/

namespace VisualNovel

/-- The names of a pool differ, and each leads to where its entry is. -/
def Pool.Faithful {α : Type} [PoolEntry α] (pool : Pool α) : Prop :=
  (pool.entries.map PoolEntry.name).Nodup ∧
    ∀ name index, pool.position? name = some index ↔ pool.nameAt? index = some name

theorem Pool.Registered.faithful {α : Type} [PoolEntry α] {pool : Pool α} (h : pool.Registered) :
    pool.Faithful :=
  ⟨h.names_eq ▸ h.nodup, fun _ _ => h.position?_eq_some_iff⟩

namespace Script

/-! ## Edits -/

/-- A change that is asked of a script. -/
inductive Edit where
  | addActor (actor : Actor)
  | ensureSprite (id : String)
  | ensureBackground (name : String)
  | ensureMusic (name : String)
  | push (command : Command)
  | insert (place : Nat) (command : Command)
  | remove (place : Nat)
  | reload (limits : Limits) (value : Json)

/-- The script after an edit, whether it succeeds or fails. -/
def edit (script : Script) : Edit → Script
  | .addActor actor => (script.addActor actor).2
  | .ensureSprite id => (script.ensureSprite id).2
  | .ensureBackground name => (script.ensureBackground name).2
  | .ensureMusic name => (script.ensureMusic name).2
  | .push command => (script.push command).2
  | .insert place command => (script.insert place command).2
  | .remove place => (script.remove place).2
  | .reload limits value => (script.reload limits value).2

/-- The scripts that a history of edits leads to, from the empty script or a loaded one. -/
inductive Reachable : Script → Prop
  | empty : Reachable .empty
  | load {limits : Limits} {value : Json} {script : Script} :
      Script.load limits value = .ok script → Reachable script
  | edit {script : Script} (edit : Edit) : Reachable script → Reachable (script.edit edit)

/-- The edits of a history, one after the other. -/
def editAll (script : Script) (edits : List Edit) : Script := edits.foldl Script.edit script

theorem Reachable.editAll {script : Script} (h : script.Reachable) (edits : List Edit) :
    (script.editAll edits).Reachable := by
  induction edits generalizing script with
  | nil => exact h
  | cons first rest ih => exact ih (h.edit first)

/-! ## What an edit does -/

/-- The script answers an edit with an error, or has nothing to remove. -/
def Refuses (script : Script) : Edit → Prop
  | .addActor actor => ∃ error, (script.addActor actor).1 = .error error
  | .push command => ∃ error, (script.push command).1 = .error error
  | .insert place command => ∃ error, (script.insert place command).1 = .error error
  | .remove place => (script.remove place).1 = none
  | .reload limits value => ∃ error, (script.reload limits value).1 = .error error
  | .ensureSprite _ | .ensureBackground _ | .ensureMusic _ => False

/-- What an edit that is not refused was checked for, and what it leaves. -/
inductive Accepts (script : Script) : Edit → Script → Prop
  | addActor {actor : Actor} : actor.id ∉ script.actorIds → Drawable actor →
    Accepts script (.addActor actor) (script.withCast [actor])
  | ensureSprite (id : String) : Accepts script (.ensureSprite id) (script.ensureSprite id).2
  | ensureBackground (name : String) :
    Accepts script (.ensureBackground name) (script.ensureBackground name).2
  | ensureMusic (name : String) : Accepts script (.ensureMusic name) (script.ensureMusic name).2
  | push {command : Command} : script.check command (.command script.commands.length) = .ok () →
    Accepts script (.push command) { script with commands := script.commands ++ [command] }
  | insert {place : Nat} {command : Command} : place ≤ script.commands.length →
    script.check command (.command place) = .ok () →
    Accepts script (.insert place command)
      { script with commands := script.commands.insertIdx place command }
  | remove {place : Nat} : place < script.commands.length →
    Accepts script (.remove place) { script with commands := script.commands.eraseIdx place }
  | reload {limits : Limits} {value : Json} {loaded : Script} : load limits value = .ok loaded →
    Accepts script (.reload limits value) loaded

/-- An edit is carried out after its checks, or is refused and changes nothing. -/
theorem edit_cases (script : Script) (edit : Edit) :
    (¬script.Refuses edit ∧ script.Accepts edit (script.edit edit)) ∨
      (script.Refuses edit ∧ script.edit edit = script) := by
  cases edit with
  | addActor actor =>
    rw [Refuses, Script.edit]
    rcases script.addActor_cases actor with ⟨hid, hdrawable, heq⟩ | ⟨-, error, heq⟩
    · rw [heq]
      exact .inl ⟨nofun, .addActor hid hdrawable⟩
    · rw [heq]
      exact .inr ⟨⟨error, rfl⟩, rfl⟩
  | ensureSprite id => exact .inl ⟨not_false, .ensureSprite id⟩
  | ensureBackground name => exact .inl ⟨not_false, .ensureBackground name⟩
  | ensureMusic name => exact .inl ⟨not_false, .ensureMusic name⟩
  | push command =>
    rw [Refuses, Script.edit]
    rcases script.push_cases command with ⟨hcheck, heq⟩ | ⟨error, -, heq⟩
    · rw [heq]
      exact .inl ⟨nofun, .push hcheck⟩
    · rw [heq]
      exact .inr ⟨⟨error, rfl⟩, rfl⟩
  | insert place command =>
    rw [Refuses, Script.edit]
    rcases script.insert_cases place command with ⟨hplace, hcheck, heq⟩ | ⟨-, error, heq⟩
    · rw [heq]
      exact .inl ⟨nofun, .insert hplace hcheck⟩
    · rw [heq]
      exact .inr ⟨⟨error, rfl⟩, rfl⟩
  | remove place =>
    rw [Refuses, Script.edit, remove]
    split
    · exact .inr ⟨rfl, rfl⟩
    · next hcommand =>
      exact .inl ⟨nofun, .remove (List.getElem?_eq_some_iff.mp hcommand).1⟩
  | reload limits value =>
    rw [Refuses, Script.edit, reload]
    cases hload : load limits value with
    | ok loaded => exact .inl ⟨nofun, .reload hload⟩
    | error error => exact .inr ⟨⟨error, rfl⟩, rfl⟩

/-! ## What every history keeps -/

/-- What an accepted edit leaves is sound. -/
theorem Accepts.sound {script later : Script} {edit : Edit} (haccepts : script.Accepts edit later)
    (h : script.Sound) : later.Sound := by
  cases haccepts with
  | addActor hid hdrawable =>
    refine h.withCast ?_ (List.forall_mem_singleton.mpr hdrawable)
    exact nodup_append_singleton.mpr ⟨hid, h.ids_nodup⟩
  | ensureSprite id => exact h.ensureSprite id
  | ensureBackground name => exact h.ensureBackground name
  | ensureMusic name => exact h.ensureMusic name
  | push hcheck =>
    have hadmits := (check_eq_ok_iff h.drawable).mp hcheck
    exact h.withCommands (List.forall_mem_append.mpr
      ⟨h.admitted, List.forall_mem_singleton.mpr hadmits⟩)
  | insert hplace hcheck =>
    have hadmits := (check_eq_ok_iff h.drawable).mp hcheck
    apply h.withCommands
    intro other hother
    rcases (List.mem_insertIdx hplace).mp hother with rfl | hother
    · exact hadmits
    · exact h.admitted other hother
  | remove _ =>
    exact h.withCommands fun other hother => h.admitted other (List.mem_of_mem_eraseIdx hother)
  | reload hload => exact sound_of_load hload

/-- An edit keeps a script sound. -/
theorem Sound.edit {script : Script} (h : script.Sound) (edit : Edit) :
    (script.edit edit).Sound := by
  rcases script.edit_cases edit with ⟨-, haccepts⟩ | ⟨-, heq⟩
  · exact haccepts.sound h
  · rw [heq]
    exact h

/-- Every history keeps the script sound. -/
theorem Reachable.sound {script : Script} (h : script.Reachable) : script.Sound := by
  induction h with
  | empty => exact sound_empty
  | load hload => exact sound_of_load hload
  | edit edit _ ih => exact ih.edit edit

/-- No edit changes a sprite of the pool: its entries stay as their ids made them. -/
theorem untouched_edit {script : Script} (h : script.sprites.Untouched) (edit : Edit) :
    (script.edit edit).sprites.Untouched := by
  rcases script.edit_cases edit with ⟨-, haccepts⟩ | ⟨-, heq⟩
  · generalize script.edit edit = later at haccepts ⊢
    cases haccepts with
    | ensureSprite id => exact Pool.Untouched.ensure h id
    | reload hload => exact untouched_of_load hload
    | addActor | ensureBackground | ensureMusic | push | insert | remove => exact h
  · rw [heq]
    exact h

/-- In every history, a sprite is in its pool as its id made it. -/
theorem Reachable.untouched {script : Script} (h : script.Reachable) :
    script.sprites.Untouched := by
  induction h with
  | empty => exact Pool.untouched_empty
  | load hload => exact untouched_of_load hload
  | edit edit _ ih => exact untouched_edit ih edit

/-- In every history, ids and pool names lead to what they name, actors can be drawn, and each
command passes the check wherever it stands: all that it refers to is there. -/
theorem Reachable.invariants {script : Script} (h : script.Reachable) :
    ((script.actors.map (·.id)).Nodup ∧ ∀ id index, script.actorIndex? id = some index ↔
        ∃ actor, script.actorAt? index = some actor ∧ actor.id = id) ∧
      (script.sprites.Faithful ∧ script.backgrounds.Faithful ∧ script.music.Faithful) ∧
      (∀ actor ∈ script.actors, actor.sheet ≠ "" ∧ 0 < actor.sheetSize.columns.toNat ∧
        0 < actor.sheetSize.rows.toNat ∧
        actor.sheetSize.columns.toNat * actor.sheetSize.rows.toNat < UInt32.size) ∧
      ∀ command ∈ script.commands,
        script.Admits command ∧ ∀ location, script.check command location = .ok () := by
  have hsound : script.Sound := h.sound
  refine ⟨⟨hsound.nodup_ids, fun id index => hsound.actorIndex?_eq_some_iff⟩,
    ⟨hsound.sprites.faithful, hsound.backgrounds.faithful, hsound.music.faithful⟩, ?_, ?_⟩
  · intro actor hactor
    obtain ⟨hsheet, hcolumns, hrows, harea⟩ := hsound.drawable actor hactor
    exact ⟨hsheet, hcolumns, hrows, harea⟩
  · intro command hcommand
    have hadmits : script.Admits command := hsound.admitted command hcommand
    exact ⟨hadmits, fun location => (check_eq_ok_iff hsound.drawable).mpr hadmits⟩

/-- A history with an actor who is drawn and speaks, a background that is set, and two edits that
fail: a second actor of the same id and a portrait outside the sheet. -/
def greeting : List Edit :=
  [.addActor ⟨"ann", "Ann", "ann.png", ⟨2, 3⟩⟩, .ensureSprite "left", .ensureBackground "hall",
    .push (.sprite ⟨0, false, some 0, some 5, some .zero, none⟩),
    .addActor ⟨"ann", "Anna", "anna.png", ⟨1, 1⟩⟩,
    .push (.speak ⟨some 0, some 6, "Hello"⟩),
    .insert 1 (.speak ⟨some 0, none, "Hello"⟩),
    .push (.background ⟨.set 0, .clear⟩), .push (.wait 1)]

/-- The greeting has what was accepted, and its commands pass the check. -/
theorem invariants_greeting :
    (empty.editAll greeting).commands.length = 4 ∧ (empty.editAll greeting).actors.length = 1 ∧
      ∀ command ∈ (empty.editAll greeting).commands, ∀ location,
        (empty.editAll greeting).check command location = .ok () :=
  ⟨by decide +kernel, by decide +kernel, fun command hcommand =>
    ((Reachable.empty.editAll greeting).invariants.2.2.2 command hcommand).2⟩

end Script

end VisualNovel
