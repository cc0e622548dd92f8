import VisualNovel.Proofs.Script.Meaning

/-!
# Names that are known

A load goes through all commands for the names that they mention before it resolves the first of
them. So a script in which commands are resolved knows all names in them (`knows_withMentions`),
whatever else is wrong with them: a command may have several kinds, or values of the wrong form, and
still the names that it gives are in the pools.
-/

namespace VisualNovel.Script

open Outcome

/-- The names in the body of a command of a kind are in the pools. An empty name is none. -/
def KnowsBody (script : Script) (body : List (String × Json)) : CommandKind → Prop
  | .sprite => ∀ id, body.lookup "id" = some (.string id) → id ∈ script.sprites.names
  | .background =>
    (∀ name, body.lookup "image" = some (.string name) → name ≠ "" →
      name ∈ script.backgrounds.names) ∧
    ∀ name, body.lookup "music" = some (.string name) → name ≠ "" → name ∈ script.music.names
  | .speak => True
  | .wait => True

/-- The names in whatever stands under the keys of a command are in the pools. -/
def Knows (script : Script) (command : Json) : Prop :=
  ∀ entries kind body, command = .object entries →
    entries.lookup kind.key = some (.object body) → script.KnowsBody body kind

/-- What a sprite command has besides its id and actor, which are resolved before. -/
def resolveSpriteFields (script : Script) (fields : Section) (sprite : Nat) (actor : Option Nat) :
    Except Error SpriteCommand := do
  let hide ← fields.optional "hide" .bool
  let portrait ← script.resolvePortrait fields actor
  let pos ← fields.optional "pos" .vector
  let size ← fields.optional "size" .vector
  return ⟨sprite, hide.getD false, actor, portrait, pos, size⟩

variable {limits : Limits} {script : Script} {commands : List Json}
  {sprites : List (Option String)} {assets : List (Option String × Option String)}

/-- What an element of the command list was found to be is among the results. -/
theorem exists_mem_of_forEachCommand {α : Type} {f : Nat → Json → Except Error α} {results : List α}
    (h : forEachCommand commands f = .ok results) {command : Json} (hmem : command ∈ commands) :
    ∃ result ∈ results, ∃ place, f place command = .ok result :=
  exists_mem_of_forall₂ (forall₂_of_forEachCommand h).flip hmem

/-- What fails for the command list fails for the command at a place. -/
theorem exists_of_forEachCommand_eq_error {α : Type} {f : Nat → Json → Except Error α}
    {error : Error} (h : forEachCommand commands f = .error error) :
    ∃ place command, commands[place]? = some command ∧ f place command = .error error :=
  exists_getElem?_of_mapM_zipIdx_eq_error h

/-- A name in a field, if there is one, was found there. -/
theorem mentionedName?_of_find? {fields : Section} {key name : String} {found : Option String}
    (h : mentionedName? limits fields key = .ok found)
    (hname : fields.find? key = some (.string name)) (hne : name ≠ "") : found = some name := by
  obtain ⟨hnone, -⟩ | ⟨written, hwritten, hfound⟩ := mentionedName?_eq_ok_iff.mp h
  · rw [hname] at hnone
    cases hnone
  · rw [hname] at hwritten
    obtain rfl := Json.Tree.string.inj (Option.some.inj hwritten)
    rw [if_neg hne] at hfound
    exact hfound.2

/-- Once names have been collected, all names in commands are known. -/
theorem knows_withMentions
    (hsprites : forEachCommand commands (mentionedSprite? limits) = .ok sprites)
    (hassets : forEachCommand commands (mentionedAssets limits) = .ok assets) {command : Json}
    (hmem : command ∈ commands) : (script.withMentions sprites assets).Knows command := by
  intro entries kind body hcommand hbody
  subst hcommand
  cases kind with
  | sprite =>
    intro id hid
    obtain ⟨found, hfound, place, hmention⟩ := exists_mem_of_forEachCommand hsprites hmem
    obtain ⟨other, hother, -, rfl⟩ := exists_sprite_id hmention hbody
    rw [hid] at hother
    obtain rfl := Json.Tree.string.inj (Option.some.inj hother)
    exact Pool.mem_names_ofNames.mpr (List.mem_filterMap.mpr ⟨_, hfound, rfl⟩)
  | background =>
    obtain ⟨found, hfound, place, hmention⟩ := exists_mem_of_forEachCommand hassets hmem
    obtain ⟨himage, hmusic⟩ := mentionedName?_of_background hmention hbody
    constructor
    · intro name hname hne
      exact Pool.mem_names_ofNames.mpr (List.mem_filterMap.mpr
        ⟨found, hfound, mentionedName?_of_find? himage hname hne⟩)
    · intro name hname hne
      exact Pool.mem_names_ofNames.mpr (List.mem_filterMap.mpr
        ⟨found, hfound, mentionedName?_of_find? hmusic hname hne⟩)
  | speak => trivial
  | wait => trivial

end VisualNovel.Script
