import VisualNovel.Proofs.Script.Mentioned

/-!
# Commands one by one

Each command of a script succeeds or fails on its own account. A list of commands is refused exactly
if one of them is refused when it is the only one, and the error is then the one that such a command
gives alone, with its place in the list in place of the first.

Two loads are compared step by step: outcomes for the commands at two places are *alike* if both are
the same error of their command, or results that are related (`Alike`). Reading a field is alike at
all places (`FieldReader.Portable`); resolving a command is so, too, in any two scripts that have
one cast and know the names in the command (`alike_resolveCommand`).
-/

namespace VisualNovel

open Outcome

/-! ## Errors of the command at a place -/

/-- A location inside of what is at another location. -/
def Location.under (base location : Location) : Location := ⟨base.steps ++ location.steps⟩

/-- A location inside of the first command is taken to the command at a place. -/
def Location.renumber (place : Nat) : Location → Location
  | ⟨.key "commands" :: .index 0 :: rest⟩ => (Location.command place).under ⟨rest⟩
  | location => location

/-- A problem of the first command is taken to the command at a place. -/
def Problem.renumber (place : Nat) : Problem → Problem
  | noCommandKind 0 => noCommandKind place
  | severalCommandKinds 0 => severalCommandKinds place
  | problem => problem

/-- A problem of the command at a place, which it may mention. -/
def Problem.ofCommand (place : Nat) : Problem → Problem
  | noCommandKind _ => noCommandKind place
  | severalCommandKinds _ => severalCommandKinds place
  | problem => problem

namespace Error

/-- An error with another location and problem. -/
def relocate (location : Location → Location) (problem : Problem → Problem) : Error → Error
  | invalid place what => invalid (location place) (problem what)
  | unresolved kind referent place => unresolved kind referent (location place)
  | overLimit (.idBytes place limit) => overLimit (.idBytes (location place) limit)
  | overLimit (.textBytes place limit) => overLimit (.textBytes (location place) limit)
  | error => error

/-- An error of the first command, as the command at a place would have it: the place stands for 0
wherever the command is located or numbered. -/
def renumber (place : Nat) : Error → Error :=
  relocate (Location.renumber place) (Problem.renumber place)

/-- An error in a command, by its location there, as one of the command at a place. -/
def inCommand (place : Nat) : Error → Error :=
  relocate (Location.command place).under (Problem.ofCommand place)

/-- An error in the first command is renumbered to the same error in another. -/
theorem renumber_inCommand (place : Nat) (error : Error) :
    (error.inCommand 0).renumber place = error.inCommand place := by
  cases error with
  | invalid location problem => cases problem <;> rfl
  | overLimit excess => cases excess <;> rfl
  | _ => rfl

end Error

/-! ## Outcomes that are alike -/

/-- The outcomes for the commands at two places are the same error of the command, or results that
are related. -/
inductive Alike {α β : Type} (place other : Nat) (R : α → β → Prop) :
    Except Error α → Except Error β → Prop
  | ok {a : α} {b : β} : R a b → Alike place other R (.ok a) (.ok b)
  | error (error : Error) :
    Alike place other R (.error (error.inCommand place)) (.error (error.inCommand other))

section Alike

variable {α β γ δ : Type} {place other : Nat} {R : α → β → Prop} {S : γ → δ → Prop}
  {x : Except Error α} {y : Except Error β}

/-- Steps that are alike can be followed by steps that are alike. -/
theorem Alike.bind {f : α → Except Error γ} {g : β → Except Error δ} (h : Alike place other R x y)
    (hnext : ∀ a b, x = .ok a → R a b → Alike place other S (f a) (g b)) :
    Alike place other S (x >>= f) (y >>= g) := by
  cases h with
  | ok hab => exact hnext _ _ rfl hab
  | error error => exact .error error

/-- Outcomes that are alike can be changed alike. -/
theorem Alike.map {f : α → γ} {g : β → δ} (h : Alike place other R x y)
    (hmap : ∀ a b, R a b → S (f a) (g b)) : Alike place other S (f <$> x) (g <$> y) := by
  cases h with
  | ok hab => exact .ok (hmap _ _ hab)
  | error error => exact .error error

/-- Of two outcomes that are alike, one succeeds if the other does. -/
theorem Alike.exists_ok (h : Alike place other R x y) {a : α} (hx : x = .ok a) :
    ∃ b, y = .ok b ∧ R a b := by
  cases h with
  | ok hab =>
    obtain rfl := Except.ok.inj hx
    exact ⟨_, rfl, hab⟩
  | error error => cases hx

/-- The error of the first command is the error of the one at a place, but for the place. -/
theorem Alike.exists_error (h : Alike place 0 R x y) {error : Error} (hx : x = .error error) :
    ∃ first, y = .error first ∧ error = first.renumber place := by
  cases h with
  | ok hab => cases hx
  | error inner =>
    obtain rfl := Except.error.inj hx
    exact ⟨_, rfl, (inner.renumber_inCommand place).symm⟩

end Alike

/-! ## Reading fields -/

/-- A section in the command at a place. -/
def Section.inCommand (fields : Section) (place : Nat) : Section :=
  ⟨(Location.command place).under fields.location, fields.entries⟩

section Portable

variable {α : Type} {place other : Nat}

/-- What a reader makes of a value in a command does not depend on the place of the command. -/
def FieldReader.Portable (reader : FieldReader α) : Prop :=
  ∀ (place other : Nat) (location : Location) (value : Json), Alike place other Eq
    (reader ((Location.command place).under location) value)
    (reader ((Location.command other).under location) value)

namespace FieldReader

/-- A string is read alike at every place. -/
theorem portable_string : string.Portable := by
  intro place other location value
  cases value with
  | string s => exact .ok rfl
  | _ => exact .error (.invalid location .expectedString)

/-- A truth value is read alike at every place. -/
theorem portable_bool : bool.Portable := by
  intro place other location value
  cases value with
  | bool b => exact .ok rfl
  | _ => exact .error (.invalid location .expectedBoolean)

/-- A single is read alike at every place. -/
theorem portable_single : single.Portable := by
  intro place other location value
  cases value with
  | number n =>
    simp only [single]
    split
    · exact .ok rfl
    · exact .error (.invalid location .numberOutOfRange)
  | _ => exact .error (.invalid location .expectedNumber)

/-- A whole number is read alike at every place. -/
theorem portable_whole (least : Nat) : (whole least).Portable := by
  intro place other location value
  have herror : Alike place other Eq
      (.error (.invalid ((Location.command place).under location) (wholeProblem least)) :
        Except Error UInt32)
      (.error (.invalid ((Location.command other).under location) (wholeProblem least))) := by
    rw [wholeProblem]
    split
    · exact .error (.invalid location .expectedPositiveInteger)
    · exact .error (.invalid location .expectedNaturalNumber)
  cases value with
  | number n =>
    simp only [whole]
    split
    · split
      · exact .ok rfl
      · exact herror
    · exact herror
  | _ => exact herror

/-- A pair is read alike at every place if its elements are. -/
theorem portable_pair {element : FieldReader α} (h : element.Portable) :
    (pair element).Portable := by
  intro place other location value
  cases value with
  | array elements =>
    match elements with
    | [a, b] =>
      refine (h place other (location.index 0) a).bind ?_
      rintro x _ - rfl
      refine (h place other (location.index 1) b).bind ?_
      rintro y _ - rfl
      exact .ok rfl
    | [] => exact .error (.invalid location .expectedPair)
    | [_] => exact .error (.invalid location .expectedPair)
    | _ :: _ :: _ :: _ => exact .error (.invalid location .expectedPair)
  | _ => exact .error (.invalid location .expectedArray)

/-- A vector is read alike at every place. -/
theorem portable_vector : vector.Portable := by
  intro place other location value
  refine (portable_pair portable_single place other location value).map ?_
  rintro v _ rfl
  rfl

/-- What is read of an object is its fields at their place. -/
theorem alike_object (location : Location) (value : Json) :
    Alike place other
      (fun a b => ∃ fields : Section, value = .object fields.entries ∧
        fields.location = location ∧ a = fields.inCommand place ∧ b = fields.inCommand other)
      (object ((Location.command place).under location) value)
      (object ((Location.command other).under location) value) := by
  cases value with
  | object entries => exact .ok ⟨⟨location, entries⟩, rfl, rfl, rfl, rfl⟩
  | _ => exact .error (.invalid location .expectedObject)

end FieldReader

/-- The fields of a command do not depend on its place. -/
theorem Section.find?_inCommand (fields : Section) (key : String) :
    (fields.inCommand place).find? key = fields.find? key := rfl

variable {reader : FieldReader α} (h : reader.Portable) (fields : Section) (key : String)
include h

/-- A required field is read alike at every place if its value is. -/
theorem FieldReader.Portable.required : Alike place other Eq
    ((fields.inCommand place).required key reader)
    ((fields.inCommand other).required key reader) := by
  rw [Section.required.eq_def, Section.required.eq_def, Section.find?_inCommand,
    Section.find?_inCommand]
  cases fields.find? key with
  | none => exact .error (.invalid (fields.location.key key) .missingField)
  | some value => exact h place other (fields.location.key key) value

/-- An optional field is read alike at every place if its value is. -/
theorem FieldReader.Portable.optional : Alike place other Eq
    ((fields.inCommand place).optional key reader)
    ((fields.inCommand other).optional key reader) := by
  rw [Section.optional.eq_def, Section.optional.eq_def, Section.find?_inCommand,
    Section.find?_inCommand]
  cases fields.find? key with
  | none => exact .ok rfl
  | some value =>
    exact (h place other (fields.location.key key) value).map fun _ _ hsame => congrArg some hsame

end Portable

namespace Script

open FieldReader

variable {limits : Limits} {place other : Nat}

/-! ## Names that commands mention -/

/-- The length of an id is checked alike at every place. -/
theorem alike_checkId (location : Location) (id : String) : Alike place other Eq
    (limits.checkId ((Location.command place).under location) id)
    (limits.checkId ((Location.command other).under location) id) := by
  simp only [Limits.checkId]
  split
  · exact .ok rfl
  · exact .error (.overLimit (.idBytes location limits.idBytes))

/-- The length of a text is checked alike at every place. -/
theorem alike_checkText (location : Location) (text : String) : Alike place other Eq
    (limits.checkText ((Location.command place).under location) text)
    (limits.checkText ((Location.command other).under location) text) := by
  simp only [Limits.checkText]
  split
  · exact .ok rfl
  · exact .error (.overLimit (.textBytes location limits.textBytes))

/-- A command mentions the same sprite at every place. -/
theorem alike_mentionedSprite? (command : Json) : Alike place other Eq
    (mentionedSprite? limits place command) (mentionedSprite? limits other command) := by
  refine (alike_object .root command).bind ?_
  rintro _ _ - ⟨fields, -, -, rfl, rfl⟩
  simp only [Section.find?_inCommand]
  cases fields.find? CommandKind.sprite.key with
  | none => exact .ok rfl
  | some body =>
    refine (alike_object (fields.location.key CommandKind.sprite.key) body).bind ?_
    rintro _ _ - ⟨body, -, -, rfl, rfl⟩
    refine (portable_string.required body "id").bind ?_
    rintro id _ - rfl
    refine (alike_checkId (body.location.key "id") id).bind ?_
    rintro _ _ - -
    exact .ok rfl

/-- A field mentions the same name at every place. -/
theorem alike_mentionedName? (fields : Section) (key : String) : Alike place other Eq
    (mentionedName? limits (fields.inCommand place) key)
    (mentionedName? limits (fields.inCommand other) key) := by
  refine (portable_string.optional fields key).bind ?_
  rintro name _ - rfl
  cases name with
  | none => exact .ok rfl
  | some name =>
    simp only
    split
    · exact .ok rfl
    · refine (alike_checkId (fields.location.key key) name).bind ?_
      rintro _ _ - -
      exact .ok rfl

/-- A command mentions the same image and track at every place. -/
theorem alike_mentionedAssets (command : Json) : Alike place other Eq
    (mentionedAssets limits place command) (mentionedAssets limits other command) := by
  refine (alike_object .root command).bind ?_
  rintro _ _ - ⟨fields, -, -, rfl, rfl⟩
  simp only [Section.find?_inCommand]
  cases fields.find? CommandKind.background.key with
  | none => exact .ok rfl
  | some body =>
    refine (alike_object (fields.location.key CommandKind.background.key) body).bind ?_
    rintro _ _ - ⟨body, -, -, rfl, rfl⟩
    refine (alike_mentionedName? body "image").bind ?_
    rintro image _ - rfl
    refine (alike_mentionedName? body "music").bind ?_
    rintro music _ - rfl
    exact .ok rfl

/-! ## Commands -/

section Resolve

variable {fields : Section}

/-- A wait is resolved alike at every place. -/
theorem alike_resolveWait : Alike place other Eq (resolveWait (fields.inCommand place))
    (resolveWait (fields.inCommand other)) := by
  refine (portable_single.required fields "time").bind ?_
  rintro time _ - rfl
  simp only
  split
  · exact .error (.invalid (fields.location.key "time") .expectedNonNegativeNumber)
  · exact .ok rfl

/-- Pools that know the name give it its number, which may differ. -/
theorem alike_resolveAsset (kind : ReferenceKind) {pool further : Pool String} {key : String}
    (hknows : ∀ name, fields.find? key = some (.string name) → name ≠ "" → name ∈ pool.names)
    (hfurther : ∀ name, fields.find? key = some (.string name) → name ≠ "" →
      name ∈ further.names) :
    Alike place other (fun _ _ => True) (resolveAsset kind pool (fields.inCommand place) key)
      (resolveAsset kind further (fields.inCommand other) key) := by
  refine (portable_string.optional fields key).bind ?_
  rintro name _ hname rfl
  cases name with
  | none => exact .ok trivial
  | some name =>
    have hfind : (fields.inCommand place).find? key = some (.string name) :=
      Section.optional_string_eq_ok.mp hname
    simp only
    split
    · exact .ok trivial
    · next hne =>
      obtain ⟨index, hindex⟩ := Pool.exists_position? (hknows name hfind hne)
      obtain ⟨index', hindex'⟩ := Pool.exists_position? (hfurther name hfind hne)
      rw [hindex, hindex']
      exact .ok trivial

variable {target further : Script} (hactors : target.actors = further.actors)
  (hids : target.actorIds = further.actorIds)

include hids in
/-- An actor is resolved alike in scripts of one cast. -/
theorem alike_resolveActor (id : String) : Alike place other Eq
    (target.resolveActor (fields.inCommand place) id)
    (further.resolveActor (fields.inCommand other) id) := by
  simp only [resolveActor, actorIndex?, hids]
  cases further.actorIds.idxOf? id with
  | none => exact .error (.unresolved .actor (.named id) (fields.location.key "actor"))
  | some index => exact .ok rfl

include hactors in
/-- A portrait is resolved alike in scripts of one cast. -/
theorem alike_resolvePortrait (actor : Option Nat) : Alike place other Eq
    (target.resolvePortrait (fields.inCommand place) actor)
    (further.resolvePortrait (fields.inCommand other) actor) := by
  refine ((portable_pair (portable_whole 0)).optional fields "portrait").bind ?_
  rintro portrait _ - rfl
  cases portrait with
  | none => exact .ok rfl
  | some pair =>
    obtain ⟨column, row⟩ := pair
    have hactorAt : target.actorAt? = further.actorAt? :=
      funext fun index => congrArg (·[index]?) hactors
    simp only [hactorAt]
    cases actor.bind further.actorAt? with
    | none => exact .error (.invalid (fields.location.key "portrait") .portraitWithoutActor)
    | some speaker =>
      simp only
      cases speaker.sheetSize.cellIndex column row with
      | none => exact .error (.invalid (fields.location.key "portrait") (.cellOutsideSheet ..))
      | some cell => exact .ok rfl

include hactors in
/-- The fields of a sprite command are resolved or refused alike, whatever its index. -/
theorem alike_resolveSpriteFields (index index' : Nat) (actor : Option Nat) :
    Alike place other (fun _ _ => True)
      (target.resolveSpriteFields (fields.inCommand place) index actor)
      (further.resolveSpriteFields (fields.inCommand other) index' actor) := by
  refine (portable_bool.optional fields "hide").bind ?_
  rintro hide _ - rfl
  refine (alike_resolvePortrait hactors actor).bind ?_
  rintro portrait _ - rfl
  refine (portable_vector.optional fields "pos").bind ?_
  rintro pos _ - rfl
  refine (portable_vector.optional fields "size").bind ?_
  rintro size _ - rfl
  exact .ok trivial

include hactors hids

/-- Scripts that know the sprite give it its number, which may differ. -/
theorem alike_resolveSprite (hknows : target.KnowsBody fields.entries .sprite)
    (hfurther : further.KnowsBody fields.entries .sprite) :
    Alike place other (fun _ _ => True) (target.resolveSprite (fields.inCommand place))
      (further.resolveSprite (fields.inCommand other)) := by
  refine (portable_string.required fields "id").bind ?_
  rintro id _ hid rfl
  have hfind : (fields.inCommand place).find? "id" = some (.string id) :=
    Section.required_string_eq_ok.mp hid
  obtain ⟨index, hindex⟩ := Pool.exists_position? (hknows id hfind)
  obtain ⟨index', hindex'⟩ := Pool.exists_position? (hfurther id hfind)
  simp only [hindex, hindex', pure_eq, ok_bind]
  refine (portable_string.optional fields "actor").bind ?_
  rintro actor _ - rfl
  cases actor with
  | none => exact alike_resolveSpriteFields hactors index index' none
  | some id =>
    refine ((alike_resolveActor hids id).map fun _ _ => congrArg some).bind ?_
    rintro actor _ - rfl
    exact alike_resolveSpriteFields hactors index index' actor

/-- A speak command is resolved alike in scripts of one cast. -/
theorem alike_resolveSpeak : Alike place other Eq
    (target.resolveSpeak limits (fields.inCommand place))
    (further.resolveSpeak limits (fields.inCommand other)) := by
  refine (portable_string.required fields "actor").bind ?_
  rintro id _ - rfl
  refine (alike_resolveActor hids id).bind ?_
  rintro actor _ - rfl
  refine (portable_string.optional fields "text").bind ?_
  rintro text _ - rfl
  refine (alike_checkText (fields.location.key "text") (text.getD "")).bind ?_
  rintro _ _ - -
  refine (alike_resolvePortrait hactors (some actor)).bind ?_
  rintro portrait _ - rfl
  exact .ok rfl

/-- A body is resolved or refused alike in scripts that know its names. -/
theorem alike_resolveBody {kind : CommandKind} (hknows : target.KnowsBody fields.entries kind)
    (hfurther : further.KnowsBody fields.entries kind) :
    Alike place other (fun _ _ => True) (target.resolveBody limits kind (fields.inCommand place))
      (further.resolveBody limits kind (fields.inCommand other)) := by
  cases kind with
  | sprite =>
    exact (alike_resolveSprite hactors hids hknows hfurther).map fun _ _ _ => trivial
  | speak => exact (alike_resolveSpeak hactors hids).map fun _ _ _ => trivial
  | wait => exact alike_resolveWait.map fun _ _ _ => trivial
  | background =>
    refine Alike.map (R := fun _ _ => True) ?_ fun _ _ _ => trivial
    refine (alike_resolveAsset .background hknows.1 hfurther.1).bind ?_
    rintro image image' - -
    refine (alike_resolveAsset .music hknows.2 hfurther.2).bind ?_
    rintro music music' - -
    exact .ok trivial

/-- In scripts of one cast that know all names in a command, the command is resolved in both, or
refused for the same reason. -/
theorem alike_resolveCommand {command : Json} (hknows : target.Knows command)
    (hfurther : further.Knows command) :
    Alike place other (fun _ _ => True) (target.resolveCommand limits place command)
      (further.resolveCommand limits other command) := by
  refine (alike_object .root command).bind ?_
  rintro _ _ - ⟨⟨location, entries⟩, rfl, rfl, rfl, rfl⟩
  have hkinds (place : Nat) : presentKinds (Section.inCommand ⟨.root, entries⟩ place) =
      presentKinds ⟨.root, entries⟩ := rfl
  simp only [hkinds]
  cases hpresent : presentKinds ⟨.root, entries⟩ with
  | nil => exact .error (.invalid .root (.noCommandKind 0))
  | cons first rest =>
    obtain ⟨kind, body⟩ := first
    cases rest with
    | cons second rest => exact .error (.invalid .root (.severalCommandKinds 0))
    | nil =>
      have hmem : (kind, body) ∈ presentKinds ⟨.root, entries⟩ :=
        hpresent ▸ List.mem_singleton_self _
      have hbody : entries.lookup kind.key = some body := mem_presentKinds.mp hmem
      refine (alike_object (Location.root.key kind.key) body).bind ?_
      rintro _ _ - ⟨body, rfl, -, rfl, rfl⟩
      exact alike_resolveBody hactors hids (hknows entries kind body.entries rfl hbody)
        (hfurther entries kind body.entries rfl hbody)

end Resolve

/-! ## Whole scripts -/

/-- A JSON value with a cast and commands. -/
def scriptValue (cast : Json) (commands : List Json) : Json :=
  .object [("actors", cast), ("commands", .array commands)]

/-- A script of a cast with the commands of a list, and the names that they mention. -/
def withCommandList (limits : Limits) (script : Script) (commands : List Json) :
    Except Error Script := do
  let sprites ← forEachCommand commands (mentionedSprite? limits)
  let assets ← forEachCommand commands (mentionedAssets limits)
  let resolved ← forEachCommand commands
    (resolveCommand limits (script.withMentions sprites assets))
  return { script.withMentions sprites assets with commands := resolved }

/-- A cast that loads leaves the command list to decide. -/
theorem load_scriptValue {cast : Json} {script : Script} (hcast : loadCast limits cast = .ok script)
    {commands : List Json} (hlength : commands.length ≤ limits.commands) :
    load limits (scriptValue cast commands) = withCommandList limits script commands := by
  have hcount : limits.checkCommands commands.length = .ok () :=
    Limits.checkCommands_eq_ok_iff.mpr hlength
  change (limits.checkCommands commands.length >>= fun _ => loadCast limits cast >>= fun _ => _) = _
  rw [hcount, ok_bind, hcast, ok_bind]
  rfl

/-- A list of one command stands or falls with it. -/
theorem forEachCommand_singleton {α : Type} (command : Json) (f : Nat → Json → Except Error α) :
    forEachCommand [command] f = ([·]) <$> f 0 command := by
  simp only [forEachCommand, List.zipIdx_singleton, List.mapM_cons, List.mapM_nil, map_pure,
    bind_pure_comp]

section List

variable {script : Script} {commands : List Json}

/-- A command that gives a result in a list gives it alone. -/
theorem exists_singleton_eq_ok {α : Type} {f : Nat → Json → Except Error α}
    (halike : ∀ place command, Alike place 0 Eq (f place command) (f 0 command))
    {results : List α} (h : forEachCommand commands f = .ok results) {command : Json}
    (hmem : command ∈ commands) : ∃ results, forEachCommand [command] f = .ok results := by
  obtain ⟨result, -, place, hresult⟩ := exists_mem_of_forEachCommand h hmem
  obtain ⟨alone, halone, -⟩ := (halike place command).exists_ok hresult
  exact ⟨[alone], by rw [forEachCommand_singleton, halone]; rfl⟩

/-- The error of a command in a list is the one that it gives alone. -/
theorem exists_singleton_eq_error {α β : Type} {f : Nat → Json → Except Error α}
    {g : Nat → Json → Except Error β} {R : α → β → Prop} {place : Nat} {command : Json}
    (halike : Alike place 0 R (f place command) (g 0 command)) {error : Error}
    (hfail : f place command = .error error) :
    ∃ first, forEachCommand [command] g = .error first ∧ error = first.renumber place := by
  obtain ⟨first, hfirst, hrenumber⟩ := halike.exists_error hfail
  exact ⟨first, by rw [forEachCommand_singleton, hfirst]; rfl, hrenumber⟩

/-- Once the names in a list are known, so are those of each of its commands alone, and it resolves
in the one script as it does in the other. -/
theorem exists_singleton_names {sprites : List (Option String)}
    {assets : List (Option String × Option String)}
    (hsprites : forEachCommand commands (mentionedSprite? limits) = .ok sprites)
    (hassets : forEachCommand commands (mentionedAssets limits) = .ok assets) {command : Json}
    (hmem : command ∈ commands) (script : Script) (place : Nat) :
    ∃ own ownAssets, forEachCommand [command] (mentionedSprite? limits) = .ok own ∧
      forEachCommand [command] (mentionedAssets limits) = .ok ownAssets ∧
      Alike place 0 (fun _ _ => True)
        ((script.withMentions sprites assets).resolveCommand limits place command)
        ((script.withMentions own ownAssets).resolveCommand limits 0 command) := by
  obtain ⟨own, hown⟩ := exists_singleton_eq_ok (fun _ => alike_mentionedSprite?) hsprites hmem
  obtain ⟨ownAssets, hownAssets⟩ :=
    exists_singleton_eq_ok (fun _ => alike_mentionedAssets) hassets hmem
  refine ⟨own, ownAssets, hown, hownAssets, ?_⟩
  have hknows : (script.withMentions sprites assets).Knows command :=
    knows_withMentions hsprites hassets hmem
  have hownKnows : (script.withMentions own ownAssets).Knows command :=
    knows_withMentions hown hownAssets (List.mem_singleton_self command)
  have hactors : (script.withMentions sprites assets).actors =
      (script.withMentions own ownAssets).actors := rfl
  exact alike_resolveCommand hactors rfl hknows hownKnows

/-- A command of a list that resolves does so alone. -/
theorem exists_alone_eq_ok {result : Script}
    (h : withCommandList limits script commands = .ok result) {command : Json}
    (hmem : command ∈ commands) :
    ∃ alone, withCommandList limits script [command] = .ok alone := by
  simp only [withCommandList, bind_eq_ok] at h ⊢
  obtain ⟨sprites, hsprites, assets, hassets, resolved, hresolved, -⟩ := h
  obtain ⟨_, -, place, hresult⟩ := exists_mem_of_forEachCommand hresolved hmem
  obtain ⟨own, ownAssets, hown, hownAssets, halike⟩ :=
    exists_singleton_names hsprites hassets hmem script place
  obtain ⟨alone, halone, -⟩ := halike.exists_ok hresult
  refine ⟨_, own, hown, ownAssets, hownAssets, [alone], ?_, rfl⟩
  rw [forEachCommand_singleton, halone]
  rfl

/-- The error of a list is that of one of its commands alone. -/
theorem exists_alone_eq_error {error : Error}
    (h : withCommandList limits script commands = .error error) :
    ∃ place command first, commands[place]? = some command ∧
      withCommandList limits script [command] = .error first ∧ error = first.renumber place := by
  -- the step that fails first in the list is the first to fail for the command, too
  rw [withCommandList, bind_eq_error] at h
  rcases h with h | ⟨sprites, hsprites, h⟩
  · obtain ⟨place, command, hcommand, hfail⟩ := exists_of_forEachCommand_eq_error h
    obtain ⟨first, hfirst, rfl⟩ := exists_singleton_eq_error (alike_mentionedSprite? command) hfail
    refine ⟨place, command, first, hcommand, ?_, rfl⟩
    rw [withCommandList, hfirst]
    rfl
  rw [bind_eq_error] at h
  rcases h with h | ⟨assets, hassets, h⟩
  · obtain ⟨place, command, hcommand, hfail⟩ := exists_of_forEachCommand_eq_error h
    obtain ⟨own, hown⟩ := exists_singleton_eq_ok (fun _ => alike_mentionedSprite?) hsprites
      (List.mem_of_getElem? hcommand)
    obtain ⟨first, hfirst, rfl⟩ := exists_singleton_eq_error (alike_mentionedAssets command) hfail
    refine ⟨place, command, first, hcommand, ?_, rfl⟩
    rw [withCommandList, hown, ok_bind, hfirst]
    rfl
  rw [bind_eq_error] at h
  rcases h with h | ⟨resolved, -, h⟩
  · obtain ⟨place, command, hcommand, hfail⟩ := exists_of_forEachCommand_eq_error h
    obtain ⟨own, ownAssets, hown, hownAssets, halike⟩ := exists_singleton_names hsprites hassets
      (List.mem_of_getElem? hcommand) script place
    obtain ⟨first, hfirst, rfl⟩ := exists_singleton_eq_error halike hfail
    refine ⟨place, command, first, hcommand, ?_, rfl⟩
    rw [withCommandList, hown, ok_bind, hownAssets, ok_bind, hfirst]
    rfl
  · exact absurd h nofun

end List

/-- Commands fail on their own account. Given a cast that loads without commands, a list of commands
is refused exactly if one of them is refused as the only command; and the error is the one that such
a command gives alone, with its place in the list in place of 0. -/
theorem load_fails_iff {cast : Json}
    (hcast : ∃ script, load limits (scriptValue cast []) = .ok script) {commands : List Json}
    (hlength : commands.length ≤ limits.commands) :
    ((∃ error, load limits (scriptValue cast commands) = .error error) ↔
      ∃ command ∈ commands, ∃ error, load limits (scriptValue cast [command]) = .error error) ∧
    ∀ error, load limits (scriptValue cast commands) = .error error →
      ∃ place command first, commands[place]? = some command ∧
        load limits (scriptValue cast [command]) = .error first ∧
        error = first.renumber place := by
  obtain ⟨_, hempty⟩ := hcast
  obtain ⟨_, _, _, hvalue, hfind, -, -, script, -, -, -, hscript, -⟩ := load_eq_ok_iff.mp hempty
  obtain rfl := Json.Tree.object.inj hvalue
  obtain rfl := Option.some.inj (show some cast = some _ from hfind)
  have hlist := load_scriptValue hscript hlength
  have halone {command : Json} (hmem : command ∈ commands) :
      load limits (scriptValue cast [command]) = withCommandList limits script [command] := by
    refine load_scriptValue hscript (Nat.le_trans ?_ hlength)
    exact List.length_pos_of_mem hmem
  have herror : ∀ error, load limits (scriptValue cast commands) = .error error →
      ∃ place command first, commands[place]? = some command ∧
        load limits (scriptValue cast [command]) = .error first ∧
        error = first.renumber place := by
    intro error h
    rw [hlist] at h
    obtain ⟨place, command, first, hcommand, hfirst, hrenumber⟩ := exists_alone_eq_error h
    exact ⟨place, command, first, hcommand,
      (halone (List.mem_of_getElem? hcommand)).trans hfirst, hrenumber⟩
  refine ⟨⟨?_, ?_⟩, herror⟩
  · rintro ⟨error, h⟩
    obtain ⟨place, command, first, hcommand, hfirst, -⟩ := herror error h
    exact ⟨command, List.mem_of_getElem? hcommand, first, hfirst⟩
  · rintro ⟨command, hmem, error, hfail⟩
    rw [halone hmem] at hfail
    rw [hlist]
    cases hresult : withCommandList limits script commands with
    | error error => exact ⟨error, rfl⟩
    | ok result =>
      obtain ⟨alone, hok⟩ := exists_alone_eq_ok hresult hmem
      rw [hok] at hfail
      cases hfail

/-- A wait, and one that does not say how long. -/
def unfinished : List Json :=
  [.object [("wait", .object [("time", .number (.integer 1))])], .object [("wait", .object [])]]

/-- The wait that is not finished is found out in the list as it is alone. -/
theorem load_fails_iff_unfinished : unfinished.length ≤ Limits.standard.commands ∧
    ∃ place command first, unfinished[place]? = some command ∧
      load .standard (scriptValue (.object []) [command]) = .error first ∧
      Error.invalid (((Location.command 1).key "wait").key "time") .missingField =
        first.renumber place := by
  have hlength : unfinished.length ≤ Limits.standard.commands := by decide
  have hcast : ∃ script, load .standard (scriptValue (.object []) []) = .ok script :=
    exists_eq_ok (by decide +kernel)
  exact ⟨hlength, (load_fails_iff hcast hlength).2 _ (by decide +kernel)⟩

end Script

end VisualNovel
