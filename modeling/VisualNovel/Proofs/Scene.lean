import VisualNovel.Proofs.Script.RoundTrip
import VisualNovel.Scene

/-!
# Scenes and their scripts

A scene and its script stand in one JSON object, each under keys of its own. The script is read from
`actors` and `commands` alone (`Script.load_congr`), and the keys of the scene are other ones, so
what is written of a scene is found where it is looked for (`Scene.find?_toJson`) and loads as the
same scene (`Scene.load_toJson_self`).

An empty background, music or next scene counts as none when it is read. None is written then, so a
loaded scene has no empty names there (`Scene.named_of_load`).
-/

namespace VisualNovel

open Outcome

/-- What a script loads as is read from its cast and its commands. -/
theorem Script.load_congr {limits : Limits} {entries others : List (String × Json)}
    {script : Script} (hactors : others.lookup "actors" = entries.lookup "actors")
    (hcommands : others.lookup "commands" = entries.lookup "commands")
    (h : load limits (.object entries) = .ok script) :
    load limits (.object others) = .ok script := by
  obtain ⟨fields, cast, commands, heq, hcast, hlist, hrest⟩ := load_eq_ok_iff.mp h
  obtain rfl := Json.Tree.object.inj heq
  exact load_eq_ok_iff.mpr
    ⟨others, cast, commands, rfl, hactors.trans hcast, hcommands.trans hlist, hrest⟩

/-- A script is written as an object of two fields. -/
theorem Script.exists_fields_of_toJson {script : Script} {value : Json}
    (h : script.toJson = .ok value) :
    ∃ actors commands, value = .object [("actors", actors), ("commands", commands)] := by
  obtain ⟨manuscript, -, rfl⟩ := exceptMap_eq_ok.mp h
  change ∃ actors commands, Manuscript.valueOf Manuscript.Figure.toNumber manuscript.outline = _
  rw [Manuscript.outline, Manuscript.valueOf_object, Manuscript.valueEntries,
    Json.orderEntries_eq_self]
  · exact ⟨_, _, rfl⟩
  · exact (by decide : ["actors", "commands"].Pairwise (· < ·))

namespace Scene

/-! ## Reading -/

section Reading

variable {fields : Section} {key : String}

/-- A name that is given and not empty. -/
theorem optionalName_eq_ok_some {name : String} :
    optionalName fields key = .ok (some name) ↔
      fields.find? key = some (.string name) ∧ name ≠ "" := by
  simp only [optionalName, bind_eq_ok, pure_eq_ok, Option.filter_eq_some_iff, decide_eq_true_eq]
  constructor
  · rintro ⟨_, hread, rfl, hne⟩
    exact ⟨Section.optional_string_eq_ok.mp hread, hne⟩
  · rintro ⟨hfind, hne⟩
    exact ⟨_, Section.optional_string_eq_ok.mpr hfind, rfl, hne⟩

theorem optionalName_of_find?_eq_none (h : fields.find? key = none) :
    optionalName fields key = .ok none := by
  rw [optionalName, Section.optional_eq_ok_none.mpr h]
  rfl

/-- A name that is written unless it is missing, and is not empty, is read back. -/
theorem optionalName_of_find? {name : Option String} (hfind : fields.find? key = name.map .string)
    (hne : name ≠ some "") : optionalName fields key = .ok name := by
  cases name with
  | none => exact optionalName_of_find?_eq_none hfind
  | some name => exact optionalName_eq_ok_some.mpr ⟨hfind, fun h => hne (congrArg some h)⟩

/-- The word for scenes with a story passes. -/
theorem checkType_of_story (h : fields.find? "type" = some (.string storyType)) :
    checkType fields = .ok () := by
  simp only [checkType, bind_eq_ok, guard_eq_ok, last_guard_eq_ok, pure_eq_ok, and_true]
  exact ⟨storyType, Section.required_string_eq_ok.mpr h, by decide +kernel, by decide +kernel⟩

end Reading

variable {limits : Limits} {name : String} {scene : Scene}

/-- What the keys of a scene beside those of its script say. -/
structure ReadsEnvelope (name : String) (fields : Section) (scene : Scene) : Prop where
  name_eq : scene.name = name
  title : ∃ title, fields.optional "title" .string = .ok title ∧ title.getD name = scene.title
  background : optionalName fields "background" = .ok scene.background
  music : optionalName fields "music" = .ok scene.music
  next : optionalName fields "next" = .ok scene.next
  type : checkType fields = .ok ()

/-- A value loads as a scene exactly if its keys say so and its script loads. -/
theorem load_eq_ok_iff {value : Json} :
    load limits name value = .ok scene ↔ ∃ entries, value = .object entries ∧
      ReadsEnvelope name ⟨.root, entries⟩ scene ∧ Script.load limits value = .ok scene.story := by
  simp only [load, bind_eq_ok, exists_unit, pure_eq_ok, FieldReader.object_eq_ok]
  constructor
  · rintro ⟨⟨-, entries⟩, ⟨rfl, rfl⟩, title, htitle, background, hbackground, music, hmusic, next,
      hnext, htype, story, hstory, rfl⟩
    exact ⟨entries, rfl, ⟨rfl, ⟨title, htitle, rfl⟩, hbackground, hmusic, hnext, htype⟩, hstory⟩
  · rintro ⟨entries, rfl, ⟨rfl, ⟨title, htitle, hgetD⟩, hbackground, hmusic, hnext, htype⟩, hstory⟩
    refine ⟨⟨_, entries⟩, ⟨rfl, rfl⟩, title, htitle, _, hbackground, _, hmusic, _, hnext, htype, _,
      hstory, ?_⟩
    rw [hgetD]

/-- The optional names of a scene are not empty where they are there. -/
structure Named (scene : Scene) : Prop where
  background : scene.background ≠ some ""
  music : scene.music ≠ some ""
  next : scene.next ≠ some ""

theorem named_of_load {value : Json} (h : load limits name value = .ok scene) : scene.Named := by
  obtain ⟨entries, -, henvelope, -⟩ := load_eq_ok_iff.mp h
  have hne {fields : Section} {key : String} {found : Option String}
      (hread : optionalName fields key = .ok found) : found ≠ some "" := by
    rintro rfl
    exact (optionalName_eq_ok_some.mp hread).2 rfl
  exact ⟨hne henvelope.background, hne henvelope.music, hne henvelope.next⟩

/-! ## Writing -/

/-- Whichever names are there, no key is written twice. -/
theorem nodup_keys (scene : Scene) (actors commands : Json) :
    ((scene.envelope ++ [("actors", actors), ("commands", commands)]).map Prod.fst).Nodup := by
  obtain ⟨name, title, background, music, next, story⟩ := scene
  cases background <;> cases music <;> cases next <;> simp [envelope]

/-- What is found in the written form of a scene: under each of its keys what it says, and under
the two keys of its script what is written there. -/
theorem find?_toJson {actors commands : Json}
    (hstory : scene.story.toJson = .ok (.object [("actors", actors), ("commands", commands)])) :
    ∃ entries, scene.toJson = .ok (.object entries) ∧
      entries.lookup "title" = some (.string scene.title) ∧
      entries.lookup "background" = scene.background.map .string ∧
      entries.lookup "music" = scene.music.map .string ∧
      entries.lookup "next" = scene.next.map .string ∧
      entries.lookup "type" = some (.string storyType) ∧
      entries.lookup "actors" = some actors ∧ entries.lookup "commands" = some commands := by
  refine ⟨Json.orderEntries (scene.envelope ++ [("actors", actors), ("commands", commands)]),
    by rw [toJson, hstory]; rfl, ?_⟩
  simp only [Json.lookup_orderEntries (nodup_keys scene actors commands)]
  obtain ⟨name, title, background, music, next, story⟩ := scene
  cases background <;> cases music <;> cases next <;> exact ⟨rfl, rfl, rfl, rfl, rfl, rfl, rfl⟩

/-! ## Round trip -/

/-- A scene that was loaded is written, and what is written loads under the same limits as the very
same scene: with its title, wherever it came from, what is shown and played when it opens, the scene
that follows, and the same script with the same indices. -/
theorem load_toJson_self {value : Json} (h : load limits name value = .ok scene)
    (hordered : value.Ordered) :
    ∃ written, scene.toJson = .ok written ∧ load limits scene.name written = .ok scene := by
  obtain ⟨-, -, -, hstory⟩ := load_eq_ok_iff.mp h
  have hnamed : scene.Named := named_of_load h
  obtain ⟨story, hwritten, hagain⟩ := Script.load_toJson_of_load hstory hordered
  obtain ⟨actors, commands, rfl⟩ := Script.exists_fields_of_toJson hwritten
  obtain ⟨entries, hentries, htitle, hbackground, hmusic, hnext, htype, hactors, hcommands⟩ :=
    find?_toJson hwritten
  refine ⟨_, hentries, load_eq_ok_iff.mpr ⟨entries, rfl, ?_, ?_⟩⟩
  · constructor
    case name_eq => rfl
    case title => exact ⟨_, Section.optional_string_eq_ok.mpr htitle, rfl⟩
    case background => exact optionalName_of_find? hbackground hnamed.background
    case music => exact optionalName_of_find? hmusic hnamed.music
    case next => exact optionalName_of_find? hnext hnamed.next
    case type => exact checkType_of_story htype
  · exact Script.load_congr (hactors.trans rfl) (hcommands.trans rfl) hagain

/-- A scene without a title, with its type in capitals and two empty names. -/
def dusk : Json :=
  .object
    [("actors", .object
      [("ann", .object [("name", .string "Ann"), ("sheet", .string "ann.png"),
        ("sheetSize", .array [.number (.integer 2), .number (.integer 3)])])]),
    ("background", .string ""),
    ("commands", .array
      [.object [("background", .object [("image", .string "hall"), ("music", .string "")])],
      .object [("sprite", .object [("actor", .string "ann"), ("id", .string "left"),
        ("portrait", .array [.number (.integer 1), .number (.integer 2)])])]]),
    ("music", .string "song"), ("next", .string ""), ("type", .string "STORY")]

/-- The scene at dusk is loaded, saved, and loaded again as the same scene. -/
theorem load_toJson_self_dusk :
    ∃ scene written, load .standard "dusk" dusk = .ok scene ∧ scene.title = "dusk" ∧
      scene.background = none ∧ scene.music = some "song" ∧ scene.toJson = .ok written ∧
      load .standard "dusk" written = .ok scene := by
  obtain ⟨scene, hload⟩ :=
    exists_eq_ok (by decide +kernel : (load .standard "dusk" dusk).toOption.isSome)
  have hread : (load .standard "dusk" dusk).toOption.map
      (fun scene => (scene.name, scene.title, scene.background, scene.music)) =
        some ("dusk", "dusk", none, some "song") := by
    decide +kernel
  rw [hload] at hread
  obtain ⟨hname, htitle, hbackground, hmusic⟩ := by
    simpa only [Prod.mk.injEq] using Option.some.inj hread
  have hcanonical : dusk.canonical = dusk := rfl
  obtain ⟨written, hwritten, hagain⟩ :=
    load_toJson_self hload (hcanonical ▸ Json.Tree.ordered_canonical dusk)
  exact ⟨scene, written, hload, htitle, hbackground, hmusic, hwritten, hname ▸ hagain⟩

end Scene

end VisualNovel
