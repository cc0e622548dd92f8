import Mathlib.Data.List.Nodup
import VisualNovel.Proofs.Script.Sound
import VisualNovel.Scene

/-!
# The assets of a scene

The textures of a scene are the sheets of its cast, its backgrounds and the one it opens with; its
music are its tracks and the one it opens with. Each is listed once, and empty names are left out
(`Scene.mem_textures`, `Scene.mem_music`, `Scene.listed_textures`, `Scene.listed_music`).
-/

namespace VisualNovel

namespace Assets

/-- Names without repetitions and without empty names. -/
structure Listed (names : List String) : Prop where
  nodup : names.Nodup
  named : "" ∉ names

/-- No names are listed names. -/
theorem listed_nil : Listed [] := ⟨List.nodup_nil, List.not_mem_nil⟩

/-- A name is listed once it is added, unless it is empty. -/
theorem mem_addName {names : List String} {name other : String} :
    other ∈ addName names name ↔ other ∈ names ∨ other = name ∧ other ≠ "" := by
  rw [addName]
  split
  · next hknown =>
    refine (or_iff_left_of_imp ?_).symm
    rintro ⟨rfl, hne⟩
    exact hknown.resolve_left hne
  · next hnew =>
    rw [not_or] at hnew
    rw [List.mem_append, List.mem_singleton]
    exact or_congr_right (and_iff_left_of_imp fun heq => heq ▸ hnew.1).symm

/-- Names stay listed when one is added. -/
theorem Listed.addName {names : List String} (h : Listed names) (name : String) :
    Listed (addName names name) := by
  rw [Assets.addName]
  split
  · exact h
  · next hnew =>
    rw [not_or] at hnew
    constructor
    · exact nodup_append_singleton.mpr ⟨hnew.2, h.nodup⟩
    · rw [List.mem_append, List.mem_singleton, not_or]
      exact ⟨h.named, Ne.symm hnew.1⟩

/-- Names added one after the other: each that is not empty is there. -/
theorem mem_foldl_addName {names : List String} {other : String} (known : List String) :
    other ∈ names.foldl Assets.addName known ↔ other ∈ known ∨ other ∈ names ∧ other ≠ "" := by
  induction names generalizing known with
  | nil => simp
  | cons name names ih =>
    rw [List.foldl_cons, ih, mem_addName, List.mem_cons, or_and_right, or_assoc]

/-- Names stay listed however many are added. -/
theorem Listed.foldl_addName {known : List String} (h : Listed known) (names : List String) :
    Listed (names.foldl Assets.addName known) := by
  induction names generalizing known with
  | nil => exact h
  | cons name names ih => exact ih (h.addName name)

/-- Adding textures changes the textures only. -/
theorem foldl_addTexture (paths : List String) (assets : Assets) :
    paths.foldl addTexture assets =
      { assets with textures := paths.foldl Assets.addName assets.textures } := by
  induction paths generalizing assets with
  | nil => rfl
  | cons path paths ih => rw [List.foldl_cons, ih, List.foldl_cons, addTexture]

/-- Adding tracks changes the tracks only. -/
theorem foldl_addMusic (tracks : List String) (assets : Assets) :
    tracks.foldl addMusic assets =
      { assets with music := tracks.foldl Assets.addName assets.music } := by
  induction tracks generalizing assets with
  | nil => rfl
  | cons track tracks ih => rw [List.foldl_cons, ih, List.foldl_cons, addMusic]

end Assets

namespace Scene

/-- All textures that a scene mentions, in the order in which they are collected. -/
def textures (scene : Scene) : List String :=
  scene.story.actors.map (·.sheet) ++ scene.story.backgrounds.entries ++ scene.background.toList

/-- All music that a scene mentions, in the order in which it is collected. -/
def tracks (scene : Scene) : List String := scene.story.music.entries ++ scene.music.toList

/-- The assets of a scene are what it mentions, each name added once. -/
theorem requiredAssets_eq (scene : Scene) :
    scene.requiredAssets =
      ⟨scene.textures.foldl Assets.addName [], scene.tracks.foldl Assets.addName []⟩ := by
  obtain ⟨name, title, background, music, next, story⟩ := scene
  simp only [requiredAssets, Script.requiredAssets, Assets.foldl_addTexture, Assets.foldl_addMusic,
    Assets.empty, textures, tracks, List.foldl_append]
  cases background <;> cases music <;> rfl

variable {scene : Scene} {name : String}

/-- The textures a scene requires are those it names, without the empty name. -/
theorem mem_textures :
    name ∈ scene.requiredAssets.textures ↔ name ∈ scene.textures ∧ name ≠ "" := by
  rw [requiredAssets_eq, Assets.mem_foldl_addName, or_iff_right List.not_mem_nil]

/-- The tracks a scene requires are those it names, without the empty name. -/
theorem mem_music : name ∈ scene.requiredAssets.music ↔ name ∈ scene.tracks ∧ name ≠ "" := by
  rw [requiredAssets_eq, Assets.mem_foldl_addName, or_iff_right List.not_mem_nil]

/-- The textures a scene requires differ, and none is empty. -/
theorem listed_textures (scene : Scene) : Assets.Listed scene.requiredAssets.textures := by
  rw [requiredAssets_eq]
  exact Assets.listed_nil.foldl_addName scene.textures

/-- The tracks a scene requires differ, and none is empty. -/
theorem listed_music (scene : Scene) : Assets.Listed scene.requiredAssets.music := by
  rw [requiredAssets_eq]
  exact Assets.listed_nil.foldl_addName scene.tracks

/-- The sheet of an actor who can be drawn is among the textures. -/
theorem sheet_mem_textures (hsound : scene.story.Sound) {index : Nat} {actor : Actor}
    (h : scene.story.actorAt? index = some actor) :
    actor.sheet ∈ scene.requiredAssets.textures := by
  refine mem_textures.mpr ⟨?_, (hsound.drawable_of_actorAt? h).sheet_ne⟩
  refine List.mem_append_left _ (List.mem_append_left _ ?_)
  exact List.mem_map_of_mem (List.mem_of_getElem? h)

end Scene

end VisualNovel
