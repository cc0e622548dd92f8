import VisualNovel.Playback.Frame
import VisualNovel.Proofs.Pool

/-!
# How sprites are drawn

The view of a sprite has the name that the pool has at its index, and depends on no other sprite's
state (`Playback.spriteView?_eq_some_iff`). A frame shows the views of those that are visible, in
the order of the pool (`Playback.mem_sprites_frame`, `Playback.ids_frame_sublist`).
-/

namespace VisualNovel

/-- A sprite of a name as it is drawn. -/
def SpriteState.view (script : Script) (state : SpriteState) (name : String) : SpriteView :=
  ⟨name, state.visible, state.pos, state.size,
    (state.actor.bind script.actorAt?).bind fun actor => state.portrait.bind actor.portraitView⟩

/-- The elements at the indices of a list are the list. -/
theorem filterMap_getElem?_range {α : Type} (l : List α) :
    (List.range l.length).filterMap (l[·]?) = l := by
  induction l with
  | nil => rfl
  | cons a l ih =>
    rw [List.length_cons, List.range_succ_eq_map, List.filterMap_cons, List.filterMap_map]
    exact congrArg (a :: ·) ih

namespace Playback

variable {playback : Playback}

theorem spriteView?_eq_some_iff {index : Nat} {view : SpriteView} :
    playback.spriteView? index = some view ↔ ∃ state name,
      playback.stage.sprites[index]? = some state ∧
        playback.script.sprites.nameAt? index = some name ∧
        state.view playback.script name = view := by
  simp only [spriteView?, Option.bind_eq_bind, Option.bind_eq_some_iff, Option.pure_def,
    Option.some.injEq, SpriteState.view, Option.bind_assoc]
  constructor
  · rintro ⟨state, hstate, name, hname, rfl⟩
    exact ⟨state, name, hstate, hname, rfl⟩
  · rintro ⟨state, name, hstate, hname, rfl⟩
    exact ⟨state, hstate, name, hname, rfl⟩

/-- A view is of the sprite that has its id. -/
theorem nameAt?_of_spriteView? {script : Script} (hscript : playback.script = script) {index : Nat}
    {view : SpriteView} (h : playback.spriteView? index = some view) :
    script.sprites.nameAt? index = some view.id := by
  obtain ⟨state, name, -, hname, rfl⟩ := spriteView?_eq_some_iff.mp h
  exact hscript ▸ hname

/-- How a sprite is drawn depends on its own state. -/
theorem spriteView?_congr {later : Playback} (hscript : later.script = playback.script)
    {index : Nat} (hstate : later.stage.sprites[index]? = playback.stage.sprites[index]?) :
    later.spriteView? index = playback.spriteView? index := by
  rw [spriteView?, hstate, hscript, spriteView?]

section All

variable (hlength : playback.stage.sprites.length = playback.script.sprites.size)
include hlength

/-- If there is a sprite on stage for each entry of the pool, each has a view. -/
theorem exists_view {index : Nat} (hindex : index < playback.script.sprites.size) :
    ∃ state name, playback.stage.sprites[index]? = some state ∧
      playback.script.sprites.nameAt? index = some name ∧
      playback.spriteView? index = some (state.view playback.script name) := by
  obtain ⟨name, hname⟩ := Pool.lt_size_iff.mp hindex
  obtain ⟨state, hstate⟩ : ∃ state, playback.stage.sprites[index]? = some state :=
    ⟨_, List.getElem?_eq_getElem (hlength ▸ hindex)⟩
  exact ⟨state, name, hstate, hname, spriteView?_eq_some_iff.mpr ⟨state, name, hstate, hname, rfl⟩⟩

/-- A frame has the views of the visible sprites, each once and in the order of the pool. -/
theorem map_some_sprites_frame :
    playback.frame.sprites.map some =
      ((List.range playback.script.sprites.size).filter fun index =>
        playback.stage.sprites[index]?.any (·.visible)).map playback.spriteView? := by
  have hindices (indices : List Nat)
      (h : ∀ index ∈ indices, index < playback.script.sprites.size) :
      ((indices.filterMap playback.spriteView?).filter (·.visible)).map some =
        (indices.filter fun index => playback.stage.sprites[index]?.any (·.visible)).map
          playback.spriteView? := by
    induction indices with
    | nil => rfl
    | cons index indices ih =>
      rw [List.forall_mem_cons] at h
      obtain ⟨state, name, hstate, -, hview⟩ := exists_view hlength h.1
      have hvisible : (state.view playback.script name).visible = state.visible := rfl
      rw [List.filterMap_cons, hview, List.filter_cons, List.filter_cons, hstate, Option.any_some,
        hvisible]
      split
      · rw [List.map_cons, List.map_cons, hview, ih h.2]
      · exact ih h.2
  rw [frame, hlength]
  exact hindices _ fun _ => List.mem_range.mp

end All

/-- A frame shows the sprites that are visible. -/
theorem mem_sprites_frame {view : SpriteView} :
    view ∈ playback.frame.sprites ↔ view.visible ∧ ∃ index state name,
      playback.stage.sprites[index]? = some state ∧
        playback.script.sprites.nameAt? index = some name ∧
        state.view playback.script name = view := by
  rw [frame, List.mem_filter, List.mem_filterMap, and_comm]
  refine and_congr_right fun _ => exists_congr fun index => ?_
  rw [spriteView?_eq_some_iff, List.mem_range]
  refine and_iff_right_of_imp ?_
  rintro ⟨state, name, hstate, -⟩
  exact (List.getElem?_eq_some_iff.mp hstate).1

/-- The sprites of a frame are in the order of the pool. -/
theorem ids_frame_sublist (hpool : playback.script.sprites.Registered)
    (hlength : playback.stage.sprites.length = playback.script.sprites.size) :
    (playback.frame.sprites.map (·.id)).Sublist playback.script.sprites.names := by
  have hnames : playback.script.sprites.names.length = playback.stage.sprites.length := by
    rw [hlength, hpool.names_eq, List.length_map, Pool.size]
  -- of all sprites, the ids are the names of the pool
  have hids : ((List.range playback.stage.sprites.length).filterMap playback.spriteView?).map
      (·.id) = playback.script.sprites.names := by
    rw [List.map_filterMap, ← hnames]
    refine (List.filterMap_congr fun index hindex => ?_).trans (filterMap_getElem?_range _)
    rw [List.mem_range] at hindex
    obtain ⟨state, name, -, hname, hview⟩ :=
      exists_view hlength (hlength ▸ hnames ▸ hindex)
    rw [hview, ← hpool.nameAt?_eq, hname]
    rfl
  exact hids ▸ List.filter_sublist.map _

end Playback

end VisualNovel
