import VisualNovel.Error

/-!
# Assets

The textures and music tracks that have to be there before a scene is played, each once, in the
order of their first mention. `Assets.preload` has a host load them and stops at the first failure.
-/

namespace VisualNovel

/-- Textures and music tracks, without repetitions and without empty names. -/
structure Assets where
  textures : List String
  music : List String
  deriving DecidableEq, Repr

namespace Assets

/-- No assets. -/
def empty : Assets := ⟨[], []⟩

/-- Appends a name unless it is empty or already there. -/
def addName (names : List String) (name : String) : List String :=
  if name = "" ∨ name ∈ names then names else names ++ [name]

/-- Adds a texture. -/
def addTexture (assets : Assets) (path : String) : Assets :=
  { assets with textures := addName assets.textures path }

/-- Adds a music track. -/
def addMusic (assets : Assets) (track : String) : Assets :=
  { assets with music := addName assets.music track }

/-- Whether there is nothing to load. -/
def isEmpty (assets : Assets) : Bool := assets.textures.isEmpty && assets.music.isEmpty

/-- How a host with a state loads an asset: the outcome, a message if it failed, and the new
state. -/
structure Host (σ : Type) where
  loadTexture : String → σ → Except String Unit × σ
  loadMusic : String → σ → Except String Unit × σ

/-- Loads names in turn up to the first that fails. -/
def loadEach {σ : Type} (load : String → σ → Except String Unit × σ) :
    List String → σ → Except Error Unit × σ
  | [], state => (.ok (), state)
  | name :: rest, state =>
    match load name state with
    | (.ok _, state) => loadEach load rest state
    | (.error message, state) => (.error (.asset name message), state)

/-- Loads all textures, then all music, up to the first that fails. -/
def preload {σ : Type} (assets : Assets) (host : Host σ) (state : σ) : Except Error Unit × σ :=
  match loadEach host.loadTexture assets.textures state with
  | (.ok _, state) => loadEach host.loadMusic assets.music state
  | failed => failed

end Assets

end VisualNovel
