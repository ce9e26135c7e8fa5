import Mathlib.Data.List.Basic

/-!
# `TileDesc` and `TileCombined` (`wsd/TileDesc.hpp`)

A tile is named three ways in the code. `operator==` looks at everything but the version, the
size and the wire ids; the caches of the server look at the same fields less the preview id
(`CacheKey`); and what may share one `tilecombine` message is a choice of fields that leaves out
the position (`CombineParams`). The constructors refuse a descriptor with a negative field or an
empty size, so the model's fields are natural numbers and the sizes carry that they are positive.
-/

set_option autoImplicit false

namespace Oxool

/-- A tile descriptor. `mode` is the edit mode of an Impress document, `id` is negative unless the
tile is a preview, and `oldWireId` 0 asks for a keyframe. -/
structure TileDesc where
  normalizedViewId : Nat
  part : Nat
  mode : Nat
  width : Nat
  height : Nat
  tilePosX : Nat
  tilePosY : Nat
  tileWidth : Nat
  tileHeight : Nat
  ver : Int
  imgSize : Nat
  id : Int
  oldWireId : UInt32
  wireId : UInt32
  width_pos : 0 < width
  height_pos : 0 < height
  tileWidth_pos : 0 < tileWidth
  tileHeight_pos : 0 < tileHeight
deriving DecidableEq

/-- The fields that `TileDescCacheCompareEq` compares. -/
structure CacheKey where
  part : Nat
  width : Nat
  height : Nat
  tilePosX : Nat
  tilePosY : Nat
  tileWidth : Nat
  tileHeight : Nat
  normalizedViewId : Nat
  mode : Nat
deriving DecidableEq

/-- The fields that `sameTileCombineParams` compares. -/
structure CombineParams where
  part : Nat
  mode : Nat
  width : Nat
  height : Nat
  tileWidth : Nat
  tileHeight : Nat
  normalizedViewId : Nat
deriving DecidableEq

namespace TileDesc

/-- A tile of the usual size has some pixels, and some twips. -/
theorem usualPixels_pos : 0 < 256 := by decide

theorem usualTwips_pos : 0 < 3840 := by decide

def cacheKey (t : TileDesc) : CacheKey :=
  { part := t.part
    width := t.width
    height := t.height
    tilePosX := t.tilePosX
    tilePosY := t.tilePosY
    tileWidth := t.tileWidth
    tileHeight := t.tileHeight
    normalizedViewId := t.normalizedViewId
    mode := t.mode }

def combineParams (t : TileDesc) : CombineParams :=
  { part := t.part
    mode := t.mode
    width := t.width
    height := t.height
    tileWidth := t.tileWidth
    tileHeight := t.tileHeight
    normalizedViewId := t.normalizedViewId }

/-- `sameTileCombineParams`. -/
def sameTileCombineParams (t other : TileDesc) : Bool := t.combineParams == other.combineParams

/-- `operator==`: the cache's fields and the preview id. -/
def eq (t other : TileDesc) : Bool := t.cacheKey == other.cacheKey && t.id == other.id

def isPreview (t : TileDesc) : Bool := 0 ≤ t.id

/-- `getOldWireId() == 0`. -/
def wantsKeyframe (t : TileDesc) : Bool := t.oldWireId == 0

theorem eq_iff {t u : TileDesc} : t.eq u ↔ t.cacheKey = u.cacheKey ∧ t.id = u.id := by
  simp [eq]

/-- Equal tiles are equal to the same tiles. -/
theorem eq_congr {t u : TileDesc} (h : t.eq u) (v : TileDesc) : t.eq v = u.eq v := by
  obtain ⟨hkey, hid⟩ := eq_iff.mp h
  rw [eq, eq, hkey, hid]

theorem eq_self (t : TileDesc) : t.eq t := eq_iff.mpr ⟨rfl, rfl⟩

/-- The position apart, the cache's key is what a combined message shares. -/
theorem cacheKey_eq_iff (t u : TileDesc) :
    t.cacheKey = u.cacheKey ↔
      t.combineParams = u.combineParams ∧ t.tilePosX = u.tilePosX ∧ t.tilePosY = u.tilePosY := by
  simp only [cacheKey, combineParams, CacheKey.mk.injEq, CombineParams.mk.injEq]
  constructor
  · rintro ⟨h1, h2, h3, h4, h5, h6, h7, h8, h9⟩
    exact ⟨⟨h1, h9, h2, h3, h6, h7, h8⟩, h4, h5⟩
  · rintro ⟨⟨h1, h9, h2, h3, h6, h7, h8⟩, h4, h5⟩
    exact ⟨h1, h2, h3, h4, h5, h6, h7, h8, h9⟩

end TileDesc

/-- A `tilecombine` message, or a single tile (`isCompiled` false). The constructors give every tile
the shared parameters. -/
structure TileCombined where
  params : CombineParams
  tiles : List TileDesc
  isCompiled : Bool
  shared : ∀ t ∈ tiles, t.combineParams = params

namespace TileCombined

/-- `hasDuplicates`. -/
def hasDuplicates (c : TileCombined) : Bool :=
  !decide ((c.tiles.map fun t => (t.tilePosX, t.tilePosY)).Nodup)

/-- The constructor from one tile. -/
def single (t : TileDesc) : TileCombined :=
  { params := t.combineParams
    tiles := [t]
    isCompiled := false
    shared := by simp }

end TileCombined

end Oxool
