import Oxool.Delta.Cache
import Oxool.Tile.TileDesc

/-!
# `doRender` — a combined rendering (`common/RenderTiles.hpp`, `kit/Kit.cpp`)

One request paints the area that covers its tiles into one pixmap, cuts the tiles out of it and
hands each to the encoder: a PNG for a preview, a keyframe or a delta for any other tile. The
encoders run in a thread pool, so the tiles are done in any order; that the request names no tile
twice keeps them apart. The pixmap is whatever the office core painted, watermark included.

The state keeps beside the cache every frame sent so far, with the window it was made from. The
code never reads that record.
-/

set_option autoImplicit false

namespace Oxool.Kit

open Oxool.Delta

/-- `Util::Rectangle`, by its corners. -/
structure Rectangle where
  x1 : Nat
  y1 : Nat
  x2 : Nat
  y2 : Nat

namespace Rectangle

/-- `extend`. -/
def extend (a r : Rectangle) : Rectangle := ⟨min a.x1 r.x1, min a.y1 r.y1, max a.x2 r.x2, max a.y2 r.y2⟩

/-- `r` lies inside `a`. -/
def Covers (a r : Rectangle) : Prop := a.x1 ≤ r.x1 ∧ a.y1 ≤ r.y1 ∧ r.x2 ≤ a.x2 ∧ r.y2 ≤ a.y2

theorem covers_foldl {rs : List Rectangle} {a r : Rectangle} (h : a.Covers r ∨ r ∈ rs) :
    (rs.foldl extend a).Covers r := by
  induction rs generalizing a with
  | nil => exact h.resolve_right List.not_mem_nil
  | cons r' rs ih =>
    apply ih
    simp only [Covers, List.mem_cons, extend] at h ⊢
    rcases h with h | rfl | h
    · left
      omega
    · left
      omega
    · exact .inr h

end Rectangle

/-! ## Where each tile is in the pixmap -/

/-- The rectangle of a tile, in twips. -/
def tileRect (t : TileDesc) : Rectangle :=
  ⟨t.tilePosX, t.tilePosY, t.tilePosX + t.tileWidth, t.tilePosY + t.tileHeight⟩

/-- The area that covers all the tiles. -/
def renderArea : List TileDesc → Rectangle
  | [] => ⟨0, 0, 0, 0⟩
  | t :: ts => (ts.map tileRect).foldl Rectangle.extend (tileRect t)

theorem renderArea_covers {ts : List TileDesc} {t : TileDesc} (ht : t ∈ ts) :
    (renderArea ts).Covers (tileRect t) := by
  cases ts with
  | nil => cases ht
  | cons t₀ ts =>
    apply Rectangle.covers_foldl
    rw [List.mem_cons] at ht
    rcases ht with rfl | ht
    · exact .inl ⟨Nat.le_refl _, Nat.le_refl _, Nat.le_refl _, Nat.le_refl _⟩
    · exact .inr (List.mem_map.mpr ⟨t, ht, rfl⟩)

/-- `pixmapWidth`: as many tiles as the area is wide. -/
def pixmapWidth (c : TileCombined) : Nat :=
  let area := renderArea c.tiles
  (area.x2 - area.x1) / c.params.tileWidth * c.params.width

def pixmapHeight (c : TileCombined) : Nat :=
  let area := renderArea c.tiles
  (area.y2 - area.y1) / c.params.tileHeight * c.params.height

/-- A stretch of `size` twips inside the area is a stretch of `pixels` inside the pixmap. -/
theorem offset_inside {lo hi pos size pixels : Nat} (hsize : 0 < size) (hlo : lo ≤ pos)
    (hhi : pos + size ≤ hi) :
    (pos - lo) / size * pixels + pixels ≤ (hi - lo) / size * pixels := by
  have hnext : (pos - lo) / size + 1 = (pos - lo + size) / size :=
    (Nat.add_div_right _ hsize).symm
  have hle : (pos - lo + size) / size ≤ (hi - lo) / size := Nat.div_le_div_right (by omega)
  calc (pos - lo) / size * pixels + pixels
      = ((pos - lo) / size + 1) * pixels := by rw [Nat.succ_mul]
    _ ≤ (hi - lo) / size * pixels := Nat.mul_le_mul_right _ (by omega)

/-- A request with what the outside adds to it: the painted pixmap, the order in which the pool
gets to the tiles, and the canonical view ids of the kit's sessions. -/
structure Render where
  combined : TileCombined
  distinct : combined.hasDuplicates = false
  pixmap : List Pixel
  size : pixmap.length = pixmapWidth combined * pixmapHeight combined
  order : List (Fin combined.tiles.length)
  scheduled : order.Perm (List.finRange combined.tiles.length)
  sessions : List Nat

namespace Render

def tile (r : Render) (i : Fin r.combined.tiles.length) : TileDesc := r.combined.tiles[i]

theorem tile_params (r : Render) (i : Fin r.combined.tiles.length) :
    (r.tile i).combineParams = r.combined.params :=
  r.combined.shared _ (List.getElem_mem i.isLt)

/-- The window of tile `i`, at its offset in the pixmap. -/
def window (r : Render) (i : Fin r.combined.tiles.length) : Window :=
  let area := renderArea r.combined.tiles
  let t := r.tile i
  { pixmap := r.pixmap
    startX := (t.tilePosX - area.x1) / r.combined.params.tileWidth * r.combined.params.width
    startY := (t.tilePosY - area.y1) / r.combined.params.tileHeight * r.combined.params.height
    width := r.combined.params.width
    height := r.combined.params.height
    bufferWidth := pixmapWidth r.combined
    bufferHeight := pixmapHeight r.combined
    inside_x := by
      have harea := renderArea_covers (List.getElem_mem i.isLt : r.tile i ∈ r.combined.tiles)
      have hw : (r.tile i).tileWidth = r.combined.params.tileWidth := by
        rw [← r.tile_params i, TileDesc.combineParams]
      exact offset_inside (hw ▸ (r.tile i).tileWidth_pos) harea.1 (hw ▸ harea.2.2.1)
    inside_y := by
      have harea := renderArea_covers (List.getElem_mem i.isLt : r.tile i ∈ r.combined.tiles)
      have hh : (r.tile i).tileHeight = r.combined.params.tileHeight := by
        rw [← r.tile_params i, TileDesc.combineParams]
      exact offset_inside (hh ▸ (r.tile i).tileHeight_pos) harea.2.1 (hh ▸ harea.2.2.2)
    size := r.size }

theorem window_width (r : Render) (i : Fin r.combined.tiles.length) :
    (r.window i).width = (r.tile i).width := congrArg CombineParams.width (r.tile_params i).symm

theorem window_height (r : Render) (i : Fin r.combined.tiles.length) :
    (r.window i).height = (r.tile i).height := congrArg CombineParams.height (r.tile_params i).symm

/-- No two tiles of a request are at one place. -/
theorem pos_ne (r : Render) {i j : Fin r.combined.tiles.length} (hij : i ≠ j) :
    ((r.tile i).tilePosX, (r.tile i).tilePosY) ≠ ((r.tile j).tilePosX, (r.tile j).tilePosY) := by
  intro hpos
  have hnodup := r.distinct
  simp only [TileCombined.hasDuplicates, Bool.not_eq_false', decide_eq_true_eq] at hnodup
  rw [List.nodup_iff_injective_getElem] at hnodup
  have hmap : ∀ k : Fin r.combined.tiles.length, (k : Nat) <
      (r.combined.tiles.map fun t => (t.tilePosX, t.tilePosY)).length := fun k => by simp
  have hval := @hnodup ⟨i, hmap i⟩ ⟨j, hmap j⟩ (by simpa [tile] using hpos)
  exact hij (Fin.ext (by simpa using hval))

end Render

/-! ## The kit -/

/-- A frame the kit sent, with the window it shows. -/
structure Rendered where
  desc : TileDesc
  window : Window
  data : List UInt8

/-- `pushRendered`: the tile as it is sent back, with its wire id and size. -/
def Rendered.new (t : TileDesc) (w : Window) (wireId : UInt32) (data : List UInt8) : Rendered :=
  { desc := { t with
      wireId := wireId
      imgSize := data.length }
    window := w
    data := data }

/-- The kit's delta cache, its last wire id (`getCurrentWireId`), and the record of its frames. -/
structure State where
  deltaGen : DeltaGenerator
  nextId : UInt32
  rendered : List Rendered

/-- The kit before anything was rendered. -/
def State.init : State := ⟨.empty, 0, []⟩

section Encode

variable (hasAVX2 : Bool) (compress : List UInt8 → Option (List UInt8))
  (writePng : Nat → Nat → List UInt8 → List UInt8) (mode : TileMode)

/-- The location that `doRender` gives the encoder for a tile. -/
def tileLocation (t : TileDesc) (canonicalViewId : Nat) : TileLocation :=
  { left := t.tilePosX
    top := t.tilePosY
    size := t.tileWidth
    part := t.part
    canonicalViewId := canonicalViewId }

/-- The work queued for one tile. -/
def encodeTile (t : TileDesc) (w : Window) (canonicalViewId : Nat) (wireId : UInt32) (s : State) :
    State :=
  let (deltaGen, data) :=
    if t.isPreview then
      (s.deltaGen, writePng w.width w.height (pngImage mode w.rows))
    else
      s.deltaGen.compressOrDelta hasAVX2 compress mode w (tileLocation t canonicalViewId) wireId
        t.wantsKeyframe
  { s with
    deltaGen := deltaGen
    rendered := s.rendered ++ [Rendered.new t w wireId data] }

/-- `doRender`: the tiles in the order the pool runs them, each with the wire id its place in the
request gave it, and the cache cut back at the end. -/
def doRender (r : Render) (canonicalViewId : Nat) (s : State) : State :=
  if r.combined.tiles = [] then s
  else
    let encoded := r.order.foldl (fun s' i =>
      encodeTile hasAVX2 compress writePng mode (r.tile i) (r.window i) canonicalViewId
        (s.nextId + UInt32.ofNat (i + 1)) s') s
    { encoded with
      nextId := s.nextId + UInt32.ofNat r.combined.tiles.length
      deltaGen := encoded.deltaGen.rebalanceDeltas (-1) }

/-- `renderTiles`: a session with the request's view, if one is left. -/
def renderTiles (r : Render) (s : State) : State :=
  match r.sessions.find? (· = r.combined.params.normalizedViewId) with
  | none => s
  | some canonicalViewId => doRender hasAVX2 compress writePng mode r canonicalViewId s

/-- What happens to the kit's tiles. -/
inductive Action where
  | render (r : Render)
  | setSessionCount (count : Nat)
  | dropCache

def act (s : State) : Action → State
  | .render r => renderTiles hasAVX2 compress writePng mode r s
  | .setSessionCount count => { s with deltaGen := s.deltaGen.setSessionCount count }
  | .dropCache => { s with deltaGen := s.deltaGen.dropCache }

end Encode

end Oxool.Kit
