import Mathlib.Data.Set.Basic
import Oxool.Tile.RoundTrip
import Oxool.Wsd.Invalidation
import Oxool.Wsd.TileBatching

/-!
# Asking again for what the client sees (`ClientSession::handleTileInvalidation`)

After an invalidation the server asks for new tiles on behalf of the client, for those tiles that the
changed area meets and that are in view. What is in view comes in up to four panes: a frozen part at
the edge of the document and a free part behind it, in each direction. `paneArea` says in integers
where a pane is, and `getNormalizedVisiblePaneArea_eq` that the `int`s come out there.

The loop over a pane goes from the tile that its first twip is on to one beyond its last
(`mem_indices`), and `addTile` keeps of these the ones that the changed area meets, each once. A pane
that the changed area does not meet is left out before: a tile can be on the pane and on the changed
area without the change being in view.
-/

set_option autoImplicit false

namespace Oxool.Kit.IntRectangle

def isValid (a : IntRectangle) : Bool := decide (a.x1 ≤ a.x2) && decide (a.y1 ≤ a.y2)

def hasSurface (a : IntRectangle) : Bool := decide (a.x1 < a.x2) && decide (a.y1 < a.y2)

def intersects (a rOther : IntRectangle) : Bool :=
  isValid ⟨max a.x1 rOther.x1, max a.y1 rOther.y1, min a.x2 rOther.x2, min a.y2 rOther.y2⟩

/-- The places of the document in a rectangle, edges included. -/
def points (a : IntRectangle) : Set (Int × Int) :=
  {p | (a.x1 ≤ p.1 ∧ p.1 ≤ a.x2) ∧ a.y1 ≤ p.2 ∧ p.2 ≤ a.y2}

/-- `intersects` is asked of edges; it is about places. -/
theorem intersects_iff (a b : IntRectangle) :
    a.intersects b = true ↔ (a.points ∩ b.points).Nonempty := by
  simp only [intersects, isValid, Bool.and_eq_true, decide_eq_true_eq]
  constructor
  · rintro ⟨hx, hy⟩
    refine ⟨(max a.x1 b.x1, max a.y1 b.y1), ⟨⟨?_, ?_⟩, ?_, ?_⟩, ⟨?_, ?_⟩, ?_, ?_⟩ <;> omega
  · rintro ⟨p, ⟨⟨hax1, hax2⟩, hay1, hay2⟩, ⟨hbx1, hbx2⟩, hby1, hby2⟩
    exact ⟨le_trans (max_le hax1 hbx1) (le_min hax2 hbx2),
      le_trans (max_le hay1 hby1) (le_min hay2 hby2)⟩

end Oxool.Kit.IntRectangle

namespace Oxool.Wsd.Tiles

open Oxool.Http (Bytes ascii)
open Oxool.Kit (IntRectangle)
open Oxool.Protocol

/-! ## Where the client looks -/

inductive SplitPaneName where
  | topLeft
  | topRight
  | bottomLeft
  | bottomRight
deriving DecidableEq

/-- What `ClientSession` keeps of the client's view. -/
structure ClientView where
  clientVisibleArea : IntRectangle
  splitX : Int
  splitY : Int
  clientSelectedPart : Int
  clientSelectedMode : Int
  tileWidthPixel : Int
  tileHeightPixel : Int
  tileWidthTwips : Int
  tileHeightTwips : Int
  isTextDocument : Bool
  isCloseFrame : Bool

namespace ClientView

variable (v : ClientView)

def getNormalizedVisibleArea : IntRectangle :=
  { v.clientVisibleArea with
    x1 := max v.clientVisibleArea.x1 0
    y1 := max v.clientVisibleArea.y1 0 }

def isSplitPane : SplitPaneName → Bool
  | .bottomRight => true
  | .topLeft => v.splitX != 0 && v.splitY != 0
  | .topRight => v.splitY != 0
  | .bottomLeft => v.splitX != 0

def getNormalizedVisiblePaneArea (paneName : SplitPaneName) : IntRectangle :=
  let area := v.getNormalizedVisibleArea
  if v.splitX = 0 ∧ v.splitY = 0 then
    match paneName with
    | .bottomRight => area
    | _ => .empty
  else
    let freeStartX := toInt32 (area.x1 + v.splitX)
    let freeStartY := toInt32 (area.y1 + v.splitY)
    let freeWidth := toInt32 (area.getWidth - v.splitX)
    let freeHeight := toInt32 (area.getHeight - v.splitY)
    match paneName with
    | .bottomRight => .ofSize freeStartX freeStartY freeWidth freeHeight
    | .topLeft => if v.splitX ≠ 0 ∧ v.splitY ≠ 0 then .ofSize 0 0 v.splitX v.splitY else .empty
    | .topRight => if v.splitY ≠ 0 then .ofSize freeStartX 0 freeWidth v.splitY else .empty
    | .bottomLeft => if v.splitX ≠ 0 then .ofSize 0 freeStartY v.splitX freeHeight else .empty

/-! ## The request -/

def panes : List SplitPaneName := [.topLeft, .topRight, .bottomLeft, .bottomRight]

/-- The quotient rounded up. `std::ceil` is given a quotient of two `int`s as a `double`, which is
not on the other side of a whole number: from one it is further away than a `double` is rounded. -/
def ceilDiv (a b : Int) : Int := -Int.fdiv (-a) b

/-- The indices of the tiles in one direction. -/
def indices (first last size : Int) : List Int :=
  let start := first.tdiv size
  (List.range (ceilDiv last size + 1 - start).toNat).map fun k : Nat => start + k

/-- Where the tiles of a pane start, row by row. -/
def positions (normalizedVisArea : IntRectangle) : List (Int × Int) :=
  (indices normalizedVisArea.y1 normalizedVisArea.y2 v.tileHeightTwips).flatMap fun i =>
    (indices normalizedVisArea.x1 normalizedVisArea.x2 v.tileWidthTwips).map fun j =>
      (toInt32 (j * v.tileWidthTwips), toInt32 (i * v.tileHeightTwips))

/-- The body of the loops: a tile that the invalidation meets, unless it is there already; `none`
where the constructor of the tile throws. -/
def addTile (cache : TileCache) (normalizedViewId : Nat) (part mode : Int)
    (invalidateRect : IntRectangle) (invalidTiles : List TileDesc) (p : Int × Int) :
    Option (List TileDesc) :=
  if invalidateRect.intersects (.ofSize p.1 p.2 v.tileWidthTwips v.tileHeightTwips) then
    match TileDesc.ofInts normalizedViewId part mode v.tileWidthPixel v.tileHeightPixel p.1 p.2
        v.tileWidthTwips v.tileHeightTwips (-1) 0 (-1) 0 0 with
    | none => none
    | some desc =>
      if invalidTiles.any (·.eq desc) then some invalidTiles
      else
        let makeDelta : UInt32 := if (cache.lookupTile desc).isNone then 0 else 1
        some (invalidTiles ++ [{ desc with oldWireId := makeDelta, wireId := 0 }])
  else some invalidTiles

/-- The part that a message is about. -/
def partOf (i : Invalidated) : Int := if i.part = -1 then v.clientSelectedPart else i.part

/-- `invalidTiles`, as the loops leave it. -/
def invalidTiles (cache : TileCache) (normalizedViewId : Nat) (message : Bytes) :
    Option (List TileDesc) :=
  if !v.clientVisibleArea.hasSurface || v.tileWidthPixel == 0 || v.tileHeightPixel == 0 ||
      v.tileWidthTwips == 0 || v.tileHeightTwips == 0 ||
      (v.clientSelectedPart == -1 && !v.isTextDocument) then some []
  else if v.isCloseFrame then some []
  else
    let i := parseInvalidateMsg message
    let paneRects := ((panes.filter v.isSplitPane).map v.getNormalizedVisiblePaneArea).filter
      (·.intersects i.area)
    if paneRects.isEmpty then some []
    else
      let part := v.partOf i
      if (part = v.clientSelectedPart ∧ i.mode = v.clientSelectedMode) ∨ v.isTextDocument then
        (paneRects.flatMap v.positions).foldlM
          (v.addTile cache normalizedViewId part i.mode i.area) []
      else some []

/-- What is handed to `handleTileCombinedRequest`, if anything; `none` where a constructor throws. -/
def tileCombined (cache : TileCache) (normalizedViewId : Nat) (message : Bytes) :
    Option (Option TileCombined) :=
  match v.invalidTiles cache normalizedViewId message with
  | none => none
  | some [] => some none
  | some (t :: ts) =>
    (TileCombined.create t (t :: ts)).map fun c => some (setNormalizedViewId c normalizedViewId)

end ClientView

/-- `ClientSession::handleTileInvalidation`. -/
def Broker.handleTileInvalidation (b : Broker) (id : Nat) (v : ClientView) (message : Bytes)
    (now budget : Nat) : Broker :=
  let normalizedViewId := (b.sessions id).canonicalViewId
  let b := { b with tileCache := invalidateTiles b.tileCache message normalizedViewId }
  match v.tileCombined b.tileCache normalizedViewId message with
  | some (some tileCombined) => b.handleTileCombinedRequest id tileCombined false now budget
  | _ => b

/-! ## What is in view -/

namespace ClientView

variable (v : ClientView)

/-- Where a pane is. The free part goes on behind the frozen one. -/
def paneArea : SplitPaneName → IntRectangle
  | .topLeft => ⟨0, 0, v.splitX, v.splitY⟩
  | .topRight => ⟨max v.clientVisibleArea.x1 0 + v.splitX, 0, v.clientVisibleArea.x2, v.splitY⟩
  | .bottomLeft => ⟨0, max v.clientVisibleArea.y1 0 + v.splitY, v.splitX, v.clientVisibleArea.y2⟩
  | .bottomRight => ⟨max v.clientVisibleArea.x1 0 + v.splitX,
      max v.clientVisibleArea.y1 0 + v.splitY, v.clientVisibleArea.x2, v.clientVisibleArea.y2⟩

/-- The places on a tile of the grid. Tiles do not overlap: one that starts where this one ends has
the places there. -/
def tile (column row : Nat) : Set (Int × Int) :=
  {p | (column * v.tileWidthTwips ≤ p.1 ∧ p.1 < (column + 1) * v.tileWidthTwips) ∧
    row * v.tileHeightTwips ≤ p.2 ∧ p.2 < (row + 1) * v.tileHeightTwips}

/-- A request for the tile that starts at a place. -/
structure AsksFor (normalizedViewId : Nat) (part mode : Int) (p : Int × Int) (t : TileDesc) :
    Prop where
  normalizedViewId : t.normalizedViewId = normalizedViewId
  part : (t.part : Int) = part
  mode : (t.mode : Int) = mode
  width : (t.width : Int) = v.tileWidthPixel
  height : (t.height : Int) = v.tileHeightPixel
  tilePosX : (t.tilePosX : Int) = p.1
  tilePosY : (t.tilePosY : Int) = p.2
  tileWidth : (t.tileWidth : Int) = v.tileWidthTwips
  tileHeight : (t.tileHeight : Int) = v.tileHeightTwips

/-- Every tile that is on one of the panes and on the changed area is asked for, and none twice. -/
structure Covers (normalizedViewId : Nat) (i : Invalidated) (Pane : SplitPaneName → Prop)
    (asked : List TileDesc) : Prop where
  every : ∀ pane, Pane pane → ∀ column row,
    (v.tile column row ∩ (v.paneArea pane).points).Nonempty →
    (v.tile column row ∩ i.area.points).Nonempty →
    ∃ t ∈ asked, v.AsksFor normalizedViewId (v.partOf i) i.mode
      (column * v.tileWidthTwips, row * v.tileHeightTwips) t
  once : asked.Pairwise fun t u => ¬ t.eq u

/-- The request is made, and it covers the panes. -/
def AsksAgain (cache : TileCache) (normalizedViewId : Nat) (message : Bytes)
    (Pane : SplitPaneName → Prop) : Prop :=
  ∃ c, v.tileCombined cache normalizedViewId message = some c ∧
    v.Covers normalizedViewId (parseInvalidateMsg message) Pane (c.elim [] TileCombined.tiles)

/-- One direction of a view: the frozen part is no less than nothing, and one tile beyond the last
ends before the largest `int`. -/
structure AxisFits (first last split size : Int) : Prop where
  size_pos : 0 < size
  split_nonneg : 0 ≤ split
  isInt_last : -2 ^ 31 ≤ last
  start : max first 0 + split < 2 ^ 31
  frozen : split + 2 * size ≤ 2 ^ 31
  free : last + 2 * size ≤ 2 ^ 31

/-- The view of a client that has told its sizes. -/
structure Fits : Prop where
  x : AxisFits v.clientVisibleArea.x1 v.clientVisibleArea.x2 v.splitX v.tileWidthTwips
  y : AxisFits v.clientVisibleArea.y1 v.clientVisibleArea.y2 v.splitY v.tileHeightTwips
  tileWidthPixel : 0 < v.tileWidthPixel
  tileHeightPixel : 0 < v.tileHeightPixel
  hasSurface : v.clientVisibleArea.hasSurface = true

/-- The message is for what the client looks at. -/
structure Concerns (i : Invalidated) : Prop where
  part : v.partOf i = v.clientSelectedPart
  mode : i.mode = v.clientSelectedMode
  part_nonneg : 0 ≤ v.clientSelectedPart
  mode_nonneg : 0 ≤ v.clientSelectedMode

/-! ## One direction -/

section Axis

variable {first last split size : Int}

/-- The free part ends where the visible area does, also where its start wraps around. -/
theorem toInt32_freeEnd (h : IsInt32 last) :
    toInt32 (toInt32 (first + split) + toInt32 (toInt32 (last - first) - split)) = last := by
  have hsum : first + split + (last - first - split) = last := by omega
  unfold toInt32
  rw [Int.bmod_sub_bmod, Int.bmod_add_bmod, Int.add_bmod_bmod, hsum]
  exact toInt32_eq h

theorem AxisFits.isInt32 (h : AxisFits first last split size) :
    IsInt32 last ∧ IsInt32 split ∧ IsInt32 (max first 0 + split) := by
  obtain ⟨hsize, hsplit, hlast, hstart, hfrozen, hfree⟩ := h
  exact ⟨⟨hlast, by omega⟩, ⟨by omega, by omega⟩, ⟨by omega, hstart⟩⟩

theorem mem_indices {j : Int} :
    j ∈ indices first last size ↔ first.tdiv size ≤ j ∧ j ≤ ceilDiv last size := by
  simp only [indices, List.mem_map, List.mem_range]
  constructor
  · rintro ⟨k, hk, rfl⟩
    omega
  · rintro ⟨hle, hge⟩
    exact ⟨(j - first.tdiv size).toNat, by omega, by omega⟩

theorem ceilDiv_eq (hsize : 0 < size) : ceilDiv last size = -(-last / size) := by
  rw [ceilDiv, Int.fdiv_eq_ediv_of_nonneg _ (le_of_lt hsize)]

/-- A tile that is on the pane is reached by the loop. -/
theorem mem_indices_of_on {column : Nat} {p : Int} (hsize : 0 < size) (hfirst : 0 ≤ first)
    (htile : column * size ≤ p ∧ p < (column + 1) * size) (hpane : first ≤ p ∧ p ≤ last) :
    (column : Int) ∈ indices first last size := by
  obtain ⟨hge, hlt⟩ := htile
  obtain ⟨hstart, hend⟩ := hpane
  rw [mem_indices, ceilDiv_eq hsize, Int.tdiv_eq_ediv_of_nonneg hfirst]
  constructor
  · have hdiv : first / size < column + 1 :=
      Int.ediv_lt_of_lt_mul hsize (lt_of_le_of_lt hstart hlt)
    omega
  · have hdiv : -last / size < -column + 1 := by
      apply Int.ediv_lt_of_lt_mul hsize
      have hmul : (-(column : Int) + 1) * size = -(column * size) + size := by ring
      omega
    omega

/-- And the loop goes no further than one tile beyond the pane. -/
theorem bounds_of_mem_indices {j : Int} (hsize : 0 < size) (hfirst : 0 ≤ first)
    (h : j ∈ indices first last size) : 0 ≤ j * size ∧ j * size < last + size := by
  rw [mem_indices, ceilDiv_eq hsize, Int.tdiv_eq_ediv_of_nonneg hfirst] at h
  obtain ⟨hge, hle⟩ := h
  have hzero : 0 ≤ first / size := Int.ediv_nonneg hfirst (le_of_lt hsize)
  refine ⟨mul_nonneg (by omega) (le_of_lt hsize), ?_⟩
  have hmul : j * size ≤ -(-last / size) * size :=
    mul_le_mul_of_nonneg_right hle (le_of_lt hsize)
  have hmod := Int.mul_ediv_add_emod (-last) size
  have hlt := Int.emod_lt_of_pos (-last) hsize
  have hcomm : -(-last / size) * size = -(size * (-last / size)) := by ring
  omega

end Axis

/-! ## The panes -/

section View

variable {v}

theorem getNormalizedVisiblePaneArea_eq (h : v.Fits) {pane : SplitPaneName}
    (hpane : v.isSplitPane pane = true) : v.getNormalizedVisiblePaneArea pane = v.paneArea pane := by
  obtain ⟨hlastX, hsplitX, hstartX⟩ := h.x.isInt32
  obtain ⟨hlastY, hsplitY, hstartY⟩ := h.y.isInt32
  have hendX := @toInt32_freeEnd (max v.clientVisibleArea.x1 0) _ v.splitX hlastX
  have hendY := @toInt32_freeEnd (max v.clientVisibleArea.y1 0) _ v.splitY hlastY
  unfold getNormalizedVisiblePaneArea
  split
  · rename_i hnone
    obtain ⟨hx, hy⟩ := hnone
    cases pane with
    | bottomRight => simp only [paneArea, getNormalizedVisibleArea, hx, hy, add_zero]
    | _ => simp [isSplitPane, hx, hy] at hpane
  · simp only [getNormalizedVisibleArea, IntRectangle.getWidth, IntRectangle.getHeight]
    cases pane with
    | topLeft =>
      have hsplit : v.splitX ≠ 0 ∧ v.splitY ≠ 0 := by simpa [isSplitPane] using hpane
      dsimp only
      rw [if_pos hsplit, paneArea, IntRectangle.ofSize, zero_add, zero_add, toInt32_eq hsplitX,
        toInt32_eq hsplitY]
    | topRight =>
      have hsplit : v.splitY ≠ 0 := by simpa [isSplitPane] using hpane
      dsimp only
      rw [if_pos hsplit, paneArea, IntRectangle.ofSize, hendX, zero_add, toInt32_eq hsplitY,
        toInt32_eq hstartX]
    | bottomLeft =>
      have hsplit : v.splitX ≠ 0 := by simpa [isSplitPane] using hpane
      dsimp only
      rw [if_pos hsplit, paneArea, IntRectangle.ofSize, hendY, zero_add, toInt32_eq hsplitX,
        toInt32_eq hstartY]
    | bottomRight =>
      dsimp only
      rw [paneArea, IntRectangle.ofSize, hendX, hendY, toInt32_eq hstartX, toInt32_eq hstartY]

/-- A pane starts inside the document, and one tile beyond it is not too far. -/
structure InQuadrant (a : IntRectangle) : Prop where
  x1 : 0 ≤ a.x1
  y1 : 0 ≤ a.y1
  x2 : a.x2 + 2 * v.tileWidthTwips ≤ 2 ^ 31
  y2 : a.y2 + 2 * v.tileHeightTwips ≤ 2 ^ 31

theorem inQuadrant_paneArea (h : v.Fits) (pane : SplitPaneName) : v.InQuadrant (v.paneArea pane) := by
  have hx := h.x.split_nonneg
  have hy := h.y.split_nonneg
  have hfreeX : 0 ≤ max v.clientVisibleArea.x1 0 + v.splitX := by omega
  have hfreeY : 0 ≤ max v.clientVisibleArea.y1 0 + v.splitY := by omega
  cases pane with
  | topLeft => exact ⟨le_rfl, le_rfl, h.x.frozen, h.y.frozen⟩
  | topRight => exact ⟨hfreeX, le_rfl, h.x.free, h.y.frozen⟩
  | bottomLeft => exact ⟨le_rfl, hfreeY, h.x.frozen, h.y.free⟩
  | bottomRight => exact ⟨hfreeX, hfreeY, h.x.free, h.y.free⟩

/-- A tile that can be asked for. -/
structure Askable (p : Int × Int) : Prop where
  x : 0 ≤ p.1 ∧ p.1 + v.tileWidthTwips < 2 ^ 31
  y : 0 ≤ p.2 ∧ p.2 + v.tileHeightTwips < 2 ^ 31

theorem askable_of_mem_positions (h : v.Fits) {a : IntRectangle} (ha : v.InQuadrant a)
    {p : Int × Int} (hp : p ∈ v.positions a) : v.Askable p := by
  simp only [positions, List.mem_flatMap, List.mem_map] at hp
  obtain ⟨i, hi, j, hj, rfl⟩ := hp
  have hsizeX := h.x.size_pos
  have hsizeY := h.y.size_pos
  obtain ⟨hx0, hx⟩ := bounds_of_mem_indices hsizeX ha.x1 hj
  obtain ⟨hy0, hy⟩ := bounds_of_mem_indices hsizeY ha.y1 hi
  have hendX := ha.x2
  have hendY := ha.y2
  rw [toInt32_eq ⟨by omega, by omega⟩, toInt32_eq ⟨by omega, by omega⟩]
  exact ⟨⟨hx0, by omega⟩, hy0, by omega⟩

theorem mem_positions_of_on (h : v.Fits) {a : IntRectangle} (ha : v.InQuadrant a) {column row : Nat}
    (hon : (v.tile column row ∩ a.points).Nonempty) :
    ((column * v.tileWidthTwips, row * v.tileHeightTwips) : Int × Int) ∈ v.positions a := by
  obtain ⟨p, ⟨htileX, htileY⟩, hpaneX, hpaneY⟩ := hon
  have hsizeX := h.x.size_pos
  have hsizeY := h.y.size_pos
  have hj := mem_indices_of_on hsizeX ha.x1 htileX hpaneX
  have hi := mem_indices_of_on hsizeY ha.y1 htileY hpaneY
  obtain ⟨hx0, hx⟩ := bounds_of_mem_indices hsizeX ha.x1 hj
  obtain ⟨hy0, hy⟩ := bounds_of_mem_indices hsizeY ha.y1 hi
  have hendX := ha.x2
  have hendY := ha.y2
  simp only [positions, List.mem_flatMap, List.mem_map]
  refine ⟨row, hi, column, hj, ?_⟩
  rw [toInt32_eq ⟨by omega, by omega⟩, toInt32_eq ⟨by omega, by omega⟩]

/-- The test of the loop, for a tile of the grid on the changed area. -/
theorem intersects_of_on {a : IntRectangle} {column row : Nat}
    (hask : v.Askable (column * v.tileWidthTwips, row * v.tileHeightTwips))
    (hsizeX : 0 < v.tileWidthTwips) (hsizeY : 0 < v.tileHeightTwips)
    (hon : (v.tile column row ∩ a.points).Nonempty) :
    a.intersects (.ofSize (column * v.tileWidthTwips) (row * v.tileHeightTwips) v.tileWidthTwips
      v.tileHeightTwips) = true := by
  obtain ⟨⟨hx0, hx⟩, hy0, hy⟩ := hask
  obtain ⟨p, ⟨⟨hx1, hx2⟩, hy1, hy2⟩, hp⟩ := hon
  dsimp only at hx0 hx hy0 hy
  apply (IntRectangle.intersects_iff _ _).mpr
  refine ⟨p, hp, ⟨hx1, ?_⟩, hy1, ?_⟩
  · rw [IntRectangle.ofSize, toInt32_eq ⟨by omega, hx⟩]
    rw [add_mul, one_mul] at hx2
    exact le_of_lt hx2
  · rw [IntRectangle.ofSize, toInt32_eq ⟨by omega, hy⟩]
    rw [add_mul, one_mul] at hy2
    exact le_of_lt hy2

/-! ## The loops -/

section Loop

variable {normalizedViewId : Nat} {part mode : Int}
  {invalidateRect : IntRectangle}

/-- The tile that starts at a place meets the changed area, as the loop asks it. -/
def Hit (v : ClientView) (invalidateRect : IntRectangle) (p : Int × Int) : Prop :=
  invalidateRect.intersects (.ofSize p.1 p.2 v.tileWidthTwips v.tileHeightTwips) = true

/-- What the loops have when they have been at some places. -/
structure Collected (v : ClientView) (normalizedViewId : Nat) (part mode : Int)
    (invalidateRect : IntRectangle) (ps : List (Int × Int)) (tiles : List TileDesc) : Prop where
  asks : ∀ t ∈ tiles, t.id = -1 ∧ t.ver = -1 ∧
    ∃ p, v.Askable p ∧ v.AsksFor normalizedViewId part mode p t
  every : ∀ p ∈ ps, v.Hit invalidateRect p →
    ∃ t ∈ tiles, v.AsksFor normalizedViewId part mode p t
  once : tiles.Pairwise fun t u => ¬ t.eq u

theorem collected_nil : v.Collected normalizedViewId part mode invalidateRect [] [] where
  asks _ ht := absurd ht List.not_mem_nil
  every _ hp := absurd hp List.not_mem_nil
  once := .nil

/-- The constructor takes an askable tile. -/
theorem exists_ofInts (normalizedViewId : Nat) (h : v.Fits) (hpart : 0 ≤ part) (hmode : 0 ≤ mode) {p : Int × Int}
    (hp : v.Askable p) : ∃ desc, TileDesc.ofInts normalizedViewId part mode v.tileWidthPixel
      v.tileHeightPixel p.1 p.2 v.tileWidthTwips v.tileHeightTwips (-1) 0 (-1) 0 0 = some desc ∧
      desc.id = -1 ∧ desc.ver = -1 ∧ v.AsksFor normalizedViewId part mode p desc := by
  have hargs : 0 ≤ (normalizedViewId : Int) ∧ 0 ≤ part ∧ 0 ≤ mode ∧ 0 < v.tileWidthPixel ∧
      0 < v.tileHeightPixel ∧ 0 ≤ p.1 ∧ 0 ≤ p.2 ∧ 0 < v.tileWidthTwips ∧ 0 < v.tileHeightTwips ∧
      (0 : Int) ≤ 0 :=
    ⟨Int.natCast_nonneg _, hpart, hmode, h.tileWidthPixel, h.tileHeightPixel, hp.x.1, hp.y.1,
      h.x.size_pos, h.y.size_pos, le_rfl⟩
  have hdesc : ∃ desc, TileDesc.ofInts normalizedViewId part mode v.tileWidthPixel
      v.tileHeightPixel p.1 p.2 v.tileWidthTwips v.tileHeightTwips (-1) 0 (-1) 0 0 = some desc :=
    ⟨_, dif_pos hargs⟩
  obtain ⟨desc, hdesc⟩ := hdesc
  obtain ⟨hview, hpart, hmode, hwidth, hheight, hx, hy, htileWidth, htileHeight, hver, -, hid, -⟩ :=
    TileDesc.ofInts_eq_some hdesc
  exact ⟨desc, hdesc, hid, hver, Int.ofNat_inj.mp hview, hpart, hmode, hwidth, hheight, hx, hy,
    htileWidth, htileHeight⟩

/-- A request that is there already asks for the tile. -/
theorem AsksFor.of_eq {p : Int × Int} {t u : TileDesc}
    (h : v.AsksFor normalizedViewId part mode p u) (heq : t.eq u) :
    v.AsksFor normalizedViewId part mode p t := by
  obtain ⟨hkey, -⟩ := TileDesc.eq_iff.mp heq
  simp only [TileDesc.cacheKey, CacheKey.mk.injEq] at hkey
  obtain ⟨hpart, hwidth, hheight, hx, hy, htileWidth, htileHeight, hview, hmode⟩ := hkey
  exact ⟨by rw [hview, h.normalizedViewId], by rw [hpart, h.part], by rw [hmode, h.mode],
    by rw [hwidth, h.width], by rw [hheight, h.height], by rw [hx, h.tilePosX],
    by rw [hy, h.tilePosY], by rw [htileWidth, h.tileWidth], by rw [htileHeight, h.tileHeight]⟩

/-- **One step of the loop.** -/
theorem Collected.addTile (cache : TileCache) {ps : List (Int × Int)} {tiles : List TileDesc}
    (hc : v.Collected normalizedViewId part mode invalidateRect ps tiles) (h : v.Fits)
    (hpart : 0 ≤ part) (hmode : 0 ≤ mode) {p : Int × Int} (hp : v.Askable p) :
    ∃ tiles', v.addTile cache normalizedViewId part mode invalidateRect tiles p = some tiles' ∧
      v.Collected normalizedViewId part mode invalidateRect (ps ++ [p]) tiles' := by
  -- whoever keeps the tiles keeps what was asked for
  have hkeep : ∀ tiles' : List TileDesc, (∀ t ∈ tiles, t ∈ tiles') →
      (v.Hit invalidateRect p → ∃ t ∈ tiles', v.AsksFor normalizedViewId part mode p t) →
      ∀ q ∈ ps ++ [p], v.Hit invalidateRect q →
        ∃ t ∈ tiles', v.AsksFor normalizedViewId part mode q t := by
    intro tiles' hsub hlast q hq hhit
    rcases List.mem_append.mp hq with hq | hq
    · obtain ⟨t, ht, hasks⟩ := hc.every q hq hhit
      exact ⟨t, hsub t ht, hasks⟩
    · obtain rfl := List.mem_singleton.mp hq
      exact hlast hhit
  unfold ClientView.addTile
  split
  · obtain ⟨desc, hdesc, hid, hver, hasks⟩ := exists_ofInts normalizedViewId h hpart hmode hp
    rw [hdesc]
    dsimp only
    split
    · rename_i hany
      obtain ⟨t, ht, heq⟩ := List.any_eq_true.mp hany
      exact ⟨tiles, rfl, hc.asks, hkeep tiles (fun _ ht => ht) fun _ => ⟨t, ht, hasks.of_eq heq⟩,
        hc.once⟩
    · rename_i hnone
      set makeDelta : UInt32 := if (cache.lookupTile desc).isNone then 0 else 1
      have hnew : v.AsksFor normalizedViewId part mode p
          { desc with oldWireId := makeDelta, wireId := 0 } := hasks.of_eq (TileDesc.eq_self desc)
      refine ⟨_, rfl, ?_, ?_, ?_⟩
      · intro t ht
        rcases List.mem_append.mp ht with ht | ht
        · exact hc.asks t ht
        · obtain rfl := List.mem_singleton.mp ht
          exact ⟨hid, hver, p, hp, hnew⟩
      · apply hkeep
        · intro t ht
          exact List.mem_append_left _ ht
        · intro _
          exact ⟨_, List.mem_append_right _ List.mem_cons_self, hnew⟩
      · apply List.pairwise_append.mpr
        refine ⟨hc.once, List.pairwise_singleton _ _, ?_⟩
        intro t ht u hu heq
        obtain rfl := List.mem_singleton.mp hu
        exact hnone (List.any_eq_true.mpr ⟨t, ht, heq⟩)
  · rename_i hmiss
    exact ⟨tiles, rfl, hc.asks, hkeep tiles (fun _ ht => ht) fun hhit => absurd hhit hmiss, hc.once⟩

/-- **The loops.** -/
theorem Collected.foldlM (cache : TileCache) {done ps : List (Int × Int)}
    {tiles : List TileDesc}
    (hc : v.Collected normalizedViewId part mode invalidateRect done tiles) (h : v.Fits)
    (hpart : 0 ≤ part) (hmode : 0 ≤ mode) (hps : ∀ p ∈ ps, v.Askable p) :
    ∃ tiles', ps.foldlM (v.addTile cache normalizedViewId part mode invalidateRect) tiles =
        some tiles' ∧ v.Collected normalizedViewId part mode invalidateRect (done ++ ps) tiles' := by
  induction ps generalizing done tiles with
  | nil =>
    rw [List.append_nil]
    exact ⟨tiles, rfl, hc⟩
  | cons p ps ih =>
    obtain ⟨next, hnext, hcnext⟩ := hc.addTile cache h hpart hmode (hps p List.mem_cons_self)
    obtain ⟨tiles', htiles', hc'⟩ := ih hcnext fun q hq => hps q (List.mem_cons_of_mem p hq)
    rw [List.append_assoc, List.singleton_append] at hc'
    refine ⟨tiles', ?_, hc'⟩
    rw [List.foldlM_cons, hnext]
    exact htiles'

end Loop

/-! ## The request as a whole -/

variable {cache : TileCache} {normalizedViewId : Nat} {message : Bytes}

/-- The panes that the loops go over. -/
def changedPanes (v : ClientView) (i : Invalidated) : List IntRectangle :=
  ((panes.filter v.isSplitPane).map v.getNormalizedVisiblePaneArea).filter (·.intersects i.area)

theorem mem_changedPanes (h : v.Fits) {i : Invalidated} {pane : SplitPaneName}
    (hpane : v.isSplitPane pane = true) (hmeets : ((v.paneArea pane).points ∩ i.area.points).Nonempty) :
    v.paneArea pane ∈ v.changedPanes i := by
  have hmem : pane ∈ panes := by cases pane <;> decide
  refine List.mem_filter.mpr ⟨List.mem_map.mpr ⟨pane, List.mem_filter.mpr ⟨hmem, hpane⟩, ?_⟩, ?_⟩
  · exact getNormalizedVisiblePaneArea_eq h hpane
  · exact (IntRectangle.intersects_iff _ _).mpr hmeets

theorem inQuadrant_of_mem_changedPanes (h : v.Fits) {i : Invalidated} {a : IntRectangle}
    (ha : a ∈ v.changedPanes i) : v.InQuadrant a := by
  obtain ⟨pane, hpane, rfl⟩ := List.mem_map.mp (List.mem_filter.mp ha).1
  rw [getNormalizedVisiblePaneArea_eq h (List.mem_filter.mp hpane).2]
  exact inQuadrant_paneArea h pane

/-- None of the ways out is taken. -/
theorem invalidTiles_eq (h : v.Fits) (hopen : v.isCloseFrame = false)
    (hc : v.Concerns (parseInvalidateMsg message)) :
    v.invalidTiles cache normalizedViewId message =
      ((v.changedPanes (parseInvalidateMsg message)).flatMap v.positions).foldlM
        (v.addTile cache normalizedViewId (v.partOf (parseInvalidateMsg message))
          (parseInvalidateMsg message).mode (parseInvalidateMsg message).area) [] := by
  have hguard : (!v.clientVisibleArea.hasSurface || v.tileWidthPixel == 0 ||
      v.tileHeightPixel == 0 || v.tileWidthTwips == 0 || v.tileHeightTwips == 0 ||
      (v.clientSelectedPart == -1 && !v.isTextDocument)) = false := by
    have hwidth := h.tileWidthPixel
    have hheight := h.tileHeightPixel
    have hx := h.x.size_pos
    have hy := h.y.size_pos
    have hpart := hc.part_nonneg
    simp only [Bool.or_eq_false_iff, Bool.and_eq_false_iff, Bool.not_eq_false', beq_eq_false_iff_ne]
    exact ⟨⟨⟨⟨⟨h.hasSurface, by omega⟩, by omega⟩, by omega⟩, by omega⟩, .inl (by omega)⟩
  unfold ClientView.invalidTiles
  rw [hguard, if_neg Bool.false_ne_true, hopen, if_neg Bool.false_ne_true]
  dsimp only
  rw [← changedPanes]
  split
  · rename_i hnone
    rw [List.isEmpty_iff.mp hnone]
    rfl
  · rw [if_pos (.inl ⟨hc.part, hc.mode⟩)]

/-- What the message to the kit makes of the tiles: the same requests. -/
theorem tiles_setNormalizedViewId {c : TileCombined} {tiles : List TileDesc}
    (htiles : c.tiles = tiles.map TileCombined.strip) {i : Invalidated}
    {ps : List (Int × Int)}
    (hc : v.Collected normalizedViewId (v.partOf i) i.mode i.area ps tiles) :
    v.Collected normalizedViewId (v.partOf i) i.mode i.area ps
      (setNormalizedViewId c normalizedViewId).tiles := by
  have hsame : (setNormalizedViewId c normalizedViewId).tiles = tiles.map fun t =>
      { TileCombined.strip t with normalizedViewId := normalizedViewId } := by
    show c.tiles.map _ = _
    rw [htiles, List.map_map]
    rfl
  have hasks : ∀ t ∈ tiles, ∀ p, v.AsksFor normalizedViewId (v.partOf i) i.mode p t →
      v.AsksFor normalizedViewId (v.partOf i) i.mode p
        { TileCombined.strip t with normalizedViewId := normalizedViewId } :=
    fun t _ p h => ⟨rfl, h.part, h.mode, h.width, h.height, h.tilePosX, h.tilePosY, h.tileWidth,
      h.tileHeight⟩
  rw [hsame]
  refine ⟨?_, ?_, ?_⟩
  · intro u hu
    obtain ⟨t, ht, rfl⟩ := List.mem_map.mp hu
    obtain ⟨-, hver, p, hp, hask⟩ := hc.asks t ht
    exact ⟨rfl, hver, p, hp, hasks t ht p hask⟩
  · intro p hp hhit
    obtain ⟨t, ht, hask⟩ := hc.every p hp hhit
    exact ⟨_, List.mem_map_of_mem ht, hasks t ht p hask⟩
  · rw [List.pairwise_map]
    apply hc.once.imp_of_mem
    intro t u ht hu hne heq
    obtain ⟨hidt, -, p, -, haskt⟩ := hc.asks t ht
    obtain ⟨hidu, -, q, -, hasku⟩ := hc.asks u hu
    obtain ⟨hkey, -⟩ := TileDesc.eq_iff.mp heq
    apply hne
    apply TileDesc.eq_iff.mpr
    refine ⟨?_, by rw [hidt, hidu]⟩
    simp only [TileDesc.cacheKey, TileCombined.strip, CacheKey.mk.injEq] at hkey ⊢
    obtain ⟨hpart, hwidth, hheight, hx, hy, htileWidth, htileHeight, -, hmode⟩ := hkey
    exact ⟨hpart, hwidth, hheight, hx, hy, htileWidth, htileHeight,
      by rw [haskt.normalizedViewId, hasku.normalizedViewId], hmode⟩

/-- Two requests of the view differ in nothing but the place. -/
theorem AsksFor.combineParams_eq {part mode : Int} {p q : Int × Int} {t u : TileDesc}
    (ht : v.AsksFor normalizedViewId part mode p t) (hu : v.AsksFor normalizedViewId part mode q u) :
    t.combineParams = u.combineParams := by
  have hpart : t.part = u.part := Int.ofNat_inj.mp (ht.part.trans hu.part.symm)
  have hmode : t.mode = u.mode := Int.ofNat_inj.mp (ht.mode.trans hu.mode.symm)
  have hwidth : t.width = u.width := Int.ofNat_inj.mp (ht.width.trans hu.width.symm)
  have hheight : t.height = u.height := Int.ofNat_inj.mp (ht.height.trans hu.height.symm)
  have htileWidth : t.tileWidth = u.tileWidth :=
    Int.ofNat_inj.mp (ht.tileWidth.trans hu.tileWidth.symm)
  have htileHeight : t.tileHeight = u.tileHeight :=
    Int.ofNat_inj.mp (ht.tileHeight.trans hu.tileHeight.symm)
  rw [TileDesc.combineParams, TileDesc.combineParams, hpart, hmode, hwidth, hheight, htileWidth,
    htileHeight, ht.normalizedViewId, hu.normalizedViewId]

/-- The tiles of the loops can be combined. -/
theorem exists_create (h : v.Fits) {part mode : Int} {area : IntRectangle}
    {ps : List (Int × Int)} {first : TileDesc} {rest : List TileDesc}
    (hc : v.Collected normalizedViewId part mode area ps (first :: rest)) :
    ∃ c, TileCombined.create first (first :: rest) = some c ∧
      c.tiles = (first :: rest).map TileCombined.strip := by
  obtain ⟨-, -, q, -, hfirst⟩ := hc.asks first List.mem_cons_self
  have hparams : ∀ t ∈ first :: rest, t.combineParams = first.combineParams := by
    intro t ht
    obtain ⟨-, -, p, -, hask⟩ := hc.asks t ht
    exact hask.combineParams_eq hfirst
  have hint : ∀ t ∈ first :: rest, IsInt32 t.tilePosX ∧ IsInt32 t.tilePosY ∧ IsInt32 t.ver := by
    intro t ht
    obtain ⟨-, hver, p, hp, hask⟩ := hc.asks t ht
    have hsizeX := h.x.size_pos
    have hsizeY := h.y.size_pos
    obtain ⟨hx0, hx⟩ := hp.x
    obtain ⟨hy0, hy⟩ := hp.y
    rw [hask.tilePosX, hask.tilePosY, hver]
    exact ⟨⟨by omega, by omega⟩, ⟨by omega, by omega⟩, by decide⟩
  obtain ⟨c, hcreate, htiles, -⟩ := TileCombined.create_eq hparams hint
  exact ⟨c, hcreate, htiles⟩

/-- Tiles that are asked for once start at different places. -/
theorem Collected.nodup {part mode : Int} {area : IntRectangle} {ps : List (Int × Int)}
    {tiles : List TileDesc} (hc : v.Collected normalizedViewId part mode area ps tiles) :
    (tiles.map fun t => (t.tilePosX, t.tilePosY)).Nodup := by
  rw [List.Nodup, List.pairwise_map]
  apply hc.once.imp_of_mem
  intro t u ht hu hne hplace
  obtain ⟨hidt, -, p, -, haskt⟩ := hc.asks t ht
  obtain ⟨hidu, -, q, -, hasku⟩ := hc.asks u hu
  obtain ⟨hx, hy⟩ := Prod.mk.injEq _ _ _ _ ▸ hplace
  apply hne
  apply TileDesc.eq_iff.mpr
  exact ⟨(TileDesc.cacheKey_eq_iff t u).mpr ⟨haskt.combineParams_eq hasku, hx, hy⟩,
    hidt.trans hidu.symm⟩

/-- What the loops collect covers the panes they go over. -/
theorem Collected.covers (h : v.Fits) {i : Invalidated} {tiles : List TileDesc}
    (hc : v.Collected normalizedViewId (v.partOf i) i.mode i.area
      ((v.changedPanes i).flatMap v.positions) tiles) :
    v.Covers normalizedViewId i (fun pane => v.isSplitPane pane = true ∧
      ((v.paneArea pane).points ∩ i.area.points).Nonempty) tiles := by
  refine ⟨?_, hc.once⟩
  rintro pane ⟨hpane, hmeets⟩ column row hin hchanged
  have hquadrant := inQuadrant_paneArea h pane
  have hpos := mem_positions_of_on h hquadrant hin
  apply hc.every
  · exact List.mem_flatMap.mpr ⟨_, mem_changedPanes h hpane hmeets, hpos⟩
  · exact intersects_of_on (askable_of_mem_positions h hquadrant hpos) h.x.size_pos h.y.size_pos
      hchanged

/-- **The request**, with what the loops have collected in it. -/
theorem tileCombined_spec (cache : TileCache) (normalizedViewId : Nat) (h : v.Fits)
    (hopen : v.isCloseFrame = false) (hc : v.Concerns (parseInvalidateMsg message)) :
    let i := parseInvalidateMsg message
    ∃ c, v.tileCombined cache normalizedViewId message = some c ∧
      v.Collected normalizedViewId (v.partOf i) i.mode i.area
        ((v.changedPanes i).flatMap v.positions) (c.elim [] TileCombined.tiles) := by
  intro i
  have hpart : 0 ≤ v.partOf i := by
    rw [hc.part]
    exact hc.part_nonneg
  have hmode : 0 ≤ i.mode := by
    rw [hc.mode]
    exact hc.mode_nonneg
  have hps : ∀ p ∈ (v.changedPanes i).flatMap v.positions, v.Askable p := by
    intro p hp
    obtain ⟨a, ha, hp⟩ := List.mem_flatMap.mp hp
    exact askable_of_mem_positions h (inQuadrant_of_mem_changedPanes h ha) hp
  have hstart : v.Collected normalizedViewId (v.partOf i) i.mode i.area [] [] := collected_nil
  obtain ⟨tiles, htiles, hcollected⟩ := hstart.foldlM cache h hpart hmode hps
  rw [List.nil_append] at hcollected
  rw [← invalidTiles_eq h hopen hc] at htiles
  unfold tileCombined
  rw [htiles]
  cases tiles with
  | nil => exact ⟨none, rfl, hcollected⟩
  | cons first rest =>
    obtain ⟨c, hcreate, hstrip⟩ := exists_create h hcollected
    refine ⟨some (setNormalizedViewId c normalizedViewId), ?_, ?_⟩
    · dsimp only
      rw [hcreate]
      rfl
    · exact tiles_setNormalizedViewId hstrip hcollected

/-- **After an invalidation the server asks again for what the client sees**, of the panes that the
changed area meets, each tile once. -/
theorem asksAgain_changedPanes (v : ClientView) (cache : TileCache) (normalizedViewId : Nat)
    (message : Bytes) (h : v.Fits) (hopen : v.isCloseFrame = false)
    (hc : v.Concerns (parseInvalidateMsg message)) :
    v.AsksAgain cache normalizedViewId message fun pane => v.isSplitPane pane = true ∧
      ((v.paneArea pane).points ∩ (parseInvalidateMsg message).area.points).Nonempty := by
  obtain ⟨c, hrequest, hcollected⟩ := tileCombined_spec cache normalizedViewId h hopen hc
  exact ⟨c, hrequest, hcollected.covers h⟩

end View

end ClientView

/-- The request is one that the broker's batches are about: without duplicates and of the view. -/
theorem handed_tileCombined {b : Broker} {id : Nat} {v : ClientView} {message : Bytes}
    (now budget : Nat) (cache : TileCache) (h : v.Fits) (hopen : v.isCloseFrame = false)
    (hc : v.Concerns (parseInvalidateMsg message)) {c : TileCombined}
    (hrequest : v.tileCombined cache (b.sessions id).canonicalViewId message = some (some c)) :
    b.Handed (.combined id c false now budget) := by
  obtain ⟨c', hrequest', hcollected⟩ :=
    ClientView.tileCombined_spec cache (b.sessions id).canonicalViewId h hopen hc
  obtain rfl : c' = some c := Option.some.inj (hrequest'.symm.trans hrequest)
  dsimp only [Option.elim] at hcollected
  constructor
  · rw [TileCombined.hasDuplicates, decide_eq_true hcollected.nodup]
    rfl
  · intro t ht
    obtain ⟨-, -, p, -, hask⟩ := hcollected.asks t ht
    exact hask.normalizedViewId

/-! ## Two messages -/

/-- A client that has scrolled to the middle of the first tile. -/
def scrolledView : ClientView where
  clientVisibleArea := .ofSize 2000 0 10000 5000
  splitX := 0
  splitY := 0
  clientSelectedPart := 0
  clientSelectedMode := 0
  tileWidthPixel := 256
  tileHeightPixel := 256
  tileWidthTwips := 3840
  tileHeightTwips := 3840
  isTextDocument := false
  isCloseFrame := false

theorem fits_scrolledView : scrolledView.Fits where
  x := ⟨by decide, by decide, by decide, by decide, by decide, by decide⟩
  y := ⟨by decide, by decide, by decide, by decide, by decide, by decide⟩
  tileWidthPixel := by decide
  tileHeightPixel := by decide
  hasSurface := by decide

/-- The same client, with frozen rows and columns. -/
def frozenView : ClientView :=
  { scrolledView with
    splitX := 1000
    splitY := 500 }

theorem fits_frozenView : frozenView.Fits where
  x := ⟨by decide, by decide, by decide, by decide, by decide, by decide⟩
  y := ⟨by decide, by decide, by decide, by decide, by decide, by decide⟩
  tileWidthPixel := by decide
  tileHeightPixel := by decide
  hasSurface := by decide

/-- What has changed is on four tiles, and on all the panes. -/
def acrossTiles : Bytes := ascii "invalidatetiles: part=0 x=500 y=400 width=5000 height=4000 wid=7"

theorem parse_acrossTiles : parseInvalidateMsg acrossTiles = ⟨.ofSize 500 400 5000 4000, 0, 0⟩ := by
  rw [acrossTiles, Http.ascii_ofList]
  decide +kernel

theorem concerns_acrossTiles : frozenView.Concerns (parseInvalidateMsg acrossTiles) := by
  rw [parse_acrossTiles]
  exact ⟨by decide, by decide, by decide, by decide⟩

theorem asksAgain_acrossTiles : frozenView.AsksAgain .empty 1000 acrossTiles fun pane =>
    frozenView.isSplitPane pane = true ∧ ((frozenView.paneArea pane).points ∩
      (parseInvalidateMsg acrossTiles).area.points).Nonempty :=
  ClientView.asksAgain_changedPanes frozenView .empty 1000 acrossTiles fits_frozenView rfl
    concerns_acrossTiles

/-- What has changed is on the first tile, where the client does not look. -/
def leftOfView : Bytes := ascii "invalidatetiles: part=0 x=0 y=0 width=100 height=100 wid=7"

theorem parse_leftOfView : parseInvalidateMsg leftOfView = ⟨.ofSize 0 0 100 100, 0, 0⟩ := by
  rw [leftOfView, Http.ascii_ofList]
  decide +kernel

theorem concerns_leftOfView : scrolledView.Concerns (parseInvalidateMsg leftOfView) := by
  rw [parse_leftOfView]
  exact ⟨by decide, by decide, by decide, by decide⟩

theorem tileCombined_leftOfView :
    scrolledView.tileCombined .empty 1000 leftOfView = some none := by
  have hnone : scrolledView.changedPanes ⟨.ofSize 0 0 100 100, 0, 0⟩ = [] := by decide +kernel
  unfold ClientView.tileCombined
  rw [ClientView.invalidTiles_eq fits_scrolledView rfl concerns_leftOfView, parse_leftOfView, hnone]
  rfl

/-- The first tile is in view and has changed, and nothing is asked for. -/
theorem not_asksAgain : ¬ scrolledView.AsksAgain .empty 1000 leftOfView fun pane =>
    scrolledView.isSplitPane pane = true := by
  rintro ⟨c, hc, hcovers⟩
  rw [tileCombined_leftOfView] at hc
  obtain rfl : c = none := Option.some.inj hc.symm
  obtain ⟨t, ht, -⟩ := hcovers.every .bottomRight rfl 0 0
    ⟨(2000, 0), ⟨by decide, by decide⟩, ⟨by decide, by decide⟩⟩
    (by
      rw [parse_leftOfView]
      exact ⟨(0, 0), ⟨by decide, by decide⟩, ⟨by decide, by decide⟩⟩)
  exact absurd ht List.not_mem_nil

end Oxool.Wsd.Tiles
