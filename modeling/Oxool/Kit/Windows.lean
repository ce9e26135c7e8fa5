import Mathlib.Data.Rat.Floor
import Mathlib.Tactic.FieldSimp
import Mathlib.Tactic.Linarith
import Oxool.Kit.TileBatches

/-!
# Where the tiles of a batch are in its pixmap (`common/RenderTiles.hpp`)

A batch that leaves the tile queue is painted at once: `doRender` takes the rectangle around its
tiles, makes a pixmap of as many tiles as the rectangle is long, and cuts each tile out at the place
its distance from the edge of the rectangle gives. All of this is done in `int` and `size_t`, and the
same in both directions. The tiles of a batch share their sizes; of their places the queue has only
checked that the rows touch and that the columns are not far apart.
-/

set_option autoImplicit false

namespace Oxool.Kit

open Oxool.Http (Bytes ascii)
open Oxool.Protocol

/-! ## The rectangle around a batch -/

/-- `Util::Rectangle`, in `int`s. -/
structure IntRectangle where
  x1 : Int
  y1 : Int
  x2 : Int
  y2 : Int
deriving DecidableEq

namespace IntRectangle

def empty : IntRectangle := ⟨intMax, intMax, -2 ^ 31, -2 ^ 31⟩

def ofSize (x y width height : Int) : IntRectangle := ⟨x, y, toInt32 (x + width), toInt32 (y + height)⟩

def extend (a rectangle : IntRectangle) : IntRectangle :=
  { x1 := if rectangle.x1 < a.x1 then rectangle.x1 else a.x1
    y1 := if rectangle.y1 < a.y1 then rectangle.y1 else a.y1
    x2 := if a.x2 < rectangle.x2 then rectangle.x2 else a.x2
    y2 := if a.y2 < rectangle.y2 then rectangle.y2 else a.y2 }

def getWidth (a : IntRectangle) : Int := toInt32 (a.x2 - a.x1)

def getHeight (a : IntRectangle) : Int := toInt32 (a.y2 - a.y1)

end IntRectangle

/-- The rectangle of a tile, with the sizes of the batch. -/
def tileRectangle (c : TileCombined) (t : TileDesc) : IntRectangle :=
  .ofSize t.tilePosX t.tilePosY c.params.tileWidth c.params.tileHeight

def batchArea (c : TileCombined) : IntRectangle :=
  match c.tiles with
  | [] => .empty
  | t :: ts => (ts.map (tileRectangle c)).foldl .extend (tileRectangle c t)

/-! ## One direction of the pixmap -/

/-- An `int` as a `size_t`. -/
def toSizeT (n : Int) : Nat := (n % 2 ^ 64).toNat

/-- One direction of a rendering: where the area starts and how long it is, and the size of a tile in
twips and in pixels. -/
structure Axis where
  start : Int
  length : Int
  tileSize : Nat
  pixelSize : Nat
deriving DecidableEq

namespace Axis

variable (a : Axis)

/-- `pixmapWidth`, `pixmapHeight`. -/
def pixmapSize : Nat := toSizeT (a.length.tdiv a.tileSize) * a.pixelSize % 2 ^ 64

/-- The size of the pixmap as `paintPartTile` gets it. -/
def canvasSize : Int := toInt32 a.pixmapSize

/-- `positionX`, `positionY`. -/
def position (pos : Int) : Nat := toSizeT ((toInt32 (pos - a.start)).tdiv a.tileSize)

/-- `offsetX`, `offsetY`. -/
def offset (pos : Int) : Int := toInt32 ((a.position pos * a.pixelSize % 2 ^ 64 : Nat) : Int)

/-- The place of the document that is at the edge of a pixel: the area was painted over the canvas. -/
def documentAt (pixel : Int) : ℚ := a.start + pixel * a.length / a.canvasSize

end Axis

def axisX (c : TileCombined) : Axis :=
  ⟨(batchArea c).x1, (batchArea c).getWidth, c.params.tileWidth, c.params.width⟩

def axisY (c : TileCombined) : Axis :=
  ⟨(batchArea c).y1, (batchArea c).getHeight, c.params.tileHeight, c.params.height⟩

/-- The pixels of the buffer; `calloc` gives none where the bytes are too many for a `size_t`. -/
def bufferPixels (c : TileCombined) : Option Nat :=
  let count := (axisX c).pixmapSize * (axisY c).pixmapSize % 2 ^ 64
  if count * 4 < 2 ^ 64 then some count else none

/-- A batch as it leaves the queue. -/
structure Batch where
  queue : TileQueue
  message : Bytes
  combined : TileCombined
  popped : queue.pop.1 = some message
  read : readBatch message = some combined

/-! ## What is asked of the windows -/

/-- The window of a tile is inside the pixmap and shows the tile. -/
structure Axis.Right (a : Axis) (pos : Int) : Prop where
  nonneg : 0 ≤ a.offset pos
  inside : a.offset pos + a.pixelSize ≤ a.pixmapSize
  first : a.documentAt (a.offset pos) = pos
  last : a.documentAt (a.offset pos + a.pixelSize) = pos + a.tileSize

/-- Two windows have no pixel in common. -/
def Axis.Apart (a : Axis) (pos pos' : Int) : Prop :=
  a.offset pos + a.pixelSize ≤ a.offset pos' ∨ a.offset pos' + a.pixelSize ≤ a.offset pos

instance (a : Axis) (pos pos' : Int) : Decidable (a.Apart pos pos') :=
  inferInstanceAs (Decidable (_ ∨ _))

structure WindowsRight (c : TileCombined) : Prop where
  allocated : bufferPixels c = some ((axisX c).pixmapSize * (axisY c).pixmapSize)
  horizontal : ∀ t ∈ c.tiles, (axisX c).Right t.tilePosX
  vertical : ∀ t ∈ c.tiles, (axisY c).Right t.tilePosY
  disjoint : ∀ t ∈ c.tiles, ∀ u ∈ c.tiles,
    (t.tilePosX, t.tilePosY) ≠ (u.tilePosX, u.tilePosY) →
    (axisX c).Apart t.tilePosX u.tilePosX ∨ (axisY c).Apart t.tilePosY u.tilePosY

/-- The tiles are on one grid of their size, in one direction: no edge is behind the largest `int`
unless all the tiles are at one place, and the pixmap is not larger than the largest `int`. -/
structure GridAxis (tileSize pixelSize : Nat) (places : List Nat) : Prop where
  multiple : ∀ x ∈ places, ∀ y ∈ places, (tileSize : Int) ∣ x - y
  edge : (∀ x ∈ places, x + tileSize < 2 ^ 31) ∨ ∀ x ∈ places, ∀ y ∈ places, x = y
  small : ∀ x ∈ places, ∀ y ∈ places, ((x - y) / tileSize + 1) * pixelSize < 2 ^ 31

structure OnGrid (c : TileCombined) : Prop where
  horizontal : GridAxis c.params.tileWidth c.params.width (c.tiles.map TileDesc.tilePosX)
  vertical : GridAxis c.params.tileHeight c.params.height (c.tiles.map TileDesc.tilePosY)

/-! ## One direction -/

theorem exists_toInt32 (n : Int) : ∃ k : Int, toInt32 n = n + k * 2 ^ 32 := by
  rw [toInt32, Int.bmod_def]
  split
  · exact ⟨-(n / 2 ^ 32), by omega⟩
  · exact ⟨-(n / 2 ^ 32) - 1, by omega⟩

/-- Behind the largest `int` the numbers go on with the smallest. -/
theorem toInt32_of_over {n : Int} (h : 2 ^ 31 ≤ n) (h' : n < 2 ^ 32) : toInt32 n = n - 2 ^ 32 := by
  rw [toInt32, Int.bmod_def]
  split <;> omega

theorem isInt32_natCast {n : Nat} (h : n < 2 ^ 31) : IsInt32 n := ⟨by omega, by omega⟩

theorem mod_size_of_lt {n : Nat} (h : n < 2 ^ 63) : n % 2 ^ 64 = n := Nat.mod_eq_of_lt (by omega)

theorem toSizeT_of_nonneg {n : Int} (h : 0 ≤ n) (h' : n < 2 ^ 64) : (toSizeT n : Int) = n := by
  rw [toSizeT, Int.emod_eq_of_lt h h', Int.toNat_of_nonneg h]

/-- The sizes of a direction are positive `int`s. -/
structure Axis.Sized (a : Axis) : Prop where
  tileSize_pos : 0 < a.tileSize
  tileSize_lt : a.tileSize < 2 ^ 31
  pixelSize_pos : 0 < a.pixelSize
  pixelSize_lt : a.pixelSize < 2 ^ 31

namespace Axis

variable {a : Axis} (h : a.Sized)

include h

omit h in
theorem position_eq {x : Int} (hx : a.start ≤ x) (hx' : x - a.start < 2 ^ 31) :
    (a.position x : Int) = (x - a.start) / a.tileSize := by
  have hle : (x - a.start) / (a.tileSize : Int) ≤ x - a.start := Int.ediv_le_self _ (by omega)
  have hnonneg : 0 ≤ (x - a.start) / (a.tileSize : Int) := Int.ediv_nonneg (by omega) (by omega)
  rw [position, toInt32_eq ⟨by omega, by omega⟩, Int.tdiv_eq_ediv_of_nonneg (by omega),
    toSizeT_of_nonneg hnonneg (by omega)]

/-- The offset is the place among the tiles, in pixels, up to what an `int` loses. -/
theorem exists_offset {x : Int} (hx : a.start ≤ x) (hx' : x - a.start < 2 ^ 31) :
    ∃ k : Int, a.offset x = (x - a.start) / a.tileSize * a.pixelSize + k * 2 ^ 32 := by
  have hposition := position_eq hx hx'
  have hle : (x - a.start) / (a.tileSize : Int) ≤ x - a.start := Int.ediv_le_self _ (by omega)
  have hlt : a.position x * a.pixelSize < 2 ^ 31 * 2 ^ 31 :=
    Nat.mul_lt_mul'' (by omega) h.pixelSize_lt
  obtain ⟨k, hk⟩ := exists_toInt32 ((a.position x * a.pixelSize % 2 ^ 64 : Nat) : Int)
  refine ⟨k, ?_⟩
  rw [offset, hk, mod_size_of_lt (by omega), Int.natCast_mul, hposition]

theorem pixmapSize_eq {m : Nat} (hlength : a.length = m * a.tileSize) (hm : m < 2 ^ 32) :
    a.pixmapSize = m * a.pixelSize := by
  have hlt : m * a.pixelSize < 2 ^ 32 * 2 ^ 31 := Nat.mul_lt_mul'' hm h.pixelSize_lt
  have hcount : toSizeT (a.length.tdiv a.tileSize) = m := by
    have hs := h.tileSize_pos
    have : (toSizeT (a.length.tdiv a.tileSize) : Int) = m := by
      rw [hlength, Int.mul_tdiv_cancel _ (by omega)]
      exact toSizeT_of_nonneg (by omega) (by omega)
    exact_mod_cast this
  rw [pixmapSize, hcount, mod_size_of_lt (by omega)]

/-- **In an area of whole tiles the tiles are where they belong**, as long as the pixmap is not too
large. -/
theorem right_of_whole {m : Nat} (hlength : a.length = m * a.tileSize)
    (hsmall : m * a.pixelSize < 2 ^ 31) {x : Int} {k : Nat} (hx : x = a.start + k * a.tileSize)
    (hk : k < m) (hx' : x - a.start < 2 ^ 31) : a.Right x := by
  have hs := h.tileSize_pos
  have hp := h.pixelSize_pos
  have hm : m < 2 ^ 32 := by
    have := Nat.le_mul_of_pos_right m hp
    omega
  have hpixmap := pixmapSize_eq h hlength hm
  have hcanvas : a.canvasSize = m * a.pixelSize := by
    rw [canvasSize, hpixmap, toInt32_eq (isInt32_natCast hsmall), Int.natCast_mul]
  have hkm : k * a.pixelSize + a.pixelSize ≤ m * a.pixelSize := by
    rw [← Nat.succ_mul]
    exact Nat.mul_le_mul_right _ hk
  have hposition : a.position x = k := by
    have hle : a.start ≤ x := by
      rw [hx]
      exact Int.le_add_of_nonneg_right (Int.mul_nonneg (by omega) (by omega))
    have := position_eq hle hx'
    rw [show x - a.start = k * a.tileSize by omega, Int.mul_ediv_cancel _ (by omega)] at this
    exact_mod_cast this
  have hlt : k * a.pixelSize < 2 ^ 31 := by
    calc k * a.pixelSize ≤ k * a.pixelSize + a.pixelSize := Nat.le_add_right _ _
      _ ≤ m * a.pixelSize := hkm
      _ < 2 ^ 31 := hsmall
  have hoffset : a.offset x = k * a.pixelSize := by
    rw [offset, hposition, mod_size_of_lt (by omega), toInt32_eq (isInt32_natCast hlt),
      Int.natCast_mul]
  have hscale : ∀ n : ℚ, n * a.pixelSize * a.length / a.canvasSize = n * a.tileSize := by
    intro n
    have hm' : (m : ℚ) ≠ 0 := by exact_mod_cast (by omega : m ≠ 0)
    have hp' : (a.pixelSize : ℚ) ≠ 0 := by exact_mod_cast (by omega : a.pixelSize ≠ 0)
    rw [hlength, hcanvas]
    push_cast
    field_simp
  refine ⟨by rw [hoffset]; exact Int.mul_nonneg (by omega) (by omega), ?_, ?_, ?_⟩
  · rw [hoffset, hpixmap]
    exact_mod_cast hkm
  · rw [documentAt, hoffset, hx]
    push_cast
    rw [hscale]
  · have hnext := hscale (k + 1)
    rw [documentAt, hoffset, hx]
    push_cast
    rw [show ((k : ℚ) * a.pixelSize + a.pixelSize) = (k + 1) * a.pixelSize by ring, hnext]
    ring

/-- **A tile that is shown is on the grid**, and its offset is not cut. -/
theorem dvd_of_right {x : Int} (hx : a.start ≤ x) (hx' : x - a.start < 2 ^ 31) (hright : a.Right x) :
    (a.tileSize : Int) ∣ x - a.start ∧
      a.offset x = (x - a.start) / a.tileSize * a.pixelSize ∧
      a.pixelSize * a.length = a.tileSize * a.canvasSize ∧ a.canvasSize ≠ 0 := by
  have hs : (0 : Int) < a.tileSize := by exact_mod_cast h.tileSize_pos
  have hp : (0 : Int) < a.pixelSize := by exact_mod_cast h.pixelSize_pos
  have hp' : (a.pixelSize : Int) < 2 ^ 31 := by exact_mod_cast h.pixelSize_lt
  have hfirst := hright.first
  have hlast := hright.last
  rw [documentAt] at hfirst hlast
  have hcanvas : a.canvasSize ≠ 0 := by
    intro hzero
    rw [hzero, Int.cast_zero, div_zero, add_zero] at hfirst hlast
    have hs' : (0 : ℚ) < a.tileSize := by exact_mod_cast hs
    linarith
  have hcanvas' : (a.canvasSize : ℚ) ≠ 0 := by exact_mod_cast hcanvas
  have hscale : (a.pixelSize : ℚ) * a.length = a.tileSize * a.canvasSize := by
    push_cast at hlast
    rw [add_mul, add_div] at hlast
    have hsize : (a.pixelSize : ℚ) * a.length / a.canvasSize = a.tileSize := by linarith
    rwa [div_eq_iff hcanvas'] at hsize
  have hplace : (a.offset x : ℚ) * a.length = (x - a.start) * a.canvasSize := by
    have hoff : (a.offset x : ℚ) * a.length / a.canvasSize = x - a.start := by linarith
    rwa [div_eq_iff hcanvas'] at hoff
  -- the same in whole numbers: the offset and the place have the ratio of a pixel to a twip
  have hratio : a.offset x * a.tileSize = (x - a.start) * a.pixelSize := by
    have hmul : (a.offset x * a.tileSize : ℚ) * a.canvasSize =
        ((x - a.start) * a.pixelSize) * a.canvasSize := by
      linear_combination (a.pixelSize : ℚ) * hplace - a.offset x * hscale
    exact_mod_cast mul_right_cancel₀ hcanvas' hmul
  obtain ⟨k, hk⟩ := exists_offset h hx hx'
  have hdiv := Int.ediv_mul_add_emod (x - a.start) a.tileSize
  have hmod := Int.emod_nonneg (x - a.start) (by omega : (a.tileSize : Int) ≠ 0)
  have hmod' := Int.emod_lt_of_pos (x - a.start) hs
  have hrest : k * 2 ^ 32 * a.tileSize = (x - a.start) % a.tileSize * a.pixelSize := by
    rw [hk] at hratio
    linear_combination hratio - (a.pixelSize : Int) * hdiv
  have hbound := mul_lt_mul'' hmod' hp' hmod (le_of_lt hp)
  have hbound' := Int.mul_nonneg hmod (le_of_lt hp)
  have hk0 : k = 0 := by
    rcases lt_trichotomy k 0 with hneg | hzero | hpos
    · have hle : k * a.tileSize ≤ (-1) * a.tileSize := Int.mul_le_mul_of_nonneg_right (by omega) hs.le
      rw [mul_right_comm] at hrest
      omega
    · exact hzero
    · have hle : 1 * (a.tileSize : Int) ≤ k * a.tileSize := Int.mul_le_mul_of_nonneg_right (by omega) hs.le
      rw [mul_right_comm] at hrest
      omega
  rw [hk0, zero_mul, zero_mul] at hrest
  have hmod0 : (x - a.start) % a.tileSize = 0 := by
    rcases mul_eq_zero.mp hrest.symm with hzero | hzero
    · exact hzero
    · omega
  refine ⟨Int.dvd_of_emod_eq_zero hmod0, ?_, by exact_mod_cast hscale, hcanvas⟩
  rw [hk, hk0, zero_mul, add_zero]

end Axis

/-- The area of some tiles in one direction: from the first place to the last edge, as `int`s have
it. -/
structure Axis.Extent (a : Axis) (places : List Nat) : Prop where
  start_mem : ∃ x ∈ places, a.start = (x : Int)
  start_le : ∀ x ∈ places, a.start ≤ x
  length_eq : ∃ finish, a.length = toInt32 (finish - a.start) ∧
    (∃ x ∈ places, finish = toInt32 (x + a.tileSize)) ∧
    ∀ x ∈ places, toInt32 (x + a.tileSize) ≤ finish

namespace Axis

variable {a : Axis} (h : a.Sized) {places : List Nat} (hlt : ∀ x ∈ places, x < 2 ^ 31)
  (hext : a.Extent places)

include h hlt hext

/-- The area of tiles on a grid is of whole tiles, one more than there are before the last one. -/
theorem Extent.length_of_lt {lo : Nat} (hlo : a.start = lo) (hfirst : lo + a.tileSize < 2 ^ 31)
    (hmem : lo ∈ places)
    (hgrid : ∀ x ∈ places, ∃ k : Nat, x = lo + k * a.tileSize) :
    ∃ m : Nat, a.length = (m + 1 : Nat) * a.tileSize ∧ lo + m * a.tileSize ∈ places ∧
      lo + m * a.tileSize + a.tileSize < 2 ^ 31 ∧
      ∀ x ∈ places, x + a.tileSize < 2 ^ 31 → x ≤ lo + m * a.tileSize := by
  have hs := h.tileSize_lt
  obtain ⟨finish, hlength, ⟨x, hx, hfinish⟩, hmax⟩ := hext.length_eq
  have hle := hmax lo hmem
  rw [toInt32_eq ⟨by omega, by omega⟩] at hle
  have hxlt := hlt x hx
  have hin : x + a.tileSize < 2 ^ 31 := by
    by_contra hover
    rw [toInt32_of_over (by omega) (by omega)] at hfinish
    omega
  rw [toInt32_eq ⟨by omega, by omega⟩] at hfinish
  obtain ⟨m, rfl⟩ := hgrid x hx
  refine ⟨m, ?_, hx, hin, fun y hy hyin => ?_⟩
  · rw [hlength, hfinish, hlo, toInt32_eq ⟨by push_cast; omega, by push_cast; omega⟩]
    push_cast
    ring
  · have hmaxy := hmax y hy
    rw [toInt32_eq ⟨by omega, by omega⟩] at hmaxy
    omega

omit hlt in
/-- At one place the area is one tile, also where the edge is behind the largest `int`. -/
theorem Extent.length_of_eq {lo : Nat} (hlo : a.start = lo)
    (hsame : ∀ x ∈ places, x = lo) : a.length = (1 : Nat) * a.tileSize := by
  have hs := h.tileSize_lt
  obtain ⟨finish, hlength, ⟨x, hx, hfinish⟩, -⟩ := hext.length_eq
  rw [hsame x hx] at hfinish
  rw [hlength, hfinish, hlo, Nat.cast_one, one_mul]
  obtain ⟨k, hk⟩ := exists_toInt32 (lo + a.tileSize)
  rw [hk, toInt32, Int.bmod_def]
  split <;> omega

theorem gridAxis_of_right (hright : ∀ x ∈ places, a.Right x) :
    GridAxis a.tileSize a.pixelSize places := by
  have hs := h.tileSize_pos
  have hp := h.pixelSize_pos
  obtain ⟨lo, hmem, hlo⟩ := hext.start_mem
  have hdvd := fun x hx => dvd_of_right h (hext.start_le x hx)
    (by have := hlt x hx; omega) (hright x hx)
  have hgrid : ∀ x ∈ places, ∃ k : Nat, x = lo + k * a.tileSize := by
    intro x hx
    obtain ⟨k, hk⟩ := (hdvd x hx).1
    have hle := hext.start_le x hx
    have hk0 : 0 ≤ k := by
      by_contra hneg
      have : (a.tileSize : Int) * k ≤ a.tileSize * (-1) :=
        Int.mul_le_mul_of_nonneg_left (by omega) (by omega)
      omega
    refine ⟨k.toNat, ?_⟩
    zify
    rw [Int.toNat_of_nonneg hk0, mul_comm]
    omega
  have hmultiple : ∀ x ∈ places, ∀ y ∈ places, (a.tileSize : Int) ∣ x - y := by
    intro x hx y hy
    have := Int.dvd_sub (hdvd x hx).1 (hdvd y hy).1
    rwa [sub_sub_sub_cancel_right] at this
  by_cases hfirst : lo + a.tileSize < 2 ^ 31
  · obtain ⟨m, hlength, -, hin, -⟩ := Extent.length_of_lt h hlt hext hlo hfirst hmem hgrid
    have hm : m + 1 < 2 ^ 32 := by
      have := Nat.le_mul_of_pos_right m hs
      omega
    have hpixmap := pixmapSize_eq h hlength hm
    have hbefore : ∀ x ∈ places, ∃ k ≤ m, x = lo + k * a.tileSize := by
      intro x hx
      obtain ⟨k, hk⟩ := hgrid x hx
      refine ⟨k, ?_, hk⟩
      have hinside := (hright x hx).inside
      have hplace : (x : Int) - a.start = k * a.tileSize := by
        rw [hlo, hk]
        push_cast
        ring
      rw [(hdvd x hx).2.1, hplace, Int.mul_ediv_cancel _ (by omega), hpixmap] at hinside
      have hinside' : (k + 1) * a.pixelSize ≤ (m + 1) * a.pixelSize := by
        rw [Nat.succ_mul]
        exact_mod_cast hinside
      exact Nat.le_of_succ_le_succ (Nat.le_of_mul_le_mul_right hinside' hp)
    have hcanvas : a.canvasSize = (m + 1 : Nat) * a.pixelSize := by
      have hscale := (hdvd lo hmem).2.2.1
      rw [hlength] at hscale
      have hs' : (a.tileSize : Int) ≠ 0 := by omega
      apply mul_left_cancel₀ hs'
      linear_combination -hscale
    have hsmall : (m + 1) * a.pixelSize < 2 ^ 31 := by
      have hrange := (isInt32_toInt32 a.pixmapSize).2
      rw [← canvasSize, hcanvas] at hrange
      exact_mod_cast hrange
    refine ⟨hmultiple, .inl fun x hx => ?_, fun x hx y hy => ?_⟩
    · obtain ⟨k, hkm, rfl⟩ := hbefore x hx
      have := Nat.mul_le_mul_right a.tileSize hkm
      omega
    · obtain ⟨k, hkm, rfl⟩ := hbefore x hx
      obtain ⟨j, -, rfl⟩ := hbefore y hy
      have hdiv : (lo + k * a.tileSize - (lo + j * a.tileSize)) / a.tileSize ≤ m :=
        Nat.div_le_of_le_mul (by
          have := Nat.mul_le_mul_right a.tileSize hkm
          rw [mul_comm a.tileSize m]
          omega)
      exact Nat.lt_of_le_of_lt (Nat.mul_le_mul_right _ (Nat.succ_le_succ hdiv)) hsmall
  · -- the first edge is behind the largest `int` already: there is no place for a second tile
    have hsame : ∀ x ∈ places, x = lo := by
      intro x hx
      obtain ⟨k, rfl⟩ := hgrid x hx
      have := hlt _ hx
      rcases Nat.eq_zero_or_pos k with rfl | hk
      · rw [zero_mul, add_zero]
      · have := Nat.le_mul_of_pos_left a.tileSize hk
        omega
    refine ⟨hmultiple, .inr fun x hx y hy => (hsame x hx).trans (hsame y hy).symm, ?_⟩
    intro x hx y hy
    rw [hsame x hx, hsame y hy, Nat.sub_self, Nat.zero_div, zero_add, one_mul]
    exact h.pixelSize_lt

/-- The area of tiles on one grid is of whole tiles, and the pixmap is not too large. -/
theorem exists_whole (hgrid : GridAxis a.tileSize a.pixelSize places) :
    ∃ m : Nat, a.length = m * a.tileSize ∧ m * a.pixelSize < 2 ^ 31 ∧
      ∀ x ∈ places, ∃ k < m, (x : Int) = a.start + k * a.tileSize := by
  have hs := h.tileSize_pos
  obtain ⟨lo, hmem, hlo⟩ := hext.start_mem
  have hplace : ∀ x ∈ places, ∃ k : Nat, x = lo + k * a.tileSize := by
    intro x hx
    have hle := hext.start_le x hx
    have hdvd : a.tileSize ∣ x - lo := by
      zify [(by omega : lo ≤ x)]
      exact hgrid.multiple x hx lo hmem
    obtain ⟨k, hk⟩ := hdvd
    exact ⟨k, by rw [mul_comm]; omega⟩
  rcases hgrid.edge with hedge | hsame
  · obtain ⟨m, hlength, hlast, -, hmax⟩ :=
      Extent.length_of_lt h hlt hext hlo (hedge lo hmem) hmem hplace
    refine ⟨m + 1, hlength, ?_, fun x hx => ?_⟩
    · have := hgrid.small _ hlast lo hmem
      rwa [Nat.add_sub_cancel_left, Nat.mul_div_cancel _ hs] at this
    · have hle := hmax x hx (hedge x hx)
      obtain ⟨k, rfl⟩ := hplace x hx
      have hkm : k ≤ m := Nat.le_of_mul_le_mul_right (by omega) hs
      refine ⟨k, Nat.lt_succ_of_le hkm, ?_⟩
      rw [hlo]
      push_cast
      rfl
  · refine ⟨1, Extent.length_of_eq h hext hlo fun x hx => hsame x hx lo hmem, ?_, fun x hx => ?_⟩
    · rw [one_mul]
      exact h.pixelSize_lt
    · obtain rfl := hsame x hx lo hmem
      exact ⟨0, Nat.one_pos, by rw [hlo]; simp⟩

/-- **In one direction the windows are right exactly where the tiles are on a grid.** -/
theorem right_iff_gridAxis :
    (∀ x ∈ places, a.Right x) ↔ GridAxis a.tileSize a.pixelSize places := by
  refine ⟨gridAxis_of_right h hlt hext, fun hgrid x hx => ?_⟩
  obtain ⟨m, hlength, hsmall, hplace⟩ := exists_whole h hlt hext hgrid
  obtain ⟨k, hkm, hxk⟩ := hplace x hx
  obtain ⟨lo, -, hlo⟩ := hext.start_mem
  have := hlt x hx
  exact right_of_whole h hlength hsmall hxk hkm (by omega)

theorem pixmapSize_lt (hgrid : GridAxis a.tileSize a.pixelSize places) : a.pixmapSize < 2 ^ 31 := by
  obtain ⟨m, hlength, hsmall, -⟩ := exists_whole h hlt hext hgrid
  have hm : m < 2 ^ 32 := by
    have := Nat.le_mul_of_pos_right m h.pixelSize_pos
    omega
  rw [pixmapSize_eq h hlength hm]
  exact hsmall

/-- Tiles at different places have no pixel in common. -/
theorem apart_of_ne (hright : ∀ x ∈ places, a.Right x) {x y : Nat} (hx : x ∈ places) (hy : y ∈ places)
    (hne : x ≠ y) : a.Apart x y := by
  obtain ⟨lo, -, hlo⟩ := hext.start_mem
  have hdvd := fun x hx => dvd_of_right h (hext.start_le x hx)
    (by have := hlt x hx; omega) (hright x hx)
  obtain ⟨hx, hoffx, -⟩ := hdvd x hx
  obtain ⟨hy, hoffy, -⟩ := hdvd y hy
  have hcancelx := Int.ediv_mul_cancel hx
  have hcancely := Int.ediv_mul_cancel hy
  have hquot : ((x : Int) - a.start) / a.tileSize ≠ ((y : Int) - a.start) / a.tileSize := by
    intro heq
    rw [heq] at hcancelx
    omega
  rw [Apart, hoffx, hoffy]
  rcases lt_or_gt_of_ne hquot with hlt | hgt
  · left
    have := Int.mul_le_mul_of_nonneg_right (Int.add_one_le_of_lt hlt)
      (by omega : (0 : Int) ≤ a.pixelSize)
    rwa [add_mul, one_mul] at this
  · right
    have := Int.mul_le_mul_of_nonneg_right (Int.add_one_le_of_lt hgt)
      (by omega : (0 : Int) ≤ a.pixelSize)
    rwa [add_mul, one_mul] at this

end Axis

/-! ## The fields of a batch -/

/-- The fields of a batch that count for its windows are `int`s, and the sizes are positive. -/
structure InRange (c : TileCombined) : Prop where
  width : 0 < c.params.width ∧ c.params.width < 2 ^ 31
  height : 0 < c.params.height ∧ c.params.height < 2 ^ 31
  tileWidth : 0 < c.params.tileWidth ∧ c.params.tileWidth < 2 ^ 31
  tileHeight : 0 < c.params.tileHeight ∧ c.params.tileHeight < 2 ^ 31
  tilePos : ∀ t ∈ c.tiles, t.tilePosX < 2 ^ 31 ∧ t.tilePosY < 2 ^ 31

theorem isInt32_stringToInteger {s : Bytes} {n : Int} (h : stringToInteger s = some n) : IsInt32 n := by
  rw [stringToInteger] at h
  split at h
  · obtain rfl := Option.some.inj h
    exact isInt32_toInt32 _
  · cases h

theorem isInt32_argument (pairs : List (Bytes × Bytes)) (name : Bytes) :
    IsInt32 (TileCombined.argument pairs name) := by
  rw [TileCombined.argument]
  cases hlookup : ((pairs.filterMap fun p => (stringToInteger p.2).map fun n =>
      (p.1, n)).reverse.lookup name) with
  | none => exact ⟨by decide, by decide⟩
  | some n =>
    obtain ⟨l₁, l₂, hsplit, -⟩ := List.lookup_eq_some_iff.mp hlookup
    have hmem : (name, n) ∈ pairs.filterMap fun p => (stringToInteger p.2).map fun n => (p.1, n) :=
      List.mem_reverse.mp (by simp [hsplit])
    obtain ⟨p, -, hp⟩ := List.mem_filterMap.mp hmem
    obtain ⟨k, hk, heq⟩ := Option.map_eq_some_iff.mp hp
    obtain rfl : k = n := congrArg Prod.snd heq
    exact isInt32_stringToInteger hk

theorem inRange_of_parse {tokens : List Bytes} {c : TileCombined}
    (h : TileCombined.parse tokens = some c) : InRange c := by
  rw [TileCombined.parse] at h
  have hargument := isInt32_argument (tokens.filterMap parseNameValuePair)
  generalize tokens.filterMap parseNameValuePair = pairs at h hargument
  have hwidth := (hargument (ascii "width")).2
  have hheight := (hargument (ascii "height")).2
  have htileWidth := (hargument (ascii "tilewidth")).2
  have htileHeight := (hargument (ascii "tileheight")).2
  dsimp only [TileCombined.ofStrings] at h
  split at h
  · cases h
  · rename_i hpos
    split at h
    · cases h
    · obtain ⟨tiles, shared, hmem, rfl⟩ := Option.pmap_eq_some_iff.mp h
      refine ⟨?_, ?_, ?_, ?_, fun t ht => ?_⟩
      · dsimp only [TileCombined.paramsOf]
        omega
      · dsimp only [TileCombined.paramsOf]
        omega
      · dsimp only [TileCombined.paramsOf]
        omega
      · dsimp only [TileCombined.paramsOf]
        omega
      · obtain ⟨i, -, htile⟩ := TileCombined.exists_of_mapM hmem t ht
        simp only [TileCombined.tileAt, Option.bind_eq_bind, Option.bind_eq_some_iff] at htile
        obtain ⟨x, hx, y, hy, imgSize, -, ver, -, oldWireId, -, wireId, -, htile⟩ := htile
        obtain ⟨-, -, -, -, -, htx, hty, -⟩ := TileDesc.ofInts_eq_some htile
        have hxlt := (isInt32_stringToInteger hx).2
        have hylt := (isInt32_stringToInteger hy).2
        exact ⟨by omega, by omega⟩

theorem inRange_of_readBatch {input : Bytes} {c : TileCombined} (h : readBatch input = some c) :
    InRange c := by
  dsimp only [readBatch] at h
  split at h
  · obtain ⟨t, ht, rfl⟩ := Option.map_eq_some_iff.mp h
    have hfits := TileDesc.fits_of_parse ht
    have hmax : intMax = 2 ^ 31 - 1 := rfl
    refine ⟨⟨t.width_pos, ?_⟩, ⟨t.height_pos, ?_⟩, ⟨t.tileWidth_pos, ?_⟩, ⟨t.tileHeight_pos, ?_⟩,
      fun u hu => ?_⟩
    · have := hfits.width
      change t.width < _
      omega
    · have := hfits.height
      change t.height < _
      omega
    · have := hfits.tileWidth
      change t.tileWidth < _
      omega
    · have := hfits.tileHeight
      change t.tileHeight < _
      omega
    · obtain rfl := List.mem_singleton.mp hu
      have := hfits.tilePosX
      have := hfits.tilePosY
      exact ⟨by omega, by omega⟩
  · split at h
    · exact inRange_of_parse h
    · cases h

/-! ## Both directions -/

/-- A fold that keeps the smaller of two numbers ends with the smallest. -/
theorem foldl_smallest {α : Type} {f : α → α → α} {key : α → Int}
    (hf : ∀ a r, key (f a r) = min (key a) (key r)) (rs : List α) (r : α) :
    (∃ q ∈ r :: rs, key (rs.foldl f r) = key q) ∧ ∀ q ∈ r :: rs, key (rs.foldl f r) ≤ key q := by
  induction rs generalizing r with
  | nil => simp
  | cons r' rs ih =>
    obtain ⟨⟨q, hq, hkey⟩, hle⟩ := ih (f r r')
    have hmin := hf r r'
    rw [List.foldl_cons]
    constructor
    · rcases List.mem_cons.mp hq with rfl | hq
      · rcases min_choice (key r) (key r') with hr | hr'
        · exact ⟨r, List.mem_cons_self, by rw [hkey, hmin, hr]⟩
        · exact ⟨r', by simp, by rw [hkey, hmin, hr']⟩
      · exact ⟨q, by simp [hq], hkey⟩
    · intro p hp
      have hfirst := hle (f r r') List.mem_cons_self
      rw [hmin] at hfirst
      rcases List.mem_cons.mp hp with rfl | hp
      · exact hfirst.trans (min_le_left _ _)
      · rcases List.mem_cons.mp hp with rfl | hp
        · exact hfirst.trans (min_le_right _ _)
        · exact hle p (List.mem_cons_of_mem _ hp)

/-- The edges of the area are the outermost edges of the tiles. -/
theorem batchArea_edge {c : TileCombined} {key : IntRectangle → Int}
    (hkey : ∀ a r, key (.extend a r) = min (key a) (key r)) (hne : c.tiles ≠ []) :
    (∃ t ∈ c.tiles, key (batchArea c) = key (tileRectangle c t)) ∧
      ∀ t ∈ c.tiles, key (batchArea c) ≤ key (tileRectangle c t) := by
  cases htiles : c.tiles with
  | nil => exact absurd htiles hne
  | cons t ts =>
    obtain ⟨⟨q, hq, heq⟩, hle⟩ :=
      foldl_smallest hkey (ts.map (tileRectangle c)) (tileRectangle c t)
    rw [← List.map_cons] at hq hle
    obtain ⟨u, hu, rfl⟩ := List.mem_map.mp hq
    rw [batchArea, htiles]
    exact ⟨⟨u, hu, heq⟩, fun u hu => hle _ (List.mem_map_of_mem hu)⟩

section Batches

variable {c : TileCombined} (hrange : InRange c)

/-- **The extent of an axis**, in either direction: `first` and `finish` are the edges of a rectangle in it, and
`pos` is the place of a tile. -/
theorem extent_axis {a : Axis} {pos : TileDesc → Nat} {first finish : IntRectangle → Int}
    (hfirst : ∀ a r, first (.extend a r) = min (first a) (first r))
    (hfinish : ∀ a r, -finish (.extend a r) = min (-finish a) (-finish r)) (hstart : a.start = first (batchArea c))
    (hlength : a.length = toInt32 (finish (batchArea c) - first (batchArea c)))
    (hplace : ∀ t, first (tileRectangle c t) = pos t)
    (hend : ∀ t, finish (tileRectangle c t) = toInt32 (pos t + a.tileSize)) (hne : c.tiles ≠ []) :
    a.Extent (c.tiles.map pos) := by
  obtain ⟨⟨t, ht, hleft⟩, hle⟩ := batchArea_edge hfirst hne
  obtain ⟨⟨u, hu, hright⟩, hge⟩ := @batchArea_edge c (fun r => -finish r) hfinish hne
  rw [← hstart] at hleft hle hlength
  refine ⟨⟨pos t, List.mem_map_of_mem ht, by rw [hleft, hplace]⟩, fun x hx => ?_, finish (batchArea c), hlength,
    ⟨pos u, List.mem_map_of_mem hu, by rw [← hend u]; exact neg_inj.mp hright⟩, fun x hx => ?_⟩
  · obtain ⟨v, hv, rfl⟩ := List.mem_map.mp hx
    rw [← hplace v]
    exact hle v hv
  · obtain ⟨v, hv, rfl⟩ := List.mem_map.mp hx
    rw [← hend v]
    exact neg_le_neg_iff.mp (hge v hv)

theorem extent_axisX (hne : c.tiles ≠ []) : (axisX c).Extent (c.tiles.map TileDesc.tilePosX) := by
  refine @extent_axis c (axisX c) TileDesc.tilePosX IntRectangle.x1 IntRectangle.x2 (fun a r => ?_) (fun a r => ?_) ?_ ?_
    (fun t => ?_) (fun t => ?_) hne
  · simp only [IntRectangle.extend]
    split <;> omega
  · simp only [IntRectangle.extend]
    split <;> omega
  · simp only [axisX]
  · simp only [axisX, IntRectangle.getWidth]
  · simp only [tileRectangle, IntRectangle.ofSize]
  · simp only [tileRectangle, IntRectangle.ofSize, axisX]

theorem extent_axisY (hne : c.tiles ≠ []) : (axisY c).Extent (c.tiles.map TileDesc.tilePosY) := by
  refine @extent_axis c (axisY c) TileDesc.tilePosY IntRectangle.y1 IntRectangle.y2 (fun a r => ?_) (fun a r => ?_) ?_ ?_
    (fun t => ?_) (fun t => ?_) hne
  · simp only [IntRectangle.extend]
    split <;> omega
  · simp only [IntRectangle.extend]
    split <;> omega
  · simp only [axisY]
  · simp only [axisY, IntRectangle.getHeight]
  · simp only [tileRectangle, IntRectangle.ofSize]
  · simp only [tileRectangle, IntRectangle.ofSize, axisY]

/-- A pixmap of two `int`s can be allocated. -/
theorem bufferPixels_eq (hx : (axisX c).pixmapSize < 2 ^ 31) (hy : (axisY c).pixmapSize < 2 ^ 31) :
    bufferPixels c = some ((axisX c).pixmapSize * (axisY c).pixmapSize) := by
  have hlt := Nat.mul_lt_mul'' hx hy
  rw [bufferPixels, mod_size_of_lt (by omega), if_pos (by omega)]

/-- Without tiles the pixmap is a tile at the most. -/
theorem pixmapSize_of_nil {a : Axis} (h : a.Sized) (hlength : a.length = 1) : a.pixmapSize < 2 ^ 31 := by
  have hs := h.tileSize_pos
  rcases Nat.eq_or_lt_of_le (Nat.succ_le_of_lt hs) with hone | hmore
  · have hwhole : a.length = (1 : Nat) * a.tileSize := by omega
    rw [Axis.pixmapSize_eq h hwhole (by decide), one_mul]
    exact h.pixelSize_lt
  · have hzero : a.length.tdiv a.tileSize = 0 := by
      rw [hlength]
      exact Int.tdiv_eq_zero_of_lt (by omega) (by omega)
    have hcount : toSizeT 0 = 0 := rfl
    rw [Axis.pixmapSize, hzero, hcount, zero_mul]
    decide

include hrange

theorem sized_axisX : (axisX c).Sized :=
  ⟨hrange.tileWidth.1, hrange.tileWidth.2, hrange.width.1, hrange.width.2⟩

theorem sized_axisY : (axisY c).Sized :=
  ⟨hrange.tileHeight.1, hrange.tileHeight.2, hrange.height.1, hrange.height.2⟩

theorem lt_of_mem_placesX : ∀ x ∈ c.tiles.map TileDesc.tilePosX, x < 2 ^ 31 := by
  intro x hx
  obtain ⟨t, ht, rfl⟩ := List.mem_map.mp hx
  exact (hrange.tilePos t ht).1

theorem lt_of_mem_placesY : ∀ y ∈ c.tiles.map TileDesc.tilePosY, y < 2 ^ 31 := by
  intro y hy
  obtain ⟨t, ht, rfl⟩ := List.mem_map.mp hy
  exact (hrange.tilePos t ht).2

theorem windowsRight_of_onGrid (hgrid : OnGrid c) : WindowsRight c := by
  by_cases hne : c.tiles = []
  · have hempty : batchArea c = .empty := by rw [batchArea, hne]
    refine ⟨?_, by simp [hne], by simp [hne], by simp [hne]⟩
    apply bufferPixels_eq
    · exact pixmapSize_of_nil (sized_axisX hrange) (by simp only [axisX, hempty]; rfl)
    · exact pixmapSize_of_nil (sized_axisY hrange) (by simp only [axisY, hempty]; rfl)
  · have hx := extent_axisX hne
    have hy := extent_axisY hne
    have hrightX := (Axis.right_iff_gridAxis (sized_axisX hrange) (lt_of_mem_placesX hrange) hx).mpr
      hgrid.horizontal
    have hrightY := (Axis.right_iff_gridAxis (sized_axisY hrange) (lt_of_mem_placesY hrange) hy).mpr
      hgrid.vertical
    refine ⟨?_, fun t ht => hrightX _ (List.mem_map_of_mem ht),
      fun t ht => hrightY _ (List.mem_map_of_mem ht), fun t ht u hu hplaces => ?_⟩
    · exact bufferPixels_eq
        (Axis.pixmapSize_lt (sized_axisX hrange) (lt_of_mem_placesX hrange) hx hgrid.horizontal)
        (Axis.pixmapSize_lt (sized_axisY hrange) (lt_of_mem_placesY hrange) hy hgrid.vertical)
    · by_cases heq : t.tilePosX = u.tilePosX
      · right
        refine Axis.apart_of_ne (sized_axisY hrange) (lt_of_mem_placesY hrange) hy hrightY
          (List.mem_map_of_mem ht) (List.mem_map_of_mem hu) fun heqY => ?_
        exact hplaces (by rw [heq, heqY])
      · left
        exact Axis.apart_of_ne (sized_axisX hrange) (lt_of_mem_placesX hrange) hx hrightX
          (List.mem_map_of_mem ht) (List.mem_map_of_mem hu) heq

theorem onGrid_of_windowsRight (hright : WindowsRight c) : OnGrid c := by
  by_cases hne : c.tiles = []
  · constructor <;> constructor <;> simp [hne]
  · constructor
    · refine Axis.gridAxis_of_right (sized_axisX hrange) (lt_of_mem_placesX hrange) (extent_axisX hne)
        fun x hx => ?_
      obtain ⟨t, ht, rfl⟩ := List.mem_map.mp hx
      exact hright.horizontal t ht
    · refine Axis.gridAxis_of_right (sized_axisY hrange) (lt_of_mem_placesY hrange) (extent_axisY hne)
        fun y hy => ?_
      obtain ⟨t, ht, rfl⟩ := List.mem_map.mp hy
      exact hright.vertical t ht

end Batches

/-- **The windows of a batch are right exactly where its tiles are on one grid**: of every batch that
leaves the queue, each window is inside the pixmap and shows its tile, and no two have a pixel in
common, if and only if the places of the tiles differ by whole tiles and nothing of the pixmap is
behind the largest `int`. -/
theorem windowsRight_iff_onGrid (b : Batch) : WindowsRight b.combined ↔ OnGrid b.combined :=
  ⟨onGrid_of_windowsRight (inRange_of_readBatch b.read),
    windowsRight_of_onGrid (inRange_of_readBatch b.read)⟩

/-! ## Half a tile -/

/-- A tile of the first row. -/
def rowTile (x : Nat) : TileDesc :=
  { normalizedViewId := 0
    part := 0
    mode := 0
    width := 256
    height := 256
    tilePosX := x
    tilePosY := 0
    tileWidth := 3840
    tileHeight := 3840
    ver := 1
    imgSize := 0
    id := -1
    oldWireId := 0
    wireId := 0
    width_pos := TileDesc.usualPixels_pos
    height_pos := TileDesc.usualPixels_pos
    tileWidth_pos := TileDesc.usualTwips_pos
    tileHeight_pos := TileDesc.usualTwips_pos }

def rowText (x : Bytes) : Bytes :=
  ascii "tile nviewid=0 part=0 width=256 height=256 tileposx=" ++ x ++
    ascii " tileposy=0 tilewidth=3840 tileheight=3840 oldwid=0 wid=0 ver=1"

/-- The queue after two tiles were put, the second one half a tile behind the first. -/
def halfTileQueue : TileQueue :=
  let put := fun (q : TileQueue) (x : Bytes) => (q.put (fun _ => none) (rowText x)).1
  put (put ⟨[], [], []⟩ (ascii "0")) (ascii "1920")

theorem queue_halfTileQueue : halfTileQueue = ⟨[rowText (ascii "0"), rowText (ascii "1920")], [], []⟩ := by
  have hqueue : halfTileQueue.queue = [rowText (ascii "0"), rowText (ascii "1920")] := by decide +kernel
  rw [← hqueue]
  rfl

theorem isPlainTile_rowText :
    isPlainTile (rowText (ascii "0")) = true ∧ isPlainTile (rowText (ascii "1920")) = true ∧
      readTile (rowText (ascii "0")) = some (rowTile 0) ∧
      readTile (rowText (ascii "1920")) = some (rowTile 1920) := by
  decide +kernel

theorem inOneGo_halfTile : InOneGo (rowTile 0) [rowTile 0, rowTile 1920] := by
  obtain ⟨-, -, hfirst, hsecond⟩ := isPlainTile_rowText
  refine ⟨?_, ?_, ?_, ?_⟩
  · exact fun t ht => by rcases List.mem_pair.mp ht with rfl | rfl <;> rfl
  · exact fun t ht => by rcases List.mem_pair.mp ht with rfl | rfl <;> rfl
  · intro t ht
    rcases List.mem_pair.mp ht with rfl | rfl
    · exact TileDesc.fits_of_parse hfirst
    · exact TileDesc.fits_of_parse hsecond
  · refine List.pairwise_pair.mpr fun heq => ?_
    exact absurd heq (by decide)

theorem pop_halfTileQueue {c : TileCombined}
    (hc : TileCombined.create (rowTile 0) [rowTile 0, rowTile 1920] = some c) :
    halfTileQueue.pop.1 = some (c.serialize (ascii "tilecombine")) := by
  obtain ⟨hplain, hplain', hfirst, hsecond⟩ := isPlainTile_rowText
  have hdrop : dropDuplicates 2 [rowTile 0, rowTile 1920] = [rowTile 0, rowTile 1920] := by decide
  have hcombine : (rowTile 0).canCombine (rowTile 1920) = true := by decide
  rw [queue_halfTileQueue, TileQueue.pop]
  dsimp only [TileQueue.get_impl]
  rw [if_pos hplain]
  simp only [prioritize, hplain, hplain', hfirst, hsecond, TileQueue.priority, TileQueue.priorityIn,
    List.reverse_nil, Int.lt_irrefl, if_true, if_false, List.getD_cons_zero, List.eraseIdx_cons_zero,
    combineTiles, hcombine, Bool.false_eq_true, TileQueue.messageOf, List.length_singleton, hdrop, hc,
    Option.map_some]

/-- The area is one tile and a half wide. -/
theorem axisX_halfTile {c : TileCombined}
    (htiles : c.tiles = [TileCombined.strip (rowTile 0), TileCombined.strip (rowTile 1920)]) :
    axisX c = ⟨0, 5760, 3840, 256⟩ := by
  have hparams : c.params = (rowTile 0).combineParams := by
    refine (c.shared (TileCombined.strip (rowTile 0)) ?_).symm
    rw [htiles]
    exact List.mem_cons_self
  have harea : batchArea c = ⟨0, 0, 5760, 3840⟩ := by
    simp only [batchArea, htiles, tileRectangle, hparams, List.map_cons, List.map_nil]
    decide
  rw [axisX, harea, hparams]
  decide

/-- The area of both is one tile and a half, and the pixmap one tile: both windows are all of it. -/
theorem not_windowsRight : ¬ ∀ b : Batch, WindowsRight b.combined := by
  intro hall
  obtain ⟨c, c', hc, hread, htiles⟩ :=
    readBatch_create (TileDesc.fits_of_parse isPlainTile_rowText.2.2.1).isInts inOneGo_halfTile
  have hright : WindowsRight c' := hall ⟨halfTileQueue, _, c', pop_halfTileQueue hc, hread⟩
  have hmem : ∀ x ∈ [0, 1920], TileCombined.strip (rowTile x) ∈ c'.tiles := by
    intro x hx
    rw [htiles]
    exact List.mem_map_of_mem (List.mem_map_of_mem (f := rowTile) hx)
  have hapart := hright.disjoint _ (hmem 0 (by decide)) _ (hmem 1920 (by decide)) (by decide)
  have hrow : (TileCombined.strip (rowTile 1920)).tilePosY = (TileCombined.strip (rowTile 0)).tilePosY := rfl
  rw [axisX_halfTile htiles, hrow] at hapart
  have hheight := (sized_axisY (inRange_of_readBatch hread)).pixelSize_pos
  rcases hapart with hapart | hapart | hapart
  · exact absurd hapart (by decide)
  · omega
  · omega

end Oxool.Kit
