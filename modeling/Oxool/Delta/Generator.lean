import Oxool.Delta.Simd

/-!
# `DeltaGenerator::makeDelta` — the delta encoder (`kit/Delta.hpp`)

The encoder walks the rows of the new tile. A row equal to the old one costs nothing; a row
equal to some other old row becomes a copy command, merged into the previous one when the two
runs line up; any other row becomes spans of new pixels. The model keeps the byte vector the
code builds, with the count byte of the last copy patched in place, so that what the merge
relies on has to be proved about bytes.
-/

set_option autoImplicit false

namespace Oxool.Delta

/-- `LibreOfficeKitTileMode`. -/
inductive TileMode where
  | rgba
  | bgra
deriving DecidableEq, Repr

/-- The window of a pixmap that `createDelta` turns into `DeltaData`, with what it checks or
asserts about it: an even width, at most 256 pixels each way, and the window inside the buffer. -/
structure Tile where
  pixmap : List Pixel
  startX : Nat
  startY : Nat
  width : Nat
  height : Nat
  bufferWidth : Nat
  bufferHeight : Nat
  width_even : width % 2 = 0
  width_le : width ≤ 256
  height_le : height ≤ 256
  inside_x : startX + width ≤ bufferWidth
  inside_y : startY + height ≤ bufferHeight
  size : pixmap.length = bufferWidth * bufferHeight

/-- The pixels at `position` in row `y` of the window. -/
def Tile.row (t : Tile) (y : Nat) : List Pixel :=
  (t.pixmap.drop ((t.startY + y) * t.bufferWidth + t.startX)).take t.width

/-- The tile's pixels, row by row. -/
def Tile.rows (t : Tile) : List (List Pixel) := (List.range t.height).map t.row

@[simp] theorem Tile.length_rows (t : Tile) : t.rows.length = t.height := by simp [Tile.rows]

theorem Tile.length_row (t : Tile) {y : Nat} (hy : y < t.height) : (t.row y).length = t.width := by
  have hrow : (t.startY + y + 1) * t.bufferWidth ≤ t.pixmap.length := by
    rw [t.size, Nat.mul_comm t.bufferWidth]
    exact Nat.mul_le_mul_right _ (by have := t.inside_y; omega)
  have hx := t.inside_x
  rw [Nat.succ_mul] at hrow
  rw [Tile.row, List.length_take, List.length_drop]
  omega

theorem Tile.getElem_rows (t : Tile) {y : Nat} (hy : y < t.rows.length) :
    t.rows[y] = t.row y := by simp [Tile.rows]

theorem Tile.length_of_mem_rows (t : Tile) {r : List Pixel} (hr : r ∈ t.rows) :
    r.length = t.width := by
  obtain ⟨y, hy, rfl⟩ := List.mem_map.mp hr
  exact t.length_row (by simpa using hy)

/-- `DeltaData`, less the location and thread checks. -/
structure DeltaData where
  wid : UInt32
  width : Nat
  height : Nat
  rows : List DeltaBitmapRow

/-- The `DeltaData` constructor. -/
def DeltaData.new (hasAVX2 : Bool) (wid : UInt32) (t : Tile) : DeltaData :=
  { wid, width := t.width, height := t.height
    rows := (List.range t.height).map fun y => initRow hasAVX2 (t.row y) t.width }

/-- `getRow`; a row out of range reads as a default-constructed one. -/
def DeltaData.getRow (d : DeltaData) (y : Nat) : DeltaBitmapRow :=
  d.rows.getD y { rleMask := Vector.replicate 4 0, rleData := [] }

/-- The bytes of a pixel in memory, on the little-endian targets the code is built for. -/
def pixelBytes (p : Pixel) : List UInt8 :=
  [p.toUInt8, (p >>> 8).toUInt8, (p >>> 16).toUInt8, (p >>> 24).toUInt8]

/-- The byte swap of `copy_row`'s BGRA case, four bytes a step. -/
def swapRedBlue : List UInt8 → List UInt8
  | b₀ :: b₁ :: b₂ :: b₃ :: bs => b₂ :: b₁ :: b₀ :: b₃ :: swapRedBlue bs
  | bs => bs

/-- `copy_row`. -/
def copyRow (mode : TileMode) (src : List UInt8) : List UInt8 :=
  match mode with
  | .rgba => src
  | .bgra => swapRedBlue src

/-! ## `diffRowTo` -/

/-- The `same` loop of `diffRowTo`, over the `n` pixels left in the row. -/
def skipSame : Nat → PixIterator → PixIterator → Nat × PixIterator × PixIterator
  | 0, old, cur => (0, old, cur)
  | n + 1, old, cur =>
    if old.identical cur then
      let (same, old, cur) := skipSame n old.next cur.next
      (same + 1, old, cur)
    else (0, old, cur)

/-- The `diff` loop: the pixels it puts in `scratch`. It keeps going for three pixels whatever
they are and stops after 254. -/
def takeDiff : Nat → Nat → PixIterator → PixIterator → List Pixel × PixIterator × PixIterator
  | _, 0, old, cur => ([], old, cur)
  | diff, n + 1, old, cur =>
    if (!old.identical cur || decide (diff < 3)) && decide (diff < 254) then
      let (scratch, old', cur') := takeDiff (diff + 1) n old.next cur.next
      (cur.getPixel :: scratch, old', cur')
    else ([], old, cur)

/-- The outer loop of `diffRowTo` from column `x` on. Each round moves `x`, so `width` rounds
are enough. -/
def diffRowLoop (width curY : Nat) (mode : TileMode) :
    Nat → Nat → PixIterator → PixIterator → List UInt8 → List UInt8
  | 0, _, _, _, output => output
  | fuel + 1, x, old, cur, output =>
    if x < width then
      let (same, old, cur) := skipSame (width - x) old cur
      let x := x + same
      let (scratch, old, cur) := takeDiff 0 (width - x) old cur
      let diff := scratch.length
      let output :=
        if diff > 0 then
          output ++ [100, UInt8.ofNat curY, UInt8.ofNat x, UInt8.ofNat diff] ++
            copyRow mode (scratch.flatMap pixelBytes)
        else output
      diffRowLoop width curY mode fuel (x + diff) old cur output
    else output

/-- `diffRowTo`. -/
def diffRowTo (row curRow : DeltaBitmapRow) (width curY : Nat) (output : List UInt8)
    (mode : TileMode) : List UInt8 :=
  diffRowLoop width curY mode width 0 (PixIterator.new row) (PixIterator.new curRow) output

/-! ## `makeDelta` -/

/-- The variables `makeDelta` carries from row to row. `lastMatchOffset` is a `size_t`. -/
structure DeltaScan where
  output : List UInt8
  lastMatchOffset : Nat
  lastCopy : Nat

/-- The rows the hunt looks at, in order: `(y + lastMatchOffset + yn) % height` in `size_t`
arithmetic, for the `n` values of `yn` up to the height. -/
def huntRow (prev : DeltaData) (curRow : DeltaBitmapRow) (y lastMatchOffset : Nat) :
    Nat → Option Nat
  | 0 => none
  | n + 1 =>
    let yn := prev.height - (n + 1)
    let m := (y + lastMatchOffset + yn) % 2 ^ 64 % prev.height
    if (prev.getRow m).identical curRow then some m
    else huntRow prev curRow y lastMatchOffset n

/-- Can row `y`, equal to old row `m`, extend the copy command whose count is at `lastCopy`? -/
def canExtend (output : List UInt8) (lastCopy height m y : Nat) : Bool :=
  let cnt := (output.getD lastCopy 0).toNat
  let src := (output.getD (lastCopy + 1) 0).toNat
  let dest := (output.getD (lastCopy + 2) 0).toNat
  decide (lastCopy > 0) && decide (src + cnt = m) && decide (dest + cnt = y) &&
    decide (src + cnt + 1 < height)

/-- What `makeDelta` does with a row found elsewhere in the old tile. -/
def emitCopy (height m y : Nat) (s : DeltaScan) : DeltaScan :=
  if canExtend s.output s.lastCopy height m y then
    { s with output := s.output.set s.lastCopy (s.output.getD s.lastCopy 0 + 1) }
  else
    { output := s.output ++ [99, 1, UInt8.ofNat m, UInt8.ofNat y]
      lastMatchOffset := (m + 2 ^ 64 - y) % 2 ^ 64
      lastCopy := s.output.length + 1 }

/-- One round of `makeDelta`'s row loop. -/
def deltaRow (prev cur : DeltaData) (mode : TileMode) (y : Nat) (s : DeltaScan) : DeltaScan :=
  if (prev.getRow y).identical (cur.getRow y) then s
  else
    match huntRow prev (cur.getRow y) y s.lastMatchOffset prev.height with
    | some m => emitCopy prev.height m y s
    | none =>
      { s with output := diffRowTo (prev.getRow y) (cur.getRow y) prev.width y s.output mode }

/-- The first `n` rows. -/
def deltaRows (prev cur : DeltaData) (mode : TileMode) : Nat → DeltaScan
  | 0 => { output := [], lastMatchOffset := 0, lastCopy := 0 }
  | n + 1 => deltaRow prev cur mode n (deltaRows prev cur mode n)

/-- The uncompressed stream of `makeDelta`: refused for tiles of two sizes, empty for equal
tiles, and otherwise the commands with the terminator. -/
def deltaStream (prev cur : DeltaData) (mode : TileMode) : Option (List UInt8) :=
  if prev.width ≠ cur.width ∨ prev.height ≠ cur.height then none
  else
    let output := (deltaRows prev cur mode prev.height).output
    some (if output.isEmpty then [] else output ++ [116])

/-- `makeDelta`: what it appends to `outStream`, given the compressor. -/
def makeDelta (compress : List UInt8 → Option (List UInt8)) (prev cur : DeltaData)
    (mode : TileMode) : Option (List UInt8) :=
  match deltaStream prev cur mode with
  | none => none
  | some [] => some [68]
  | some output => (compress output).map (68 :: ·)

end Oxool.Delta
