import Oxool.Delta.Client

/-!
# Frames — what the kit sends for a tile, and what the client makes of it

A frame is a type byte and a body (`compressOrDelta`, `kit/Delta.hpp`): `Z` and the compressed
pixels of a keyframe, `D` and a compressed delta, `D` alone for a tile that did not change. A
preview is a PNG file, which starts with 0x89. The server tells keyframes by that first byte
(`TileData::isKeyframe`), and the client rebuilds the picture in `_applyDelta`.

The compressor and libpng are parameters. `compress` is `ZSTD_compress` into a buffer that is large
enough, and `Lossless` is what the code relies on.
-/

set_option autoImplicit false

namespace Oxool.Delta

/-- The pixels of a tile inside the pixmap of a whole combined rendering. -/
structure Window where
  pixmap : List Pixel
  startX : Nat
  startY : Nat
  width : Nat
  height : Nat
  bufferWidth : Nat
  bufferHeight : Nat
  inside_x : startX + width ≤ bufferWidth
  inside_y : startY + height ≤ bufferHeight
  size : pixmap.length = bufferWidth * bufferHeight

namespace Window

/-- The sizes `createDelta` takes. -/
def Fits (w : Window) : Prop := w.width % 2 = 0 ∧ w.width ≤ 256 ∧ w.height ≤ 256

instance (w : Window) : Decidable w.Fits := inferInstanceAs (Decidable (_ ∧ _))

def tile (w : Window) (h : w.Fits) : Tile :=
  { w with
    width_even := h.1
    width_le := h.2.1
    height_le := h.2.2 }

def row (w : Window) (y : Nat) : List Pixel :=
  (w.pixmap.drop ((w.startY + y) * w.bufferWidth + w.startX)).take w.width

def rows (w : Window) : List (List Pixel) := (List.range w.height).map w.row

theorem frame (w : Window) : Frame w.width w.height w.rows := by
  refine ⟨by simp [rows], ?_⟩
  intro r hr
  obtain ⟨y, hy, rfl⟩ := List.mem_map.mp hr
  have hy : y < w.height := by simpa using hy
  have hrow : (w.startY + y + 1) * w.bufferWidth ≤ w.pixmap.length := by
    rw [w.size, Nat.mul_comm w.bufferWidth]
    exact Nat.mul_le_mul_right _ (by have := w.inside_y; omega)
  have hx := w.inside_x
  rw [Nat.succ_mul] at hrow
  rw [row, List.length_take, List.length_drop]
  omega

end Window

/-! ## The kit's side -/

/-- What `compressOrDelta` feeds the compressor for a keyframe: the rows, one after the other. -/
def keyframeBytes (mode : TileMode) (rows : List (List Pixel)) : List UInt8 :=
  rows.flatMap fun r => copyRow mode (r.flatMap pixelBytes)

/-- The keyframe branch of `compressOrDelta`; nothing is sent when the compressor fails. -/
def keyframe (compress : List UInt8 → Option (List UInt8)) (mode : TileMode)
    (rows : List (List Pixel)) : List UInt8 :=
  match compress (keyframeBytes mode rows) with
  | some z => 90 :: z
  | none => []

/-- One channel in `unpremultiply_rgba_data`, rounded to the nearest and cut to a byte. -/
def pngChannel (c alpha : UInt8) : UInt8 :=
  UInt8.ofNat ((c.toNat * 255 + alpha.toNat / 2) / alpha.toNat)

/-- `unpremultiply_bgra_data` and `unpremultiply_rgba_data` (`common/Png.hpp`), on the bytes of one
pixel in RGBA order. -/
def pngPixel (mode : TileMode) (p : Pixel) : List UInt8 :=
  match copyRow mode (pixelBytes p) with
  | [r, g, b, alpha] =>
    if alpha = 255 then [r, g, b, 255]
    else if alpha = 0 then [0, 0, 0, 0]
    else [pngChannel r alpha, pngChannel g alpha, pngChannel b alpha, alpha]
  | _ => []

/-- The picture in the file that `encodeSubBufferToPNG` writes. -/
def pngImage (mode : TileMode) (rows : List (List Pixel)) : List UInt8 :=
  rows.flatMap fun r => r.flatMap (pngPixel mode)

/-- `TileData::isKeyframe`. -/
def isKeyframe (data : List UInt8) : Bool := data.head? == some 90 || data.head? == some 0x89

/-! ## The client's side -/

/-- The chunk loop of `_applyDelta`: each chunk changes the image the one before it left. A chunk
takes at least its first byte, so the number of bytes bounds the rounds. -/
def applyChunks (width : Nat) : Nat → List UInt8 → List UInt8 → List UInt8
  | 0, _, imgData => imgData
  | _ + 1, [], imgData => imgData
  | fuel + 1, delta, imgData =>
    let chunk := applyDeltaChunk imgData delta imgData width
    match chunk.consumed with
    | some len => applyChunks width fuel (delta.drop len) chunk.imgData
    | none => chunk.imgData

/-- `_applyDelta` on a canvas of the tile's size that shows `imgData`, or nothing yet. -/
def applyDelta (decompress : List UInt8 → Option (List UInt8)) (width height : Nat)
    (imgData : Option (List UInt8)) (rawDelta : List UInt8) (keyframe : Bool) :
    Option (List UInt8) :=
  if rawDelta = [] ∧ keyframe = false then imgData
  else
    match decompress rawDelta, keyframe, imgData with
    | some allDeltas, true, _ =>
      let len := width * height * 4
      some (applyChunks width allDeltas.length (allDeltas.drop len)
        (unpremultiply (allDeltas.take len)))
    | some allDeltas, false, some img =>
      some (applyChunks width allDeltas.length allDeltas img)
    | _, _, imgData => imgData

/-- One frame, told by its first byte. -/
def decodeFrame (decompress readPng : List UInt8 → Option (List UInt8)) (width height : Nat)
    (imgData : Option (List UInt8)) (data : List UInt8) : Option (List UInt8) :=
  match data with
  | 90 :: z => applyDelta decompress width height imgData z true
  | 68 :: z => applyDelta decompress width height imgData z false
  | 0x89 :: _ => readPng data
  | _ => imgData

/-- Frames in order, from an empty canvas. -/
def decode (decompress readPng : List UInt8 → Option (List UInt8)) (width height : Nat)
    (frames : List (List UInt8)) : Option (List UInt8) :=
  frames.foldl (decodeFrame decompress readPng width height) none

/-! ## Every frame decodes -/

theorem copyRow_append (mode : TileMode) (ps qs : List Pixel) :
    copyRow mode ((ps ++ qs).flatMap pixelBytes) =
      copyRow mode (ps.flatMap pixelBytes) ++ copyRow mode (qs.flatMap pixelBytes) := by
  induction ps with
  | nil => cases mode <;> simp [copyRow, swapRedBlue]
  | cons p ps ih =>
    cases mode with
    | rgba => simp [copyRow]
    | bgra =>
      simp only [copyRow, List.cons_append, List.flatMap_cons, pixelBytes, List.nil_append,
        swapRedBlue] at ih ⊢
      rw [ih]

theorem keyframeBytes_eq (mode : TileMode) (rows : List (List Pixel)) :
    keyframeBytes mode rows = copyRow mode (rows.flatten.flatMap pixelBytes) := by
  induction rows with
  | nil => cases mode <;> rfl
  | cons r rows ih =>
    rw [keyframeBytes, List.flatMap_cons, ← keyframeBytes, ih, List.flatten_cons, copyRow_append]

theorem length_keyframeBytes {mode : TileMode} {w h : Nat} {rows : List (List Pixel)}
    (hf : Frame w h rows) : (keyframeBytes mode rows).length = w * h * 4 := by
  rw [keyframeBytes_eq, length_copyRow_pixels, length_flatten_uniform hf.width, hf.height,
    Nat.mul_comm h]

theorem unpremultiply_keyframeBytes (mode : TileMode) (rows : List (List Pixel)) :
    unpremultiply (keyframeBytes mode rows) = image mode rows := by
  rw [keyframeBytes_eq, unpremultiply_copyRow, rowImage, image, List.flatMap, List.map_flatten,
    List.flatten_flatten, List.map_map]
  rfl

section Codec

variable {compress decompress readPng : List UInt8 → Option (List UInt8)}

/-- The compressor never fails, a compressed frame has a header, and `decompress` undoes it. -/
def Lossless (compress decompress : List UInt8 → Option (List UInt8)) : Prop :=
  ∀ x, ∃ z, z ≠ [] ∧ compress x = some z ∧ decompress z = some x

/-- A keyframe shows its pixels, whatever the canvas showed. -/
theorem decodeFrame_keyframe (hz : Lossless compress decompress)
    (mode : TileMode) {w h : Nat} {rows : List (List Pixel)} (hf : Frame w h rows)
    (imgData : Option (List UInt8)) :
    decodeFrame decompress readPng w h imgData (keyframe compress mode rows) =
      some (image mode rows) := by
  obtain ⟨z, -, hc, hd⟩ := hz (keyframeBytes mode rows)
  have hlen : (keyframeBytes mode rows).length = w * h * 4 := length_keyframeBytes hf
  have htake : (keyframeBytes mode rows).take (w * h * 4) = keyframeBytes mode rows :=
    List.take_of_length_le (by omega)
  have hdrop : (keyframeBytes mode rows).drop (w * h * 4) = [] := List.drop_eq_nil_of_le (by omega)
  simp only [keyframe, hc, decodeFrame, applyDelta, hd]
  rw [if_neg (by simp), htake, hdrop, unpremultiply_keyframeBytes]
  cases (keyframeBytes mode rows).length <;> rfl

theorem isKeyframe_keyframe (hz : Lossless compress decompress)
    (mode : TileMode) (rows : List (List Pixel)) : isKeyframe (keyframe compress mode rows) = true := by
  obtain ⟨z, -, hc, -⟩ := hz (keyframeBytes mode rows)
  simp [keyframe, hc, isKeyframe]

/-- A delta between two tiles of one size turns the picture of the first into that of the second. -/
theorem decodeFrame_makeDelta (readPng : List UInt8 → Option (List UInt8))
    (hz : Lossless compress decompress) (hasAVX2 : Bool) (widP widC : UInt32) (mode : TileMode) {prev cur : Tile}
    (hw : prev.width = cur.width) (hh : prev.height = cur.height) :
    ∃ data, makeDelta compress (DeltaData.new hasAVX2 widP prev) (DeltaData.new hasAVX2 widC cur)
        mode = some data ∧ isKeyframe data = false ∧
      decodeFrame decompress readPng cur.width cur.height (some (image mode prev.rows)) data =
        some (image mode cur.rows) := by
  obtain ⟨cmds, hstream, hvalid, -, happly⟩ :=
    deltaStream_commands hasAVX2 widP widC mode hw hh
  have hchunk := applyDeltaChunk_commandStream mode prev hvalid
  rw [happly, hw] at hchunk
  have hmake := makeDelta_commandStream hstream compress
  rw [← commandStream] at hmake
  cases hD : commandStream mode cmds with
  | nil =>
    rw [hD] at hmake hchunk
    refine ⟨[68], hmake, rfl, ?_⟩
    have himage : image mode prev.rows = image mode cur.rows := by
      simpa [applyDeltaChunk, applyLoop] using hchunk
    simp [decodeFrame, applyDelta, himage]
  | cons b bs =>
    obtain ⟨z, hne, hc, hd⟩ := hz (b :: bs)
    rw [hD, if_neg (List.cons_ne_nil b bs), hc] at hmake
    rw [hD] at hchunk
    refine ⟨68 :: z, hmake, rfl, ?_⟩
    have hrest : ∀ fuel img, applyChunks cur.width fuel ((b :: bs).drop (b :: bs).length) img = img := by
      intro fuel img
      rw [List.drop_length]
      cases fuel <;> rfl
    simp only [decodeFrame, applyDelta, hd]
    rw [if_neg (by simp [hne])]
    simp only [List.length_cons, applyChunks, hchunk]
    exact congrArg some (hrest _ _)

end Codec

end Oxool.Delta
