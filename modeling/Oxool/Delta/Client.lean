import Oxool.Delta.Commands

/-!
# `_applyDeltaChunk` — the delta decoder (`browser/src/layer/tile/CanvasTileLayer.js`)

The client keeps the canvas as one array of unpremultiplied RGBA bytes and applies a chunk to it
command by command, reading row copies from a snapshot taken before the chunk. JavaScript's
typed-array rules are part of the model: a read past the end is `undefined`, which a
`Uint8ClampedArray` stores as 0, and a store past the end does nothing. A command cut off by the
end of the data therefore has a meaning, if a useless one: a copy without its row bytes changes
nothing, and a span without its length makes the offset `NaN`, which ends the loop.
-/

set_option autoImplicit false

namespace Oxool.Delta

/-- One channel of `_unpremultiply`: `Math.ceil(c * 255 / alpha)`, clamped to a byte on the store.
The quotient of two such small integers is either exact or at least `1 / 254` away from an
integer, so the double's rounding does not move the ceiling. -/
def unpremultiplyChannel (c alpha : UInt8) : UInt8 :=
  UInt8.ofNat (min 255 ((c.toNat * 255 + alpha.toNat - 1) / alpha.toNat))

/-- One pixel of `_unpremultiply`, given its four bytes. -/
def unpremultiplyPixel (b₀ b₁ b₂ alpha : UInt8) : List UInt8 :=
  if alpha = 255 then [b₀, b₁, b₂, alpha]
  else if alpha ≠ 0 then
    [unpremultiplyChannel b₀ alpha, unpremultiplyChannel b₁ alpha, unpremultiplyChannel b₂ alpha,
      alpha]
  else [0, 0, 0, 0]

/-- `_unpremultiply`; bytes short of a pixel at the end have no place in the result. -/
def unpremultiply : List UInt8 → List UInt8
  | b₀ :: b₁ :: b₂ :: b₃ :: bs => unpremultiplyPixel b₀ b₁ b₂ b₃ ++ unpremultiply bs
  | _ => []

/-- `for (j = 0; j < n; ++j) data[offset + j] = src[j]`, as byte stores in order. -/
def storeBytes (src : List UInt8) (offset : Nat) : Nat → List UInt8 → List UInt8
  | 0, data => data
  | n + 1, data => (storeBytes src offset n data).set (offset + n) (src.getD n 0)

/-- The row loop of a copy command. -/
def copyRowsData (oldData : List UInt8) (srcRow destRow width : Nat) :
    Nat → List UInt8 → List UInt8
  | 0, data => data
  | n + 1, data =>
    let src := (srcRow + n) * width * 4
    let dest := (destRow + n) * width * 4
    storeBytes (oldData.drop src) dest (width * 4)
      (copyRowsData oldData srcRow destRow width n data)

/-- What `_applyDeltaChunk` leaves: the offset it returns (`none` for `NaN`), the image, and
whether it met an unknown code. -/
structure ChunkResult where
  consumed : Option Nat
  imgData : List UInt8
  error : Bool
deriving DecidableEq

/-- The command loop at offset `i`, with `rest` the bytes of the delta from `i` on. Every round
but the last takes at least one byte, so the length of the delta bounds the rounds. -/
def applyLoop (oldData : List UInt8) (width deltaLength : Nat) :
    Nat → Nat → List UInt8 → List UInt8 → ChunkResult
  | 0, i, _, imgData => ⟨some i, imgData, false⟩
  | _ + 1, i, [], imgData => ⟨some i, imgData, false⟩
  | fuel + 1, i, code :: args, imgData =>
    if code = 99 then
      match args with
      | count :: srcRow :: destRow :: rest =>
        applyLoop oldData width deltaLength fuel (i + 4) rest
          (copyRowsData oldData srcRow.toNat destRow.toNat width count.toNat imgData)
      | _ => ⟨some (i + 4), imgData, false⟩
    else if code = 100 then
      match args with
      | destRow :: destCol :: span :: rest =>
        let offset := destRow.toNat * width * 4 + destCol.toNat * 4
        let span := span.toNat * 4
        let pixelData := unpremultiply (rest.take span)
        applyLoop oldData width deltaLength fuel (i + 4 + span) (rest.drop span)
          (storeBytes pixelData offset span imgData)
      | _ => ⟨none, imgData, false⟩
    else if code = 116 then ⟨some (i + 1), imgData, false⟩
    else ⟨some deltaLength, imgData, true⟩

/-- `_applyDeltaChunk`. -/
def applyDeltaChunk (imgData delta oldData : List UInt8) (width : Nat) : ChunkResult :=
  applyLoop oldData width delta.length (delta.length + 1) 0 delta imgData

/-! ## The image of a tile -/

/-- The unpremultiplied RGBA bytes the client holds for a pixel. -/
def pixelImage (mode : TileMode) (p : Pixel) : List UInt8 :=
  unpremultiply (copyRow mode (pixelBytes p))

/-- The unpremultiplied RGBA bytes of a row. -/
def rowImage (mode : TileMode) (ps : List Pixel) : List UInt8 := ps.flatMap (pixelImage mode)

/-- The unpremultiplied RGBA image of some rows, as one array. -/
def image (mode : TileMode) (rows : List (List Pixel)) : List UInt8 :=
  (rows.map (rowImage mode)).flatten

theorem length_unpremultiplyPixel (b₀ b₁ b₂ b₃ : UInt8) :
    (unpremultiplyPixel b₀ b₁ b₂ b₃).length = 4 := by
  unfold unpremultiplyPixel
  split
  · rfl
  · split <;> rfl

theorem length_pixelImage (mode : TileMode) (p : Pixel) : (pixelImage mode p).length = 4 := by
  cases mode <;>
    simp [pixelImage, copyRow, pixelBytes, swapRedBlue, unpremultiply, length_unpremultiplyPixel]

theorem length_rowImage (mode : TileMode) (ps : List Pixel) :
    (rowImage mode ps).length = ps.length * 4 := by
  induction ps with
  | nil => rfl
  | cons p ps ih =>
    rw [rowImage, List.flatMap_cons, List.length_append, length_pixelImage, ← rowImage, ih,
      List.length_cons]
    omega

/-- A run of wire pixels unpremultiplies to the image of the pixels. -/
theorem unpremultiply_copyRow (mode : TileMode) (ps : List Pixel) :
    unpremultiply (copyRow mode (ps.flatMap pixelBytes)) = rowImage mode ps := by
  induction ps with
  | nil => cases mode <;> rfl
  | cons p ps ih =>
    rw [List.flatMap_cons, rowImage, List.flatMap_cons, ← rowImage, ← ih]
    cases mode <;> simp [pixelImage, copyRow, pixelBytes, swapRedBlue, unpremultiply]

theorem length_copyRow_pixels (mode : TileMode) (ps : List Pixel) :
    (copyRow mode (ps.flatMap pixelBytes)).length = ps.length * 4 := by
  induction ps with
  | nil => cases mode <;> rfl
  | cons p ps ih =>
    rw [List.flatMap_cons, List.length_cons]
    cases mode <;> simp [copyRow, pixelBytes, swapRedBlue] at ih ⊢ <;> omega

/-- Storing bytes one by one is overwriting. -/
theorem storeBytes_eq_overwrite {data src : List UInt8} {offset : Nat} :
    ∀ {n : Nat}, n ≤ src.length → offset + n ≤ data.length →
      storeBytes src offset n data = overwrite data offset (src.take n)
  | 0, _, _ => by simp [storeBytes]
  | n + 1, hn, hlen => by
    have hnlt : n < src.length := by omega
    have htake : (src.take n).length = n := by rw [List.length_take]; omega
    rw [storeBytes, storeBytes_eq_overwrite (by omega) (by omega), ← List.take_append_getElem hnlt,
      overwrite_concat (by omega), htake, List.getD_eq_getElem _ _ hnlt]

/-! ## The decoder runs commands -/

/-- A frame of `h` rows of `w` pixels. -/
structure Frame (w h : Nat) (rows : List (List Pixel)) : Prop where
  height : rows.length = h
  width : ∀ r ∈ rows, r.length = w

theorem Frame.set {w h y : Nat} {rows : List (List Pixel)} {r : List Pixel} (hf : Frame w h rows)
    (hr : r.length = w) : Frame w h (rows.set y r) :=
  ⟨by rw [List.length_set]; exact hf.height,
   fun r' hr' => (List.mem_or_eq_of_mem_set hr').elim (hf.width r') fun heq => by rw [heq, hr]⟩

theorem Frame.getD {w h y : Nat} {rows : List (List Pixel)} (hf : Frame w h rows) (hy : y < h) :
    (rows.getD y []).length = w := by
  have hlt : y < rows.length := by rw [hf.height]; exact hy
  rw [List.getD_eq_getElem _ _ hlt]
  exact hf.width _ (List.getElem_mem hlt)

section Decoder

variable {w h : Nat} {mode : TileMode} {rows : List (List Pixel)}

theorem Frame.image_rows (hf : Frame w h rows) :
    ∀ r ∈ rows.map (rowImage mode), r.length = w * 4 := by
  intro r hr
  obtain ⟨ps, hps, rfl⟩ := List.mem_map.mp hr
  rw [length_rowImage, hf.width ps hps]

theorem Frame.length_image (hf : Frame w h rows) : (image mode rows).length = h * (w * 4) := by
  rw [image, length_flatten_uniform hf.image_rows, List.length_map, hf.height]

/-- The bytes of row `y` of an image. -/
theorem Frame.row_image (mode : TileMode) (hf : Frame w h rows) {y : Nat} (hy : y < h) :
    ((image mode rows).drop (y * w * 4)).take (w * 4) = rowImage mode (rows.getD y []) := by
  have hlt : y < rows.length := by rw [hf.height]; exact hy
  rw [Nat.mul_assoc, image, row_flatten_uniform hf.image_rows (by simpa using hlt),
    List.getElem_map, List.getD_eq_getElem _ _ hlt]

theorem take_rowImage (ps : List Pixel) (n : Nat) :
    (rowImage mode ps).take (n * 4) = rowImage mode (ps.take n) := by
  rw [rowImage, List.flatMap_def, take_flatten_uniform
    (by rintro r hr; obtain ⟨p, -, rfl⟩ := List.mem_map.mp hr; exact length_pixelImage mode p),
    rowImage, List.flatMap_def, List.map_take]

theorem drop_rowImage (ps : List Pixel) (n : Nat) :
    (rowImage mode ps).drop (n * 4) = rowImage mode (ps.drop n) := by
  rw [rowImage, List.flatMap_def, drop_flatten_uniform
    (by rintro r hr; obtain ⟨p, -, rfl⟩ := List.mem_map.mp hr; exact length_pixelImage mode p),
    rowImage, List.flatMap_def, List.map_drop]

/-- Pixels put into a row are their bytes put into the row's bytes. -/
theorem rowImage_overwrite (ps new : List Pixel) (x : Nat) :
    overwrite (rowImage mode ps) (x * 4) (rowImage mode new) =
      rowImage mode (overwrite ps x new) := by
  rw [overwrite, length_rowImage, ← Nat.add_mul, take_rowImage, drop_rowImage, overwrite]
  simp [rowImage]

/-- Bytes stored inside row `y` of an image. -/
theorem Frame.image_overwrite (mode : TileMode) (hf : Frame w h rows) {y x : Nat}
    {new : List Pixel} (hy : y < h) (hx : x + new.length ≤ w) :
    overwrite (image mode rows) (y * w * 4 + x * 4) (rowImage mode new) =
      image mode (rows.set y (overwrite (rows.getD y []) x new)) := by
  have hlt : y < rows.length := by rw [hf.height]; exact hy
  rw [Nat.mul_assoc, image, overwrite_flatten_uniform hf.image_rows (by simpa using hlt)
    (by rw [length_rowImage]; omega), List.getElem_map, rowImage_overwrite,
    List.getD_eq_getElem _ _ hlt, image, List.map_set]

/-- A copy command reads the snapshot only. -/
theorem copyRowsData_image (mode : TileMode) {old : List (List Pixel)} (hold : Frame w h old)
    {src dest : Nat} : ∀ {n : Nat}, src + n ≤ h → dest + n ≤ h → Frame w h rows →
      copyRowsData (image mode old) src dest w n (image mode rows) =
        image mode (Command.copyRows old src dest n rows) ∧
      Frame w h (Command.copyRows old src dest n rows)
  | 0, _, _, hf => ⟨rfl, hf⟩
  | n + 1, hsrc, hdest, hf => by
    have hsrc' : src + n < h := by omega
    have hdest' : dest + n < h := by omega
    obtain ⟨himg, hfn⟩ := copyRowsData_image mode hold hsrc'.le hdest'.le hf
    have hrow := hold.row_image mode hsrc'
    have hlen := hold.getD hsrc'
    have hfits : (dest + n) * w * 4 + w * 4 ≤ h * (w * 4) := by
      rw [Nat.mul_assoc, ← Nat.succ_mul]
      exact Nat.mul_le_mul_right _ (by omega)
    have hdrop : w * 4 ≤ ((image mode old).drop ((src + n) * w * 4)).length := by
      have := congrArg List.length hrow
      rw [List.length_take, length_rowImage, hlen] at this
      omega
    refine ⟨?_, hfn.set hlen⟩
    rw [copyRowsData, himg, storeBytes_eq_overwrite hdrop (by rw [hfn.length_image]; exact hfits), hrow,
      Command.copyRows]
    have hover := hfn.image_overwrite mode hdest' (show 0 + (old.getD (src + n) []).length ≤ w by omega)
    rw [Nat.zero_mul, Nat.add_zero] at hover
    rw [hover]
    congr 2
    rw [overwrite, hlen, Nat.zero_add, List.take_zero, List.nil_append,
      List.drop_eq_nil_of_le (by rw [hfn.getD hdest']), List.append_nil]

theorem Command.Valid.frame {c : Command} (hc : c.Valid w h) {old : List (List Pixel)}
    (hold : Frame w h old) (hf : Frame w h rows) : Frame w h (c.apply old rows) := by
  cases c with
  | copy n a b =>
    obtain ⟨-, -, ha, hb⟩ := hc
    exact (copyRowsData_image .rgba hold ha hb hf).2
  | span r x px =>
    obtain ⟨hr, -, -, hx⟩ := hc
    exact hf.set (by rw [length_overwrite (by rw [hf.getD hr]; exact hx), hf.getD hr])

/-- **One command, decoded.** The loop takes the command's bytes and leaves the image of what the
command means. -/
theorem applyLoop_command {c : Command} (hc : c.Valid w h) {old : List (List Pixel)}
    (hold : Frame w h old) (hf : Frame w h rows) (hw : w ≤ 256) (hh : h ≤ 256)
    (len fuel i : Nat) (rest : List UInt8) :
    applyLoop (image mode old) w len (fuel + 1) i (c.bytes mode ++ rest) (image mode rows) =
      applyLoop (image mode old) w len fuel (i + (c.bytes mode).length) rest
        (image mode (c.apply old rows)) := by
  cases c with
  | copy n a b =>
    obtain ⟨hn, hn256, ha, hb⟩ := hc
    simp only [Command.bytes, List.cons_append, List.nil_append, applyLoop, if_true,
      UInt8.toNat_ofNat_of_lt' hn256, UInt8.toNat_ofNat_of_lt' (by omega : a < 256),
      UInt8.toNat_ofNat_of_lt' (by omega : b < 256)]
    rw [(copyRowsData_image mode hold ha hb hf).1]
    rfl
  | span r x px =>
    obtain ⟨hr, hp1, hp256, hx⟩ := hc
    have hlen := length_copyRow_pixels mode px
    have hfits : r * w * 4 + x * 4 + px.length * 4 ≤ h * (w * 4) := by
      have : (r + 1) * (w * 4) ≤ h * (w * 4) := Nat.mul_le_mul_right _ hr
      rw [Nat.succ_mul, ← Nat.mul_assoc] at this
      omega
    simp only [Command.bytes, List.cons_append, List.nil_append, applyLoop]
    rw [if_neg (by decide), if_pos trivial]
    simp only [UInt8.toNat_ofNat_of_lt' (by omega : r < 256),
      UInt8.toNat_ofNat_of_lt' (by omega : x < 256), UInt8.toNat_ofNat_of_lt' hp256]
    rw [← hlen, List.take_left, List.drop_left, unpremultiply_copyRow, hlen]
    rw [storeBytes_eq_overwrite (by rw [length_rowImage]) (by rw [hf.length_image]; exact hfits),
      List.take_of_length_le (by rw [length_rowImage]), hf.image_overwrite mode hr hx, Command.apply]
    congr 1
    simp only [List.length_cons, hlen]
    omega

/-- A run over a list of commands. -/
theorem applyLoop_commands (mode : TileMode) {old : List (List Pixel)} (hold : Frame w h old) (hw : w ≤ 256)
    (hh : h ≤ 256) (len : Nat) (rest : List UInt8) :
    ∀ (cmds : List Command) (rows : List (List Pixel)) (fuel i : Nat), Frame w h rows →
      (∀ c ∈ cmds, c.Valid w h) →
      applyLoop (image mode old) w len (cmds.length + fuel) i
          (cmds.flatMap (Command.bytes mode) ++ rest) (image mode rows) =
        applyLoop (image mode old) w len fuel (i + (cmds.flatMap (Command.bytes mode)).length) rest
          (image mode (cmds.foldl (Command.apply old) rows)) := by
  intro cmds
  induction cmds with
  | nil => intro rows fuel i _ _; simp
  | cons c cs ih =>
    intro rows fuel i hf hvalid
    have hc := hvalid c List.mem_cons_self
    rw [List.flatMap_cons, List.append_assoc, List.length_cons,
      show cs.length + 1 + fuel = cs.length + fuel + 1 by omega,
      applyLoop_command hc hold hf hw hh,
      ih _ fuel _ (hc.frame hold hf) fun c' hc' => hvalid c' (List.mem_cons_of_mem _ hc'),
      List.length_append, Nat.add_assoc, List.foldl_cons]

end Decoder

/-! ## The codec -/

theorem Tile.frame (t : Tile) : Frame t.width t.height t.rows :=
  ⟨t.length_rows, fun _ hr => t.length_of_mem_rows hr⟩

/-- Every row, column and count of the command fits a byte, and the command describes at least
one row or pixel. -/
def Command.FitsBytes : Command → Prop
  | .copy count src dest => 1 ≤ count ∧ count < 256 ∧ src < 256 ∧ dest < 256
  | .span row col pixels => 1 ≤ pixels.length ∧ pixels.length < 256 ∧ row < 256 ∧ col < 256

theorem Command.Valid.fitsBytes {w h : Nat} {c : Command} (hc : c.Valid w h) (hw : w ≤ 256)
    (hh : h ≤ 256) : c.FitsBytes := by
  cases c with
  | copy n a b =>
    obtain ⟨h1, h2, h3, h4⟩ := hc
    exact ⟨h1, h2, by omega, by omega⟩
  | span r x px =>
    obtain ⟨h1, h2, h3, h4⟩ := hc
    exact ⟨h2, h3, by omega, by omega⟩

theorem length_le_flatMap_bytes (mode : TileMode) (cmds : List Command) :
    cmds.length ≤ (cmds.flatMap (Command.bytes mode)).length := by
  induction cmds with
  | nil => simp
  | cons c cs ih =>
    have hpos : 1 ≤ (c.bytes mode).length := by cases c <;> simp [Command.bytes]
    rw [List.flatMap_cons, List.length_append, List.length_cons]
    omega

/-- The wire form of a list of commands: nothing for none, and else the commands with the
terminator. -/
def commandStream (mode : TileMode) (cmds : List Command) : List UInt8 :=
  if cmds = [] then [] else cmds.flatMap (Command.bytes mode) ++ [116]

theorem makeDelta_commandStream {prev cur : DeltaData} {mode : TileMode} {D : List UInt8}
    (h : deltaStream prev cur mode = some D) (compress : List UInt8 → Option (List UInt8)) :
    makeDelta compress prev cur mode = if D = [] then some [68] else (compress D).map (68 :: ·) := by
  rw [makeDelta, h]
  cases D with
  | nil => rfl
  | cons b bs => rfl

/-- The decoder runs a stream of commands to its last byte. -/
theorem applyDeltaChunk_commandStream (mode : TileMode) (prev : Tile) {cmds : List Command}
    (hvalid : ∀ c ∈ cmds, c.Valid prev.width prev.height) :
    applyDeltaChunk (image mode prev.rows) (commandStream mode cmds) (image mode prev.rows)
        prev.width =
      { consumed := some (commandStream mode cmds).length
        imgData := image mode (cmds.foldl (Command.apply prev.rows) prev.rows)
        error := false } := by
  set D := commandStream mode cmds with hD
  by_cases hc : cmds = []
  · rw [hD, commandStream, if_pos hc, hc]
    rfl
  · have hrun := applyLoop_commands mode prev.frame prev.width_le prev.height_le D.length
      [116] cmds prev.rows (D.length + 1 - cmds.length) 0 prev.frame hvalid
    have hDeq : D = cmds.flatMap (Command.bytes mode) ++ [116] := by
      rw [hD, commandStream, if_neg hc]
    have hDlen : D.length = (cmds.flatMap (Command.bytes mode)).length + 1 := by
      rw [hDeq, List.length_append]
      rfl
    have hshort := length_le_flatMap_bytes mode cmds
    have hfuel : D.length + 1 - cmds.length = D.length - cmds.length + 1 := by omega
    rw [Nat.add_sub_cancel' (by omega), hfuel, Nat.zero_add, ← hDeq] at hrun
    rw [applyDeltaChunk, hrun, hDlen]
    simp [applyLoop]

/-- **The delta codec, end to end.** For two tiles of one size, `makeDelta` compresses a stream
`D` (or sends none when the tiles are equal) that the client's `_applyDeltaChunk` consumes to its
last byte without meeting an unknown code, turning the image of the old tile into the image of
the new one. `D` is a list of commands and a terminator: every number in it fits its byte, every
command describes something, and every copied row is a row of the previous frame. -/
theorem applyDeltaChunk_makeDelta (hasAVX2 : Bool) (widP widC : UInt32) (mode : TileMode)
    (prev cur : Tile) (hw : prev.width = cur.width) (hh : prev.height = cur.height) :
    ∃ (D : List UInt8) (cmds : List Command),
      (∀ compress, makeDelta compress (DeltaData.new hasAVX2 widP prev)
          (DeltaData.new hasAVX2 widC cur) mode =
        if D = [] then some [68] else (compress D).map (68 :: ·)) ∧
      applyDeltaChunk (image mode prev.rows) D (image mode prev.rows) prev.width =
        { consumed := some D.length, imgData := image mode cur.rows, error := false } ∧
      D = (if cmds = [] then [] else cmds.flatMap (Command.bytes mode) ++ [116]) ∧
      (∀ c ∈ cmds, c.FitsBytes ∧ c.Valid prev.width prev.height) ∧
      ∀ n a b, Command.copy n a b ∈ cmds → ∀ k, k < n → cur.row (b + k) = prev.row (a + k) := by
  obtain ⟨cmds, hstream, hvalid, hcopies, happly⟩ := deltaStream_commands hasAVX2 widP widC
    mode hw hh
  refine ⟨commandStream mode cmds, cmds, makeDelta_commandStream hstream, ?_, rfl, fun c hc =>
    ⟨(hvalid c hc).fitsBytes prev.width_le prev.height_le, hvalid c hc⟩, hcopies⟩
  rw [applyDeltaChunk_commandStream mode prev hvalid, happly]

/-- A 2 by 2 tile with the four given pixels. -/
def tile2x2 (a b c d : Pixel) : Tile :=
  { pixmap := [a, b, c, d], startX := 0, startY := 0, width := 2, height := 2
    bufferWidth := 2, bufferHeight := 2, width_even := rfl, width_le := by omega
    height_le := by omega, inside_x := by omega, inside_y := by omega, size := rfl }

/-- The codec at a tile whose first row moves down and whose first row is redrawn. -/
theorem applyDeltaChunk_makeDelta_tile2x2 :
    (tile2x2 1 2 3 4).width = (tile2x2 5 6 1 2).width ∧
    (tile2x2 1 2 3 4).height = (tile2x2 5 6 1 2).height ∧
    ∃ (D : List UInt8) (cmds : List Command),
      (∀ compress, makeDelta compress (DeltaData.new false 1 (tile2x2 1 2 3 4))
          (DeltaData.new false 2 (tile2x2 5 6 1 2)) .bgra =
        if D = [] then some [68] else (compress D).map (68 :: ·)) ∧
      applyDeltaChunk (image .bgra (tile2x2 1 2 3 4).rows) D (image .bgra (tile2x2 1 2 3 4).rows) 2 =
        { consumed := some D.length, imgData := image .bgra (tile2x2 5 6 1 2).rows, error := false } ∧
      D = (if cmds = [] then [] else cmds.flatMap (Command.bytes .bgra) ++ [116]) ∧
      (∀ c ∈ cmds, c.FitsBytes ∧ c.Valid 2 2) ∧
      ∀ n a b, Command.copy n a b ∈ cmds → ∀ k, k < n →
        (tile2x2 5 6 1 2).row (b + k) = (tile2x2 1 2 3 4).row (a + k) :=
  ⟨rfl, rfl, applyDeltaChunk_makeDelta false 1 2 .bgra (tile2x2 1 2 3 4) (tile2x2 5 6 1 2) rfl rfl⟩

/-- The stream of that tile: new pixels for row 0, then row 0 of the old frame copied to row 1. -/
example : deltaStream (DeltaData.new false 1 (tile2x2 1 2 3 4))
    (DeltaData.new false 2 (tile2x2 5 6 1 2)) .rgba =
    some [100, 0, 0, 2, 5, 0, 0, 0, 6, 0, 0, 0, 99, 1, 0, 1, 116] := by decide +kernel

end Oxool.Delta
