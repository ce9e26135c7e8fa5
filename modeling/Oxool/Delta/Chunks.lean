import Oxool.Delta.Frames

/-!
# Where a stream of deltas may be cut

The browser keeps the compressed keyframe of a tile and the compressed deltas that came for it, one
behind the other, and rebuilds the image from all of them at once. A chunk ends with its terminator,
so what follows in the stream does not matter for it: the image is the one that the same deltas make
one by one.
-/

set_option autoImplicit false

namespace Oxool.Delta

/-- The bytes of one delta: commands, and the terminator. -/
inductive IsChunk : List UInt8 → Prop
  | terminate : IsChunk [116]
  | copy (count srcRow destRow : UInt8) {rest : List UInt8} :
      IsChunk rest → IsChunk (99 :: count :: srcRow :: destRow :: rest)
  | span (destRow destCol span : UInt8) {pixelData rest : List UInt8} :
      pixelData.length = span.toNat * 4 → IsChunk rest →
        IsChunk (100 :: destRow :: destCol :: span :: (pixelData ++ rest))

/-- Some deltas, one behind the other. -/
def IsChunks (bs : List UInt8) : Prop := ∃ cs : List (List UInt8), bs = cs.flatten ∧ ∀ c ∈ cs, IsChunk c

theorem IsChunks.append {as bs : List UInt8} (ha : IsChunks as) (hb : IsChunks bs) :
    IsChunks (as ++ bs) := by
  obtain ⟨cs, rfl, hcs⟩ := ha
  obtain ⟨cs', rfl, hcs'⟩ := hb
  refine ⟨cs ++ cs', List.flatten_append.symm, fun c hc => ?_⟩
  rcases List.mem_append.mp hc with hc | hc
  · exact hcs c hc
  · exact hcs' c hc

/-! ## What is sent -/

/-- A command that fits its bytes, in front of a chunk. -/
theorem IsChunk.command (mode : TileMode) {c : Command} (hc : c.FitsBytes) {rest : List UInt8}
    (hrest : IsChunk rest) : IsChunk (c.bytes mode ++ rest) := by
  cases c with
  | copy count src dest => exact .copy _ _ _ hrest
  | span row col pixels =>
    have hpixels : (copyRow mode (pixels.flatMap pixelBytes)).length =
        (UInt8.ofNat pixels.length).toNat * 4 := by
      rw [length_copyRow_pixels, UInt8.toNat_ofNat_of_lt' hc.2.1]
    rw [Command.bytes, List.append_assoc]
    show IsChunk (100 :: UInt8.ofNat row :: UInt8.ofNat col :: UInt8.ofNat pixels.length ::
      (copyRow mode (pixels.flatMap pixelBytes) ++ rest))
    exact .span _ _ _ hpixels hrest

/-- **What `makeDelta` sends is a chunk**, or nothing. -/
theorem isChunks_commandStream (mode : TileMode) {cmds : List Command}
    (hcmds : ∀ c ∈ cmds, c.FitsBytes) : IsChunks (commandStream mode cmds) := by
  by_cases hnil : cmds = []
  · exact ⟨[], by rw [commandStream, if_pos hnil]; rfl, by simp⟩
  · refine ⟨[commandStream mode cmds], by simp, ?_⟩
    rw [commandStream, if_neg hnil]
    intro c hc
    rw [List.mem_singleton.mp hc]
    clear hnil hc
    induction cmds with
    | nil => exact .terminate
    | cons cmd cmds ih =>
      rw [List.flatMap_cons, List.append_assoc]
      exact .command mode (hcmds cmd List.mem_cons_self)
        (ih fun c hc => hcmds c (List.mem_cons_of_mem _ hc))

/-! ## One chunk -/

theorem IsChunk.ne_nil {c : List UInt8} (hc : IsChunk c) : c ≠ [] := by
  cases hc with
  | terminate => exact List.cons_ne_nil _ _
  | copy => exact List.cons_ne_nil _ _
  | span => exact List.cons_ne_nil _ _

/-- The loop stops at the terminator, whatever follows. -/
theorem IsChunk.applyLoop {c : List UInt8} (hc : IsChunk c) (oldData : List UInt8) (width : Nat)
    (imgData : List UInt8) : ∃ img, ∀ (deltaLength fuel i : Nat) (rest : List UInt8), c.length ≤ fuel →
      applyLoop oldData width deltaLength fuel i (c ++ rest) imgData = ⟨some (i + c.length), img, false⟩ := by
  induction hc generalizing imgData with
  | terminate =>
    refine ⟨imgData, fun deltaLength fuel i rest hfuel => ?_⟩
    cases fuel with
    | zero => cases hfuel
    | succ fuel => rfl
  | copy count srcRow destRow hrest ih =>
    rename_i more
    obtain ⟨img, himg⟩ := ih (copyRowsData oldData srcRow.toNat destRow.toNat width count.toNat imgData)
    refine ⟨img, fun deltaLength fuel i rest hfuel => ?_⟩
    cases fuel with
    | zero => cases hfuel
    | succ fuel =>
      have hmore : more.length ≤ fuel := by
        simp only [List.length_cons] at hfuel
        omega
      have hrun := himg deltaLength fuel (i + 4) rest hmore
      rw [Nat.add_assoc, Nat.add_comm 4] at hrun
      exact hrun
  | span destRow destCol span hpixels hrest ih =>
    rename_i pixelData more
    obtain ⟨img, himg⟩ := ih (storeBytes (unpremultiply pixelData)
      (destRow.toNat * width * 4 + destCol.toNat * 4) (span.toNat * 4) imgData)
    refine ⟨img, fun deltaLength fuel i rest hfuel => ?_⟩
    cases fuel with
    | zero => cases hfuel
    | succ fuel =>
      have hmore : more.length ≤ fuel := by
        simp only [List.length_cons, List.length_append] at hfuel
        omega
      have htake : ((pixelData ++ more) ++ rest).take (span.toNat * 4) = pixelData := by
        rw [List.append_assoc, ← hpixels, List.take_left]
      have hdrop : ((pixelData ++ more) ++ rest).drop (span.toNat * 4) = more ++ rest := by
        rw [List.append_assoc, ← hpixels, List.drop_left]
      have hrun := himg deltaLength fuel (i + 4 + span.toNat * 4) rest hmore
      have hlength : i + (pixelData.length + more.length + 4) = i + 4 + span.toNat * 4 + more.length := by
        omega
      show Delta.applyLoop oldData width deltaLength fuel (i + 4 + span.toNat * 4)
        (((pixelData ++ more) ++ rest).drop (span.toNat * 4))
        (storeBytes (unpremultiply (((pixelData ++ more) ++ rest).take (span.toNat * 4)))
          (destRow.toNat * width * 4 + destCol.toNat * 4) (span.toNat * 4) imgData) = _
      rw [htake, hdrop, hrun, ← hlength]
      simp only [List.length_cons, List.length_append]

/-- The image that a chunk makes of another. -/
def chunkImage (width : Nat) (imgData chunk : List UInt8) : List UInt8 :=
  (applyDeltaChunk imgData chunk imgData width).imgData

/-- What follows a chunk does not matter for it. -/
theorem IsChunk.applyDeltaChunk_append {c : List UInt8} (hc : IsChunk c) (width : Nat)
    (imgData rest : List UInt8) : applyDeltaChunk imgData (c ++ rest) imgData width =
      ⟨some c.length, chunkImage width imgData c, false⟩ := by
  obtain ⟨img, himg⟩ := hc.applyLoop imgData width imgData
  have halone := himg c.length (c.length + 1) 0 [] (Nat.le_succ _)
  rw [List.append_nil] at halone
  rw [chunkImage, applyDeltaChunk, applyDeltaChunk, halone, himg _ _ _ _ ?_, Nat.zero_add]
  rw [List.length_append]
  omega

/-! ## A stream of chunks -/

/-- Chunk by chunk. -/
theorem applyChunks_flatten (width : Nat) {cs : List (List UInt8)} (hcs : ∀ c ∈ cs, IsChunk c)
    {fuel : Nat} (hfuel : cs.flatten.length ≤ fuel) (imgData : List UInt8) :
    applyChunks width fuel cs.flatten imgData = cs.foldl (chunkImage width) imgData := by
  induction cs generalizing fuel imgData with
  | nil =>
    cases fuel with
    | zero => rfl
    | succ fuel => rfl
  | cons c cs ih =>
    have hc := hcs c List.mem_cons_self
    have hpos := List.length_pos_iff.mpr hc.ne_nil
    rw [List.flatten_cons, List.length_append] at hfuel
    cases fuel with
    | zero => omega
    | succ fuel =>
      have hstep : ∀ delta chunk len, delta ≠ [] →
          applyDeltaChunk imgData delta imgData width = chunk → chunk.consumed = some len →
          applyChunks width (fuel + 1) delta imgData =
            applyChunks width fuel (delta.drop len) chunk.imgData := by
        intro delta chunk len hdelta hchunk hlen
        cases delta with
        | nil => exact absurd rfl hdelta
        | cons b bs =>
          rw [applyChunks, hchunk]
          · simp only [hlen]
          · intro hnil
            cases hnil
      rw [List.flatten_cons, hstep _ _ _ (List.append_ne_nil_of_left_ne_nil hc.ne_nil _)
        (hc.applyDeltaChunk_append _ _ _) rfl]
      rw [List.drop_left, List.foldl_cons]
      exact ih (fun c' hc' => hcs c' (List.mem_cons_of_mem _ hc')) (by omega) _

/-- A stream may be cut between deltas. -/
theorem applyChunks_append (width : Nat) {as bs : List UInt8} (ha : IsChunks as) (hb : IsChunks bs)
    {fuel : Nat} (hfuel : (as ++ bs).length ≤ fuel) (imgData : List UInt8) :
    applyChunks width fuel (as ++ bs) imgData =
      applyChunks width bs.length bs (applyChunks width as.length as imgData) := by
  obtain ⟨cs, rfl, hcs⟩ := ha
  obtain ⟨cs', rfl, hcs'⟩ := hb
  have hall : ∀ c ∈ cs ++ cs', IsChunk c := by
    intro c hc
    rcases List.mem_append.mp hc with hc | hc
    · exact hcs c hc
    · exact hcs' c hc
  rw [← List.flatten_append] at hfuel ⊢
  rw [applyChunks_flatten width hall hfuel, applyChunks_flatten width hcs (Nat.le_refl _),
    applyChunks_flatten width hcs' (Nat.le_refl _), List.foldl_append]

/-! ## Keyframes and deltas behind them -/

section Stream

variable (decompress : List UInt8 → Option (List UInt8)) (size : Nat)

/-- Compressed frames, one behind the other, decompress to what they decompress to alone. -/
def Concatenates : Prop := ∀ {z z' x x' : List UInt8}, decompress z = some x →
  decompress z' = some x' → decompress (z ++ z') = some (x ++ x')

/-- A compressed keyframe of a tile of `size` by `size` pixels, and maybe deltas behind it. -/
def IsKeyframe (raw : List UInt8) : Prop :=
  raw ≠ [] ∧ ∃ pixels chunks, decompress raw = some (pixels ++ chunks) ∧
    pixels.length = size * size * 4 ∧ IsChunks chunks

/-- Compressed deltas, or none. -/
def IsDelta (raw : List UInt8) : Prop :=
  raw ≠ [] → ∃ chunks, decompress raw = some chunks ∧ IsChunks chunks

/-- The image of a keyframe with what is behind it. -/
def keyframeImage (raw : List UInt8) : Option (List UInt8) :=
  applyDelta decompress size size none raw true

/-- The image of a keyframe after every delta of a list, one by one. -/
def picture (keyframe : List UInt8) (deltas : List (List UInt8)) : Option (List UInt8) :=
  deltas.foldl (fun imgData delta => applyDelta decompress size size imgData delta false)
    (keyframeImage decompress size keyframe)

variable {decompress size}

theorem applyDelta_nil (imgData : Option (List UInt8)) :
    applyDelta decompress size size imgData [] false = imgData := by
  unfold applyDelta
  exact if_pos ⟨rfl, rfl⟩

theorem applyDelta_delta {delta allDeltas : List UInt8} (hne : delta ≠ [])
    (hdelta : decompress delta = some allDeltas) (imgData : List UInt8) :
    applyDelta decompress size size (some imgData) delta false =
      some (applyChunks size allDeltas.length allDeltas imgData) := by
  unfold applyDelta
  rw [if_neg (fun h => hne h.1), hdelta]

/-- A keyframe has an image. -/
theorem keyframeImage_eq {raw pixels chunks : List UInt8}
    (hraw : decompress raw = some (pixels ++ chunks)) (hlen : pixels.length = size * size * 4)
    (hchunks : IsChunks chunks) : keyframeImage decompress size raw =
      some (applyChunks size chunks.length chunks (unpremultiply pixels)) := by
  have hfuel : chunks.length ≤ (pixels ++ chunks).length := by
    rw [List.length_append]
    exact Nat.le_add_left _ _
  obtain ⟨cs, rfl, hcs⟩ := hchunks
  unfold keyframeImage applyDelta
  rw [if_neg (fun h => nomatch h.2), hraw]
  dsimp only
  rw [← hlen, List.take_left, List.drop_left, applyChunks_flatten size hcs hfuel,
    applyChunks_flatten size hcs (Nat.le_refl _)]

variable (hdecompress : Concatenates decompress)
include hdecompress

theorem IsKeyframe.append {raw delta : List UInt8} (hraw : IsKeyframe decompress size raw)
    (hdelta : IsDelta decompress delta) : IsKeyframe decompress size (raw ++ delta) := by
  by_cases hnil : delta = []
  · rw [hnil, List.append_nil]
    exact hraw
  · obtain ⟨hne, pixels, chunks, hpixels, hlen, hchunks⟩ := hraw
    obtain ⟨chunks', hdelta, hchunks'⟩ := hdelta hnil
    refine ⟨List.append_ne_nil_of_left_ne_nil hne _, pixels, chunks ++ chunks', ?_, hlen,
      hchunks.append hchunks'⟩
    rw [hdecompress hpixels hdelta, List.append_assoc]

theorem IsDelta.append {as bs : List UInt8} (ha : IsDelta decompress as) (hb : IsDelta decompress bs) :
    IsDelta decompress (as ++ bs) := by
  intro hne
  by_cases hnil : as = []
  · rw [hnil, List.nil_append] at hne ⊢
    exact hb hne
  · obtain ⟨chunks, has, hchunks⟩ := ha hnil
    by_cases hnil' : bs = []
    · rw [hnil', List.append_nil]
      exact ⟨chunks, has, hchunks⟩
    · obtain ⟨chunks', hbs, hchunks'⟩ := hb hnil'
      exact ⟨chunks ++ chunks', hdecompress has hbs, hchunks.append hchunks'⟩

theorem IsDelta.flatten {deltas : List (List UInt8)} (hdeltas : ∀ d ∈ deltas, IsDelta decompress d) :
    IsDelta decompress deltas.flatten := by
  induction deltas with
  | nil => exact fun hne => absurd rfl hne
  | cons d deltas ih =>
    rw [List.flatten_cons]
    exact .append hdecompress (hdeltas d List.mem_cons_self)
      (ih fun d' hd' => hdeltas d' (List.mem_cons_of_mem d hd'))

/-- **A delta behind a keyframe** makes the image that it makes of the image of the keyframe. -/
theorem IsKeyframe.image_append {raw delta : List UInt8} (hraw : IsKeyframe decompress size raw)
    (hdelta : IsDelta decompress delta) : keyframeImage decompress size (raw ++ delta) =
      applyDelta decompress size size (keyframeImage decompress size raw) delta false := by
  by_cases hnil : delta = []
  · rw [hnil, List.append_nil, applyDelta_nil]
  · obtain ⟨-, pixels, chunks, hpixels, hlen, hchunks⟩ := hraw
    obtain ⟨chunks', hdelta, hchunks'⟩ := hdelta hnil
    have hboth := hdecompress hpixels hdelta
    rw [List.append_assoc] at hboth
    rw [keyframeImage_eq hpixels hlen hchunks, keyframeImage_eq hboth hlen (hchunks.append hchunks'),
      applyDelta_delta hnil hdelta, applyChunks_append size hchunks hchunks' (Nat.le_refl _)]

/-- **Replaying a keyframe and the deltas behind it** makes the image that they make one by one. -/
theorem IsKeyframe.image_flatten {keyframe : List UInt8} (hkeyframe : IsKeyframe decompress size keyframe)
    {deltas : List (List UInt8)} (hdeltas : ∀ d ∈ deltas, IsDelta decompress d) :
    IsKeyframe decompress size (keyframe ++ deltas.flatten) ∧
      keyframeImage decompress size (keyframe ++ deltas.flatten) =
        picture decompress size keyframe deltas := by
  induction deltas using List.reverseRecOn with
  | nil =>
    rw [List.flatten_nil, List.append_nil]
    exact ⟨hkeyframe, rfl⟩
  | append_singleton deltas delta ih =>
    obtain ⟨hraw, himage⟩ := ih fun d hd => hdeltas d (List.mem_append_left _ hd)
    have hdelta := hdeltas delta (List.mem_append_right _ (List.mem_singleton_self _))
    rw [List.flatten_append, List.flatten_singleton, ← List.append_assoc]
    refine ⟨hraw.append hdecompress hdelta, ?_⟩
    rw [hraw.image_append hdecompress hdelta, himage, picture, picture, List.foldl_append]
    rfl

end Stream

end Oxool.Delta
