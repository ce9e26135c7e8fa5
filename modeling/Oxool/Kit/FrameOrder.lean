import Oxool.Delta.Chunks
import Oxool.Kit.Chain

/-!
# The frames of a tile, in order

While the kit has not used up its wire ids, the frames of a tile have rising ones, although the tiles of a
request are done in any order. A receiver that has only the frames up to some moment has, from the last
keyframe among them on, what shows the picture painted last up to then (`FramesInOrder.prefixes`), be the moment
between two requests or within one. As the bodies of these frames are compressed streams, they can be put
one behind the other: they are a keyframe with deltas, of which the browser makes that picture at one go
(`FramesInOrder.chain_image`).
-/

set_option autoImplicit false

namespace Oxool.Kit

open Oxool.Delta

/-! ## What a frame is -/

/-- Of a tile that is no preview a frame is a keyframe of its window, or a delta. -/
def Rendered.Framed (compress : List UInt8 → Option (List UInt8)) (mode : TileMode) (r : Rendered) :
    Prop :=
  r.desc.isPreview = false → r.data = keyframe compress mode r.window.rows ∨ r.data.head? = some 68

/-- The frames of one tile have rising wire ids. -/
def Rising (rendered : List Rendered) : Prop :=
  rendered.Pairwise fun q r => q.desc.cacheKey = r.desc.cacheKey → q.desc.wireId < r.desc.wireId

/-- What holds of the kit while it has wire ids left and each delta meets its own picture. -/
structure FramesInOrder (hasAVX2 : Bool) (compress decompress readPng : List UInt8 → Option (List UInt8))
    (mode : TileMode) (s : State) : Prop extends Inv hasAVX2 compress decompress readPng mode s where
  prefixes : ∀ earlier, earlier <+: s.rendered → ChainsDecode decompress readPng mode earlier
  framed : ∀ r ∈ s.rendered, r.Framed compress mode
  rising : Rising s.rendered
  positive : ∀ r ∈ s.rendered, 0 < r.desc.wireId
  given : ∀ r ∈ s.rendered, r.desc.wireId ≤ s.nextId

section Step

variable {hasAVX2 : Bool} {compress decompress readPng : List UInt8 → Option (List UInt8)}
  {writePng : Nat → Nat → List UInt8 → List UInt8} {mode : TileMode}

theorem head?_makeDelta {prev cur : DeltaData} {data : List UInt8}
    (h : makeDelta compress prev cur mode = some data) : data.head? = some 68 := by
  rw [makeDelta] at h
  split at h
  · cases h
  · rw [← Option.some.inj h]
    rfl
  · obtain ⟨z, -, rfl⟩ := Option.map_eq_some_iff.mp h
    rfl

variable (hasAVX2 compress writePng mode) in
theorem framed_encodeTile (t : TileDesc) (w : Window) (canonicalViewId : Nat) (wireId : UInt32)
    (s : State) : ∃ data, (encodeTile hasAVX2 compress writePng mode t w canonicalViewId wireId s).rendered =
      s.rendered ++ [Rendered.new t w wireId data] ∧ (Rendered.new t w wireId data).Framed compress mode := by
  rw [encodeTile]
  cases hpre : t.isPreview with
  | true =>
    refine ⟨_, rfl, fun hno => ?_⟩
    have hno : t.isPreview = false := hno
    rw [hpre] at hno
    cases hno
  | false =>
    rcases DeltaGenerator.compressOrDelta_cases hasAVX2 compress mode w (tileLocation t canonicalViewId)
      wireId t.wantsKeyframe s.deltaGen with ⟨-, heq⟩ | ⟨_, data, heq, hdata | ⟨e, -, -, -, -, hmake⟩⟩
    · rw [if_neg Bool.false_ne_true, heq]
      exact ⟨_, rfl, fun _ => .inl rfl⟩
    · rw [if_neg Bool.false_ne_true, heq]
      exact ⟨_, rfl, fun _ => .inl hdata⟩
    · rw [if_neg Bool.false_ne_true, heq]
      exact ⟨_, rfl, fun _ => .inr (head?_makeDelta hmake)⟩

/-! ## The tiles of a request -/

section Tiles

variable (hasAVX2 compress writePng mode) (r : Render) (s : State)

/-- The kit after some tiles of a request. -/
def encodeTiles (l : List (Fin r.combined.tiles.length)) : State :=
  l.foldl (fun s' i => encodeTile hasAVX2 compress writePng mode (r.tile i) (r.window i)
    r.combined.params.normalizedViewId (s.nextId + UInt32.ofNat (i + 1)) s') s

/-- A frame of one of the tiles, with the wire id that the tile has by its place. -/
structure FrameOf (l : List (Fin r.combined.tiles.length)) (f : Rendered) : Prop where
  framed : f.Framed compress mode
  tile : ∃ i ∈ l, f.desc.cacheKey = (r.tile i).cacheKey ∧ f.desc.wireId = s.nextId + UInt32.ofNat (i + 1)

end Tiles

variable {r : Render} {s : State} {l : List (Fin r.combined.tiles.length)}

theorem encodeTiles_concat (i : Fin r.combined.tiles.length) :
    encodeTiles hasAVX2 compress writePng mode r s (l ++ [i]) =
      encodeTile hasAVX2 compress writePng mode (r.tile i) (r.window i)
        r.combined.params.normalizedViewId (s.nextId + UInt32.ofNat (i + 1))
        (encodeTiles hasAVX2 compress writePng mode r s l) := by
  rw [encodeTiles, List.foldl_append]
  rfl

variable (hasAVX2 compress writePng mode s) in
/-- **The frames of a request** are of tiles with different keys. -/
theorem rendered_encodeTiles (hnodup : l.Nodup) :
    ∃ frames, (encodeTiles hasAVX2 compress writePng mode r s l).rendered = s.rendered ++ frames ∧
      (∀ f ∈ frames, FrameOf compress mode r s l f) ∧
      frames.Pairwise fun q f => q.desc.cacheKey ≠ f.desc.cacheKey := by
  induction l using List.reverseRecOn with
  | nil => exact ⟨[], (List.append_nil _).symm, by simp, List.Pairwise.nil⟩
  | append_singleton l i ih =>
    obtain ⟨hl, -, hi⟩ := List.nodup_append.mp hnodup
    obtain ⟨frames, hframes, hof, hkeys⟩ := ih hl
    rw [encodeTiles_concat]
    obtain ⟨data, hdata, hframed⟩ := framed_encodeTile hasAVX2 compress writePng mode
      (r.tile i) (r.window i) r.combined.params.normalizedViewId
      (s.nextId + UInt32.ofNat (i + 1)) (encodeTiles hasAVX2 compress writePng mode r s l)
    refine ⟨frames ++ [Rendered.new (r.tile i) (r.window i) (s.nextId + UInt32.ofNat (i + 1)) data], ?_, ?_,
      ?_⟩
    · rw [hdata, hframes, List.append_assoc]
    · intro f hf
      rcases List.mem_append.mp hf with hf | hf
      · obtain ⟨hframed, j, hj, htile⟩ := hof f hf
        exact ⟨hframed, j, List.mem_append_left _ hj, htile⟩
      · rw [List.mem_singleton.mp hf]
        exact ⟨hframed, i, List.mem_append_right _ (List.mem_singleton_self i), rfl, rfl⟩
    · refine List.pairwise_append.mpr ⟨hkeys, List.pairwise_singleton _ _, fun q hq f hf heq => ?_⟩
      obtain ⟨-, j, hj, hkey, -⟩ := hof q hq
      rw [List.mem_singleton.mp hf] at heq
      have hsame : (r.tile j).cacheKey = (r.tile i).cacheKey := hkey.symm.trans heq
      have hpos := ((TileDesc.cacheKey_eq_iff _ _).mp hsame).2
      refine r.pos_ne (hi j hj i (List.mem_singleton_self i)) ?_
      rw [hpos.1, hpos.2]

/-- What is there at some moment of a request is what is there after some of its tiles. -/
theorem prefix_encodeTiles {earlier : List Rendered}
    (h : earlier <+: (encodeTiles hasAVX2 compress writePng mode r s l).rendered) :
    earlier <+: s.rendered ∨
      ∃ k, earlier = (encodeTiles hasAVX2 compress writePng mode r s (l.take k)).rendered := by
  induction l using List.reverseRecOn with
  | nil => exact .inl h
  | append_singleton l i ih =>
    have hwhole : ∀ k ≤ l.length, (l ++ [i]).take k = l.take k :=
      fun k hk => List.take_append_of_le_length hk
    obtain ⟨data, hdata, -⟩ := framed_encodeTile hasAVX2 compress writePng mode
      (r.tile i) (r.window i) r.combined.params.normalizedViewId
      (s.nextId + UInt32.ofNat (i + 1)) (encodeTiles hasAVX2 compress writePng mode r s l)
    rw [encodeTiles_concat, hdata] at h
    rcases List.prefix_concat_iff.mp h with heq | hbefore
    · refine .inr ⟨(l ++ [i]).length, ?_⟩
      rw [List.take_length, encodeTiles_concat, hdata, heq]
    · rcases ih hbefore with hold | ⟨k, hk⟩
      · exact .inl hold
      · refine .inr ⟨min k l.length, ?_⟩
        rw [hwhole _ (Nat.min_le_right _ _), ← List.take_take, List.take_length]
        exact hk

/-- While there are wire ids left, those of a request are above those given before. -/
theorem lt_add_ofNat {nextId : UInt32} {n i : Nat} (hi : i < n) (hroom : nextId.toNat + n < UInt32.size) :
    nextId < nextId + UInt32.ofNat (i + 1) ∧
      nextId + UInt32.ofNat (i + 1) ≤ nextId + UInt32.ofNat n := by
  have hnat : ∀ m ≤ n, (nextId + UInt32.ofNat m).toNat = nextId.toNat + m := by
    intro m hm
    rw [UInt32.toNat_add, UInt32.toNat_ofNat_of_lt' (by omega), Nat.mod_eq_of_lt]
    exact Nat.lt_of_le_of_lt (Nat.add_le_add_left hm _) hroom
  constructor
  · rw [UInt32.lt_iff_toNat_lt, hnat _ hi]
    omega
  · rw [UInt32.le_iff_toNat_le, hnat _ hi, hnat n (Nat.le_refl n)]
    omega

/-- Forgetting pictures changes no frame. -/
theorem FramesInOrder.forget (h : FramesInOrder hasAVX2 compress decompress readPng mode s) {g : DeltaGenerator}
    (hg : ∀ loc e, g.find loc = some e → s.deltaGen.find loc = some e) :
    FramesInOrder hasAVX2 compress decompress readPng mode { s with deltaGen := g } :=
  { h with toInv := h.toInv.forget hg }

/-- **One request.** -/
theorem FramesInOrder.renderTiles (hz : Lossless compress decompress)
    (hpng : ∀ w h rgba, readPng (writePng w h rgba) = some rgba)
    (hsig : ∀ w h rgba, (writePng w h rgba).head? = some 0x89)
    (h : FramesInOrder hasAVX2 compress decompress readPng mode s) (hown : OwnImages s (.render r))
    (hroom : s.nextId.toNat + r.combined.tiles.length < UInt32.size) :
    FramesInOrder hasAVX2 compress decompress readPng mode
      (Kit.renderTiles hasAVX2 compress writePng mode r s) := by
  have hinv : Inv hasAVX2 compress decompress readPng mode
      (Kit.renderTiles hasAVX2 compress writePng mode r s) := renderTiles_inv hz hpng hsig h.toInv hown
  rw [Kit.renderTiles] at hinv ⊢
  cases hfind : r.sessions.find? (· = r.combined.params.normalizedViewId) with
  | none => exact h
  | some id =>
    obtain rfl : id = r.combined.params.normalizedViewId := by simpa using List.find?_some hfind
    have htiles := hown (List.mem_of_find?_eq_some hfind)
    rw [hfind] at hinv
    simp only [doRender] at hinv ⊢
    split at hinv
    · rename_i hnone
      rw [if_pos hnone]
      exact h
    · rename_i hsome
      rw [if_neg hsome]
      have hnodup : r.order.Nodup := r.scheduled.nodup_iff.mpr (List.nodup_finRange _)
      obtain ⟨frames, hframes, hof, hkeys⟩ := rendered_encodeTiles hasAVX2 compress
        writePng mode s hnodup
      have hlater : ∀ f ∈ frames, s.nextId < f.desc.wireId ∧
          f.desc.wireId ≤ s.nextId + UInt32.ofNat r.combined.tiles.length := by
        intro f hf
        obtain ⟨-, i, -, -, hid⟩ := hof f hf
        rw [hid]
        exact lt_add_ofNat i.isLt hroom
      have hmem : ∀ f, f ∈ (encodeTiles hasAVX2 compress writePng mode r s r.order).rendered →
          f ∈ s.rendered ∨ f ∈ frames := by
        intro f hf
        rw [hframes] at hf
        exact List.mem_append.mp hf
      refine ⟨hinv, fun earlier hearlier => ?_, fun f hf => ?_, ?_, fun f hf => ?_, fun f hf => ?_⟩
      · rcases prefix_encodeTiles hearlier with hold | ⟨k, rfl⟩
        · exact h.prefixes earlier hold
        · exact (foldl_encodeTile_inv hz hpng hsig r s.nextId (hnodup.sublist (List.take_sublist _ _))
            h.toInv fun i _ => htiles _ (List.getElem_mem i.isLt)).chains
      · rcases hmem f hf with hf | hf
        · exact h.framed f hf
        · exact (hof f hf).framed
      · show Rising (encodeTiles hasAVX2 compress writePng mode r s r.order).rendered
        rw [hframes]
        refine List.pairwise_append.mpr ⟨h.rising, hkeys.imp fun hne heq => absurd heq hne, ?_⟩
        exact fun q hq f hf _ => UInt32.lt_of_le_of_lt (h.given q hq) (hlater f hf).1
      · rcases hmem f hf with hf | hf
        · exact h.positive f hf
        · exact UInt32.lt_of_le_of_lt UInt32.zero_le (hlater f hf).1
      · rcases hmem f hf with hf | hf
        · have hgrow := lt_add_ofNat (i := 0) (List.length_pos_iff.mpr hsome) hroom
          exact UInt32.le_trans (h.given f hf) (UInt32.le_trans (UInt32.le_of_lt hgrow.1) hgrow.2)
        · exact (hlater f hf).2

end Step

/-! ## What a receiver makes of them -/

/-- The bodies of the frames of a tile, from the last keyframe on. -/
def bodiesOf (key : CacheKey) (rendered : List Rendered) : List (List UInt8) :=
  (sinceKeyframe (framesOf key rendered)).map (·.drop 1)

theorem bodiesOf_of_ne {key : CacheKey} (rendered : List Rendered) {r : Rendered}
    (h : r.desc.cacheKey ≠ key) : bodiesOf key (rendered ++ [r]) = bodiesOf key rendered := by
  rw [bodiesOf, framesOf_concat, if_neg h, List.append_nil, ← bodiesOf]

theorem bodiesOf_keyframe (rendered : List Rendered) {r : Rendered} (h : isKeyframe r.data = true) :
    bodiesOf r.desc.cacheKey (rendered ++ [r]) = [r.data.drop 1] := by
  rw [bodiesOf, framesOf_concat, if_pos rfl, sinceKeyframe_concat, if_pos h]
  rfl

theorem bodiesOf_delta (rendered : List Rendered) {r : Rendered} (h : isKeyframe r.data = false) :
    bodiesOf r.desc.cacheKey (rendered ++ [r]) = bodiesOf r.desc.cacheKey rendered ++ [r.data.drop 1] := by
  rw [bodiesOf, framesOf_concat, if_pos rfl, sinceKeyframe_concat, h, if_neg Bool.false_ne_true,
    List.map_append, ← bodiesOf]
  rfl

theorem mem_of_mem_sinceKeyframe {frames : List (List UInt8)} {data : List UInt8}
    (h : data ∈ sinceKeyframe frames) : data ∈ frames := by
  induction frames using List.reverseRecOn with
  | nil => exact h
  | append_singleton frames last ih =>
    rw [sinceKeyframe_concat] at h
    split at h
    · exact List.mem_append_right _ h
    · rcases List.mem_append.mp h with h | h
      · exact List.mem_append_left _ (ih h)
      · exact List.mem_append_right _ h

/-- Behind the first of them there is no keyframe. -/
theorem isKeyframe_of_mem_tail (frames : List (List UInt8)) {data : List UInt8}
    (h : data ∈ (sinceKeyframe frames).tail) : isKeyframe data = false := by
  induction frames using List.reverseRecOn with
  | nil => simp [sinceKeyframe] at h
  | append_singleton frames last ih =>
    rw [sinceKeyframe_concat] at h
    split at h
    · simp at h
    · rename_i hlast
      cases hchain : sinceKeyframe frames with
      | nil => simp [hchain] at h
      | cons first rest =>
        rw [hchain, List.cons_append, List.tail_cons] at h
        rcases List.mem_append.mp h with h | h
        · exact ih (by rw [hchain]; exact h)
        · rw [List.mem_singleton.mp h]
          simpa using hlast

section Chain

variable {hasAVX2 : Bool} {compress decompress readPng : List UInt8 → Option (List UInt8)}
  {mode : TileMode} {s : State} {size : Nat}

/-- The body of a keyframe. -/
theorem isKeyframe_body (hz : Lossless compress decompress) {r : Rendered} (hw : r.window.width = size)
    (hh : r.window.height = size) (hdata : r.data = keyframe compress mode r.window.rows) :
    ∃ z, r.data = 90 :: z ∧ IsKeyframe decompress size z := by
  obtain ⟨z, hne, hcompress, hdecompress⟩ := hz (keyframeBytes mode r.window.rows)
  refine ⟨z, by rw [hdata, keyframe, hcompress], hne, keyframeBytes mode r.window.rows, [], ?_, ?_, ?_⟩
  · rw [List.append_nil]
    exact hdecompress
  · have hframe := r.window.frame
    rw [hw, hh] at hframe
    exact length_keyframeBytes hframe
  · exact ⟨[], rfl, by simp⟩

/-- The body of a delta. -/
theorem Inv.isDelta_body (hz : Lossless compress decompress)
    (h : Inv hasAVX2 compress decompress readPng mode s) {r : Rendered} (hr : r ∈ s.rendered)
    (hdelta : r.data.head? = some 68) : IsDelta decompress (r.data.drop 1) := by
  obtain ⟨earlier, later, heq⟩ := List.append_of_mem hr
  obtain ⟨q, hq, hfitsq, hfits, hmake⟩ := h.deltas earlier r later heq hdelta
  have hkey : q.desc.cacheKey = r.desc.cacheKey := by simpa using of_findRev?_eq_some hq
  have hqmem : q ∈ s.rendered := by
    rw [heq]
    exact List.mem_append_left _ (mem_of_findRev?_eq_some hq)
  have hparams := ((TileDesc.cacheKey_eq_iff _ _).mp hkey).1
  simp only [TileDesc.combineParams, CombineParams.mk.injEq] at hparams
  have hw : (q.window.tile hfitsq).width = (r.window.tile hfits).width := by
    show q.window.width = r.window.width
    rw [(h.sizes q hqmem).1, (h.sizes r hr).1, hparams.2.2.1]
  have hh : (q.window.tile hfitsq).height = (r.window.tile hfits).height := by
    show q.window.height = r.window.height
    rw [(h.sizes q hqmem).2, (h.sizes r hr).2, hparams.2.2.2.1]
  obtain ⟨cmds, hstream, hvalid, -, -⟩ := deltaStream_commands hasAVX2 q.desc.wireId r.desc.wireId mode hw hh
  have hchunks : IsChunks (commandStream mode cmds) := isChunks_commandStream mode fun c hc =>
    (hvalid c hc).fitsBytes (q.window.tile hfitsq).width_le (q.window.tile hfitsq).height_le
  rw [makeDelta_commandStream hstream, ← commandStream] at hmake
  intro hne
  split at hmake
  · -- nothing changed
    rw [← Option.some.inj hmake] at hne
    exact absurd rfl hne
  · obtain ⟨z, -, hcompress, hdecompress⟩ := hz (commandStream mode cmds)
    rw [hcompress, Option.map_some] at hmake
    rw [← Option.some.inj hmake]
    exact ⟨_, hdecompress, hchunks⟩

/-- Deltas alone show nothing. -/
theorem decode_deltas {w h : Nat} {frames : List (List UInt8)} (hdeltas : ∀ d ∈ frames, d.head? = some 68) :
    decode decompress readPng w h frames = none := by
  induction frames with
  | nil => rfl
  | cons d frames ih =>
    have hd := hdeltas d List.mem_cons_self
    have hnone : decodeFrame decompress readPng w h none d = none := by
      cases d with
      | nil => rfl
      | cons b z =>
        rw [List.head?_cons, Option.some.injEq] at hd
        rw [hd]
        show applyDelta decompress w h none z false = none
        unfold applyDelta
        split
        · rfl
        · cases decompress z with
          | none => rfl
          | some allDeltas => rfl
    rw [decode, List.foldl_cons, hnone]
    exact ih fun d' hd' => hdeltas d' (List.mem_cons_of_mem d hd')

/-- Deltas are taken in one by one. -/
theorem foldl_decodeFrame_deltas {frames : List (List UInt8)} (hdeltas : ∀ d ∈ frames, d.head? = some 68)
    (imgData : Option (List UInt8)) : frames.foldl (decodeFrame decompress readPng size size) imgData =
      (frames.map (·.drop 1)).foldl (fun imgData delta => applyDelta decompress size size imgData delta false)
        imgData := by
  induction frames generalizing imgData with
  | nil => rfl
  | cons d frames ih =>
    have hd := hdeltas d List.mem_cons_self
    have hone : decodeFrame decompress readPng size size imgData d =
        applyDelta decompress size size imgData (d.drop 1) false := by
      cases d with
      | nil => cases hd
      | cons b z =>
        rw [List.head?_cons, Option.some.injEq] at hd
        rw [hd]
        rfl
    rw [List.map_cons, List.foldl_cons, List.foldl_cons, hone]
    exact ih (fun d' hd' => hdeltas d' (List.mem_cons_of_mem d hd')) _

/-- What the frames of a tile that is no preview are. -/
theorem FramesInOrder.frame_cases (hz : Lossless compress decompress)
    (h : FramesInOrder hasAVX2 compress decompress readPng mode s) {key : CacheKey} (hw : key.width = size)
    (hh : key.height = size)
    (hplain : ∀ r ∈ s.rendered, r.desc.cacheKey = key → r.desc.isPreview = false)
    {earlier : List Rendered} (hearlier : earlier <+: s.rendered) {data : List UInt8}
    (hdata : data ∈ framesOf key earlier) : (∃ z, data = 90 :: z ∧ IsKeyframe decompress size z) ∨
      (data.head? = some 68 ∧ IsDelta decompress (data.drop 1)) := by
  obtain ⟨r, hr, rfl⟩ := List.mem_map.mp hdata
  obtain ⟨hr, hkey⟩ := List.mem_filter.mp hr
  have hkey : r.desc.cacheKey = key := by simpa using hkey
  have hmem := hearlier.subset hr
  obtain ⟨hwidth, hheight⟩ := h.sizes r hmem
  rcases h.framed r hmem (hplain r hmem hkey) with hdata | hdelta
  · refine .inl (isKeyframe_body hz ?_ ?_ hdata)
    · rw [hwidth, ← hw, ← hkey]
      rfl
    · rw [hheight, ← hh, ← hkey]
      rfl
  · exact .inr ⟨hdelta, h.toInv.isDelta_body hz hmem hdelta⟩

/-- A tile that has frames was painted. -/
theorem exists_lastOf {key : CacheKey} {rendered : List Rendered} {data : List UInt8}
    (h : data ∈ framesOf key rendered) : ∃ r, lastOf key rendered = some r := by
  obtain ⟨r, hr, -⟩ := List.mem_map.mp h
  obtain ⟨hr, hkey⟩ := List.mem_filter.mp hr
  exact exists_findRev?_eq_some (p := fun r : Rendered => r.desc.cacheKey = key) hr hkey

/-- **The frames of a tile at some moment**, put one behind the other, are a keyframe with deltas, and its
image is the picture that was painted last for the tile. -/
theorem FramesInOrder.chain_image (hz : Lossless compress decompress) (hconcat : Concatenates decompress)
    (h : FramesInOrder hasAVX2 compress decompress readPng mode s) {key : CacheKey} (hw : key.width = size)
    (hh : key.height = size)
    (hplain : ∀ r ∈ s.rendered, r.desc.cacheKey = key → r.desc.isPreview = false)
    {earlier : List Rendered} (hearlier : earlier <+: s.rendered) (hne : bodiesOf key earlier ≠ []) :
    (∃ r, lastOf key earlier = some r ∧
      keyframeImage decompress size (bodiesOf key earlier).flatten = some (r.picture mode)) ∧
    IsKeyframe decompress size (bodiesOf key earlier).flatten ∧
      ∀ d ∈ (bodiesOf key earlier).tail, IsDelta decompress d := by
  cases hchain : sinceKeyframe (framesOf key earlier) with
  | nil => exact absurd (by rw [bodiesOf, hchain]; rfl) hne
  | cons first rest =>
    have hmem : ∀ data ∈ first :: rest, data ∈ framesOf key earlier := fun data hdata =>
      mem_of_mem_sinceKeyframe (by rw [hchain]; exact hdata)
    have hrest : ∀ data ∈ rest, data.head? = some 68 ∧ IsDelta decompress (data.drop 1) := by
      intro data hdata
      have hframe := hmem data (List.mem_cons_of_mem first hdata)
      rcases h.frame_cases hz hw hh hplain hearlier hframe with ⟨z, rfl, -⟩ | hdelta
      · exact absurd (isKeyframe_of_mem_tail (framesOf key earlier) (by rw [hchain]; exact hdata))
          (by simp [isKeyframe])
      · exact hdelta
    obtain ⟨r, hlast⟩ := exists_lastOf (hmem first List.mem_cons_self)
    have hdecode := h.prefixes earlier hearlier key r hlast
    rw [hchain, hw, hh] at hdecode
    have hfirst : ∃ z, first = 90 :: z ∧ IsKeyframe decompress size z := by
      rcases h.frame_cases hz hw hh hplain hearlier (hmem first List.mem_cons_self)
        with hkeyframe | ⟨hdelta, -⟩
      · exact hkeyframe
      · -- a chain that starts with a delta shows nothing
        rw [decode_deltas fun d hd => (List.mem_cons.mp hd).elim (fun hd => hd ▸ hdelta)
          fun hd => (hrest d hd).1] at hdecode
        cases hdecode
    obtain ⟨z, rfl, hkeyframe⟩ := hfirst
    have hbodies : bodiesOf key earlier = z :: rest.map (·.drop 1) := by
      rw [bodiesOf, hchain]
      rfl
    have hdeltas : ∀ d ∈ rest.map (·.drop 1), IsDelta decompress d := by
      intro d hd
      obtain ⟨data, hdata, rfl⟩ := List.mem_map.mp hd
      exact (hrest data hdata).2
    obtain ⟨hwhole, himage⟩ := hkeyframe.image_flatten hconcat hdeltas
    rw [hbodies, List.flatten_cons, List.tail_cons]
    refine ⟨⟨r, hlast, ?_⟩, hwhole, hdeltas⟩
    rw [himage, ← hdecode, decode, List.foldl_cons, foldl_decodeFrame_deltas fun d hd => (hrest d hd).1]
    rfl

end Chain

end Oxool.Kit
