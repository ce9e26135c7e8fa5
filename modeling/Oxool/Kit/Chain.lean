import Oxool.Kit.Render
import Oxool.Lib.Last
import Oxool.Lib.Run

/-!
# The chain of frames of a tile

The server and the clients follow a tile by its cache key, and append each delta to the chain of
that key. The kit makes a delta against the last picture at a `TileLocation`. The two agree as long
as no other key uses the location: the location has neither the edit mode nor the tile height, and
previews are sent under a key without passing through the kit's cache. `OwnImage` says that the
picture a delta is about to be made against is the last one of its own key, and `delta_chain` that
nothing else is needed for every chain to show the last picture.
-/

set_option autoImplicit false

namespace Oxool.Kit

open Oxool.Delta

/-! ## What the chains are -/

/-- The frames sent under a key, in order. -/
def framesOf (key : CacheKey) (rendered : List Rendered) : List (List UInt8) :=
  (rendered.filter fun r => r.desc.cacheKey = key).map Rendered.data

/-- The frames from the last keyframe on. -/
def sinceKeyframe (frames : List (List UInt8)) : List (List UInt8) :=
  frames.foldl (fun chain data => if isKeyframe data then [data] else chain ++ [data]) []

/-- The last frame sent under a key. -/
def lastOf (key : CacheKey) (rendered : List Rendered) : Option Rendered :=
  rendered.findRev? fun r => r.desc.cacheKey = key

/-- The picture that a frame is meant to show. -/
def Rendered.picture (mode : TileMode) (r : Rendered) : List UInt8 :=
  if r.desc.isPreview then pngImage mode r.window.rows else image mode r.window.rows

section Spec

variable (hasAVX2 : Bool) (compress decompress readPng : List UInt8 → Option (List UInt8))
  (mode : TileMode)

/-- For every key, its frames since the last keyframe show the last picture rendered for it. -/
def ChainsDecode (rendered : List Rendered) : Prop :=
  ∀ key r, lastOf key rendered = some r →
    decode decompress readPng key.width key.height (sinceKeyframe (framesOf key rendered)) =
      some (r.picture mode)

/-- Every delta was made against the picture rendered before it for the same key. -/
def DeltasFollow (rendered : List Rendered) : Prop :=
  ∀ earlier r later, rendered = earlier ++ r :: later → r.data.head? = some 68 →
    ∃ q, lastOf r.desc.cacheKey earlier = some q ∧
      ∃ (hq : q.window.Fits) (hr : r.window.Fits),
        makeDelta compress (DeltaData.new hasAVX2 q.desc.wireId (q.window.tile hq))
          (DeltaData.new hasAVX2 r.desc.wireId (r.window.tile hr)) mode = some r.data

end Spec

/-! ## What keeps them -/

/-- The location under which the kit's cache has the tile. `renderTiles` picks a session with the
tile's own view. -/
def location (t : TileDesc) : TileLocation := tileLocation t t.normalizedViewId

/-- The frame left its picture in the kit's cache. -/
def Rendered.remembered (r : Rendered) : Bool := !r.desc.isPreview && decide r.window.Fits

/-- The frame was sent under the tile's key, or left its picture at the tile's location. -/
def concerns (t : TileDesc) (r : Rendered) : Bool :=
  decide (r.desc.cacheKey = t.cacheKey) || (r.remembered && decide (location r.desc = location t))

/-- A rendering of the tile is going to be a delta: it is no preview, asks for no keyframe, and the
cache has a picture of its size at its location. -/
def makesDelta (s : State) (t : TileDesc) : Bool :=
  match s.deltaGen.find (location t) with
  | none => false
  | some e => !t.isPreview && !t.wantsKeyframe && e.width == t.width && e.height == t.height

/-- If the tile is going to be a delta, the picture in the cache is that of its own last frame: the
last frame that was of its key or at its location was of its key, and not a preview. -/
def OwnImage (s : State) (t : TileDesc) : Prop :=
  makesDelta s t = true → ∀ r ∈ s.rendered.findRev? (concerns t),
    r.desc.cacheKey = t.cacheKey ∧ r.desc.isPreview = false

instance (s : State) (t : TileDesc) : Decidable (OwnImage s t) :=
  inferInstanceAs (Decidable (_ → _))

/-- Every tile of a request that is going to be rendered meets its own picture. -/
def OwnImages (s : State) : Action → Prop
  | .render r => r.combined.params.normalizedViewId ∈ r.sessions →
      ∀ t ∈ r.combined.tiles, OwnImage s t
  | _ => True

instance (s : State) (a : Action) : Decidable (OwnImages s a) :=
  match a with
  | .render _ => inferInstanceAs (Decidable (_ → _))
  | .setSessionCount _ => .isTrue trivial
  | .dropCache => .isTrue trivial

/-! ## One more frame -/

theorem framesOf_concat (key : CacheKey) (rendered : List Rendered) (r : Rendered) :
    framesOf key (rendered ++ [r]) =
      framesOf key rendered ++ if r.desc.cacheKey = key then [r.data] else [] := by
  rw [framesOf, List.filter_append, List.map_append, ← framesOf, List.filter_singleton]
  by_cases h : r.desc.cacheKey = key <;> simp [h]

theorem lastOf_concat (key : CacheKey) (rendered : List Rendered) (r : Rendered) :
    lastOf key (rendered ++ [r]) =
      if r.desc.cacheKey = key then some r else lastOf key rendered := by
  rw [lastOf, findRev?_concat, lastOf]
  simp

theorem sinceKeyframe_concat (frames : List (List UInt8)) (data : List UInt8) :
    sinceKeyframe (frames ++ [data]) =
      if isKeyframe data then [data] else sinceKeyframe frames ++ [data] := by
  rw [sinceKeyframe, List.foldl_append, ← sinceKeyframe]
  rfl

section Step

variable {hasAVX2 : Bool} {compress decompress readPng : List UInt8 → Option (List UInt8)}
  {writePng : Nat → Nat → List UInt8 → List UInt8} {mode : TileMode} {rendered : List Rendered}
  {r : Rendered}

theorem ChainsDecode.concat (h : ChainsDecode decompress readPng mode rendered)
    (hr : decode decompress readPng r.desc.width r.desc.height
      (sinceKeyframe (framesOf r.desc.cacheKey rendered ++ [r.data])) = some (r.picture mode)) :
    ChainsDecode decompress readPng mode (rendered ++ [r]) := by
  intro key q hq
  rw [lastOf_concat] at hq
  rw [framesOf_concat]
  by_cases hkey : r.desc.cacheKey = key
  · rw [if_pos hkey, Option.some.injEq] at hq
    subst hq
    subst hkey
    rw [if_pos rfl]
    exact hr
  · rw [if_neg hkey] at hq
    rw [if_neg hkey, List.append_nil]
    exact h key q hq

/-- A keyframe starts its chain anew. -/
theorem ChainsDecode.keyframe (h : ChainsDecode decompress readPng mode rendered)
    (hkey : isKeyframe r.data = true)
    (hr : decodeFrame decompress readPng r.desc.width r.desc.height none r.data =
      some (r.picture mode)) :
    ChainsDecode decompress readPng mode (rendered ++ [r]) := by
  apply h.concat
  rw [sinceKeyframe_concat, if_pos hkey]
  exact hr

/-- A delta goes on from the last picture of its key. -/
theorem ChainsDecode.delta (h : ChainsDecode decompress readPng mode rendered) {q : Rendered}
    (hq : lastOf r.desc.cacheKey rendered = some q) (hkey : isKeyframe r.data = false)
    (hr : decodeFrame decompress readPng r.desc.width r.desc.height (some (q.picture mode)) r.data =
      some (r.picture mode)) :
    ChainsDecode decompress readPng mode (rendered ++ [r]) := by
  apply h.concat
  have hlast := h _ q hq
  rw [sinceKeyframe_concat, hkey, if_neg Bool.false_ne_true]
  simp only [decode, List.foldl_append, List.foldl_cons, List.foldl_nil] at hlast ⊢
  rw [← hr]
  congr 1

theorem DeltasFollow.concat (h : DeltasFollow hasAVX2 compress mode rendered)
    (hr : r.data.head? = some 68 → ∃ q, lastOf r.desc.cacheKey rendered = some q ∧
      ∃ (hq : q.window.Fits) (hr : r.window.Fits),
        makeDelta compress (DeltaData.new hasAVX2 q.desc.wireId (q.window.tile hq))
          (DeltaData.new hasAVX2 r.desc.wireId (r.window.tile hr)) mode = some r.data) :
    DeltasFollow hasAVX2 compress mode (rendered ++ [r]) := by
  intro earlier r' later heq hdelta
  rcases List.eq_nil_or_concat later with rfl | ⟨later, last, rfl⟩
  · obtain ⟨rfl, hlast⟩ := List.append_inj' heq rfl
    obtain rfl : r = r' := by simpa using hlast
    exact hr hdelta
  · have hinit : rendered ++ [r] = (earlier ++ r' :: later) ++ [last] := by simpa using heq
    obtain ⟨rfl, -⟩ := List.append_inj' hinit rfl
    exact h earlier r' later rfl hdelta

/-- The frame left its picture at the location. -/
def rememberedAt (loc : TileLocation) (r : Rendered) : Bool :=
  r.remembered && decide (location r.desc = loc)

/-- What every run of the kit keeps while each delta meets its own picture. -/
structure Inv (hasAVX2 : Bool) (compress decompress readPng : List UInt8 → Option (List UInt8))
    (mode : TileMode) (s : State) : Prop where
  /-- The cache has, at each location it knows, the last picture left there. -/
  entries : ∀ loc e, s.deltaGen.find loc = some e →
    ∃ r, s.rendered.findRev? (rememberedAt loc) = some r ∧
      ∃ h : r.window.Fits, e = DeltaData.new hasAVX2 r.desc.wireId (r.window.tile h)
  sizes : ∀ r ∈ s.rendered, r.window.width = r.desc.width ∧ r.window.height = r.desc.height
  chains : ChainsDecode decompress readPng mode s.rendered
  deltas : DeltasFollow hasAVX2 compress mode s.rendered

/-- The cache after a frame: a remembered picture is what its location now has. -/
theorem entries_concat {g g' : DeltaGenerator}
    (h : ∀ loc e, g.find loc = some e → ∃ q, rendered.findRev? (rememberedAt loc) = some q ∧
      ∃ hq : q.window.Fits, e = DeltaData.new hasAVX2 q.desc.wireId (q.window.tile hq))
    (hg : if hr : r.desc.isPreview = false ∧ r.window.Fits then
        g' = g.store (location r.desc) (DeltaData.new hasAVX2 r.desc.wireId (r.window.tile hr.2))
      else g' = g) :
    ∀ loc e, g'.find loc = some e → ∃ q, (rendered ++ [r]).findRev? (rememberedAt loc) = some q ∧
      ∃ hq : q.window.Fits, e = DeltaData.new hasAVX2 q.desc.wireId (q.window.tile hq) := by
  intro loc e he
  rw [findRev?_concat]
  by_cases hr : r.desc.isPreview = false ∧ r.window.Fits
  · rw [dif_pos hr] at hg
    rw [hg, DeltaGenerator.find_store] at he
    by_cases hloc : loc = location r.desc
    · rw [if_pos hloc, Option.some.injEq] at he
      have hat : rememberedAt loc r = true := by
        simp [rememberedAt, Rendered.remembered, hr.1, hr.2, hloc]
      rw [if_pos hat]
      exact ⟨r, rfl, hr.2, he.symm⟩
    · rw [if_neg hloc] at he
      have hat : rememberedAt loc r = false := by
        simp [rememberedAt, Ne.symm hloc]
      rw [hat, if_neg Bool.false_ne_true]
      exact h loc e he
  · rw [dif_neg hr] at hg
    have hat : rememberedAt loc r = false := by
      simp only [rememberedAt, Rendered.remembered, Bool.and_eq_false_iff, Bool.not_eq_false',
        decide_eq_false_iff_not]
      by_cases hpre : r.desc.isPreview = false
      · exact .inl (.inr fun hfits => hr ⟨hpre, hfits⟩)
      · exact .inl (.inl (by simpa using hpre))
    rw [hat, if_neg Bool.false_ne_true]
    exact h loc e (hg ▸ he)

/-- The picture a delta is made against is that of the last frame of the tile's key. -/
theorem OwnImage.last {s : State} (h : Inv hasAVX2 compress decompress readPng mode s) {t : TileDesc}
    (hown : OwnImage s t) (hdelta : makesDelta s t = true) {e : DeltaData}
    (he : s.deltaGen.find (location t) = some e) :
    ∃ q, lastOf t.cacheKey s.rendered = some q ∧ q.desc.isPreview = false ∧
      q.desc.width = t.width ∧ q.desc.height = t.height ∧
      ∃ hq : q.window.Fits, e = DeltaData.new hasAVX2 q.desc.wireId (q.window.tile hq) := by
  obtain ⟨r₀, hr₀, hfits₀, rfl⟩ := h.entries _ _ he
  have hat := of_findRev?_eq_some hr₀
  simp only [rememberedAt, Bool.and_eq_true, decide_eq_true_eq] at hat
  have hconcerns : concerns t r₀ = true := by simp [concerns, hat.1, hat.2]
  obtain ⟨q, hq⟩ := exists_findRev?_eq_some (mem_of_findRev?_eq_some hr₀) hconcerns
  obtain ⟨hkey, hpre⟩ := hown hdelta q hq
  have hkey' := (TileDesc.cacheKey_eq_iff q.desc t).mp hkey
  have hparams := hkey'.1
  simp only [TileDesc.combineParams, CombineParams.mk.injEq] at hparams
  -- the last frame that concerns the tile is of its key, so it is also the last one at its location
  have hlast : lastOf t.cacheKey s.rendered = some q :=
    findRev?_eq_some_of_imp hq (by simp [hkey]) fun b _ hb => by
      simp only [decide_eq_true_eq] at hb
      simp [concerns, hb]
  have hloc : location q.desc = location t := by
    simp only [location, tileLocation, TileLocation.mk.injEq]
    exact ⟨hkey'.2.1, hkey'.2.2, hparams.2.2.2.2.1, hparams.1, hparams.2.2.2.2.2.2⟩
  have hsize := h.sizes q (mem_of_findRev?_eq_some hq)
  have hsize₀ : (DeltaData.new hasAVX2 r₀.desc.wireId (r₀.window.tile hfits₀)).width = t.width ∧
      (DeltaData.new hasAVX2 r₀.desc.wireId (r₀.window.tile hfits₀)).height = t.height := by
    simp only [makesDelta, he, Bool.and_eq_true, beq_iff_eq] at hdelta
    exact ⟨hdelta.1.2, hdelta.2⟩
  have hfits : q.window.Fits := by
    obtain ⟨heven, hwle, hhle⟩ := hfits₀
    have h1 : r₀.window.width = t.width := hsize₀.1
    have h2 : r₀.window.height = t.height := hsize₀.2
    rw [Window.Fits, hsize.1, hsize.2, hparams.2.2.1, hparams.2.2.2.1, ← h1, ← h2]
    exact ⟨heven, hwle, hhle⟩
  have hqat : rememberedAt (location t) q = true := by
    simp [rememberedAt, Rendered.remembered, hpre, hfits, hloc]
  have hsame : s.rendered.findRev? (rememberedAt (location t)) = some q :=
    findRev?_eq_some_of_imp hq hqat fun b _ hb => by
      simp only [rememberedAt, Bool.and_eq_true, decide_eq_true_eq] at hb
      simp [concerns, hb.1, hb.2]
  obtain rfl : q = r₀ := by rw [hsame] at hr₀; exact Option.some.inj hr₀
  exact ⟨q, hlast, hpre, hparams.2.2.1, hparams.2.2.2.1, hfits, rfl⟩

/-- A keyframe of any kind keeps what the kit keeps. -/
theorem Inv.keyframe {s : State} (h : Inv hasAVX2 compress decompress readPng mode s) {t : TileDesc}
    {w : Window} (hw : w.width = t.width) (hh : w.height = t.height) {wireId : UInt32}
    {data : List UInt8} {g : DeltaGenerator} (hkey : isKeyframe data = true)
    (hdata : decodeFrame decompress readPng t.width t.height none data =
      some ((Rendered.new t w wireId data).picture mode))
    (hg : if hr : t.isPreview = false ∧ w.Fits then
        g = s.deltaGen.store (location t) (DeltaData.new hasAVX2 wireId (w.tile hr.2))
      else g = s.deltaGen) :
    Inv hasAVX2 compress decompress readPng mode
      { s with
        deltaGen := g
        rendered := s.rendered ++ [Rendered.new t w wireId data] } where
  entries := entries_concat h.entries hg
  sizes := by
    intro r hr
    rcases List.mem_append.mp hr with hr | hr
    · exact h.sizes r hr
    · obtain rfl := List.mem_singleton.mp hr
      exact ⟨hw, hh⟩
  chains := h.chains.keyframe hkey hdata
  deltas := by
    apply h.deltas.concat
    intro hd
    have hd : data.head? = some 68 := hd
    rw [isKeyframe, hd] at hkey
    exact absurd hkey (by decide)

/-- **One tile.** A tile that meets its own picture keeps every chain. -/
theorem encodeTile_inv (hz : Lossless compress decompress)
    (hpng : ∀ w h rgba, readPng (writePng w h rgba) = some rgba)
    (hsig : ∀ w h rgba, (writePng w h rgba).head? = some 0x89) {s : State}
    (h : Inv hasAVX2 compress decompress readPng mode s) {t : TileDesc} {w : Window}
    (hw : w.width = t.width) (hh : w.height = t.height) (hown : OwnImage s t) (wireId : UInt32) :
    Inv hasAVX2 compress decompress readPng mode
      (encodeTile hasAVX2 compress writePng mode t w t.normalizedViewId wireId s) := by
  have hframe : Frame t.width t.height w.rows := hw ▸ hh ▸ w.frame
  rw [encodeTile]
  cases hpre : t.isPreview with
  | true =>
    have hpicture : ∀ data, (Rendered.new t w wireId data).picture mode = pngImage mode w.rows :=
      fun data => if_pos hpre
    have hdata : decodeFrame decompress readPng t.width t.height none
        (writePng w.width w.height (pngImage mode w.rows)) = some (pngImage mode w.rows) := by
      have hhead := hsig w.width w.height (pngImage mode w.rows)
      rw [← hpng w.width w.height (pngImage mode w.rows)]
      cases hpn : writePng w.width w.height (pngImage mode w.rows) with
      | nil => simp [hpn] at hhead
      | cons b bs =>
        rw [hpn, List.head?_cons, Option.some.injEq] at hhead
        rw [hhead]
        rfl
    refine h.keyframe hw hh ?_ (by rw [hdata, hpicture]) ?_
    · simp [isKeyframe, hsig]
    · rw [dif_neg (by simp [hpre])]
  | false =>
    have hpicture : ∀ data, (Rendered.new t w wireId data).picture mode = image mode w.rows :=
      fun data => if_neg (Bool.eq_false_iff.mp hpre)
    have hwhole : decodeFrame decompress readPng t.width t.height none
        (Delta.keyframe compress mode w.rows) = some (image mode w.rows) :=
      decodeFrame_keyframe hz mode hframe none
    rcases DeltaGenerator.compressOrDelta_cases hasAVX2 compress mode w
      (tileLocation t t.normalizedViewId) wireId t.wantsKeyframe s.deltaGen with
      ⟨hfits, heq⟩ | ⟨hfits, data, heq, hdata | ⟨e, he, hforce, hew, heh, hmake⟩⟩
    · rw [if_neg Bool.false_ne_true, heq]
      refine h.keyframe hw hh (isKeyframe_keyframe hz mode w.rows) (by rw [hwhole, hpicture]) ?_
      rw [dif_neg fun hr => hfits hr.2]
    · rw [if_neg Bool.false_ne_true, heq, hdata]
      refine h.keyframe hw hh (isKeyframe_keyframe hz mode w.rows) (by rw [hwhole, hpicture]) ?_
      rw [dif_pos ⟨hpre, hfits⟩]
      rfl
    · rw [if_neg Bool.false_ne_true, heq]
      have hdelta : makesDelta s t = true := by
        have he' : s.deltaGen.find (location t) = some e := he
        simp [makesDelta, he', hpre, hforce, hew, heh, hw, hh]
      obtain ⟨q, hlast, hqpre, hqw, hqh, hqfits, rfl⟩ := hown.last h hdelta he
      obtain ⟨data', hmake', hnotkey, hdec⟩ := decodeFrame_makeDelta readPng hz hasAVX2
        q.desc.wireId wireId mode (show (q.window.tile hqfits).width = (w.tile hfits).width from hew)
        heh
      obtain rfl : data = data' := by rw [hmake] at hmake'; exact Option.some.inj hmake'
      have hqpicture : q.picture mode = image mode q.window.rows :=
        if_neg (by simp [hqpre])
      exact {
        entries := entries_concat h.entries (by rw [dif_pos ⟨hpre, hfits⟩]; rfl)
        sizes := by
          intro r hr
          rcases List.mem_append.mp hr with hr | hr
          · exact h.sizes r hr
          · obtain rfl := List.mem_singleton.mp hr
            exact ⟨hw, hh⟩
        chains := h.chains.delta hlast hnotkey (by
          rw [hqpicture, hpicture]
          exact hw ▸ hh ▸ hdec)
        deltas := h.deltas.concat fun _ => ⟨q, hlast, hqfits, hfits, hmake⟩ }

/-- Forgetting pictures only makes more keyframes. -/
theorem Inv.forget {s : State} (h : Inv hasAVX2 compress decompress readPng mode s)
    {g : DeltaGenerator} {nextId : UInt32}
    (hg : ∀ loc e, g.find loc = some e → s.deltaGen.find loc = some e) :
    Inv hasAVX2 compress decompress readPng mode
      { s with
        deltaGen := g
        nextId := nextId } :=
  { h with entries := fun loc e he => h.entries loc e (hg loc e he) }

/-! ## The tiles of one request do not disturb each other -/

theorem encodeTile_elsewhere (hasAVX2 : Bool) (compress : List UInt8 → Option (List UInt8))
    (writePng : Nat → Nat → List UInt8 → List UInt8) (mode : TileMode) (t : TileDesc) (w : Window)
    (cid : Nat) (wireId : UInt32) (s : State) :
    (∃ data, (encodeTile hasAVX2 compress writePng mode t w cid wireId s).rendered =
      s.rendered ++ [Rendered.new t w wireId data]) ∧
    ∀ loc, loc ≠ tileLocation t cid →
      (encodeTile hasAVX2 compress writePng mode t w cid wireId s).deltaGen.find loc =
        s.deltaGen.find loc := by
  rw [encodeTile]
  cases t.isPreview with
  | true => exact ⟨⟨_, rfl⟩, fun _ _ => rfl⟩
  | false =>
    rcases DeltaGenerator.compressOrDelta_cases hasAVX2 compress mode w (tileLocation t cid) wireId
      t.wantsKeyframe s.deltaGen with ⟨-, heq⟩ | ⟨_, data, heq, -⟩
    · rw [if_neg Bool.false_ne_true, heq]
      exact ⟨⟨_, rfl⟩, fun _ _ => rfl⟩
    · rw [if_neg Bool.false_ne_true, heq]
      refine ⟨⟨_, rfl⟩, fun loc hloc => ?_⟩
      rw [DeltaGenerator.find_store, if_neg hloc]

theorem ownImage_encodeTile {s : State} {t u : TileDesc} (h : OwnImage s t)
    (hpos : (t.tilePosX, t.tilePosY) ≠ (u.tilePosX, u.tilePosY)) {w : Window} {wireId : UInt32} :
    OwnImage (encodeTile hasAVX2 compress writePng mode u w u.normalizedViewId wireId s) t := by
  obtain ⟨⟨data, hrendered⟩, hfind⟩ := encodeTile_elsewhere hasAVX2 compress writePng mode u w
    u.normalizedViewId wireId s
  have hloc : location t ≠ location u := by
    intro hsame
    simp only [location, tileLocation, TileLocation.mk.injEq] at hsame
    exact hpos (by rw [hsame.1, hsame.2.1])
  have hkey : u.cacheKey ≠ t.cacheKey := by
    intro hu
    have hsame := ((TileDesc.cacheKey_eq_iff u t).mp hu).2
    exact hpos (by rw [hsame.1, hsame.2])
  have hconcerns : concerns t (Rendered.new u w wireId data) = false := by
    have hkey' : (Rendered.new u w wireId data).desc.cacheKey ≠ t.cacheKey := hkey
    have hloc' : location (Rendered.new u w wireId data).desc ≠ location t := hloc.symm
    simp [concerns, hkey', hloc']
  intro hdelta
  rw [makesDelta, hfind _ hloc, ← makesDelta] at hdelta
  rw [hrendered, findRev?_concat, hconcerns, if_neg Bool.false_ne_true]
  exact h hdelta

/-- The tiles of a request, in any order. -/
theorem foldl_encodeTile_inv (hz : Lossless compress decompress)
    (hpng : ∀ w h rgba, readPng (writePng w h rgba) = some rgba)
    (hsig : ∀ w h rgba, (writePng w h rgba).head? = some 0x89) (r : Render) (nextId : UInt32)
    {l : List (Fin r.combined.tiles.length)} (hnodup : l.Nodup) {s : State}
    (h : Inv hasAVX2 compress decompress readPng mode s) (hown : ∀ i ∈ l, OwnImage s (r.tile i)) :
    Inv hasAVX2 compress decompress readPng mode (l.foldl (fun s' i =>
      encodeTile hasAVX2 compress writePng mode (r.tile i) (r.window i)
        r.combined.params.normalizedViewId (nextId + UInt32.ofNat (i + 1)) s') s) := by
  induction l generalizing s with
  | nil => exact h
  | cons i l ih =>
    have hview : r.combined.params.normalizedViewId = (r.tile i).normalizedViewId :=
      congrArg CombineParams.normalizedViewId (r.tile_params i).symm
    rw [List.nodup_cons] at hnodup
    rw [List.foldl_cons]
    apply ih hnodup.2
    · rw [hview]
      exact encodeTile_inv hz hpng hsig h (r.window_width i) (r.window_height i)
        (hown i List.mem_cons_self) _
    · intro j hj
      have hji : j ≠ i := fun heq => hnodup.1 (heq ▸ hj)
      rw [hview]
      exact ownImage_encodeTile (hown j (List.mem_cons_of_mem i hj)) (r.pos_ne hji)

/-- **One request.** -/
theorem renderTiles_inv (hz : Lossless compress decompress)
    (hpng : ∀ w h rgba, readPng (writePng w h rgba) = some rgba)
    (hsig : ∀ w h rgba, (writePng w h rgba).head? = some 0x89) {s : State}
    (h : Inv hasAVX2 compress decompress readPng mode s) {r : Render}
    (hown : OwnImages s (.render r)) :
    Inv hasAVX2 compress decompress readPng mode
      (renderTiles hasAVX2 compress writePng mode r s) := by
  rw [renderTiles]
  cases hfind : r.sessions.find? (· = r.combined.params.normalizedViewId) with
  | none => exact h
  | some id =>
    obtain rfl : id = r.combined.params.normalizedViewId := by simpa using List.find?_some hfind
    have htiles := hown (List.mem_of_find?_eq_some hfind)
    simp only [doRender]
    split
    · exact h
    · have hnodup : r.order.Nodup := r.scheduled.nodup_iff.mpr (List.nodup_finRange _)
      have hencoded := foldl_encodeTile_inv hz hpng hsig r s.nextId hnodup h
        fun i _ => htiles _ (List.getElem_mem i.isLt)
      exact hencoded.forget fun loc e he => DeltaGenerator.find_rebalanceDeltas he

/-- **Every chain shows the last picture of its tile.** In every run of the kit in which each tile
that becomes a delta meets the picture of its own last frame in the cache, at every moment and for
every key: the frames sent since the key's last keyframe decode to the last picture rendered for
it, and every delta was made against the picture rendered before it for the same key. -/
theorem delta_chain (hz : Lossless compress decompress)
    (hpng : ∀ w h rgba, readPng (writePng w h rgba) = some rgba)
    (hsig : ∀ w h rgba, (writePng w h rgba).head? = some 0x89) {actions : List Action}
    (h : Run.Meets (act hasAVX2 compress writePng mode) OwnImages State.init actions) :
    Run.Always (act hasAVX2 compress writePng mode)
      (fun s => ChainsDecode decompress readPng mode s.rendered ∧
        DeltasFollow hasAVX2 compress mode s.rendered) State.init actions := by
  have hinit : Inv hasAVX2 compress decompress readPng mode State.init := by
    refine ⟨fun loc e he => ?_, fun r hr => ?_, fun key r hr => ?_, fun earlier r later heq => ?_⟩
    · cases he
    · cases hr
    · cases hr
    · exact absurd heq (by simp [State.init])
  have hstep : ∀ s a, Inv hasAVX2 compress decompress readPng mode s → OwnImages s a →
      Inv hasAVX2 compress decompress readPng mode (act hasAVX2 compress writePng mode s a) := by
    intro s a hs hok
    cases a with
    | render r => exact renderTiles_inv hz hpng hsig hs hok
    | setSessionCount count => exact hs.forget fun loc e he => DeltaGenerator.find_rebalanceDeltas he
    | dropCache => exact hs.forget fun loc e he => DeltaGenerator.find_rebalanceDeltasT he
  exact Run.always_of_meets (fun s hs => ⟨hs.chains, hs.deltas⟩) hstep hinit h

end Step

/-! ## Runs -/

/-- A compressed frame of one raw block, which is what a handful of bytes compress to. -/
def zstdRaw (x : List UInt8) : Option (List UInt8) :=
  some ([0x28, 0xB5, 0x2F, 0xFD, 0x20, UInt8.ofNat x.length, UInt8.ofNat (x.length * 8 + 1),
    UInt8.ofNat ((x.length * 8 + 1) / 256), UInt8.ofNat ((x.length * 8 + 1) / 65536)] ++ x)

def unzstdRaw (z : List UInt8) : Option (List UInt8) := some (z.drop 9)

def pngSignature : List UInt8 := [0x89, 0x50, 0x4E, 0x47, 0x0D, 0x0A, 0x1A, 0x0A]

/-- The tile at the top left in an edit mode, two pixels wide. -/
def corner (mode : Nat) (oldWireId : UInt32) : TileDesc :=
  { normalizedViewId := 1000
    part := 0
    mode := mode
    width := 2
    height := 1
    tilePosX := 0
    tilePosY := 0
    tileWidth := 3840
    tileHeight := 3840
    ver := 1
    imgSize := 0
    id := -1
    oldWireId := oldWireId
    wireId := 0
    width_pos := by decide
    height_pos := by decide
    tileWidth_pos := TileDesc.usualTwips_pos
    tileHeight_pos := TileDesc.usualTwips_pos }

/-- A request for it, painted with two opaque pixels. -/
def paintCorner (mode : Nat) (oldWireId : UInt32) (p q : Pixel) : Action :=
  .render
    { combined := .single (corner mode oldWireId)
      distinct := rfl
      pixmap := [p, q]
      size := by simp [pixmapWidth, pixmapHeight, TileCombined.single, TileDesc.combineParams, corner,
        renderArea, tileRect]
      order := List.finRange _
      scheduled := .refl _
      sessions := [1000] }

/-- Two pictures of one tile, the second as a delta. -/
theorem delta_chain_two :
    Run.Meets (act false zstdRaw (fun _ _ rgba => pngSignature ++ rgba) .rgba) OwnImages State.init
      [.setSessionCount 1, paintCorner 0 0 0xFF000001 0xFF000002,
        paintCorner 0 1 0xFF000001 0xFF000003] ∧
    Run.Always (act false zstdRaw (fun _ _ rgba => pngSignature ++ rgba) .rgba)
      (fun s => ChainsDecode unzstdRaw (fun png => some (png.drop 8)) .rgba s.rendered ∧
        DeltasFollow false zstdRaw .rgba s.rendered) State.init
      [.setSessionCount 1, paintCorner 0 0 0xFF000001 0xFF000002,
        paintCorner 0 1 0xFF000001 0xFF000003] := by
  have hmeets : Run.Meets (act false zstdRaw (fun _ _ rgba => pngSignature ++ rgba) .rgba) OwnImages
      State.init [.setSessionCount 1, paintCorner 0 0 0xFF000001 0xFF000002,
        paintCorner 0 1 0xFF000001 0xFF000003] := by decide +kernel
  exact ⟨hmeets, delta_chain (fun x => ⟨_, by simp, rfl, by simp [unzstdRaw]⟩)
    (fun w h rgba => by simp [pngSignature]) (fun w h rgba => rfl) hmeets⟩

/-- A tile, the same place in the other edit mode, and the tile again with the picture the other one
had: the kit answers that nothing changed, and the first picture stays. -/
theorem not_delta_chain :
    ¬ Run.Always (act false zstdRaw (fun _ _ rgba => pngSignature ++ rgba) .rgba)
      (fun s => ChainsDecode unzstdRaw (fun png => some (png.drop 8)) .rgba s.rendered ∧
        DeltasFollow false zstdRaw .rgba s.rendered) State.init
      [.setSessionCount 1, paintCorner 0 0 0xFF000001 0xFF000002,
        paintCorner 1 0 0xFF000003 0xFF000004, paintCorner 0 1 0xFF000003 0xFF000004] := by
  intro h
  have hchain := h.last.1 (corner 0 0).cacheKey
  cases hlast : lastOf (corner 0 0).cacheKey ([.setSessionCount 1,
    paintCorner 0 0 0xFF000001 0xFF000002, paintCorner 1 0 0xFF000003 0xFF000004,
    paintCorner 0 1 0xFF000003 0xFF000004].foldl
      (act false zstdRaw (fun _ _ rgba => pngSignature ++ rgba) .rgba) State.init).rendered with
  | none =>
    have hsome := congrArg Option.isSome hlast
    exact absurd hsome (by decide +kernel)
  | some r =>
    have hdecode := hchain r hlast
    have hpicture := congrArg (Option.map (Rendered.picture .rgba)) hlast
    rw [Option.map_some, ← hdecode] at hpicture
    exact absurd hpicture (by decide +kernel)

end Oxool.Kit
