import Oxool.Browser.TileImages
import Oxool.Delta.RawFrames
import Oxool.Kit.ViewFrames
import Oxool.Wsd.Arrivals
import Oxool.Wsd.Watermarks

/-!
# Pictures, from the kit to the screen

The kit paints tiles and sends each as a keyframe or as what changed since it painted the tile last; the
server keeps the frames and sends a client those that it has not seen yet; the browser keeps the compressed
bytes, may give up the canvas, and makes it again from the bytes. Each of the three keeps its own account
of what the others have: the kit of the picture that the server has, the server of the wire id that the
client has, the browser of the bytes that it can go on from. A canvas is right if all three accounts are.

What a browser shows of a tile is then always a picture that the kit painted for it, whole, in a view of
the session itself, and never an older one than before (`pictured_always`).
-/

set_option autoImplicit false

namespace Oxool.Wsd.Tiles.Watermarks.Pictures

open Oxool.Browser (clientAfter received TileImage)
open Oxool.Delta (Lossless Concatenates TileMode)
open Oxool.Http (Bytes)
open Oxool.Kit (Rendered bodiesOf lastOf)
open Oxool.Kit.Views (Message Painted Paintable watermarkOf)

/-! ## What is said -/

/-- A message as the browser parses it. -/
def image (m : Sent) : TileImage := ⟨m.payload, m.keyframe⟩

/-- The image that an action of the browser brings for some coordinates. -/
def imageFor (coords : Bytes) : Browser.Action → Option TileImage
  | .tileMsg ⟨c, _, some img⟩ _ => if c.key = coords then some img else none
  | _ => none

/-- The frame of a tile that was painted last. -/
def lastPainted (key : CacheKey) (painted : List Painted) : Option Painted :=
  painted.findRev? fun f => f.frame.desc.cacheKey = key

section Statement

variable (p : Browser.Platform) (visible : Bool) (mode : TileMode)

/-- A tile of the browser's size, of which no preview was painted. -/
structure Plain (w : World) (key : CacheKey) : Prop where
  width : key.width = p.tileSize
  height : key.height = p.tileSize
  noPreview : ∀ r ∈ w.kit.renderer.rendered, r.desc.cacheKey = key → r.desc.isPreview = false

/-- What a browser of the session may have done: its tiles come from messages to the session, those for the
coordinates are the first messages about the tile, in order, and it does not refuse so many contexts that its
calls are nested too deep. -/
structure Viewing (w : World) (id : Nat) (key : CacheKey) (coords : Bytes) (n : Nat)
    (as : List Browser.Action) : Prop where
  messages : ∀ m now, Browser.Action.tileMsg m now ∈ as →
    ∃ s ∈ (w.broker.sessions id).sent, Plain p w s.desc.cacheKey ∧ m.img = some (image s)
  order : as.filterMap (imageFor coords) =
    ((sendsFor key (w.broker.sessions id).sent).take n).map image
  deepEnough : Browser.DeepEnough p as

/-- The canvas of a tile shows a frame of it, which was painted in a view of the session. -/
structure Shows (w : World) (id : Nat) (canvas : Bytes) (f : Painted) : Prop where
  picture : canvas = f.frame.picture mode
  view : (id, f.props) ∈ w.kit.views
  watermark : f.watermark = watermarkOf visible f.props.watermarkText

/-- What a browser shows of a tile after some messages is what was painted last for it up to some moment,
and with more messages the moment is not earlier. -/
def Pictured (w : World) : Prop :=
  ∀ id key, Plain p w key → ∃ time : Nat → Nat, Monotone time ∧
    ∀ n coords as, Viewing p w id key coords n as →
      ∀ r, (clientAfter p as).layer.find coords = some r →
        ((clientAfter p as).layer.heap r).hasContent = true →
          ∀ canvas, ((clientAfter p as).layer.heap r).canvas = some canvas →
            ∃ f, lastPainted key (w.kit.painted.take (time n)) = some f ∧ Shows visible mode w id canvas f

end Statement

/-- What the kit is asked to paint it may paint. -/
def MayPaint (w : World) : Action → Prop
  | .kit a => Paintable w.kit a
  | _ => True

instance (w : World) (a : Action) : Decidable (MayPaint w a) :=
  match a with
  | .kit a => inferInstanceAs (Decidable (Paintable w.kit a))
  | .deliver => .isTrue trivial
  | .sendCombinedTiles .. => .isTrue trivial
  | .sendTile .. => .isTrue trivial
  | .requestTiles .. => .isTrue trivial
  | .sendRequestedTiles .. => .isTrue trivial
  | .invalidateTiles .. => .isTrue trivial
  | .evict _ => .isTrue trivial
  | .close _ => .isTrue trivial

/-- And what is asked of the server names wire ids as the server gives them out. -/
def Proper (w : World) (a : Action) : Prop :=
  Watermarks.Proper w a ∧ MayPaint w a ∧
    ∀ asked ∈ w.asked a, Tiles.World.Proper ⟨w.broker, fun _ => 0⟩ asked

instance (w : World) (a : Action) : Decidable (Proper w a) := inferInstanceAs (Decidable (_ ∧ _ ∧ _))

/-! ## Messages of the server -/

theorem continues_left {prev : Option (List UInt8)} {sends later : List Sent}
    (h : Continues prev (sends ++ later)) : Continues prev sends := by
  induction sends generalizing prev with
  | nil => trivial
  | cons m sends ih => exact ⟨h.1, ih h.2⟩

/-- The payloads since the last `tile:` are what the cache held. -/
theorem sinceTile_eq_held {sends : List Sent} (h : Continues none sends) {last : Sent}
    (hlast : sends.getLast? = some last) : sinceTile sends = last.held := by
  induction sends using List.reverseRecOn generalizing last with
  | nil => cases hlast
  | append_singleton sends m ih =>
    obtain rfl : m = last := by simpa using hlast
    obtain ⟨hbefore, hm⟩ := continues_concat.mp h
    rw [sinceTile_concat]
    cases hkeyframe : m.keyframe with
    | true =>
      rw [hkeyframe, if_pos rfl] at hm
      rw [if_pos rfl]
      exact hm
    | false =>
      rw [hkeyframe, if_neg Bool.false_ne_true, Option.or_none] at hm
      obtain ⟨before, hheld, hgoes⟩ := hm
      obtain ⟨l, hl, rfl⟩ := Option.map_eq_some_iff.mp hheld
      rw [if_neg Bool.false_ne_true, ih hbefore hl, hgoes]

/-! ## Messages of the browser -/

theorem receiveAction_eq (coords : Bytes) (h : Option Browser.Received) (a : Browser.Action) :
    Browser.receiveAction coords h a = (imageFor coords a).elim h (Browser.receive · h) := by
  cases a with
  | tileMsg m now =>
    obtain ⟨c, wireId, img⟩ := m
    cases img with
    | none => rfl
    | some img =>
      simp only [Browser.receiveAction, imageFor]
      split
      · rfl
      · rfl
  | draw key now => rfl
  | garbageCollect => rfl
  | removeTile key => rfl
  | invalidateTile key wireId => rfl
  | createTile coords now => rfl
  | setCurrent key current => rfl
  | sendProcessedResponse => rfl

theorem received_eq (as : List Browser.Action) (coords : Bytes) :
    received as coords =
      (as.filterMap (imageFor coords)).foldl (fun h img => Browser.receive img h) none := by
  have hfold : ∀ h, as.foldl (Browser.receiveAction coords) h =
      (as.filterMap (imageFor coords)).foldl (fun h img => Browser.receive img h) h := by
    induction as with
    | nil => exact fun _ => rfl
    | cons a as ih =>
      intro h
      rw [List.foldl_cons, ih, receiveAction_eq, List.filterMap_cons]
      cases imageFor coords a with
      | none => rfl
      | some img => rfl
  exact hfold none

/-- The bytes that a browser has of a tile are the payloads since the last `tile:`. -/
theorem bytes_received {sends : List Sent} {h : Browser.Received}
    (hreceived : (sends.map image).foldl (fun h img => Browser.receive img h) none = some h) :
    h.bytes = sinceTile sends := by
  induction sends using List.reverseRecOn generalizing h with
  | nil => cases hreceived
  | append_singleton sends m ih =>
    rw [List.map_append, List.foldl_append, List.map_singleton, List.foldl_cons, List.foldl_nil,
      Browser.receive] at hreceived
    rw [sinceTile_concat]
    cases hkeyframe : m.keyframe with
    | true =>
      rw [if_pos (show (image m).isKeyframe = true from hkeyframe)] at hreceived
      rw [if_pos rfl, ← Option.some.inj hreceived]
      exact List.append_nil _
    | false =>
      rw [if_neg (by rw [image, hkeyframe]; exact Bool.false_ne_true)] at hreceived
      obtain ⟨h', hbefore, rfl⟩ := Option.map_eq_some_iff.mp hreceived
      rw [if_neg Bool.false_ne_true, ← ih hbefore, Browser.Received.bytes, Browser.Received.bytes,
        List.flatten_append, List.flatten_singleton, List.append_assoc]
      rfl

/-- The last of the first messages. -/
theorem exists_of_getLast?_take {sends : List Sent} {n : Nat} {m : Sent}
    (hlast : (sends.take n).getLast? = some m) :
    ∃ i, i + 1 = min n sends.length ∧ sends[i]? = some m := by
  rw [List.getLast?_eq_getElem?] at hlast
  have hlt := (List.getElem?_eq_some_iff.mp hlast).1
  rw [List.length_take] at hlast hlt
  refine ⟨min n sends.length - 1, by omega, ?_⟩
  rw [List.getElem?_take_of_lt (by omega)] at hlast
  exact hlast

/-- The bytes that a browser has are what the cache held when the last message was made. -/
theorem bytes_eq_held {sends : List Sent} (hinorder : Continues none sends) {n : Nat} {h : Browser.Received}
    (hreceived : ((sends.take n).map image).foldl (fun h img => Browser.receive img h) none = some h) :
    ∃ i m, i + 1 = min n sends.length ∧ sends[i]? = some m ∧ h.bytes = m.held := by
  cases hlast : (sends.take n).getLast? with
  | none =>
    rw [List.getLast?_eq_none_iff] at hlast
    rw [hlast] at hreceived
    cases hreceived
  | some m =>
    obtain ⟨i, hi, hm⟩ := exists_of_getLast?_take hlast
    rw [← List.take_append_drop n sends] at hinorder
    refine ⟨i, m, hi, hm, ?_⟩
    rw [bytes_received hreceived, sinceTile_eq_held (continues_left hinorder) hlast]

/-! ## Why -/

/-- What holds of the whole. -/
structure Inv (hasAVX2 : Bool) (compress decompress readPng : List UInt8 → Option (List UInt8))
    (visible : Bool) (mode : TileMode) (w : World) : Prop where
  isolated : Watermarks.Inv visible w
  kit : Kit.FramesInOrder hasAVX2 compress decompress readPng mode w.kit.renderer
  painted : w.kit.painted.map Painted.frame = w.kit.renderer.rendered
  arrived : ∃ arrived, w.kit.renderer.rendered = arrived ++ w.wire.flatMap Message.frames ∧
    Follows arrived w.broker

section Inv

variable {hasAVX2 : Bool} {compress readPng : List UInt8 → Option (List UInt8)}
  {writePng : Nat → Nat → List UInt8 → List UInt8} {p : Browser.Platform} {visible : Bool} {mode : TileMode}
  {w : World}

variable (hasAVX2 compress readPng visible mode) in
theorem inv_init (decompress : List UInt8 → Option (List UInt8)) :
    Inv hasAVX2 compress decompress readPng visible mode .init where
  isolated := Watermarks.inv_init visible
  kit :=
    { entries := fun loc e he => by cases he
      sizes := fun r hr => by cases hr
      chains := fun key r hr => by cases hr
      deltas := fun earlier r later heq => by
        exact absurd heq (by simp [World.init, Kit.Views.Document.init, Kit.State.init])
      prefixes := fun earlier hearlier key r hr => by
        rw [List.prefix_nil.mp hearlier] at hr
        cases hr
      framed := fun r hr => by cases hr
      rising := List.Pairwise.nil
      positive := fun r hr => by cases hr
      given := fun r hr => by cases hr }
  painted := rfl
  arrived := ⟨[], rfl, follows_init⟩

/-- Every message about a plain tile tells of frames that make a picture. -/
theorem Inv.image_tells (hz : Lossless compress p.decompress) (hconcat : Concatenates p.decompress)
    (h : Inv hasAVX2 compress p.decompress readPng visible mode w) {key : CacheKey} (hplain : Plain p w key)
    {earlier : List Rendered} (hearlier : earlier <+: w.kit.renderer.rendered) {m : Sent}
    (hm : Tells key earlier m) :
    (∃ r, lastOf key earlier = some r ∧
      Delta.keyframeImage p.decompress p.tileSize m.held = some (r.picture mode)) ∧
      (image m).WellFormed p := by
  obtain ⟨hpicture, hkeyframe, hdeltas⟩ :=
    h.kit.chain_image hz hconcat hplain.width hplain.height hplain.noPreview hearlier hm.ne_nil
  rw [← hm.held] at hpicture hkeyframe
  refine ⟨hpicture, ?_⟩
  rw [TileImage.WellFormed]
  cases hk : m.keyframe with
  | true =>
    rw [if_pos (show (image m).isKeyframe = true from hk)]
    show Delta.IsKeyframe p.decompress p.tileSize m.payload
    rw [hm.tile hk]
    exact hkeyframe
  | false =>
    rw [if_neg (by rw [image, hk]; exact Bool.false_ne_true)]
    obtain ⟨k, hpayload⟩ := hm.delta hk
    show Delta.IsDelta p.decompress m.payload
    rw [hpayload]
    exact .flatten hconcat fun d hd => hdeltas d (List.mem_of_mem_drop hd)

theorem lastPainted_of_lastOf {painted : List Painted} {key : CacheKey} {r : Rendered}
    (h : lastOf key (painted.map Painted.frame) = some r) :
    ∃ f, lastPainted key painted = some f ∧ f.frame = r := by
  rw [lastOf, List.findRev?_eq_find?_reverse, ← List.map_reverse, List.find?_map] at h
  obtain ⟨f, hf, hframe⟩ := Option.map_eq_some_iff.mp h
  refine ⟨f, ?_, hframe⟩
  rw [lastPainted, List.findRev?_eq_find?_reverse]
  exact hf

/-- Each message was made of the frames up to some moment. -/
theorem Inv.told (h : Inv hasAVX2 compress p.decompress readPng visible mode w) (id : Nat) (key : CacheKey) :
    ∃ time : Nat → Nat, Monotone time ∧ ∀ i m, (sendsFor key (w.broker.sessions id).sent)[i]? = some m →
      Tells key (w.kit.renderer.rendered.take (time (i + 1))) m := by
  obtain ⟨arrived, hrendered, hfollows⟩ := h.arrived
  obtain ⟨time, hmono, hle, htells⟩ := (hfollows.serves.sessions id).told key
  refine ⟨time, hmono, fun i m hm => ?_⟩
  rw [hrendered, List.take_append_of_le_length (hle _)]
  exact htells i m hm

theorem Inv.inOrder (h : Inv hasAVX2 compress p.decompress readPng visible mode w) (id : Nat)
    (key : CacheKey) : Continues none (sendsFor key (w.broker.sessions id).sent) := by
  obtain ⟨arrived, -, hfollows⟩ := h.arrived
  exact ((hfollows.ok.sessions id).order key).1

/-- The messages are what the browser takes them for. -/
theorem Inv.wellFormed (hz : Lossless compress p.decompress) (hconcat : Concatenates p.decompress)
    (h : Inv hasAVX2 compress p.decompress readPng visible mode w) {id n : Nat} {key : CacheKey}
    {coords : Bytes} {as : List Browser.Action} (has : Viewing p w id key coords n as) :
    ∀ a ∈ as, a.WellFormed p := by
  intro a ha
  cases a with
  | tileMsg m now =>
    obtain ⟨s, hs, hplain, himg⟩ := has.messages m now ha
    obtain ⟨time, -, htells⟩ := h.told id s.desc.cacheKey
    have hmem : s ∈ sendsFor s.desc.cacheKey (w.broker.sessions id).sent :=
      List.mem_filter.mpr ⟨hs, by simp⟩
    obtain ⟨i, hi⟩ := List.mem_iff_getElem?.mp hmem
    exact ⟨_, himg, (h.image_tells hz hconcat hplain (List.take_prefix _ _) (htells i s hi)).2⟩
  | draw key now => trivial
  | garbageCollect => trivial
  | removeTile key => trivial
  | invalidateTile key wireId => trivial
  | createTile coords now => trivial
  | setCurrent key current => trivial
  | sendProcessedResponse => trivial

/-- What the cache held when a message was made shows a frame. -/
theorem Inv.shows (hz : Lossless compress p.decompress) (hconcat : Concatenates p.decompress)
    (h : Inv hasAVX2 compress p.decompress readPng visible mode w) {key : CacheKey} (hplain : Plain p w key)
    {id n : Nat} {m : Sent} (hm : m ∈ sendsFor key (w.broker.sessions id).sent)
    (htells : Tells key (w.kit.renderer.rendered.take n) m) {canvas : Bytes}
    (himage : Delta.keyframeImage p.decompress p.tileSize m.held = some canvas) :
    ∃ f, lastPainted key (w.kit.painted.take n) = some f ∧ Shows visible mode w id canvas f := by
  obtain ⟨⟨r, hr, hpicture⟩, -⟩ := h.image_tells hz hconcat hplain (List.take_prefix _ _) htells
  rw [← h.painted, ← List.map_take] at hr
  obtain ⟨f, hf, rfl⟩ := lastPainted_of_lastOf hr
  obtain ⟨hmem, hmkey⟩ := List.mem_filter.mp hm
  have hmkey : m.desc.cacheKey = key := by simpa using hmkey
  have hfkey : f.frame.desc.cacheKey = key := by simpa using of_findRev?_eq_some hf
  have hown : Watermarks.Own w.kit id key.normalizedViewId := by
    have hview := ((h.isolated.broker.sessions id).told m hmem).1
    rw [← hmkey]
    exact hview
  have hfview := h.isolated.of_own hown (List.mem_of_mem_take (mem_of_findRev?_eq_some hf))
    (congrArg CacheKey.normalizedViewId hfkey)
  refine ⟨f, hf, ?_, hfview.1, hfview.2⟩
  rw [himage] at hpicture
  exact Option.some.inj hpicture

/-- **What a browser shows.** -/
theorem Inv.pictured (hz : Lossless compress p.decompress) (hconcat : Concatenates p.decompress)
    (hcontexts : ∀ n, p.contexts .allFreed n = true)
    (h : Inv hasAVX2 compress p.decompress readPng visible mode w) : Pictured p visible mode w := by
  intro id key hplain
  obtain ⟨time, hmono, htells⟩ := h.told id key
  set sends := sendsFor key (w.broker.sessions id).sent with hsends
  refine ⟨fun n => time (min n sends.length), fun n n' hn => hmono (min_le_min_right _ hn), ?_⟩
  intro n coords as has r hfind hcontent canvas hcanvas
  have hmatches := Browser.agrees_clientAfter hcontexts hconcat has.deepEnough
    (h.wellFormed hz hconcat has) _ (Browser.Layer.mem_of_find hfind)
  dsimp only at hmatches
  cases hraw : ((clientAfter p as).layer.heap r).rawDeltas with
  | none =>
    -- a tile without bytes has no content
    have hkeyframe := (hmatches.valid hconcat).hasKeyframe
    rw [Browser.Tile.hasContent, hmatches.shown.content hraw, hkeyframe, hraw] at hcontent
    cases hcontent
  | some raw =>
    have himage := (hmatches.shown.image raw canvas hraw hcanvas).1
    obtain ⟨received, hreceived, rfl, -⟩ := hmatches.kept raw hraw
    rw [received_eq, has.order, ← hsends] at hreceived
    obtain ⟨i, m, hi, hm, hheld⟩ := bytes_eq_held (h.inOrder id key) hreceived
    rw [hheld] at himage
    dsimp only
    rw [← hi]
    exact h.shows hz hconcat hplain (List.mem_of_getElem? hm) (htells i m hm) himage

/-- A message of the kit arrives. -/
theorem follows_deliver {arrived : List Rendered} {b : Broker} (h : Follows arrived b) {m : Message}
    {later : List Rendered} (hrising : Kit.Rising (arrived ++ (m.frames ++ later)))
    (hpos : ∀ f ∈ m.frames, 0 < f.desc.wireId) : Follows (arrived ++ m.frames) (handle b m) := by
  cases m with
  | canonicalidchange id canonicalId =>
    have hview : World.Proper ⟨b, fun _ => 0⟩ (.setView id canonicalId) := trivial
    rw [Message.frames, List.append_nil]
    exact h.act (a := .setView id canonicalId) trivial hview
  | tiles frames => exact h.arriveAll hrising hpos

/-- **Every action keeps all three accounts.** -/
theorem Inv.act (hz : Lossless compress p.decompress)
    (hpng : ∀ w h rgba, readPng (writePng w h rgba) = some rgba)
    (hsig : ∀ w h rgba, (writePng w h rgba).head? = some 0x89)
    (h : Inv hasAVX2 compress p.decompress readPng visible mode w) {a : Action} (ha : Proper w a) :
    Inv hasAVX2 compress p.decompress readPng visible mode
      (act visible hasAVX2 compress writePng mode w a) := by
  have hisolated := h.isolated.act hasAVX2 compress writePng mode ha.1
  obtain ⟨arrived, hrendered, hfollows⟩ := h.arrived
  rcases act_asked hasAVX2 compress writePng mode visible w a with ⟨a, rfl⟩ | rfl | heq
  · have hpaints := Kit.Views.paints_act visible hz hpng hsig h.kit ha.2.1
    refine ⟨hisolated, hpaints.ordered, ?_, arrived, ?_, hfollows⟩
    · refine hpaints.painted.trans ?_
      rw [h.painted]
      exact hpaints.rendered.symm
    · refine hpaints.rendered.trans ?_
      rw [hrendered, List.append_assoc]
      exact congrArg (arrived ++ ·) List.flatMap_append.symm
  · simp only [Watermarks.act] at hisolated ⊢
    cases hwire : w.wire with
    | nil => exact h
    | cons m rest =>
      rw [hwire] at hisolated
      rw [hwire, List.flatMap_cons] at hrendered
      have hrising := h.kit.rising
      rw [hrendered] at hrising
      refine ⟨hisolated, h.kit, h.painted, arrived ++ m.frames, ?_, follows_deliver hfollows hrising fun f hf => ?_⟩
      · rw [hrendered, List.append_assoc]
      · apply h.kit.positive
        rw [hrendered]
        exact List.mem_append_right _ (List.mem_append_left _ hf)
  · rw [heq] at hisolated ⊢
    refine ⟨hisolated, h.kit, h.painted, arrived, hrendered, ?_⟩
    cases hasked : w.asked a with
    | none => exact hfollows
    | some asked =>
      exact hfollows.act (domestic_asked (fun _ => trivial) hasked) (ha.2.2 asked hasked)

end Inv

/-- **What a browser shows is what the kit painted.** In every run, for every session and every tile that
is no preview: whatever the browser has taken in of what it was sent, and whatever it did with its canvases
meanwhile, a canvas with content shows the last of the pictures painted for the tile up to some moment, in a
view of the session and with its watermark; the moment does not go back as more messages are taken in. -/
theorem pictured_always (hasAVX2 : Bool) (compress readPng : List UInt8 → Option (List UInt8))
    (writePng : Nat → Nat → List UInt8 → List UInt8) (p : Browser.Platform) (visible : Bool) (mode : TileMode)
    (hz : Lossless compress p.decompress) (hconcat : Concatenates p.decompress)
    (hpng : ∀ w h rgba, readPng (writePng w h rgba) = some rgba)
    (hsig : ∀ w h rgba, (writePng w h rgba).head? = some 0x89)
    (hcontexts : ∀ n, p.contexts .allFreed n = true) (as : List Action)
    (h : Run.Meets (act visible hasAVX2 compress writePng mode) Proper .init as) :
    Run.Always (act visible hasAVX2 compress writePng mode) (Pictured p visible mode) .init as :=
  Run.always_of_meets (fun _ hw => hw.pictured hz hconcat hcontexts)
    (fun _ _ hw ha => hw.act hz hpng hsig ha)
    (inv_init hasAVX2 compress readPng visible mode p.decompress) h

/-! ## Two pictures -/

/-- A tile of two by two pixels. -/
def square (oldWireId : UInt32) : TileDesc :=
  { Kit.corner 0 oldWireId with
    height := 2
    height_pos := Nat.two_pos }

def paintSquare (oldWireId : UInt32) (a b c d : Delta.Pixel) : Kit.Render :=
  { combined := .single (square oldWireId)
    distinct := rfl
    pixmap := [a, b, c, d]
    size := by simp [Kit.pixmapWidth, Kit.pixmapHeight, TileCombined.single, TileDesc.combineParams,
      square, Kit.corner, Kit.renderArea, Kit.tileRect]
    order := List.finRange _
    scheduled := .refl _
    sessions := [] }

def smallPlatform : Browser.Platform := ⟨2, fun _ _ => true, Delta.Raw.decompress, 2⟩

/-- A tile that is asked for and painted, and painted again after one pixel of it has changed. -/
def twoPictures : List Action :=
  [.kit (.createSession 1), .kit (.load 1 [65] true true), .deliver, .sendTile 1 (square 0) 0,
    .kit (.renderTiles (paintSquare 0 0xFF000001 0xFF000002 0xFF000003 0xFF000004)), .deliver,
    .invalidateTiles 0 0 0 0 3840 3840 1000, .requestTiles 1 (.single (square 1)) 0 10,
    .kit (.renderTiles (paintSquare 1 0xFF000001 0xFF000002 0xFF000003 0xFF000005)), .deliver]

theorem pictured_twoPictures :
    Run.Always (act true false Delta.Raw.compress (fun _ _ rgba => Kit.pngSignature ++ rgba) .rgba)
      (Pictured smallPlatform true .rgba) .init twoPictures :=
  pictured_always false Delta.Raw.compress (fun png => some (png.drop 8))
    (fun _ _ rgba => Kit.pngSignature ++ rgba) smallPlatform true .rgba Delta.Raw.lossless
    Delta.Raw.concatenates (fun w h rgba => by simp [Kit.pngSignature]) (fun w h rgba => rfl)
    (fun _ => rfl) twoPictures (by decide +kernel)

/-- The browser takes in both messages, the second of which has one pixel. -/
example :
    let w := twoPictures.foldl (act true false Delta.Raw.compress
      (fun _ _ rgba => Kit.pngSignature ++ rgba) .rgba) .init
    let as := (w.broker.sessions 1).sent.map fun m =>
      Browser.Action.tileMsg ⟨⟨0, 0, 10, 0, 0⟩, 1, some (image m)⟩ 0
    ((clientAfter smallPlatform as).layer.heap 0).canvas =
      some [1, 0, 0, 255, 2, 0, 0, 255, 3, 0, 0, 255, 5, 0, 0, 255] := by decide +kernel

end Oxool.Wsd.Tiles.Watermarks.Pictures
