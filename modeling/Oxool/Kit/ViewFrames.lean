import Oxool.Kit.CanonicalViews
import Oxool.Kit.FrameOrder

/-!
# The frames of a document

Sessions come and go, and their views change, between the requests that are painted. None of this touches
the frames: the kit of a document paints as the kit alone does, and what it sends are the new frames, in
order, each painted in a view that is written down beside it (`Paints`).
-/

set_option autoImplicit false

namespace Oxool.Kit.Views

open Oxool.Delta
open Oxool.Http (Bytes)

/-- The frames in a message. -/
def Message.frames : Message → List Rendered
  | .canonicalidchange _ _ => []
  | .tiles frames => frames

/-- A request of which each tile that becomes a delta meets its own picture, and for which there are wire
ids left. -/
def Paintable (d : Document) : Action → Prop
  | .renderTiles r => OwnImages d.renderer (.render { r with sessions := d.canonicalViewIds }) ∧
      d.renderer.nextId.toNat + r.combined.tiles.length < UInt32.size
  | _ => True

instance (d : Document) (a : Action) : Decidable (Paintable d a) :=
  match a with
  | .renderTiles _ => inferInstanceAs (Decidable (_ ∧ _))
  | .createSession _ => .isTrue trivial
  | .load _ _ _ _ => .isTrue trivial
  | .viewRenderState _ _ => .isTrue trivial
  | .disconnect _ => .isTrue trivial
  | .purgeSessions _ => .isTrue trivial

/-- What becomes of the frames: those that are new are sent. -/
structure Paints (hasAVX2 : Bool) (compress decompress readPng : List UInt8 → Option (List UInt8))
    (mode : TileMode) (d : Document) (r : Document × List Message) : Prop where
  ordered : FramesInOrder hasAVX2 compress decompress readPng mode r.1.renderer
  rendered : r.1.renderer.rendered = d.renderer.rendered ++ r.2.flatMap Message.frames
  painted : r.1.painted.map Painted.frame = d.painted.map Painted.frame ++ r.2.flatMap Message.frames

/-- Nothing is painted, and no frame is sent. -/
structure Quiet (d : Document) (r : Document × List Message) : Prop where
  renderer : r.1.renderer = d.renderer
  painted : r.1.painted = d.painted
  sent : r.2.flatMap Message.frames = []

section Quiet

variable {d d' : Document}

theorem Quiet.refl (d : Document) : Quiet d (d, []) := ⟨rfl, rfl, rfl⟩

theorem createCanonicalId_renderer (d : Document) (viewProps : Bytes) :
    (d.createCanonicalId viewProps).2.renderer = d.renderer ∧
      (d.createCanonicalId viewProps).2.painted = d.painted := by
  rw [Document.createCanonicalId]
  split
  · exact ⟨rfl, rfl⟩
  · split
    · exact ⟨rfl, rfl⟩
    · exact ⟨rfl, rfl⟩

theorem quiet_invalidateCanonicalId (d : Document) (id : Nat) : Quiet d (d.invalidateCanonicalId id) := by
  rw [Document.invalidateCanonicalId]
  split
  · exact .refl d
  · rename_i session hsession
    obtain ⟨hrenderer, hpainted⟩ := createCanonicalId_renderer d session.props.text
    dsimp only
    split
    · exact ⟨hrenderer, hpainted, rfl⟩
    · exact ⟨hrenderer, hpainted, rfl⟩

theorem quiet_load (d : Document) (visible : Bool) (id : Nat) (text : Bytes) (viewed finished : Bool) :
    Quiet d (d.load visible id text viewed finished) := by
  rw [Document.load]
  split
  · exact .refl d
  · split
    · exact .refl d
    · dsimp only
      split
      · have hquiet := quiet_invalidateCanonicalId
        exact ⟨(hquiet _ id).renderer, (hquiet _ id).painted, (hquiet _ id).sent⟩
      · exact ⟨rfl, rfl, rfl⟩

theorem quiet_viewRenderState (d : Document) (id : Nat) (payload : Bytes) :
    Quiet d (d.viewRenderState id payload) := by
  rw [Document.viewRenderState]
  split
  · exact .refl d
  · dsimp only
    split
    · exact .refl d
    · have hquiet := quiet_invalidateCanonicalId
      exact ⟨(hquiet _ id).renderer, (hquiet _ id).painted, (hquiet _ id).sent⟩

end Quiet

section Paints

variable {hasAVX2 : Bool} {compress decompress readPng : List UInt8 → Option (List UInt8)}
  {writePng : Nat → Nat → List UInt8 → List UInt8} {mode : TileMode} {d : Document}

theorem Quiet.paints (h : FramesInOrder hasAVX2 compress decompress readPng mode d.renderer)
    {r : Document × List Message} (hr : Quiet d r) :
    Paints hasAVX2 compress decompress readPng mode d r where
  ordered := hr.renderer ▸ h
  rendered := by rw [hr.renderer, hr.sent, List.append_nil]
  painted := by rw [hr.painted, hr.sent, List.append_nil]

/-- The delta cache may become smaller. -/
theorem paints_setSessionCount (h : FramesInOrder hasAVX2 compress decompress readPng mode d.renderer)
    {d' : Document} (hrenderer : d'.renderer = d.renderer) (hpainted : d'.painted = d.painted) :
    Paints hasAVX2 compress decompress readPng mode d (d'.setSessionCount, []) where
  ordered := by
    rw [Document.setSessionCount, hrenderer]
    exact h.forget fun loc e he => DeltaGenerator.find_rebalanceDeltas he
  rendered := by
    rw [Document.setSessionCount, hrenderer]
    exact (List.append_nil _).symm
  painted := by
    rw [Document.setSessionCount, hpainted]
    exact (List.append_nil _).symm

theorem paints_renderTiles (hz : Lossless compress decompress)
    (hpng : ∀ w h rgba, readPng (writePng w h rgba) = some rgba)
    (hsig : ∀ w h rgba, (writePng w h rgba).head? = some 0x89)
    (h : FramesInOrder hasAVX2 compress decompress readPng mode d.renderer) {r : Render}
    (hr : Paintable d (.renderTiles r)) :
    Paints hasAVX2 compress decompress readPng mode d
      (d.renderTiles hasAVX2 compress writePng mode r) where
  ordered := by
    rw [renderer_renderTiles]
    exact h.renderTiles hz hpng hsig hr.1 hr.2
  rendered := by
    rw [Document.renderTiles]
    split
    · exact (List.append_nil _).symm
    · rename_i session hsession
      obtain ⟨frames, hframes, -⟩ := rendered_doRender hasAVX2 compress writePng mode r
        (session.canonicalViewId.getD 0) d.renderer
      dsimp only
      rw [hframes, List.drop_left]
      split
      · rename_i hnil
        rw [hnil, List.flatMap_nil]
      · rw [List.flatMap_singleton, Message.frames]
  painted := by
    rw [Document.renderTiles]
    split
    · exact (List.append_nil _).symm
    · dsimp only
      rw [List.map_append, List.map_map]
      congr 1
      split
      · rename_i hnil
        rw [hnil]
        rfl
      · rw [List.flatMap_singleton, Message.frames]
        exact List.map_id _

/-- **What every action does to the frames.** -/
theorem paints_act (visible : Bool) (hz : Lossless compress decompress)
    (hpng : ∀ w h rgba, readPng (writePng w h rgba) = some rgba)
    (hsig : ∀ w h rgba, (writePng w h rgba).head? = some 0x89)
    (h : FramesInOrder hasAVX2 compress decompress readPng mode d.renderer) {a : Action} (ha : Paintable d a) :
    Paints hasAVX2 compress decompress readPng mode d
      (act visible hasAVX2 compress writePng mode d a) := by
  cases a with
  | createSession id =>
    show Paints hasAVX2 compress decompress readPng mode d (d.createSession id, [])
    rw [Document.createSession]
    split
    · exact (Quiet.refl d).paints h
    · exact paints_setSessionCount h rfl rfl
  | load id text viewed finished => exact (quiet_load d visible id text viewed finished).paints h
  | viewRenderState id payload => exact (quiet_viewRenderState d id payload).paints h
  | disconnect id => exact paints_setSessionCount h rfl rfl
  | purgeSessions closed => exact Quiet.paints h ⟨rfl, rfl, rfl⟩
  | renderTiles r => exact paints_renderTiles hz hpng hsig h ha

end Paints

end Oxool.Kit.Views
