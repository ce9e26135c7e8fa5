import Mathlib
import Oxool.Browser.GarbageCollect
import Oxool.Browser.TileRequests
import Oxool.Delta.Chunks
import Oxool.Lib.Ends

/-!
# Images of tiles (`browser/src/layer/tile/CanvasTileLayer.js`)

The image of a tile is kept twice: as pixels on a canvas, and as the compressed keyframe and deltas it
came from. The garbage collector may take the canvas, and `ensureCanvas` makes it again from the
compressed bytes, through `_applyDelta`, which asks for a context, for which `_ensureContext` may run
the garbage collector, after which the canvas may be gone, so that it calls `ensureCanvas`. The deltas
that arrive go through `_applyDelta` as well.

The browser may refuse a context. `_ensureContext` then frees canvases and asks again, four times in all,
and as the canvas of the tile itself may be among those that were freed, each try may make it again from the
compressed bytes, which asks for contexts in turn. `tiles_survive` follows a run through all of this: the
tries may be refused in any order and any number of times, but for the last one, after which `_applyDelta`
returns without having applied anything. A call within too many others throws, as does the decompression of
what is no compressed frame; what was done before that stays. That the calls are not nested too deep where
the browser does not refuse too many contexts is part of what is proved (`TooDeep`).
-/

set_option autoImplicit false

namespace Oxool.Browser

open Oxool.Http (Bytes)

/-! ## The code -/

/-- The tries of `_ensureContext`, by what was done just before each. -/
inductive Try where
  /-- A collection, if one was due. -/
  | first
  /-- A collection. -/
  | collected
  /-- The canvases of the tiles that are not current were freed. -/
  | nonCurrentFreed
  /-- The canvases of all tiles were freed. -/
  | allFreed

/-- What the code runs on. -/
structure Platform where
  tileSize : Nat
  /-- Whether `getContext` returns one, in the try in which it is called and the how-manieth time. -/
  contexts : Try → Nat → Bool
  /-- `fzstd.decompress`; it throws at `none`. -/
  decompress : Bytes → Option Bytes
  /-- How deep calls of `ensureCanvas` may be nested. -/
  depth : Nat

inductive Thrown where
  | rangeError
  | invalidData
deriving DecidableEq

/-- The layer, and the queues that `_sendProcessedResponse` sends. -/
structure Client where
  layer : Layer
  /-- How often a context was asked for. -/
  asked : Nat
  /-- How often it was refused. -/
  refused : Nat
  queuedProcessed : List Int
  fetchKeyframeQueue : List TileCoordData

abbrev Act := EStateM Thrown Client

/-- The image of an arrived tile. -/
structure TileImage where
  rawData : Bytes
  isKeyframe : Bool
deriving DecidableEq

/-- A parsed `tile:` or `delta:` message, with its coordinates in pixels. -/
structure TileMsg where
  coords : TileCoordData
  wireId : Int
  img : Option TileImage
deriving DecidableEq

namespace Tile

/-- A new canvas. -/
def allocate (tileSize : Nat) (t : Tile) : Tile := { t with canvas := some (blankCanvas tileSize) }

/-- The end of `ensureCanvas`. -/
def rendered (now : Option Int) (t : Tile) : Tile :=
  { t with
    lastRendered := now
    missingContent := if t.hasContent then t.missingContent else t.missingContent + 1 }

/-- If re-creating a canvas from rawDeltas don't update counts. -/
def count (isKeyframe wireMessage : Bool) (t : Tile) : Tile :=
  if !wireMessage then t
  else if isKeyframe then { t with loadCount := t.loadCount + 1, deltaCount := 0, updateCount := 0 }
  else { t with deltaCount := t.deltaCount + 1 }

/-- What is stored for a message; there is nothing to append to at `none`. -/
def stored (rawDelta : Bytes) (isKeyframe : Bool) (t : Tile) : Option Bytes :=
  if isKeyframe then some rawDelta else t.rawDeltas.map (· ++ rawDelta)

/-- The image after the deltas, or the keyframe and the deltas, that were decompressed; `none` if there
was nothing. -/
def rebuilt (tileSize : Nat) (canvas allDeltas : Bytes) (isKeyframe : Bool) (t : Tile) : Option Bytes :=
  let len := if isKeyframe then tileSize * tileSize * 4 else 0
  let imgData := if isKeyframe then some (Delta.unpremultiply (allDeltas.take len)) else none
  let deltas := allDeltas.drop len
  if deltas = [] then imgData
  else
    -- no keyframe: the cached image, or the canvas contents
    let start := imgData.getD (t.imgDataCache.getD canvas)
    some (Delta.applyChunks tileSize deltas.length deltas start)

/-- `putImageData`, where there is an image. -/
def putImage (imgData : Option Bytes) (t : Tile) : Tile :=
  match imgData with
  | some imgData => { t with canvas := some imgData, imgDataCache := some imgData }
  | none => t

theorem count_coords (isKeyframe wireMessage : Bool) (t : Tile) :
    (t.count isKeyframe wireMessage).coords = t.coords := by
  rw [count]
  split_ifs
  · rfl
  · rfl
  · rfl

theorem allocate_coords (tileSize : Nat) (t : Tile) : (t.allocate tileSize).coords = t.coords := rfl

theorem rendered_coords (now : Option Int) (t : Tile) : (t.rendered now).coords = t.coords := rfl

theorem putImage_coords (imgData : Option Bytes) (t : Tile) : (t.putImage imgData).coords = t.coords := by
  cases imgData with
  | none => rfl
  | some imgData => rfl

/-- Force a keyframe, for a delta without one. -/
def forceKeyframe (t : Tile) : Tile := { t with wireId := 0, invalidFrom := 0, gcErrors := t.gcErrors + 1 }

theorem forceKeyframe_coords (t : Tile) : t.forceKeyframe.coords = t.coords := rfl

end Tile

namespace Layer

variable (L : Layer)

/-- The canvases of some tiles are reclaimed. -/
def reclaimWhere (p : Tile → Bool) : Layer :=
  L.modifyAll ((L.tiles.filter fun e => p (L.heap e.2)).map Prod.snd) Tile.reclaimTileCanvasMemory
    Tile.reclaimTileCanvasMemory_coords

/-- `_maybeGarbageCollect`. -/
def maybeGarbageCollect : Layer :=
  let L' := { L with gcCounter := L.gcCounter + 1 }
  if L'.gcCounter % 53 = 0 then L'.garbageCollect else L'

/-- `_invalidateTile`. -/
def invalidateTile (key : Bytes) (wireId : Int) : Layer :=
  match L.find key with
  | none => L
  | some r =>
    if !(L.heap r).hasContent then L.removeTile key
    else L.modify r (fun t => { t with invalidFrom := if wireId ≠ 0 then wireId else t.wireId }) fun _ => rfl

/-- What `_sendTileCombineRequest` sends as `oldwid` for a tile. -/
def oldWireId (key : Bytes) : Int :=
  match L.find key with
  | some r => (L.heap r).wireId
  | none => 0

end Layer

/-! ### Programs -/

def getTile (r : Ref) : Act Tile := do
  let s ← get
  pure (s.layer.heap r)

def onLayer (f : Layer → Layer) : Act Unit := modify fun s => { s with layer := f s.layer }

def modifyTile (r : Ref) (f : Tile → Tile) (hf : ∀ t, (f t).coords = t.coords) : Act Unit :=
  onLayer fun L => L.modify r f hf

variable (p : Platform)

def getContext (attempt : Try) : Act Bool := do
  let s ← get
  modify fun s => { s with asked := s.asked + 1 }
  if p.contexts attempt s.asked then pure true
  else do
    modify fun s => { s with refused := s.refused + 1 }
    pure false

section Calls

-- the call of `ensureCanvas` from within
variable (ensureCanvas : Ref → Option Int → Act Unit)

/-- A canvas, if there is none, and its context. -/
def askContext (attempt : Try) (tile : Ref) : Act Bool := do
  let t ← getTile tile
  (if t.canvas.isSome then pure () else ensureCanvas tile none)
  getContext p attempt

/-- `_ensureContext`: whether there is a context. -/
def ensureContext (tile : Ref) : Act Bool := do
  onLayer Layer.maybeGarbageCollect
  -- important this is after the garbagecollect
  let ctx ← askContext p ensureCanvas .first tile
  if ctx then pure true
  else do
    -- Not a good result - we ran out of canvas memory
    onLayer Layer.garbageCollect
    let ctx ← askContext p ensureCanvas .collected tile
    if ctx then pure true
    else do
      -- Free non-current canvas' and start again.
      onLayer fun L => L.reclaimWhere fun t => !t.current
      let ctx ← askContext p ensureCanvas .nonCurrentFreed tile
      if ctx then pure true
      else do
        -- Throw everything overbarod to free all tiles canvas memory
        onLayer fun L => L.reclaimWhere fun _ => true
        askContext p ensureCanvas .allFreed tile

/-- The second half of `_applyDelta`: apply potentially several deltas in turn. -/
def applyDeltas (tile : Ref) (rawDelta : Bytes) (isKeyframe : Bool) : Act Unit := do
  let t ← getTile tile
  match t.canvas, p.decompress rawDelta with
  -- defer constructing the image & applying these deltas until the tile is rendered
  | none, _ => pure ()
  | some _, none => throw .invalidData
  | some canvas, some allDeltas =>
    -- the array over the pixels of the keyframe cannot be longer than what was decompressed
    if isKeyframe ∧ allDeltas.length < p.tileSize * p.tileSize * 4 then throw .rangeError
    else
      modifyTile tile (Tile.putImage (t.rebuilt p.tileSize canvas allDeltas isKeyframe))
        (Tile.putImage_coords _)

/-- `_applyDelta`. -/
def applyDelta (tile : Ref) (rawDelta : Bytes) (isKeyframe wireMessage : Bool) : Act Unit := do
  let ctx ← ensureContext p ensureCanvas tile
  if !ctx then pure () -- out of canvas / texture memory.
  else if wireMessage ∧ ¬ isKeyframe ∧ rawDelta = [] then
    modifyTile tile (fun t => { t with updateCount := t.updateCount + 1 }) fun _ => rfl -- that was easy
  else do
    modifyTile tile (Tile.count isKeyframe wireMessage) (Tile.count_coords _ _)
    let t ← getTile tile
    match t.stored rawDelta isKeyframe with
    | none => pure () -- Unusual: attempt to append a delta when we have no keyframe.
    | some rawDeltas => do
      modifyTile tile (fun t => { t with rawDeltas := some rawDeltas }) fun _ => rfl
      applyDeltas p tile rawDelta isKeyframe

end Calls

/-- `ensureCanvas`, within at most `depth - 1` calls of itself. -/
def ensureCanvas : Nat → Ref → Option Int → Act Unit
  | 0, _, _ => throw .rangeError
  | depth + 1, tile, now => do
    let t ← getTile tile
    (if t.canvas.isSome then pure ()
    else do
      modifyTile tile (Tile.allocate p.tileSize) (Tile.allocate_coords _)
      -- re-hydrate recursively from cached data
      if t.hasKeyframe then applyDelta p (ensureCanvas depth) tile (t.rawDeltas.getD []) true false
      else pure ())
    modifyTile tile (Tile.rendered now) (Tile.rendered_coords _)

/-- The tile of a message. -/
def findOrCreate (coords : TileCoordData) (now : Int) : Act Ref := do
  let s ← get
  match s.layer.find coords.key with
  | some r => pure r
  | none => do
    onLayer fun L => L.createTile coords now
    pure s.layer.next

def queueAcknowledgement (m : TileMsg) : Act Unit :=
  modify fun s => { s with queuedProcessed := s.queuedProcessed ++ [m.wireId] }

/-- `_tileReady`. -/
def tileReady (coords : TileCoordData) (now : Int) : Act Unit := do
  let s ← get
  match s.layer.find coords.key with
  | none => pure ()
  | some r => modifyTile r (fun t => { t with lastRendered := some now }) fun _ => rfl

/-- `_onTileMsg`. -/
def onTileMsg (m : TileMsg) (now : Int) : Act Unit := do
  let tile ← findOrCreate m.coords now
  modifyTile tile (fun t => { t with wireId := m.wireId }) fun _ => rfl
  let t ← getTile tile
  match m.img with
  | none => queueAcknowledgement m
  | some img =>
    if ¬ img.isKeyframe ∧ ¬ t.hasKeyframe then do
      -- Unusual: Delta sent - but we have no keyframe
      modifyTile tile Tile.forceKeyframe Tile.forceKeyframe_coords
      modify fun s => { s with fetchKeyframeQueue := s.fetchKeyframeQueue ++ [m.coords] }
      queueAcknowledgement m
    else do
      applyDelta p (ensureCanvas p p.depth) tile img.rawData img.isKeyframe true
      tileReady m.coords now
      queueAcknowledgement m

/-- `_sendProcessedResponse`. -/
def sendProcessedResponse : Act Unit :=
  modify fun s => { s with queuedProcessed := [], fetchKeyframeQueue := [] }

/-! ## Runs -/

inductive Action where
  | tileMsg (m : TileMsg) (now : Int)
  /-- A tile of the map is drawn. -/
  | draw (key : Bytes) (now : Int)
  | garbageCollect
  | removeTile (key : Bytes)
  | invalidateTile (key : Bytes) (wireId : Int)
  | createTile (coords : TileCoordData) (now : Int)
  /-- The layer says which tiles are visible. -/
  | setCurrent (key : Bytes) (current : Bool)
  | sendProcessedResponse

/-- What is done to a tile of the map. -/
def withTile (key : Bytes) (f : Ref → Act Unit) : Act Unit := do
  let s ← get
  match s.layer.find key with
  | none => pure ()
  | some r => f r

/-- What the code does. -/
def perform : Action → Act Unit
  | .tileMsg m now => onTileMsg p m now
  | .draw key now => withTile key fun r => ensureCanvas p p.depth r (some now)
  | .garbageCollect => onLayer Layer.garbageCollect
  | .removeTile key => onLayer fun L => L.removeTile key
  | .invalidateTile key wireId => onLayer fun L => L.invalidateTile key wireId
  | .createTile coords now => onLayer fun L => L.createTile coords now
  | .setCurrent key current =>
    withTile key fun r => modifyTile r (fun t => { t with current := current }) fun _ => rfl
  | .sendProcessedResponse => sendProcessedResponse

def Client.init : Client := ⟨noTiles 0, 0, 0, [], []⟩

/-- What happens to the client from the start on. -/
def clientAfter (as : List Action) : Client := as.foldl (fun s a => stateAfter (perform p a) s) .init

/-- The last keyframe that was received for some coordinates, and the deltas since. -/
structure Received where
  keyframe : Bytes
  deltas : List Bytes

/-- What an image that arrives adds. -/
def receive (img : TileImage) (h : Option Received) : Option Received :=
  if img.isKeyframe then some ⟨img.rawData, []⟩
  else h.map fun h => { h with deltas := h.deltas ++ [img.rawData] }

def receiveAction (key : Bytes) (h : Option Received) : Action → Option Received
  | .tileMsg ⟨coords, _, some img⟩ _ => if coords.key = key then receive img h else h
  | _ => h

/-- What was received for the coordinates of a key. -/
def received (as : List Action) (key : Bytes) : Option Received :=
  as.foldl (receiveAction key) none

/-! ## What is said of the code -/

section Client

variable {s : Client} {r : Ref} {E : Client → Prop}

theorem ends_getTile {Q : Tile → Client → Prop} : Ends (getTile r) s E Q ↔ Q (s.layer.heap r) s := by
  simp only [getTile, ends_bind, ends_get, ends_pure]

theorem ends_onLayer {f : Layer → Layer} {Q : Unit → Client → Prop} :
    Ends (onLayer f) s E Q ↔ Q () { s with layer := f s.layer } :=
  ends_modify _

theorem ends_modifyTile {f : Tile → Tile} {hf : ∀ t, (f t).coords = t.coords} {Q : Unit → Client → Prop} :
    Ends (modifyTile r f hf) s E Q ↔ Q () { s with layer := s.layer.modify r f hf } :=
  ends_onLayer

end Client

theorem Layer.modify_self (L : Layer) (r : Ref) (f : Tile → Tile) (hf : ∀ t, (f t).coords = t.coords) :
    (L.modify r f hf).heap r = f (L.heap r) := by
  rw [modify_heap, if_pos rfl]

theorem Layer.modify_of_ne (L : Layer) {r r' : Ref} (hne : r' ≠ r) (f : Tile → Tile)
    (hf : ∀ t, (f t).coords = t.coords) : (L.modify r f hf).heap r' = L.heap r' := by
  rw [modify_heap, if_neg hne]

/-! ### What collections leave -/

/-- A canvas shows the image of the bytes that are there, and so does the cached image; where there are
no bytes, no image is cached. -/
structure Tile.Shown (t : Tile) : Prop where
  image : ∀ raw canvas, t.rawDeltas = some raw → t.canvas = some canvas →
    Delta.keyframeImage p.decompress p.tileSize raw = some canvas ∧ t.imgDataCache = some canvas
  content : t.rawDeltas = none → t.imgDataCache = none

/-- What becomes of a tile that no message is for: it may lose its bytes, but then it asks for a
keyframe, and it may lose its canvas or get it back. -/
structure Tile.Keeps (t t' : Tile) : Prop where
  coords : t'.coords = t.coords
  kept : (t'.rawDeltas = t.rawDeltas ∧ (t'.wireId = t.wireId ∨ t'.wireId = 0)) ∨
    (t'.rawDeltas = none ∧ t'.wireId = 0)
  shown : t.Shown p → t'.Shown p

/-- No tile of the map is new, and what becomes of the tiles. -/
structure Layer.Keeps (L L' : Layer) : Prop where
  tiles : L'.tiles.Sublist L.tiles
  heap : ∀ r, (L.heap r).Keeps p (L'.heap r)

variable {p}

namespace Tile

theorem Shown.congr {t t' : Tile} (h : t.Shown p) (hraw : t'.rawDeltas = t.rawDeltas)
    (hcanvas : t'.canvas = t.canvas) (hcache : t'.imgDataCache = t.imgDataCache) : t'.Shown p := by
  obtain ⟨himage, hcontent⟩ := h
  rw [← hraw, ← hcanvas, ← hcache] at himage
  rw [← hraw, ← hcache] at hcontent
  exact ⟨himage, hcontent⟩

theorem Keeps.refl (t : Tile) : t.Keeps p t := ⟨rfl, .inl ⟨rfl, .inl rfl⟩, id⟩

theorem Keeps.trans {t t' t'' : Tile} (h : t.Keeps p t') (h' : t'.Keeps p t'') : t.Keeps p t'' := by
  refine ⟨h'.coords.trans h.coords, ?_, fun hshown => h'.shown (h.shown hshown)⟩
  rcases h'.kept with ⟨hraw', hwire'⟩ | hnone
  · rw [hraw']
    rcases h.kept with ⟨hraw, hwire⟩ | ⟨hraw, hwire⟩
    · refine .inl ⟨hraw, ?_⟩
      rcases hwire' with hwire' | hwire'
      · rw [hwire']
        exact hwire
      · exact .inr hwire'
    · refine .inr ⟨hraw, ?_⟩
      rcases hwire' with hwire' | hwire'
      · exact hwire'.trans hwire
      · exact hwire'
  · exact .inr hnone

theorem keeps_reclaimTileCanvasMemory (t : Tile) : t.Keeps p t.reclaimTileCanvasMemory :=
  ⟨rfl, .inl ⟨rfl, .inl rfl⟩, fun _ => ⟨fun _ _ _ hcanvas => (nomatch hcanvas), fun _ => rfl⟩⟩

theorem keeps_reclaimDeltas (t : Tile) : t.Keeps p t.reclaimDeltas :=
  ⟨rfl, .inr ⟨rfl, rfl⟩, fun _ => ⟨fun _ _ hraw => (nomatch hraw), fun _ => rfl⟩⟩

theorem keeps_frame : Frame fun t' t => Tile.Keeps p t t' :=
  ⟨Keeps.refl, fun h h' => h'.trans h⟩

end Tile

namespace Layer

theorem Keeps.refl (L : Layer) : L.Keeps p L := ⟨List.Sublist.refl _, fun _ => .refl _⟩

theorem Keeps.trans {L L' L'' : Layer} (h : L.Keeps p L') (h' : L'.Keeps p L'') : L.Keeps p L'' :=
  ⟨h'.tiles.trans h.tiles, fun r => (h.heap r).trans (h'.heap r)⟩

theorem keeps_garbageCollect (L : Layer) : L.Keeps p L.garbageCollect := by
  refine ⟨L.garbageCollect_tiles_sublist, fun r => ?_⟩
  have hpasses := L.passes_frame (Tile.keeps_frame (p := p)) Tile.keeps_reclaimTileCanvasMemory
    Tile.keeps_reclaimDeltas L.totalSize r
  exact hpasses.trans ((L.canvasPass.deltaPass L.totalSize).tilePass_frame Tile.keeps_frame
    Tile.keeps_reclaimTileCanvasMemory r)

theorem maybeGarbageCollect_gcCounter (L : Layer) :
    L.maybeGarbageCollect.gcCounter = L.gcCounter + 1 := by
  rw [maybeGarbageCollect]
  dsimp only
  split
  · exact garbageCollect_gcCounter _
  · rfl

theorem keeps_maybeGarbageCollect (L : Layer) : L.Keeps p L.maybeGarbageCollect := by
  have hcounted : L.Keeps p { L with gcCounter := L.gcCounter + 1 } :=
    ⟨List.Sublist.refl _, fun _ => .refl _⟩
  rw [maybeGarbageCollect]
  dsimp only
  split
  · exact hcounted.trans (keeps_garbageCollect _)
  · exact hcounted

/-- Where no collection is due, none is made. -/
theorem maybeGarbageCollect_heap {L : Layer} (hdue : (L.gcCounter + 1) % 53 ≠ 0) :
    L.maybeGarbageCollect.heap = L.heap := by
  rw [maybeGarbageCollect]
  dsimp only
  rw [if_neg hdue]

theorem keeps_modify (L : Layer) {r : Ref} {f : Tile → Tile} (hf : ∀ t, (f t).coords = t.coords)
    (h : (L.heap r).Keeps p (f (L.heap r))) : L.Keeps p (L.modify r f hf) := by
  refine ⟨List.Sublist.refl _, fun r' => ?_⟩
  by_cases heq : r' = r
  · rw [heq, modify_self]
    exact h
  · rw [modify_of_ne L heq]
    exact .refl _

theorem keeps_removeTile (L : Layer) (key : Bytes) : L.Keeps p (L.removeTile key) := by
  refine ⟨?_, fun r => ?_⟩
  · rw [removeTile_tiles]
    exact List.filter_sublist
  · rw [removeTile_heap]
    split
    · exact Tile.keeps_reclaimTileCanvasMemory _
    · exact .refl _

end Layer

theorem Layer.keeps_reclaimWhere (L : Layer) (which : Tile → Bool) : L.Keeps p (L.reclaimWhere which) := by
  refine ⟨?_, fun r => L.modifyAll_frame Tile.keeps_frame Tile.keeps_reclaimTileCanvasMemory _ _ r⟩
  rw [reclaimWhere, modifyAll_tiles]

/-- What becomes of the client while contexts are asked for: the layer keeps what it is to keep, and no
refusal is uncounted. -/
structure Client.Keeps (p : Platform) (s s' : Client) : Prop where
  layer : s.layer.Keeps p s'.layer
  refused : s.refused ≤ s'.refused

theorem Client.Keeps.refl (s : Client) : s.Keeps p s := ⟨.refl _, Nat.le_refl _⟩

theorem Client.Keeps.trans {s s' s'' : Client} (h : s.Keeps p s') (h' : s'.Keeps p s'') : s.Keeps p s'' :=
  ⟨h.layer.trans h'.layer, h.refused.trans h'.refused⟩

theorem Client.keeps_onLayer (s : Client) {L : Layer} (h : s.layer.Keeps p L) :
    s.Keeps p { s with layer := L } :=
  ⟨h, Nat.le_refl _⟩

/-! ### Contexts -/

/-- After a call with a canvas for `r`, all tiles keep what they are to keep. -/
def HasCanvas (p : Platform) (s : Client) (r : Ref) (s' : Client) : Prop :=
  s.Keeps p s' ∧ (s'.layer.heap r).canvas.isSome = true

section Contexts

variable (hcontexts : ∀ n, p.contexts .allFreed n = true) {call : Ref → Option Int → Act Unit} {r : Ref}
  {E : Client → Prop}
include hcontexts

/-- A try leaves a canvas, whether its context is given or not; only the last one is never in vain. -/
theorem ends_askContext {s : Client} (attempt : Try)
    (hcall : (s.layer.heap r).canvas = none → Ends (call r none) s E fun _ s' => HasCanvas p s r s') :
    Ends (askContext p call attempt r) s E fun ctx s' => HasCanvas p s r s' ∧
      (ctx = false → attempt ≠ .allFreed ∧ s.refused < s'.refused) := by
  have hcanvas : Ends (if (s.layer.heap r).canvas.isSome then pure () else call r none) s E
      fun _ s' => HasCanvas p s r s' := by
    refine .ite (fun hsome => ?_) fun hnone => hcall ?_
    · rw [ends_pure]
      exact ⟨.refl _, hsome⟩
    · exact Option.not_isSome_iff_eq_none.mp hnone
  rw [askContext, ends_bind, ends_getTile, ends_bind]
  refine hcanvas.mono fun _ s' h => ?_
  obtain ⟨hkeeps, hcanvas⟩ := h
  rw [getContext, ends_bind, ends_get, ends_bind, ends_modify]
  refine .ite (fun hgiven => ?_) fun hrefused => ?_
  · rw [ends_pure]
    exact ⟨⟨⟨hkeeps.layer, hkeeps.refused⟩, hcanvas⟩, fun h => nomatch h⟩
  · rw [ends_bind, ends_modify, ends_pure]
    refine ⟨⟨⟨hkeeps.layer, Nat.le_succ_of_le hkeeps.refused⟩, hcanvas⟩, fun _ => ⟨?_, ?_⟩⟩
    · rintro rfl
      exact hrefused (hcontexts _)
    · exact Nat.lt_succ_of_le hkeeps.refused

/-- A try after another one, for which something was freed. -/
theorem ends_askContext_again {s s₁ : Client} (hkeeps : s.Keeps p s₁) (hrefused : s.refused < s₁.refused)
    (hagain : ∀ s' : Client, s.Keeps p s' → s.refused < s'.refused →
      Ends (call r none) s' E fun _ s'' => HasCanvas p s' r s'') (attempt : Try) {L : Layer}
    (hfreed : s₁.layer.Keeps p L) :
    Ends (askContext p call attempt r) { s₁ with layer := L } E fun ctx s₂ => HasCanvas p s r s₂ ∧
      s.refused < s₂.refused ∧ (ctx = false → attempt ≠ .allFreed) := by
  have hstart := hkeeps.trans (s₁.keeps_onLayer hfreed)
  refine (ends_askContext hcontexts attempt fun _ => hagain _ hstart hrefused).mono fun ctx s₂ h => ?_
  obtain ⟨⟨hkeeps₂, hcanvas⟩, hvain⟩ := h
  exact ⟨⟨hstart.trans hkeeps₂, hcanvas⟩, lt_of_lt_of_le hrefused hkeeps₂.refused, fun hctx => (hvain hctx).1⟩

/-- **A context is there in the end**, whatever was freed for it, where the calls for a canvas end: the one
after a collection that was due, and those after a try was refused. -/
theorem ends_ensureContext {s : Client}
    (hfirst : (s.layer.maybeGarbageCollect.heap r).canvas = none →
      Ends (call r none) { s with layer := s.layer.maybeGarbageCollect } E fun _ s' =>
        HasCanvas p { s with layer := s.layer.maybeGarbageCollect } r s')
    (hagain : ∀ s' : Client, s.Keeps p s' → s.refused < s'.refused →
      Ends (call r none) s' E fun _ s'' => HasCanvas p s' r s'') :
    Ends (ensureContext p call r) s E fun ctx s' => ctx = true ∧ HasCanvas p s r s' := by
  have hcollected := s.keeps_onLayer (p := p) s.layer.keeps_maybeGarbageCollect
  rw [ensureContext, ends_bind, ends_onLayer, ends_bind]
  refine (ends_askContext hcontexts .first hfirst).mono fun ctx s₁ h => ?_
  obtain ⟨⟨hkeeps₁, hcanvas₁⟩, hvain₁⟩ := h
  have hkeeps₁ := hcollected.trans hkeeps₁
  refine .ite (fun _ => (ends_pure _).mpr ⟨rfl, hkeeps₁, hcanvas₁⟩) fun hctx => ?_
  have hrefused₁ : s.refused < s₁.refused := (hvain₁ (Bool.eq_false_of_not_eq_true hctx)).2
  rw [ends_bind, ends_onLayer, ends_bind]
  refine (ends_askContext_again hcontexts hkeeps₁ hrefused₁ hagain .collected
    s₁.layer.keeps_garbageCollect).mono fun ctx s₂ h => ?_
  obtain ⟨hcanvas₂, hrefused₂, -⟩ := h
  refine .ite (fun _ => (ends_pure _).mpr ⟨rfl, hcanvas₂⟩) fun _ => ?_
  rw [ends_bind, ends_onLayer, ends_bind]
  refine (ends_askContext_again hcontexts hcanvas₂.1 hrefused₂ hagain .nonCurrentFreed
    (s₂.layer.keeps_reclaimWhere _)).mono fun ctx s₃ h => ?_
  obtain ⟨hcanvas₃, hrefused₃, -⟩ := h
  refine .ite (fun _ => (ends_pure _).mpr ⟨rfl, hcanvas₃⟩) fun _ => ?_
  rw [ends_bind, ends_onLayer]
  refine (ends_askContext_again hcontexts hcanvas₃.1 hrefused₃ hagain .allFreed
    (s₃.layer.keeps_reclaimWhere _)).mono fun ctx s₄ h => ?_
  obtain ⟨hcanvas₄, -, hgiven⟩ := h
  refine ⟨?_, hcanvas₄⟩
  by_contra hctx
  exact hgiven (Bool.eq_false_of_not_eq_true hctx) rfl

end Contexts

/-! ### Deltas -/

/-- A tile without a keyframe has no bytes at all, and a keyframe can be decompressed. -/
def Tile.Valid (p : Platform) (t : Tile) : Prop :=
  ∀ raw, t.rawDeltas = some raw → Delta.IsKeyframe p.decompress p.tileSize raw

theorem Tile.Valid.keeps {t t' : Tile} (ht : t.Valid p) (h : t.Keeps p t') : t'.Valid p := by
  intro raw hraw
  rcases h.kept with ⟨hsame, -⟩ | ⟨hnone, -⟩
  · exact ht raw (hsame ▸ hraw)
  · rw [hnone] at hraw
    cases hraw

theorem Tile.Valid.hasKeyframe {t : Tile} (ht : t.Valid p) : t.hasKeyframe = t.rawDeltas.isSome := by
  rw [Tile.hasKeyframe]
  cases hraw : t.rawDeltas with
  | none => rfl
  | some raw => exact decide_eq_true (ht raw hraw).1

theorem ends_applyDeltas {s : Client} {r : Ref} {raw allDeltas : Bytes} {isKeyframe : Bool}
    (canvas : Bytes) {E : Client → Prop} {Q : Unit → Client → Prop}
    (hcanvas : (s.layer.heap r).canvas = some canvas)
    (hraw : p.decompress raw = some allDeltas)
    (hlen : isKeyframe = true → p.tileSize * p.tileSize * 4 ≤ allDeltas.length)
    (hQ : ∀ L, L.tiles = s.layer.tiles → (∀ r', r' ≠ r → L.heap r' = s.layer.heap r') →
      L.heap r = (s.layer.heap r).putImage
        ((s.layer.heap r).rebuilt p.tileSize canvas allDeltas isKeyframe) →
      Q () { s with layer := L }) :
    Ends (applyDeltas p r raw isKeyframe) s E Q := by
  rw [applyDeltas, ends_bind, ends_getTile, hcanvas, hraw]
  dsimp only
  rw [if_neg (fun h => Nat.not_lt.mpr (hlen h.1) h.2), ends_modifyTile]
  exact hQ _ rfl (fun r' hne => Layer.modify_of_ne _ hne _ _) (Layer.modify_self _ _ _ _)

theorem Tile.putImage_rawDeltas (imgData : Option Bytes) (t : Tile) :
    (t.putImage imgData).rawDeltas = t.rawDeltas := by
  cases imgData with
  | none => rfl
  | some imgData => rfl

/-- The image of a keyframe. -/
theorem Tile.rebuilt_keyframe {t : Tile} {raw pixels chunks canvas : Bytes}
    (hraw : p.decompress raw = some (pixels ++ chunks)) (hlen : pixels.length = p.tileSize * p.tileSize * 4)
    (hchunks : Delta.IsChunks chunks) : t.rebuilt p.tileSize canvas (pixels ++ chunks) true =
      Delta.keyframeImage p.decompress p.tileSize raw := by
  rw [Delta.keyframeImage_eq hraw hlen hchunks, rebuilt, if_pos rfl, if_pos rfl]
  dsimp only
  rw [← hlen, List.take_left, List.drop_left]
  split
  · rename_i hnil
    rw [hnil]
    rfl
  · rfl

/-- A delta is applied to the cached image. -/
theorem Tile.shown_putImage_delta {t : Tile} {raw canvas allDeltas : Bytes} (hcanvas : t.canvas = some canvas)
    (hcache : t.imgDataCache = some canvas) (hraw : t.rawDeltas = some raw)
    (himage : Delta.keyframeImage p.decompress p.tileSize raw =
      some (Delta.applyChunks p.tileSize allDeltas.length allDeltas canvas)) :
    (t.putImage (t.rebuilt p.tileSize canvas allDeltas false)).Shown p := by
  refine ⟨fun raw' canvas' hraw' hcanvas' => ?_, fun hnone => ?_⟩
  case refine_2 =>
    rw [putImage_rawDeltas, hraw] at hnone
    cases hnone
  rw [putImage_rawDeltas, hraw] at hraw'
  cases hraw'
  rw [rebuilt, if_neg Bool.false_ne_true, if_neg Bool.false_ne_true, List.drop_zero, hcache] at hcanvas' ⊢
  dsimp only at hcanvas' ⊢
  split at hcanvas'
  · rename_i hnil
    rw [if_pos hnil]
    rw [hnil] at himage
    rw [putImage, hcanvas] at hcanvas'
    cases hcanvas'
    exact ⟨himage, hcache⟩
  · rename_i hne
    rw [if_neg hne]
    cases hcanvas'
    exact ⟨himage, rfl⟩

/-- What becomes of the tiles when one of them is changed as well. -/
structure Layer.KeepsBut (p : Platform) (L : Layer) (r : Ref) (L' : Layer) (R : Tile → Tile → Prop) :
    Prop where
  tiles : L'.tiles.Sublist L.tiles
  heap : ∀ r', r' ≠ r → (L.heap r').Keeps p (L'.heap r')
  self : R (L.heap r) (L'.heap r)

theorem Layer.Keeps.keepsBut_modify {L L' : Layer} (h : L.Keeps p L') {r : Ref} {R : Tile → Tile → Prop}
    {f : Tile → Tile} {hf : ∀ t, (f t).coords = t.coords} (hR : R (L.heap r) (f (L'.heap r))) :
    L.KeepsBut p r (L'.modify r f hf) R := by
  refine ⟨h.tiles, fun r' hne => ?_, ?_⟩
  · rw [modify_of_ne L' hne]
    exact h.heap r'
  · rw [modify_self]
    exact hR

theorem Layer.KeepsBut.mono {L L' : Layer} {r : Ref} {R R' : Tile → Tile → Prop} (h : L.KeepsBut p r L' R)
    (hR : R (L.heap r) (L'.heap r) → R' (L.heap r) (L'.heap r)) : L.KeepsBut p r L' R' :=
  ⟨h.tiles, h.heap, hR h.self⟩

/-- A keyframe: its bytes are there, and its image, however the tile was before. -/
structure Tile.Loads (p : Platform) (raw : Bytes) (t t' : Tile) : Prop where
  coords : t'.coords = t.coords
  rawDeltas : t'.rawDeltas = some raw
  wireId : t'.wireId = t.wireId ∨ t'.wireId = 0
  shown : t'.Shown p
  canvas : t'.canvas.isSome = true

/-- A delta behind the bytes that are there; or there are none, and a keyframe will be asked for. -/
structure Tile.Receives (p : Platform) (delta : Bytes) (t t' : Tile) : Prop where
  coords : t'.coords = t.coords
  kept : (∃ raw, t.rawDeltas = some raw ∧ t'.rawDeltas = some (raw ++ delta)) ∨
    (t'.rawDeltas = none ∧ t'.wireId = 0)
  shown : t.Shown p → t'.Shown p

section Apply

variable {call : Ref → Option Int → Act Unit} {r : Ref} {s : Client} {E : Client → Prop}
  (hctx : Ends (ensureContext p call r) s E fun ctx s' => ctx = true ∧ HasCanvas p s r s')
include hctx

/-- **A keyframe is applied**, from the wire or from what is kept. -/
theorem ends_applyDelta_keyframe {raw : Bytes} (hraw : Delta.IsKeyframe p.decompress p.tileSize raw)
    (wireMessage : Bool) : Ends (applyDelta p call r raw true wireMessage) s E fun _ s' =>
      s.layer.KeepsBut p r s'.layer (Tile.Loads p raw) ∧ s.refused ≤ s'.refused := by
  obtain ⟨-, pixels, chunks, hpixels, hlen, hchunks⟩ := hraw
  have himage := Delta.keyframeImage_eq hpixels hlen hchunks
  rw [applyDelta]
  refine hctx.bind fun ctx s₁ h => ?_
  obtain ⟨hctx, ⟨hkeeps, hrefused⟩, hcanvas⟩ := h
  obtain ⟨canvas, hcanvas⟩ := Option.isSome_iff_exists.mp hcanvas
  have hwire : ∀ t : Tile, (t.count true wireMessage).wireId = t.wireId ∧
      (t.count true wireMessage).canvas = t.canvas := by
    intro t
    cases wireMessage with
    | false => exact ⟨rfl, rfl⟩
    | true => exact ⟨rfl, rfl⟩
  rw [hctx, if_neg (by simp), if_neg (by simp), ends_bind, ends_modifyTile, ends_bind, ends_getTile]
  dsimp only
  rw [Tile.stored, if_pos rfl]
  dsimp only
  rw [ends_bind, ends_modifyTile]
  refine ends_applyDeltas canvas ?_ hpixels ?_ ?_
  · dsimp only
    rw [Layer.modify_self, Layer.modify_self, (hwire _).2, hcanvas]
  · rw [List.length_append, hlen]
    exact fun _ => Nat.le_add_right _ _
  · intro L htiles hother hself
    dsimp only at htiles hother hself
    rw [Tile.rebuilt_keyframe hpixels hlen hchunks, himage, Layer.modify_self, Layer.modify_self] at hself
    refine ⟨⟨?_, ?_, ?_⟩, hrefused⟩
    · rw [htiles]
      exact hkeeps.tiles
    · intro r' hne
      rw [hother r' hne, Layer.modify_of_ne _ hne, Layer.modify_of_ne _ hne]
      exact hkeeps.heap r'
    · have hr := hkeeps.heap r
      rw [hself]
      refine ⟨(Tile.count_coords _ _ _).trans hr.coords, rfl, ?_, ?_, rfl⟩
      · show ((s₁.layer.heap r).count true wireMessage).wireId = _ ∨ _
        rw [(hwire _).1]
        rcases hr.kept with ⟨-, hwire⟩ | ⟨-, hwire⟩
        · exact hwire
        · exact .inr hwire
      · refine ⟨fun raw' canvas' hraw' hcanvas' => ?_, fun hnone => nomatch hnone⟩
        cases hraw'
        cases hcanvas'
        exact ⟨himage, rfl⟩

/-- **A delta is appended**, or the tile asks for a keyframe. -/
theorem ends_applyDelta_delta (hdecompress : Delta.Concatenates p.decompress) {raw delta : Bytes}
    (hvalid : (s.layer.heap r).Valid p) (hraw : (s.layer.heap r).rawDeltas = some raw)
    (hdelta : Delta.IsDelta p.decompress delta) : Ends (applyDelta p call r delta false true) s E
      fun _ s' => s.layer.KeepsBut p r s'.layer (Tile.Receives p delta) := by
  rw [applyDelta]
  refine hctx.bind fun ctx s₁ h => ?_
  obtain ⟨hctx, ⟨hkeeps, -⟩, hcanvas⟩ := h
  obtain ⟨canvas, hcanvas⟩ := Option.isSome_iff_exists.mp hcanvas
  have hr := hkeeps.heap r
  rw [hctx, if_neg (by simp)]
  by_cases hnil : delta = []
  · have heasy : true = true ∧ ¬ false = true ∧ delta = [] := ⟨rfl, Bool.false_ne_true, hnil⟩
    rw [if_pos heasy, ends_modifyTile]
    dsimp only
    refine hkeeps.keepsBut_modify ⟨hr.coords, ?_, fun h => (hr.shown h).congr rfl rfl rfl⟩
    rcases hr.kept with ⟨hsame, -⟩ | hnone
    · rw [hnil]
      exact .inl ⟨raw, hraw, hsame.trans (hraw.trans (congrArg some (List.append_nil raw).symm))⟩
    · exact .inr hnone
  · obtain ⟨chunks, hchunks, hischunks⟩ := hdelta hnil
    rw [if_neg (fun h => hnil h.2.2), ends_bind, ends_modifyTile, ends_bind, ends_getTile]
    dsimp only
    rw [Layer.modify_self]
    have hstored : ((s₁.layer.heap r).count false true).stored delta false =
        (s₁.layer.heap r).rawDeltas.map (· ++ delta) := rfl
    rw [hstored]
    cases hraw₁ : (s₁.layer.heap r).rawDeltas with
    | none =>
      rw [Option.map_none]
      dsimp only
      rw [ends_pure]
      dsimp only
      refine hkeeps.keepsBut_modify ⟨hr.coords, ?_, fun h => (hr.shown h).congr rfl rfl rfl⟩
      rcases hr.kept with ⟨hsame, -⟩ | hnone
      · rw [hraw₁, hraw] at hsame
        cases hsame
      · exact .inr hnone
    | some raw₁ =>
      have hsame : raw₁ = raw := by
        rcases hr.kept with ⟨hsame, -⟩ | ⟨hnone, -⟩
        · rw [hraw₁, hraw] at hsame
          exact Option.some.inj hsame
        · rw [hraw₁] at hnone
          cases hnone
      subst hsame
      rw [Option.map_some]
      dsimp only
      rw [ends_bind, ends_modifyTile]
      refine ends_applyDeltas canvas ?_ hchunks (fun h => nomatch h) ?_
      · dsimp only
        rw [Layer.modify_self, Layer.modify_self]
        exact hcanvas
      · intro L htiles hother hself
        dsimp only at htiles hother hself
        rw [Layer.modify_self, Layer.modify_self] at hself
        refine ⟨?_, ?_, ?_⟩
        · rw [htiles]
          exact hkeeps.tiles
        · intro r' hne
          rw [hother r' hne, Layer.modify_of_ne _ hne, Layer.modify_of_ne _ hne]
          exact hkeeps.heap r'
        · refine ⟨?_, .inl ⟨raw₁, hraw, ?_⟩, fun hshown => ?_⟩
          · rw [hself, Tile.putImage_coords]
            exact hr.coords
          · rw [hself, Tile.putImage_rawDeltas]
          · obtain ⟨himage, hcache⟩ := (hr.shown hshown).image raw₁ canvas hraw₁ hcanvas
            rw [hself]
            refine Tile.shown_putImage_delta hcanvas hcache rfl ?_
            rw [(hvalid raw₁ hraw).image_append hdecompress hdelta, himage,
              Delta.applyDelta_delta hnil hchunks]

end Apply

/-! ### Canvases -/

theorem Tile.keeps_rendered (t : Tile) (now : Option Int) : t.Keeps p (t.rendered now) :=
  ⟨rfl, .inl ⟨rfl, .inl rfl⟩, fun h => h.congr rfl rfl rfl⟩

/-- A canvas is made again from what is kept, where its context is given. -/
theorem ends_ensureCanvas_succ {depth : Nat} {r : Ref} {s : Client} {now : Option Int} {E : Client → Prop}
    (hvalid : (s.layer.heap r).Valid p)
    (hctx : ∀ s₀ : Client, s₀.layer = s.layer.modify r (Tile.allocate p.tileSize) (Tile.allocate_coords _) →
      s₀.refused = s.refused → Ends (ensureContext p (ensureCanvas p depth) r) s₀ E fun ctx s' =>
        ctx = true ∧ HasCanvas p s₀ r s') :
    Ends (ensureCanvas p (depth + 1) r now) s E fun _ s' => HasCanvas p s r s' := by
  rw [ensureCanvas, ends_bind, ends_getTile, ends_bind]
  refine Ends.mono (Q := fun _ s' => HasCanvas p s r s') (.ite (fun hsome => ?_) fun _ => ?_) ?_
  · rw [ends_pure]
    exact ⟨.refl _, hsome⟩
  · rw [ends_bind, ends_modifyTile]
    refine .ite (fun hkeyframe => ?_) fun hkeyframe => ?_
    · -- re-hydrate from what is kept
      rw [hvalid.hasKeyframe] at hkeyframe
      obtain ⟨raw, hraw⟩ := Option.isSome_iff_exists.mp hkeyframe
      rw [hraw, Option.getD_some]
      have hallocated := hctx { s with layer := s.layer.modify r (Tile.allocate p.tileSize) (Tile.allocate_coords _) }
        rfl rfl
      refine (ends_applyDelta_keyframe hallocated (hvalid raw hraw) false).mono fun _ s' h => ?_
      obtain ⟨⟨htiles, hother, hself⟩, hrefused⟩ := h
      dsimp only at htiles hother hself hrefused
      rw [Layer.modify_self] at hself
      refine ⟨⟨⟨htiles, fun r' => ?_⟩, hrefused⟩, hself.canvas⟩
      by_cases heq : r' = r
      · rw [heq]
        refine ⟨hself.coords, .inl ⟨?_, hself.wireId⟩, fun _ => hself.shown⟩
        rw [hself.rawDeltas, hraw]
      · have hkeeps := hother r' heq
        rw [Layer.modify_of_ne _ heq] at hkeeps
        exact hkeeps
    · rw [hvalid.hasKeyframe, Option.not_isSome_iff_eq_none] at hkeyframe
      have hkeeps : (s.layer.heap r).Keeps p ((s.layer.heap r).allocate p.tileSize) := by
        refine ⟨rfl, .inl ⟨rfl, .inl rfl⟩, fun h => ⟨fun raw _ hraw => ?_, h.content⟩⟩
        rw [Tile.allocate, hkeyframe] at hraw
        cases hraw
      rw [ends_pure]
      refine ⟨s.keeps_onLayer (s.layer.keeps_modify (Tile.allocate_coords _) hkeeps), ?_⟩
      dsimp only
      rw [Layer.modify_self]
      rfl
  · intro _ s' h
    rw [ends_modifyTile]
    refine ⟨h.1.trans (s'.keeps_onLayer (s'.layer.keeps_modify (Tile.rendered_coords now)
      ((s'.layer.heap r).keeps_rendered now))), ?_⟩
    dsimp only
    rw [Layer.modify_self]
    exact h.2

section Depth

/-- The calls were nested too deep for what was refused: a call of `ensureCanvas` within another one is due
to a refusal, or to a collection, and there is none of these in the next one. -/
def TooDeep (depth : Nat) (s : Client) : Prop := depth < 2 * s.refused + 2

theorem TooDeep.anti {depth depth' : Nat} (hle : depth ≤ depth') {s : Client} (h : TooDeep depth' s) :
    TooDeep depth s :=
  Nat.lt_of_le_of_lt hle h

variable (hcontexts : ∀ n, p.contexts .allFreed n = true)
include hcontexts

/-- **A call of `ensureCanvas` ends**, or the browser refused about half as many contexts as calls may be
nested, and about one more where no collection is due. -/
theorem ends_ensureCanvas_due (depth : Nat) {r : Ref} {s : Client} {now : Option Int}
    (hvalid : (s.layer.heap r).Valid p) :
    Ends (ensureCanvas p depth r now) s (TooDeep (depth + 2 * s.refused)) (fun _ s' => HasCanvas p s r s') ∧
      ((s.layer.gcCounter + 1) % 53 ≠ 0 → Ends (ensureCanvas p depth r now) s
        (TooDeep (depth + 1 + 2 * s.refused)) fun _ s' => HasCanvas p s r s') := by
  induction depth generalizing s now with
  | zero =>
    have hdeep : TooDeep (0 + 1 + 2 * s.refused) s := by
      rw [TooDeep]
      omega
    rw [ensureCanvas, ends_throw, ends_throw]
    exact ⟨hdeep.anti (by omega), fun _ => hdeep⟩
  | succ depth ih =>
    -- what is called after a refusal has one refusal less to wait for
    have hagain : ∀ s₀ : Client, (s₀.layer.heap r).Valid p → s₀.refused = s.refused →
        ∀ s₁ : Client, s₀.Keeps p s₁ → s₀.refused < s₁.refused →
          Ends (ensureCanvas p depth r none) s₁ (TooDeep (depth + 1 + 1 + 2 * s.refused))
            fun _ s' => HasCanvas p s₁ r s' := by
      intro s₀ hvalid₀ hsame s₁ hkeeps hrefused
      refine (ih (hvalid₀.keeps (hkeeps.layer.heap r))).1.weaken (fun _ => .anti ?_) fun _ _ => id
      omega
    have halloc : ∀ s₀ : Client, s₀.layer = s.layer.modify r (Tile.allocate p.tileSize) (Tile.allocate_coords _) →
        (s₀.layer.heap r).Valid p ∧ (s₀.layer.heap r).canvas.isSome = true ∧
          s₀.layer.gcCounter = s.layer.gcCounter := by
      intro s₀ hs₀
      rw [hs₀, Layer.modify_self]
      exact ⟨hvalid, rfl, rfl⟩
    have hnotDue : ∀ s₀ : Client, (s₀.layer.heap r).canvas.isSome = true →
        (s₀.layer.gcCounter + 1) % 53 ≠ 0 → (s₀.layer.maybeGarbageCollect.heap r).canvas ≠ none := by
      intro s₀ hcanvas hdue
      rw [Layer.maybeGarbageCollect_heap hdue]
      exact Option.isSome_iff_ne_none.mp hcanvas
    constructor
    · refine ends_ensureCanvas_succ hvalid fun s₀ hs₀ hsame => ?_
      obtain ⟨hvalid₀, hcanvas₀, -⟩ := halloc s₀ hs₀
      refine ends_ensureContext hcontexts (fun hnone => ?_) fun s₁ hkeeps hrefused =>
        (hagain s₀ hvalid₀ hsame s₁ hkeeps hrefused).weaken (fun _ => .anti (by omega)) fun _ _ => id
      -- a collection took the canvas, so that none is due in the next call
      have hcollected : ((s₀.layer.maybeGarbageCollect.gcCounter) + 1) % 53 ≠ 0 := by
        have hdue : (s₀.layer.gcCounter + 1) % 53 = 0 := by
          by_contra hdue
          exact hnotDue s₀ hcanvas₀ hdue hnone
        rw [Layer.maybeGarbageCollect_gcCounter]
        omega
      rw [← hsame]
      exact (ih (hvalid₀.keeps (s₀.layer.keeps_maybeGarbageCollect.heap r))).2 hcollected
    · intro hdue
      refine ends_ensureCanvas_succ hvalid fun s₀ hs₀ hsame => ?_
      obtain ⟨hvalid₀, hcanvas₀, hcounter⟩ := halloc s₀ hs₀
      refine ends_ensureContext hcontexts (fun hnone => ?_) (hagain s₀ hvalid₀ hsame)
      exact absurd hnone (hnotDue s₀ hcanvas₀ (hcounter ▸ hdue))

theorem ends_ensureCanvas (depth : Nat) {r : Ref} {s : Client} {now : Option Int}
    (hvalid : (s.layer.heap r).Valid p) : Ends (ensureCanvas p depth r now) s
      (TooDeep (depth + 2 * s.refused)) fun _ s' => HasCanvas p s r s' :=
  (ends_ensureCanvas_due hcontexts depth hvalid).1

theorem ends_ensureContext_ensureCanvas (depth : Nat) {r : Ref} {s : Client}
    (hvalid : (s.layer.heap r).Valid p) : Ends (ensureContext p (ensureCanvas p depth) r) s
      (TooDeep (depth + 2 * s.refused)) fun ctx s' => ctx = true ∧ HasCanvas p s r s' := by
  refine ends_ensureContext hcontexts (fun _ => ?_) fun s₁ hkeeps hrefused => ?_
  · exact ends_ensureCanvas hcontexts depth (hvalid.keeps (s.layer.keeps_maybeGarbageCollect.heap r))
  · refine (ends_ensureCanvas hcontexts depth (hvalid.keeps (hkeeps.layer.heap r))).weaken
      (fun _ => .anti ?_) fun _ _ => id
    omega

end Depth

/-! ## What was received -/

/-- What the server makes: a keyframe is one, and may have deltas behind it; a delta is one, or several,
or empty. -/
def TileImage.WellFormed (p : Platform) (img : TileImage) : Prop :=
  if img.isKeyframe then Delta.IsKeyframe p.decompress p.tileSize img.rawData
  else Delta.IsDelta p.decompress img.rawData

/-- Every tile message brings an image. -/
def Action.WellFormed (p : Platform) : Action → Prop
  | .tileMsg m _ => ∃ img, m.img = some img ∧ img.WellFormed p
  | _ => True

namespace Received

/-- The bytes, one behind the other. -/
def bytes (h : Received) : Bytes := h.keyframe ++ h.deltas.flatten

structure WellFormed (p : Platform) (h : Received) : Prop where
  keyframe : Delta.IsKeyframe p.decompress p.tileSize h.keyframe
  deltas : ∀ d ∈ h.deltas, Delta.IsDelta p.decompress d

/-- The image that the last keyframe and every delta since make, in order. -/
def image (p : Platform) (h : Received) : Option Bytes :=
  Delta.picture p.decompress p.tileSize h.keyframe h.deltas

end Received

/-- A tile agrees with what was received for it: it keeps all of it, or nothing. -/
structure Tile.Matches (p : Platform) (h : Option Received) (t : Tile) : Prop where
  kept : ∀ raw, t.rawDeltas = some raw → ∃ h', h = some h' ∧ raw = h'.bytes ∧ h'.WellFormed p
  shown : t.Shown p
  forced : t.rawDeltas = none → t.wireId = 0

theorem Tile.Matches.keeps {h : Option Received} {t t' : Tile} (ht : t.Matches p h)
    (hkeeps : t.Keeps p t') : t'.Matches p h := by
  refine ⟨fun raw hraw => ?_, hkeeps.shown ht.shown, fun hnone => ?_⟩
  · rcases hkeeps.kept with ⟨hsame, -⟩ | ⟨hnone, -⟩
    · exact ht.kept raw (hsame ▸ hraw)
    · rw [hnone] at hraw
      cases hraw
  · rcases hkeeps.kept with ⟨hsame, hwire | hwire⟩ | ⟨-, hwire⟩
    · rw [hwire]
      exact ht.forced (hsame ▸ hnone)
    · exact hwire
    · exact hwire

theorem Tile.Matches.valid (hdecompress : Delta.Concatenates p.decompress) {h : Option Received} {t : Tile}
    (ht : t.Matches p h) : t.Valid p := by
  intro raw hraw
  obtain ⟨h', -, rfl, hwf⟩ := ht.kept raw hraw
  exact (hwf.keyframe.image_flatten hdecompress hwf.deltas).1

/-- A tile without bytes. -/
theorem Tile.matches_of_none {h : Option Received} {t : Tile} (hraw : t.rawDeltas = none)
    (hcache : t.imgDataCache = none) (hwire : t.wireId = 0) : t.Matches p h := by
  refine ⟨fun raw hsome => ?_, ⟨fun raw _ hsome => ?_, fun _ => hcache⟩, fun _ => hwire⟩
  · rw [hraw] at hsome
    cases hsome
  · rw [hraw] at hsome
    cases hsome

/-- A keyframe that arrives. -/
theorem Tile.Loads.matches {img : TileImage} (himg : img.WellFormed p) (hkeyframe : img.isKeyframe = true)
    {h : Option Received} {t t' : Tile} (ht : t.Loads p img.rawData t') :
    t'.Matches p (receive img h) := by
  rw [TileImage.WellFormed, if_pos hkeyframe] at himg
  rw [receive, if_pos hkeyframe]
  refine ⟨fun raw hraw => ⟨_, rfl, ?_, himg, fun d hd => nomatch hd⟩, ht.shown, fun hnone => ?_⟩
  · rw [ht.rawDeltas] at hraw
    rw [Received.bytes, List.flatten_nil, List.append_nil]
    exact (Option.some.inj hraw).symm
  · rw [ht.rawDeltas] at hnone
    cases hnone

/-- A delta that arrives behind a keyframe. -/
theorem Tile.Receives.matches {img : TileImage} (himg : img.WellFormed p) (hdelta : img.isKeyframe = false)
    {h : Option Received} {t t' : Tile} (hkept : ∀ raw, t.rawDeltas = some raw →
      ∃ h', h = some h' ∧ raw = h'.bytes ∧ h'.WellFormed p) (hshown : t.Shown p)
    (ht : t.Receives p img.rawData t') : t'.Matches p (receive img h) := by
  rw [TileImage.WellFormed, hdelta, if_neg Bool.false_ne_true] at himg
  rw [receive, hdelta, if_neg Bool.false_ne_true]
  refine ⟨fun raw' hraw' => ?_, ht.shown hshown, fun hnone => ?_⟩
  · rcases ht.kept with ⟨raw, hraw, happended⟩ | ⟨hnone, -⟩
    · obtain ⟨h', rfl, rfl, hwf⟩ := hkept raw hraw
      rw [happended] at hraw'
      refine ⟨_, rfl, ?_, hwf.keyframe, fun d hd => ?_⟩
      · rw [Received.bytes, List.flatten_append, List.flatten_singleton, ← List.append_assoc]
        exact (Option.some.inj hraw').symm
      · rcases List.mem_append.mp hd with hd | hd
        · exact hwf.deltas d hd
        · rw [List.mem_singleton.mp hd]
          exact himg
    · rw [hnone] at hraw'
      cases hraw'
  · rcases ht.kept with ⟨raw, -, happended⟩ | ⟨-, hwire⟩
    · rw [happended] at hnone
      cases hnone
    · exact hwire

/-! ### One step -/

/-- Every tile of the map agrees with what was received for its key. -/
def Layer.Agrees (p : Platform) (h : Bytes → Option Received) (L : Layer) : Prop :=
  ∀ e ∈ L.tiles, (L.heap e.2).Matches p (h e.1)

namespace Layer

theorem Agrees.keeps {h : Bytes → Option Received} {L L' : Layer} (hL : L.Agrees p h)
    (hkeeps : L.Keeps p L') : L'.Agrees p h :=
  fun e he => (hL e (hkeeps.tiles.subset he)).keeps (hkeeps.heap e.2)

theorem mem_of_find {L : Layer} {key : Bytes} {r : Ref} (hfind : L.find key = some r) :
    (key, r) ∈ L.tiles :=
  Assoc.mem_of_lookup hfind

/-- More is received for one tile. -/
theorem Agrees.update {h h' : Bytes → Option Received} {L L' : Layer} (hL : L.Agrees p h) {key : Bytes}
    {r : Ref} (hfind : L.find key = some r) (htiles : L'.tiles.Sublist L.tiles)
    (hother : ∀ r', r' ≠ r → (L.heap r').Keeps p (L'.heap r')) (hself : (L'.heap r).Matches p (h' key))
    (hh : ∀ k, k ≠ key → h' k = h k) : L'.Agrees p h' := by
  intro e he
  have hmem := htiles.subset he
  by_cases heq : e.2 = r
  · have hentry := List.inj_on_of_nodup_map L.refs hmem (mem_of_find hfind) heq
    rw [hentry]
    exact hself
  · have hne : e.1 ≠ key := by
      rintro rfl
      have hfound := L.find_eq_some hmem
      rw [hfind] at hfound
      exact heq (Option.some.inj hfound).symm
    rw [hh e.1 hne]
    exact (hL e hmem).keeps (hother e.2 heq)

/-- A new tile has nothing, and asks for a keyframe. -/
theorem Agrees.createTile {h : Bytes → Option Received} {L : Layer} (hL : L.Agrees p h)
    (coords : TileCoordData) (now : Int) : (L.createTile coords now).Agrees p h := by
  rw [Layer.createTile]
  split
  · exact hL
  · intro e he
    rcases List.mem_append.mp he with he | he
    · dsimp only
      rw [Function.update_of_ne (Nat.ne_of_lt (L.fresh e he))]
      exact hL e he
    · rw [List.mem_singleton.mp he]
      dsimp only
      rw [Function.update_self]
      exact Tile.matches_of_none rfl rfl rfl

theorem find_createTile (L : Layer) (coords : TileCoordData) (now : Int) :
    (L.createTile coords now).find coords.key = some ((L.find coords.key).getD L.next) := by
  rw [Layer.createTile]
  split
  · rename_i hfind
    rw [hfind]
    rfl
  · rename_i hfind
    have hnone : L.tiles.lookup coords.key = none := hfind
    show (L.tiles ++ [(coords.key, L.next)]).lookup coords.key = some ((L.find coords.key).getD L.next)
    rw [hfind, List.lookup_append, hnone, Option.none_or, List.lookup_cons_self]
    rfl

theorem keeps_invalidateTile (L : Layer) (key : Bytes) (wireId : Int) :
    L.Keeps p (L.invalidateTile key wireId) := by
  rw [invalidateTile]
  cases L.find key with
  | none => exact .refl _
  | some r =>
    dsimp only
    split
    · exact L.keeps_removeTile key
    · exact L.keeps_modify _ ⟨rfl, .inl ⟨rfl, .inl rfl⟩, fun h => h.congr rfl rfl rfl⟩

end Layer

theorem ends_findOrCreate (coords : TileCoordData) (now : Int) (s : Client) {E : Client → Prop} :
    Ends (findOrCreate coords now) s E fun r s' => s'.layer = s.layer.createTile coords now ∧
      s'.layer.find coords.key = some r ∧ s'.refused = s.refused := by
  have hfound := s.layer.find_createTile coords now
  rw [findOrCreate, ends_bind, ends_get]
  cases hfind : s.layer.find coords.key with
  | none =>
    dsimp only
    rw [ends_bind, ends_onLayer, ends_pure]
    rw [hfind] at hfound
    exact ⟨rfl, hfound, rfl⟩
  | some r =>
    dsimp only
    rw [ends_pure]
    have hsame : s.layer.createTile coords now = s.layer := by
      rw [Layer.createTile]
      split
      · rfl
      · rename_i hnone
        rw [hfind] at hnone
        cases hnone
    exact ⟨hsame.symm, hfind, rfl⟩

theorem ends_tileReady (coords : TileCoordData) (now : Int) (s : Client) {E : Client → Prop} :
    Ends (tileReady coords now) s E fun _ s' => s.layer.Keeps p s'.layer := by
  rw [tileReady, ends_bind, ends_get]
  cases s.layer.find coords.key with
  | none =>
    dsimp only
    rw [ends_pure]
    exact .refl _
  | some r =>
    dsimp only
    rw [ends_modifyTile]
    dsimp only
    exact s.layer.keeps_modify _ ⟨rfl, .inl ⟨rfl, .inl rfl⟩, fun h => h.congr rfl rfl rfl⟩

section Step

variable (hcontexts : ∀ n, p.contexts .allFreed n = true) (hdecompress : Delta.Concatenates p.decompress)
include hcontexts hdecompress

/-- **A message**: what it brings is behind what the tile keeps, or the tile keeps nothing. -/
theorem ends_onTileMsg {h : Bytes → Option Received} {s : Client} (hs : s.layer.Agrees p h) {m : TileMsg}
    {img : TileImage} (himg : m.img = some img) (hwf : img.WellFormed p) (now : Int) :
    Ends (onTileMsg p m now) s (TooDeep (p.depth + 2 * s.refused)) fun _ s' => s'.layer.Agrees p fun key =>
      if m.coords.key = key then receive img (h key) else h key := by
  have hother : ∀ k, k ≠ m.coords.key →
      (if m.coords.key = k then receive img (h k) else h k) = h k := fun k hne => if_neg hne.symm
  rw [onTileMsg]
  refine (ends_findOrCreate m.coords now s).bind fun r s₀ hfound => ?_
  obtain ⟨hlayer, hfind, hrefused⟩ := hfound
  have hs₀ : s₀.layer.Agrees p h := hlayer ▸ hs.createTile m.coords now
  have ht := hs₀ _ (Layer.mem_of_find hfind)
  dsimp only at ht
  rw [ends_bind, ends_modifyTile, ends_bind, ends_getTile]
  dsimp only
  rw [himg]
  generalize hL : s₀.layer.modify r (fun t => { t with wireId := m.wireId }) _ = L
  have hself : L.heap r = { s₀.layer.heap r with wireId := m.wireId } := by
    rw [← hL, Layer.modify_self]
  have hne : ∀ r', r' ≠ r → L.heap r' = s₀.layer.heap r' := by
    intro r' hr'
    rw [← hL, Layer.modify_of_ne _ hr']
  have htiles : L.tiles = s₀.layer.tiles := hL ▸ rfl
  have hvalid : (L.heap r).Valid p := by
    rw [hself]
    exact ht.valid hdecompress
  have hkept : ∀ raw, (L.heap r).rawDeltas = some raw →
      ∃ h', h m.coords.key = some h' ∧ raw = h'.bytes ∧ h'.WellFormed p := by
    rw [hself]
    exact ht.kept
  have hshown : (L.heap r).Shown p := by
    rw [hself]
    exact ht.shown.congr rfl rfl rfl
  clear hL
  have hagrees : ∀ L' : Layer, L'.tiles.Sublist L.tiles →
      (∀ r', r' ≠ r → (L.heap r').Keeps p (L'.heap r')) →
      (L'.heap r).Matches p (receive img (h m.coords.key)) → L'.Agrees p fun key =>
        if m.coords.key = key then receive img (h key) else h key := by
    intro L' hsub hkeeps hmatches
    refine hs₀.update hfind (htiles ▸ hsub) (fun r' hr' => ?_) ?_ hother
    · rw [← hne r' hr']
      exact hkeeps r' hr'
    · rw [if_pos rfl]
      exact hmatches
  refine .ite (fun hnone => ?_) fun hsome => ?_
  · -- the tile has no keyframe, and is to ask for one
    have hraw : (L.heap r).rawDeltas = none := by
      rw [← Option.not_isSome_iff_eq_none, ← hvalid.hasKeyframe]
      exact hnone.2
    rw [ends_bind, ends_modifyTile, ends_bind, ends_modify, queueAcknowledgement, ends_modify]
    dsimp only
    refine hagrees _ (List.Sublist.refl _) (fun r' hr' => ?_) ?_
    · rw [Layer.modify_of_ne _ hr']
      exact .refl _
    · rw [Layer.modify_self]
      exact Tile.matches_of_none hraw (hshown.content hraw) rfl
  · have hctx : Ends (ensureContext p (ensureCanvas p p.depth) r) { s₀ with layer := L }
        (TooDeep (p.depth + 2 * s.refused)) fun ctx s' =>
          ctx = true ∧ HasCanvas p { s₀ with layer := L } r s' := by
      rw [← hrefused]
      exact ends_ensureContext_ensureCanvas hcontexts p.depth hvalid
    have hend : ∀ s₁ : Client, s₁.layer.tiles.Sublist L.tiles →
        (∀ r', r' ≠ r → (L.heap r').Keeps p (s₁.layer.heap r')) →
        (s₁.layer.heap r).Matches p (receive img (h m.coords.key)) →
        Ends (tileReady m.coords now >>= fun _ => queueAcknowledgement m) s₁
          (TooDeep (p.depth + 2 * s.refused)) fun _ s' => s'.layer.Agrees p fun key => if m.coords.key = key then receive img (h key) else h key := by
      intro s₁ hsub hkeeps hmatches
      refine (ends_tileReady (p := p) m.coords now s₁).bind fun _ s₂ hready => ?_
      rw [queueAcknowledgement, ends_modify]
      exact (hagrees _ hsub hkeeps hmatches).keeps hready
    cases hkeyframe : img.isKeyframe with
    | true =>
      have hraw : Delta.IsKeyframe p.decompress p.tileSize img.rawData := by
        rw [TileImage.WellFormed, if_pos hkeyframe] at hwf
        exact hwf
      refine (ends_applyDelta_keyframe hctx hraw true).bind fun _ s₁ hs₁ => ?_
      exact hend s₁ hs₁.1.tiles hs₁.1.heap (hs₁.1.self.matches hwf hkeyframe)
    | false =>
      have hdelta : Delta.IsDelta p.decompress img.rawData := by
        rw [TileImage.WellFormed, hkeyframe, if_neg Bool.false_ne_true] at hwf
        exact hwf
      have hraw : ∃ raw, (L.heap r).rawDeltas = some raw := by
        rw [← Option.isSome_iff_exists, ← hvalid.hasKeyframe]
        by_contra hno
        exact hsome ⟨by simp [hkeyframe], hno⟩
      obtain ⟨raw, hraw⟩ := hraw
      refine (ends_applyDelta_delta hctx hdecompress hvalid hraw hdelta).bind fun _ s₁ hs₁ => ?_
      exact hend s₁ hs₁.tiles hs₁.heap (hs₁.self.matches hwf hkeyframe hkept hshown)

end Step

theorem ends_withTile {key : Bytes} {f : Ref → Act Unit} {s : Client} {E : Client → Prop}
    (hf : ∀ r, s.layer.find key = some r → Ends (f r) s E fun _ s' => s.layer.Keeps p s'.layer) :
    Ends (withTile key f) s E fun _ s' => s.layer.Keeps p s'.layer := by
  rw [withTile, ends_bind, ends_get]
  cases hfind : s.layer.find key with
  | none =>
    dsimp only
    rw [ends_pure]
    exact .refl _
  | some r => exact hf r hfind

/-- **Calls may be nested as deep as a run takes**: in no step does the browser refuse more contexts than
there is room for, which is two calls of `ensureCanvas` within each other for each, and two without any. -/
def DeepEnough (p : Platform) (as : List Action) : Prop :=
  ∀ k < as.length,
    2 * ((clientAfter p (as.take (k + 1))).refused - (clientAfter p (as.take k)).refused) + 2 ≤ p.depth

theorem DeepEnough.of_append {as as' : List Action} (h : DeepEnough p (as ++ as')) : DeepEnough p as := by
  intro k hk
  have hroom := h k (lt_of_lt_of_le hk (by simp))
  rw [List.take_append_of_le_length hk, List.take_append_of_le_length (le_of_lt hk)] at hroom
  exact hroom

theorem DeepEnough.not_tooDeep {as : List Action} {a : Action} (h : DeepEnough p (as ++ [a])) :
    ¬ TooDeep (p.depth + 2 * (clientAfter p as).refused) (clientAfter p (as ++ [a])) := by
  have hroom := h as.length (by simp)
  rw [List.take_of_length_le (by simp), List.take_left] at hroom
  rw [TooDeep]
  omega

/-! ### Few refusals -/

/-- What was refused so far, and what may be refused yet, if none of the asks from the `N`-th on is. -/
def Spare (N : Nat) (s : Client) : Prop := s.refused + (N - s.asked) ≤ N

section Spare

variable {p : Platform} {N : Nat} (hspare : ∀ attempt n, N ≤ n → p.contexts attempt n = true)

theorem preserves_getTile (r : Ref) : Preserves (Spare N) (getTile r) :=
  fun _ hs => ends_getTile.mpr hs

theorem preserves_onLayer (f : Layer → Layer) : Preserves (Spare N) (onLayer f) :=
  fun _ hs => ends_onLayer.mpr hs

theorem preserves_modifyTile (r : Ref) (f : Tile → Tile) (hf : ∀ t, (f t).coords = t.coords) :
    Preserves (Spare N) (modifyTile r f hf) :=
  preserves_onLayer _

include hspare

theorem preserves_getContext (attempt : Try) : Preserves (Spare N) (getContext p attempt) := by
  intro s hs
  rw [Spare] at hs
  rw [getContext, ends_bind, ends_get, ends_bind, ends_modify]
  refine .ite (fun _ => ?_) fun hrefused => ?_
  · rw [ends_pure, Spare]
    dsimp only
    omega
  · have hearly : s.asked < N := by
      by_contra hlate
      exact hrefused (hspare attempt s.asked (Nat.le_of_not_lt hlate))
    rw [ends_bind, ends_modify, ends_pure, Spare]
    dsimp only
    omega

section Calls

variable {call : Ref → Option Int → Act Unit} (hcall : ∀ r now, Preserves (Spare N) (call r now)) (r : Ref)
include hcall

theorem preserves_askContext (attempt : Try) : Preserves (Spare N) (askContext p call attempt r) :=
  .bind (preserves_getTile r) fun _ => .bind (.ite (.pure _) (hcall r none)) fun _ =>
    preserves_getContext hspare attempt

theorem preserves_ensureContext : Preserves (Spare N) (ensureContext p call r) := by
  have hask := preserves_askContext hspare hcall r
  refine .bind (preserves_onLayer _) fun _ => .bind (hask .first) fun _ => .ite (.pure _) ?_
  refine .bind (preserves_onLayer _) fun _ => .bind (hask .collected) fun _ => .ite (.pure _) ?_
  refine .bind (preserves_onLayer _) fun _ => .bind (hask .nonCurrentFreed) fun _ => .ite (.pure _) ?_
  exact .bind (preserves_onLayer _) fun _ => hask .allFreed

omit hspare hcall in
theorem preserves_applyDeltas (raw : Bytes) (isKeyframe : Bool) :
    Preserves (Spare N) (applyDeltas p r raw isKeyframe) := by
  refine .bind (preserves_getTile r) fun t => ?_
  split
  · exact .pure _
  · exact .throw _
  · exact .ite (.throw _) (preserves_modifyTile r _ _)

theorem preserves_applyDelta (raw : Bytes) (isKeyframe wireMessage : Bool) :
    Preserves (Spare N) (applyDelta p call r raw isKeyframe wireMessage) := by
  refine .bind (preserves_ensureContext hspare hcall r) fun _ => .ite (.pure _) ?_
  refine .ite (preserves_modifyTile r _ _) (.bind (preserves_modifyTile r _ _) fun _ => ?_)
  refine .bind (preserves_getTile r) fun t => ?_
  split
  · exact .pure _
  · exact .bind (preserves_modifyTile r _ _) fun _ => preserves_applyDeltas r raw isKeyframe

end Calls

theorem preserves_ensureCanvas (depth : Nat) (r : Ref) (now : Option Int) :
    Preserves (Spare N) (ensureCanvas p depth r now) := by
  induction depth generalizing r now with
  | zero => exact .throw _
  | succ depth ih =>
    refine .bind (preserves_getTile r) fun _ => .bind (.ite (.pure _) ?_) fun _ => preserves_modifyTile r _ _
    refine .bind (preserves_modifyTile r _ _) fun _ => .ite ?_ (.pure _)
    exact preserves_applyDelta hspare ih r _ true false

theorem preserves_onTileMsg (m : TileMsg) (now : Int) : Preserves (Spare N) (onTileMsg p m now) := by
  have hqueue : Preserves (Spare N) (queueAcknowledgement m) := .modify fun _ => id
  have hfind : Preserves (Spare N) (findOrCreate m.coords now) := by
    refine .bind .get fun s => ?_
    split
    · exact .pure _
    · exact .bind (preserves_onLayer _) fun _ => .pure _
  have hready : Preserves (Spare N) (tileReady m.coords now) := by
    refine .bind .get fun s => ?_
    split
    · exact .pure _
    · exact preserves_modifyTile _ _ _
  refine .bind hfind fun r => .bind (preserves_modifyTile r _ _) fun _ => .bind (preserves_getTile r) fun t => ?_
  split
  · exact hqueue
  · refine .ite (.bind (preserves_modifyTile r _ _) fun _ => .bind (.modify fun _ => id) fun _ => hqueue) ?_
    refine .bind (preserves_applyDelta hspare (preserves_ensureCanvas hspare p.depth) r _ _ true) fun _ => ?_
    exact .bind hready fun _ => hqueue

theorem preserves_perform (a : Action) : Preserves (Spare N) (perform p a) := by
  have htile : ∀ (key : Bytes) (f : Ref → Act Unit), (∀ r, Preserves (Spare N) (f r)) →
      Preserves (Spare N) (withTile key f) := by
    intro key f hf
    refine .bind .get fun s => ?_
    split
    · exact .pure _
    · exact hf _
  cases a with
  | tileMsg m now => exact preserves_onTileMsg hspare m now
  | draw key now => exact htile key _ fun r => preserves_ensureCanvas hspare p.depth r (some now)
  | garbageCollect => exact preserves_onLayer _
  | removeTile key => exact preserves_onLayer fun L => L.removeTile key
  | invalidateTile key wireId => exact preserves_onLayer fun L => L.invalidateTile key wireId
  | createTile coords now => exact preserves_onLayer fun L => L.createTile coords now
  | setCurrent key current => exact htile key _ fun r => preserves_modifyTile r _ _
  | sendProcessedResponse => exact .modify fun _ => id

theorem refused_le (as : List Action) : (clientAfter p as).refused ≤ N := by
  have hinv : Spare N (clientAfter p as) := by
    induction as using List.reverseRecOn with
    | nil => exact Nat.le_of_eq (Nat.zero_add N)
    | append_singleton as a ih =>
      rw [clientAfter, List.foldl_append]
      exact (preserves_perform hspare a).stateAfter ih
  exact (Nat.le_add_right _ _).trans hinv

/-- **A browser that refuses few contexts** may nest its calls as deep as any run takes. -/
theorem deepEnough_of_spare (hdepth : 2 * N + 2 ≤ p.depth) (as : List Action) : DeepEnough p as := by
  intro k _
  have hle := refused_le hspare (as.take (k + 1))
  omega

end Spare

section Runs

variable (hcontexts : ∀ n, p.contexts .allFreed n = true) (hdecompress : Delta.Concatenates p.decompress)
include hcontexts hdecompress

/-- **Nothing throws** but calls that are nested too deep, and every tile goes on to agree with what was
received for it. -/
theorem ends_perform {h : Bytes → Option Received} {s : Client} (hs : s.layer.Agrees p h) {a : Action}
    (ha : a.WellFormed p) : Ends (perform p a) s (TooDeep (p.depth + 2 * s.refused)) fun _ s' =>
      s'.layer.Agrees p fun key => receiveAction key (h key) a := by
  cases a with
  | tileMsg m now =>
    obtain ⟨img, himg, hwf⟩ := ha
    obtain ⟨coords, wireId, img'⟩ := m
    dsimp only at himg
    subst himg
    exact ends_onTileMsg hcontexts hdecompress hs rfl hwf now
  | draw key now =>
    refine Ends.mono (ends_withTile fun r hfind => ?_) fun _ s' hkeeps => hs.keeps hkeeps
    have hvalid := (hs _ (Layer.mem_of_find hfind)).valid hdecompress
    exact (ends_ensureCanvas hcontexts p.depth hvalid).mono fun _ s' h => h.1.layer
  | garbageCollect =>
    rw [perform, ends_onLayer]
    exact hs.keeps s.layer.keeps_garbageCollect
  | removeTile key =>
    rw [perform, ends_onLayer]
    exact hs.keeps (s.layer.keeps_removeTile key)
  | invalidateTile key wireId =>
    rw [perform, ends_onLayer]
    exact hs.keeps (s.layer.keeps_invalidateTile key wireId)
  | createTile coords now =>
    rw [perform, ends_onLayer]
    exact hs.createTile coords now
  | setCurrent key current =>
    refine Ends.mono (ends_withTile fun r _ => ?_) fun _ s' hkeeps => hs.keeps hkeeps
    rw [ends_modifyTile]
    dsimp only
    exact s.layer.keeps_modify _ ⟨rfl, .inl ⟨rfl, .inl rfl⟩, fun h => h.congr rfl rfl rfl⟩
  | sendProcessedResponse =>
    rw [perform, sendProcessedResponse, ends_modify]
    exact hs

/-- In every run. -/
theorem agrees_clientAfter {as : List Action} (hdepth : DeepEnough p as) (has : ∀ a ∈ as, a.WellFormed p) :
    (clientAfter p as).layer.Agrees p (received as) := by
  induction as using List.reverseRecOn with
  | nil => exact fun e he => nomatch he
  | append_singleton as a ih =>
    have hs := ih hdepth.of_append fun a' ha' => has a' (List.mem_append_left _ ha')
    have ha := has a (List.mem_append_right _ (List.mem_singleton_self a))
    have hclient : clientAfter p (as ++ [a]) = stateAfter (perform p a) (clientAfter p as) := by
      rw [clientAfter, List.foldl_append]
      rfl
    have hreceived : received (as ++ [a]) = fun key => receiveAction key (received as key) a := by
      funext key
      rw [received, List.foldl_append]
      rfl
    have hdeep := hdepth.not_tooDeep
    rw [hclient] at hdeep ⊢
    rw [hreceived]
    obtain ⟨_, hstep⟩ := (ends_perform hcontexts hdecompress hs ha).stateAfter.resolve_left hdeep
    exact hstep

end Runs

/-- What is said of the tile of a key: what it shows is the last keyframe and every delta since, in order;
it keeps all of them as it keeps a keyframe; and if it keeps none, it has no content, and the next request
asks for a keyframe. -/
structure Survives (p : Platform) (L : Layer) (key : Bytes) (h : Option Received) (t : Tile) : Prop where
  image : t.hasContent = true → ∀ canvas, t.canvas = some canvas →
    ∃ h', h = some h' ∧ h'.image p = some canvas
  kept : t.hasKeyframe = true → ∃ h', h = some h' ∧ t.rawDeltas = some h'.bytes
  forced : t.hasKeyframe = false → t.hasContent = false ∧ L.oldWireId key = 0

/-- **Tiles survive the loss of their canvases**: in every run, whatever the browser refuses, where it gives
a context once all canvases were freed for it, calls may be nested as deep as that takes, and the messages
are what the server makes. -/
theorem tiles_survive (p : Platform) (hcontexts : ∀ n, p.contexts .allFreed n = true)
    (hdecompress : Delta.Concatenates p.decompress) (as : List Action) (hdepth : DeepEnough p as)
    (has : ∀ a ∈ as, a.WellFormed p) (key : Bytes) (r : Ref) (hfind : (clientAfter p as).layer.find key = some r) :
    Survives p (clientAfter p as).layer key (received as key) ((clientAfter p as).layer.heap r) := by
  have hmatches := agrees_clientAfter hcontexts hdecompress hdepth has _ (Layer.mem_of_find hfind)
  dsimp only at hmatches
  have hkeyframe := (hmatches.valid hdecompress).hasKeyframe
  generalize ht : (clientAfter p as).layer.heap r = t at hmatches hkeyframe
  cases hraw : t.rawDeltas with
  | none =>
    rw [hraw] at hkeyframe
    have hcontent : t.hasContent = false := by
      rw [Tile.hasContent, hmatches.shown.content hraw, hkeyframe]
      rfl
    refine ⟨fun h => ?_, fun h => ?_, fun _ => ⟨hcontent, ?_⟩⟩
    · rw [hcontent] at h
      cases h
    · rw [hkeyframe] at h
      cases h
    · rw [Layer.oldWireId, hfind]
      dsimp only
      rw [ht]
      exact hmatches.forced hraw
  | some raw =>
    obtain ⟨h', hreceived, rfl, hwf⟩ := hmatches.kept raw hraw
    rw [hraw] at hkeyframe
    refine ⟨fun _ canvas hcanvas => ⟨h', hreceived, ?_⟩, fun _ => ⟨h', hreceived, hraw⟩, fun h => ?_⟩
    · rw [Received.image, ← (hwf.keyframe.image_flatten hdecompress hwf.deltas).2]
      exact (hmatches.shown.image _ canvas hraw hcanvas).1
    · rw [hkeyframe] at h
      cases h

/-! ### Contexts that are refused -/

/-- Tiles of one pixel, nothing is compressed, and the browser refuses five contexts. -/
def sparePlatform : Platform where
  tileSize := 1
  contexts := fun attempt n =>
    match attempt with
    | .allFreed => true
    | _ => decide (n ∉ [1, 2, 4, 7, 8])
  decompress := some
  depth := 8

def pixelTile (x : Int) : TileCoordData := ⟨x, 0, 10, 0, 0⟩

/-- A white pixel, not shown; a delta that makes it black, for which contexts are refused until all canvases
were freed; a pixel beside it, for whose context the canvas of the first one is freed; and the first one
is drawn. -/
def pixelActions : List Action :=
  [.tileMsg ⟨pixelTile 0, 1, some ⟨[255, 255, 255, 255], true⟩⟩ 0, .setCurrent (pixelTile 0).key false,
    .tileMsg ⟨pixelTile 0, 2, some ⟨[100, 0, 0, 1, 0, 0, 0, 255, 116], false⟩⟩ 1,
    .tileMsg ⟨pixelTile 1, 3, some ⟨[255, 255, 255, 255], true⟩⟩ 2, .draw (pixelTile 0).key 3]

/-- How many contexts were refused after so many steps: three at once, and two in the step behind that. -/
def refusedAfter : List Nat := [0, 0, 0, 3, 5, 5]

/-- What comes about, evaluated once for all that is asked of it. -/
theorem clientAfter_pixelActions :
    ((clientAfter sparePlatform (pixelActions.take 4)).layer.heap 0).canvas = none ∧
      (clientAfter sparePlatform (pixelActions.take 5)).layer.find (pixelTile 0).key = some 0 ∧
      ((clientAfter sparePlatform (pixelActions.take 5)).layer.heap 0).canvas = some [0, 0, 0, 255] ∧
      (List.range 6).map (fun k => (clientAfter sparePlatform (pixelActions.take k)).refused) = refusedAfter := by
  cbv

theorem refused_pixelActions {k : Nat} (hk : k < 6) :
    (clientAfter sparePlatform (pixelActions.take k)).refused = refusedAfter.getD k 0 := by
  rw [← clientAfter_pixelActions.2.2.2, List.getD_eq_getElem?_getD, List.getElem?_map, List.getElem?_range hk]
  rfl

theorem deepEnough_pixelActions : DeepEnough sparePlatform pixelActions := by
  have hroom : ∀ k < 5, 2 * (refusedAfter.getD (k + 1) 0 - refusedAfter.getD k 0) + 2 ≤ 8 := by decide
  intro k hk
  rw [refused_pixelActions (Nat.succ_lt_succ hk), refused_pixelActions (Nat.lt_succ_of_lt hk)]
  exact hroom k hk

theorem wellFormed_pixelActions : ∀ a ∈ pixelActions, a.WellFormed sparePlatform := by
  have hwhite : Delta.IsKeyframe sparePlatform.decompress sparePlatform.tileSize [255, 255, 255, 255] :=
    ⟨List.cons_ne_nil _ _, [255, 255, 255, 255], [], rfl, rfl, [], rfl, fun c hc => nomatch hc⟩
  have hblack : Delta.IsDelta sparePlatform.decompress [100, 0, 0, 1, 0, 0, 0, 255, 116] := by
    refine fun _ => ⟨_, rfl, [_], (List.flatten_singleton).symm, fun c hc => ?_⟩
    rw [List.mem_singleton.mp hc]
    show Delta.IsChunk (100 :: 0 :: 0 :: 1 :: ([0, 0, 0, 255] ++ [116]))
    exact .span 0 0 1 rfl .terminate
  intro a ha
  simp only [pixelActions, List.mem_cons, List.not_mem_nil, or_false] at ha
  rcases ha with rfl | rfl | rfl | rfl | rfl
  · exact ⟨_, rfl, hwhite⟩
  · trivial
  · exact ⟨_, rfl, hblack⟩
  · exact ⟨_, rfl, hwhite⟩
  · trivial

/-- The canvas that was freed is drawn black again. -/
theorem tiles_survive_pixelActions :
    ((clientAfter sparePlatform (pixelActions.take 4)).layer.heap 0).canvas = none ∧
      ((clientAfter sparePlatform pixelActions).layer.heap 0).canvas = some [0, 0, 0, 255] ∧
      (clientAfter sparePlatform pixelActions).refused = 5 ∧
      Survives sparePlatform (clientAfter sparePlatform pixelActions).layer (pixelTile 0).key
        (received pixelActions (pixelTile 0).key) ((clientAfter sparePlatform pixelActions).layer.heap 0) := by
  obtain ⟨hfreed, hfind, hcanvas, -⟩ := clientAfter_pixelActions
  have hrefused := refused_pixelActions (by decide : 5 < 6)
  refine ⟨hfreed, hcanvas, hrefused, tiles_survive sparePlatform (fun _ => rfl) ?_ pixelActions
    deepEnough_pixelActions wellFormed_pixelActions _ _ hfind⟩
  rintro z z' x x' ⟨⟩ ⟨⟩
  rfl

/-! ## A tile that is not visible -/

/-- A tile without a keyframe is given a blank canvas. -/
theorem ends_ensureCanvas_blank {depth : Nat} {r : Ref} {s : Client} {now : Option Int} {E : Client → Prop}
    (hcanvas : (s.layer.heap r).canvas = none) (hraw : (s.layer.heap r).rawDeltas = none) :
    Ends (ensureCanvas p (depth + 1) r now) s E fun _ s' => s'.layer.tiles = s.layer.tiles ∧
      (s'.layer.heap r).canvas = some (blankCanvas p.tileSize) := by
  have hkeyframe : (s.layer.heap r).hasKeyframe = false := by
    rw [Tile.hasKeyframe, hraw]
  rw [ensureCanvas, ends_bind, ends_getTile, hcanvas, hkeyframe, if_neg (by simp), ends_bind, ends_bind,
    ends_modifyTile, if_neg Bool.false_ne_true, ends_pure, ends_modifyTile]
  refine ⟨rfl, ?_⟩
  dsimp only
  rw [Layer.modify_self, Layer.modify_self]
  rfl

theorem Layer.find_only {L : Layer} {key : Bytes} {r : Ref} (htiles : L.tiles = [(key, r)]) :
    L.find key = some r := by
  rw [Layer.find, htiles]
  exact List.lookup_cons_self

/-- The only tile is not visible, and its deltas are too many. -/
theorem Layer.garbageCollect_only {L : Layer} {key raw : Bytes} {r : Ref} (htiles : L.tiles = [(key, r)])
    (hcurrent : (L.heap r).current = false) (hraw : (L.heap r).rawDeltas = some raw)
    (hlarge : highDeltaMemory < raw.length) : L.garbageCollect.tiles = [(key, r)] ∧
      L.garbageCollect.heap r = (L.heap r).reclaimDeltas := by
  have hfew : L.canvasKeys.length ≤ highNumCanvases := by
    have hlength := List.length_filter_le L.hasCanvas L.tiles
    rw [htiles, List.length_singleton] at hlength
    rw [canvasKeys_eq, htiles]
    exact hlength.trans (by decide)
  have hcanvases : L.canvasPass = L := if_neg (Nat.not_lt.mpr hfew)
  have htotal : L.totalSize = raw.length := by
    rw [totalSize, sortedEntries_eq, htiles, List.map_singleton, List.sum_singleton, deltaSize, hraw]
    rfl
  have hlow : lowDeltaMemory < raw.length := Nat.lt_trans (by decide) hlarge
  have hdeltas : L.deltaPass raw.length = L.modify r Tile.reclaimDeltas Tile.reclaimDeltas_coords := by
    rw [deltaPass, if_pos hlarge, sortedEntries_eq, htiles, trimDeltas, if_pos hlow, if_pos, trimDeltas]
    rw [hraw, hcurrent]
    rfl
  have hpass : (L.modify r Tile.reclaimDeltas Tile.reclaimDeltas_coords).tilePass =
      L.modify r Tile.reclaimDeltas Tile.reclaimDeltas_coords := by
    refine if_neg ?_
    rw [modify_tiles, htiles, List.length_singleton]
    decide
  rw [garbageCollect, hcanvases, htotal, hdeltas, hpass]
  exact ⟨htiles, Layer.modify_self _ _ _ _⟩

/-- Contexts are given, and nothing is compressed. -/
def plainPlatform : Platform := ⟨256, fun _ _ => true, some, 2⟩

def farTile : TileCoordData := ⟨0, 0, 10, 0, 0⟩

/-- White pixels, and deltas that change nothing. -/
def whiteKeyframe (n : Nat) : Bytes := List.replicate (256 * 256 * 4) 255 ++ List.replicate n 116

theorem isChunks_terminators (n : Nat) : Delta.IsChunks (List.replicate n 116) := by
  refine ⟨List.replicate n [116], ?_, fun c hc => ?_⟩
  · rw [List.flatten_replicate_singleton]
  · rw [List.eq_of_mem_replicate hc]
    exact .terminate

/-- A delta that is only a terminator changes nothing. -/
theorem applyChunks_terminators (width : Nat) {n fuel : Nat} (hfuel : n ≤ fuel) (imgData : Bytes) :
    Delta.applyChunks width fuel (List.replicate n 116) imgData = imgData := by
  induction n generalizing fuel with
  | zero =>
    cases fuel with
    | zero => rfl
    | succ fuel => rfl
  | succ n ih =>
    cases fuel with
    | zero => cases hfuel
    | succ fuel => exact ih (Nat.le_of_succ_le_succ hfuel)

/-- The image is white. -/
theorem image_whiteKeyframe (n : Nat) : ∃ rest,
    Delta.keyframeImage plainPlatform.decompress plainPlatform.tileSize (whiteKeyframe n) =
      some (255 :: rest) := by
  have hraw : plainPlatform.decompress (whiteKeyframe n) =
      some (List.replicate (256 * 256 * 4) 255 ++ List.replicate n 116) := rfl
  have himage := Delta.keyframeImage_eq hraw List.length_replicate (isChunks_terminators n)
  rw [applyChunks_terminators _ (Nat.le_of_eq List.length_replicate.symm)] at himage
  exact ⟨_, himage⟩

/-- A concatenation is decompressed to a concatenation. -/
theorem concatenates_plain : Delta.Concatenates plainPlatform.decompress := by
  rintro z z' x x' ⟨⟩ ⟨⟩
  rfl

theorem wellFormed_whiteKeyframe (n : Nat) (now : Int) :
    (Action.tileMsg ⟨farTile, 1, some ⟨whiteKeyframe n, true⟩⟩ now).WellFormed plainPlatform := by
  refine ⟨_, rfl, fun h => ?_, _, _, rfl, List.length_replicate, isChunks_terminators _⟩
  have hlength := congrArg List.length h
  rw [whiteKeyframe, List.length_append, List.length_replicate] at hlength
  simp at hlength

theorem pixels_le_whiteKeyframe (n : Nat) : 256 * 256 * 4 ≤ (whiteKeyframe n).length := by
  rw [whiteKeyframe, List.length_append, List.length_replicate, List.length_replicate]
  exact Nat.le_add_right _ _

/-- The tile after its keyframe arrived. -/
theorem ends_farTile {raw : Bytes} (hraw : 256 * 256 * 4 ≤ raw.length) {E : Client → Prop} :
    Ends (perform plainPlatform (.tileMsg ⟨farTile, 1, some ⟨raw, true⟩⟩ 0)) .init E fun _ s =>
      s.layer.tiles = [(farTile.key, 0)] ∧ (s.layer.heap 0).rawDeltas = some raw := by
  let L := ((noTiles 0).createTile farTile 0).modify 0 (fun t => { t with wireId := 1 }) fun _ => rfl
  let L' := (({ L with gcCounter := 1 } : Layer).modify 0 (Tile.allocate 256) (Tile.allocate_coords _)).modify 0
    (Tile.rendered none) (Tile.rendered_coords _)
  let L'' := (L'.modify 0 (Tile.count true true) (Tile.count_coords _ _)).modify 0
    (fun t => { t with rawDeltas := some raw }) fun _ => rfl
  have hrun : perform plainPlatform (.tileMsg ⟨farTile, 1, some ⟨raw, true⟩⟩ 0) .init =
      (applyDeltas plainPlatform 0 raw true >>= fun _ => tileReady farTile 0 >>= fun _ =>
        queueAcknowledgement ⟨farTile, 1, some ⟨raw, true⟩⟩) ⟨L'', 1, 0, [], []⟩ := rfl
  refine .congr hrun ?_
  rw [ends_bind]
  refine ends_applyDeltas (blankCanvas 256) rfl rfl (fun _ => hraw) fun L₁ htiles _ hself => ?_
  have hfind : L₁.find farTile.key = some 0 := Layer.find_only htiles
  rw [ends_bind, tileReady, ends_bind, ends_get]
  dsimp only
  rw [hfind]
  dsimp only
  rw [ends_modifyTile, queueAcknowledgement, ends_modify]
  refine ⟨htiles, ?_⟩
  dsimp only
  rw [Layer.modify_self, hself]
  exact Tile.putImage_rawDeltas _ _

/-- The actions that lead to a canvas without content. -/
def farTileActions (n : Nat) : List Action :=
  [.tileMsg ⟨farTile, 1, some ⟨whiteKeyframe n, true⟩⟩ 0, .setCurrent farTile.key false, .garbageCollect,
    .draw farTile.key 0]

theorem ends_hide {key raw : Bytes} {s : Client} (htiles : s.layer.tiles = [(key, 0)])
    (hraw : (s.layer.heap 0).rawDeltas = some raw) {E : Client → Prop} :
    Ends (perform p (.setCurrent key false)) s E fun _ s' => s'.layer.tiles = [(key, 0)] ∧
      (s'.layer.heap 0).rawDeltas = some raw ∧ (s'.layer.heap 0).current = false := by
  rw [perform, withTile, ends_bind, ends_get, Layer.find_only htiles]
  dsimp only
  rw [ends_modifyTile]
  dsimp only
  rw [Layer.modify_self]
  exact ⟨htiles, hraw, rfl⟩

theorem ends_draw {key : Bytes} {s : Client} {now : Int} {depth : Nat} (hdepth : p.depth = depth + 1)
    (htiles : s.layer.tiles = [(key, 0)]) (hcanvas : (s.layer.heap 0).canvas = none)
    (hraw : (s.layer.heap 0).rawDeltas = none) {E : Client → Prop} :
    Ends (perform p (.draw key now)) s E fun _ s' => s'.layer.tiles = [(key, 0)] ∧
      (s'.layer.heap 0).canvas = some (blankCanvas p.tileSize) := by
  rw [perform, withTile, ends_bind, ends_get, Layer.find_only htiles]
  dsimp only
  rw [hdepth]
  refine (ends_ensureCanvas_blank hcanvas hraw).mono fun _ s' h => ?_
  rw [htiles] at h
  exact h

/-- The tile is drawn after its keyframe was reclaimed. -/
theorem ends_draw_collected {s : Client} {raw : Bytes} (htiles : s.layer.tiles = [(farTile.key, 0)])
    (hraw : (s.layer.heap 0).rawDeltas = some raw) (hcurrent : (s.layer.heap 0).current = false)
    (hlarge : highDeltaMemory < raw.length) {E : Client → Prop} :
    Ends (perform plainPlatform (.draw farTile.key 0)) { s with layer := s.layer.garbageCollect } E fun _ s' =>
      s'.layer.tiles = [(farTile.key, 0)] ∧
        (s'.layer.heap 0).canvas = some (blankCanvas plainPlatform.tileSize) := by
  obtain ⟨hcollected, hheap⟩ := Layer.garbageCollect_only htiles hcurrent hraw hlarge
  have hcanvas : (s.layer.garbageCollect.heap 0).canvas = none := by
    rw [hheap]
    rfl
  have hreclaimed : (s.layer.garbageCollect.heap 0).rawDeltas = none := by
    rw [hheap]
    rfl
  exact ends_draw rfl hcollected hcanvas hreclaimed

theorem clientAfter_farTile {n : Nat} (hn : highDeltaMemory ≤ n) :
    (clientAfter plainPlatform (farTileActions n)).layer.find farTile.key = some 0 ∧
      ((clientAfter plainPlatform (farTileActions n)).layer.heap 0).canvas =
        some (blankCanvas plainPlatform.tileSize) := by
  have hlength : (whiteKeyframe n).length = 256 * 256 * 4 + n := by
    rw [whiteKeyframe, List.length_append, List.length_replicate, List.length_replicate]
  have hlarge : highDeltaMemory < (whiteKeyframe n).length := by
    rw [hlength]
    exact Nat.lt_of_le_of_lt hn (Nat.lt_add_of_pos_left (by decide))
  rw [clientAfter, farTileActions, List.foldl_cons, List.foldl_cons, List.foldl_cons, List.foldl_cons,
    List.foldl_nil]
  obtain ⟨_, htiles₁, hraw₁⟩ := Ends.exists_stateAfter (ends_farTile (pixels_le_whiteKeyframe n))
  generalize stateAfter (perform plainPlatform (.tileMsg ⟨farTile, 1, some ⟨whiteKeyframe n, true⟩⟩ 0)) .init =
    s₁ at htiles₁ hraw₁ ⊢
  obtain ⟨_, htiles₂, hraw₂, hcurrent⟩ := Ends.exists_stateAfter (ends_hide (p := plainPlatform) htiles₁ hraw₁)
  generalize stateAfter (perform plainPlatform (.setCurrent farTile.key false)) s₁ = s₂ at htiles₂ hraw₂ hcurrent ⊢
  have hcollected : stateAfter (perform plainPlatform .garbageCollect) s₂ =
      { s₂ with layer := s₂.layer.garbageCollect } := rfl
  rw [hcollected]
  obtain ⟨_, htiles₃, hcanvas₃⟩ := Ends.exists_stateAfter (ends_draw_collected htiles₂ hraw₂ hcurrent hlarge)
  exact ⟨Layer.find_only htiles₃, hcanvas₃⟩

/-- **A canvas may show nothing of what was received**: the keyframe of a tile that is not visible was
reclaimed, and the tile is drawn. -/
theorem not_tiles_survive : ¬ ∀ p : Platform, (∀ attempt n, p.contexts attempt n = true) → 2 ≤ p.depth →
    Delta.Concatenates p.decompress → ∀ as : List Action, (∀ a ∈ as, a.WellFormed p) →
      ∀ key r, (clientAfter p as).layer.find key = some r →
        (∀ canvas, ((clientAfter p as).layer.heap r).canvas = some canvas →
          ∀ h, received as key = some h → h.image p = some canvas) ∧
        (((clientAfter p as).layer.heap r).hasKeyframe = false →
          (clientAfter p as).layer.oldWireId key = 0) := by
  intro hall
  obtain ⟨n, hn⟩ : ∃ n, highDeltaMemory ≤ n := ⟨_, Nat.le_refl _⟩
  obtain ⟨hfind, hcanvas⟩ := clientAfter_farTile hn
  have hwf : ∀ a ∈ farTileActions n, a.WellFormed plainPlatform := by
    intro a ha
    simp only [farTileActions, List.mem_cons, List.not_mem_nil, or_false] at ha
    rcases ha with rfl | rfl | rfl | rfl
    · exact wellFormed_whiteKeyframe n 0
    · trivial
    · trivial
    · trivial
  have hreceived : received (farTileActions n) farTile.key = some ⟨whiteKeyframe n, []⟩ := by
    simp only [received, farTileActions, List.foldl_cons, List.foldl_nil, receiveAction, receive, if_true]
  have hblank := (hall plainPlatform (fun _ _ => rfl) (Nat.le_refl 2) concatenates_plain _ hwf _ _ hfind).1 _ hcanvas
    _ hreceived
  obtain ⟨rest, hwhite⟩ := image_whiteKeyframe n
  rw [Received.image, Delta.picture, List.foldl_nil, hwhite] at hblank
  have hhead := congrArg List.head? (Option.some.inj hblank)
  rw [blankCanvas, List.head?_replicate] at hhead
  simp at hhead

end Oxool.Browser
