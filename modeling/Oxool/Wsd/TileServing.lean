import Oxool.Wsd.TileCache
import Mathlib.Logic.Function.Basic

/-!
# Serving tiles (`wsd/ClientSession.hpp`, `wsd/DocumentBroker.cpp`)

A session is sent a tile in two ways: a rendering it waits for comes back from the kit
(`saveTileAndNotify`), or a request of its own is answered from the cache (`sendRequestedTiles`,
`handleTileRequest`). Both go through `sendTileNow`, which asks the session's `ClientDeltaTracker`
for the wire id it was last sent and writes down the one of the descriptor at hand.

Sessions are numbered. How many requested tiles a round may send depends on the tiles still on
their way to the client and on the clock, and is an input here; so is which cached tiles go when the
cache is full. What was sent is recorded beside the state, with the bytes the cache entry held at
that moment; the code never reads the record.
-/

set_option autoImplicit false

namespace Oxool.Wsd.Tiles

/-- A message handed to the client: `tile:` or `delta:`, the payload, and what the cache held. -/
structure Sent where
  desc : TileDesc
  keyframe : Bool
  payload : List UInt8
  held : List UInt8

/-- What a client session keeps about tiles. -/
structure ClientSession where
  tracker : List (CacheKey × UInt32)
  requestedTiles : List TileDesc
  canonicalViewId : Nat
  closed : Bool
  sent : List Sent

namespace ClientSession

def new : ClientSession := ⟨[], [], 0, false, []⟩

/-- `ClientDeltaTracker::updateTileSeq`: the wire id last sent, or 0. -/
def updateTileSeq (s : ClientSession) (desc : TileDesc) : ClientSession × UInt32 :=
  ({ s with tracker := Assoc.put desc.cacheKey desc.wireId s.tracker },
    (s.tracker.lookup desc.cacheKey).getD 0)

/-- `resetTileSeq`. -/
def resetTileSeq (s : ClientSession) (desc : TileDesc) : ClientSession :=
  match s.tracker.lookup desc.cacheKey with
  | none => s
  | some _ => { s with tracker := Assoc.put desc.cacheKey 0 s.tracker }

/-- `sendTileNow`. -/
def sendTileNow (s : ClientSession) (desc : TileDesc) (tile : TileData) : ClientSession :=
  let (s, lastSentId) := s.updateTileSeq desc
  { s with sent := s.sent ++
      [{ desc := desc
         keyframe := tile.needsKeyframe lastSentId || tile.isPng
         payload := tile.changesSince (if tile.isPng then 0 else lastSentId)
         held := tile.deltas }] }

end ClientSession

/-- The broker's tiles: the cache, the sessions, the version counter, and the requests to the kit. -/
structure Broker where
  tileCache : TileCache
  sessions : Nat → ClientSession
  tileVersion : Int
  toKit : List (List TileDesc)

namespace Broker

/-- A document that was just opened. -/
def init : Broker := ⟨.empty, fun _ => .new, 0, []⟩

def updateSession (b : Broker) (id : Nat) (f : ClientSession → ClientSession) : Broker :=
  { b with sessions := Function.update b.sessions id (f (b.sessions id)) }

/-- `TileCache::saveTileAndNotify`. -/
def saveTileAndNotify (b : Broker) (desc : TileDesc) (data : List UInt8) : Broker :=
  let waiting := b.tileCache.tilesBeingRendered.lookup desc.cacheKey
  let (tileCache, tile) := b.tileCache.saveDataToCache desc data
  let b := { b with tileCache := tileCache }
  match waiting with
  | none => b
  | some r =>
    let b :=
      match tile with
      | none => b
      | some tile => r.subscribers.foldl (fun b id =>
          if (b.sessions id).closed then b else b.updateSession id (·.sendTileNow desc tile)) b
    { b with tileCache := b.tileCache.forgetTileBeingRendered desc }

/-- `handleTileRequest`, for a loaded document. -/
def handleTileRequest (b : Broker) (id : Nat) (tile : TileDesc) (forceKeyframe : Bool) (now : Nat) :
    Broker :=
  let tile := { tile with
    normalizedViewId := (b.sessions id).canonicalViewId
    ver := b.tileVersion + 1 }
  let b := { b with tileVersion := b.tileVersion + 1 }
  let b := if forceKeyframe then b.updateSession id (·.resetTileSeq tile) else b
  match b.tileCache.lookupTile tile with
  | some cached =>
    if cached.valid then b.updateSession id (·.sendTileNow tile cached)
    else
      { b with
        tileCache := b.tileCache.subscribeToTileRendering tile id now
        toKit := b.toKit ++ [[tile]] }
  | none =>
    { b with
      tileCache := b.tileCache.subscribeToTileRendering tile id now
      toKit := b.toKit ++ [[tile]] }

/-! ## `sendRequestedTiles` -/

/-- One round of its loop, for the tile at the front of the queue: answered from the cache, or
subscribed to and, if no rendering is on its way, added to those that need one. -/
def sendRequestedTile (id now : Nat) (b : Broker) (need : List TileDesc) (tile : TileDesc) :
    Broker × List TileDesc :=
  match b.tileCache.lookupTile tile with
  | some cached =>
    if cached.valid then
      let tile := if tile.wireId = 0 then { tile with wireId := cached.wids.getLastD 0 } else tile
      (b.updateSession id (·.sendTileNow tile cached), need)
    else render tile
  | none => render { tile with oldWireId := 0 }
where
  /-- The branch for a tile that is not in the cache, or not valid; `asked` is the request the kit
  is sent for it. -/
  render (asked : TileDesc) : Broker × List TileDesc :=
    if !b.tileCache.hasTileBeingRendered tile now ||
        decide (b.tileCache.getTileBeingRenderedVersion tile < tile.ver) then
      let asked := { asked with ver := b.tileVersion + 1 }
      ({ b with
          tileVersion := b.tileVersion + 1
          tileCache := b.tileCache.subscribeToTileRendering asked id now }, need ++ [asked])
    else ({ b with tileCache := b.tileCache.subscribeToTileRendering tile id now }, need)

/-- The loop, for as many tiles as may be sent. -/
def sendRequestedLoop (id now : Nat) : Nat → Broker → List TileDesc → Broker × List TileDesc
  | 0, b, need => (b, need)
  | budget + 1, b, need =>
    match (b.sessions id).requestedTiles with
    | [] => (b, need)
    | tile :: rest =>
      let sent := sendRequestedTile id now b need tile
      sendRequestedLoop id now budget
        (sent.1.updateSession id fun s => { s with requestedTiles := rest }) sent.2

/-- The groups of tiles that may share a `tilecombine`: one group when they all do, or else one
for each set of parameters, in order of appearance. -/
def insertGroup (t : TileDesc) : List (List TileDesc) → List (List TileDesc)
  | [] => [[t]]
  | g :: gs =>
    match g with
    | [] => g :: insertGroup t gs
    | u :: _ => if t.sameTileCombineParams u then (g ++ [t]) :: gs else g :: insertGroup t gs

def groupsNeedsRendering (need : List TileDesc) : List (List TileDesc) :=
  need.foldl (fun groups t => insertGroup t groups) []

/-- `sendRequestedTiles`. -/
def sendRequestedTiles (b : Broker) (id now budget : Nat) : Broker :=
  let (b, need) := sendRequestedLoop id now budget b []
  { b with toKit := b.toKit ++ groupsNeedsRendering need }

/-! ## `handleTileCombinedRequest` -/

/-- The first loop: versions, forced keyframes, and the tiles that are not in the cache. -/
def prepareTile (id now : Nat) (forceKeyframe : Bool) (b : Broker) (tiles need : List TileDesc)
    (tile : TileDesc) : Broker × List TileDesc × List TileDesc :=
  let tile := { tile with ver := b.tileVersion + 1 }
  let b := { b with tileVersion := b.tileVersion + 1 }
  let force := forceKeyframe && tile.wantsKeyframe
  let b := if force then b.updateSession id (·.resetTileSeq tile) else b
  let tile := if force then { tile with oldWireId := 1 } else tile
  match b.tileCache.lookupTile tile with
  | some cached =>
    if cached.valid then (b, tiles ++ [tile], need)
    else
      ({ b with tileCache := b.tileCache.subscribeToTileRendering tile id now }, tiles ++ [tile],
        need ++ [tile])
  | none =>
    let tile := { tile with oldWireId := 0 }
    ({ b with tileCache := b.tileCache.subscribeToTileRendering tile id now }, tiles ++ [tile],
      need ++ [tile])

def prepareTiles (id now : Nat) (forceKeyframe : Bool) :
    List TileDesc → Broker → List TileDesc → List TileDesc → Broker × List TileDesc × List TileDesc
  | [], b, tiles, need => (b, tiles, need)
  | tile :: rest, b, tiles, need =>
    let (b, tiles, need) := prepareTile id now forceKeyframe b tiles need tile
    prepareTiles id now forceKeyframe rest b tiles need

/-- A new request put into the queue: a tile that is there already takes its version and wire ids. -/
def mergeRequest (newTile : TileDesc) : List TileDesc → List TileDesc
  | [] => [newTile]
  | oldTile :: rest =>
    if oldTile.cacheKey = newTile.cacheKey then
      { oldTile with
        ver := newTile.ver
        oldWireId := newTile.oldWireId
        wireId := newTile.wireId } :: rest
    else oldTile :: mergeRequest newTile rest

/-- The queue after a request; what was in it follows the session's view. -/
def accumulate (s : ClientSession) (tiles : List TileDesc) : List TileDesc :=
  if s.requestedTiles = [] then tiles
  else
    let old := s.requestedTiles.map fun t => { t with normalizedViewId := s.canonicalViewId }
    tiles.foldl (fun queue t => mergeRequest t queue) old

/-- `handleTileCombinedRequest` up to the sending. -/
def acceptRequest (b : Broker) (id : Nat) (tileCombined : TileCombined) (forceKeyframe : Bool)
    (now : Nat) : Broker :=
  let (b, tiles, need) := prepareTiles id now forceKeyframe tileCombined.tiles b [] []
  let b := if need = [] then b else { b with toKit := b.toKit ++ [need] }
  b.updateSession id fun s => { s with requestedTiles := accumulate s tiles }

/-- `handleTileCombinedRequest`. -/
def handleTileCombinedRequest (b : Broker) (id : Nat) (tileCombined : TileCombined)
    (forceKeyframe : Bool) (now budget : Nat) : Broker :=
  (b.acceptRequest id tileCombined forceKeyframe now).sendRequestedTiles id now budget

end Broker

/-- Everything that touches the tiles of a document. -/
inductive Action where
  /-- A tile from the kit. -/
  | response (desc : TileDesc) (data : List UInt8)
  /-- A `tilecombine` of a client, or one the server makes after an invalidation. -/
  | combined (id : Nat) (tileCombined : TileCombined) (forceKeyframe : Bool) (now budget : Nat)
  /-- The client took in some tiles, and more may be sent. -/
  | more (id : Nat) (now budget : Nat)
  /-- A `tile` request of a client. -/
  | single (id : Nat) (tile : TileDesc) (now : Nat)
  | invalidate (part mode x y width height : Int) (normalizedViewId : Nat)
  | evict (victims : List CacheKey)
  | setView (id : Nat) (canonicalViewId : Nat)
  | close (id : Nat)

def act (b : Broker) : Action → Broker
  | .response desc data => b.saveTileAndNotify desc data
  | .combined id tileCombined forceKeyframe now budget =>
    b.handleTileCombinedRequest id tileCombined forceKeyframe now budget
  | .more id now budget => b.sendRequestedTiles id now budget
  | .single id tile now => b.handleTileRequest id tile true now
  | .invalidate part mode x y width height normalizedViewId =>
    { b with
      tileCache := b.tileCache.invalidateTiles part mode x y width height normalizedViewId }
  | .evict victims => { b with tileCache := b.tileCache.evict victims }
  | .setView id canonicalViewId => b.updateSession id fun s => { s with canonicalViewId := canonicalViewId }
  | .close id => b.updateSession id fun s => { s with closed := true }

end Oxool.Wsd.Tiles
