import Oxool.Kit.MessageQueue
import Oxool.Lib.Search
import Oxool.Tile.TileText

/-!
# The tile queue (`common/MessageQueue.cpp`)

`TileQueue` is the queue of a document in the kit. Beside the messages of the sessions it takes the
requests for tiles and the callbacks of the office core. What a new message makes superfluous is
taken out when it is put: a request for the same tile, by its text up to the version; callbacks that
say less than the new one; invalidations, which are joined to one that covers both. When a tile is
next, the one at the cursor of the view that was edited last comes first, and with it all tiles that
can be painted together with it.

An exception can leave `put` and `pop` half done. `put` answers whether it threw, `pop` answers
nothing then, and the queue is as the exception left it. `viewIdOf` is the member `viewId` of a text
in JSON, `none` where the text has none or cannot be read; all `int`s wrap around.
-/

set_option autoImplicit false

namespace Oxool.Kit

open Oxool.Http (Bytes ascii)
open Oxool.Protocol

/-! ## Duplicates of a tile -/

/-- `strncmp` finds no difference, in strings that are long enough. -/
def strncmpEq (n : Nat) (s t : Bytes) : Bool :=
  (s.take n).takeWhile (· != 0) == (t.take n).takeWhile (· != 0)

/-- Where the version starts, or the last byte. -/
def newMsgPos (tileMsg : Bytes) : Nat := (search (ascii " ver") tileMsg).getD (tileMsg.length - 1)

def isTileDuplicate (tileMsg queued : Bytes) : Bool :=
  decide (newMsgPos tileMsg < queued.length) && strncmpEq (newMsgPos tileMsg) tileMsg queued

def removeTileDuplicate (tileMsg : Bytes) (queue : List Bytes) : List Bytes :=
  queue.eraseP (isTileDuplicate tileMsg)

/-! ## Invalidations -/

/-- `std::atoi`. -/
def atoi (s : Bytes) : Int := toInt32 (((strtol s).map Prod.fst).getD 0)

/-- An area of the document, of one part in one mode. -/
structure Invalidation where
  x : Int
  y : Int
  w : Int
  h : Int
  part : Int
  mode : Int
deriving DecidableEq

/-- `extractRectangle`. -/
def extractRectangle : List Bytes → Option Invalidation
  | _ :: _ :: _ :: t3 :: t4 :: tokens =>
    if t3 = ascii "EMPTY," then some ⟨0, 0, intMax, intMax, atoi t4, 0⟩
    else
      match tokens with
      | t5 :: t6 :: t7 :: more =>
        some {
          x := atoi t3
          y := atoi t4
          w := atoi t5
          h := atoi t6
          part := atoi t7
          mode := match more with
            | [t8] => atoi t8
            | _ => 0 }
      | _ => none
  | _ => none

/-- `TileDesc::rectanglesIntersect`. -/
def rectanglesIntersect (x1 y1 w1 h1 x2 y2 w2 h2 : Int) : Bool :=
  decide (x2 ≤ toInt32 (x1 + w1) ∧ x1 ≤ toInt32 (x2 + w2) ∧ y2 ≤ toInt32 (y1 + h1) ∧
    y1 ≤ toInt32 (y2 + h2))

namespace Invalidation

/-- The queued invalidation is fully covered by the message. -/
def covers (msg queued : Invalidation) : Bool :=
  decide (msg.x ≤ queued.x ∧ toInt32 (queued.x + queued.w) ≤ toInt32 (msg.x + msg.w) ∧
    msg.y ≤ queued.y ∧ toInt32 (queued.y + queued.h) ≤ toInt32 (msg.y + msg.h))

def intersects (msg queued : Invalidation) : Bool :=
  rectanglesIntersect msg.x msg.y msg.w msg.h queued.x queued.y queued.w queued.h

/-- The rectangle around both. -/
def join (msg queued : Invalidation) : Invalidation :=
  let x := min msg.x queued.x
  let y := min msg.y queued.y
  { msg with
    x := x
    y := y
    w := toInt32 (max (toInt32 (msg.x + msg.w)) (toInt32 (queued.x + queued.w)) - x)
    h := toInt32 (max (toInt32 (msg.y + msg.h)) (toInt32 (queued.y + queued.h)) - y) }

/-- Four tiles wide and two tiles high, at 100% zoom. -/
def isReasonable (r : Invalidation) : Bool := decide (r.w ≤ 4 * 3840 ∧ r.h ≤ 2 * 3840)

end Invalidation

/-- The messages have the first three tokens in common: the callback, the view and the type. -/
def sameTarget (queuedTokens tokens : List Bytes) : Bool :=
  decide (3 ≤ queuedTokens.length) && queuedTokens.take 3 == tokens.take 3

/-- A queued invalidation for the same view, part and mode. -/
def queuedInvalidation (tokens : List Bytes) (msg : Invalidation) (queued : Bytes) :
    Option Invalidation := do
  let queuedTokens := tokenize queued blank
  guard (sameTarget queuedTokens tokens)
  let r ← extractRectangle queuedTokens
  guard (r.part = msg.part ∧ r.mode = msg.mode)
  return r

/-- The loop over the queue: the area of the message in the end, whether it was joined with one of
the queue, and the queue without those it has taken the place of. -/
def coalesce (tokens : List Bytes) : Invalidation → List Bytes → Invalidation × Bool × List Bytes
  | msg, [] => (msg, false, [])
  | msg, it :: rest =>
    match queuedInvalidation tokens msg it with
    | none =>
      let r := coalesce tokens msg rest
      (r.1, r.2.1, it :: r.2.2)
    | some queued =>
      if msg.covers queued then coalesce tokens msg rest
      else if msg.intersects queued && (msg.join queued).isReasonable then
        let r := coalesce tokens (msg.join queued) rest
        (r.1, true, r.2.2)
      else
        let r := coalesce tokens msg rest
        (r.1, r.2.1, it :: r.2.2)

/-- The length of some tokens of a message. -/
def tokenLengths (tokens : List Bytes) : Nat := (tokens.map List.length).sum

/-- `substr`, which throws behind the end. -/
def substrFrom (s : Bytes) (pos : Nat) : Option Bytes := if s.length < pos then none else some (s.drop pos)

/-- The text of the joined invalidation. -/
def mergedText (callbackMsg : Bytes) (tokens : List Bytes) (msg : Invalidation) : Option Bytes := do
  let pre := tokenLengths (tokens.take 3) + 3
  let post := pre + tokenLengths ((tokens.drop 3).take 4) + 4
  let rest ← substrFrom callbackMsg post
  return callbackMsg.take pre ++ decimal msg.x ++ ascii ", " ++ decimal msg.y ++ ascii ", " ++
    decimal msg.w ++ ascii ", " ++ decimal msg.h ++ ascii ", " ++ rest

/-! ## Other callbacks -/

/-- `extractUnoCommand`. -/
def extractUnoCommand (command : Bytes) : Bytes :=
  if matchPrefix (ascii ".uno:") command then command.takeWhile (· != equalSign) else []

/-- `containsUnoCommand`. -/
def containsUnoCommand (token command : Bytes) : Bool :=
  matchPrefix (ascii ".uno:") token && token.takeWhile (· != equalSign) == command

/-- `isDuplicateCommand`. -/
def isDuplicateCommand (unoCommand : Bytes) (tokens : List Bytes) (queued : Bytes) : Bool :=
  let queuedTokens := tokenize queued blank
  sameTarget queuedTokens tokens &&
    match queuedTokens[3]? with
    | none => false
    | some token => containsUnoCommand token unoCommand

/-- `LOK_CALLBACK_INVALIDATE_TILES`. -/
def invalidateTiles : Int := 0

/-- `LOK_CALLBACK_STATE_CHANGED`. -/
def stateChanged : Int := 8

/-- The callbacks of which the last one counts: the cursor and its visibility, the progress
indicator, the size of the document and the cell cursor. -/
def lastCounts : List Int := [1, 5, 10, 13, 17]

/-- Of these the last one of each view counts: its cursor, its cell cursor, and whether its cursor
is visible. -/
def lastOfViewCounts : List Int := [24, 26, 28]

section ViewId

variable (viewIdOf : Bytes → Option Bytes)

/-- `extractViewId`, from the text behind the third token. -/
def extractViewId (origMsg : Bytes) (tokens : List Bytes) : Option Bytes :=
  (substrFrom origMsg (tokenLengths (tokens.take 3) + 3)).bind viewIdOf

/-- A queued callback with the same view and type. -/
def isSameCallback (tokens : List Bytes) (queued : Bytes) : Bool :=
  let queuedTokens := tokenize queued blank
  matchPrefix (ascii "callback") queued && decide (3 ≤ queuedTokens.length) &&
    queuedTokens[1]? == tokens[1]? && queuedTokens[2]? == tokens[2]?

/-- The loop for callbacks of a view; `none` where a queued one cannot be read. -/
def removeViewCallback (tokens : List Bytes) (viewId : Bytes) : List Bytes → Option (List Bytes)
  | [] => some []
  | it :: rest =>
    if isSameCallback tokens it then
      match extractViewId viewIdOf it (tokenize it blank) with
      | none => none
      | some queuedViewId =>
        if viewId = queuedViewId then some rest
        else (removeViewCallback tokens viewId rest).map (it :: ·)
    else (removeViewCallback tokens viewId rest).map (it :: ·)

/-- `Util::i32FromString`. -/
def i32FromString (input : Bytes) : Option Int :=
  match strtol input with
  | some (value, false) => some (toInt32 value)
  | _ => none

/-- `removeCallbackDuplicate`: what is left of the queue, and the new message, `none` where an
exception was thrown. The message that was given stands for the empty answer of the code. -/
def removeCallbackDuplicate (callbackMsg : Bytes) (queue : List Bytes) : List Bytes × Option Bytes :=
  let tokens := tokenize callbackMsg blank
  match tokens[2]?.bind i32FromString with
  | none => (queue, some callbackMsg)
  | some callbackType =>
    if callbackType = invalidateTiles then
      match extractRectangle tokens with
      | none => (queue, some callbackMsg)
      | some msg =>
        let r := coalesce tokens msg queue
        (r.2.2, if r.2.1 then mergedText callbackMsg tokens r.1 else some callbackMsg)
    else if callbackType = stateChanged then
      match tokens[3]? with
      | none => (queue, some callbackMsg)
      | some command =>
        let unoCommand := extractUnoCommand command
        if unoCommand = [] ∨ unoCommand = ascii ".uno:ModifiedStatus" then (queue, some callbackMsg)
        else (queue.eraseP (isDuplicateCommand unoCommand tokens), some callbackMsg)
    else if callbackType ∈ lastCounts then
      (queue.eraseP (isSameCallback tokens), some callbackMsg)
    else if callbackType ∈ lastOfViewCounts then
      match extractViewId viewIdOf callbackMsg tokens with
      | none => (queue, none)
      | some viewId =>
        match removeViewCallback viewIdOf tokens viewId queue with
        | none => (queue, none)
        | some queue' => (queue', some callbackMsg)
    else (queue, some callbackMsg)

/-! ## Putting -/

/-- A tile on the queue, in the place of an earlier request. -/
def putTile (queue : List Bytes) (tileMsg : Bytes) : List Bytes :=
  MessageQueue.put_impl (removeTileDuplicate tileMsg queue) tileMsg

/-- `TileQueue::put_impl`: the queue, and whether an exception was thrown. -/
def TileQueue.put_impl (queue : List Bytes) (value : Bytes) : List Bytes × Bool :=
  let firstToken := getFirstToken value
  if firstToken = ascii "tilecombine" then
    match TileCombined.parse (tokenize value blank) with
    | none => (queue, true)
    | some tileCombined =>
      (tileCombined.tiles.foldl (fun q tile => putTile q (tile.serialize (ascii "tile"))) queue, false)
  else if firstToken = ascii "tile" then (putTile queue value, false)
  else if firstToken = ascii "callback" then
    match removeCallbackDuplicate viewIdOf value queue with
    | (queue', none) => (queue', true)
    | (queue', some newMsg) => (MessageQueue.put_impl queue' newMsg, false)
  else (MessageQueue.put_impl queue value, false)

end ViewId

/-! ## Getting -/

structure CursorPosition where
  part : Int
  x : Int
  y : Int
  width : Int
  height : Int

structure TileQueue where
  queue : List Bytes
  cursorPositions : List (Int × CursorPosition)
  viewOrder : List Int

/-- The message is for a tile that may be painted with others: it has no preview id. -/
def isPlainTile (message : Bytes) : Bool :=
  matchPrefix (ascii "tile") message && (getTokenStringFromMessage message (ascii "id")).isNone

def isPreviewTile (message : Bytes) : Bool :=
  matchPrefix (ascii "tile") message && (getTokenStringFromMessage message (ascii "id")).isSome

/-- `TileDesc::parse` of a message. -/
def readTile (message : Bytes) : Option TileDesc := TileDesc.parse (tokenize message blank)

end Oxool.Kit

namespace Oxool.TileDesc

open Oxool.Kit Oxool.Protocol

def intersectsWithRect (t : TileDesc) (x y w h : Int) : Bool :=
  rectanglesIntersect t.tilePosX t.tilePosY t.tileWidth t.tileHeight x y w h

def onSameRow (t other : TileDesc) : Bool :=
  t.sameTileCombineParams other &&
    decide ((t.tilePosY : Int) ≤ toInt32 (other.tilePosY + other.tileHeight) ∧
      (other.tilePosY : Int) ≤ toInt32 (t.tilePosY + t.tileHeight))

/-- A 4k screen is sixteen tiles wide. -/
def canCombine (t other : TileDesc) : Bool :=
  t.onSameRow other &&
    decide (-16 ≤ ((t.tilePosX / t.tileWidth : Nat) : Int) - (other.tilePosX / other.tileWidth : Nat) ∧
      ((t.tilePosX / t.tileWidth : Nat) : Int) - (other.tilePosX / other.tileWidth : Nat) ≤ 16)

end Oxool.TileDesc

namespace Oxool.Kit

open Oxool.Http (Bytes ascii)

/-- `deprioritizePreviews`, in at most as many rounds as the queue is long. -/
def deprioritizePreviews : Nat → List Bytes → List Bytes
  | 0, queue => queue
  | _ + 1, [] => []
  | n + 1, front :: rest =>
    if isPreviewTile front then deprioritizePreviews n (rest ++ [front]) else front :: rest

/-- The search for the tile to begin with; `none` where a message cannot be read. -/
def prioritize (priority : TileDesc → Int) (highest : Int) :
    Nat → List Bytes → Nat → Int → Option Nat
  | _, [], prioritized, _ => some prioritized
  | i, it :: rest, prioritized, prioritySoFar =>
    if isPlainTile it then
      match readTile it with
      | none => none
      | some tile =>
        if prioritySoFar < priority tile then
          if priority tile = highest then some i
          else prioritize priority highest (i + 1) rest i (priority tile)
        else prioritize priority highest (i + 1) rest prioritized prioritySoFar
    else some prioritized

/-- The tiles that can be painted with the first one, what is left of the queue, and whether a
message could not be read. -/
def combineTiles (first : TileDesc) : List Bytes → List TileDesc × List Bytes × Bool
  | [] => ([], [], false)
  | it :: rest =>
    if isPlainTile it then
      match readTile it with
      | none => ([], it :: rest, true)
      | some tile =>
        let r := combineTiles first rest
        if first.canCombine tile then (tile :: r.1, r.2.1, r.2.2) else (r.1, it :: r.2.1, r.2.2)
    else
      let r := combineTiles first rest
      (r.1, it :: r.2.1, r.2.2)

/-- Later tiles at the place of an earlier one are dropped. -/
def dropDuplicates : Nat → List TileDesc → List TileDesc
  | n + 1, a :: tiles =>
    a :: dropDuplicates n
      (tiles.filter fun b => ¬ (a.tilePosX = b.tilePosX ∧ a.tilePosY = b.tilePosY))
  | _, tiles => tiles

namespace TileQueue

def updateCursorPosition (q : TileQueue) (viewId : Int) (cursorPosition : CursorPosition) : TileQueue :=
  { q with
    cursorPositions :=
      (viewId, cursorPosition) :: q.cursorPositions.filter fun e => e.1 ≠ viewId
    viewOrder := q.viewOrder.erase viewId ++ [viewId] }

def removeCursorPosition (q : TileQueue) (viewId : Int) : TileQueue :=
  { q with
    cursorPositions := q.cursorPositions.filter fun e => e.1 ≠ viewId
    viewOrder := q.viewOrder.erase viewId }

/-- The loop of `priority`, over the views from the newest to the oldest. -/
def priorityIn (q : TileQueue) (tile : TileDesc) : List Int → Int
  | [] => -1
  | viewId :: older =>
    let cursor := (q.cursorPositions.lookup viewId).getD ⟨0, 0, 0, 0, 0⟩
    if tile.intersectsWithRect cursor.x cursor.y cursor.width cursor.height then older.length
    else q.priorityIn tile older

def priority (q : TileQueue) (tile : TileDesc) : Int := q.priorityIn tile q.viewOrder.reverse

/-- `MessageQueue::put`. -/
def put (viewIdOf : Bytes → Option Bytes) (q : TileQueue) (value : Bytes) : TileQueue × Bool :=
  if value = [] then (q, true)
  else
    let r := put_impl viewIdOf q.queue value
    ({ q with queue := r.1 }, r.2)

/-- What the tiles become as a message; `none` where `TileCombined` throws. -/
def messageOf : TileDesc → List TileDesc → Option Bytes
  | first, [] => some (first.serialize (ascii "tile"))
  | first, tiles =>
    let all := dropDuplicates (tiles.length + 1) (first :: tiles)
    (TileCombined.create first all).map fun c => c.serialize (ascii "tilecombine")

/-- `get_impl`: the message, and the queue without it. -/
def get_impl (q : TileQueue) (front : Bytes) (rest : List Bytes) : Option Bytes × TileQueue :=
  if isPlainTile front then
    match prioritize q.priority (q.viewOrder.length - 1) 0 (front :: rest) 0 (-1) with
    | none => (none, q)
    | some prioritized =>
      let msg := (front :: rest).getD prioritized []
      let others := (front :: rest).eraseIdx prioritized
      match readTile msg with
      | none => (none, { q with queue := others })
      | some first =>
        let r := combineTiles first others
        let q' := { q with queue := r.2.1 }
        if r.2.2 then (none, q') else (messageOf first r.1, q')
  else
    (some front, { q with
      queue := if isPreviewTile front then deprioritizePreviews rest.length rest else rest })

/-- `MessageQueue::pop`. -/
def pop (q : TileQueue) : Option Bytes × TileQueue :=
  match q.queue with
  | [] => (some [], q)
  | front :: rest => q.get_impl front rest

end TileQueue

/-- The tiles to paint that `drainQueue` makes of a message. -/
def readBatch (input : Bytes) : Option TileCombined :=
  let tokens := tokenize input blank
  if tokens.head? = some (ascii "tile") then (TileDesc.parse tokens).map TileCombined.single
  else if tokens.head? = some (ascii "tilecombine") then TileCombined.parse tokens
  else none

end Oxool.Kit
