import Oxool.Net.Buffer

/-!
# `WebSocketHandler` (`net/WebSocketHandler.hpp`)

Sending and receiving WebSocket frames, as the source computes them on its buffers. Every function
that indexes memory answers in `Option`: `none` is an access outside the bytes it was given, where
the C++ program has no defined meaning. The socket is past its upgrade and processes input; the
timing of pings (`_lastPingSentTime`, `gotPing`) has no effect on what is sent or delivered and is
left out.

What the outside sees is recorded in `log`, in order: messages handed to `handleMessage`, frames
put into the output buffer, and the closing of the connection.
-/

set_option autoImplicit false

namespace Oxool.Net

/-- `WSOpCode`, as the low four bits of a frame's first byte carry it. -/
def opContinuation : UInt8 := 0x0
def opText : UInt8 := 0x1
def opBinary : UInt8 := 0x2
def opClose : UInt8 := 0x8
def opPing : UInt8 := 0x9
def opPong : UInt8 := 0xa

/-- `StatusCodes::NORMAL_CLOSE` and `StatusCodes::PROTOCOL_ERROR`. -/
def normalClose : Nat := 1000
def protocolError : Nat := 1002

inductive Event
  | message (data : List UInt8)
  | sent (flags : UInt8) (data : List UInt8)
  | closed
deriving DecidableEq

/-- The part of `StreamSocket` the handler uses. -/
structure StreamSocket where
  inBuffer : Buffer
  outBuffer : Buffer
  closed : Bool
  ignoreInput : Bool
deriving DecidableEq

structure WebSocketHandler where
  socket : StreamSocket
  isMasking : Bool
  inFragmentBlock : Bool
  wsPayload : List UInt8
  shuttingDown : Bool
  isClient : Bool
  log : List Event
deriving DecidableEq

namespace WebSocketHandler

/-- `WebSocketHandler(isClient, isMasking)` on a new socket. -/
def new (isClient isMasking : Bool) : WebSocketHandler where
  socket := { inBuffer := .empty, outBuffer := .empty, closed := false, ignoreInput := false }
  isMasking := isClient && isMasking
  inFragmentBlock := false
  wsPayload := []
  shuttingDown := false
  isClient := isClient
  log := []

/-! ## Sending -/

/-- The masking key of `buildFrame`. -/
def maskKey : List UInt8 := [0x81, 0x76, 0x81, 0x76]

/-- The loop of `buildFrame` that masks the data a block of 16384 bytes at a time; `i` is how far
it got. -/
def copyMasked (data : List UInt8) (len : Nat) : Nat → Nat → Buffer → Option Buffer
  | 0, _, out => some out
  | fuel + 1, i, out =>
    let toSend := min 16384 (len - i)
    if toSend = 0 then some out
    else
      let copy := (List.range toSend).map fun j =>
        data.getD (i + j) 0 ^^^ maskKey.getD ((i + j) % 4) 0
      (out.append copy toSend).bind (copyMasked data len fuel (i + toSend))

/-- The bytes `buildFrame` collects in `scratch`. -/
def scratch (isMasking : Bool) (len : Nat) (flags : UInt8) : List UInt8 :=
  let maskFlag : UInt8 := if isMasking then 0x80 else 0
  (0x80 ||| flags) ::
    if len < 126 then [UInt8.ofNat len ||| maskFlag]
    else if len ≤ 0xffff then [126 ||| maskFlag, UInt8.ofNat (len >>> 8), UInt8.ofNat len]
    else [127 ||| maskFlag, UInt8.ofNat (len >>> 56), UInt8.ofNat (len >>> 48),
      UInt8.ofNat (len >>> 40), UInt8.ofNat (len >>> 32), UInt8.ofNat (len >>> 24),
      UInt8.ofNat (len >>> 16), UInt8.ofNat (len >>> 8), UInt8.ofNat len]

/-- `buildFrame`. -/
def buildFrame (isMasking : Bool) (data : List UInt8) (len : Nat) (flags : UInt8) (out : Buffer) :
    Option Buffer :=
  let head := scratch isMasking len flags
  (out.append head head.length).bind fun out =>
    if isMasking then
      (out.append maskKey 4).bind (copyMasked data len (len + 1) 0)
    else out.append data len

/-- `sendFrame`: nothing is sent for an empty frame or on a closed socket. -/
def sendFrame (h : WebSocketHandler) (data : List UInt8) (flags : UInt8) :
    Option WebSocketHandler :=
  if data.length = 0 then some h
  else if h.socket.closed then some h
  else (buildFrame h.isMasking data data.length flags h.socket.outBuffer).map fun out =>
    { h with socket := { h.socket with outBuffer := out }, log := h.log ++ [.sent flags data] }

/-- `sendMessage`. -/
def sendMessage (h : WebSocketHandler) (data : List UInt8) (code : UInt8) :
    Option WebSocketHandler :=
  h.sendFrame data (0x80 ||| code)

/-- `sendPong`. The payload is passed on by address, so an empty one is not read. -/
def sendPong (h : WebSocketHandler) (data : List UInt8) : Option WebSocketHandler :=
  h.sendMessage data opPong

/-- `sendCloseFrame`. -/
def sendCloseFrame (h : WebSocketHandler) (statusCode : Nat) (statusMessage : List UInt8) :
    Option WebSocketHandler :=
  if h.socket.closed then some h
  else if h.shuttingDown then some h
  else
    let buf := UInt8.ofNat (statusCode >>> 8) :: UInt8.ofNat statusCode :: statusMessage
    { h with shuttingDown := true }.sendFrame buf (0x80 ||| opClose)

/-- `shutdown`: the Close frame unless one was sent, then the end of the connection. -/
def shutdown (h : WebSocketHandler) (statusCode : Nat) (statusMessage : List UInt8) :
    Option WebSocketHandler :=
  (if h.shuttingDown then some h else h.sendCloseFrame statusCode statusMessage).map fun h =>
    { h with
      socket := { h.socket with inBuffer := .empty, ignoreInput := true }
      wsPayload := []
      inFragmentBlock := false
      shuttingDown := false
      log := h.log ++ [.closed] }

/-! ## Receiving -/

/-- The two long forms of the payload length and the size of the header up to it. `p` reads the
buffer, `len` is what it holds; `some none` is a partial read. -/
def readLength (p : Nat → Option UInt8) (len payloadLen : Nat) : Option (Option (Nat × Nat)) :=
  if payloadLen = 126 then
    if len < 2 + 2 then some none
    else do
      let b2 ← p 2
      let b3 ← p 3
      return some (b2.toNat <<< 8 ||| b3.toNat, 4)
  else if payloadLen = 127 then
    if len < 2 + 8 then some none
    else do
      let b2 ← p 2
      let b3 ← p 3
      let b4 ← p 4
      let b5 ← p 5
      let b6 ← p 6
      let b7 ← p 7
      let b8 ← p 8
      let b9 ← p 9
      return some (b9.toNat + b8.toNat <<< 8 + b7.toNat <<< 16 + b6.toNat <<< 24 +
        b5.toNat <<< 32 + b4.toNat <<< 40 + b3.toNat <<< 48 + b2.toNat <<< 56, 10)
  else some (some (payloadLen, 2))

/-- `readPayload`, with `data` and `mask` as positions in the buffer `p` reads. -/
def readPayload (p : Nat → Option UInt8) (data dataLen : Nat) (mask : Option Nat)
    (payload : List UInt8) : Option (List UInt8) :=
  if dataLen = 0 then some payload
  else
    match mask with
    | some mask =>
      ((List.range dataLen).mapM fun i => do
        let b ← p (data + i)
        let m ← p (mask + i % 4)
        return b ^^^ m).map (payload ++ ·)
    | none => ((List.range dataLen).mapM fun i => p (data + i)).map (payload ++ ·)

/-- The `Close` case of the switch on a control frame's code. -/
def closeFrame (h : WebSocketHandler) (ctrlPayload : List UInt8) : Option WebSocketHandler :=
  if h.shuttingDown then h.shutdown normalClose []
  else if ctrlPayload.length = 0 then h.shutdown normalClose []
  else do
    let b0 ← ctrlPayload[0]?
    let b1 ← ctrlPayload[1]?
    h.shutdown (b0.toNat <<< 8 + b1.toNat) (ctrlPayload.drop 2)

/-- What `handleTCPStream` does with a control frame once it is taken off the buffer. -/
def controlFrame (h : WebSocketHandler) (fin : Bool) (code : UInt8) (payloadLen : Nat)
    (ctrlPayload : List UInt8) : Option WebSocketHandler :=
  if !fin then h.shutdown protocolError []
  else if payloadLen > 125 then h.shutdown protocolError []
  else if code = opPong then some h
  else if code = opPing then h.sendPong ctrlPayload
  else if code = opClose then h.closeFrame ctrlPayload
  else h.shutdown protocolError []

/-- The end of `handleTCPStream` on a data frame whose payload was added to `_wsPayload`. -/
def dataFrame (h : WebSocketHandler) (fin : Bool) : WebSocketHandler :=
  if fin then
    { h with
      log := h.log ++ [.message h.wsPayload]
      inFragmentBlock := false
      wsPayload := [] }
  else { h with inFragmentBlock := true }

/-- `getInBuffer().eraseFirst(n)` and `eraseFirstInputBytes(n)`. -/
def eraseInput (h : WebSocketHandler) (n : Nat) : WebSocketHandler :=
  { h with socket := { h.socket with inBuffer := h.socket.inBuffer.eraseFirst n } }

/-- `handleTCPStream` from the point where a whole frame is in the buffer. -/
def handleWholeFrame (h : WebSocketHandler) (fin : Bool) (code : UInt8)
    (mask : Option Nat) (headerLen payloadLen : Nat) : Option WebSocketHandler :=
  let p := h.socket.inBuffer.get?
  if mask.isSome && h.isClient then h.shutdown protocolError []
  else if code ≥ opClose then do
    let ctrlPayload ← readPayload p headerLen payloadLen mask []
    (h.eraseInput (headerLen + payloadLen)).controlFrame fin code payloadLen ctrlPayload
  else if h.inFragmentBlock && code != opContinuation then h.shutdown protocolError []
  else if !h.inFragmentBlock && code == opContinuation then h.shutdown protocolError []
  else do
    let wsPayload ← readPayload p headerLen payloadLen mask h.wsPayload
    return ({ h with wsPayload := wsPayload }.eraseInput (headerLen + payloadLen)).dataFrame fin

/-- `handleTCPStream`. The answer says whether a frame was handled. -/
def handleTCPStream (h : WebSocketHandler) : Option (WebSocketHandler × Bool) :=
  let len := h.socket.inBuffer.size
  let p := h.socket.inBuffer.get?
  if len < 2 then some (h, false)
  else do
    let b0 ← p 0
    let b1 ← p 1
    let fin := b0 &&& 0x80 != 0
    let code := b0 &&& 0x0f
    let hasMask := b1 &&& 0x80 != 0
    match ← readLength p len (b1 &&& 0x7f).toNat with
    | none => return (h, false)
    | some (payloadLen, headerLen) =>
      let mask := if hasMask then some headerLen else none
      let headerLen := if hasMask then headerLen + 4 else headerLen
      if headerLen > len ∨ payloadLen > len - headerLen then return (h, false)
      else
        let h ← h.handleWholeFrame fin code mask headerLen payloadLen
        return (h, true)

/-- The loop of `handleIncomingMessage`. Each round but the last empties or shortens the input
buffer, so its size bounds the rounds. -/
def handleIncomingMessage : Nat → WebSocketHandler → Option WebSocketHandler
  | 0, h => some h
  | fuel + 1, h => do
    match ← h.handleTCPStream with
    | (h, true) => handleIncomingMessage fuel h
    | (h, false) => return h

/-- One poll of the socket in which `data` can be read: `readIncomingData` and then the handler.
A socket that ignores input reads nothing and is marked closed. -/
def handlePoll (h : WebSocketHandler) (data : List UInt8) : Option WebSocketHandler :=
  if h.socket.ignoreInput then some { h with socket := { h.socket with closed := true } }
  else
    let inBuffer := h.socket.inBuffer.insertEnd data
    handleIncomingMessage (inBuffer.size + 1) { h with socket := { h.socket with inBuffer } }

/-- A run: one poll for every read. -/
def receive (h : WebSocketHandler) (reads : List (List UInt8)) : Option WebSocketHandler :=
  reads.foldlM handlePoll h

end WebSocketHandler

end Oxool.Net
