import Oxool.Lib.Overwrite
import Oxool.Lib.Search
import Oxool.Net.Buffer
import Oxool.Net.Http.Transfer

/-!
# Reading a request (`StreamSocket::parseHeader`, `StreamSocket::compactChunks`)

The server's side of an HTTP request. `parseHeader` looks at the whole input buffer each time some
bytes have arrived, and answers whether a complete message is there. For a chunked request it also
notes where the data of each chunk stands (`spans`), and `compactChunks` then moves the data
together, inside the buffer.

`Poco::Net::HTTPRequest::read` is the parameter `poco`, with `none` for an exception. A read or a
move outside the buffer, where the C++ program has no defined meaning, is `Parsed.overrun`, and
`none` in `compactChunks`.
-/

set_option autoImplicit false

namespace Oxool.Http

open Oxool.Net

/-- What `parseHeader` asks of Poco's request. -/
structure HTTPRequest where
  contentLength : Int
  expect : Bytes
  chunked : Bool
deriving DecidableEq

def unknownContentLength : Int := -1

structure MessageMap where
  headerSize : Nat
  messageSize : Nat
  spans : List (Nat × Nat)
deriving DecidableEq

def MessageMap.empty : MessageMap := ⟨0, 0, []⟩

/-- The part of `StreamSocket` that takes in requests. -/
structure StreamSocket where
  inBuffer : Buffer
  outBuffer : Buffer
  sentHTTPContinue : Bool
deriving DecidableEq

/-- The answer of `parseHeader` with the map it leaves. -/
inductive Parsed
  | overrun
  | incomplete (map : MessageMap)
  | complete (map : MessageMap)
deriving DecidableEq

/-! ## `parseHeader` -/

def marker : Bytes := crlf ++ crlf

/-- `isascii` and `isspace`. -/
def isSpace (b : UInt8) : Bool := b == 32 || (9 ≤ b && b ≤ 13)

/-- The digits of a chunk size, in a `size_t`, and what comes after them. -/
def readSize : Nat → Bytes → Nat × Bytes
  | n, [] => (n, [])
  | n, b :: bs =>
    match hexDigitFromChar b with
    | some digit => readSize ((n * 16 + digit) % 2 ^ 64) bs
    | none => (n, b :: bs)

/-- The scan over the size line of a chunk: the size, and what comes after the line. -/
def readSizeLine (rest : Bytes) : Nat × Bytes :=
  let (chunkLen, rest) := readSize 0 (rest.dropWhile isSpace)
  (chunkLen, (rest.dropWhile (· != lf)).drop 1)

/-- The loop over the chunks; `rest` is the input from `itBody` on, of `size` bytes in all. The
loop ends where the input ends, and each round but the last moves on by three bytes or more, so
that a round for each byte is enough. -/
def parseChunks (size : Nat) : Nat → Bytes → MessageMap → Parsed
  | 0, _, map => .incomplete map
  | fuel + 1, rest, map =>
    if rest = [] then .incomplete map
    else
      let (chunkLen, rest) := readSizeLine rest
      let chunkOffset := size - rest.length
      let chunkAvailable := rest.length
      if chunkLen = 0 then .complete { map with messageSize := chunkOffset }
      else if chunkLen > chunkAvailable + 2 then .incomplete map
      else
        let map := { map with spans := map.spans ++ [(chunkOffset, chunkLen)] }
        match rest[chunkLen]? with
        | none => .overrun
        | some a =>
          if a ≠ cr then .incomplete map
          else
            match rest[chunkLen + 1]? with
            | none => .overrun
            | some b =>
              if b ≠ lf then .incomplete map
              else parseChunks size fuel (rest.drop (chunkLen + 2)) map

/-- The answer to `Expect: 100-continue`, sent once. -/
def StreamSocket.sendContinue (s : StreamSocket) (request : HTTPRequest) : StreamSocket :=
  if iequal request.expect (ascii "100-continue") && !s.sentHTTPContinue then
    { s with
      outBuffer := s.outBuffer.insertEnd (ascii "HTTP/1.1 100 Continue" ++ crlf ++ crlf)
      sentHTTPContinue := true }
  else s

/-- `StreamSocket::parseHeader`. -/
def StreamSocket.parseHeader (poco : Bytes → Option HTTPRequest) (s : StreamSocket) :
    StreamSocket × Parsed :=
  let input := s.inBuffer.bytes
  match search marker input with
  | none => (s, .incomplete .empty)
  | some i =>
    let headerSize := i + marker.length
    let map : MessageMap := ⟨headerSize, headerSize, []⟩
    match poco input with
    | none => (s, .incomplete map)
    | some request =>
      let available : Int := (input.length : Int) - headerSize
      if request.contentLength ≠ unknownContentLength ∧ available < request.contentLength then
        (s, .incomplete map)
      else
        let messageSize := ((headerSize : Int) + request.contentLength) % 2 ^ 64
        let map := { map with messageSize := messageSize.toNat }
        let s := s.sendContinue request
        if request.chunked then
          let map := { map with spans := [(0, headerSize)] }
          (s, parseChunks input.length input.length (input.drop headerSize) map)
        else (s, .complete map)

/-! ## `compactChunks` -/

/-- The conversion of a `size_t` to the `int` that `operator[]` takes: the index is cut to 32 bits
and may come out negative. -/
def intIndex (index : Nat) : Int := Int.bmod index (2 ^ 32)

/-- The `len` bytes from `&_inBuffer[index]` on. -/
def bytesAt (b : Buffer) (index len : Nat) : Option Bytes :=
  let start : Int := b.offset + intIndex index
  if 0 ≤ start ∧ start.toNat + len ≤ b.buffer.length then
    some ((b.buffer.drop start.toNat).take len)
  else none

/-- Writing at `dest` bytes from `&_inBuffer[0]`. -/
def writeAt (b : Buffer) (dest : Nat) (data : Bytes) : Option Buffer :=
  if h : b.offset + dest + data.length ≤ b.buffer.length then
    some { b with
      buffer := overwrite b.buffer (b.offset + dest) data
      offset_le := by rw [length_overwrite h]; exact b.offset_le }
  else none

/-- The loop over the spans. `memmove` reads all of a span before it writes. -/
def moveSpans : Buffer → Nat → List (Nat × Nat) → Option (Buffer × Nat)
  | b, dest, [] => some (b, dest)
  | b, dest, (start, len) :: spans =>
    (bytesAt b start len).bind fun data =>
      (writeAt b dest data).bind fun b => moveSpans b (dest + len) spans

/-- `StreamSocket::compactChunks`: the answer, the input buffer and the map. -/
def compactChunks (b : Buffer) (map : MessageMap) : Option (Bool × Buffer × MessageMap) :=
  if map.spans = [] then some (false, b, map)
  else
    (moveSpans b 0 map.spans).bind fun (b, newEnd) =>
      if newEnd ≤ map.messageSize ∧ map.messageSize ≤ b.size then
        let gap := map.messageSize - newEnd
        some (true, b.erase newEnd map.messageSize, { map with messageSize := map.messageSize - gap })
      else none

end Oxool.Http
