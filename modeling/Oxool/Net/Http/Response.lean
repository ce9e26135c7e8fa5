import Mathlib.Data.List.Basic
import Mathlib.Data.List.GetD
import Mathlib.Tactic

/-!
# `http::Response` (`net/HttpRequest.cpp`, `net/HttpRequest.hpp`)

The client's side of an HTTP response, a machine of four stages that `readData` drives. Text is
bytes throughout. `Poco::Net::MessageHeader`, which splits the header into fields, is the
parameter `readFields`; `good` says whether the file the body is saved to takes a write.

`readData` answers how many bytes it used up, or `none` for the -1 that ends the transfer. Two
fields are there for the statements about it only: `given` collects what was passed to the body
callback, and `finished` counts the runs of the finished callback.
-/

set_option autoImplicit false

namespace Oxool.Http

abbrev Bytes := List UInt8

instance lawfulBEq_bytes : LawfulBEq Bytes := inferInstance

def ascii (s : String) : Bytes := s.toList.map fun c => UInt8.ofNat c.toNat

/-- The bytes of a literal, which is a list of characters underneath. To evaluate `String.toList` instead
takes time quadratic in its length, so a long literal is taken apart by this. -/
theorem ascii_ofList (l : List Char) :
    ascii (String.ofList l) = l.map fun c => UInt8.ofNat c.toNat := by
  rw [ascii, String.toList_ofList]

theorem ascii_append (s t : String) : ascii (s ++ t) = ascii s ++ ascii t := by
  rw [ascii, String.toList_append, List.map_append]
  rfl

def cr : UInt8 := 13
def lf : UInt8 := 10
def crlf : Bytes := [cr, lf]

/-- What holds of all 256 bytes holds of a byte. -/
theorem forall_byte {P : UInt8 → Prop} (h : ∀ n : Fin 256, P (UInt8.ofNat n)) (b : UInt8) : P b := by
  have hb := h ⟨b.toNat, b.toNat_lt⟩
  rwa [UInt8.ofNat_toNat] at hb

/-- Bytes of one line. -/
def unbroken (bs : Bytes) : Bool := bs.all fun b => b != lf && b != cr

theorem unbroken_iff {bs : Bytes} : unbroken bs = true ↔ ∀ b ∈ bs, b ≠ lf ∧ b ≠ cr := by
  simp [unbroken]

/-! ## Scanning -/

def isWhitespace (ch : UInt8) : Bool := ch == 32 || ch == 9 || ch == cr

/-- `skipSpaceAndTab`, from an offset inside the data. -/
def skipSpaceAndTab (p : Bytes) (off : Nat) : Nat :=
  off + ((p.drop off).takeWhile isWhitespace).length

/-- `findLineBreak`: the offset of the first LF from `off` on, or the length. -/
def findLineBreak (p : Bytes) (off : Nat) : Nat := off + ((p.drop off).takeWhile (· != lf)).length

/-- `skipCRLF`, as the rest of the data. -/
def skipCRLF (p : Bytes) : Bytes := p.dropWhile fun b => b == cr || b == lf

/-- `findBlankLine` from `off` on; a round moves at least three bytes forward. -/
def findBlankLine (p : Bytes) : Nat → Nat → Nat
  | 0, _ => p.length
  | fuel + 1, off =>
    if off < p.length then
      let off := findLineBreak p off
      if off + 2 ≥ p.length then p.length
      else if p.getD (off + 1) 0 = cr ∧ p.getD (off + 2) 0 = lf then off + 2
      else findBlankLine p fuel (off + 3)
    else p.length

def isDigit (b : UInt8) : Bool := 48 ≤ b && b ≤ 57

/-- `Util::hexDigitFromChar`, with `none` for -1. -/
def hexDigitFromChar (c : UInt8) : Option Nat :=
  if 48 ≤ c && c ≤ 57 then some (c.toNat - 48)
  else if 97 ≤ c && c ≤ 102 then some (c.toNat - 97 + 10)
  else if 65 ≤ c && c ≤ 70 then some (c.toNat - 65 + 10)
  else none

/-- The digit loop of `Util::safe_atoi`, which stops at the largest `int`. -/
def atoiLoop : Nat → Bytes → Nat
  | ret, [] => ret
  | ret, b :: bs =>
    if isDigit b then
      let next := ret * 10 + (b.toNat - 48)
      if next ≥ 2 ^ 31 - 1 then 2 ^ 31 - 1 else atoiLoop next bs
    else ret

/-! ## `StatusLine` -/

/-- `getReasonPhraseForCode`. -/
def getReasonPhraseForCode (code : Nat) : Bytes :=
  match code with
  | 100 => ascii "Continue"
  | 101 => ascii "Switching Protocols"
  | 102 => ascii "Processing"
  | 103 => ascii "Early Hints"
  | 200 => ascii "OK"
  | 201 => ascii "Created"
  | 202 => ascii "Accepted"
  | 203 => ascii "Non Authoritative Information"
  | 204 => ascii "No Content"
  | 205 => ascii "Reset Content"
  | 206 => ascii "Partial Content"
  | 207 => ascii "Multi Status"
  | 208 => ascii "Already Reported"
  | 226 => ascii "IM Used"
  | 300 => ascii "Multiple Choices"
  | 301 => ascii "Moved Permanently"
  | 302 => ascii "Found"
  | 303 => ascii "See Other"
  | 304 => ascii "Not Modified"
  | 305 => ascii "Use Proxy"
  | 307 => ascii "Temporary Redirect"
  | 400 => ascii "Bad Request"
  | 401 => ascii "Unauthorized"
  | 402 => ascii "Payment Required"
  | 403 => ascii "Forbidden"
  | 404 => ascii "Not Found"
  | 405 => ascii "Method Not Allowed"
  | 406 => ascii "Not Acceptable"
  | 407 => ascii "Proxy Authentication Required"
  | 408 => ascii "Request Timeout"
  | 409 => ascii "Conflict"
  | 410 => ascii "Gone"
  | 411 => ascii "Length Required"
  | 412 => ascii "Precondition Failed"
  | 413 => ascii "Payload Too Large"
  | 414 => ascii "URI Too Long"
  | 415 => ascii "Unsupported Media Type"
  | 416 => ascii "Range Not Satisfiable"
  | 417 => ascii "Expectation Failed"
  | 418 => ascii "I'm A Teapot"
  | 421 => ascii "Misdirected Request"
  | 422 => ascii "Unprocessable Entity"
  | 423 => ascii "Locked"
  | 424 => ascii "Failed Dependency"
  | 425 => ascii "Too Early"
  | 426 => ascii "Upgrade Required"
  | 428 => ascii "Precondition Required"
  | 429 => ascii "Too Many Requests"
  | 431 => ascii "Request Header Fields Too Large"
  | 440 => ascii "Login Time-out"
  | 449 => ascii "Retry With"
  | 451 => ascii "Unavailable For Legal Reasons"
  | 500 => ascii "Internal Server Error"
  | 501 => ascii "Not Implemented"
  | 502 => ascii "Bad Gateway"
  | 503 => ascii "Service Unavailable"
  | 504 => ascii "Gateway Timeout"
  | 505 => ascii "HTTP Version Not Supported"
  | 507 => ascii "Insufficient Storage"
  | 508 => ascii "Loop Detected"
  | 510 => ascii "Not Extended"
  | 511 => ascii "Network Authentication Required"
  | _ => ascii "Unknown"

inductive FieldParseState
  | incomplete
  | invalid
  | valid
deriving DecidableEq

structure StatusLine where
  httpVersion : Bytes
  versionMajor : Nat
  versionMinor : Nat
  statusCode : Nat
  reasonPhrase : Bytes
deriving DecidableEq

namespace StatusLine

def versionLen : Nat := 8
def statusCodeLen : Nat := 3
def minStatusLineLen : Nat := 14
def maxStatusLineLen : Nat := versionLen + statusCodeLen + 512

/-- `StatusLine()`, for parsing. -/
def empty : StatusLine := ⟨[], 1, 1, 0, []⟩

/-- `StatusLine(statusCodeNumber)`. -/
def ofCode (code : Nat) : StatusLine :=
  ⟨ascii "HTTP/1.1", 1, 1, code, getReasonPhraseForCode code⟩

/-- `StatusLine::writeData`. -/
def writeData (s : StatusLine) : Bytes :=
  s.httpVersion ++ ascii " " ++ ascii (toString s.statusCode) ++ ascii " " ++ s.reasonPhrase ++ crlf

/-- The version check of `parse`; `version` is the data from the version on. -/
def validVersion (version : Bytes) : Bool :=
  version.take 5 == ascii "HTTP/" && isDigit (version.getD 5 0) && version.getD 6 0 == 46 &&
    isDigit (version.getD 7 0) && isWhitespace (version.getD 8 0)

/-- The status code and the reason phrase of `parse`, from the offset after the version on. The
loop after the line break was found stops at once, since it starts on the LF. -/
def parseCode (s : StatusLine) (p : Bytes) (off : Nat) : StatusLine × FieldParseState :=
  let len := p.length
  let off := skipSpaceAndTab p off
  if off ≥ maxStatusLineLen then (s, .invalid)
  else if len - off < minStatusLineLen - versionLen then (s, .incomplete)
  else if !isDigit (p.getD off 0) then (s, .invalid)
  else
    let s := { s with statusCode := atoiLoop 0 (p.drop off) }
    if s.statusCode < 100 ∨ s.statusCode > 599 then (s, .invalid)
    else
      let off := skipSpaceAndTab p (off + statusCodeLen)
      if off ≥ maxStatusLineLen then (s, .invalid)
      else
        let reasonOff := off
        let off := findLineBreak p off
        if off ≥ len then (s, .incomplete)
        else
          let stringSize := off - reasonOff - 1
          (if stringSize > 0 then { s with reasonPhrase := (p.drop reasonOff).take stringSize }
          else s, .valid)

/-- `StatusLine::parse`. The number of bytes read is not used by the caller. -/
def parse (s : StatusLine) (p : Bytes) : StatusLine × FieldParseState :=
  let len := p.length
  if len < minStatusLineLen then (s, .incomplete)
  else
    let off := skipSpaceAndTab p 0
    if off ≥ maxStatusLineLen then (s, .invalid)
    else if len - off < minStatusLineLen then (s, .incomplete)
    else
      let version := p.drop off
      if !validVersion version then (s, .invalid)
      else
        let s := { s with
          httpVersion := version.take versionLen
          versionMajor := (version.getD 5 0).toNat - 48
          versionMinor := (version.getD 7 0).toNat - 48 }
        s.parseCode p (off + versionLen)

end StatusLine

/-! ## `Header` -/

/-- `Util::trimmed`. -/
def trimmed (s : Bytes) : Bytes := ((s.dropWhile (· == 32)).reverse.dropWhile (· == 32)).reverse

def toLower (b : UInt8) : UInt8 := if 65 ≤ b && b ≤ 90 then b + 32 else b

/-- `Util::iequal`. -/
def iequal (lhs rhs : Bytes) : Bool := lhs.map toLower == rhs.map toLower

structure Header where
  headers : List (Bytes × Bytes)
  chunked : Bool
deriving DecidableEq

/-- What `MessageHeader::read` does with some data: the fields it found, a stream in a failed
state, or an exception. -/
inductive PocoRead
  | fields (fields : List (Bytes × Bytes))
  | failed
  | threw

namespace Header

def contentLength : Bytes := ascii "Content-Length"
def contentType : Bytes := ascii "Content-Type"
def transferEncoding : Bytes := ascii "Transfer-Encoding"

def empty : Header := ⟨[], false⟩

def setIn (key value : Bytes) : List (Bytes × Bytes) → List (Bytes × Bytes)
  | [] => [(key, value)]
  | (k, v) :: hs => if k = key then (k, value) :: hs else (k, v) :: setIn key value hs

/-- `Header::set`. -/
def set (h : Header) (key value : Bytes) : Header :=
  { h with headers := setIn key value h.headers }

def has (h : Header) (key : Bytes) : Bool := h.headers.any fun f => iequal f.1 key

/-- `Header::get`, with the empty default. -/
def get (h : Header) (key : Bytes) : Bytes :=
  ((h.headers.find? fun f => iequal f.1 key).map Prod.snd).getD []

def setContentType (h : Header) (type : Bytes) : Header := h.set contentType type

def setContentLength (h : Header) (length : Nat) : Header :=
  h.set contentLength (ascii (toString length))

def hasContentLength (h : Header) : Bool := h.has contentLength

def getTransferEncoding (h : Header) : Bytes := h.get transferEncoding

/-- The digits `std::stoll` reads. -/
def digitsValue (bs : Bytes) : Nat := (bs.takeWhile isDigit).foldl (fun n b => n * 10 + (b.toNat - 48)) 0

/-- `Header::getContentLength`, with `none` for -1. -/
def getContentLength (h : Header) : Option Nat :=
  match h.get contentLength with
  | [] => none
  | b :: bs =>
    if isDigit b then
      let n := digitsValue (b :: bs)
      if n < 2 ^ 63 then some n else none
    else none

/-- `Header::writeData`. -/
def writeData (h : Header) : Bytes :=
  h.headers.flatMap fun f => f.1 ++ ascii ": " ++ f.2 ++ crlf

/-- The fields of a header copied over to ours, and what they say about chunks. -/
def setAll (h : Header) (fields : List (Bytes × Bytes)) : Header :=
  let h := fields.foldl (fun h f => h.set (trimmed f.1) (trimmed f.2)) h
  { h with chunked := h.getTransferEncoding == ascii "chunked" }

/-- `Header::parse`: the bytes read, with 0 for an incomplete header and `none` for -1. -/
def parse (readFields : Bytes → PocoRead) (h : Header) (p : Bytes) : Header × Option Nat :=
  if p.length < 4 then (h, some 0)
  else
    let endPos := findBlankLine p (p.length + 1) 0
    if endPos = p.length then (h, some 0)
    else
      match readFields p with
      | .threw => (h, some 0)
      | .failed => (h, none)
      | .fields fields => (h.setAll fields, some (endPos + 1))

end Header

/-! ## `Response` -/

inductive State
  | new
  | incomplete
  | error
  | timeout
  | complete
deriving DecidableEq

inductive ParserStage
  | statusLine
  | header
  | body
  | finished
deriving DecidableEq

structure Response where
  statusLine : StatusLine
  header : Header
  state : State
  parserStage : ParserStage
  recvBodySize : Nat
  body : Bytes
  /-- Whether the body goes to the file (`saveBodyToFile`) or to memory, and the file so far. -/
  toFile : Bool
  bodyFile : Bytes
  given : Bytes
  finished : Nat
deriving DecidableEq

namespace Response

/-- `Response(finishedCallback)`, saving the body to a file or to memory. -/
def forParsing (toFile : Bool) : Response where
  statusLine := .empty
  header := .empty
  state := .new
  parserStage := .statusLine
  recvBodySize := 0
  body := []
  toFile := toFile
  bodyFile := []
  given := []
  finished := 0

def done (r : Response) : Bool := r.state == .error || r.state == .timeout || r.state == .complete

/-- `finish(newState)`. -/
def finish (r : Response) (newState : State) : Response :=
  if r.done then r else { r with state := newState, finished := r.finished + 1 }

def complete (r : Response) : Response := r.finish .complete

/-- `_onBodyWriteCb`: memory takes everything, a file takes a write while it is good. The answer
is whether the write returned its length or -1. -/
def onBodyWrite (good : Bytes → Bytes → Bool) (r : Response) (data : Bytes) : Response × Bool :=
  let r := { r with given := r.given ++ data }
  if r.toFile then
    if good r.bodyFile data then ({ r with bodyFile := r.bodyFile ++ data }, true) else (r, false)
  else ({ r with body := r.body ++ data }, true)

/-- The chunk-length loop; `none` is a length that does not fit an `int64_t`. -/
def chunkLength : Nat → Bytes → Option Nat
  | chunkLen, [] => some chunkLen
  | chunkLen, b :: bs =>
    match hexDigitFromChar b with
    | none => some chunkLen
    | some digit =>
      if chunkLen ≥ (2 ^ 63 - 1) / 16 then none else chunkLength (chunkLen * 16 + digit) bs

/-- The loop over the chunks in the data. It leaves the data it does not use up, or `none` for an
error; every round but the last uses at least one byte. -/
def readChunks (good : Bytes → Bytes → Bool) : Nat → Response → Bytes → Response × Option Bytes
  | 0, r, p => (r, some p)
  | fuel + 1, r, p =>
    if p.length = 0 then (r, some p)
    else
      let off := findLineBreak p 0
      if off = p.length then (r, some p)
      else
        let off := off + 1
        match chunkLength 0 p with
        | none => (r, none)
        | some chunkLen =>
          if chunkLen > 0 then
            if p.length - off < chunkLen + 2 then (r, some p)
            else
              let p := p.drop off
              match r.onBodyWrite good (p.take chunkLen) with
              | (r, false) => (r, none)
              | (r, true) =>
                let r := { r with recvBodySize := r.recvBodySize + chunkLen }
                readChunks good fuel r (skipCRLF (p.drop chunkLen))
          else ({ r with parserStage := .finished }, some [])

/-- The body stage of `readData`: what is left of the data, or `none` for an error. -/
def bodyStage (good : Bytes → Bytes → Bool) (r : Response) (p : Bytes) : Response × Option Bytes :=
  if r.parserStage = .body ∧ p.length ≠ 0 then
    if r.header.chunked then readChunks good (p.length + 1) r p
    else
      match r.onBodyWrite good p with
      | (r, false) => (r, none)
      | (r, true) =>
        let r := { r with recvBodySize := r.recvBodySize + p.length }
        if r.header.hasContentLength ∧ r.header.getContentLength.getD 0 ≤ r.recvBodySize then
          ({ r with parserStage := .finished }, some [])
        else (r, some [])
  else (r, some p)

/-- The body stage and the end of `readData`. -/
def readBody (good : Bytes → Bytes → Bool) (r : Response) (p : Bytes) : Response × Option Bytes :=
  match r.bodyStage good p with
  | (r, none) => (r, none)
  | (r, some rest) => (if r.parserStage = .finished then r.complete else r, some rest)

/-- What `readData` makes of a header it has read; `false` is the -1 for a header that does not say
how long the body is. -/
def headerRead (r : Response) : Response × Bool :=
  let r := { r with parserStage := .body }
  let code := r.statusLine.statusCode
  if 100 ≤ code ∧ code < 200 ∨ code = 204 ∨ code = 304 then
    ({ r with parserStage := .finished }, true)
  else
    let r := if 200 ≤ code ∧ code < 300 then r else { r with toFile := false }
    if r.header.hasContentLength then
      match r.header.getContentLength with
      | none => (r, false)
      | some length =>
        if r.header.getTransferEncoding ≠ [] then (r, false)
        else if length = 0 then ({ r with parserStage := .finished }, true)
        else (r, true)
    else (r, true)

/-- The status-line stage of `readData`; `none` ends the call, with the answer it gives. -/
def readStatusLine (r : Response) (p : Bytes) : Response × Option (Option Nat) :=
  if r.parserStage = .statusLine then
    match r.statusLine.parse p with
    | (s, .incomplete) => ({ r with statusLine := s }, some (some 0))
    | (s, .invalid) => ({ r with statusLine := s }, some none)
    | (s, .valid) => ({ r with statusLine := s, parserStage := .header }, none)
  else (r, none)

/-- `Response::readData`. -/
def readData (readFields : Bytes → PocoRead) (good : Bytes → Bytes → Bool) (r : Response)
    (p : Bytes) : Response × Option Nat :=
  let r := { r with state := .incomplete }
  match r.readStatusLine p with
  | (r, some answer) => (r, answer)
  | (r, none) =>
    if r.parserStage = .header ∧ p.length ≠ 0 then
      match r.header.parse readFields p with
      | (h, none) => ({ r with header := h }, none)
      | (h, some read) =>
        if read > 0 then
          match { r with header := h }.headerRead with
          | (r, false) => (r, none)
          | (r, true) =>
            let (r, rest) := r.readBody good (p.drop read)
            (r, rest.map fun rest => p.length - rest.length)
        else ({ r with header := h }, some 0)
    else
      let (r, rest) := r.readBody good p
      (r, rest.map fun rest => p.length - rest.length)

/-! ## The server's side -/

/-- `Response(statusCode)` with some header fields, before a body is set. -/
def forSending (code : Nat) (headers : List (Bytes × Bytes)) : Response :=
  { forParsing false with statusLine := .ofCode code, header := ⟨headers, false⟩ }

/-- `setBody`. -/
def setBody (r : Response) (body contentType : Bytes) : Response :=
  let h := r.header.setContentLength body.length
  { r with
    body := body
    header := if body ≠ [] then h.setContentType contentType else h }

/-- `appendChunk`. -/
def appendChunk (r : Response) (chunk : Bytes) : Response :=
  { r with
    body := r.body ++ (Nat.toDigits 16 chunk.length).map (fun c => UInt8.ofNat c.toNat) ++ crlf ++
      chunk ++ crlf }

/-- `Response::writeData`. -/
def writeData (r : Response) : Bytes :=
  r.statusLine.writeData ++ r.header.writeData ++ crlf ++ r.body

end Response

/-! ## `Session` -/

/-- The part of `Session` and its socket that receives a response. -/
structure Session where
  inBuffer : Bytes
  response : Response
  connected : Bool
deriving DecidableEq

namespace Session

/-- `handleIncomingMessage` after more data arrived. An error disconnects, and finishes a response
that is not done. -/
def handleIncomingMessage (readFields : Bytes → PocoRead) (good : Bytes → Bytes → Bool)
    (s : Session) (data : Bytes) : Session :=
  if !s.connected then s
  else
    let inBuffer := s.inBuffer ++ data
    if inBuffer = [] then s
    else
      match s.response.readData readFields good inBuffer with
      | (r, some read) => { s with inBuffer := inBuffer.drop read, response := r }
      | (r, none) => { s with inBuffer := inBuffer, response := r.finish .error, connected := false }

/-- A run over successive reads. -/
def receive (readFields : Bytes → PocoRead) (good : Bytes → Bytes → Bool) (s : Session)
    (reads : List Bytes) : Session :=
  reads.foldl (handleIncomingMessage readFields good) s

end Session

end Oxool.Http
