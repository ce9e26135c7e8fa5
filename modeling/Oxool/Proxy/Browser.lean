import Oxool.Proxy.Server

/-!
# The browser's end of the proxy protocol (`browser/js/global.js`)

`ProxySocket` collects outgoing messages in a string, which `doSend` posts from time to time, and
takes responses apart with `parseIncomingArray`. A JavaScript string is the list of its Unicode
scalar values: `TextEncoder` and `XMLHttpRequest` make U+FFFD of anything else.

`TextDecoder` is the browser's. All that is assumed about it is what it does to UTF-8, from which it
takes a byte order mark at the front. Indices are integers, since a size that was read may be
negative, and a byte outside the array is `none`, for JavaScript's `undefined`. `within` records
that no index left the array.
-/

set_option autoImplicit false

namespace Oxool.Proxy

open Oxool.Http

/-! ## Text -/

/-- `TextEncoder.encode`. -/
def utf8 (s : List Char) : Bytes := s.flatMap String.utf8EncodeChar

def bom : Char := Char.ofNat 0xfeff

/-- Without a byte order mark at the front. -/
def stripBom : List Char → List Char
  | [] => []
  | c :: s => if c = bom then s else c :: s

structure TextDecoder where
  decode : Bytes → List Char
  decode_utf8 : ∀ s, decode (utf8 s) = stripBom s

/-- Such a decoder, which gives up on anything but UTF-8. -/
def strictDecoder : TextDecoder where
  decode bytes := stripBom (((bytes.toByteArray).utf8Decode?.map Array.toList).getD [])
  decode_utf8 s := by
    have h : (utf8 s).toByteArray.utf8Decode? = some s.toArray := List.utf8Decode?_utf8Encode
    rw [h]
    rfl

/-- `toString(16)`. -/
def toString16 (n : Nat) : List Char := Nat.toDigits 16 n

/-- The white space `parseInt` skips. -/
def isStrWhiteSpace (c : Char) : Bool :=
  let n := c.toNat
  (9 ≤ n && n ≤ 13) || n == 0x20 || n == 0xa0 || n == 0x1680 || (0x2000 ≤ n && n ≤ 0x200a) ||
    n == 0x2028 || n == 0x2029 || n == 0x202f || n == 0x205f || n == 0x3000 || n == 0xfeff

def hexDigitOfChar (c : Char) : Option Nat :=
  if c.toNat < 128 then hexDigitFromChar (UInt8.ofNat c.toNat) else none

def splitCharSign : List Char → Bool × List Char
  | '-' :: s => (true, s)
  | '+' :: s => (false, s)
  | s => (false, s)

def dropCharHexMark : List Char → List Char
  | '0' :: 'x' :: s => s
  | '0' :: 'X' :: s => s
  | s => s

/-- `parseInt(s, 16)`; `none` is `NaN`. -/
def parseInt (s : List Char) : Option Int :=
  let (negative, s) := splitCharSign (s.dropWhile isStrWhiteSpace)
  let digits := (dropCharHexMark s).takeWhile fun c => (hexDigitOfChar c).isSome
  let value : Int := readDigits 16 (fun c => (hexDigitOfChar c).getD 0) digits
  if digits = [] then none else some (if negative then -value else value)

/-! ## Sending -/

/-- A message: a string of JavaScript has less than 2 ^ 53 code units. -/
structure Text where
  chars : List Char
  short : (utf8 chars).length < 2 ^ 63

structure ProxySocket where
  sendQueue : List Char
  outSerial : Nat
  posted : List Bytes

namespace ProxySocket

def new : ProxySocket := ⟨[], 0, []⟩

/-- `send`. -/
def send (s : ProxySocket) (msg : List Char) : ProxySocket :=
  { s with
    sendQueue := s.sendQueue ++
      ("B0x".toList ++ toString16 s.outSerial ++ ['\n'] ++
        ("0x".toList ++ toString16 (utf8 msg).length ++ ['\n'] ++ msg ++ ['\n']))
    outSerial := s.outSerial + 1 }

/-- The post of `doSend`. -/
def doSend (s : ProxySocket) : ProxySocket :=
  { s with sendQueue := [], posted := s.posted ++ [utf8 s.sendQueue] }

end ProxySocket

inductive Action
  | send (msg : Text)
  | doSend

def Action.run (s : ProxySocket) : Action → ProxySocket
  | .send msg => s.send msg.chars
  | .doSend => s.doSend

/-! ## Receiving -/

inductive Data
  | text (s : List Char)
  | binary (bytes : Bytes)
deriving DecidableEq

/-- The payload some data stands for. -/
def Data.bytes : Data → Bytes
  | .text s => utf8 s
  | .binary bytes => bytes

/-- `arr[i]`. -/
def byteAt (arr : Bytes) (i : Int) : Option UInt8 := if 0 ≤ i then arr[i.toNat]? else none

/-- `arr.slice(start, stop)`. -/
def slice (arr : Bytes) (start : Nat) (stop : Int) : Bytes :=
  let stop := if stop < 0 then max (arr.length + stop) 0 else min stop arr.length
  (arr.drop start).take (stop.toNat - start)

/-- `while (arr[i] != 10) i++`: the loop does not end without an LF. -/
def newlineFrom (arr : Bytes) (i : Nat) : Option Nat := ((arr.drop i).findIdx? (· == lf)).map (· + i)

/-- The test for `0x`, which is passed unless both bytes are wrong. -/
def hasPreamble (arr : Bytes) (i : Nat) : Bool := arr[i]? == some 48 || arr[i + 1]? == some 120

/-- Which of the two bytes it looks at are inside. -/
def preambleWithin (arr : Bytes) (i : Nat) : Bool :=
  i < arr.length && (arr[i]? == some 48 || i + 1 < arr.length)

/-- What a round of `parseIncomingArray` does before it delivers anything. -/
inductive Round
  | stop (within : Bool)
  | spin
  | frame (type : UInt8) (serial : Option Int) (start : Nat) (size : Option Int) (within : Bool)
deriving DecidableEq

/-- How a call of `parseIncomingArray` ends: never, or with the messages it delivered. -/
inductive Ended
  | spins
  | stops (inSerial : Option Int) (messages : List Data) (within : Bool)
deriving DecidableEq

section Parse

variable (D : TextDecoder) (arr : Bytes)

/-- The head of the frame at `i`, with the size line from `j` on. -/
def readSize (type : UInt8) (serial : Option Int) (j : Nat) : Round :=
  if !hasPreamble arr j then .stop (preambleWithin arr j)
  else
    match newlineFrom arr (j + 2) with
    | none => .spin
    | some nl =>
      .frame type serial (nl + 1) (parseInt (D.decode (slice arr (j + 2) nl))) (preambleWithin arr j)

/-- The head of the frame at `i`. -/
def readFrame (i : Int) : Round :=
  if (arr.length : Int) - i < 4 then .stop true
  else
    match byteAt arr i with
    | none => .stop false
    | some type =>
      if type ≠ typeText ∧ type ≠ typeBinary then .stop true
      else
        let j := i.toNat + 1
        if !hasPreamble arr j then .stop true
        else
          match newlineFrom arr (j + 2) with
          | none => .spin
          | some nl => readSize D arr type (parseInt (D.decode (slice arr (j + 2) nl))) (nl + 1)

/-- The data of a frame. A size of `NaN` makes the end of the slice 0. -/
def frameData (type : UInt8) (start : Nat) (size : Option Int) : Data :=
  let stop : Int :=
    match size with
    | some size => start + size
    | none => 0
  let piece := slice arr start stop
  if type = typeText then .text (D.decode piece) else .binary piece

/-- The loop of `parseIncomingArray`, from an index on; `none` is not enough fuel. -/
def incomingLoop : Nat → Int → Option Int → List Data → Bool → Option Ended
  | 0, _, _, _, _ => none
  | fuel + 1, i, inSerial, messages, within =>
    match readFrame D arr i with
    | .stop inside => some (.stops inSerial messages (within && inside))
    | .spin => some .spins
    | .frame type serial start size inside =>
      let messages := messages ++ [frameData D arr type start size]
      match size with
      | none => some (.stops serial messages (within && inside))
      | some size => incomingLoop fuel (start + size + 1) serial messages (within && inside)

end Parse

end Oxool.Proxy
