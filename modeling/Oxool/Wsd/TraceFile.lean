import Oxool.Tile.RoundTrip

/-!
# Command traces (`wsd/TraceFile.hpp`)

A `TraceFileWriter` writes one line for every event, incoming and outgoing message: the time since
the last line, the id of the process, the session and the message, each after the byte that stands
for the direction. A `TraceFileReader` takes the lines apart again, adds up the times in 32 bits, and
hands the records out by direction.

The compressed form of a trace goes through a deflater and an inflater and is the same text in
between.
-/

set_option autoImplicit false

namespace Oxool.Wsd.TraceFile

open Oxool.Http (Bytes ascii lf)
open Oxool.Protocol

/-- `TraceFileRecord::Direction`, without `Invalid`. -/
inductive Direction
  | incoming
  | outgoing
  | event
deriving DecidableEq

def Direction.char : Direction → UInt8
  | .incoming => 62
  | .outgoing => 60
  | .event => 126

/-! ## The writer -/

/-- One call of `writeLocked`: its arguments, and the time at which it was made, in microseconds. -/
structure Written where
  direction : Direction
  time : Int
  id : Bytes
  sessionId : Bytes
  data : Bytes

/-- `writeLocked`: the line, with the time since the one before. -/
def writeLocked (lastTime : Int) (w : Written) : Bytes :=
  [w.direction.char] ++ ascii "+" ++ decimal (w.time - lastTime) ++ [w.direction.char] ++ w.id ++
    [w.direction.char] ++ w.sessionId ++ [w.direction.char] ++ w.data ++ [lf]

/-- The file after some calls. -/
def trace : Int → List Written → Bytes
  | _, [] => []
  | lastTime, w :: rest => writeLocked lastTime w ++ trace w.time rest

/-! ## The reader -/

/-- `TraceFileRecord`. The direction is the byte that was read. -/
structure TraceFileRecord where
  dir : UInt8
  timestampUs : UInt32
  pid : UInt32
  sessionId : Bytes
  payload : Bytes
deriving DecidableEq

/-- The constructor: the record with direction `Invalid`. -/
def TraceFileRecord.invalid : TraceFileRecord := ⟨0, 0, 0, [], []⟩

/-- The lines that `std::getline` gives, up to the first empty one; `line` is what was read of the
line so far. -/
def linesFrom : Bytes → Bytes → List Bytes
  | line, [] => if line = [] then [] else [line]
  | line, b :: rest =>
    if b = lf then if line = [] then [] else line :: linesFrom [] rest
    else linesFrom (line ++ [b]) rest

/-- `atol`. -/
def atol (s : Bytes) : Int := ((strtol s).map Prod.fst).getD 0

/-- A number converted to `unsigned`. -/
def toUnsigned (n : Int) : UInt32 := toUInt32 n

/-- `std::atoi`, stored in an `unsigned`. -/
def pidOf (s : Bytes) : UInt32 := toUnsigned (toInt32 (atol s))

/-- One field of a line: up to the delimiter, and what follows it. There is none at the end of the
line, and `none` in second place says that no delimiter follows. -/
def field (delimiter : UInt8) (s : Bytes) : Option (Bytes × Option Bytes) :=
  if s = [] then none
  else
    match s.dropWhile (· != delimiter) with
    | [] => some (s, none)
    | _ :: rest => some (s.takeWhile (· != delimiter), some rest)

/-- `extractRecord`, after the time: the process, the session and the payload. -/
def extractRest (delimiter : UInt8) (timestampUs : UInt32) (s : Bytes) : Option TraceFileRecord := do
  let (pid, rest) ← field delimiter s
  let (sessionId, payload) ← field delimiter (← rest)
  let payload ← payload
  if payload = [] then none
  else some ⟨delimiter, timestampUs, pidOf pid, sessionId, payload⟩

/-- `extractRecord`, and `lastTime` after it. The time is counted also if the record turns out to be
invalid. -/
def extractRecord (s : Bytes) (lastTime : UInt32) : Option TraceFileRecord × UInt32 :=
  match s with
  | [] => (none, lastTime)
  | delimiter :: s =>
    match field delimiter s with
    | none => (none, lastTime)
    | some (time, rest) =>
      if s.head? = some 43 then
        let lastTime := lastTime + toUnsigned (atol time)
        (rest.bind (extractRest delimiter lastTime), lastTime)
      else (rest.bind (extractRest delimiter (toUnsigned (atol time))), lastTime)

/-- The loop of `readFile`. -/
def readLines : UInt32 → List Bytes → List TraceFileRecord
  | _, [] => []
  | lastTime, line :: rest =>
    (extractRecord line lastTime).1.toList ++ readLines (extractRecord line lastTime).2 rest

/-- `TraceFileReader`. -/
structure TraceFileReader where
  records : List TraceFileRecord
  index : UInt32
  indexIn : UInt32
  indexOut : UInt32

/-- The number of values of an `unsigned` index. -/
def indexLimit : Nat := 2 ^ 32

/-- `advance`: the next record with the direction, or the end. An index that cannot reach the end
goes round; `none` where it would go round for ever. -/
def advance (records : List TraceFileRecord) (index : UInt32) (dir : UInt8) : Option UInt32 :=
  let start := (index + 1).toNat
  match ((records.take indexLimit).drop start).findIdx? (fun rec => rec.dir == dir) with
  | some i => some (.ofNat (start + i))
  | none =>
    if records.length < indexLimit then some (.ofNat records.length)
    else ((records.take indexLimit).findIdx? (fun rec => rec.dir == dir)).map .ofNat

/-- `readFile`; `none` where it throws or does not return. -/
def readFile (file : Bytes) : Option TraceFileReader :=
  let records := readLines 0 (linesFrom [] file)
  match records with
  | [] => none
  | first :: _ =>
    if first.dir = Direction.event.char ∧ (ascii "NewSession").isPrefixOf first.payload = true then do
      let indexIn ← advance records (-1) Direction.incoming.char
      let indexOut ← advance records (-1) Direction.outgoing.char
      some
        { records := records
          index := 0
          indexIn := indexIn
          indexOut := indexOut }
    else none

/-- `getNextRecord`, by direction; only one direction has an index of its own. -/
def TraceFileReader.getNextRecord (r : TraceFileReader) (dir : Direction) :
    Option (TraceFileRecord × TraceFileReader) :=
  if dir = .incoming then
    match r.records[r.indexIn.toNat]? with
    | some rec => do
      let next ← advance r.records r.indexIn dir.char
      some (rec, { r with indexIn := next })
    | none => some (.invalid, r)
  else
    match r.records[r.indexOut.toNat]? with
    | some rec => do
      let next ← advance r.records r.indexOut dir.char
      some (rec, { r with indexOut := next })
    | none => some (.invalid, r)

/-- What the first calls of `getNextRecord` return. -/
def TraceFileReader.nextRecords (r : TraceFileReader) (dir : Direction) :
    Nat → Option (List TraceFileRecord)
  | 0 => some []
  | n + 1 => do
    let (rec, r) ← r.getNextRecord dir
    let rest ← r.nextRecords dir n
    some (rec :: rest)

/-! ## What a trace is for -/

/-- The record says what was written, with the time since the start of the trace. -/
structure SameRecord (epochStart : Int) (w : Written) (r : TraceFileRecord) : Prop where
  dir : r.dir = w.direction.char
  timestampUs : (r.timestampUs.toNat : Int) = w.time - epochStart
  pid : w.id = decimal r.pid.toNat
  sessionId : r.sessionId = w.sessionId
  payload : r.payload = w.data

/-- The trace is read as it was written. -/
def ReadsBack (epochStart : Int) (ws : List Written) : Prop :=
  ∃ r, readFile (trace epochStart ws) = some r ∧ List.Forall₂ (SameRecord epochStart) ws r.records

/-- The calls of `getNextRecord` with a direction return the records of the direction, in order, and
then an invalid one each time. -/
def Replays (r : TraceFileReader) (dir : Direction) : Prop :=
  ∀ n, r.nextRecords dir n =
    some ((r.records.filter (fun rec => rec.dir == dir.char) ++
      List.replicate n TraceFileRecord.invalid).take n)

/-- What is written can be told apart again: the process id is a 32-bit number, the session id has
neither the direction's byte nor a line break in it, and the message is not empty and of one line. -/
structure Separable (w : Written) : Prop where
  id : w.id = decimal (pidOf w.id).toNat
  sessionId : w.direction.char ∉ w.sessionId ∧ lf ∉ w.sessionId
  data : w.data ≠ [] ∧ lf ∉ w.data

/-- The trace starts with a new session, every line can be taken apart, the clock does not go back
and stays within 2³² microseconds, about 71 minutes, of the start, and the records can be indexed:
there are fewer than 2³², or a search for one of either direction ends before that. -/
structure Readable (epochStart : Int) (ws : List Written) : Prop where
  newSession : ∃ w rest, ws = w :: rest ∧ w.direction = .event ∧
    (ascii "NewSession").isPrefixOf w.data = true
  separable : ∀ w ∈ ws, Separable w
  clock : (epochStart :: ws.map Written.time).IsChain (· ≤ ·)
  range : ∀ w ∈ ws, w.time - epochStart < 2 ^ 32
  indexed : ws.length < indexLimit ∨
    (∃ w ∈ ws.take indexLimit, w.direction = .incoming) ∧
      ∃ w ∈ ws.take indexLimit, w.direction = .outgoing

end Oxool.Wsd.TraceFile
