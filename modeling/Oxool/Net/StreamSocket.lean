import Oxool.Common.Protocol
import Oxool.Lib.Run
import Oxool.Net.Buffer

/-!
# `StreamSocket` (`net/Socket.hpp`)

What a socket sends goes into its output buffer and from there into the kernel, as far as the kernel
takes it; what the peer sends is read as far as there is something, and consumed by the handler. A
call of `handlePoll` reads, lets the handler consume, writes, and tells the handler when the
connection is closed: by the peer, by an error, or because a shutdown was asked for and everything
has been written.

The kernel's side of the socket is part of the state. Interrupted calls are repeated, which is the
same as making them once. What the handler does in a callback is a list of operations, what `write`
answers a list of answers; where a list ends the handler does nothing more and the kernel is full.
`sent`, `mostWaiting`, `received`, `taken`, `arrived`, `disconnects` and `ended` are records the code does
not keep.

Sizes are cut to an `int` in two places: `send` of a text, and the size of a block that is written. Where
that makes the size of a block 0, nothing is written, and `writeOutgoingData` erases as much as was written
in the round before. What is said of the output therefore asks that less than 2 GiB ever wait to be written
(`mostWaiting`); what is said of the input and of the end of the connection does not.
-/

set_option autoImplicit false

namespace Oxool.Net.Stream

open Oxool.Protocol (toInt32)

/-! ## The kernel -/

inductive Errno where
  | eagain
  | epipe
  | econnreset
  | other
deriving DecidableEq

/-- What has arrived and was not read, whether the peer has closed or reset the connection, what
`write` has taken, and whether both directions are shut down. -/
structure Kernel where
  pending : List UInt8
  eof : Bool
  reset : Bool
  wire : List UInt8
  shut : Bool

/-- What `read` answers. -/
inductive ReadResult where
  | data (bytes : List UInt8)
  | eof
  | error (errno : Errno)

def Kernel.read (k : Kernel) (len : Nat) : ReadResult × Kernel :=
  if k.reset then (.error .econnreset, k)
  else if k.pending ≠ [] then (.data (k.pending.take len), { k with pending := k.pending.drop len })
  else if k.eof then (.eof, k)
  else (.error .eagain, k)

theorem read_data {k kernel : Kernel} {len : Nat} {bytes : List UInt8}
    (h : k.read len = (.data bytes, kernel)) :
    k.reset = false ∧ k.pending ≠ [] ∧ bytes = k.pending.take len ∧
      kernel = { k with pending := k.pending.drop len } := by
  unfold Kernel.read at h
  split at h
  · cases h
  · next hreset =>
    split at h
    · next hpending =>
      cases h
      exact ⟨Bool.not_eq_true _ ▸ hreset, hpending, rfl, rfl⟩
    · split at h
      · cases h
      · cases h

theorem read_eof {k kernel : Kernel} {len : Nat} (h : k.read len = (.eof, kernel)) :
    k.pending = [] ∧ k.eof = true := by
  unfold Kernel.read at h
  split at h
  · cases h
  · split at h
    · cases h
    · next hpending =>
      split at h
      · next heof => exact ⟨not_not.mp hpending, heof⟩
      · cases h

theorem read_ne_other {k kernel : Kernel} {len : Nat} : k.read len ≠ (.error .other, kernel) := by
  intro h
  unfold Kernel.read at h
  split at h
  · cases h
  · split at h
    · cases h
    · split at h
      · cases h
      · cases h

/-- What `write` answers: how many bytes it would take, or an error. -/
inductive WriteResult where
  | wrote (n : Nat)
  | error (errno : Errno)
deriving DecidableEq

/-- `write` of a block of some size, which may be negative; the answer is the number of bytes taken. -/
def Kernel.write (k : Kernel) (block : List UInt8) (size : Int) (answer : WriteResult) :
    Except Errno Nat × Kernel :=
  if size < 0 then (.error .other, k)
  else if k.shut then (.error .epipe, k)
  else
    match answer with
    | .wrote n =>
      let len := min n (min size.toNat block.length)
      (.ok len, { k with wire := k.wire ++ block.take len })
    | .error errno => (.error errno, k)

/-! ## The socket -/

/-- Why the handler was told that the connection is closed. -/
inductive End where
  /-- The descriptor hung up; was it also polled for input? -/
  | hangUp (pollIn : Bool)
  | eof
  | ignored
  | readError
  | writeError
  /-- A shutdown was asked for, after so many bytes had been sent. -/
  | shutdown (sent : Nat)
  | destroyed
deriving DecidableEq

/-- Is the socket in a poll, erased from it, or destroyed? -/
inductive Life where
  | polled
  | removed
  | destroyed
deriving DecidableEq

structure StreamSocket where
  inBuffer : Buffer
  outBuffer : Buffer
  sendBufferSize : Int
  bytesSent : Nat
  bytesRecvd : Nat
  closed : Bool
  shutdownSignalled : Bool
  ignoreInput : Bool
  inputProcessingEnabled : Bool
  kernel : Kernel
  life : Life
  /-- What the socket was given to send. -/
  sent : List UInt8
  /-- The most that ever waited to be written. -/
  mostWaiting : Nat
  received : List UInt8
  taken : List UInt8
  arrived : List UInt8
  disconnects : Nat
  ended : Option End

namespace StreamSocket

/-- A socket that has just been connected. -/
def new (sendBufferSize : Int) : StreamSocket where
  inBuffer := .empty
  outBuffer := .empty
  sendBufferSize := sendBufferSize
  bytesSent := 0
  bytesRecvd := 0
  closed := false
  shutdownSignalled := false
  ignoreInput := false
  inputProcessingEnabled := true
  kernel := ⟨[], false, false, [], false⟩
  life := .polled
  sent := []
  mostWaiting := 0
  received := []
  taken := []
  arrived := []
  disconnects := 0
  ended := none

variable (s : StreamSocket)

/-- `Socket::shutdown`. -/
def closeConnection : StreamSocket := { s with kernel := { s.kernel with shut := true } }

/-- How much `writeOutgoingData` writes at most, as an `int`. -/
def writeSize : Int := min (toInt32 s.outBuffer.size) s.sendBufferSize

def getSendBufferCapacity : Int := max 0 (toInt32 (s.sendBufferSize - s.outBuffer.size))

/-- What `writeOutgoingData` does with a `len` that is positive. -/
def wrote (len : Nat) : StreamSocket :=
  { s with
    bytesSent := s.bytesSent + len
    outBuffer := s.outBuffer.eraseFirst len }

theorem size_wrote {len : Nat} (hlen : 0 < len) (hrest : (s.wrote len).outBuffer.size ≠ 0) :
    (s.wrote len).outBuffer.size < s.outBuffer.size := by
  have hsize : (s.wrote len).outBuffer.size = s.outBuffer.size - len := by
    rw [wrote, ← Buffer.length_bytes, Buffer.bytes_eraseFirst, List.length_drop, Buffer.length_bytes]
  omega

/-- The loop of `writeOutgoingData`, with what `len` is before the round, and the error it ends with, if
any. -/
def writeLoop (answers : List WriteResult) (len : Nat) (s : StreamSocket) : StreamSocket × Option Errno :=
  if s.writeSize = 0 then
    -- `len` stays what it was
    if _hlen : 0 < len then
      if _hrest : (s.wrote len).outBuffer.size = 0 then (s.wrote len, none)
      else writeLoop answers len (s.wrote len)
    else (s, none)
  else
    match answers with
    | [] => (s, some .eagain)
    | answer :: answers =>
      match s.kernel.write s.outBuffer.bytes s.writeSize answer with
      | (.ok len, kernel) =>
        if _hlen : 0 < len then
          if _hrest : (wrote { s with kernel := kernel } len).outBuffer.size = 0 then
            (wrote { s with kernel := kernel } len, none)
          else writeLoop answers len (wrote { s with kernel := kernel } len)
        else (s, none)
      | (.error errno, _) => (s, some errno)
termination_by s.outBuffer.size
decreasing_by
  · exact s.size_wrote _hlen _hrest
  · exact size_wrote { s with kernel := kernel } _hlen _hrest

/-- `writeOutgoingData`. -/
def writeOutgoingData (answers : List WriteResult) : StreamSocket × Option Errno := s.writeLoop answers 0

/-- `readIncomingData`, block by block, and what the last `read` answered. -/
def readIncomingData (s : StreamSocket) : StreamSocket × ReadResult :=
  match _hread : s.kernel.read 16384 with
  | (.data bytes, kernel) =>
    let t := { s with
      kernel := kernel
      bytesRecvd := s.bytesRecvd + bytes.length
      inBuffer := s.inBuffer.insertEnd bytes
      received := s.received ++ bytes }
    if bytes.length = 16384 then readIncomingData t else (t, .data bytes)
  | (.eof, _) => (s, .eof)
  | (.error errno, _) => (s, .error errno)
termination_by s.kernel.pending.length
decreasing_by
  obtain ⟨-, hpending, -, hkernel⟩ := read_data _hread
  have hpos : 0 < s.kernel.pending.length := List.length_pos_iff.mpr hpending
  rw [hkernel, List.length_drop]
  omega

/-- What the handler, or another user of the socket, does. -/
inductive Op where
  /-- `eraseFirstInputBytes`. -/
  | consume (count : Nat)
  /-- `send`, flushed or not; the size is an `int`. -/
  | send (data : List UInt8) (flush : Option (List WriteResult))
  | flush (answers : List WriteResult)
  | shutdown
  | enableProcessInput (enable : Bool)
  | ignoreInput

def op : Op → StreamSocket
  | .consume count =>
    let toErase := min count s.inBuffer.size
    if 0 < toErase then
      { s with
        inBuffer := s.inBuffer.eraseFirst count
        taken := s.taken ++ s.inBuffer.bytes.take count }
    else s
  | .send data flush =>
    let len := toInt32 data.length
    let s := { s with
      sent := s.sent ++ data
      mostWaiting := max s.mostWaiting (s.outBuffer.size + data.length) }
    if 0 < len then
      let t := { s with outBuffer := s.outBuffer.insertEnd (data.take len.toNat) }
      match flush with
      | some answers => (t.writeOutgoingData answers).1
      | none => t
    else s
  | .flush answers => if s.outBuffer.size = 0 then s else (s.writeOutgoingData answers).1
  | .shutdown => { s with shutdownSignalled := true }
  | .enableProcessInput enable => { s with inputProcessingEnabled := enable }
  | .ignoreInput => { s with
      ignoreInput := true
      inBuffer := .empty
      taken := s.taken ++ s.inBuffer.bytes }

def ops (l : List Op) : StreamSocket := l.foldl op s

/-- One call of `handleIncomingMessage`, which may ask for the socket to be moved or transferred. -/
structure Incoming where
  ops : List Op
  leaves : Bool

/-- The loop that lets the handler consume; is the socket to leave? -/
def handleIncoming : List Incoming → Nat → StreamSocket → StreamSocket × Bool
  | [], _, s => (s, false)
  | call :: calls, oldSize, s =>
    if s.inBuffer.size ≠ 0 ∧ oldSize ≠ s.inBuffer.size ∧ s.inputProcessingEnabled = true then
      let t := s.ops call.ops
      if call.leaves then (t, true) else handleIncoming calls s.inBuffer.size t
    else (s, false)

/-- One round of the loop that writes: what `performWrites` does, and what `write` answers. -/
structure Round where
  ops : List Op
  answers : List WriteResult

/-- Did the connection end, and does the loop go on? -/
def round (pollOut : Bool) (r : Round) : StreamSocket × Option End × Bool :=
  let t := if pollOut ∧ 0 < s.getSendBufferCapacity then s.ops r.ops else s
  if t.shutdownSignalled ∧ t.outBuffer.size = 0 then
    (t.closeConnection, some (.shutdown t.sent.length), false)
  else
    if pollOut ∧ t.outBuffer.size ≠ 0 then
      match t.writeOutgoingData r.answers with
      | (u, some .epipe) => (u, some .writeError, false)
      | (u, some .econnreset) => (u, some .writeError, false)
      | (u, _) => (u, none, decide (t.outBuffer.size ≠ u.outBuffer.size))
    else (t, none, false)

def writeRounds (pollOut : Bool) : List Round → StreamSocket → StreamSocket × Option End
  | [], s => ((s.round pollOut ⟨[], []⟩).1, (s.round pollOut ⟨[], []⟩).2.1)
  | r :: rounds, s =>
    if (s.round pollOut r).2.2 then writeRounds pollOut rounds (s.round pollOut r).1
    else ((s.round pollOut r).1, (s.round pollOut r).2.1)

/-- A call of `handlePoll`: the events, what the handler does in `checkTimeout`, and the callbacks. -/
structure Call where
  pollIn : Bool
  pollOut : Bool
  hangUp : Bool
  timeout : List Op
  incoming : List Incoming
  rounds : List Round

/-- The input that is read, and what it makes of a connection that hung up. -/
def pollIncoming (hangUp : Option End) : StreamSocket × Option End :=
  if s.ignoreInput then (s, some .ignored)
  else
    match s.readIncomingData with
    | (t, .data _) => (t, none)
    | (t, .eof) => (t, some .eof)
    | (t, .error .eagain) => (t, none)
    | (t, .error .epipe) => (t, some .readError)
    | (t, .error .econnreset) => (t, some .readError)
    | (t, .error .other) => (t, hangUp)

/-- `onDisconnect`, and the disposition that erases the socket from its poll. -/
def disconnect (reason : End) : StreamSocket :=
  { s with
    closed := true
    disconnects := s.disconnects + 1
    ended := some reason
    life := .removed }

/-- The first part of `handlePoll`: is the connection closed, as far as the events and the input say? -/
def readEvents (call : Call) : StreamSocket × Option End :=
  let hangUp := if call.hangUp then some (.hangUp call.pollIn) else none
  if call.pollIn then s.pollIncoming hangUp else (s, hangUp)

def handlePoll (call : Call) : StreamSocket :=
  let s := s.ops call.timeout
  if ¬ (call.pollIn || call.pollOut || call.hangUp) ∧ s.inBuffer.size = 0 then s
  else
    let read := s.readEvents call
    let incoming := handleIncoming call.incoming 0 read.1
    if incoming.2 then incoming.1
    else
      let written := writeRounds call.pollOut call.rounds incoming.1
      match written.2.or read.2 with
      | some reason => written.1.disconnect reason
      | none => written.1

/-- The destructor: `onDisconnect` unless the socket is closed, and `closeConnection` unless a
shutdown was signalled. -/
def destroy : StreamSocket :=
  { s with
    disconnects := if s.closed then s.disconnects else s.disconnects + 1
    ended := if s.closed then s.ended else some .destroyed
    kernel := { s.kernel with shut := s.kernel.shut || !s.shutdownSignalled }
    shutdownSignalled := true
    life := .destroyed }

end StreamSocket

/-! ## Runs -/

inductive Action where
  | handlePoll (call : StreamSocket.Call)
  | op (o : StreamSocket.Op)
  /-- The peer sends, closes or resets the connection. -/
  | arrive (bytes : List UInt8)
  | close
  | reset
  | destroy

def act (s : StreamSocket) : Action → StreamSocket
  | .handlePoll call => if s.life = .polled then s.handlePoll call else s
  | .op o => if s.life = .destroyed then s else s.op o
  | .arrive bytes =>
    if s.kernel.eof then s
    else { s with
      kernel := { s.kernel with pending := s.kernel.pending ++ bytes }
      arrived := s.arrived ++ bytes }
  | .close => { s with kernel := { s.kernel with eof := true } }
  | .reset => { s with kernel := { s.kernel with reset := true } }
  | .destroy => if s.life = .destroyed then s else s.destroy

/-! ## What every step keeps -/

/-- What was sent is on the wire or in the buffer. -/
structure OutputKept (s : StreamSocket) : Prop where
  sent : s.kernel.wire ++ s.outBuffer.bytes = s.sent
  bytesSent : s.bytesSent = s.kernel.wire.length
  waiting : s.outBuffer.size ≤ s.mostWaiting

/-- What was received was taken or is in the buffer, what arrived was received or is in the kernel. -/
structure InputKept (s : StreamSocket) : Prop where
  received : s.taken ++ s.inBuffer.bytes = s.received
  arrived : s.received ++ s.kernel.pending = s.arrived
  bytesRecvd : s.bytesRecvd = s.received.length

/-- Never did so much wait to be written that its size is no `int`. -/
def Small (s : StreamSocket) : Prop := s.mostWaiting < 2 ^ 31

/-- Some work on the socket: it keeps the streams, tells the handler nothing, and writes nothing to a
connection that is shut down. -/
structure Works (s t : StreamSocket) : Prop where
  output : Small t → OutputKept s → OutputKept t
  input : InputKept s → InputKept t
  mostWaiting : s.mostWaiting ≤ t.mostWaiting
  life : t.life = s.life
  closed : t.closed = s.closed
  ended : t.ended = s.ended
  disconnects : t.disconnects = s.disconnects
  shut : s.kernel.shut = true → t.kernel.shut = true ∧ t.kernel.wire = s.kernel.wire
  eof : t.kernel.eof = s.kernel.eof
  pending : s.kernel.pending = [] → t.kernel.pending = []

theorem Works.refl (s : StreamSocket) : Works s s :=
  ⟨fun _ => id, id, Nat.le_refl _, rfl, rfl, rfl, rfl, fun h => ⟨h, rfl⟩, rfl, id⟩

theorem Works.small {s t : StreamSocket} (h : Works s t) (ht : Small t) : Small s :=
  Nat.lt_of_le_of_lt h.mostWaiting ht

theorem Works.trans {s t u : StreamSocket} (h : Works s t) (h' : Works t u) : Works s u where
  output hu hs := h'.output hu (h.output (h'.small hu) hs)
  input hs := h'.input (h.input hs)
  mostWaiting := h.mostWaiting.trans h'.mostWaiting
  life := h'.life.trans h.life
  closed := h'.closed.trans h.closed
  ended := h'.ended.trans h.ended
  disconnects := h'.disconnects.trans h.disconnects
  shut hs :=
    have ⟨hshut, hwire⟩ := h.shut hs
    ⟨(h'.shut hshut).1, (h'.shut hshut).2.trans hwire⟩
  eof := h'.eof.trans h.eof
  pending hs := h'.pending (h.pending hs)

namespace StreamSocket

variable {s : StreamSocket}

theorem write_ok {k kernel : Kernel} {block : List UInt8} {size : Int} {answer : WriteResult}
    {len : Nat} (h : k.write block size answer = (.ok len, kernel)) :
    k.shut = false ∧ len ≤ block.length ∧ (len : Int) ≤ size ∧
      kernel = { k with wire := k.wire ++ block.take len } := by
  unfold Kernel.write at h
  split at h
  · cases h
  · split at h
    · cases h
    · next hshut =>
      cases answer with
      | wrote n =>
        injection h with hlen hkernel
        injection hlen with hlen
        rw [Bool.not_eq_true] at hshut
        rw [← hlen]
        exact ⟨hshut, by omega, by omega, hkernel.symm⟩
      | error errno => cases h

/-- Where little waits, a block has a size. -/
theorem writeSize_ne_zero (hsmall : Small s) (hwaiting : s.outBuffer.size ≤ s.mostWaiting)
    (hbuffer : 0 < s.sendBufferSize) (hsize : s.outBuffer.size ≠ 0) : s.writeSize ≠ 0 := by
  have hint : toInt32 s.outBuffer.size = s.outBuffer.size := by
    rw [Small] at hsmall
    refine Protocol.toInt32_eq ?_
    rw [Protocol.IsInt32]
    omega
  rw [writeSize, hint]
  omega

/-- What the kernel took is erased. -/
theorem works_wrote {kernel : Kernel} {len : Nat} {answer : WriteResult}
    (hwrite : s.kernel.write s.outBuffer.bytes s.writeSize answer = (.ok len, kernel)) :
    Works s (wrote { s with kernel := kernel } len) := by
  obtain ⟨hshut, hlen, -, hkernel⟩ := write_ok hwrite
  subst hkernel
  refine ⟨fun _ h => ⟨?_, ?_, ?_⟩, fun h => ⟨h.received, h.arrived, h.bytesRecvd⟩, Nat.le_refl _, rfl, rfl, rfl,
    rfl, fun h => ?_, rfl, id⟩
  · rw [wrote]
    dsimp only
    rw [Buffer.bytes_eraseFirst, List.append_assoc, List.take_append_drop]
    exact h.sent
  · rw [wrote]
    dsimp only
    rw [h.bytesSent, List.length_append, List.length_take, Nat.min_eq_left hlen]
  · have hsize := h.waiting
    rw [wrote, ← Buffer.length_bytes]
    dsimp only
    rw [Buffer.bytes_eraseFirst, List.length_drop, Buffer.length_bytes]
    omega
  · rw [hshut] at h
    cases h

/-- Erasing what was written before does no work on the output where a block would have a size. -/
theorem works_wrote_again {len : Nat} (hzero : s.writeSize = 0) (hbuffer : 0 < s.sendBufferSize)
    (hsize : s.outBuffer.size ≠ 0) : Works s (s.wrote len) :=
  ⟨fun hsmall h => absurd hzero (writeSize_ne_zero hsmall h.waiting hbuffer hsize),
    fun h => ⟨h.received, h.arrived, h.bytesRecvd⟩, Nat.le_refl _, rfl, rfl, rfl, rfl, fun h => ⟨h, rfl⟩, rfl, id⟩

theorem works_writeLoop (answers : List WriteResult) (len : Nat) (s : StreamSocket)
    (hbefore : 0 < len → 0 < s.sendBufferSize ∧ s.outBuffer.size ≠ 0) :
    Works s (s.writeLoop answers len).1 := by
  induction answers, len, s using writeLoop.induct with
  | case1 answers len s hzero hlen hrest =>
    rw [writeLoop.eq_def, if_pos hzero, dif_pos hlen, dif_pos hrest]
    exact works_wrote_again hzero (hbefore hlen).1 (hbefore hlen).2
  | case2 answers len s hzero hlen hrest ih =>
    rw [writeLoop.eq_def, if_pos hzero, dif_pos hlen, dif_neg hrest]
    exact (works_wrote_again hzero (hbefore hlen).1 (hbefore hlen).2).trans
      (ih fun _ => ⟨(hbefore hlen).1, hrest⟩)
  | case3 answers len s hzero hlen =>
    rw [writeLoop.eq_def, if_pos hzero, dif_neg hlen]
    exact .refl s
  | case4 len s hsize =>
    rw [writeLoop, if_neg hsize]
    exact .refl s
  | case5 _ s hsize answer answers len kernel hwrite hlen hrest =>
    rw [writeLoop, if_neg hsize]
    simp only [hwrite, dif_pos hlen, dif_pos hrest]
    exact works_wrote hwrite
  | case6 _ s hsize answer answers len kernel hwrite hlen hrest ih =>
    rw [writeLoop, if_neg hsize]
    simp only [hwrite, dif_pos hlen, dif_neg hrest]
    obtain ⟨-, -, hle, -⟩ := write_ok hwrite
    have hbuffer : 0 < s.sendBufferSize := by
      rw [writeSize] at hle
      omega
    exact (works_wrote hwrite).trans (ih fun _ => ⟨hbuffer, hrest⟩)
  | case7 _ s hsize answer answers len kernel hwrite hlen =>
    rw [writeLoop, if_neg hsize]
    simp only [hwrite, dif_neg hlen]
    exact .refl s
  | case8 _ s hsize answer answers errno kernel hwrite =>
    rw [writeLoop, if_neg hsize]
    simp only [hwrite]
    exact .refl s

theorem works_writeOutgoingData (answers : List WriteResult) (s : StreamSocket) :
    Works s (s.writeOutgoingData answers).1 :=
  works_writeLoop answers 0 s fun h => absurd h (Nat.lt_irrefl 0)

/-- What is given to be sent is put into the buffer, all of it where it is small. -/
theorem works_send (data : List UInt8) (s : StreamSocket) : Works s
    (if 0 < toInt32 data.length then
      { s with
        sent := s.sent ++ data
        mostWaiting := max s.mostWaiting (s.outBuffer.size + data.length)
        outBuffer := s.outBuffer.insertEnd (data.take (toInt32 data.length).toNat) }
    else { s with
      sent := s.sent ++ data
      mostWaiting := max s.mostWaiting (s.outBuffer.size + data.length) }) := by
  have hint : max s.mostWaiting (s.outBuffer.size + data.length) < 2 ^ 31 →
      toInt32 data.length = data.length := by
    intro hsmall
    refine Protocol.toInt32_eq ?_
    rw [Protocol.IsInt32]
    omega
  split
  · refine ⟨fun hsmall h => ⟨?_, h.bytesSent, ?_⟩, fun h => ⟨h.received, h.arrived, h.bytesRecvd⟩,
      Nat.le_max_left _ _, rfl, rfl, rfl, rfl, fun h => ⟨h, rfl⟩, rfl, id⟩
    · dsimp only
      rw [hint hsmall, Int.toNat_natCast, List.take_length, Buffer.bytes_insertEnd, ← List.append_assoc, h.sent]
    · dsimp only
      rw [← Buffer.length_bytes, Buffer.bytes_insertEnd, List.length_append, Buffer.length_bytes,
        List.length_take]
      omega
  · next hnone =>
    refine ⟨fun hsmall h => ⟨?_, h.bytesSent, h.waiting.trans (Nat.le_max_left _ _)⟩,
      fun h => ⟨h.received, h.arrived, h.bytesRecvd⟩, Nat.le_max_left _ _, rfl, rfl, rfl, rfl,
      fun h => ⟨h, rfl⟩, rfl, id⟩
    have hnil : data = [] := by
      rw [hint hsmall] at hnone
      exact List.eq_nil_of_length_eq_zero (by omega)
    dsimp only
    rw [hnil, List.append_nil]
    exact h.sent

/-- Work on neither stream. -/
theorem works_flags {t : StreamSocket} (houtput : OutputKept s → OutputKept t)
    (hinput : InputKept s → InputKept t) (hmost : t.mostWaiting = s.mostWaiting) (hlife : t.life = s.life)
    (hclosed : t.closed = s.closed) (hended : t.ended = s.ended) (hdisconnects : t.disconnects = s.disconnects)
    (hkernel : t.kernel = s.kernel) : Works s t :=
  ⟨fun _ => houtput, hinput, hmost.ge, hlife, hclosed, hended, hdisconnects,
    fun h => by rw [hkernel]; exact ⟨h, rfl⟩, by rw [hkernel], by rw [hkernel]; exact id⟩

theorem works_op (o : Op) (s : StreamSocket) : Works s (s.op o) := by
  cases o with
  | consume count =>
    rw [op]
    split
    · refine works_flags (fun h => ⟨h.sent, h.bytesSent, h.waiting⟩) (fun h => ⟨?_, h.arrived, h.bytesRecvd⟩)
        rfl rfl rfl rfl rfl rfl
      simp only
      rw [Buffer.bytes_eraseFirst, List.append_assoc, List.take_append_drop]
      exact h.received
    · exact .refl s
  | send data flush =>
    have hsend := works_send data s
    rw [op]
    dsimp only
    split
    · next hlen =>
      rw [if_pos hlen] at hsend
      cases flush with
      | none => exact hsend
      | some answers => exact hsend.trans (works_writeOutgoingData answers _)
    · next hlen =>
      rw [if_neg hlen] at hsend
      exact hsend
  | flush answers =>
    rw [op]
    split
    · exact .refl s
    · exact works_writeOutgoingData answers s
  | shutdown =>
    exact works_flags (fun h => ⟨h.sent, h.bytesSent, h.waiting⟩)
      (fun h => ⟨h.received, h.arrived, h.bytesRecvd⟩) rfl rfl rfl rfl rfl rfl
  | enableProcessInput enable =>
    exact works_flags (fun h => ⟨h.sent, h.bytesSent, h.waiting⟩)
      (fun h => ⟨h.received, h.arrived, h.bytesRecvd⟩) rfl rfl rfl rfl rfl rfl
  | ignoreInput =>
    refine works_flags (fun h => ⟨h.sent, h.bytesSent, h.waiting⟩) (fun h => ⟨?_, h.arrived, h.bytesRecvd⟩)
      rfl rfl rfl rfl rfl rfl
    rw [op, Buffer.bytes_empty, List.append_nil]
    exact h.received

theorem works_ops (l : List Op) (s : StreamSocket) : Works s (s.ops l) := by
  induction l generalizing s with
  | nil => exact .refl s
  | cons o l ih => exact (works_op o s).trans (ih _)

/-- A block that is read goes from the kernel into the buffer. -/
theorem works_read {bytes : List UInt8} {kernel : Kernel}
    (hread : s.kernel.read 16384 = (.data bytes, kernel)) :
    Works s { s with
      kernel := kernel
      bytesRecvd := s.bytesRecvd + bytes.length
      inBuffer := s.inBuffer.insertEnd bytes
      received := s.received ++ bytes } := by
  obtain ⟨-, hpending, hbytes, hkernel⟩ := read_data hread
  subst hkernel
  refine ⟨fun _ h => ⟨h.sent, h.bytesSent, h.waiting⟩, fun h => ⟨?_, ?_, ?_⟩, Nat.le_refl _, rfl, rfl, rfl, rfl,
    fun h => ⟨h, rfl⟩, rfl, fun h => absurd h hpending⟩
  · rw [Buffer.bytes_insertEnd, ← List.append_assoc, h.received]
  · rw [hbytes, List.append_assoc, List.take_append_drop]
    exact h.arrived
  · dsimp only
    rw [List.length_append, h.bytesRecvd]

/-- The socket with a block that was read. -/
def withBlock (s : StreamSocket) (bytes : List UInt8) (kernel : Kernel) : StreamSocket :=
  { s with
    kernel := kernel
    bytesRecvd := s.bytesRecvd + bytes.length
    inBuffer := s.inBuffer.insertEnd bytes
    received := s.received ++ bytes }

theorem readIncomingData_data {bytes : List UInt8} {kernel : Kernel}
    (hread : s.kernel.read 16384 = (.data bytes, kernel)) :
    s.readIncomingData = if bytes.length = 16384 then (s.withBlock bytes kernel).readIncomingData
      else (s.withBlock bytes kernel, .data bytes) := by
  rw [readIncomingData]
  split
  · next hread' =>
    rw [hread] at hread'
    cases hread'
    rfl
  · next hread' =>
    rw [hread] at hread'
    cases hread'
  · next hread' =>
    rw [hread] at hread'
    cases hread'

theorem readIncomingData_eof {kernel : Kernel} (hread : s.kernel.read 16384 = (.eof, kernel)) :
    s.readIncomingData = (s, .eof) := by
  rw [readIncomingData]
  split
  · next hread' =>
    rw [hread] at hread'
    cases hread'
  · rfl
  · next hread' =>
    rw [hread] at hread'
    cases hread'

theorem readIncomingData_error {errno : Errno} {kernel : Kernel}
    (hread : s.kernel.read 16384 = (.error errno, kernel)) :
    s.readIncomingData = (s, .error errno) := by
  rw [readIncomingData]
  split
  · next hread' =>
    rw [hread] at hread'
    cases hread'
  · next hread' =>
    rw [hread] at hread'
    cases hread'
  · next hread' =>
    rw [hread] at hread'
    cases hread'
    rfl

/-- What the last `read` says of the peer. -/
def Answered (t : StreamSocket) : ReadResult → Prop
  | .data _ => True
  | .eof => t.kernel.pending = [] ∧ t.kernel.eof = true
  | .error errno => errno ≠ .other

/-- The end of the input is reported when everything that arrived has been read. -/
theorem readIncomingData_spec (s : StreamSocket) :
    Works s s.readIncomingData.1 ∧ Answered s.readIncomingData.1 s.readIncomingData.2 := by
  induction s using readIncomingData.induct with
  | case1 s bytes kernel hread t hfull ih =>
    rw [readIncomingData_data hread, if_pos hfull]
    exact ⟨(works_read hread).trans ih.1, ih.2⟩
  | case2 s bytes kernel hread hfull =>
    rw [readIncomingData_data hread, if_neg hfull]
    exact ⟨works_read hread, trivial⟩
  | case3 s kernel hread =>
    rw [readIncomingData_eof hread]
    exact ⟨.refl s, read_eof hread⟩
  | case4 s errno kernel hread =>
    rw [readIncomingData_error hread]
    refine ⟨.refl s, fun herrno => ?_⟩
    rw [herrno] at hread
    exact read_ne_other hread

theorem works_handleIncoming (calls : List Incoming) (oldSize : Nat) (s : StreamSocket) :
    Works s (handleIncoming calls oldSize s).1 := by
  induction calls generalizing oldSize s with
  | nil => exact .refl s
  | cons call calls ih =>
    rw [handleIncoming]
    split
    · dsimp only
      split
      · exact works_ops call.ops s
      · exact (works_ops call.ops s).trans (ih _ _)
    · exact .refl s

theorem works_closeConnection (s : StreamSocket) : Works s s.closeConnection :=
  ⟨fun _ h => ⟨h.sent, h.bytesSent, h.waiting⟩, fun h => ⟨h.received, h.arrived, h.bytesRecvd⟩, Nat.le_refl _,
    rfl, rfl, rfl, rfl, fun _ => ⟨rfl, rfl⟩, rfl, id⟩

/-- A connection that a shutdown ends is shut down with everything written. -/
def WrittenOut (t : StreamSocket) (reason : Option End) : Prop :=
  ∀ n, reason = some (.shutdown n) → t.kernel.shut = true ∧ t.sent.length = n ∧
    t.outBuffer.bytes = []

/-- The loop that writes ends a connection for a shutdown or for an error. -/
def Writes (t : StreamSocket) (reason : Option End) : Prop :=
  WrittenOut t reason ∧ (reason = none ∨ reason = some .writeError ∨ ∃ n, reason = some (.shutdown n))

theorem writes_none (t : StreamSocket) : Writes t none := ⟨nofun, .inl rfl⟩

theorem writes_writeError (t : StreamSocket) : Writes t (some .writeError) :=
  ⟨nofun, .inr (.inl rfl)⟩

theorem round_spec (s : StreamSocket) (pollOut : Bool) (r : Round) :
    Works s (s.round pollOut r).1 ∧ Writes (s.round pollOut r).1 (s.round pollOut r).2.1 := by
  have hops : Works s
      (if pollOut ∧ 0 < s.getSendBufferCapacity then s.ops r.ops else s) := by
    split
    · exact works_ops r.ops s
    · exact .refl s
  rw [round]
  generalize (if pollOut = true ∧ 0 < s.getSendBufferCapacity then s.ops r.ops else s) = t at hops ⊢
  split
  · next hshut =>
    refine ⟨hops.trans (works_closeConnection t), ?_, .inr (.inr ⟨_, rfl⟩)⟩
    intro n hn
    cases hn
    refine ⟨rfl, rfl, ?_⟩
    exact List.eq_nil_of_length_eq_zero (by rw [Buffer.length_bytes]; exact hshut.2)
  · split
    · have hwork := hops.trans (works_writeOutgoingData r.answers t)
      split
      · next heq =>
        rw [heq] at hwork
        exact ⟨hwork, writes_writeError _⟩
      · next heq =>
        rw [heq] at hwork
        exact ⟨hwork, writes_writeError _⟩
      · next heq =>
        rw [heq] at hwork
        exact ⟨hwork, writes_none _⟩
    · exact ⟨hops, writes_none t⟩

theorem writeRounds_spec (pollOut : Bool) (rounds : List Round) (s : StreamSocket) :
    Works s (writeRounds pollOut rounds s).1 ∧
      Writes (writeRounds pollOut rounds s).1 (writeRounds pollOut rounds s).2 := by
  induction rounds generalizing s with
  | nil => exact round_spec s pollOut ⟨[], []⟩
  | cons r rounds ih =>
    have hround := round_spec s pollOut r
    rw [writeRounds]
    split
    · exact ⟨hround.1.trans (ih _).1, (ih _).2⟩
    · exact hround

/-- What was read, and what the handler made of it, leaves the connection as it is or ends it. -/
theorem pollIncoming_spec (s : StreamSocket) (hangUp : Option End) :
    Works s (s.pollIncoming hangUp).1 ∧ (s.pollIncoming hangUp).2 ∈
      [none, some .ignored, some .eof, some .readError] ∧
      ((s.pollIncoming hangUp).2 = some .eof →
        (s.pollIncoming hangUp).1.kernel.pending = [] ∧
          (s.pollIncoming hangUp).1.kernel.eof = true) := by
  obtain ⟨hwork, hanswered⟩ := readIncomingData_spec s
  rw [pollIncoming]
  split
  · exact ⟨.refl s, by simp, nofun⟩
  · split
    · next heq =>
      rw [heq] at hwork
      exact ⟨hwork, by simp, nofun⟩
    · next heq =>
      rw [heq] at hwork hanswered
      exact ⟨hwork, by simp, fun _ => hanswered⟩
    · next heq =>
      rw [heq] at hwork
      exact ⟨hwork, by simp, nofun⟩
    · next heq =>
      rw [heq] at hwork
      exact ⟨hwork, by simp, nofun⟩
    · next heq =>
      rw [heq] at hwork
      exact ⟨hwork, by simp, nofun⟩
    · next heq =>
      rw [heq] at hanswered
      exact absurd rfl hanswered

theorem readEvents_spec (s : StreamSocket) (call : Call) :
    Works s (s.readEvents call).1 ∧ (s.readEvents call).2 ∈
      [none, some .ignored, some .eof, some .readError, some (.hangUp false)] ∧
      ((s.readEvents call).2 = some .eof →
        (s.readEvents call).1.kernel.pending = [] ∧ (s.readEvents call).1.kernel.eof = true) := by
  rw [readEvents]
  cases hin : call.pollIn with
  | true =>
    rw [if_pos rfl]
    obtain ⟨hwork, hmem, heof⟩ :=
      pollIncoming_spec s (if call.hangUp = true then some (.hangUp true) else none)
    refine ⟨hwork, ?_, heof⟩
    simp only [List.mem_cons, List.not_mem_nil, or_false] at hmem ⊢
    rcases hmem with h | h | h | h
    · exact .inl h
    · exact .inr (.inl h)
    · exact .inr (.inr (.inl h))
    · exact .inr (.inr (.inr (.inl h)))
  | false =>
    rw [if_neg Bool.false_ne_true]
    refine ⟨.refl s, ?_, ?_⟩
    · split
      · simp
      · simp
    · split
      · exact nofun
      · exact nofun

end StreamSocket

/-! ## Whole lives -/

/-- The reason says what had become of the streams. -/
structure Reason (s : StreamSocket) : Prop where
  /-- A shutdown that was asked for came after everything that had been sent by then. -/
  shutdown : ∀ n, s.ended = some (.shutdown n) → s.kernel.shut = true ∧
    (Small s → s.kernel.wire.length = n ∧ s.kernel.wire = s.sent.take n)
  /-- The end of the input came after everything that arrived. -/
  eof : s.ended = some .eof → s.kernel.pending = [] ∧ s.kernel.eof = true ∧ s.received = s.arrived
  /-- A descriptor that hung up and was polled for input is read to its end first. -/
  hangUp : s.ended ≠ some (.hangUp true)

/-- The streams are kept, the output where little waited to be written, the handler is told once that the
connection is closed, and why. -/
structure Sound (s : StreamSocket) : Prop where
  output : Small s → OutputKept s
  input : InputKept s
  open_ : s.life = .polled → s.closed = false ∧ s.ended = none
  told : s.disconnects = if s.ended = none then 0 else 1
  ended : s.ended = none ↔ s.closed = false ∧ s.life ≠ .destroyed
  reason : Reason s

theorem sound_new (sendBufferSize : Int) : Sound (.new sendBufferSize) where
  output _ := ⟨rfl, rfl, Nat.le_refl 0⟩
  input := ⟨rfl, rfl, rfl⟩
  open_ _ := ⟨rfl, rfl⟩
  told := rfl
  ended := ⟨fun _ => ⟨rfl, nofun⟩, fun _ => rfl⟩
  reason := ⟨nofun, nofun, nofun⟩

/-- Work on the socket changes none of it. -/
theorem Sound.works {s t : StreamSocket} (h : Sound s) (hwork : Works s t) : Sound t where
  output ht := hwork.output ht (h.output (hwork.small ht))
  input := hwork.input h.input
  open_ := by rw [hwork.life, hwork.closed, hwork.ended]; exact h.open_
  told := by rw [hwork.disconnects, hwork.ended]; exact h.told
  ended := by rw [hwork.life, hwork.closed, hwork.ended]; exact h.ended
  reason := by
    refine ⟨fun n hn => ?_, fun heof => ?_, ?_⟩
    · rw [hwork.ended] at hn
      obtain ⟨hshut, hwritten⟩ := h.reason.shutdown n hn
      obtain ⟨hshut', hwire⟩ := hwork.shut hshut
      refine ⟨hshut', fun ht => ?_⟩
      obtain ⟨hlength, -⟩ := hwritten (hwork.small ht)
      refine ⟨by rw [hwire, hlength], ?_⟩
      rw [← (hwork.output ht (h.output (hwork.small ht))).sent, hwire, ← hlength, List.take_left']
      rfl
    · rw [hwork.ended] at heof
      obtain ⟨hpending, heof', -⟩ := h.reason.eof heof
      have hpending' := hwork.pending hpending
      refine ⟨hpending', hwork.eof.trans heof', ?_⟩
      rw [← (hwork.input h.input).arrived, hpending', List.append_nil]
    · rw [hwork.ended]
      exact h.reason.hangUp

/-- The handler is told that an open connection is closed. -/
theorem Sound.disconnect {s : StreamSocket} (h : Sound s) (hopen : s.ended = none) {reason : End}
    (hreason : Reason { s with ended := some reason }) : Sound (s.disconnect reason) where
  output hsmall := ⟨(h.output hsmall).sent, (h.output hsmall).bytesSent, (h.output hsmall).waiting⟩
  input := ⟨h.input.received, h.input.arrived, h.input.bytesRecvd⟩
  open_ hlife := by cases hlife
  told := by
    have htold := h.told
    rw [if_pos hopen] at htold
    simp [StreamSocket.disconnect, htold]
  ended := by simp [StreamSocket.disconnect]
  reason := ⟨hreason.shutdown, hreason.eof, hreason.hangUp⟩

theorem Sound.handlePoll {s : StreamSocket} (h : Sound s) (hlife : s.life = .polled)
    (call : StreamSocket.Call) : Sound (s.handlePoll call) := by
  rw [StreamSocket.handlePoll]
  have htimeout := StreamSocket.works_ops call.timeout s
  generalize s.ops call.timeout = s₁ at htimeout
  dsimp only
  split
  · exact h.works htimeout
  · obtain ⟨hread, hreason, heof⟩ := StreamSocket.readEvents_spec s₁ call
    have hincoming := StreamSocket.works_handleIncoming call.incoming 0 (s₁.readEvents call).1
    split
    · exact h.works (htimeout.trans (hread.trans hincoming))
    · obtain ⟨hwritten, hout, hends⟩ := StreamSocket.writeRounds_spec call.pollOut call.rounds
        (StreamSocket.handleIncoming call.incoming 0 (s₁.readEvents call).1).1
      have hrest := hincoming.trans hwritten
      have hs := h.works (htimeout.trans (hread.trans hrest))
      generalize StreamSocket.writeRounds call.pollOut call.rounds
        (StreamSocket.handleIncoming call.incoming 0 (s₁.readEvents call).1).1 = w at *
      split
      · next reason heq =>
        have hlife' : w.1.life = .polled :=
          ((htimeout.trans (hread.trans hrest)).life).trans hlife
        refine hs.disconnect (hs.open_ hlife').2 ?_
        rcases hends with hnone | herror | ⟨n, hn⟩
        · rw [hnone, Option.none_or] at heq
          rw [heq] at hreason heof
          simp only [List.mem_cons, Option.some.injEq, reduceCtorEq, List.not_mem_nil, or_false,
            false_or] at hreason
          refine ⟨fun n hn => ?_, fun hn => ?_, fun hn => ?_⟩
          · cases hn
            simp at hreason
          · cases hn
            obtain ⟨hpending, hkernel⟩ := heof rfl
            have hpending' := hrest.pending hpending
            refine ⟨hpending', hrest.eof.trans hkernel, ?_⟩
            have harrived := hs.input.arrived
            rw [hpending', List.append_nil] at harrived
            exact harrived
          · cases hn
            simp at hreason
        · rw [herror, Option.some_or] at heq
          cases heq
          exact ⟨nofun, nofun, nofun⟩
        · rw [hn, Option.some_or] at heq
          cases heq
          obtain ⟨hshut, hlength, hempty⟩ := hout n hn
          refine ⟨fun m hm => ?_, nofun, nofun⟩
          cases hm
          refine ⟨hshut, fun hsmall => ?_⟩
          have hsent := (hs.output hsmall).sent
          rw [hempty, List.append_nil] at hsent
          refine ⟨by rw [← hlength, ← hsent], ?_⟩
          rw [← hlength, List.take_length]
          exact hsent
      · exact hs

theorem Sound.destroy {s : StreamSocket} (h : Sound s) (hlife : s.life ≠ .destroyed) :
    Sound s.destroy := by
  have houtput : Small s.destroy → OutputKept s.destroy := fun hsmall =>
    ⟨(h.output hsmall).sent, (h.output hsmall).bytesSent, (h.output hsmall).waiting⟩
  have hinput : InputKept s.destroy := ⟨h.input.received, h.input.arrived, h.input.bytesRecvd⟩
  have htold := h.told
  cases hclosed : s.closed with
  | true =>
    have hended : s.ended ≠ none := fun hnone => by
      have := (h.ended.mp hnone).1
      rw [hclosed] at this
      cases this
    rw [if_neg hended] at htold
    refine ⟨houtput, hinput, nofun, ?_, ?_, ?_⟩
    · simp [StreamSocket.destroy, hclosed, hended, htold]
    · simp [StreamSocket.destroy, hclosed, hended]
    · refine ⟨fun n hn => ?_, fun heof => ?_, ?_⟩
      · simp only [StreamSocket.destroy, hclosed, if_true] at hn ⊢
        obtain ⟨hshut, hrest⟩ := h.reason.shutdown n hn
        exact ⟨by rw [hshut, Bool.true_or], hrest⟩
      · simp only [StreamSocket.destroy, hclosed, if_true] at heof ⊢
        exact h.reason.eof heof
      · simp only [StreamSocket.destroy, hclosed, if_true]
        exact h.reason.hangUp
  | false =>
    rw [if_pos (h.ended.mpr ⟨hclosed, hlife⟩)] at htold
    refine ⟨houtput, hinput, nofun, ?_, ?_, ?_⟩
    · simp [StreamSocket.destroy, hclosed, htold]
    · simp [StreamSocket.destroy, hclosed]
    · refine ⟨fun n hn => ?_, fun heof => ?_, ?_⟩
      · simp [StreamSocket.destroy, hclosed] at hn
      · simp [StreamSocket.destroy, hclosed] at heof
      · simp [StreamSocket.destroy, hclosed]

theorem Sound.act {s : StreamSocket} (h : Sound s) (a : Action) : Sound (act s a) := by
  cases a with
  | handlePoll call =>
    rw [Stream.act]
    split
    · next hlife => exact h.handlePoll hlife call
    · exact h
  | op o =>
    rw [Stream.act]
    split
    · exact h
    · exact h.works (StreamSocket.works_op o s)
  | arrive bytes =>
    rw [Stream.act]
    split
    · exact h
    · next heof =>
      refine ⟨fun hsmall => ⟨(h.output hsmall).sent, (h.output hsmall).bytesSent, (h.output hsmall).waiting⟩,
        ⟨h.input.received, ?_, h.input.bytesRecvd⟩, h.open_, h.told, h.ended, h.reason.shutdown,
        fun hend => ?_, h.reason.hangUp⟩
      · rw [← List.append_assoc, h.input.arrived]
      · exact absurd (h.reason.eof hend).2.1 heof
  | close =>
    refine ⟨fun hsmall => ⟨(h.output hsmall).sent, (h.output hsmall).bytesSent, (h.output hsmall).waiting⟩,
      ⟨h.input.received, h.input.arrived, h.input.bytesRecvd⟩, h.open_, h.told, h.ended, h.reason.shutdown,
      fun hend => ?_, h.reason.hangUp⟩
    obtain ⟨hpending, -, hreceived⟩ := h.reason.eof hend
    exact ⟨hpending, rfl, hreceived⟩
  | reset =>
    exact ⟨fun hsmall => ⟨(h.output hsmall).sent, (h.output hsmall).bytesSent, (h.output hsmall).waiting⟩,
      ⟨h.input.received, h.input.arrived, h.input.bytesRecvd⟩, h.open_, h.told, h.ended, h.reason.shutdown,
      h.reason.eof, h.reason.hangUp⟩
  | destroy =>
    rw [Stream.act]
    split
    · exact h
    · next hlife => exact h.destroy hlife

/-- **The streams of a socket are kept, and its handler is told once.** Whatever the events are, what
the handler does, how much the kernel takes, and when the peer sends, closes or resets the connection:
what was sent is on the wire or in the buffer, in order, as long as less than 2 GiB wait to be written;
what arrived was consumed, is in the buffer or waits in the kernel; `onDisconnect` comes once, when the
socket is erased from its poll or at last when it is destroyed; a shutdown that `handlePoll` makes comes
after everything that had been sent, and the end of the input after everything that arrived. -/
theorem streams_kept (sendBufferSize : Int) (acts : List Action) :
    Run.Always act Sound (.new sendBufferSize) acts :=
  Run.always_of_inv (fun _ h => h) (fun _ a h => h.act a) (sound_new sendBufferSize)

end Oxool.Net.Stream
