import Oxool.Net.WebSocket.Receiver

/-!
# Connections

Two results about a whole connection. The first takes any bytes at all from the peer and says
exactly when the receiver keeps its contract (`receiverContract_iff`). The second takes the bytes
of a sender that is this program too: every message arrives, once and in order, however the
bytes are cut (`receive_sendAll`).
-/

set_option autoImplicit false

namespace Oxool.Net

namespace WebSocketHandler

/-! ## Any peer -/

/-- A new connection, on which this side has already sent its Close frame or has not. -/
def start (isClient isMasking closeSent : Bool) : Option WebSocketHandler :=
  if closeSent then (new isClient isMasking).sendCloseFrame normalClose []
  else some (new isClient isMasking)

/-- A run of a connection over the reads its socket makes. -/
def run (isClient isMasking closeSent : Bool) (reads : List (List UInt8)) :
    Option WebSocketHandler :=
  (start isClient isMasking closeSent).bind (receive · reads)

/-- What the receiver owes any peer. -/
structure ReceiverContract (isClient isMasking closeSent : Bool) (reads : List (List UInt8)) :
    Prop where
  inBounds : (run isClient isMasking closeSent reads).isSome
  cutting : ∀ reads', reads'.flatten = reads.flatten →
    (run isClient isMasking closeSent reads').map log =
      (run isClient isMasking closeSent reads).map log
  fragments : ∀ h, run isClient isMasking closeSent reads = some h →
    h.messages = assemble [] (handled isClient false (frames reads.flatten))
  pongs : ∀ h, run isClient isMasking closeSent reads = some h →
    h.pongs = pings (handled isClient false (frames reads.flatten))
  oneClose : ∀ h, run isClient isMasking closeSent reads = some h → h.closeFrames ≤ 1

/-- The connection at its start. -/
theorem start_eq (isClient isMasking closeSent : Bool) :
    ∃ h, start isClient isMasking closeSent = some h ∧ h.Live ∧ h.socket.inBuffer = .empty ∧
      h.isClient = isClient ∧ h.inFragmentBlock = false ∧ h.wsPayload = [] ∧
      h.shuttingDown = closeSent ∧ h.messages = [] ∧ h.pongs = [] ∧
      h.closeFrames = if closeSent then 1 else 0 := by
  have hl : (new isClient isMasking).Live := ⟨rfl, rfl⟩
  cases closeSent with
  | false => exact ⟨_, rfl, hl, rfl, rfl, rfl, rfl, rfl, rfl, rfl, rfl⟩
  | true =>
    have hlive : { new isClient isMasking with shuttingDown := true }.Live := ⟨rfl, rfl⟩
    unfold start sendCloseFrame
    rw [if_pos rfl, if_neg (by simp [hl.open_]), if_neg (by simp [new]),
      sendFrame_eq hlive (by decide), if_neg (by simp)]
    refine ⟨_, rfl, ⟨rfl, rfl⟩, rfl, rfl, rfl, rfl, rfl, rfl, ?_, rfl⟩
    simp [WebSocketHandler.pongs, new, Event.pong?,
      show (0x80 ||| opClose : UInt8) ≠ 0x80 ||| opPong by decide]

/-- A run, read off the frames of its stream. -/
theorem run_eq (isClient isMasking closeSent : Bool) (reads : List (List UInt8)) :
    ∃ h, start isClient isMasking closeSent = some h ∧ h.core.Live ∧
      (run isClient isMasking closeSent reads).map core =
        h.core.onFrames (frames reads.flatten) ∧
      ∀ h', run isClient isMasking closeSent reads = some h' → h'.Drained reads.flatten := by
  obtain ⟨h, hstart, hl, hb, -⟩ := start_eq isClient isMasking closeSent
  have hbytes : h.socket.inBuffer.bytes = [] := by rw [hb]; rfl
  obtain ⟨hcore, hdrained⟩ := receive_core reads (Or.inl ⟨hl, by rw [hbytes, framing.next_nil]⟩)
  rw [hbytes, List.nil_append] at hcore hdrained
  refine ⟨h, hstart, hl.core, ?_, ?_⟩
  · rw [run, hstart]
    exact hcore
  · rw [run, hstart]
    exact hdrained

/-- **What the receiver does with any bytes**, cut into reads in any way: it reads outside a frame
exactly when the frame that ends the connection is a Close frame with half a status code, and else
delivers the messages, answers the Pings that are not empty and sends at most one Close frame. -/
theorem run_spec (isClient isMasking closeSent : Bool) (reads : List (List UInt8)) :
    if (closing isClient false (frames reads.flatten)).any (shortClose isClient closeSent) then
      run isClient isMasking closeSent reads = none
    else ∃ h, run isClient isMasking closeSent reads = some h ∧
      h.messages = assemble [] (handled isClient false (frames reads.flatten)) ∧
      h.pongs = (pings (handled isClient false (frames reads.flatten))).filter (· ≠ []) ∧
      h.closeFrames ≤ 1 := by
  obtain ⟨h, hstart, hl, hrun, -⟩ := run_eq isClient isMasking closeSent reads
  obtain ⟨h₀, hstart₀, -, -, hclient, hfrag, hpay, hshut, hmsg, hpong, hclose⟩ :=
    start_eq isClient isMasking closeSent
  obtain rfl := Option.some.inj (hstart₀.symm.trans hstart)
  have hspec := onFrames_receives (frames reads.flatten) hl
  rw [← hrun, show h₀.core.isClient = isClient from hclient,
    show h₀.core.inFragmentBlock = false from hfrag,
    show h₀.core.shuttingDown = closeSent from hshut] at hspec
  split
  · rename_i hshort
    rw [if_pos hshort] at hspec
    exact Option.map_eq_none_iff.mp hspec
  · rename_i hshort
    rw [if_neg hshort] at hspec
    obtain ⟨h', heq, hr⟩ := hspec
    obtain ⟨h, hres, rfl⟩ := Option.map_eq_some_iff.mp heq
    have hmessages := hr.messages
    have hpongs := hr.pongs
    have hcloses := hr.closeFrames
    rw [show h₀.core.messages = [] from hmsg, show h₀.core.isClient = isClient from hclient,
      show h₀.core.inFragmentBlock = false from hfrag, show h₀.core.wsPayload = [] from hpay]
      at hmessages
    rw [show h₀.core.pongs = [] from hpong, show h₀.core.isClient = isClient from hclient,
      show h₀.core.inFragmentBlock = false from hfrag] at hpongs
    rw [show h₀.core.closeFrames = _ from hclose, show h₀.core.shuttingDown = closeSent from hshut]
      at hcloses
    refine ⟨h, hres, hmessages, hpongs, Nat.le_trans hcloses ?_⟩
    cases closeSent <;> simp

/-- **When the receiver keeps its contract.** For every stream from the peer and every way of
cutting it into reads: exactly when no Ping before the end of the connection is empty, and the
frame that ends it is not a Close frame with a one-byte payload that has to be echoed. -/
theorem receiverContract_iff (isClient isMasking closeSent : Bool) (reads : List (List UInt8)) :
    ReceiverContract isClient isMasking closeSent reads ↔
      [] ∉ pings (handled isClient false (frames reads.flatten)) ∧
      (closing isClient false (frames reads.flatten)).any (shortClose isClient closeSent) =
        false := by
  have hspec := run_spec isClient isMasking closeSent reads
  constructor
  · intro hc
    have hshort : (closing isClient false (frames reads.flatten)).any
        (shortClose isClient closeSent) = false := by
      cases hshort : (closing isClient false (frames reads.flatten)).any
        (shortClose isClient closeSent) with
      | false => rfl
      | true =>
        rw [if_pos hshort] at hspec
        exact absurd hc.inBounds (by simp [hspec])
    refine ⟨fun hempty => ?_, hshort⟩
    rw [if_neg (by rw [hshort]; decide)] at hspec
    obtain ⟨h, hrun, -, hpongs, -⟩ := hspec
    rw [← (hc.pongs h hrun), hpongs] at hempty
    exact absurd hempty (by simp)
  · rintro ⟨hempty, hshort⟩
    rw [if_neg (by rw [hshort]; decide)] at hspec
    obtain ⟨h, hrun, hmsg, hpongs, hclose⟩ := hspec
    refine ⟨by rw [hrun]; rfl, fun reads' hcut => ?_, fun h' hrun' => ?_, fun h' hrun' => ?_,
      fun h' hrun' => ?_⟩
    · obtain ⟨h₀, hstart, -, hcore, -⟩ := run_eq isClient isMasking closeSent reads
      obtain ⟨h₁, hstart', -, hcore', -⟩ := run_eq isClient isMasking closeSent reads'
      obtain rfl := Option.some.inj (hstart.symm.trans hstart')
      rw [hcut, ← hcore] at hcore'
      have := congrArg (Option.map log) hcore'
      rwa [Option.map_map, Option.map_map] at this
    · obtain rfl := Option.some.inj (hrun.symm.trans hrun')
      exact hmsg
    · obtain rfl := Option.some.inj (hrun.symm.trans hrun')
      rw [hpongs, List.filter_eq_self]
      exact fun p hp => decide_eq_true fun h0 => hempty (h0 ▸ hp)
    · obtain rfl := Option.some.inj (hrun.symm.trans hrun')
      exact hclose

/-- A Close frame with a one-byte payload makes a server read past it, and an empty Ping gets no
answer. -/
theorem receiverContract_fails :
    ¬ ReceiverContract false false false [[0x88, 0x01, 0x03]] ∧
      ¬ ReceiverContract false false false [[0x89, 0x00]] := by
  refine ⟨fun hc => absurd hc.inBounds (by decide), fun hc => ?_⟩
  have hpongs := hc.pongs _ (show run false false false [[0x89, 0x00]] = some
    (new false false) from by decide)
  exact absurd hpongs (by decide)

/-! ## A peer of the same making -/

/-- Something to send. -/
inductive Outgoing
  | text (data : List UInt8)
  | binary (data : List UInt8)
  | ping (data : List UInt8)
  | pong (data : List UInt8)

namespace Outgoing

def code : Outgoing → UInt8
  | text _ => opText
  | binary _ => opBinary
  | ping _ => opPing
  | pong _ => opPong

def data : Outgoing → List UInt8
  | text data | binary data | ping data | pong data => data

/-- The message the peer is to be handed. -/
def message? : Outgoing → Option (List UInt8)
  | text data | binary data => some data
  | ping _ | pong _ => none

/-- What the program sends: messages have content and a length below `2 ^ 31`; a Ping's payload is
one byte, and a Pong repeats a Ping that was accepted. -/
def Sendable : Outgoing → Prop
  | text data | binary data => data ≠ [] ∧ data.length < 2 ^ 31
  | ping data | pong data => data.length ≤ 125

/-- The frame the item travels in. -/
def frame (isMasking : Bool) (i : Outgoing) : Frame :=
  { fin := true, code := i.code, masked := isMasking, payload := i.data }

end Outgoing

/-- `sendTextMessage`, `sendBinaryMessage`, `sendPing` and `sendPong`, one after the other. -/
def sendAll (h : WebSocketHandler) (items : List Outgoing) : Option WebSocketHandler :=
  items.foldlM (fun h i => h.sendMessage i.data i.code) h

/-- The frames some items travel in; an empty control frame is not sent. -/
def sentFrames (isMasking : Bool) (items : List Outgoing) : List Frame :=
  (items.filter fun i => i.data ≠ []).map (Outgoing.frame isMasking)

/-- The bytes of a frame on the wire. -/
def wire (f : Frame) : List UInt8 := frameBytes f.masked (0x80 ||| f.code) f.payload

theorem Outgoing.Sendable.length_lt {i : Outgoing} (hi : i.Sendable) : i.data.length < 2 ^ 31 := by
  cases i with
  | text data | binary data => exact hi.2
  | ping data | pong data => exact Nat.lt_of_le_of_lt hi (by decide)

/-- Sending puts the frames of the items on the wire. -/
theorem sendAll_wire (items : List Outgoing) : ∀ {h : WebSocketHandler}, h.Live →
    (∀ i ∈ items, i.Sendable) → ∃ h', h.sendAll items = some h' ∧ h'.Live ∧
      h'.socket.outBuffer.bytes =
        h.socket.outBuffer.bytes ++ (sentFrames h.isMasking items).flatMap wire := by
  induction items with
  | nil => exact fun {h} hl _ => ⟨h, rfl, hl, by simp [sentFrames]⟩
  | cons i items ih =>
    intro h hl hs
    have hi := hs i List.mem_cons_self
    have hrest := fun j hj => hs j (List.mem_cons_of_mem _ hj)
    rw [sendAll, List.foldlM_cons, sendMessage, sendFrame_eq hl hi.length_lt]
    by_cases h0 : i.data = []
    · rw [if_pos h0]
      obtain ⟨h', heq, hl', hout⟩ := ih hl hrest
      exact ⟨h', heq, hl', by rw [hout, sentFrames, sentFrames, List.filter_cons_of_neg (by simp [h0])]⟩
    · rw [if_neg h0]
      obtain ⟨h', heq, hl', hout⟩ := ih (h := { h with
        socket := { h.socket with
          outBuffer := h.socket.outBuffer.insertEnd
            (frameBytes h.isMasking (0x80 ||| i.code) i.data) }
        log := h.log ++ [.sent (0x80 ||| i.code) i.data] }) ⟨hl.open_, hl.reads⟩ hrest
      refine ⟨h', heq, hl', ?_⟩
      rw [hout, Buffer.bytes_insertEnd, List.append_assoc, sentFrames, sentFrames,
        List.filter_cons_of_pos (by simp [h0]), List.map_cons, List.flatMap_cons]
      rfl

/-- The stream is split into the frames that were sent. -/
theorem frames_wire (isMasking : Bool) {items : List Outgoing} (hs : ∀ i ∈ items, i.Sendable) :
    frames ((sentFrames isMasking items).flatMap wire) = sentFrames isMasking items ∧
      framing.pending ((sentFrames isMasking items).flatMap wire) = [] := by
  refine framing.split_encoded fun f hf more => ?_
  obtain ⟨i, hi, rfl⟩ := List.mem_map.mp hf
  have hlen := (hs i (List.mem_filter.mp hi).1).length_lt
  have hcode : (0x80 ||| i.code) &&& 0x0f = i.code := by
    cases i <;> simp only [Outgoing.code] <;> decide
  have := parseFrame_frameBytes isMasking (0x80 ||| i.code)
    (show i.data.length < 2 ^ 64 by omega) more
  rw [hcode] at this
  exact this

/-- A frame that was sent does not end the connection, and leaves no message unfinished. -/
theorem frame_accepted {isMasking isClient : Bool} (hrole : isMasking = true → isClient = false)
    {i : Outgoing} (hi : i.Sendable) :
    closes isClient false (i.frame isMasking) = false ∧
      nextFragment false (i.frame isMasking) = false := by
  have hmask : (isMasking && isClient) = false := by
    cases isMasking with
    | false => rfl
    | true => rw [hrole rfl]; rfl
  cases i with
  | text data | binary data =>
    refine ⟨?_, rfl⟩
    simp only [closes, Outgoing.frame, Outgoing.code, hmask, Bool.false_or]
    rw [if_neg (by decide)]
    rfl
  | ping data | pong data =>
    have hlen : ¬ data.length > 125 := Nat.not_lt.mpr hi
    refine ⟨?_, rfl⟩
    simp only [closes, Outgoing.frame, Outgoing.code, Outgoing.data, hmask, hlen, Bool.false_or]
    rw [if_pos (by decide)]
    rfl

/-- No frame that was sent ends the connection, and the data frames are whole messages. -/
theorem sentFrames_accepted {isMasking isClient : Bool} (hrole : isMasking = true → isClient = false)
    {items : List Outgoing} (hs : ∀ i ∈ items, i.Sendable) :
    closing isClient false (sentFrames isMasking items) = none ∧
      assemble [] (handled isClient false (sentFrames isMasking items)) =
        items.filterMap Outgoing.message? := by
  induction items with
  | nil => exact ⟨rfl, rfl⟩
  | cons i items ih =>
    have hi := hs i List.mem_cons_self
    obtain ⟨ihclosing, ihmessages⟩ := ih fun j hj => hs j (List.mem_cons_of_mem _ hj)
    by_cases h0 : i.data = []
    · have hnone : i.message? = none := by
        cases i with
        | text data | binary data => exact absurd h0 hi.1
        | ping data | pong data => rfl
      rw [sentFrames, List.filter_cons_of_neg (by simp [h0]), List.filterMap_cons_none hnone]
      exact ⟨ihclosing, ihmessages⟩
    · obtain ⟨hcloses, hnext⟩ := frame_accepted hrole hi
      rw [sentFrames, List.filter_cons_of_pos (by simp [h0]), List.map_cons, closing, handled,
        if_neg (by rw [hcloses]; decide), if_neg (by rw [hcloses]; decide), hnext]
      refine ⟨ihclosing, ?_⟩
      cases i with
      | text data | binary data =>
        show _ = data :: items.filterMap Outgoing.message?
        rw [← ihmessages]
        rfl
      | ping data | pong data =>
        rw [List.filterMap_cons_none rfl, ← ihmessages]
        rfl

/-- **Messages arrive.** Whatever is sent through `sendMessage`, masked or not, with Pings and
Pongs in between, and however the bytes are cut into reads: the receiver hands over exactly the
messages, in order, once each; the connection stays open and nothing is left in the buffer. -/
theorem receive_sendAll (senderIsClient senderIsMasking isClient isMasking : Bool)
    (hrole : (senderIsClient && senderIsMasking) = true → isClient = false)
    (items : List Outgoing) (hs : ∀ i ∈ items, i.Sendable) :
    ∃ s, (new senderIsClient senderIsMasking).sendAll items = some s ∧
      ∀ reads : List (List UInt8), reads.flatten = s.socket.outBuffer.bytes →
        ∃ h, (new isClient isMasking).receive reads = some h ∧
          h.messages = items.filterMap Outgoing.message? ∧
          .closed ∉ h.log ∧ h.closeFrames = 0 ∧ h.socket.inBuffer.size = 0 := by
  obtain ⟨s, hsend, -, hwire⟩ := sendAll_wire items
    (h := new senderIsClient senderIsMasking) ⟨rfl, rfl⟩ hs
  refine ⟨s, hsend, fun reads hreads => ?_⟩
  have hstream : reads.flatten =
      (sentFrames (senderIsClient && senderIsMasking) items).flatMap wire := hreads.trans hwire
  obtain ⟨hframes, hpending⟩ := frames_wire (senderIsClient && senderIsMasking) hs
  obtain ⟨hopen, hmessages⟩ := sentFrames_accepted hrole hs
  obtain ⟨h₀, hstart, hl, hrun, hdrained⟩ := run_eq isClient isMasking false reads
  obtain rfl := Option.some.inj hstart
  have hspec := onFrames_receives (frames reads.flatten) hl
  rw [← hrun, hstream, hframes, show (new isClient isMasking).core.isClient = isClient from rfl,
    show (new isClient isMasking).core.inFragmentBlock = false from rfl, hopen] at hspec
  obtain ⟨h', heq, hr⟩ := hspec
  obtain ⟨h, hres, rfl⟩ := Option.map_eq_some_iff.mp heq
  obtain ⟨hl', events, hlog, hevents⟩ := hr.stays hopen
  have hlog' : h.log = events := hlog
  refine ⟨h, hres, ?_, ?_, ?_, ?_⟩
  · rw [← hmessages]
    exact hr.messages
  · rw [hlog']
    exact fun hc => (hevents _ hc).1 rfl
  · rw [closeFrames, hlog']
    exact List.countP_eq_zero.mpr fun e he => by simp [(hevents e he).2]
  · rcases hdrained h hres with ⟨-, hb⟩ | hi
    · rw [hstream, hpending] at hb
      rw [← Buffer.length_bytes, hb]
      rfl
    · exact absurd (hl'.reads.symm.trans hi) (by decide)

/-- A masking client talks to a server. -/
theorem receive_sendAll_masked :
    ((true && true) = true → false = false) ∧
    (∀ i ∈ [Outgoing.text [104, 105], .ping [0], .binary [7]], i.Sendable) ∧
    ∃ s, (new true true).sendAll [.text [104, 105], .ping [0], .binary [7]] = some s ∧
      ∀ reads : List (List UInt8), reads.flatten = s.socket.outBuffer.bytes →
        ∃ h, (new false false).receive reads = some h ∧ h.messages = [[104, 105], [7]] ∧
          .closed ∉ h.log ∧ h.closeFrames = 0 ∧ h.socket.inBuffer.size = 0 :=
  have hs : ∀ i ∈ [Outgoing.text [104, 105], .ping [0], .binary [7]], i.Sendable := by
    simp [Outgoing.Sendable]
  ⟨fun _ => rfl, hs, receive_sendAll true true false false (fun _ => rfl) _ hs⟩

end WebSocketHandler

end Oxool.Net
