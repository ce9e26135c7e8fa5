import Mathlib.Logic.Function.Basic
import Oxool.Net.WebSocket.Connection

/-!
# Two ends of a connection

A client and a server, each a `WebSocketHandler`, and what each has written that the other has not
read yet. Either end sends messages, Pings and Close frames when it likes; the sockets write and read
as many bytes at a time as they like. What one end is handed is then always a first part of what the
other has sent, and every Ping that was read is answered, whatever order all this happens in
(`delivers_always`); a frame is not lost at an end that still reads.

The reason is in `Flows`, for one direction: the frames sent are those the other end has dealt with,
and those whose bytes it holds, the wire carries and the sender has still to write.
-/

set_option autoImplicit false

namespace Oxool.Net

/-- The frame of something that was sent. -/
def Event.frame? (isMasking : Bool) : Event → Option Frame
  | .sent flags data =>
    some { fin := true, code := flags &&& 0x0f, masked := isMasking, payload := data }
  | _ => none

/-- The messages in some frames. -/
def messagesOf (fs : List Frame) : List (List UInt8) :=
  (fs.filter fun f => f.code == opText || f.code == opBinary).map Frame.payload

namespace WebSocketHandler

/-- The frames that were put into the output buffer. -/
def outFrames (h : WebSocketHandler) : List Frame := h.log.filterMap (Event.frame? h.isMasking)

end WebSocketHandler

/-! ## The two ends -/

/-- The client is `true`, the server `false`; `wire` is what an end has written for the other. -/
structure Link where
  handler : Bool → WebSocketHandler
  wire : Bool → List UInt8

namespace Link

open WebSocketHandler

def start (clientIsMasking serverIsMasking : Bool) : Link where
  handler side := if side then new true clientIsMasking else new false serverIsMasking
  wire _ := []

def set (l : Link) (side : Bool) (h : WebSocketHandler) : Link :=
  { l with handler := Function.update l.handler side h }

inductive Action
  | sendTextMessage (side : Bool) (data : List UInt8)
  | sendBinaryMessage (side : Bool) (data : List UInt8)
  | sendPing (side : Bool)
  | sendCloseFrame (side : Bool) (statusCode : Nat) (statusMessage : List UInt8)
  | shutdown (side : Bool) (statusCode : Nat) (statusMessage : List UInt8)
  /-- The socket takes some bytes of the output buffer. -/
  | write (side : Bool) (n : Nat)
  /-- One poll, in which some bytes of the other end are read. -/
  | read (side : Bool) (n : Nat)

/-- `none` where memory is read that is not there. -/
def act (l : Link) : Action → Option Link
  | .sendTextMessage side data => ((l.handler side).sendMessage data opText).map (l.set side)
  | .sendBinaryMessage side data => ((l.handler side).sendMessage data opBinary).map (l.set side)
  | .sendPing side => ((l.handler side).sendMessage [0] opPing).map (l.set side)
  | .sendCloseFrame side statusCode statusMessage =>
    ((l.handler side).sendCloseFrame statusCode statusMessage).map (l.set side)
  | .shutdown side statusCode statusMessage =>
    ((l.handler side).shutdown statusCode statusMessage).map (l.set side)
  | .write side n =>
    let h := l.handler side
    let out := h.socket.outBuffer
    some { l.set side { h with socket := { h.socket with outBuffer := out.eraseFirst n } } with
      wire := Function.update l.wire side (l.wire side ++ out.bytes.take n) }
  | .read side n =>
    ((l.handler side).handlePoll ((l.wire !side).take n)).map fun h =>
      { l.set side h with wire := Function.update l.wire (!side) ((l.wire !side).drop n) }

/-- The lengths that the program sends. -/
def Action.Short : Action → Prop
  | .sendTextMessage _ data | .sendBinaryMessage _ data => data.length < 2 ^ 31
  | .sendCloseFrame _ _ statusMessage | .shutdown _ _ statusMessage => statusMessage.length + 2 < 2 ^ 31
  | _ => True

/-- Nothing of what an end has sent is on its way. -/
def Silent (l : Link) (side : Bool) : Prop :=
  (l.handler side).socket.outBuffer.bytes = [] ∧ l.wire side = [] ∧
    (l.handler !side).socket.inBuffer.bytes = []

/-- What the other end was handed is a first part of the messages of this end, and it has answered a
first part of its Pings; both are all of them when nothing is on its way to an end that reads. -/
structure Delivers (l : Link) (side : Bool) : Prop where
  messages : (l.handler !side).messages <+: messagesOf (l.handler side).outFrames
  pongs : (l.handler !side).pongs <+: pings (l.handler side).outFrames
  complete : (l.handler !side).socket.ignoreInput = false → l.Silent side →
    (l.handler !side).messages = messagesOf (l.handler side).outFrames ∧
      (l.handler !side).pongs = pings (l.handler side).outFrames

end Link

namespace WebSocketHandler

/-! ## The frames of this program -/

/-- A frame as this program makes it. -/
structure Fair (isMasking : Bool) (f : Frame) : Prop where
  fin : f.fin = true
  masked : f.masked = isMasking
  content : f.payload ≠ []
  short : f.payload.length < 2 ^ 31
  kind : f.code = opText ∨ f.code = opBinary ∨ ((f.code = opPing ∨ f.code = opPong) ∧
    f.payload.length ≤ 125) ∨ f.code = opClose ∧ 2 ≤ f.payload.length

variable {isMasking isClient : Bool} {f : Frame} {fs : List Frame}

theorem Fair.code_eq (hf : Fair isMasking f) : (0x80 ||| f.code) &&& 0x0f = f.code := by
  rcases hf.kind with h | h | ⟨h | h, -⟩ | ⟨h, -⟩
  all_goals
    rw [h]
    decide

theorem Fair.next (hf : Fair isMasking f) (more : List UInt8) :
    framing.next (wire f ++ more) = some (f, more) := by
  have hparse := parseFrame_frameBytes f.masked (0x80 ||| f.code)
    (show f.payload.length < 2 ^ 64 by have := hf.short; omega) more
  rw [hf.code_eq] at hparse
  have hsame : ({ fin := true, code := f.code, masked := f.masked, payload := f.payload } : Frame) = f := by
    rw [← hf.fin]
  rw [hsame] at hparse
  exact hparse

theorem Fair.wire_ne (hf : Fair isMasking f) : wire f ≠ [] := by
  intro hnil
  have hnext := hf.next []
  rw [hnil, List.append_nil, framing.next_nil] at hnext
  cases hnext

/-- Only its Close frames end a connection. -/
theorem Fair.closes_eq (hf : Fair isMasking f) (hroles : (isMasking && isClient) = false) :
    closes isClient false f = (f.code == opClose) := by
  simp only [closes, hf.masked, hroles, Bool.false_or, hf.fin]
  rcases hf.kind with h | h | ⟨h | h, hlen⟩ | ⟨h, -⟩
  · rw [h]
    rfl
  · rw [h]
    rfl
  · simp [h, opPing, opClose, opPong, hlen]
  · simp [h, opPing, opClose, opPong, hlen]
  · rw [h]
    simp [opClose, opPong, opPing]

theorem Fair.nextFragment_eq (hf : Fair isMasking f) : nextFragment false f = false := by
  rw [nextFragment, hf.fin]
  split <;> rfl

theorem assemble_fair (hfs : ∀ f ∈ fs, Fair isMasking f) : assemble [] fs = messagesOf fs := by
  induction fs with
  | nil => rfl
  | cons f fs ih =>
    have hf := hfs f List.mem_cons_self
    have hrest := ih fun g hg => hfs g (List.mem_cons_of_mem f hg)
    rw [assemble, messagesOf, hf.fin, hrest, messagesOf]
    rcases hf.kind with h | h | ⟨h | h, -⟩ | ⟨h, -⟩
    all_goals simp [h, opText, opBinary, opPing, opPong, opClose]

theorem filter_pings_fair (hfs : ∀ f ∈ fs, Fair isMasking f) :
    (pings fs).filter (· ≠ []) = pings fs := by
  rw [List.filter_eq_self]
  intro p hp
  obtain ⟨f, hf, rfl⟩ := List.mem_map.mp hp
  simpa using (hfs f (List.mem_filter.mp hf).1).content

/-! ## What an end writes -/

/-- Something was sent, or nothing: the frames of it are in the output buffer. -/
structure Wrote (h h' : WebSocketHandler) : Prop where
  isMasking : h'.isMasking = h.isMasking
  isClient : h'.isClient = h.isClient
  log : ∃ events, h'.log = h.log ++ events ∧
    (∀ f ∈ events.filterMap (Event.frame? h.isMasking), Fair h.isMasking f) ∧
    h'.socket.outBuffer.bytes = h.socket.outBuffer.bytes ++
      (events.filterMap (Event.frame? h.isMasking)).flatMap wire

variable {h h' h'' : WebSocketHandler}

theorem Wrote.refl (h : WebSocketHandler) : Wrote h h := ⟨rfl, rfl, [], by simp, by simp, by simp⟩

theorem Wrote.trans (hw : Wrote h h') (hw' : Wrote h' h'') : Wrote h h'' := by
  obtain ⟨events, hlog, hfair, hout⟩ := hw.log
  obtain ⟨events', hlog', hfair', hout'⟩ := hw'.log
  rw [hw.isMasking] at hfair' hout'
  refine ⟨hw'.isMasking.trans hw.isMasking, hw'.isClient.trans hw.isClient, events ++ events',
    by rw [hlog', hlog, List.append_assoc], fun f hf => ?_, ?_⟩
  · rw [List.filterMap_append] at hf
    rcases List.mem_append.mp hf with hf | hf
    · exact hfair f hf
    · exact hfair' f hf
  · rw [hout', hout, List.filterMap_append, List.flatMap_append, List.append_assoc]

/-- What is looked at is the same. -/
theorem Wrote.congr (hw : Wrote h h') {g g' : WebSocketHandler}
    (hg : g.isMasking = h.isMasking ∧ g.isClient = h.isClient ∧ g.log = h.log ∧
      g.socket.outBuffer = h.socket.outBuffer)
    (hg' : g'.isMasking = h'.isMasking ∧ g'.isClient = h'.isClient ∧ g'.log = h'.log ∧
      g'.socket.outBuffer = h'.socket.outBuffer) : Wrote g g' := by
  obtain ⟨hm, hc, hl, ho⟩ := hg
  obtain ⟨hm', hc', hl', ho'⟩ := hg'
  refine ⟨by rw [hm', hw.isMasking, hm], by rw [hc', hw.isClient, hc], ?_⟩
  rw [hm, hl, ho, hl', ho']
  exact hw.log

/-- `sendFrame`, on any socket. -/
theorem sendFrame_spec (h : WebSocketHandler) {data : List UInt8} (hd : data.length < 2 ^ 31)
    (flags : UInt8) :
    h.sendFrame data flags = some (if data = [] ∨ h.socket.closed = true then h else
      { h with
        socket := { h.socket with
          outBuffer := h.socket.outBuffer.insertEnd (frameBytes h.isMasking flags data) }
        log := h.log ++ [.sent flags data] }) := by
  rw [sendFrame]
  by_cases h0 : data = []
  · rw [if_pos (by simp [h0]), if_pos (.inl h0)]
  · rw [if_neg fun hl => h0 (List.length_eq_zero_iff.mp hl)]
    cases hclosed : h.socket.closed with
    | true => simp
    | false =>
      rw [if_neg (by simp), buildFrame_eq _ hd, if_neg (by simp [h0])]
      rfl

/-- A fair frame is sent; what was read is as it was. -/
theorem wrote_sendFrame (h : WebSocketHandler) {data : List UInt8} (hd : data.length < 2 ^ 31)
    (code : UInt8)
    (hfair : data ≠ [] → Fair h.isMasking
      { fin := true, code := code, masked := h.isMasking, payload := data }) :
    ∃ h', h.sendFrame data (0x80 ||| code) = some h' ∧ Wrote h h' := by
  rw [sendFrame_spec h hd]
  refine ⟨_, rfl, ?_⟩
  by_cases hnone : data = [] ∨ h.socket.closed = true
  · rw [if_pos hnone]
    exact .refl h
  · have hf := hfair fun h0 => hnone (.inl h0)
    have hframe : [Event.sent (0x80 ||| code) data].filterMap (Event.frame? h.isMasking) =
        [{ fin := true, code := code, masked := h.isMasking, payload := data }] := by
      rw [List.filterMap_cons, Event.frame?, hf.code_eq]
      rfl
    rw [if_neg hnone]
    refine ⟨rfl, rfl, [.sent (0x80 ||| code) data], rfl, ?_, ?_⟩
    · rw [hframe]
      intro f hmem
      rw [List.mem_singleton.mp hmem]
      exact hf
    · rw [hframe, Buffer.bytes_insertEnd]
      simp [wire]

/-! ## What an end has read -/

/-- What was handed over and answered is as it was, and so is what is not read yet, or nothing is read
any more. -/
structure Keeps (h h' : WebSocketHandler) : Prop where
  messages : h'.messages = h.messages
  pongs : h'.pongs = h.pongs
  input : h'.socket.ignoreInput = false → h.socket.ignoreInput = false ∧
    h'.socket.inBuffer = h.socket.inBuffer ∧ h'.socket.closed = h.socket.closed ∧
    h'.wsPayload = h.wsPayload ∧ h'.inFragmentBlock = h.inFragmentBlock

theorem Keeps.refl (h : WebSocketHandler) : Keeps h h :=
  ⟨rfl, rfl, fun hreads => ⟨hreads, rfl, rfl, rfl, rfl⟩⟩

theorem keeps_sendFrame {data : List UInt8} {flags : UInt8} (hd : data.length < 2 ^ 31)
    (hflags : flags ≠ 0x80 ||| opPong) (heq : h.sendFrame data flags = some h') : Keeps h h' := by
  rw [sendFrame_spec h hd, Option.some.injEq] at heq
  subst heq
  split
  · exact .refl h
  · refine ⟨?_, ?_, fun hreads => ⟨hreads, rfl, rfl, rfl, rfl⟩⟩
    · simp [messages, Event.message?]
    · simp [pongs, Event.pong?, hflags]

/-- A frame of the application. -/
theorem sends_message (h : WebSocketHandler) {data : List UInt8} {code : UInt8}
    (hd : data.length < 2 ^ 31)
    (hcode : code = opText ∨ code = opBinary ∨ code = opPing ∧ data.length ≤ 125) :
    ∃ h', h.sendMessage data code = some h' ∧ Wrote h h' ∧ Keeps h h' := by
  obtain ⟨h', heq, hwrote⟩ := wrote_sendFrame h hd code fun h0 =>
    { fin := rfl
      masked := rfl
      content := h0
      short := hd
      kind := hcode.imp_right fun hcode => hcode.imp_right fun hping =>
        .inl ⟨.inl hping.1, hping.2⟩ }
  refine ⟨h', heq, hwrote, keeps_sendFrame hd ?_ heq⟩
  rcases hcode with rfl | rfl | ⟨rfl, -⟩
  all_goals decide

theorem sends_closeFrame (h : WebSocketHandler) (statusCode : Nat) {statusMessage : List UInt8}
    (hd : statusMessage.length + 2 < 2 ^ 31) :
    ∃ h', h.sendCloseFrame statusCode statusMessage = some h' ∧ Wrote h h' ∧ Keeps h h' := by
  rw [sendCloseFrame]
  split
  · exact ⟨h, rfl, .refl h, .refl h⟩
  · split
    · exact ⟨h, rfl, .refl h, .refl h⟩
    · have hlen : (UInt8.ofNat (statusCode >>> 8) :: UInt8.ofNat statusCode :: statusMessage).length <
          2 ^ 31 := by
        simpa using hd
      obtain ⟨h', heq, hwrote⟩ := wrote_sendFrame { h with shuttingDown := true } hlen
        opClose fun h0 =>
          { fin := rfl
            masked := rfl
            content := h0
            short := hlen
            kind := .inr (.inr (.inr ⟨rfl, by simp⟩)) }
      have hkeeps := keeps_sendFrame hlen (by decide) heq
      exact ⟨h', heq, hwrote.congr ⟨rfl, rfl, rfl, rfl⟩ ⟨rfl, rfl, rfl, rfl⟩,
        ⟨hkeeps.messages, hkeeps.pongs, hkeeps.input⟩⟩

theorem sends_shutdown (h : WebSocketHandler) (statusCode : Nat) {statusMessage : List UInt8}
    (hd : statusMessage.length + 2 < 2 ^ 31) :
    ∃ h', h.shutdown statusCode statusMessage = some h' ∧ Wrote h h' ∧ Keeps h h' := by
  have hfirst : ∃ g, (if h.shuttingDown then some h else h.sendCloseFrame statusCode statusMessage) =
      some g ∧ Wrote h g ∧ Keeps h g := by
    split
    · exact ⟨h, rfl, .refl h, .refl h⟩
    · exact sends_closeFrame h statusCode hd
  obtain ⟨g, heq, hwrote, hkeeps⟩ := hfirst
  rw [shutdown, heq, Option.map_some]
  refine ⟨_, rfl, hwrote.trans ⟨rfl, rfl, [.closed], rfl, ?_, ?_⟩, ?_⟩
  · simp [Event.frame?]
  · simp [Event.frame?]
  · refine ⟨?_, ?_, fun hreads => by simp at hreads⟩
    · rw [← hkeeps.messages]
      simp [messages, Event.message?]
    · rw [← hkeeps.pongs]
      simp [pongs, Event.pong?]

/-- What an end writes when it handles a frame. -/
theorem wrote_onFrame (hf : Fair isMasking f) (hfrag : h.inFragmentBlock = false)
    (heq : h.onFrame f = some h') : Wrote h h' := by
  have hshut : ∀ {code : Nat} {msg : List UInt8} {g : WebSocketHandler}, msg.length + 2 < 2 ^ 31 →
      h.shutdown code msg = some g → Wrote h g := by
    intro code msg g hd hg
    obtain ⟨g', hg', hwrote, -⟩ := sends_shutdown h code hd
    obtain rfl := Option.some.inj (hg'.symm.trans hg)
    exact hwrote
  have hshort := hf.short
  rw [onFrame] at heq
  split at heq
  · exact hshut (by decide) heq
  · split at heq
    · -- a control frame
      rw [controlFrame, hf.fin] at heq
      simp only [Bool.not_true, Bool.false_eq_true, if_false] at heq
      split at heq
      · exact hshut (by decide) heq
      · rename_i hlen
        split at heq
        · obtain rfl := Option.some.inj heq
          exact .refl h
        · split at heq
          · obtain ⟨g, hg, hwrote⟩ := wrote_sendFrame h hf.short opPong fun h0 =>
              { fin := rfl
                masked := rfl
                content := h0
                short := hf.short
                kind := .inr (.inr (.inl ⟨.inr rfl, Nat.not_lt.mp hlen⟩)) }
            obtain rfl := Option.some.inj (hg.symm.trans heq)
            exact hwrote
          · split at heq
            · rw [closeFrame] at heq
              split at heq
              · exact hshut (by decide) heq
              · split at heq
                · exact hshut (by decide) heq
                · simp only [Option.bind_eq_bind, Option.bind_eq_some_iff] at heq
                  obtain ⟨b0, -, b1, -, heq⟩ := heq
                  refine hshut ?_ heq
                  rw [List.length_drop]
                  omega
            · exact hshut (by decide) heq
    · rw [hfrag] at heq
      simp only [Bool.false_and, Bool.false_eq_true, if_false, Bool.not_false, Bool.true_and] at heq
      split at heq
      · exact hshut (by decide) heq
      · obtain rfl := Option.some.inj heq
        rw [hf.fin]
        exact ⟨rfl, rfl, [.message (h.wsPayload ++ f.payload)], rfl, by simp [Event.frame?],
          by simp [Event.frame?, dataFrame]⟩

/-- An end between two messages. -/
structure Between (h : WebSocketHandler) : Prop extends h.Live where
  inFragmentBlock : h.inFragmentBlock = false
  wsPayload : h.wsPayload = []

/-- **Frames of this program that are read**: they are handed over and answered up to the first Close
frame, where reading ends. -/
theorem onFrames_fair (hfs : ∀ f ∈ fs, Fair isMasking f) (hroles : (isMasking && h.isClient) = false)
    (hb : h.Between) :
    ∃ h' heard left, h.onFrames fs = some h' ∧ fs = heard ++ left ∧ Wrote h h' ∧
      h'.messages = h.messages ++ messagesOf heard ∧ h'.pongs = h.pongs ++ pings heard ∧
      (h'.socket.ignoreInput = false → left = [] ∧ h'.Between) := by
  induction fs generalizing h with
  | nil => exact ⟨h, [], [], rfl, rfl, .refl h, by simp [messagesOf], by simp [pings], fun _ => ⟨rfl, hb⟩⟩
  | cons f fs ih =>
    have hf := hfs f List.mem_cons_self
    have hcloses := hf.closes_eq hroles
    rw [← hb.inFragmentBlock] at hcloses
    rw [onFrames, if_neg (by simp [hb.reads])]
    cases hclose : f.code == opClose with
    | true =>
      rw [hclose] at hcloses
      have hlong : shortClose h.isClient h.shuttingDown f = false := by
        have hlen : 2 ≤ f.payload.length := by
          have hcode := eq_of_beq hclose
          rcases hf.kind with h | h | ⟨h | h, -⟩ | ⟨-, h⟩
          · rw [hcode] at h
            cases h
          · rw [hcode] at h
            cases h
          · rw [hcode] at h
            cases h
          · rw [hcode] at h
            cases h
          · exact h
        have hne : (f.payload.length == 1) = false := by
          rw [beq_eq_false_iff_ne]
          omega
        simp [shortClose, hne]
      have hshut := onFrame_shuts hb.toLive hcloses
      rw [if_neg (by simp [hlong])] at hshut
      obtain ⟨h', heq, hs⟩ := hshut
      obtain ⟨buf, hlog⟩ := hs.log
      refine ⟨h', [], f :: fs, by rw [heq, Option.bind_some, onFrames_of_ignoreInput hs.ignoresInput],
        rfl, wrote_onFrame hf hb.inFragmentBlock heq, ?_, ?_, ?_⟩
      · rw [messages, hlog]
        split <;> simp [messages, messagesOf, Event.message?]
      · rw [pongs, hlog]
        split <;> simp [pongs, pings, Event.pong?,
          show (0x80 ||| opClose : UInt8) ≠ 0x80 ||| opPong by decide]
      · intro hreads
        rw [hs.ignoresInput] at hreads
        cases hreads
    | false =>
      rw [hclose] at hcloses
      obtain ⟨g, heq, hg⟩ := onFrame_goes hb.toLive hcloses
      have hwrote := wrote_onFrame hf hb.inFragmentBlock heq
      have hbetween : g.Between :=
        { toLive := hg.live
          inFragmentBlock := by rw [hg.inFragmentBlock, hb.inFragmentBlock, hf.nextFragment_eq]
          wsPayload := by
            rw [hg.wsPayload, hb.wsPayload, hf.fin]
            split <;> rfl }
      obtain ⟨h', heard, left, heq', hsplit, hwrote', hmessages, hpongs, hreads⟩ :=
        ih (fun f' hf' => hfs f' (List.mem_cons_of_mem f hf')) (by rw [hg.isClient]; exact hroles) hbetween
      refine ⟨h', f :: heard, left, by rw [heq, Option.bind_some, heq'], by rw [hsplit]; rfl,
        hwrote.trans hwrote', ?_, ?_, hreads⟩
      · have hsingle : ∀ f' ∈ [f], Fair isMasking f' := by
          intro f' hf'
          rwa [List.mem_singleton.mp hf']
        have hone : g.messages = h.messages ++ messagesOf [f] := by
          rw [messages, hg.log, List.filterMap_append, frameEvents_messages, hb.wsPayload, hf.fin,
            ← assemble_fair hsingle, assemble, hf.fin]
          split <;> rfl
        rw [hmessages, hone, List.append_assoc, messagesOf, messagesOf, messagesOf, ← List.map_append,
          ← List.filter_append]
        rfl
      · have hone : g.pongs = h.pongs ++ pings [f] := by
          rw [pongs, hg.log, List.filterMap_append, frameEvents_pongs,
            filter_pings_fair (fun f' hf' => List.mem_singleton.mp hf' ▸ hf)]
          rfl
        rw [hpongs, hone, List.append_assoc, ← pings_cons]

/-! ## One direction -/

/-- What one end has sent, over what is on the wire, to what the other has dealt with: `done` are the
frames that the other end has handed over and answered, `rest` all others. As long as it reads, it has
dealt with all whose bytes it does not hold. -/
structure Flows (h : WebSocketHandler) (bytes : List UInt8) (peer : WebSocketHandler) : Prop where
  roles : (h.isMasking && peer.isClient) = false
  fair : ∀ f ∈ h.outFrames, Fair h.isMasking f
  split : ∃ done rest, h.outFrames = done ++ rest ∧ peer.messages = messagesOf done ∧
    peer.pongs = pings done ∧
    (peer.socket.ignoreInput = false → peer.Between ∧ framing.next peer.socket.inBuffer.bytes = none ∧
      peer.socket.inBuffer.bytes ++ (bytes ++ h.socket.outBuffer.bytes) = rest.flatMap WebSocketHandler.wire)

variable {peer peer' : WebSocketHandler} {bytes : List UInt8}

/-- More is sent. -/
theorem Flows.wrote (hflows : Flows h bytes peer) (hw : Wrote h h') : Flows h' bytes peer := by
  obtain ⟨events, hlog, hfair, hout⟩ := hw.log
  obtain ⟨done, rest, hframes, hmessages, hpongs, hreads⟩ := hflows.split
  have hmore : h'.outFrames = h.outFrames ++ events.filterMap (Event.frame? h.isMasking) := by
    rw [outFrames, hw.isMasking, hlog, List.filterMap_append, outFrames]
  refine ⟨hw.isMasking ▸ hflows.roles, ?_, done, _, by rw [hmore, hframes, List.append_assoc],
    hmessages, hpongs, fun hopen => ?_⟩
  · rw [hmore, hw.isMasking]
    intro f hf
    rcases List.mem_append.mp hf with hf | hf
    · exact hflows.fair f hf
    · exact hfair f hf
  · obtain ⟨hbetween, hnext, hbytes⟩ := hreads hopen
    refine ⟨hbetween, hnext, ?_⟩
    rw [hout, List.flatMap_append, ← hbytes]
    simp

/-- The other end does something that is not reading. -/
theorem Flows.keeps (hflows : Flows h bytes peer) (hk : Keeps peer peer')
    (hclient : peer'.isClient = peer.isClient) : Flows h bytes peer' := by
  obtain ⟨done, rest, hframes, hmessages, hpongs, hreads⟩ := hflows.split
  refine ⟨hclient ▸ hflows.roles, hflows.fair, done, rest, hframes, hk.messages.trans hmessages,
    hk.pongs.trans hpongs, fun hopen => ?_⟩
  obtain ⟨hopen', hbuffer, hclosed, hpayload, hfragment⟩ := hk.input hopen
  obtain ⟨hbetween, hnext, hbytes⟩ := hreads hopen'
  rw [hbuffer]
  exact ⟨⟨⟨hclosed.trans hbetween.open_, hopen⟩, hfragment.trans hbetween.inFragmentBlock,
    hpayload.trans hbetween.wsPayload⟩, hnext, hbytes⟩

/-- **A poll**, in which some of the bytes on the wire are read. -/
theorem Flows.handlePoll (hflows : Flows h bytes peer) (n : Nat) :
    ∃ peer', peer.handlePoll (bytes.take n) = some peer' ∧ Wrote peer peer' ∧
      Flows h (bytes.drop n) peer' := by
  obtain ⟨done, rest, hframes, hmessages, hpongs, hreads⟩ := hflows.split
  cases hopen : peer.socket.ignoreInput with
  | true =>
    rw [WebSocketHandler.handlePoll, if_pos hopen]
    refine ⟨_, rfl, (Wrote.refl peer).congr ⟨rfl, rfl, rfl, rfl⟩ ⟨rfl, rfl, rfl, rfl⟩, hflows.roles,
      hflows.fair, done, rest, hframes, hmessages, hpongs, fun hreading => ?_⟩
    exact absurd (hreading.symm.trans hopen) Bool.false_ne_true
  | false =>
    obtain ⟨hbetween, hnext, hbytes⟩ := hreads hopen
    -- the bytes that are there now are the first of those to come
    have hthere : peer.socket.inBuffer.bytes ++ bytes.take n ++
        (bytes.drop n ++ h.socket.outBuffer.bytes) = rest.flatMap WebSocketHandler.wire := by
      rw [← hbytes, List.append_assoc, ← List.append_assoc (bytes.take n), List.take_append_drop]
    have hfair : ∀ f ∈ rest, Fair h.isMasking f := fun f hf =>
      hflows.fair f (by rw [hframes]; exact List.mem_append_right _ hf)
    obtain ⟨now, later, rfl, hitems, hpending⟩ :=
      framing.split_take (fun f hf more => (hfair f hf).next more) hthere
    have hpoll : peer.handlePoll (bytes.take n) =
        handleIncomingMessage ((peer.socket.inBuffer.insertEnd (bytes.take n)).size + 1)
          (peer.setInput (peer.socket.inBuffer.insertEnd (bytes.take n))) := by
      rw [WebSocketHandler.handlePoll, if_neg (by simp [hopen])]
      rfl
    obtain ⟨hcore, hdrained⟩ := handleIncomingMessage_core
      (peer.socket.inBuffer.bytes ++ bytes.take n)
      (h := peer.setInput (peer.socket.inBuffer.insertEnd (bytes.take n)))
      ⟨hbetween.open_, hbetween.reads⟩ (Buffer.bytes_insertEnd _ _)
      (show (peer.socket.inBuffer.bytes ++ bytes.take n).length <
          (peer.socket.inBuffer.insertEnd (bytes.take n)).size + 1 by
        rw [← Buffer.length_bytes, Buffer.bytes_insertEnd]; omega)
    rw [← hpoll, show frames _ = now from hitems] at hcore
    rw [← hpoll] at hdrained
    obtain ⟨g, heard, left, heq, rfl, hwrote, hmsg, hpong, hstays⟩ :=
      onFrames_fair (h := (peer.setInput (peer.socket.inBuffer.insertEnd (bytes.take n))).core)
        (fun f hf => hfair f (List.mem_append_left _ hf)) hflows.roles
        ⟨⟨rfl, hopen⟩, hbetween.inFragmentBlock, hbetween.wsPayload⟩
    rw [heq] at hcore
    obtain ⟨peer', hpeer', rfl⟩ := Option.map_eq_some_iff.mp hcore
    have hwrote' : Wrote peer peer' := hwrote.congr ⟨rfl, rfl, rfl, rfl⟩ ⟨rfl, rfl, rfl, rfl⟩
    refine ⟨peer', hpeer', hwrote', by rw [hwrote'.isClient]; exact hflows.roles, hflows.fair,
      done ++ heard, left ++ later, by rw [hframes]; simp, ?_, ?_, fun hreading => ?_⟩
    · rw [show peer'.messages = peer.messages ++ messagesOf heard from hmsg, hmessages]
      simp [messagesOf]
    · rw [show peer'.pongs = peer.pongs ++ pings heard from hpong, hpongs]
      simp [pings]
    · obtain ⟨rfl, hbetween'⟩ := hstays hreading
      rcases hdrained peer' hpeer' with ⟨hlive, hin⟩ | hignore
      · exact ⟨⟨hlive, hbetween'.inFragmentBlock, hbetween'.wsPayload⟩,
          by rw [hin, framing.next_pending], by rw [hin]; exact hpending⟩
      · exact absurd (hreading.symm.trans hignore) Bool.false_ne_true

/-- The socket takes some bytes. -/
theorem Flows.write (hflows : Flows h bytes peer) (n : Nat) :
    Flows { h with socket := { h.socket with outBuffer := h.socket.outBuffer.eraseFirst n } }
      (bytes ++ h.socket.outBuffer.bytes.take n) peer := by
  obtain ⟨done, rest, hframes, hmessages, hpongs, hreads⟩ := hflows.split
  refine ⟨hflows.roles, hflows.fair, done, rest, hframes, hmessages, hpongs, fun hopen => ?_⟩
  obtain ⟨hbetween, hnext, hbytes⟩ := hreads hopen
  refine ⟨hbetween, hnext, ?_⟩
  rw [Buffer.bytes_eraseFirst, List.append_assoc bytes, List.take_append_drop]
  exact hbytes

theorem flatMap_wire_eq_nil (hfs : ∀ f ∈ fs, Fair isMasking f) (h : fs.flatMap wire = []) : fs = [] := by
  cases fs with
  | nil => rfl
  | cons f fs =>
    rw [List.flatMap_cons] at h
    exact absurd (List.append_eq_nil_iff.mp h).1 (hfs f List.mem_cons_self).wire_ne

end WebSocketHandler

namespace Link

open WebSocketHandler

variable {l : Link}

/-- Both directions flow. -/
def Inv (l : Link) : Prop := ∀ side, Flows (l.handler side) (l.wire side) (l.handler !side)

theorem Inv.delivers (h : Inv l) (side : Bool) : l.Delivers side := by
  obtain ⟨done, rest, hframes, hmessages, hpongs, hreads⟩ := (h side).split
  have hfair := (h side).fair
  refine ⟨?_, ?_, fun hopen hsilent => ?_⟩
  · rw [hmessages, hframes, messagesOf, messagesOf, List.filter_append, List.map_append]
    exact List.prefix_append _ _
  · rw [hpongs, hframes, pings, pings, List.filter_append, List.map_append]
    exact List.prefix_append _ _
  · obtain ⟨hout, hwire, hin⟩ := hsilent
    obtain ⟨-, -, hbytes⟩ := hreads hopen
    rw [hout, hwire, hin] at hbytes
    rw [hframes] at hfair
    obtain rfl := flatMap_wire_eq_nil (fun f hf => hfair f (List.mem_append_right _ hf)) hbytes.symm
    rw [hframes, List.append_nil]
    exact ⟨hmessages, hpongs⟩

/-- One end changes, and its wires. -/
theorem inv_of_flows (l : Link) {l' : Link} (side : Bool)
    (hother : l'.handler (!side) = l.handler !side)
    (hout : Flows (l'.handler side) (l'.wire side) (l.handler !side))
    (hin : Flows (l.handler !side) (l'.wire !side) (l'.handler side)) : Inv l' := by
  intro s
  by_cases hs : s = side
  · subst hs
    rw [hother]
    exact hout
  · obtain rfl : s = !side := Bool.eq_not_of_ne hs
    rw [hother, Bool.not_not]
    exact hin

theorem Inv.set (h : Inv l) (side : Bool) {g : WebSocketHandler} (hwrote : Wrote (l.handler side) g)
    (hkeeps : Keeps (l.handler side) g) : Inv (l.set side g) := by
  have hin := h !side
  rw [Bool.not_not] at hin
  refine inv_of_flows l side ?_ ?_ ?_
  · cases side <;> rfl
  · simp only [Link.set, Function.update_self]
    exact (h side).wrote hwrote
  · simp only [Link.set, Function.update_self]
    exact hin.keeps hkeeps hwrote.isClient

theorem Inv.act (h : Inv l) {a : Action} (ha : a.Short) : ∃ l', act l a = some l' ∧ Inv l' := by
  have hsend : ∀ (side : Bool) (r : Option WebSocketHandler),
      (∃ g, r = some g ∧ Wrote (l.handler side) g ∧ Keeps (l.handler side) g) →
      ∃ l', r.map (l.set side) = some l' ∧ Inv l' := by
    rintro side r ⟨g, rfl, hwrote, hkeeps⟩
    exact ⟨_, rfl, h.set side hwrote hkeeps⟩
  cases a with
  | sendTextMessage side data => exact hsend side _ (sends_message _ ha (.inl rfl))
  | sendBinaryMessage side data => exact hsend side _ (sends_message _ ha (.inr (.inl rfl)))
  | sendPing side =>
    exact hsend side _ (sends_message _ (by decide) (.inr (.inr ⟨rfl, by decide⟩)))
  | sendCloseFrame side code message => exact hsend side _ (sends_closeFrame _ code ha)
  | shutdown side code message => exact hsend side _ (sends_shutdown _ code ha)
  | write side n =>
    refine ⟨_, rfl, inv_of_flows l side ?_ ?_ ?_⟩
    · cases side <;> rfl
    · simp only [Link.set, Function.update_self]
      exact (h side).write n
    · have hin := h !side
      rw [Bool.not_not] at hin
      have hne : (!side) ≠ side := by cases side <;> decide
      simp only [Link.set, Function.update_self, Function.update_of_ne hne]
      exact hin.keeps ⟨rfl, rfl, fun hreads => ⟨hreads, rfl, rfl, rfl, rfl⟩⟩ rfl
  | read side n =>
    have hin := h !side
    rw [Bool.not_not] at hin
    have hne : side ≠ !side := by cases side <;> decide
    obtain ⟨g, hg, hwrote, hflows⟩ := hin.handlePoll n
    refine ⟨_, by rw [Link.act, hg, Option.map_some], inv_of_flows l side ?_ ?_ ?_⟩
    · cases side <;> rfl
    · simp only [Link.set, Function.update_self, Function.update_of_ne hne]
      exact (h side).wrote hwrote
    · simp only [Link.set, Function.update_self]
      exact hflows

theorem inv_start (clientIsMasking serverIsMasking : Bool) :
    Inv (start clientIsMasking serverIsMasking) := by
  intro side
  cases side with
  | true =>
    refine ⟨by simp [start, new], by simp [start, new, outFrames], [], [], rfl, rfl, rfl, fun _ => ?_⟩
    exact ⟨⟨⟨rfl, rfl⟩, rfl, rfl⟩, framing.next_nil, rfl⟩
  | false =>
    refine ⟨by simp [start, new], by simp [start, new, outFrames], [], [], rfl, rfl, rfl, fun _ => ?_⟩
    exact ⟨⟨⟨rfl, rfl⟩, rfl, rfl⟩, framing.next_nil, rfl⟩

/-- **Both ends are handed what the other sends**, in every order of sending, writing, reading and
closing, and memory is never read where there is none. -/
theorem delivers_always (clientIsMasking serverIsMasking : Bool) (as : List Action)
    (h : ∀ a ∈ as, a.Short) :
    ∃ l, as.foldlM act (start clientIsMasking serverIsMasking) = some l ∧ ∀ side, l.Delivers side := by
  have hrun : ∀ {l : Link} {as : List Action}, Inv l → (∀ a ∈ as, a.Short) →
      ∃ l', as.foldlM act l = some l' ∧ Inv l' := by
    intro l as
    induction as generalizing l with
    | nil => exact fun hl _ => ⟨l, rfl, hl⟩
    | cons a as ih =>
      intro hl has
      obtain ⟨l₁, heq, hl₁⟩ := hl.act (has a List.mem_cons_self)
      obtain ⟨l₂, heq', hl₂⟩ := ih hl₁ fun b hb => has b (List.mem_cons_of_mem a hb)
      exact ⟨l₂, by rw [List.foldlM_cons, heq]; exact heq', hl₂⟩
  obtain ⟨l, heq, hl⟩ := hrun (inv_start clientIsMasking serverIsMasking) h
  exact ⟨l, heq, hl.delivers⟩

/-- A masking client sends while the server asks whether it is there and then goes. -/
def goodbye : List Action :=
  [.sendTextMessage true [104, 105], .write true 5, .read false 3, .sendPing false, .write true 100,
    .sendBinaryMessage true [7], .write false 9, .read false 100, .read true 100,
    .shutdown false normalClose [], .write true 100, .write false 100, .read true 100]

theorem delivers_goodbye :
    ∃ l, goodbye.foldlM act (start true false) = some l ∧ ∀ side, l.Delivers side :=
  delivers_always true false goodbye (by simp [goodbye, Action.Short])

end Link

end Oxool.Net
