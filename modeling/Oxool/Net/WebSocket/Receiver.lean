import Oxool.Net.WebSocket.Frame

/-!
# The receiver

What a connection does with the frames of the peer, first one frame at a time (`onFrame_goes`,
`onFrame_shuts`), then over the whole stream and however it is cut into reads (`receive_core`).

The events a stream should cause are stated without the receiver: `handled` are the frames before
the one that ends the connection, `assemble` joins the fragments among them, and every Ping among
them is owed a Pong. The receiver falls short of this in two places: an empty Ping is not answered,
because `sendFrame` drops empty payloads, and the status code of a Close frame with a one-byte
payload is read past the payload's end.
-/

set_option autoImplicit false

namespace Oxool.Net

/-! ## What the frames of a stream ask for -/

/-- The rules by which a frame ends the connection. -/
def closes (isClient inFragmentBlock : Bool) (f : Frame) : Bool :=
  f.masked && isClient ||
    if f.code ≥ opClose then
      !f.fin || decide (f.payload.length > 125) || (f.code != opPong && f.code != opPing)
    else if inFragmentBlock then f.code != opContinuation
    else f.code == opContinuation

/-- Whether a message is unfinished after a frame that does not end the connection. -/
def nextFragment (inFragmentBlock : Bool) (f : Frame) : Bool :=
  if f.code ≥ opClose then inFragmentBlock else !f.fin

/-- The frames before the one that ends the connection. -/
def handled (isClient : Bool) : Bool → List Frame → List Frame
  | _, [] => []
  | inFragmentBlock, f :: fs =>
    if closes isClient inFragmentBlock f then []
    else f :: handled isClient (nextFragment inFragmentBlock f) fs

/-- The frame that ends the connection. -/
def closing (isClient : Bool) : Bool → List Frame → Option Frame
  | _, [] => none
  | inFragmentBlock, f :: fs =>
    if closes isClient inFragmentBlock f then some f
    else closing isClient (nextFragment inFragmentBlock f) fs

/-- The messages of some frames: the concatenated payloads of the data frames up to each final
one, with the control frames between them passed over. -/
def assemble : List UInt8 → List Frame → List (List UInt8)
  | _, [] => []
  | acc, f :: fs =>
    if f.code ≥ opClose then assemble acc fs
    else if f.fin then (acc ++ f.payload) :: assemble [] fs
    else assemble (acc ++ f.payload) fs

/-- The payloads of the Pings. -/
def pings (fs : List Frame) : List (List UInt8) :=
  (fs.filter fun f => f.code == opPing).map Frame.payload

/-- A Close frame that ends the connection in an orderly way and whose payload is a single byte,
too short for a status code. -/
def shortClose (isClient shuttingDown : Bool) (f : Frame) : Bool :=
  !(f.masked && isClient) && f.fin && f.code == opClose && f.payload.length == 1 && !shuttingDown

/-! ## What was observed -/

def Event.message? : Event → Option (List UInt8)
  | .message data => some data
  | _ => none

def Event.pong? : Event → Option (List UInt8)
  | .sent flags data => if flags = 0x80 ||| opPong then some data else none
  | _ => none

def Event.isCloseFrame : Event → Bool
  | .sent flags _ => flags == 0x80 ||| opClose
  | _ => false

namespace WebSocketHandler

def messages (h : WebSocketHandler) : List (List UInt8) := h.log.filterMap Event.message?
def pongs (h : WebSocketHandler) : List (List UInt8) := h.log.filterMap Event.pong?
def closeFrames (h : WebSocketHandler) : Nat := h.log.countP Event.isCloseFrame

/-! ## One frame -/

/-- The events of a frame that does not end the connection. -/
def frameEvents (wsPayload : List UInt8) (f : Frame) : List Event :=
  if f.code ≥ opClose then
    if f.code = opPing ∧ f.payload ≠ [] then [.sent (0x80 ||| opPong) f.payload] else []
  else if f.fin then [.message (wsPayload ++ f.payload)] else []

/-- What a frame that does not end the connection does. -/
structure Goes (h : WebSocketHandler) (f : Frame) (h' : WebSocketHandler) : Prop where
  live : h'.Live
  inBuffer : h'.socket.inBuffer = h.socket.inBuffer
  isClient : h'.isClient = h.isClient
  shuttingDown : h'.shuttingDown = h.shuttingDown
  inFragmentBlock : h'.inFragmentBlock = nextFragment h.inFragmentBlock f
  wsPayload : h'.wsPayload =
    if f.code ≥ opClose then h.wsPayload else if f.fin then [] else h.wsPayload ++ f.payload
  log : h'.log = h.log ++ frameEvents h.wsPayload f

/-- What a frame that ends the connection does. -/
structure Shuts (h h' : WebSocketHandler) : Prop where
  ignoresInput : h'.socket.ignoreInput = true
  open_ : h'.socket.closed = false
  cleared : h'.socket.inBuffer = .empty
  log : ∃ buf, h'.log = h.log ++
    ((if h.shuttingDown then [] else [.sent (0x80 ||| opClose) buf]) ++ [.closed])

theorem sendFrame_eq {h : WebSocketHandler} (hl : h.Live) {data : List UInt8}
    (hd : data.length < 2 ^ 31) (flags : UInt8) :
    h.sendFrame data flags = some (if data = [] then h else
      { h with
        socket := { h.socket with
          outBuffer := h.socket.outBuffer.insertEnd (frameBytes h.isMasking flags data) }
        log := h.log ++ [.sent flags data] }) := by
  unfold sendFrame
  by_cases h0 : data = []
  · simp [h0]
  · rw [if_neg fun h => h0 (List.length_eq_zero_iff.mp h), if_neg (by simp [hl.open_]),
      buildFrame_eq _ hd, if_neg h0]
    rfl

theorem shutdown_shuts {h : WebSocketHandler} (hl : h.Live) (code : Nat) {msg : List UInt8}
    (hm : msg.length < 2 ^ 16) : ∃ h', h.shutdown code msg = some h' ∧ h.Shuts h' := by
  unfold shutdown
  cases hs : h.shuttingDown with
  | true => exact ⟨_, rfl, rfl, hl.open_, rfl, [], by simp [hs]⟩
  | false =>
    have hlive : { h with shuttingDown := true }.Live := ⟨hl.open_, hl.reads⟩
    simp only [Bool.false_eq_true, if_false, sendCloseFrame, hl.open_, hs]
    rw [sendFrame_eq hlive (by simp only [List.length_cons]; omega), if_neg (by simp)]
    exact ⟨_, rfl, rfl, hl.open_, rfl, UInt8.ofNat (code >>> 8) :: UInt8.ofNat code :: msg,
      by simp [hs]⟩

/-- A frame that does not end the connection is delivered, kept or answered. -/
theorem onFrame_goes {h : WebSocketHandler} (hl : h.Live) {f : Frame}
    (hc : closes h.isClient h.inFragmentBlock f = false) :
    ∃ h', h.onFrame f = some h' ∧ h.Goes f h' := by
  obtain ⟨hmask, hrules⟩ := Bool.or_eq_false_iff.mp hc
  unfold onFrame
  rw [if_neg (by rw [hmask]; decide)]
  by_cases hctl : f.code ≥ opClose
  · rw [if_pos hctl] at hrules ⊢
    obtain ⟨hfin, hcode⟩ := Bool.or_eq_false_iff.mp hrules
    obtain ⟨hfin, hlen⟩ := Bool.or_eq_false_iff.mp hfin
    have hlen' : f.payload.length ≤ 125 := by simpa using hlen
    unfold controlFrame
    rw [if_neg (by rw [hfin]; decide), if_neg (by omega)]
    by_cases hpong : f.code = opPong
    · rw [if_pos hpong]
      have hping : f.code ≠ opPing := by rw [hpong]; decide
      exact ⟨h, rfl, hl, rfl, rfl, rfl, by simp [nextFragment, hctl], by simp [hctl],
        by simp [frameEvents, hctl, hping]⟩
    · have hping : f.code = opPing := by
        simp only [Bool.and_eq_false_iff, bne_eq_false_iff_eq] at hcode
        exact hcode.resolve_left hpong
      rw [if_neg hpong, if_pos hping, sendPong, sendMessage, sendFrame_eq hl (by omega)]
      refine ⟨_, rfl, ?_⟩
      by_cases h0 : f.payload = []
      · rw [if_pos h0]
        exact ⟨hl, rfl, rfl, rfl, by simp [nextFragment, hctl], by simp [hctl],
          by simp [frameEvents, hctl, h0]⟩
      · rw [if_neg h0]
        exact ⟨⟨hl.open_, hl.reads⟩, rfl, rfl, rfl, by simp [nextFragment, hctl], by simp [hctl],
          by rw [frameEvents, if_pos hctl, if_pos ⟨hping, h0⟩]⟩
  · rw [if_neg hctl] at hrules ⊢
    have hcont : (h.inFragmentBlock && f.code != opContinuation) = false ∧
        (!h.inFragmentBlock && f.code == opContinuation) = false := by
      cases hb : h.inFragmentBlock <;> simp_all
    rw [hcont.1, hcont.2]
    refine ⟨_, rfl, ?_⟩
    cases hfin : f.fin with
    | true =>
      exact ⟨⟨hl.open_, hl.reads⟩, rfl, rfl, rfl, by simp [nextFragment, hctl, hfin, dataFrame],
        by simp [hctl, hfin, dataFrame], by simp [frameEvents, hctl, hfin, dataFrame]⟩
    | false =>
      exact ⟨⟨hl.open_, hl.reads⟩, rfl, rfl, rfl, by simp [nextFragment, hctl, hfin, dataFrame],
        by simp [hctl, hfin, dataFrame], by simp [frameEvents, hctl, hfin, dataFrame]⟩

/-- A Close frame ends the connection, and reads past its payload exactly when that is one byte
that is to be echoed. -/
theorem closeFrame_shuts {h : WebSocketHandler} (hl : h.Live) {payload : List UInt8}
    (hp : payload.length ≤ 125) :
    if payload.length = 1 ∧ h.shuttingDown = false then h.closeFrame payload = none
    else ∃ h', h.closeFrame payload = some h' ∧ h.Shuts h' := by
  have hnormal := shutdown_shuts hl normalClose (show ([] : List UInt8).length < 2 ^ 16 by decide)
  unfold closeFrame
  cases hs : h.shuttingDown with
  | true => simpa using hnormal
  | false =>
    match payload, hp with
    | [], _ => simpa using hnormal
    | [b], _ => simp
    | b0 :: b1 :: msg, hp =>
      simp only [List.length_cons] at hp
      rw [if_neg (by simp)]
      exact shutdown_shuts hl _ (by simp only [List.drop_succ_cons, List.drop_zero]; omega)

/-- A frame that ends the connection does so with a defined outcome, unless its status code is
cut short. -/
theorem onFrame_shuts {h : WebSocketHandler} (hl : h.Live) {f : Frame}
    (hc : closes h.isClient h.inFragmentBlock f = true) :
    if shortClose h.isClient h.shuttingDown f then h.onFrame f = none
    else ∃ h', h.onFrame f = some h' ∧ h.Shuts h' := by
  have herror := shutdown_shuts hl protocolError (show ([] : List UInt8).length < 2 ^ 16 by decide)
  unfold onFrame
  by_cases hmask : (f.masked && h.isClient) = true
  · rw [if_pos hmask, if_neg (by simp [shortClose, hmask])]
    exact herror
  · rw [if_neg hmask]
    by_cases hctl : f.code ≥ opClose
    · rw [if_pos hctl]
      unfold controlFrame
      cases hfin : f.fin with
      | false =>
        rw [if_neg (by simp [shortClose, hfin])]
        exact herror
      | true =>
        by_cases hlen : f.payload.length > 125
        · rw [if_pos hlen, if_neg (by simp [shortClose]; omega)]
          exact herror
        · have hcode : f.code ≠ opPong ∧ f.code ≠ opPing := by
            simpa [closes, hctl, hfin, hlen, hmask] using hc
          rw [if_neg hlen, if_neg hcode.1, if_neg hcode.2]
          by_cases hclose : f.code = opClose
          · have := closeFrame_shuts hl (Nat.le_of_not_lt hlen)
            simpa [shortClose, hmask, hfin, hclose] using this
          · rw [if_neg hclose, if_neg (by simp [shortClose, hclose])]
            exact herror
    · have hclose : f.code ≠ opClose := fun h => hctl (by simp [h])
      rw [if_neg hctl, if_neg (by simp [shortClose, hclose])]
      have hrules : (if h.inFragmentBlock then f.code != opContinuation
          else f.code == opContinuation) = true := by
        simpa [closes, hctl, hmask] using hc
      cases hb : h.inFragmentBlock with
      | true =>
        rw [hb] at hrules
        simp only [if_true] at hrules
        rw [if_pos (by rw [hrules]; rfl)]
        exact herror
      | false =>
        rw [hb] at hrules
        simp only [Bool.false_eq_true, if_false] at hrules
        rw [if_neg (by simp), if_pos (by rw [hrules]; rfl)]
        exact herror

/-! ## A stream of frames -/

/-- Frames handled one after the other until one ends the connection. -/
def onFrames : WebSocketHandler → List Frame → Option WebSocketHandler
  | h, [] => some h
  | h, f :: fs => if h.socket.ignoreInput then some h else (h.onFrame f).bind (onFrames · fs)

theorem onFrames_of_ignoreInput {h : WebSocketHandler} (hi : h.socket.ignoreInput = true)
    (fs : List Frame) : h.onFrames fs = some h := by
  cases fs with
  | nil => rfl
  | cons f fs => rw [onFrames, if_pos hi]

theorem onFrames_append (fs gs : List Frame) : ∀ h : WebSocketHandler,
    h.onFrames (fs ++ gs) = (h.onFrames fs).bind (onFrames · gs) := by
  induction fs with
  | nil => intro h; rfl
  | cons f fs ih =>
    intro h
    simp only [List.cons_append, onFrames]
    split
    · rename_i hi
      rw [Option.bind_some, onFrames_of_ignoreInput hi]
    · rw [Option.bind_assoc]
      exact congrArg _ (funext ih)

/-- What a stream of frames does to a connection that is open when it starts. -/
structure Receives (h : WebSocketHandler) (fs : List Frame) (h' : WebSocketHandler) : Prop where
  messages : h'.messages = h.messages ++ assemble h.wsPayload (handled h.isClient h.inFragmentBlock fs)
  pongs : h'.pongs = h.pongs ++
    (pings (handled h.isClient h.inFragmentBlock fs)).filter (· ≠ [])
  closeFrames : h'.closeFrames ≤ h.closeFrames + if h.shuttingDown then 0 else 1
  stays : closing h.isClient h.inFragmentBlock fs = none → h'.Live ∧
    ∃ events, h'.log = h.log ++ events ∧ ∀ e ∈ events, e ≠ .closed ∧ e.isCloseFrame = false

theorem pings_cons (f : Frame) (fs : List Frame) : pings (f :: fs) = pings [f] ++ pings fs := by
  rw [pings, pings, pings, ← List.map_append, ← List.filter_append]
  rfl

theorem frameEvents_messages (wsPayload : List UInt8) (f : Frame) :
    (frameEvents wsPayload f).filterMap Event.message? =
      if f.code ≥ opClose then [] else if f.fin then [wsPayload ++ f.payload] else [] := by
  unfold frameEvents
  split
  · split <;> rfl
  · split <;> rfl

theorem frameEvents_pongs (wsPayload : List UInt8) (f : Frame) :
    (frameEvents wsPayload f).filterMap Event.pong? = (pings [f]).filter (· ≠ []) := by
  unfold frameEvents pings
  by_cases hping : f.code = opPing
  · rw [if_pos (show f.code ≥ opClose by rw [hping]; decide)]
    by_cases h0 : f.payload = []
    · simp [hping, h0]
    · rw [if_pos ⟨hping, h0⟩]
      simp [hping, h0, Event.pong?]
  · have hnone : ((frameEvents wsPayload f).filterMap Event.pong?) = [] := by
      unfold frameEvents
      split
      · rw [if_neg fun h => hping h.1]
        rfl
      · split <;> rfl
    simpa [hping, frameEvents] using hnone

theorem frameEvents_open (wsPayload : List UInt8) (f : Frame) :
    ∀ e ∈ frameEvents wsPayload f, e ≠ .closed ∧ e.isCloseFrame = false := by
  unfold frameEvents
  split
  · split
    · simp [Event.isCloseFrame, show (0x80 ||| opPong : UInt8) ≠ 0x80 ||| opClose by decide]
    · simp
  · split <;> simp [Event.isCloseFrame]

theorem frameEvents_closeFrames (wsPayload : List UInt8) (f : Frame) :
    (frameEvents wsPayload f).countP Event.isCloseFrame = 0 :=
  List.countP_eq_zero.mpr fun e he => by simp [(frameEvents_open wsPayload f e he).2]

/-- **A stream of frames**, by induction along it. -/
theorem onFrames_receives (fs : List Frame) : ∀ {h : WebSocketHandler}, h.Live →
    if (closing h.isClient h.inFragmentBlock fs).any (shortClose h.isClient h.shuttingDown) then
      h.onFrames fs = none
    else ∃ h', h.onFrames fs = some h' ∧ h.Receives fs h' := by
  induction fs with
  | nil =>
    intro h hl
    exact ⟨h, rfl, by simp [handled, assemble], by simp [handled, pings], Nat.le_add_right _ _,
      fun _ => ⟨hl, [], by simp, by simp⟩⟩
  | cons f fs ih =>
    intro h hl
    have hreads := hl.reads
    simp only [onFrames, hreads, Bool.false_eq_true, if_false, closing]
    cases hc : closes h.isClient h.inFragmentBlock f with
    | true =>
      have hshut := onFrame_shuts hl hc
      simp only [if_true, Option.any_some]
      cases hshort : shortClose h.isClient h.shuttingDown f with
      | true =>
        simp only [hshort, if_true] at hshut ⊢
        rw [hshut]
        rfl
      | false =>
        simp only [hshort, Bool.false_eq_true, if_false] at hshut ⊢
        obtain ⟨h', heq, hs⟩ := hshut
        obtain ⟨buf, hlog⟩ := hs.log
        refine ⟨h', by rw [heq, Option.bind_some, onFrames_of_ignoreInput hs.ignoresInput], ?_⟩
        have hnone : handled h.isClient h.inFragmentBlock (f :: fs) = [] := by
          rw [handled, if_pos hc]
        refine ⟨?_, ?_, ?_, fun hopen => absurd hopen (by simp [closing, hc])⟩
        · rw [hnone, messages, hlog]
          split <;> simp [messages, assemble, Event.message?]
        · rw [hnone, pongs, hlog]
          split <;> simp [pongs, pings, Event.pong?, show (0x80 ||| opClose : UInt8) ≠ 0x80 ||| opPong by decide]
        · rw [closeFrames, hlog]
          split <;> simp [closeFrames, Event.isCloseFrame]
    | false =>
      obtain ⟨h', heq, hg⟩ := onFrame_goes hl hc
      have hrest := ih hg.live
      have hcons : handled h.isClient h.inFragmentBlock (f :: fs) =
          f :: handled h.isClient (nextFragment h.inFragmentBlock f) fs := by
        rw [handled, if_neg (by rw [hc]; decide)]
      rw [hg.isClient, hg.shuttingDown, hg.inFragmentBlock] at hrest
      simp only [Bool.false_eq_true, if_false, heq, Option.bind_some]
      split
      · rename_i hshort
        rwa [if_pos hshort] at hrest
      · rename_i hshort
        rw [if_neg hshort] at hrest
        obtain ⟨h'', heq', hr⟩ := hrest
        refine ⟨h'', heq', ?_, ?_, ?_, fun hopen => ?_⟩
        · rw [hr.messages, hcons, hg.isClient, hg.inFragmentBlock, hg.wsPayload, messages, hg.log,
            List.filterMap_append, frameEvents_messages, assemble, List.append_assoc]
          congr 1
          split
          · rfl
          · split <;> rfl
        · rw [hr.pongs, hcons, hg.isClient, hg.inFragmentBlock, pongs, hg.log,
            List.filterMap_append, frameEvents_pongs, List.append_assoc, ← List.filter_append,
            ← pings_cons]
          rfl
        · have := hr.closeFrames
          rw [hg.shuttingDown, closeFrames, closeFrames, hg.log, List.countP_append,
            frameEvents_closeFrames, Nat.add_zero] at this
          exact this
        · have hopen' : closing h.isClient (nextFragment h.inFragmentBlock f) fs = none := by
            simpa [closing, hc] using hopen
          obtain ⟨hl'', events, hlog, hev⟩ :=
            hr.stays (by rw [hg.isClient, hg.inFragmentBlock]; exact hopen')
          refine ⟨hl'', frameEvents h.wsPayload f ++ events, by rw [hlog, hg.log, List.append_assoc],
            fun e he => ?_⟩
          rcases List.mem_append.mp he with he | he
          · exact frameEvents_open _ _ e he
          · exact hev e he

/-! ## Reads -/

/-- The handler without what it has buffered, and without the mark a poll leaves on a socket that
ignores its input. -/
def core (h : WebSocketHandler) : WebSocketHandler :=
  { h with socket := { h.socket with inBuffer := .empty, closed := false } }

theorem Live.core {h : WebSocketHandler} (hl : h.Live) : h.core.Live := ⟨rfl, hl.reads⟩

/-- After a frame the socket is open, and its input buffer is as before or cleared with the
connection. -/
theorem onFrame_socket {h h' : WebSocketHandler} (hl : h.Live) {f : Frame}
    (heq : h.onFrame f = some h') :
    h'.Live ∧ h'.socket.inBuffer = h.socket.inBuffer ∨
      h'.socket.ignoreInput = true ∧ h'.socket.closed = false ∧ h'.socket.inBuffer = .empty := by
  cases hc : closes h.isClient h.inFragmentBlock f with
  | true =>
    have hshut := onFrame_shuts hl hc
    split at hshut
    · exact absurd (hshut.symm.trans heq) (by simp)
    · obtain ⟨h₁, heq₁, hs⟩ := hshut
      obtain rfl := Option.some.inj (heq₁.symm.trans heq)
      exact Or.inr ⟨hs.ignoresInput, hs.open_, hs.cleared⟩
  | false =>
    obtain ⟨h₁, heq₁, hg⟩ := onFrame_goes hl hc
    obtain rfl := Option.some.inj (heq₁.symm.trans heq)
    exact Or.inl ⟨hg.live, hg.inBuffer⟩

theorem onFrame_core {h : WebSocketHandler} (hl : h.Live) (f : Frame) :
    h.core.onFrame f = (h.onFrame f).map core := by
  have hset : h.core = h.setInput .empty := by
    rw [core, setInput, ← hl.open_]
  rw [hset, onFrame_setInput hl]
  cases heq : h.onFrame f with
  | none => rfl
  | some h' =>
    simp only [Option.map_some, Option.some.injEq]
    rcases onFrame_socket hl heq with ⟨hl', -⟩ | ⟨hi, ho, hb⟩
    · rw [keepInput, if_neg (by simp [hl'.reads]), core, setInput, ← hl'.open_]
    · rw [keepInput, if_pos hi, core, ← ho, ← hb]

/-- The input buffer once the frames of `bs` are handled. -/
def Drained (h : WebSocketHandler) (bs : List UInt8) : Prop :=
  h.Live ∧ h.socket.inBuffer.bytes = framing.pending bs ∨ h.socket.ignoreInput = true

theorem handleIncomingMessage_succ (n : Nat) (h : WebSocketHandler) :
    handleIncomingMessage (n + 1) h =
      h.handleTCPStream.bind fun r => if r.2 then handleIncomingMessage n r.1 else some r.1 := by
  rw [handleIncomingMessage]
  rcases h.handleTCPStream with _ | ⟨h', _ | _⟩ <;> rfl

/-- Without input the loop ends at once. -/
theorem handleIncomingMessage_empty {h : WebSocketHandler} (hb : h.socket.inBuffer = .empty)
    (n : Nat) : handleIncomingMessage n h = some h := by
  cases n with
  | zero => rfl
  | succ n =>
    have hwait : h.handleTCPStream = some (h, false) := by
      rw [handleTCPStream, hb]
      rfl
    rw [handleIncomingMessage_succ, hwait]
    rfl

/-- The loop handles the frames of the buffer, and no more rounds are needed than it has bytes. -/
theorem handleIncomingMessage_core (bs : List UInt8) : ∀ {h : WebSocketHandler} {n : Nat}, h.Live →
    h.socket.inBuffer.bytes = bs → bs.length < n →
    (handleIncomingMessage n h).map core = h.core.onFrames (frames bs) ∧
      ∀ h', handleIncomingMessage n h = some h' → h'.Drained bs := by
  induction bs using framing.stream_induction with
  | none bs hnone =>
    intro h n hl hb hn
    obtain ⟨n, rfl⟩ : ∃ m, n = m + 1 := ⟨n - 1, by omega⟩
    have hstream := handleTCPStream_eq hl
    rw [hb, show parseFrame bs = none from hnone] at hstream
    rw [handleIncomingMessage_succ, hstream, frames, Framing.items_of_none hnone]
    refine ⟨rfl, fun h' heq => ?_⟩
    obtain rfl := Option.some.inj heq
    exact Or.inl ⟨hl, by rw [hb, Framing.pending_of_none hnone]⟩
  | some bs f rest hsome ih =>
    intro h n hl hb hn
    obtain ⟨n, rfl⟩ : ∃ m, n = m + 1 := ⟨n - 1, by omega⟩
    have hstream := handleTCPStream_eq hl
    rw [hb, show parseFrame bs = some (f, rest) from hsome] at hstream
    simp only at hstream
    have hshort := framing.shorter hsome
    rw [handleIncomingMessage_succ, hstream, frames, Framing.items_of_some hsome, onFrames,
      if_neg (by simp [hl.core.reads]), onFrame_core hl]
    cases heq : h.onFrame f with
    | none => simp
    | some h₁ =>
      simp only [Option.map_some, Option.bind_some, if_true]
      rcases onFrame_socket hl heq with ⟨hl₁, hb₁⟩ | ⟨hi, ho, hb₁⟩
      · -- the frame is off the buffer and what follows it is next
        obtain ⟨b0, b1, lb, mask, body, hbs, -⟩ := parseFrame_eq_some.mp hsome
        have hkeep : ∀ b, keepInput b h₁ = h₁.setInput b := fun b => by
          rw [keepInput, if_neg (by simp [hl₁.reads])]
        have hrest : (h.socket.inBuffer.eraseFirst
            (h.socket.inBuffer.size - rest.length)).bytes = rest := by
          rw [Buffer.bytes_eraseFirst, ← Buffer.length_bytes, hb, hbs]
          have : b0 :: b1 :: (lb ++ (mask ++ (body ++ rest))) =
              (b0 :: b1 :: (lb ++ (mask ++ body))) ++ rest := by simp
          rw [this, List.length_append, Nat.add_sub_cancel, List.drop_left]
        have := ih (h := h₁.setInput (h.socket.inBuffer.eraseFirst
          (h.socket.inBuffer.size - rest.length))) (n := n) ⟨hl₁.open_, hl₁.reads⟩ hrest (by omega)
        rw [hkeep]
        refine ⟨this.1, fun h' heq' => ?_⟩
        rw [Drained, Framing.pending_of_some hsome]
        exact this.2 h' heq'
      · have hkeep : ∀ b, keepInput b h₁ = h₁ := fun b => by rw [keepInput, if_pos hi]
        rw [hkeep, handleIncomingMessage_empty hb₁]
        refine ⟨(onFrames_of_ignoreInput (show h₁.core.socket.ignoreInput = true from hi) _).symm,
          fun h' heq' => ?_⟩
        obtain rfl := Option.some.inj heq'
        exact Or.inr hi

/-- A handler between two polls: what it has buffered holds no whole frame. -/
def Waiting (h : WebSocketHandler) : Prop :=
  h.Live ∧ framing.next h.socket.inBuffer.bytes = none ∨ h.socket.ignoreInput = true

/-- A socket that ignores its input stays as it is. -/
theorem receive_of_ignoreInput (reads : List (List UInt8)) : ∀ {h : WebSocketHandler},
    h.socket.ignoreInput = true →
    ∃ h', h.receive reads = some h' ∧ h'.core = h.core ∧ h'.socket.ignoreInput = true := by
  induction reads with
  | nil => exact fun {h} hi => ⟨h, rfl, rfl, hi⟩
  | cons r reads ih =>
    intro h hi
    obtain ⟨h', heq, hcore, hi'⟩ :=
      ih (h := { h with socket := { h.socket with closed := true } }) hi
    refine ⟨h', ?_, hcore, hi'⟩
    rw [receive, List.foldlM_cons, handlePoll, if_pos hi]
    exact heq

/-- **The run does not depend on the reads.** What a connection does, its buffer aside, is what it
does with the frames of the whole stream; its buffer holds what follows them. -/
theorem receive_core (reads : List (List UInt8)) : ∀ {h : WebSocketHandler}, h.Waiting →
    (h.receive reads).map core =
        h.core.onFrames (frames (h.socket.inBuffer.bytes ++ reads.flatten)) ∧
      ∀ h', h.receive reads = some h' → h'.Drained (h.socket.inBuffer.bytes ++ reads.flatten) := by
  intro h hw
  rcases hw with hw | hi
  swap
  · obtain ⟨h', heq, hcore, hi'⟩ := receive_of_ignoreInput reads hi
    rw [heq, onFrames_of_ignoreInput (show h.core.socket.ignoreInput = true from hi), Option.map_some,
      hcore]
    exact ⟨rfl, fun h'' h => Or.inr (Option.some.inj h ▸ hi')⟩
  obtain ⟨hl, hn⟩ := hw
  induction reads generalizing h with
  | nil =>
    rw [List.flatten_nil, List.append_nil, frames, Framing.items_of_none hn]
    refine ⟨rfl, fun h' heq => ?_⟩
    obtain rfl := Option.some.inj heq
    exact Or.inl ⟨hl, (Framing.pending_of_none hn).symm⟩
  | cons r reads ih =>
    have hcons : h.receive (r :: reads) = (h.handlePoll r).bind (receive · reads) := by
      rw [receive, List.foldlM_cons]
      rfl
    have hpoll : h.handlePoll r = handleIncomingMessage ((h.socket.inBuffer.insertEnd r).size + 1)
        (h.setInput (h.socket.inBuffer.insertEnd r)) := by
      rw [handlePoll, if_neg (by simp [hl.reads])]
      rfl
    obtain ⟨hcore, hdrained⟩ := handleIncomingMessage_core (h.socket.inBuffer.bytes ++ r)
      (h := h.setInput (h.socket.inBuffer.insertEnd r)) ⟨hl.open_, hl.reads⟩
      (Buffer.bytes_insertEnd _ _)
      (show (h.socket.inBuffer.bytes ++ r).length < (h.socket.inBuffer.insertEnd r).size + 1 by
        rw [← Buffer.length_bytes, Buffer.bytes_insertEnd]; omega)
    rw [← hpoll] at hcore hdrained
    have hframes : h.core.onFrames (frames (h.socket.inBuffer.bytes ++ (r :: reads).flatten)) =
        ((h.handlePoll r).map core).bind (onFrames ·
          (frames (framing.pending (h.socket.inBuffer.bytes ++ r) ++ reads.flatten))) := by
      rw [hcore, List.flatten_cons, ← List.append_assoc, frames, framing.items_append,
        onFrames_append]
      rfl
    rw [hcons, hframes]
    cases hres : h.handlePoll r with
    | none => exact ⟨rfl, fun h' h => absurd h (by simp)⟩
    | some h₁ =>
      simp only [Option.bind_some, Option.map_some]
      rcases hdrained h₁ hres with ⟨hl₁, hb₁⟩ | hi₁
      · obtain ⟨ihcore, ihdrained⟩ := ih hl₁ (by rw [hb₁, framing.next_pending])
        rw [hb₁] at ihcore ihdrained
        refine ⟨ihcore, fun h' heq => ?_⟩
        have hd := ihdrained h' heq
        rw [Drained, ← framing.pending_append] at hd
        rw [Drained, List.flatten_cons, ← List.append_assoc]
        exact hd
      · obtain ⟨h', heq, hcore', hi'⟩ := receive_of_ignoreInput reads hi₁
        rw [heq, onFrames_of_ignoreInput (show h₁.core.socket.ignoreInput = true from hi₁),
          Option.map_some, hcore']
        exact ⟨rfl, fun h'' h => Or.inr (Option.some.inj h ▸ hi')⟩

end WebSocketHandler

end Oxool.Net
