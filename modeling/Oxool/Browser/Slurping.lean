import Mathlib.Data.List.Infix
import Oxool.Lib.Fair
import Oxool.Lib.Utf16
import Oxool.Net.Http.Response

/-!
# Slurping (`browser/src/core/Socket.js`)

The browser collects the messages of its web socket in a queue, and hands them on at leisure, many at a
time: a timer starts `_emitSlurpedEvents`, which goes through the queue up to the first message whose
image has not been decoded yet. When the image is there, the timer is set again. The next message sets
it only where the queue is empty, so that a queue without a timer has to begin with such an image.

JavaScript runs one task to its end before the next. The loop of an emission is a step for each message
here, between which nothing else comes. What `_onMessage` does with a message is not in the model, and
neither is whether it throws, which the loop catches.
-/

set_option autoImplicit false

namespace Oxool.Browser.Slurp

open Oxool.Http (Bytes)

/-! ## Messages -/

/-- The data of a message: a string, by its code units, or an `ArrayBuffer`. -/
inductive Data where
  | text (units : List UInt16)
  | buffer (bytes : Bytes)
deriving DecidableEq

/-- Which of the apps the browser is in, if it is in one whose messages are strings. -/
structure Platform where
  ThisIsTheiOSApp : Bool
  ThisIsTheEmscriptenApp : Bool
deriving DecidableEq

/-- `e.image`. The source of an image is the base64 of its bytes. -/
inductive Image where
  | raw (rawData : Bytes) (isKeyframe : Bool)
  | src (png : Bytes)
  /-- `new Image()`, which is decoded while other tasks run -/
  | element (png : Bytes)
deriving DecidableEq

/-- A message in the queue. -/
structure Event where
  id : Nat
  data : Data
  textMsg : List UInt16
  /-- `imgBytes` and `imgIndex` -/
  imgBytes : Option (Bytes × Nat)
  image : Option Image
  imageIsComplete : Bool
deriving DecidableEq

def Event.isComplete (e : Event) : Bool := if e.image.isSome then e.imageIsComplete else true

def startsWith (units : List UInt16) (text : String) : Bool :=
  (Utf16.encode text.toList).isPrefixOf units

/-- The messages that bring bytes with them as strings, in an app. -/
def imageMessages : List String :=
  ["tile:", "tilecombine:", "delta:", "renderfont:", "rendersearchlist:", "windowpaint:"]

/-- Where the text ends and the bytes begin: the first newline. -/
def extractText (p : Platform) : Data → List UInt16 × Option (Bytes × Nat)
  | .text units =>
    if (p.ThisIsTheiOSApp || p.ThisIsTheEmscriptenApp) &&
        (p.ThisIsTheEmscriptenApp || imageMessages.any (startsWith units)) then
      let index := units.idxOf 10
      (units.take index, some (units.map UInt16.toUInt8, index + 1))
    else (units, none)
  | .buffer bytes =>
    let index := bytes.idxOf 10
    ((bytes.take index).map UInt8.toUInt16, some (bytes, index + 1))

/-- `_extractImage`: the PNG pre-byte is prepended where it is missing. -/
def extractImage (imgBytes : Bytes) (imgIndex : Nat) : Bytes :=
  let data := imgBytes.drop imgIndex
  if data[0]? ≠ some 0x89 then 0x89 :: data else data

/-- The image of a message, by how the bytes begin. -/
def imageOf (isTile isDelta : Bool) (imgBytes : Bytes) (imgIndex : Nat) : Image :=
  -- pass deltas through quickly.
  if (isTile || isDelta) && imgBytes[imgIndex]? ≠ some 80 then .raw (imgBytes.drop imgIndex) isTile
  else
    let img := extractImage imgBytes imgIndex
    if isTile then .src img else .element img

/-- Whether nothing is left to decode. -/
def Image.complete : Image → Bool
  | .element _ => false
  | _ => true

/-- `_extractTextImg`; `none` is an exception. -/
def extractTextImg (p : Platform) (id : Nat) (data : Data) : Option Event :=
  let (textMsg, imgBytes) := extractText p data
  let e : Event := ⟨id, data, textMsg, imgBytes, none, false⟩
  let isTile := startsWith textMsg "tile:"
  let isDelta := startsWith textMsg "delta:"
  if !isTile && !isDelta && !startsWith textMsg "renderfont:" && !startsWith textMsg "windowpaint:" then
    some e
  else if Utf16.encode " nopng".toList <:+: textMsg then some e
  else
    match imgBytes with
    -- `subarray` of nothing
    | none => none
    | some (imgBytes, imgIndex) =>
      let image := imageOf isTile isDelta imgBytes imgIndex
      some { e with image := some image, imageIsComplete := image.complete }

/-- A message of the server. Those that `Message::detectType` takes for binary are sent as binary
frames, and so is whatever has an image in it, if the browser is in no app. -/
structure Message (p : Platform) where
  data : Data
  binary : ∀ units, data = .text units → p = ⟨false, false⟩ →
    (["tile:", "delta:", "renderfont:", "windowpaint:"].any (startsWith units) = false ∨
      Utf16.encode " nopng".toList <:+: units)

/-! ## The queue -/

/-- The fields of the socket that the slurping uses. `loading` are the images of which neither `onload`
nor `onerror` has come; what was received and what `_onMessage` was given is kept for the record. -/
structure Socket where
  slurpQueue : List Event
  slurpTimer : Bool
  /-- `i` and `queueLength` of `_emitSlurpedEvents`, while it runs -/
  emitting : Option (Nat × Nat)
  loading : List Nat
  received : List Data
  delivered : List Data
deriving DecidableEq

namespace Socket

variable (s : Socket)

def init : Socket := ⟨[], false, none, [], [], []⟩

/-- `_queueSlurpEventEmission`. -/
def queueSlurpEventEmission : Socket := { s with slurpTimer := true }

/-- `_slurpMessage`. -/
def slurpMessage (p : Platform) (data : Data) : Socket :=
  let s := { s with received := s.received ++ [data] }
  let s := if s.slurpQueue.isEmpty then s.queueSlurpEventEmission else s
  match extractTextImg p (s.received.length - 1) data with
  | none => s
  | some e =>
    { s with
      slurpQueue := s.slurpQueue ++ [e]
      loading := if e.isComplete then s.loading else s.loading ++ [e.id] }

/-- The image of one event is there, or it is not going to be. -/
def markComplete (id : Nat) (e : Event) : Event :=
  if e.id = id then { e with imageIsComplete := true } else e

/-- `onload` and `onerror`. -/
def imageDone (id : Nat) : Socket :=
  { s with
    slurpQueue := s.slurpQueue.map (markComplete id)
    loading := s.loading.filter (· ≠ id) }.queueSlurpEventEmission

/-- The timer: `_emitSlurpedEvents` begins. -/
def fire : Socket :=
  { s with slurpTimer := false, emitting := some (0, s.slurpQueue.length) }

/-- One turn of the loop of `_emitSlurpedEvents`, or what comes after it. -/
def emit (i queueLength : Nat) : Socket :=
  if i < queueLength then
    match s.slurpQueue[i]? with
    -- nothing that could be asked whether it is complete
    | none => { s with emitting := none }
    | some evt =>
      if evt.isComplete then
        { s with delivered := s.delivered ++ [evt.data], emitting := some (i + 1, queueLength) }
      else
        -- Stop emitting, re-start when we async images load.
        { s with slurpQueue := (s.slurpQueue.take queueLength).drop i, emitting := none }
  else { s with slurpQueue := [], emitting := none }

end Socket

/-- What happens next. -/
inductive Action (p : Platform) where
  | message (m : Message p)
  | load (id : Nat)
  | error (id : Nat)
  | timer
  | emit

/-- An action that cannot come at the time leaves things as they are. -/
def step (p : Platform) (s : Socket) (a : Action p) : Socket :=
  match s.emitting with
  | none =>
    match a with
    | .message m => s.slurpMessage p m.data
    | .load id => if id ∈ s.loading then s.imageDone id else s
    | .error id => if id ∈ s.loading then s.imageDone id else s
    | .timer => if s.slurpTimer then s.fire else s
    | .emit => s
  | some (i, queueLength) =>
    match a with
    | .emit => s.emit i queueLength
    | _ => s

/-! ## Extraction -/

theorem extractTextImg_fields {p : Platform} {id : Nat} {data : Data} {e : Event}
    (h : extractTextImg p id data = some e) : e.data = data ∧ e.id = id := by
  rw [extractTextImg] at h
  dsimp only at h
  split_ifs at h
  · cases h
    exact ⟨rfl, rfl⟩
  · cases h
    exact ⟨rfl, rfl⟩
  · split at h
    · cases h
    · cases h
      exact ⟨rfl, rfl⟩

/-- There are bytes with every message that has an image in it. -/
theorem Message.extracted {p : Platform} (m : Message p) (id : Nat) :
    ∃ e, extractTextImg p id m.data = some e := by
  rw [extractTextImg]
  dsimp only
  split_ifs with himage hnopng
  · exact ⟨_, rfl⟩
  · exact ⟨_, rfl⟩
  · split
    · rename_i hnone
      exfalso
      cases hdata : m.data with
      | buffer bytes =>
        simp [hdata, extractText] at hnone
      | text units =>
        rw [hdata, extractText] at hnone himage hnopng
        split_ifs at hnone himage hnopng with happ
        · obtain ⟨iOS, emscripten⟩ := p
          cases emscripten with
          | true => simp at happ
          | false =>
            cases iOS with
            | true => simp_all [imageMessages]
            | false =>
              rcases m.binary units hdata rfl with hno | hyes
              · simp_all
              · exact hnopng hyes
    · exact ⟨_, rfl⟩

/-! ## What the actions do -/

namespace Socket

/-- What has been received and not been handed on. -/
def waiting (s : Socket) : List Event :=
  match s.emitting with
  | none => s.slurpQueue
  | some (i, _) => s.slurpQueue.drop i

theorem waiting_idle {s : Socket} (h : s.emitting = none) : s.waiting = s.slurpQueue := by
  rw [waiting, h]

theorem waiting_emitting {s : Socket} {i n : Nat} (h : s.emitting = some (i, n)) :
    s.waiting = s.slurpQueue.drop i := by
  rw [waiting, h]

/-- The invariant of the queue. -/
structure Inv (s : Socket) : Prop where
  order : s.delivered ++ s.waiting.map Event.data = s.received
  loop : ∀ i n, s.emitting = some (i, n) → i ≤ n ∧ n = s.slurpQueue.length
  images : ∀ e ∈ s.slurpQueue, e.isComplete = false → e.id ∈ s.loading
  progress : s.emitting = none → s.slurpTimer = false →
    ∀ e, s.slurpQueue.head? = some e → e.isComplete = false

/-- What an action makes of the messages, where it does something. -/
inductive Moves (s s' : Socket) : Prop where
  | arrives (e : Event) (idle : s.emitting = none) (idle' : s'.emitting = none)
      (waiting : s'.waiting = s.waiting ++ [e]) (delivered : s'.delivered = s.delivered)
      (received : s'.received = s.received ++ [e.data])
  | decoded (id : Nat) (idle : s.emitting = none) (idle' : s'.emitting = none)
      (waiting : s'.waiting = s.waiting.map (markComplete id)) (delivered : s'.delivered = s.delivered)
      (received : s'.received = s.received)
  | begins (idle : s.emitting = none) (busy' : s'.emitting.isSome) (waiting : s'.waiting = s.waiting)
      (delivered : s'.delivered = s.delivered) (received : s'.received = s.received)
  | delivers (e : Event) (busy : s.emitting.isSome) (busy' : s'.emitting.isSome)
      (complete : e.isComplete = true) (waiting : s.waiting = e :: s'.waiting)
      (delivered : s'.delivered = s.delivered ++ [e.data]) (received : s'.received = s.received)
  | stops (busy : s.emitting.isSome) (idle' : s'.emitting = none)
      (incomplete : ∀ e, s.waiting.head? = some e → e.isComplete = false)
      (waiting : s'.waiting = s.waiting) (delivered : s'.delivered = s.delivered)
      (received : s'.received = s.received)

@[simp] theorem markComplete_data (id : Nat) (e : Event) : (markComplete id e).data = e.data := by
  rw [markComplete]
  split
  · rfl
  · rfl

theorem markComplete_complete (id : Nat) {e : Event} (h : e.isComplete = true) :
    (markComplete id e).isComplete = true := by
  rw [markComplete]
  split
  · simp [Event.isComplete]
  · exact h

theorem markComplete_self (e : Event) : (markComplete e.id e).isComplete = true := by
  simp [markComplete, Event.isComplete]

/-- The order is kept by whatever moves. -/
theorem Moves.order {s s' : Socket} (h : s.Moves s')
    (horder : s.delivered ++ s.waiting.map Event.data = s.received) :
    s'.delivered ++ s'.waiting.map Event.data = s'.received := by
  cases h with
  | arrives e _ _ waiting delivered received =>
    rw [waiting, delivered, received, List.map_append, ← List.append_assoc, horder]
    rfl
  | decoded id _ _ waiting delivered received =>
    rw [waiting, delivered, received, List.map_map, ← horder]
    simp
  | begins _ _ waiting delivered received => rw [waiting, delivered, received, horder]
  | delivers e _ _ _ waiting delivered received =>
    rw [delivered, received, ← horder, waiting, List.map_cons, List.append_assoc]
    rfl
  | stops _ _ _ waiting delivered received => rw [waiting, delivered, received, horder]

variable {s : Socket}

theorem moves_slurpMessage {p : Platform} (m : Message p) (h : s.Inv) (hidle : s.emitting = none) :
    s.Moves (s.slurpMessage p m.data) ∧ (s.slurpMessage p m.data).Inv := by
  obtain ⟨e, he⟩ := m.extracted s.received.length
  obtain ⟨hdata, -⟩ := extractTextImg_fields he
  have hs : s.slurpMessage p m.data =
      { s with
        received := s.received ++ [m.data]
        slurpTimer := s.slurpQueue.isEmpty || s.slurpTimer
        slurpQueue := s.slurpQueue ++ [e]
        loading := if e.isComplete then s.loading else s.loading ++ [e.id] } := by
    rw [slurpMessage]
    cases hempty : s.slurpQueue.isEmpty with
    | true => simp [queueSlurpEventEmission, he]
    | false => simp [he]
  have hmoves : s.Moves (s.slurpMessage p m.data) := by
    rw [hs]
    refine .arrives e hidle hidle ?_ rfl ?_
    · rw [waiting_idle hidle]
      exact waiting_idle hidle
    · rw [hdata]
  refine ⟨hmoves, hmoves.order h.order, ?_, ?_, ?_⟩
  · intro i n hloop
    rw [hs] at hloop
    rw [hidle] at hloop
    cases hloop
  · rw [hs]
    intro e' he' hincomplete
    rcases List.mem_append.mp he' with hmem | hmem
    · have hloading := h.images e' hmem hincomplete
      dsimp only
      split
      · exact hloading
      · exact List.mem_append_left _ hloading
    · rw [List.mem_singleton.mp hmem] at hincomplete ⊢
      simp [hincomplete]
  · rw [hs]
    intro _ htimer e' he'
    dsimp only at htimer he'
    rw [Bool.or_eq_false_iff] at htimer
    cases hqueue : s.slurpQueue with
    | nil => simp [hqueue] at htimer
    | cons e₀ es =>
      rw [hqueue, List.cons_append, List.head?_cons] at he'
      exact h.progress hidle htimer.2 e' (by rw [hqueue, List.head?_cons, he'])

theorem moves_imageDone (id : Nat) (h : s.Inv) (hidle : s.emitting = none) :
    s.Moves (s.imageDone id) ∧ (s.imageDone id).Inv := by
  have hmoves : s.Moves (s.imageDone id) := by
    refine .decoded id hidle hidle ?_ rfl rfl
    rw [waiting_idle hidle]
    exact waiting_idle hidle
  refine ⟨hmoves, hmoves.order h.order, ?_, ?_, ?_⟩
  · intro i n hloop
    change s.emitting = _ at hloop
    rw [hidle] at hloop
    cases hloop
  · intro e he hincomplete
    obtain ⟨e₀, he₀, rfl⟩ := List.mem_map.mp he
    rw [markComplete] at hincomplete ⊢
    split at hincomplete
    · simp [Event.isComplete] at hincomplete
    · rename_i hid
      rw [if_neg hid]
      exact List.mem_filter.mpr ⟨h.images e₀ he₀ hincomplete, by simpa using hid⟩
  · intro _ htimer
    cases htimer

theorem moves_fire (h : s.Inv) (hidle : s.emitting = none) : s.Moves s.fire ∧ s.fire.Inv := by
  have hmoves : s.Moves s.fire := by
    refine .begins hidle rfl ?_ rfl rfl
    rw [waiting_idle hidle]
    rfl
  refine ⟨hmoves, hmoves.order h.order, ?_, h.images, ?_⟩
  · intro i n hloop
    cases hloop
    exact ⟨Nat.zero_le _, rfl⟩
  · intro hidle'
    cases hidle'

/-- What a turn of the loop does: it hands on the first message that waits, or stops before it. -/
theorem moves_emit {i n : Nat} (h : s.Inv) (hloop : s.emitting = some (i, n)) :
    s.Moves (s.emit i n) ∧ (s.emit i n).Inv := by
  obtain ⟨hi, hn⟩ := h.loop i n hloop
  have hbusy : s.emitting.isSome := by rw [hloop]; rfl
  rw [emit]
  split
  · rename_i hlt
    have hlt' : i < s.slurpQueue.length := hn ▸ hlt
    have hwaiting : s.waiting = s.slurpQueue[i] :: s.slurpQueue.drop (i + 1) := by
      rw [waiting_emitting hloop, List.drop_eq_getElem_cons hlt']
    rw [List.getElem?_eq_getElem hlt']
    dsimp only
    cases hcomplete : s.slurpQueue[i].isComplete with
    | true =>
      rw [if_pos rfl]
      have hmoves : s.Moves { s with delivered := s.delivered ++ [s.slurpQueue[i].data], emitting := some (i + 1, n) } :=
        .delivers _ hbusy rfl hcomplete hwaiting rfl rfl
      refine ⟨hmoves, hmoves.order h.order, ?_, h.images, ?_⟩
      · intro i' n' hloop'
        cases hloop'
        exact ⟨hlt, hn⟩
      · intro hidle
        cases hidle
    | false =>
      rw [if_neg Bool.false_ne_true, hn, List.take_length]
      have hmoves : s.Moves { s with slurpQueue := s.slurpQueue.drop i, emitting := none } := by
        refine .stops hbusy rfl ?_ (waiting_emitting hloop).symm rfl rfl
        intro e he
        rw [hwaiting, List.head?_cons, Option.some.injEq] at he
        rw [← he, hcomplete]
      refine ⟨hmoves, hmoves.order h.order, ?_, ?_, ?_⟩
      · intro i' n' hloop'
        cases hloop'
      · intro e he
        exact h.images e (List.mem_of_mem_drop he)
      · intro _ _ e he
        dsimp only at he
        rw [List.drop_eq_getElem_cons hlt', List.head?_cons, Option.some.injEq] at he
        rw [← he, hcomplete]
  · rename_i hlt
    have hend : s.slurpQueue.drop i = [] := List.drop_eq_nil_of_le (hn ▸ Nat.not_lt.mp hlt)
    have hmoves : s.Moves { s with slurpQueue := [], emitting := none } := by
      refine .stops hbusy rfl ?_ ?_ rfl rfl
      · intro e he
        rw [waiting_emitting hloop, hend] at he
        cases he
      · rw [waiting_emitting hloop, hend]
        rfl
    refine ⟨hmoves, hmoves.order h.order, ?_, ?_, ?_⟩
    · intro i' n' hloop'
      cases hloop'
    · intro e he
      cases he
    · intro _ _ e he
      cases he

end Socket

open Socket

/-- **One action**: the invariant is kept, and the messages move as they should. -/
theorem moves_step {p : Platform} {s : Socket} (h : s.Inv) (a : Action p) :
    (step p s a = s ∨ s.Moves (step p s a)) ∧ (step p s a).Inv := by
  have hstays : (s = s ∨ s.Moves s) ∧ s.Inv := ⟨.inl rfl, h⟩
  have hmoves : ∀ {s' : Socket}, s.Moves s' ∧ s'.Inv → (s' = s ∨ s.Moves s') ∧ s'.Inv :=
    fun h => ⟨.inr h.1, h.2⟩
  cases hloop : s.emitting with
  | none =>
    simp only [step, hloop]
    cases a with
    | message m => exact hmoves (moves_slurpMessage m h hloop)
    | load id =>
      dsimp only
      split
      · exact hmoves (moves_imageDone id h hloop)
      · exact hstays
    | error id =>
      dsimp only
      split
      · exact hmoves (moves_imageDone id h hloop)
      · exact hstays
    | timer =>
      dsimp only
      split
      · exact hmoves (moves_fire h hloop)
      · exact hstays
    | emit => exact hstays
  | some loop =>
    simp only [step, hloop]
    cases a with
    | emit => exact hmoves (moves_emit h hloop)
    | message m => exact hstays
    | load id => exact hstays
    | error id => exact hstays
    | timer => exact hstays

theorem init_inv : init.Inv where
  order := rfl
  loop := by
    intro i n hloop
    cases hloop
  images := by
    intro e he
    cases he
  progress := by
    intro _ _ e he
    cases he

/-! ## Nothing is lost, and nothing stalls -/

/-- **In order and once**: what was handed on is what was received, up to what waits. And while there is
something in the queue, the timer is set, an emission is under way, or an image is being decoded, which
the first message waits for. -/
structure Delivering (s : Socket) : Prop where
  order : s.delivered ++ s.waiting.map Event.data = s.received
  progress : s.slurpQueue ≠ [] → s.slurpTimer = true ∨ s.emitting.isSome ∨
    ∃ e, s.slurpQueue.head? = some e ∧ e.isComplete = false ∧ e.id ∈ s.loading

theorem delivering_of_inv {s : Socket} (h : s.Inv) : Delivering s := by
  refine ⟨h.order, fun hqueue => ?_⟩
  cases htimer : s.slurpTimer with
  | true => exact .inl rfl
  | false =>
    cases hloop : s.emitting with
    | some loop => exact .inr (.inl rfl)
    | none =>
      cases hhead : s.slurpQueue with
      | nil => exact absurd hhead hqueue
      | cons e es =>
        have hfirst : s.slurpQueue.head? = some e := by rw [hhead, List.head?_cons]
        have hincomplete := h.progress hloop htimer e hfirst
        exact .inr (.inr ⟨e, rfl, hincomplete, h.images e (List.mem_of_head? hfirst) hincomplete⟩)

/-- The timer goes off in the end, an emission goes on, and of every image comes `onload` or `onerror`. -/
structure Fair (p : Platform) (as : Nat → Action p) : Prop where
  timer : Run.FairFor (step p) init as (fun s => s.emitting = none ∧ s.slurpTimer = true) (· = .timer)
  emission : Run.FairFor (step p) init as (fun s => s.emitting.isSome) (· = .emit)
  images : ∀ id, Run.FairFor (step p) init as (fun s => s.emitting = none ∧ id ∈ s.loading)
    fun a => a = .load id ∨ a = .error id

/-- The message after the first `k` is the next to be handed on. -/
def Ready (k : Nat) (s : Socket) : Prop :=
  s.delivered.length = k ∧ ∃ e, s.waiting.head? = some e ∧ e.isComplete = true

/-- The message after the first `k` waits for an image. -/
def Decoding (k id : Nat) (s : Socket) : Prop :=
  s.delivered.length = k ∧ ∃ e, s.waiting.head? = some e ∧ e.isComplete = false ∧ e.id = id

def Done (k : Nat) (s : Socket) : Prop := k < s.delivered.length

section Stages

variable {s s' : Socket} {k id : Nat}

theorem Ready.moves (hready : Ready k s) (h : s.Moves s') : Ready k s' ∨ Done k s' := by
  obtain ⟨hlength, e, hhead, hcomplete⟩ := hready
  cases h with
  | arrives e' _ _ waiting delivered _ =>
    refine .inl ⟨by rw [delivered, hlength], e, ?_, hcomplete⟩
    rw [waiting, List.head?_append, hhead]
    rfl
  | decoded id _ _ waiting delivered _ =>
    refine .inl ⟨by rw [delivered, hlength], markComplete id e, ?_, markComplete_complete id hcomplete⟩
    rw [waiting, List.head?_map, hhead]
    rfl
  | begins _ _ waiting delivered _ =>
    exact .inl ⟨by rw [delivered, hlength], e, by rw [waiting, hhead], hcomplete⟩
  | delivers e' _ _ _ _ delivered _ =>
    refine .inr ?_
    rw [Done, delivered, List.length_append, hlength]
    exact Nat.lt_succ_self k
  | stops _ _ incomplete _ _ _ =>
    rw [incomplete e hhead] at hcomplete
    cases hcomplete

theorem Decoding.moves (hdecoding : Decoding k id s) (h : s.Moves s') :
    Decoding k id s' ∨ Ready k s' := by
  obtain ⟨hlength, e, hhead, hincomplete, hid⟩ := hdecoding
  cases h with
  | arrives e' _ _ waiting delivered _ =>
    refine .inl ⟨by rw [delivered, hlength], e, ?_, hincomplete, hid⟩
    rw [waiting, List.head?_append, hhead]
    rfl
  | decoded id' _ _ waiting delivered _ =>
    have hhead' : s'.waiting.head? = some (markComplete id' e) := by
      rw [waiting, List.head?_map, hhead]
      rfl
    have hid' : (markComplete id' e).id = id := by
      rw [markComplete]
      split
      · exact hid
      · exact hid
    cases hcomplete : (markComplete id' e).isComplete with
    | false => exact .inl ⟨by rw [delivered, hlength], _, hhead', hcomplete, hid'⟩
    | true => exact .inr ⟨by rw [delivered, hlength], _, hhead', hcomplete⟩
  | begins _ _ waiting delivered _ =>
    exact .inl ⟨by rw [delivered, hlength], e, by rw [waiting, hhead], hincomplete, hid⟩
  | delivers e' _ _ complete waiting _ _ =>
    rw [waiting, List.head?_cons, Option.some.injEq] at hhead
    rw [hhead, hincomplete] at complete
    cases complete
  | stops _ _ _ waiting delivered _ =>
    exact .inl ⟨by rw [delivered, hlength], e, by rw [waiting, hhead], hincomplete, hid⟩

/-- An emission does not end before a message that is ready. -/
theorem Ready.moves_busy (hready : Ready k s) (hbusy : s.emitting.isSome) (h : s.Moves s') :
    Done k s' := by
  obtain ⟨hlength, e, hhead, hcomplete⟩ := hready
  cases h with
  | arrives _ idle => simp [idle] at hbusy
  | decoded _ idle => simp [idle] at hbusy
  | begins idle => simp [idle] at hbusy
  | delivers e' _ _ _ _ delivered _ =>
    rw [Done, delivered, List.length_append, hlength]
    exact Nat.lt_succ_self k
  | stops _ _ incomplete _ _ _ =>
    rw [incomplete e hhead] at hcomplete
    cases hcomplete

/-- An emission ends before a message that is not. -/
theorem Decoding.moves_busy (hdecoding : Decoding k id s) (hbusy : s.emitting.isSome)
    (h : s.Moves s') : s'.emitting = none := by
  obtain ⟨-, e, hhead, hincomplete, -⟩ := hdecoding
  cases h with
  | arrives _ idle => simp [idle] at hbusy
  | decoded _ idle => simp [idle] at hbusy
  | begins idle => simp [idle] at hbusy
  | delivers e' _ _ complete waiting _ _ =>
    rw [waiting, List.head?_cons, Option.some.injEq] at hhead
    rw [hhead, hincomplete] at complete
    cases complete
  | stops _ idle' => exact idle'

/-- Nothing is handed on outside of an emission. -/
theorem Ready.moves_idle (hready : Ready k s) (hidle : s.emitting = none) (h : s.Moves s') :
    Ready k s' := by
  rcases hready.moves h with hready' | hdone
  · exact hready'
  · have hsame : s'.delivered = s.delivered := by
      cases h with
      | arrives _ _ _ _ delivered _ => exact delivered
      | decoded _ _ _ _ delivered _ => exact delivered
      | begins _ _ _ delivered _ => exact delivered
      | delivers _ busy => simp [hidle] at busy
      | stops busy => simp [hidle] at busy
    rw [Done, hsame, hready.1] at hdone
    exact absurd hdone (Nat.lt_irrefl k)

/-- What is received and not handed on is ready, or it is decoding. -/
theorem ready_or_decoding (h : s.Inv) (hk : s.delivered.length = k) (howed : k < s.received.length) :
    Ready k s ∨ ∃ id, Decoding k id s := by
  rw [← h.order, List.length_append, hk, List.length_map] at howed
  cases hwaiting : s.waiting with
  | nil => simp [hwaiting] at howed
  | cons e es =>
    have hhead : s.waiting.head? = some e := by rw [hwaiting, List.head?_cons]
    cases hcomplete : e.isComplete with
    | true => exact .inl ⟨hk, e, hhead, hcomplete⟩
    | false => exact .inr ⟨e.id, hk, e, hhead, hcomplete, rfl⟩

end Stages

theorem stateAt_inv (p : Platform) (as : Nat → Action p) (n : Nat) :
    (Run.stateAt (step p) init as n).Inv :=
  Run.stateAt_inv Inv (fun _ a h => (moves_step h a).2) init_inv n

theorem received_append_later (p : Platform) (as : Nat → Action p) {n m : Nat} (h : n ≤ m) :
    (Run.stateAt (step p) init as n).received <+: (Run.stateAt (step p) init as m).received := by
  induction h with
  | refl => exact List.prefix_refl _
  | @step m _ ih =>
    refine ih.trans ?_
    show _ <+: (step p (Run.stateAt (step p) init as m) (as m)).received
    rcases (moves_step (stateAt_inv p as m) (as m)).1 with hsame | hmoves
    · rw [hsame]
    · cases hmoves with
      | arrives _ _ _ _ _ received =>
        rw [received]
        exact List.prefix_append _ _
      | decoded _ _ _ _ _ received => rw [received]
      | begins _ _ _ _ received => rw [received]
      | delivers _ _ _ _ _ _ received => rw [received]
      | stops _ _ _ _ _ received => rw [received]

section Runs

variable {p : Platform} {as : Nat → Action p} (hfair : Fair p as) (k : Nat)
include hfair

theorem leadsTo_done : Run.LeadsTo (step p) init as (Ready k) (Done k) := by
  -- an emission that is under way hands the message on
  have hbusy : Run.LeadsTo (step p) init as
      (fun s => (Ready k s ∧ s.emitting.isSome) ∧ s.emitting.isSome) (Done k) := by
    refine Run.leadsTo_of_fair (stateAt_inv p as) hfair.emission ?_ ?_
    · rintro s a hInv ⟨hready, hbusy⟩
      rcases (moves_step hInv a).1 with hsame | hmoves
      · rw [hsame]
        exact .inl ⟨hready, hbusy⟩
      · exact .inr (hready.moves_busy hbusy hmoves)
    · rintro s a hInv ⟨hready, hbusy⟩ - rfl
      obtain ⟨loop, hloop⟩ := Option.isSome_iff_exists.mp hbusy
      have hmoves := (moves_emit hInv hloop).1
      rw [step, hloop]
      exact hready.moves_busy hbusy hmoves
  -- the timer begins an emission
  have hidle : Run.LeadsTo (step p) init as
      (fun s => (Ready k s ∧ s.emitting = none) ∧ s.emitting = none ∧ s.slurpTimer = true)
      (fun s => (Ready k s ∧ s.emitting.isSome) ∧ s.emitting.isSome) := by
    refine Run.leadsTo_of_fair (stateAt_inv p as) hfair.timer ?_ ?_
    · rintro s a hInv ⟨hready, hidle⟩
      rcases (moves_step hInv a).1 with hsame | hmoves
      · rw [hsame]
        exact .inl ⟨hready, hidle⟩
      · have hready' := hready.moves_idle hidle hmoves
        cases hloop : (step p s a).emitting with
        | none => exact .inl ⟨hready', rfl⟩
        | some loop => exact .inr ⟨⟨hready', rfl⟩, rfl⟩
    · rintro s a hInv ⟨hready, hidle⟩ ⟨-, htimer⟩ rfl
      have hready' := hready.moves_idle hidle (moves_fire hInv hidle).1
      simp only [step, hidle, htimer, if_true]
      exact ⟨⟨hready', rfl⟩, rfl⟩
  refine Run.LeadsTo.of_inv (stateAt_inv p as) ?_ (hbusy.or (hidle.trans hbusy))
  intro s hInv hready
  cases hloop : s.emitting with
  | some loop => exact .inl ⟨⟨hready, rfl⟩, rfl⟩
  | none =>
    refine .inr ⟨⟨hready, rfl⟩, rfl, ?_⟩
    -- without a timer the message would wait for an image
    obtain ⟨-, e, hhead, hcomplete⟩ := hready
    rw [waiting_idle hloop] at hhead
    by_contra htimer
    rw [hInv.progress hloop (Bool.eq_false_iff.mpr htimer) e hhead] at hcomplete
    cases hcomplete

theorem leadsTo_ready (id : Nat) : Run.LeadsTo (step p) init as (Decoding k id) (Ready k) := by
  -- the image is there in the end
  have hidle : Run.LeadsTo (step p) init as
      (fun s => Decoding k id s ∧ s.emitting = none ∧ id ∈ s.loading) (Ready k) := by
    refine Run.leadsTo_of_fair (stateAt_inv p as) (hfair.images id) ?_ ?_
    · intro s a hInv hdecoding
      rcases (moves_step hInv a).1 with hsame | hmoves
      · rw [hsame]
        exact .inl hdecoding
      · exact hdecoding.moves hmoves
    · rintro s a hInv ⟨hlength, e, hhead, -, rfl⟩ ⟨hidle, hmem⟩ ha
      have hstep : step p s a = s.imageDone e.id := by
        rcases ha with rfl | rfl
        · simp only [step, hidle, if_pos hmem]
        · simp only [step, hidle, if_pos hmem]
      rw [hstep]
      rw [waiting_idle hidle] at hhead
      refine ⟨hlength, markComplete e.id e, ?_, markComplete_self e⟩
      rw [waiting_idle (s := s.imageDone e.id) hidle]
      show (s.slurpQueue.map (markComplete e.id)).head? = _
      rw [List.head?_map, hhead]
      rfl
  have hloading : ∀ s : Socket, s.Inv → Decoding k id s → s.emitting = none → id ∈ s.loading := by
    rintro s hInv ⟨-, e, hhead, hincomplete, rfl⟩ hidle
    rw [waiting_idle hidle] at hhead
    exact hInv.images e (List.mem_of_head? hhead) hincomplete
  -- an emission stops before the message
  have hbusy : Run.LeadsTo (step p) init as
      (fun s => (Decoding k id s ∧ s.emitting.isSome) ∧ s.emitting.isSome)
      (fun s => Ready k s ∨ Decoding k id s ∧ s.emitting = none ∧ id ∈ s.loading) := by
    have hstops : ∀ s s' : Socket, s'.Inv → Decoding k id s → s.emitting.isSome → s.Moves s' →
        Ready k s' ∨ Decoding k id s' ∧ s'.emitting = none ∧ id ∈ s'.loading := by
      intro s s' hInv' hdecoding hbusy hmoves
      have hidle' := hdecoding.moves_busy hbusy hmoves
      rcases hdecoding.moves hmoves with hdecoding' | hready
      · exact .inr ⟨hdecoding', hidle', hloading s' hInv' hdecoding' hidle'⟩
      · exact .inl hready
    refine Run.leadsTo_of_fair (stateAt_inv p as) hfair.emission ?_ ?_
    · rintro s a hInv ⟨hdecoding, hbusy⟩
      rcases (moves_step hInv a).1 with hsame | hmoves
      · rw [hsame]
        exact .inl ⟨hdecoding, hbusy⟩
      · exact .inr (hstops s _ (moves_step hInv a).2 hdecoding hbusy hmoves)
    · rintro s a hInv ⟨hdecoding, hbusy⟩ - rfl
      obtain ⟨loop, hloop⟩ := Option.isSome_iff_exists.mp hbusy
      obtain ⟨hmoves, hInv'⟩ := moves_emit hInv hloop
      rw [step, hloop]
      exact hstops s _ hInv' hdecoding hbusy hmoves
  have hthere : Run.LeadsTo (step p) init as (Ready k) (Ready k) := fun n hn => ⟨n, Nat.le_refl n, hn⟩
  refine Run.LeadsTo.of_inv (stateAt_inv p as) ?_ ((hbusy.trans (hthere.or hidle)).or hidle)
  intro s hInv hdecoding
  cases hloop : s.emitting with
  | some loop => exact .inl ⟨⟨hdecoding, rfl⟩, rfl⟩
  | none => exact .inr ⟨hdecoding, rfl, hloading s hInv hdecoding hloop⟩

/-- Messages are handed on one after the other. -/
theorem done_of_next (n : Nat) (hk : k < (Run.stateAt (step p) init as n).received.length)
    (hnext : k ≤ (Run.stateAt (step p) init as n).delivered.length) :
    ∃ m, n ≤ m ∧ Done k (Run.stateAt (step p) init as m) := by
  rcases Nat.eq_or_lt_of_le hnext with hlength | hdone
  · have hready := leadsTo_done hfair k
    rcases ready_or_decoding (stateAt_inv p as n) hlength.symm hk with hstage | ⟨id, hstage⟩
    · exact hready n hstage
    · exact (leadsTo_ready hfair k id).trans hready n hstage
  · exact ⟨n, Nat.le_refl n, hdone⟩

/-- **Every message is handed on in the end.** -/
theorem eventually_done (n : Nat) (hk : k < (Run.stateAt (step p) init as n).received.length) :
    ∃ m, n ≤ m ∧ Done k (Run.stateAt (step p) init as m) := by
  induction k with
  | zero => exact done_of_next hfair 0 n hk (Nat.zero_le _)
  | succ k ih =>
    obtain ⟨m, hm, hdone⟩ := ih (Nat.lt_of_succ_lt hk)
    have hk' := Nat.lt_of_lt_of_le hk (received_append_later p as hm).length_le
    obtain ⟨l, hl, hdone'⟩ := done_of_next hfair (k + 1) m hk' hdone
    exact ⟨l, Nat.le_trans hm hl, hdone'⟩

end Runs

/-- **Every message is handed on once, in the order of arrival**, and in no state is something in the
queue while nothing is under way. -/
theorem slurped_in_order (p : Platform) :
    (∀ actions : List (Action p), Run.Always (step p) Delivering init actions) ∧
      ∀ as : Nat → Action p, Fair p as → ∀ (n k : Nat) (data : Data),
        (Run.stateAt (step p) init as n).received[k]? = some data →
          ∃ m, n ≤ m ∧ (Run.stateAt (step p) init as m).delivered[k]? = some data := by
  refine ⟨fun actions => ?_, fun as hfair n k data hdata => ?_⟩
  · exact Run.always_of_inv (fun _ => delivering_of_inv) (fun _ a h => (moves_step h a).2) init_inv
  · obtain ⟨hk, -⟩ := List.getElem?_eq_some_iff.mp hdata
    obtain ⟨m, hm, hdone⟩ := eventually_done hfair k n hk
    refine ⟨m, hm, ?_⟩
    obtain ⟨later, hlater⟩ := received_append_later p as hm
    have horder := (stateAt_inv p as m).order
    have hread : (Run.stateAt (step p) init as m).received[k]? = some data := by
      rw [← hlater, List.getElem?_append_left hk, hdata]
    rwa [← horder, List.getElem?_append_left hdone] at hread

/-! ## A picture and a word -/

def pong : Message ⟨false, false⟩ where
  data := .text (Utf16.encode "pong".toList)
  binary := by
    intro units h _
    cases h
    exact .inl (by decide)

/-- The picture of a font, which the browser has to decode. -/
def renderfont : Message ⟨false, false⟩ where
  data := .buffer (Http.ascii "renderfont: font=Carlito\n" ++ [0x89, 80, 78, 71])
  binary := by
    intro units h
    cases h

/-- The picture comes first and the word right behind it. The first emission stops before the picture; when
that is decoded, a second one hands on both. Nothing happens from then on. -/
def pictureRun : Nat → Action ⟨false, false⟩
  | 0 => .message renderfont
  | 1 => .message pong
  | 3 => .emit
  | 4 => .load 0
  | 6 => .emit
  | 7 => .emit
  | 8 => .emit
  | _ => .timer

def pictureState (n : Nat) : Socket := Run.stateAt (step ⟨false, false⟩) init pictureRun n

theorem pictureState_end (n : Nat) :
    pictureState (n + 9) = ⟨[], false, none, [], [renderfont.data, pong.data], [renderfont.data, pong.data]⟩ := by
  induction n with
  | zero => decide +kernel
  | succ n ih =>
    rw [pictureState, Run.stateAt, ← pictureState, ih]
    rfl

/-- When the timer can go off, when there is an emission, and which images are being decoded. -/
theorem pictureState_enabled (n : Nat) :
    ((pictureState n).emitting = none ∧ (pictureState n).slurpTimer = true ↔ n ∈ [1, 2, 5]) ∧
      ((pictureState n).emitting.isSome ↔ n ∈ [3, 6, 7, 8]) ∧
      (pictureState n).loading = if n ∈ [1, 2, 3, 4] then [0] else [] := by
  by_cases hn : n < 9
  · revert n
    decide +kernel
  · obtain ⟨k, rfl⟩ := Nat.exists_eq_add_of_le' (Nat.le_of_not_lt hn)
    rw [pictureState_end]
    simp

/-- Whatever can be done is done then or soon after. -/
theorem pictureRun_fair : Fair ⟨false, false⟩ pictureRun where
  timer := by
    intro n h
    have hn := (pictureState_enabled n).1.mp h
    simp only [List.mem_cons, List.not_mem_nil, or_false] at hn
    rcases hn with rfl | rfl | rfl
    · exact ⟨2, by decide, rfl, (pictureState_enabled 2).1.mpr (by decide)⟩
    · exact ⟨2, Nat.le_refl 2, rfl, h⟩
    · exact ⟨5, Nat.le_refl 5, rfl, h⟩
  emission := by
    intro n h
    have hn := (pictureState_enabled n).2.1.mp h
    simp only [List.mem_cons, List.not_mem_nil, or_false] at hn
    rcases hn with rfl | rfl | rfl | rfl
    · exact ⟨3, Nat.le_refl 3, rfl, h⟩
    · exact ⟨6, Nat.le_refl 6, rfl, h⟩
    · exact ⟨7, Nat.le_refl 7, rfl, h⟩
    · exact ⟨8, Nat.le_refl 8, rfl, h⟩
  images := by
    intro id n h
    obtain ⟨-, hloading⟩ := h
    rw [← pictureState, (pictureState_enabled n).2.2] at hloading
    split at hloading
    · rename_i hdecoding
      obtain rfl := List.mem_singleton.mp hloading
      simp only [List.mem_cons, List.not_mem_nil, or_false] at hdecoding
      refine ⟨4, by omega, .inl rfl, ?_, ?_⟩
      · rw [← Option.not_isSome_iff_eq_none, ← pictureState, (pictureState_enabled 4).2.1]
        decide
      · rw [← pictureState, (pictureState_enabled 4).2.2]
        decide
    · cases hloading

/-- The picture and the word are both handed on, each in its place. -/
theorem slurped_in_order_picture :
    (∃ m, 2 ≤ m ∧ (pictureState m).delivered[0]? = some renderfont.data) ∧
      ∃ m, 2 ≤ m ∧ (pictureState m).delivered[1]? = some pong.data :=
  have h := (slurped_in_order ⟨false, false⟩).2 pictureRun pictureRun_fair
  ⟨h 2 0 renderfont.data (by decide +kernel), h 2 1 pong.data (by decide +kernel)⟩

/-- The first emission, which meets the picture before it is decoded, hands nothing on. -/
example : (pictureState 4).delivered = [] ∧ (pictureState 4).slurpQueue.length = 2 ∧
    (pictureState 4).slurpTimer = false := by decide +kernel

end Oxool.Browser.Slurp
