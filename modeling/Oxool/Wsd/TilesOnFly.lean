import Mathlib.Data.List.Perm.Subperm
import Oxool.Tile.Limits
import Oxool.Wsd.SenderQueue

/-!
# Tiles on fly (`wsd/ClientSession.cpp`)

The server does not send a browser more tiles than it can take in. It keeps the wire ids of those
on their way in `_tilesOnFly` and takes one out when the browser says that the tile was processed.
A wire id is put in when its message is enqueued, if the queue is longer afterwards; the queue is not
longer when the message took the place of another, and then the list keeps the wire id of a message
that nobody will ever receive.

`wire` and `received` are a record: what the text of each message says its wire id is, and which of
them were handed to the socket and have not been acknowledged. The code never reads them. The time
at which each tile was sent is left out, as it is only read by the time-out.
-/

set_option autoImplicit false

namespace Oxool.Wsd.TilesOnFly

open Oxool.Http (Bytes ascii)
open Oxool.Protocol
open Oxool.Wsd.SenderQueue (Message SingleCommand Item replaces deduplicate)

/-! ## The session -/

/-- A message the server sends. A tile is written by `TileDesc::serialize`. -/
inductive Outgoing
  | tile (desc : TileDesc)
  | delta (desc : TileDesc)
  | single (command : SingleCommand)
  | invalidateviewcursor (viewId : String)
  | other
deriving DecidableEq

/-- The wire id in the text of the message. -/
def Outgoing.wid : Outgoing → Option UInt32
  | .tile desc => some desc.wireId
  | .delta desc => some desc.wireId
  | _ => none

/-- The message as the server reads it again; `none` where `TileDesc::parse` throws. -/
def Outgoing.read : Outgoing → Option Message
  | .tile desc => (TileDesc.parse (tokenize (desc.serialize (ascii "tile:")) blank)).map .tile
  | .delta desc => (TileDesc.parse (tokenize (desc.serialize (ascii "delta:")) blank)).map .delta
  | .single command => some (.single command)
  | .invalidateviewcursor viewId => some (.invalidateviewcursor viewId)
  | .other => some .other

/-- The wire id of the tile that was read. -/
def wireIdOf : Message → Option UInt32
  | .tile desc => some desc.wireId
  | .delta desc => some desc.wireId
  | _ => none

/-- `Util::i32FromString`: the value, and whether it is one. -/
def i32FromString (input : Bytes) : Int × Bool :=
  match strtol input with
  | none => (0, false)
  | some (value, outOfRange) => (toInt32 value, !outOfRange)

structure Session where
  sender : SenderQueue.State := {}
  tilesOnFly : List UInt32 := []
  wire : List (Option UInt32) := []
  received : List UInt32 := []

namespace Session

/-- `enqueueSendMessage`, with `addTileOnFly`. -/
def enqueueSendMessage (s : Session) (data : Outgoing) : Session :=
  if s.sender.closeFrame then s
  else
    match data.read with
    | none => s
    | some m =>
      let sizeBefore := s.sender.queue.length
      let newSize := (s.sender.enqueue m).queue.length
      { s with
        sender := s.sender.enqueue m
        tilesOnFly :=
          if sizeBefore ≠ newSize then s.tilesOnFly ++ (wireIdOf m).toList else s.tilesOnFly
        wire := if s.sender.terminationFlag then s.wire else s.wire ++ [data.wid] }

/-- The wire id in the text of a queued message. -/
def widOf (s : Session) (e : Item) : Option UInt32 := s.wire.getD e.seq none

/-- One round of the loop of `writeQueuedMessages`. -/
def writeQueuedMessage (s : Session) : Session :=
  { s with
    sender := s.sender.dequeue
    received :=
      if s.sender.terminationFlag then s.received
      else s.received ++ (s.sender.queue.head?.bind s.widOf).toList }

/-- `onTileProcessed`. -/
def onTileProcessed (tilesOnFly : List UInt32) (wireId : UInt32) : List UInt32 :=
  tilesOnFly.erase wireId

/-- The `tileprocessed wids=...` of a client. A token that is not a number counts as its value all
the same. -/
def tileprocessed (s : Session) (wids : Bytes) : Session :=
  { s with
    tilesOnFly := (tokenize wids comma).foldl
      (fun onFly token => onTileProcessed onFly (toUInt32 (i32FromString token).1)) s.tilesOnFly }

inductive Action
  | enqueueSendMessage (data : Outgoing)
  | writeQueuedMessage
  /-- The client acknowledges some of the messages it received. -/
  | acknowledge (wids : List UInt32)
  | setTerminationFlag
  | close

def act (s : Session) : Action → Session
  | .enqueueSendMessage data => s.enqueueSendMessage data
  | .writeQueuedMessage => s.writeQueuedMessage
  | .acknowledge wids =>
    -- a client acknowledges a message once, after it was sent
    if wids.Subperm s.received then
      { s.tileprocessed (TileCombined.commaList (wids.map fun w => (w.toNat : Int))) with
        received := s.received.diff wids }
    else s
  | .setTerminationFlag => { s with sender := { s.sender with terminationFlag := true } }
  | .close => { s with sender := { s.sender with closeFrame := true } }

/-- The wire ids of the messages still queued. -/
def queued (s : Session) : List UInt32 := s.sender.queue.filterMap s.widOf

/-- The tiles on fly are those queued and those sent and not acknowledged; once there are none of
these, no tile is on fly. -/
structure Accounted (s : Session) : Prop where
  onFly : s.tilesOnFly.Perm (s.queued ++ s.received)
  landed : s.queued = [] → s.received = [] → s.tilesOnFly = []

/-- The message is tracked as what it is: if it takes the place of a queued one, then of one with the
same wire id, and if not, then its wire id is one that is read as it was written. -/
def Tracked (s : Session) (data : Outgoing) (m : Message) : Prop :=
  match s.sender.queue.find? (replaces m) with
  | some old => s.widOf old = data.wid
  | none => ∀ w ∈ data.wid, w.toNat ≤ intMax

/-- Only a message that the queue accepts can upset the account. -/
def Harmless (s : Session) : Action → Prop
  | .enqueueSendMessage data =>
    s.sender.closeFrame = false → s.sender.terminationFlag = false → ∀ m ∈ data.read,
      s.Tracked data m
  | _ => True

/-! ## What is read of a message -/

/-- The wire id that is tracked is the one in the text, up to the largest `int`. -/
theorem wireIdOf_read {data : Outgoing} {m : Message} (h : m ∈ data.read) :
    wireIdOf m = data.wid ↔ ∀ w ∈ data.wid, w.toNat ≤ intMax := by
  have htile : ∀ {desc tile : TileDesc} (word : Bytes), TileDesc.IsWord word →
      TileDesc.parse (tokenize (desc.serialize word) blank) = some tile →
      (some tile.wireId = some desc.wireId ↔ desc.wireId.toNat ≤ intMax) := by
    intro desc tile word hword hparse
    have hline := TileDesc.parse_serializeLine desc hword (.inl rfl)
    rw [TileDesc.serializeLine, List.append_nil] at hline
    rw [hline] at hparse
    obtain ⟨-, -, -, -, -, -, -, -, -, -, -, -, -, hwid⟩ := TileDesc.ofInts_eq_some hparse
    rw [hwid, TileDesc.wireIdArgument_wid, Option.some.injEq, TileDesc.toUInt32_safe_atoi]
  cases data with
  | tile desc =>
    rw [Outgoing.read, Option.mem_map] at h
    obtain ⟨tile, hparse, rfl⟩ := h
    simpa [wireIdOf, Outgoing.wid] using
      htile (ascii "tile:") ⟨by decide, by decide, by decide⟩ hparse
  | delta desc =>
    rw [Outgoing.read, Option.mem_map] at h
    obtain ⟨tile, hparse, rfl⟩ := h
    simpa [wireIdOf, Outgoing.wid] using
      htile (ascii "delta:") ⟨by decide, by decide, by decide⟩ hparse
  | single command =>
    obtain rfl : Message.single command = m := by simpa [Outgoing.read] using h
    simp [wireIdOf, Outgoing.wid]
  | invalidateviewcursor viewId =>
    obtain rfl : Message.invalidateviewcursor viewId = m := by simpa [Outgoing.read] using h
    simp [wireIdOf, Outgoing.wid]
  | other =>
    obtain rfl : Message.other = m := by simpa [Outgoing.read] using h
    simp [wireIdOf, Outgoing.wid]

/-- The wire ids that the client writes are those that the server reads. -/
theorem tileprocessed_tilesOnFly (s : Session) (wids : List UInt32) :
    (s.tileprocessed (TileCombined.commaList (wids.map fun w => (w.toNat : Int)))).tilesOnFly =
      s.tilesOnFly.diff wids := by
  have hread : ∀ w : UInt32, toUInt32 (i32FromString (decimal w.toNat)).1 = w := by
    intro w
    have hparse := TileCombined.stringToUInt32_decimal w
    rw [stringToUInt32, stringToInteger] at hparse
    rw [i32FromString]
    cases hlong : strtol (decimal w.toNat) with
    | none => simp [hlong] at hparse
    | some value =>
      obtain ⟨value, outOfRange⟩ := value
      cases outOfRange with
      | true => simp [hlong] at hparse
      | false => simpa [hlong] using hparse
  rw [tileprocessed, TileCombined.tokenize_commaList, List.diff_eq_foldl, List.foldl_map,
    List.foldl_map]
  dsimp only
  simp only [hread]
  rfl

/-! ## Accounts -/

/-- Two lists with the same rest have the same elements if their first ones are the same. -/
theorem perm_toList_append {a b : Option UInt32} {l : List UInt32} :
    (a.toList ++ l).Perm (b.toList ++ l) ↔ a = b := by
  rw [List.perm_append_right_iff]
  cases a <;> cases b <;> simp

/-- A client's acknowledgements come off both sides. -/
theorem perm_diff {onFly queued received wids : List UInt32}
    (h : onFly.Perm (queued ++ received)) (hsub : wids.Subperm received) :
    (onFly.diff wids).Perm (queued ++ received.diff wids) := by
  have hsplit : (wids ++ received.diff wids).Perm received :=
    List.subperm_append_diff_self_of_count_le fun w _ => hsub.count_le w
  have hfront : onFly.Perm (wids ++ (queued ++ received.diff wids)) := by
    refine h.trans ((hsplit.symm.append_left queued).trans ?_)
    rw [← List.append_assoc, ← List.append_assoc]
    exact List.perm_append_comm.append_right _
  refine (hfront.diff_right wids).trans ?_
  have hcancel : ∀ (ws l : List UInt32), (ws ++ l).diff ws = l := by
    intro ws
    induction ws with
    | nil => simp
    | cons w ws ih =>
      intro l
      rw [List.cons_append, List.diff_cons, List.erase_cons_head]
      exact ih l
  rw [hcancel]

theorem accounted_iff {s : Session} : s.Accounted ↔ s.tilesOnFly.Perm (s.queued ++ s.received) := by
  refine ⟨Accounted.onFly, fun h => ⟨h, fun hqueued hreceived => ?_⟩⟩
  rw [hqueued, hreceived] at h
  exact h.eq_nil

/-- What holds in every run: the record says of each message whether it is a tile. -/
structure Inv (s : Session) : Prop where
  sender : SenderQueue.Inv s.sender
  length : s.wire.length = s.sender.history.length
  kind : ∀ e ∈ s.sender.history, (s.widOf e).isSome = (wireIdOf e.message).isSome

theorem isSome_read {data : Outgoing} {m : Message} (h : m ∈ data.read) :
    data.wid.isSome = (wireIdOf m).isSome := by
  cases data with
  | tile desc =>
    rw [Outgoing.read, Option.mem_map] at h
    obtain ⟨tile, -, rfl⟩ := h
    rfl
  | delta desc =>
    rw [Outgoing.read, Option.mem_map] at h
    obtain ⟨tile, -, rfl⟩ := h
    rfl
  | single command =>
    obtain rfl : Message.single command = m := by simpa [Outgoing.read] using h
    rfl
  | invalidateviewcursor viewId =>
    obtain rfl : Message.invalidateviewcursor viewId = m := by simpa [Outgoing.read] using h
    rfl
  | other =>
    obtain rfl : Message.other = m := by simpa [Outgoing.read] using h
    rfl

/-- **What sending a message can do**: nothing, or the message is enqueued. -/
theorem enqueueSendMessage_cases (s : Session) (data : Outgoing) :
    (s.enqueueSendMessage data = s ∧ ¬ (s.sender.closeFrame = false ∧
        s.sender.terminationFlag = false ∧ ∃ m, m ∈ data.read)) ∨
      ∃ m ∈ data.read, s.sender.closeFrame = false ∧ s.sender.terminationFlag = false ∧
        s.enqueueSendMessage data = { s with
          sender := s.sender.enqueue m
          tilesOnFly :=
            if s.sender.queue.length ≠ (deduplicate m s.sender.queue).length + 1 then
              s.tilesOnFly ++ (wireIdOf m).toList
            else s.tilesOnFly
          wire := s.wire ++ [data.wid] } := by
  cases hclose : s.sender.closeFrame with
  | true => exact .inl ⟨by simp [enqueueSendMessage, hclose], by simp⟩
  | false =>
    cases hread : data.read with
    | none => exact .inl ⟨by simp [enqueueSendMessage, hclose, hread], by simp⟩
    | some m =>
      cases hflag : s.sender.terminationFlag with
      | true =>
        refine .inl ⟨?_, by simp⟩
        have henqueue : s.sender.enqueue m = s.sender := by simp [SenderQueue.State.enqueue, hflag]
        simp [enqueueSendMessage, hclose, hread, hflag, henqueue]
      | false =>
        refine .inr ⟨m, rfl, rfl, rfl, ?_⟩
        have hqueue : (s.sender.enqueue m).queue.length = (deduplicate m s.sender.queue).length + 1 := by
          simp [SenderQueue.State.enqueue, hflag]
        rw [enqueueSendMessage, if_neg (by simp [hclose]), hread]
        dsimp only
        rw [hqueue, hflag]
        rfl

theorem history_enqueue {sender : SenderQueue.State} (h : sender.terminationFlag = false)
    (m : Message) : (sender.enqueue m).history = sender.history ++ [⟨sender.history.length, m⟩] := by
  simp [SenderQueue.State.enqueue, h]

theorem queue_enqueue {sender : SenderQueue.State} (h : sender.terminationFlag = false)
    (m : Message) :
    (sender.enqueue m).queue = deduplicate m sender.queue ++ [⟨sender.history.length, m⟩] := by
  simp [SenderQueue.State.enqueue, h]

/-- A record with one entry more says the same of what was in it. -/
theorem Inv.getD_wire {s : Session} (h : s.Inv) {e : Item} (he : e ∈ s.sender.history)
    (w : Option UInt32) : (s.wire ++ [w]).getD e.seq none = s.widOf e := by
  have hlt := h.sender.numbered.seq_lt he
  rw [← h.length] at hlt
  rw [widOf, List.getD_eq_getElem?_getD, List.getD_eq_getElem?_getD, List.getElem?_append_left hlt]

theorem Inv.getD_wire_new {s : Session} (h : s.Inv) (w : Option UInt32) :
    (s.wire ++ [w]).getD s.sender.history.length none = w := by
  rw [← h.length, List.getD_eq_getElem?_getD]
  simp

theorem Inv.act {s : Session} (h : s.Inv) (a : Action) : (s.act a).Inv := by
  cases a with
  | enqueueSendMessage data =>
    rcases s.enqueueSendMessage_cases data with ⟨heq, -⟩ | ⟨m, hm, hclose, hflag, heq⟩
    · rw [Session.act, heq]
      exact h
    · rw [Session.act, heq]
      refine ⟨?_, ?_, ?_⟩
      · have hsender := h.sender.act (.enqueueSendMessage m)
        rwa [SenderQueue.State.act, SenderQueue.State.enqueueSendMessage, if_neg (by simp [hclose])]
          at hsender
      · simp [history_enqueue hflag, h.length]
      · intro e he
        rw [widOf]
        dsimp only at he ⊢
        rw [history_enqueue hflag] at he
        rcases List.mem_append.mp he with he | he
        · rw [h.getD_wire he]
          exact h.kind e he
        · obtain rfl := List.mem_singleton.mp he
          rw [h.getD_wire_new]
          exact isSome_read hm
  | writeQueuedMessage =>
    have hsender := h.sender.act .dequeue
    have hhistory : s.sender.dequeue.history = s.sender.history := by
      rw [SenderQueue.State.dequeue]
      split
      · rfl
      · split <;> rfl
    refine ⟨hsender, ?_, ?_⟩
    · rw [Session.act, writeQueuedMessage, hhistory]
      exact h.length
    · intro e he
      rw [Session.act, writeQueuedMessage, hhistory] at he
      exact h.kind e he
  | acknowledge wids =>
    rw [Session.act]
    split
    · exact ⟨h.sender, h.length, h.kind⟩
    · exact h
  | setTerminationFlag => exact ⟨h.sender.act .setTerminationFlag, h.length, h.kind⟩
  | close => exact ⟨h.sender.act .close, h.length, h.kind⟩

/-! ## When a step keeps the account -/

theorem Inv.mem_history {s : Session} (h : s.Inv) {e : Item} (he : e ∈ s.sender.queue) :
    e ∈ s.sender.history :=
  h.sender.sublist.subset (List.mem_append_right _ he)

theorem filterMap_cons_toList (f : Item → Option UInt32) (x : Item) (l : List Item) :
    (x :: l).filterMap f = (f x).toList ++ l.filterMap f := by
  cases hx : f x with
  | none => rw [List.filterMap_cons_none hx, Option.toList_none, List.nil_append]
  | some w => rw [List.filterMap_cons_some hx, Option.toList_some, List.singleton_append]

/-- The wire ids of some queued messages and the new one. -/
theorem Inv.filterMap_wire {s : Session} (h : s.Inv) {l : List Item}
    (hl : ∀ e ∈ l, e ∈ s.sender.history) (m : Message) (w : Option UInt32) :
    (l ++ [(⟨s.sender.history.length, m⟩ : Item)]).filterMap
      (fun e => (s.wire ++ [w]).getD e.seq none) = l.filterMap s.widOf ++ w.toList := by
  rw [List.filterMap_append, List.filterMap_congr fun e he => h.getD_wire (hl e he) w,
    filterMap_cons_toList, h.getD_wire_new, List.filterMap_nil, List.append_nil]

theorem filterMap_middle {front back : List Item} {x : Item} (f : Item → Option UInt32) :
    ((front ++ x :: back).filterMap f).Perm ((f x).toList ++ (front ++ back).filterMap f) := by
  rw [List.filterMap_append, List.filterMap_append, filterMap_cons_toList, ← List.append_assoc,
    ← List.append_assoc]
  exact List.perm_append_comm.append_right _

/-- The account with one entry more on either side. -/
theorem perm_snoc_iff {onFly queued received : List UInt32} {a b : Option UInt32}
    (h : onFly.Perm (queued ++ received)) :
    (onFly ++ a.toList).Perm (queued ++ b.toList ++ received) ↔ a = b := by
  have hright : (queued ++ b.toList ++ received).Perm (b.toList ++ onFly) := by
    refine (List.perm_append_comm.append_right received).trans ?_
    rw [List.append_assoc]
    exact h.symm.append_left _
  rw [← @perm_toList_append a b onFly, List.perm_append_comm.congr_left]
  exact hright.congr_right _

/-- **A message keeps the account exactly when it is tracked as what it is.** -/
theorem Accounted.enqueue_iff {s : Session} (h : s.Inv) (hs : s.Accounted) {data : Outgoing}
    {m : Message} (hm : m ∈ data.read) (hflag : s.sender.terminationFlag = false) :
    (if s.sender.queue.length ≠ (deduplicate m s.sender.queue).length + 1 then
        s.tilesOnFly ++ (wireIdOf m).toList
      else s.tilesOnFly).Perm
        ((s.sender.enqueue m).queue.filterMap (fun e => (s.wire ++ [data.wid]).getD e.seq none) ++
          s.received) ↔ s.Tracked data m := by
  rw [queue_enqueue hflag, Tracked]
  rcases SenderQueue.deduplicate_cases m s.sender.queue with
    ⟨hsame, hnone⟩ | ⟨x, front, back, hq, hdedup, hx, hfront⟩
  · have hfind : s.sender.queue.find? (replaces m) = none := by
      rw [List.find?_eq_none]
      intro e he
      simp [hnone e he]
    rw [hsame, if_pos (by omega), h.filterMap_wire fun e he => h.mem_history he]
    simp only [hfind]
    rw [← wireIdOf_read hm]
    exact perm_snoc_iff hs.onFly
  · have hfind : s.sender.queue.find? (replaces m) = some x := by
      rw [hq, List.find?_append, List.find?_eq_none.mpr fun e he => by simp [hfront e he],
        List.find?_cons_of_pos hx]
      rfl
    have hlength : s.sender.queue.length = (front ++ back).length + 1 := by
      rw [hq]
      simp
      omega
    have hsub : ∀ e ∈ front ++ back, e ∈ s.sender.history := by
      intro e he
      refine h.mem_history ?_
      rw [hq]
      simp only [List.mem_append, List.mem_cons] at he ⊢
      exact he.imp_right .inr
    rw [hdedup, if_neg (by simp [hlength]), h.filterMap_wire hsub]
    simp only [hfind]
    have honFly : s.tilesOnFly.Perm ((s.widOf x).toList ++ ((front ++ back).filterMap s.widOf ++
        s.received)) := by
      refine hs.onFly.trans ?_
      rw [queued, hq, ← List.append_assoc]
      exact (filterMap_middle s.widOf).append_right _
    have hright : ((front ++ back).filterMap s.widOf ++ data.wid.toList ++ s.received).Perm
        (data.wid.toList ++ ((front ++ back).filterMap s.widOf ++ s.received)) := by
      rw [← List.append_assoc]
      exact List.perm_append_comm.append_right _
    rw [honFly.congr_left, hright.congr_right, perm_toList_append]

/-- **The account survives a step exactly when the step is harmless.** -/
theorem accounted_act {s : Session} (h : s.Inv) (hs : s.Accounted) (a : Action) :
    (s.act a).Accounted ↔ s.Harmless a := by
  cases a with
  | enqueueSendMessage data =>
    rcases s.enqueueSendMessage_cases data with ⟨heq, hnot⟩ | ⟨m, hm, hclose, hflag, heq⟩
    · rw [act, heq]
      refine iff_of_true hs ?_
      intro hclose hflag m hm
      exact absurd ⟨hclose, hflag, m, hm⟩ hnot
    · rw [act, heq, accounted_iff]
      have honly : s.Harmless (.enqueueSendMessage data) ↔ s.Tracked data m := by
        constructor
        · intro hall
          exact hall hclose hflag m hm
        · intro htracked _ _ m' hm'
          obtain rfl : m = m' := Option.mem_unique hm hm'
          exact htracked
      rw [honly]
      exact hs.enqueue_iff h hm hflag
  | writeQueuedMessage =>
    refine iff_of_true (accounted_iff.mpr ?_) trivial
    have honFly := hs.onFly
    rw [act, writeQueuedMessage, queued, SenderQueue.State.dequeue]
    dsimp only
    cases hflag : s.sender.terminationFlag with
    | true => exact honFly
    | false =>
      simp only [Bool.false_eq_true, if_false]
      cases hq : s.sender.queue with
      | nil => simpa [queued, hq] using honFly
      | cons e queue =>
        refine honFly.trans ?_
        rw [queued, hq, filterMap_cons_toList, List.append_assoc, ← List.append_assoc _ s.received]
        exact List.perm_append_comm
  | acknowledge wids =>
    refine iff_of_true ?_ trivial
    rw [act]
    split
    · rename_i hsub
      rw [accounted_iff]
      dsimp only
      rw [tileprocessed_tilesOnFly]
      exact perm_diff hs.onFly hsub
    · exact hs
  | setTerminationFlag => exact iff_of_true ⟨hs.onFly, hs.landed⟩ trivial
  | close => exact iff_of_true ⟨hs.onFly, hs.landed⟩ trivial

/-- **Tiles-on-fly accounting.** In every run, the tiles on fly are those queued and those sent and
not acknowledged throughout, exactly when every message that took the place of another had its wire
id, and every other tile a wire id that is an `int`. -/
theorem accounted_iff_harmless (actions : List Action) :
    Run.Always act Accounted {} actions ↔ Run.Meets act Harmless {} actions := by
  refine Run.always_iff_meets (fun _ a (h : Inv _) => h.act a) (fun _ a h hs => accounted_act h hs a)
    ?_ (accounted_iff.mpr (List.Perm.refl _))
  exact ⟨SenderQueue.inv_init, rfl, by simp⟩

/-- A tile with the given version and wire id. -/
def flyingTile (ver : Int) (wireId : UInt32) : TileDesc := TileDesc.limitTile ver 0 wireId

theorem read_tile (desc : TileDesc) : (Outgoing.tile desc).read = (TileDesc.parse desc.tokensOf).map .tile := by
  have hline := TileDesc.parse_serializeLine desc (⟨by decide, by decide, by decide⟩ : TileDesc.IsWord (ascii "tile:"))
    (.inl rfl)
  rw [TileDesc.serializeLine, List.append_nil] at hline
  rw [Outgoing.read, hline]

theorem read_flyingTile : (Outgoing.tile (flyingTile 1 1)).read = some (.tile (flyingTile 1 1)) ∧
    (Outgoing.tile (flyingTile 2 2)).read = some (.tile (flyingTile 2 2)) := by
  rw [read_tile, read_tile]
  decide +kernel

/-- A tile that replaces a queued one is not tracked, and the one it replaces stays on fly when all
is received and acknowledged. -/
theorem not_accounted :
    ¬ ∀ actions : List Action, Run.Always act Accounted {} actions := by
  intro h
  obtain ⟨hread, hread'⟩ := read_flyingTile
  have hlast := (h [.enqueueSendMessage (.tile (flyingTile 1 1)),
    .enqueueSendMessage (.tile (flyingTile 2 2)), .writeQueuedMessage, .acknowledge [2]]).last.landed
  have hfirst : ({} : Session).act (.enqueueSendMessage (.tile (flyingTile 1 1))) =
      { sender := ({} : SenderQueue.State).enqueue (.tile (flyingTile 1 1)), tilesOnFly := [1], wire := [some 1] } := by
    rw [act, enqueueSendMessage, hread]
    rfl
  rw [List.foldl_cons, hfirst, List.foldl_cons, act, enqueueSendMessage, hread'] at hlast
  revert hlast
  decide +kernel

end Session

end Oxool.Wsd.TilesOnFly
