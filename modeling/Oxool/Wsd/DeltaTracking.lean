import Oxool.Wsd.TileServing
import Oxool.Lib.Run

/-!
# What a session is sent of a tile

The payloads a session is sent for a tile are pieces of the tile's cache entry: a `tile:` is all of
it, and a `delta:` goes on where the last message stopped. This is `InOrder`, a property of the
record of one session and one tile. The server relies on the tracker for it: the wire id in the
tracker has to be that of the last frame sent. `SessionOk` says so, for any cache; the rest of the
module is that every step keeps it.

A request answered from the cache writes its own wire id into the tracker if it has one. A run
keeps its order when no request does that, or only with the wire id of the newest frame.
-/

set_option autoImplicit false

namespace Oxool.Wsd.Tiles

open Oxool.Delta (isKeyframe)

/-! ## The order of messages -/

/-- The messages about one tile. -/
def sendsFor (key : CacheKey) (sent : List Sent) : List Sent :=
  sent.filter fun m => m.desc.cacheKey = key

/-- The payloads since the last `tile:` message, together. -/
def sinceTile (sends : List Sent) : List UInt8 :=
  sends.foldl (fun bytes m => if m.keyframe then m.payload else bytes ++ m.payload) []

/-- Every `tile:` has all that the cache held, and every `delta:` goes on where the message before it
stopped: `prev` is what the cache held then. -/
def Continues : Option (List UInt8) → List Sent → Prop
  | _, [] => True
  | prev, m :: rest =>
    (if m.keyframe then m.payload = m.held else ∃ before, prev = some before ∧
      m.held = before ++ m.payload) ∧ Continues (some m.held) rest

/-- Nothing twice, nothing left out, no `delta:` first; and the payloads since the last `tile:` are
what the cache held at the last message. -/
def InOrder (sends : List Sent) : Prop :=
  Continues none sends ∧ ∀ last, sends.getLast? = some last → sinceTile sends = last.held

/-- What the cache held at the last message. -/
def heldLast (sends : List Sent) : Option (List UInt8) := sends.getLast?.map Sent.held

theorem continues_concat {prev : Option (List UInt8)} {sends : List Sent} {m : Sent} :
    Continues prev (sends ++ [m]) ↔ Continues prev sends ∧
      if m.keyframe then m.payload = m.held else
        ∃ before, (heldLast sends).or prev = some before ∧ m.held = before ++ m.payload := by
  induction sends generalizing prev with
  | nil => simp [Continues, heldLast]
  | cons m' sends ih =>
    rw [List.cons_append, Continues, ih, Continues, and_assoc]
    refine and_congr_right fun _ => and_congr_right fun _ => ?_
    have hlast : (heldLast (m' :: sends)).or prev = (heldLast sends).or (some m'.held) := by
      cases hl : sends.getLast? with
      | none =>
        rw [List.getLast?_eq_none_iff] at hl
        simp [hl, heldLast]
      | some l => simp [heldLast, List.getLast?_cons, hl]
    rw [hlast]

theorem sinceTile_concat (sends : List Sent) (m : Sent) :
    sinceTile (sends ++ [m]) = if m.keyframe then m.payload else sinceTile sends ++ m.payload := by
  rw [sinceTile, List.foldl_append]
  rfl

/-- A `tile:` with all of the entry can follow anything. -/
theorem InOrder.tile {sends : List Sent} (h : InOrder sends) {m : Sent} (hm : m.keyframe = true)
    (hall : m.payload = m.held) : InOrder (sends ++ [m]) := by
  refine ⟨continues_concat.mpr ⟨h.1, by rw [if_pos hm]; exact hall⟩, ?_⟩
  intro last hlast
  obtain rfl : m = last := by simpa using hlast
  rw [sinceTile_concat, if_pos hm, hall]

/-- A `delta:` can follow messages that stopped where it starts. -/
theorem InOrder.delta {sends : List Sent} (h : InOrder sends) (hne : sends ≠ []) {m : Sent}
    (hm : m.keyframe = false) (hgoes : m.held = sinceTile sends ++ m.payload) :
    InOrder (sends ++ [m]) := by
  obtain ⟨last, hlast⟩ := Option.ne_none_iff_exists'.mp fun hnone =>
    hne (List.getLast?_eq_none_iff.mp hnone)
  have hsince := h.2 last hlast
  refine ⟨continues_concat.mpr ⟨h.1, ?_⟩, ?_⟩
  · rw [hm, if_neg Bool.false_ne_true]
    exact ⟨last.held, by simp [heldLast, hlast], by rw [hgoes, hsince]⟩
  · intro last' hlast'
    obtain rfl : m = last' := by simpa using hlast'
    rw [sinceTile_concat, hm, if_neg Bool.false_ne_true, hgoes]

/-! ## A session and a cache -/

/-- The tracker is right about what the session was sent. `entry` is the cache and `newest` the last
wire id the kit gave each tile. -/
structure SessionOk (entry : CacheKey → Option TileData) (newest : CacheKey → UInt32)
    (s : ClientSession) : Prop where
  /-- A wire id in the tracker is not of the future, and if the entry's keyframe is not newer, the
  session has the entry up to that wire id. -/
  tracked : ∀ key since, s.tracker.lookup key = some since → since ≠ 0 →
    since ≤ newest key ∧ sendsFor key s.sent ≠ [] ∧
      ∀ e, entry key = some e → e.needsKeyframe since = false →
        sinceTile (sendsFor key s.sent) = e.deltas.take (e.upTo since)
  order : ∀ key, InOrder (sendsFor key s.sent)

section Session

variable {entry entry' : CacheKey → Option TileData} {newest newest' : CacheKey → UInt32}
  {s : ClientSession} {desc : TileDesc} {e : TileData}

theorem sendsFor_concat (key : CacheKey) (sent : List Sent) (m : Sent) :
    sendsFor key (sent ++ [m]) =
      if m.desc.cacheKey = key then sendsFor key sent ++ [m] else sendsFor key sent := by
  rw [sendsFor, List.filter_append, ← sendsFor, List.filter_singleton]
  by_cases h : m.desc.cacheKey = key <;> simp [h]

theorem sessionOk_new : SessionOk entry newest .new where
  tracked := fun key since h => by simp [ClientSession.new] at h
  order := fun key => ⟨trivial, fun last h => by simp [ClientSession.new, sendsFor] at h⟩

/-- Only the tracker and the record count. -/
theorem SessionOk.congr {s' : ClientSession} (h : SessionOk entry newest s)
    (htracker : s'.tracker = s.tracker) (hsent : s'.sent = s.sent) : SessionOk entry newest s' where
  tracked := by
    rw [htracker, hsent]
    exact h.tracked
  order := by
    rw [hsent]
    exact h.order

/-- **A message.** -/
theorem SessionOk.sendTileNow (h : SessionOk entry newest s) (he : entry desc.cacheKey = some e)
    (hok : e.Ok (newest desc.cacheKey))
    (hwid : desc.wireId = 0 ∨ e.wids.getLast? = some desc.wireId) :
    SessionOk entry newest (s.sendTileNow desc e) := by
  set since := (s.tracker.lookup desc.cacheKey).getD 0 with hsince
  set m : Sent := { desc := desc
                    keyframe := e.needsKeyframe since || e.isPng
                    payload := e.changesSince (if e.isPng then 0 else since)
                    held := e.deltas } with hm
  have hsent : (s.sendTileNow desc e).sent = s.sent ++ [m] := rfl
  have htracker : (s.sendTileNow desc e).tracker = Assoc.put desc.cacheKey desc.wireId s.tracker := rfl
  have horder : InOrder (sendsFor desc.cacheKey s.sent ++ [m]) := by
    cases hpng : e.isPng with
    | true =>
      apply (h.order _).tile
      · simp [hm, hpng]
      · simp [hm, hpng, TileData.changesSince_zero hok]
    | false =>
      cases hneeds : e.needsKeyframe since with
      | true =>
        apply (h.order _).tile
        · simp [hm, hneeds]
        · simp [hm, hpng, TileData.changesSince_of_needsKeyframe hok hneeds]
      | false =>
        have hne : since ≠ 0 := TileData.ne_zero_of_needsKeyframe hok hneeds
        obtain ⟨since', hlookup⟩ : ∃ since', s.tracker.lookup desc.cacheKey = some since' := by
          cases hl : s.tracker.lookup desc.cacheKey with
          | none => exact absurd (by rw [hsince, hl]; rfl) hne
          | some since' => exact ⟨since', rfl⟩
        have heq : since' = since := by rw [hsince, hlookup]; rfl
        rw [heq] at hlookup
        obtain ⟨-, hsome, hhas⟩ := h.tracked _ _ hlookup hne
        apply (h.order _).delta hsome
        · simp [hm, hneeds, hpng]
        · rw [hhas e he hneeds]
          simp [hm, hpng, TileData.take_append_changesSince hok hneeds]
  have hall : sinceTile (sendsFor desc.cacheKey s.sent ++ [m]) = e.deltas :=
    horder.2 m (by simp)
  constructor
  · intro key since' hlookup hne
    rw [htracker, Assoc.lookup_put] at hlookup
    rw [hsent, sendsFor_concat]
    by_cases hkey : key = desc.cacheKey
    · subst hkey
      rw [if_pos rfl, Option.some.injEq] at hlookup
      subst hlookup
      have hlast := hwid.resolve_left hne
      rw [if_pos rfl]
      refine ⟨hok.le _ (List.mem_of_getLast? hlast), by simp, ?_⟩
      intro e' he' _
      rw [he, Option.some.injEq] at he'
      subst he'
      rw [hall, TileData.upTo_last hok hlast, List.take_length]
    · rw [if_neg hkey] at hlookup
      rw [if_neg fun heq => hkey heq.symm]
      exact h.tracked key since' hlookup hne
  · intro key
    rw [hsent, sendsFor_concat]
    by_cases hkey : desc.cacheKey = key
    · rw [if_pos hkey, ← hkey]
      exact horder
    · rw [if_neg hkey]
      exact h.order key

/-- A forced keyframe: the tracker forgets. -/
theorem SessionOk.resetTileSeq (h : SessionOk entry newest s) :
    SessionOk entry newest (s.resetTileSeq desc) := by
  rw [ClientSession.resetTileSeq]
  split
  · exact h
  · refine ⟨fun key since hlookup hne => ?_, h.order⟩
    rw [Assoc.lookup_put] at hlookup
    by_cases hkey : key = desc.cacheKey
    · rw [if_pos hkey, Option.some.injEq] at hlookup
      exact absurd hlookup.symm hne
    · rw [if_neg hkey] at hlookup
      exact h.tracked key since hlookup hne

/-- Entries may go, or become invalid. -/
theorem SessionOk.forget (h : SessionOk entry newest s)
    (hentry : ∀ key e', entry' key = some e' →
      ∃ e, entry key = some e ∧ e.frames = e'.frames ∧ e.deltas = e'.deltas) :
    SessionOk entry' newest s where
  tracked := by
    intro key since hlookup hne
    obtain ⟨hle, hsome, hhas⟩ := h.tracked key since hlookup hne
    refine ⟨hle, hsome, fun e' he' hneeds => ?_⟩
    obtain ⟨e, he, hframes, hdeltas⟩ := hentry key e' he'
    have hneeds' : e.needsKeyframe since = false := by
      rw [← hneeds, TileData.needsKeyframe, TileData.wids, hframes]
      rfl
    rw [hhas e he hneeds', TileData.upTo, TileData.upTo, hframes, hdeltas]
  order := h.order

/-- A frame from the kit, with a wire id above all those before it. -/
theorem SessionOk.appendBlob (h : SessionOk entry newest s) {key : CacheKey} {id : UInt32}
    (data : List UInt8) (hok : ∀ e, entry key = some e → e.Ok (newest key))
    (hid : newest key < id)
    (hentry' : entry' key = none ∨ (∃ e, entry key = some e ∧ entry' key = some (e.appendBlob id data)) ∨
      (isKeyframe data = true ∧ ∃ e : TileData, entry' key = some (e.appendBlob id data)))
    (helse : ∀ k, k ≠ key → entry' k = entry k) :
    SessionOk entry' (Function.update newest key id) s where
  tracked := by
    intro k since hlookup hne
    obtain ⟨hle, hsome, hhas⟩ := h.tracked k since hlookup hne
    by_cases hk : k = key
    · subst hk
      rw [Function.update_self]
      have hlt : since < id := UInt32.lt_of_le_of_lt hle hid
      refine ⟨UInt32.le_of_lt hlt, hsome, fun e' he' hneeds => ?_⟩
      rcases hentry' with hnone | ⟨e, he, hnew⟩ | ⟨hkeyframe, e, hnew⟩
      · rw [hnone] at he'
        cases he'
      · obtain rfl : e.appendBlob id data = e' := by rw [hnew] at he'; exact Option.some.inj he'
        cases hkeyframe : isKeyframe data with
        | true =>
          rw [TileData.needsKeyframe_keyframe hkeyframe hlt] at hneeds
          cases hneeds
        | false =>
          rw [TileData.needsKeyframe_appendBlob (hok e he) hkeyframe] at hneeds
          rw [TileData.take_upTo_appendBlob (hok e he) hid hle hkeyframe]
          exact hhas e he hneeds
      · obtain rfl : e.appendBlob id data = e' := by rw [hnew] at he'; exact Option.some.inj he'
        rw [TileData.needsKeyframe_keyframe hkeyframe hlt] at hneeds
        cases hneeds
    · rw [Function.update_of_ne hk, helse k hk]
      exact ⟨hle, hsome, hhas⟩
  order := h.order

end Session

/-! ## The broker -/

/-- The cache entry of a tile. -/
def entry (b : Broker) (key : CacheKey) : Option TileData := b.tileCache.cache.lookup key

/-- Every entry is good and every tracker is right. -/
structure BrokerOk (newest : CacheKey → UInt32) (b : Broker) : Prop where
  entries : ∀ key e, entry b key = some e → e.Ok (newest key)
  sessions : ∀ id, SessionOk (entry b) newest (b.sessions id)

/-- If the tile is answered from the cache as it is, the wire id that goes into the tracker is 0 or
that of the newest frame. -/
def NamesNewest (b : Broker) (t : TileDesc) : Prop :=
  ∀ e ∈ b.tileCache.lookupTile t, e.valid = true →
    t.wireId = 0 ∨ e.wids.getLast? = some t.wireId

instance (b : Broker) (t : TileDesc) : Decidable (NamesNewest b t) :=
  inferInstanceAs (Decidable (∀ e ∈ b.tileCache.lookupTile t, _))

/-- So it is for all the requested tiles that a round may send. -/
def QueueNamesNewest (b : Broker) (id budget : Nat) : Prop :=
  ∀ t ∈ (b.sessions id).requestedTiles.take budget, NamesNewest b t

instance (b : Broker) (id budget : Nat) : Decidable (QueueNamesNewest b id budget) :=
  inferInstanceAs (Decidable (∀ t ∈ _, _))

section Broker

variable {newest : CacheKey → UInt32} {b b' : Broker}

theorem BrokerOk.congr (h : BrokerOk newest b) (hcache : b'.tileCache.cache = b.tileCache.cache)
    (hsessions : b'.sessions = b.sessions) : BrokerOk newest b' := by
  have hentry : entry b' = entry b := by
    funext key
    rw [entry, hcache, ← entry]
  constructor
  · rw [hentry]
    exact h.entries
  · rw [hentry, hsessions]
    exact h.sessions

theorem BrokerOk.updateSession (h : BrokerOk newest b) {id : Nat} {f : ClientSession → ClientSession}
    (hf : SessionOk (entry b) newest (b.sessions id) → SessionOk (entry b) newest (f (b.sessions id))) :
    BrokerOk newest (b.updateSession id f) where
  entries := h.entries
  sessions := by
    intro id'
    rw [Broker.updateSession]
    by_cases hid : id' = id
    · subst hid
      simp only [Function.update_self]
      exact hf (h.sessions id')
    · simp only [Function.update_of_ne hid]
      exact h.sessions id'

/-- A tile answered from the cache. -/
theorem BrokerOk.answer (h : BrokerOk newest b) {id : Nat} {t : TileDesc} {e : TileData}
    (he : b.tileCache.lookupTile t = some e)
    (hwid : t.wireId = 0 ∨ e.wids.getLast? = some t.wireId) :
    BrokerOk newest (b.updateSession id (·.sendTileNow t e)) :=
  h.updateSession fun hs => hs.sendTileNow he (h.entries _ _ he) hwid

/-- A tile whose keyframe is forced. -/
theorem BrokerOk.reset (h : BrokerOk newest b) (id : Nat) (t : TileDesc) :
    BrokerOk newest (b.updateSession id (·.resetTileSeq t)) :=
  h.updateSession fun hs => hs.resetTileSeq

/-! ### Requests -/

theorem sendRequestedTile_cache (id now : Nat) (b : Broker) (need : List TileDesc) (t : TileDesc) :
    (Broker.sendRequestedTile id now b need t).1.tileCache.cache = b.tileCache.cache := by
  have hrender : ∀ asked,
      (Broker.sendRequestedTile.render id now b need t asked).1.tileCache.cache =
        b.tileCache.cache := by
    intro asked
    rw [Broker.sendRequestedTile.render]
    split <;> rfl
  rw [Broker.sendRequestedTile]
  split
  · split
    · rfl
    · exact hrender _
  · exact hrender _

theorem sendRequestedTile_ok (h : BrokerOk newest b) {id now : Nat} {need : List TileDesc}
    {t : TileDesc} (ht : NamesNewest b t) :
    BrokerOk newest (Broker.sendRequestedTile id now b need t).1 := by
  have hrender : ∀ asked, BrokerOk newest (Broker.sendRequestedTile.render id now b need t asked).1 := by
    intro asked
    rw [Broker.sendRequestedTile.render]
    split
    · exact h.congr rfl rfl
    · exact h.congr rfl rfl
  rw [Broker.sendRequestedTile]
  split
  · rename_i e he
    split
    · rename_i hvalid
      -- without a wire id of its own the request takes that of the newest frame
      by_cases hwid : t.wireId = 0
      · simp only [if_pos hwid]
        refine h.answer he ?_
        obtain ⟨w, rest, hframes⟩ := (h.entries _ _ he).first
        right
        rw [List.getLastD_eq_getLast?]
        cases hl : e.wids.getLast? with
        | none => simp [TileData.wids, hframes] at hl
        | some last => rfl
      · simp only [if_neg hwid]
        exact h.answer he (ht e he hvalid)
    · exact hrender _
  · exact hrender _

theorem sendRequestedLoop_ok {id now : Nat} :
    ∀ {budget : Nat} {b : Broker} {need : List TileDesc}, BrokerOk newest b →
      (∀ t ∈ (b.sessions id).requestedTiles.take budget, NamesNewest b t) →
      BrokerOk newest (Broker.sendRequestedLoop id now budget b need).1
  | 0, _, _, h, _ => h
  | budget + 1, b, need, h, hnames => by
    cases hreq : (b.sessions id).requestedTiles with
    | nil =>
      simp only [Broker.sendRequestedLoop, hreq]
      exact h
    | cons t rest =>
      rw [hreq, List.take_succ_cons] at hnames
      have hstep : BrokerOk newest (Broker.sendRequestedTile id now b need t).1 :=
        sendRequestedTile_ok h (hnames t List.mem_cons_self)
      have hcache := sendRequestedTile_cache id now b need t
      simp only [Broker.sendRequestedLoop, hreq]
      apply sendRequestedLoop_ok
      · exact hstep.updateSession fun hs => hs.congr rfl rfl
      · intro t' ht'
        have htake : t' ∈ rest.take budget := by
          simpa [Broker.updateSession] using ht'
        intro e he
        have he' : e ∈ b.tileCache.lookupTile t' := by
          rw [TileCache.lookupTile, ← hcache]
          exact he
        exact hnames t' (List.mem_cons_of_mem t htake) e he'

theorem sendRequestedTiles_ok (h : BrokerOk newest b) {id now budget : Nat}
    (hnames : QueueNamesNewest b id budget) :
    BrokerOk newest (b.sendRequestedTiles id now budget) :=
  (sendRequestedLoop_ok h hnames).congr rfl rfl

theorem prepareTile_ok (h : BrokerOk newest b) {id now : Nat} {force : Bool}
    {tiles need : List TileDesc} {t : TileDesc} :
    BrokerOk newest (Broker.prepareTile id now force b tiles need t).1 := by
  have hreset : ∀ (reset : Bool) (t : TileDesc), BrokerOk newest
      (if reset then Broker.updateSession { b with tileVersion := b.tileVersion + 1 } id
        (·.resetTileSeq t) else { b with tileVersion := b.tileVersion + 1 }) := by
    intro reset t
    have hversion : BrokerOk newest { b with tileVersion := b.tileVersion + 1 } := h.congr rfl rfl
    cases reset with
    | true => exact hversion.reset id t
    | false => exact hversion
  simp only [Broker.prepareTile]
  split
  · split
    · exact hreset _ _
    · exact (hreset _ _).congr rfl rfl
  · exact (hreset _ _).congr rfl rfl

theorem prepareTiles_ok {id now : Nat} {force : Bool} :
    ∀ {rest : List TileDesc} {b : Broker} {tiles need : List TileDesc}, BrokerOk newest b →
      BrokerOk newest (Broker.prepareTiles id now force rest b tiles need).1
  | [], _, _, _, h => h
  | t :: rest, b, tiles, need, h => by
    rw [Broker.prepareTiles]
    exact prepareTiles_ok (prepareTile_ok h)

theorem acceptRequest_ok (h : BrokerOk newest b) {id now : Nat} {c : TileCombined} {force : Bool} :
    BrokerOk newest (b.acceptRequest id c force now) := by
  rw [Broker.acceptRequest]
  have hprepared : BrokerOk newest (Broker.prepareTiles id now force c.tiles b [] []).1 :=
    prepareTiles_ok h
  refine BrokerOk.updateSession ?_ fun hs => hs.congr rfl rfl
  split
  · exact hprepared
  · exact hprepared.congr rfl rfl

theorem handleTileRequest_ok (h : BrokerOk newest b) {id now : Nat} {t : TileDesc}
    (hnames : NamesNewest b { t with normalizedViewId := (b.sessions id).canonicalViewId }) :
    BrokerOk newest (b.handleTileRequest id t true now) := by
  set t' : TileDesc := { t with
    normalizedViewId := (b.sessions id).canonicalViewId
    ver := b.tileVersion + 1 } with ht'
  have hversion : BrokerOk newest { b with tileVersion := b.tileVersion + 1 } := h.congr rfl rfl
  have hreset := hversion.reset id t'
  simp only [Broker.handleTileRequest, if_true]
  rw [← ht']
  split
  · rename_i e he
    split
    · rename_i hvalid
      exact hreset.answer he (hnames e he hvalid)
    · exact hreset.congr rfl rfl
  · exact hreset.congr rfl rfl

/-! ### Answers of the kit -/

theorem foldl_sendTileNow_ok {desc : TileDesc} {e : TileData}
    (hwid : e.wids.getLast? = some desc.wireId) :
    ∀ {subscribers : List Nat} {b : Broker}, BrokerOk newest b →
      b.tileCache.lookupTile desc = some e →
      BrokerOk newest (subscribers.foldl (fun b id =>
        if (b.sessions id).closed then b else b.updateSession id (·.sendTileNow desc e)) b)
  | [], _, h, _ => h
  | id :: subscribers, b, h, he => by
    rw [List.foldl_cons]
    cases hclosed : (b.sessions id).closed with
    | true => exact foldl_sendTileNow_ok hwid h he
    | false => exact foldl_sendTileNow_ok hwid (h.answer he (.inr hwid)) he

theorem getLast?_wids_appendBlob (e : TileData) (id : UInt32) (data : List UInt8) :
    (e.appendBlob id data).wids.getLast? = some id := by
  rcases TileData.appendBlob_cases e id data with ⟨-, heq⟩ | ⟨-, init, w, -, -, heq⟩ | ⟨-, heq⟩ <;>
    simp [heq, TileData.wids]

/-- What the cache makes of a frame: it drops a delta that has no keyframe, and else the entry has
the frame. -/
theorem saveDataToCache_cases (c : TileCache) (desc : TileDesc) (data : List UInt8) :
    (c.saveDataToCache desc data = (c, none) ∧ c.lookupTile desc = none) ∨
    ∃ e : TileData, c.saveDataToCache desc data =
        ({ c with cache := Assoc.put desc.cacheKey (e.appendBlob desc.wireId data) c.cache },
          some (e.appendBlob desc.wireId data)) ∧
      (c.lookupTile desc = some e ∨ isKeyframe data = true) := by
  rw [TileCache.saveDataToCache]
  cases hlookup : c.lookupTile desc with
  | none =>
    cases hkey : isKeyframe data with
    | true => exact .inr ⟨⟨true, [], []⟩, by rw [if_pos rfl]; rfl, .inr rfl⟩
    | false => exact .inl ⟨by rw [if_neg Bool.false_ne_true], rfl⟩
  | some e => exact .inr ⟨e, rfl, .inl rfl⟩

theorem saveDataToCache_ok (h : BrokerOk newest b) {desc : TileDesc} (data : List UInt8)
    (hid : newest desc.cacheKey < desc.wireId) :
    BrokerOk (Function.update newest desc.cacheKey desc.wireId)
      { b with tileCache := (b.tileCache.saveDataToCache desc data).1 } := by
  have hpos : 0 < desc.wireId := UInt32.lt_of_le_of_lt UInt32.zero_le hid
  rcases saveDataToCache_cases b.tileCache desc data with ⟨heq, hnone⟩ | ⟨e, heq, he⟩
  · rw [heq]
    constructor
    · intro key e' he'
      have hkey : key ≠ desc.cacheKey := by
        rintro rfl
        have he' : b.tileCache.lookupTile desc = some e' := he'
        rw [hnone] at he'
        cases he'
      rw [Function.update_of_ne hkey]
      exact h.entries key e' he'
    · intro id
      exact (h.sessions id).appendBlob data (fun e' he' => h.entries _ e' he') hid
        (.inl hnone) fun _ _ => rfl
  · rw [heq]
    have hlookup : ∀ key, (Assoc.put desc.cacheKey (e.appendBlob desc.wireId data)
        b.tileCache.cache).lookup key = if key = desc.cacheKey then
          some (e.appendBlob desc.wireId data) else b.tileCache.cache.lookup key :=
      fun key => Assoc.lookup_put _ _ _ _
    constructor
    · intro key e' he'
      have he' : (Assoc.put desc.cacheKey (e.appendBlob desc.wireId data)
        b.tileCache.cache).lookup key = some e' := he'
      rw [hlookup] at he'
      by_cases hkey : key = desc.cacheKey
      · subst hkey
        rw [if_pos rfl, Option.some.injEq] at he'
        subst he'
        rw [Function.update_self]
        rcases he with he | hkeyframe
        · exact (h.entries _ e he).appendBlob hid data
        · rcases TileData.appendBlob_cases e desc.wireId data with ⟨-, hnew⟩ | ⟨hk, -⟩ | ⟨hk, -⟩
          · rw [hnew]
            exact TileData.ok_keyframe hpos
          · rw [hkeyframe] at hk
            cases hk
          · rw [hkeyframe] at hk
            cases hk
      · rw [if_neg hkey] at he'
        rw [Function.update_of_ne hkey]
        exact h.entries key e' he'
    · intro id
      apply (h.sessions id).appendBlob data (fun e' he' => h.entries _ e' he') hid
      · have hnew : entry { b with tileCache := { b.tileCache with
            cache := Assoc.put desc.cacheKey (e.appendBlob desc.wireId data) b.tileCache.cache } }
            desc.cacheKey = some (e.appendBlob desc.wireId data) := by
          rw [entry, hlookup, if_pos rfl]
        rcases he with he | hkeyframe
        · exact .inr (.inl ⟨e, he, hnew⟩)
        · exact .inr (.inr ⟨hkeyframe, e, hnew⟩)
      · intro key hkey
        rw [entry, hlookup, if_neg hkey]
        rfl

theorem BrokerOk.forgetTileBeingRendered (desc : TileDesc) (h : BrokerOk newest b) :
    BrokerOk newest { b with tileCache := b.tileCache.forgetTileBeingRendered desc } := by
  have hcache : (b.tileCache.forgetTileBeingRendered desc).cache = b.tileCache.cache := by
    rw [TileCache.forgetTileBeingRendered]
    split
    · rfl
    · split <;> rfl
  exact h.congr hcache rfl

theorem saveTileAndNotify_ok (h : BrokerOk newest b) {desc : TileDesc} {data : List UInt8}
    (hid : newest desc.cacheKey < desc.wireId) :
    BrokerOk (Function.update newest desc.cacheKey desc.wireId) (b.saveTileAndNotify desc data) := by
  have hsaved := saveDataToCache_ok h data hid
  simp only [Broker.saveTileAndNotify]
  split
  · exact hsaved
  · rename_i r hr
    refine BrokerOk.forgetTileBeingRendered desc ?_
    rcases saveDataToCache_cases b.tileCache desc data with ⟨heq, -⟩ | ⟨e, heq, -⟩
    · rw [heq] at hsaved ⊢
      exact hsaved
    · rw [heq] at hsaved ⊢
      apply foldl_sendTileNow_ok (getLast?_wids_appendBlob e desc.wireId data) hsaved
      rw [TileCache.lookupTile, Assoc.lookup_put, if_pos rfl]

end Broker

/-! ## Runs -/

/-- The broker, with the last wire id the kit gave each tile. -/
structure World where
  broker : Broker
  newest : CacheKey → UInt32

namespace World

def init : World := ⟨.init, fun _ => 0⟩

def act (w : World) (a : Action) : World :=
  { broker := Tiles.act w.broker a
    newest :=
      match a with
      | .response desc _ => Function.update w.newest desc.cacheKey desc.wireId
      | _ => w.newest }

/-- The kit's wire ids of a tile go up, and every requested tile that is answered from the cache has
no wire id of its own, or that of the newest frame. -/
def Proper (w : World) : Action → Prop
  | .response desc _ => w.newest desc.cacheKey < desc.wireId
  | .combined id tileCombined forceKeyframe now budget =>
    QueueNamesNewest (w.broker.acceptRequest id tileCombined forceKeyframe now) id budget
  | .more id _ budget => QueueNamesNewest w.broker id budget
  | .single id tile _ =>
    NamesNewest w.broker { tile with normalizedViewId := (w.broker.sessions id).canonicalViewId }
  | _ => True

instance (w : World) : (a : Action) → Decidable (w.Proper a)
  | .response _ _ => inferInstanceAs (Decidable (_ < _))
  | .combined .. => inferInstanceAs (Decidable (QueueNamesNewest _ _ _))
  | .more .. => inferInstanceAs (Decidable (QueueNamesNewest _ _ _))
  | .single _ _ _ => inferInstanceAs (Decidable (NamesNewest _ _))
  | .invalidate .. => .isTrue trivial
  | .evict _ => .isTrue trivial
  | .setView _ _ => .isTrue trivial
  | .close _ => .isTrue trivial

/-- For every session and every tile the messages are in order. -/
def SentInOrder (w : World) : Prop := ∀ id key, InOrder (sendsFor key (w.broker.sessions id).sent)

end World

/-- Cached tiles that change in their validity alone, or go. -/
theorem BrokerOk.forget {newest : CacheKey → UInt32} {b : Broker} (h : BrokerOk newest b)
    {c : TileCache} (hc : ∀ key e', c.cache.lookup key = some e' →
      ∃ e, entry b key = some e ∧ e.frames = e'.frames ∧ e.deltas = e'.deltas) :
    BrokerOk newest { b with tileCache := c } where
  entries := by
    intro key e' he'
    obtain ⟨e, he, hframes, hdeltas⟩ := hc key e' he'
    have hok := h.entries key e he
    have hwids : e'.wids = e.wids := by rw [TileData.wids, TileData.wids, hframes]
    exact ⟨hframes ▸ hok.first, hwids ▸ hok.up, hwids ▸ hok.pos, hwids ▸ hok.le,
      hframes ▸ hdeltas ▸ hok.inside⟩
  sessions := fun id => (h.sessions id).forget hc

theorem act_ok {w : World} (h : BrokerOk w.newest w.broker) {a : Action} (ha : w.Proper a) :
    BrokerOk (w.act a).newest (w.act a).broker := by
  cases a with
  | response desc data => exact saveTileAndNotify_ok h ha
  | combined id c force now budget => exact sendRequestedTiles_ok (acceptRequest_ok h) ha
  | more id now budget => exact sendRequestedTiles_ok h ha
  | single id t now => exact handleTileRequest_ok h ha
  | invalidate part mode x y width height nview =>
    refine h.forget fun key e' he' => ?_
    simp only [TileCache.invalidateTiles] at he'
    rw [Assoc.lookup_map fun k (e : TileData) => if TileCache.intersectsTile k part mode x y width height nview
      then { e with valid := false } else e] at he'
    obtain ⟨e, he, rfl⟩ := Option.map_eq_some_iff.mp he'
    refine ⟨e, he, ?_, ?_⟩
    · split <;> rfl
    · split <;> rfl
  | evict victims =>
    refine h.forget fun key e' he' => ?_
    simp only [TileCache.evict] at he'
    rw [Assoc.lookup_filter fun k => decide (k ∉ victims)] at he'
    split at he'
    · exact ⟨e', he', rfl, rfl⟩
    · cases he'
  | setView id canonicalViewId =>
    show BrokerOk w.newest
      (w.broker.updateSession id fun s => { s with canonicalViewId := canonicalViewId })
    exact h.updateSession fun hs => hs.congr rfl rfl
  | close id =>
    show BrokerOk w.newest (w.broker.updateSession id fun s => { s with closed := true })
    exact h.updateSession fun hs => hs.congr rfl rfl

/-- **What a session is sent of a tile.** In every run in which the kit's wire ids go up and no
request answered from the cache brings a wire id other than the newest frame's: at every moment, for
every session and tile, the payloads since the last `tile:` message are the keyframe and all the
deltas that the cache entry held at the last message; every `tile:` has the whole entry, every
`delta:` goes on exactly where the message before it stopped, and none comes first. -/
theorem sent_in_order {actions : List Action}
    (h : Run.Meets World.act World.Proper World.init actions) :
    Run.Always World.act World.SentInOrder World.init actions := by
  have hinit : BrokerOk World.init.newest World.init.broker :=
    ⟨fun key e he => by simp [World.init, Broker.init, entry, TileCache.empty] at he,
      fun id => sessionOk_new⟩
  exact Run.always_of_meets (fun w (hw : BrokerOk w.newest w.broker) id key => (hw.sessions id).order key)
    (fun w a hw ha => act_ok hw ha) hinit h

/-- A tile of a text document, with the wire ids given. -/
def sampleTile (oldWireId wireId : UInt32) : TileDesc :=
  { normalizedViewId := 0
    part := 0
    mode := 0
    width := 256
    height := 256
    tilePosX := 0
    tilePosY := 0
    tileWidth := 3840
    tileHeight := 3840
    ver := 1
    imgSize := 0
    id := -1
    oldWireId := oldWireId
    wireId := wireId
    width_pos := TileDesc.usualPixels_pos
    height_pos := TileDesc.usualPixels_pos
    tileWidth_pos := TileDesc.usualTwips_pos
    tileHeight_pos := TileDesc.usualTwips_pos }

/-- A keyframe that is asked for, a delta, and the tile asked for again. -/
theorem sent_in_order_two :
    Run.Meets World.act World.Proper World.init
      [.response (sampleTile 0 5) [90, 1], .combined 1 (.single (sampleTile 0 0)) true 0 10,
        .response (sampleTile 1 6) [68, 2], .combined 1 (.single (sampleTile 1 0)) true 0 10] ∧
    Run.Always World.act World.SentInOrder World.init
      [.response (sampleTile 0 5) [90, 1], .combined 1 (.single (sampleTile 0 0)) true 0 10,
        .response (sampleTile 1 6) [68, 2], .combined 1 (.single (sampleTile 1 0)) true 0 10] := by
  have hmeets : Run.Meets World.act World.Proper World.init
      [.response (sampleTile 0 5) [90, 1], .combined 1 (.single (sampleTile 0 0)) true 0 10,
        .response (sampleTile 1 6) [68, 2], .combined 1 (.single (sampleTile 1 0)) true 0 10] := by
    decide +kernel
  exact ⟨hmeets, sent_in_order hmeets⟩

/-- The same with a first request that names the wire id 100: the delta never reaches the client. -/
theorem not_sent_in_order :
    ¬ Run.Always World.act World.SentInOrder World.init
      [.response (sampleTile 0 5) [90, 1], .combined 1 (.single (sampleTile 0 100)) true 0 10,
        .response (sampleTile 1 6) [68, 2], .combined 1 (.single (sampleTile 1 0)) true 0 10] := by
  intro h
  have hsince := (h.last 1 (sampleTile 0 0).cacheKey).2
  set sends := sendsFor (sampleTile 0 0).cacheKey (([.response (sampleTile 0 5) [90, 1],
    .combined 1 (.single (sampleTile 0 100)) true 0 10, .response (sampleTile 1 6) [68, 2],
    .combined 1 (.single (sampleTile 1 0)) true 0 10].foldl World.act World.init).broker.sessions 1).sent
    with hsends
  cases hlast : heldLast sends with
  | none =>
    have hsome := congrArg Option.isSome hlast
    rw [hsends] at hsome
    exact absurd hsome (by decide +kernel)
  | some held =>
    obtain ⟨m, hm, rfl⟩ := Option.map_eq_some_iff.mp hlast
    rw [← hsince m hm, hsends] at hlast
    exact absurd hlast (by decide +kernel)

end Oxool.Wsd.Tiles
