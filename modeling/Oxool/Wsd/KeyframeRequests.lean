import Oxool.Kit.Chain
import Oxool.Wsd.DeltaTracking
import Oxool.Wsd.TileBatching

/-!
# Keyframes for missing tiles (`wsd/DocumentBroker.cpp`, `wsd/TileCache.cpp`, `kit/Delta.hpp`)

A delta is worth nothing without the frame it is against. `saveDataToCache` drops one for a tile that
is not in the cache, and then nobody who waits for the tile is sent anything. So a tile that is missing
has to be asked for with the old wire id 0: the kit answers that with a keyframe, whatever it remembers
of the tile (`isKeyframe_encodeTile`), and a keyframe is always saved and sent.

`handleTileCombinedRequest` and `sendRequestedTiles` see to that. `handleTileRequest` does not: the
message is written before the keyframe is forced on the descriptor it was written from, so the kit is
asked with the wire id the client gave.
-/

set_option autoImplicit false

namespace Oxool.Wsd.Tiles

open Oxool.Delta (Window TileMode isKeyframe)

namespace Broker

/-! ## What is asked -/

/-- The cache has no entry for the tile, or one without a keyframe, which is an entry's first frame. -/
def Lacks (b : Broker) (t : TileDesc) : Prop :=
  ∀ cached, b.tileCache.lookupTile t = some cached → cached.frames = []

/-- What an action sends to the kit. -/
def newRequests (b : Broker) (a : Action) : List (List TileDesc) :=
  (Tiles.act b a).toKit.drop b.toKit.length

end Broker

/-- The session that an action asks for. -/
def Action.requester : Action → Option Nat
  | .combined id _ _ _ _ => some id
  | .more id _ _ => some id
  | .single id _ _ => some id
  | _ => none

namespace Broker

section Kit

variable (hasAVX2 : Bool) (compress : List UInt8 → Option (List UInt8))
  (writePng : Nat → Nat → List UInt8 → List UInt8) (mode : TileMode)

/-- Whatever the kit remembers and whatever it paints for the request, the cache saves its answer, and
a session that waits for the tile and is still there is sent it. -/
def AnswerArrives (t : TileDesc) : Prop :=
  ∀ (s : Kit.State) (w : Window) (canonicalViewId : Nat) (wireId : UInt32) (r : Kit.Rendered),
    (Kit.encodeTile hasAVX2 compress writePng mode t w canonicalViewId wireId s).rendered =
      s.rendered ++ [r] →
    ∀ b : Broker, (b.tileCache.saveDataToCache r.desc r.data).2.isSome ∧
      ∀ id, Waits b.tileCache t.cacheKey id → (b.sessions id).closed = false →
        ∃ more, ((b.saveTileAndNotify r.desc r.data).sessions id).sent =
          (b.sessions id).sent ++ more ∧ ∃ m ∈ more, m.desc = r.desc

/-- **A missing tile is asked for as a keyframe**, the answer to that request arrives, and the session
that asked waits for it. -/
def AsksForKeyframes (b : Broker) (a : Action) : Prop :=
  ∀ group ∈ b.newRequests a, ∀ t ∈ group, b.Lacks t →
    t.oldWireId = 0 ∧ AnswerArrives hasAVX2 compress writePng mode t ∧
      ∀ id ∈ a.requester, Waits (Tiles.act b a).tileCache t.cacheKey id

end Kit

/-- The condition: a `tile` request for a tile that is not in the cache has no old wire id. -/
def MissingHasNoOldWireId (b : Broker) : Action → Prop
  | .single id tile _ =>
    b.tileCache.lookupTile { tile with normalizedViewId := (b.sessions id).canonicalViewId } = none →
      tile.oldWireId = 0
  | _ => True

/-! ## The kit's answer -/

section Kit

variable {hasAVX2 : Bool} {compress : List UInt8 → Option (List UInt8)}
  {writePng : Nat → Nat → List UInt8 → List UInt8} {mode : TileMode}

/-- The kit answers a request with the old wire id 0 with a keyframe. -/
theorem isKeyframe_encodeTile (hzstd : ∀ bytes, (compress bytes).isSome)
    (hpng : ∀ w h rgba, (writePng w h rgba).head? = some 0x89) {t : TileDesc} (ht : t.oldWireId = 0)
    {s : Kit.State} {w : Window} {canonicalViewId : Nat} {wireId : UInt32} {r : Kit.Rendered}
    (hr : (Kit.encodeTile hasAVX2 compress writePng mode t w canonicalViewId wireId s).rendered =
      s.rendered ++ [r]) :
    r.desc.cacheKey = t.cacheKey ∧ isKeyframe r.data = true := by
  have hwants : t.wantsKeyframe = true := by rw [TileDesc.wantsKeyframe, ht]; rfl
  unfold Kit.encodeTile at hr
  obtain rfl := List.singleton_inj.mp (List.append_cancel_left hr).symm
  refine ⟨rfl, ?_⟩
  change isKeyframe (Prod.snd _) = true
  split
  · simp [isKeyframe, hpng]
  · have hkeyframe : isKeyframe (Delta.keyframe compress mode w.rows) = true := by
      obtain ⟨z, hz⟩ := Option.isSome_iff_exists.mp (hzstd (Delta.keyframeBytes mode w.rows))
      simp [Delta.keyframe, hz, isKeyframe]
    rw [hwants]
    rcases Delta.DeltaGenerator.compressOrDelta_cases hasAVX2 compress mode w
        (Kit.tileLocation t canonicalViewId) wireId true s.deltaGen with
      ⟨-, heq⟩ | ⟨hfits, data, heq, hdata | ⟨e, -, hforce, -⟩⟩
    · rw [heq]
      exact hkeyframe
    · rw [heq, hdata]
      exact hkeyframe
    · cases hforce

/-- **A request with the old wire id 0 is answered.** -/
theorem answerArrives_of_oldWireId (hzstd : ∀ bytes, (compress bytes).isSome)
    (hpng : ∀ w h rgba, (writePng w h rgba).head? = some 0x89) {t : TileDesc} (ht : t.oldWireId = 0) :
    AnswerArrives hasAVX2 compress writePng mode t := by
  intro s w canonicalViewId wireId r hr b
  obtain ⟨hkey, hkeyframe⟩ := isKeyframe_encodeTile hzstd hpng ht hr
  constructor
  · have hsaved : ∃ tile, (b.tileCache.saveDataToCache r.desc r.data).2 = some tile :=
      TileCache.isSome_saveDataToCache (.inr hkeyframe)
    exact Option.isSome_iff_exists.mpr hsaved
  · rintro id ⟨waiting, hwaiting, hmem⟩ hopen
    rw [← hkey] at hwaiting
    exact saveTileAndNotify_sent hwaiting (.inr hkeyframe) hmem hopen

end Kit

/-! ## What is sent to the kit -/

/-- What sending requests leaves as it was, and the tiles it asks for. -/
structure Asks (b : Broker) (id : Nat) (need : List TileDesc) (r : Broker × List TileDesc) : Prop where
  cache : r.1.tileCache.cache = b.tileCache.cache
  waits : ∀ key j, Waits b.tileCache key j → Waits r.1.tileCache key j
  toKit : r.1.toKit = b.toKit
  asked : ∃ asks, r.2 = need ++ asks ∧ ∀ t ∈ asks,
    (b.tileCache.lookupTile t = none → t.oldWireId = 0) ∧ Waits r.1.tileCache t.cacheKey id

theorem Asks.trans {b : Broker} {id : Nat} {need : List TileDesc} {r r' : Broker × List TileDesc}
    (h : b.Asks id need r) (h' : r.1.Asks id r.2 r') : b.Asks id need r' := by
  obtain ⟨asks, hasks, hall⟩ := h.asked
  obtain ⟨asks', hasks', hall'⟩ := h'.asked
  refine ⟨h'.cache.trans h.cache, fun key j hw => h'.waits key j (h.waits key j hw),
    h'.toKit.trans h.toKit, asks ++ asks', by rw [hasks', hasks, List.append_assoc], fun t ht => ?_⟩
  rcases List.mem_append.mp ht with ht | ht
  · exact ⟨(hall t ht).1, h'.waits _ _ (hall t ht).2⟩
  · refine ⟨fun hnone => (hall' t ht).1 ?_, (hall' t ht).2⟩
    rw [TileCache.lookupTile, h.cache]
    exact hnone

variable {b : Broker} {id now budget : Nat}

theorem asks_sendRequestedLoop (need : List TileDesc) :
    b.Asks id need (sendRequestedLoop id now budget b need) := by
  induction budget generalizing b need with
  | zero => exact ⟨rfl, fun _ _ h => h, rfl, [], by simp [sendRequestedLoop]⟩
  | succ budget ih =>
    cases hqueue : (b.sessions id).requestedTiles with
    | nil =>
      simp only [sendRequestedLoop, hqueue]
      exact ⟨rfl, fun _ _ h => h, rfl, [], by simp⟩
    | cons t rest =>
      obtain ⟨hdealt, -⟩ := dealt_sendRequestedTile b id now need t
      obtain ⟨asks, hasks, -, hall⟩ := hdealt.asked
      have hcut : b.Asks id need
          ((sendRequestedTile id now b need t).1.updateSession id
            (fun s => { s with requestedTiles := rest }), (sendRequestedTile id now b need t).2) :=
        ⟨hdealt.cache, hdealt.waits, hdealt.toKit, asks, hasks, hall⟩
      simp only [sendRequestedLoop, hqueue]
      exact hcut.trans (ih _)

/-- The tiles of the groups are those that were asked for. -/
theorem mem_of_mem_groups {need group : List TileDesc} {t : TileDesc}
    (hgroup : group ∈ groupsNeedsRendering need) (ht : t ∈ group) : t ∈ need :=
  (flatten_groupsNeedsRendering need).mem_iff.mp (List.mem_flatten.mpr ⟨group, hgroup, ht⟩)

/-- What a broker sends to the kit is asked for rightly. -/
structure Sends (b : Broker) (id : Nat) (b' : Broker) : Prop where
  cache : b'.tileCache.cache = b.tileCache.cache
  waits : ∀ key j, Waits b.tileCache key j → Waits b'.tileCache key j
  toKit : ∃ groups, b'.toKit = b.toKit ++ groups ∧ ∀ group ∈ groups, ∀ t ∈ group,
    (b.tileCache.lookupTile t = none → t.oldWireId = 0) ∧ Waits b'.tileCache t.cacheKey id

theorem Sends.trans {b' b'' : Broker} (h : b.Sends id b') (h' : b'.Sends id b'') : b.Sends id b'' := by
  obtain ⟨groups, hgroups, hall⟩ := h.toKit
  obtain ⟨groups', hgroups', hall'⟩ := h'.toKit
  refine ⟨h'.cache.trans h.cache, fun key j hw => h'.waits key j (h.waits key j hw), groups ++ groups',
    by rw [hgroups', hgroups, List.append_assoc], fun group hgroup t ht => ?_⟩
  rcases List.mem_append.mp hgroup with hgroup | hgroup
  · exact ⟨(hall group hgroup t ht).1, h'.waits _ _ (hall group hgroup t ht).2⟩
  · refine ⟨fun hnone => (hall' group hgroup t ht).1 ?_, (hall' group hgroup t ht).2⟩
    rw [TileCache.lookupTile, h.cache]
    exact hnone

theorem sends_sendRequestedTiles : b.Sends id (b.sendRequestedTiles id now budget) := by
  have h : b.Asks id [] (sendRequestedLoop id now budget b []) := asks_sendRequestedLoop []
  obtain ⟨asks, hasks, hall⟩ := h.asked
  refine ⟨h.cache, h.waits, groupsNeedsRendering asks, ?_, fun group hgroup t ht =>
    hall t (mem_of_mem_groups hgroup ht)⟩
  change (sendRequestedLoop id now budget b []).1.toKit ++
    groupsNeedsRendering (sendRequestedLoop id now budget b []).2 = _
  rw [h.toKit, hasks, List.nil_append]

theorem sends_acceptRequest (c : TileCombined) (forceKeyframe : Bool) :
    b.Sends id (b.acceptRequest id c forceKeyframe now) := by
  have hprepared := prepared_prepareTiles b id now forceKeyframe c.tiles [] []
  unfold acceptRequest
  generalize prepareTiles id now forceKeyframe c.tiles b [] [] = r at *
  obtain ⟨b', tiles, need⟩ := r
  obtain ⟨hcache, hwaits, htoKit, -, -, asks, hneed, -, hall⟩ := hprepared
  dsimp only at *
  rw [List.nil_append] at hneed
  subst hneed
  split
  · rename_i hempty
    exact ⟨hcache, hwaits, [], by rw [List.append_nil]; exact htoKit, by simp⟩
  · refine ⟨hcache, hwaits, [need], ?_, fun group hgroup t ht => ?_⟩
    · change b'.toKit ++ [need] = _
      rw [htoKit]
    · rw [List.mem_singleton.mp hgroup] at ht
      exact hall t ht

/-- The one way in which a missing tile is asked for with an old wire id. -/
theorem handleTileRequest_cases (b : Broker) (id now : Nat) (tile : TileDesc) (forceKeyframe : Bool) :
    ∃ asked : TileDesc, asked.cacheKey =
        ({ tile with normalizedViewId := (b.sessions id).canonicalViewId } : TileDesc).cacheKey ∧
      asked.oldWireId = tile.oldWireId ∧
      (b.handleTileRequest id tile forceKeyframe now).tileCache.cache = b.tileCache.cache ∧
      ((b.handleTileRequest id tile forceKeyframe now).toKit = b.toKit ∧
          (∃ cached, b.tileCache.lookupTile asked = some cached) ∨
        (b.handleTileRequest id tile forceKeyframe now).toKit = b.toKit ++ [[asked]] ∧
          Waits (b.handleTileRequest id tile forceKeyframe now).tileCache asked.cacheKey id) := by
  refine ⟨{ tile with
    normalizedViewId := (b.sessions id).canonicalViewId
    ver := b.tileVersion + 1 }, rfl, rfl, ?_⟩
  unfold handleTileRequest
  dsimp only
  generalize ({ tile with
    normalizedViewId := (b.sessions id).canonicalViewId
    ver := b.tileVersion + 1 } : TileDesc) = asked
  have hreset : ∀ b' : Broker, b' = (if forceKeyframe then
      ({ b with tileVersion := b.tileVersion + 1 } : Broker).updateSession id (·.resetTileSeq asked)
      else { b with tileVersion := b.tileVersion + 1 }) →
      b'.tileCache = b.tileCache ∧ b'.toKit = b.toKit := by
    rintro b' rfl
    split <;> exact ⟨rfl, rfl⟩
  generalize hb' : (if forceKeyframe then
    ({ b with tileVersion := b.tileVersion + 1 } : Broker).updateSession id (·.resetTileSeq asked)
    else { b with tileVersion := b.tileVersion + 1 }) = b'
  obtain ⟨hcache, htoKit⟩ := hreset b' hb'.symm
  rw [hcache]
  have hsent : ({ b' with
      tileCache := b.tileCache.subscribeToTileRendering asked id now
      toKit := b'.toKit ++ [[asked]] } : Broker).toKit = b.toKit ++ [[asked]] := by
    rw [← htoKit]
  split
  · rename_i cached hcached
    split
    · exact ⟨by rw [← hcache]; rfl, .inl ⟨htoKit, cached, hcached⟩⟩
    · exact ⟨rfl, .inr ⟨hsent, waits_subscribe id now _ asked⟩⟩
  · exact ⟨rfl, .inr ⟨hsent, waits_subscribe id now _ asked⟩⟩

/-! ## Entries have keyframes -/

/-- Every entry of the cache has a first frame. -/
def Framed (b : Broker) : Prop :=
  ∀ key cached, b.tileCache.cache.lookup key = some cached → cached.frames ≠ []

theorem Framed.congr {b' : Broker} (h : b.Framed) (hcache : b'.tileCache.cache = b.tileCache.cache) :
    b'.Framed := by
  unfold Framed
  rw [hcache]
  exact h

theorem Framed.lacks_iff (h : b.Framed) (t : TileDesc) :
    b.Lacks t ↔ b.tileCache.lookupTile t = none := by
  constructor
  · intro hlacks
    cases hlookup : b.tileCache.lookupTile t with
    | none => rfl
    | some cached => exact absurd (hlacks cached hlookup) (h _ cached hlookup)
  · intro hnone cached hlookup
    rw [hnone] at hlookup
    cases hlookup

theorem cache_saveTileAndNotify (desc : TileDesc) (data : List UInt8) :
    (b.saveTileAndNotify desc data).tileCache.cache =
      (b.tileCache.saveDataToCache desc data).1.cache := by
  have hforget : ∀ c : TileCache, (c.forgetTileBeingRendered desc).cache = c.cache := by
    intro c
    unfold TileCache.forgetTileBeingRendered
    split
    · rfl
    · split <;> rfl
  rw [saveTileAndNotify_eq]
  dsimp only
  split
  · rfl
  · rw [hforget]
    split
    · rfl
    · rw [foldl_notify_tileCache]

theorem Framed.saveTileAndNotify (h : b.Framed) (desc : TileDesc) (data : List UInt8) :
    (b.saveTileAndNotify desc data).Framed := by
  intro key cached hlookup
  rw [cache_saveTileAndNotify] at hlookup
  rcases saveDataToCache_cases b.tileCache desc data with ⟨heq, -⟩ | ⟨e, heq, -⟩
  · rw [heq] at hlookup
    exact h key cached hlookup
  · rw [heq, Assoc.lookup_put] at hlookup
    split at hlookup
    · obtain rfl := Option.some.inj hlookup
      intro hempty
      have hlast := getLast?_wids_appendBlob e desc.wireId data
      rw [TileData.wids, hempty] at hlast
      cases hlast
    · exact h key cached hlookup

theorem Framed.act (h : b.Framed) (a : Action) : (Tiles.act b a).Framed := by
  cases a with
  | response desc data => exact h.saveTileAndNotify desc data
  | combined id c forceKeyframe now budget =>
    exact h.congr ((sends_acceptRequest c forceKeyframe).trans sends_sendRequestedTiles).cache
  | more id now budget => exact h.congr sends_sendRequestedTiles.cache
  | single id tile now =>
    obtain ⟨asked, -, -, hcache, -⟩ := handleTileRequest_cases b id now tile true
    exact h.congr hcache
  | invalidate part mode x y width height normalizedViewId =>
    intro key cached hlookup
    simp only [Tiles.act, TileCache.invalidateTiles] at hlookup
    rw [Assoc.lookup_map fun k (e : TileData) =>
      if TileCache.intersectsTile k part mode x y width height normalizedViewId
      then { e with valid := false } else e] at hlookup
    obtain ⟨e, he, rfl⟩ := Option.map_eq_some_iff.mp hlookup
    have hframes := h key e he
    split <;> exact hframes
  | evict victims =>
    intro key cached hlookup
    simp only [Tiles.act, TileCache.evict] at hlookup
    rw [Assoc.lookup_filter fun k => decide (k ∉ victims)] at hlookup
    split at hlookup
    · exact h key cached hlookup
    · cases hlookup
  | setView id canonicalViewId => exact h.congr rfl
  | close id => exact h.congr rfl

theorem framed_run (actions : List Action) : (actions.foldl Tiles.act init).Framed := by
  have hrun : ∀ b : Broker, b.Framed → (actions.foldl Tiles.act b).Framed := by
    induction actions with
    | nil => exact fun b hb => hb
    | cons a actions ih => exact fun b hb => ih _ (hb.act a)
  exact hrun init fun key cached hlookup => by cases hlookup

/-! ## Every request of every run -/

theorem toKit_saveTileAndNotify (desc : TileDesc) (data : List UInt8) :
    (b.saveTileAndNotify desc data).toKit = b.toKit := by
  have hfold : ∀ (tile : TileData) (ids : List Nat) (b' : Broker),
      (ids.foldl (notify desc tile) b').toKit = b'.toKit := by
    intro tile ids
    induction ids with
    | nil => exact fun _ => rfl
    | cons j ids ih =>
      intro b'
      rw [List.foldl_cons, ih, notify]
      split <;> rfl
  rw [saveTileAndNotify_eq]
  dsimp only
  split
  · rfl
  · split
    · rfl
    · exact hfold _ _ _

theorem newRequests_of_toKit {a : Action} {groups : List (List TileDesc)}
    (h : (Tiles.act b a).toKit = b.toKit ++ groups) : b.newRequests a = groups := by
  rw [newRequests, h, List.drop_left]

section Kit

variable {hasAVX2 : Bool} {compress : List UInt8 → Option (List UInt8)}
  {writePng : Nat → Nat → List UInt8 → List UInt8} {mode : TileMode}

/-- An action that sends nothing to the kit. -/
theorem asksForKeyframes_of_toKit {a : Action} (h : (Tiles.act b a).toKit = b.toKit) :
    AsksForKeyframes hasAVX2 compress writePng mode b a := by
  intro group hgroup
  rw [newRequests_of_toKit (h.trans (List.append_nil _).symm)] at hgroup
  cases hgroup

variable (hzstd : ∀ bytes, (compress bytes).isSome)
  (hpng : ∀ w h rgba, (writePng w h rgba).head? = some 0x89)

include hzstd hpng

/-- **What goes through the queue** is asked for rightly. -/
theorem asksForKeyframes_of_sends (hframed : b.Framed) {a : Action} (hid : a.requester = some id)
    (h : b.Sends id (Tiles.act b a)) : AsksForKeyframes hasAVX2 compress writePng mode b a := by
  obtain ⟨groups, htoKit, hall⟩ := h.toKit
  intro group hgroup t ht hlacks
  rw [newRequests_of_toKit htoKit] at hgroup
  obtain ⟨hold, hwaits⟩ := hall group hgroup t ht
  have hzero := hold ((hframed.lacks_iff t).mp hlacks)
  refine ⟨hzero, answerArrives_of_oldWireId hzstd hpng hzero, fun j hj => ?_⟩
  rw [hid] at hj
  rw [← Option.some.inj hj]
  exact hwaits

/-- A request for one tile is rightly asked for if and only if the tile is in the cache, or the client
has named no old wire id. -/
theorem asksForKeyframes_single (hframed : b.Framed) (tile : TileDesc) :
    AsksForKeyframes hasAVX2 compress writePng mode b (.single id tile now) ↔
      b.MissingHasNoOldWireId (.single id tile now) := by
  obtain ⟨asked, hkey, hold, -, ⟨htoKit, cached, hcached⟩ | ⟨htoKit, hwaits⟩⟩ :=
    handleTileRequest_cases b id now tile true
  · refine ⟨fun _ hnone => ?_, fun _ => asksForKeyframes_of_toKit htoKit⟩
    rw [TileCache.lookupTile, ← hkey, ← TileCache.lookupTile, hcached] at hnone
    cases hnone
  · have hrequests : b.newRequests (.single id tile now) = [[asked]] := newRequests_of_toKit htoKit
    have hlookup : b.tileCache.lookupTile asked = b.tileCache.lookupTile
        { tile with normalizedViewId := (b.sessions id).canonicalViewId } := by
      rw [TileCache.lookupTile, hkey, ← TileCache.lookupTile]
    constructor
    · intro h hnone
      have hlacks : b.Lacks asked := (hframed.lacks_iff asked).mpr (hlookup.trans hnone)
      rw [← hold]
      exact (h [asked] (by rw [hrequests]; simp) asked (by simp) hlacks).1
    · intro h group hgroup t ht hlacks
      rw [hrequests, List.mem_singleton] at hgroup
      rw [hgroup, List.mem_singleton] at ht
      subst ht
      have hzero : t.oldWireId = 0 := by
        rw [hold]
        exact h (hlookup.symm.trans ((hframed.lacks_iff t).mp hlacks))
      refine ⟨hzero, answerArrives_of_oldWireId hzstd hpng hzero, fun j hj => ?_⟩
      rw [← Option.some.inj hj]
      exact hwaits

/-- In every state that the broker reaches, an action asks for missing tiles as keyframes if and only
if it is no `tile` request for a missing tile with an old wire id. -/
theorem asksForKeyframes_iff (actions : List Action) (a : Action) :
    AsksForKeyframes hasAVX2 compress writePng mode (actions.foldl Tiles.act init) a ↔
      (actions.foldl Tiles.act init).MissingHasNoOldWireId a := by
  have hframed := framed_run actions
  cases a with
  | single id tile now => exact asksForKeyframes_single hzstd hpng hframed tile
  | combined id c forceKeyframe now budget =>
    exact ⟨fun _ => trivial, fun _ => asksForKeyframes_of_sends hzstd hpng hframed rfl
      ((sends_acceptRequest c forceKeyframe).trans sends_sendRequestedTiles)⟩
  | more id now budget =>
    exact ⟨fun _ => trivial, fun _ =>
      asksForKeyframes_of_sends hzstd hpng hframed rfl sends_sendRequestedTiles⟩
  | response desc data =>
    exact ⟨fun _ => trivial, fun _ => asksForKeyframes_of_toKit (toKit_saveTileAndNotify desc data)⟩
  | invalidate => exact ⟨fun _ => trivial, fun _ => asksForKeyframes_of_toKit rfl⟩
  | evict => exact ⟨fun _ => trivial, fun _ => asksForKeyframes_of_toKit rfl⟩
  | setView => exact ⟨fun _ => trivial, fun _ => asksForKeyframes_of_toKit rfl⟩
  | close => exact ⟨fun _ => trivial, fun _ => asksForKeyframes_of_toKit rfl⟩

end Kit

/-- A `tile` request of a client that has seen the tile up to a wire id. -/
def requestSince (oldWireId : UInt32) : Action :=
  .single 1 { Subscribed.sampleTile 0 with oldWireId := oldWireId } 0

theorem asksForKeyframes_requestSince :
    init.MissingHasNoOldWireId (requestSince 0) ∧
      AsksForKeyframes false Kit.zstdRaw (fun _ _ rgba => Kit.pngSignature ++ rgba) .rgba init
        (requestSince 0) :=
  ⟨fun _ => rfl, (asksForKeyframes_iff (fun _ => rfl) (fun _ _ _ => rfl) [] (requestSince 0)).mpr
    fun _ => rfl⟩

/-- The first request for a tile names a wire id, as after a reconnect: the kit is asked for a delta. -/
theorem not_asksForKeyframes :
    ¬AsksForKeyframes false Kit.zstdRaw (fun _ _ rgba => Kit.pngSignature ++ rgba) .rgba init
      (requestSince 5) := by
  intro h
  have hzero := (asksForKeyframes_single (fun _ => rfl) (fun _ _ _ => rfl) (framed_run []) _).mp h rfl
  exact absurd hzero (by decide)

end Broker

end Oxool.Wsd.Tiles
