import Oxool.Lib.Run
import Oxool.Tile.TileText
import Oxool.Wsd.Subscriptions

/-!
# Requested tiles, in batches (`wsd/DocumentBroker.cpp`)

A session keeps the tiles it was asked for in a queue, and `sendRequestedTiles` takes as many out of
it as the client can take in. A tile leaves the queue in one of three ways: it is answered from the
cache, it goes into one `tilecombine` for the kit, or it only waits for a rendering that is under way
already. The third way is there on purpose: what handling the request has sent ahead, and what other
sessions have asked for, is not asked for again.

Which way a tile takes can be told from the broker before the round (`wayOut`), since the tiles of
the queue are distinct and dealing with one of them changes nothing for the others. The round is then
a filter of the queue (`sendRequestedLoop_spec`), and the combined messages are its tiles, sorted
(`flatten_groupsNeedsRendering`).
-/

set_option autoImplicit false

namespace Oxool.Wsd.Tiles

open Oxool.Http (Bytes)

/-! ## The callers -/

/-- `setNormalizedViewId` of a combined request. -/
def setNormalizedViewId (c : TileCombined) (normalizedViewId : Nat) : TileCombined where
  params := { c.params with normalizedViewId := normalizedViewId }
  tiles := c.tiles.map fun t => { t with normalizedViewId := normalizedViewId }
  isCompiled := c.isCompiled
  shared := by
    intro t ht
    obtain ⟨u, hu, rfl⟩ := List.mem_map.mp ht
    rw [← c.shared u hu]
    rfl

namespace Broker

/-- `ClientSession::sendCombinedTiles`: a request of a client is for its view, and one with duplicates
is refused. -/
def sendCombinedTiles (b : Broker) (id : Nat) (tokens : List Bytes) (now budget : Nat) : Broker :=
  match TileCombined.parse tokens with
  | none => b
  | some tileCombined =>
    let tileCombined := setNormalizedViewId tileCombined (b.sessions id).canonicalViewId
    if tileCombined.hasDuplicates then b
    else b.handleTileCombinedRequest id tileCombined true now budget

/-- What the callers hand over: no duplicates, and the view of the session. -/
def Handed (b : Broker) : Action → Prop
  | .combined id tileCombined _ _ _ =>
    tileCombined.hasDuplicates = false ∧
      ∀ t ∈ tileCombined.tiles, t.normalizedViewId = (b.sessions id).canonicalViewId
  | _ => True

theorem handed_setNormalizedViewId (b : Broker) (id : Nat) (tileCombined : TileCombined)
    (forceKeyframe : Bool) (now budget : Nat)
    (h : (setNormalizedViewId tileCombined (b.sessions id).canonicalViewId).hasDuplicates = false) :
    b.Handed (.combined id (setNormalizedViewId tileCombined (b.sessions id).canonicalViewId)
      forceKeyframe now budget) := by
  refine ⟨h, fun t ht => ?_⟩
  obtain ⟨u, -, rfl⟩ := List.mem_map.mp ht
  rfl

/-- A request of a client is handed over so, or leaves everything as it is. -/
theorem sendCombinedTiles_cases (b : Broker) (id : Nat) (tokens : List Bytes) (now budget : Nat) :
    b.sendCombinedTiles id tokens now budget = b ∨
      ∃ a, b.Handed a ∧ b.sendCombinedTiles id tokens now budget = Tiles.act b a := by
  unfold sendCombinedTiles
  split
  · exact .inl rfl
  · rename_i tileCombined hparse
    dsimp only
    split
    · exact .inl rfl
    · rename_i hduplicates
      exact .inr ⟨.combined id _ true now budget,
        handed_setNormalizedViewId b id tileCombined true now budget (by simpa using hduplicates), rfl⟩

/-! ## What is asked -/

variable (b : Broker) (id now budget : Nat)

/-- How often a round answers a tile from the cache. -/
def answers (t : TileDesc) : Nat :=
  (((b.sendRequestedTiles id now budget).sessions id).sent.drop (b.sessions id).sent.length).countP
    fun m => m.desc.cacheKey = t.cacheKey

/-- How often it asks the kit for a tile. -/
def requests (t : TileDesc) : Nat :=
  ((b.sendRequestedTiles id now budget).toKit.drop b.toKit.length).flatten.countP
    fun u => u.cacheKey = t.cacheKey

/-- The tiles of the queue that a round takes out. -/
def TakesOut (left : List TileDesc) : Prop :=
  (b.sessions id).requestedTiles =
    left ++ ((b.sendRequestedTiles id now budget).sessions id).requestedTiles

/-- A rendering of the tile is under way, in the version that was requested or a later one. -/
def UnderWay (t : TileDesc) : Prop :=
  b.tileCache.hasTileBeingRendered t now = true ∧ t.ver ≤ b.tileCache.getTileBeingRenderedVersion t

/-- A session waits for a tile: it is subscribed to a rendering of it. -/
def Waits (c : TileCache) (key : CacheKey) (id : Nat) : Prop :=
  ∃ r, c.tilesBeingRendered.lookup key = some r ∧ id ∈ r.subscribers

/-- Every tile that leaves is answered from the cache, or asked for once. -/
def LeavesAnsweredOrAsked : Prop :=
  ∃ left, b.TakesOut id now budget left ∧
    ∀ t ∈ left, b.answers id now budget t + b.requests id now budget t = 1

/-- **How tiles leave the queue**: each one is answered from the cache once, or the kit is asked for it
once, or nothing is sent for it as a rendering is under way. In the last two cases the session waits for
the tile after the round, so that it will be sent what comes. Nothing is sent for tiles that do not
leave. -/
def LeavesOnce : Prop :=
  ∃ left, b.TakesOut id now budget left ∧
    (∀ t ∈ left,
      (b.answers id now budget t = 1 ∧ b.requests id now budget t = 0) ∨
      (b.answers id now budget t = 0 ∧ b.requests id now budget t = 1 ∧
        Waits (b.sendRequestedTiles id now budget).tileCache t.cacheKey id) ∨
      (b.UnderWay now t ∧ b.answers id now budget t = 0 ∧ b.requests id now budget t = 0 ∧
        Waits (b.sendRequestedTiles id now budget).tileCache t.cacheKey id)) ∧
    ∀ t, t.cacheKey ∉ left.map TileDesc.cacheKey →
      b.answers id now budget t = 0 ∧ b.requests id now budget t = 0

/-- What a combined message may be: some distinct tiles with the parameters of the first, which its
header states. -/
structure IsBatch (group : List TileDesc) : Prop where
  ne_nil : group ≠ []
  distinct : (group.map TileDesc.cacheKey).Nodup
  shared : ∀ t ∈ group, ∀ u ∈ group.head?, t.combineParams = u.combineParams

/-- The law for a broker: no tile is queued twice, the next round of any session takes its tiles out
as `Leaves` says, and the kit was sent batches. -/
structure Batches (Leaves : Broker → Nat → Nat → Nat → Prop) (b : Broker) : Prop where
  distinct : ∀ id, ((b.sessions id).requestedTiles.map TileDesc.cacheKey).Nodup
  leaves : ∀ id now budget, Leaves b id now budget
  batches : ∀ group ∈ b.toKit, IsBatch group

/-! ## Groups -/

theorem flatten_insertGroup (t : TileDesc) (groups : List (List TileDesc)) :
    (insertGroup t groups).flatten.Perm (t :: groups.flatten) := by
  induction groups with
  | nil => exact List.Perm.refl _
  | cons g gs ih =>
    have hlater : (g :: insertGroup t gs).flatten.Perm (t :: (g :: gs).flatten) := by
      rw [List.flatten_cons, List.flatten_cons]
      exact (ih.append_left g).trans List.perm_middle
    cases g with
    | nil => exact hlater
    | cons u us =>
      unfold insertGroup
      dsimp only
      split
      · rw [List.flatten_cons, List.flatten_cons, List.append_assoc]
        exact List.perm_middle
      · exact hlater

theorem flatten_groupsNeedsRendering (need : List TileDesc) :
    (groupsNeedsRendering need).flatten.Perm need := by
  have hfold : ∀ groups, (need.foldl (fun groups t => insertGroup t groups) groups).flatten.Perm
      (groups.flatten ++ need) := by
    induction need with
    | nil => simp
    | cons t need ih =>
      intro groups
      rw [List.foldl_cons]
      have hinsert := (flatten_insertGroup t groups).append_right need
      exact (ih _).trans (hinsert.trans List.perm_middle.symm)
  exact (hfold []).trans (by rw [List.flatten_nil, List.nil_append])

/-- A group has tiles, and all have the parameters of the first. -/
structure IsGroup (group : List TileDesc) : Prop where
  ne_nil : group ≠ []
  shared : ∀ t ∈ group, ∀ u ∈ group.head?, t.combineParams = u.combineParams

theorem isGroup_insertGroup {t : TileDesc} {groups : List (List TileDesc)}
    (h : ∀ g ∈ groups, IsGroup g) : ∀ g ∈ insertGroup t groups, IsGroup g := by
  induction groups with
  | nil =>
    intro g hg
    rw [List.mem_singleton.mp hg]
    refine ⟨List.cons_ne_nil _ _, fun u hu v hv => ?_⟩
    rw [List.mem_singleton.mp hu, Option.some.inj hv]
  | cons group rest ih =>
    have hrest := ih fun g hg => h g (List.mem_cons_of_mem _ hg)
    have hlater : ∀ g ∈ group :: insertGroup t rest, IsGroup g :=
      List.forall_mem_cons.mpr ⟨h group List.mem_cons_self, hrest⟩
    cases group with
    | nil => exact hlater
    | cons u us =>
      unfold insertGroup
      dsimp only
      split
      · rename_i hsame
        refine List.forall_mem_cons.mpr ⟨⟨by simp, fun v hv w hw => ?_⟩,
          fun g hg => h g (List.mem_cons_of_mem _ hg)⟩
        obtain rfl : u = w := Option.some.inj hw
        rcases List.mem_append.mp hv with hv | hv
        · exact (h (u :: us) List.mem_cons_self).shared v hv u rfl
        · rw [List.mem_singleton.mp hv]
          simpa [TileDesc.sameTileCombineParams] using hsame
      · exact hlater

theorem isGroup_groupsNeedsRendering (need : List TileDesc) :
    ∀ g ∈ groupsNeedsRendering need, IsGroup g := by
  have hfold : ∀ groups, (∀ g ∈ groups, IsGroup g) →
      ∀ g ∈ need.foldl (fun groups t => insertGroup t groups) groups, IsGroup g := by
    induction need with
    | nil => exact fun groups h => h
    | cons t need ih => exact fun groups h => ih _ (isGroup_insertGroup h)
  exact hfold [] (by simp)

/-- **Distinct tiles are sent in batches.** -/
theorem isBatch_groupsNeedsRendering {need : List TileDesc}
    (h : (need.map TileDesc.cacheKey).Nodup) : ∀ g ∈ groupsNeedsRendering need, IsBatch g := by
  intro g hg
  obtain ⟨hne, hshared⟩ := isGroup_groupsNeedsRendering need g hg
  refine ⟨hne, ?_, hshared⟩
  have hflatten := (((flatten_groupsNeedsRendering need).map TileDesc.cacheKey).nodup_iff).mpr h
  exact hflatten.sublist ((List.sublist_flatten_of_mem hg).map _)

/-! ## One tile -/

inductive WayOut where
  | answered
  | asked
  | waiting
deriving DecidableEq

/-- How a tile leaves the queue. -/
def wayOut (c : TileCache) (now : Nat) (t : TileDesc) : WayOut :=
  if (c.lookupTile t).any TileData.valid then .answered
  else if !c.hasTileBeingRendered t now || decide (c.getTileBeingRenderedVersion t < t.ver) then .asked
  else .waiting

/-- It depends on what is known of the tile only. -/
theorem wayOut_congr {c c' : TileCache} {t : TileDesc} (hcache : c'.cache = c.cache)
    (hrendered : c'.tilesBeingRendered.lookup t.cacheKey = c.tilesBeingRendered.lookup t.cacheKey)
    (now : Nat) : wayOut c' now t = wayOut c now t := by
  have hlookup : c'.lookupTile t = c.lookupTile t := by
    rw [TileCache.lookupTile, TileCache.lookupTile, hcache]
  have hrendering : c'.hasTileBeingRendered t now = c.hasTileBeingRendered t now := by
    rw [TileCache.hasTileBeingRendered, TileCache.hasTileBeingRendered, hrendered]
  have hversion : c'.getTileBeingRenderedVersion t = c.getTileBeingRenderedVersion t := by
    rw [TileCache.getTileBeingRenderedVersion, TileCache.getTileBeingRenderedVersion, hrendered]
  rw [wayOut, wayOut, hlookup, hrendering, hversion]

theorem underWay_of_wayOut {t : TileDesc} (h : wayOut b.tileCache now t = .waiting) :
    b.UnderWay now t := by
  unfold wayOut at h
  split at h
  · cases h
  · split at h
    · cases h
    · rename_i hnot
      simp only [Bool.or_eq_true, Bool.not_eq_true', decide_eq_true_eq, not_or, Bool.not_eq_false,
        Int.not_lt] at hnot
      exact hnot

/-- What one round of the loop can do. A tile that is missing in the cache is asked for with the old
wire id 0. -/
theorem sendRequestedTile_cases (need : List TileDesc) (t : TileDesc) :
    (wayOut b.tileCache now t = .answered ∧ ∃ tile cached, tile.cacheKey = t.cacheKey ∧
      sendRequestedTile id now b need t =
        (b.updateSession id (·.sendTileNow tile cached), need)) ∨
    (wayOut b.tileCache now t = .asked ∧ ∃ asked, asked.cacheKey = t.cacheKey ∧
      (b.tileCache.lookupTile t = none → asked.oldWireId = 0) ∧
      sendRequestedTile id now b need t =
        ({ b with
            tileVersion := b.tileVersion + 1
            tileCache := b.tileCache.subscribeToTileRendering asked id now }, need ++ [asked])) ∨
    (wayOut b.tileCache now t = .waiting ∧
      sendRequestedTile id now b need t =
        ({ b with tileCache := b.tileCache.subscribeToTileRendering t id now }, need)) := by
  have hrender : ∀ tile : TileDesc, tile.cacheKey = t.cacheKey →
      (b.tileCache.lookupTile t).any TileData.valid = false →
      (b.tileCache.lookupTile t = none → tile.oldWireId = 0) →
      sendRequestedTile id now b need t = sendRequestedTile.render id now b need t tile →
      (wayOut b.tileCache now t = .asked ∧ ∃ asked, asked.cacheKey = t.cacheKey ∧
        (b.tileCache.lookupTile t = none → asked.oldWireId = 0) ∧
        sendRequestedTile id now b need t =
          ({ b with
              tileVersion := b.tileVersion + 1
              tileCache := b.tileCache.subscribeToTileRendering asked id now }, need ++ [asked])) ∨
      (wayOut b.tileCache now t = .waiting ∧
        sendRequestedTile id now b need t =
          ({ b with tileCache := b.tileCache.subscribeToTileRendering t id now }, need)) := by
    intro tile hkey hvalid hold hsend
    rw [hsend, wayOut, hvalid, if_neg Bool.false_ne_true, sendRequestedTile.render]
    split
    · exact .inl ⟨rfl, { tile with ver := b.tileVersion + 1 }, hkey, hold, rfl⟩
    · exact .inr ⟨rfl, rfl⟩
  rcases Option.eq_none_or_eq_some (b.tileCache.lookupTile t) with hlookup | ⟨cached, hlookup⟩
  · right
    refine hrender { t with oldWireId := 0 } rfl (by rw [hlookup]; rfl) (fun _ => rfl) ?_
    rw [sendRequestedTile, hlookup]
  · cases hvalid : cached.valid with
    | true =>
      refine .inl ⟨by rw [wayOut, hlookup, Option.any_some, hvalid, if_pos rfl],
        if t.wireId = 0 then { t with wireId := cached.wids.getLastD 0 } else t, cached, ?_, ?_⟩
      · split <;> rfl
      · rw [sendRequestedTile, hlookup]
        dsimp only
        rw [if_pos hvalid]
    | false =>
      right
      refine hrender t rfl (by rw [hlookup, Option.any_some, hvalid])
        (fun hnone => by rw [hlookup] at hnone; cases hnone) ?_
      rw [sendRequestedTile, hlookup]
      dsimp only
      rw [hvalid, if_neg Bool.false_ne_true]

theorem waits_subscribe (c : TileCache) (t : TileDesc) :
    Waits (c.subscribeToTileRendering t id now) t.cacheKey id := by
  have hlookup := Subscribed.lookup_subscribe c t id now t.cacheKey
  rw [if_pos rfl] at hlookup
  cases hr : c.tilesBeingRendered.lookup t.cacheKey with
  | none =>
    rw [hr] at hlookup
    exact ⟨_, hlookup, by simp⟩
  | some r =>
    rw [hr] at hlookup
    dsimp only at hlookup
    split at hlookup
    · rename_i hmem
      exact ⟨_, hlookup, hmem⟩
    · exact ⟨_, hlookup, by simp⟩

theorem Waits.subscribe {c : TileCache} {key : CacheKey} {j : Nat} (h : Waits c key j) (t : TileDesc) :
    Waits (c.subscribeToTileRendering t id now) key j := by
  obtain ⟨r, hr, hj⟩ := h
  have hlookup := Subscribed.lookup_subscribe c t id now key
  by_cases hkey : key = t.cacheKey
  · rw [if_pos hkey, ← hkey, hr] at hlookup
    dsimp only at hlookup
    split at hlookup
    · exact ⟨_, hlookup, hj⟩
    · exact ⟨_, hlookup, List.mem_append_left _ hj⟩
  · rw [if_neg hkey] at hlookup
    exact ⟨r, hlookup.trans hr, hj⟩

/-- What a round leaves as it was, and what it adds. -/
structure Dealt (left need : List TileDesc) (r : Broker × List TileDesc) : Prop where
  cache : r.1.tileCache.cache = b.tileCache.cache
  others : ∀ key, key ∉ left.map TileDesc.cacheKey →
    r.1.tileCache.tilesBeingRendered.lookup key = b.tileCache.tilesBeingRendered.lookup key
  waits : ∀ key j, Waits b.tileCache key j → Waits r.1.tileCache key j
  toKit : r.1.toKit = b.toKit
  sessions : ∀ j, j ≠ id → r.1.sessions j = b.sessions j
  sent : ∃ news, (r.1.sessions id).sent = (b.sessions id).sent ++ news ∧
    news.map (fun m => m.desc.cacheKey) =
      (left.filter fun t => wayOut b.tileCache now t = .answered).map TileDesc.cacheKey
  asked : ∃ asks, r.2 = need ++ asks ∧
    asks.map TileDesc.cacheKey =
      (left.filter fun t => wayOut b.tileCache now t = .asked).map TileDesc.cacheKey ∧
    ∀ t ∈ asks, (b.tileCache.lookupTile t = none → t.oldWireId = 0) ∧
      Waits r.1.tileCache t.cacheKey id
  /-- The session waits for every tile that is not answered at once. -/
  waiting : ∀ t ∈ left, wayOut b.tileCache now t ≠ .answered → Waits r.1.tileCache t.cacheKey id

theorem dealt_sendRequestedTile (need : List TileDesc) (t : TileDesc) :
    b.Dealt id now [t] need (sendRequestedTile id now b need t) ∧
      ((sendRequestedTile id now b need t).1.sessions id).requestedTiles =
        (b.sessions id).requestedTiles := by
  have hsubscribe : ∀ tile : TileDesc, tile.cacheKey = t.cacheKey →
      ∀ key, key ∉ [t].map TileDesc.cacheKey →
        (b.tileCache.subscribeToTileRendering tile id now).tilesBeingRendered.lookup key =
          b.tileCache.tilesBeingRendered.lookup key := by
    intro tile htile key hkey
    rw [Subscribed.lookup_subscribe, if_neg]
    intro heq
    exact hkey (by simp [heq, htile])
  rcases sendRequestedTile_cases b id now need t with ⟨hway, tile, cached, hkey, heq⟩ |
    ⟨hway, asked, hkey, hold, heq⟩ | ⟨hway, heq⟩
  · rw [heq]
    refine ⟨⟨rfl, fun _ _ => rfl, fun _ _ h => h, rfl, fun j hj => Function.update_of_ne hj _ _, ?_, ?_,
      ?_⟩, ?_⟩
    · obtain ⟨m, hm, hdesc⟩ : ∃ m : Sent,
          ((b.sessions id).sendTileNow tile cached).sent = (b.sessions id).sent ++ [m] ∧ m.desc = tile :=
        ⟨_, rfl, rfl⟩
      refine ⟨[m], ?_, by simp [hway, hdesc, hkey]⟩
      simp only [updateSession, Function.update_self]
      exact hm
    · exact ⟨[], by simp, by simp [hway], by simp⟩
    · exact List.forall_mem_singleton.mpr fun hnot => absurd hway hnot
    · simp only [updateSession, Function.update_self]
      rfl
  · rw [heq]
    refine ⟨⟨rfl, hsubscribe asked hkey, fun _ _ h => h.subscribe id now asked, rfl, fun _ _ => rfl,
      ⟨[], by simp, by simp [hway]⟩, ⟨[asked], rfl, by simp [hway, hkey], ?_⟩, ?_⟩, rfl⟩
    · intro u hu
      rw [List.mem_singleton.mp hu]
      refine ⟨fun hnone => hold ?_, waits_subscribe id now _ asked⟩
      rw [TileCache.lookupTile, ← hkey]
      exact hnone
    · refine List.forall_mem_singleton.mpr fun _ => ?_
      rw [← hkey]
      exact waits_subscribe id now _ asked
  · rw [heq]
    exact ⟨⟨rfl, hsubscribe t rfl, fun _ _ h => h.subscribe id now t, rfl, fun _ _ => rfl,
      ⟨[], by simp, by simp [hway]⟩, ⟨[], by simp, by simp [hway], by simp⟩,
      List.forall_mem_singleton.mpr fun _ => waits_subscribe id now _ t⟩, rfl⟩

/-! ## A round -/

/-- The ways out of tiles that were not dealt with yet. -/
theorem Dealt.filter_wayOut {left need rest : List TileDesc} {r : Broker × List TileDesc}
    (h : b.Dealt id now left need r) (hrest : ∀ u ∈ rest, u.cacheKey ∉ left.map TileDesc.cacheKey)
    (way : WayOut) :
    rest.filter (fun u => wayOut r.1.tileCache now u = way) =
      rest.filter fun u => wayOut b.tileCache now u = way := by
  refine List.filter_congr fun u hu => ?_
  rw [wayOut_congr h.cache (h.others _ (hrest u hu))]

/-- Some tiles after others. -/
theorem Dealt.trans {left left' need : List TileDesc} {r r' : Broker × List TileDesc}
    (h : b.Dealt id now left need r) (h' : r.1.Dealt id now left' r.2 r')
    (hleft : ∀ u ∈ left', u.cacheKey ∉ left.map TileDesc.cacheKey) :
    b.Dealt id now (left ++ left') need r' := by
  obtain ⟨news, hnews, hanswered⟩ := h.sent
  obtain ⟨news', hnews', hanswered'⟩ := h'.sent
  obtain ⟨asks, hasks, hasked, hall⟩ := h.asked
  obtain ⟨asks', hasks', hasked', hall'⟩ := h'.asked
  rw [h.filter_wayOut b id now hleft] at hanswered' hasked'
  refine ⟨h'.cache.trans h.cache, ?_, fun key j hw => h'.waits key j (h.waits key j hw),
    h'.toKit.trans h.toKit, fun j hj => (h'.sessions j hj).trans (h.sessions j hj),
    ⟨news ++ news', ?_, ?_⟩, ⟨asks ++ asks', ?_, ?_, ?_⟩, ?_⟩
  · intro key hkey
    rw [List.map_append, List.mem_append, not_or] at hkey
    exact (h'.others key hkey.2).trans (h.others key hkey.1)
  · rw [hnews', hnews, List.append_assoc]
  · rw [List.map_append, hanswered, hanswered', List.filter_append, List.map_append]
  · rw [hasks', hasks, List.append_assoc]
  · rw [List.map_append, hasked, hasked', List.filter_append, List.map_append]
  · intro u hu
    rcases List.mem_append.mp hu with hu | hu
    · exact ⟨(hall u hu).1, h'.waits _ _ (hall u hu).2⟩
    · refine ⟨fun hnone => (hall' u hu).1 ?_, (hall' u hu).2⟩
      rw [TileCache.lookupTile, h.cache]
      exact hnone
  · intro u hu hnot
    rcases List.mem_append.mp hu with hu | hu
    · exact h'.waits _ _ (h.waiting u hu hnot)
    · rw [← wayOut_congr h.cache (h.others _ (hleft u hu))] at hnot
      exact h'.waiting u hu hnot

/-- **The loop** takes out as many tiles as it may, each by its own way. -/
theorem sendRequestedLoop_spec (need : List TileDesc)
    (hnodup : ((b.sessions id).requestedTiles.map TileDesc.cacheKey).Nodup) :
    b.Dealt id now ((b.sessions id).requestedTiles.take budget) need
        (sendRequestedLoop id now budget b need) ∧
      ((sendRequestedLoop id now budget b need).1.sessions id).requestedTiles =
        (b.sessions id).requestedTiles.drop budget := by
  induction budget generalizing b need with
  | zero =>
    exact ⟨⟨rfl, fun _ _ => rfl, fun _ _ h => h, rfl, fun _ _ => rfl, ⟨[], by simp [sendRequestedLoop]⟩,
      ⟨[], by simp [sendRequestedLoop]⟩, by simp⟩, rfl⟩
  | succ budget ih =>
    cases hqueue : (b.sessions id).requestedTiles with
    | nil =>
      simp only [sendRequestedLoop, hqueue]
      exact ⟨⟨rfl, fun _ _ => rfl, fun _ _ h => h, rfl, fun _ _ => rfl, ⟨[], by simp⟩, ⟨[], by simp⟩,
        by simp⟩, rfl⟩
    | cons t rest =>
      rw [hqueue, List.map_cons, List.nodup_cons] at hnodup
      obtain ⟨hdealt, -⟩ := dealt_sendRequestedTile b id now need t
      -- the queue is cut after the tile was dealt with
      have hcut : b.Dealt id now [t] need
          ((sendRequestedTile id now b need t).1.updateSession id
            (fun s => { s with requestedTiles := rest }), (sendRequestedTile id now b need t).2) := by
        refine ⟨hdealt.cache, hdealt.others, hdealt.waits, hdealt.toKit, fun j hj => ?_, ?_, hdealt.asked,
          hdealt.waiting⟩
        · exact (Function.update_of_ne hj _ _).trans (hdealt.sessions j hj)
        · simp only [updateSession, Function.update_self]
          exact hdealt.sent
      have hrest : ((((sendRequestedTile id now b need t).1.updateSession id
          (fun s => { s with requestedTiles := rest })).sessions id).requestedTiles) = rest := by
        simp only [updateSession, Function.update_self]
      have hloop := ih ((sendRequestedTile id now b need t).1.updateSession id
        (fun s => { s with requestedTiles := rest })) (sendRequestedTile id now b need t).2
        (by rw [hrest]; exact hnodup.2)
      rw [hrest] at hloop
      simp only [sendRequestedLoop, hqueue]
      refine ⟨hcut.trans b id now hloop.1 fun u hu hmem => hnodup.1 ?_, hloop.2⟩
      rw [List.map_singleton, List.mem_singleton] at hmem
      rw [← hmem]
      exact List.mem_map_of_mem (List.mem_of_mem_take hu)

/-- Of distinct tiles that are filtered, one with a key of its own is found once. -/
theorem countP_filter_of_mem {tiles : List TileDesc} (hnodup : (tiles.map TileDesc.cacheKey).Nodup)
    {t : TileDesc} (ht : t ∈ tiles) (p : TileDesc → Bool) :
    ((tiles.filter p).map TileDesc.cacheKey).countP (fun key => key = t.cacheKey) =
      if p t then 1 else 0 := by
  have hnodup' : ((tiles.filter p).map TileDesc.cacheKey).Nodup :=
    hnodup.sublist (List.filter_sublist.map _)
  have hmem : t.cacheKey ∈ (tiles.filter p).map TileDesc.cacheKey ↔ p t = true := by
    constructor
    · intro h
      obtain ⟨u, hu, hkey⟩ := List.mem_map.mp h
      obtain ⟨hu, hpu⟩ := List.mem_filter.mp hu
      obtain rfl : u = t := List.inj_on_of_nodup_map hnodup hu ht hkey
      exact hpu
    · intro h
      exact List.mem_map_of_mem (List.mem_filter.mpr ⟨ht, h⟩)
  have hcount : ((tiles.filter p).map TileDesc.cacheKey).countP (fun key => key = t.cacheKey) =
      ((tiles.filter p).map TileDesc.cacheKey).count t.cacheKey := by
    rw [List.count]
    refine List.countP_congr fun key _ => ?_
    simp
  rw [hcount]
  split
  · rename_i hp
    exact List.count_eq_one_of_mem hnodup' (hmem.mpr hp)
  · rename_i hp
    exact List.count_eq_zero.mpr fun h => hp (hmem.mp h)

section Round

variable (hnodup : ((b.sessions id).requestedTiles.map TileDesc.cacheKey).Nodup)

include hnodup

theorem takesOut_take : b.TakesOut id now budget ((b.sessions id).requestedTiles.take budget) := by
  have hrest := (sendRequestedLoop_spec b id now budget [] hnodup).2
  change _ = _ ++ ((sendRequestedLoop id now budget b []).1.sessions id).requestedTiles
  rw [hrest, List.take_append_drop]

/-- What a round sends to the client. -/
theorem answers_eq (t : TileDesc) : b.answers id now budget t =
    ((((b.sessions id).requestedTiles.take budget).filter fun u =>
      wayOut b.tileCache now u = .answered).map TileDesc.cacheKey).countP (fun key => key = t.cacheKey) := by
  obtain ⟨news, hnews, hkeys⟩ := (sendRequestedLoop_spec b id now budget [] hnodup).1.sent
  unfold answers
  change (((sendRequestedLoop id now budget b []).1.sessions id).sent.drop _).countP _ = _
  rw [hnews, List.drop_left, ← hkeys, List.countP_map]
  rfl

/-- What a round sends to the kit. -/
theorem exists_asks : ∃ asks,
    (b.sendRequestedTiles id now budget).toKit = b.toKit ++ groupsNeedsRendering asks ∧
    asks.map TileDesc.cacheKey = (((b.sessions id).requestedTiles.take budget).filter fun u =>
      wayOut b.tileCache now u = .asked).map TileDesc.cacheKey ∧
    ∀ t ∈ asks, (b.tileCache.lookupTile t = none → t.oldWireId = 0) ∧
      Waits (b.sendRequestedTiles id now budget).tileCache t.cacheKey id := by
  have hdealt := (sendRequestedLoop_spec b id now budget [] hnodup).1
  obtain ⟨asks, hasks, hkeys, hall⟩ := hdealt.asked
  refine ⟨asks, ?_, hkeys, hall⟩
  change (sendRequestedLoop id now budget b []).1.toKit ++
    groupsNeedsRendering (sendRequestedLoop id now budget b []).2 = _
  rw [hdealt.toKit, hasks, List.nil_append]

theorem requests_eq (t : TileDesc) : b.requests id now budget t =
    ((((b.sessions id).requestedTiles.take budget).filter fun u =>
      wayOut b.tileCache now u = .asked).map TileDesc.cacheKey).countP (fun key => key = t.cacheKey) := by
  obtain ⟨asks, hasks, hkeys, -⟩ := exists_asks b id now budget hnodup
  unfold requests
  rw [hasks, List.drop_left, (flatten_groupsNeedsRendering asks).countP_eq, ← hkeys, List.countP_map]
  rfl

/-- **A round** takes every tile out by one of the three ways. -/
theorem leavesOnce_of_nodup : b.LeavesOnce id now budget := by
  have htake : (((b.sessions id).requestedTiles.take budget).map TileDesc.cacheKey).Nodup :=
    hnodup.sublist ((List.take_sublist _ _).map _)
  have hwaits := (sendRequestedLoop_spec b id now budget [] hnodup).1.waiting
  refine ⟨_, takesOut_take b id now budget hnodup, fun t ht => ?_, fun t ht => ?_⟩
  · rw [answers_eq b id now budget hnodup, requests_eq b id now budget hnodup,
      countP_filter_of_mem htake ht, countP_filter_of_mem htake ht]
    cases hway : wayOut b.tileCache now t with
    | answered => exact .inl ⟨rfl, rfl⟩
    | asked => exact .inr (.inl ⟨rfl, rfl, hwaits t ht (by rw [hway]; decide)⟩)
    | waiting =>
      exact .inr (.inr ⟨underWay_of_wayOut b now hway, rfl, rfl, hwaits t ht (by rw [hway]; decide)⟩)
  · have hnone : ∀ p : TileDesc → Bool,
        ((((b.sessions id).requestedTiles.take budget).filter p).map TileDesc.cacheKey).countP
          (fun key => key = t.cacheKey) = 0 := by
      intro p
      rw [List.countP_eq_zero]
      intro key hkey heq
      apply ht
      rw [← of_decide_eq_true heq]
      exact (List.filter_sublist.map TileDesc.cacheKey).subset hkey
    rw [answers_eq b id now budget hnodup, requests_eq b id now budget hnodup]
    exact ⟨hnone _, hnone _⟩

end Round

/-! ## New requests -/

/-- The keys of a tile's queue when it is asked for again, or for the first time. -/
theorem map_cacheKey_mergeRequest (newTile : TileDesc) (queue : List TileDesc) :
    (mergeRequest newTile queue).map TileDesc.cacheKey =
      if newTile.cacheKey ∈ queue.map TileDesc.cacheKey then queue.map TileDesc.cacheKey
      else queue.map TileDesc.cacheKey ++ [newTile.cacheKey] := by
  induction queue with
  | nil => rfl
  | cons oldTile rest ih =>
    rw [mergeRequest]
    by_cases hkey : oldTile.cacheKey = newTile.cacheKey
    · rw [if_pos hkey, if_pos (by simp [hkey])]
      rfl
    · rw [if_neg hkey, List.map_cons, ih]
      by_cases hmem : newTile.cacheKey ∈ rest.map TileDesc.cacheKey
      · rw [if_pos hmem, if_pos (by simp [hmem])]
        rfl
      · rw [if_neg hmem, if_neg (by simp [hmem, Ne.symm hkey])]
        rfl

theorem nodup_mergeRequest {newTile : TileDesc} {queue : List TileDesc}
    (h : (queue.map TileDesc.cacheKey).Nodup) :
    ((mergeRequest newTile queue).map TileDesc.cacheKey).Nodup := by
  rw [map_cacheKey_mergeRequest]
  split
  · exact h
  · rename_i hmem
    exact List.nodup_append'.mpr ⟨h, List.nodup_singleton _, by simpa using hmem⟩

/-- All tiles of a list are for one view. -/
def OfView (normalizedViewId : Nat) (tiles : List TileDesc) : Prop :=
  ∀ t ∈ tiles, t.normalizedViewId = normalizedViewId

theorem OfView.mergeRequest {v : Nat} {newTile : TileDesc} {queue : List TileDesc}
    (hnew : newTile.normalizedViewId = v) (h : OfView v queue) : OfView v (mergeRequest newTile queue) := by
  induction queue with
  | nil =>
    intro t ht
    rw [List.mem_singleton.mp ht]
    exact hnew
  | cons oldTile rest ih =>
    obtain ⟨hold, hrest⟩ := List.forall_mem_cons.mp h
    rw [Broker.mergeRequest]
    split
    · exact List.forall_mem_cons.mpr ⟨hold, hrest⟩
    · exact List.forall_mem_cons.mpr ⟨hold, ih hrest⟩

/-- **The queue after a request** has no tile twice. -/
theorem accumulate_spec {s : ClientSession} {tiles : List TileDesc} {v : Nat}
    (hqueue : (s.requestedTiles.map TileDesc.cacheKey).Nodup) (hview : OfView v s.requestedTiles)
    (htiles : (tiles.map TileDesc.cacheKey).Nodup) (hnew : OfView s.canonicalViewId tiles) :
    ((accumulate s tiles).map TileDesc.cacheKey).Nodup ∧ OfView s.canonicalViewId (accumulate s tiles) := by
  unfold accumulate
  split
  · exact ⟨htiles, hnew⟩
  · dsimp only
    have hold : ((s.requestedTiles.map fun t => { t with normalizedViewId := s.canonicalViewId }).map
        TileDesc.cacheKey).Nodup := by
      rw [List.map_map]
      refine (List.nodup_map_iff_inj_on hqueue.of_map).mpr fun t ht u hu hkey => ?_
      refine List.inj_on_of_nodup_map hqueue ht hu ?_
      have hsame : t.normalizedViewId = u.normalizedViewId := (hview t ht).trans (hview u hu).symm
      simp only [Function.comp, TileDesc.cacheKey, CacheKey.mk.injEq] at hkey ⊢
      exact ⟨hkey.1, hkey.2.1, hkey.2.2.1, hkey.2.2.2.1, hkey.2.2.2.2.1, hkey.2.2.2.2.2.1,
        hkey.2.2.2.2.2.2.1, hsame, hkey.2.2.2.2.2.2.2.2⟩
    have hcanonical : OfView s.canonicalViewId
        (s.requestedTiles.map fun t => { t with normalizedViewId := s.canonicalViewId }) := by
      intro t ht
      obtain ⟨u, -, rfl⟩ := List.mem_map.mp ht
      rfl
    generalize s.requestedTiles.map (fun t => { t with normalizedViewId := s.canonicalViewId }) = queue at *
    clear htiles
    induction tiles generalizing queue with
    | nil => exact ⟨hold, hcanonical⟩
    | cons t tiles ih =>
      obtain ⟨ht, hrest⟩ := List.forall_mem_cons.mp hnew
      exact ih hrest _ (nodup_mergeRequest hold) (hcanonical.mergeRequest ht)

/-- What the first loop leaves as it was, and what it adds. -/
structure Prepared (asked tiles need : List TileDesc) (r : Broker × List TileDesc × List TileDesc) :
    Prop where
  cache : r.1.tileCache.cache = b.tileCache.cache
  waits : ∀ key j, Waits b.tileCache key j → Waits r.1.tileCache key j
  toKit : r.1.toKit = b.toKit
  sessions : ∀ j, (r.1.sessions j).requestedTiles = (b.sessions j).requestedTiles ∧
    (r.1.sessions j).canonicalViewId = (b.sessions j).canonicalViewId
  tiles : ∃ more, r.2.1 = tiles ++ more ∧ more.map TileDesc.cacheKey = asked.map TileDesc.cacheKey
  need : ∃ more, r.2.2 = need ++ more ∧
    (more.map TileDesc.cacheKey).Sublist (asked.map TileDesc.cacheKey) ∧
    ∀ t ∈ more, (b.tileCache.lookupTile t = none → t.oldWireId = 0) ∧
      Waits r.1.tileCache t.cacheKey id

theorem sessions_resetTileSeq (t : TileDesc) (j : Nat) :
    ((b.updateSession id (·.resetTileSeq t)).sessions j).requestedTiles = (b.sessions j).requestedTiles ∧
      ((b.updateSession id (·.resetTileSeq t)).sessions j).canonicalViewId =
        (b.sessions j).canonicalViewId := by
  by_cases hj : j = id
  · simp only [updateSession, hj, Function.update_self, ClientSession.resetTileSeq]
    split <;> exact ⟨rfl, rfl⟩
  · simp only [updateSession, Function.update_of_ne hj, and_self]

/-- `b'` differs from `b` in its version and in what the clients were sent. -/
structure Forgot (b' : Broker) : Prop where
  cache : b'.tileCache = b.tileCache
  toKit : b'.toKit = b.toKit
  sessions : ∀ j, (b'.sessions j).requestedTiles = (b.sessions j).requestedTiles ∧
    (b'.sessions j).canonicalViewId = (b.sessions j).canonicalViewId

section Forgot

variable {b} {b' : Broker} (hb : b.Forgot b') (t tile : TileDesc)
  (hkey : tile.cacheKey = t.cacheKey)
include hb hkey

/-- A tile that the kit is asked for. -/
theorem Forgot.prepared_asked (tiles need : List TileDesc)
    (hold : b.tileCache.lookupTile t = none → tile.oldWireId = 0) :
    b.Prepared id [t] tiles need
      ({ b' with tileCache := b'.tileCache.subscribeToTileRendering tile id now }, tiles ++ [tile],
        need ++ [tile]) := by
  rw [hb.cache]
  refine ⟨rfl, fun _ _ h => h.subscribe id now tile, hb.toKit, hb.sessions,
    ⟨[tile], rfl, by simp [hkey]⟩, [tile], rfl, by simp [hkey], ?_⟩
  intro u hu
  rw [List.mem_singleton.mp hu]
  refine ⟨fun hnone => hold ?_, waits_subscribe id now _ tile⟩
  rw [TileCache.lookupTile, ← hkey]
  exact hnone

/-- A tile that is in the cache. -/
theorem Forgot.prepared_cached (tiles need : List TileDesc) {cached : TileData}
    (hlookup : b'.tileCache.lookupTile tile = some cached) :
    b.Prepared id [t] tiles need
      (if cached.valid then (b', tiles ++ [tile], need)
      else
        ({ b' with tileCache := b'.tileCache.subscribeToTileRendering tile id now },
          tiles ++ [tile], need ++ [tile])) := by
  split
  · exact ⟨by rw [hb.cache], fun _ _ h => by rw [hb.cache]; exact h, hb.toKit, hb.sessions,
      ⟨[tile], rfl, by simp [hkey]⟩, [], by simp, by simp, by simp⟩
  · refine hb.prepared_asked id now t tile hkey tiles need ?_
    intro hnone
    rw [hb.cache, TileCache.lookupTile, hkey] at hlookup
    rw [TileCache.lookupTile, hlookup] at hnone
    cases hnone

end Forgot

theorem prepared_prepareTile (forceKeyframe : Bool) (tiles need : List TileDesc) (t : TileDesc) :
    b.Prepared id [t] tiles need (prepareTile id now forceKeyframe b tiles need t) := by
  have hbumped : b.Forgot { b with tileVersion := b.tileVersion + 1 } :=
    ⟨rfl, rfl, fun _ => ⟨rfl, rfl⟩⟩
  have hforgot : b.Forgot (({ b with tileVersion := b.tileVersion + 1 } : Broker).updateSession id
      (·.resetTileSeq { t with ver := b.tileVersion + 1 })) :=
    ⟨rfl, rfl, sessions_resetTileSeq { b with tileVersion := b.tileVersion + 1 } id _⟩
  unfold prepareTile
  dsimp only
  by_cases hforce :
      (forceKeyframe && ({ t with ver := b.tileVersion + 1 } : TileDesc).wantsKeyframe) = true
  · rw [if_pos hforce, if_pos hforce]
    split
    · next cached hlookup =>
      exact hforgot.prepared_cached id now t { t with ver := b.tileVersion + 1, oldWireId := 1 } rfl
        tiles need hlookup
    · next hlookup =>
      exact hforgot.prepared_asked id now t { t with ver := b.tileVersion + 1, oldWireId := 0 } rfl
        tiles need fun _ => rfl
  · rw [if_neg hforce, if_neg hforce]
    split
    · next cached hlookup =>
      exact hbumped.prepared_cached id now t { t with ver := b.tileVersion + 1 } rfl
        tiles need hlookup
    · next hlookup =>
      exact hbumped.prepared_asked id now t { t with ver := b.tileVersion + 1, oldWireId := 0 } rfl
        tiles need fun _ => rfl

theorem Prepared.trans {asked asked' tiles need : List TileDesc}
    {r r' : Broker × List TileDesc × List TileDesc} (h : b.Prepared id asked tiles need r)
    (h' : r.1.Prepared id asked' r.2.1 r.2.2 r') : b.Prepared id (asked ++ asked') tiles need r' := by
  obtain ⟨more, htiles, hkeys⟩ := h.tiles
  obtain ⟨more', htiles', hkeys'⟩ := h'.tiles
  obtain ⟨asks, hneed, hsub, hall⟩ := h.need
  obtain ⟨asks', hneed', hsub', hall'⟩ := h'.need
  refine ⟨h'.cache.trans h.cache, fun key j hw => h'.waits key j (h.waits key j hw),
    h'.toKit.trans h.toKit, fun j => ⟨(h'.sessions j).1.trans (h.sessions j).1,
      (h'.sessions j).2.trans (h.sessions j).2⟩, ⟨more ++ more', ?_, ?_⟩, asks ++ asks', ?_, ?_, ?_⟩
  · rw [htiles', htiles, List.append_assoc]
  · rw [List.map_append, hkeys, hkeys', List.map_append]
  · rw [hneed', hneed, List.append_assoc]
  · rw [List.map_append, List.map_append]
    exact hsub.append hsub'
  · intro u hu
    rcases List.mem_append.mp hu with hu | hu
    · exact ⟨(hall u hu).1, h'.waits _ _ (hall u hu).2⟩
    · refine ⟨fun hnone => (hall' u hu).1 ?_, (hall' u hu).2⟩
      rw [TileCache.lookupTile, h.cache]
      exact hnone

theorem prepared_prepareTiles (forceKeyframe : Bool) (asked tiles need : List TileDesc) :
    b.Prepared id asked tiles need (prepareTiles id now forceKeyframe asked b tiles need) := by
  induction asked generalizing b tiles need with
  | nil =>
    exact ⟨rfl, fun _ _ h => h, rfl, fun _ => ⟨rfl, rfl⟩, ⟨[], by simp [prepareTiles]⟩, [],
      by simp [prepareTiles], by simp, by simp⟩
  | cons t asked ih => exact (prepared_prepareTile b id now forceKeyframe tiles need t).trans b id (ih _ _ _)

/-! ## Every run -/

/-- No tile is queued twice and the queue of a session is for one view; the kit was sent batches. -/
structure BatchInv (b : Broker) : Prop where
  distinct : ∀ id, ((b.sessions id).requestedTiles.map TileDesc.cacheKey).Nodup
  view : ∀ id, ∃ v, OfView v (b.sessions id).requestedTiles
  batches : ∀ group ∈ b.toKit, IsBatch group

variable {b}

theorem BatchInv.law (h : b.BatchInv) : Batches LeavesOnce b :=
  ⟨h.distinct, fun id now budget => leavesOnce_of_nodup b id now budget (h.distinct id), h.batches⟩

theorem BatchInv.congr {b' : Broker} (h : b.BatchInv)
    (hsessions : ∀ j, (b'.sessions j).requestedTiles = (b.sessions j).requestedTiles)
    (htoKit : b'.toKit = b.toKit) : b'.BatchInv where
  distinct j := by
    rw [hsessions]
    exact h.distinct j
  view j := by
    rw [hsessions]
    exact h.view j
  batches := by
    rw [htoKit]
    exact h.batches

/-- What a session is sent, and what it forgets of that, is not about its queue. -/
theorem requestedTiles_updateSession {f : ClientSession → ClientSession}
    (hf : ∀ s, (f s).requestedTiles = s.requestedTiles) (j : Nat) :
    ((b.updateSession id f).sessions j).requestedTiles = (b.sessions j).requestedTiles := by
  by_cases hj : j = id
  · simp only [updateSession, hj, Function.update_self, hf]
  · simp only [updateSession, Function.update_of_ne hj]

theorem BatchInv.updateSession (h : b.BatchInv) {f : ClientSession → ClientSession}
    (hf : ∀ s, (f s).requestedTiles = s.requestedTiles) : (b.updateSession id f).BatchInv :=
  h.congr (requestedTiles_updateSession id hf) rfl

theorem BatchInv.sendRequestedTiles (h : b.BatchInv) : (b.sendRequestedTiles id now budget).BatchInv := by
  obtain ⟨hdealt, hrest⟩ := sendRequestedLoop_spec b id now budget [] (h.distinct id)
  obtain ⟨asks, hasks, hkeys, -⟩ := exists_asks b id now budget (h.distinct id)
  have hqueue : ∀ j, ∃ n, ((b.sendRequestedTiles id now budget).sessions j).requestedTiles =
      (b.sessions j).requestedTiles.drop n := by
    intro j
    by_cases hj : j = id
    · rw [hj]
      exact ⟨budget, hrest⟩
    · refine ⟨0, ?_⟩
      change ((sendRequestedLoop id now budget b []).1.sessions j).requestedTiles = _
      rw [hdealt.sessions j hj, List.drop_zero]
  constructor
  · intro j
    obtain ⟨n, hn⟩ := hqueue j
    rw [hn]
    exact (h.distinct j).sublist ((List.drop_sublist _ _).map _)
  · intro j
    obtain ⟨n, hn⟩ := hqueue j
    obtain ⟨v, hv⟩ := h.view j
    rw [hn]
    exact ⟨v, fun t ht => hv t (List.mem_of_mem_drop ht)⟩
  · intro group hgroup
    rw [hasks] at hgroup
    rcases List.mem_append.mp hgroup with hgroup | hgroup
    · exact h.batches group hgroup
    · refine isBatch_groupsNeedsRendering ?_ group hgroup
      rw [hkeys]
      exact (h.distinct id).sublist ((List.filter_sublist.trans (List.take_sublist _ _)).map _)

/-- Tiles of one request have their parameters from it. -/
theorem nodup_of_hasDuplicates {c : TileCombined} (h : c.hasDuplicates = false) :
    (c.tiles.map TileDesc.cacheKey).Nodup := by
  rw [TileCombined.hasDuplicates, Bool.not_eq_false', decide_eq_true_eq] at h
  refine (List.nodup_map_iff_inj_on h.of_map).mpr fun t ht u hu hkey => ?_
  rw [TileDesc.cacheKey_eq_iff] at hkey
  exact List.inj_on_of_nodup_map h ht hu (Prod.ext hkey.2.1 hkey.2.2)

theorem BatchInv.acceptRequest (h : b.BatchInv) {c : TileCombined} {forceKeyframe : Bool}
    (hduplicates : c.hasDuplicates = false)
    (hview : ∀ t ∈ c.tiles, t.normalizedViewId = (b.sessions id).canonicalViewId) :
    (b.acceptRequest id c forceKeyframe now).BatchInv := by
  have hprepared := prepared_prepareTiles b id now forceKeyframe c.tiles [] []
  unfold Broker.acceptRequest
  generalize prepareTiles id now forceKeyframe c.tiles b [] [] = r at *
  obtain ⟨b', tiles, need⟩ := r
  obtain ⟨hcache, hwaits, htoKit, hsessions, ⟨more, htiles, hkeys⟩, asks, hneed, hsub, -⟩ := hprepared
  dsimp only at *
  rw [List.nil_append] at htiles hneed
  subst htiles hneed
  have hnodup := nodup_of_hasDuplicates hduplicates
  -- the tiles that are asked for ahead
  have hbatch : need ≠ [] → IsBatch need := by
    intro hne
    refine ⟨hne, hnodup.sublist hsub, fun t ht u hu => ?_⟩
    have hparams : ∀ v ∈ need, v.combineParams = c.params := by
      intro v hv
      obtain ⟨w, hw, hkey⟩ := List.mem_map.mp (hsub.subset (List.mem_map_of_mem hv))
      rw [← c.shared w hw, ((TileDesc.cacheKey_eq_iff w v).mp hkey).1]
    rw [hparams t ht, hparams u (List.mem_of_mem_head? hu)]
  have hahead : (if need = [] then b' else { b' with toKit := b'.toKit ++ [need] }).BatchInv := by
    have hb' : b'.BatchInv := h.congr (fun j => (hsessions j).1) htoKit
    split
    · exact hb'
    · rename_i hne
      refine ⟨hb'.distinct, hb'.view, fun group hgroup => ?_⟩
      rcases List.mem_append.mp hgroup with hgroup | hgroup
      · exact hb'.batches group hgroup
      · rw [List.mem_singleton.mp hgroup]
        exact hbatch hne
  have hsame : (if need = [] then b' else { b' with toKit := b'.toKit ++ [need] }).sessions id =
      b'.sessions id := by
    split <;> rfl
  generalize (if need = [] then b' else { b' with toKit := b'.toKit ++ [need] }) = b'' at *
  obtain ⟨v, hv⟩ := hahead.view id
  have hcanonical : OfView (b''.sessions id).canonicalViewId tiles := by
    intro t ht
    have hmem : t.cacheKey ∈ c.tiles.map TileDesc.cacheKey := by
      rw [← hkeys]
      exact List.mem_map_of_mem ht
    obtain ⟨u, hu, hkey⟩ := List.mem_map.mp hmem
    have hsameView : u.normalizedViewId = t.normalizedViewId :=
      congrArg CacheKey.normalizedViewId hkey
    rw [hsame, (hsessions id).2, ← hview u hu, hsameView]
  obtain ⟨hdistinct, hofView⟩ := accumulate_spec (hahead.distinct id) hv (hkeys ▸ hnodup) hcanonical
  constructor
  · intro j
    by_cases hj : j = id
    · simp only [Broker.updateSession, hj, Function.update_self]
      exact hdistinct
    · simp only [Broker.updateSession, Function.update_of_ne hj]
      exact hahead.distinct j
  · intro j
    by_cases hj : j = id
    · simp only [Broker.updateSession, hj, Function.update_self]
      exact ⟨_, hofView⟩
    · simp only [Broker.updateSession, Function.update_of_ne hj]
      exact hahead.view j
  · exact hahead.batches

theorem requestedTiles_resetTileSeq (t : TileDesc) (s : ClientSession) :
    (s.resetTileSeq t).requestedTiles = s.requestedTiles := by
  unfold ClientSession.resetTileSeq
  split <;> rfl

theorem BatchInv.handleTileRequest (h : b.BatchInv) (t : TileDesc) (forceKeyframe : Bool) :
    (b.handleTileRequest id t forceKeyframe now).BatchInv := by
  -- one tile is a batch
  have hask : ∀ (b' : Broker) (tile : TileDesc) (c : TileCache), b'.BatchInv →
      ({ b' with tileCache := c, toKit := b'.toKit ++ [[tile]] } : Broker).BatchInv := by
    intro b' tile c hb'
    refine ⟨hb'.distinct, hb'.view, fun group hgroup => ?_⟩
    rcases List.mem_append.mp hgroup with hgroup | hgroup
    · exact hb'.batches group hgroup
    · rw [List.mem_singleton.mp hgroup]
      refine ⟨by simp, by simp, fun u hu v hv => ?_⟩
      rw [List.mem_singleton.mp hu, ← Option.some.inj hv]
  have hversion : ({ b with tileVersion := b.tileVersion + 1 } : Broker).BatchInv :=
    h.congr (fun _ => rfl) rfl
  unfold Broker.handleTileRequest
  dsimp only
  generalize ({ t with normalizedViewId := (b.sessions id).canonicalViewId, ver := b.tileVersion + 1 } :
    TileDesc) = tile
  have hreset : (if forceKeyframe then
      ({ b with tileVersion := b.tileVersion + 1 } : Broker).updateSession id (·.resetTileSeq tile)
      else { b with tileVersion := b.tileVersion + 1 }).BatchInv := by
    split
    · exact hversion.updateSession id (requestedTiles_resetTileSeq tile)
    · exact hversion
  generalize (if forceKeyframe then
    ({ b with tileVersion := b.tileVersion + 1 } : Broker).updateSession id (·.resetTileSeq tile)
    else { b with tileVersion := b.tileVersion + 1 }) = b' at *
  split
  · split
    · exact hreset.updateSession id fun _ => rfl
    · exact hask b' tile _ hreset
  · exact hask b' tile _ hreset

theorem BatchInv.saveTileAndNotify (h : b.BatchInv) (desc : TileDesc) (data : List UInt8) :
    (b.saveTileAndNotify desc data).BatchInv := by
  have hfold : ∀ (tile : TileData) (ids : List Nat) (b' : Broker), b'.BatchInv →
      (ids.foldl (notify desc tile) b').BatchInv := by
    intro tile ids
    induction ids with
    | nil => exact fun b' hb' => hb'
    | cons j ids ih =>
      intro b' hb'
      refine ih _ ?_
      unfold notify
      split
      · exact hb'
      · exact hb'.updateSession j fun _ => rfl
  rw [saveTileAndNotify_eq]
  dsimp only
  have hsaved : ({ b with tileCache := (b.tileCache.saveDataToCache desc data).1 } : Broker).BatchInv :=
    h.congr (fun _ => rfl) rfl
  split
  · exact hsaved
  · split
    · exact hsaved.congr (fun _ => rfl) rfl
    · exact (hfold _ _ _ hsaved).congr (fun _ => rfl) rfl

/-- **One step**, when requests are handed over as the callers do. -/
theorem BatchInv.act (h : b.BatchInv) {a : Action} (ha : b.Handed a) : (Tiles.act b a).BatchInv := by
  cases a with
  | response desc data => exact h.saveTileAndNotify desc data
  | combined id c forceKeyframe now budget =>
    exact (h.acceptRequest id now ha.1 ha.2).sendRequestedTiles id now budget
  | more id now budget => exact h.sendRequestedTiles id now budget
  | single id tile now => exact h.handleTileRequest id now tile true
  | invalidate => exact h.congr (fun _ => rfl) rfl
  | evict => exact h.congr (fun _ => rfl) rfl
  | setView id canonicalViewId =>
    exact h.updateSession (f := fun s => { s with canonicalViewId := canonicalViewId }) id fun _ => rfl
  | close id => exact h.updateSession (f := fun s => { s with closed := true }) id fun _ => rfl

theorem batchInv_init : init.BatchInv :=
  ⟨fun _ => List.nodup_nil, fun _ => ⟨0, by simp [OfView, init, ClientSession.new]⟩, by simp [init]⟩

/-- A request for the first tile of the document. -/
def firstTile : TileCombined :=
  { params := (Subscribed.sampleTile 0).combineParams
    tiles := [Subscribed.sampleTile 0]
    isCompiled := true
    shared := by simp }

/-- The tile comes from the kit while it waits in the queue of the first session, and is invalidated;
then the second session asks for it. -/
def askedByAnother : List Action :=
  [.combined 1 firstTile true 0 0, .response { Subscribed.sampleTile 1 with wireId := 7 } [0x5a, 1],
    .invalidate 0 0 0 0 100 100 0, .combined 2 firstTile true 10 1]

theorem handed_askedByAnother : Run.Meets Tiles.act Handed init askedByAnother :=
  ⟨⟨by decide, by decide⟩, trivial, trivial, ⟨by decide, by decide⟩, trivial⟩

end Broker

end Oxool.Wsd.Tiles
