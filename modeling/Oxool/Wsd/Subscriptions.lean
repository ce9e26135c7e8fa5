import Oxool.Lib.Run
import Oxool.Wsd.TileServing

/-!
# Who waits for a tile, and for which version

A session that wants a tile subscribes to its rendering with the version of its request. The cache
keeps one version for all who wait for a tile, "to ensure that if we have two in-progress renders
sent to the kit, racing each other, that the completion of the first does not remove the subscribers
waiting for the second". It is set by the first subscription and by a second one of the same
session; a session that joins the others leaves it alone, so that a session that joins with a newer
version is dropped by the rendering the others wait for.

`waiting` records each subscription until a response for its tile, with its version or a later one,
was handed to its session. The code never reads the record.
-/

set_option autoImplicit false

namespace Oxool.Wsd.Tiles

/-- A subscription whose answer has not been sent. -/
structure Subscription where
  id : Nat
  key : CacheKey
  ver : Int
deriving DecidableEq

/-- The broker's tiles, with the record. -/
structure Subscribed where
  broker : Broker
  waiting : List Subscription

namespace Subscribed

def init : Subscribed := ⟨.init, []⟩

/-- What `after` has sent to a session and `before` had not. -/
def sentSince (before after : Broker) (id : Nat) : List Sent :=
  (after.sessions id).sent.drop (before.sessions id).sent.length

/-- The subscription is answered by something in the list. -/
def answered (sent : List Sent) (w : Subscription) : Bool :=
  sent.any fun m => m.desc.cacheKey == w.key && decide (w.ver ≤ m.desc.ver)

inductive Event
  /-- `subscribeToTileRendering`. -/
  | subscribe (tile : TileDesc) (subscriber now : Nat)
  /-- `saveTileAndNotify`, for a tile from the kit. -/
  | response (desc : TileDesc) (data : List UInt8)
  | invalidate (part mode x y width height : Int) (normalizedViewId : Nat)
  | evict (victims : List CacheKey)
  /-- The session is gone. -/
  | close (id : Nat)

def act (s : Subscribed) : Event → Subscribed
  | .subscribe tile subscriber now =>
    { broker := { s.broker with
        tileCache := s.broker.tileCache.subscribeToTileRendering tile subscriber now }
      waiting := s.waiting ++ [⟨subscriber, tile.cacheKey, tile.ver⟩] }
  | .response desc data =>
    let broker := s.broker.saveTileAndNotify desc data
    { broker := broker
      waiting := s.waiting.filter fun w => !answered (sentSince s.broker broker w.id) w }
  | .invalidate part mode x y width height normalizedViewId =>
    { s with broker := (Tiles.act s.broker (.invalidate part mode x y width height normalizedViewId)) }
  | .evict victims => { s with broker := (Tiles.act s.broker (.evict victims)) }
  | .close id => { s with broker := (Tiles.act s.broker (.close id)) }

/-- The session is among those the tile will be sent to. -/
def isSubscribed (s : Subscribed) (w : Subscription) : Bool :=
  match s.broker.tileCache.tilesBeingRendered.lookup w.key with
  | none => false
  | some r => decide (w.id ∈ r.subscribers)

/-- Every session that is still there and waits for an answer is subscribed. -/
def VersionLaw (s : Subscribed) : Prop :=
  ∀ w ∈ s.waiting, (s.broker.sessions w.id).closed = false → s.isSubscribed w = true

instance (s : Subscribed) : Decidable s.VersionLaw :=
  inferInstanceAs (Decidable (∀ w ∈ s.waiting, _ → _))

/-- The step leaves the version right: a session that joins others asks for no newer version than
they do, one that asks again asks for no older one, and a rendering that ends the waiting is not a
delta for a tile that has left the cache. -/
def Harmless (s : Subscribed) : Event → Prop
  | .subscribe tile subscriber _ =>
    ∀ r ∈ s.broker.tileCache.tilesBeingRendered.lookup tile.cacheKey,
      if subscriber ∈ r.subscribers then r.version ≤ tile.ver else tile.ver ≤ r.version
  | .response desc data =>
    ∀ r ∈ s.broker.tileCache.tilesBeingRendered.lookup desc.cacheKey, r.version ≤ desc.ver →
      (s.broker.tileCache.lookupTile desc).isSome ∨ Delta.isKeyframe data = true
  | _ => True

instance (s : Subscribed) : (e : Event) → Decidable (s.Harmless e)
  | .subscribe tile _ _ =>
    inferInstanceAs (Decidable (∀ r ∈ s.broker.tileCache.tilesBeingRendered.lookup tile.cacheKey, _))
  | .response desc _ =>
    inferInstanceAs (Decidable (∀ r ∈ s.broker.tileCache.tilesBeingRendered.lookup desc.cacheKey, _))
  | .invalidate .. => .isTrue trivial
  | .evict _ => .isTrue trivial
  | .close _ => .isTrue trivial

/-! ## The invariant -/

/-- An open subscription is in the entry of its tile, which awaits its version or a later one. -/
def Held (s : Subscribed) (w : Subscription) : Prop :=
  ∃ r, s.broker.tileCache.tilesBeingRendered.lookup w.key = some r ∧ w.id ∈ r.subscribers ∧
    w.ver ≤ r.version

def Inv (s : Subscribed) : Prop :=
  ∀ w ∈ s.waiting, (s.broker.sessions w.id).closed = false → s.Held w

theorem Inv.versionLaw {s : Subscribed} (h : s.Inv) : s.VersionLaw := by
  intro w hw hopen
  obtain ⟨r, hr, hid, -⟩ := h w hw hopen
  rw [isSubscribed, hr]
  simpa using hid

end Subscribed

/-! ## What a response does -/

namespace TileCache

/-- Saving a tile leaves the subscriptions alone. -/
theorem tilesBeingRendered_saveDataToCache (c : TileCache) (desc : TileDesc) (data : List UInt8) :
    (c.saveDataToCache desc data).1.tilesBeingRendered = c.tilesBeingRendered := by
  rw [saveDataToCache]
  split
  · split <;> rfl
  · rfl

/-- A tile is not saved only if it is a delta without its base. -/
theorem isSome_saveDataToCache {c : TileCache} {desc : TileDesc} {data : List UInt8}
    (h : (c.lookupTile desc).isSome ∨ Delta.isKeyframe data = true) :
    ∃ tile, (c.saveDataToCache desc data).2 = some tile := by
  rw [saveDataToCache]
  split
  · rename_i hnone
    rcases h with h | h
    · simp [hnone] at h
    · rw [if_pos h]
      exact ⟨_, rfl⟩
  · exact ⟨_, rfl⟩

/-- **What a lookup finds after a response was dealt with.** -/
theorem lookup_forgetTileBeingRendered (c : TileCache) (desc : TileDesc) (k : CacheKey) :
    (c.forgetTileBeingRendered desc).tilesBeingRendered.lookup k =
      (c.tilesBeingRendered.lookup k).filter fun r =>
        !(decide (k = desc.cacheKey) && decide (r.version ≤ desc.ver)) := by
  rw [forgetTileBeingRendered]
  by_cases hk : k = desc.cacheKey
  · subst hk
    cases hr : c.tilesBeingRendered.lookup desc.cacheKey with
    | none => simp [hr]
    | some r =>
      by_cases hver : r.version ≤ desc.ver
      · have := Assoc.lookup_filter (fun e => decide (e ≠ desc.cacheKey)) desc.cacheKey
          c.tilesBeingRendered
        simp only [hver, if_true]
        rw [this]
        simp [hver, Option.filter]
      · simp [hver, hr, Option.filter]
  · have hsame : (c.tilesBeingRendered.lookup k).filter (fun r =>
        !(decide (k = desc.cacheKey) && decide (r.version ≤ desc.ver))) =
        c.tilesBeingRendered.lookup k := by
      cases c.tilesBeingRendered.lookup k <;> simp [Option.filter, hk]
    rw [hsame]
    split
    · rfl
    · split
      · have := Assoc.lookup_filter (fun e => decide (e ≠ desc.cacheKey)) k c.tilesBeingRendered
        rw [this]
        simp [hk]
      · rfl

end TileCache

namespace Broker

/-- One round of the loop over the subscribers. -/
def notify (desc : TileDesc) (tile : TileData) (b : Broker) (id : Nat) : Broker :=
  if (b.sessions id).closed then b else b.updateSession id (·.sendTileNow desc tile)

theorem saveTileAndNotify_eq (b : Broker) (desc : TileDesc) (data : List UInt8) :
    b.saveTileAndNotify desc data =
      let saved := b.tileCache.saveDataToCache desc data
      let b' := { b with tileCache := saved.1 }
      match b.tileCache.tilesBeingRendered.lookup desc.cacheKey with
      | none => b'
      | some r =>
        let b' := match saved.2 with
          | none => b'
          | some tile => r.subscribers.foldl (notify desc tile) b'
        { b' with tileCache := b'.tileCache.forgetTileBeingRendered desc } := rfl

/-- A session is sent something in addition to what it was sent, or it stays as it was. -/
theorem notify_session (desc : TileDesc) (tile : TileData) (b : Broker) (id j : Nat) :
    ((notify desc tile b id).sessions j).closed = (b.sessions j).closed ∧
      ∃ more, ((notify desc tile b id).sessions j).sent = (b.sessions j).sent ++ more ∧
        (j = id → (b.sessions j).closed = false → ∃ m ∈ more, m.desc = desc) := by
  rw [notify]
  split
  · rename_i hclosed
    refine ⟨rfl, [], by simp, ?_⟩
    rintro rfl hopen
    simp [hopen] at hclosed
  · by_cases hj : j = id
    · subst hj
      simp only [updateSession, Function.update_self]
      refine ⟨rfl, _, rfl, ?_⟩
      intro _ _
      exact ⟨_, List.mem_singleton.mpr rfl, rfl⟩
    · have hsame : (b.updateSession id (·.sendTileNow desc tile)).sessions j = b.sessions j :=
        Function.update_of_ne hj _ _
      rw [hsame]
      exact ⟨rfl, [], by simp, fun h => absurd h hj⟩

theorem notify_tileCache (desc : TileDesc) (tile : TileData) (b : Broker) (id : Nat) :
    (notify desc tile b id).tileCache = b.tileCache := by
  rw [notify]
  split <;> rfl

theorem foldl_notify_tileCache (desc : TileDesc) (tile : TileData) (ids : List Nat) (b : Broker) :
    (ids.foldl (notify desc tile) b).tileCache = b.tileCache := by
  induction ids generalizing b with
  | nil => rfl
  | cons id ids ih => rw [List.foldl_cons, ih, notify_tileCache]

/-- **Every session in the list that is still there is sent the tile.** -/
theorem foldl_notify_session (desc : TileDesc) (tile : TileData) (ids : List Nat) (b : Broker)
    (j : Nat) :
    ((ids.foldl (notify desc tile) b).sessions j).closed = (b.sessions j).closed ∧
      ∃ more, ((ids.foldl (notify desc tile) b).sessions j).sent = (b.sessions j).sent ++ more ∧
        (j ∈ ids → (b.sessions j).closed = false → ∃ m ∈ more, m.desc = desc) := by
  induction ids generalizing b with
  | nil => exact ⟨rfl, [], by simp, by simp⟩
  | cons id ids ih =>
    obtain ⟨hclosed, first, hfirst, hid⟩ := notify_session desc tile b id j
    obtain ⟨hclosed', rest, hrest, hids⟩ := ih (notify desc tile b id)
    refine ⟨hclosed'.trans hclosed, first ++ rest, ?_, ?_⟩
    · rw [List.foldl_cons, hrest, hfirst, List.append_assoc]
    · intro hj hopen
      rcases List.mem_cons.mp hj with rfl | hj
      · obtain ⟨m, hm, hdesc⟩ := hid rfl hopen
        exact ⟨m, List.mem_append_left _ hm, hdesc⟩
      · obtain ⟨m, hm, hdesc⟩ := hids hj (hclosed.trans hopen)
        exact ⟨m, List.mem_append_right _ hm, hdesc⟩

theorem saveTileAndNotify_closed (b : Broker) (desc : TileDesc) (data : List UInt8) (j : Nat) :
    ((b.saveTileAndNotify desc data).sessions j).closed = (b.sessions j).closed := by
  rw [saveTileAndNotify_eq]
  dsimp only
  split
  · rfl
  · split
    · rfl
    · exact (foldl_notify_session desc _ _ _ j).1

/-- **What a lookup of the subscriptions finds after a response.** -/
theorem lookup_saveTileAndNotify (b : Broker) (desc : TileDesc) (data : List UInt8) (k : CacheKey) :
    (b.saveTileAndNotify desc data).tileCache.tilesBeingRendered.lookup k =
      (b.tileCache.tilesBeingRendered.lookup k).filter fun r =>
        !(decide (k = desc.cacheKey) && decide (r.version ≤ desc.ver)) := by
  rw [saveTileAndNotify_eq]
  dsimp only
  have hsaved := b.tileCache.tilesBeingRendered_saveDataToCache desc data
  split
  · rename_i hnone
    rw [hsaved]
    by_cases hk : k = desc.cacheKey
    · rw [hk, hnone]
      rfl
    · cases b.tileCache.tilesBeingRendered.lookup k <;> simp [Option.filter, hk]
  · rw [TileCache.lookup_forgetTileBeingRendered]
    split
    · rw [hsaved]
    · rw [foldl_notify_tileCache, hsaved]

/-- A response that is saved is sent to every subscriber that is still there. -/
theorem saveTileAndNotify_sent {b : Broker} {desc : TileDesc} {data : List UInt8}
    {r : TileBeingRendered} (hr : b.tileCache.tilesBeingRendered.lookup desc.cacheKey = some r)
    (hsaved : (b.tileCache.lookupTile desc).isSome ∨ Delta.isKeyframe data = true) {j : Nat}
    (hj : j ∈ r.subscribers) (hopen : (b.sessions j).closed = false) :
    ∃ more, ((b.saveTileAndNotify desc data).sessions j).sent = (b.sessions j).sent ++ more ∧
      ∃ m ∈ more, m.desc = desc := by
  obtain ⟨tile, htile⟩ := TileCache.isSome_saveDataToCache hsaved
  rw [saveTileAndNotify_eq]
  dsimp only
  rw [hr, htile]
  obtain ⟨-, more, hmore, hm⟩ := foldl_notify_session desc tile r.subscribers
    { b with tileCache := (b.tileCache.saveDataToCache desc data).1 } j
  exact ⟨more, hmore, hm hj hopen⟩

end Broker

/-! ## Every run -/

namespace Subscribed

variable {s : Subscribed}

/-- What a lookup of the subscriptions finds after one more. -/
theorem lookup_subscribe (c : TileCache) (tile : TileDesc) (subscriber now : Nat) (k : CacheKey) :
    (c.subscribeToTileRendering tile subscriber now).tilesBeingRendered.lookup k =
      if k = tile.cacheKey then
        match c.tilesBeingRendered.lookup tile.cacheKey with
        | none => some ⟨tile.ver, [subscriber], now⟩
        | some r =>
          if subscriber ∈ r.subscribers then some { r with version := tile.ver }
          else some { r with subscribers := r.subscribers ++ [subscriber] }
      else c.tilesBeingRendered.lookup k := by
  rw [TileCache.subscribeToTileRendering]
  dsimp only
  rw [Assoc.lookup_put]
  split
  · cases c.tilesBeingRendered.lookup tile.cacheKey with
    | none => rfl
    | some r =>
      dsimp only
      split <;> rfl
  · rfl

theorem Inv.subscribe (h : s.Inv) {tile : TileDesc} {subscriber now : Nat}
    (hok : s.Harmless (.subscribe tile subscriber now)) :
    (s.act (.subscribe tile subscriber now)).Inv := by
  intro w hw hopen
  rw [Held, act]
  dsimp only
  rw [lookup_subscribe]
  rcases List.mem_append.mp hw with hw | hw
  · -- an older subscription: its entry has not lost a subscriber and its version is no smaller
    obtain ⟨r, hr, hid, hver⟩ := h w hw hopen
    by_cases hk : w.key = tile.cacheKey
    · rw [hk] at hr
      have hver' := hok r hr
      rw [if_pos hk, hr]
      dsimp only
      split
      · rename_i hmem
        rw [if_pos hmem] at hver'
        exact ⟨_, rfl, hid, Int.le_trans hver hver'⟩
      · exact ⟨_, rfl, List.mem_append_left _ hid, hver⟩
    · rw [if_neg hk]
      exact ⟨r, hr, hid, hver⟩
  · obtain rfl := List.mem_singleton.mp hw
    rw [if_pos rfl]
    cases hr : s.broker.tileCache.tilesBeingRendered.lookup tile.cacheKey with
    | none => exact ⟨_, rfl, by simp, Int.le_refl _⟩
    | some r =>
      have hver := hok r hr
      dsimp only
      split
      · rename_i hmem
        exact ⟨_, rfl, hmem, Int.le_refl _⟩
      · rename_i hmem
        rw [if_neg hmem] at hver
        exact ⟨_, rfl, by simp, hver⟩

theorem Inv.response (h : s.Inv) {desc : TileDesc} {data : List UInt8}
    (hok : s.Harmless (.response desc data)) : (s.act (.response desc data)).Inv := by
  intro w hw hopen
  rw [act] at hw
  obtain ⟨hw, hnot⟩ := List.mem_filter.mp hw
  rw [act] at hopen
  dsimp only at hopen
  rw [Broker.saveTileAndNotify_closed] at hopen
  obtain ⟨r, hr, hid, hver⟩ := h w hw hopen
  refine ⟨r, ?_, hid, hver⟩
  rw [act]
  dsimp only
  rw [Broker.lookup_saveTileAndNotify, hr]
  by_cases hdrop : w.key = desc.cacheKey ∧ r.version ≤ desc.ver
  · -- the entry goes, but then the subscription was answered
    exfalso
    obtain ⟨hk, hle⟩ := hdrop
    rw [hk] at hr
    obtain ⟨more, hsent, m, hm, hdesc⟩ :=
      Broker.saveTileAndNotify_sent hr (hok r hr hle) hid hopen
    have hanswered : answered (sentSince s.broker (s.broker.saveTileAndNotify desc data) w.id) w := by
      rw [answered, sentSince, hsent, List.drop_left, List.any_eq_true]
      exact ⟨m, hm, by simp [hdesc, hk, Int.le_trans hver hle]⟩
    simp [hanswered] at hnot
  · simp only [Option.filter_some]
    rw [if_pos]
    simp only [Bool.not_eq_true', Bool.and_eq_false_iff, decide_eq_false_iff_not]
    exact Decidable.not_and_iff_or_not.mp hdrop

theorem Inv.act (h : s.Inv) {e : Event} (hok : s.Harmless e) : (s.act e).Inv := by
  cases e with
  | subscribe tile subscriber now => exact h.subscribe hok
  | response desc data => exact h.response hok
  | invalidate part mode x y width height normalizedViewId => exact h
  | evict victims => exact h
  | close id =>
    intro w hw hopen
    refine h w hw ?_
    by_cases hid : w.id = id
    · rw [Subscribed.act, Tiles.act, Broker.updateSession, hid] at hopen
      simp at hopen
    · simpa [Subscribed.act, Tiles.act, Broker.updateSession, Function.update_of_ne hid] using hopen

/-- **Version law.** In a run in which nobody joins a rendering with a newer version than it awaits,
nobody asks again with an older one, and no rendering that is awaited is lost for want of its base,
every session stays subscribed until a response of its version or a later one was sent to it. -/
theorem subscribed_until_answered (events : List Event)
    (h : Run.Meets act Harmless init events) : Run.Always act VersionLaw init events :=
  Run.always_of_meets (fun _ (hs : Inv _) => hs.versionLaw) (fun _ _ hs => hs.act)
    (fun _ hw => absurd hw List.not_mem_nil) h

/-- A tile as the browser asks for it. -/
def sampleTile (ver : Int) : TileDesc :=
  { normalizedViewId := 0
    part := 0
    mode := 0
    width := 256
    height := 256
    tilePosX := 0
    tilePosY := 0
    tileWidth := 3840
    tileHeight := 3840
    ver := ver
    imgSize := 0
    id := -1
    oldWireId := 0
    wireId := 0
    width_pos := TileDesc.usualPixels_pos
    height_pos := TileDesc.usualPixels_pos
    tileWidth_pos := TileDesc.usualTwips_pos
    tileHeight_pos := TileDesc.usualTwips_pos }

/-- Two renderings race: the first answer leaves the session that asked again subscribed. -/
def racing : List Event :=
  [.subscribe (sampleTile 1) 0 0, .subscribe (sampleTile 2) 0 10, .subscribe (sampleTile 2) 1 20,
    .response (sampleTile 1) [0x5a, 7], .response (sampleTile 2) [0x44]]

theorem subscribed_until_answered_racing :
    Run.Meets act Harmless init racing ∧ Run.Always act VersionLaw init racing :=
  ⟨by decide, subscribed_until_answered racing (by decide)⟩

/-- A session that joins with a newer version is dropped by the rendering the other one waits for. -/
theorem not_subscribed_until_answered :
    ¬ ∀ events : List Event, Run.Always act VersionLaw init events := by
  intro h
  have := h [.subscribe (sampleTile 1) 0 0, .subscribe (sampleTile 2) 1 10,
    .response (sampleTile 1) [0x5a, 7]]
  revert this
  decide

end Subscribed

end Oxool.Wsd.Tiles
