import Oxool.Wsd.DeltaTracking
import Oxool.Wsd.TileServing

/-!
# A rule for what sessions are sent

A session is sent a tile from the cache, and the cache is filled by the kit. So whatever is to be shown of
all that a session is sent can be shown of one message, and of one frame that arrives. What is to be shown
is open here: `own` says which views are a session's own, `kept` what an entry of the cache may be, and
`told` what a session may have been sent. `Serves` says it of a broker, and every action keeps it
(`Serves.act`, `Serves.response`) if one message does (`ServingLaw`).
-/

set_option autoImplicit false

namespace Oxool.Wsd.Tiles

open Oxool.Delta (isKeyframe)

/-- The message that `sendTileNow` makes for a client that was last sent a wire id. -/
def Sent.since (desc : TileDesc) (tile : TileData) (lastSentId : UInt32) : Sent :=
  { desc := desc
    keyframe := tile.needsKeyframe lastSentId || tile.isPng
    payload := tile.changesSince (if tile.isPng then 0 else lastSentId)
    held := tile.deltas }

theorem ClientSession.sendTileNow_sent (s : ClientSession) (desc : TileDesc) (tile : TileData) :
    (s.sendTileNow desc tile).sent =
      s.sent ++ [Sent.since desc tile ((s.tracker.lookup desc.cacheKey).getD 0)] := rfl

section Rule

variable (own : Nat → Nat → Prop) (kept : CacheKey → TileData → Prop) (told : Nat → List Sent → Prop)

/-- A session may be sent what is kept of a view of its own, and whether an entry is valid does not
matter. -/
structure ServingLaw : Prop where
  tells : ∀ {id : Nat} {sent : List Sent} {desc : TileDesc} {e : TileData} (lastSentId : UInt32),
    own id desc.normalizedViewId → kept desc.cacheKey e → told id sent →
      told id (sent ++ [Sent.since desc e lastSentId])
  valid : ∀ {key : CacheKey} {e : TileData} (valid : Bool), kept key e → kept key { e with valid := valid }

/-- A session has to do with its own views only. -/
structure ClientSession.Serves (id : Nat) (s : ClientSession) : Prop where
  current : own id s.canonicalViewId
  requested : ∀ t ∈ s.requestedTiles, own id t.normalizedViewId
  told : told id s.sent

structure Broker.Serves (b : Broker) : Prop where
  sessions : ∀ id, (b.sessions id).Serves own told id
  waiting : ∀ e ∈ b.tileCache.tilesBeingRendered, ∀ id ∈ e.2.subscribers, own id e.1.normalizedViewId
  kept : ∀ key e, entry b key = some e → kept key e

/-- The action brings no view of another. -/
def Domestic : Action → Prop
  | .combined id tileCombined _ _ _ => ∀ t ∈ tileCombined.tiles, own id t.normalizedViewId
  | .setView id canonicalViewId => own id canonicalViewId
  | .response .. => False
  | _ => True

end Rule

variable {own own' : Nat → Nat → Prop} {kept kept' : CacheKey → TileData → Prop}
  {told told' : Nat → List Sent → Prop} {b b' : Broker}

namespace Broker

theorem Serves.mono (hown : ∀ id v, own id v → own' id v) (hkept : ∀ key e, kept key e → kept' key e)
    (htold : ∀ id sent, told id sent → told' id sent) (h : b.Serves own kept told) :
    b.Serves own' kept' told' where
  sessions id :=
    { current := hown _ _ (h.sessions id).current
      requested := fun t ht => hown _ _ ((h.sessions id).requested t ht)
      told := htold _ _ (h.sessions id).told }
  waiting e he id hid := hown _ _ (h.waiting e he id hid)
  kept key e he := hkept _ _ (h.kept key e he)

/-- The versions and what the kit was sent do not matter. -/
theorem Serves.congr (h : b.Serves own kept told) (hcache : b'.tileCache = b.tileCache)
    (hsessions : b'.sessions = b.sessions) : b'.Serves own kept told where
  sessions := hsessions ▸ h.sessions
  waiting := hcache ▸ h.waiting
  kept := by
    rw [show entry b' = entry b from funext fun key => by rw [entry, hcache, ← entry]]
    exact h.kept

theorem Serves.updateSession (h : b.Serves own kept told) {id : Nat} {f : ClientSession → ClientSession}
    (hf : (b.sessions id).Serves own told id → (f (b.sessions id)).Serves own told id) :
    (b.updateSession id f).Serves own kept told where
  sessions id' := by
    rw [Broker.updateSession]
    by_cases hid : id' = id
    · subst hid
      simp only [Function.update_self]
      exact hf (h.sessions id')
    · simp only [Function.update_of_ne hid]
      exact h.sessions id'
  waiting := h.waiting
  kept := h.kept

theorem Serves.reset (h : b.Serves own kept told) (id : Nat) (t : TileDesc) :
    (b.updateSession id (·.resetTileSeq t)).Serves own kept told := by
  refine h.updateSession fun hs => ?_
  rw [ClientSession.resetTileSeq]
  split
  · exact hs
  · exact ⟨hs.current, hs.requested, hs.told⟩

/-- A session waits for a tile of its own view. -/
theorem Serves.subscribe (h : b.Serves own kept told) {id : Nat} {t : TileDesc}
    (hown : own id t.normalizedViewId) (now : Nat) :
    ({ b with tileCache := b.tileCache.subscribeToTileRendering t id now }).Serves own kept told where
  sessions := h.sessions
  waiting e he id' hid' := by
    rcases Assoc.mem_put he with rfl | he
    · dsimp only at hid'
      cases hlookup : b.tileCache.tilesBeingRendered.lookup t.cacheKey with
      | none =>
        rw [hlookup, List.mem_singleton] at hid'
        exact hid' ▸ hown
      | some r =>
        have hwaiting := h.waiting _ (Assoc.mem_of_lookup hlookup)
        rw [hlookup] at hid'
        dsimp only at hid'
        split at hid'
        · exact hwaiting id' hid'
        · rcases List.mem_append.mp hid' with hid' | hid'
          · exact hwaiting id' hid'
          · rw [List.mem_singleton.mp hid']
            exact hown
    · exact h.waiting e he id' hid'
  kept := h.kept

/-- Tiles may go, or become invalid. -/
theorem Serves.forget (law : ServingLaw own kept told) (h : b.Serves own kept told) {c : TileCache}
    (hwaiting : ∀ e ∈ c.tilesBeingRendered, e ∈ b.tileCache.tilesBeingRendered)
    (hcache : ∀ key e, c.cache.lookup key = some e →
      ∃ e' valid, entry b key = some e' ∧ e = { e' with valid := valid }) :
    ({ b with tileCache := c }).Serves own kept told where
  sessions := h.sessions
  waiting e he := h.waiting e (hwaiting e he)
  kept key e he := by
    obtain ⟨e', valid, he', rfl⟩ := hcache key e he
    exact law.valid valid (h.kept key e' he')

section Law

variable (law : ServingLaw own kept told)
include law

/-- A tile of an own view is sent. -/
theorem Serves.answer (h : b.Serves own kept told) {id : Nat} {t : TileDesc} {e : TileData}
    (hown : own id t.normalizedViewId) (he : b.tileCache.lookupTile t = some e) :
    (b.updateSession id (·.sendTileNow t e)).Serves own kept told := by
  refine h.updateSession fun hs => ⟨hs.current, hs.requested, ?_⟩
  rw [ClientSession.sendTileNow_sent]
  exact law.tells _ hown (h.kept _ e he) hs.told

/-! ### Requests -/

theorem Serves.sendRequestedTile (h : b.Serves own kept told) {id : Nat} (now : Nat)
    (need : List TileDesc) {t : TileDesc} (hown : own id t.normalizedViewId) :
    (Broker.sendRequestedTile id now b need t).1.Serves own kept told := by
  have hrender : ∀ asked : TileDesc, own id asked.normalizedViewId →
      (Broker.sendRequestedTile.render id now b need t asked).1.Serves own kept told := by
    intro asked hasked
    rw [Broker.sendRequestedTile.render]
    split
    · exact (h.subscribe (t := { asked with ver := b.tileVersion + 1 }) hasked now).congr rfl rfl
    · exact h.subscribe hown now
  rw [Broker.sendRequestedTile]
  split
  · rename_i e he
    split
    · dsimp only
      -- the wire id that the request takes is no part of its key
      split
      · exact h.answer law hown he
      · exact h.answer law hown he
    · exact hrender t hown
  · exact hrender _ hown

theorem Serves.sendRequestedLoop (id now budget : Nat) (need : List TileDesc)
    (h : b.Serves own kept told) :
    (Broker.sendRequestedLoop id now budget b need).1.Serves own kept told := by
  induction budget generalizing b need with
  | zero => exact h
  | succ budget ih =>
    rw [Broker.sendRequestedLoop]
    cases hreq : (b.sessions id).requestedTiles with
    | nil => exact h
    | cons t rest =>
      have hall := (h.sessions id).requested
      rw [hreq] at hall
      refine ih _ (Serves.updateSession (h.sendRequestedTile law now need (hall t List.mem_cons_self))
        fun hs => ⟨hs.current, ?_, hs.told⟩)
      exact fun u hu => hall u (List.mem_cons_of_mem t hu)

theorem Serves.sendRequestedTiles (h : b.Serves own kept told) (id now budget : Nat) :
    (b.sendRequestedTiles id now budget).Serves own kept told :=
  (h.sendRequestedLoop law id now budget []).congr rfl rfl

omit law in
theorem Serves.prepareTile (h : b.Serves own kept told) {id : Nat} (now : Nat) (force : Bool)
    {tiles : List TileDesc} (need : List TileDesc) {t : TileDesc} (hown : own id t.normalizedViewId)
    (htiles : ∀ u ∈ tiles, own id u.normalizedViewId) :
    (Broker.prepareTile id now force b tiles need t).1.Serves own kept told ∧
      ∀ u ∈ (Broker.prepareTile id now force b tiles need t).2.1, own id u.normalizedViewId := by
  have hversion : ({ b with tileVersion := b.tileVersion + 1 } : Broker).Serves own kept told :=
    h.congr rfl rfl
  have happend : ∀ u : TileDesc, own id u.normalizedViewId →
      ∀ v ∈ tiles ++ [u], own id v.normalizedViewId := by
    intro u hu v hv
    rcases List.mem_append.mp hv with hv | hv
    · exact htiles v hv
    · rw [List.mem_singleton.mp hv]
      exact hu
  simp only [Broker.prepareTile]
  generalize hforce : (force && TileDesc.wantsKeyframe { t with ver := b.tileVersion + 1 }) = forced
  cases forced with
  | true =>
    have hreset := hversion.reset id { t with ver := b.tileVersion + 1 }
    simp only [if_true]
    split
    · split
      · exact ⟨hreset, happend _ hown⟩
      · exact ⟨hreset.subscribe (by exact hown) now, happend _ hown⟩
    · exact ⟨hreset.subscribe (by exact hown) now, happend _ hown⟩
  | false =>
    simp only [Bool.false_eq_true, if_false]
    split
    · split
      · exact ⟨hversion, happend _ hown⟩
      · exact ⟨hversion.subscribe (by exact hown) now, happend _ hown⟩
    · exact ⟨hversion.subscribe (by exact hown) now, happend _ hown⟩

omit law in
theorem Serves.prepareTiles {id : Nat} (now : Nat) (force : Bool) {rest : List TileDesc}
    (need tiles : List TileDesc) (h : b.Serves own kept told)
    (hrest : ∀ u ∈ rest, own id u.normalizedViewId) (htiles : ∀ u ∈ tiles, own id u.normalizedViewId) :
    (Broker.prepareTiles id now force rest b tiles need).1.Serves own kept told ∧
      ∀ u ∈ (Broker.prepareTiles id now force rest b tiles need).2.1, own id u.normalizedViewId := by
  induction rest generalizing b tiles need with
  | nil => exact ⟨h, htiles⟩
  | cons t rest ih =>
    rw [Broker.prepareTiles]
    obtain ⟨hb, htiles'⟩ := h.prepareTile now force need (hrest t List.mem_cons_self) htiles
    exact ih _ _ hb (fun u hu => hrest u (List.mem_cons_of_mem t hu)) htiles'

omit law in
theorem own_mergeRequest {id : Nat} {newTile : TileDesc} {queue : List TileDesc}
    (hnew : own id newTile.normalizedViewId) (hqueue : ∀ u ∈ queue, own id u.normalizedViewId) :
    ∀ u ∈ mergeRequest newTile queue, own id u.normalizedViewId := by
  induction queue with
  | nil => simpa [mergeRequest] using hnew
  | cons t queue ih =>
    have htail := ih fun u hu => hqueue u (List.mem_cons_of_mem t hu)
    rw [mergeRequest]
    intro u hu
    split at hu
    · rcases List.mem_cons.mp hu with rfl | hu
      · exact hqueue t List.mem_cons_self
      · exact hqueue u (List.mem_cons_of_mem t hu)
    · rcases List.mem_cons.mp hu with rfl | hu
      · exact hqueue u List.mem_cons_self
      · exact htail u hu

omit law in
theorem own_accumulate {id : Nat} {s : ClientSession} {tiles : List TileDesc}
    (hcurrent : own id s.canonicalViewId) (htiles : ∀ u ∈ tiles, own id u.normalizedViewId) :
    ∀ u ∈ accumulate s tiles, own id u.normalizedViewId := by
  have hfold : ∀ (ts queue : List TileDesc), (∀ u ∈ ts, own id u.normalizedViewId) →
      (∀ u ∈ queue, own id u.normalizedViewId) →
      ∀ u ∈ ts.foldl (fun queue t => mergeRequest t queue) queue, own id u.normalizedViewId := by
    intro ts
    induction ts with
    | nil => exact fun queue _ hqueue => hqueue
    | cons t ts ih =>
      intro queue hts hqueue
      exact ih _ (fun u hu => hts u (List.mem_cons_of_mem t hu))
        (own_mergeRequest (hts t List.mem_cons_self) hqueue)
  rw [accumulate]
  split
  · exact htiles
  · -- what was in the queue follows the view of the session
    refine hfold tiles _ htiles fun u hu => ?_
    obtain ⟨v, -, rfl⟩ := List.mem_map.mp hu
    exact hcurrent

omit law in
theorem Serves.acceptRequest (h : b.Serves own kept told) {id : Nat} {c : TileCombined} (force : Bool)
    (now : Nat) (hown : ∀ t ∈ c.tiles, own id t.normalizedViewId) :
    (b.acceptRequest id c force now).Serves own kept told := by
  obtain ⟨hb, htiles⟩ := h.prepareTiles now force [] [] hown (by simp)
  rw [Broker.acceptRequest]
  refine Serves.updateSession ?_ fun hs => ⟨hs.current, own_accumulate hs.current htiles, hs.told⟩
  split
  · exact hb
  · exact hb.congr rfl rfl

theorem Serves.handleTileRequest (h : b.Serves own kept told) (id : Nat) (t : TileDesc) (now : Nat) :
    (b.handleTileRequest id t true now).Serves own kept told := by
  have hversion : ({ b with tileVersion := b.tileVersion + 1 } : Broker).Serves own kept told :=
    h.congr rfl rfl
  have hown : own id (b.sessions id).canonicalViewId := (h.sessions id).current
  have hreset := hversion.reset id { t with
    normalizedViewId := (b.sessions id).canonicalViewId
    ver := b.tileVersion + 1 }
  simp only [Broker.handleTileRequest, if_true]
  split
  · rename_i e he
    split
    · exact hreset.answer law hown he
    · exact (hreset.subscribe hown now).congr rfl rfl
  · exact (hreset.subscribe hown now).congr rfl rfl

/-- **What is not of the kit** keeps to the rule. -/
theorem Serves.act (h : b.Serves own kept told) {a : Action} (ha : Domestic own a) :
    (Tiles.act b a).Serves own kept told := by
  cases a with
  | response desc data => exact ha.elim
  | combined id c force now budget =>
    exact (h.acceptRequest force now ha).sendRequestedTiles law id now budget
  | more id now budget => exact h.sendRequestedTiles law id now budget
  | single id t now => exact h.handleTileRequest law id t now
  | invalidate part mode x y width height nview =>
    refine h.forget law (fun e he => he) fun key e he => ?_
    simp only [TileCache.invalidateTiles] at he
    rw [Assoc.lookup_map fun k (e : TileData) =>
      if TileCache.intersectsTile k part mode x y width height nview then { e with valid := false } else e]
      at he
    obtain ⟨e', he', rfl⟩ := Option.map_eq_some_iff.mp he
    split
    · exact ⟨e', false, he', rfl⟩
    · exact ⟨e', e'.valid, he', rfl⟩
  | evict victims =>
    refine h.forget law (fun e he => he) fun key e he => ?_
    simp only [TileCache.evict] at he
    rw [Assoc.lookup_filter fun k => decide (k ∉ victims)] at he
    split at he
    · exact ⟨e, e.valid, he, rfl⟩
    · cases he
  | setView id canonicalViewId =>
    show (b.updateSession id fun s => { s with canonicalViewId := canonicalViewId }).Serves own kept told
    exact h.updateSession fun hs => ⟨ha, hs.requested, hs.told⟩
  | close id =>
    show (b.updateSession id fun s => { s with closed := true }).Serves own kept told
    exact h.updateSession fun hs => ⟨hs.current, hs.requested, hs.told⟩

/-! ### Answers of the kit -/

theorem Serves.foldl_sendTileNow {desc : TileDesc} {e : TileData} {subscribers : List Nat}
    (h : b.Serves own kept told) (hown : ∀ id ∈ subscribers, own id desc.normalizedViewId)
    (he : b.tileCache.lookupTile desc = some e) :
    (subscribers.foldl (fun b id =>
      if (b.sessions id).closed then b else b.updateSession id (·.sendTileNow desc e)) b).Serves
        own kept told := by
  induction subscribers generalizing b with
  | nil => exact h
  | cons id subscribers ih =>
    have hrest : ∀ id' ∈ subscribers, own id' desc.normalizedViewId :=
      fun id' hid' => hown id' (List.mem_cons_of_mem id hid')
    rw [List.foldl_cons]
    split
    · exact ih h hrest he
    · exact ih (h.answer law (hown id List.mem_cons_self) he) hrest he

theorem Serves.forgetTileBeingRendered (h : b.Serves own kept told) (desc : TileDesc) :
    ({ b with tileCache := b.tileCache.forgetTileBeingRendered desc }).Serves own kept told := by
  rw [TileCache.forgetTileBeingRendered]
  split
  · exact h
  · split
    · refine h.forget law (fun e he => (List.mem_filter.mp he).1) fun key e he => ?_
      exact ⟨e, e.valid, he, rfl⟩
    · exact h

end Law

/-- An entry takes the place of another. -/
theorem Serves.put (h : b.Serves own kept told) {key : CacheKey} {e : TileData} (he : kept' key e)
    (hothers : ∀ key' e', key' ≠ key → kept key' e' → kept' key' e')
    (htold : ∀ id sent, told id sent → told' id sent) :
    ({ b with tileCache := { b.tileCache with cache := Assoc.put key e b.tileCache.cache } }
      : Broker).Serves own kept' told' where
  sessions id := ⟨(h.sessions id).current, (h.sessions id).requested, htold id _ (h.sessions id).told⟩
  waiting := h.waiting
  kept key' e' he' := by
    rw [entry, Assoc.lookup_put] at he'
    split at he'
    · rename_i hkey
      rw [hkey, ← Option.some.inj he']
      exact he
    · rename_i hkey
      exact hothers key' e' hkey (h.kept key' e' he')

/-- **A frame of the kit**: the entry with the frame is kept, as it is in a keyframe alone, and so are
the other entries. -/
theorem Serves.response (law : ServingLaw own kept' told') (h : b.Serves own kept told) {desc : TileDesc}
    {data : List UInt8} (hothers : ∀ key e, key ≠ desc.cacheKey → kept key e → kept' key e)
    (happend : ∀ e, kept desc.cacheKey e → kept' desc.cacheKey (e.appendBlob desc.wireId data))
    (hnew : isKeyframe data = true → ∀ e : TileData, kept' desc.cacheKey (e.appendBlob desc.wireId data))
    (htold : ∀ id sent, told id sent → told' id sent) :
    (Tiles.act b (.response desc data)).Serves own kept' told' := by
  show (b.saveTileAndNotify desc data).Serves own kept' told'
  simp only [Broker.saveTileAndNotify]
  rcases saveDataToCache_cases b.tileCache desc data with ⟨heq, hnone⟩ | ⟨e, heq, he⟩
  · -- a delta for a tile that is not there any more
    have hsaved : b.Serves own kept' told' := by
      refine ⟨fun id => ⟨(h.sessions id).current, (h.sessions id).requested,
        htold id _ (h.sessions id).told⟩, h.waiting, fun key e he => hothers key e ?_ (h.kept key e he)⟩
      rintro rfl
      rw [show entry b desc.cacheKey = none from hnone] at he
      cases he
    rw [heq]
    split
    · exact hsaved
    · exact hsaved.forgetTileBeingRendered law desc
  · have hkept : kept' desc.cacheKey (e.appendBlob desc.wireId data) := by
      rcases he with he | hkeyframe
      · exact happend e (h.kept _ e he)
      · exact hnew hkeyframe e
    have hsaved := h.put hkept hothers htold
    rw [heq]
    split
    · exact hsaved
    · rename_i r hr
      refine Serves.forgetTileBeingRendered law ?_ desc
      refine hsaved.foldl_sendTileNow law (h.waiting _ (Assoc.mem_of_lookup hr)) ?_
      rw [TileCache.lookupTile, Assoc.lookup_put, if_pos rfl]

end Broker

end Oxool.Wsd.Tiles
