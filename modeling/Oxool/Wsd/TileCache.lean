import Oxool.Delta.Frames
import Oxool.Lib.Assoc
import Oxool.Tile.TileDesc

/-!
# `TileCache` — the server's tiles (`wsd/TileCache.hpp`, `wsd/TileCache.cpp`)

A cached tile is a keyframe and the deltas the kit sent after it, as one run of bytes with the wire
id and the start of each frame. A client that has seen the tile up to a wire id is sent what lies
after it (`appendChangesSince`). The main fact about an entry is `TileData.Ok`: its wire ids go up,
so that a wire id is a place in the bytes, and `appendBlob` keeps every such place (`upTo_append`).

The two vectors `_wids` and `_offsets`, always pushed together, are one list of pairs here.
-/

set_option autoImplicit false

namespace Oxool.Wsd.Tiles

open Oxool.Delta (isKeyframe)

/-- `TileData`: each frame's wire id and offset in `deltas`, which holds the bodies. -/
structure TileData where
  valid : Bool
  frames : List (UInt32 × Nat)
  deltas : List UInt8

namespace TileData

/-- `_wids`. -/
def wids (t : TileData) : List UInt32 := t.frames.map Prod.fst

/-- `appendBlob`. A keyframe clears the tile first, and an empty delta after an empty delta only
moves the wire id. -/
def appendBlob (t : TileData) (id : UInt32) (data : List UInt8) : TileData :=
  let (frames, deltas) := if isKeyframe data then ([], []) else (t.frames, t.deltas)
  if data.length = 1 ∧ frames.length > 1 ∧ frames.getLast?.map Prod.snd = some deltas.length then
    { valid := true
      frames := frames.dropLast ++ [(id, deltas.length)]
      deltas := deltas }
  else
    { valid := true
      frames := frames ++ [(id, deltas.length)]
      deltas := deltas ++ data.drop 1 }

/-- The constructor. -/
def new (id : UInt32) (data : List UInt8) : TileData := appendBlob ⟨true, [], []⟩ id data

/-- `isPng`. The first byte of a PNG is not kept, so a preview does not count as one. -/
def isPng (t : TileData) : Bool := decide (t.deltas.length > 1) && t.deltas.head? == some 0x89

/-- `needsKeyframe`. -/
def needsKeyframe (t : TileData) (since : UInt32) : Bool := decide (since < t.wids.headD 0)

/-- Where the frames after `since` start. -/
def upTo (t : TileData) (since : UInt32) : Nat :=
  match t.frames.find? fun f => decide (since < f.1) with
  | some f => f.2
  | none => t.deltas.length

/-- `appendChangesSince`: what it appends. -/
def changesSince (t : TileData) (since : UInt32) : List UInt8 :=
  if since = 0 then
    match t.frames with
    | [] => []
    | f :: _ => t.deltas.drop f.2
  else t.deltas.drop (t.upTo since)

/-! ## Wire ids are places -/

/-- An entry as the kit's frames make it: it starts with a keyframe at offset 0, the wire ids go up
from above 0 to at most `last`, and every offset is inside the bytes. -/
structure Ok (t : TileData) (last : UInt32) : Prop where
  first : ∃ w rest, t.frames = (w, 0) :: rest
  up : t.wids.Pairwise (· < ·)
  pos : ∀ w ∈ t.wids, 0 < w
  le : ∀ w ∈ t.wids, w ≤ last
  inside : ∀ f ∈ t.frames, f.2 ≤ t.deltas.length

variable {t : TileData} {last id since : UInt32} {data : List UInt8}

/-- A client that needs the keyframe is sent the whole entry. -/
theorem changesSince_of_needsKeyframe (h : t.Ok last) (hk : t.needsKeyframe since = true) :
    t.changesSince since = t.deltas := by
  obtain ⟨w, rest, hframes⟩ := h.first
  have hlt : since < w := by simpa [needsKeyframe, wids, hframes] using hk
  rw [changesSince]
  split
  · simp [hframes]
  · rw [upTo, hframes, List.find?_cons_of_pos (by simpa using hlt)]
    rfl

theorem changesSince_zero (h : t.Ok last) : t.changesSince 0 = t.deltas := by
  obtain ⟨w, rest, hframes⟩ := h.first
  simp [changesSince, hframes]

theorem ne_zero_of_needsKeyframe (h : t.Ok last) (hk : t.needsKeyframe since = false) :
    since ≠ 0 := by
  obtain ⟨w, rest, hframes⟩ := h.first
  have hle : ¬ since < w := by simpa [needsKeyframe, wids, hframes] using hk
  rintro rfl
  exact hle (h.pos w (by simp [wids, hframes]))

/-- Any other client is sent what lies after its wire id. -/
theorem take_append_changesSince (h : t.Ok last) (hk : t.needsKeyframe since = false) :
    t.deltas.take (t.upTo since) ++ t.changesSince since = t.deltas := by
  rw [changesSince, if_neg (ne_zero_of_needsKeyframe h hk), List.take_append_drop]

/-- The newest wire id is the end of the bytes. -/
theorem upTo_last (h : t.Ok last) (hid : t.wids.getLast? = some id) :
    t.upTo id = t.deltas.length := by
  rw [upTo]
  split
  · rename_i f hf
    exfalso
    have hlt : id < f.1 := by simpa using List.find?_some hf
    have hmem : f.1 ∈ t.wids := List.mem_map.mpr ⟨f, List.mem_of_find?_eq_some hf, rfl⟩
    obtain ⟨init, hinit⟩ := List.getLast?_eq_some_iff.mp hid
    have hup := h.up
    rw [hinit] at hup hmem
    rcases List.mem_append.mp hmem with hmem | hmem
    · have := List.pairwise_append.mp hup |>.2.2 f.1 hmem id (by simp)
      exact absurd hlt (UInt32.lt_asymm this)
    · rw [List.mem_singleton.mp hmem] at hlt
      exact UInt32.lt_irrefl _ hlt
  · rfl

/-! ## One more frame -/

/-- **What `appendBlob` can do.** -/
theorem appendBlob_cases (t : TileData) (id : UInt32) (data : List UInt8) :
    (isKeyframe data = true ∧ t.appendBlob id data = ⟨true, [(id, 0)], data.drop 1⟩) ∨
    (isKeyframe data = false ∧ ∃ init w, init ≠ [] ∧ t.frames = init ++ [(w, t.deltas.length)] ∧
      t.appendBlob id data = ⟨true, init ++ [(id, t.deltas.length)], t.deltas⟩) ∨
    (isKeyframe data = false ∧ t.appendBlob id data =
      ⟨true, t.frames ++ [(id, t.deltas.length)], t.deltas ++ data.drop 1⟩) := by
  cases hk : isKeyframe data with
  | true => exact .inl ⟨rfl, by simp [appendBlob, hk]⟩
  | false =>
    right
    by_cases hbump : data.length = 1 ∧ t.frames.length > 1 ∧
        t.frames.getLast?.map Prod.snd = some t.deltas.length
    · left
      obtain ⟨hlen, hframes, hlast⟩ := hbump
      cases hl : t.frames.getLast? with
      | none => simp [hl] at hlast
      | some f =>
        obtain ⟨init, hinit⟩ := List.getLast?_eq_some_iff.mp hl
        have hf : f.2 = t.deltas.length := by simpa [hl] using hlast
        refine ⟨rfl, init, f.1, ?_, ?_, ?_⟩
        · rintro rfl
          simp [hinit] at hframes
        · rw [hinit, ← hf]
        · rw [appendBlob, hk]
          simp only [Bool.false_eq_true, if_false]
          rw [if_pos ⟨hlen, hframes, hlast⟩, hinit, List.dropLast_concat]
    · right
      refine ⟨rfl, ?_⟩
      rw [appendBlob, hk]
      simp only [Bool.false_eq_true, if_false]
      rw [if_neg hbump]

theorem ok_keyframe (hpos : 0 < id) : (⟨true, [(id, 0)], data⟩ : TileData).Ok id where
  first := ⟨id, [], rfl⟩
  up := by simp [wids]
  pos := by simpa [wids] using hpos
  le := by simp [wids]
  inside := by simp

theorem lt_of_mem (h : t.Ok last) (hid : last < id) {w : UInt32} (hw : w ∈ t.wids) : w < id :=
  UInt32.lt_of_le_of_lt (h.le w hw) hid

/-- An entry with one frame more, or with its last frame renumbered. -/
theorem Ok.snoc {init : List (UInt32 × Nat)} (deltas more : List UInt8) (hid : 0 < id)
    (hfirst : ∃ w rest, init = (w, 0) :: rest) (hup : (init.map Prod.fst).Pairwise (· < ·))
    (hpos : ∀ w ∈ init.map Prod.fst, 0 < w) (hlt : ∀ w ∈ init.map Prod.fst, w < id)
    (hinside : ∀ f ∈ init, f.2 ≤ deltas.length) :
    (⟨true, init ++ [(id, deltas.length)], deltas ++ more⟩ : TileData).Ok id where
  first := by
    obtain ⟨w, rest, rfl⟩ := hfirst
    exact ⟨w, rest ++ [(id, deltas.length)], rfl⟩
  up := by
    simp only [wids, List.map_append, List.map_cons, List.map_nil]
    exact List.pairwise_append.mpr ⟨hup, by simp, fun a ha b hb => by
      rw [List.mem_singleton.mp hb]
      exact hlt a ha⟩
  pos := by
    intro w hw
    simp only [wids, List.map_append, List.mem_append, List.map_cons, List.map_nil,
      List.mem_singleton] at hw
    rcases hw with hw | rfl
    · exact hpos w hw
    · exact hid
  le := by
    intro w hw
    simp only [wids, List.map_append, List.mem_append, List.map_cons, List.map_nil,
      List.mem_singleton] at hw
    rcases hw with hw | rfl
    · exact UInt32.le_of_lt (hlt w hw)
    · exact UInt32.le_refl _
  inside := by
    intro f hf
    rw [List.length_append]
    rcases List.mem_append.mp hf with hf | hf
    · have := hinside f hf
      omega
    · rw [List.mem_singleton.mp hf]
      exact Nat.le_add_right _ _

/-- A frame with a higher wire id leaves a good entry. -/
theorem Ok.appendBlob (h : t.Ok last) (hid : last < id) (data : List UInt8) :
    (t.appendBlob id data).Ok id := by
  have hpos : 0 < id := UInt32.lt_of_le_of_lt UInt32.zero_le hid
  rcases appendBlob_cases t id data with ⟨-, heq⟩ | ⟨-, init, w, hinit, hframes, heq⟩ | ⟨-, heq⟩
  · rw [heq]
    exact ok_keyframe hpos
  · rw [heq, ← List.append_nil t.deltas]
    have hwids : t.wids = init.map Prod.fst ++ [w] := by rw [wids, hframes]; simp
    have hmem : ∀ v ∈ init.map Prod.fst, v ∈ t.wids := fun v hv => by
      rw [hwids]
      exact List.mem_append_left _ hv
    have hup := h.up
    rw [hwids] at hup
    have hsnoc := Ok.snoc t.deltas [] hpos ?_
      (List.pairwise_append.mp hup).1 (fun v hv => h.pos v (hmem v hv))
      (fun v hv => lt_of_mem h hid (hmem v hv))
      fun f hf => h.inside f (by rw [hframes]; exact List.mem_append_left _ hf)
    · simpa using hsnoc
    · obtain ⟨v, rest, hfirst⟩ := h.first
      cases init with
      | nil => exact absurd rfl hinit
      | cons f init =>
        rw [hframes, List.cons_append, List.cons.injEq] at hfirst
        exact ⟨v, init, by rw [hfirst.1]⟩
  · rw [heq]
    exact Ok.snoc t.deltas _ hpos h.first h.up h.pos (fun v hv => lt_of_mem h hid hv) h.inside

theorem upTo_snoc {init : List (UInt32 × Nat)} {valid : Bool} {deltas : List UInt8} {n : Nat}
    (hsince : since < id) :
    (⟨valid, init ++ [(id, n)], deltas⟩ : TileData).upTo since =
      ((init.find? fun f => decide (since < f.1)).map Prod.snd).getD n := by
  rw [upTo, List.find?_append]
  cases init.find? fun f => decide (since < f.1) with
  | some f => rfl
  | none => simp [hsince]

/-- A delta leaves what every client has seen where it is. -/
theorem take_upTo_appendBlob (h : t.Ok last) (hid : last < id) (hsince : since ≤ last)
    (hdelta : isKeyframe data = false) :
    (t.appendBlob id data).deltas.take ((t.appendBlob id data).upTo since) =
      t.deltas.take (t.upTo since) := by
  have hlt : since < id := UInt32.lt_of_le_of_lt hsince hid
  rcases appendBlob_cases t id data with ⟨hk, -⟩ | ⟨-, init, w, -, hframes, heq⟩ | ⟨-, heq⟩
  · rw [hdelta] at hk
    cases hk
  · -- the frame that was renumbered starts where the bytes end, before and after
    rw [heq, upTo_snoc hlt, upTo, hframes, List.find?_append]
    cases init.find? fun f => decide (since < f.1) with
    | some f => rfl
    | none =>
      by_cases hw : since < w
      · simp [hw]
      · simp [hw]
  · rw [heq, upTo_snoc hlt, upTo]
    cases hfind : t.frames.find? fun f => decide (since < f.1) with
    | some f =>
      have hle := h.inside f (List.mem_of_find?_eq_some hfind)
      simp [List.take_append_of_le_length hle]
    | none => simp

theorem needsKeyframe_appendBlob (h : t.Ok last) (hdelta : isKeyframe data = false) :
    (t.appendBlob id data).needsKeyframe since = t.needsKeyframe since := by
  obtain ⟨v, rest, hfirst⟩ := h.first
  rcases appendBlob_cases t id data with ⟨hk, -⟩ | ⟨-, init, w, hinit, hframes, heq⟩ | ⟨-, heq⟩
  · rw [hdelta] at hk
    cases hk
  · cases init with
    | nil => exact absurd rfl hinit
    | cons f init => simp [needsKeyframe, wids, heq, hframes]
  · simp [needsKeyframe, wids, heq, hfirst]

/-- After a keyframe every client needs it. -/
theorem needsKeyframe_keyframe (hkey : isKeyframe data = true) (hsince : since < id) :
    (t.appendBlob id data).needsKeyframe since = true := by
  rcases appendBlob_cases t id data with ⟨-, heq⟩ | ⟨hk, -⟩ | ⟨hk, -⟩
  · simp [needsKeyframe, wids, heq, hsince]
  · rw [hkey] at hk
    cases hk
  · rw [hkey] at hk
    cases hk

end TileData

/-! ## The cache and its subscriptions -/

/-- `TileBeingRendered`: who waits for a tile, since when, and for which version. -/
structure TileBeingRendered where
  version : Int
  subscribers : List Nat
  startTime : Nat

/-- `COMMAND_TIMEOUT_MS`. -/
def commandTimeoutMs : Nat := 5000

/-- `isStale`. -/
def TileBeingRendered.isStale (r : TileBeingRendered) (now : Nat) : Bool :=
  decide (now - r.startTime > commandTimeoutMs)

/-- The cached tiles and those the kit is working on. -/
structure TileCache where
  cache : List (CacheKey × TileData)
  tilesBeingRendered : List (CacheKey × TileBeingRendered)

namespace TileCache

def empty : TileCache := ⟨[], []⟩

/-- `lookupTile`. -/
def lookupTile (c : TileCache) (t : TileDesc) : Option TileData := c.cache.lookup t.cacheKey

/-- `saveDataToCache`, after the cache was cut back. A delta for a tile that is no longer there is
dropped. -/
def saveDataToCache (c : TileCache) (desc : TileDesc) (data : List UInt8) :
    TileCache × Option TileData :=
  match c.lookupTile desc with
  | none =>
    if isKeyframe data then
      let tile := TileData.new desc.wireId data
      ({ c with cache := Assoc.put desc.cacheKey tile c.cache }, some tile)
    else (c, none)
  | some tile =>
    let tile := tile.appendBlob desc.wireId data
    ({ c with cache := Assoc.put desc.cacheKey tile c.cache }, some tile)

/-- `subscribeToTileRendering`. A second request of one session only asks for a newer version. -/
def subscribeToTileRendering (c : TileCache) (t : TileDesc) (subscriber : Nat) (now : Nat) :
    TileCache :=
  let waiting :=
    match c.tilesBeingRendered.lookup t.cacheKey with
    | none => ⟨t.ver, [subscriber], now⟩
    | some r =>
      if subscriber ∈ r.subscribers then { r with version := t.ver }
      else { r with subscribers := r.subscribers ++ [subscriber] }
  { c with tilesBeingRendered := Assoc.put t.cacheKey waiting c.tilesBeingRendered }

/-- `hasTileBeingRendered`, with the time. -/
def hasTileBeingRendered (c : TileCache) (t : TileDesc) (now : Nat) : Bool :=
  match c.tilesBeingRendered.lookup t.cacheKey with
  | none => false
  | some r => !r.isStale now

/-- `getTileBeingRenderedVersion`. -/
def getTileBeingRenderedVersion (c : TileCache) (t : TileDesc) : Int :=
  match c.tilesBeingRendered.lookup t.cacheKey with
  | none => 0
  | some r => r.version

/-- `forgetTileBeingRendered`, unless a newer version is awaited. -/
def forgetTileBeingRendered (c : TileCache) (desc : TileDesc) : TileCache :=
  match c.tilesBeingRendered.lookup desc.cacheKey with
  | none => c
  | some r =>
    if r.version ≤ desc.ver then
      { c with tilesBeingRendered := c.tilesBeingRendered.filter fun e => e.1 ≠ desc.cacheKey }
    else c

/-- `intersectsTile`; part -1 stands for every part. -/
def intersectsTile (k : CacheKey) (part mode x y width height : Int) (normalizedViewId : Nat) :
    Bool :=
  (part == -1 || (k.part : Int) == part) && mode == k.mode && normalizedViewId == k.normalizedViewId &&
    decide (max x k.tilePosX ≤ min (x + width) (k.tilePosX + k.tileWidth)) &&
    decide (max y k.tilePosY ≤ min (y + height) (k.tilePosY + k.tileHeight))

/-- `invalidateTiles`: the tiles stay, as a base for deltas. -/
def invalidateTiles (c : TileCache) (part mode x y width height : Int) (normalizedViewId : Nat) :
    TileCache :=
  { c with cache := c.cache.map fun e =>
      (e.1, if intersectsTile e.1 part mode x y width height normalizedViewId then
        { e.2 with valid := false } else e.2) }

/-- `ensureCacheSize`, for some choice of the tiles to go. -/
def evict (c : TileCache) (victims : List CacheKey) : TileCache :=
  { c with cache := c.cache.filter fun e => e.1 ∉ victims }

end TileCache

end Oxool.Wsd.Tiles
