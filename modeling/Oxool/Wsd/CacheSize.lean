import Oxool.Lib.Run
import Oxool.Wsd.TileCache

/-!
# The size of the tile cache (`wsd/TileCache.hpp`, `wsd/TileCache.cpp`)

`TileCache` keeps the bytes it holds in `_cacheSize`, an unsigned number that is adjusted where an
entry is added, grows, is replaced by a keyframe or goes. Here the cache is modelled once more with
that number, with the wire id under which each tile was first saved, and with `ensureCacheSize`
choosing the tiles that go; `Oxool.Wsd.TileCache` has the same cache with an arbitrary choice, and
`toTileCache` leads there. The vectors `_wids` and `_offsets` are two lists.

Numbers of type `size_t` are `UInt64`, so that a subtraction too many would wrap.
-/

set_option autoImplicit false

namespace Oxool.Wsd.Tiles

open Oxool.Delta (isKeyframe)

/-! ## An entry -/

/-- `TileData`, with its vectors as the code has them. -/
structure TileVectors where
  valid : Bool
  wids : List UInt32
  offsets : List Nat
  deltas : List UInt8

namespace TileVectors

def size (t : TileVectors) : Nat := t.deltas.length

/-- `appendBlob`, the tile. -/
def appendBlob (t : TileVectors) (id : UInt32) (data : List UInt8) : TileVectors :=
  let t := if isKeyframe data then { t with wids := [], offsets := [], deltas := [] } else t
  if data.length = 1 ∧ t.offsets.length > 1 ∧ t.offsets.getLast? = some t.deltas.length then
    { t with
      valid := true
      wids := t.wids.dropLast ++ [id] }
  else
    { valid := true
      wids := t.wids ++ [id]
      offsets := t.offsets ++ [t.deltas.length]
      deltas := t.deltas ++ data.drop 1 }

/-- `appendBlob`, what it returns: the change in size. -/
def sizeChange (t : TileVectors) (id : UInt32) (data : List UInt8) : UInt64 :=
  .ofNat (t.appendBlob id data).size - .ofNat t.size

/-- The constructor. -/
def new (id : UInt32) (data : List UInt8) : TileVectors := appendBlob ⟨true, [], [], []⟩ id data

/-- The tile as `Oxool.Wsd.TileCache` has it. -/
def toTileData (t : TileVectors) : TileData := ⟨t.valid, t.wids.zip t.offsets, t.deltas⟩

/-- The vectors go together, are not empty, and the offsets go up inside the bytes. -/
structure WellFormed (t : TileVectors) : Prop where
  parallel : t.wids.length = t.offsets.length
  nonempty : t.wids ≠ []
  increasing : t.offsets.Pairwise (· ≤ ·)
  inside : ∀ o ∈ t.offsets, o ≤ t.deltas.length

/-- **What `appendBlob` can do.** -/
theorem appendBlob_eq_cases (t : TileVectors) (id : UInt32) (data : List UInt8) :
    (isKeyframe data = true ∧ t.appendBlob id data = ⟨true, [id], [0], data.drop 1⟩) ∨
    (isKeyframe data = false ∧ data.length = 1 ∧ t.offsets.length > 1 ∧
      t.offsets.getLast? = some t.deltas.length ∧
      t.appendBlob id data = ⟨true, t.wids.dropLast ++ [id], t.offsets, t.deltas⟩) ∨
    (isKeyframe data = false ∧
      ¬ (data.length = 1 ∧ t.offsets.length > 1 ∧ t.offsets.getLast? = some t.deltas.length) ∧
      t.appendBlob id data =
        ⟨true, t.wids ++ [id], t.offsets ++ [t.deltas.length], t.deltas ++ data.drop 1⟩) := by
  cases hk : isKeyframe data with
  | true => exact .inl ⟨rfl, by simp [appendBlob, hk]⟩
  | false =>
    right
    by_cases hbump : data.length = 1 ∧ t.offsets.length > 1 ∧
        t.offsets.getLast? = some t.deltas.length
    · refine .inl ⟨rfl, hbump.1, hbump.2.1, hbump.2.2, ?_⟩
      rw [appendBlob, hk]
      simp only [Bool.false_eq_true, if_false]
      rw [if_pos hbump]
    · refine .inr ⟨rfl, hbump, ?_⟩
      rw [appendBlob, hk]
      simp only [Bool.false_eq_true, if_false]
      rw [if_neg hbump]

theorem wellFormed_keyframe (id : UInt32) (deltas : List UInt8) :
    (⟨true, [id], [0], deltas⟩ : TileVectors).WellFormed where
  parallel := rfl
  nonempty := by simp
  increasing := by simp
  inside := by simp

theorem WellFormed.appendBlob {t : TileVectors} (h : t.WellFormed) (id : UInt32)
    (data : List UInt8) : (t.appendBlob id data).WellFormed := by
  rcases t.appendBlob_eq_cases id data with ⟨-, heq⟩ | ⟨-, -, hlong, -, heq⟩ | ⟨-, -, heq⟩
  · rw [heq]
    exact wellFormed_keyframe id _
  · rw [heq]
    refine ⟨?_, by simp, h.increasing, h.inside⟩
    have := h.parallel
    simp only [List.length_append, List.length_dropLast, List.length_singleton]
    omega
  · rw [heq]
    refine ⟨by simp [h.parallel], by simp, ?_, ?_⟩
    · refine List.pairwise_append.mpr ⟨h.increasing, by simp, fun a ha b hb => ?_⟩
      rw [List.mem_singleton.mp hb]
      exact h.inside a ha
    · intro o ho
      rw [List.length_append]
      rcases List.mem_append.mp ho with ho | ho
      · have := h.inside o ho
        omega
      · rw [List.mem_singleton.mp ho]
        omega

theorem wellFormed_new (id : UInt32) {data : List UInt8} (h : isKeyframe data = true) :
    (new id data).WellFormed := by
  rcases (⟨true, [], [], []⟩ : TileVectors).appendBlob_eq_cases id data with
    ⟨-, heq⟩ | ⟨hk, -⟩ | ⟨hk, -⟩
  · rw [new, heq]
    exact wellFormed_keyframe id _
  · rw [h] at hk
    cases hk
  · rw [h] at hk
    cases hk

/-- The tile with its vectors does what the tile with its frames does. -/
theorem toTileData_appendBlob {t : TileVectors} (h : t.wids.length = t.offsets.length) (id : UInt32)
    (data : List UInt8) : (t.appendBlob id data).toTileData = t.toTileData.appendBlob id data := by
  have hoffsets : t.toTileData.frames.map Prod.snd = t.offsets :=
    List.map_snd_zip (Nat.le_of_eq h.symm)
  have hlength : t.toTileData.frames.length = t.offsets.length := by
    rw [← hoffsets, List.length_map]
  have hlast : t.toTileData.frames.getLast?.map Prod.snd = t.offsets.getLast? := by
    rw [← List.getLast?_map, hoffsets]
  rw [TileData.appendBlob]
  rcases t.appendBlob_eq_cases id data with
    ⟨hk, heq⟩ | ⟨hk, hone, hlong, hend, heq⟩ | ⟨hk, hnot, heq⟩
  · rw [heq, hk]
    simp [toTileData]
  · rw [heq, hk]
    simp only [Bool.false_eq_true, if_false]
    rw [if_pos ⟨hone, by rw [hlength]; exact hlong, by rw [hlast]; exact hend⟩]
    obtain ⟨init, hinit⟩ := List.getLast?_eq_some_iff.mp hend
    have hne : t.wids ≠ [] := by
      intro hnil
      simp [hinit, hnil] at h
    obtain ⟨winit, w, hwids⟩ := (List.eq_nil_or_concat t.wids).resolve_left hne
    rw [List.concat_eq_append] at hwids
    have hinits : winit.length = init.length := by simpa [hwids, hinit] using h
    have hzip : t.toTileData.frames.dropLast = winit.zip init := by
      rw [toTileData, hwids, hinit]
      dsimp only
      rw [List.zip_append hinits]
      exact List.dropLast_concat
    rw [hzip, toTileData]
    dsimp only
    congr 1
    rw [hwids, List.dropLast_concat, hinit, List.zip_append hinits]
    rfl
  · rw [heq, hk]
    simp only [Bool.false_eq_true, if_false]
    rw [if_neg (by rw [hlength, hlast]; exact hnot), toTileData, toTileData]
    dsimp only
    rw [List.zip_append h]
    rfl

end TileVectors

/-! ## The cache with its size -/

/-- `sizeof(Tile)`, a shared pointer. -/
def sizeofTile : Nat := 16

/-- `sizeof(TileDesc)`, fourteen numbers of four bytes. -/
def sizeofTileDesc : Nat := 56

def itemCacheSize (t : TileVectors) : Nat := sizeofTile + sizeofTileDesc + t.size

/-- `TileCache`. An entry keeps the wire id of the descriptor it was first saved with. -/
structure SizedCache where
  cache : List (CacheKey × UInt32 × TileVectors)
  tilesBeingRendered : List (CacheKey × TileBeingRendered)
  cacheSize : UInt64
  maxCacheSize : UInt64

namespace SizedCache

/-- The constructor. -/
def init : SizedCache := ⟨[], [], 0, 1024 * 1024⟩

/-- The loop that looks for the wire id to clean up to, over the entries by wire id. -/
def cutoff (limit : UInt64) : UInt64 → UInt32 → List (UInt32 × UInt64) → UInt32
  | _, maxToRemove, [] => maxToRemove
  | total, _, (wid, size) :: rest =>
    if limit < total + size then wid else cutoff limit (total + size) wid rest

/-- The wire id up to which tiles go: the lowest ones that make up a quarter of the size, or all of
them if the wire ids have wrapped around. -/
def maxToRemove (s : SizedCache) : UInt32 :=
  let wids := (s.cache.map fun e => (e.2.1, UInt64.ofNat (itemCacheSize e.2.2))).mergeSort
    fun a b => decide (a.1 ≤ b.1)
  let front := (wids.head?.map Prod.fst).getD 0
  let back := (wids.getLast?.map Prod.fst).getD 0
  if 256 * 256 * 256 < back - front then back else cutoff (s.maxCacheSize / 4) 0 front wids

def isBeingRendered (s : SizedCache) (k : CacheKey) : Bool :=
  (s.tilesBeingRendered.lookup k).isSome

/-- The entry goes when the cache is cleaned up to a wire id. -/
def goes (s : SizedCache) (wid : UInt32) (e : CacheKey × UInt32 × TileVectors) : Bool :=
  decide (e.2.1 ≤ wid) && !s.isBeingRendered e.1

/-- The loop that cleans up, over the entries left and with the size so far. -/
def clean (goes : CacheKey × UInt32 × TileVectors → Bool) :
    List (CacheKey × UInt32 × TileVectors) → UInt64 →
      List (CacheKey × UInt32 × TileVectors) × UInt64
  | [], size => ([], size)
  | e :: rest, size =>
    if goes e then clean goes rest (size - .ofNat (itemCacheSize e.2.2))
    else
      let cleaned := clean goes rest size
      (e :: cleaned.1, cleaned.2)

def ensureCacheSize (s : SizedCache) : SizedCache :=
  if s.cacheSize < s.maxCacheSize ∨ s.cache.length < 2 then s
  else
    let cleaned := clean (s.goes s.maxToRemove) s.cache s.cacheSize
    { s with
      cache := cleaned.1
      cacheSize := cleaned.2 }

/-- `saveDataToCache`. A delta for a tile that is not there is discarded. -/
def saveDataToCache (s : SizedCache) (desc : TileDesc) (data : List UInt8) : SizedCache :=
  let s := s.ensureCacheSize
  match s.cache.lookup desc.cacheKey with
  | none =>
    if isKeyframe data then
      let tile := TileVectors.new desc.wireId data
      { s with
        cache := Assoc.put desc.cacheKey (desc.wireId, tile) s.cache
        cacheSize := s.cacheSize + .ofNat (itemCacheSize tile) }
    else s
  | some (wid, tile) =>
    { s with
      cache := Assoc.put desc.cacheKey (wid, tile.appendBlob desc.wireId data) s.cache
      cacheSize := s.cacheSize + tile.sizeChange desc.wireId data }

/-- `invalidateTiles`. -/
def invalidateTiles (s : SizedCache) (part mode x y width height : Int) (normalizedViewId : Nat) :
    SizedCache :=
  { s with cache := s.cache.map fun e =>
      (e.1, e.2.1,
        if TileCache.intersectsTile e.1 part mode x y width height normalizedViewId then
          { e.2.2 with valid := false } else e.2.2) }

/-- `clear`; the subscriptions stay. -/
def clear (s : SizedCache) : SizedCache :=
  { s with
    cache := []
    cacheSize := 0 }

def setMaxCacheSize (s : SizedCache) (cacheSize : UInt64) : SizedCache :=
  { s with maxCacheSize := cacheSize }.ensureCacheSize

/-- The cache as `Oxool.Wsd.TileCache` has it. -/
def toTileCache (s : SizedCache) : TileCache :=
  ⟨s.cache.map fun e => (e.1, e.2.2.toTileData), s.tilesBeingRendered⟩

/-- A change of the subscriptions, as `TileCache` makes it. -/
def withSubscriptions (s : SizedCache) (f : TileCache → TileCache) : SizedCache :=
  { s with tilesBeingRendered := (f s.toTileCache).tilesBeingRendered }

inductive Action
  | saveDataToCache (desc : TileDesc) (data : List UInt8)
  | invalidateTiles (part mode x y width height : Int) (normalizedViewId : Nat)
  | clear
  | setMaxCacheSize (cacheSize : UInt64)
  | ensureCacheSize
  | subscribeToTileRendering (tile : TileDesc) (subscriber now : Nat)
  | forgetTileBeingRendered (desc : TileDesc)

def act (s : SizedCache) : Action → SizedCache
  | .saveDataToCache desc data => s.saveDataToCache desc data
  | .invalidateTiles part mode x y width height normalizedViewId =>
    s.invalidateTiles part mode x y width height normalizedViewId
  | .clear => s.clear
  | .setMaxCacheSize cacheSize => s.setMaxCacheSize cacheSize
  | .ensureCacheSize => s.ensureCacheSize
  | .subscribeToTileRendering tile subscriber now =>
    s.withSubscriptions (·.subscribeToTileRendering tile subscriber now)
  | .forgetTileBeingRendered desc => s.withSubscriptions (·.forgetTileBeingRendered desc)

/-- What the entries take up. -/
def totalSize (s : SizedCache) : Nat := (s.cache.map fun e => itemCacheSize e.2.2).sum

/-- The size is what the entries take up, every entry is well formed, and cleaning up leaves what is
being rendered. -/
structure Accounted (s : SizedCache) : Prop where
  size : s.cacheSize = .ofNat s.totalSize
  exact : s.totalSize < 2 ^ 64 → s.cacheSize.toNat = s.totalSize
  entries : ∀ e ∈ s.cache, e.2.2.WellFormed
  kept : ∀ limit, ∀ e ∈ s.cache, s.isBeingRendered e.1 = true →
    e ∈ ({ s with maxCacheSize := limit }.ensureCacheSize).cache

/-! ## Cleaning up -/

/-- The loop keeps the entries that do not go. -/
theorem clean_fst (goes : CacheKey × UInt32 × TileVectors → Bool)
    (l : List (CacheKey × UInt32 × TileVectors)) (size : UInt64) :
    (clean goes l size).1 = l.filter fun e => !goes e := by
  induction l generalizing size with
  | nil => rfl
  | cons e l ih =>
    rw [clean]
    split
    · rename_i he
      rw [ih, List.filter_cons_of_neg (by simp [he])]
    · rename_i he
      dsimp only
      rw [ih, List.filter_cons_of_pos (by simpa using he)]

/-- The loop takes off what the entries that go took up. -/
theorem clean_snd (goes : CacheKey × UInt32 × TileVectors → Bool)
    (l : List (CacheKey × UInt32 × TileVectors)) (rest : Nat) :
    (clean goes l (.ofNat (rest + (l.map fun e => itemCacheSize e.2.2).sum))).2 =
      .ofNat (rest + ((l.filter fun e => !goes e).map fun e => itemCacheSize e.2.2).sum) := by
  induction l generalizing rest with
  | nil => rfl
  | cons e l ih =>
    rw [clean, List.map_cons, List.sum_cons]
    split
    · rename_i he
      have hsub : UInt64.ofNat (rest + (itemCacheSize e.2.2 + (l.map fun e => itemCacheSize e.2.2).sum)) -
          UInt64.ofNat (itemCacheSize e.2.2) =
            UInt64.ofNat (rest + (l.map fun e => itemCacheSize e.2.2).sum) := by
        simp only [UInt64.ofNat_add]
        grind
      rw [hsub, ih, List.filter_cons_of_neg (by simp [he])]
    · rename_i he
      dsimp only
      rw [← Nat.add_assoc, ih, List.filter_cons_of_pos (by simpa using he), List.map_cons,
        List.sum_cons, Nat.add_assoc]

/-- What cleaning up leaves: some of the entries, among them all that are being rendered. -/
theorem ensureCacheSize_cases (s : SizedCache) :
    s.ensureCacheSize = s ∨ s.ensureCacheSize =
      { s with
        cache := s.cache.filter fun e => !s.goes s.maxToRemove e
        cacheSize := (clean (s.goes s.maxToRemove) s.cache s.cacheSize).2 } := by
  rw [ensureCacheSize]
  split
  · exact .inl rfl
  · right
    dsimp only
    rw [clean_fst]

theorem ensureCacheSize_kept (s : SizedCache) {e : CacheKey × UInt32 × TileVectors}
    (he : e ∈ s.cache) (hrendered : s.isBeingRendered e.1 = true) : e ∈ s.ensureCacheSize.cache := by
  rcases s.ensureCacheSize_cases with heq | heq
  · rw [heq]
    exact he
  · rw [heq]
    refine List.mem_filter.mpr ⟨he, ?_⟩
    simp [goes, hrendered]

/-! ## The account -/

/-- What holds in every run. -/
structure Inv (s : SizedCache) : Prop where
  keys : (s.cache.map Prod.fst).Nodup
  size : s.cacheSize = .ofNat s.totalSize
  entries : ∀ e ∈ s.cache, e.2.2.WellFormed

theorem Inv.accounted {s : SizedCache} (h : s.Inv) : s.Accounted where
  size := h.size
  exact := by
    intro hlt
    rw [h.size]
    exact UInt64.toNat_ofNat_of_lt' hlt
  entries := h.entries
  kept := by
    intro limit e he hrendered
    exact ensureCacheSize_kept { s with maxCacheSize := limit } he hrendered

theorem Inv.ensureCacheSize {s : SizedCache} (h : s.Inv) : s.ensureCacheSize.Inv := by
  rcases s.ensureCacheSize_cases with heq | heq
  · rw [heq]
    exact h
  · rw [heq]
    refine ⟨h.keys.sublist (List.filter_sublist.map _), ?_, ?_⟩
    · have hclean := clean_snd (s.goes s.maxToRemove) s.cache 0
      rw [Nat.zero_add, Nat.zero_add] at hclean
      rw [h.size]
      exact hclean
    · intro e he
      exact h.entries e (List.mem_filter.mp he).1

theorem Inv.saveDataToCache {s : SizedCache} (h : s.Inv) (desc : TileDesc) (data : List UInt8) :
    (s.saveDataToCache desc data).Inv := by
  have hinv := h.ensureCacheSize
  rw [SizedCache.saveDataToCache]
  dsimp only
  generalize s.ensureCacheSize = s at hinv
  cases hlookup : s.cache.lookup desc.cacheKey with
  | none =>
    dsimp only
    split
    · rename_i hkey
      refine ⟨Assoc.nodup_put hinv.keys, ?_, ?_⟩
      · have hsum := Assoc.sum_put_of_lookup_none (fun e => itemCacheSize e.2.2) hlookup
          (desc.wireId, TileVectors.new desc.wireId data)
        rw [totalSize, hsum, hinv.size, totalSize, UInt64.ofNat_add, UInt64.add_comm]
      · intro e he
        rcases Assoc.mem_put he with rfl | he
        · exact TileVectors.wellFormed_new desc.wireId hkey
        · exact hinv.entries e he
    · exact hinv
  | some entry =>
    obtain ⟨wid, tile⟩ := entry
    have hmem : (desc.cacheKey, wid, tile) ∈ s.cache := Assoc.mem_of_lookup hlookup
    refine ⟨Assoc.nodup_put hinv.keys, ?_, ?_⟩
    · have hsum := Assoc.sum_put_of_lookup_some (fun e => itemCacheSize e.2.2) hinv.keys hlookup
        (wid, tile.appendBlob desc.wireId data)
      simp only [itemCacheSize] at hsum
      have hcast := congrArg UInt64.ofNat hsum
      simp only [UInt64.ofNat_add] at hcast
      change s.cacheSize + tile.sizeChange desc.wireId data = _
      rw [hinv.size, totalSize, totalSize, TileVectors.sizeChange]
      simp only [itemCacheSize]
      grind
    · intro e he
      rcases Assoc.mem_put he with rfl | he
      · exact (hinv.entries _ hmem).appendBlob desc.wireId data
      · exact hinv.entries e he

theorem Inv.invalidateTiles {s : SizedCache} (h : s.Inv) (part mode x y width height : Int)
    (normalizedViewId : Nat) :
    (s.invalidateTiles part mode x y width height normalizedViewId).Inv := by
  rw [SizedCache.invalidateTiles]
  refine ⟨?_, ?_, ?_⟩
  · simpa [Function.comp_def] using h.keys
  · rw [h.size, totalSize, totalSize, List.map_map]
    congr 2
    apply List.map_congr_left
    intro e _
    dsimp only [Function.comp_apply]
    split <;> rfl
  · intro e he
    obtain ⟨e', he', rfl⟩ := List.mem_map.mp he
    have hentry := h.entries e' he'
    dsimp only
    split
    · exact ⟨hentry.parallel, hentry.nonempty, hentry.increasing, hentry.inside⟩
    · exact hentry

theorem Inv.act {s : SizedCache} (h : s.Inv) (a : Action) : (s.act a).Inv := by
  cases a with
  | saveDataToCache desc data => exact h.saveDataToCache desc data
  | invalidateTiles part mode x y width height normalizedViewId =>
    exact h.invalidateTiles part mode x y width height normalizedViewId
  | clear => exact ⟨by simp [SizedCache.act, clear], rfl, by simp [SizedCache.act, clear]⟩
  | setMaxCacheSize cacheSize =>
    have hset : { s with maxCacheSize := cacheSize }.Inv := ⟨h.keys, h.size, h.entries⟩
    exact hset.ensureCacheSize
  | ensureCacheSize => exact h.ensureCacheSize
  | subscribeToTileRendering tile subscriber now => exact ⟨h.keys, h.size, h.entries⟩
  | forgetTileBeingRendered desc => exact ⟨h.keys, h.size, h.entries⟩

/-! ## The cache without its size -/

/-- `ensureCacheSize` is an eviction. -/
theorem Inv.toTileCache_ensureCacheSize {s : SizedCache} (h : s.Inv) :
    ∃ victims, s.ensureCacheSize.toTileCache = s.toTileCache.evict victims := by
  rcases s.ensureCacheSize_cases with heq | heq
  · exact ⟨[], by simp [heq, TileCache.evict, toTileCache]⟩
  · refine ⟨(s.cache.filter (s.goes s.maxToRemove)).map Prod.fst, ?_⟩
    rw [heq, toTileCache, toTileCache, TileCache.evict]
    dsimp only
    congr 1
    rw [List.filter_map]
    congr 1
    apply List.filter_congr
    intro e he
    -- the keys are different, so the key of an entry that stays is not the key of one that goes
    have hiff : e.1 ∈ (s.cache.filter (s.goes s.maxToRemove)).map Prod.fst ↔
        s.goes s.maxToRemove e = true := by
      constructor
      · intro hmem
        obtain ⟨e', he', hkey⟩ := List.mem_map.mp hmem
        obtain ⟨he', hgoes⟩ := List.mem_filter.mp he'
        rwa [← List.inj_on_of_nodup_map h.keys he' he hkey]
      · intro hgoes
        exact List.mem_map.mpr ⟨e, List.mem_filter.mpr ⟨he, hgoes⟩, rfl⟩
    simp [Function.comp_apply, hiff]

/-- **The cache with its size does what the cache without it does**, for some choice of the tiles to
go. -/
theorem Inv.toTileCache_saveDataToCache {s : SizedCache} (h : s.Inv) (desc : TileDesc)
    (data : List UInt8) :
    ∃ victims, (s.saveDataToCache desc data).toTileCache =
      ((s.toTileCache.evict victims).saveDataToCache desc data).1 := by
  obtain ⟨victims, hvictims⟩ := h.toTileCache_ensureCacheSize
  refine ⟨victims, ?_⟩
  have hinv := h.ensureCacheSize
  rw [← hvictims, SizedCache.saveDataToCache, TileCache.saveDataToCache, TileCache.lookupTile]
  dsimp only
  generalize s.ensureCacheSize = s at hinv
  have hlookup : s.toTileCache.cache.lookup desc.cacheKey =
      (s.cache.lookup desc.cacheKey).map fun entry => entry.2.toTileData :=
    Assoc.lookup_map_value (fun entry : UInt32 × TileVectors => entry.2.toTileData) desc.cacheKey s.cache
  have hput : ∀ wid tile, (Assoc.put desc.cacheKey (wid, tile) s.cache).map
      (fun e => (e.1, e.2.2.toTileData)) = Assoc.put desc.cacheKey tile.toTileData s.toTileCache.cache :=
    fun wid tile => Assoc.map_put (fun entry : UInt32 × TileVectors => entry.2.toTileData)
      desc.cacheKey (wid, tile) s.cache
  rw [hlookup]
  cases hentry : s.cache.lookup desc.cacheKey with
  | none =>
    simp only [Option.map_none]
    split
    · have hnew : (TileVectors.new desc.wireId data).toTileData = TileData.new desc.wireId data :=
        TileVectors.toTileData_appendBlob rfl desc.wireId data
      rw [toTileCache, hput, hnew]
      rfl
    · rfl
  | some entry =>
    obtain ⟨wid, tile⟩ := entry
    have hparallel := (hinv.entries _ (Assoc.mem_of_lookup hentry)).parallel
    simp only [Option.map_some]
    rw [toTileCache, hput, TileVectors.toTileData_appendBlob hparallel]
    rfl

/-- **Cache accounting.** In every run the size is what the entries take up, every entry is well
formed, and cleaning up leaves what is being rendered. -/
theorem always_accounted (actions : List Action) : Run.Always act Accounted init actions := by
  refine Run.always_of_inv (fun _ (h : Inv _) => h.accounted) (fun _ a h => h.act a) ?_
  exact ⟨List.nodup_nil, rfl, by simp [init]⟩

end SizedCache

end Oxool.Wsd.Tiles
