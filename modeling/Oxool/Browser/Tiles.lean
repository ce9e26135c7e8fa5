import Mathlib.Logic.Function.Basic
import Oxool.Lib.Assoc
import Oxool.Sheet.Positions

/-!
# The tiles of the browser (`browser/src/layer/tile/CanvasTileLayer.js`)

The browser keeps an object for each tile, in a map by keys that are made of the coordinates. Where
the code asks which tiles count as visible it takes the coordinates from the keys again, with
`parseKey`, and a key has one field more than `parseKey` asks for: the mode of a tile is always 0 then.

Objects live in a heap here, as functions hold on to a tile that may be removed from the map meanwhile.
The map is in the order of insertion, which is the order in which `for .. in` comes by its keys.
-/

set_option autoImplicit false

namespace Oxool.Browser

open Oxool.Http (Bytes isDigit)
open Oxool.Protocol
open Oxool.Sheet (colon colon_notMem_decimal)

/-! ## Coordinates and keys -/

/-- `L.TileCoordData`. -/
structure TileCoordData where
  x : Int
  y : Int
  z : Int
  part : Int
  mode : Int
deriving DecidableEq

def TileCoordData.key (c : TileCoordData) : Bytes :=
  decimal c.x ++ colon :: (decimal c.y ++ colon :: (decimal c.z ++ colon :: (decimal c.part ++
    colon :: decimal c.mode)))

/-- The operator `+` on a text of digits, with or without a sign; no other texts are fields of keys. -/
def toNumber (s : Bytes) : Option Int :=
  let number := splitSign (s.dropWhile isSpace)
  if number.2 ≠ [] ∧ number.2.all isDigit then some (signed number.1 (digitsValue number.2)) else none

/-- `L.TileCoordData.parseKey`; `none` where a field is no number. -/
def parseKey (keyString : Bytes) : Option TileCoordData := do
  let k := keyString.splitOn colon
  -- there is no `k[4]` then
  let mode ← if k.length = 4 then none else some 0
  let x ← k[0]?.bind toNumber
  let y ← k[1]?.bind toNumber
  let z ← k[2]?.bind toNumber
  let part ← k[3]?.bind toNumber
  return ⟨x, y, z, part, mode⟩

theorem toNumber_decimal (n : Int) : toNumber (decimal n) = some n := by
  have hsign := splitSign_decimal n []
  rw [List.append_nil] at hsign
  have hvalue : signed (decide (n < 0)) n.natAbs = n := by
    rw [signed]
    split <;> rename_i h <;> simp only [decide_eq_true_eq] at h <;> omega
  rw [toNumber, hsign, List.append_nil]
  dsimp only
  rw [if_pos, digitsValue_toString, hvalue]
  exact ⟨toString_ne_nil _, List.all_eq_true.mpr fun b hb => Http.isDigit_of_mem_toString hb⟩

theorem splitOn_key (c : TileCoordData) :
    c.key.splitOn colon = [decimal c.x, decimal c.y, decimal c.z, decimal c.part, decimal c.mode] := by
  rw [TileCoordData.key]
  simp only [List.splitOn_append_cons_self, List.splitOn_eq_singleton (colon_notMem_decimal _),
    List.singleton_append]

/-- **The mode is lost** between a key and its coordinates. -/
theorem parseKey_key (c : TileCoordData) : parseKey c.key = some { c with mode := 0 } := by
  rw [parseKey, splitOn_key]
  simp [toNumber_decimal]

/-- Coordinates with different keys are different, and with different coordinates the keys are. -/
theorem key_injective : Function.Injective TileCoordData.key := by
  intro c c' h
  have hsplit := congrArg (List.splitOn colon) h
  rw [splitOn_key, splitOn_key] at hsplit
  have hdecimal : Function.Injective decimal := fun m n hmn => by
    have hread := congrArg toNumber hmn
    rwa [toNumber_decimal, toNumber_decimal, Option.some.injEq] at hread
  simp only [List.cons.injEq, hdecimal.eq_iff, and_true] at hsplit
  obtain ⟨hx, hy, hz, hpart, hmode⟩ := hsplit
  cases c
  cases c'
  simp_all

/-! ## Tile objects -/

/-- A tile object. `canvas` and `imgDataCache` are the bytes of their pixels; a canvas that is there
has the size of a tile. -/
structure Tile where
  coords : TileCoordData
  /-- is this currently visible -/
  current : Bool
  canvas : Option (List UInt8)
  imgDataCache : Option (List UInt8)
  /-- deltas ready to decompress -/
  rawDeltas : Option Bytes
  deltaCount : Nat
  updateCount : Nat
  loadCount : Nat
  gcErrors : Nat
  missingContent : Nat
  wireId : Int
  invalidFrom : Int
  lastRendered : Option Int
deriving DecidableEq

/-- The pixels of a new canvas. -/
def blankCanvas (tileSize : Nat) : List UInt8 := List.replicate (tileSize * tileSize * 4) 0

namespace Tile

variable (t : Tile)

/-- The object of `createTile`. -/
def new (coords : TileCoordData) (now : Int) : Tile :=
  ⟨coords, true, none, none, none, 0, 0, 0, 0, 0, 0, 0, some now⟩

def hasKeyframe : Bool :=
  match t.rawDeltas with
  | some rawDeltas => rawDeltas ≠ []
  | none => false

def hasContent : Bool := t.imgDataCache.isSome || t.hasKeyframe

def needsFetch : Bool := decide (t.wireId ≤ t.invalidFrom) || !t.hasContent

/-- `_reclaimTileCanvasMemory`. -/
def reclaimTileCanvasMemory : Tile := { t with canvas := none, imgDataCache := none }

theorem reclaimTileCanvasMemory_coords : t.reclaimTileCanvasMemory.coords = t.coords := rfl

end Tile

/-! ## The map -/

abbrev Ref := Nat

/-- The objects, and the map `_tiles` to them. -/
structure Layer where
  heap : Ref → Tile
  tiles : List (Bytes × Ref)
  next : Ref
  gcCounter : Nat
  keys : (tiles.map Prod.fst).Nodup
  refs : (tiles.map Prod.snd).Nodup
  keyed : ∀ e ∈ tiles, e.1 = (heap e.2).coords.key
  fresh : ∀ e ∈ tiles, e.2 < next

namespace Layer

variable (L : Layer)

/-- `_tiles[key]`. -/
def find (key : Bytes) : Option Ref := L.tiles.lookup key

/-- A change of one object, which keeps its coordinates. -/
def modify (r : Ref) (f : Tile → Tile) (hf : ∀ t, (f t).coords = t.coords) : Layer :=
  { L with
    heap := Function.update L.heap r (f (L.heap r))
    keyed := by
      intro e he
      rw [L.keyed e he]
      by_cases heq : e.2 = r
      · rw [heq, Function.update_self, hf]
      · rw [Function.update_of_ne heq] }

@[simp] theorem modify_tiles (r : Ref) (f : Tile → Tile) (hf : ∀ t, (f t).coords = t.coords) :
    (L.modify r f hf).tiles = L.tiles := rfl

@[simp] theorem modify_gcCounter (r : Ref) (f : Tile → Tile) (hf : ∀ t, (f t).coords = t.coords) :
    (L.modify r f hf).gcCounter = L.gcCounter := rfl

@[simp] theorem modify_next (r : Ref) (f : Tile → Tile) (hf : ∀ t, (f t).coords = t.coords) :
    (L.modify r f hf).next = L.next := rfl

theorem modify_heap (r : Ref) (f : Tile → Tile) (hf : ∀ t, (f t).coords = t.coords) (r' : Ref) :
    (L.modify r f hf).heap r' = if r' = r then f (L.heap r') else L.heap r' := by
  by_cases heq : r' = r
  · rw [if_pos heq, heq]
    exact Function.update_self r _ _
  · rw [if_neg heq]
    exact Function.update_of_ne heq _ _

/-- The same change of several objects, one after the other. -/
def modifyAll (rs : List Ref) (f : Tile → Tile) (hf : ∀ t, (f t).coords = t.coords) : Layer :=
  rs.foldl (fun L r => L.modify r f hf) L

@[simp] theorem modifyAll_tiles (rs : List Ref) (f : Tile → Tile) (hf : ∀ t, (f t).coords = t.coords) :
    (L.modifyAll rs f hf).tiles = L.tiles := by
  induction rs generalizing L with
  | nil => rfl
  | cons r rs ih => exact ih _

theorem modifyAll_heap {rs : List Ref} (hrs : rs.Nodup) (f : Tile → Tile)
    (hf : ∀ t, (f t).coords = t.coords) (r : Ref) :
    (L.modifyAll rs f hf).heap r = if r ∈ rs then f (L.heap r) else L.heap r := by
  induction rs generalizing L with
  | nil => rfl
  | cons r₀ rs ih =>
    rw [List.nodup_cons] at hrs
    have hrest := ih (L.modify r₀ f hf) hrs.2
    rw [modify_heap] at hrest
    refine Eq.trans hrest ?_
    by_cases heq : r = r₀
    · rw [heq, if_neg hrs.1, if_pos rfl, if_pos List.mem_cons_self]
    · by_cases hmem : r ∈ rs
      · rw [if_pos hmem, if_neg heq, if_pos (List.mem_cons_of_mem _ hmem)]
      · rw [if_neg hmem, if_neg heq, if_neg (by simp [heq, hmem])]

theorem modifyAll_gcCounter (rs : List Ref) (f : Tile → Tile) (hf : ∀ t, (f t).coords = t.coords) :
    (L.modifyAll rs f hf).gcCounter = L.gcCounter := by
  induction rs generalizing L with
  | nil => rfl
  | cons r rs ih => exact ih _

/-- An object is in the map once. -/
theorem mem_refs_iff {es : List (Bytes × Ref)} (hes : es ⊆ L.tiles) {e : Bytes × Ref}
    (he : e ∈ L.tiles) : e.2 ∈ es.map Prod.snd ↔ e ∈ es := by
  constructor
  · intro hmem
    obtain ⟨e', he', href⟩ := List.mem_map.mp hmem
    exact List.inj_on_of_nodup_map L.refs (hes he') he href ▸ he'
  · exact List.mem_map_of_mem

/-- A change of the objects of some entries. -/
theorem modifyAll_entry {es : List (Bytes × Ref)} (hes : es.Sublist L.tiles) (f : Tile → Tile)
    (hf : ∀ t, (f t).coords = t.coords) {e : Bytes × Ref} (he : e ∈ L.tiles) :
    (L.modifyAll (es.map Prod.snd) f hf).heap e.2 = if e ∈ es then f (L.heap e.2) else L.heap e.2 := by
  rw [modifyAll_heap _ (L.refs.sublist (hes.map _))]
  simp only [L.mem_refs_iff hes.subset he]

theorem find_eq_some {e : Bytes × Ref} (he : e ∈ L.tiles) : L.find e.1 = some e.2 :=
  Assoc.lookup_of_mem L.keys he

/-- `_removeTile`. -/
def removeTile (key : Bytes) : Layer :=
  match L.find key with
  | none => L
  | some r =>
    let L' := L.modify r Tile.reclaimTileCanvasMemory Tile.reclaimTileCanvasMemory_coords
    { L' with
      tiles := L.tiles.filter (·.1 ≠ key)
      keys := L.keys.sublist (List.filter_sublist.map _)
      refs := L.refs.sublist (List.filter_sublist.map _)
      keyed := fun e he => L'.keyed e (List.mem_of_mem_filter he)
      fresh := fun e he => L'.fresh e (List.mem_of_mem_filter he) }

theorem removeTile_tiles (key : Bytes) : (L.removeTile key).tiles = L.tiles.filter (·.1 ≠ key) := by
  rw [removeTile]
  cases hfind : L.find key with
  | none =>
    have hno : key ∉ L.tiles.map Prod.fst := Assoc.lookup_eq_none.mp hfind
    refine (List.filter_eq_self.mpr fun e he => ?_).symm
    simp only [ne_eq, decide_not, Bool.not_eq_eq_eq_not, Bool.not_true, decide_eq_false_iff_not]
    exact fun heq => hno (heq ▸ List.mem_map_of_mem he)
  | some r => rfl

/-- A tile that is removed is reclaimed, and no other object changes. -/
theorem removeTile_heap (key : Bytes) (r : Ref) : (L.removeTile key).heap r =
    if L.find key = some r then (L.heap r).reclaimTileCanvasMemory else L.heap r := by
  rw [removeTile]
  cases hfind : L.find key with
  | none => rfl
  | some r' =>
    dsimp only
    rw [modify_heap]
    simp only [Option.some.injEq, eq_comm]

end Layer

/-! ## Which tiles are current -/

/-- The loop at the start of `_update` and of `_updateOnChangePart`: the tiles whose keys do not match
are not current. -/
def Layer.sweep (L : Layer) (zoom selectedPart selectedMode : Int) : Layer :=
  L.modifyAll
    ((L.tiles.filter fun e =>
      match parseKey e.1 with
      | some thiscoords => thiscoords.z ≠ zoom ∨ thiscoords.part ≠ selectedPart ∨
          thiscoords.mode ≠ selectedMode
      | none => true).map Prod.snd)
    (fun t => { t with current := false }) fun _ => rfl

/-- **The tiles that match stay current**, and no others; nothing else of any tile changes. -/
structure KeepsMatching (L L' : Layer) (zoom part mode : Int) : Prop where
  tiles : L'.tiles = L.tiles
  current : ∀ e ∈ L.tiles, L'.heap e.2 =
    { L.heap e.2 with
      current := (L.heap e.2).current &&
        decide ((L.heap e.2).coords.z = zoom ∧ (L.heap e.2).coords.part = part ∧
          (L.heap e.2).coords.mode = mode) }

/-- What the sweep does to a tile of the map: in its key every mode is 0. -/
theorem Layer.sweep_heap (L : Layer) (zoom part mode : Int) {e : Bytes × Ref} (he : e ∈ L.tiles) :
    (L.sweep zoom part mode).heap e.2 =
      { L.heap e.2 with
        current := (L.heap e.2).current &&
          decide ((L.heap e.2).coords.z = zoom ∧ (L.heap e.2).coords.part = part ∧ 0 = mode) } := by
  have hparse : parseKey e.1 = some { (L.heap e.2).coords with mode := 0 } := by
    rw [L.keyed e he, parseKey_key]
  rw [sweep, L.modifyAll_entry List.filter_sublist _ _ he]
  split
  · rename_i hmem
    rw [List.mem_filter, hparse] at hmem
    have hno := hmem.2
    have hnot : ¬ ((L.heap e.2).coords.z = zoom ∧ (L.heap e.2).coords.part = part ∧ 0 = mode) := by
      rintro ⟨hz, hpart, hmode⟩
      simp [hz, hpart, hmode] at hno
    rw [decide_eq_false hnot, Bool.and_false]
  · rename_i hmem
    have hyes : (L.heap e.2).coords.z = zoom ∧ (L.heap e.2).coords.part = part ∧ 0 = mode := by
      by_contra hnot
      refine hmem (List.mem_filter.mpr ⟨he, ?_⟩)
      rw [hparse]
      simpa [imp_iff_not_or] using hnot
    rw [decide_eq_true hyes, Bool.and_true]

/-- The tiles of the zoom and the part that are current are right about the mode of their keys. -/
def ModeInKey (L : Layer) (zoom part mode : Int) : Prop :=
  ∀ e ∈ L.tiles, (L.heap e.2).current = true → (L.heap e.2).coords.z = zoom →
    (L.heap e.2).coords.part = part → ((L.heap e.2).coords.mode = mode ↔ 0 = mode)

theorem Layer.sweep_iff (L : Layer) (zoom part mode : Int) :
    KeepsMatching L (L.sweep zoom part mode) zoom part mode ↔ ModeInKey L zoom part mode := by
  constructor
  · intro hkeeps e he hcurrent hz hpart
    have htile := hkeeps.current e he
    rw [L.sweep_heap zoom part mode he, hcurrent] at htile
    have hflag := congrArg Tile.current htile
    simpa [hz, hpart, iff_comm] using hflag
  · intro hmode
    refine ⟨Layer.modifyAll_tiles _ _ _ _, fun e he => ?_⟩
    rw [L.sweep_heap zoom part mode he]
    cases hcurrent : (L.heap e.2).current with
    | false => simp
    | true =>
      have hflag : ((L.heap e.2).coords.z = zoom ∧ (L.heap e.2).coords.part = part ∧ 0 = mode) ↔
          (L.heap e.2).coords.z = zoom ∧ (L.heap e.2).coords.part = part ∧
            (L.heap e.2).coords.mode = mode := by
        constructor
        · rintro ⟨hz, hpart, hkey⟩
          exact ⟨hz, hpart, (hmode e he hcurrent hz hpart).mpr hkey⟩
        · rintro ⟨hz, hpart, hmatch⟩
          exact ⟨hz, hpart, (hmode e he hcurrent hz hpart).mp hmatch⟩
      rw [decide_eq_decide.mpr hflag]

/-- **Keys are faithful for tiles of mode 0**, and for no others, and the tiles that match stay current
exactly where the keys are right about the mode. -/
theorem keys_faithful_iff (c : TileCoordData) (L : Layer) (zoom part mode : Int) :
    (parseKey c.key = some c ↔ c.mode = 0) ∧
      (KeepsMatching L (L.sweep zoom part mode) zoom part mode ↔ ModeInKey L zoom part mode) := by
  refine ⟨?_, L.sweep_iff zoom part mode⟩
  rw [parseKey_key, Option.some.injEq]
  constructor
  · intro heq
    rw [← heq]
  · intro hmode
    rw [← hmode]

/-- A tile of a master page. -/
def masterTile : TileCoordData := ⟨0, 0, 10, 0, 1⟩

/-- One tile. -/
def oneTile (t : Tile) : Layer where
  heap := fun _ => t
  tiles := [(t.coords.key, 0)]
  next := 1
  gcCounter := 0
  keys := List.nodup_singleton _
  refs := List.nodup_singleton _
  keyed := by simp
  fresh := by simp

/-- Where the master page is shown, its tile is not current after the sweep. -/
theorem not_keys_faithful :
    ¬ ((∀ c : TileCoordData, parseKey c.key = some c) ∧
      ∀ (L : Layer) (zoom part mode : Int),
        KeepsMatching L (L.sweep zoom part mode) zoom part mode) := by
  rintro ⟨-, hsweep⟩
  have hmode := ((oneTile (.new masterTile 0)).sweep_iff 10 0 1).mp (hsweep _ 10 0 1)
  have hkey := (hmode _ List.mem_cons_self rfl rfl rfl).mp rfl
  exact absurd hkey (by decide)

end Oxool.Browser
