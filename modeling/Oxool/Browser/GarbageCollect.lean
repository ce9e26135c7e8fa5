import Mathlib.Data.List.Sort
import Oxool.Browser.Tiles

/-!
# `_garbageCollect` (`browser/src/layer/tile/CanvasTileLayer.js`)

Three passes go over the keys of all tiles: one takes the canvases of the first ones, one their deltas,
one the tiles themselves. The keys are to be sorted by when the tiles were rendered. But the comparison
asks the keys for it, which are texts: `undefined - undefined` is `NaN`, which counts as equal, and a
sort that is stable leaves the keys in the order of insertion.
-/

set_option autoImplicit false

namespace Oxool.Browser

open Oxool.Http (Bytes)

abbrev Entry := Bytes × Ref

def highNumCanvases : Nat := 250
def lowNumCanvases : Nat := 125
def highDeltaMemory : Nat := 120 * 1024 * 1024
def lowDeltaMemory : Nat := 60 * 1024 * 1024
def highTileCount : Nat := 2 * 1024
def lowTileCount : Nat := 1024

/-- The property `lastRendered` of a text. -/
def keyLastRendered (_key : Bytes) : Option Int := none

/-- The comparison of `keys.sort`; `NaN` is taken for 0. -/
def compareKeys (a b : Bytes) : Int :=
  match keyLastRendered b, keyLastRendered a with
  | some b, some a => b - a
  | _, _ => 0

/-- The entries of the keys, sorted. -/
def sortedEntries (tiles : List Entry) : List Entry :=
  tiles.mergeSort fun e e' => compareKeys e.1 e'.1 ≤ 0

namespace Layer

variable (L : Layer)

def hasCanvas (e : Entry) : Bool := (L.heap e.2).canvas.isSome

def deltaSize (e : Entry) : Nat := ((L.heap e.2).rawDeltas.getD []).length

def canvasKeys : List Entry := (sortedEntries L.tiles).filter L.hasCanvas

def totalSize : Nat := ((sortedEntries L.tiles).map L.deltaSize).sum

/-- Trim ourselves down to size. -/
def canvasPass : Layer :=
  if highNumCanvases < L.canvasKeys.length then
    L.modifyAll ((L.canvasKeys.take (L.canvasKeys.length - lowNumCanvases)).map Prod.snd)
      Tile.reclaimTileCanvasMemory Tile.reclaimTileCanvasMemory_coords
  else L

end Layer

/-- What the second pass does to a tile: the next request is one for a keyframe. -/
def Tile.reclaimDeltas (t : Tile) : Tile :=
  { t.reclaimTileCanvasMemory with rawDeltas := none, wireId := 0, invalidFrom := 0 }

theorem Tile.reclaimDeltas_coords (t : Tile) : t.reclaimDeltas.coords = t.coords := rfl

/-- The loop of the second pass. -/
def trimDeltas : List Entry → Nat → Layer → Layer
  | [], _, L => L
  | e :: es, totalSize, L =>
    if lowDeltaMemory < totalSize then
      if (L.heap e.2).rawDeltas.isSome && !(L.heap e.2).current then
        trimDeltas es (totalSize - L.deltaSize e) (L.modify e.2 Tile.reclaimDeltas Tile.reclaimDeltas_coords)
      else trimDeltas es totalSize L
    else L

namespace Layer

variable (L : Layer)

/-- Trim memory down to size. -/
def deltaPass (totalSize : Nat) : Layer :=
  if highDeltaMemory < totalSize then trimDeltas (sortedEntries L.tiles) totalSize L else L

/-- The loop of the third pass. -/
def trimTiles (es : List Entry) : Layer :=
  es.foldl (fun L e => if (L.heap e.2).current then L else L.removeTile e.1) L

/-- Trim the number of tiles down too ... -/
def tilePass : Layer :=
  if highTileCount < L.tiles.length then
    L.trimTiles ((sortedEntries L.tiles).take (L.tiles.length - lowTileCount))
  else L

/-- `_garbageCollect`. -/
def garbageCollect : Layer := (L.canvasPass.deltaPass L.totalSize).tilePass

end Layer

theorem sortedEntries_eq (tiles : List Entry) : sortedEntries tiles = tiles :=
  List.mergeSort_of_pairwise (List.pairwise_of_forall fun _ _ => rfl)

/-! ## What is claimed -/

/-- Both times are known, and the first one is the later. -/
def RenderedLater (t t' : Tile) : Prop :=
  ∃ time time', t.lastRendered = some time ∧ t'.lastRendered = some time' ∧ time' < time

/-- Nothing that is gone was rendered later than something of the kind that could have gone and is
kept. -/
def OldestFirst (L : Layer) (eligible gone : Entry → Prop) : Prop :=
  ∀ e ∈ L.tiles, ∀ e' ∈ L.tiles, eligible e → gone e → eligible e' → ¬ gone e' →
    ¬ RenderedLater (L.heap e.2) (L.heap e'.2)

namespace Layer

variable (L : Layer)

/-- Deltas that the second pass may take. -/
def DeltasEligible (e : Entry) : Bool := (L.heap e.2).rawDeltas.isSome && !(L.heap e.2).current

def deltaBytes : Nat := (L.tiles.map L.deltaSize).sum

def numCanvases : Nat := L.tiles.countP L.hasCanvas

end Layer

/-- **The garbage collector keeps what is in use**: each pass takes the ones first that were rendered
longest ago, nothing but the canvas of a current tile is taken, and what there is too much of is brought
down to the low mark, unless all that is left of it belongs to current tiles. -/
structure KeepsInUse (L : Layer) : Prop where
  canvases : OldestFirst L (fun e => L.hasCanvas e) (fun e => ¬ L.canvasPass.hasCanvas e)
  deltas : OldestFirst L.canvasPass (fun e => L.canvasPass.DeltasEligible e)
    (fun e => ((L.canvasPass.deltaPass L.totalSize).heap e.2).rawDeltas = none)
  tiles : OldestFirst (L.canvasPass.deltaPass L.totalSize)
    (fun e => ((L.canvasPass.deltaPass L.totalSize).heap e.2).current = false)
    (fun e => e ∉ L.garbageCollect.tiles)
  current : ∀ e ∈ L.tiles, (L.heap e.2).current = true →
    e ∈ L.garbageCollect.tiles ∧ (L.garbageCollect.heap e.2).rawDeltas = (L.heap e.2).rawDeltas
  numCanvases : L.numCanvases ≤ highNumCanvases ∨ L.garbageCollect.numCanvases ≤ lowNumCanvases
  deltaBytes : L.deltaBytes ≤ highDeltaMemory ∨ L.garbageCollect.deltaBytes ≤ lowDeltaMemory ∨
    ∀ e ∈ L.garbageCollect.tiles, (L.garbageCollect.heap e.2).rawDeltas.isSome →
      (L.garbageCollect.heap e.2).current = true
  numTiles : L.tiles.length ≤ highTileCount ∨ L.garbageCollect.tiles.length ≤ lowTileCount ∨
    ∀ e ∈ L.garbageCollect.tiles, (L.garbageCollect.heap e.2).current = true

/-! ## The condition -/

/-- Where a list is cut, nothing in front of the cut was rendered later than something behind it. -/
def CutByAge (L : Layer) (front back : List Entry) : Prop :=
  ∀ e ∈ front, ∀ e' ∈ back, ¬ RenderedLater (L.heap e.2) (L.heap e'.2)

/-- The first ones of a list that have to go to bring a total down to the low mark. -/
def toDrop (size : Entry → Nat) : Nat → List Entry → List Entry
  | _, [] => []
  | totalSize, e :: es =>
    if lowDeltaMemory < totalSize then e :: toDrop size (totalSize - size e) es else []

/-- **The order of insertion agrees with the order of rendering** at each cut that is made in it, and
where there are too many tiles, none of the first ones is current or all of the last ones are. -/
structure InsertedByAge (L : Layer) : Prop where
  canvases : highNumCanvases < L.numCanvases →
    let canvases := L.tiles.filter L.hasCanvas
    CutByAge L (canvases.take (canvases.length - lowNumCanvases))
      (canvases.drop (canvases.length - lowNumCanvases))
  deltas : highDeltaMemory < L.deltaBytes →
    let deltas := L.tiles.filter L.DeltasEligible
    CutByAge L (toDrop L.deltaSize L.deltaBytes deltas)
      (deltas.drop (toDrop L.deltaSize L.deltaBytes deltas).length)
  tiles : highTileCount < L.tiles.length →
    let first := L.tiles.take (L.tiles.length - lowTileCount)
    let last := L.tiles.drop (L.tiles.length - lowTileCount)
    CutByAge L (first.filter fun e => !(L.heap e.2).current) (last.filter fun e => !(L.heap e.2).current) ∧
      ((∀ e ∈ first, (L.heap e.2).current = false) ∨ ∀ e ∈ last, (L.heap e.2).current = true)

/-! ## What the passes leave alone -/

section Frames

/-- A relation to what was there before, of all that a change of a tile may leave. -/
structure Frame (R : Tile → Tile → Prop) : Prop where
  refl : ∀ t, R t t
  trans : ∀ {t t' t''}, R t t' → R t' t'' → R t t''

/-- What does not change. -/
theorem frame_eq {α : Type} (p : Tile → α) : Frame fun t t' => p t = p t' :=
  ⟨fun _ => rfl, Eq.trans⟩

/-- What is not there anew. -/
theorem frame_imp (p : Tile → Prop) : Frame fun t t' => p t → p t' :=
  ⟨fun _ => id, fun h h' => h' ∘ h⟩

variable {R : Tile → Tile → Prop} (hR : Frame R) (L : Layer)

include hR

theorem Layer.modify_frame {f : Tile → Tile} (hf : ∀ t, R (f t) t) (r₀ : Ref)
    (hcoords : ∀ t, (f t).coords = t.coords) (r : Ref) :
    R ((L.modify r₀ f hcoords).heap r) (L.heap r) := by
  rw [Layer.modify_heap]
  split
  · exact hf _
  · exact hR.refl _

theorem Layer.modifyAll_frame {f : Tile → Tile} (hf : ∀ t, R (f t) t) (rs : List Ref)
    (hcoords : ∀ t, (f t).coords = t.coords) (r : Ref) :
    R ((L.modifyAll rs f hcoords).heap r) (L.heap r) := by
  induction rs generalizing L with
  | nil => exact hR.refl _
  | cons r₀ rs ih => exact hR.trans (ih _) (L.modify_frame hR hf r₀ hcoords r)

theorem Layer.canvasPass_frame (hf : ∀ t : Tile, R t.reclaimTileCanvasMemory t) (r : Ref) :
    R (L.canvasPass.heap r) (L.heap r) := by
  rw [canvasPass]
  split
  · exact L.modifyAll_frame hR hf _ _ r
  · exact hR.refl _

theorem trimDeltas_frame (hf : ∀ t : Tile, R t.reclaimDeltas t) (es : List Entry) (totalSize : Nat)
    (r : Ref) : R ((trimDeltas es totalSize L).heap r) (L.heap r) := by
  induction es generalizing L totalSize with
  | nil => exact hR.refl _
  | cons e es ih =>
    rw [trimDeltas]
    split_ifs
    · exact hR.trans (ih _ _) (L.modify_frame hR hf _ _ r)
    · exact ih _ _
    · exact hR.refl _

theorem Layer.deltaPass_frame (hf : ∀ t : Tile, R t.reclaimDeltas t) (totalSize : Nat) (r : Ref) :
    R ((L.deltaPass totalSize).heap r) (L.heap r) := by
  rw [deltaPass]
  split
  · exact trimDeltas_frame hR L hf _ _ r
  · exact hR.refl _

theorem Layer.trimTiles_frame (hf : ∀ t : Tile, R t.reclaimTileCanvasMemory t) (es : List Entry)
    (r : Ref) : R ((L.trimTiles es).heap r) (L.heap r) := by
  induction es generalizing L with
  | nil => exact hR.refl _
  | cons e es ih =>
    rw [trimTiles, List.foldl_cons, ← trimTiles]
    refine hR.trans (ih _) ?_
    split
    · exact hR.refl _
    · rw [removeTile_heap]
      split
      · exact hf _
      · exact hR.refl _

theorem Layer.tilePass_frame (hf : ∀ t : Tile, R t.reclaimTileCanvasMemory t) (r : Ref) :
    R (L.tilePass.heap r) (L.heap r) := by
  rw [tilePass]
  split
  · exact L.trimTiles_frame hR hf _ r
  · exact hR.refl _

/-- What both passes before the last one leave. -/
theorem Layer.passes_frame (hf : ∀ t : Tile, R t.reclaimTileCanvasMemory t)
    (hf' : ∀ t : Tile, R t.reclaimDeltas t) (totalSize : Nat) (r : Ref) :
    R ((L.canvasPass.deltaPass totalSize).heap r) (L.heap r) :=
  hR.trans (L.canvasPass.deltaPass_frame hR hf' totalSize r) (L.canvasPass_frame hR hf r)

omit hR

theorem Layer.canvasPass_tiles : L.canvasPass.tiles = L.tiles := by
  rw [canvasPass]
  split
  · exact L.modifyAll_tiles _ _ _
  · rfl

theorem trimDeltas_tiles (es : List Entry) (totalSize : Nat) :
    (trimDeltas es totalSize L).tiles = L.tiles := by
  induction es generalizing L totalSize with
  | nil => rfl
  | cons e es ih =>
    rw [trimDeltas]
    split_ifs
    · exact ih _ _
    · exact ih _ _
    · rfl

theorem Layer.deltaPass_tiles (totalSize : Nat) : (L.deltaPass totalSize).tiles = L.tiles := by
  rw [deltaPass]
  split
  · exact trimDeltas_tiles _ _ _
  · rfl

end Frames

/-! ## Order -/

theorem cutByAge_congr {L L' : Layer}
    (h : ∀ r, (L'.heap r).lastRendered = (L.heap r).lastRendered) (front back : List Entry) :
    CutByAge L' front back ↔ CutByAge L front back := by
  simp only [CutByAge, RenderedLater, h]

/-- **A pass that takes the front of the list of those that may go** takes the oldest first exactly where
the list is cut by age. -/
theorem oldestFirst_iff {L : Layer} {eligible : Entry → Bool} {gone : Entry → Prop}
    {front back : List Entry} (hsplit : L.tiles.filter eligible = front ++ back)
    (hgone : ∀ e ∈ L.tiles, eligible e = true → (gone e ↔ e ∈ front)) :
    OldestFirst L (fun e => eligible e = true) gone ↔ CutByAge L front back := by
  have hnodup : (front ++ back).Nodup := hsplit ▸ (L.refs.of_map _).filter _
  have hmem : ∀ e, e ∈ front ++ back ↔ e ∈ L.tiles ∧ eligible e = true := by
    intro e
    rw [← hsplit, List.mem_filter]
  constructor
  · intro h e he e' he'
    obtain ⟨hin, hel⟩ := (hmem e).mp (List.mem_append_left _ he)
    obtain ⟨hin', hel'⟩ := (hmem e').mp (List.mem_append_right _ he')
    refine h e hin e' hin' hel ((hgone e hin hel).mpr he) hel' ?_
    rw [hgone e' hin' hel']
    exact fun hfront => List.disjoint_of_nodup_append hnodup hfront he'
  · intro h e hin e' hin' hel hgo hel' hkept
    have he' := ((hmem e').mpr ⟨hin', hel'⟩)
    rw [hgone e' hin' hel'] at hkept
    exact h e ((hgone e hin hel).mp hgo) e' ((List.mem_append.mp he').resolve_left hkept)

/-- What is behind the front of a list. -/
theorem filter_notMem_take {l : List Entry} (hl : l.Nodup) (k : Nat) :
    (l.filter fun e => !decide (e ∈ l.take k)) = l.drop k := by
  have hsplit := List.take_append_drop k l
  have hdisjoint := List.disjoint_of_nodup_append (hsplit.symm ▸ hl)
  have hfront : ((l.take k).filter fun e => !decide (e ∈ l.take k)) = [] := by
    rw [List.filter_eq_nil_iff]
    intro e he
    simp [he]
  have hback : ((l.drop k).filter fun e => !decide (e ∈ l.take k)) = l.drop k := by
    rw [List.filter_eq_self]
    intro e he
    simpa using fun hmem => hdisjoint hmem he
  calc (l.filter fun e => !decide (e ∈ l.take k))
      = ((l.take k ++ l.drop k).filter fun e => !decide (e ∈ l.take k)) := by rw [hsplit]
    _ = l.drop k := by rw [List.filter_append, hfront, hback, List.nil_append]

/-! ## Canvases -/

namespace Layer

variable (L : Layer)

theorem canvasKeys_eq : L.canvasKeys = L.tiles.filter L.hasCanvas := by
  rw [canvasKeys, sortedEntries_eq]

/-- The canvases that the first pass takes. -/
def canvasesTaken : List Entry :=
  if highNumCanvases < L.canvasKeys.length then
    L.canvasKeys.take (L.canvasKeys.length - lowNumCanvases)
  else []

theorem canvasesTaken_sublist : L.canvasesTaken.Sublist L.tiles := by
  rw [canvasesTaken, canvasKeys_eq]
  split
  · exact (List.take_sublist _ _).trans List.filter_sublist
  · exact List.nil_sublist _

theorem canvasPass_hasCanvas {e : Entry} (he : e ∈ L.tiles) :
    L.canvasPass.hasCanvas e = (L.hasCanvas e && !decide (e ∈ L.canvasesTaken)) := by
  have hsub := L.canvasesTaken_sublist
  rw [hasCanvas, canvasPass]
  rw [canvasesTaken] at hsub ⊢
  split
  · rename_i hmany
    rw [if_pos hmany] at hsub
    rw [L.modifyAll_entry hsub _ _ he]
    split
    · rename_i hmem
      simp [Tile.reclaimTileCanvasMemory, hmem]
    · rename_i hmem
      simp [hmem, hasCanvas]
  · simp [hasCanvas]

theorem canvases_iff : OldestFirst L (fun e => L.hasCanvas e) (fun e => ¬ L.canvasPass.hasCanvas e) ↔
    (highNumCanvases < L.numCanvases →
      let canvases := L.tiles.filter L.hasCanvas
      CutByAge L (canvases.take (canvases.length - lowNumCanvases))
        (canvases.drop (canvases.length - lowNumCanvases))) := by
  have hgone : ∀ e ∈ L.tiles, L.hasCanvas e = true →
      (¬ L.canvasPass.hasCanvas e ↔ e ∈ L.canvasesTaken) := by
    intro e he hcanvas
    rw [L.canvasPass_hasCanvas he, hcanvas]
    simp
  have hnum : L.numCanvases = L.canvasKeys.length := by
    rw [canvasKeys_eq, numCanvases, List.countP_eq_length_filter]
  by_cases hmany : highNumCanvases < L.canvasKeys.length
  · rw [canvasesTaken, if_pos hmany, canvasKeys_eq] at hgone
    rw [hnum, oldestFirst_iff (List.take_append_drop _ _).symm hgone]
    exact ⟨fun h _ => h, fun h => h hmany⟩
  · rw [canvasesTaken, if_neg hmany] at hgone
    rw [hnum, oldestFirst_iff (List.nil_append _).symm hgone]
    exact ⟨fun _ h => absurd h hmany, fun _ e he => absurd he List.not_mem_nil⟩

/-- The first pass leaves as many canvases as the low mark says. -/
theorem numCanvases_canvasPass :
    L.numCanvases ≤ highNumCanvases ∨ L.canvasPass.numCanvases ≤ lowNumCanvases := by
  have hnum : L.numCanvases = L.canvasKeys.length := by
    rw [canvasKeys_eq, numCanvases, List.countP_eq_length_filter]
  by_cases hmany : highNumCanvases < L.canvasKeys.length
  · right
    have hnodup : (L.tiles.filter L.hasCanvas).Nodup := (L.refs.of_map _).filter _
    have hleft : L.tiles.filter L.canvasPass.hasCanvas =
        (L.tiles.filter L.hasCanvas).filter fun e => !decide (e ∈ L.canvasesTaken) := by
      rw [List.filter_filter]
      refine List.filter_congr fun e he => ?_
      rw [L.canvasPass_hasCanvas he, Bool.and_comm]
    rw [numCanvases, canvasPass_tiles, List.countP_eq_length_filter, hleft, canvasesTaken, if_pos hmany,
      canvasKeys_eq]
    rw [canvasKeys_eq] at hmany
    rw [filter_notMem_take hnodup, List.length_drop, lowNumCanvases]
    rw [highNumCanvases] at hmany
    omega
  · left
    omega

end Layer

/-! ## Deltas -/

theorem toDrop_congr {size size' : Entry → Nat} (es : List Entry) (h : ∀ e ∈ es, size e = size' e)
    (totalSize : Nat) : toDrop size totalSize es = toDrop size' totalSize es := by
  induction es generalizing totalSize with
  | nil => rfl
  | cons e es ih =>
    rw [toDrop, toDrop, h e List.mem_cons_self, ih fun e' he' => h e' (List.mem_cons_of_mem _ he')]

theorem toDrop_enough (size : Entry → Nat) {totalSize : Nat} (h : ¬ lowDeltaMemory < totalSize)
    (es : List Entry) : toDrop size totalSize es = [] := by
  cases es with
  | nil => rfl
  | cons e es => rw [toDrop, if_neg h]

theorem toDrop_append_drop (size : Entry → Nat) (totalSize : Nat) (es : List Entry) :
    toDrop size totalSize es ++ es.drop (toDrop size totalSize es).length = es := by
  induction es generalizing totalSize with
  | nil => rfl
  | cons e es ih =>
    rw [toDrop]
    split
    · rw [List.length_cons, List.drop_succ_cons, List.cons_append, ih]
    · rfl

theorem toDrop_sublist (size : Entry → Nat) (totalSize : Nat) (es : List Entry) :
    (toDrop size totalSize es).Sublist es := by
  have h := List.sublist_append_left (toDrop size totalSize es)
    (es.drop (toDrop size totalSize es).length)
  rwa [toDrop_append_drop] at h

/-- The deltas of one tile are taken: those of the others stay. -/
theorem Layer.modify_entry (L : Layer) {f : Tile → Tile} (hf : ∀ t, (f t).coords = t.coords)
    {e e' : Entry} (hne : e'.2 ≠ e.2) : (L.modify e.2 f hf).heap e'.2 = L.heap e'.2 := by
  rw [Layer.modify_heap, if_neg hne]

/-- **The loop takes the deltas of the first tiles that may go**, until enough has gone. -/
theorem trimDeltas_eq {es : List Entry} (hes : (es.map Prod.snd).Nodup) (totalSize : Nat) (L : Layer) :
    trimDeltas es totalSize L =
      L.modifyAll ((toDrop L.deltaSize totalSize (es.filter L.DeltasEligible)).map Prod.snd)
        Tile.reclaimDeltas Tile.reclaimDeltas_coords := by
  induction es generalizing L totalSize with
  | nil => rfl
  | cons e es ih =>
    rw [List.map_cons, List.nodup_cons] at hes
    rw [trimDeltas]
    by_cases hmore : lowDeltaMemory < totalSize
    · rw [if_pos hmore]
      by_cases hel : L.DeltasEligible e = true
      · have hother : ∀ e' ∈ es, (L.modify e.2 Tile.reclaimDeltas Tile.reclaimDeltas_coords).heap e'.2 =
            L.heap e'.2 := fun e' he' =>
          L.modify_entry _ fun heq => hes.1 (heq ▸ List.mem_map_of_mem he')
        have hfilter : es.filter (L.modify e.2 Tile.reclaimDeltas Tile.reclaimDeltas_coords).DeltasEligible =
            es.filter L.DeltasEligible := by
          refine List.filter_congr fun e' he' => ?_
          rw [Layer.DeltasEligible, Layer.DeltasEligible, hother e' he']
        have hdrop := toDrop_congr (es.filter L.DeltasEligible) (fun e' he' => (by
          rw [Layer.deltaSize, Layer.deltaSize, hother e' (List.mem_of_mem_filter he')] :
          (L.modify e.2 Tile.reclaimDeltas Tile.reclaimDeltas_coords).deltaSize e' = L.deltaSize e'))
          (totalSize - L.deltaSize e)
        rw [List.filter_cons_of_pos hel, toDrop, if_pos hmore]
        rw [Layer.DeltasEligible] at hel
        rw [if_pos hel, ih hes.2, hfilter, hdrop]
        rfl
      · rw [List.filter_cons_of_neg hel]
        rw [Layer.DeltasEligible] at hel
        rw [if_neg hel]
        exact ih hes.2 totalSize L
    · rw [if_neg hmore, toDrop_enough _ hmore]
      rfl

namespace Layer

variable (L : Layer)

theorem totalSize_eq : L.totalSize = L.deltaBytes := by rw [totalSize, sortedEntries_eq, deltaBytes]

theorem deltas_iff (totalSize : Nat) : OldestFirst L (fun e => L.DeltasEligible e)
      (fun e => ((L.deltaPass totalSize).heap e.2).rawDeltas = none) ↔
    (highDeltaMemory < totalSize →
      let deltas := L.tiles.filter L.DeltasEligible
      CutByAge L (toDrop L.deltaSize totalSize deltas)
        (deltas.drop (toDrop L.deltaSize totalSize deltas).length)) := by
  by_cases hmuch : highDeltaMemory < totalSize
  · rw [oldestFirst_iff (toDrop_append_drop L.deltaSize totalSize _).symm]
    · exact ⟨fun h _ => h, fun h => h hmuch⟩
    · intro e he hel
      rw [deltaPass, if_pos hmuch, sortedEntries_eq, trimDeltas_eq L.refs, L.modifyAll_entry
        ((toDrop_sublist _ _ _).trans List.filter_sublist) _ _ he]
      rw [DeltasEligible, Bool.and_eq_true, Option.isSome_iff_ne_none] at hel
      split
      · exact iff_of_true rfl ‹_›
      · exact iff_of_false hel.1 ‹_›
  · rw [oldestFirst_iff (List.nil_append _).symm]
    · exact ⟨fun _ h => absurd h hmuch, fun _ e he => absurd he List.not_mem_nil⟩
    · intro e he hel
      rw [deltaPass, if_neg hmuch]
      rw [DeltasEligible, Bool.and_eq_true, Option.isSome_iff_ne_none] at hel
      exact iff_of_false hel.1 List.not_mem_nil

/-- What a tile had is gone from the total. -/
theorem deltaBytes_modify {e : Entry} (he : e ∈ L.tiles) :
    (L.modify e.2 Tile.reclaimDeltas Tile.reclaimDeltas_coords).deltaBytes =
      L.deltaBytes - L.deltaSize e := by
  obtain ⟨before, after, hsplit⟩ := List.append_of_mem he
  have hrefs := L.refs
  rw [hsplit, List.map_append, List.map_cons, List.nodup_middle, List.nodup_cons, ← List.map_append]
    at hrefs
  have hother : ∀ e' ∈ before ++ after,
      (L.modify e.2 Tile.reclaimDeltas Tile.reclaimDeltas_coords).deltaSize e' = L.deltaSize e' := by
    intro e' he'
    rw [deltaSize, L.modify_entry _ fun heq => hrefs.1 (heq ▸ List.mem_map_of_mem he'), deltaSize]
  have hthis : (L.modify e.2 Tile.reclaimDeltas Tile.reclaimDeltas_coords).deltaSize e = 0 := by
    rw [deltaSize, modify_heap, if_pos rfl]
    rfl
  rw [deltaBytes, deltaBytes, modify_tiles, hsplit, List.map_append, List.map_append, List.map_cons,
    List.map_cons, hthis, List.map_congr_left fun e' he' => hother e' (List.mem_append_left _ he'),
    List.map_congr_left fun e' he' => hother e' (List.mem_append_right _ he')]
  simp only [List.sum_append, List.sum_cons]
  omega

end Layer

/-- What may not go once may not go later. -/
theorem trimDeltas_notEligible (es : List Entry) (totalSize : Nat) {L : Layer} {e : Entry}
    (h : L.DeltasEligible e = false) : (trimDeltas es totalSize L).DeltasEligible e = false := by
  induction es generalizing L totalSize with
  | nil => exact h
  | cons e' es ih =>
    rw [trimDeltas]
    split_ifs
    · refine ih _ ?_
      rw [Layer.DeltasEligible, Layer.modify_heap]
      split
      · rfl
      · exact h
    · exact ih _ h
    · exact h

/-- **The loop comes down to the low mark**, or to the end of the tiles that may go. -/
theorem trimDeltas_low {es : List Entry} (L : Layer) (hes : es ⊆ L.tiles) :
    (trimDeltas es L.deltaBytes L).deltaBytes ≤ lowDeltaMemory ∨
      ∀ e ∈ es, (trimDeltas es L.deltaBytes L).DeltasEligible e = false := by
  induction es generalizing L with
  | nil => exact .inr fun e he => absurd he List.not_mem_nil
  | cons e es ih =>
    have he := hes List.mem_cons_self
    have hrest : es ⊆ L.tiles := fun e' he' => hes (List.mem_cons_of_mem _ he')
    rw [trimDeltas]
    split_ifs with hmore hel
    · have hnext := ih (L.modify e.2 Tile.reclaimDeltas Tile.reclaimDeltas_coords) hrest
      rw [L.deltaBytes_modify he] at hnext
      refine hnext.imp_right fun hgone e' he' => ?_
      rcases List.mem_cons.mp he' with rfl | he'
      · refine trimDeltas_notEligible es _ ?_
        rw [Layer.DeltasEligible, Layer.modify_heap, if_pos rfl]
        rfl
      · exact hgone e' he'
    · refine (ih L hrest).imp_right fun hgone e' he' => ?_
      rcases List.mem_cons.mp he' with rfl | he'
      · exact trimDeltas_notEligible es _ (Bool.eq_false_iff.mpr hel)
      · exact hgone e' he'
    · exact .inl (not_lt.mp hmore)

/-! ## Tiles -/

namespace Layer

variable (L : Layer)

/-- **The loop removes the tiles that are not current.** -/
theorem trimTiles_tiles {es : List Entry} (hnodup : es.Nodup) (hes : es ⊆ L.tiles) :
    (L.trimTiles es).tiles =
      L.tiles.filter fun e => !(decide (e ∈ es) && !(L.heap e.2).current) := by
  induction es generalizing L with
  | nil => simp [trimTiles]
  | cons e es ih =>
    rw [List.nodup_cons] at hnodup
    have he := hes List.mem_cons_self
    have hrest : es ⊆ L.tiles := fun e' he' => hes (List.mem_cons_of_mem _ he')
    rw [trimTiles, List.foldl_cons, ← trimTiles]
    split
    · rename_i hcurrent
      rw [ih L hnodup.2 hrest]
      refine List.filter_congr fun e' _ => ?_
      by_cases heq : e' = e
      · rw [heq, hcurrent]
        simp
      · simp [heq]
    · rename_i hcurrent
      have hkey : ∀ e' ∈ L.tiles, e'.1 = e.1 ↔ e' = e := fun e' he' =>
        ⟨fun h => List.inj_on_of_nodup_map L.keys he' he h, fun h => h ▸ rfl⟩
      have hsame : ∀ r, ((L.removeTile e.1).heap r).current = (L.heap r).current := by
        intro r
        rw [removeTile_heap]
        split <;> rfl
      rw [ih (L.removeTile e.1) hnodup.2, removeTile_tiles, List.filter_filter]
      · refine List.filter_congr fun e' he' => ?_
        rw [hsame]
        by_cases heq : e' = e
        · simp [heq, hcurrent]
        · have hne : ¬ e'.1 = e.1 := fun h => heq ((hkey e' he').mp h)
          simp [heq, hne]
      · intro e' he'
        rw [removeTile_tiles, List.mem_filter]
        refine ⟨hrest he', ?_⟩
        have hne : ¬ e'.1 = e.1 := fun h => hnodup.1 ((hkey e' (hrest he')).mp h ▸ he')
        simpa using hne

/-- The tiles the third pass looks at. -/
def window : List Entry :=
  if highTileCount < L.tiles.length then L.tiles.take (L.tiles.length - lowTileCount) else []

theorem tilePass_tiles : L.tilePass.tiles =
    L.tiles.filter fun e => !(decide (e ∈ L.window) && !(L.heap e.2).current) := by
  rw [tilePass, window, sortedEntries_eq]
  split
  · exact L.trimTiles_tiles ((L.refs.of_map _).sublist (List.take_sublist _ _)) (List.take_subset _ _)
  · simp

theorem tiles_iff : OldestFirst L (fun e => (L.heap e.2).current = false) (fun e => e ∉ L.tilePass.tiles) ↔
    (highTileCount < L.tiles.length →
      CutByAge L ((L.tiles.take (L.tiles.length - lowTileCount)).filter fun e => !(L.heap e.2).current)
        ((L.tiles.drop (L.tiles.length - lowTileCount)).filter fun e => !(L.heap e.2).current)) := by
  have heligible : (fun e : Entry => (L.heap e.2).current = false) =
      fun e => (!(L.heap e.2).current) = true := by
    funext e
    simp
  have hgone : ∀ e ∈ L.tiles, (!(L.heap e.2).current) = true →
      (e ∉ L.tilePass.tiles ↔ e ∈ L.window.filter fun e => !(L.heap e.2).current) := by
    intro e he hcurrent
    rw [tilePass_tiles, List.mem_filter, List.mem_filter, hcurrent]
    simp [he]
  rw [heligible]
  by_cases hmany : highTileCount < L.tiles.length
  · rw [window, if_pos hmany] at hgone
    rw [oldestFirst_iff (by rw [← List.filter_append, List.take_append_drop]) hgone]
    exact ⟨fun h _ => h, fun h => h hmany⟩
  · rw [window, if_neg hmany] at hgone
    rw [oldestFirst_iff (List.nil_append _).symm hgone]
    exact ⟨fun _ h => absurd h hmany, fun _ e he => absurd he List.not_mem_nil⟩

/-- The tiles that are left: the current ones of those that were looked at, and all others. -/
theorem tilePass_tiles_append (hmany : highTileCount < L.tiles.length) : L.tilePass.tiles =
    (L.tiles.take (L.tiles.length - lowTileCount)).filter (fun e => (L.heap e.2).current) ++
      L.tiles.drop (L.tiles.length - lowTileCount) := by
  have hnodup : L.tiles.Nodup := L.refs.of_map _
  have hsplit := List.take_append_drop (L.tiles.length - lowTileCount) L.tiles
  have hdisjoint := List.disjoint_of_nodup_append (hsplit.symm ▸ hnodup)
  rw [tilePass_tiles, window, if_pos hmany]
  calc L.tiles.filter (fun e =>
        !(decide (e ∈ L.tiles.take (L.tiles.length - lowTileCount)) && !(L.heap e.2).current))
      = (L.tiles.take (L.tiles.length - lowTileCount) ++
          L.tiles.drop (L.tiles.length - lowTileCount)).filter (fun e =>
        !(decide (e ∈ L.tiles.take (L.tiles.length - lowTileCount)) && !(L.heap e.2).current)) := by
        rw [hsplit]
    _ = _ := by
      rw [List.filter_append]
      refine congrArg₂ (· ++ ·) ?_ ?_
      · refine List.filter_congr fun e he => ?_
        simp [he]
      · rw [List.filter_eq_self]
        intro e he
        have hnot : e ∉ L.tiles.take (L.tiles.length - lowTileCount) := fun h => hdisjoint h he
        simp [hnot]

/-- The third pass comes down to the low mark, or to current tiles, exactly where it looks at no current
tile or leaves only such. -/
theorem numTiles_iff : (L.tiles.length ≤ highTileCount ∨ L.tilePass.tiles.length ≤ lowTileCount ∨
      ∀ e ∈ L.tilePass.tiles, (L.heap e.2).current = true) ↔
    (highTileCount < L.tiles.length →
      (∀ e ∈ L.tiles.take (L.tiles.length - lowTileCount), (L.heap e.2).current = false) ∨
        ∀ e ∈ L.tiles.drop (L.tiles.length - lowTileCount), (L.heap e.2).current = true) := by
  by_cases hmany : highTileCount < L.tiles.length
  · have hlow : lowTileCount ≤ L.tiles.length := le_trans (by decide) (le_of_lt hmany)
    rw [L.tilePass_tiles_append hmany, List.length_append, List.length_drop, Nat.sub_sub_self hlow]
    have hnone : ((L.tiles.take (L.tiles.length - lowTileCount)).filter fun e =>
          (L.heap e.2).current).length + lowTileCount ≤ lowTileCount ↔
        ∀ e ∈ L.tiles.take (L.tiles.length - lowTileCount), (L.heap e.2).current = false := by
      rw [add_le_iff_nonpos_left, Nat.le_zero, List.length_eq_zero_iff, List.filter_eq_nil_iff]
      simp
    have hall : (∀ e ∈ (L.tiles.take (L.tiles.length - lowTileCount)).filter (fun e =>
          (L.heap e.2).current) ++ L.tiles.drop (L.tiles.length - lowTileCount),
            (L.heap e.2).current = true) ↔
        ∀ e ∈ L.tiles.drop (L.tiles.length - lowTileCount), (L.heap e.2).current = true := by
      constructor
      · exact fun h e he => h e (List.mem_append_right _ he)
      · intro h e he
        rcases List.mem_append.mp he with he | he
        · exact (List.mem_filter.mp he).2
        · exact h e he
    rw [hnone, hall]
    exact ⟨fun h _ => h.resolve_left (not_le.mpr hmany), fun h => .inr (h hmany)⟩
  · exact iff_of_true (.inl (not_lt.mp hmany)) fun h => absurd h hmany

end Layer

/-! ## All passes -/

namespace Layer

variable (L : Layer)

theorem garbageCollect_tiles_sublist : L.garbageCollect.tiles.Sublist L.tiles := by
  rw [garbageCollect, tilePass_tiles, deltaPass_tiles, canvasPass_tiles]
  exact List.filter_sublist

theorem trimDeltas_gcCounter (es : List Entry) (totalSize : Nat) (L : Layer) :
    (trimDeltas es totalSize L).gcCounter = L.gcCounter := by
  induction es generalizing L totalSize with
  | nil => rfl
  | cons e es ih =>
    rw [trimDeltas]
    split_ifs
    · exact ih _ _
    · exact ih _ _
    · rfl

theorem removeTile_gcCounter (key : Bytes) : (L.removeTile key).gcCounter = L.gcCounter := by
  rw [removeTile]
  cases L.find key with
  | none => rfl
  | some r => rfl

theorem trimTiles_gcCounter (es : List Entry) : (L.trimTiles es).gcCounter = L.gcCounter := by
  induction es generalizing L with
  | nil => rfl
  | cons e es ih =>
    rw [trimTiles, List.foldl_cons, ← trimTiles, ih]
    split
    · rfl
    · exact L.removeTile_gcCounter e.1

/-- A collection is not counted. -/
theorem garbageCollect_gcCounter : L.garbageCollect.gcCounter = L.gcCounter := by
  have hcanvases : L.canvasPass.gcCounter = L.gcCounter := by
    rw [canvasPass]
    split
    · exact L.modifyAll_gcCounter _ _ _
    · rfl
  have hdeltas : ∀ (L' : Layer) (totalSize : Nat), (L'.deltaPass totalSize).gcCounter = L'.gcCounter := by
    intro L' totalSize
    rw [deltaPass]
    split
    · exact trimDeltas_gcCounter _ _ _
    · rfl
  have htiles : ∀ L' : Layer, L'.tilePass.gcCounter = L'.gcCounter := by
    intro L'
    rw [tilePass]
    split
    · exact L'.trimTiles_gcCounter _
    · rfl
  rw [garbageCollect, htiles, hdeltas, hcanvases]

/-- Later passes only take canvases away. -/
theorem hasCanvas_of_garbageCollect {e : Entry} (h : L.garbageCollect.hasCanvas e = true) :
    L.canvasPass.hasCanvas e = true := by
  have hframe := frame_imp fun t => t.canvas.isSome = true
  have hdeltas := L.canvasPass.deltaPass_frame hframe (fun _ h => nomatch h) L.totalSize e.2
  exact hdeltas ((L.canvasPass.deltaPass L.totalSize).tilePass_frame hframe (fun _ h => nomatch h) e.2 h)

theorem numCanvases_low :
    L.numCanvases ≤ highNumCanvases ∨ L.garbageCollect.numCanvases ≤ lowNumCanvases := by
  refine L.numCanvases_canvasPass.imp_right fun hlow => le_trans ?_ hlow
  have hsub := L.garbageCollect_tiles_sublist
  rw [← L.canvasPass_tiles] at hsub
  exact (hsub.countP_le).trans (List.countP_mono_left fun e _ => L.hasCanvas_of_garbageCollect)

theorem deltaSize_canvasPass : L.canvasPass.deltaSize = L.deltaSize := by
  funext e
  rw [deltaSize, deltaSize, L.canvasPass_frame (frame_eq Tile.rawDeltas) (fun _ => rfl) e.2]

theorem deltasEligible_canvasPass : L.canvasPass.DeltasEligible = L.DeltasEligible := by
  funext e
  rw [DeltasEligible, DeltasEligible, L.canvasPass_frame (frame_eq Tile.rawDeltas) (fun _ => rfl) e.2,
    L.canvasPass_frame (frame_eq Tile.current) (fun _ => rfl) e.2]

theorem deltaBytes_canvasPass : L.canvasPass.deltaBytes = L.deltaBytes := by
  rw [deltaBytes, deltaBytes, canvasPass_tiles, deltaSize_canvasPass]

/-- The third pass keeps deltas, or takes the tile. -/
theorem tilePass_rawDeltas (r : Ref) : (L.tilePass.heap r).rawDeltas = (L.heap r).rawDeltas :=
  L.tilePass_frame (frame_eq Tile.rawDeltas) (fun _ => rfl) r

theorem deltaBytes_low : L.deltaBytes ≤ highDeltaMemory ∨ L.garbageCollect.deltaBytes ≤ lowDeltaMemory ∨
    ∀ e ∈ L.garbageCollect.tiles, (L.garbageCollect.heap e.2).rawDeltas.isSome →
      (L.garbageCollect.heap e.2).current = true := by
  by_cases hmuch : highDeltaMemory < L.deltaBytes
  · right
    have hpass : L.canvasPass.deltaPass L.totalSize =
        trimDeltas L.canvasPass.tiles L.canvasPass.deltaBytes L.canvasPass := by
      rw [totalSize_eq, deltaPass, if_pos hmuch, sortedEntries_eq, deltaBytes_canvasPass]
    have hlow := trimDeltas_low L.canvasPass (List.Subset.refl _)
    rw [← hpass] at hlow
    refine hlow.imp (fun hbytes => le_trans ?_ hbytes) fun hgone e he hsome => ?_
    · have hsize : L.garbageCollect.deltaSize = (L.canvasPass.deltaPass L.totalSize).deltaSize := by
        funext e
        rw [deltaSize, deltaSize, garbageCollect, tilePass_rawDeltas]
      have hsub := L.garbageCollect_tiles_sublist
      rw [deltaBytes, deltaBytes, hsize, deltaPass_tiles, canvasPass_tiles]
      exact (hsub.map _).sum_le_sum fun _ _ => Nat.zero_le _
    · have hin : e ∈ L.canvasPass.tiles := by
        rw [canvasPass_tiles]
        exact L.garbageCollect_tiles_sublist.subset he
      have hnot := hgone e hin
      rw [garbageCollect, tilePass_rawDeltas] at hsome
      rw [DeltasEligible, hsome, Bool.true_and, Bool.not_eq_false'] at hnot
      exact (tilePass_frame (frame_eq Tile.current) _ (fun _ => rfl) e.2).trans hnot
  · exact .inl (not_lt.mp hmuch)

/-- **Nothing of a current tile is taken** but its canvas. -/
theorem keeps_current {e : Entry} (he : e ∈ L.tiles) (hcurrent : (L.heap e.2).current = true) :
    e ∈ L.garbageCollect.tiles ∧ (L.garbageCollect.heap e.2).rawDeltas = (L.heap e.2).rawDeltas := by
  have hsame := L.passes_frame (frame_eq Tile.current) (fun _ => rfl) (fun _ => rfl) L.totalSize e.2
  rw [hcurrent] at hsame
  constructor
  · rw [garbageCollect, tilePass_tiles, List.mem_filter, deltaPass_tiles, canvasPass_tiles, hsame]
    exact ⟨he, by simp⟩
  · have hcanvas := L.canvasPass_frame (frame_eq Tile.current) (fun _ => rfl) e.2
    have hnot : L.canvasPass.DeltasEligible e = false := by
      rw [DeltasEligible, hcanvas, hcurrent, Bool.not_true, Bool.and_false]
    have hkept := L.canvasPass_frame (frame_eq Tile.rawDeltas) (fun _ => rfl) e.2
    have hin : e ∈ L.canvasPass.tiles := L.canvasPass_tiles ▸ he
    rw [garbageCollect, tilePass_rawDeltas, deltaPass]
    split
    · rw [sortedEntries_eq, trimDeltas_eq L.canvasPass.refs, modifyAll_entry _
        ((toDrop_sublist _ _ _).trans List.filter_sublist) _ _ hin, if_neg, hkept]
      intro hdrop
      have hel := (List.mem_filter.mp ((toDrop_sublist _ _ _).subset hdrop)).2
      rw [hnot] at hel
      cases hel
    · exact hkept

/-- **The garbage collector keeps what is in use exactly where tiles were inserted by age.** -/
theorem keepsInUse_iff : KeepsInUse L ↔ InsertedByAge L := by
  have hrendered := L.passes_frame (frame_eq Tile.lastRendered) (fun _ => rfl) (fun _ => rfl) L.totalSize
  have hcurrent := L.passes_frame (frame_eq Tile.current) (fun _ => rfl) (fun _ => rfl) L.totalSize
  have hdeltas := L.canvasPass.deltas_iff L.totalSize
  have htiles := (L.canvasPass.deltaPass L.totalSize).tiles_iff
  have hnum := (L.canvasPass.deltaPass L.totalSize).numTiles_iff
  dsimp only at hdeltas
  simp only [deltaPass_tiles, canvasPass_tiles, hcurrent, cutByAge_congr hrendered] at htiles hnum
  rw [canvasPass_tiles, deltaSize_canvasPass,
    cutByAge_congr (L.canvasPass_frame (frame_eq Tile.lastRendered) (fun _ => rfl))] at hdeltas
  have hlast := (L.canvasPass.deltaPass L.totalSize).tilePass_frame (frame_eq Tile.current) fun _ => rfl
  constructor
  · intro h
    refine ⟨L.canvases_iff.mp h.canvases, ?_, fun hmany => ⟨?_, ?_⟩⟩
    · have hcut := hdeltas.mp h.deltas
      rw [totalSize_eq, deltasEligible_canvasPass] at hcut
      exact hcut
    · have hcut := h.tiles
      simp only [hcurrent] at hcut
      exact htiles.mp hcut hmany
    · refine hnum.mp (h.numTiles.imp_right (Or.imp_right fun hall e he => ?_)) hmany
      exact (hcurrent e.2).symm.trans ((hlast e.2).symm.trans (hall e he))
  · intro h
    refine ⟨L.canvases_iff.mpr h.canvases, hdeltas.mpr ?_, ?_, fun e => L.keeps_current,
      L.numCanvases_low, L.deltaBytes_low, ?_⟩
    · rw [totalSize_eq, deltasEligible_canvasPass]
      exact h.deltas
    · simp only [hcurrent]
      exact htiles.mpr fun hmany => (h.tiles hmany).1
    · refine (hnum.mpr fun hmany => (h.tiles hmany).2).imp_right (Or.imp_right fun hall e he => ?_)
      exact (hlast e.2).trans ((hcurrent e.2).trans (hall e he))

end Layer

/-- Tiles beside each other with a canvas each, the ones that were inserted first rendered last. -/
def newestFirst (n : Nat) : Layer where
  heap := fun i =>
    { Tile.new ⟨256 * i, 0, 10, 0, 0⟩ 0 with
      canvas := some (blankCanvas 256)
      lastRendered := some (-i) }
  tiles := (List.range n).map fun i : Nat => (TileCoordData.key ⟨256 * i, 0, 10, 0, 0⟩, i)
  next := n
  gcCounter := 0
  keys := by
    rw [List.map_map]
    refine List.Nodup.map (fun i j hij => ?_) List.nodup_range
    have hx := congrArg TileCoordData.x (key_injective hij)
    dsimp only at hx
    omega
  refs := by
    rw [List.map_map]
    exact List.Nodup.map (fun i j hij => hij) List.nodup_range
  keyed := by
    intro e he
    obtain ⟨i, -, rfl⟩ := List.mem_map.mp he
    rfl
  fresh := by
    intro e he
    obtain ⟨i, hi, rfl⟩ := List.mem_map.mp he
    exact List.mem_range.mp hi

theorem newestFirst_getElem? {n i : Nat} (hi : i < n) :
    (newestFirst n).tiles[i]? = some (TileCoordData.key ⟨256 * i, 0, 10, 0, 0⟩, i) := by
  simp [newestFirst, hi]

/-- Of too many canvases the ones are taken that were rendered last. -/
theorem newestFirst_canvases {n : Nat} (hn : highNumCanvases < n) :
    ¬ OldestFirst (newestFirst n) (fun e => (newestFirst n).hasCanvas e)
      (fun e => ¬ (newestFirst n).canvasPass.hasCanvas e) := by
  intro horder
  have hcanvases : (newestFirst n).tiles.filter (newestFirst n).hasCanvas = (newestFirst n).tiles :=
    List.filter_eq_self.mpr fun _ _ => rfl
  have hlength : (newestFirst n).tiles.length = n := by simp [newestFirst]
  have hcut := (newestFirst n).canvases_iff.mp horder (by
    rw [Layer.numCanvases, List.countP_eq_length_filter, hcanvases, hlength]
    exact hn)
  dsimp only at hcut
  rw [hcanvases, hlength] at hcut
  rw [highNumCanvases] at hn
  have hfirst := newestFirst_getElem? (n := n) (i := 0) (by omega)
  have hlast := newestFirst_getElem? (n := n) (i := n - lowNumCanvases + 124) (by
    rw [lowNumCanvases]
    omega)
  rw [← List.getElem?_take_of_lt (by rw [lowNumCanvases]; omega : 0 < n - lowNumCanvases)] at hfirst
  rw [← List.getElem?_drop] at hlast
  refine hcut _ (List.mem_of_getElem? hfirst) _ (List.mem_of_getElem? hlast) ⟨_, _, rfl, rfl, ?_⟩
  rw [lowNumCanvases]
  omega

/-- 251 tiles with a canvas each. -/
theorem not_keepsInUse : ¬ ∀ L : Layer, KeepsInUse L :=
  fun hall => newestFirst_canvases (by decide) (hall (newestFirst 251)).canvases

end Oxool.Browser
