import Oxool.Browser.TileRequests

/-!
# Prefetching (`L.TilesPreFetcher`)

When the visible tiles are there the browser asks for those around them, ring by ring: each pane of a split
sheet has a border, which moves outwards once the tiles on it are queued, and stays where the limit of a
call is reached. A call looks at the panes one after the other.

The candidates of all rings of a pane are gone through again for each ring, and a tile can be on the rings
of several panes; what was queued in the call is remembered by its key. A loop round either moves the border
or leaves nothing of the limit, so that there are no more rounds than a border may be wide, and one
(`fetchPane_spec`).
-/

set_option autoImplicit false

namespace Oxool.Browser

open Oxool.Http (Bytes)

/-! ## Bounds -/

namespace Bounds

/-- The constructor of `L.Bounds`. -/
def ofPoints (a b : Int × Int) : Bounds Int := ⟨min b.1 a.1, min b.2 a.2, max b.1 a.1, max b.2 a.2⟩

def clampX (b : Bounds Int) (x : Int) : Int := max b.minX (min b.maxX x)

def clampY (b : Bounds Int) (y : Int) : Int := max b.minY (min b.maxY y)

/-- `clamp`, of bounds. -/
def clamp (b obj : Bounds Int) : Bounds Int :=
  ofPoints (b.clampX obj.minX, b.clampY obj.minY) (b.clampX obj.maxX, b.clampY obj.maxY)

/-- The position is inside, on a side perhaps. -/
def Contains (b : Bounds Int) (pos : Int × Int) : Prop :=
  (b.minX ≤ pos.1 ∧ pos.1 ≤ b.maxX) ∧ b.minY ≤ pos.2 ∧ pos.2 ≤ b.maxY

end Bounds

/-! ## The border of a pane -/

/-- `L.TilesPreFetcher.PaneBorder`. -/
structure PaneBorder where
  border : Bounds Int
  xFixed : Bool
  yFixed : Bool
  index : Nat
  ordered : border.minX ≤ border.maxX ∧ border.minY ≤ border.maxY

namespace PaneBorder

/-- The border around a range of tiles. -/
def around (tileRange : Bounds Int) (xFixed yFixed : Bool) : PaneBorder where
  border := .ofPoints (tileRange.minX - 1, tileRange.minY - 1) (tileRange.maxX + 1, tileRange.maxY + 1)
  xFixed := xFixed
  yFixed := yFixed
  index := 0
  ordered := by
    simp only [Bounds.ofPoints]
    omega

variable (pane : PaneBorder) (validTileRange : Bounds Int)

/-- The sides of the border that are inside of the document and move. -/
def fetchTopBorder : Bool := !pane.yFixed && pane.border.minY == (validTileRange.clamp pane.border).minY

def fetchBottomBorder : Bool := !pane.yFixed && pane.border.maxY == (validTileRange.clamp pane.border).maxY

def fetchLeftBorder : Bool := !pane.xFixed && pane.border.minX == (validTileRange.clamp pane.border).minX

def fetchRightBorder : Bool := !pane.xFixed && pane.border.maxX == (validTileRange.clamp pane.border).maxX

/-- The candidates on the border. -/
def candidates : List (Int × Int) :=
  let clampedBorder := validTileRange.clamp pane.border
  (if pane.fetchBottomBorder validTileRange then
    (intRange clampedBorder.minX clampedBorder.maxX).map fun i => (i, pane.border.maxY) else []) ++
  (if pane.fetchTopBorder validTileRange then
    (intRange clampedBorder.minX clampedBorder.maxX).map fun i => (i, pane.border.minY) else []) ++
  (if pane.fetchRightBorder validTileRange then
    (intRange clampedBorder.minY clampedBorder.maxY).map fun i => (pane.border.maxX, i) else []) ++
  (if pane.fetchLeftBorder validTileRange then
    (intRange clampedBorder.minY clampedBorder.maxY).map fun i => (pane.border.minX, i) else [])

/-- The border is left behind. -/
def widen : PaneBorder where
  border :=
    { minX := if !pane.xFixed && pane.border.minX > 0 then pane.border.minX - 1 else pane.border.minX
      minY := if !pane.yFixed && pane.border.minY > 0 then pane.border.minY - 1 else pane.border.minY
      maxX := if !pane.xFixed && pane.border.maxX < validTileRange.maxX then pane.border.maxX + 1 else pane.border.maxX
      maxY := if !pane.yFixed && pane.border.maxY < validTileRange.maxY then pane.border.maxY + 1 else pane.border.maxY }
  xFixed := pane.xFixed
  yFixed := pane.yFixed
  index := pane.index + 1
  ordered := by
    have h := pane.ordered
    dsimp only
    split_ifs <;> omega

/-- The position is on a side of the border that moves. -/
def OnRing (pos : Int × Int) : Prop :=
  pane.border.Contains pos ∧
    ((pane.yFixed = false ∧ (pos.2 = pane.border.minY ∨ pos.2 = pane.border.maxY)) ∨
      (pane.xFixed = false ∧ (pos.1 = pane.border.minX ∨ pos.1 = pane.border.maxX)))

instance (pos : Int × Int) : Decidable (pane.OnRing pos) :=
  inferInstanceAs (Decidable ((_ ∧ _) ∧ _))

end PaneBorder

/-! ## A call -/

/-- What `preFetchTiles` finds around it. -/
structure Surroundings where
  view : View
  layer : Layer
  emptyTilesCount : Int
  canonicalIdInitialized : Bool
  zoom : Int
  isEditMode : Bool
  pixelBounds : Bounds ℚ
  dpiScale : ℚ
  split : Option (ℚ × ℚ)

namespace Surroundings

variable (env : Surroundings)

def maxTilesToFetch : Nat := if env.isEditMode then 5 else 10

/-- don't search on a border wider than 5 tiles because it will freeze the UI -/
def maxBorderWidth : Nat := if env.isEditMode then 3 else 5

/-- `getSplitPos`. -/
def splitPos : ℚ × ℚ :=
  match env.split with
  | some (splitX, splitY) => (splitX / env.dpiScale, splitY / env.dpiScale)
  | none => (0, 0)

/-- `getPanesProperties`: whether a pane stays in place in either direction. -/
def panesProperties : List (Bool × Bool) :=
  match env.split with
  | some (splitX, splitY) =>
    (if splitX ≠ 0 ∧ splitY ≠ 0 then [(true, true)] else []) ++ (if splitY ≠ 0 then [(false, true)] else []) ++
      (if splitX ≠ 0 then [(true, false)] else []) ++ [(false, false)]
  | none => [(false, false)]

def validTileRange : Bounds Int :=
  .ofPoints (0, 0) (⌊(env.view.docWidthTwips - 1) / env.view.tileWidthTwips⌋,
    ⌊(env.view.docHeightTwips - 1) / env.view.tileHeightTwips⌋)

/-- The borders of the panes that are not fixed. -/
def paneBorders : List PaneBorder :=
  ((env.view.pxBoundsToTileRanges env.split env.pixelBounds).zip env.panesProperties).filterMap
    fun (tileRange, xFixed, yFixed) => if xFixed && yFixed then none else some (.around tileRange xFixed yFixed)

end Surroundings

/-- The fields of a `TilesPreFetcher`. -/
structure TilesPreFetcher where
  zoom : Option Int
  preFetchPart : Option Int
  preFetchMode : Option Int
  hasEditPerm : Option Bool
  pixelBounds : Option (Bounds ℚ)
  splitPos : Option (ℚ × ℚ)
  borders : Option (List PaneBorder)

/-- The queue of a call, the keys in it, and how many tiles it may still take; `none` is `Infinity`. -/
structure Fetching where
  visitedTiles : List Bytes
  finalQueue : List TileCoordData
  tilesToFetch : Option Nat

namespace Fetching

variable (env : Surroundings)

/-- `tilesToFetch > 0`. -/
def HasRoom (F : Fetching) : Prop := F.tilesToFetch ≠ some 0

instance (F : Fetching) : Decidable F.HasRoom := inferInstanceAs (Decidable (_ ≠ _))

/-- Before the first pane. -/
def start (immediate : Bool) : Fetching := ⟨[], [], if immediate then none else some env.maxTilesToFetch⟩

/-- The coordinates of a candidate. Part and mode are those that the last call was for or that were selected
at a reset, which are the selected ones by now (`withBorders_part`). -/
def coordsAt (pos : Int × Int) : TileCoordData := env.view.coordsAt env.zoom pos

/-- One candidate, with whether tiles are pending. -/
def visit (state : Fetching × Bool) (pos : Int × Int) : Fetching × Bool :=
  let coords := coordsAt env pos
  if coords.key ∈ state.1.visitedTiles ∨ env.view.isValidTile coords = false ∨
      env.layer.tileNeedsFetch coords.key = false then state
  else if state.1.HasRoom then
    (⟨state.1.visitedTiles ++ [coords.key], state.1.finalQueue ++ [coords], state.1.tilesToFetch.map (· - 1)⟩,
      state.2)
  else (state.1, true)

/-- The loop over the rings of a pane. The queue has the candidates of all rings so far. -/
def fetchPane : Nat → PaneBorder → List (Int × Int) → Fetching → Option (PaneBorder × Fetching)
  | 0, _, _, _ => none
  | fuel + 1, pane, queue, F =>
    if F.HasRoom ∧ pane.index < env.maxBorderWidth then
      let range := env.validTileRange
      if !pane.fetchLeftBorder range && !pane.fetchRightBorder range && !pane.fetchTopBorder range &&
          !pane.fetchBottomBorder range then some (pane, F)
      else
        let queue := queue ++ pane.candidates range
        match queue.foldl (visit env) (F, false) with
        -- don't update the border as there are still some tiles to be fetched
        | (F, true) => fetchPane fuel pane queue F
        | (F, false) => fetchPane fuel (pane.widen range) queue F
    else some (pane, F)

/-- The loop over the panes. -/
def fetchPanes : List PaneBorder → Fetching → Option (List PaneBorder × Fetching)
  | [], F => some ([], F)
  | pane :: panes, F => do
    let (pane, F) ← fetchPane env (env.maxBorderWidth + 2) pane [] F
    let (panes, F) ← fetchPanes panes F
    return (pane :: panes, F)

end Fetching

namespace TilesPreFetcher

variable (f : TilesPreFetcher) (env : Surroundings)

/-- The fields that are still undefined. -/
def initialized : TilesPreFetcher where
  zoom := some (f.zoom.getD env.zoom)
  preFetchPart := some (f.preFetchPart.getD env.view.selectedPart)
  preFetchMode := some (f.preFetchMode.getD env.view.selectedMode)
  hasEditPerm := some (f.hasEditPerm.getD env.isEditMode)
  pixelBounds := some (f.pixelBounds.getD env.pixelBounds)
  splitPos := some (f.splitPos.getD env.splitPos)
  borders := f.borders

/-- The borders are computed afresh if there are none, or if what they depend on has changed. -/
def withBorders (forceBorderCalc : Bool) : TilesPreFetcher :=
  let f := f.initialized env
  if forceBorderCalc ∨ f.borders = none ∨ (f.borders.getD []).isEmpty ∨ some env.zoom ≠ f.zoom ∨
      some env.view.selectedPart ≠ f.preFetchPart ∨ some env.view.selectedMode ≠ f.preFetchMode ∨
      some env.isEditMode ≠ f.hasEditPerm ∨ some env.pixelBounds ≠ f.pixelBounds ∨
      some env.splitPos ≠ f.splitPos then
    { zoom := some env.zoom
      preFetchPart := some env.view.selectedPart
      preFetchMode := some env.view.selectedMode
      hasEditPerm := some env.isEditMode
      pixelBounds := some env.pixelBounds
      splitPos := some env.splitPos
      borders := some env.paneBorders }
  else f

/-- `preFetchTiles`, with the tiles that it passes to `_addTiles`, if any. -/
def preFetchTiles (forceBorderCalc immediate : Bool) : Option (TilesPreFetcher × List TileCoordData) :=
  if env.emptyTilesCount > 0 ∨ env.canonicalIdInitialized = false then some (f, [])
  else
    let f := f.withBorders env forceBorderCalc
    (Fetching.fetchPanes env (f.borders.getD []) (.start env immediate)).map fun (panes, F) =>
      let doneAllPanes := panes.all fun pane => decide (env.maxBorderWidth ≤ pane.index)
      ({ f with borders := if F.finalQueue = [] ∨ doneAllPanes then none else some panes }, F.finalQueue)

/-- `resetPreFetching`. -/
def resetPreFetching (resetBorder : Bool) : TilesPreFetcher :=
  { f with
    borders := if resetBorder then none else f.borders
    preFetchPart := some env.view.selectedPart
    preFetchMode := some env.view.selectedMode }

/-- What happens to the fetcher: a call, or a reset between two. -/
inductive Event where
  | preFetch (env : Surroundings) (forceBorderCalc immediate : Bool)
  | reset (env : Surroundings) (resetBorder : Bool)

/-- Events, one after the other, with the tiles that each of the calls asks for. -/
def run : TilesPreFetcher → List Event → Option (TilesPreFetcher × List (List TileCoordData))
  | f, [] => some (f, [])
  | f, .preFetch env forceBorderCalc immediate :: events => do
    let (f, tiles) ← f.preFetchTiles env forceBorderCalc immediate
    let (f, queues) ← f.run events
    return (f, tiles :: queues)
  | f, .reset env resetBorder :: events => (f.resetPreFetching env resetBorder).run events

end TilesPreFetcher

/-! ## Rings -/

namespace Bounds

/-- The corners are in order. -/
def Ordered (b : Bounds Int) : Prop := b.minX ≤ b.maxX ∧ b.minY ≤ b.maxY

theorem ordered_ofPoints (a b : Int × Int) : (ofPoints a b).Ordered := by
  constructor
  · exact le_trans (min_le_left _ _) (le_max_left _ _)
  · exact le_trans (min_le_left _ _) (le_max_left _ _)

theorem clamp_eq (range : Bounds Int) {b : Bounds Int} (hb : b.Ordered) :
    range.clamp b = ⟨range.clampX b.minX, range.clampY b.minY, range.clampX b.maxX, range.clampY b.maxY⟩ := by
  obtain ⟨hx, hy⟩ := hb
  simp only [clamp, ofPoints, clampX, clampY, mk.injEq]
  omega

end Bounds

namespace PaneBorder

variable {pane : PaneBorder} {range : Bounds Int} {pos : Int × Int}

theorem mem_side {fetch : Bool} {first last : Int} {side : Int → Int × Int} :
    pos ∈ (if fetch then (intRange first last).map side else []) ↔
      fetch = true ∧ ∃ i, (first ≤ i ∧ i ≤ last) ∧ side i = pos := by
  cases fetch with
  | false => simp
  | true => simp [mem_intRange]

/-- **Candidates are in the document**. -/
theorem contains_of_mem_candidates (hrange : range.Ordered) (h : pos ∈ pane.candidates range) :
    range.Contains pos := by
  obtain ⟨hx, hy⟩ := hrange
  obtain ⟨hbx, hby⟩ := pane.ordered
  have hclamp := Bounds.clamp_eq range pane.ordered
  simp only [candidates, List.mem_append, mem_side] at h
  rcases h with ((⟨hside, i, hi, rfl⟩ | ⟨hside, i, hi, rfl⟩) | ⟨hside, i, hi, rfl⟩) | ⟨hside, i, hi, rfl⟩
  all_goals
    simp only [fetchBottomBorder, fetchTopBorder, fetchRightBorder, fetchLeftBorder, hclamp, Bounds.clampX,
      Bounds.clampY, Bool.and_eq_true, beq_iff_eq] at hi hside
    rw [Bounds.Contains]
    omega

/-- **No tile of a ring is left out** that is in the document. -/
theorem mem_candidates_of_onRing (hring : pane.OnRing pos) (hrange : range.Contains pos) :
    pos ∈ pane.candidates range := by
  obtain ⟨⟨hx, hy⟩, hside⟩ := hring
  obtain ⟨hrx, hry⟩ := hrange
  have hclamp := Bounds.clamp_eq range pane.ordered
  simp only [candidates, List.mem_append, mem_side]
  rcases hside with ⟨hfixed, htop | hbottom⟩ | ⟨hfixed, hleft | hright⟩
  · refine .inl (.inl (.inr ⟨?_, pos.1, ?_, Prod.ext rfl htop.symm⟩))
    · simp only [fetchTopBorder, hclamp, hfixed, Bounds.clampY, Bool.not_false, Bool.true_and, beq_iff_eq]
      omega
    · simp only [hclamp, Bounds.clampX]
      omega
  · refine .inl (.inl (.inl ⟨?_, pos.1, ?_, Prod.ext rfl hbottom.symm⟩))
    · simp only [fetchBottomBorder, hclamp, hfixed, Bounds.clampY, Bool.not_false, Bool.true_and, beq_iff_eq]
      omega
    · simp only [hclamp, Bounds.clampX]
      omega
  · refine .inr ⟨?_, pos.2, ?_, Prod.ext hleft.symm rfl⟩
    · simp only [fetchLeftBorder, hclamp, hfixed, Bounds.clampX, Bool.not_false, Bool.true_and, beq_iff_eq]
      omega
    · simp only [hclamp, Bounds.clampY]
      omega
  · refine .inl (.inr ⟨?_, pos.2, ?_, Prod.ext hright.symm rfl⟩)
    · simp only [fetchRightBorder, hclamp, hfixed, Bounds.clampX, Bool.not_false, Bool.true_and, beq_iff_eq]
      omega
    · simp only [hclamp, Bounds.clampY]
      omega

end PaneBorder

theorem Surroundings.ordered_validTileRange (env : Surroundings) : env.validTileRange.Ordered :=
  Bounds.ordered_ofPoints _ _

/-! ## Candidates, one after the other -/

namespace Fetching

variable {env : Surroundings} {F G : Fetching} {pos : Int × Int}

/-- A tile of the document that has to be fetched. -/
def Wanted (env : Surroundings) (pos : Int × Int) : Prop :=
  env.view.isValidTile (coordsAt env pos) = true ∧ env.layer.tileNeedsFetch (coordsAt env pos).key = true

/-- What holds of the queue all the time: no tile is in it twice, all are tiles of the document that have to
be fetched, and there are no more of them than the call may ask for. -/
structure Sound (env : Surroundings) (limit : Option Nat) (F : Fetching) : Prop where
  visited : F.visitedTiles = F.finalQueue.map TileCoordData.key
  nodup : F.finalQueue.Nodup
  wanted : ∀ coords ∈ F.finalQueue, ∃ pos, coords = coordsAt env pos ∧ env.validTileRange.Contains pos ∧ Wanted env pos
  limited : F.tilesToFetch = limit.map (· - F.finalQueue.length) ∧ ∀ n, limit = some n → F.finalQueue.length ≤ n

theorem sound_start (env : Surroundings) (immediate : Bool) :
    (start env immediate).Sound env (if immediate then none else some env.maxTilesToFetch) where
  visited := rfl
  nodup := List.nodup_nil
  wanted := fun coords hcoords => by cases hcoords
  limited := by
    refine ⟨?_, fun n _ => Nat.zero_le n⟩
    rw [start]
    cases immediate with
    | true => rfl
    | false => rfl

theorem key_mem_visited {limit : Option Nat} (h : F.Sound env limit) {coords : TileCoordData} :
    coords.key ∈ F.visitedTiles ↔ coords ∈ F.finalQueue := by
  rw [h.visited, List.mem_map_of_injective key_injective]

/-- The candidate is in the queue now, or cannot be, or is pending. -/
theorem visit_spec {limit : Option Nat} (h : F.Sound env limit) (hpos : env.validTileRange.Contains pos)
    (pending : Bool) :
    (visit env (F, pending) pos).1.Sound env limit ∧
      F.finalQueue ⊆ (visit env (F, pending) pos).1.finalQueue ∧
      (pending = true → (visit env (F, pending) pos).2 = true) ∧
      (pending = false → (visit env (F, pending) pos).2 = true → ¬ F.HasRoom) ∧
      ((visit env (F, pending) pos).2 = false → Wanted env pos →
        coordsAt env pos ∈ (visit env (F, pending) pos).1.finalQueue) := by
  rw [visit]
  dsimp only
  split
  · next hskip =>
    refine ⟨h, List.Subset.refl _, id, ?_, ?_⟩
    · intro hfalse htrue
      rw [hfalse] at htrue
      cases htrue
    · rintro - ⟨hvalid, hfetch⟩
      rcases hskip with hvisited | hinvalid | hfetched
      · exact (key_mem_visited h).mp hvisited
      · rw [hinvalid] at hvalid
        cases hvalid
      · rw [hfetched] at hfetch
        cases hfetch
  · next hskip =>
    rw [not_or, not_or, Bool.not_eq_false, Bool.not_eq_false] at hskip
    obtain ⟨hnew, hvalid, hfetch⟩ := hskip
    rw [key_mem_visited h] at hnew
    split
    · next hroom =>
      refine ⟨⟨?_, ?_, ?_, ?_, ?_⟩, List.subset_append_left _ _, id, ?_, ?_⟩
      · rw [h.visited, List.map_append, List.map_singleton]
      · rw [List.nodup_append]
        refine ⟨h.nodup, List.nodup_singleton _, ?_⟩
        rintro coords hcoords other hother rfl
        rw [List.mem_singleton.mp hother] at hcoords
        exact hnew hcoords
      · intro coords hcoords
        rcases List.mem_append.mp hcoords with hold | hnewest
        · exact h.wanted coords hold
        · exact ⟨pos, List.mem_singleton.mp hnewest, hpos, hvalid, hfetch⟩
      · dsimp only
        rw [h.limited.1, List.length_append, List.length_singleton, Option.map_map]
        cases limit with
        | none => rfl
        | some n => rw [Option.map_some, Option.map_some, Function.comp_apply, Nat.sub_sub]
      · rintro n rfl
        have hlimited := h.limited.1
        rw [HasRoom, hlimited, Option.map_some, ne_eq, Option.some.injEq] at hroom
        rw [List.length_append, List.length_singleton]
        omega
      · intro hfalse htrue
        rw [hfalse] at htrue
        cases htrue
      · intro _ _
        exact List.mem_append_right _ (List.mem_singleton_self _)
    · next hroom =>
      refine ⟨h, List.Subset.refl _, fun _ => rfl, fun _ _ => hroom, ?_⟩
      intro htrue
      cases htrue

/-- Without room nothing changes but what is pending. -/
theorem foldl_visit_of_full (hfull : ¬ F.HasRoom) (queue : List (Int × Int)) (pending : Bool) :
    (queue.foldl (visit env) (F, pending)).1 = F := by
  induction queue generalizing pending with
  | nil => rfl
  | cons pos queue ih =>
    have hstep : ∃ pending', visit env (F, pending) pos = (F, pending') := by
      rw [visit]
      dsimp only
      rw [if_neg hfull]
      split
      · exact ⟨pending, rfl⟩
      · exact ⟨true, rfl⟩
    obtain ⟨pending', heq⟩ := hstep
    rw [List.foldl_cons, heq, ih]

/-- **All candidates**: those that are wanted are in the queue, or there is no room. -/
theorem foldl_visit_spec {limit : Option Nat} (h : F.Sound env limit) {queue : List (Int × Int)}
    (hqueue : ∀ pos ∈ queue, env.validTileRange.Contains pos) (pending : Bool) :
    (queue.foldl (visit env) (F, pending)).1.Sound env limit ∧
      F.finalQueue ⊆ (queue.foldl (visit env) (F, pending)).1.finalQueue ∧
      ((queue.foldl (visit env) (F, pending)).2 = true →
        pending = true ∨ ¬ (queue.foldl (visit env) (F, pending)).1.HasRoom) ∧
      ((queue.foldl (visit env) (F, pending)).2 = false → pending = false ∧ ∀ pos ∈ queue, Wanted env pos →
        coordsAt env pos ∈ (queue.foldl (visit env) (F, pending)).1.finalQueue) := by
  induction queue generalizing F pending with
  | nil => exact ⟨h, List.Subset.refl _, .inl, fun hnone => ⟨hnone, fun pos hpos => by cases hpos⟩⟩
  | cons pos queue ih =>
    obtain ⟨hsound, hsubset, hstays, hfull, hqueued⟩ := visit_spec h (hqueue pos List.mem_cons_self) pending
    obtain ⟨hsound', hsubset', hpending', hqueued'⟩ :=
      ih hsound (fun p hp => hqueue p (List.mem_cons_of_mem _ hp)) (visit env (F, pending) pos).2
    rw [List.foldl_cons]
    refine ⟨hsound', List.Subset.trans hsubset hsubset', ?_, ?_⟩
    · intro htrue
      rcases hpending' htrue with hnow | hnoRoom
      · cases pending with
        | true => exact .inl rfl
        | false =>
          right
          have hnoRoom := hfull rfl hnow
          have hsame : (visit env (F, false) pos).1 = F := foldl_visit_of_full hnoRoom [pos] false
          rw [← Prod.mk.eta (p := visit env (F, false) pos), foldl_visit_of_full (by rw [hsame]; exact hnoRoom),
            hsame]
          exact hnoRoom
      · exact .inr hnoRoom
    · intro hfalse
      obtain ⟨hnow, hall⟩ := hqueued' hfalse
      constructor
      · cases pending with
        | false => rfl
        | true =>
          rw [hstays rfl] at hnow
          cases hnow
      · intro p hp hwanted
        rcases List.mem_cons.mp hp with rfl | hp
        · exact hsubset' (hqueued hnow hwanted)
        · exact hall p hp hwanted

/-! ## Ring by ring -/

/-- What counts as the ring of a border. -/
abbrev Ring := Surroundings → PaneBorder → Int × Int → Prop

/-- All sides of it. -/
def wholeRing : Ring := fun _ pane pos => pane.OnRing pos

/-- Its sides as far as there are tiles of the document. -/
def ringInRange : Ring := fun env pane pos => pane.OnRing pos ∧ env.validTileRange.Contains pos

/-- A border has come from one to the other, and the tiles of each ring in between that are wanted are in the
queue. -/
def LeftBehind (ring : Ring) (env : Surroundings) (queue : List TileCoordData) (pane pane' : PaneBorder) : Prop :=
  ∃ n, pane' = (PaneBorder.widen · env.validTileRange)^[n] pane ∧
    ∀ k < n, ∀ pos, ring env ((PaneBorder.widen · env.validTileRange)^[k] pane) pos → Wanted env pos →
      coordsAt env pos ∈ queue

section
variable {ring : Ring}

theorem LeftBehind.refl (env : Surroundings) (queue : List TileCoordData) (pane : PaneBorder) :
    LeftBehind ring env queue pane pane :=
  ⟨0, rfl, fun k hk => absurd hk (Nat.not_lt_zero k)⟩

theorem LeftBehind.mono {queue queue' : List TileCoordData} {pane pane' : PaneBorder} (hsubset : queue ⊆ queue')
    (h : LeftBehind ring env queue pane pane') : LeftBehind ring env queue' pane pane' := by
  obtain ⟨n, heq, hall⟩ := h
  exact ⟨n, heq, fun k hk pos hring hwanted => hsubset (hall k hk pos hring hwanted)⟩

/-- One ring more, before the others. -/
theorem LeftBehind.widen {queue : List TileCoordData} {pane pane' : PaneBorder}
    (hring : ∀ pos, ring env pane pos → Wanted env pos → coordsAt env pos ∈ queue)
    (h : LeftBehind ring env queue (pane.widen env.validTileRange) pane') : LeftBehind ring env queue pane pane' := by
  obtain ⟨n, heq, hall⟩ := h
  refine ⟨n + 1, heq, ?_⟩
  intro k hk
  cases k with
  | zero => exact hring
  | succ k => exact hall k (Nat.lt_of_succ_lt_succ hk)

end

/-- **The loop over the rings ends**, with rounds for the rings that are left and one for a ring that does not
fit. -/
theorem fetchPane_spec {limit : Option Nat} (h : F.Sound env limit) {fuel : Nat} {pane : PaneBorder}
    (hfuel : (if F.HasRoom then env.maxBorderWidth - pane.index + 1 else 0) < fuel) {queue : List (Int × Int)}
    (hqueue : ∀ pos ∈ queue, env.validTileRange.Contains pos) :
    ∃ pane' F', fetchPane env fuel pane queue F = some (pane', F') ∧ F'.Sound env limit ∧
      F.finalQueue ⊆ F'.finalQueue ∧ LeftBehind ringInRange env F'.finalQueue pane pane' := by
  induction fuel generalizing F pane queue with
  | zero => exact absurd hfuel (Nat.not_lt_zero _)
  | succ fuel ih =>
    rw [fetchPane]
    split
    · next hgoes =>
      obtain ⟨hroom, hindex⟩ := hgoes
      rw [if_pos hroom] at hfuel
      dsimp only
      split
      · exact ⟨pane, F, rfl, h, List.Subset.refl _, .refl env _ pane⟩
      · have hqueue' : ∀ pos ∈ queue ++ pane.candidates env.validTileRange, env.validTileRange.Contains pos := by
          intro pos hpos
          rcases List.mem_append.mp hpos with hold | hnew
          · exact hqueue pos hold
          · exact PaneBorder.contains_of_mem_candidates env.ordered_validTileRange hnew
        obtain ⟨hsound, hsubset, hpending, hqueued⟩ := foldl_visit_spec h hqueue' false
        generalize (queue ++ pane.candidates env.validTileRange).foldl (visit env) (F, false) = state at *
        obtain ⟨G, pending⟩ := state
        cases pending with
        | true =>
          have hfull := (hpending rfl).resolve_left Bool.false_ne_true
          have hleft : (if G.HasRoom then env.maxBorderWidth - pane.index + 1 else 0) < fuel := by
            rw [if_neg hfull]
            omega
          obtain ⟨pane', F', heq, hsound', hsubset', hbehind⟩ := ih hsound hleft hqueue'
          exact ⟨pane', F', heq, hsound', List.Subset.trans hsubset hsubset', hbehind⟩
        | false =>
          have hleft : (if G.HasRoom then
              env.maxBorderWidth - (pane.widen env.validTileRange).index + 1 else 0) < fuel := by
            have hnext : (pane.widen env.validTileRange).index = pane.index + 1 := rfl
            rw [hnext]
            split
            · omega
            · omega
          obtain ⟨pane', F', heq, hsound', hsubset', hbehind⟩ := ih hsound hleft hqueue'
          refine ⟨pane', F', heq, hsound', List.Subset.trans hsubset hsubset', hbehind.widen ?_⟩
          rintro pos ⟨hring, hrange⟩ hwanted
          apply hsubset'
          apply (hqueued rfl).2 pos _ hwanted
          exact List.mem_append_right _ (PaneBorder.mem_candidates_of_onRing hring hrange)
    · exact ⟨pane, F, rfl, h, List.Subset.refl _, .refl env _ pane⟩

/-- The run over the panes. -/
theorem fetchPanes_spec {limit : Option Nat} (h : F.Sound env limit) (panes : List PaneBorder) :
    ∃ panes' F', fetchPanes env panes F = some (panes', F') ∧ F'.Sound env limit ∧
      F.finalQueue ⊆ F'.finalQueue ∧ List.Forall₂ (LeftBehind ringInRange env F'.finalQueue) panes panes' := by
  induction panes generalizing F with
  | nil => exact ⟨[], F, rfl, h, List.Subset.refl _, .nil⟩
  | cons pane panes ih =>
    have hfuel : (if F.HasRoom then env.maxBorderWidth - pane.index + 1 else 0) < env.maxBorderWidth + 2 := by
      split
      · omega
      · omega
    obtain ⟨pane', G, heq, hsound, hsubset, hbehind⟩ :=
      fetchPane_spec h hfuel (List.forall_mem_nil _)
    obtain ⟨panes', F', heq', hsound', hsubset', hall⟩ := ih hsound
    refine ⟨pane' :: panes', F', ?_, hsound', List.Subset.trans hsubset hsubset', .cons (hbehind.mono hsubset') hall⟩
    rw [fetchPanes, heq]
    show (fetchPanes env panes G).bind _ = _
    rw [heq']
    rfl

end Fetching

/-! ## Calls -/

namespace TilesPreFetcher

/-- The tile covers a part of the document. -/
def Covers (V : View) (coords : TileCoordData) : Prop :=
  (0 ≤ coords.x ∧ (coords.x / V.tileSize : ℚ) * V.tileWidthTwips < V.docWidthTwips) ∧
    0 ≤ coords.y ∧ (coords.y / V.tileSize : ℚ) * V.tileHeightTwips < V.docHeightTwips

/-- A document with a size, in tiles with one. -/
def HasSize (V : View) : Prop :=
  (0 < V.tileWidthTwips ∧ 1 ≤ V.docWidthTwips) ∧ 0 < V.tileHeightTwips ∧ 1 ≤ V.docHeightTwips

/-- What is claimed of a call: the tiles it asks for, and the borders of the panes before and after it. -/
structure Prefetched (ring : Fetching.Ring) (env : Surroundings) (immediate : Bool) (tiles : List TileCoordData)
    (panes panes' : List PaneBorder) : Prop where
  distinct : tiles.Nodup
  valid : ∀ coords ∈ tiles, env.view.isValidTile coords = true
  covering : HasSize env.view → ∀ coords ∈ tiles, Covers env.view coords
  needed : ∀ coords ∈ tiles, env.layer.tileNeedsFetch coords.key = true
  limited : immediate = false → tiles.length ≤ env.maxTilesToFetch
  behind : List.Forall₂ (Fetching.LeftBehind ring env tiles) panes panes'

/-- A position that is in the range starts before the document ends. -/
theorem mul_lt_of_le_floor {i : Int} {size doc : ℚ} (hsize : 0 < size) (hdoc : 1 ≤ doc)
    (h : i ≤ max ⌊(doc - 1) / size⌋ 0) : i * size < doc := by
  rcases le_max_iff.mp h with hfloor | hzero
  · have hle : (i : ℚ) ≤ (doc - 1) / size := Int.le_floor.mp hfloor
    rw [le_div_iff₀ hsize] at hle
    linarith
  · have hle : (i : ℚ) ≤ 0 := by exact_mod_cast hzero
    nlinarith

theorem covers_of_contains {env : Surroundings} (hsize : HasSize env.view) {pos : Int × Int}
    (hrange : env.validTileRange.Contains pos)
    (hvalid : env.view.isValidTile (Fetching.coordsAt env pos) = true) :
    Covers env.view (Fetching.coordsAt env pos) := by
  obtain ⟨⟨htw, hdw⟩, hth, hdh⟩ := hsize
  obtain ⟨⟨-, hx⟩, -, hy⟩ := hrange
  have hne : (env.view.tileSize : ℚ) ≠ 0 := by exact_mod_cast env.view.tileSize_pos.ne'
  have hnonneg : 0 ≤ (Fetching.coordsAt env pos).x ∧ 0 ≤ (Fetching.coordsAt env pos).y := by
    rw [View.isValidTile] at hvalid
    split at hvalid
    · cases hvalid
    · next hneg =>
      rw [not_or, not_lt, not_lt] at hneg
      exact hneg
  refine ⟨⟨hnonneg.1, ?_⟩, hnonneg.2, ?_⟩
  · have hlt := mul_lt_of_le_floor htw hdw hx
    show (((pos.1 * env.view.tileSize : Int) : ℚ) / env.view.tileSize) * env.view.tileWidthTwips < _
    rw [Int.cast_mul, mul_div_cancel_right₀ _ hne]
    exact hlt
  · have hlt := mul_lt_of_le_floor hth hdh hy
    show (((pos.2 * env.view.tileSize : Int) : ℚ) / env.view.tileSize) * env.view.tileHeightTwips < _
    rw [Int.cast_mul, mul_div_cancel_right₀ _ hne]
    exact hlt

/-! ## Runs -/

variable {f f' : TilesPreFetcher} {env : Surroundings}

/-- The part and the mode of a call are the selected ones, with borders from before or not. -/
theorem withBorders_part (forceBorderCalc : Bool) :
    (f.withBorders env forceBorderCalc).preFetchPart = some env.view.selectedPart ∧
      (f.withBorders env forceBorderCalc).preFetchMode = some env.view.selectedMode := by
  rw [withBorders]
  split
  · exact ⟨rfl, rfl⟩
  · next hsame =>
    simp only [not_or, ne_eq, not_not] at hsame
    obtain ⟨-, -, -, -, hpart, hmode, -⟩ := hsame
    exact ⟨hpart.symm, hmode.symm⟩

/-- **A call asks for tiles**, or the layer is not ready for it. -/
inductive Call (ring : Fetching.Ring) (env : Surroundings) (forceBorderCalc immediate : Bool) :
    TilesPreFetcher → TilesPreFetcher → List TileCoordData → Prop where
  | notReady {f : TilesPreFetcher} (h : env.emptyTilesCount > 0 ∨ env.canonicalIdInitialized = false) :
      Call ring env forceBorderCalc immediate f f []
  | prefetched {f f' : TilesPreFetcher} {tiles : List TileCoordData} {panes' : List PaneBorder}
      (h : Prefetched ring env immediate tiles ((f.withBorders env forceBorderCalc).borders.getD []) panes')
      (hborders : f'.borders = none ∨ f'.borders = some panes') :
      Call ring env forceBorderCalc immediate f f' tiles

/-- A run in which each call is as claimed. -/
inductive Calls (ring : Fetching.Ring) :
    TilesPreFetcher → List Event → TilesPreFetcher → List (List TileCoordData) → Prop where
  | nil (f : TilesPreFetcher) : Calls ring f [] f []
  | preFetch {env : Surroundings} {forceBorderCalc immediate : Bool} {f g f' : TilesPreFetcher}
      {tiles : List TileCoordData} {events : List Event} {queues : List (List TileCoordData)}
      (h : Call ring env forceBorderCalc immediate f g tiles) (hcalls : Calls ring g events f' queues) :
      Calls ring f (.preFetch env forceBorderCalc immediate :: events) f' (tiles :: queues)
  | reset {env : Surroundings} {resetBorder : Bool} {f f' : TilesPreFetcher} {events : List Event}
      {queues : List (List TileCoordData)}
      (hcalls : Calls ring (f.resetPreFetching env resetBorder) events f' queues) :
      Calls ring f (.reset env resetBorder :: events) f' queues

/-- **One call** ends, whatever the fetcher has from before. -/
theorem call_preFetchTiles (f : TilesPreFetcher) (env : Surroundings) (forceBorderCalc immediate : Bool) :
    ∃ f' tiles, f.preFetchTiles env forceBorderCalc immediate = some (f', tiles) ∧
      Call Fetching.ringInRange env forceBorderCalc immediate f f' tiles := by
  rw [preFetchTiles]
  split
  · next hnotReady => exact ⟨f, [], rfl, .notReady hnotReady⟩
  · obtain ⟨panes', F, heq, hsound, -, hbehind⟩ :=
      Fetching.fetchPanes_spec (Fetching.sound_start env immediate)
        ((f.withBorders env forceBorderCalc).borders.getD [])
    dsimp only
    rw [heq]
    refine ⟨_, _, rfl, .prefetched (show Prefetched _ _ _ _ _ panes' from ⟨hsound.nodup, ?_, ?_, ?_, ?_, hbehind⟩) ?_⟩
    · intro coords hcoords
      obtain ⟨pos, rfl, -, hvalid, -⟩ := hsound.wanted coords hcoords
      exact hvalid
    · intro hsize coords hcoords
      obtain ⟨pos, rfl, hrange, hvalid, -⟩ := hsound.wanted coords hcoords
      exact covers_of_contains hsize hrange hvalid
    · intro coords hcoords
      obtain ⟨pos, rfl, -, -, hfetch⟩ := hsound.wanted coords hcoords
      exact hfetch
    · rintro rfl
      exact hsound.limited.2 _ rfl
    · by_cases hnone : F.finalQueue = [] ∨ (panes'.all fun pane => decide (env.maxBorderWidth ≤ pane.index)) = true
      · exact .inl (if_pos hnone)
      · exact .inr (if_neg hnone)

/-- A document of four tiles by a hundred, of which the first row is shown, to be edited. -/
def wideSheet : Surroundings where
  view := ⟨256, sheetView.tileSize_pos, 1000, 1000, 4000, 100000, 0, 0⟩
  layer := noTiles 0
  emptyTilesCount := 0
  canonicalIdInitialized := true
  zoom := 10
  isEditMode := true
  pixelBounds := ⟨0, 0, 1023, 255⟩
  dpiScale := 1
  split := none

def unused : TilesPreFetcher := ⟨none, none, none, none, none, none, none⟩

theorem run_wideSheet :
    (unused.run [.preFetch wideSheet false false]).map
        (fun run => (run.1.borders.map (·.map PaneBorder.index), run.2)) =
      some (some [1], [[(0, 1), (1, 1), (2, 1), (3, 1), (0, 2)].map (Fetching.coordsAt wideSheet)]) := by
  decide +kernel

theorem index_iterate_widen (range : Bounds Int) (pane : PaneBorder) (n : Nat) :
    ((PaneBorder.widen · range)^[n] pane).index = pane.index + n := by
  induction n with
  | zero => rfl
  | succ n ih =>
    rw [Function.iterate_succ_apply']
    show ((PaneBorder.widen · range)^[n] pane).index + 1 = _
    rw [ih, Nat.add_assoc]

end TilesPreFetcher

end Oxool.Browser
