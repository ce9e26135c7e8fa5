import Mathlib.Data.List.Pairwise
import Oxool.Browser.Tiles

/-!
# Requests for tiles (`_getMissingTiles` and `_addTiles`)

The browser scans the ranges of tiles that are visible, one for each pane where the sheet is split, and
queues the tiles that it does not have. `_addTiles` sorts the queue by rows and takes rectangles out of
it, each of which becomes a request. What the loop takes out of the queue is in one rectangle, and what
it leaves is looked at again: no coordinates are lost, and none come twice that were not queued twice.
Ranges of panes can overlap by the tile that the line between them goes through.
-/

set_option autoImplicit false

namespace Oxool.Browser

/-! ## Ranges -/

/-- `L.Bounds`, in pixels or in tiles. -/
structure Bounds (α : Type) where
  minX : α
  minY : α
  maxX : α
  maxY : α
deriving DecidableEq

/-- What the layer knows of the document and of what is selected. -/
structure View where
  tileSize : Int
  tileSize_pos : 0 < tileSize
  tileWidthTwips : ℚ
  tileHeightTwips : ℚ
  docWidthTwips : ℚ
  docHeightTwips : ℚ
  selectedPart : Int
  selectedMode : Int

/-- `SplitPanesContext.getPxBoundList`. -/
def getPxBoundList (splitX splitY : ℚ) (b : Bounds ℚ) : List (Bounds ℚ) :=
  let topLeft : List (Bounds ℚ) := if splitX ≠ 0 ∧ splitY ≠ 0 then [⟨0, 0, splitX, splitY⟩] else []
  let topRight : List (Bounds ℚ) := if splitY ≠ 0 then [⟨b.minX + splitX, 0, b.maxX, splitY⟩] else []
  let bottomLeft : List (Bounds ℚ) := if splitX ≠ 0 then [⟨0, b.minY + splitY, splitX, b.maxY⟩] else []
  let boundList := topLeft ++ topRight ++ bottomLeft
  if boundList = [] then [b]
  else boundList ++ [⟨b.minX + splitX, b.minY + splitY, b.maxX, b.maxY⟩]

namespace View

variable (V : View)

def pxBoundsToTileRange (b : Bounds ℚ) : Bounds Int :=
  ⟨⌊b.minX / V.tileSize⌋, ⌊b.minY / V.tileSize⌋, ⌊b.maxX / V.tileSize⌋, ⌊b.maxY / V.tileSize⌋⟩

/-- `_pxBoundsToTileRanges`, with the position of a split where there are panes. -/
def pxBoundsToTileRanges (split : Option (ℚ × ℚ)) (b : Bounds ℚ) : List (Bounds Int) :=
  match split with
  | none => [V.pxBoundsToTileRange b]
  | some (splitX, splitY) => (getPxBoundList splitX splitY b).map V.pxBoundsToTileRange

def isValidTile (coords : TileCoordData) : Bool :=
  if coords.x < 0 ∨ coords.y < 0 then false
  else if (coords.x / V.tileSize : ℚ) * V.tileWidthTwips > V.docWidthTwips ∨
      (coords.y / V.tileSize : ℚ) * V.tileHeightTwips > V.docHeightTwips then false
  else true

end View

/-- The numbers from one to another. -/
def intRange (first last : Int) : List Int :=
  (List.range (last + 1 - first).toNat).map fun k : Nat => first + k

/-- The rows and the columns of a range, as the loops come by them. -/
def Bounds.positions (b : Bounds Int) : List (Int × Int) :=
  (intRange b.minY b.maxY).flatMap fun j => (intRange b.minX b.maxX).map fun i => (i, j)

/-! ## The missing tiles -/

namespace View

variable (V : View)

def coordsAt (zoom : Int) (pos : Int × Int) : TileCoordData :=
  ⟨pos.1 * V.tileSize, pos.2 * V.tileSize, zoom, V.selectedPart, V.selectedMode⟩

/-- The body of the loops of `_getMissingTiles`. -/
def scanTile (zoom : Int) (state : Layer × List TileCoordData) (pos : Int × Int) :
    Layer × List TileCoordData :=
  let (L, queue) := state
  let coords := V.coordsAt zoom pos
  if V.isValidTile coords = false then (L, queue)
  else
    match L.find coords.key with
    | none => (L, queue ++ [coords])
    | some r =>
      if (L.heap r).needsFetch then (L, queue ++ [coords])
      else (L.modify r (fun t => { t with current := true }) fun _ => rfl, queue)

def scanRanges (L : Layer) (tileRanges : List (Bounds Int)) (zoom : Int) :
    Layer × List TileCoordData :=
  (tileRanges.flatMap Bounds.positions).foldl (V.scanTile zoom) (L, [])

/-- `_getMissingTiles`. -/
def getMissingTiles (L : Layer) (split : Option (ℚ × ℚ)) (pixelBounds : Bounds ℚ) (zoom : Int) :
    Layer × List TileCoordData :=
  V.scanRanges L (V.pxBoundsToTileRanges split pixelBounds) zoom

/-- The two scans of `_initPreFetchAdjacentTiles`, one after the other. -/
def scanAdjacent (L : Layer) (after before : List (Bounds Int)) (zoom : Int) :
    Layer × List TileCoordData :=
  let (L, queue) := V.scanRanges L after zoom
  let (L, queue') := V.scanRanges L before zoom
  (L, queue ++ queue')

end View

/-! ## Grouping -/

/-- `createTile`. -/
def Layer.createTile (L : Layer) (coords : TileCoordData) (now : Int) : Layer :=
  match h : L.find coords.key with
  | some _ => L
  | none =>
    { L with
      heap := Function.update L.heap L.next (.new coords now)
      tiles := L.tiles ++ [(coords.key, L.next)]
      next := L.next + 1
      keys := by
        rw [List.map_append, List.map_singleton, ← List.concat_eq_append]
        exact L.keys.concat (Assoc.lookup_eq_none.mp h)
      refs := by
        rw [List.map_append, List.map_singleton, ← List.concat_eq_append]
        refine L.refs.concat fun hmem => ?_
        obtain ⟨e, he, heq⟩ := List.mem_map.mp hmem
        exact absurd (L.fresh e he) (Nat.not_lt.mpr (Nat.le_of_eq heq.symm))
      keyed := by
        intro e he
        rcases List.mem_append.mp he with he | he
        · rw [Function.update_of_ne (Nat.ne_of_lt (L.fresh e he))]
          exact L.keyed e he
        · rw [List.mem_singleton.mp he, Function.update_self]
          rfl
      fresh := by
        intro e he
        rcases List.mem_append.mp he with he | he
        · exact Nat.lt_succ_of_lt (L.fresh e he)
        · rw [List.mem_singleton.mp he]
          exact Nat.lt_succ_self _ }

/-- `_tileNeedsFetch`. -/
def Layer.tileNeedsFetch (L : Layer) (key : Oxool.Http.Bytes) : Bool :=
  match L.find key with
  | none => true
  | some r => (L.heap r).needsFetch

/-- The comparison of the sort: by the rows. -/
def compareCoords (a b : TileCoordData) : Int := if a.y ≠ b.y then a.y - b.y else a.x - b.x

/-- The inner loop: what goes into the rectangle, and what stays in the queue. -/
def closeOnes (tileSize : Int) : List TileCoordData → Int → Int → Bool → Bool →
    List TileCoordData × List TileCoordData
  | [], _, _, _, _ => ([], [])
  | current :: rest, boundX, boundY, rowLocked, hasHole =>
    -- extend the bound vertically if possible (so far it was continuous)
    let extend := !hasHole && current.y = boundY + tileSize
    let rowLocked := rowLocked || extend
    let boundY := if extend then boundY + tileSize else boundY
    if current.y > boundY then ([], current :: rest)
    else if !rowLocked then
      if current.y = boundY ∧ current.x = boundX + tileSize then
        -- extend the bound horizontally
        let (close, left) := closeOnes tileSize rest (boundX + tileSize) boundY rowLocked hasHole
        (current :: close, left)
      else
        -- ignore the rest of the row
        let (close, left) := closeOnes tileSize rest boundX boundY true hasHole
        (close, current :: left)
    else if current.x ≤ boundX ∧ current.y ≤ boundY then
      -- we are inside the bound
      let (close, left) := closeOnes tileSize rest boundX boundY rowLocked hasHole
      (current :: close, left)
    else
      -- ignore this one, but there still may be other tiles
      let (close, left) := closeOnes tileSize rest boundX boundY rowLocked true
      (close, current :: left)

/-- Every tile goes into the rectangle or stays in the queue. -/
theorem closeOnes_perm (tileSize : Int) (rest : List TileCoordData) (boundX boundY : Int)
    (rowLocked hasHole : Bool) :
    ((closeOnes tileSize rest boundX boundY rowLocked hasHole).1 ++
      (closeOnes tileSize rest boundX boundY rowLocked hasHole).2).Perm rest := by
  induction rest generalizing boundX boundY rowLocked hasHole with
  | nil => exact .nil
  | cons current rest ih =>
    rw [closeOnes]
    dsimp only
    generalize (if (!hasHole && decide (current.y = boundY + tileSize)) = true then boundY + tileSize
      else boundY) = bound
    generalize (rowLocked || (!hasHole && decide (current.y = boundY + tileSize))) = locked
    split_ifs
    · exact .refl _
    · exact (ih _ _ _ _).cons current
    · exact List.perm_middle.trans ((ih _ _ _ _).cons current)
    · exact (ih _ _ _ _).cons current
    · exact List.perm_middle.trans ((ih _ _ _ _).cons current)

theorem length_left_le (tileSize : Int) (rest : List TileCoordData) (boundX boundY : Int)
    (rowLocked hasHole : Bool) :
    (closeOnes tileSize rest boundX boundY rowLocked hasHole).2.length ≤ rest.length := by
  have h := (closeOnes_perm tileSize rest boundX boundY rowLocked hasHole).length_eq
  rw [List.length_append] at h
  omega

/-- The outer loop: rectangles, as long as there is something in the queue. -/
def rectangles (tileSize : Int) (interesting : TileCoordData → Bool) :
    List TileCoordData → List (List TileCoordData)
  | [] => []
  | coords :: rest =>
    if interesting coords then
      (coords :: (closeOnes tileSize rest coords.x coords.y false false).1) ::
        rectangles tileSize interesting (closeOnes tileSize rest coords.x coords.y false false).2
    else rectangles tileSize interesting rest
termination_by queue => queue.length
decreasing_by
  · exact Nat.lt_succ_of_le (length_left_le ..)
  · exact Nat.lt_succ_self _

namespace View

variable (V : View)

/-- A tile that is to be requested. -/
def interesting (L : Layer) (coords : TileCoordData) : Bool :=
  L.tileNeedsFetch coords.key && coords.part = V.selectedPart && coords.mode = V.selectedMode

/-- The first loop of `_addTiles`. -/
def createTiles (L : Layer) (coordsQueue : List TileCoordData) (now : Int) : Layer :=
  coordsQueue.foldl (fun L coords =>
    if coords.part = V.selectedPart ∧ coords.mode = V.selectedMode then L.createTile coords now else L) L

/-- `_addTiles`: the lists that are handed to `_sendTileCombineRequest`. -/
def addTiles (L : Layer) (coordsQueue : List TileCoordData) (now : Int) :
    Layer × List (List TileCoordData) :=
  let L := V.createTiles L coordsQueue now
  (L, rectangles V.tileSize (V.interesting L)
    (coordsQueue.mergeSort fun a b => compareCoords a b ≤ 0))

end View

/-! ## What the loops do with a queue -/

/-- **Nothing is lost and nothing comes twice**: the rectangles and what is of no interest are the
queue. -/
theorem rectangles_perm (tileSize : Int) (interesting : TileCoordData → Bool)
    (queue : List TileCoordData) :
    ∃ dropped, (∀ c ∈ dropped, interesting c = false) ∧
      ((rectangles tileSize interesting queue).flatten ++ dropped).Perm queue := by
  fun_induction rectangles tileSize interesting queue with
  | case1 => exact ⟨[], by simp, .nil⟩
  | case2 coords rest hcoords ih =>
    obtain ⟨dropped, hdropped, hperm⟩ := ih
    refine ⟨dropped, hdropped, ?_⟩
    rw [List.flatten_cons, List.cons_append, List.cons_append, List.append_assoc]
    exact ((hperm.append_left _).trans (closeOnes_perm ..)).cons coords
  | case3 coords rest hcoords ih =>
    obtain ⟨dropped, hdropped, hperm⟩ := ih
    refine ⟨coords :: dropped, ?_, List.perm_middle.trans (hperm.cons coords)⟩
    intro c hc
    rcases List.mem_cons.mp hc with rfl | hc
    · exact Bool.eq_false_iff.mpr hcoords
    · exact hdropped c hc

/-- A new tile needs to be fetched, as one did that was not there. -/
theorem Layer.tileNeedsFetch_createTile (L : Layer) (coords : TileCoordData) (now : Int) :
    (L.createTile coords now).tileNeedsFetch = L.tileNeedsFetch := by
  funext key
  rw [createTile]
  split
  · rfl
  · rename_i hnone
    simp only [tileNeedsFetch, find, List.lookup_append]
    cases hfind : L.tiles.lookup key with
    | none =>
      rw [Option.none_or, List.lookup_cons]
      cases hkey : key == coords.key with
      | false => rfl
      | true =>
        dsimp only
        rw [Function.update_self]
        rfl
    | some r =>
      have hfresh := L.fresh _ (Assoc.mem_of_lookup hfind)
      rw [Option.some_or]
      dsimp only
      rw [Function.update_of_ne (Nat.ne_of_lt hfresh)]

/-- A tile that counts as visible needs to be fetched no less. -/
theorem Layer.tileNeedsFetch_current (L : Layer) (r : Ref) :
    (L.modify r (fun t => { t with current := true }) fun _ => rfl).tileNeedsFetch =
      L.tileNeedsFetch := by
  funext key
  show (match L.find key with | none => true | some r' => _) =
    (match L.find key with | none => true | some r' => (L.heap r').needsFetch)
  cases L.find key with
  | none => rfl
  | some r' =>
    dsimp only
    rw [modify_heap]
    split
    · rfl
    · rfl

namespace View

variable (V : View)

theorem tileNeedsFetch_createTiles (L : Layer) (coordsQueue : List TileCoordData) (now : Int) :
    (V.createTiles L coordsQueue now).tileNeedsFetch = L.tileNeedsFetch := by
  induction coordsQueue generalizing L with
  | nil => rfl
  | cons coords coordsQueue ih =>
    rw [createTiles, List.foldl_cons, ← createTiles, ih]
    split
    · exact L.tileNeedsFetch_createTile coords now
    · rfl

/-- A tile that a scan puts into the queue. -/
def missing (L : Layer) (coords : TileCoordData) : Bool :=
  V.isValidTile coords && L.tileNeedsFetch coords.key

/-- What a scan comes by at one position. -/
theorem scanTile_missing (zoom : Int) (L : Layer) (queue : List TileCoordData) (pos : Int × Int) :
    (V.scanTile zoom (L, queue) pos).2 = queue ++ [V.coordsAt zoom pos].filter (V.missing L) ∧
      (V.scanTile zoom (L, queue) pos).1.tileNeedsFetch = L.tileNeedsFetch := by
  rw [List.filter_singleton, missing, Layer.tileNeedsFetch, scanTile]
  cases V.isValidTile (V.coordsAt zoom pos) with
  | false => simp
  | true =>
    cases L.find (V.coordsAt zoom pos).key with
    | none => simp
    | some r =>
      cases hfetch : (L.heap r).needsFetch with
      | true => simp [hfetch]
      | false =>
        simp only [hfetch, Bool.true_and, Bool.false_eq_true, Bool.true_eq_false, if_false]
        exact ⟨(List.append_nil queue).symm, L.tileNeedsFetch_current r⟩

/-- **A scan queues the missing tiles**, as often as it comes by them. -/
theorem foldl_scanTile (zoom : Int) (ps : List (Int × Int)) (L : Layer) (queue : List TileCoordData) :
    (ps.foldl (V.scanTile zoom) (L, queue)).2 = queue ++ (ps.map (V.coordsAt zoom)).filter (V.missing L) ∧
      (ps.foldl (V.scanTile zoom) (L, queue)).1.tileNeedsFetch = L.tileNeedsFetch := by
  induction ps generalizing L queue with
  | nil => simp
  | cons pos ps ih =>
    obtain ⟨hqueue, hfetch⟩ := V.scanTile_missing zoom L queue pos
    obtain ⟨hqueue', hfetch'⟩ := ih (V.scanTile zoom (L, queue) pos).1 (V.scanTile zoom (L, queue) pos).2
    have hmissing : V.missing (V.scanTile zoom (L, queue) pos).1 = V.missing L := by
      funext coords
      rw [missing, missing, hfetch]
    refine ⟨?_, hfetch'.trans hfetch⟩
    rw [List.foldl_cons, hqueue', hqueue, hmissing, List.append_assoc, ← List.filter_append]
    rfl

theorem scanRanges_queue (L : Layer) (tileRanges : List (Bounds Int)) (zoom : Int) :
    (V.scanRanges L tileRanges zoom).2 =
      ((tileRanges.flatMap Bounds.positions).map (V.coordsAt zoom)).filter (V.missing L) :=
  (V.foldl_scanTile zoom _ L []).1

theorem scanRanges_tileNeedsFetch (L : Layer) (tileRanges : List (Bounds Int)) (zoom : Int) :
    (V.scanRanges L tileRanges zoom).1.tileNeedsFetch = L.tileNeedsFetch :=
  (V.foldl_scanTile zoom _ L []).2

/-- **Two scans are like one**, of the ranges of both. -/
theorem scanAdjacent_queue (L : Layer) (after before : List (Bounds Int)) (zoom : Int) :
    (V.scanAdjacent L after before zoom).2 =
      (((after ++ before).flatMap Bounds.positions).map (V.coordsAt zoom)).filter (V.missing L) := by
  have hmissing : V.missing (V.scanRanges L after zoom).1 = V.missing L := by
    funext coords
    rw [missing, missing, scanRanges_tileNeedsFetch]
  show (V.scanRanges L after zoom).2 ++ (V.scanRanges (V.scanRanges L after zoom).1 before zoom).2 = _
  rw [scanRanges_queue, scanRanges_queue, hmissing, List.flatMap_append, List.map_append,
    List.filter_append]

theorem scanAdjacent_tileNeedsFetch (L : Layer) (after before : List (Bounds Int)) (zoom : Int) :
    (V.scanAdjacent L after before zoom).1.tileNeedsFetch = L.tileNeedsFetch := by
  show (V.scanRanges (V.scanRanges L after zoom).1 before zoom).1.tileNeedsFetch = _
  rw [scanRanges_tileNeedsFetch, scanRanges_tileNeedsFetch]

end View

/-! ## Each tile once -/

/-- **Nothing is lost and nothing is asked for twice**: what is of interest in the queue is in the lists
once, and no list has coordinates twice, which the server would refuse. -/
structure View.RequestsRight (V : View) (L : Layer) (queue : List TileCoordData)
    (lists : List (List TileCoordData)) : Prop where
  once : ∀ coords ∈ queue, V.interesting L coords = true → lists.flatten.count coords = 1
  queued : lists.flatten ⊆ queue
  distinct : ∀ list ∈ lists, list.Nodup

/-- No tile that is missing lies in two of the ranges. -/
def View.NoneTwice (V : View) (L : Layer) (zoom : Int) (tileRanges : List (Bounds Int)) : Prop :=
  tileRanges.Pairwise fun a b =>
    ∀ pos ∈ a.positions, pos ∈ b.positions → V.missing L (V.coordsAt zoom pos) = false

theorem mem_intRange {first last n : Int} : n ∈ intRange first last ↔ first ≤ n ∧ n ≤ last := by
  simp only [intRange, List.mem_map, List.mem_range]
  constructor
  · rintro ⟨k, hk, rfl⟩
    omega
  · rintro ⟨hfirst, hlast⟩
    exact ⟨(n - first).toNat, by omega, by omega⟩

theorem nodup_intRange (first last : Int) : (intRange first last).Nodup :=
  List.nodup_range.map fun k k' hk => by simpa using hk

/-- The positions of a range are those between its corners. -/
theorem Bounds.mem_positions {b : Bounds Int} {pos : Int × Int} :
    pos ∈ b.positions ↔
      (b.minX ≤ pos.1 ∧ pos.1 ≤ b.maxX) ∧ b.minY ≤ pos.2 ∧ pos.2 ≤ b.maxY := by
  obtain ⟨i, j⟩ := pos
  simp [positions, mem_intRange, and_comm]

theorem Bounds.nodup_positions (b : Bounds Int) : b.positions.Nodup := by
  refine List.nodup_flatMap.mpr ⟨fun j _ => ?_, ?_⟩
  · exact (nodup_intRange _ _).map fun i i' hi => congrArg Prod.fst hi
  · refine (nodup_intRange b.minY b.maxY).imp fun {j j'} hne pos hpos hpos' => ?_
    obtain ⟨i, -, rfl⟩ := List.mem_map.mp hpos
    obtain ⟨i', -, heq⟩ := List.mem_map.mp hpos'
    exact hne (congrArg Prod.snd heq).symm

namespace View

variable (V : View)

theorem coordsAt_injective (zoom : Int) : Function.Injective (V.coordsAt zoom) := by
  intro pos pos' h
  have hsize := (Int.ne_of_gt V.tileSize_pos)
  simp only [coordsAt, TileCoordData.mk.injEq, and_true] at h
  exact Prod.ext (Int.eq_of_mul_eq_mul_right hsize h.1) (Int.eq_of_mul_eq_mul_right hsize h.2)

/-- **The queue of a scan has a tile twice where two ranges have it.** -/
theorem nodup_queue_iff (L : Layer) (zoom : Int) (tileRanges : List (Bounds Int)) :
    (((tileRanges.flatMap Bounds.positions).map (V.coordsAt zoom)).filter (V.missing L)).Nodup ↔
      V.NoneTwice L zoom tileRanges := by
  rw [List.filter_map, List.nodup_map_iff (V.coordsAt_injective zoom), List.filter_flatMap,
    List.nodup_flatMap, NoneTwice]
  constructor
  · rintro ⟨-, hpairs⟩
    refine hpairs.imp fun {a b} hab pos ha hb => ?_
    by_contra hmissing
    rw [Bool.not_eq_false] at hmissing
    exact hab (List.mem_filter.mpr ⟨ha, hmissing⟩) (List.mem_filter.mpr ⟨hb, hmissing⟩)
  · intro hpairs
    refine ⟨fun b _ => b.nodup_positions.filter _, hpairs.imp fun {a b} hab pos ha hb => ?_⟩
    obtain ⟨ha, hmissing⟩ := List.mem_filter.mp ha
    have hnone := hab pos ha (List.mem_of_mem_filter hb)
    exact absurd hmissing (by simp [hnone])

/-- Where all of the queue is of interest, the lists are the queue. -/
theorem flatten_addTiles_perm (L : Layer) (queue : List TileCoordData) (now : Int)
    (hall : ∀ coords ∈ queue, V.interesting L coords = true) :
    (V.addTiles L queue now).2.flatten.Perm queue := by
  have hinteresting : V.interesting (V.createTiles L queue now) = V.interesting L := by
    funext coords
    rw [interesting, interesting, tileNeedsFetch_createTiles]
  rw [addTiles]
  dsimp only
  rw [hinteresting]
  obtain ⟨dropped, hdropped, hperm⟩ := rectangles_perm V.tileSize (V.interesting L)
    (queue.mergeSort fun a b => compareCoords a b ≤ 0)
  have hperm := hperm.trans (List.mergeSort_perm _ _)
  cases dropped with
  | nil => rwa [List.append_nil] at hperm
  | cons coords dropped =>
    -- what is dropped is in the queue
    have hmem : coords ∈ queue := hperm.subset (List.mem_append_right _ List.mem_cons_self)
    have hno := hdropped coords List.mem_cons_self
    rw [hall coords hmem] at hno
    exact absurd hno Bool.noConfusion

theorem requestsRight_iff_nodup (L : Layer) (queue : List TileCoordData) (now : Int)
    (hall : ∀ coords ∈ queue, V.interesting L coords = true) :
    V.RequestsRight L queue (V.addTiles L queue now).2 ↔ queue.Nodup := by
  have hperm := V.flatten_addTiles_perm L queue now hall
  constructor
  · intro hright
    refine List.nodup_iff_count_eq_one.mpr fun coords hcoords => ?_
    rw [← hperm.count_eq]
    exact hright.once coords hcoords (hall coords hcoords)
  · intro hnodup
    have hlists := hperm.nodup_iff.mpr hnodup
    refine ⟨fun coords hcoords _ => ?_, hperm.subset, fun list hlist => ?_⟩
    · rw [hperm.count_eq]
      exact List.count_eq_one_of_mem hnodup hcoords
    · exact hlists.sublist (List.sublist_flatten_of_mem hlist)

/-- What a scan queues is of interest. -/
theorem interesting_of_queued (L L' : Layer) (zoom : Int) (ps : List (Int × Int))
    (hfetch : L'.tileNeedsFetch = L.tileNeedsFetch) :
    ∀ coords ∈ (ps.map (V.coordsAt zoom)).filter (V.missing L), V.interesting L' coords = true := by
  intro coords hcoords
  obtain ⟨hmem, hmissing⟩ := List.mem_filter.mp hcoords
  obtain ⟨pos, -, rfl⟩ := List.mem_map.mp hmem
  rw [missing, Bool.and_eq_true] at hmissing
  rw [interesting, hfetch, hmissing.2]
  simp [coordsAt]

theorem requests_of_scanRanges (L : Layer) (zoom now : Int) (tileRanges : List (Bounds Int)) :
    V.RequestsRight (V.scanRanges L tileRanges zoom).1 (V.scanRanges L tileRanges zoom).2
        (V.addTiles (V.scanRanges L tileRanges zoom).1 (V.scanRanges L tileRanges zoom).2 now).2 ↔
      V.NoneTwice L zoom tileRanges := by
  rw [← nodup_queue_iff, ← scanRanges_queue]
  refine V.requestsRight_iff_nodup _ _ now ?_
  rw [scanRanges_queue]
  exact V.interesting_of_queued L _ zoom _ (V.scanRanges_tileNeedsFetch L tileRanges zoom)

theorem requests_of_scanAdjacent (L : Layer) (zoom now : Int) (after before : List (Bounds Int)) :
    V.RequestsRight (V.scanAdjacent L after before zoom).1 (V.scanAdjacent L after before zoom).2
        (V.addTiles (V.scanAdjacent L after before zoom).1 (V.scanAdjacent L after before zoom).2 now).2 ↔
      V.NoneTwice L zoom (after ++ before) := by
  rw [← nodup_queue_iff, ← scanAdjacent_queue]
  refine V.requestsRight_iff_nodup _ _ now ?_
  rw [scanAdjacent_queue]
  exact V.interesting_of_queued L _ zoom _ (V.scanAdjacent_tileNeedsFetch L after before zoom)

/-- **The requests are right exactly where no missing tile lies in two of the ranges**, those of the
panes or those before and after what is visible. -/
theorem addTiles_right_iff (L : Layer) (zoom now : Int) :
    (∀ tileRanges : List (Bounds Int),
      V.RequestsRight (V.scanRanges L tileRanges zoom).1 (V.scanRanges L tileRanges zoom).2
          (V.addTiles (V.scanRanges L tileRanges zoom).1 (V.scanRanges L tileRanges zoom).2 now).2 ↔
        V.NoneTwice L zoom tileRanges) ∧
      ∀ after before : List (Bounds Int),
        V.RequestsRight (V.scanAdjacent L after before zoom).1 (V.scanAdjacent L after before zoom).2
            (V.addTiles (V.scanAdjacent L after before zoom).1
              (V.scanAdjacent L after before zoom).2 now).2 ↔
          V.NoneTwice L zoom (after ++ before) :=
  ⟨V.requests_of_scanRanges L zoom now, V.requests_of_scanAdjacent L zoom now⟩

end View

/-- A layer without tiles. -/
def noTiles (now : Int) : Layer where
  heap := fun _ => .new ⟨0, 0, 0, 0, 0⟩ now
  tiles := []
  next := 0
  gcCounter := 0
  keys := List.nodup_nil
  refs := List.nodup_nil
  keyed := by simp
  fresh := by simp

/-- A sheet with tiles of 256 pixels. -/
def sheetView : View where
  tileSize := 256
  tileSize_pos := by decide
  tileWidthTwips := 3840
  tileHeightTwips := 3840
  docWidthTwips := 100000
  docHeightTwips := 100000
  selectedPart := 0
  selectedMode := 0

/-- Columns are frozen, and the line is at 300 pixels: its tile is in both panes. -/
theorem frozenRanges :
    sheetView.pxBoundsToTileRanges (some (300, 0)) ⟨0, 0, 700, 100⟩ = [⟨0, 0, 1, 0⟩, ⟨1, 0, 2, 0⟩] := by
  have hfloor : ⌊(300 / 256 : ℚ)⌋ = 1 ∧ ⌊(700 / 256 : ℚ)⌋ = 2 ∧ ⌊(100 / 256 : ℚ)⌋ = 0 := by
    norm_num [Int.floor_eq_iff]
  simp [View.pxBoundsToTileRanges, getPxBoundList, View.pxBoundsToTileRange, sheetView, hfloor]

/-- The tile at the line between two panes is asked for twice. -/
theorem not_addTiles_right :
    ¬ ∀ (V : View) (L : Layer) (zoom now : Int) (split : Option (ℚ × ℚ)) (pixelBounds : Bounds ℚ),
      V.RequestsRight (V.getMissingTiles L split pixelBounds zoom).1
        (V.getMissingTiles L split pixelBounds zoom).2
        (V.addTiles (V.getMissingTiles L split pixelBounds zoom).1
          (V.getMissingTiles L split pixelBounds zoom).2 now).2 := by
  intro hright
  have hnone := (sheetView.requests_of_scanRanges (noTiles 0) 10 0 _).mp
    (hright sheetView (noTiles 0) 10 0 (some (300, 0)) ⟨0, 0, 700, 100⟩)
  rw [frozenRanges] at hnone
  have htile := List.rel_of_pairwise_cons hnone List.mem_cons_self (1, 0)
    (Bounds.mem_positions.mpr (by decide)) (Bounds.mem_positions.mpr (by decide))
  rw [View.missing, Bool.and_eq_false_iff] at htile
  rcases htile with hvalid | hfetch
  · norm_num [View.isValidTile, View.coordsAt, sheetView] at hvalid
  · exact absurd hfetch (by decide)

end Oxool.Browser
