import Oxool.Kit.Windows
import Oxool.Wsd.TileCache

/-!
# Invalidations on the server (`TileCache::parseInvalidateMsg`, `TileCache::invalidateTiles`)

The kit says in a message which area of the document has changed, and every cached tile that the area
meets is marked: it stays, as a base for deltas, but is no longer valid. Whether two areas meet is
asked of their edges, and an edge is a place and a size added as `int`s. No number in the message or
in a tile is negative, so an edge that is beyond the largest `int` comes out negative and meets
nothing: a tile under it stays valid. `Oxool.Wsd.TileCache` has the same test in integers.

The wire id in the message is checked and not used.
-/

set_option autoImplicit false

namespace Oxool.Wsd.Tiles

open Oxool.Http (Bytes ascii)
open Oxool.Kit (IntRectangle)
open Oxool.Protocol

/-! ## The message -/

/-- What `parseInvalidateMsg` gives back; part -1 stands for every part. -/
structure Invalidated where
  area : IntRectangle
  part : Int
  mode : Int
deriving DecidableEq

namespace Invalidated

/-- The whole document, as far as an `int` goes. -/
def everything (part mode : Int) : Invalidated := ⟨.ofSize 0 0 intMax intMax, part, mode⟩

/-- An unexpected message, in a build without assertions. -/
def unexpected (mode : Int) : Invalidated := ⟨.ofSize 0 0 0 0, -1, mode⟩

end Invalidated

/-- `getNonNegTokenInteger`. -/
def getNonNegTokenInteger (name token : Bytes) : Option Int :=
  (tokenInteger name token).filter (0 ≤ ·)

/-- `StringVector::getUInt32`, whether it answers yes. -/
def hasUInt32 (name token : Bytes) : Bool := (getUInt32 name token).any (· < 0xffffffff)

/-- The fields from the position on. -/
def readArea (x y width height wid : Bytes) : Option IntRectangle := do
  let x ← getNonNegTokenInteger (ascii "x") x
  let y ← getNonNegTokenInteger (ascii "y") y
  let width ← getNonNegTokenInteger (ascii "width") width
  let height ← getNonNegTokenInteger (ascii "height") height
  if hasUInt32 (ascii "wid") wid then some (.ofSize x y width height) else none

def parseInvalidateMsg (tiles : Bytes) : Invalidated :=
  match tokenize tiles blank with
  | [_, word] => if word = ascii "EMPTY" then .everything (-1) 0 else .unexpected 0
  | [_, word, _] => if word = ascii "EMPTY," then .everything (-1) 0 else .unexpected 0
  | [_, word, part, _] =>
    if word = ascii "EMPTY," then
      match stringToInteger part with
      | some part => .everything part 0
      | none => .unexpected 0
    else .unexpected 0
  | [_, word, part, mode, _] =>
    if word = ascii "EMPTY," then
      match stringToInteger part with
      | some part =>
        match stringToInteger mode with
        | some mode => .everything part mode
        -- the mode is stored before the answer is looked at
        | none => .unexpected (((strtol mode).map fun r => toInt32 r.1).getD 0)
      | none => .unexpected 0
    else .unexpected 0
  | [_, part, x, y, width, height, wid] =>
    match tokenInteger (ascii "part") part with
    | some part =>
      match readArea x y width height wid with
      | some area => ⟨area, part, 0⟩
      | none => .unexpected 0
    | none => .unexpected 0
  | [_, part, mode, x, y, width, height, wid] =>
    match tokenInteger (ascii "part") part, tokenInteger (ascii "mode") mode with
    | some part, some mode =>
      match readArea x y width height wid with
      | some area => ⟨area, part, mode⟩
      | none => .unexpected mode
    | _, _ => .unexpected 0
  | _ => .unexpected 0

/-! ## The tests, in `int`s -/

/-- `TileDesc::rectanglesIntersect`. -/
def rectanglesIntersect (x1 y1 w1 h1 x2 y2 w2 h2 : Int) : Bool :=
  decide (x2 ≤ toInt32 (x1 + w1)) && decide (x1 ≤ toInt32 (x2 + w2)) &&
    decide (y2 ≤ toInt32 (y1 + h1)) && decide (y1 ≤ toInt32 (y2 + h2))

/-- `TileDesc::intersectsWithRect`. -/
def intersectsWithRect (k : CacheKey) (x y w h : Int) : Bool :=
  rectanglesIntersect k.tilePosX k.tilePosY k.tileWidth k.tileHeight x y w h

/-- `TileCache::intersectsTile`, as it is compiled. -/
def intersectsTile (k : CacheKey) (part mode x y width height : Int) (normalizedViewId : Nat) :
    Bool :=
  if part ≠ -1 ∧ (k.part : Int) ≠ part then false
  else if mode ≠ k.mode then false
  else if normalizedViewId ≠ k.normalizedViewId then false
  else
    let left := max x k.tilePosX
    let right := min (toInt32 (x + width)) (toInt32 (k.tilePosX + k.tileWidth))
    let top := max y k.tilePosY
    let bottom := min (toInt32 (y + height)) (toInt32 (k.tilePosY + k.tileHeight))
    decide (left ≤ right) && decide (top ≤ bottom)

/-- `TileCache::invalidateTiles`, of a message. -/
def invalidateTiles (c : TileCache) (tiles : Bytes) (normalizedViewId : Nat) : TileCache :=
  let i := parseInvalidateMsg tiles
  { c with cache := c.cache.map fun e =>
      (e.1, if intersectsTile e.1 i.part i.mode i.area.x1 i.area.y1 i.area.getWidth i.area.getHeight
          normalizedViewId then { e.2 with valid := false } else e.2) }

/-! ## What is asked -/

/-- The tile and the area have a point in common, edges included. -/
def Meets (k : CacheKey) (x y width height : Int) : Prop :=
  max x k.tilePosX ≤ min (x + width) (k.tilePosX + k.tileWidth) ∧
    max y k.tilePosY ≤ min (y + height) (k.tilePosY + k.tileHeight)

instance (k : CacheKey) (x y width height : Int) : Decidable (Meets k x y width height) :=
  inferInstanceAs (Decidable (_ ∧ _))

/-- The tests answer as they do in integers, for every tile in the cache, and the tiles marked are
those that the area meets. -/
structure HitsExactly (c : TileCache) (tiles : Bytes) (normalizedViewId : Nat) : Prop where
  tests : let i := parseInvalidateMsg tiles
    ∀ e ∈ c.cache, intersectsTile e.1 i.part i.mode i.area.x1 i.area.y1 i.area.getWidth
      i.area.getHeight normalizedViewId = TileCache.intersectsTile e.1 i.part i.mode i.area.x1
        i.area.y1 i.area.getWidth i.area.getHeight normalizedViewId
  rectangles : let i := parseInvalidateMsg tiles
    ∀ e ∈ c.cache, intersectsWithRect e.1 i.area.x1 i.area.y1 i.area.getWidth i.area.getHeight =
      decide (Meets e.1 i.area.x1 i.area.y1 i.area.getWidth i.area.getHeight)
  marked : let i := parseInvalidateMsg tiles
    invalidateTiles c tiles normalizedViewId = c.invalidateTiles i.part i.mode i.area.x1 i.area.y1
      i.area.getWidth i.area.getHeight normalizedViewId

/-- No edge of the tile or of the area is beyond the largest `int`. -/
structure EdgesFit (k : CacheKey) (x y width height : Int) : Prop where
  right : x + width ≤ intMax
  bottom : y + height ≤ intMax
  tileRight : (k.tilePosX : Int) + k.tileWidth ≤ intMax
  tileBottom : (k.tilePosY : Int) + k.tileHeight ≤ intMax

/-- The key of a tile that the constructor has taken. -/
structure IsTileKey (k : CacheKey) : Prop where
  tilePosX : IsInt32 k.tilePosX
  tilePosY : IsInt32 k.tilePosY
  tileWidth : IsInt32 k.tileWidth
  tileHeight : IsInt32 k.tileHeight

/-! ## The area of a message -/

/-- What the numbers of a message can be. -/
structure IsArea (x y width height : Int) : Prop where
  x : 0 ≤ x ∧ x ≤ intMax
  y : 0 ≤ y ∧ y ≤ intMax
  width : 0 ≤ width ∧ width ≤ intMax
  height : 0 ≤ height ∧ height ≤ intMax

theorem toInt32_edge {x width : Int} (hx : 0 ≤ x ∧ x ≤ intMax) (hwidth : 0 ≤ width ∧ width ≤ intMax) :
    toInt32 (x + width) = if x + width ≤ intMax then x + width else x + width - 2 ^ 32 := by
  have hmax : (intMax : Int) = 2 ^ 31 - 1 := rfl
  split
  · exact toInt32_eq ⟨by omega, by omega⟩
  · exact Kit.toInt32_of_over (by omega) (by omega)

/-- A size is the distance of the edges, also where an edge wraps around. -/
theorem toInt32_edge_sub {x width : Int} (hx : 0 ≤ x ∧ x ≤ intMax)
    (hwidth : 0 ≤ width ∧ width ≤ intMax) : toInt32 (toInt32 (x + width) - x) = width := by
  have hmax : (intMax : Int) = 2 ^ 31 - 1 := rfl
  rw [toInt32_edge hx hwidth]
  split
  · rw [toInt32_eq ⟨by omega, by omega⟩]
    omega
  · rw [toInt32, Int.bmod_def]
    split <;> omega

theorem getNonNegTokenInteger_range {name token : Bytes} {n : Int}
    (h : getNonNegTokenInteger name token = some n) : 0 ≤ n ∧ n ≤ intMax := by
  unfold getNonNegTokenInteger at h
  obtain ⟨hread, hnonneg⟩ := Option.filter_eq_some_iff.mp h
  unfold tokenInteger at hread
  obtain ⟨r, -, rfl⟩ := Option.map_eq_some_iff.mp hread
  have hmax : (intMax : Int) = 2 ^ 31 - 1 := rfl
  have hrange := isInt32_toInt32 r.1
  obtain ⟨hmin, hlt⟩ := hrange
  exact ⟨by simpa using hnonneg, by omega⟩

theorem readArea_isArea {x y width height wid : Bytes} {area : IntRectangle}
    (h : readArea x y width height wid = some area) :
    ∃ x y width height, IsArea x y width height ∧ area = .ofSize x y width height := by
  unfold readArea at h
  simp only [Option.bind_eq_bind, Option.bind_eq_some_iff] at h
  obtain ⟨a, ha, b, hb, c, hc, d, hd, h⟩ := h
  split at h
  · obtain rfl := Option.some.inj h
    exact ⟨a, b, c, d, ⟨getNonNegTokenInteger_range ha, getNonNegTokenInteger_range hb,
      getNonNegTokenInteger_range hc, getNonNegTokenInteger_range hd⟩, rfl⟩
  · cases h

/-- **What `parseInvalidateMsg` can return.** -/
theorem parseInvalidateMsg_isArea (tiles : Bytes) :
    ∃ x y width height, IsArea x y width height ∧
      (parseInvalidateMsg tiles).area = .ofSize x y width height := by
  have heverything : ∀ part mode, ∃ x y width height, IsArea x y width height ∧
      (Invalidated.everything part mode).area = .ofSize x y width height := fun part mode =>
    ⟨0, 0, intMax, intMax, ⟨by decide, by decide, by decide, by decide⟩, rfl⟩
  have hunexpected : ∀ mode, ∃ x y width height, IsArea x y width height ∧
      (Invalidated.unexpected mode).area = .ofSize x y width height := fun mode =>
    ⟨0, 0, 0, 0, ⟨by decide, by decide, by decide, by decide⟩, rfl⟩
  -- one case for each branch of the reader
  unfold parseInvalidateMsg
  repeat' split
  all_goals first
    | exact heverything _ _
    | exact hunexpected _
    | exact readArea_isArea ‹_›

/-! ## One direction -/

variable {x width p t : Int}

/-- In one direction the two meet in `int`s when they do and no edge is too far. -/
theorem edges_le_iff (hx : 0 ≤ x ∧ x ≤ intMax) (hwidth : 0 ≤ width ∧ width ≤ intMax)
    (hp : 0 ≤ p ∧ p ≤ intMax) (ht : 0 ≤ t ∧ t ≤ intMax) :
    max x p ≤ min (toInt32 (x + width)) (toInt32 (p + t)) ↔
      max x p ≤ min (x + width) (p + t) ∧ x + width ≤ intMax ∧ p + t ≤ intMax := by
  have hmax : (intMax : Int) = 2 ^ 31 - 1 := rfl
  rw [toInt32_edge hx hwidth, toInt32_edge hp ht]
  split <;> split <;> omega

theorem edges_cross_iff (hx : 0 ≤ x ∧ x ≤ intMax) (hwidth : 0 ≤ width ∧ width ≤ intMax)
    (hp : 0 ≤ p ∧ p ≤ intMax) (ht : 0 ≤ t ∧ t ≤ intMax) :
    x ≤ toInt32 (p + t) ∧ p ≤ toInt32 (x + width) ↔
      max x p ≤ min (x + width) (p + t) ∧ x + width ≤ intMax ∧ p + t ≤ intMax := by
  have hmax : (intMax : Int) = 2 ^ 31 - 1 := rfl
  rw [toInt32_edge hx hwidth, toInt32_edge hp ht]
  split <;> split <;> omega

/-! ## Both directions -/

section Area

variable {k : CacheKey} {x y width height : Int}

theorem IsTileKey.range {n : Nat} (h : IsInt32 n) : 0 ≤ (n : Int) ∧ (n : Int) ≤ intMax := by
  have hmax : (intMax : Int) = 2 ^ 31 - 1 := rfl
  obtain ⟨-, hlt⟩ := h
  exact ⟨Int.natCast_nonneg n, by omega⟩

/-- The two directions put together. -/
theorem meets_and_edgesFit_iff : Meets k x y width height ∧ EdgesFit k x y width height ↔
    (max x k.tilePosX ≤ min (x + width) (k.tilePosX + k.tileWidth) ∧
      x + width ≤ intMax ∧ (k.tilePosX : Int) + k.tileWidth ≤ intMax) ∧
    (max y k.tilePosY ≤ min (y + height) (k.tilePosY + k.tileHeight) ∧
      y + height ≤ intMax ∧ (k.tilePosY : Int) + k.tileHeight ≤ intMax) := by
  constructor
  · rintro ⟨⟨hhoriz, hvert⟩, hright, hbottom, htileRight, htileBottom⟩
    exact ⟨⟨hhoriz, hright, htileRight⟩, hvert, hbottom, htileBottom⟩
  · rintro ⟨⟨hhoriz, hright, htileRight⟩, hvert, hbottom, htileBottom⟩
    exact ⟨⟨hhoriz, hvert⟩, hright, hbottom, htileRight, htileBottom⟩

/-- The two areas meet in `int`s when they do and no edge is too far. -/
theorem intersectsWithRect_iff (hk : IsTileKey k) (ha : IsArea x y width height) :
    intersectsWithRect k x y width height = true ↔
      Meets k x y width height ∧ EdgesFit k x y width height := by
  have hhoriz := edges_cross_iff ha.x ha.width (IsTileKey.range hk.tilePosX)
    (IsTileKey.range hk.tileWidth)
  have hvert := edges_cross_iff ha.y ha.height (IsTileKey.range hk.tilePosY)
    (IsTileKey.range hk.tileHeight)
  rw [meets_and_edgesFit_iff, ← hhoriz, ← hvert]
  unfold intersectsWithRect rectanglesIntersect
  simp only [Bool.and_eq_true, decide_eq_true_eq]
  constructor
  · rintro ⟨⟨⟨hleft, hright⟩, htop⟩, hbottom⟩
    exact ⟨⟨hleft, hright⟩, htop, hbottom⟩
  · rintro ⟨⟨hleft, hright⟩, htop, hbottom⟩
    exact ⟨⟨⟨hleft, hright⟩, htop⟩, hbottom⟩

/-- The test of the cache is that of the areas, for a tile of the part, mode and view. -/
theorem intersectsTile_iff (hk : IsTileKey k) (ha : IsArea x y width height) {part mode : Int}
    {normalizedViewId : Nat} :
    intersectsTile k part mode x y width height normalizedViewId = true ↔
      TileCache.intersectsTile k part mode x y width height normalizedViewId = true ∧
        EdgesFit k x y width height := by
  have hhoriz := edges_le_iff ha.x ha.width (IsTileKey.range hk.tilePosX)
    (IsTileKey.range hk.tileWidth)
  have hvert := edges_le_iff ha.y ha.height (IsTileKey.range hk.tilePosY)
    (IsTileKey.range hk.tileHeight)
  unfold intersectsTile TileCache.intersectsTile
  by_cases hpart : part ≠ -1 ∧ (k.part : Int) ≠ part
  · rw [if_pos hpart]
    simp [hpart.1, hpart.2]
  · have hpart' : (part == -1 || (k.part : Int) == part) = true := by
      rw [Bool.or_eq_true, beq_iff_eq, beq_iff_eq]
      by_contra hnot
      exact hpart (not_or.mp hnot)
    rw [if_neg hpart, hpart', Bool.true_and]
    by_cases hmode : mode = k.mode
    · by_cases hview : normalizedViewId = k.normalizedViewId
      · rw [if_neg (not_not.mpr hmode), if_neg (not_not.mpr hview), beq_iff_eq.mpr hmode,
          beq_iff_eq.mpr hview]
        simp only [Bool.and_eq_true, decide_eq_true_eq, true_and]
        rw [hhoriz, hvert]
        exact meets_and_edgesFit_iff.symm
      · rw [if_neg (not_not.mpr hmode), if_pos hview]
        simp [hview]
    · rw [if_pos hmode]
      simp [hmode]

end Area

/-- Two tests of which one asks for more agree when the other one gives that. -/
theorem eq_iff_imp {a b : Bool} {P : Prop} (h : a = true ↔ b = true ∧ P) :
    a = b ↔ (b = true → P) := by
  cases a <;> cases b <;> simp_all

/-- A tile that the cache's test hits meets the area. -/
theorem meets_of_intersectsTile {k : CacheKey} {part mode x y width height : Int}
    {normalizedViewId : Nat}
    (h : TileCache.intersectsTile k part mode x y width height normalizedViewId = true) :
    Meets k x y width height := by
  unfold TileCache.intersectsTile at h
  simp only [Bool.and_eq_true, decide_eq_true_eq] at h
  exact ⟨h.1.2, h.2⟩

/-- **Invalidation hits every tile it overlaps**, for a message and a cache, exactly when no edge of
the area or of a tile that it meets is beyond the largest `int`. -/
theorem hitsExactly_iff (tiles : Bytes) (normalizedViewId : Nat) (c : TileCache)
    (hkeys : ∀ e ∈ c.cache, IsTileKey e.1) :
    HitsExactly c tiles normalizedViewId ↔
      ∀ e ∈ c.cache, let area := (parseInvalidateMsg tiles).area
        Meets e.1 area.x1 area.y1 area.getWidth area.getHeight →
          EdgesFit e.1 area.x1 area.y1 area.getWidth area.getHeight := by
  obtain ⟨x, y, width, height, ha, harea⟩ := parseInvalidateMsg_isArea tiles
  have hwidth : (IntRectangle.ofSize x y width height).getWidth = width :=
    toInt32_edge_sub ha.x ha.width
  have hheight : (IntRectangle.ofSize x y width height).getHeight = height :=
    toInt32_edge_sub ha.y ha.height
  have hx1 : (IntRectangle.ofSize x y width height).x1 = x := rfl
  have hy1 : (IntRectangle.ofSize x y width height).y1 = y := rfl
  constructor
  · intro h e he
    have hrectangles := h.rectangles e he
    simp only [harea, hx1, hy1, hwidth, hheight] at hrectangles ⊢
    intro hmeets
    have hboth := intersectsWithRect_iff (hkeys e he) ha
    rw [hrectangles, decide_eq_true_eq] at hboth
    exact (hboth.mp hmeets).2
  · intro hfit
    simp only [harea, hx1, hy1, hwidth, hheight] at hfit
    have htests : ∀ e ∈ c.cache, ∀ part mode, intersectsTile e.1 part mode x y width height
        normalizedViewId = TileCache.intersectsTile e.1 part mode x y width height
          normalizedViewId := by
      intro e he part mode
      apply (eq_iff_imp (intersectsTile_iff (hkeys e he) ha)).mpr
      intro hhit
      exact hfit e he (meets_of_intersectsTile hhit)
    refine ⟨?_, ?_, ?_⟩
    · simp only [harea, hx1, hy1, hwidth, hheight]
      intro e he
      exact htests e he _ _
    · simp only [harea, hx1, hy1, hwidth, hheight]
      intro e he
      apply (eq_iff_imp ((intersectsWithRect_iff (hkeys e he) ha).trans
        (and_congr_left fun _ => decide_eq_true_iff.symm))).mpr
      intro hmeets
      exact hfit e he (of_decide_eq_true hmeets)
    · simp only [harea, hx1, hy1, hwidth, hheight, invalidateTiles, TileCache.invalidateTiles]
      congr 1
      apply List.map_congr_left
      intro e he
      rw [htests e he]

/-! ## Two messages -/

/-- The tile at the top left. -/
def cornerKey : CacheKey :=
  { part := 0
    width := 256
    height := 256
    tilePosX := 0
    tilePosY := 0
    tileWidth := 3840
    tileHeight := 3840
    normalizedViewId := 1000
    mode := 0 }

/-- A cache with that tile in it. -/
def cornerCache : TileCache := ⟨[(cornerKey, TileData.new 1 [0x5a, 0])], []⟩

theorem isTileKey_cornerCache : ∀ e ∈ cornerCache.cache, IsTileKey e.1 := by
  intro e he
  obtain rfl := List.mem_singleton.mp he
  exact ⟨by decide, by decide, by decide, by decide⟩

def wholeDocument : Bytes := ascii "invalidatetiles: EMPTY, 0, 0, wid=7"

/-- From the second column on, and as far as an `int` goes. -/
def fromSecondColumn : Bytes :=
  ascii "invalidatetiles: part=0 x=1 y=0 width=2147483647 height=2147483647 wid=7"

theorem parse_wholeDocument : parseInvalidateMsg wholeDocument = .everything 0 0 := by
  rw [wholeDocument, Http.ascii_ofList]
  decide +kernel

theorem parse_fromSecondColumn :
    parseInvalidateMsg fromSecondColumn = ⟨.ofSize 1 0 intMax intMax, 0, 0⟩ := by
  rw [fromSecondColumn, Http.ascii_ofList]
  decide +kernel

theorem hitsExactly_wholeDocument : HitsExactly cornerCache wholeDocument 1000 := by
  apply (hitsExactly_iff wholeDocument 1000 cornerCache isTileKey_cornerCache).mpr
  intro e he area _
  obtain rfl := List.mem_singleton.mp he
  have harea : area = (Invalidated.everything 0 0).area := congrArg Invalidated.area parse_wholeDocument
  rw [harea]
  exact ⟨by decide, by decide, by decide, by decide⟩

/-- The tile that the area covers but for its first column stays valid. -/
theorem not_hitsExactly : ¬ HitsExactly cornerCache fromSecondColumn 1000 := by
  intro h
  have htests := h.tests (cornerKey, TileData.new 1 [0x5a, 0]) List.mem_cons_self
  rw [parse_fromSecondColumn] at htests
  exact absurd htests (by decide)

end Oxool.Wsd.Tiles
