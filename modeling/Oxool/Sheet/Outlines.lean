import Mathlib.Data.List.Enum
import Mathlib.Data.List.TakeDrop
import Oxool.Sheet.Geometry

/-!
# The outline of a dimension (`browser/src/layer/tile/SheetGeometry.ts`)

Rows and columns are grouped on several levels. `forEachGroupInRange` tells its caller which groups a
range of elements meets: on each level it looks for the first group that does not end before the range
starts, by the binary search of `Oxool.Lib.BinarySearch`, and goes on from there. The search is told that
it has arrived by a group the element is in, and by a group with the element in the gap before it.

`end` of an entry is `last` here.
-/

set_option autoImplicit false

namespace Oxool.Sheet

open Oxool.Http (Bytes)
open Oxool.Protocol

/-! ## The code -/

def comma : UInt8 := 44

structure OutlineEntry where
  start : Int
  last : Int
  hidden : Int
  visible : Int
deriving DecidableEq

/-- The groups of each level. -/
abbrev DimensionOutlines := List (List OutlineEntry)

/-- An entry has the size of its group in the place of the end. -/
def parseEntry (entry : Bytes) : Option OutlineEntry :=
  match entry.splitOn colon with
  | start :: size :: hidden :: visible :: _ => do
    let start ← parseInt start
    let size ← parseInt size
    let hidden ← parseInt hidden
    let visible ← parseInt visible
    return ⟨start, size + (start - 1), hidden, visible⟩
  | _ => none

def parseCollection (level : Bytes) : Option (List OutlineEntry) :=
  let collectionSplits := level.splitOn comma
  if collectionSplits.length < 2 then none else collectionSplits.dropLast.mapM parseEntry

/-- `DimensionOutlines.load`: what is loaded. -/
def DimensionOutlines.load (encoding : Bytes) : Option DimensionOutlines :=
  let levels := encoding.splitOn blank
  if levels.length < 2 then some [] else levels.dropLast.mapM parseCollection

/-- The search direction provider of `forEachGroupInRange`. -/
def directionByGroup (groups : List OutlineEntry) (elementIdx : Int) (i : Nat) : Ordering :=
  match groups[i]? with
  | none => .gt
  | some curGroup =>
    if elementIdx < curGroup.start then
      match i with
      | 0 => .eq
      | j + 1 =>
        match groups[j]? with
        | none => .eq
        | some prevGroup => if prevGroup.last < elementIdx then .eq else .lt
    else if curGroup.last < elementIdx then .gt
    else .eq

/-- What the callback is called with. -/
structure GroupCall where
  levelIdx : Nat
  groupIdx : Nat
  groupStart : Int
  groupEnd : Int
  groupHidden : Int
deriving DecidableEq

def OutlineEntry.call (levelIdx : Nat) (group : OutlineEntry × Nat) : GroupCall :=
  ⟨levelIdx, group.2, group.1.start, group.1.last, group.1.hidden⟩

/-- The groups of a level in their order, from a place on; those behind the range are skipped. -/
def callsFrom (levelIdx : Nat) (groupsInLevel : List OutlineEntry) (startGroupIdx : Nat) (last : Int) :
    List GroupCall :=
  ((groupsInLevel.zipIdx.drop startGroupIdx).filter fun group => decide (group.1.start ≤ last)).map
    (OutlineEntry.call levelIdx)

/-- One round of the loop over the levels. -/
def callsInLevel (levelIdx : Nat) (groupsInLevel : List OutlineEntry) (start last : Int) : List GroupCall :=
  match binarySearch (directionByGroup groupsInLevel start) groupsInLevel.length false with
  | none => []
  | some startGroupIdx =>
    match groupsInLevel[startGroupIdx]? with
    | none => []
    | some startGroup =>
      if last < startGroup.start then [] else callsFrom levelIdx groupsInLevel startGroupIdx last

/-- The calls of `forEachGroupInRange`, in their order. -/
def DimensionOutlines.forEachGroupInRange (outlines : DimensionOutlines) (start last : Int) :
    List GroupCall :=
  if outlines = [] ∨ last < start then []
  else outlines.zipIdx.reverse.flatMap fun level => callsInLevel level.2 level.1 start last

/-! ## The groups that meet a range -/

/-- The groups of a level are not empty, and follow one another. -/
structure Disjoint (groups : List OutlineEntry) : Prop where
  nonempty : ∀ g ∈ groups, g.start ≤ g.last
  follow : groups.Pairwise fun g g' => g.last < g'.start

/-- The group has an element of the range. -/
def OutlineEntry.Meets (start last : Int) (g : OutlineEntry) : Prop := g.start ≤ last ∧ start ≤ g.last

instance (start last : Int) (g : OutlineEntry) : Decidable (g.Meets start last) :=
  inferInstanceAs (Decidable (_ ∧ _))

/-- The calls for all groups of a level that meet the range. -/
def meetingCalls (levelIdx : Nat) (groups : List OutlineEntry) (start last : Int) : List GroupCall :=
  (groups.zipIdx.filter fun group => decide (group.1.Meets start last)).map (OutlineEntry.call levelIdx)

section Level

variable {groups : List OutlineEntry} {start : Int}

theorem Disjoint.lt (h : Disjoint groups) {i j : Nat} {g g' : OutlineEntry} (hg : groups[i]? = some g)
    (hg' : groups[j]? = some g') (hij : i < j) : g.last < g'.start := by
  obtain ⟨hi, rfl⟩ := List.getElem?_eq_some_iff.mp hg
  obtain ⟨hj, rfl⟩ := List.getElem?_eq_some_iff.mp hg'
  exact List.pairwise_iff_getElem.mp h.follow i j hi hj hij

theorem Disjoint.start_le (h : Disjoint groups) {i : Nat} {g : OutlineEntry} (hg : groups[i]? = some g) :
    g.start ≤ g.last := h.nonempty g (List.mem_of_getElem? hg)

/-- The direction at a group that ends before the element. -/
theorem directionByGroup_before (h : Disjoint groups) {i : Nat} {g : OutlineEntry} (hg : groups[i]? = some g)
    (hend : g.last < start) : directionByGroup groups start i = .gt := by
  have hstart := h.start_le hg
  simp only [directionByGroup, hg]
  rw [if_neg (by omega), if_pos hend]

/-- The direction behind a group that does not end before the element. -/
theorem directionByGroup_behind (h : Disjoint groups) {k i : Nat} {g g' : OutlineEntry}
    (hg : groups[k]? = some g) (hend : start ≤ g.last) (hki : k < i) (hg' : groups[i]? = some g') :
    directionByGroup groups start i = .lt := by
  have hlt := h.lt hg hg' hki
  cases i with
  | zero => cases hki
  | succ j =>
    have hj : j < groups.length := Nat.lt_of_succ_lt (List.getElem?_eq_some_iff.mp hg').1
    have hprev : groups[j]? = some groups[j] := List.getElem?_eq_getElem hj
    have hlast : start ≤ groups[j].last := by
      rcases Nat.lt_or_eq_of_le (Nat.le_of_lt_succ hki) with hkj | rfl
      · have hbetween := h.lt hg hprev hkj
        have hstart := h.start_le hprev
        omega
      · rw [hprev] at hg
        cases hg
        exact hend
    simp only [directionByGroup, hg', hprev]
    rw [if_pos (by omega), if_neg (by omega)]

/-- The first group that does not end before the element is the match. -/
theorem isMatch_group (h : Disjoint groups) {k : Nat} {g : OutlineEntry} (hg : groups[k]? = some g)
    (hend : start ≤ g.last) (hbefore : ∀ i < k, ∀ g', groups[i]? = some g' → g'.last < start) :
    IsMatch (directionByGroup groups start) groups.length k where
  lt := (List.getElem?_eq_some_iff.mp hg).1
  found := by
    simp only [directionByGroup, hg]
    split
    · cases k with
      | zero => rfl
      | succ j =>
        have hj : j < groups.length := Nat.lt_of_succ_lt (List.getElem?_eq_some_iff.mp hg).1
        have hprev : groups[j]? = some groups[j] := List.getElem?_eq_getElem hj
        simp only [hprev]
        rw [if_pos (hbefore j (Nat.lt_succ_self j) _ hprev)]
    · rw [if_neg (by omega)]
  before := by
    intro i hi
    have hlt : i < groups.length := hi.trans (List.getElem?_eq_some_iff.mp hg).1
    exact directionByGroup_before h (List.getElem?_eq_getElem hlt)
      (hbefore i hi _ (List.getElem?_eq_getElem hlt))
  behind := by
    intro i hki hlt
    exact directionByGroup_behind h hg hend hki (List.getElem?_eq_getElem hlt)

/-- No group of a level matches where all end before the element. -/
theorem callsInLevel_of_before (h : Disjoint groups) (levelIdx : Nat) (last : Int)
    (hbefore : ∀ g ∈ groups, g.last < start) : callsInLevel levelIdx groups start last = [] := by
  have hnone : binarySearch (directionByGroup groups start) groups.length false = none := by
    refine binarySearch_eq_none (k := groups.length) ?_ ?_ false
    · intro i hi
      exact directionByGroup_before h (List.getElem?_eq_getElem hi) (hbefore _ (List.getElem_mem hi))
    · intro i hle hlt
      omega
  rw [callsInLevel, hnone]

theorem mem_take_zipIdx {k : Nat} {group : OutlineEntry × Nat} (h : group ∈ groups.zipIdx.take k) :
    group.2 < k ∧ groups[group.2]? = some group.1 := by
  obtain ⟨i, hi, rfl⟩ := List.mem_take_iff_getElem.mp h
  simp only [List.getElem_zipIdx, Nat.zero_add]
  rw [List.length_zipIdx] at hi
  exact ⟨by omega, List.getElem?_eq_getElem (by omega)⟩

theorem mem_drop_zipIdx {k : Nat} {group : OutlineEntry × Nat} (h : group ∈ groups.zipIdx.drop k) :
    k ≤ group.2 ∧ groups[group.2]? = some group.1 := by
  obtain ⟨i, hi, rfl⟩ := List.mem_drop_iff_getElem.mp h
  simp only [List.getElem_zipIdx, Nat.zero_add]
  rw [List.length_zipIdx] at hi
  exact ⟨by omega, List.getElem?_eq_getElem (by omega)⟩

/-- **One level**: the callback is called for the groups that meet the range, in their order. -/
theorem callsInLevel_eq (h : Disjoint groups) (levelIdx : Nat) (last : Int) :
    callsInLevel levelIdx groups start last = meetingCalls levelIdx groups start last := by
  by_cases hfirst : ∃ g ∈ groups, start ≤ g.last
  · let k := groups.findIdx fun g => decide (start ≤ g.last)
    have hk : k < groups.length := by
      simpa [k] using hfirst
    have hg : groups[k]? = some groups[k] := List.getElem?_eq_getElem hk
    have hend : start ≤ groups[k].last := by
      simpa using List.findIdx_getElem (w := hk)
    have hbefore : ∀ i < k, ∀ g', groups[i]? = some g' → g'.last < start := by
      intro i hi g' hg'
      obtain ⟨hlt, rfl⟩ := List.getElem?_eq_some_iff.mp hg'
      simpa using List.not_of_lt_findIdx hi
    have hmatch := binarySearch_eq_some (isMatch_group h hg hend hbefore) false
    have hfilter : (groups.zipIdx.filter fun group => decide (group.1.Meets start last)) =
        (groups.zipIdx.drop k).filter fun group => decide (group.1.start ≤ last) := by
      conv_lhs => rw [← List.take_append_drop k groups.zipIdx]
      rw [List.filter_append, List.filter_eq_nil_iff.mpr, List.nil_append]
      · refine List.filter_congr ?_
        intro group hgroup
        obtain ⟨hle, hget⟩ := mem_drop_zipIdx hgroup
        have hlast : start ≤ group.1.last := by
          rcases Nat.lt_or_eq_of_le hle with hlt | heq
          · have hbetween := h.lt hg hget hlt
            have hstart := h.start_le hget
            omega
          · rw [← heq, hg] at hget
            rw [← Option.some.inj hget]
            exact hend
        simp [OutlineEntry.Meets, hlast]
      · intro group hgroup
        obtain ⟨hlt, hget⟩ := mem_take_zipIdx hgroup
        have hlast := hbefore _ hlt _ hget
        exact fun hmeets => not_le.mpr hlast (of_decide_eq_true hmeets).2
    rw [callsInLevel, hmatch]
    simp only [hg]
    rw [meetingCalls, hfilter]
    split
    · rename_i hgap
      -- the first group is behind the range, and so are the others
      symm
      rw [List.map_eq_nil_iff, List.filter_eq_nil_iff]
      intro group hgroup
      obtain ⟨hle, hget⟩ := mem_drop_zipIdx hgroup
      rcases Nat.lt_or_eq_of_le hle with hlt | heq
      · have hbetween := h.lt hg hget hlt
        have hstart := h.start_le hg
        simp
        omega
      · rw [← heq, hg] at hget
        rw [← Option.some.inj hget]
        simpa using hgap
    · rfl
  · have hbefore : ∀ g ∈ groups, g.last < start := by
      intro g hg
      by_contra hge
      exact hfirst ⟨g, hg, not_lt.mp hge⟩
    rw [callsInLevel_of_before h levelIdx last hbefore, meetingCalls, List.filter_eq_nil_iff.mpr]
    · rfl
    · intro group hgroup
      have hlast := hbefore _ (List.fst_mem_of_mem_zipIdx hgroup)
      exact fun hmeets => not_le.mpr hlast (of_decide_eq_true hmeets).2

end Level

/-- **The groups of an outline that meet a range**: the callback is called for all of them and for no
others, from the last level to the first, and on each level in their order. -/
theorem forEachGroupInRange_eq (outlines : DimensionOutlines) (hgroups : ∀ groups ∈ outlines, Disjoint groups)
    (start last : Int) (hrange : start ≤ last) :
    outlines.forEachGroupInRange start last =
      outlines.zipIdx.reverse.flatMap fun level => meetingCalls level.2 level.1 start last := by
  rw [DimensionOutlines.forEachGroupInRange]
  split
  · rename_i hnone
    rcases hnone with rfl | hlt
    · rfl
    · omega
  · rw [List.flatMap, List.flatMap]
    congr 1
    refine List.map_congr_left ?_
    intro level hlevel
    exact callsInLevel_eq (hgroups _ (List.fst_mem_of_mem_zipIdx (List.mem_reverse.mp hlevel))) level.2 last

/-- Two levels: a group over the gap at 4, and one behind it. -/
def twoLevels : DimensionOutlines := [[⟨0, 9, 0, 1⟩], [⟨1, 3, 0, 1⟩, ⟨5, 6, 1, 1⟩, ⟨7, 9, 0, 0⟩]]

theorem forEachGroupInRange_twoLevels :
    twoLevels.forEachGroupInRange 4 6 = [⟨1, 1, 5, 6, 1⟩, ⟨0, 0, 0, 9, 0⟩] :=
  forEachGroupInRange_eq twoLevels (by
    intro groups hmem
    simp only [twoLevels, List.mem_cons, List.not_mem_nil, or_false] at hmem
    rcases hmem with rfl | rfl
    · exact ⟨by decide, by decide⟩
    · exact ⟨by decide, by decide⟩) 4 6 (by decide)

end Oxool.Sheet
