import Oxool.Delta.Simd

/-!
# A row and its pixels (`kit/Delta.hpp`)

`initRow` makes the masks and the data of a row, and `PixIterator` gives the pixels back, one with
each `next()`. The iterator goes by the masks alone; that it takes a datum only while there is one
is up to the check at the start of `next()` (`reads_lt`).
-/

set_option autoImplicit false

namespace Oxool.Delta

namespace PixIterator

/-- The constructor, before it calls `next()`. -/
def start (row : DeltaBitmapRow) : PixIterator :=
  { row, nMask := 0, lastPix := 0, lastMask := 0, bitToCheck := 0, rlePtr := 0 }

/-- The index of the stored pixel that `next()` reads, if it reads one. -/
def reads (it : PixIterator) : Option Nat :=
  if it.rlePtr = it.row.rleSize then none
  else if it.loadMask.lastMask &&& it.loadMask.bitToCheck = 0 then some it.rlePtr
  else none

/-- The pixels that an iterator stands on, with a `next()` from each to the one after it. -/
def pixels (row : DeltaBitmapRow) (width : Nat) : List Pixel :=
  (List.range width).map fun x => (next^[x] (new row)).getPixel

theorem loadMask_frame (it : PixIterator) :
    it.loadMask.row = it.row ∧ it.loadMask.rlePtr = it.rlePtr ∧ it.loadMask.lastPix = it.lastPix := by
  rw [loadMask]
  split
  · split <;> exact ⟨rfl, rfl, rfl⟩
  · exact ⟨rfl, rfl, rfl⟩

/-- What a step does to the pixel and the pointer goes by what it reads. -/
theorem next_eq (it : PixIterator) : it.next.row = it.row ∧
    (it.reads = none → it.next.lastPix = it.lastPix ∧ it.next.rlePtr = it.rlePtr) ∧
    ∀ i, it.reads = some i → i = it.rlePtr ∧ it.next.lastPix = it.row.rleData.getD i 0 ∧ it.next.rlePtr = i + 1 := by
  obtain ⟨hrow, hptr, hpix⟩ := loadMask_frame it
  rw [next, reads]
  split
  · exact ⟨rfl, fun _ => ⟨rfl, rfl⟩, fun i hi => absurd hi (Option.some_ne_none i).symm⟩
  · rw [readBit]
    split
    · refine ⟨hrow, fun h => absurd h (Option.some_ne_none _), ?_⟩
      intro i hi
      obtain rfl := Option.some.inj hi
      dsimp only
      rw [hrow, hptr]
      exact ⟨rfl, rfl, rfl⟩
    · exact ⟨hrow, fun _ => ⟨hpix, hptr⟩, fun i hi => absurd hi (Option.some_ne_none i).symm⟩

/-- A step stays within the stored pixels. -/
theorem next_bound {it : PixIterator} (h : it.rlePtr ≤ it.row.rleSize) :
    it.next.rlePtr ≤ it.next.row.rleSize ∧ ∀ i, it.reads = some i → i < it.row.rleSize := by
  obtain ⟨hrow, hnone, hsome⟩ := next_eq it
  have hlt : ∀ i, it.reads = some i → i < it.row.rleSize := by
    intro i hi
    obtain ⟨rfl, -⟩ := hsome i hi
    apply Nat.lt_of_le_of_ne h
    intro heq
    rw [reads, if_pos heq] at hi
    cases hi
  refine ⟨?_, hlt⟩
  rw [hrow]
  cases hreads : it.reads with
  | none =>
    rw [(hnone hreads).2]
    exact h
  | some i =>
    rw [(hsome i hreads).2.2]
    exact hlt i hreads

/-- However often `next()` is called, no pixel past the stored ones is read. -/
theorem reads_lt (row : DeltaBitmapRow) (k : Nat) :
    ∀ i, (next^[k] (start row)).reads = some i → i < row.rleSize := by
  have hrun : (next^[k] (start row)).row = row ∧
      (next^[k] (start row)).rlePtr ≤ (next^[k] (start row)).row.rleSize := by
    induction k with
    | zero => exact ⟨rfl, Nat.zero_le _⟩
    | succ k ih =>
      rw [Function.iterate_succ_apply']
      exact ⟨(next_eq _).1.trans ih.1, (next_bound ih.2).1⟩
  intro i hi
  have hlt := (next_bound hrun.2).2 i hi
  rw [hrun.1] at hlt
  exact hlt

/-- After `x` steps a fresh iterator stands on pixel `x`. -/
theorem reads_iterate {row : DeltaBitmapRow} {ps : List Pixel} (h : RowOf row ps)
    (hlen : ps.length ≤ 256) (x : Nat) :
    (next^[x] (new row)).Reads ps x := by
  induction x with
  | zero => exact new_reads h hlen
  | succ x ih =>
    rw [Function.iterate_succ_apply']
    exact ih.next hlen

theorem getPixel_iterate {row : DeltaBitmapRow} {ps : List Pixel} (h : RowOf row ps)
    (hlen : ps.length ≤ 256)
    {x : Nat} (hx : x < ps.length) : (next^[x] (new row)).getPixel = ps[x] :=
  (reads_iterate h hlen x).getPixel hx

theorem pixels_eq {row : DeltaBitmapRow} {ps : List Pixel} (h : RowOf row ps)
    (hlen : ps.length ≤ 256) :
    pixels row ps.length = ps := by
  apply List.ext_getElem
  · rw [pixels, List.length_map, List.length_range]
  · intro x hx hx'
    simp only [pixels, List.getElem_map, List.getElem_range]
    exact getPixel_iterate h hlen hx'

end PixIterator

open PixIterator in
/-- **The iterator gives back the pixels of a row**, its queries compare them, it reads nothing that
is not stored, and rows of one width are identical just if their pixels are. -/
theorem initRow_represents (hasAVX2 : Bool) {ps qs : List Pixel} (hlen : ps.length = qs.length)
    (hps : ps.length ≤ 256) :
    pixels (initRow hasAVX2 ps ps.length) ps.length = ps ∧
    (∀ x y (hx : x < ps.length) (hy : y < qs.length),
      (next^[x] (new (initRow hasAVX2 ps ps.length))).identical (next^[y] (new (initRow hasAVX2 qs qs.length))) = true ↔
        ps[x] = qs[y]) ∧
    (∀ k i, (next^[k] (start (initRow hasAVX2 ps ps.length))).reads = some i →
      i < (initRow hasAVX2 ps ps.length).rleSize) ∧
    ((initRow hasAVX2 ps ps.length).identical (initRow hasAVX2 qs qs.length) = true ↔ ps = qs) := by
  have hp := initRow_rowOf hasAVX2 ps hps
  have hq := initRow_rowOf hasAVX2 qs (hlen ▸ hps)
  refine ⟨pixels_eq hp hps, ?_, fun k => reads_lt _ k, initRow_identical_iff hasAVX2 hlen hps⟩
  intro x y hx hy
  have hpx := getPixel_iterate hp hps hx
  have hqy := getPixel_iterate hq (hlen ▸ hps) hy
  rw [getPixel] at hpx hqy
  rw [PixIterator.identical, beq_iff_eq, hpx, hqy]

theorem initRow_represents_runs :
    PixIterator.pixels (initRow false [7, 7, 0, 7] 4) 4 = [7, 7, 0, 7] ∧
      ¬ (initRow false [7, 7, 0, 7] 4).identical (initRow false [7, 7, 0, 0] 4) = true :=
  have h := @initRow_represents false [7, 7, 0, 7] [7, 7, 0, 0] rfl (by decide)
  ⟨h.1, fun heq => absurd (h.2.2.2.mp heq) (by decide)⟩

end Oxool.Delta
