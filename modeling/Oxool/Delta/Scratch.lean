import Oxool.Delta.Simd
import Oxool.Lib.Overwrite

/-!
# The stores of the AVX2 row encoder (`kit/DeltaSimd.c`)

`Oxool.Delta.Simd` keeps of each store of eight lanes the ones that count. Here the lanes are stored in
the scratch buffer itself, all eight of them, at a place that moves on by fewer: what lies behind that
place is overwritten by the next store, or never read. A store that does not fit into the buffer is
`none`, and there is none (`simdStores_eq`), so that both encoders fill a row with the same masks and
the same pixels.
-/

set_option autoImplicit false

namespace Oxool.Delta

/-- `_mm256_storeu_si256`, into a buffer. -/
def storeu (buffer : List Pixel) (dest : Nat) (a : Lanes) : Option (List Pixel) :=
  if dest + 8 ≤ buffer.length then some (overwrite buffer dest a.toList) else none

/-- The loop variables, with the buffer and the place in it. -/
structure SimdStores where
  rleMaskBlock : Vector (BitVec 64) 4
  scratch : List Pixel
  dest : Nat
  prev : Lanes

/-- One cycle, for the eight pixels at `8 * c`. -/
def SimdStores.cycle (src : List Pixel) (c : Nat) (s : SimdStores) : Option SimdStores := do
  let x := 8 * c
  let curr : Lanes := Vector.ofFn fun i => src.getD (x + i) 0
  let newMask := diffMask (shiftIn s.prev curr) curr
  let nMask := x >>> 6
  let i := (x >>> 3) % 8
  let packed := permutevar8x32 curr (vpermdLut newMask)
  let countBitsUnset := popcnt (newMask ^^^ 0xff)
  let scratch ← storeu s.scratch s.dest packed
  return {
    rleMaskBlock := s.rleMaskBlock.setIfInBounds nMask
      ((s.rleMaskBlock.getD nMask 0) ||| (newMask.setWidth 64 <<< (i * 8)))
    scratch := scratch
    dest := s.dest + countBitsUnset
    prev := curr }

/-- The first `n` cycles, over a buffer with anything in it. -/
def simdStores (src scratch : List Pixel) : Nat → Option SimdStores
  | 0 => some ⟨Vector.replicate 4 0, scratch, 0, Vector.replicate 8 0⟩
  | n + 1 => (simdStores src scratch n).bind (SimdStores.cycle src n)

theorem popcnt_le (m : BitVec 8) : popcnt m ≤ 8 := by
  have h := List.length_filter_le m.getLsbD (List.range 8)
  rw [List.length_range] at h
  exact h

theorem length_toList_lanes (a : Lanes) : a.toList.length = 8 := Vector.length_toList

/-- The buffer begins with the pixels that count, and the place is behind them. -/
structure SimdStores.Holds (size : Nat) (s : SimdScan) (t : SimdStores) : Prop where
  rleMaskBlock : t.rleMaskBlock = s.rleMaskBlock
  prev : t.prev = s.prev
  dest : t.dest = s.scratch.length
  scratch : t.scratch.take t.dest = s.scratch
  size : t.scratch.length = size

/-- A store that fits keeps what was stored before, and adds the lanes the place moves past. -/
theorem SimdStores.Holds.cycle {size : Nat} {s : SimdScan} {t : SimdStores} (h : Holds size s t)
    (hfits : t.dest + 8 ≤ size) (src : List Pixel) (c : Nat) :
    ∃ t', t.cycle src c = some t' ∧ Holds size (s.cycle src c) t' ∧ t'.dest ≤ t.dest + 8 := by
  have hstore : ∀ packed : Lanes,
      storeu t.scratch t.dest packed = some (overwrite t.scratch t.dest packed.toList) := by
    intro packed
    rw [storeu, if_pos]
    rw [h.size]
    exact hfits
  have hdest : t.dest ≤ t.scratch.length := by
    rw [h.size]
    omega
  simp only [SimdStores.cycle, hstore]
  refine ⟨_, rfl, ⟨?_, ?_, ?_, ?_, ?_⟩, ?_⟩
  · simp only [SimdScan.cycle, h.rleMaskBlock, h.prev]
  · rfl
  · simp only [SimdScan.cycle, h.prev, h.dest, List.length_append, List.length_take, length_toList_lanes]
    rw [Nat.min_eq_left (popcnt_le _)]
  · simp only [SimdScan.cycle, h.prev]
    rw [take_overwrite_within hdest, h.scratch]
    rw [length_toList_lanes]
    exact popcnt_le _
  · show (overwrite t.scratch t.dest _).length = size
    rw [length_overwrite, h.size]
    rw [length_toList_lanes, h.size]
    exact hfits
  · exact Nat.add_le_add_left (popcnt_le _) _

/-- Every store of a row of 256 pixels fits: the place moves on by at most eight a cycle. -/
theorem simdStores_holds {size : Nat} (src scratch : List Pixel) (hsize : scratch.length = size)
    (hfits : 256 ≤ size) : ∀ c, c ≤ 32 →
      ∃ t, simdStores src scratch c = some t ∧ t.Holds size (simdCycles src c) ∧ t.dest ≤ 8 * c := by
  intro c
  induction c with
  | zero =>
    intro _
    exact ⟨_, rfl, ⟨rfl, rfl, rfl, rfl, hsize⟩, Nat.le_refl 0⟩
  | succ c ih =>
    intro hc
    obtain ⟨t, hrun, hholds, hdest⟩ := ih (Nat.le_of_succ_le hc)
    obtain ⟨t', hcycle, hholds', hdest'⟩ := hholds.cycle (by omega) src c
    refine ⟨t', ?_, hholds', by omega⟩
    rw [simdStores, hrun]
    exact hcycle

/-- **Both encoders fill the row alike**: no store of the AVX2 one goes beyond the scratch buffer of 256
pixels, whatever was in it, and what it leaves are the masks, the number of pixels and the pixels of
the portable loop. -/
theorem simdStores_eq (row scratch : Vector Pixel 256) :
    ∃ t, simdStores row.toList scratch.toList 32 = some t ∧
      t.rleMaskBlock = (initPixRowCpu row.toList 256).rleMask ∧
      t.dest = (initPixRowCpu row.toList 256).rleSize ∧
      t.scratch.take t.dest = (initPixRowCpu row.toList 256).rleData := by
  have hrow : row.toList.length = 256 := Vector.length_toList
  have hcpu := initPixRowCpu_rowOf row.toList (Nat.le_of_eq hrow)
  rw [hrow] at hcpu
  have hsame : simd_initPixRowSimd row.toList = initPixRowCpu row.toList 256 :=
    (simd_initPixRowSimd_rowOf row.toList hrow).unique hcpu
  obtain ⟨t, hrun, hholds, _⟩ :=
    simdStores_holds row.toList scratch.toList Vector.length_toList (Nat.le_refl 256) 32 (Nat.le_refl 32)
  refine ⟨t, hrun, ?_, ?_, ?_⟩
  · rw [hholds.rleMaskBlock, ← hsame]
    rfl
  · rw [hholds.dest, ← hsame]
    rfl
  · rw [hholds.scratch, ← hsame]
    rfl

end Oxool.Delta
