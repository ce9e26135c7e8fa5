import Oxool.Delta.Row

/-!
# The AVX2 row encoder (`kit/DeltaSimd.c`) and `initRow`

`simd_initPixRowSimd` codes a 256-pixel row eight pixels a cycle: a shifted copy of the lanes is
compared with the lanes themselves, the comparison bits are the eight mask bits, and a table
indexed by those bits gathers the lanes that differ. Its meaning is the one the portable loop
has (`simd_initPixRowSimd_rowOf`), so `initRow` may pick either and `RowOf.unique` says the row is
the same.

Lanes are modelled as 8-element vectors and the intrinsics by their documented effect on lanes.
The over-store of eight lanes at `dest` is kept to the lanes `dest` then moves past: the others
are overwritten by the next store or lie beyond the returned length.
-/

set_option autoImplicit false

namespace Oxool.Delta

/-- A 256-bit register as eight 32-bit lanes, lane 0 the least significant. -/
abbrev Lanes := Vector Pixel 8

/-- `_mm256_permutevar8x32_epi32`: lane `i` is lane `control[i] mod 8` of the source. -/
def permutevar8x32 (a : Lanes) (control : Vector Nat 8) : Lanes :=
  control.map fun c => a[c % 8]

/-- The loop of `init_gather_lut` over the bits of a pattern: the sources of the clear bits. -/
def gatherSources (pattern : BitVec 8) : List Nat :=
  (List.range 8).foldl (fun lut src => if pattern.getLsbD src then lut else lut ++ [src]) []

/-- `vpermd_lut[pattern]`, padded with lane 0. -/
def vpermdLut (pattern : BitVec 8) : Vector Nat 8 :=
  Vector.ofFn fun i => (gatherSources pattern).getD i 0

/-- `vpermd_shift_left`. -/
def vpermdShiftLeft : Vector Nat 8 := #v[0, 0, 1, 2, 3, 4, 5, 6]

/-- `vpermd_last_to_first`. -/
def vpermdLastToFirst : Vector Nat 8 := #v[7, 0, 0, 0, 0, 0, 0, 0]

/-- `low_pixel_mask`. -/
def lowPixelMask : Lanes := #v[0xffffffff, 0, 0, 0, 0, 0, 0, 0]

/-- `_mm256_and_si256`, `_mm256_andnot_si256` and `_mm256_or_si256`, lane by lane. -/
def andLanes (a b : Lanes) : Lanes := Vector.zipWith (· &&& ·) a b
def andnotLanes (a b : Lanes) : Lanes := Vector.zipWith (fun x y => ~~~x &&& y) a b
def orLanes (a b : Lanes) : Lanes := Vector.zipWith (· ||| ·) a b

/-- `diffMask`: bit `i` is set iff lane `i` of the two registers is equal. -/
def diffMask (prev curr : Lanes) : BitVec 8 :=
  BitVec.ofBoolListLE
    [decide (prev[0] = curr[0]), decide (prev[1] = curr[1]), decide (prev[2] = curr[2]),
     decide (prev[3] = curr[3]), decide (prev[4] = curr[4]), decide (prev[5] = curr[5]),
     decide (prev[6] = curr[6]), decide (prev[7] = curr[7])]

/-- `_mm_popcnt_u32` of the eight bits. -/
def popcnt (m : BitVec 8) : Nat := ((List.range 8).filter m.getLsbD).length

/-- The loop variables of `simd_initPixRowSimd`; `scratch` is what lies before `dest`. -/
structure SimdScan where
  rleMaskBlock : Vector (BitVec 64) 4
  scratch : List Pixel
  prev : Lanes

/-- The lanes shifted up by one with the last pixel of the previous cycle in lane 0. -/
def shiftIn (prev curr : Lanes) : Lanes :=
  let lastPix := andLanes lowPixelMask (permutevar8x32 prev vpermdLastToFirst)
  orLanes (andnotLanes lowPixelMask (permutevar8x32 curr vpermdShiftLeft)) lastPix

/-- One cycle, for the eight pixels at `8 * c`. -/
def SimdScan.cycle (src : List Pixel) (c : Nat) (s : SimdScan) : SimdScan :=
  let x := 8 * c
  let curr : Lanes := Vector.ofFn fun i => src.getD (x + i) 0
  let newMask := diffMask (shiftIn s.prev curr) curr
  let nMask := x >>> 6
  let i := (x >>> 3) % 8
  let packed := permutevar8x32 curr (vpermdLut newMask)
  let countBitsUnset := popcnt (newMask ^^^ 0xff)
  { rleMaskBlock := s.rleMaskBlock.setIfInBounds nMask
      ((s.rleMaskBlock.getD nMask 0) ||| (newMask.setWidth 64 <<< (i * 8)))
    scratch := s.scratch ++ packed.toList.take countBitsUnset
    prev := curr }

/-- The first `n` cycles, from zeroed masks and a transparent last pixel. -/
def simdCycles (src : List Pixel) : Nat → SimdScan
  | 0 => { rleMaskBlock := Vector.replicate 4 0, scratch := [], prev := Vector.replicate 8 0 }
  | n + 1 => (simdCycles src n).cycle src n

/-- `simd_initPixRowSimd`. -/
def simd_initPixRowSimd (src : List Pixel) : DeltaBitmapRow :=
  let s := simdCycles src 32
  { rleMask := s.rleMaskBlock, rleData := s.scratch }

/-- `initRow`: the accelerated encoder for 256-pixel rows where the processor has AVX2. -/
def initRow (hasAVX2 : Bool) (src : List Pixel) (width : Nat) : DeltaBitmapRow :=
  if hasAVX2 ∧ width = 256 then simd_initPixRowSimd src else initPixRowCpu src width

/-! ## What a cycle computes -/

theorem shiftIn_eq (prev : Lanes) (a₀ a₁ a₂ a₃ a₄ a₅ a₆ a₇ : Pixel) :
    shiftIn prev #v[a₀, a₁, a₂, a₃, a₄, a₅, a₆, a₇] =
      #v[prev[7], a₀, a₁, a₂, a₃, a₄, a₅, a₆] := by
  have hand : ∀ p : Pixel, 0xffffffff &&& p = p := fun p => UInt32.toBitVec_inj.mp (by
    rw [UInt32.toBitVec_and]
    exact BitVec.allOnes_and)
  have hnot : ~~~(0xffffffff : Pixel) = 0 := by decide
  simp [shiftIn, orLanes, andLanes, andnotLanes, permutevar8x32, lowPixelMask,
    vpermdLastToFirst, vpermdShiftLeft, hand, hnot]

/-- The comparison bits are the repeat mask of the eight pixels. -/
theorem diffMask_shiftIn (prev : Lanes) (a₀ a₁ a₂ a₃ a₄ a₅ a₆ a₇ : Pixel) (i : Nat) :
    (diffMask (shiftIn prev #v[a₀, a₁, a₂, a₃, a₄, a₅, a₆, a₇])
        #v[a₀, a₁, a₂, a₃, a₄, a₅, a₆, a₇]).getLsbD i =
      (Rle.bits prev[7] [a₀, a₁, a₂, a₃, a₄, a₅, a₆, a₇]).getD i false := by
  have hcomm : ∀ a b : Pixel, decide (a = b) = decide (b = a) := fun a b => by simp [eq_comm]
  rw [shiftIn_eq, diffMask, BitVec.getLsbD_ofBoolListLE]
  show List.getD [decide (prev[7] = a₀), decide (a₀ = a₁), decide (a₁ = a₂), decide (a₂ = a₃),
    decide (a₃ = a₄), decide (a₄ = a₅), decide (a₅ = a₆), decide (a₆ = a₇)] i false = _
  rw [hcomm prev[7] a₀, hcomm a₀ a₁, hcomm a₁ a₂, hcomm a₂ a₃, hcomm a₃ a₄, hcomm a₄ a₅,
    hcomm a₅ a₆, hcomm a₆ a₇]
  rfl

/-- What the loop of the table collects, the clear bits in order. -/
theorem gatherSources_eq (pattern : BitVec 8) :
    gatherSources pattern = (List.range 8).filter fun i => !pattern.getLsbD i := by
  have hfold : ∀ (l lut : List Nat),
      l.foldl (fun lut src => if pattern.getLsbD src then lut else lut ++ [src]) lut =
        lut ++ l.filter fun i => !pattern.getLsbD i := by
    intro l
    induction l with
    | nil => simp
    | cons src l ih =>
      intro lut
      rw [List.foldl_cons, ih, List.filter_cons]
      cases pattern.getLsbD src <;> simp
  rw [gatherSources, hfold, List.nil_append]

/-- `_mm_popcnt_u32` of the complement counts the sources. -/
theorem popcnt_clear (m : BitVec 8) : popcnt (m ^^^ 0xff) = (gatherSources m).length := by
  have hset : (0xff : BitVec 8) = BitVec.allOnes 8 := rfl
  rw [popcnt, gatherSources_eq]
  congr 1
  refine List.filter_congr fun i hi => ?_
  rw [hset, BitVec.getLsbD_xor, BitVec.getLsbD_allOnes, decide_eq_true (List.mem_range.mp hi),
    Bool.xor_true]

/-- The table is right for each of the 256 patterns: its used prefix lists the clear bits. -/
theorem vpermdLut_take (m : BitVec 8) :
    (vpermdLut m).toList.take (popcnt (m ^^^ 0xff)) =
      (List.range 8).filter fun i => !m.getLsbD i := by
  have hlen : (gatherSources m).length ≤ 8 := by
    rw [gatherSources_eq]
    exact List.length_filter_le _ _
  rw [popcnt_clear, ← gatherSources_eq]
  refine List.ext_getElem (by simp [hlen]) fun i h₁ h₂ => ?_
  simp [vpermdLut, h₂]

theorem permute_take (curr : Lanes) (m : BitVec 8) :
    (permutevar8x32 curr (vpermdLut m)).toList.take (popcnt (m ^^^ 0xff)) =
      ((List.range 8).filter fun i => !m.getLsbD i).map fun i => curr.toList.getD i 0 := by
  rw [permutevar8x32, Vector.toList_map, ← List.map_take, vpermdLut_take]
  refine List.map_congr_left fun c hc => ?_
  have hc8 : c < 8 := by
    have := (List.mem_filter.mp hc).1
    simpa using this
  rw [List.getD_eq_getElem _ _ (by simpa using hc8)]
  simp [Nat.mod_eq_of_lt hc8]

/-- The scan state once `c` cycles over `src` are behind it. -/
structure SimdScan.After (src : List Pixel) (c : Nat) (s : SimdScan) : Prop where
  prev : s.prev[7] = Rle.lastOf 0 (src.take (8 * c))
  scratch : s.scratch = Rle.data 0 (src.take (8 * c))
  mask : ∀ n (hn : n < 4) i, i < 64 → (s.rleMaskBlock[n]).getLsbD i =
    (decide (64 * n + i < 8 * c) && (Rle.bits 0 src).getD (64 * n + i) false)

/-- One cycle: eight more pixels coded, their bits in the byte of the mask they belong to. -/
theorem SimdScan.After.cycle {src : List Pixel} {c : Nat} {s : SimdScan} (h : After src c s)
    (hc : c < 32) (hlen : src.length = 256) : After src (c + 1) (s.cycle src c) := by
  obtain ⟨a₀, a₁, a₂, a₃, a₄, a₅, a₆, a₇, hseg⟩ : ∃ a₀ a₁ a₂ a₃ a₄ a₅ a₆ a₇,
      (src.drop (8 * c)).take 8 = [a₀, a₁, a₂, a₃, a₄, a₅, a₆, a₇] := by
    have h8 : ((src.drop (8 * c)).take 8).length = 8 := by simp; omega
    match (src.drop (8 * c)).take 8, h8 with
    | [a₀, a₁, a₂, a₃, a₄, a₅, a₆, a₇], _ => exact ⟨a₀, a₁, a₂, a₃, a₄, a₅, a₆, a₇, rfl⟩
  have hcurr : (Vector.ofFn fun i : Fin 8 => src.getD (8 * c + i) 0) =
      #v[a₀, a₁, a₂, a₃, a₄, a₅, a₆, a₇] := by
    have hget : ∀ i (hi : i < 8), src.getD (8 * c + i) 0 =
        [a₀, a₁, a₂, a₃, a₄, a₅, a₆, a₇][i] := by
      intro i hi
      rw [List.getD_eq_getElem _ _ (by omega)]
      simp only [← hseg, List.getElem_take, List.getElem_drop]
    ext i hi
    simp only [Vector.getElem_ofFn, hget i hi]
    rfl
  have htake : src.take (8 * (c + 1)) = src.take (8 * c) ++ [a₀, a₁, a₂, a₃, a₄, a₅, a₆, a₇] := by
    rw [Nat.mul_succ, List.take_add, hseg]
  set newMask := diffMask (shiftIn s.prev #v[a₀, a₁, a₂, a₃, a₄, a₅, a₆, a₇])
    #v[a₀, a₁, a₂, a₃, a₄, a₅, a₆, a₇] with hnew
  have hbits : ∀ i, newMask.getLsbD i =
      (Rle.bits (Rle.lastOf 0 (src.take (8 * c))) [a₀, a₁, a₂, a₃, a₄, a₅, a₆, a₇]).getD i false := by
    intro i
    rw [hnew, diffMask_shiftIn, h.prev]
  have hsrc : ∀ i, i < 8 → newMask.getLsbD i = (Rle.bits 0 src).getD (8 * c + i) false := by
    intro i hi
    rw [hbits, ← hseg]
    conv_rhs => rw [← List.take_append_drop (8 * c) src, Rle.bits_append]
    have hl : (Rle.bits 0 (src.take (8 * c))).length = 8 * c := by simp; omega
    rw [List.getD_append_right _ _ _ _ (by omega), hl, Nat.add_sub_cancel_left]
    conv_rhs => rw [← List.take_append_drop 8 (src.drop (8 * c)), Rle.bits_append]
    rw [List.getD_append _ _ _ _ (by simp; omega)]
  refine ⟨?_, ?_, fun n hn i hi => ?_⟩
  · rw [htake, Rle.lastOf_append]
    simp only [SimdScan.cycle, hcurr]
    rfl
  · have hrange : (Rle.data (Rle.lastOf 0 (src.take (8 * c))) [a₀, a₁, a₂, a₃, a₄, a₅, a₆, a₇]) =
        ((List.range 8).filter fun i => !newMask.getLsbD i).map
          fun i => (#v[a₀, a₁, a₂, a₃, a₄, a₅, a₆, a₇] : Lanes).toList.getD i 0 := by
      rw [Rle.data_eq_map_filter _ 0]
      simp only [hbits]
      rfl
    simp only [SimdScan.cycle, hcurr]
    rw [htake, Rle.data_append, h.scratch, ← hnew, permute_take, hrange]
  · have hx : (8 * c) >>> 6 = c / 8 := by rw [Nat.shiftRight_eq_div_pow]; omega
    have hi8 : (8 * c) >>> 3 % 8 = c % 8 := by rw [Nat.shiftRight_eq_div_pow]; omega
    simp only [SimdScan.cycle, hcurr, ← hnew, hx, hi8]
    by_cases hnc : n = c / 8
    · subst hnc
      have hold : s.rleMaskBlock.getD (c / 8) 0 = s.rleMaskBlock[c / 8] := by
        simp [Vector.getD, hn]
      rw [Vector.getElem_setIfInBounds_self, hold, BitVec.getLsbD_or, h.mask _ hn i hi,
        BitVec.getLsbD_shiftLeft, BitVec.getLsbD_setWidth]
      have hpos : 64 * (c / 8) + i < 8 * c ∨ (c % 8 * 8 ≤ i ∧ i < c % 8 * 8 + 8) ∨
          8 * (c + 1) ≤ 64 * (c / 8) + i := by omega
      rcases hpos with hlt | ⟨hge, hlt⟩ | hge
      · -- a byte below: the new bits start above it
        simp [hi, hlt, show i < c % 8 * 8 by omega, show 64 * (c / 8) + i < 8 * (c + 1) by omega]
      · obtain ⟨k, rfl⟩ : ∃ k, i = c % 8 * 8 + k := ⟨i - c % 8 * 8, by omega⟩
        have hk := hsrc k (by omega)
        have hidx : 64 * (c / 8) + (c % 8 * 8 + k) = 8 * c + k := by omega
        rw [hidx, Nat.add_sub_cancel_left, hk]
        simp [hi, show ¬ 8 * c + k < 8 * c by omega, show 8 * c + k < 8 * (c + 1) by omega,
          show k < 64 by omega]
      · have hzero : newMask.getLsbD (i - c % 8 * 8) = false :=
          BitVec.getLsbD_of_ge _ _ (by omega)
        simp [hzero, show ¬ 64 * (c / 8) + i < 8 * c by omega,
          show ¬ 64 * (c / 8) + i < 8 * (c + 1) by omega]
    · rw [Vector.getElem_setIfInBounds_ne hn (Ne.symm hnc), h.mask n hn i hi]
      have : (64 * n + i < 8 * c) ↔ (64 * n + i < 8 * (c + 1)) := by omega
      simp only [this]

theorem simdCycles_after {src : List Pixel} (hlen : src.length = 256) :
    ∀ c, c ≤ 32 → SimdScan.After src c (simdCycles src c)
  | 0, _ => ⟨rfl, rfl, fun n hn i hi => by simp [simdCycles]⟩
  | c + 1, hc => (simdCycles_after hlen c (by omega)).cycle (by omega) hlen

/-- **The AVX2 encoder means the row.** -/
theorem simd_initPixRowSimd_rowOf (src : List Pixel) (hlen : src.length = 256) :
    RowOf (simd_initPixRowSimd src) src := by
  have h := simdCycles_after hlen 32 (Nat.le_refl _)
  refine ⟨?_, fun n hn i hi => ?_⟩
  · show (simdCycles src 32).scratch = _
    rw [h.scratch, List.take_of_length_le (by omega)]
  · show ((simdCycles src 32).rleMaskBlock[n]).getLsbD i = _
    rw [h.mask n hn i hi, decide_eq_true (by omega), Bool.true_and]

/-- **A row built by `initRow` means its pixels**, whichever encoder ran. -/
theorem initRow_rowOf (hasAVX2 : Bool) (src : List Pixel) (hlen : src.length ≤ 256) :
    RowOf (initRow hasAVX2 src src.length) src := by
  unfold initRow
  split
  · rename_i h
    exact simd_initPixRowSimd_rowOf src h.2
  · exact initPixRowCpu_rowOf src hlen

/-- Two rows of one width are `identical` exactly when their pixels are. -/
theorem initRow_identical_iff (hasAVX2 : Bool) {ps qs : List Pixel} (hlen : ps.length = qs.length)
    (hps : ps.length ≤ 256) :
    (initRow hasAVX2 ps ps.length).identical (initRow hasAVX2 qs qs.length) = true ↔ ps = qs := by
  rw [DeltaBitmapRow.identical_iff]
  constructor
  · intro h
    have hp := initRow_rowOf hasAVX2 ps hps
    rw [h] at hp
    exact hp.inj (initRow_rowOf hasAVX2 qs (hlen ▸ hps)) hlen hps
  · rintro rfl
    rfl

end Oxool.Delta
