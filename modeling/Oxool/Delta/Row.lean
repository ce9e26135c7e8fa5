import Oxool.Lib.Rle
import Mathlib.Data.List.GetD
import Mathlib.Tactic

/-!
# `DeltaBitmapRow` — one bitmap row, run-length coded (`kit/Delta.hpp`)

A row of at most 256 pixels is kept as four 64-bit masks and the pixels whose mask bit is
clear. Two encoders fill it, the portable loop and the AVX2 one (`Oxool.Delta.Simd`); one
reader walks it, `PixIterator`. `RowOf row ps` is the meaning both encoders aim at: the masks
and the residue are the repeat-mask coding (`Oxool.Rle`) of the pixels against an initial
transparent pixel. `PixIterator.Reads` is the reader's invariant, and `PixIterator.Reads.next`
is the only place the register juggling of `next()` is opened.
-/

set_option autoImplicit false

namespace Oxool.Delta

/-- A 32-bit pixel, as read through the `uint32_t *` view of the pixmap. -/
abbrev Pixel := UInt32

/-- `DeltaBitmapRow`: `_rleMask` and `_rleData`. `_rleSize` is the length of the data and the
null `_rleData` pointer is the empty list. -/
structure DeltaBitmapRow where
  rleMask : Vector (BitVec 64) 4
  rleData : List Pixel
deriving DecidableEq

namespace DeltaBitmapRow

/-- `_rleSize`. -/
def rleSize (row : DeltaBitmapRow) : Nat := row.rleData.length

/-- `identical`: sizes, then masks, then data; two null data pointers are equal. -/
def identical (row other : DeltaBitmapRow) : Bool :=
  if row.rleSize ≠ other.rleSize then false
  else if row.rleMask ≠ other.rleMask then false
  else if row.rleSize = 0 ∧ other.rleSize = 0 then true
  else if row.rleSize = 0 ∨ other.rleSize = 0 then false
  else decide (row.rleData = other.rleData)

theorem identical_iff (row other : DeltaBitmapRow) : row.identical other = true ↔ row = other := by
  obtain ⟨mask, data⟩ := row
  obtain ⟨mask', data'⟩ := other
  simp only [identical, rleSize, mk.injEq]
  constructor
  · intro h
    by_cases hlen : data.length = data'.length
    · by_cases hm : mask = mask'
      · refine ⟨hm, ?_⟩
        by_cases hz : data'.length = 0
        · rw [List.length_eq_zero_iff.mp hz, List.length_eq_zero_iff.mp (hlen.trans hz)]
        · simpa [hlen, hm, hz] using h
      · simp [hlen, hm] at h
    · simp [hlen] at h
  · rintro ⟨rfl, rfl⟩
    by_cases hz : data.length = 0 <;> simp [hz]

end DeltaBitmapRow

/-! ## The portable encoder -/

/-- The variables of `initPixRowCpu`'s inner loop; `scratch` is the written part of the scratch
array, so `outp` is its length. -/
structure RowScan where
  lastPix : Pixel
  x : Nat
  scratch : List Pixel
  rleMask : BitVec 64
  bitToSet : BitVec 64

/-- The body of both inner loops, with the `++x, bitToSet <<= 1` of the loop header. -/
def RowScan.pixel (src : List Pixel) (s : RowScan) : RowScan :=
  let pix := src.getD s.x 0
  if pix = s.lastPix then
    { s with x := s.x + 1, rleMask := s.rleMask ||| s.bitToSet, bitToSet := s.bitToSet <<< 1 }
  else
    { s with x := s.x + 1, lastPix := pix, scratch := s.scratch ++ [pix]
             bitToSet := s.bitToSet <<< 1 }

/-- `n` rounds of an inner loop. -/
def RowScan.pixels (src : List Pixel) : Nat → RowScan → RowScan
  | 0, s => s
  | n + 1, s => RowScan.pixels src n (s.pixel src)

/-- One round of the outer loop: a fresh mask, then 64 pixels if more than 64 are left and all
that are left otherwise. -/
def RowScan.block (src : List Pixel) (width : Nat) (s : RowScan) : RowScan :=
  let s := { s with rleMask := 0, bitToSet := 1 }
  if width - s.x > 64 then s.pixels src 64 else s.pixels src (width - s.x)

/-- `initPixRowCpu`: four mask blocks, then the pixels past the masks verbatim. -/
def initPixRowCpu (src : List Pixel) (width : Nat) : DeltaBitmapRow :=
  let s₀ := RowScan.block src width ⟨0, 0, [], 0, 1⟩
  let s₁ := s₀.block src width
  let s₂ := s₁.block src width
  let s₃ := s₂.block src width
  { rleMask := #v[s₀.rleMask, s₁.rleMask, s₂.rleMask, s₃.rleMask]
    rleData := if s₃.x < width then s₃.scratch ++ (src.drop s₃.x).take (width - s₃.x)
               else s₃.scratch }

/-- What a row means: its data and the first 256 mask bits are the coding of `ps`. -/
structure RowOf (row : DeltaBitmapRow) (ps : List Pixel) : Prop where
  data : row.rleData = Rle.data 0 ps
  mask : ∀ n (hn : n < 4) i, i < 64 →
    (row.rleMask[n]).getLsbD i = (Rle.bits 0 ps).getD (64 * n + i) false

/-- The meaning pins the representation down, so two encoders with the same meaning agree. -/
theorem RowOf.unique {row row' : DeltaBitmapRow} {ps : List Pixel} (h : RowOf row ps)
    (h' : RowOf row' ps) : row = row' := by
  obtain ⟨mask, data⟩ := row
  obtain ⟨mask', data'⟩ := row'
  have hd : data = data' := h.data.trans h'.data.symm
  have hm : mask = mask' := by
    ext n hn i hi
    exact (h.mask n hn i hi).trans (h'.mask n hn i hi).symm
  rw [hd, hm]

/-- A row of at most 256 pixels has one meaning. -/
theorem RowOf.inj {row : DeltaBitmapRow} {ps qs : List Pixel} (h : RowOf row ps)
    (h' : RowOf row qs) (hlen : ps.length = qs.length) (hps : ps.length ≤ 256) : ps = qs := by
  refine Rle.ext 0 (List.ext_getElem (by simp [hlen]) fun i hi hi' => ?_)
    (h.data.symm.trans h'.data)
  have hi256 : i < 256 := by rw [Rle.length_bits] at hi; omega
  have hbit := (h.mask (i / 64) (by omega) (i % 64) (by omega)).symm.trans
    (h'.mask (i / 64) (by omega) (i % 64) (by omega))
  rw [Nat.div_add_mod, List.getD_eq_getElem?_getD, List.getD_eq_getElem?_getD, List.getElem?_eq_getElem hi,
    List.getElem?_eq_getElem hi'] at hbit
  exact hbit

/-- Shifting the single set bit; at bit 63 it falls off and leaves zero on both sides. -/
theorem twoPow_shiftLeft_one (b : Nat) :
    BitVec.twoPow 64 b <<< 1 = BitVec.twoPow 64 (b + 1) := by
  ext i hi
  simp only [BitVec.getElem_shiftLeft, BitVec.getElem_twoPow]
  by_cases h1 : i < 1
  · simp [h1]; omega
  · simp only [h1, decide_false, Bool.not_false, Bool.true_and]
    rw [Bool.eq_iff_iff]
    simp only [decide_eq_true_eq]
    omega

/-- A run of an inner loop over the pixels `seg`, starting with the bit at `b`. -/
theorem RowScan.pixels_spec {src : List Pixel} (seg : List Pixel) :
    ∀ (s : RowScan) (b : Nat) (rest : List Pixel), src.drop s.x = seg ++ rest →
      s.bitToSet = BitVec.twoPow 64 b → b + seg.length ≤ 64 →
      let s' := s.pixels src seg.length
      s'.lastPix = Rle.lastOf s.lastPix seg ∧ s'.x = s.x + seg.length ∧
      s'.scratch = s.scratch ++ Rle.data s.lastPix seg ∧
      ∀ i, i < 64 → s'.rleMask.getLsbD i =
        (s.rleMask.getLsbD i || (decide (b ≤ i) && (Rle.bits s.lastPix seg).getD (i - b) false)) := by
  induction seg with
  | nil => intro s b rest _ _ _; simp [RowScan.pixels]
  | cons p ps ih =>
    intro s b rest hsrc hbit hlen
    have hx : s.x < src.length := by
      by_contra hge
      rw [List.drop_eq_nil_of_le (by omega)] at hsrc
      exact absurd hsrc (by simp)
    have hcons := List.drop_eq_getElem_cons hx
    have hget : src.getD s.x 0 = p := by
      rw [hsrc] at hcons
      rw [List.getD_eq_getElem?_getD, List.getElem?_eq_getElem hx]
      exact (List.cons.inj hcons).1.symm
    have hnext : src.drop (s.x + 1) = ps ++ rest := by
      rw [hsrc] at hcons
      exact (List.cons.inj hcons).2.symm
    have hshift : s.bitToSet <<< 1 = BitVec.twoPow 64 (b + 1) := by
      rw [hbit, twoPow_shiftLeft_one]
    have hb64 : b < 64 := by simp at hlen; omega
    by_cases hp : p = s.lastPix
    · have hstep : s.pixel src = { s with x := s.x + 1, rleMask := s.rleMask ||| s.bitToSet,
                                          bitToSet := s.bitToSet <<< 1 } := by
        simp only [RowScan.pixel, hget, hp, if_true]
      obtain ⟨hl, hxx, hs, hm⟩ := ih (s.pixel src) (b + 1) rest (by rw [hstep]; exact hnext)
        (by rw [hstep]; exact hshift) (by simp at hlen; omega)
      rw [hstep] at hl hxx hs hm
      simp only [RowScan.pixels, List.length_cons, hstep]
      subst hp
      refine ⟨hl, by simp only [hxx]; omega, by rw [hs, Rle.data_cons_same], fun i hi => ?_⟩
      rw [hm i hi, BitVec.getLsbD_or, hbit, BitVec.getLsbD_twoPow, Rle.bits_cons]
      rcases Nat.lt_trichotomy i b with hlt | heq | hgt
      · simp [show ¬ b ≤ i by omega, show ¬ b + 1 ≤ i by omega, show ¬ b = i by omega]
      · subst heq; simp [hb64]
      · obtain ⟨k, rfl⟩ : ∃ k, i = b + 1 + k := ⟨i - (b + 1), by omega⟩
        simp [show b + 1 + k - b = k + 1 by omega, show ¬ b = b + 1 + k by omega,
          show b ≤ b + 1 + k by omega]
    · have hstep : s.pixel src = { s with x := s.x + 1, lastPix := p, scratch := s.scratch ++ [p]
                                          bitToSet := s.bitToSet <<< 1 } := by
        simp only [RowScan.pixel, hget, hp, if_false]
      obtain ⟨hl, hxx, hs, hm⟩ := ih (s.pixel src) (b + 1) rest (by rw [hstep]; exact hnext)
        (by rw [hstep]; exact hshift) (by simp at hlen; omega)
      rw [hstep] at hl hxx hs hm
      simp only [RowScan.pixels, List.length_cons, hstep]
      refine ⟨hl, by simp only [hxx]; omega, by rw [hs, Rle.data_cons_diff hp]; simp, fun i hi => ?_⟩
      rw [hm i hi, Rle.bits_cons]
      rcases Nat.lt_trichotomy i b with hlt | heq | hgt
      · simp [show ¬ b ≤ i by omega, show ¬ b + 1 ≤ i by omega]
      · subst heq; simp [hp]
      · obtain ⟨k, rfl⟩ : ∃ k, i = b + 1 + k := ⟨i - (b + 1), by omega⟩
        simp [show b + 1 + k - b = k + 1 by omega, show b ≤ b + 1 + k by omega]

/-- The scan state once `n` mask blocks of `src` are behind it. -/
structure RowScan.After (src : List Pixel) (n : Nat) (s : RowScan) : Prop where
  x : s.x = min (64 * n) src.length
  lastPix : s.lastPix = Rle.lastOf 0 (src.take (64 * n))
  scratch : s.scratch = Rle.data 0 (src.take (64 * n))

/-- Bit `i` of block `n`, read off the coding of the block alone. -/
theorem bits_getD_block (src : List Pixel) (n i : Nat) (hi : i < 64) :
    (Rle.bits (Rle.lastOf 0 (src.take (64 * n))) ((src.drop (64 * n)).take 64)).getD i false =
      (Rle.bits 0 src).getD (64 * n + i) false := by
  conv_rhs => rw [← List.take_append_drop (64 * n) src, Rle.bits_append]
  by_cases hlen : 64 * n ≤ src.length
  · have htake : (Rle.bits 0 (src.take (64 * n))).length = 64 * n := by simp [hlen]
    rw [List.getD_append_right _ _ _ _ (by rw [htake]; omega), htake, Nat.add_sub_cancel_left]
    conv_rhs => rw [← List.take_append_drop 64 (src.drop (64 * n)), Rle.bits_append]
    by_cases hseg : i < (Rle.bits (Rle.lastOf 0 (src.take (64 * n)))
        ((src.drop (64 * n)).take 64)).length
    · rw [List.getD_append _ _ _ _ hseg]
    · -- past the end of a short last block there is nothing left of the row either
      have hlt : (src.drop (64 * n)).length < 64 := by
        simp only [Rle.length_bits, List.length_take, List.length_drop] at hseg ⊢
        omega
      rw [List.drop_eq_nil_of_le (Nat.le_of_lt hlt), Rle.bits_nil, List.append_nil]
  · have hnil : src.drop (64 * n) = [] := List.drop_eq_nil_of_le (by omega)
    rw [hnil, List.take_nil, Rle.bits_nil, List.append_nil,
      List.getD_eq_default _ _ (by simp), List.getD_eq_default _ _ (by simp)]

/-- One round of the outer loop. -/
theorem RowScan.After.block {src : List Pixel} {n : Nat} {s : RowScan} (h : After src n s) :
    After src (n + 1) (s.block src src.length) ∧
    ∀ i, i < 64 → (s.block src src.length).rleMask.getLsbD i =
      (Rle.bits 0 src).getD (64 * n + i) false := by
  set seg := (src.drop (64 * n)).take 64 with hseg
  have hdrop : src.drop s.x = src.drop (64 * n) := by
    rw [h.x]
    rcases Nat.le_total (64 * n) src.length with hle | hle
    · rw [Nat.min_eq_left hle]
    · rw [Nat.min_eq_right hle, List.drop_length, List.drop_eq_nil_of_le hle]
  have hrounds : s.block src src.length =
      RowScan.pixels src seg.length { s with rleMask := 0, bitToSet := 1 } := by
    have hlen : seg.length = if src.length - s.x > 64 then 64 else src.length - s.x := by
      rw [hseg, ← hdrop, List.length_take, List.length_drop]
      split <;> omega
    simp only [RowScan.block, hlen]
    split <;> rfl
  have htake : src.take (64 * (n + 1)) = src.take (64 * n) ++ seg := by
    rw [Nat.mul_succ, List.take_add]
  obtain ⟨hl, hx, hs, hm⟩ := RowScan.pixels_spec seg { s with rleMask := 0, bitToSet := 1 } 0
    ((src.drop (64 * n)).drop 64)
    (show src.drop s.x = _ by rw [hdrop, hseg, List.take_append_drop]) rfl
    (by rw [hseg, List.length_take]; omega)
  rw [hrounds]
  refine ⟨⟨?_, ?_, ?_⟩, fun i hi => ?_⟩
  · rw [hx]
    show s.x + seg.length = _
    rw [h.x, hseg, List.length_take, List.length_drop]
    omega
  · rw [hl, htake, Rle.lastOf_append, ← h.lastPix]
  · rw [hs, htake, Rle.data_append, ← h.scratch, ← h.lastPix]
  · rw [hm i hi, ← bits_getD_block src n i hi, ← h.lastPix]
    simp [hseg]

/-- **The portable encoder means the row**, for every row that fits the four masks. -/
theorem initPixRowCpu_rowOf (src : List Pixel) (hlen : src.length ≤ 256) :
    RowOf (initPixRowCpu src src.length) src := by
  have h₀ : RowScan.After src 0 ⟨0, 0, [], 0, 1⟩ := ⟨by simp, by simp, by simp⟩
  obtain ⟨h₁, m₀⟩ := h₀.block
  obtain ⟨h₂, m₁⟩ := h₁.block
  obtain ⟨h₃, m₂⟩ := h₂.block
  obtain ⟨h₄, m₃⟩ := h₃.block
  refine ⟨?_, fun n hn i hi => ?_⟩
  · have hx := h₄.x
    simp only [initPixRowCpu]
    rw [if_neg (by omega), h₄.scratch, List.take_of_length_le (by omega)]
  · match n, hn with
    | 0, _ => exact m₀ i hi
    | 1, _ => exact m₁ i hi
    | 2, _ => exact m₂ i hi
    | 3, _ => exact m₃ i hi

/-! ## The reader -/

/-- `PixIterator`. `rlePtr` is the index of the next pixel to read; `_endRleData` is the row's
`rleSize`. -/
structure PixIterator where
  row : DeltaBitmapRow
  nMask : Nat
  lastPix : Pixel
  lastMask : BitVec 64
  bitToCheck : BitVec 64
  rlePtr : Nat

namespace PixIterator

def getPixel (it : PixIterator) : Pixel := it.lastPix

def identical (it i : PixIterator) : Bool := it.lastPix == i.lastPix

/-- The slow path of `next()`: move to the next mask word, all ones past the fourth. -/
def loadMask (it : PixIterator) : PixIterator :=
  if it.bitToCheck = 0 then
    if h : it.nMask < 4 then
      { it with lastMask := it.row.rleMask[it.nMask], nMask := it.nMask + 1, bitToCheck := 1 }
    else { it with lastMask := BitVec.allOnes 64, bitToCheck := 1 }
  else it

/-- The fast path of `next()`. -/
def readBit (it : PixIterator) : PixIterator :=
  if it.lastMask &&& it.bitToCheck = 0 then
    { it with lastPix := it.row.rleData.getD it.rlePtr 0, rlePtr := it.rlePtr + 1
              bitToCheck := it.bitToCheck <<< 1 }
  else { it with bitToCheck := it.bitToCheck <<< 1 }

/-- `next()`. -/
def next (it : PixIterator) : PixIterator :=
  if it.rlePtr = it.row.rleSize then it else it.loadMask.readBit

/-- The constructor, which ends by calling `next()`. -/
def new (row : DeltaBitmapRow) : PixIterator :=
  next { row, nMask := 0, lastPix := 0, lastMask := 0, bitToCheck := 0, rlePtr := 0 }

/-- The mask registers stand before bit `m` of the row. -/
def Synced (it : PixIterator) (m : Nat) : Prop :=
  if m % 64 = 0 then it.bitToCheck = 0 ∧ it.nMask = m / 64
  else it.bitToCheck = BitVec.twoPow 64 (m % 64) ∧ it.nMask = m / 64 + 1 ∧
    ∀ h : m / 64 < 4, it.lastMask = it.row.rleMask[m / 64]

/-- `m` mask bits of the row are behind the iterator, the last pixel was `last`, and the pixels
`rest` are still coded ahead of it. Once the data is used up the registers no longer matter:
`next()` leaves early. -/
structure Ahead (it : PixIterator) (ps : List Pixel) (m : Nat) (last : Pixel)
    (rest : List Pixel) : Prop where
  rowOf : RowOf it.row ps
  split : ps.drop m = rest
  lastPix : it.lastPix = last
  prev : last = Rle.lastOf 0 (ps.take m)
  data : it.row.rleData.drop it.rlePtr = Rle.data last rest
  bound : it.rlePtr ≤ it.row.rleSize
  synced : Rle.data last rest ≠ [] → it.Synced m

theorem loadMask_eq {it : PixIterator} {m : Nat} (hs : it.Synced m) (hm : m < 256) :
    it.loadMask = { it with lastMask := it.row.rleMask[m / 64], nMask := m / 64 + 1
                            bitToCheck := BitVec.twoPow 64 (m % 64) } := by
  unfold Synced at hs
  split at hs
  · rename_i h0
    obtain ⟨hbit, hn⟩ := hs
    have h4 : it.nMask < 4 := by omega
    simp only [loadMask, hbit, if_true, h4, dif_pos, h0]
    simp only [hn]
    rfl
  · rename_i h0
    obtain ⟨hbit, hn, hmask⟩ := hs
    have hne : it.bitToCheck ≠ 0 := by
      rw [hbit]
      intro hz
      have := congrArg (BitVec.getLsbD · (m % 64)) hz
      simp at this
      omega
    rw [loadMask, if_neg hne, ← hmask (by omega), ← hbit, ← hn]

theorem mask_bit {row : DeltaBitmapRow} {ps : List Pixel} {m : Nat} {q : Pixel}
    {rest : List Pixel} (h : RowOf row ps) (hm : m < 256) (hsplit : ps.drop m = q :: rest) :
    (row.rleMask[m / 64]).getLsbD (m % 64) = decide (q = Rle.lastOf 0 (ps.take m)) := by
  have hlt : m < ps.length := by
    by_contra hge
    rw [List.drop_eq_nil_of_le (by omega)] at hsplit
    exact absurd hsplit (by simp)
  have hlen : (Rle.bits 0 (ps.take m)).length = m := by
    rw [Rle.length_bits, List.length_take, Nat.min_eq_left (Nat.le_of_lt hlt)]
  rw [h.mask (m / 64) (by omega) (m % 64) (by omega), Nat.div_add_mod]
  conv_lhs => rw [← List.take_append_drop m ps, Rle.bits_append, hsplit, Rle.bits_cons]
  rw [List.getD_append_right _ _ _ _ (by omega), hlen, Nat.sub_self]
  rfl

/-- **One step of the reader.** The two ways `next()` can leave agree on the pixel: at the end
of the data every remaining pixel repeats the last one, and before it the mask bit says which. -/
theorem Ahead.next {it : PixIterator} {ps : List Pixel} {m : Nat} {last q : Pixel}
    {rest : List Pixel} (h : it.Ahead ps m last (q :: rest)) (hlen : ps.length ≤ 256) :
    it.next.Ahead ps (m + 1) q rest := by
  have hlt : m < ps.length := by
    by_contra hge
    have := h.split
    rw [List.drop_eq_nil_of_le (by omega)] at this
    exact absurd this (by simp)
  have hsplit : ps.drop (m + 1) = rest := by
    rw [← List.tail_drop, h.split, List.tail_cons]
  have hprev : q = Rle.lastOf 0 (ps.take (m + 1)) := by
    have hq : (ps.drop m).take 1 = [q] := by rw [h.split]; rfl
    rw [List.take_add, hq, Rle.lastOf_append]
    rfl
  by_cases hd : Rle.data last (q :: rest) = []
  · have hend : it.rlePtr = it.row.rleSize := by
      have hnil := h.data
      rw [hd, List.drop_eq_nil_iff] at hnil
      exact Nat.le_antisymm h.bound hnil
    have hq : q = last := Rle.eq_last_of_data_eq_nil hd
    subst hq
    rw [Rle.data_cons_same] at hd
    have hdata := h.data
    rw [Rle.data_cons_same] at hdata
    rw [PixIterator.next, if_pos hend]
    exact ⟨h.rowOf, hsplit, h.lastPix, hprev, hdata, h.bound, fun hne => absurd hd hne⟩
  · have hne : it.rlePtr ≠ it.row.rleSize := by
      intro heq
      have hnil : it.row.rleData.drop it.rlePtr = [] := List.drop_eq_nil_of_le (by
        rw [heq]; exact Nat.le_refl _)
      exact hd (h.data.symm.trans hnil)
    have hptr : it.rlePtr < it.row.rleSize := Nat.lt_of_le_of_ne h.bound hne
    have hm : m < 256 := by omega
    have hbit := mask_bit h.rowOf hm h.split
    rw [← h.prev] at hbit
    have hsync : ∀ it' : PixIterator, it'.row = it.row →
        it'.bitToCheck = BitVec.twoPow 64 (m % 64 + 1) → it'.nMask = m / 64 + 1 →
        it'.lastMask = it.row.rleMask[m / 64] → it'.Synced (m + 1) := by
      intro it' hrow hb hn hmask
      unfold Synced
      split
      · have h63 : m % 64 + 1 = 64 := by omega
        refine ⟨by rw [hb, h63]; rfl, by omega⟩
      · have hdiv : (m + 1) / 64 = m / 64 := by omega
        refine ⟨by rw [hb]; congr 1; omega, by omega, fun h4 => ?_⟩
        simp only [hdiv, hrow, hmask]
    rw [PixIterator.next, if_neg hne, loadMask_eq (h.synced hd) hm]
    by_cases hq : q = last
    · -- a repeated pixel: the bit is set and the data stays
      have hset : ¬ (it.row.rleMask[m / 64] &&& BitVec.twoPow 64 (m % 64) = 0) := by
        rw [BitVec.and_twoPow, hbit, decide_eq_true hq, if_pos rfl]
        intro hz
        have := congrArg (BitVec.getLsbD · (m % 64)) hz
        simp at this
        omega
      subst hq
      have hdata := h.data
      rw [Rle.data_cons_same] at hdata
      simp only [readBit, if_neg hset, twoPow_shiftLeft_one]
      exact ⟨h.rowOf, hsplit, h.lastPix, hprev, hdata, h.bound, fun _ => hsync _ rfl rfl rfl rfl⟩
    · -- a new pixel: the bit is clear and the pixel is the next datum
      have hclear : it.row.rleMask[m / 64] &&& BitVec.twoPow 64 (m % 64) = 0 := by
        rw [BitVec.and_twoPow, hbit, decide_eq_false hq]
        simp
      have hdata := h.data
      rw [Rle.data_cons_diff hq, List.drop_eq_getElem_cons hptr] at hdata
      obtain ⟨hhead, htail⟩ := List.cons.inj hdata
      simp only [readBit, if_pos hclear, twoPow_shiftLeft_one]
      refine ⟨h.rowOf, hsplit, ?_, hprev, htail, hptr, fun _ => hsync _ rfl rfl rfl rfl⟩
      show it.row.rleData.getD it.rlePtr 0 = q
      rw [List.getD_eq_getElem _ _ hptr, hhead]

/-- The iterator stands on pixel `x` of `ps`, or past the last one. -/
def Reads (it : PixIterator) (ps : List Pixel) (x : Nat) : Prop :=
  (∃ p rest, ps.drop x = p :: rest ∧ it.Ahead ps (x + 1) p rest) ∨ ps.length ≤ x

/-- A fresh iterator stands on the first pixel. -/
theorem new_reads {row : DeltaBitmapRow} {ps : List Pixel} (h : RowOf row ps)
    (hlen : ps.length ≤ 256) : (new row).Reads ps 0 := by
  cases ps with
  | nil => exact Or.inr (by simp)
  | cons p rest =>
    refine Or.inl ⟨p, rest, rfl, Ahead.next ⟨h, rfl, rfl, rfl, h.data, Nat.zero_le _, fun _ => ?_⟩ hlen⟩
    exact ⟨rfl, rfl⟩

theorem Reads.next {it : PixIterator} {ps : List Pixel} {x : Nat} (h : it.Reads ps x)
    (hlen : ps.length ≤ 256) : it.next.Reads ps (x + 1) := by
  rcases h with ⟨p, rest, hdrop, h⟩ | hge
  · cases rest with
    | nil =>
      have hs := h.split
      rw [List.drop_eq_nil_iff] at hs
      exact Or.inr hs
    | cons q rest => exact Or.inl ⟨q, rest, h.split, h.next hlen⟩
  · exact Or.inr (by omega)

theorem Reads.getPixel {it : PixIterator} {ps : List Pixel} {x : Nat} (h : it.Reads ps x)
    (hx : x < ps.length) : it.getPixel = ps[x] := by
  rcases h with ⟨p, rest, hdrop, h⟩ | hge
  · rw [List.drop_eq_getElem_cons hx] at hdrop
    rw [(List.cons.inj hdrop).1]
    exact h.lastPix
  · omega

end PixIterator

end Oxool.Delta
