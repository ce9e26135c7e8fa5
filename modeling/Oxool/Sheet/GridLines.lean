import Oxool.Lib.Fuel
import Oxool.Sheet.Lookup

/-!
# Grid lines (`SheetDimension.forEachInCorePixelRange`)

The lines of a grid are where elements end. For a range of pixels the browser goes through the spans
and steps through each that overlaps the range, from the first line behind the start of the range. A
span that begins behind the start may begin a step too early, on the line that the span before it ends
with, which is a line all the same. A span without pixels has no step: `x % 0` is `NaN`, and the loop
that counts from there does not begin.
-/

set_option autoImplicit false

namespace Oxool.Sheet

open Oxool.Fuel (Returns)

/-- `%`; `none` is `NaN`. -/
def remainder (a b : Int) : Option Int := if b = 0 then none else some (a.tmod b)

/-- The loop over the lines of a span: the position and the element, for each call. -/
def linesLoop (step last : Int) : Nat → Int → Int → Option (List (Int × Int))
  | 0, _, _ => none
  | fuel + 1, pos, index =>
    if pos ≤ last then (linesLoop step last fuel (pos + step) (index + 1)).map ((pos, index) :: ·)
    else some []

namespace SpanView

def firstCorePx (v : SpanView) : Int := v.span.poscorepx - v.span.sizecore * (v.span.index - v.start + 1)

/-- The callback of `forEachInCorePixelRange`. -/
def lines (fuel : Nat) (startPix endPix : Int) (v : SpanView) : Option (List (Int × Int)) :=
  if v.firstCorePx < endPix ∧ startPix < v.span.poscorepx then
    match remainder (startPix - v.firstCorePx) v.span.sizecore with
    -- `Math.max` gives `NaN` then, which is not below the end
    | none => some []
    | some r =>
      let firstCorePx := max v.firstCorePx (startPix + v.span.sizecore - r)
      let lastCorePx := min endPix v.span.poscorepx
      let index := v.start + (firstCorePx - v.firstCorePx).fdiv v.span.sizecore
      linesLoop v.span.sizecore lastCorePx fuel firstCorePx index
  else some []

end SpanView

/-- The calls of the callback, in order; `none` where the fuel does not reach. -/
def SheetDimension.forEachInCorePixelRange (d : SheetDimension) (fuel : Nat)
    (startPix endPix : Int) : Option (List (Int × Int)) :=
  ((views 0 d.visibleSizes).mapM (SpanView.lines fuel startPix endPix)).map List.flatten

/-- An element that has a pixel ends at the position. -/
def Geometry.EndsAt (g : Geometry) (twipsPerCorePixel : ℚ) (p : Int) : Prop :=
  ∃ i, 0 ≤ i ∧ i ≤ g.last ∧ 0 < g.pixelsAt twipsPerCorePixel i ∧
    p = g.startOf twipsPerCorePixel .corepixels (i + 1)

/-! ## The loop -/

/-- **The loop comes to an end**, and stops at the positions that are whole steps away. -/
theorem linesLoop_spec {step : Int} (hstep : 0 < step) (last pos index : Int) :
    ∃ calls, Returns (fun fuel => linesLoop step last fuel pos index) calls ∧
      ∀ p, p ∈ calls.map Prod.fst ↔ ∃ j : Nat, p = pos + j * step ∧ p ≤ last := by
  obtain ⟨n, hn⟩ : ∃ n, (last + 1 - pos).toNat = n := ⟨_, rfl⟩
  induction n using Nat.strong_induction_on generalizing pos index with
  | _ n ih =>
    by_cases hpos : pos ≤ last
    · obtain ⟨calls, ⟨m, hloop⟩, hmem⟩ := ih (last + 1 - (pos + step)).toNat (by omega) (pos + step)
        (index + 1) rfl
      refine ⟨(pos, index) :: calls, ⟨m + 1, fun fuel hfuel => ?_⟩, fun p => ?_⟩
      · obtain ⟨fuel, rfl⟩ := Nat.exists_eq_add_one_of_ne_zero (Nat.ne_zero_of_lt hfuel)
        have hrest : linesLoop step last fuel (pos + step) (index + 1) = some calls :=
          hloop fuel (Nat.lt_of_succ_lt_succ hfuel)
        dsimp only
        rw [linesLoop, if_pos hpos, hrest]
        rfl
      · rw [List.map_cons, List.mem_cons, hmem]
        constructor
        · rintro (rfl | ⟨j, rfl, hle⟩)
          · exact ⟨0, by simp, hpos⟩
          · exact ⟨j + 1, by push_cast; ring, hle⟩
        · rintro ⟨j, rfl, hle⟩
          cases j with
          | zero => exact .inl (by simp)
          | succ j => exact .inr ⟨j, by push_cast; ring, hle⟩
    · refine ⟨[], ⟨0, fun fuel hfuel => ?_⟩, fun p => ?_⟩
      · obtain ⟨fuel, rfl⟩ := Nat.exists_eq_add_one_of_ne_zero (Nat.ne_zero_of_lt hfuel)
        dsimp only
        rw [linesLoop, if_neg hpos]
      · refine iff_of_false List.not_mem_nil ?_
        rintro ⟨j, rfl, hle⟩
        have hj : 0 ≤ (j : Int) * step := by positivity
        omega

/-- Where the loop begins: on a line behind the start, and before all lines that it has to stop at. -/
theorem firstLine_spec (first startPix : Int) {step : Int} (hstep : 0 < step) :
    ∃ j : Nat, max first (startPix + step - (startPix - first).tmod step) = first + j * step ∧
      startPix < first + j * step ∧
      ∀ i : Nat, 0 < i → startPix < first + i * step → j ≤ i := by
  by_cases hbefore : startPix < first
  · obtain ⟨gap, rfl⟩ : ∃ gap, startPix = first - gap := ⟨first - startPix, by omega⟩
    have hmod : (first - gap - first).tmod step = -(gap % step) := by
      rw [show first - gap - first = -gap by ring, Int.neg_tmod,
        Int.tmod_eq_emod_of_nonneg (by omega)]
    rw [hmod]
    have hlow := Int.emod_nonneg gap (ne_of_gt hstep)
    have hhigh := Int.emod_lt_of_pos gap hstep
    by_cases hgap : gap < step
    · -- less than a step away: the line at the start of the span is left to the span before
      refine ⟨1, ?_, ?_, fun i hi _ => hi⟩
      · rw [Int.emod_eq_of_lt (by omega) hgap]
        push_cast
        omega
      · push_cast
        omega
    · refine ⟨0, ?_, ?_, fun i _ _ => Nat.zero_le i⟩
      · have hdiv := Int.mul_ediv_add_emod gap step
        have hone : 1 ≤ gap / step := (Int.le_ediv_iff_mul_le hstep).mpr (by omega)
        have hmul : step * 1 ≤ step * (gap / step) := Int.mul_le_mul_of_nonneg_left hone (by omega)
        push_cast
        omega
      · push_cast
        omega
  · obtain ⟨gap, rfl⟩ : ∃ gap, startPix = first + gap := ⟨startPix - first, by omega⟩
    have hmod : (first + gap - first).tmod step = gap % step := by
      rw [add_sub_cancel_left, Int.tmod_eq_emod_of_nonneg (by omega)]
    have hdiv := Int.mul_ediv_add_emod gap step
    have hlow := Int.emod_nonneg gap (ne_of_gt hstep)
    have hhigh := Int.emod_lt_of_pos gap hstep
    have hquot : 0 ≤ gap / step := Int.ediv_nonneg (by omega) (by omega)
    have hline : first + ((gap / step).toNat + 1 : Nat) * step = first + step * (gap / step) + step := by
      push_cast
      rw [Int.toNat_of_nonneg hquot]
      ring
    rw [hmod]
    refine ⟨(gap / step).toNat + 1, ?_, ?_, fun i _ hi => ?_⟩
    · rw [hline]
      omega
    · rw [hline]
      omega
    · have hlt : gap / step < i := Int.ediv_lt_of_lt_mul hstep (by omega)
      omega

/-! ## One span -/

/-- The positions are lines of the span in the range, and all of them but the first are there. -/
structure LinesOf (startPix endPix : Int) (v : SpanView) (calls : List (Int × Int)) : Prop where
  sound : ∀ p ∈ calls.map Prod.fst, startPix < p ∧ p ≤ endPix ∧ 0 < v.span.sizecore ∧
    ∃ j : Nat, j ≤ v.span.index - v.start + 1 ∧ p = v.firstCorePx + j * v.span.sizecore
  complete : ∀ j : Nat, 0 < j → j ≤ v.span.index - v.start + 1 → 0 < v.span.sizecore →
    startPix < v.firstCorePx + j * v.span.sizecore → v.firstCorePx + j * v.span.sizecore ≤ endPix →
    v.firstCorePx + j * v.span.sizecore ∈ calls.map Prod.fst

/-- **The lines of a span.** -/
theorem SpanView.lines_spec {v : SpanView} (hsize : 0 ≤ v.span.sizecore) (startPix endPix : Int) :
    ∃ calls, Returns (fun fuel => v.lines fuel startPix endPix) calls ∧
      LinesOf startPix endPix v calls := by
  have hlast : v.span.poscorepx =
      v.firstCorePx + v.span.sizecore * (v.span.index - v.start + 1) := by
    rw [SpanView.firstCorePx]
    ring
  -- a line of the span is not behind its end
  have hinside : ∀ j : Nat, (j : Int) ≤ v.span.index - v.start + 1 →
      v.firstCorePx + j * v.span.sizecore ≤ v.span.poscorepx := by
    intro j hj
    have hmul := Int.mul_le_mul_of_nonneg_right hj hsize
    rw [hlast]
    linarith
  by_cases hpixel : 0 < v.span.sizecore
  · by_cases hoverlap : v.firstCorePx < endPix ∧ startPix < v.span.poscorepx
    · obtain ⟨first, hfirst, hbehind, hleast⟩ := firstLine_spec v.firstCorePx startPix hpixel
      have hrem : remainder (startPix - v.firstCorePx) v.span.sizecore =
          some ((startPix - v.firstCorePx).tmod v.span.sizecore) := if_neg (ne_of_gt hpixel)
      obtain ⟨calls, hloop, hmem⟩ := linesLoop_spec hpixel (min endPix v.span.poscorepx)
        (v.firstCorePx + first * v.span.sizecore)
        (v.start + (v.firstCorePx + first * v.span.sizecore - v.firstCorePx).fdiv v.span.sizecore)
      refine ⟨calls, ?_, fun p hp => ?_, fun j hj hjn _ hstart hend => ?_⟩
      · simp only [SpanView.lines, if_pos hoverlap, hrem, hfirst]
        exact hloop
      · obtain ⟨j, rfl, hle⟩ := (hmem p).mp hp
        have hj : 0 ≤ (j : Int) * v.span.sizecore := by positivity
        have hline : v.firstCorePx + first * v.span.sizecore + j * v.span.sizecore =
            v.firstCorePx + ((first + j : Nat) : Int) * v.span.sizecore := by
          push_cast
          ring
        refine ⟨by omega, by omega, hpixel, first + j, ?_, hline⟩
        rw [hline, hlast] at hle
        have hmul : ((first + j : Nat) : Int) * v.span.sizecore ≤
            (v.span.index - v.start + 1) * v.span.sizecore := by
          rw [mul_comm (v.span.index - v.start + 1)]
          omega
        exact le_of_mul_le_mul_right hmul hpixel
      · rw [hmem]
        have hle := hleast j hj hstart
        refine ⟨j - first, ?_, le_min hend (hinside j hjn)⟩
        rw [Nat.cast_sub hle]
        ring
    · refine ⟨[], ?_, fun p hp => absurd hp List.not_mem_nil, fun j hj hjn _ hstart hend => ?_⟩
      · simp only [SpanView.lines, if_neg hoverlap]
        exact .const []
      · have hle := hinside j hjn
        have hstep : 1 * v.span.sizecore ≤ j * v.span.sizecore :=
          Int.mul_le_mul_of_nonneg_right (by omega) hsize
        exact absurd ⟨by omega, by omega⟩ hoverlap
  · refine ⟨[], ?_, fun p hp => absurd hp List.not_mem_nil, fun j _ _ h => absurd h hpixel⟩
    have hzero : v.span.sizecore = 0 := le_antisymm (not_lt.mp hpixel) hsize
    have hrem : remainder (startPix - v.firstCorePx) v.span.sizecore = none := if_pos hzero
    simp only [SpanView.lines, hrem, ite_self]
    exact .const []

/-! ## All spans -/

/-- A position that is not 0 is the end of the last element before it that has something. -/
theorem exists_end_of_sumBefore_pos {f : Int → Int} (hf : ∀ i, 0 ≤ f i) {n : Int}
    (hpos : 0 < sumBefore f n) :
    ∃ i, 0 ≤ i ∧ i < n ∧ 0 < f i ∧ sumBefore f (i + 1) = sumBefore f n := by
  rcases lt_or_ge n 0 with hneg | hn
  · rw [sumBefore, Int.toNat_of_nonpos (by omega)] at hpos
    exact absurd hpos (by simp)
  · obtain ⟨n, rfl⟩ := Int.eq_ofNat_of_zero_le hn
    induction n with
    | zero => exact absurd hpos (by simp [sumBefore])
    | succ n ih =>
      have hsucc : ((n + 1 : Nat) : Int) = (n : Int) + 1 := by push_cast; ring
      rw [hsucc, sumBefore_succ f (by omega)] at hpos ⊢
      by_cases hlast : 0 < f n
      · exact ⟨n, by omega, by omega, hlast, sumBefore_succ f (by omega)⟩
      · have hzero : f n = 0 := le_antisymm (not_lt.mp hlast) (hf n)
        rw [hzero, add_zero] at hpos ⊢
        obtain ⟨i, hi, hin, hfi, hsum⟩ := ih hpos (by omega)
        exact ⟨i, hi, by omega, hfi, hsum⟩

section Lines

variable {g : Geometry} {d : SheetDimension} (h : Shows g d) (hT : 0 < d.twipsPerCorePixel)

include h hT

/-- A line of a span is the end of an element with pixels, in the span or before it. -/
theorem Shows.endsAt_line {v : SpanView} (hv : v ∈ views 0 d.visibleSizes) {startPix : Int}
    (hstart : 0 ≤ startPix) {j : Nat} (hj : (j : Int) ≤ v.span.index - v.start + 1)
    (hline : startPix < v.firstCorePx + j * v.span.sizecore) :
    g.EndsAt d.twipsPerCorePixel (v.firstCorePx + j * v.span.sizecore) := by
  have hlaid := h.laid v hv
  have hlast := index_le_of_mem_views h.ends v hv
  have hpixels := hlaid.pixels_eq (i := v.start + j) (by omega) (by omega)
  have hfirst : v.firstCorePx = v.startpx := by
    rw [SpanView.firstCorePx, SpanView.startpx, SpanView.count]
  have hsum : v.firstCorePx + j * v.span.sizecore =
      sumBefore (g.pixelsAt d.twipsPerCorePixel) (v.start + j) := by
    rw [hfirst]
    refine Eq.trans ?_ hpixels.symm
    ring
  rw [hsum] at hline ⊢
  obtain ⟨i, hi, hin, hpx, heq⟩ :=
    exists_end_of_sumBefore_pos (g.pixelsAt_nonneg hT) (lt_of_le_of_lt hstart hline)
  exact ⟨i, hi, by omega, hpx, heq.symm⟩

/-- **The lines in a range**, of all spans. -/
theorem Shows.forEachInCorePixelRange_spec {startPix : Int} (hstart : 0 ≤ startPix) (endPix : Int) :
    ∃ calls, Returns (fun fuel => d.forEachInCorePixelRange fuel startPix endPix) calls ∧
      ∀ p, p ∈ calls.map Prod.fst ↔
        g.EndsAt d.twipsPerCorePixel p ∧ startPix < p ∧ p ≤ endPix := by
  have hspans : ∀ v ∈ views 0 d.visibleSizes, ∃ calls,
      Returns (fun fuel => v.lines fuel startPix endPix) calls ∧ LinesOf startPix endPix v calls := by
    intro v hv
    have hlaid := h.laid v hv
    have hpixels := hlaid.pixelsAt_eq (Int.le_refl _) hlaid.start_le
    exact v.lines_spec (hpixels ▸ g.pixelsAt_nonneg hT v.start) startPix endPix
  obtain ⟨lines, hreturns, hlines⟩ := Returns.mapM hspans
  refine ⟨lines.flatten, hreturns.map List.flatten, fun p => ?_⟩
  rw [List.map_flatten, List.mem_flatten]
  constructor
  · rintro ⟨positions, hpositions, hp⟩
    obtain ⟨calls, hcalls, rfl⟩ := List.mem_map.mp hpositions
    obtain ⟨v, hv, hof⟩ := Fuel.exists_left_of_mem hlines hcalls
    obtain ⟨hlow, hhigh, -, j, hj, rfl⟩ := hof.sound p hp
    exact ⟨h.endsAt_line hT hv hstart hj hlow, hlow, hhigh⟩
  · rintro ⟨⟨i, hi, him, hpx, rfl⟩, hlow, hhigh⟩
    obtain ⟨k, v, hk, hvstart, hvend, hlaid, -⟩ := h.exists_span hi him
    obtain ⟨calls, hcalls, hof⟩ := Fuel.exists_right_of_mem hlines (List.mem_of_getElem? hk)
    refine ⟨_, List.mem_map_of_mem hcalls, ?_⟩
    have hsize : 0 < v.span.sizecore := by
      have := hlaid.pixelsAt_eq hvstart hvend
      omega
    have hline : g.startOf d.twipsPerCorePixel .corepixels (i + 1) =
        v.firstCorePx + ((i - v.start + 1).toNat : Int) * v.span.sizecore := by
      have hpixels := hlaid.pixels_eq (i := i + 1) (by omega) (by omega)
      rw [Int.toNat_of_nonneg (by omega)]
      refine Eq.trans hpixels ?_
      rw [SpanView.firstCorePx, SpanView.startpx, SpanView.count]
      ring
    rw [hline] at hlow hhigh ⊢
    exact hof.complete _ (by omega) (by omega) hsize hlow hhigh

end Lines

/-- **The grid lines in a range of pixels** are the ends of the elements that have pixels. -/
theorem forEachInCorePixelRange_exact (g : Geometry)
    (tileSizeTwips₀ tileSizePixels₀ tileSizeTwips tileSizePixels : ℚ) (maxIndex : Int)
    (htwips : 0 < tileSizeTwips) (hpixels : 0 < tileSizePixels) :
    ∃ d₀, SheetDimension.ofMessage tileSizeTwips₀ tileSizePixels₀ maxIndex (encodeSpans g.sizes)
        (encodeBits g.hidden) (encodeBits g.filtered) = some d₀ ∧
      let d := d₀.setTileGeometryData tileSizeTwips tileSizePixels
      ∀ startPix endPix, 0 ≤ startPix → startPix < endPix →
        ∃ calls, Returns (fun fuel => d.forEachInCorePixelRange fuel startPix endPix) calls ∧
          ∀ p, p ∈ calls.map Prod.fst ↔
            g.EndsAt (tileSizeTwips / tileSizePixels) p ∧ startPix < p ∧ p ≤ endPix := by
  obtain ⟨d₀, hload, hshows, -⟩ :=
    exists_shows g tileSizeTwips₀ tileSizePixels₀ tileSizeTwips tileSizePixels maxIndex
  obtain ⟨htw, hpx, -⟩ := d₀.setTileGeometryData_zoom tileSizeTwips tileSizePixels
  have hT : (d₀.setTileGeometryData tileSizeTwips tileSizePixels).twipsPerCorePixel =
      tileSizeTwips / tileSizePixels := by rw [SheetDimension.twipsPerCorePixel, htw, hpx]
  refine ⟨d₀, hload, fun startPix endPix hstart _ => ?_⟩
  have hspec := hshows.forEachInCorePixelRange_spec (by rw [hT]; positivity) hstart endPix
  rwa [hT] at hspec

theorem forEachInCorePixelRange_hundredRows :
    (0 : ℚ) < 3840 ∧ (0 : ℚ) < 256 ∧
      ∃ d₀, SheetDimension.ofMessage 3840 256 99 (encodeSpans hundredRows.sizes)
          (encodeBits hundredRows.hidden) (encodeBits hundredRows.filtered) = some d₀ ∧
        let d := d₀.setTileGeometryData 3840 256
        ∀ startPix endPix, 0 ≤ startPix → startPix < endPix →
          ∃ calls, Returns (fun fuel => d.forEachInCorePixelRange fuel startPix endPix) calls ∧
            ∀ p, p ∈ calls.map Prod.fst ↔
              hundredRows.EndsAt (3840 / 256) p ∧ startPix < p ∧ p ≤ endPix :=
  ⟨by norm_num, by norm_num,
    forEachInCorePixelRange_exact hundredRows 3840 256 3840 256 99 (by norm_num) (by norm_num)⟩

end Oxool.Sheet
