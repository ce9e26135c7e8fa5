import Oxool.Sheet.Positions

/-!
# Which positions a sheet finds again

The elements of a sheet are looked up by position: a search among the spans, by the positions at
which they end, and a division inside the span. In print twips both are exact. In tile twips, and in
pixels that are turned into tile twips first, the positions of spans are rounded down while the start
that the division counts from is not, and the end of a span is taken to be one whole twip before the
next: `Aligned` says at which zooms nothing of this shows.
-/

set_option autoImplicit false

namespace Oxool.Sheet

/-! ## Searching by position -/

theorem start_first {lo : Int} {spans : List Span} {v : SpanView} (h : (views lo spans)[0]? = some v) :
    v.start = lo := by
  cases spans with
  | nil => cases h
  | cons s spans =>
    obtain rfl := Option.some.inj h
    rfl

theorem start_next {lo : Int} {spans : List Span} {j : Nat} {v w : SpanView}
    (hv : (views lo spans)[j]? = some v) (hw : (views lo spans)[j + 1]? = some w) :
    w.start = v.span.index + 1 := by
  induction spans generalizing lo j with
  | nil => cases hv
  | cons s spans ih =>
    rw [views] at hv hw
    cases j with
    | zero =>
      obtain rfl := Option.some.inj hv
      exact start_first hw
    | succ j => exact ih hv hw

section Search

variable {P : Int → Int} {field : Span → Int} {m : Int} {spans : List Span}
  (hends : Ends m 0 (spans.map Span.index))
  (hfield : ∀ v ∈ views 0 spans, field v.span = P (v.span.index + 1)) (hzero : P 0 = 0)

include hfield hzero

/-- Where the search is sent from a span, with the positions taken from the elements. -/
theorem directionByField_eq {k : Nat} {v : SpanView} (hv : (views 0 spans)[k]? = some v) (q : ℚ) :
    directionByField field spans q k =
      if q < P v.start then .lt
      else if (P (v.span.index + 1) - (if k + 1 < spans.length then 1 else 0) : Int) < q then .gt
      else .eq := by
  have hspan := @getElem?_views 0 spans k
  rw [hv, Option.map_some] at hspan
  have hnext : (spans[k + 1]?).isSome = true ↔ k + 1 < spans.length := by simp
  have hend := hfield v (List.mem_of_getElem? hv)
  rw [directionByField.eq_def, ← hspan]
  dsimp only
  rw [hend]
  simp only [hnext]
  cases k with
  | zero => rw [start_first hv, hzero]
  | succ j =>
    obtain ⟨w, hw⟩ : ∃ w, (views 0 spans)[j]? = some w :=
      ⟨_, List.getElem?_eq_getElem (by have := (List.getElem?_eq_some_iff.mp hv).1; omega)⟩
    have hspan := @getElem?_views 0 spans j
    rw [hw, Option.map_some] at hspan
    simp only [← hspan, Option.map_some, Option.getD_some, hfield w (List.mem_of_getElem? hw),
      start_next hw hv]

include hends

variable (hle : ∀ v ∈ views 0 spans, v.start ≤ v.span.index) (hmono : Monotone P)

include hle hmono

/-- **A position is found in the span it lies in.** -/
theorem search_eq_some {k : Nat} {v : SpanView} (hv : (views 0 spans)[k]? = some v) {q : ℚ}
    (hstart : (P v.start : ℚ) ≤ q)
    (hend : q ≤ P (v.span.index + 1) - 1 ∨ k + 1 = spans.length ∧ q ≤ P (v.span.index + 1)) :
    getSpanDataByCustomDataField field spans q = some v := by
  have hk := (List.getElem?_eq_some_iff.mp hv).1
  rw [length_views] at hk
  have hview : ∀ j, j < spans.length → ∃ w, (views 0 spans)[j]? = some w := fun j hj =>
    ⟨_, List.getElem?_eq_getElem (by rw [length_views]; exact hj)⟩
  have hmatch : IsMatch (directionByField field spans q) spans.length k := by
    refine ⟨hk, ?_, fun j hj => ?_, fun j hj hjn => ?_⟩
    · rw [directionByField_eq hfield hzero hv, if_neg (not_lt.mpr hstart), if_neg]
      rw [not_lt]
      split <;> push_cast
      · exact hend.resolve_right fun hlast => by omega
      · rcases hend with hend | hend
        · linarith
        · linarith [hend.2]
    · obtain ⟨w, hw⟩ := hview j (by omega)
      have horder := lt_of_views hends hj hw hv
      have hpos : (P (w.span.index + 1) : ℚ) ≤ P v.start := by exact_mod_cast hmono horder
      have hwpos : (P w.start : ℚ) ≤ P (w.span.index + 1) := by
        exact_mod_cast hmono (Int.le_add_one (hle w (List.mem_of_getElem? hw)))
      rw [directionByField_eq hfield hzero hw, if_neg (by linarith), if_pos]
      rw [if_pos (by omega)]
      push_cast
      linarith
    · obtain ⟨w, hw⟩ := hview j hjn
      have horder := lt_of_views hends hj hv hw
      have hpos : (P (v.span.index + 1) : ℚ) ≤ P w.start := by exact_mod_cast hmono horder
      have hend := hend.resolve_right fun hlast => by omega
      rw [directionByField_eq hfield hzero hw, if_pos (by linarith)]
  rw [getSpanDataByCustomDataField, binarySearch_eq_some hmatch, Option.bind_some, hv]

/-- **A position less than one before the end of a span is found in no span**, if another follows. -/
theorem search_eq_none {k : Nat} {v : SpanView} (hv : (views 0 spans)[k]? = some v)
    (hk : k + 1 < spans.length) {q : ℚ} (hstart : (P v.start : ℚ) ≤ q)
    (hgap : (P (v.span.index + 1) - 1 : ℚ) < q) (hend : q < P (v.span.index + 1)) :
    getSpanDataByCustomDataField field spans q = none := by
  have hview : ∀ j, j < spans.length → ∃ w, (views 0 spans)[j]? = some w := fun j hj =>
    ⟨_, List.getElem?_eq_getElem (by rw [length_views]; exact hj)⟩
  have hbelow : ∀ j < k + 1, directionByField field spans q j = .gt := by
    intro j hj
    obtain ⟨w, hw⟩ := hview j (by omega)
    have horder : w.start ≤ v.start ∧ w.span.index ≤ v.span.index := by
      rcases Nat.lt_or_eq_of_le (Nat.le_of_lt_succ hj) with hlt | rfl
      · have hlt := lt_of_views hends hlt hw hv
        have hvle := hle v (List.mem_of_getElem? hv)
        have hwle := hle w (List.mem_of_getElem? hw)
        omega
      · rw [hv] at hw
        obtain rfl := Option.some.inj hw
        exact ⟨Int.le_refl _, Int.le_refl _⟩
    have hwstart : (P w.start : ℚ) ≤ P v.start := by exact_mod_cast hmono horder.1
    have hwend : (P (w.span.index + 1) : ℚ) ≤ P (v.span.index + 1) := by
      exact_mod_cast hmono (by omega)
    rw [directionByField_eq hfield hzero hw, if_neg (by linarith), if_pos]
    rw [if_pos (by omega)]
    push_cast
    linarith
  have habove : ∀ j, k + 1 ≤ j → j < spans.length → directionByField field spans q j = .lt := by
    intro j hj hjn
    obtain ⟨w, hw⟩ := hview j hjn
    have hpos : (P (v.span.index + 1) : ℚ) ≤ P w.start := by
      exact_mod_cast hmono (lt_of_views hends hj hv hw)
    rw [directionByField_eq hfield hzero hw, if_pos (by linarith)]
  rw [getSpanDataByCustomDataField, binarySearch_eq_none hbelow habove, Option.bind_none]

end Search

/-! ## Positions go up -/

theorem valueAt_nonneg {spans : List SpanData} (h : ∀ s ∈ spans, 0 ≤ s.value) (i : Int) :
    0 ≤ valueAt spans i := by
  induction spans with
  | nil => exact Int.le_refl 0
  | cons s spans ih =>
    rw [valueAt]
    split
    · exact h s List.mem_cons_self
    · exact ih fun s' hs' => h s' (List.mem_cons_of_mem _ hs')

namespace Geometry

variable (g : Geometry) {T : ℚ} (hT : 0 < T)

theorem visibleAt_nonneg (i : Int) : 0 ≤ g.visibleAt i := by
  rw [visibleAt]
  split
  · exact Int.le_refl 0
  · exact valueAt_nonneg g.nonneg i

theorem startOf_zero (unit : GeometryUnit) : g.startOf T unit 0 = 0 := by
  cases unit <;> simp [startOf, sumBefore_zero]

include hT

theorem pixelsAt_nonneg (i : Int) : 0 ≤ g.pixelsAt T i := by
  have hvisible : (0 : ℚ) ≤ g.visibleAt i := by exact_mod_cast g.visibleAt_nonneg i
  exact Int.floor_nonneg.mpr (by positivity)

theorem startOf_mono (unit : GeometryUnit) : Monotone (g.startOf T unit) := by
  intro a b hab
  have hpx := sumBefore_mono (g.pixelsAt_nonneg hT) hab
  cases unit with
  | printtwips => exact sumBefore_mono g.visibleAt_nonneg hab
  | corepixels => exact hpx
  | tiletwips =>
    have hpx' : ((sumBefore (g.pixelsAt T) a : Int) : ℚ) ≤ sumBefore (g.pixelsAt T) b := by
      exact_mod_cast hpx
    exact Int.floor_le_floor (mul_le_mul_of_nonneg_right hpx' (le_of_lt hT))

/-- An element of a pixel or more is one twip away from the next, at the least. -/
theorem startOf_tiletwips_lt (hone : 1 ≤ T) {i : Int} (hi : 0 ≤ i) (hpx : 0 < g.pixelsAt T i) :
    g.startOf T .tiletwips i < g.startOf T .tiletwips (i + 1) := by
  have hpx' : (1 : ℚ) ≤ g.pixelsAt T i := by exact_mod_cast hpx
  have hstep : (g.pixelsAt T i : ℚ) * T ≥ 1 := by nlinarith
  rw [startOf, startOf, sumBefore_succ _ hi, ← Int.add_one_le_iff, ← Int.floor_add_one]
  apply Int.floor_le_floor
  push_cast
  linarith

end Geometry

/-! ## Where the lookups are right -/

/-- The number of elements. -/
def SpanView.count (v : SpanView) : Int := v.span.index - v.start + 1

/-- The pixels before the span. -/
def SpanView.startpx (v : SpanView) : Int := v.span.poscorepx - v.span.sizecore * v.count

/-- Nothing is lost by rounding: an element that is seen has a pixel at the least, each span of pixels
starts on a whole twip, the parts of a twip its elements have add up to less than one, and behind its
last pixel there is room for the twip that the search takes off, where another span follows. -/
structure SheetDimension.Aligned (d : SheetDimension) : Prop where
  visible : ∀ s ∈ d.visibleSizes, s.value = 0 ∨ d.twipsPerCorePixel ≤ s.value
  start : ∀ v ∈ views 0 d.visibleSizes, 0 < v.span.sizecore →
    Int.fract (v.startpx * d.twipsPerCorePixel) = 0
  even : ∀ v ∈ views 0 d.visibleSizes, 0 < v.span.sizecore →
    v.count = 1 ∨ v.count * Int.fract (v.span.sizecore * d.twipsPerCorePixel) < 1
  seam : ∀ v ∈ views 0 d.visibleSizes, 0 < v.span.sizecore →
    d.visibleSizes.getLast? = some v.span ∨
      Int.fract (v.span.poscorepx * d.twipsPerCorePixel) ≤ d.twipsPerCorePixel - 1 ∨
      v.span.index = d.maxIndex

/-- **Lookups are inverse**: each position of an element that has a size leads to the element and
snaps to its start, and its start in print twips is the same after a conversion there and back. -/
def LookupsInverse (g : Geometry) (d : SheetDimension) : Prop :=
  ∀ unit i, 0 ≤ i → i ≤ g.last → 0 < g.sizeOf d.twipsPerCorePixel unit i →
    (∀ p : Int, g.startOf d.twipsPerCorePixel unit i ≤ p →
      p < g.startOf d.twipsPerCorePixel unit (i + 1) →
      d.getIndexFromPos p unit = some i ∧
        d.getSnapPos p unit = some (g.startOf d.twipsPerCorePixel unit i)) ∧
    (d.getTileTwipsPosFromPrint (g.startOf d.twipsPerCorePixel .printtwips i)).bind
      d.getPrintTwipsPosFromTile = some (g.startOf d.twipsPerCorePixel .printtwips i : ℚ)

/-- What a position led to is the element `i`, in a span that has it. -/
structure Found (d : SheetDimension) (i : Int) (e : SheetDimension.IndexAndSpan) : Prop where
  index : e.index = some i
  span : ∃ v ∈ views 0 d.visibleSizes, v.start ≤ i ∧ i ≤ v.span.index ∧ e.span = some v

theorem Found.elementData {g : Geometry} {d : SheetDimension} (h : Shows g d) {i : Int}
    {e : SheetDimension.IndexAndSpan} (hfound : Found d i e) (unit : GeometryUnit) :
    d.elementData e unit =
      some ⟨g.startOf d.twipsPerCorePixel unit i, g.sizeOf d.twipsPerCorePixel unit i⟩ := by
  obtain ⟨v, hv, hstart, hend, hspan⟩ := hfound.span
  rw [SheetDimension.elementData, hfound.index, hspan]
  exact (h.laid v hv).elementData_eq hstart hend unit

theorem floorDiv_eq_iff {a s : ℚ} (hs : 0 < s) {r : Int} :
    SheetDimension.floorDiv a s = some r ↔ r * s ≤ a ∧ a < (r + 1) * s := by
  rw [SheetDimension.floorDiv, if_neg (ne_of_gt hs), Option.some.injEq, Int.floor_eq_iff,
    le_div_iff₀ hs, div_lt_iff₀ hs]

/-! ## Print twips -/

/-- A position in print twips leads to its element, where the search leads to the span. -/
theorem Shows.found_of_search {g : Geometry} {d : SheetDimension} (h : Shows g d) {v : SpanView}
    (hv : v ∈ views 0 d.visibleSizes) {i : Int} (hstart : v.start ≤ i) (hend : i ≤ v.span.index)
    (hsize : 0 < g.visibleAt i) {q : ℚ} (hle : (sumBefore g.visibleAt i : ℚ) ≤ q)
    (hlt : q < sumBefore g.visibleAt (i + 1))
    (hsearch : getSpanDataByCustomDataField Span.posprinttwips d.visibleSizes q = some v) :
    Found d i (d.getSpanAndIndexFromPrintTwipsPos q) := by
  have hlaid := h.laid v hv
  have hposStart := hlaid.printtwips_eq (Int.le_refl _) (by omega)
  have hi : (v.span.posprinttwips - v.span.value * (v.span.index - i + 1) : ℚ) =
      sumBefore g.visibleAt i := by exact_mod_cast hlaid.printtwips_eq hstart (by omega)
  have hi1 : (v.span.posprinttwips - v.span.value * (v.span.index - (i + 1) + 1) : ℚ) =
      sumBefore g.visibleAt (i + 1) := by
    exact_mod_cast hlaid.printtwips_eq (by omega : v.start ≤ i + 1) (by omega)
  have hbase : (v.span.posprinttwips - v.span.value * (v.span.index - v.start + 1) : ℚ) =
      sumBefore g.visibleAt v.start := by exact_mod_cast hposStart
  have hvalue := hlaid.value i hstart hend
  have hindex : SheetDimension.floorDiv (q - sumBefore g.visibleAt v.start) v.span.value =
      some (i - v.start) := by
    have hpos : (0 : ℚ) < v.span.value := by exact_mod_cast hvalue ▸ hsize
    rw [floorDiv_eq_iff hpos]
    push_cast
    constructor
    · linarith
    · linarith
  rw [SheetDimension.getSpanAndIndexFromPrintTwipsPos, hsearch]
  dsimp only
  rw [hposStart, hindex]
  refine ⟨?_, v, hv, hstart, hend, rfl⟩
  exact congrArg some (by change v.start + (i - v.start) = i; omega)

/-- **In print twips every position is found.** -/
theorem Shows.found_printtwips {g : Geometry} {d : SheetDimension} (h : Shows g d) {i : Int}
    (hi : 0 ≤ i) (him : i ≤ g.last) (hsize : 0 < g.visibleAt i) {q : Int}
    (hle : sumBefore g.visibleAt i ≤ q) (hlt : q < sumBefore g.visibleAt (i + 1)) :
    Found d i (d.getSpanAndIndexFromPrintTwipsPos q) := by
  obtain ⟨k, v, hk, hstart, hend, -, -⟩ := h.exists_span hi him
  have hmono : Monotone (sumBefore g.visibleAt) := fun a b hab => sumBefore_mono g.visibleAt_nonneg hab
  refine h.found_of_search (List.mem_of_getElem? hk) hstart hend hsize (by exact_mod_cast hle)
    (by exact_mod_cast hlt) ?_
  refine search_eq_some h.ends (fun w hw => (h.laid w hw).posprinttwips) (sumBefore_zero _)
    h.start_le hmono hk ?_ ?_
  · exact_mod_cast (hmono hstart).trans hle
  · have hbefore := hmono (by omega : i + 1 ≤ v.span.index + 1)
    exact .inl (by exact_mod_cast (by omega : q ≤ sumBefore g.visibleAt (v.span.index + 1) - 1))

/-! ## Tile twips and pixels -/

/-- The size of an element in tile twips, as the division takes it. -/
def SpanView.sizeOne (v : SpanView) (T : ℚ) : ℚ :=
  ((v.span.postiletwips : ℚ) - v.startpx * T) / v.count

namespace Laid

variable {V : Int → Int} {T : ℚ} {v : SpanView} (h : Laid V T v)

include h

theorem count_pos : 0 < v.count := by
  have := h.start_le
  rw [SpanView.count]
  omega

theorem pixels_eq {i : Int} (hstart : v.start ≤ i) (hend : i ≤ v.span.index + 1) :
    sumBefore (fun j => ⌊(V j : ℚ) / T⌋) i = v.startpx + v.span.sizecore * (i - v.start) := by
  rw [← h.corepx_eq hstart hend, SpanView.startpx, SpanView.count]
  ring

/-- The elements share what is left of the span after rounding. -/
theorem count_mul_sizeOne :
    v.count * v.sizeOne T = v.count * (v.span.sizecore * T) - Int.fract (v.span.poscorepx * T) := by
  have hcount : (v.count : ℚ) ≠ 0 := by exact_mod_cast ne_of_gt h.count_pos
  have hpos : (v.span.poscorepx : ℚ) = v.startpx + v.span.sizecore * v.count := by
    rw [SpanView.startpx]
    push_cast
    ring
  rw [SpanView.sizeOne, mul_div_cancel₀ _ hcount, h.postiletwips, ← Int.self_sub_fract, hpos]
  ring

theorem sizeOne_le : v.sizeOne T ≤ v.span.sizecore * T := by
  have hcount : (0 : ℚ) < v.count := by exact_mod_cast h.count_pos
  have hmul := h.count_mul_sizeOne
  have hfract := Int.fract_nonneg (v.span.poscorepx * T)
  exact le_of_mul_le_mul_left (by linarith) hcount

variable (hT : 1 ≤ T) (hc : 0 < v.span.sizecore)

include hT hc

omit h in
theorem one_le_sizecore_mul : 1 ≤ v.span.sizecore * T := by
  have hc' : (1 : ℚ) ≤ v.span.sizecore := by exact_mod_cast hc
  nlinarith

theorem sizeOne_pos : 0 < v.sizeOne T := by
  have hcount : (1 : ℚ) ≤ v.count := by exact_mod_cast h.count_pos
  have hone := one_le_sizecore_mul hT hc
  have hfract := Int.fract_lt_one (v.span.poscorepx * T)
  have hmul := h.count_mul_sizeOne
  by_contra hnot
  rw [not_lt] at hnot
  nlinarith

/-- The division of a position behind the start of the span, with the condition that matters: the end
of an element is never missed. -/
theorem floorDiv_eq_iff_le {i : Int} (hstart : v.start ≤ i) (hend : i ≤ v.span.index) {a : ℚ}
    (ha : a ≤ v.span.sizecore * T * (i - v.start + 1 : Int) - 1) :
    SheetDimension.floorDiv a (v.sizeOne T) = some (i - v.start) ↔
      (i - v.start : Int) * v.sizeOne T ≤ a := by
  rw [floorDiv_eq_iff (h.sizeOne_pos hT hc)]
  refine and_iff_left ?_
  have hcount : (0 : ℚ) < v.count := by exact_mod_cast h.count_pos
  have hr : ((i - v.start : Int) : ℚ) + 1 ≤ v.count := by
    exact_mod_cast (by rw [SpanView.count]; omega : i - v.start + 1 ≤ v.count)
  have hr0 : (0 : ℚ) < ((i - v.start : Int) : ℚ) + 1 := by
    exact_mod_cast (by omega : 0 < i - v.start + 1)
  have hfract := Int.fract_lt_one (v.span.poscorepx * T)
  have hfract0 := Int.fract_nonneg (v.span.poscorepx * T)
  have hmul := h.count_mul_sizeOne
  rw [Int.cast_add, Int.cast_one] at ha
  -- what an element lacks of its full size is less than its share of one twip
  have hlack : (((i - v.start : Int) : ℚ) + 1) * Int.fract (v.span.poscorepx * T) < v.count := by
    nlinarith
  have hsize : v.count * ((((i - v.start : Int) : ℚ) + 1) * v.sizeOne T) =
      v.count * (v.span.sizecore * T * (((i - v.start : Int) : ℚ) + 1)) -
        (((i - v.start : Int) : ℚ) + 1) * Int.fract (v.span.poscorepx * T) := by
    linear_combination (((i - v.start : Int) : ℚ) + 1) * hmul
  have hgoal : v.count * a < v.count * ((((i - v.start : Int) : ℚ) + 1) * v.sizeOne T) := by
    nlinarith
  exact lt_of_mul_lt_mul_left hgoal (le_of_lt hcount)

end Laid

/-- Rounded down, the elements of a span stay behind an even share: exactly where the span starts on a
whole twip and the parts of a twip that its elements have add up to less than one. -/
theorem fract_share_iff {T : ℚ} {B c n : Int} (hn : 0 < n) :
    (∀ r : Int, 0 ≤ r → r < n →
      (n : ℚ) * Int.fract ((B + c * r : Int) * T) ≤ r * Int.fract ((B + c * n : Int) * T)) ↔
      Int.fract (B * T) = 0 ∧ (n = 1 ∨ n * Int.fract (c * T) < 1) := by
  have hn' : (0 : ℚ) < n := by exact_mod_cast hn
  -- once the start is whole, only the elements count
  have hwhole : Int.fract (B * T) = 0 → ∀ r : Int,
      Int.fract ((B + c * r : Int) * T) = Int.fract (r * Int.fract (c * T)) := by
    intro hzero r
    have hB : ((B + c * r : Int) : ℚ) * T = r * Int.fract (c * T) + (⌊B * T⌋ + r * ⌊c * T⌋ : Int) := by
      have hBT := Int.floor_add_fract (B * T)
      have hcT := Int.floor_add_fract (c * T)
      rw [hzero] at hBT
      push_cast
      linear_combination -hBT - r * hcT
    rw [hB, Int.fract_add_intCast]
  constructor
  · intro hshare
    have hzero : Int.fract (B * T) = 0 := by
      have hfirst := hshare 0 (Int.le_refl 0) hn
      have hnonneg := Int.fract_nonneg ((B : ℚ) * T)
      rw [mul_zero, add_zero, Int.cast_zero, zero_mul] at hfirst
      exact le_antisymm (nonpos_of_mul_nonpos_right hfirst hn') hnonneg
    refine ⟨hzero, ?_⟩
    by_cases hone : n = 1
    · exact .inl hone
    · have hsecond := hshare 1 (by omega) (by omega)
      rw [hwhole hzero, Int.cast_one, one_mul, one_mul, Int.fract_fract] at hsecond
      exact .inr (lt_of_le_of_lt hsecond (Int.fract_lt_one _))
  · rintro ⟨hzero, hone | hless⟩ r hr hrn
    · obtain rfl : r = 0 := by omega
      rw [mul_zero, add_zero, hzero, mul_zero, Int.cast_zero, zero_mul]
    · have hpart : ∀ r : Int, 0 ≤ r → r ≤ n →
          Int.fract ((r : ℚ) * Int.fract (c * T)) = r * Int.fract (c * T) := by
        intro r hr hrn
        have hr' : (0 : ℚ) ≤ r := by exact_mod_cast hr
        have hrn' : (r : ℚ) ≤ n := by exact_mod_cast hrn
        have hnonneg := Int.fract_nonneg ((c : ℚ) * T)
        rw [Int.fract_eq_self]
        exact ⟨mul_nonneg hr' hnonneg, by nlinarith⟩
      rw [hwhole hzero, hwhole hzero, hpart r hr (by omega), hpart n (by omega) (Int.le_refl n)]
      exact le_of_eq (by ring)

theorem SheetDimension.getSpanAndIndexFromTileTwipsPos_eq {d : SheetDimension} {q : ℚ} {v : SpanView}
    (h : getSpanDataByCustomDataField Span.postiletwips d.visibleSizes q = some v) :
    d.getSpanAndIndexFromTileTwipsPos q =
      ⟨(floorDiv (q - v.startpx * d.twipsPerCorePixel) (v.sizeOne d.twipsPerCorePixel)).map
        (v.start + ·), some v⟩ := by
  rw [getSpanAndIndexFromTileTwipsPos, h]
  rfl

theorem map_start_add {v : SpanView} {r : Option Int} {i : Int} :
    r.map (v.start + ·) = some i ↔ r = some (i - v.start) := by
  cases r with
  | none => simp
  | some r =>
    rw [Option.map_some, Option.some.injEq, Option.some.injEq]
    omega

section Tiles

variable {g : Geometry} {d : SheetDimension} (h : Shows g d) (hT : 1 ≤ d.twipsPerCorePixel)

include h hT

omit hT in
theorem Shows.postiletwips_eq : ∀ w ∈ views 0 d.visibleSizes,
    w.span.postiletwips = g.startOf d.twipsPerCorePixel .tiletwips (w.span.index + 1) := by
  intro w hw
  rw [(h.laid w hw).postiletwips, (h.laid w hw).poscorepx]
  rfl

/-- The search by tile twips. -/
theorem Shows.search_tiletwips {k : Nat} {v : SpanView} (hk : (views 0 d.visibleSizes)[k]? = some v)
    {q : ℚ} (hstart : (g.startOf d.twipsPerCorePixel .tiletwips v.start : ℚ) ≤ q)
    (hend : q ≤ v.span.postiletwips - 1 ∨ k + 1 = d.visibleSizes.length ∧ q ≤ v.span.postiletwips) :
    getSpanDataByCustomDataField Span.postiletwips d.visibleSizes q = some v := by
  rw [h.postiletwips_eq v (List.mem_of_getElem? hk)] at hend
  exact search_eq_some h.ends h.postiletwips_eq (g.startOf_zero _) h.start_le (g.startOf_mono (by linarith) _) hk
    hstart hend

/-- A position of an element in tile twips is found in its span. -/
theorem Shows.span_tiletwips {k : Nat} {v : SpanView} (hk : (views 0 d.visibleSizes)[k]? = some v)
    {i : Int} (hstart : v.start ≤ i) (hend : i ≤ v.span.index) {q : Int}
    (hle : g.startOf d.twipsPerCorePixel .tiletwips i ≤ q)
    (hlt : q < g.startOf d.twipsPerCorePixel .tiletwips (i + 1)) :
    d.getSpanAndIndexFromTileTwipsPos q = ⟨(SheetDimension.floorDiv
        (q - v.startpx * d.twipsPerCorePixel) (v.sizeOne d.twipsPerCorePixel)).map (v.start + ·),
        some v⟩ ∧
      (q : ℚ) - v.startpx * d.twipsPerCorePixel ≤
        v.span.sizecore * d.twipsPerCorePixel * (i - v.start + 1 : Int) - 1 := by
  have hlaid := h.laid v (List.mem_of_getElem? hk)
  have hmono := g.startOf_mono (lt_of_lt_of_le one_pos hT) .tiletwips
  have hpost := h.postiletwips_eq v (List.mem_of_getElem? hk)
  constructor
  · apply SheetDimension.getSpanAndIndexFromTileTwipsPos_eq
    refine h.search_tiletwips hT hk ?_ (.inl ?_)
    · exact_mod_cast (hmono hstart).trans hle
    · have hlast := hmono (by omega : i + 1 ≤ v.span.index + 1)
      exact_mod_cast (by omega : q ≤ v.span.postiletwips - 1)
  · have hnext : ((q + 1 : Int) : ℚ) ≤ (sumBefore (g.pixelsAt d.twipsPerCorePixel) (i + 1) : Int) *
        d.twipsPerCorePixel := Int.le_floor.mp hlt
    have hpx : sumBefore (g.pixelsAt d.twipsPerCorePixel) (i + 1) =
        v.startpx + v.span.sizecore * (i + 1 - v.start) :=
      hlaid.pixels_eq (by omega) (by omega)
    rw [hpx] at hnext
    push_cast at hnext ⊢
    linarith

omit hT in
/-- The even share of an element, as parts of twips. -/
theorem Shows.share_iff {k : Nat} {v : SpanView} (hk : (views 0 d.visibleSizes)[k]? = some v)
    {i : Int} (hstart : v.start ≤ i) (hend : i ≤ v.span.index) :
    ((i - v.start : Int) * v.sizeOne d.twipsPerCorePixel ≤
        g.startOf d.twipsPerCorePixel .tiletwips i - v.startpx * d.twipsPerCorePixel) ↔
      (v.count : ℚ) * Int.fract
          ((v.startpx + v.span.sizecore * (i - v.start) : Int) * d.twipsPerCorePixel) ≤
        (i - v.start : Int) *
          Int.fract ((v.startpx + v.span.sizecore * v.count : Int) * d.twipsPerCorePixel) := by
  have hlaid := h.laid v (List.mem_of_getElem? hk)
  have hcount : (0 : ℚ) < v.count := by exact_mod_cast hlaid.count_pos
  have hpx : sumBefore (g.pixelsAt d.twipsPerCorePixel) i =
      v.startpx + v.span.sizecore * (i - v.start) := hlaid.pixels_eq hstart (by omega)
  have hpos : v.startpx + v.span.sizecore * v.count = v.span.poscorepx := by
    rw [SpanView.startpx]
    ring
  have hmul := hlaid.count_mul_sizeOne
  rw [Geometry.startOf, hpx, hpos, ← Int.self_sub_fract, ← mul_le_mul_iff_right₀ hcount]
  push_cast
  constructor
  · intro hshare
    linear_combination hshare - (i - v.start) * hmul
  · intro hshare
    linear_combination hshare + (i - v.start) * hmul

omit hT in
/-- The last span is the one at the last place. -/
theorem Shows.getLast?_iff {k : Nat} {v : SpanView} (hk : (views 0 d.visibleSizes)[k]? = some v) :
    d.visibleSizes.getLast? = some v.span ↔ k + 1 = d.visibleSizes.length := by
  have hlt := (List.getElem?_eq_some_iff.mp hk).1
  rw [length_views] at hlt
  have hspan := @getElem?_views 0 d.visibleSizes k
  rw [hk, Option.map_some] at hspan
  rw [List.getLast?_eq_getElem?]
  constructor
  · intro hlast
    by_contra hne
    obtain ⟨w, hw⟩ : ∃ w, (views 0 d.visibleSizes)[d.visibleSizes.length - 1]? = some w :=
      ⟨_, List.getElem?_eq_getElem (by rw [length_views]; omega)⟩
    have hwspan := @getElem?_views 0 d.visibleSizes (d.visibleSizes.length - 1)
    rw [hw, Option.map_some, hlast, Option.some.injEq] at hwspan
    have horder := lt_of_views h.ends (by omega) hk hw
    have hwle := h.start_le w (List.mem_of_getElem? hw)
    rw [hwspan] at hwle
    omega
  · intro hlast
    have hplace : d.visibleSizes.length - 1 = k := by omega
    rw [hplace, ← hspan]

omit hT in
/-- What stands after a position in pixels that is in no span. -/
theorem Shows.limit_found {v : SpanView} (hv : v ∈ views 0 d.visibleSizes)
    (hmax : v.span.index = d.maxIndex) {q : ℚ} (hq : 0 ≤ q) : Found d v.span.index (d.limit q) := by
  obtain ⟨k, hk⟩ := List.mem_iff_getElem?.mp hv
  refine ⟨?_, v, hv, h.start_le v hv, Int.le_refl _, ?_⟩
  · rw [SheetDimension.limit, if_pos hq, hmax]
  · rw [SheetDimension.limit, if_pos hq, ← hmax]
    exact getSpanDataByIndex_eq h.ends h.start_le hk (h.start_le v hv) (Int.le_refl _)

/-- The last pixel of a span that another one follows is lost, where less than a twip is left behind
it. -/
theorem Shows.lastPixel_eq {k : Nat} {v : SpanView} (hk : (views 0 d.visibleSizes)[k]? = some v)
    (hc : 0 < v.span.sizecore) (hnext : k + 1 < d.visibleSizes.length)
    (hseam : d.twipsPerCorePixel - 1 < Int.fract (v.span.poscorepx * d.twipsPerCorePixel)) :
    d.getSpanAndIndexFromTileTwipsPos ((v.span.poscorepx - 1 : Int) * d.twipsPerCorePixel) =
      d.limit ((v.span.poscorepx - 1 : Int) * d.twipsPerCorePixel) := by
  have hlaid := h.laid v (List.mem_of_getElem? hk)
  have hpost := hlaid.postiletwips
  have hfloor := Int.self_sub_fract (v.span.poscorepx * d.twipsPerCorePixel)
  have hfract := Int.fract_lt_one (v.span.poscorepx * d.twipsPerCorePixel)
  have hpx : sumBefore (g.pixelsAt d.twipsPerCorePixel) v.start = v.startpx := by
    have := hlaid.pixels_eq (Int.le_refl v.start) (by have := hlaid.start_le; omega)
    rw [sub_self, mul_zero, add_zero] at this
    exact this
  have hnone : getSpanDataByCustomDataField Span.postiletwips d.visibleSizes
      ((v.span.poscorepx - 1 : Int) * d.twipsPerCorePixel) = none := by
    have hpos : (0 : ℚ) < d.twipsPerCorePixel := lt_of_lt_of_le one_pos hT
    refine search_eq_none h.ends h.postiletwips_eq (g.startOf_zero _) h.start_le (g.startOf_mono hpos _) hk hnext
      ?_ ?_ ?_
    · have hle : v.startpx ≤ v.span.poscorepx - 1 := by
        have hcount := hlaid.count_pos
        rw [SpanView.startpx]
        nlinarith
      have hle' : (v.startpx : ℚ) ≤ (v.span.poscorepx - 1 : Int) := by exact_mod_cast hle
      rw [Geometry.startOf, hpx]
      exact (Int.floor_le _).trans (mul_le_mul_of_nonneg_right hle' (le_of_lt hpos))
    · rw [← h.postiletwips_eq v (List.mem_of_getElem? hk), hpost, ← hfloor]
      push_cast
      linarith
    · rw [← h.postiletwips_eq v (List.mem_of_getElem? hk), hpost, ← hfloor]
      push_cast
      linarith
  rw [SheetDimension.getSpanAndIndexFromTileTwipsPos, hnone]

/-- **A position in pixels is found**, at a seam that is right. -/
theorem Shows.found_corepixels {k : Nat} {v : SpanView} (hk : (views 0 d.visibleSizes)[k]? = some v)
    (hc : 0 < v.span.sizecore)
    (hseam : d.visibleSizes.getLast? = some v.span ∨
      Int.fract (v.span.poscorepx * d.twipsPerCorePixel) ≤ d.twipsPerCorePixel - 1 ∨
      v.span.index = d.maxIndex)
    {i : Int} (hstart : v.start ≤ i) (hend : i ≤ v.span.index) {p : Int}
    (hle : sumBefore (g.pixelsAt d.twipsPerCorePixel) i ≤ p)
    (hlt : p < sumBefore (g.pixelsAt d.twipsPerCorePixel) (i + 1)) :
    Found d i (d.getSpanAndIndexFromTileTwipsPos (p * d.twipsPerCorePixel)) := by
  have hpos : (0 : ℚ) < d.twipsPerCorePixel := lt_of_lt_of_le one_pos hT
  have hmem := List.mem_of_getElem? hk
  have hlaid := h.laid v hmem
  have hpost := hlaid.postiletwips
  have hfloor := Int.self_sub_fract (v.span.poscorepx * d.twipsPerCorePixel)
  have hfract := Int.fract_lt_one (v.span.poscorepx * d.twipsPerCorePixel)
  have hi : sumBefore (g.pixelsAt d.twipsPerCorePixel) i =
      v.startpx + v.span.sizecore * (i - v.start) := hlaid.pixels_eq hstart (by omega)
  have hi1 : sumBefore (g.pixelsAt d.twipsPerCorePixel) (i + 1) =
      v.startpx + v.span.sizecore * (i + 1 - v.start) := hlaid.pixels_eq (by omega) (by omega)
  have hposcorepx : v.span.poscorepx = sumBefore (g.pixelsAt d.twipsPerCorePixel) (v.span.index + 1) :=
    hlaid.poscorepx
  have hmono := sumBefore_mono (g.pixelsAt_nonneg hpos) (by omega : i + 1 ≤ v.span.index + 1)
  have hp : (p : ℚ) ≤ v.span.poscorepx - 1 := by exact_mod_cast (by omega : p ≤ v.span.poscorepx - 1)
  have hfrom : (v.startpx + v.span.sizecore * (i - v.start) : ℚ) ≤ p := by exact_mod_cast hi ▸ hle
  have hto : (p : ℚ) ≤ v.startpx + v.span.sizecore * (i + 1 - v.start) - 1 := by
    exact_mod_cast (by rw [← hi1]; omega : p ≤ v.startpx + v.span.sizecore * (i + 1 - v.start) - 1)
  -- inside the span the division is right
  have hspan : getSpanDataByCustomDataField Span.postiletwips d.visibleSizes
      (p * d.twipsPerCorePixel) = some v →
      Found d i (d.getSpanAndIndexFromTileTwipsPos (p * d.twipsPerCorePixel)) := by
    intro hsearch
    rw [SheetDimension.getSpanAndIndexFromTileTwipsPos_eq hsearch]
    refine ⟨map_start_add.mpr ((hlaid.floorDiv_eq_iff_le hT hc hstart hend ?_).mpr ?_), v, hmem, hstart,
      hend, rfl⟩
    · push_cast
      nlinarith
    · have hr : (0 : ℚ) ≤ (i - v.start : Int) := by exact_mod_cast (by omega : 0 ≤ i - v.start)
      have hshare := mul_le_mul_of_nonneg_left hlaid.sizeOne_le hr
      push_cast at hshare ⊢
      nlinarith
  have hfirst : (g.startOf d.twipsPerCorePixel .tiletwips v.start : ℚ) ≤ p * d.twipsPerCorePixel := by
    have hle' : (sumBefore (g.pixelsAt d.twipsPerCorePixel) v.start : ℚ) ≤ p := by
      exact_mod_cast (sumBefore_mono (g.pixelsAt_nonneg hpos) hstart).trans hle
    exact (Int.floor_le _).trans (mul_le_mul_of_nonneg_right hle' (le_of_lt hpos))
  by_cases hin : (p : ℚ) * d.twipsPerCorePixel ≤ v.span.postiletwips - 1
  · exact hspan (h.search_tiletwips hT hk hfirst (.inl hin))
  by_cases hlast : k + 1 = d.visibleSizes.length
  · refine hspan (h.search_tiletwips hT hk hfirst (.inr ⟨hlast, ?_⟩))
    rw [hpost, ← hfloor]
    nlinarith
  · -- the last pixel of the span
    rw [hpost, ← hfloor, not_le] at hin
    have hfract' : d.twipsPerCorePixel - 1 < Int.fract (v.span.poscorepx * d.twipsPerCorePixel) := by
      nlinarith
    have hmax : v.span.index = d.maxIndex := by
      rcases hseam with hlast' | hseam | hmax
      · exact absurd ((h.getLast?_iff hk).mp hlast') hlast
      · linarith
      · exact hmax
    have hpixel : p = v.span.poscorepx - 1 := by
      by_contra hne
      have hp' : (p : ℚ) ≤ v.span.poscorepx - 2 := by
        have hp : p ≤ v.span.poscorepx - 1 := by exact_mod_cast hp
        exact_mod_cast (by omega : p ≤ v.span.poscorepx - 2)
      nlinarith
    have hindex : i = v.span.index := by
      by_contra hne
      have hbefore := hlaid.pixels_eq (by omega : v.start ≤ v.span.index + 1) (Int.le_refl _)
      rw [← hlaid.poscorepx] at hbefore
      nlinarith [(by omega : i + 1 ≤ v.span.index)]
    have hk1 := (List.getElem?_eq_some_iff.mp hk).1
    rw [length_views] at hk1
    rw [hpixel, h.lastPixel_eq hT hk hc (by omega) hfract', hindex]
    refine h.limit_found hmem hmax ?_
    rw [← hpixel]
    have hp0 : 0 ≤ p := by
      have hnonneg := sumBefore_mono (g.pixelsAt_nonneg hpos) (hlaid.start_nonneg.trans hstart)
      rw [sumBefore_zero] at hnonneg
      omega
    have hp0' : (0 : ℚ) ≤ p := by exact_mod_cast hp0
    positivity

/-- **A position in tile twips is found**, in a span that is right. -/
theorem Shows.found_tiletwips {k : Nat} {v : SpanView} (hk : (views 0 d.visibleSizes)[k]? = some v)
    (hc : 0 < v.span.sizecore) (hwhole : Int.fract (v.startpx * d.twipsPerCorePixel) = 0)
    (heven : v.count = 1 ∨ v.count * Int.fract (v.span.sizecore * d.twipsPerCorePixel) < 1)
    {i : Int} (hstart : v.start ≤ i) (hend : i ≤ v.span.index) {q : Int}
    (hle : g.startOf d.twipsPerCorePixel .tiletwips i ≤ q)
    (hlt : q < g.startOf d.twipsPerCorePixel .tiletwips (i + 1)) :
    Found d i (d.getSpanAndIndexFromTileTwipsPos q) := by
  have hlaid := h.laid v (List.mem_of_getElem? hk)
  obtain ⟨heq, hto⟩ := h.span_tiletwips hT hk hstart hend hle hlt
  have hshare := (h.share_iff hk hstart hend).mpr ((fract_share_iff hlaid.count_pos).mpr
    ⟨hwhole, heven⟩ (i - v.start) (by omega) (by rw [SpanView.count]; omega))
  have hle' : (g.startOf d.twipsPerCorePixel .tiletwips i : ℚ) ≤ q := by exact_mod_cast hle
  rw [heq]
  refine ⟨map_start_add.mpr ((hlaid.floorDiv_eq_iff_le hT hc hstart hend hto).mpr (by linarith)), v,
    List.mem_of_getElem? hk, hstart, hend, rfl⟩

/-- Where all starts in tile twips are found, the span is right. -/
theorem Shows.right_of_tiletwips {k : Nat} {v : SpanView} (hk : (views 0 d.visibleSizes)[k]? = some v)
    (hc : 0 < v.span.sizecore)
    (hfound : ∀ i, v.start ≤ i → i ≤ v.span.index →
      (d.getSpanAndIndexFromTileTwipsPos (g.startOf d.twipsPerCorePixel .tiletwips i)).index = some i) :
    Int.fract (v.startpx * d.twipsPerCorePixel) = 0 ∧
      (v.count = 1 ∨ v.count * Int.fract (v.span.sizecore * d.twipsPerCorePixel) < 1) := by
  have hlaid := h.laid v (List.mem_of_getElem? hk)
  rw [← fract_share_iff hlaid.count_pos]
  intro r hr hrn
  rw [SpanView.count] at hrn
  have hstart : v.start ≤ v.start + r := by omega
  have hend : v.start + r ≤ v.span.index := by omega
  have hpixels : g.pixelsAt d.twipsPerCorePixel (v.start + r) = v.span.sizecore := by
    rw [Geometry.pixelsAt, hlaid.value _ hstart hend, hlaid.sizecore]
  have hstep := g.startOf_tiletwips_lt (lt_of_lt_of_le one_pos hT) hT
    (by have := hlaid.start_nonneg; omega) (hpixels ▸ hc)
  obtain ⟨heq, hto⟩ := h.span_tiletwips hT hk hstart hend (Int.le_refl _) hstep
  have hindex := hfound _ hstart hend
  rw [heq] at hindex
  have hdiv := (hlaid.floorDiv_eq_iff_le hT hc hstart hend hto).mp (map_start_add.mp hindex)
  have hshare := (h.share_iff hk hstart hend).mp hdiv
  rw [add_sub_cancel_left] at hshare
  exact hshare

end Tiles

/-! ## Elements without a pixel -/

theorem index_le_of_mem_views {m lo : Int} {spans : List Span} (h : Ends m lo (spans.map Span.index)) :
    ∀ v ∈ views lo spans, v.span.index ≤ m := by
  induction spans generalizing lo with
  | nil => simp [views]
  | cons s spans ih =>
    intro v hv
    obtain ⟨hlo, hsm⟩ := h.head
    rw [views, List.mem_cons] at hv
    rcases hv with rfl | hv
    · exact hsm
    · rcases Int.lt_or_eq_of_le hsm with hlt | heq
      · exact ih (h.tail hlt) v hv
      · rw [List.map_cons, heq] at h
        rw [List.map_eq_nil_iff.mp h.eq_nil] at hv
        simp [views] at hv

theorem Laid.pixelsAt_eq {g : Geometry} {T : ℚ} {v : SpanView} (h : Laid g.visibleAt T v) {i : Int}
    (hstart : v.start ≤ i) (hend : i ≤ v.span.index) : g.pixelsAt T i = v.span.sizecore := by
  rw [Geometry.pixelsAt, h.value i hstart hend, h.sizecore]

/-- Elements that have no pixel do not move the ones behind them. -/
theorem Geometry.startOf_tiletwips_eq {g : Geometry} {T : ℚ} {i j : Int} (hi : 0 ≤ i) (hij : i ≤ j)
    (hpx : ∀ l, i ≤ l → l < j → g.pixelsAt T l = 0) :
    g.startOf T .tiletwips j = g.startOf T .tiletwips i := by
  rw [startOf, startOf, sumBefore_const hi hij hpx, zero_mul, add_zero]

/-- An element outside of the span that was found has no data. -/
theorem SheetDimension.getPrintTwipsPosFromTile_eq_none {d : SheetDimension} {q : ℚ} {v : SpanView}
    {index : Option Int} (h : d.getSpanAndIndexFromTileTwipsPos q = ⟨index, some v⟩)
    (hout : ∀ i, index = some i → i < v.start ∨ v.span.index < i) :
    d.getPrintTwipsPosFromTile q = none := by
  rw [getPrintTwipsPosFromTile, h, elementData]
  cases index with
  | none => rfl
  | some i =>
    simp [getElementDataAnyFromSpanByIndex, hout i rfl]

section Conversions

variable {g : Geometry} {d : SheetDimension} (h : Shows g d)

include h

/-- The start of an element, from print twips to tile twips. -/
theorem Shows.getTileTwipsPosFromPrint_eq {i : Int} (hi : 0 ≤ i) (him : i ≤ g.last)
    (hsize : 0 < g.visibleAt i) :
    d.getTileTwipsPosFromPrint (g.startOf d.twipsPerCorePixel .printtwips i) =
      some (g.startOf d.twipsPerCorePixel .tiletwips i : ℚ) := by
  have hfound := h.found_printtwips hi him hsize (Int.le_refl _)
    (by rw [sumBefore_succ _ hi]; omega)
  rw [SheetDimension.getTileTwipsPosFromPrint, Geometry.startOf]
  rw [hfound.elementData h, hfound.elementData h]
  simp [Geometry.startOf]

/-- The start of an element, from tile twips to print twips, where the position leads to an element of
that start. -/
theorem Found.getPrintTwipsPosFromTile_eq {i : Int} {q : ℚ}
    (hfound : Found d i (d.getSpanAndIndexFromTileTwipsPos q)) :
    d.getPrintTwipsPosFromTile q = some (g.startOf d.twipsPerCorePixel .printtwips i +
      (q - g.startOf d.twipsPerCorePixel .tiletwips i)) := by
  rw [SheetDimension.getPrintTwipsPosFromTile]
  rw [hfound.elementData h, hfound.elementData h]
  rfl

variable (hT : 1 ≤ d.twipsPerCorePixel)

include hT

/-- Behind an element without a pixel comes one with a pixel: the position leads to that one. -/
theorem Shows.getPrintTwipsPosFromTile_ne_of_next {i j : Int} (hi : 0 ≤ i) (hij : i < j)
    (hjm : j ≤ g.last) (hsize : 0 < g.visibleAt i)
    (hpx : ∀ l, i ≤ l → l < j → g.pixelsAt d.twipsPerCorePixel l = 0)
    (hj : 0 < g.pixelsAt d.twipsPerCorePixel j) :
    d.getPrintTwipsPosFromTile (g.startOf d.twipsPerCorePixel .tiletwips i) ≠
      some (g.startOf d.twipsPerCorePixel .printtwips i : ℚ) := by
  have hpos : (0 : ℚ) < d.twipsPerCorePixel := lt_of_lt_of_le one_pos hT
  obtain ⟨k, w, hk, hstart, hend, hlaid, -⟩ := h.exists_span (by omega : 0 ≤ j) hjm
  have hc : 0 < w.span.sizecore := by
    rw [← hlaid.pixelsAt_eq hstart hend]
    exact hj
  have hfirst : w.start = j := by
    by_contra hne
    rw [← hlaid.pixelsAt_eq (by omega : w.start ≤ j - 1) (by omega), hpx _ (by omega) (by omega)] at hc
    omega
  have hstartpx : sumBefore (g.pixelsAt d.twipsPerCorePixel) j = w.startpx := by
    have := hlaid.pixels_eq hstart (by omega)
    rw [hfirst, sub_self, mul_zero, add_zero] at this
    exact this
  have hbehind : sumBefore g.visibleAt i < sumBefore g.visibleAt j := by
    have hmono := sumBefore_mono g.visibleAt_nonneg (by omega : i + 1 ≤ j)
    rw [sumBefore_succ _ hi] at hmono
    omega
  have hstep := g.startOf_tiletwips_lt hpos hT (by omega : 0 ≤ j) hj
  obtain ⟨heq, -⟩ := h.span_tiletwips hT hk hstart hend (Int.le_refl _) hstep
  rw [← Geometry.startOf_tiletwips_eq hi (Int.le_of_lt hij) hpx]
  cases hdiv : SheetDimension.floorDiv (g.startOf d.twipsPerCorePixel .tiletwips j -
      w.startpx * d.twipsPerCorePixel) (w.sizeOne d.twipsPerCorePixel) with
  | none =>
    rw [hdiv] at heq
    rw [SheetDimension.getPrintTwipsPosFromTile_eq_none heq (by simp)]
    simp
  | some r =>
    -- the start rounded down is not behind the start the division counts from
    have hr : r ≤ 0 := by
      have hs := hlaid.sizeOne_pos hT hc
      have hle := ((floorDiv_eq_iff hs).mp hdiv).1
      have hfloor : (g.startOf d.twipsPerCorePixel .tiletwips j : ℚ) ≤
          w.startpx * d.twipsPerCorePixel := by
        rw [Geometry.startOf, hstartpx]
        exact Int.floor_le _
      have hr' : (r : ℚ) ≤ 0 := by
        by_contra hnot
        rw [not_le] at hnot
        nlinarith
      exact_mod_cast hr'
    rw [hdiv, Option.map_some] at heq
    rcases Int.lt_or_eq_of_le hr with hneg | rfl
    · rw [SheetDimension.getPrintTwipsPosFromTile_eq_none heq]
      · simp
      · intro i' hi'
        obtain rfl := Option.some.inj hi'
        exact .inl (by omega)
    · have hfound : Found d j (d.getSpanAndIndexFromTileTwipsPos
          (g.startOf d.twipsPerCorePixel .tiletwips j)) := by
        rw [heq]
        exact ⟨congrArg some (by omega), w, List.mem_of_getElem? hk, hstart, hend, rfl⟩
      rw [hfound.getPrintTwipsPosFromTile_eq h, sub_self, add_zero]
      intro hsame
      have hpt : sumBefore g.visibleAt j = sumBefore g.visibleAt i := by
        exact_mod_cast Option.some.inj hsame
      omega

/-- Behind an element without a pixel comes none with a pixel: the position leads behind the last
element, or nowhere. -/
theorem Shows.getPrintTwipsPosFromTile_eq_none_of_last {i : Int} (hi : 0 ≤ i) (him : i ≤ g.last)
    (hpx : ∀ l, i ≤ l → l ≤ g.last → g.pixelsAt d.twipsPerCorePixel l = 0) :
    d.getPrintTwipsPosFromTile (g.startOf d.twipsPerCorePixel .tiletwips i) = none := by
  obtain ⟨k, w, hk, hstart, hend, hlaid, -⟩ := h.exists_span (hi.trans him) (Int.le_refl g.last)
  have hmem := List.mem_of_getElem? hk
  have hlt := (List.getElem?_eq_some_iff.mp hk).1
  rw [length_views] at hlt
  have hindex : w.span.index = g.last := le_antisymm (index_le_of_mem_views h.ends w hmem) hend
  have hplace : k + 1 = d.visibleSizes.length := by
    by_contra hne
    obtain ⟨w', hw'⟩ : ∃ w', (views 0 d.visibleSizes)[k + 1]? = some w' :=
      ⟨_, List.getElem?_eq_getElem (by rw [length_views]; omega)⟩
    have hnext := start_next hk hw'
    have hle := h.start_le w' (List.mem_of_getElem? hw')
    have hmax := index_le_of_mem_views h.ends w' (List.mem_of_getElem? hw')
    omega
  have hq : g.startOf d.twipsPerCorePixel .tiletwips i = w.span.postiletwips := by
    rw [h.postiletwips_eq w hmem, hindex]
    exact (Geometry.startOf_tiletwips_eq hi (by omega) fun l hl hlm => hpx l hl (by omega)).symm
  have hmono := g.startOf_mono (lt_of_lt_of_le one_pos hT) .tiletwips
    (by omega : w.start ≤ w.span.index + 1)
  rw [← h.postiletwips_eq w hmem] at hmono
  have hsearch := h.search_tiletwips hT hk (by exact_mod_cast hmono)
    (.inr ⟨hplace, le_refl (w.span.postiletwips : ℚ)⟩)
  have hcount : (w.count : ℚ) ≠ 0 := by exact_mod_cast ne_of_gt hlaid.count_pos
  rw [hq]
  refine SheetDimension.getPrintTwipsPosFromTile_eq_none
    (SheetDimension.getSpanAndIndexFromTileTwipsPos_eq hsearch) fun j hj => ?_
  rw [map_start_add, SpanView.sizeOne, SheetDimension.floorDiv] at hj
  split at hj
  · cases hj
  · rename_i hne
    have ha : (w.span.postiletwips : ℚ) - w.startpx * d.twipsPerCorePixel ≠ 0 := by
      intro hzero
      rw [hzero, zero_div] at hne
      exact hne rfl
    rw [div_div_cancel₀ ha, Int.floor_intCast, Option.some.injEq, SpanView.count] at hj
    exact .inr (by omega)

/-- **An element that is seen but has no pixel is lost**: its start in tile twips is that of the next
element with a pixel, or of no element at all. -/
theorem Shows.getPrintTwipsPosFromTile_ne {i : Int} (hi : 0 ≤ i) (him : i ≤ g.last)
    (hsize : 0 < g.visibleAt i) (hpx : g.pixelsAt d.twipsPerCorePixel i = 0) :
    d.getPrintTwipsPosFromTile (g.startOf d.twipsPerCorePixel .tiletwips i) ≠
      some (g.startOf d.twipsPerCorePixel .printtwips i : ℚ) := by
  have hzero : ∀ l, ¬ 0 < g.pixelsAt d.twipsPerCorePixel l → g.pixelsAt d.twipsPerCorePixel l = 0 :=
    fun l hl => le_antisymm (not_lt.mp hl) (g.pixelsAt_nonneg (lt_of_lt_of_le one_pos hT) l)
  by_cases hex : ∃ j, i ≤ j ∧ j ≤ g.last ∧ 0 < g.pixelsAt d.twipsPerCorePixel j
  · obtain ⟨j, ⟨hij, hjm, hj⟩, hleast⟩ := Int.exists_least_of_bdd ⟨i, fun z hz => hz.1⟩ hex
    have hne : i ≠ j := by
      rintro rfl
      omega
    refine h.getPrintTwipsPosFromTile_ne_of_next hT hi (by omega) hjm hsize
      (fun l hl hlj => hzero l fun hlpx => ?_) hj
    have := hleast l ⟨hl, by omega, hlpx⟩
    omega
  · rw [h.getPrintTwipsPosFromTile_eq_none_of_last hT hi him fun l hl hlm =>
      hzero l fun hlpx => hex ⟨l, hl, hlm, hlpx⟩]
    simp

end Conversions

/-! ## The exact condition -/

/-- What is asked of a position, of the element it led to. -/
theorem Found.lookups {g : Geometry} {d : SheetDimension} (h : Shows g d) {i : Int} {p : ℚ}
    {unit : GeometryUnit} (hfound : Found d i (d.elementAt p unit)) :
    d.getIndexFromPos p unit = some i ∧
      d.getSnapPos p unit = some (g.startOf d.twipsPerCorePixel unit i) := by
  refine ⟨hfound.index, ?_⟩
  rw [SheetDimension.getSnapPos, hfound.elementData h]
  rfl

section Exact

variable {g : Geometry} {d : SheetDimension} (h : Shows g d) (hT : 1 ≤ d.twipsPerCorePixel)

include h hT

theorem Shows.lookupsInverse (ha : d.Aligned) : LookupsInverse g d := by
  have hpos : (0 : ℚ) < d.twipsPerCorePixel := lt_of_lt_of_le one_pos hT
  intro unit i hi him hsize
  obtain ⟨k, v, hk, hstart, hend, hlaid, -⟩ := h.exists_span hi him
  have hmem := List.mem_of_getElem? hk
  have hspan : v.span ∈ d.visibleSizes := by
    have := @getElem?_views 0 d.visibleSizes k
    rw [hk, Option.map_some] at this
    exact List.mem_of_getElem? this.symm
  -- of any size, the element is seen
  have hvisible : 0 < g.visibleAt i := by
    refine lt_of_le_of_ne (g.visibleAt_nonneg i) fun hzero => ?_
    cases unit <;> simp [Geometry.sizeOf, Geometry.pixelsAt, ← hzero] at hsize
  have hc : 0 < v.span.sizecore := by
    have hvalue := hlaid.value i hstart hend
    have hle := (ha.visible v.span hspan).resolve_left (by omega)
    rw [hlaid.sizecore]
    exact Int.floor_pos.mpr ((one_le_div hpos).mpr hle)
  have hpixels : 0 < g.pixelsAt d.twipsPerCorePixel i := hlaid.pixelsAt_eq hstart hend ▸ hc
  have hstep := g.startOf_tiletwips_lt hpos hT hi hpixels
  have htile := fun q => @Shows.found_tiletwips g d h hT k v hk hc (ha.start v hmem hc)
    (ha.even v hmem hc) i hstart hend q
  refine ⟨fun p hle hlt => ?_, ?_⟩
  · apply Found.lookups h
    cases unit with
    | corepixels => exact h.found_corepixels hT hk hc (ha.seam v hmem hc) hstart hend hle hlt
    | tiletwips => exact htile p hle hlt
    | printtwips => exact h.found_printtwips hi him hvisible hle hlt
  · rw [h.getTileTwipsPosFromPrint_eq hi him hvisible, Option.bind_some,
      (htile _ (Int.le_refl _) hstep).getPrintTwipsPosFromTile_eq h, sub_self, add_zero]

theorem Shows.aligned (hl : LookupsInverse g d) : d.Aligned := by
  have hpos : (0 : ℚ) < d.twipsPerCorePixel := lt_of_lt_of_le one_pos hT
  have hrange : ∀ v ∈ views 0 d.visibleSizes, ∀ i, v.start ≤ i → i ≤ v.span.index →
      0 ≤ i ∧ i ≤ g.last := fun v hv i hstart hend =>
    ⟨(h.laid v hv).start_nonneg.trans hstart, hend.trans (index_le_of_mem_views h.ends v hv)⟩
  have hright : ∀ v ∈ views 0 d.visibleSizes, 0 < v.span.sizecore →
      Int.fract (v.startpx * d.twipsPerCorePixel) = 0 ∧
        (v.count = 1 ∨ v.count * Int.fract (v.span.sizecore * d.twipsPerCorePixel) < 1) := by
    intro v hv hc
    obtain ⟨k, hk⟩ := List.mem_iff_getElem?.mp hv
    refine h.right_of_tiletwips hT hk hc fun i hstart hend => ?_
    obtain ⟨hi, him⟩ := hrange v hv i hstart hend
    have hpixels := (h.laid v hv).pixelsAt_eq hstart hend
    have hsize : 0 < g.sizeOf d.twipsPerCorePixel .tiletwips i := by
      rw [Geometry.sizeOf, hpixels]
      exact Int.floor_pos.mpr (Laid.one_le_sizecore_mul hT hc)
    exact ((hl .tiletwips i hi him hsize).1 _ (Int.le_refl _)
      (g.startOf_tiletwips_lt hpos hT hi (hpixels ▸ hc))).1
  refine ⟨fun s hs => ?_, fun v hv hc => (hright v hv hc).1, fun v hv hc => (hright v hv hc).2,
    fun v hv hc => ?_⟩
  · obtain ⟨k, hk⟩ := List.mem_iff_getElem?.mp hs
    obtain ⟨v, hkv, rfl⟩ := Option.map_eq_some_iff.mp ((@getElem?_views 0 d.visibleSizes k).trans hk)
    have hv := List.mem_of_getElem? hkv
    have hlaid := h.laid v hv
    obtain ⟨hi, him⟩ := hrange v hv v.start (Int.le_refl _) hlaid.start_le
    have hvalue := hlaid.value v.start (Int.le_refl _) hlaid.start_le
    have hnonneg := g.visibleAt_nonneg v.start
    by_contra hnot
    rw [not_or, not_le] at hnot
    have hvisible : 0 < g.visibleAt v.start := by omega
    have hvalue' : (0 : ℚ) ≤ v.span.value := by exact_mod_cast hvalue ▸ hnonneg
    have hpixels : g.pixelsAt d.twipsPerCorePixel v.start = 0 := by
      rw [Geometry.pixelsAt, hvalue, Int.floor_eq_zero_iff]
      exact ⟨by positivity, (div_lt_one hpos).mpr hnot.2⟩
    have hconv := (hl .printtwips v.start hi him hvisible).2
    rw [h.getTileTwipsPosFromPrint_eq hi him hvisible, Option.bind_some] at hconv
    exact h.getPrintTwipsPosFromTile_ne hT hi him hvisible hpixels hconv
  · obtain ⟨k, hk⟩ := List.mem_iff_getElem?.mp hv
    have hlaid := h.laid v hv
    have hlt := (List.getElem?_eq_some_iff.mp hk).1
    rw [length_views] at hlt
    rw [h.getLast?_iff hk, or_iff_not_imp_left, or_iff_not_imp_left]
    intro hne hseam
    obtain ⟨hi, him⟩ := hrange v hv v.span.index hlaid.start_le (Int.le_refl _)
    have hpixels := hlaid.pixelsAt_eq hlaid.start_le (Int.le_refl _)
    have hend : v.span.poscorepx = sumBefore (g.pixelsAt d.twipsPerCorePixel) (v.span.index + 1) :=
      hlaid.poscorepx
    have hsucc := sumBefore_succ (g.pixelsAt d.twipsPerCorePixel) hi
    have hnonneg := sumBefore_mono (g.pixelsAt_nonneg hpos) hi
    rw [sumBefore_zero] at hnonneg
    -- the last pixel of the span leads to the last element of all
    have hsize : 0 < g.sizeOf d.twipsPerCorePixel .corepixels v.span.index := by
      rw [Geometry.sizeOf, hpixels]
      exact hc
    have hlookup := ((hl .corepixels v.span.index hi him hsize).1 (v.span.poscorepx - 1)
      (by change sumBefore _ _ ≤ _; omega) (by change _ < sumBefore _ _; omega)).1
    have hq : (0 : ℚ) ≤ (v.span.poscorepx - 1 : Int) * d.twipsPerCorePixel := by
      have hp : (0 : ℚ) ≤ (v.span.poscorepx - 1 : Int) := by
        exact_mod_cast (by omega : 0 ≤ v.span.poscorepx - 1)
      positivity
    rw [SheetDimension.getIndexFromPos, SheetDimension.elementAt,
      h.lastPixel_eq hT hk hc (by omega) (not_le.mp hseam), SheetDimension.limit, if_pos hq] at hlookup
    exact (Option.some.inj hlookup).symm

end Exact

/-- **Lookups are inverse at the zooms where nothing is lost by rounding**, and at no others: of every
well formed message, at every zoom of at least one twip to a pixel that is set later on. -/
theorem lookupsInverse_iff_aligned (g : Geometry)
    (tileSizeTwips₀ tileSizePixels₀ tileSizeTwips tileSizePixels : ℚ) (maxIndex : Int)
    (hzoom : 1 ≤ tileSizeTwips / tileSizePixels) :
    ∃ d₀, SheetDimension.ofMessage tileSizeTwips₀ tileSizePixels₀ maxIndex (encodeSpans g.sizes)
        (encodeBits g.hidden) (encodeBits g.filtered) = some d₀ ∧
      (LookupsInverse g (d₀.setTileGeometryData tileSizeTwips tileSizePixels) ↔
        (d₀.setTileGeometryData tileSizeTwips tileSizePixels).Aligned) := by
  obtain ⟨d₀, hload, hshows, -⟩ :=
    exists_shows g tileSizeTwips₀ tileSizePixels₀ tileSizeTwips tileSizePixels maxIndex
  obtain ⟨htw, hpx, -⟩ := d₀.setTileGeometryData_zoom tileSizeTwips tileSizePixels
  have hT : 1 ≤ (d₀.setTileGeometryData tileSizeTwips tileSizePixels).twipsPerCorePixel := by
    rw [SheetDimension.twipsPerCorePixel, htw, hpx]
    exact hzoom
  exact ⟨d₀, hload, hshows.aligned hT, hshows.lookupsInverse hT⟩

theorem lookupsInverse_hundredRows :
    (1 : ℚ) ≤ 3840 / 256 ∧
      ∃ d₀, SheetDimension.ofMessage 3840 256 99 (encodeSpans hundredRows.sizes)
          (encodeBits hundredRows.hidden) (encodeBits hundredRows.filtered) = some d₀ ∧
        (LookupsInverse hundredRows (d₀.setTileGeometryData 3840 256) ↔
          (d₀.setTileGeometryData 3840 256).Aligned) :=
  ⟨by norm_num, lookupsInverse_iff_aligned hundredRows 3840 256 3840 256 99 (by norm_num)⟩

/-- A row, and higher ones behind it. -/
def higherRows : Geometry where
  sizes := [⟨0, 256⟩, ⟨99, 512⟩]
  hidden := ⟨false, [99]⟩
  filtered := ⟨false, [99]⟩
  last := 99
  nonneg := by decide
  sizes_ends := .cons (by decide) (by decide) (.last (by decide))
  hidden_ends := .last (by decide)
  filtered_ends := .last (by decide)

/-- Two steps of the zoom in, the second row starts at 250 tile twips and a part of one: counted from
there the position 250 is in the row before, of which the span that was found has nothing. -/
theorem not_lookupsInverse :
    ¬ ∀ (g : Geometry) (tileSizeTwips₀ tileSizePixels₀ tileSizeTwips tileSizePixels : ℚ)
      (maxIndex : Int), 1 ≤ tileSizeTwips / tileSizePixels →
      ∃ d₀, SheetDimension.ofMessage tileSizeTwips₀ tileSizePixels₀ maxIndex (encodeSpans g.sizes)
          (encodeBits g.hidden) (encodeBits g.filtered) = some d₀ ∧
        LookupsInverse g (d₀.setTileGeometryData tileSizeTwips tileSizePixels) := by
  intro hall
  obtain ⟨d₀, hload, hinverse⟩ := hall higherRows 3840 256 2667 256 99 (by norm_num)
  have hsnap : (SheetDimension.ofMessage 3840 256 99 (encodeSpans higherRows.sizes)
      (encodeBits higherRows.hidden) (encodeBits higherRows.filtered)).map
      (fun d₀ => ((d₀.setTileGeometryData 2667 256).getSnapPos 250 .tiletwips)) = some none := by
    decide +kernel
  have hT : (d₀.setTileGeometryData 2667 256).twipsPerCorePixel = 2667 / 256 := by
    obtain ⟨htw, hpx, -⟩ := d₀.setTileGeometryData_zoom 2667 256
    rw [SheetDimension.twipsPerCorePixel, htw, hpx]
  have hlookup := (hinverse .tiletwips 1 (by decide) (by decide) (by rw [hT]; decide +kernel)).1 250
    (by rw [hT]; decide +kernel) (by rw [hT]; decide +kernel)
  rw [hload, Option.map_some, Option.some.injEq] at hsnap
  have hcast : ((250 : Int) : ℚ) = 250 := rfl
  rw [hcast, hsnap] at hlookup
  cases hlookup.2

end Oxool.Sheet
