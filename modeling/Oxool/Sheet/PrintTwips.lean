import Oxool.Sheet.Lookup

/-!
# From print twips to tile twips at a zoom (`SheetDimension.getTileTwipsPosFromPrint`)

With a zoom the conversion walks the spans: it adds up their lengths in tile twips, each of them
rounded down, and an even share of the last one. At the current zoom it stands beside the conversion
that reads the position of the element off the span, where the pixels before the element are turned
into twips at once and rounded down once. What the walk loses span by span is `lost`.
-/

set_option autoImplicit false

namespace Oxool.Sheet

/-- The callback of `getTileTwipsPosFromPrint` with a zoom that is not 0, on `posTT` and `posPTInc`. -/
def addSpanTwips (posPT zoomScale : ℚ) (pos : ℚ × ℚ) (v : SpanView) : ℚ × ℚ :=
  let (posTT, posPTInc) := pos
  let count := v.span.index - v.start + 1
  let sizeSpanPT := v.span.value * count
  let sizeOneCorePx := ⌊(v.span.value : ℚ) * zoomScale / 15⌋
  let sizeSpanTT := ⌊(sizeOneCorePx : ℚ) * count * 15 / zoomScale⌋
  if posPT ≤ posPTInc then (posTT, posPTInc)
  else if posPTInc + sizeSpanPT < posPT then (posTT + sizeSpanTT, posPTInc + sizeSpanPT)
  else
    -- final span
    let remainingPT := posPT - posPTInc
    let elemCountFinalSpan := ⌊remainingPT / v.span.value⌋
    let extra := remainingPT - elemCountFinalSpan * v.span.value
    (posTT + (⌊(elemCountFinalSpan : ℚ) * sizeSpanTT / count⌋ + extra), posPT)

/-- `getTileTwipsPosFromPrint`, with a zoom. -/
def SheetDimension.getTileTwipsPosFromPrintAtZoom (d : SheetDimension) (posPT zoomScale : ℚ) : ℚ :=
  ((views 0 d.visibleSizes).foldl (addSpanTwips posPT zoomScale) (0, 0)).1

namespace SpanView

variable (v : SpanView)

/-- The number of elements of the span that come before the element `i`. -/
def before (i : Int) : Int := max 0 (min i (v.span.index + 1) - v.start)

/-- What the walk loses in the span, before the element `i`: an even share of the part of a twip that
is rounded off the length of the span. -/
def lost (T : ℚ) (i : Int) : ℚ := v.before i * Int.fract (v.span.sizecore * v.count * T) / v.count

variable {v} {i : Int}

theorem before_behind (h : i ≤ v.start) : v.before i = 0 := by
  rw [before]
  omega

theorem before_inside (hstart : v.start ≤ i) (hend : i ≤ v.span.index + 1) :
    v.before i = i - v.start := by
  rw [before]
  omega

theorem before_all (hle : v.start ≤ v.span.index) (h : v.span.index < i) : v.before i = v.count := by
  rw [before, count]
  omega

theorem lost_nonneg (hle : v.start ≤ v.span.index) (T : ℚ) (i : Int) : 0 ≤ v.lost T i := by
  have hbefore : (0 : ℚ) ≤ v.before i := by exact_mod_cast le_max_left _ _
  have hcount : (0 : ℚ) ≤ v.count := by exact_mod_cast (by rw [count]; omega : 0 ≤ v.count)
  have hfract := Int.fract_nonneg (v.span.sizecore * v.count * T)
  rw [lost]
  positivity

end SpanView

/-- What the walk loses in all spans, before the element `i`. -/
def lost (T : ℚ) (i : Int) (vs : List SpanView) : ℚ := (vs.map fun v => v.lost T i).sum

theorem lost_nonneg {vs : List SpanView} (hle : ∀ v ∈ vs, v.start ≤ v.span.index) (T : ℚ) (i : Int) :
    0 ≤ lost T i vs := by
  refine List.sum_nonneg fun x hx => ?_
  obtain ⟨v, hv, rfl⟩ := List.mem_map.mp hx
  exact SpanView.lost_nonneg (hle v hv) T i

theorem lost_behind {vs : List SpanView} {i : Int} (h : ∀ v ∈ vs, i ≤ v.start) (T : ℚ) :
    lost T i vs = 0 := by
  refine List.sum_eq_zero fun x hx => ?_
  obtain ⟨v, hv, rfl⟩ := List.mem_map.mp hx
  rw [SpanView.lost, SpanView.before_behind (h v hv)]
  simp

/-- A position that is behind has the same whole part, where no more is taken than its part of one. -/
theorem floor_sub_eq_iff {x l : ℚ} (hl : 0 ≤ l) : ⌊x - l⌋ = ⌊x⌋ ↔ l ≤ Int.fract x := by
  have hfloor := Int.self_sub_floor x
  have hfract := Int.fract_lt_one x
  rw [Int.floor_eq_iff]
  constructor
  · intro ⟨hle, _⟩
    linarith
  · intro hle
    exact ⟨by linarith, by linarith⟩

/-- A position is kept at its distance from a start that is moved. -/
theorem shifted_eq_iff {a b c e : Int} {pos : ℚ} :
    (c : ℚ) + (pos - e) = a + (pos - b) ↔ a - b = c - e := by
  constructor
  · intro heq
    have hmoved : ((a - b : Int) : ℚ) = (c - e : Int) := by
      push_cast
      linarith
    exact_mod_cast hmoved
  · intro hmoved
    have heq : (a : ℚ) - b = c - e := by exact_mod_cast hmoved
    linarith

/-! ## The walk -/

section Walk

variable {posPT zoomScale : ℚ}

/-- Where the position is reached, nothing more is added. -/
theorem foldl_addSpanTwips_done {vs : List SpanView} {posTT posPTInc : ℚ} (h : posPT ≤ posPTInc) :
    vs.foldl (addSpanTwips posPT zoomScale) (posTT, posPTInc) = (posTT, posPTInc) := by
  induction vs with
  | nil => rfl
  | cons v vs ih =>
    rw [List.foldl_cons, addSpanTwips]
    dsimp only
    rw [if_pos h]
    exact ih

variable {V : Int → Int} {T : ℚ} {m : Int} {v : SpanView}
  (hzoom : ∀ x : ℚ, x * zoomScale / 15 = x / T) (hlength : ∀ x : ℚ, x * 15 / zoomScale = x * T)

include hzoom hlength

/-- A span before the element is added as a whole. -/
theorem addSpanTwips_before (hlaid : Laid V T v) (posTT : ℚ) (hnonneg : 0 ≤ v.span.value)
    (hpos : (sumBefore V (v.span.index + 1) : ℚ) ≤ posPT) :
    addSpanTwips posPT zoomScale (posTT, (sumBefore V v.start : ℚ)) v =
      (posTT + ⌊(v.span.sizecore : ℚ) * v.count * T⌋, (sumBefore V (v.span.index + 1) : ℚ)) := by
  have hcount : (0 : ℚ) < v.count := by exact_mod_cast hlaid.count_pos
  have hend : (sumBefore V (v.span.index + 1) : ℚ) =
      sumBefore V v.start + v.span.value * v.count := by
    have hprint := hlaid.printtwips_eq (Int.le_refl _) (by have := hlaid.start_le; omega)
    rw [hlaid.posprinttwips] at hprint
    rw [SpanView.count]
    exact_mod_cast (by linarith : sumBefore V (v.span.index + 1) =
      sumBefore V v.start + v.span.value * (v.span.index - v.start + 1))
  rw [addSpanTwips]
  dsimp only
  rw [hlength, hzoom, ← hlaid.sizecore, ← SpanView.count]
  push_cast
  rw [← hend]
  rcases Int.lt_or_eq_of_le hnonneg with hvalue | hvalue
  · have hvalue' : (0 : ℚ) < v.span.value := by exact_mod_cast hvalue
    have hlen : (0 : ℚ) < v.span.value * v.count := mul_pos hvalue' hcount
    rw [if_neg (by linarith)]
    split
    · rfl
    · -- the position is the end of the span
      have heq : posPT = sumBefore V (v.span.index + 1) := by linarith
      have hcount' : (posPT - sumBefore V v.start) / v.span.value = (v.count : Int) := by
        rw [heq, hend]
        field_simp
        ring
      rw [hcount', Int.floor_intCast, mul_div_cancel_left₀ _ (ne_of_gt hcount), Int.floor_intCast]
      refine Prod.ext ?_ heq
      dsimp only
      linarith
  · -- a span of nothing
    have hsize : v.span.sizecore = 0 := by rw [hlaid.sizecore, ← hvalue]; simp
    rw [← hvalue, Int.cast_zero, zero_mul, add_zero] at hend
    rw [hsize, hend]
    split_ifs
    · simp
    · simp
    · exact absurd (not_lt.mp ‹_›) ‹_›

/-- The span of the element gives an even share of its length, and what is left behind the element. -/
theorem addSpanTwips_inside (hlaid : Laid V T v) {i : Int} (hstart : v.start ≤ i)
    (hend : i ≤ v.span.index) (hsize : 0 < V i) (hpos : (sumBefore V i : ℚ) ≤ posPT)
    (hnext : posPT < sumBefore V (i + 1)) (posTT : ℚ) :
    addSpanTwips posPT zoomScale (posTT, (sumBefore V v.start : ℚ)) v =
      (posTT + (⌊((i - v.start : Int) : ℚ) * ⌊(v.span.sizecore : ℚ) * v.count * T⌋ / v.count⌋ +
        (posPT - sumBefore V i)), posPT) := by
  have hvalue := hlaid.value i hstart hend
  have hvalue' : (0 : ℚ) < v.span.value := by exact_mod_cast hvalue ▸ hsize
  have hprint : ∀ j, v.start ≤ j → j ≤ v.span.index + 1 →
      (sumBefore V j : ℚ) = sumBefore V v.start + v.span.value * (j - v.start) := by
    intro j hj hje
    have hjp := hlaid.printtwips_eq hj hje
    have hsp := hlaid.printtwips_eq (Int.le_refl _) (by omega)
    exact_mod_cast (by linarith : sumBefore V j = sumBefore V v.start + v.span.value * (j - v.start))
  have hi := hprint i hstart (by omega)
  have hi1 := hprint (i + 1) (by omega) (by omega)
  have hcount : ((i + 1 : Int) : ℚ) - v.start ≤ v.count := by
    rw [SpanView.count]
    exact_mod_cast (by omega : i + 1 - v.start ≤ v.span.index - v.start + 1)
  rw [addSpanTwips]
  dsimp only
  rw [hlength, hzoom, ← hlaid.sizecore, ← SpanView.count]
  push_cast at hcount hi1 ⊢
  split_ifs with hdone hwhole
  · -- the position is the start of the span
    have hzero : v.span.value * ((i : ℚ) - v.start) = 0 := by
      have : (v.start : ℚ) ≤ i := by exact_mod_cast hstart
      have := mul_nonneg (le_of_lt hvalue') (sub_nonneg.mpr this)
      linarith
    have hfirst : (i : ℚ) - v.start = 0 := (mul_eq_zero.mp hzero).resolve_left (ne_of_gt hvalue')
    have heq : (sumBefore V v.start : ℚ) = posPT := by linarith
    rw [hfirst, hi, hzero, heq]
    simp
  · have := mul_le_mul_of_nonneg_left hcount (le_of_lt hvalue')
    linarith
  · have hquot : ⌊(posPT - sumBefore V v.start) / v.span.value⌋ = i - v.start := by
      rw [Int.floor_eq_iff, le_div_iff₀ hvalue', div_lt_iff₀ hvalue']
      push_cast
      constructor
      · linarith
      · linarith
    rw [hquot]
    refine Prod.ext ?_ rfl
    push_cast
    linarith

/-- **The walk**, from the element `lo` on, with what was lost on the way. -/
theorem foldl_addSpanTwips {spans : List Span} {lo i : Int}
    (hends : Ends m lo (spans.map Span.index)) (hlaid : ∀ v ∈ views lo spans, Laid V T v)
    (hnonneg : ∀ j, 0 ≤ V j) (hi : lo ≤ i) (him : i ≤ m) (hsize : 0 < V i)
    (hpos : (sumBefore V i : ℚ) ≤ posPT) (hnext : posPT < sumBefore V (i + 1)) (posTT : Int) (L : ℚ)
    (hTT : (posTT : ℚ) = sumBefore (fun j => ⌊(V j : ℚ) / T⌋) lo * T - L) :
    ((views lo spans).foldl (addSpanTwips posPT zoomScale) ((posTT : ℚ), (sumBefore V lo : ℚ))).1 =
      ⌊sumBefore (fun j => ⌊(V j : ℚ) / T⌋) i * T - (L + lost T i (views lo spans))⌋ +
        (posPT - sumBefore V i) := by
  induction spans generalizing lo posTT L with
  | nil => exact absurd rfl hends.ne_nil
  | cons s spans ih =>
    rw [views] at hlaid ⊢
    have hs := hlaid ⟨lo, s⟩ List.mem_cons_self
    have hle : lo ≤ s.index := hs.start_le
    have hcount : (0 : ℚ) < (SpanView.mk lo s).count := by exact_mod_cast hs.count_pos
    have hpx : ∀ n, lo ≤ n → n ≤ s.index + 1 → sumBefore (fun j => ⌊(V j : ℚ) / T⌋) n =
        sumBefore (fun j => ⌊(V j : ℚ) / T⌋) lo + s.sizecore * (n - lo) := by
      intro n hn hns
      have hstart := hs.corepx_eq (Int.le_refl lo) (by change lo ≤ s.index + 1; omega)
      have hpx := hs.corepx_eq hn hns
      dsimp only at hstart hpx
      linarith
    have hlost : lost T i (⟨lo, s⟩ :: views (s.index + 1) spans) =
        (SpanView.mk lo s).lost T i + lost T i (views (s.index + 1) spans) := by
      rw [lost, List.map_cons, List.sum_cons]
      rfl
    rw [List.foldl_cons, hlost]
    rcases lt_or_ge s.index i with hlt | hge
    · have hmono : (sumBefore V (s.index + 1) : ℚ) ≤ posPT :=
        le_trans (by exact_mod_cast sumBefore_mono hnonneg (by omega)) hpos
      have hstep := addSpanTwips_before hzoom hlength hs posTT
        (hs.value lo (Int.le_refl _) hle ▸ hnonneg lo) hmono
      dsimp only at hstep
      rw [hstep, ← Int.cast_add, ← add_assoc]
      refine ih (hends.tail (by omega)) (fun v hv => hlaid v (List.mem_cons_of_mem _ hv)) (by omega) _ _ ?_
      have hbefore := SpanView.before_all (v := ⟨lo, s⟩) hle hlt
      rw [SpanView.lost, hbefore, mul_div_cancel_left₀ _ (ne_of_gt hcount),
        hpx (s.index + 1) (by omega) (by omega)]
      have hfloor := Int.self_sub_fract ((s.sizecore : ℚ) * (SpanView.mk lo s).count * T)
      have hcnt : (SpanView.mk lo s).count = s.index + 1 - lo := by
        rw [SpanView.count]
        dsimp only
        omega
      push_cast
      rw [← hfloor, hTT, hcnt]
      push_cast
      ring
    · have hbehind : ∀ v ∈ views (s.index + 1) spans, i ≤ v.start := by
        intro v hv
        have hlt : s.index < v.start := List.rel_of_pairwise_cons (pairwise_views hends) hv
        omega
      have hstep := addSpanTwips_inside hzoom hlength hs hi hge hsize hpos hnext posTT
      dsimp only at hstep
      have hfloor := Int.self_sub_fract ((s.sizecore : ℚ) * (SpanView.mk lo s).count * T)
      have hsum : (sumBefore (fun j => ⌊(V j : ℚ) / T⌋) i : ℚ) * T - (L + (SpanView.mk lo s).lost T i) =
          (posTT : ℚ) + ((i - lo : Int) : ℚ) *
            ⌊(s.sizecore : ℚ) * (SpanView.mk lo s).count * T⌋ / (SpanView.mk lo s).count := by
        rw [SpanView.lost, SpanView.before_inside (v := ⟨lo, s⟩) hi (by change i ≤ s.index + 1; omega),
          hpx i hi (by omega), ← hfloor, hTT]
        dsimp only
        push_cast
        field_simp
        ring
      rw [hstep, foldl_addSpanTwips_done le_rfl, lost_behind hbehind, add_zero, hsum,
        Int.floor_intCast_add]
      push_cast
      ring

end Walk

/-! ## The two conversions -/

/-- A position in print twips is in an element that has a size. -/
theorem exists_element_of_lt {f : Int → Int} {q : ℚ} (hq : 0 ≤ q) {n : Int}
    (hlt : q < sumBefore f n) :
    ∃ i, 0 ≤ i ∧ i < n ∧ (sumBefore f i : ℚ) ≤ q ∧ q < sumBefore f (i + 1) := by
  rcases lt_or_ge n 0 with hneg | hn
  · rw [sumBefore, Int.toNat_of_nonpos (by omega)] at hlt
    exact absurd hlt (by simpa using hq)
  · obtain ⟨n, rfl⟩ := Int.eq_ofNat_of_zero_le hn
    clear hn
    induction n with
    | zero => exact absurd hlt (by simpa [sumBefore] using hq)
    | succ n ih =>
      rcases lt_or_ge q (sumBefore f n) with hbefore | hlast
      · obtain ⟨i, hi, hin, hle, hlt⟩ := ih hbefore
        exact ⟨i, hi, by omega, hle, hlt⟩
      · exact ⟨n, by omega, by omega, hlast, hlt⟩

/-- The search leads to no span: less than a twip is left of a span that another one follows. -/
def Geometry.Unfound (g : Geometry) (v : SpanView) (pos : ℚ) : Prop :=
  v.span.index < g.last ∧ (v.span.posprinttwips - 1 : ℚ) < pos

/-- **The walk loses no more than rounding once does**: the parts of a twip that it rounds off, span by
span, are together no more than the part that the start of the element has. Where no span is found the
cached conversion takes the element `maxIndex`, which has to be moved by as much. -/
structure RoundsAlike (g : Geometry) (d : SheetDimension) (v : SpanView) (i : Int) (pos : ℚ) :
    Prop where
  found : ¬ g.Unfound v pos → lost d.twipsPerCorePixel i (views 0 d.visibleSizes) ≤
    Int.fract (g.startOf d.twipsPerCorePixel .corepixels i * d.twipsPerCorePixel)
  unfound : g.Unfound v pos → 0 ≤ d.maxIndex ∧ d.maxIndex ≤ g.last ∧
    g.startOf d.twipsPerCorePixel .tiletwips d.maxIndex -
        g.startOf d.twipsPerCorePixel .printtwips d.maxIndex =
      ⌊g.startOf d.twipsPerCorePixel .corepixels i * d.twipsPerCorePixel -
          lost d.twipsPerCorePixel i (views 0 d.visibleSizes)⌋ -
        g.startOf d.twipsPerCorePixel .printtwips i

section Conversion

variable {g : Geometry} {d : SheetDimension} (h : Shows g d)

include h

/-- Other spans follow the ones that do not end with the last element. -/
theorem Shows.next_iff {k : Nat} {v : SpanView} (hk : (views 0 d.visibleSizes)[k]? = some v) :
    k + 1 < d.visibleSizes.length ↔ v.span.index < g.last := by
  have hle := index_le_of_mem_views h.ends
  have hlt := (List.getElem?_eq_some_iff.mp hk).1
  rw [length_views] at hlt
  constructor
  · intro hnext
    obtain ⟨w, hw⟩ : ∃ w, (views 0 d.visibleSizes)[k + 1]? = some w :=
      ⟨_, List.getElem?_eq_getElem (by rw [length_views]; exact hnext)⟩
    have hstart := start_next hk hw
    have hwle := h.start_le w (List.mem_of_getElem? hw)
    have hwlast := hle w (List.mem_of_getElem? hw)
    omega
  · intro hbefore
    by_contra hlast
    have hlast' := h.ends.getLast?
    have hspan := @getElem?_views 0 d.visibleSizes k
    rw [hk, Option.map_some] at hspan
    rw [List.getLast?_map, List.getLast?_eq_getElem?, show d.visibleSizes.length - 1 = k by omega,
      ← hspan, Option.map_some, Option.some.injEq] at hlast'
    omega

/-- The cached conversion, where the position led to an element. -/
theorem Found.getTileTwipsPosFromPrint_eq {i : Int} {pos : ℚ}
    (hfound : Found d i (d.getSpanAndIndexFromPrintTwipsPos pos)) :
    d.getTileTwipsPosFromPrint pos = some (g.startOf d.twipsPerCorePixel .tiletwips i +
      (pos - g.startOf d.twipsPerCorePixel .printtwips i)) := by
  rw [SheetDimension.getTileTwipsPosFromPrint]
  rw [hfound.elementData h, hfound.elementData h]
  rfl

/-- The cached conversion, where no span was found. -/
theorem Shows.getTileTwipsPosFromPrint_limit {pos : ℚ} (hpos : 0 ≤ pos)
    (hlimit : d.getSpanAndIndexFromPrintTwipsPos pos = d.limit pos) (r : ℚ) :
    d.getTileTwipsPosFromPrint pos = some r ↔ 0 ≤ d.maxIndex ∧ d.maxIndex ≤ g.last ∧
      r = g.startOf d.twipsPerCorePixel .tiletwips d.maxIndex +
        (pos - g.startOf d.twipsPerCorePixel .printtwips d.maxIndex) := by
  by_cases hmax : 0 ≤ d.maxIndex ∧ d.maxIndex ≤ g.last
  · obtain ⟨k, v, hk, hstart, hend, -, hget⟩ := h.exists_span hmax.1 hmax.2
    have hfound : Found d d.maxIndex (d.getSpanAndIndexFromPrintTwipsPos pos) := by
      rw [hlimit, SheetDimension.limit, if_pos hpos]
      exact ⟨rfl, v, List.mem_of_getElem? hk, hstart, hend, hget⟩
    rw [hfound.getTileTwipsPosFromPrint_eq h, Option.some.injEq]
    exact ⟨fun heq => ⟨hmax.1, hmax.2, heq.symm⟩, fun heq => heq.2.2.symm⟩
  · refine iff_of_false ?_ fun hr => hmax ⟨hr.1, hr.2.1⟩
    have hnone : ∀ unit, d.elementData (d.limit pos) unit = none := by
      intro unit
      rw [SheetDimension.limit, if_pos hpos, SheetDimension.elementData]
      cases hget : getSpanDataByIndex d.visibleSizes d.maxIndex with
      | none => rfl
      | some v =>
        obtain ⟨id, -, hid⟩ := Option.bind_eq_some_iff.mp hget
        have hv := List.mem_of_getElem? hid
        have hstart := (h.laid v hv).start_nonneg
        have hend := index_le_of_mem_views h.ends v hv
        have hout : d.maxIndex < v.start ∨ v.span.index < d.maxIndex := by omega
        simp [SheetDimension.getElementDataAnyFromSpanByIndex, hout]
    rw [SheetDimension.getTileTwipsPosFromPrint, hlimit, hnone]
    simp

variable (htwips : 0 < d.tileSizeTwips) (hpixels : 0 < d.tileSizePixels)

include htwips hpixels

/-- The walk at the current zoom. -/
theorem Shows.getTileTwipsPosFromPrintAtZoom_eq {i : Int} (hi : 0 ≤ i) (him : i ≤ g.last)
    (hsize : 0 < g.visibleAt i) {pos : ℚ}
    (hpos : (g.startOf d.twipsPerCorePixel .printtwips i : ℚ) ≤ pos)
    (hnext : pos < g.startOf d.twipsPerCorePixel .printtwips (i + 1)) :
    d.getTileTwipsPosFromPrintAtZoom pos d.coreZoomFactor =
      ⌊g.startOf d.twipsPerCorePixel .corepixels i * d.twipsPerCorePixel -
          lost d.twipsPerCorePixel i (views 0 d.visibleSizes)⌋ +
        (pos - g.startOf d.twipsPerCorePixel .printtwips i) := by
  have hzoom := d.mul_coreZoomFactor htwips hpixels
  have hlength : ∀ x : ℚ, x * 15 / d.coreZoomFactor = x * d.twipsPerCorePixel := by
    intro x
    rw [SheetDimension.coreZoomFactor, SheetDimension.twipsPerCorePixel]
    field_simp
  have hwalk := foldl_addSpanTwips hzoom hlength h.ends h.laid g.visibleAt_nonneg hi him hsize hpos
    hnext 0 0 (by simp [sumBefore_zero])
  rw [zero_add] at hwalk
  exact hwalk

/-- **The conversions agree** at a position of an element exactly where they round alike. -/
theorem Shows.conversions_agree_iff {k : Nat} {v : SpanView}
    (hk : (views 0 d.visibleSizes)[k]? = some v) {i : Int} (hstart : v.start ≤ i)
    (hend : i ≤ v.span.index) {pos : ℚ}
    (hpos : (g.startOf d.twipsPerCorePixel .printtwips i : ℚ) ≤ pos)
    (hnext : pos < g.startOf d.twipsPerCorePixel .printtwips (i + 1)) :
    d.getTileTwipsPosFromPrint pos = some (d.getTileTwipsPosFromPrintAtZoom pos d.coreZoomFactor) ↔
      RoundsAlike g d v i pos := by
  have hv := List.mem_of_getElem? hk
  have hlaid := h.laid v hv
  have hi : 0 ≤ i := le_trans hlaid.start_nonneg hstart
  have him : i ≤ g.last := le_trans hend (index_le_of_mem_views h.ends v hv)
  have hmono := fun {a b : Int} (hab : a ≤ b) => sumBefore_mono g.visibleAt_nonneg hab
  have hsize : 0 < g.visibleAt i := by
    have hlt : g.startOf d.twipsPerCorePixel .printtwips i <
        g.startOf d.twipsPerCorePixel .printtwips (i + 1) := by
      exact_mod_cast lt_of_le_of_lt hpos hnext
    rw [Geometry.startOf, Geometry.startOf, sumBefore_succ _ hi] at hlt
    omega
  have hprint : ∀ w ∈ views 0 d.visibleSizes,
      w.span.posprinttwips = sumBefore g.visibleAt (w.span.index + 1) :=
    fun w hw => (h.laid w hw).posprinttwips
  have hlow : (sumBefore g.visibleAt v.start : ℚ) ≤ pos :=
    le_trans (by exact_mod_cast hmono hstart) hpos
  have hhigh : pos < sumBefore g.visibleAt (v.span.index + 1) :=
    lt_of_lt_of_le hnext (by exact_mod_cast hmono (by omega))
  rw [h.getTileTwipsPosFromPrintAtZoom_eq htwips hpixels hi him hsize hpos hnext]
  by_cases hgap : g.Unfound v pos
  · have hbehind : (sumBefore g.visibleAt (v.span.index + 1) - 1 : ℚ) < pos := by
      rw [← hprint v hv]
      exact hgap.2
    have hnone := search_eq_none h.ends hprint (sumBefore_zero _) h.start_le (fun a b => hmono) hk
      ((h.next_iff hk).mpr hgap.1) hlow hbehind hhigh
    have hnonneg : 0 ≤ pos := by
      refine le_trans ?_ hlow
      exact_mod_cast sumBefore_zero g.visibleAt ▸ hmono hlaid.start_nonneg
    rw [h.getTileTwipsPosFromPrint_limit hnonneg (by
      rw [SheetDimension.getSpanAndIndexFromPrintTwipsPos, hnone])]
    rw [shifted_eq_iff]
    exact ⟨fun hmoved => ⟨fun hfound => absurd hgap hfound, fun _ => hmoved⟩,
      fun halike => halike.unfound hgap⟩
  · have hsearch := search_eq_some h.ends hprint (sumBefore_zero _) h.start_le (fun a b => hmono) hk
      hlow (by
        rw [Geometry.Unfound, hprint v hv, not_and_or, not_lt, not_lt] at hgap
        rcases hgap with hlast | hle
        · refine .inr ⟨?_, le_of_lt hhigh⟩
          have hlt := (List.getElem?_eq_some_iff.mp hk).1
          rw [length_views] at hlt
          have hnot := mt (h.next_iff hk).mp (not_lt.mpr hlast)
          omega
        · exact .inl hle)
    have hfound := h.found_of_search hv hstart hend hsize hpos hnext hsearch
    rw [hfound.getTileTwipsPosFromPrint_eq h, Option.some.injEq, add_left_inj, Int.cast_inj, eq_comm]
    refine Iff.trans (floor_sub_eq_iff (lost_nonneg h.start_le _ _)) ?_
    exact ⟨fun hle => ⟨fun _ => hle, fun hunfound => absurd hunfound hgap⟩, fun halike => halike.found hgap⟩

end Conversion

/-- **The conversions with and without the zoom agree** at the positions where the walk loses no more
than rounding once does, and at no others: of every well formed message, at every zoom set later on. -/
theorem getTileTwipsPosFromPrint_eq_atZoom_iff (g : Geometry)
    (tileSizeTwips₀ tileSizePixels₀ tileSizeTwips tileSizePixels : ℚ) (maxIndex : Int)
    (htwips : 0 < tileSizeTwips) (hpixels : 0 < tileSizePixels) :
    ∃ d₀, SheetDimension.ofMessage tileSizeTwips₀ tileSizePixels₀ maxIndex (encodeSpans g.sizes)
        (encodeBits g.hidden) (encodeBits g.filtered) = some d₀ ∧
      let d := d₀.setTileGeometryData tileSizeTwips tileSizePixels
      ∀ pos : ℚ, 0 ≤ pos →
        pos < g.startOf (tileSizeTwips / tileSizePixels) .printtwips (g.last + 1) →
        ∃ v ∈ views 0 d.visibleSizes, ∃ i, v.start ≤ i ∧ i ≤ v.span.index ∧
          (g.startOf (tileSizeTwips / tileSizePixels) .printtwips i : ℚ) ≤ pos ∧
          pos < g.startOf (tileSizeTwips / tileSizePixels) .printtwips (i + 1) ∧
          (d.getTileTwipsPosFromPrint pos =
            some (d.getTileTwipsPosFromPrintAtZoom pos d.coreZoomFactor) ↔ RoundsAlike g d v i pos) := by
  obtain ⟨d₀, hload, hshows, -⟩ :=
    exists_shows g tileSizeTwips₀ tileSizePixels₀ tileSizeTwips tileSizePixels maxIndex
  obtain ⟨htw, hpx, -⟩ := d₀.setTileGeometryData_zoom tileSizeTwips tileSizePixels
  refine ⟨d₀, hload, fun pos hpos hlt => ?_⟩
  obtain ⟨i, hi, hilast, hle, hnext⟩ := exists_element_of_lt hpos hlt
  obtain ⟨k, v, hk, hstart, hend, -, -⟩ := hshows.exists_span hi (by omega)
  exact ⟨v, List.mem_of_getElem? hk, i, hstart, hend, hle, hnext,
    hshows.conversions_agree_iff (by rw [htw]; exact htwips) (by rw [hpx]; exact hpixels) hk hstart hend
      hle hnext⟩

theorem getTileTwipsPosFromPrint_hundredRows :
    (0 : ℚ) < 3840 ∧ (0 : ℚ) < 256 ∧
      ∃ d₀, SheetDimension.ofMessage 3840 256 99 (encodeSpans hundredRows.sizes)
          (encodeBits hundredRows.hidden) (encodeBits hundredRows.filtered) = some d₀ ∧
        let d := d₀.setTileGeometryData 3840 256
        ∀ pos : ℚ, 0 ≤ pos → pos < hundredRows.startOf (3840 / 256) .printtwips (hundredRows.last + 1) →
          ∃ v ∈ views 0 d.visibleSizes, ∃ i, v.start ≤ i ∧ i ≤ v.span.index ∧
            (hundredRows.startOf (3840 / 256) .printtwips i : ℚ) ≤ pos ∧
            pos < hundredRows.startOf (3840 / 256) .printtwips (i + 1) ∧
            (d.getTileTwipsPosFromPrint pos =
              some (d.getTileTwipsPosFromPrintAtZoom pos d.coreZoomFactor) ↔
                RoundsAlike hundredRows d v i pos) :=
  ⟨by norm_num, by norm_num,
    getTileTwipsPosFromPrint_eq_atZoom_iff hundredRows 3840 256 3840 256 99 (by norm_num) (by norm_num)⟩

/-- Two steps of the zoom in, the row 22 starts at 10970 tile twips and a part of one. The walk has lost
more than that part by then. -/
theorem not_getTileTwipsPosFromPrint_eq_atZoom :
    ¬ ∀ (g : Geometry) (tileSizeTwips₀ tileSizePixels₀ tileSizeTwips tileSizePixels : ℚ)
      (maxIndex : Int), 0 < tileSizeTwips → 0 < tileSizePixels →
      ∃ d₀, SheetDimension.ofMessage tileSizeTwips₀ tileSizePixels₀ maxIndex (encodeSpans g.sizes)
          (encodeBits g.hidden) (encodeBits g.filtered) = some d₀ ∧
        let d := d₀.setTileGeometryData tileSizeTwips tileSizePixels
        ∀ pos : ℚ, 0 ≤ pos →
          pos < g.startOf (tileSizeTwips / tileSizePixels) .printtwips (g.last + 1) →
          d.getTileTwipsPosFromPrint pos =
            some (d.getTileTwipsPosFromPrintAtZoom pos d.coreZoomFactor) := by
  intro hall
  obtain ⟨d₀, hload, hagree⟩ := hall higherRows 3840 256 2667 256 99 (by norm_num) (by norm_num)
  have hvalues : (SheetDimension.ofMessage 3840 256 99 (encodeSpans higherRows.sizes)
      (encodeBits higherRows.hidden) (encodeBits higherRows.filtered)).map (fun d₀ =>
        let d := d₀.setTileGeometryData 2667 256
        (d.getTileTwipsPosFromPrint 11008, d.getTileTwipsPosFromPrintAtZoom 11008 d.coreZoomFactor)) =
      some (some 10970, 10969) := by
    decide +kernel
  rw [hload, Option.map_some, Option.some.injEq, Prod.mk.injEq] at hvalues
  have heq := hagree 11008 (by norm_num) (by decide +kernel)
  rw [hvalues.1, hvalues.2, Option.some.injEq] at heq
  norm_num at heq

end Oxool.Sheet
