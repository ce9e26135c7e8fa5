import Oxool.Sheet.Lookup

/-!
# Pixels at another zoom (`SheetDimension.getCorePixelsAtZoom` and `getCorePixelsFromZoom`)

Both walk all spans with the pixels that are not converted yet, take off the elements that fit, and
scale what is left at the end. The walk does not stop where it is done: what is left behind the start
of an element is offered to each span that comes later, and one with smaller elements takes from it.
-/

set_option autoImplicit false

namespace Oxool.Sheet

/-- The pixels of an element of the span, at a zoom. -/
def SpanView.sizeAtZoom (zoomScale : ℚ) (v : SpanView) : Int := ⌊(v.span.value : ℚ) / 15 * zoomScale⌋

def SpanView.sizecore (v : SpanView) : Int := v.span.sizecore

/-- The callback of both functions, on the position that is converted and on what is not converted yet:
`sizeOne` is the size of an element of the span in the pixels that are given, `sizeOneTo` the one in the
pixels that are asked for. -/
def convertSpan (sizeOne sizeOneTo : SpanView → Int) (pos : Int × ℚ) (v : SpanView) : Int × ℚ :=
  let (posTo, posRem) := pos
  let elementCount := v.span.index - v.start + 1
  if posRem < sizeOne v then (posTo, posRem)
  else if (sizeOne v * elementCount : Int) ≤ posRem then
    -- Whole span can be converted.
    (posTo + sizeOneTo v * elementCount, posRem - (sizeOne v * elementCount : Int))
  else
    -- Only part of the span can be converted.
    let elems := ⌊posRem / sizeOne v⌋
    (posTo + elems * sizeOneTo v, posRem - (elems * sizeOne v : Int))

namespace SheetDimension

variable (d : SheetDimension)

def getCorePixelsAtZoom (posCP zoomScale : ℚ) : ℚ :=
  let (posCPZ, posCPRem) := (views 0 d.visibleSizes).foldl
    (convertSpan SpanView.sizecore (SpanView.sizeAtZoom zoomScale)) (0, posCP)
  posCPZ + posCPRem * zoomScale / d.coreZoomFactor

def getCorePixelsFromZoom (posCPZ zoomScale : ℚ) : ℚ :=
  let (posCP, posCPZRem) := (views 0 d.visibleSizes).foldl
    (convertSpan (SpanView.sizeAtZoom zoomScale) SpanView.sizecore) (0, posCPZ)
  posCP + posCPZRem * d.coreZoomFactor / zoomScale

end SheetDimension

/-- The elements that the span takes from whole pixels that are left. -/
def SpanView.taken (sizeOne : SpanView → Int) (posRem : Int) (v : SpanView) : Int :=
  if sizeOne v = 0 then v.count else min v.count (posRem / sizeOne v)

/-- What spans add to the scaled position, when they take from the pixels that are left: for each
element that is taken its pixels at the other zoom, less its pixels as they would be scaled. -/
def gained (sizeOne sizeOneTo : SpanView → Int) (scale : ℚ) : List SpanView → Int → ℚ
  | [], _ => 0
  | v :: vs, posRem =>
    v.taken sizeOne posRem * (sizeOneTo v - sizeOne v * scale) +
      gained sizeOne sizeOneTo scale vs (posRem - v.taken sizeOne posRem * sizeOne v)

/-! ## The walk -/

section Walk

variable {sizeOne sizeOneTo : SpanView → Int} {v : SpanView}

/-- A span that fits is converted as a whole. -/
theorem convertSpan_whole (hsize : 0 ≤ sizeOne v) (hle : v.start ≤ v.span.index) {posTo : Int}
    {posRem : ℚ} (hfits : (sizeOne v * v.count : Int) ≤ posRem) :
    convertSpan sizeOne sizeOneTo (posTo, posRem) v =
      (posTo + sizeOneTo v * v.count, posRem - (sizeOne v * v.count : Int)) := by
  have hone : sizeOne v * 1 ≤ sizeOne v * v.count :=
    Int.mul_le_mul_of_nonneg_left (by rw [SpanView.count]; omega) hsize
  have hone' : (sizeOne v : ℚ) ≤ (sizeOne v * v.count : Int) := by exact_mod_cast (by omega)
  rw [convertSpan]
  dsimp only
  rw [← SpanView.count, if_neg (not_lt.mpr (hone'.trans hfits)), if_pos hfits]

/-- In the span that the position is in, all elements before it are converted. -/
theorem convertSpan_inside (hsize : 0 < sizeOne v) {m : Int} (hm : 0 ≤ m) (hmc : m < v.count) {r : ℚ}
    (hr : 0 ≤ r) (hrs : r < sizeOne v) (posTo : Int) :
    convertSpan sizeOne sizeOneTo (posTo, (m * sizeOne v : Int) + r) v =
      (posTo + m * sizeOneTo v, r) := by
  have hsize' : (0 : ℚ) < sizeOne v := by exact_mod_cast hsize
  have hmc' : (m + 1 : ℚ) ≤ v.count := by exact_mod_cast hmc
  have hm' : (0 : ℚ) ≤ m := by exact_mod_cast hm
  rw [convertSpan]
  dsimp only
  rw [← SpanView.count]
  push_cast
  split_ifs with hdone hwhole
  · -- the position is in the first element
    have hzero : m = 0 := by
      by_contra hne
      have hone : (1 : ℚ) ≤ m := by exact_mod_cast (by omega : 1 ≤ m)
      nlinarith
    rw [hzero]
    simp
  · nlinarith
  · have hquot : ⌊((m : ℚ) * sizeOne v + r) / sizeOne v⌋ = m := by
      rw [Int.floor_eq_iff, le_div_iff₀ hsize', div_lt_iff₀ hsize']
      constructor
      · linarith
      · linarith
    rw [hquot]
    refine Prod.ext rfl ?_
    dsimp only
    ring

/-- Between whole pixels a comparison with a whole one is that of the whole pixels. -/
theorem le_add_fract_iff {a m : Int} {f : ℚ} (hf : 0 ≤ f) (hf1 : f < 1) :
    (a : ℚ) ≤ m + f ↔ a ≤ m := by
  constructor
  · intro hle
    have hlt : (a : ℚ) < (m + 1 : Int) := by
      push_cast
      linarith
    have := Int.cast_lt.mp hlt
    omega
  · intro hle
    have : (a : ℚ) ≤ m := by exact_mod_cast hle
    linarith

theorem floor_add_fract_div {s m : Int} (hs : 0 < s) {f : ℚ} (hf : 0 ≤ f) (hf1 : f < 1) :
    ⌊((m : ℚ) + f) / s⌋ = m / s := by
  have hs' : (0 : ℚ) < s := by exact_mod_cast hs
  have hlow := Int.ediv_mul_le m (ne_of_gt hs)
  have hhigh := Int.lt_ediv_add_one_mul_self m hs
  have hlow' : ((m / s : Int) : ℚ) * s ≤ m := by exact_mod_cast hlow
  have hhigh' : (m : ℚ) + 1 ≤ ((m / s : Int) + 1) * s := by exact_mod_cast hhigh
  rw [Int.floor_eq_iff, le_div_iff₀ hs', div_lt_iff₀ hs']
  constructor
  · linarith
  · linarith

/-- What a span takes from what is left. -/
theorem convertSpan_left (hsize : 0 ≤ sizeOne v) (hle : v.start ≤ v.span.index) (posTo : Int)
    {m : Int} (hm : 0 ≤ m) {f : ℚ} (hf : 0 ≤ f) (hf1 : f < 1) :
    convertSpan sizeOne sizeOneTo (posTo, m + f) v =
      (posTo + v.taken sizeOne m * sizeOneTo v,
        (m - v.taken sizeOne m * sizeOne v : Int) + f) := by
  have hcount : 0 < v.count := by
    rw [SpanView.count]
    omega
  by_cases hwhole : sizeOne v * v.count ≤ m
  · have htaken : v.taken sizeOne m = v.count := by
      rw [SpanView.taken]
      split_ifs with hzero
      · rfl
      · refine min_eq_left ((Int.le_ediv_iff_mul_le (by omega)).mpr ?_)
        rw [mul_comm]
        exact hwhole
    rw [convertSpan_whole hsize hle ((le_add_fract_iff hf hf1).mpr hwhole), htaken]
    refine Prod.ext ?_ ?_
    · dsimp only
      ring
    · push_cast
      ring
  · have hpos : 0 < sizeOne v := by
      by_contra hnot
      have hzero : sizeOne v = 0 := by omega
      rw [hzero, zero_mul] at hwhole
      exact hwhole hm
    have hquot : m / sizeOne v < v.count := by
      refine Int.ediv_lt_of_lt_mul hpos ?_
      rw [mul_comm]
      omega
    have htaken : v.taken sizeOne m = m / sizeOne v := by
      rw [SpanView.taken, if_neg (by omega)]
      exact min_eq_right (by omega)
    rw [convertSpan]
    dsimp only
    rw [← SpanView.count, htaken, floor_add_fract_div hpos hf hf1,
      if_neg (mt (le_add_fract_iff hf hf1).mp hwhole)]
    split_ifs with hdone
    · have hlt : m < sizeOne v := by
        by_contra hnot
        exact absurd ((le_add_fract_iff hf hf1).mpr (not_lt.mp hnot)) (not_le.mpr hdone)
      rw [Int.ediv_eq_zero_of_lt hm hlt]
      simp
    · refine Prod.ext rfl ?_
      push_cast
      ring

theorem taken_nonneg (hsize : 0 ≤ sizeOne v) (hle : v.start ≤ v.span.index) {m : Int} (hm : 0 ≤ m) :
    0 ≤ v.taken sizeOne m := by
  have hcount : 0 < v.count := by
    rw [SpanView.count]
    omega
  have hquot := Int.ediv_nonneg hm hsize
  rw [SpanView.taken]
  split_ifs
  · omega
  · omega

theorem taken_mul_le (hsize : 0 ≤ sizeOne v) {m : Int} (hm : 0 ≤ m) :
    v.taken sizeOne m * sizeOne v ≤ m := by
  rw [SpanView.taken]
  split_ifs with hzero
  · rw [hzero, mul_zero]
    exact hm
  · have hle : min v.count (m / sizeOne v) ≤ m / sizeOne v := min_le_right _ _
    have hmul := Int.mul_le_mul_of_nonneg_right hle hsize
    have hquot := Int.ediv_mul_le m hzero
    omega

/-- **What later spans do with what is left**, to the scaled position. -/
theorem foldl_convertSpan_left {vs : List SpanView} (hsize : ∀ v ∈ vs, 0 ≤ sizeOne v)
    (hle : ∀ v ∈ vs, v.start ≤ v.span.index) (scale : ℚ) (posTo : Int) {m : Int} (hm : 0 ≤ m) {f : ℚ}
    (hf : 0 ≤ f) (hf1 : f < 1) :
    let pos := vs.foldl (convertSpan sizeOne sizeOneTo) (posTo, m + f)
    pos.1 + pos.2 * scale = posTo + (m + f) * scale + gained sizeOne sizeOneTo scale vs m := by
  induction vs generalizing posTo m with
  | nil =>
    dsimp only [List.foldl_nil, gained]
    ring
  | cons v vs ih =>
    have hv := hsize v List.mem_cons_self
    have hvle := hle v List.mem_cons_self
    have hleft := taken_mul_le hv hm (v := v)
    have hrest := ih (fun w hw => hsize w (List.mem_cons_of_mem _ hw))
      (fun w hw => hle w (List.mem_cons_of_mem _ hw)) (posTo + v.taken sizeOne m * sizeOneTo v)
      (m := m - v.taken sizeOne m * sizeOne v) (by omega)
    dsimp only at hrest ⊢
    rw [List.foldl_cons, convertSpan_left hv hvle posTo hm hf hf1, hrest, gained]
    push_cast
    ring

/-- The converted position never goes back, and what is left is never negative. -/
theorem le_foldl_convertSpan {vs : List SpanView} (hsize : ∀ v ∈ vs, 0 ≤ sizeOne v)
    (hsizeTo : ∀ v ∈ vs, 0 ≤ sizeOneTo v) (hle : ∀ v ∈ vs, v.start ≤ v.span.index) (posTo : Int)
    {m : Int} (hm : 0 ≤ m) {f : ℚ} (hf : 0 ≤ f) (hf1 : f < 1) :
    let pos := vs.foldl (convertSpan sizeOne sizeOneTo) (posTo, m + f)
    posTo ≤ pos.1 ∧ 0 ≤ pos.2 := by
  induction vs generalizing posTo m with
  | nil =>
    have hm' : (0 : ℚ) ≤ m := by exact_mod_cast hm
    exact ⟨Int.le_refl _, add_nonneg hm' hf⟩
  | cons v vs ih =>
    have hv := hsize v List.mem_cons_self
    have hvle := hle v List.mem_cons_self
    have hleft := taken_mul_le hv hm (v := v)
    have hadd := mul_nonneg (taken_nonneg hv hvle hm) (hsizeTo v List.mem_cons_self)
    have hrest := ih (fun w hw => hsize w (List.mem_cons_of_mem _ hw))
      (fun w hw => hsizeTo w (List.mem_cons_of_mem _ hw))
      (fun w hw => hle w (List.mem_cons_of_mem _ hw)) (posTo + v.taken sizeOne m * sizeOneTo v)
      (m := m - v.taken sizeOne m * sizeOne v) (by omega)
    dsimp only at hrest ⊢
    rw [List.foldl_cons, convertSpan_left hv hvle posTo hm hf hf1]
    exact ⟨by omega, hrest.2⟩

/-- From the start of an element on, later spans move the position exactly where one of them has
elements without pixels that get some. -/
theorem foldl_convertSpan_start {vs : List SpanView} (hsize : ∀ v ∈ vs, 0 ≤ sizeOne v)
    (hsizeTo : ∀ v ∈ vs, 0 ≤ sizeOneTo v) (hle : ∀ v ∈ vs, v.start ≤ v.span.index) (posTo : Int) :
    vs.foldl (convertSpan sizeOne sizeOneTo) (posTo, 0) = (posTo, 0) ↔
      ∀ v ∈ vs, sizeOne v = 0 → sizeOneTo v = 0 := by
  induction vs generalizing posTo with
  | nil => simp
  | cons v vs ih =>
    have hrest := ih (fun w hw => hsize w (List.mem_cons_of_mem _ hw))
      (fun w hw => hsizeTo w (List.mem_cons_of_mem _ hw)) (fun w hw => hle w (List.mem_cons_of_mem _ hw))
    have hv := hsize v List.mem_cons_self
    have hvto := hsizeTo v List.mem_cons_self
    have hvle := hle v List.mem_cons_self
    have hcount : 0 < v.count := by
      rw [SpanView.count]
      omega
    rw [List.foldl_cons, List.forall_mem_cons]
    rcases Int.lt_or_eq_of_le hv with hpos | hzero
    · have hstep : convertSpan sizeOne sizeOneTo (posTo, 0) v = (posTo, 0) := by
        rw [convertSpan]
        dsimp only
        rw [if_pos (by exact_mod_cast hpos)]
      rw [hstep, hrest]
      exact ⟨fun hall => ⟨fun hz => absurd hz (ne_of_gt hpos), hall⟩, fun hall => hall.2⟩
    · have hstep : convertSpan sizeOne sizeOneTo (posTo, 0) v = (posTo + sizeOneTo v * v.count, 0) := by
        rw [convertSpan_whole hv hvle (by rw [← hzero]; simp), ← hzero]
        simp
      rw [hstep]
      by_cases hto : sizeOneTo v = 0
      · rw [hto, zero_mul, add_zero, hrest]
        exact ⟨fun hall => ⟨fun _ => rfl, hall⟩, fun hall => hall.2⟩
      · refine iff_of_false (fun heq => ?_) fun hall => hto (hall.1 hzero.symm)
        have hmono := (le_foldl_convertSpan (fun w hw => hsize w (List.mem_cons_of_mem _ hw))
          (fun w hw => hsizeTo w (List.mem_cons_of_mem _ hw))
          (fun w hw => hle w (List.mem_cons_of_mem _ hw)) (posTo + sizeOneTo v * v.count)
          (Int.le_refl 0) (le_refl (0 : ℚ)) one_pos).1
        rw [Int.cast_zero, add_zero, heq] at hmono
        have hadd := mul_pos (by omega : 0 < sizeOneTo v) hcount
        dsimp only at hmono
        omega

variable {A B : Int → Int} {m : Int}

/-- The spans behind the element. -/
def later (i : Int) (vs : List SpanView) : List SpanView := vs.filter (i < ·.start)

/-- **The walk**, from the element `lo` on, to a position in the element `i`: all that is before the
element is converted, and what is left is offered to the spans behind it. -/
theorem foldl_convertSpan {spans : List Span} {lo i : Int} (hends : Ends m lo (spans.map Span.index))
    (hle : ∀ v ∈ views lo spans, v.start ≤ v.span.index)
    (hA : ∀ v ∈ views lo spans, ∀ j, v.start ≤ j → j ≤ v.span.index → A j = sizeOne v)
    (hB : ∀ v ∈ views lo spans, ∀ j, v.start ≤ j → j ≤ v.span.index → B j = sizeOneTo v)
    (hnonneg : ∀ j, 0 ≤ A j) (hlo : 0 ≤ lo) (hi : lo ≤ i) (him : i ≤ m) {r : ℚ} (hr : 0 ≤ r)
    (hri : r < A i) :
    (views lo spans).foldl (convertSpan sizeOne sizeOneTo)
        (sumBefore B lo, (sumBefore A i - sumBefore A lo : Int) + r) =
      (later i (views lo spans)).foldl (convertSpan sizeOne sizeOneTo) (sumBefore B i, r) := by
  induction spans generalizing lo with
  | nil => exact absurd rfl hends.ne_nil
  | cons s spans ih =>
    rw [views] at hle hA hB ⊢
    have hsle : lo ≤ s.index := hle _ List.mem_cons_self
    have hAs := hA _ List.mem_cons_self
    have hBs := hB _ List.mem_cons_self
    have hsize : 0 ≤ sizeOne ⟨lo, s⟩ := hAs lo (Int.le_refl _) hsle ▸ hnonneg lo
    have hsum : ∀ n, lo ≤ n → n ≤ s.index + 1 →
        sumBefore A n = sumBefore A lo + sizeOne ⟨lo, s⟩ * (n - lo) ∧
          sumBefore B n = sumBefore B lo + sizeOneTo ⟨lo, s⟩ * (n - lo) := fun n hn hns =>
      ⟨sumBefore_const hlo hn fun j hj hjn => hAs j hj (by change j ≤ s.index; omega),
        sumBefore_const hlo hn fun j hj hjn => hBs j hj (by change j ≤ s.index; omega)⟩
    have hcount : (SpanView.mk lo s).count = s.index + 1 - lo := by
      rw [SpanView.count]
      dsimp only
      omega
    rw [List.foldl_cons]
    rcases lt_or_ge s.index i with hlt | hge
    · obtain ⟨hAend, hBend⟩ := hsum (s.index + 1) (by omega) (by omega)
      have hmono := sumBefore_mono hnonneg (by omega : s.index + 1 ≤ i)
      have hfits : (sizeOne ⟨lo, s⟩ * (SpanView.mk lo s).count : Int) ≤
          ((sumBefore A i - sumBefore A lo : Int) : ℚ) + r := by
        have hint : sizeOne ⟨lo, s⟩ * (SpanView.mk lo s).count ≤ sumBefore A i - sumBefore A lo := by
          rw [hcount]
          omega
        have hint' : ((sizeOne ⟨lo, s⟩ * (SpanView.mk lo s).count : Int) : ℚ) ≤
            (sumBefore A i - sumBefore A lo : Int) := by exact_mod_cast hint
        linarith
      have hnot : ¬ i < (SpanView.mk lo s).start := not_lt.mpr hi
      rw [convertSpan_whole hsize hsle hfits, later, List.filter_cons_of_neg (by simpa using hnot),
        ← later, ← ih (hends.tail (by omega)) (fun v hv => hle v (List.mem_cons_of_mem _ hv))
          (fun v hv => hA v (List.mem_cons_of_mem _ hv)) (fun v hv => hB v (List.mem_cons_of_mem _ hv))
          (by omega) (by omega), hcount, hBend, hAend]
      congr 2
      push_cast
      ring
    · obtain ⟨hAi, hBi⟩ := hsum i hi (by omega)
      have hAval := hAs i hi hge
      have hpos : 0 < sizeOne ⟨lo, s⟩ := by
        rw [← hAval]
        exact_mod_cast lt_of_le_of_lt hr hri
      have hbehind : ∀ v ∈ views (s.index + 1) spans, i < v.start := by
        intro v hv
        exact lt_of_le_of_lt hge (List.rel_of_pairwise_cons (pairwise_views hends) hv)
      have hnot : ¬ i < (SpanView.mk lo s).start := not_lt.mpr hi
      have hrem : ((sumBefore A i - sumBefore A lo : Int) : ℚ) + r =
          ((i - lo) * sizeOne ⟨lo, s⟩ : Int) + r := by
        rw [hAi]
        push_cast
        ring
      rw [hrem, convertSpan_inside hpos (by omega) (by rw [hcount]; omega) hr (hAval ▸ hri), later,
        List.filter_cons_of_neg (by simpa using hnot),
        List.filter_eq_self.mpr fun v hv => by simpa using hbehind v hv, hBi, mul_comm]

end Walk

/-! ## An element at both zooms -/

/-- **An element has its place at both zooms**: its start leads to its start, each position in it to
one in it there, up to less than a pixel, and its start there leads back. -/
structure MapsElement (d : SheetDimension) (zoomScale : ℚ) (cur other : DimensionPosSize) : Prop where
  start : d.getCorePixelsAtZoom cur.startpos zoomScale = other.startpos
  inside : ∀ pos : ℚ, cur.startpos ≤ pos → pos < cur.startpos + cur.size →
    other.startpos ≤ d.getCorePixelsAtZoom pos zoomScale ∧
      d.getCorePixelsAtZoom pos zoomScale < other.startpos + other.size + 1
  back : d.getCorePixelsFromZoom other.startpos zoomScale = cur.startpos

/-- **The spans behind the element do no harm**: their elements have pixels at both zooms or at none,
and what they gain from the pixels left behind the start of the element keeps the position, with the
pixel it is in, less than one pixel behind the end. -/
structure SparedBy (d : SheetDimension) (zoomScale : ℚ) (cur other : DimensionPosSize)
    (vs : List SpanView) : Prop where
  start : ∀ v ∈ vs, v.sizecore = 0 → v.sizeAtZoom zoomScale = 0
  back : ∀ v ∈ vs, v.sizeAtZoom zoomScale = 0 → v.sizecore = 0
  inside : ∀ m : Int, 0 ≤ m → m < cur.size →
    (m + 1) * (zoomScale / d.coreZoomFactor) +
      gained SpanView.sizecore (SpanView.sizeAtZoom zoomScale) (zoomScale / d.coreZoomFactor) vs m ≤
        other.size + 1

/-- A bound for all positions in a pixel is one for the end of the pixel. -/
theorem forall_add_mul_lt_iff {scale : ℚ} (hscale : 0 < scale) (a b : ℚ) :
    (∀ f : ℚ, 0 ≤ f → f < 1 → a + f * scale < b) ↔ a + scale ≤ b := by
  constructor
  · intro hall
    by_contra hnot
    have hlt : (b - a) / scale < 1 := by
      rw [div_lt_one hscale]
      linarith
    have hfract := hall (max 0 ((b - a) / scale)) (le_max_left _ _) (max_lt one_pos hlt)
    have hle := mul_le_mul_of_nonneg_right (le_max_right 0 ((b - a) / scale)) (le_of_lt hscale)
    rw [div_mul_cancel₀ _ (ne_of_gt hscale)] at hle
    linarith
  · intro hle f _ hf1
    have hmul := mul_lt_mul_of_pos_right hf1 hscale
    linarith

section Zooms

variable {g : Geometry} {d : SheetDimension} (h : Shows g d) (zoomScale : ℚ)

theorem Geometry.pixelsAt_zoom {i : Int} {v : SpanView} (hvalue : g.visibleAt i = v.span.value) :
    g.pixelsAt (15 / zoomScale) i = v.sizeAtZoom zoomScale := by
  rw [pixelsAt, SpanView.sizeAtZoom, hvalue, div_div_eq_mul_div, div_mul_eq_mul_div]

include h

theorem Shows.sizecore_eq : ∀ v ∈ views 0 d.visibleSizes, ∀ j, v.start ≤ j → j ≤ v.span.index →
    g.pixelsAt d.twipsPerCorePixel j = v.sizecore :=
  fun v hv _ hj hjv => (h.laid v hv).pixelsAt_eq hj hjv

theorem Shows.sizeAtZoom_eq : ∀ v ∈ views 0 d.visibleSizes, ∀ j, v.start ≤ j → j ≤ v.span.index →
    g.pixelsAt (15 / zoomScale) j = v.sizeAtZoom zoomScale :=
  fun v hv j hj hjv => Geometry.pixelsAt_zoom zoomScale ((h.laid v hv).value j hj hjv)

variable {i : Int} (hi : 0 ≤ i) (him : i ≤ g.last)

include hi him

/-- `getCorePixelsAtZoom`, of a position in the element. -/
theorem Shows.getCorePixelsAtZoom_eq (hT : 0 < d.twipsPerCorePixel) {r : ℚ} (hr : 0 ≤ r)
    (hri : r < g.pixelsAt d.twipsPerCorePixel i) :
    d.getCorePixelsAtZoom (g.startOf d.twipsPerCorePixel .corepixels i + r) zoomScale =
      let pos := (later i (views 0 d.visibleSizes)).foldl
        (convertSpan SpanView.sizecore (SpanView.sizeAtZoom zoomScale))
        (g.startOf (15 / zoomScale) .corepixels i, r)
      pos.1 + pos.2 * (zoomScale / d.coreZoomFactor) := by
  have hwalk := foldl_convertSpan h.ends h.start_le h.sizecore_eq (h.sizeAtZoom_eq zoomScale)
    (g.pixelsAt_nonneg hT) (Int.le_refl 0) hi him hr hri
  rw [sumBefore_zero, sumBefore_zero, sub_zero] at hwalk
  rw [SheetDimension.getCorePixelsAtZoom, Geometry.startOf, hwalk]
  dsimp only
  rw [mul_div_assoc]
  rfl

/-- `getCorePixelsFromZoom`, of the start of the element. -/
theorem Shows.getCorePixelsFromZoom_eq (hzoom : 0 < zoomScale)
    (hpx : 0 < g.pixelsAt (15 / zoomScale) i) :
    d.getCorePixelsFromZoom (g.startOf (15 / zoomScale) .corepixels i) zoomScale =
      let pos := (later i (views 0 d.visibleSizes)).foldl
        (convertSpan (SpanView.sizeAtZoom zoomScale) SpanView.sizecore)
        (g.startOf d.twipsPerCorePixel .corepixels i, 0)
      pos.1 + pos.2 * (d.coreZoomFactor / zoomScale) := by
  have hwalk := foldl_convertSpan h.ends h.start_le (h.sizeAtZoom_eq zoomScale) h.sizecore_eq
    (g.pixelsAt_nonneg (by positivity)) (Int.le_refl 0) hi him (le_refl (0 : ℚ))
    (by exact_mod_cast hpx)
  rw [sumBefore_zero, sumBefore_zero, sub_zero, add_zero] at hwalk
  rw [SheetDimension.getCorePixelsFromZoom, Geometry.startOf, hwalk]
  dsimp only
  rw [mul_div_assoc]
  rfl

end Zooms

/-- The start is kept exactly where no later span moves it. -/
theorem foldl_convertSpan_value {sizeOne sizeOneTo : SpanView → Int} {vs : List SpanView}
    (hsize : ∀ v ∈ vs, 0 ≤ sizeOne v) (hsizeTo : ∀ v ∈ vs, 0 ≤ sizeOneTo v)
    (hle : ∀ v ∈ vs, v.start ≤ v.span.index) {scale : ℚ} (hscale : 0 < scale) (posTo : Int) :
    ((vs.foldl (convertSpan sizeOne sizeOneTo) (posTo, 0)).1 +
        (vs.foldl (convertSpan sizeOne sizeOneTo) (posTo, 0)).2 * scale = posTo) ↔
      ∀ v ∈ vs, sizeOne v = 0 → sizeOneTo v = 0 := by
  rw [← foldl_convertSpan_start hsize hsizeTo hle posTo]
  have hmono := le_foldl_convertSpan hsize hsizeTo hle posTo (Int.le_refl 0) (le_refl (0 : ℚ)) one_pos
  rw [Int.cast_zero, add_zero] at hmono
  dsimp only at hmono ⊢
  constructor
  · intro heq
    have hposTo : (posTo : ℚ) ≤ (vs.foldl (convertSpan sizeOne sizeOneTo) (posTo, 0)).1 := by
      exact_mod_cast hmono.1
    have hrem := mul_nonneg hmono.2 (le_of_lt hscale)
    have hzero : (vs.foldl (convertSpan sizeOne sizeOneTo) (posTo, 0)).2 * scale = 0 := by linarith
    refine Prod.ext ?_ ((mul_eq_zero.mp hzero).resolve_right (ne_of_gt hscale))
    exact_mod_cast (by linarith :
      ((vs.foldl (convertSpan sizeOne sizeOneTo) (posTo, 0)).1 : ℚ) = posTo)
  · intro heq
    rw [heq]
    simp

/-- **An element has its place at both zooms exactly where the spans behind it spare it.** -/
theorem Shows.mapsElement_iff {g : Geometry} {d : SheetDimension} (h : Shows g d) {zoomScale : ℚ}
    (htwips : 0 < d.tileSizeTwips) (hpixels : 0 < d.tileSizePixels) (hzoom : 0 < zoomScale) {i : Int}
    (hi : 0 ≤ i) (him : i ≤ g.last) (hpx : 0 < g.pixelsAt d.twipsPerCorePixel i)
    (hpxZ : 0 < g.pixelsAt (15 / zoomScale) i) :
    let cur : DimensionPosSize :=
      ⟨g.startOf d.twipsPerCorePixel .corepixels i, g.pixelsAt d.twipsPerCorePixel i⟩
    let other : DimensionPosSize :=
      ⟨g.startOf (15 / zoomScale) .corepixels i, g.pixelsAt (15 / zoomScale) i⟩
    MapsElement d zoomScale cur other ↔
      SparedBy d zoomScale cur other (later i (views 0 d.visibleSizes)) := by
  have hT : 0 < d.twipsPerCorePixel := by
    rw [SheetDimension.twipsPerCorePixel]
    positivity
  have hfactor : 0 < d.coreZoomFactor := by
    rw [SheetDimension.coreZoomFactor]
    positivity
  have hscale : 0 < zoomScale / d.coreZoomFactor := by positivity
  have hscaleBack : 0 < d.coreZoomFactor / zoomScale := by positivity
  have hmem : ∀ v ∈ later i (views 0 d.visibleSizes), v ∈ views 0 d.visibleSizes :=
    fun v hv => (List.mem_filter.mp hv).1
  have hle : ∀ v ∈ later i (views 0 d.visibleSizes), v.start ≤ v.span.index :=
    fun v hv => h.start_le v (hmem v hv)
  have hsize : ∀ v ∈ later i (views 0 d.visibleSizes), 0 ≤ v.sizecore := fun v hv =>
    h.sizecore_eq v (hmem v hv) v.start (Int.le_refl _) (hle v hv) ▸ g.pixelsAt_nonneg hT _
  have hsizeZ : ∀ v ∈ later i (views 0 d.visibleSizes), 0 ≤ v.sizeAtZoom zoomScale := fun v hv =>
    h.sizeAtZoom_eq zoomScale v (hmem v hv) v.start (Int.le_refl _) (hle v hv) ▸
      g.pixelsAt_nonneg (by positivity) _
  have hat := fun {r : ℚ} (hr : 0 ≤ r) (hri : r < g.pixelsAt d.twipsPerCorePixel i) =>
    h.getCorePixelsAtZoom_eq zoomScale hi him hT hr hri
  have hstart := foldl_convertSpan_value hsize hsizeZ hle hscale
    (g.startOf (15 / zoomScale) .corepixels i)
  have hback := foldl_convertSpan_value hsizeZ hsize hle hscaleBack
    (g.startOf d.twipsPerCorePixel .corepixels i)
  have hfirst := hat (le_refl (0 : ℚ)) (by exact_mod_cast hpx)
  rw [add_zero] at hfirst
  -- the positions of a pixel, by the pixel
  have hposition : ∀ m : Int, 0 ≤ m → m < g.pixelsAt d.twipsPerCorePixel i → ∀ f : ℚ, 0 ≤ f → f < 1 →
      g.startOf (15 / zoomScale) .corepixels i ≤
          d.getCorePixelsAtZoom (g.startOf d.twipsPerCorePixel .corepixels i + (m + f)) zoomScale ∧
        d.getCorePixelsAtZoom (g.startOf d.twipsPerCorePixel .corepixels i + (m + f)) zoomScale =
          g.startOf (15 / zoomScale) .corepixels i + (m + f) * (zoomScale / d.coreZoomFactor) +
            gained SpanView.sizecore (SpanView.sizeAtZoom zoomScale) (zoomScale / d.coreZoomFactor)
              (later i (views 0 d.visibleSizes)) m := by
    intro m hm hmi f hf hf1
    have hm' : (0 : ℚ) ≤ m := by exact_mod_cast hm
    have hmi' : (m : ℚ) + 1 ≤ g.pixelsAt d.twipsPerCorePixel i := by exact_mod_cast hmi
    have hvalue := @foldl_convertSpan_left _ (SpanView.sizeAtZoom zoomScale) _ hsize hle
      (zoomScale / d.coreZoomFactor) (g.startOf (15 / zoomScale) .corepixels i) m hm f hf hf1
    have hmono := le_foldl_convertSpan hsize hsizeZ hle (g.startOf (15 / zoomScale) .corepixels i) hm hf hf1
    rw [hat (add_nonneg hm' hf) (by linarith)]
    refine ⟨?_, hvalue⟩
    dsimp only at hmono ⊢
    have hpos : (g.startOf (15 / zoomScale) .corepixels i : ℚ) ≤ _ := Int.cast_le.mpr hmono.1
    have hrem := mul_nonneg hmono.2 (le_of_lt hscale)
    linarith
  intro cur other
  constructor
  · intro hmaps
    refine ⟨hstart.mp (hfirst ▸ hmaps.start), ?_, fun m hm hmi => ?_⟩
    · rw [← hback, ← h.getCorePixelsFromZoom_eq zoomScale hi him hzoom hpxZ]
      exact hmaps.back
    · have hbound := (forall_add_mul_lt_iff hscale
        (m * (zoomScale / d.coreZoomFactor) + gained SpanView.sizecore
          (SpanView.sizeAtZoom zoomScale) (zoomScale / d.coreZoomFactor)
            (later i (views 0 d.visibleSizes)) m) (other.size + 1)).mp ?_
      · linarith
      · intro f hf hf1
        have hm' : (0 : ℚ) ≤ m := by exact_mod_cast hm
        have hmi' : (m : ℚ) + 1 ≤ cur.size := by exact_mod_cast hmi
        have hlt := (hmaps.inside (cur.startpos + (m + f)) (by linarith) (by linarith)).2
        rw [(hposition m hm hmi f hf hf1).2] at hlt
        linarith
  · intro hspared
    refine ⟨hfirst.trans (hstart.mpr hspared.start), fun pos hlow hhigh => ?_, ?_⟩
    · have hfloor := Int.floor_add_fract (pos - cur.startpos)
      have hf := Int.fract_nonneg (pos - cur.startpos)
      have hf1 := Int.fract_lt_one (pos - cur.startpos)
      have hm : 0 ≤ ⌊pos - cur.startpos⌋ := Int.floor_nonneg.mpr (by linarith)
      have hmi : ⌊pos - cur.startpos⌋ < cur.size := Int.floor_lt.mpr (by linarith)
      have hpos : pos = cur.startpos + (⌊pos - cur.startpos⌋ + Int.fract (pos - cur.startpos)) := by
        linarith
      obtain ⟨hle, hvalue⟩ := hposition _ hm hmi _ hf hf1
      rw [← hpos] at hle hvalue
      refine ⟨hle, ?_⟩
      have hbound := hspared.inside _ hm hmi
      have hmul := mul_lt_mul_of_pos_right hf1 hscale
      rw [hvalue]
      linarith
    · have hvalue := h.getCorePixelsFromZoom_eq zoomScale hi him hzoom hpxZ
      exact hvalue.trans (hback.mpr hspared.back)

/-- **Positions map between zoom levels where the spans behind an element spare it**, and for no other
element: of every well formed message, at every zoom set later on and every other one. -/
theorem mapsElement_iff_sparedBy (g : Geometry)
    (tileSizeTwips₀ tileSizePixels₀ tileSizeTwips tileSizePixels : ℚ) (maxIndex : Int)
    (htwips : 0 < tileSizeTwips) (hpixels : 0 < tileSizePixels) :
    ∃ d₀, SheetDimension.ofMessage tileSizeTwips₀ tileSizePixels₀ maxIndex (encodeSpans g.sizes)
        (encodeBits g.hidden) (encodeBits g.filtered) = some d₀ ∧
      let d := d₀.setTileGeometryData tileSizeTwips tileSizePixels
      ∀ (zoomScale : ℚ) (i : Int) (cur : DimensionPosSize), 0 ≤ i → i ≤ g.last →
        d.getElementData i = some cur → 0 < cur.size → 0 < (d.getElementDataAtZoom i zoomScale).size →
        (MapsElement d zoomScale cur (d.getElementDataAtZoom i zoomScale) ↔
          SparedBy d zoomScale cur (d.getElementDataAtZoom i zoomScale)
            (later i (views 0 d.visibleSizes))) := by
  obtain ⟨d₀, hload, hshows, -⟩ :=
    exists_shows g tileSizeTwips₀ tileSizePixels₀ tileSizeTwips tileSizePixels maxIndex
  obtain ⟨htw, hpx, -⟩ := d₀.setTileGeometryData_zoom tileSizeTwips tileSizePixels
  refine ⟨d₀, hload, ?_⟩
  intro d zoomScale i cur hi him hcur hsize hsizeZ
  have hother := hshows.getElementDataAtZoom_of (T := 15 / zoomScale)
    (fun x => (div_div_eq_mul_div x 15 zoomScale).symm) hi him
  have hdata := hshows.getElementDataAny_eq hi him .corepixels
  rw [SheetDimension.getElementData, hdata, Option.some.injEq] at hcur
  subst hcur
  rw [hother] at hsizeZ ⊢
  have hzoom : 0 < zoomScale := by
    by_contra hnot
    have hvisible : (0 : ℚ) ≤ g.visibleAt i := by exact_mod_cast g.visibleAt_nonneg i
    have hscale : 15 / zoomScale ≤ 0 := div_nonpos_of_nonneg_of_nonpos (by norm_num) (not_lt.mp hnot)
    have hfloor : (1 : ℚ) ≤ (g.visibleAt i : ℚ) / (15 / zoomScale) := by
      exact_mod_cast Int.le_floor.mp hsizeZ
    have hdiv := div_nonpos_of_nonneg_of_nonpos hvisible hscale
    linarith
  exact hshows.mapsElement_iff (by rw [htw]; exact htwips) (by rw [hpx]; exact hpixels) hzoom hi him hsize
    hsizeZ

theorem mapsElement_hundredRows :
    (0 : ℚ) < 3840 ∧ (0 : ℚ) < 256 ∧
      ∃ d₀, SheetDimension.ofMessage 3840 256 99 (encodeSpans hundredRows.sizes)
          (encodeBits hundredRows.hidden) (encodeBits hundredRows.filtered) = some d₀ ∧
        let d := d₀.setTileGeometryData 3840 256
        ∀ (zoomScale : ℚ) (i : Int) (cur : DimensionPosSize), 0 ≤ i → i ≤ hundredRows.last →
          d.getElementData i = some cur → 0 < cur.size →
          0 < (d.getElementDataAtZoom i zoomScale).size →
          (MapsElement d zoomScale cur (d.getElementDataAtZoom i zoomScale) ↔
            SparedBy d zoomScale cur (d.getElementDataAtZoom i zoomScale)
              (later i (views 0 d.visibleSizes))) :=
  ⟨by norm_num, by norm_num,
    mapsElement_iff_sparedBy hundredRows 3840 256 3840 256 99 (by norm_num) (by norm_num)⟩

/-- Rows, and very low ones behind them. -/
def lowRows : Geometry where
  sizes := [⟨49, 285⟩, ⟨99, 11⟩]
  hidden := ⟨false, [99]⟩
  filtered := ⟨false, [99]⟩
  last := 99
  nonneg := by decide
  sizes_ends := .cons (by decide) (by decide) (.last (by decide))
  hidden_ends := higherRows.hidden_ends
  filtered_ends := higherRows.filtered_ends

/-- The low rows have no pixel at the current zoom and one at twice its scale. The start of the first
row is moved by all of them. -/
theorem not_mapsElement :
    ¬ ∀ (g : Geometry) (tileSizeTwips₀ tileSizePixels₀ tileSizeTwips tileSizePixels : ℚ)
      (maxIndex : Int), 0 < tileSizeTwips → 0 < tileSizePixels →
      ∃ d₀, SheetDimension.ofMessage tileSizeTwips₀ tileSizePixels₀ maxIndex (encodeSpans g.sizes)
          (encodeBits g.hidden) (encodeBits g.filtered) = some d₀ ∧
        let d := d₀.setTileGeometryData tileSizeTwips tileSizePixels
        ∀ (zoomScale : ℚ) (i : Int) (cur : DimensionPosSize), 0 ≤ i → i ≤ g.last →
          d.getElementData i = some cur → 0 < cur.size →
          0 < (d.getElementDataAtZoom i zoomScale).size →
          MapsElement d zoomScale cur (d.getElementDataAtZoom i zoomScale) := by
  intro hall
  obtain ⟨d₀, hload, hmaps⟩ := hall lowRows 3840 256 3840 256 99 (by norm_num) (by norm_num)
  have hvalues : (SheetDimension.ofMessage 3840 256 99 (encodeSpans lowRows.sizes)
      (encodeBits lowRows.hidden) (encodeBits lowRows.filtered)).map (fun d₀ =>
        let d := d₀.setTileGeometryData 3840 256
        (d.getElementData 0, d.getElementDataAtZoom 0 2, d.getCorePixelsAtZoom 0 2)) =
      some (some ⟨0, 19⟩, ⟨0, 38⟩, 50) := by
    decide +kernel
  rw [hload, Option.map_some, Option.some.injEq, Prod.mk.injEq, Prod.mk.injEq] at hvalues
  obtain ⟨hcur, hother, hpos⟩ := hvalues
  have hstart := (hmaps 2 0 ⟨0, 19⟩ (by decide) (by decide) hcur (by decide)
    (by rw [hother]; decide)).start
  rw [hother] at hstart
  rw [Int.cast_zero, hpos] at hstart
  norm_num at hstart

end Oxool.Sheet
