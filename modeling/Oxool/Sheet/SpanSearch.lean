import Oxool.Sheet.Lookup

/-!
# The spans that the searches find (`browser/src/layer/tile/SheetGeometry.ts`)

A span is looked up by an element or by a position. Its place is the result, and `none` is `-1`.
Elements and positions are counted from 0 ("all custom searchable data values are assumed to start
from 0 at the start of first span and are in non-decreasing order"), and each span goes on where the
one before it ends. Spans of hidden elements have no size, so that no position is theirs: the search
is sent past them, up or down (`directionByField_range`), and ends at the one span that has the key.
-/

set_option autoImplicit false

namespace Oxool.Sheet

/-! ## The two searches -/

/-- `_searchByIndex`. -/
def searchByIndex (spans : List Span) (index : Int) : Option Nat :=
  binarySearch (directionByIndex spans index) spans.length false

/-- `_searchByCustomDataField`. -/
def searchByCustomDataField (field : Span → Int) (spans : List Span) (value : ℚ) : Option Nat :=
  binarySearch (directionByField field spans value) spans.length true

theorem getSpanDataByIndex_eq_search (spans : List Span) (index : Int) :
    getSpanDataByIndex spans index = (searchByIndex spans index).bind fun id => (views 0 spans)[id]? := rfl

theorem getSpanDataByCustomDataField_eq_search (field : Span → Int) (spans : List Span)
    (value : ℚ) :
    getSpanDataByCustomDataField field spans value =
      (searchByCustomDataField field spans value).bind fun id => (views 0 spans)[id]? := rfl

/-! ## What a span has -/

/-- Where the span before place `k` ends; the first one starts at 0. -/
def previousEnd (field : Span → Int) (spans : List Span) : Nat → Int
  | 0 => 0
  | j + 1 => (spans[j]?.map field).getD 0

/-- The span at place `k` has position `key`: from the end of the one before it up to its own, which
belongs to the next span if there is one. -/
def HasPosition (field : Span → Int) (spans : List Span) (key : Int) (k : Nat) : Prop :=
  ∃ span, spans[k]? = some span ∧ previousEnd field spans k ≤ key ∧
    (key < field span ∨ k + 1 = spans.length ∧ key = field span)

/-- The first element of the span at place `k`. -/
def firstElement (spans : List Span) : Nat → Int
  | 0 => 0
  | j + 1 => (spans[j]?.map Span.index).getD 0 + 1

/-- The span at place `k` has element `index`. -/
def HasElement (spans : List Span) (index : Int) (k : Nat) : Prop :=
  ∃ span, spans[k]? = some span ∧ firstElement spans k ≤ index ∧ index ≤ span.index

/-! ## By position -/

section Field

variable {field : Span → Int} {spans : List Span}

/-- The last position that the search takes a span to have. -/
def lastPosition (field : Span → Int) (spans : List Span) (k : Nat) : Int :=
  previousEnd field spans (k + 1) - if k + 1 < spans.length then 1 else 0

theorem previousEnd_succ {k : Nat} {span : Span} (hspan : spans[k]? = some span) :
    previousEnd field spans (k + 1) = field span := by
  rw [previousEnd, hspan]
  rfl

theorem directionByField_range (key : Int) {k : Nat} (hk : k < spans.length) :
    directionByField field spans key k =
      if key < previousEnd field spans k then .lt
      else if lastPosition field spans k < key then .gt else .eq := by
  have hspan := List.getElem?_eq_getElem hk
  have hnext : (spans[k + 1]?).isSome = true ↔ k + 1 < spans.length := by simp
  rw [directionByField.eq_def, hspan, lastPosition, previousEnd_succ hspan]
  simp only [Int.cast_lt, hnext]
  cases k with
  | zero => rfl
  | succ j => rfl

theorem hasPosition_iff {key : Int} {k : Nat} :
    HasPosition field spans key k ↔
      k < spans.length ∧ previousEnd field spans k ≤ key ∧ key ≤ lastPosition field spans k := by
  constructor
  · intro h
    obtain ⟨span, hspan, hstart, hend⟩ := h
    have hk := (List.getElem?_eq_some_iff.mp hspan).1
    refine ⟨hk, hstart, ?_⟩
    rw [lastPosition, previousEnd_succ hspan]
    split <;> omega
  · intro h
    obtain ⟨hk, hstart, hend⟩ := h
    have hspan := List.getElem?_eq_getElem hk
    rw [lastPosition, previousEnd_succ hspan] at hend
    refine ⟨_, hspan, hstart, ?_⟩
    split at hend <;> omega

theorem contiguous_positions (hends : ((0 : Int) :: spans.map field).Pairwise (· ≤ ·)) :
    Contiguous (previousEnd field spans) (lastPosition field spans) spans.length where
  next := by
    intro j hj
    rw [lastPosition, if_pos hj]
    omega
  ordered := by
    intro j hj
    have hle : previousEnd field spans j ≤ previousEnd field spans (j + 1) := by
      rw [previousEnd_succ (List.getElem?_eq_getElem hj)]
      cases j with
      | zero =>
        exact (List.pairwise_cons.mp hends).1 _ (List.mem_map_of_mem (List.getElem_mem hj))
      | succ j =>
        rw [previousEnd_succ (List.getElem?_eq_getElem (Nat.lt_of_succ_lt hj))]
        have hmap := List.pairwise_map.mp (List.pairwise_cons.mp hends).2
        exact List.pairwise_iff_getElem.mp hmap j (j + 1) (Nat.lt_of_succ_lt hj) hj (Nat.lt_succ_self j)
    rw [lastPosition]
    split <;> omega

end Field

/-! ## By element -/

section Index

variable {spans : List Span}

/-- The last element of the span at place `k`. -/
def lastElement (spans : List Span) (k : Nat) : Int := firstElement spans (k + 1) - 1

theorem lastElement_eq {k : Nat} {span : Span} (hspan : spans[k]? = some span) :
    lastElement spans k = span.index := by
  rw [lastElement, firstElement, hspan, Option.map_some, Option.getD_some, Int.add_sub_cancel]

theorem start_eq_firstElement {k : Nat} {v : SpanView} (hv : (views 0 spans)[k]? = some v) :
    v.start = firstElement spans k := by
  cases k with
  | zero => exact start_first hv
  | succ j =>
    have hk := (List.getElem?_eq_some_iff.mp hv).1
    have hw := List.getElem?_eq_getElem (l := views 0 spans) (Nat.lt_of_succ_lt hk)
    rw [start_next hw hv, firstElement, ← @getElem?_views 0 spans j, hw]
    rfl

theorem directionByIndex_range (index : Int) {k : Nat} (hk : k < spans.length) :
    directionByIndex spans index k =
      if index < firstElement spans k then .lt
      else if lastElement spans k < index then .gt else .eq := by
  have hv : (views 0 spans)[k]? = some _ := List.getElem?_eq_getElem (by rwa [length_views])
  have hspan := @getElem?_views 0 spans k
  rw [hv, Option.map_some] at hspan
  rw [directionByIndex, hv, lastElement_eq hspan.symm, ← start_eq_firstElement hv]

theorem hasElement_iff {index : Int} {k : Nat} :
    HasElement spans index k ↔
      k < spans.length ∧ firstElement spans k ≤ index ∧ index ≤ lastElement spans k := by
  constructor
  · intro h
    obtain ⟨span, hspan, hstart, hend⟩ := h
    rw [lastElement_eq hspan]
    exact ⟨(List.getElem?_eq_some_iff.mp hspan).1, hstart, hend⟩
  · intro h
    obtain ⟨hk, hstart, hend⟩ := h
    have hspan := List.getElem?_eq_getElem hk
    rw [lastElement_eq hspan] at hend
    exact ⟨_, hspan, hstart, hend⟩

theorem contiguous_elements (hends : ((-1 : Int) :: spans.map Span.index).Pairwise (· < ·)) :
    Contiguous (firstElement spans) (lastElement spans) spans.length where
  next := by
    intro j _
    rw [lastElement]
    omega
  ordered := by
    intro j hj
    rw [lastElement_eq (List.getElem?_eq_getElem hj)]
    cases j with
    | zero =>
      have hlt := (List.pairwise_cons.mp hends).1 _ (List.mem_map_of_mem (List.getElem_mem hj))
      rw [firstElement]
      omega
    | succ j =>
      have hmap := List.pairwise_map.mp (List.pairwise_cons.mp hends).2
      have hlt :=
        List.pairwise_iff_getElem.mp hmap j (j + 1) (Nat.lt_of_succ_lt hj) hj (Nat.lt_succ_self j)
      rw [firstElement, List.getElem?_eq_getElem (Nat.lt_of_succ_lt hj), Option.map_some,
        Option.getD_some]
      omega

end Index

/-! ## What is found -/

/-- The search ends at the span that has the position, and no other span has it. -/
theorem searchByCustomDataField_iff {field : Span → Int} {spans : List Span}
    (hends : ((0 : Int) :: spans.map field).Pairwise (· ≤ ·)) (key : Int) (k : Nat) :
    searchByCustomDataField field spans key = some k ↔ HasPosition field spans key k := by
  have hdir := fun j (hj : j < spans.length) => @directionByField_range field spans key j hj
  rw [hasPosition_iff, searchByCustomDataField]
  exact (contiguous_positions hends).binarySearch_eq_some_iff hdir true k

theorem searchByIndex_iff {spans : List Span}
    (hends : ((-1 : Int) :: spans.map Span.index).Pairwise (· < ·)) (index : Int) (k : Nat) :
    searchByIndex spans index = some k ↔ HasElement spans index k := by
  have hdir := fun j (hj : j < spans.length) => directionByIndex_range index hj
  rw [hasElement_iff, searchByIndex]
  exact (contiguous_elements hends).binarySearch_eq_some_iff hdir false k

theorem eq_none_iff_of_forall {α : Type} {o : Option α} {P : α → Prop} (h : ∀ a, o = some a ↔ P a) :
    o = none ↔ ∀ a, ¬ P a := by
  rw [Option.eq_none_iff_forall_ne_some]
  exact forall_congr' fun a => not_congr (h a)

/-- **The searches find the span that has the key.** For positions that go up from 0, some of them
the same, the loop ends, and the result is the first span that has the position, or none if no span
has it. For elements the same holds, and no other span has the element. -/
theorem searches_exact (field : Span → Int) (spans : List Span) (key : Int) :
    (((0 : Int) :: spans.map field).Pairwise (· ≤ ·) →
      Bisects (directionByField field spans key) 0 spans.length
          (bisect (directionByField field spans key) spans.length 0 spans.length) ∧
        (∀ k, searchByCustomDataField field spans key = some k ↔
          HasPosition field spans key k ∧ ∀ i < k, ¬ HasPosition field spans key i) ∧
        (searchByCustomDataField field spans key = none ↔ ∀ k, ¬ HasPosition field spans key k)) ∧
    (((-1 : Int) :: spans.map Span.index).Pairwise (· < ·) →
      Bisects (directionByIndex spans key) 0 spans.length
          (bisect (directionByIndex spans key) spans.length 0 spans.length) ∧
        (∀ k, searchByIndex spans key = some k ↔
          HasElement spans key k ∧ ∀ i, HasElement spans key i → i = k) ∧
        (searchByIndex spans key = none ↔ ∀ k, ¬ HasElement spans key k)) := by
  constructor
  · intro hends
    have hfound := searchByCustomDataField_iff hends key
    refine ⟨bisects_bisect (Nat.le_refl _), ?_, eq_none_iff_of_forall hfound⟩
    intro k
    constructor
    · intro hk
      refine ⟨(hfound k).mp hk, ?_⟩
      intro i hik hi
      have heq := hk.symm.trans ((hfound i).mpr hi)
      injection heq with heq
      exact Nat.ne_of_gt hik heq
    · intro hk
      exact (hfound k).mpr hk.1
  · intro hends
    have hfound := searchByIndex_iff hends key
    refine ⟨bisects_bisect (Nat.le_refl _), ?_, eq_none_iff_of_forall hfound⟩
    intro k
    constructor
    · intro hk
      refine ⟨(hfound k).mp hk, ?_⟩
      intro i hi
      have heq := ((hfound i).mpr hi).symm.trans hk
      injection heq
    · intro hk
      exact (hfound k).mpr hk.1

/-- Four spans of which two in the middle are hidden. -/
def someHidden : List Span :=
  [⟨1, 255, 10, 20, 300, 510⟩, ⟨4, 0, 0, 20, 300, 510⟩, ⟨6, 0, 0, 20, 300, 510⟩, ⟨9, 255, 10, 50, 750, 1275⟩]

theorem searches_exact_someHidden :
    searchByCustomDataField Span.posprinttwips someHidden (510 : Int) = some 3 ∧
      searchByIndex someHidden 5 = some 2 := by
  constructor
  · refine (((searches_exact Span.posprinttwips someHidden 510).1 (by decide)).2.1 3).mpr ⟨?_, ?_⟩
    · exact ⟨_, rfl, by decide, .inl (by decide)⟩
    · intro i hi hhas
      obtain ⟨-, hstart, hend⟩ := hasPosition_iff.mp hhas
      interval_cases i <;> revert hstart hend <;> decide
  · refine (((searches_exact Span.index someHidden 5).2 (by decide)).2.1 2).mpr ⟨?_, ?_⟩
    · exact ⟨_, rfl, by decide, by decide⟩
    · intro i hhas
      obtain ⟨hi, hstart, hend⟩ := hasElement_iff.mp hhas
      replace hi : i < 4 := hi
      interval_cases i <;> revert hstart hend <;> decide

end Oxool.Sheet
