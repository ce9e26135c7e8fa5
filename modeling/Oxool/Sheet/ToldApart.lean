import Oxool.Sheet.Updates

/-!
# What later calls tell of a dimension

An update that fails half way has taken over some lists. Whether anything comes of it is a question about
every later run of calls, and so is `Alike`; the lists themselves are a matter of equalities. This file goes
from the one to the other.

* Two dimensions that differ in their groups only, and there only in what no answer is made of
  (`SameGroups`), answer alike: `alike_of_sameGroups`. Of an entry the callers get the first and the last
  element, and whether it is collapsed. Its fourth number goes nowhere.
* The lists of two dimensions that answer alike are equal, if they are in order (`sizes_eq_of_alike`,
  `hidden_eq_of_alike`, `filtered_eq_of_alike`, `sameGroups_of_alike`, `visibleSizes_eq_of_alike`). What shows
  a list is always the same experiment: a message that sets the *other* lists to something plain, so that
  the sizes that are seen next are those of the list in question. A list of other sizes is shown by
  elements that are neither hidden nor filtered, a list of hidden elements by elements of size one.

Lists are in order if they are what the core writes: the spans follow one another, and a new one begins where
the value changes. For lists that go back and forth the second half fails: what `union` and
`applyZeroValues` make of them depends on how their loops happen to walk, and different lists can have the
same future.
-/

set_option autoImplicit false

namespace Oxool.Sheet

open Oxool.Http (Bytes ascii)

/-! ## Lists in order -/

/-- The spans follow one another up to the last element, and each ends where the size changes. -/
structure SizesInOrder (last : Int) (sizes : List SpanData) : Prop where
  ends : Ends last 0 (sizes.map SpanData.index)
  nonneg : ∀ s ∈ sizes, 0 ≤ s.value
  changes : sizes.IsChain fun s s' => s.value ≠ s'.value

/-- The groups of each level follow one another, from the first element on. -/
def OutlinesInOrder (outlines : DimensionOutlines) : Prop :=
  ∀ groups ∈ outlines, Disjoint groups ∧ ∀ g ∈ groups, 0 ≤ g.start

/-- A list without its first span has the same values behind it. -/
theorem valueAt_tail {s : SpanData} {spans : List SpanData} {i : Int} (hi : s.index < i) :
    valueAt (s :: spans) i = valueAt spans i := by
  rw [valueAt, if_neg (by omega)]

/-- The first span goes as far as the value does. -/
theorem index_le_of_valueAt {m lo : Int} {s s' : SpanData} {spans spans' : List SpanData}
    (h : Ends m lo ((s :: spans).map SpanData.index)) (h' : Ends m lo ((s' :: spans').map SpanData.index))
    (hchanges : (s :: spans).IsChain fun s s' => s.value ≠ s'.value) (hvalue : s.value = s'.value)
    (heq : ∀ i, lo ≤ i → i ≤ m → valueAt (s :: spans) i = valueAt (s' :: spans') i) :
    s'.index ≤ s.index := by
  by_contra hlt
  have hm := h'.head.2
  have hlo := h.head.1
  have hrest := h.tail (by omega : s.index < m)
  cases spans with
  | nil => exact hrest.ne_nil rfl
  | cons t spans =>
    -- the element behind the shorter first span
    have hnext := heq (s.index + 1) (by omega) (by omega)
    have ht := hrest.head.1
    rw [valueAt_tail (by omega), valueAt, if_pos ht, valueAt, if_pos (by omega), ← hvalue] at hnext
    exact (List.isChain_cons_cons.mp hchanges).1 hnext.symm

/-- **A list of sizes in order** is determined by the size of each element. -/
theorem eq_of_valueAt {m lo : Int} {spans spans' : List SpanData} (h : Ends m lo (spans.map SpanData.index))
    (h' : Ends m lo (spans'.map SpanData.index)) (hchanges : spans.IsChain fun s s' => s.value ≠ s'.value)
    (hchanges' : spans'.IsChain fun s s' => s.value ≠ s'.value)
    (heq : ∀ i, lo ≤ i → i ≤ m → valueAt spans i = valueAt spans' i) : spans = spans' := by
  induction spans generalizing lo spans' with
  | nil => exact absurd rfl h.ne_nil
  | cons s spans ih =>
    cases spans' with
    | nil => exact absurd rfl h'.ne_nil
    | cons s' spans' =>
      have hlo := h.head.1
      have hlo' := h'.head.1
      have hvalue : s.value = s'.value := by
        have hfirst := heq lo (Int.le_refl lo) h.le
        rw [valueAt, if_pos hlo, valueAt, if_pos hlo'] at hfirst
        exact hfirst
      have hindex : s.index = s'.index := Int.le_antisymm
        (index_le_of_valueAt h' h hchanges' hvalue.symm fun i hi him => (heq i hi him).symm)
        (index_le_of_valueAt h h' hchanges hvalue heq)
      obtain ⟨index, value⟩ := s
      obtain ⟨index', value'⟩ := s'
      cases hvalue
      cases hindex
      congr 1
      rcases Int.lt_or_eq_of_le h.head.2 with hlt | hm
      · apply ih (h.tail hlt) (h'.tail hlt) hchanges.tail hchanges'.tail
        intro i hi him
        have hbehind := heq i (by omega) him
        rwa [valueAt_tail hi, valueAt_tail hi] at hbehind
      · rw [List.map_cons, hm] at h h'
        rw [List.map_eq_nil_iff.mp h.eq_nil, List.map_eq_nil_iff.mp h'.eq_nil]

/-- The first span goes as far as the bit does. -/
theorem end_le_of_bitAt {m lo e e' : Int} {es es' : List Int} {bit : Bool} (h : Ends m lo (e :: es))
    (h' : Ends m lo (e' :: es'))
    (heq : ∀ i, lo ≤ i → i ≤ m → bitAt bit (e :: es) i = bitAt bit (e' :: es') i) : e' ≤ e := by
  by_contra hlt
  have hm := h'.head.2
  have hlo := h.head.1
  have hrest := h.tail (by omega : e < m)
  have hnext := heq (e + 1) (by omega) (by omega)
  rw [bitAt, if_neg (by omega), bitAt, if_pos (by omega)] at hnext
  cases es with
  | nil => exact hrest.ne_nil rfl
  | cons e₂ es =>
    have he := hrest.head.1
    rw [bitAt, if_pos he] at hnext
    exact Bool.not_ne_self bit hnext

/-- **A list of bits in order** is determined by the bit of each element. -/
theorem eq_of_bitAt {m lo : Int} {bit bit' : Bool} {es es' : List Int} (h : Ends m lo es) (h' : Ends m lo es')
    (heq : ∀ i, lo ≤ i → i ≤ m → bitAt bit es i = bitAt bit' es' i) : bit = bit' ∧ es = es' := by
  induction es generalizing lo bit bit' es' with
  | nil => exact absurd rfl h.ne_nil
  | cons e es ih =>
    cases es' with
    | nil => exact absurd rfl h'.ne_nil
    | cons e' es' =>
      have hlo := h.head.1
      have hlo' := h'.head.1
      have hbit : bit = bit' := by
        have hfirst := heq lo (Int.le_refl lo) h.le
        rwa [bitAt, if_pos hlo, bitAt, if_pos hlo'] at hfirst
      subst hbit
      have hend : e = e' := Int.le_antisymm
        (end_le_of_bitAt h' h fun i hi him => (heq i hi him).symm) (end_le_of_bitAt h h' heq)
      subst hend
      refine ⟨rfl, ?_⟩
      rcases Int.lt_or_eq_of_le h.head.2 with hlt | rfl
      · congr 1
        have hbehind : ∀ i, e + 1 ≤ i → i ≤ m → bitAt (!bit) es i = bitAt (!bit) es' i := by
          intro i hi him
          have hbit := heq i (by omega) him
          rwa [bitAt, if_neg (by omega), bitAt, if_neg (by omega)] at hbit
        exact (ih (h.tail hlt) (h'.tail hlt) hbehind).2
      · rw [h.eq_nil, h'.eq_nil]

/-- The value at the end of a span is that of the span. -/
theorem valueAt_index {m lo : Int} {spans : List SpanData} (h : Ends m lo (spans.map SpanData.index)) :
    ∀ s ∈ spans, lo ≤ s.index ∧ s.index ≤ m ∧ valueAt spans s.index = s.value := by
  induction spans generalizing lo with
  | nil => exact absurd rfl h.ne_nil
  | cons t spans ih =>
    intro s hs
    obtain ⟨hlo, hm⟩ := h.head
    rcases List.mem_cons.mp hs with rfl | hs
    · exact ⟨hlo, hm, by rw [valueAt, if_pos (Int.le_refl _)]⟩
    · rcases Int.lt_or_eq_of_le hm with hlt | heq
      · obtain ⟨hle, hsm, hvalue⟩ := ih (h.tail hlt) s hs
        exact ⟨by omega, hsm, by rw [valueAt_tail (by omega), hvalue]⟩
      · rw [List.map_cons, heq] at h
        rw [List.map_eq_nil_iff.mp h.eq_nil] at hs
        cases hs

/-! ## Groups -/

/-- What the callers can make of an entry. -/
def OutlineEntry.plain (group : OutlineEntry) : OutlineEntry :=
  ⟨group.start, group.last, if group.hidden ≠ 0 then 1 else 0, 0⟩

def DimensionOutlines.plain (outlines : DimensionOutlines) : DimensionOutlines :=
  outlines.map (List.map OutlineEntry.plain)

/-- The outlines have the same groups, collapsed or not, on the same levels. -/
def SameGroups (outlines outlines' : DimensionOutlines) : Prop := outlines.plain = outlines'.plain

def GroupCall.plain (call : GroupCall) : GroupCall :=
  { call with groupHidden := if call.groupHidden ≠ 0 then 1 else 0 }

theorem directionByGroup_plain (groups : List OutlineEntry) (elementIdx : Int) (i : Nat) :
    directionByGroup (groups.map OutlineEntry.plain) elementIdx i = directionByGroup groups elementIdx i := by
  rw [directionByGroup.eq_def, directionByGroup.eq_def, List.getElem?_map]
  cases groups[i]? with
  | none => rfl
  | some curGroup =>
    rw [Option.map_some]
    dsimp only [OutlineEntry.plain]
    cases i with
    | zero => rfl
    | succ j =>
      dsimp only
      rw [List.getElem?_map]
      cases groups[j]? with
      | none => rfl
      | some prevGroup => rfl

theorem callsFrom_plain (levelIdx : Nat) (groups : List OutlineEntry) (startGroupIdx : Nat) (last : Int) :
    callsFrom levelIdx (groups.map OutlineEntry.plain) startGroupIdx last =
      (callsFrom levelIdx groups startGroupIdx last).map GroupCall.plain := by
  rw [callsFrom, callsFrom, List.zipIdx_map, ← List.map_drop, List.filter_map, List.map_map, List.map_map]
  rfl

theorem callsInLevel_plain (levelIdx : Nat) (groups : List OutlineEntry) (start last : Int) :
    callsInLevel levelIdx (groups.map OutlineEntry.plain) start last =
      (callsInLevel levelIdx groups start last).map GroupCall.plain := by
  have hdirection : directionByGroup (groups.map OutlineEntry.plain) start = directionByGroup groups start :=
    funext (directionByGroup_plain groups start)
  rw [callsInLevel, callsInLevel, hdirection, List.length_map]
  cases binarySearch (directionByGroup groups start) groups.length false with
  | none => rfl
  | some startGroupIdx =>
    dsimp only
    rw [List.getElem?_map]
    cases groups[startGroupIdx]? with
    | none => rfl
    | some startGroup =>
      rw [Option.map_some]
      dsimp only [OutlineEntry.plain]
      rw [callsFrom_plain]
      split
      · rfl
      · rfl

/-- **The callback is called with what is plain of an outline.** -/
theorem forEachGroupInRange_plain (outlines : DimensionOutlines) (start last : Int) :
    outlines.plain.forEachGroupInRange start last =
      (outlines.forEachGroupInRange start last).map GroupCall.plain := by
  have hnil : outlines.plain = [] ↔ outlines = [] := List.map_eq_nil_iff
  rw [DimensionOutlines.forEachGroupInRange, DimensionOutlines.forEachGroupInRange]
  by_cases h : outlines = [] ∨ last < start
  · rw [if_pos h, if_pos (h.imp_left hnil.mpr)]
    rfl
  · rw [if_neg h, if_neg (h ∘ Or.imp_left hnil.mp)]
    rw [DimensionOutlines.plain, List.zipIdx_map, ← List.map_reverse, List.flatMap_map, List.map_flatMap]
    congr 1
    funext level
    exact callsInLevel_plain level.2 level.1 start last

namespace Dimension

open Oxool.Protocol

variable {d d' : Dimension}

theorem groupData_plain (d : Dimension) (call : GroupCall) : d.groupData call.plain = d.groupData call := by
  rw [groupData, groupData, GroupCall.plain]
  by_cases hhidden : call.groupHidden = 0
  · simp only [hhidden, ne_eq, not_true_eq_false, if_false]
  · simp only [hhidden, ne_eq, not_false_eq_true, if_true, Int.one_ne_zero]

/-- The groups that `getGroupsDataInView` answers with. -/
theorem mapM_groupsInView_plain (d : Dimension) :
    ({ d with outlines := d.outlines.plain } : Dimension).groupsInView.mapM d.groupData =
      d.groupsInView.mapM d.groupData := by
  have hmap : ∀ calls : List GroupCall, (calls.map GroupCall.plain).mapM d.groupData = calls.mapM d.groupData := by
    intro calls
    induction calls with
    | nil => rfl
    | cons call calls ih => rw [List.map_cons, List.mapM_cons, List.mapM_cons, ih, groupData_plain]
  have hstarts : (d.outlines.plain.flatten.map OutlineEntry.start) = d.outlines.flatten.map OutlineEntry.start := by
    rw [DimensionOutlines.plain, ← List.map_flatten, List.map_map]
    rfl
  rw [groupsInView.eq_def, groupsInView.eq_def]
  dsimp only
  cases d.viewEndIndex with
  | none => rfl
  | some last =>
    cases last with
    | negInf => rfl
    | int last =>
      dsimp only
      rw [forEachGroupInRange_plain, hmap]
    | nan =>
      dsimp only
      rw [hstarts, forEachGroupInRange_plain, hmap]
    | posInf =>
      dsimp only
      rw [hstarts, forEachGroupInRange_plain, hmap]

/-- The dimensions have the same groups, and the same of everything else. -/
def SameButGroups (d d' : Dimension) : Prop :=
  d' = { d with outlines := d'.outlines } ∧ SameGroups d.outlines d'.outlines

/-- A program that has nothing to do with the groups: it returns or throws the same whatever they are, and leaves
them. -/
def IgnoresGroups {α : Type} (m : Act α) : Prop :=
  ∀ (d : Dimension) (outlines : DimensionOutlines),
    (∃ a d', m d = .ok a d' ∧ d'.outlines = d.outlines ∧
      m { d with outlines := outlines } = .ok a { d' with outlines := outlines }) ∨
    ∃ e d', m d = .error e d' ∧ d'.outlines = d.outlines ∧
      m { d with outlines := outlines } = .error e { d' with outlines := outlines }

theorem IgnoresGroups.respects {α : Type} {m : Act α} (hm : IgnoresGroups m) : Respects SameButGroups m := by
  rintro d d' ⟨heq, hgroups⟩
  rcases hm d d'.outlines with ⟨a, d₁, hrun, hkept, hrun'⟩ | ⟨e, d₁, hrun, hkept, hrun'⟩
  all_goals
    rw [← heq] at hrun'
    rw [outcome, outcome, stateAfter, stateAfter, hrun, hrun']
    refine ⟨rfl, rfl, ?_⟩
    rw [hkept]
    exact hgroups

/-! ### Calls and groups -/

theorem updateVisible_run (d : Dimension) : updateVisible d =
    match d.hidden.union d.filtered with
    | none => .error .undefinedObject { d with visibleSizes := none }
    | some invisible =>
      if d.sizes = [] then .error .undefinedObject d
      else
        match applyZeroValues d.sizes invisible with
        | none => .error .undefinedObject { d with visibleSizes := none }
        | some visibleSizes =>
          .ok () { d with visibleSizes := some (addCustomData d.twipsPerCorePixel (-1) 0 0 visibleSizes) } := by
  show (match d.hidden.union d.filtered with
    | none => _
    | some invisibleSpanList => _ : Act Unit) d = _
  cases d.hidden.union d.filtered with
  | none => rfl
  | some invisible =>
    dsimp only
    split
    · rfl
    · cases applyZeroValues d.sizes invisible with
      | none => rfl
      | some visibleSizes => rfl

theorem ignoresGroups_updateVisible : IgnoresGroups updateVisible := by
  intro d outlines
  rw [updateVisible_run, updateVisible_run]
  dsimp only
  cases d.hidden.union d.filtered with
  | none => exact .inr ⟨_, _, rfl, rfl, rfl⟩
  | some invisible =>
    dsimp only
    by_cases hsizes : d.sizes = []
    · rw [if_pos hsizes, if_pos hsizes]
      exact .inr ⟨_, _, rfl, rfl, rfl⟩
    · rw [if_neg hsizes, if_neg hsizes]
      cases applyZeroValues d.sizes invisible with
      | none => exact .inr ⟨_, _, rfl, rfl, rfl⟩
      | some visibleSizes => exact .inl ⟨_, _, rfl, rfl, rfl⟩

theorem setTileGeometryData_run (tileSizeTwips tileSizePixels : ℚ) (updatePos : Bool) (d : Dimension) :
    setTileGeometryData tileSizeTwips tileSizePixels updatePos d =
      if d.tileSizeTwips = tileSizeTwips ∧ d.tileSizePixels = tileSizePixels then .ok () d
      else if updatePos then
        updatePositions { d with tileSizeTwips := tileSizeTwips, tileSizePixels := tileSizePixels }
      else .ok () { d with tileSizeTwips := tileSizeTwips, tileSizePixels := tileSizePixels } := by
  show (if d.tileSizeTwips = tileSizeTwips ∧ d.tileSizePixels = tileSizePixels then _ else _ : Act Unit) d = _
  split
  · rfl
  · cases updatePos with
    | false => rfl
    | true => rfl

theorem ignoresGroups_setTileGeometryData (tileSizeTwips tileSizePixels : ℚ) (updatePos : Bool) :
    IgnoresGroups (setTileGeometryData tileSizeTwips tileSizePixels updatePos) := by
  intro d outlines
  rw [setTileGeometryData_run, setTileGeometryData_run]
  dsimp only
  by_cases hsame : d.tileSizeTwips = tileSizeTwips ∧ d.tileSizePixels = tileSizePixels
  · rw [if_pos hsame, if_pos hsame]
    exact .inl ⟨_, _, rfl, rfl, rfl⟩
  · rw [if_neg hsame, if_neg hsame]
    cases updatePos with
    | false => exact .inl ⟨_, _, rfl, rfl, rfl⟩
    | true =>
      obtain ⟨sizes, hidden, filtered, _, visibleSizes, maxIndex, _, _, viewStartIndex, viewEndIndex⟩ := d
      cases visibleSizes with
      | none => exact .inr ⟨_, _, rfl, rfl, rfl⟩
      | some spans => exact .inl ⟨_, _, rfl, rfl, rfl⟩

theorem ignoresGroups_setViewLimits (startPosTileTwips endPosTileTwips : ℚ) :
    IgnoresGroups (setViewLimits startPosTileTwips endPosTileTwips) := by
  intro d outlines
  obtain ⟨sizes, hidden, filtered, _, visibleSizes, maxIndex, _, _, viewStartIndex, viewEndIndex⟩ := d
  cases visibleSizes with
  | none => exact .inr ⟨_, _, rfl, rfl, rfl⟩
  | some spans => exact .inl ⟨_, _, rfl, rfl, rfl⟩

theorem respects_loadField {α : Type} (value : Option Json) (parse : Bytes → Option α)
    {set : α → Dimension → Dimension}
    (hset : ∀ a d d', SameButGroups d d' → SameButGroups (set a d) (set a d')) :
    Respects SameButGroups (loadField value parse set) := by
  unfold loadField
  cases value with
  | none => exact respects_pure true
  | some value =>
    dsimp only
    cases value.text?.bind parse with
    | none => exact respects_pure false
    | some loaded =>
      exact respects_bind (respects_modify (hset loaded)) fun _ => respects_pure true

theorem respects_update (jsonObject : Json) : Respects SameButGroups (update jsonObject) := by
  have hkept : ∀ {α : Type} (set : α → Dimension → Dimension),
      (∀ a d outlines, set a { d with outlines := outlines } = { set a d with outlines := outlines }) →
      (∀ a d, (set a d).outlines = d.outlines) →
      ∀ a d d', SameButGroups d d' → SameButGroups (set a d) (set a d') := by
    rintro α set hcomm houtlines a d d' ⟨heq, hgroups⟩
    refine ⟨?_, ?_⟩
    · rw [houtlines, ← hcomm, ← heq]
    · rw [SameGroups, houtlines, houtlines]
      exact hgroups
  have hload : Respects SameButGroups (do
      let sizesOK ← loadField (jsonObject.get? "sizes") parseSpanList fun sizes d => { d with sizes := sizes }
      let hiddenOK ← loadField (jsonObject.get? "hidden") parseBoolSpanList
        fun hidden d => { d with hidden := hidden }
      let filteredOK ← loadField (jsonObject.get? "filtered") parseBoolSpanList
        fun filtered d => { d with filtered := filtered }
      let groupsOK ← loadField (jsonObject.get? "groups") DimensionOutlines.load
        fun outlines d => { d with outlines := outlines }
      let regenerateVisibleSizes := (jsonObject.get? "sizes").isSome || (jsonObject.get? "hidden").isSome ||
        (jsonObject.get? "filtered").isSome
      let loadsOK := sizesOK && hiddenOK && filteredOK && groupsOK
      if loadsOK && regenerateVisibleSizes then updateVisible
      return loadsOK : Act Bool) := by
    apply respects_bind (respects_loadField _ _ (hkept (fun sizes d => { d with sizes := sizes })
      (fun _ _ _ => rfl) fun _ _ => rfl))
    intro sizesOK
    apply respects_bind (respects_loadField _ _ (hkept (fun hidden d => { d with hidden := hidden })
      (fun _ _ _ => rfl) fun _ _ => rfl))
    intro hiddenOK
    apply respects_bind (respects_loadField _ _ (hkept (fun filtered d => { d with filtered := filtered })
      (fun _ _ _ => rfl) fun _ _ => rfl))
    intro filteredOK
    apply respects_bind (respects_loadField _ _ _)
    · intro groupsOK
      apply respects_ite
      · exact respects_bind ignoresGroups_updateVisible.respects fun _ => respects_pure _
      · exact respects_pure _
    · -- both have the groups of the message then
      rintro outlines d d' ⟨heq, -⟩
      exact ⟨by rw [heq], rfl⟩
  rw [update]
  apply respects_ite
  · exact respects_pure false
  · apply respects_ite
    · exact respects_bind (respects_throw _) fun _ => hload
    · exact hload

theorem answer_of_sameButGroups (h : SameButGroups d d') (query : Query) : d'.answer query = d.answer query := by
  obtain ⟨heq, hgroups⟩ := h
  have hlength : d'.outlines.length = d.outlines.length := by
    have hplain := congrArg List.length hgroups
    rw [DimensionOutlines.plain, DimensionOutlines.plain, List.length_map, List.length_map] at hplain
    exact hplain.symm
  have hview : d'.groupsInView.mapM d'.groupData = d.groupsInView.mapM d.groupData := by
    have hdata : d'.groupData = d.groupData := by
      rw [heq]
      rfl
    have hplain : ({ d' with outlines := d'.outlines.plain } : Dimension) =
        { d with outlines := d.outlines.plain } := by
      rw [heq, show d.outlines.plain = d'.outlines.plain from hgroups]
    rw [← mapM_groupsInView_plain d', hplain, hdata, mapM_groupsInView_plain]
  cases query with
  | getGroupLevels =>
    rw [answer, answer, hlength]
  | getGroupsDataInView =>
    rw [answer, answer, hview]
  | _ =>
    rw [heq]
    rfl

theorem respects_call (c : Call) : Respects SameButGroups (call c) := by
  cases c with
  | update jsonObject => exact respects_map _ (respects_update jsonObject)
  | setMaxIndex maxIndex =>
    apply respects_map
    apply respects_modify
    rintro d d' ⟨heq, hgroups⟩
    exact ⟨by rw [heq], hgroups⟩
  | setTileGeometryData tileSizeTwips tileSizePixels updatePos =>
    exact respects_map _ (ignoresGroups_setTileGeometryData _ _ _).respects
  | setViewLimits startPosTileTwips endPosTileTwips =>
    exact respects_map _ (ignoresGroups_setViewLimits _ _).respects
  | ask query =>
    intro d d' h
    have hanswer := answer_of_sameButGroups h query
    show outcome (ask query) d = outcome (ask query) d' ∧
      SameButGroups (stateAfter (ask query) d) (stateAfter (ask query) d')
    rw [outcome, outcome, stateAfter, stateAfter, ask, ask, hanswer]
    cases d.answer query with
    | ok answer => exact ⟨rfl, h⟩
    | error e => exact ⟨rfl, h⟩

/-- **Nobody can tell** what else there is in the entries of an outline. -/
theorem alike_of_sameGroups {outlines : DimensionOutlines} (h : SameGroups outlines d.outlines) :
    Alike call { d with outlines := outlines } d :=
  alike_of respects_call ⟨rfl, h⟩

/-! ## What the sizes are seen to be -/

end Dimension

theorem Ends.le_of_mem {m lo : Int} {es : List Int} (h : Ends m lo es) {e : Int} (he : e ∈ es) : e ≤ m := by
  induction h with
  | last hlo => exact Int.le_of_eq (List.mem_singleton.mp he)
  | cons hlo hlt _ ih =>
    rcases List.mem_cons.mp he with rfl | he
    · exact Int.le_of_lt hlt
    · exact ih he

/-- There is no answer for an element behind the last one. -/
theorem Shows.getElementDataAny_behind {g : Geometry} {d : SheetDimension} (h : Shows g d) {i : Int}
    (hi : g.last < i) (unit : GeometryUnit) : d.getElementDataAny i unit = none := by
  have hnone : binarySearch (directionByIndex d.visibleSizes i) d.visibleSizes.length false = none := by
    refine binarySearch_eq_none (k := d.visibleSizes.length) ?_ ?_ false
    · intro k hk
      have hv : (views 0 d.visibleSizes)[k]? = some _ :=
        List.getElem?_eq_getElem (by rw [length_views]; exact hk)
      have hspan := @getElem?_views 0 d.visibleSizes k
      rw [hv, Option.map_some] at hspan
      have hstart := h.start_le _ (List.mem_of_getElem? hv)
      have hlast := h.ends.le_of_mem (List.mem_map_of_mem (f := Span.index) (List.mem_of_getElem? hspan.symm))
      rw [directionByIndex, hv]
      dsimp only
      rw [if_neg (by omega), if_pos (by omega)]
    · intro k hle hlt
      omega
  rw [SheetDimension.getElementDataAny, getSpanDataByIndex, hnone]
  rfl

/-- What answers the same for every element shows the same elements. -/
theorem Shows.last_le {g g' : Geometry} {d d' : SheetDimension} (h : Shows g d) (h' : Shows g' d')
    (hasks : ∀ i unit, d.getElementDataAny i unit = d'.getElementDataAny i unit) : g'.last ≤ g.last := by
  by_contra hlt
  have hask := hasks g'.last .printtwips
  rw [h.getElementDataAny_behind (by omega), h'.getElementDataAny_eq h'.ends.le (Int.le_refl _)] at hask
  cases hask

theorem Shows.visibleAt_eq {g g' : Geometry} {d d' : SheetDimension} (h : Shows g d) (h' : Shows g' d')
    (hasks : ∀ i unit, d.getElementDataAny i unit = d'.getElementDataAny i unit) :
    g.last = g'.last ∧ ∀ i, 0 ≤ i → i ≤ g.last → g.visibleAt i = g'.visibleAt i := by
  have hlast : g.last = g'.last := Int.le_antisymm (h'.last_le h fun i unit => (hasks i unit).symm)
    (h.last_le h' hasks)
  refine ⟨hlast, fun i hi him => ?_⟩
  have hask := hasks i .printtwips
  rw [h.getElementDataAny_eq hi him, h'.getElementDataAny_eq hi (hlast ▸ him)] at hask
  exact (DimensionPosSize.mk.inj (Option.some.inj hask)).2

namespace Dimension

variable {d d' : Dimension}

/-- What is answered for an element, if there are visible sizes. -/
theorem outcome_getElementDataAny (d : Dimension) (i : Int) (unit : GeometryUnit) :
    outcome (call (.ask (.getElementDataAny i unit))) d =
      match d.visibleSizes with
      | none => .error .undefinedObject
      | some spans => .ok (.posSize ((d.shown spans).getElementDataAny i unit)) := by
  have hanswer : d.answer (.getElementDataAny i unit) =
      match d.visibleSizes with
      | none => .error .undefinedObject
      | some spans => .ok (.posSize ((d.shown spans).getElementDataAny i unit)) := by
    show (orThrow d.visibleSizes).bind _ = _
    cases d.visibleSizes with
    | none => rfl
    | some spans => rfl
  show outcome (ask (.getElementDataAny i unit)) d = _
  rw [outcome, ask, hanswer]
  cases d.visibleSizes with
  | none => rfl
  | some spans => rfl

theorem asks_of_alike (h : Alike call d' d) {spans spans' : List Span} (hspans : d.visibleSizes = some spans)
    (hspans' : d'.visibleSizes = some spans') (i : Int) (unit : GeometryUnit) :
    (d'.shown spans').getElementDataAny i unit = (d.shown spans).getElementDataAny i unit := by
  have hask := h.outcome_eq (.ask (.getElementDataAny i unit))
  rw [outcome_getElementDataAny, outcome_getElementDataAny, hspans, hspans'] at hask
  exact Answer.posSize.inj (Except.ok.inj hask)

/-- Where one of the two has visible sizes the other has some. -/
theorem exists_visibleSizes_of_alike (h : Alike call d' d) {spans' : List Span}
    (hspans' : d'.visibleSizes = some spans') : ∃ spans, d.visibleSizes = some spans := by
  have hask := h.outcome_eq (.ask (.getElementDataAny 0 .printtwips))
  rw [outcome_getElementDataAny, outcome_getElementDataAny, hspans'] at hask
  cases hspans : d.visibleSizes with
  | none =>
    rw [hspans] at hask
    cases hask
  | some spans => exact ⟨spans, rfl⟩

/-- The visible sizes that are made of the lists of a geometry. -/
theorem exists_visible (g : Geometry) :
    ∃ visible, (g.hidden.union g.filtered).bind (applyZeroValues g.sizes) = some visible ∧
      SizesInOrder g.last visible ∧ ∀ i, i ≤ g.last → valueAt visible i = g.visibleAt i := by
  obtain ⟨invisible, hunion, hinvisible, hbits⟩ := union_spec g.hidden_ends g.filtered_ends
  obtain ⟨visible, hzero, hends, hchanges, hvalues⟩ := applyZeroValues_spec g.sizes_ends hinvisible
  have hvisible : ∀ i, i ≤ g.last → valueAt visible i = g.visibleAt i := by
    intro i hi
    rw [hvalues i hi, hbits i hi]
    rfl
  refine ⟨visible, ?_, ⟨hends, fun s hs => ?_, hchanges⟩, hvisible⟩
  · rw [hunion, Option.bind_some, hzero]
  · obtain ⟨-, hle, hvalue⟩ := valueAt_index hends s hs
    rw [← hvalue, hvisible _ hle]
    exact g.visibleAt_nonneg s.index

theorem regenerated_shows {g : Geometry} (hsizes : d.sizes = g.sizes) (hhidden : d.hidden = g.hidden)
    (hfiltered : d.filtered = g.filtered) :
    ∃ spans, d.regenerated.visibleSizes = some spans ∧ Shows g (d.regenerated.shown spans) := by
  obtain ⟨visible, hvisible, hinorder, hvalues⟩ := exists_visible g
  rw [regenerated, hsizes, hhidden, hfiltered, hvisible]
  exact ⟨_, rfl, .of_visible hinorder.ends hvalues rfl⟩

/-! ## Lists of a message -/

/-- A message with some of the lists. -/
def lists (sizes : Option (List SpanData)) (hidden filtered : Option BoolSpanList) : Json :=
  .object ((sizes.map fun sizes => (ascii "sizes", Json.text (encodeSpans sizes))).toList ++
    ((hidden.map fun hidden => (ascii "hidden", Json.text (encodeBits hidden))).toList ++
      (filtered.map fun filtered => (ascii "filtered", Json.text (encodeBits filtered))).toList))

/-- The dimension with some of the lists. -/
def withLists (d : Dimension) (sizes : Option (List SpanData)) (hidden filtered : Option BoolSpanList) :
    Dimension :=
  { d with sizes := sizes.getD d.sizes, hidden := hidden.getD d.hidden, filtered := filtered.getD d.filtered }

section
variable {sizes : Option (List SpanData)} {hidden filtered : Option BoolSpanList}

theorem get?_lists : (lists sizes hidden filtered).get? "sizes" = sizes.map (fun s => .text (encodeSpans s)) ∧
    (lists sizes hidden filtered).get? "hidden" = hidden.map (fun b => .text (encodeBits b)) ∧
    (lists sizes hidden filtered).get? "filtered" = filtered.map (fun b => .text (encodeBits b)) ∧
    (lists sizes hidden filtered).get? "groups" = none := by
  cases sizes <;> cases hidden <;> cases filtered <;> exact ⟨rfl, rfl, rfl, rfl⟩

/-- **The lists of the message are loaded.** -/
theorem update_lists (hsizes : ∀ s ∈ sizes, s ≠ []) (hhidden : ∀ b ∈ hidden, b.spanlist ≠ [])
    (hfiltered : ∀ b ∈ filtered, b.spanlist ≠ [])
    (hsome : (sizes.isSome || hidden.isSome || filtered.isSome) = true) (d : Dimension) :
    update (lists sizes hidden filtered) d =
      (do updateVisible; return true : Act Bool) (d.withLists sizes hidden filtered) := by
  obtain ⟨hget, hget', hget'', hgroups⟩ := @get?_lists sizes hidden filtered
  have hloaded : loaded (some (lists sizes hidden filtered)) "sizes" parseSpanList = sizes := by
    rw [loaded, Option.bind_some, hget]
    cases sizes with
    | none => rfl
    | some s => exact parseSpanList_encodeSpans (hsizes s rfl)
  have hloaded' : loaded (some (lists sizes hidden filtered)) "hidden" parseBoolSpanList = hidden := by
    rw [loaded, Option.bind_some, hget']
    cases hidden with
    | none => rfl
    | some b => exact parseBoolSpanList_encodeBits (hhidden b rfl)
  have hloaded'' : loaded (some (lists sizes hidden filtered)) "filtered" parseBoolSpanList = filtered := by
    rw [loaded, Option.bind_some, hget'']
    cases filtered with
    | none => rfl
    | some b => exact parseBoolSpanList_encodeBits (hfiltered b rfl)
  have hnogroups : loaded (some (lists sizes hidden filtered)) "groups" DimensionOutlines.load = none := by
    rw [loaded, Option.bind_some, hgroups]
    rfl
  have hloads : loads (some (lists sizes hidden filtered)) = true := by
    rw [loads, fieldLoads, fieldLoads, fieldLoads, fieldLoads, hloaded, hloaded', hloaded'', Option.bind_some,
      Option.bind_some, Option.bind_some, Option.bind_some, hget, hget', hget'', hgroups]
    cases sizes <;> cases hidden <;> cases filtered <;> rfl
  have hlists : hasLists (some (lists sizes hidden filtered)) = true := by
    rw [hasLists, Option.bind_some, Option.bind_some, Option.bind_some, hget, hget', hget'', Option.isSome_map,
      Option.isSome_map, Option.isSome_map]
    exact hsome
  rw [update_run rfl rfl, hloads, hlists, Bool.and_self, if_pos rfl, withLoaded, hloaded, hloaded', hloaded'',
    hnogroups]
  rfl

/-- **Other lists tell no more**: an update with lists throws for both dimensions, or leaves both alike. -/
theorem alike_withLists (h : Alike call d' d) (hsizes : ∀ s ∈ sizes, s ≠ [])
    (hhidden : ∀ b ∈ hidden, b.spanlist ≠ []) (hfiltered : ∀ b ∈ filtered, b.spanlist ≠ [])
    (hsome : (sizes.isSome || hidden.isSome || filtered.isSome) = true)
    (hfits : (d'.withLists sizes hidden filtered).Fits) :
    (d.withLists sizes hidden filtered).Fits ∧
      Alike call (d'.withLists sizes hidden filtered).regenerated (d.withLists sizes hidden filtered).regenerated := by
  have hrun := update_lists hsizes hhidden hfiltered hsome
  have hrun' : call (.update (lists sizes hidden filtered)) d' =
      .ok (.bool true) (d'.withLists sizes hidden filtered).regenerated := by
    show (Answer.bool <$> update (lists sizes hidden filtered)) d' = _
    have hok : update (lists sizes hidden filtered) d' =
        .ok true (d'.withLists sizes hidden filtered).regenerated := by
      rw [hrun, bind_of_ok (updateVisible_of_fits hfits)]
      rfl
    exact bind_of_ok hok
  have houtcome := h.outcome_eq (.update (lists sizes hidden filtered))
  have hafter := h.stateAfter (.update (lists sizes hidden filtered))
  rw [outcome, hrun'] at houtcome
  rw [Oxool.stateAfter, hrun'] at hafter
  by_cases hfits' : (d.withLists sizes hidden filtered).Fits
  · have hrun'' : call (.update (lists sizes hidden filtered)) d =
        .ok (.bool true) (d.withLists sizes hidden filtered).regenerated := by
      have hok : update (lists sizes hidden filtered) d =
          .ok true (d.withLists sizes hidden filtered).regenerated := by
        rw [hrun, bind_of_ok (updateVisible_of_fits hfits')]
        rfl
      exact bind_of_ok hok
    rw [Oxool.stateAfter, hrun''] at hafter
    exact ⟨hfits', hafter⟩
  · obtain ⟨d'', hthrows⟩ := updateVisible_of_not_fits hfits'
    have hrun'' : call (.update (lists sizes hidden filtered)) d = .error .undefinedObject d'' := by
      have herror : update (lists sizes hidden filtered) d = .error .undefinedObject d'' := by
        rw [hrun, bind_of_error hthrows]
      exact bind_of_error herror
    rw [outcome, hrun''] at houtcome
    cases houtcome

/-- The elements are seen alike after an update with lists, whatever geometries these and the kept lists make. -/
theorem visibleAt_eq_of_alike (h : Alike call d' d) (hsizes : ∀ s ∈ sizes, s ≠ [])
    (hhidden : ∀ b ∈ hidden, b.spanlist ≠ []) (hfiltered : ∀ b ∈ filtered, b.spanlist ≠ [])
    (hsome : (sizes.isSome || hidden.isSome || filtered.isSome) = true)
    (hfits : (d'.withLists sizes hidden filtered).Fits) (g g' : Geometry)
    (hg : g.sizes = sizes.getD d.sizes ∧ g.hidden = hidden.getD d.hidden ∧ g.filtered = filtered.getD d.filtered)
    (hg' : g'.sizes = sizes.getD d'.sizes ∧ g'.hidden = hidden.getD d'.hidden ∧
      g'.filtered = filtered.getD d'.filtered) :
    ∀ i, 0 ≤ i → i ≤ g'.last → g'.visibleAt i = g.visibleAt i := by
  obtain ⟨-, halike⟩ := alike_withLists h hsizes hhidden hfiltered hsome hfits
  obtain ⟨spans, hspans, hshows⟩ := @regenerated_shows (d.withLists sizes hidden filtered) g hg.1.symm hg.2.1.symm
    hg.2.2.symm
  obtain ⟨spans', hspans', hshows'⟩ := @regenerated_shows (d'.withLists sizes hidden filtered) g' hg'.1.symm
    hg'.2.1.symm hg'.2.2.symm
  exact (hshows'.visibleAt_eq hshows (asks_of_alike halike hspans hspans')).2

end

/-! ## Lists that can be told -/

/-- No element is marked. -/
def noneMarked (last : Int) : BoolSpanList := ⟨false, [last]⟩

theorem bitAt_noneMarked (last i : Int) : bitAt (noneMarked last).startBit (noneMarked last).spanlist i = decide (last < i) := by
  rw [noneMarked, bitAt, bitAt]
  split
  · exact (decide_eq_false (by omega)).symm
  · exact (decide_eq_true (by omega)).symm

theorem mem_some_noneMarked {last : Int} : ∀ b ∈ some (noneMarked last), b.spanlist ≠ [] := by
  intro b hb
  cases hb
  exact List.cons_ne_nil _ _

/-- **The sizes** are seen where no element is hidden or filtered. -/
theorem sizes_eq_of_alike (h : Alike call d' d) {last : Int} (hsizes' : SizesInOrder last d'.sizes)
    (hsizes : d.sizes = [] ∨ ∃ last, SizesInOrder last d.sizes) : d'.sizes = d.sizes := by
  have hlast0 : (0 : Int) ≤ last := hsizes'.ends.le
  have hlast' : d'.sizes.getLast?.map SpanData.index = some last := by
    rw [← List.getLast?_map]
    exact hsizes'.ends.getLast?
  have hfits : (d'.withLists none (some (noneMarked last)) (some (noneMarked last))).Fits := by
    refine ⟨fun hnil => hsizes'.ends.ne_nil ?_, hlast', rfl⟩
    show d'.sizes.map SpanData.index = []
    rw [show d'.sizes = [] from hnil]
    rfl
  have hnone : ∀ s ∈ (none : Option (List SpanData)), s ≠ [] := by
    intro s hs
    cases hs
  obtain ⟨⟨hne, heq, -⟩, -⟩ := alike_withLists h hnone mem_some_noneMarked mem_some_noneMarked rfl hfits
  obtain ⟨last₀, hsizes⟩ := hsizes.resolve_left hne
  have hlast : last₀ = last := by
    have hget := hsizes.ends.getLast?
    rw [List.getLast?_map, show d.sizes.getLast?.map SpanData.index = some last from heq] at hget
    exact (Option.some.inj hget).symm
  subst hlast
  have hvisible : ∀ i, 0 ≤ i → i ≤ last₀ → _ := visibleAt_eq_of_alike h hnone mem_some_noneMarked
    mem_some_noneMarked rfl hfits
    ⟨d.sizes, noneMarked last₀, noneMarked last₀, last₀, hsizes.nonneg, hsizes.ends, .last hlast0, .last hlast0⟩
    ⟨d'.sizes, noneMarked last₀, noneMarked last₀, last₀, hsizes'.nonneg, hsizes'.ends, .last hlast0, .last hlast0⟩
    ⟨rfl, rfl, rfl⟩ ⟨rfl, rfl, rfl⟩
  apply eq_of_valueAt hsizes'.ends hsizes.ends hsizes'.changes hsizes.changes
  intro i hi him
  have hvalue := hvisible i hi him
  simp only [Geometry.visibleAt, bitAt_noneMarked, decide_eq_false (not_lt.mpr him), Bool.or_self,
    Bool.false_eq_true, if_false] at hvalue
  exact hvalue

/-- Every element has the size one. -/
def ones (last : Int) : List SpanData := [⟨last, 1⟩]

theorem mem_some_ones {last : Int} : ∀ s ∈ some (ones last), s ≠ [] := by
  intro s hs
  cases hs
  exact List.cons_ne_nil _ _

/-- The geometry of elements of size one. -/
def onesGeometry {last : Int} {hidden filtered : BoolSpanList} (hhidden : Ends last 0 hidden.spanlist)
    (hfiltered : Ends last 0 filtered.spanlist) : Geometry where
  sizes := ones last
  hidden := hidden
  filtered := filtered
  last := last
  nonneg := by
    intro s hs
    rw [List.mem_singleton.mp hs]
    exact Int.one_nonneg
  sizes_ends := .last hhidden.le
  hidden_ends := hhidden
  filtered_ends := hfiltered

/-- An element of size one is seen, or it is not. -/
theorem visibleAt_onesGeometry {last : Int} {hidden filtered : BoolSpanList} (hhidden : Ends last 0 hidden.spanlist)
    (hfiltered : Ends last 0 filtered.spanlist) {i : Int} (hi : i ≤ last) :
    (onesGeometry hhidden hfiltered).visibleAt i =
      if bitAt hidden.startBit hidden.spanlist i || bitAt filtered.startBit filtered.spanlist i then 0 else 1 := by
  show (if _ then 0 else valueAt [⟨last, 1⟩] i) = _
  rw [valueAt, if_pos hi]
  rfl

theorem bit_eq_of_visible {b b' : Bool} (h : (if b then (0 : Int) else 1) = if b' then 0 else 1) : b = b' := by
  cases b <;> cases b' <;> first | rfl | cases h

theorem bitList_eq {last : Int} {b b' : BoolSpanList} (h : Ends last 0 b.spanlist) (h' : Ends last 0 b'.spanlist)
    (heq : ∀ i, 0 ≤ i → i ≤ last → bitAt b'.startBit b'.spanlist i = bitAt b.startBit b.spanlist i) : b' = b := by
  obtain ⟨startBit, spanlist⟩ := b
  obtain ⟨startBit', spanlist'⟩ := b'
  obtain ⟨rfl, rfl⟩ := eq_of_bitAt h' h heq
  rfl

/-- A list that ends where another does. -/
theorem ends_of_getLast? {last : Int} {es : List Int} (h : es = [] ∨ ∃ last, Ends last 0 es)
    (hlast : es.getLast? = some last) : Ends last 0 es := by
  rcases h with rfl | ⟨last', h⟩
  · cases hlast
  · rw [h.getLast?] at hlast
    exact Option.some.inj hlast ▸ h

/-- **The hidden elements** are seen not to be there where all have the size one and none is filtered. -/
theorem hidden_eq_of_alike (h : Alike call d' d) {last : Int} (hhidden' : Ends last 0 d'.hidden.spanlist)
    (hhidden : d.hidden.spanlist = [] ∨ ∃ last, Ends last 0 d.hidden.spanlist) : d'.hidden = d.hidden := by
  have hnone : Ends last 0 (noneMarked last).spanlist := .last hhidden'.le
  have hfits : (d'.withLists (some (ones last)) none (some (noneMarked last))).Fits :=
    ⟨List.cons_ne_nil _ _, hhidden'.getLast?.symm, hhidden'.getLast?⟩
  have hno : ∀ b ∈ (none : Option BoolSpanList), b.spanlist ≠ [] := by
    intro b hb
    cases hb
  obtain ⟨⟨-, heq, -⟩, -⟩ := alike_withLists h mem_some_ones hno mem_some_noneMarked rfl hfits
  have hhidden : Ends last 0 d.hidden.spanlist := ends_of_getLast? hhidden (Eq.symm heq)
  apply bitList_eq hhidden hhidden'
  intro i hi him
  have hvisible := visibleAt_eq_of_alike h mem_some_ones hno mem_some_noneMarked rfl hfits
    (onesGeometry hhidden hnone) (onesGeometry hhidden' hnone) ⟨rfl, rfl, rfl⟩ ⟨rfl, rfl, rfl⟩ i hi him
  rw [visibleAt_onesGeometry hhidden hnone him, visibleAt_onesGeometry hhidden' hnone him, bitAt_noneMarked,
    decide_eq_false (not_lt.mpr him), Bool.or_false, Bool.or_false] at hvisible
  exact bit_eq_of_visible hvisible

/-- **The filtered elements** likewise. -/
theorem filtered_eq_of_alike (h : Alike call d' d) {last : Int} (hfiltered' : Ends last 0 d'.filtered.spanlist)
    (hfiltered : d.filtered.spanlist = [] ∨ ∃ last, Ends last 0 d.filtered.spanlist) :
    d'.filtered = d.filtered := by
  have hnone : Ends last 0 (noneMarked last).spanlist := .last hfiltered'.le
  have hfits : (d'.withLists (some (ones last)) (some (noneMarked last)) none).Fits :=
    ⟨List.cons_ne_nil _ _, rfl, hfiltered'.getLast?.symm⟩
  have hno : ∀ b ∈ (none : Option BoolSpanList), b.spanlist ≠ [] := by
    intro b hb
    cases hb
  obtain ⟨⟨-, -, heq⟩, -⟩ := alike_withLists h mem_some_ones mem_some_noneMarked hno rfl hfits
  have hfiltered : Ends last 0 d.filtered.spanlist := ends_of_getLast? hfiltered (Eq.symm heq)
  apply bitList_eq hfiltered hfiltered'
  intro i hi him
  have hvisible := visibleAt_eq_of_alike h mem_some_ones mem_some_noneMarked hno rfl hfits
    (onesGeometry hnone hfiltered) (onesGeometry hnone hfiltered') ⟨rfl, rfl, rfl⟩ ⟨rfl, rfl, rfl⟩ i hi him
  rw [visibleAt_onesGeometry hnone hfiltered him, visibleAt_onesGeometry hnone hfiltered' him, bitAt_noneMarked,
    decide_eq_false (not_lt.mpr him), Bool.false_or, Bool.false_or] at hvisible
  exact bit_eq_of_visible hvisible

/-! ## Visible sizes -/

/-- The visible sizes are those of sizes in order, at this zoom. -/
def SeenInOrder (twipsPerCorePixel : ℚ) (spans : List Span) : Prop :=
  ∃ last visible, SizesInOrder last visible ∧ spans = addCustomData twipsPerCorePixel (-1) 0 0 visible

/-- **The visible sizes** are seen as they are. -/
theorem visibleSizes_eq_of_alike (h : Alike call d' d) {spans spans' : List Span}
    (hspans : d.visibleSizes = some spans) (hspans' : d'.visibleSizes = some spans')
    (hzoom : d'.twipsPerCorePixel = d.twipsPerCorePixel) (hseen : SeenInOrder d.twipsPerCorePixel spans)
    (hseen' : SeenInOrder d.twipsPerCorePixel spans') : spans' = spans := by
  -- sizes of which none is hidden are a geometry
  have hshows : ∀ {d : Dimension} {spans : List Span} {last : Int} {visible : List SpanData}
      (hvisible : SizesInOrder last visible), spans = addCustomData d.twipsPerCorePixel (-1) 0 0 visible →
      Shows ⟨visible, noneMarked last, noneMarked last, last, hvisible.nonneg, hvisible.ends,
        .last hvisible.ends.le, .last hvisible.ends.le⟩ (d.shown spans) := by
    intro d spans last visible hvisible heq
    refine .of_visible hvisible.ends (fun i hi => ?_) heq
    have hmarked : bitAt (noneMarked last).startBit (noneMarked last).spanlist i = false := by
      rw [bitAt_noneMarked, decide_eq_false (not_lt.mpr hi)]
    rw [Geometry.visibleAt, hmarked]
    rfl
  obtain ⟨last, visible, hvisible, heq⟩ := hseen
  obtain ⟨last', visible', hvisible', heq'⟩ := hseen'
  rw [← hzoom] at heq'
  obtain ⟨hlast, hvalues⟩ := (hshows hvisible' heq').visibleAt_eq (hshows hvisible heq)
    (asks_of_alike h hspans hspans')
  change last' = last at hlast
  subst hlast
  have hsame : visible' = visible := by
    apply eq_of_valueAt hvisible'.ends hvisible.ends hvisible'.changes hvisible.changes
    intro i hi him
    have hvalue := hvalues i hi him
    simp only [Geometry.visibleAt, bitAt_noneMarked, decide_eq_false (not_lt.mpr him), Bool.or_self,
      Bool.false_eq_true, if_false] at hvalue
    exact hvalue
  rw [heq, heq', hsame, hzoom]

/-! ## Groups that can be told -/

/-- The calls for all groups of all levels. -/
def allCalls (outlines : DimensionOutlines) : List GroupCall :=
  outlines.zipIdx.reverse.flatMap fun level => level.1.zipIdx.map (OutlineEntry.call level.2)

/-- The data of a group where each element is one pixel. -/
def dataOf (call : GroupCall) : GroupData :=
  ⟨call.levelIdx + 1, call.groupIdx, call.groupStart, call.groupEnd + 1, call.groupHidden ≠ 0⟩

theorem allCalls_concat (outlines : DimensionOutlines) (groups : List OutlineEntry) :
    allCalls (outlines ++ [groups]) =
      groups.zipIdx.map (OutlineEntry.call outlines.length) ++ allCalls outlines := by
  rw [allCalls, List.zipIdx_append, List.zipIdx_singleton, List.reverse_append, List.reverse_singleton,
    List.flatMap_append, List.flatMap_singleton, Nat.zero_add]
  rfl

/-- The groups of a level are told by their data. -/
theorem plain_of_dataOf (levelIdx : Nat) {groups groups' : List OutlineEntry} {k : Nat}
    (h : ((groups.zipIdx k).map (OutlineEntry.call levelIdx)).map dataOf =
      ((groups'.zipIdx k).map (OutlineEntry.call levelIdx)).map dataOf) :
    groups.map OutlineEntry.plain = groups'.map OutlineEntry.plain := by
  induction groups generalizing groups' k with
  | nil =>
    cases groups' with
    | nil => rfl
    | cons g' groups' => cases h
  | cons g groups ih =>
    cases groups' with
    | nil => cases h
    | cons g' groups' =>
      rw [List.zipIdx_cons, List.zipIdx_cons, List.map_cons, List.map_cons, List.map_cons, List.map_cons] at h
      obtain ⟨hhead, htail⟩ := List.cons.inj h
      simp only [dataOf, OutlineEntry.call, GroupData.mk.injEq, true_and] at hhead
      obtain ⟨hstart, hlast, hhidden⟩ := hhead
      have hcollapsed : g.hidden ≠ 0 ↔ g'.hidden ≠ 0 := decide_eq_decide.mp hhidden
      have hplain : g.plain = g'.plain := by
        rw [OutlineEntry.plain, OutlineEntry.plain, hstart, add_right_cancel hlast]
        simp only [hcollapsed]
      rw [List.map_cons, List.map_cons, hplain, ih htail]

/-- **The groups** are told by their data, level after level. -/
theorem sameGroups_of_dataOf {outlines outlines' : DimensionOutlines} (hlength : outlines.length = outlines'.length)
    (h : (allCalls outlines).map dataOf = (allCalls outlines').map dataOf) : SameGroups outlines outlines' := by
  induction outlines using List.reverseRecOn generalizing outlines' with
  | nil =>
    rw [List.length_nil] at hlength
    rw [List.eq_nil_of_length_eq_zero hlength.symm]
    rfl
  | append_singleton outlines groups ih =>
    rcases List.eq_nil_or_concat outlines' with rfl | ⟨outlines', groups', rfl⟩
    · simp at hlength
    · rw [List.concat_eq_append] at hlength h ⊢
      rw [List.length_append, List.length_append] at hlength
      have hsame : outlines.length = outlines'.length := Nat.add_right_cancel hlength
      rw [allCalls_concat, allCalls_concat, List.map_append, List.map_append, ← hsame] at h
      -- the data of the last level are those with its number
      have hlevel : ∀ (groups : List OutlineEntry) (data : GroupData),
          data ∈ (groups.zipIdx.map (OutlineEntry.call outlines.length)).map dataOf →
          decide (data.level = outlines.length + 1) = true := by
        intro groups data hdata
        rw [List.map_map] at hdata
        obtain ⟨group, -, rfl⟩ := List.mem_map.mp hdata
        exact decide_eq_true rfl
      have hbelow : ∀ os : DimensionOutlines, os.length = outlines.length → ∀ data ∈ (allCalls os).map dataOf,
          ¬ decide (data.level = outlines.length + 1) = true := by
        intro os hos data hdata
        obtain ⟨call, hcall, rfl⟩ := List.mem_map.mp hdata
        obtain ⟨level, hmem, hcall⟩ := List.mem_flatMap.mp hcall
        obtain ⟨group, -, rfl⟩ := List.mem_map.mp hcall
        have hlt := List.snd_lt_of_mem_zipIdx (List.mem_reverse.mp hmem)
        rw [decide_eq_true_eq]
        show level.2 + 1 ≠ _
        omega
      have hfilter := congrArg (List.filter fun data => decide (data.level = outlines.length + 1)) h
      rw [List.filter_append, List.filter_append, List.filter_eq_self.mpr (hlevel groups),
        List.filter_eq_self.mpr (hlevel groups'), List.filter_eq_nil_iff.mpr (hbelow outlines rfl),
        List.filter_eq_nil_iff.mpr (hbelow outlines' hsame.symm), List.append_nil, List.append_nil] at hfilter
      rw [hfilter] at h
      have hrest := ih hsame (List.append_cancel_left h)
      rw [SameGroups, DimensionOutlines.plain, DimensionOutlines.plain, List.map_append, List.map_append,
        show outlines.map (List.map OutlineEntry.plain) = outlines'.map (List.map OutlineEntry.plain) from hrest,
        List.map_singleton, List.map_singleton, plain_of_dataOf _ hfilter]

/-! A dimension is brought to show its groups: each element is made one twip and one pixel, and the view is set
behind the last of them, so that the groups in view are all there are. -/

/-- A dimension of elements of size one, all of them before the end of the view. -/
def laidOut (outlines : DimensionOutlines) (last : Int) : Dimension :=
  ⟨ones last, noneMarked last, noneMarked last, outlines, some (addCustomData (1 / 1) (-1) 0 0 (ones last)),
    some last, 1, 1, some (.int last), some (.int last)⟩

theorem visible_ones (last : Int) :
    ((noneMarked last).union (noneMarked last)).bind (applyZeroValues (ones last)) = some (ones last) := by
  simp [noneMarked, ones, BoolSpanList.union, unionLoop, applyZeroValues, zeroLoop]

/-- The position behind the last element is the limit. -/
theorem getIndexFromTileTwipsPos_ones (outlines : DimensionOutlines) {last : Int} (hlast : 0 ≤ last) :
    (laidOut outlines last).getIndexFromTileTwipsPos (addCustomData (1 / 1) (-1) 0 0 (ones last)) (last + 2 : ℚ) =
      .int last := by
  have hnone : getSpanDataByCustomDataField Span.postiletwips (addCustomData (1 / 1) (-1) 0 0 (ones last))
      (last + 2 : ℚ) = none := by
    rw [getSpanDataByCustomDataField, binarySearch_eq_none (k := 1)]
    · rfl
    · intro i hi
      obtain rfl : i = 0 := by omega
      have hpos : ¬ ((last : ℚ) + 2 < 0) := by
        have : (0 : ℚ) ≤ last := by exact_mod_cast hlast
        linarith
      simp [directionByField, ones, addCustomData, hpos]
    · intro i hi hlt
      rw [ones, addCustomData, addCustomData, List.length_singleton] at hlt
      omega
  have hpos : (0 : ℚ) ≤ last + 2 := by
    have : (0 : ℚ) ≤ last := by exact_mod_cast hlast
    linarith
  rw [getIndexFromTileTwipsPos, hnone]
  dsimp only
  rw [if_pos hpos]
  rfl

theorem alike_laidOut (h : Alike call d' d) {last : Int} (hlast : 0 ≤ last) :
    Alike call (laidOut d'.outlines last) (laidOut d.outlines last) := by
  have hzoom : ∀ d : Dimension, stateAfter (call (.setTileGeometryData 1 1 false)) d =
      { d with tileSizeTwips := 1, tileSizePixels := 1 } := by
    intro d
    show stateAfter ((fun _ => Answer.done) <$> setTileGeometryData 1 1 false) d = _
    rw [stateAfter_map, stateAfter, setTileGeometryData_run]
    by_cases hsame : d.tileSizeTwips = 1 ∧ d.tileSizePixels = 1
    · rw [if_pos hsame]
      obtain ⟨_, _, _, _, _, _, _, _, _, _⟩ := d
      obtain ⟨rfl, rfl⟩ := hsame
      rfl
    · rw [if_neg hsame]
      rfl
  have hfits : ∀ d : Dimension,
      (d.withLists (some (ones last)) (some (noneMarked last)) (some (noneMarked last))).Fits :=
    fun d => ⟨List.cons_ne_nil _ _, rfl, rfl⟩
  have hregenerated : ∀ d : Dimension, d.twipsPerCorePixel = 1 / 1 →
      (d.withLists (some (ones last)) (some (noneMarked last)) (some (noneMarked last))).regenerated =
        { d.withLists (some (ones last)) (some (noneMarked last)) (some (noneMarked last)) with
          visibleSizes := some (addCustomData (1 / 1) (-1) 0 0 (ones last)) } := by
    intro d hzoom
    rw [regenerated, show (d.withLists (some (ones last)) (some (noneMarked last))
      (some (noneMarked last))).twipsPerCorePixel = 1 / 1 from hzoom]
    show (match ((noneMarked last).union (noneMarked last)).bind (applyZeroValues (ones last)) with
      | none => _
      | some visibleSizes => _) = _
    rw [visible_ones]
  have hview : ∀ d : Dimension, d.tileSizeTwips = 1 → d.tileSizePixels = 1 → d.maxIndex = some last →
      stateAfter (call (.setViewLimits (last + 2) (last + 2)))
        { d.withLists (some (ones last)) (some (noneMarked last)) (some (noneMarked last)) with
          visibleSizes := some (addCustomData (1 / 1) (-1) 0 0 (ones last)) } = laidOut d.outlines last := by
    rintro ⟨_, _, _, outlines, _, _, _, _, _, _⟩ rfl rfl rfl
    show stateAfter ((fun _ => Answer.done) <$> setViewLimits _ _) _ = _
    rw [stateAfter_map, stateAfter]
    have hend := getIndexFromTileTwipsPos_ones outlines hlast
    have hstart : Number.atLeastZero (.int last) = .int last := congrArg Number.int (max_eq_right hlast)
    have hlimit : (Number.int last).atMost (some last) = .int last := congrArg Number.int (min_self last)
    show (⟨ones last, noneMarked last, noneMarked last, outlines,
      some (addCustomData (1 / 1) (-1) 0 0 (ones last)), some last, 1, 1,
      some ((laidOut outlines last).getIndexFromTileTwipsPos _ (last + 2)).atLeastZero,
      some (((laidOut outlines last).getIndexFromTileTwipsPos _ (last + 2)).atMost (some last))⟩ : Dimension) = _
    rw [hend, hstart, hlimit]
    rfl
  have h₁ := h.stateAfter (.setTileGeometryData 1 1 false)
  rw [hzoom, hzoom] at h₁
  have h₂ := h₁.stateAfter (.setMaxIndex last)
  obtain ⟨-, h₃⟩ := alike_withLists h₂ mem_some_ones mem_some_noneMarked mem_some_noneMarked rfl (hfits _)
  rw [hregenerated _ rfl, hregenerated _ rfl] at h₃
  have h₄ := h₃.stateAfter (.setViewLimits (last + 2) (last + 2))
  rw [hview _ rfl rfl rfl, hview _ rfl rfl rfl] at h₄
  exact h₄

/-- An element is where its number is. -/
theorem getElementData_laidOut (outlines : DimensionOutlines) {last i : Int} (hi : 0 ≤ i) (hlast : i ≤ last) :
    ((laidOut outlines last).shown (addCustomData (1 / 1) (-1) 0 0 (ones last))).getElementData i =
      some ⟨i, 1⟩ := by
  have hnone : Ends last 0 (noneMarked last).spanlist := .last (hi.trans hlast)
  have hvisible : ∀ j, 0 ≤ j → j ≤ last → (onesGeometry hnone hnone).visibleAt j = 1 := by
    intro j _ hj
    rw [visibleAt_onesGeometry hnone hnone hj, bitAt_noneMarked, decide_eq_false (not_lt.mpr hj)]
    rfl
  have hshows : Shows (onesGeometry hnone hnone)
      ((laidOut outlines last).shown (addCustomData (1 / 1) (-1) 0 0 (ones last))) := by
    refine .of_visible (onesGeometry hnone hnone).sizes_ends (fun j hj => ?_) rfl
    change j ≤ last at hj
    rw [visibleAt_onesGeometry hnone hnone hj, bitAt_noneMarked, decide_eq_false (not_lt.mpr hj)]
    show valueAt [⟨last, 1⟩] j = _
    rw [valueAt, if_pos hj]
    rfl
  have hpixels : ∀ j, 0 ≤ j → j ≤ last → (onesGeometry hnone hnone).pixelsAt (1 / 1) j = 1 := by
    intro j hj hjlast
    rw [Geometry.pixelsAt, hvisible j hj hjlast]
    norm_num
  have hstart : sumBefore ((onesGeometry hnone hnone).pixelsAt (1 / 1)) i = i := by
    rw [sumBefore_const (Int.le_refl 0) hi fun j hj hji => hpixels j hj (by omega), sumBefore_zero]
    omega
  rw [SheetDimension.getElementData, hshows.getElementDataAny_eq hi hlast]
  show some (DimensionPosSize.mk (sumBefore ((onesGeometry hnone hnone).pixelsAt (1 / 1)) i)
    ((onesGeometry hnone hnone).pixelsAt (1 / 1) i)) = _
  rw [hstart, hpixels i hi hlast]

/-- All groups are in view, with their elements where their numbers are. -/
theorem getGroupsDataInView_laidOut {outlines : DimensionOutlines} (houtlines : OutlinesInOrder outlines) {last : Int}
    (hlast : 0 ≤ last) (hends : ∀ groups ∈ outlines, ∀ g ∈ groups, g.last ≤ last) :
    (laidOut outlines last).answer .getGroupsDataInView = .ok (.groups ((allCalls outlines).map dataOf)) := by
  have hview : (laidOut outlines last).groupsInView = allCalls outlines := by
    show outlines.forEachGroupInRange 0 last = _
    rw [forEachGroupInRange_eq outlines (fun groups hgroups => (houtlines groups hgroups).1) 0 last hlast, allCalls,
      List.flatMap, List.flatMap]
    congr 1
    refine List.map_congr_left fun level hlevel => ?_
    have hgroups := List.fst_mem_of_mem_zipIdx (List.mem_reverse.mp hlevel)
    rw [meetingCalls, List.filter_eq_self.mpr]
    intro group hgroup
    have hmem := List.fst_mem_of_mem_zipIdx hgroup
    have hfirst := (houtlines _ hgroups).2 _ hmem
    have hnonempty := (houtlines _ hgroups).1.nonempty _ hmem
    have hend := hends _ hgroups _ hmem
    exact decide_eq_true ⟨by omega, by omega⟩
  have hdata : ∀ call ∈ allCalls outlines, (laidOut outlines last).groupData call = some (dataOf call) := by
    intro call hcall
    obtain ⟨level, hlevel, hcall⟩ := List.mem_flatMap.mp hcall
    obtain ⟨group, hgroup, rfl⟩ := List.mem_map.mp hcall
    have hgroups := List.fst_mem_of_mem_zipIdx (List.mem_reverse.mp hlevel)
    have hmem := List.fst_mem_of_mem_zipIdx hgroup
    have hfirst := (houtlines _ hgroups).2 _ hmem
    have hnonempty := (houtlines _ hgroups).1.nonempty _ hmem
    have hend := hends _ hgroups _ hmem
    have hstartElement := getElementData_laidOut outlines hfirst (show group.1.start ≤ last by omega)
    have hendElement := getElementData_laidOut outlines (show 0 ≤ group.1.last by omega) hend
    rw [groupData]
    show ((some (addCustomData (1 / 1) (-1) 0 0 (ones last))).bind fun spans => _) = _
    rw [Option.bind_some]
    show ((((laidOut outlines last).shown _).getElementData group.1.start).bind fun startElementData =>
      (((laidOut outlines last).shown _).getElementData group.1.last).bind fun endElementData => _) = _
    rw [hstartElement, hendElement]
    rfl
  have hmap : ∀ calls : List GroupCall, (∀ call ∈ calls, (laidOut outlines last).groupData call = some (dataOf call)) →
      calls.mapM (laidOut outlines last).groupData = some (calls.map dataOf) := by
    intro calls hcalls
    induction calls with
    | nil => rfl
    | cons call calls ih =>
      rw [List.mapM_cons, hcalls call List.mem_cons_self, ih fun c hc => hcalls c (List.mem_cons_of_mem _ hc)]
      rfl
  rw [answer, hview, hmap _ hdata]
  rfl

/-- **The groups** are seen where every element is in view. -/
theorem sameGroups_of_alike (h : Alike call d' d) (houtlines' : OutlinesInOrder d'.outlines)
    (houtlines : OutlinesInOrder d.outlines) : SameGroups d'.outlines d.outlines := by
  -- an element behind all groups
  obtain ⟨last, hlast⟩ :=
    (insert 0 ((d'.outlines.flatten ++ d.outlines.flatten).map OutlineEntry.last).toFinset).exists_le
  have hzero : 0 ≤ last := hlast 0 (Finset.mem_insert_self _ _)
  have hends : ∀ g ∈ d'.outlines.flatten ++ d.outlines.flatten, g.last ≤ last := fun g hg =>
    hlast g.last (Finset.mem_insert_of_mem (List.mem_toFinset.mpr (List.mem_map_of_mem hg)))
  have halike := alike_laidOut h hzero
  have hdata := halike.outcome_eq (.ask .getGroupsDataInView)
  have hlevels := halike.outcome_eq (.ask .getGroupLevels)
  have hanswer : ∀ {outlines : DimensionOutlines}, OutlinesInOrder outlines →
      (∀ groups ∈ outlines, ∀ g ∈ groups, g.last ≤ last) →
      outcome (call (.ask .getGroupsDataInView)) (laidOut outlines last) =
        .ok (.groups ((allCalls outlines).map dataOf)) := by
    intro outlines houtlines hends
    show outcome (ask .getGroupsDataInView) _ = _
    rw [outcome, ask, getGroupsDataInView_laidOut houtlines hzero hends]
  rw [hanswer houtlines' fun groups hgroups g hg =>
      hends g (List.mem_append_left _ (List.mem_flatten_of_mem hgroups hg)),
    hanswer houtlines fun groups hgroups g hg =>
      hends g (List.mem_append_right _ (List.mem_flatten_of_mem hgroups hg))] at hdata
  exact sameGroups_of_dataOf (Answer.levels.inj (Except.ok.inj hlevels))
    (Answer.groups.inj (Except.ok.inj hdata))

end Dimension

end Oxool.Sheet
