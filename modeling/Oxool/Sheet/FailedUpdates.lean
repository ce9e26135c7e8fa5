import Oxool.Sheet.ToldApart

/-!
# Updates that are all or nothing

`SheetGeometry.update` goes through the message list by list, and takes each over as soon as it is loaded. When a
list cannot be loaded the update goes on to the next, and answers `false` in the end; when the lists do
not end at the same element it throws in the middle. `Atomic` is what one would have of it: no exception, and
either consistent dimensions or no trace.

`Harmless` is when there is that. It looks at the message and at the dimensions as they are before the update. A
message that is turned down changes nothing. One that is taken must have lists that fit together; and then
either all of it can be loaded, or it must say nothing new: the same limits, and of each dimension no list
and no groups that are not there already (`Repeated`). If all that such a message has of a dimension can be
loaded, the visible sizes are made afresh even though the other dimension has failed, so they must be up to
date before.

`atomic_iff` shows that these updates are atomic, for every geometry and every message. That no others are
holds for every message that can be loaded, whether it fits or not, and for the failing ones wherever
the lists are in order (`InOrder`). Without any order it is not so, as `Oxool.Sheet.ToldApart` explains.
-/

set_option autoImplicit false

namespace Oxool.Sheet

open Oxool.Http (Bytes ascii)
open Oxool.Protocol

/-! ## Messages with nothing new -/

namespace Dimension

/-- The visible sizes are those that the lists make, at the zoom that is set. -/
def UpToDate (d : Dimension) : Prop :=
  ∃ visible, (d.hidden.union d.filtered).bind (applyZeroValues d.sizes) = some visible ∧
    d.visibleSizes = some (addCustomData d.twipsPerCorePixel (-1) 0 0 visible)

/-- What can be loaded of a dimension is there already. -/
structure Repeated (d : Dimension) (part : Option Json) : Prop where
  sizes : ∀ sizes, loaded part "sizes" parseSpanList = some sizes → sizes = d.sizes
  hidden : ∀ hidden, loaded part "hidden" parseBoolSpanList = some hidden → hidden = d.hidden
  filtered : ∀ filtered, loaded part "filtered" parseBoolSpanList = some filtered → filtered = d.filtered
  groups : ∀ outlines, loaded part "groups" DimensionOutlines.load = some outlines → SameGroups outlines d.outlines
  upToDate : loads part = true → hasLists part = true → d.UpToDate

/-- The lists are as the core writes them, or there are none yet. -/
structure InOrder (d : Dimension) : Prop where
  sizes : d.sizes = [] ∨ ∃ last, SizesInOrder last d.sizes
  hidden : d.hidden.spanlist = [] ∨ ∃ last, Ends last 0 d.hidden.spanlist
  filtered : d.filtered.spanlist = [] ∨ ∃ last, Ends last 0 d.filtered.spanlist
  outlines : OutlinesInOrder d.outlines
  visibleSizes : ∀ spans, d.visibleSizes = some spans → SeenInOrder d.twipsPerCorePixel spans

end Dimension

/-- So are those of the message that can be loaded. -/
structure PartInOrder (part : Option Json) : Prop where
  sizes : ∀ sizes, loaded part "sizes" parseSpanList = some sizes → ∃ last, SizesInOrder last sizes
  hidden : ∀ hidden, loaded part "hidden" parseBoolSpanList = some hidden → ∃ last, Ends last 0 hidden.spanlist
  filtered : ∀ filtered, loaded part "filtered" parseBoolSpanList = some filtered →
    ∃ last, Ends last 0 filtered.spanlist
  groups : ∀ outlines, loaded part "groups" DimensionOutlines.load = some outlines → OutlinesInOrder outlines

namespace Dimension

variable {d : Dimension} {part : Option Json}

theorem taking_sizes (d : Dimension) (part : Option Json) :
    (d.taking part).sizes = (loaded part "sizes" parseSpanList).getD d.sizes ∧
      (d.taking part).hidden = (loaded part "hidden" parseBoolSpanList).getD d.hidden ∧
      (d.taking part).filtered = (loaded part "filtered" parseBoolSpanList).getD d.filtered ∧
      (d.taking part).outlines = (loaded part "groups" DimensionOutlines.load).getD d.outlines ∧
      (d.taking part).maxIndex = d.maxIndex ∧
      (d.taking part).twipsPerCorePixel = d.twipsPerCorePixel := by
  rw [taking]
  split
  · rw [regenerated]
    split
    · exact ⟨rfl, rfl, rfl, rfl, rfl, rfl⟩
    · exact ⟨rfl, rfl, rfl, rfl, rfl, rfl⟩
  · exact ⟨rfl, rfl, rfl, rfl, rfl, rfl⟩

theorem getD_eq {α : Type} {o : Option α} {a : α} (h : ∀ b, o = some b → b = a) : o.getD a = a := by
  cases o with
  | none => rfl
  | some b => exact h b rfl

/-- **Nothing new is not noticed.** -/
theorem alike_of_repeated (h : d.Repeated part) : Alike call (d.taking part) d := by
  have houtlines : SameGroups ((loaded part "groups" DimensionOutlines.load).getD d.outlines) d.outlines := by
    cases hgroups : loaded part "groups" DimensionOutlines.load with
    | none => rfl
    | some outlines => exact h.groups outlines hgroups
  have hloaded : d.withLoaded part =
      { d with outlines := (loaded part "groups" DimensionOutlines.load).getD d.outlines } := by
    rw [withLoaded, getD_eq h.sizes, getD_eq h.hidden, getD_eq h.filtered]
  have htaking : d.taking part =
      { d with outlines := (loaded part "groups" DimensionOutlines.load).getD d.outlines } := by
    rw [taking]
    split
    · rename_i hmade
      rw [Bool.and_eq_true] at hmade
      obtain ⟨visible, hvisible, hspans⟩ := h.upToDate hmade.1 hmade.2
      rw [hloaded, regenerated]
      dsimp only
      rw [hvisible]
      show { d with outlines := _, visibleSizes := some (addCustomData d.twipsPerCorePixel (-1) 0 0 visible) } = _
      rw [← hspans]
    · exact hloaded
  rw [htaking]
  exact alike_of_sameGroups houtlines

/-- **What is not noticed is nothing new**, where the lists are in order. -/
theorem repeated_of_alike (hd : d.InOrder) (hpart : PartInOrder part) (hfits : d.FitsWith part)
    (h : Alike call (d.taking part) d) : d.Repeated part := by
  obtain ⟨hsizes, hhidden, hfiltered, houtlines, -, hzoom⟩ := taking_sizes d part
  have hknown : ∀ sizes, loaded part "sizes" parseSpanList = some sizes → sizes = d.sizes := by
    intro sizes hloaded
    rw [hloaded, Option.getD_some] at hsizes
    obtain ⟨last, hlast⟩ := hpart.sizes sizes hloaded
    rw [← hsizes]
    exact sizes_eq_of_alike h (hsizes ▸ hlast) hd.sizes
  have hknown' : ∀ hidden, loaded part "hidden" parseBoolSpanList = some hidden → hidden = d.hidden := by
    intro hidden hloaded
    rw [hloaded, Option.getD_some] at hhidden
    obtain ⟨last, hlast⟩ := hpart.hidden hidden hloaded
    rw [← hhidden]
    exact hidden_eq_of_alike h (hhidden ▸ hlast) hd.hidden
  have hknown'' : ∀ filtered, loaded part "filtered" parseBoolSpanList = some filtered →
      filtered = d.filtered := by
    intro filtered hloaded
    rw [hloaded, Option.getD_some] at hfiltered
    obtain ⟨last, hlast⟩ := hpart.filtered filtered hloaded
    rw [← hfiltered]
    exact filtered_eq_of_alike h (hfiltered ▸ hlast) hd.filtered
  refine ⟨hknown, hknown', hknown'', ?_, ?_⟩
  · intro outlines hloaded
    rw [hloaded, Option.getD_some] at houtlines
    have hsame := sameGroups_of_alike h (houtlines ▸ hpart.groups outlines hloaded) hd.outlines
    rw [houtlines] at hsame
    exact hsame
  · intro hloads hlists
    -- the lists are those of a geometry, and the visible sizes made of it are seen
    have hloadedFits := hfits hloads hlists
    have htaking : d.taking part = (d.withLoaded part).regenerated := by
      rw [taking, hloads, hlists]
      rfl
    have hlists : (d.withLoaded part).sizes = d.sizes ∧ (d.withLoaded part).hidden = d.hidden ∧
        (d.withLoaded part).filtered = d.filtered := ⟨getD_eq hknown, getD_eq hknown', getD_eq hknown''⟩
    obtain ⟨hnil, hlast, hlast'⟩ := hloadedFits
    rw [hlists.1] at hnil hlast
    rw [hlists.2.1] at hlast hlast'
    rw [hlists.2.2] at hlast'
    obtain ⟨last, hinorder⟩ := hd.sizes.resolve_left hnil
    have hend := hinorder.ends.getLast?
    rw [List.getLast?_map, hlast] at hend
    have hends := ends_of_getLast? hd.hidden hend
    have hends' := ends_of_getLast? hd.filtered (hlast' ▸ hend)
    obtain ⟨visible, hvisible, hvisibleInOrder, -⟩ :=
      exists_visible ⟨d.sizes, d.hidden, d.filtered, last, hinorder.nonneg, hinorder.ends, hends, hends'⟩
    have hseen : SeenInOrder d.twipsPerCorePixel (addCustomData d.twipsPerCorePixel (-1) 0 0 visible) :=
      ⟨last, visible, hvisibleInOrder, rfl⟩
    have hregenerated : (d.taking part).visibleSizes =
        some (addCustomData d.twipsPerCorePixel (-1) 0 0 visible) := by
      rw [htaking, regenerated, hlists.1, hlists.2.1, hlists.2.2, hvisible]
      rfl
    obtain ⟨spans, hspans⟩ := exists_visibleSizes_of_alike h hregenerated
    refine ⟨visible, hvisible, ?_⟩
    rw [hspans, visibleSizes_eq_of_alike h hspans hregenerated hzoom (hd.visibleSizes spans hspans) hseen]

end Dimension

namespace SheetGeometry

open Dimension (Answer FitsWith taking taking_sizes alike_of_repeated repeated_of_alike)

variable {d : Dimension} {msg : Json} {key : String}

/-! ## Updates -/

/-- What is claimed of an update: it does not throw, its dimensions are consistent after it, or it has failed
and no call tells that it was there. -/
def Atomic (G : SheetGeometry) (sheetGeomJSON : Json) (checkCompleteness : Bool) (part : Int) : Prop :=
  match update sheetGeomJSON checkCompleteness part G with
  | .error _ _ => False
  | .ok true G' => G'.columns.Consistent ∧ G'.rows.Consistent
  | .ok false G' => Alike call G' G

/-- The message has nothing new for a dimension, and the same limit. -/
def Unchanged (d : Dimension) (part : Option Json) (maxIndex : Option Int) : Prop :=
  d.maxIndex = maxIndex ∧ d.Repeated part

/-- The message is turned down; or it fits, and all of it is loaded onto consistent dimensions, or there is
nothing new in it. -/
def Harmless (G : SheetGeometry) (sheetGeomJSON : Json) (checkCompleteness : Bool) : Prop :=
  let columns := sheetGeomJSON.given "columns"
  let rows := sheetGeomJSON.given "rows"
  testValidity sheetGeomJSON checkCompleteness = false ∨
    (G.columns.FitsWith columns ∧ G.rows.FitsWith rows) ∧
      if loads columns && loads rows then
        (hasLists columns = true ∨ G.columns.Consistent) ∧ (hasLists rows = true ∨ G.rows.Consistent)
      else
        Unchanged G.columns columns (sheetGeomJSON.decimal? "maxtiledcolumn") ∧
          Unchanged G.rows rows (sheetGeomJSON.decimal? "maxtiledrow")

/-- All lists of the geometry are in order, and those of the message that can be loaded. -/
def InOrder (G : SheetGeometry) (sheetGeomJSON : Json) : Prop :=
  (G.columns.InOrder ∧ PartInOrder (sheetGeomJSON.given "columns")) ∧
    G.rows.InOrder ∧ PartInOrder (sheetGeomJSON.given "rows")

variable {G : SheetGeometry} {checkCompleteness : Bool}

/-- What is consistent after all was loaded. -/
theorem consistent_taking {part : Option Json} (hloads : loads part = true) (hfits : d.FitsWith part) :
    (d.taking part).Consistent ↔ hasLists part = true ∨ d.Consistent := by
  cases hlists : hasLists part with
  | true =>
    rw [taking, hloads, hlists, Bool.and_self, if_pos rfl]
    exact ⟨fun _ => .inl rfl, fun _ => (hfits hloads hlists).consistent_regenerated⟩
  | false =>
    rw [hasLists, Bool.or_eq_false_iff, Bool.or_eq_false_iff, Option.isSome_eq_false_iff,
      Option.isSome_eq_false_iff, Option.isSome_eq_false_iff, Option.isNone_iff_eq_none,
      Option.isNone_iff_eq_none, Option.isNone_iff_eq_none] at hlists
    obtain ⟨⟨hsizes, hhidden⟩, hfiltered⟩ := hlists
    have hkept : d.withLoaded part =
        { d with outlines := (loaded part "groups" DimensionOutlines.load).getD d.outlines } := by
      rw [Dimension.withLoaded, loaded, loaded, loaded, hsizes, hhidden, hfiltered]
      rfl
    have htaking : d.taking part = d.withLoaded part := by
      rw [taking, hasLists, hsizes, hhidden, hfiltered]
      simp
    rw [htaking, hkept]
    constructor
    · exact .inr
    · exact fun h => h.resolve_left Bool.false_ne_true

/-- The limit is noticed at once. -/
theorem maxIndex_eq_of_alike {part : Option Json} {maxIndex : Int}
    (h : Alike Dimension.call { d.taking part with maxIndex := some maxIndex } d) :
    d.maxIndex = some maxIndex ∧ Alike Dimension.call (d.taking part) d := by
  have hmax : some maxIndex = d.maxIndex :=
    Answer.index.inj (Except.ok.inj (h.outcome_eq (.ask .getMaxIndex)))
  have hkept : (d.taking part).maxIndex = d.maxIndex := (taking_sizes d part).2.2.2.2.1
  refine ⟨hmax.symm, ?_⟩
  rw [hmax, ← hkept] at h
  exact h

theorem alike_of_unchanged {part : Option Json} {maxIndex : Int} (h : Unchanged d part (some maxIndex)) :
    Alike Dimension.call { d.taking part with maxIndex := some maxIndex } d := by
  have hkept : (d.taking part).maxIndex = d.maxIndex := (taking_sizes d part).2.2.2.2.1
  rw [← h.1, ← hkept]
  exact alike_of_repeated h.2

variable {fields : List (Bytes × Json)} {part : Int}

theorem update_of_not_valid (h : testValidity (.object fields) checkCompleteness = false) :
    update (.object fields) checkCompleteness part G = .ok false G := by
  rw [update, h]
  rfl

/-- **An update that fits** does not throw. -/
theorem update_of_fits {columnMax rowMax : Int} (hvalid : testValidity (.object fields) checkCompleteness = true)
    (hcolumnMax : (Json.object fields).decimal? "maxtiledcolumn" = some columnMax)
    (hrowMax : (Json.object fields).decimal? "maxtiledrow" = some rowMax)
    (hcolumns : G.columns.FitsWith ((Json.object fields).given "columns"))
    (hrows : G.rows.FitsWith ((Json.object fields).given "rows")) :
    update (.object fields) checkCompleteness part G =
      .ok (loads ((Json.object fields).given "columns") && loads ((Json.object fields).given "rows"))
        { part := if loads ((Json.object fields).given "columns") && loads ((Json.object fields).given "rows") then part
            else G.part
          columns := { G.columns.taking ((Json.object fields).given "columns") with maxIndex := some columnMax }
          rows := { G.rows.taking ((Json.object fields).given "rows") with maxIndex := some rowMax } } := by
  have hnull : (Json.object fields).isNull = false := rfl
  have hcolumnsRun : onColumns (updateGiven ((Json.object fields).given "columns")) G = .ok _ _ :=
    onPart_of_ok (updateGiven_of_fits hcolumns)
  have hrowsRun : onRows (updateGiven ((Json.object fields).given "rows"))
      { G with columns := G.columns.taking ((Json.object fields).given "columns") } = .ok _ _ :=
    onPart_of_ok (updateGiven_of_fits hrows)
  rw [update, hnull, if_neg Bool.false_ne_true, hvalid, hcolumnMax, hrowMax]
  show (onColumns _ >>= _) G = _
  rw [bind_of_ok hcolumnsRun, bind_of_ok hrowsRun]
  cases loads ((Json.object fields).given "columns") && loads ((Json.object fields).given "rows") with
  | false => rfl
  | true => rfl

theorem update_of_not_fits (hvalid : testValidity (.object fields) checkCompleteness = true)
    (h : ¬ (G.columns.FitsWith ((Json.object fields).given "columns") ∧
      G.rows.FitsWith ((Json.object fields).given "rows"))) :
    ∃ G', update (.object fields) checkCompleteness part G = .error .undefinedObject G' := by
  have hnull : (Json.object fields).isNull = false := rfl
  rw [update, hnull, if_neg Bool.false_ne_true, hvalid]
  show ∃ G', (onColumns _ >>= _) G = _
  by_cases hcolumns : G.columns.FitsWith ((Json.object fields).given "columns")
  · obtain ⟨rows, hthrows⟩ := updateGiven_of_not_fits fun hrows => h ⟨hcolumns, hrows⟩
    have hcolumnsRun : onColumns (updateGiven ((Json.object fields).given "columns")) G = .ok _ _ :=
      onPart_of_ok (updateGiven_of_fits hcolumns)
    refine ⟨{ G with columns := G.columns.taking ((Json.object fields).given "columns"), rows := rows }, ?_⟩
    rw [bind_of_ok hcolumnsRun]
    exact bind_of_error (onPart_of_error hthrows)
  · obtain ⟨columns, hthrows⟩ := updateGiven_of_not_fits hcolumns
    exact ⟨_, bind_of_error (onPart_of_error hthrows)⟩

theorem exists_decimal? {msg : Json} (h : testValidity msg checkCompleteness = true) :
    ∃ columnMax rowMax, msg.decimal? "maxtiledcolumn" = some columnMax ∧ msg.decimal? "maxtiledrow" = some rowMax := by
  rw [testValidity, Bool.and_eq_true, Bool.and_eq_true, Bool.and_eq_true, Option.isSome_iff_exists,
    Option.isSome_iff_exists] at h
  obtain ⟨⟨⟨-, columnMax, hcolumnMax⟩, rowMax, hrowMax⟩, -⟩ := h
  exact ⟨columnMax, rowMax, hcolumnMax, hrowMax⟩

/-- What an update that fits comes to. -/
theorem atomic_of_fits (hvalid : testValidity (.object fields) checkCompleteness = true) {columnMax rowMax : Int}
    (hcolumnMax : (Json.object fields).decimal? "maxtiledcolumn" = some columnMax)
    (hrowMax : (Json.object fields).decimal? "maxtiledrow" = some rowMax)
    (hcolumns : G.columns.FitsWith ((Json.object fields).given "columns"))
    (hrows : G.rows.FitsWith ((Json.object fields).given "rows")) :
    Atomic G (.object fields) checkCompleteness part ↔
      if loads ((Json.object fields).given "columns") && loads ((Json.object fields).given "rows") then
        (hasLists ((Json.object fields).given "columns") = true ∨ G.columns.Consistent) ∧
          (hasLists ((Json.object fields).given "rows") = true ∨ G.rows.Consistent)
      else
        Alike Dimension.call { G.columns.taking ((Json.object fields).given "columns") with maxIndex := some columnMax }
            G.columns ∧
          Alike Dimension.call { G.rows.taking ((Json.object fields).given "rows") with maxIndex := some rowMax }
            G.rows := by
  rw [Atomic, update_of_fits hvalid hcolumnMax hrowMax hcolumns hrows]
  cases hloads : loads ((Json.object fields).given "columns") && loads ((Json.object fields).given "rows") with
  | false =>
    rw [if_neg Bool.false_ne_true]
    dsimp only
    rw [alike_iff]
    exact ⟨fun h => ⟨h.columns, h.rows⟩, fun h => ⟨rfl, h.1, h.2⟩⟩
  | true =>
    rw [Bool.and_eq_true] at hloads
    rw [if_pos rfl, ← consistent_taking hloads.1 hcolumns, ← consistent_taking hloads.2 hrows]
    rfl

/-- **Harmless messages** do nothing, or all of it. -/
theorem atomic_of_harmless (h : Harmless G (.object fields) checkCompleteness) :
    Atomic G (.object fields) checkCompleteness part := by
  rcases h with hturned | ⟨⟨hcolumns, hrows⟩, h⟩
  · rw [Atomic, update_of_not_valid hturned]
    exact .refl call G
  · cases hvalid : testValidity (.object fields) checkCompleteness with
    | false =>
      rw [Atomic, update_of_not_valid hvalid]
      exact .refl call G
    | true =>
      obtain ⟨columnMax, rowMax, hcolumnMax, hrowMax⟩ := exists_decimal? hvalid
      rw [atomic_of_fits hvalid hcolumnMax hrowMax hcolumns hrows]
      split at h
      · rename_i hloads
        rw [if_pos hloads]
        exact h
      · rename_i hloads
        rw [if_neg hloads]
        rw [hcolumnMax, hrowMax] at h
        exact ⟨alike_of_unchanged h.1, alike_of_unchanged h.2⟩

/-- **No other message** does, if it can be loaded or the lists are in order. -/
theorem harmless_of_atomic (h : Atomic G (.object fields) checkCompleteness part)
    (hloads : (loads ((Json.object fields).given "columns") && loads ((Json.object fields).given "rows")) = true ∨
      InOrder G (.object fields)) : Harmless G (.object fields) checkCompleteness := by
  cases hvalid : testValidity (.object fields) checkCompleteness with
  | false => exact .inl hvalid
  | true =>
    by_cases hfits : G.columns.FitsWith ((Json.object fields).given "columns") ∧
        G.rows.FitsWith ((Json.object fields).given "rows")
    · obtain ⟨columnMax, rowMax, hcolumnMax, hrowMax⟩ := exists_decimal? hvalid
      rw [atomic_of_fits hvalid hcolumnMax hrowMax hfits.1 hfits.2] at h
      refine .inr ⟨hfits, ?_⟩
      split
      · rename_i hloads
        rw [if_pos hloads] at h
        exact h
      · rename_i hnot
        rw [if_neg hnot] at h
        obtain ⟨⟨hcolumns, hcolumnPart⟩, hrows, hrowPart⟩ := hloads.resolve_left hnot
        obtain ⟨hcolumnLimit, hcolumnsAlike⟩ := maxIndex_eq_of_alike h.1
        obtain ⟨hrowLimit, hrowsAlike⟩ := maxIndex_eq_of_alike h.2
        rw [hcolumnMax, hrowMax]
        exact ⟨⟨hcolumnLimit, repeated_of_alike hcolumns hcolumnPart hfits.1 hcolumnsAlike⟩,
          hrowLimit, repeated_of_alike hrows hrowPart hfits.2 hrowsAlike⟩
    · obtain ⟨G', hthrows⟩ : ∃ G', update (.object fields) checkCompleteness part G = .error .undefinedObject G' :=
        update_of_not_fits hvalid hfits
      rw [Atomic, hthrows] at h
      exact h.elim

/-- A dimension before the first message. -/
def newDimension (tileSizeTwips tileSizePixels : ℚ) : Dimension :=
  ⟨[], ⟨false, []⟩, ⟨false, []⟩, [], none, none, tileSizeTwips, tileSizePixels, none, none⟩

/-- The constructor. -/
def ofMessage (sheetGeomJSON : Json) (tileWidthTwips tileHeightTwips tileSizePixels : ℚ) (part : Int) :
    SheetGeometry :=
  stateAfter (update sheetGeomJSON true part)
    ⟨-1, newDimension tileWidthTwips tileSizePixels, newDimension tileHeightTwips tileSizePixels⟩

/-- A message for ten columns and ten rows, with a list of the filtered rows. -/
def tenRows (filtered : String) : List (Bytes × Json) :=
  let lists (filtered : String) : Json := .object [(ascii "sizes", .text (ascii "1280:9 ")),
    (ascii "hidden", .text (ascii "0:9 ")), (ascii "filtered", .text (ascii filtered))]
  [(ascii "commandName", .text (ascii ".uno:SheetGeometryData")), (ascii "maxtiledcolumn", .text (ascii "9")),
    (ascii "maxtiledrow", .text (ascii "9")), (ascii "columns", lists "0:9 "), (ascii "rows", lists filtered)]

/-- The dimension that the constructor makes of ten elements, at a zoom of fifteen twips a pixel. -/
def tenElements : Dimension :=
  ⟨[⟨9, 1280⟩], ⟨false, [9]⟩, ⟨false, [9]⟩, [], some (addCustomData (3840 / 256) (-1) 0 0 [⟨9, 1280⟩]), some 9, 3840,
    256, none, none⟩

def unreadableGroups : List (Bytes × Json) :=
  (tenRows "0:9 ").dropLast ++ [(ascii "rows", .object [(ascii "sizes", .text (ascii "1280:9 ")),
    (ascii "hidden", .text (ascii "0:9 ")), (ascii "filtered", .text (ascii "0:9 ")),
    (ascii "groups", .text (ascii "0 "))])]

/-- A message for ten elements of the same size has nothing new for ten elements. -/
theorem repeated_tenElements {part : Option Json} (hsizes : loaded part "sizes" parseSpanList = some [⟨9, 1280⟩])
    (hhidden : loaded part "hidden" parseBoolSpanList = some ⟨false, [9]⟩)
    (hfiltered : loaded part "filtered" parseBoolSpanList = some ⟨false, [9]⟩)
    (hgroups : loaded part "groups" DimensionOutlines.load = none) : tenElements.Repeated part where
  sizes := by
    intro sizes hloaded
    rw [hsizes] at hloaded
    exact (Option.some.inj hloaded).symm
  hidden := by
    intro hidden hloaded
    rw [hhidden] at hloaded
    exact (Option.some.inj hloaded).symm
  filtered := by
    intro filtered hloaded
    rw [hfiltered] at hloaded
    exact (Option.some.inj hloaded).symm
  groups := by
    intro outlines hloaded
    rw [hgroups] at hloaded
    cases hloaded
  upToDate := fun _ _ => ⟨[⟨9, 1280⟩], by decide, rfl⟩

theorem inOrder_tenElements : tenElements.InOrder where
  sizes := .inr ⟨9, .last (by decide), by decide, .singleton _⟩
  hidden := .inr ⟨9, .last (by decide)⟩
  filtered := .inr ⟨9, .last (by decide)⟩
  outlines := fun _ h => absurd h List.not_mem_nil
  visibleSizes := by
    intro spans hspans
    rw [← Option.some.inj hspans]
    exact ⟨9, [⟨9, 1280⟩], ⟨.last (by decide), by decide, .singleton _⟩, rfl⟩

theorem partInOrder_tenElements {part : Option Json} (h : tenElements.Repeated part)
    (hgroups : loaded part "groups" DimensionOutlines.load = none) : PartInOrder part where
  sizes := by
    intro sizes hloaded
    rw [h.sizes sizes hloaded]
    exact ⟨9, .last (by decide), by decide, .singleton _⟩
  hidden := by
    intro hidden hloaded
    rw [h.hidden hidden hloaded]
    exact ⟨9, .last (by decide)⟩
  filtered := by
    intro filtered hloaded
    rw [h.filtered filtered hloaded]
    exact ⟨9, .last (by decide)⟩
  groups := by
    intro outlines hloaded
    rw [hgroups] at hloaded
    cases hloaded

end SheetGeometry

end Oxool.Sheet
