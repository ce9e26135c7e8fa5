import Oxool.Lib.Alike
import Oxool.Sheet.GridLines
import Oxool.Sheet.Outlines
import Oxool.Sheet.PrintTwips
import Oxool.Sheet.ZoomedPixels

/-!
# Updates of the geometry (`SheetGeometry.update`)

A message of the core replaces the lists of the columns, of the rows, or some of the lists only. Each list
is taken over as it is loaded. The visible sizes are made afresh from the lists if all that the message has
of a dimension could be loaded; the largest indices are taken over in any case.

`_updateVisible` does not look at what it gets from `union` and `applyZeroValues`, which is `undefined` for
lists that end at different elements: the visible sizes are gone then, and the next look at them throws.
`update_of_fits` in `Oxool.Sheet.FailedUpdates` and `updateGiven_of_fits` here say what an update comes to where
the lists do end at the same element (`Fits`), `updateVisible_of_not_fits` that it throws where they do not.

What a caller can find out is a run of calls, each of which may throw and all of which may change the state:
`Call` has those of a dimension and those of the geometry. `Alike` (`Oxool.Lib.Alike`) is that no run tells two
states apart, and `alike_iff` takes this apart into the same question about the columns and about the rows.

A `Dimension` has the fields of a `SheetDimension` as they come about, so that each of them can still be
undefined; a dimension with visible sizes and a largest index is one of `Oxool.Sheet.Geometry`, and answers
like it.
-/

set_option autoImplicit false

namespace Oxool.Sheet

open Oxool.Http (Bytes ascii isDigit)
open Oxool.Protocol

/-! ## Messages -/

/-- A parsed JSON value. -/
inductive Json where
  | null
  | bool (b : Bool)
  | number (n : ℚ)
  | text (s : Bytes)
  | array (es : List Json)
  | object (fields : List (Bytes × Json))

namespace Json

/-- A property; `none` is `undefined`. -/
def get? (key : String) : Json → Option Json
  | .object fields => fields.lookup (ascii key)
  | _ => none

/-- `typeof` is `string`. -/
def text? : Json → Option Bytes
  | .text s => some s
  | _ => none

/-- `typeof` is `object`. -/
def isObject : Json → Bool
  | .null | .array _ | .object _ => true
  | _ => false

def isNull : Json → Bool
  | .null => true
  | _ => false

def truthy : Json → Bool
  | .null => false
  | .bool b => b
  | .number n => n ≠ 0
  | .text s => s ≠ []
  | .array _ | .object _ => true

/-- A property that is there and not falsy. -/
def given (msg : Json) (key : String) : Option Json := (msg.get? key).filter truthy

/-- A text of digits, as a number. -/
def decimal? (msg : Json) (key : String) : Option Int := do
  let s ← (msg.get? key).bind text?
  if s ≠ [] ∧ s.all isDigit then some (digitsValue s) else none

/-- A text that is not empty. -/
def hasText (json : Json) (key : String) : Bool :=
  match (json.get? key).bind text? with
  | none => false
  | some s => s ≠ []

end Json

/-- `_testValidity`. -/
def testValidity (sheetGeomJSON : Json) (checkCompleteness : Bool) : Bool :=
  (sheetGeomJSON.get? "commandName").bind Json.text? = some (ascii ".uno:SheetGeometryData") &&
    (sheetGeomJSON.decimal? "maxtiledcolumn").isSome && (sheetGeomJSON.decimal? "maxtiledrow").isSome &&
    (!checkCompleteness ||
      match sheetGeomJSON.given "rows", sheetGeomJSON.given "columns" with
      | some rows, some columns =>
        rows.isObject && columns.isObject && ["sizes", "hidden", "filtered"].all fun fieldName =>
          rows.hasText fieldName && columns.hasText fieldName
      | _, _ => false)

/-! ## A dimension -/

/-- What `Math.floor`, `Math.max` and `Math.min` give. -/
inductive Number where
  | nan
  | negInf
  | posInf
  | int (n : Int)
deriving DecidableEq

namespace Number

/-- `Math.floor` of a quotient. -/
def floorDiv (a b : ℚ) : Number :=
  if b ≠ 0 then .int ⌊a / b⌋ else if 0 < a then .posInf else if a < 0 then .negInf else .nan

def add (m : Int) : Number → Number
  | .int n => .int (m + n)
  | n => n

/-- `Math.max(0, n)`. -/
def atLeastZero : Number → Number
  | .nan => .nan
  | .negInf => .int 0
  | .posInf => .posInf
  | .int n => .int (max 0 n)

/-- `Math.min(limit, n)`. -/
def atMost (limit : Option Int) (n : Number) : Number :=
  match limit, n with
  | none, _ => .nan
  | some _, .nan => .nan
  | some _, .negInf => .negInf
  | some m, .posInf => .int m
  | some m, .int n => .int (min m n)

end Number

/-- A `SheetDimension`, with the fields that can be undefined. -/
structure Dimension where
  sizes : List SpanData
  hidden : BoolSpanList
  filtered : BoolSpanList
  outlines : DimensionOutlines
  visibleSizes : Option (List Span)
  maxIndex : Option Int
  tileSizeTwips : ℚ
  tileSizePixels : ℚ
  viewStartIndex : Option Number
  viewEndIndex : Option Number

inductive TypeError where
  | undefinedObject
deriving DecidableEq

/-- A property of something that may be undefined. -/
def orThrow {α : Type} : Option α → Except TypeError α
  | none => .error .undefinedObject
  | some a => .ok a

namespace Dimension

variable (d : Dimension)

/-- The dimension with these visible sizes. Answers that the largest index has a part in are given by it only
if there is one. -/
def shown (spans : List Span) : SheetDimension :=
  ⟨d.sizes, d.hidden, d.filtered, spans, d.maxIndex.getD 0, d.tileSizeTwips, d.tileSizePixels⟩

def twipsPerCorePixel : ℚ := d.tileSizeTwips / d.tileSizePixels

/-! ### Loading -/

abbrev Act := EStateM TypeError Dimension

/-- `load`, of a list that is not undefined. -/
def loadField {α : Type} (value : Option Json) (parse : Bytes → Option α) (set : α → Dimension → Dimension) :
    Act Bool :=
  match value with
  | none => pure true
  | some value =>
    match value.text?.bind parse with
    | none => pure false
    | some loaded => do
      modify (set loaded)
      return true

/-- `_updatePositions`. -/
def updatePositions : Act Unit := do
  let d ← get
  match d.visibleSizes with
  | none => throw .undefinedObject
  | some spans => set { d with visibleSizes := some (d.shown spans).updatePositions.visibleSizes }

/-- `_updateVisible`. `union` of two lists without a span is one, and so are the sizes of a new dimension, of
which there is no last. -/
def updateVisible : Act Unit := do
  let d ← get
  match d.hidden.union d.filtered with
  | none =>
    set { d with visibleSizes := none }
    updatePositions
  | some invisibleSpanList =>
    if d.sizes = [] then throw .undefinedObject
    match applyZeroValues d.sizes invisibleSpanList with
    | none =>
      set { d with visibleSizes := none }
      updatePositions
    | some visibleSizes =>
      set { d with visibleSizes := some (addCustomData d.twipsPerCorePixel (-1) 0 0 visibleSizes) }

def update (jsonObject : Json) : Act Bool := do
  if !jsonObject.isObject then return false
  if jsonObject.isNull then throw .undefinedObject
  let sizesOK ← loadField (jsonObject.get? "sizes") parseSpanList fun sizes d => { d with sizes := sizes }
  let hiddenOK ← loadField (jsonObject.get? "hidden") parseBoolSpanList
    fun hidden d => { d with hidden := hidden }
  let filteredOK ← loadField (jsonObject.get? "filtered") parseBoolSpanList
    fun filtered d => { d with filtered := filtered }
  let groupsOK ← loadField (jsonObject.get? "groups") DimensionOutlines.load
    fun outlines d => { d with outlines := outlines }
  let regenerateVisibleSizes := (jsonObject.get? "sizes").isSome || (jsonObject.get? "hidden").isSome ||
    (jsonObject.get? "filtered").isSome
  let loadsOK := sizesOK && hiddenOK && filteredOK && groupsOK
  if loadsOK && regenerateVisibleSizes then updateVisible
  return loadsOK

def setMaxIndex (maxIndex : Int) : Act Unit := modify fun d => { d with maxIndex := some maxIndex }

def setTileGeometryData (tileSizeTwips tileSizePixels : ℚ) (updatePos : Bool) : Act Unit := do
  let d ← get
  if d.tileSizeTwips = tileSizeTwips ∧ d.tileSizePixels = tileSizePixels then return
  set { d with tileSizeTwips := tileSizeTwips, tileSizePixels := tileSizePixels }
  if updatePos then updatePositions

/-- `_getIndexFromTileTwipsPos`. -/
def getIndexFromTileTwipsPos (spans : List Span) (pos : ℚ) : Number :=
  match getSpanDataByCustomDataField Span.postiletwips spans pos with
  | none => if 0 ≤ pos then Number.atMost d.maxIndex .posInf else .int 0
  | some v =>
    let elementCount := v.span.index - v.start + 1
    let posStart : ℚ := (v.span.poscorepx - v.span.sizecore * elementCount : Int) * d.twipsPerCorePixel
    let sizeOne := (v.span.postiletwips - posStart) / elementCount
    (Number.floorDiv (pos - posStart) sizeOne).add v.start

def setViewLimits (startPosTileTwips endPosTileTwips : ℚ) : Act Unit := do
  let d ← get
  match d.visibleSizes with
  | none => throw .undefinedObject
  | some spans =>
    set { d with
      viewStartIndex := some (d.getIndexFromTileTwipsPos spans startPosTileTwips).atLeastZero
      viewEndIndex := some ((d.getIndexFromTileTwipsPos spans endPosTileTwips).atMost d.maxIndex) }

/-! ### Answers -/

inductive Query where
  | getElementData (index : Int)
  | getElementDataAtZoom (index : Int) (zoomScale : ℚ)
  | getElementDataAny (index : Int) (unitName : GeometryUnit)
  | forEachInRange (start last : Int)
  | forEachInCorePixelRange (fuel : Nat) (startPix endPix : Int)
  | getViewElementRange
  | getGroupLevels
  | getGroupsDataInView
  | getMaxIndex
  | getTileTwipsAtZoom (posTT zoomScale : ℚ)
  | getCorePixelsAtZoom (posCP zoomScale : ℚ)
  | getCorePixelsFromZoom (posCPZ zoomScale : ℚ)
  | getTileTwipsPosFromPrint (posPT : ℚ)
  | getTileTwipsPosFromPrintAtZoom (posPT zoomScale : ℚ)
  | getPrintTwipsPosFromTile (posTT : ℚ)
  | getTileTwipsRangeFromPrint (posStartPT posEndPT : ℚ)
  | getSize (unit : GeometryUnit)
  | getSnapPos (pos : ℚ) (unit : GeometryUnit)
  | getIndexFromPos (pos : ℚ) (unit : GeometryUnit)

structure GroupData where
  level : Nat
  index : Nat
  startPos : Int
  endPos : Int
  hidden : Bool
deriving DecidableEq

inductive Answer where
  | done
  | bool (b : Bool)
  | index (n : Option Int)
  | posSize (p : Option DimensionPosSize)
  | position (pos : ℚ)
  | range (startpos endpos : Int)
  | calls (calls : Option (List (Int × Int)))
  | elements (es : List (Int × Option DimensionPosSize))
  | view (start last : Option Number)
  | levels (n : Nat)
  | groups (gs : List GroupData)
deriving DecidableEq

/-- There is an element for the position: it is in a span, or the limits are there. -/
def reaches (spans : List Span) (pos : ℚ) (unit : GeometryUnit) : Bool :=
  d.maxIndex.isSome || pos < 0 ||
    match unit with
    | .corepixels => (getSpanDataByCustomDataField Span.postiletwips spans (pos * d.twipsPerCorePixel)).isSome
    | .tiletwips => (getSpanDataByCustomDataField Span.postiletwips spans pos).isSome
    | .printtwips => (getSpanDataByCustomDataField Span.posprinttwips spans pos).isSome

/-- What is found of the element at a position, where there is one. -/
def reached {α : Type} (spans : List Span) (pos : ℚ) (unit : GeometryUnit) (a : Option α) : Option α :=
  if d.reaches spans pos unit then a else none

/-- The calls of the callback of `forEachInRange`. -/
def elementsInRange (spans : List Span) (start last : Int) : List (Int × Option DimensionPosSize) :=
  (spansInRange spans start last).flatMap fun v =>
    let first := max v.start start
    (List.range (min v.span.index last + 1 - first).toNat).map fun k : Nat =>
      (first + k, (d.shown spans).getElementDataAnyFromSpanByIndex (first + k) v .corepixels)

def getTileTwipsRangeFromPrint (spans : List Span) (posStartPT posEndPT : ℚ) : Option (Int × Int) := do
  let s := d.shown spans
  let startData ← d.reached spans posStartPT .printtwips
    (s.elementData (s.getSpanAndIndexFromPrintTwipsPos posStartPT) .tiletwips)
  if posStartPT = posEndPT then
    return (startData.startpos, startData.startpos + ⌊d.twipsPerCorePixel⌋)
  let endData ← d.reached spans posEndPT .printtwips
    (s.elementData (s.getSpanAndIndexFromPrintTwipsPos posEndPT) .tiletwips)
  return (startData.startpos, max startData.startpos (endData.startpos + endData.size))

/-- The answers that are made from the visible sizes. -/
def answerShown (spans : List Span) : Query → Except TypeError Answer
  | .getElementData index => .ok (.posSize ((d.shown spans).getElementData index))
  | .getElementDataAtZoom index zoomScale =>
    .ok (.posSize (some ((d.shown spans).getElementDataAtZoom index zoomScale)))
  | .getElementDataAny index unitName => .ok (.posSize ((d.shown spans).getElementDataAny index unitName))
  | .forEachInRange start last => .ok (.elements (d.elementsInRange spans start last))
  | .forEachInCorePixelRange fuel startPix endPix =>
    .ok (.calls ((d.shown spans).forEachInCorePixelRange fuel startPix endPix))
  | .getTileTwipsAtZoom posTT zoomScale => do
    let posPT ← orThrow (d.reached spans posTT .tiletwips ((d.shown spans).getPrintTwipsPosFromTile posTT))
    return .position ((d.shown spans).getTileTwipsPosFromPrintAtZoom posPT zoomScale)
  | .getCorePixelsAtZoom posCP zoomScale => .ok (.position ((d.shown spans).getCorePixelsAtZoom posCP zoomScale))
  | .getCorePixelsFromZoom posCPZ zoomScale =>
    .ok (.position ((d.shown spans).getCorePixelsFromZoom posCPZ zoomScale))
  | .getTileTwipsPosFromPrint posPT =>
    (orThrow (d.reached spans posPT .printtwips ((d.shown spans).getTileTwipsPosFromPrint posPT))).map .position
  | .getTileTwipsPosFromPrintAtZoom posPT zoomScale =>
    .ok (.position ((d.shown spans).getTileTwipsPosFromPrintAtZoom posPT zoomScale))
  | .getPrintTwipsPosFromTile posTT =>
    (orThrow (d.reached spans posTT .tiletwips ((d.shown spans).getPrintTwipsPosFromTile posTT))).map .position
  | .getTileTwipsRangeFromPrint posStartPT posEndPT =>
    (orThrow (d.getTileTwipsRangeFromPrint spans posStartPT posEndPT)).map fun r => .range r.1 r.2
  | .getSize unit =>
    .ok (.index (do
      let posSize ← (d.shown spans).getElementDataAny (← d.maxIndex) unit
      return posSize.startpos + posSize.size))
  | .getSnapPos pos unit =>
    (orThrow (d.reached spans pos unit ((d.shown spans).getSnapPos pos unit))).map fun p => .position p
  | .getIndexFromPos pos unit => .ok (.index (d.reached spans pos unit ((d.shown spans).getIndexFromPos pos unit)))
  | _ => .ok .done

/-- The groups up to the end of the view. Without a number there is no group behind the end. -/
def groupsInView : List GroupCall :=
  match d.viewEndIndex with
  | none | some .negInf => []
  | some (.int last) => d.outlines.forEachGroupInRange 0 last
  | some .nan | some .posInf =>
    d.outlines.forEachGroupInRange 0 ((d.outlines.flatten.map OutlineEntry.start).foldr max 0)

/-- The callback of `getGroupsDataInView`. -/
def groupData (call : GroupCall) : Option GroupData := do
  let spans ← d.visibleSizes
  let startElementData ← (d.shown spans).getElementData call.groupStart
  let endElementData ← (d.shown spans).getElementData call.groupEnd
  return ⟨call.levelIdx + 1, call.groupIdx, startElementData.startpos,
    endElementData.startpos + endElementData.size, call.groupHidden ≠ 0⟩

def answer : Query → Except TypeError Answer
  | .getViewElementRange => .ok (.view d.viewStartIndex d.viewEndIndex)
  | .getGroupLevels => .ok (.levels d.outlines.length)
  | .getGroupsDataInView => (orThrow (d.groupsInView.mapM d.groupData)).map .groups
  | .getMaxIndex => .ok (.index d.maxIndex)
  | query => (orThrow d.visibleSizes).bind fun spans => d.answerShown spans query

def ask (query : Query) : Act Answer := fun d =>
  match d.answer query with
  | .ok answer => .ok answer d
  | .error e => .error e d

/-- A call of a dimension. -/
inductive Call where
  | update (jsonObject : Json)
  | setMaxIndex (maxIndex : Int)
  | setTileGeometryData (tileSizeTwips tileSizePixels : ℚ) (updatePos : Bool)
  | setViewLimits (startPosTileTwips endPosTileTwips : ℚ)
  | ask (query : Query)

def call : Call → Act Answer
  | .update jsonObject => Answer.bool <$> update jsonObject
  | .setMaxIndex maxIndex => (fun _ => .done) <$> setMaxIndex maxIndex
  | .setTileGeometryData tileSizeTwips tileSizePixels updatePos =>
    (fun _ => .done) <$> setTileGeometryData tileSizeTwips tileSizePixels updatePos
  | .setViewLimits startPosTileTwips endPosTileTwips =>
    (fun _ => .done) <$> setViewLimits startPosTileTwips endPosTileTwips
  | .ask query => ask query

end Dimension

/-! ## A sheet -/

structure SheetGeometry where
  part : Int
  columns : Dimension
  rows : Dimension

namespace SheetGeometry

open Dimension (Answer)

abbrev Act := EStateM TypeError SheetGeometry

def onColumns {α : Type} (m : Dimension.Act α) : Act α :=
  onPart columns (fun G columns => { G with columns := columns }) m

def onRows {α : Type} (m : Dimension.Act α) : Act α :=
  onPart rows (fun G rows => { G with rows := rows }) m

/-- A dimension is updated if the message has something for it. -/
def updateGiven (jsonObject : Option Json) : Dimension.Act Bool :=
  match jsonObject with
  | none => pure true
  | some jsonObject => Dimension.update jsonObject

def update (sheetGeomJSON : Json) (checkCompleteness : Bool) (part : Int) : Act Bool := do
  if sheetGeomJSON.isNull then throw .undefinedObject
  if !testValidity sheetGeomJSON checkCompleteness then return false
  let columnsOK ← onColumns (updateGiven (sheetGeomJSON.given "columns"))
  let rowsOK ← onRows (updateGiven (sheetGeomJSON.given "rows"))
  let updateOK := columnsOK && rowsOK
  if updateOK then modify fun G => { G with part := part }
  onColumns (Dimension.setMaxIndex ((sheetGeomJSON.decimal? "maxtiledcolumn").getD 0))
  onRows (Dimension.setMaxIndex ((sheetGeomJSON.decimal? "maxtiledrow").getD 0))
  return updateOK

def setTileGeometryData (tileWidthTwips tileHeightTwips tileSizePixels : ℚ) (updatePositions : Bool) :
    Act Unit := do
  onColumns (Dimension.setTileGeometryData tileWidthTwips tileSizePixels updatePositions)
  onRows (Dimension.setTileGeometryData tileHeightTwips tileSizePixels updatePositions)

def setViewArea (topLeftTwipsPoint sizeTwips : ℚ × ℚ) : Act Bool := do
  onColumns (Dimension.setViewLimits topLeftTwipsPoint.1 (topLeftTwipsPoint.1 + sizeTwips.1))
  onRows (Dimension.setViewLimits topLeftTwipsPoint.2 (topLeftTwipsPoint.2 + sizeTwips.2))
  return true

/-- A call of the geometry, or of one of the dimensions that `getColumnsGeometry` and `getRowsGeometry` give. -/
inductive Call where
  | update (sheetGeomJSON : Json) (checkCompleteness : Bool) (part : Int)
  | setTileGeometryData (tileWidthTwips tileHeightTwips tileSizePixels : ℚ) (updatePositions : Bool)
  | setViewArea (topLeftTwipsPoint sizeTwips : ℚ × ℚ)
  | getPart
  | columns (call : Dimension.Call)
  | rows (call : Dimension.Call)

def call : Call → Act Answer
  | .update sheetGeomJSON checkCompleteness part => Answer.bool <$> update sheetGeomJSON checkCompleteness part
  | .setTileGeometryData tileWidthTwips tileHeightTwips tileSizePixels updatePositions =>
    (fun _ => .done) <$> setTileGeometryData tileWidthTwips tileHeightTwips tileSizePixels updatePositions
  | .setViewArea topLeftTwipsPoint sizeTwips => Answer.bool <$> setViewArea topLeftTwipsPoint sizeTwips
  | .getPart => (fun G => .index (some G.part)) <$> get
  | .columns call => onColumns (Dimension.call call)
  | .rows call => onRows (Dimension.call call)

end SheetGeometry

/-! ## What a message has for a dimension -/

/-- A field that can be loaded. -/
def loaded {α : Type} (part : Option Json) (key : String) (parse : Bytes → Option α) : Option α :=
  ((part.bind (Json.get? key)).bind Json.text?).bind parse

/-- The field is not there, or can be loaded. -/
def fieldLoads {α : Type} (part : Option Json) (key : String) (parse : Bytes → Option α) : Bool :=
  (part.bind (Json.get? key)).isNone || (loaded part key parse).isSome

/-- All that the message has for the dimension can be loaded. -/
def loads (part : Option Json) : Bool :=
  part.all Json.isObject && (fieldLoads part "sizes" parseSpanList && fieldLoads part "hidden" parseBoolSpanList &&
    fieldLoads part "filtered" parseBoolSpanList && fieldLoads part "groups" DimensionOutlines.load)

/-- The message has a list of spans for the dimension. -/
def hasLists (part : Option Json) : Bool :=
  (part.bind (Json.get? "sizes")).isSome || (part.bind (Json.get? "hidden")).isSome ||
    (part.bind (Json.get? "filtered")).isSome

namespace Dimension

variable (d : Dimension)

/-- The dimension with what can be loaded. -/
def withLoaded (part : Option Json) : Dimension :=
  { d with
    sizes := (loaded part "sizes" parseSpanList).getD d.sizes
    hidden := (loaded part "hidden" parseBoolSpanList).getD d.hidden
    filtered := (loaded part "filtered" parseBoolSpanList).getD d.filtered
    outlines := (loaded part "groups" DimensionOutlines.load).getD d.outlines }

/-- The lists end at the same element. -/
def Fits : Prop :=
  d.sizes ≠ [] ∧ d.sizes.getLast?.map SpanData.index = d.hidden.spanlist.getLast? ∧
    d.hidden.spanlist.getLast? = d.filtered.spanlist.getLast?

/-- The visible sizes are there, and end where the lists do. -/
def Consistent : Prop :=
  d.Fits ∧ ∃ spans, d.visibleSizes = some spans ∧
    spans.getLast?.map Span.index = d.sizes.getLast?.map SpanData.index

/-- The visible sizes, afresh. -/
def regenerated : Dimension :=
  match (d.hidden.union d.filtered).bind (applyZeroValues d.sizes) with
  | none => d
  | some visibleSizes =>
    { d with visibleSizes := some (addCustomData d.twipsPerCorePixel (-1) 0 0 visibleSizes) }

/-- The dimension with what can be loaded, and with visible sizes made of it if nothing has failed. -/
def taking (part : Option Json) : Dimension :=
  if loads part && hasLists part then (d.withLoaded part).regenerated else d.withLoaded part

/-- The lists that are there in the end fit, if visible sizes are made of them. -/
def FitsWith (part : Option Json) : Prop := loads part = true → hasLists part = true → (d.withLoaded part).Fits

end Dimension

/-! ## Ends of lists -/

/-- A list that ends at `m`, without its head. -/
theorem getLast?_tail {m a : Int} {as : List Int} (h : (a :: as).getLast? = some m) :
    (as = [] ∧ a = m) ∨ as.getLast? = some m := by
  cases as with
  | nil => exact .inl ⟨rfl, Option.some.inj h⟩
  | cons a' as => exact .inr (by rw [List.getLast?_cons_cons] at h; exact h)

theorem unionLoop_nil (m : Int) (fuel : Nat) (this other : List Int) (h : this = [] ∨ other = [])
    (thisBit otherBit resultBit : Bool) : unionLoop m fuel this other thisBit otherBit resultBit = [] := by
  cases fuel with
  | zero => rfl
  | succ fuel =>
    rcases h with rfl | rfl
    · rfl
    · cases this with
      | nil => rfl
      | cons a this => rfl

/-- The last span that `union` puts out is the last one of both lists, whatever comes before. -/
theorem getLast?_unionLoop {m : Int} (fuel : Nat) {this other : List Int} (hthis : this.getLast? = some m)
    (hother : other.getLast? = some m) (hfuel : this.length + other.length ≤ fuel)
    (thisBit otherBit resultBit : Bool) :
    (unionLoop m fuel this other thisBit otherBit resultBit).getLast? = some m := by
  induction fuel generalizing this other thisBit otherBit resultBit with
  | zero =>
    cases this with
    | nil => cases hthis
    | cons a this => simp at hfuel
  | succ fuel ih =>
    cases this with
    | nil => cases hthis
    | cons a as =>
      cases other with
      | nil => cases hother
      | cons b bs =>
        rw [List.length_cons, List.length_cons] at hfuel
        -- the span that ends first is the last of its list, or both lists go on
        have hstep : ∀ {e : Int} {this' other' : List Int} (next : Bool) (thisBit' otherBit' : Bool),
            (this' = [] ∨ other' = []) ∧ e = m ∨
              this'.getLast? = some m ∧ other'.getLast? = some m ∧ this'.length + other'.length ≤ fuel →
            (if resultBit ≠ next ∨ m ≤ e then e :: unionLoop m fuel this' other' thisBit' otherBit' next
              else unionLoop m fuel this' other' thisBit' otherBit' resultBit).getLast? = some m := by
          intro e this' other' next thisBit' otherBit' h
          rcases h with ⟨hnil, rfl⟩ | ⟨hthis', hother', hfuel'⟩
          · rw [if_pos (.inr (le_refl _)), unionLoop_nil _ _ _ _ hnil]
            rfl
          · split
            · rw [List.getLast?_cons, ih hthis' hother' hfuel']
              rfl
            · exact ih hthis' hother' hfuel' _ _ _
        rcases Int.lt_trichotomy a b with hab | rfl | hba
        · have hnot : ¬ b < a := by omega
          simp only [unionLoop, hab, hnot, if_true, if_false]
          apply hstep
          rcases getLast?_tail hthis with ⟨hnil, heq⟩ | hlast
          · exact .inl ⟨.inl hnil, heq⟩
          · exact .inr ⟨hlast, hother, by rw [List.length_cons]; omega⟩
        · have hnot : ¬ a < a := Int.lt_irrefl a
          simp only [unionLoop, hnot, if_false]
          apply hstep
          rcases getLast?_tail hthis with ⟨hnil, heq⟩ | hlast
          · exact .inl ⟨.inl hnil, heq⟩
          · rcases getLast?_tail hother with ⟨hnil, heq⟩ | hlast'
            · exact .inl ⟨.inr hnil, heq⟩
            · exact .inr ⟨hlast, hlast', by omega⟩
        · have hnot : ¬ a < b := by omega
          simp only [unionLoop, hba, hnot, if_true, if_false]
          apply hstep
          rcases getLast?_tail hother with ⟨hnil, heq⟩ | hlast
          · exact .inl ⟨.inr hnil, heq⟩
          · exact .inr ⟨hthis, hlast, by rw [List.length_cons]; omega⟩

theorem zeroLoop_nil (m : Int) (fuel : Nat) (this : List SpanData) (other : List Int) (h : this = [] ∨ other = [])
    (zeroBit : Bool) (resultValue : Int) : zeroLoop m fuel this other zeroBit resultValue = [] := by
  cases fuel with
  | zero => rfl
  | succ fuel =>
    rcases h with rfl | rfl
    · rfl
    · cases this with
      | nil => rfl
      | cons a this => rfl

theorem getLast?_zeroLoop {m : Int} (fuel : Nat) {this : List SpanData} {other : List Int}
    (hthis : (this.map SpanData.index).getLast? = some m) (hother : other.getLast? = some m)
    (hfuel : this.length + other.length ≤ fuel) (zeroBit : Bool) (resultValue : Int) :
    ((zeroLoop m fuel this other zeroBit resultValue).map SpanData.index).getLast? = some m := by
  induction fuel generalizing this other zeroBit resultValue with
  | zero =>
    cases this with
    | nil => cases hthis
    | cons a this => simp at hfuel
  | succ fuel ih =>
    cases this with
    | nil => cases hthis
    | cons a as =>
      cases other with
      | nil => cases hother
      | cons b bs =>
        rw [List.length_cons, List.length_cons] at hfuel
        rw [List.map_cons] at hthis
        have hstep : ∀ {e : Int} {this' : List SpanData} {other' : List Int} (next : Int) (zeroBit' : Bool),
            (this' = [] ∨ other' = []) ∧ e = m ∨ (this'.map SpanData.index).getLast? = some m ∧
              other'.getLast? = some m ∧ this'.length + other'.length ≤ fuel →
            ((if resultValue ≠ next ∨ m ≤ e then ⟨e, resultValue⟩ :: zeroLoop m fuel this' other' zeroBit' next
              else zeroLoop m fuel this' other' zeroBit' resultValue).map SpanData.index).getLast? = some m := by
          intro e this' other' next zeroBit' h
          rcases h with ⟨hnil, rfl⟩ | ⟨hthis', hother', hfuel'⟩
          · rw [if_pos (.inr (le_refl _)), zeroLoop_nil _ _ _ _ hnil]
            rfl
          · split
            · rw [List.map_cons, List.getLast?_cons, ih hthis' hother' hfuel']
              rfl
            · exact ih hthis' hother' hfuel' _ _
        rcases Int.lt_trichotomy a.index b with hab | heq | hba
        · have hnot : ¬ b < a.index := by omega
          simp only [zeroLoop, hab, hnot, if_true, if_false]
          apply hstep
          rcases getLast?_tail hthis with ⟨hnil, heq⟩ | hlast
          · exact .inl ⟨.inl (List.map_eq_nil_iff.mp hnil), heq⟩
          · exact .inr ⟨hlast, hother, by rw [List.length_cons]; omega⟩
        · have hnot : ¬ a.index < b := by omega
          have hnot' : ¬ b < a.index := by omega
          simp only [zeroLoop, hnot, hnot', if_false]
          apply hstep
          rcases getLast?_tail hthis with ⟨hnil, hm⟩ | hlast
          · exact .inl ⟨.inl (List.map_eq_nil_iff.mp hnil), by rw [← heq]; exact hm⟩
          · rcases getLast?_tail hother with ⟨hnil, hm⟩ | hlast'
            · exact .inl ⟨.inr hnil, hm⟩
            · exact .inr ⟨hlast, hlast', by omega⟩
        · have hnot : ¬ a.index < b := by omega
          simp only [zeroLoop, hba, hnot, if_true, if_false]
          apply hstep
          rcases getLast?_tail hother with ⟨hnil, heq⟩ | hlast
          · exact .inl ⟨.inr hnil, heq⟩
          · exact .inr ⟨by rw [List.map_cons]; exact hthis, hlast, by rw [List.length_cons]; omega⟩

/-! ## One dimension -/

namespace Dimension

variable {d : Dimension} {part : Option Json}

/-- `union` and `applyZeroValues` take lists that end at the same element, and give one that does. -/
theorem Fits.visible (h : d.Fits) :
    ∃ visibleSizes, (d.hidden.union d.filtered).bind (applyZeroValues d.sizes) = some visibleSizes ∧
      visibleSizes.getLast?.map SpanData.index = d.sizes.getLast?.map SpanData.index := by
  obtain ⟨hsizes, hhidden, hfiltered⟩ := h
  obtain ⟨last, hlast⟩ : ∃ last, d.sizes.getLast? = some last := ⟨_, List.getLast?_eq_some_getLast hsizes⟩
  obtain ⟨first, hfirst⟩ : ∃ first, d.sizes.head? = some first := ⟨_, List.head?_eq_some_head hsizes⟩
  rw [hlast, Option.map_some] at hhidden
  have hmax : d.hidden.spanlist.getLastD 0 = last.index := by
    rw [List.getLastD_eq_getLast?, ← hhidden]
    rfl
  have hunion := getLast?_unionLoop _ hhidden.symm (hfiltered ▸ hhidden.symm) (le_refl _) d.hidden.startBit
    d.filtered.startBit (d.hidden.startBit || d.filtered.startBit)
  rw [BoolSpanList.union, if_pos hfiltered, hmax, Option.bind_some]
  simp only [applyZeroValues, hfirst, hlast]
  rw [if_pos hunion.symm]
  refine ⟨_, rfl, ?_⟩
  rw [← List.getLast?_map, Option.map_some]
  apply getLast?_zeroLoop _ _ hunion (le_refl _)
  rw [List.getLast?_map, hlast]
  rfl

theorem fits_of_visible {visibleSizes : List SpanData}
    (h : (d.hidden.union d.filtered).bind (applyZeroValues d.sizes) = some visibleSizes) : d.Fits := by
  rw [Option.bind_eq_some_iff] at h
  obtain ⟨invisible, hunion, happly⟩ := h
  rw [BoolSpanList.union] at hunion
  split at hunion
  · next hfiltered =>
    cases hunion
    rw [applyZeroValues] at happly
    split at happly
    · next first last hfirst hlast =>
      split at happly
      · next hend =>
        refine ⟨?_, ?_, hfiltered⟩
        · rintro hnil
          rw [hnil] at hlast
          cases hlast
        · rw [hlast, Option.map_some, hend]
          cases hhidden : d.hidden.spanlist.getLast? with
          | none =>
            rw [List.getLast?_eq_none_iff] at hhidden
            rw [hhidden, unionLoop_nil _ _ _ _ (.inl rfl)]
            rfl
          | some m =>
            rw [List.getLastD_eq_getLast?, hhidden]
            exact getLast?_unionLoop _ hhidden (hfiltered ▸ hhidden) (le_refl _) _ _ _
      · cases happly
    · cases happly
  · cases hunion

theorem Fits.consistent_regenerated (h : d.Fits) : d.regenerated.Consistent := by
  obtain ⟨visibleSizes, heq, hlast⟩ := h.visible
  rw [regenerated, heq]
  refine ⟨h, _, rfl, ?_⟩
  rw [← List.getLast?_map, map_index_addCustomData, List.getLast?_map]
  exact hlast

theorem updateVisible_of_fits (h : d.Fits) : updateVisible d = .ok () d.regenerated := by
  obtain ⟨visibleSizes, heq, -⟩ := h.visible
  rw [regenerated, heq]
  rw [Option.bind_eq_some_iff] at heq
  obtain ⟨invisible, hunion, happly⟩ := heq
  show (match d.hidden.union d.filtered with
    | none => _
    | some invisibleSpanList => _ : Act Unit) d = _
  rw [hunion]
  dsimp only
  rw [if_neg h.1, happly]
  rfl

theorem updateVisible_of_not_fits (h : ¬ d.Fits) : ∃ d', updateVisible d = .error .undefinedObject d' := by
  have hnone : (d.hidden.union d.filtered).bind (applyZeroValues d.sizes) = none :=
    Option.eq_none_iff_forall_ne_some.mpr fun _ heq => h (fits_of_visible heq)
  show ∃ d', (match d.hidden.union d.filtered with
    | none => _
    | some invisibleSpanList => _ : Act Unit) d = _
  cases hunion : d.hidden.union d.filtered with
  | none => exact ⟨_, rfl⟩
  | some invisible =>
    rw [hunion, Option.bind_some] at hnone
    dsimp only
    split
    · exact ⟨d, rfl⟩
    · rw [hnone]
      exact ⟨_, rfl⟩

/-- A field that is loaded, or is not. -/
theorem loadField_run {α : Type} (key : String) (json : Json) (parse : Bytes → Option α)
    (set : α → Dimension → Dimension) : loadField (json.get? key) parse set d =
      .ok (fieldLoads (some json) key parse) ((loaded (some json) key parse).elim d (set · d)) := by
  unfold loadField
  rw [fieldLoads, loaded, Option.bind_some]
  cases json.get? key with
  | none => rfl
  | some value =>
    rw [Option.bind_some]
    dsimp only
    cases value.text?.bind parse with
    | none => rfl
    | some a => rfl

/-- All that can be loaded is, and then the visible sizes are made if nothing has failed. -/
theorem update_run {json : Json} (hobject : json.isObject = true) (hnull : json.isNull = false) :
    update json d = (do
      if loads (some json) && hasLists (some json) then updateVisible
      return loads (some json) : Act Bool) (d.withLoaded (some json)) := by
  have hloads : loads (some json) = (fieldLoads (some json) "sizes" parseSpanList &&
      fieldLoads (some json) "hidden" parseBoolSpanList && fieldLoads (some json) "filtered" parseBoolSpanList &&
      fieldLoads (some json) "groups" DimensionOutlines.load) := by
    rw [loads, Option.all_some, hobject, Bool.true_and]
  rw [update, hobject, hnull, hloads]
  simp only [Bool.not_true, Bool.false_eq_true, if_false]
  rw [bind_of_ok (loadField_run _ _ _ _), bind_of_ok (loadField_run _ _ _ _), bind_of_ok (loadField_run _ _ _ _),
    bind_of_ok (loadField_run _ _ _ _), withLoaded]
  cases loaded (some json) "sizes" parseSpanList <;> cases loaded (some json) "hidden" parseBoolSpanList <;>
    cases loaded (some json) "filtered" parseBoolSpanList <;>
    cases loaded (some json) "groups" DimensionOutlines.load <;> rfl

theorem withLoaded_of_get? (h : ∀ key, part.bind (Json.get? key) = none) : d.withLoaded part = d := by
  have hloaded : ∀ {α : Type} (key : String) (parse : Bytes → Option α), loaded part key parse = none := by
    intro α key parse
    rw [loaded, h]
    rfl
  rw [withLoaded, hloaded, hloaded, hloaded, hloaded]
  rfl

end Dimension

theorem Json.isNull_of_given {msg json : Json} {key : String} (h : msg.given key = some json) :
    json.isNull = false := by
  rw [Json.given, Option.filter_eq_some_iff] at h
  cases json with
  | null => exact absurd h.2 Bool.false_ne_true
  | _ => rfl

namespace SheetGeometry

open Dimension (Answer FitsWith taking withLoaded_of_get?)

variable {d : Dimension} {msg : Json} {key : String}

/-- **The update of a dimension** that does not throw. -/
theorem updateGiven_of_fits (h : d.FitsWith (msg.given key)) :
    updateGiven (msg.given key) d = .ok (loads (msg.given key)) (d.taking (msg.given key)) := by
  cases hpart : msg.given key with
  | none => rw [taking, withLoaded_of_get? fun _ => rfl]; rfl
  | some json =>
    rw [hpart] at h
    show Dimension.update json d = _
    cases hobject : json.isObject with
    | false =>
      have hget : ∀ key, (some json).bind (Json.get? key) = none := by
        intro key
        cases json with
        | object fields => cases hobject
        | _ => rfl
      have hloads : loads (some json) = false := by
        rw [loads, Option.all_some, hobject, Bool.false_and]
      rw [Dimension.update, hobject, taking, hloads, withLoaded_of_get? hget]
      rfl
    | true =>
      rw [Dimension.update_run hobject (Json.isNull_of_given hpart), taking]
      cases hloads : loads (some json) with
      | false => rfl
      | true =>
        cases hlists : hasLists (some json) with
        | false => rfl
        | true =>
          rw [Bool.and_self, if_pos rfl, if_pos rfl, bind_of_ok (Dimension.updateVisible_of_fits (h hloads hlists))]
          rfl

theorem updateGiven_of_not_fits (h : ¬ d.FitsWith (msg.given key)) :
    ∃ d', updateGiven (msg.given key) d = .error .undefinedObject d' := by
  simp only [FitsWith, not_forall] at h
  obtain ⟨hloads, hlists, hfits⟩ := h
  cases hpart : msg.given key with
  | none =>
    rw [hpart] at hlists
    cases hlists
  | some json =>
    rw [hpart] at hloads hlists hfits
    have hobject : json.isObject = true := by
      rw [loads, Option.all_some, Bool.and_eq_true] at hloads
      exact hloads.1
    obtain ⟨d', hthrows⟩ := Dimension.updateVisible_of_not_fits hfits
    refine ⟨d', ?_⟩
    show Dimension.update json d = _
    rw [Dimension.update_run hobject (Json.isNull_of_given hpart), hloads, hlists, Bool.and_self, if_pos rfl]
    exact bind_of_error hthrows

/-! ## Both dimensions -/

/-- Two geometries with the same part and with dimensions that are alike. -/
structure AlikeParts (G G' : SheetGeometry) : Prop where
  part : G.part = G'.part
  columns : Alike Dimension.call G.columns G'.columns
  rows : Alike Dimension.call G.rows G'.rows

section
variable {α : Type} {m : Dimension.Act α}

theorem respects_onColumns (hm : Respects (Alike Dimension.call) m) : Respects AlikeParts (onColumns m) :=
  respects_onPart hm (fun _ _ h => h.columns) fun _ _ _ _ h hcolumns => ⟨h.part, hcolumns, h.rows⟩

theorem respects_onRows (hm : Respects (Alike Dimension.call) m) : Respects AlikeParts (onRows m) :=
  respects_onPart hm (fun _ _ h => h.rows) fun _ _ _ _ h hrows => ⟨h.part, h.columns, hrows⟩

theorem respects_updateGiven (part : Option Json) : Respects (Alike Dimension.call) (updateGiven part) := by
  cases part with
  | none => exact respects_pure true
  | some json =>
    have h := respects_alike Dimension.call (.update json)
    exact respects_of_map (fun a b heq => Answer.bool.inj heq) h

theorem respects_done {m : Dimension.Act Unit}
    (h : Respects (Alike Dimension.call) ((fun _ => Answer.done) <$> m)) : Respects (Alike Dimension.call) m :=
  respects_of_map (fun _ _ _ => rfl) h

end

theorem respects_call (c : Call) : Respects AlikeParts (call c) := by
  cases c with
  | update sheetGeomJSON checkCompleteness part =>
    apply respects_map
    have hmax : ∀ updateOK, Respects AlikeParts (do
        onColumns (Dimension.setMaxIndex ((sheetGeomJSON.decimal? "maxtiledcolumn").getD 0))
        onRows (Dimension.setMaxIndex ((sheetGeomJSON.decimal? "maxtiledrow").getD 0))
        return updateOK : Act Bool) := by
      intro updateOK
      apply respects_bind (respects_onColumns (respects_done (respects_alike Dimension.call (.setMaxIndex _))))
      intro _
      apply respects_bind (respects_onRows (respects_done (respects_alike Dimension.call (.setMaxIndex _))))
      exact fun _ => respects_pure updateOK
    have hvalid : ∀ part, Respects AlikeParts (do
        let columnsOK ← onColumns (updateGiven (sheetGeomJSON.given "columns"))
        let rowsOK ← onRows (updateGiven (sheetGeomJSON.given "rows"))
        let updateOK := columnsOK && rowsOK
        if updateOK then modify fun G => { G with part := part }
        onColumns (Dimension.setMaxIndex ((sheetGeomJSON.decimal? "maxtiledcolumn").getD 0))
        onRows (Dimension.setMaxIndex ((sheetGeomJSON.decimal? "maxtiledrow").getD 0))
        return updateOK : Act Bool) := by
      intro part
      apply respects_bind (respects_onColumns (respects_updateGiven _))
      intro columnsOK
      apply respects_bind (respects_onRows (respects_updateGiven _))
      intro rowsOK
      apply respects_ite
      · apply respects_bind _ fun _ => hmax _
        exact respects_modify fun _ _ h => ⟨rfl, h.columns, h.rows⟩
      · exact hmax _
    rw [update]
    apply respects_ite
    · exact respects_bind (respects_throw _) fun _ => respects_ite (respects_pure false) (hvalid part)
    · exact respects_ite (respects_pure false) (hvalid part)
  | setTileGeometryData tileWidthTwips tileHeightTwips tileSizePixels updatePositions =>
    apply respects_map
    apply respects_bind
    · exact respects_onColumns (respects_done (respects_alike Dimension.call (.setTileGeometryData _ _ _)))
    · intro _
      exact respects_onRows (respects_done (respects_alike Dimension.call (.setTileGeometryData _ _ _)))
  | setViewArea topLeftTwipsPoint sizeTwips =>
    apply respects_map
    apply respects_bind
    · exact respects_onColumns (respects_done (respects_alike Dimension.call (.setViewLimits _ _)))
    · intro _
      apply respects_bind
      · exact respects_onRows (respects_done (respects_alike Dimension.call (.setViewLimits _ _)))
      · exact fun _ => respects_pure true
  | getPart =>
    intro G G' h
    refine ⟨?_, h⟩
    show Except.ok (Answer.index (some G.part)) = .ok (.index (some G'.part))
    rw [h.part]
  | columns c => exact respects_onColumns (respects_alike Dimension.call c)
  | rows c => exact respects_onRows (respects_alike Dimension.call c)

/-- **A geometry answers as its dimensions do.** -/
theorem alike_iff {G G' : SheetGeometry} : Alike call G G' ↔ AlikeParts G G' := by
  constructor
  · intro h
    refine ⟨?_, fun calls => ?_, fun calls => ?_⟩
    · have hpart := h.outcome_eq .getPart
      exact Option.some.inj (Answer.index.inj (Except.ok.inj hpart))
    · have hcolumns : ∀ (G : SheetGeometry) (calls : List Dimension.Call),
          outcomes call G (calls.map .columns) = outcomes Dimension.call G.columns calls :=
        outcomes_onPart (fun _ => rfl) fun _ _ => rfl
      rw [← hcolumns, ← hcolumns]
      exact h _
    · have hrows : ∀ (G : SheetGeometry) (calls : List Dimension.Call),
          outcomes call G (calls.map .rows) = outcomes Dimension.call G.rows calls :=
        outcomes_onPart (fun _ => rfl) fun _ _ => rfl
      rw [← hrows, ← hrows]
      exact h _
  · exact fun h => alike_of respects_call h

end SheetGeometry

end Oxool.Sheet
