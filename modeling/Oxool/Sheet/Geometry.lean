import Mathlib.Data.Rat.Floor
import Oxool.Common.Protocol
import Oxool.Lib.BinarySearch

/-!
# The geometry of a sheet (`browser/src/layer/tile/SheetGeometry.ts`)

The browser knows the rows of a sheet, and the columns in the same way, from three lists of spans:
the sizes in print twips, the hidden elements and the filtered ones. It keeps one list of the sizes
that can be seen, with the positions at which each span ends: in print twips, in the pixels that the
core paints at the current zoom, and in tile twips, which are those pixels as twips again. All
answers are made from that list.

Numbers are exact here. `none` stands for `undefined`, for an exception, and for a result that is no
finite number.
-/

set_option autoImplicit false

namespace Oxool.Sheet

open Oxool.Http (Bytes ascii isDigit)
open Oxool.Protocol

/-! ## Encodings -/

def colon : UInt8 := 58

/-- `parseInt` without a radix; `none` is `NaN`. -/
def parseInt (s : Bytes) : Option Int :=
  let number := splitSign (s.dropWhile isSpace)
  let isHex := number.2.take 2 = ascii "0x" ∨ number.2.take 2 = ascii "0X"
  let digits :=
    if isHex then (number.2.drop 2).takeWhile fun b => (Http.hexDigitFromChar b).isSome
    else number.2.takeWhile isDigit
  let value :=
    if isHex then readDigits 16 (fun b : UInt8 => (Http.hexDigitFromChar b).getD 0) digits
    else digitsValue digits
  if digits = [] then none else some (signed number.1 value)

/-- A span ends with the element `index`. -/
structure SpanData where
  index : Int
  value : Int
deriving DecidableEq

/-- Spans of a bit that changes from one to the next, by their last elements. -/
structure BoolSpanList where
  startBit : Bool
  spanlist : List Int
deriving DecidableEq

def parseSpan (split : Bytes) : Option SpanData :=
  match split.splitOn colon with
  | [value, index] => do
    let index ← parseInt index
    let value ← parseInt value
    return ⟨index, value⟩
  | _ => none

/-- `parseSpanListEncoding`, for values. -/
def parseSpanList (encoding : Bytes) : Option (List SpanData) :=
  let splits := encoding.splitOn blank
  if splits.length < 2 then none else splits.dropLast.mapM parseSpan

/-- `parseSpanListEncoding`, for bits. -/
def parseBoolSpanList (encoding : Bytes) : Option BoolSpanList :=
  let splits := encoding.splitOn blank
  if splits.length < 2 then none
  else
    match (splits.headD []).splitOn colon with
    | [startBit, first] => do
      let startBitInt ← parseInt startBit
      let first ← parseInt first
      let entries ← splits.dropLast.tail.mapM parseInt
      return ⟨startBitInt ≠ 0, first :: entries⟩
    | _ => none

/-! ## Lists of spans -/

/-- The loop of `union`. -/
def unionLoop (maxElement : Int) : Nat → List Int → List Int → Bool → Bool → Bool → List Int
  | fuel + 1, thisElement :: this, otherElement :: other, thisBit, otherBit, resultBit =>
    let lastElement := if thisElement < otherElement then thisElement else otherElement
    let this' := if otherElement < thisElement then thisElement :: this else this
    let other' := if thisElement < otherElement then otherElement :: other else other
    let thisBit' := if otherElement < thisElement then thisBit else !thisBit
    let otherBit' := if thisElement < otherElement then otherBit else !otherBit
    let nextResultBit := thisBit' || otherBit'
    if resultBit ≠ nextResultBit ∨ maxElement ≤ lastElement then
      lastElement :: unionLoop maxElement fuel this' other' thisBit' otherBit' nextResultBit
    else unionLoop maxElement fuel this' other' thisBit' otherBit' resultBit
  | _, _, _, _, _, _ => []

/-- `BoolSpanList.union`, of lists with the same range. -/
def BoolSpanList.union (this other : BoolSpanList) : Option BoolSpanList :=
  if this.spanlist.getLast? = other.spanlist.getLast? then
    some {
      startBit := this.startBit || other.startBit
      spanlist := unionLoop (this.spanlist.getLastD 0) (this.spanlist.length + other.spanlist.length)
        this.spanlist other.spanlist this.startBit other.startBit (this.startBit || other.startBit) }
  else none

/-- The loop of `applyZeroValues`. -/
def zeroLoop (maxElement : Int) : Nat → List SpanData → List Int → Bool → Int → List SpanData
  | fuel + 1, thisSpan :: this, otherElement :: other, zeroBit, resultValue =>
    let lastElement := if thisSpan.index < otherElement then thisSpan.index else otherElement
    let this' := if otherElement < thisSpan.index then thisSpan :: this else this
    let other' := if thisSpan.index < otherElement then otherElement :: other else other
    let zeroBit' := if thisSpan.index < otherElement then zeroBit else !zeroBit
    let nextResultValue :=
      match this' with
      | [] => resultValue
      | span :: _ => if zeroBit' then 0 else span.value
    if resultValue ≠ nextResultValue ∨ maxElement ≤ lastElement then
      ⟨lastElement, resultValue⟩ :: zeroLoop maxElement fuel this' other' zeroBit' nextResultValue
    else zeroLoop maxElement fuel this' other' zeroBit' resultValue
  | _, _, _, _, _ => []

/-- `SpanList.applyZeroValues`. -/
def applyZeroValues (spanlist : List SpanData) (other : BoolSpanList) : Option (List SpanData) :=
  match spanlist.head?, spanlist.getLast? with
  | some first, some last =>
    if some last.index = other.spanlist.getLast? then
      some (zeroLoop last.index (spanlist.length + other.spanlist.length) spanlist other.spanlist
        other.startBit (if other.startBit then 0 else first.value))
    else none
  | _, _ => none

/-- A span with its custom data: the size of an element in core pixels, and the positions at the end
of the span. -/
structure Span where
  index : Int
  value : Int
  sizecore : Int
  poscorepx : Int
  postiletwips : Int
  posprinttwips : Int
deriving DecidableEq

/-- `addCustomDataForEachSpan`, with the callback of `_updatePositions`. -/
def addCustomData (twipsPerCorePixel : ℚ) : Int → Int → Int → List SpanData → List Span
  | _, _, _, [] => []
  | prevIndex, posCorePx, posPrintTwips, span :: spans =>
    let spanLength := span.index - prevIndex
    let sizeCorePxOne := ⌊(span.value : ℚ) / twipsPerCorePixel⌋
    let posCorePx' := posCorePx + sizeCorePxOne * spanLength
    let posPrintTwips' := posPrintTwips + span.value * spanLength
    { index := span.index
      value := span.value
      sizecore := sizeCorePxOne
      poscorepx := posCorePx'
      postiletwips := ⌊(posCorePx' : ℚ) * twipsPerCorePixel⌋
      posprinttwips := posPrintTwips' } ::
    addCustomData twipsPerCorePixel span.index posCorePx' posPrintTwips' spans

/-- A span with its first element. -/
structure SpanView where
  start : Int
  span : Span

/-- `_getSpanData`, of all spans. -/
def views : Int → List Span → List SpanView
  | _, [] => []
  | start, span :: spans => ⟨start, span⟩ :: views (span.index + 1) spans

/-- The direction of `_searchByIndex`. -/
def directionByIndex (spans : List Span) (testIndex : Int) (i : Nat) : Ordering :=
  match (views 0 spans)[i]? with
  | none => .gt
  | some v => if testIndex < v.start then .lt else if v.span.index < testIndex then .gt else .eq

/-- The direction of `_searchByCustomDataField`. -/
def directionByField (field : Span → Int) (spans : List Span) (testValue : ℚ) (i : Nat) : Ordering :=
  match spans[i]? with
  | none => .gt
  | some curSpan =>
    let valueStart : Int :=
      match i with
      | 0 => 0
      | j + 1 => (spans[j]?.map field).getD 0
    let valueEnd : Int := field curSpan - if (spans[i + 1]?).isSome then 1 else 0
    if testValue < valueStart then .lt else if valueEnd < testValue then .gt else .eq

def getSpanDataByIndex (spans : List Span) (index : Int) : Option SpanView :=
  (binarySearch (directionByIndex spans index) spans.length false).bind fun id => (views 0 spans)[id]?

def getSpanDataByCustomDataField (field : Span → Int) (spans : List Span) (value : ℚ) :
    Option SpanView :=
  (binarySearch (directionByField field spans value) spans.length true).bind fun id =>
    (views 0 spans)[id]?

/-- The spans the loop of `forEachSpanInRange` comes by. -/
def visited (last : Int) : List SpanView → List SpanView
  | [] => []
  | v :: rest => v :: if v.span.index ≤ last then visited last rest else []

def spansInRange (spans : List Span) (start last : Int) : List SpanView :=
  if last < start then []
  else
    match binarySearch (directionByIndex spans start) spans.length false with
    | none => []
    | some id => visited last ((views 0 spans).drop id)

/-! ## A dimension -/

inductive GeometryUnit
  | corepixels
  | tiletwips
  | printtwips
deriving DecidableEq

structure DimensionPosSize where
  startpos : Int
  size : Int
deriving DecidableEq

structure SheetDimension where
  sizes : List SpanData
  hidden : BoolSpanList
  filtered : BoolSpanList
  visibleSizes : List Span
  maxIndex : Int
  tileSizeTwips : ℚ
  tileSizePixels : ℚ

namespace SheetDimension

variable (d : SheetDimension)

def twipsPerCorePixel : ℚ := d.tileSizeTwips / d.tileSizePixels

def coreZoomFactor : ℚ := d.tileSizePixels * 15 / d.tileSizeTwips

def updatePositions : SheetDimension :=
  { d with visibleSizes :=
      addCustomData d.twipsPerCorePixel (-1) 0 0 (d.visibleSizes.map fun s => ⟨s.index, s.value⟩) }

def updateVisible : Option SheetDimension := do
  let invisibleSpanList ← d.hidden.union d.filtered
  let visibleSizes ← applyZeroValues d.sizes invisibleSpanList
  return { d with visibleSizes := addCustomData d.twipsPerCorePixel (-1) 0 0 visibleSizes }

/-- `update`, where all three lists are given and can be loaded. -/
def update (sizes hidden filtered : Bytes) : Option SheetDimension := do
  let sizes ← parseSpanList sizes
  let hidden ← parseBoolSpanList hidden
  let filtered ← parseBoolSpanList filtered
  updateVisible { d with sizes := sizes, hidden := hidden, filtered := filtered }

def setTileGeometryData (tileSizeTwips tileSizePixels : ℚ) : SheetDimension :=
  if d.tileSizeTwips = tileSizeTwips ∧ d.tileSizePixels = tileSizePixels then d
  else updatePositions { d with tileSizeTwips := tileSizeTwips, tileSizePixels := tileSizePixels }

/-- The dimension that the constructor of `SheetGeometry` makes of a message of the core. -/
def ofMessage (tileSizeTwips tileSizePixels : ℚ) (maxIndex : Int) (sizes hidden filtered : Bytes) :
    Option SheetDimension := do
  let d ← update ⟨[], ⟨false, []⟩, ⟨false, []⟩, [], 0, tileSizeTwips, tileSizePixels⟩
    sizes hidden filtered
  return { d with maxIndex := maxIndex }

/-- `_getElementDataAnyFromSpanByIndex`. -/
def getElementDataAnyFromSpanByIndex (index : Int) (v : SpanView) (unitName : GeometryUnit) :
    Option DimensionPosSize :=
  if index < v.start ∨ v.span.index < index then none
  else
    let numSizes := v.span.index - index + 1
    let startpx := v.span.poscorepx - v.span.sizecore * numSizes
    match unitName with
    | .corepixels => some ⟨startpx, v.span.sizecore⟩
    | .printtwips => some ⟨v.span.posprinttwips - v.span.value * numSizes, v.span.value⟩
    | .tiletwips =>
      some ⟨⌊(startpx : ℚ) * d.twipsPerCorePixel⌋, ⌊(v.span.sizecore : ℚ) * d.twipsPerCorePixel⌋⟩

def getElementDataAny (index : Int) (unitName : GeometryUnit) : Option DimensionPosSize :=
  (getSpanDataByIndex d.visibleSizes index).bind fun v =>
    d.getElementDataAnyFromSpanByIndex index v unitName

/-- `getElementData`, at the current zoom. -/
def getElementData (index : Int) : Option DimensionPosSize := d.getElementDataAny index .corepixels

/-- The callback of `getElementData` with a zoom. -/
def addSpanAtZoom (zoomScale : ℚ) (index : Int) (sum : DimensionPosSize) (v : SpanView) :
    DimensionPosSize :=
  let count := v.span.index - v.start + 1
  let sizeOneCorePx := ⌊(v.span.value : ℚ) * zoomScale / 15⌋
  if v.span.index < index then { sum with startpos := sum.startpos + sizeOneCorePx * count }
  else if v.start ≤ index ∧ index ≤ v.span.index then
    ⟨sum.startpos + sizeOneCorePx * (index - v.start), sizeOneCorePx⟩
  else sum

/-- `getElementData`, at another zoom. -/
def getElementDataAtZoom (index : Int) (zoomScale : ℚ) : DimensionPosSize :=
  (spansInRange d.visibleSizes 0 index).foldl (addSpanAtZoom zoomScale index) ⟨0, 0⟩

/-! ## Positions -/

/-- `Math.floor` of a quotient. -/
def floorDiv (a b : ℚ) : Option Int := if b = 0 then none else some ⌊a / b⌋

/-- An element and the span it was found in. -/
structure IndexAndSpan where
  index : Option Int
  span : Option SpanView

/-- The limits, for a position in no span. -/
def limit (pos : ℚ) : IndexAndSpan :=
  let index := if 0 ≤ pos then d.maxIndex else 0
  ⟨some index, getSpanDataByIndex d.visibleSizes index⟩

def getSpanAndIndexFromTileTwipsPos (pos : ℚ) : IndexAndSpan :=
  match getSpanDataByCustomDataField Span.postiletwips d.visibleSizes pos with
  | none => d.limit pos
  | some v =>
    let elementCount := v.span.index - v.start + 1
    let posStart : ℚ := (v.span.poscorepx - v.span.sizecore * elementCount : Int) * d.twipsPerCorePixel
    let posEnd : ℚ := v.span.postiletwips
    let sizeOne := (posEnd - posStart) / elementCount
    ⟨(floorDiv (pos - posStart) sizeOne).map (v.start + ·), some v⟩

def getSpanAndIndexFromPrintTwipsPos (pos : ℚ) : IndexAndSpan :=
  match getSpanDataByCustomDataField Span.posprinttwips d.visibleSizes pos with
  | none => d.limit pos
  | some v =>
    let elementCount := v.span.index - v.start + 1
    let posStart : ℚ := (v.span.posprinttwips - v.span.value * elementCount : Int)
    let sizeOne : ℚ := v.span.value
    ⟨(floorDiv (pos - posStart) sizeOne).map (v.start + ·), some v⟩

/-- `_getElementDataAnyFromSpanByIndex`, of what a position led to. -/
def elementData (element : IndexAndSpan) (unitName : GeometryUnit) : Option DimensionPosSize := do
  let index ← element.index
  let span ← element.span
  d.getElementDataAnyFromSpanByIndex index span unitName

/-- `getTileTwipsPosFromPrint`, at the current zoom. -/
def getTileTwipsPosFromPrint (posPT : ℚ) : Option ℚ := do
  let element := d.getSpanAndIndexFromPrintTwipsPos posPT
  let elementDataTT ← d.elementData element .tiletwips
  let elementDataPT ← d.elementData element .printtwips
  return elementDataTT.startpos + (posPT - elementDataPT.startpos)

def getPrintTwipsPosFromTile (posTT : ℚ) : Option ℚ := do
  let element := d.getSpanAndIndexFromTileTwipsPos posTT
  let elementDataTT ← d.elementData element .tiletwips
  let elementDataPT ← d.elementData element .printtwips
  return elementDataPT.startpos + (posTT - elementDataTT.startpos)

/-- What both lookups begin with. -/
def elementAt (pos : ℚ) : GeometryUnit → IndexAndSpan
  | .corepixels => d.getSpanAndIndexFromTileTwipsPos (pos * d.twipsPerCorePixel)
  | .tiletwips => d.getSpanAndIndexFromTileTwipsPos pos
  | .printtwips => d.getSpanAndIndexFromPrintTwipsPos pos

def getSnapPos (pos : ℚ) (unit : GeometryUnit) : Option Int :=
  (d.elementData (d.elementAt pos unit) unit).map DimensionPosSize.startpos

def getIndexFromPos (pos : ℚ) (unit : GeometryUnit) : Option Int := (d.elementAt pos unit).index

end SheetDimension

end Oxool.Sheet
