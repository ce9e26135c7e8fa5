import Oxool.Common.Protocol
import Oxool.Tile.TileDesc

/-!
# Tiles as text (`wsd/TileDesc.hpp`)

A tile travels as a line of fields, alone (`TileDesc::serialize`, `TileDesc::parse`) or with others
that share its parameters (`TileCombined`), where the fields in which they differ are lists. The two
readers do not read numbers alike. A single tile is read with `safe_atoi`, which stops at the largest
`int`, and a field of that value is not taken; a combined one is read with `strtol` and takes it.

That a tile survives its text is in `Oxool.Tile.RoundTrip`.
-/

set_option autoImplicit false

namespace Oxool

open Oxool.Http (Bytes ascii isDigit atoiLoop)
open Oxool.Protocol

def comma : UInt8 := 44

def intMax : Nat := 2 ^ 31 - 1

/-! ## Reading numbers -/

/-- `Util::safe_atoi`. -/
def safe_atoi (s : Bytes) : Int :=
  let number := splitSign (s.dropWhile isSpace)
  signed number.1 (atoiLoop 0 number.2)

/-- An `int` stored as a `uint32_t`. -/
def toUInt32 (n : Int) : UInt32 := UInt32.ofNat (n % 2 ^ 32).toNat

/-- `parseNameValuePair`. -/
def parseNameValuePair (token : Bytes) : Option (Bytes × Bytes) :=
  match token.dropWhile (· != equalSign) with
  | [] => none
  | _ :: value => some (token.takeWhile (· != equalSign), value)

/-- `StringVector::getNameIntegerPair`. -/
def getNameIntegerPair (token : Bytes) : Option (Bytes × Int) := do
  let (name, value) ← parseNameValuePair token
  let n := safe_atoi value
  if -2 ^ 31 < n ∧ n < intMax then some (name, n) else none

/-- `StringVector::getUInt32`. The value is stored also where the answer is no. -/
def getUInt32 (name token : Bytes) : Option UInt32 := do
  let value ← tokenString name token
  if value = [] then none else some (toUInt32 (safe_atoi value))

/-- `stringToInteger`. -/
def stringToInteger (input : Bytes) : Option Int :=
  match strtol input with
  | some (value, false) => some (toInt32 value)
  | _ => none

/-- `stringToUInt32`. -/
def stringToUInt32 (input : Bytes) : Option UInt32 := (stringToInteger input).map toUInt32

/-! ## A tile alone -/

namespace TileDesc

/-- The constructor, which throws on a negative field and on an empty size. -/
def ofInts (normalizedViewId part mode width height tilePosX tilePosY tileWidth tileHeight ver
    imgSize id : Int) (oldWireId wireId : UInt32) : Option TileDesc :=
  if h : 0 ≤ normalizedViewId ∧ 0 ≤ part ∧ 0 ≤ mode ∧ 0 < width ∧ 0 < height ∧ 0 ≤ tilePosX ∧
      0 ≤ tilePosY ∧ 0 < tileWidth ∧ 0 < tileHeight ∧ 0 ≤ imgSize then
    some {
      normalizedViewId := normalizedViewId.toNat
      part := part.toNat
      mode := mode.toNat
      width := width.toNat
      height := height.toNat
      tilePosX := tilePosX.toNat
      tilePosY := tilePosY.toNat
      tileWidth := tileWidth.toNat
      tileHeight := tileHeight.toNat
      ver := ver
      imgSize := imgSize.toNat
      id := id
      oldWireId := oldWireId
      wireId := wireId
      width_pos := by omega
      height_pos := by omega
      tileWidth_pos := by omega
      tileHeight_pos := by omega }
  else none

/-- The fields that are always written. -/
def fixedNumbers (t : TileDesc) : List (Bytes × Int) :=
  [(ascii "nviewid", t.normalizedViewId),
    (ascii "part", t.part),
    (ascii "width", t.width),
    (ascii "height", t.height),
    (ascii "tileposx", t.tilePosX),
    (ascii "tileposy", t.tilePosY),
    (ascii "tilewidth", t.tileWidth),
    (ascii "tileheight", t.tileHeight),
    (ascii "oldwid", t.oldWireId.toNat),
    (ascii "wid", t.wireId.toNat),
    (ascii "ver", t.ver)]

/-- The fields of a tile in its text, those after the version only where they say something. -/
def numbers (t : TileDesc) : List (Bytes × Int) :=
  t.fixedNumbers ++ (if 0 ≤ t.id then [(ascii "id", t.id)] else []) ++
    (if 0 < t.imgSize then [(ascii "imgsize", (t.imgSize : Int))] else []) ++
    (if t.mode ≠ 0 then [(ascii "mode", (t.mode : Int))] else [])

def textFields (t : TileDesc) : List (Bytes × Bytes) := t.numbers.map fun p => (p.1, decimal p.2)

/-- A line of fields after a word. -/
def textOf (word : Bytes) (pairs : List (Bytes × Bytes)) : Bytes :=
  word ++ fields blank (pairs.map fun p => pair p.1 p.2)

def serialize (t : TileDesc) (pre : Bytes) : Bytes := textOf pre t.textFields

/-- `serialize`, with a suffix. -/
def serializeLine (t : TileDesc) (pre suffix : Bytes) : Bytes := t.serialize pre ++ suffix

/-- An argument of `parse`: the last field of the name counts. -/
def argument (tokens : List Bytes) (name : Bytes) (default : Int) : Int :=
  ((tokens.filterMap getNameIntegerPair).reverse.lookup name).getD default

def wireIdArgument (tokens : List Bytes) (name : Bytes) : UInt32 :=
  (tokens.filterMap (getUInt32 name)).getLast?.getD 0

/-- `TileDesc::parse`; `none` where the constructor throws. -/
def parse (tokens : List Bytes) : Option TileDesc :=
  ofInts (argument tokens (ascii "nviewid") 0) (argument tokens (ascii "part") 0)
    (argument tokens (ascii "mode") 0) (argument tokens (ascii "width") 0)
    (argument tokens (ascii "height") 0) (argument tokens (ascii "tileposx") 0)
    (argument tokens (ascii "tileposy") 0) (argument tokens (ascii "tilewidth") 0)
    (argument tokens (ascii "tileheight") 0) (argument tokens (ascii "ver") (-1))
    (argument tokens (ascii "imgsize") 0) (argument tokens (ascii "id") (-1))
    (wireIdArgument tokens (ascii "oldwid")) (wireIdArgument tokens (ascii "wid"))

end TileDesc

/-! ## Tiles combined -/

namespace TileCombined

/-- A list of numbers, with a comma after each. -/
def commaEnded (numbers : List Int) : Bytes := numbers.flatMap fun n => decimal n ++ [comma]

/-- A list of numbers, with commas between them: the last comma is overwritten. -/
def commaList (numbers : List Int) : Bytes := (commaEnded numbers).dropLast

/-- The element of a list that may be left out. -/
def optional {β : Type} (read : Bytes → Option β) (default : β) (tokens : List Bytes) (i : Nat) :
    Option β :=
  if tokens.isEmpty then some default else read (tokens.getD i [])

/-- The lists that the constructor reads. -/
structure Lists where
  xs : List Bytes
  ys : List Bytes
  vers : List Bytes
  imgSizes : List Bytes
  oldWireIds : List Bytes
  wireIds : List Bytes

/-- One tile of the constructor's loop. -/
def tileAt (normalizedViewId part mode width height tileWidth tileHeight : Int) (lists : Lists)
    (i : Nat) : Option TileDesc := do
  let x ← stringToInteger (lists.xs.getD i [])
  let y ← stringToInteger (lists.ys.getD i [])
  let imgSize ← optional stringToInteger 0 lists.imgSizes i
  let ver ← optional stringToInteger (-1) lists.vers i
  let oldWireId ← optional stringToUInt32 0 lists.oldWireIds i
  let wireId ← optional stringToUInt32 0 lists.wireIds i
  TileDesc.ofInts normalizedViewId part mode width height x y tileWidth tileHeight ver imgSize (-1)
    oldWireId wireId

/-- The parameters that the tiles share. -/
def paramsOf (normalizedViewId part mode width height tileWidth tileHeight : Int) : CombineParams :=
  { part := part.toNat
    mode := mode.toNat
    width := width.toNat
    height := height.toNat
    tileWidth := tileWidth.toNat
    tileHeight := tileHeight.toNat
    normalizedViewId := normalizedViewId.toNat }

theorem combineParams_tileAt {normalizedViewId part mode width height tileWidth tileHeight : Int}
    {lists : Lists} {i : Nat} {t : TileDesc}
    (h : tileAt normalizedViewId part mode width height tileWidth tileHeight lists i = some t) :
    t.combineParams = paramsOf normalizedViewId part mode width height tileWidth tileHeight := by
  simp only [tileAt, Option.bind_eq_bind, Option.bind_eq_some_iff] at h
  obtain ⟨x, -, y, -, imgSize, -, ver, -, oldWireId, -, wireId, -, h⟩ := h
  rw [TileDesc.ofInts] at h
  split at h
  · obtain rfl := Option.some.inj h
    rfl
  · simp at h

/-- What a loop gives was given for one of its elements. -/
theorem exists_of_mapM {α β : Type} {f : α → Option β} {l : List α} {l' : List β}
    (h : l.mapM f = some l') : ∀ b ∈ l', ∃ a ∈ l, f a = some b := by
  induction l generalizing l' with
  | nil =>
    obtain rfl : [] = l' := by simpa using h
    simp
  | cons a l ih =>
    simp only [List.mapM_cons, Option.bind_eq_bind, Option.bind_eq_some_iff, Option.pure_def,
      Option.some.injEq] at h
    obtain ⟨b, hb, rest, hrest, rfl⟩ := h
    intro c hc
    rcases List.mem_cons.mp hc with rfl | hc
    · exact ⟨a, by simp, hb⟩
    · obtain ⟨a', ha', hf⟩ := ih hrest c hc
      exact ⟨a', List.mem_cons_of_mem _ ha', hf⟩

/-- A list has as many elements as there are tiles, or is left out. -/
def sameLength (n : Nat) (list : Bytes) : Bool :=
  list.isEmpty || (tokenize list comma).length == n

/-- The constructor from strings. -/
def ofStrings (normalizedViewId part mode width height : Int) (tilePositionsX tilePositionsY : Bytes)
    (tileWidth tileHeight : Int) (vers imgSizes oldWireIds wireIds : Bytes) : Option TileCombined :=
  let lists : Lists := {
    xs := tokenize tilePositionsX comma
    ys := tokenize tilePositionsY comma
    vers := tokenize vers comma
    imgSizes := tokenize imgSizes comma
    oldWireIds := tokenize oldWireIds comma
    wireIds := tokenize wireIds comma }
  let n := lists.xs.length
  if part < 0 ∨ mode < 0 ∨ width ≤ 0 ∨ height ≤ 0 ∨ tileWidth ≤ 0 ∨ tileHeight ≤ 0 then none
  else if !(lists.ys.length == n && sameLength n imgSizes && sameLength n vers &&
      sameLength n oldWireIds && sameLength n wireIds) then none
  else
    ((List.range n).mapM
      (tileAt normalizedViewId part mode width height tileWidth tileHeight lists)).pmap
      (fun tiles shared => {
        params := paramsOf normalizedViewId part mode width height tileWidth tileHeight
        tiles := tiles
        isCompiled := true
        shared := shared })
      (fun _ htiles t ht =>
        let ⟨_, _, h⟩ := exists_of_mapM htiles t ht
        combineParams_tileAt h)

/-- A string argument of `parse`: the last field of the name counts. -/
def stringArgument (pairs : List (Bytes × Bytes)) (name : Bytes) : Bytes :=
  (pairs.reverse.lookup name).getD []

/-- An integer argument: the last field of the name that is a number. -/
def argument (pairs : List (Bytes × Bytes)) (name : Bytes) : Int :=
  ((pairs.filterMap fun p => (stringToInteger p.2).map fun n => (p.1, n)).reverse.lookup name).getD 0

/-- `TileCombined::parse`; `none` where it throws. -/
def parse (tokens : List Bytes) : Option TileCombined :=
  let pairs := tokens.filterMap parseNameValuePair
  ofStrings (argument pairs (ascii "nviewid")) (argument pairs (ascii "part"))
    (argument pairs (ascii "mode")) (argument pairs (ascii "width")) (argument pairs (ascii "height"))
    (stringArgument pairs (ascii "tileposx")) (stringArgument pairs (ascii "tileposy"))
    (argument pairs (ascii "tilewidth")) (argument pairs (ascii "tileheight"))
    (stringArgument pairs (ascii "ver")) (stringArgument pairs (ascii "imgsize"))
    (stringArgument pairs (ascii "oldwid")) (stringArgument pairs (ascii "wid"))

/-- `TileCombined::create`. -/
def create (first : TileDesc) (tiles : List TileDesc) : Option TileCombined :=
  ofStrings first.normalizedViewId first.part first.mode first.width first.height
    (commaEnded (tiles.map fun t => (t.tilePosX : Int)))
    (commaEnded (tiles.map fun t => (t.tilePosY : Int))) first.tileWidth first.tileHeight
    (commaEnded (tiles.map TileDesc.ver)) []
    (commaEnded (tiles.map fun t => (t.oldWireId.toNat : Int)))
    (commaEnded (tiles.map fun t => (t.wireId.toNat : Int)))

def textFields (c : TileCombined) : List (Bytes × Bytes) :=
  [(ascii "nviewid", decimal c.params.normalizedViewId),
    (ascii "part", decimal c.params.part),
    (ascii "width", decimal c.params.width),
    (ascii "height", decimal c.params.height),
    (ascii "tileposx", commaList (c.tiles.map fun t => (t.tilePosX : Int))),
    (ascii "tileposy", commaList (c.tiles.map fun t => (t.tilePosY : Int))),
    (ascii "imgsize", commaList (c.tiles.map fun t => (t.imgSize : Int))),
    (ascii "tilewidth", decimal c.params.tileWidth),
    (ascii "tileheight", decimal c.params.tileHeight),
    (ascii "ver", commaList (c.tiles.map TileDesc.ver)),
    (ascii "oldwid", commaList (c.tiles.map fun t => (t.oldWireId.toNat : Int))),
    (ascii "wid", commaList (c.tiles.map fun t => (t.wireId.toNat : Int)))] ++
  (if c.params.mode ≠ 0 then [(ascii "mode", decimal c.params.mode)] else [])

def serialize (c : TileCombined) (pre : Bytes) : Bytes := TileDesc.textOf pre c.textFields

/-- `serialize`, with a suffix. -/
def serializeLine (c : TileCombined) (pre suffix : Bytes) : Bytes := c.serialize pre ++ suffix

end TileCombined

end Oxool
