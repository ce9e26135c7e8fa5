import Oxool.Tile.RoundTrip

/-!
# What survives at the limits of an `int`

The two readers of `wsd/TileDesc.hpp` differ where a number is as large as its type allows. A tile
alone goes through `safe_atoi`, which answers every number from 2³¹-1 on with 2³¹-1, and a field of
that value is then passed over; so a tile comes back as it was exactly when its fields and its wire
ids stay below (`Readable`). A combined tile goes through `strtol`, and comes back whatever its
numbers are.
-/

set_option autoImplicit false

namespace Oxool

open Oxool.Http (Bytes ascii)
open Oxool.Protocol

namespace TileDesc

/-- The fields are of the type the code has for them. -/
structure IsInts (t : TileDesc) : Prop where
  params : t.combineParams.IsInts
  tilePosX : IsInt32 t.tilePosX
  tilePosY : IsInt32 t.tilePosY
  ver : IsInt32 t.ver
  imgSize : IsInt32 t.imgSize
  id : IsInt32 t.id

/-- The fields that the text of `t` has are the same in `u`. -/
structure SameFields (t u : TileDesc) : Prop where
  normalizedViewId : u.normalizedViewId = t.normalizedViewId
  part : u.part = t.part
  width : u.width = t.width
  height : u.height = t.height
  tilePosX : u.tilePosX = t.tilePosX
  tilePosY : u.tilePosY = t.tilePosY
  tileWidth : u.tileWidth = t.tileWidth
  tileHeight : u.tileHeight = t.tileHeight
  oldWireId : u.oldWireId = t.oldWireId
  wireId : u.wireId = t.wireId
  ver : u.ver = t.ver
  id : 0 ≤ t.id → u.id = t.id
  imgSize : 0 < t.imgSize → u.imgSize = t.imgSize
  mode : t.mode ≠ 0 → u.mode = t.mode

/-- No field is the largest `int`, the version is not the smallest one either, and the wire ids are
no larger than the largest `int`. -/
structure Readable (t : TileDesc) : Prop where
  normalizedViewId : t.normalizedViewId < intMax
  part : t.part < intMax
  mode : t.mode < intMax
  width : t.width < intMax
  height : t.height < intMax
  tilePosX : t.tilePosX < intMax
  tilePosY : t.tilePosY < intMax
  tileWidth : t.tileWidth < intMax
  tileHeight : t.tileHeight < intMax
  ver : -2 ^ 31 < t.ver ∧ t.ver < intMax
  imgSize : t.imgSize < intMax
  id : t.id < intMax
  oldWireId : t.oldWireId.toNat ≤ intMax
  wireId : t.wireId.toNat ≤ intMax

/-! ## One field -/

/-- A number comes back unless it is at one of the limits. -/
theorem fieldNumber_getD {n default : Int} (hn : IsInt32 n) (hdefault : default = 0 ∨ default = -1) :
    (fieldNumber (decimal n)).getD default = n ↔ -2 ^ 31 < n ∧ n < intMax := by
  have hmax : intMax = 2 ^ 31 - 1 := rfl
  have hread := safe_atoi_decimal n
  rw [signed] at hread
  obtain ⟨hlow, hhigh⟩ := hn
  constructor
  · intro h
    rw [fieldNumber] at h
    split at hread <;> rename_i hneg <;> simp only [decide_eq_true_eq] at hneg <;>
      split at h <;> simp only [Option.getD_some, Option.getD_none] at h <;> omega
  · rintro ⟨hlow', hhigh'⟩
    have heq : safe_atoi (decimal n) = n := safe_atoi_decimal_eq hlow' hhigh'
    rw [fieldNumber, heq, if_pos ⟨hlow', hhigh'⟩]
    rfl

/-- A wire id comes back unless it is above the largest `int`. -/
theorem toUInt32_safe_atoi {w : UInt32} :
    toUInt32 (safe_atoi (decimal w.toNat)) = w ↔ w.toNat ≤ intMax := by
  have hmax : intMax = 2 ^ 31 - 1 := rfl
  have hlt : w.toNat < 2 ^ 32 := w.toNat_lt
  have hread : safe_atoi (decimal w.toNat) = (min w.toNat intMax : Nat) := by
    rw [safe_atoi_decimal, signed, if_neg (by simp)]
    rfl
  have hmod : ((min w.toNat intMax : Nat) : Int) % 2 ^ 32 = (min w.toNat intMax : Nat) :=
    Int.emod_eq_of_lt (by omega) (by omega)
  rw [hread, toUInt32, hmod, Int.toNat_natCast]
  constructor
  · intro h
    have hnat := congrArg UInt32.toNat h
    rw [UInt32.toNat_ofNat_of_lt' (by omega : min w.toNat intMax < 2 ^ 32)] at hnat
    omega
  · intro h
    rw [Nat.min_eq_left h]
    exact UInt32.ofNat_toNat

/-- What `parse` makes of a field that is written. -/
theorem argument_eq_iff {t : TileDesc} {name : Bytes} {n default : Int} (h : (name, n) ∈ t.numbers)
    (hn : IsInt32 n) (hdefault : default = 0 ∨ default = -1) :
    argument t.tokensOf name default = n ↔ -2 ^ 31 < n ∧ n < intMax := by
  rw [argument_tokensOf h, fieldNumber_getD hn hdefault]

theorem argument_nat_iff {t : TileDesc} {name : Bytes} {n : Nat} (h : (name, (n : Int)) ∈ t.numbers)
    (hn : IsInt32 n) : argument t.tokensOf name 0 = n ↔ n < intMax := by
  rw [argument_eq_iff h hn (.inl rfl)]
  omega

/-- What `parse` makes of a wire id. -/
theorem wireIdArgument_tokensOf {t : TileDesc} {name : Bytes} {w : UInt32}
    (h : (name, (w.toNat : Int)) ∈ t.numbers) :
    wireIdArgument t.tokensOf name = toUInt32 (safe_atoi (decimal w.toNat)) := by
  have hmem : (name, decimal w.toNat) ∈ t.textFields := List.mem_map.mpr ⟨_, h, rfl⟩
  exact wireIdArgument_of_mem (by decide) (fun p hp => (writable_textFields t p hp).2.1)
    (nodup_textFields t) hmem (decimal_ne_nil _)

theorem wireIdArgument_oldwid (t : TileDesc) :
    wireIdArgument t.tokensOf (ascii "oldwid") = toUInt32 (safe_atoi (decimal t.oldWireId.toNat)) := by
  have hmem : (ascii "oldwid", (t.oldWireId.toNat : Int)) ∈ t.numbers := by
    simp [numbers, fixedNumbers]
  exact wireIdArgument_tokensOf hmem

theorem wireIdArgument_wid (t : TileDesc) :
    wireIdArgument t.tokensOf (ascii "wid") = toUInt32 (safe_atoi (decimal t.wireId.toNat)) := by
  have hmem : (ascii "wid", (t.wireId.toNat : Int)) ∈ t.numbers := by simp [numbers, fixedNumbers]
  exact wireIdArgument_tokensOf hmem

/-- The word in front and what follows the line do not matter. -/
theorem parse_serializeLine (t : TileDesc) {word suffix : Bytes} (hword : IsWord word)
    (hsuffix : EndsLine suffix) :
    parse (tokenize (t.serializeLine word suffix) blank) = parse t.tokensOf := by
  have hskip : ∀ {β : Type} {read : Bytes → Option β}, read word = none →
      read (ascii "tile") = none →
      (tokenize (t.serializeLine word suffix) blank).filterMap read = t.tokensOf.filterMap read := by
    intro β read hread htile
    rw [serializeLine, serialize, filterMap_tokenize_textOf hword hsuffix (writable_textFields t) hread,
      tokensOf, List.filterMap_cons_none htile]
  have hargument : ∀ name default, argument (tokenize (t.serializeLine word suffix) blank) name default =
      argument t.tokensOf name default := by
    intro name default
    rw [argument, argument, hskip (getNameIntegerPair_word hword.noSign)
      (getNameIntegerPair_word (by decide))]
  have hwire : ∀ name, wireIdArgument (tokenize (t.serializeLine word suffix) blank) name =
      wireIdArgument t.tokensOf name := by
    intro name
    rw [wireIdArgument, wireIdArgument, hskip (getUInt32_word hword.noSign) (getUInt32_word (by decide))]
  simp only [parse, hargument, hwire]

/-! ## A tile alone -/

theorem argument_imgSize_eq {t : TileDesc} (h : t.imgSize < intMax) :
    argument t.tokensOf (ascii "imgsize") 0 = t.imgSize := by
  by_cases hi : 0 < t.imgSize
  · exact argument_nat (by simp [numbers, fixedNumbers, hi]) h 0
  · rw [argument_tokensOf_none]
    · omega
    · rw [mem_names_textFields]
      rintro (hn | ⟨-, hn⟩ | ⟨hn, -⟩ | ⟨-, hn⟩)
      · exact absurd hn (by decide)
      · exact absurd hn (by decide)
      · exact hi hn
      · exact absurd hn (by decide)

theorem parse_tokensOf {t : TileDesc} (h : t.Readable) :
    parse t.tokensOf = some { t with id := if 0 ≤ t.id then t.id else -1 } := by
  have hver : argument t.tokensOf (ascii "ver") (-1) = t.ver := by
    have hmax : intMax = 2 ^ 31 - 1 := rfl
    have := h.ver
    refine (argument_eq_iff ?_ ⟨by omega, by omega⟩ (.inr rfl)).mpr h.ver
    simp [numbers, fixedNumbers]
  have hold : wireIdArgument t.tokensOf (ascii "oldwid") = t.oldWireId := by
    rw [wireIdArgument_oldwid, toUInt32_safe_atoi]
    exact h.oldWireId
  have hwire : wireIdArgument t.tokensOf (ascii "wid") = t.wireId := by
    rw [wireIdArgument_wid, toUInt32_safe_atoi]
    exact h.wireId
  have hnat : ∀ {name : Bytes} {n : Nat}, (name, (n : Int)) ∈ t.fixedNumbers → n < intMax →
      argument t.tokensOf name 0 = n := by
    intro name n hmem hn
    exact argument_nat (by simp [numbers, hmem]) hn 0
  rw [parse, hnat (by simp [fixedNumbers]) h.normalizedViewId, hnat (by simp [fixedNumbers]) h.part,
    argument_mode h.mode, hnat (by simp [fixedNumbers]) h.width, hnat (by simp [fixedNumbers]) h.height,
    hnat (by simp [fixedNumbers]) h.tilePosX, hnat (by simp [fixedNumbers]) h.tilePosY,
    hnat (by simp [fixedNumbers]) h.tileWidth, hnat (by simp [fixedNumbers]) h.tileHeight, hver,
    argument_imgSize_eq h.imgSize, argument_id h.id, hold, hwire]
  exact TileCombined.ofInts_self { t with id := if 0 ≤ t.id then t.id else -1 }

/-- **A tile comes back from its text exactly when no field is at its limit.** -/
theorem parse_serializeLine_iff {t : TileDesc} (ht : t.IsInts) {word suffix : Bytes}
    (hword : IsWord word) (hsuffix : EndsLine suffix) :
    (∃ u, parse (tokenize (t.serializeLine word suffix) blank) = some u ∧ SameFields t u) ↔
      t.Readable := by
  rw [parse_serializeLine t hword hsuffix]
  constructor
  · rintro ⟨u, hparse, hsame⟩
    obtain ⟨h1, h2, h3, h4, h5, h6, h7, h8, h9, h10, h11, h12, h13, h14⟩ := ofInts_eq_some hparse
    rw [hsame.normalizedViewId] at h1
    rw [hsame.part] at h2
    rw [hsame.width] at h4
    rw [hsame.height] at h5
    rw [hsame.tilePosX] at h6
    rw [hsame.tilePosY] at h7
    rw [hsame.tileWidth] at h8
    rw [hsame.tileHeight] at h9
    rw [hsame.ver] at h10
    rw [hsame.oldWireId, wireIdArgument_oldwid] at h13
    rw [hsame.wireId, wireIdArgument_wid] at h14
    have hmax : intMax = 2 ^ 31 - 1 := rfl
    have hnat : ∀ {name : Bytes} {n : Nat}, (name, (n : Int)) ∈ t.fixedNumbers → IsInt32 n →
        (n : Int) = argument t.tokensOf name 0 → n < intMax := by
      intro name n hmem hn heq
      exact (argument_nat_iff (by simp [numbers, hmem]) hn).mp heq.symm
    refine
      { normalizedViewId := hnat (by simp [fixedNumbers]) ht.params.normalizedViewId h1
        part := hnat (by simp [fixedNumbers]) ht.params.part h2
        mode := ?_
        width := hnat (by simp [fixedNumbers]) ht.params.width h4
        height := hnat (by simp [fixedNumbers]) ht.params.height h5
        tilePosX := hnat (by simp [fixedNumbers]) ht.tilePosX h6
        tilePosY := hnat (by simp [fixedNumbers]) ht.tilePosY h7
        tileWidth := hnat (by simp [fixedNumbers]) ht.params.tileWidth h8
        tileHeight := hnat (by simp [fixedNumbers]) ht.params.tileHeight h9
        ver := (argument_eq_iff (by simp [numbers, fixedNumbers]) ht.ver (.inr rfl)).mp h10.symm
        imgSize := ?_
        id := ?_
        oldWireId := toUInt32_safe_atoi.mp h13.symm
        wireId := toUInt32_safe_atoi.mp h14.symm }
    · by_cases hm : t.mode = 0
      · omega
      · rw [hsame.mode hm] at h3
        have hmem : (ascii "mode", (t.mode : Int)) ∈ t.numbers := by simp [numbers, hm]
        exact (argument_nat_iff hmem ht.params.mode).mp h3.symm
    · by_cases hi : 0 < t.imgSize
      · rw [hsame.imgSize hi] at h11
        exact (argument_nat_iff (by simp [numbers, hi]) ht.imgSize).mp h11.symm
      · omega
    · by_cases hid : 0 ≤ t.id
      · rw [hsame.id hid] at h12
        exact ((argument_eq_iff (by simp [numbers, hid]) ht.id (.inr rfl)).mp h12.symm).2
      · omega
  · intro h
    refine ⟨_, parse_tokensOf h, ?_⟩
    constructor <;> first | rfl | simp_all

/-- A tile of the first view, with the given version and wire ids. -/
def limitTile (ver : Int) (oldWireId wireId : UInt32) : TileDesc :=
  { normalizedViewId := 0
    part := 0
    mode := 0
    width := 256
    height := 256
    tilePosX := 3840
    tilePosY := 0
    tileWidth := 3840
    tileHeight := 3840
    ver := ver
    imgSize := 0
    id := -1
    oldWireId := oldWireId
    wireId := wireId
    width_pos := TileDesc.usualPixels_pos
    height_pos := TileDesc.usualPixels_pos
    tileWidth_pos := TileDesc.usualTwips_pos
    tileHeight_pos := TileDesc.usualTwips_pos }

theorem isInts_limitTile {ver : Int} (h : IsInt32 ver) (oldWireId wireId : UInt32) :
    (limitTile ver oldWireId wireId).IsInts where
  params :=
    { part := (by decide : IsInt32 0)
      mode := (by decide : IsInt32 0)
      width := (by decide : IsInt32 256)
      height := (by decide : IsInt32 256)
      tileWidth := (by decide : IsInt32 3840)
      tileHeight := (by decide : IsInt32 3840)
      normalizedViewId := (by decide : IsInt32 0) }
  tilePosX := (by decide : IsInt32 3840)
  tilePosY := (by decide : IsInt32 0)
  ver := h
  imgSize := (by decide : IsInt32 0)
  id := (by decide : IsInt32 (-1))

theorem isWord_tile : IsWord (ascii "tile:") := ⟨by decide, by decide, by decide⟩

theorem endsLine_newline : EndsLine [Http.lf] := .inr rfl

/-- The largest wire id that comes back. -/
theorem parse_serializeLine_largest :
    ∃ u, parse (tokenize ((limitTile 7 0 2147483647).serializeLine (ascii "tile:") [Http.lf]) blank) =
      some u ∧ SameFields (limitTile 7 0 2147483647) u :=
  (parse_serializeLine_iff (isInts_limitTile (by decide) 0 2147483647) isWord_tile
    endsLine_newline).mpr (by constructor <;> decide)

/-- The wire id 2³¹ is read as 2³¹-1. -/
theorem not_parse_serializeLine :
    ¬ ∀ t : TileDesc, t.IsInts → ∃ u,
      parse (tokenize (t.serializeLine (ascii "tile:") [Http.lf]) blank) = some u ∧ SameFields t u := by
  intro h
  obtain ⟨u, hparse, hsame⟩ := h (limitTile 7 0 2147483648) (isInts_limitTile (by decide) _ _)
  rw [parse_serializeLine _ isWord_tile endsLine_newline] at hparse
  obtain ⟨-, -, -, -, -, -, -, -, -, -, -, -, -, hwid⟩ := ofInts_eq_some hparse
  rw [hsame.wireId, wireIdArgument_wid] at hwid
  exact absurd (toUInt32_safe_atoi.mp hwid.symm) (by decide)

end TileDesc

/-! ## Tiles combined -/

namespace TileCombined

/-- **Combined tiles come back whatever their numbers are.** `create` keeps all of a tile but the
image size and the preview id, and what `serialize` writes is read as it was, the image sizes
included. -/
theorem create_parse_serialize {first : TileDesc} {rest : List TileDesc}
    (hints : ∀ t ∈ first :: rest, t.IsInts)
    (hshared : ∀ t ∈ first :: rest, t.combineParams = first.combineParams) :
    (∃ c, create first (first :: rest) = some c ∧ c.tiles = (first :: rest).map strip) ∧
      ∀ c : TileCombined, c.tiles = (first :: rest).map (fun t => { t with id := -1 }) →
        ∀ word suffix, TileDesc.IsWord word → TileDesc.EndsLine suffix →
          ∃ c', parse (tokenize (c.serializeLine word suffix) blank) = some c' ∧
            c'.tiles = c.tiles ∧ c'.params = c.params := by
  constructor
  · obtain ⟨c, hc, htiles, -⟩ := create_eq hshared
      fun t ht => ⟨(hints t ht).tilePosX, (hints t ht).tilePosY, (hints t ht).ver⟩
    exact ⟨c, hc, htiles⟩
  · intro c htiles word suffix hword hsuffix
    have hparams : c.params = first.combineParams := by
      have hmem : { first with id := -1 } ∈ c.tiles := by simp [htiles]
      exact (c.shared _ hmem).symm
    have halike : Alike first c.tiles := by
      rw [htiles]
      constructor <;> intro t ht <;> obtain ⟨u, hu, rfl⟩ := List.mem_map.mp ht
      · exact hshared u hu
      · rfl
      · exact (hints u hu).tilePosX
      · exact (hints u hu).tilePosY
      · exact (hints u hu).ver
      · exact (hints u hu).imgSize
    exact parse_serializeLine hparams halike (hints first (by simp)).params hword hsuffix

/-- A tile of the first row whose version, image size and wire ids are its own. -/
def columnTile (tilePosX : Nat) (ver : Int) (imgSize : Nat) (oldWireId wireId : UInt32) : TileDesc :=
  { TileDesc.limitTile ver oldWireId wireId with
    tilePosX := tilePosX
    imgSize := imgSize }

theorem isInts_columnTile {tilePosX imgSize : Nat} {ver : Int} (hx : IsInt32 tilePosX) (hver : IsInt32 ver)
    (himg : IsInt32 imgSize) (oldWireId wireId : UInt32) :
    (columnTile tilePosX ver imgSize oldWireId wireId).IsInts :=
  have h := TileDesc.isInts_limitTile hver oldWireId wireId
  ⟨h.params, hx, h.tilePosY, h.ver, himg, h.id⟩

/-- Three columns. No two of them have a number in common in the list of the positions, of the versions, of
the image sizes or of the wire ids, and the largest number of each list is on a tile of its own. -/
def columns : List TileDesc :=
  [columnTile 0 2147483647 100 4294967295 7, columnTile 3840 (-1) 2147483647 8 4294967295,
    columnTile 2147483647 12 0 0 9]

/-- Three columns as the server answers them: with image sizes. -/
def answeredColumns : TileCombined where
  params := (columnTile 0 2147483647 100 4294967295 7).combineParams
  tiles := columns.map fun t => { t with id := -1 }
  isCompiled := false
  shared := by simp [columns, columnTile, TileDesc.combineParams, TileDesc.limitTile]

/-- Each number comes back with the tile it was written for. -/
theorem create_parse_serialize_columns :
    (∃ c, create (columnTile 0 2147483647 100 4294967295 7) columns = some c ∧ c.tiles = columns.map strip) ∧
      ∃ c', parse (tokenize (answeredColumns.serializeLine (ascii "tilecombine:") [Http.lf]) blank) = some c' ∧
        c'.tiles = answeredColumns.tiles ∧ c'.params = answeredColumns.params := by
  have hints : ∀ t ∈ columns, t.IsInts := by
    rw [columns, List.forall_mem_cons, List.forall_mem_cons, List.forall_mem_singleton]
    exact ⟨isInts_columnTile (by decide) (by decide) (by decide) _ _,
      isInts_columnTile (by decide) (by decide) (by decide) _ _,
      isInts_columnTile (by decide) (by decide) (by decide) _ _⟩
  have hshared : ∀ t ∈ columns,
      t.combineParams = (columnTile 0 2147483647 100 4294967295 7).combineParams := by
    rw [columns, List.forall_mem_cons, List.forall_mem_cons, List.forall_mem_singleton]
    exact ⟨rfl, rfl, rfl⟩
  have h := create_parse_serialize hints hshared
  refine ⟨h.1, h.2 answeredColumns rfl (ascii "tilecombine:") [Http.lf] ?_ TileDesc.endsLine_newline⟩
  exact ⟨by decide, by decide, by decide⟩

/-- A tile with an image size does not come back from `create`. -/
theorem not_create_tiles :
    ¬ ∀ (first : TileDesc) (rest : List TileDesc), (∀ t ∈ first :: rest, t.IsInts) →
      (∀ t ∈ first :: rest, t.combineParams = first.combineParams) →
      ∃ c, create first (first :: rest) = some c ∧
        c.tiles = (first :: rest).map (fun t => { t with id := -1 }) := by
  intro h
  let tile : TileDesc := { TileDesc.limitTile 7 0 1 with imgSize := 100 }
  have hints := TileDesc.isInts_limitTile (by decide : IsInt32 7) 0 1
  have htile : tile.IsInts :=
    ⟨hints.params, hints.tilePosX, hints.tilePosY, hints.ver, (by decide : IsInt32 100), hints.id⟩
  have hall : ∀ t ∈ [tile], t.IsInts := fun t ht => by
    rw [List.mem_singleton.mp ht]
    exact htile
  have hshared : ∀ t ∈ [tile], t.combineParams = tile.combineParams :=
    fun t ht => by rw [List.mem_singleton.mp ht]
  obtain ⟨c, hc, htiles⟩ := h tile [] hall hshared
  obtain ⟨c', hc', hstrip, -⟩ := create_eq hshared fun t ht =>
    ⟨(hall t ht).tilePosX, (hall t ht).tilePosY, (hall t ht).ver⟩
  obtain rfl : c = c' := Option.some.inj (hc.symm.trans hc')
  rw [htiles] at hstrip
  exact absurd hstrip (by decide)

end TileCombined

end Oxool
