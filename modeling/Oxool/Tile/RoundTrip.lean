import Mathlib.Data.List.Induction
import Mathlib.Data.List.Nodup
import Oxool.Lib.Assoc
import Oxool.Tile.TileText

/-!
# Tiles survive their text

The kit writes the tiles of a request out and reads them again, more than once on their way through
its queue. A tile alone comes back as the same tile, of a version that is no older, and a keyframe is
still asked for (`TileDesc.parse_serialize`), if no field is the largest `int`: `parse` does not take
that one (`Fits`). Whatever `parse` gave can be written again (`TileDesc.fits_of_parse`). Combined
tiles come back as they are (`TileCombined.parse_serializeLine`); only the image size and the preview id
are lost when they are combined (`TileCombined.create_eq`).
-/

set_option autoImplicit false

namespace Oxool

open Oxool.Http (Bytes ascii isDigit atoiLoop)
open Oxool.Protocol

/-! ## What is written is read -/

theorem le_foldl_digits (ds : Bytes) (n : Nat) :
    n ≤ ds.foldl (fun n b => n * 10 + (b.toNat - 48)) n := by
  induction ds generalizing n with
  | nil => exact Nat.le_refl n
  | cons b ds ih =>
    rw [List.foldl_cons]
    exact Nat.le_trans (by omega) (ih _)

/-- The loop of `safe_atoi` stops at the largest `int`. -/
theorem atoiLoop_digits {ds : Bytes} (hds : ∀ b ∈ ds, isDigit b = true) {ret : Nat}
    (hret : ret < intMax) :
    atoiLoop ret ds = min (ds.foldl (fun n b => n * 10 + (b.toNat - 48)) ret) intMax := by
  induction ds generalizing ret with
  | nil =>
    rw [atoiLoop, List.foldl_nil]
    omega
  | cons b ds ih =>
    have hmax : intMax = 2 ^ 31 - 1 := rfl
    rw [atoiLoop, if_pos (hds b (by simp)), List.foldl_cons]
    dsimp only
    split
    · have := le_foldl_digits ds (ret * 10 + (b.toNat - 48))
      omega
    · exact ih (fun c hc => hds c (by simp [hc])) (by omega)

/-- **What `safe_atoi` reads of a number.** -/
theorem safe_atoi_decimal (n : Int) :
    safe_atoi (decimal n) = signed (decide (n < 0)) (min n.natAbs intMax) := by
  have hsign := splitSign_decimal n []
  rw [List.append_nil, List.append_nil] at hsign
  have hvalue : (ascii (toString n.natAbs)).foldl (fun n b => n * 10 + (b.toNat - 48)) 0 = n.natAbs :=
    digitsValue_toString n.natAbs
  rw [safe_atoi, hsign]
  dsimp only
  rw [atoiLoop_digits (fun b hb => Http.isDigit_of_mem_toString hb) (by decide), hvalue]

theorem safe_atoi_decimal_eq {n : Int} (hmin : -2 ^ 31 < n) (hmax : n < intMax) :
    safe_atoi (decimal n) = n := by
  have hmaxVal : intMax = 2 ^ 31 - 1 := rfl
  rw [safe_atoi_decimal, signed]
  split <;> rename_i h <;> simp only [decide_eq_true_eq] at h <;> omega

theorem parseNameValuePair_pair {name : Bytes} (h : equalSign ∉ name) (value : Bytes) :
    parseNameValuePair (pair name value) = some (name, value) := by
  have hall : ∀ b ∈ name, (b != equalSign) = true := by
    intro b hb
    rw [bne_iff_ne]
    exact fun heq => h (heq ▸ hb)
  have hdrop : (pair name value).dropWhile (· != equalSign) = equalSign :: value := by
    rw [pair, List.dropWhile_append_of_pos hall, List.dropWhile_cons_of_neg (by simp)]
  have htake : (pair name value).takeWhile (· != equalSign) = name := by
    rw [pair, List.takeWhile_append_of_pos hall, List.takeWhile_cons_of_neg (by simp), List.append_nil]
  rw [parseNameValuePair, hdrop, htake]

/-- A word that is no pair. -/
theorem parseNameValuePair_word {word : Bytes} (h : equalSign ∉ word) :
    parseNameValuePair word = none := by
  have hdrop : word.dropWhile (· != equalSign) = [] := by
    rw [List.dropWhile_eq_nil_iff]
    intro b hb
    rw [bne_iff_ne]
    exact fun heq => h (heq ▸ hb)
  rw [parseNameValuePair, hdrop]

/-- The numbers among some pairs. -/
theorem filterMap_pairs {β : Type} (read : Bytes → Option (Bytes × β)) (f : Bytes → Option β)
    {pairs : List (Bytes × Bytes)}
    (h : ∀ p ∈ pairs, read (pair p.1 p.2) = (f p.2).map fun n => (p.1, n)) {word : Bytes}
    (hword : read word = none) :
    (word :: pairs.map fun p => pair p.1 p.2).filterMap read =
      pairs.filterMap fun p => (f p.2).map fun n => (p.1, n) := by
  rw [List.filterMap_cons_none hword, List.filterMap_map]
  exact List.filterMap_congr h

theorem names_filterMap_sublist {β : Type} (f : Bytes → Option β) (pairs : List (Bytes × Bytes)) :
    ((pairs.filterMap fun p => (f p.2).map fun n => (p.1, n)).map Prod.fst).Sublist
      (pairs.map Prod.fst) := by
  induction pairs with
  | nil => simp
  | cons p pairs ih =>
    cases hp : f p.2 with
    | none =>
      rw [List.filterMap_cons_none (by simp [hp]), List.map_cons]
      exact ih.cons p.1
    | some n =>
      simp only [List.filterMap_cons, hp, Option.map_some, List.map_cons]
      exact ih.cons_cons p.1

/-- The last field of a name, where there is only one. -/
theorem lookup_filterMap {β : Type} {f : Bytes → Option β} {pairs : List (Bytes × Bytes)}
    (hnodup : (pairs.map Prod.fst).Nodup) {name value : Bytes} (h : (name, value) ∈ pairs) :
    (pairs.filterMap fun p => (f p.2).map fun n => (p.1, n)).reverse.lookup name = f value := by
  cases hvalue : f value with
  | none =>
    rw [Assoc.lookup_eq_none]
    intro hmem
    obtain ⟨e, he, rfl⟩ := List.mem_map.mp hmem
    obtain ⟨p, hp, heq⟩ := List.mem_filterMap.mp (List.mem_reverse.mp he)
    obtain ⟨n, hn, rfl⟩ := Option.map_eq_some_iff.mp heq
    have h1 := Assoc.lookup_of_mem hnodup h
    rw [Assoc.lookup_of_mem hnodup (hp : (p.1, p.2) ∈ pairs), Option.some.injEq] at h1
    rw [h1, hvalue] at hn
    simp at hn
  | some n =>
    apply Assoc.lookup_of_mem
    · rw [List.map_reverse, List.nodup_reverse]
      exact hnodup.sublist (names_filterMap_sublist f pairs)
    · rw [List.mem_reverse, List.mem_filterMap]
      exact ⟨(name, value), h, by rw [hvalue]; rfl⟩

theorem lookup_filterMap_none {β : Type} {f : Bytes → Option β} {pairs : List (Bytes × Bytes)}
    {name : Bytes} (h : name ∉ pairs.map Prod.fst) :
    (pairs.filterMap fun p => (f p.2).map fun n => (p.1, n)).reverse.lookup name = none := by
  rw [Assoc.lookup_eq_none, List.map_reverse, List.mem_reverse]
  exact fun hmem => h ((names_filterMap_sublist f pairs).subset hmem)

namespace TileDesc

/-- The number in a field, where `getNameIntegerPair` takes it. -/
def fieldNumber (value : Bytes) : Option Int :=
  if -2 ^ 31 < safe_atoi value ∧ safe_atoi value < intMax then some (safe_atoi value) else none

theorem getNameIntegerPair_pair {name : Bytes} (h : equalSign ∉ name) (value : Bytes) :
    getNameIntegerPair (pair name value) = (fieldNumber value).map fun n => (name, n) := by
  rw [getNameIntegerPair, parseNameValuePair_pair h, fieldNumber]
  simp only [Option.bind_eq_bind, Option.bind_some]
  split <;> rfl

theorem getNameIntegerPair_word {word : Bytes} (h : equalSign ∉ word) :
    getNameIntegerPair word = none := by
  rw [getNameIntegerPair, parseNameValuePair_word h]
  rfl

theorem getUInt32_word {word : Bytes} (h : equalSign ∉ word) {name : Bytes} :
    getUInt32 name word = none := by
  have hnot : ¬ name ++ [equalSign] <+: word := fun hpre => h (hpre.subset (by simp))
  rw [getUInt32, tokenString, if_neg (by rwa [List.isPrefixOf_iff_prefix])]
  rfl

section Arguments

variable {word : Bytes} (hword : equalSign ∉ word) {pairs : List (Bytes × Bytes)}
  (hpairs : ∀ p ∈ pairs, equalSign ∉ p.1)

include hword hpairs

theorem argument_of_mem (hnodup : (pairs.map Prod.fst).Nodup) {name value : Bytes}
    (h : (name, value) ∈ pairs) (default : Int) :
    argument (word :: pairs.map fun p => pair p.1 p.2) name default =
      (fieldNumber value).getD default := by
  rw [argument, filterMap_pairs getNameIntegerPair fieldNumber
    (fun p hp => getNameIntegerPair_pair (hpairs p hp) p.2) (getNameIntegerPair_word hword),
    lookup_filterMap hnodup h]

theorem argument_of_notMem {name : Bytes} (h : name ∉ pairs.map Prod.fst) (default : Int) :
    argument (word :: pairs.map fun p => pair p.1 p.2) name default = default := by
  rw [argument, filterMap_pairs getNameIntegerPair fieldNumber
    (fun p hp => getNameIntegerPair_pair (hpairs p hp) p.2) (getNameIntegerPair_word hword),
    lookup_filterMap_none h]
  rfl

theorem wireIdArgument_of_mem (hnodup : (pairs.map Prod.fst).Nodup) {name value : Bytes}
    (h : (name, value) ∈ pairs) (hvalue : value ≠ []) :
    wireIdArgument (word :: pairs.map fun p => pair p.1 p.2) name = toUInt32 (safe_atoi value) := by
  have hname : equalSign ∉ name := hpairs _ h
  have hother : ∀ p ∈ pairs, p.1 ≠ name → getUInt32 name (pair p.1 p.2) = none := by
    intro p hp hne
    rw [getUInt32, tokenString_pair_ne hname (hpairs p hp) hne.symm]
    rfl
  have hthis : getUInt32 name (pair name value) = some (toUInt32 (safe_atoi value)) := by
    rw [getUInt32, tokenString_pair]
    simp [hvalue]
  obtain ⟨front, back, rfl⟩ := List.append_of_mem h
  rw [List.map_append, List.map_cons, List.nodup_middle, List.nodup_cons] at hnodup
  have hnone : ∀ l : List (Bytes × Bytes), (∀ p ∈ l, p ∈ front ++ back) →
      (l.map fun p => pair p.1 p.2).filterMap (getUInt32 name) = [] := by
    intro l hl
    rw [List.filterMap_eq_nil_iff]
    intro token htoken
    obtain ⟨p, hp, rfl⟩ := List.mem_map.mp htoken
    refine hother p ?_ ?_
    · have := hl p hp
      rw [List.mem_append] at this ⊢
      exact this.imp_right (List.mem_cons_of_mem _)
    · intro heq
      have hmem : p.1 ∈ (front ++ back).map Prod.fst := List.mem_map_of_mem (hl p hp)
      rw [heq, List.map_append] at hmem
      exact hnodup.1 hmem
  rw [wireIdArgument, List.filterMap_cons_none (getUInt32_word hword), List.map_append, List.map_cons,
    List.filterMap_append, List.filterMap_cons_some hthis, hnone front (fun p hp => by simp [hp]),
    hnone back (fun p hp => by simp [hp])]
  rfl

end Arguments

/-- The fields can be told from the largest `int`, which `parse` does not take. -/
structure Fits (t : TileDesc) : Prop where
  normalizedViewId : t.normalizedViewId < intMax
  part : t.part < intMax
  mode : t.mode < intMax
  width : t.width < intMax
  height : t.height < intMax
  tilePosX : t.tilePosX < intMax
  tilePosY : t.tilePosY < intMax
  tileWidth : t.tileWidth < intMax
  tileHeight : t.tileHeight < intMax
  ver : -2 ^ 31 ≤ t.ver ∧ t.ver < intMax
  id : t.id < intMax

end TileDesc

/-- The parameters are of the type the code has for them. -/
structure CombineParams.IsInts (p : CombineParams) : Prop where
  part : IsInt32 p.part
  mode : IsInt32 p.mode
  width : IsInt32 p.width
  height : IsInt32 p.height
  tileWidth : IsInt32 p.tileWidth
  tileHeight : IsInt32 p.tileHeight
  normalizedViewId : IsInt32 p.normalizedViewId

namespace TileDesc

theorem isInt32_of_lt {n : Nat} (h : n < intMax) : IsInt32 n := by
  have hmax : intMax = 2 ^ 31 - 1 := rfl
  exact ⟨by omega, by omega⟩

theorem Fits.isInts {t : TileDesc} (h : t.Fits) : t.combineParams.IsInts where
  part := isInt32_of_lt h.part
  mode := isInt32_of_lt h.mode
  width := isInt32_of_lt h.width
  height := isInt32_of_lt h.height
  tileWidth := isInt32_of_lt h.tileWidth
  tileHeight := isInt32_of_lt h.tileHeight
  normalizedViewId := isInt32_of_lt h.normalizedViewId

theorem fieldNumber_nat {n : Nat} (h : n < intMax) : fieldNumber (decimal n) = some (n : Int) := by
  have hread : safe_atoi (decimal n) = n := safe_atoi_decimal_eq (by omega) (by omega)
  rw [fieldNumber, hread, if_pos (by omega)]

/-- The smallest `int` is read as the one above it. -/
theorem fieldNumber_int {n : Int} (h : -2 ^ 31 ≤ n ∧ n < intMax) :
    ∃ m, fieldNumber (decimal n) = some m ∧ n ≤ m := by
  have hmax : intMax = 2 ^ 31 - 1 := rfl
  refine ⟨safe_atoi (decimal n), ?_, ?_⟩
  · rw [fieldNumber, if_pos]
    rw [safe_atoi_decimal, signed]
    split <;> rename_i hneg <;> simp only [decide_eq_true_eq] at hneg <;> omega
  · rw [safe_atoi_decimal, signed]
    split <;> rename_i hneg <;> simp only [decide_eq_true_eq] at hneg <;> omega

/-- The names of the fields that are always written. -/
def fixedNames : List Bytes :=
  [ascii "nviewid", ascii "part", ascii "width", ascii "height", ascii "tileposx", ascii "tileposy",
    ascii "tilewidth", ascii "tileheight", ascii "oldwid", ascii "wid", ascii "ver"]

theorem names_textFields (t : TileDesc) :
    t.textFields.map Prod.fst = fixedNames ++ (if 0 ≤ t.id then [ascii "id"] else []) ++
      (if 0 < t.imgSize then [ascii "imgsize"] else []) ++
      (if t.mode ≠ 0 then [ascii "mode"] else []) := by
  rw [textFields, numbers, fixedNumbers, List.map_map, List.map_append, List.map_append, List.map_append]
  congr 1
  · congr 1
    · congr 1
      split <;> rfl
    · split <;> rfl
  · split <;> rfl

theorem nodup_textFields (t : TileDesc) : (t.textFields.map Prod.fst).Nodup := by
  rw [names_textFields]
  split <;> split <;> split <;> decide

theorem mem_names_textFields {t : TileDesc} {name : Bytes} :
    name ∈ t.textFields.map Prod.fst ↔ name ∈ fixedNames ∨ (0 ≤ t.id ∧ name = ascii "id") ∨
      (0 < t.imgSize ∧ name = ascii "imgsize") ∨ (t.mode ≠ 0 ∧ name = ascii "mode") := by
  rw [names_textFields]
  simp only [List.mem_append, List.mem_ite_nil_right, List.mem_singleton, or_assoc]

theorem writable_textFields (t : TileDesc) :
    ∀ p ∈ t.textFields, Plain blank p.1 ∧ equalSign ∉ p.1 ∧ Plain blank p.2 := by
  have hall : ∀ name ∈ fixedNames ++ [ascii "id", ascii "imgsize", ascii "mode"],
      Plain blank name ∧ equalSign ∉ name := by decide
  intro p hp
  have hname : p.1 ∈ fixedNames ++ [ascii "id", ascii "imgsize", ascii "mode"] := by
    have := mem_names_textFields.mp (List.mem_map_of_mem hp)
    simp only [List.mem_append, List.mem_cons, List.not_mem_nil, or_false]
    rcases this with h | ⟨-, h⟩ | ⟨-, h⟩ | ⟨-, h⟩
    · exact .inl h
    · exact .inr (.inl h)
    · exact .inr (.inr (.inl h))
    · exact .inr (.inr (.inr h))
  obtain ⟨n, -, rfl⟩ := List.mem_map.mp hp
  exact ⟨(hall n.1 hname).1, (hall n.1 hname).2, decimal_plain⟩

/-- The tokens of a line of fields. -/
theorem tokenize_textOf {word : Bytes} (hword : IsToken blank word) (h0 : word.head? ≠ some 0)
    {pairs : List (Bytes × Bytes)}
    (hpairs : ∀ p ∈ pairs, Plain blank p.1 ∧ equalSign ∉ p.1 ∧ Plain blank p.2) :
    tokenize (textOf word pairs) blank = word :: pairs.map fun p => pair p.1 p.2 := by
  refine tokenize_fields (by decide) h0 hword ?_
  intro u hu
  obtain ⟨p, hp, rfl⟩ := List.mem_map.mp hu
  exact isToken_pair (hpairs p hp).1 (hpairs p hp).2.2

/-- What a message may start with: a word, or nothing at all. -/
structure IsWord (word : Bytes) : Prop where
  plain : Plain blank word
  noSign : equalSign ∉ word
  notNul : word.head? ≠ some 0

/-- What a message may end with: nothing, or a line break and what follows it. -/
def EndsLine (suffix : Bytes) : Prop := suffix = [] ∨ suffix.head? = some Http.lf

/-- The tokens of a line of fields that a reader takes are those of the fields. -/
theorem filterMap_tokenize_textOf {word suffix : Bytes} (hword : IsWord word)
    (hsuffix : EndsLine suffix) {pairs : List (Bytes × Bytes)}
    (hpairs : ∀ p ∈ pairs, Plain blank p.1 ∧ equalSign ∉ p.1 ∧ Plain blank p.2) {β : Type}
    {read : Bytes → Option β} (hread : read word = none) :
    (tokenize (textOf word pairs ++ suffix) blank).filterMap read =
      (pairs.map fun p => pair p.1 p.2).filterMap read := by
  have hfields : ∀ u ∈ pairs.map fun p => pair p.1 p.2, IsToken blank u := by
    intro u hu
    obtain ⟨p, hp, rfl⟩ := List.mem_map.mp hu
    exact isToken_pair (hpairs p hp).1 (hpairs p hp).2.2
  rw [tokenize_append_line _ hsuffix, textOf,
    tokenize_plain_fields (by decide) hword.notNul hword.plain fun u hu => (hfields u hu).2,
    List.filter_eq_self.mpr fun u hu => by simpa using (hfields u hu).1, List.filterMap_append]
  have hflush : (flush word).filterMap read = [] := by
    rw [flush]
    split
    · rfl
    · rw [List.filterMap_cons_none hread, List.filterMap_nil]
  rw [hflush, List.nil_append]

/-- The tokens of a tile alone. -/
def tokensOf (t : TileDesc) : List Bytes := ascii "tile" :: t.textFields.map fun p => pair p.1 p.2

theorem tokenize_serialize (t : TileDesc) :
    tokenize (t.serialize (ascii "tile")) blank = t.tokensOf :=
  tokenize_textOf (by decide) (by decide) (writable_textFields t)

theorem argument_tokensOf {t : TileDesc} {name : Bytes} {n : Int} (h : (name, n) ∈ t.numbers)
    (default : Int) : argument t.tokensOf name default = (fieldNumber (decimal n)).getD default :=
  argument_of_mem (by decide) (fun p hp => (writable_textFields t p hp).2.1) (nodup_textFields t)
    (List.mem_map.mpr ⟨(name, n), h, rfl⟩) default

theorem argument_tokensOf_none {t : TileDesc} {name : Bytes} (h : name ∉ t.textFields.map Prod.fst)
    (default : Int) : argument t.tokensOf name default = default :=
  argument_of_notMem (by decide) (fun p hp => (writable_textFields t p hp).2.1) h default

theorem argument_nat {t : TileDesc} {name : Bytes} {n : Nat} (h : (name, (n : Int)) ∈ t.numbers)
    (hn : n < intMax) (default : Int) : argument t.tokensOf name default = n := by
  rw [argument_tokensOf h, fieldNumber_nat hn]
  rfl

theorem argument_mode {t : TileDesc} (h : t.mode < intMax) :
    argument t.tokensOf (ascii "mode") 0 = t.mode := by
  by_cases hm : t.mode = 0
  · rw [argument_tokensOf_none, hm]
    · rfl
    · rw [mem_names_textFields]
      rintro (hn | ⟨-, hn⟩ | ⟨-, hn⟩ | ⟨hn, -⟩)
      · exact absurd hn (by decide)
      · exact absurd hn (by decide)
      · exact absurd hn (by decide)
      · exact hn hm
  · exact argument_nat (by simp [numbers, fixedNumbers, hm]) h 0

theorem argument_id {t : TileDesc} (h : t.id < intMax) :
    argument t.tokensOf (ascii "id") (-1) = if 0 ≤ t.id then t.id else -1 := by
  split
  · rename_i hpos
    obtain ⟨n, hn⟩ := Int.eq_ofNat_of_zero_le hpos
    have hmem : (ascii "id", (n : Int)) ∈ t.numbers := by simp [numbers, fixedNumbers, hn]
    rw [hn] at h ⊢
    exact argument_nat hmem (by omega) (-1)
  · rename_i hneg
    rw [argument_tokensOf_none]
    rw [mem_names_textFields]
    rintro (hn | ⟨hn, -⟩ | ⟨-, hn⟩ | ⟨-, hn⟩)
    · exact absurd hn (by decide)
    · exact hneg hn
    · exact absurd hn (by decide)
    · exact absurd hn (by decide)

theorem argument_imgSize (t : TileDesc) : 0 ≤ argument t.tokensOf (ascii "imgsize") 0 := by
  by_cases hi : 0 < t.imgSize
  · rw [argument_tokensOf (by simp [numbers, fixedNumbers, hi] : (ascii "imgsize", (t.imgSize : Int)) ∈ t.numbers)]
    have hread : 0 ≤ safe_atoi (decimal t.imgSize) := by
      rw [safe_atoi_decimal, signed]
      split <;> rename_i h <;> simp only [decide_eq_true_eq] at h <;> omega
    rw [fieldNumber]
    split
    · exact hread
    · exact Int.le_refl 0
  · rw [argument_tokensOf_none]
    rw [mem_names_textFields]
    rintro (hn | ⟨-, hn⟩ | ⟨hn, -⟩ | ⟨-, hn⟩)
    · exact absurd hn (by decide)
    · exact absurd hn (by decide)
    · exact hi hn
    · exact absurd hn (by decide)

theorem wireIdArgument_oldWireId (t : TileDesc) (h : t.oldWireId = 0) :
    wireIdArgument t.tokensOf (ascii "oldwid") = 0 := by
  have hmem : (ascii "oldwid", decimal t.oldWireId.toNat) ∈ t.textFields :=
    List.mem_map.mpr ⟨(ascii "oldwid", t.oldWireId.toNat), by simp [numbers, fixedNumbers], rfl⟩
  rw [tokensOf, wireIdArgument_of_mem (by decide) (fun p hp => (writable_textFields t p hp).2.1)
    (nodup_textFields t) hmem (decimal_ne_nil _), h]
  decide

/-- **A tile that is written is read**: the same tile, of the same version, and a keyframe is still
asked for. -/
theorem parse_serialize {t : TileDesc} (h : t.Fits) :
    ∃ u, parse (tokenize (t.serialize (ascii "tile")) blank) = some u ∧ u.cacheKey = t.cacheKey ∧
      u.id = (if 0 ≤ t.id then t.id else -1) ∧ t.ver ≤ u.ver ∧ (t.oldWireId = 0 → u.oldWireId = 0) := by
  obtain ⟨ver, hver, hle⟩ := fieldNumber_int h.ver
  have hverArg : argument t.tokensOf (ascii "ver") (-1) = ver := by
    rw [argument_tokensOf (by simp [numbers, fixedNumbers] : (ascii "ver", t.ver) ∈ t.numbers), hver]
    rfl
  have hwidth := t.width_pos
  have hheight := t.height_pos
  have htileWidth := t.tileWidth_pos
  have htileHeight := t.tileHeight_pos
  have himg := argument_imgSize t
  rw [tokenize_serialize]
  unfold parse
  rw [argument_nat (by simp [numbers, fixedNumbers]) h.normalizedViewId, argument_nat (by simp [numbers, fixedNumbers]) h.part,
    argument_mode h.mode, argument_nat (by simp [numbers, fixedNumbers]) h.width,
    argument_nat (by simp [numbers, fixedNumbers]) h.height, argument_nat (by simp [numbers, fixedNumbers]) h.tilePosX,
    argument_nat (by simp [numbers, fixedNumbers]) h.tilePosY, argument_nat (by simp [numbers, fixedNumbers]) h.tileWidth,
    argument_nat (by simp [numbers, fixedNumbers]) h.tileHeight, hverArg, argument_id h.id, ofInts,
    dif_pos (by omega)]
  exact ⟨_, rfl, by simp [cacheKey], rfl, hle, wireIdArgument_oldWireId t⟩

theorem argument_range {tokens : List Bytes} {name : Bytes} {default : Int}
    (h : -2 ^ 31 < default ∧ default < intMax) :
    -2 ^ 31 < argument tokens name default ∧ argument tokens name default < intMax := by
  rw [argument]
  cases hlookup : (tokens.filterMap getNameIntegerPair).reverse.lookup name with
  | none => exact h
  | some n =>
    obtain ⟨l₁, l₂, hsplit, -⟩ := List.lookup_eq_some_iff.mp hlookup
    have hmem : (name, n) ∈ tokens.filterMap getNameIntegerPair :=
      List.mem_reverse.mp (by simp [hsplit])
    obtain ⟨token, -, htoken⟩ := List.mem_filterMap.mp hmem
    simp only [getNameIntegerPair, Option.bind_eq_bind, Option.bind_eq_some_iff] at htoken
    obtain ⟨p, -, hp⟩ := htoken
    split at hp
    · rename_i hrange
      simp only [Option.some.injEq, Prod.mk.injEq] at hp
      rw [← hp.2]
      exact hrange
    · simp at hp

/-- What the constructor makes of its arguments. -/
theorem ofInts_eq_some {nviewid part mode width height x y tileWidth tileHeight ver imgSize id : Int}
    {oldWireId wireId : UInt32} {t : TileDesc}
    (h : ofInts nviewid part mode width height x y tileWidth tileHeight ver imgSize id oldWireId
      wireId = some t) :
    (t.normalizedViewId : Int) = nviewid ∧ (t.part : Int) = part ∧ (t.mode : Int) = mode ∧
      (t.width : Int) = width ∧ (t.height : Int) = height ∧ (t.tilePosX : Int) = x ∧
      (t.tilePosY : Int) = y ∧ (t.tileWidth : Int) = tileWidth ∧ (t.tileHeight : Int) = tileHeight ∧
      t.ver = ver ∧ (t.imgSize : Int) = imgSize ∧ t.id = id ∧ t.oldWireId = oldWireId ∧
      t.wireId = wireId := by
  rw [ofInts] at h
  split at h
  · rename_i hpos
    obtain rfl := Option.some.inj h
    dsimp only
    refine ⟨?_, ?_, ?_, ?_, ?_, ?_, ?_, ?_, ?_, rfl, ?_, rfl, rfl, rfl⟩ <;> omega
  · simp at h

/-- What `parse` gives can be written again. -/
theorem fits_of_parse {tokens : List Bytes} {t : TileDesc} (h : parse tokens = some t) : t.Fits := by
  obtain ⟨h1, h2, h3, h4, h5, h6, h7, h8, h9, h10, -, h12, -, -⟩ := ofInts_eq_some h
  have hzero : ∀ name, argument tokens name 0 < intMax :=
    fun name => (argument_range (by decide)).2
  have hone : ∀ name, -2 ^ 31 < argument tokens name (-1) ∧ argument tokens name (-1) < intMax :=
    fun name => argument_range (by decide)
  have := hzero (ascii "nviewid")
  have := hzero (ascii "part")
  have := hzero (ascii "mode")
  have := hzero (ascii "width")
  have := hzero (ascii "height")
  have := hzero (ascii "tileposx")
  have := hzero (ascii "tileposy")
  have := hzero (ascii "tilewidth")
  have := hzero (ascii "tileheight")
  have := hone (ascii "ver")
  have := hone (ascii "id")
  constructor <;> omega

end TileDesc

/-! ## Combined tiles that are written are read -/

namespace TileCombined

theorem stringToInteger_decimal {n : Int} (h : IsInt32 n) : stringToInteger (decimal n) = some n := by
  have hread := @strtol_int32 n h [] (by simp)
  rw [List.append_nil] at hread
  rw [stringToInteger, hread]
  exact congrArg some (toInt32_eq h)

/-- A wire id is read as an `int`, and stored as what it was. -/
theorem stringToUInt32_decimal (n : UInt32) : stringToUInt32 (decimal n.toNat) = some n := by
  have hlt : n.toNat < 2 ^ 32 := n.toNat_lt
  have hread := @strtol_decimal n.toNat (by rw [longMin]; omega) (by rw [longMax]; omega) []
    (by simp)
  rw [List.append_nil] at hread
  rw [stringToUInt32, stringToInteger, hread]
  have hback : toUInt32 (toInt32 n.toNat) = n := by
    have hmod : (n.toNat : Int).bmod (2 ^ 32) % 2 ^ 32 = n.toNat % 2 ^ 32 := Int.bmod_emod
    rw [toUInt32, toInt32, hmod, Int.emod_eq_of_lt (by omega) (by omega), Int.toNat_natCast]
    exact UInt32.ofNat_toNat
  simp [hback]

theorem isToken_decimal (n : Int) : IsToken comma (decimal n) := by
  refine ⟨decimal_ne_nil n, ?_⟩
  intro b hb
  rcases mem_decimal hb with rfl | hb
  · decide
  · have := digit_plain b hb
    exact ⟨this.2.2.2.1, this.2.2.2.2.2.1⟩

theorem head_decimal (n : Int) : (decimal n).head? ≠ some 0 := by
  intro h
  rcases mem_decimal (List.mem_of_head? h) with h | h
  · exact absurd h (by decide)
  · exact absurd h (by decide)

/-- The list with a comma at its end, as a line of tokens. -/
theorem commaEnded_cons (n : Int) (ns : List Int) :
    commaEnded (n :: ns) = decimal n ++ fields comma (ns.map decimal) ++ [comma] := by
  induction ns generalizing n with
  | nil => simp [commaEnded, fields]
  | cons m ns ih =>
    have hcons : commaEnded (n :: m :: ns) = decimal n ++ [comma] ++ commaEnded (m :: ns) := by
      simp [commaEnded]
    rw [hcons, ih]
    simp [fields]

theorem tokenize_commaEnded (ns : List Int) : tokenize (commaEnded ns) comma = ns.map decimal := by
  cases ns with
  | nil => rfl
  | cons n ns =>
    have hend : decimal n ++ fields comma (ns.map decimal) ++ [comma] =
        decimal n ++ fields comma (ns.map decimal ++ [[]]) := by simp [fields]
    have hplain : ∀ u ∈ ns.map decimal ++ [[]], Plain comma u := by
      intro u hu
      rcases List.mem_append.mp hu with hu | hu
      · obtain ⟨m, -, rfl⟩ := List.mem_map.mp hu
        exact (isToken_decimal m).2
      · rw [List.mem_singleton.mp hu]
        decide
    have hfilter : (ns.map decimal).filter (· ≠ []) = ns.map decimal := by
      rw [List.filter_eq_self]
      intro u hu
      obtain ⟨m, -, rfl⟩ := List.mem_map.mp hu
      simpa using decimal_ne_nil m
    rw [commaEnded_cons, hend, tokenize_fields_filter (by decide) (head_decimal n) (isToken_decimal n)
      hplain, List.filter_append, hfilter]
    simp

theorem tokenize_commaList (ns : List Int) : tokenize (commaList ns) comma = ns.map decimal := by
  cases ns with
  | nil => rfl
  | cons n ns =>
    rw [commaList, commaEnded_cons, List.dropLast_concat,
      tokenize_fields (by decide) (head_decimal n) (isToken_decimal n)]
    · rfl
    · intro u hu
      obtain ⟨m, -, rfl⟩ := List.mem_map.mp hu
      exact isToken_decimal m

/-- A loop over the positions of a list that gives its elements. -/
theorem mapM_range {β : Type} {f : Nat → Option β} {l : List β}
    (h : ∀ i b, l[i]? = some b → f i = some b) : (List.range l.length).mapM f = some l := by
  induction l using List.reverseRecOn with
  | nil => rfl
  | append_singleton l b ih =>
    have hlast : f l.length = some b := h l.length b (by simp)
    have hrest : (List.range l.length).mapM f = some l := by
      apply ih
      intro i c hi
      apply h
      have hlt : i < l.length := by
        by_contra hge
        rw [List.getElem?_eq_none (by omega)] at hi
        simp at hi
      rw [List.getElem?_append_left hlt]
      exact hi
    rw [List.length_append, List.length_singleton, List.range_succ, List.mapM_append, hrest]
    simp [hlast]

/-- Tiles that can be put into one message. -/
structure Alike (first : TileDesc) (ts : List TileDesc) : Prop where
  params : ∀ t ∈ ts, t.combineParams = first.combineParams
  noId : ∀ t ∈ ts, t.id = -1
  positionX : ∀ t ∈ ts, IsInt32 t.tilePosX
  positionY : ∀ t ∈ ts, IsInt32 t.tilePosY
  ver : ∀ t ∈ ts, IsInt32 t.ver
  imgSize : ∀ t ∈ ts, IsInt32 t.imgSize

/-- The element of a list of numbers. -/
theorem getD_decimal {ts : List TileDesc} {i : Nat} {t : TileDesc} (h : ts[i]? = some t)
    (f : TileDesc → Int) : ((ts.map f).map decimal).getD i [] = decimal (f t) := by
  simp [List.getD, h]

theorem optional_decimal {β : Type} {read : Bytes → Option β} {default : β} {ts : List TileDesc}
    {i : Nat} {t : TileDesc} (h : ts[i]? = some t) (f : TileDesc → Int) :
    optional read default ((ts.map f).map decimal) i = read (decimal (f t)) := by
  have hne : ts ≠ [] := by
    rintro rfl
    simp at h
  rw [optional, if_neg (by simpa using hne), getD_decimal h]

/-- The arguments of a tile give the tile. -/
theorem ofInts_self (t : TileDesc) :
    TileDesc.ofInts t.normalizedViewId t.part t.mode t.width t.height t.tilePosX t.tilePosY
      t.tileWidth t.tileHeight t.ver t.imgSize t.id t.oldWireId t.wireId = some t := by
  have hwidth := t.width_pos
  have hheight := t.height_pos
  have htileWidth := t.tileWidth_pos
  have htileHeight := t.tileHeight_pos
  rw [TileDesc.ofInts, dif_pos (by omega)]
  simp

theorem pmap_eq_some {α β : Type} {p : α → Prop} {f : (a : α) → p a → β} {x : Option α} {a : α}
    (hx : x = some a) {h : ∀ a, x = some a → p a} : x.pmap f h = some (f a (h a hx)) := by
  subst hx
  rfl

/-- **The constructor from lists of numbers gives the tiles.** The image sizes may be left out. -/
theorem ofStrings_eq {first : TileDesc} {ts : List TileDesc} (h : Alike first ts)
    {xs ys vers imgs olds wids : Bytes}
    (hxs : tokenize xs comma = (ts.map fun t => (t.tilePosX : Int)).map decimal)
    (hys : tokenize ys comma = (ts.map fun t => (t.tilePosY : Int)).map decimal)
    (hvers : tokenize vers comma = (ts.map TileDesc.ver).map decimal)
    (himgs : imgs = [] ∧ (∀ t ∈ ts, t.imgSize = 0) ∨
      tokenize imgs comma = (ts.map fun t => (t.imgSize : Int)).map decimal)
    (holds : tokenize olds comma = (ts.map fun t => (t.oldWireId.toNat : Int)).map decimal)
    (hwids : tokenize wids comma = (ts.map fun t => (t.wireId.toNat : Int)).map decimal) :
    ∃ c, ofStrings first.normalizedViewId first.part first.mode first.width first.height xs ys
      first.tileWidth first.tileHeight vers imgs olds wids = some c ∧ c.tiles = ts ∧
      c.params = first.combineParams := by
  have hlength : (tokenize xs comma).length = ts.length := by simp [hxs]
  have hsame : ∀ list : Bytes, ∀ f : TileDesc → Int, tokenize list comma = (ts.map f).map decimal →
      sameLength ts.length list = true := by
    intro list f hlist
    simp [sameLength, hlist]
  have himgLength : sameLength ts.length imgs = true := by
    rcases himgs with ⟨rfl, -⟩ | himgs
    · rfl
    · exact hsame imgs _ himgs
  have himg : ∀ i t, ts[i]? = some t →
      optional stringToInteger 0 (tokenize imgs comma) i = some (t.imgSize : Int) := by
    intro i t hi
    have hmem := List.mem_of_getElem? hi
    rcases himgs with ⟨rfl, hzero⟩ | himgs
    · rw [hzero t hmem]
      rfl
    · rw [himgs, optional_decimal hi]
      exact stringToInteger_decimal (h.imgSize t hmem)
  have hwidth := first.width_pos
  have hheight := first.height_pos
  have htileWidth := first.tileWidth_pos
  have htileHeight := first.tileHeight_pos
  have htiles : (List.range ts.length).mapM (tileAt first.normalizedViewId first.part first.mode
      first.width first.height first.tileWidth first.tileHeight ⟨tokenize xs comma,
      tokenize ys comma, tokenize vers comma, tokenize imgs comma, tokenize olds comma,
      tokenize wids comma⟩) = some ts := by
    apply mapM_range
    intro i t hi
    have hmem := List.mem_of_getElem? hi
    have hself := ofInts_self t
    have hparams := h.params t hmem
    rw [h.noId t hmem] at hself
    simp only [TileDesc.combineParams, CombineParams.mk.injEq] at hparams
    obtain ⟨h1, h2, h3, h4, h5, h6, h7⟩ := hparams
    rw [h1, h2, h3, h4, h5, h6, h7] at hself
    simp only [tileAt, hxs, hys, hvers, holds, hwids, getD_decimal hi, optional_decimal hi,
      himg i t hi, stringToInteger_decimal (h.positionX t hmem),
      stringToInteger_decimal (h.positionY t hmem), stringToInteger_decimal (h.ver t hmem),
      stringToUInt32_decimal, Option.bind_eq_bind, Option.bind_some]
    exact hself
  refine ⟨⟨first.combineParams, ts, true, h.params⟩, ?_, rfl, rfl⟩
  have hlists : ((tokenize ys comma).length == (tokenize xs comma).length &&
      sameLength (tokenize xs comma).length imgs && sameLength (tokenize xs comma).length vers &&
      sameLength (tokenize xs comma).length olds && sameLength (tokenize xs comma).length wids) =
        true := by
    rw [hlength, himgLength, hsame vers _ hvers, hsame olds _ holds, hsame wids _ hwids]
    simp [hys]
  rw [← hlength] at htiles
  simp only [ofStrings]
  rw [if_neg (by omega), if_neg (by rw [hlists]; decide)]
  exact pmap_eq_some htiles

/-- What a combined message keeps of a tile. -/
def strip (t : TileDesc) : TileDesc := { t with
  imgSize := 0
  id := -1 }

theorem create_eq {first : TileDesc} {ts : List TileDesc}
    (hparams : ∀ t ∈ ts, t.combineParams = first.combineParams)
    (hint : ∀ t ∈ ts, IsInt32 t.tilePosX ∧ IsInt32 t.tilePosY ∧ IsInt32 t.ver) :
    ∃ c, create first ts = some c ∧ c.tiles = ts.map strip ∧ c.params = first.combineParams ∧
      Alike first (ts.map strip) := by
  have halike : Alike first (ts.map strip) := by
    constructor <;> intro t ht <;> obtain ⟨u, hu, rfl⟩ := List.mem_map.mp ht
    · exact hparams u hu
    · rfl
    · exact (hint u hu).1
    · exact (hint u hu).2.1
    · exact (hint u hu).2.2
    · exact (by decide : IsInt32 0)
  have hsame : ∀ f : TileDesc → Int, (∀ t, f (strip t) = f t) →
      tokenize (commaEnded (ts.map f)) comma = ((ts.map strip).map f).map decimal := by
    intro f hf
    rw [tokenize_commaEnded, List.map_map (g := f) (f := strip)]
    congr 2
    funext t
    exact (hf t).symm
  obtain ⟨c, hc, htiles, hp⟩ := ofStrings_eq halike
    (hsame (fun t => t.tilePosX) fun _ => rfl) (hsame (fun t => t.tilePosY) fun _ => rfl)
    (hsame TileDesc.ver fun _ => rfl) (.inl ⟨rfl, by simp [strip]⟩) (hsame (fun t => t.oldWireId.toNat) fun _ => rfl)
    (hsame (fun t => t.wireId.toNat) fun _ => rfl)
  exact ⟨c, hc, htiles, hp, halike⟩

theorem plain_commaList (ns : List Int) : Plain blank (commaList ns) := by
  intro b hb
  obtain ⟨n, -, hb⟩ := List.mem_flatMap.mp (List.dropLast_subset _ hb)
  rcases List.mem_append.mp hb with hb | hb
  · exact decimal_plain b hb
  · rw [List.mem_singleton.mp hb]
    decide

def fixedNames : List Bytes :=
  [ascii "nviewid", ascii "part", ascii "width", ascii "height", ascii "tileposx", ascii "tileposy",
    ascii "imgsize", ascii "tilewidth", ascii "tileheight", ascii "ver", ascii "oldwid", ascii "wid"]

theorem names_textFields (c : TileCombined) :
    c.textFields.map Prod.fst = fixedNames ++ (if c.params.mode ≠ 0 then [ascii "mode"] else []) := by
  rw [textFields, List.map_append]
  congr 1
  split <;> rfl

theorem nodup_textFields (c : TileCombined) : (c.textFields.map Prod.fst).Nodup := by
  rw [names_textFields]
  split <;> decide

theorem writable_textFields (c : TileCombined) :
    ∀ p ∈ c.textFields, Plain blank p.1 ∧ equalSign ∉ p.1 ∧ Plain blank p.2 := by
  have hall : ∀ name ∈ fixedNames ++ [ascii "mode"], Plain blank name ∧ equalSign ∉ name := by decide
  intro p hp
  have hname : p.1 ∈ fixedNames ++ [ascii "mode"] := by
    have hmem := List.mem_map_of_mem hp (f := Prod.fst)
    rw [names_textFields, List.mem_append, List.mem_ite_nil_right] at hmem
    rw [List.mem_append]
    exact hmem.imp_right And.right
  refine ⟨(hall p.1 hname).1, (hall p.1 hname).2, ?_⟩
  simp only [textFields, List.mem_append, List.mem_cons, List.mem_ite_nil_right, List.not_mem_nil,
    or_false] at hp
  rcases hp with hp | ⟨-, rfl⟩
  · rcases hp with rfl | rfl | rfl | rfl | rfl | rfl | rfl | rfl | rfl | rfl | rfl | rfl
    all_goals dsimp only
    all_goals first | exact decimal_plain | exact plain_commaList _
  · dsimp only
    exact decimal_plain

/-- The pairs that `parse` finds in what `serialize` writes. -/
theorem pairs_serializeLine (c : TileCombined) {word suffix : Bytes} (hword : TileDesc.IsWord word)
    (hsuffix : TileDesc.EndsLine suffix) :
    (tokenize (c.serializeLine word suffix) blank).filterMap parseNameValuePair = c.textFields := by
  rw [serializeLine, serialize, TileDesc.filterMap_tokenize_textOf hword hsuffix
    (writable_textFields c) (parseNameValuePair_word hword.noSign), List.filterMap_map]
  have hpair : ∀ p ∈ c.textFields, (parseNameValuePair ∘ fun p : Bytes × Bytes => pair p.1 p.2) p =
      some p :=
    fun p hp => parseNameValuePair_pair (writable_textFields c p hp).2.1 p.2
  rw [List.filterMap_congr hpair, List.filterMap_some]

theorem stringArgument_textFields {c : TileCombined} {name value : Bytes}
    (h : (name, value) ∈ c.textFields) : stringArgument c.textFields name = value := by
  have hnodup : (c.textFields.reverse.map Prod.fst).Nodup := by
    rw [List.map_reverse, List.nodup_reverse]
    exact nodup_textFields c
  rw [stringArgument, Assoc.lookup_of_mem hnodup (List.mem_reverse.mpr h)]
  rfl

theorem argument_textFields {c : TileCombined} {name : Bytes} {n : Nat}
    (h : (name, decimal n) ∈ c.textFields) (hn : IsInt32 n) : argument c.textFields name = n := by
  rw [argument, lookup_filterMap (nodup_textFields c) h, stringToInteger_decimal hn]
  rfl

theorem argument_mode {c : TileCombined} (h : IsInt32 c.params.mode) :
    argument c.textFields (ascii "mode") = c.params.mode := by
  by_cases hm : c.params.mode = 0
  · rw [argument, lookup_filterMap_none, hm]
    · rfl
    · rw [names_textFields, List.mem_append, List.mem_ite_nil_right]
      rintro (hn | ⟨hn, -⟩)
      · exact absurd hn (by decide)
      · exact hn hm
  · exact argument_textFields (by simp [textFields, hm]) h

/-- **Combined tiles that are written are read.** -/
theorem parse_serializeLine {c : TileCombined} {first : TileDesc}
    (hparams : c.params = first.combineParams) (halike : Alike first c.tiles)
    (hints : first.combineParams.IsInts) {word suffix : Bytes} (hword : TileDesc.IsWord word)
    (hsuffix : TileDesc.EndsLine suffix) :
    ∃ c', parse (tokenize (c.serializeLine word suffix) blank) = some c' ∧ c'.tiles = c.tiles ∧
      c'.params = c.params := by
  have hmode : IsInt32 c.params.mode := by
    rw [hparams]
    exact hints.mode
  obtain ⟨c', hc', htiles, hparams'⟩ := ofStrings_eq halike
    (tokenize_commaList (c.tiles.map fun t => (t.tilePosX : Int)))
    (tokenize_commaList (c.tiles.map fun t => (t.tilePosY : Int)))
    (tokenize_commaList (c.tiles.map TileDesc.ver))
    (.inr (tokenize_commaList (c.tiles.map fun t => (t.imgSize : Int))))
    (tokenize_commaList (c.tiles.map fun t => (t.oldWireId.toNat : Int)))
    (tokenize_commaList (c.tiles.map fun t => (t.wireId.toNat : Int)))
  refine ⟨c', ?_, htiles, hparams'.trans hparams.symm⟩
  have hp := hparams
  simp only [TileDesc.combineParams] at hp
  have h1 : argument c.textFields (ascii "nviewid") = first.normalizedViewId :=
    argument_textFields (by simp [textFields, hp]) hints.normalizedViewId
  have h2 : argument c.textFields (ascii "part") = first.part :=
    argument_textFields (by simp [textFields, hp]) hints.part
  have h3 : argument c.textFields (ascii "width") = first.width :=
    argument_textFields (by simp [textFields, hp]) hints.width
  have h4 : argument c.textFields (ascii "height") = first.height :=
    argument_textFields (by simp [textFields, hp]) hints.height
  have h5 : argument c.textFields (ascii "tilewidth") = first.tileWidth :=
    argument_textFields (by simp [textFields, hp]) hints.tileWidth
  have h6 : argument c.textFields (ascii "tileheight") = first.tileHeight :=
    argument_textFields (by simp [textFields, hp]) hints.tileHeight
  have h7 : argument c.textFields (ascii "mode") = first.mode := by
    rw [argument_mode hmode, hparams]
    rfl
  have h8 : stringArgument c.textFields (ascii "tileposx") =
      commaList (c.tiles.map fun t => (t.tilePosX : Int)) :=
    stringArgument_textFields (by simp [textFields])
  have h9 : stringArgument c.textFields (ascii "tileposy") =
      commaList (c.tiles.map fun t => (t.tilePosY : Int)) :=
    stringArgument_textFields (by simp [textFields])
  have h10 : stringArgument c.textFields (ascii "ver") = commaList (c.tiles.map TileDesc.ver) :=
    stringArgument_textFields (by simp [textFields])
  have h11 : stringArgument c.textFields (ascii "imgsize") =
      commaList (c.tiles.map fun t => (t.imgSize : Int)) :=
    stringArgument_textFields (by simp [textFields])
  have h12 : stringArgument c.textFields (ascii "oldwid") =
      commaList (c.tiles.map fun t => (t.oldWireId.toNat : Int)) :=
    stringArgument_textFields (by simp [textFields])
  have h13 : stringArgument c.textFields (ascii "wid") =
      commaList (c.tiles.map fun t => (t.wireId.toNat : Int)) :=
    stringArgument_textFields (by simp [textFields])
  rw [parse, pairs_serializeLine c hword hsuffix, h1, h2, h3, h4, h5, h6, h7, h8, h9, h10, h11, h12, h13]
  exact hc'

end TileCombined

end Oxool
