import Oxool.Common.Parameters
import Oxool.Tile.RoundTrip

/-!
# The tiles that leave the queue (`common/MessageQueue.cpp`)

`get_impl` takes out the tile at the newest cursor, with it every tile that can be painted in one go,
and writes them as one message. A queue that holds requests for tiles only always gives such a
message: everything on it can be read, and what is written can be read again. The tiles of the message
are at different places, and a request is either left on the queue or has a tile of the message that
will do for it, as long as of two requests for one tile the earlier will do for the later.
-/

set_option autoImplicit false

namespace Oxool.TileDesc

/-- What is painted for `a` will do for `b`: the same tile, in no older a version, and whole where
`b` is to be whole. -/
def Answers (a b : TileDesc) : Prop :=
  a.eq b = true ∧ b.ver ≤ a.ver ∧ (b.wantsKeyframe = true → a.wantsKeyframe = true)

instance (a b : TileDesc) : Decidable (a.Answers b) := inferInstanceAs (Decidable (_ ∧ _))

theorem Answers.refl (a : TileDesc) : a.Answers a := ⟨eq_self a, Int.le_refl _, fun h => h⟩

theorem Answers.trans {a b c : TileDesc} (hab : a.Answers b) (hbc : b.Answers c) : a.Answers c :=
  ⟨(eq_congr hab.1 c).trans hbc.1, hbc.2.1.trans hab.2.1, fun h => hab.2.2 (hbc.2.2 h)⟩

end Oxool.TileDesc

namespace Oxool.Kit

open Oxool.Http (Bytes ascii)
open Oxool.Protocol

/-- A text on the queue is a tile that can be read. -/
structure IsItem (text : Bytes) : Prop where
  word : getFirstToken text = ascii "tile"
  read : ∃ t, readTile text = some t

/-- Of two requests for one tile the earlier one answers the later. -/
def Earlier (m n : Bytes) : Prop :=
  ∀ t ∈ readTile m, ∀ u ∈ readTile n, t.eq u = true → t.Answers u

/-- A queue of tiles, in which of two requests for one tile the first will do for both. -/
structure Ordered (queue : List Bytes) : Prop where
  items : ∀ m ∈ queue, IsItem m
  earlier : (queue.filter isPlainTile).Pairwise Earlier

/-! ## Which requests have a preview id -/

theorem exists_value_of_getNameIntegerPair {token name : Bytes} {n : Int}
    (h : getNameIntegerPair token = some (name, n)) : ∃ value, token = name ++ equalSign :: value := by
  simp only [getNameIntegerPair, Option.bind_eq_bind, Option.bind_eq_some_iff] at h
  obtain ⟨⟨name', value⟩, hpair, h⟩ := h
  split at h
  · obtain rfl : name' = name := congrArg Prod.fst (Option.some.inj h)
    rw [parseNameValuePair] at hpair
    split at hpair
    · cases hpair
    · rename_i c rest hdrop
      obtain ⟨rfl, rfl⟩ := Prod.mk.inj (Option.some.inj hpair)
      have hc : c = equalSign := by
        have := List.head_dropWhile_not (· != equalSign) (l := token) (by rw [hdrop]; simp)
        simpa [hdrop] using this
      refine ⟨rest, ?_⟩
      conv_lhs => rw [← List.takeWhile_append_dropWhile (p := (· != equalSign)) (l := token), hdrop, hc]
  · cases h

/-- What has no preview id for the queue has none when it is read. -/
theorem id_of_isPlainTile {message : Bytes} {t : TileDesc} (h : isPlainTile message = true)
    (hread : readTile message = some t) : t.id = -1 := by
  rw [isPlainTile, Bool.and_eq_true, Option.isNone_iff_eq_none] at h
  obtain ⟨hpre, hnone⟩ := h
  have hne : message ≠ pair (ascii "id") [] := by
    rintro rfl
    exact absurd hpre (by decide)
  have htokens := getTokenString_eq_none (by decide) (by decide) (by decide) hne hnone
  rw [getTokenString, List.findSome?_eq_none_iff] at htokens
  obtain ⟨-, -, -, -, -, -, -, -, -, -, -, hid, -⟩ := TileDesc.ofInts_eq_some hread
  rw [hid, TileDesc.argument]
  cases hlookup : ((tokenize message blank).filterMap getNameIntegerPair).reverse.lookup
      (ascii "id") with
  | none => rfl
  | some n =>
    obtain ⟨l₁, l₂, hsplit, -⟩ := List.lookup_eq_some_iff.mp hlookup
    have hmem : (ascii "id", n) ∈ (tokenize message blank).filterMap getNameIntegerPair :=
      List.mem_reverse.mp (by simp [hsplit])
    obtain ⟨token, htoken, hpair⟩ := List.mem_filterMap.mp hmem
    obtain ⟨value, rfl⟩ := exists_value_of_getNameIntegerPair hpair
    have hnothing := htokens _ htoken
    rw [← pair, tokenString_pair] at hnothing
    cases hnothing

/-- The first token of a text is the first one. -/
theorem head_tokenize {s w : Bytes} (h : getFirstToken s = w) (hw : IsToken blank w)
    (h0 : w.head? ≠ some 0) : (tokenize s blank).head? = some w := by
  have hsplit : s = w ++ s.dropWhile (· != blank) := by
    rw [← h, getFirstToken, List.takeWhile_append_dropWhile]
  have hhead : s.head? ≠ some 0 := by
    rw [hsplit, List.head?_append_of_ne_nil _ hw.1]
    exact h0
  have hline : ∀ b ∈ w, (b != Http.lf) = true := fun b hb => by simpa using (hw.2 b hb).2
  have hnone : ∀ b ∈ w, (b == blank) = false := fun b hb => by simpa using (hw.2 b hb).1
  rw [tokenize, if_neg hhead, hsplit, List.takeWhile_append_of_pos hline]
  cases hrest : s.dropWhile (· != blank) with
  | nil =>
    rw [List.takeWhile_nil, List.append_nil, pieces_of_forall hnone, List.nil_append, flush,
      if_neg hw.1]
    rfl
  | cons c rest =>
    have hc : c = blank := by
      have := List.head_dropWhile_not (· != blank) (l := s) (by rw [hrest]; simp)
      simpa [hrest] using this
    rw [hc, List.takeWhile_cons_of_pos (by decide), pieces_append (by decide), pieces_of_forall hnone,
      List.nil_append, flush, if_neg hw.1]
    rfl

theorem IsItem.tokens_head {text : Bytes} (h : IsItem text) :
    (tokenize text blank).head? = some (ascii "tile") :=
  head_tokenize h.word (by decide) (by decide)

theorem IsItem.tile_prefix {text : Bytes} (h : IsItem text) : matchPrefix (ascii "tile") text = true := by
  rw [matchPrefix, List.isPrefixOf_iff_prefix, ← h.word]
  exact List.takeWhile_prefix _

theorem IsItem.isPreviewTile_of_not {text : Bytes} (h : IsItem text) (hplain : isPlainTile text = false) :
    isPreviewTile text = true := by
  rw [isPlainTile, h.tile_prefix, Bool.true_and] at hplain
  rw [isPreviewTile, h.tile_prefix, Bool.true_and]
  simpa using hplain

/-- A request on the queue can be painted as it is. -/
theorem IsItem.readBatch {text : Bytes} (h : IsItem text) {t : TileDesc} (ht : readTile text = some t) :
    readBatch text = some (.single t) := by
  rw [readTile] at ht
  dsimp only [Kit.readBatch]
  rw [if_pos h.tokens_head, ht]
  rfl

/-! ## The tile to begin with -/

/-- The text at a place of the queue is for a tile, and no tile before it comes first. -/
def IsBest (priority : TileDesc → Int) (queue : List Bytes) (i : Nat) : Prop :=
  ∃ front text back t, queue = front ++ text :: back ∧ front.length = i ∧ isPlainTile text = true ∧
    readTile text = some t ∧ ∀ m ∈ front, ∀ u ∈ readTile m, priority u < priority t

/-- The loop stands behind `done`: no tile of it is better than the best one so far. -/
theorem prioritize_spec {priority : TileDesc → Int} {highest : Int} {done rest : List Bytes}
    {prioritized : Nat} {prioritySoFar : Int} (hitems : ∀ m ∈ rest, IsItem m)
    (hbest : IsBest priority (done ++ rest) prioritized)
    (hdone : ∀ m ∈ done, ∀ u ∈ readTile m, priority u ≤ prioritySoFar) :
    ∃ i, prioritize priority highest done.length rest prioritized prioritySoFar = some i ∧
      IsBest priority (done ++ rest) i := by
  induction rest generalizing done prioritized prioritySoFar with
  | nil => exact ⟨prioritized, rfl, hbest⟩
  | cons it rest ih =>
    obtain ⟨tile, htile⟩ := (hitems it List.mem_cons_self).read
    have hlength : done.length + 1 = (done ++ [it]).length := by simp
    have happend : done ++ it :: rest = (done ++ [it]) ++ rest := by simp
    have hrest : ∀ m ∈ rest, IsItem m := fun m hm => hitems m (List.mem_cons_of_mem _ hm)
    have hbehind : ∀ bound, prioritySoFar ≤ bound → priority tile ≤ bound →
        ∀ m ∈ done ++ [it], ∀ u ∈ readTile m, priority u ≤ bound := by
      intro bound hbound hthis m hm u hu
      rcases List.mem_append.mp hm with hm | hm
      · exact (hdone m hm u hu).trans hbound
      · rw [List.mem_singleton.mp hm, htile] at hu
        rw [← Option.some.inj hu]
        exact hthis
    rw [prioritize]
    cases hplain : isPlainTile it with
    | false => exact ⟨prioritized, by simp, hbest⟩
    | true =>
      rw [if_pos rfl, htile]
      dsimp only
      split
      · rename_i hbetter
        have hnew : IsBest priority (done ++ it :: rest) done.length :=
          ⟨done, it, rest, tile, rfl, rfl, hplain, htile, fun m hm u hu =>
            (hdone m hm u hu).trans_lt hbetter⟩
        split
        · exact ⟨done.length, rfl, hnew⟩
        · rw [happend] at hnew ⊢
          rw [hlength]
          exact ih hrest hnew (hbehind _ hbetter.le (Int.le_refl _))
      · rename_i hworse
        rw [happend] at hbest ⊢
        rw [hlength]
        exact ih hrest hbest (hbehind _ (Int.le_refl _) (Int.not_lt.mp hworse))

/-- Requests for one tile have one priority. -/
theorem TileQueue.priority_congr (q : TileQueue) {t u : TileDesc} (h : t.cacheKey = u.cacheKey) :
    q.priority t = q.priority u := by
  simp only [TileDesc.cacheKey, CacheKey.mk.injEq] at h
  obtain ⟨-, -, -, hx, hy, hw, hh, -, -⟩ := h
  have hrect : ∀ x y w h, t.intersectsWithRect x y w h = u.intersectsWithRect x y w h := by
    intro x y w h
    rw [TileDesc.intersectsWithRect, TileDesc.intersectsWithRect, hx, hy, hw, hh]
  rw [priority, priority]
  induction q.viewOrder.reverse with
  | nil => rfl
  | cons viewId older ih => simp only [priorityIn, hrect, ih]

/-! ## The tiles that go with it -/

/-- The request is painted with the first tile. -/
def goesWith (first : TileDesc) (text : Bytes) : Bool :=
  isPlainTile text && (readTile text).any first.canCombine

theorem combineTiles_eq (first : TileDesc) {queue : List Bytes} (hitems : ∀ m ∈ queue, IsItem m) :
    combineTiles first queue = ((queue.filter (goesWith first)).filterMap readTile,
      queue.filter (fun text => !goesWith first text), false) := by
  induction queue with
  | nil => rfl
  | cons it rest ih =>
    obtain ⟨tile, htile⟩ := (hitems it List.mem_cons_self).read
    have hrest := ih fun m hm => hitems m (List.mem_cons_of_mem _ hm)
    rw [combineTiles]
    cases hplain : isPlainTile it with
    | false =>
      have hgoes : goesWith first it = false := by rw [goesWith, hplain, Bool.false_and]
      rw [List.filter_cons_of_neg (by simp [hgoes]), List.filter_cons_of_pos (by simp [hgoes]), hrest]
      rfl
    | true =>
      rw [if_pos rfl, htile]
      dsimp only
      have hgoes : goesWith first it = first.canCombine tile := by
        rw [goesWith, hplain, htile, Bool.true_and]
        rfl
      cases hcombine : first.canCombine tile with
      | false =>
        rw [hcombine] at hgoes
        rw [List.filter_cons_of_neg (by simp [hgoes]), List.filter_cons_of_pos (by simp [hgoes]), hrest]
        rfl
      | true =>
        rw [hcombine] at hgoes
        rw [List.filter_cons_of_pos (by simp [hgoes]), List.filter_cons_of_neg (by simp [hgoes]), hrest,
          List.filterMap_cons_some htile]
        rfl

theorem goesWith_iff {first : TileDesc} {text : Bytes} :
    goesWith first text = true ↔
      isPlainTile text = true ∧ ∃ t, readTile text = some t ∧ first.canCombine t = true := by
  rw [goesWith, Bool.and_eq_true, Option.any_eq_true]

theorem combineParams_of_canCombine {t u : TileDesc} (h : t.canCombine u = true) :
    u.combineParams = t.combineParams := by
  rw [TileDesc.canCombine, Bool.and_eq_true, TileDesc.onSameRow, Bool.and_eq_true,
    TileDesc.sameTileCombineParams] at h
  exact (eq_of_beq h.1.1).symm

/-! ## The message -/

/-- Tiles that are painted in one go. -/
structure InOneGo (first : TileDesc) (tiles : List TileDesc) : Prop where
  params : ∀ t ∈ tiles, t.combineParams = first.combineParams
  noId : ∀ t ∈ tiles, t.id = -1
  fits : ∀ t ∈ tiles, t.Fits
  /-- Of two requests for one tile the earlier will do for the later. -/
  earlier : tiles.Pairwise fun t u => t.eq u = true → t.Answers u

/-- At one place there is one tile. -/
theorem InOneGo.eq_iff {first : TileDesc} {tiles : List TileDesc} (h : InOneGo first tiles)
    {t u : TileDesc} (ht : t ∈ tiles) (hu : u ∈ tiles) :
    t.eq u = true ↔ t.tilePosX = u.tilePosX ∧ t.tilePosY = u.tilePosY := by
  rw [TileDesc.eq_iff, TileDesc.cacheKey_eq_iff, h.params t ht, h.params u hu, h.noId t ht, h.noId u hu]
  simp

theorem InOneGo.sublist {first : TileDesc} {tiles tiles' : List TileDesc} (h : InOneGo first tiles)
    (hsub : tiles'.Sublist tiles) : InOneGo first tiles' where
  params := fun t ht => h.params t (hsub.subset ht)
  noId := fun t ht => h.noId t (hsub.subset ht)
  fits := fun t ht => h.fits t (hsub.subset ht)
  earlier := h.earlier.sublist hsub

theorem dropDuplicates_sublist (n : Nat) (tiles : List TileDesc) : (dropDuplicates n tiles).Sublist tiles := by
  induction n generalizing tiles with
  | zero => cases tiles <;> exact List.Sublist.refl _
  | succ n ih =>
    cases tiles with
    | nil => exact List.Sublist.refl _
    | cons a tiles => exact ((ih _).trans List.filter_sublist).cons_cons a

/-- **Later tiles at the place of an earlier one are dropped**, and the earlier one answers them. -/
theorem dropDuplicates_spec {first : TileDesc} {n : Nat} {tiles : List TileDesc}
    (h : InOneGo first tiles) (hn : tiles.length ≤ n) :
    (dropDuplicates n tiles).Pairwise (fun a b => ¬ a.eq b = true) ∧
      ∀ t ∈ tiles, ∃ a ∈ dropDuplicates n tiles, a.Answers t := by
  induction n generalizing tiles with
  | zero =>
    obtain rfl : tiles = [] := List.length_eq_zero_iff.mp (Nat.le_zero.mp hn)
    exact ⟨.nil, by simp⟩
  | succ n ih =>
    cases tiles with
    | nil => exact ⟨.nil, by simp⟩
    | cons a tiles =>
      rw [dropDuplicates]
      have hsub : (tiles.filter fun b =>
          ¬ (a.tilePosX = b.tilePosX ∧ a.tilePosY = b.tilePosY)).Sublist tiles := List.filter_sublist
      rw [List.length_cons] at hn
      obtain ⟨hpair, hkept⟩ := ih (h.sublist (hsub.cons a)) (hsub.length_le.trans (by omega))
      constructor
      · refine List.pairwise_cons.mpr ⟨fun b hb heq => ?_, hpair⟩
        obtain ⟨hb, hplace⟩ := List.mem_filter.mp ((dropDuplicates_sublist _ _).subset hb)
        have hsame := (h.eq_iff List.mem_cons_self (List.mem_cons_of_mem _ hb)).mp heq
        simp [hsame] at hplace
      · intro t ht
        rcases List.mem_cons.mp ht with rfl | htail
        · exact ⟨t, List.mem_cons_self, .refl t⟩
        · by_cases hplace : a.tilePosX = t.tilePosX ∧ a.tilePosY = t.tilePosY
          · have heq := (h.eq_iff List.mem_cons_self ht).mpr hplace
            exact ⟨a, List.mem_cons_self, List.rel_of_pairwise_cons h.earlier htail heq⟩
          · obtain ⟨b, hb, hanswers⟩ := hkept t (List.mem_filter.mpr ⟨htail, decide_eq_true hplace⟩)
            exact ⟨b, List.mem_cons_of_mem _ hb, hanswers⟩

/-- What a combined message keeps of a tile without a preview id will do for it. -/
theorem answers_strip {t : TileDesc} (h : t.id = -1) : (TileCombined.strip t).Answers t :=
  ⟨TileDesc.eq_iff.mpr ⟨rfl, h.symm⟩, Int.le_refl _, fun hkey => hkey⟩

theorem head_tokenize_serialize (c : TileCombined) :
    (tokenize (c.serialize (ascii "tilecombine")) blank).head? = some (ascii "tilecombine") := by
  rw [TileCombined.serialize,
    TileDesc.tokenize_textOf (by decide) (by decide) (TileCombined.writable_textFields c)]
  rfl

/-- A tile that is handed out alone. -/
theorem readBatch_serialize {t : TileDesc} (hfits : t.Fits) (hid : t.id = -1) :
    ∃ u, readBatch (t.serialize (ascii "tile")) = some (.single u) ∧ u.Answers t := by
  obtain ⟨u, hu, hkey, huid, hver, hold⟩ := TileDesc.parse_serialize hfits
  have hhead : (tokenize (t.serialize (ascii "tile")) blank).head? = some (ascii "tile") := by
    rw [TileDesc.tokenize_serialize]
    rfl
  refine ⟨u, ?_, TileDesc.eq_iff.mpr ⟨hkey, ?_⟩, hver, fun hwants => ?_⟩
  · dsimp only [readBatch]
    rw [if_pos hhead, hu]
    rfl
  · rw [huid, hid]
    rfl
  · exact beq_iff_eq.mpr (hold (beq_iff_eq.mp hwants))

/-- Tiles that are handed out together, at different places. -/
theorem readBatch_create {first : TileDesc} {tiles : List TileDesc} (hints : first.combineParams.IsInts)
    (h : InOneGo first tiles) :
    ∃ c c', TileCombined.create first tiles = some c ∧
      readBatch (c.serialize (ascii "tilecombine")) = some c' ∧
      c'.tiles = tiles.map TileCombined.strip := by
  have hmax : intMax = 2 ^ 31 - 1 := rfl
  obtain ⟨c, hc, htiles, hparams, halike⟩ := TileCombined.create_eq h.params fun t ht =>
    ⟨TileDesc.isInt32_of_lt (h.fits t ht).tilePosX, TileDesc.isInt32_of_lt (h.fits t ht).tilePosY,
      (h.fits t ht).ver.1, by have := (h.fits t ht).ver.2; omega⟩
  rw [← htiles] at halike
  have hword : TileDesc.IsWord (ascii "tilecombine") := ⟨by decide, by decide, by decide⟩
  have hsuffix : TileDesc.EndsLine [] := .inl rfl
  obtain ⟨c', hc', htiles', -⟩ :=
    TileCombined.parse_serializeLine hparams halike hints hword hsuffix
  rw [TileCombined.serializeLine, List.append_nil] at hc'
  refine ⟨c, c', hc, ?_, htiles'.trans htiles⟩
  dsimp only [readBatch]
  rw [head_tokenize_serialize, if_neg (by decide), if_pos rfl, hc']

/-- **The message has all the tiles**, each in a version that will do, and none of them twice. -/
theorem messageOf_spec {first : TileDesc} {tiles : List TileDesc}
    (h : InOneGo first (first :: tiles)) :
    ∃ m c, TileQueue.messageOf first tiles = some m ∧ readBatch m = some c ∧
      c.tiles.Pairwise (fun a b => ¬ a.eq b = true) ∧
      ∀ t ∈ first :: tiles, ∃ a ∈ c.tiles, a.Answers t := by
  have hfits := h.fits first List.mem_cons_self
  have hid := h.noId first List.mem_cons_self
  cases tiles with
  | nil =>
    obtain ⟨u, hu, hanswers⟩ := readBatch_serialize hfits hid
    refine ⟨_, _, rfl, hu, List.pairwise_singleton _ u, fun t ht => ⟨u, List.mem_singleton_self u, ?_⟩⟩
    rw [List.mem_singleton.mp ht]
    exact hanswers
  | cons second tiles =>
    obtain ⟨hpair, hkept⟩ := dropDuplicates_spec h (Nat.le_refl _)
    have hsub := dropDuplicates_sublist (first :: second :: tiles).length (first :: second :: tiles)
    obtain ⟨c, c', hc, hc', htiles⟩ := readBatch_create hfits.isInts (h.sublist hsub)
    refine ⟨c.serialize (ascii "tilecombine"), c', ?_, hc', ?_, fun t ht => ?_⟩
    · rw [TileQueue.messageOf]
      · exact congrArg (Option.map _) hc
      · rintro ⟨⟩
    · rw [htiles, List.pairwise_map]
      refine hpair.imp_of_mem fun {a b} ha hb hne heq => hne ?_
      have ha := h.noId a (hsub.subset ha)
      have hb := h.noId b (hsub.subset hb)
      exact TileDesc.eq_iff.mpr ⟨(TileDesc.eq_iff.mp heq).1, ha.trans hb.symm⟩
    · obtain ⟨a, ha, hanswers⟩ := hkept t ht
      refine ⟨TileCombined.strip a, ?_, (answers_strip (h.noId a (hsub.subset ha))).trans hanswers⟩
      rw [htiles]
      exact List.mem_map_of_mem ha

/-! ## Taking a message out -/

theorem deprioritizePreviews_perm (n : Nat) (queue : List Bytes) :
    (deprioritizePreviews n queue).Perm queue := by
  induction n generalizing queue with
  | zero => cases queue <;> exact List.Perm.refl _
  | succ n ih =>
    cases queue with
    | nil => exact List.Perm.refl _
    | cons front rest =>
      rw [deprioritizePreviews]
      split
      · exact (ih _).trans (List.perm_append_singleton front rest)
      · exact List.Perm.refl _

/-- The order of the tiles that are no previews stays as it is. -/
theorem filter_deprioritizePreviews (n : Nat) (queue : List Bytes) :
    (deprioritizePreviews n queue).filter isPlainTile = queue.filter isPlainTile := by
  induction n generalizing queue with
  | zero => cases queue <;> rfl
  | succ n ih =>
    cases queue with
    | nil => rfl
    | cons front rest =>
      rw [deprioritizePreviews]
      split
      · rename_i hpreview
        have hplain : isPlainTile front = false := by
          rw [isPreviewTile, Bool.and_eq_true, Option.isSome_iff_ne_none] at hpreview
          rw [isPlainTile, Bool.and_eq_false_iff, Option.isNone_eq_false_iff, Option.isSome_iff_ne_none]
          exact .inr hpreview.2
        rw [ih, List.filter_append, List.filter_cons_of_neg (by simp [hplain]),
          List.filter_cons_of_neg (by simp [hplain]), List.filter_nil, List.append_nil]
      · rfl

/-- What a queue of tiles gives: a message that can be read, and the queue without its tiles. -/
structure Pops (q : TileQueue) (m : Bytes) (c : TileCombined) : Prop where
  message : q.pop.1 = some m
  read : readBatch m = some c
  once : c.tiles.Pairwise fun a b => ¬ a.eq b = true
  answered : ∀ text ∈ q.queue, text ∈ q.pop.2.queue ∨ ∀ t ∈ readTile text, ∃ a ∈ c.tiles, a.Answers t
  subset : ∀ text ∈ q.pop.2.queue, text ∈ q.queue
  sublist : (q.pop.2.queue.filter isPlainTile).Sublist (q.queue.filter isPlainTile)
  shorter : q.pop.2.queue.length < q.queue.length

/-- A preview is handed out as it is. -/
theorem pops_of_preview {q : TileQueue} {front : Bytes} {rest : List Bytes}
    (hqueue : q.queue = front :: rest) (hitem : IsItem front) (hplain : isPlainTile front = false) :
    ∃ m c, Pops q m c := by
  obtain ⟨t, ht⟩ := hitem.read
  have hpop : q.pop = (some front, { q with queue := deprioritizePreviews rest.length rest }) := by
    rw [TileQueue.pop, hqueue]
    dsimp only [TileQueue.get_impl]
    rw [hplain, if_neg (by decide), if_pos (hitem.isPreviewTile_of_not hplain)]
  have hperm := deprioritizePreviews_perm rest.length rest
  refine ⟨front, .single t, ?_, hitem.readBatch ht, List.pairwise_singleton _ t, ?_, ?_, ?_, ?_⟩
  · rw [hpop]
  · intro text htext
    rw [hqueue] at htext
    rw [hpop]
    rcases List.mem_cons.mp htext with rfl | htext
    · refine .inr fun u hu => ⟨t, List.mem_singleton_self t, ?_⟩
      obtain rfl := Option.some.inj (ht.symm.trans hu)
      exact .refl t
    · exact .inl (hperm.mem_iff.mpr htext)
  · intro text htext
    rw [hpop] at htext
    rw [hqueue]
    exact List.mem_cons_of_mem _ (hperm.mem_iff.mp htext)
  · rw [hpop, hqueue]
    dsimp only
    rw [filter_deprioritizePreviews]
    exact (List.sublist_cons_self front rest).filter _
  · rw [hpop, hqueue]
    dsimp only
    rw [hperm.length_eq]
    exact Nat.lt_succ_self _

/-- A text and a tile behind it in a queue that is in order. -/
theorem Ordered.of_split {front back : List Bytes} {text : Bytes} (h : Ordered (front ++ text :: back))
    (hplain : isPlainTile text = true) : ∀ m ∈ back, isPlainTile m = true → Earlier text m := by
  intro m hm hmplain
  have hpair := h.earlier
  rw [List.filter_append, List.filter_cons_of_pos hplain, List.pairwise_append] at hpair
  exact List.rel_of_pairwise_cons hpair.2.1 (List.mem_filter.mpr ⟨hm, hmplain⟩)

/-- The best tile and those that go with it are painted in one go. -/
theorem inOneGo_of_best {priority : TileDesc → Int}
    (hcongr : ∀ t u : TileDesc, t.cacheKey = u.cacheKey → priority t = priority u)
    {front back : List Bytes} {text : Bytes} {first : TileDesc} (h : Ordered (front ++ text :: back))
    (hplain : isPlainTile text = true) (hread : readTile text = some first)
    (hbest : ∀ m ∈ front, ∀ u ∈ readTile m, priority u < priority first) :
    InOneGo first
      (first :: (((front ++ back).filter (goesWith first)).filterMap readTile)) := by
  have hmem : ∀ t ∈ ((front ++ back).filter (goesWith first)).filterMap readTile,
      ∃ m ∈ front ++ back, isPlainTile m = true ∧ readTile m = some t ∧ first.canCombine t = true := by
    intro t ht
    obtain ⟨m, hm, hmt⟩ := List.mem_filterMap.mp ht
    obtain ⟨hm, hgoes⟩ := List.mem_filter.mp hm
    obtain ⟨hmplain, u, hu, hcombine⟩ := goesWith_iff.mp hgoes
    obtain rfl := Option.some.inj (hu.symm.trans hmt)
    exact ⟨m, hm, hmplain, hmt, hcombine⟩
  constructor
  · refine List.forall_mem_cons.mpr ⟨rfl, fun t ht => ?_⟩
    obtain ⟨m, -, -, -, hcombine⟩ := hmem t ht
    exact combineParams_of_canCombine hcombine
  · refine List.forall_mem_cons.mpr ⟨id_of_isPlainTile hplain hread, fun t ht => ?_⟩
    obtain ⟨m, -, hmplain, hmt, -⟩ := hmem t ht
    exact id_of_isPlainTile hmplain hmt
  · refine List.forall_mem_cons.mpr ⟨TileDesc.fits_of_parse hread, fun t ht => ?_⟩
    obtain ⟨m, -, -, hmt, -⟩ := hmem t ht
    exact TileDesc.fits_of_parse hmt
  · refine List.pairwise_cons.mpr ⟨fun t ht heq => ?_, ?_⟩
    · obtain ⟨m, hm, hmplain, hmt, -⟩ := hmem t ht
      rcases List.mem_append.mp hm with hm | hm
      · -- a request for the same tile before it would have come first
        have := hbest m hm t hmt
        rw [hcongr first t (TileDesc.eq_iff.mp heq).1] at this
        exact absurd this (Int.lt_irrefl _)
      · exact h.of_split hplain m hm hmplain first hread t hmt heq
    · have hsub : ((front ++ back).filter (goesWith first)).Sublist
          ((front ++ text :: back).filter isPlainTile) := by
        have hfilter : (front ++ back).filter (goesWith first) =
            ((front ++ back).filter isPlainTile).filter (goesWith first) := by
          rw [List.filter_filter]
          refine List.filter_congr fun m _ => ?_
          rw [goesWith, Bool.and_comm (isPlainTile m), Bool.and_assoc, Bool.and_self]
        rw [hfilter]
        exact List.filter_sublist.trans
          (((List.Sublist.refl front).append (List.sublist_cons_self text back)).filter _)
      refine List.pairwise_filterMap.mpr ((h.earlier.sublist hsub).imp ?_)
      intro m n hearlier t ht u hu
      exact hearlier t ht u hu

/-- The best tile is handed out with all that can be painted with it. -/
theorem pops_of_plain {q : TileQueue} {front : Bytes} {rest : List Bytes}
    (hqueue : q.queue = front :: rest) (hordered : Ordered q.queue) (hplain : isPlainTile front = true) :
    ∃ m c, Pops q m c := by
  rw [hqueue] at hordered
  obtain ⟨tile, htile⟩ := (hordered.items front List.mem_cons_self).read
  have hstart : IsBest q.priority ([] ++ front :: rest) 0 :=
    ⟨[], front, rest, tile, rfl, rfl, hplain, htile, by simp⟩
  obtain ⟨i, hi, before, text, behind, first, hsplit, rfl, htext, hread, hbest⟩ :=
    @prioritize_spec q.priority (q.viewOrder.length - 1) [] (front :: rest) 0 (-1) hordered.items
      hstart (by simp)
  rw [List.nil_append] at hsplit
  rw [hsplit] at hordered
  have hothers : (before ++ text :: behind).eraseIdx before.length = before ++ behind := by
    rw [List.eraseIdx_append_of_length_le (Nat.le_refl _), Nat.sub_self]
    rfl
  have hitems : ∀ m ∈ before ++ behind, IsItem m := fun m hm =>
    hordered.items m (((List.Sublist.refl before).append (List.sublist_cons_self text behind)).subset hm)
  obtain ⟨m, c, hm, hc, honce, hkept⟩ :=
    messageOf_spec (inOneGo_of_best (fun t u => q.priority_congr) hordered htext hread hbest)
  have hpop : q.pop = (some m,
      { q with queue := (before ++ behind).filter fun text => !goesWith first text }) := by
    rw [TileQueue.pop, hqueue]
    dsimp only [TileQueue.get_impl]
    rw [if_pos hplain]
    rw [List.length_nil] at hi
    rw [hi]
    dsimp only
    rw [hsplit, hothers, List.getD_eq_getElem?_getD, List.getElem?_append_right (Nat.le_refl _),
      Nat.sub_self, List.getElem?_cons_zero, Option.getD_some, hread]
    dsimp only
    rw [combineTiles_eq first hitems]
    dsimp only
    rw [if_neg (by decide), hm]
  have hleft : ((before ++ behind).filter fun text => !goesWith first text).Sublist
      (before ++ text :: behind) :=
    List.filter_sublist.trans ((List.Sublist.refl before).append (List.sublist_cons_self text behind))
  refine ⟨m, c, ?_, hc, honce, ?_, ?_, ?_, ?_⟩
  · rw [hpop]
  · intro text' htext'
    rw [hpop]
    rw [hqueue, hsplit] at htext'
    by_cases hsame : text' = text
    · refine .inr fun t ht => hkept t ?_
      rw [hsame, hread] at ht
      rw [← Option.some.inj ht]
      exact List.mem_cons_self
    · have hmem : text' ∈ before ++ behind := by
        simpa [hsame] using htext'
      cases hgoes : goesWith first text' with
      | false => exact .inl (List.mem_filter.mpr ⟨hmem, by simp [hgoes]⟩)
      | true =>
        refine .inr fun t ht => hkept t (List.mem_cons_of_mem _ ?_)
        exact List.mem_filterMap.mpr ⟨text', List.mem_filter.mpr ⟨hmem, hgoes⟩, ht⟩
  · intro text' htext'
    rw [hpop] at htext'
    rw [hqueue, hsplit]
    exact hleft.subset htext'
  · rw [hpop, hqueue, hsplit]
    exact hleft.filter _
  · rw [hpop, hqueue, hsplit]
    dsimp only
    have := (List.filter_sublist (l := before ++ behind) (p := fun text => !goesWith first text)).length_le
    rw [List.length_append] at this
    rw [List.length_append, List.length_cons]
    omega

/-- **A queue of tiles gives all of them**: one message after another, until nothing is left. -/
theorem exists_pops {q : TileQueue} (hordered : Ordered q.queue) (hne : q.queue ≠ []) :
    ∃ m c, Pops q m c := by
  obtain ⟨front, rest, hqueue⟩ := List.exists_cons_of_ne_nil hne
  cases hplain : isPlainTile front with
  | true => exact pops_of_plain hqueue hordered hplain
  | false =>
    refine pops_of_preview hqueue (hordered.items front ?_) hplain
    rw [hqueue]
    exact List.mem_cons_self

theorem Pops.ordered {q : TileQueue} {m : Bytes} {c : TileCombined} (h : Pops q m c)
    (hordered : Ordered q.queue) : Ordered q.pop.2.queue :=
  ⟨fun text htext => hordered.items text (h.subset text htext), hordered.earlier.sublist h.sublist⟩

end Oxool.Kit
