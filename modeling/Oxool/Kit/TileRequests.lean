import Oxool.Kit.TileBatches
import Oxool.Lib.Run

/-!
# Requests for tiles, from the queue

Whoever asks for a tile is to get it painted: the same tile, in the version that was asked for or a
later one, and as a whole where a keyframe was asked for. The queue takes requests out in two places.
A new request takes the place of a queued one whose text is the same up to the version; the preview
id and the edit mode stand behind the version, and no version is compared. And of the tiles that are
handed out together the first one at each place is kept, whatever version and keyframe the others
asked for.

`popped` and `requests` record what was handed out and what was asked for. The code never reads them.
-/

set_option autoImplicit false


namespace Oxool.Kit

open Oxool.Http (Bytes ascii)
open Oxool.Protocol

/-! ## Messages with tiles -/

/-- A message that asks for tiles. -/
structure TileMessage where
  text : Bytes
  combined : TileCombined
  word : getFirstToken text = ascii "tile" ∨ getFirstToken text = ascii "tilecombine"
  read : readBatch text = some combined

/-- The texts that are put on the queue for a message. -/
def TileMessage.texts (m : TileMessage) : List Bytes :=
  if getFirstToken m.text = ascii "tilecombine" then
    m.combined.tiles.map fun t => t.serialize (ascii "tile")
  else [m.text]

/-! ## The requests -/

structure TileRequests where
  queue : TileQueue
  popped : List Bytes
  requests : List (Nat × TileDesc)

/-- One of the messages handed out since a request has the tile. -/
def Answered (popped : List Bytes) (r : Nat × TileDesc) : Prop :=
  ∃ m ∈ popped.drop r.1, ∃ c ∈ readBatch m, ∃ a ∈ c.tiles, a.Answers r.2

/-- **Nothing is lost**: while there are messages one of them can be taken out, when there are none
left every request has been answered, and no message asks for a tile twice. -/
structure NothingLost (s : TileRequests) : Prop where
  drains : s.queue.queue ≠ [] →
    s.queue.pop.1.isSome = true ∧ s.queue.pop.2.queue.length < s.queue.queue.length
  answered : s.queue.queue = [] → ∀ r ∈ s.requests, Answered s.popped r
  once : ∀ m ∈ s.popped, ∃ c ∈ readBatch m, c.tiles.Pairwise fun a b => ¬ a.eq b = true

namespace TileRequests

def init : TileRequests := ⟨⟨[], [], []⟩, [], []⟩

inductive Action where
  | put (m : TileMessage)
  | pop
  | updateCursorPosition (viewId : Int) (cursorPosition : CursorPosition)
  | removeCursorPosition (viewId : Int)

def act (viewIdOf : Bytes → Option Bytes) (s : TileRequests) : Action → TileRequests
  | .put m =>
    { s with
      queue := (s.queue.put viewIdOf m.text).1
      requests := s.requests ++ m.combined.tiles.map fun t => (s.popped.length, t) }
  | .pop =>
    if s.queue.queue = [] then s
    else { s with queue := s.queue.pop.2, popped := s.popped ++ s.queue.pop.1.toList }
  | .updateCursorPosition viewId cursorPosition =>
    { s with queue := s.queue.updateCursorPosition viewId cursorPosition }
  | .removeCursorPosition viewId => { s with queue := s.queue.removeCursorPosition viewId }

end TileRequests

/-- A message that is not joined to typing of the queue. -/
def StandsAlone (queue : List Bytes) (value : Bytes) : Prop :=
  let tokens := tokenize value blank
  (tokens[1]? = some (ascii "textinput") → combineTextInput queue tokens = none) ∧
    (tokens[1]? = some (ascii "removetextcontext") → combineRemoveText queue tokens = none)

/-- A text can be put: it is not taken for typing, it answers the request it takes the place of, and
the queued requests for the same tile that will be painted in its place answer it. -/
def TextFits (queue : List Bytes) (text : Bytes) : Prop :=
  StandsAlone (removeTileDuplicate text queue) text ∧
  (∀ queued ∈ queue.find? (isTileDuplicate text), ∀ t ∈ readTile queued, ∀ u ∈ readTile text,
    u.Answers t) ∧
  (isPlainTile text = true → ∀ queued ∈ removeTileDuplicate text queue, isPlainTile queued = true →
    ∀ t ∈ readTile queued, ∀ u ∈ readTile text, t.eq u = true → t.Answers u)

def TextsFit : List Bytes → List Bytes → Prop
  | _, [] => True
  | queue, text :: texts => TextFits queue text ∧ TextsFit (putTile queue text) texts

/-- A put after which nothing is lost. -/
def TileRequests.Harmless (s : TileRequests) : TileRequests.Action → Prop
  | .put m => (∀ t ∈ m.combined.tiles, t.Fits) ∧ TextsFit s.queue.queue m.texts
  | _ => True

instance (queue : List Bytes) (value : Bytes) : Decidable (StandsAlone queue value) :=
  inferInstanceAs (Decidable (_ ∧ _))

instance (queue : List Bytes) (text : Bytes) : Decidable (TextFits queue text) :=
  inferInstanceAs (Decidable (_ ∧ _ ∧ _))

instance decidableTextsFit : ∀ queue texts, Decidable (TextsFit queue texts)
  | _, [] => .isTrue trivial
  | queue, text :: texts =>
    have := decidableTextsFit (putTile queue text) texts
    inferInstanceAs (Decidable (TextFits queue text ∧ TextsFit (putTile queue text) texts))

/-! ## Putting -/

/-- A text on the queue answers the request. -/
def AnsweredBy (queue : List Bytes) (b : TileDesc) : Prop := ∃ m ∈ queue, ∃ t ∈ readTile m, t.Answers b

theorem mem_eraseP_or_find? {α : Type} {p : α → Bool} {l : List α} {a : α} (h : a ∈ l) :
    a ∈ l.eraseP p ∨ l.find? p = some a := by
  induction l with
  | nil => cases h
  | cons b l ih =>
    rw [List.eraseP_cons, List.find?_cons]
    cases hb : p b with
    | true =>
      rcases List.mem_cons.mp h with rfl | h
      · exact .inr rfl
      · exact .inl h
    | false =>
      rcases List.mem_cons.mp h with rfl | h
      · exact .inl List.mem_cons_self
      · exact (ih h).imp_left (List.mem_cons_of_mem _)

/-- A message that stands alone is put behind the others. -/
theorem StandsAlone.put_impl {queue : List Bytes} {value : Bytes} (h : StandsAlone queue value) :
    MessageQueue.put_impl queue value = queue ++ [value] := by
  obtain ⟨htext, hremove⟩ := h
  dsimp only [MessageQueue.put_impl]
  split
  · rename_i r hr
    split at hr
    · rename_i hword
      rw [htext hword] at hr
      cases hr
    · split at hr
      · rename_i hword
        rw [hremove hword] at hr
        cases hr
      · cases hr
  · rfl

section Put

variable {queue : List Bytes} {text : Bytes}

theorem TextFits.putTile_eq (h : TextFits queue text) :
    putTile queue text = removeTileDuplicate text queue ++ [text] :=
  h.1.put_impl

theorem AnsweredBy.putTile (hfits : TextFits queue text) (hitem : IsItem text) {b : TileDesc}
    (h : AnsweredBy queue b) : AnsweredBy (putTile queue text) b := by
  obtain ⟨m, hm, t, ht, hb⟩ := h
  rw [hfits.putTile_eq]
  rcases mem_eraseP_or_find? (p := isTileDuplicate text) hm with hm | hm
  · exact ⟨m, List.mem_append_left _ hm, t, ht, hb⟩
  · obtain ⟨u, hu⟩ := hitem.read
    exact ⟨text, by simp, u, hu, (hfits.2.1 m hm t ht u hu).trans hb⟩

theorem Ordered.putTile (h : Ordered queue) (hfits : TextFits queue text) (hitem : IsItem text) :
    Ordered (putTile queue text) := by
  have hsub : (removeTileDuplicate text queue).Sublist queue := List.eraseP_sublist
  rw [hfits.putTile_eq]
  constructor
  · intro m hm
    rcases List.mem_append.mp hm with hm | hm
    · exact h.items m (hsub.subset hm)
    · rw [List.mem_singleton.mp hm]
      exact hitem
  · rw [List.filter_append, List.pairwise_append]
    refine ⟨h.earlier.sublist (hsub.filter _), ?_, fun m hm n hn => ?_⟩
    · exact (List.pairwise_singleton Earlier text).sublist List.filter_sublist
    · obtain ⟨hn, hplain⟩ := List.mem_filter.mp hn
      obtain rfl := List.mem_singleton.mp hn
      obtain ⟨hm, hmplain⟩ := List.mem_filter.mp hm
      exact hfits.2.2 hplain m hm hmplain

/-- All the texts of a message, one after another. -/
theorem Ordered.putTexts {texts : List Bytes} (h : Ordered queue) (hfit : TextsFit queue texts)
    (hitems : ∀ text ∈ texts, IsItem text) :
    Ordered (texts.foldl Kit.putTile queue) ∧
      (∀ b, AnsweredBy queue b → AnsweredBy (texts.foldl Kit.putTile queue) b) ∧
      ∀ text ∈ texts, ∀ u ∈ readTile text, AnsweredBy (texts.foldl Kit.putTile queue) u := by
  induction texts generalizing queue with
  | nil => exact ⟨h, fun b hb => hb, by simp⟩
  | cons text texts ih =>
    obtain ⟨hfits, hrest⟩ := hfit
    have hitem := hitems text List.mem_cons_self
    obtain ⟨hordered, hkept, hput⟩ := ih (h.putTile hfits hitem) hrest
      fun text' htext' => hitems text' (List.mem_cons_of_mem _ htext')
    refine ⟨hordered, fun b hb => hkept b (hb.putTile hfits hitem), fun text' htext' u hu => ?_⟩
    rcases List.mem_cons.mp htext' with rfl | htext'
    · refine hkept u ⟨text', ?_, u, hu, .refl u⟩
      rw [hfits.putTile_eq]
      simp
    · exact hput text' htext' u hu

end Put

/-! ## The texts of a message -/

theorem isItem_serialize {t : TileDesc} (h : t.Fits) : IsItem (t.serialize (ascii "tile")) := by
  constructor
  · rw [TileDesc.serialize, TileDesc.textOf, getFirstToken,
      List.takeWhile_append_of_pos (List.all_eq_true.mp (by decide))]
    rfl
  · obtain ⟨u, hu, -⟩ := TileDesc.parse_serialize h
    exact ⟨u, hu⟩

/-- The tiles of a combined message have no preview id. -/
theorem id_of_parse {tokens : List Bytes} {c : TileCombined} (h : TileCombined.parse tokens = some c) :
    ∀ t ∈ c.tiles, t.id = -1 := by
  intro t ht
  dsimp only [TileCombined.parse, TileCombined.ofStrings] at h
  split at h
  · cases h
  · split at h
    · cases h
    · obtain ⟨tiles, shared, htiles, rfl⟩ := Option.pmap_eq_some_iff.mp h
      obtain ⟨i, -, htile⟩ := TileCombined.exists_of_mapM htiles t ht
      simp only [TileCombined.tileAt, Option.bind_eq_bind, Option.bind_eq_some_iff] at htile
      obtain ⟨x, -, y, -, imgSize, -, ver, -, oldWireId, -, wireId, -, htile⟩ := htile
      obtain ⟨-, -, -, -, -, -, -, -, -, -, -, hid, -⟩ := TileDesc.ofInts_eq_some htile
      exact hid

namespace TileMessage

variable (m : TileMessage)

/-- A message is for one tile, or for several. -/
theorem cases_word :
    (getFirstToken m.text = ascii "tile" ∧
      ∃ t, readTile m.text = some t ∧ m.combined = .single t) ∨
    (getFirstToken m.text = ascii "tilecombine" ∧
      TileCombined.parse (tokenize m.text blank) = some m.combined) := by
  have hread := m.read
  dsimp only [readBatch] at hread
  rcases m.word with hword | hword
  · rw [head_tokenize hword (by decide) (by decide), if_pos rfl] at hread
    obtain ⟨t, ht, hc⟩ := Option.map_eq_some_iff.mp hread
    exact .inl ⟨hword, t, ht, hc.symm⟩
  · rw [head_tokenize hword (by decide) (by decide), if_neg (by decide), if_pos rfl] at hread
    exact .inr ⟨hword, hread⟩

/-- The texts are put one after another. -/
theorem put_eq (viewIdOf : Bytes → Option Bytes) (q : TileQueue) :
    (q.put viewIdOf m.text).1 = { q with queue := m.texts.foldl putTile q.queue } := by
  have hne : m.text ≠ [] := by
    intro hnil
    have hword := m.word
    rw [hnil] at hword
    exact absurd hword (by decide)
  rw [TileQueue.put, if_neg hne]
  dsimp only [TileQueue.put_impl, texts]
  rcases m.cases_word with ⟨hword, -⟩ | ⟨hword, hparse⟩
  · rw [hword, if_neg (by decide), if_pos rfl, if_neg (by decide)]
    rfl
  · rw [hword, if_pos rfl, if_pos rfl, hparse, List.foldl_map]

/-- The texts are requests, and those of a message ask for its tiles. -/
theorem texts_spec (hfits : ∀ t ∈ m.combined.tiles, t.Fits) :
    (∀ text ∈ m.texts, IsItem text) ∧
      ∀ t ∈ m.combined.tiles, ∃ text ∈ m.texts, ∃ u ∈ readTile text, u.Answers t := by
  rcases m.cases_word with ⟨hword, t, ht, hc⟩ | ⟨hword, hparse⟩
  · have htexts : m.texts = [m.text] := by
      rw [texts, hword, if_neg (by decide)]
    rw [htexts, hc]
    refine ⟨List.forall_mem_singleton.mpr ⟨hword, t, ht⟩, fun u hu => ?_⟩
    rw [List.mem_singleton.mp hu]
    exact ⟨m.text, List.mem_singleton_self _, t, ht, .refl t⟩
  · rw [texts, if_pos hword]
    constructor
    · intro text htext
      obtain ⟨t, ht, rfl⟩ := List.mem_map.mp htext
      exact isItem_serialize (hfits t ht)
    · intro t ht
      obtain ⟨u, hu, hkey, huid, hver, hold⟩ := TileDesc.parse_serialize (hfits t ht)
      refine ⟨_, List.mem_map_of_mem ht, u, hu, TileDesc.eq_iff.mpr ⟨hkey, ?_⟩, hver, fun hwants => ?_⟩
      · rw [huid, id_of_parse hparse t ht]
        rfl
      · exact beq_iff_eq.mpr (hold (beq_iff_eq.mp hwants))

end TileMessage

/-! ## Every run -/

theorem Answered.append {popped : List Bytes} {r : Nat × TileDesc} (h : Answered popped r)
    (more : List Bytes) : Answered (popped ++ more) r := by
  obtain ⟨m, hm, hc⟩ := h
  refine ⟨m, ?_, hc⟩
  rw [List.drop_append]
  exact List.mem_append_left _ hm

namespace TileRequests

/-- The queue is in order, and a request that was not answered yet is on it. -/
structure Inv (s : TileRequests) : Prop where
  ordered : Ordered s.queue.queue
  since : ∀ r ∈ s.requests, r.1 ≤ s.popped.length
  pending : ∀ r ∈ s.requests, Answered s.popped r ∨ AnsweredBy s.queue.queue r.2
  once : ∀ m ∈ s.popped, ∃ c ∈ readBatch m, c.tiles.Pairwise fun a b => ¬ a.eq b = true

theorem inv_init : init.Inv :=
  ⟨⟨by simp [init], .nil⟩, by simp [init], by simp [init], by simp [init]⟩

theorem Inv.nothingLost {s : TileRequests} (h : s.Inv) : NothingLost s := by
  refine ⟨fun hne => ?_, fun hnil r hr => ?_, h.once⟩
  · obtain ⟨m, c, hpops⟩ := exists_pops h.ordered hne
    exact ⟨by rw [hpops.message]; rfl, hpops.shorter⟩
  · refine (h.pending r hr).resolve_right ?_
    rintro ⟨m, hm, -⟩
    rw [hnil] at hm
    exact List.not_mem_nil hm

theorem Inv.put {viewIdOf : Bytes → Option Bytes} {s : TileRequests} {m : TileMessage} (h : s.Inv)
    (hok : s.Harmless (.put m)) : (s.act viewIdOf (.put m)).Inv := by
  obtain ⟨hfits, hfit⟩ := hok
  obtain ⟨hitems, hasked⟩ := m.texts_spec hfits
  obtain ⟨hordered, hkept, hput⟩ := h.ordered.putTexts hfit hitems
  rw [act]
  constructor
  · rw [m.put_eq]
    exact hordered
  · intro r hr
    rcases List.mem_append.mp hr with hr | hr
    · exact h.since r hr
    · obtain ⟨t, -, rfl⟩ := List.mem_map.mp hr
      exact Nat.le_refl _
  · intro r hr
    rw [m.put_eq]
    rcases List.mem_append.mp hr with hr | hr
    · exact (h.pending r hr).imp_right (hkept r.2)
    · obtain ⟨t, ht, rfl⟩ := List.mem_map.mp hr
      obtain ⟨text, htext, u, hu, hanswers⟩ := hasked t ht
      obtain ⟨n, hn, v, hv, hvu⟩ := hput text htext u hu
      exact .inr ⟨n, hn, v, hv, hvu.trans hanswers⟩
  · exact h.once

theorem Inv.pop {viewIdOf : Bytes → Option Bytes} {s : TileRequests} (h : s.Inv) :
    (s.act viewIdOf .pop).Inv := by
  rw [act]
  split
  · exact h
  · rename_i hne
    obtain ⟨m, c, hpops⟩ := exists_pops h.ordered hne
    rw [hpops.message, Option.toList_some]
    constructor
    · exact hpops.ordered h.ordered
    · intro r hr
      dsimp only
      rw [List.length_append]
      exact (h.since r hr).trans (Nat.le_add_right _ _)
    · intro r hr
      rcases h.pending r hr with hanswered | ⟨text, htext, t, ht, hanswers⟩
      · exact .inl (hanswered.append [m])
      · rcases hpops.answered text htext with hleft | hgiven
        · exact .inr ⟨text, hleft, t, ht, hanswers⟩
        · obtain ⟨a, ha, hat⟩ := hgiven t ht
          refine .inl ⟨m, ?_, c, hpops.read, a, ha, hat.trans hanswers⟩
          dsimp only
          rw [List.drop_append_of_le_length (h.since r hr)]
          exact List.mem_append_right _ (List.mem_singleton_self m)
    · intro n hn
      rcases List.mem_append.mp hn with hn | hn
      · exact h.once n hn
      · rw [List.mem_singleton.mp hn]
        exact ⟨c, hpops.read, hpops.once⟩

theorem Inv.act {viewIdOf : Bytes → Option Bytes} {s : TileRequests} {a : Action} (h : s.Inv)
    (hok : s.Harmless a) : (s.act viewIdOf a).Inv := by
  cases a with
  | put m => exact h.put hok
  | pop => exact h.pop
  | updateCursorPosition viewId cursorPosition => exact ⟨h.ordered, h.since, h.pending, h.once⟩
  | removeCursorPosition viewId => exact ⟨h.ordered, h.since, h.pending, h.once⟩

/-- **No request for a tile is lost** in a run in which every text that is put answers the request it
takes the place of, and no queued request for the same tile asks for less. -/
theorem nothingLost_of_harmless (viewIdOf : Bytes → Option Bytes) (as : List Action)
    (h : Run.Meets (act viewIdOf) Harmless init as) : Run.Always (act viewIdOf) NothingLost init as :=
  Run.always_of_meets (fun _ => Inv.nothingLost) (fun _ _ hinv hok => hinv.act hok) inv_init h

/-! Three tiles of one row are asked for one after another, and the second of them again in a newer version.
That request takes the place of the first one for it, and one message hands out all three. -/

def tileAt (tilePosX : Nat) (ver : Int) (oldWireId : UInt32) : TileDesc :=
  { normalizedViewId := 0
    part := 0
    mode := 0
    width := 256
    height := 256
    tilePosX := tilePosX
    tilePosY := 0
    tileWidth := 3840
    tileHeight := 3840
    ver := ver
    imgSize := 0
    id := -1
    oldWireId := oldWireId
    wireId := 0
    width_pos := by decide
    height_pos := by decide
    tileWidth_pos := by decide
    tileHeight_pos := by decide }

/-- The text of a tile is not taken for typing. -/
theorem standsAlone_serialize (queue : List Bytes) (t : TileDesc) :
    StandsAlone queue (t.serialize (ascii "tile")) := by
  have hsecond : t.tokensOf[1]? = some (pair (ascii "nviewid") (decimal t.normalizedViewId)) := rfl
  have hhead : (pair (ascii "nviewid") (decimal t.normalizedViewId)).head? = some 110 := rfl
  unfold StandsAlone
  rw [TileDesc.tokenize_serialize]
  dsimp only
  rw [hsecond]
  refine ⟨fun h => ?_, fun h => ?_⟩
  · rw [Option.some.inj h] at hhead
    exact absurd hhead (by decide)
  · rw [Option.some.inj h] at hhead
    exact absurd hhead (by decide)

/-- A request for one tile. -/
def tileMessage {t : TileDesc} (hfits : t.Fits) (hread : readTile (t.serialize (ascii "tile")) = some t) :
    TileMessage where
  text := t.serialize (ascii "tile")
  combined := .single t
  word := .inl (isItem_serialize hfits).word
  read := (isItem_serialize hfits).readBatch hread

theorem texts_tileMessage {t : TileDesc} (hfits : t.Fits)
    (hread : readTile (t.serialize (ascii "tile")) = some t) :
    (tileMessage hfits hread).texts = [t.serialize (ascii "tile")] := by
  have hword : getFirstToken (tileMessage hfits hread).text = ascii "tile" := (isItem_serialize hfits).word
  rw [TileMessage.texts, hword, if_neg (by decide)]
  rfl

def tileText (tilePosX : Nat) (ver : Int) (oldWireId : UInt32) : Bytes :=
  (tileAt tilePosX ver oldWireId).serialize (ascii "tile")

theorem readTile_tileText : readTile (tileText 0 1 0) = some (tileAt 0 1 0) ∧
    readTile (tileText 3840 1 0) = some (tileAt 3840 1 0) ∧ readTile (tileText 3840 2 0) = some (tileAt 3840 2 0) ∧
    readTile (tileText 7680 3 5) = some (tileAt 7680 3 5) := by
  simp only [readTile, tileText, TileDesc.tokenize_serialize]
  decide +kernel

theorem fits_tileAt {tilePosX : Nat} {ver : Int} (oldWireId : UInt32) (hpos : tilePosX < intMax)
    (hver : -2 ^ 31 ≤ ver ∧ ver < intMax) : (tileAt tilePosX ver oldWireId).Fits := by
  have hzero : 0 < intMax := by decide
  have hpixels : 256 < intMax := by decide
  have htwips : 3840 < intMax := by decide
  exact ⟨hzero, hzero, hzero, hpixels, hpixels, hpos, hzero, htwips, htwips, hver, (by decide : (-1 : Int) < intMax)⟩

/-- A request for the tile, of a version and with what the client has of it. -/
def ask (tilePosX : Nat) (ver : Int) (oldWireId : UInt32) (hpos : tilePosX < intMax)
    (hver : -2 ^ 31 ≤ ver ∧ ver < intMax)
    (hread : readTile (tileText tilePosX ver oldWireId) = some (tileAt tilePosX ver oldWireId)) : Action :=
  .put (tileMessage (fits_tileAt oldWireId hpos hver) hread)

def askTwice : List Action :=
  [ask 0 1 0 (by decide) (by decide) readTile_tileText.1,
    ask 3840 1 0 (by decide) (by decide) readTile_tileText.2.1,
    ask 3840 2 0 (by decide) (by decide) readTile_tileText.2.2.1,
    ask 7680 3 5 (by decide) (by decide) readTile_tileText.2.2.2, .pop]

/-- The texts that are taken out for another, and those that are left. -/
theorem duplicates_askTwice :
    isTileDuplicate (tileText 3840 1 0) (tileText 0 1 0) = false ∧
      isTileDuplicate (tileText 3840 2 0) (tileText 0 1 0) = false ∧
      isTileDuplicate (tileText 3840 2 0) (tileText 3840 1 0) = true ∧
      isTileDuplicate (tileText 7680 3 5) (tileText 0 1 0) = false ∧
      isTileDuplicate (tileText 7680 3 5) (tileText 3840 2 0) = false := by
  decide +kernel

theorem textFits_of {queue : List Bytes} {text : Bytes} {u : TileDesc} (hread : readTile text = some u)
    (halone : StandsAlone (removeTileDuplicate text queue) text)
    (hreplaced : ∀ queued ∈ queue.find? (isTileDuplicate text), ∃ t, readTile queued = some t ∧ u.Answers t)
    (hkept : ∀ queued ∈ removeTileDuplicate text queue, ∃ t, readTile queued = some t ∧ (t.eq u = true → t.Answers u)) :
    TextFits queue text := by
  refine ⟨halone, fun queued hqueued t ht u' hu' => ?_, fun _ queued hqueued _ t ht u' hu' => ?_⟩
  · obtain ⟨t', ht', hanswers⟩ := hreplaced queued hqueued
    rw [Option.mem_def, ht'] at ht
    rw [Option.mem_def, hread] at hu'
    cases ht
    cases hu'
    exact hanswers
  · obtain ⟨t', ht', hanswers⟩ := hkept queued hqueued
    rw [Option.mem_def, ht'] at ht
    rw [Option.mem_def, hread] at hu'
    cases ht
    cases hu'
    exact hanswers


/-- A text whose tile is not on the queue is put behind the others. -/
theorem removeTileDuplicate_eq {queue : List Bytes} {text : Bytes}
    (h : ∀ queued ∈ queue, isTileDuplicate text queued = false) : removeTileDuplicate text queue = queue :=
  List.eraseP_of_forall_not fun queued hqueued => Bool.eq_false_iff.mp (h queued hqueued)

/-- Such a text can be put if the tiles of the queue are at other places. -/
theorem textFits_of_notDuplicate {queue : List Bytes} {t : TileDesc}
    (hread : readTile (t.serialize (ascii "tile")) = some t)
    (hnone : ∀ queued ∈ queue, isTileDuplicate (t.serialize (ascii "tile")) queued = false)
    (hkept : ∀ queued ∈ queue, ∃ u, readTile queued = some u ∧ (u.eq t = true → u.Answers t)) :
    TextFits queue (t.serialize (ascii "tile")) := by
  refine textFits_of hread (standsAlone_serialize _ t) ?_ ?_
  · intro queued hqueued
    have hmem := List.mem_of_find?_eq_some hqueued
    have hduplicate := List.find?_some hqueued
    rw [hnone queued hmem] at hduplicate
    cases hduplicate
  · rw [removeTileDuplicate_eq hnone]
    exact hkept

/-- The second request for the tile in the middle, which takes the place of the first. -/
theorem textFits_again : TextFits [tileText 0 1 0, tileText 3840 1 0] (tileText 3840 2 0) ∧
    removeTileDuplicate (tileText 3840 2 0) [tileText 0 1 0, tileText 3840 1 0] = [tileText 0 1 0] := by
  obtain ⟨hread, hread', hread'', -⟩ := readTile_tileText
  obtain ⟨-, hfirst, hsecond, -⟩ := duplicates_askTwice
  have hleft : removeTileDuplicate (tileText 3840 2 0) [tileText 0 1 0, tileText 3840 1 0] = [tileText 0 1 0] := by
    rw [removeTileDuplicate, List.eraseP_cons_of_neg (Bool.eq_false_iff.mp hfirst),
      List.eraseP_cons_of_pos hsecond]
  have hfind : [tileText 0 1 0, tileText 3840 1 0].find? (isTileDuplicate (tileText 3840 2 0)) =
      some (tileText 3840 1 0) := by
    rw [List.find?_cons_of_neg (Bool.eq_false_iff.mp hfirst), List.find?_cons_of_pos hsecond]
  refine ⟨textFits_of hread'' (standsAlone_serialize _ _) ?_ ?_, hleft⟩
  · rw [hfind]
    intro queued hqueued
    cases hqueued
    exact ⟨_, hread', by decide⟩
  · rw [hleft]
    exact List.forall_mem_singleton.mpr ⟨_, hread, by decide⟩

section Ask

variable {tilePosX : Nat} {ver : Int} {oldWireId : UInt32} (hpos : tilePosX < intMax)
  (hver : -2 ^ 31 ≤ ver ∧ ver < intMax)
  (hread : readTile (tileText tilePosX ver oldWireId) = some (tileAt tilePosX ver oldWireId))

theorem harmless_ask {s : TileRequests} (h : TextFits s.queue.queue (tileText tilePosX ver oldWireId)) :
    s.Harmless (ask tilePosX ver oldWireId hpos hver hread) := by
  refine ⟨List.forall_mem_singleton.mpr (fits_tileAt oldWireId hpos hver), ?_⟩
  have htexts := texts_tileMessage (fits_tileAt oldWireId hpos hver) hread
  rw [htexts]
  exact ⟨h, trivial⟩

theorem queue_ask (s : TileRequests) :
    (s.act (fun _ => none) (ask tilePosX ver oldWireId hpos hver hread)).queue.queue =
      putTile s.queue.queue (tileText tilePosX ver oldWireId) := by
  have htexts := texts_tileMessage (fits_tileAt oldWireId hpos hver) hread
  rw [ask, act, TileMessage.put_eq, htexts, List.foldl_cons, List.foldl_nil]
  dsimp only
  rw [tileText]

end Ask

theorem nothingLost_askTwice : Run.Always (act fun _ => none) NothingLost init askTwice := by
  obtain ⟨hread, hread', hread'', hread₃⟩ := readTile_tileText
  obtain ⟨hnone, -, -, hnone₃, hnone₃'⟩ := duplicates_askTwice
  have hfit : TextFits [] (tileText 0 1 0) :=
    textFits_of_notDuplicate hread (List.forall_mem_nil _) (List.forall_mem_nil _)
  have hfit' : TextFits [tileText 0 1 0] (tileText 3840 1 0) :=
    textFits_of_notDuplicate hread' (List.forall_mem_singleton.mpr hnone)
      (List.forall_mem_singleton.mpr ⟨_, hread, by decide⟩)
  obtain ⟨hfit'', hleft⟩ := textFits_again
  have hfit₃ : TextFits [tileText 0 1 0, tileText 3840 2 0] (tileText 7680 3 5) := by
    refine textFits_of_notDuplicate hread₃ ?_ ?_
    · exact List.forall_mem_cons.mpr ⟨hnone₃, List.forall_mem_singleton.mpr hnone₃'⟩
    · exact List.forall_mem_cons.mpr ⟨⟨_, hread, by decide⟩,
        List.forall_mem_singleton.mpr ⟨_, hread'', by decide⟩⟩
  -- the queue after each request
  have hqueue : putTile [] (tileText 0 1 0) = [tileText 0 1 0] := hfit.putTile_eq
  have hqueue' : putTile [tileText 0 1 0] (tileText 3840 1 0) = [tileText 0 1 0, tileText 3840 1 0] := by
    rw [hfit'.putTile_eq, removeTileDuplicate_eq (List.forall_mem_singleton.mpr hnone), List.singleton_append]
  have hqueue'' : putTile [tileText 0 1 0, tileText 3840 1 0] (tileText 3840 2 0) =
      [tileText 0 1 0, tileText 3840 2 0] := by
    rw [hfit''.putTile_eq, hleft, List.singleton_append]
  refine nothingLost_of_harmless _ _ ⟨harmless_ask _ _ _ hfit, ?_⟩
  have h₁ : (init.act (fun _ => none) (ask 0 1 0 (by decide) (by decide) hread)).queue.queue = [tileText 0 1 0] := by
    rw [queue_ask]
    exact hqueue
  generalize init.act (fun _ => none) (ask 0 1 0 (by decide) (by decide) hread) = s₁ at h₁ ⊢
  refine ⟨harmless_ask _ _ _ (h₁.symm ▸ hfit'), ?_⟩
  have h₂ : (s₁.act (fun _ => none) (ask 3840 1 0 (by decide) (by decide) hread')).queue.queue =
      [tileText 0 1 0, tileText 3840 1 0] := by
    rw [queue_ask, h₁, hqueue']
  generalize s₁.act (fun _ => none) (ask 3840 1 0 (by decide) (by decide) hread') = s₂ at h₂ ⊢
  refine ⟨harmless_ask _ _ _ (h₂.symm ▸ hfit''), ?_, trivial, trivial⟩
  have h₃ : (s₂.act (fun _ => none) (ask 3840 2 0 (by decide) (by decide) hread'')).queue.queue =
      [tileText 0 1 0, tileText 3840 2 0] := by
    rw [queue_ask, h₂, hqueue'']
  exact harmless_ask _ _ _ (h₃.symm ▸ hfit₃)

/-! ## Previews of one slide -/

/-- The request for a preview of the first slide. -/
def previewText (mode : Bytes) : Bytes :=
  ascii "tile" ++ blank :: (ascii ("nviewid=0 part=0 width=180 height=135 tileposx=0 tileposy=0 " ++
    "tilewidth=15875 tileheight=11906 ver=1 id=0") ++ mode)

def previewTile (mode : Nat) : TileDesc :=
  { normalizedViewId := 0
    part := 0
    mode := mode
    width := 180
    height := 135
    tilePosX := 0
    tilePosY := 0
    tileWidth := 15875
    tileHeight := 11906
    ver := 1
    imgSize := 0
    id := 0
    oldWireId := 0
    wireId := 0
    width_pos := by decide
    height_pos := by decide
    tileWidth_pos := by decide
    tileHeight_pos := by decide }

theorem readTile_previewText : readTile (previewText []) = some (previewTile 0) ∧
    readTile (previewText (ascii " mode=1")) = some (previewTile 1) := by
  decide +kernel

theorem isItem_previewText {mode : Bytes} {tile : TileDesc} (h : readTile (previewText mode) = some tile) :
    IsItem (previewText mode) := by
  refine ⟨?_, tile, h⟩
  rw [previewText, getFirstToken, List.takeWhile_append_of_pos (List.all_eq_true.mp (by decide)),
    List.takeWhile_cons_of_neg (by decide), List.append_nil]

def previewMessage {mode : Bytes} {tile : TileDesc} (h : readTile (previewText mode) = some tile) :
    TileMessage where
  text := previewText mode
  combined := .single tile
  word := .inl (isItem_previewText h).word
  read := (isItem_previewText h).readBatch h

/-- The preview in another mode takes the place of the first. -/
def askTwoModes : List Action :=
  [.put (previewMessage readTile_previewText.1), .put (previewMessage readTile_previewText.2), .pop]

theorem requests_pop (viewIdOf : Bytes → Option Bytes) (s : TileRequests) :
    (s.act viewIdOf .pop).requests = s.requests := by
  rw [act]
  split
  · rfl
  · rfl

theorem popped_askTwoModes :
    (askTwoModes.foldl (act fun _ => none) init).queue.queue = [] ∧
      (askTwoModes.foldl (act fun _ => none) init).popped = [previewText (ascii " mode=1")] := by
  decide +kernel

/-- The first of two previews that differ in the mode is never painted. -/
theorem not_nothingLost : ¬ ∀ (viewIdOf : Bytes → Option Bytes) (as : List Action),
    Run.Always (act viewIdOf) NothingLost init as := by
  intro h
  have hlast := (h (fun _ => none) askTwoModes).last
  have hrequest : (0, previewTile 0) ∈ (askTwoModes.foldl (act fun _ => none) init).requests := by
    rw [askTwoModes, List.foldl_cons, List.foldl_cons, List.foldl_cons, List.foldl_nil, requests_pop]
    exact List.mem_append_left _ (List.mem_append_right _ (List.mem_singleton_self _))
  obtain ⟨m, hm, c, hc, a, ha, hanswers⟩ := hlast.answered popped_askTwoModes.1 _ hrequest
  rw [popped_askTwoModes.2] at hm
  obtain rfl := List.mem_singleton.mp hm
  rw [(isItem_previewText readTile_previewText.2).readBatch readTile_previewText.2] at hc
  obtain rfl := Option.some.inj hc
  obtain rfl := List.mem_singleton.mp ha
  exact absurd hanswers.1 (by decide)

end TileRequests

end Oxool.Kit
