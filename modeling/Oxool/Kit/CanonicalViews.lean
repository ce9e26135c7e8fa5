import Oxool.Kit.Render
import Oxool.Lib.Assoc
import Oxool.Lib.Run
import Oxool.Lib.SortedMap
import Oxool.Net.Http.Response

/-!
# Canonical views (`common/Session.hpp`, `kit/Kit.cpp`)

Sessions that see the document in the same way share their tiles. What tells ways of seeing apart is
the text of the watermark and the state in which the view is rendered; each pair of them gets a number
of its own (`createCanonicalId`), and a tile is painted in the view of any session with the number
that was asked for. The server is told the number whenever that of a session changes.

The map of the numbers is never cleared, so a number stands for one pair for ever (`Ok.numbers`), and
what was painted for a number was painted in a view with that pair (`Ok.painted`).

The opacity of watermarks is the same for all sessions; `visible` tells whether it is above 0.
Callbacks of a view come between the messages. `views` and `painted` are records that the code does
not keep.
-/

set_option autoImplicit false

namespace Oxool.Kit.Views

open Oxool.Delta
open Oxool.Http (Bytes)

/-! ## The sessions of a document -/

/-- What tells views apart. -/
structure ViewProps where
  watermarkText : Bytes
  viewRenderState : Bytes
deriving DecidableEq

/-- `getViewProps`. -/
def ViewProps.text (p : ViewProps) : Bytes := p.watermarkText ++ 124 :: p.viewRenderState

/-- A session; `canonicalViewId` is `none` for -1, and `watermark` the text of `_docWatermark`. -/
structure ChildSession where
  props : ViewProps
  canonicalViewId : Option Nat
  isDocLoaded : Bool
  watermark : Option Bytes
deriving DecidableEq

def ChildSession.new : ChildSession := ⟨⟨[], []⟩, none, false, none⟩

/-- A frame with the view it was painted in. -/
structure Painted where
  props : ViewProps
  watermark : Option Bytes
  frame : Rendered

/-- What the server is told. -/
inductive Message where
  | canonicalidchange (session canonicalId : Nat)
  | tiles (frames : List Rendered)

structure Document where
  sessions : SortedMap Nat ChildSession
  canonicalIds : List (Bytes × Nat)
  renderer : State
  views : List (Nat × ViewProps)
  painted : List Painted

namespace Document

def init : Document := ⟨.empty, [], .init, [], []⟩

variable (d : Document)

def setSession (id : Nat) (s : ChildSession) : Document := { d with sessions := d.sessions.set id s }

/-- `SessionMap::createCanonicalId`. -/
def createCanonicalId (viewProps : Bytes) : Nat × Document :=
  if viewProps = [] then (0, d)
  else
    match d.canonicalIds.lookup viewProps with
    | some id => (id, d)
    | none =>
      let id := d.canonicalIds.length + 1000
      (id, { d with canonicalIds := d.canonicalIds ++ [(viewProps, id)] })

/-- `SessionMap::findByCanonicalId`. -/
def findByCanonicalId (id : Nat) : Option ChildSession :=
  (d.sessions.entries.map Prod.snd).find? fun s => s.canonicalViewId == some id

/-- `invalidateCanonicalId`. -/
def invalidateCanonicalId (sessionId : Nat) : Document × List Message :=
  match d.sessions.get? sessionId with
  | none => (d, [])
  | some session =>
    let (newCanonicalId, d) := d.createCanonicalId session.props.text
    let d := { d with views := d.views ++ [(sessionId, session.props)] }
    if some newCanonicalId = session.canonicalViewId then (d, [])
    else
      (d.setSession sessionId { session with canonicalViewId := some newCanonicalId },
        [.canonicalidchange sessionId newCanonicalId])

/-- The delta cache is told how many sessions there are. -/
def setSessionCount : Document :=
  { d with renderer := { d.renderer with
      deltaGen := d.renderer.deltaGen.setSessionCount d.sessions.entries.length } }

/-- `createSession`. -/
def createSession (sessionId : Nat) : Document :=
  match d.sessions.get? sessionId with
  | some _ => d
  | none => (d.setSession sessionId .new).setSessionCount

/-- `load` of a session: the text is added to what is there already, since the decoder appends.
`viewed` tells whether the view was made, `finished` whether all that comes after it went well. -/
def load (visible : Bool) (sessionId : Nat) (watermarkText : Bytes) (viewed finished : Bool) :
    Document × List Message :=
  match d.sessions.get? sessionId with
  | none => (d, [])
  | some session =>
    if session.isDocLoaded then (d, [])
    else
      let text := session.props.watermarkText ++ watermarkText
      let session := { session with props := { session.props with watermarkText := text } }
      if viewed then
        -- `initWatermark`
        let session :=
          if visible && !text.isEmpty then { session with watermark := some text } else session
        (d.setSession sessionId { session with isDocLoaded := finished }).invalidateCanonicalId
          sessionId
      else (d.setSession sessionId session, [])

/-- The callback with the new state of a view, for the session that has the view. -/
def viewRenderState (sessionId : Nat) (payload : Bytes) : Document × List Message :=
  match d.sessions.get? sessionId with
  | none => (d, [])
  | some session =>
    if session.canonicalViewId = none then (d, [])
    else
      (d.setSession sessionId
        { session with props := { session.props with viewRenderState := payload } }).invalidateCanonicalId
        sessionId

/-- The sessions less some. -/
def removeSessions (closed : List Nat) : Document :=
  { d with sessions := closed.foldl (fun sessions id => sessions.erase id) d.sessions }

/-- `disconnect`, in `forwardToChild`. -/
def disconnect (sessionId : Nat) : Document := (d.removeSessions [sessionId]).setSessionCount

/-- `purgeSessions`, with the sessions that it finds closed. -/
def purgeSessions (closed : List Nat) : Document := d.removeSessions closed

section Render

variable (hasAVX2 : Bool) (compress : List UInt8 → Option (List UInt8))
  (writePng : Nat → Nat → List UInt8 → List UInt8) (mode : TileMode)

/-- `renderTiles`: the frames of a request are sent in one message, unless there are none. -/
def renderTiles (r : Render) : Document × List Message :=
  match d.findByCanonicalId r.combined.params.normalizedViewId with
  | none => (d, [])
  | some session =>
    let renderer := doRender hasAVX2 compress writePng mode r
      (session.canonicalViewId.getD 0) d.renderer
    let frames := renderer.rendered.drop d.renderer.rendered.length
    ({ d with
        renderer := renderer
        painted := d.painted ++ frames.map fun f => ⟨session.props, session.watermark, f⟩ },
      if frames = [] then [] else [.tiles frames])

end Render

end Document

inductive Action where
  | createSession (sessionId : Nat)
  | load (sessionId : Nat) (watermarkText : Bytes) (viewed finished : Bool)
  | viewRenderState (sessionId : Nat) (payload : Bytes)
  | disconnect (sessionId : Nat)
  | purgeSessions (closed : List Nat)
  | renderTiles (r : Render)

section Act

variable (visible hasAVX2 : Bool) (compress : List UInt8 → Option (List UInt8))
  (writePng : Nat → Nat → List UInt8 → List UInt8) (mode : TileMode)

/-- What an action makes of the document, and what it tells the server. -/
def act (d : Document) : Action → Document × List Message
  | .createSession id => (d.createSession id, [])
  | .load id watermarkText viewed finished => d.load visible id watermarkText viewed finished
  | .viewRenderState id payload => d.viewRenderState id payload
  | .disconnect id => (d.disconnect id, [])
  | .purgeSessions closed => (d.purgeSessions closed, [])
  | .renderTiles r => d.renderTiles hasAVX2 compress writePng mode r

end Act

/-! ## What the numbers stand for -/

/-- The watermark of a view with a text. -/
def watermarkOf (visible : Bool) (text : Bytes) : Option Bytes :=
  if visible && !text.isEmpty then some text else none

/-- A state has no separator in it, and a session whose view was made is not loaded again, unless it
is told that it is loaded already. -/
def Proper (d : Document) : Action → Prop
  | .load id _ _ _ => ∀ s ∈ d.sessions.get? id, s.isDocLoaded = false → s.canonicalViewId = none
  | .viewRenderState _ payload => 124 ∉ payload
  | _ => True

instance (d : Document) (a : Action) : Decidable (Proper d a) :=
  match a with
  | .load id _ _ _ => inferInstanceAs (Decidable (∀ s ∈ d.sessions.get? id, _))
  | .viewRenderState _ _ => inferInstanceAs (Decidable (_ ∉ _))
  | .createSession _ => .isTrue trivial
  | .disconnect _ => .isTrue trivial
  | .purgeSessions _ => .isTrue trivial
  | .renderTiles _ => .isTrue trivial

/-- The number stands for the pair. -/
def Document.Names (d : Document) (c : Nat) (p : ViewProps) : Prop :=
  d.canonicalIds.lookup p.text = some c

/-- Pairs are told apart by their texts, since a state has no separator in it. -/
theorem ViewProps.eq_of_text {p q : ViewProps} (hp : 124 ∉ p.viewRenderState)
    (hq : 124 ∉ q.viewRenderState) (h : p.text = q.text) : p = q := by
  have hstate : ∀ r : ViewProps, 124 ∉ r.viewRenderState →
      r.text.reverse.takeWhile (· != 124) = r.viewRenderState.reverse := by
    intro r hr
    rw [ViewProps.text, List.reverse_append, List.reverse_cons, List.append_assoc,
      List.takeWhile_append_of_pos]
    · simp
    · intro b hb
      have hmem : b ∈ r.viewRenderState := List.mem_reverse.mp hb
      simp only [bne_iff_ne, ne_eq]
      intro heq
      exact hr (heq ▸ hmem)
  have hstates : p.viewRenderState = q.viewRenderState := by
    have heq := hstate p hp
    rw [h, hstate q hq] at heq
    exact (List.reverse_injective heq).symm
  rw [ViewProps.text, ViewProps.text, hstates] at h
  have htexts : p.watermarkText = q.watermarkText := List.append_cancel_right h
  cases p
  cases q
  simp_all

/-- What holds of a session with a view. -/
structure ChildSession.Ok (d : Document) (visible : Bool) (id : Nat) (s : ChildSession) : Prop where
  plain : 124 ∉ s.props.viewRenderState
  unseen : s.canonicalViewId = none → s.watermark = none
  seen : ∀ c, s.canonicalViewId = some c →
    d.Names c s.props ∧ (id, s.props) ∈ d.views ∧ s.watermark = watermarkOf visible s.props.watermarkText

/-- The numbers are given out one after the other, each to a text of its own. -/
structure Numbered (canonicalIds : List (Bytes × Nat)) : Prop where
  numbers : canonicalIds.map Prod.snd = (List.range canonicalIds.length).map (· + 1000)
  texts : (canonicalIds.map Prod.fst).Nodup

/-- What is always so of the records: what was painted for a number was painted in a view of the pair
that it stands for. -/
structure Recorded (visible : Bool) (d : Document) : Prop where
  numbered : Numbered d.canonicalIds
  views : ∀ v ∈ d.views, 124 ∉ v.2.viewRenderState
  painted : ∀ p ∈ d.painted, 124 ∉ p.props.viewRenderState ∧
    d.Names p.frame.desc.normalizedViewId p.props ∧
    p.watermark = watermarkOf visible p.props.watermarkText

structure Ok (visible : Bool) (d : Document) : Prop extends Recorded visible d where
  sessions : ∀ id s, (id, s) ∈ d.sessions.entries → s.Ok d visible id

/-- Nothing is forgotten from one document to the next. -/
structure Grows (d d' : Document) : Prop where
  names : ∀ c p, d.Names c p → d'.Names c p
  views : ∀ v ∈ d.views, v ∈ d'.views
  painted : ∀ p ∈ d.painted, p ∈ d'.painted

/-- What a message says is so. -/
def Message.Sound (d : Document) : Message → Prop
  | .canonicalidchange session canonicalId =>
    ∃ p, (session, p) ∈ d.views ∧ d.Names canonicalId p
  | .tiles frames => ∀ f ∈ frames, ∃ p ∈ d.painted, p.frame = f

/-- What every action does. -/
structure Does (visible : Bool) (d : Document) (r : Document × List Message) : Prop where
  ok : Ok visible r.1
  grows : Grows d r.1
  sound : ∀ m ∈ r.2, m.Sound r.1

variable {visible : Bool} {d d' d'' : Document}

theorem Grows.refl (d : Document) : Grows d d := ⟨fun _ _ h => h, fun _ h => h, fun _ h => h⟩

theorem Grows.trans (h : Grows d d') (h' : Grows d' d'') : Grows d d'' where
  names c p hp := h'.names c p (h.names c p hp)
  views v hv := h'.views v (h.views v hv)
  painted p hp := h'.painted p (h.painted p hp)

theorem Message.Sound.mono (h : Grows d d') {m : Message} (hm : m.Sound d) : m.Sound d' := by
  cases m with
  | canonicalidchange session canonicalId =>
    obtain ⟨p, hp, hnames⟩ := hm
    exact ⟨p, h.views _ hp, h.names _ _ hnames⟩
  | tiles frames =>
    intro f hf
    obtain ⟨p, hp, hframe⟩ := hm f hf
    exact ⟨p, h.painted p hp, hframe⟩

theorem ChildSession.Ok.mono (h : Grows d d') {id : Nat} {s : ChildSession} (hs : s.Ok d visible id) :
    s.Ok d' visible id where
  plain := hs.plain
  unseen := hs.unseen
  seen c hc := by
    obtain ⟨hnames, hview, hmark⟩ := hs.seen c hc
    exact ⟨h.names _ _ hnames, h.views _ hview, hmark⟩

theorem does_of_ok (h : Ok visible d') (hgrows : Grows d d') : Does visible d (d', []) :=
  ⟨h, hgrows, fun _ hm => by simp at hm⟩

/-- The delta cache is not looked at. -/
theorem Does.setSessionCount (h : Does visible d (d', [])) : Does visible d (d'.setSessionCount, []) where
  ok :=
    { numbered := h.ok.numbered
      views := h.ok.views
      painted := h.ok.painted
      sessions := fun id s hmem =>
        have hs := h.ok.sessions id s hmem
        ⟨hs.plain, hs.unseen, hs.seen⟩ }
  grows := ⟨h.grows.names, h.grows.views, h.grows.painted⟩
  sound := fun _ hm => by simp at hm

theorem Does.nothing (h : Ok visible d) : Does visible d (d, []) :=
  does_of_ok h (.refl d)

/-! ### Numbers -/

theorem Numbered.number_unique {ids : List (Bytes × Nat)} (h : Numbered ids) {t u : Bytes} {c : Nat}
    (ht : ids.lookup t = some c) (hu : ids.lookup u = some c) : t = u := by
  have hnodup : (ids.map Prod.snd).Nodup := by
    rw [h.numbers]
    exact List.nodup_range.map fun m n hmn => Nat.add_right_cancel hmn
  have heq : (t, c) = (u, c) :=
    List.inj_on_of_nodup_map hnodup (Assoc.mem_of_lookup ht) (Assoc.mem_of_lookup hu) rfl
  exact congrArg Prod.fst heq

/-- A number stands for one pair. -/
theorem names_unique (h : Numbered d.canonicalIds) {c : Nat} {p q : ViewProps}
    (hp : d.Names c p) (hq : d.Names c q) (hplain : 124 ∉ p.viewRenderState)
    (hplain' : 124 ∉ q.viewRenderState) : p = q :=
  ViewProps.eq_of_text hplain hplain' (h.number_unique hp hq)

theorem Numbered.le {ids : List (Bytes × Nat)} (h : Numbered ids) {t : Bytes} {c : Nat}
    (ht : ids.lookup t = some c) : 1000 ≤ c := by
  have hmem : c ∈ ids.map Prod.snd := List.mem_map_of_mem (Assoc.mem_of_lookup ht)
  rw [h.numbers] at hmem
  obtain ⟨i, -, rfl⟩ := List.mem_map.mp hmem
  exact Nat.le_add_left 1000 i

theorem ViewProps.text_ne (p : ViewProps) : p.text ≠ [] := by simp [ViewProps.text]

/-- What `createCanonicalId` does: the text has a number, and those that had one keep it. -/
theorem createCanonicalId_spec (h : Numbered d.canonicalIds) {t : Bytes} (ht : t ≠ []) :
    ∃ c ids, d.createCanonicalId t = (c, { d with canonicalIds := ids }) ∧ Numbered ids ∧
      ids.lookup t = some c ∧ ∀ u n, d.canonicalIds.lookup u = some n → ids.lookup u = some n := by
  rw [Document.createCanonicalId, if_neg ht]
  cases hlookup : d.canonicalIds.lookup t with
  | some c => exact ⟨c, d.canonicalIds, rfl, h, hlookup, fun _ _ hu => hu⟩
  | none =>
    have hfresh : t ∉ d.canonicalIds.map Prod.fst := Assoc.lookup_eq_none.mp hlookup
    have htexts : ((d.canonicalIds ++ [(t, d.canonicalIds.length + 1000)]).map Prod.fst).Nodup := by
      rw [List.map_append, List.nodup_append]
      exact ⟨h.texts, by simp, fun a ha b hb hab => hfresh (by simp_all)⟩
    refine ⟨_, _, rfl, ⟨?_, htexts⟩, ?_, ?_⟩
    · rw [List.map_append, h.numbers, List.length_append, List.length_singleton, List.range_succ,
        List.map_append]
      rfl
    · exact Assoc.lookup_of_mem htexts (by simp)
    · intro u n hu
      exact Assoc.lookup_of_mem htexts (List.mem_append_left _ (Assoc.mem_of_lookup hu))

/-! ### Sessions -/

theorem mem_of_get? {id : Nat} {s : ChildSession} (h : d.sessions.get? id = some s) :
    (id, s) ∈ d.sessions.entries := Assoc.mem_of_lookup h

theorem get?_setSession (d : Document) (id : Nat) (s : ChildSession) :
    (d.setSession id s).sessions.get? id = some s :=
  Assoc.lookup_of_mem (SortedMap.nodup_keys _) (SortedMap.mem_set.mpr (.inl ⟨rfl, rfl⟩))

theorem grows_setSession (d : Document) (id : Nat) (s : ChildSession) : Grows d (d.setSession id s) :=
  ⟨fun _ _ h => h, fun _ h => h, fun _ h => h⟩

theorem Ok.setSession (h : Recorded visible d) {id : Nat} {s : ChildSession} (hs : s.Ok d visible id)
    (hothers : ∀ id' s', (id', s') ∈ d.sessions.entries → id' ≠ id → s'.Ok d visible id') :
    Ok visible (d.setSession id s) where
  toRecorded := ⟨h.numbered, h.views, h.painted⟩
  sessions id' s' hmem := by
    rcases SortedMap.mem_set.mp hmem with ⟨rfl, rfl⟩ | ⟨hne, hmem⟩
    · exact ⟨hs.plain, hs.unseen, hs.seen⟩
    · have hs' := hothers id' s' hmem hne
      exact ⟨hs'.plain, hs'.unseen, hs'.seen⟩

/-- **`invalidateCanonicalId`** makes good a session whose pair has changed. -/
theorem does_invalidateCanonicalId (h : Recorded visible d) {id : Nat} {s : ChildSession}
    (hs : d.sessions.get? id = some s) (hplain : 124 ∉ s.props.viewRenderState)
    (hmark : s.watermark = watermarkOf visible s.props.watermarkText)
    (hothers : ∀ id' s', (id', s') ∈ d.sessions.entries → id' ≠ id → s'.Ok d visible id') :
    Does visible d (d.invalidateCanonicalId id) := by
  obtain ⟨c, ids, hcreate, hnumbered, hnew, hkept⟩ :=
    createCanonicalId_spec h.numbered s.props.text_ne
  set e : Document := { d with
    canonicalIds := ids
    views := d.views ++ [(id, s.props)] } with he
  have hgrows : Grows d e :=
    ⟨fun c p => hkept p.text c, fun v hv => List.mem_append_left _ hv, fun p hp => hp⟩
  have hnames : e.Names c s.props := hnew
  have hview : (id, s.props) ∈ e.views := List.mem_append_right _ (List.mem_singleton_self _)
  have hrecorded : Recorded visible e := by
    refine ⟨hnumbered, fun v hv => ?_, fun p hp => ?_⟩
    · rcases List.mem_append.mp hv with hv | hv
      · exact h.views v hv
      · rw [List.mem_singleton.mp hv]
        exact hplain
    · obtain ⟨hstate, hpainted, hwatermark⟩ := h.painted p hp
      exact ⟨hstate, hgrows.names _ _ hpainted, hwatermark⟩
  have hothers' : ∀ id' s', (id', s') ∈ e.sessions.entries → id' ≠ id → s'.Ok e visible id' :=
    fun id' s' hmem hne => (hothers id' s' hmem hne).mono hgrows
  simp only [Document.invalidateCanonicalId, hs, hcreate, ← he]
  split
  · rename_i hsame
    -- the session has the number already
    refine ⟨⟨hrecorded, fun id' s' hmem => ?_⟩, hgrows, fun m hm => by simp at hm⟩
    by_cases hid : id' = id
    · subst hid
      obtain rfl : s' = s := SortedMap.value_unique hmem (mem_of_get? hs)
      refine ⟨hplain, fun hnone => by simp [hnone] at hsame, fun c' hc' => ?_⟩
      obtain rfl : c = c' := by simpa [hc'] using hsame
      exact ⟨hnames, hview, hmark⟩
    · exact hothers' id' s' hmem hid
  · refine ⟨.setSession hrecorded ⟨hplain, by simp, ?_⟩ hothers', ?_, ?_⟩
    · intro c' hc'
      obtain rfl : c = c' := by simpa using hc'
      exact ⟨hnames, hview, hmark⟩
    · exact ⟨hgrows.names, hgrows.views, hgrows.painted⟩
    · intro m hm
      rw [List.mem_singleton.mp hm]
      exact ⟨s.props, hview, hnames⟩

/-- A session that is set and made good. -/
theorem does_setSession (h : Ok visible d) {id : Nat} {s : ChildSession}
    (hplain : 124 ∉ s.props.viewRenderState)
    (hmark : s.watermark = watermarkOf visible s.props.watermarkText) :
    Does visible d ((d.setSession id s).invalidateCanonicalId id) := by
  have hothers : ∀ id' s', (id', s') ∈ (d.setSession id s).sessions.entries → id' ≠ id →
      s'.Ok (d.setSession id s) visible id' := by
    intro id' s' hmem hne
    rcases SortedMap.mem_set.mp hmem with ⟨rfl, -⟩ | ⟨-, hmem⟩
    · exact absurd rfl hne
    · have hs' := h.sessions id' s' hmem
      exact ⟨hs'.plain, hs'.unseen, hs'.seen⟩
  have hdoes := does_invalidateCanonicalId (d := d.setSession id s) ⟨h.numbered, h.views, h.painted⟩
    (get?_setSession d id s) hplain hmark hothers
  exact ⟨hdoes.ok, ⟨hdoes.grows.names, hdoes.grows.views, hdoes.grows.painted⟩, hdoes.sound⟩

theorem does_createSession (h : Ok visible d) (id : Nat) :
    Does visible d (d.createSession id, []) := by
  rw [Document.createSession]
  split
  · exact .nothing h
  · have hnew : ChildSession.new.Ok d visible id :=
      ⟨by simp [ChildSession.new], fun _ => rfl, fun c hc => by simp [ChildSession.new] at hc⟩
    exact (does_of_ok (.setSession h.toRecorded hnew fun id' s' hmem _ => h.sessions id' s' hmem)
      (grows_setSession d id _)).setSessionCount

theorem does_load (h : Ok visible d) {id : Nat} {text : Bytes} {viewed finished : Bool}
    (hproper : Proper d (.load id text viewed finished)) :
    Does visible d (d.load visible id text viewed finished) := by
  rw [Document.load]
  cases hget : d.sessions.get? id with
  | none => exact .nothing h
  | some s =>
    have hs := h.sessions id s (mem_of_get? hget)
    cases hloaded : s.isDocLoaded with
    | true =>
      simp only [hloaded, if_true]
      exact .nothing h
    | false =>
      have hunseen : s.canonicalViewId = none := hproper s hget hloaded
      simp only [hloaded, Bool.false_eq_true, if_false]
      cases viewed with
      | true =>
        have hmark := hs.unseen hunseen
        refine does_setSession h ?_ ?_
        · dsimp only
          split <;> exact hs.plain
        · dsimp only
          split
          · rename_i hvisible
            simp [watermarkOf, hvisible]
          · rename_i hvisible
            simp [watermarkOf, hvisible, hmark]
      | false =>
        simp only [Bool.false_eq_true, if_false]
        refine does_of_ok (.setSession h.toRecorded ⟨hs.plain, hs.unseen, fun c hc => ?_⟩
          fun id' s' hmem _ => h.sessions id' s' hmem) (grows_setSession d id _)
        rw [hunseen] at hc
        cases hc

theorem does_viewRenderState (h : Ok visible d) {id : Nat} {payload : Bytes} (hplain : 124 ∉ payload) :
    Does visible d (d.viewRenderState id payload) := by
  rw [Document.viewRenderState]
  cases hget : d.sessions.get? id with
  | none => exact .nothing h
  | some s =>
    have hs := h.sessions id s (mem_of_get? hget)
    dsimp only
    split
    · exact .nothing h
    · rename_i hseen
      obtain ⟨c, hc⟩ := Option.ne_none_iff_exists'.mp hseen
      exact does_setSession h hplain (hs.seen c hc).2.2

theorem mem_foldl_erase {closed : List Nat} {m : SortedMap Nat ChildSession} {e : Nat × ChildSession}
    (h : e ∈ (closed.foldl (fun sessions id => sessions.erase id) m).entries) : e ∈ m.entries := by
  induction closed generalizing m with
  | nil => exact h
  | cons id closed ih => exact (SortedMap.mem_erase.mp (ih h)).2

theorem does_removeSessions (h : Ok visible d) (closed : List Nat) :
    Does visible d (d.removeSessions closed, []) := by
  refine does_of_ok ⟨⟨h.numbered, h.views, h.painted⟩, fun id s hmem => ?_⟩
    ⟨fun _ _ hn => hn, fun _ hv => hv, fun _ hp => hp⟩
  have hs := h.sessions id s (mem_foldl_erase hmem)
  exact ⟨hs.plain, hs.unseen, hs.seen⟩

/-! ### Frames -/

section Frames

variable (hasAVX2 : Bool) (compress : List UInt8 → Option (List UInt8))
  (writePng : Nat → Nat → List UInt8 → List UInt8) (mode : TileMode)

/-- The frames of a request are for its view. -/
theorem rendered_doRender (r : Render) (c : Nat) (s : State) :
    ∃ frames, (doRender hasAVX2 compress writePng mode r c s).rendered = s.rendered ++ frames ∧
      ∀ f ∈ frames, f.desc.normalizedViewId = r.combined.params.normalizedViewId := by
  have hfold : ∀ (order : List (Fin r.combined.tiles.length)) (s' : State),
      ∃ frames, (order.foldl (fun s' i => encodeTile hasAVX2 compress writePng mode (r.tile i)
          (r.window i) c (s.nextId + UInt32.ofNat (i + 1)) s') s').rendered = s'.rendered ++ frames ∧
        ∀ f ∈ frames, f.desc.normalizedViewId = r.combined.params.normalizedViewId := by
    intro order
    induction order with
    | nil => exact fun s' => ⟨[], by simp, by simp⟩
    | cons i order ih =>
      intro s'
      obtain ⟨frames, hframes, hview⟩ := ih (encodeTile hasAVX2 compress writePng mode (r.tile i)
        (r.window i) c (s.nextId + UInt32.ofNat (i + 1)) s')
      rw [List.foldl_cons, hframes]
      refine ⟨_ :: frames, by rw [encodeTile, List.append_assoc]; rfl, ?_⟩
      intro f hf
      rcases List.mem_cons.mp hf with rfl | hf
      · exact congrArg CombineParams.normalizedViewId (r.tile_params i)
      · exact hview f hf
  rw [doRender]
  split
  · exact ⟨[], by simp, by simp⟩
  · exact hfold r.order s

/-- The numbers of the sessions that have one. -/
def Document.canonicalViewIds (d : Document) : List Nat :=
  d.sessions.entries.filterMap fun e => e.2.canonicalViewId

theorem find?_canonicalViewIds (d : Document) (v : Nat) :
    d.canonicalViewIds.find? (· = v) = (d.findByCanonicalId v).map fun _ => v := by
  rw [Document.canonicalViewIds, Document.findByCanonicalId]
  induction d.sessions.entries with
  | nil => rfl
  | cons e entries ih =>
    rw [List.map_cons, List.find?_cons, List.filterMap_cons]
    cases hid : e.2.canonicalViewId with
    | none => exact ih
    | some c =>
      by_cases hc : c = v
      · simp [hc]
      · have hne : (some c == some v) = false := by simp [hc]
        rw [List.find?_cons_of_neg (by simpa using hc), hne]
        exact ih

/-- The renderer goes the way of the kit that is told which numbers its sessions have. -/
theorem renderer_renderTiles (d : Document) (r : Render) :
    (d.renderTiles hasAVX2 compress writePng mode r).1.renderer =
      Kit.renderTiles hasAVX2 compress writePng mode { r with sessions := d.canonicalViewIds }
        d.renderer := by
  rw [Document.renderTiles, Kit.renderTiles, find?_canonicalViewIds]
  cases hfind : d.findByCanonicalId r.combined.params.normalizedViewId with
  | none => rfl
  | some s =>
    have hid : s.canonicalViewId = some r.combined.params.normalizedViewId := by
      simpa using List.find?_some hfind
    simp only [hid, Option.map_some, Option.getD_some]
    rfl

theorem does_renderTiles (h : Ok visible d) (r : Render) :
    Does visible d (d.renderTiles hasAVX2 compress writePng mode r) := by
  rw [Document.renderTiles]
  cases hfind : d.findByCanonicalId r.combined.params.normalizedViewId with
  | none => exact .nothing h
  | some s =>
    obtain ⟨⟨id, s'⟩, hmem, rfl⟩ := List.mem_map.mp (List.mem_of_find?_eq_some hfind)
    have hs := h.sessions id _ hmem
    have hid : s'.canonicalViewId = some r.combined.params.normalizedViewId := by
      simpa using List.find?_some hfind
    obtain ⟨hnames, -, hmark⟩ := hs.seen _ hid
    obtain ⟨frames, hframes, hview⟩ := rendered_doRender hasAVX2 compress writePng mode r
      (s'.canonicalViewId.getD 0) d.renderer
    have hdrop : (doRender hasAVX2 compress writePng mode r (s'.canonicalViewId.getD 0)
        d.renderer).rendered.drop d.renderer.rendered.length = frames := by
      rw [hframes, List.drop_left]
    dsimp only
    rw [hdrop]
    refine ⟨⟨⟨h.numbered, h.views, fun p hp => ?_⟩, fun id' s'' hmem' => ?_⟩,
      ⟨fun _ _ hn => hn, fun _ hv => hv, fun p hp => List.mem_append_left _ hp⟩, fun m hm => ?_⟩
    · rcases List.mem_append.mp hp with hp | hp
      · exact h.painted p hp
      · obtain ⟨f, hf, rfl⟩ := List.mem_map.mp hp
        exact ⟨hs.plain, by rw [hview f hf]; exact hnames, hmark⟩
    · have hs'' := h.sessions id' s'' hmem'
      exact ⟨hs''.plain, hs''.unseen, hs''.seen⟩
    · by_cases hnil : frames = []
      · simp [hnil] at hm
      · rw [if_neg hnil, List.mem_singleton] at hm
        subst hm
        intro f hf
        exact ⟨_, List.mem_append_right _ (List.mem_map_of_mem hf), rfl⟩

theorem does_act (h : Ok visible d) {a : Action} (ha : Proper d a) :
    Does visible d (act visible hasAVX2 compress writePng mode d a) := by
  cases a with
  | createSession id => exact does_createSession h id
  | load id text viewed finished => exact does_load h ha
  | viewRenderState id payload => exact does_viewRenderState h ha
  | disconnect id => exact (does_removeSessions h [id]).setSessionCount
  | purgeSessions closed => exact does_removeSessions h closed
  | renderTiles r => exact does_renderTiles hasAVX2 compress writePng mode h r

end Frames

theorem ok_init (visible : Bool) : Ok visible .init where
  numbered := ⟨rfl, List.nodup_nil⟩
  views := by simp [Document.init]
  painted := by simp [Document.init]
  sessions := by simp [Document.init, SortedMap.empty]

end Oxool.Kit.Views
