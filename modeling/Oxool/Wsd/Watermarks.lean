import Oxool.Kit.CanonicalViews
import Oxool.Kit.Chain
import Oxool.Wsd.OwnViews
import Oxool.Wsd.TileBatching

/-!
# Watermarks, from the kit to the clients

The kit tells the server which number the view of a session has, the server asks the kit for tiles
by that number and keeps them under it, and sends a session what it keeps under the session's number.
Messages from the kit come in order, but when they come is open, and so is in which order and how
often the kit paints what it was asked for: a number that has changed is used for a while on either
side after the other has given it up. Still a session is never sent a picture that was painted for
another watermark than one of its own.
-/

set_option autoImplicit false

namespace Oxool.Wsd.Tiles.Watermarks

open Oxool.Delta (TileMode)
open Oxool.Http (Bytes)
open Oxool.Kit (Render)
open Oxool.Kit.Views (Document Message Painted watermarkOf)

/-- The kit of a document, its messages on their way, and the server's broker of the document. -/
structure World where
  kit : Document
  wire : List Message
  broker : Broker

def World.init : World := ⟨.init, [], .init⟩

inductive Action where
  | kit (a : Kit.Views.Action)
  /-- The next message of the kit arrives. -/
  | deliver
  /-- `tilecombine` of a client. -/
  | sendCombinedTiles (id : Nat) (tokens : List Bytes) (now budget : Nat)
  /-- `tile` of a client. -/
  | sendTile (id : Nat) (tile : TileDesc) (now : Nat)
  /-- Tiles that the server asks for itself after an invalidation, for the view of the session. -/
  | requestTiles (id : Nat) (tileCombined : TileCombined) (now budget : Nat)
  | sendRequestedTiles (id now budget : Nat)
  | invalidateTiles (part mode x y width height : Int) (normalizedViewId : Nat)
  | evict (victims : List CacheKey)
  | close (id : Nat)

/-- What the server does with a message. -/
def handle (b : Broker) : Message → Broker
  | .canonicalidchange id canonicalId => Tiles.act b (.setView id canonicalId)
  | .tiles frames => frames.foldl (fun b f => Tiles.act b (.response f.desc f.data)) b

section Act

variable (visible hasAVX2 : Bool) (compress : List UInt8 → Option (List UInt8))
  (writePng : Nat → Nat → List UInt8 → List UInt8) (mode : TileMode)

def act (w : World) : Action → World
  | .kit a =>
    let (kit, messages) := Kit.Views.act visible hasAVX2 compress writePng mode w.kit a
    { w with
      kit := kit
      wire := w.wire ++ messages }
  | .deliver =>
    match w.wire with
    | [] => w
    | m :: rest =>
      { w with
        wire := rest
        broker := handle w.broker m }
  | .sendCombinedTiles id tokens now budget =>
    { w with broker := w.broker.sendCombinedTiles id tokens now budget }
  | .sendTile id tile now => { w with broker := Tiles.act w.broker (.single id tile now) }
  | .requestTiles id tileCombined now budget =>
    { w with broker := Tiles.act w.broker (.combined id
        (setNormalizedViewId tileCombined (w.broker.sessions id).canonicalViewId) false now budget) }
  | .sendRequestedTiles id now budget => { w with broker := Tiles.act w.broker (.more id now budget) }
  | .invalidateTiles part mode x y width height normalizedViewId =>
    { w with broker :=
        Tiles.act w.broker (.invalidate part mode x y width height normalizedViewId) }
  | .evict victims => { w with broker := Tiles.act w.broker (.evict victims) }
  | .close id => { w with broker := Tiles.act w.broker (.close id) }

end Act

/-- What a client asks of the broker, or the server itself. -/
def World.asked (w : World) : Action → Option Tiles.Action
  | .kit _ => none
  | .deliver => none
  | .sendCombinedTiles id tokens now budget =>
    match TileCombined.parse tokens with
    | none => none
    | some tileCombined =>
      let tileCombined := setNormalizedViewId tileCombined (w.broker.sessions id).canonicalViewId
      if tileCombined.hasDuplicates then none else some (.combined id tileCombined true now budget)
  | .sendTile id tile now => some (.single id tile now)
  | .requestTiles id tileCombined now budget =>
    some (.combined id (setNormalizedViewId tileCombined (w.broker.sessions id).canonicalViewId) false now
      budget)
  | .sendRequestedTiles id now budget => some (.more id now budget)
  | .invalidateTiles part mode x y width height normalizedViewId =>
    some (.invalidate part mode x y width height normalizedViewId)
  | .evict victims => some (.evict victims)
  | .close id => some (.close id)

/-- The broker when something was asked of it. -/
def askedOf (b : Broker) (asked : Option Tiles.Action) : Broker := asked.elim b (Tiles.act b)

/-- What the kit is asked to do is proper. -/
def Proper (w : World) : Action → Prop
  | .kit a => Kit.Views.Proper w.kit a
  | _ => True

instance (w : World) (a : Action) : Decidable (Proper w a) :=
  match a with
  | .kit a => inferInstanceAs (Decidable (Kit.Views.Proper w.kit a))
  | .deliver => .isTrue trivial
  | .sendCombinedTiles .. => .isTrue trivial
  | .sendTile .. => .isTrue trivial
  | .requestTiles .. => .isTrue trivial
  | .sendRequestedTiles .. => .isTrue trivial
  | .invalidateTiles .. => .isTrue trivial
  | .evict _ => .isTrue trivial
  | .close _ => .isTrue trivial

/-- All that a session was sent are frames, less the byte in front, that were painted in a view with a
text and a state that this session had, and with the watermark of that text. -/
def Isolated (visible : Bool) (w : World) : Prop :=
  ∀ id, ∀ m ∈ (w.broker.sessions id).sent, ∃ frames : List Painted,
    m.payload = (frames.map fun p => p.frame.data.drop 1).flatten ∧
    ∀ p ∈ frames, p ∈ w.kit.painted ∧ (id, p.props) ∈ w.kit.views ∧
      p.watermark = watermarkOf visible p.props.watermarkText

/-! ## Why -/

/-- The number was told to the session, or it is the one of a session that was told nothing. -/
def Own (d : Document) (id v : Nat) : Prop := v = 0 ∨ ∃ p, (id, p) ∈ d.views ∧ d.Names v p

/-- The bytes were painted for the number. -/
def Made (d : Document) (v : Nat) (body : List UInt8) : Prop :=
  ∃ p ∈ d.painted, p.frame.desc.normalizedViewId = v ∧ p.frame.data.drop 1 = body

structure Inv (visible : Bool) (w : World) : Prop where
  kit : Kit.Views.Ok visible w.kit
  wire : ∀ m ∈ w.wire, m.Sound w.kit
  broker : w.broker.Owned (Own w.kit) (Made w.kit)

variable {visible : Bool} {w : World}

theorem inv_init (visible : Bool) : Inv visible .init where
  kit := Kit.Views.ok_init visible
  wire := by simp [World.init]
  broker :=
    { sessions := fun id => ⟨.inl rfl, by simp [World.init, Broker.init, ClientSession.new],
        fun m hm => by simp [World.init, Broker.init, ClientSession.new] at hm⟩
      waiting := by simp [World.init, Broker.init, TileCache.empty]
      kept := fun key e he => by simp [World.init, Broker.init, TileCache.empty, entry] at he }

/-- What is told of each body of a list can be told of a list. -/
theorem exists_map_eq {α β : Type} {f : α → β} {P : α → Prop} {l : List β}
    (h : ∀ b ∈ l, ∃ a, P a ∧ f a = b) : ∃ as : List α, as.map f = l ∧ ∀ a ∈ as, P a := by
  induction l with
  | nil => exact ⟨[], rfl, by simp⟩
  | cons b l ih =>
    obtain ⟨a, ha, hf⟩ := h b List.mem_cons_self
    obtain ⟨as, has, hall⟩ := ih fun b' hb' => h b' (List.mem_cons_of_mem b hb')
    refine ⟨a :: as, by rw [List.map_cons, hf, has], fun a' ha' => ?_⟩
    rcases List.mem_cons.mp ha' with rfl | ha'
    · exact ha
    · exact hall a' ha'

/-- What was painted for a number of a session was painted in a view that the session had. -/
theorem Inv.of_own (h : Inv visible w) {id v : Nat} (hown : Own w.kit id v) {p : Painted}
    (hp : p ∈ w.kit.painted) (hview : p.frame.desc.normalizedViewId = v) :
    (id, p.props) ∈ w.kit.views ∧ p.watermark = watermarkOf visible p.props.watermarkText := by
  obtain ⟨hplain, hnames, hmark⟩ := h.kit.painted p hp
  rw [hview] at hnames
  rcases hown with hzero | ⟨q, hq, hnamesq⟩
  · -- the numbers that are given out are above 0
    have hle := h.kit.numbered.le hnames
    omega
  · have hsame := Kit.Views.names_unique h.kit.numbered hnames hnamesq hplain (h.kit.views _ hq)
    exact ⟨hsame ▸ hq, hmark⟩

theorem Inv.isolated (h : Inv visible w) : Isolated visible w := by
  intro id m hm
  obtain ⟨hown, bodies, hpayload, hbodies⟩ := (h.broker.sessions id).told m hm
  have hpainted : ∀ body ∈ bodies, ∃ p : Painted, (p ∈ w.kit.painted ∧ (id, p.props) ∈ w.kit.views ∧
      p.watermark = watermarkOf visible p.props.watermarkText) ∧ p.frame.data.drop 1 = body := by
    intro body hbody
    obtain ⟨p, hp, hview, hdata⟩ := hbodies body hbody
    exact ⟨p, ⟨hp, h.of_own hown hp hview⟩, hdata⟩
  obtain ⟨frames, hframes, hall⟩ := exists_map_eq hpainted
  exact ⟨frames, by rw [hpayload, hframes], hall⟩

/-- A message of the kit that is true brings nothing foreign. -/
theorem owned_handle {d : Document} {b : Broker} (h : b.Owned (Own d) (Made d)) {m : Message}
    (hm : m.Sound d) : (handle b m).Owned (Own d) (Made d) := by
  cases m with
  | canonicalidchange id canonicalId =>
    have hdomestic : Domestic (Own d) (.setView id canonicalId) := .inr hm
    exact h.act hdomestic
  | tiles frames =>
    rw [handle]
    induction frames generalizing b with
    | nil => exact h
    | cons f frames ih =>
      rw [List.foldl_cons]
      obtain ⟨p, hp, rfl⟩ := hm f List.mem_cons_self
      have hmade : Made d p.frame.desc.normalizedViewId (p.frame.data.drop 1) := ⟨p, hp, rfl, rfl⟩
      exact ih (h.response hmade) fun f hf => hm f (List.mem_cons_of_mem _ hf)

section Act

variable (hasAVX2 : Bool) (compress : List UInt8 → Option (List UInt8))
  (writePng : Nat → Nat → List UInt8 → List UInt8) (mode : TileMode)

/-- What is neither the kit's nor a message of it is asked of the broker. -/
theorem act_asked (visible : Bool) (w : World) (a : Action) :
    (∃ kitAction, a = .kit kitAction) ∨ a = .deliver ∨
      act visible hasAVX2 compress writePng mode w a = { w with broker := askedOf w.broker (w.asked a) } := by
  cases a with
  | kit a => exact .inl ⟨a, rfl⟩
  | deliver => exact .inr (.inl rfl)
  | sendCombinedTiles id tokens now budget =>
    refine .inr (.inr ?_)
    simp only [Watermarks.act, Broker.sendCombinedTiles, World.asked]
    cases TileCombined.parse tokens with
    | none => rfl
    | some c =>
      dsimp only
      split
      · rfl
      · rfl
  | sendTile id tile now => exact .inr (.inr rfl)
  | requestTiles id tileCombined now budget => exact .inr (.inr rfl)
  | sendRequestedTiles id now budget => exact .inr (.inr rfl)
  | invalidateTiles part mode x y width height nview => exact .inr (.inr rfl)
  | evict victims => exact .inr (.inr rfl)
  | close id => exact .inr (.inr rfl)

omit hasAVX2 compress writePng mode in
/-- What is asked for is of the view of the session. -/
theorem domestic_asked {own : Nat → Nat → Prop} (hown : ∀ id, own id (w.broker.sessions id).canonicalViewId)
    {a : Action} {asked : Tiles.Action} (hasked : w.asked a = some asked) : Domestic own asked := by
  have hview : ∀ id c, ∀ t ∈ (setNormalizedViewId c (w.broker.sessions id).canonicalViewId).tiles,
      own id t.normalizedViewId := by
    intro id c t ht
    obtain ⟨u, -, rfl⟩ := List.mem_map.mp ht
    exact hown id
  cases a with
  | kit a => cases hasked
  | deliver => cases hasked
  | sendCombinedTiles id tokens now budget =>
    simp only [World.asked] at hasked
    split at hasked
    · cases hasked
    · split at hasked
      · cases hasked
      · obtain rfl := Option.some.inj hasked
        exact hview id _
  | sendTile id tile now =>
    obtain rfl := Option.some.inj hasked
    trivial
  | requestTiles id tileCombined now budget =>
    obtain rfl := Option.some.inj hasked
    exact hview id tileCombined
  | sendRequestedTiles id now budget =>
    obtain rfl := Option.some.inj hasked
    trivial
  | invalidateTiles part mode x y width height nview =>
    obtain rfl := Option.some.inj hasked
    trivial
  | evict victims =>
    obtain rfl := Option.some.inj hasked
    trivial
  | close id =>
    obtain rfl := Option.some.inj hasked
    trivial

theorem Inv.act (h : Inv visible w) {a : Action} (ha : Proper w a) :
    Inv visible (act visible hasAVX2 compress writePng mode w a) := by
  rcases act_asked hasAVX2 compress writePng mode visible w a with ⟨a, rfl⟩ | rfl | heq
  · have hdoes := Kit.Views.does_act hasAVX2 compress writePng mode h.kit ha
    refine ⟨hdoes.ok, fun m hm => ?_, h.broker.mono ?_ ?_⟩
    · rcases List.mem_append.mp hm with hm | hm
      · exact (h.wire m hm).mono hdoes.grows
      · exact hdoes.sound m hm
    · rintro id v (hzero | ⟨p, hp, hnames⟩)
      · exact .inl hzero
      · exact .inr ⟨p, hdoes.grows.views _ hp, hdoes.grows.names _ _ hnames⟩
    · rintro v body ⟨p, hp, hview⟩
      exact ⟨p, hdoes.grows.painted p hp, hview⟩
  · simp only [Watermarks.act]
    cases hwire : w.wire with
    | nil => exact h
    | cons m rest =>
      have hall := h.wire
      rw [hwire] at hall
      exact ⟨h.kit, fun m' hm' => hall m' (List.mem_cons_of_mem m hm'),
        owned_handle h.broker (hall m List.mem_cons_self)⟩
  · rw [heq]
    refine ⟨h.kit, h.wire, ?_⟩
    cases hasked : w.asked a with
    | none => exact h.broker
    | some asked =>
      exact h.broker.act (domestic_asked (fun id => (h.broker.sessions id).current) hasked)

/-- **No session is sent a picture with a watermark that is not its own.** -/
theorem isolated_always (visible : Bool) (as : List Action)
    (h : Run.Meets (act visible hasAVX2 compress writePng mode) Proper .init as) :
    Run.Always (act visible hasAVX2 compress writePng mode) (Isolated visible) .init as :=
  Run.always_of_meets (fun _ hw => hw.isolated)
    (fun _ _ hw ha => hw.act hasAVX2 compress writePng mode ha) (inv_init visible) h

end Act

/-! ## Two clients -/

/-- The tile at the top left, painted for a number. -/
def paint (normalizedViewId : Nat) (p q : Delta.Pixel) : Render :=
  { combined := .single { Kit.corner 0 0 with normalizedViewId := normalizedViewId }
    distinct := rfl
    pixmap := [p, q]
    size := by simp [Kit.pixmapWidth, Kit.pixmapHeight, TileCombined.single, TileDesc.combineParams,
      Kit.corner, Kit.renderArea, Kit.tileRect]
    order := List.finRange _
    scheduled := .refl _
    sessions := [] }

/-- Two sessions with watermarks ask for one tile, and each is sent its own. -/
def twoClients : List Action :=
  [.kit (.createSession 1), .kit (.load 1 [65] true true), .kit (.createSession 2),
    .kit (.load 2 [66] true true), .deliver, .deliver, .sendTile 1 (Kit.corner 0 0) 0,
    .sendTile 2 (Kit.corner 0 0) 0, .kit (.renderTiles (paint 1001 0xFF000001 0xFF000002)),
    .kit (.renderTiles (paint 1000 0xFF000003 0xFF000004)), .kit (.viewRenderState 1 [83]), .deliver,
    .deliver, .deliver]

theorem isolated_twoClients :
    Run.Always (act true false Kit.zstdRaw (fun _ _ rgba => Kit.pngSignature ++ rgba) .rgba)
      (Isolated true) .init twoClients :=
  isolated_always false Kit.zstdRaw (fun _ _ rgba => Kit.pngSignature ++ rgba) .rgba true twoClients
    (by decide +kernel)

example : [1, 2].map (fun id => ((twoClients.foldl (act true false Kit.zstdRaw
    (fun _ _ rgba => Kit.pngSignature ++ rgba) .rgba) .init).broker.sessions id).sent.map
      fun m => m.desc.normalizedViewId) = [[1000], [1001]] := by decide +kernel

end Oxool.Wsd.Tiles.Watermarks
