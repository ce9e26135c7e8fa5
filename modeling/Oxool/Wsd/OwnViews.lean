import Oxool.Wsd.EntryPieces
import Oxool.Wsd.ServingRule

/-!
# Whose tiles a session is sent

Which views a session may see is a relation `own` here, and which bytes were made for a view is another
one, `made`; nothing is said about them. `Owned` says of a broker that a session asks for, waits for
and was sent tiles of its own views only, and that what was sent for a view was made for that view.
Every action keeps it that does not itself bring something foreign: a frame that was not made for the
view it is for, a request for a view of another, the number of a view of another.
-/

set_option autoImplicit false

namespace Oxool.Wsd.Tiles

open Oxool.Delta (isKeyframe)

/-! ## Bytes made of frames -/

/-- The bytes are some frames, one after the other. -/
def MadeOf (made : List UInt8 → Prop) (bytes : List UInt8) : Prop :=
  ∃ bodies : List (List UInt8), bytes = bodies.flatten ∧ ∀ body ∈ bodies, made body

/-- An entry is made of frames. -/
def TileData.Composed (made : List UInt8 → Prop) (t : TileData) : Prop :=
  ∃ bodies : List (List UInt8), t.IsMadeOf bodies ∧ ∀ body ∈ bodies, made body

section Composed

variable {made made' : List UInt8 → Prop} {t : TileData}

theorem MadeOf.mono (hmade : ∀ body, made body → made' body) {bytes : List UInt8}
    (h : MadeOf made bytes) : MadeOf made' bytes := by
  obtain ⟨bodies, hbytes, hbodies⟩ := h
  exact ⟨bodies, hbytes, fun body hbody => hmade body (hbodies body hbody)⟩

theorem TileData.Composed.mono (hmade : ∀ body, made body → made' body) (h : t.Composed made) :
    t.Composed made' := by
  obtain ⟨bodies, hbodies, hall⟩ := h
  exact ⟨bodies, hbodies, fun body hbody => hmade body (hall body hbody)⟩

/-- What a client is sent is made of frames, whatever it has seen. -/
theorem TileData.Composed.changesSince (h : t.Composed made) (since : UInt32) :
    MadeOf made (t.changesSince since) := by
  obtain ⟨bodies, hbodies, hall⟩ := h
  obtain ⟨k, hk⟩ := hbodies.changesSince since
  exact ⟨bodies.drop k, hk, fun body hbody => hall body (List.mem_of_mem_drop hbody)⟩

theorem TileData.composed_keyframe (t : TileData) (id : UInt32) {data : List UInt8}
    (hkeyframe : isKeyframe data = true) (hdata : made (data.drop 1)) :
    (t.appendBlob id data).Composed made :=
  ⟨[data.drop 1], .keyframe t id hkeyframe, fun _ hbody => List.mem_singleton.mp hbody ▸ hdata⟩

theorem TileData.Composed.appendBlob (h : t.Composed made) (id : UInt32) {data : List UInt8}
    (hdata : made (data.drop 1)) : (t.appendBlob id data).Composed made := by
  cases hkeyframe : isKeyframe data with
  | true => exact t.composed_keyframe id hkeyframe hdata
  | false =>
    obtain ⟨bodies, hbodies, hall⟩ := h
    refine ⟨bodies ++ [data.drop 1], hbodies.delta id hkeyframe, fun body hbody => ?_⟩
    rcases List.mem_append.mp hbody with hbody | hbody
    · exact hall body hbody
    · rw [List.mem_singleton.mp hbody]
      exact hdata

end Composed

/-! ## What belongs to a session -/

section Owned

variable (own : Nat → Nat → Prop) (made : Nat → List UInt8 → Prop)

/-- What a session was sent are frames that were made for its views. -/
def SentOwn (id : Nat) (sent : List Sent) : Prop :=
  ∀ m ∈ sent, own id m.desc.normalizedViewId ∧ MadeOf (made m.desc.normalizedViewId) m.payload

/-- A session has to do with its own views only, and the cache has what was made for each view under
that view. -/
def Broker.Owned (b : Broker) : Prop :=
  b.Serves own (fun key e => e.Composed (made key.normalizedViewId)) (SentOwn own made)

end Owned

variable {own own' : Nat → Nat → Prop} {made made' : Nat → List UInt8 → Prop} {b : Broker}

/-- What is kept of a view may be sent to a session that has the view. -/
theorem servingLaw_owned :
    ServingLaw own (fun key e => e.Composed (made key.normalizedViewId)) (SentOwn own made) where
  tells := by
    intro id sent desc e lastSentId hown he hsent m hm
    rcases List.mem_append.mp hm with hm | hm
    · exact hsent m hm
    · rw [List.mem_singleton.mp hm]
      exact ⟨hown, he.changesSince _⟩
  valid := by
    rintro key e valid ⟨bodies, hbodies, hall⟩
    exact ⟨bodies, hbodies.valid valid, hall⟩

namespace Broker

theorem Owned.mono (hown : ∀ id v, own id v → own' id v) (hmade : ∀ v body, made v body → made' v body)
    (h : b.Owned own made) : b.Owned own' made' :=
  Serves.mono hown (fun _ _ he => he.mono (hmade _))
    (fun _ _ hsent m hm => ⟨hown _ _ (hsent m hm).1, (hsent m hm).2.mono (hmade _)⟩) h

/-- **Sessions keep to their own views**, whatever happens, as long as nothing foreign is brought. -/
theorem Owned.act (h : b.Owned own made) {a : Action} (ha : Domestic own a) :
    (Tiles.act b a).Owned own made :=
  Serves.act servingLaw_owned h ha

/-- A frame that was made for its view. -/
theorem Owned.response (h : b.Owned own made) {desc : TileDesc} {data : List UInt8}
    (hdata : made desc.normalizedViewId (data.drop 1)) :
    (Tiles.act b (.response desc data)).Owned own made :=
  Serves.response servingLaw_owned h (fun _ _ _ he => he) (fun _ he => he.appendBlob desc.wireId hdata)
    (fun hkeyframe e => e.composed_keyframe desc.wireId hkeyframe hdata) fun _ _ hsent => hsent

end Broker

end Oxool.Wsd.Tiles
