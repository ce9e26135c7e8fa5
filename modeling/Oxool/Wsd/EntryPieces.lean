import Oxool.Wsd.TileCache

/-!
# The pieces of a cache entry

The bytes of an entry are the bodies of some frames, one behind the other, and each offset is where one of
them starts. So what a client is sent is some of the bodies, from one on to the last (`changesSince`), and
a client that has the keyframe is sent deltas only (`changesSince_tail`).
-/

set_option autoImplicit false

namespace Oxool.Wsd.Tiles.TileData

open Oxool.Delta (isKeyframe)

/-- The entry is made of the bodies: the first frame starts with the first of them, and every other frame
with another. -/
structure IsMadeOf (bodies : List (List UInt8)) (t : TileData) : Prop where
  ne_nil : bodies ≠ []
  frames : t.frames ≠ []
  deltas : t.deltas = bodies.flatten
  first : ∀ f ∈ t.frames.head?, f.2 = 0
  later : ∀ f ∈ t.frames.tail, ∃ k, f.2 = (bodies.take (k + 1)).flatten.length

variable {bodies : List (List UInt8)} {t : TileData} {since id : UInt32} {data : List UInt8}

theorem IsMadeOf.valid (h : t.IsMadeOf bodies) (valid : Bool) :
    ({ t with valid := valid } : TileData).IsMadeOf bodies := ⟨h.ne_nil, h.frames, h.deltas, h.first, h.later⟩

/-- Bytes that start with some bodies, less these. -/
theorem drop_flatten (bodies : List (List UInt8)) (k : Nat) :
    bodies.flatten.drop (bodies.take k).flatten.length = (bodies.drop k).flatten := by
  conv_lhs =>
    rw [← List.take_append_drop k bodies, List.flatten_append]
  rw [List.take_append_drop, List.drop_left]

/-- What lies behind the offset of a frame. -/
theorem IsMadeOf.drop (h : t.IsMadeOf bodies) {f : UInt32 × Nat} (hf : f ∈ t.frames) :
    ∃ k, t.deltas.drop f.2 = (bodies.drop k).flatten := by
  rw [h.deltas]
  cases hframes : t.frames with
  | nil => simp [hframes] at hf
  | cons g rest =>
    rw [hframes] at hf
    rcases List.mem_cons.mp hf with rfl | hf
    · refine ⟨0, ?_⟩
      rw [h.first f (by simp [hframes]), List.drop_zero, List.drop_zero]
    · obtain ⟨k, hk⟩ := h.later f (by simpa [hframes] using hf)
      exact ⟨k + 1, by rw [hk, drop_flatten]⟩

/-- **What a client is sent** is some of the bodies, whatever it has seen. -/
theorem IsMadeOf.changesSince (h : t.IsMadeOf bodies) (since : UInt32) :
    ∃ k, t.changesSince since = (bodies.drop k).flatten := by
  have hnothing : ∃ k, ([] : List UInt8) = (bodies.drop k).flatten :=
    ⟨bodies.length, by rw [List.drop_length, List.flatten_nil]⟩
  rw [TileData.changesSince]
  split
  · split
    · exact hnothing
    · rename_i f rest hframes
      exact h.drop (hframes ▸ List.mem_cons_self)
  · rw [TileData.upTo]
    split
    · rename_i f hfind
      exact h.drop (List.mem_of_find?_eq_some hfind)
    · rw [List.drop_length]
      exact hnothing

/-- A client that has the keyframe is not sent the first of them. -/
theorem IsMadeOf.changesSince_tail (h : t.IsMadeOf bodies) {last : UInt32} (hok : t.Ok last)
    (hk : t.needsKeyframe since = false) : ∃ k, t.changesSince since = (bodies.tail.drop k).flatten := by
  obtain ⟨w, rest, hframes⟩ := hok.first
  have hle : ¬ since < w := by simpa [needsKeyframe, wids, hframes] using hk
  rw [TileData.changesSince, if_neg (ne_zero_of_needsKeyframe hok hk), TileData.upTo, hframes,
    List.find?_cons_of_neg (by simpa using hle)]
  split
  · rename_i f hfind
    obtain ⟨k, hk⟩ := h.later f (by simpa [hframes] using List.mem_of_find?_eq_some hfind)
    exact ⟨k, by rw [h.deltas, hk, drop_flatten, List.drop_tail]⟩
  · exact ⟨bodies.tail.length, by rw [List.drop_length, List.drop_length, List.flatten_nil]⟩

/-! ## One more frame -/

theorem IsMadeOf.keyframe (t : TileData) (id : UInt32) (hkey : isKeyframe data = true) :
    (t.appendBlob id data).IsMadeOf [data.drop 1] := by
  rcases appendBlob_cases t id data with ⟨-, heq⟩ | ⟨hk, -⟩ | ⟨hk, -⟩
  · rw [heq]
    exact ⟨List.cons_ne_nil _ _, List.cons_ne_nil _ _, by simp, by simp, by simp⟩
  · rw [hkey] at hk
    cases hk
  · rw [hkey] at hk
    cases hk

/-- A delta that only moves the wire id has no bytes. -/
theorem deltas_appendBlob (t : TileData) (id : UInt32) (hdelta : isKeyframe data = false) :
    (t.appendBlob id data).deltas = t.deltas ++ data.drop 1 := by
  rw [appendBlob, hdelta]
  simp only [Bool.false_eq_true, if_false]
  split
  · rename_i hbump
    have hnil : data.drop 1 = [] := List.drop_eq_nil_of_le (Nat.le_of_eq hbump.1)
    rw [hnil, List.append_nil]
  · rfl

/-- Frames that are there stay where they are, and the new one starts where the bytes ended. -/
theorem IsMadeOf.snoc (h : t.IsMadeOf bodies) (init : List (UInt32 × Nat)) (id : UInt32) (valid : Bool)
    (body : List UInt8) (hfirst : ∀ f ∈ init.head?, f.2 = 0) (hinit : ∀ f ∈ init.tail, f ∈ t.frames.tail)
    (hne : init ≠ []) :
    (⟨valid, init ++ [(id, t.deltas.length)], t.deltas ++ body⟩ : TileData).IsMadeOf
      (bodies ++ [body]) where
  ne_nil := List.append_ne_nil_of_left_ne_nil h.ne_nil _
  frames := List.append_ne_nil_of_left_ne_nil hne _
  deltas := by rw [h.deltas, List.flatten_append, List.flatten_singleton]
  first := by
    cases init with
    | nil => exact absurd rfl hne
    | cons f init => exact hfirst
  later := by
    have hall : ∃ n, (bodies ++ [body]).take (n + 1) = bodies := by
      refine ⟨bodies.length - 1, ?_⟩
      rw [Nat.sub_add_cancel (List.length_pos_iff.mpr h.ne_nil), List.take_left]
    obtain ⟨n, hn⟩ := hall
    cases init with
    | nil => exact absurd rfl hne
    | cons g init =>
      intro f hf
      rcases List.mem_append.mp hf with hf | hf
      · obtain ⟨k, hk⟩ := h.later f (hinit f hf)
        by_cases hlen : k + 1 ≤ bodies.length
        · exact ⟨k, by rw [List.take_append_of_le_length hlen, hk]⟩
        · exact ⟨n, by rw [hn, hk, List.take_of_length_le (Nat.le_of_not_le hlen)]⟩
      · exact ⟨n, by rw [hn, List.mem_singleton.mp hf, h.deltas]⟩

/-- **A delta** adds its body. -/
theorem IsMadeOf.delta (h : t.IsMadeOf bodies) (id : UInt32)
    (hdelta : isKeyframe data = false) : (t.appendBlob id data).IsMadeOf (bodies ++ [data.drop 1]) := by
  have hdeltas := deltas_appendBlob t id hdelta
  rcases appendBlob_cases t id data with ⟨hk, -⟩ | ⟨-, init, w, hinit, hold, heq⟩ | ⟨-, heq⟩
  · rw [hdelta] at hk
    cases hk
  · -- the last frame, which was empty, is renumbered
    rw [heq] at hdeltas ⊢
    have hbody : t.deltas = t.deltas ++ data.drop 1 := hdeltas
    cases init with
    | nil => exact absurd rfl hinit
    | cons f init =>
      have hsnoc := h.snoc (f :: init) id true (data.drop 1)
        (fun g hg => h.first g (by simpa [hold] using hg))
        (fun g hg => by rw [hold]; exact List.mem_append_left _ hg) (List.cons_ne_nil _ _)
      rw [← hbody] at hsnoc
      exact hsnoc
  · rw [heq]
    exact h.snoc t.frames id true _ h.first (fun f hf => hf) h.frames

end Oxool.Wsd.Tiles.TileData
