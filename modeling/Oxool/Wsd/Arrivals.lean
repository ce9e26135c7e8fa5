import Oxool.Kit.FrameOrder
import Oxool.Wsd.EntryPieces
import Oxool.Wsd.ServingRule

/-!
# What the frames that have arrived make of the server

Let the frames of a kit arrive one after the other, and let sessions ask for tiles in between. An entry of
the cache is then always made of the frames of its tile that have arrived, from the last keyframe on
(`Kept`), and each message to a session was made of the frames that had arrived at its time, which only
goes forward (`Told`).
-/

set_option autoImplicit false

namespace Oxool.Wsd.Tiles

open Oxool.Delta (isKeyframe)
open Oxool.Kit (Rendered bodiesOf lastOf bodiesOf_of_ne bodiesOf_keyframe bodiesOf_delta)

/-- The wire id of the frame of a tile that arrived last. -/
def newestOf (arrived : List Rendered) (key : CacheKey) : UInt32 :=
  ((lastOf key arrived).map fun r => r.desc.wireId).getD 0

/-- The entry is made of the frames that have arrived. -/
structure Kept (arrived : List Rendered) (key : CacheKey) (e : TileData) : Prop where
  ok : e.Ok (newestOf arrived key)
  made : e.IsMadeOf (bodiesOf key arrived)

/-- The message was made when these frames had arrived: a `tile:` has all of them, from the last keyframe
on, and a `delta:` some of the last ones. -/
structure Tells (key : CacheKey) (arrived : List Rendered) (m : Sent) : Prop where
  ne_nil : bodiesOf key arrived ≠ []
  held : m.held = (bodiesOf key arrived).flatten
  tile : m.keyframe = true → m.payload = m.held
  delta : m.keyframe = false → ∃ k, m.payload = ((bodiesOf key arrived).tail.drop k).flatten

/-- The messages about a tile were made one after the other. -/
def Told (arrived : List Rendered) (sent : List Sent) : Prop :=
  ∀ key, ∃ time : Nat → Nat, Monotone time ∧ (∀ n, time n ≤ arrived.length) ∧
    ∀ i m, (sendsFor key sent)[i]? = some m → Tells key (arrived.take (time (i + 1))) m

/-- The broker goes with the frames that have arrived. -/
structure Follows (arrived : List Rendered) (b : Broker) : Prop where
  ok : BrokerOk (newestOf arrived) b
  serves : b.Serves (fun _ _ => True) (Kept arrived) fun _ => Told arrived

variable {arrived : List Rendered} {b : Broker} {f : Rendered}

theorem newestOf_concat (arrived : List Rendered) (f : Rendered) :
    newestOf (arrived ++ [f]) = Function.update (newestOf arrived) f.desc.cacheKey f.desc.wireId := by
  funext key
  rw [newestOf, Kit.lastOf_concat]
  by_cases hkey : f.desc.cacheKey = key
  · rw [if_pos hkey, ← hkey, Function.update_self]
    rfl
  · rw [if_neg hkey, Function.update_of_ne (Ne.symm hkey), newestOf]

/-! ## Messages -/

/-- What the server makes of an entry. -/
theorem Kept.tells {desc : TileDesc} {e : TileData} (h : Kept arrived desc.cacheKey e)
    (lastSentId : UInt32) : Tells desc.cacheKey arrived (Sent.since desc e lastSentId) where
  ne_nil := h.made.ne_nil
  held := h.made.deltas
  tile := by
    intro hkeyframe
    simp only [Sent.since, Bool.or_eq_true] at hkeyframe ⊢
    cases hpng : e.isPng with
    | true => exact TileData.changesSince_zero h.ok
    | false =>
      have hneeds := hkeyframe.resolve_right (by simp [hpng])
      exact TileData.changesSince_of_needsKeyframe h.ok hneeds
  delta := by
    intro hkeyframe
    simp only [Sent.since, Bool.or_eq_false_iff] at hkeyframe ⊢
    obtain ⟨hneeds, hpng⟩ := hkeyframe
    rw [hpng, if_neg Bool.false_ne_true]
    exact h.made.changesSince_tail h.ok hneeds

theorem servingLaw_arrived (arrived : List Rendered) :
    ServingLaw (fun _ _ => True) (Kept arrived) fun _ => Told arrived where
  tells := by
    intro id sent desc e lastSentId _ he hsent key
    obtain ⟨time, hmono, hle, htells⟩ := hsent key
    rw [sendsFor_concat, show (Sent.since desc e lastSentId).desc = desc from rfl]
    by_cases hkey : desc.cacheKey = key
    · subst hkey
      rw [if_pos rfl]
      set count := (sendsFor desc.cacheKey sent).length with hcount
      -- the new message was made now
      refine ⟨fun n => if n ≤ count then time n else arrived.length, ?_, ?_, ?_⟩
      · intro n n' hn
        dsimp only
        split
        · split
          · exact hmono hn
          · exact hle n
        · rename_i hlater
          rw [if_neg fun h => hlater (hn.trans h)]
      · intro n
        dsimp only
        split
        · exact hle n
        · exact Nat.le_refl _
      · intro i m hm
        dsimp only
        by_cases hi : i < count
        · rw [List.getElem?_append_left hi] at hm
          rw [if_pos (show i + 1 ≤ count from hi)]
          exact htells i m hm
        · have hlast : i = count := by
            have hlt := (List.getElem?_eq_some_iff.mp hm).1
            rw [List.length_append, List.length_singleton, ← hcount] at hlt
            omega
          rw [hlast, List.getElem?_concat_length, Option.some.injEq] at hm
          rw [hlast, if_neg (Nat.not_succ_le_self _), List.take_length, ← hm]
          exact he.tells lastSentId
    · rw [if_neg hkey]
      exact ⟨time, hmono, hle, htells⟩
  valid := fun valid he => ⟨⟨he.ok.first, he.ok.up, he.ok.pos, he.ok.le, he.ok.inside⟩, he.made.valid valid⟩

/-- What was told stays what it was. -/
theorem Told.concat {sent : List Sent} (h : Told arrived sent) : Told (arrived ++ [f]) sent := by
  intro key
  obtain ⟨time, hmono, hle, htells⟩ := h key
  refine ⟨time, hmono, fun n => ?_, fun i m hm => ?_⟩
  · rw [List.length_append]
    exact Nat.le_add_right_of_le (hle n)
  · rw [List.take_append_of_le_length (hle _)]
    exact htells i m hm

/-! ## Steps -/

/-- **What is asked of the broker.** -/
theorem Follows.act (h : Follows arrived b) {a : Action} (hdomestic : Domestic (fun _ _ => True) a)
    (ha : World.Proper ⟨b, fun _ => 0⟩ a) : Follows arrived (Tiles.act b a) where
  ok := by
    have hproper : World.Proper ⟨b, newestOf arrived⟩ a := by
      cases a with
      | response desc data => exact hdomestic.elim
      | combined => exact ha
      | more => exact ha
      | single => exact ha
      | invalidate => exact ha
      | evict => exact ha
      | setView => exact ha
      | close => exact ha
    have hok := act_ok (w := ⟨b, newestOf arrived⟩) h.ok hproper
    cases a with
    | response desc data => exact hdomestic.elim
    | combined => exact hok
    | more => exact hok
    | single => exact hok
    | invalidate => exact hok
    | evict => exact hok
    | setView => exact hok
    | close => exact hok
  serves := h.serves.act (servingLaw_arrived arrived) hdomestic

/-- **A frame arrives.** -/
theorem Follows.arrive (h : Follows arrived b) (hid : newestOf arrived f.desc.cacheKey < f.desc.wireId) :
    Follows (arrived ++ [f]) (Tiles.act b (.response f.desc f.data)) where
  ok := by
    rw [newestOf_concat]
    exact act_ok (w := ⟨b, newestOf arrived⟩) (a := .response f.desc f.data) h.ok hid
  serves := by
    have hnewest : newestOf (arrived ++ [f]) f.desc.cacheKey = f.desc.wireId := by
      rw [newestOf_concat, Function.update_self]
    have hpos : 0 < f.desc.wireId := UInt32.lt_of_le_of_lt UInt32.zero_le hid
    have hnew : isKeyframe f.data = true →
        ∀ e : TileData, Kept (arrived ++ [f]) f.desc.cacheKey (e.appendBlob f.desc.wireId f.data) := by
      intro hkeyframe e
      refine ⟨?_, by rw [bodiesOf_keyframe arrived hkeyframe]; exact .keyframe e _ hkeyframe⟩
      rw [hnewest]
      rcases TileData.appendBlob_cases e f.desc.wireId f.data with ⟨-, heq⟩ | ⟨hk, -⟩ | ⟨hk, -⟩
      · rw [heq]
        exact TileData.ok_keyframe hpos
      · rw [hkeyframe] at hk
        cases hk
      · rw [hkeyframe] at hk
        cases hk
    refine h.serves.response (servingLaw_arrived _) (fun key e hkey he => ?_) (fun e he => ?_) hnew
      fun _ _ hsent => hsent.concat
    · refine ⟨?_, by rw [bodiesOf_of_ne arrived (Ne.symm hkey)]; exact he.made⟩
      rw [newestOf_concat, Function.update_of_ne hkey]
      exact he.ok
    · cases hkeyframe : isKeyframe f.data with
      | true => exact hnew hkeyframe e
      | false =>
        refine ⟨?_, by rw [bodiesOf_delta arrived hkeyframe]; exact he.made.delta _ hkeyframe⟩
        rw [hnewest]
        exact he.ok.appendBlob hid f.data

theorem follows_init : Follows [] .init where
  ok :=
    { entries := fun key e he => by simp [Broker.init, entry, TileCache.empty] at he
      sessions := fun id => sessionOk_new }
  serves :=
    { sessions := fun id => ⟨trivial, fun _ _ => trivial, fun key =>
        ⟨fun _ => 0, fun _ _ _ => Nat.le_refl 0, fun _ => Nat.le_refl 0, fun i m hm => by
          simp [Broker.init, ClientSession.new, sendsFor] at hm⟩⟩
      waiting := fun _ _ _ _ => trivial
      kept := fun key e he => by simp [Broker.init, entry, TileCache.empty] at he }

/-- Rising wire ids arrive as rising wire ids. -/
theorem newestOf_lt {later : List Rendered} (hrising : Kit.Rising (arrived ++ f :: later))
    (hpos : 0 < f.desc.wireId) : newestOf arrived f.desc.cacheKey < f.desc.wireId := by
  rw [newestOf]
  cases hlast : lastOf f.desc.cacheKey arrived with
  | none => exact hpos
  | some q =>
    have hkey : q.desc.cacheKey = f.desc.cacheKey := by simpa using of_findRev?_eq_some hlast
    exact (List.pairwise_append.mp hrising).2.2 q (mem_of_findRev?_eq_some hlast) f List.mem_cons_self hkey

/-- **Frames arrive**, all of a message. -/
theorem Follows.arriveAll {frames later : List Rendered} (h : Follows arrived b)
    (hrising : Kit.Rising (arrived ++ (frames ++ later))) (hpos : ∀ f ∈ frames, 0 < f.desc.wireId) :
    Follows (arrived ++ frames) (frames.foldl (fun b f => Tiles.act b (.response f.desc f.data)) b) := by
  induction frames generalizing arrived b with
  | nil =>
    rw [List.append_nil]
    exact h
  | cons f frames ih =>
    have hnext := h.arrive (newestOf_lt hrising (hpos f List.mem_cons_self))
    rw [List.foldl_cons, ← List.singleton_append, ← List.append_assoc]
    refine ih hnext ?_ fun f' hf' => hpos f' (List.mem_cons_of_mem f hf')
    rw [List.append_assoc]
    exact hrising

end Oxool.Wsd.Tiles
