import Oxool.Delta.Frames
import Oxool.Lib.Assoc

/-!
# `DeltaGenerator` — the kit's cache of last pictures (`kit/Delta.hpp`)

The generator remembers one picture for each `TileLocation` and makes a delta against it when the
next picture at that location has the same size. What a location is decides what a delta may be
computed against: position, one size, part and canonical view.
-/

set_option autoImplicit false

namespace Oxool.Delta

/-- `TileLocation`, in twips. -/
structure TileLocation where
  left : Nat
  top : Nat
  size : Nat
  part : Nat
  canonicalViewId : Nat
deriving DecidableEq

/-- The delta entries, one for each location, and the size they are cut back to. -/
structure DeltaGenerator where
  entries : List (TileLocation × DeltaData)
  maxEntries : Nat
  distinct : (entries.map Prod.fst).Nodup

namespace DeltaGenerator

/-- A generator as the constructor makes it. -/
def empty : DeltaGenerator := ⟨[], 0, List.nodup_nil⟩

/-- `_deltaEntries.find`. -/
def find (g : DeltaGenerator) (loc : TileLocation) : Option DeltaData := g.entries.lookup loc

/-- `_deltaEntries.insert` of a new entry, or `replaceAndFree` of the one found. -/
def store (g : DeltaGenerator) (loc : TileLocation) (d : DeltaData) : DeltaGenerator :=
  { g with
    entries := Assoc.put loc d g.entries
    distinct := Assoc.nodup_put g.distinct }

/-- The entries that `rebalanceDeltasT` erases: the oldest ones by wire id, or all of them. -/
def toRemove (g : DeltaGenerator) (bDropAll : Bool) : List TileLocation :=
  let number := g.entries.length - (if bDropAll then 0 else g.maxEntries * 3 / 4)
  ((g.entries.mergeSort fun a b => decide (a.2.wid ≤ b.2.wid)).take number).map Prod.fst

/-- `rebalanceDeltasT`. -/
def rebalanceDeltasT (g : DeltaGenerator) (bDropAll : Bool) : DeltaGenerator :=
  if g.entries.length > g.maxEntries ∨ bDropAll = true then
    { g with
      entries := g.entries.filter fun e => decide (e.1 ∉ g.toRemove bDropAll)
      distinct := g.distinct.sublist (List.filter_sublist.map _) }
  else g

/-- `rebalanceDeltas`; without a limit the size stays as it is. -/
def rebalanceDeltas (g : DeltaGenerator) (limit : Int) : DeltaGenerator :=
  if limit > 0 then { g with maxEntries := limit.toNat }.rebalanceDeltasT false
  else g.rebalanceDeltasT false

/-- `setSessionCount`. -/
def setSessionCount (g : DeltaGenerator) (count : Nat) : DeltaGenerator :=
  g.rebalanceDeltas (max count 1 * 96 : Nat)

/-- `dropCache`. -/
def dropCache (g : DeltaGenerator) : DeltaGenerator := g.rebalanceDeltasT true

/-! ## Lookups -/

theorem find_store (g : DeltaGenerator) (loc loc' : TileLocation) (d : DeltaData) :
    (g.store loc d).find loc' = if loc' = loc then some d else g.find loc' :=
  Assoc.lookup_put loc loc' d g.entries

/-- Cutting the cache back only forgets. -/
theorem find_rebalanceDeltasT {g : DeltaGenerator} {bDropAll : Bool} {loc : TileLocation}
    {d : DeltaData} (h : (g.rebalanceDeltasT bDropAll).find loc = some d) : g.find loc = some d := by
  rw [rebalanceDeltasT] at h
  split at h
  · rw [find, Assoc.lookup_filter fun l => decide (l ∉ g.toRemove bDropAll)] at h
    split at h
    · exact h
    · cases h
  · exact h

theorem find_rebalanceDeltas {g : DeltaGenerator} {limit : Int} {loc : TileLocation} {d : DeltaData}
    (h : (g.rebalanceDeltas limit).find loc = some d) : g.find loc = some d := by
  rw [rebalanceDeltas] at h
  split at h
  · have hg := find_rebalanceDeltasT h
    exact hg
  · exact find_rebalanceDeltasT h

/-! ## Deltas -/

section Encode

variable (hasAVX2 : Bool) (compress : List UInt8 → Option (List UInt8)) (mode : TileMode)

/-- `createDelta`: the delta, if there is one, and the cache with the new picture in it. -/
def createDelta (w : Window) (loc : TileLocation) (wid : UInt32) (forceKeyframe : Bool)
    (g : DeltaGenerator) : DeltaGenerator × Option (List UInt8) :=
  if h : w.Fits then
    let update := DeltaData.new hasAVX2 wid (w.tile h)
    match g.find loc with
    | none => (g.store loc update, none)
    | some cacheEntry =>
      (g.store loc update, if forceKeyframe then none else makeDelta compress cacheEntry update mode)
  else (g, none)

/-- `compressOrDelta`. -/
def compressOrDelta (w : Window) (loc : TileLocation) (wid : UInt32) (forceKeyframe : Bool)
    (g : DeltaGenerator) : DeltaGenerator × List UInt8 :=
  match createDelta hasAVX2 compress mode w loc wid forceKeyframe g with
  | (g, some delta) => (g, delta)
  | (g, none) => (g, keyframe compress mode w.rows)

variable {compress mode} in
theorem size_of_makeDelta {prev cur : DeltaData} {data : List UInt8}
    (h : makeDelta compress prev cur mode = some data) :
    prev.width = cur.width ∧ prev.height = cur.height := by
  rw [makeDelta] at h
  cases hd : deltaStream prev cur mode with
  | none =>
    rw [hd] at h
    cases h
  | some output =>
    rw [deltaStream] at hd
    split at hd
    · cases hd
    · omega

/-- **What `compressOrDelta` can do.** A picture of a size it does not take is sent whole and not
remembered. Any other is remembered, and sent whole or as a delta against what was remembered at
its location, which then had its size. -/
theorem compressOrDelta_cases (w : Window) (loc : TileLocation) (wid : UInt32)
    (forceKeyframe : Bool) (g : DeltaGenerator) :
    (¬ w.Fits ∧ compressOrDelta hasAVX2 compress mode w loc wid forceKeyframe g =
      (g, keyframe compress mode w.rows)) ∨
    ∃ h : w.Fits, ∃ data, compressOrDelta hasAVX2 compress mode w loc wid forceKeyframe g =
        (g.store loc (DeltaData.new hasAVX2 wid (w.tile h)), data) ∧
      (data = keyframe compress mode w.rows ∨
        ∃ e, g.find loc = some e ∧ forceKeyframe = false ∧ e.width = w.width ∧
          e.height = w.height ∧
          makeDelta compress e (DeltaData.new hasAVX2 wid (w.tile h)) mode = some data) := by
  by_cases h : w.Fits
  · refine .inr ⟨h, ?_⟩
    rw [compressOrDelta, createDelta, dif_pos h]
    cases hfind : g.find loc with
    | none => exact ⟨_, rfl, .inl rfl⟩
    | some e =>
      cases forceKeyframe with
      | true => exact ⟨_, rfl, .inl rfl⟩
      | false =>
        cases hmake : makeDelta compress e (DeltaData.new hasAVX2 wid (w.tile h)) mode with
        | none =>
          refine ⟨keyframe compress mode w.rows, ?_, .inl rfl⟩
          simp [hmake]
        | some data =>
          obtain ⟨hw, hh⟩ := size_of_makeDelta hmake
          refine ⟨data, ?_, .inr ⟨e, rfl, rfl, hw, hh, hmake⟩⟩
          simp [hmake]
  · refine .inl ⟨h, ?_⟩
    rw [compressOrDelta, createDelta, dif_neg h]

end Encode

end DeltaGenerator

end Oxool.Delta
