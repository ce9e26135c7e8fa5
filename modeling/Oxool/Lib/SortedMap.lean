import Mathlib.Data.List.Lex
import Mathlib.Data.List.Nodup
import Mathlib.Order.Lattice

/-!
# Sorted maps

A map that is walked in the order of its keys: the list of its entries, sorted by keys that are
different. `mem_set` and `mem_erase` tell what is in the map after a change.
-/

set_option autoImplicit false

namespace Oxool

namespace SortedMap

/-- Bytes are ordered by their values. -/
scoped instance byteOrder : LinearOrder UInt8 where
  le_refl := UInt8.le_refl
  le_trans _ _ _ := UInt8.le_trans
  le_antisymm _ _ := UInt8.le_antisymm
  le_total := UInt8.le_total
  lt_iff_le_not_ge a b := by
    rw [UInt8.lt_iff_toNat_lt, UInt8.le_iff_toNat_le, UInt8.le_iff_toNat_le]
    exact Nat.lt_iff_le_and_not_ge
  toDecidableLE := inferInstance
  toDecidableLT := inferInstance
  toDecidableEq := inferInstance

end SortedMap

structure SortedMap (κ ν : Type) [LinearOrder κ] where
  entries : List (κ × ν)
  sorted : entries.Pairwise (·.1 < ·.1)

namespace SortedMap

variable {κ ν : Type} [LinearOrder κ] (m : SortedMap κ ν)

def empty : SortedMap κ ν := ⟨[], .nil⟩

/-- An entry is put in, or in the place of the one with its key. -/
def set (k : κ) (v : ν) : SortedMap κ ν where
  entries := m.entries.filter (·.1 < k) ++ (k, v) :: m.entries.filter (k < ·.1)
  sorted := by
    rw [List.pairwise_append, List.pairwise_cons]
    refine ⟨m.sorted.filter _, ⟨?_, m.sorted.filter _⟩, ?_⟩
    · intro e he
      exact of_decide_eq_true (List.mem_filter.mp he).2
    · intro e he e' he'
      have hlt : e.1 < k := of_decide_eq_true (List.mem_filter.mp he).2
      rcases List.mem_cons.mp he' with rfl | he'
      · exact hlt
      · exact lt_trans hlt (of_decide_eq_true (List.mem_filter.mp he').2)

def erase (k : κ) : SortedMap κ ν where
  entries := m.entries.filter (·.1 ≠ k)
  sorted := m.sorted.filter _

def get? (k : κ) : Option ν := m.entries.lookup k

variable {m} {k k' : κ} {v v' : ν}

theorem ext {m' : SortedMap κ ν} (h : m.entries = m'.entries) : m = m' := by
  cases m
  cases m'
  cases h
  rfl

theorem mem_set :
    (k', v') ∈ (m.set k v).entries ↔ (k' = k ∧ v' = v) ∨ k' ≠ k ∧ (k', v') ∈ m.entries := by
  rw [set, List.mem_append, List.mem_cons, List.mem_filter, List.mem_filter, decide_eq_true_eq,
    decide_eq_true_eq,
    Prod.mk.injEq]
  constructor
  · rintro (⟨hmem, hlt⟩ | heq | ⟨hmem, hlt⟩)
    · exact .inr ⟨ne_of_lt hlt, hmem⟩
    · exact .inl heq
    · exact .inr ⟨ne_of_gt hlt, hmem⟩
  · rintro (heq | ⟨hne, hmem⟩)
    · exact .inr (.inl heq)
    · rcases lt_or_gt_of_ne hne with hlt | hgt
      · exact .inl ⟨hmem, hlt⟩
      · exact .inr (.inr ⟨hmem, hgt⟩)

theorem mem_erase : (k', v') ∈ (m.erase k).entries ↔ k' ≠ k ∧ (k', v') ∈ m.entries := by
  rw [erase, List.mem_filter, decide_eq_true_eq]
  exact and_comm

theorem nodup_keys (m : SortedMap κ ν) : (m.entries.map Prod.fst).Nodup := by
  rw [List.Nodup, List.pairwise_map]
  exact m.sorted.imp fun h => ne_of_lt h

/-- A key has one value. -/
theorem value_unique (h : (k, v) ∈ m.entries) (h' : (k, v') ∈ m.entries) : v = v' := by
  have heq : ((k, v) : κ × ν) = (k, v') := List.inj_on_of_nodup_map m.nodup_keys h h' rfl
  exact congrArg Prod.snd heq

theorem erase_ne (h : (k, v) ∈ m.entries) : m.erase k ≠ m := by
  intro heq
  rw [← heq] at h
  exact (mem_erase.mp h).1 rfl

end SortedMap

end Oxool
