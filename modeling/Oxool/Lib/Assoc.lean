import Mathlib.Algebra.GroupWithZero.Nat
import Mathlib.Data.List.Nodup

/-!
# Association lists

A hash table, as a list of pairs with one pair for each key. `put` writes in place, and a filter
on the keys forgets; each has one equation that says what a lookup finds afterwards, as has a change
of every value.
-/

set_option autoImplicit false

namespace Oxool.Assoc

section Lookup

variable {κ ν : Type} [BEq κ] [LawfulBEq κ] {k : κ} {v : ν} {l : List (κ × ν)}

theorem lookup_eq_none : l.lookup k = none ↔ k ∉ l.map Prod.fst := by
  rw [List.lookup_eq_none_iff]
  constructor
  · intro h hk
    obtain ⟨e, he, rfl⟩ := List.mem_map.mp hk
    simpa using h e he
  · intro h e he
    have hne : k ≠ e.1 := fun heq => h (List.mem_map.mpr ⟨e, he, heq.symm⟩)
    simp [hne]

/-- A lookup finds what is there, where the keys are different. -/
theorem lookup_of_mem (hnodup : (l.map Prod.fst).Nodup) (h : (k, v) ∈ l) : l.lookup k = some v := by
  induction l with
  | nil => simp at h
  | cons e l ih =>
    rw [List.map_cons, List.nodup_cons] at hnodup
    rw [List.lookup_cons]
    rcases List.mem_cons.mp h with rfl | h
    · simp
    · have hne : k ≠ e.1 := fun heq => hnodup.1 (heq ▸ List.mem_map_of_mem h)
      rw [beq_false_of_ne hne]
      exact ih hnodup.2 h

theorem mem_of_lookup (h : l.lookup k = some v) : (k, v) ∈ l := by
  induction l with
  | nil => simp at h
  | cons e l ih =>
    rw [List.lookup_cons] at h
    split at h
    · rename_i hk
      obtain rfl := Option.some.inj h
      rw [eq_of_beq hk]
      exact List.mem_cons_self
    · exact List.mem_cons_of_mem _ (ih h)

end Lookup

theorem lookup_map_value {κ ν μ : Type} [BEq κ] (g : ν → μ) (k : κ) (l : List (κ × ν)) :
    (l.map fun e => (e.1, g e.2)).lookup k = (l.lookup k).map g := by
  induction l with
  | nil => rfl
  | cons e l ih =>
    rw [List.map_cons, List.lookup_cons, List.lookup_cons, ih]
    split <;> rfl

variable {κ ν : Type} [DecidableEq κ]

/-- The pairs with the value of one key put in, in the place of the old one if there is one. -/
def put (k : κ) (v : ν) (l : List (κ × ν)) : List (κ × ν) :=
  if k ∈ l.map Prod.fst then l.map fun e => if e.1 = k then (k, v) else e
  else (k, v) :: l

variable {k k' : κ} {v : ν} {l : List (κ × ν)}

theorem nodup_put (h : (l.map Prod.fst).Nodup) : ((put k v l).map Prod.fst).Nodup := by
  rw [put]
  split
  · have hkeys : (l.map fun e => if e.1 = k then (k, v) else e).map Prod.fst = l.map Prod.fst := by
      rw [List.map_map]
      apply List.map_congr_left
      intro e _
      by_cases he : e.1 = k <;> simp [he]
    rw [hkeys]
    exact h
  · rename_i hk
    exact List.nodup_cons.mpr ⟨hk, h⟩

/-- What is in the list after a write: the pair, or something that was there. -/
theorem mem_put {e : κ × ν} (h : e ∈ put k v l) : e = (k, v) ∨ e ∈ l := by
  rw [put] at h
  split at h
  · obtain ⟨e', he', rfl⟩ := List.mem_map.mp h
    split
    · exact .inl rfl
    · exact .inr he'
  · exact List.mem_cons.mp h

section After

variable [BEq κ] [LawfulBEq κ]

theorem lookup_replace (h : k ∈ l.map Prod.fst) :
    (l.map fun e => if e.1 = k then (k, v) else e).lookup k' =
      if k' = k then some v else l.lookup k' := by
  induction l with
  | nil => simp at h
  | cons e l ih =>
    rw [List.map_cons, List.lookup_cons, List.lookup_cons]
    by_cases he : e.1 = k
    · rw [if_pos he]
      by_cases hk : k' = k
      · simp [hk]
      · have hke : (k' == e.1) = false := by simp [he, hk]
        rw [if_neg hk, hke]
        have hkk : (k' == k) = false := by simp [hk]
        simp only [hkk]
        by_cases hl : k ∈ l.map Prod.fst
        · rw [ih hl, if_neg hk]
        · have hsame : (l.map fun e => if e.1 = k then (k, v) else e) = l := by
            conv_rhs => rw [← List.map_id l]
            apply List.map_congr_left
            intro e' he'
            exact if_neg fun heq => hl (List.mem_map.mpr ⟨e', he', heq⟩)
          rw [hsame]
    · rw [if_neg he]
      have hl : k ∈ l.map Prod.fst := by
        rw [List.map_cons, List.mem_cons] at h
        exact h.resolve_left fun heq => he heq.symm
      rw [ih hl]
      by_cases hk : k' = k
      · have hke : (k' == e.1) = false := by simp [hk, Ne.symm he]
        rw [hke, if_pos hk]
      · rw [if_neg hk, if_neg hk]

/-- **What a lookup finds after a write.** -/
theorem lookup_put (k k' : κ) (v : ν) (l : List (κ × ν)) :
    (put k v l).lookup k' = if k' = k then some v else l.lookup k' := by
  rw [put]
  split
  · rename_i hk
    exact lookup_replace hk
  · rw [List.lookup_cons]
    by_cases hk : k' = k
    · simp [hk]
    · have hkk : (k' == k) = false := by simp [hk]
      rw [hkk, if_neg hk]

/-- A sum over the list after a write to a key that was not there. -/
theorem sum_put_of_lookup_none (f : κ × ν → Nat) (h : l.lookup k = none) (v : ν) :
    ((put k v l).map f).sum = f (k, v) + (l.map f).sum := by
  rw [put, if_neg (lookup_eq_none.mp h), List.map_cons, List.sum_cons]

/-- A sum over the list after a write to a key that was there. -/
theorem sum_put_of_lookup_some (f : κ × ν → Nat) (hnodup : (l.map Prod.fst).Nodup) {old : ν}
    (h : l.lookup k = some old) (v : ν) :
    ((put k v l).map f).sum + f (k, old) = (l.map f).sum + f (k, v) := by
  have hmem : k ∈ l.map Prod.fst := by
    by_contra hnot
    rw [lookup_eq_none.mpr hnot] at h
    cases h
  rw [put, if_pos hmem]
  clear hmem
  induction l with
  | nil => simp at h
  | cons e l ih =>
    rw [List.map_cons, List.nodup_cons] at hnodup
    rw [List.lookup_cons] at h
    rw [List.map_cons, List.map_cons, List.map_cons, List.sum_cons, List.sum_cons]
    by_cases he : e.1 = k
    · obtain rfl : e = (k, old) := by
        simp only [he, beq_self_eq_true, Option.some.injEq] at h
        exact Prod.ext he h
      -- the key is not found again further on
      have hrest : (l.map fun e => if e.1 = k then (k, v) else e) = l := by
        conv_rhs => rw [← List.map_id l]
        apply List.map_congr_left
        intro e' he'
        exact if_neg fun heq => hnodup.1 (List.mem_map.mpr ⟨e', he', heq⟩)
      rw [hrest, if_pos rfl]
      omega
    · have hke : (k == e.1) = false := by simp [Ne.symm he]
      rw [hke] at h
      have := ih hnodup.2 h
      rw [if_neg he]
      omega

/-- **What a lookup finds after some keys were forgotten.** -/
theorem lookup_filter (p : κ → Bool) (k : κ) (l : List (κ × ν)) :
    (l.filter fun e => p e.1).lookup k = if p k then l.lookup k else none := by
  induction l with
  | nil => simp
  | cons e l ih =>
    rw [List.filter_cons, List.lookup_cons]
    by_cases hk : k = e.1
    · by_cases hp : p e.1 = true
      · rw [if_pos hp, List.lookup_cons, hk, if_pos hp]
        simp
      · rw [if_neg hp, ih, hk, if_neg hp, if_neg hp]
    · have hke : (k == e.1) = false := by simp [hk]
      rw [hke]
      by_cases hp : p e.1 = true
      · rw [if_pos hp, List.lookup_cons, hke, ih]
      · rw [if_neg hp, ih]

/-- **What a lookup finds after every value was changed.** -/
theorem lookup_map (f : κ → ν → ν) (k : κ) (l : List (κ × ν)) :
    (l.map fun e => (e.1, f e.1 e.2)).lookup k = (l.lookup k).map (f k) := by
  induction l with
  | nil => rfl
  | cons e l ih =>
    rw [List.map_cons, List.lookup_cons, List.lookup_cons, ih]
    by_cases hk : k = e.1
    · simp [hk]
    · have hke : (k == e.1) = false := by simp [hk]
      rw [hke]

end After

section Values

variable {μ : Type} (g : ν → μ)

/-- A write goes through a change of every value to another type. -/
theorem map_put (k : κ) (v : ν) (l : List (κ × ν)) :
    (put k v l).map (fun e => (e.1, g e.2)) = put k (g v) (l.map fun e => (e.1, g e.2)) := by
  have hkeys : (l.map fun e => (e.1, g e.2)).map Prod.fst = l.map Prod.fst := by
    rw [List.map_map]
    rfl
  rw [put, put, hkeys]
  split
  · rw [List.map_map, List.map_map]
    apply List.map_congr_left
    intro e _
    dsimp only [Function.comp_apply]
    split <;> rfl
  · rfl

end Values

end Oxool.Assoc
