import Mathlib.Data.List.Induction

/-!
# The last element of a kind

`List.findRev?` over a list that grows at its end: what one more element changes, and when the last
element of one kind is also the last of another.
-/

set_option autoImplicit false

namespace Oxool

variable {α : Type} {p q : α → Bool} {l : List α} {a : α}

theorem findRev?_concat (p : α → Bool) (l : List α) (a : α) :
    (l ++ [a]).findRev? p = if p a then some a else l.findRev? p := by
  rw [List.findRev?_eq_find?_reverse, List.findRev?_eq_find?_reverse, List.reverse_append]
  simp only [List.reverse_singleton, List.singleton_append, List.find?_cons]
  by_cases h : p a = true
  · rw [if_pos h, h]
  · rw [if_neg h, Bool.eq_false_iff.mpr h]

theorem of_findRev?_eq_some (h : l.findRev? p = some a) : p a = true := by
  rw [List.findRev?_eq_find?_reverse] at h
  exact List.find?_some h

theorem mem_of_findRev?_eq_some (h : l.findRev? p = some a) : a ∈ l := by
  rw [List.findRev?_eq_find?_reverse] at h
  exact List.mem_reverse.mp (List.mem_of_find?_eq_some h)

/-- The last of a wider kind is the last of a narrower one that it belongs to. -/
theorem findRev?_eq_some_of_imp (h : l.findRev? p = some a) (hq : q a = true)
    (himp : ∀ b ∈ l, q b = true → p b = true) : l.findRev? q = some a := by
  induction l using List.reverseRecOn with
  | nil => simp at h
  | append_singleton l b ih =>
    rw [findRev?_concat] at h ⊢
    by_cases hb : p b = true
    · rw [if_pos hb, Option.some.injEq] at h
      rw [h, if_pos hq]
    · rw [if_neg hb] at h
      rw [if_neg fun hqb => hb (himp b (by simp) hqb)]
      exact ih h fun c hc => himp c (by simp [hc])

/-- There is a last one where there is one. -/
theorem exists_findRev?_eq_some (ha : a ∈ l) (hp : p a = true) : ∃ b, l.findRev? p = some b := by
  cases h : l.findRev? p with
  | some b => exact ⟨b, rfl⟩
  | none =>
    rw [List.findRev?_eq_find?_reverse, List.find?_eq_none] at h
    exact absurd hp (h a (List.mem_reverse.mpr ha))

end Oxool
