/-!
# Merging what is adjacent

A sequence in which some neighbours were put together into one, where `merge` says which two can be
and what they become. The order of all that is not put together stays.
-/

set_option autoImplicit false

namespace Oxool

section Merging

variable {α : Type} (merge : α → α → Option α)

/-- The second list is the first with some adjacent elements merged. -/
inductive Merging : List α → List α → Prop
  | nil : Merging [] []
  | keep {a : α} {l l' : List α} (h : Merging l l') : Merging (a :: l) (a :: l')
  | merge {a b c : α} {l l' : List α} (hmerge : merge a b = some c) (h : Merging (c :: l) l') :
    Merging (a :: b :: l) l'

variable {merge}

theorem Merging.refl (l : List α) : Merging merge l l := by
  induction l with
  | nil => exact .nil
  | cons a l ih => exact .keep ih

/-- One more element, kept as it is. -/
theorem Merging.concat {l l' : List α} (h : Merging merge l l') (a : α) :
    Merging merge (l ++ [a]) (l' ++ [a]) := by
  induction h with
  | nil => exact .refl [a]
  | keep _ ih => exact .keep ih
  | merge hmerge _ ih => exact .merge hmerge ih

theorem Merging.eq_nil {l : List α} (h : Merging merge l []) : l = [] := by
  generalize hn : ([] : List α) = l' at h
  induction h with
  | nil => rfl
  | keep _ _ => exact absurd hn (by simp)
  | merge _ _ ih =>
    rw [← hn] at ih
    exact absurd (ih rfl) (List.cons_ne_nil _ _)

/-- One more element, merged with the last. -/
theorem Merging.concat_merge {l l' : List α} {a b c : α} (h : Merging merge l (l' ++ [a]))
    (hmerge : merge a b = some c) : Merging merge (l ++ [b]) (l' ++ [c]) := by
  generalize hlast : l' ++ [a] = m at h
  induction h generalizing l' with
  | nil => simp at hlast
  | @keep x l m h ih =>
    cases l' with
    | nil =>
      obtain ⟨rfl, rfl⟩ : a = x ∧ [] = m := by simpa using hlast
      rw [h.eq_nil]
      exact .merge hmerge (.refl [c])
    | cons y l' =>
      obtain ⟨rfl, hrest⟩ : y = x ∧ l' ++ [a] = m := by simpa using hlast
      exact .keep (ih hrest)
  | merge hfirst _ ih => exact .merge hfirst (ih hlast)

end Merging

end Oxool
