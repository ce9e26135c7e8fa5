import Mathlib.Data.List.Basic
import Mathlib.Tactic

/-!
# Searching a list for a sublist

`search pat l` is the first position of `l` at which `pat` stands. What a reader of a growing
buffer needs to know about it: more input never changes an answer that was found (`search_append`),
and nothing is found before the whole of `pat` has arrived (`search_take`).
-/

set_option autoImplicit false

namespace Oxool

variable {α : Type} [BEq α]

/-- `std::search`, as an index. -/
def search (pat : List α) : List α → Option Nat
  | [] => if pat.isEmpty then some 0 else none
  | a :: l => if pat.isPrefixOf (a :: l) then some 0 else (search pat l).map (· + 1)

variable [LawfulBEq α] {pat l : List α} {i : Nat}

theorem search_le (h : search pat l = some i) : i + pat.length ≤ l.length := by
  induction l generalizing i with
  | nil =>
    rw [search] at h
    split at h
    · next hp =>
      obtain rfl : 0 = i := Option.some.inj h
      simp [List.isEmpty_iff.mp hp]
    · exact absurd h (by simp)
  | cons a l ih =>
    rw [search] at h
    split at h
    · next hp =>
      obtain rfl : 0 = i := Option.some.inj h
      have hle := (List.isPrefixOf_iff_prefix.mp hp).length_le
      omega
    · obtain ⟨j, hj, rfl⟩ := Option.map_eq_some_iff.mp h
      have hle := ih hj
      rw [List.length_cons]
      omega

theorem search_append (h : search pat l = some i) (t : List α) : search pat (l ++ t) = some i := by
  induction l generalizing i with
  | nil =>
    rw [search] at h
    split at h
    · next hp =>
      obtain rfl : pat = [] := List.isEmpty_iff.mp hp
      cases t with
      | nil => simpa [search] using h
      | cons b t => simpa [search] using h
    · exact absurd h (by simp)
  | cons a l ih =>
    rw [search] at h
    rw [List.cons_append, search]
    split at h
    · next hp =>
      have hpre := (List.isPrefixOf_iff_prefix.mp hp).trans (List.prefix_append (a :: l) t)
      rw [List.cons_append] at hpre
      rw [if_pos (List.isPrefixOf_iff_prefix.mpr hpre)]
      exact h
    · next hp =>
      obtain ⟨j, hj, rfl⟩ := Option.map_eq_some_iff.mp h
      rw [ih hj, if_neg, Option.map_some]
      intro hpre
      -- the whole of `pat` fits into `l`, so what follows `l` did not help it to match
      have hlen : pat.length ≤ (a :: l).length := by
        have hle := search_le hj
        rw [List.length_cons]
        omega
      have hpre' : pat <+: a :: l :=
        List.prefix_of_prefix_length_le (List.isPrefixOf_iff_prefix.mp hpre)
          (List.prefix_append (a :: l) t) hlen
      exact hp (List.isPrefixOf_iff_prefix.mpr hpre')

theorem search_self_append {a : α} (pat t : List α) : search (a :: pat) (a :: pat ++ t) = some 0 := by
  have hpre : a :: pat <+: a :: (pat ++ t) := List.prefix_append (a :: pat) t
  rw [List.cons_append, search, if_pos (List.isPrefixOf_iff_prefix.mpr hpre)]

/-- **Nothing is found too early.** -/
theorem search_take {k : Nat} (h : search pat l = some i) (hk : k < i + pat.length) :
    search pat (l.take k) = none := by
  rw [Option.eq_none_iff_forall_ne_some]
  intro j hj
  have hle := search_le hj
  have heq := search_append hj (l.drop k)
  rw [List.take_append_drop, h, Option.some.injEq] at heq
  rw [List.length_take] at hle
  omega

end Oxool
