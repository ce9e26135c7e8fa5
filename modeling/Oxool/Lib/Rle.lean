import Mathlib.Data.List.Basic

/-!
# Repeat-mask coding of a list

A list is coded against a running "last" value as a mask and a residue: one bit per element,
set where the element repeats the last value, and the elements whose bit is clear. This is the
general fact a bitmap row codec rests on, stated over any type with decidable equality and
naming nothing of the codec: how the two halves behave under append, that the residue of a
suffix is empty exactly when the suffix is constant, and that the pair determines the list.
-/

set_option autoImplicit false

namespace Oxool.Rle

variable {α : Type} [DecidableEq α]

/-- One bit per element: does it repeat the value before it? -/
def bits (last : α) : List α → List Bool
  | [] => []
  | p :: ps => decide (p = last) :: bits p ps

/-- The elements that do not repeat the value before them. -/
def data (last : α) : List α → List α
  | [] => []
  | p :: ps => if p = last then data p ps else p :: data p ps

/-- The value a later element is compared with once `l` has been read. -/
def lastOf (last : α) : List α → α
  | [] => last
  | p :: ps => lastOf p ps

@[simp] theorem bits_nil (last : α) : bits last ([] : List α) = [] := rfl

@[simp] theorem data_nil (last : α) : data last ([] : List α) = [] := rfl

omit [DecidableEq α] in
@[simp] theorem lastOf_nil (last : α) : lastOf last ([] : List α) = last := rfl

theorem bits_cons (last p : α) (ps : List α) :
    bits last (p :: ps) = decide (p = last) :: bits p ps := rfl

theorem data_cons_same (p : α) (ps : List α) : data p (p :: ps) = data p ps := by
  simp [data]

theorem data_cons_diff {last p : α} (h : p ≠ last) (ps : List α) :
    data last (p :: ps) = p :: data p ps := by
  simp [data, h]

@[simp] theorem length_bits (last : α) (l : List α) : (bits last l).length = l.length := by
  induction l generalizing last with
  | nil => rfl
  | cons p ps ih => simp [bits, ih]

theorem bits_append (last : α) (l m : List α) :
    bits last (l ++ m) = bits last l ++ bits (lastOf last l) m := by
  induction l generalizing last with
  | nil => rfl
  | cons p ps ih => simp [bits, lastOf, ih]

theorem data_append (last : α) (l m : List α) :
    data last (l ++ m) = data last l ++ data (lastOf last l) m := by
  induction l generalizing last with
  | nil => rfl
  | cons p ps ih =>
    simp only [List.cons_append, data, lastOf, ih]
    split <;> simp

omit [DecidableEq α] in
theorem lastOf_append (last : α) (l m : List α) :
    lastOf last (l ++ m) = lastOf (lastOf last l) m := by
  induction l generalizing last with
  | nil => rfl
  | cons p ps ih => simp [lastOf, ih]

/-- An empty residue means the next element repeats the last one. -/
theorem eq_last_of_data_eq_nil {last p : α} {ps : List α} (h : data last (p :: ps) = []) :
    p = last := by
  by_contra hne
  rw [data_cons_diff hne] at h
  exact absurd h (by simp)

/-- The residue, read off the mask: the elements whose bit is clear. -/
theorem data_eq_map_filter (last d : α) (l : List α) :
    data last l = ((List.range l.length).filter fun i => !(bits last l).getD i false).map
      fun i => l.getD i d := by
  induction l generalizing last with
  | nil => rfl
  | cons p ps ih =>
    have htail : ∀ b : Bool, ((List.map Nat.succ (List.range ps.length)).filter
        fun i => !(b :: bits p ps).getD i false).map (fun i => (p :: ps).getD i d) = data p ps := by
      intro b
      rw [List.filter_map, List.map_map, ih p]
      rfl
    rw [List.length_cons, List.range_succ_eq_map, bits_cons, List.filter_cons]
    by_cases hp : p = last
    · subst hp
      simp only [data_cons_same, decide_true, List.getD_cons_zero, Bool.not_true,
        Bool.false_eq_true, if_false, htail]
    · simp only [data_cons_diff hp, hp, decide_false, List.getD_cons_zero, Bool.not_false,
        if_true, List.map_cons, htail]

/-- **The pair determines the list**: no two lists share mask and residue. -/
theorem ext (last : α) {l m : List α} (hb : bits last l = bits last m)
    (hd : data last l = data last m) : l = m := by
  induction l generalizing last m with
  | nil =>
    have hlen : m.length = 0 := by rw [← length_bits last m, ← hb]; rfl
    exact (List.length_eq_zero_iff.mp hlen).symm
  | cons p ps ih =>
    cases m with
    | nil => exact absurd hb (by simp [bits])
    | cons q qs =>
      simp only [bits_cons, List.cons.injEq, decide_eq_decide] at hb
      obtain ⟨hiff, hbs⟩ := hb
      by_cases hp : p = last
      · have hq : q = last := hiff.mp hp
        subst hp hq
        rw [data_cons_same, data_cons_same] at hd
        rw [ih _ hbs hd]
      · have hq : q ≠ last := fun h => hp (hiff.mpr h)
        rw [data_cons_diff hp, data_cons_diff hq] at hd
        simp only [List.cons.injEq] at hd
        obtain ⟨rfl, hd⟩ := hd
        rw [ih _ hbs hd]

end Oxool.Rle
