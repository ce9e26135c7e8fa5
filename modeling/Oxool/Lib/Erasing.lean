import Mathlib.Data.List.Sort

/-!
# Erasing several positions

A loop that goes over a list by index and erases what it is done with erases last, the highest
position first, so that no erasure moves a position that is still to be erased. `kept` is what is
left, told by the positions alone; `eraseAll` is the erasing. The order of the positions does not
matter to `kept`, and the rest of the list is untouched.
-/

set_option autoImplicit false

namespace Oxool

variable {α : Type}

/-- What is left of a list that starts at position `k`. -/
def kept (positions : List Nat) : Nat → List α → List α
  | _, [] => []
  | k, a :: l => if k ∈ positions then kept positions (k + 1) l else a :: kept positions (k + 1) l

/-- One erasure after another. -/
def eraseAll (positions : List Nat) (l : List α) : List α := positions.foldl List.eraseIdx l

theorem kept_nil (k : Nat) (l : List α) : kept [] k l = l := by
  induction l generalizing k with
  | nil => rfl
  | cons a l ih => rw [kept, if_neg List.not_mem_nil, ih]

theorem kept_of_lt {positions : List Nat} {k : Nat} (h : ∀ i ∈ positions, i < k) (l : List α) :
    kept positions k l = l := by
  induction l generalizing k with
  | nil => rfl
  | cons a l ih =>
    rw [kept, if_neg fun hk => Nat.lt_irrefl k (h k hk), ih fun i hi => Nat.lt_succ_of_lt (h i hi)]

theorem kept_congr {p q : List Nat} (h : ∀ i, i ∈ p ↔ i ∈ q) (k : Nat) (l : List α) :
    kept p k l = kept q k l := by
  induction l generalizing k with
  | nil => rfl
  | cons a l ih => simp only [kept, h, ih]

/-- A position that the list does not have erases nothing. -/
theorem kept_append_of_lt {positions : List Nat} {i k : Nat} (h : i < k) (l : List α) :
    kept (positions ++ [i]) k l = kept positions k l := by
  induction l generalizing k with
  | nil => rfl
  | cons a l ih =>
    have hmem : k ∈ positions ++ [i] ↔ k ∈ positions := by simp [Nat.ne_of_gt h]
    simp only [kept, hmem, ih (Nat.lt_succ_of_lt h)]

/-- One more position erases the element that is there. -/
theorem kept_perm_cons {positions : List Nat} {k i : Nat} {l : List α} {a : α}
    (ha : l[i]? = some a) (hi : k + i ∉ positions) :
    (kept positions k l).Perm (a :: kept (positions ++ [k + i]) k l) := by
  induction l generalizing k i with
  | nil => simp at ha
  | cons b l ih =>
    cases i with
    | zero =>
      have hb : b = a := by simpa using ha
      rw [Nat.add_zero] at hi ⊢
      rw [kept, if_neg hi, kept, if_pos (by simp), kept_append_of_lt (Nat.lt_succ_self k), hb]
    | succ i =>
      have hshift : k + (i + 1) = k + 1 + i := by omega
      have hmem : k ∈ positions ++ [k + 1 + i] ↔ k ∈ positions := by
        have hne : k ≠ k + 1 + i := by omega
        simp [hne]
      rw [hshift] at hi ⊢
      have hrest := ih (by simpa using ha) hi
      simp only [kept, hmem]
      split
      · exact hrest
      · exact (hrest.cons b).trans (.swap a b _)

theorem kept_cons_of_lt {positions : List Nat} {d k : Nat} (h : ∀ i ∈ positions, i < d)
    (hk : k ≤ d) (l : List α) :
    kept positions k (l.eraseIdx (d - k)) = kept (d :: positions) k l := by
  induction l generalizing k with
  | nil => rfl
  | cons a l ih =>
    rcases Nat.lt_or_eq_of_le hk with hlt | rfl
    · have hsub : d - k = d - (k + 1) + 1 := by omega
      have hmem : k ∈ d :: positions ↔ k ∈ positions := by simp [Nat.ne_of_lt hlt]
      rw [hsub, List.eraseIdx_cons_succ]
      simp only [kept, hmem, ih hlt]
    · have hrest : ∀ i ∈ k :: positions, i < k + 1 := by
        intro i hi
        rcases List.mem_cons.mp hi with rfl | hi
        · exact Nat.lt_succ_self i
        · exact Nat.lt_succ_of_lt (h i hi)
      rw [Nat.sub_self, List.eraseIdx_cons_zero, kept, if_pos List.mem_cons_self,
        kept_of_lt h, kept_of_lt hrest]

/-- **The highest position first.** Erasing the positions from the highest to the lowest leaves what
the positions leave. -/
theorem eraseAll_eq_kept {positions : List Nat} (h : positions.Pairwise (· > ·)) (l : List α) :
    eraseAll positions l = kept positions 0 l := by
  induction positions generalizing l with
  | nil => rw [kept_nil]; rfl
  | cons d positions ih =>
    obtain ⟨hd, hrest⟩ := List.pairwise_cons.mp h
    have hstep : eraseAll (d :: positions) l = eraseAll positions (l.eraseIdx d) := rfl
    rw [hstep, ih hrest]
    exact kept_cons_of_lt hd (Nat.zero_le d) l

/-- The positions in any order, sorted first. -/
theorem eraseAll_insertionSort {positions : List Nat} (h : positions.Nodup) (l : List α) :
    eraseAll (positions.insertionSort (· ≥ ·)) l = kept positions 0 l := by
  have hperm := List.perm_insertionSort (· ≥ ·) positions
  have hsorted : (positions.insertionSort (· ≥ ·)).Pairwise (· > ·) := by
    have hge : (positions.insertionSort (· ≥ ·)).Pairwise (· ≥ ·) :=
      List.pairwise_insertionSort _ positions
    have hne : (positions.insertionSort (· ≥ ·)).Pairwise (· ≠ ·) := hperm.nodup_iff.mpr h
    exact (hge.and hne).imp fun hab => Nat.lt_of_le_of_ne hab.1 (Ne.symm hab.2)
  rw [eraseAll_eq_kept hsorted]
  exact kept_congr (fun i => hperm.mem_iff) 0 l

end Oxool
