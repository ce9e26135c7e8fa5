import Mathlib.Data.List.Basic

/-!
# Searching for what a field starts with

A list is divided into fields by separators: a field starts where the list does, and behind each
separator. `fieldBehind` searches for the first field that starts with a pattern. A separator, or
any other element that is not in the pattern, divides the search into one of what is before it and
one of what is behind it (`fieldBehind_append`).
-/

set_option autoImplicit false

namespace Oxool

variable {α : Type}

/-- Some field of the list starts with `pat`. -/
def StartsField (p : α → Bool) (pat l : List α) : Prop :=
  ∃ front rest, l = front ++ pat ++ rest ∧ ∀ c, front.getLast? = some c → p c = true

/-- The same of the rest of a list, at the head of which a field starts if `start` is true. -/
def StartsFieldFrom (p : α → Bool) (pat : List α) (start : Bool) (l : List α) : Prop :=
  ∃ front rest, l = front ++ pat ++ rest ∧ (front = [] → start = true) ∧
    ∀ c, front.getLast? = some c → p c = true

section Starts

variable {p : α → Bool} {pat l : List α} {a c : α} {start : Bool}

theorem startsFieldFrom_true_iff : StartsFieldFrom p pat true l ↔ StartsField p pat l := by
  rw [StartsFieldFrom, StartsField]
  simp only [implies_true, true_and]

theorem not_startsFieldFrom_nil (hpat : pat ≠ []) : ¬ StartsFieldFrom p pat start [] := by
  intro h
  obtain ⟨front, rest, hsplit, -, -⟩ := h
  exact hpat (List.append_eq_nil_iff.mp (List.append_eq_nil_iff.mp hsplit.symm).1).2

theorem startsFieldFrom_cons :
    StartsFieldFrom p pat start (a :: l) ↔
      start = true ∧ pat <+: a :: l ∨ StartsFieldFrom p pat (p a) l := by
  constructor
  · intro h
    obtain ⟨front, rest, hsplit, hfirst, hlast⟩ := h
    cases front with
    | nil => exact .inl ⟨hfirst rfl, rest, hsplit.symm⟩
    | cons b front =>
      rw [List.cons_append, List.cons_append, List.cons.injEq] at hsplit
      obtain ⟨rfl, hsplit⟩ := hsplit
      refine .inr ⟨front, rest, hsplit, ?_, ?_⟩
      · intro hnil
        exact hlast a (by rw [hnil]; rfl)
      · intro c hc
        exact hlast c (by rw [List.getLast?_cons, hc]; rfl)
  · intro h
    cases h with
    | inl h =>
      obtain ⟨hstart, rest, hrest⟩ := h
      exact ⟨[], rest, hrest.symm, fun _ => hstart, nofun⟩
    | inr h =>
      obtain ⟨front, rest, hsplit, hfirst, hlast⟩ := h
      refine ⟨a :: front, rest, congrArg (a :: ·) hsplit, nofun, ?_⟩
      intro c hc
      cases front with
      | nil =>
        obtain rfl : a = c := by simpa using hc
        exact hfirst rfl
      | cons b front => exact hlast c (by rwa [List.getLast?_cons_cons] at hc)

/-- A pattern that is found in front of an element that is not in it ends there. -/
theorem isPrefix_append_cons_iff (hc : c ∉ pat) (m : List α) :
    pat <+: l ++ c :: m ↔ pat <+: l := by
  constructor
  · intro h
    refine List.prefix_of_prefix_length_le h (List.prefix_append _ _) (Nat.le_of_not_lt ?_)
    intro hlt
    have hget : pat[l.length] = c := by
      rw [h.getElem hlt, List.getElem_append_right (Nat.le_refl _)]
      simp
    exact hc (hget ▸ List.getElem_mem hlt)
  · intro h
    exact h.trans (List.prefix_append _ _)

end Starts

variable [BEq α]

/-- What follows `pat` where it starts a field for the first time. One starts at the head of the
list if `start` is true. -/
def fieldBehind (p : α → Bool) (pat : List α) : Bool → List α → Option (List α)
  | start, [] => if start && pat.isEmpty then some [] else none
  | start, a :: l =>
    if start && pat.isPrefixOf (a :: l) then some ((a :: l).drop pat.length)
    else fieldBehind p pat (p a) l

variable {p : α → Bool} {pat l : List α} {a c : α} {start : Bool}

theorem fieldBehind_nil (hpat : pat ≠ []) : fieldBehind p pat start [] = none := by
  rw [fieldBehind, if_neg]
  simp [hpat]

theorem fieldBehind_false_cons : fieldBehind p pat false (a :: l) = fieldBehind p pat (p a) l := by
  rw [fieldBehind, if_neg]
  simp

/-- No field starts in what is behind the start of one and has no separator. -/
theorem fieldBehind_false_of_forall (hpat : pat ≠ []) (hl : ∀ b ∈ l, p b = false) :
    fieldBehind p pat false l = none := by
  induction l with
  | nil => exact fieldBehind_nil hpat
  | cons b l ih =>
    rw [fieldBehind_false_cons, hl b List.mem_cons_self]
    exact ih fun d hd => hl d (List.mem_cons_of_mem b hd)

variable [LawfulBEq α]

theorem fieldBehind_true_of_isPrefix {l : List α} (h : pat <+: l) :
    fieldBehind p pat true l = some (l.drop pat.length) := by
  have hpre : pat.isPrefixOf l = true := List.isPrefixOf_iff_prefix.mpr h
  cases l with
  | nil =>
    obtain rfl := List.prefix_nil.mp h
    rfl
  | cons a l => rw [fieldBehind, Bool.true_and, if_pos hpre]

theorem fieldBehind_cons_of_not_isPrefix (h : ¬ pat <+: a :: l) :
    fieldBehind p pat start (a :: l) = fieldBehind p pat (p a) l := by
  rw [fieldBehind, if_neg]
  rw [Bool.and_eq_true, List.isPrefixOf_iff_prefix]
  exact fun hpre => h hpre.2

/-- **The search of a list with an element in it that is not in the pattern.** -/
theorem fieldBehind_append (hpat : pat ≠ []) (hc : c ∉ pat) (start : Bool) (l m : List α) :
    fieldBehind p pat start (l ++ c :: m) =
      ((fieldBehind p pat start l).map (· ++ c :: m)).or (fieldBehind p pat (p c) m) := by
  induction l generalizing start with
  | nil =>
    have hpre : ¬ pat <+: c :: m := by
      intro h
      exact hpat (List.prefix_nil.mp ((isPrefix_append_cons_iff (l := []) hc m).mp h))
    rw [List.nil_append, fieldBehind_cons_of_not_isPrefix hpre, fieldBehind_nil hpat]
    rfl
  | cons b l ih =>
    have hiff := isPrefix_append_cons_iff (l := b :: l) hc m
    by_cases hpre : pat <+: b :: l
    · cases start with
      | true =>
        rw [fieldBehind_true_of_isPrefix hpre, fieldBehind_true_of_isPrefix (hiff.mpr hpre),
          List.drop_append_of_le_length hpre.length_le]
        rfl
      | false => rw [List.cons_append, fieldBehind_false_cons, fieldBehind_false_cons, ih]
    · rw [fieldBehind_cons_of_not_isPrefix hpre, ← ih]
      exact fieldBehind_cons_of_not_isPrefix fun h => hpre (hiff.mp h)

theorem isSome_fieldBehind_cons :
    (fieldBehind p pat start (a :: l)).isSome = true ↔
      start = true ∧ pat <+: a :: l ∨ (fieldBehind p pat (p a) l).isSome = true := by
  rw [fieldBehind, ← List.isPrefixOf_iff_prefix, ← Bool.and_eq_true]
  split
  · next h => exact iff_of_true rfl (.inl h)
  · next h => exact (or_iff_right h).symm

theorem isSome_fieldBehind_iff_from (hpat : pat ≠ []) :
    (fieldBehind p pat start l).isSome = true ↔ StartsFieldFrom p pat start l := by
  induction l generalizing start with
  | nil =>
    rw [fieldBehind_nil hpat]
    exact iff_of_false Bool.false_ne_true (not_startsFieldFrom_nil hpat)
  | cons a l ih => rw [isSome_fieldBehind_cons, startsFieldFrom_cons, ih]

/-- **The search finds the pattern if some field starts with it.** -/
theorem isSome_fieldBehind_iff (hpat : pat ≠ []) :
    (fieldBehind p pat true l).isSome = true ↔ StartsField p pat l := by
  rw [isSome_fieldBehind_iff_from hpat, startsFieldFrom_true_iff]

/-- What is found is what the list ends in. -/
theorem exists_of_fieldBehind_eq_some {rest : List α} (h : fieldBehind p pat start l = some rest) :
    ∃ front, l = front ++ pat ++ rest := by
  induction l generalizing start with
  | nil =>
    rw [fieldBehind] at h
    split at h
    · next hnil =>
      rw [Bool.and_eq_true, List.isEmpty_iff] at hnil
      exact ⟨[], by rw [hnil.2, ← Option.some.inj h]; rfl⟩
    · cases h
  | cons a l ih =>
    rw [fieldBehind] at h
    split at h
    · next hpre =>
      rw [Bool.and_eq_true, List.isPrefixOf_iff_prefix] at hpre
      refine ⟨[], ?_⟩
      rw [← Option.some.inj h, List.nil_append]
      exact (List.prefix_iff_eq_append.mp hpre.2).symm
    · obtain ⟨front, hfront⟩ := ih h
      exact ⟨a :: front, by rw [hfront]; rfl⟩

end Oxool
