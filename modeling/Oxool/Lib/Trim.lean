import Mathlib.Data.List.DropRight

/-!
# Trimming

What is trimmed has no elements of a kind at its ends; `trim` takes them off. Whatever of that kind
stands before or behind a list does not matter (`trim_append_left`, `trim_append_right`).
-/

set_option autoImplicit false

namespace Oxool

variable {α : Type} {p : α → Bool}

def trim (p : α → Bool) (l : List α) : List α := (l.dropWhile p).rdropWhile p

/-- No such element comes first, and none comes last. -/
structure Trimmed (p : α → Bool) (l : List α) : Prop where
  head : ∀ a, l.head? = some a → p a = false
  last : ∀ a, l.getLast? = some a → p a = false

theorem rdropWhile_append_of_pos {l m : List α} (h : ∀ a ∈ m, p a = true) :
    (l ++ m).rdropWhile p = l.rdropWhile p := by
  rw [List.rdropWhile, List.reverse_append, List.dropWhile_append_of_pos, List.rdropWhile]
  intro a ha
  exact h a (List.mem_reverse.mp ha)

theorem trim_append_left {l m : List α} (h : ∀ a ∈ m, p a = true) : trim p (m ++ l) = trim p l := by
  rw [trim, List.dropWhile_append_of_pos h, trim]

theorem trim_append_right {l m : List α} (h : ∀ a ∈ m, p a = true) :
    trim p (l ++ m) = trim p l := by
  rw [trim, trim, List.dropWhile_append]
  split
  · next hnil =>
    rw [List.isEmpty_iff.mp hnil, List.dropWhile_eq_nil_iff.mpr h]
  · exact rdropWhile_append_of_pos h

theorem rdropWhile_append_of_ne_nil {l m : List α} (h : m.rdropWhile p ≠ []) :
    (l ++ m).rdropWhile p = l ++ m.rdropWhile p := by
  rw [List.rdropWhile, List.reverse_append, List.dropWhile_append]
  split
  · next hnil =>
    rw [List.rdropWhile, List.isEmpty_iff.mp hnil] at h
    exact absurd rfl h
  · rw [List.reverse_append, List.reverse_reverse, List.rdropWhile]

theorem trim_eq_nil_iff {l : List α} : trim p l = [] ↔ ∀ a ∈ l, p a = true := by
  rw [trim, List.rdropWhile_eq_nil_iff]
  constructor
  · intro h a ha
    rw [← List.takeWhile_append_dropWhile (p := p) (l := l)] at ha
    cases List.mem_append.mp ha with
    | inl ha => exact List.mem_takeWhile_imp ha
    | inr ha => exact h a ha
  · intro h a ha
    exact h a ((List.dropWhile_suffix p).subset ha)

/-- Up to the last of what `trim` leaves, from the start. -/
theorem rdropWhile_eq_append_trim {l : List α} (h : trim p l ≠ []) :
    l.rdropWhile p = l.takeWhile p ++ trim p l := by
  conv_lhs => rw [← List.takeWhile_append_dropWhile (p := p) (l := l)]
  exact rdropWhile_append_of_ne_nil h

theorem drop_length_takeWhile (l : List α) : l.drop (l.takeWhile p).length = l.dropWhile p := by
  have h : (l.takeWhile p ++ l.dropWhile p).drop (l.takeWhile p).length = l.dropWhile p := List.drop_append_length
  rwa [List.takeWhile_append_dropWhile] at h

theorem takeWhile_bne_of_notMem [BEq α] [LawfulBEq α] {l : List α} {c : α} (h : c ∉ l) :
    l.takeWhile (· != c) = l := by
  rw [List.takeWhile_eq_self_iff]
  intro a ha
  rw [bne_iff_ne]
  intro heq
  rw [heq] at ha
  exact h ha

theorem head?_dropWhile {l : List α} {a : α} (h : (l.dropWhile p).head? = some a) :
    p a = false := by
  induction l with
  | nil => cases h
  | cons b l ih =>
    cases hb : p b with
    | true =>
      rw [List.dropWhile_cons_of_pos hb] at h
      exact ih h
    | false =>
      rw [List.dropWhile_cons_of_neg (Bool.eq_false_iff.mp hb), List.head?_cons,
        Option.some.injEq] at h
      rw [← h]
      exact hb

theorem getLast?_rdropWhile {l : List α} {a : α} (h : (l.rdropWhile p).getLast? = some a) :
    p a = false := by
  rw [List.rdropWhile, List.getLast?_reverse] at h
  exact head?_dropWhile h

theorem head?_of_isPrefix {l m : List α} {a : α} (h : l <+: m) (ha : l.head? = some a) :
    m.head? = some a := by
  obtain ⟨more, rfl⟩ := h
  rw [List.head?_append, ha]
  rfl

theorem trimmed_trim (l : List α) : Trimmed p (trim p l) where
  head := fun _ ha => head?_dropWhile (head?_of_isPrefix (List.rdropWhile_prefix _ _) ha)
  last := fun _ ha => getLast?_rdropWhile ha

theorem Trimmed.dropWhile_eq {l : List α} (h : Trimmed p l) : l.dropWhile p = l := by
  cases l with
  | nil => rfl
  | cons a l => rw [List.dropWhile_cons_of_neg (Bool.eq_false_iff.mp (h.head a rfl))]

theorem rdropWhile_eq_self {l : List α} (h : ∀ a, l.getLast? = some a → p a = false) :
    l.rdropWhile p = l := by
  rw [List.rdropWhile_eq_self_iff]
  intro hne
  rw [h _ (List.getLast?_eq_some_getLast hne)]
  exact Bool.false_ne_true

theorem Trimmed.trim_eq {l : List α} (h : Trimmed p l) : trim p l = l := by
  rw [trim, h.dropWhile_eq, rdropWhile_eq_self h.last]

/-- What is trimmed off. -/
theorem exists_trim (l : List α) :
    ∃ front back, l = front ++ trim p l ++ back ∧ (∀ a ∈ front, p a = true) ∧
    ∀ a ∈ back, p a = true := by
  refine ⟨l.takeWhile p, (l.dropWhile p).rtakeWhile p, ?_, fun a => List.mem_takeWhile_imp,
    fun a => List.mem_rtakeWhile_imp⟩
  rw [trim, List.append_assoc, List.rdropWhile_append_rtakeWhile, List.takeWhile_append_dropWhile]

theorem mem_of_mem_trim {l : List α} {a : α} (h : a ∈ trim p l) : a ∈ l := by
  obtain ⟨front, back, hl, -, -⟩ := exists_trim (p := p) l
  rw [hl]
  exact List.mem_append_left _ (List.mem_append_right _ h)

end Oxool
