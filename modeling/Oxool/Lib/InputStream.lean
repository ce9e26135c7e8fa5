import Mathlib.Data.List.Infix
import Mathlib.Data.List.TakeWhile

/-!
# Input streams with state flags

A stream of elements that is read line by line or in blocks, with a flag for its end and one for
failure, in the way of the streams of the C++ library: a read at the end of the stream sets both flags
where it finds nothing, a line that the end cuts short sets one of them, and once a flag is set nothing
more is read. A loop that stops at the end of the stream stops, since failure comes with the end
(`Sound`), and each line read before the end is a step towards it (`left_getline_lt`).
-/

set_option autoImplicit false

namespace Oxool

structure InputStream (α : Type) where
  rest : List α
  eof : Bool
  fail : Bool
deriving DecidableEq

namespace InputStream

variable {α : Type} [DecidableEq α]

/-- A stream before anything is read. -/
def ofList (l : List α) : InputStream α := ⟨l, false, false⟩

/-- The elements up to the delimiter, which is read and not kept, or up to the end. -/
def getline (delim : α) (s : InputStream α) : List α × InputStream α :=
  if s.eof || s.fail then ([], { s with fail := true })
  else if delim ∈ s.rest then
    (s.rest.takeWhile (· ≠ delim), { s with rest := (s.rest.dropWhile (· ≠ delim)).tail })
  else (s.rest, ⟨[], true, s.rest.isEmpty⟩)

omit [DecidableEq α] in
/-- A block of `n` elements, or what is left. -/
def read (n : Nat) (s : InputStream α) : List α × InputStream α :=
  if s.eof || s.fail then ([], { s with fail := true })
  else if n ≤ s.rest.length then (s.rest.take n, { s with rest := s.rest.drop n })
  else (s.rest, ⟨[], true, true⟩)

/-! ## What is there is read -/

theorem getline_line {delim : α} {line : List α} (h : delim ∉ line) (rest : List α) :
    (ofList (line ++ delim :: rest)).getline delim = (line, ofList rest) := by
  have hline : ∀ a ∈ line, decide (a ≠ delim) = true := by
    intro a ha
    rw [decide_eq_true_eq]
    exact fun heq => h (heq ▸ ha)
  have hmem : delim ∈ (ofList (line ++ delim :: rest)).rest := by
    show delim ∈ line ++ delim :: rest
    simp
  rw [getline, if_neg (by simp [ofList]), if_pos hmem]
  show ((line ++ delim :: rest).takeWhile (· ≠ delim),
    ofList ((line ++ delim :: rest).dropWhile (· ≠ delim)).tail) = (line, ofList rest)
  rw [List.takeWhile_append_of_pos hline, List.dropWhile_append_of_pos hline,
    List.takeWhile_cons_of_neg (by simp), List.dropWhile_cons_of_neg (by simp), List.append_nil]
  rfl

omit [DecidableEq α] in
theorem read_block (block rest : List α) :
    (ofList (block ++ rest)).read block.length = (block, ofList rest) := by
  have hle : block.length ≤ (ofList (block ++ rest)).rest.length := by
    show block.length ≤ (block ++ rest).length
    rw [List.length_append]
    exact Nat.le_add_right _ _
  rw [read, if_neg (by simp [ofList]), if_pos hle]
  show ((block ++ rest).take block.length, ofList ((block ++ rest).drop block.length)) = (block, ofList rest)
  rw [List.take_left, List.drop_left]

/-! ## What is read is there -/

/-- Failure comes with the end. -/
def Sound (s : InputStream α) : Prop := s.fail = true → s.eof = true

omit [DecidableEq α] in
theorem sound_ofList (l : List α) : (ofList l).Sound := fun h => h

theorem Sound.getline {s : InputStream α} (h : s.Sound) (delim : α) : (s.getline delim).2.Sound := by
  intro hfail
  rw [InputStream.getline] at hfail ⊢
  split
  · rename_i hflags
    rcases Bool.or_eq_true_iff.mp hflags with heof | hfailed
    · exact heof
    · exact h hfailed
  · rename_i hflags
    rw [if_neg hflags] at hfail
    split
    · rename_i hmem
      rw [if_pos hmem] at hfail
      exact h hfail
    · rfl

omit [DecidableEq α] in
theorem Sound.read {s : InputStream α} (h : s.Sound) (n : Nat) : (s.read n).2.Sound := by
  intro hfail
  rw [InputStream.read] at hfail ⊢
  split
  · rename_i hflags
    rcases Bool.or_eq_true_iff.mp hflags with heof | hfailed
    · exact heof
    · exact h hfailed
  · rename_i hflags
    rw [if_neg hflags] at hfail
    split
    · rename_i hle
      rw [if_pos hle] at hfail
      exact h hfail
    · rfl

theorem getline_suffix (delim : α) (s : InputStream α) : (s.getline delim).2.rest <:+ s.rest := by
  rw [getline]
  split
  · exact List.suffix_refl _
  · split
    · exact (List.tail_suffix _).trans (List.dropWhile_suffix _)
    · exact List.nil_suffix

omit [DecidableEq α] in
theorem read_suffix (n : Nat) (s : InputStream α) : (s.read n).2.rest <:+ s.rest := by
  rw [read]
  split
  · exact List.suffix_refl _
  · split
    · exact List.drop_suffix _ _
    · exact List.nil_suffix

omit [DecidableEq α] in
/-- A block is a part of the stream. -/
theorem read_infix (n : Nat) (s : InputStream α) : (s.read n).1 <:+: s.rest := by
  rw [read]
  split
  · exact List.nil_infix
  · split
    · exact (List.take_prefix _ _).isInfix
    · exact List.infix_refl _

/-! ## Progress -/

/-- What is left to read, the end counted. -/
def left (s : InputStream α) : Nat := if s.eof then 0 else s.rest.length + 1

omit [DecidableEq α] in
theorem left_eof {s : InputStream α} (h : s.eof = true) : s.left = 0 := by
  rw [left, if_pos h]

omit [DecidableEq α] in
theorem left_lt {s t : InputStream α} (hs : s.eof = false) (h : t.rest.length < s.rest.length) :
    t.left < s.left := by
  rw [left, left, hs, if_neg Bool.false_ne_true]
  split
  · exact Nat.succ_pos _
  · exact Nat.succ_lt_succ h

theorem left_getline_le (delim : α) (s : InputStream α) : (s.getline delim).2.left ≤ s.left := by
  cases heof : s.eof with
  | true =>
    have hend : (s.getline delim).2.eof = true := by
      rw [getline, if_pos (by rw [heof]; rfl)]
      exact heof
    rw [left_eof hend]
    exact Nat.zero_le _
  | false =>
    rw [left, left, heof, if_neg Bool.false_ne_true]
    split
    · exact Nat.zero_le _
    · exact Nat.succ_le_succ (getline_suffix delim s).length_le

omit [DecidableEq α] in
theorem left_read_le (n : Nat) (s : InputStream α) : (s.read n).2.left ≤ s.left := by
  cases heof : s.eof with
  | true =>
    have hend : (s.read n).2.eof = true := by
      rw [read, if_pos (by rw [heof]; rfl)]
      exact heof
    rw [left_eof hend]
    exact Nat.zero_le _
  | false =>
    rw [left, left, heof, if_neg Bool.false_ne_true]
    split
    · exact Nat.zero_le _
    · exact Nat.succ_le_succ (read_suffix n s).length_le

/-- **A line is progress**. -/
theorem left_getline_lt {s : InputStream α} (h : s.Sound) (heof : s.eof = false) (delim : α) :
    (s.getline delim).2.left < s.left := by
  have hfail : s.fail = false := by
    cases hf : s.fail with
    | false => rfl
    | true => exact absurd (h hf) (by rw [heof]; exact Bool.false_ne_true)
  rw [getline, if_neg (by simp [heof, hfail])]
  split
  · next hmem =>
    apply left_lt heof
    have hne : s.rest.dropWhile (· ≠ delim) ≠ [] := by
      intro hnil
      rw [List.dropWhile_eq_nil_iff] at hnil
      exact absurd (hnil delim hmem) (by simp)
    have hle := (List.dropWhile_suffix (l := s.rest) fun a => decide (a ≠ delim)).length_le
    show (s.rest.dropWhile (· ≠ delim)).tail.length < s.rest.length
    rw [List.length_tail]
    exact Nat.lt_of_lt_of_le (Nat.sub_lt (List.length_pos_iff.mpr hne) Nat.one_pos) hle
  · rw [left_eof rfl, left, heof]
    exact Nat.succ_pos _

end InputStream

end Oxool
