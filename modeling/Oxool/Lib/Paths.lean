import Mathlib.Data.List.Basic

/-!
# Where a path leads

A path is a list of segments, and following one from a directory ends in a directory or at a file,
each named by the names on the way down to it. The way up stops at the root.

Whatever a path does on its way, it comes to going up a number of times and down a list of names
(`walk`, `follow_eq`). So whether it ends below the directory it started from can be read off these
two: it may go up, if the names that follow are those it went up by (`below_follow_iff`).
-/

set_option autoImplicit false

namespace Oxool.Paths

variable {α : Type}

/-- A segment of a path. -/
inductive Segment (α : Type) where
  | here
  | up
  | down (name : α)
deriving DecidableEq

/-- One step from a directory. -/
def enter (dir : List α) : Segment α → List α
  | .here => dir
  | .up => dir.dropLast
  | .down name => dir ++ [name]

/-- Where the segments lead. -/
def follow (dir : List α) (segments : List (Segment α)) : List α := segments.foldl enter dir

/-- What a path comes to: so many times up, and then down. -/
structure Walk (α : Type) where
  climb : Nat
  names : List α
deriving DecidableEq

namespace Walk

def start : Walk α := ⟨0, []⟩

def step (w : Walk α) : Segment α → Walk α
  | .here => w
  | .up =>
    if w.names.isEmpty then { w with climb := w.climb + 1 }
    else { w with names := w.names.dropLast }
  | .down name => { w with names := w.names ++ [name] }

/-- Where it leads. -/
def fromDir (w : Walk α) (dir : List α) : List α := dir.take (dir.length - w.climb) ++ w.names

end Walk

/-- What the segments come to. -/
def walk (segments : List (Segment α)) : Walk α := segments.foldl Walk.step .start

/-- Somewhere below a directory. -/
def Below (dir place : List α) : Prop := ∃ more, more ≠ [] ∧ place = dir ++ more

theorem follow_append (dir : List α) (l m : List (Segment α)) :
    follow dir (l ++ m) = follow (follow dir l) m := by
  rw [follow, List.foldl_append]
  rfl

namespace Walk

@[simp] theorem fromDir_start (dir : List α) : start.fromDir dir = dir := by
  simp [fromDir, start]

theorem fromDir_step (w : Walk α) (dir : List α) (s : Segment α) :
    (w.step s).fromDir dir = enter (w.fromDir dir) s := by
  cases s with
  | here => rfl
  | down name =>
    show dir.take (dir.length - w.climb) ++ (w.names ++ [name]) = _
    rw [← List.append_assoc]
    rfl
  | up =>
    rw [step, enter]
    split
    · rename_i hnone
      have hnames : w.names = [] := List.isEmpty_iff.mp hnone
      show dir.take (dir.length - (w.climb + 1)) ++ w.names = _
      rw [fromDir, hnames, List.append_nil, List.append_nil, List.dropLast_eq_take, List.take_take,
        List.length_take]
      congr 1
      omega
    · rename_i hsome
      have hnames : w.names ≠ [] := fun h => hsome (List.isEmpty_iff.mpr h)
      show dir.take (dir.length - w.climb) ++ w.names.dropLast = _
      rw [fromDir, List.dropLast_append_of_ne_nil hnames]

end Walk

/-- **A path and what it comes to lead to the same place.** -/
theorem follow_eq (dir : List α) (segments : List (Segment α)) :
    follow dir segments = (walk segments).fromDir dir := by
  have hfold : ∀ w : Walk α, segments.foldl enter (w.fromDir dir) =
      (segments.foldl Walk.step w).fromDir dir := by
    induction segments with
    | nil => exact fun _ => rfl
    | cons s segments ih =>
      intro w
      rw [List.foldl_cons, List.foldl_cons, ← w.fromDir_step dir s]
      exact ih (w.step s)
  have hstart := hfold .start
  rw [Walk.fromDir_start] at hstart
  exact hstart

/-- The names that a path goes down by start with those that it went up by, and go on. -/
def Walk.Returns (w : Walk α) (dir : List α) : Prop := Below (dir.drop (dir.length - w.climb)) w.names

/-- **A path leads below the directory that it starts from exactly when it comes back as far as it
goes up**, and further. -/
theorem below_follow_iff (dir : List α) (segments : List (Segment α)) :
    Below dir (follow dir segments) ↔ (walk segments).Returns dir := by
  rw [follow_eq, Walk.fromDir]
  unfold Walk.Returns Below
  set k := dir.length - (walk segments).climb
  have hdir : dir.take k ++ dir.drop k = dir := List.take_append_drop k dir
  constructor
  · rintro ⟨more, hne, heq⟩
    refine ⟨more, hne, ?_⟩
    apply (List.append_right_inj (dir.take k)).mp
    rw [heq, ← List.append_assoc, hdir]
  · rintro ⟨more, hne, heq⟩
    refine ⟨more, hne, ?_⟩
    rw [heq, ← List.append_assoc, hdir]

theorem below_iff {dir place : List α} :
    Below dir place ↔ dir <+: place ∧ dir.length < place.length := by
  constructor
  · rintro ⟨more, hne, rfl⟩
    have hpos := List.length_pos_iff.mpr hne
    exact ⟨List.prefix_append dir more, by rw [List.length_append]; omega⟩
  · rintro ⟨⟨more, rfl⟩, hlt⟩
    refine ⟨more, ?_, rfl⟩
    rintro rfl
    rw [List.append_nil] at hlt
    exact Nat.lt_irrefl _ hlt

instance [DecidableEq α] (dir place : List α) : Decidable (Below dir place) :=
  decidable_of_iff _ below_iff.symm

instance [DecidableEq α] (w : Walk α) (dir : List α) : Decidable (w.Returns dir) :=
  inferInstanceAs (Decidable (Below _ _))

end Oxool.Paths
