import Mathlib.Data.List.TakeWhile

/-!
# The runs between separators

A list is cut at the entries that a predicate holds of. Its runs are the longest pieces without such
an entry, given by where they start and stop. They are what is found when the list is read once from
left to right, with the place in mind at which the piece that is read has started (`mem_runs_iff`).
-/

set_option autoImplicit false

namespace Oxool

/-- The entries from `start` up to the one before `stop`. -/
structure Run where
  start : Nat
  stop : Nat
deriving DecidableEq

def Run.text {α : Type} (data : List α) (r : Run) :
    List α := (data.drop r.start).take (r.stop - r.start)

section Runs

variable {α : Type} (p : α → Bool)

/-- The piece that has been read, unless it is empty. -/
def close (start stop : Nat) : List Run := if start = stop then [] else [⟨start, stop⟩]

/-- The runs, where the piece that is read has started at `start` and what follows it is at
`stop`. -/
def runs : Nat → Nat → List α → List Run
  | start, stop, [] => close start stop
  | start, stop, a :: l =>
    if p a then close start stop ++ runs (stop + 1) (stop + 1) l else runs start (stop + 1) l

/-- There is a separator at place `i`. -/
def SepAt (data : List α) (i : Nat) : Prop := ∃ a, data[i]? = some a ∧ p a = true

/-- A longest piece, of at least one entry, without a separator. -/
structure IsRun (data : List α) (r : Run) : Prop where
  nonempty : r.start < r.stop
  inside : r.stop ≤ data.length
  free : ∀ i, r.start ≤ i → i < r.stop → ¬ SepAt p data i
  before : r.start = 0 ∨ SepAt p data (r.start - 1)
  behind : r.stop = data.length ∨ SepAt p data r.stop

/-- The piece that is read: it goes back as far as it can, and `rest` is behind it. -/
structure Reading (data : List α) (start stop : Nat) (rest : List α) : Prop where
  drop : data.drop stop = rest
  le : start ≤ stop
  inside : stop ≤ data.length
  free : ∀ i, start ≤ i → i < stop → ¬ SepAt p data i
  before : start = 0 ∨ SepAt p data (start - 1)

variable {p} {data : List α} {start stop : Nat} {rest : List α}

theorem Reading.first (data : List α) : Reading p data 0 0 data where
  drop := rfl
  le := Nat.le_refl 0
  inside := Nat.zero_le _
  free := fun _ _ hi => absurd hi (Nat.not_lt_zero _)
  before := .inl rfl

theorem Reading.get {a : α} {l : List α} (h : Reading p data start stop (a :: l)) :
    data[stop]? = some a := by
  rw [← List.head?_drop, h.drop]
  rfl

theorem Reading.drop_succ {a : α} {l : List α} (h : Reading p data start stop (a :: l)) :
    data.drop (stop + 1) = l := by
  rw [← List.drop_drop, h.drop]
  rfl

theorem Reading.lt {a : α} {l : List α} (h : Reading p data start stop (a :: l)) :
    stop < data.length :=
  (List.getElem?_eq_some_iff.mp h.get).1

theorem Reading.sepAt {a : α} {l : List α} (h : Reading p data start stop (a :: l)) :
    SepAt p data stop ↔ p a = true := by
  rw [SepAt, h.get]
  simp

/-- An entry that is no separator is read into the piece. -/
theorem Reading.more {a : α} {l : List α} (h : Reading p data start stop (a :: l))
    (ha : ¬ p a = true) :
    Reading p data start (stop + 1) l where
  drop := h.drop_succ
  le := Nat.le_succ_of_le h.le
  inside := h.lt
  free := by
    intro i hle hlt
    rcases Nat.lt_succ_iff_lt_or_eq.mp hlt with hlt | rfl
    · exact h.free i hle hlt
    · exact fun hsep => ha (h.sepAt.mp hsep)
  before := h.before

/-- Behind a separator a new piece is read. -/
theorem Reading.again {a : α} {l : List α} (h : Reading p data start stop (a :: l))
    (ha : p a = true) :
    Reading p data (stop + 1) (stop + 1) l where
  drop := h.drop_succ
  le := Nat.le_refl _
  inside := h.lt
  free := fun _ hle hlt => absurd hlt (Nat.not_lt_of_le hle)
  before := .inr (h.sepAt.mpr ha)

theorem Reading.end_eq (h : Reading p data start stop []) : stop = data.length :=
  Nat.le_antisymm h.inside (List.drop_eq_nil_iff.mp h.drop)

/-- A run that starts in the piece that is read starts where the piece does. -/
theorem Reading.start_eq (h : Reading p data start stop rest) {r : Run} (hr : IsRun p data r)
    (hle : start ≤ r.start) (hlast : r.start ≤ stop) : r.start = start := by
  rcases Nat.eq_or_lt_of_le hle with heq | hgt
  · exact heq.symm
  · rcases hr.before with hzero | hsep
    · omega
    · exact absurd hsep (h.free (r.start - 1) (by omega) (by omega))

theorem mem_close {r : Run} : r ∈ close start stop ↔ start ≠ stop ∧ r = ⟨start, stop⟩ := by
  rw [close]
  split
  · next heq => simp [heq]
  · next hne => simp [hne]

/-- What is closed is a run, and the only one in the piece. -/
theorem Reading.mem_close_iff (h : Reading p data start stop rest)
    (hend : stop = data.length ∨ SepAt p data stop) {r : Run} :
    r ∈ close start stop ↔ IsRun p data r ∧ start ≤ r.start ∧ r.start ≤ stop := by
  rw [mem_close]
  have hle := h.le
  constructor
  · intro hr
    obtain ⟨hne, rfl⟩ := hr
    refine ⟨⟨?_, h.inside, h.free, h.before, hend⟩, Nat.le_refl _, hle⟩
    exact Nat.lt_of_le_of_ne hle hne
  · intro hr
    obtain ⟨hrun, hge, hlast⟩ := hr
    have hnonempty := hrun.nonempty
    have hinside := hrun.inside
    -- a run does not start at a separator, nor at the end
    have hstart : ¬ r.start = stop := by
      intro heq
      rcases hend with hlen | hsep
      · omega
      · rw [← heq] at hsep
        exact hrun.free r.start (Nat.le_refl _) hnonempty hsep
    have hfirst := h.start_eq hrun hge hlast
    have hstop : r.stop = stop := by
      rcases Nat.lt_trichotomy r.stop stop with hlt | heq | hgt
      · rcases hrun.behind with hlen | hsep
        · have := h.inside
          omega
        · exact absurd hsep (h.free r.stop (by omega) hlt)
      · exact heq
      · rcases hend with hlen | hsep
        · omega
        · exact absurd hsep (hrun.free stop (by omega) hgt)
    refine ⟨by omega, ?_⟩
    rw [← hfirst, ← hstop]

/-- **The runs are read**, those that start in the piece or behind it. -/
theorem Reading.mem_runs_iff (h : Reading p data start stop rest) {r : Run} :
    r ∈ runs p start stop rest ↔ IsRun p data r ∧ start ≤ r.start := by
  induction rest generalizing start stop with
  | nil =>
    rw [runs, h.mem_close_iff (.inl h.end_eq)]
    constructor
    · intro hr
      exact ⟨hr.1, hr.2.1⟩
    · intro hr
      have hnonempty := hr.1.nonempty
      have hinside := hr.1.inside
      have hend := h.end_eq
      exact ⟨hr.1, hr.2, by omega⟩
  | cons a l ih =>
    rw [runs]
    split
    · next ha =>
      rw [List.mem_append, h.mem_close_iff (.inr (h.sepAt.mpr ha)), ih (h.again ha)]
      have hle := h.le
      constructor
      · intro hr
        rcases hr with hr | hr
        · exact ⟨hr.1, hr.2.1⟩
        · exact ⟨hr.1, by omega⟩
      · intro hr
        rcases Nat.lt_or_ge stop r.start with hgt | hlast
        · exact .inr ⟨hr.1, hgt⟩
        · exact .inl ⟨hr.1, hr.2, hlast⟩
    · next ha => exact ih (h.more ha)

theorem mem_runs_iff {r : Run} : r ∈ runs p 0 0 data ↔ IsRun p data r := by
  rw [(Reading.first data).mem_runs_iff]
  simp

/-- Each run stops before the next one starts. -/
theorem Reading.pairwise_runs (h : Reading p data start stop rest) :
    (runs p start stop rest).Pairwise fun r r' => r.stop < r'.start := by
  have hclose : ∀ start stop : Nat, (close start stop).Pairwise fun r r' => r.stop < r'.start := by
    intro start stop
    rw [close]
    split
    · exact .nil
    · exact List.pairwise_singleton _ _
  induction rest generalizing start stop with
  | nil => exact hclose start stop
  | cons a l ih =>
    rw [runs]
    split
    · next ha =>
      rw [List.pairwise_append]
      refine ⟨hclose start stop, ih (h.again ha), ?_⟩
      intro r hr r' hr'
      obtain ⟨-, rfl⟩ := mem_close.mp hr
      exact (((h.again ha).mem_runs_iff).mp hr').2
    · next ha => exact ih (h.more ha)

end Runs

end Oxool
