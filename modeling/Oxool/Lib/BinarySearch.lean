import Mathlib.Order.Basic

/-!
# Binary search by a direction

A search among the places below `n` that asks at each place it looks at where to go on: `eq` is a
match, `lt` and `gt` send it to the lower and to the upper half. The two ends are looked at before
anything else. Where the directions are those of a sorted list, the search finds the match
(`binarySearch_eq_some`), or that there is none (`binarySearch_eq_none`).
-/

set_option autoImplicit false

namespace Oxool

section BinarySearch

variable (dir : Nat → Ordering)

/-- The loop, between `start` and the place before `stop`. -/
def bisect : Nat → Nat → Nat → Option Nat
  | 0, _, _ => none
  | fuel + 1, start, stop =>
    if start < stop then
      match dir ((start + stop) / 2) with
      | .eq => some ((start + stop) / 2)
      | .lt => bisect fuel start ((start + stop) / 2)
      | .gt => bisect fuel ((start + stop) / 2 + 1) stop
    else none

/-- The first of the matches that end at a place. -/
def findFirstMatch : Nat → Nat
  | 0 => 0
  | k + 1 => if dir k = .eq then findFirstMatch k else k + 1

def binarySearch (n : Nat) (firstMatch : Bool) : Option Nat :=
  if n = 0 then none
  else
    match dir 0 with
    | .eq => some 0
    | .lt => none
    | .gt =>
      match dir (n - 1) with
      | .gt => none
      | .eq => some (if firstMatch then findFirstMatch dir (n - 1) else n - 1)
      | .lt => (bisect dir n 0 n).map fun mid => if firstMatch then findFirstMatch dir mid else mid

/-- The one match among the places below `n`: the search is sent up before it and down behind it. -/
structure IsMatch (n k : Nat) : Prop where
  lt : k < n
  found : dir k = .eq
  before : ∀ i < k, dir i = .gt
  behind : ∀ i, k < i → i < n → dir i = .lt

variable {dir} {n k : Nat}

theorem bisect_eq_some (h : IsMatch dir n k) {fuel start stop : Nat} (hstart : start ≤ k)
    (hk : k < stop) (hstop : stop ≤ n) (hfuel : stop - start ≤ fuel) :
    bisect dir fuel start stop = some k := by
  induction fuel generalizing start stop with
  | zero => omega
  | succ fuel ih =>
    rw [bisect, if_pos (by omega)]
    rcases Nat.lt_trichotomy ((start + stop) / 2) k with hlt | heq | hgt
    · rw [h.before _ hlt]
      exact ih (by omega) hk hstop (by omega)
    · rw [heq, h.found]
    · rw [h.behind _ hgt (by omega)]
      exact ih hstart hgt (by omega) (by omega)

theorem findFirstMatch_eq (h : IsMatch dir n k) : findFirstMatch dir k = k := by
  cases k with
  | zero => rfl
  | succ k =>
    have hne : dir k ≠ .eq := by
      rw [h.before k (Nat.lt_succ_self k)]
      decide
    rw [findFirstMatch, if_neg hne]

/-- **The search finds the match.** -/
theorem binarySearch_eq_some (h : IsMatch dir n k) (firstMatch : Bool) :
    binarySearch dir n firstMatch = some k := by
  have hlt := h.lt
  rw [binarySearch, if_neg (by omega)]
  rcases Nat.eq_zero_or_pos k with rfl | hpos
  · rw [h.found]
  · rw [h.before 0 hpos]
    dsimp only
    rcases Nat.lt_or_ge k (n - 1) with hbehind | hlast
    · rw [h.behind (n - 1) hbehind (by omega)]
      dsimp only
      rw [bisect_eq_some h (Nat.zero_le k) hlt (Nat.le_refl n) (Nat.sub_le n 0), Option.map_some,
        findFirstMatch_eq h, ite_self]
    · obtain rfl : k = n - 1 := by omega
      rw [h.found]
      dsimp only
      rw [findFirstMatch_eq h, ite_self]

theorem bisect_eq_none (hbelow : ∀ i < k, dir i = .gt) (habove : ∀ i, k ≤ i → i < n → dir i = .lt)
    (fuel start stop : Nat) (hstop : stop ≤ n) : bisect dir fuel start stop = none := by
  induction fuel generalizing start stop with
  | zero => rfl
  | succ fuel ih =>
    rw [bisect]
    split
    · rename_i hlt
      rcases Nat.lt_or_ge ((start + stop) / 2) k with hmid | hmid
      · rw [hbelow _ hmid]
        exact ih _ _ hstop
      · rw [habove _ hmid (by omega)]
        exact ih _ _ (by omega)
    · rfl

/-- **The search finds that there is none**, where it is sent up before place `k` and down from
there on. -/
theorem binarySearch_eq_none (hbelow : ∀ i < k, dir i = .gt)
    (habove : ∀ i, k ≤ i → i < n → dir i = .lt) (firstMatch : Bool) :
    binarySearch dir n firstMatch = none := by
  rw [binarySearch]
  split
  · rfl
  · rename_i hn
    rcases Nat.eq_zero_or_pos k with rfl | hpos
    · rw [habove 0 (Nat.le_refl 0) (by omega)]
    · rw [hbelow 0 hpos]
      dsimp only
      rcases Nat.lt_or_ge (n - 1) k with hlast | hlast
      · rw [hbelow _ hlast]
      · rw [habove _ hlast (by omega)]
        dsimp only
        rw [bisect_eq_none hbelow habove _ _ _ (Nat.le_refl n), Option.map_none]

/-- The loop between `start` and the place before `stop` ends, with a result: what it does in a
round, and how it ends from there. -/
inductive Bisects (dir : Nat → Ordering) : Nat → Nat → Option Nat → Prop where
  | over {start stop : Nat} (h : ¬ start < stop) : Bisects dir start stop none
  | found {start stop : Nat} (h : start < stop) (hdir : dir ((start + stop) / 2) = .eq) :
    Bisects dir start stop (some ((start + stop) / 2))
  | lower {start stop : Nat} {r : Option Nat} (h : start < stop) (hdir : dir ((start + stop) / 2) = .lt)
    (hrest : Bisects dir start ((start + stop) / 2) r) : Bisects dir start stop r
  | upper {start stop : Nat} {r : Option Nat} (h : start < stop) (hdir : dir ((start + stop) / 2) = .gt)
    (hrest : Bisects dir ((start + stop) / 2 + 1) stop r) : Bisects dir start stop r

/-- **The loop ends**, after no more rounds than there are places. -/
theorem bisects_bisect {fuel start stop : Nat} (hfuel : stop - start ≤ fuel) :
    Bisects dir start stop (bisect dir fuel start stop) := by
  induction fuel generalizing start stop with
  | zero => exact .over (by omega)
  | succ fuel ih =>
    rw [bisect]
    split
    · next h =>
      cases hdir : dir ((start + stop) / 2) with
      | eq => exact .found h hdir
      | lt => exact .lower h hdir (ih (by omega))
      | gt => exact .upper h hdir (ih (by omega))
    · next h => exact .over h

/-! ## Ranges -/

/-- Ranges from `lo` to `hi`, each of which goes on where the one before it ends. A range may be
empty. -/
structure Contiguous (lo hi : Nat → Int) (n : Nat) : Prop where
  next : ∀ j, j + 1 < n → lo (j + 1) = hi j + 1
  ordered : ∀ j < n, lo j ≤ hi j + 1

section
variable {lo hi : Nat → Int} {key : Int}

theorem Contiguous.lo_le (h : Contiguous lo hi n) {i j : Nat} (hij : i ≤ j) (hj : j < n) :
    lo i ≤ lo j := by
  induction j with
  | zero =>
    obtain rfl := Nat.le_zero.mp hij
    exact Int.le_refl _
  | succ j ih =>
    rcases Nat.lt_or_eq_of_le hij with hlt | rfl
    · have hle := ih (Nat.le_of_lt_succ hlt) (Nat.lt_of_succ_lt hj)
      have hordered := h.ordered j (Nat.lt_of_succ_lt hj)
      rw [h.next j hj]
      omega
    · exact Int.le_refl _

/-- A range ends before the later ones start. -/
theorem Contiguous.hi_lt (h : Contiguous lo hi n) {i j : Nat} (hij : i < j) (hj : j < n) :
    hi i < lo j := by
  have hle := h.lo_le hij hj
  rw [h.next i (by omega)] at hle
  omega

variable (h : Contiguous lo hi n)
  (hdir : ∀ j < n, dir j = if key < lo j then .lt else if hi j < key then .gt else .eq)

include h hdir

theorem Contiguous.isMatch (hk : k < n) (hlo : lo k ≤ key) (hhi : key ≤ hi k) :
    IsMatch dir n k where
  lt := hk
  found := by rw [hdir k hk, if_neg (by omega), if_neg (by omega)]
  before := by
    intro i hi'
    have hlt := h.hi_lt hi' hk
    have hle := h.lo_le (Nat.le_of_lt hi') hk
    rw [hdir i (by omega), if_neg (by omega), if_pos (by omega)]
  behind := by
    intro i hi' hin
    have hlt := h.hi_lt hi' hin
    rw [hdir i hin, if_pos (by omega)]

/-- Where no range has the key, the search is sent up and then down, or up or down from all. -/
theorem Contiguous.binarySearch_eq_none (hnone : ∀ k < n, ¬ (lo k ≤ key ∧ key ≤ hi k))
    (firstMatch : Bool) :
    binarySearch dir n firstMatch = none := by
  -- the places before the first one that starts behind the key
  rcases Nat.eq_zero_or_pos n with rfl | hn
  · rfl
  · by_cases hlow : key < lo 0
    · apply Oxool.binarySearch_eq_none (k := 0)
      · intro i hi'
        exact absurd hi' (Nat.not_lt_zero i)
      · intro i _ hin
        have hle := h.lo_le (Nat.zero_le i) hin
        rw [hdir i hin, if_pos (by omega)]
    · have habove : ∀ j < n, lo j ≤ key ∧ hi j < key := by
        intro j hj
        induction j with
        | zero =>
          have hkey := hnone 0 hj
          omega
        | succ j ih =>
          have hprev := ih (Nat.lt_of_succ_lt hj)
          have hnext := h.next j hj
          have hkey := hnone (j + 1) hj
          omega
      apply Oxool.binarySearch_eq_none (k := n)
      · intro i hi'
        have hkey := habove i hi'
        rw [hdir i hi', if_neg (by omega), if_pos hkey.2]
      · intro i hni hin
        omega

/-- **The search finds the range that has the key**, or that there is none. -/
theorem Contiguous.binarySearch_eq_some_iff (firstMatch : Bool) (k : Nat) :
    binarySearch dir n firstMatch = some k ↔ k < n ∧ lo k ≤ key ∧ key ≤ hi k := by
  constructor
  · intro hfound
    by_cases hsome : ∃ k < n, lo k ≤ key ∧ key ≤ hi k
    · obtain ⟨k', hk', hlo, hhi⟩ := hsome
      rw [binarySearch_eq_some (h.isMatch hdir hk' hlo hhi), Option.some.injEq] at hfound
      rw [← hfound]
      exact ⟨hk', hlo, hhi⟩
    · have hnone : ∀ k < n, ¬ (lo k ≤ key ∧ key ≤ hi k) := fun k hk hhas => hsome ⟨k, hk, hhas⟩
      rw [h.binarySearch_eq_none hdir hnone] at hfound
      cases hfound
  · rintro ⟨hk, hlo, hhi⟩
    exact binarySearch_eq_some (h.isMatch hdir hk hlo hhi) firstMatch

end

end BinarySearch

end Oxool
