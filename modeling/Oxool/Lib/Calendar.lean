import Mathlib.Algebra.GroupWithZero.Nat
import Mathlib.Data.List.Basic

/-!
# The Gregorian calendar

Dates and the days since the first of January of the year 0. `ofDays` counts off years and then
months; `toDays_ofDays` says that it finds the date of each day.
-/

set_option autoImplicit false

namespace Oxool.Calendar

def isLeap (year : Nat) : Bool := year % 4 = 0 ∧ (year % 100 ≠ 0 ∨ year % 400 = 0)

def yearLength (year : Nat) : Nat := if isLeap year then 366 else 365

def monthLengths (year : Nat) : List Nat :=
  [31, if isLeap year then 29 else 28, 31, 30, 31, 30, 31, 31, 30, 31, 30, 31]

/-- The days of the years before a year, which has a leap day for each leap year before it. -/
def daysBeforeYear (year : Nat) : Nat :=
  365 * year + (year + 3) / 4 - (year + 99) / 100 + (year + 399) / 400

/-- A date, with months and days from 0 on. -/
structure Date where
  year : Nat
  month : Nat
  day : Nat

def Date.toDays (d : Date) : Nat :=
  daysBeforeYear d.year + ((monthLengths d.year).take d.month).sum + d.day

/-- Day `n` of some stretches: which one it is in, counted from `i`, and its day there. -/
def locate : List Nat → Nat → Nat → Nat × Nat
  | [], i, n => (i, n)
  | length :: lengths, i, n => if n < length then (i, n) else locate lengths (i + 1) (n - length)

/-- The year that day `n` from the start of `year` on is in, and the day in it. -/
def locateYear : Nat → Nat → Nat → Nat × Nat
  | 0, year, n => (year, n)
  | fuel + 1, year, n =>
    if n < yearLength year then (year, n) else locateYear fuel (year + 1) (n - yearLength year)

def ofDays (n : Nat) : Date :=
  let year := locateYear n 0 n
  let month := locate (monthLengths year.1) 0 year.2
  ⟨year.1, month.1, month.2⟩

/-- One more of the years is a multiple of `k`, or none. -/
theorem multiples_succ (k year : Nat) :
    (year + 1 + k) / (k + 1) = (year + k) / (k + 1) + if year % (k + 1) = 0 then 1 else 0 := by
  rw [Nat.add_right_comm, Nat.succ_div]
  congr 1
  have hdvd : k + 1 ∣ year + k + 1 ↔ year % (k + 1) = 0 := by
    rw [Nat.add_assoc, Nat.dvd_add_left (Nat.dvd_refl _), Nat.dvd_iff_mod_eq_zero]
  simp only [hdvd]

theorem daysBeforeYear_succ (year : Nat) :
    daysBeforeYear (year + 1) = daysBeforeYear year + yearLength year := by
  have hless : (year + 99) / 100 ≤ 365 * year := by omega
  have h4 : (year + 1 + 3) / 4 = (year + 3) / 4 + if year % 4 = 0 then 1 else 0 :=
    multiples_succ 3 year
  have h100 : (year + 1 + 99) / 100 = (year + 99) / 100 + if year % 100 = 0 then 1 else 0 :=
    multiples_succ 99 year
  have h400 : (year + 1 + 399) / 400 = (year + 399) / 400 + if year % 400 = 0 then 1 else 0 :=
    multiples_succ 399 year
  have hleap : isLeap year = decide (year % 4 = 0 ∧ (year % 100 ≠ 0 ∨ year % 400 = 0)) := rfl
  have h4' : year % 100 = 0 → year % 4 = 0 := by omega
  have h100' : year % 400 = 0 → year % 100 = 0 := by omega
  rw [daysBeforeYear, daysBeforeYear, yearLength, h4, h100, h400, hleap]
  generalize (year + 3) / 4 = a, (year + 99) / 100 = b, (year + 399) / 400 = c at hless
  by_cases hc : year % 400 = 0
  · rw [if_pos hc, if_pos (h100' hc), if_pos (h4' (h100' hc)),
      if_pos (decide_eq_true ⟨h4' (h100' hc), .inr hc⟩)]
    omega
  · by_cases hb : year % 100 = 0
    · rw [if_neg hc, if_pos hb, if_pos (h4' hb), 
        if_neg fun h => (of_decide_eq_true h).2.elim (fun h => h hb) hc]
      omega
    · by_cases ha : year % 4 = 0
      · rw [if_neg hc, if_neg hb, if_pos ha, if_pos (decide_eq_true ⟨ha, .inl hb⟩)]
        omega
      · rw [if_neg hc, if_neg hb, if_neg ha, if_neg fun h => ha (of_decide_eq_true h).1]
        omega

theorem sum_monthLengths (year : Nat) : (monthLengths year).sum = yearLength year := by
  rw [monthLengths, yearLength]
  cases isLeap year <;> rfl

theorem yearLength_pos (year : Nat) : 0 < yearLength year := by
  rw [yearLength]
  split <;> decide

theorem le_daysBeforeYear (year : Nat) : 365 * year ≤ daysBeforeYear year := by
  rw [daysBeforeYear]
  omega

theorem locateYear_spec (fuel year n : Nat) (hfuel : n ≤ fuel) :
    daysBeforeYear (locateYear fuel year n).1 + (locateYear fuel year n).2 = daysBeforeYear year + n ∧
      (locateYear fuel year n).2 < yearLength (locateYear fuel year n).1 := by
  induction fuel generalizing year n with
  | zero =>
    obtain rfl := Nat.le_zero.mp hfuel
    exact ⟨rfl, yearLength_pos year⟩
  | succ fuel ih =>
    rw [locateYear]
    split
    · next hlt => exact ⟨rfl, hlt⟩
    · next hge =>
      have hpos := yearLength_pos year
      obtain ⟨hdays, hlt⟩ := ih (year + 1) (n - yearLength year) (by omega)
      refine ⟨?_, hlt⟩
      rw [hdays, daysBeforeYear_succ]
      omega

/-- A day of the stretches is in one of them, behind those before it. -/
theorem locate_spec (lengths : List Nat) (i n : Nat) (hn : n < lengths.sum) :
    ∃ k length, lengths[k]? = some length ∧ (locate lengths i n).1 = i + k ∧ (locate lengths i n).2 < length ∧
      (lengths.take k).sum + (locate lengths i n).2 = n := by
  induction lengths generalizing i n with
  | nil => exact absurd hn (Nat.not_lt_zero n)
  | cons length lengths ih =>
    rw [locate]
    split
    · next hlt => exact ⟨0, length, rfl, rfl, hlt, Nat.zero_add n⟩
    · next hge =>
      rw [List.sum_cons] at hn
      obtain ⟨k, length', hk, hindex, hlt, hsum⟩ := ih (i + 1) (n - length) (by omega)
      refine ⟨k + 1, length', hk, by omega, hlt, ?_⟩
      rw [List.take_succ_cons, List.sum_cons]
      omega

theorem monthLength_le {year k length : Nat} (h : (monthLengths year)[k]? = some length) :
    k < 12 ∧ length ≤ 31 := by
  have hk : k < 12 := (List.getElem?_eq_some_iff.mp h).1
  refine ⟨hk, ?_⟩
  have hall : ∀ leap : Bool, ∀ length ∈ [31, if leap then 29 else 28, 31, 30, 31, 30, 31, 31, 30, 31, 30, 31],
      length ≤ 31 := by decide
  exact hall (isLeap year) length (List.mem_of_getElem? h)

theorem ofDays_spec (n : Nat) :
    (ofDays n).toDays = n ∧ (ofDays n).month < 12 ∧ (ofDays n).day < 31 := by
  obtain ⟨hyear, hlt⟩ := locateYear_spec n 0 n (Nat.le_refl n)
  rw [← sum_monthLengths] at hlt
  obtain ⟨k, length, hk, hindex, hday, hsum⟩ := locate_spec _ 0 _ hlt
  obtain ⟨hk12, hlength⟩ := monthLength_le hk
  rw [Nat.zero_add] at hindex
  refine ⟨?_, by rw [ofDays, hindex]; exact hk12, by rw [ofDays]; exact Nat.lt_of_lt_of_le hday hlength⟩
  rw [Date.toDays, ofDays, hindex, Nat.add_assoc, hsum, hyear]
  exact Nat.zero_add n

/-- **The date of a day is the date of that day.** -/
theorem toDays_ofDays (n : Nat) : (ofDays n).toDays = n := (ofDays_spec n).1

theorem year_le (n : Nat) : 365 * (ofDays n).year ≤ n := by
  have hyear := le_daysBeforeYear (ofDays n).year
  have hdays := toDays_ofDays n
  rw [Date.toDays] at hdays
  omega

end Oxool.Calendar
