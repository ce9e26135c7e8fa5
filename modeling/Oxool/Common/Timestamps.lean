import Oxool.Common.Protocol
import Oxool.Lib.Calendar
import Oxool.Lib.Trim

/-!
# Timestamps of a storage (`common/Util.cpp`)

A storage says when a file was last modified in the form of ISO 8601, with as many digits of a
second as it likes. `iso8601ToTimestamp` reads them as one integer and divides it by a power of ten,
in 64 bits. What `getIso8601FracformatTime` writes is read back, and so is what has few digits. From
eleven digits on the product with the period of the clock may wrap around, from twenty on the power
of ten does, and at 64 it is 0 (`timestamps_exact`).
-/

set_option autoImplicit false

namespace Oxool.Timestamps

open Oxool.Http (Bytes ascii isDigit)
open Oxool.Protocol (isSpace splitSign digitsValue decimal)

/-! ## The C library -/

/-- `struct tm`, with the year from 0 on and the month from January on. -/
structure Tm where
  year : Nat
  mon : Nat
  mday : Nat
  hour : Nat
  min : Nat
  sec : Nat
  deriving DecidableEq

/-- The first of January 1970, in days from the year 0 on. -/
def epoch : Nat := 719528

/-- `gmtime_r`, for times from the year 0 on. -/
def gmtimeR (time : Int) : Tm :=
  let date := Calendar.ofDays (time / 86400 + epoch).toNat
  let rem := (time % 86400).toNat
  ⟨date.year, date.month, date.day + 1, rem / 3600, rem / 60 % 60, rem % 60⟩

/-- `timegm`. -/
def timegm (tm : Tm) : Int :=
  ((Calendar.Date.toDays ⟨tm.year, tm.mon, tm.mday - 1⟩ : Int) - epoch) * 86400 + tm.hour * 3600 + tm.min * 60 + tm.sec

/-- A number that is filled up with zeros in front. -/
def setw (width : Nat) (number : Bytes) : Bytes :=
  List.replicate (width - number.length) 48 ++ number

/-- `strftime`, to the format `%FT%T.`. -/
def strftime (tm : Tm) : Bytes :=
  decimal tm.year ++ ascii "-" ++ setw 2 (decimal ↑(tm.mon + 1)) ++ ascii "-" ++ setw 2 (decimal tm.mday) ++
    ascii "T" ++ setw 2 (decimal tm.hour) ++ ascii ":" ++ setw 2 (decimal tm.min) ++ ascii ":" ++
    setw 2 (decimal tm.sec) ++ ascii "."

/-- The loop over the digits of a number of `strptime`. -/
def getDigits (hi : Nat) : Nat → Nat → Bytes → Nat × Bytes
  | n + 1, val, b :: s =>
    if isDigit b ∧ val * 10 ≤ hi then getDigits hi n (val * 10 + (b.toNat - 48)) s else (val, b :: s)
  | _, val, s => (val, s)

/-- A number of `strptime`, of at most `n` digits. -/
def getNumber (lo hi n : Nat) (s : Bytes) : Option (Nat × Bytes) :=
  let s := s.dropWhile isSpace
  if (s.head?.map isDigit).getD false then
    let (val, rest) := getDigits hi n 0 s
    if val < lo ∨ hi < val then none else some (val, rest)
  else none

/-- A byte that stands for itself in the format. -/
def getByte (c : UInt8) (s : Bytes) : Option Bytes :=
  if s.head? = some c then some (s.drop 1) else none

/-- `strptime`, by the format `%Y-%m-%dT%H:%M:%S`: the time, and what is left. -/
def strptime (s : Bytes) : Option (Tm × Bytes) := do
  let (year, s) ← getNumber 0 9999 4 s
  let s ← getByte 45 s
  let (mon, s) ← getNumber 1 12 2 s
  let s ← getByte 45 s
  let (mday, s) ← getNumber 1 31 2 s
  let s ← getByte 84 s
  let (hour, s) ← getNumber 0 23 2 s
  let s ← getByte 58 s
  let (min, s) ← getNumber 0 59 2 s
  let s ← getByte 58 s
  let (sec, s) ← getNumber 0 61 2 s
  return (⟨year, mon - 1, mday, hour, min, sec⟩, s)

/-- `strtoul`, to base 10: the value, and how much of the string it takes. -/
def strtoul (s : Bytes) : Nat × Nat :=
  let (negative, number) := splitSign (s.dropWhile isSpace)
  let digits := number.takeWhile isDigit
  if digits = [] then (0, 0)
  else
    (if 2 ^ 64 ≤ digitsValue digits then 2 ^ 64 - 1
      else if negative then (2 ^ 64 - digitsValue digits) % 2 ^ 64
      else digitsValue digits,
      s.length - number.length + digits.length)

/-! ## Arithmetic in 64 bits -/

/-- A computation that ends at a division by zero. The flag tells whether a number wrapped
around. -/
abbrev Arith := StateT Bool Option

def wraps (b : Bool) : Arith Unit := modify (· || b)

/-- The product of two `size_t`. -/
def sizeMul (a b : Nat) : Arith Nat := do
  wraps (2 ^ 64 ≤ a * b)
  return a * b % 2 ^ 64

def sizeDiv (a b : Nat) : Arith Nat := if b = 0 then failure else return a / b

def IsInt64 (n : Int) : Prop := -2 ^ 63 ≤ n ∧ n < 2 ^ 63

instance (n : Int) : Decidable (IsInt64 n) := inferInstanceAs (Decidable (_ ∧ _))

/-- A number stored in 64 bits with a sign. -/
def int64 (n : Int) : Arith Int := do
  wraps (¬ IsInt64 n)
  return n.bmod (2 ^ 64)

/-! ## The code -/

def dot : UInt8 := 46

/-- `std::chrono::system_clock::period::den`, with 1 for `num`. -/
def den : Nat := 10 ^ 9

def num : Nat := 1

/-- `Util::getIso8601FracformatTime`, of the count of the clock. -/
def getIso8601FracformatTime (time : Int) : Bytes :=
  let lastModified_s := time.tdiv den
  strftime (gmtimeR lastModified_s) ++
    setw 6 (decimal ((time - lastModified_s * den).tdiv ↑(den / num / 1000000))) ++ ascii "Z"

/-- The loop that builds the denominator. -/
def denominatorLoop : Nat → Nat → Arith Nat
  | 0, denominator => return denominator
  | n + 1, denominator => do denominatorLoop n (← sizeMul denominator 10)

/-- `Util::iso8601ToTimestamp`. -/
def iso8601ToTimestamp (iso8601Time : Bytes) : Arith Int :=
  match strptime (iso8601Time.takeWhile (· != 0)) with
  | none => return 0
  | some (tm, trailing) => do
    let timestamp ← int64 (0 + (← int64 (timegm tm * den)))
    match trailing with
    | [] => return timestamp
    | b :: rest =>
      if b ≠ dot then return timestamp
      else
        let (us, n) := strtoul rest
        let denominator ← denominatorLoop n 1
        let seconds_us ← sizeDiv (← sizeDiv (← sizeMul us den) num) denominator
        int64 (timestamp + (← int64 seconds_us))

/-! ## Numbers are read back -/

section
variable {ds rest : Bytes} {lo hi n : Nat}

theorem digitsValue_append (ds ds' : Bytes) :
    digitsValue (ds ++ ds') = ds'.foldl (fun val b => val * 10 + (b.toNat - 48)) (digitsValue ds) := by
  rw [digitsValue, readDigits, List.foldl_append]
  rfl

theorem le_foldl_digits (ds : Bytes) (val : Nat) :
    val ≤ ds.foldl (fun val b => val * 10 + (b.toNat - 48)) val := by
  induction ds generalizing val with
  | nil => exact Nat.le_refl val
  | cons b ds ih =>
    have hle := ih (val * 10 + (b.toNat - 48))
    rw [List.foldl_cons]
    omega

/-- All the digits are taken, if there are not too many and their number is in the range. -/
theorem getDigits_append (hdigits : ∀ b ∈ ds, isDigit b = true) (hlength : ds.length ≤ n)
    (hrest : ∀ b, rest.head? = some b → isDigit b = false) (val : Nat)
    (hhi : ds.foldl (fun val b => val * 10 + (b.toNat - 48)) val ≤ hi) :
    getDigits hi n val (ds ++ rest) = (ds.foldl (fun val b => val * 10 + (b.toNat - 48)) val, rest) := by
  induction ds generalizing n val with
  | nil =>
    cases n with
    | zero => rfl
    | succ n =>
      cases rest with
      | nil => rfl
      | cons b rest =>
        rw [List.nil_append, getDigits, if_neg]
        · rfl
        · rw [hrest b rfl]
          exact fun h => Bool.false_ne_true h.1
  | cons b ds ih =>
    obtain ⟨n, rfl⟩ := Nat.exists_eq_succ_of_ne_zero (Nat.ne_of_gt (Nat.lt_of_lt_of_le (Nat.succ_pos _) hlength))
    have hle := le_foldl_digits ds (val * 10 + (b.toNat - 48))
    rw [List.foldl_cons] at hhi ⊢
    rw [List.cons_append, getDigits, if_pos ⟨hdigits b (List.mem_cons_self ..), by omega⟩]
    exact ih (fun c hc => hdigits c (List.mem_cons_of_mem b hc)) (Nat.le_of_succ_le_succ hlength) _ hhi

theorem getNumber_append (hne : ds ≠ []) (hdigits : ∀ b ∈ ds, isDigit b = true)
    (hlength : ds.length ≤ n)
    (hrest : ∀ b, rest.head? = some b → isDigit b = false) (hlo : lo ≤ digitsValue ds) (hhi : digitsValue ds ≤ hi) :
    getNumber lo hi n (ds ++ rest) = some (digitsValue ds, rest) := by
  obtain ⟨b, bs, rfl⟩ := List.exists_cons_of_ne_nil hne
  have hb := hdigits b (List.mem_cons_self ..)
  have hspace : isSpace b = false := (Protocol.digit_plain b hb).1
  have hread := getDigits_append hdigits hlength hrest 0 hhi
  rw [getNumber, List.cons_append, List.dropWhile_cons_of_neg (Bool.eq_false_iff.mp hspace),
    ← List.cons_append, hread]
  dsimp only
  rw [List.cons_append, List.head?_cons, Option.map_some, Option.getD_some, if_pos hb, if_neg]
  · rfl
  · rintro (h | h)
    · exact absurd hlo (Nat.not_le.mpr h)
    · exact absurd hhi (Nat.not_le.mpr h)

end

section
variable {width n : Nat}

theorem isDigit_setw {b : UInt8} (h : b ∈ setw width (decimal n)) : isDigit b = true := by
  rw [setw] at h
  cases List.mem_append.mp h with
  | inl h =>
    rw [List.eq_of_mem_replicate h]
    decide
  | inr h => exact Http.isDigit_of_mem_toString h

theorem digitsValue_setw (width n : Nat) : digitsValue (setw width (decimal n)) = n := by
  have hzeros : ∀ k, digitsValue (List.replicate k 48) = 0 := by
    intro k
    induction k with
    | zero => rfl
    | succ k ih => rw [List.replicate_succ', digitsValue_append, ih]; rfl
  rw [setw, digitsValue_append, hzeros]
  exact Protocol.digitsValue_toString n

theorem length_decimal_le (hwidth : 0 < width) (hn : n < 10 ^ width) :
    (decimal n).length ≤ width := by
  change (ascii (toString n)).length ≤ width
  rw [Http.ascii_toString, List.length_map]
  exact (Nat.length_toDigits_le_iff (by decide) hwidth).mpr hn

theorem length_setw (hwidth : 0 < width) (hn : n < 10 ^ width) :
    (setw width (decimal n)).length = width := by
  have hlength := length_decimal_le hwidth hn
  rw [setw, List.length_append, List.length_replicate]
  omega

theorem setw_zero (s : Bytes) : setw 0 s = s := by
  rw [setw, Nat.zero_sub]
  rfl

theorem setw_ne_nil (width n : Nat) : setw width (decimal n) ≠ [] :=
  List.append_ne_nil_of_right_ne_nil _ (Protocol.decimal_ne_nil n)

theorem getNumber_setw {lo hi count : Nat} {rest : Bytes}
    (hlength : (setw width (decimal n)).length ≤ count)
    (hrest : ∀ b, rest.head? = some b → isDigit b = false) (hlo : lo ≤ n) (hhi : n ≤ hi) :
    getNumber lo hi count (setw width (decimal n) ++ rest) = some (n, rest) := by
  have hvalue := digitsValue_setw width n
  have hread := getNumber_append (setw_ne_nil width n) (fun b hb => isDigit_setw hb) hlength hrest
    (hlo.trans_eq hvalue.symm) (hvalue.trans_le hhi)
  rw [hvalue] at hread
  exact hread

end

/-- Times that `strftime` writes so that `strptime` can read them. -/
structure Tm.Readable (tm : Tm) : Prop where
  year : tm.year ≤ 9999
  mon : tm.mon < 12
  mday : 1 ≤ tm.mday ∧ tm.mday ≤ 31
  hour : tm.hour ≤ 23
  min : tm.min ≤ 59
  sec : tm.sec ≤ 61

theorem getByte_ascii (c : UInt8) (s : Bytes) : getByte c (c :: s) = some s := if_pos rfl

/-- **What is written of a time is read.** -/
theorem strptime_strftime {tm : Tm} (h : tm.Readable) (rest : Bytes) :
    strptime (strftime tm ++ rest) = some (tm, dot :: rest) := by
  have hafter : ∀ (c : UInt8) (rest : Bytes), isDigit c = false →
      ∀ b, (c :: rest).head? = some b → isDigit b = false := by
    intro c rest hc b hb
    rw [← Option.some.inj hb]
    exact hc
  have htwo : ∀ n : Nat, n ≤ 99 → (setw 2 (decimal n)).length ≤ 2 := by
    intro n hn
    rw [length_setw (by decide) (by omega)]
  have hyear : (decimal tm.year).length ≤ 4 := length_decimal_le (by decide) (by have := h.year; omega)
  have hmon := h.mon
  have hmday := h.mday
  have hhour := h.hour
  have hmin := h.min
  have hsec := h.sec
  rw [← setw_zero (decimal tm.year)] at hyear
  have hwritten : strftime tm ++ rest = setw 0 (decimal tm.year) ++ 45 :: (setw 2 (decimal ↑(tm.mon + 1)) ++
      45 :: (setw 2 (decimal tm.mday) ++ 84 :: (setw 2 (decimal tm.hour) ++ 58 :: (setw 2 (decimal tm.min) ++
        58 :: (setw 2 (decimal tm.sec) ++ dot :: rest))))) := by
    have hdash : ascii "-" = [45] := rfl
    have htime : ascii "T" = [84] := rfl
    have hcolon : ascii ":" = [58] := rfl
    have hdot : ascii "." = [dot] := rfl
    simp only [strftime, setw_zero, List.append_assoc, hdash, htime, hcolon, hdot, List.cons_append,
      List.nil_append]
  rw [hwritten, strptime, getNumber_setw hyear (hafter _ _ rfl) (Nat.zero_le _) h.year]
  simp only [Option.bind_eq_bind, Option.bind_some, getByte_ascii]
  rw [getNumber_setw (htwo _ (by omega)) (hafter _ _ rfl) (by omega) (by omega)]
  simp only [Option.bind_some, getByte_ascii]
  rw [getNumber_setw (htwo _ (by omega)) (hafter _ _ rfl) hmday.1 hmday.2]
  simp only [Option.bind_some, getByte_ascii]
  rw [getNumber_setw (htwo _ (by omega)) (hafter _ _ rfl) (Nat.zero_le _) hhour]
  simp only [Option.bind_some, getByte_ascii]
  rw [getNumber_setw (htwo _ (by omega)) (hafter _ _ rfl) (Nat.zero_le _) hmin]
  simp only [Option.bind_some, getByte_ascii]
  rw [getNumber_setw (htwo _ (by omega)) (hafter _ _ rfl) (Nat.zero_le _) hsec]
  rfl

theorem timegm_gmtimeR {time : Int} (h : 0 ≤ time / 86400 + epoch) :
    timegm (gmtimeR time) = time := by
  have hdays := Calendar.toDays_ofDays (time / 86400 + epoch).toNat
  have hrem := Int.emod_nonneg time (b := 86400) (by decide)
  rw [timegm, gmtimeR]
  dsimp only
  rw [Nat.add_sub_cancel, hdays, Int.toNat_of_nonneg h]
  omega

theorem readable_gmtimeR {time : Int} (h : 0 ≤ time) (hlt : time < 10 ^ 11) :
    (gmtimeR time).Readable := by
  have hyear := Calendar.year_le (time / 86400 + epoch).toNat
  obtain ⟨-, hmon, hday⟩ := Calendar.ofDays_spec (time / 86400 + epoch).toNat
  have hrem := Int.emod_lt_of_pos time (b := 86400) (by decide)
  rw [epoch] at hyear
  constructor
  · change (Calendar.ofDays _).year ≤ 9999
    rw [epoch]
    omega
  · exact hmon
  · change 1 ≤ (Calendar.ofDays _).day + 1 ∧ (Calendar.ofDays _).day + 1 ≤ 31
    omega
  · change (time % 86400).toNat / 3600 ≤ 23
    omega
  · change (time % 86400).toNat / 60 % 60 ≤ 59
    omega
  · change (time % 86400).toNat % 60 ≤ 61
    omega

/-! ## The fraction -/

section
variable {ds other : Bytes}

theorem strtoul_digits (hne : ds ≠ []) (hdigits : ∀ b ∈ ds, isDigit b = true)
    (hother : ∀ b, other.head? = some b → isDigit b = false) :
    strtoul (ds ++ other) = (min (digitsValue ds) (2 ^ 64 - 1), ds.length) := by
  obtain ⟨b, bs, rfl⟩ := List.exists_cons_of_ne_nil hne
  obtain ⟨hspace, hminus, hplus, -⟩ := Protocol.digit_plain b (hdigits b (List.mem_cons_self ..))
  have hsign : splitSign (b :: bs ++ other) = (false, b :: bs ++ other) := by
    rw [List.cons_append]
    unfold splitSign
    split
    · next heq => exact absurd (List.cons.inj heq).1 hminus
    · next heq => exact absurd (List.cons.inj heq).1 hplus
    · rfl
  have htake : (b :: bs ++ other).takeWhile isDigit = b :: bs := by
    rw [List.takeWhile_append_of_pos hdigits]
    cases other with
    | nil => exact List.append_nil _
    | cons c other => rw [List.takeWhile_cons_of_neg (Bool.eq_false_iff.mp (hother c rfl)), List.append_nil]
  rw [strtoul, List.cons_append, List.dropWhile_cons_of_neg (Bool.eq_false_iff.mp hspace),
    ← List.cons_append, hsign]
  dsimp only
  rw [htake, if_neg hne, Nat.sub_self, Nat.zero_add, if_neg Bool.false_ne_true]
  congr 1
  split <;> omega

end

theorem run_sizeMul (a b : Nat) (w : Bool) :
    (sizeMul a b).run w = some (a * b % 2 ^ 64, w || decide (2 ^ 64 ≤ a * b)) := rfl

theorem run_int64 (n : Int) (w : Bool) :
    (int64 n).run w = some (n.bmod (2 ^ 64), w || decide (¬ IsInt64 n)) := rfl

theorem run_sizeDiv (a b : Nat) (w : Bool) :
    (sizeDiv a b).run w = if b = 0 then none else some (a / b, w) := by
  rw [sizeDiv]
  split <;> rfl

theorem run_sizeDiv_num (a : Nat) (w : Bool) : (sizeDiv a num).run w = some (a, w) := by
  rw [run_sizeDiv, num, if_neg Nat.one_ne_zero, Nat.div_one]

theorem bmod_int64 {n : Int} (h : IsInt64 n) : n.bmod (2 ^ 64) = n :=
  Int.bmod_eq_of_le (by rw [IsInt64] at h; omega) (by rw [IsInt64] at h; omega)

theorem isInt64_bmod (n : Int) : IsInt64 (n.bmod (2 ^ 64)) := by
  have hlt := Int.bmod_lt (x := n) (m := 2 ^ 64) (by decide)
  have hle := Int.le_bmod (x := n) (m := 2 ^ 64) (by decide)
  rw [IsInt64]
  omega

/-- The denominator wraps around as soon as it is to be at least `2 ^ 64`. -/
theorem run_denominatorLoop (n d : Nat) (w : Bool) (hd : d < 2 ^ 64) :
    (denominatorLoop n d).run w = some (d * 10 ^ n % 2 ^ 64, w || decide (2 ^ 64 ≤ d * 10 ^ n)) := by
  induction n generalizing d w with
  | zero =>
    rw [Nat.pow_zero, Nat.mul_one, Nat.mod_eq_of_lt hd, decide_eq_false (Nat.not_le.mpr hd),
      Bool.or_false]
    rfl
  | succ n ih =>
    have hpow : d * 10 ^ (n + 1) = d * 10 * 10 ^ n := by rw [Nat.pow_succ', Nat.mul_assoc]
    rw [denominatorLoop, StateT.run_bind, run_sizeMul, Option.bind_eq_bind, Option.bind_some,
      ih _ _ (Nat.mod_lt _ (by decide)), hpow, Nat.mod_mul_mod]
    dsimp only
    by_cases hwraps : 2 ^ 64 ≤ d * 10
    · have hle : 2 ^ 64 ≤ d * 10 * 10 ^ n := Nat.le_trans hwraps (Nat.le_mul_of_pos_right _ (Nat.pow_pos (by decide)))
      rw [decide_eq_true hwraps, decide_eq_true hle, Bool.or_true, Bool.true_or]
    · rw [decide_eq_false hwraps, Bool.or_false, Nat.mod_eq_of_lt (Nat.lt_of_not_le hwraps)]

section
variable {s ds other : Bytes} {tm : Tm}

/-- The count of the clock that a fraction of a second stands for. -/
def fraction (ds : Bytes) : Nat := digitsValue ds * den / 10 ^ ds.length

/-- What comes of a timestamp with a fraction. -/
theorem run_iso8601ToTimestamp
    (hs : strptime (s.takeWhile (· != 0)) = some (tm, dot :: (ds ++ other))) (hne : ds ≠ [])
    (hdigits : ∀ b ∈ ds, isDigit b = true) (hother : ∀ b, other.head? = some b → isDigit b = false) :
    (iso8601ToTimestamp s).run false =
      let us := min (digitsValue ds) (2 ^ 64 - 1)
      let timestamp := (timegm tm * den).bmod (2 ^ 64)
      let seconds_us : Nat := us * den % 2 ^ 64 / (10 ^ ds.length % 2 ^ 64)
      if 10 ^ ds.length % 2 ^ 64 = 0 then none
      else some ((timestamp + (seconds_us : Int).bmod (2 ^ 64)).bmod (2 ^ 64),
        decide (¬ IsInt64 (timegm tm * den)) || decide (2 ^ 64 ≤ 10 ^ ds.length) || decide (2 ^ 64 ≤ us * den) ||
          decide (¬ IsInt64 seconds_us) || decide (¬ IsInt64 (timestamp + (seconds_us : Int).bmod (2 ^ 64)))) := by
  have hloop := fun w => run_denominatorLoop ds.length 1 w (by decide)
  rw [iso8601ToTimestamp, hs]
  simp only [ne_eq, not_true_eq_false, if_false, strtoul_digits hne hdigits hother, StateT.run_bind,
    run_int64,
    Option.bind_eq_bind, Option.bind_some, hloop, run_sizeMul, run_sizeDiv_num, Nat.one_mul, Int.zero_add]
  simp only [run_sizeDiv, Int.bmod_bmod, isInt64_bmod, not_true_eq_false, decide_false,
    Bool.or_false, Bool.false_or]
  by_cases hzero : 10 ^ ds.length % 2 ^ 64 = 0
  · rw [if_pos hzero, if_pos hzero, Option.bind_none]
  · rw [if_neg hzero, if_neg hzero, Option.bind_some]

/-- The date and time in the range of the clock, and the product with its period and the power of
ten in that of `size_t`. -/
structure Fits (tm : Tm) (ds : Bytes) : Prop where
  datetime : IsInt64 (timegm tm * den)
  timestamp : IsInt64 (timegm tm * den + fraction ds)
  product : digitsValue ds * den < 2 ^ 64
  length : ds.length ≤ 19

theorem pow_lt_iff (n : Nat) : 10 ^ n < 2 ^ 64 ↔ n ≤ 19 := by
  constructor
  · intro h
    by_contra hlong
    have hle : 10 ^ 20 ≤ 10 ^ n := Nat.pow_le_pow_right (by decide) (by omega)
    exact absurd (Nat.lt_of_le_of_lt hle h) (by decide)
  · intro h
    exact Nat.lt_of_le_of_lt (Nat.pow_le_pow_right (by decide) h) (by decide)

theorem fraction_lt (hproduct : digitsValue ds * den < 2 ^ 64) (hne : ds ≠ []) :
    fraction ds < 2 ^ 63 := by
  have hten : 10 ^ 1 ≤ 10 ^ ds.length := Nat.pow_le_pow_right (by decide) (List.length_pos_iff.mpr hne)
  have hle : fraction ds ≤ digitsValue ds * den / 10 := Nat.div_le_div_left hten (by decide)
  omega

/-- What fits is read exactly, and nothing wraps around. -/
theorem run_of_fits (hs : strptime (s.takeWhile (· != 0)) = some (tm, dot :: (ds ++ other)))
    (hne : ds ≠ [])
    (hdigits : ∀ b ∈ ds, isDigit b = true) (hother : ∀ b, other.head? = some b → isDigit b = false)
    (h : Fits tm ds) :
    (iso8601ToTimestamp s).run false = some (timegm tm * den + fraction ds, false) := by
  have hpow := (pow_lt_iff ds.length).mpr h.length
  have hpos : 0 < 10 ^ ds.length := Nat.pow_pos (by decide)
  have hfraction := fraction_lt h.product hne
  have hint : IsInt64 (fraction ds) := ⟨by omega, by omega⟩
  have hus : min (digitsValue ds) (2 ^ 64 - 1) = digitsValue ds := by
    have hle : digitsValue ds ≤ digitsValue ds * den := Nat.le_mul_of_pos_right _ (by decide)
    have hproduct := h.product
    omega
  have hquotient : digitsValue ds * den % 2 ^ 64 / (10 ^ ds.length % 2 ^ 64) = fraction ds := by
    rw [Nat.mod_eq_of_lt h.product, Nat.mod_eq_of_lt hpow, fraction]
  rw [run_iso8601ToTimestamp hs hne hdigits hother]
  dsimp only
  rw [hus, hquotient, Nat.mod_eq_of_lt hpow, if_neg (Nat.ne_of_gt hpos), bmod_int64 h.datetime,
    bmod_int64 hint,
    bmod_int64 h.timestamp]
  rw [decide_eq_false (not_not_intro h.datetime), decide_eq_false (Nat.not_le.mpr hpow),
    decide_eq_false (Nat.not_le.mpr h.product), decide_eq_false (not_not_intro hint),
    decide_eq_false (not_not_intro h.timestamp)]
  rfl

/-- What does not fit wraps around somewhere, or is divided by zero. -/
theorem fits_of_run (hs : strptime (s.takeWhile (· != 0)) = some (tm, dot :: (ds ++ other)))
    (hne : ds ≠ [])
    (hdigits : ∀ b ∈ ds, isDigit b = true) (hother : ∀ b, other.head? = some b → isDigit b = false)
    {timestamp : Int} (h : (iso8601ToTimestamp s).run false = some (timestamp, false)) : Fits tm ds := by
  rw [run_iso8601ToTimestamp hs hne hdigits hother] at h
  dsimp only at h
  split at h
  · cases h
  · rw [Option.some.injEq, Prod.mk.injEq] at h
    simp only [Bool.or_eq_false_iff, decide_eq_false_iff_not, not_not, Nat.not_le] at h
    obtain ⟨-, ⟨⟨⟨hdatetime, hpow⟩, hproduct⟩, hint⟩, hsum⟩ := h
    have hus : min (digitsValue ds) (2 ^ 64 - 1) = digitsValue ds := by
      have hden : min (digitsValue ds) (2 ^ 64 - 1) * 10 ≤ min (digitsValue ds) (2 ^ 64 - 1) * den :=
        Nat.mul_le_mul_left _ (by decide)
      omega
    rw [hus] at hproduct hint hsum
    rw [Nat.mod_eq_of_lt hproduct, Nat.mod_eq_of_lt hpow, ← fraction] at hint hsum
    rw [bmod_int64 hdatetime, bmod_int64 hint] at hsum
    exact ⟨hdatetime, hsum, hproduct, (pow_lt_iff ds.length).mp hpow⟩

end

/-! ## What was written is read -/

theorem zero_not_mem_setw (width n : Nat) : 0 ∉ setw width (decimal n) := by
  intro h
  exact (Protocol.digit_plain 0 (isDigit_setw h)).2.2.2.2.2.2.1 rfl

theorem zero_not_mem_strftime (tm : Tm) : 0 ∉ strftime tm := by
  have hyear := zero_not_mem_setw 0 tm.year
  rw [setw_zero] at hyear
  simp only [strftime, List.mem_append, not_or, hyear, zero_not_mem_setw, not_false_eq_true,
    true_and, and_true]
  decide

/-- The text of a time, by its seconds and microseconds. -/
theorem getIso8601FracformatTime_eq {time : Int} (h : 0 ≤ time) :
    getIso8601FracformatTime time = strftime (gmtimeR (time / den)) ++
      (setw 6 (decimal (time % den / 1000).toNat) ++ ascii "Z") := by
  have hmicro : (time - time / den * den).tdiv ↑(den / num / 1000000) = ↑(time % den / 1000).toNat := by
    have hnonneg : 0 ≤ time % den := Int.emod_nonneg time (by decide)
    have hrest : time - time / den * den = time % den := by rw [Int.emod_def, Int.mul_comm]
    rw [hrest, Int.tdiv_eq_ediv_of_nonneg hnonneg, show den / num / 1000000 = 1000 from rfl]
    exact (Int.toNat_of_nonneg (Int.ediv_nonneg hnonneg (by decide))).symm
  rw [getIso8601FracformatTime, Int.tdiv_eq_ediv_of_nonneg h, hmicro, List.append_assoc]

theorem isDigit_of_head_utc {b : UInt8} (h : (ascii "Z").head? = some b) : isDigit b = false := by
  obtain rfl := Option.some.inj h
  rfl

theorem iso8601ToTimestamp_getIso8601FracformatTime {time : Int} (h : 0 ≤ time) (hlt : IsInt64 time)
    (hmicro : 1000 ∣ time) :
    (iso8601ToTimestamp (getIso8601FracformatTime time)).run false = some (time, false) := by
  have hden : (den : Int) = 10 ^ 9 := rfl
  have hmicros : (time % den / 1000).toNat < 10 ^ 6 := by
    rw [hden]
    omega
  have hseconds : timegm (gmtimeR (time / den)) = time / den := by
    apply timegm_gmtimeR
    rw [hden, epoch]
    omega
  have hlength := length_setw (by decide) hmicros
  have hfraction : fraction (setw 6 (decimal (time % den / 1000).toNat)) = (time % den / 1000).toNat * 1000 := by
    rw [fraction, digitsValue_setw, hlength, den]
    omega
  have hsum : timegm (gmtimeR (time / den)) * den +
      fraction (setw 6 (decimal (time % den / 1000).toNat)) = time := by
    rw [hseconds, hfraction, hden]
    omega
  have hfits : Fits (gmtimeR (time / den)) (setw 6 (decimal (time % den / 1000).toNat)) := by
    constructor
    · rw [hseconds, hden]
      rw [IsInt64] at hlt ⊢
      omega
    · rw [hsum]
      exact hlt
    · rw [digitsValue_setw, den]
      omega
    · rw [hlength]
      decide
  have hzero : 0 ∉ getIso8601FracformatTime time := by
    intro hb
    rw [getIso8601FracformatTime_eq h, List.mem_append, List.mem_append] at hb
    exact hb.elim (zero_not_mem_strftime _) fun hb => hb.elim (zero_not_mem_setw 6 _) (by decide)
  have hread : strptime ((getIso8601FracformatTime time).takeWhile (· != 0)) = some (gmtimeR (time / den),
      dot :: (setw 6 (decimal (time % den / 1000).toNat) ++ ascii "Z")) := by
    rw [takeWhile_bne_of_notMem hzero, getIso8601FracformatTime_eq h, strptime_strftime]
    apply readable_gmtimeR
    · rw [hden]
      omega
    · rw [IsInt64] at hlt
      rw [hden]
      omega
  rw [run_of_fits hread (setw_ne_nil 6 _) (fun b hb => isDigit_setw hb) (fun _ => isDigit_of_head_utc) hfits, hsum]

/-- **A time to the microsecond is read as it was written, and any timestamp is read exactly and
without a number that wraps around just if it fits.** -/
theorem timestamps_exact {s ds other : Bytes} {tm : Tm}
    (hs : strptime (s.takeWhile (· != 0)) = some (tm, dot :: (ds ++ other))) (hne : ds ≠ [])
    (hdigits : ∀ b ∈ ds, isDigit b = true) (hother : ∀ b, other.head? = some b → isDigit b = false) :
    (∀ time : Int, 0 ≤ time → IsInt64 time → 1000 ∣ time →
      (iso8601ToTimestamp (getIso8601FracformatTime time)).run false = some (time, false)) ∧
    ((iso8601ToTimestamp s).run false = some (timegm tm * den + fraction ds, false) ↔ Fits tm ds) := by
  constructor
  · intro time h hlt hmicro
    exact iso8601ToTimestamp_getIso8601FracformatTime h hlt hmicro
  · constructor
    · exact fits_of_run hs hne hdigits hother
    · exact run_of_fits hs hne hdigits hother

theorem timestamps_exact_millis :
    (iso8601ToTimestamp (getIso8601FracformatTime 1567444337874777000)).run false = some (1567444337874777000, false) ∧
    (iso8601ToTimestamp (ascii "1970-01-02T00:00:01.5Z")).run false = some (86401500000000, false) := by
  have hexact := @timestamps_exact (ascii "1970-01-02T00:00:01.5Z") (ascii "5") (ascii "Z") ⟨1970, 0, 2, 0, 0, 1⟩
    (by decide +kernel) (by decide) (List.all_eq_true.mp (by decide)) fun _ => isDigit_of_head_utc
  exact ⟨hexact.1 1567444337874777000 (by decide) (by decide) (by decide),
    hexact.2.mpr ⟨by decide, by decide, by decide, by decide⟩⟩

/-- Eleven nines of a second wrap around. -/
theorem not_timestamps_exact : ¬ ((∀ time : Int, 0 ≤ time → IsInt64 time → 1000 ∣ time →
      (iso8601ToTimestamp (getIso8601FracformatTime time)).run false = some (time, false)) ∧
    ∀ (s ds other : Bytes) (tm : Tm), strptime (s.takeWhile (· != 0)) = some (tm, dot :: (ds ++ other)) →
      ds ≠ [] → (∀ b ∈ ds, isDigit b = true) → (∀ b, other.head? = some b → isDigit b = false) →
      (iso8601ToTimestamp s).run false = some (timegm tm * den + fraction ds, false)) := by
  intro h
  have hread := h.2 (ascii "1970-01-01T00:00:00.99999999999Z") (ascii "99999999999") (ascii "Z")
    ⟨1970, 0, 1, 0, 0, 0⟩ (by decide +kernel) (by decide) (List.all_eq_true.mp (by decide)) fun _ => isDigit_of_head_utc
  revert hread
  decide +kernel

/-- With 64 digits the denominator is 0. -/
example : (iso8601ToTimestamp (ascii "1970-01-01T00:00:00." ++ List.replicate 64 48)).run false = none := by
  decide +kernel

end Oxool.Timestamps
