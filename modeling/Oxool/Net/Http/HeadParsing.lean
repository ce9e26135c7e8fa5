import Mathlib.Data.List.TakeWhile
import Oxool.Net.Http.Response

/-!
# Heads that arrive in parts (`net/HttpRequest.cpp`)

`StatusLine::parse` and `Header::parse` run on whatever has arrived, and start over when more has. What
they made of the first part should still be right then. It is not in three places: the bytes read take in
the line breaks that have arrived (`CutInBreaks`), a number that goes up to the end of the data is taken
for the status code (`CutInCode`), and the scan for the blank line steps over three bytes where a line
feed does not begin one (`stopsAt`). And the limit on the length of the line is checked in a loop that
ends before it gets there (`StartsLine`).
-/

set_option autoImplicit false

namespace Oxool.Http

/-! ## Scanning what has arrived -/

theorem takeWhile_append_of_stop {f : UInt8 → Bool} {x : Bytes} (h : (x.takeWhile f).length < x.length)
    (y : Bytes) : (x ++ y).takeWhile f = x.takeWhile f := by
  rw [List.takeWhile_append, if_neg (Nat.ne_of_lt h)]

theorem length_takeWhile_le_append (f : UInt8 → Bool) (x y : Bytes) :
    (x.takeWhile f).length ≤ ((x ++ y).takeWhile f).length := by
  rw [List.takeWhile_append]
  split
  · next h =>
    rw [List.length_append, h]
    exact Nat.le_add_right _ _
  · exact Nat.le_refl _

/-- What stops a scan. -/
theorem exists_stop {f : UInt8 → Bool} {x : Bytes} (h : (x.takeWhile f).length < x.length) :
    ∃ b, x[(x.takeWhile f).length]? = some b ∧ f b = false := by
  induction x with
  | nil => exact absurd h (Nat.lt_irrefl 0)
  | cons b x ih =>
    cases hb : f b with
    | false =>
      rw [List.takeWhile_cons_of_neg (by rw [hb]; exact Bool.false_ne_true)]
      exact ⟨b, rfl, hb⟩
    | true =>
      rw [List.takeWhile_cons_of_pos hb, List.length_cons, List.length_cons] at h
      obtain ⟨c, hc, hfalse⟩ := ih (Nat.lt_of_succ_lt_succ h)
      refine ⟨c, ?_, hfalse⟩
      rw [List.takeWhile_cons_of_pos hb, List.length_cons, List.getElem?_cons_succ]
      exact hc

/-- What does not stop it. -/
theorem of_lt_takeWhile {f : UInt8 → Bool} {x : Bytes} {i : Nat} (h : i < (x.takeWhile f).length) :
    ∃ b, x[i]? = some b ∧ f b = true := by
  have hget : (x.takeWhile f)[i]? = some (x.takeWhile f)[i] := List.getElem?_eq_getElem h
  refine ⟨_, ?_, List.mem_takeWhile_imp (List.getElem_mem h)⟩
  obtain ⟨y, hy⟩ := List.takeWhile_prefix f (l := x)
  rw [← hget]
  conv_lhs => rw [← hy]
  rw [List.getElem?_append_left h]

section Scans

variable {p : Bytes} {off : Nat}

theorem skipSpaceAndTab_append (h : skipSpaceAndTab p off < p.length) (q : Bytes) :
    skipSpaceAndTab (p ++ q) off = skipSpaceAndTab p off := by
  rw [skipSpaceAndTab] at h ⊢
  rw [List.drop_append_of_le_length (by omega), takeWhile_append_of_stop, skipSpaceAndTab]
  rw [List.length_drop]
  omega

theorem skipSpaceAndTab_le_append (h : off ≤ p.length) (q : Bytes) :
    skipSpaceAndTab p off ≤ skipSpaceAndTab (p ++ q) off := by
  rw [skipSpaceAndTab, skipSpaceAndTab, List.drop_append_of_le_length h]
  exact Nat.add_le_add_left (length_takeWhile_le_append _ _ _) off

theorem findLineBreak_append (h : findLineBreak p off < p.length) (q : Bytes) :
    findLineBreak (p ++ q) off = findLineBreak p off := by
  rw [findLineBreak] at h ⊢
  rw [List.drop_append_of_le_length (by omega), takeWhile_append_of_stop, findLineBreak]
  rw [List.length_drop]
  omega

theorem le_skipSpaceAndTab (p : Bytes) (off : Nat) : off ≤ skipSpaceAndTab p off := Nat.le_add_right _ _

theorem le_findLineBreak (p : Bytes) (off : Nat) : off ≤ findLineBreak p off := Nat.le_add_right _ _

theorem getElem?_findLineBreak (h : findLineBreak p off < p.length) : p[findLineBreak p off]? = some lf := by
  rw [findLineBreak] at h ⊢
  have hstop : ((p.drop off).takeWhile (· != lf)).length < (p.drop off).length := by
    rw [List.length_drop]
    omega
  obtain ⟨b, hb, hfalse⟩ := exists_stop hstop
  rw [← List.getElem?_drop, hb, bne_eq_false_iff_eq.mp hfalse]

/-- No byte before the line break is one. -/
theorem ne_of_lt_findLineBreak {i : Nat} (hoff : off ≤ i) (h : i < findLineBreak p off) :
    p[i]? ≠ some lf := by
  rw [findLineBreak] at h
  obtain ⟨b, hb, htrue⟩ := of_lt_takeWhile (x := p.drop off) (f := (· != lf)) (i := i - off) (by omega)
  rw [List.getElem?_drop, Nat.add_sub_of_le hoff] at hb
  rw [hb]
  intro heq
  rw [Option.some.inj heq] at htrue
  exact absurd htrue (by simp)

theorem findLineBreak_le {i : Nat} (hoff : off ≤ i) (h : p[i]? = some lf) : findLineBreak p off ≤ i := by
  by_contra hlt
  exact ne_of_lt_findLineBreak hoff (Nat.lt_of_not_le hlt) h

end Scans

/-! ## The number of a status code -/

/-- A number that ends is not changed by what comes after it. -/
theorem atoiLoop_append_of_stop {x : Bytes} (h : x.all isDigit = false) (ret : Nat) (y : Bytes) :
    atoiLoop ret (x ++ y) = atoiLoop ret x := by
  induction x generalizing ret with
  | nil => exact absurd h (by simp)
  | cons b x ih =>
    rw [List.cons_append, atoiLoop, atoiLoop]
    cases hb : isDigit b with
    | false => rfl
    | true =>
      rw [List.all_cons, hb, Bool.true_and] at h
      rw [if_pos rfl, if_pos rfl]
      dsimp only
      rw [ih h]

/-- The loop goes on where it is, unless it has stopped at the largest `int`. -/
theorem atoiLoop_append {x : Bytes} (h : x.all isDigit = true) {ret : Nat} (hret : ret < 2 ^ 31 - 1) (y : Bytes) :
    atoiLoop ret (x ++ y) =
      if atoiLoop ret x < 2 ^ 31 - 1 then atoiLoop (atoiLoop ret x) y else 2 ^ 31 - 1 := by
  induction x generalizing ret with
  | nil =>
    rw [List.nil_append, atoiLoop, if_pos hret]
  | cons b x ih =>
    rw [List.all_cons, Bool.and_eq_true] at h
    rw [List.cons_append, atoiLoop, atoiLoop, if_pos h.1, if_pos h.1]
    dsimp only
    split
    · rw [if_neg (Nat.lt_irrefl _)]
    · next hnext => exact ih h.2 (Nat.lt_of_not_ge hnext)

theorem le_atoiLoop {ret : Nat} (hret : ret < 2 ^ 31 - 1) (y : Bytes) : ret ≤ atoiLoop ret y := by
  induction y generalizing ret with
  | nil => exact Nat.le_refl _
  | cons b y ih =>
    rw [atoiLoop]
    split
    · dsimp only
      split
      · exact Nat.le_of_lt hret
      · next hnext =>
        have hle := ih (Nat.lt_of_not_ge hnext)
        omega
    · exact Nat.le_refl _

/-- One digit more makes a number larger, unless it is zero. -/
theorem lt_atoiLoop {ret : Nat} (hpos : 0 < ret) (hret : ret < 2 ^ 31 - 1) {d : UInt8} (hd : isDigit d = true)
    (y : Bytes) : ret < atoiLoop ret (d :: y) := by
  rw [atoiLoop, if_pos hd]
  dsimp only
  split
  · exact hret
  · next hnext =>
    have hle := le_atoiLoop (Nat.lt_of_not_ge hnext) y
    omega

/-! ## The status line -/

namespace StatusLine

def isBreak (b : UInt8) : Bool := b == cr || b == lf

/-- The offsets of the version, of the status code and of the reason phrase. -/
def versionAt (p : Bytes) : Nat := skipSpaceAndTab p 0

def codeAt (p : Bytes) : Nat := skipSpaceAndTab p (versionAt p + versionLen)

def reasonAt (p : Bytes) : Nat := skipSpaceAndTab p (codeAt p + statusCodeLen)

/-- The offset of the LF that ends the line. -/
def lineEnd (p : Bytes) : Nat := findLineBreak p (reasonAt p)

/-- What `parse` leaves in `len` when it succeeds, the bytes it has read; otherwise none are. -/
def bytesRead (s : StatusLine) (p : Bytes) : Nat :=
  match (s.parse p).2 with
  | .valid => lineEnd p + ((p.drop (lineEnd p)).takeWhile isBreak).length
  | _ => 0

/-- The data has a version, as far as `parse` looks at it. -/
structure HasVersion (p : Bytes) : Prop where
  start : versionAt p < maxStatusLineLen
  length : versionAt p + minStatusLineLen ≤ p.length
  version : validVersion (p.drop (versionAt p)) = true

/-- The data has a version and a number for the status code. -/
structure HasCode (p : Bytes) : Prop extends HasVersion p where
  codeStart : codeAt p < maxStatusLineLen
  codeLength : codeAt p + (minStatusLineLen - versionLen) ≤ p.length
  digit : isDigit (p.getD (codeAt p) 0) = true

/-- The number that is read for the status code. -/
def codeOf (p : Bytes) : Nat := atoiLoop 0 (p.drop (codeAt p))

/-- The start of a status line: a version, a status code and where the reason phrase starts. -/
structure StartsLine (p : Bytes) : Prop extends HasCode p where
  code : 100 ≤ codeOf p ∧ codeOf p ≤ 599
  reasonStart : reasonAt p < maxStatusLineLen

/-- The fields of a status line once the version is read. -/
def withVersion (s : StatusLine) (p : Bytes) : StatusLine :=
  { s with
    httpVersion := (p.drop (versionAt p)).take versionLen
    versionMajor := ((p.drop (versionAt p)).getD 5 0).toNat - 48
    versionMinor := ((p.drop (versionAt p)).getD 7 0).toNat - 48 }

/-- The fields once the status code is read, and once the reason phrase is. -/
def withCode (s : StatusLine) (p : Bytes) : StatusLine := { s.withVersion p with statusCode := codeOf p }

def withReason (s : StatusLine) (p : Bytes) : StatusLine :=
  if lineEnd p - reasonAt p - 1 > 0 then
    { s.withCode p with reasonPhrase := (p.drop (reasonAt p)).take (lineEnd p - reasonAt p - 1) }
  else s.withCode p

section Parse

variable {p : Bytes} (s : StatusLine)

theorem HasVersion.parse_eq (h : HasVersion p) :
    s.parse p = (s.withVersion p).parseCode p (versionAt p + versionLen) := by
  have hlength := h.length
  rw [parse]
  dsimp only
  rw [if_neg (by omega), ← versionAt, if_neg (Nat.not_le.mpr h.start), if_neg (by omega), h.version,
    Bool.not_true, if_neg Bool.false_ne_true]
  rfl

theorem HasCode.parse_eq (h : HasCode p) :
    s.parse p =
      if codeOf p < 100 ∨ codeOf p > 599 then (s.withCode p, .invalid)
      else if reasonAt p ≥ maxStatusLineLen then (s.withCode p, .invalid)
      else if lineEnd p ≥ p.length then (s.withCode p, .incomplete)
      else (s.withReason p, .valid) := by
  have hcodeLength := h.codeLength
  rw [h.toHasVersion.parse_eq, parseCode]
  dsimp only
  rw [← codeAt, if_neg (Nat.not_le.mpr h.codeStart), if_neg (by omega), h.digit, Bool.not_true,
    if_neg Bool.false_ne_true]
  rfl

/-! ### What more data leaves as it is -/

theorem getD_append_of_lt {x : Bytes} {i : Nat} (h : i < x.length) (y : Bytes) :
    (x ++ y).getD i 0 = x.getD i 0 := by
  rw [List.getD_eq_getElem?_getD, List.getD_eq_getElem?_getD, List.getElem?_append_left h]

theorem validVersion_append {x : Bytes} (h : minStatusLineLen ≤ x.length) (y : Bytes) :
    validVersion (x ++ y) = validVersion x := by
  have hmin : minStatusLineLen = 14 := rfl
  rw [validVersion, validVersion, List.take_append_of_le_length (by omega), getD_append_of_lt (by omega),
    getD_append_of_lt (by omega), getD_append_of_lt (by omega), getD_append_of_lt (by omega)]

theorem versionAt_append (h : versionAt p + minStatusLineLen ≤ p.length) (q : Bytes) :
    versionAt (p ++ q) = versionAt p := by
  have hmin : minStatusLineLen = 14 := rfl
  exact skipSpaceAndTab_append (by rw [← versionAt]; omega) q

theorem drop_versionAt_append (h : versionAt p + minStatusLineLen ≤ p.length) (q : Bytes) :
    (p ++ q).drop (versionAt (p ++ q)) = p.drop (versionAt p) ++ q := by
  rw [versionAt_append h, List.drop_append_of_le_length (by omega)]

theorem HasVersion.append (h : HasVersion p) (q : Bytes) : HasVersion (p ++ q) where
  start := by
    rw [versionAt_append h.length]
    exact h.start
  length := by
    rw [versionAt_append h.length, List.length_append]
    exact Nat.le_add_right_of_le h.length
  version := by
    have hlength := h.length
    rw [drop_versionAt_append h.length, validVersion_append, h.version]
    rw [List.length_drop]
    omega

theorem HasVersion.withVersion_append (h : HasVersion p) (q : Bytes) :
    s.withVersion (p ++ q) = s.withVersion p := by
  have hlength := h.length
  have hmin : minStatusLineLen = 14 := rfl
  have hdrop : minStatusLineLen ≤ (p.drop (versionAt p)).length := by
    rw [List.length_drop]
    omega
  have hlen : versionLen = 8 := rfl
  rw [withVersion, withVersion, drop_versionAt_append h.length, List.take_append_of_le_length (by omega),
    getD_append_of_lt (by omega), getD_append_of_lt (by omega)]

theorem HasVersion.codeAt_le_append (h : HasVersion p) (q : Bytes) : codeAt p ≤ codeAt (p ++ q) := by
  have hlength := h.length
  have hmin : minStatusLineLen = 14 := rfl
  have hlen : versionLen = 8 := rfl
  rw [codeAt, codeAt, versionAt_append h.length]
  exact skipSpaceAndTab_le_append (by omega) q

theorem HasVersion.codeAt_append (h : HasVersion p) (hcode : codeAt p < p.length) (q : Bytes) :
    codeAt (p ++ q) = codeAt p := by
  rw [codeAt, versionAt_append h.length]
  exact skipSpaceAndTab_append hcode q

/-- Without a number for the status code `parse` ends before it, and when it has rejected the data, more
data is no news. -/
theorem parse_append_of_not_hasCode (h : ¬ HasCode p) (q : Bytes) :
    (s.parse p).2 = .incomplete ∨ (s.parse p).2 = .invalid ∧ s.parse (p ++ q) = s.parse p := by
  have hmin : minStatusLineLen = 14 := rfl
  have hlen : versionLen = 8 := rfl
  by_cases hversion : HasVersion p
  · have hversion' := hversion.append q
    rw [hversion.parse_eq, hversion'.parse_eq, hversion.withVersion_append, parseCode, parseCode]
    dsimp only
    rw [← codeAt, ← codeAt]
    by_cases hstart : codeAt p ≥ maxStatusLineLen
    · rw [if_pos hstart, if_pos (Nat.le_trans hstart (hversion.codeAt_le_append q))]
      exact .inr ⟨rfl, rfl⟩
    · rw [if_neg hstart]
      by_cases hlength : p.length - codeAt p < minStatusLineLen - versionLen
      · rw [if_pos hlength]
        exact .inl rfl
      · have hcode := hversion.codeAt_append (by omega) q
        have hdigit : isDigit (p.getD (codeAt p) 0) = false := by
          rw [← Bool.not_eq_true]
          exact fun hdigit => h ⟨hversion, Nat.lt_of_not_ge hstart, by omega, hdigit⟩
        have hlength' : ¬ (p ++ q).length - codeAt p < minStatusLineLen - versionLen := by
          rw [List.length_append]
          omega
        rw [if_neg hlength, hcode, if_neg hstart, if_neg hlength', getD_append_of_lt (by omega), hdigit,
          Bool.not_false, if_pos rfl, if_pos rfl]
        exact .inr ⟨rfl, rfl⟩
  · rw [parse, parse]
    dsimp only
    rw [← versionAt, ← versionAt]
    by_cases hshort : p.length < minStatusLineLen
    · rw [if_pos hshort]
      exact .inl rfl
    · have hshort' : ¬ (p ++ q).length < minStatusLineLen := by
        rw [List.length_append]
        omega
      rw [if_neg hshort, if_neg hshort']
      by_cases hstart : versionAt p ≥ maxStatusLineLen
      · have hle : versionAt p ≤ versionAt (p ++ q) := skipSpaceAndTab_le_append (Nat.zero_le _) q
        rw [if_pos hstart, if_pos (Nat.le_trans hstart hle)]
        exact .inr ⟨rfl, rfl⟩
      · rw [if_neg hstart]
        by_cases hlength : p.length - versionAt p < minStatusLineLen
        · rw [if_pos hlength]
          exact .inl rfl
        · have hlength' : versionAt p + minStatusLineLen ≤ p.length := by omega
          have hinvalid : validVersion (p.drop (versionAt p)) = false := by
            rw [← Bool.not_eq_true]
            exact fun hvalid => hversion ⟨Nat.lt_of_not_ge hstart, hlength', hvalid⟩
          have hmore : ¬ (p ++ q).length - versionAt p < minStatusLineLen := by
            rw [List.length_append]
            omega
          rw [if_neg hlength, drop_versionAt_append hlength', validVersion_append, hinvalid,
            versionAt_append hlength', if_neg hstart, if_neg hmore, Bool.not_false, if_pos rfl, if_pos rfl]
          · exact .inr ⟨rfl, rfl⟩
          · rw [List.length_drop]
            omega

theorem HasCode.append (h : HasCode p) (q : Bytes) : HasCode (p ++ q) := by
  have hlength := h.codeLength
  have hmin : minStatusLineLen = 14 := rfl
  have hlen : versionLen = 8 := rfl
  have hcode := h.toHasVersion.codeAt_append (by omega) q
  refine ⟨h.toHasVersion.append q, ?_, ?_, ?_⟩
  · rw [hcode]
    exact h.codeStart
  · rw [hcode, List.length_append]
    exact Nat.le_add_right_of_le hlength
  · rw [hcode, getD_append_of_lt (by omega)]
    exact h.digit

theorem HasCode.codeAt_append (h : HasCode p) (q : Bytes) : codeAt (p ++ q) = codeAt p := by
  have hlength := h.codeLength
  have hmin : minStatusLineLen = 14 := rfl
  have hlen : versionLen = 8 := rfl
  exact h.toHasVersion.codeAt_append (by omega) q

theorem HasCode.drop_codeAt_append (h : HasCode p) (q : Bytes) :
    (p ++ q).drop (codeAt (p ++ q)) = p.drop (codeAt p) ++ q := by
  have hlength := h.codeLength
  rw [h.codeAt_append, List.drop_append_of_le_length (by omega)]

theorem HasCode.reasonAt_le_append (h : HasCode p) (q : Bytes) : reasonAt p ≤ reasonAt (p ++ q) := by
  have hlength := h.codeLength
  have hmin : minStatusLineLen = 14 := rfl
  have hlen : versionLen = 8 := rfl
  have hcode : statusCodeLen = 3 := rfl
  rw [reasonAt, reasonAt, h.codeAt_append]
  exact skipSpaceAndTab_le_append (by omega) q

theorem HasCode.reasonAt_append (h : HasCode p) (hreason : reasonAt p < p.length) (q : Bytes) :
    reasonAt (p ++ q) = reasonAt p := by
  rw [reasonAt, h.codeAt_append]
  exact skipSpaceAndTab_append hreason q

/-- The verdict on data with a number for the status code. -/
theorem HasCode.parse_invalid_iff (h : HasCode p) :
    (s.parse p).2 = .invalid ↔ ¬ StartsLine p := by
  rw [h.parse_eq]
  constructor
  · intro hinvalid hstarts
    have hcode := hstarts.code
    rw [if_neg (by omega), if_neg (Nat.not_le.mpr hstarts.reasonStart)] at hinvalid
    split at hinvalid
    · cases hinvalid
    · cases hinvalid
  · intro hnot
    split
    · rfl
    · next hcode =>
      split
      · rfl
      · next hreason => exact absurd ⟨h, by omega, Nat.lt_of_not_ge hreason⟩ hnot

theorem StartsLine.parse_eq (h : StartsLine p) :
    s.parse p = if lineEnd p ≥ p.length then (s.withCode p, .incomplete) else (s.withReason p, .valid) := by
  have hcode := h.code
  rw [h.toHasCode.parse_eq, if_neg (by omega), if_neg (Nat.not_le.mpr h.reasonStart)]

/-- **What `parse` accepts**: the start of a line, and a line break. -/
theorem parse_valid_iff : (s.parse p).2 = .valid ↔ StartsLine p ∧ lineEnd p < p.length := by
  constructor
  · intro hvalid
    have hcode : HasCode p := by
      by_contra hnot
      rcases parse_append_of_not_hasCode s hnot [] with hverdict | ⟨hverdict, -⟩
      · rw [hvalid] at hverdict
        cases hverdict
      · rw [hvalid] at hverdict
        cases hverdict
    have hstarts : StartsLine p := by
      by_contra hnot
      rw [(hcode.parse_invalid_iff s).mpr hnot] at hvalid
      cases hvalid
    refine ⟨hstarts, ?_⟩
    by_contra hend
    rw [hstarts.parse_eq, if_pos (Nat.le_of_not_lt hend)] at hvalid
    cases hvalid
  · intro h
    rw [h.1.parse_eq, if_neg (Nat.not_le.mpr h.2)]

/-! ### A line that is accepted -/

/-- The data ends among the line breaks after the line, and there are more of them. -/
def CutInBreaks (p q : Bytes) : Prop :=
  (p.drop (lineEnd p)).all isBreak = true ∧ q.head?.any isBreak = true

theorem isDigit_lf : isDigit lf = false := by decide

/-- The number ends in a line that does. -/
theorem codeOf_append_of_lineEnd (h : HasCode p) (hend : lineEnd p < p.length) (q : Bytes) :
    codeOf (p ++ q) = codeOf p := by
  rw [codeOf, codeOf, h.drop_codeAt_append]
  apply atoiLoop_append_of_stop
  rw [List.all_eq_false]
  have hle : codeAt p ≤ lineEnd p := by
    have hreason := le_skipSpaceAndTab p (codeAt p + statusCodeLen)
    have hbreak := le_findLineBreak p (reasonAt p)
    rw [← reasonAt] at hreason
    rw [← lineEnd] at hbreak
    omega
  have hlf : (p.drop (codeAt p))[lineEnd p - codeAt p]? = some lf := by
    rw [List.getElem?_drop, Nat.add_sub_of_le hle]
    exact getElem?_findLineBreak hend
  refine ⟨lf, List.mem_of_getElem? hlf, ?_⟩
  rw [isDigit_lf]
  exact Bool.false_ne_true

theorem reasonAt_lt (hend : lineEnd p < p.length) : reasonAt p < p.length :=
  Nat.lt_of_le_of_lt (le_findLineBreak p (reasonAt p)) hend

theorem HasCode.lineEnd_append (h : HasCode p) (hend : lineEnd p < p.length) (q : Bytes) :
    lineEnd (p ++ q) = lineEnd p := by
  rw [lineEnd, h.reasonAt_append (reasonAt_lt hend)]
  exact findLineBreak_append hend q

theorem StartsLine.append (h : StartsLine p) (hend : lineEnd p < p.length) (q : Bytes) : StartsLine (p ++ q) where
  toHasCode := h.toHasCode.append q
  code := by
    rw [codeOf_append_of_lineEnd h.toHasCode hend]
    exact h.code
  reasonStart := by
    rw [h.toHasCode.reasonAt_append (reasonAt_lt hend)]
    exact h.reasonStart

/-- A line that is accepted stays accepted, with the same fields. -/
theorem parse_append_of_valid (h : (s.parse p).2 = .valid) (q : Bytes) : s.parse (p ++ q) = s.parse p := by
  obtain ⟨hstarts, hend⟩ := (parse_valid_iff s).mp h
  have hcode := hstarts.toHasCode
  have hreasonLt := reasonAt_lt hend
  have hline := hcode.lineEnd_append hend q
  have hreason := hcode.reasonAt_append hreasonLt q
  have hbound : lineEnd p < (p ++ q).length := by
    rw [List.length_append]
    omega
  have hfields : s.withCode (p ++ q) = s.withCode p := by
    rw [withCode, withCode, hcode.toHasVersion.withVersion_append, codeOf_append_of_lineEnd hcode hend]
  rw [(hstarts.append hend q).parse_eq, hstarts.parse_eq, hline, if_neg (Nat.not_le.mpr hbound),
    if_neg (Nat.not_le.mpr hend), withReason, withReason, hline, hreason, hfields,
    List.drop_append_of_le_length (Nat.le_of_lt hreasonLt), List.take_append_of_le_length]
  rw [List.length_drop]
  omega

theorem bytesRead_of_valid (h : (s.parse p).2 = .valid) :
    s.bytesRead p = lineEnd p + ((p.drop (lineEnd p)).takeWhile isBreak).length := by
  rw [bytesRead, h]

theorem length_takeWhile_append_eq_iff {f : UInt8 → Bool} {x y : Bytes} :
    ((x ++ y).takeWhile f).length = (x.takeWhile f).length ↔ ¬ (x.all f = true ∧ y.head?.any f = true) := by
  cases hall : x.all f with
  | true =>
    have hself : x.takeWhile f = x := List.takeWhile_eq_self_iff.mpr (List.all_eq_true.mp hall)
    rw [List.takeWhile_append_of_pos (List.all_eq_true.mp hall), hself, List.length_append]
    cases y with
    | nil => simp
    | cons b y =>
      cases hb : f b with
      | true => simp [hb]
      | false => simp [hb]
  | false =>
    have hstop : (x.takeWhile f).length < x.length := by
      apply Nat.lt_of_le_of_ne (List.takeWhile_prefix f).length_le
      intro hlen
      have hself := (List.takeWhile_prefix f (l := x)).eq_of_length hlen
      have htrue : x.all f = true := List.all_eq_true.mpr (List.takeWhile_eq_self_iff.mp hself)
      rw [hall] at htrue
      cases htrue
    rw [takeWhile_append_of_stop hstop]
    simp

/-- **The bytes of a line that is accepted**: they are those read before if the data did not end among the
line breaks. -/
theorem bytesRead_append_of_valid (h : (s.parse p).2 = .valid) (q : Bytes) :
    s.bytesRead (p ++ q) = s.bytesRead p ↔ ¬ CutInBreaks p q := by
  obtain ⟨hstarts, hend⟩ := (parse_valid_iff s).mp h
  have hvalid : (s.parse (p ++ q)).2 = .valid := by
    rw [parse_append_of_valid s h]
    exact h
  rw [bytesRead_of_valid s hvalid, bytesRead_of_valid s h, hstarts.toHasCode.lineEnd_append hend,
    List.drop_append_of_le_length (Nat.le_of_lt hend), CutInBreaks, ← length_takeWhile_append_eq_iff]
  exact Nat.add_left_cancel_iff

/-! ### A line that is rejected -/

/-- The data ends inside of the number for the status code, and the rest of it makes another number. -/
def CutInCode (p q : Bytes) : Prop :=
  (p.drop (codeAt p)).all isDigit = true ∧ q.head?.any isDigit = true ∧ codeOf p < 2 ^ 31 - 1 ∧
    (codeOf p = 0 → atoiLoop 0 q ≠ 0)

theorem codeOf_append_eq_iff (h : HasCode p) (q : Bytes) : codeOf (p ++ q) = codeOf p ↔ ¬ CutInCode p q := by
  have hcode : codeOf (p ++ q) = atoiLoop 0 (p.drop (codeAt p) ++ q) := by
    rw [codeOf, h.drop_codeAt_append]
  rw [hcode, CutInCode]
  cases hall : (p.drop (codeAt p)).all isDigit with
  | false =>
    rw [atoiLoop_append_of_stop hall, ← codeOf]
    simp
  | true =>
    have hle : codeOf p ≤ 2 ^ 31 - 1 := by
      have hmore := atoiLoop_append hall (by decide : 0 < 2 ^ 31 - 1) []
      rw [List.append_nil, ← codeOf] at hmore
      split at hmore
      · next hlt => exact Nat.le_of_lt hlt
      · exact Nat.le_of_eq hmore
    rw [atoiLoop_append hall (by decide), ← codeOf]
    split
    · next hlt =>
      cases q with
      | nil =>
        rw [atoiLoop]
        simp
      | cons d q =>
        cases hd : isDigit d with
        | false =>
          rw [atoiLoop, hd, if_neg Bool.false_ne_true]
          simp [hd]
        | true =>
          rcases Nat.eq_zero_or_pos (codeOf p) with hzero | hpos
          · rw [hzero]
            simp [hd]
          · have hgrow := lt_atoiLoop hpos hlt hd q
            constructor
            · intro heq
              exact absurd heq (Nat.ne_of_gt hgrow)
            · intro hnot
              refine absurd ⟨rfl, ?_, hlt, ?_⟩ hnot
              · simp [hd]
              · intro hzero
                exact absurd hzero (Nat.ne_of_gt hpos)
    · next hlt =>
      constructor
      · rintro - ⟨-, -, hlt', -⟩
        exact hlt hlt'
      · intro
        omega

theorem HasCode.statusCode_parse (h : HasCode p) : (s.parse p).1.statusCode = codeOf p := by
  rw [h.parse_eq]
  split
  · rfl
  · split
    · rfl
    · split
      · rfl
      · rw [withReason]
        split
        · rfl
        · rfl

/-- **A line that is rejected** stays rejected, with the same fields, if the data did not end inside of the
status code. -/
theorem parse_append_of_invalid (h : (s.parse p).2 = .invalid) (q : Bytes) :
    s.parse (p ++ q) = s.parse p ↔ ¬ (HasCode p ∧ CutInCode p q) := by
  by_cases hcode : HasCode p
  · have hcode' := hcode.append q
    have hnot := (hcode.parse_invalid_iff s).mp h
    constructor
    · rintro heq ⟨-, hcut⟩
      refine (codeOf_append_eq_iff hcode q).mp ?_ hcut
      rw [← hcode'.statusCode_parse s, heq, hcode.statusCode_parse]
    · intro hcut
      have heq := (codeOf_append_eq_iff hcode q).mpr fun h => hcut ⟨hcode, h⟩
      have hfields : s.withCode (p ++ q) = s.withCode p := by
        rw [withCode, withCode, hcode.toHasVersion.withVersion_append, heq]
      rw [hcode'.parse_eq, hcode.parse_eq, heq, hfields]
      split
      · rfl
      · next hrange =>
        have hreason : maxStatusLineLen ≤ reasonAt p := by
          by_contra hlt
          exact hnot ⟨hcode, by omega, Nat.lt_of_not_le hlt⟩
        rw [if_pos hreason, if_pos (Nat.le_trans hreason (hcode.reasonAt_le_append q))]
  · constructor
    · rintro - ⟨h', -⟩
      exact hcode h'
    · rintro -
      rcases parse_append_of_not_hasCode s hcode q with hverdict | ⟨-, heq⟩
      · rw [h] at hverdict
        cases hverdict
      · exact heq

/-! ### A line that is too long -/

/-- **The limit on the length** holds for the start of a line only. -/
theorem not_valid_iff_of_long (hlong : maxStatusLineLen ≤ findLineBreak p 0) (hbreak : findLineBreak p 0 < p.length) :
    (s.parse p).2 ≠ .valid ↔ ¬ StartsLine p := by
  rw [ne_eq, parse_valid_iff, not_iff_not]
  constructor
  · exact fun h => h.1
  · intro h
    refine ⟨h, ?_⟩
    have hle := findLineBreak_le (Nat.le_trans (Nat.le_of_lt h.reasonStart) hlong) (getElem?_findLineBreak hbreak)
    exact Nat.lt_of_le_of_lt hle hbreak

end Parse

end StatusLine

/-! ## The header -/

/-- LF CR LF at an offset. -/
def BlankAt (p : Bytes) (k : Nat) : Prop := p[k]? = some lf ∧ p[k + 1]? = some cr ∧ p[k + 2]? = some lf

/-- The first of them. -/
def FirstBlankAt (p : Bytes) (k : Nat) : Prop := BlankAt p k ∧ ∀ j < k, ¬ BlankAt p j

/-- The line feeds `findBlankLine` stops at: each hides those in the two bytes after it. -/
def stopsAt (p : Bytes) : Nat → Bool
  | 0 => p[0]? == some lf
  | 1 => p[1]? == some lf && !stopsAt p 0
  | k + 2 => p[k + 2]? == some lf && !stopsAt p (k + 1) && !stopsAt p k

/-- Nothing in the two bytes before an offset is stopped at. -/
def Clear (p : Bytes) (off : Nat) : Prop := ∀ i < off, off ≤ i + 2 → stopsAt p i = false

theorem lf_of_stopsAt {p : Bytes} {k : Nat} (h : stopsAt p k = true) : p[k]? = some lf := by
  match k with
  | 0 =>
    rw [stopsAt] at h
    exact eq_of_beq h
  | 1 =>
    rw [stopsAt, Bool.and_eq_true] at h
    exact eq_of_beq h.1
  | k + 2 =>
    rw [stopsAt, Bool.and_eq_true, Bool.and_eq_true] at h
    exact eq_of_beq h.1.1

theorem stopsAt_of_clear {p : Bytes} {k : Nat} (h : p[k]? = some lf) (hclear : Clear p k) :
    stopsAt p k = true := by
  match k with
  | 0 =>
    rw [stopsAt]
    exact beq_iff_eq.mpr h
  | 1 =>
    rw [stopsAt, hclear 0 (by omega) (by omega), Bool.not_false, Bool.and_true]
    exact beq_iff_eq.mpr h
  | k + 2 =>
    rw [stopsAt, hclear (k + 1) (by omega) (by omega), hclear k (by omega) (by omega), Bool.not_false,
      Bool.and_true, Bool.and_true]
    exact beq_iff_eq.mpr h

theorem clear_of_stopsAt {p : Bytes} {k : Nat} (h : stopsAt p k = true) : Clear p (k + 3) := by
  intro i hi hi'
  rcases Nat.lt_or_ge (k + 1) i with hlt | hle
  · have heq : i = k + 2 := by omega
    subst heq
    rw [stopsAt, h, Bool.not_true, Bool.and_false]
  · have heq : i = k + 1 := by omega
    subst heq
    cases k with
    | zero => rw [stopsAt, h, Bool.not_true, Bool.and_false]
    | succ k => rw [stopsAt, h, Bool.not_true, Bool.and_false, Bool.false_and]

/-- The next stop is the next line break, and nothing between is one. -/
theorem stopsAt_findLineBreak {p : Bytes} {off : Nat} (hclear : Clear p off) :
    (findLineBreak p off < p.length → stopsAt p (findLineBreak p off) = true) ∧
      ∀ i, off ≤ i → i < findLineBreak p off → stopsAt p i = false := by
  have hbetween : ∀ i, off ≤ i → i < findLineBreak p off → stopsAt p i = false := by
    intro i hoff hi
    rw [← Bool.not_eq_true]
    exact fun hstop => ne_of_lt_findLineBreak hoff hi (lf_of_stopsAt hstop)
  refine ⟨?_, hbetween⟩
  intro hlt
  apply stopsAt_of_clear (getElem?_findLineBreak hlt)
  intro i hi hi'
  rcases Nat.lt_or_ge i off with hbefore | hafter
  · have hle := le_findLineBreak p off
    exact hclear i hbefore (by omega)
  · exact hbetween i hafter hi

theorem blankAt_iff {p : Bytes} {k : Nat} (h : k + 2 < p.length) (hk : p[k]? = some lf) :
    BlankAt p k ↔ p.getD (k + 1) 0 = cr ∧ p.getD (k + 2) 0 = lf := by
  rw [BlankAt, List.getD_eq_getElem?_getD, List.getD_eq_getElem?_getD,
    List.getElem?_eq_getElem (by omega : k + 1 < p.length), List.getElem?_eq_getElem h]
  simp [hk]

theorem BlankAt.lt {p : Bytes} {k : Nat} (h : BlankAt p k) : k + 2 < p.length :=
  (List.getElem?_eq_some_iff.mp h.2.2).1

/-- `findBlankLine` finds the first blank line among its stops. -/
theorem findBlankLine_spec {p : Bytes} {fuel off : Nat} (hclear : Clear p off) (hfuel : p.length < off + fuel) :
    (∃ k, findBlankLine p fuel off = k + 2 ∧ stopsAt p k = true ∧ BlankAt p k ∧
        ∀ i, off ≤ i → i < k → stopsAt p i = true → ¬ BlankAt p i) ∨
      findBlankLine p fuel off = p.length ∧ ∀ i, off ≤ i → stopsAt p i = true → ¬ BlankAt p i := by
  induction fuel generalizing off with
  | zero =>
    refine .inr ⟨rfl, ?_⟩
    intro i hi hstop hblank
    have hlt := hblank.lt
    omega
  | succ fuel ih =>
    obtain ⟨hstop, hbetween⟩ := stopsAt_findLineBreak hclear
    have hle := le_findLineBreak p off
    rw [findBlankLine]
    split
    · dsimp only
      split
      · next hend =>
        refine .inr ⟨rfl, ?_⟩
        intro i hi hstopi hblank
        have hlt := hblank.lt
        rw [hbetween i hi (by omega)] at hstopi
        cases hstopi
      · next hend =>
        have hstop' := hstop (by omega)
        have hiff := blankAt_iff (by omega) (lf_of_stopsAt hstop')
        split
        · next hblank =>
          refine .inl ⟨_, rfl, hstop', hiff.mpr hblank, ?_⟩
          intro i hi hlt hstopi
          rw [hbetween i hi hlt] at hstopi
          cases hstopi
        · next hblank =>
          -- What is stopped at and passed over is no blank line.
          have hpassed : ∀ i, off ≤ i → i < findLineBreak p off + 3 → stopsAt p i = true → ¬ BlankAt p i := by
            intro i hi hlt hstopi
            rcases Nat.lt_trichotomy i (findLineBreak p off) with hbefore | rfl | hafter
            · rw [hbetween i hi hbefore] at hstopi
              cases hstopi
            · exact fun h => hblank (hiff.mp h)
            · rw [clear_of_stopsAt hstop' i hlt (by omega)] at hstopi
              cases hstopi
          rcases ih (clear_of_stopsAt hstop') (by omega) with ⟨k, hk, hstopk, hblankk, hfirst⟩ | ⟨hnone, hall⟩
          · refine .inl ⟨k, hk, hstopk, hblankk, ?_⟩
            intro i hi hlt
            rcases Nat.lt_or_ge i (findLineBreak p off + 3) with hbefore | hafter
            · exact hpassed i hi hbefore
            · exact hfirst i hafter hlt
          · refine .inr ⟨hnone, ?_⟩
            intro i hi
            rcases Nat.lt_or_ge i (findLineBreak p off + 3) with hbefore | hafter
            · exact hpassed i hi hbefore
            · exact hall i hafter
    · refine .inr ⟨rfl, ?_⟩
      intro i hi hstopi hblank
      have hlt := hblank.lt
      omega

theorem exists_firstBlankAt {p : Bytes} {k : Nat} (h : BlankAt p k) : ∃ j, FirstBlankAt p j := by
  classical
  exact ⟨Nat.find ⟨k, h⟩, Nat.find_spec ⟨k, h⟩, fun j hj => Nat.find_min ⟨k, h⟩ hj⟩

theorem FirstBlankAt.unique {p : Bytes} {i j : Nat} (hi : FirstBlankAt p i) (hj : FirstBlankAt p j) : i = j := by
  rcases Nat.lt_trichotomy i j with hlt | heq | hgt
  · exact absurd hi.1 (hj.2 i hlt)
  · exact heq
  · exact absurd hj.1 (hi.2 j hgt)

/-- The answer of `Header::parse` that goes by the first blank line: 0 where there is none, and where it
succeeds, the bytes up to its end. -/
def EndsHeader (p : Bytes) (answer : Option Nat) : Prop :=
  (answer = some 0 ↔ ∀ k, ¬ BlankAt p k) ∧
    ∀ n, answer = some n → 0 < n → ∃ k, FirstBlankAt p k ∧ n = k + 3

/-- **The end of the header** is where the first blank line is, if the scan stops there. -/
theorem Header.endsHeader_parse_iff (readFields : Bytes → PocoRead) (h : Header) {p : Bytes}
    {fields : List (Bytes × Bytes)} (hfields : readFields p = .fields fields) :
    EndsHeader p (h.parse readFields p).2 ↔
      ∀ k, FirstBlankAt p k → 4 ≤ p.length ∧ stopsAt p k = true := by
  rw [Header.parse]
  split
  · next hshort =>
    constructor
    · intro hends k hk
      exact absurd hk.1 (hends.1.mp rfl k)
    · intro hstops
      refine ⟨⟨?_, fun _ => rfl⟩, ?_⟩
      · intro _ k hk
        obtain ⟨j, hj⟩ := exists_firstBlankAt hk
        exact absurd hshort (Nat.not_lt.mpr (hstops j hj).1)
      · intro n hn hpos
        rw [← Option.some.inj hn] at hpos
        exact absurd hpos (Nat.lt_irrefl 0)
  · next hlong =>
    have hclear : Clear p 0 := fun i hi => absurd hi (Nat.not_lt_zero i)
    have hfuel : p.length < 0 + (p.length + 1) := by omega
    dsimp only
    rcases findBlankLine_spec hclear hfuel with
      ⟨k, hk, hstop, hblank, hfirst⟩ | ⟨hnone, hall⟩
    · have hlt := hblank.lt
      rw [hk, if_neg (by omega), hfields]
      dsimp only
      constructor
      · intro hends i hi
        obtain ⟨j, hj, heq⟩ := hends.2 (k + 2 + 1) rfl (Nat.succ_pos _)
        have hjk : j = k := by omega
        rw [hi.unique hj, hjk]
        exact ⟨Nat.le_of_not_lt hlong, hstop⟩
      · intro hstops
        obtain ⟨j, hj⟩ := exists_firstBlankAt hblank
        have hjk : j = k := by
          rcases Nat.lt_trichotomy j k with hlt | heq | hgt
          · exact absurd hj.1 (hfirst j (Nat.zero_le _) hlt (hstops j hj).2)
          · exact heq
          · exact absurd hblank (hj.2 k hgt)
        refine ⟨⟨?_, ?_⟩, ?_⟩
        · intro hzero
          cases hzero
        · intro hno
          exact absurd hblank (hno k)
        · intro n hn _
          rw [← Option.some.inj hn]
          exact ⟨j, hj, by omega⟩
    · rw [hnone, if_pos rfl]
      constructor
      · intro hends k hk
        exact absurd hk.1 (hends.1.mp rfl k)
      · intro hstops
        refine ⟨⟨?_, fun _ => rfl⟩, ?_⟩
        · intro _ k hk
          obtain ⟨j, hj⟩ := exists_firstBlankAt hk
          exact hall j (Nat.zero_le _) (hstops j hj).2 hj.1
        · intro n hn hpos
          rw [← Option.some.inj hn] at hpos
          exact absurd hpos (Nat.lt_irrefl 0)

/-! ## Heads that arrive in parts -/

/-- What `StatusLine::parse` made of the data it makes of more: the verdict, the fields and the bytes read. -/
def StatusLine.Stable (s : StatusLine) (p q : Bytes) : Prop :=
  s.parse (p ++ q) = s.parse p ∧ s.bytesRead (p ++ q) = s.bytesRead p

theorem StatusLine.stable_iff_of_valid {s : StatusLine} {p : Bytes} (h : (s.parse p).2 = .valid) (q : Bytes) :
    s.Stable p q ↔ ¬ CutInBreaks p q := by
  rw [Stable, bytesRead_append_of_valid s h]
  constructor
  · exact fun hstable => hstable.2
  · exact fun hcut => ⟨parse_append_of_valid s h q, hcut⟩

theorem StatusLine.stable_iff_of_invalid {s : StatusLine} {p : Bytes} (h : (s.parse p).2 = .invalid)
    (q : Bytes) : s.Stable p q ↔ ¬ (HasCode p ∧ CutInCode p q) := by
  rw [Stable, ← parse_append_of_invalid s h]
  constructor
  · exact fun hstable => hstable.1
  · intro heq
    refine ⟨heq, ?_⟩
    rw [bytesRead, bytesRead, heq]
    rw [h]

/-- **When parsing is right about data that is not all there.** A line that is accepted is stable if the
data was not cut among the line breaks after it, one that is rejected if it was not cut inside of its status
code; a line that is too long is not accepted if it has no start either; and a header ends at its first blank
line if that is one `findBlankLine` stops at. -/
theorem parse_head_iff (s : StatusLine) (h : Header) (readFields : Bytes → PocoRead) (p q : Bytes)
    (hpoco : ∃ fields, readFields p = .fields fields) :
    ((s.parse p).2 = .valid → (s.Stable p q ↔ ¬ StatusLine.CutInBreaks p q)) ∧
    ((s.parse p).2 = .invalid → (s.Stable p q ↔ ¬ (StatusLine.HasCode p ∧ StatusLine.CutInCode p q))) ∧
    (StatusLine.maxStatusLineLen ≤ findLineBreak p 0 → findLineBreak p 0 < p.length →
      ((s.parse p).2 ≠ .valid ↔ ¬ StatusLine.StartsLine p)) ∧
    (EndsHeader p (h.parse readFields p).2 ↔
      ∀ k, FirstBlankAt p k → 4 ≤ p.length ∧ stopsAt p k = true) := by
  obtain ⟨fields, hfields⟩ := hpoco
  refine ⟨?_, ?_, ?_, ?_⟩
  · exact fun hvalid => StatusLine.stable_iff_of_valid hvalid q
  · exact fun hinvalid => StatusLine.stable_iff_of_invalid hinvalid q
  · exact fun hlong hbreak => StatusLine.not_valid_iff_of_long s hlong hbreak
  · exact Header.endsHeader_parse_iff readFields h hfields

/-- A line that is not cut, a line that is rejected before its code, one that is too long, and a header. -/
theorem parse_head_iff_inputs :
    (StatusLine.empty.Stable (ascii "HTTP/1.1 200 OK\r\n") (ascii "Server: x\r\n\r\n") ↔
      ¬ StatusLine.CutInBreaks (ascii "HTTP/1.1 200 OK\r\n") (ascii "Server: x\r\n\r\n")) ∧
    (StatusLine.empty.Stable (ascii "HTTP/1.1 600 OK") (ascii "\r\n") ↔
      ¬ (StatusLine.HasCode (ascii "HTTP/1.1 600 OK") ∧
        StatusLine.CutInCode (ascii "HTTP/1.1 600 OK") (ascii "\r\n"))) ∧
    ((StatusLine.empty.parse (List.replicate 523 120 ++ [lf])).2 ≠ .valid ↔
      ¬ StatusLine.StartsLine (List.replicate 523 120 ++ [lf])) ∧
    (EndsHeader (ascii "Server: x\r\n\r\n")
        (Header.empty.parse (fun _ => .fields []) (ascii "Server: x\r\n\r\n")).2 ↔
      ∀ k, FirstBlankAt (ascii "Server: x\r\n\r\n") k →
        4 ≤ (ascii "Server: x\r\n\r\n").length ∧ stopsAt (ascii "Server: x\r\n\r\n") k = true) :=
  ⟨(parse_head_iff .empty .empty (fun _ => .fields []) _ _ ⟨[], rfl⟩).1 (by decide +kernel),
    (parse_head_iff .empty .empty (fun _ => .fields []) _ _ ⟨[], rfl⟩).2.1 (by decide +kernel),
    (parse_head_iff .empty .empty (fun _ => .fields []) _ [] ⟨[], rfl⟩).2.2.1 (by decide +kernel)
      (by decide +kernel),
    (parse_head_iff .empty .empty (fun _ => .fields []) _ [] ⟨[], rfl⟩).2.2.2⟩

/-- A line whose line breaks are cut, one whose status code is, one of more than `MaxStatusLineLen` bytes, and
a header with an empty line without a CR before its end. -/
theorem not_parse_head :
    (StatusLine.empty.parse (ascii "HTTP/1.1 200 OK\r\n")).2 = .valid ∧
      ¬ StatusLine.empty.Stable (ascii "HTTP/1.1 200 OK\r\n") (ascii "\r\n") ∧
    (StatusLine.empty.parse (ascii "HTTP/1.1 000000")).2 = .invalid ∧
      ¬ StatusLine.empty.Stable (ascii "HTTP/1.1 000000") (ascii "200 OK\r\n") ∧
    (StatusLine.empty.parse (ascii "HTTP/1.1 200 " ++ List.replicate 523 120 ++ crlf)).2 = .valid ∧
    ¬ EndsHeader (ascii "a\n\n\r\n") (Header.empty.parse (fun _ => .fields []) (ascii "a\n\n\r\n")).2 := by
  refine ⟨by decide +kernel, ?_, by decide +kernel, ?_, by decide +kernel, ?_⟩
  · intro hstable
    exact absurd hstable.2 (by decide +kernel)
  · intro hstable
    exact absurd hstable.1 (by decide +kernel)
  · intro hends
    have hblank : BlankAt (ascii "a\n\n\r\n") 2 := ⟨by decide, by decide, by decide⟩
    exact hends.1.mp (by decide) 2 hblank

end Oxool.Http
