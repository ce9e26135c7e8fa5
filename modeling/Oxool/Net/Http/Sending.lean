import Oxool.Net.Http.Fields

/-!
# What the server writes

The start of a serialised response, read back by the functions that read it: the status line, and
the blank line that ends the header. What is cut short is recognised as such.
-/

set_option autoImplicit false

namespace Oxool.Http

/-! ## The status line -/

/-- The three digits of a status code. -/
theorem statusCode_digits {code : Nat} (h100 : 100 ≤ code) (h599 : code ≤ 599) :
    ∃ a b c, ascii (toString code) = [a, b, c] ∧ isDigit a = true ∧
      ∀ rest, atoiLoop 0 (a :: b :: c :: 32 :: rest) = code := by
  have hdigits : Nat.toDigits 10 code =
      [Nat.digitChar (code / 100), Nat.digitChar (code / 10 % 10), Nat.digitChar (code % 10)] := by
    rw [Nat.toDigits_of_base_le (by decide) (by omega : 10 ≤ code),
      Nat.toDigits_of_base_le (by decide) (by omega : 10 ≤ code / 10),
      Nat.toDigits_of_lt_base (by omega : code / 10 / 10 < 10), Nat.div_div_eq_div_mul]
    rfl
  have ha := decimal_value (code / 100) (by omega)
  have hb := decimal_value (code / 10 % 10) (by omega)
  have hc := decimal_value (code % 10) (by omega)
  have ha' := decimal_isDigit (code / 100) (by omega)
  have hb' := decimal_isDigit (code / 10 % 10) (by omega)
  have hc' := decimal_isDigit (code % 10) (by omega)
  refine ⟨_, _, _, by rw [ascii_toString, hdigits]; rfl, ha', fun rest => ?_⟩
  have hblank : isDigit 32 = false := by decide
  simp only [atoiLoop, ha', hb', hc', hblank, ha, hb, hc, if_true]
  rw [if_neg (by omega), if_neg (by omega), if_neg (by omega)]
  simp only [Bool.false_eq_true, if_false]
  omega

theorem reasonPhrase_facts (code : Nat) :
    2 ≤ (getReasonPhraseForCode code).length ∧
      (∀ b ∈ getReasonPhraseForCode code, b ≠ lf ∧ b ≠ cr) ∧
      (getReasonPhraseForCode code).head?.map isWhitespace = some false := by
  rw [← unbroken_iff]
  unfold getReasonPhraseForCode
  split <;> decide +kernel

theorem not_isWhitespace_of_isDigit : ∀ {b : UInt8}, isDigit b = true → isWhitespace b = false :=
  @(forall_byte (by decide +kernel))

/-- Blanks are skipped up to the next word. -/
theorem skipSpaceAndTab_blank (pre : Bytes) {x : UInt8} (rest : Bytes) (hx : isWhitespace x = false) :
    skipSpaceAndTab (pre ++ 32 :: x :: rest) pre.length = pre.length + 1 := by
  have hblank : isWhitespace 32 = true := by decide
  rw [skipSpaceAndTab, List.drop_left, List.takeWhile_cons_of_pos hblank,
    List.takeWhile_cons_of_neg (by rw [hx]; decide)]
  rfl

/-- The version a server writes, and what is in the status line then. -/
def http11 : Bytes := [72, 84, 84, 80, 47, 49, 46, 49]

theorem http11_eq : ascii "HTTP/1.1" = http11 := by decide

theorem parse_version (s : StatusLine) (rest : Bytes) (hlen : 5 ≤ rest.length) :
    s.parse (http11 ++ 32 :: rest) =
      { s with httpVersion := http11, versionMajor := 1, versionMinor := 1 }.parseCode
        (http11 ++ 32 :: rest) 8 := by
  have hplen : (http11 ++ 32 :: rest).length = rest.length + 9 := by
    simp [http11]
  have h0 : skipSpaceAndTab (http11 ++ 32 :: rest) 0 = 0 := rfl
  have hmin : StatusLine.minStatusLineLen = 14 := rfl
  have hversion : StatusLine.validVersion (http11 ++ 32 :: rest) = true := rfl
  rw [StatusLine.parse]
  dsimp only
  rw [h0, hplen, hmin, if_neg (by omega), if_neg (by decide), if_neg (by omega), List.drop_zero,
    hversion]
  rfl

/-- The status code and the reason phrase, which may still be cut short. -/
theorem parseCode_tail {code : Nat} (h100 : 100 ≤ code) (h599 : code ≤ 599) (s : StatusLine)
    {tail : Bytes} (hlen : 2 ≤ tail.length) (hhead : tail.head?.map isWhitespace = some false) :
    s.parseCode (http11 ++ 32 :: (ascii (toString code) ++ 32 :: tail)) 8 =
      let line := tail.takeWhile (· != lf)
      let read := { s with statusCode := code }
      if line = tail then (read, .incomplete)
      else
        (if line.length - 1 > 0 then { read with reasonPhrase := tail.take (line.length - 1) }
        else read, .valid) := by
  obtain ⟨a, b, c, hcode, ha, hatoi⟩ := statusCode_digits h100 h599
  obtain ⟨d, tail', rfl⟩ : ∃ d t, tail = d :: t := by
    cases tail with
    | nil => exact absurd hlen (by decide)
    | cons d t => exact ⟨d, t, rfl⟩
  have hd : isWhitespace d = false := by simpa using hhead
  rw [hcode]
  generalize hp : http11 ++ 32 :: ([a, b, c] ++ 32 :: d :: tail') = p
  generalize htail : d :: tail' = tail at *
  have hplen : p.length = tail.length + 13 := by
    rw [← hp, ← htail]
    simp [http11]
  have h8 : skipSpaceAndTab p 8 = 9 := by
    rw [← hp]
    exact skipSpaceAndTab_blank http11 _ (not_isWhitespace_of_isDigit ha)
  have h12 : skipSpaceAndTab p 12 = 13 := by
    rw [← hp, ← htail]
    exact skipSpaceAndTab_blank (http11 ++ [32, a, b, c]) tail' hd
  have hget9 : p.getD 9 0 = a := by
    rw [← hp]
    rfl
  have hdrop9 : p.drop 9 = a :: b :: c :: 32 :: tail := by
    rw [← hp, ← htail]
    rfl
  have hdrop13 : p.drop 13 = tail := by
    rw [← hp, ← htail]
    rfl
  have hbreak : findLineBreak p 13 = 13 + (tail.takeWhile (· != lf)).length := by
    rw [findLineBreak, hdrop13]
  have hwhole : 13 + (tail.takeWhile (· != lf)).length ≥ p.length ↔
      tail.takeWhile (· != lf) = tail := by
    rw [hplen]
    refine ⟨fun h => (List.takeWhile_prefix _).eq_of_length ?_, fun h => by rw [h, Nat.add_comm]⟩
    have := (List.takeWhile_prefix (· != lf) (l := tail)).length_le
    omega
  have hmin : StatusLine.minStatusLineLen - StatusLine.versionLen = 6 := rfl
  have hmax : StatusLine.maxStatusLineLen = 523 := rfl
  have hclen : StatusLine.statusCodeLen = 3 := rfl
  rw [StatusLine.parseCode]
  dsimp only
  rw [h8, hmax, hmin, if_neg (by decide), if_neg (by omega), hget9, ha, if_neg (by decide), hdrop9,
    hatoi, if_neg (by omega), hclen, h12, if_neg (by decide), hbreak, hdrop13]
  by_cases hline : tail.takeWhile (· != lf) = tail
  · rw [if_pos (hwhole.mpr hline), if_pos hline]
  · rw [if_neg fun h => hline (hwhole.mp h), if_neg hline, Nat.add_sub_cancel_left]

theorem statusLine_writeData (code : Nat) :
    (StatusLine.ofCode code).writeData =
      http11 ++ 32 :: (ascii (toString code) ++ 32 :: (getReasonPhraseForCode code ++ crlf)) := by
  have hblank : ascii " " = [32] := by decide
  simp [StatusLine.writeData, StatusLine.ofCode, http11_eq, hblank]

/-- A status line that is complete is read, whatever follows it. -/
theorem parse_statusLine {code : Nat} (h100 : 100 ≤ code) (h599 : code ≤ 599) (s : StatusLine)
    (rest : Bytes) :
    s.parse ((StatusLine.ofCode code).writeData ++ rest) = (StatusLine.ofCode code, .valid) := by
  obtain ⟨hlen, hplain, hhead⟩ := reasonPhrase_facts code
  have hassoc : (StatusLine.ofCode code).writeData ++ rest =
      http11 ++ 32 :: (ascii (toString code) ++
        32 :: (getReasonPhraseForCode code ++ cr :: lf :: rest)) := by
    rw [statusLine_writeData]
    simp [crlf]
  have hline : (getReasonPhraseForCode code ++ cr :: lf :: rest).takeWhile (· != lf) =
      getReasonPhraseForCode code ++ [cr] := by
    rw [List.takeWhile_append_of_pos fun b hb => bne_iff_ne.mpr (hplain b hb).1]
    rfl
  have hne : getReasonPhraseForCode code ++ [cr] ≠
      getReasonPhraseForCode code ++ cr :: lf :: rest := by
    simp
  have hword : (getReasonPhraseForCode code ++ cr :: lf :: rest).head?.map isWhitespace =
      some false := by
    rw [← hhead]
    cases hreason : getReasonPhraseForCode code with
    | nil => exact absurd hlen (by rw [hreason]; decide)
    | cons b bs => rfl
  rw [hassoc, parse_version s _ (by simp; omega), parseCode_tail h100 h599 _ (by simp; omega) hword]
  dsimp only
  rw [hline, if_neg hne, List.length_append, List.length_singleton, Nat.add_sub_cancel,
    if_pos (by omega), List.take_left, StatusLine.ofCode, http11_eq]

/-- A status line that is cut short is incomplete. -/
theorem parse_statusLine_cut {code : Nat} (h100 : 100 ≤ code) (h599 : code ≤ 599)
    (s : StatusLine) {w : Bytes} (hw : w <+: (StatusLine.ofCode code).writeData)
    (hne : w ≠ (StatusLine.ofCode code).writeData) : (s.parse w).2 = .incomplete := by
  obtain ⟨hlen, hplain, hhead⟩ := reasonPhrase_facts code
  obtain ⟨a, b, c, hcode, ha, -⟩ := statusCode_digits h100 h599
  by_cases hshort : w.length < StatusLine.minStatusLineLen
  · rw [StatusLine.parse, if_pos hshort]
  rw [show StatusLine.minStatusLineLen = 14 from rfl] at hshort
  have hfull : (StatusLine.ofCode code).writeData =
      (http11 ++ 32 :: (ascii (toString code) ++ [32])) ++
        ((getReasonPhraseForCode code ++ [cr]) ++ [lf]) := by
    rw [statusLine_writeData]
    simp [crlf]
  have hstart : http11 ++ 32 :: (ascii (toString code) ++ [32]) <+: w := by
    refine List.prefix_of_prefix_length_le ⟨_, hfull.symm⟩ hw ?_
    rw [hcode]
    simp only [http11, List.length_append, List.length_cons, List.length_nil]
    omega
  obtain ⟨tail, rfl⟩ := hstart
  -- The line break has not arrived.
  have htail : tail <+: getReasonPhraseForCode code ++ [cr] := by
    rw [hfull] at hw hne
    refine (List.prefix_concat_iff.mp ((List.prefix_append_right_inj _).mp hw)).resolve_left
      fun h => hne ?_
    rw [h]
  have hnolf : tail.takeWhile (· != lf) = tail := by
    refine List.takeWhile_eq_self_iff.mpr fun x hx => bne_iff_ne.mpr ?_
    have hx' := htail.subset hx
    cases List.mem_append.mp hx' with
    | inl hx' => exact (hplain x hx').1
    | inr hx' => rw [List.mem_singleton.mp hx']; decide
  have hassoc : http11 ++ 32 :: (ascii (toString code) ++ [32]) ++ tail =
      http11 ++ 32 :: (ascii (toString code) ++ 32 :: tail) := by simp
  have hwlen : (ascii (toString code) ++ 32 :: tail).length = tail.length + 4 := by
    rw [hcode]
    simp
  have htaillen : 1 ≤ tail.length := by
    rw [hassoc, List.length_append, List.length_cons, hwlen] at hshort
    simp only [http11, List.length_cons, List.length_nil] at hshort
    omega
  rw [hassoc, parse_version s _ (by omega)]
  by_cases hone : tail.length = 1
  · have h8 : skipSpaceAndTab (http11 ++ 32 :: (ascii (toString code) ++ 32 :: tail)) 8 = 9 := by
      rw [hcode]
      exact skipSpaceAndTab_blank http11 _ (not_isWhitespace_of_isDigit ha)
    have hmin : StatusLine.minStatusLineLen - StatusLine.versionLen = 6 := rfl
    have hmax : StatusLine.maxStatusLineLen = 523 := rfl
    rw [StatusLine.parseCode]
    dsimp only
    rw [h8, hmax, hmin, if_neg (by decide), if_pos]
    rw [List.length_append, List.length_cons, hwlen, hone]
    decide
  · have hword : tail.head?.map isWhitespace = some false := by
      obtain ⟨v, hv⟩ := htail
      cases hreason : getReasonPhraseForCode code with
      | nil => exact absurd hlen (by rw [hreason]; decide)
      | cons x xs =>
        cases tail with
        | nil => exact absurd htaillen (by decide)
        | cons y ys =>
          rw [hreason] at hv hhead
          have hxy : y = x := (List.cons.inj hv).1
          rw [hxy]
          exact hhead
    rw [parseCode_tail h100 h599 _ (by omega) hword]
    dsimp only
    rw [if_pos hnolf]

/-! ## The end of the header -/

/-- `findBlankLine` on the data from its offset on, with the offset of the blank line's LF. -/
def blankLine : Nat → Bytes → Option Nat
  | 0, _ => none
  | fuel + 1, x =>
    let line := x.takeWhile (· != lf)
    match x.drop (line.length + 1) with
    | a :: b :: rest =>
      if a = cr ∧ b = lf then some (line.length + 2)
      else (blankLine fuel rest).map (· + (line.length + 3))
    | _ => none

theorem findBlankLine_eq (p : Bytes) (fuel : Nat) : ∀ off,
    findBlankLine p fuel off = ((blankLine fuel (p.drop off)).map (off + ·)).getD p.length := by
  induction fuel with
  | zero => exact fun off => rfl
  | succ fuel ih =>
    intro off
    rw [findBlankLine, blankLine, findLineBreak]
    dsimp only
    generalize ((p.drop off).takeWhile (· != lf)).length = n
    rw [List.drop_drop]
    by_cases hoff : off < p.length
    · rw [if_pos hoff]
      cases hx : p.drop (off + (n + 1)) with
      | nil =>
        have hlen := congrArg List.length hx
        rw [List.length_drop, List.length_nil] at hlen
        exact if_pos (by omega)
      | cons a x =>
        have hlen := congrArg List.length hx
        rw [List.length_drop, List.length_cons] at hlen
        cases x with
        | nil =>
          rw [List.length_nil] at hlen
          exact if_pos (by omega)
        | cons b rest =>
          rw [List.length_cons] at hlen
          have ha : p.getD (off + n + 1) 0 = a := by
            rw [List.getD_eq_getElem?_getD, ← List.head?_drop, Nat.add_assoc, hx]
            rfl
          have hb : p.getD (off + n + 2) 0 = b := by
            have hdrop : p.drop (off + n + 2) = b :: rest := by
              rw [show off + n + 2 = off + (n + 1) + 1 by omega, ← List.drop_drop, hx]
              rfl
            rw [List.getD_eq_getElem?_getD, ← List.head?_drop, hdrop]
            rfl
          have hrest : p.drop (off + n + 3) = rest := by
            rw [show off + n + 3 = off + (n + 1) + 2 by omega, ← List.drop_drop, hx]
            rfl
          rw [if_neg (by omega), ha, hb]
          dsimp only
          by_cases hcrlf : a = cr ∧ b = lf
          · rw [if_pos hcrlf, if_pos hcrlf]
            rfl
          · rw [if_neg hcrlf, if_neg hcrlf, ih, hrest]
            cases blankLine fuel rest with
            | none => rfl
            | some m =>
              simp only [Option.map_some, Option.getD_some]
              omega
    · rw [if_neg hoff, List.drop_eq_nil_of_le (by omega : p.length ≤ off + (n + 1))]
      rfl

/-- A line of a header: its bytes are no line break, and there are two of them at least. -/
structure IsLine (l : Bytes) : Prop where
  length : 2 ≤ l.length
  plain : ∀ b ∈ l, b ≠ lf ∧ b ≠ cr

/-- Some lines with their ends. -/
def flatLines (lines : List Bytes) : Bytes := lines.flatMap (· ++ crlf)

theorem takeWhile_line_end {l : Bytes} (h : ∀ b ∈ l, b ≠ lf ∧ b ≠ cr) (rest : Bytes) :
    (l ++ crlf ++ rest).takeWhile (· != lf) = l ++ [cr] := by
  rw [List.append_assoc, List.takeWhile_append_of_pos fun b hb => bne_iff_ne.mpr (h b hb).1]
  rfl

/-- One round, on data that starts with a line. -/
theorem blankLine_line {l : Bytes} (h : ∀ b ∈ l, b ≠ lf ∧ b ≠ cr) (fuel : Nat) (rest : Bytes) :
    blankLine (fuel + 1) (l ++ crlf ++ rest) =
      match rest with
      | a :: b :: rest =>
        if a = cr ∧ b = lf then some (l.length + 3)
        else (blankLine fuel rest).map (· + (l.length + 4))
      | _ => none := by
  have hdrop : (l ++ crlf ++ rest).drop ((l ++ [cr]).length + 1) = rest := by
    have hlen : (l ++ [cr]).length + 1 = (l ++ crlf).length := by simp [crlf]
    rw [hlen, List.drop_left]
  rw [blankLine, takeWhile_line_end h, hdrop, List.length_append, List.length_singleton]
  rfl

/-- The blank line after some lines is found, whatever follows. -/
theorem blankLine_lines (rest : Bytes) (lines : List Bytes) : ∀ {l : Bytes} {fuel : Nat},
    (∀ b ∈ l, b ≠ lf ∧ b ≠ cr) → (∀ m ∈ lines, IsLine m) → lines.length < fuel →
    blankLine fuel (l ++ crlf ++ (flatLines lines ++ crlf ++ rest)) =
      some (l.length + (flatLines lines).length + 3) := by
  induction lines with
  | nil =>
    intro l fuel hl _ hfuel
    obtain ⟨fuel, rfl⟩ : ∃ k, fuel = k + 1 := ⟨fuel - 1, by omega⟩
    exact blankLine_line hl fuel _
  | cons m lines ih =>
    intro l fuel hl hlines hfuel
    obtain ⟨fuel, rfl⟩ : ∃ k, fuel = k + 1 := ⟨fuel - 1, by omega⟩
    obtain ⟨hlen, hplain⟩ := hlines m List.mem_cons_self
    obtain ⟨a, b, m, rfl⟩ : ∃ a b m', m = a :: b :: m' := by
      match m, hlen with
      | a :: b :: m', _ => exact ⟨a, b, m', rfl⟩
    have hsplit : flatLines ((a :: b :: m) :: lines) ++ crlf ++ rest =
        a :: b :: (m ++ crlf ++ (flatLines lines ++ crlf ++ rest)) := by
      simp [flatLines]
    have ha : ¬(a = cr ∧ b = lf) := fun h => (hplain a List.mem_cons_self).2 h.1
    rw [hsplit, blankLine_line hl]
    dsimp only
    rw [if_neg ha, ih (fun x hx => hplain x (List.mem_cons_of_mem _ (List.mem_cons_of_mem _ hx)))
      (fun x hx => hlines x (List.mem_cons_of_mem _ hx)) (by simpa using hfuel)]
    simp [flatLines, crlf]
    omega

theorem blankLine_line_cut {l : Bytes} (h : ∀ b ∈ l, b ≠ lf ∧ b ≠ cr) (fuel : Nat) {x : Bytes}
    (hx : x <+: l ++ crlf) : blankLine (fuel + 1) x = none := by
  have hx' : x <+: l ++ [cr] ++ [lf] := by
    rw [List.append_assoc]
    exact hx
  cases List.prefix_concat_iff.mp hx' with
  | inl hwhole =>
    have hnil := blankLine_line h fuel []
    rw [List.append_nil] at hnil
    rw [hwhole, List.append_assoc]
    exact hnil
  | inr hcut =>
    have hline : x.takeWhile (· != lf) = x := by
      refine List.takeWhile_eq_self_iff.mpr fun b hb => bne_iff_ne.mpr ?_
      cases List.mem_append.mp (hcut.subset hb) with
      | inl hb => exact (h b hb).1
      | inr hb => rw [List.mem_singleton.mp hb]; decide
    rw [blankLine, hline, List.drop_eq_nil_of_le (by omega)]

/-- There is no blank line in a header that is cut short. -/
theorem blankLine_cut (lines : List Bytes) : ∀ {l : Bytes} (fuel : Nat) {x : Bytes},
    (∀ b ∈ l, b ≠ lf ∧ b ≠ cr) → (∀ m ∈ lines, IsLine m) →
    x <+: l ++ crlf ++ (flatLines lines ++ crlf) → x ≠ l ++ crlf ++ (flatLines lines ++ crlf) →
    blankLine fuel x = none := by
  induction lines with
  | nil =>
    intro l fuel x hl _ hx hne
    cases fuel with
    | zero => rfl
    | succ fuel =>
      cases List.prefix_or_prefix_of_prefix hx (List.prefix_append (l ++ crlf) _) with
      | inl h => exact blankLine_line_cut hl fuel h
      | inr h =>
        obtain ⟨y, rfl⟩ := h
        rw [blankLine_line hl]
        have hy := (List.prefix_append_right_inj _).mp hx
        have hy' : y <+: [] ++ [cr] := (List.prefix_concat_iff.mp hy).resolve_left
          fun h => hne (congrArg (l ++ crlf ++ ·) h)
        cases List.prefix_concat_iff.mp hy' with
        | inl h => rw [h]; rfl
        | inr h => rw [List.prefix_nil.mp h]
  | cons m lines ih =>
    intro l fuel x hl hlines hx hne
    obtain ⟨hlen, hplain⟩ := hlines m List.mem_cons_self
    obtain ⟨a, b, m, rfl⟩ : ∃ a b m', m = a :: b :: m' := by
      match m, hlen with
      | a :: b :: m', _ => exact ⟨a, b, m', rfl⟩
    have hsplit : flatLines ((a :: b :: m) :: lines) ++ crlf =
        a :: b :: (m ++ crlf ++ (flatLines lines ++ crlf)) := by
      simp [flatLines]
    rw [hsplit] at hx hne
    cases fuel with
    | zero => rfl
    | succ fuel =>
      cases List.prefix_or_prefix_of_prefix hx (List.prefix_append (l ++ crlf) _) with
      | inl h => exact blankLine_line_cut hl fuel h
      | inr h =>
        obtain ⟨y, rfl⟩ := h
        have hy := (List.prefix_append_right_inj _).mp hx
        rw [blankLine_line hl]
        match y, hy, hne with
        | [], _, _ => rfl
        | [_], _, _ => rfl
        | c :: d :: y, hy, hne =>
          obtain ⟨hca, hdy⟩ := List.cons_prefix_cons.mp hy
          obtain ⟨hdb, hy'⟩ := List.cons_prefix_cons.mp hdy
          have ha : ¬(c = cr ∧ d = lf) := fun h =>
            (hplain a List.mem_cons_self).2 (hca.symm.trans h.1)
          dsimp only
          rw [if_neg ha, ih fuel
            (fun x hx => hplain x (List.mem_cons_of_mem _ (List.mem_cons_of_mem _ hx)))
            (fun x hx => hlines x (List.mem_cons_of_mem _ hx)) hy' fun h => hne (by rw [h, hca, hdb])]
          rfl

/-- What `writeData` writes before the body. -/
def Response.head (r : Response) : Bytes := r.statusLine.writeData ++ r.header.writeData ++ crlf

theorem writeData_eq (r : Response) : r.writeData = r.head ++ r.body := rfl

/-- Fields whose names and values hold no line break. -/
def Unbroken (fields : List (Bytes × Bytes)) : Prop :=
  ∀ f ∈ fields, unbroken (f.1 ++ f.2) = true

/-- The line of a status, without its end. -/
def statusText (code : Nat) : Bytes :=
  http11 ++ 32 :: (ascii (toString code) ++ 32 :: getReasonPhraseForCode code)

def fieldText (f : Bytes × Bytes) : Bytes := f.1 ++ ascii ": " ++ f.2

theorem statusText_plain (code : Nat) : ∀ b ∈ statusText code, b ≠ lf ∧ b ≠ cr := by
  have hfixed : ∀ b ∈ (32 : UInt8) :: http11, b ≠ lf ∧ b ≠ cr := unbroken_iff.mp (by decide)
  have hdigit : ∀ b : UInt8, isDigit b = true → b ≠ lf ∧ b ≠ cr := forall_byte (by decide +kernel)
  intro b hb
  simp only [statusText, List.mem_append, List.mem_cons] at hb
  rcases hb with hb | rfl | hb | rfl | hb
  · exact hfixed b (List.mem_cons_of_mem _ hb)
  · exact hfixed _ List.mem_cons_self
  · exact hdigit b (isDigit_of_mem_toString hb)
  · exact hfixed _ List.mem_cons_self
  · exact (reasonPhrase_facts code).2.1 b hb

theorem fieldText_isLine {fields : List (Bytes × Bytes)} (h : Unbroken fields) :
    ∀ l ∈ fields.map fieldText, IsLine l := by
  have hcolon : ∀ b ∈ ascii ": ", b ≠ lf ∧ b ≠ cr := unbroken_iff.mp (by decide)
  intro l hl
  obtain ⟨f, hf, rfl⟩ := List.mem_map.mp hl
  refine ⟨?_, fun b hb => ?_⟩
  · have h2 : (ascii ": ").length = 2 := by decide
    rw [fieldText, List.length_append, List.length_append, h2]
    omega
  · simp only [fieldText, List.mem_append] at hb
    rcases hb with (hb | hb) | hb
    · exact unbroken_iff.mp (h f hf) b (List.mem_append_left _ hb)
    · exact hcolon b hb
    · exact unbroken_iff.mp (h f hf) b (List.mem_append_right _ hb)

theorem head_eq {r : Response} {code : Nat} (h : r.statusLine = .ofCode code) :
    r.head = statusText code ++ crlf ++ (flatLines (r.header.headers.map fieldText) ++ crlf) := by
  rw [Response.head, h, statusLine_writeData, statusText, Header.writeData, flatLines,
    List.flatMap_map]
  simp [fieldText]

theorem length_le_flatLines (lines : List Bytes) : lines.length ≤ (flatLines lines).length := by
  induction lines with
  | nil => exact Nat.le_refl _
  | cons l lines ih =>
    rw [flatLines, List.flatMap_cons, List.length_append, List.length_append, List.length_cons]
    rw [flatLines] at ih
    have hend : crlf.length = 2 := rfl
    omega

section Head

variable (readFields : Bytes → PocoRead) {r : Response} {code : Nat}
  (hline : r.statusLine = .ofCode code) (hfields : Unbroken r.header.headers)

include hline hfields

/-- A header that is complete is read, whatever follows it. -/
theorem parse_head {fields : List (Bytes × Bytes)} {rest : Bytes}
    (hpoco : readFields (r.head ++ rest) = .fields fields) (h : Header) :
    h.parse readFields (r.head ++ rest) = (h.setAll fields, some r.head.length) := by
  have hlines := length_le_flatLines (r.header.headers.map fieldText)
  have hheadlen : r.head.length =
      (statusText code).length + (flatLines (r.header.headers.map fieldText)).length + 4 := by
    rw [head_eq hline]
    simp only [List.length_append, crlf, List.length_cons, List.length_nil]
    omega
  have hfuel : (r.header.headers.map fieldText).length < (r.head ++ rest).length + 1 := by
    rw [List.length_append]
    omega
  have hfound : findBlankLine (r.head ++ rest) ((r.head ++ rest).length + 1) 0 =
      (statusText code).length + (flatLines (r.header.headers.map fieldText)).length + 3 := by
    have hsplit : r.head ++ rest = statusText code ++ crlf ++
        (flatLines (r.header.headers.map fieldText) ++ crlf ++ rest) := by
      rw [head_eq hline]
      simp
    rw [findBlankLine_eq, List.drop_zero]
    rw [hsplit] at hfuel ⊢
    rw [blankLine_lines rest _ (statusText_plain code) (fieldText_isLine hfields) hfuel]
    exact Nat.zero_add _
  have hlen : (r.head ++ rest).length = r.head.length + rest.length := List.length_append
  rw [Header.parse, if_neg (by omega)]
  dsimp only
  rw [hfound, if_neg (by omega), hpoco]
  dsimp only
  rw [hheadlen]

/-- A header that is cut short is incomplete. -/
theorem parse_head_cut {w : Bytes} (hw : w <+: r.head) (hne : w ≠ r.head) (h : Header) :
    h.parse readFields w = (h, some 0) := by
  have hnone : findBlankLine w (w.length + 1) 0 = w.length := by
    rw [head_eq hline] at hw hne
    rw [findBlankLine_eq, List.drop_zero,
      blankLine_cut _ _ (statusText_plain code) (fieldText_isLine hfields) hw hne]
    rfl
  rw [Header.parse]
  split
  · rfl
  · dsimp only
    rw [if_pos hnone]

end Head

end Oxool.Http
