import Oxool.Lib.Utf16

/-!
# Decoding UTF-8

A decoder of UTF-8 that does not fail: a byte that cannot stand where it is ends what came before it
with U+FFFD, and may begin anew. Scalar values come back from the bytes that encode them, and what the
decoder reads comes from no other bytes, as long as it is not U+FFFD.
-/

set_option autoImplicit false

namespace Oxool.Utf8

open Oxool.Utf16 (gap toNat_ofNat)

def replacement : Char := Char.ofNat 0xfffd

/-- What is known of a scalar value: its bits so far, how many bytes are needed, and in which range the
next of them is. -/
inductive State where
  | start
  | within (codePoint needed lower upper : Nat)
deriving DecidableEq

/-- A byte at the start. -/
def first (b : UInt8) : List Char × State :=
  let n := b.toNat
  if n < 0x80 then ([Char.ofNat n], .start)
  else if n < 0xc2 then ([replacement], .start)
  else if n < 0xe0 then ([], .within (n % 0x20) 1 0x80 0xbf)
  else if n < 0xf0 then
    ([], .within (n % 0x10) 2 (if n = 0xe0 then 0xa0 else 0x80) (if n = 0xed then 0x9f else 0xbf))
  else if n < 0xf5 then
    ([], .within (n % 0x8) 3 (if n = 0xf0 then 0x90 else 0x80) (if n = 0xf4 then 0x8f else 0xbf))
  else ([replacement], .start)

/-- One byte: what is read, and what is known then. -/
def step (st : State) (b : UInt8) : List Char × State :=
  match st with
  | .start => first b
  | .within codePoint needed lower upper =>
    let n := b.toNat
    if n < lower ∨ upper < n then (replacement :: (first b).1, (first b).2)
    else if needed = 1 then ([Char.ofNat (codePoint * 0x40 + n % 0x40)], .start)
    else ([], .within (codePoint * 0x40 + n % 0x40) (needed - 1) 0x80 0xbf)

def run : List UInt8 → State → List Char
  | [], .start => []
  | [], .within .. => [replacement]
  | b :: bs, st => (step st b).1 ++ run bs (step st b).2

/-! ## Single bytes -/

theorem first_ascii {b : UInt8} (h : b.toNat < 0x80) : first b = ([Char.ofNat b.toNat], .start) := by
  rw [first, if_pos h]

theorem first_two {b : UInt8} (h : 0xc2 ≤ b.toNat) (h' : b.toNat < 0xe0) :
    first b = ([], .within (b.toNat % 0x20) 1 0x80 0xbf) := by
  rw [first, if_neg (by omega), if_neg (by omega), if_pos h']

theorem first_three {b : UInt8} (h : 0xe0 ≤ b.toNat) (h' : b.toNat < 0xf0) :
    first b = ([], .within (b.toNat % 0x10) 2 (if b.toNat = 0xe0 then 0xa0 else 0x80)
      (if b.toNat = 0xed then 0x9f else 0xbf)) := by
  rw [first, if_neg (by omega), if_neg (by omega), if_neg (by omega), if_pos h']

theorem first_four {b : UInt8} (h : 0xf0 ≤ b.toNat) (h' : b.toNat < 0xf5) :
    first b = ([], .within (b.toNat % 0x8) 3 (if b.toNat = 0xf0 then 0x90 else 0x80)
      (if b.toNat = 0xf4 then 0x8f else 0xbf)) := by
  rw [first, if_neg (by omega), if_neg (by omega), if_neg (by omega), if_neg (by omega), if_pos h']

/-- A byte that begins nothing. -/
theorem first_other {b : UInt8} (h : 0x80 ≤ b.toNat) (h' : b.toNat < 0xc2 ∨ 0xf5 ≤ b.toNat) :
    first b = ([replacement], .start) := by
  rw [first, if_neg (by omega)]
  split_ifs
  all_goals first | rfl | omega

section Steps

variable {codePoint needed lower upper : Nat} {b : UInt8}

theorem step_last (hlower : lower ≤ b.toNat) (hupper : b.toNat ≤ upper) :
    step (.within codePoint 1 lower upper) b =
      ([Char.ofNat (codePoint * 0x40 + b.toNat % 0x40)], .start) := by
  rw [step, if_neg (by omega), if_pos rfl]

theorem step_more (hlower : lower ≤ b.toNat) (hupper : b.toNat ≤ upper) :
    step (.within codePoint (needed + 2) lower upper) b =
      ([], .within (codePoint * 0x40 + b.toNat % 0x40) (needed + 1) 0x80 0xbf) := by
  rw [step, if_neg (by omega), if_neg (by omega)]
  rfl

/-- A byte out of the range. -/
theorem step_out (h : b.toNat < lower ∨ upper < b.toNat) :
    step (.within codePoint needed lower upper) b = (replacement :: (first b).1, (first b).2) := by
  rw [step, if_pos h]

end Steps

/-! ## The bytes of a scalar value -/

/-- The bytes that encode a scalar value. -/
inductive Encodes (c : Char) : List UInt8 → Prop where
  | one {b : UInt8} (range : c.toNat < 0x80) (h : b.toNat = c.toNat) : Encodes c [b]
  | two {b b₁ : UInt8} (range : 0x80 ≤ c.toNat) (range' : c.toNat < 0x800)
      (h : b.toNat = 0xc0 + c.toNat / 0x40) (h₁ : b₁.toNat = 0x80 + c.toNat % 0x40) : Encodes c [b, b₁]
  | three {b b₁ b₂ : UInt8} (range : 0x800 ≤ c.toNat) (range' : c.toNat < 0x10000)
      (h : b.toNat = 0xe0 + c.toNat / 0x1000) (h₁ : b₁.toNat = 0x80 + c.toNat / 0x40 % 0x40)
      (h₂ : b₂.toNat = 0x80 + c.toNat % 0x40) : Encodes c [b, b₁, b₂]
  | four {b b₁ b₂ b₃ : UInt8} (range : 0x10000 ≤ c.toNat)
      (h : b.toNat = 0xf0 + c.toNat / 0x40000) (h₁ : b₁.toNat = 0x80 + c.toNat / 0x1000 % 0x40)
      (h₂ : b₂.toNat = 0x80 + c.toNat / 0x40 % 0x40) (h₃ : b₃.toNat = 0x80 + c.toNat % 0x40) :
      Encodes c [b, b₁, b₂, b₃]

theorem encodes_encodeChar (c : Char) : Encodes c (String.utf8EncodeChar c) := by
  have hgap := gap c
  have hbyte : ∀ n : Nat, n < 256 → (UInt8.ofNat n).toNat = n := by
    intro n hn
    rw [UInt8.toNat_ofNat', Nat.mod_eq_of_lt hn]
  rw [String.utf8EncodeChar]
  change Encodes c (if c.toNat ≤ 0x7f then [UInt8.ofNat c.toNat] else
    if c.toNat ≤ 0x7ff then [UInt8.ofNat (c.toNat / 64 % 32 + 0xc0), UInt8.ofNat (c.toNat % 64 + 0x80)] else
    if c.toNat ≤ 0xffff then
      [UInt8.ofNat (c.toNat / 4096 % 16 + 0xe0), UInt8.ofNat (c.toNat / 64 % 64 + 0x80),
        UInt8.ofNat (c.toNat % 64 + 0x80)]
    else [UInt8.ofNat (c.toNat / 262144 % 8 + 0xf0), UInt8.ofNat (c.toNat / 4096 % 64 + 0x80),
      UInt8.ofNat (c.toNat / 64 % 64 + 0x80), UInt8.ofNat (c.toNat % 64 + 0x80)])
  split_ifs with h1 h2 h3
  · exact .one (by omega) (hbyte _ (by omega))
  · refine .two (by omega) (by omega) ?_ ?_
    all_goals
      rw [hbyte _ (by omega)]
      omega
  · refine .three (by omega) (by omega) ?_ ?_ ?_
    all_goals
      rw [hbyte _ (by omega)]
      omega
  · refine .four (by omega) ?_ ?_ ?_ ?_
    all_goals
      rw [hbyte _ (by omega)]
      omega

theorem Encodes.unique {c : Char} {bs bs' : List UInt8} (h : Encodes c bs) (h' : Encodes c bs') :
    bs = bs' := by
  have hbyte : ∀ {b b' : UInt8} {n : Nat}, b.toNat = n → b'.toNat = n → b = b' :=
    fun hb hb' => UInt8.toNat_inj.mp (hb.trans hb'.symm)
  cases h with
  | one range h =>
    cases h' with
    | one _ k => rw [hbyte h k]
    | two _ _ => omega
    | three _ _ => omega
    | four _ => omega
  | two range range' h h₁ =>
    cases h' with
    | two _ _ k k₁ => rw [hbyte h k, hbyte h₁ k₁]
    | one _ => omega
    | three _ _ => omega
    | four _ => omega
  | three range range' h h₁ h₂ =>
    cases h' with
    | three _ _ k k₁ k₂ => rw [hbyte h k, hbyte h₁ k₁, hbyte h₂ k₂]
    | one _ => omega
    | two _ _ => omega
    | four _ => omega
  | four range h h₁ h₂ h₃ =>
    cases h' with
    | four _ k k₁ k₂ k₃ => rw [hbyte h k, hbyte h₁ k₁, hbyte h₂ k₂, hbyte h₃ k₃]
    | one _ => omega
    | two _ _ => omega
    | three _ _ => omega

theorem Encodes.eq {c : Char} {bs : List UInt8} (h : Encodes c bs) : bs = String.utf8EncodeChar c :=
  h.unique (encodes_encodeChar c)

/-- Bytes above those of ASCII are in none but other scalar values. -/
theorem Encodes.le {c : Char} {bs : List UInt8} (h : Encodes c bs) {n : Nat} (hn : n ≤ 0x80)
    (hc : n ≤ c.toNat) : ∀ b ∈ bs, n ≤ b.toNat := by
  intro b hb
  cases h with
  | one range h =>
    rw [List.mem_singleton.mp hb]
    omega
  | two range range' h h₁ =>
    simp only [List.mem_cons, List.not_mem_nil, or_false] at hb
    rcases hb with rfl | rfl
    all_goals omega
  | three range range' h h₁ h₂ =>
    simp only [List.mem_cons, List.not_mem_nil, or_false] at hb
    rcases hb with rfl | rfl | rfl
    all_goals omega
  | four range h h₁ h₂ h₃ =>
    simp only [List.mem_cons, List.not_mem_nil, or_false] at hb
    rcases hb with rfl | rfl | rfl | rfl
    all_goals omega

theorem encodeChar_ascii {c : Char} (h : c.toNat < 0x80) :
    String.utf8EncodeChar c = [UInt8.ofNat c.toNat] := by
  refine (Encodes.eq (.one h ?_)).symm
  rw [UInt8.toNat_ofNat', Nat.mod_eq_of_lt (by omega)]

/-! ## What is read, and from what -/

theorem run_cons (b : UInt8) (bs : List UInt8) (st : State) :
    run (b :: bs) st = (step st b).1 ++ run bs (step st b).2 := rfl

/-- **The bytes of a scalar value are read as it.** -/
theorem Encodes.run_append {c : Char} {bs : List UInt8} (h : Encodes c bs) (rest : List UInt8) :
    run (bs ++ rest) .start = c :: run rest .start := by
  have hgap := gap c
  have hback : ∀ n : Nat, n = c.toNat → Char.ofNat n = c := by
    rintro n rfl
    exact Char.ofNat_toNat c
  cases h with
  | one range h =>
    rw [List.singleton_append, run_cons, step, first_ascii (by omega), hback _ h]
    rfl
  | two range range' h h₁ =>
    simp only [List.cons_append, List.nil_append, run_cons]
    rw [step, first_two (by omega) (by omega), step_last (by omega) (by omega), hback _ (by omega)]
    rfl
  | three range range' h h₁ h₂ =>
    simp only [List.cons_append, List.nil_append, run_cons]
    rw [step, first_three (by omega) (by omega),
      step_more (by split_ifs <;> omega) (by split_ifs <;> omega), step_last (by omega) (by omega),
      hback _ (by omega)]
    rfl
  | four range h h₁ h₂ h₃ =>
    simp only [List.cons_append, List.nil_append, run_cons]
    rw [step, first_four (by omega) (by omega),
      step_more (by split_ifs <;> omega) (by split_ifs <;> omega), step_more (by omega) (by omega),
      step_last (by omega) (by omega), hback _ (by omega)]
    rfl

theorem run_encode (cs : List Char) (rest : List UInt8) :
    run (cs.flatMap String.utf8EncodeChar ++ rest) .start = cs ++ run rest .start := by
  induction cs with
  | nil => rfl
  | cons c cs ih =>
    rw [List.flatMap_cons, List.append_assoc, (encodes_encodeChar c).run_append, ih]
    rfl

/-! ### The bytes and the value

Six bits of the value are in each byte behind the first. -/

section Values

variable {n m : Nat}

/-- A byte that is not the first of a scalar value, by its bits. -/
theorem trail_eq (h : 0x80 ≤ m ∧ m ≤ 0xbf) : m = 0x80 + m % 0x40 := by omega

theorem two_values (m : Nat) (hn : 0xc2 ≤ n) (hn' : n < 0xe0) :
    0x80 ≤ n % 0x20 * 0x40 + m % 0x40 ∧ n % 0x20 * 0x40 + m % 0x40 < 0x800 ∧
      n = 0xc0 + (n % 0x20 * 0x40 + m % 0x40) / 0x40 ∧
      0x80 + m % 0x40 = 0x80 + (n % 0x20 * 0x40 + m % 0x40) % 0x40 := by
  have hm := Nat.mod_lt m (by decide : 0x40 > 0)
  refine ⟨?_, ?_, ?_, ?_⟩
  all_goals omega

/-- The range of the second of three bytes, without its bounds. -/
theorem second_of_three
    (h : (if n = 0xe0 then 0xa0 else 0x80) ≤ m ∧ m ≤ if n = 0xed then 0x9f else 0xbf) :
    (0x80 ≤ m ∧ m ≤ 0xbf) ∧ (n = 0xe0 → 0xa0 ≤ m) ∧ (n = 0xed → m ≤ 0x9f) := by
  split_ifs at h
  all_goals omega

theorem three_values (k : Nat) (hn : 0xe0 ≤ n) (hn' : n < 0xf0) (hm : 0x80 ≤ m ∧ m ≤ 0xbf)
    (hlow : n = 0xe0 → 0xa0 ≤ m) (hhigh : n = 0xed → m ≤ 0x9f) :
    let v := (n % 0x10 * 0x40 + m % 0x40) * 0x40 + k % 0x40
    (v < 0xd800 ∨ 0xe000 ≤ v ∧ v < 0x110000) ∧ 0x800 ≤ v ∧ v < 0x10000 ∧ n = 0xe0 + v / 0x1000 ∧
      m = 0x80 + v / 0x40 % 0x40 ∧ 0x80 + k % 0x40 = 0x80 + v % 0x40 := by
  have hk := Nat.mod_lt k (by decide : 0x40 > 0)
  generalize k % 0x40 = k at *
  dsimp only
  refine ⟨?_, ?_, ?_, ?_, ?_, ?_⟩
  all_goals omega

/-- The range of the second of four bytes, without its bounds. -/
theorem second_of_four
    (h : (if n = 0xf0 then 0x90 else 0x80) ≤ m ∧ m ≤ if n = 0xf4 then 0x8f else 0xbf) :
    (0x80 ≤ m ∧ m ≤ 0xbf) ∧ (n = 0xf0 → 0x90 ≤ m) ∧ (n = 0xf4 → m ≤ 0x8f) := by
  split_ifs at h
  all_goals omega

theorem four_values (k l : Nat) (hn : 0xf0 ≤ n) (hn' : n < 0xf5) (hm : 0x80 ≤ m ∧ m ≤ 0xbf)
    (hlow : n = 0xf0 → 0x90 ≤ m) (hhigh : n = 0xf4 → m ≤ 0x8f) :
    let v := ((n % 0x8 * 0x40 + m % 0x40) * 0x40 + k % 0x40) * 0x40 + l % 0x40
    (v < 0xd800 ∨ 0xe000 ≤ v ∧ v < 0x110000) ∧ 0x10000 ≤ v ∧ n = 0xf0 + v / 0x40000 ∧
      m = 0x80 + v / 0x1000 % 0x40 ∧ 0x80 + k % 0x40 = 0x80 + v / 0x40 % 0x40 ∧
      0x80 + l % 0x40 = 0x80 + v % 0x40 := by
  have hk := Nat.mod_lt k (by decide : 0x40 > 0)
  have hl := Nat.mod_lt l (by decide : 0x40 > 0)
  generalize k % 0x40 = k at *
  generalize l % 0x40 = l at *
  dsimp only
  refine ⟨?_, ?_, ?_, ?_, ?_, ?_⟩
  all_goals omega

end Values

/-! ### Where the scalar values come from -/

section Origin

variable {codePoint needed lower upper : Nat} {bs : List UInt8} {c : Char} {rest : List Char}

theorem run_last (hc : c ≠ replacement) (h : run bs (.within codePoint 1 lower upper) = c :: rest) :
    ∃ b bs', bs = b :: bs' ∧ (lower ≤ b.toNat ∧ b.toNat ≤ upper) ∧
      c = Char.ofNat (codePoint * 0x40 + b.toNat % 0x40) ∧ run bs' .start = rest := by
  cases bs with
  | nil =>
    rw [run, List.cons.injEq] at h
    exact absurd h.1.symm hc
  | cons b bs =>
    by_cases hrange : lower ≤ b.toNat ∧ b.toNat ≤ upper
    · rw [run_cons, step_last hrange.1 hrange.2, List.singleton_append, List.cons.injEq] at h
      exact ⟨b, bs, rfl, hrange, h.1.symm, h.2⟩
    · rw [run_cons, step_out (by omega), List.cons_append, List.cons.injEq] at h
      exact absurd h.1.symm hc

theorem run_more (hc : c ≠ replacement)
    (h : run bs (.within codePoint (needed + 2) lower upper) = c :: rest) :
    ∃ b bs', bs = b :: bs' ∧ (lower ≤ b.toNat ∧ b.toNat ≤ upper) ∧
      run bs' (.within (codePoint * 0x40 + b.toNat % 0x40) (needed + 1) 0x80 0xbf) = c :: rest := by
  cases bs with
  | nil =>
    rw [run, List.cons.injEq] at h
    exact absurd h.1.symm hc
  | cons b bs =>
    by_cases hrange : lower ≤ b.toNat ∧ b.toNat ≤ upper
    · rw [run_cons, step_more hrange.1 hrange.2, List.nil_append] at h
      exact ⟨b, bs, rfl, hrange, h⟩
    · rw [run_cons, step_out (by omega), List.cons_append, List.cons.injEq] at h
      exact absurd h.1.symm hc

/-- **Only the bytes of a scalar value are read as it**, but for U+FFFD. -/
theorem exists_encodes (hc : c ≠ replacement) (h : run bs .start = c :: rest) :
    ∃ bs₁ bs₂, bs = bs₁ ++ bs₂ ∧ Encodes c bs₁ ∧ run bs₂ .start = rest := by
  cases bs with
  | nil => cases h
  | cons b bs =>
    rw [run_cons, step] at h
    by_cases hascii : b.toNat < 0x80
    · rw [first_ascii hascii, List.singleton_append, List.cons.injEq] at h
      have hvalue : c.toNat = b.toNat := by
        rw [← h.1]
        exact toNat_ofNat (.inl (Nat.lt_trans hascii (by decide)))
      exact ⟨[b], bs, rfl, .one (hvalue ▸ hascii) hvalue.symm, h.2⟩
    by_cases hother : b.toNat < 0xc2 ∨ 0xf5 ≤ b.toNat
    · rw [first_other (Nat.le_of_not_lt hascii) hother, List.singleton_append, List.cons.injEq] at h
      exact absurd h.1.symm hc
    have hlow : 0xc2 ≤ b.toNat := Nat.le_of_not_lt fun h => hother (.inl h)
    have hhigh : b.toNat < 0xf5 := Nat.lt_of_not_le fun h => hother (.inr h)
    clear hascii hother
    by_cases htwo : b.toNat < 0xe0
    · rw [first_two hlow htwo, List.nil_append] at h
      obtain ⟨b₁, bs₁, rfl, hrange, hvalue, hrest⟩ := run_last hc h
      obtain ⟨hmin, hmax, hlead, htrail⟩ := two_values b₁.toNat hlow htwo
      have hvalue := (congrArg Char.toNat hvalue).trans (toNat_ofNat (.inl (Nat.lt_trans hmax (by decide))))
      rw [← hvalue] at hmin hmax hlead htrail
      exact ⟨[b, b₁], bs₁, rfl, .two hmin hmax hlead ((trail_eq hrange).trans htrail), hrest⟩
    have htwo := Nat.le_of_not_lt htwo
    by_cases hthree : b.toNat < 0xf0
    · rw [first_three htwo hthree, List.nil_append] at h
      obtain ⟨b₁, bs₁, rfl, hrange, h⟩ := run_more hc h
      obtain ⟨b₂, bs₂, rfl, hrange', hvalue, hrest⟩ := run_last hc h
      have hsecond := second_of_three hrange
      obtain ⟨hvalid, hmin, hmax, hlead, htrail, htrail'⟩ :=
        three_values b₂.toNat htwo hthree hsecond.1 hsecond.2.1 hsecond.2.2
      have hvalue := (congrArg Char.toNat hvalue).trans (toNat_ofNat hvalid)
      rw [← hvalue] at hmin hmax hlead htrail htrail'
      exact ⟨[b, b₁, b₂], bs₂, rfl,
        .three hmin hmax hlead htrail ((trail_eq hrange').trans htrail'), hrest⟩
    · have hthree := Nat.le_of_not_lt hthree
      rw [first_four hthree hhigh, List.nil_append] at h
      obtain ⟨b₁, bs₁, rfl, hrange, h⟩ := run_more hc h
      obtain ⟨b₂, bs₂, rfl, hrange', h⟩ := run_more hc h
      obtain ⟨b₃, bs₃, rfl, hrange'', hvalue, hrest⟩ := run_last hc h
      have hsecond := second_of_four hrange
      obtain ⟨hvalid, hmin, hlead, htrail, htrail', htrail''⟩ :=
        four_values b₂.toNat b₃.toNat hthree hhigh hsecond.1 hsecond.2.1 hsecond.2.2
      have hvalue := (congrArg Char.toNat hvalue).trans (toNat_ofNat hvalid)
      rw [← hvalue] at hmin hlead htrail htrail' htrail''
      exact ⟨[b, b₁, b₂, b₃], bs₃, rfl,
        .four hmin hlead htrail ((trail_eq hrange').trans htrail')
          ((trail_eq hrange'').trans htrail''), hrest⟩

end Origin

/-- Scalar values other than U+FFFD are read from their bytes. -/
theorem exists_encode {bs : List UInt8} {cs rest : List Char} (hcs : replacement ∉ cs)
    (h : run bs .start = cs ++ rest) :
    ∃ bs', bs = cs.flatMap String.utf8EncodeChar ++ bs' ∧ run bs' .start = rest := by
  induction cs generalizing bs with
  | nil => exact ⟨bs, rfl, h⟩
  | cons c cs ih =>
    rw [List.mem_cons, not_or] at hcs
    obtain ⟨bs₁, bs₂, rfl, hencodes, hrest⟩ := exists_encodes (Ne.symm hcs.1) h
    obtain ⟨bs', rfl, hrun⟩ := ih hcs.2 hrest
    exact ⟨bs', by rw [List.flatMap_cons, List.append_assoc, hencodes.eq], hrun⟩

/-! ### Where U+FFFD is read -/

/-- Bytes that begin something do not stand within. -/
def Bounded : State → Prop
  | .start => True
  | .within _ _ _ upper => upper < 0xc0

theorem bounded_first (b : UInt8) : Bounded (first b).2 := by
  rw [first]
  split_ifs
  all_goals simp [Bounded]

theorem bounded_step {st : State} (h : Bounded st) (b : UInt8) : Bounded (step st b).2 := by
  cases st with
  | start => exact bounded_first b
  | within codePoint needed lower upper =>
    rw [step]
    split_ifs
    · exact bounded_first b
    · trivial
    · exact Nat.lt_succ_self _

theorem mem_run_append {c : Char} {bs : List UInt8} (h : ∀ st, Bounded st → c ∈ run bs st)
    (before : List UInt8) {st : State} (hst : Bounded st) : c ∈ run (before ++ bs) st := by
  induction before generalizing st with
  | nil => exact h st hst
  | cons b before ih =>
    rw [List.cons_append, run_cons]
    exact List.mem_append_right _ (ih (bounded_step hst b))

/-- What was begun before is not completed with a byte that begins something. -/
theorem replacement_mem_run_within {b : UInt8} (hb : 0xc0 ≤ b.toNat) (bs : List UInt8) {st : State}
    (hst : Bounded st) (hstart : replacement ∈ run (b :: bs) .start) : replacement ∈ run (b :: bs) st := by
  cases st with
  | start => exact hstart
  | within codePoint needed lower upper =>
    rw [Bounded] at hst
    rw [run_cons, step_out (.inr (by omega))]
    exact List.mem_append_left _ List.mem_cons_self

/-- **U+FFFD is read wherever a byte stands that begins nothing.** -/
theorem replacement_mem_run_of_other {b : UInt8} (h : 0xf5 ≤ b.toNat) (before bs : List UInt8) :
    replacement ∈ run (before ++ b :: bs) .start := by
  refine mem_run_append (fun st hst => ?_) before trivial
  refine replacement_mem_run_within (by omega) bs hst ?_
  rw [run_cons, step, first_other (by omega) (.inr h)]
  exact List.mem_append_left _ List.mem_cons_self

/-- **U+FFFD is read wherever its own bytes stand.** -/
theorem replacement_mem_run_of_encode (before bs : List UInt8) :
    replacement ∈ run (before ++ (String.utf8EncodeChar replacement ++ bs)) .start := by
  refine mem_run_append (fun st hst => ?_) before trivial
  have hbytes : String.utf8EncodeChar replacement = [0xef, 0xbf, 0xbd] := by decide
  have hread := (encodes_encodeChar replacement).run_append bs
  rw [hbytes] at hread ⊢
  refine replacement_mem_run_within (by decide) _ hst ?_
  change replacement ∈ run ([0xef, 0xbf, 0xbd] ++ bs) .start
  rw [hread]
  exact List.mem_cons_self

end Oxool.Utf8
