import Mathlib.Data.List.Basic

/-!
# UTF-16

Strings that are lists of 16-bit code units, of which surrogates may stand alone. `decode` takes them
for scalar values, with U+FFFD in place of a surrogate that has no partner, and `encode` goes back:
from scalar values to code units nothing is lost, and the other way nothing but such surrogates.
-/

set_option autoImplicit false

namespace Oxool.Utf16

def isHigh (u : UInt16) : Bool := 0xd800 ≤ u.toNat && u.toNat < 0xdc00

def isLow (u : UInt16) : Bool := 0xdc00 ≤ u.toNat && u.toNat < 0xe000

def isSurrogate (u : UInt16) : Bool := isHigh u || isLow u

def replacement : Char := Char.ofNat 0xfffd

/-- The code units of a scalar value. -/
def ofChar (c : Char) : List UInt16 :=
  if c.toNat < 0x10000 then [UInt16.ofNat c.toNat]
  else [UInt16.ofNat (0xd800 + (c.toNat - 0x10000) / 0x400),
    UInt16.ofNat (0xdc00 + (c.toNat - 0x10000) % 0x400)]

def encode (cs : List Char) : List UInt16 := cs.flatMap ofChar

/-- The scalar value of two surrogates. -/
def pair (high low : UInt16) : Char :=
  Char.ofNat (0x10000 + (high.toNat - 0xd800) * 0x400 + (low.toNat - 0xdc00))

/-- The scalar value of one code unit. -/
def single (u : UInt16) : Char := if isSurrogate u then replacement else Char.ofNat u.toNat

def decode : List UInt16 → List Char
  | [] => []
  | [u] => [single u]
  | u :: v :: us => if isHigh u && isLow v then pair u v :: decode us else single u :: decode (v :: us)

/-- No surrogate is without its partner. -/
def wellFormed : List UInt16 → Bool
  | [] => true
  | [u] => !isSurrogate u
  | u :: v :: us => if isHigh u && isLow v then wellFormed us else !isSurrogate u && wellFormed (v :: us)

/-! ## One scalar value -/

theorem isSurrogate_eq_false {u : UInt16} :
    isSurrogate u = false ↔ u.toNat < 0xd800 ∨ 0xe000 ≤ u.toNat := by
  simp only [isSurrogate, isHigh, isLow, Bool.or_eq_false_iff, Bool.and_eq_false_iff,
    decide_eq_false_iff_not, Nat.not_le, Nat.not_lt]
  omega

theorem isHigh_eq_false {u : UInt16} (h : isSurrogate u = false) : isHigh u = false :=
  (Bool.or_eq_false_iff.mp h).1

theorem decode_cons {u : UInt16} (h : isSurrogate u = false) (us : List UInt16) :
    decode (u :: us) = Char.ofNat u.toNat :: decode us := by
  cases us with
  | nil => simp [decode, single, h]
  | cons v us => simp [decode, single, h, isHigh_eq_false h]

theorem wellFormed_cons {u : UInt16} (h : isSurrogate u = false) (us : List UInt16) :
    wellFormed (u :: us) = wellFormed us := by
  cases us with
  | nil => simp [wellFormed, h]
  | cons v us => simp [wellFormed, h, isHigh_eq_false h]

theorem toNat_ofNat {n : Nat} (h : n < 0xd800 ∨ 0xe000 ≤ n ∧ n < 0x110000) : (Char.ofNat n).toNat = n := by
  have hvalid : n.isValidChar := by
    simp only [Nat.isValidChar]
    omega
  rw [Char.ofNat, dif_pos hvalid]
  rfl

/-- There are no scalar values in the range of the surrogates. -/
theorem gap (c : Char) : c.toNat < 0xd800 ∨ 0xe000 ≤ c.toNat ∧ c.toNat < 0x110000 := by
  have h := c.valid
  simp only [UInt32.isValidChar, Nat.isValidChar] at h
  show c.val.toNat < 0xd800 ∨ 0xe000 ≤ c.val.toNat ∧ c.val.toNat < 0x110000
  omega

theorem ofChar_single {c : Char} (h : c.toNat < 0x10000) :
    ∃ u : UInt16, ofChar c = [u] ∧ isSurrogate u = false ∧ u.toNat = c.toNat := by
  have hvalue : (UInt16.ofNat c.toNat).toNat = c.toNat := by
    rw [UInt16.toNat_ofNat', Nat.mod_eq_of_lt h]
  refine ⟨UInt16.ofNat c.toNat, by rw [ofChar, if_pos h], isSurrogate_eq_false.mpr ?_, hvalue⟩
  rw [hvalue]
  have := gap c
  omega

theorem ofChar_pair {c : Char} (h : 0x10000 ≤ c.toNat) :
    ∃ u v : UInt16, ofChar c = [u, v] ∧ isHigh u = true ∧ isLow v = true ∧
      c.toNat = 0x10000 + (u.toNat - 0xd800) * 0x400 + (v.toNat - 0xdc00) := by
  have hgap := gap c
  have hhigh : (UInt16.ofNat (0xd800 + (c.toNat - 0x10000) / 0x400)).toNat =
      0xd800 + (c.toNat - 0x10000) / 0x400 := by
    rw [UInt16.toNat_ofNat', Nat.mod_eq_of_lt (by omega)]
  have hlow : (UInt16.ofNat (0xdc00 + (c.toNat - 0x10000) % 0x400)).toNat =
      0xdc00 + (c.toNat - 0x10000) % 0x400 := by
    rw [UInt16.toNat_ofNat', Nat.mod_eq_of_lt (by omega)]
  refine ⟨_, _, by rw [ofChar, if_neg (Nat.not_lt.mpr h)], ?_, ?_, ?_⟩
  · simp only [isHigh, hhigh, Bool.and_eq_true, decide_eq_true_eq]
    omega
  · simp only [isLow, hlow, Bool.and_eq_true, decide_eq_true_eq]
    omega
  · rw [hhigh, hlow]
    omega

/-! ## Strings -/

theorem decode_ofChar (c : Char) (us : List UInt16) : decode (ofChar c ++ us) = c :: decode us := by
  rcases Nat.lt_or_ge c.toNat 0x10000 with h | h
  · obtain ⟨u, hu, hsurrogate, hvalue⟩ := ofChar_single h
    rw [hu, List.singleton_append, decode_cons hsurrogate, hvalue, Char.ofNat_toNat]
  · obtain ⟨u, v, huv, hhigh, hlow, hvalue⟩ := ofChar_pair h
    rw [huv, List.cons_append, List.singleton_append, decode, hhigh, hlow, Bool.and_self, if_pos rfl, pair,
      ← hvalue, Char.ofNat_toNat]

theorem wellFormed_ofChar (c : Char) (us : List UInt16) :
    wellFormed (ofChar c ++ us) = wellFormed us := by
  rcases Nat.lt_or_ge c.toNat 0x10000 with h | h
  · obtain ⟨u, hu, hsurrogate, -⟩ := ofChar_single h
    rw [hu, List.singleton_append, wellFormed_cons hsurrogate]
  · obtain ⟨u, v, huv, hhigh, hlow, -⟩ := ofChar_pair h
    rw [huv, List.cons_append, List.singleton_append, wellFormed, hhigh, hlow, Bool.and_self, if_pos rfl]

/-- **Scalar values come back from their code units.** -/
theorem decode_encode (cs : List Char) : decode (encode cs) = cs := by
  induction cs with
  | nil => rfl
  | cons c cs ih => rw [encode, List.flatMap_cons, decode_ofChar, ← encode, ih]

theorem wellFormed_encode (cs : List Char) : wellFormed (encode cs) = true := by
  induction cs with
  | nil => rfl
  | cons c cs ih => rw [encode, List.flatMap_cons, wellFormed_ofChar, ← encode, ih]

theorem encode_injective : Function.Injective encode :=
  Function.LeftInverse.injective decode_encode

theorem toNat_single {u : UInt16} (h : isSurrogate u = false) : (single u).toNat = u.toNat := by
  have hlt := u.toNat_lt
  rw [single, h, if_neg Bool.false_ne_true]
  have hgap := isSurrogate_eq_false.mp h
  exact toNat_ofNat (by omega)

theorem toNat_pair {u v : UInt16} (hu : isHigh u = true) (hv : isLow v = true) :
    (pair u v).toNat = 0x10000 + (u.toNat - 0xd800) * 0x400 + (v.toNat - 0xdc00) := by
  simp only [isHigh, isLow, Bool.and_eq_true, decide_eq_true_eq] at hu hv
  exact toNat_ofNat (by omega)

theorem ofChar_single_eq {u : UInt16} (h : isSurrogate u = false) : ofChar (single u) = [u] := by
  have hlt := u.toNat_lt
  rw [ofChar, toNat_single h, if_pos (by omega), UInt16.ofNat_toNat]

theorem ofChar_pair_eq {u v : UInt16} (hu : isHigh u = true) (hv : isLow v = true) :
    ofChar (pair u v) = [u, v] := by
  have hvalue := toNat_pair hu hv
  simp only [isHigh, isLow, Bool.and_eq_true, decide_eq_true_eq] at hu hv
  have hhigh : 0xd800 + ((pair u v).toNat - 0x10000) / 0x400 = u.toNat := by omega
  have hlow : 0xdc00 + ((pair u v).toNat - 0x10000) % 0x400 = v.toNat := by omega
  rw [ofChar, if_neg (by omega), hhigh, hlow, UInt16.ofNat_toNat, UInt16.ofNat_toNat]

/-- **Code units come back where no surrogate is on its own**, and nowhere else. -/
theorem encode_decode_iff (us : List UInt16) : encode (decode us) = us ↔ wellFormed us = true := by
  constructor
  · intro h
    rw [← h]
    exact wellFormed_encode _
  · intro h
    fun_induction decode us with
    | case1 => rfl
    | case2 u =>
      rw [wellFormed, Bool.not_eq_true'] at h
      rw [encode, List.flatMap_singleton, ofChar_single_eq h]
    | case3 u v us hpair ih =>
      rw [wellFormed, if_pos hpair] at h
      rw [Bool.and_eq_true] at hpair
      rw [encode, List.flatMap_cons, ofChar_pair_eq hpair.1 hpair.2, ← encode, ih h]
      rfl
    | case4 u v us hpair ih =>
      rw [wellFormed, if_neg hpair, Bool.and_eq_true, Bool.not_eq_true'] at h
      rw [encode, List.flatMap_cons, ofChar_single_eq h.1, ← encode, ih h.2]
      rfl

end Oxool.Utf16
