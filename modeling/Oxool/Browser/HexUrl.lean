import Oxool.Lib.Utf16
import Oxool.Lib.Utf8
import Oxool.Proxy.Browser
import Oxool.Wsd.RequestDetails

/-!
# URLs in hex (`hexEncode` and `hexDecode` of `browser/js/global.js`)

The browser can write the URL of a document in hex, two digits for each byte of its UTF-8, and the
server takes it back with `Util::dataFromHexString`. What the browser writes has no leading zeros: a
byte below 16 gets one digit, and all the digits behind it are read in other pairs. The server pads
with zeros when it writes hex itself. It reads with a stream and does not look whether that worked.
-/

set_option autoImplicit false

namespace Oxool.Browser

open Oxool.Http (Bytes)
open Oxool.Proxy (utf8 bom stripBom toString16 parseInt)
open Oxool.Wsd (dataToHexString dataFromHexString fromHexLoop extractHex hexOfByte)

/-- `hexEncode`. -/
def hexEncode (string : List UInt16) : List UInt16 :=
  let bytes := utf8 (Utf16.decode string)
  Utf16.encode "0x".toList ++ bytes.flatMap fun b => Utf16.encode (toString16 b.toNat)

/-- A number in a `Uint8Array`, where `NaN` is 0. -/
def toUint8 : Option Int → UInt8
  | none => 0
  | some n => UInt8.ofNat (n % 256).toNat

/-- The bytes of `hexDecode`: one for every two characters, and none for a last one. -/
def hexBytes : List UInt16 → Bytes
  | a :: b :: hex => toUint8 (parseInt (Utf16.decode [a, b])) :: hexBytes hex
  | _ => []

/-- `hexDecode`. `TextDecoder` takes a byte order mark away. -/
def hexDecode (hex : List UInt16) : List UInt16 :=
  let hex := if (Utf16.encode "0x".toList).isPrefixOf hex then hex.drop 2 else hex
  Utf16.encode (stripBom (Utf8.run (hexBytes hex) .start))

/-! ## Digits -/

/-- The digits of a byte, as the browser writes them. -/
def nibbles (b : UInt8) : List Nat :=
  if b.toNat < 16 then [b.toNat] else [b.toNat / 16, b.toNat % 16]

def digitUnit (n : Nat) : UInt16 := if n < 10 then UInt16.ofNat (48 + n) else UInt16.ofNat (87 + n)

/-- Digits in pairs. -/
def pairUp : List Nat → Bytes
  | i :: j :: ns => UInt8.ofNat (16 * i + j) :: pairUp ns
  | _ => []

theorem toString16_units (b : UInt8) :
    Utf16.encode (toString16 b.toNat) = (nibbles b).map digitUnit := by
  revert b
  apply Http.forall_byte
  decide +kernel

theorem parseInt_units {i j : Nat} (hi : i < 16) (hj : j < 16) :
    toUint8 (parseInt (Utf16.decode [digitUnit i, digitUnit j])) = UInt8.ofNat (16 * i + j) := by
  have hall : ∀ i j : Fin 16, toUint8 (parseInt (Utf16.decode [digitUnit i, digitUnit j])) =
      UInt8.ofNat (16 * i + j) := by decide +kernel
  exact hall ⟨i, hi⟩ ⟨j, hj⟩

theorem nibbles_lt (bs : Bytes) : ∀ n ∈ bs.flatMap nibbles, n < 16 := by
  intro n hn
  obtain ⟨b, -, hb⟩ := List.mem_flatMap.mp hn
  have hlt := b.toNat_lt
  rw [nibbles] at hb
  split at hb
  · rw [List.mem_singleton.mp hb]
    assumption
  · simp only [List.mem_cons, List.not_mem_nil, or_false] at hb
    omega

theorem hexBytes_units {ns : List Nat} (h : ∀ n ∈ ns, n < 16) :
    hexBytes (ns.map digitUnit) = pairUp ns := by
  fun_induction pairUp ns with
  | case1 i j ns ih =>
    have hi := h i List.mem_cons_self
    have hj := h j (List.mem_cons_of_mem _ List.mem_cons_self)
    rw [List.map_cons, List.map_cons, hexBytes, parseInt_units hi hj,
      ih fun n hn => h n (List.mem_cons_of_mem _ (List.mem_cons_of_mem _ hn))]
  | case2 ns hns =>
    match ns with
    | [] => rfl
    | [i] => rfl
    | i :: j :: ns => exact absurd rfl (hns i j ns)

/-- What `hexEncode` writes behind the `0x`. -/
theorem hexEncode_units (s : List UInt16) : hexEncode s =
    Utf16.encode "0x".toList ++ ((utf8 (Utf16.decode s)).flatMap nibbles).map digitUnit := by
  rw [hexEncode, List.map_flatMap]
  simp only [toString16_units]

theorem drop_hexEncode (s : List UInt16) :
    (hexEncode s).drop 2 = ((utf8 (Utf16.decode s)).flatMap nibbles).map digitUnit := by
  rw [hexEncode_units]
  rfl

/-- Back and forth, on the digits. -/
theorem hexDecode_hexEncode (s : List UInt16) : hexDecode (hexEncode s) =
    Utf16.encode (stripBom (Utf8.run (pairUp ((utf8 (Utf16.decode s)).flatMap nibbles)) .start)) := by
  have hmark : (Utf16.encode "0x".toList).isPrefixOf (hexEncode s) = true := by
    rw [hexEncode_units, List.isPrefixOf_iff_prefix]
    exact List.prefix_append _ _
  rw [hexDecode, hmark, if_pos rfl, drop_hexEncode, hexBytes_units (nibbles_lt _)]

/-! ## Pairs -/

theorem pairUp_cons_cons (i j : Nat) (ns : List Nat) :
    pairUp (i :: j :: ns) = UInt8.ofNat (16 * i + j) :: pairUp ns := rfl

theorem length_pairUp (ns : List Nat) : (pairUp ns).length = ns.length / 2 := by
  fun_induction pairUp ns with
  | case1 i j ns ih =>
    rw [List.length_cons, ih, List.length_cons, List.length_cons]
    omega
  | case2 ns hns =>
    match ns with
    | [] => rfl
    | [i] => simp
    | i :: j :: ns => exact absurd rfl (hns i j ns)

theorem pairUp_append {ns : List Nat} (h : ns.length % 2 = 0) (ns' : List Nat) :
    pairUp (ns ++ ns') = pairUp ns ++ pairUp ns' := by
  fun_induction pairUp ns with
  | case1 i j ns ih =>
    rw [List.length_cons, List.length_cons] at h
    rw [List.cons_append, List.cons_append, pairUp_cons_cons, ih (by omega), List.cons_append]
  | case2 ns hns =>
    match ns with
    | [] => rfl
    | [i] => simp at h
    | i :: j :: ns => exact absurd rfl (hns i j ns)

/-- **Bytes from 16 on come back.** -/
theorem pairUp_nibbles {bs : Bytes} (h : ∀ b ∈ bs, 16 ≤ b.toNat) (ns : List Nat) :
    pairUp (bs.flatMap nibbles ++ ns) = bs ++ pairUp ns := by
  induction bs with
  | nil => rfl
  | cons b bs ih =>
    have hb := h b List.mem_cons_self
    rw [List.flatMap_cons, nibbles, if_neg (Nat.not_lt.mpr hb)]
    show pairUp (b.toNat / 16 :: b.toNat % 16 :: (bs.flatMap nibbles ++ ns)) = _
    rw [pairUp_cons_cons, ih fun b' hb' => h b' (List.mem_cons_of_mem _ hb'), Nat.div_add_mod,
      UInt8.ofNat_toNat]
    rfl

/-- A byte below 16 is a digit short. -/
theorem length_nibbles (bs : Bytes) : (bs.flatMap nibbles).length ≤ 2 * bs.length ∧
    ((bs.flatMap nibbles).length = 2 * bs.length → ∀ b ∈ bs, 16 ≤ b.toNat) := by
  induction bs with
  | nil => simp
  | cons b bs ih =>
    rw [List.flatMap_cons, List.length_append, List.length_cons, nibbles]
    split
    · rw [List.length_singleton]
      exact ⟨by omega, fun h => by omega⟩
    · rename_i hb
      rw [List.length_cons, List.length_singleton]
      refine ⟨by omega, fun h b' hb' => ?_⟩
      rcases List.mem_cons.mp hb' with rfl | hb'
      · exact Nat.not_lt.mp hb
      · exact ih.2 (by omega) b' hb'

/-! ## Text -/

/-- The digits of a text. -/
def digits (cs : List Char) : List Nat := (utf8 cs).flatMap nibbles

theorem digits_cons (c : Char) (cs : List Char) :
    digits (c :: cs) = (String.utf8EncodeChar c).flatMap nibbles ++ digits cs := by
  rw [digits, utf8, List.flatMap_cons, List.flatMap_append]
  rfl

theorem digits_append (cs cs' : List Char) : digits (cs ++ cs') = digits cs ++ digits cs' := by
  rw [digits, utf8, List.flatMap_append, List.flatMap_append]
  rfl

theorem utf8_le {cs : List Char} (h : ∀ c ∈ cs, 16 ≤ c.toNat) : ∀ b ∈ utf8 cs, 16 ≤ b.toNat := by
  intro b hb
  obtain ⟨c, hc, hmem⟩ := List.mem_flatMap.mp hb
  exact (Utf8.encodes_encodeChar c).le (by omega) (h c hc) b hmem

theorem digits_small {c : Char} (h : c.toNat < 16) (cs : List Char) :
    digits (c :: cs) = c.toNat :: digits cs := by
  have hbyte : (UInt8.ofNat c.toNat).toNat = c.toNat := by
    rw [UInt8.toNat_ofNat', Nat.mod_eq_of_lt (by omega)]
  rw [digits_cons, Utf8.encodeChar_ascii (by omega), List.flatMap_singleton, nibbles, hbyte, if_pos h]
  rfl

/-- Only a NUL begins with the digit 0. -/
theorem digits_zero {cs : List Char} {ns : List Nat} (h : digits cs = 0 :: ns) :
    ∃ cs', cs = Char.ofNat 0 :: cs' ∧ ns = digits cs' := by
  cases cs with
  | nil => cases h
  | cons c cs =>
    by_cases hsmall : c.toNat < 16
    · rw [digits_small hsmall, List.cons.injEq] at h
      refine ⟨cs, ?_, h.2.symm⟩
      rw [← h.1, Char.ofNat_toNat]
    · exfalso
      have hbytes := (Utf8.encodes_encodeChar c).le (n := 16) (by omega) (Nat.not_lt.mp hsmall)
      rw [digits_cons] at h
      cases hencode : String.utf8EncodeChar c with
      | nil => simp at hencode
      | cons b bs =>
        have hb := hbytes b (by rw [hencode]; exact List.mem_cons_self)
        rw [hencode, List.flatMap_cons, nibbles, if_neg (Nat.not_lt.mpr hb), List.cons_append,
          List.cons_append, List.cons.injEq] at h
        omega

/-- **NULs do not come back**: two of them are read as one, and what is missing would have to follow. -/
theorem run_digits_ne (cs : List Char) (k : Nat) :
    Utf8.run (pairUp (digits cs)) .start ≠ List.replicate (k + 1) (Char.ofNat 0) ++ cs := by
  generalize hlength : cs.length = n
  induction n using Nat.strongRecOn generalizing cs k with
  | _ n ih =>
    intro h
    rw [List.replicate_succ, List.cons_append] at h
    obtain ⟨bs, bs', hbytes, hencodes, hrest⟩ := Utf8.exists_encodes (by decide) h
    rw [hencodes.eq, Utf8.encodeChar_ascii (by decide)] at hbytes
    cases hdigits : digits cs with
    | nil => simp [hdigits, pairUp] at hbytes
    | cons i ns =>
      cases ns with
      | nil => simp [hdigits, pairUp] at hbytes
      | cons j ns =>
        rw [hdigits, pairUp_cons_cons, List.singleton_append, List.cons.injEq] at hbytes
        have hlt := nibbles_lt (utf8 cs)
        change ∀ n ∈ digits cs, n < 16 at hlt
        rw [hdigits] at hlt
        have hi := hlt i List.mem_cons_self
        have hj := hlt j (List.mem_cons_of_mem _ List.mem_cons_self)
        have hvalue := congrArg UInt8.toNat hbytes.1
        rw [UInt8.toNat_ofNat', Nat.mod_eq_of_lt (by omega)] at hvalue
        change 16 * i + j = 0 at hvalue
        have hizero : i = 0 := by omega
        have hjzero : j = 0 := by omega
        subst hizero hjzero
        obtain ⟨cs', rfl, hdigits'⟩ := digits_zero hdigits
        obtain ⟨cs'', rfl, hdigits''⟩ := digits_zero hdigits'.symm
        rw [← hbytes.2, hdigits''] at hrest
        refine ih cs''.length ?_ cs'' (k + 1) rfl ?_
        · rw [← hlength, List.length_cons, List.length_cons]
          omega
        · rw [hrest, List.replicate_succ', List.replicate_succ', List.append_assoc, List.append_assoc]
          rfl

/-- A text of which some character is below 16 does not come back. -/
theorem run_digits_small {pre post : List Char} {c : Char} (hpre : ∀ c ∈ pre, 16 ≤ c.toNat)
    (hc : c.toNat < 16) : Utf8.run (pairUp (digits (pre ++ c :: post))) .start ≠ pre ++ c :: post := by
  intro h
  rw [digits_append, digits, pairUp_nibbles (utf8_le hpre), utf8, Utf8.run_encode,
    List.append_cancel_left_eq, digits_small hc] at h
  have hne : c ≠ Utf8.replacement := by
    rintro rfl
    exact absurd hc (by decide)
  obtain ⟨bs, bs', hbytes, hencodes, hrest⟩ := Utf8.exists_encodes hne h
  rw [hencodes.eq, Utf8.encodeChar_ascii (by omega)] at hbytes
  cases hdigits : digits post with
  | nil => simp [hdigits, pairUp] at hbytes
  | cons e ns =>
    have hlt := nibbles_lt (utf8 post)
    change ∀ n ∈ digits post, n < 16 at hlt
    rw [hdigits] at hlt
    have he := hlt e List.mem_cons_self
    rw [hdigits, pairUp_cons_cons, List.singleton_append, List.cons.injEq] at hbytes
    have hvalue := congrArg UInt8.toNat hbytes.1
    rw [UInt8.toNat_ofNat', UInt8.toNat_ofNat', Nat.mod_eq_of_lt (by omega),
      Nat.mod_eq_of_lt (by omega)] at hvalue
    have hezero : e = 0 := by omega
    subst hezero
    obtain ⟨post', rfl, hdigits'⟩ := digits_zero hdigits
    rw [← hbytes.2, hdigits'] at hrest
    exact run_digits_ne post' 0 hrest

/-- Nothing comes back behind a byte order mark: what is read before the first U+FFFD of the text comes
from its own bytes, three of which the mark has taken. -/
theorem run_digits_bom (cs : List Char) : Utf8.run (pairUp (digits cs)) .start ≠ bom :: cs := by
  intro h
  have hsplit := List.takeWhile_append_dropWhile (p := (· ≠ Utf8.replacement)) (l := cs)
  generalize hpre : cs.takeWhile (· ≠ Utf8.replacement) = pre at hsplit
  have hno : Utf8.replacement ∉ bom :: pre := by
    intro hmem
    rcases List.mem_cons.mp hmem with hbom | hmem
    · exact absurd hbom (by decide)
    · rw [← hpre] at hmem
      simpa using List.mem_takeWhile_imp hmem
  have hread := h
  rw [← hsplit, ← List.cons_append] at hread
  obtain ⟨bs', hbytes, -⟩ := Utf8.exists_encode hno hread
  have hlength : ((bom :: pre).flatMap String.utf8EncodeChar).length = 3 + (utf8 pre).length := by
    rw [List.flatMap_cons, List.length_append]
    rfl
  have hshort := (length_nibbles (utf8 pre)).1
  change (digits pre).length ≤ _ at hshort
  -- U+FFFD would be among the characters before it
  have hnone : ∀ before piece after : Bytes,
      pairUp (digits (pre ++ cs.dropWhile (· ≠ Utf8.replacement))) = before ++ (piece ++ after) →
      before.length + piece.length ≤ 3 + (utf8 pre).length →
      ¬ ∀ bs, Utf8.replacement ∈ Utf8.run (before ++ (piece ++ bs)) .start := by
    intro before piece after hpieces hle hmem
    have hprefix : before ++ piece <+: (bom :: pre).flatMap String.utf8EncodeChar := by
      have hpiece : before ++ piece <+: before ++ (piece ++ after) := by
        rw [← List.append_assoc]
        exact List.prefix_append _ _
      have hchars : (bom :: pre).flatMap String.utf8EncodeChar <+: before ++ (piece ++ after) := by
        rw [← hpieces, hbytes]
        exact List.prefix_append _ _
      refine List.prefix_of_prefix_length_le hpiece hchars ?_
      rw [List.length_append, hlength]
      exact hle
    obtain ⟨bs, hbs⟩ := hprefix
    have hback := Utf8.run_encode (bom :: pre) []
    rw [List.append_nil, ← hbs, List.append_assoc] at hback
    have hin := hmem bs
    rw [hback, Utf8.run, List.append_nil] at hin
    exact hno hin
  cases htail : cs.dropWhile (· ≠ Utf8.replacement) with
  | nil =>
    rw [htail, List.append_nil] at hbytes
    have hcount := congrArg List.length hbytes
    rw [length_pairUp, List.length_append, hlength] at hcount
    omega
  | cons c post =>
    have hc : c = Utf8.replacement := by
      have hfirst := List.head?_dropWhile_not (· ≠ Utf8.replacement) cs
      rw [htail] at hfirst
      simpa using hfirst
    subst hc
    have hdigits : digits (Utf8.replacement :: post) = 14 :: 15 :: 11 :: 15 :: 11 :: 13 :: digits post := by
      rw [digits_cons]
      rfl
    rw [htail, digits_append, hdigits] at hnone
    rcases Nat.mod_two_eq_zero_or_one (digits pre).length with heven | hodd
    · -- its bytes stand among those before it
      refine hnone (pairUp (digits pre)) (String.utf8EncodeChar Utf8.replacement) (pairUp (digits post))
        ?_ ?_ ?_
      · rw [pairUp_append heven]
        rfl
      · rw [length_pairUp]
        have hthree : (String.utf8EncodeChar Utf8.replacement).length = 3 := rfl
        omega
      · exact Utf8.replacement_mem_run_of_encode _
    · -- the digits of its second byte and of its third are read as one byte, which begins nothing
      rcases List.eq_nil_or_concat (digits pre) with hnil | ⟨ns, x, hconcat⟩
      · simp [hnil] at hodd
      · rw [hconcat] at hnone hodd hshort
        simp only [List.concat_eq_append, List.length_append, List.length_singleton] at hnone hodd hshort
        refine hnone (pairUp ns ++ [UInt8.ofNat (16 * x + 14)]) [0xfb]
          (pairUp (15 :: 11 :: 13 :: digits post)) ?_ ?_ ?_
        · rw [List.append_assoc, pairUp_append (by omega), List.append_assoc]
          rfl
        · rw [List.length_append, length_pairUp, List.length_singleton, List.length_singleton]
          omega
        · intro bs
          exact Utf8.replacement_mem_run_of_other (by decide) _ bs

/-- **A text comes back** where no character is below 16, and no byte order mark stands at the front. -/
theorem stripBom_run_digits_iff (cs : List Char) :
    stripBom (Utf8.run (pairUp (digits cs)) .start) = cs ↔
      (∀ c ∈ cs, 16 ≤ c.toNat) ∧ cs.head? ≠ some bom := by
  constructor
  · intro h
    have hrun : Utf8.run (pairUp (digits cs)) .start = cs ∧ cs.head? ≠ some bom := by
      cases hread : Utf8.run (pairUp (digits cs)) .start with
      | nil =>
        rw [hread, stripBom] at h
        rw [← h]
        exact ⟨rfl, by simp⟩
      | cons c rest =>
        rw [hread, stripBom] at h
        split at h
        · rename_i hbom
          rw [hbom, h] at hread
          exact absurd hread (run_digits_bom cs)
        · rename_i hbom
          rw [← h]
          exact ⟨rfl, by simpa using hbom⟩
    refine ⟨?_, hrun.2⟩
    by_contra hsmall
    simp only [not_forall, Nat.not_le] at hsmall
    obtain ⟨c, hmem, hc⟩ := hsmall
    have hsplit := List.takeWhile_append_dropWhile (p := fun c : Char => 16 ≤ c.toNat) (l := cs)
    cases htail : cs.dropWhile fun c : Char => 16 ≤ c.toNat with
    | nil =>
      rw [List.dropWhile_eq_nil_iff] at htail
      exact absurd (htail c hmem) (by simpa using hc)
    | cons c post =>
      have hfirst := List.head?_dropWhile_not (fun c : Char => 16 ≤ c.toNat) cs
      rw [htail] at hfirst
      simp only [List.head?_cons, decide_eq_false_iff_not, Nat.not_le] at hfirst
      rw [htail] at hsplit
      have hpre : ∀ c ∈ cs.takeWhile fun c : Char => 16 ≤ c.toNat, 16 ≤ c.toNat := by
        intro c hc
        simpa using List.mem_takeWhile_imp hc
      have hfixed := hrun.1
      rw [← hsplit] at hfixed
      exact run_digits_small hpre hfirst hfixed
  · rintro ⟨hall, hbom⟩
    have hpairs := pairUp_nibbles (utf8_le hall) []
    rw [List.append_nil] at hpairs
    have hread := Utf8.run_encode cs []
    rw [List.append_nil, Utf8.run, List.append_nil] at hread
    rw [digits, hpairs]
    show stripBom (Utf8.run (utf8 cs ++ []) .start) = cs
    rw [List.append_nil, utf8, hread]
    cases cs with
    | nil => rfl
    | cons c cs =>
      rw [stripBom, if_neg]
      simpa using hbom

/-! ## Code units -/

/-- The strings that come back. -/
structure Plain (s : List UInt16) : Prop where
  padded : ∀ u ∈ s, 16 ≤ u.toNat
  wellFormed : Utf16.wellFormed s = true
  noBom : s.head? ≠ some 0xfeff

theorem single_le (u : UInt16) : 16 ≤ (Utf16.single u).toNat ↔ 16 ≤ u.toNat := by
  cases hsurrogate : Utf16.isSurrogate u with
  | false => rw [Utf16.toNat_single hsurrogate]
  | true =>
    have hlarge : ¬ (u.toNat < 0xd800 ∨ 0xe000 ≤ u.toNat) := by
      rw [← Utf16.isSurrogate_eq_false, hsurrogate]
      exact Bool.noConfusion
    rw [Utf16.single, hsurrogate, if_pos rfl]
    have hreplacement : 16 ≤ Utf16.replacement.toNat := by decide
    omega

theorem single_bom (u : UInt16) : Utf16.single u = bom ↔ u = 0xfeff := by
  constructor
  · intro h
    cases hsurrogate : Utf16.isSurrogate u with
    | false =>
      have hvalue := congrArg Char.toNat h
      rw [Utf16.toNat_single hsurrogate] at hvalue
      exact UInt16.toNat_inj.mp hvalue
    | true =>
      rw [Utf16.single, hsurrogate, if_pos rfl] at h
      exact absurd h (by decide)
  · rintro rfl
    decide

theorem pair_large {u v : UInt16} (h : (Utf16.isHigh u && Utf16.isLow v) = true) :
    0x10000 ≤ (Utf16.pair u v).toNat ∧ 0xd800 ≤ u.toNat ∧ u.toNat < 0xdc00 ∧ 0xdc00 ≤ v.toNat := by
  rw [Bool.and_eq_true] at h
  have hvalue := Utf16.toNat_pair h.1 h.2
  simp only [Utf16.isHigh, Utf16.isLow, Bool.and_eq_true, decide_eq_true_eq] at h
  omega

theorem decode_le_iff (s : List UInt16) :
    (∀ c ∈ Utf16.decode s, 16 ≤ c.toNat) ↔ ∀ u ∈ s, 16 ≤ u.toNat := by
  fun_induction Utf16.decode s with
  | case1 => simp
  | case2 u => simp [single_le]
  | case3 u v us hpair ih =>
    have hlarge := pair_large hpair
    rw [List.forall_mem_cons, List.forall_mem_cons, List.forall_mem_cons, ih]
    constructor
    · rintro ⟨-, h⟩
      exact ⟨by omega, by omega, h⟩
    · rintro ⟨-, -, h⟩
      exact ⟨by omega, h⟩
  | case4 u v us hpair ih => rw [List.forall_mem_cons, List.forall_mem_cons, ih, single_le]

theorem head_decode_iff (s : List UInt16) :
    (Utf16.decode s).head? = some bom ↔ s.head? = some 0xfeff := by
  fun_cases Utf16.decode s with
  | case1 => simp
  | case2 u => simp [single_bom]
  | case3 u v us hpair =>
    have hlarge := pair_large hpair
    simp only [List.head?_cons, Option.some.injEq]
    constructor
    · intro h
      have hvalue := congrArg Char.toNat h
      have hbom : bom.toNat = 0xfeff := rfl
      omega
    · rintro rfl
      exact absurd hlarge.2.2.1 (by decide)
  | case4 u v us hpair => simp [single_bom]

/-- **The browser reads back what it wrote** in such strings, and in no others. -/
theorem hexDecode_hexEncode_iff (s : List UInt16) : hexDecode (hexEncode s) = s ↔ Plain s := by
  have htext := stripBom_run_digits_iff (Utf16.decode s)
  rw [decode_le_iff, ne_eq, head_decode_iff] at htext
  rw [hexDecode_hexEncode]
  constructor
  · intro h
    have hwell : Utf16.wellFormed s = true := by
      rw [← h]
      exact Utf16.wellFormed_encode _
    have hsame := h.trans ((Utf16.encode_decode_iff s).mpr hwell).symm
    obtain ⟨hpadded, hbom⟩ := htext.mp (Utf16.encode_injective hsame)
    exact ⟨hpadded, hwell, hbom⟩
  · rintro ⟨hpadded, hwell, hbom⟩
    rw [← digits, htext.mpr ⟨hpadded, hbom⟩]
    exact (Utf16.encode_decode_iff s).mpr hwell

/-! ## The server -/

theorem length_fromHexLoop (old : Nat) (stream hex : Bytes) :
    (fromHexLoop old stream hex).length = hex.length / 2 := by
  fun_induction fromHexLoop old stream hex with
  | case1 old stream a b rest value left hextract ih =>
    rw [List.length_cons, ih, List.length_cons, List.length_cons]
    omega
  | case2 hex old stream hhex =>
    match hex with
    | [] => rfl
    | [a] => simp
    | a :: b :: rest => exact absurd rfl (hhex a b rest)

/-- A stream that is not blank does not look at the old value. -/
theorem extractHex_hexOfByte (old : Nat) (b : UInt8) : extractHex old (hexOfByte b) = (b.toNat, []) := by
  have hzero : extractHex 0 (hexOfByte b) = (b.toNat, []) := by
    revert b
    apply Http.forall_byte
    decide +kernel
  have hblank : (hexOfByte b).dropWhile (fun b => b == 32 || (9 ≤ b && b ≤ 13)) ≠ [] := by
    revert b
    apply Http.forall_byte
    decide +kernel
  rw [← hzero]
  simp only [extractHex, if_neg hblank]

/-- **The server reads back what it wrote.** -/
theorem fromHexLoop_dataToHexString (old : Nat) (bs : Bytes) :
    fromHexLoop old [] (dataToHexString bs) = bs := by
  induction bs generalizing old with
  | nil => rfl
  | cons b bs ih =>
    rw [dataToHexString, List.flatMap_cons, ← dataToHexString]
    show UInt8.ofNat ((extractHex old (hexOfByte b)).1 % 256) ::
      fromHexLoop (extractHex old (hexOfByte b)).1 (extractHex old (hexOfByte b)).2 (dataToHexString bs) = _
    rw [extractHex_hexOfByte, ih, Nat.mod_eq_of_lt b.toNat_lt, UInt8.ofNat_toNat]

theorem dataFromHexString_dataToHexString (bs : Bytes) :
    dataFromHexString (dataToHexString bs) = some bs := by
  rw [dataFromHexString, Wsd.length_dataToHexString, if_neg, fromHexLoop_dataToHexString]
  rw [Nat.mul_mod_right]
  exact fun h => h rfl

/-- What the browser writes for bytes from 16 on is what the server writes. -/
theorem nibbles_dataToHexString {bs : Bytes} (h : ∀ b ∈ bs, 16 ≤ b.toNat) :
    ((bs.flatMap nibbles).map digitUnit).map UInt16.toUInt8 = dataToHexString bs := by
  have hbyte : ∀ b : UInt8, 16 ≤ b.toNat →
      ((nibbles b).map digitUnit).map UInt16.toUInt8 = hexOfByte b := by
    apply Http.forall_byte
    decide +kernel
  rw [List.map_flatMap, List.map_flatMap, dataToHexString]
  refine List.flatMap_congr fun b hb => ?_
  exact hbyte b (h b hb)

/-- **The server reads what the browser wrote** where each byte has two digits. -/
theorem dataFromHexString_hexEncode_iff (s : List UInt16) :
    dataFromHexString (((hexEncode s).drop 2).map UInt16.toUInt8) = some (utf8 (Utf16.decode s)) ↔
      ∀ u ∈ s, 16 ≤ u.toNat := by
  rw [drop_hexEncode, ← decode_le_iff]
  constructor
  · intro h
    rw [dataFromHexString] at h
    split at h
    · cases h
    · rw [Option.some.injEq] at h
      have hcount := congrArg List.length h
      rw [length_fromHexLoop, List.length_map, List.length_map] at hcount
      have hshort := length_nibbles (utf8 (Utf16.decode s))
      have hall := hshort.2 (by omega)
      intro c hc
      by_contra hsmall
      have hmem : UInt8.ofNat c.toNat ∈ utf8 (Utf16.decode s) := by
        refine List.mem_flatMap.mpr ⟨c, hc, ?_⟩
        rw [Utf8.encodeChar_ascii (by omega)]
        exact List.mem_singleton_self _
      have hle := hall _ hmem
      rw [UInt8.toNat_ofNat', Nat.mod_eq_of_lt (by omega)] at hle
      exact hsmall hle
  · intro hall
    rw [nibbles_dataToHexString (utf8_le hall), dataFromHexString_dataToHexString]

/-- Strings of hex digits. -/
def isHex (s : Bytes) : Bool := s.all fun b => (Http.hexDigitFromChar b).isSome

/-- **URLs in hex come back** to the browser and get to the server where no character of theirs is
below 16, no surrogate stands alone, and no byte order mark at the front; and nowhere else. Bytes come
back to the server. Of what is not an even number of digits it rejects what has an odd length. -/
theorem hex_invertible_iff (s : List UInt16) (bs hex : Bytes) :
    ((hexDecode (hexEncode s) = s ∧
        dataFromHexString (((hexEncode s).drop 2).map UInt16.toUInt8) = some (utf8 (Utf16.decode s))) ↔
        Plain s) ∧
      (dataFromHexString (((hexEncode s).drop 2).map UInt16.toUInt8) = some (utf8 (Utf16.decode s)) ↔
        ∀ u ∈ s, 16 ≤ u.toNat) ∧
      dataFromHexString (dataToHexString bs) = some bs ∧
      ((¬ (hex.length % 2 = 0 ∧ isHex hex = true) → dataFromHexString hex = none) ↔
        hex.length % 2 = 1 ∨ isHex hex = true) := by
  refine ⟨?_, dataFromHexString_hexEncode_iff s, dataFromHexString_dataToHexString bs, ?_⟩
  · rw [hexDecode_hexEncode_iff, dataFromHexString_hexEncode_iff]
    constructor
    · intro h
      exact h.1
    · intro h
      exact ⟨h, h.padded⟩
  · rw [dataFromHexString]
    rcases Nat.mod_two_eq_zero_or_one hex.length with heven | hodd
    · simp [heven]
    · simp [hodd]

/-- A tab has one digit. -/
theorem not_hex_invertible :
    ¬ ((∀ s : List UInt16, hexDecode (hexEncode s) = s ∧
      dataFromHexString (((hexEncode s).drop 2).map UInt16.toUInt8) = some (utf8 (Utf16.decode s))) ∧
      (∀ bs : Bytes, dataFromHexString (dataToHexString bs) = some bs) ∧
      ∀ s : Bytes, ¬ (s.length % 2 = 0 ∧ isHex s = true) → dataFromHexString s = none) := by
  intro h
  have hpadded := (dataFromHexString_hexEncode_iff [9]).mp (h.1 [9]).2 9 List.mem_cons_self
  exact absurd hpadded (by decide)

end Oxool.Browser
