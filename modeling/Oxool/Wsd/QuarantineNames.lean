import Oxool.Wsd.Quarantine

/-!
# The names of quarantined files (`wsd/QuarantineUtil.cpp`)

The constructor of `Quarantine` joins the parts of a name with the delimiter, after it has encoded the
document's name so that the delimiter is not in it; `initialize` takes the document key out again, from
the third token up to the last one. A key with delimiters in it comes back, but not one that begins
with a delimiter, or is empty, since a token never begins so; and the encoded name has to be one token,
which it is not where it is empty, or where the encoder leaves a delimiter as it is.

`Poco::URI::encode` is a parameter, of the characters to be encoded and of the text.
-/

set_option autoImplicit false

namespace Oxool.Wsd.Quarantine

open Oxool.Http (Bytes ascii)
open Oxool.Protocol

/-- What the constructor keeps of a document with a name. -/
def Document.ofName (encode : Bytes → Bytes → Bytes) (docKey docName : Bytes) (pid : Int) : Document where
  docKey := docKey
  docName := encode (ascii ",/?:@&=+$#" ++ [delimiter]) docName
  pid := pid

/-! ## Where tokens start -/

/-- A token starts behind what was read, and behind one character more inside of a token. -/
theorem le_of_mem_tokenStarts {j : Nat} {l : Bytes} {i : Nat} {inToken : Bool}
    (h : j ∈ tokenStarts i inToken l) : i + inToken.toNat ≤ j := by
  induction l generalizing i inToken with
  | nil => simp [tokenStarts] at h
  | cons b l ih =>
    rw [tokenStarts] at h
    split at h
    · have hle := ih h
      have hone : inToken.toNat ≤ 1 := Bool.toNat_le inToken
      omega
    · cases inToken with
      | true =>
        have hle := ih h
        simp only [Bool.toNat_true] at hle ⊢
        omega
      | false =>
        rcases List.mem_cons.mp h with rfl | h
        · simp
        · have hle := ih h
          simp only [Bool.toNat_true, Bool.toNat_false] at hle ⊢
          omega

theorem lt_of_mem_tokenStarts {j : Nat} {l : Bytes} {i : Nat} {inToken : Bool}
    (h : j ∈ tokenStarts i inToken l) : j < i + l.length := by
  induction l generalizing i inToken with
  | nil => simp [tokenStarts] at h
  | cons b l ih =>
    rw [List.length_cons]
    rw [tokenStarts] at h
    split at h
    · have hlt := ih h
      omega
    · cases inToken with
      | true =>
        have hlt := ih h
        omega
      | false =>
        rcases List.mem_cons.mp h with rfl | h
        · omega
        · have hlt := ih h
          omega

/-- A token does not start with a delimiter. -/
theorem getElem?_of_mem_tokenStarts {j : Nat} {l : Bytes} {i : Nat} {inToken : Bool}
    (h : j ∈ tokenStarts i inToken l) : ∃ b, l[j - i]? = some b ∧ b ≠ delimiter := by
  induction l generalizing i inToken with
  | nil => simp [tokenStarts] at h
  | cons b l ih =>
    have hnext : ∀ {inToken : Bool}, j ∈ tokenStarts (i + 1) inToken l →
        ∃ c, (b :: l)[j - i]? = some c ∧ c ≠ delimiter := by
      intro inToken h
      have hle := le_of_mem_tokenStarts h
      obtain ⟨c, hc, hne⟩ := ih h
      refine ⟨c, ?_, hne⟩
      rw [show j - i = (j - (i + 1)) + 1 by omega, List.getElem?_cons_succ]
      exact hc
    rw [tokenStarts] at h
    split at h
    · exact hnext h
    · rename_i hb
      cases inToken with
      | true => exact hnext h
      | false =>
        rcases List.mem_cons.mp h with rfl | h
        · exact ⟨b, by simp, hb⟩
        · exact hnext h

/-- Between two tokens there is a delimiter. -/
theorem pairwise_tokenStarts (l : Bytes) (i : Nat) (inToken : Bool) :
    (tokenStarts i inToken l).Pairwise fun j k => j + 2 ≤ k := by
  induction l generalizing i inToken with
  | nil => exact List.Pairwise.nil
  | cons b l ih =>
    rw [tokenStarts]
    split
    · exact ih _ _
    · cases inToken with
      | true => exact ih _ _
      | false =>
        refine List.Pairwise.cons ?_ (ih _ _)
        intro k hk
        have hle := le_of_mem_tokenStarts hk
        exact hle

theorem tokenStarts_false_eq_nil {i : Nat} {l : Bytes} :
    tokenStarts i false l = [] ↔ ∀ b ∈ l, b = delimiter := by
  induction l generalizing i with
  | nil => simp [tokenStarts]
  | cons b l ih =>
    rw [tokenStarts]
    by_cases hb : b = delimiter
    · rw [if_pos hb, ih]
      simp [hb]
    · simp [hb]

/-- No token starts behind one that only delimiters follow. -/
theorem tokenStarts_true_eq_nil {i : Nat} {l : Bytes} :
    tokenStarts i true l = [] ↔ ∀ b ∈ l.dropWhile (· != delimiter), b = delimiter := by
  induction l generalizing i with
  | nil => simp [tokenStarts]
  | cons b l ih =>
    rw [tokenStarts]
    by_cases hb : b = delimiter
    · rw [if_pos hb, tokenStarts_false_eq_nil, List.dropWhile_cons_of_neg (by simp [hb])]
      simp [hb]
    · rw [if_neg hb, if_pos rfl, ih, List.dropWhile_cons_of_pos (by simp [hb])]

/-- The first line of the text is one token, with nothing but delimiters behind it. -/
def IsLastToken (name : Bytes) : Prop :=
  let line := name.takeWhile (· != Http.lf)
  line ≠ [] ∧ line.head? ≠ some delimiter ∧ ∀ b ∈ line.dropWhile (· != delimiter), b = delimiter

instance (name : Bytes) : Decidable (IsLastToken name) :=
  inferInstanceAs (Decidable (_ ∧ _ ∧ ∀ b ∈ _, _))

theorem tokenStarts_eq_singleton {i : Nat} {name : Bytes} :
    tokenStarts i false (name.takeWhile (· != Http.lf)) = [i] ↔ IsLastToken name := by
  rw [IsLastToken]
  cases name.takeWhile (· != Http.lf) with
  | nil => simp [tokenStarts]
  | cons b line =>
    rw [tokenStarts]
    by_cases hb : b = delimiter
    · simp only [hb, if_true, List.head?_cons, ne_eq, not_true_eq_false, false_and, and_false, iff_false]
      intro h
      have hmem : i ∈ tokenStarts (i + 1) false line := by
        rw [h]
        exact List.mem_singleton_self i
      have hle := le_of_mem_tokenStarts hmem
      simp at hle
    · rw [List.dropWhile_cons_of_pos (by simp [hb])]
      simp [hb, tokenStarts_true_eq_nil]

/-! ## The document key in a name -/

namespace Document

variable (d : Document) (n : Nat)

theorem le_of_mem_nameTokens {j : Nat} (hj : j ∈ d.nameTokens n) :
    (d.beforeKey n).length + d.docKey.length + 1 ≤ j :=
  Nat.le_of_add_right_le (le_of_mem_tokenStarts hj)

theorem lt_of_mem_keyTokens {j : Nat} (hj : j ∈ d.keyTokens n) :
    j < (d.beforeKey n).length + d.docKey.length := lt_of_mem_tokenStarts hj

/-- At a token behind the two first ones there is no delimiter. -/
theorem getElem?_of_mem_tokens {j : Nat} (hj : j ∈ d.keyTokens n ++ d.nameTokens n) :
    ∃ b, (d.fileName n)[j]? = some b ∧ b ≠ delimiter := by
  rw [fileName_eq]
  rcases List.mem_append.mp hj with hj | hj
  · obtain ⟨b, hb, hne⟩ := getElem?_of_mem_tokenStarts hj
    have hle := le_of_mem_tokenStarts hj
    have hlt := d.lt_of_mem_keyTokens n hj
    simp only [Bool.toNat_false, Nat.add_zero] at hle
    refine ⟨b, ?_, hne⟩
    rw [List.getElem?_append_right hle, List.getElem?_append_left (by omega)]
    exact hb
  · obtain ⟨b, hb, hne⟩ := getElem?_of_mem_tokenStarts hj
    have hle := d.le_of_mem_nameTokens n hj
    refine ⟨b, ?_, hne⟩
    rw [List.getElem?_append_right (by omega), List.getElem?_append_right (by omega),
      show j - (d.beforeKey n).length - d.docKey.length =
        (j - ((d.beforeKey n).length + d.docKey.length + 1)) + 1 by omega, List.getElem?_cons_succ]
    obtain ⟨hlt, hget⟩ := List.getElem?_eq_some_iff.mp hb
    rw [← List.takeWhile_append_dropWhile (p := (· != Http.lf)) (l := d.docName),
      List.getElem?_append_left hlt]
    exact hb

theorem pairwise_tokens (hkey : Http.lf ∉ d.docKey) :
    (d.keyTokens n ++ d.nameTokens n).Pairwise fun j k => j + 2 ≤ k := by
  have hall := pairwise_tokenStarts ((d.fileName n).takeWhile (· != Http.lf)) 0 false
  have hindices := d.tokenIndices_fileName_eq n hkey
  rw [tokenIndices, if_neg (head?_fileName d n)] at hindices
  rw [hindices] at hall
  exact (List.pairwise_cons.mp (List.pairwise_cons.mp hall).2).2

/-- What `initialize` reads starts at the third token; it is all of the rest where this is the last one,
and goes up to the delimiter of the last one where it is not. -/
theorem docKeyOf_fileName_cons (hkey : Http.lf ∉ d.docKey) {i : Nat} {more : List Nat}
    (htokens : d.keyTokens n ++ d.nameTokens n = i :: more) :
    docKeyOf (d.fileName n) = some (
      match more.getLast? with
      | none => (d.fileName n).drop i
      | some j => ((d.fileName n).drop i).take (j - i - 1)) := by
  have hindices := d.tokenIndices_fileName_eq n hkey
  rw [htokens] at hindices
  have hpairwise := d.pairwise_tokens n hkey
  rw [htokens] at hpairwise
  rw [docKeyOf, hindices]
  cases hlast : more.getLast? with
  | none =>
    rw [List.getLast?_eq_none_iff] at hlast
    subst hlast
    simp [substr]
  | some j =>
    have hj : j ∈ more := List.mem_of_getLast? hlast
    have hgap := List.rel_of_pairwise_cons hpairwise hj
    have hlast' : (0 :: ((decimal (n : Int)).length + 1) :: i :: more).getLast? = some j := by
      simp [List.getLast?_cons, hlast]
    rw [hlast']
    dsimp only [List.getElem?_cons_succ, List.getElem?_cons_zero]
    rw [if_neg (by omega)]
    rfl

/-- What is read starts with no delimiter. -/
theorem head?_of_docKeyOf (hkey : Http.lf ∉ d.docKey) {i : Nat} {more : List Nat}
    (htokens : d.keyTokens n ++ d.nameTokens n = i :: more) {docKey : Bytes}
    (h : docKeyOf (d.fileName n) = some docKey) : ∃ b, docKey.head? = some b ∧ b ≠ delimiter := by
  obtain ⟨b, hb, hne⟩ := d.getElem?_of_mem_tokens n (j := i) (by rw [htokens]; exact List.mem_cons_self)
  refine ⟨b, ?_, hne⟩
  rw [d.docKeyOf_fileName_cons n hkey htokens] at h
  rw [← Option.some.inj h]
  have hhead : ((d.fileName n).drop i).head? = some b := by
    rw [List.head?_drop, hb]
  cases hlast : more.getLast? with
  | none => exact hhead
  | some j =>
    have hmem := List.mem_of_getLast? hlast
    have hpairwise := d.pairwise_tokens n hkey
    rw [htokens] at hpairwise
    have hgap := List.rel_of_pairwise_cons hpairwise hmem
    dsimp only
    rw [List.head?_take, if_neg (by omega)]
    exact hhead

/-- **The document key comes back** where it neither is empty nor starts with a delimiter, and the encoded
name is one token. -/
theorem docKeyOf_fileName_iff (hkey : Http.lf ∉ d.docKey) :
    docKeyOf (d.fileName n) = some d.docKey ↔
      d.docKey ≠ [] ∧ d.docKey.head? ≠ some delimiter ∧ IsLastToken d.docName := by
  have hrest := d.drop_fileName n
  constructor
  · intro h
    cases htokens : d.keyTokens n ++ d.nameTokens n with
    | nil =>
      have hindices := d.tokenIndices_fileName_eq n hkey
      rw [htokens] at hindices
      simp [docKeyOf, hindices] at h
    | cons i more =>
      obtain ⟨b, hhead, hne⟩ := d.head?_of_docKeyOf n hkey htokens h
      have hnonempty : d.docKey ≠ [] := by
        intro hnil
        rw [hnil] at hhead
        cases hhead
      have hstart : d.docKey.head? ≠ some delimiter := by
        rw [hhead]
        exact fun heq => hne (Option.some.inj heq)
      refine ⟨hnonempty, hstart, ?_⟩
      -- the key is read from its start on
      obtain ⟨others, hothers⟩ := tokenStarts_head (d.beforeKey n).length hnonempty hstart
      have hi : i = (d.beforeKey n).length := by
        rw [keyTokens, hothers, List.cons_append] at htokens
        exact (List.cons.inj htokens).1.symm
      rw [d.docKeyOf_fileName_cons n hkey htokens, hi, hrest] at h
      have hlength := congrArg List.length (Option.some.inj h)
      cases hlast : more.getLast? with
      | none =>
        simp only [hlast, List.length_append, List.length_cons] at hlength
        omega
      | some j =>
        simp only [hlast, List.length_take, List.length_append, List.length_cons] at hlength
        have hpos := List.length_pos_iff.mpr hnonempty
        have hj : j = (d.beforeKey n).length + d.docKey.length + 1 := by omega
        have hlastToken : (d.keyTokens n ++ d.nameTokens n).getLast? = some j := by
          rw [htokens, List.getLast?_cons, hlast]
          rfl
        -- and up to the first token behind it, which is the last one
        have hsingle : d.nameTokens n = [(d.beforeKey n).length + d.docKey.length + 1] := by
          rw [← hj]
          cases hname : d.nameTokens n with
          | nil =>
            rw [hname, List.append_nil] at hlastToken
            have hlt := d.lt_of_mem_keyTokens n (List.mem_of_getLast? hlastToken)
            omega
          | cons k others =>
            have hle := d.le_of_mem_nameTokens n (j := k) (by rw [hname]; exact List.mem_cons_self)
            rw [hname, List.getLast?_append_of_ne_nil _ (List.cons_ne_nil _ _)] at hlastToken
            have hpairwise : (d.nameTokens n).Pairwise fun j k => j + 2 ≤ k := pairwise_tokenStarts _ _ _
            rw [hname] at hpairwise
            cases others with
            | nil =>
              rw [List.getLast?_singleton] at hlastToken
              rw [Option.some.inj hlastToken]
            | cons k' others =>
              rw [List.getLast?_cons_cons] at hlastToken
              have hgap := List.rel_of_pairwise_cons hpairwise (List.mem_of_getLast? hlastToken)
              omega
        exact tokenStarts_eq_singleton.mp hsingle
  · intro h
    obtain ⟨hnonempty, hstart, hname⟩ := h
    obtain ⟨others, hothers⟩ := tokenStarts_head (d.beforeKey n).length hnonempty hstart
    have hsingle : d.nameTokens n = [(d.beforeKey n).length + d.docKey.length + 1] :=
      tokenStarts_eq_singleton.mpr hname
    have htokens : d.keyTokens n ++ d.nameTokens n =
        (d.beforeKey n).length :: (others ++ [(d.beforeKey n).length + d.docKey.length + 1]) := by
      rw [keyTokens, hothers, hsingle, List.cons_append]
    rw [d.docKeyOf_fileName_cons n hkey htokens, List.getLast?_append, List.getLast?_singleton,
      Option.some_or]
    dsimp only
    have hlength : (d.beforeKey n).length + d.docKey.length + 1 - (d.beforeKey n).length - 1 =
        d.docKey.length := by omega
    rw [hlength, hrest, List.take_left]

end Document

/-- **Names give their document key back** where the key neither is empty nor starts with a delimiter,
and the name that was encoded is one token, whatever the encoder does. -/
theorem docKeyOf_ofName_iff (encode : Bytes → Bytes → Bytes) (seconds : Nat) (pid : Int)
    (docKey docName : Bytes) (hkey : Http.lf ∉ docKey) :
    docKeyOf ((Document.ofName encode docKey docName pid).fileName seconds) = some docKey ↔
      docKey ≠ [] ∧ docKey.head? ≠ some delimiter ∧
        IsLastToken (encode (ascii ",/?:@&=+$#" ++ [delimiter]) docName) :=
  (Document.ofName encode docKey docName pid).docKeyOf_fileName_iff seconds hkey

/-- A key with delimiters inside and at its end, under an encoder that has nothing to do. -/
theorem docKeyOf_ofName_iff_letter :
    docKeyOf ((Document.ofName (fun _ text => text) (ascii "a__b_") (ascii "letter.odt") 7).fileName 1000) =
        some (ascii "a__b_") ↔
      ascii "a__b_" ≠ [] ∧ (ascii "a__b_").head? ≠ some delimiter ∧ IsLastToken (ascii "letter.odt") :=
  docKeyOf_ofName_iff (fun _ text => text) 1000 7 (ascii "a__b_") (ascii "letter.odt") (by decide)

/-- No encoder helps a key that starts with a delimiter. -/
theorem not_docKeyOf_ofName :
    ¬ ∃ encode : Bytes → Bytes → Bytes, ∀ (seconds : Nat) (pid : Int) (docKey docName : Bytes),
      Http.lf ∉ docKey → (47 : UInt8) ∉ docKey → (0 : UInt8) ∉ docKey →
        docKeyOf ((Document.ofName encode docKey docName pid).fileName seconds) = some docKey := by
  rintro ⟨encode, hall⟩
  have hkey : Http.lf ∉ ascii "_a" := by decide
  have hback := hall 1000 7 (ascii "_a") (ascii "letter.odt") hkey (by decide) (by decide)
  have hstart := ((Document.ofName encode (ascii "_a") (ascii "letter.odt") 7).docKeyOf_fileName_iff 1000
    hkey).mp hback
  exact hstart.2.1 rfl

end Oxool.Wsd.Quarantine
