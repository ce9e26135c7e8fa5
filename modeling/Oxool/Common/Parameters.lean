import Oxool.Common.Tokenizing
import Oxool.Lib.FieldSearch

/-!
# Two ways to a parameter (`common/Protocol.cpp`)

A parameter `name=value` is looked for in the tokens of a message by `getTokenString`, and in the
message as it is by `getTokenStringFromMessage`. Both come by the first field that starts with
`name=`: the former by that of the first line, the latter by that of the whole message, a second
line or a payload with it. `fromMessage_iff` is about where that makes a difference.
-/

set_option autoImplicit false

namespace Oxool.Protocol

open Oxool.Http (Bytes ascii lf)

def getFirstLine (message : Bytes) : Bytes := message.takeWhile (· != lf)

variable {name message token l : Bytes}

theorem notMem_getFirstLine (message : Bytes) : lf ∉ getFirstLine message := by
  intro hmem
  have hne := List.mem_takeWhile_imp (p := (· != lf)) hmem
  simp at hne

theorem pair_ne_nil (name value : Bytes) : pair name value ≠ [] := by
  rw [pair]
  exact List.append_ne_nil_of_right_ne_nil _ (List.cons_ne_nil _ _)

theorem notMem_pair_nil {b : UInt8} (hname : b ∉ name) (hsign : b ≠ equalSign) :
    b ∉ pair name [] := by
  rw [pair, List.mem_append, List.mem_singleton]
  exact not_or.mpr ⟨hname, hsign⟩

theorem length_pair_nil (name : Bytes) : (pair name []).length = name.length + 1 := by
  rw [pair, List.length_append]
  rfl

/-- What follows the first `name=` at the start or behind a blank. -/
def parameterBehind (name : Bytes) : Bool → Bytes → Option Bytes :=
  fieldBehind (· == blank) (pair name [])

/-- `name=` stands at the start or behind a blank. -/
def Named (name message : Bytes) : Prop := StartsField (· == blank) (pair name []) message

theorem isSome_parameterBehind_iff :
    (parameterBehind name true message).isSome = true ↔ Named name message :=
  isSome_fieldBehind_iff (pair_ne_nil name [])

instance (name message : Bytes) : Decidable (Named name message) :=
  decidable_of_iff _ isSome_parameterBehind_iff

/-! ## In the tokens -/

theorem tokenString_of_isPrefix (h : pair name [] <+: token) :
    tokenString name token = some (token.drop (pair name []).length) := by
  have hpre : (name ++ [equalSign]).isPrefixOf token = true := List.isPrefixOf_iff_prefix.mpr h
  rw [tokenString, if_pos hpre, length_pair_nil]

theorem tokenString_of_not_isPrefix (h : ¬ pair name [] <+: token) :
    tokenString name token = none := by
  rw [tokenString, if_neg]
  rw [List.isPrefixOf_iff_prefix]
  exact h

/-- A token is a single field. -/
theorem tokenString_eq (htoken : ∀ b ∈ token, (b == blank) = false) :
    tokenString name token = parameterBehind name true token := by
  by_cases hpre : pair name [] <+: token
  · rw [tokenString_of_isPrefix hpre, parameterBehind, fieldBehind_true_of_isPrefix hpre]
  · rw [tokenString_of_not_isPrefix hpre, parameterBehind]
    cases token with
    | nil => rw [fieldBehind_nil (pair_ne_nil name [])]
    | cons b token =>
      rw [fieldBehind_cons_of_not_isPrefix hpre, htoken b List.mem_cons_self]
      rw [fieldBehind_false_of_forall (pair_ne_nil name [])]
      exact fun d hd => htoken d (List.mem_cons_of_mem b hd)

theorem findSome?_flush (name token : Bytes) :
    (flush token).findSome? (tokenString name) = tokenString name token := by
  rw [flush]
  split
  · next hnil =>
    have hpre : ¬ pair name [] <+: [] := fun h => pair_ne_nil name [] (List.prefix_nil.mp h)
    rw [hnil, tokenString_of_not_isPrefix hpre]
    rfl
  · rw [List.findSome?_singleton]

theorem takeWhile_of_parameterBehind {start : Bool} {rest : Bytes}
    (hl : ∀ b ∈ l, (b == blank) = false) (h : parameterBehind name start l = some rest) :
    rest.takeWhile (· != blank) = rest := by
  obtain ⟨front, hfront⟩ := exists_of_fieldBehind_eq_some h
  refine takeWhile_bne_of_notMem ?_
  intro hmem
  have hblank := hl blank (by rw [hfront]; exact List.mem_append_right _ hmem)
  rw [beq_self_eq_true] at hblank
  cases hblank

theorem tokenString_eq_map (htoken : ∀ b ∈ token, (b == blank) = false) :
    tokenString name token =
      (parameterBehind name true token).map (List.takeWhile (· != blank)) := by
  rw [tokenString_eq htoken]
  cases hrest : parameterBehind name true token with
  | none => rfl
  | some rest => rw [Option.map_some, takeWhile_of_parameterBehind htoken hrest]

/-- The first token that is a parameter of this name is the first field that starts so. -/
theorem findSome?_pieces (hblank : blank ∉ name) (htoken : ∀ b ∈ token, (b == blank) = false)
    (l : Bytes) :
    (pieces (· == blank) token l).findSome? (tokenString name) =
      (parameterBehind name true (token ++ l)).map (List.takeWhile (· != blank)) := by
  induction l generalizing token with
  | nil => rw [pieces, List.append_nil, findSome?_flush, tokenString_eq_map htoken]
  | cons b l ih =>
    rw [pieces]
    split
    · next hb =>
      obtain rfl := eq_of_beq hb
      rw [List.findSome?_append, findSome?_flush, ih (by simp), List.nil_append,
        tokenString_eq htoken, parameterBehind,
        fieldBehind_append (pair_ne_nil name []) (notMem_pair_nil hblank (by decide)), hb,
        ← parameterBehind]
      cases hrest : parameterBehind name true token with
      | none => rfl
      | some rest =>
        have hstop : (rest ++ blank :: l).takeWhile (· != blank) = rest := by
          rw [List.takeWhile_append, takeWhile_of_parameterBehind htoken hrest, if_pos rfl,
            List.takeWhile_cons_of_neg (by simp), List.append_nil]
        rw [Option.map_some, Option.some_or, Option.some_or, Option.map_some, hstop]
    · next hb =>
      have hmore : ∀ d ∈ token ++ [b], (d == blank) = false := by
        intro d hd
        cases List.mem_append.mp hd with
        | inl hd => exact htoken d hd
        | inr hd => rw [List.mem_singleton.mp hd, Bool.eq_false_iff.mpr hb]
      rw [ih hmore, List.append_assoc]
      rfl

theorem getTokenString_tokenize (hblank : blank ∉ name) (h0 : message.head? ≠ some 0) :
    getTokenString (tokenize message blank) name =
      (parameterBehind name true (getFirstLine message)).map
        (List.takeWhile (· != blank)) := by
  rw [getTokenString, tokenize, if_neg h0, findSome?_pieces hblank (by simp), List.nil_append,
    getFirstLine]

/-! ## In the message -/

/-- Up to the next blank or line break. -/
def parameterValue (rest : Bytes) : Bytes := rest.takeWhile fun d => d != blank && d != lf

theorem eq_of_name_isPrefix {b : UInt8} (h : name.isPrefixOf (b :: l) = true) :
    b :: l = name ++ (b :: l).drop name.length :=
  (List.prefix_iff_eq_append.mp (List.isPrefixOf_iff_prefix.mp h)).symm

/-- The name with the sign behind it. -/
theorem pair_isPrefix_iff {value : Bytes} {c : UInt8} :
    pair name [] <+: name ++ c :: value ↔ c = equalSign := by
  rw [pair, List.prefix_append_right_inj, List.cons_prefix_cons]
  exact ⟨fun h => h.1.symm, fun h => ⟨h.symm, List.nil_prefix⟩⟩

theorem parameterBehind_name (name value : Bytes) :
    parameterBehind name true (name ++ equalSign :: value) = some value := by
  have hsplit : name ++ equalSign :: value = pair name [] ++ value := by
    rw [pair, List.append_assoc]
    rfl
  rw [parameterBehind, fieldBehind_true_of_isPrefix (pair_isPrefix_iff.mpr rfl), hsplit,
    List.drop_left]

theorem parameterBehind_cons_of_not {start : Bool} {b : UInt8}
    (h : ¬ (start = true ∧ pair name [] <+: b :: l)) :
    parameterBehind name start (b :: l) = parameterBehind name (b == blank) l := by
  rw [← List.isPrefixOf_iff_prefix, ← Bool.and_eq_true] at h
  rw [parameterBehind, fieldBehind, if_neg h, ← parameterBehind]

/-- What is skipped has no blank in it. -/
theorem ne_blank_of_name (hname : name ≠ []) (hblank : blank ∉ name) {b : UInt8} {more : Bytes}
    (h : b :: l = name ++ more) : b ≠ blank ∧ ∀ d ∈ l.take (name.length - 1), d ≠ blank := by
  cases name with
  | nil => exact absurd rfl hname
  | cons b' name =>
    rw [List.cons_append, List.cons.injEq] at h
    obtain ⟨rfl, rfl⟩ := h
    rw [List.mem_cons, not_or] at hblank
    refine ⟨fun heq => hblank.1 heq.symm, ?_⟩
    intro d hd
    rw [List.length_cons, Nat.add_sub_cancel, List.take_left] at hd
    exact ne_of_mem_of_not_mem hd hblank.2

/-- There is no room for the name and the sign, or for those alone. -/
theorem parameterBehind_eq_none_of_short {start : Bool} (h : l.length ≤ name.length + 1)
    (hne : l ≠ pair name []) : parameterBehind name start l = none := by
  rw [Option.eq_none_iff_forall_ne_some]
  intro rest hrest
  obtain ⟨front, hfront⟩ := exists_of_fieldBehind_eq_some hrest
  have hlength := congrArg List.length hfront
  rw [List.length_append, List.length_append, length_pair_nil] at hlength
  obtain rfl : front = [] := List.eq_nil_of_length_eq_zero (by omega)
  obtain rfl : rest = [] := List.eq_nil_of_length_eq_zero (by omega)
  rw [List.nil_append, List.append_nil] at hfront
  exact hne hfront

theorem name_ne_pair_nil (name : Bytes) : name ≠ pair name [] := by
  intro heq
  have hlength := congrArg List.length heq
  rw [length_pair_nil] at hlength
  exact absurd hlength (Nat.ne_of_lt (Nat.lt_succ_self _))

/-- **The search comes by the first parameter of this name.** It may go on behind an occurrence of
the name that will not do, since no field starts in the name. -/
theorem searchToken_eq (hname : name ≠ []) (hblank : blank ∉ name) {skip : Nat} {start : Bool}
    (hskip : ∀ b ∈ l.take skip, b ≠ blank) (hstart : skip ≠ 0 → start = false) :
    searchToken name skip start l = (parameterBehind name start l).map parameterValue := by
  induction l generalizing skip start with
  | nil => rw [searchToken, parameterBehind, fieldBehind_nil (pair_ne_nil name [])]; rfl
  | cons b l ih =>
    cases skip with
    | succ skip =>
      rw [List.take_succ_cons, List.forall_mem_cons] at hskip
      rw [searchToken, ih hskip.2 fun _ => beq_false_of_ne hskip.1, hstart (Nat.succ_ne_zero skip),
        parameterBehind, fieldBehind_false_cons]
    | zero =>
      rw [searchToken]
      split
      · next hpre =>
        have hsplit := eq_of_name_isPrefix hpre
        split
        · next hdrop =>
          rw [hdrop, List.append_nil] at hsplit
          rw [hsplit, parameterBehind_eq_none_of_short (Nat.le_succ _) (name_ne_pair_nil name)]
          rfl
        · next c value hdrop =>
          rw [hdrop] at hsplit
          split
          · next hsign =>
            rw [Bool.and_eq_true, beq_iff_eq] at hsign
            rw [hsign.1, hsplit, hsign.2, parameterBehind_name]
            rfl
          · next hsign =>
            have hnext : parameterBehind name start (b :: l) =
                parameterBehind name (b == blank) l := by
              refine parameterBehind_cons_of_not ?_
              rw [hsplit, pair_isPrefix_iff]
              rwa [Bool.and_eq_true, beq_iff_eq] at hsign
            have hrest := ne_blank_of_name hname hblank hsplit
            rw [hnext, ih hrest.2 fun _ => beq_false_of_ne hrest.1]
      · next hpre =>
        have hpair : ¬ pair name [] <+: b :: l := by
          intro h
          exact hpre (List.isPrefixOf_iff_prefix.mpr ((List.prefix_append _ _).trans h))
        rw [ih (by simp) (by simp), parameterBehind, fieldBehind_cons_of_not_isPrefix hpair]

/-- The search of the whole message; a message of `name=` alone is taken for too short. -/
theorem getTokenStringFromMessage_eq (hname : name ≠ []) (hblank : blank ∉ name) :
    getTokenStringFromMessage message name =
      if message = pair name [] then none
      else (parameterBehind name true message).map parameterValue := by
  rw [getTokenStringFromMessage]
  split
  · next hlength =>
    have hne : message ≠ pair name [] := by
      intro heq
      rw [heq, length_pair_nil] at hlength
      exact Nat.lt_irrefl _ hlength
    rw [if_neg hne]
    exact searchToken_eq hname hblank (by simp) (by simp)
  · next hlength =>
    split
    · rfl
    · next hne =>
      rw [parameterBehind_eq_none_of_short (Nat.le_of_not_lt hlength) hne]
      rfl

/-! ## Where both are the same -/

/-- What is found in the first line is found in the message, with what is behind the line. -/
theorem parameterBehind_message (hlf : lf ∉ name) {rest : Bytes}
    (h : parameterBehind name true (getFirstLine message) = some rest) :
    ∃ behind, parameterBehind name true message = some (rest ++ behind) ∧
      (behind = [] ∨ behind.head? = some lf) := by
  have hmessage : getFirstLine message ++ message.dropWhile (· != lf) = message :=
    List.takeWhile_append_dropWhile
  cases hbehind : message.dropWhile (· != lf) with
  | nil =>
    rw [hbehind, List.append_nil] at hmessage
    rw [hmessage] at h
    exact ⟨[], by rw [h, List.append_nil], .inl rfl⟩
  | cons b behind =>
    have hb : b = lf := by
      have hhead := head?_dropWhile (p := (· != lf)) (l := message) (by rw [hbehind]; rfl)
      simpa using hhead
    rw [hbehind, hb] at hmessage
    refine ⟨lf :: behind, ?_, .inr rfl⟩
    rw [← hmessage, parameterBehind,
      fieldBehind_append (pair_ne_nil name []) (notMem_pair_nil hlf (by decide)),
      ← parameterBehind, h]
    rfl

theorem parameterValue_append {rest behind : Bytes} (hrest : lf ∉ rest)
    (hbehind : behind = [] ∨ behind.head? = some lf) :
    parameterValue (rest ++ behind) = rest.takeWhile (· != blank) := by
  induction rest with
  | nil =>
    cases behind with
    | nil => rfl
    | cons b behind =>
      obtain rfl : b = lf := by simpa using hbehind
      rfl
  | cons b rest ih =>
    rw [List.mem_cons, not_or] at hrest
    have hb : (b != lf) = true := bne_iff_ne.mpr fun heq => hrest.1 heq.symm
    have hrest := ih hrest.2
    rw [parameterValue] at hrest ⊢
    rw [List.cons_append, List.takeWhile_cons, List.takeWhile_cons, hrest, hb, Bool.and_true]

/-- **A parameter of the first line is read from the message as it is from the tokens.** -/
theorem parameterValue_message (hlf : lf ∉ name) (hnamed : Named name (getFirstLine message)) :
    (parameterBehind name true message).map parameterValue =
      (parameterBehind name true (getFirstLine message)).map
        (List.takeWhile (· != blank)) := by
  obtain ⟨rest, hrest⟩ := Option.isSome_iff_exists.mp (isSome_parameterBehind_iff.mpr hnamed)
  obtain ⟨behind, hmessage, hbehind⟩ := parameterBehind_message hlf hrest
  have hline : lf ∉ rest := by
    obtain ⟨front, hfront⟩ := exists_of_fieldBehind_eq_some hrest
    intro hmem
    refine notMem_getFirstLine message ?_
    rw [hfront]
    exact List.mem_append_right _ hmem
  rw [hmessage, hrest, Option.map_some, Option.map_some, parameterValue_append hline hbehind]

/-- The message and its tokens give the same: what stands behind the line break is in the first line
as well, there is more than `name=`, and a message that starts with NUL, which has no tokens, is not
read either. -/
structure SameParameter (name message : Bytes) : Prop where
  line : Named name message → Named name (getFirstLine message)
  more : message = pair name [] → message.head? = some 0
  text : message.head? = some 0 → Named name message → message = pair name []

instance (name message : Bytes) : Decidable (SameParameter name message) :=
  decidable_of_iff ((Named name message → Named name (getFirstLine message)) ∧
      (message = pair name [] → message.head? = some 0) ∧
      (message.head? = some 0 → Named name message → message = pair name []))
    ⟨fun h => ⟨h.1, h.2.1, h.2.2⟩, fun h => ⟨h.line, h.more, h.text⟩⟩

theorem params_eq (name message : Bytes) (hblank : blank ∉ name) :
    getTokenString (Tokenizing.tokenize message blank).params name =
      if message.head? = some 0 then none
      else (parameterBehind name true (getFirstLine message)).map
        (List.takeWhile (· != blank)) := by
  split
  · next h0 =>
    rw [Tokenizing.tokenize, if_pos (.inr h0)]
    rfl
  · next h0 => rw [Tokenizing.params_eq_tokenize h0, getTokenString_tokenize hblank h0]

theorem named_getFirstLine (hlf : lf ∉ name) (h : Named name (getFirstLine message)) :
    Named name message := by
  obtain ⟨rest, hrest⟩ := Option.isSome_iff_exists.mp (isSome_parameterBehind_iff.mpr h)
  obtain ⟨behind, hmessage, -⟩ := parameterBehind_message hlf hrest
  rw [← isSome_parameterBehind_iff, hmessage]
  rfl

theorem named_pair (name value : Bytes) : Named name (pair name value) := by
  rw [← isSome_parameterBehind_iff, pair, parameterBehind_name]
  rfl

theorem getFirstLine_pair_nil (hlf : lf ∉ name) : getFirstLine (pair name []) = pair name [] :=
  takeWhile_bne_of_notMem (notMem_pair_nil hlf (by decide))

theorem parameterBehind_eq_none (h : ¬ Named name message) :
    parameterBehind name true message = none := by
  rw [← isSome_parameterBehind_iff, Option.not_isSome_iff_eq_none] at h
  exact h

/-- What the search of the message does not find is in no token. -/
theorem getTokenString_eq_none (hname : name ≠ []) (hblank : blank ∉ name) (hlf : lf ∉ name)
    (hne : message ≠ pair name []) (h : getTokenStringFromMessage message name = none) :
    getTokenString (tokenize message blank) name = none := by
  rw [getTokenStringFromMessage_eq hname hblank, if_neg hne, Option.map_eq_none_iff] at h
  have hline : ¬ Named name (getFirstLine message) := by
    intro hnamed
    have hsome := isSome_parameterBehind_iff.mpr (named_getFirstLine hlf hnamed)
    rw [h] at hsome
    cases hsome
  by_cases h0 : message.head? = some 0
  · rw [tokenize, if_pos h0]
    rfl
  · rw [getTokenString_tokenize hblank h0, parameterBehind_eq_none hline]
    rfl

/-- What is in the first line is the same unless one of the two readers reads nothing. -/
theorem sameParameter_of_line (h : Named name (getFirstLine message))
    (hmessage : Named name message) :
    SameParameter name message ↔ (message = pair name [] ↔ message.head? = some 0) := by
  constructor
  · intro hsame
    exact ⟨hsame.more, fun h0 => hsame.text h0 hmessage⟩
  · intro hiff
    exact ⟨fun _ => h, hiff.mp, fun h0 _ => hiff.mpr h0⟩

theorem sameParameter_of_not_line (h : ¬ Named name (getFirstLine message)) :
    SameParameter name message ↔ ¬ Named name message := by
  constructor
  · intro hsame hmessage
    exact h (hsame.line hmessage)
  · intro hmessage
    refine ⟨fun hnamed => absurd hnamed hmessage, ?_, fun _ hnamed => absurd hnamed hmessage⟩
    intro hpair
    rw [hpair] at hmessage
    exact absurd (named_pair name []) hmessage

/-- **When a parameter is the same in the message and in its tokens.** -/
theorem fromMessage_iff (hname : name ≠ []) (hblank : blank ∉ name) (hlf : lf ∉ name) :
    getTokenStringFromMessage message name =
        getTokenString (Tokenizing.tokenize message blank).params name ↔
      SameParameter name message := by
  rw [getTokenStringFromMessage_eq hname hblank, params_eq name message hblank]
  by_cases hline : Named name (getFirstLine message)
  · rw [sameParameter_of_line hline (named_getFirstLine hlf hline),
      parameterValue_message hlf hline]
    obtain ⟨rest, hrest⟩ := Option.isSome_iff_exists.mp (isSome_parameterBehind_iff.mpr hline)
    rw [hrest, Option.map_some]
    by_cases hpair : message = pair name [] <;>
    by_cases h0 : message.head? = some 0 <;>
    simp [hpair, h0]
  · rw [sameParameter_of_not_line hline, parameterBehind_eq_none hline, Option.map_none, ite_self]
    by_cases hmessage : Named name message
    · have hne : message ≠ pair name [] := by
        intro hpair
        rw [hpair, getFirstLine_pair_nil hlf] at hline
        exact hline (named_pair name [])
      obtain ⟨rest, hrest⟩ := Option.isSome_iff_exists.mp (isSome_parameterBehind_iff.mpr hmessage)
      rw [if_neg hne, hrest]
      exact iff_of_false (by simp) (not_not_intro hmessage)
    · rw [parameterBehind_eq_none hmessage, Option.map_none, ite_self]
      exact iff_of_true rfl hmessage

/-- A tile with a payload. -/
theorem fromMessage_tile :
    getTokenStringFromMessage (ascii "tile wid=3 id=5\n id=6") (ascii "id") =
      getTokenString (Tokenizing.tokenize (ascii "tile wid=3 id=5\n id=6") blank).params
        (ascii "id") :=
  (fromMessage_iff (by decide) (by decide) (by decide)).mpr (by decide)

/-- The 5 of the second line is read from the message, and is in no token. -/
theorem not_fromMessage :
    ¬ ∀ message name : Bytes, name ≠ [] → blank ∉ name → equalSign ∉ name → lf ∉ name →
      getTokenStringFromMessage message name =
        getTokenString (Tokenizing.tokenize message blank).params name := by
  intro h
  have hsame := h (ascii "tile\n id=5") (ascii "id") (by decide) (by decide) (by decide) (by decide)
  revert hsame
  decide

end Oxool.Protocol
