import Oxool.Common.StringVector
import Oxool.Net.Http.Fields

/-!
# Fields of a message (`common/Protocol.hpp`)

A token of a message is a word or a pair `name=value`. The functions here look a pair up by its name
and read numbers; what is written with `std::to_string` is read back by `strtol` (`strtol_decimal`),
also when something that is not a digit follows.
-/

set_option autoImplicit false

namespace Oxool.Protocol

open Oxool.Http (Bytes ascii isDigit)

def equalSign : UInt8 := 61

/-! ## Numbers -/

/-- `isspace` in the C locale. -/
def isSpace (b : UInt8) : Bool := b == blank || (9 ≤ b && b ≤ 13)

/-- An optional sign, and what follows it. -/
def splitSign : Bytes → Bool × Bytes
  | 45 :: s => (true, s)
  | 43 :: s => (false, s)
  | s => (false, s)

def digitsValue (digits : Bytes) : Nat := readDigits 10 (fun b : UInt8 => b.toNat - 48) digits

def signed (negative : Bool) (n : Nat) : Int := if negative then -(n : Int) else n

def longMin : Int := -2 ^ 63
def longMax : Int := 2 ^ 63 - 1

/-- `strtol` to base 10: the value and whether it was out of range, or `none` where no digit is
found. -/
def strtol (s : Bytes) : Option (Int × Bool) :=
  let number := splitSign (s.dropWhile isSpace)
  let digits := number.2.takeWhile isDigit
  let value := signed number.1 (digitsValue digits)
  if digits = [] then none
  else if value < longMin then some (longMin, true)
  else if longMax < value then some (longMax, true)
  else some (value, false)

/-- A `long` stored in an `int`. -/
def toInt32 (n : Int) : Int := n.bmod (2 ^ 32)

/-- The range of an `int`. -/
def IsInt32 (n : Int) : Prop := -2 ^ 31 ≤ n ∧ n < 2 ^ 31

instance (n : Int) : Decidable (IsInt32 n) := inferInstanceAs (Decidable (_ ∧ _))

/-- `std::to_string`. -/
def decimal : Int → Bytes
  | .ofNat n => ascii (toString n)
  | .negSucc n => 45 :: ascii (toString (n + 1))

/-! ## Pairs -/

/-- `name=value`. -/
def pair (name value : Bytes) : Bytes := name ++ equalSign :: value

/-- `getTokenString`, of one token. -/
def tokenString (name token : Bytes) : Option Bytes :=
  if (name ++ [equalSign]).isPrefixOf token then some (token.drop (name.length + 1)) else none

def getTokenString (tokens : List Bytes) (name : Bytes) : Option Bytes :=
  tokens.findSome? (tokenString name)

/-- `getTokenInteger`, of one token. -/
def tokenInteger (name token : Bytes) : Option Int :=
  ((tokenString name token).bind strtol).map fun r => toInt32 r.1

def getTokenInteger (tokens : List Bytes) (name : Bytes) : Option Int :=
  tokens.findSome? (tokenInteger name)

/-- The search of `getTokenStringFromMessage`. After an occurrence of the name that will not do, it
goes on behind that one, `skip` bytes further on. -/
def searchToken (name : Bytes) : Nat → Bool → Bytes → Option Bytes
  | _, _, [] => none
  | skip + 1, _, b :: rest => searchToken name skip (b == blank) rest
  | 0, spaceBefore, b :: rest =>
    if name.isPrefixOf (b :: rest) then
      match (b :: rest).drop name.length with
      | [] => none
      | c :: value =>
        if spaceBefore && c == equalSign then
          some (value.takeWhile fun d => d != blank && d != Http.lf)
        else searchToken name (name.length - 1) (b == blank) rest
    else searchToken name 0 (b == blank) rest

def getTokenStringFromMessage (message name : Bytes) : Option Bytes :=
  if message.length > name.length + 1 then searchToken name 0 true message else none

def getTokenIntegerFromMessage (message name : Bytes) : Option Int :=
  getTokenInteger (tokenize message blank) name

def getFirstToken (message : Bytes) : Bytes := message.takeWhile (· != blank)

def matchPrefix (pre message : Bytes) : Bool := pre.isPrefixOf message

/-! ## What is written is read -/

theorem digitsValue_toString (n : Nat) : digitsValue (ascii (toString n)) = n := by
  rw [digitsValue, Http.ascii_toString]
  exact readDigits_toDigits _ (by decide) Http.decimal_value n

theorem toString_ne_nil (n : Nat) : ascii (toString n) ≠ [] := by
  rw [Http.ascii_toString, ne_eq, List.map_eq_nil_iff]
  exact Nat.toDigits_ne_nil

/-- The digits at the front of a string that goes on with something else. -/
theorem takeWhile_toString (n : Nat) {rest : Bytes} (hrest : ∀ b, rest.head? = some b → isDigit b = false) :
    (ascii (toString n) ++ rest).takeWhile isDigit = ascii (toString n) := by
  rw [List.takeWhile_append_of_pos fun b hb => Http.isDigit_of_mem_toString hb]
  cases rest with
  | nil => simp
  | cons b rest => rw [List.takeWhile_cons_of_neg (by simp [hrest b rfl]), List.append_nil]

theorem digit_plain : ∀ b : UInt8, isDigit b = true →
    isSpace b = false ∧ b ≠ 45 ∧ b ≠ 43 ∧ b ≠ 44 ∧ b ≠ blank ∧ b ≠ Http.lf ∧ b ≠ 0 ∧ b ≠ equalSign :=
  @(Http.forall_byte (by decide +kernel))

/-- A number written without a sign is read as that. -/
theorem splitSign_toString (n : Nat) (rest : Bytes) :
    splitSign ((ascii (toString n) ++ rest).dropWhile isSpace) = (false, ascii (toString n) ++ rest) := by
  cases h : ascii (toString n) with
  | nil => exact absurd h (toString_ne_nil n)
  | cons b l =>
    have hmem : b ∈ ascii (toString n) := by
      rw [h]
      exact List.mem_cons_self
    have hb := digit_plain b (Http.isDigit_of_mem_toString hmem)
    rw [List.cons_append, List.dropWhile_cons_of_neg (by simp [hb.1])]
    unfold splitSign
    split
    · rename_i heq
      exact absurd (List.cons.inj heq).1 hb.2.1
    · rename_i heq
      exact absurd (List.cons.inj heq).1 hb.2.2.1
    · rfl

theorem splitSign_decimal (n : Int) (rest : Bytes) :
    splitSign ((decimal n ++ rest).dropWhile isSpace) =
      (decide (n < 0), ascii (toString n.natAbs) ++ rest) := by
  cases n with
  | ofNat n =>
    have hneg : ¬ (Int.ofNat n < 0) := Int.not_lt.mpr (Int.natCast_nonneg n)
    rw [decimal, splitSign_toString, decide_eq_false hneg]
    rfl
  | negSucc n =>
    rw [decide_eq_true (Int.negSucc_lt_zero n)]
    rfl

/-- **What `std::to_string` writes, `strtol` reads.** -/
theorem strtol_decimal {n : Int} (hmin : longMin ≤ n) (hmax : n ≤ longMax) {rest : Bytes}
    (hrest : ∀ b, rest.head? = some b → isDigit b = false) :
    strtol (decimal n ++ rest) = some (n, false) := by
  have hvalue : signed (decide (n < 0)) n.natAbs = n := by
    rw [signed]
    split <;> rename_i h <;> simp only [decide_eq_true_eq] at h <;> omega
  rw [strtol, splitSign_decimal]
  dsimp only
  rw [takeWhile_toString _ hrest, digitsValue_toString, hvalue, if_neg (toString_ne_nil _),
    if_neg (by omega), if_neg (by omega)]

theorem strtol_int32 {n : Int} (h : IsInt32 n) {rest : Bytes}
    (hrest : ∀ b, rest.head? = some b → isDigit b = false) :
    strtol (decimal n ++ rest) = some (n, false) := by
  obtain ⟨hmin, hmax⟩ := h
  exact strtol_decimal (by rw [longMin]; omega) (by rw [longMax]; omega) hrest

theorem toInt32_eq {n : Int} (h : IsInt32 n) : toInt32 n = n := by
  obtain ⟨h1, h2⟩ := h
  rw [toInt32]
  exact Int.bmod_eq_of_le (by omega) (by omega)

theorem isInt32_toInt32 (n : Int) : IsInt32 (toInt32 n) := by
  rw [IsInt32, toInt32, Int.bmod_def]
  split <;> omega

theorem tokenString_pair (name value : Bytes) : tokenString name (pair name value) = some value := by
  have hpre : name ++ [equalSign] <+: pair name value := ⟨value, by simp [pair]⟩
  rw [tokenString, if_pos (List.isPrefixOf_iff_prefix.mpr hpre)]
  simp [pair]

/-- A pair of another name is passed over. -/
theorem tokenString_pair_ne {name other : Bytes} (hname : equalSign ∉ name)
    (hother : equalSign ∉ other) (hne : name ≠ other) (value : Bytes) :
    tokenString name (pair other value) = none := by
  rw [tokenString, if_neg]
  rw [List.isPrefixOf_iff_prefix]
  rintro ⟨rest, hrest⟩
  rw [pair, List.append_assoc, List.singleton_append] at hrest
  -- up to the first `=` the two are the same
  have htake := congrArg (List.takeWhile (· != equalSign)) hrest
  have hall : ∀ {l : Bytes}, equalSign ∉ l → ∀ rest,
      (l ++ equalSign :: rest).takeWhile (· != equalSign) = l := by
    intro l hl rest
    rw [List.takeWhile_append_of_pos, List.takeWhile_cons_of_neg (by simp), List.append_nil]
    intro b hb
    rw [bne_iff_ne]
    exact fun h => hl (h ▸ hb)
  rw [hall hname, hall hother] at htake
  exact hne htake

/-- **A line of pairs is looked up by the name.** -/
theorem getTokenString_pairs {name : Bytes} (hname : equalSign ∉ name) {pairs : List (Bytes × Bytes)}
    (hpairs : ∀ p ∈ pairs, equalSign ∉ p.1) :
    getTokenString (pairs.map fun p => pair p.1 p.2) name = pairs.lookup name := by
  induction pairs with
  | nil => rfl
  | cons p pairs ih =>
    have hrest := ih fun q hq => hpairs q (List.mem_cons_of_mem _ hq)
    rw [getTokenString] at hrest ⊢
    rw [List.map_cons, List.findSome?_cons, List.lookup_cons, hrest]
    by_cases hp : name = p.1
    · rw [← hp, tokenString_pair]
      simp
    · rw [tokenString_pair_ne hname (hpairs p (by simp)) hp, beq_false_of_ne hp]

theorem tokenInteger_pair (name : Bytes) {n : Int} (h : IsInt32 n) :
    tokenInteger name (pair name (decimal n)) = some n := by
  have hread := @strtol_int32 n h [] (by simp)
  rw [List.append_nil] at hread
  rw [tokenInteger, tokenString_pair, Option.bind_some, hread, Option.map_some, toInt32_eq h]

theorem tokenInteger_pair_ne {name other : Bytes} (hname : equalSign ∉ name)
    (hother : equalSign ∉ other) (hne : name ≠ other) (value : Bytes) :
    tokenInteger name (pair other value) = none := by
  rw [tokenInteger, tokenString_pair_ne hname hother hne]
  rfl

/-- The same for a field with a number in it. -/
theorem getTokenInteger_pairs {name : Bytes} (hname : equalSign ∉ name)
    {pairs : List (Bytes × Bytes)} (hpairs : ∀ p ∈ pairs, equalSign ∉ p.1) {n : Int} (hn : IsInt32 n)
    (h : pairs.lookup name = some (decimal n)) :
    getTokenInteger (pairs.map fun p => pair p.1 p.2) name = some n := by
  induction pairs with
  | nil => simp at h
  | cons p pairs ih =>
    rw [List.lookup_cons] at h
    rw [getTokenInteger, List.map_cons, List.findSome?_cons]
    by_cases hp : name = p.1
    · rw [hp, beq_self_eq_true, Option.some.injEq] at h
      rw [hp, h, tokenInteger_pair p.1 hn]
    · rw [beq_false_of_ne hp] at h
      rw [tokenInteger_pair_ne hname (hpairs p (by simp)) hp]
      exact ih (fun q hq => hpairs q (List.mem_cons_of_mem _ hq)) h

/-- The bytes of a number. -/
theorem mem_decimal {n : Int} {b : UInt8} (h : b ∈ decimal n) : b = 45 ∨ isDigit b = true := by
  cases n with
  | ofNat n => exact .inr (Http.isDigit_of_mem_toString h)
  | negSucc n =>
    rcases List.mem_cons.mp h with h | h
    · exact .inl h
    · exact .inr (Http.isDigit_of_mem_toString h)

theorem decimal_ne_nil (n : Int) : decimal n ≠ [] := by
  cases n with
  | ofNat n => exact toString_ne_nil n
  | negSucc n => exact List.cons_ne_nil _ _

/-- A pair is a token if its parts have no blank in them. -/
theorem isToken_pair {name value : Bytes} (hname : Plain blank name) (hvalue : Plain blank value) :
    IsToken blank (pair name value) := by
  refine ⟨by simp [pair], ?_⟩
  intro b hb
  rw [pair, List.mem_append, List.mem_cons] at hb
  rcases hb with hb | rfl | hb
  · exact hname b hb
  · decide
  · exact hvalue b hb

theorem decimal_plain {n : Int} : Plain blank (decimal n) := by
  intro b hb
  rcases mem_decimal hb with rfl | hb
  · decide
  · have := digit_plain b hb
    exact ⟨this.2.2.2.2.1, this.2.2.2.2.2.1⟩

/-- The value of a pair in a token is made of bytes of the token. -/
theorem mem_of_tokenString {name token value : Bytes} (h : tokenString name token = some value)
    {b : UInt8} (hb : b ∈ value) : b ∈ token := by
  rw [tokenString] at h
  split at h
  · obtain rfl := Option.some.inj h
    exact List.mem_of_mem_drop hb
  · simp at h

/-- A value read from the tokens of a line can be written into another. -/
theorem getTokenString_plain {tokens : List Bytes} (htokens : ∀ t ∈ tokens, IsToken blank t)
    {name value : Bytes} (h : getTokenString tokens name = some value) : Plain blank value := by
  obtain ⟨t, ht, hvalue⟩ := List.exists_of_findSome?_eq_some h
  intro b hb
  exact (htokens t ht).2 b (mem_of_tokenString hvalue hb)

end Oxool.Protocol
