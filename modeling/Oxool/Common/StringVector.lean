import Mathlib.Data.List.TakeWhile
import Oxool.Net.Http.Response

/-!
# Tokens (`common/StringVector.hpp`)

A message of the protocol is a line of tokens between single bytes, most often blanks. `tokenize`
takes it apart; `tokenize_fields` is the way back, for tokens that could have come from a line.
-/

set_option autoImplicit false

namespace Oxool

open Oxool.Http (Bytes ascii)

def blank : UInt8 := 32

/-- A token as it is read, put out unless it is empty. -/
def flush (token : Bytes) : List Bytes := if token = [] then [] else [token]

/-- The pieces of a string between the bytes that `p` holds of, without empty ones. -/
def pieces (p : UInt8 → Bool) : Bytes → Bytes → List Bytes
  | token, [] => flush token
  | token, b :: bs => if p b then flush token ++ pieces p [] bs else pieces p (token ++ [b]) bs

/-- `StringVector::tokenize`: up to a line break, and nothing of a string that starts with NUL. -/
def tokenize (s : Bytes) (delimiter : UInt8) : List Bytes :=
  if s.head? = some 0 then [] else pieces (· == delimiter) [] (s.takeWhile (· != Http.lf))

theorem pieces_append {p : UInt8 → Bool} {c : UInt8} (hc : p c = true) (token l m : Bytes) :
    pieces p token (l ++ c :: m) = pieces p token l ++ pieces p [] m := by
  induction l generalizing token with
  | nil => simp only [List.nil_append, pieces, hc, if_true]
  | cons b l ih =>
    simp only [List.cons_append, pieces]
    split
    · rw [ih, List.append_assoc]
    · rw [ih]

theorem head_pieces (p : UInt8 → Bool) {t : Bytes} (ht : t ≠ []) (l : Bytes) :
    ∃ more, (pieces p t l).head? = some (t ++ more) := by
  induction l generalizing t with
  | nil => exact ⟨[], by rw [pieces, flush, if_neg ht, List.append_nil]; rfl⟩
  | cons b l ih =>
    rw [pieces]
    split
    · exact ⟨[], by rw [flush, if_neg ht, List.append_nil]; rfl⟩
    · obtain ⟨more, hmore⟩ := ih (t := t ++ [b]) (by simp)
      exact ⟨b :: more, by rw [hmore, List.append_assoc]; rfl⟩

/-- A piece without a separator in it. -/
theorem pieces_of_forall {p : UInt8 → Bool} {l : Bytes} (hl : ∀ b ∈ l, p b = false) (token : Bytes) :
    pieces p token l = flush (token ++ l) := by
  induction l generalizing token with
  | nil => rw [pieces, List.append_nil]
  | cons b l ih =>
    have hb : p b = false := hl b (by simp)
    rw [pieces, if_neg (by simp [hb]), ih fun c hc => hl c (by simp [hc]), List.append_assoc]
    rfl

/-- The pieces are made of what is between the separators. -/
theorem mem_pieces {p : UInt8 → Bool} {token l t : Bytes} (h : t ∈ pieces p token l)
    (htoken : ∀ b ∈ token, p b = false) :
    t ≠ [] ∧ ∀ b ∈ t, p b = false ∧ (b ∈ token ∨ b ∈ l) := by
  induction l generalizing token with
  | nil =>
    rw [pieces, flush] at h
    split at h
    · simp at h
    · rename_i hne
      obtain rfl := List.mem_singleton.mp h
      exact ⟨hne, fun b hb => ⟨htoken b hb, .inl hb⟩⟩
  | cons c l ih =>
    rw [pieces] at h
    split at h
    · rcases List.mem_append.mp h with h | h
      · rw [flush] at h
        split at h
        · simp at h
        · rename_i hne
          obtain rfl := List.mem_singleton.mp h
          exact ⟨hne, fun b hb => ⟨htoken b hb, .inl hb⟩⟩
      · obtain ⟨hne, hall⟩ := ih h (by simp)
        refine ⟨hne, fun b hb => ⟨(hall b hb).1, .inr ?_⟩⟩
        exact List.mem_cons_of_mem _ ((hall b hb).2.resolve_left (by simp))
    · rename_i hc
      have hsnoc : ∀ b ∈ token ++ [c], p b = false := by
        intro b hb
        rcases List.mem_append.mp hb with hb | hb
        · exact htoken b hb
        · rw [List.mem_singleton.mp hb]
          simpa using hc
      obtain ⟨hne, hall⟩ := ih h hsnoc
      refine ⟨hne, fun b hb => ⟨(hall b hb).1, ?_⟩⟩
      rcases (hall b hb).2 with hb | hb
      · rcases List.mem_append.mp hb with hb | hb
        · exact .inl hb
        · rw [List.mem_singleton.mp hb]
          exact .inr (by simp)
      · exact .inr (List.mem_cons_of_mem _ hb)

/-- Text that does not end a token or a line. -/
def Plain (delimiter : UInt8) (l : Bytes) : Prop := ∀ b ∈ l, b ≠ delimiter ∧ b ≠ Http.lf

instance (delimiter : UInt8) (l : Bytes) : Decidable (Plain delimiter l) :=
  List.decidableBAll (fun b => b ≠ delimiter ∧ b ≠ Http.lf) l

theorem Plain.append {delimiter : UInt8} {l l' : Bytes} (h : Plain delimiter l)
    (h' : Plain delimiter l') : Plain delimiter (l ++ l') := by
  intro b hb
  rcases List.mem_append.mp hb with hb | hb
  · exact h b hb
  · exact h' b hb

/-- What can stand as a token in a line. -/
def IsToken (delimiter : UInt8) (t : Bytes) : Prop := t ≠ [] ∧ Plain delimiter t

instance (delimiter : UInt8) (t : Bytes) : Decidable (IsToken delimiter t) :=
  inferInstanceAs (Decidable (_ ∧ _))

theorem isToken_of_mem_tokenize {s t : Bytes} {delimiter : UInt8} (h : t ∈ tokenize s delimiter) :
    IsToken delimiter t := by
  rw [tokenize] at h
  split at h
  · simp at h
  · obtain ⟨hne, hall⟩ := mem_pieces h (by simp)
    refine ⟨hne, fun b hb => ⟨by simpa using (hall b hb).1, ?_⟩⟩
    have hb' := (hall b hb).2.resolve_left (by simp)
    simpa using List.mem_takeWhile_imp hb'

/-- Tokens, each with the delimiter before it. -/
def fields (delimiter : UInt8) (tokens : List Bytes) : Bytes := tokens.flatMap (delimiter :: ·)

theorem pieces_fields {p : UInt8 → Bool} {delimiter : UInt8} (hd : p delimiter = true)
    (token l : Bytes) (tokens : List Bytes) :
    pieces p token (l ++ fields delimiter tokens) =
      pieces p token l ++ tokens.flatMap (pieces p []) := by
  induction tokens generalizing token l with
  | nil => simp [fields]
  | cons t tokens ih =>
    have hsplit : l ++ fields delimiter (t :: tokens) =
        l ++ delimiter :: (t ++ fields delimiter tokens) := by simp [fields]
    rw [hsplit, pieces_append hd, ih, List.flatMap_cons]

theorem Plain.pieces_eq {delimiter : UInt8} {t : Bytes} (h : Plain delimiter t) :
    pieces (· == delimiter) [] t = flush t := by
  rw [pieces_of_forall fun b hb => by simpa using (h b hb).1, List.nil_append]

theorem IsToken.pieces_eq {delimiter : UInt8} {t : Bytes} (h : IsToken delimiter t) :
    pieces (· == delimiter) [] t = [t] := by
  rw [Plain.pieces_eq h.2, flush, if_neg h.1]

theorem flatMap_flush (tokens : List Bytes) : tokens.flatMap flush = tokens.filter (· ≠ []) := by
  induction tokens with
  | nil => rfl
  | cons t tokens ih =>
    rw [List.flatMap_cons, List.filter_cons, ih, flush]
    by_cases ht : t = [] <;> simp [ht]

/-- The tokens of a line in which some are empty, the first one perhaps among them. -/
theorem tokenize_plain_fields {delimiter : UInt8} {t : Bytes} {tokens : List Bytes}
    (hd : delimiter ≠ Http.lf ∧ delimiter ≠ 0) (h0 : t.head? ≠ some 0) (ht : Plain delimiter t)
    (hall : ∀ u ∈ tokens, Plain delimiter u) :
    tokenize (t ++ fields delimiter tokens) delimiter = flush t ++ tokens.filter (· ≠ []) := by
  have hhead : (t ++ fields delimiter tokens).head? ≠ some 0 := by
    cases t with
    | nil =>
      cases tokens with
      | nil => simp [fields]
      | cons u tokens => simpa [fields] using hd.2
    | cons b t => simpa using h0
  have hlines : (t ++ fields delimiter tokens).takeWhile (· != Http.lf) =
      t ++ fields delimiter tokens := by
    rw [List.takeWhile_eq_self_iff]
    intro b hb
    rw [bne_iff_ne]
    rcases List.mem_append.mp hb with hb | hb
    · exact (ht b hb).2
    · obtain ⟨u, hu, hb⟩ := List.mem_flatMap.mp hb
      rcases List.mem_cons.mp hb with rfl | hb
      · exact hd.1
      · exact (hall u hu b hb).2
  have htokens : tokens.flatMap (pieces (· == delimiter) []) = tokens.filter (· ≠ []) := by
    rw [← flatMap_flush]
    exact List.flatMap_congr fun u hu => (hall u hu).pieces_eq
  rw [tokenize, if_neg hhead, hlines, pieces_fields (by simp), ht.pieces_eq, htokens]

theorem tokenize_fields_filter {delimiter : UInt8} {t : Bytes} {tokens : List Bytes}
    (hd : delimiter ≠ Http.lf ∧ delimiter ≠ 0) (h0 : t.head? ≠ some 0) (ht : IsToken delimiter t)
    (hall : ∀ u ∈ tokens, Plain delimiter u) :
    tokenize (t ++ fields delimiter tokens) delimiter = t :: tokens.filter (· ≠ []) := by
  rw [tokenize_plain_fields hd h0 ht.2 hall, flush, if_neg ht.1]
  rfl

/-- What follows a line break is not read. -/
theorem tokenize_append_line (l : Bytes) {rest : Bytes} (h : rest = [] ∨ rest.head? = some Http.lf)
    (delimiter : UInt8) : tokenize (l ++ rest) delimiter = tokenize l delimiter := by
  cases rest with
  | nil => rw [List.append_nil]
  | cons b rest =>
    obtain rfl : b = Http.lf := by simpa using h
    have hhead : (l ++ Http.lf :: rest).head? = some 0 ↔ l.head? = some 0 := by
      cases l with
      | nil => simp [Http.lf]
      | cons c l => simp
    have hline : (l ++ Http.lf :: rest).takeWhile (· != Http.lf) = l.takeWhile (· != Http.lf) := by
      rw [List.takeWhile_append]
      split
      · rename_i hlength
        have hself := List.IsPrefix.eq_of_length (List.takeWhile_prefix _) hlength
        simp [hself]
      · rfl
    rw [tokenize, tokenize, hline]
    simp only [hhead]

/-- **The tokens of a line of tokens**, unless the first one starts with NUL. -/
theorem tokenize_fields {delimiter : UInt8} {t : Bytes} {tokens : List Bytes}
    (hd : delimiter ≠ Http.lf ∧ delimiter ≠ 0) (h0 : t.head? ≠ some 0) (ht : IsToken delimiter t)
    (hall : ∀ u ∈ tokens, IsToken delimiter u) :
    tokenize (t ++ fields delimiter tokens) delimiter = t :: tokens := by
  rw [tokenize_fields_filter hd h0 ht fun u hu => (hall u hu).2, List.filter_eq_self.mpr]
  intro u hu
  simpa using (hall u hu).1

end Oxool
