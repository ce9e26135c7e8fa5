import Oxool.Kit.TileQueue
import Oxool.Lib.Runs
import Oxool.Lib.Trim

/-!
# The loops that take a line apart (`common/StringVector.hpp`, `common/Protocol.hpp`)

`tokenize`, `tokenize_foreach` and `tokenizeInts` go over the bytes of a message with the same loop.
It keeps a pointer to the start of the token it reads, which stays on a delimiter until the byte
behind it has been seen. A token is noted by its place, handed to a function, or read as an `int`.

All three come by the same tokens, the runs of the line between delimiters. `tokenizeInts` reads an
`int` from where a token starts and does not look where it stops: `ReadWithin` says when that does
not matter. Pointers are places in the string, behind which there is a NUL.
-/

set_option autoImplicit false

namespace Oxool.Tokenizing

open Oxool.Http (Bytes ascii isDigit lf)
open Oxool.Protocol
open Oxool.Kit (atoi)

/-! ## The loop -/

section Walk

variable {m : Type → Type} [Monad m] {σ : Type} (data : Bytes) (delimiter : UInt8)
  (visit : σ → Nat → Nat → m σ)

/-- What is done behind the loop, with the last token. -/
def walkLast (start stop : Nat) (s : σ) : m σ :=
  if start ≠ stop ∧ data[start]? ≠ some delimiter ∧ data[start]? ≠ some lf then visit s start stop
  else pure s

/-- The loop, in front of the bytes from `stop` on; `visit` is what it does with a token. -/
def walk : Bytes → Nat → Nat → σ → m σ
  | [], start, stop, s => walkLast data delimiter visit start stop s
  | b :: rest, start, stop, s =>
    if b = lf then walkLast data delimiter visit start stop s
    else if b = delimiter then
      (if start ≠ stop ∧ data[start]? ≠ some delimiter then visit s start stop else pure s) >>=
        walk rest stop (stop + 1)
    else if data[start]? = some delimiter then walk rest (start + 1) (stop + 1) s
    else walk rest start (stop + 1) s

end Walk

/-- A token, by its place. -/
structure StringToken where
  index : Nat
  length : Nat
deriving DecidableEq

structure StringVector where
  string : Bytes
  tokens : List StringToken
deriving DecidableEq

/-- `StringVector::tokenize`, into a vector. -/
def tokenizeInto (data : Bytes) (delimiter : UInt8) (tokens : List StringToken) :
    List StringToken :=
  if data = [] ∨ data.head? = some 0 then tokens
  else
    Id.run (walk data delimiter
      (fun tokens start stop => pure (tokens ++ [⟨start, stop - start⟩])) data 0 0 tokens)

/-- `StringVector::tokenize`. -/
def tokenize (data : Bytes) (delimiter : UInt8) : StringVector :=
  if data = [] ∨ data.head? = some 0 then ⟨[], []⟩ else ⟨data, tokenizeInto data delimiter []⟩

/-- What `tokenize_foreach` does with a token: it calls the function, which has a state, and returns
if that answers that it is done. -/
def callVisit {σ : Type} (func : Nat → Bytes → σ → Bool × σ) (data : Bytes) (state : Nat × σ)
    (start stop : Nat) : Except σ (Nat × σ) :=
  match func state.1 ((data.drop start).take (stop - start)) state.2 with
  | (true, s) => .error s
  | (false, s) => .ok (state.1 + 1, s)

/-- The state in the end, whether the loop has returned or not. -/
def stateOf {σ : Type} : Except σ (Nat × σ) → σ
  | .error s => s
  | .ok (_, s) => s

/-- `StringVector::tokenize_foreach`. -/
def tokenizeForeach {σ : Type} (func : Nat → Bytes → σ → Bool × σ) (data : Bytes)
    (delimiter : UInt8)
    (s : σ) : σ :=
  if data = [] ∨ data.head? = some 0 then s
  else stateOf (walk data delimiter (callVisit func data) data 0 0 (0, s))

/-- `tokenizeInts`. -/
def tokenizeInts (data : Bytes) (delimiter : UInt8) : List Int :=
  if data = [] then []
  else
    Id.run (walk data delimiter
      (fun tokens start _ => pure (tokens ++ [atoi (data.drop start)])) data 0 0 [])

/-- `operator[]`, of all tokens. -/
def StringVector.params (v : StringVector) : List Bytes :=
  v.tokens.map fun t => (v.string.drop t.index).take t.length

/-! ## The loop comes by the runs -/

/-- Where the loop has its `start`, when the token it reads starts at `first`: there, or still on
the delimiter before it. -/
inductive Lags (data : Bytes) (delimiter : UInt8) : Nat → Nat → Nat → Prop where
  | reading {first stop : Nat} (hle : first ≤ stop)
    (h : first < stop → ∃ b, data[first]? = some b ∧ b ≠ delimiter ∧ b ≠ lf) :
    Lags data delimiter first first stop
  | behind {start : Nat} (h : data[start]? = some delimiter) :
    Lags data delimiter start (start + 1) (start + 1)

section Walk

variable {m : Type → Type} [Monad m] {σ : Type} {data : Bytes} {delimiter : UInt8}
  {visit : σ → Nat → Nat → m σ} {start first stop : Nat}

/-- `start` is moved when the first byte of a token is seen, and only then. -/
theorem Lags.more (h : Lags data delimiter start first stop) {b : UInt8} (hb : data[stop]? = some b)
    (hdelimiter : b ≠ delimiter) (hlf : b ≠ lf) :
    Lags data delimiter (if data[start]? = some delimiter then start + 1 else start) first (stop + 1) := by
  have hfirst : first = stop → data[first]? = some b := fun heq => heq ▸ hb
  cases h with
  | reading hle h =>
    have hget : ∃ c, data[start]? = some c ∧ c ≠ delimiter ∧ c ≠ lf := by
      rcases Nat.eq_or_lt_of_le hle with heq | hlt
      · exact ⟨b, hfirst heq, hdelimiter, hlf⟩
      · exact h hlt
    obtain ⟨c, hc, hne, -⟩ := id hget
    rw [if_neg (by simpa [hc] using hne)]
    exact .reading (Nat.le_succ_of_le hle) fun _ => hget
  | behind h =>
    rw [if_pos h]
    exact .reading (Nat.le_succ _) fun _ => ⟨b, hb, hdelimiter, hlf⟩

variable [LawfulMonad m]

theorem foldlM_close (f : σ → Run → m σ) (s : σ) :
    (close first stop).foldlM f s = if first = stop then pure s else f s ⟨first, stop⟩ := by
  rw [close]
  split
  · rfl
  · rw [List.foldlM_cons]
    simp

/-- At a delimiter the token is visited, unless it is empty. -/
theorem Lags.visit_eq (h : Lags data delimiter start first stop) (s : σ) :
    (if start ≠ stop ∧ data[start]? ≠ some delimiter then visit s start stop else pure s) =
      (close first stop).foldlM (fun s r => visit s r.start r.stop) s := by
  rw [foldlM_close]
  cases h with
  | reading hle h =>
    by_cases heq : start = stop
    · rw [if_neg fun hvisit => hvisit.1 heq, if_pos heq]
    · obtain ⟨b, hb, hne, -⟩ := h (Nat.lt_of_le_of_ne hle heq)
      rw [if_pos ⟨heq, by simpa [hb] using hne⟩, if_neg heq]
  | behind h => rw [if_neg fun hvisit => hvisit.2 h, if_pos rfl]

/-- The test for a line break behind the loop never fails where the others hold. -/
theorem Lags.walkLast_eq (h : Lags data delimiter start first stop) (s : σ) :
    walkLast data delimiter visit start stop s =
      (close first stop).foldlM (fun s r => visit s r.start r.stop) s := by
  rw [← h.visit_eq, walkLast]
  congr 1
  rw [← and_assoc, eq_iff_iff, and_iff_left_iff_imp]
  intro hvisit
  cases h with
  | reading hle h =>
    obtain ⟨b, hb, -, hne⟩ := h (Nat.lt_of_le_of_ne hle hvisit.1)
    simpa [hb] using hne
  | behind h => exact absurd h hvisit.2

/-- **The loop visits the runs of the line**, in their order. -/
theorem Lags.walk_eq (h : Lags data delimiter start first stop) {rest : Bytes}
    (hrest : data.drop stop = rest) (s : σ) :
    walk data delimiter visit rest start stop s =
      (runs (· == delimiter) first stop (rest.takeWhile (· != lf))).foldlM
        (fun s r => visit s r.start r.stop) s := by
  induction rest generalizing start first stop s with
  | nil => exact h.walkLast_eq s
  | cons b rest ih =>
    have hget : data[stop]? = some b := by rw [← List.head?_drop, hrest]; rfl
    have hdrop : data.drop (stop + 1) = rest := by rw [← List.drop_drop, hrest]; rfl
    rw [walk]
    by_cases hlf : b = lf
    · rw [if_pos hlf, List.takeWhile_cons_of_neg (by simpa using hlf)]
      exact h.walkLast_eq s
    · rw [if_neg hlf, List.takeWhile_cons_of_pos (by simpa using hlf), runs]
      by_cases hdelimiter : b = delimiter
      · have hsep : (b == delimiter) = true := beq_iff_eq.mpr hdelimiter
        rw [if_pos hdelimiter, if_pos hsep, List.foldlM_append, h.visit_eq]
        congr 1
        funext s
        exact ih (.behind (hdelimiter ▸ hget)) hdrop s
      · have hsep : ¬ (b == delimiter) = true := fun heq => hdelimiter (beq_iff_eq.mp heq)
        have hmore := h.more hget hdelimiter hlf
        rw [if_neg hdelimiter, if_neg hsep, ← ih hmore hdrop s]
        split <;> rfl

/-- The runs of the first line. -/
def lineRuns (data : Bytes) (delimiter : UInt8) : List Run :=
  runs (· == delimiter) 0 0 (data.takeWhile (· != lf))

theorem walk_eq_lineRuns (s : σ) :
    walk data delimiter visit data 0 0 s =
      (lineRuns data delimiter).foldlM (fun s r => visit s r.start r.stop) s := by
  have hlags : Lags data delimiter 0 0 0 := .reading (Nat.le_refl 0) fun h => absurd h (Nat.lt_irrefl 0)
  exact hlags.walk_eq rfl s

end Walk

/-! ## The tokens -/

section Tokens

variable {data : Bytes} {delimiter : UInt8}

def tokenOf (r : Run) : StringToken := ⟨r.start, r.stop - r.start⟩

theorem foldlM_append_map {β : Type} (f : Run → β) (l : List Run) (tokens : List β) :
    Id.run (l.foldlM (fun tokens r => pure (tokens ++ [f r])) tokens) = tokens ++ l.map f := by
  induction l generalizing tokens with
  | nil => exact (List.append_nil tokens).symm
  | cons r l ih =>
    rw [List.foldlM_cons, pure_bind, ih, List.map_cons, List.append_assoc]
    rfl

variable (h0 : data.head? ≠ some 0)

include h0

theorem tokenizeInto_eq (tokens : List StringToken) :
    tokenizeInto data delimiter tokens = tokens ++ (lineRuns data delimiter).map tokenOf := by
  rw [tokenizeInto]
  split
  · next hnone =>
    obtain rfl := hnone.resolve_right h0
    exact (List.append_nil tokens).symm
  · rw [walk_eq_lineRuns]
    exact foldlM_append_map tokenOf (lineRuns data delimiter) tokens

theorem tokenize_eq :
    tokenize data delimiter = ⟨data, (lineRuns data delimiter).map tokenOf⟩ := by
  rw [tokenize]
  split
  · next hnone =>
    obtain rfl := hnone.resolve_right h0
    rfl
  · rw [tokenizeInto_eq h0, List.nil_append]

theorem params_eq :
    (tokenize data delimiter).params = (lineRuns data delimiter).map (Run.text data) := by
  rw [tokenize_eq h0, StringVector.params, List.map_map]
  rfl

omit h0 in
theorem tokenizeInts_eq :
    tokenizeInts data delimiter = (lineRuns data delimiter).map fun r => atoi (data.drop r.start) := by
  rw [tokenizeInts]
  split
  · next hnone =>
    subst hnone
    rfl
  · rw [walk_eq_lineRuns]
    exact foldlM_append_map (fun r => atoi (data.drop r.start)) (lineRuns data delimiter) []

end Tokens

/-- A function is called on one text after the other, with consecutive indices, until it answers
that it is done. -/
def callUntil {σ : Type} (func : Nat → Bytes → σ → Bool × σ) : Nat → List Bytes → σ → σ
  | _, [], s => s
  | index, text :: texts, s =>
    match func index text s with
    | (true, s) => s
    | (false, s) => callUntil func (index + 1) texts s

section Foreach

variable {σ : Type} (func : Nat → Bytes → σ → Bool × σ) {data : Bytes} {delimiter : UInt8}

theorem stateOf_foldlM_callVisit (l : List Run) (index : Nat) (s : σ) :
    stateOf (l.foldlM (fun state r => callVisit func data state r.start r.stop) (index, s)) =
      callUntil func index (l.map (Run.text data)) s := by
  induction l generalizing index s with
  | nil => rfl
  | cons r l ih =>
    rw [List.foldlM_cons, List.map_cons, callUntil, callVisit, Run.text]
    split
    · next hdone => rw [hdone]; rfl
    · next hmore => rw [hmore]; exact ih _ _

theorem tokenizeForeach_eq (h0 : data.head? ≠ some 0) (s : σ) :
    tokenizeForeach func data delimiter s = callUntil func 0 (tokenize data delimiter).params s := by
  rw [params_eq h0, tokenizeForeach]
  split
  · next hnone =>
    obtain rfl := hnone.resolve_right h0
    rfl
  · rw [walk_eq_lineRuns]
    exact stateOf_foldlM_callVisit func (lineRuns data delimiter) 0 s

end Foreach

/-! ## The same tokens as text -/

theorem map_text_close {data : Bytes} {start stop : Nat} (hle : start ≤ stop)
    (hinside : stop ≤ data.length) :
    (close start stop).map (Run.text data) = flush (Run.text data ⟨start, stop⟩) := by
  have hlength : (Run.text data ⟨start, stop⟩).length = stop - start := by
    rw [Run.text, List.length_take, List.length_drop]
    dsimp only
    omega
  rw [close, flush]
  split
  · next heq => rw [if_pos (List.eq_nil_of_length_eq_zero (by omega))]; rfl
  · next hne => rw [if_neg (List.ne_nil_of_length_pos (by omega))]; rfl

theorem pieces_eq_runs {p : UInt8 → Bool} {data rest : Bytes} {start stop : Nat}
    (h : Reading p data start stop rest) :
    pieces p (Run.text data ⟨start, stop⟩) rest = (runs p start stop rest).map (Run.text data) := by
  induction rest generalizing start stop with
  | nil => rw [pieces, runs, map_text_close h.le h.inside]
  | cons b rest ih =>
    rw [pieces, runs]
    split
    · next hb =>
      have hnew : Run.text data ⟨stop + 1, stop + 1⟩ = [] := by
        rw [Run.text, Nat.sub_self, List.take_zero]
      rw [List.map_append, map_text_close h.le h.inside, ← ih (h.again hb), hnew]
    · next hb =>
      have hget : (data.drop start)[stop - start]? = some b := by
        rw [List.getElem?_drop, Nat.add_sub_cancel' h.le, h.get]
      have hmore : Run.text data ⟨start, stop + 1⟩ = Run.text data ⟨start, stop⟩ ++ [b] := by
        rw [Run.text, Nat.succ_sub h.le, List.take_add_one, hget]
        rfl
      rw [← ih (h.more hb), hmore]

/-- A run of the first line is the same piece of the whole string. -/
theorem text_line {data : Bytes} {r : Run} (hr : r.stop ≤ (data.takeWhile (· != lf)).length) :
    Run.text (data.takeWhile (· != lf)) r = Run.text data r := by
  rw [Run.text, Run.text]
  conv_rhs => rw [← List.takeWhile_append_dropWhile (p := (· != lf)) (l := data)]
  rcases Nat.lt_or_ge r.start r.stop with hlt | hge
  · rw [List.drop_append_of_le_length (by omega), List.take_append_of_le_length]
    rw [List.length_drop]
    omega
  · rw [Nat.sub_eq_zero_of_le hge, List.take_zero, List.take_zero]

theorem stop_le_of_mem_lineRuns {data : Bytes} {delimiter : UInt8} {r : Run}
    (hr : r ∈ lineRuns data delimiter) : r.stop ≤ (data.takeWhile (· != lf)).length :=
  (mem_runs_iff.mp hr).inside

/-- The places are those of the tokens that the rest of the protocol is about. -/
theorem params_eq_tokenize {data : Bytes} {delimiter : UInt8} (h0 : data.head? ≠ some 0) :
    (tokenize data delimiter).params = Oxool.tokenize data delimiter := by
  have htext : (lineRuns data delimiter).map (Run.text data) =
      (lineRuns data delimiter).map (Run.text (data.takeWhile (· != lf))) :=
    List.map_congr_left fun r hr => (text_line (stop_le_of_mem_lineRuns hr)).symm
  rw [params_eq h0, htext, lineRuns, ← pieces_eq_runs (Reading.first _), Oxool.tokenize, if_neg h0]
  rfl

/-! ## Reading an `int` -/

/-- The sign of a number and what follows it, behind white space. -/
def number (s : Bytes) : Bool × Bytes := splitSign (s.dropWhile isSpace)

def digitsOf (s : Bytes) : Bytes := (number s).2.takeWhile isDigit

/-- The `int` that is made of digits: they are a `long` first, as near as can be. -/
def intOf (negative : Bool) (digits : Bytes) : Int :=
  toInt32 (max longMin (min longMax (signed negative (digitsValue digits))))

theorem atoi_eq (s : Bytes) : atoi s = intOf (number s).1 (digitsOf s) := by
  have hmin : longMin ≤ 0 := by decide
  have hmax : 0 ≤ longMax := by decide
  have hrange : longMin ≤ longMax := by decide
  rw [Kit.atoi, strtol, ← number, ← digitsOf, intOf]
  split
  · next hnone =>
    have hzero : signed (number s).1 (digitsValue []) = 0 := by cases (number s).1 <;> rfl
    rw [hnone, hzero, min_eq_right hmax, max_eq_right hmin]
    rfl
  · split
    · next hlow => rw [min_eq_right (by omega), max_eq_left (by omega)]; rfl
    · split
      · next hhigh => rw [min_eq_left (by omega), max_eq_right hrange]; rfl
      · rw [min_eq_right (by omega), max_eq_right (by omega)]; rfl

section Append

variable {token behind : Bytes}

theorem dropWhile_append_of_eq_nil {α : Type} {p : α → Bool} {l l' : List α}
    (h : l.dropWhile p = []) :
    (l ++ l').dropWhile p = l'.dropWhile p := by
  rw [List.dropWhile_append, h]
  rfl

theorem dropWhile_append_of_ne_nil {α : Type} {p : α → Bool} {l l' : List α}
    (h : l.dropWhile p ≠ []) :
    (l ++ l').dropWhile p = l.dropWhile p ++ l' := by
  rw [List.dropWhile_append, if_neg]
  simpa using h

theorem splitSign_append {s : Bytes} (h : s ≠ []) (t : Bytes) :
    splitSign (s ++ t) = ((splitSign s).1, (splitSign s).2 ++ t) := by
  cases s with
  | nil => exact absurd rfl h
  | cons b s =>
    rw [List.cons_append]
    by_cases hminus : b = 45
    · subst hminus
      rfl
    · by_cases hplus : b = 43
      · subst hplus
        rfl
      · simp [splitSign, hminus, hplus]

/-- Behind white space the number is read that follows. -/
theorem atoi_append_of_blank (h : token.dropWhile isSpace = []) :
    atoi (token ++ behind) = atoi behind := by
  rw [atoi_eq, atoi_eq, digitsOf, digitsOf, number, number, dropWhile_append_of_eq_nil h]

theorem atoi_blank_eq_zero (h : token.dropWhile isSpace = []) : atoi token = 0 := by
  rw [atoi_eq, digitsOf, number, h]
  decide

theorem number_append (h : token.dropWhile isSpace ≠ []) :
    number (token ++ behind) = ((number token).1, (number token).2 ++ behind) := by
  rw [number, dropWhile_append_of_ne_nil h, splitSign_append h, ← number]

/-- What is behind the number is not read. -/
theorem atoi_append_of_ends (h : (number token).2.dropWhile isDigit ≠ []) :
    atoi (token ++ behind) = atoi token := by
  have hblank : token.dropWhile isSpace ≠ [] := by
    intro hnil
    rw [number, hnil] at h
    exact h rfl
  have hlength : ¬ ((number token).2.takeWhile isDigit).length = (number token).2.length := by
    intro heq
    have hall := (List.takeWhile_prefix (p := isDigit) (l := (number token).2)).eq_of_length heq
    rw [List.takeWhile_eq_self_iff] at hall
    exact h (List.dropWhile_eq_nil_iff.mpr hall)
  rw [atoi_eq, atoi_eq, digitsOf, digitsOf, number_append hblank, List.takeWhile_append,
    if_neg hlength]

/-- Digits behind a number are read as its last ones. -/
theorem atoi_append_of_goesOn (hblank : token.dropWhile isSpace ≠ [])
    (h : (number token).2.dropWhile isDigit = []) :
    atoi (token ++ behind) = intOf (number token).1 (digitsOf token ++ behind.takeWhile isDigit) := by
  have hall : (number token).2.takeWhile isDigit = (number token).2 :=
    List.takeWhile_eq_self_iff.mpr (List.dropWhile_eq_nil_iff.mp h)
  rw [atoi_eq, digitsOf, digitsOf, number_append hblank, List.takeWhile_append, hall, if_pos rfl]

end Append

/-- The number in a token ends there, by a byte that is no part of it; or the token is white space
and no other number than 0 is behind it; or it ends with the number, which the digits behind it
leave as it is. -/
inductive ReadWithin (token behind : Bytes) : Prop where
  | ends (h : (number token).2.dropWhile isDigit ≠ [])
  | blank (h : token.dropWhile isSpace = []) (hbehind : atoi behind = 0)
  | goesOn (hblank : token.dropWhile isSpace ≠ []) (h : (number token).2.dropWhile isDigit = [])
    (hbehind : intOf (number token).1 (digitsOf token ++ behind.takeWhile isDigit) =
      intOf (number token).1 (digitsOf token))

theorem atoi_append_iff {token behind : Bytes} :
    atoi (token ++ behind) = atoi token ↔ ReadWithin token behind := by
  constructor
  · intro heq
    by_cases hblank : token.dropWhile isSpace = []
    · rw [atoi_append_of_blank hblank, atoi_blank_eq_zero hblank] at heq
      exact .blank hblank heq
    · by_cases hends : (number token).2.dropWhile isDigit = []
      · rw [atoi_append_of_goesOn hblank hends, atoi_eq] at heq
        exact .goesOn hblank hends heq
      · exact .ends hends
  · intro h
    cases h with
    | ends h => exact atoi_append_of_ends h
    | blank h hbehind => rw [atoi_append_of_blank h, atoi_blank_eq_zero h, hbehind]
    | goesOn hblank h hbehind => rw [atoi_append_of_goesOn hblank h, hbehind, ← atoi_eq]

/-! ## The split of a line -/

/-- The obvious split of the first line: its runs in their order, as places, as calls and as
`int`s. -/
structure Splits (s : Bytes) (delimiter : UInt8) : Prop where
  string : (tokenize s delimiter).string = s
  tokens : ∀ t : StringToken, t ∈ (tokenize s delimiter).tokens ↔
    IsRun (· == delimiter) (s.takeWhile (· != lf)) ⟨t.index, t.index + t.length⟩
  ordered : (tokenize s delimiter).tokens.Pairwise fun t t' => t.index + t.length < t'.index
  inside : ∀ t ∈ (tokenize s delimiter).tokens, t.index + t.length ≤ s.length
  calls : ∀ (σ : Type) (func : Nat → Bytes → σ → Bool × σ) (state : σ),
    tokenizeForeach func s delimiter state = callUntil func 0 (tokenize s delimiter).params state
  ints : tokenizeInts s delimiter = (tokenize s delimiter).params.map atoi

section Splits

variable {s : Bytes} {delimiter : UInt8}

theorem mem_tokens_iff (h0 : s.head? ≠ some 0) (t : StringToken) :
    t ∈ (tokenize s delimiter).tokens ↔
      IsRun (· == delimiter) (s.takeWhile (· != lf)) ⟨t.index, t.index + t.length⟩ := by
  rw [tokenize_eq h0, List.mem_map]
  constructor
  · intro h
    obtain ⟨r, hr, rfl⟩ := h
    have hrun := mem_runs_iff.mp hr
    have hstop : r.start + (r.stop - r.start) = r.stop := Nat.add_sub_cancel' (Nat.le_of_lt hrun.nonempty)
    rw [tokenOf, hstop]
    exact hrun
  · intro h
    refine ⟨_, mem_runs_iff.mpr h, ?_⟩
    rw [tokenOf, Nat.add_sub_cancel_left]

theorem pairwise_tokens (h0 : s.head? ≠ some 0) :
    (tokenize s delimiter).tokens.Pairwise fun t t' => t.index + t.length < t'.index := by
  rw [tokenize_eq h0, List.pairwise_map]
  have hruns := (Reading.first (p := (· == delimiter)) (s.takeWhile (· != lf))).pairwise_runs
  refine hruns.imp_of_mem ?_
  intro r r' hr _ hlt
  have hnonempty := (mem_runs_iff.mp hr).nonempty
  dsimp only [tokenOf]
  omega

theorem token_inside (h0 : s.head? ≠ some 0) {t : StringToken}
    (ht : t ∈ (tokenize s delimiter).tokens) :
    t.index + t.length ≤ s.length :=
  Nat.le_trans ((mem_tokens_iff h0 t).mp ht).inside (List.takeWhile_prefix _).length_le

/-- Of every token of `s`, with what is behind it. -/
def Readable (s : Bytes) (delimiter : UInt8) : Prop :=
  ∀ r, IsRun (· == delimiter) (s.takeWhile (· != lf)) r → ReadWithin (Run.text s r) (s.drop r.stop)

theorem text_append_drop {r : Run} (h : r.start ≤ r.stop) :
    Run.text s r ++ s.drop r.stop = s.drop r.start := by
  have hdrop : s.drop r.stop = (s.drop r.start).drop (r.stop - r.start) := by
    rw [List.drop_drop, Nat.add_sub_cancel' h]
  rw [Run.text, hdrop, List.take_append_drop]

theorem ints_iff (h0 : s.head? ≠ some 0) :
    tokenizeInts s delimiter = (tokenize s delimiter).params.map atoi ↔ Readable s delimiter := by
  rw [tokenizeInts_eq, params_eq h0, List.map_map, List.map_inj_left]
  have hone : ∀ r, IsRun (· == delimiter) (s.takeWhile (· != lf)) r →
      (atoi (s.drop r.start) = atoi (Run.text s r) ↔ ReadWithin (Run.text s r) (s.drop r.stop)) := by
    intro r hr
    rw [← text_append_drop (Nat.le_of_lt hr.nonempty)]
    exact atoi_append_iff
  constructor
  · intro h r hr
    exact (hone r hr).mp (h r (mem_runs_iff.mpr hr))
  · intro h r hr
    have hrun := mem_runs_iff.mp hr
    exact (hone r hrun).mpr (h r hrun)

/-- Where no number goes on, and none starts. -/
def NotInNumber (b : UInt8) : Prop := isSpace b = false ∧ isDigit b = false ∧ b ≠ 45 ∧ b ≠ 43

theorem atoi_of_notInNumber {behind : Bytes} (h : ∀ b, behind.head? = some b → NotInNumber b) :
    atoi behind = 0 ∧ behind.takeWhile isDigit = [] := by
  cases behind with
  | nil => exact ⟨by decide, rfl⟩
  | cons b behind =>
    obtain ⟨hspace, hdigit, hminus, hplus⟩ := h b rfl
    have hdigit' : ¬ isDigit b = true := by simp [hdigit]
    have hnumber : number (b :: behind) = (false, b :: behind) := by
      rw [number, List.dropWhile_cons_of_neg (by simp [hspace])]
      simp [splitSign, hminus, hplus]
    refine ⟨?_, List.takeWhile_cons_of_neg hdigit'⟩
    rw [atoi_eq, digitsOf, hnumber, List.takeWhile_cons_of_neg hdigit']
    rfl

/-- A single line between delimiters that are no part of a number, such as `size=` of a window. -/
theorem readable_of_line (hdelimiter : NotInNumber delimiter) (hline : lf ∉ s) :
    Readable s delimiter := by
  intro r hr
  rw [takeWhile_bne_of_notMem hline] at hr
  have hbehind : ∀ b, (s.drop r.stop).head? = some b → NotInNumber b := by
    intro b hb
    rw [List.head?_drop] at hb
    rcases hr.behind with hend | ⟨c, hc, hsep⟩
    · rw [hend, List.getElem?_eq_none (Nat.le_refl _)] at hb
      cases hb
    · obtain rfl := Option.some.inj (hc.symm.trans hb)
      rw [beq_iff_eq.mp hsep]
      exact hdelimiter
  obtain ⟨hzero, hdigits⟩ := atoi_of_notInNumber hbehind
  by_cases hblank : (Run.text s r).dropWhile isSpace = []
  · exact .blank hblank hzero
  · by_cases hends : (number (Run.text s r)).2.dropWhile isDigit = []
    · exact .goesOn hblank hends (by rw [hdigits, List.append_nil])
    · exact .ends hends

/-- **The line is split where its numbers are read within the tokens**: places and calls are right
for every line, but `tokenizeInts` reads on behind a token of white space, past a line break as
well, and where the delimiter is a digit. -/
theorem splits_iff (h0 : s.head? ≠ some 0) : Splits s delimiter ↔ Readable s delimiter := by
  constructor
  · intro h
    exact (ints_iff h0).mp h.ints
  · intro h
    exact {
      string := by rw [tokenize_eq h0]
      tokens := mem_tokens_iff h0
      ordered := pairwise_tokens h0
      inside := fun _ ht => token_inside h0 ht
      calls := fun _ func state => tokenizeForeach_eq func h0 state
      ints := (ints_iff h0).mpr h }

end Splits

/-- A width and a height, and a second line. -/
theorem splits_size : Splits (ascii "640,-48\n5") 44 := by
  refine (splits_iff (by decide)).mpr ?_
  intro r hr
  have hmem : r ∈ [Run.mk 0 3, Run.mk 4 7] := mem_runs_iff.mpr hr
  rcases List.mem_cons.mp hmem with rfl | hmem
  · exact .goesOn (by decide) (by decide) (by decide)
  · obtain rfl := List.mem_singleton.mp hmem
    exact .goesOn (by decide) (by decide) (by decide)

/-- The only token is a blank, and the 5 of the second line is read for it. -/
theorem not_splits : ¬ Splits (ascii " \n5") 44 := by
  intro h
  have hints := h.ints
  revert hints
  decide

end Oxool.Tokenizing
