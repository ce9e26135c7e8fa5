import Oxool.Lib.Trim
import Oxool.Net.Http.Response
import Oxool.Sheet.Geometry

/-!
# Custom authorization headers (`common/Authorization.cpp`)

The `access_header` that a host sends along has a header to a line. `authorizeRequest` takes the
lines apart with `StringVector::tokenizeAnyOf`, and each of them at its first colon. A line that
begins with the colon has no name; there `separator - 1` wraps around, and all of the line becomes
the name (`lineByLine_iff`).
-/

set_option autoImplicit false

namespace Oxool.Authorization

open Oxool.Http (Bytes ascii cr lf)
open Oxool.Sheet (colon)

/-! ## The code -/

def space : UInt8 := 32

def isBlank (b : UInt8) : Bool := b == space

/-- The loop of `StringVector::tokenizeAnyOf`, from `start` on. Each round takes at least a
delimiter. -/
def tokensFrom (delimiters : Bytes) : Nat → Bytes → List Bytes
  | 0, _ => []
  | fuel + 1, s =>
    match s.dropWhile isBlank with
    | [] => []
    | b :: bs =>
      let token := ((b :: bs).takeWhile (!delimiters.contains ·)).rdropWhile isBlank
      let rest := tokensFrom delimiters fuel (((b :: bs).dropWhile (!delimiters.contains ·)).drop 1)
      if token = [] then rest else token :: rest

/-- `StringVector::tokenizeAnyOf`. -/
def tokenizeAnyOf (s delimiters : Bytes) : List Bytes :=
  let s := s.rdropWhile isBlank
  if s = [] ∨ delimiters = [] then [] else tokensFrom delimiters s.length s

/-- `std::string::find_first_of`, of one byte; `none` is `npos`. -/
def findFirstOf (s : Bytes) (c : UInt8) : Option Nat :=
  let pos := (s.takeWhile (· != c)).length
  if pos < s.length then some pos else none

def findFirstNotOf (s : Bytes) (c : UInt8) (pos : Nat) : Option Nat :=
  let pos := pos + ((s.drop pos).takeWhile (· == c)).length
  if pos < s.length then some pos else none

/-- `std::string::find_last_not_of`. From `npos` it looks through all of the string. -/
def findLastNotOf (s : Bytes) (c : UInt8) (pos : Option Nat) : Option Nat :=
  let length := ((pos.elim s fun pos => s.take (pos + 1)).rdropWhile (· == c)).length
  if length = 0 then none else some (length - 1)

/-- `separator - 1`, which is `npos` of 0. -/
def before : Nat → Option Nat
  | 0 => none
  | pos + 1 => some pos

/-- What the loop of `authorizeRequest` sets for a token. -/
def headerOf (token : Bytes) : Option (Bytes × Bytes) :=
  match findFirstOf token colon with
  | none => none
  | some separator =>
    match findFirstNotOf token space 0, findLastNotOf token space (before separator),
      findFirstNotOf token space (separator + 1), findLastNotOf token space none with
    | some headerStart, some headerEnd, some valueStart, some valueEnd =>
      some ((token.drop headerStart).take (headerEnd - headerStart + 1),
        (token.drop valueStart).take (valueEnd - valueStart + 1))
    | _, _, _, _ => none

inductive Kind where
  | none
  | token
  | header
  deriving DecidableEq

/-- `Authorization::authorizeRequest`, of what `HTTPRequest::set` does to a request. -/
def authorizeRequest {ρ : Type} (set : ρ → Bytes → Bytes → ρ) (type : Kind) (data : Bytes)
    (request : ρ) : ρ :=
  match type with
  | .token => set request (ascii "Authorization") (ascii "Bearer " ++ data)
  | .header =>
    (tokenizeAnyOf data [lf, cr]).foldl
      (fun request token => (headerOf token).elim request fun header => set request header.1 header.2) request
  | .none => request

/-! ## Line by line -/

def isBreak (b : UInt8) : Bool := [lf, cr].contains b

def lines (data : Bytes) : List Bytes := data.splitOnP isBreak

def nameOf (line : Bytes) : Bytes := trim isBlank (line.takeWhile (· != colon))

/-- What is behind the first colon of a line. -/
def valueOf (line : Bytes) : Bytes := trim isBlank ((line.dropWhile (· != colon)).drop 1)

def pairOf (line : Bytes) : Option (Bytes × Bytes) :=
  if nameOf line = [] ∨ valueOf line = [] then none else some (nameOf line, valueOf line)

/-- A collection of headers, where a name may be written in several ways. -/
structure Headers (ρ : Type) where
  get : ρ → Bytes → Option Bytes
  set : ρ → Bytes → Bytes → ρ
  same : Bytes → Bytes → Bool
  get_set : ∀ request name value name', get (set request name value) name' =
    if same name name' then some value else get request name'

/-- The headers that come of `data` are those of its lines, the last occurrence of a name wins, and
there is nothing in them that does not belong into a header. -/
structure LineByLine (data : Bytes) : Prop where
  sets : ∀ (ρ : Type) (set : ρ → Bytes → Bytes → ρ) (request : ρ),
    authorizeRequest set .header data request =
      ((lines data).filterMap pairOf).foldl (fun request pair => set request pair.1 pair.2) request
  last : ∀ (ρ : Type) (headers : Headers ρ) (request : ρ) (name : Bytes),
    headers.get (authorizeRequest headers.set .header data request) name =
      ((((lines data).filterMap pairOf).reverse.find? fun pair => headers.same pair.1 name).map Prod.snd).or
        (headers.get request name)
  clean : ∀ pair ∈ authorizeRequest (fun pairs name value => pairs ++ [(name, value)]) .header data [],
    (∀ text ∈ [pair.1, pair.2], cr ∉ text ∧ lf ∉ text ∧ text.head? ≠ some space ∧ text.getLast? ≠ some space) ∧
      colon ∉ pair.1

/-! ## The tokens are the lines -/

section
variable {delimiters : Bytes}

/-- The text up to the first delimiter, and what is from there on. -/
theorem takeWhile_cases (p : UInt8 → Bool) (s : Bytes) :
    (∀ b ∈ s.takeWhile (!p ·), p b = false) ∧
      (s.dropWhile (!p ·) = [] ∨ ∃ d rest, s.dropWhile (!p ·) = d :: rest ∧ p d = true) := by
  constructor
  · intro b hb
    have hnot := List.mem_takeWhile_imp hb
    rw [Bool.not_eq_true'] at hnot
    exact hnot
  · cases hs : s.dropWhile (!p ·) with
    | nil => exact .inl rfl
    | cons d rest =>
      have hd := head?_dropWhile (a := d) (show (s.dropWhile (!p ·)).head? = some d by rw [hs]; rfl)
      rw [Bool.not_eq_false'] at hd
      exact .inr ⟨d, rest, rfl, hd⟩

/-- A delimiter ends the first of the parts. -/
theorem splitOnP_eq (p : UInt8 → Bool) (s : Bytes) :
    s.splitOnP p = s.takeWhile (!p ·) ::
      if s.dropWhile (!p ·) = [] then [] else ((s.dropWhile (!p ·)).drop 1).splitOnP p := by
  obtain ⟨hno, hnil | ⟨d, rest, hrest, hd⟩⟩ := takeWhile_cases p s
  · have hs := List.takeWhile_append_dropWhile (p := (!p ·)) (l := s)
    rw [hnil, List.append_nil] at hs
    rw [if_pos hnil, hs, List.splitOnP_eq_singleton]
    rw [hs] at hno
    exact hno
  · have hs := List.takeWhile_append_dropWhile (p := (!p ·)) (l := s)
    conv_lhs => rw [← hs, hrest]
    rw [List.splitOnP_append_cons _ _ hd, List.splitOnP_eq_singleton hno, if_neg (by simp [hrest]),
      hrest]
    rfl

/-- Spaces at the end belong to the last of the parts. -/
theorem map_trim_append {blanks : Bytes} (hspace : space ∉ delimiters)
    (hblanks : ∀ b ∈ blanks, isBlank b = true)
    (s : Bytes) : ((s ++ blanks).splitOnP delimiters.contains).map (trim isBlank) =
      (s.splitOnP delimiters.contains).map (trim isBlank) := by
  have hno : ∀ b ∈ blanks, delimiters.contains b = false := by
    intro b hb
    rw [eq_of_beq (hblanks b hb), List.contains_eq_mem, decide_eq_false_iff_not]
    exact hspace
  induction h : s.length using Nat.strongRecOn generalizing s with
  | ind n ih =>
    obtain ⟨hseg, hnil | ⟨d, rest, hrest, hd⟩⟩ := takeWhile_cases delimiters.contains s
    · have hs := List.takeWhile_append_dropWhile (p := (!delimiters.contains ·)) (l := s)
      rw [hnil, List.append_nil] at hs
      rw [hs] at hseg
      rw [List.splitOnP_eq_singleton hseg, List.splitOnP_eq_singleton, List.map_singleton,
        List.map_singleton,
        trim_append_right hblanks]
      intro b hb
      cases List.mem_append.mp hb with
      | inl hb => exact hseg b hb
      | inr hb => exact hno b hb
    · have hs := List.takeWhile_append_dropWhile (p := (!delimiters.contains ·)) (l := s)
      rw [hrest] at hs
      have hlt : rest.length < n := by
        rw [← h, ← hs, List.length_append, List.length_cons]
        omega
      rw [← hs, List.append_assoc, List.cons_append, List.splitOnP_append_cons _ _ hd,
        List.splitOnP_append_cons _ _ hd, List.map_append, List.map_append, ih _ hlt rest rfl]

/-- What the loop finds in a text are its parts, trimmed, but for the empty ones. -/
theorem tokensFrom_eq (hspace : space ∉ delimiters) (fuel : Nat) (s : Bytes)
    (hfuel : s.length ≤ fuel) :
    tokensFrom delimiters fuel s =
      ((s.splitOnP delimiters.contains).map (trim isBlank)).filter (· ≠ []) := by
  induction fuel generalizing s with
  | zero =>
    obtain rfl := List.length_eq_zero_iff.mp (Nat.le_zero.mp hfuel)
    rfl
  | succ fuel ih =>
    have hfront : ∀ b ∈ s.takeWhile isBlank, (!delimiters.contains b) = true := by
      intro b hb
      have hblank : isBlank b = true := List.mem_takeWhile_imp hb
      rw [eq_of_beq hblank, List.contains_eq_mem, decide_eq_false hspace]
      rfl
    have hs := List.takeWhile_append_dropWhile (p := isBlank) (l := s)
    rw [tokensFrom]
    cases hrest : s.dropWhile isBlank with
    | nil =>
      rw [hrest, List.append_nil] at hs
      rw [← hs, List.splitOnP_eq_singleton fun b hb => by simpa using hfront b hb,
        List.map_singleton, trim,
        List.dropWhile_eq_nil_iff.mpr fun b hb => List.mem_takeWhile_imp hb]
      rfl
    | cons b bs =>
      have htrim : trim isBlank ((b :: bs).takeWhile (!delimiters.contains ·)) =
          ((b :: bs).takeWhile (!delimiters.contains ·)).rdropWhile isBlank := by
        have hb : isBlank b = false := head?_dropWhile (by rw [hrest]; rfl)
        rw [trim]
        congr 1
        rw [List.takeWhile_cons]
        split
        · rw [List.dropWhile_cons_of_neg (Bool.eq_false_iff.mp hb)]
        · rfl
      have hlength : (((b :: bs).dropWhile (!delimiters.contains ·)).drop 1).length ≤ fuel := by
        have hle : (b :: bs).length ≤ s.length := by
          rw [← hrest]
          exact (List.dropWhile_suffix _).length_le
        have hle' := (List.dropWhile_suffix (l := b :: bs) (!delimiters.contains ·)).length_le
        rw [List.length_drop]
        rw [List.length_cons] at hle hle'
        omega
      rw [splitOnP_eq, ← hs, hrest, List.takeWhile_append_of_pos hfront,
        List.dropWhile_append_of_pos hfront,
        List.map_cons, trim_append_left fun b => List.mem_takeWhile_imp, htrim]
      dsimp only
      rw [ih _ hlength]
      have hmore : (((if (b :: bs).dropWhile (!delimiters.contains ·) = [] then []
          else (((b :: bs).dropWhile (!delimiters.contains ·)).drop 1).splitOnP delimiters.contains).map
            (trim isBlank)).filter (· ≠ [])) =
          ((((((b :: bs).dropWhile (!delimiters.contains ·)).drop 1).splitOnP delimiters.contains).map
            (trim isBlank)).filter (· ≠ [])) := by
        split
        · next hnil =>
          rw [hnil]
          rfl
        · rfl
      rw [List.filter_cons, hmore]
      by_cases htoken : ((b :: bs).takeWhile (!delimiters.contains ·)).rdropWhile isBlank = []
      · rw [if_pos htoken, if_neg fun h => absurd htoken (of_decide_eq_true h)]
      · rw [if_neg htoken, if_pos (decide_eq_true htoken)]

theorem tokenizeAnyOf_eq (hspace : space ∉ delimiters) (hne : delimiters ≠ []) (s : Bytes) :
    tokenizeAnyOf s delimiters =
      ((s.splitOnP delimiters.contains).map (trim isBlank)).filter (· ≠ []) := by
  have hs : s.rdropWhile isBlank ++ s.rtakeWhile isBlank = s := List.rdropWhile_append_rtakeWhile
  have hparts := map_trim_append hspace (fun b (hb : b ∈ s.rtakeWhile isBlank) => List.mem_rtakeWhile_imp hb)
    (s.rdropWhile isBlank)
  rw [hs] at hparts
  rw [tokenizeAnyOf, hparts]
  split
  · next h =>
    rw [h.resolve_right hne]
    rfl
  · exact tokensFrom_eq hspace _ _ (Nat.le_refl _)

end

/-! ## A token at its colon -/

theorem findFirstOf_append {front : Bytes} {c : UInt8} (hfront : c ∉ front) (rest : Bytes) :
    findFirstOf (front ++ c :: rest) c = some front.length := by
  have hpos : ∀ b ∈ front, (b != c) = true := by
    intro b hb
    rw [bne_iff_ne]
    rintro rfl
    exact hfront hb
  rw [findFirstOf, List.takeWhile_append_of_pos hpos, List.takeWhile_cons_of_neg (by simp),
    List.append_nil]
  exact if_pos (by simp)

theorem findFirstOf_of_not_mem {s : Bytes} {c : UInt8} (hs : c ∉ s) :
    findFirstOf s c = none := by
  rw [findFirstOf, takeWhile_bne_of_notMem hs]
  exact if_neg (Nat.lt_irrefl _)

theorem findFirstNotOf_append (front rest : Bytes) :
    findFirstNotOf (front ++ rest) space front.length =
      if trim isBlank rest = [] then none else some (front.length + (rest.takeWhile isBlank).length) := by
  have hle : (rest.takeWhile isBlank).length ≤ rest.length := (List.takeWhile_prefix _).length_le
  have hiff : rest.length ≤ (rest.takeWhile isBlank).length ↔ trim isBlank rest = [] := by
    rw [trim_eq_nil_iff, ← List.takeWhile_eq_self_iff]
    constructor
    · exact (List.takeWhile_prefix _).eq_of_length_le
    · intro h
      rw [h]
  rw [findFirstNotOf, List.drop_left]
  change (if front.length + (rest.takeWhile isBlank).length < _ then _ else none) = _
  rw [List.length_append]
  split
  · next hlt =>
    rw [if_neg (fun h => by have := hiff.mpr h; omega)]
    rfl
  · next hlt => rw [if_pos (hiff.mp (by omega))]

theorem findLastNotOf_space (s : Bytes) (pos : Option Nat) :
    findLastNotOf s space pos =
      if (pos.elim s fun pos => s.take (pos + 1)).rdropWhile isBlank = [] then none
      else some (((pos.elim s fun pos => s.take (pos + 1)).rdropWhile isBlank).length - 1) := by
  rw [findLastNotOf]
  simp only [List.length_eq_zero_iff]
  rfl

theorem findLastNotOf_npos (front : Bytes) {rest : Bytes} (h : trim isBlank rest ≠ []) :
    findLastNotOf (front ++ rest) space none =
      some (front.length + (rest.takeWhile isBlank).length + ((trim isBlank rest).length - 1)) := by
  have hrest : (front ++ rest).rdropWhile isBlank = front ++ (rest.takeWhile isBlank ++ trim isBlank rest) := by
    rw [← rdropWhile_eq_append_trim h]
    apply rdropWhile_append_of_ne_nil
    rw [rdropWhile_eq_append_trim h]
    exact List.append_ne_nil_of_right_ne_nil _ h
  have hpos := List.length_pos_iff.mpr h
  rw [findLastNotOf_space, Option.elim_none, hrest, if_neg (by simp [h]), List.length_append,
    List.length_append]
  congr 1
  omega

/-- From the one position to the other stands what `trim` leaves. -/
theorem take_drop_eq_trim (front : Bytes) {rest : Bytes} (h : trim isBlank rest ≠ []) :
    ((front ++ rest).drop (front.length + (rest.takeWhile isBlank).length)).take
      (front.length + (rest.takeWhile isBlank).length + ((trim isBlank rest).length - 1) -
        (front.length + (rest.takeWhile isBlank).length) + 1) = trim isBlank rest := by
  have hpos := List.length_pos_iff.mpr h
  have hlength : front.length + (rest.takeWhile isBlank).length + ((trim isBlank rest).length - 1) -
      (front.length + (rest.takeWhile isBlank).length) + 1 = (trim isBlank rest).length := by omega
  rw [List.drop_length_add_append, drop_length_takeWhile, hlength, trim]
  exact (List.prefix_iff_eq_take.mp (List.rdropWhile_prefix _ _)).symm

section
variable {token : Bytes}

/-- The first byte of a token is no space. -/
theorem findFirstNotOf_zero (htrimmed : Trimmed isBlank token) (hne : token ≠ []) :
    findFirstNotOf token space 0 = some 0 := by
  have h := findFirstNotOf_append [] token
  rw [htrimmed.trim_eq, if_neg hne] at h
  obtain ⟨b, bs, rfl⟩ := List.exists_cons_of_ne_nil hne
  rw [List.takeWhile_cons_of_neg (Bool.eq_false_iff.mp (htrimmed.head b rfl))] at h
  exact h

/-- A token with a colon behind a name. -/
theorem headerOf_append {name value : Bytes} (htrimmed : Trimmed isBlank (name ++ colon :: value))
    (hname : name ≠ []) (hcolon : colon ∉ name) :
    headerOf (name ++ colon :: value) =
      if trim isBlank value = [] then none else some (trim isBlank name, trim isBlank value) := by
  obtain ⟨b, bs, rfl⟩ := List.exists_cons_of_ne_nil hname
  have hb : isBlank b = false := htrimmed.head b rfl
  have htrim : trim isBlank (b :: bs) = (b :: bs).rdropWhile isBlank := by
    rw [trim, List.dropWhile_cons_of_neg (Bool.eq_false_iff.mp hb)]
  have hne : trim isBlank (b :: bs) ≠ [] := by
    intro hnil
    rw [trim_eq_nil_iff.mp hnil b (List.mem_cons_self ..)] at hb
    exact Bool.noConfusion hb
  have hend : findLastNotOf (b :: bs ++ colon :: value) space (before (b :: bs).length) =
      some ((trim isBlank (b :: bs)).length - 1) := by
    rw [findLastNotOf_space, List.length_cons, before, Option.elim_some,
      List.take_left' (by simp), ← htrim,
      if_neg hne]
  have hfront : (b :: bs ++ [colon]).length = (b :: bs).length + 1 := by simp
  have hvalue : b :: bs ++ colon :: value = (b :: bs ++ [colon]) ++ value := by simp
  rw [headerOf, findFirstOf_append hcolon]
  dsimp only
  rw [findFirstNotOf_zero htrimmed (by simp), hend, ← hfront, hvalue, findFirstNotOf_append]
  by_cases hnil : trim isBlank value = []
  · rw [if_pos hnil, if_pos hnil]
  · rw [if_neg hnil, if_neg hnil, findLastNotOf_npos _ hnil]
    have hpos := List.length_pos_iff.mpr hnil
    have hname : (b :: bs ++ [colon] ++ value).take ((trim isBlank (b :: bs)).length - 1 - 0 + 1) =
        trim isBlank (b :: bs) := by
      have hpos := List.length_pos_iff.mpr hne
      have hfirst : trim isBlank (b :: bs) <+: b :: bs ++ [colon] ++ value := by
        rw [htrim, List.append_assoc]
        exact (List.rdropWhile_prefix _ _).trans (List.prefix_append _ _)
      rw [show (trim isBlank (b :: bs)).length - 1 - 0 + 1 = (trim isBlank (b :: bs)).length by omega]
      exact (List.prefix_iff_eq_take.mp hfirst).symm
    dsimp only
    rw [take_drop_eq_trim _ hnil, List.drop_zero, hname]

/-- A token that begins with its colon is taken for the name as a whole. -/
theorem headerOf_colon {value : Bytes} (htrimmed : Trimmed isBlank (colon :: value)) :
    headerOf (colon :: value) =
      if trim isBlank value = [] then none else some (colon :: value, trim isBlank value) := by
  have hself : trim isBlank (colon :: value) = colon :: value := htrimmed.trim_eq
  have hne : trim isBlank (colon :: value) ≠ [] := by
    rw [hself]
    exact List.cons_ne_nil _ _
  have htake : (colon :: value).takeWhile isBlank = [] :=
    List.takeWhile_cons_of_neg (Bool.eq_false_iff.mp (htrimmed.head colon rfl))
  have hend := findLastNotOf_npos [] hne
  have hname := take_drop_eq_trim [] hne
  have hvalue := findFirstNotOf_append [colon] value
  rw [hself, htake] at hname
  rw [hself, htake] at hend
  have hfirst : findFirstOf (colon :: value) colon = some 0 := findFirstOf_append (List.not_mem_nil) value
  simp only [List.nil_append, List.length_nil, Nat.zero_add] at hend hname
  simp only [List.singleton_append, List.length_singleton] at hvalue
  rw [headerOf, hfirst]
  dsimp only
  rw [findFirstNotOf_zero htrimmed (List.cons_ne_nil _ _), before, hend, Nat.zero_add, hvalue]
  by_cases hnil : trim isBlank value = []
  · rw [if_pos hnil, if_pos hnil]
  · have hlast := findLastNotOf_npos [colon] hnil
    have htext := take_drop_eq_trim [colon] hnil
    simp only [List.singleton_append, List.length_singleton] at hlast htext
    have heq := hend.symm.trans hlast
    rw [Option.some.injEq] at heq
    rw [if_neg hnil, if_neg hnil]
    dsimp only
    rw [hname, heq, htext]

theorem headerOf_of_not_mem (h : colon ∉ token) : headerOf token = none := by
  rw [headerOf, findFirstOf_of_not_mem h]

end

/-! ## A line and its token -/

section
variable {line : Bytes}

theorem not_colon_of_isBlank {b : UInt8} (h : isBlank b = true) : (b != colon) = true := by
  rw [isBlank] at h
  rw [eq_of_beq h]
  rfl

/-- The spaces around a line do not matter for the text before its colon. -/
theorem nameOf_trim (line : Bytes) : nameOf (trim isBlank line) = nameOf line := by
  obtain ⟨front, back, hline, hfront, hback⟩ := exists_trim (p := isBlank) line
  conv_rhs => rw [hline]
  rw [nameOf, nameOf, List.append_assoc,
    List.takeWhile_append_of_pos fun b hb => not_colon_of_isBlank (hfront b hb), trim_append_left hfront,
    List.takeWhile_append]
  split
  · next hall =>
    rw [List.takeWhile_eq_self_iff.mpr fun b hb => not_colon_of_isBlank (hback b hb),
      trim_append_right hback,
      (List.takeWhile_prefix _).eq_of_length hall]
  · rfl

theorem valueOf_trim (line : Bytes) : valueOf (trim isBlank line) = valueOf line := by
  obtain ⟨front, back, hline, hfront, hback⟩ := exists_trim (p := isBlank) line
  conv_rhs => rw [hline]
  rw [valueOf, valueOf, List.append_assoc,
    List.dropWhile_append_of_pos fun b hb => not_colon_of_isBlank (hfront b hb), List.dropWhile_append]
  split
  · next hnil =>
    rw [List.isEmpty_iff.mp hnil,
      List.dropWhile_eq_nil_iff.mpr fun b hb => not_colon_of_isBlank (hback b hb)]
  · next hne =>
    obtain ⟨b, bs, hbs⟩ := List.exists_cons_of_ne_nil (mt List.isEmpty_iff.mpr hne)
    rw [hbs, List.cons_append, List.drop_one, List.drop_one, List.tail_cons, List.tail_cons,
      trim_append_right hback]

/-- A line at its first colon. -/
theorem nameOf_append {name : Bytes} (hname : colon ∉ name) (value : Bytes) :
    nameOf (name ++ colon :: value) = trim isBlank name ∧ valueOf (name ++ colon :: value) = trim isBlank value := by
  have hpos : ∀ b ∈ name, (b != colon) = true := by
    intro b hb
    rw [bne_iff_ne]
    rintro rfl
    exact hname hb
  constructor
  · rw [nameOf, List.takeWhile_append_of_pos hpos, List.takeWhile_cons_of_neg (by simp),
      List.append_nil]
  · rw [valueOf, List.dropWhile_append_of_pos hpos, List.dropWhile_cons_of_neg (by simp)]
    rfl

theorem valueOf_of_not_mem (h : colon ∉ line) : valueOf line = [] := by
  rw [valueOf, List.dropWhile_eq_nil_iff.mpr]
  · rfl
  · intro b hb
    rw [bne_iff_ne]
    rintro rfl
    exact h hb

/-- What the loop of `authorizeRequest` makes of a line. -/
theorem headerOf_trim (hne : trim isBlank line ≠ []) :
    headerOf (trim isBlank line) =
      if nameOf line = [] ∧ valueOf line ≠ [] then some (trim isBlank line, valueOf line) else pairOf line := by
  have htrimmed := trimmed_trim (p := isBlank) line
  rw [pairOf, ← nameOf_trim line, ← valueOf_trim line]
  generalize trim isBlank line = token at hne htrimmed
  by_cases hcolon : colon ∈ token
  · obtain ⟨name, value, rfl, hname⟩ := List.eq_append_cons_of_mem hcolon
    rw [(nameOf_append hname value).1, (nameOf_append hname value).2]
    cases name with
    | nil =>
      rw [List.nil_append, headerOf_colon htrimmed]
      by_cases hvalue : trim isBlank value = []
      · rw [if_pos hvalue, if_neg (fun h => h.2 hvalue), if_pos (.inr hvalue)]
      · rw [if_neg hvalue, if_pos ⟨rfl, hvalue⟩]
    | cons b bs =>
      have hb : trim isBlank (b :: bs) ≠ [] := by
        intro hnil
        have hpos := trim_eq_nil_iff.mp hnil b (List.mem_cons_self ..)
        rw [htrimmed.head b rfl] at hpos
        exact Bool.noConfusion hpos
      rw [headerOf_append htrimmed (List.cons_ne_nil _ _) hname,
        if_neg (fun h : trim isBlank (b :: bs) = [] ∧ trim isBlank value ≠ [] => hb h.1)]
      by_cases hvalue : trim isBlank value = []
      · rw [if_pos hvalue, if_pos (.inr hvalue)]
      · rw [if_neg hvalue, if_neg (fun h => h.elim hb hvalue)]
  · rw [headerOf_of_not_mem hcolon, valueOf_of_not_mem hcolon, if_neg (fun h => h.2 rfl),
      if_pos (.inr rfl)]

/-- A line of spaces has no name, so there is nothing to set. -/
theorem pairOf_of_trim_eq_nil (h : trim isBlank line = []) : pairOf line = none := by
  rw [pairOf, ← nameOf_trim, h]
  exact if_pos (.inl rfl)

theorem pairOf_eq_some {pair : Bytes × Bytes} (h : pairOf line = some pair) :
    pair = (nameOf line, valueOf line) := by
  rw [pairOf] at h
  split at h
  · cases h
  · rw [Option.some.injEq] at h
    exact h.symm

theorem mem_of_mem_nameOf {b : UInt8} (h : b ∈ nameOf line) : b ∈ line ∧ b ≠ colon := by
  have hb := mem_of_mem_trim h
  have hne : (b != colon) = true := List.mem_takeWhile_imp (p := (· != colon)) hb
  exact ⟨(List.takeWhile_prefix _).subset hb, bne_iff_ne.mp hne⟩

theorem mem_of_mem_valueOf {b : UInt8} (h : b ∈ valueOf line) : b ∈ line :=
  (List.dropWhile_suffix _).subset (List.mem_of_mem_drop (mem_of_mem_trim h))

end

/-! ## All lines -/

section
variable {data : Bytes}

/-- No line has a line break in it. -/
theorem not_break_of_mem_lines {line : Bytes} (h : line ∈ lines data) {b : UInt8} (hb : b ∈ line) :
    isBreak b = false := by
  rw [lines] at h
  induction hn : data.length using Nat.strongRecOn generalizing data with
  | ind n ih =>
    obtain ⟨hno, hnil | ⟨d, rest, hrest, hd⟩⟩ := takeWhile_cases isBreak data
    · rw [splitOnP_eq, if_pos hnil, List.mem_singleton] at h
      rw [h] at hb
      exact hno b hb
    · rw [splitOnP_eq, hrest, if_neg (List.cons_ne_nil _ _)] at h
      cases List.mem_cons.mp h with
      | inl h =>
        rw [h] at hb
        exact hno b hb
      | inr h =>
        have hlt : rest.length < n := by
          have hle := (List.dropWhile_suffix (l := data) (!isBreak ·)).length_le
          rw [hrest, List.length_cons] at hle
          omega
        exact ih _ hlt h rfl

/-- The headers that the loop of `authorizeRequest` sets. -/
def headers (data : Bytes) : List (Bytes × Bytes) :=
  (tokenizeAnyOf data [lf, cr]).filterMap headerOf

theorem authorizeRequest_header {ρ : Type} (set : ρ → Bytes → Bytes → ρ) (data : Bytes)
    (request : ρ) :
    authorizeRequest set .header data request =
      (headers data).foldl (fun request pair => set request pair.1 pair.2) request := by
  rw [authorizeRequest, headers, List.foldl_filterMap]
  congr 1
  funext request token
  cases headerOf token <;> rfl

theorem headers_eq (data : Bytes) :
    headers data = (lines data).filterMap fun line =>
      if nameOf line = [] ∧ valueOf line ≠ [] then some (trim isBlank line, valueOf line) else pairOf line := by
  rw [headers, tokenizeAnyOf_eq (by decide) (by decide), List.filterMap_filter, List.filterMap_map]
  apply List.filterMap_congr
  intro line _
  change (if decide (trim isBlank line ≠ []) = true then headerOf (trim isBlank line) else none) = _
  by_cases hne : trim isBlank line = []
  · have hvalue : valueOf line = [] := by
      rw [← valueOf_trim, hne]
      rfl
    rw [if_neg (fun h => absurd hne (of_decide_eq_true h)), if_neg (fun h => h.2 hvalue),
      pairOf_of_trim_eq_nil hne]
  · rw [if_pos (decide_eq_true hne), headerOf_trim hne]

example : headers (ascii "X-A:  b c \r\n\n : d") = [(ascii "X-A", ascii "b c"), (ascii ": d", ascii "d")] := by
  decide

/-- No line has nothing but spaces before its first colon and something else behind it. -/
def Named (data : Bytes) : Prop := ∀ line ∈ lines data, nameOf line = [] → valueOf line = []

instance (data : Bytes) : Decidable (Named data) := List.decidableBAll _ (lines data)

theorem headers_of_named (h : Named data) : headers data = (lines data).filterMap pairOf := by
  rw [headers_eq]
  apply List.filterMap_congr
  intro line hline
  exact if_neg fun hbad => hbad.2 (h line hline hbad.1)

theorem get_foldl {ρ : Type} (H : Headers ρ) (pairs : List (Bytes × Bytes)) (request : ρ)
    (name : Bytes) :
    H.get (pairs.foldl (fun request pair => H.set request pair.1 pair.2) request) name =
      ((pairs.reverse.find? fun pair => H.same pair.1 name).map Prod.snd).or (H.get request name) := by
  induction pairs using List.reverseRecOn with
  | nil => rfl
  | append_singleton pairs pair ih =>
    rw [List.foldl_append, List.foldl_cons, List.foldl_nil, H.get_set, ih, List.reverse_append,
      List.reverse_singleton, List.singleton_append, List.find?_cons]
    cases H.same pair.1 name <;> rfl

/-- A name or a value that was trimmed, and stood in a line. -/
theorem clean_of_trim {line text : Bytes} (hline : line ∈ lines data)
    (hmem : ∀ b ∈ trim isBlank text, b ∈ line) :
    cr ∉ trim isBlank text ∧ lf ∉ trim isBlank text ∧ (trim isBlank text).head? ≠ some space ∧
      (trim isBlank text).getLast? ≠ some space := by
  have htrimmed := trimmed_trim (p := isBlank) text
  refine ⟨?_, ?_, ?_, ?_⟩
  · intro hb
    exact Bool.noConfusion (not_break_of_mem_lines hline (hmem cr hb))
  · intro hb
    exact Bool.noConfusion (not_break_of_mem_lines hline (hmem lf hb))
  · intro hhead
    exact Bool.noConfusion (htrimmed.head space hhead)
  · intro hlast
    exact Bool.noConfusion (htrimmed.last space hlast)

theorem foldl_append_pairs (pairs before : List (Bytes × Bytes)) :
    pairs.foldl (fun pairs pair => pairs ++ [(pair.1, pair.2)]) before = before ++ pairs := by
  induction pairs generalizing before with
  | nil => exact (List.append_nil _).symm
  | cons pair pairs ih =>
    rw [List.foldl_cons, ih, List.append_assoc]
    rfl

theorem lineByLine_of_named (h : Named data) : LineByLine data where
  sets := fun ρ set request => by rw [authorizeRequest_header, headers_of_named h]
  last := fun ρ H request name => by rw [authorizeRequest_header, headers_of_named h, get_foldl]
  clean := by
    intro pair hpair
    rw [authorizeRequest_header, foldl_append_pairs, List.nil_append, headers_of_named h] at hpair
    obtain ⟨line, hline, hpair⟩ := List.mem_filterMap.mp hpair
    obtain rfl := pairOf_eq_some hpair
    constructor
    · intro text htext
      cases List.mem_cons.mp htext with
      | inl htext =>
        rw [htext]
        exact clean_of_trim hline fun b hb => (mem_of_mem_nameOf hb).1
      | inr htext =>
        rw [List.mem_singleton.mp htext]
        exact clean_of_trim hline fun b hb => mem_of_mem_valueOf hb
    · intro hcolon
      exact (mem_of_mem_nameOf hcolon).2 rfl

/-- The headers are those of the lines just if every line with a value has a name. -/
theorem lineByLine_iff (data : Bytes) : LineByLine data ↔ Named data := by
  constructor
  · intro h line hline hname
    by_contra hvalue
    have hcolon : colon ∈ trim isBlank line := by
      by_contra hno
      rw [← valueOf_trim, valueOf_of_not_mem hno] at hvalue
      exact hvalue rfl
    have hmem : (trim isBlank line, valueOf line) ∈ headers data := by
      rw [headers_eq]
      exact List.mem_filterMap.mpr ⟨line, hline, if_pos ⟨hname, hvalue⟩⟩
    have hclean := h.clean (trim isBlank line, valueOf line)
    rw [authorizeRequest_header, foldl_append_pairs, List.nil_append] at hclean
    exact (hclean hmem).2 hcolon
  · exact lineByLine_of_named

/-- A line that begins with a colon is the name of the header that it sets. -/
theorem not_lineByLine : ¬ ∀ data, LineByLine data := by
  intro h
  have hclean := (h (ascii ": Basic")).clean
  revert hclean
  decide

end

end Oxool.Authorization
