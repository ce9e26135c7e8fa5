import Oxool.Common.StringVector
import Oxool.Lib.Search

/-!
# `RequestDetails` (`wsd/RequestDetails.cpp`)

What the server makes of the URI of a request: its path segments and the fields a document is
looked up by. The document in `/oxool/<document>/…` may be given in hex, after `0x`, and `dehexify`
is to turn such a URI into the plain one before it is taken apart.

`Poco::URI::getQueryParameters` and `Poco::URI::decode` are the parameters `poco` and `decode`,
with `none` for the exception that the constructor passes on. So is `none` for a constructor that
throws in `dehexify`. The fields are read through `getField`, which answers an empty string for a
field that was never set.
-/

set_option autoImplicit false

namespace Oxool.Wsd

open Oxool.Http (Bytes ascii)

/-! ## Strings -/

def slash : UInt8 := 47
def question : UInt8 := 63

/-- `std::string::rfind`. -/
def rfind (pat : Bytes) : Bytes → Option Nat
  | [] => if pat.isEmpty then some 0 else none
  | a :: l =>
    match rfind pat l with
    | some i => some (i + 1)
    | none => if pat.isPrefixOf (a :: l) then some 0 else none

/-- `std::string::find_first_of`, for the bytes that `p` holds of. -/
def findFirstOf (p : UInt8 → Bool) (s : Bytes) (start : Nat) : Option Nat :=
  ((s.drop start).findIdx? p).map (· + start)

/-- `substr(pos, len)` for a `pos` inside the string; `none` stands for `npos`. -/
def substr (s : Bytes) (pos : Nat) (len : Option Nat) : Bytes :=
  match len with
  | some len => (s.drop pos).take len
  | none => s.drop pos

/-! ## Hex -/

/-- One byte in `Util::dataToHexString`. -/
def hexOfByte (b : UInt8) : Bytes :=
  let digit (n : Nat) : UInt8 := if n < 10 then UInt8.ofNat (48 + n) else UInt8.ofNat (87 + n)
  [digit (b.toNat / 16), digit (b.toNat % 16)]

def dataToHexString (data : Bytes) : Bytes := data.flatMap hexOfByte

/-- The digits that `operator>>` takes in, and what it leaves. -/
def hexDigits (s : Bytes) : Bytes × Bytes := s.span fun b => (Http.hexDigitFromChar b).isSome

/-- `stream >> std::hex >> value` where `value` was `old`, and what is left in the stream. A number
may have a sign and a `0x`. A failure sets the value to 0, but a stream that has nothing but blanks
leaves it. -/
def extractHex (old : Nat) (stream : Bytes) : Nat × Bytes :=
  let s := stream.dropWhile fun b => b == 32 || (9 ≤ b && b ≤ 13)
  let (negative, number) :=
    match s with
    | 45 :: s => (true, s)
    | 43 :: s => (false, s)
    | s => (false, s)
  let number :=
    match number with
    | 48 :: 120 :: s => s
    | 48 :: 88 :: s => s
    | s => s
  let (digits, left) := hexDigits number
  let value := digits.foldl (fun n b => n * 16 + (Http.hexDigitFromChar b).getD 0) 0
  if s = [] then (old, [])
  else if digits = [] then (0, left)
  else if value ≥ 2 ^ 32 then (2 ^ 32 - 1, left)
  else (if negative then (2 ^ 32 - value) % 2 ^ 32 else value, left)

/-- The loop of `Util::dataFromHexString`. What a round leaves in the stream is read first in the
next one. -/
def fromHexLoop : Nat → Bytes → Bytes → Bytes
  | old, stream, a :: b :: rest =>
    let (value, left) := extractHex old (stream ++ [a, b])
    UInt8.ofNat (value % 256) :: fromHexLoop value left rest
  | _, _, _ => []

/-- `Util::dataFromHexString`; `none` is the answer false, which leaves the data as it was. The
value has no initial one in the source, and 0 stands for it. -/
def dataFromHexString (hexString : Bytes) : Option Bytes :=
  if hexString.length % 2 ≠ 0 then none else some (fromHexLoop 0 [] hexString)

/-! ## `dehexify` -/

def hexPrefix : Bytes := ascii "oxool/0x"

/-- `sizeof(Prefix)`: `Prefix` is declared `auto`, so that it is a pointer. -/
def sizeofPrefix : Nat := 8

def prefixLen : Nat := sizeofPrefix - 1

/-- `RequestDetails::dehexify`. Without a `/` behind the token, `substr(end)` throws. -/
def dehexify (uriString : Bytes) : Option Bytes :=
  match search hexPrefix uriString with
  | none => some uriString
  | some hexPos =>
    let start := hexPos + prefixLen
    let stop := findFirstOf (· == slash) uriString start
    let res := uriString.take (start - 2)
    let encoded := substr uriString start (stop.map (· - start))
    let decoded := (dataFromHexString encoded).getD []
    match stop with
    | none => none
    | some stop => some (res ++ decoded ++ uriString.drop stop)

/-! ## `processURI` -/

structure Fields where
  type : Bytes
  documentURI : Bytes
  legacyDocumentURI : Bytes
  wopiSrc : Bytes
  compat : Bytes
  sessionId : Bytes
  command : Bytes
  serial : Bytes
deriving DecidableEq

structure RequestDetails where
  uriString : Bytes
  pathSegs : List Bytes
  params : List (Bytes × Bytes)
  docUriParams : List (Bytes × Bytes)
  fields : Fields
deriving DecidableEq

section Process

variable (poco : Bytes → Option (List (Bytes × Bytes))) (decode : Bytes → Option Bytes)

/-- `getParams`: the query parameters, decoded once more. -/
def getParams (uri : Bytes) : Option (List (Bytes × Bytes)) := do
  let params ← poco uri
  params.mapM fun (key, value) => do
    return (← decode key, ← decode value)

/-- `getParam`: the first parameter of a name, since `emplace` keeps what is there. -/
def getParam (params : List (Bytes × Bytes)) (name : Bytes) : Bytes :=
  ((params.find? fun p => p.1 == name).map Prod.snd).getD []

def isDelimiter (b : UInt8) : Bool := b == slash || b == question

/-- The path segments. -/
def pathSegs (uriString : Bytes) : List Bytes := pieces isDelimiter [] uriString

/-- The end of the legacy document URI, which goes on to the end of the WOPISrc. -/
def legacyEnd (uriRes : Bytes) : Option Nat :=
  match rfind (ascii "/ws?") uriRes with
  | some stop => findFirstOf isDelimiter uriRes (stop + 4)
  | none =>
    match rfind (ascii "/ws") uriRes with
    | some posLastWS => some posLastWS
    | none =>
      match findFirstOf (· == slash) uriRes 0 with
      | some stop => some stop
      | none => findFirstOf (· == question) uriRes 0

/-- A URI that names a document in its second segment. -/
def namesDocument (segs : List Bytes) : Bool :=
  segs.head? == some (ascii "oxool") || segs.head? == some (ascii "wasm")

/-- A field that is the first part of `uriRes`, decoded, or else the whole URI. -/
def documentField (uriString uriRes : Bytes) (stop : Option Nat) : Option Bytes :=
  if namesDocument (pathSegs uriString) then decode (substr uriRes 0 stop) else some uriString

/-- `RequestDetails::processURI`. -/
def processURI (uriString : Bytes) : Option RequestDetails := do
  let params ← getParams poco decode uriString
  let off := if uriString.head? = some slash then 1 else 0
  let posDocUri := findFirstOf (· == slash) uriString off
  let type := substr uriString off (posDocUri.map (· - off))
  let uriRes := uriString.drop ((posDocUri.map (· + 1)).getD 0)
  let posLastWS := rfind (ascii "/ws") uriRes
  let legacy ← documentField decode uriString uriRes (legacyEnd uriRes)
  let document ← documentField decode uriString uriRes (findFirstOf isDelimiter uriRes 0)
  let docUriParams ← getParams poco decode document
  let proxyTokens :=
    match posLastWS with
    | some pos => tokenize (uriRes.drop pos) slash
    | none => []
  return {
    uriString := uriString
    pathSegs := pathSegs uriString
    params := params
    docUriParams := docUriParams
    fields := {
      type := type
      documentURI := document
      legacyDocumentURI := legacy
      wopiSrc := getParam params (ascii "WOPISrc")
      compat := getParam params (ascii "compat")
      sessionId := proxyTokens.getD 1 []
      command := proxyTokens.getD 2 []
      serial := proxyTokens.getD 3 [] } }

/-- The constructor, from a URI. -/
def RequestDetails.ofURI (uri : Bytes) : Option RequestDetails :=
  (dehexify uri).bind (processURI poco decode)

end Process

/-! ## Path segments -/

theorem pathSegs_append (l m : Bytes) : pathSegs (l ++ slash :: m) = pathSegs l ++ pathSegs m :=
  pieces_append rfl [] l m

/-- Only delimiters have no segments. -/
theorem delimiters_of_pathSegs_nil {d : Bytes} (h : pathSegs d = []) :
    ∀ b ∈ d, isDelimiter b = true := by
  induction d with
  | nil => exact fun b hb => absurd hb (by simp)
  | cons b d ih =>
    rw [pathSegs, pieces] at h
    by_cases hb : isDelimiter b = true
    · rw [if_pos hb] at h
      intro c hc
      rcases List.mem_cons.mp hc with rfl | hc
      · exact hb
      · exact ih h c hc
    · obtain ⟨more, hmore⟩ := head_pieces isDelimiter (t := [b]) (by simp) d
      rw [if_neg hb, List.nil_append] at h
      rw [h] at hmore
      exact absurd hmore (by simp)

/-! ## Hexified URIs -/

theorem length_dataToHexString (d : Bytes) : (dataToHexString d).length = 2 * d.length := by
  induction d with
  | nil => rfl
  | cons b d ih =>
    rw [dataToHexString, List.flatMap_cons, List.length_append, ← dataToHexString, ih, hexOfByte,
      List.length_cons]
    simp only [List.length_cons, List.length_nil]
    omega

theorem slash_notMem_dataToHexString (d : Bytes) : slash ∉ dataToHexString d := by
  intro h
  obtain ⟨b, -, hb⟩ := List.mem_flatMap.mp h
  revert hb
  revert b
  apply Http.forall_byte
  decide +kernel

theorem search_token (t : Bytes) : search hexPrefix (ascii "/oxool/0x" ++ t) = some 1 := by
  have hnot : hexPrefix.isPrefixOf (slash :: (hexPrefix ++ t)) = false := rfl
  have hhere : search hexPrefix (hexPrefix ++ t) = some 0 := search_self_append (a := 111) _ t
  have hsplit : ascii "/oxool/0x" ++ t = slash :: (hexPrefix ++ t) := rfl
  rw [hsplit, search, hnot, hhere]
  rfl

theorem findFirstOf_slash {t : Bytes} (ht : slash ∉ t) (pre r : Bytes) :
    findFirstOf (· == slash) (pre ++ (t ++ slash :: r)) pre.length = some (t.length + pre.length) := by
  have hnone : t.findIdx? (· == slash) = none := by
    rw [List.findIdx?_eq_none_iff]
    intro b hb
    exact beq_false_of_ne fun h => ht (h ▸ hb)
  rw [findFirstOf, List.drop_left, List.findIdx?_append, hnone]
  simp [List.findIdx?_cons]

theorem findFirstOf_no_slash {t : Bytes} (ht : slash ∉ t) (pre : Bytes) :
    findFirstOf (· == slash) (pre ++ t) pre.length = none := by
  have hnone : t.findIdx? (· == slash) = none := by
    rw [List.findIdx?_eq_none_iff]
    intro b hb
    exact beq_false_of_ne fun h => ht (h ▸ hb)
  rw [findFirstOf, List.drop_left, hnone]
  rfl

/-- **What `dehexify` does to a token.** The `x` of `0x` counts as part of the token, and the `/`
before it is dropped. -/
theorem dehexify_token {t : Bytes} (ht : slash ∉ t) (r : Bytes) :
    dehexify (ascii "/oxool/0x" ++ (t ++ slash :: r)) =
      some (ascii "/oxool" ++ ((dataFromHexString (120 :: t)).getD [] ++ slash :: r)) := by
  have hx : slash ∉ (120 : UInt8) :: t := by
    rw [List.mem_cons, not_or]
    exact ⟨by decide, ht⟩
  have hsplit : ascii "/oxool/0x" ++ (t ++ slash :: r) =
      ascii "/oxool/0" ++ ((120 :: t) ++ slash :: r) := rfl
  have hstop := findFirstOf_slash hx (ascii "/oxool/0") r
  have hlen : (ascii "/oxool/0").length = 1 + prefixLen := rfl
  rw [dehexify, search_token]
  dsimp only
  rw [hsplit, ← hlen, hstop, Option.map_some, Nat.add_sub_cancel, substr]
  dsimp only
  have hdrop : (ascii "/oxool/0" ++ ((120 :: t) ++ slash :: r)).drop
      ((120 :: t).length + (ascii "/oxool/0").length) = slash :: r := by
    rw [Nat.add_comm, List.drop_length_add_append, List.drop_left]
  rw [List.drop_left, List.take_left, hdrop, List.append_assoc]
  rfl

/-- Without anything behind the token it throws. -/
theorem dehexify_token_end {t : Bytes} (ht : slash ∉ t) : dehexify (ascii "/oxool/0x" ++ t) = none := by
  have hx : slash ∉ (120 : UInt8) :: t := by
    rw [List.mem_cons, not_or]
    exact ⟨by decide, ht⟩
  have hsplit : ascii "/oxool/0x" ++ t = ascii "/oxool/0" ++ 120 :: t := rfl
  have hstop := findFirstOf_no_slash hx (ascii "/oxool/0")
  have hlen : (ascii "/oxool/0").length = 1 + prefixLen := rfl
  rw [dehexify, search_token]
  dsimp only
  rw [hsplit, ← hlen, hstop]

/-- The `x` makes an even number of digits an odd one. -/
theorem dataFromHexString_even {t : Bytes} (ht : t.length % 2 = 0) :
    dataFromHexString (120 :: t) = none := by
  rw [dataFromHexString, if_pos]
  rw [List.length_cons]
  omega

/-- Digits behind the `x` that make an even number with it start with a NUL. -/
theorem dataFromHexString_odd {t : Bytes} (ht : t.length % 2 = 1) :
    ∃ z, dataFromHexString (120 :: t) = some (0 :: z) := by
  cases t with
  | nil => exact absurd ht (by decide)
  | cons b t =>
    have hextract : extractHex 0 [120, b] = (0, [120, b]) := rfl
    rw [dataFromHexString, if_neg (by rw [List.length_cons]; omega), fromHexLoop, List.nil_append,
      hextract]
    exact ⟨_, rfl⟩

/-- Two constructions that both succeed, with the same segments and fields. -/
def Agree : Option RequestDetails → Option RequestDetails → Prop
  | some a, some b => a.pathSegs = b.pathSegs ∧ a.fields = b.fields
  | _, _ => False

instance : (a b : Option RequestDetails) → Decidable (Agree a b)
  | some a, some b => inferInstanceAs (Decidable (a.pathSegs = b.pathSegs ∧ a.fields = b.fields))
  | some _, none => inferInstanceAs (Decidable False)
  | none, _ => inferInstanceAs (Decidable False)

/-- The URI of a document `d`, in hex. -/
def hexified (d r : Bytes) : Bytes := ascii "/oxool/0x" ++ (dataToHexString d ++ r)

/-- The plain URI. -/
def plain (d r : Bytes) : Bytes := ascii "/oxool/" ++ (d ++ r)

section Hexified

variable (poco : Bytes → Option (List (Bytes × Bytes))) (decode : Bytes → Option Bytes)

/-- When a document in hex comes out as in plain. A document that itself starts with `0x` is lost
from the plain URI as well, if it is of even length. Otherwise a document with any byte but `?`
never does, unless the plain URI has a hex token further on; and what is left are the URIs that mean
the same without a document. -/
def Survives (d r : Bytes) : Prop :=
  r ≠ [] ∧
    if (ascii "0x").isPrefixOf d then
      d.length % 2 = 0 ∧ (processURI poco decode (ascii "/oxool" ++ r)).isSome = true
    else
      (d.all (· == question) = true ∨ (search hexPrefix (plain d r)).isSome = true) ∧
        Agree (processURI poco decode (ascii "/oxool" ++ r)) (RequestDetails.ofURI poco decode (plain d r))

variable {poco decode}

theorem agree_refl {a : Option RequestDetails} : Agree a a ↔ a.isSome = true := by
  cases a with
  | none => exact iff_of_false id (by simp)
  | some a => exact iff_of_true ⟨rfl, rfl⟩ rfl

theorem pathSegs_processURI {uri : Bytes} {a : RequestDetails}
    (h : processURI poco decode uri = some a) : a.pathSegs = pathSegs uri := by
  simp only [processURI, Option.bind_eq_bind, Option.pure_def, Option.bind_eq_some_iff] at h
  obtain ⟨params, -, legacy, -, document, -, docUriParams, -, ha⟩ := h
  obtain rfl := Option.some.inj ha
  rfl

/-- URIs that agree have the same segments. -/
theorem pathSegs_of_agree {u v : Bytes}
    (h : Agree (processURI poco decode u) (processURI poco decode v)) : pathSegs u = pathSegs v := by
  cases hu : processURI poco decode u with
  | none => rw [hu] at h; exact absurd h id
  | some a =>
    cases hv : processURI poco decode v with
    | none => rw [hu, hv] at h; exact absurd h id
    | some b =>
      rw [hu, hv] at h
      rw [← pathSegs_processURI hu, ← pathSegs_processURI hv]
      exact h.1

/-- **A hexified document is dropped**: what is left is `/oxool` and the remainder. -/
theorem ofURI_hexified (d r : Bytes) :
    RequestDetails.ofURI poco decode (hexified d (slash :: r)) =
      processURI poco decode (ascii "/oxool" ++ slash :: r) := by
  have heven : (dataToHexString d).length % 2 = 0 := by
    rw [length_dataToHexString]
    omega
  rw [RequestDetails.ofURI, hexified, dehexify_token (slash_notMem_dataToHexString d),
    dataFromHexString_even heven]
  rfl

/-- A document that starts with `0x` itself. -/
theorem agree_zero_x {t r : Bytes} (ht : slash ∉ t) :
    Agree (processURI poco decode (ascii "/oxool" ++ slash :: r))
        (RequestDetails.ofURI poco decode (plain (ascii "0x" ++ t) (slash :: r))) ↔
      t.length % 2 = 0 ∧ (processURI poco decode (ascii "/oxool" ++ slash :: r)).isSome = true := by
  have hplain : plain (ascii "0x" ++ t) (slash :: r) = ascii "/oxool/0x" ++ (t ++ slash :: r) := rfl
  rw [RequestDetails.ofURI, hplain, dehexify_token ht, Option.bind_some]
  rcases Nat.mod_two_eq_zero_or_one t.length with heven | hodd
  · rw [dataFromHexString_even heven, Option.getD_none, List.nil_append, agree_refl, and_iff_right heven]
  · obtain ⟨z, hz⟩ := dataFromHexString_odd hodd
    rw [hz, Option.getD_some]
    refine iff_of_false ?_ (fun h => by omega)
    intro hagree
    have hsegs := congrArg List.head? (pathSegs_of_agree hagree)
    -- the NUL has become part of the first segment
    have hsplit : ascii "/oxool" ++ (0 :: z ++ slash :: r) =
        slash :: (ascii "oxool" ++ 0 :: (z ++ slash :: r)) := rfl
    obtain ⟨more, hmore⟩ := head_pieces isDelimiter (t := ascii "oxool" ++ [0]) (by decide)
      (z ++ slash :: r)
    have hhead : (pathSegs (ascii "/oxool" ++ (0 :: z ++ slash :: r))).head? =
        some (ascii "oxool" ++ [0] ++ more) := by
      rw [hsplit, ← hmore]
      rfl
    have hfirst : (pathSegs (ascii "/oxool" ++ slash :: r)).head? = some (ascii "oxool") := by
      rw [pathSegs_append]
      rfl
    rw [hhead, hfirst, Option.some.injEq, List.append_assoc] at hsegs
    exact absurd (congrArg List.length hsegs) (by simp)

/-- **When a hexified document means the same as a plain one.** -/
theorem agree_hexified_iff {d r : Bytes} (hd : slash ∉ d) (hr : r = [] ∨ r.head? = some slash) :
    Agree (RequestDetails.ofURI poco decode (hexified d r))
        (RequestDetails.ofURI poco decode (plain d r)) ↔
      Survives poco decode d r := by
  cases r with
  | nil =>
    have hnone : RequestDetails.ofURI poco decode (hexified d []) = none := by
      rw [RequestDetails.ofURI, hexified, List.append_nil,
        dehexify_token_end (slash_notMem_dataToHexString d), Option.bind_none]
    rw [hnone]
    exact iff_of_false id (fun h => h.1 rfl)
  | cons c r =>
    obtain rfl : c = slash := by simpa using hr
    rw [ofURI_hexified, Survives, and_iff_right (List.cons_ne_nil _ _)]
    by_cases hzero : (ascii "0x").isPrefixOf d = true
    · obtain ⟨t, rfl⟩ := List.isPrefixOf_iff_prefix.mp hzero
      have ht : slash ∉ t := fun h => hd (List.mem_append_right _ h)
      have hlen : (ascii "0x" ++ t).length % 2 = t.length % 2 := by
        rw [List.length_append, Nat.add_comm]
        exact Nat.add_mod_right t.length 2
      rw [if_pos hzero, agree_zero_x ht, hlen]
    · rw [if_neg hzero]
      constructor
      · intro hagree
        refine ⟨?_, hagree⟩
        by_contra hnot
        rw [not_or, Bool.not_eq_true, Bool.not_eq_true, Option.isSome_eq_false_iff,
          Option.isNone_iff_eq_none] at hnot
        have hplain : RequestDetails.ofURI poco decode (plain d (slash :: r)) =
            processURI poco decode (plain d (slash :: r)) := by
          rw [RequestDetails.ofURI, dehexify, hnot.2]
          rfl
        rw [hplain] at hagree
        -- the segments of the document are missing from one side
        have hsegs := pathSegs_of_agree hagree
        have hsplit : plain d (slash :: r) = ascii "/oxool" ++ slash :: (d ++ slash :: r) := rfl
        rw [hsplit, pathSegs_append, pathSegs_append, pathSegs_append, List.append_cancel_left_eq,
          List.self_eq_append_left] at hsegs
        have hall : d.all (· == question) = true := by
          rw [List.all_eq_true]
          intro b hb
          have hdel := delimiters_of_pathSegs_nil hsegs b hb
          rw [isDelimiter, Bool.or_eq_true, beq_iff_eq] at hdel
          rcases hdel with rfl | hq
          · exact absurd hb hd
          · exact hq
        rw [hall] at hnot
        exact absurd hnot.1 (by simp)
      · exact fun h => h.2

end Hexified

/-- Query parameters of a URI without a query, and decoding of text without an escape. -/
def noQuery (uri : Bytes) : Option (List (Bytes × Bytes)) :=
  if question ∈ uri then none else some []

def noEscape (s : Bytes) : Option Bytes := if (37 : UInt8) ∈ s then none else some s

theorem agree_hexified_zero_x :
    Agree (RequestDetails.ofURI noQuery noEscape (hexified (ascii "0xab") (ascii "/ws")))
      (RequestDetails.ofURI noQuery noEscape (plain (ascii "0xab") (ascii "/ws"))) :=
  (@agree_hexified_iff noQuery noEscape (ascii "0xab") (ascii "/ws") (by decide) (by decide)).mpr
    ⟨by decide, by decide +kernel⟩

theorem not_agree_hexified :
    ¬ Agree (RequestDetails.ofURI noQuery noEscape (hexified (ascii "hello.odt") (ascii "/ws/open/open/0")))
      (RequestDetails.ofURI noQuery noEscape (plain (ascii "hello.odt") (ascii "/ws/open/open/0"))) := by
  decide +kernel

end Oxool.Wsd
