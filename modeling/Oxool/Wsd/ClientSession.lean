import Oxool.Tile.TileText

/-!
# What a client session may do (`wsd/ClientSession.cpp`, `common/Session.cpp`)

A session has three flags. `isWritable` is for the storage, `isReadOnly` and `isAllowChangeComments` are
for the document. `filterMessage` reads the last two, and the properties of the WOPI host, to tell
whether a message of the client may get to the kit.

The options of the client's `load` message go through `parseDocOptions`, which the kit uses for the
message it gets from the broker. It has a `readonly` among them, and writes the flag.
-/

set_option autoImplicit false

namespace Oxool.Wsd.Input

open Oxool.Http (Bytes ascii)
open Oxool.Protocol

/-! ## Tokens -/

/-- `StringVector::tokenize` of a `std::string`, which may start with NUL. -/
def words (s : Bytes) (delimiter : UInt8) : List Bytes :=
  pieces (· == delimiter) [] (s.takeWhile (· != Http.lf))

/-- `StringVector::operator[]`. -/
def token (tokens : List Bytes) (index : Nat) : Bytes := tokens[index]?.getD []

/-- `StringVector::equals`. -/
def equals (tokens : List Bytes) (index : Nat) (name : String) : Bool :=
  tokens[index]? == some (ascii name)

/-- A message that the session takes apart has the same words for the filter. -/
theorem words_of_tokenize {s : Bytes} {delimiter : UInt8} (h : tokenize s delimiter ≠ []) :
    words s delimiter = tokenize s delimiter := by
  rw [tokenize] at h ⊢
  split at h
  · exact absurd rfl h
  · rename_i h0
    rw [if_neg h0]
    rfl

/-- The words are those of the first line. -/
theorem words_firstLine (s : Bytes) (delimiter : UInt8) :
    words (s.takeWhile (· != Http.lf)) delimiter = words s delimiter := by
  rw [words, List.takeWhile_idem, words]

/-! ## The session -/

/-- The properties of the WOPI host that are read here. -/
structure WopiFileInfo where
  disablePrint : Bool
  disableExport : Bool
  disableCopy : Bool
  enableOwnerTermination : Bool

structure ClientSession where
  docURL : Bytes
  isWritable : Bool
  isReadOnly : Bool
  isAllowChangeComments : Bool
  isLockFailed : Bool
  isDocumentOwner : Bool
  wopiFileInfo : Option WopiFileInfo

namespace ClientSession

variable (s : ClientSession)

def wopi (property : WopiFileInfo → Bool) : Bool := s.wopiFileInfo.any property

/-- Read-only without comment permission. -/
def IsViewer : Prop := s.isReadOnly = true ∧ s.isAllowChangeComments = false

instance : Decidable s.IsViewer := inferInstanceAs (Decidable (_ ∧ _))

/-! ## The filter -/

/-- The fields of `mouse`: a simple movement, or a button. -/
def mouseAllowed (tokens : List Bytes) : Bool :=
  let fields := do
    let type ← tokenString (ascii "type") (token tokens 1)
    let _ ← tokenInteger (ascii "x") (token tokens 2)
    let _ ← tokenInteger (ascii "y") (token tokens 3)
    let _ ← tokenInteger (ascii "count") (token tokens 4)
    let buttons ← tokenInteger (ascii "buttons") (token tokens 5)
    let modifier ← tokenInteger (ascii "modifier") (token tokens 6)
    some (type, buttons, modifier)
  match fields with
  | none => false
  | some (type, buttons, modifier) =>
    (type == ascii "move" && buttons == 0 && modifier == 0) || type == ascii "buttondown" ||
      type == ascii "buttonup"

def filterMessage (message : Bytes) : Bool :=
  let tokens := words message blank
  if equals tokens 0 "downloadas" then
    -- without a value of `id` it is refused
    match tokens[2]?.bind (tokenString (ascii "id")) with
    | none => false
    | some id =>
      if id = ascii "print" ∧ s.wopi (·.disablePrint) then false
      else if id = ascii "export" ∧ s.wopi (·.disableExport) then false
      else true
  else if equals tokens 0 "gettextselection" then !s.wopi (·.disableCopy)
  else if s.isReadOnly then
    if equals tokens 0 "userinactive" || equals tokens 0 "useractive" || equals tokens 0 "saveas" ||
        equals tokens 0 "rendersearchresult" || equals tokens 0 "exportas" then true
    else if equals tokens 0 "uno" then
      equals tokens 1 ".uno:ExecuteSearch" || equals tokens 1 ".uno:Signature" ||
        equals tokens 1 ".uno:ExportToPDF" || equals tokens 1 ".uno:ExportDirectToPDF" ||
        equals tokens 1 ".uno:ExportToEPUB" || equals tokens 1 ".uno:ChangeTheme" ||
        (s.isAllowChangeComments && (equals tokens 1 ".uno:EditAnnotation" ||
          equals tokens 1 ".uno:InsertAnnotation" || equals tokens 1 ".uno:DeleteAnnotation"))
    else if equals tokens 0 "mouse" then mouseAllowed tokens
    else false
  else true

/-- The filter reads the words. -/
theorem filterMessage_congr {message message' : Bytes}
    (h : words message blank = words message' blank) :
    s.filterMessage message = s.filterMessage message' := by
  unfold filterMessage
  rw [h]

/-- What a viewer may send. The first two are up to the WOPI host. -/
def filteredNames : List String :=
  ["downloadas", "gettextselection", "userinactive", "useractive", "saveas", "rendersearchresult",
    "exportas", "uno", "mouse"]

/-- Of a viewer, everything else is refused. -/
theorem filterMessage_of_not_mem {message : Bytes} (h : s.isReadOnly = true)
    (hname : ∀ name ∈ filteredNames, (words message blank)[0]? ≠ some (ascii name)) :
    s.filterMessage message = false := by
  have hnot : ∀ name ∈ filteredNames, equals (words message blank) 0 name = false := fun name hmem =>
    beq_false_of_ne (hname name hmem)
  unfold filterMessage
  simp [h, hnot "downloadas" (by simp [filteredNames]), hnot "gettextselection" (by simp [filteredNames]),
    hnot "userinactive" (by simp [filteredNames]), hnot "useractive" (by simp [filteredNames]),
    hnot "saveas" (by simp [filteredNames]), hnot "rendersearchresult" (by simp [filteredNames]),
    hnot "exportas" (by simp [filteredNames]), hnot "uno" (by simp [filteredNames]),
    hnot "mouse" (by simp [filteredNames])]

end ClientSession

/-! ## The options of a load message -/

/-- What reading an option can throw. -/
inductive Thrown where
  | syntaxException
  | invalidArgument
deriving DecidableEq

/-- `Poco::URI::decode`, which throws on a broken escape, and whether `std::stod` finds a number. -/
structure Decoders where
  uriDecode : Bytes → Option Bytes
  stod : Bytes → Bool

/-- The options that are decoded. -/
def decodedOptions : List String :=
  ["authorid", "xauthorid", "author", "xauthor", "authorextrainfo", "authorprivateinfo",
    "watermarkText"]

/-- Reading the option throws. -/
def optionThrows (decoders : Decoders) (option : Bytes × Bytes) : Option Thrown :=
  if option.1 ∈ decodedOptions.map ascii then
    if (decoders.uriDecode option.2).isNone then some .syntaxException else none
  else if option.1 = ascii "watermarkOpacity" then
    if decoders.stod option.2 then none else some .invalidArgument
  else none

namespace ClientSession

/-- One option. Of what the others set nothing is read here. -/
def setOption (s : ClientSession) (option : Bytes × Bytes) : ClientSession :=
  if option.1 = ascii "url" then { s with docURL := option.2 }
  else if option.1 = ascii "readonly" then { s with isReadOnly := option.2 != ascii "0" }
  else s

def setOptions (decoders : Decoders) : List (Bytes × Bytes) → ClientSession →
    ClientSession × Option Thrown
  | [], s => (s, none)
  | option :: options, s =>
    match optionThrows decoders option with
    | some thrown => (s, some thrown)
    | none => setOptions decoders options (s.setOption option)

/-- The pairs among the tokens, without the command and a `part` that stands before others. -/
def docOptions (tokens : List Bytes) : List (Bytes × Bytes) :=
  let offset := if 2 < tokens.length ∧ (ascii "part=").isPrefixOf (token tokens 1) then 2 else 1
  (tokens.drop offset).filterMap parseNameValuePair

/-- `Session::parseDocOptions`. What was read before an exception stays. -/
def parseDocOptions (decoders : Decoders) (tokens : List Bytes) (s : ClientSession) :
    ClientSession × Option Thrown := s.setOptions decoders (docOptions tokens)

/-- The values for `readonly` that are read. -/
def readOnlyValues (decoders : Decoders) (options : List (Bytes × Bytes)) : List Bytes :=
  (options.takeWhile fun option => (optionThrows decoders option).isNone).filterMap
    fun option => if option.1 = ascii "readonly" then some option.2 else none

theorem isReadOnly_setOption (s : ClientSession) (option : Bytes × Bytes) :
    (s.setOption option).isReadOnly =
      if option.1 = ascii "readonly" then option.2 != ascii "0" else s.isReadOnly := by
  rw [setOption]
  split
  · rename_i hurl
    have hne : ascii "url" ≠ ascii "readonly" := by decide
    rw [hurl, if_neg hne]
  · split
    · rfl
    · rfl

/-- **The last `readonly` counts.** -/
theorem isReadOnly_setOptions (decoders : Decoders) (options : List (Bytes × Bytes))
    (s : ClientSession) : (s.setOptions decoders options).1.isReadOnly =
      ((readOnlyValues decoders options).getLast?.map (· != ascii "0")).getD s.isReadOnly := by
  induction options generalizing s with
  | nil => rfl
  | cons option options ih =>
    rw [setOptions, readOnlyValues]
    cases hthrows : optionThrows decoders option with
    | some thrown =>
      rw [List.takeWhile_cons_of_neg (by simp [hthrows])]
      rfl
    | none =>
      rw [List.takeWhile_cons_of_pos (by simp [hthrows]), List.filterMap_cons]
      dsimp only
      rw [ih, isReadOnly_setOption]
      by_cases hname : option.1 = ascii "readonly"
      · rw [if_pos hname, if_pos hname, List.getLast?_cons]
        cases hlast : (readOnlyValues decoders options).getLast? with
        | none =>
          rw [readOnlyValues] at hlast
          simp [hlast]
        | some value =>
          rw [readOnlyValues] at hlast
          simp [hlast]
      · rw [if_neg hname, if_neg hname]
        rfl

/-- The options set nothing else that is read here. -/
theorem setOptions_eq (decoders : Decoders) (options : List (Bytes × Bytes)) (s : ClientSession) :
    ∃ docURL isReadOnly, (s.setOptions decoders options).1 =
      { s with docURL := docURL, isReadOnly := isReadOnly } := by
  induction options generalizing s with
  | nil => exact ⟨s.docURL, s.isReadOnly, rfl⟩
  | cons option options ih =>
    rw [setOptions]
    cases optionThrows decoders option with
    | some thrown => exact ⟨s.docURL, s.isReadOnly, rfl⟩
    | none =>
      obtain ⟨docURL, isReadOnly, heq⟩ := ih (s.setOption option)
      refine ⟨docURL, isReadOnly, heq.trans ?_⟩
      rw [setOption]
      split
      · rfl
      · split
        · rfl
        · rfl

end ClientSession

end Oxool.Wsd.Input
