import Mathlib.Data.List.Perm.Lattice
import Oxool.Common.Protocol
import Oxool.Lib.Assoc
import Oxool.Lib.Run
import Oxool.Lib.Trim
import Oxool.Wsd.RequestDetails

/-!
# The quarantine (`wsd/QuarantineUtil.cpp`)

Versions of a document that could not be uploaded are kept in one directory for all documents, as
`<seconds>_<pid>_<docKey>_<docName>`. `QuarantineMap` lists the paths of each document's versions,
the newest last; it is built from the names in the directory when the server starts, and kept up to
date from then on.

Files leave the directory in three places: the clean-up of a document's old versions and the removal
of a document know the map, the one that makes space does not. The order of the map after a start
is that of the sorted listing. The comparison it is sorted by takes the two members of
`Util::u64FromString` for each other, and asks whether the numbers are not zero and which of them
could be read, so that all names this code ever gives are equal to it. `std::sort` may then leave any
order; which one it is, is part of the action here.

A file of the directory carries the document and the moment it was quarantined for. The code reads
neither, but both from the name.
-/

set_option autoImplicit false

namespace Oxool.Wsd.Quarantine

open Oxool.Http (Bytes ascii isDigit)
open Oxool.Protocol

def delimiter : UInt8 := 95

/-! ## Names -/

def ulongMax : Nat := 2 ^ 64 - 1

/-- `strtoul` to base 10: the value and whether it was out of range, or `none` where no digit is
found. -/
def strtoul (s : Bytes) : Option (Nat × Bool) :=
  let number := splitSign (s.dropWhile isSpace)
  let digits := number.2.takeWhile isDigit
  let value := digitsValue digits
  if digits = [] then none
  else if ulongMax < value then some (ulongMax, true)
  else some (if number.1 then (2 ^ 64 - value) % 2 ^ 64 else value, false)

/-- `Util::u64FromString`. -/
def u64FromString (input : Bytes) : Nat × Bool :=
  match strtoul input with
  | none => (0, false)
  | some (value, outOfRange) => (value, !outOfRange)

/-- What stands before the first delimiter, as a number. -/
def timestampOf (file : Bytes) : Nat × Bool :=
  u64FromString (file.takeWhile (· != delimiter))

/-- The comparison of both sorts. -/
def less (lhs rhs : Bytes) : Bool :=
  (timestampOf lhs).1 != 0 && (timestampOf rhs).1 != 0 &&
    (!(timestampOf lhs).2 && (timestampOf rhs).2)

/-- Where the tokens start, from place `i` on. -/
def tokenStarts : Nat → Bool → Bytes → List Nat
  | _, _, [] => []
  | i, inToken, b :: bs =>
    if b = delimiter then tokenStarts (i + 1) false bs
    else if inToken then tokenStarts (i + 1) true bs
    else i :: tokenStarts (i + 1) true bs

/-- The indices of `StringVector::tokenize`. -/
def tokenIndices (s : Bytes) : List Nat :=
  if s.head? = some 0 then [] else tokenStarts 0 false (s.takeWhile (· != Http.lf))

/-- The document key that `initialize` reads in a name: from the third token up to the delimiter of
the last one, or to the end where these are the same and the length wraps around. -/
def docKeyOf (file : Bytes) : Option Bytes :=
  match (tokenIndices file)[2]?, (tokenIndices file).getLast? with
  | some i, some j => some (substr file i (if j = i then none else some (j - i - 1)))
  | _, _ => none

/-! ## The state -/

/-- A file of the directory, with the document and the second it was quarantined for. -/
structure File where
  name : Bytes
  content : Bytes
  docKey : Bytes
  time : Nat
deriving DecidableEq

def File.size (f : File) : Nat := f.content.length

/-- What `quarantine_files` says in the configuration. -/
structure Config where
  limitDirSizeMb : Nat
  expiryMin : Nat
  maxVersionsToMaintain : Nat

namespace Config

def maxSizeBytes (c : Config) : Nat := c.limitDirSizeMb * 1024 * 1024 % 2 ^ 64
def maxAgeSecs (c : Config) : Nat := c.expiryMin * 60 % 2 ^ 64
def maxVersions (c : Config) : Nat := max c.maxVersionsToMaintain 1

end Config

/-- The members of a `Quarantine`. The document name is the encoded one. -/
structure Document where
  docKey : Bytes
  docName : Bytes
  pid : Int

/-- The name of a version of the document. -/
def Document.fileName (d : Document) (seconds : Nat) : Bytes :=
  decimal seconds ++ delimiter :: (decimal d.pid ++ delimiter :: (d.docKey ++ delimiter :: d.docName))

/-- The directory, and the variables of the process. -/
structure State where
  quarantinePath : Bytes
  config : Config
  dir : List File
  quarantineMap : List (Bytes × List Bytes)

namespace State

variable (s : State)

def fullpath (f : File) : Bytes := s.quarantinePath ++ f.name

/-- `QuarantineMap[docKey]`. -/
def fileList (docKey : Bytes) : List Bytes := (s.quarantineMap.lookup docKey).getD []

/-- `FileUtil::removeFile`, of a path in the directory. -/
def removeFile (path : Bytes) : State :=
  { s with dir := s.dir.filter fun f => s.fullpath f ≠ path }

/-- What `FileUtil::Stat` finds at a path. -/
def stat (path : Bytes) : Option File := s.dir.find? fun f => s.fullpath f = path

def quarantineSize : Nat := (s.dir.map File.size).sum

/-! ## The operations -/

/-- The loop of `makeQuarantineSpace`, over names. -/
def purge (now : Nat) : List Bytes → Nat → State → State
  | [], _, s => s
  | file :: files, currentSize, s =>
    let timestamp := timestampOf file
    if s.config.maxSizeBytes ≤ currentSize ∨ timestamp.2 = false ∨
        (timestamp.1 < now ∧ s.config.maxAgeSecs < now - timestamp.1) then
      let path := s.quarantinePath ++ file
      purge now files (currentSize - ((s.stat path).map File.size).getD 0) (s.removeFile path)
    else purge now files currentSize s

/-- `makeQuarantineSpace`, where the sort leaves the files in the order given. -/
def makeQuarantineSpace (now : Nat) (files : List File) : State :=
  purge now (files.map File.name) s.quarantineSize s

def clearOldQuarantineVersions (docKey : Bytes) : State :=
  let container := s.fileList docKey
  let excess := container.length - s.config.maxVersions
  let cleared := (container.take excess).foldl removeFile s
  { cleared with quarantineMap := Assoc.put docKey (container.drop excess) s.quarantineMap }

/-- The last version listed is the same as what is to be quarantined. -/
def isQuarantined (docKey : Bytes) (source : Option Bytes) : Bool :=
  match (s.fileList docKey).getLast? with
  | none => false
  | some lastFile => source.isSome && (s.stat lastFile).map File.content == source

/-- `linkOrCopyFile` where it succeeds: a file of this name is overwritten. -/
def link (file : File) : State :=
  { s with dir := (s.dir.filter fun f => f.name ≠ file.name) ++ [file] }

/-- What the clock shows when the name is made, and at the two times space is made. -/
structure Clock where
  named : Nat
  first : Nat
  second : Nat

/-- The new version is in its place, on the list, and the old ones are gone. -/
def addVersion (d : Document) (content : Bytes) (named : Nat) : State :=
  let file : File := ⟨d.fileName named, content, d.docKey, named⟩
  let linked := s.link file
  let listed := { linked with
    quarantineMap :=
      Assoc.put d.docKey (s.fileList d.docKey ++ [s.fullpath file]) linked.quarantineMap }
  listed.clearOldQuarantineVersions d.docKey

/-- `quarantineFile`, for a document whose file has the content given, if it is there and can be
read. Where neither a link nor a copy can be made, what is left at the path is unlinked. -/
def quarantineFile (d : Document) (source : Option Bytes) (fails : Bool) (clock : Clock)
    (files files' : List File) : State :=
  if s.isQuarantined d.docKey source then s
  else
    let spaced := s.makeQuarantineSpace clock.first files
    match source, fails with
    | some content, false =>
      (spaced.addVersion d content clock.named).makeQuarantineSpace clock.second files'
    | _, _ =>
      let unlinked := spaced.removeFile (s.quarantinePath ++ d.fileName clock.named)
      { unlinked with
        quarantineMap := Assoc.put d.docKey (s.fileList d.docKey) unlinked.quarantineMap }

def lastQuarantinedFilePath (docKey : Bytes) : Bytes := (s.fileList docKey).getLast?.getD []

def removeQuarantinedFiles (docKey : Bytes) : State :=
  let removed := (s.fileList docKey).foldl removeFile s
  { removed with quarantineMap := s.quarantineMap.filter fun e => e.1 ≠ docKey }

/-- One file in the loop of `initialize`. -/
def enlist (path : Bytes) (map : List (Bytes × List Bytes)) (file : Bytes) :
    List (Bytes × List Bytes) :=
  match docKeyOf file with
  | none => map
  | some docKey => Assoc.put docKey ((map.lookup docKey).getD [] ++ [path ++ file]) map

/-- `initialize`, by a new process. -/
def initializeQuarantine (config : Config) (files : List File) : State :=
  { s with
    config := config
    quarantineMap := (files.map File.name).foldl (enlist s.quarantinePath) [] }

/-! ## Runs -/

/-- The quarantined files of a document. -/
def filesOf (docKey : Bytes) : List File := s.dir.filter fun f => f.docKey = docKey

end State

inductive Action
  | quarantineFile (d : Document) (source : Option Bytes) (fails : Bool) (clock : State.Clock)
      (files files' : List File)
  | removeQuarantinedFiles (docKey : Bytes)
  | restart (config : Config) (files : List File)

namespace State

def act (s : State) : Action → State
  | .quarantineFile d source fails clock files files' =>
    s.quarantineFile d source fails clock files files'
  | .removeQuarantinedFiles docKey => s.removeQuarantinedFiles docKey
  | .restart config files => s.initializeQuarantine config files

def init (quarantinePath : Bytes) (config : Config) : State := ⟨quarantinePath, config, [], []⟩

/-- The files are those of the directory, in an order that the sort can leave them in. -/
def IsListing (s : State) (files : List File) : Prop :=
  files.Perm s.dir ∧ files.Pairwise fun f g => less g.name f.name = false

instance (s : State) (files : List File) : Decidable (s.IsListing files) :=
  inferInstanceAs (Decidable (_ ∧ _))

/-- The listings of an action are those of the directory at the time, and its clock fits into a
`size_t`. -/
def Possible (s : State) : Action → Prop
  | .quarantineFile d source fails clock files files' =>
    clock.named < 2 ^ 64 ∧ s.IsListing files ∧ ∀ content ∈ source, fails = false →
      ((s.makeQuarantineSpace clock.first files).addVersion d content clock.named).IsListing files'
  | .removeQuarantinedFiles _ => True
  | .restart _ files => s.IsListing files

instance (s : State) : (a : Action) → Decidable (s.Possible a)
  | .quarantineFile .. => inferInstanceAs (Decidable (_ ∧ _ ∧ ∀ content ∈ _, _ → _))
  | .removeQuarantinedFiles _ => .isTrue trivial
  | .restart _ files => inferInstanceAs (Decidable (s.IsListing files))

/-- The list of the document has the paths of its files, each once and in the order of their times,
and not too many of them. -/
def Listed (s : State) (docKey : Bytes) : Prop :=
  ∃ files : List File, files.Perm (s.filesOf docKey) ∧ (files.Pairwise fun f g => f.time < g.time) ∧
    s.fileList docKey = files.map s.fullpath ∧ files.length ≤ s.config.maxVersions

/-- The path is that of the newest file of the document, or empty where there is none. -/
def IsNewest (s : State) (docKey path : Bytes) : Prop :=
  (s.filesOf docKey = [] ∧ path = []) ∨
    ∃ f ∈ s.filesOf docKey, path = s.fullpath f ∧ ∀ g ∈ s.filesOf docKey, g.time ≤ f.time

instance (s : State) (docKey path : Bytes) : Decidable (s.IsNewest docKey path) :=
  inferInstanceAs (Decidable (_ ∨ _))

def Bookkeeping (s : State) : Prop :=
  ∀ docKey, s.Listed docKey ∧ s.IsNewest docKey (s.lastQuarantinedFilePath docKey)

/-! ## When the map stays right -/

/-- Nothing in the directory is purged: it is smaller than allowed, and no file is too old. -/
def Roomy (s : State) (dir : List File) (now : Nat) : Prop :=
  ∀ f ∈ dir, (dir.map File.size).sum < s.config.maxSizeBytes ∧ now ≤ f.time + s.config.maxAgeSecs

instance (s : State) (dir : List File) (now : Nat) : Decidable (s.Roomy dir now) :=
  inferInstanceAs (Decidable (∀ f ∈ dir, _))

/-- The directory without the versions of the document that are too many once there is a new one. -/
def retained (s : State) (docKey : Bytes) : List File :=
  let paths := s.fileList docKey
  s.dir.filter fun f => s.fullpath f ∉ paths.take (paths.length + 1 - s.config.maxVersions)

end State

/-- The parts of a name can be told from each other. -/
def Document.WellFormed (d : Document) : Prop :=
  d.docKey ≠ [] ∧ d.docKey.head? ≠ some delimiter ∧ Http.lf ∉ d.docKey ∧ IsToken delimiter d.docName

instance (d : Document) : Decidable d.WellFormed := inferInstanceAs (Decidable (_ ∧ _ ∧ _ ∧ _))

namespace State

/-- Of a new version: its name can be read back, the clock has moved on since the last one, and
space is made neither before it is there nor after. Of a restart: the listing has the files of every
document in the order of their times, and no document has more versions than are now allowed. -/
def Harmless (s : State) : Action → Prop
  | .quarantineFile d source fails clock _ _ =>
    s.isQuarantined d.docKey source = true ∨
      (d.WellFormed ∧ (∀ f ∈ s.filesOf d.docKey, f.time < clock.named) ∧ s.Roomy s.dir clock.first ∧
        ∀ content ∈ source, fails = false →
          s.Roomy (s.retained d.docKey ++ [⟨d.fileName clock.named, content, d.docKey, clock.named⟩])
            clock.second)
  | .removeQuarantinedFiles _ => True
  | .restart config files =>
    (files.Pairwise fun f g => f.docKey = g.docKey → f.time < g.time) ∧
      ∀ f ∈ s.dir, (s.filesOf f.docKey).length ≤ config.maxVersions

instance (s : State) : (a : Action) → Decidable (s.Harmless a)
  | .quarantineFile .. => inferInstanceAs (Decidable (_ ∨ (_ ∧ (∀ f ∈ _, _) ∧ _ ∧ ∀ content ∈ _, _)))
  | .removeQuarantinedFiles _ => .isTrue trivial
  | .restart .. => inferInstanceAs (Decidable (_ ∧ ∀ f ∈ _, _))

end State

/-! ## What is read in a name -/

theorem tokenStarts_append (i : Nat) (inToken : Bool) (l m : Bytes) :
    tokenStarts i inToken (l ++ delimiter :: m) =
      tokenStarts i inToken l ++ tokenStarts (i + l.length + 1) false m := by
  induction l generalizing i inToken with
  | nil => simp [tokenStarts]
  | cons b l ih =>
    have hplace : i + (b :: l).length + 1 = i + 1 + l.length + 1 := by
      rw [List.length_cons]
      omega
    rw [List.cons_append, tokenStarts, tokenStarts, hplace, ih, ih]
    split
    · rfl
    · split <;> rfl

theorem tokenStarts_inToken (i : Nat) {t : Bytes} (ht : ∀ b ∈ t, b ≠ delimiter) :
    tokenStarts i true t = [] := by
  induction t generalizing i with
  | nil => rfl
  | cons b t ih =>
    rw [tokenStarts, if_neg (ht b List.mem_cons_self), if_pos rfl]
    exact ih (i + 1) fun c hc => ht c (List.mem_cons_of_mem _ hc)

theorem tokenStarts_token (i : Nat) {t : Bytes} (ht : IsToken delimiter t) :
    tokenStarts i false t = [i] := by
  cases t with
  | nil => exact absurd rfl ht.1
  | cons b t =>
    rw [tokenStarts, if_neg (ht.2 b List.mem_cons_self).1, if_neg (by decide),
      tokenStarts_inToken _ fun c hc => (ht.2 c (List.mem_cons_of_mem _ hc)).1]

/-- Text that does not start with a delimiter starts a token. -/
theorem tokenStarts_head (i : Nat) {t : Bytes} (hne : t ≠ []) (ht : t.head? ≠ some delimiter) :
    ∃ more, tokenStarts i false t = i :: more := by
  cases t with
  | nil => exact absurd rfl hne
  | cons b t =>
    have hb : b ≠ delimiter := fun h => ht (by rw [h]; rfl)
    exact ⟨_, by rw [tokenStarts, if_neg hb, if_neg (by decide)]⟩

theorem digit_ne : ∀ b : UInt8, isDigit b = true → b ≠ delimiter ∧ b ≠ Http.lf :=
  @(Http.forall_byte (by decide +kernel))

theorem isToken_decimal (n : Int) : IsToken delimiter (decimal n) := by
  refine ⟨decimal_ne_nil n, fun b hb => ?_⟩
  rcases mem_decimal hb with rfl | hb
  · decide
  · exact digit_ne b hb

theorem strtoul_decimal {n : Nat} (hn : n < 2 ^ 64) : strtoul (decimal n) = some (n, false) := by
  have hsign := splitSign_toString n []
  have hdigits := @takeWhile_toString n [] (by simp)
  rw [List.append_nil] at hsign hdigits
  have hdecimal : decimal (n : Int) = ascii (toString n) := rfl
  have hmax : ¬ ulongMax < n := by
    rw [ulongMax]
    omega
  rw [strtoul, hdecimal, hsign]
  dsimp only
  rw [hdigits, digitsValue_toString, if_neg (toString_ne_nil n), if_neg hmax]
  rfl

theorem timestampOf_fileName (d : Document) {n : Nat} (hn : n < 2 ^ 64) :
    timestampOf (d.fileName n) = (n, true) := by
  have hfirst : (d.fileName n).takeWhile (· != delimiter) = decimal n := by
    rw [Document.fileName, List.takeWhile_append_of_pos, List.takeWhile_cons_of_neg (by simp),
      List.append_nil]
    intro b hb
    exact bne_iff_ne.mpr ((isToken_decimal n).2 b hb).1
  rw [timestampOf, hfirst, u64FromString, strtoul_decimal hn]
  rfl

theorem head?_fileName (d : Document) (n : Nat) : (d.fileName n).head? ≠ some 0 := by
  cases hdecimal : decimal (n : Int) with
  | nil => exact absurd hdecimal (isToken_decimal n).1
  | cons b l =>
    rw [Document.fileName, hdecimal, List.cons_append, List.head?_cons]
    have hb : b ∈ decimal (n : Int) := by
      rw [hdecimal]
      exact List.mem_cons_self
    rcases mem_decimal hb with rfl | hb
    · decide
    · exact fun heq => (digit_plain b hb).2.2.2.2.2.2.1 (Option.some.inj heq)

namespace Document

variable (d : Document) (n : Nat)

/-- The name up to the document key. -/
def beforeKey : Bytes := decimal n ++ delimiter :: (decimal d.pid ++ [delimiter])

theorem fileName_eq : d.fileName n = d.beforeKey n ++ (d.docKey ++ delimiter :: d.docName) := by
  simp [fileName, beforeKey]

theorem drop_fileName :
    (d.fileName n).drop (d.beforeKey n).length = d.docKey ++ delimiter :: d.docName := by
  rw [fileName_eq, List.drop_left]

/-- The tokens of the document key. -/
def keyTokens : List Nat := tokenStarts (d.beforeKey n).length false d.docKey

/-- The tokens of the document's name. -/
def nameTokens : List Nat :=
  tokenStarts ((d.beforeKey n).length + d.docKey.length + 1) false (d.docName.takeWhile (· != Http.lf))

/-- The tokens of a name: two before the document key, those of the key, and those of the document's
name. -/
theorem tokenIndices_fileName_eq (hkey : Http.lf ∉ d.docKey) :
    tokenIndices (d.fileName n) =
      0 :: ((decimal (n : Int)).length + 1) :: (d.keyTokens n ++ d.nameTokens n) := by
  have hn := isToken_decimal n
  have hpid := isToken_decimal d.pid
  have hplain : ∀ b ∈ decimal (n : Int) ++ delimiter :: (decimal d.pid ++ delimiter :: (d.docKey ++ [delimiter])),
      (b != Http.lf) = true := by
    intro b hb
    rw [bne_iff_ne]
    simp only [List.mem_append, List.mem_cons, List.not_mem_nil, or_false] at hb
    rcases hb with hb | rfl | hb | rfl | hb | rfl
    · exact (hn.2 b hb).2
    · decide
    · exact (hpid.2 b hb).2
    · decide
    · exact fun heq => hkey (heq ▸ hb)
    · decide
  have hline : (d.fileName n).takeWhile (· != Http.lf) =
      decimal (n : Int) ++ delimiter :: (decimal d.pid ++ delimiter :: (d.docKey ++ delimiter ::
        d.docName.takeWhile (· != Http.lf))) := by
    have hassoc : d.fileName n = (decimal (n : Int) ++ delimiter :: (decimal d.pid ++
        delimiter :: (d.docKey ++ [delimiter]))) ++ d.docName := by simp [fileName]
    rw [hassoc, List.takeWhile_append_of_pos hplain]
    simp
  rw [tokenIndices, if_neg (head?_fileName d n), hline, tokenStarts_append, tokenStarts_append, tokenStarts_append,
    tokenStarts_token _ hn, tokenStarts_token _ hpid]
  have hlength : 0 + (decimal (n : Int)).length + 1 + (decimal d.pid).length + 1 =
      (d.beforeKey n).length := by
    simp only [beforeKey, List.length_append, List.length_cons, List.length_nil]
    omega
  rw [hlength, keyTokens, nameTokens]
  simp

end Document

/-- **What `initialize` reads in a name** that was made for a document with a readable name. -/
theorem docKeyOf_fileName {d : Document} (h : d.WellFormed) (n : Nat) :
    docKeyOf (d.fileName n) = some d.docKey := by
  obtain ⟨hne, hhead, hlf, hname⟩ := h
  have hline : d.docName.takeWhile (· != Http.lf) = d.docName :=
    takeWhile_bne_of_notMem fun hmem => (hname.2 _ hmem).2 rfl
  -- the key starts with the third token, and the name is the last one
  obtain ⟨more, hmore⟩ := tokenStarts_head (d.beforeKey n).length hne hhead
  have hindices : tokenIndices (d.fileName n) = 0 :: ((decimal (n : Int)).length + 1) ::
      ((d.beforeKey n).length :: more ++ [(d.beforeKey n).length + d.docKey.length + 1]) := by
    rw [d.tokenIndices_fileName_eq n hlf, Document.keyTokens, Document.nameTokens, hline, hmore,
      tokenStarts_token _ hname]
  have hlast : (tokenIndices (d.fileName n)).getLast? =
      some ((d.beforeKey n).length + d.docKey.length + 1) := by
    rw [hindices, ← List.cons_append, ← List.cons_append, List.getLast?_append]
    rfl
  have hthird : (tokenIndices (d.fileName n))[2]? = some (d.beforeKey n).length := by
    rw [hindices]
    rfl
  rw [docKeyOf, hthird, hlast]
  change some (substr _ _ _) = _
  have hlength : (d.beforeKey n).length + d.docKey.length + 1 - (d.beforeKey n).length - 1 =
      d.docKey.length := by omega
  rw [if_neg (by omega), substr, d.drop_fileName n, hlength, List.take_left]

/-! ## What the operations do to the directory -/

/-- The file has a name that gives its document and its time back. -/
def File.WellNamed (f : File) : Prop :=
  docKeyOf f.name = some f.docKey ∧ timestampOf f.name = (f.time, true)

namespace State

theorem purge_of_room {now currentSize : Nat} {files : List Bytes} {s : State}
    (h : ∀ file ∈ files, currentSize < s.config.maxSizeBytes ∧ (timestampOf file).2 = true ∧
      now ≤ (timestampOf file).1 + s.config.maxAgeSecs) :
    purge now files currentSize s = s := by
  induction files with
  | nil => rfl
  | cons file files ih =>
    obtain ⟨hsize, hread, hage⟩ := h file List.mem_cons_self
    rw [purge, if_neg, ih fun g hg => h g (List.mem_cons_of_mem _ hg)]
    rintro (hbig | hunread | ⟨-, hold⟩)
    · omega
    · rw [hread] at hunread
      cases hunread
    · omega

/-- No space is made where there is room. -/
theorem makeQuarantineSpace_of_roomy {s : State} {now : Nat} {files : List File}
    (hnamed : ∀ f ∈ s.dir, f.WellNamed) (hfiles : files.Perm s.dir) (h : s.Roomy s.dir now) :
    s.makeQuarantineSpace now files = s := by
  apply purge_of_room
  intro file hfile
  obtain ⟨f, hf, rfl⟩ := List.mem_map.mp hfile
  have hmem := hfiles.mem_iff.mp hf
  obtain ⟨hsize, hage⟩ := h f hmem
  rw [(hnamed f hmem).2]
  exact ⟨hsize, rfl, hage⟩

theorem foldl_removeFile (paths : List Bytes) (s : State) :
    paths.foldl removeFile s = { s with dir := s.dir.filter fun f => s.fullpath f ∉ paths } := by
  induction paths generalizing s with
  | nil =>
    rw [List.foldl_nil, List.filter_eq_self.mpr (by simp)]
  | cons path paths ih =>
    rw [List.foldl_cons, ih]
    change { s with
      dir := (s.dir.filter fun f => s.fullpath f ≠ path).filter (fun f => s.fullpath f ∉ paths) } = _
    rw [List.filter_filter]
    congr 1
    apply List.filter_congr
    intro f _
    rw [Bool.eq_iff_iff, Bool.and_eq_true, decide_eq_true_eq, decide_eq_true_eq, decide_eq_true_eq,
      List.mem_cons, not_or]
    exact and_comm

/-! ## The invariant -/

/-- No two files have the same name, every name can be read back, and the map is right. -/
structure Inv (s : State) : Prop where
  nodup : (s.dir.map File.name).Nodup
  named : ∀ f ∈ s.dir, f.WellNamed
  listed : ∀ docKey, s.Listed docKey

theorem mem_filesOf {s : State} {docKey : Bytes} {f : File} :
    f ∈ s.filesOf docKey ↔ f ∈ s.dir ∧ f.docKey = docKey := by
  simp [filesOf]

theorem Listed.isNewest {s : State} {docKey : Bytes} (h : s.Listed docKey) :
    s.IsNewest docKey (s.lastQuarantinedFilePath docKey) := by
  obtain ⟨files, hperm, hsorted, hlist, -⟩ := h
  rw [lastQuarantinedFilePath, hlist]
  rcases List.eq_nil_or_concat files with rfl | ⟨older, f, rfl⟩
  · exact .inl ⟨hperm.symm.eq_nil, rfl⟩
  · rw [List.concat_eq_append] at hperm hsorted ⊢
    have hf : f ∈ s.filesOf docKey := hperm.mem_iff.mp (by simp)
    refine .inr ⟨f, hf, by simp, fun g hg => ?_⟩
    rcases List.mem_append.mp (hperm.mem_iff.mpr hg) with hg | hg
    · exact Nat.le_of_lt ((List.pairwise_append.mp hsorted).2.2 g hg f (by simp))
    · rw [List.mem_singleton.mp hg]

theorem Inv.bookkeeping {s : State} (h : s.Inv) : s.Bookkeeping := fun docKey =>
  ⟨h.listed docKey, (h.listed docKey).isNewest⟩

theorem Inv.init (quarantinePath : Bytes) (config : Config) : (init quarantinePath config).Inv where
  nodup := List.nodup_nil
  named := by simp [State.init]
  listed _ := ⟨[], .nil, .nil, rfl, Nat.zero_le _⟩

/-- Files are told apart by their paths. -/
theorem Inv.eq_of_fullpath {s : State} (h : s.Inv) {f g : File} (hf : f ∈ s.dir) (hg : g ∈ s.dir)
    (heq : s.fullpath f = s.fullpath g) : f = g :=
  List.inj_on_of_nodup_map h.nodup hf hg (List.append_cancel_left heq)

/-- The paths on the list of a document are those of its own files. -/
theorem Inv.docKey_of_mem_fileList {s : State} (h : s.Inv) {docKey : Bytes} {f : File}
    (hf : f ∈ s.dir) (hmem : s.fullpath f ∈ s.fileList docKey) : f.docKey = docKey := by
  obtain ⟨files, hperm, -, hlist, -⟩ := h.listed docKey
  rw [hlist] at hmem
  obtain ⟨g, hg, heq⟩ := List.mem_map.mp hmem
  obtain ⟨hgdir, hkey⟩ := mem_filesOf.mp (hperm.mem_iff.mp hg)
  rw [h.eq_of_fullpath hf hgdir heq.symm]
  exact hkey

/-- What the removal of the first paths of a document's list leaves of the directory. -/
theorem Inv.filesOf_removed {s : State} (h : s.Inv) {docKey : Bytes} {files : List File}
    (hperm : files.Perm (s.filesOf docKey)) (hlist : s.fileList docKey = files.map s.fullpath)
    (n : Nat) :
    (files.drop n).Perm
      ((s.dir.filter fun f => s.fullpath f ∉ (s.fileList docKey).take n).filter
        fun f => f.docKey = docKey) := by
  have hnodup : (files.map s.fullpath).Nodup := by
    apply List.Nodup.map_on
    · intro f hf g hg heq
      exact h.eq_of_fullpath (mem_filesOf.mp (hperm.mem_iff.mp hf)).1
        (mem_filesOf.mp (hperm.mem_iff.mp hg)).1 heq
    · exact hperm.nodup_iff.mpr (h.nodup.of_map.filter _)
  have hdrop : files.filter (fun f => s.fullpath f ∉ (files.map s.fullpath).take n) =
      files.drop n := by
    rw [← List.take_append_drop n files, List.map_append] at hnodup
    have hapart := List.disjoint_of_nodup_append hnodup
    have hsplit : files.filter (fun f => s.fullpath f ∉ (files.take n).map s.fullpath) =
        (files.take n).filter (fun f => s.fullpath f ∉ (files.take n).map s.fullpath) ++
        (files.drop n).filter (fun f => s.fullpath f ∉ (files.take n).map s.fullpath) := by
      rw [← List.filter_append, List.take_append_drop]
    rw [← List.map_take, hsplit, List.filter_eq_nil_iff.mpr, List.nil_append,
      List.filter_eq_self.mpr]
    · intro f hf
      rw [decide_eq_true_eq]
      exact fun hmem => hapart hmem (List.mem_map_of_mem hf)
    · intro f hf
      rw [decide_eq_true_eq, not_not]
      exact List.mem_map_of_mem hf
  rw [hlist, ← hdrop, List.filter_filter]
  have hcomm := hperm.filter fun f => s.fullpath f ∉ (files.map s.fullpath).take n
  rw [filesOf, List.filter_filter] at hcomm
  refine hcomm.trans (List.Perm.of_eq (List.filter_congr fun f _ => ?_))
  exact Bool.and_comm _ _

/-- A removal from one document's list leaves the others alone. -/
theorem Inv.filesOf_removed_ne {s : State} (h : s.Inv) {docKey other : Bytes} (hne : other ≠ docKey)
    (n : Nat) :
    (s.dir.filter fun f => s.fullpath f ∉ (s.fileList docKey).take n).filter
        (fun f => f.docKey = other) = s.filesOf other := by
  rw [filesOf, List.filter_filter]
  apply List.filter_congr
  intro f hf
  by_cases hkey : f.docKey = other
  · have hnot : s.fullpath f ∉ (s.fileList docKey).take n := fun hmem =>
      hne (hkey.symm.trans (h.docKey_of_mem_fileList hf (List.mem_of_mem_take hmem)))
    simp [hkey, hnot]
  · simp [hkey]

/-! ## What each step keeps -/

theorem getD_lookup_put (docKey other : Bytes) (paths : List Bytes)
    (map : List (Bytes × List Bytes)) :
    ((Assoc.put docKey paths map).lookup other).getD [] =
      if other = docKey then paths else (map.lookup other).getD [] := by
  rw [Assoc.lookup_put]
  split <;> rfl

theorem clearOldQuarantineVersions_eq (s : State) (docKey : Bytes) :
    s.clearOldQuarantineVersions docKey = { s with
      dir := s.dir.filter fun f => s.fullpath f ∉
        (s.fileList docKey).take ((s.fileList docKey).length - s.config.maxVersions)
      quarantineMap := Assoc.put docKey
        ((s.fileList docKey).drop ((s.fileList docKey).length - s.config.maxVersions))
        s.quarantineMap } := by
  rw [clearOldQuarantineVersions, foldl_removeFile]

/-- A name made now is not in the directory. -/
theorem Inv.notMem_fileName {s : State} (h : s.Inv) {d : Document} (hd : d.WellFormed) {now : Nat}
    (hnow : now < 2 ^ 64) (hnewer : ∀ f ∈ s.filesOf d.docKey, f.time < now) :
    ∀ f ∈ s.dir, f.name ≠ d.fileName now := by
  intro f hf hname
  obtain ⟨hkey, htime⟩ := h.named f hf
  rw [hname, docKeyOf_fileName hd, Option.some.injEq] at hkey
  rw [hname, timestampOf_fileName d hnow, Prod.mk.injEq] at htime
  have := hnewer f (mem_filesOf.mpr ⟨hf, hkey.symm⟩)
  omega

section AddVersion

variable {s : State} {d : Document} {content : Bytes} {now : Nat}

/-- The new version. -/
def version (d : Document) (content : Bytes) (now : Nat) : File :=
  ⟨d.fileName now, content, d.docKey, now⟩

/-- How many versions are too many once there is a new one. -/
def excess (s : State) (docKey : Bytes) : Nat :=
  (s.fileList docKey).length + 1 - s.config.maxVersions

theorem excess_le (s : State) (docKey : Bytes) : s.excess docKey ≤ (s.fileList docKey).length := by
  have : 1 ≤ s.config.maxVersions := Nat.le_max_right _ _
  rw [excess]
  omega

/-- The paths on a list are those of files that are there. -/
theorem Inv.exists_of_mem_fileList (h : s.Inv) {docKey path : Bytes} (hmem : path ∈ s.fileList docKey) :
    ∃ f ∈ s.dir, s.fullpath f = path := by
  obtain ⟨files, hperm, -, hlist, -⟩ := h.listed docKey
  rw [hlist] at hmem
  obtain ⟨f, hf, heq⟩ := List.mem_map.mp hmem
  exact ⟨f, (mem_filesOf.mp (hperm.mem_iff.mp hf)).1, heq⟩

/-- **What a new version does**, where its name is new. -/
theorem Inv.addVersion_eq (h : s.Inv) (hfresh : ∀ f ∈ s.dir, f.name ≠ d.fileName now) :
    s.addVersion d content now = { s with
      dir := s.retained d.docKey ++ [version d content now]
      quarantineMap :=
        Assoc.put d.docKey ((s.fileList d.docKey).drop (s.excess d.docKey) ++
          [s.fullpath (version d content now)])
          (Assoc.put d.docKey (s.fileList d.docKey ++ [s.fullpath (version d content now)])
            s.quarantineMap) } := by
  have hlink : s.link (version d content now) =
      { s with dir := s.dir ++ [version d content now] } := by
    have hall : s.dir.filter (fun f => f.name ≠ (version d content now).name) = s.dir :=
      List.filter_eq_self.mpr fun f hf => decide_eq_true (hfresh f hf)
    rw [link, hall]
  -- the new file is none of those that are removed
  have hkept : s.fullpath (version d content now) ∉ s.fileList d.docKey := by
    intro hmem
    obtain ⟨f, hf, heq⟩ := h.exists_of_mem_fileList hmem
    exact hfresh f hf (List.append_cancel_left heq)
  let listed : State := { s with
    dir := s.dir ++ [version d content now]
    quarantineMap := Assoc.put d.docKey
      (s.fileList d.docKey ++ [s.fullpath (version d content now)]) s.quarantineMap }
  have hadd : s.addVersion d content now = listed.clearOldQuarantineVersions d.docKey := by
    rw [addVersion, ← version, hlink]
  have hlist : listed.fileList d.docKey =
      s.fileList d.docKey ++ [s.fullpath (version d content now)] := by
    rw [fileList, getD_lookup_put, if_pos rfl]
  have hlength : (s.fileList d.docKey ++ [s.fullpath (version d content now)]).length -
      listed.config.maxVersions = s.excess d.docKey := by
    rw [List.length_append, List.length_singleton, excess]
  rw [hadd, clearOldQuarantineVersions_eq, hlist, hlength,
    List.take_append_of_le_length (s.excess_le _), List.drop_append_of_le_length (s.excess_le _)]
  change State.mk _ _ ((s.dir ++ [version d content now]).filter fun f => _) _ = State.mk _ _ _ _
  rw [List.filter_append]
  congr 2
  rw [List.filter_eq_self]
  intro f hf
  obtain rfl := List.mem_singleton.mp hf
  exact decide_eq_true fun hmem => hkept (List.mem_of_mem_take hmem)

/-- The invariant after a new version that is newer than the others. -/
theorem Inv.addVersion (h : s.Inv) (hd : d.WellFormed) (hnow : now < 2 ^ 64)
    (hnewer : ∀ f ∈ s.filesOf d.docKey, f.time < now) : (s.addVersion d content now).Inv := by
  have hfresh := h.notMem_fileName hd hnow hnewer
  rw [h.addVersion_eq hfresh]
  have hsub : ∀ f ∈ s.retained d.docKey, f ∈ s.dir := fun f hf => List.mem_of_mem_filter hf
  refine ⟨?_, ?_, ?_⟩
  · dsimp only
    rw [List.map_append, List.nodup_append]
    refine ⟨(h.nodup.sublist (List.filter_sublist.map _)), by simp, ?_⟩
    rintro name hname other hother rfl
    obtain ⟨f, hf, rfl⟩ := List.mem_map.mp hname
    exact hfresh f (hsub f hf) (List.mem_singleton.mp hother)
  · intro f hf
    rcases List.mem_append.mp hf with hf | hf
    · exact h.named f (hsub f hf)
    · rw [List.mem_singleton.mp hf]
      exact ⟨docKeyOf_fileName hd now, timestampOf_fileName d hnow⟩
  · intro docKey
    by_cases hkey : docKey = d.docKey
    · subst hkey
      obtain ⟨files, hperm, hsorted, hlist, -⟩ := h.listed d.docKey
      have hlength : files.length = (s.fileList d.docKey).length := by rw [hlist, List.length_map]
      have hle := s.excess_le d.docKey
      refine ⟨files.drop (s.excess d.docKey) ++ [version d content now], ?_, ?_, ?_, ?_⟩
      · rw [filesOf]
        dsimp only
        rw [List.filter_append]
        apply List.Perm.append (h.filesOf_removed hperm hlist _)
        simp [version]
      · rw [List.pairwise_append]
        refine ⟨hsorted.sublist (List.drop_sublist _ _), by simp, fun f hf g hg => ?_⟩
        rw [List.mem_singleton.mp hg]
        exact hnewer f (hperm.mem_iff.mp (List.mem_of_mem_drop hf))
      · rw [fileList, getD_lookup_put, if_pos rfl, hlist, List.map_append, List.map_drop]
        rfl
      · rw [List.length_append, List.length_drop, List.length_singleton, hlength, excess]
        change _ ≤ s.config.maxVersions
        rw [excess] at hle
        omega
    · obtain ⟨files, hperm, hsorted, hlist, hmax⟩ := h.listed docKey
      refine ⟨files, ?_, hsorted, ?_, hmax⟩
      · rw [filesOf]
        dsimp only
        rw [List.filter_append, retained, h.filesOf_removed_ne hkey]
        simpa [version, Ne.symm hkey] using hperm
      · rw [fileList, getD_lookup_put, if_neg hkey, getD_lookup_put, if_neg hkey]
        exact hlist

end AddVersion

/-- **A version that is harmless keeps the map right.** -/
theorem Inv.quarantineFile {s : State} (h : s.Inv) {d : Document} {source : Option Bytes}
    {fails : Bool} {clock : Clock} {files files' : List File}
    (hposs : s.Possible (.quarantineFile d source fails clock files files'))
    (hok : s.Harmless (.quarantineFile d source fails clock files files')) :
    (s.quarantineFile d source fails clock files files').Inv := by
  obtain ⟨hclock, ⟨hfiles, -⟩, hfiles'⟩ := hposs
  rw [State.quarantineFile]
  split
  · exact h
  · rename_i hnot
    obtain ⟨hd, hnewer, hroom, hroom'⟩ := hok.resolve_left hnot
    have hfresh := h.notMem_fileName hd hclock hnewer
    rw [makeQuarantineSpace_of_roomy h.named hfiles hroom] at hfiles'
    dsimp only
    rw [makeQuarantineSpace_of_roomy h.named hfiles hroom]
    split
    · rename_i content
      have hadded : (s.addVersion d content clock.named).Inv := h.addVersion hd hclock hnewer
      obtain ⟨hlisting, -⟩ := hfiles' content rfl rfl
      rw [makeQuarantineSpace_of_roomy hadded.named hlisting]
      · exact hadded
      · rw [h.addVersion_eq hfresh]
        exact hroom' content rfl rfl
    · -- there is nothing at the path, so nothing is unlinked
      have hunlink : s.removeFile (s.quarantinePath ++ d.fileName clock.named) = s := by
        have hall : s.dir.filter
            (fun f => s.fullpath f ≠ s.quarantinePath ++ d.fileName clock.named) = s.dir :=
          List.filter_eq_self.mpr fun f hf =>
            decide_eq_true fun heq => hfresh f hf (List.append_cancel_left heq)
        rw [removeFile, hall]
      rw [hunlink]
      refine ⟨h.nodup, h.named, fun docKey => ?_⟩
      obtain ⟨files, hperm, hsorted, hlist, hmax⟩ := h.listed docKey
      refine ⟨files, hperm, hsorted, ?_, hmax⟩
      rw [fileList, getD_lookup_put, ← fileList, ite_eq_right_iff.mpr fun heq => by rw [heq]]
      exact hlist

/-- **The removal of a document keeps the map right.** -/
theorem Inv.removeQuarantinedFiles {s : State} (h : s.Inv) (docKey : Bytes) :
    (s.removeQuarantinedFiles docKey).Inv := by
  rw [State.removeQuarantinedFiles, foldl_removeFile]
  have hsub : ∀ f ∈ s.dir.filter (fun f => s.fullpath f ∉ s.fileList docKey), f ∈ s.dir :=
    fun f hf => List.mem_of_mem_filter hf
  have hall : (s.fileList docKey).take (s.fileList docKey).length = s.fileList docKey :=
    List.take_length
  refine ⟨h.nodup.sublist (List.filter_sublist.map _), fun f hf => h.named f (hsub f hf), ?_⟩
  intro other
  by_cases hkey : other = docKey
  · subst hkey
    obtain ⟨files, hperm, -, hlist, -⟩ := h.listed other
    have hremoved := h.filesOf_removed hperm hlist (s.fileList other).length
    rw [hall, List.drop_eq_nil_of_le (by rw [hlist, List.length_map])] at hremoved
    refine ⟨[], hremoved, .nil, ?_, Nat.zero_le _⟩
    rw [fileList, Assoc.lookup_filter (fun k => decide (k ≠ other))]
    simp
  · obtain ⟨files, hperm, hsorted, hlist, hmax⟩ := h.listed other
    have hkept := h.filesOf_removed_ne hkey (s.fileList docKey).length
    rw [hall] at hkept
    refine ⟨files, ?_, hsorted, ?_, hmax⟩
    · rw [filesOf]
      dsimp only
      rw [hkept]
      exact hperm
    · rw [fileList, Assoc.lookup_filter (fun k => decide (k ≠ docKey)), if_pos (by simpa using hkey)]
      exact hlist

/-- What the loop of `initialize` lists for a document. -/
theorem getD_lookup_enlist (path docKey : Bytes) (files : List Bytes)
    (map : List (Bytes × List Bytes)) :
    ((files.foldl (enlist path) map).lookup docKey).getD [] = (map.lookup docKey).getD [] ++
      (files.filter fun file => docKeyOf file = some docKey).map (path ++ ·) := by
  induction files generalizing map with
  | nil => simp
  | cons file files ih =>
    rw [List.foldl_cons, ih, enlist, List.filter_cons]
    cases hkey : docKeyOf file with
    | none => simp
    | some key =>
      dsimp only
      rw [getD_lookup_put]
      by_cases heq : docKey = key
      · simp [heq]
      · simp [heq, Ne.symm heq]

/-- **A restart on a listing in order builds the map right.** -/
theorem Inv.initializeQuarantine {s : State} (h : s.Inv) {config : Config} {files : List File}
    (hposs : s.Possible (.restart config files)) (hok : s.Harmless (.restart config files)) :
    (s.initializeQuarantine config files).Inv := by
  obtain ⟨hfiles, -⟩ := hposs
  obtain ⟨hsorted, hmax⟩ := hok
  refine ⟨h.nodup, h.named, fun docKey => ?_⟩
  have hperm : (files.filter fun f => f.docKey = docKey).Perm (s.filesOf docKey) := hfiles.filter _
  refine ⟨files.filter fun f => f.docKey = docKey, hperm, ?_, ?_, ?_⟩
  · rw [List.pairwise_filter]
    apply hsorted.imp
    intro f g hlt hf hg
    simp only [decide_eq_true_eq] at hf hg
    exact hlt (hf.trans hg.symm)
  · have hread : (files.map File.name).filter (fun file => docKeyOf file = some docKey) =
        (files.filter fun f => f.docKey = docKey).map File.name := by
      rw [List.filter_map]
      congr 1
      apply List.filter_congr
      intro f hf
      rw [Function.comp_apply, (h.named f (hfiles.mem_iff.mp hf)).1]
      simp
    rw [fileList, State.initializeQuarantine, getD_lookup_enlist, hread, List.map_map]
    rfl
  · rw [hperm.length_eq]
    cases hnone : s.filesOf docKey with
    | nil => exact Nat.zero_le _
    | cons f more =>
      have hf : f ∈ s.filesOf docKey := by
        rw [hnone]
        exact List.mem_cons_self
      obtain ⟨hdir, rfl⟩ := mem_filesOf.mp hf
      rw [← hnone]
      exact hmax f hdir

theorem Inv.act {s : State} {a : Action} (h : s.Inv) (hok : s.Possible a ∧ s.Harmless a) :
    (s.act a).Inv := by
  cases a with
  | quarantineFile d source fails clock files files' => exact h.quarantineFile hok.1 hok.2
  | removeQuarantinedFiles docKey => exact h.removeQuarantinedFiles docKey
  | restart config files => exact h.initializeQuarantine hok.1 hok.2

/-- **The map and the directory agree** in every state of a run in which no space is made, the clock
goes on between two versions of a document, and the listing of a restart is in order. -/
theorem bookkeeping_of_harmless (quarantinePath : Bytes) (config : Config) (as : List Action)
    (h : Run.Meets act (fun s a => s.Possible a ∧ s.Harmless a) (init quarantinePath config) as) :
    Run.Always act Bookkeeping (init quarantinePath config) as :=
  Run.always_of_meets (fun _ => Inv.bookkeeping) (fun _ _ hinv hok => hinv.act hok)
    (Inv.init quarantinePath config) h

/-- A document, two versions of it, and a limit of so many. -/
def letterDocument : Document := ⟨ascii "http%3A%2F%2Fhost%2Fletter", ascii "letter.odt", 42⟩

def letterVersion (text : String) (now : Nat) : File := version letterDocument (ascii text) now

def quarantineLetter (text : String) (now : Nat) (files files' : List File) : Action :=
  .quarantineFile letterDocument (some (ascii text)) false ⟨now, now, now⟩ files files'

def letterConfig (maxVersions : Nat) : Config := ⟨250, 30, maxVersions⟩

/-- Three versions of which two are kept, a restart, and the end of the document. -/
def letterRun : List Action :=
  [quarantineLetter "draft" 1000 [] [letterVersion "draft" 1000],
   quarantineLetter "fair copy" 1060 [letterVersion "draft" 1000]
     [letterVersion "draft" 1000, letterVersion "fair copy" 1060],
   quarantineLetter "errata" 1120 [letterVersion "draft" 1000, letterVersion "fair copy" 1060]
     [letterVersion "fair copy" 1060, letterVersion "errata" 1120],
   .restart (letterConfig 2) [letterVersion "fair copy" 1060, letterVersion "errata" 1120],
   .removeQuarantinedFiles letterDocument.docKey]

theorem bookkeeping_letterRun :
    Run.Always act Bookkeeping (init (ascii "/quarantine/") (letterConfig 2)) letterRun :=
  bookkeeping_of_harmless _ _ _ (by decide +kernel)

/-- Two versions, and a restart at which the directory lists the newer one first. -/
def letterRestart : List Action :=
  [quarantineLetter "draft" 1000 [] [letterVersion "draft" 1000],
   quarantineLetter "fair copy" 1060 [letterVersion "draft" 1000]
     [letterVersion "draft" 1000, letterVersion "fair copy" 1060],
   .restart (letterConfig 2) [letterVersion "fair copy" 1060, letterVersion "draft" 1000]]

/-- **The sort does not sort.** After a restart the older version can be taken for the last one. -/
theorem not_bookkeeping :
    ¬ ∀ (quarantinePath : Bytes) (config : Config) (as : List Action),
      Run.Meets act Possible (init quarantinePath config) as →
        Run.Always act Bookkeeping (init quarantinePath config) as := by
  intro h
  have hlast := (h (ascii "/quarantine/") (letterConfig 2) letterRestart (by decide +kernel)).last
  have hnewest := (hlast letterDocument.docKey).2
  revert hnewest
  decide +kernel

end State

end Oxool.Wsd.Quarantine
