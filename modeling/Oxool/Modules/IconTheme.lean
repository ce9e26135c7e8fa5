import Oxool.Common.Protocol
import Oxool.Lib.Search
import Oxool.Lib.SortedMap
import Oxool.Lib.Trim

/-!
# Icons of a theme (`OxOOL/Private/IconThemeProvider.cpp`, `OxOOL/ZipPackage.cpp`)

A request names a theme and an icon: a command, with a size behind it, or a file. `getResource`
makes the name of an entry in the package of the theme from it, which `links.txt` may send on to
another entry. It takes the parts of the path off a `string_view` and then reads on from `data()`,
which knows of the start of the view and not of its end: the size is still there (`resolves_iff`).
-/

set_option autoImplicit false

namespace Oxool.Modules.IconTheme

open Oxool.Http (Bytes ascii)
open scoped Oxool.SortedMap
open Oxool.Protocol (isSpace)

/-! ## The code -/

def slash : UInt8 := 47

/-- A `std::string_view`: what stands in memory from its start on, and how much of it belongs to the
view. -/
structure StringView where
  data : Bytes
  size : Nat

namespace StringView

def ofString (s : Bytes) : StringView := ⟨s, s.length⟩

def text (view : StringView) : Bytes := view.data.take view.size

/-- `data()`, read as a string of C. -/
def cStr (view : StringView) : Bytes := view.data.takeWhile (· != 0)

def removePrefix (view : StringView) (n : Nat) : StringView := ⟨view.data.drop n, view.size - n⟩

def removeSuffix (view : StringView) (n : Nat) : StringView := ⟨view.data, view.size - n⟩

end StringView

/-- A zip file: its entries, files or not, in the order of their names. -/
structure ZipPackage where
  ready : Bool
  entries : SortedMap Bytes (Bool × Bytes)

/-- `ZipPackage::getContentStream` and `getContent`. -/
def ZipPackage.getContent (package : ZipPackage) (zipFile : Bytes) : Option Bytes :=
  if package.ready ∧ zipFile ≠ [] then
    match package.entries.get? (if zipFile.head? = some slash then zipFile.drop 1 else zipFile) with
    | some (isFile, content) => if isFile then some content else none
    | none => none
  else none

inductive IconType where
  | svg
  | png
  deriving DecidableEq

structure Info where
  name : Bytes
  readableName : Bytes
  package : ZipPackage
  type : IconType
  linksMap : SortedMap Bytes Bytes

inductive Json where
  | string (s : Bytes)
  | array (elements : List Bytes)
  | object (members : List (Bytes × Json))

/-- What is made of a `Poco::Path`: `parent().toString()`, `getBaseName()` and `getExtension()`. -/
structure PathParts where
  dirName : Bytes
  baseName : Bytes
  extName : Bytes

/-- `Poco::StringTokenizer` (which trims its tokens and leaves out the empty ones), `Poco::Path`, the file system
and `HttpHelper`. -/
structure Outside where
  stringTokenizer : Bytes → (separator : UInt8) → List Bytes
  path : Bytes → PathParts
  /-- The path of an image of the browser, or of the dark ones. -/
  onlinePath : (dark : Bool) → Bytes → Bytes
  brandPath : Bytes → Bytes
  fileExists : Bytes → Bool
  getFileContent : Bytes → Option (Bytes × Bytes)
  stringify : Json → Bytes
  getMimeType : Bytes → Bytes

/-- The loop over the lines of `links.txt`. -/
def readLinks (outside : Outside) (linksTxt : Bytes) : SortedMap Bytes Bytes :=
  (outside.stringTokenizer linksTxt Http.lf).foldl
    (fun linksMap token =>
      match outside.stringTokenizer token blank with
      | [link, target] => if (ascii "cmd/").isPrefixOf link then linksMap.set link target else linksMap
      | _ => linksMap)
    .empty

/-- `setIconThem` of `IconTheme::initialize`. -/
def setIconThem (outside : Outside) (name readableName : Bytes) (package : ZipPackage) : Info where
  name := name
  readableName := readableName
  package := package
  type := if (search (ascii "svg") name).isSome then .svg else .png
  linksMap := ((package.getContent (ascii "links.txt")).map (readLinks outside)).getD .empty

/-- The themes, the light one and the dark one, and the files beside them. -/
structure State where
  maInfoMap : (dark : Bool) → Option Info
  maOnlineFiles : (dark : Bool) → List Bytes

/-- The resource and its type, if there is one, and the name it was looked up by in the package. -/
structure Answer where
  lookedUp : Option Bytes := none
  resource : Option (Bytes × Bytes)

inductive Size where
  | small
  | medium
  | large
  deriving DecidableEq

def Size.sizePrefix : Size → Bytes
  | .small => ascii "sc_"
  | .medium => ascii "lc_"
  | .large => ascii "32/"

/-- How a request names a size. -/
def Size.suffix : Size → Bytes
  | .small => []
  | .medium => ascii "/m"
  | .large => ascii "/l"

/-- `tolower`, of a byte. -/
def tolower (b : UInt8) : UInt8 := if 65 ≤ b ∧ b ≤ 90 then b + 32 else b

def IconType.extension : IconType → Bytes
  | .svg => ascii ".svg"
  | .png => ascii ".png"

/-- The extension of the entry, of the one that was asked for. -/
def extension (type : IconType) (extName : Bytes) : Bytes :=
  if extName = ascii "svg" ∨ extName = ascii "png" ∨ extName = [] then type.extension else ascii "." ++ extName

def resolve (linksMap : SortedMap Bytes Bytes) (realName : Bytes) : Bytes :=
  (linksMap.get? realName).getD realName

/-- The size of a command's icon, and the view without it. -/
def commandSize (path : StringView) : Size × StringView :=
  if 2 < path.size ∧ path.text[path.size - 2]? = some slash then
    (if path.text[path.size - 1]? = some 109 then .medium
      else if path.text[path.size - 1]? = some 108 then .large
      else .small, path.removeSuffix 2)
  else (.small, path)

/-- The branch for `.uno:`, from behind it. -/
def commandName (path : StringView) : Bytes :=
  ascii "cmd/" ++ (commandSize path).1.sizePrefix ++ (commandSize path).2.cStr

section
variable (outside : Outside)

/-- The branch for a file of the package: its name and its extension. -/
def fileName (path : StringView) : Bytes × Bytes :=
  let iconPath := outside.path path.cStr
  (iconPath.dirName ++ iconPath.baseName, iconPath.extName)

/-- The end of `getResource`. -/
def fromPackage (info : Info) (realName extName : Bytes) : Answer :=
  let realName := resolve info.linksMap (realName.map tolower ++ extension info.type extName)
  { lookedUp := some realName
    resource := (info.package.getContent realName).map fun content => (content, outside.getMimeType realName) }

def makeJsonResource (json : Json) : Answer where
  resource := some (outside.stringify json, ascii "application/json; charset=utf-8")

def formatOf (info : Info) : Json := .string (if info.type = .svg then ascii "svg" else ascii "png")

def linksOf (info : Info) : Json :=
  .object (info.linksMap.entries.map fun link => (link.1, .string link.2))

def filesOf (info : Info) : Json :=
  .array (if info.package.ready then info.package.entries.entries.map Prod.fst else [])

/-- The branches that name no icon of the package. -/
def fromMethod (state : State) (info : Info) (isDark : Bool) (path : Bytes) : Option Answer :=
  if path = ascii "format()" then some (makeJsonResource outside (.object [(ascii "format", formatOf info)]))
  else if path = ascii "files()" then some (makeJsonResource outside (filesOf info))
  else if path = ascii "links()" then some (makeJsonResource outside (linksOf info))
  else if path = ascii "onlineFiles()" then some (makeJsonResource outside (.array (state.maOnlineFiles isDark)))
  else if path = ascii "structure()" then
    some (makeJsonResource outside (.object [(ascii "name", .string info.name),
      (ascii "readableName", .string info.readableName), (ascii "format", formatOf info),
      (ascii "files", filesOf info), (ascii "onlineFiles", .array (state.maOnlineFiles isDark)),
      (ascii "links", linksOf info)]))
  else none

/-- The branch for `@`, from behind it. -/
def fromOnline (state : State) (isDark : Bool) (path : StringView) : Answer :=
  let realName :=
    if (search (ascii ".svg") path.text).isSome ∨ (search (ascii ".png") path.text).isSome then path.text
    else path.cStr ++ ascii ".svg"
  { resource :=
      if realName ∈ state.maOnlineFiles isDark then outside.getFileContent (outside.onlinePath isDark realName)
      else none }

/-- The branches for the brand. -/
def fromBrand (isDark : Bool) (path : Bytes) : Option Answer :=
  if path = ascii "getLogo()" then
    some ⟨none, outside.getFileContent
      (outside.brandPath (if isDark then ascii "logo_inverted.svg" else ascii "logo.svg"))⟩
  else if path = ascii "getAbout()" then
    let darkAboutFile := outside.brandPath (ascii "about_inverted.svg")
    some ⟨none, outside.getFileContent
      (if isDark ∧ outside.fileExists darkAboutFile then darkAboutFile else outside.brandPath (ascii "about.svg"))⟩
  else none

/-- `IconTheme::getResource`, from behind the type of the theme. -/
def getThemeResource (state : State) (isDark : Bool) (path : StringView) : Answer :=
  match fromBrand outside isDark path.text with
  | some answer => answer
  | none =>
    match state.maInfoMap isDark with
    | none => { resource := none }
    | some info =>
      if path.data.head? = some 64 then fromOnline outside state isDark (path.removePrefix 1)
      else if (ascii ".uno:").isPrefixOf path.text then
        fromPackage outside info (commandName (path.removePrefix 5)) []
      else
        match fromMethod outside state info isDark path.text with
        | some answer => answer
        | none => fromPackage outside info (fileName outside path).1 (fileName outside path).2

/-- `IconTheme::getResource`, of the path of the URI. -/
def getResource (state : State) (uriPath : Bytes) : Answer :=
  let path := StringView.ofString uriPath
  if (ascii "light/").isPrefixOf path.text then getThemeResource outside state false (path.removePrefix 6)
  else if (ascii "dark/").isPrefixOf path.text then getThemeResource outside state true (path.removePrefix 5)
  else { resource := none }

end

/-! ## The entry that a request is for -/

/-- A request for an icon, behind the type of the theme. -/
inductive Request where
  | uno (name : Bytes) (size : Size)
  | file (dir name : Bytes) (ext : Option Bytes)

namespace Request

def path : Request → Bytes
  | uno name size => ascii ".uno:" ++ (name ++ size.suffix)
  | file dir name none => dir ++ [slash] ++ name
  | file dir name (some ext) => dir ++ [slash] ++ name ++ ascii "." ++ ext

/-- The entry for a request, in a theme of a type. -/
def entry (type : IconType) : Request → Bytes
  | uno name size => (ascii "cmd/" ++ size.sizePrefix ++ name).map tolower ++ type.extension
  | file dir name ext => (dir ++ [slash] ++ name).map tolower ++ extension type (ext.getD [])

end Request

def themePath (isDark : Bool) : Bytes := if isDark then ascii "dark/" else ascii "light/"

/-- What `getResource` answers is the entry for the request, or the target of its link. -/
def Resolves (outside : Outside) (state : State) (isDark : Bool) (info : Info)
    (request : Request) : Prop :=
  getResource outside state (themePath isDark ++ request.path) =
    { lookedUp := some (resolve info.linksMap (request.entry info.type))
      resource := (info.package.getContent (resolve info.linksMap (request.entry info.type))).map fun content =>
        (content, outside.getMimeType (resolve info.linksMap (request.entry info.type))) }

/-! ## What is behind the view -/

/-- The size that the end of a command's name gives. -/
def sizeOf (rest : Bytes) : Size :=
  if rest.length ≤ 2 then .small
  else if (ascii "/m").isSuffixOf rest then .medium
  else if (ascii "/l").isSuffixOf rest then .large
  else .small

/-- The entry for a request whose name goes on to the end of the path, or to the first NUL. -/
def Request.shown (outside : Outside) (type : IconType) (request : Request) : Bytes :=
  if (ascii ".uno:").isPrefixOf request.path then
    (ascii "cmd/" ++ (sizeOf (request.path.drop 5)).sizePrefix ++ (request.path.drop 5).takeWhile (· != 0)).map
      tolower ++ type.extension
  else
    let parts := outside.path (request.path.takeWhile (· != 0))
    (parts.dirName ++ parts.baseName).map tolower ++ extension type parts.extName

/-- A small icon, by a name that ends the path and has no NUL; or a file that is not of the other
forms, by a path that `Poco::Path` takes apart as it is written. -/
def Plain (outside : Outside) (type : IconType) : Request → Prop
  | .uno name size => size = .small ∧ sizeOf name = .small ∧ 0 ∉ name
  | .file dir name ext =>
    let path := (Request.file dir name ext).path
    let parts := outside.path (path.takeWhile (· != 0))
    path.head? ≠ some 64 ∧ (ascii ".uno:").isPrefixOf path = false ∧
      (parts.dirName ++ parts.baseName).map tolower ++ extension type parts.extName =
        (dir ++ [slash] ++ name).map tolower ++ extension type (ext.getD [])

/-- The links have two names go to the same entry. -/
def Linked (linksMap : SortedMap Bytes Bytes) (realName realName' : Bytes) : Prop :=
  realName ≠ realName' ∧ resolve linksMap realName = resolve linksMap realName'

theorem text_ofString (s : Bytes) : (StringView.ofString s).text = s := List.take_length

theorem removePrefix_ofString (front rest : Bytes) :
    StringView.removePrefix (.ofString (front ++ rest)) front.length = .ofString rest := by
  rw [StringView.ofString, StringView.removePrefix, List.drop_append_length, List.length_append,
    Nat.add_sub_cancel_left, StringView.ofString]

theorem commandSize_ofString (rest : Bytes) : (commandSize (.ofString rest)).1 = sizeOf rest := by
  rw [commandSize, text_ofString, sizeOf, StringView.ofString]
  by_cases hlength : rest.length ≤ 2
  · rw [if_pos hlength, if_neg fun h => absurd h.1 (Nat.not_lt.mpr hlength)]
  · obtain ⟨front, last, rfl, hlast⟩ : ∃ front last, rest = front ++ last ∧ last.length = 2 :=
      ⟨rest.take (rest.length - 2), rest.drop (rest.length - 2), (List.take_append_drop _ _).symm, by
        rw [List.length_drop]
        omega⟩
    obtain ⟨a, b, rfl⟩ := List.length_eq_two.mp hlast
    have hsuffix : ∀ c, ([slash, c] : Bytes).isSuffixOf (front ++ [a, b]) = true ↔ a = slash ∧ b = c := by
      intro c
      rw [List.isSuffixOf_iff_suffix]
      constructor
      · rintro ⟨t, ht⟩
        have heq := List.append_inj_right' ht rfl
        simp only [List.cons.injEq] at heq
        exact ⟨heq.1.symm, heq.2.1.symm⟩
      · rintro ⟨rfl, rfl⟩
        exact ⟨front, rfl⟩
    have hm := hsuffix 109
    have hl := hsuffix 108
    change (ascii "/m").isSuffixOf _ = true ↔ _ at hm
    change (ascii "/l").isSuffixOf _ = true ↔ _ at hl
    have hsize : (front ++ [a, b]).length = front.length + 2 := List.length_append
    rw [if_neg hlength]
    have ha : (front ++ [a, b])[front.length]? = some a := by simp
    have hb : (front ++ [a, b])[front.length + 1]? = some b := by simp
    simp only [hsize, hm, hl, Nat.add_sub_cancel,
      show front.length + 2 - 1 = front.length + 1 by omega, ha, hb,
      Option.some.injEq]
    by_cases hslash : a = slash
    · rw [if_pos ⟨by omega, hslash⟩]
      simp only [hslash, true_and]
    · rw [if_neg fun h => hslash h.2, if_neg fun h => hslash h.1, if_neg fun h => hslash h.1]

/-- The size stays where it is: the name goes on to the end of the path, or to the first NUL. -/
theorem commandName_ofString (rest : Bytes) :
    commandName (.ofString rest) = ascii "cmd/" ++ (sizeOf rest).sizePrefix ++ rest.takeWhile (· != 0) := by
  rw [commandName, commandSize_ofString, commandSize]
  split <;> rfl

theorem path_ne {word : Bytes} (hslash : slash ∉ word) (hdot : word.head? ≠ some 46)
    (request : Request) :
    request.path ≠ word := by
  rintro rfl
  cases request with
  | uno name size => exact hdot rfl
  | file dir name ext => cases ext <;> simp [Request.path] at hslash

variable {outside : Outside} {state : State} {isDark : Bool} {info : Info}

theorem getResource_themePath (path : Bytes) :
    getResource outside state (themePath isDark ++ path) =
      getThemeResource outside state isDark (.ofString path) := by
  rw [getResource, text_ofString]
  cases isDark with
  | false => exact (if_pos rfl).trans (congrArg _ (removePrefix_ofString (ascii "light/") path))
  | true =>
    refine (if_neg Bool.false_ne_true).trans ((if_pos rfl).trans ?_)
    exact congrArg _ (removePrefix_ofString (ascii "dark/") path)

theorem fromBrand_path (request : Request) : fromBrand outside isDark request.path = none := by
  rw [fromBrand, if_neg (path_ne (by decide) (by decide) request),
    if_neg (path_ne (by decide) (by decide) request)]

theorem fromMethod_path (request : Request) :
    fromMethod outside state info isDark request.path = none := by
  rw [fromMethod, if_neg (path_ne (by decide) (by decide) request),
    if_neg (path_ne (by decide) (by decide) request),
    if_neg (path_ne (by decide) (by decide) request), if_neg (path_ne (by decide) (by decide) request),
    if_neg (path_ne (by decide) (by decide) request)]

/-- A request that does not begin with `@` is looked up in the package. -/
theorem getResource_request (hinfo : state.maInfoMap isDark = some info) {request : Request}
    (hat : request.path.head? ≠ some 64) :
    getResource outside state (themePath isDark ++ request.path) =
      if (ascii ".uno:").isPrefixOf request.path then
        fromPackage outside info (ascii "cmd/" ++ (sizeOf (request.path.drop 5)).sizePrefix ++
          (request.path.drop 5).takeWhile (· != 0)) []
      else
        let parts := outside.path (request.path.takeWhile (· != 0))
        fromPackage outside info (parts.dirName ++ parts.baseName) parts.extName := by
  rw [getResource_themePath, getThemeResource, text_ofString, fromBrand_path, hinfo]
  dsimp only
  rw [if_neg (show (StringView.ofString request.path).data.head? ≠ some 64 from hat),
    fromMethod_path]
  split
  · next hprefix =>
    obtain ⟨rest, hrest⟩ := List.isPrefixOf_iff_prefix.mp hprefix
    rw [← hrest, show 5 = (ascii ".uno:").length from rfl, removePrefix_ofString,
      commandName_ofString,
      List.drop_append_length]
  · rfl

theorem fromPackage_eq_iff {realName extName realName' : Bytes} :
    fromPackage outside info realName extName =
        { lookedUp := some (resolve info.linksMap realName')
          resource := (info.package.getContent (resolve info.linksMap realName')).map fun content =>
            (content, outside.getMimeType (resolve info.linksMap realName')) } ↔
      resolve info.linksMap (realName.map tolower ++ extension info.type extName) =
        resolve info.linksMap realName' := by
  constructor
  · intro h
    rw [fromPackage, Answer.mk.injEq, Option.some.injEq] at h
    exact h.1
  · intro h
    rw [fromPackage, h]

/-- What is looked up for a request. -/
theorem resolves_iff_shown (hinfo : state.maInfoMap isDark = some info) (request : Request) :
    Resolves outside state isDark info request ↔ request.path.head? ≠ some 64 ∧
      resolve info.linksMap (request.shown outside info.type) = resolve info.linksMap (request.entry info.type) := by
  rw [Resolves]
  by_cases hat : request.path.head? = some 64
  · have honline : getResource outside state (themePath isDark ++ request.path) =
        fromOnline outside state isDark (StringView.removePrefix (.ofString request.path) 1) := by
      rw [getResource_themePath, getThemeResource, text_ofString, fromBrand_path, hinfo]
      exact if_pos hat
    rw [honline]
    constructor
    · intro h
      exact absurd (congrArg Answer.lookedUp h) (Option.some_ne_none _).symm
    · intro h
      exact absurd hat h.1
  · rw [getResource_request hinfo hat, Request.shown, and_iff_right hat]
    split
    · exact fromPackage_eq_iff
    · exact fromPackage_eq_iff

theorem sizePrefix_length (size : Size) : size.sizePrefix.length = 3 := by
  cases size <;> rfl

theorem sizePrefix_injective {size size' : Size}
    (h : size.sizePrefix.map tolower = size'.sizePrefix.map tolower) : size = size' := by
  revert h
  cases size <;> cases size' <;> decide

theorem length_takeWhile_suffix {name : Bytes} {size : Size}
    (h : ((name ++ size.suffix).takeWhile (· != 0)).length = name.length) : size = .small ∧ 0 ∉ name := by
  by_cases hzero : 0 ∈ name
  · obtain ⟨front, rest, rfl, hfront⟩ := List.eq_append_cons_of_mem hzero
    have hlt : ((front ++ 0 :: rest ++ size.suffix).takeWhile (· != 0)).length ≤ front.length := by
      rw [List.append_assoc, List.takeWhile_append, List.cons_append,
        List.takeWhile_cons_of_neg (by simp)]
      split
      · rw [List.append_nil]
      · exact (List.takeWhile_prefix _).length_le
    rw [h, List.length_append, List.length_cons] at hlt
    omega
  · have hall := takeWhile_bne_of_notMem hzero
    rw [List.takeWhile_append, hall, if_pos rfl, List.length_append] at h
    refine ⟨?_, hzero⟩
    cases size with
    | small => rfl
    | medium => exact absurd (Nat.add_eq_left.mp h) (by decide)
    | large => exact absurd (Nat.add_eq_left.mp h) (by decide)

theorem shown_uno_eq_iff (type : IconType) (name : Bytes) (size : Size) :
    (Request.uno name size).shown outside type = (Request.uno name size).entry type ↔
      size = .small ∧ sizeOf name = .small ∧ 0 ∉ name := by
  have hshown : (Request.uno name size).shown outside type =
      (ascii "cmd/" ++ (sizeOf (name ++ size.suffix)).sizePrefix ++ (name ++ size.suffix).takeWhile (· != 0)).map
        tolower ++ type.extension := if_pos rfl
  rw [hshown, Request.entry, List.append_cancel_right_eq, List.map_append, List.map_append,
    List.map_append,
    List.map_append, List.append_assoc, List.append_assoc, List.append_cancel_left_eq]
  constructor
  · intro h
    have hlength : (List.map tolower (sizeOf (name ++ size.suffix)).sizePrefix).length =
        (List.map tolower size.sizePrefix).length := by
      rw [List.length_map, List.length_map, sizePrefix_length, sizePrefix_length]
    obtain ⟨hsize, hname⟩ := List.append_inj h hlength
    have hname := congrArg List.length hname
    rw [List.length_map, List.length_map] at hname
    obtain ⟨rfl, hzero⟩ := length_takeWhile_suffix hname
    have hsize := sizePrefix_injective hsize
    rw [Size.suffix, List.append_nil] at hsize
    exact ⟨rfl, hsize, hzero⟩
  · rintro ⟨rfl, hsize, hzero⟩
    rw [Size.suffix, List.append_nil, hsize, takeWhile_bne_of_notMem hzero]

/-- The name of a command is no name of a file that begins alike. -/
theorem shown_file_ne {type : IconType} {dir name : Bytes} {ext : Option Bytes}
    (huno : (ascii ".uno:").isPrefixOf (Request.file dir name ext).path = true) :
    (Request.file dir name ext).shown outside type ≠ (Request.file dir name ext).entry type := by
  intro h
  rw [Request.shown, if_pos huno, Request.entry] at h
  have hshown := congrArg List.head? h
  cases dir with
  | nil => cases ext <;> exact absurd huno (by simp [Request.path, slash, ascii])
  | cons b dir =>
    have hb : b = 46 := by
      cases ext <;> simp_all [Request.path, ascii]
    rw [hb] at hshown
    have hbyte : some (tolower 99) = some (tolower 46) := hshown
    exact absurd hbyte (by decide)

/-- A request is plain just if the entry for it is looked up, whatever the links. -/
theorem plain_iff (type : IconType) (request : Request) :
    Plain outside type request ↔
      request.path.head? ≠ some 64 ∧ request.shown outside type = request.entry type := by
  cases request with
  | uno name size =>
    rw [shown_uno_eq_iff]
    have hdot : (Request.uno name size).path.head? = some 46 := rfl
    rw [hdot, Plain]
    exact ⟨fun h => ⟨by decide, h⟩, And.right⟩
  | file dir name ext =>
    rw [Plain]
    cases huno : (ascii ".uno:").isPrefixOf (Request.file dir name ext).path with
    | true =>
      constructor
      · intro h
        exact absurd h.2.1 Bool.noConfusion
      · intro h
        exact absurd h.2 (shown_file_ne huno)
    | false =>
      rw [Request.shown, huno, if_neg Bool.false_ne_true]
      exact ⟨fun h => ⟨h.1, h.2.2⟩, fun h => ⟨h.1, rfl, h.2⟩⟩

/-- The entry for a request is looked up just if the request is plain, or the links have the name
that it is taken for go to the same entry. -/
theorem resolves_iff (hinfo : state.maInfoMap isDark = some info) (request : Request) :
    Resolves outside state isDark info request ↔ Plain outside info.type request ∨
      request.path.head? ≠ some 64 ∧
        Linked info.linksMap (request.shown outside info.type) (request.entry info.type) := by
  rw [resolves_iff_shown hinfo, plain_iff, Linked]
  constructor
  · rintro ⟨hat, hresolve⟩
    by_cases hshown : request.shown outside info.type = request.entry info.type
    · exact .inl ⟨hat, hshown⟩
    · exact .inr ⟨hat, hshown, hresolve⟩
  · rintro (⟨hat, hshown⟩ | ⟨hat, -, hresolve⟩)
    · exact ⟨hat, by rw [hshown]⟩
    · exact ⟨hat, hresolve⟩

def noOutside : Outside where
  stringTokenizer := fun s separator => ((s.splitOnP (· == separator)).map (trim isSpace)).filter (· ≠ [])
  path := fun path => ⟨[], path, []⟩
  onlinePath := fun _ file => file
  brandPath := id
  fileExists := fun _ => false
  getFileContent := fun _ => none
  stringify := fun _ => []
  getMimeType := fun _ => ascii "image/svg+xml"

/-- A theme that has one icon, of a command in one size. -/
def oneIcon (entry content : Bytes) : State where
  maInfoMap := fun _ => some (setIconThem noOutside (ascii "breeze_svg") (ascii "Breeze (SVG)")
    { ready := true, entries := SortedMap.empty.set entry (true, content) })
  maOnlineFiles := fun _ => []

theorem resolves_iff_small :
    Resolves noOutside (oneIcon (ascii "cmd/sc_bold.svg") (ascii "<svg/>")) false
    (setIconThem noOutside (ascii "breeze_svg") (ascii "Breeze (SVG)")
      { ready := true, entries := SortedMap.empty.set (ascii "cmd/sc_bold.svg") (true, ascii "<svg/>") })
    (.uno (ascii "Bold") .small) :=
  (resolves_iff rfl _).mpr (.inl ⟨rfl, by decide, by decide⟩)

/-- The icon of a command in medium size is looked up with the size in its name. -/
theorem not_resolves :
    ¬ ∀ (outside : Outside) (state : State) (isDark : Bool) (info : Info) (request : Request),
    state.maInfoMap isDark = some info → Resolves outside state isDark info request := by
  intro h
  have hresolves := h noOutside (oneIcon (ascii "cmd/lc_bold.svg") (ascii "<svg/>")) false _
    (.uno (ascii "Bold") .medium) rfl
  have hfound := congrArg Answer.lookedUp hresolves
  revert hfound
  decide +kernel

end Oxool.Modules.IconTheme
