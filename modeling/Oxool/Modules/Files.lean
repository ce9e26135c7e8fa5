import Oxool.Common.StringVector
import Oxool.Lib.Paths

/-!
# The files of modules (`OxOOL/Module/Base.cpp`, `OxOOL/ModuleManager`)

A module has a directory for each of three services: `html` for whoever asks, `browser` for the web
client and `admin` for the console. A handler takes the service URI off the path of the request, in
the last two services the module's id as well, and puts what is left behind the directory.

Nobody looks for `..` on the way. What is left is put there as it is, so that the file is in the
directory if and only if the path comes back as far as it goes up (`Oxool.Paths`). The console counts
the module's id off a path that it has split otherwise: what is left need not start with a slash, and
then the directory's own name goes on (`route`).

`Poco::Path`, `Poco::StringTokenizer`, `Poco::URI` and the file system are inputs.
-/

set_option autoImplicit false

namespace Oxool.Modules

open Oxool.Http (Bytes ascii)
open Oxool.Paths

def slash : UInt8 := 47

/-! ## Paths as strings -/

/-- The names in a path. -/
def names (s : Bytes) : List Bytes := pieces (· == slash) [] s

def segment (name : Bytes) : Segment Bytes :=
  if name = ascii "." then .here else if name = ascii ".." then .up else .down name

def segments (s : Bytes) : List (Segment Bytes) := (names s).map segment

/-- What an absolute path denotes, with `.` and `..` resolved. -/
def denotes (s : Bytes) : List Bytes := follow [] (segments s)

/-! ## What is not in the repository -/

/-- What the handlers ask of the `Poco::Path` that a string is made into. -/
structure PocoPath where
  isDirectory : Bytes → Bool
  toString : Bytes → Bytes
  /-- `toString` after `append`. -/
  append : Bytes → Bytes → Bytes
  getFileName : Bytes → Bytes
  getExtension : Bytes → Bytes

/-- The path of a string is a directory if it ends with a slash, and denotes what the string does. -/
structure PocoPath.Reads (poco : PocoPath) (s : Bytes) : Prop where
  isDirectory : poco.isDirectory s = (s.getLast? == some slash)
  toString : denotes (poco.toString s) = denotes s
  append : poco.isDirectory s = true → ∀ name, denotes (poco.append s name) = denotes (s ++ name)

structure Outside where
  poco : PocoPath
  /-- `Poco::StringTokenizer` between slashes, trimmed and without empty ones. -/
  tokens : Bytes → List Bytes
  /-- The file exists and is no directory. -/
  isFile : Bytes → Bool
  isAdminLoggedIn : Bool

/-- A request: the URI as it came, and the path that `Poco::URI` reads in it. -/
structure Request where
  uri : Bytes
  path : Bytes

/-! ## The handlers -/

/-- What a handler does. -/
inductive Answer where
  | file (requestFile : Bytes)
  | page (requestFile : Bytes)
  | error (status : Nat)
  | redirect
  | localizations
  | handled
deriving DecidableEq

/-- The file that is passed on to be sent, as it is or with its placeholders filled in. -/
def Answer.requestFile : Answer → Option Bytes
  | .file requestFile => some requestFile
  | .page requestFile => some requestFile
  | _ => none

/-- `Base::parseRealURI`. -/
def parseRealURI (serviceURI requestURI : Bytes) : Bytes :=
  if serviceURI.getLast? ≠ some slash then
    if slash ∈ requestURI then
      slash :: (requestURI.reverse.takeWhile (· != slash)).reverse
    else serviceURI
  else if requestURI.length ≤ serviceURI.length then [slash]
  else requestURI.drop (serviceURI.length - 1)

/-- The modules, by id, with their document roots; the ids whose browser URI is registered; and the
console's own document root. -/
structure Site where
  getModuleById : Bytes → Option Bytes
  browserIds : List Bytes
  adminRoot : Bytes

/-- The handler and, of a module with a service of its own, its document root and service URI. -/
inductive Service where
  | base (maRootPath serviceURI : Bytes)
  | browser
  | admin

namespace Service

def serviceURI : Service → Bytes
  | .base _ serviceURI => serviceURI
  | .browser => ascii "/browser/module/"
  | .admin => ascii "/browser/dist/admin/"

end Service

def browserURI (id : Bytes) : Bytes := Service.browser.serviceURI ++ id ++ [slash]

namespace Site

variable (s : Site) (o : Outside) (q : Request)

/-- `Base::handleRequest`. -/
def baseRequest (maRootPath serviceURI : Bytes) : Answer :=
  let requestFile := maRootPath ++ ascii "/html" ++ parseRealURI serviceURI q.path
  .file (if o.poco.isDirectory requestFile then o.poco.append requestFile (ascii "index.html")
    else o.poco.toString requestFile)

/-- `BrowserService::isValidBrowserURI`. -/
def isValidBrowserURI : Bool := s.browserIds.any fun id => (browserURI id).isPrefixOf q.uri

/-- `BrowserService::handleRequest`. -/
def browserRequest : Answer :=
  if !s.isValidBrowserURI q then .error 403
  else
    let realPath := parseRealURI Service.browser.serviceURI q.path
    match tokenize realPath slash with
    | moduleID :: second :: rest =>
      match s.getModuleById moduleID with
      | none => .error 404
      | some root =>
        if rest.isEmpty && second == ascii "localizations" then .localizations
        else .file (root ++ ascii "/browser" ++ realPath.drop (moduleID.length + 1))
    | _ => .error 400

/-- The end of `AdminService::handleRequest`. -/
def adminFile (rootPath realURI : Bytes) : Answer :=
  let requestFile := rootPath ++ realURI
  if !o.isFile (o.poco.toString requestFile) then .error 404
  else if (o.poco.getFileName requestFile == ascii "admin.html" ||
      o.poco.getFileName requestFile == ascii "admin.htm") && !o.isAdminLoggedIn then .redirect
  else if o.poco.getExtension requestFile ∈ [ascii "css", ascii "html", ascii "htm"] then
    .page (o.poco.toString requestFile)
  else .file (o.poco.toString requestFile)

/-- `AdminService::handleRequest`. -/
def adminRequest : Answer :=
  let realURI := parseRealURI Service.admin.serviceURI q.path
  -- the addresses of the map
  if realURI ∈ [ascii "/login", ascii "/logout", ascii "/"] then .handled
  else
    match o.tokens realURI with
    | first :: moduleID :: _ =>
      if first = ascii "module" then
        match s.getModuleById moduleID with
        | none => .error 404
        | some root => adminFile o (root ++ ascii "/admin")
          (realURI.drop (first.length + moduleID.length + 2))
      else adminFile o s.adminRoot realURI
    | _ => adminFile o s.adminRoot realURI

def handleRequest : Service → Answer
  | .base maRootPath serviceURI => baseRequest o q maRootPath serviceURI
  | .browser => s.browserRequest q
  | .admin => s.adminRequest o q

/-! ## What is asked -/

/-- The document root, the name of the directory in it, and what is left of the path. The console's
own directory has no name of its own in its document root. -/
structure Parts where
  root : Bytes
  name : Option Bytes
  tail : Bytes
deriving DecidableEq

def Parts.directory (p : Parts) : Bytes :=
  match p.name with
  | none => p.root
  | some name => p.root ++ slash :: name

/-- What a request is for. -/
def parts (service : Service) : Option Parts :=
  let realURI := parseRealURI service.serviceURI q.path
  match service with
  | .base maRootPath _ => some ⟨maRootPath, some (ascii "html"), realURI⟩
  | .browser => (tokenize realURI slash).head?.bind fun moduleID =>
      (s.getModuleById moduleID).map fun root =>
        ⟨root, some (ascii "browser"), realURI.drop (moduleID.length + 1)⟩
  | .admin =>
    match o.tokens realURI with
    | first :: moduleID :: _ =>
      if first = ascii "module" then
        (s.getModuleById moduleID).map fun root =>
          ⟨root, some (ascii "admin"), realURI.drop (first.length + moduleID.length + 2)⟩
      else some ⟨s.adminRoot, none, realURI⟩
    | _ => some ⟨s.adminRoot, none, realURI⟩

/-- If a file is passed on to be sent, it is in the directory. -/
def StaysInside (service : Service) : Prop :=
  ∀ file ∈ (s.handleRequest o q service).requestFile, ∃ p ∈ s.parts o q service,
    Below (denotes p.directory) (denotes file)

/-- What is left of the path, as segments below the directory. If it does not start with a slash it
goes on with the directory's name, which comes to going up and down again. -/
def route (name tail : Bytes) : List (Segment Bytes) :=
  let glued := tail.takeWhile (· != slash)
  if glued = [] then segments tail
  else .up :: .down (name ++ glued) :: segments (tail.dropWhile (· != slash))

/-- A directory is answered with the file in it, by `Base`. -/
def indexed (service : Service) (tail : Bytes) : Bytes :=
  match service with
  | .base _ _ => if tail.getLast? = some slash then tail ++ ascii "index.html" else tail
  | _ => tail

/-- What is left of the path comes back as far as it goes up. -/
def ComesBack (service : Service) (p : Parts) : Prop :=
  (walk (route (p.name.getD []) (indexed service p.tail))).Returns (denotes p.directory)

/-- The request gets as far as a file. -/
def Reaches (service : Service) (p : Parts) : Prop :=
  let realURI := parseRealURI service.serviceURI q.path
  let requestFile := p.directory ++ p.tail
  match service with
  | .base _ _ => True
  | .browser => s.isValidBrowserURI q = true ∧ ∃ moduleID second rest,
      tokenize realURI slash = moduleID :: second :: rest ∧
        ¬ (rest = [] ∧ second = ascii "localizations")
  | .admin => realURI ∉ [ascii "/login", ascii "/logout", ascii "/"] ∧
      o.isFile (o.poco.toString requestFile) = true ∧
        ((o.poco.getFileName requestFile = ascii "admin.html" ∨
          o.poco.getFileName requestFile = ascii "admin.htm") → o.isAdminLoggedIn = true)

/-- The file that is passed on. -/
def passedOn (service : Service) (p : Parts) : Bytes :=
  let requestFile := p.directory ++ p.tail
  match service with
  | .base _ _ => if o.poco.isDirectory requestFile then o.poco.append requestFile (ascii "index.html")
    else o.poco.toString requestFile
  | .browser => requestFile
  | .admin => o.poco.toString requestFile

end Site

/-! ## Strings and segments -/

theorem segments_append (l m : Bytes) : segments (l ++ slash :: m) = segments l ++ segments m := by
  rw [segments, names, pieces_append (by rfl), List.map_append]
  rfl

theorem segments_slash (m : Bytes) : segments (slash :: m) = segments m := segments_append [] m

/-- What goes on with a slash goes on from the directory. -/
theorem denotes_append {tail : Bytes} (h : tail = [] ∨ tail.head? = some slash) (dir : Bytes) :
    denotes (dir ++ tail) = follow (denotes dir) (segments tail) := by
  rcases h with rfl | h
  · rw [List.append_nil]
    rfl
  · obtain ⟨m, rfl⟩ := List.head?_eq_some_iff.mp h
    rw [denotes, segments_append, follow_append, segments_slash]
    rfl

/-- A name that is neither a dot nor two of them. -/
structure IsName (name : Bytes) : Prop where
  long : 2 < name.length
  whole : slash ∉ name

theorem IsName.append {name glued : Bytes} (h : IsName name) (hglued : slash ∉ glued) :
    IsName (name ++ glued) where
  long := by
    have hlong := h.long
    rw [List.length_append]
    omega
  whole := by
    intro hmem
    rcases List.mem_append.mp hmem with hmem | hmem
    · exact h.whole hmem
    · exact hglued hmem

theorem segments_name {name : Bytes} (h : IsName name) : segments name = [.down name] := by
  have hlong := h.long
  have hplain : ∀ b ∈ name, (b == slash) = false := by
    intro b hb
    rw [beq_eq_false_iff_ne]
    rintro rfl
    exact h.whole hb
  have hne : name ≠ [] := by
    rintro rfl
    exact absurd hlong (by decide)
  have hdot : name ≠ ascii "." := by
    rintro rfl
    exact absurd hlong (by decide)
  have hdots : name ≠ ascii ".." := by
    rintro rfl
    exact absurd hlong (by decide)
  rw [segments, names, pieces_of_forall hplain, List.nil_append, flush, if_neg hne, List.map_singleton,
    segment, if_neg hdot, if_neg hdots]

theorem denotes_name {name : Bytes} (h : IsName name) (root : Bytes) :
    denotes (root ++ slash :: name) = denotes root ++ [name] := by
  rw [denotes_append (.inr rfl), segments_slash, segments_name h]
  rfl

/-- **Where a path goes on behind a directory**, whatever it starts with. -/
theorem denotes_route {name : Bytes} (h : IsName name) (root tail : Bytes) :
    denotes (root ++ slash :: name ++ tail) =
      follow (denotes (root ++ slash :: name)) (Site.route name tail) := by
  have hsplit : tail.takeWhile (· != slash) ++ tail.dropWhile (· != slash) = tail :=
    List.takeWhile_append_dropWhile
  have hrest : tail.dropWhile (· != slash) = [] ∨
      (tail.dropWhile (· != slash)).head? = some slash := by
    cases hdrop : tail.dropWhile (· != slash) with
    | nil => exact .inl rfl
    | cons b m =>
      have hb := List.head?_dropWhile_not (· != slash) tail
      rw [hdrop] at hb
      right
      simpa using hb
  unfold Site.route
  dsimp only
  split
  · rename_i hglued
    rw [hglued, List.nil_append] at hsplit
    rw [hsplit] at hrest
    exact denotes_append hrest _
  · have hwhole : slash ∉ tail.takeWhile (· != slash) := by
      intro hmem
      have hne := List.mem_takeWhile_imp hmem
      simp at hne
    have hassoc : root ++ slash :: name ++ tail = root ++ slash :: (name ++
        tail.takeWhile (· != slash)) ++ tail.dropWhile (· != slash) := by
      rw [List.append_assoc, List.append_assoc, List.cons_append, List.cons_append,
        List.append_assoc, hsplit]
    rw [hassoc, denotes_append hrest, denotes_name (h.append hwhole), denotes_name h]
    show _ = follow ((denotes root ++ [name]).dropLast ++ [_]) _
    rw [List.dropLast_concat]

/-! ## What is left of the path -/

theorem parseRealURI_head {serviceURI requestURI : Bytes}
    (hdir : serviceURI.getLast? = some slash) (h : serviceURI <+: requestURI) :
    ∃ rest, requestURI = serviceURI ++ rest ∧ parseRealURI serviceURI requestURI = slash :: rest := by
  obtain ⟨rest, rfl⟩ := h
  obtain ⟨init, rfl⟩ := List.getLast?_eq_some_iff.mp hdir
  refine ⟨rest, rfl, ?_⟩
  rw [parseRealURI, if_neg (not_not.mpr hdir)]
  split
  · rename_i hle
    have hrest : rest = [] := by
      apply List.length_eq_zero_iff.mp
      rw [List.length_append] at hle
      omega
    rw [hrest]
  · rw [List.length_append, List.length_singleton, Nat.add_sub_cancel, List.append_assoc,
      List.drop_left]
    rfl

namespace Site

variable {s : Site} {o : Outside} {q : Request}

theorem requestFile_adminFile_iff (rootPath realURI file : Bytes) :
    (adminFile o rootPath realURI).requestFile = some file ↔
      o.isFile (o.poco.toString (rootPath ++ realURI)) = true ∧
        ((o.poco.getFileName (rootPath ++ realURI) = ascii "admin.html" ∨
          o.poco.getFileName (rootPath ++ realURI) = ascii "admin.htm") → o.isAdminLoggedIn = true) ∧
        file = o.poco.toString (rootPath ++ realURI) := by
  unfold adminFile
  dsimp only
  by_cases hfile : o.isFile (o.poco.toString (rootPath ++ realURI)) = true
  · by_cases hpage : o.poco.getFileName (rootPath ++ realURI) = ascii "admin.html" ∨
        o.poco.getFileName (rootPath ++ realURI) = ascii "admin.htm"
    · cases hlogin : o.isAdminLoggedIn with
      | false => simp [hfile, hpage, Answer.requestFile]
      | true =>
        simp only [hfile, Bool.not_true, Bool.and_false, Bool.false_eq_true, if_false, true_and,
          implies_true]
        split <;> exact Option.some_inj.trans eq_comm
    · have hother : (o.poco.getFileName (rootPath ++ realURI) == ascii "admin.html" ||
          o.poco.getFileName (rootPath ++ realURI) == ascii "admin.htm") = false := by
        simpa using hpage
      simp only [hfile, hother, hpage, Bool.not_true, Bool.false_and, Bool.false_eq_true, if_false,
        true_and, false_implies]
      split <;> exact Option.some_inj.trans eq_comm
  · simp [hfile, Answer.requestFile]

/-- **The file that a handler passes on**, if it gets as far. -/
theorem mem_requestFile_iff (service : Service) (file : Bytes) :
    file ∈ (s.handleRequest o q service).requestFile ↔
      ∃ p ∈ s.parts o q service, s.Reaches o q service p ∧ file = passedOn o service p := by
  cases service with
  | base maRootPath serviceURI =>
    have happend : maRootPath ++ ascii "/html" = maRootPath ++ slash :: ascii "html" := rfl
    simp only [handleRequest, baseRequest, Answer.requestFile, parts, Reaches, passedOn,
      Parts.directory, Option.mem_def, Option.some.injEq, exists_eq_left', true_and, happend]
    exact eq_comm
  | browser =>
    show file ∈ (s.browserRequest q).requestFile ↔ _
    unfold browserRequest
    cases htokens : tokenize (parseRealURI Service.browser.serviceURI q.path) slash with
    | nil =>
      simp only [parts, htokens, List.head?_nil, Option.bind_none, Option.mem_def]
      split <;> simp [Answer.requestFile]
    | cons moduleID more =>
      cases more with
      | nil =>
        simp only [Reaches, htokens]
        split <;> simp [Answer.requestFile]
      | cons second rest =>
        simp only [parts, Reaches, htokens, List.head?_cons, Option.bind_some]
        cases hmodule : s.getModuleById moduleID with
        | none => split <;> simp [Answer.requestFile]
        | some root =>
          have hdirectory : root ++ ascii "/browser" = root ++ slash :: ascii "browser" := rfl
          by_cases hvalid : s.isValidBrowserURI q = true
          · by_cases hlist : rest = [] ∧ second = ascii "localizations"
            · simp [hvalid, hlist, Answer.requestFile]
            · have hserved : (rest.isEmpty && second == ascii "localizations") = false := by
                simpa using hlist
              simp only [hvalid, hserved, Bool.not_true, Bool.false_eq_true, if_false,
                Answer.requestFile, Option.mem_def, Option.some.injEq, Option.map_some,
                exists_eq_left', passedOn, Parts.directory, hdirectory, true_and]
              constructor
              · rintro rfl
                exact ⟨⟨moduleID, second, rest, rfl, hlist⟩, rfl⟩
              · rintro ⟨-, rfl⟩
                rfl
          · simp [hvalid, Answer.requestFile]
  | admin =>
    show file ∈ (s.adminRequest o q).requestFile ↔ _
    unfold adminRequest
    simp only [parts, Reaches, passedOn]
    by_cases hmap : parseRealURI Service.admin.serviceURI q.path ∈
        [ascii "/login", ascii "/logout", ascii "/"]
    · rw [if_pos hmap]
      simp [Answer.requestFile, hmap]
    · rw [if_neg hmap]
      split
      · split
        · cases hmodule : s.getModuleById _ with
          | none => simp [Answer.requestFile]
          | some root =>
            have hdirectory : root ++ ascii "/admin" = root ++ slash :: ascii "admin" := rfl
            simp only [Option.map_some, Option.mem_def, Option.some.injEq, exists_eq_left',
              Parts.directory, hdirectory, hmap, not_false_iff, true_and, and_assoc]
            exact requestFile_adminFile_iff _ _ file
        · simp only [Option.mem_def, Option.some.injEq, exists_eq_left', Parts.directory, hmap,
            not_false_iff, true_and, and_assoc]
          exact requestFile_adminFile_iff _ _ file
      · simp only [Option.mem_def, Option.some.injEq, exists_eq_left', Parts.directory, hmap,
          not_false_iff, true_and, and_assoc]
        exact requestFile_adminFile_iff _ _ file

/-- **What a file that is passed on denotes.** -/
theorem denotes_passedOn {service : Service} (hdir : service.serviceURI.getLast? = some slash)
    (hstarts : service.serviceURI <+: q.path) {p : Parts} (hp : p ∈ s.parts o q service)
    (hreads : o.poco.Reads (p.directory ++ p.tail)) :
    denotes (passedOn o service p) =
      follow (denotes p.directory) (route (p.name.getD []) (indexed service p.tail)) := by
  obtain ⟨rest, hpath, hreal⟩ := parseRealURI_head hdir hstarts
  have hhtml : IsName (ascii "html") := ⟨by decide, by decide⟩
  have hbrowser : IsName (ascii "browser") := ⟨by decide, by decide⟩
  have hadmin : IsName (ascii "admin") := ⟨by decide, by decide⟩
  have hown : ∀ root : Bytes, denotes (root ++ slash :: rest) =
      follow (denotes root) (route [] (slash :: rest)) := fun root => denotes_append (.inr rfl) root
  cases service with
  | base maRootPath serviceURI =>
    obtain rfl : p = ⟨maRootPath, some (ascii "html"), slash :: rest⟩ := by
      rw [← hreal]
      exact (Option.some.inj hp).symm
    have hlast : (maRootPath ++ slash :: ascii "html" ++ slash :: rest).getLast? =
        (slash :: rest).getLast? := List.getLast?_append_of_ne_nil _ (by simp)
    have hisDirectory : o.poco.isDirectory (maRootPath ++ slash :: ascii "html" ++ slash :: rest) =
        ((slash :: rest).getLast? == some slash) := by
      rw [← hlast]
      exact hreads.isDirectory
    unfold passedOn indexed
    dsimp only
    split
    · rename_i hyes
      have hend : (slash :: rest).getLast? = some slash := beq_iff_eq.mp (hisDirectory.symm.trans hyes)
      rw [if_pos hend, hreads.append hyes, List.append_assoc]
      exact denotes_route hhtml maRootPath _
    · rename_i hno
      have hend : (slash :: rest).getLast? ≠ some slash := fun h =>
        hno (hisDirectory.trans (beq_iff_eq.mpr h))
      rw [if_neg hend, hreads.toString]
      exact denotes_route hhtml maRootPath _
  | browser =>
    simp only [parts, Option.mem_def, Option.bind_eq_some_iff, Option.map_eq_some_iff] at hp
    obtain ⟨moduleID, -, root, -, rfl⟩ := hp
    exact denotes_route hbrowser root _
  | admin =>
    have hpassed : denotes (passedOn o .admin p) = denotes (p.directory ++ p.tail) := hreads.toString
    rw [hpassed]
    simp only [parts, hreal] at hp
    split at hp
    · split at hp
      · obtain ⟨root, -, rfl⟩ := Option.map_eq_some_iff.mp hp
        exact denotes_route hadmin root _
      · obtain rfl := Option.some.inj hp
        exact hown _
    · obtain rfl := Option.some.inj hp
      exact hown _

/-- **The files of modules stay inside**, exactly when what is left of the path comes back as far as
it goes up. -/
theorem staysInside_iff (s : Site) (o : Outside) (q : Request) (service : Service)
    (hdir : service.serviceURI.getLast? = some slash) (hstarts : service.serviceURI <+: q.path)
    (hreads : ∀ p ∈ s.parts o q service, o.poco.Reads (p.directory ++ p.tail)) :
    s.StaysInside o q service ↔
      ∀ p ∈ s.parts o q service, s.Reaches o q service p → ComesBack service p := by
  have hbelow : ∀ p ∈ s.parts o q service,
      (Below (denotes p.directory) (denotes (passedOn o service p)) ↔ ComesBack service p) := by
    intro p hp
    rw [denotes_passedOn hdir hstarts hp (hreads p hp)]
    exact below_follow_iff _ _
  constructor
  · intro hinside p hp hreaches
    obtain ⟨p', hp', hin⟩ := hinside _ ((mem_requestFile_iff service _).mpr ⟨p, hp, hreaches, rfl⟩)
    obtain rfl : p' = p := Option.mem_unique hp' hp
    exact (hbelow p' hp).mp hin
  · intro hback file hfile
    obtain ⟨p, hp, hreaches, rfl⟩ := (mem_requestFile_iff service _).mp hfile
    exact ⟨p, hp, (hbelow p hp).mpr (hback p hp hreaches)⟩

end Site

/-! ## Two requests -/

def lastName (s : Bytes) : Bytes := (s.reverse.takeWhile (· != slash)).reverse

/-- Poco on absolute paths: the directories are resolved, the last name is kept. -/
def samplePoco : PocoPath where
  isDirectory s := lastName s == []
  toString s := slash :: (denotes (s.take (s.length - (lastName s).length))).flatMap (· ++ [slash]) ++
    lastName s
  append s name := slash :: (denotes s).flatMap (· ++ [slash]) ++ name
  getFileName := lastName
  getExtension s := ((lastName s).reverse.takeWhile (· != 46)).reverse

def sampleOutside : Outside where
  poco := samplePoco
  tokens := names
  isFile _ := true
  isAdminLoggedIn := false

/-- One module, with files for the web client. -/
def sampleSite : Site where
  getModuleById id := if id = ascii "demo_7f3a" then some (ascii "/opt/oxool/demo") else none
  browserIds := [ascii "demo_7f3a"]
  adminRoot := ascii "/opt/oxool/admin/"

def demo : Service := .base (ascii "/opt/oxool/demo") (ascii "/oxool/demo/")

/-- There and back. -/
def windingRequest : Request := ⟨ascii "/oxool/demo/docs/../a.html", ascii "/oxool/demo/docs/../a.html"⟩

theorem parts_windingRequest : sampleSite.parts sampleOutside windingRequest demo =
    some ⟨ascii "/opt/oxool/demo", some (ascii "html"), ascii "/docs/../a.html"⟩ := by
  decide +kernel

theorem staysInside_windingRequest : sampleSite.StaysInside sampleOutside windingRequest demo := by
  have hreads : samplePoco.Reads (ascii "/opt/oxool/demo/html/docs/../a.html") :=
    ⟨by decide +kernel, by decide +kernel, fun h => absurd h (by decide +kernel)⟩
  refine (Site.staysInside_iff sampleSite sampleOutside windingRequest demo (by decide) (by decide)
    ?_).mpr ?_
  · intro p hp
    rw [parts_windingRequest] at hp
    obtain rfl := Option.some.inj hp
    exact hreads
  · intro p hp _
    rw [parts_windingRequest] at hp
    obtain rfl := Option.some.inj hp
    show (walk _).Returns _
    decide +kernel

/-- Up to the root, by way of the files for the web client. -/
def climbingRequest : Request :=
  ⟨ascii "/browser/module/demo_7f3a/../../../../etc/passwd",
    ascii "/browser/module/demo_7f3a/../../../../etc/passwd"⟩

theorem not_staysInside : ¬ sampleSite.StaysInside sampleOutside climbingRequest .browser := by
  intro h
  have hsent : ascii "/opt/oxool/demo/browser/../../../../etc/passwd" ∈
      (sampleSite.handleRequest sampleOutside climbingRequest .browser).requestFile := by
    decide +kernel
  have hparts : sampleSite.parts sampleOutside climbingRequest .browser =
      some ⟨ascii "/opt/oxool/demo", some (ascii "browser"), ascii "/../../../../etc/passwd"⟩ := by
    rfl
  obtain ⟨p, hp, hbelow⟩ := h _ hsent
  rw [hparts] at hp
  obtain rfl := Option.some.inj hp
  exact absurd hbelow (by decide +kernel)

end Oxool.Modules
