import Oxool.Common.Protocol
import Oxool.Lib.SortedMap
import Oxool.Modules.Details

/-!
# Loading modules (`OxOOL/ModuleManager.cpp`)

`loadModuleConfig` reads the configuration of a module and puts the module into the map, with a new
id each time. A module that is loaded again takes the place of the one with the same configuration
file. The old one goes as soon as there is a library to load, whether or not that works
(`LosesModule`), and a module without a library does not take its place at all (`Doubles`).

What a call finds outside may be different at each call. The thread that initializes a module is not
in the model.
-/

set_option autoImplicit false

namespace Oxool.Modules

open Oxool.Http (Bytes ascii)
open scoped Oxool.SortedMap

namespace Loading

/-! ## The code -/

/-- What `XMLConfig` has of a file. A flag that cannot be read throws, which is `none`. -/
structure Config where
  isModule : Bool := true
  enable : Option Bool := some true
  name : Bytes := []
  serviceURI : Bytes := []
  summary : Bytes := []
  author : Bytes := []
  license : Bytes := []
  description : Bytes := []
  adminPrivilege : Option Bool := some false
  adminIcon : Bytes := []
  adminItem : Bytes := []
  load : Bytes := []

/-- The settings, the file system, `Poco::Path`, `Poco::trim`, the libraries and the next random id. -/
structure Outside where
  moduleDir : Bytes
  moduleDataDir : Bytes
  packageVersion : Bytes
  getExtension : Bytes → Bytes
  trim : Bytes → Bytes
  /-- `makeParent`. -/
  parent : Bytes → Bytes
  config : Bytes → Config
  /-- There is such a file, which is no directory. -/
  isFile : Bytes → Bool
  fileExists : Bytes → Bool
  /-- `ModuleLibrary::load`: the version of the module that the library has. -/
  load : Bytes → Option Bytes
  uuid : Bytes

/-- The map of the modules, and the URIs that are registered with the `BrowserService`. -/
structure Manager where
  maModuleMap : SortedMap Bytes Base
  maRegisteredURI : List Bytes

/-- `loadModuleConfig(configFile, userLibraryPath)`. -/
structure Call where
  configFile : Bytes
  userLibraryPath : Bytes := []
  outside : Outside

def dropSlash (s : Bytes) : Bytes := if s.getLast? = some slash then s.dropLast else s

/-- The first module with the configuration file is taken out. -/
def eraseConfig (configFile : Bytes) (modules : SortedMap Bytes Base) : SortedMap Bytes Base :=
  match modules.entries.find? (·.2.maConfigFile = configFile) with
  | some e => modules.erase e.1
  | none => modules

namespace Call

variable (call : Call)

def config : Config := call.outside.config call.configFile

def soFilePath : Bytes :=
  if call.userLibraryPath = [] then call.outside.moduleDir else call.userLibraryPath

def soFile : Bytes := call.soFilePath ++ slash :: call.config.load

def documentRoot : Bytes :=
  if call.userLibraryPath = [] then call.outside.moduleDataDir ++ slash :: call.config.name
  else dropSlash (call.outside.parent call.userLibraryPath)

/-- There is no `-` in an id. -/
def id : Bytes := (call.config.name ++ 95 :: call.outside.uuid).filter (· != 45)

def hasBrowser : Bool :=
  call.outside.fileExists (call.documentRoot ++ ascii "/browser/module.js") ||
    call.outside.fileExists (call.documentRoot ++ ascii "/browser/l10n")

def hasAdmin : Bool :=
  call.config.adminItem != [] && call.outside.fileExists (call.documentRoot ++ ascii "/admin/admin.html") &&
    call.outside.fileExists (call.documentRoot ++ ascii "/admin/admin.js")

/-- The module that the manager gets. -/
def module (adminPrivilege : Bool) (version : Bytes) : Base where
  maId := call.id
  maDetail := {
    name := call.config.name
    serviceURI := call.outside.trim call.config.serviceURI
    version := version
    summary := call.config.summary
    author := call.config.author
    license := call.config.license
    description := call.config.description
    adminPrivilege := adminPrivilege
    adminIcon := call.config.adminIcon
    adminItem := call.config.adminItem }
  maConfigFile := call.configFile
  maRootPath := call.documentRoot
  maBrowserURI := if call.hasBrowser then browserURI call.id else []
  maAdminURI := if call.hasAdmin then ascii "/browser/dist/admin/module/" ++ call.id ++ [slash] else []

/-- What comes behind the library. -/
def add (adminPrivilege : Bool) (version : Bytes) (m : Manager) : Manager where
  maModuleMap := m.maModuleMap.set call.id (call.module adminPrivilege version)
  maRegisteredURI :=
    if call.hasBrowser && !m.maRegisteredURI.contains (browserURI call.id) then
      m.maRegisteredURI ++ [browserURI call.id]
    else m.maRegisteredURI

/-- `loadModuleConfig`: the manager afterwards, and what is returned. `none` where something
throws. -/
def run (m : Manager) : Manager × Option Bool :=
  if call.outside.getExtension call.configFile ≠ ascii "xml" then (m, some false)
  else if !call.config.isModule then (m, some false)
  else
    match call.config.enable with
    | none => (m, some false)
    | some false => (m, some true)
    | some true =>
      match call.config.adminPrivilege with
      | none => (m, none)
      | some adminPrivilege =>
        if call.config.load = [] then (call.add adminPrivilege call.outside.packageVersion m, some true)
        else if !call.outside.isFile call.soFile then (m, some false)
        else
          let m := { m with maModuleMap := eraseConfig call.configFile m.maModuleMap }
          match call.outside.load call.soFile with
          | none => (m, some false)
          | some version => (call.add adminPrivilege version m, some true)

end Call

/-- `initializeInternalModules`. -/
def internalModule (id name serviceURI summary rootPath : Bytes) : Base where
  maId := id
  maRootPath := rootPath
  maDetail := {
    name := name
    serviceURI := serviceURI
    version := ascii "1.0.0"
    summary := summary
    author := ascii "OxOOL"
    license := ascii "MPL 2.0" }

def Manager.initial (fileServerRoot : Bytes) : Manager where
  maModuleMap :=
    ((SortedMap.empty.set (ascii "1") (internalModule (ascii "1") (ascii "BrowserService")
        (ascii "/browser/module/") (ascii "Front-end user file service.") [])).set
      (ascii "2") (internalModule (ascii "2") (ascii "AdminService") (ascii "/browser/dist/admin/")
        (ascii "Admin console service.") (fileServerRoot ++ ascii "/admin/"))).set
      (ascii "3") (internalModule (ascii "3") (ascii "ResourceService") (ascii "/oxool/resource/")
        (ascii "Resource service.") [])
  maRegisteredURI := []

/-! ## Modules and their configuration files -/

/-- A configuration file has one module. Internal modules have no such file. -/
def Unique (modules : SortedMap Bytes Base) : Prop :=
  ∀ id module id' module', (id, module) ∈ modules.entries → (id', module') ∈ modules.entries →
    module.maConfigFile = module'.maConfigFile → module.maConfigFile ≠ [] → id = id'

/-- A call is as one would have it: no configuration file has two modules afterwards, and if the
call fails the map is the same. -/
def Call.Atomic (m : Manager) (call : Call) : Prop :=
  Unique (call.run m).1.maModuleMap ∧ ((call.run m).2 = some false → (call.run m).1.maModuleMap = m.maModuleMap)

/-- The module is enabled, and its configuration can be read. -/
structure Call.Enabled (call : Call) : Prop where
  extension : call.outside.getExtension call.configFile = ascii "xml"
  isModule : call.config.isModule = true
  enable : call.config.enable = some true
  adminPrivilege : call.config.adminPrivilege.isSome

/-- There is a library that cannot be loaded, and a module to lose by it. -/
def Call.LosesModule (m : Manager) (call : Call) : Prop :=
  call.Enabled ∧ call.config.load ≠ [] ∧ call.outside.isFile call.soFile = true ∧
    call.outside.load call.soFile = none ∧
    ∃ e ∈ m.maModuleMap.entries, e.2.maConfigFile = call.configFile

/-- There is no library, and a module with the configuration file already, at another id. -/
def Call.Doubles (m : Manager) (call : Call) : Prop :=
  call.Enabled ∧ call.config.load = [] ∧ call.configFile ≠ [] ∧
    ∃ e ∈ m.maModuleMap.entries, e.2.maConfigFile = call.configFile ∧ e.1 ≠ call.id

/-- The calls of a run, each as one would have it. -/
def Atomic (m : Manager) (calls : List Call) : Prop :=
  Run.Meets (fun m call => (Call.run call m).1) (fun m call => call.Atomic m) m calls

theorem run_of_not_enabled {call : Call} (h : ¬ call.Enabled) (m : Manager) :
    (call.run m).1 = m := by
  rw [Call.run]
  by_cases hextension : call.outside.getExtension call.configFile = ascii "xml"
  · rw [if_neg (not_not.mpr hextension)]
    cases hmodule : call.config.isModule with
    | false => rfl
    | true =>
      rw [if_neg (by decide)]
      cases henable : call.config.enable with
      | none => rfl
      | some enable =>
        cases enable with
        | false => rfl
        | true =>
          cases hprivilege : call.config.adminPrivilege with
          | none => rfl
          | some adminPrivilege =>
            have hsome : call.config.adminPrivilege.isSome = true := by rw [hprivilege]; rfl
            exact absurd ⟨hextension, hmodule, henable, hsome⟩ h
  · rw [if_pos hextension]

/-- What is left to do for a module that is enabled. -/
theorem run_of_enabled {call : Call} (h : call.Enabled) (m : Manager) : ∃ adminPrivilege,
    call.run m =
      if call.config.load = [] then (call.add adminPrivilege call.outside.packageVersion m, some true)
      else if !call.outside.isFile call.soFile then (m, some false)
      else
        match call.outside.load call.soFile with
        | none => ({ m with maModuleMap := eraseConfig call.configFile m.maModuleMap }, some false)
        | some version =>
          (call.add adminPrivilege version { m with maModuleMap := eraseConfig call.configFile m.maModuleMap },
            some true) := by
  obtain ⟨hextension, hmodule, henable, hprivilege⟩ := h
  obtain ⟨adminPrivilege, hprivilege⟩ := Option.isSome_iff_exists.mp hprivilege
  refine ⟨adminPrivilege, ?_⟩
  rw [Call.run, if_neg (not_not.mpr hextension), hmodule, henable, hprivilege]
  rfl

/-- **What a call does**: nothing to the map, or one of three things. -/
theorem run_cases (call : Call) (m : Manager) :
    ((call.run m).1 = m ∧ ¬ call.LosesModule m ∧ ¬ call.Doubles m) ∨
    (call.Enabled ∧ call.config.load = [] ∧
      ∃ adminPrivilege version, call.run m = (call.add adminPrivilege version m, some true)) ∨
    (call.Enabled ∧ call.config.load ≠ [] ∧ call.outside.isFile call.soFile = true ∧
      call.outside.load call.soFile = none ∧
      call.run m = ({ m with maModuleMap := eraseConfig call.configFile m.maModuleMap }, some false)) ∨
    (call.Enabled ∧ call.config.load ≠ [] ∧ call.outside.load call.soFile ≠ none ∧
      ∃ adminPrivilege version, call.run m = (call.add adminPrivilege version
        { m with maModuleMap := eraseConfig call.configFile m.maModuleMap }, some true)) := by
  by_cases henabled : call.Enabled
  · obtain ⟨adminPrivilege, hrun⟩ := run_of_enabled henabled m
    rw [hrun]
    by_cases hload : call.config.load = []
    · rw [if_pos hload]
      exact .inr (.inl ⟨henabled, hload, _, _, rfl⟩)
    · rw [if_neg hload]
      cases hfile : call.outside.isFile call.soFile with
      | false =>
        refine .inl ⟨rfl, ?_, fun h => hload h.2.1⟩
        intro h
        exact Bool.false_ne_true (hfile.symm.trans h.2.2.1)
      | true =>
        rw [if_neg (by decide)]
        cases hlibrary : call.outside.load call.soFile with
        | none => exact .inr (.inr (.inl ⟨henabled, hload, rfl, rfl, rfl⟩))
        | some version => exact .inr (.inr (.inr ⟨henabled, hload, Option.some_ne_none version, _, _, rfl⟩))
  · exact .inl ⟨run_of_not_enabled henabled m, fun h => henabled h.1, fun h => henabled h.1⟩

section
variable {modules : SortedMap Bytes Base} {configFile : Bytes}

theorem of_find_config {e : Bytes × Base}
    (h : modules.entries.find? (·.2.maConfigFile = configFile) = some e) :
    e ∈ modules.entries ∧ e.2.maConfigFile = configFile := by
  have hfile := List.find?_some h
  rw [decide_eq_true_eq] at hfile
  exact ⟨List.mem_of_find?_eq_some h, hfile⟩

/-- What is left is what was there, and no module with the configuration file. -/
theorem mem_eraseConfig {e : Bytes × Base} (hunique : Unique modules) (hconfig : configFile ≠ []) :
    e ∈ (eraseConfig configFile modules).entries ↔ e ∈ modules.entries ∧ e.2.maConfigFile ≠ configFile := by
  rw [eraseConfig]
  cases hfind : modules.entries.find? (·.2.maConfigFile = configFile) with
  | none =>
    rw [List.find?_eq_none] at hfind
    refine ⟨fun he => ⟨he, fun heq => hfind e he (decide_eq_true heq)⟩, And.left⟩
  | some e' =>
    obtain ⟨he', hconfig'⟩ := of_find_config hfind
    have hmem : e ∈ (modules.erase e'.1).entries ↔ e.1 ≠ e'.1 ∧ e ∈ modules.entries := SortedMap.mem_erase
    rw [hmem, and_comm]
    constructor
    · rintro ⟨he, hne⟩
      exact ⟨he, fun heq => hne (hunique _ _ _ _ he he' (heq.trans hconfig'.symm) (heq ▸ hconfig))⟩
    · rintro ⟨he, hne⟩
      refine ⟨he, fun heq => hne ?_⟩
      have hsame : e = e' := by
        refine Prod.ext heq ?_
        rw [← hconfig'] at hne
        exact SortedMap.value_unique (heq ▸ he) he'
      rw [hsame, hconfig']

theorem subset_eraseConfig : (eraseConfig configFile modules).entries ⊆ modules.entries := by
  rw [eraseConfig]
  split
  · exact List.filter_sublist.subset
  · exact List.Subset.refl _

theorem Unique.subset {modules' : SortedMap Bytes Base} (h : Unique modules)
    (hsubset : modules'.entries ⊆ modules.entries) : Unique modules' :=
  fun _ _ _ _ hmem hmem' => h _ _ _ _ (hsubset hmem) (hsubset hmem')

/-- **A new module** leaves the map unique if it is the only one with its configuration file. -/
theorem unique_set_iff (hunique : Unique modules) {id : Bytes} {module : Base} :
    Unique (modules.set id module) ↔
      (module.maConfigFile ≠ [] → ∀ e ∈ modules.entries, e.2.maConfigFile = module.maConfigFile → e.1 = id) := by
  constructor
  · intro h hconfig e he heq
    by_contra hne
    exact hne (h e.1 e.2 id module (SortedMap.mem_set.mpr (.inr ⟨hne, he⟩))
      (SortedMap.mem_set.mpr (.inl ⟨rfl, rfl⟩)) heq (heq ▸ hconfig))
  · intro h id' module' id'' module'' hmem' hmem'' heq hconfig
    rcases SortedMap.mem_set.mp hmem' with ⟨rfl, rfl⟩ | ⟨-, hold'⟩
    · rcases SortedMap.mem_set.mp hmem'' with ⟨rfl, rfl⟩ | ⟨-, hold''⟩
      · rfl
      · exact (h hconfig _ hold'' heq.symm).symm
    · rcases SortedMap.mem_set.mp hmem'' with ⟨rfl, rfl⟩ | ⟨-, hold''⟩
      · exact h (heq ▸ hconfig) _ hold' heq
      · exact hunique _ _ _ _ hold' hold'' heq hconfig

end

/-- **One call** is as one would have it unless it loses a module or doubles one. -/
theorem atomic_call_iff {m : Manager} (hunique : Unique m.maModuleMap) (call : Call) :
    call.Atomic m ↔ ¬ call.LosesModule m ∧ ¬ call.Doubles m := by
  rcases run_cases call m with ⟨hsame, hnone⟩ | ⟨henabled, hload, adminPrivilege, version, heq⟩ |
      ⟨henabled, hload, hisFile, hnone, heq⟩ | ⟨henabled, hload, hloads, adminPrivilege, version, heq⟩
  · rw [Call.Atomic, hsame]
    exact iff_of_true ⟨hunique, fun _ => rfl⟩ hnone
  · have hloses : ¬ call.LosesModule m := fun h => h.2.1 hload
    rw [Call.Atomic, heq]
    simp only [Option.some.injEq, Bool.true_eq_false, false_implies, and_true, hloses,
      not_false_eq_true,
      true_and]
    rw [Call.add, unique_set_iff hunique, Call.Doubles]
    constructor
    · rintro h ⟨-, -, hconfig, e, he, hfile, hne⟩
      exact hne (h hconfig e he hfile)
    · intro h hconfig e he hfile
      by_contra hne
      exact h ⟨henabled, hload, hconfig, e, he, hfile, hne⟩
  · have hdoubles : ¬ call.Doubles m := fun h => hload h.2.1
    have hunique' : Unique (eraseConfig call.configFile m.maModuleMap) := hunique.subset subset_eraseConfig
    rw [Call.Atomic, heq]
    simp only [hunique', true_implies, hdoubles, not_false_eq_true, and_true, true_and]
    constructor
    · rintro hsame ⟨-, -, -, -, e, he, hfile⟩
      have hfound : (m.maModuleMap.entries.find? (·.2.maConfigFile = call.configFile)).isSome := by
        rw [List.find?_isSome]
        exact ⟨e, he, decide_eq_true hfile⟩
      obtain ⟨e', he'⟩ := Option.isSome_iff_exists.mp hfound
      rw [eraseConfig, he'] at hsame
      exact SortedMap.erase_ne (of_find_config he').1 hsame
    · intro h
      rw [eraseConfig]
      cases hfind : m.maModuleMap.entries.find? (·.2.maConfigFile = call.configFile) with
      | none => rfl
      | some e =>
        exact absurd ⟨henabled, hload, hisFile, hnone, e, of_find_config hfind⟩ h
  · have hunique' : Unique (eraseConfig call.configFile m.maModuleMap) := hunique.subset subset_eraseConfig
    rw [Call.Atomic, heq]
    refine iff_of_true ⟨?_, fun h => by cases h⟩ ⟨fun h => hloads h.2.2.2.1, fun h => hload h.2.1⟩
    refine (unique_set_iff hunique').mpr ?_
    intro hconfig e he hfile
    exact absurd hfile ((mem_eraseConfig hunique hconfig).mp he).2

/-! ## Runs -/

/-- **Loading is atomic**, from any state in which no configuration file has two modules. -/
theorem atomic_iff_of_unique {m : Manager} (hunique : Unique m.maModuleMap) (calls : List Call) :
    Atomic m calls ↔ Run.Meets (fun m call => (Call.run call m).1)
      (fun m call => ¬ call.LosesModule m ∧ ¬ call.Doubles m) m calls := by
  constructor
  · intro h
    have hkept : ∀ (m : Manager) (call : Call), Unique m.maModuleMap → call.Atomic m →
        Unique (call.run m).1.maModuleMap := fun _ _ _ hcall => hcall.1
    exact h.imp hkept (fun _ call hm => (atomic_call_iff hm call).mp) hunique
  · intro h
    have hkept : ∀ (m : Manager) (call : Call), Unique m.maModuleMap →
        ¬ call.LosesModule m ∧ ¬ call.Doubles m → Unique (call.run m).1.maModuleMap :=
      fun _ call hm hcall => ((atomic_call_iff hm call).mpr hcall).1
    exact h.imp hkept (fun _ call hm => (atomic_call_iff hm call).mpr) hunique

theorem unique_initial (fileServerRoot : Bytes) :
    Unique (Manager.initial fileServerRoot).maModuleMap := by
  intro id module id' module' hmem _ _ hconfig
  have hinternal : ∀ e ∈ (Manager.initial fileServerRoot).maModuleMap.entries, e.2.maConfigFile = [] := by
    rintro ⟨id, module⟩ he
    rcases SortedMap.mem_set.mp he with ⟨-, rfl⟩ | ⟨-, he⟩
    · rfl
    · rcases SortedMap.mem_set.mp he with ⟨-, rfl⟩ | ⟨-, he⟩
      · rfl
      · rcases SortedMap.mem_set.mp he with ⟨-, rfl⟩ | ⟨-, he⟩
        · rfl
        · cases he
  exact absurd (hinternal _ hmem) hconfig

/-- **Loading is atomic** in the runs without a call that loses a module, or doubles one, and in no
other. -/
theorem loading_atomic_iff (fileServerRoot : Bytes) (calls : List Call) :
    Atomic (.initial fileServerRoot) calls ↔ Run.Meets (fun m call => (Call.run call m).1)
      (fun m call => ¬ call.LosesModule m ∧ ¬ call.Doubles m) (.initial fileServerRoot) calls :=
  atomic_iff_of_unique (unique_initial fileServerRoot) calls

/-- A configuration file, with or without a library that can be loaded, or not. -/
def loading (library : Bytes) (loads : Bool) (uuid : Bytes) : Call where
  configFile := ascii "/etc/oxool/draw.xml"
  outside := {
    moduleDir := ascii "/lib"
    moduleDataDir := ascii "/share"
    packageVersion := ascii "4.0"
    getExtension := fun _ => ascii "xml"
    trim := id
    parent := id
    config := fun _ => { name := ascii "draw", load := library }
    isFile := fun _ => true
    fileExists := fun _ => false
    load := fun _ => if loads then some (ascii "1.0") else none
    uuid := uuid }

/-- A library that has become broken takes its module away, and a module without a library is there
twice. -/
theorem not_loading_atomic :
    ¬ Atomic (.initial []) [loading (ascii "draw.so") true (ascii "a"), loading (ascii "draw.so") false (ascii "b")] ∧
      ¬ Atomic (.initial []) [loading [] true (ascii "a"), loading [] true (ascii "b")] := by
  constructor
  · rintro ⟨-, ⟨-, hsame⟩, -⟩
    have hlength := congrArg (fun modules => modules.entries.length) (hsame (by decide +kernel))
    exact absurd hlength (by decide +kernel)
  · rintro ⟨-, ⟨hunique, -⟩, -⟩
    have hids : ascii "draw_a" = ascii "draw_b" := by
      apply hunique _ ((loading [] true (ascii "a")).module false (ascii "4.0")) _
        ((loading [] true (ascii "b")).module false (ascii "4.0"))
      · decide +kernel
      · decide +kernel
      · rfl
      · decide +kernel
    exact absurd hids (by decide +kernel)

end Loading

end Oxool.Modules
