import Oxool.Lib.Run
import Oxool.Modules.Files

/-!
# Details of modules (`OxOOL/ModuleManager.cpp`, `OxOOL/L10NTranslator.cpp`)

The console asks for the modules with their details, in a language. `getModuleDetailJson` looks the
texts up in the module's table for the language, and writes what it finds into the record of the
module itself: the next one who asks gets it from there, whatever his language.

A call comes to an end where the translator throws. What is translated by then stays.
-/

set_option autoImplicit false

namespace Oxool.Modules

open Oxool.Http (Bytes ascii)

/-- `OxOOL::Module::Detail`. -/
structure Detail where
  name : Bytes := []
  serviceURI : Bytes := []
  version : Bytes := []
  summary : Bytes := []
  author : Bytes := []
  license : Bytes := []
  description : Bytes := []
  adminPrivilege : Bool := false
  adminIcon : Bytes := []
  adminItem : Bytes := []
deriving DecidableEq

/-- `OxOOL::Module::Base`. -/
structure Base where
  maId : Bytes := []
  maDetail : Detail := {}
  maConfigFile : Bytes := []
  maRootPath : Bytes := []
  maBrowserURI : Bytes := []
  maAdminURI : Bytes := []
deriving DecidableEq

namespace Details

/-! ## The code -/

/-- A file of translations, as the parser reads it. -/
inductive L10NFile where
  | missing
  /-- The parser throws. -/
  | malformed
  | noObject
  /-- Of a message there is a text, or something that `getValue` throws at. -/
  | object (messages : List (Bytes × Option Bytes))

inductive Value where
  | text (s : Bytes)
  | flag (b : Bool)
deriving DecidableEq

/-- The file system, the root of the services, and `Poco::JSON::Object::stringify`. -/
structure Outside where
  l10nFile : Bytes → L10NFile
  fileExists : Bytes → Bool
  serviceRoot : Bytes
  stringify : List (Bytes × Value) → Bytes

variable (o : Outside)

/-- `HttpHelper::getServiceURI`. -/
def getServiceURI (uri : Bytes) : Bytes := if uri = [] then [] else o.serviceRoot ++ uri

/-- `L10NTranslator::setLanguage`. -/
def language (langTag : Bytes) : Bytes :=
  if langTag = ascii "zh-Hant" ∨ langTag = ascii "zh-tw" then ascii "zh-TW"
  else if langTag = ascii "zh-Hans" ∨ langTag = ascii "zh-cn" then ascii "zh-CN"
  else langTag

/-- `L10NTranslator::makeTranslator`: the messages. `none` where it throws. -/
def makeTranslator (module : Base) (langTag : Bytes) : Option (List (Bytes × Option Bytes)) :=
  match o.l10nFile (module.maRootPath ++ ascii "/browser/l10n/" ++ language langTag ++ ascii ".json") with
  | .malformed => none
  | .object messages => some messages
  | _ => some []

/-- `L10NTranslator::_`. -/
def translate (messages : List (Bytes × Option Bytes)) (message : Bytes) : Option Bytes :=
  (messages.lookup message).getD (some message)

/-- A text of the details. -/
structure Field where
  get : Detail → Bytes
  set : Bytes → Detail → Detail

/-- The texts that are translated, in their order. -/
def translated : List Field :=
  [⟨Detail.version, fun s detail => { detail with version := s }⟩,
    ⟨Detail.summary, fun s detail => { detail with summary := s }⟩,
    ⟨Detail.author, fun s detail => { detail with author := s }⟩,
    ⟨Detail.license, fun s detail => { detail with license := s }⟩,
    ⟨Detail.description, fun s detail => { detail with description := s }⟩,
    ⟨Detail.adminItem, fun s detail => { detail with adminItem := s }⟩]

/-- The assignments of translations, and whether none of them threw. -/
def assign (messages : List (Bytes × Option Bytes)) : List Field → Detail → Detail × Bool
  | [], detail => (detail, true)
  | field :: fields, detail =>
    match translate messages (field.get detail) with
    | none => (detail, false)
    | some s => assign messages fields (field.set s detail)

def detailJson (module : Base) : List (Bytes × Value) :=
  let detail := module.maDetail
  [(ascii "id", .text module.maId),
    (ascii "adminURI", .text (getServiceURI o module.maAdminURI)),
    (ascii "browserURI", .text (getServiceURI o module.maBrowserURI)),
    (ascii "browserModuleJS", .text (if o.fileExists (module.maRootPath ++ ascii "/browser/module.js") then
      getServiceURI o (module.maBrowserURI ++ ascii "module.js") else [])),
    (ascii "name", .text detail.name),
    (ascii "serviceURI", .text (getServiceURI o detail.serviceURI)),
    (ascii "version", .text detail.version),
    (ascii "summary", .text detail.summary),
    (ascii "author", .text detail.author),
    (ascii "license", .text detail.license),
    (ascii "description", .text detail.description),
    (ascii "adminPrivilege", .flag detail.adminPrivilege),
    (ascii "adminIcon", .text detail.adminIcon),
    (ascii "adminItem", .text detail.adminItem)]

/-- `getModuleDetailJson`: the module afterwards, and the object unless something threw. -/
def getModuleDetailJson (langTag : Bytes) (module : Base) : Base × Option (List (Bytes × Value)) :=
  if langTag = [] then (module, some (detailJson o module))
  else
    match makeTranslator o module langTag with
    | none => (module, none)
    | some messages =>
      let (detail, ok) := assign messages translated module.maDetail
      let module := { module with maDetail := detail }
      (module, if ok then some (detailJson o module) else none)

/-- The loop over the modules: all of them afterwards, and the objects of those that are listed. -/
def detailsLoop (listed : Base → Bool) (langTag : Bytes) :
    List Base → List Base × Option (List Bytes)
  | [] => ([], some [])
  | module :: modules =>
    if listed module then
      match getModuleDetailJson o langTag module with
      | (module, none) => (module :: modules, none)
      | (module, some json) =>
        let (modules, jsons) := detailsLoop listed langTag modules
        (module :: modules, jsons.map (o.stringify json :: ·))
    else
      let (modules, jsons) := detailsLoop listed langTag modules
      (module :: modules, jsons)

/-- `getAllModuleDetailsJsonString`, or `getAdminModuleDetailsJsonString`, with a language. -/
structure Call where
  admin : Bool
  langTag : Bytes
deriving DecidableEq

/-- The modules of the list that a call asks for. -/
def Call.lists (call : Call) (module : Base) : Bool := !call.admin || module.maAdminURI != []

/-- The modules afterwards, and the text. `none` where the call throws. -/
def Call.run (call : Call) (modules : List Base) : List Base × Option Bytes :=
  let (modules, jsons) := detailsLoop o call.lists call.langTag modules
  (modules, jsons.map fun jsons => ascii "[" ++ [44].intercalate jsons ++ ascii "]")

/-- Each call leaves the modules as they are, and has the text it would have as the first. -/
def Independent (modules : List Base) (calls : List Call) : Prop :=
  Run.Meets (fun modules call => (call.run o modules).1)
    (fun before call => call.run o before = (before, (call.run o modules).2)) modules calls

/-! ## What is translated -/

/-- Texts with what is found for them, up to the first that the translator throws at: it is the
same. -/
def Unchanged : List (Bytes × Option Bytes) → Prop
  | [] => True
  | (_, none) :: _ => True
  | (text, some s) :: rest => s = text ∧ Unchanged rest

instance : DecidablePred Unchanged := fun l => by
  induction l with
  | nil => exact .isTrue trivial
  | cons e rest ih =>
    obtain ⟨text, found⟩ := e
    cases found with
    | none => exact .isTrue trivial
    | some s => exact inferInstanceAs (Decidable (s = text ∧ Unchanged rest))

/-- The texts of a module that are looked up, with what is found. -/
def lookedUp (langTag : Bytes) (module : Base) : List (Bytes × Option Bytes) :=
  if langTag = [] then []
  else
    match makeTranslator o module langTag with
    | none => [([], none)]
    | some messages => translated.map fun field =>
      (field.get module.maDetail, translate messages (field.get module.maDetail))

/-- The same for all modules of a call. -/
def Call.lookedUp (call : Call) (modules : List Base) : List (Bytes × Option Bytes) :=
  (modules.filter call.lists).flatMap (Details.lookedUp o call.langTag)

theorem unchanged_append {l l' : List (Bytes × Option Bytes)} :
    Unchanged (l ++ l') ↔ Unchanged l ∧ ((∀ e ∈ l, e.2.isSome) → Unchanged l') := by
  induction l with
  | nil => simp [Unchanged]
  | cons e l ih =>
    obtain ⟨text, found⟩ := e
    cases found with
    | none => simp [Unchanged]
    | some s =>
      rw [List.cons_append, Unchanged, Unchanged, ih, and_assoc]
      simp

/-! ## One module -/

/-- Fields that are no part of each other. -/
def Field.Apart (field field' : Field) : Prop :=
  (∀ s detail, field.get (field'.set s detail) = field.get detail) ∧
    ∀ s detail, field'.get (field.set s detail) = field'.get detail

/-- A field can be read and written. -/
structure Field.Lawful (field : Field) : Prop where
  get_set : ∀ s detail, field.get (field.set s detail) = s
  set_get : ∀ detail, field.set (field.get detail) detail = detail

theorem lawful_translated : ∀ field ∈ translated, field.Lawful := by
  simp only [translated, List.forall_mem_cons]
  exact ⟨⟨fun _ _ => rfl, fun _ => rfl⟩, ⟨fun _ _ => rfl, fun _ => rfl⟩, ⟨fun _ _ => rfl, fun _ => rfl⟩,
    ⟨fun _ _ => rfl, fun _ => rfl⟩, ⟨fun _ _ => rfl, fun _ => rfl⟩, ⟨fun _ _ => rfl, fun _ => rfl⟩,
    List.forall_mem_nil _⟩

theorem apart_translated : translated.Pairwise Field.Apart := by
  simp [translated, Field.Apart]

section
variable {messages : List (Bytes × Option Bytes)} {fields : List Field} {detail : Detail}

/-- The assignments leave other fields alone. -/
theorem get_assign {field : Field} (hapart : ∀ field' ∈ fields, field.Apart field') :
    field.get (assign messages fields detail).1 = field.get detail := by
  induction fields generalizing detail with
  | nil => rfl
  | cons field' fields ih =>
    rw [List.forall_mem_cons] at hapart
    rw [assign]
    split
    · rfl
    · rw [ih hapart.2, hapart.1.1]

/-- What the assignments look up. -/
theorem assign_spec (hlawful : ∀ field ∈ fields, field.Lawful)
    (hapart : fields.Pairwise Field.Apart) :
    ((assign messages fields detail).1 = detail ↔
      Unchanged (fields.map fun field => (field.get detail, translate messages (field.get detail)))) ∧
    ((assign messages fields detail).2 = true ↔
      ∀ field ∈ fields, (translate messages (field.get detail)).isSome) := by
  induction fields generalizing detail with
  | nil => simp [assign, Unchanged]
  | cons field fields ih =>
    rw [List.forall_mem_cons] at hlawful
    rw [List.pairwise_cons] at hapart
    rw [List.map_cons, List.forall_mem_cons, assign]
    cases hfound : translate messages (field.get detail) with
    | none => simp [Unchanged]
    | some s =>
      obtain ⟨hsame, hok⟩ := @ih (field.set s detail) hlawful.2 hapart.2
      have hget : ∀ field' ∈ fields, field'.get (field.set s detail) = field'.get detail :=
        fun field' hfield' => (hapart.1 field' hfield').2 s detail
      have hmap : (fields.map fun field' =>
            (field'.get (field.set s detail), translate messages (field'.get (field.set s detail)))) =
          fields.map fun field' => (field'.get detail, translate messages (field'.get detail)) := by
        apply List.map_congr_left
        intro field' hfield'
        rw [hget field' hfield']
      rw [hmap] at hsame
      dsimp only
      constructor
      · rw [Unchanged]
        constructor
        · intro heq
          -- the later assignments leave this field alone
          have hs : s = field.get detail := by
            have hkept : field.get (assign messages fields (field.set s detail)).1 =
                field.get (field.set s detail) := get_assign hapart.1
            rw [heq, hlawful.1.get_set] at hkept
            exact hkept.symm
          rw [hs, hlawful.1.set_get] at heq
          rw [hs, hlawful.1.set_get] at hsame
          exact ⟨hs, hsame.mp heq⟩
        · rintro ⟨hs, hrest⟩
          have heq := hsame.mpr hrest
          rw [hs, hlawful.1.set_get] at heq ⊢
          exact heq
      · rw [hok]
        constructor
        · exact fun h => ⟨rfl, fun field' hfield' => hget field' hfield' ▸ h field' hfield'⟩
        · exact fun h field' hfield' => (hget field' hfield').symm ▸ h.2 field' hfield'

end

/-- **One module**: it stays as it is where its texts do, and an object comes out where nothing
throws. -/
theorem getModuleDetailJson_spec (langTag : Bytes) (module : Base) :
    ((getModuleDetailJson o langTag module).1 = module ↔ Unchanged (lookedUp o langTag module)) ∧
      ((getModuleDetailJson o langTag module).2.isSome ↔ ∀ e ∈ lookedUp o langTag module, e.2.isSome) := by
  rw [getModuleDetailJson, lookedUp]
  split
  · simp [Unchanged]
  · split
    · simp [Unchanged]
    · next messages hmessages =>
      obtain ⟨hsame, hok⟩ : ((assign messages translated module.maDetail).1 = module.maDetail ↔ _) ∧
          ((assign messages translated module.maDetail).2 = true ↔ _) := assign_spec lawful_translated apart_translated
      constructor
      · rw [← hsame]
        constructor
        · exact fun h => congrArg Base.maDetail h
        · intro h
          show { module with maDetail := _ } = module
          rw [h]
      · rw [List.forall_mem_map, ← hok]
        dsimp only
        cases (assign messages translated module.maDetail).2 with
        | true => simp
        | false => simp

/-! ## Runs -/

/-- **All modules of a call**. -/
theorem detailsLoop_fst_iff (listed : Base → Bool) (langTag : Bytes) (modules : List Base) :
    (detailsLoop o listed langTag modules).1 = modules ↔
      Unchanged ((modules.filter listed).flatMap (lookedUp o langTag)) := by
  induction modules with
  | nil => simp [detailsLoop, Unchanged]
  | cons module modules ih =>
    rw [detailsLoop, List.filter_cons]
    cases hlisted : listed module with
    | false => simp [ih]
    | true =>
      obtain ⟨hsame, hsome⟩ := getModuleDetailJson_spec o langTag module
      rw [if_pos rfl, if_pos rfl, List.flatMap_cons, unchanged_append, ← hsame, ← hsome, ← ih]
      split
      · next module' heq => simp [heq]
      · next module' json heq => simp [heq]

theorem run_fst_iff (call : Call) (modules : List Base) :
    (call.run o modules).1 = modules ↔ Unchanged (call.lookedUp o modules) :=
  detailsLoop_fst_iff o call.lists call.langTag modules

/-- **Details depend on the language alone** if and only if no call has a text that is another in
its language. -/
theorem independent_iff (modules : List Base) (calls : List Call) :
    Independent o modules calls ↔ ∀ call ∈ calls, Unchanged (call.lookedUp o modules) := by
  constructor
  · intro h
    have hkept : ∀ (before : List Base) (call : Call), before = modules →
        call.run o before = (before, (call.run o modules).2) → (call.run o before).1 = modules := by
      rintro before call rfl hcall
      exact congrArg Prod.fst hcall
    have hcalls : ∀ (before : List Base) (call : Call), before = modules →
        call.run o before = (before, (call.run o modules).2) → Unchanged (call.lookedUp o modules) := by
      rintro before call rfl hcall
      exact (run_fst_iff o call before).mp (congrArg Prod.fst hcall)
    exact Run.meets_forall.mp (h.imp hkept hcalls rfl)
  · intro h
    have hmeets : Run.Meets (fun modules call => (Call.run o call modules).1)
        (fun _ call => Unchanged (call.lookedUp o modules)) modules calls := Run.meets_forall.mpr h
    have hkept : ∀ (before : List Base) (call : Call), before = modules →
        Unchanged (call.lookedUp o modules) → (call.run o before).1 = modules := by
      rintro before call rfl hcall
      exact (run_fst_iff o call before).mpr hcall
    apply hmeets.imp hkept _ rfl
    rintro before call rfl hcall
    exact Prod.ext ((run_fst_iff o call before).mpr hcall) rfl

/-- A module with a summary in two languages. -/
def drawing : Base :=
  { maId := ascii "draw_1", maRootPath := ascii "/draw", maAdminURI := ascii "/browser/dist/admin/module/draw_1/",
    maDetail := { name := ascii "draw", summary := ascii "Drawing" } }

def twoLanguages : Outside where
  l10nFile path := if path = ascii "/draw/browser/l10n/de.json" then
    .object [(ascii "Drawing", some (ascii "Zeichnen"))] else .missing
  fileExists _ := false
  serviceRoot := []
  stringify json := (json.lookup (ascii "summary")).elim [] fun
    | .text s => s
    | .flag _ => []

/-- Who asks in German leaves the German text to the others. -/
theorem not_independent :
    ¬ Independent twoLanguages [drawing] [⟨true, ascii "de"⟩, ⟨true, ascii "en"⟩] ∧
      ((⟨true, ascii "en"⟩ : Call).run twoLanguages [drawing]).2 = some (ascii "[Drawing]") ∧
      ((⟨true, ascii "en"⟩ : Call).run twoLanguages ((⟨true, ascii "de"⟩ : Call).run twoLanguages [drawing]).1).2 =
        some (ascii "[Zeichnen]") := by
  have hfirst : ((⟨true, ascii "en"⟩ : Call).run twoLanguages [drawing]).2 = some (ascii "[Drawing]") := by
    decide +kernel
  have hsecond : ((⟨true, ascii "en"⟩ : Call).run twoLanguages
      ((⟨true, ascii "de"⟩ : Call).run twoLanguages [drawing]).1).2 = some (ascii "[Zeichnen]") := by
    decide +kernel
  refine ⟨?_, hfirst, hsecond⟩
  rintro ⟨-, hsame, -⟩
  have htext := congrArg Prod.snd hsame
  dsimp only at htext
  rw [hsecond, hfirst] at htext
  exact absurd htext (by decide +kernel)

end Details

end Oxool.Modules
