import Oxool.Lib.SortedMap
import Oxool.Modules.Details

/-!
# Which module, and what in it (`OxOOL/ModuleManager.cpp`, `OxOOL/Module/Map.cpp`)

A service URI is an endpoint, for one path alone, or a directory, if it ends with a slash, for all
paths in it and for its own without the slash. A module has one, and within a module a `Map` has one
for each of its functions. Both take whatever path they are asked for through their entries, in the
order of the keys. `Map::handled` keeps the longest directory on its way; `handleByWhichModule` is
content with the first module, so that it depends on the ids whether a module in the directory of
another gets its requests (`dispatches_iff`).
-/

set_option autoImplicit false

namespace Oxool.Modules

open Oxool.Http (Bytes ascii)
open scoped Oxool.SortedMap

namespace Dispatch

/-! ## The code -/

/-- `ModuleManager::isService`, of the path of a request and a module's service URI. -/
def isService (requestURI serviceURI : Bytes) : Bool :=
  if 1 < serviceURI.length then
    if serviceURI.getLast? ≠ some slash then serviceURI == requestURI
    else serviceURI.isPrefixOf requestURI || requestURI == serviceURI.dropLast
  else false

/-- `ModuleManager::handleByWhichModule`. -/
def handleByWhichModule (modules : SortedMap Bytes Base) (requestURI : Bytes) : Option Base :=
  (modules.entries.find? fun e => isService requestURI e.2.maDetail.serviceURI).map Prod.snd

section
variable {ν : Type}

/-- The key that `Map::set` makes of a URI. -/
def subURI (uri : Bytes) : Bytes := if uri.head? = some slash then uri else slash :: uri

/-- `Map::set`, for one URI after the other. -/
def register (registrations : List (Bytes × ν)) : SortedMap Bytes ν :=
  registrations.foldl (fun mpUriMap r => mpUriMap.set (subURI r.1) r.2) .empty

/-- The path of a request without the service URI, all but its last slash. -/
def realRequestURI (maServiceURI requestURI : Bytes) : Bytes :=
  if requestURI.length ≤ maServiceURI.length then [slash] else requestURI.drop (maServiceURI.length - 1)

/-- The loop of `Map::handled`. -/
def hit (realRequestURI : Bytes) : List Bytes → Bytes → Bytes
  | [], hitURI => hitURI
  | subURI :: rest, hitURI =>
    if subURI = [slash] ∨ subURI.getLast? ≠ some slash then
      if subURI = realRequestURI then subURI else hit realRequestURI rest hitURI
    else if (realRequestURI = subURI.dropLast ∨ subURI.isPrefixOf realRequestURI) ∧ hitURI.length < subURI.length then
      hit realRequestURI rest subURI
    else hit realRequestURI rest hitURI

/-- The URI that `Map::handled` decides on, if there is one. -/
def hitURI (mpUriMap : SortedMap Bytes ν) (realRequestURI : Bytes) : Option Bytes :=
  let hitURI := hit realRequestURI (mpUriMap.entries.map Prod.fst) []
  if hitURI = [] then none else some hitURI

inductive Handled (ν : Type) where
  | notHandled
  | ok
  | methodNotAllowed
  | callback (f : ν)

/-- `Map::handled`, of the methods that are allowed for each URI and their callbacks, and of a
method by its bit. -/
def handled (mpUriMap : SortedMap Bytes (Nat × ν)) (maServiceURI requestURI : Bytes) (isHEAD : Bool)
    (checkMethod : Nat) : Handled ν :=
  if maServiceURI = [] then .notHandled
  else
    match (hitURI mpUriMap (realRequestURI maServiceURI requestURI)).bind mpUriMap.get? with
    | none => .notHandled
    | some (allowedMethods, callback) =>
      if isHEAD then .ok
      else if allowedMethods &&& checkMethod ≠ 0 then .callback callback
      else .methodNotAllowed

end

/-! ## Endpoints and directories -/

def Directory (uri : Bytes) : Prop := uri.getLast? = some slash

instance : DecidablePred Directory :=
  fun uri => inferInstanceAs (Decidable (uri.getLast? = some slash))

/-- A path is an endpoint's, or is in a directory. -/
def Takes (uri path : Bytes) : Prop := if Directory uri then uri <+: path ++ [slash] else uri = path

instance (uri path : Bytes) : Decidable (Takes uri path) := by
  unfold Takes
  infer_instance

/-- A directory with something in it, or an endpoint with the directory of its name. -/
structure Continues (uri uri' : Bytes) : Prop where
  isPrefix : uri <+: uri'
  ne : uri ≠ uri'
  directory : Directory uri ∨ uri' = uri ++ [slash]

/-- The first module with the longest of the service URIs that take a path, or none if none does. -/
structure MostSpecific (modules : SortedMap Bytes Base) (path : Bytes)
    (found : Option Base) : Prop where
  none : found = none → ∀ e ∈ modules.entries, isService path e.2.maDetail.serviceURI = false
  some : ∀ module, found = some module →
    (∃ id, (id, module) ∈ modules.entries) ∧ isService path module.maDetail.serviceURI = true ∧
      ∀ e ∈ modules.entries, isService path e.2.maDetail.serviceURI = true →
        e.2.maDetail.serviceURI.length ≤ module.maDetail.serviceURI.length

/-- No module is before one that continues its service URI, unless the other is an endpoint whose
path goes to the directory of its name. -/
def NoneHidden (modules : SortedMap Bytes Base) : Prop :=
  modules.entries.Pairwise fun e e' =>
    1 < e.2.maDetail.serviceURI.length → Continues e.2.maDetail.serviceURI e'.2.maDetail.serviceURI →
      ¬ Directory e'.2.maDetail.serviceURI ∧
        ∃ e₀ ∈ modules.entries, e₀.2.maDetail.serviceURI = e'.2.maDetail.serviceURI ++ [slash]

/-- An entry that is for one path alone. -/
def Exact (uri : Bytes) : Prop := uri = [slash] ∨ ¬ Directory uri

instance : DecidablePred Exact :=
  fun uri => inferInstanceAs (Decidable (uri = [slash] ∨ ¬ Directory uri))

/-- The entry that is the path, or else the longest directory the path is in. -/
structure Selected (uris : List Bytes) (path : Bytes) (found : Option Bytes) : Prop where
  exact : path ∈ uris → Exact path → found = some path
  directory : (path ∈ uris → ¬ Exact path) →
    (∀ uri, found = some uri → uri ∈ uris ∧ ¬ Exact uri ∧ Takes uri path ∧
      ∀ uri' ∈ uris, ¬ Exact uri' → Takes uri' path → uri'.length ≤ uri.length) ∧
    (found = none → ∀ uri ∈ uris, ¬ Exact uri → ¬ Takes uri path)

theorem directory_concat (uri : Bytes) : Directory (uri ++ [slash]) := List.getLast?_concat

theorem eq_dropLast_iff {uri path : Bytes} (h : Directory uri) :
    path = uri.dropLast ↔ uri = path ++ [slash] := by
  obtain ⟨front, rfl⟩ := List.getLast?_eq_some_iff.mp h
  rw [List.dropLast_concat, List.append_left_inj]
  exact eq_comm

/-- The two ways into a directory. -/
theorem takes_directory_iff {uri path : Bytes} (h : Directory uri) :
    Takes uri path ↔ path = uri.dropLast ∨ uri <+: path := by
  rw [Takes, if_pos h, List.prefix_concat_iff, eq_dropLast_iff h]

theorem takes_endpoint_iff {uri path : Bytes} (h : ¬ Directory uri) :
    Takes uri path ↔ uri = path := by
  rw [Takes, if_neg h]

theorem isService_iff {path uri : Bytes} :
    isService path uri = true ↔ 1 < uri.length ∧ Takes uri path := by
  rw [isService]
  split
  · next hlength =>
    rw [and_iff_right hlength]
    by_cases hdirectory : Directory uri
    · have hlast : ¬ uri.getLast? ≠ some slash := not_not.mpr hdirectory
      rw [if_neg hlast, takes_directory_iff hdirectory, Bool.or_eq_true, List.isPrefixOf_iff_prefix,
        beq_iff_eq]
      exact or_comm
    · have hlast : uri.getLast? ≠ some slash := hdirectory
      rw [if_pos hlast, takes_endpoint_iff hdirectory, beq_iff_eq]
  · next hlength => exact iff_of_false Bool.false_ne_true fun h => hlength h.1

/-- What takes a path with a slash behind it is a prefix. -/
theorem Takes.isPrefix {uri path : Bytes} (h : Takes uri path) : uri <+: path ++ [slash] := by
  rw [Takes] at h
  split at h
  · exact h
  · rw [h]
    exact List.prefix_append _ _

theorem Takes.of_isPrefix {uri path : Bytes} (h : Directory uri) (hfront : uri <+: path) :
    Takes uri path := by
  rw [Takes, if_pos h]
  exact hfront.trans (List.prefix_append _ _)

/-- **The longer one continues the shorter one**, of two that take a path. -/
theorem Takes.continues {uri uri' path : Bytes} (h : Takes uri path) (h' : Takes uri' path)
    (hlength : uri.length < uri'.length) : Continues uri uri' := by
  have hfront : uri <+: uri' := List.prefix_of_prefix_length_le h.isPrefix h'.isPrefix (Nat.le_of_lt hlength)
  refine ⟨hfront, fun heq => absurd (heq ▸ hlength) (Nat.lt_irrefl _), ?_⟩
  by_cases hdirectory : Directory uri
  · exact .inl hdirectory
  · rw [takes_endpoint_iff hdirectory] at h
    subst h
    refine .inr ?_
    rcases List.prefix_concat_iff.mp h'.isPrefix with heq | hshort
    · exact heq
    · exact absurd hshort.length_le (Nat.not_le_of_lt hlength)

/-- **A path for both**, a URI and one that continues it, and hardly for another that is as long. -/
theorem Continues.exists_path {uri uri' : Bytes} (h : Continues uri uri') (bound : Nat) :
    ∃ path, Takes uri path ∧ Takes uri' path ∧ ∀ uri₀, uri₀.length ≤ bound → Takes uri₀ path →
      uri'.length ≤ uri₀.length → uri₀ = uri' ∨ ¬ Directory uri' ∧ uri₀ = uri' ++ [slash] := by
  by_cases hdirectory : Directory uri
  · by_cases hdirectory' : Directory uri'
    · -- a long name that no entry has
      refine ⟨uri' ++ List.replicate (bound + 1) 120, .of_isPrefix hdirectory (h.isPrefix.trans
        (List.prefix_append _ _)), .of_isPrefix hdirectory' (List.prefix_append _ _), ?_⟩
      intro uri₀ hbound htakes hlength
      have hlong : uri₀.length < (uri' ++ List.replicate (bound + 1) (120 : UInt8)).length := by
        rw [List.length_append, List.length_replicate]
        omega
      have hfront : uri₀ <+: uri' ++ List.replicate (bound + 1) 120 :=
        List.prefix_of_prefix_length_le htakes.isPrefix (List.prefix_append _ _) (Nat.le_of_lt hlong)
      obtain ⟨more, rfl⟩ := List.prefix_of_prefix_length_le (List.prefix_append _ _) hfront hlength
      rw [List.prefix_append_right_inj] at hfront
      have hmore : ∀ b ∈ more, b = 120 := fun b hb => List.eq_of_mem_replicate (hfront.subset hb)
      have hdirectory₀ : Directory (uri' ++ more) := by
        by_contra hendpoint
        rw [takes_endpoint_iff hendpoint] at htakes
        rw [htakes] at hlong
        exact Nat.lt_irrefl _ hlong
      rcases List.eq_nil_or_concat' more with rfl | ⟨front, last, rfl⟩
      · exact .inl (List.append_nil uri')
      · rw [Directory, ← List.append_assoc, List.getLast?_concat, Option.some.injEq] at hdirectory₀
        have hlast := hmore last (List.mem_append_right _ (List.mem_singleton_self last))
        rw [hdirectory₀] at hlast
        exact absurd hlast (by decide)
    · refine ⟨uri', .of_isPrefix hdirectory h.isPrefix, (takes_endpoint_iff hdirectory').mpr rfl, ?_⟩
      intro uri₀ _ htakes hlength
      rcases List.prefix_concat_iff.mp htakes.isPrefix with heq | hshort
      · exact .inr ⟨hdirectory', heq⟩
      · exact .inl (hshort.eq_of_length_le hlength)
  · have heq := h.directory.resolve_left hdirectory
    subst heq
    refine ⟨uri, (takes_endpoint_iff hdirectory).mpr rfl, ?_, ?_⟩
    · rw [Takes, if_pos (directory_concat uri)]
    · intro uri₀ _ htakes hlength
      exact .inl (htakes.isPrefix.eq_of_length_le hlength)

/-! ## Modules -/

section
variable {modules : SortedMap Bytes Base}

/-- The module is the first that takes the path. -/
theorem handleByWhichModule_eq_some {path : Bytes} {module : Base} :
    handleByWhichModule modules path = some module ↔ ∃ id earlier later,
      modules.entries = earlier ++ (id, module) :: later ∧ isService path module.maDetail.serviceURI = true ∧
        ∀ e ∈ earlier, isService path e.2.maDetail.serviceURI = false := by
  rw [handleByWhichModule, Option.map_eq_some_iff]
  constructor
  · rintro ⟨⟨id, module'⟩, hfind, rfl⟩
    obtain ⟨hservice, earlier, later, heq, hearlier⟩ := List.find?_eq_some_iff_append.mp hfind
    exact ⟨id, earlier, later, heq, hservice, fun e he => by simpa using hearlier e he⟩
  · rintro ⟨id, earlier, later, heq, hservice, hearlier⟩
    refine ⟨(id, module), List.find?_eq_some_iff_append.mpr ⟨hservice, earlier, later, heq, ?_⟩, rfl⟩
    intro e he
    rw [hearlier e he]
    rfl

theorem mostSpecific_of_noneHidden (h : NoneHidden modules) (path : Bytes) :
    MostSpecific modules path (handleByWhichModule modules path) := by
  constructor
  · intro hnone e he
    rw [handleByWhichModule, Option.map_eq_none_iff, List.find?_eq_none] at hnone
    exact Bool.eq_false_iff.mpr (hnone e he)
  · intro module hfound
    obtain ⟨id, earlier, later, heq, hservice, hearlier⟩ := handleByWhichModule_eq_some.mp hfound
    have htakes := isService_iff.mp hservice
    have hlater : ∀ e ∈ modules.entries, isService path e.2.maDetail.serviceURI = true →
        module.maDetail.serviceURI.length < e.2.maDetail.serviceURI.length → e ∈ later := by
      intro e he heservice hlength
      rw [heq] at he
      rcases List.mem_append.mp he with he | he
      · exact absurd (hearlier e he) (Bool.eq_false_iff.not.mpr (not_not.mpr heservice))
      · rcases List.mem_cons.mp he with rfl | he
        · exact absurd hlength (Nat.lt_irrefl _)
        · exact he
    have hhidden : ∀ e ∈ later, Continues module.maDetail.serviceURI e.2.maDetail.serviceURI →
        ¬ Directory e.2.maDetail.serviceURI ∧
          ∃ e₀ ∈ modules.entries, e₀.2.maDetail.serviceURI = e.2.maDetail.serviceURI ++ [slash] := by
      intro e he hcontinues
      rw [NoneHidden, heq, List.pairwise_append, List.pairwise_cons] at h
      rw [heq]
      exact h.2.1.1 e he htakes.1 hcontinues
    refine ⟨⟨id, heq ▸ List.mem_append_right _ List.mem_cons_self⟩, hservice, ?_⟩
    intro e he heservice
    by_contra hlength
    rw [Nat.not_le] at hlength
    have hetakes := isService_iff.mp heservice
    obtain ⟨hendpoint, e₀, he₀, huri₀⟩ :=
      hhidden e (hlater e he heservice hlength) (htakes.2.continues hetakes.2 hlength)
    -- the directory of the endpoint's name takes the path as well, and nothing is before it either
    have hlength₀ : e.2.maDetail.serviceURI.length < e₀.2.maDetail.serviceURI.length := by
      rw [huri₀, List.length_append]
      exact Nat.lt_succ_self _
    have htakes₀ : Takes e₀.2.maDetail.serviceURI path := by
      rw [huri₀, (takes_endpoint_iff hendpoint).mp hetakes.2, Takes, if_pos (directory_concat path)]
    have hservice₀ := isService_iff.mpr ⟨hetakes.1.trans hlength₀, htakes₀⟩
    have hcontinues₀ := htakes.2.continues htakes₀ (hlength.trans hlength₀)
    refine (hhidden e₀ (hlater e₀ he₀ hservice₀ (hlength.trans hlength₀)) hcontinues₀).1 ?_
    rw [huri₀]
    exact directory_concat _

/-- Two modules with one service URI are one. -/
def DistinctServices (modules : SortedMap Bytes Base) : Prop :=
  ∀ e ∈ modules.entries, ∀ e' ∈ modules.entries, e.2.maDetail.serviceURI = e'.2.maDetail.serviceURI →
    1 < e.2.maDetail.serviceURI.length → e.1 = e'.1

/-- The length of the longest service URI. -/
theorem exists_bound (modules : SortedMap Bytes Base) :
    ∃ bound, ∀ e ∈ modules.entries, e.2.maDetail.serviceURI.length ≤ bound := by
  induction modules.entries with
  | nil => exact ⟨0, List.forall_mem_nil _⟩
  | cons e entries ih =>
    obtain ⟨bound, hbound⟩ := ih
    refine ⟨max e.2.maDetail.serviceURI.length bound, ?_⟩
    rw [List.forall_mem_cons]
    exact ⟨Nat.le_max_left _ _, fun e' he' => (hbound e' he').trans (Nat.le_max_right _ _)⟩

theorem noneHidden_of_mostSpecific (hdistinct : DistinctServices modules)
    (h : ∀ path, MostSpecific modules path (handleByWhichModule modules path)) : NoneHidden modules := by
  obtain ⟨bound, hbound⟩ := exists_bound modules
  rw [NoneHidden, List.pairwise_iff_forall_sublist]
  intro e e' hsublist hlength hcontinues
  have he : e ∈ modules.entries := hsublist.subset List.mem_cons_self
  have he' : e' ∈ modules.entries := hsublist.subset (List.mem_cons_of_mem _ List.mem_cons_self)
  have hkeys : e.1 < e'.1 := List.rel_of_pairwise_cons (modules.sorted.sublist hsublist) List.mem_cons_self
  have hlength' : 1 < e'.2.maDetail.serviceURI.length := hlength.trans_le hcontinues.isPrefix.length_le
  obtain ⟨path, htakes, htakes', honly⟩ := hcontinues.exists_path bound
  have hservice : isService path e.2.maDetail.serviceURI = true := isService_iff.mpr ⟨hlength, htakes⟩
  cases hfound : handleByWhichModule modules path with
  | none =>
    have hnone := (h path).none hfound e he
    rw [hservice] at hnone
    cases hnone
  | some module =>
    obtain ⟨-, hservice₀, hlongest⟩ := (h path).some module hfound
    obtain ⟨id, earlier, later, heq, -, hearlier⟩ := handleByWhichModule_eq_some.mp hfound
    have hmem : (id, module) ∈ modules.entries := heq ▸ List.mem_append_right _ List.mem_cons_self
    -- the module found is not behind the first of the two
    have hnotLater : ¬ e.1 < id := by
      intro hlt
      rw [heq] at he
      rcases List.mem_append.mp he with he | he
      · rw [hearlier e he] at hservice
        cases hservice
      · have hsorted := modules.sorted
        rw [heq, List.pairwise_append, List.pairwise_cons] at hsorted
        rcases List.mem_cons.mp he with rfl | he
        · exact lt_irrefl _ hlt
        · exact lt_asymm hlt (hsorted.2.1.1 e he)
    rcases honly _ (hbound _ hmem) (isService_iff.mp hservice₀).2
        (hlongest e' he' (isService_iff.mpr ⟨hlength', htakes'⟩)) with hsame | ⟨hendpoint, hdirectory⟩
    · have hid : id = e'.1 := hdistinct _ hmem _ he' hsame (hsame ▸ hlength')
      exact absurd (hid ▸ hkeys) hnotLater
    · exact ⟨hendpoint, _, hmem, hdirectory⟩

end

/-! ## Functions of a module -/

section
variable {ν : Type}

theorem mem_register {registrations : List (Bytes × ν)} {uri : Bytes} :
    uri ∈ (register registrations).entries.map Prod.fst ↔ ∃ r ∈ registrations, subURI r.1 = uri := by
  induction registrations using List.reverseRecOn with
  | nil => simp [register, SortedMap.empty]
  | append_singleton registrations r ih =>
    rw [List.mem_map] at ih ⊢
    rw [register, List.foldl_concat]
    constructor
    · rintro ⟨⟨uri', v⟩, hmem, rfl⟩
      rcases SortedMap.mem_set.mp hmem with ⟨heq, -⟩ | ⟨-, hmem⟩
      · exact ⟨r, List.mem_append_right _ (List.mem_singleton_self r), heq.symm⟩
      · obtain ⟨r', hr', heq⟩ := ih.mp ⟨_, hmem, rfl⟩
        exact ⟨r', List.mem_append_left _ hr', heq⟩
    · rintro ⟨r', hr', rfl⟩
      by_cases heq : subURI r'.1 = subURI r.1
      · exact ⟨(subURI r'.1, r.2), SortedMap.mem_set.mpr (.inl ⟨heq, rfl⟩), rfl⟩
      · rcases List.mem_append.mp hr' with hr' | hr'
        · obtain ⟨e, he, heq'⟩ := ih.mpr ⟨r', hr', rfl⟩
          exact ⟨e, SortedMap.mem_set.mpr (.inr ⟨heq' ▸ heq, he⟩), heq'⟩
        · rw [List.mem_singleton.mp hr'] at heq
          exact absurd rfl heq

theorem subURI_ne_nil (uri : Bytes) : subURI uri ≠ [] := by
  rw [subURI]
  split
  · next h =>
    rintro rfl
    cases h
  · exact List.cons_ne_nil _ _

section
variable {path uri found : Bytes} {uris : List Bytes}

theorem hit_exact (h : Exact uri) :
    hit path (uri :: uris) found = if uri = path then uri else hit path uris found := by
  rw [hit]
  exact if_pos h

theorem hit_directory (h : ¬ Exact uri) :
    hit path (uri :: uris) found = if Takes uri path ∧ found.length < uri.length then hit path uris uri
      else hit path uris found := by
  have hdirectory : Directory uri := by
    by_contra hnot
    exact h (.inr hnot)
  have hways : (path = uri.dropLast ∨ uri.isPrefixOf path = true) ↔ Takes uri path := by
    rw [List.isPrefixOf_iff_prefix, takes_directory_iff hdirectory]
  rw [hit, if_congr (and_congr_left' hways) rfl rfl]
  exact if_neg h

end

/-- **The loop** finds the path if it is there, or else the longest directory, if it is longer than
what it has. -/
theorem hit_spec (path : Bytes) (uris : List Bytes) (found : Bytes) :
    (path ∈ uris → Exact path → hit path uris found = path) ∧
    ((path ∈ uris → ¬ Exact path) →
      (hit path uris found = found ∨
        hit path uris found ∈ uris ∧ ¬ Exact (hit path uris found) ∧ Takes (hit path uris found) path) ∧
      found.length ≤ (hit path uris found).length ∧
      ∀ uri ∈ uris, ¬ Exact uri → Takes uri path → uri.length ≤ (hit path uris found).length) := by
  induction uris generalizing found with
  | nil => exact ⟨fun h => (List.not_mem_nil h).elim, fun _ => ⟨.inl rfl, Nat.le_refl _, List.forall_mem_nil _⟩⟩
  | cons uri uris ih =>
    have hskip : ∀ found', hit path (uri :: uris) found = hit path uris found' → uri ≠ path →
        (path ∈ uri :: uris → Exact path → hit path (uri :: uris) found = path) := by
      intro found' heq hne hmem hexact
      rw [heq]
      exact (ih found').1 ((List.mem_cons.mp hmem).resolve_left hne.symm) hexact
    by_cases hexact : Exact uri
    · by_cases hpath : uri = path
      · subst hpath
        have heq : hit uri (uri :: uris) found = uri := by
          rw [hit_exact hexact, if_pos rfl]
        exact ⟨fun _ _ => heq, fun h => absurd hexact (h List.mem_cons_self)⟩
      · have heq : hit path (uri :: uris) found = hit path uris found := by
          rw [hit_exact hexact, if_neg hpath]
        refine ⟨hskip found heq hpath, fun h => ?_⟩
        obtain ⟨hfound, hlength, hall⟩ := (ih found).2 fun hmem => h (List.mem_cons_of_mem _ hmem)
        rw [heq]
        refine ⟨hfound.imp id fun h => ⟨List.mem_cons_of_mem _ h.1, h.2⟩, hlength, ?_⟩
        rw [List.forall_mem_cons]
        exact ⟨fun hnot => absurd hexact hnot, hall⟩
    · have hpath : Exact path → uri ≠ path := fun h heq => hexact (heq ▸ h)
      by_cases htaken : Takes uri path ∧ found.length < uri.length
      · have heq : hit path (uri :: uris) found = hit path uris uri := by
          rw [hit_directory hexact, if_pos htaken]
        refine ⟨fun hmem h => hskip uri heq (hpath h) hmem h, fun h => ?_⟩
        obtain ⟨hfound, hlength, hall⟩ := (ih uri).2 fun hmem => h (List.mem_cons_of_mem _ hmem)
        rw [heq]
        refine ⟨.inr ?_, (Nat.le_of_lt htaken.2).trans hlength, ?_⟩
        · rcases hfound with hsame | ⟨hmem, hnot, htakes⟩
          · rw [hsame]
            exact ⟨List.mem_cons_self, hexact, htaken.1⟩
          · exact ⟨List.mem_cons_of_mem _ hmem, hnot, htakes⟩
        · rw [List.forall_mem_cons]
          exact ⟨fun _ _ => hlength, hall⟩
      · have heq : hit path (uri :: uris) found = hit path uris found := by
          rw [hit_directory hexact, if_neg htaken]
        refine ⟨fun hmem h => hskip found heq (hpath h) hmem h, fun h => ?_⟩
        obtain ⟨hfound, hlength, hall⟩ := (ih found).2 fun hmem => h (List.mem_cons_of_mem _ hmem)
        rw [heq]
        refine ⟨hfound.imp id fun h => ⟨List.mem_cons_of_mem _ h.1, h.2⟩, hlength, ?_⟩
        rw [List.forall_mem_cons]
        refine ⟨fun _ htakes => ?_, hall⟩
        by_contra hnot
        exact htaken ⟨htakes, Nat.lt_of_le_of_lt hlength (Nat.not_le.mp hnot)⟩

theorem selected_hitURI (mpUriMap : SortedMap Bytes ν)
    (hne : ∀ uri ∈ mpUriMap.entries.map Prod.fst, uri ≠ [])
    (path : Bytes) : Selected (mpUriMap.entries.map Prod.fst) path (hitURI mpUriMap path) := by
  obtain ⟨hexact, hdirectory⟩ := hit_spec path (mpUriMap.entries.map Prod.fst) []
  constructor
  · intro hmem h
    rw [hitURI, hexact hmem h, if_neg (hne path hmem)]
  · intro h
    obtain ⟨hfound, -, hall⟩ := hdirectory h
    rw [hitURI]
    split
    · next hnil =>
      refine ⟨fun uri huri => by (cases huri), fun _ uri huri hnot htakes => ?_⟩
      have hlength := hall uri huri hnot htakes
      rw [hnil, List.length_nil, Nat.le_zero, List.length_eq_zero_iff] at hlength
      exact hne uri huri hlength
    · next hnil =>
      refine ⟨fun uri huri => ?_, fun hnone => by (cases hnone)⟩
      obtain rfl := Option.some.inj huri
      obtain ⟨hmem, hnot, htakes⟩ := hfound.resolve_left hnil
      exact ⟨hmem, hnot, htakes, hall⟩

/-- What is selected is a matter of the URIs there are. -/
theorem Selected.unique {uris uris' : List Bytes} {path : Bytes} {found found' : Option Bytes}
    (h : Selected uris path found) (h' : Selected uris' path found') (hsame : ∀ uri, uri ∈ uris ↔ uri ∈ uris') :
    found = found' := by
  by_cases hexact : path ∈ uris ∧ Exact path
  · rw [h.exact hexact.1 hexact.2, h'.exact ((hsame path).mp hexact.1) hexact.2]
  · obtain ⟨hsome, hnone⟩ := h.directory fun hmem he => hexact ⟨hmem, he⟩
    obtain ⟨hsome', hnone'⟩ := h'.directory fun hmem he => hexact ⟨(hsame path).mpr hmem, he⟩
    cases hfound : found with
    | none =>
      cases hfound' : found' with
      | none => rfl
      | some uri' =>
        obtain ⟨hmem', hnot', htakes', -⟩ := hsome' uri' hfound'
        exact absurd htakes' (hnone hfound uri' ((hsame uri').mpr hmem') hnot')
    | some uri =>
      obtain ⟨hmem, hnot, htakes, hlongest⟩ := hsome uri hfound
      cases hfound' : found' with
      | none => exact absurd htakes (hnone' hfound' uri ((hsame uri).mp hmem) hnot)
      | some uri' =>
        obtain ⟨hmem', hnot', htakes', hlongest'⟩ := hsome' uri' hfound'
        have hle := hlongest' uri ((hsame uri).mp hmem) hnot htakes
        have hge := hlongest uri' ((hsame uri').mpr hmem') hnot' htakes'
        rw [(List.prefix_of_prefix_length_le htakes.isPrefix htakes'.isPrefix hle).eq_of_length_le hge]

end

theorem realRequestURI_append (front rest : Bytes) :
    realRequestURI (front ++ [slash]) (front ++ slash :: rest) = slash :: rest ∧
      realRequestURI (front ++ [slash]) front = [slash] := by
  constructor
  · rw [realRequestURI]
    split
    · next hlength =>
      simp only [List.length_append, List.length_cons, List.length_nil] at hlength
      rw [List.length_eq_zero_iff.mp (by omega : rest.length = 0)]
    · rw [List.length_append, List.length_singleton, Nat.add_sub_cancel, List.drop_left]
  · rw [realRequestURI, if_pos]
    rw [List.length_append]
    exact Nat.le_add_right _ _

/-- The requests for modules and for their functions, as one would have them. -/
structure Dispatches {ν : Type} (modules : SortedMap Bytes Base)
    (registrations : List (Bytes × ν)) : Prop where
  modules : ∀ path, MostSpecific modules path (handleByWhichModule modules path)
  stripped : ∀ front rest, realRequestURI (front ++ [slash]) (front ++ slash :: rest) = slash :: rest ∧
    realRequestURI (front ++ [slash]) front = [slash]
  functions : ∀ path, Selected (registrations.map fun r => subURI r.1) path (hitURI (register registrations) path)
  order : ∀ registrations' : List (Bytes × ν), registrations'.Perm registrations → ∀ path,
    hitURI (register registrations') path = hitURI (register registrations) path

/-- **Requests go to the most specific module and function** if and only if no module is hidden by
one with a smaller id. -/
theorem dispatches_iff {ν : Type} {modules : SortedMap Bytes Base}
    (hdistinct : DistinctServices modules)
    (registrations : List (Bytes × ν)) : Dispatches modules registrations ↔ NoneHidden modules := by
  constructor
  · exact fun h => noneHidden_of_mostSpecific hdistinct h.modules
  · intro h
    have hne : ∀ registrations : List (Bytes × ν),
        ∀ uri ∈ (register registrations).entries.map Prod.fst, uri ≠ [] := by
      intro registrations uri huri
      obtain ⟨r, -, rfl⟩ := mem_register.mp huri
      exact subURI_ne_nil r.1
    have hmem : ∀ (registrations : List (Bytes × ν)) (uri : Bytes),
        uri ∈ (register registrations).entries.map Prod.fst ↔ uri ∈ registrations.map fun r => subURI r.1 := by
      intro registrations uri
      rw [mem_register, List.mem_map]
    refine ⟨mostSpecific_of_noneHidden h, realRequestURI_append, ?_, ?_⟩
    · intro path
      obtain ⟨hexact, hdirectory⟩ := selected_hitURI (register registrations) (hne registrations) path
      simp only [hmem] at hexact hdirectory
      exact ⟨hexact, hdirectory⟩
    · intro registrations' hperm path
      apply (selected_hitURI _ (hne registrations') path).unique (selected_hitURI _ (hne registrations) path)
      intro uri
      rw [hmem, hmem, (hperm.map _).mem_iff]

/-- A module in the directory of another, with these ids. -/
def nested (inner outer : Bytes) : SortedMap Bytes Base :=
  (SortedMap.empty.set inner { maDetail := { serviceURI := ascii "/oxool/draw/" } }).set outer
    { maDetail := { serviceURI := ascii "/oxool/" } }

theorem mem_nested {inner outer : Bytes} {e : Bytes × Base} (h : e ∈ (nested inner outer).entries) :
    e = (outer, { maDetail := { serviceURI := ascii "/oxool/" } }) ∨
      e = (inner, { maDetail := { serviceURI := ascii "/oxool/draw/" } }) := by
  rcases SortedMap.mem_set.mp h with ⟨hid, hmodule⟩ | ⟨-, h⟩
  · exact .inl (Prod.ext hid hmodule)
  · rcases SortedMap.mem_set.mp h with ⟨hid, hmodule⟩ | ⟨-, h⟩
    · exact .inr (Prod.ext hid hmodule)
    · cases h

theorem distinctServices_nested (inner outer : Bytes) : DistinctServices (nested inner outer) := by
  have hne : ascii "/oxool/" ≠ ascii "/oxool/draw/" := by decide +kernel
  intro e he e' he' heq _
  rcases mem_nested he with rfl | rfl
  · rcases mem_nested he' with rfl | rfl
    · rfl
    · exact absurd heq hne
  · rcases mem_nested he' with rfl | rfl
    · exact absurd heq.symm hne
    · rfl

theorem dispatches_iff_nested :
    Dispatches (nested (ascii "a") (ascii "b")) [(ascii "info", ())] := by
  apply (dispatches_iff (distinctServices_nested _ _) _).mpr
  have hentries : (nested (ascii "a") (ascii "b")).entries =
      [(ascii "a", { maDetail := { serviceURI := ascii "/oxool/draw/" } }),
        (ascii "b", { maDetail := { serviceURI := ascii "/oxool/" } })] := by
    decide +kernel
  rw [NoneHidden, hentries, List.pairwise_pair]
  intro _ hcontinues
  exact absurd hcontinues.isPrefix (by decide +kernel)

/-- The module with the smaller id gets what is in the directory of the other. -/
theorem not_dispatches : ¬ Dispatches (nested (ascii "b") (ascii "a")) [(ascii "info", ())] := by
  intro h
  have hfound : handleByWhichModule (nested (ascii "b") (ascii "a")) (ascii "/oxool/draw/new") =
      some { maDetail := { serviceURI := ascii "/oxool/" } } := by
    decide +kernel
  have hlongest := ((h.modules _).some _ hfound).2.2
    (ascii "b", { maDetail := { serviceURI := ascii "/oxool/draw/" } }) (by decide +kernel) (by decide +kernel)
  exact absurd hlongest (by decide +kernel)

end Dispatch

end Oxool.Modules
