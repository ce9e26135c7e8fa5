import Oxool.Kit.TileQueue
import Oxool.Lib.Assoc
import Oxool.Lib.Last
import Oxool.Lib.Run

/-!
# Sessions that are away (`kit/ChildSession.hpp`, `kit/ChildSession.cpp`)

The session of a user who is inactive does not handle the callbacks of the office. It records them:
of most types the last one only, of some the last one of each view, of a changed state the last value
under its name, of comments and redlines all of them, and that there was an invalidation. When the
user is active again, the session handles what it has recorded as if it came just then.

The hash maps are gone over in any order, which `useractive` is given. A document is loaded. The JSON
reader of the view is a parameter, with `none` for an exception; what handling a callback sends is
not in the model. `log` is a record the code does not keep.
-/

set_option autoImplicit false

namespace Oxool.Kit.Recording

open Oxool.Http (Bytes ascii)
open Oxool.Protocol (decimal)

/-! ## The recorder -/

structure RecordedEvent where
  type : Int
  payload : Bytes
deriving DecidableEq

structure StateRecorder where
  invalidate : Bool
  recordedStates : List (Bytes × Bytes)
  recordedViewEvents : List ((Int × Int) × RecordedEvent)
  recordedEvents : List (Int × RecordedEvent)
  recordedEventsVector : List RecordedEvent

namespace StateRecorder

def empty : StateRecorder := ⟨false, [], [], [], []⟩

variable (r : StateRecorder)

def recordInvalidate : StateRecorder := { r with invalidate := true }

def recordEvent (e : RecordedEvent) : StateRecorder :=
  { r with recordedEvents := Assoc.put e.type e r.recordedEvents }

def recordViewEvent (viewId : Int) (e : RecordedEvent) : StateRecorder :=
  { r with recordedViewEvents := Assoc.put (viewId, e.type) e r.recordedViewEvents }

def recordState (name value : Bytes) : StateRecorder :=
  { r with recordedStates := Assoc.put name value r.recordedStates }

def recordEventSequence (e : RecordedEvent) : StateRecorder :=
  { r with recordedEventsVector := r.recordedEventsVector ++ [e] }

end StateRecorder

/-- The cursor and the selections, the cell, the size, headers and geometry, reference marks, and what
is read out. -/
def lastTypes : List Int := [1, 5, 2, 3, 4, 19, 17, 6, 13, 33, 50, 34, 45, 62, 63, 64]

/-- The cursors, the selections and the locks of the other views. -/
def lastOfViewTypes : List Int := [24, 25, 26, 27, 28, 29]

/-- Redlines and comments. -/
def sequenceTypes : List Int := [30, 31, 32]

/-- `LOK_CALLBACK_UNO_COMMAND_RESULT`. -/
def unoCommandResult : Int := 16

/-- Is the text anywhere in the payload? -/
def mentions (text payload : Bytes) : Bool := payload.tails.any text.isPrefixOf

/-- Callbacks that an inactive session handles all the same: a save, and whether there are changes. -/
def passes (e : RecordedEvent) : Bool :=
  (e.type == unoCommandResult && mentions (ascii ".uno:Save") e.payload) ||
    mentions (ascii ".uno:ModifiedStatus") e.payload

/-- The invalidation of a whole part. -/
def wholePart (part : Int) : RecordedEvent :=
  ⟨invalidateTiles, ascii "0, 0, 1000000000, 1000000000, " ++ decimal part⟩

/-! ## The session -/

inductive Entry where
  /-- A callback of the office. -/
  | raised (e : RecordedEvent)
  /-- One that the session handles. -/
  | handled (e : RecordedEvent)
deriving DecidableEq

structure ChildSession where
  active : Bool
  closed : Bool
  stateRecorder : StateRecorder
  log : List Entry

namespace ChildSession

def start : ChildSession := ⟨true, false, .empty, []⟩

variable (viewIdOf : Bytes → Option Int) (s : ChildSession)

def rememberEventsForInactiveUser (e : RecordedEvent) : Option StateRecorder :=
  let r := s.stateRecorder
  if e.type = invalidateTiles then some r.recordInvalidate
  else if e.type ∈ lastTypes then some (r.recordEvent e)
  else if e.type ∈ lastOfViewTypes then (viewIdOf e.payload).map (r.recordViewEvent · e)
  else if e.type = stateChanged then
    match parseNameValuePair e.payload with
    | some (name, _) => some (r.recordState name e.payload)
    | none => some r
  else if e.type ∈ sequenceTypes then some (r.recordEventSequence e)
  else some r

def handle (e : RecordedEvent) : ChildSession := { s with log := s.log ++ [.handled e] }

def loKitCallback (e : RecordedEvent) : ChildSession :=
  if s.closed then s
  else if !s.active then
    match s.rememberEventsForInactiveUser viewIdOf e with
    | none => s
    | some r => if passes e then { s with stateRecorder := r }.handle e else { s with stateRecorder := r }
  else s.handle e

/-- `useractive`, with the part that is shown and the order in which each map is gone over. -/
def useractive (part : Int) (viewEvents events : List RecordedEvent) (states : List Bytes) :
    ChildSession :=
  let t := { s with active := true }
  let t := if s.stateRecorder.invalidate then t.loKitCallback viewIdOf (wholePart part) else t
  let t := viewEvents.foldl (loKitCallback viewIdOf) t
  let t := events.foldl (loKitCallback viewIdOf) t
  let t := states.foldl (fun t state => t.loKitCallback viewIdOf ⟨stateChanged, state⟩) t
  let t := s.stateRecorder.recordedEventsVector.foldl (loKitCallback viewIdOf) t
  { t with stateRecorder := .empty }

end ChildSession

inductive Action where
  | callback (e : RecordedEvent)
  | useractive (part : Int) (viewEvents events : List RecordedEvent) (states : List Bytes)
  | userinactive
  | close

def act (viewIdOf : Bytes → Option Int) (s : ChildSession) : Action → ChildSession
  | .callback e => ({ s with log := s.log ++ [.raised e] } : ChildSession).loKitCallback viewIdOf e
  | .useractive part viewEvents events states =>
    s.useractive viewIdOf part viewEvents events states
  | .userinactive => { s with active := false }
  | .close => { s with closed := true }

/-- A replay goes over what the maps hold. -/
def Replays (s : ChildSession) : Action → Prop
  | .useractive _ viewEvents events states =>
    viewEvents.Perm (s.stateRecorder.recordedViewEvents.map Prod.snd) ∧
      events.Perm (s.stateRecorder.recordedEvents.map Prod.snd) ∧
      states.Perm (s.stateRecorder.recordedStates.map Prod.snd)
  | _ => True

instance (s : ChildSession) : (a : Action) → Decidable (Replays s a)
  | .useractive _ _ _ _ => inferInstanceAs (Decidable (_ ∧ _ ∧ _))
  | .callback _ => .isTrue trivial
  | .userinactive => .isTrue trivial
  | .close => .isTrue trivial

/-! ## What a client is to know -/

/-- What a callback tells the value of. -/
inductive Key where
  | type (type : Int)
  | view (viewId type : Int)
  | state (name : Bytes)
deriving DecidableEq

def keyOf (viewIdOf : Bytes → Option Int) (e : RecordedEvent) : Option Key :=
  if e.type ∈ lastTypes then some (.type e.type)
  else if e.type ∈ lastOfViewTypes then (viewIdOf e.payload).map (.view · e.type)
  else if e.type = stateChanged then (parseNameValuePair e.payload).map fun p => .state p.1
  else none

def isSequence (e : RecordedEvent) : Bool := decide (e.type ∈ sequenceTypes)

def Entry.raised? : Entry → Option RecordedEvent
  | .raised e => some e
  | .handled _ => none

def Entry.handled? : Entry → Option RecordedEvent
  | .raised _ => none
  | .handled e => some e

def ChildSession.raised (s : ChildSession) : List RecordedEvent := s.log.filterMap Entry.raised?

def ChildSession.handled (s : ChildSession) : List RecordedEvent := s.log.filterMap Entry.handled?

section Spec

variable (viewIdOf : Bytes → Option Int)

/-- The last of these callbacks that tells this value. -/
def lastOf (k : Key) (l : List RecordedEvent) : Option RecordedEvent :=
  l.findRev? fun e => keyOf viewIdOf e == some k

/-- The session has handled what the office told: of each value the last, of redlines and comments all
of them in their order, and after each invalidation that one or one of a whole part. -/
structure UpToDate (s : ChildSession) : Prop where
  values : ∀ k, lastOf viewIdOf k s.handled = lastOf viewIdOf k s.raised
  sequence : (∀ e ∈ s.raised, isSequence e = true → passes e = false) →
    s.handled.filter isSequence = s.raised.filter isSequence
  invalidations : ∀ l e l', s.log = l ++ .raised e :: l' → e.type = invalidateTiles →
    .handled e ∈ l' ∨ ∃ part, .handled (wholePart part) ∈ l'

end Spec

section Keys

variable {viewIdOf : Bytes → Option Int}

/-! ## Keys -/

theorem lastTypes_disjoint : ∀ t ∈ lastTypes, t ∉ sequenceTypes ∧ t ≠ invalidateTiles := by decide

theorem lastOfViewTypes_disjoint :
    ∀ t ∈ lastOfViewTypes, t ∉ lastTypes ∧ t ∉ sequenceTypes ∧ t ≠ invalidateTiles := by decide

theorem sequenceTypes_disjoint :
    ∀ t ∈ sequenceTypes, t ∉ lastTypes ∧ t ∉ lastOfViewTypes ∧ t ≠ stateChanged ∧
      t ≠ invalidateTiles := by decide

theorem stateChanged_alone : stateChanged ∉ lastTypes ∧ stateChanged ∉ lastOfViewTypes ∧
    stateChanged ∉ sequenceTypes ∧ stateChanged ≠ invalidateTiles := by decide

theorem invalidateTiles_alone : invalidateTiles ∉ lastTypes ∧ invalidateTiles ∉ lastOfViewTypes ∧
    invalidateTiles ≠ stateChanged ∧ invalidateTiles ∉ sequenceTypes := by decide

theorem keyOf_of_isSequence {e : RecordedEvent} (h : isSequence e = true) :
    keyOf viewIdOf e = none := by
  obtain ⟨hlast, hview, hstate, -⟩ := sequenceTypes_disjoint e.type (of_decide_eq_true h)
  rw [keyOf, if_neg hlast, if_neg hview, if_neg hstate]

theorem keyOf_wholePart (part : Int) : keyOf viewIdOf (wholePart part) = none := by
  obtain ⟨hlast, hview, hstate, -⟩ := invalidateTiles_alone
  rw [keyOf, wholePart, if_neg hlast, if_neg hview, if_neg hstate]

theorem lastOf_append (k : Key) (l l' : List RecordedEvent) :
    lastOf viewIdOf k (l ++ l') = (lastOf viewIdOf k l').or (lastOf viewIdOf k l) := by
  simp only [lastOf, List.findRev?_eq_find?_reverse, List.reverse_append, List.find?_append]

theorem lastOf_single (k : Key) (e : RecordedEvent) :
    lastOf viewIdOf k [e] = if keyOf viewIdOf e = some k then some e else none := by
  by_cases h : keyOf viewIdOf e = some k
  · simp [lastOf, List.findRev?, h]
  · simp [lastOf, List.findRev?, h]

theorem lastOf_eq_none {k : Key} {l : List RecordedEvent}
    (h : ∀ e ∈ l, keyOf viewIdOf e ≠ some k) : lastOf viewIdOf k l = none := by
  rw [lastOf, List.findRev?_eq_find?_reverse, List.find?_eq_none]
  intro e he
  simpa using h e (List.mem_reverse.mp he)

/-- A map by keys, gone over in any order: of each value the last is the one it holds. -/
theorem lastOf_perm {κ ν : Type} [BEq κ] [LawfulBEq κ] {m : List (κ × ν)} {l : List ν}
    {g : ν → RecordedEvent} {f : κ → Key} (hf : ∀ {x y}, f x = f y → x = y)
    (hnodup : (m.map Prod.fst).Nodup) (hkeys : ∀ p ∈ m, keyOf viewIdOf (g p.2) = some (f p.1))
    (hperm : l.Perm (m.map Prod.snd)) (x : κ) :
    lastOf viewIdOf (f x) (l.map g) = (m.lookup x).map g := by
  cases hlast : lastOf viewIdOf (f x) (l.map g) with
  | some e =>
    obtain ⟨v, hv, rfl⟩ := List.mem_map.mp (mem_of_findRev?_eq_some hlast)
    obtain ⟨p, hp, rfl⟩ := List.mem_map.mp (hperm.mem_iff.mp hv)
    have hkey := of_findRev?_eq_some hlast
    rw [hkeys p hp, beq_iff_eq, Option.some.injEq] at hkey
    rw [← hf hkey, Assoc.lookup_of_mem hnodup hp, Option.map_some]
  | none =>
    cases hlookup : m.lookup x with
    | none => rfl
    | some v =>
      have hp := Assoc.mem_of_lookup hlookup
      have hv : g v ∈ l.map g :=
        List.mem_map_of_mem (hperm.mem_iff.mpr (List.mem_map.mpr ⟨_, hp, rfl⟩))
      obtain ⟨e, he⟩ := exists_findRev?_eq_some hv (p := fun e => keyOf viewIdOf e == some (f x))
        (beq_iff_eq.mpr (hkeys _ hp))
      rw [lastOf, he] at hlast
      cases hlast

/-- It holds nothing of the values of another map. -/
theorem lastOf_perm_other {κ ν : Type} {m : List (κ × ν)} {l : List ν} {g : ν → RecordedEvent}
    {f : κ → Key} (hkeys : ∀ p ∈ m, keyOf viewIdOf (g p.2) = some (f p.1))
    (hperm : l.Perm (m.map Prod.snd)) {k : Key} (hk : ∀ x, f x ≠ k) :
    lastOf viewIdOf k (l.map g) = none := by
  refine lastOf_eq_none fun e he hkey => ?_
  obtain ⟨v, hv, rfl⟩ := List.mem_map.mp he
  obtain ⟨p, hp, rfl⟩ := List.mem_map.mp (hperm.mem_iff.mp hv)
  rw [hkeys p hp, Option.some.injEq] at hkey
  exact hk _ hkey

/-! ## What is recorded -/

namespace StateRecorder

/-- What the recorder holds for a value. -/
def valueOf (r : StateRecorder) : Key → Option RecordedEvent
  | .type type => r.recordedEvents.lookup type
  | .view viewId type => r.recordedViewEvents.lookup (viewId, type)
  | .state name => (r.recordedStates.lookup name).map fun value => ⟨stateChanged, value⟩

/-- The maps hold under each key what tells its value. -/
structure Keyed (viewIdOf : Bytes → Option Int) (r : StateRecorder) : Prop where
  events : ∀ p ∈ r.recordedEvents, keyOf viewIdOf p.2 = some (.type p.1)
  viewEvents : ∀ p ∈ r.recordedViewEvents, keyOf viewIdOf p.2 = some (.view p.1.1 p.1.2)
  states : ∀ p ∈ r.recordedStates, keyOf viewIdOf ⟨stateChanged, p.2⟩ = some (.state p.1)
  nodupEvents : (r.recordedEvents.map Prod.fst).Nodup
  nodupViewEvents : (r.recordedViewEvents.map Prod.fst).Nodup
  nodupStates : (r.recordedStates.map Prod.fst).Nodup
  sequence : ∀ e ∈ r.recordedEventsVector, isSequence e = true

theorem keyed_empty : Keyed viewIdOf .empty :=
  ⟨by simp [empty], by simp [empty], by simp [empty], .nil, .nil, .nil, by simp [empty]⟩

theorem valueOf_empty (k : Key) : empty.valueOf k = none := by
  cases k with
  | type type => rfl
  | view viewId type => rfl
  | state name => rfl

/-- From `r` to `r'` a callback is recorded. -/
structure Records (viewIdOf : Bytes → Option Int) (e : RecordedEvent) (r r' : StateRecorder) :
    Prop where
  keyed : Keyed viewIdOf r → Keyed viewIdOf r'
  values : ∀ k, r'.valueOf k = if keyOf viewIdOf e = some k then some e else r.valueOf k
  sequence : r'.recordedEventsVector = r.recordedEventsVector ++ if isSequence e then [e] else []
  invalidate : r'.invalidate = (r.invalidate || e.type == invalidateTiles)

theorem records_event {e : RecordedEvent} (r : StateRecorder) (h : e.type ∈ lastTypes) :
    Records viewIdOf e r (r.recordEvent e) := by
  obtain ⟨hsequence, hinvalidate⟩ := lastTypes_disjoint e.type h
  have hkey : keyOf viewIdOf e = some (.type e.type) := by rw [keyOf, if_pos h]
  refine ⟨fun hr => { hr with events := ?_, nodupEvents := Assoc.nodup_put hr.nodupEvents }, ?_, ?_,
    ?_⟩
  · intro p hp
    rcases Assoc.mem_put hp with rfl | hp
    · exact hkey
    · exact hr.events p hp
  · intro k
    rw [hkey]
    cases k with
    | type type =>
      simp only [valueOf, recordEvent, Assoc.lookup_put, Option.some.injEq, Key.type.injEq]
      exact if_congr eq_comm rfl rfl
    | view viewId type => simp [valueOf, recordEvent]
    | state name => simp [valueOf, recordEvent]
  · simp [recordEvent, isSequence, hsequence]
  · simp [recordEvent, hinvalidate]

theorem records_viewEvent {e : RecordedEvent} (r : StateRecorder) {viewId : Int}
    (h : e.type ∈ lastOfViewTypes) (hview : viewIdOf e.payload = some viewId) :
    Records viewIdOf e r (r.recordViewEvent viewId e) := by
  obtain ⟨hlast, hsequence, hinvalidate⟩ := lastOfViewTypes_disjoint e.type h
  have hkey : keyOf viewIdOf e = some (.view viewId e.type) := by
    rw [keyOf, if_neg hlast, if_pos h, hview, Option.map_some]
  refine ⟨fun hr => { hr with
    viewEvents := ?_, nodupViewEvents := Assoc.nodup_put hr.nodupViewEvents }, ?_, ?_, ?_⟩
  · intro p hp
    rcases Assoc.mem_put hp with rfl | hp
    · exact hkey
    · exact hr.viewEvents p hp
  · intro k
    rw [hkey]
    cases k with
    | type type => simp [valueOf, recordViewEvent]
    | view viewId' type =>
      simp only [valueOf, recordViewEvent, Assoc.lookup_put, Option.some.injEq, Key.view.injEq,
        Prod.mk.injEq]
      exact if_congr (and_congr eq_comm eq_comm) rfl rfl
    | state name => simp [valueOf, recordViewEvent]
  · simp [recordViewEvent, isSequence, hsequence]
  · simp [recordViewEvent, hinvalidate]

theorem records_state {e : RecordedEvent} (r : StateRecorder) {name value : Bytes}
    (h : e.type = stateChanged) (hname : parseNameValuePair e.payload = some (name, value)) :
    Records viewIdOf e r (r.recordState name e.payload) := by
  obtain ⟨hlast, hview, hsequence, hinvalidate⟩ := stateChanged_alone
  have hevent : e = ⟨stateChanged, e.payload⟩ := by rw [← h]
  have hkey : keyOf viewIdOf e = some (.state name) := by
    rw [keyOf, h, if_neg hlast, if_neg hview, if_pos rfl, hname, Option.map_some]
  refine ⟨fun hr => { hr with
    states := ?_, nodupStates := Assoc.nodup_put hr.nodupStates }, ?_, ?_, ?_⟩
  · intro p hp
    rcases Assoc.mem_put hp with rfl | hp
    · rw [← hevent]
      exact hkey
    · exact hr.states p hp
  · intro k
    rw [hkey]
    cases k with
    | type type => simp [valueOf, recordState]
    | view viewId type => simp [valueOf, recordState]
    | state name' =>
      simp only [valueOf, recordState, Assoc.lookup_put, Option.some.injEq, Key.state.injEq]
      by_cases hsame : name = name'
      · rw [if_pos hsame, if_pos hsame.symm, Option.map_some, ← hevent]
      · rw [if_neg hsame, if_neg (Ne.symm hsame)]
  · simp [recordState, isSequence, h, hsequence]
  · simp [recordState, h, hinvalidate]

theorem records_sequence {e : RecordedEvent} (r : StateRecorder) (h : e.type ∈ sequenceTypes) :
    Records viewIdOf e r (r.recordEventSequence e) := by
  obtain ⟨-, -, -, hinvalidate⟩ := sequenceTypes_disjoint e.type h
  have hsequence : isSequence e = true := decide_eq_true h
  refine ⟨fun hr => { hr with sequence := ?_ }, ?_, ?_, ?_⟩
  · intro e' he'
    rcases List.mem_append.mp he' with he' | he'
    · exact hr.sequence e' he'
    · rw [List.mem_singleton.mp he']
      exact hsequence
  · intro k
    rw [keyOf_of_isSequence hsequence]
    cases k with
    | type type => rfl
    | view viewId type => rfl
    | state name => rfl
  · simp [recordEventSequence, hsequence]
  · simp [recordEventSequence, hinvalidate]

/-- Nothing is recorded of what tells no value. -/
theorem records_self {e : RecordedEvent} (r : StateRecorder) (hkey : keyOf viewIdOf e = none)
    (hsequence : e.type ∉ sequenceTypes) (hinvalidate : e.type ≠ invalidateTiles) :
    Records viewIdOf e r r :=
  ⟨id, fun k => by rw [hkey, if_neg (Option.some_ne_none k).symm],
    by simp [isSequence, hsequence], by simp [hinvalidate]⟩

end StateRecorder

open StateRecorder

theorem records_remember (s : ChildSession) (e : RecordedEvent) :
    (∃ r, s.rememberEventsForInactiveUser viewIdOf e = some r ∧
      Records viewIdOf e s.stateRecorder r) ∨
    s.rememberEventsForInactiveUser viewIdOf e = none ∧
      Records viewIdOf e s.stateRecorder s.stateRecorder := by
  rw [ChildSession.rememberEventsForInactiveUser]
  by_cases hinvalidate : e.type = invalidateTiles
  · rw [if_pos hinvalidate]
    obtain ⟨hlast, hview, hstate, hsequence⟩ := invalidateTiles_alone
    refine .inl ⟨_, rfl, fun hr => { hr with }, fun k => ?_, ?_, ?_⟩
    · rw [keyOf, hinvalidate, if_neg hlast, if_neg hview, if_neg hstate,
        if_neg (Option.some_ne_none k).symm]
      cases k with
      | type type => rfl
      | view viewId type => rfl
      | state name => rfl
    · simp [recordInvalidate, isSequence, hinvalidate, hsequence]
    · simp [recordInvalidate, hinvalidate]
  rw [if_neg hinvalidate]
  by_cases hlast : e.type ∈ lastTypes
  · rw [if_pos hlast]
    exact .inl ⟨_, rfl, records_event _ hlast⟩
  rw [if_neg hlast]
  by_cases hview : e.type ∈ lastOfViewTypes
  · rw [if_pos hview]
    cases hid : viewIdOf e.payload with
    | some viewId => exact .inl ⟨_, rfl, records_viewEvent _ hview hid⟩
    | none =>
      refine .inr ⟨rfl, records_self _ ?_ (lastOfViewTypes_disjoint _ hview).2.1 hinvalidate⟩
      rw [keyOf, if_neg hlast, if_pos hview, hid, Option.map_none]
  rw [if_neg hview]
  by_cases hstate : e.type = stateChanged
  · rw [if_pos hstate]
    cases hname : parseNameValuePair e.payload with
    | some pair => exact .inl ⟨_, rfl, records_state _ hstate hname⟩
    | none =>
      refine .inl ⟨_, rfl, records_self _ ?_ ?_ hinvalidate⟩
      · rw [keyOf, if_neg hlast, if_neg hview, if_pos hstate, hname, Option.map_none]
      · rw [hstate]
        exact stateChanged_alone.2.2.1
  rw [if_neg hstate]
  by_cases hsequence : e.type ∈ sequenceTypes
  · rw [if_pos hsequence]
    exact .inl ⟨_, rfl, records_sequence _ hsequence⟩
  · rw [if_neg hsequence]
    refine .inl ⟨_, rfl, records_self _ ?_ hsequence hinvalidate⟩
    rw [keyOf, if_neg hlast, if_neg hview, if_neg hstate]

/-! ## The log -/

/-- After each invalidation that one is handled, or one of a whole part; or all is not `done`. -/
def Covers (log : List Entry) (owed : Prop) : Prop :=
  ∀ l e l', log = l ++ .raised e :: l' → e.type = invalidateTiles →
    .handled e ∈ l' ∨ (∃ part, .handled (wholePart part) ∈ l') ∨ owed

theorem split_append {l l' log more : List Entry} {x : Entry} (h : log ++ more = l ++ x :: l') :
    (∃ m, log = l ++ x :: m ∧ l' = m ++ more) ∨ ∃ m, l = log ++ m ∧ more = m ++ x :: l' := by
  rcases List.append_eq_append_iff.mp h with ⟨m, hl, hmore⟩ | ⟨m, hlog, hrest⟩
  · exact .inr ⟨m, hl, hmore⟩
  · cases m with
    | nil =>
      refine .inr ⟨[], ?_, ?_⟩
      · rw [List.append_nil] at hlog ⊢
        exact hlog.symm
      · exact hrest.symm
    | cons y m =>
      rw [List.cons_append, List.cons.injEq] at hrest
      obtain ⟨rfl, hrest⟩ := hrest
      exact .inl ⟨m, hlog, hrest⟩

theorem Covers.append {log more : List Entry} {owed owed' : Prop} (h : Covers log owed)
    (howed : owed → (∃ part, .handled (wholePart part) ∈ more) ∨ owed') (hmore : Covers more owed') :
    Covers (log ++ more) owed' := by
  intro l e l' hlog he
  rcases split_append hlog with ⟨m, hbefore, rfl⟩ | ⟨m, -, hafter⟩
  · rcases h l e m hbefore he with hsame | ⟨part, hpart⟩ | hdone
    · exact .inl (List.mem_append_left _ hsame)
    · exact .inr (.inl ⟨part, List.mem_append_left _ hpart⟩)
    · rcases howed hdone with ⟨part, hpart⟩ | hdone
      · exact .inr (.inl ⟨part, List.mem_append_right _ hpart⟩)
      · exact .inr (.inr hdone)
  · exact hmore m e l' hafter he

/-- What is handled is covered. -/
theorem covers_handled (l : List RecordedEvent) (owed : Prop) : Covers (l.map .handled) owed := by
  intro before e after h
  have hmem : Entry.raised e ∈ l.map Entry.handled := by rw [h]; simp
  obtain ⟨e', -, heq⟩ := List.mem_map.mp hmem
  cases heq

theorem covers_raised (e : RecordedEvent) {tail : List Entry} {owed : Prop}
    (htail : ∃ l : List RecordedEvent, tail = l.map .handled)
    (h : e.type = invalidateTiles → .handled e ∈ tail ∨ owed) : Covers (.raised e :: tail) owed := by
  obtain ⟨l, rfl⟩ := htail
  intro before e' after hsplit he'
  cases before with
  | nil =>
    simp only [List.nil_append, List.cons.injEq, Entry.raised.injEq] at hsplit
    obtain ⟨rfl, rfl⟩ := hsplit
    rcases h he' with hsame | howed
    · exact .inl hsame
    · exact .inr (.inr howed)
  | cons entry before =>
    rw [List.cons_append, List.cons.injEq] at hsplit
    exact covers_handled l owed before e' after hsplit.2 he'

theorem filterMap_raised_map (l : List RecordedEvent) :
    (l.map Entry.handled).filterMap Entry.raised? = [] := by
  rw [List.filterMap_eq_nil_iff]
  intro entry hentry
  obtain ⟨e, -, rfl⟩ := List.mem_map.mp hentry
  rfl

theorem filterMap_handled_map (l : List RecordedEvent) :
    (l.map Entry.handled).filterMap Entry.handled? = l := by
  rw [List.filterMap_map]
  exact List.filterMap_some

/-! ## The invariant -/

/-- What was told is recorded, or handled, with the recorded after what was handled. -/
structure Inv (viewIdOf : Bytes → Option Int) (s : ChildSession) : Prop where
  keyed : Keyed viewIdOf s.stateRecorder
  active : s.active = true → s.stateRecorder = .empty
  values : s.closed = false → ∀ k, lastOf viewIdOf k s.raised =
    (s.stateRecorder.valueOf k).or (lastOf viewIdOf k s.handled)
  sequence : s.closed = false → (∀ e ∈ s.raised, isSequence e = true → passes e = false) →
    s.raised.filter isSequence =
      s.handled.filter isSequence ++ s.stateRecorder.recordedEventsVector
  invalidations : s.closed = false → Covers s.log (s.stateRecorder.invalidate = true)

theorem Inv.start : Inv viewIdOf .start where
  keyed := keyed_empty
  active _ := rfl
  values _ k := by rw [ChildSession.start, valueOf_empty]; rfl
  sequence _ _ := rfl
  invalidations _ := covers_handled [] _

theorem Inv.upToDate {s : ChildSession} (h : Inv viewIdOf s) (hclosed : s.closed = false)
    (hactive : s.active = true) : UpToDate viewIdOf s where
  values k := by rw [h.values hclosed, h.active hactive, valueOf_empty, Option.none_or]
  sequence hclean := by
    rw [h.sequence hclosed hclean, h.active hactive]
    exact (List.append_nil _).symm
  invalidations l e l' hlog he := by
    rcases h.invalidations hclosed l e l' hlog he with hsame | hpart | howed
    · exact .inl hsame
    · exact .inr hpart
    · rw [h.active hactive] at howed
      cases howed

/-- A callback, with what is recorded and handled of it. -/
def ChildSession.after (s : ChildSession) (e : RecordedEvent) (r : StateRecorder)
    (tail : List RecordedEvent) : ChildSession :=
  { s with stateRecorder := r, log := s.log ++ .raised e :: tail.map .handled }

theorem raised_after (s : ChildSession) (e : RecordedEvent) (r : StateRecorder)
    (tail : List RecordedEvent) : (s.after e r tail).raised = s.raised ++ [e] := by
  simp only [ChildSession.after, ChildSession.raised, List.filterMap_append, List.filterMap_cons,
    Entry.raised?, filterMap_raised_map]

theorem handled_after (s : ChildSession) (e : RecordedEvent) (r : StateRecorder)
    (tail : List RecordedEvent) : (s.after e r tail).handled = s.handled ++ tail := by
  simp only [ChildSession.after, ChildSession.handled, List.filterMap_append, List.filterMap_cons,
    Entry.handled?, filterMap_handled_map]

/-- A callback that an inactive session records, and handles if it passes. -/
theorem Inv.away {s : ChildSession} (h : Inv viewIdOf s) (hactive : s.active = false)
    {e : RecordedEvent} {r : StateRecorder} (hr : Records viewIdOf e s.stateRecorder r)
    {tail : List RecordedEvent} (htail : tail = [] ∨ tail = [e] ∧ passes e = true) :
    Inv viewIdOf (s.after e r tail) where
  keyed := hr.keyed h.keyed
  active hnot := by
    rw [ChildSession.after, hactive] at hnot
    cases hnot
  values hclosed k := by
    rw [raised_after, handled_after, lastOf_append, lastOf_append, lastOf_single, h.values hclosed k]
    show _ = (r.valueOf k).or _
    rw [hr.values k]
    by_cases hkey : keyOf viewIdOf e = some k
    · rw [if_pos hkey, if_pos hkey, Option.some_or, Option.some_or]
    · have hnone : lastOf viewIdOf k tail = none := by
        rcases htail with rfl | ⟨rfl, -⟩
        · rfl
        · rw [lastOf_single, if_neg hkey]
      rw [if_neg hkey, if_neg hkey, hnone, Option.none_or, Option.none_or]
  sequence hclosed hclean := by
    rw [raised_after] at hclean
    have hbefore := h.sequence hclosed fun e' he' => hclean e' (List.mem_append_left _ he')
    rw [raised_after, handled_after, List.filter_append, List.filter_append, hbefore]
    show _ = _ ++ r.recordedEventsVector
    rw [hr.sequence]
    rcases htail with rfl | ⟨rfl, hpasses⟩
    · cases hsequence : isSequence e with
      | true => simp [hsequence]
      | false => simp [hsequence]
    · cases hsequence : isSequence e with
      | true =>
        rw [hclean e (by simp) hsequence] at hpasses
        cases hpasses
      | false => simp [hsequence]
  invalidations hclosed := by
    refine (h.invalidations hclosed).append (fun howed => .inr ?_) (covers_raised e ⟨_, rfl⟩ ?_)
    · show r.invalidate = true
      rw [hr.invalidate, howed, Bool.true_or]
    · intro he
      refine .inr ?_
      show r.invalidate = true
      rw [hr.invalidate, he]
      simp

/-- A callback that an active session handles. -/
theorem Inv.present {s : ChildSession} (h : Inv viewIdOf s) (hactive : s.active = true)
    (e : RecordedEvent) : Inv viewIdOf (s.after e s.stateRecorder [e]) where
  keyed := h.keyed
  active _ := h.active hactive
  values hclosed k := by
    have hempty : (s.after e s.stateRecorder [e]).stateRecorder = .empty := h.active hactive
    rw [raised_after, handled_after, lastOf_append, lastOf_append, h.values hclosed k, hempty,
      h.active hactive, valueOf_empty, Option.none_or, Option.none_or]
  sequence hclosed hclean := by
    rw [raised_after] at hclean
    have hbefore := h.sequence hclosed fun e' he' => hclean e' (List.mem_append_left _ he')
    have hempty : (s.after e s.stateRecorder [e]).stateRecorder = .empty := h.active hactive
    rw [h.active hactive] at hbefore
    rw [raised_after, handled_after, List.filter_append, List.filter_append, hbefore, hempty]
    simp [StateRecorder.empty]
  invalidations hclosed :=
    (h.invalidations hclosed).append .inr (covers_raised e ⟨[e], rfl⟩ fun _ => .inl (by simp))

/-! ## The replay -/

theorem foldl_loKitCallback {s : ChildSession} (hclosed : s.closed = false)
    (hactive : s.active = true) (l : List RecordedEvent) :
    l.foldl (ChildSession.loKitCallback viewIdOf) s = { s with log := s.log ++ l.map .handled } := by
  induction l generalizing s with
  | nil => simp
  | cons e l ih =>
    have hstep : s.loKitCallback viewIdOf e = s.handle e := by
      rw [ChildSession.loKitCallback, hclosed, hactive]
      rfl
    rw [List.foldl_cons, hstep, ih (s := s.handle e) hclosed hactive]
    simp [ChildSession.handle]

theorem foldl_loKitCallback_closed {s : ChildSession} (hclosed : s.closed = true)
    (l : List RecordedEvent) : l.foldl (ChildSession.loKitCallback viewIdOf) s = s := by
  induction l with
  | nil => rfl
  | cons e l ih =>
    have hstep : s.loKitCallback viewIdOf e = s := by rw [ChildSession.loKitCallback, hclosed]; rfl
    rw [List.foldl_cons, hstep, ih]

/-- What a replay handles. -/
def replayed (r : StateRecorder) (part : Int) (viewEvents events : List RecordedEvent)
    (states : List Bytes) : List RecordedEvent :=
  (if r.invalidate then [wholePart part] else []) ++ viewEvents ++ events ++
    states.map (⟨stateChanged, ·⟩) ++ r.recordedEventsVector

theorem useractive_eq (s : ChildSession) (part : Int) (viewEvents events : List RecordedEvent)
    (states : List Bytes) :
    s.useractive viewIdOf part viewEvents events states =
      { (replayed s.stateRecorder part viewEvents events states).foldl
          (ChildSession.loKitCallback viewIdOf) { s with active := true } with
        stateRecorder := .empty } := by
  rw [ChildSession.useractive, replayed]
  simp only [List.foldl_append, List.foldl_map]
  cases s.stateRecorder.invalidate with
  | true => rfl
  | false => rfl

section Replay

variable {r : StateRecorder} (part : Int) {viewEvents events : List RecordedEvent}
  {states : List Bytes}

/-- A replay tells of each value what was recorded. -/
theorem lastOf_replayed (hr : Keyed viewIdOf r)
    (hviews : viewEvents.Perm (r.recordedViewEvents.map Prod.snd))
    (hevents : events.Perm (r.recordedEvents.map Prod.snd))
    (hstates : states.Perm (r.recordedStates.map Prod.snd)) (k : Key) :
    lastOf viewIdOf k (replayed r part viewEvents events states) = r.valueOf k := by
  have hwhole : lastOf viewIdOf k (if r.invalidate then [wholePart part] else []) = none := by
    refine lastOf_eq_none fun e he => ?_
    split at he
    · rw [List.mem_singleton.mp he, keyOf_wholePart]
      exact (Option.some_ne_none k).symm
    · cases he
  have hvector : lastOf viewIdOf k r.recordedEventsVector = none :=
    lastOf_eq_none fun e he => by
      rw [keyOf_of_isSequence (hr.sequence e he)]
      exact (Option.some_ne_none k).symm
  rw [← List.map_id viewEvents, ← List.map_id events, replayed]
  simp only [lastOf_append, hwhole, hvector, Option.none_or, Option.or_none]
  cases k with
  | type type =>
    rw [lastOf_perm_other (g := (⟨stateChanged, ·⟩)) (f := .state) hr.states hstates (by simp),
      lastOf_perm_other (g := id) (f := fun x => .view x.1 x.2) hr.viewEvents hviews (by simp),
      lastOf_perm (g := id) (f := .type) (by simp) hr.nodupEvents hr.events hevents]
    simp [valueOf]
  | view viewId type =>
    rw [lastOf_perm_other (g := (⟨stateChanged, ·⟩)) (f := .state) hr.states hstates (by simp),
      lastOf_perm_other (g := id) (f := .type) hr.events hevents (by simp)]
    have hview := lastOf_perm (g := id) (f := fun x => .view x.1 x.2) (by simp) hr.nodupViewEvents
      hr.viewEvents hviews (viewId, type)
    rw [hview]
    simp [valueOf]
  | state name =>
    rw [lastOf_perm (g := (⟨stateChanged, ·⟩)) (f := .state) (by simp) hr.nodupStates hr.states
        hstates,
      lastOf_perm_other (g := id) (f := .type) hr.events hevents (by simp),
      lastOf_perm_other (g := id) (f := fun x => .view x.1 x.2) hr.viewEvents hviews (by simp)]
    simp [valueOf]

theorem isSequence_of_keyOf {e : RecordedEvent} {k : Key} (h : keyOf viewIdOf e = some k) :
    isSequence e = false := by
  cases hsequence : isSequence e with
  | false => rfl
  | true =>
    rw [keyOf_of_isSequence hsequence] at h
    cases h

/-- A replay tells the sequence that was recorded. -/
theorem filter_replayed (hr : Keyed viewIdOf r)
    (hviews : viewEvents.Perm (r.recordedViewEvents.map Prod.snd))
    (hevents : events.Perm (r.recordedEvents.map Prod.snd))
    (hstates : states.Perm (r.recordedStates.map Prod.snd)) :
    (replayed r part viewEvents events states).filter isSequence = r.recordedEventsVector := by
  have hnone : ∀ e ∈ (if r.invalidate then [wholePart part] else []) ++ viewEvents ++ events ++
      states.map (⟨stateChanged, ·⟩), isSequence e = false := by
    intro e he
    rcases List.mem_append.mp he with he | he
    · rcases List.mem_append.mp he with he | he
      · rcases List.mem_append.mp he with he | he
        · split at he
          · rw [List.mem_singleton.mp he]
            rfl
          · cases he
        · obtain ⟨p, hp, rfl⟩ := List.mem_map.mp (hviews.mem_iff.mp he)
          exact isSequence_of_keyOf (hr.viewEvents p hp)
      · obtain ⟨p, hp, rfl⟩ := List.mem_map.mp (hevents.mem_iff.mp he)
        exact isSequence_of_keyOf (hr.events p hp)
    · obtain ⟨state, hstate, rfl⟩ := List.mem_map.mp he
      obtain ⟨p, hp, rfl⟩ := List.mem_map.mp (hstates.mem_iff.mp hstate)
      exact isSequence_of_keyOf (hr.states p hp)
  rw [replayed, List.filter_append, List.filter_eq_nil_iff.mpr fun e he => by rw [hnone e he]; simp,
    List.nil_append, List.filter_eq_self.mpr hr.sequence]

end Replay

/-- What a closed session does is nothing. -/
theorem Inv.of_closed {s : ChildSession} (hclosed : s.closed = true)
    (hkeyed : Keyed viewIdOf s.stateRecorder)
    (hactive : s.active = true → s.stateRecorder = .empty) : Inv viewIdOf s := by
  have hnot : s.closed ≠ false := by rw [hclosed]; exact Bool.noConfusion
  exact ⟨hkeyed, hactive, fun hopen => absurd hopen hnot, fun hopen => absurd hopen hnot,
    fun hopen => absurd hopen hnot⟩

theorem Inv.useractive {s : ChildSession} (h : Inv viewIdOf s) {part : Int}
    {viewEvents events : List RecordedEvent} {states : List Bytes}
    (hreplays : Replays s (.useractive part viewEvents events states)) :
    Inv viewIdOf (s.useractive viewIdOf part viewEvents events states) := by
  obtain ⟨hviews, hevents, hstates⟩ := hreplays
  rw [useractive_eq]
  by_cases hclosed : s.closed = true
  · rw [foldl_loKitCallback_closed (s := { s with active := true }) hclosed]
    exact .of_closed hclosed keyed_empty fun _ => rfl
  · rw [Bool.not_eq_true] at hclosed
    rw [foldl_loKitCallback (s := { s with active := true }) hclosed rfl]
    generalize hl : replayed s.stateRecorder part viewEvents events states = l
    refine ⟨keyed_empty, fun _ => rfl, fun _ k => ?_, fun _ hclean => ?_, fun _ => ?_⟩
    · have hlast := lastOf_replayed part h.keyed hviews hevents hstates k
      rw [hl] at hlast
      simp only [ChildSession.raised, ChildSession.handled, List.filterMap_append,
        filterMap_raised_map, filterMap_handled_map, List.append_nil, lastOf_append, hlast,
        valueOf_empty, Option.none_or]
      exact h.values hclosed k
    · have hfilter := filter_replayed part h.keyed hviews hevents hstates
      rw [hl] at hfilter
      simp only [ChildSession.raised, ChildSession.handled, List.filterMap_append,
        filterMap_raised_map, filterMap_handled_map, List.append_nil, List.filter_append,
        hfilter] at hclean ⊢
      rw [show StateRecorder.empty.recordedEventsVector = [] from rfl, List.append_nil]
      exact h.sequence hclosed hclean
    · refine (h.invalidations hclosed).append (fun howed => .inl ⟨part, ?_⟩) (covers_handled l _)
      rw [← hl, replayed, howed]
      simp

theorem Inv.callback {s : ChildSession} (h : Inv viewIdOf s) (e : RecordedEvent) :
    Inv viewIdOf (act viewIdOf s (.callback e)) := by
  by_cases hclosed : s.closed = true
  · have hsame : act viewIdOf s (.callback e) = { s with log := s.log ++ [.raised e] } := by
      rw [act, ChildSession.loKitCallback, if_pos hclosed]
    rw [hsame]
    exact .of_closed hclosed h.keyed h.active
  rw [Bool.not_eq_true] at hclosed
  by_cases hactive : s.active = true
  · have hsame : act viewIdOf s (.callback e) = s.after e s.stateRecorder [e] := by
      simp [act, ChildSession.loKitCallback, ChildSession.handle, ChildSession.after, hclosed,
        hactive]
    rw [hsame]
    exact h.present hactive e
  rw [Bool.not_eq_true] at hactive
  have hremember : ChildSession.rememberEventsForInactiveUser viewIdOf
      { s with log := s.log ++ [.raised e] } e = s.rememberEventsForInactiveUser viewIdOf e := rfl
  rcases records_remember s e with ⟨r, hr, hrecords⟩ | ⟨hnone, hrecords⟩
  · have hsame : act viewIdOf s (.callback e) = s.after e r (if passes e then [e] else []) := by
      rw [act, ChildSession.loKitCallback, hremember, hr]
      cases hpasses : passes e with
      | true => simp [ChildSession.handle, ChildSession.after, hclosed, hactive]
      | false => simp [ChildSession.after, hclosed, hactive]
    rw [hsame]
    refine h.away hactive hrecords ?_
    cases hpasses : passes e with
    | true => exact .inr ⟨rfl, rfl⟩
    | false => exact .inl rfl
  · have hsame : act viewIdOf s (.callback e) = s.after e s.stateRecorder [] := by
      rw [act, ChildSession.loKitCallback, hremember, hnone]
      simp [ChildSession.after, hclosed, hactive]
    rw [hsame]
    exact h.away hactive hrecords (.inl rfl)

theorem Inv.act {s : ChildSession} {a : Action} (h : Inv viewIdOf s) (ha : Replays s a) :
    Inv viewIdOf (act viewIdOf s a) := by
  cases a with
  | callback e => exact h.callback e
  | useractive part viewEvents events states => exact h.useractive ha
  | userinactive =>
    show Inv viewIdOf { s with active := false }
    exact ⟨h.keyed, fun hactive => (Bool.false_ne_true hactive).elim, h.values, h.sequence, h.invalidations⟩
  | close => exact .of_closed rfl h.keyed h.active

/-- **A user who comes back is up to date.** After any run of callbacks, with the user away and back
any number of times and the maps gone over in any order, an active session has handled what the office
told last of each value, all redlines and comments, and each invalidation or that of a whole part. -/
theorem upToDate_whenActive (viewIdOf : Bytes → Option Int) (as : List Action)
    (h : Run.Meets (act viewIdOf) Replays .start as) :
    Run.Always (act viewIdOf) (fun s => s.closed = false → s.active = true → UpToDate viewIdOf s)
      .start as :=
  Run.always_of_meets (fun s (hs : Inv viewIdOf s) => hs.upToDate) (fun _ _ hs ha => hs.act ha)
    .start h

/-- The user is away while a cursor moves, a state changes twice and a comment is made. -/
def lunch : List Action :=
  [.callback ⟨1, [49]⟩, .userinactive, .callback ⟨1, [50]⟩, .callback ⟨8, ascii ".uno:Bold=true"⟩,
    .callback ⟨32, [51]⟩, .callback ⟨0, ascii "EMPTY, 0"⟩, .callback ⟨8, ascii ".uno:Bold=false"⟩,
    .callback ⟨24, [52]⟩, .callback ⟨8, ascii ".uno:ModifiedStatus=true"⟩,
    .useractive 0 [⟨24, [52]⟩] [⟨1, [50]⟩]
      [ascii ".uno:ModifiedStatus=true", ascii ".uno:Bold=false"], .callback ⟨1, [53]⟩]

theorem upToDate_lunch : Run.Always (act fun _ => some 7)
    (fun s => s.closed = false → s.active = true → UpToDate (fun _ => some 7) s) .start lunch :=
  upToDate_whenActive _ lunch (by decide)

end Keys

end Oxool.Kit.Recording
