import Mathlib.Algebra.Group.Nat.Defs
import Mathlib.Data.List.Count
import Mathlib.Data.List.Nodup
import Oxool.Lib.Run

/-!
# `AdminModel` (`wsd/AdminModel.cpp`)

What the admin console knows of the open documents: for each its views, which stay in the record
when they end, and a count of those that have not ended. `DocumentBroker` reports a new session with
`addDocument`, a session that ends with `removeDocument(docKey, sessionId)`, possibly more than once,
and its own end with `removeDocument(docKey)`.

The count is kept apart from the views. It is right, and a document leaves when its last view does,
exactly in the runs where each step is `Once`: no view ends twice (`view_accounting`). The other way
to end a view twice is the end of a document some views of which have ended already.

The clock is the wall clock in seconds, which is taken not to go back, and the keys of
`_expiredDocuments`, which have the time in nanoseconds in them, not to repeat. What the console is
told (`notify`), the snapshots and the memory of a document are left out.
-/

set_option autoImplicit false

namespace Oxool.Wsd.Admin

/-! ## `View` and `Document` -/

structure View where
  sessionId : String
  endTime : Nat
deriving DecidableEq

def View.isExpired (v : View) (now : Nat) : Bool := v.endTime != 0 && v.endTime ≤ now

def View.expire (v : View) (now : Nat) : View := { v with endTime := now }

/-- `_views` is a map from session ids, and `_activeViews` an `unsigned`. -/
structure Document where
  views : List View
  distinct : (views.map View.sessionId).Nodup
  activeViews : Nat
  endTime : Nat
deriving DecidableEq

namespace Document

def new : Document := ⟨[], List.nodup_nil, 0, 0⟩

def isExpired (d : Document) (now : Nat) : Bool := d.endTime != 0 && d.endTime ≤ now

def sessionIds (d : Document) : List String := d.views.map View.sessionId

/-- `addView`: `emplace` does nothing for a session that is there, ended or not. -/
def addView (d : Document) (sessionId : String) : Document :=
  if h : sessionId ∈ d.sessionIds then d
  else
    { d with
      views := d.views ++ [⟨sessionId, 0⟩]
      distinct := by
        rw [List.map_append, List.map_singleton, ← List.concat_eq_append]
        exact List.Nodup.concat h d.distinct
      activeViews := (d.activeViews + 1) % 2 ^ 32 }

/-- The views after the one of a session was told to expire. -/
def expireIn (views : List View) (sessionId : String) (now : Nat) : List View :=
  views.map fun v => if v.sessionId = sessionId then v.expire now else v

theorem sessionIds_expireIn (views : List View) (sessionId : String) (now : Nat) :
    (expireIn views sessionId now).map View.sessionId = views.map View.sessionId := by
  rw [expireIn, List.map_map]
  refine List.map_congr_left fun v _ => ?_
  dsimp only [Function.comp]
  split <;> rfl

/-- `expireView`, without its answer, which is `activeViews`. -/
def expireView (d : Document) (sessionId : String) (now : Nat) : Document :=
  if sessionId ∈ d.sessionIds then
    let activeViews := (d.activeViews + (2 ^ 32 - 1)) % 2 ^ 32
    { views := expireIn d.views sessionId now
      distinct := by rw [sessionIds_expireIn]; exact d.distinct
      activeViews := activeViews
      endTime := if activeViews = 0 then now else d.endTime }
  else d

/-- The views that are not expired. -/
def liveViews (d : Document) (now : Nat) : Nat := d.views.countP fun v => !v.isExpired now

end Document

/-! ## `AdminModel` -/

structure AdminModel where
  now : Nat
  documents : String → Option Document
  expiredDocuments : List Document

namespace AdminModel

/-- An empty model at some time. -/
def new (now : Nat) : AdminModel := ⟨now, fun _ => none, []⟩

def setDocument (s : AdminModel) (docKey : String) (d : Document) : AdminModel :=
  { s with documents := fun k => if k = docKey then some d else s.documents k }

/-- `addDocument`. -/
def addDocument (s : AdminModel) (docKey sessionId : String) : AdminModel :=
  s.setDocument docKey (((s.documents docKey).getD .new).addView sessionId)

/-- `doRemove`, for the document as it is now. -/
def doRemove (s : AdminModel) (docKey : String) (d : Document) : AdminModel :=
  { s with
    documents := fun k => if k = docKey then none else s.documents k
    expiredDocuments := s.expiredDocuments ++ [d] }

/-- `removeDocument(docKey, sessionId)`. -/
def removeSession (s : AdminModel) (docKey sessionId : String) : AdminModel :=
  match s.documents docKey with
  | none => s
  | some d =>
    if d.isExpired s.now then s
    else
      let d := d.expireView sessionId s.now
      if d.activeViews = 0 then s.doRemove docKey d else s.setDocument docKey d

/-- `removeDocument(docKey)`. -/
def removeDocument (s : AdminModel) (docKey : String) : AdminModel :=
  match s.documents docKey with
  | none => s
  | some d => s.doRemove docKey (d.sessionIds.foldl (fun d id => d.expireView id s.now) d)

end AdminModel

inductive Action
  | addDocument (docKey sessionId : String)
  | removeSession (docKey sessionId : String)
  | removeDocument (docKey : String)
deriving DecidableEq

def AdminModel.run (s : AdminModel) : Action → AdminModel
  | .addDocument docKey sessionId => s.addDocument docKey sessionId
  | .removeSession docKey sessionId => s.removeSession docKey sessionId
  | .removeDocument docKey => s.removeDocument docKey

/-- An action after some seconds. -/
def AdminModel.act (s : AdminModel) (a : Nat × Action) : AdminModel :=
  { s with now := s.now + a.1 }.run a.2

/-! ## What is claimed of the count -/

/-- Every document, in use or not, counts its views that are not expired. -/
def Accounted (s : AdminModel) : Prop :=
  (∀ docKey d, s.documents docKey = some d → d.activeViews = d.liveViews s.now) ∧
    ∀ d ∈ s.expiredDocuments, d.activeViews = d.liveViews s.now

/-- A document leaves with its last view, or as a whole. -/
def LeavesInTime (s : AdminModel) (a : Nat × Action) : Prop :=
  ∀ docKey d, s.documents docKey = some d → ((s.act a).documents docKey = none ↔
    match a.2 with
    | .addDocument _ _ => False
    | .removeSession key sessionId => key = docKey ∧ d.liveViews s.now = 1 ∧
        ∃ v ∈ d.views, v.sessionId = sessionId ∧ v.isExpired s.now = false
    | .removeDocument key => key = docKey)

/-- The document an action is about. -/
def Action.docKey : Action → String
  | .addDocument docKey _ => docKey
  | .removeSession docKey _ => docKey
  | .removeDocument docKey => docKey

/-- An action that ends no view of the document twice, and does not give it 2 ^ 32 views. -/
def Document.EndsOnce (d : Document) (now : Nat) : Action → Prop
  | .addDocument _ sessionId => sessionId ∉ d.sessionIds → d.liveViews now + 1 < 2 ^ 32
  | .removeSession _ sessionId => ∀ v ∈ d.views, v.sessionId = sessionId → v.isExpired now = false
  | .removeDocument _ => (d.views.countP fun v => v.isExpired now) % 2 ^ 32 = 0

def Once (s : AdminModel) (a : Nat × Action) : Prop :=
  ∀ d, s.documents a.2.docKey = some d → d.EndsOnce s.now a.2

/-! ## One document -/

namespace Document

variable {d : Document} {now : Nat}

/-- Nothing ended in the future, and the count is an `unsigned`. -/
structure Past (d : Document) (now : Nat) : Prop where
  count : d.activeViews < 2 ^ 32
  views : ∀ v ∈ d.views, v.endTime ≤ now

theorem Past.later (h : d.Past now) (pause : Nat) : d.Past (now + pause) :=
  ⟨h.count, fun v hv => Nat.le_add_right_of_le (h.views v hv)⟩

/-- A view that ended stays expired. -/
theorem Past.isExpired_later (h : d.Past now) {v : View} (hv : v ∈ d.views) (pause : Nat) :
    v.isExpired (now + pause) = v.isExpired now := by
  have hle := h.views v hv
  simp only [View.isExpired, hle, Nat.le_add_right_of_le hle]

theorem Past.liveViews_later (h : d.Past now) (pause : Nat) :
    d.liveViews (now + pause) = d.liveViews now := by
  refine List.countP_congr fun v hv => ?_
  rw [h.isExpired_later hv pause]

theorem past_new : new.Past now := ⟨by decide, fun v hv => absurd hv List.not_mem_nil⟩

theorem past_addView (h : d.Past now) (sessionId : String) : (d.addView sessionId).Past now := by
  unfold addView
  split
  · exact h
  · refine ⟨Nat.mod_lt _ (by decide), fun v hv => ?_⟩
    rcases List.mem_append.mp hv with hv | hv
    · exact h.views v hv
    · rw [List.mem_singleton.mp hv]
      exact Nat.zero_le _

theorem past_expireView (h : d.Past now) (sessionId : String) : (d.expireView sessionId now).Past now := by
  unfold expireView
  split
  · refine ⟨Nat.mod_lt _ (by decide), fun v hv => ?_⟩
    obtain ⟨w, hw, rfl⟩ := List.mem_map.mp hv
    split
    · exact Nat.le_refl _
    · exact h.views w hw
  · exact h

theorem sessionIds_expireView (d : Document) (sessionId : String) (now : Nat) :
    (d.expireView sessionId now).sessionIds = d.sessionIds := by
  unfold expireView
  split
  · exact sessionIds_expireIn d.views sessionId now
  · rfl

/-- A new view is a live one more. -/
theorem liveViews_addView {sessionId : String} (h : sessionId ∉ d.sessionIds) (now : Nat) :
    (d.addView sessionId).liveViews now = d.liveViews now + 1 := by
  rw [addView, dif_neg h, liveViews, List.countP_append]
  rfl

theorem expireIn_of_notMem {views : List View} {sessionId : String}
    (h : sessionId ∉ views.map View.sessionId) (now : Nat) : expireIn views sessionId now = views := by
  have hid : expireIn views sessionId now = views.map id := by
    refine List.map_congr_left fun v hv => if_neg ?_
    rintro rfl
    exact h (List.mem_map_of_mem hv)
  rw [hid, List.map_id]

/-- **One live view less**, if the view was live. The session ids are distinct, so that no other view
changes. -/
theorem liveViews_expireView (hnow : 0 < now) {v : View} (hv : v ∈ d.views) :
    d.liveViews now = (d.expireView v.sessionId now).liveViews now +
      if v.isExpired now then 0 else 1 := by
  have hmem : v.sessionId ∈ d.sessionIds := List.mem_map_of_mem hv
  obtain ⟨before, after, hsplit⟩ := List.append_of_mem hv
  have hnodup := d.distinct
  rw [hsplit, List.map_append, List.map_cons, List.nodup_middle, List.nodup_cons, List.mem_append,
    not_or] at hnodup
  have hexpire : expireIn d.views v.sessionId now = before ++ v.expire now :: after := by
    have hbefore := expireIn_of_notMem hnodup.1.1 now
    have hafter := expireIn_of_notMem hnodup.1.2 now
    rw [expireIn] at hbefore hafter
    rw [hsplit, expireIn, List.map_append, List.map_cons, hbefore, hafter, if_pos rfl]
  have hexpired : (v.expire now).isExpired now = true := by
    simp only [View.isExpired, View.expire, Nat.le_refl, decide_true, Bool.and_true, bne_iff_ne]
    omega
  rw [expireView, if_pos hmem]
  simp only [liveViews, hexpire]
  rw [hsplit, List.countP_append, List.countP_append, List.countP_cons, List.countP_cons, hexpired]
  cases v.isExpired now with
  | false => simp [Nat.add_assoc]
  | true => simp

theorem activeViews_expireView {sessionId : String} (h : sessionId ∈ d.sessionIds) (now : Nat) :
    (d.expireView sessionId now).activeViews = (d.activeViews + (2 ^ 32 - 1)) % 2 ^ 32 := by
  rw [expireView, if_pos h]

theorem endTime_expireView (h0 : d.endTime = 0) (sessionId : String) (now : Nat)
    (h : (d.expireView sessionId now).activeViews ≠ 0) : (d.expireView sessionId now).endTime = 0 := by
  by_cases hmem : sessionId ∈ d.sessionIds
  · rw [activeViews_expireView hmem] at h
    simp only [expireView, hmem, if_true]
    rw [if_neg h, h0]
  · rw [expireView, if_neg hmem, h0]

/-- All the views of some sessions told to expire, one after the other. -/
theorem past_foldl (h : d.Past now) (ids : List String) :
    (ids.foldl (fun d id => d.expireView id now) d).Past now := by
  induction ids generalizing d with
  | nil => exact h
  | cons id ids ih => exact ih (past_expireView h id)

theorem activeViews_foldl {ids : List String} (h : ∀ id ∈ ids, id ∈ d.sessionIds) (hd : d.activeViews < 2 ^ 32)
    (now : Nat) : (ids.foldl (fun d id => d.expireView id now) d).activeViews =
      (d.activeViews + ids.length * (2 ^ 32 - 1)) % 2 ^ 32 := by
  induction ids generalizing d with
  | nil => rw [List.foldl_nil, List.length_nil, Nat.zero_mul, Nat.add_zero, Nat.mod_eq_of_lt hd]
  | cons id ids ih =>
    have hid := activeViews_expireView (h id List.mem_cons_self) now
    have hrest : ∀ i ∈ ids, i ∈ (d.expireView id now).sessionIds := by
      rw [sessionIds_expireView]
      exact fun i hi => h i (List.mem_cons_of_mem _ hi)
    rw [List.foldl_cons, ih hrest (by rw [hid]; exact Nat.mod_lt _ (by decide)), hid, List.length_cons]
    omega

theorem isExpired_foldl (hnow : 0 < now) {ids : List String}
    (h : ∀ v ∈ d.views, v.sessionId ∈ ids ∨ v.isExpired now = true) :
    ∀ v ∈ (ids.foldl (fun d id => d.expireView id now) d).views, v.isExpired now = true := by
  induction ids generalizing d with
  | nil => exact fun v hv => (h v hv).resolve_left List.not_mem_nil
  | cons id ids ih =>
    refine ih fun v hmem => ?_
    have hv : v ∈ (d.expireView id now).views := hmem
    unfold expireView at hv
    split at hv
    · obtain ⟨w, hw, rfl⟩ := List.mem_map.mp hv
      split
      · refine Or.inr ?_
        simp only [View.isExpired, View.expire, Nat.le_refl, decide_true, Bool.and_true, bne_iff_ne]
        omega
      · next hne => exact (h w hw).imp_left fun hmem => (List.mem_cons.mp hmem).resolve_left hne
    · next hid =>
      refine (h v hv).imp_left fun hmem => (List.mem_cons.mp hmem).resolve_left ?_
      rintro rfl
      exact hid (List.mem_map_of_mem hv)

theorem liveViews_foldl (hnow : 0 < now) :
    (d.sessionIds.foldl (fun d id => d.expireView id now) d).liveViews now = 0 := by
  have hall := isExpired_foldl hnow (d := d) fun v hv => Or.inl (List.mem_map_of_mem hv)
  rw [liveViews, List.countP_eq_zero]
  intro v hv
  rw [hall v hv]
  decide

/-- The views are those that are live and those that are not. -/
theorem length_views (d : Document) (now : Nat) :
    d.views.length = d.liveViews now + d.views.countP fun v => v.isExpired now := by
  rw [List.length_eq_countP_add_countP fun v => v.isExpired now, liveViews, Nat.add_comm]
  congr 1
  refine List.countP_congr fun v _ => ?_
  simp

/-! ### Which changes keep the count right -/

theorem addView_accounted (h : d.activeViews = d.liveViews now) (hlt : d.activeViews < 2 ^ 32)
    (sessionId : String) :
    (d.addView sessionId).activeViews = (d.addView sessionId).liveViews now ↔
      (sessionId ∉ d.sessionIds → d.liveViews now + 1 < 2 ^ 32) := by
  by_cases hmem : sessionId ∈ d.sessionIds
  · rw [addView, dif_pos hmem]
    exact iff_of_true h fun hnot => absurd hmem hnot
  · have hcount : (d.addView sessionId).activeViews = (d.activeViews + 1) % 2 ^ 32 := by
      rw [addView, dif_neg hmem]
    rw [liveViews_addView hmem, hcount]
    constructor
    · intro heq _
      omega
    · intro hfew
      have hfit := hfew hmem
      omega

theorem expireView_accounted (h : d.activeViews = d.liveViews now) (hlt : d.activeViews < 2 ^ 32)
    (hnow : 0 < now) (sessionId : String) :
    (d.expireView sessionId now).activeViews = (d.expireView sessionId now).liveViews now ↔
      ∀ v ∈ d.views, v.sessionId = sessionId → v.isExpired now = false := by
  by_cases hmem : sessionId ∈ d.sessionIds
  · obtain ⟨v, hv, rfl⟩ := List.mem_map.mp hmem
    have hlive := liveViews_expireView hnow hv
    rw [activeViews_expireView hmem]
    cases hexp : v.isExpired now with
    | true =>
      rw [hexp, if_pos rfl] at hlive
      refine iff_of_false (by omega) fun hall => ?_
      rw [hall v hv rfl] at hexp
      exact absurd hexp (by simp)
    | false =>
      rw [hexp, if_neg (by simp)] at hlive
      refine iff_of_true (by omega) fun w hw hid => ?_
      rwa [List.inj_on_of_nodup_map d.distinct hw hv hid]
  · rw [expireView, if_neg hmem]
    refine iff_of_true h fun v hv hid => absurd ?_ hmem
    exact hid ▸ List.mem_map_of_mem hv

theorem foldl_accounted (h : d.activeViews = d.liveViews now) (hlt : d.activeViews < 2 ^ 32)
    (hnow : 0 < now) :
    (d.sessionIds.foldl (fun d id => d.expireView id now) d).activeViews =
        (d.sessionIds.foldl (fun d id => d.expireView id now) d).liveViews now ↔
      (d.views.countP fun v => v.isExpired now) % 2 ^ 32 = 0 := by
  have hlen : d.sessionIds.length = d.liveViews now + d.views.countP fun v => v.isExpired now := by
    rw [sessionIds, List.length_map, d.length_views now]
  rw [liveViews_foldl hnow, activeViews_foldl (fun _ hid => hid) hlt now, hlen, h]
  omega

end Document

/-! ## One step -/

/-- What holds in every run: the clock runs, documents in use have not ended, and nothing ended in
the future. -/
structure Clocked (s : AdminModel) : Prop where
  pos : 0 < s.now
  used : ∀ docKey d, s.documents docKey = some d → d.endTime = 0 ∧ d.Past s.now
  gone : ∀ d ∈ s.expiredDocuments, d.Past s.now

namespace AdminModel

variable {s : AdminModel}

/-- The model some seconds later. -/
def wait (s : AdminModel) (pause : Nat) : AdminModel := { s with now := s.now + pause }

theorem clocked_wait (h : Clocked s) (pause : Nat) : Clocked (s.wait pause) where
  pos := Nat.add_pos_left h.pos pause
  used docKey d hd := ⟨(h.used docKey d hd).1, (h.used docKey d hd).2.later pause⟩
  gone d hd := (h.gone d hd).later pause

/-- **Time alone changes no count.** -/
theorem accounted_wait (h : Clocked s) (pause : Nat) : Accounted (s.wait pause) ↔ Accounted s := by
  have hlive : ∀ docKey d, s.documents docKey = some d → d.liveViews (s.now + pause) = d.liveViews s.now :=
    fun docKey d hd => (h.used docKey d hd).2.liveViews_later pause
  have hgone : ∀ d ∈ s.expiredDocuments, d.liveViews (s.now + pause) = d.liveViews s.now :=
    fun d hd => (h.gone d hd).liveViews_later pause
  refine and_congr ?_ ?_
  · refine forall_congr' fun docKey => forall_congr' fun d => imp_congr_right fun hd => ?_
    rw [wait, hlive docKey d hd]
  · refine forall_congr' fun d => imp_congr_right fun hd => ?_
    rw [wait, hgone d hd]

theorem clocked_setDocument (h : Clocked s) (docKey : String) {d : Document} (hend : d.endTime = 0)
    (hd : d.Past s.now) : Clocked (s.setDocument docKey d) where
  pos := h.pos
  used key e he := by
    simp only [setDocument] at he
    split at he
    · obtain rfl := Option.some.inj he
      exact ⟨hend, hd⟩
    · exact h.used key e he
  gone := h.gone

theorem clocked_doRemove (h : Clocked s) (docKey : String) {d : Document} (hd : d.Past s.now) :
    Clocked (s.doRemove docKey d) where
  pos := h.pos
  used key e he := by
    simp only [doRemove] at he
    split at he
    · exact absurd he (by simp)
    · exact h.used key e he
  gone e he := by
    rcases List.mem_append.mp he with he | he
    · exact h.gone e he
    · rw [List.mem_singleton.mp he]
      exact hd

/-- A changed document is accounted for exactly if its own count is right. -/
theorem accounted_setDocument (h : Accounted s) (docKey : String) (d : Document) :
    Accounted (s.setDocument docKey d) ↔ d.activeViews = d.liveViews s.now := by
  constructor
  · intro hacc
    exact hacc.1 docKey d (if_pos rfl)
  · intro hd
    refine ⟨fun key e he => ?_, h.2⟩
    simp only [setDocument] at he
    split at he
    · obtain rfl := Option.some.inj he
      exact hd
    · exact h.1 key e he

theorem accounted_doRemove (h : Accounted s) (docKey : String) (d : Document) :
    Accounted (s.doRemove docKey d) ↔ d.activeViews = d.liveViews s.now := by
  constructor
  · intro hacc
    exact hacc.2 d (List.mem_append_right _ (List.mem_singleton_self d))
  · intro hd
    refine ⟨fun key e he => ?_, fun e he => ?_⟩
    · simp only [doRemove] at he
      split at he
      · exact absurd he (by simp)
      · exact h.1 key e he
    · rcases List.mem_append.mp he with he | he
      · exact h.2 e he
      · rw [List.mem_singleton.mp he]
        exact hd

theorem clocked_run (h : Clocked s) (a : Action) : Clocked (s.run a) := by
  cases a with
  | addDocument docKey sessionId =>
    have hold : ((s.documents docKey).getD .new).endTime = 0 ∧ ((s.documents docKey).getD .new).Past s.now := by
      cases hd : s.documents docKey with
      | none => exact ⟨rfl, Document.past_new⟩
      | some d => exact h.used docKey d hd
    have hend : ((s.documents docKey).getD .new |>.addView sessionId).endTime = 0 := by
      unfold Document.addView
      split
      · exact hold.1
      · exact hold.1
    exact clocked_setDocument h docKey hend (Document.past_addView hold.2 sessionId)
  | removeSession docKey sessionId =>
    rw [run, removeSession]
    cases hd : s.documents docKey with
    | none => exact h
    | some d =>
      obtain ⟨hend, hpast⟩ := h.used docKey d hd
      dsimp only
      split
      · exact h
      · split
        · exact clocked_doRemove h docKey (Document.past_expireView hpast sessionId)
        · next hne =>
          exact clocked_setDocument h docKey (Document.endTime_expireView hend sessionId s.now hne)
            (Document.past_expireView hpast sessionId)
  | removeDocument docKey =>
    rw [run, removeDocument]
    cases hd : s.documents docKey with
    | none => exact h
    | some d => exact clocked_doRemove h docKey (Document.past_foldl (h.used docKey d hd).2 _)

theorem clocked_act (h : Clocked s) (a : Nat × Action) : Clocked (s.act a) :=
  clocked_run (clocked_wait h a.1) a.2

/-- The ways `removeSession` can go for a document in use: a session that is not a view of it
changes nothing, unless the count is 0 already. -/
theorem removeSession_of_used {docKey : String} {d : Document} (h : Clocked s)
    (hd : s.documents docKey = some d) (sessionId : String) :
    s.removeSession docKey sessionId =
      if (d.expireView sessionId s.now).activeViews = 0 then
        s.doRemove docKey (d.expireView sessionId s.now)
      else s.setDocument docKey (d.expireView sessionId s.now) := by
  have hlive : d.isExpired s.now = false := by
    rw [Document.isExpired, (h.used docKey d hd).1]
    rfl
  rw [removeSession, hd]
  dsimp only
  rw [hlive]
  rfl

theorem once_of_none {a : Nat × Action} (hd : s.documents a.2.docKey = none) : Once s a := by
  intro d h
  rw [hd] at h
  exact absurd h (by simp)

theorem once_of_some {a : Nat × Action} {d : Document} (hd : s.documents a.2.docKey = some d) :
    Once s a ↔ d.EndsOnce s.now a.2 := by
  constructor
  · exact fun h => h d hd
  · intro h e he
    obtain rfl : d = e := Option.some.inj (hd.symm.trans he)
    exact h

instance (d : Document) (now : Nat) : (a : Action) → Decidable (d.EndsOnce now a)
  | .addDocument _ sessionId =>
    inferInstanceAs (Decidable (sessionId ∉ d.sessionIds → d.liveViews now + 1 < 2 ^ 32))
  | .removeSession _ sessionId =>
    inferInstanceAs (Decidable (∀ v ∈ d.views, v.sessionId = sessionId → v.isExpired now = false))
  | .removeDocument _ =>
    inferInstanceAs (Decidable ((d.views.countP fun v => v.isExpired now) % 2 ^ 32 = 0))

instance (s : AdminModel) (a : Nat × Action) : Decidable (Once s a) :=
  match hd : s.documents a.2.docKey with
  | none => .isTrue (once_of_none hd)
  | some _ => decidable_of_iff _ (once_of_some hd).symm

/-- **The count is kept exactly by the steps in which no view ends twice.** -/
theorem accounted_run_iff (hc : Clocked s) (h : Accounted s) (a : Action) :
    Accounted (s.run a) ↔ Once s (0, a) := by
  cases hd : s.documents a.docKey with
  | none =>
    refine iff_of_true ?_ (once_of_none hd)
    cases a with
    | addDocument docKey sessionId =>
      have hdoc : s.documents docKey = none := hd
      rw [run, addDocument, accounted_setDocument h, hdoc]
      rfl
    | removeSession docKey sessionId =>
      have hdoc : s.documents docKey = none := hd
      rw [run, removeSession, hdoc]
      exact h
    | removeDocument docKey =>
      have hdoc : s.documents docKey = none := hd
      rw [run, removeDocument, hdoc]
      exact h
  | some d =>
    have hcount := h.1 _ d hd
    have hlt := (hc.used _ d hd).2.count
    rw [once_of_some hd]
    cases a with
    | addDocument docKey sessionId =>
      have hdoc : s.documents docKey = some d := hd
      rw [run, addDocument, accounted_setDocument h, hdoc]
      exact Document.addView_accounted hcount hlt sessionId
    | removeSession docKey sessionId =>
      have hdoc : s.documents docKey = some d := hd
      refine Iff.trans ?_ (Document.expireView_accounted hcount hlt hc.pos sessionId)
      rw [run, removeSession_of_used hc hdoc]
      split
      · exact accounted_doRemove h docKey _
      · exact accounted_setDocument h docKey _
    | removeDocument docKey =>
      have hdoc : s.documents docKey = some d := hd
      rw [run, removeDocument, hdoc]
      exact (accounted_doRemove h docKey _).trans (Document.foldl_accounted hcount hlt hc.pos)

theorem once_wait (hc : Clocked s) (a : Nat × Action) : Once (s.wait a.1) (0, a.2) ↔ Once s a := by
  refine forall_congr' fun d => imp_congr_right fun hd => ?_
  have hpast := (hc.used _ d hd).2
  obtain ⟨pause, a⟩ := a
  cases a with
  | addDocument docKey sessionId =>
    simp only [Document.EndsOnce, wait, hpast.liveViews_later]
  | removeSession docKey sessionId =>
    refine forall_congr' fun v => imp_congr_right fun hv => ?_
    rw [wait, hpast.isExpired_later hv]
  | removeDocument docKey =>
    have heq : (d.views.countP fun v => v.isExpired (s.now + pause)) =
        d.views.countP fun v => v.isExpired s.now :=
      List.countP_congr fun v hv => by rw [hpast.isExpired_later hv]
    simp only [Document.EndsOnce, wait, heq]

theorem accounted_act_iff (hc : Clocked s) (h : Accounted s) (a : Nat × Action) :
    Accounted (s.act a) ↔ Once s a := by
  rw [act, ← wait, accounted_run_iff (clocked_wait hc a.1) ((accounted_wait hc a.1).mpr h), once_wait hc]

/-! ## When documents leave -/

/-- Documents in use have a live view. -/
def Populated (s : AdminModel) : Prop := ∀ docKey d, s.documents docKey = some d → d.activeViews ≠ 0

theorem populated_setDocument (h : Populated s) (docKey : String) {d : Document} (hd : d.activeViews ≠ 0) :
    Populated (s.setDocument docKey d) := by
  intro key e he
  simp only [setDocument] at he
  split at he
  · obtain rfl := Option.some.inj he
    exact hd
  · exact h key e he

theorem populated_doRemove (h : Populated s) (docKey : String) (d : Document) :
    Populated (s.doRemove docKey d) := by
  intro key e he
  simp only [doRemove] at he
  split at he
  · exact absurd he (by simp)
  · exact h key e he

theorem populated_run (hc : Clocked s) (hacc : Accounted s) (h : Populated s) (a : Action)
    (honce : Once s (0, a)) : Populated (s.run a) := by
  cases a with
  | addDocument docKey sessionId =>
    refine populated_setDocument h docKey ?_
    cases hd : s.documents docKey with
    | none => exact Nat.one_ne_zero
    | some d =>
      have hlive := (Document.addView_accounted (hacc.1 docKey d hd) (hc.used docKey d hd).2.count
        sessionId).mpr (honce d hd)
      rw [Option.getD_some]
      by_cases hmem : sessionId ∈ d.sessionIds
      · rw [Document.addView, dif_pos hmem]
        exact h docKey d hd
      · rw [hlive, Document.liveViews_addView hmem]
        exact Nat.succ_ne_zero _
  | removeSession docKey sessionId =>
    cases hd : s.documents docKey with
    | none =>
      rw [run, removeSession, hd]
      exact h
    | some d =>
      rw [run, removeSession_of_used hc hd]
      split
      · exact populated_doRemove h docKey _
      · next hne => exact populated_setDocument h docKey hne
  | removeDocument docKey =>
    rw [run, removeDocument]
    cases hd : s.documents docKey with
    | none => exact h
    | some d => exact populated_doRemove h docKey _

/-- The count comes to 0 when the last live view ends. -/
theorem expireView_eq_zero_iff (hc : Clocked s) (hacc : Accounted s) (h : Populated s) {docKey : String}
    {d : Document} (hd : s.documents docKey = some d) {sessionId : String}
    (honce : ∀ v ∈ d.views, v.sessionId = sessionId → v.isExpired s.now = false) :
    (d.expireView sessionId s.now).activeViews = 0 ↔ d.liveViews s.now = 1 ∧
      ∃ v ∈ d.views, v.sessionId = sessionId ∧ v.isExpired s.now = false := by
  by_cases hmem : sessionId ∈ d.sessionIds
  · obtain ⟨v, hv, rfl⟩ := List.mem_map.mp hmem
    have hlive := Document.liveViews_expireView hc.pos hv
    have hcount := (Document.expireView_accounted (hacc.1 docKey d hd) (hc.used docKey d hd).2.count
      hc.pos v.sessionId).mpr honce
    rw [honce v hv rfl, if_neg (by simp)] at hlive
    rw [hcount]
    constructor
    · intro h0
      exact ⟨by omega, v, hv, rfl, honce v hv rfl⟩
    · rintro ⟨h1, -⟩
      omega
  · rw [Document.expireView, if_neg hmem]
    refine iff_of_false (h docKey d hd) ?_
    rintro ⟨-, v, hv, rfl, -⟩
    exact hmem (List.mem_map_of_mem hv)

theorem leaves_run (hc : Clocked s) (hacc : Accounted s) (h : Populated s) (a : Action)
    (honce : Once s (0, a)) {docKey : String} {d : Document} (hd : s.documents docKey = some d) :
    (s.run a).documents docKey = none ↔
      match a with
      | .addDocument _ _ => False
      | .removeSession key sessionId => key = docKey ∧ d.liveViews s.now = 1 ∧
          ∃ v ∈ d.views, v.sessionId = sessionId ∧ v.isExpired s.now = false
      | .removeDocument key => key = docKey := by
  cases a with
  | addDocument key sessionId =>
    refine iff_of_false ?_ id
    simp only [run, addDocument, setDocument]
    split
    · simp
    · simp [hd]
  | removeSession key sessionId =>
    by_cases hkey : key = docKey
    · subst hkey
      rw [run, removeSession_of_used hc hd]
      dsimp only
      rw [and_iff_right rfl, ← expireView_eq_zero_iff hc hacc h hd (honce d hd)]
      split
      · next h0 => exact iff_of_true (if_pos rfl) h0
      · next h0 =>
        refine iff_of_false ?_ h0
        simp [setDocument]
    · refine iff_of_false ?_ fun hr => hkey hr.1
      rw [run, removeSession]
      have hother : ¬ docKey = key := fun heq => hkey heq.symm
      split
      · simp [hd]
      · split
        · simp [hd]
        · dsimp only
          split
          · simp [doRemove, hother, hd]
          · simp [setDocument, hother, hd]
  | removeDocument key =>
    rw [run, removeDocument]
    by_cases hkey : key = docKey
    · subst hkey
      rw [hd]
      exact iff_of_true (if_pos rfl) rfl
    · have hother : ¬ docKey = key := fun heq => hkey heq.symm
      refine iff_of_false ?_ hkey
      split
      · simp [hd]
      · simp [doRemove, hother, hd]

end AdminModel

/-! ## Runs -/

open AdminModel

/-- What a run of single ends keeps. -/
structure InStep (s : AdminModel) : Prop where
  clocked : Clocked s
  accounted : Accounted s
  populated : Populated s

theorem InStep.act {s : AdminModel} (h : InStep s) {a : Nat × Action} (honce : Once s a) :
    InStep (s.act a) where
  clocked := clocked_act h.clocked a
  accounted := (accounted_act_iff h.clocked h.accounted a).mpr honce
  populated := populated_run (clocked_wait h.clocked a.1) ((accounted_wait h.clocked a.1).mpr h.accounted)
    h.populated a.2 ((once_wait h.clocked a).mpr honce)

theorem InStep.leavesInTime {s : AdminModel} (h : InStep s) {a : Nat × Action} (honce : Once s a) :
    LeavesInTime s a := by
  intro docKey d hd
  have hpast := (h.clocked.used docKey d hd).2
  have hleaves := leaves_run (clocked_wait h.clocked a.1) ((accounted_wait h.clocked a.1).mpr h.accounted)
    h.populated a.2 ((once_wait h.clocked a).mpr honce) hd
  refine hleaves.trans ?_
  obtain ⟨pause, a⟩ := a
  cases a with
  | addDocument key sessionId => exact Iff.rfl
  | removeSession key sessionId =>
    refine and_congr_right fun _ => ?_
    rw [wait, hpast.liveViews_later]
    refine and_congr_right fun _ => exists_congr fun v => and_congr_right fun hv => ?_
    rw [hpast.isExpired_later hv]
  | removeDocument key => exact Iff.rfl

theorem inStep_new {now : Nat} (hnow : 0 < now) : InStep (.new now) where
  clocked := ⟨hnow, fun _ _ h => absurd h (by simp [new]), fun _ h => absurd h List.not_mem_nil⟩
  accounted := ⟨fun _ _ h => absurd h (by simp [new]), fun _ h => absurd h List.not_mem_nil⟩
  populated := fun _ _ h => absurd h (by simp [new])

/-- **The count of views is right, and documents leave with their last view, exactly in the runs in
which no view ends twice.** -/
theorem view_accounting (now : Nat) (hnow : 0 < now) (as : List (Nat × Action)) :
    Run.Always act Accounted (.new now) as ∧ Run.Meets act LeavesInTime (.new now) as ↔
      Run.Meets act Once (.new now) as := by
  have h0 := inStep_new hnow
  have hiff : Run.Always act Accounted (.new now) as ↔ Run.Meets act Once (.new now) as :=
    Run.always_iff_meets (fun _ a hc => clocked_act hc a) (fun _ a hc h => accounted_act_iff hc h a)
      h0.clocked h0.accounted
  constructor
  · rintro ⟨halways, -⟩
    exact hiff.mp halways
  · intro hmeets
    exact ⟨Run.always_of_meets (fun _ h => h.accounted) (fun _ _ h honce => h.act honce) h0 hmeets,
      hmeets.imp (fun _ _ h honce => h.act honce) (fun _ _ h honce => h.leavesInTime honce) h0⟩

/-- Two sessions that end one after the other. -/
theorem view_accounting_two :
    Run.Always act Accounted (.new 1) [(0, .addDocument "doc" "a"), (0, .addDocument "doc" "b"),
        (1, .removeSession "doc" "a"), (1, .removeSession "doc" "b")] ∧
      Run.Meets act LeavesInTime (.new 1) [(0, .addDocument "doc" "a"), (0, .addDocument "doc" "b"),
        (1, .removeSession "doc" "a"), (1, .removeSession "doc" "b")] :=
  (view_accounting 1 (by decide) [(0, .addDocument "doc" "a"), (0, .addDocument "doc" "b"),
    (1, .removeSession "doc" "a"), (1, .removeSession "doc" "b")]).mpr (by decide)

/-- One of two sessions is reported twice, and the document leaves with the other one in it. -/
theorem view_accounting_lost :
    ¬ (Run.Always act Accounted (.new 1) [(0, .addDocument "doc" "a"), (0, .addDocument "doc" "b"),
        (1, .removeSession "doc" "a"), (1, .removeSession "doc" "a")] ∧
      Run.Meets act LeavesInTime (.new 1) [(0, .addDocument "doc" "a"), (0, .addDocument "doc" "b"),
        (1, .removeSession "doc" "a"), (1, .removeSession "doc" "a")]) := by
  rintro ⟨halways, -⟩
  have hgone := halways.last.2
  revert hgone
  decide

end Oxool.Wsd.Admin
