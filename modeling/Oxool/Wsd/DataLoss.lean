import Oxool.Wsd.Uploaded

/-!
# What the check for data loss misses

When the polling loop is left, the broker checks for data loss, and puts the last version into
quarantine if it finds any. The check reads times and failure counts: modifying activity after the
last save request, a failed save, a failed upload, a file newer than the one last uploaded.

Nothing is missed (`data_loss_detected`) if

* every modifying activity reaches the Kit, and is later than the last save request: what comes
  in the tick of the request, or is dropped because the document is unloading, leaves no trace;
* no upload is taken for another (`UploadNamed`);
* the storage does not report a conflict once closing is requested, for the check then takes the
  conflict for one that the owner discarded;
* no save is unanswered when the loop is left, unless a failure is on record: the check does not
  look at `isSaving`.
-/

set_option autoImplicit false

namespace Oxool.Wsd

/-! ## Loss and its detection -/

/-- Some modifying activity is in no version that the storage accepted. -/
def ActivityLost (b : DocumentBroker) : Prop :=
  b.ledger.undelivered = true ∨
    ∃ i, i < b.ledger.edits ∧ ∀ v ∈ b.ledger.accepted, b.ledger.content v ≤ i

/-- A broker that leaves the polling loop having lost something finds out, unless a conflict was
discarded. -/
def LossDetected (b : DocumentBroker) : Prop :=
  (b.stop || b.terminationFlag) = true → ActivityLost b → b.ledger.discarded = false →
    b.dataLoss = true

instance : DecidablePred ActivityLost := fun _ => inferInstanceAs (Decidable (_ ∨ _))

instance : DecidablePred LossDetected := fun _ => inferInstanceAs (Decidable (_ → _))

/-- A conflict is news only as long as closing has not been requested. -/
def DocumentBroker.conflictSeen (b : DocumentBroker) : Prop :=
  b.docState.isCloseRequested = false ∨ b.ledger.discarded = true

def ActivitySeen (b : DocumentBroker) : Action → Prop
  | .updateLastModifyingActivityTime delivered =>
    delivered = true ∧ b.save.request.lastRequestTime < b.now
  | .upload u => UploadNamed b (.upload u)
  | .uploadResult result => result = .docChanged ∨ result = .conflict → b.conflictSeen
  | .documentChanged => b.conflictSeen
  | _ => True

instance (b : DocumentBroker) (a : Action) : Decidable (ActivitySeen b a) := by
  apply Action.casesOn (motive := fun a => Decidable (ActivitySeen b a)) a <;> intros <;>
  unfold ActivitySeen DocumentBroker.conflictSeen <;> infer_instance

theorem ActivitySeen.named {b : DocumentBroker} {a : Action} (h : ActivitySeen b a) :
    UploadNamed b a := by
  cases a with
  | upload u => exact h
  | _ => trivial

/-! ## The invariant -/

/-- The times and counts of the save manager against what the saves had. -/
structure SavesSeen (b : DocumentBroker) : Prop where
  delivered : b.ledger.undelivered = false
  /-- No activity since the last save request: it had all edits. -/
  requested : b.haveModifyActivityAfterSaveRequest = false → b.ledger.edits = b.ledger.requested
  /-- The save sent last is the one that the last request was for. -/
  sent : ∀ sent, b.ledger.saves.getLast? = some sent → sent.content = b.ledger.requested
  /-- It was answered well: the newest version has what was requested. -/
  answered : b.ledger.saves = [] → b.save.lastSaveSuccessful = true →
    b.ledger.requested ≤ b.ledger.content b.ledger.newest
  discarded : b.docState.isCloseRequested = true → b.documentChangedInStorage = true →
    b.ledger.discarded = true

theorem savesSeen_init (c : Config) : SavesSeen (init c) where
  delivered := rfl
  requested := fun _ => rfl
  sent := by simp [init]
  answered := fun _ _ => Nat.le_refl 0
  discarded := by simp [init]

namespace SavesSeen

variable {b : DocumentBroker}

/-- Activity later than the last request is seen. -/
theorem updateLastModifyingActivityTime (h : SavesSeen b)
    (hlater : b.save.request.lastRequestTime < b.now) :
    SavesSeen (b.updateLastModifyingActivityTime true) := by
  refine ⟨?_, ?_, h.sent, h.answered, h.discarded⟩
  · simpa [DocumentBroker.updateLastModifyingActivityTime] using h.delivered
  · intro hseen
    exact absurd hlater (of_decide_eq_false hseen)

theorem sendUnoSave (h : SavesSeen b) (isAutosave : Bool) (extendedData : String)
    (forwarded : Bool) : SavesSeen (b.sendUnoSave isAutosave extendedData forwarded) := by
  cases forwarded with
  | false => exact ⟨h.delivered, h.requested, h.sent, h.answered, h.discarded⟩
  | true =>
    rw [DocumentBroker.sendUnoSave_sent]
    refine ⟨h.delivered, fun _ => rfl, ?_, ?_, ?_⟩
    · intro sent hlast
      rw [List.getLast?_concat] at hlast
      cases hlast
      rfl
    · intro hnil
      simp at hnil
    · dsimp only
      split <;> exact h.discarded

/-- A save that is answered well is in the newest version. -/
theorem le_content_saveResult (answer : SaveAnswer) {sent : SaveSent} {rest : List SaveSent}
    (hs : b.ledger.awaited = sent :: rest) (hwell : (answer.success || answer.unmodified) = true) :
    sent.content ≤
      (b.saveResult answer).ledger.content (b.saveResult answer).ledger.newest := by
  simp only [DocumentBroker.saveResult, hs]
  cases hnew : answer.success with
  | true => simp
  | false =>
    rw [hnew, Bool.false_or] at hwell
    simp [hwell, Nat.le_max_right]

/-- The save sent last is the last that the Kit has to answer, if there is any. -/
theorem getLast?_awaited {sent : SaveSent} {rest : List SaveSent}
    (hs : b.ledger.awaited = sent :: rest) : b.ledger.saves.getLast? = (sent :: rest).getLast? := by
  obtain ⟨lost, hlost⟩ := List.dropWhile_suffix (·.lost) (l := b.ledger.saves)
  rw [← Ledger.awaited, hs] at hlost
  rw [← hlost, List.getLast?_append, List.getLast?_cons]
  rfl

/-- The answer to the save sent last says whether the newest version has what was requested. -/
theorem saveResult (h : SavesSeen b) (answer : SaveAnswer) :
    SavesSeen (b.saveResult answer) := by
  cases hs : b.ledger.awaited with
  | nil => rwa [DocumentBroker.saveResult_nil hs]
  | cons sent rest =>
    have hsent := h.sent
    rw [getLast?_awaited hs] at hsent
    have hcontent := le_content_saveResult answer hs
    rw [DocumentBroker.saveResult, hs] at hcontent ⊢
    refine ⟨h.delivered, h.requested, ?_, ?_, h.discarded⟩
    · intro later hlater
      apply hsent
      rw [List.getLast?_cons, show rest.getLast? = some later from hlater]
      rfl
    · intro hnil hsuccess
      have hlast : sent.content = b.ledger.requested := by
        apply hsent
        rw [show rest = [] from hnil]
        rfl
      rw [SaveManager.lastSaveSuccessful_setLastSaveResult] at hsuccess
      calc b.ledger.requested = sent.content := hlast.symm
        _ ≤ _ := hcontent hsuccess

/-- A save whose answer was lost is unanswered. -/
theorem loseAnswer (h : SavesSeen b) (answer : SaveAnswer) : SavesSeen (b.loseAnswer answer) := by
  cases hs : b.ledger.awaited with
  | nil => rwa [DocumentBroker.loseAnswer_nil hs]
  | cons sent rest =>
    rw [DocumentBroker.loseAnswer_cons hs]
    have hcontent := DocumentBroker.map_loseFirst SaveSent.content (fun _ => rfl) b.ledger.saves
    refine ⟨h.delivered, h.requested, ?_, ?_, h.discarded⟩
    · intro last (hlast : (DocumentBroker.loseFirst b.ledger.saves).getLast? = some last)
      have hmap := congrArg List.getLast? hcontent
      rw [List.getLast?_map, List.getLast?_map, hlast] at hmap
      obtain ⟨last', hlast', hsame⟩ := Option.map_eq_some_iff.mp hmap.symm
      exact hsame.symm.trans (h.sent last' hlast')
    · intro (hnil : DocumentBroker.loseFirst b.ledger.saves = [])
      have hsaves : b.ledger.saves = [] := by
        rw [hnil] at hcontent
        exact List.map_eq_nil_iff.mp hcontent.symm
      rw [Ledger.awaited, hsaves] at hs
      cases hs

theorem giveUpSave (h : SavesSeen b) : SavesSeen b.giveUpSave := by
  refine ⟨h.delivered, h.requested, ?_, ?_, h.discarded⟩
  · intro sent hlast
    obtain ⟨sent', hlast', rfl⟩ : ∃ sent', b.ledger.saves.getLast? = some sent' ∧
        { sent' with givenUp := true } = sent := by
      simpa [DocumentBroker.giveUpSave, List.getLast?_map] using hlast
    exact h.sent sent' hlast'
  · intro _ hsuccess
    rw [DocumentBroker.giveUpSave, SaveManager.lastSaveSuccessful_setLastSaveResult] at hsuccess
    cases hsuccess

theorem upload (h : SavesSeen b) (u : UploadAttempt) : SavesSeen (b.upload u) := by
  cases hu : b.uploadLocalFileToStorageAsync u (b.uploadAttrs u.force) with
  | none =>
    rw [DocumentBroker.upload_refused hu]
    exact ⟨h.delivered, h.requested, h.sent, h.answered, h.discarded⟩
  | some upload =>
    rw [DocumentBroker.upload_started hu]
    exact ⟨h.delivered, h.requested, h.sent, h.answered, h.discarded⟩

/-- With closing requested, a conflict is one that was discarded. -/
theorem discarded_of_conflict (hok : b.conflictSeen) (hclose : b.docState.isCloseRequested = true) :
    b.ledger.discarded = true := by
  rcases hok with hopen | hdiscarded
  · exact absurd (hopen.symm.trans hclose) (by simp)
  · exact hdiscarded

theorem uploadResult (h : SavesSeen b) {result : UploadResult}
    (hok : ActivitySeen b (.uploadResult result)) : SavesSeen (b.uploadResult result) := by
  cases hu : b.uploadHttpSession with
  | none => rwa [DocumentBroker.uploadResult_none hu]
  | some upload =>
    cases hr : b.uploadRequest with
    | none =>
      simp only [DocumentBroker.uploadResult, hu, hr]
      exact ⟨h.delivered, h.requested, h.sent, h.answered, h.discarded⟩
    | some request =>
      by_cases hres : result = .ok
      · subst hres
        rw [DocumentBroker.uploadResult_ok hu hr]
        split
        · exact ⟨h.delivered, h.requested, h.sent, h.answered, fun _ hc => by cases hc⟩
        · exact ⟨h.delivered, h.requested, h.sent, h.answered, h.discarded⟩
      · rw [DocumentBroker.uploadResult_failed hu hr hres]
        refine ⟨h.delivered, h.requested, h.sent, h.answered, ?_⟩
        intro hclose hchanged
        obtain (hold | hdoc) | hconf : (b.documentChangedInStorage = true ∨ result = .docChanged) ∨
            result = .conflict := by simpa using hchanged
        · exact h.discarded hclose hold
        · exact discarded_of_conflict (hok (.inl hdoc)) hclose
        · exact discarded_of_conflict (hok (.inr hconf)) hclose

theorem act (h : SavesSeen b) {a : Action} (hok : ActivitySeen b a) : SavesSeen (b.act a) := by
  cases a with
  | updateLastModifyingActivityTime delivered =>
    obtain ⟨rfl, hlater⟩ := hok
    exact h.updateLastModifyingActivityTime hlater
  | sendUnoSave isAutosave extendedData forwarded =>
    exact h.sendUnoSave isAutosave extendedData forwarded
  | saveResult answer => exact h.saveResult answer
  | loseAnswer answer => exact h.loseAnswer answer
  | giveUpSave => exact h.giveUpSave
  | upload u => exact h.upload u
  | uploadResult result => exact h.uploadResult hok
  | documentChanged =>
    exact ⟨h.delivered, h.requested, h.sent, h.answered, fun hc _ => discarded_of_conflict hok hc⟩
  | setCloseRequested reason =>
    refine ⟨h.delivered, h.requested, h.sent, h.answered, ?_⟩
    intro _ hchanged
    exact Bool.or_eq_true_iff.2 (.inr hchanged)
  | _ => exact ⟨h.delivered, h.requested, h.sent, h.answered, h.discarded⟩

/-- If the check finds nothing, the newest version has every edit, and storage has it. -/
theorem lossDetected (h : SavesSeen b) (hup : UploadMatches b)
    (hexit : b.ledger.saves = [] ∨ b.save.lastSaveSuccessful = false) : LossDetected b := by
  intro _ hlost hnot
  by_contra hcheck
  have hconflict : (b.docState.isCloseRequested && b.documentChangedInStorage) = false := by
    by_contra hc
    rw [Bool.not_eq_false, Bool.and_eq_true] at hc
    obtain ⟨hclose, hchanged⟩ := hc
    exact absurd (hnot.symm.trans (h.discarded hclose hchanged)) (by simp)
  obtain ⟨⟨⟨hmodify, hsave⟩, -⟩, hout⟩ : ((b.haveModifyActivityAfterSaveRequest = false ∧
      b.save.lastSaveSuccessful = true) ∧ b.storage.lastUploadSuccessful = true) ∧
      b.isStorageOutdated = false := by
    simpa [DocumentBroker.dataLoss, hconflict] using hcheck
  have hsaves : b.ledger.saves = [] :=
    hexit.resolve_right fun hf => absurd (hf.symm.trans hsave) (by simp)
  rcases hlost with hun | ⟨i, hi, hnone⟩
  · exact absurd (hun.symm.trans h.delivered) (by simp)
  · apply Nat.lt_irrefl i
    calc i < b.ledger.edits := hi
      _ = b.ledger.requested := h.requested hmodify
      _ ≤ b.ledger.content b.ledger.newest := h.answered hsaves hsave
      _ ≤ i := hnone _ (hup.newest_accepted hout)

end SavesSeen

/-! ## Over a run -/

/-- **The check for data loss is complete** for every run whose actions are all seen and that
leaves no save unanswered. -/
theorem data_loss_detected (c : Config) (es : List (Event × Env))
    (h : (run c es).Meets ActivitySeen)
    (hexit : (run c es).state.ledger.saves = [] ∨
      (run c es).state.save.lastSaveSuccessful = false) :
    LossDetected (run c es).state := by
  have hinv : (run c es).Always fun b => SavesSeen b ∧ UploadMatches b :=
    Run.always_of_meets (fun _ hb => hb)
      (fun b a hb hok => ⟨hb.1.act hok, hb.2.act (ActivitySeen.named hok)⟩)
      ⟨savesSeen_init c, uploadMatches_init c⟩ h
  obtain ⟨hseen, hmatches⟩ := hinv.state
  exact hseen.lossDetected hmatches hexit

/-- One edit is saved and uploaded, the next comes just before the broker is terminated. -/
def terminatedAfterEdit : List (Event × Env) :=
  [(.tick 1, {}), (.input 1 true, {}), (.save 1 "", { pause := 1 }),
    (.saveResponse 1 ⟨true, "", none⟩, {}), (.uploadFinished .ok, {}), (.tick 1, {}),
    (.input 1 true, {}), (.terminate, {})]

theorem data_loss_detected_terminatedAfterEdit :
    ActivityLost (run (.withSessions [.editor 1]) terminatedAfterEdit).state ∧
      LossDetected (run (.withSessions [.editor 1]) terminatedAfterEdit).state :=
  ⟨by decide +kernel,
    data_loss_detected (.withSessions [.editor 1]) terminatedAfterEdit (by decide +kernel)
      (by decide +kernel)⟩

/-- An edit is saved, and the broker is terminated before the Kit answers. -/
def terminatedWhileSaving : List (Event × Env) :=
  [(.tick 1, {}), (.input 1 true, {}), (.save 1 "", { pause := 1 }), (.terminate, {})]

/-- An edit comes in the tick of a save, after it. -/
def editedInTheTick : List (Event × Env) :=
  [(.tick 1, {}), (.save 1 "", {}), (.input 1 true, {}),
    (.saveResponse 1 ⟨true, "", none⟩, {}), (.uploadFinished .ok, {}), (.stop "", {})]

/-- Text that is typed while the server shuts down is dropped. -/
def typedWhileUnloading : List (Event × Env) :=
  [(.shutdownRequest, {}), (.tick 1, {}), (.input 1 true, {}), (.save 1 "", { pause := 1 }),
    (.saveResponse 1 ⟨true, "", none⟩, {}), (.uploadFinished .ok, {}), (.stop "", {})]

/-- The owner closes the document, and the last upload meets a conflict. -/
def conflictAfterClosing : List (Event × Env) :=
  [(.tick 1, {}), (.input 1 true, {}), (.save 1 "", { pause := 1 }),
    (.saveResponse 1 ⟨true, "", none⟩, {}), (.closeDocument "ownertermination", {}),
    (.uploadFinished .conflict, {}), (.stop "", {})]

theorem data_loss_missed :
    ¬ LossDetected (run (.withSessions [.editor 1]) terminatedWhileSaving).state ∧
      ¬ LossDetected (run (.withSessions [.editor 1]) editedInTheTick).state ∧
      ¬ LossDetected (run (.withSessions [.editor 1]) typedWhileUnloading).state ∧
      ¬ LossDetected (run (.withSessions [.editor 1]) conflictAfterClosing).state := by
  decide +kernel

end Oxool.Wsd
