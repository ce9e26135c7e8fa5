import Oxool.Wsd.DocumentBroker

/-!
# Activities that end

A rename goes through a save, an upload of what was saved and the rename request. The activity
lasts from the first to the last, and while it lasts the polling loop neither saves nor unloads. So
in every state between two events something has to be outstanding that leads on: a save that the
Kit will answer or an upload that the storage will answer. `ActivityProgresses` says so, and the
same of the activity `Save`, for which it is enough that the loop gives the save up: when the Kit
has gone, and when the save takes too long, as far as the save manager knows that there is one.

Most of what the broker does keeps it that way (`Keeps`). The steps that consume what is
outstanding have to put something else in its place, and there the broker gets stuck in `Rename`
whenever a branch returns early. One of these steps is no step of the broker at all: the answer to
a save of a session that was removed since is dropped where it comes in, and `Rename` has no
time-out. `RenameProceeds` lists what has to be the case at each of them.
-/

set_option autoImplicit false

namespace Oxool.Wsd

/-! ## What an activity waits for -/

/-- Neither given up nor lost: the broker will hear of this save. -/
def SaveSent.isAwaited (sent : SaveSent) : Bool := !sent.givenUp && !sent.lost

/-- The part of the state that says whether an activity leads on. -/
structure Stage where
  activity : Activity
  saves : List SaveSent
  /-- The save manager takes a save for active, so that it can time out. -/
  saving : Bool
  disconnected : Disconnected
  uploadHttpSession : Option Upload
  uploadRequest : Option UploadRequest

def DocumentBroker.stage (b : DocumentBroker) : Stage where
  activity := b.docState.activity
  saves := b.ledger.saves
  saving := b.save.isSaving
  disconnected := b.docState.disconnected
  uploadHttpSession := b.uploadHttpSession
  uploadRequest := b.uploadRequest

namespace Stage

variable (s : Stage)

/-- A save is in flight, and the Kit is there to answer it. -/
def saveOutstanding : Bool := s.saves.any SaveSent.isAwaited && s.disconnected == .no

/-- A save is in flight, or the polling loop gives it up. -/
def saveEnds : Bool := s.saves.any SaveSent.isAwaited || s.saving || s.disconnected != .no

/-- An upload is in progress whose answer the rename waits for: not a save-as. -/
def uploadOutstanding : Bool :=
  s.uploadHttpSession.isSome && s.uploadRequest.any fun request => !request.isSaveAs

/-- No activity is left with nothing to finish it. -/
def progresses : Bool :=
  (s.activity != .rename || s.saveOutstanding || s.uploadOutstanding) &&
    (s.activity != .save || s.saveEnds)

theorem progresses_iff : s.progresses = true ↔
    (s.activity = .rename → s.saveOutstanding = true ∨ s.uploadOutstanding = true) ∧
      (s.activity = .save → s.saveEnds = true) := by
  cases h : s.activity <;> simp [progresses, h]

theorem progresses_of_none {s : Stage} (h : s.activity = .none) : s.progresses = true := by
  simp [progresses, h]

end Stage

/-- If the activity is `Rename`, a save or an upload is outstanding; if it is `Save`, a save is, or the
check for its time-out or for a Kit that has gone applies. -/
def ActivityProgresses (b : DocumentBroker) : Prop := b.stage.progresses = true

instance : DecidablePred ActivityProgresses := fun _ => inferInstanceAs (Decidable (_ = _))

/-! ## Actions -/

section

variable {b : DocumentBroker}

theorem stage_sendUnoSave (isAutosave : Bool) (extendedData : String) :
    (b.sendUnoSave isAutosave extendedData true).stage =
      { b.stage with
        activity := if b.stage.activity = .none then .save else b.stage.activity
        saves := b.ledger.saves ++
          [⟨b.ledger.edits, b.capturedAttrs isAutosave extendedData, false, false⟩]
        saving := ((b.save.setLastModifiedTime 0).markLastSaveRequestTime b.now).isSaving } := by
  rw [DocumentBroker.sendUnoSave_sent]
  by_cases h : b.docState.activity = .none
  · simp [DocumentBroker.stage, h]
  · simp [DocumentBroker.stage, h]

/-- Sending a save only adds to what is outstanding. -/
theorem progresses_sendUnoSave (h : ActivityProgresses b) (isAutosave : Bool)
    (extendedData : String) (forwarded : Bool) :
    ActivityProgresses (b.sendUnoSave isAutosave extendedData forwarded) := by
  cases forwarded with
  | false => exact h
  | true =>
    obtain ⟨hrename, -⟩ := b.stage.progresses_iff.1 h
    rw [ActivityProgresses, stage_sendUnoSave, Stage.progresses_iff]
    refine ⟨?_, fun _ => by simp [Stage.saveEnds, SaveSent.isAwaited]⟩
    intro hact
    have hwas : b.stage.activity = .rename := by
      dsimp only at hact
      split at hact
      · cases hact
      · exact hact
    rcases hrename hwas with hsave | hupload
    · left
      obtain ⟨-, hkit⟩ := Bool.and_eq_true_iff.1 hsave
      simp [Stage.saveOutstanding, SaveSent.isAwaited, hkit]
    · exact .inr hupload

/-- An attempt to upload either is outstanding afterwards or has ended the rename. -/
theorem progresses_upload_plain {u : UploadAttempt} (hu : u.isSaveAs = false)
    (hsave : b.stage.activity ≠ .save) : ActivityProgresses (b.upload u) := by
  cases hstart : b.uploadLocalFileToStorageAsync u (b.uploadAttrs u.force) with
  | none =>
    rw [ActivityProgresses, DocumentBroker.upload_refused hstart, Stage.progresses_iff]
    constructor
    · intro hact
      simp only [DocumentBroker.stage] at hact
      split at hact
      · cases hact
      · contradiction
    · intro hact
      simp only [DocumentBroker.stage] at hact
      split at hact
      · cases hact
      · exact absurd hact hsave
  | some upload =>
    rw [ActivityProgresses, DocumentBroker.upload_started hstart, Stage.progresses_iff]
    refine ⟨fun _ => .inr ?_, fun hact => absurd hact hsave⟩
    simp [Stage.uploadOutstanding, DocumentBroker.stage, hu]

theorem progresses_upload (h : ActivityProgresses b) (u : UploadAttempt) :
    ActivityProgresses (b.upload u) := by
  obtain ⟨hrename, hsave⟩ := b.stage.progresses_iff.1 h
  cases hstart : b.uploadLocalFileToStorageAsync u (b.uploadAttrs u.force) with
  | none =>
    rw [ActivityProgresses, DocumentBroker.upload_refused hstart, Stage.progresses_iff]
    simp only [DocumentBroker.stage]
    split
    · exact ⟨nofun, nofun⟩
    · rename_i hact
      exact ⟨fun hact' => absurd hact' hact, hsave⟩
  | some upload =>
    -- Nothing was in progress, so a rename waits for a save, and still does.
    have hnone := DocumentBroker.uploadHttpSession_of_started hstart
    rw [ActivityProgresses, DocumentBroker.upload_started hstart, Stage.progresses_iff]
    refine ⟨fun hact => .inl ?_, hsave⟩
    rcases hrename hact with hout | hout
    · exact hout
    · simp [Stage.uploadOutstanding, DocumentBroker.stage, hnone] at hout

end

/-! ## Handlers that keep it -/

/-- Whatever is outstanding before is so after, or what was waited for is over. -/
def Keeps {c : Config} (t t' : BrokerRun c) : Prop :=
  ActivityProgresses t.state → ActivityProgresses t'.state

namespace Keeps

variable {c : Config} {t t' t'' : BrokerRun c}

theorem refl (t : BrokerRun c) : Keeps t t := id

theorem trans (h : Keeps t t') (h' : Keeps t' t'') : Keeps t t'' := h' ∘ h

/-- Nothing of the stage changes. -/
theorem of_stage (h : t'.state.stage = t.state.stage) : Keeps t t' := by
  intro ht
  rwa [ActivityProgresses, h]

/-- An action that has nothing to do with activities. -/
theorem quiet (t : BrokerRun c) (a : Action) (h : (t.state.act a).stage = t.state.stage) :
    Keeps t (t.act a) := of_stage h

theorem of_none (h : t'.state.docState.activity = .none) : Keeps t t' :=
  fun _ => Stage.progresses_of_none h

theorem ite {p : Prop} [Decidable p] (h : Keeps t t') (h' : Keeps t t'') :
    Keeps t (if p then t' else t'') := by
  split
  · exact h
  · exact h'

theorem sendUnoSave (env : Env) (session : Session) (isAutosave : Bool) (extendedData : String)
    (t : BrokerRun c) : Keeps t (sendUnoSave env session isAutosave extendedData t).1 :=
  (quiet t (.tick env.pause) rfl).trans fun h => progresses_sendUnoSave h ..

theorem manualSave (env : Env) (session : Session) (extendedData : String) (t : BrokerRun c) :
    Keeps t (manualSave env session extendedData t).1 := by
  unfold Wsd.manualSave
  split
  · exact Keeps.sendUnoSave _ _ _ _ _
  · exact Keeps.refl t

theorem autoSave (env : Env) (force : Bool) (t : BrokerRun c) :
    Keeps t (autoSave env force t).1 := by
  unfold Wsd.autoSave
  split
  · exact Keeps.refl t
  · have hchecked : Keeps t (t.act .autoSaveChecked) := of_stage rfl
    dsimp only
    split
    · exact hchecked
    · split
      · exact hchecked
      · split
        · exact hchecked
        · split
          · exact hchecked.trans (Keeps.sendUnoSave _ _ _ _ _)
          · split
            · exact hchecked.trans (Keeps.sendUnoSave _ _ _ _ _)
            · exact hchecked

end Keeps

theorem stage_disconnectSessionInternal {c : Config} (session : Session) (t : BrokerRun c) :
    (disconnectSessionInternal session t).state.stage = t.state.stage := by
  unfold disconnectSessionInternal finalRemoveSession
  dsimp only
  split <;> split <;> rfl

theorem stage_disconnectClosedSessions {c : Config} (t : BrokerRun c) :
    (disconnectClosedSessions t).state.stage = t.state.stage := by
  unfold disconnectClosedSessions
  generalize t.state.sessions = sessions
  induction sessions generalizing t with
  | nil => rfl
  | cons s rest ih =>
    rw [List.foldl_cons, ih]
    split
    · exact stage_disconnectSessionInternal s t
    · rfl

namespace Keeps

variable {c : Config}

theorem uploadToStorageInternal (env : Env) (session : Session)
    (saveAsPath saveAsFilename : String) (isRename isExport force : Bool) (t : BrokerRun c) :
    Keeps t (uploadToStorageInternal env session saveAsPath saveAsFilename isRename isExport
      force t) := by
  unfold Wsd.uploadToStorageInternal
  split
  · exact Keeps.refl t
  · split
    · exact Keeps.refl t
    · exact (quiet t (.tick env.pause) rfl).trans fun h => progresses_upload h _

theorem uploadToStorage (env : Env) (session : Session) (force : Bool) (t : BrokerRun c) :
    Keeps t (uploadToStorage env session force t) := by
  unfold Wsd.uploadToStorage
  split
  · exact Keeps.uploadToStorageInternal _ _ _ _ _ _ _ _
  · exact Keeps.refl t

theorem renameInStorage (env : Env) (t : BrokerRun c) : Keeps t (renameInStorage env t) := by
  unfold Wsd.renameInStorage
  split
  · exact of_none rfl
  · exact Keeps.uploadToStorageInternal _ _ _ _ _ _ _ _

theorem checkAndUploadToStorage (env : Env) (session : Session) (justSaved : Bool)
    (t : BrokerRun c) : Keeps t (checkAndUploadToStorage env session justSaved t) := by
  unfold Wsd.checkAndUploadToStorage
  dsimp only
  split
  · exact Keeps.renameInStorage env t
  · have hdone : Keeps t (if t.state.docState.activity = .save then t.act (.setActivity .none)
        else t) := Keeps.ite (of_none rfl) (Keeps.refl t)
    refine hdone.trans ?_
    generalize (if t.state.docState.activity = .save then t.act (.setActivity .none) else t) = t'
    refine Keeps.ite (Keeps.refl t') (Keeps.ite ?_ (Keeps.ite ?_ (Keeps.refl t')))
    · exact Keeps.uploadToStorage env session false t'
    · exact of_stage (stage_disconnectClosedSessions t')

theorem autoSaveAndStop (env : Env) (reason : String) (t : BrokerRun c) :
    Keeps t (autoSaveAndStop env reason t) := by
  have hstop : ∀ t : BrokerRun c, Keeps t (t.act (.stop reason)) := fun t => of_stage rfl
  unfold Wsd.autoSaveAndStop
  split
  · exact Keeps.refl t
  · split
    · exact hstop t
    · exact Keeps.refl t
    · split
      · exact Keeps.refl t
      · refine (Keeps.autoSave env t.state.isPossiblyModified t).trans ?_
        generalize Wsd.autoSave env t.state.isPossiblyModified t = r
        obtain ⟨t', sent⟩ := r
        dsimp only
        split
        · exact Keeps.refl t'
        · split
          · exact hstop t'
          · split
            · exact hstop t'
            · exact Keeps.checkAndUploadToStorage _ _ _ _

theorem removeSession (env : Env) (session : Session) (t : BrokerRun c) :
    Keeps t (removeSession env session t) := by
  have hgone : ∀ t : BrokerRun c, Keeps t (disconnectSessionInternal session t) :=
    fun t => of_stage (stage_disconnectSessionInternal session t)
  unfold Wsd.removeSession
  dsimp only
  -- What is done about the session, and then about the document if it was the last.
  refine Keeps.trans ?_ (Keeps.ite ?_ (Keeps.refl _))
  · have hsave := Keeps.autoSave env
      (t.state.config.alwaysSaveOnExit || t.state.isPossiblyModified) t
    exact Keeps.ite (hgone t) (Keeps.ite (Keeps.refl t) (Keeps.ite hsave (hsave.trans (hgone _))))
  · exact Keeps.ite (of_stage rfl) (Keeps.ite (of_stage rfl) (Keeps.refl _))

end Keeps

/-! ## Steps that use up what is outstanding -/

section

variable {c : Config} {t : BrokerRun c}

/-- A rename whose turn it is ends at once, fails at once or is outstanding, unless its session
has become read-only. -/
theorem progresses_renameInStorage (env : Env) (hact : t.state.docState.activity = .rename)
    (hs : (renameSession t.state).all Session.isEditable = true) :
    ActivityProgresses (renameInStorage env t).state := by
  unfold renameInStorage
  split
  · exact Stage.progresses_of_none rfl
  · rename_i session hsession
    rw [hsession] at hs
    have hedit : session.isEditable = true := hs
    unfold uploadToStorageInternal
    rw [if_neg (by simp [hedit]), if_neg (by simp)]
    apply progresses_upload_plain
    · rfl
    · intro hsave
      exact absurd (hact.symm.trans hsave) (by simp)

/-- What has to hold when a save was answered during a rename: something else is outstanding, or
the branch that `checkAndUploadToStorage` takes does not return early. -/
def DocumentBroker.renameCanGoOn (b : DocumentBroker) (session : Session) (justSaved : Bool) :
    Bool :=
  b.stage.saveOutstanding || b.stage.uploadOutstanding ||
    match b.needToUploadToStorage with
    | .no => (renameSession b).all Session.isEditable
    | .yes =>
      !((if justSaved then b.haveModifyActivityAfterSaveRequest
          else b.needToSaveToDisk != .no) && b.isUnloading) &&
        (b.storage.lastUploadSuccessful || b.storage.canUploadNow b.now b.isUnloading) &&
        session.isEditable && b.uploadingTime != b.save.lastModifiedTime

theorem progresses_checkAndUploadToStorage (env : Env) {session : Session} {justSaved : Bool}
    (hact : t.state.docState.activity = .rename)
    (hgo : t.state.renameCanGoOn session justSaved = true) :
    ActivityProgresses (checkAndUploadToStorage env session justSaved t).state := by
  have hsave : t.state.docState.activity ≠ .save := by simp [hact]
  rw [DocumentBroker.renameCanGoOn, Bool.or_eq_true, Bool.or_eq_true] at hgo
  rcases hgo with hout | hgo
  · apply Keeps.checkAndUploadToStorage
    exact t.state.stage.progresses_iff.2 ⟨fun _ => hout, fun h => absurd h hsave⟩
  · unfold checkAndUploadToStorage
    cases hneed : t.state.needToUploadToStorage with
    | no =>
      rw [hneed] at hgo
      dsimp only
      rw [if_pos ⟨hact, rfl⟩]
      exact progresses_renameInStorage env hact hgo
    | yes =>
      rw [hneed] at hgo
      dsimp only at hgo
      rw [Bool.and_eq_true, Bool.and_eq_true, Bool.and_eq_true, Bool.not_eq_true'] at hgo
      obtain ⟨⟨⟨hmod, hnow⟩, hedit⟩, htime⟩ := hgo
      dsimp only
      rw [if_neg (by simp), if_neg hsave, if_neg (by rw [hmod]; simp), if_pos (by simp)]
      unfold uploadToStorage uploadToStorageInternal
      have htime' : t.state.uploadingTime ≠ t.state.save.lastModifiedTime := by simpa using htime
      rw [if_pos (by simpa using hnow), if_neg (by simp [hedit]), if_neg (by simp [htime'])]
      exact progresses_upload_plain rfl hsave

/-- Any answer to a save ends the activity `Save`. -/
theorem progresses_of_saved (env : Env) (session : Session) (justSaved : Bool)
    (hact : t.state.docState.activity = .save) :
    ActivityProgresses (checkAndUploadToStorage env session justSaved t).state := by
  unfold checkAndUploadToStorage
  dsimp only
  rw [if_neg (by simp [hact]), if_pos hact]
  have hdone : ActivityProgresses (t.act (.setActivity .none)).state :=
    Stage.progresses_of_none rfl
  revert hdone
  generalize t.act (.setActivity .none) = t'
  refine Keeps.ite (Keeps.refl t') (Keeps.ite ?_ (Keeps.ite ?_ (Keeps.refl t')))
  · exact Keeps.uploadToStorage env session false t'
  · exact Keeps.of_stage (stage_disconnectClosedSessions t')

theorem activity_saveResult (b : DocumentBroker) (answer : SaveAnswer) :
    (b.saveResult answer).docState = b.docState := by
  cases hs : b.ledger.awaited with
  | nil => rw [DocumentBroker.saveResult_nil hs]
  | cons sent rest => rw [DocumentBroker.saveResult, hs]

theorem progresses_handleSaveResponse (env : Env) {session : Session} {answer : SaveAnswer}
    (h : ActivityProgresses t.state)
    (hok : t.state.docState.activity = .rename → t.state.ledger.awaited ≠ [] →
      (t.state.saveResult answer).renameCanGoOn session (answer.success || answer.unmodified) =
        true) :
    ActivityProgresses (handleSaveResponse env session answer t).state := by
  unfold handleSaveResponse
  split
  · exact h
  · rename_i hsaves
    have hne : t.state.ledger.awaited ≠ [] := by simpa using hsaves
    have hact : (t.act (.saveResult answer)).state.docState.activity =
        t.state.docState.activity := congrArg _ (activity_saveResult t.state answer)
    cases hwas : t.state.docState.activity with
    | rename => exact progresses_checkAndUploadToStorage env (hact.trans hwas) (hok hwas hne)
    | save => exact progresses_of_saved env session _ (hact.trans hwas)
    | _ =>
      apply Keeps.checkAndUploadToStorage
      rw [ActivityProgresses, Stage.progresses_iff]
      constructor
      all_goals
        intro hnow
        exact absurd ((hact.trans hwas).symm.trans hnow) (by simp)

/-- What has to hold when the answer to a save is lost: another save leads on, or an upload during a
rename and the polling loop during a save. -/
def DocumentBroker.canLoseAnswer (b : DocumentBroker) : Bool :=
  let another := b.ledger.awaited.tail.any SaveSent.isAwaited
  match b.docState.activity with
  | .rename => another && b.docState.disconnected == .no || b.stage.uploadOutstanding
  | .save => another || b.save.isSaving || b.docState.isDisconnected
  | _ => true

/-- What is awaited after a loss is what was awaited behind the save that was lost. -/
theorem any_loseFirst {saves : List SaveSent} {sent : SaveSent} {rest : List SaveSent}
    (h : saves.dropWhile (·.lost) = sent :: rest) :
    (DocumentBroker.loseFirst saves).any SaveSent.isAwaited = rest.any SaveSent.isAwaited := by
  induction saves with
  | nil => cases h
  | cons first later ih =>
    rw [DocumentBroker.loseFirst]
    cases hlost : first.lost with
    | true =>
      rw [List.dropWhile_cons_of_pos hlost] at h
      rw [if_pos rfl, List.any_cons, ih h]
      simp [SaveSent.isAwaited, hlost]
    | false =>
      rw [List.dropWhile_cons_of_neg (by simp [hlost])] at h
      obtain ⟨rfl, rfl⟩ := List.cons.inj h
      rw [if_neg (by simp), List.any_cons]
      simp [SaveSent.isAwaited]

theorem progresses_loseAnswer {answer : SaveAnswer} (h : ActivityProgresses t.state)
    (hok : t.state.ledger.awaited ≠ [] → t.state.canLoseAnswer = true) :
    ActivityProgresses (t.act (.loseAnswer answer)).state := by
  rw [Trace.act_state, DocumentBroker.act]
  cases hs : t.state.ledger.awaited with
  | nil => rwa [DocumentBroker.loseAnswer_nil hs]
  | cons sent rest =>
    have hgo := hok (by simp [hs])
    have hany := any_loseFirst hs
    rw [DocumentBroker.canLoseAnswer, hs, List.tail_cons, ← hany] at hgo
    rw [DocumentBroker.loseAnswer_cons hs, ActivityProgresses, Stage.progresses_iff]
    constructor
    · intro hact
      rw [show t.state.docState.activity = .rename from hact] at hgo
      exact (Bool.or_eq_true _ _).mp hgo
    · intro hact
      rw [show t.state.docState.activity = .save from hact] at hgo
      exact hgo

theorem stage_uploadResult (b : DocumentBroker) (result : UploadResult) :
    (b.uploadResult result).stage = { b.stage with uploadHttpSession := none } := by
  cases hu : b.uploadHttpSession with
  | none =>
    rw [DocumentBroker.uploadResult_none hu]
    simp [DocumentBroker.stage, hu]
  | some upload =>
    cases hr : b.uploadRequest with
    | none => simp [DocumentBroker.uploadResult, DocumentBroker.stage, hu, hr,
        DocumentBroker.settleUpload]
    | some request =>
      by_cases hres : result = .ok
      · subst hres
        rw [DocumentBroker.uploadResult_ok hu hr]
        split <;> simp [DocumentBroker.stage, hr, DocumentBroker.settleUpload]
      · rw [DocumentBroker.uploadResult_failed hu hr hres]
        simp [DocumentBroker.stage, hr, DocumentBroker.settleUpload]

theorem renameSession_uploadResult (b : DocumentBroker) (result : UploadResult) :
    renameSession (b.uploadResult result) = renameSession b := by
  have h : (b.uploadResult result).renameSessionId = b.renameSessionId ∧
      (b.uploadResult result).sessions = b.sessions := by
    unfold DocumentBroker.uploadResult
    split
    · exact ⟨rfl, rfl⟩
    · dsimp only
      split
      · exact ⟨rfl, rfl⟩
      · split
        · split <;> exact ⟨rfl, rfl⟩
        · exact ⟨rfl, rfl⟩
  unfold renameSession DocumentBroker.findSession
  rw [h.1, h.2]

/-- What has to hold when an upload is answered during a rename: a save is outstanding, or the
upload was accepted and is followed by the rename or was the rename. -/
def DocumentBroker.renameCanFinish (b : DocumentBroker) (result : UploadResult) : Bool :=
  b.stage.saveOutstanding ||
    (result == .ok && b.uploadRequest.any fun request =>
      !request.isSaveAs && (request.isRename || (renameSession b).all Session.isEditable))

/-- After the rename was taken further, the rest of `handleUploadToStorageResponse`. -/
theorem progresses_uploadAccepted (env : Env) (request : UploadRequest)
    (h : ActivityProgresses
      (if !request.isSaveAs && !request.isRename then
        if t.state.docState.activity = .rename then renameInStorage env t else t
      else if request.isRename then t.act .endRename
      else t).state) : ActivityProgresses (uploadAccepted env request t).state := by
  unfold uploadAccepted
  dsimp only
  revert h
  generalize (if !request.isSaveAs && !request.isRename then
      if t.state.docState.activity = .rename then renameInStorage env t else t
    else if request.isRename then t.act .endRename
    else t) = t₁
  intro h
  have h' := Keeps.ite (p := t₁.state.docState.isUnloadRequested = true)
    (Keeps.quiet t₁ .markToDestroy rfl) (Keeps.refl t₁) h
  revert h'
  generalize (if t₁.state.docState.isUnloadRequested = true then t₁.act .markToDestroy
    else t₁) = t₂
  intro h'
  apply Keeps.of_stage (stage_disconnectClosedSessions _)
  exact Keeps.ite (Keeps.quiet t₂ (.stop "unloading") rfl) (Keeps.refl t₂) h'

theorem keeps_uploadRejected (request : UploadRequest) (result : UploadResult)
    (t : BrokerRun c) : Keeps t (uploadRejected request result t) := by
  cases result with
  | docChanged => exact Keeps.ite (Keeps.of_stage rfl) (Keeps.refl t)
  | conflict => exact Keeps.ite (Keeps.of_stage rfl) (Keeps.refl t)
  | ok => exact Keeps.refl t
  | failed => exact Keeps.refl t
  | _ => exact Keeps.of_stage rfl

theorem keeps_uploadAccepted (env : Env) (request : UploadRequest) (t : BrokerRun c) :
    Keeps t (uploadAccepted env request t) := by
  intro h
  apply progresses_uploadAccepted
  exact Keeps.ite (Keeps.ite (Keeps.renameInStorage env t) (Keeps.refl t))
    (Keeps.ite (Keeps.of_none rfl) (Keeps.refl t)) h

theorem progresses_handleUploadToStorageResponse (env : Env) {result : UploadResult}
    (h : ActivityProgresses t.state)
    (hok : t.state.docState.activity = .rename → t.state.uploadHttpSession.isSome = true →
      t.state.renameCanFinish result = true) :
    ActivityProgresses (handleUploadToStorageResponse env result t).state := by
  obtain ⟨-, hsave⟩ := t.state.stage.progresses_iff.1 h
  unfold handleUploadToStorageResponse
  by_cases hnone : t.state.uploadHttpSession.isNone = true
  · rw [if_pos hnone]
    exact h
  · rw [if_neg hnone]
    have hsome : t.state.uploadHttpSession.isSome = true :=
      Option.isSome_iff_ne_none.2 fun hn => hnone (by rw [hn]; rfl)
    have hstage := stage_uploadResult t.state result
    have hrequest : (t.act (.uploadResult result)).state.uploadRequest =
        t.state.uploadRequest := congrArg Stage.uploadRequest hstage
    have hactivity : (t.act (.uploadResult result)).state.docState.activity =
        t.state.docState.activity := congrArg Stage.activity hstage
    have hsession := renameSession_uploadResult t.state result
    dsimp only
    rw [hrequest]
    -- Either something is outstanding after the answer as well, or the rename is taken further.
    by_cases hrename : t.state.docState.activity = .rename ∧
        t.state.stage.saveOutstanding = false
    · obtain ⟨hact, hout⟩ := hrename
      have hgo := hok hact hsome
      rw [DocumentBroker.renameCanFinish, hout, Bool.false_or, Bool.and_eq_true] at hgo
      obtain ⟨hres, hany⟩ := hgo
      obtain ⟨request, hr, hreq⟩ := (Option.any_eq_true ..).1 hany
      rw [Bool.and_eq_true, Bool.not_eq_true', Bool.or_eq_true] at hreq
      obtain ⟨hsaveAs, hreq⟩ := hreq
      rw [hr, eq_of_beq hres]
      dsimp only
      rw [if_pos rfl]
      apply progresses_uploadAccepted
      cases hrn : request.isRename with
      | true =>
        rw [if_neg (by simp), if_pos rfl]
        exact Stage.progresses_of_none rfl
      | false =>
        rw [if_pos (by simp [hsaveAs])]
        rw [eq_of_beq hres] at hactivity hsession
        rw [if_pos (hactivity.trans hact)]
        apply progresses_renameInStorage env (hactivity.trans hact)
        rw [hrn] at hreq
        rw [Trace.act_state]
        exact hsession ▸ hreq.resolve_left (by simp)
    · have hstill : ActivityProgresses (t.act (.uploadResult result)).state := by
        rw [ActivityProgresses, Trace.act_state, DocumentBroker.act, hstage,
          Stage.progresses_iff]
        refine ⟨fun hact => .inl ?_, hsave⟩
        by_contra hout
        exact hrename ⟨hact, (Bool.not_eq_true _).mp hout⟩
      split
      · exact hstill
      · exact Keeps.ite (keeps_uploadAccepted env _ _) (keeps_uploadRejected _ _ _) hstill

theorem progresses_disconnectedFromKit {unexpected : Bool}
    (hok : t.state.docState.activity = .rename → t.state.stage.uploadOutstanding = true) :
    ActivityProgresses (disconnectedFromKit unexpected t).state := by
  -- The polling loop gives up a save whose Kit has gone.
  have hgone : ∀ how, how ≠ .no → ActivityProgresses (t.act (.setDisconnected how)).state := by
    intro how hhow
    rw [ActivityProgresses, Stage.progresses_iff]
    refine ⟨fun hact => .inr (hok hact), fun _ => ?_⟩
    simp [Stage.saveEnds, DocumentBroker.stage, DocumentBroker.act, hhow]
  unfold disconnectedFromKit closeDocument
  dsimp only
  exact Keeps.ite (Keeps.trans (Keeps.of_stage rfl) (Keeps.ite (Keeps.of_stage rfl) (Keeps.refl _)))
    (Keeps.refl _) (hgone _ (by cases unexpected <;> simp))

/-- A rename can start if its save can be sent and will be answered. -/
def DocumentBroker.renameCanStart (b : DocumentBroker) (env : Env) : Bool :=
  env.forwarded && b.docState.disconnected == .no

theorem findSession_id {b : DocumentBroker} {id : Nat} {session : Session}
    (h : b.findSession id = some session) : session.id = id := by
  simpa using List.find?_some h

theorem progresses_startRenameFileCommand {env : Env} (h : ActivityProgresses t.state)
    (hok : (renameSession t.state).isSome = true → t.state.renameCanStart env = true) :
    ActivityProgresses (startRenameFileCommand env t).state := by
  unfold startRenameFileCommand
  split
  · exact h
  · dsimp only
    split
    · exact Stage.progresses_of_none rfl
    · rename_i session hsession
      have hsession' : renameSession t.state = some session := hsession
      obtain ⟨hforwarded, hkit⟩ := Bool.and_eq_true_iff.1 (hok (by rw [hsession']; rfl))
      have hfind : (t.state.findSession session.id).isSome = true := by
        obtain ⟨id, -, hid⟩ := Option.bind_eq_some_iff.1 hsession'
        rw [findSession_id hid, hid]
        rfl
      unfold sendUnoSave
      dsimp only
      have hsent : ((((t.act (.setActivity .rename)).act (.tick env.pause)).state.findSession
          session.id).isSome && env.forwarded) = true := by
        rw [hforwarded, Bool.and_true]
        exact hfind
      rw [hsent, ActivityProgresses, Trace.act_state, DocumentBroker.act, stage_sendUnoSave,
        Stage.progresses_iff]
      refine ⟨fun _ => .inl ?_, fun _ => by simp [Stage.saveEnds, SaveSent.isAwaited]⟩
      have hno : t.state.docState.disconnected = .no := by simpa using hkit
      simp [Stage.saveOutstanding, SaveSent.isAwaited, DocumentBroker.stage, DocumentBroker.act, hno]

end

/-! ## Over a run -/

/-- What has to be the case at the steps of a rename. The save is sent to a Kit that is there.
When a save is answered, something else is outstanding or the broker goes on to upload or to
rename; when the answer is lost, something else is outstanding, which goes for the activity `Save` as
well. When an upload is answered, a save is outstanding or the upload was accepted and is
followed by the rename. The Kit does not go while the rename waits for it. -/
def RenameProceeds (b : DocumentBroker) (env : Env) : Event → Prop
  | .renameFile id filename =>
    b.docState.activity = .none → (b.findSession id).isSome = true → filename ≠ "" →
      b.renameCanStart env = true
  | .poll =>
    b.docState.activity = .none → (renameSession b).isSome = true → b.renameCanStart env = true
  | .saveResponse id answer =>
    (b.docState.activity = .rename → b.ledger.awaited ≠ [] → ∀ session ∈ b.findSession id,
      (b.saveResult answer).renameCanGoOn session (answer.success || answer.unmodified) = true) ∧
      (b.findSession id = none → b.ledger.awaited ≠ [] → b.canLoseAnswer = true)
  | .uploadFinished result =>
    b.docState.activity = .rename → b.uploadHttpSession.isSome = true →
      b.renameCanFinish result = true
  | .disconnectedFromKit _ =>
    b.docState.activity = .rename → b.stage.uploadOutstanding = true
  | _ => True

instance (b : DocumentBroker) (env : Env) : ∀ e, Decidable (RenameProceeds b env e) := by
  intro e
  cases e <;> unfold RenameProceeds <;> infer_instance

section

variable {c : Config} {t : BrokerRun c}

theorem Keeps.withSession {id : Nat} {f : Session → BrokerRun c → BrokerRun c}
    (hf : ∀ session t, Keeps t (f session t)) : Keeps t (withSession id f t) := by
  unfold Wsd.withSession
  split
  · exact Keeps.refl t
  · exact hf _ t

theorem Keeps.handleInput (env : Env) (session : Session) (typed : Bool) (t : BrokerRun c) :
    Keeps t (handleInput env session typed t) := by
  have hinput : ∀ t : BrokerRun c, Keeps t
      (if session.isEditable && session.isViewLoaded then
        t.act (.updateEditingSessionId session.id) else t) :=
    fun t => Keeps.ite (Keeps.of_stage rfl) (Keeps.refl t)
  unfold Wsd.handleInput
  dsimp only
  refine Keeps.trans (Keeps.trans (Keeps.quiet t .updateLastActivityTime rfl)
    (hinput _)) ?_
  exact Keeps.ite (Keeps.of_stage rfl) (Keeps.refl _)

theorem progresses_handleRenameFileCommand {env : Env} {id : Nat} {filename : String}
    (h : ActivityProgresses t.state)
    (hok : t.state.docState.activity = .none → filename ≠ "" →
      t.state.renameCanStart env = true) :
    ActivityProgresses (handleRenameFileCommand env id filename t).1.state := by
  unfold handleRenameFileCommand
  split
  · exact h
  · rename_i hname
    split
    · exact h
    · dsimp only
      split
      · rename_i hact
        exact progresses_startRenameFileCommand (t := t.act (.setRename filename id)) h
          fun _ => hok hact hname
      · exact h

theorem progresses_pollIdle {env : Env} (h : ActivityProgresses t.state)
    (hok : (renameSession t.state).isSome = true → t.state.renameCanStart env = true) :
    ActivityProgresses (pollIdle env t).state := by
  unfold pollIdle
  dsimp only
  split
  · exact progresses_startRenameFileCommand h hok
  · revert h
    have hstop : ∀ reason, Keeps t (autoSaveAndStop env reason t) :=
      fun reason => Keeps.autoSaveAndStop env reason t
    refine Keeps.ite (hstop _) (Keeps.ite (Keeps.ite (Keeps.refl t) (hstop _)) (Keeps.ite
      (Keeps.ite (Keeps.of_stage rfl) (hstop _)) (Keeps.ite (Keeps.autoSave env false t)
      (Keeps.ite ?_ (Keeps.refl t)))))
    split
    · exact Keeps.refl t
    · exact Keeps.ite (Keeps.refl t) (Keeps.checkAndUploadToStorage _ _ _ t)

theorem stage_postponeAutosave (b : DocumentBroker) (seconds : Nat) :
    (b.act (.postponeAutosave seconds)).stage = b.stage := rfl

theorem progresses_poll {env : Env} (h : ActivityProgresses t.state)
    (hok : t.state.docState.activity = .none → (renameSession t.state).isSome = true →
      t.state.renameCanStart env = true) : ActivityProgresses (poll env t).state := by
  unfold poll
  split
  · exact h
  · cases hact : t.state.docState.activity with
    | none => exact progresses_pollIdle h (hok hact)
    | save => exact Keeps.ite (Keeps.of_none rfl) (Keeps.refl t) h
    | saveAs => exact Keeps.ite (Keeps.of_none rfl) (Keeps.refl t) h
    | _ => exact Keeps.of_stage (stage_postponeAutosave t.state 30) h

/-- **One event keeps every activity going**, if the rename proceeds. -/
theorem progresses_step {e : Event × Env} (h : ActivityProgresses t.state)
    (hok : RenameProceeds t.state e.2 e.1) : ActivityProgresses (step t e).state := by
  obtain ⟨e, env⟩ := e
  cases e with
  | input id typed => exact Keeps.withSession (fun s => Keeps.handleInput env s typed) h
  | save id extendedData =>
    apply Keeps.withSession (fun s t => ?_) h
    exact Keeps.ite (Keeps.manualSave env s extendedData t) (Keeps.refl t)
  | saveToStorage id force =>
    exact Keeps.withSession (fun s => Keeps.uploadToStorage env s force) h
  | saveAs id path filename isExport =>
    apply Keeps.ite (Keeps.refl t) (Keeps.withSession fun s t => ?_) h
    exact Keeps.uploadToStorageInternal env s path filename false isExport false t
  | renameFile id filename =>
    show ActivityProgresses (withSession id _ t).state
    unfold withSession
    split
    · exact h
    · rename_i session hs
      exact progresses_handleRenameFileCommand h fun hact => hok hact (by rw [hs]; rfl)
  | saveResponse id answer =>
    rw [step, handle]
    dsimp only
    split
    · rename_i hs
      exact progresses_loseAnswer h (hok.2 hs)
    · rename_i session hs
      exact progresses_handleSaveResponse env h fun hact hne => hok.1 hact hne session hs
  | uploadFinished result => exact progresses_handleUploadToStorageResponse env h hok
  | autoSave => exact Keeps.autoSave env true t h
  | poll => exact progresses_poll h hok
  | addSession session changed =>
    show ActivityProgresses (addSession session changed t).state
    unfold addSession
    cases changed <;> exact h
  | updateSession session => exact Keeps.withSession (fun _ t => Keeps.of_stage rfl) h
  | removeSession id => exact Keeps.withSession (Keeps.removeSession env) h
  | closeDocument reason =>
    show ActivityProgresses (closeDocument reason t).state
    unfold closeDocument
    dsimp only
    exact Keeps.trans (Keeps.quiet t (.setCloseRequested reason) rfl)
      (Keeps.ite (Keeps.of_stage rfl) (Keeps.refl _)) h
  | disconnectedFromKit unexpected => exact progresses_disconnectedFromKit hok
  | _ => exact h

end

/-- **No activity is left with nothing to finish it**, in any state between two events of a run in
which every rename proceeds. -/
theorem activity_progresses (c : Config) (es : List (Event × Env))
    (h : Run.Meets step (fun t e => RenameProceeds t.state e.2 e.1) (.start : BrokerRun c) es) :
    Run.Always step (fun t => ActivityProgresses t.state) (.start : BrokerRun c) es :=
  Run.always_of_meets (fun (t : BrokerRun c) (ht : ActivityProgresses t.state) => ht)
    (fun _ _ ht hok => progresses_step ht hok) (Stage.progresses_of_none rfl) h

/-- A rename of a modified document: saved, uploaded and renamed. -/
def renamed : List (Event × Env) :=
  [(.tick 1, {}), (.input 1 true, {}), (.renameFile 1 "b.odt", { pause := 1 }),
    (.saveResponse 1 ⟨true, "", none⟩, {}), (.poll, {}), (.uploadFinished .ok, {}),
    (.poll, {}), (.uploadFinished .ok, {})]

theorem activity_progresses_renamed :
    Run.Meets step (fun t e => RenameProceeds t.state e.2 e.1)
        (.start : BrokerRun (.withSessions [.editor 1])) renamed ∧
      Run.Always step (fun t => ActivityProgresses t.state)
        (.start : BrokerRun (.withSessions [.editor 1])) renamed :=
  have h : Run.Meets step (fun t e => RenameProceeds t.state e.2 e.1)
      (.start : BrokerRun (.withSessions [.editor 1])) renamed := by decide +kernel
  ⟨h, activity_progresses (.withSessions [.editor 1]) renamed h⟩

/-- The upload before a rename fails: the broker stays in `Rename` with nothing outstanding. -/
theorem activity_stuck :
    ¬ ActivityProgresses (run (.withSessions [.editor 1])
      [(.tick 1, {}), (.input 1 true, {}), (.renameFile 1 "b.odt", { pause := 1 }),
        (.saveResponse 1 ⟨true, "", none⟩, {}), (.uploadFinished .failed, {})]).state := by
  decide +kernel

end Oxool.Wsd
