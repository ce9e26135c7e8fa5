import Oxool.Wsd.DocumentBroker

/-!
# Whether the request managers know what is in flight

`RequestManager::isActive` compares two times. The broker takes it for "a request was sent and not
answered yet", and decides on it whether to save, to unload and to stop. `TracksRequests` says that
it is right, for the saves sent to the Kit and for the upload the storage works on.

It is right exactly as long as every action `RequestSeen` (`request_tracking`). There are three
ways to go wrong: a request made at the tick of the previous response is not seen, an answer hides
a later save that is still in flight, and an upload attempted while another is in progress is
answered at once and hides that one.
-/

set_option autoImplicit false

namespace Oxool.Wsd

/-! ## The managers -/

theorem RequestManager.isActive_markLastRequestTime (m : RequestManager) (now : Nat) :
    (m.markLastRequestTime now).isActive = true ↔ m.lastResponseTime < now :=
  decide_eq_true_iff

/-- No request is active after a response. -/
theorem RequestManager.not_isActive_setLastRequestResult {m : RequestManager} {now : Nat}
    (h : m.lastRequestTime ≤ now) (success : Bool) :
    ¬ (m.setLastRequestResult now success).isActive = true := by
  rw [Bool.not_eq_true]
  exact decide_eq_false (Nat.not_lt.2 h)

/-! ## What is tracked -/

/-- The managers take a request for active exactly when it is in flight. -/
def TracksRequests (b : DocumentBroker) : Prop :=
  (b.save.request.isActive = true ↔ b.saveInFlight = true) ∧
    (b.storage.request.isActive = true ↔ b.uploadHttpSession.isSome = true)

instance : DecidablePred TracksRequests := fun _ => inferInstanceAs (Decidable (_ ∧ _))

/-- A request is made later than the last response of its kind, a save is answered when no later
one is in flight, and an upload is attempted when none is in progress. -/
def RequestSeen (b : DocumentBroker) : Action → Prop
  | .sendUnoSave _ _ forwarded => forwarded = true → b.save.request.lastResponseTime < b.now
  | .saveResult _ => b.ledger.awaited.tail.all (·.givenUp) = true
  | .upload u =>
    b.uploadHttpSession = none ∧
      ((b.uploadLocalFileToStorageAsync u (b.uploadAttrs u.force)).isSome = true →
        b.storage.request.lastResponseTime < b.now)
  | _ => True

instance (b : DocumentBroker) (a : Action) : Decidable (RequestSeen b a) := by
  apply Action.casesOn (motive := fun a => Decidable (RequestSeen b a)) a <;> intros <;>
  unfold RequestSeen <;> infer_instance

/-- Requests and responses are not in the future, and an upload has a request. -/
structure Clocked (b : DocumentBroker) : Prop where
  saveRequest : b.save.request.lastRequestTime ≤ b.now
  uploadRequest : b.storage.request.lastRequestTime ≤ b.now
  request : b.uploadHttpSession.isSome = true → b.uploadRequest.isSome = true

theorem clocked_init (c : Config) : Clocked (init c) :=
  ⟨Nat.le_refl _, Nat.le_refl _, by simp [init]⟩

theorem Clocked.act {b : DocumentBroker} (h : Clocked b) (a : Action) : Clocked (b.act a) := by
  cases a with
  | tick d => exact ⟨Nat.le_add_right_of_le h.saveRequest, Nat.le_add_right_of_le h.uploadRequest, h.request⟩
  | sendUnoSave isAutosave extendedData forwarded =>
    cases forwarded with
    | false => exact ⟨h.saveRequest, h.uploadRequest, h.request⟩
    | true => exact ⟨Nat.le_refl _, h.uploadRequest, h.request⟩
  | saveResult answer =>
    cases hs : b.ledger.awaited with
    | nil => rwa [DocumentBroker.act, DocumentBroker.saveResult_nil hs]
    | cons sent rest =>
      rw [DocumentBroker.act, DocumentBroker.saveResult, hs]
      exact ⟨h.saveRequest, h.uploadRequest, h.request⟩
  | loseAnswer answer =>
    cases hs : b.ledger.awaited with
    | nil => rwa [DocumentBroker.act, DocumentBroker.loseAnswer_nil hs]
    | cons sent rest =>
      rw [DocumentBroker.act, DocumentBroker.loseAnswer_cons hs]
      exact ⟨h.saveRequest, h.uploadRequest, h.request⟩
  | upload u =>
    rw [DocumentBroker.act]
    cases hu : b.uploadLocalFileToStorageAsync u (b.uploadAttrs u.force) with
    | none =>
      rw [DocumentBroker.upload_refused hu]
      exact ⟨h.saveRequest, Nat.le_refl _, fun _ => rfl⟩
    | some upload =>
      rw [DocumentBroker.upload_started hu]
      exact ⟨h.saveRequest, Nat.le_refl _, fun _ => rfl⟩
  | uploadResult result =>
    rw [DocumentBroker.act]
    cases hu : b.uploadHttpSession with
    | none => rwa [DocumentBroker.uploadResult_none hu]
    | some upload =>
      obtain ⟨request, hr⟩ := Option.isSome_iff_exists.1 (h.request (by rw [hu]; rfl))
      by_cases hres : result = .ok
      · rw [hres, DocumentBroker.uploadResult_ok hu hr]
        split <;> exact ⟨h.saveRequest, h.uploadRequest, by simp⟩
      · rw [DocumentBroker.uploadResult_failed hu hr hres]
        exact ⟨h.saveRequest, h.uploadRequest, by simp⟩
  | _ => exact ⟨h.saveRequest, h.uploadRequest, h.request⟩

/-! ## Tracking, one action at a time -/

section

variable {b : DocumentBroker}

/-- A save that is sent is in flight. -/
theorem tracks_sendUnoSave (h : TracksRequests b) (isAutosave : Bool) (extendedData : String) :
    TracksRequests (b.sendUnoSave isAutosave extendedData true) ↔
      b.save.request.lastResponseTime < b.now := by
  rw [DocumentBroker.sendUnoSave_sent]
  have hsent : ∀ (saves : List SaveSent) (content : Nat) (captured : Attributes),
      (saves ++ [SaveSent.mk content captured false false]).any (fun sent => !sent.givenUp) = true := by
    simp
  have hactive := b.save.request.isActive_markLastRequestTime b.now
  constructor
  · rintro ⟨hsave, -⟩
    exact hactive.1 (hsave.2 (hsent ..))
  · intro hlt
    exact ⟨iff_of_true (hactive.2 hlt) (hsent ..), h.2⟩

/-- An answer ends the activity of all saves. -/
theorem tracks_saveResult (hc : Clocked b) (h : TracksRequests b) (answer : SaveAnswer) :
    TracksRequests (b.saveResult answer) ↔ b.ledger.awaited.tail.all (·.givenUp) = true := by
  cases hs : b.ledger.awaited with
  | nil =>
    rw [DocumentBroker.saveResult_nil hs]
    exact iff_of_true h rfl
  | cons sent rest =>
    rw [DocumentBroker.saveResult, hs]
    have hactive := RequestManager.not_isActive_setLastRequestResult hc.saveRequest
      (answer.success || answer.unmodified)
    have hrest : rest.any (fun sent => !sent.givenUp) = true ↔ ¬ rest.all (·.givenUp) = true := by
      simp
    constructor
    · rintro ⟨hsave, -⟩
      by_contra hlater
      exact hactive (hsave.2 (hrest.2 hlater))
    · intro hlater
      exact ⟨iff_of_false hactive fun hany => hrest.1 hany hlater, h.2⟩

/-- A save whose answer was lost is in flight for good. -/
theorem tracks_loseAnswer (h : TracksRequests b) (answer : SaveAnswer) :
    TracksRequests (b.loseAnswer answer) := by
  cases hs : b.ledger.awaited with
  | nil => rwa [DocumentBroker.loseAnswer_nil hs]
  | cons sent rest =>
    rw [DocumentBroker.loseAnswer_cons hs]
    have hmap := DocumentBroker.map_loseFirst (fun sent => !sent.givenUp) (fun _ => rfl) b.ledger.saves
    have hflight : (DocumentBroker.loseFirst b.ledger.saves).any (fun sent => !sent.givenUp) =
        b.saveInFlight := by
      simpa [List.any_map, DocumentBroker.saveInFlight] using congrArg (List.any · id) hmap
    exact ⟨by rw [DocumentBroker.saveInFlight, hflight]; exact h.1, h.2⟩

theorem tracks_giveUpSave (hc : Clocked b) (h : TracksRequests b) :
    TracksRequests b.giveUpSave := by
  have hactive := RequestManager.not_isActive_setLastRequestResult hc.saveRequest false
  refine ⟨iff_of_false hactive ?_, h.2⟩
  simp [DocumentBroker.saveInFlight, DocumentBroker.giveUpSave]

/-- An upload that is refused counts as answered; that is right only if none is in progress. -/
theorem tracks_upload (h : TracksRequests b) (u : UploadAttempt) :
    TracksRequests (b.upload u) ↔ RequestSeen b (.upload u) := by
  cases hu : b.uploadLocalFileToStorageAsync u (b.uploadAttrs u.force) with
  | none =>
    rw [DocumentBroker.upload_refused hu]
    have hactive := RequestManager.not_isActive_setLastRequestResult
      (m := b.storage.request.markLastRequestTime b.now) (Nat.le_refl b.now) false
    constructor
    · rintro ⟨-, hupload⟩
      refine ⟨?_, by simp [hu]⟩
      by_contra hsome
      exact hactive (hupload.2 (Option.isSome_iff_ne_none.2 hsome))
    · rintro ⟨hnone, -⟩
      exact ⟨h.1, iff_of_false hactive (by simp [hnone])⟩
  | some upload =>
    rw [DocumentBroker.upload_started hu]
    have hactive := b.storage.request.isActive_markLastRequestTime b.now
    have hnone := DocumentBroker.uploadHttpSession_of_started hu
    constructor
    · rintro ⟨-, hupload⟩
      exact ⟨hnone, fun _ => hactive.1 (hupload.2 rfl)⟩
    · rintro ⟨-, hlt⟩
      exact ⟨h.1, iff_of_true (hactive.2 (hlt (by simp [hu]))) rfl⟩

theorem tracks_uploadResult (hc : Clocked b) (h : TracksRequests b) (result : UploadResult) :
    TracksRequests (b.uploadResult result) := by
  cases hu : b.uploadHttpSession with
  | none => rwa [DocumentBroker.uploadResult_none hu]
  | some upload =>
    obtain ⟨request, hr⟩ := Option.isSome_iff_exists.1 (hc.request (by rw [hu]; rfl))
    have hactive := RequestManager.not_isActive_setLastRequestResult hc.uploadRequest
    by_cases hres : result = .ok
    · subst hres
      rw [DocumentBroker.uploadResult_ok hu hr]
      split <;> exact ⟨h.1, iff_of_false (hactive true) (by simp)⟩
    · rw [DocumentBroker.uploadResult_failed hu hr hres]
      exact ⟨h.1, iff_of_false (hactive false) (by simp)⟩

end

/-- **Tracking is lost exactly by an action that is not `RequestSeen`.** -/
theorem tracks_act_iff {b : DocumentBroker} (hc : Clocked b) (h : TracksRequests b) (a : Action) :
    TracksRequests (b.act a) ↔ RequestSeen b a := by
  cases a with
  | sendUnoSave isAutosave extendedData forwarded =>
    cases forwarded with
    | false => exact iff_of_true h (fun hf => by cases hf)
    | true =>
      rw [DocumentBroker.act, tracks_sendUnoSave h]
      exact ⟨fun hlt _ => hlt, fun hlt => hlt rfl⟩
  | saveResult answer => exact tracks_saveResult hc h answer
  | loseAnswer answer => exact iff_of_true (tracks_loseAnswer h answer) trivial
  | giveUpSave => exact iff_of_true (tracks_giveUpSave hc h) trivial
  | upload u => exact tracks_upload h u
  | uploadResult result => exact iff_of_true (tracks_uploadResult hc h result) trivial
  | _ => exact iff_of_true h trivial

/-! ## Tracking over a run -/

theorem tracks_init (c : Config) : TracksRequests (init c) := by
  constructor <;> simp [init, RequestManager.new, RequestManager.isActive,
    DocumentBroker.saveInFlight]

end Oxool.Wsd
