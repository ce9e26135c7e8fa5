import Oxool.Wsd.DocumentBroker

/-!
# Which versions the broker takes for stored

After an upload the broker records the modification time of the file it uploaded, and from then on
a file with that time need not be uploaded. `VersionsAccepted` says that it is right about that:
the version with the recorded time is one that the storage accepted.

The time comes from `_uploadRequest`, which every attempt overwrites, also one that the storage
turns away because another upload is in progress. When that other upload is then accepted, the
version of the attempt is recorded in its place. `UploadNamed` rules this out, and nothing else has
to be (`versions_accepted`).
-/

set_option autoImplicit false

namespace Oxool.Wsd

/-- A version is recorded as uploaded only if storage accepted it, so with nothing to upload the
newest version is in storage. -/
def VersionsAccepted (b : DocumentBroker) : Prop :=
  (∀ v, b.storage.lastUploadedFileModifiedTime = fileTime v → v ∈ b.ledger.accepted) ∧
    (b.needToUploadToStorage = .no → b.storage.lastUploadSuccessful = true →
      b.ledger.newest ∈ b.ledger.accepted)

/-- The document is not uploaded while the storage works on anything but this version of it. -/
def UploadNamed (b : DocumentBroker) : Action → Prop
  | .upload u =>
    u.isPlain = true → ∀ upload ∈ b.uploadHttpSession,
      upload.verb = .putFile ∧ upload.body = b.uploading
  | _ => True

instance (b : DocumentBroker) (a : Action) : Decidable (UploadNamed b a) := by
  apply Action.casesOn (motive := fun a => Decidable (UploadNamed b a)) a <;> intros <;>
  unfold UploadNamed <;> infer_instance

/-! ## The invariant -/

/-- The request of an upload of the document names the version that is being uploaded. -/
structure UploadMatches (b : DocumentBroker) : Prop where
  loaded : 0 ∈ b.ledger.accepted
  recorded : ∀ v, b.storage.lastUploadedFileModifiedTime = fileTime v → v ∈ b.ledger.accepted
  newest : b.uploading.getD 0 = b.ledger.newest
  body : ∀ upload, b.uploadHttpSession = some upload → upload.verb = .putFile →
    ∃ v, upload.body = some v
  named : ∀ upload request, b.uploadHttpSession = some upload →
    b.uploadRequest = some request → (!request.isSaveAs && !request.isRename) = true →
      upload.verb = .putFile ∧ ∃ v, upload.body = some v ∧
        request.newFileModifiedTime = fileTime v

theorem uploadMatches_init (c : Config) : UploadMatches (init c) where
  loaded := List.mem_singleton_self 0
  recorded := by
    intro v hv
    have : v = 0 := Nat.succ.inj hv.symm
    rw [this]
    exact List.mem_singleton_self 0
  newest := rfl
  body := by simp [init]
  named := by simp [init]

namespace UploadMatches

variable {b : DocumentBroker}

theorem saveResult (h : UploadMatches b) (answer : SaveAnswer) :
    UploadMatches (b.saveResult answer) := by
  cases hs : b.ledger.awaited with
  | nil => rwa [DocumentBroker.saveResult_nil hs]
  | cons sent rest =>
    rw [DocumentBroker.saveResult, hs]
    refine ⟨h.loaded, h.recorded, ?_, h.body, h.named⟩
    dsimp only
    -- A new version, or the one that was left to upload, if any.
    cases answer.success with
    | true => rfl
    | false =>
      cases b.toUpload with
      | none => exact h.newest
      | some v => rfl

theorem loseAnswer (h : UploadMatches b) (answer : SaveAnswer) :
    UploadMatches (b.loseAnswer answer) := by
  cases hs : b.ledger.awaited with
  | nil => rwa [DocumentBroker.loseAnswer_nil hs]
  | cons sent rest =>
    rw [DocumentBroker.loseAnswer_cons hs]
    exact ⟨h.loaded, h.recorded, h.newest, h.body, h.named⟩

/-- The time in a request made now is the time of the `.uploading` file. -/
theorem uploadingTime_of_some {v : Nat} (h : b.uploading = some v) :
    b.uploadingTime = fileTime v := by
  rw [DocumentBroker.uploadingTime, h]
  rfl

theorem upload (h : UploadMatches b) {u : UploadAttempt} (hok : UploadNamed b (.upload u)) :
    UploadMatches (b.upload u) := by
  cases hu : b.uploadLocalFileToStorageAsync u (b.uploadAttrs u.force) with
  | none =>
    rw [DocumentBroker.upload_refused hu]
    refine ⟨h.loaded, h.recorded, h.newest, h.body, ?_⟩
    rintro upload _ hup ⟨rfl⟩ hplain
    -- Turned away, but the upload in progress sends the same version.
    obtain ⟨hverb, hbody⟩ := hok hplain upload hup
    obtain ⟨v, hv⟩ := h.body upload hup hverb
    exact ⟨hverb, v, hv, uploadingTime_of_some (hbody.symm.trans hv)⟩
  | some started =>
    rw [DocumentBroker.upload_started hu]
    refine ⟨h.loaded, h.recorded, h.newest, ?_, ?_⟩
    · rintro _ ⟨rfl⟩ hverb
      obtain ⟨v, -, hbody⟩ := DocumentBroker.body_of_started hu hverb
      exact ⟨v, hbody⟩
    · rintro _ _ ⟨rfl⟩ ⟨rfl⟩ hplain
      have hverb := DocumentBroker.verb_of_started hu hplain
      obtain ⟨v, hfile, hbody⟩ := DocumentBroker.body_of_started hu hverb
      exact ⟨hverb, v, hbody, uploadingTime_of_some hfile⟩

/-- An answer is recorded for the version that was uploaded. -/
theorem uploadResult (h : UploadMatches b) (result : UploadResult) :
    UploadMatches (b.uploadResult result) := by
  cases hu : b.uploadHttpSession with
  | none => rwa [DocumentBroker.uploadResult_none hu]
  | some upload =>
    have hloaded := DocumentBroker.accepted_settleUpload upload result h.loaded
    have hrecorded := fun v hv => DocumentBroker.accepted_settleUpload upload result
      (h.recorded v hv)
    cases hr : b.uploadRequest with
    | none =>
      simp only [DocumentBroker.uploadResult, hu, hr]
      exact ⟨hloaded, hrecorded, h.newest, by simp, by simp⟩
    | some request =>
      by_cases hres : result = .ok
      · subst hres
        rw [DocumentBroker.uploadResult_ok hu hr]
        split
        · rename_i hplain
          obtain ⟨hverb, v, hbody, htime⟩ := h.named upload request hu hr hplain
          refine ⟨hloaded, ?_, h.newest, by simp, by simp⟩
          intro w hw
          have : v = w := Nat.succ.inj (htime.symm.trans hw)
          rw [← this]
          exact DocumentBroker.mem_accepted_settleUpload hverb hbody
        · exact ⟨hloaded, hrecorded, h.newest, by simp, by simp⟩
      · rw [DocumentBroker.uploadResult_failed hu hr hres]
        exact ⟨hloaded, hrecorded, h.newest, by simp, by simp⟩

theorem act (h : UploadMatches b) {a : Action} (hok : UploadNamed b a) :
    UploadMatches (b.act a) := by
  cases a with
  | sendUnoSave isAutosave extendedData forwarded =>
    cases forwarded <;> exact ⟨h.loaded, h.recorded, h.newest, h.body, h.named⟩
  | saveResult answer => exact h.saveResult answer
  | loseAnswer answer => exact h.loseAnswer answer
  | upload u => exact h.upload hok
  | uploadResult result => exact h.uploadResult result
  | _ => exact ⟨h.loaded, h.recorded, h.newest, h.body, h.named⟩

/-- Storage is up-to-date only with the newest version in it. -/
theorem newest_accepted (h : UploadMatches b) (hout : b.isStorageOutdated = false) :
    b.ledger.newest ∈ b.ledger.accepted := by
  rw [← h.newest]
  cases hfile : b.uploading with
  | none => exact h.loaded
  | some v =>
    rw [DocumentBroker.isStorageOutdated, hfile] at hout
    have htime : fileTime v = b.storage.lastUploadedFileModifiedTime := by simpa using hout
    exact h.recorded v htime.symm

theorem versionsAccepted (h : UploadMatches b) : VersionsAccepted b := by
  refine ⟨h.recorded, fun hneed _ => h.newest_accepted ?_⟩
  unfold DocumentBroker.needToUploadToStorage at hneed
  by_contra hout
  rw [Bool.not_eq_false] at hout
  simp [hout] at hneed

end UploadMatches

/-! ## Over a run -/

/-- **The recorded version is one that storage accepted**, in every state of every run in which
the document is not uploaded while the storage works on something else. -/
theorem versions_accepted (c : Config) (es : List (Event × Env))
    (h : (run c es).Meets UploadNamed) : (run c es).Always VersionsAccepted :=
  Run.always_of_meets (fun _ => UploadMatches.versionsAccepted) (fun _ _ hinv hok => hinv.act hok)
    (uploadMatches_init c) h

/-- Two saves, the second one answered after the first version was uploaded. -/
def savedInTurn : List (Event × Env) :=
  [(.save 1 "", {}), (.saveResponse 1 ⟨true, "", none⟩, {}), (.uploadFinished .ok, {}),
    (.save 1 "", {}), (.saveResponse 1 ⟨true, "", none⟩, {}), (.uploadFinished .ok, {})]

theorem versions_accepted_savedInTurn :
    (run (.withSessions [.editor 1]) savedInTurn).Meets UploadNamed ∧
      (run (.withSessions [.editor 1]) savedInTurn).Always VersionsAccepted :=
  have h : (run (.withSessions [.editor 1]) savedInTurn).Meets UploadNamed := by decide +kernel
  ⟨h, versions_accepted (.withSessions [.editor 1]) savedInTurn h⟩

/-- The second save is answered while the first version is being uploaded. The attempt to upload
it is turned away, and when the first upload is accepted the second version counts as stored. -/
theorem versions_accepted_lost :
    ¬ VersionsAccepted (run (.withSessions [.editor 1])
      [(.save 1 "", {}), (.saveResponse 1 ⟨true, "", none⟩, {}),
        (.save 1 "", {}), (.saveResponse 1 ⟨true, "", none⟩, {}),
        (.uploadFinished .ok, {})]).state :=
  fun h => absurd (h.1 2 (by decide +kernel)) (by decide +kernel)

end Oxool.Wsd
