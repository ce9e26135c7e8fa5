import Mathlib.Logic.Function.Basic
import Oxool.Wsd.Managers

/-!
# The broker's state and the actions on it

`DocumentBroker` has the fields of the broker of a document that has loaded, the `.uploading` file
on disk and the upload session of the WOPI storage. An `Action` is one of the places in the code that
write these fields; everything the broker does is a sequence of actions.

The `Ledger` is what the code does not write down: how many modifying activities the users had and
how many of them each saved version has, which versions the storage accepted, which saves the Kit
was sent and has not answered, and the attributes of the saves that are not in storage yet. No
decision of the code reads it. The claims of the broker's fields are measured against it.
-/

set_option autoImplicit false

namespace Oxool.Wsd

/-! ## State -/

/-- A save that the Kit was sent and has not answered. -/
structure SaveSent where
  /-- How many of the users' activities the document sent with it has. -/
  content : Nat
  /-- The attributes captured for it. -/
  captured : Attributes
  /-- The broker waited too long, or lost the Kit, and recorded a failure. -/
  givenUp : Bool
  /-- The Kit answered when the session was gone, so that the broker never heard of it. -/
  lost : Bool
  deriving DecidableEq, Repr

inductive Verb
  | putFile
  | renameFile
  | putRelativeFile
  deriving DecidableEq, Repr

/-- An upload the storage is working on (`_uploadHttpSession`). -/
structure Upload where
  verb : Verb
  /-- The version in the file being sent; a save-as sends a file of its own. -/
  body : Option Nat
  attribs : Attributes
  deriving DecidableEq, Repr

/-- The modification time of the file with version `v`: `1` is the file as downloaded. -/
def fileTime (v : Nat) : Nat := v + 1

structure Ledger where
  /-- Modifying activities that were forwarded to the Kit. -/
  edits : Nat := 0
  /-- Some modifying activity was not forwarded. -/
  undelivered : Bool := false
  /-- The edits before the last save that was sent. -/
  requested : Nat := 0
  /-- In the order they were sent, which is the order the Kit answers in. -/
  saves : List SaveSent := []
  /-- How many versions the Kit has written. -/
  versions : Nat := 0
  /-- The newest version that the broker was told of. -/
  newest : Nat := 0
  /-- The edits that each version has. -/
  content : Nat → Nat := fun _ => 0
  /-- The versions in storage, the one as loaded included. -/
  accepted : List Nat := [0]
  /-- The attributes of the saves since the last upload that the storage accepted or is
  working on, the oldest first. -/
  owed : List Attributes := []
  /-- Those of the saves that the storage is working on. -/
  taken : List Attributes := []
  /-- The document was closed in the face of a conflict. -/
  discarded : Bool := false

/-- The saves that the Kit has still to answer. It answers them in order, so that the lost ones come first. -/
def Ledger.awaited (l : Ledger) : List SaveSent := l.saves.dropWhile (·.lost)

structure Config where
  startTime : Nat
  minTimeBetweenSaves : Nat
  minTimeBetweenUploads : Nat
  idleSaveInterval : Nat
  autoSaveInterval : Nat
  savingTimeout : Nat
  limStoreFailures : Nat
  idleDocTimeoutSecs : Nat
  alwaysSaveOnExit : Bool
  isViewFileExtension : Bool
  sessions : List Session
  deriving DecidableEq, Repr

/-- The defaults of the configuration. -/
def Config.withSessions (sessions : List Session) : Config where
  startTime := 0
  minTimeBetweenSaves := 500
  minTimeBetweenUploads := 5000
  idleSaveInterval := 30000
  autoSaveInterval := 300000
  savingTimeout := 5
  limStoreFailures := 5
  idleDocTimeoutSecs := 3600
  alwaysSaveOnExit := false
  isViewFileExtension := false
  sessions := sessions

structure DocumentBroker where
  config : Config
  /-- The steady clock. -/
  now : Nat
  docState : DocumentState
  documentChangedInStorage : Bool
  save : SaveManager
  storage : StorageManager
  uploadRequest : Option UploadRequest
  nextStorageAttrs : Attributes
  currentStorageAttrs : Attributes
  lastStorageAttrs : Attributes
  isModified : Bool
  lastActivityTime : Nat
  lastModifyActivityTime : Nat
  lastEditingSessionId : Option Nat
  renameFilename : String
  renameSessionId : Option Nat
  /-- In the order of their ids, as in a `std::map`. -/
  sessions : List Session
  stop : Bool
  closeReason : String
  shutdownRequestFlag : Bool
  terminationFlag : Bool
  /-- The version that the Kit has renamed to `.upload`, or, before its first answer, the file as it
  was loaded, which that answer renames. -/
  toUpload : Option Nat
  /-- The version in the `.uploading` file, when there is one. -/
  uploading : Option Nat
  uploadHttpSession : Option Upload
  ledger : Ledger

/-- The broker of a document that has just been loaded. -/
def init (c : Config) : DocumentBroker where
  config := c
  now := c.startTime
  docState := {}
  documentChangedInStorage := false
  save :=
    { request := .new c.minTimeBetweenSaves c.startTime
      lastModifiedTime := fileTime 0
      idleSaveInterval := c.idleSaveInterval
      autoSaveInterval := c.autoSaveInterval
      savingTimeout := c.savingTimeout
      lastAutosaveCheckTime := c.startTime
      version := 0 }
  storage :=
    { request := .new c.minTimeBetweenUploads c.startTime
      lastUploadedFileModifiedTime := fileTime 0 }
  uploadRequest := none
  nextStorageAttrs := {}
  currentStorageAttrs := {}
  lastStorageAttrs := {}
  isModified := false
  lastActivityTime := 0
  lastModifyActivityTime := 0
  lastEditingSessionId := none
  renameFilename := ""
  renameSessionId := none
  sessions := c.sessions
  stop := false
  closeReason := ""
  shutdownRequestFlag := false
  terminationFlag := false
  toUpload := some 0
  uploading := none
  uploadHttpSession := none
  ledger := {}

inductive NeedToSave
  | no
  | maybe
  | yesModified
  | yesLastSaveFailed
  deriving DecidableEq, Repr

inductive NeedToUpload
  | no
  | yes
  deriving DecidableEq, Repr

inductive CanSave
  | yes
  | noKit
  | noWriteSession
  deriving DecidableEq, Repr

/-! ## Queries -/

namespace DocumentBroker

variable (b : DocumentBroker)

/-- Any flag to unload or terminate is set. -/
def isUnloading : Bool :=
  b.docState.isMarkedToDestroy || b.stop || b.docState.isUnloadRequested ||
    b.docState.isCloseRequested || b.shutdownRequestFlag

/-- The modification time of the `.uploading` file. -/
def uploadingTime : Nat := (b.uploading.map fileTime).getD 0

def haveModifyActivityAfterSaveRequest : Bool :=
  b.save.request.lastRequestTime < b.lastModifyActivityTime

def isPossiblyModified : Bool :=
  if b.haveModifyActivityAfterSaveRequest then true
  else if b.config.isViewFileExtension then !b.save.lastSaveSuccessful
  else b.isModified

def needToSaveToDisk : NeedToSave :=
  if !b.save.lastSaveSuccessful then .yesLastSaveFailed
  else if b.isModified && !b.config.isViewFileExtension then .yesModified
  else if b.haveModifyActivityAfterSaveRequest then .maybe
  else .no

def isStorageOutdated : Bool :=
  match b.uploading with
  | none => false
  | some v => fileTime v != b.storage.lastUploadedFileModifiedTime

def needToUploadToStorage : NeedToUpload :=
  if b.isUnloading && b.config.alwaysSaveOnExit && 0 < b.save.version then .yes
  else if !b.storage.lastUploadSuccessful && !b.documentChangedInStorage then .yes
  else if b.isStorageOutdated then .yes
  else .no

def isAsyncUploading : Bool := b.uploadHttpSession.isSome

def findSession (id : Nat) : Option Session := b.sessions.find? (·.id == id)

/-- A session that is loaded, editable and authorized, or the first; the owner before all. -/
def getWriteableSession : Option Session := go none b.sessions
where
  go : Option Session → List Session → Option Session
    | saving, [] => saving
    | saving, s :: rest =>
      let saving := if saving.isNone || (s.isViewLoaded && s.isEditable && !s.isExpired) then
        some s else saving
      if s.isDocumentOwner then some s else go saving rest

def canSaveToDisk : CanSave :=
  if b.docState.isDisconnected then .noKit
  else if b.sessions.isEmpty || b.getWriteableSession.isNone then .noWriteSession
  else .yes

def haveAnotherEditableSession (id : Nat) : Bool :=
  b.sessions.any fun s => s.id != id && s.isViewLoaded && s.isEditable

def countActiveSessions : Nat := b.sessions.countP Session.isLive

/-- A save was sent that is neither answered nor given up. -/
def saveInFlight : Bool := b.ledger.saves.any fun sent => !sent.givenUp

/-- The check after the polling loop. -/
def dataLoss : Bool :=
  (b.haveModifyActivityAfterSaveRequest || !b.save.lastSaveSuccessful ||
      !b.storage.lastUploadSuccessful || b.isStorageOutdated) &&
    !(b.docState.isCloseRequested && b.documentChangedInStorage)

end DocumentBroker

/-! ## Actions -/

/-- The arguments of `uploadToStorageInternal`, and whether the storage can access the file and
set up the HTTP session. -/
structure UploadAttempt where
  session : Nat
  saveAsPath : String := ""
  saveAsFilename : String := ""
  isRename : Bool := false
  isExport : Bool := false
  force : Bool := false
  reachable : Bool := true
  deriving DecidableEq, Repr

namespace UploadAttempt

variable (u : UploadAttempt)

def isSaveAs : Bool := u.saveAsPath != ""

/-- Neither a save-as nor a rename: an upload of the document itself. -/
def isPlain : Bool := !u.isSaveAs && !u.isRename

end UploadAttempt

inductive Action
  | tick (d : Nat)
  | updateLastActivityTime
  | updateEditingSessionId (id : Nat)
  | updateLastModifyingActivityTime (delivered : Bool)
  | setModified (value : Bool)
  | sendUnoSave (isAutosave : Bool) (extendedData : String) (forwarded : Bool)
  | saveResult (answer : SaveAnswer)
  | loseAnswer (answer : SaveAnswer)
  | giveUpSave
  | autoSaveChecked
  | postponeAutosave (seconds : Nat)
  | upload (attempt : UploadAttempt)
  | uploadResult (result : UploadResult)
  | setActivity (activity : Activity)
  | setRename (filename : String) (session : Nat)
  | endRename
  | setSessions (sessions : List Session)
  | documentChanged
  | markToDestroy
  | setUnloadRequested
  | setCloseRequested (reason : String)
  | setDisconnected (how : Disconnected)
  | shutdownRequest
  | terminate
  | stop (reason : String)
  deriving Repr

namespace DocumentBroker

variable (b : DocumentBroker)

def updateLastModifyingActivityTime (delivered : Bool) : DocumentBroker :=
  { b with
    lastModifyActivityTime := b.now
    ledger :=
      { b.ledger with
        edits := if delivered then b.ledger.edits + 1 else b.ledger.edits
        undelivered := b.ledger.undelivered || !delivered } }

/-- What `sendUnoSave` captures for the version it asks for. -/
def capturedAttrs (isAutosave : Bool) (extendedData : String) : Attributes :=
  { b.nextStorageAttrs with
    isUserModified := b.isModified || b.haveModifyActivityAfterSaveRequest
    isAutosave := isAutosave
    extendedData := extendedData }

/-- `sendUnoSave`: what it captures, and, if the Kit's socket took the message, that it was sent. -/
def sendUnoSave (isAutosave : Bool) (extendedData : String) (forwarded : Bool) : DocumentBroker :=
  let attrs := b.capturedAttrs isAutosave extendedData
  let b :=
    { b with
      -- Invalidate the timestamp to force persisting.
      save := b.save.setLastModifiedTime 0
      nextStorageAttrs := attrs }
  if forwarded then
    { b with
      save := b.save.markLastSaveRequestTime b.now
      docState :=
        if b.docState.activity = .none then { b.docState with activity := .save } else b.docState
      ledger :=
        { b.ledger with
          requested := b.ledger.edits
          saves := b.ledger.saves ++ [⟨b.ledger.edits, attrs, false, false⟩] } }
  else b

/-- The attributes of a save once Core has said whether the document was modified. -/
def settle (answer : SaveAnswer) (attrs : Attributes) : Attributes :=
  match answer.wasModified with
  | some wasModified => { attrs with isUserModified := wasModified }
  | none => attrs

/-- `handleSaveResponse`, up to the renaming of the `.upload` file to `.uploading`, which is done
whatever the answer is: without a new version there may be an older one, or the file as loaded. The
Kit answers the saves in the order they were sent, and nothing else. -/
def saveResult (answer : SaveAnswer) : DocumentBroker :=
  match b.ledger.awaited with
  | [] => b
  | sent :: rest =>
    let version := b.ledger.versions + 1
    let newest := if answer.success then version else b.toUpload.getD b.ledger.newest
    { b with
      currentStorageAttrs := b.currentStorageAttrs.merge (settle answer b.nextStorageAttrs)
      nextStorageAttrs := {}
      save := b.save.setLastSaveResult b.now (answer.success || answer.unmodified) answer.success
      uploading := if answer.success then some version else b.toUpload.or b.uploading
      toUpload := none
      ledger :=
        { b.ledger with
          versions := if answer.success then version else b.ledger.versions
          newest := newest
          saves := rest
          owed := b.ledger.owed ++ [settle answer sent.captured]
          -- A document that is not modified is the newest version.
          content :=
            if answer.success then Function.update b.ledger.content version sent.content
            else if answer.unmodified then
              Function.update b.ledger.content newest (max (b.ledger.content newest) sent.content)
            else b.ledger.content } }

/-- The first save that the Kit has to answer is answered in vain. -/
def loseFirst : List SaveSent → List SaveSent
  | [] => []
  | sent :: rest =>
    if sent.lost then sent :: loseFirst rest else { sent with lost := true } :: rest

/-- `forwardToClient` drops the answer to a save, as the session is gone. The Kit has renamed the file
to `.upload` all the same, and there it stays until the next answer comes. -/
def loseAnswer (answer : SaveAnswer) : DocumentBroker :=
  match b.ledger.awaited with
  | [] => b
  | sent :: _ =>
    let version := b.ledger.versions + 1
    let ledger := { b.ledger with saves := loseFirst b.ledger.saves }
    if answer.success then
      { b with
        toUpload := some version
        ledger :=
          { ledger with
            versions := version
            content := Function.update b.ledger.content version sent.content } }
    else { b with ledger := ledger }

/-- The broker stops waiting for the Kit. -/
def giveUpSave : DocumentBroker :=
  { b with
    save := b.save.setLastSaveResult b.now false false
    ledger :=
      { b.ledger with saves := b.ledger.saves.map fun sent => { sent with givenUp := true } } }

def endRenameFileCommand : DocumentBroker :=
  { b with
    renameSessionId := none
    renameFilename := ""
    docState := { b.docState with activity := .none } }

/-- The attributes that an upload made now passes to the storage. -/
def uploadAttrs (force : Bool) : Attributes :=
  let attrs := { b.currentStorageAttrs with isExitSave := b.isUnloading }
  if force then { attrs with forced := true } else attrs

/-- `WopiStorage::uploadLocalFileToStorageAsync`: the upload it starts. `none` is the error state
that the callback gets at once, when an upload is in progress or this one cannot be started. -/
def uploadLocalFileToStorageAsync (u : UploadAttempt) (attribs : Attributes) : Option Upload :=
  if b.uploadHttpSession.isSome then none
  else
    let isSaveAs := u.saveAsPath != "" && u.saveAsFilename != ""
    if !isSaveAs && b.uploading.isNone then none
    else if !u.reachable then none
    else some
      { verb := if isSaveAs then (if u.isRename then .renameFile else .putRelativeFile)
          else if u.isRename then .renameFile else .putFile
        body := if isSaveAs then none else b.uploading
        attribs := attribs }

/-- The storage's callback with the error state. -/
def uploadFailed : DocumentBroker :=
  let b := { b with storage := b.storage.setLastUploadResult b.now false }
  if b.docState.activity = .rename then b.endRenameFileCommand else b

/-- A failed upload that was forced is to be forced again. -/
def forcedAttrs (force : Bool) : List Attributes :=
  if force then [{ forced := true }] else []

@[simp] theorem forcedAttrs_false : forcedAttrs false = [] := rfl

@[simp] theorem forcedAttrs_true : forcedAttrs true = [{ forced := true }] := rfl

/-- `uploadToStorageInternal`, once it has decided to upload. -/
def upload (u : UploadAttempt) : DocumentBroker :=
  let attrs := b.uploadAttrs u.force
  let started := b.uploadLocalFileToStorageAsync u attrs
  let b :=
    { b with
      uploadRequest := some ⟨b.uploadingTime, u.session, u.isSaveAs, u.isExport, u.isRename⟩
      lastStorageAttrs := attrs
      currentStorageAttrs := {}
      nextStorageAttrs := {}
      storage := b.storage.markLastUploadRequestTime b.now }
  match started with
  | none =>
    { b.uploadFailed with
      ledger := { b.ledger with owed := b.ledger.owed ++ forcedAttrs u.force } }
  | some upload =>
    { b with
      uploadHttpSession := some upload
      ledger :=
        { b.ledger with
          taken := (if upload.verb = .putFile then b.ledger.owed else []) ++ forcedAttrs u.force
          owed := if upload.verb = .putFile then [] else b.ledger.owed } }

/-- What an upload's result means for the versions and attributes in storage. -/
def settleUpload (upload : Upload) (result : UploadResult) (l : Ledger) : Ledger :=
  { l with
    accepted :=
      if result = .ok ∧ upload.verb = .putFile then upload.body.toList ++ l.accepted
      else l.accepted
    owed := if result = .ok then l.owed else l.taken ++ l.owed
    taken := [] }

/-- Storage does not lose a version. -/
theorem accepted_settleUpload (upload : Upload) (result : UploadResult) {l : Ledger} {v : Nat}
    (h : v ∈ l.accepted) : v ∈ (settleUpload upload result l).accepted := by
  rw [settleUpload]
  dsimp only
  split
  · exact List.mem_append_right _ h
  · exact h

/-- A version that was put and answered with OK is in storage. -/
theorem mem_accepted_settleUpload {upload : Upload} {l : Ledger} {v : Nat}
    (hverb : upload.verb = .putFile) (hbody : upload.body = some v) :
    v ∈ (settleUpload upload .ok l).accepted := by
  simp [settleUpload, hverb, hbody]

/-- The storage retires its upload session, and `handleUploadToStorageResponse` records the
result in the managers and the attributes. -/
def uploadResult (result : UploadResult) : DocumentBroker :=
  match b.uploadHttpSession with
  | none => b
  | some upload =>
    let b :=
      { b with uploadHttpSession := none, ledger := settleUpload upload result b.ledger }
    match b.uploadRequest with
    | none => b
    | some request =>
      let b := { b with storage := b.storage.setLastUploadResult b.now (result = .ok) }
      if result = .ok then
        if !request.isSaveAs && !request.isRename then
          { b with
            save := b.save.setLastModifiedTime request.newFileModifiedTime
            storage :=
              { b.storage with lastUploadedFileModifiedTime := request.newFileModifiedTime }
            documentChangedInStorage := false
            lastStorageAttrs := {} }
        else b
      else
        { b with
          documentChangedInStorage :=
            b.documentChangedInStorage || result = .docChanged || result = .conflict
          currentStorageAttrs := b.currentStorageAttrs.merge b.lastStorageAttrs
          lastStorageAttrs := {} }

/-- `stop`: an earlier reason to close is kept. -/
def stopFor (reason : String) : DocumentBroker :=
  { b with
    stop := true
    closeReason := if b.closeReason = "" then reason else b.closeReason }

/-- `setCloseRequested` and the reason for it. -/
def setCloseRequested (reason : String) : DocumentBroker :=
  { b with
    docState := { b.docState with isCloseRequested := true }
    closeReason := reason
    ledger :=
      { b.ledger with discarded := b.ledger.discarded || b.documentChangedInStorage } }

/-- One action. -/
def act (b : DocumentBroker) : Action → DocumentBroker
  | .tick d => { b with now := b.now + d }
  | .updateLastActivityTime => { b with lastActivityTime := b.now }
  | .updateEditingSessionId id => { b with lastEditingSessionId := some id }
  | .updateLastModifyingActivityTime delivered => b.updateLastModifyingActivityTime delivered
  | .setModified value => { b with isModified := value }
  | .sendUnoSave isAutosave extendedData forwarded =>
    b.sendUnoSave isAutosave extendedData forwarded
  | .saveResult answer => b.saveResult answer
  | .loseAnswer answer => b.loseAnswer answer
  | .giveUpSave => b.giveUpSave
  | .autoSaveChecked => { b with save := b.save.autoSaveChecked b.now }
  | .postponeAutosave seconds => { b with save := b.save.postponeAutosave b.now seconds }
  | .upload u => b.upload u
  | .uploadResult result => b.uploadResult result
  | .setActivity activity => { b with docState := { b.docState with activity := activity } }
  | .setRename filename session =>
    { b with renameFilename := filename, renameSessionId := some session }
  | .endRename => b.endRenameFileCommand
  | .setSessions sessions => { b with sessions := sessions }
  | .documentChanged => { b with documentChangedInStorage := true }
  | .markToDestroy => { b with docState := { b.docState with isMarkedToDestroy := true } }
  | .setUnloadRequested => { b with docState := { b.docState with isUnloadRequested := true } }
  | .setCloseRequested reason => b.setCloseRequested reason
  | .setDisconnected how => { b with docState := { b.docState with disconnected := how } }
  | .shutdownRequest => { b with shutdownRequestFlag := true }
  | .terminate => { b with terminationFlag := true }
  | .stop reason => b.stopFor reason

/-! ## What the actions do

Each action that branches, as one update for each branch. -/

section

variable {b : DocumentBroker}

theorem sendUnoSave_sent {isAutosave : Bool} {extendedData : String} :
    b.sendUnoSave isAutosave extendedData true =
      { b with
        save := (b.save.setLastModifiedTime 0).markLastSaveRequestTime b.now
        nextStorageAttrs := b.capturedAttrs isAutosave extendedData
        docState :=
          if b.docState.activity = .none then { b.docState with activity := .save }
          else b.docState
        ledger :=
          { b.ledger with
            requested := b.ledger.edits
            saves := b.ledger.saves ++
              [⟨b.ledger.edits, b.capturedAttrs isAutosave extendedData, false, false⟩] } } := rfl

theorem saveResult_nil {answer : SaveAnswer} (h : b.ledger.awaited = []) :
    b.saveResult answer = b := by
  rw [saveResult, h]

theorem loseAnswer_nil {answer : SaveAnswer} (h : b.ledger.awaited = []) :
    b.loseAnswer answer = b := by
  rw [loseAnswer, h]

/-- A lost save is what it was, except that it is lost. -/
theorem map_loseFirst {α : Type} (f : SaveSent → α) (hf : ∀ sent, f { sent with lost := true } = f sent)
    (saves : List SaveSent) : (loseFirst saves).map f = saves.map f := by
  induction saves with
  | nil => rfl
  | cons sent rest ih =>
    rw [loseFirst]
    split
    · rw [List.map_cons, List.map_cons, ih]
    · rw [List.map_cons, List.map_cons, hf]

/-- An answer in vain: the saves, and the version that it may be about. -/
theorem loseAnswer_cons {answer : SaveAnswer} {sent : SaveSent} {rest : List SaveSent}
    (h : b.ledger.awaited = sent :: rest) :
    b.loseAnswer answer =
      { b with
        toUpload := if answer.success then some (b.ledger.versions + 1) else b.toUpload
        ledger :=
          { b.ledger with
            saves := loseFirst b.ledger.saves
            versions := if answer.success then b.ledger.versions + 1 else b.ledger.versions
            content :=
              if answer.success then
                Function.update b.ledger.content (b.ledger.versions + 1) sent.content
              else b.ledger.content } } := by
  rw [loseAnswer, h]
  cases answer.success <;> rfl

theorem uploadFailed_eq : b.uploadFailed =
    { b with
      storage := b.storage.setLastUploadResult b.now false
      renameSessionId := if b.docState.activity = .rename then none else b.renameSessionId
      renameFilename := if b.docState.activity = .rename then "" else b.renameFilename
      docState :=
        { b.docState with
          activity := if b.docState.activity = .rename then .none else b.docState.activity } } := by
  unfold uploadFailed
  by_cases h : b.docState.activity = .rename
  · simp only [if_pos h]
    rfl
  · simp only [if_neg h]

/-- The error state comes back at once: the upload counts as failed and a rename ends. -/
theorem upload_refused {u : UploadAttempt}
    (h : b.uploadLocalFileToStorageAsync u (b.uploadAttrs u.force) = none) :
    b.upload u =
      { b with
        uploadRequest := some ⟨b.uploadingTime, u.session, u.isSaveAs, u.isExport, u.isRename⟩
        lastStorageAttrs := b.uploadAttrs u.force
        currentStorageAttrs := {}
        nextStorageAttrs := {}
        storage := (b.storage.markLastUploadRequestTime b.now).setLastUploadResult b.now false
        renameSessionId := if b.docState.activity = .rename then none else b.renameSessionId
        renameFilename := if b.docState.activity = .rename then "" else b.renameFilename
        docState :=
          { b.docState with
            activity := if b.docState.activity = .rename then .none else b.docState.activity }
        ledger := { b.ledger with owed := b.ledger.owed ++ forcedAttrs u.force } } := by
  rw [upload, h]
  dsimp only
  rw [uploadFailed_eq]

theorem upload_started {u : UploadAttempt} {upload : Upload}
    (h : b.uploadLocalFileToStorageAsync u (b.uploadAttrs u.force) = some upload) :
    b.upload u =
      { b with
        uploadRequest := some ⟨b.uploadingTime, u.session, u.isSaveAs, u.isExport, u.isRename⟩
        lastStorageAttrs := b.uploadAttrs u.force
        currentStorageAttrs := {}
        nextStorageAttrs := {}
        storage := b.storage.markLastUploadRequestTime b.now
        uploadHttpSession := some upload
        ledger :=
          { b.ledger with
            taken := (if upload.verb = .putFile then b.ledger.owed else []) ++ forcedAttrs u.force
            owed := if upload.verb = .putFile then [] else b.ledger.owed } } := by
  rw [DocumentBroker.upload, h]

/-- An upload starts only when none is in progress. -/
theorem uploadHttpSession_of_started {u : UploadAttempt} {attribs : Attributes} {upload : Upload}
    (h : b.uploadLocalFileToStorageAsync u attribs = some upload) :
    b.uploadHttpSession = none := by
  unfold uploadLocalFileToStorageAsync at h
  split at h
  · cases h
  · rename_i hnone
    simpa using hnone

/-- Neither a save-as nor a rename: the storage is to put the file. -/
theorem verb_of_started {u : UploadAttempt} {attribs : Attributes} {upload : Upload}
    (h : b.uploadLocalFileToStorageAsync u attribs = some upload) (hu : u.isPlain = true) :
    upload.verb = .putFile := by
  obtain ⟨hpath, hrename⟩ : u.saveAsPath = "" ∧ u.isRename = false := by
    simpa [UploadAttempt.isPlain, UploadAttempt.isSaveAs] using hu
  unfold uploadLocalFileToStorageAsync at h
  rw [hpath, hrename] at h
  dsimp only at h
  split at h
  · cases h
  · split at h
    · cases h
    · split at h
      · cases h
      · cases h
        rfl

/-- The file that is put is the `.uploading` file. -/
theorem body_of_started {u : UploadAttempt} {attribs : Attributes} {upload : Upload}
    (h : b.uploadLocalFileToStorageAsync u attribs = some upload)
    (hv : upload.verb = .putFile) : ∃ v, b.uploading = some v ∧ upload.body = some v := by
  unfold uploadLocalFileToStorageAsync at h
  dsimp only at h
  split at h
  · cases h
  · split at h
    · cases h
    · rename_i hfile
      split at h
      · cases h
      · cases h
        dsimp only at hv ⊢
        -- A save-as has another verb, so the file exists and is the one sent.
        by_cases hsaveAs : (u.saveAsPath != "" && u.saveAsFilename != "") = true
        · rw [if_pos hsaveAs] at hv
          split at hv <;> cases hv
        · rw [if_neg hsaveAs]
          obtain ⟨v, hv⟩ : ∃ v, b.uploading = some v :=
            Option.ne_none_iff_exists'.1 (by simpa [hsaveAs] using hfile)
          exact ⟨v, hv, hv⟩

theorem uploadResult_none {result : UploadResult} (h : b.uploadHttpSession = none) :
    b.uploadResult result = b := by
  rw [uploadResult, h]

theorem uploadResult_ok {upload : Upload} {request : UploadRequest}
    (h : b.uploadHttpSession = some upload) (hr : b.uploadRequest = some request) :
    b.uploadResult .ok =
      if !request.isSaveAs && !request.isRename then
        { b with
          uploadHttpSession := none
          ledger := settleUpload upload .ok b.ledger
          save := b.save.setLastModifiedTime request.newFileModifiedTime
          storage :=
            { b.storage.setLastUploadResult b.now true with
              lastUploadedFileModifiedTime := request.newFileModifiedTime }
          documentChangedInStorage := false
          lastStorageAttrs := {} }
      else
        { b with
          uploadHttpSession := none
          ledger := settleUpload upload .ok b.ledger
          storage := b.storage.setLastUploadResult b.now true } := by
  simp only [uploadResult, h, hr]
  rfl

theorem uploadResult_failed {upload : Upload} {request : UploadRequest} {result : UploadResult}
    (h : b.uploadHttpSession = some upload) (hr : b.uploadRequest = some request)
    (hres : result ≠ .ok) :
    b.uploadResult result =
      { b with
        uploadHttpSession := none
        ledger := settleUpload upload result b.ledger
        storage := b.storage.setLastUploadResult b.now false
        documentChangedInStorage :=
          b.documentChangedInStorage || result = .docChanged || result = .conflict
        currentStorageAttrs := b.currentStorageAttrs.merge b.lastStorageAttrs
        lastStorageAttrs := {} } := by
  simp only [uploadResult, h, hr, if_neg hres, decide_eq_false hres]

end

end DocumentBroker

end Oxool.Wsd
