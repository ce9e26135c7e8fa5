import Oxool.Lib.Run
import Oxool.Wsd.State

/-!
# The document broker

The functions of `DocumentBroker` that save, upload, rename and stop, and the part of the polling
loop that calls them. Each is written as the source has it, over a trace of the actions it takes,
so that a run of the broker is by construction a run of actions.

What the code asks of the world outside comes with each event as an `Env`: whether the Kit's socket
takes a message, whether the storage can start an upload, and how much time passes before a request
is made. A client whose session is gone is not heard, and what the Kit answers it is lost.
-/

set_option autoImplicit false

namespace Oxool.Wsd

/-- The broker of one document, with everything it did so far. -/
abbrev BrokerRun (c : Config) := Trace DocumentBroker.act (init c)

structure Env where
  forwarded : Bool := true
  reachable : Bool := true
  pause : Nat := 0
  deriving DecidableEq, Repr

variable {c : Config}

/-! ## Saving -/

/-- Whether the save was sent; a session that the broker does not know cannot send it. -/
def sendUnoSave (env : Env) (session : Session) (isAutosave : Bool) (extendedData : String)
    (t : BrokerRun c) : BrokerRun c × Bool :=
  let t := t.act (.tick env.pause)
  let forwarded := (t.state.findSession session.id).isSome && env.forwarded
  (t.act (.sendUnoSave isAutosave extendedData forwarded), forwarded)

def manualSave (env : Env) (session : Session) (extendedData : String) (t : BrokerRun c) :
    BrokerRun c × Bool :=
  -- If we aren't saving already.
  if t.state.docState.activity ≠ .save then sendUnoSave env session false extendedData t
  else (t, false)

/-- The last editing session, if it is still valid, otherwise a writable one. -/
def savingSession (b : DocumentBroker) : Option Session :=
  match b.lastEditingSessionId.bind b.findSession with
  | some s => if s.isEditable && s.isViewLoaded then some s else b.getWriteableSession
  | none => b.getWriteableSession

/-- Idle for long enough, or time for the regular save. -/
def isSaveDue (b : DocumentBroker) : Bool :=
  let inactivityTime := toMillis (b.now - b.lastActivityTime)
  let timeSinceLastSave :=
    min (b.save.request.timeSinceLastRequest b.now) (b.storage.request.timeSinceLastResponse b.now)
  (0 < b.save.idleSaveInterval && b.save.idleSaveInterval ≤ inactivityTime &&
      b.save.idleSaveInterval ≤ timeSinceLastSave) ||
    (0 < b.save.autoSaveInterval && b.save.autoSaveInterval ≤ timeSinceLastSave)

def autoSave (env : Env) (force : Bool) (t : BrokerRun c) : BrokerRun c × Bool :=
  -- We are saving, wait for the results.
  if t.state.docState.activity = .save then (t, true)
  else
    let t := t.act .autoSaveChecked
    if t.state.canSaveToDisk ≠ .yes then (t, false)
    else if !t.state.isModified && !force then (t, false)
    else
      match savingSession t.state with
      | none => (t, false)
      | some session =>
        if force then sendUnoSave env session false "" t
        else if isSaveDue t.state then sendUnoSave env session true "" t
        else (t, false)

/-! ## Sessions -/

def finalRemoveSession (id : Nat) (t : BrokerRun c) : BrokerRun c :=
  t.act (.setSessions (t.state.sessions.filter (·.id ≠ id)))

/-- Starts the handshake with the Kit, or removes a session that has none to wait for. -/
def disconnectSessionInternal (session : Session) (t : BrokerRun c) : BrokerRun c :=
  let t := if t.state.docState.isUnloadRequested then t.act .markToDestroy else t
  if session.state = .live ∨ session.state = .loading then
    t.act (.setSessions (t.state.sessions.map fun s =>
      if s.id = session.id then { s with state := .waitDisconnect } else s))
  else finalRemoveSession session.id t

/-- Disconnects the sessions whose client has gone. -/
def disconnectClosedSessions (t : BrokerRun c) : BrokerRun c :=
  t.state.sessions.foldl (fun t s =>
    if s.isCloseFrame && !s.inWaitDisconnected then disconnectSessionInternal s t else t) t

/-! ## Uploading -/

def uploadToStorageInternal (env : Env) (session : Session) (saveAsPath saveAsFilename : String)
    (isRename isExport force : Bool) (t : BrokerRun c) : BrokerRun c :=
  if !session.isEditable then t
  -- The file timestamp hasn't changed: nothing to do.
  else if saveAsPath = "" ∧ t.state.uploadingTime = t.state.save.lastModifiedTime ∧
      !isRename ∧ !force then t
  else
    (t.act (.tick env.pause)).act (.upload
      { session := session.id
        saveAsPath := saveAsPath
        saveAsFilename := saveAsFilename
        isRename := isRename
        isExport := isExport
        force := force
        reachable := env.reachable })

def uploadToStorage (env : Env) (session : Session) (force : Bool) (t : BrokerRun c) :
    BrokerRun c :=
  -- Upload immediately if forced or had no failures. Otherwise, throttle.
  if force || t.state.storage.lastUploadSuccessful ||
      t.state.storage.canUploadNow t.state.now t.state.isUnloading then
    uploadToStorageInternal env session "" "" false false force t
  else t

def uploadAsToStorage (env : Env) (session : Session) (uploadAsPath uploadAsFilename : String)
    (isRename isExport : Bool) (t : BrokerRun c) : BrokerRun c :=
  uploadToStorageInternal env session uploadAsPath uploadAsFilename isRename isExport false t

/-- The session that asked for the rename. -/
def renameSession (b : DocumentBroker) : Option Session := b.renameSessionId.bind b.findSession

/-- The rename itself, once there is nothing to upload before it. -/
def renameInStorage (env : Env) (t : BrokerRun c) : BrokerRun c :=
  match renameSession t.state with
  | none => t.act .endRename
  | some session =>
    uploadToStorageInternal env session "" t.state.renameFilename true false false t

def checkAndUploadToStorage (env : Env) (session : Session) (justSaved : Bool)
    (t : BrokerRun c) : BrokerRun c :=
  let needToUpload := t.state.needToUploadToStorage
  if t.state.docState.activity = .rename ∧ needToUpload = .no then renameInStorage env t
  else
    -- Done saving.
    let t := if t.state.docState.activity = .save then t.act (.setActivity .none) else t
    let modified :=
      if justSaved then t.state.haveModifyActivityAfterSaveRequest
      else t.state.needToSaveToDisk != .no
    -- Possibly modified while unloading: save again before uploading.
    if modified && t.state.isUnloading then t
    else if needToUpload ≠ .no then uploadToStorage env session false t
    else if !t.state.isAsyncUploading then disconnectClosedSessions t
    else t

def handleSaveResponse (env : Env) (session : Session) (answer : SaveAnswer)
    (t : BrokerRun c) : BrokerRun c :=
  if t.state.ledger.awaited.isEmpty then t
  else
    checkAndUploadToStorage env session (answer.success || answer.unmodified)
      (t.act (.saveResult answer))

/-- What an upload that storage accepted lets the broker go on with. -/
def uploadAccepted (env : Env) (request : UploadRequest) (t : BrokerRun c) : BrokerRun c :=
  let t :=
    if !request.isSaveAs && !request.isRename then
      if t.state.docState.activity = .rename then renameInStorage env t else t
    else if request.isRename then t.act .endRename
    else t
  let t := if t.state.docState.isUnloadRequested then t.act .markToDestroy else t
  let t :=
    if (t.state.docState.isMarkedToDestroy || t.state.sessions.isEmpty) &&
        !t.state.isPossiblyModified then t.act (.stop "unloading")
    else t
  disconnectClosedSessions t

/-- What the other results of an upload do to the sessions. -/
def uploadRejected (request : UploadRequest) (result : UploadResult) (t : BrokerRun c) :
    BrokerRun c :=
  match result with
  | .tooLarge | .diskFull => t.act (.setSessions (t.state.sessions.map Session.setUnwritable))
  | .unauthorized =>
    t.act (.setSessions (t.state.sessions.map fun s =>
      if s.id = request.session then s.invalidateAuthorizationToken else s))
  | .docChanged | .conflict =>
    -- No clients were contacted; we will never resolve this conflict.
    if t.state.sessions.all (·.isCloseFrame) then t.act (.stop "conflict") else t
  | .ok | .failed => t

def handleUploadToStorageResponse (env : Env) (result : UploadResult) (t : BrokerRun c) :
    BrokerRun c :=
  if t.state.uploadHttpSession.isNone then t
  else
    let t := t.act (.uploadResult result)
    match t.state.uploadRequest with
    | none => t
    | some request =>
      if result = .ok then uploadAccepted env request t else uploadRejected request result t

/-! ## Renaming -/

def startRenameFileCommand (env : Env) (t : BrokerRun c) : BrokerRun c :=
  if t.state.renameSessionId = none ∨ t.state.renameFilename = "" ∨
      t.state.docState.activity ≠ .none then t
  else
    let t := t.act (.setActivity .rename)
    match renameSession t.state with
    | none => t.act .endRename
    | some session => (sendUnoSave env session false "" t).1

def handleRenameFileCommand (env : Env) (session : Nat) (newFilename : String)
    (t : BrokerRun c) : BrokerRun c × String :=
  if newFilename = "" then (t, "error: cmd=renamefile kind=invalid")
  else if t.state.docState.activity = .rename ∧ t.state.renameFilename ≠ newFilename then
    (t, "error: cmd=renamefile kind=conflict")
  else
    let t := t.act (.setRename newFilename session)
    if t.state.docState.activity = .none then (startRenameFileCommand env t, "") else (t, "")

/-! ## Stopping -/

/-- What `autoSaveAndStop` decides before it tries to save: to stop, to wait for the modified flag
to clear, or to go on and save. -/
inductive StopDecision
  | stop
  | wait
  | save
  deriving DecidableEq, Repr

/-- Nothing to save and the storage is up-to-date: whether uploads that fail keep the broker. -/
def canStopUploading (b : DocumentBroker) : Bool :=
  if b.config.alwaysSaveOnExit && !b.storage.lastUploadSuccessful then
    0 < b.config.limStoreFailures &&
      b.config.limStoreFailures ≤ b.storage.request.lastRequestFailureCount
  else true

def stopDecision (b : DocumentBroker) : StopDecision :=
  let needToSave := b.needToSaveToDisk
  let needToUpload := b.needToUploadToStorage
  if needToSave = .no ∧ needToUpload = .no then .stop
  else if needToSave = .no ∧ !b.isStorageOutdated ∧ canStopUploading b then .stop
  -- May have data loss, but must stop.
  else if needToSave ≠ .no ∧ b.canSaveToDisk ≠ .yes then .stop
  else if needToUpload = .no then
    if !b.haveModifyActivityAfterSaveRequest && b.save.lastSaveSuccessful then
      if b.isModified && b.save.request.timeSinceLastResponse b.now < 2000 then .wait else .stop
    else if needToSave = .no then .stop
    else .save
  else .save

def autoSaveAndStop (env : Env) (reason : String) (t : BrokerRun c) : BrokerRun c :=
  if t.state.save.isSaving || t.state.isAsyncUploading then t
  else
    match stopDecision t.state with
    | .stop => t.act (.stop reason)
    | .wait => t
    | .save =>
      -- Don't hammer on saving.
      if !t.state.save.canSaveNow t.state.now t.state.isUnloading then t
      else
        let (t, sent) := autoSave env t.state.isPossiblyModified t
        if sent then t
        else
          match t.state.getWriteableSession with
          | none => t.act (.stop reason)
          | some session =>
            if session.isExpired then t.act (.stop reason)
            else checkAndUploadToStorage env session false t

def removeSession (env : Env) (session : Session) (t : BrokerRun c) : BrokerRun c :=
  let activeSessionCount := t.state.countActiveSessions
  let lastEditableSession :=
    session.isEditable && !t.state.haveAnotherEditableSession session.id
  let t :=
    if !lastEditableSession then disconnectSessionInternal session t
    else if t.state.save.isSaving then t
    else
      let (t, sent) :=
        autoSave env (t.state.config.alwaysSaveOnExit || t.state.isPossiblyModified) t
      if sent then t else disconnectSessionInternal session t
  if activeSessionCount ≤ 1 then
    if t.state.save.isSaving || t.state.isAsyncUploading then t.act .setUnloadRequested
    else if t.state.sessions.isEmpty then t.act .markToDestroy
    else t
  else t

def closeDocument (reason : String) (t : BrokerRun c) : BrokerRun c :=
  let t := t.act (.setCloseRequested reason)
  -- Discarding changes in the face of conflict in storage.
  if t.state.documentChangedInStorage then t.act (.stop reason) else t

def disconnectedFromKit (unexpected : Bool) (t : BrokerRun c) : BrokerRun c :=
  let t := t.act (.setDisconnected (if unexpected then .unexpected else .normal))
  if t.state.closeReason = "" then closeDocument "docdisconnected" t else t

/-! ## The polling loop -/

/-- Failed too often to store the document. -/
def storeFailed (b : DocumentBroker) : Bool :=
  0 < b.config.limStoreFailures &&
    (b.config.limStoreFailures ≤ b.save.request.lastRequestFailureCount ||
      b.config.limStoreFailures ≤ b.storage.request.lastRequestFailureCount)

/-- The polling loop with no activity going on. -/
def pollIdle (env : Env) (t : BrokerRun c) : BrokerRun c :=
  let b := t.state
  if b.renameFilename ≠ "" ∧ b.renameSessionId.isSome then startRenameFileCommand env t
  else if b.config.idleDocTimeoutSecs ≤ toSeconds (b.now - b.lastActivityTime) then
    autoSaveAndStop env "idle" t
  else if b.sessions.isEmpty then
    if b.save.isSaving || b.isAsyncUploading then t else autoSaveAndStop env "dead" t
  else if b.docState.isUnloadRequested || b.shutdownRequestFlag ||
      b.docState.isCloseRequested then
    if storeFailed b then t.act (.stop "storefailed")
    else
      autoSaveAndStop env (if b.shutdownRequestFlag then "recycling"
        else if b.closeReason ≠ "" then b.closeReason else "unloading") t
  else if b.save.needAutoSaveCheck b.now then (autoSave env false t).1
  -- Retry uploading, if the last one failed and we can try again.
  else if !b.isAsyncUploading && !b.storage.lastUploadSuccessful &&
      b.needToUploadToStorage ≠ .no then
    match b.getWriteableSession with
    | none => t
    | some session =>
      if session.isExpired then t else checkAndUploadToStorage env session false t
  else t

/-- One round of the polling loop, after the sockets were served. -/
def poll (env : Env) (t : BrokerRun c) : BrokerRun c :=
  if t.state.stop then t
  else
    match t.state.docState.activity with
    | .none => pollIdle env t
    | .save | .saveAs =>
      -- We will never save, or have waited long enough.
      if t.state.docState.isDisconnected || t.state.save.hasSavingTimedOut t.state.now then
        (t.act .giveUpSave).act (.setActivity .none)
      else t
    | .rename | .conflict | .upload => t.act (.postponeAutosave 30)

/-! ## Events -/

/-- What can happen to the broker. -/
inductive Event
  | tick (d : Nat)
  /-- Input that modifies the document; `typed` is text, mouse or key input. -/
  | input (session : Nat) (typed : Bool)
  | modifiedStatus (value : Bool)
  | save (session : Nat) (extendedData : String)
  | saveToStorage (session : Nat) (force : Bool)
  | saveAs (session : Nat) (path filename : String) (isExport : Bool)
  | renameFile (session : Nat) (filename : String)
  | saveResponse (session : Nat) (answer : SaveAnswer)
  | uploadFinished (result : UploadResult)
  /-- Asked for by the admin console. -/
  | autoSave
  | poll
  | addSession (session : Session) (changedInStorage : Bool)
  | updateSession (session : Session)
  | removeSession (session : Nat)
  | disconnected (session : Nat)
  | closeDocument (reason : String)
  | disconnectedFromKit (unexpected : Bool)
  | stop (reason : String)
  | shutdownRequest
  | terminate
  deriving Repr

/-- Input is dropped while unloading if it is text, mouse or key input. -/
def handleInput (env : Env) (session : Session) (typed : Bool) (t : BrokerRun c) :
    BrokerRun c :=
  let t := t.act .updateLastActivityTime
  let t :=
    if session.isEditable && session.isViewLoaded then t.act (.updateEditingSessionId session.id)
    else t
  if session.isEditable then
    t.act (.updateLastModifyingActivityTime (!(t.state.isUnloading && typed) && env.forwarded))
  else t

/-- Inserts a session in the order of the ids, in place of one with the same id. -/
def insertSession (session : Session) : List Session → List Session
  | [] => [session]
  | s :: rest =>
    if session.id < s.id then session :: s :: rest
    else if session.id = s.id then session :: rest
    else s :: insertSession session rest

def addSession (session : Session) (changedInStorage : Bool) (t : BrokerRun c) : BrokerRun c :=
  let t := if changedInStorage then t.act .documentChanged else t
  t.act (.setSessions (insertSession session t.state.sessions))

/-- Calls `f` with the session, if the broker has it. -/
def withSession (id : Nat) (f : Session → BrokerRun c → BrokerRun c) (t : BrokerRun c) :
    BrokerRun c :=
  match t.state.findSession id with
  | none => t
  | some session => f session t

def handle (env : Env) (e : Event) (t : BrokerRun c) : BrokerRun c :=
  match e with
  | .tick d => t.act (.tick d)
  | .input id typed => withSession id (fun s => handleInput env s typed) t
  | .modifiedStatus value => t.act (.setModified value)
  | .save id extendedData =>
    withSession id
      (fun s t => if s.isWritable then (manualSave env s extendedData t).1 else t) t
  | .saveToStorage id force => withSession id (fun s => uploadToStorage env s force) t
  | .saveAs id path filename isExport =>
    if path = "" then t
    else withSession id (fun s => uploadAsToStorage env s path filename false isExport) t
  | .renameFile id filename =>
    withSession id (fun s t => (handleRenameFileCommand env s.id filename t).1) t
  | .saveResponse id answer =>
    match t.state.findSession id with
    | none => t.act (.loseAnswer answer)
    | some session => handleSaveResponse env session answer t
  | .uploadFinished result => handleUploadToStorageResponse env result t
  | .autoSave => (autoSave env true t).1
  | .poll => poll env t
  | .addSession session changedInStorage => addSession session changedInStorage t
  | .updateSession session =>
    withSession session.id
      (fun _ t => t.act (.setSessions (insertSession session t.state.sessions))) t
  | .removeSession id => withSession id (removeSession env) t
  | .disconnected id => finalRemoveSession id t
  | .closeDocument reason => closeDocument reason t
  | .disconnectedFromKit unexpected => disconnectedFromKit unexpected t
  | .stop reason => t.act (.stop reason)
  | .shutdownRequest => t.act .shutdownRequest
  | .terminate => t.act .terminate

/-- One event with what the world answers during it. -/
def step (t : BrokerRun c) (e : Event × Env) : BrokerRun c := handle e.2 e.1 t

/-- The broker after some events. -/
def run (c : Config) (es : List (Event × Env)) : BrokerRun c := es.foldl step .start

end Oxool.Wsd
