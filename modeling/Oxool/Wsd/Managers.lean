import Mathlib.Logic.Basic

/-!
# What the document broker keeps track of

The records a `DocumentBroker` consults when it decides to save, to upload or to stop: the two
request managers with the times of the last request and the last response, the attributes that
accompany an upload, the upload request, and the client sessions.

Time is the steady clock in nanoseconds; intervals are milliseconds, as in the source. The
modification time of a file on disk is the number of the save that wrote it, and `0`, the epoch,
stands for a file that does not exist.
-/

set_option autoImplicit false

namespace Oxool.Wsd

/-- `duration_cast` of a clock difference to milliseconds. -/
def toMillis (d : Nat) : Nat := d / 1000000

/-- `duration_cast` of a clock difference to seconds. -/
def toSeconds (d : Nat) : Nat := d / 1000000000

/-! ## RequestManager -/

structure RequestManager where
  minTimeBetweenRequests : Nat
  lastRequestTime : Nat
  lastResponseTime : Nat
  lastRequestDuration : Nat
  lastRequestFailureCount : Nat
  deriving DecidableEq, Repr

namespace RequestManager

variable (m : RequestManager) (now : Nat)

/-- A manager made at `now`: nothing requested, nothing failed. -/
def new (minTimeBetweenRequests now : Nat) : RequestManager :=
  ⟨minTimeBetweenRequests, now, now, 0, 0⟩

def markLastRequestTime : RequestManager := { m with lastRequestTime := now }

def timeSinceLastRequest : Nat := toMillis (now - m.lastRequestTime)

def timeSinceLastResponse : Nat := toMillis (now - m.lastResponseTime)

/-- A request is in progress, going by the two times. -/
def isActive : Bool := m.lastResponseTime < m.lastRequestTime

def hasLastRequestTimedOut (timeoutMs : Nat) : Bool :=
  m.isActive && timeoutMs ≤ m.timeSinceLastRequest now

def markLastResponseTime : RequestManager :=
  { m with
    lastResponseTime := now
    lastRequestDuration := toMillis (now - m.lastRequestTime) }

/-- When unloading, throttling is reduced to a tenth. -/
def canRequestNow (unloading : Bool) : Bool :=
  let minTimeBetweenRequests :=
    if unloading then m.minTimeBetweenRequests / 10 else m.minTimeBetweenRequests
  !m.isActive &&
    max minTimeBetweenRequests (m.lastRequestDuration / 2) ≤
      min (m.timeSinceLastRequest now) (m.timeSinceLastResponse now)

def setLastRequestResult (success : Bool) : RequestManager :=
  { m.markLastResponseTime now with
    lastRequestFailureCount := if success then 0 else m.lastRequestFailureCount + 1 }

def lastRequestSuccessful : Bool := m.lastRequestFailureCount == 0

end RequestManager

/-! ## SaveManager and StorageManager -/

structure SaveManager where
  request : RequestManager
  lastModifiedTime : Nat
  idleSaveInterval : Nat
  autoSaveInterval : Nat
  /-- Seconds. -/
  savingTimeout : Nat
  lastAutosaveCheckTime : Nat
  version : Nat
  deriving DecidableEq, Repr

namespace SaveManager

variable (m : SaveManager) (now : Nat)

/-- The minimum of the enabled intervals; `0` when both are disabled. -/
def checkInterval : Nat :=
  if 0 < m.idleSaveInterval then
    if 0 < m.autoSaveInterval then min m.idleSaveInterval m.autoSaveInterval
    else m.idleSaveInterval
  else m.autoSaveInterval

def needAutoSaveCheck : Bool :=
  0 < m.checkInterval && m.checkInterval ≤ 1000 * toSeconds (now - m.lastAutosaveCheckTime)

def autoSaveChecked : SaveManager := { m with lastAutosaveCheckTime := now }

/-- Puts the next autosave check off to at least `seconds` from now. -/
def postponeAutosave (seconds : Nat) : SaveManager :=
  let nextAutosaveCheck := m.lastAutosaveCheckTime + 1000000 * m.autoSaveInterval
  let postponeTime := now + 1000000000 * seconds
  { m with
    lastAutosaveCheckTime :=
      if nextAutosaveCheck < postponeTime then
        m.lastAutosaveCheckTime + (postponeTime - nextAutosaveCheck)
      else m.lastAutosaveCheckTime }

def markLastSaveRequestTime : SaveManager :=
  { m with request := m.request.markLastRequestTime now }

def lastSaveSuccessful : Bool := m.request.lastRequestSuccessful

def setLastSaveResult (success newVersion : Bool) : SaveManager :=
  { m with
    version := if newVersion then m.version + 1 else m.version
    request := m.request.setLastRequestResult now success }

@[simp] theorem lastSaveSuccessful_setLastSaveResult (success newVersion : Bool) :
    (m.setLastSaveResult now success newVersion).lastSaveSuccessful = success := by
  cases success <;> rfl

def setLastModifiedTime (time : Nat) : SaveManager := { m with lastModifiedTime := time }

def isSaving : Bool := m.request.isActive

@[simp] theorem isSaving_setLastModifiedTime (time : Nat) :
    (m.setLastModifiedTime time).isSaving = m.isSaving := rfl

def hasSavingTimedOut : Bool := m.request.hasLastRequestTimedOut now (1000 * m.savingTimeout)

def canSaveNow (unloading : Bool) : Bool := m.request.canRequestNow now unloading

end SaveManager

structure StorageManager where
  request : RequestManager
  lastUploadedFileModifiedTime : Nat
  deriving DecidableEq, Repr

namespace StorageManager

variable (m : StorageManager) (now : Nat)

def lastUploadSuccessful : Bool := m.request.lastRequestSuccessful

def setLastUploadResult (success : Bool) : StorageManager :=
  { m with request := m.request.setLastRequestResult now success }

def markLastUploadRequestTime : StorageManager :=
  { m with request := m.request.markLastRequestTime now }

def canUploadNow (unloading : Bool) : Bool := m.request.canRequestNow now unloading

end StorageManager

/-! ## Upload attributes and requests -/

/-- `StorageBase::Attributes`. -/
structure Attributes where
  forced : Bool := false
  isUserModified : Bool := false
  isAutosave : Bool := false
  isExitSave : Bool := false
  extendedData : String := ""
  deriving DecidableEq, Repr

namespace Attributes

/-- The flags of either; the extended data of `lhs`, if it has any. -/
def merge (a lhs : Attributes) : Attributes where
  forced := if lhs.forced then true else a.forced
  isUserModified := if lhs.isUserModified then true else a.isUserModified
  isAutosave := if lhs.isAutosave then true else a.isAutosave
  isExitSave := if lhs.isExitSave then true else a.isExitSave
  extendedData := if lhs.extendedData ≠ "" then lhs.extendedData else a.extendedData

end Attributes

structure UploadRequest where
  newFileModifiedTime : Nat
  session : Nat
  isSaveAs : Bool
  isExport : Bool
  isRename : Bool
  deriving DecidableEq, Repr

/-- `StorageBase::UploadResult::Result`. -/
inductive UploadResult
  | ok
  | diskFull
  | tooLarge
  | unauthorized
  | docChanged
  | conflict
  | failed
  deriving DecidableEq, Repr

/-- What the Kit reports back about a save. -/
structure SaveAnswer where
  success : Bool
  result : String
  wasModified : Option Bool
  deriving DecidableEq, Repr

/-- Core had nothing to save. -/
def SaveAnswer.unmodified (a : SaveAnswer) : Bool := a.result == "unmodified"

/-! ## Sessions -/

inductive SessionState
  | detached
  | loading
  | live
  | waitDisconnect
  deriving DecidableEq, Repr

structure Session where
  id : Nat
  state : SessionState
  isWritable : Bool
  isReadOnly : Bool
  isAllowChangeComments : Bool
  isDocumentOwner : Bool
  isCloseFrame : Bool
  /-- The authorization token has expired. -/
  isExpired : Bool
  deriving DecidableEq, Repr

namespace Session

/-- A loaded session that can edit. -/
def editor (id : Nat) : Session where
  id := id
  state := .live
  isWritable := true
  isReadOnly := false
  isAllowChangeComments := false
  isDocumentOwner := false
  isCloseFrame := false
  isExpired := false

variable (s : Session)

def isEditable : Bool := !s.isReadOnly || s.isAllowChangeComments

def isViewLoaded : Bool := s.state == .live

def inWaitDisconnected : Bool := s.state == .waitDisconnect

def isLive : Bool := s.state == .live && !s.isCloseFrame

/-- `setWritable(false)`. -/
def setUnwritable : Session :=
  { s with isWritable := false, isReadOnly := true, isAllowChangeComments := false }

def invalidateAuthorizationToken : Session := { s with isExpired := true }

end Session

/-! ## DocumentState -/

inductive Activity
  | none
  | rename
  | saveAs
  | conflict
  | save
  | upload
  deriving DecidableEq, Repr

inductive Disconnected
  | no
  | normal
  | unexpected
  deriving DecidableEq, Repr

/-- The state of a document that has loaded. -/
structure DocumentState where
  activity : Activity := .none
  isMarkedToDestroy : Bool := false
  isCloseRequested : Bool := false
  isUnloadRequested : Bool := false
  disconnected : Disconnected := .no
  deriving DecidableEq, Repr

def DocumentState.isDisconnected (d : DocumentState) : Bool := d.disconnected != .no

end Oxool.Wsd
