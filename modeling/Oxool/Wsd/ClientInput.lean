import Oxool.Lib.Run
import Oxool.Wsd.ClientSession

/-!
# Messages of a client (`ClientSession::_handleInput`)

A message goes to the extensions first, then through a chain of commands, most of which hand it to the
kit as it is. The long list of editing commands is the one place at which `filterMessage` is asked. What
else is forwarded, is forwarded for every session.

A rename that a client asks for while the broker is busy is no effect of that message: the broker keeps
it, and the polling loop starts it later.

`handleInput` follows the chain. What the rest of the server has to say comes with each message as an
`Env`, so that the broker, the kit and the other sessions may do anything between two messages. Left out
are the answers to the client that are not errors, and what `_handleInput` returns, which its caller
does not read.
-/

set_option autoImplicit false

namespace Oxool.Wsd.Input

open Oxool.Http (Bytes ascii)
open Oxool.Protocol

/-! ## The surroundings -/

/-- `DocumentState::Activity`. -/
inductive BrokerActivity where
  | none
  | rename
  | saveAs
  | conflict
  | save
  | upload
  | switchingToOffline
  | switchingToOnline
deriving DecidableEq

/-- What the broker, the caches, the configuration, the modules and the libraries say while a message
is handled. -/
structure Env where
  /-- There is a broker, and it is not marked to be destroyed. -/
  hasBroker : Bool
  hasChildProcess : Bool
  /-- The session is in `_sessions`. -/
  isKnown : Bool
  isLoaded : Bool
  isUnloading : Bool
  activity : BrokerActivity
  renameFilename : Bytes
  isDocumentChangedInStorage : Bool
  sessionCount : Nat
  activeSessionCount : Nat
  publicUri : Bytes
  /-- The other parameters of the load message, before and after `readonly`. -/
  loadParameters : Bytes × Bytes
  isTextDocument : Bool
  cmdValuesCached : Bytes → Bool
  fontCached : Bytes → Bool
  traceEventEnabled : Bool
  accessibilityEnabled : Bool
  lokitVersionHas : String → Bool
  /-- The handlers of the modules, by the messages that they forward. -/
  getModuleById : Bytes → Option (List Bytes → List Bytes)
  /-- The broker's answer to a lock, unless the session is refused. -/
  lockResult : Bool
  decoders : Decoders
  /-- The `id` in a JSON object. -/
  jsonId : Bytes → Option Bytes

/-- What handling a message leads to. -/
inductive Effect where
  | error (text : Bytes)
  /-- The broker hands the message to the kit. -/
  | forwarded (message : Bytes)
  | uploadToStorage (force : Bool)
  | startRename (filename : Bytes)
  /-- The broker is busy, and starts the rename when it is idle. -/
  | queueRename (filename : Bytes)
  | startSwitching (activity : BrokerActivity)
  | closeDocument (reason : Bytes)
  | stop
  | removeSession
  | tiles
deriving DecidableEq

namespace Env

variable (env : Env)

/-- What `DocumentBroker::forwardToChild` drops without a word. -/
def ignores (message : Bytes) : Bool :=
  (!env.isLoaded && (message == ascii "userinactive" || message == ascii "useractive")) ||
    (env.isUnloading && ((ascii "textinput ").isPrefixOf message ||
      (ascii "mouse ").isPrefixOf message || (ascii "key ").isPrefixOf message))

/-- The message gets to the kit. -/
def takes (message : Bytes) : Bool :=
  if (ascii "urp ").isPrefixOf message then env.hasChildProcess
  else env.isKnown && !env.ignores message

/-- `DocumentBroker::forwardToChild`. -/
def forwardToChild (message : Bytes) : List Effect :=
  if env.takes message then [.forwarded message] else []

/-- The message of `DocumentBroker::sendUnoSave`. -/
def saveCommand (dontTerminateEdit dontSaveIfUnmodified : Bool) : Bytes :=
  let flag := ":\x7b\"type\":\"boolean\",\"value\":true\x7d"
  ascii ("uno .uno:Save \x7b" ++
    (if dontTerminateEdit then "\"DontTerminateEdit\"" ++ flag else "") ++
    (if dontSaveIfUnmodified then
      (if dontTerminateEdit then "," else "") ++ "\"DontSaveIfUnmodified\"" ++ flag else "") ++
    "\x7d")

def sendUnoSave (dontTerminateEdit dontSaveIfUnmodified : Bool) : List Effect :=
  env.forwardToChild (saveCommand dontTerminateEdit dontSaveIfUnmodified)

def manualSave (dontTerminateEdit dontSaveIfUnmodified : Bool) : List Effect :=
  if env.activity = .save then [] else env.sendUnoSave dontTerminateEdit dontSaveIfUnmodified

/-- `DocumentBroker::startRenameFileCommand`, by an idle broker. -/
def startRenameFileCommand (filename : Bytes) : List Effect :=
  .startRename filename :: env.sendUnoSave false true

/-- `DocumentBroker::handleRenameFileCommand`. The name is kept while the broker is busy. If it renames
to the same name already, there is nothing left to start. -/
def handleRenameFileCommand (newFilename : Bytes) : List Effect :=
  if newFilename = [] then [.error (ascii "error: cmd=renamefile kind=invalid")]
  else if env.activity = .rename ∧ env.renameFilename ≠ newFilename then
    [.error (ascii "error: cmd=renamefile kind=conflict")]
  else if env.activity = .none then env.startRenameFileCommand newFilename
  else if env.activity = .rename then []
  else [.queueRename newFilename]

/-- `DocumentBroker::pollThread` looks for a rename that was kept. -/
def pollRename (filename : Bytes) : List Effect :=
  if env.activity = .none ∧ filename ≠ [] then env.startRenameFileCommand filename else []

/-- `DocumentBroker::switchMode`. -/
def switchMode (mode : Bytes) : List Effect :=
  if mode = ascii "online" then
    if env.activity = .none then [.startSwitching .switchingToOnline] else []
  else if mode = ascii "offline" then
    if 1 < env.sessionCount then [.error (ascii "error: cmd=switch kind=multiviews")]
    else if env.activity = .none then
      .startSwitching .switchingToOffline :: env.sendUnoSave false true
    else []
  else []

/-- `DocumentBroker::attemptLock`: only editors can lock. -/
def attemptLock (isReadOnly : Bool) : Bool := !isReadOnly && env.lockResult

/-- `DocumentBroker::removeSession`, which asks for the clipboard if there is no other view. -/
def removeSession : List Effect :=
  (if env.activeSessionCount ≤ 1 then env.forwardToChild (ascii "getclipboard") else []) ++
    [.removeSession]

end Env

/-! ## The extensions -/

/-- What the handler of a module forwards, for a message that starts with the id of one. -/
def moduleForwards (env : Env) (tokens : List Bytes) : Option (List Bytes) :=
  match token tokens 0 with
  | 60 :: rest =>
    if 62 ∈ rest then
      let moduleId := rest.takeWhile (· != 62)
      let command := (rest.dropWhile (· != 62)).drop 1
      some (match env.getModuleById moduleId with
        | some handler => handler (command :: tokens.drop 1)
        | none => [])
    else none
  | _ => none

/-- `ModuleManager::handleClientMessage`. -/
def moduleMessage (env : Env) (tokens : List Bytes) : Option (List Effect) :=
  (moduleForwards env tokens).map fun messages => messages.flatMap env.forwardToChild

/-- What is refused where the WOPI host has disabled copying, by what it starts. -/
def exportFileCommands : List String :=
  [".uno:SaveGraphic", ".uno:ExportAsGraphic", ".uno:SaveBackground", ".uno:ExternalEdit"]

def filterUnoCommand (s : ClientSession) (unoCommand : Bytes) : Bool :=
  s.wopi (·.disableCopy) && exportFileCommands.any fun command => unoCommand.isPrefixOf (ascii command)

/-- `ExtensionSession::handleClientMessage`, if it handles the message. -/
def handleClientMessage (env : Env) (s : ClientSession) (firstLine : Bytes) (tokens : List Bytes) :
    Option (List Effect) :=
  if equals tokens 0 "load" then none
  else if equals tokens 0 "initunostatus" then
    some (if !env.lokitVersionHas "initUnoStatus" then
        [.error (ascii "error: cmd=initunostatus kind=unsupported")]
      else if tokens.length ≠ 2 then [.error (ascii "error: cmd=initunostatus kind=syntax")]
      else env.forwardToChild firstLine)
  else if equals tokens 0 "writetext" then
    some (if env.lokitVersionHas "postWindowExtTextInputEventEnhance" then
        env.forwardToChild firstLine
      else [])
  else if equals tokens 0 "uno" && 1 < tokens.length && filterUnoCommand s (token tokens 1) then
    some [.error (ascii "error: cmd=" ++ token tokens 1 ++ ascii " kind=forbidden")]
  else if equals tokens 0 "insertpicture" || equals tokens 0 "changepicture" then
    some (env.forwardToChild firstLine)
  else moduleMessage env tokens

/-! ## The commands -/

/-- The branches of the chain. -/
inductive Command where
  | urp
  | oxoolclient
  | versionbar
  | jserror
  | load
  | loadwithpassword
  | commandvalues
  | closedocument
  | versionrestore
  | partpagerectangles
  | ping
  | renderfont
  | status
  | tile
  | save
  | savetostorage
  | clientvisiblearea
  | setclientpart
  | selectclientpart
  | moveselectedclientparts
  | clientzoom
  | tileprocessed
  | removesession
  | renamefile
  | dialogevent
  | formfieldevent
  | loggingleveloverride
  | traceeventrecording
  | a11ystate
  | completefunction
  | resetaccesstoken
  | switchRequest
  | filtered
  | readonlyclick
  | attemptlock
  | blockingcommandstatus
  | toggletiledumping
  | routetokensanitycheck
deriving DecidableEq

/-- The first tokens of each branch. The second `urp` is never reached. -/
def Command.names : Command → List String
  | .urp => ["urp"]
  | .oxoolclient => ["oxoolclient"]
  | .versionbar => ["versionbar"]
  | .jserror => ["jserror", "jsexception"]
  | .load => ["load"]
  | .loadwithpassword => ["loadwithpassword"]
  | .commandvalues => ["commandvalues"]
  | .closedocument => ["closedocument"]
  | .versionrestore => ["versionrestore"]
  | .partpagerectangles => ["partpagerectangles"]
  | .ping => ["ping"]
  | .renderfont => ["renderfont"]
  | .status => ["status", "statusupdate"]
  | .tile => ["tile", "tilecombine"]
  | .save => ["save"]
  | .savetostorage => ["savetostorage"]
  | .clientvisiblearea => ["clientvisiblearea"]
  | .setclientpart => ["setclientpart"]
  | .selectclientpart => ["selectclientpart"]
  | .moveselectedclientparts => ["moveselectedclientparts"]
  | .clientzoom => ["clientzoom"]
  | .tileprocessed => ["tileprocessed"]
  | .removesession => ["removesession"]
  | .renamefile => ["renamefile"]
  | .dialogevent => ["dialogevent"]
  | .formfieldevent => ["formfieldevent", "sallogoverride", "contentcontrolevent"]
  | .loggingleveloverride => ["loggingleveloverride"]
  | .traceeventrecording => ["traceeventrecording"]
  | .a11ystate => ["a11ystate"]
  | .completefunction => ["completefunction"]
  | .resetaccesstoken => ["resetaccesstoken"]
  | .switchRequest => ["switch_request"]
  | .filtered =>
    ["outlinestate", "downloadas", "getchildid", "gettextselection", "paste", "insertfile", "key",
      "textinput", "windowkey", "mouse", "windowmouse", "windowgesture", "resetselection", "saveas",
      "exportas", "selectgraphic", "selecttext", "windowselecttext", "setpage", "uno", "urp",
      "useractive", "userinactive", "paintwindow", "windowcommand", "asksignaturestatus",
      "rendershapeselection", "resizewindow", "removetextcontext", "rendersearchresult",
      "geta11yfocusedparagraph", "geta11ycaretposition"]
  | .readonlyclick => ["readonlyclick"]
  | .attemptlock => ["attemptlock"]
  | .blockingcommandstatus => ["blockingcommandstatus"]
  | .toggletiledumping => ["toggletiledumping"]
  | .routetokensanitycheck => ["routetokensanitycheck"]

/-- In the order of the chain. -/
def Command.all : List Command :=
  [.urp, .oxoolclient, .versionbar, .jserror, .load, .loadwithpassword, .commandvalues,
    .closedocument, .versionrestore, .partpagerectangles, .ping, .renderfont, .status, .tile, .save,
    .savetostorage, .clientvisiblearea, .setclientpart, .selectclientpart, .moveselectedclientparts,
    .clientzoom, .tileprocessed, .removesession, .renamefile, .dialogevent, .formfieldevent,
    .loggingleveloverride, .traceeventrecording, .a11ystate, .completefunction, .resetaccesstoken,
    .switchRequest, .filtered, .readonlyclick, .attemptlock, .blockingcommandstatus,
    .toggletiledumping, .routetokensanitycheck]

/-- The first branch that has the token. -/
def Command.ofTokens (tokens : List Bytes) : Option Command :=
  Command.all.find? fun command => command.names.any (equals tokens 0)

theorem Command.name_of_ofTokens {tokens : List Bytes} {command : Command}
    (h : Command.ofTokens tokens = some command) :
    ∃ name ∈ command.names, tokens[0]? = some (ascii name) := by
  have hnames := List.find?_some h
  obtain ⟨name, hmem, hname⟩ := List.any_eq_true.mp hnames
  exact ⟨name, hmem, eq_of_beq hname⟩

/-! ## The branches -/

/-- `strtol` into an `int`, whatever was read. -/
def longValue (value : Bytes) : Int := ((strtol value).map fun r => toInt32 r.1).getD 0

/-- `std::stoi`, or it throws. -/
def stoi (s : Bytes) : Option Int :=
  match strtol s with
  | some (n, false) => if IsInt32 n then some n else none
  | _ => none

/-- `ParseVersion`, or it throws: the major and the minor number. -/
def parseVersion (version : Bytes) : Option (Int × Int) :=
  match words version 46 with
  | [] => some (-1, -1)
  | first :: rest => do
    let major ← stoi first
    let minor ← match words (token rest 0) 45 with
      | [] => some (-1)
      | second :: _ => stoi second
    some (major, minor)

/-- The arguments of `save`. -/
structure SaveOptions where
  dontTerminateEdit : Int
  dontSaveIfUnmodified : Int

/-- One argument, if decoding it does not throw. -/
def saveOption (env : Env) (options : SaveOptions) (argument : Bytes) : Option SaveOptions :=
  match words argument equalSign with
  | [name, value] =>
    if name = ascii "dontTerminateEdit" then
      some { options with dontTerminateEdit := longValue value }
    else if name = ascii "dontSaveIfUnmodified" then
      some { options with dontSaveIfUnmodified := longValue value }
    else if name = ascii "extendedData" then (env.decoders.uriDecode value).map fun _ => options
    else some options
  | _ => some options

def saveOptions (env : Env) (tokens : List Bytes) : Option SaveOptions :=
  [1, 2, 3].foldlM (fun options i => saveOption env options (token tokens i)) ⟨1, 1⟩

/-- The argument of `savetostorage`, which forces unless it says otherwise. -/
def saveForce (tokens : List Bytes) : Int :=
  match tokenString (ascii "force") (token tokens 1) with
  | some (b :: value) => longValue (b :: value)
  | _ => 1

/-- The tokens have the length and the integers. -/
def hasIntegers (tokens : List Bytes) (length : Nat) (names : List String) : Bool :=
  tokens.length == length &&
    names.zipIdx.all fun n => (tokenInteger (ascii n.1) (token tokens (n.2 + 1))).isSome

def visibleAreaFields : List String := ["x", "y", "width", "height"]

def clientZoomFields : List String :=
  ["tilepixelwidth", "tilepixelheight", "tiletwipwidth", "tiletwipheight"]

namespace ClientSession

variable (s : ClientSession)

/-- `ClientSession::loadDocument`. The kit is told what the flag is after the options. -/
def loadDocument (env : Env) (tokens : List Bytes) : ClientSession × List Effect :=
  if tokens.length < 2 then (s, [.error (ascii "error: cmd=load kind=syntax")])
  else
    match s.parseDocOptions env.decoders tokens with
    | (s', none) =>
      let flag := if s'.isReadOnly then "1" else "0"
      (s', env.forwardToChild (ascii "load url=" ++ env.publicUri ++ env.loadParameters.1 ++
        ascii (" readonly=" ++ flag) ++ env.loadParameters.2))
    | (s', some .syntaxException) => (s', [.error (ascii "error: cmd=load kind=uriinvalid")])
    | (s', some .invalidArgument) => (s', [])

/-- `ClientSession::attemptLock`: into edit mode only if the lock had failed. -/
def attemptLock (env : Env) : ClientSession :=
  if !s.isReadOnly then s
  else if !s.isLockFailed then s
  else if env.attemptLock s.isReadOnly then { s with isReadOnly := false }
  else s

/-- The branches that need a document. -/
def handleLoaded (env : Env) (buffer firstLine : Bytes) (tokens : List Bytes) :
    Option Command → ClientSession × List Effect
  | some .commandvalues =>
    match tokenString (ascii "command") (token tokens 1) with
    | none => (s, [.error (ascii "error: cmd=commandvalues kind=syntax")])
    | some command =>
      if tokens.length ≠ 2 then (s, [.error (ascii "error: cmd=commandvalues kind=syntax")])
      else if env.cmdValuesCached command then (s, [])
      else (s, env.forwardToChild buffer)
  | some .closedocument =>
    if s.isDocumentOwner && s.wopi (·.enableOwnerTermination) then
      (s, [.closeDocument (ascii "ownertermination")])
    else if env.isDocumentChangedInStorage then (s, [.stop])
    else (s, [])
  | some .versionrestore =>
    if equals tokens 1 "prerestore" then
      (s, [.closeDocument (ascii "versionrestore: prerestore_ack")])
    else (s, [])
  | some .renderfont =>
    match tokenString (ascii "font") (token tokens 1) with
    | none => (s, [.error (ascii "error: cmd=renderfont kind=syntax")])
    | some font =>
      let text := (tokenString (ascii "char") (token tokens 2)).getD []
      if env.fontCached (font ++ text) then (s, []) else (s, env.forwardToChild buffer)
  | some .status => (s, env.forwardToChild firstLine)
  | some .tile => (s, [.tiles])
  | some .save =>
    if !s.isWritable then (s, [.error (ascii "error: cmd=save kind=savefailed")])
    else
      match saveOptions env tokens with
      | none => (s, [])
      | some options =>
        (s, env.manualSave (options.dontTerminateEdit != 0) (options.dontSaveIfUnmodified != 0))
  | some .savetostorage => (s, [.uploadToStorage (saveForce tokens != 0)])
  | some .clientvisiblearea =>
    if hasIntegers tokens 5 visibleAreaFields ||
        hasIntegers tokens 7 (visibleAreaFields ++ ["splitx", "splity"]) then
      (s, env.forwardToChild buffer)
    else (s, [])
  | some .setclientpart =>
    if env.isTextDocument then (s, [])
    else if hasIntegers tokens 2 ["part"] then (s, env.forwardToChild buffer)
    else (s, [])
  | some .selectclientpart =>
    if env.isTextDocument then (s, [])
    else if hasIntegers tokens 3 ["part", "how"] then (s, env.forwardToChild buffer)
    else (s, [.error (ascii "error: cmd=selectclientpart kind=syntax")])
  | some .moveselectedclientparts =>
    if env.isTextDocument then (s, [])
    else if hasIntegers tokens 2 ["position"] then (s, env.forwardToChild buffer)
    else (s, [.error (ascii "error: cmd=moveselectedclientparts kind=syntax")])
  | some .clientzoom =>
    if hasIntegers tokens 5 clientZoomFields then (s, env.forwardToChild buffer) else (s, [])
  | some .tileprocessed =>
    if tokens.length = 2 ∧ (tokenString (ascii "wids") (token tokens 1)).isSome then (s, [.tiles])
    else (s, [])
  | some .removesession =>
    if 1 < tokens.length && (s.isDocumentOwner || !s.isReadOnly) && (stoi (token tokens 1)).isSome then
      (s, env.removeSession)
    else (s, [])
  | some .renamefile =>
    match tokenString (ascii "filename") (token tokens 1) with
    | none => (s, [.error (ascii "error: cmd=renamefile kind=syntax")])
    | some encodedWopiFilename =>
      match env.decoders.uriDecode encodedWopiFilename with
      | none => (s, [])
      | some wopiFilename => (s, env.handleRenameFileCommand wopiFilename)
  | some .dialogevent =>
    if 2 < tokens.length ∧ env.jsonId (tokens.drop 2).flatten = some (ascii "changepass") ∧
        s.wopiFileInfo.isSome ∧ !s.isDocumentOwner then
      (s, [.error (ascii "error: cmd=dialogevent kind=cantchangepass")])
    else (s, env.forwardToChild firstLine)
  | some .formfieldevent => (s, env.forwardToChild firstLine)
  | some .traceeventrecording =>
    if env.traceEventEnabled then (s, env.forwardToChild firstLine) else (s, [])
  | some .a11ystate =>
    if env.accessibilityEnabled then (s, env.forwardToChild buffer) else (s, [])
  | some .completefunction => (s, env.forwardToChild buffer)
  | some .resetaccesstoken =>
    if tokens.length ≠ 2 then (s, [.error (ascii "error: cmd=resetaccesstoken kind=syntax")])
    else (s, [])
  | some .switchRequest =>
    if tokens.length ≠ 2 then (s, [.error (ascii "error: cmd=switch_request kind=syntax")])
    else (s, env.switchMode (token tokens 1))
  | some .filtered =>
    if s.filterMessage firstLine then (s, env.forwardToChild buffer)
    else (s, env.forwardToChild (ascii "dummymsg"))
  | some .readonlyclick => (s, env.forwardToChild buffer)
  | some .attemptlock => (s.attemptLock env, [])
  | some .blockingcommandstatus => (s, env.forwardToChild buffer)
  | some .toggletiledumping => (s, env.forwardToChild buffer)
  -- answered by the session itself, or not at all
  | some .partpagerectangles => (s, [])
  | some .ping => (s, [])
  | some .loggingleveloverride => (s, [])
  | some .routetokensanitycheck => (s, [])
  | _ => (s, [.error (ascii "error: cmd=" ++ token tokens 0 ++ ascii " kind=unknown")])

def handleCommand (env : Env) (buffer firstLine : Bytes) (tokens : List Bytes)
    (command : Option Command) : ClientSession × List Effect :=
  match command with
  | some .urp => (s, env.forwardToChild buffer)
  | some .oxoolclient =>
    if tokens.length < 2 then
      (s, [.error (ascii "error: cmd=oxoolclient kind=badprotocolversion")])
    else
      match parseVersion (token tokens 1) with
      | none => (s, [])
      | some version =>
        if version = (0, 1) then (s, [])
        else (s, [.error (ascii "error: cmd=oxoolclient kind=badprotocolversion")])
  | some .versionbar => (s, [])
  | some .jserror => (s, [])
  | some .load =>
    if s.docURL ≠ [] then (s, [.error (ascii "error: cmd=load kind=docalreadyloaded")])
    else s.loadDocument env tokens
  | some .loadwithpassword => s.loadDocument env tokens
  | command =>
    if s.docURL = [] then
      (s, [.error (ascii "error: cmd=" ++ token tokens 0 ++ ascii " kind=nodocloaded")])
    else s.handleLoaded env buffer firstLine tokens command

/-- `_handleInput`. -/
def handleInput (env : Env) (buffer : Bytes) : ClientSession × List Effect :=
  let firstLine := buffer.takeWhile (· != Http.lf)
  let tokens := tokenize firstLine blank
  if !env.hasBroker then (s, [])
  else if tokens = [] then (s, [.error (ascii "error: cmd=empty kind=unknown")])
  else if equals tokens 0 "DEBUG" || equals tokens 0 "ERROR" || equals tokens 0 "TRACEEVENT" then
    (s, [])
  else
    match handleClientMessage env s firstLine tokens with
    | some effects => (s, effects)
    | none => s.handleCommand env buffer firstLine tokens (Command.ofTokens tokens)

end ClientSession

end Oxool.Wsd.Input
