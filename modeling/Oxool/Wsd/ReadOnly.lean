import Oxool.Wsd.ClientInput

/-!
# What a read-only session gets through

A viewer is a session that is read-only without comment permission. It may look: it may send what
`filterMessage` accepts and what only shows the document or asks about it. `CannotEdit` says of a session
that it is a viewer still and that the last message led to nothing else.

Where the chain of commands forwards a message without asking, the law fails, and it fails where the
client's own `readonly` option is taken for the host's. `Harmless` is the condition under which it does
not, one clause for each of these branches (`cannotEdit_always_iff`). A run has the messages of the client
and the rounds of the polling loop, which starts a rename that was asked for before.
-/

set_option autoImplicit false

namespace Oxool.Wsd.Input

open Oxool.Http (Bytes ascii)
open Oxool.Protocol

/-! ## The law -/

/-- What only shows the document: the load, the view, fonts and values, accessibility, logging, the
status, the hyperlink at a position and the clipboard. -/
def viewNames : List String :=
  ["load", "loadwithpassword", "status", "statusupdate", "commandvalues", "renderfont",
    "clientvisiblearea", "clientzoom", "setclientpart", "selectclientpart", "a11ystate",
    "sallogoverride", "traceeventrecording", "toggletiledumping", "initunostatus", "readonlyclick",
    "getclipboard"]

namespace ClientSession

variable (s : ClientSession)

/-- The message may get to the kit on behalf of the session. -/
def MayForward (message : Bytes) : Prop :=
  s.filterMessage message = true ∨ message = ascii "dummymsg" ∨
    ∃ name ∈ viewNames, (words message blank)[0]? = some (ascii name)

instance (message : Bytes) : Decidable (s.MayForward message) := inferInstanceAs (Decidable (_ ∨ _))

/-- An upload and a rename are for sessions that can write. -/
def May : Effect → Prop
  | .forwarded message => s.MayForward message
  | .uploadToStorage _ => s.isWritable = true
  | .startRename _ => s.isWritable = true
  | _ => True

instance : (effect : Effect) → Decidable (s.May effect)
  | .forwarded message => inferInstanceAs (Decidable (s.MayForward message))
  | .uploadToStorage _ => inferInstanceAs (Decidable (s.isWritable = true))
  | .startRename _ => inferInstanceAs (Decidable (s.isWritable = true))
  | .queueRename _ => .isTrue trivial
  | .error _ => .isTrue trivial
  | .startSwitching _ => .isTrue trivial
  | .closeDocument _ => .isTrue trivial
  | .stop => .isTrue trivial
  | .removeSession => .isTrue trivial
  | .tiles => .isTrue trivial

end ClientSession

/-- A session, and what its last message led to. -/
abbrev Client := ClientSession × List Effect

namespace Client

/-- The session is a viewer still, and what it did a viewer may do. -/
def CannotEdit (c : Client) : Prop := c.1.IsViewer ∧ ∀ effect ∈ c.2, c.1.May effect

instance (c : Client) : Decidable c.CannotEdit := inferInstanceAs (Decidable (_ ∧ _))

end Client

/-- A client, and the rename that it has asked for. -/
structure Connection where
  client : Client
  /-- `_renameFilename`, while it is the session's and the broker has not begun. -/
  renameFilename : Bytes

/-- What comes next, with what the surroundings say to it. -/
inductive Event where
  | message (env : Env) (buffer : Bytes)
  /-- The polling loop comes by. -/
  | poll (env : Env)
  /-- The rename of another session takes the place of this one. -/
  | renameOfAnother

/-- The rename that is kept after an effect. -/
def Effect.renameKept (filename : Bytes) : Effect → Bytes
  | .queueRename newFilename => newFilename
  | .startRename _ => []
  | _ => filename

namespace Connection

/-- A session that has sent nothing yet. -/
def start (s : ClientSession) : Connection := ⟨(s, []), []⟩

def act (c : Connection) : Event → Connection
  | .message env buffer =>
    let client := c.client.1.handleInput env buffer
    ⟨client, client.2.foldl Effect.renameKept c.renameFilename⟩
  | .poll env =>
    let effects := env.pollRename c.renameFilename
    ⟨(c.client.1, effects), effects.foldl Effect.renameKept c.renameFilename⟩
  | .renameOfAnother => ⟨(c.client.1, []), []⟩

/-- The last event led to nothing that a viewer may not do. -/
def CannotEdit (c : Connection) : Prop := c.client.CannotEdit

instance (c : Connection) : Decidable c.CannotEdit := inferInstanceAs (Decidable (Client.CannotEdit _))

end Connection

/-! ## The condition -/

namespace ClientSession

variable (s : ClientSession) (env : Env) (buffer firstLine : Bytes) (tokens : List Bytes)

/-- The options of a load message do not end with editing. -/
def LoadHarmless : Prop :=
  2 ≤ tokens.length → (readOnlyValues env.decoders (docOptions tokens)).getLast? ≠ some (ascii "0")

instance : Decidable (LoadHarmless env tokens) := inferInstanceAs (Decidable (_ → _))

/-- The extensions forward text and pictures, and the modules what they like. -/
structure ExtensionHarmless : Prop where
  text : equals tokens 0 "writetext" = true →
    env.lokitVersionHas "postWindowExtTextInputEventEnhance" = true → env.takes firstLine = false
  picture : equals tokens 0 "insertpicture" = true ∨ equals tokens 0 "changepicture" = true →
    env.takes firstLine = false
  module : ∀ messages ∈ moduleForwards env tokens, ∀ message ∈ messages,
    env.takes message = true → s.MayForward message

instance : Decidable (s.ExtensionHarmless env firstLine tokens) :=
  decidable_of_iff (_ ∧ _ ∧ _) ⟨fun h => ⟨h.1, h.2.1, h.2.2⟩, fun h => ⟨h.1, h.2, h.3⟩⟩

/-- The name that a `renamefile` asks for. -/
def renameTarget : Option Bytes :=
  (tokenString (ascii "filename") (token tokens 1)).bind env.decoders.uriDecode

/-- The branches that need a document and do not ask the filter. The broker saves by a message of the
session. -/
def LoadedHarmless : Option Command → Prop
  | some .save => s.isWritable = true → (saveOptions env tokens).isSome = true →
      env.activity = .save ∨ env.isKnown = false
  | some .savetostorage => s.isWritable = true
  | some .moveselectedclientparts => env.isTextDocument = false →
      hasIntegers tokens 2 ["position"] = true → env.takes buffer = false
  | some .renamefile => ∀ filename ∈ renameTarget env tokens, filename ≠ [] → env.activity = .none →
      s.isWritable = true ∧ env.isKnown = false
  | some .dialogevent =>
      (2 < tokens.length ∧ env.jsonId (tokens.drop 2).flatten = some (ascii "changepass") ∧
        s.wopiFileInfo.isSome ∧ !s.isDocumentOwner) ∨ env.takes firstLine = false
  | some .formfieldevent => equals tokens 0 "sallogoverride" = true ∨ env.takes firstLine = false
  | some .completefunction => env.takes buffer = false
  | some .blockingcommandstatus => env.takes buffer = false
  | some .switchRequest => tokens.length = 2 → token tokens 1 = ascii "offline" →
      env.sessionCount ≤ 1 → env.activity = .none → env.isKnown = false
  | _ => True

instance : (command : Option Command) →
    Decidable (s.LoadedHarmless env buffer firstLine tokens command)
  | some .save => inferInstanceAs (Decidable (_ → _ → _ ∨ _))
  | some .savetostorage => inferInstanceAs (Decidable (s.isWritable = true))
  | some .moveselectedclientparts => inferInstanceAs (Decidable (_ → _ → _))
  | some .renamefile => inferInstanceAs (Decidable (∀ filename ∈ renameTarget env tokens, _))
  | some .dialogevent => inferInstanceAs (Decidable (_ ∨ _))
  | some .formfieldevent => inferInstanceAs (Decidable (_ ∨ _))
  | some .completefunction => inferInstanceAs (Decidable (env.takes buffer = false))
  | some .blockingcommandstatus => inferInstanceAs (Decidable (env.takes buffer = false))
  | some .switchRequest => inferInstanceAs (Decidable (_ → _ → _ → _ → _))
  | some .urp | some .oxoolclient | some .versionbar | some .jserror | some .load
  | some .loadwithpassword | some .commandvalues | some .closedocument | some .versionrestore
  | some .partpagerectangles | some .ping | some .renderfont | some .status | some .tile
  | some .clientvisiblearea | some .setclientpart | some .selectclientpart | some .clientzoom
  | some .tileprocessed | some .removesession | some .loggingleveloverride
  | some .traceeventrecording | some .a11ystate | some .resetaccesstoken | some .filtered
  | some .readonlyclick | some .attemptlock | some .toggletiledumping
  | some .routetokensanitycheck | none => .isTrue trivial

/-- The branches of the chain. -/
def CommandHarmless : Option Command → Prop
  | some .urp => env.takes buffer = false
  | some .load => s.docURL = [] → LoadHarmless env tokens
  | some .loadwithpassword => LoadHarmless env tokens
  | command => s.docURL ≠ [] → s.LoadedHarmless env buffer firstLine tokens command

instance : (command : Option Command) →
    Decidable (s.CommandHarmless env buffer firstLine tokens command)
  | some .urp => inferInstanceAs (Decidable (env.takes buffer = false))
  | some .load => inferInstanceAs (Decidable (_ → _))
  | some .loadwithpassword => inferInstanceAs (Decidable (LoadHarmless env tokens))
  | some .oxoolclient | some .versionbar | some .jserror | some .commandvalues
  | some .closedocument | some .versionrestore | some .partpagerectangles | some .ping
  | some .renderfont | some .status | some .tile | some .save | some .savetostorage
  | some .clientvisiblearea | some .setclientpart | some .selectclientpart
  | some .moveselectedclientparts | some .clientzoom | some .tileprocessed | some .removesession
  | some .renamefile | some .dialogevent | some .formfieldevent | some .loggingleveloverride
  | some .traceeventrecording | some .a11ystate | some .completefunction | some .resetaccesstoken
  | some .switchRequest | some .filtered | some .readonlyclick | some .attemptlock
  | some .blockingcommandstatus | some .toggletiledumping | some .routetokensanitycheck
  | none => inferInstanceAs (Decidable (_ → _))

/-- The message does not get past the filter. -/
def Harmless : Prop :=
  let firstLine := buffer.takeWhile (· != Http.lf)
  let tokens := tokenize firstLine blank
  env.hasBroker = true → tokens ≠ [] →
    (equals tokens 0 "DEBUG" || equals tokens 0 "ERROR" || equals tokens 0 "TRACEEVENT") = false →
    if (handleClientMessage env s firstLine tokens).isSome then
      s.ExtensionHarmless env firstLine tokens
    else s.CommandHarmless env buffer firstLine tokens (Command.ofTokens tokens)

instance : Decidable (s.Harmless env buffer) := inferInstanceAs (Decidable (_ → _ → _ → ite _ _ _))

/-- The polling loop does not start the session's rename, or the session can write and nothing is saved
for it. -/
def PollHarmless (filename : Bytes) : Prop :=
  env.activity = .none → filename ≠ [] → s.isWritable = true ∧ env.isKnown = false

instance (filename : Bytes) : Decidable (s.PollHarmless env filename) :=
  inferInstanceAs (Decidable (_ → _ → _ ∧ _))

end ClientSession

/-- Nothing gets past the filter in this event. -/
def Connection.Harmless (c : Connection) : Event → Prop
  | .message env buffer => c.client.1.Harmless env buffer
  | .poll env => c.client.1.PollHarmless env c.renameFilename
  | .renameOfAnother => True

instance (c : Connection) : (event : Event) → Decidable (c.Harmless event)
  | .message env buffer => inferInstanceAs (Decidable (c.client.1.Harmless env buffer))
  | .poll env => inferInstanceAs (Decidable (c.client.1.PollHarmless env c.renameFilename))
  | .renameOfAnother => .isTrue trivial

namespace ClientSession

/-! ## What a viewer may forward -/

variable {s : ClientSession} {env : Env} {buffer firstLine : Bytes} {tokens : List Bytes} {message : Bytes} {effects : List Effect}

/-- What is forwarded without asking. -/
def unguardedNames : List String :=
  ["urp", "writetext", "insertpicture", "changepicture", "moveselectedclientparts", "dialogevent",
    "formfieldevent", "contentcontrolevent", "completefunction", "blockingcommandstatus"]

theorem unguarded_ne : ∀ name ∈ unguardedNames,
    ∀ other ∈ "dummymsg" :: (filteredNames ++ viewNames), ascii name ≠ ascii other := by
  have hbytes : ∀ bytes ∈ unguardedNames.map ascii,
      bytes ∉ ("dummymsg" :: (filteredNames ++ viewNames)).map ascii := by
    simp only [unguardedNames, filteredNames, viewNames, List.cons_append, List.nil_append, List.map_cons,
      List.map_nil]
    repeat rw [Http.ascii_ofList]
    decide +kernel
  intro name hname other hother heq
  exact hbytes _ (List.mem_map_of_mem hname) (heq ▸ List.mem_map_of_mem hother)

theorem words_dummymsg : words (ascii "dummymsg") blank = [ascii "dummymsg"] := by decide +kernel

theorem mayForward_of_view {name : String} (hname : name ∈ viewNames)
    (hfirst : (words message blank)[0]? = some (ascii name)) : s.MayForward message :=
  .inr (.inr ⟨name, hname, hfirst⟩)

theorem not_mayForward_of_unguarded (hviewer : s.IsViewer) {name : String}
    (hname : name ∈ unguardedNames) (hfirst : (words message blank)[0]? = some (ascii name)) :
    ¬ s.MayForward message := by
  have hne := unguarded_ne name hname
  rintro (hfilter | rfl | ⟨other, hother, hfirst'⟩)
  · have hrefused : s.filterMessage message = false := by
      apply s.filterMessage_of_not_mem hviewer.1
      intro other hother heq
      rw [hfirst] at heq
      apply hne other _ (Option.some.inj heq)
      exact List.mem_cons_of_mem _ (List.mem_append_left _ hother)
    rw [hrefused] at hfilter
    cases hfilter
  · rw [words_dummymsg] at hfirst
    exact hne "dummymsg" List.mem_cons_self (Option.some.inj hfirst).symm
  · rw [hfirst] at hfirst'
    apply hne other _ (Option.some.inj hfirst')
    exact List.mem_cons_of_mem _ (List.mem_append_right _ hother)

/-- A message that starts with a word and a blank has it as its first word. -/
theorem words_append {w rest : Bytes} (hw : IsToken blank w) :
    words (w ++ blank :: rest) blank = w :: words rest blank := by
  have hline : ∀ b ∈ w, (b != Http.lf) = true := fun b hb => bne_iff_ne.mpr (hw.2 b hb).2
  rw [words, List.takeWhile_append_of_pos hline, List.takeWhile_cons_of_pos (by decide),
    pieces_append (by decide), hw.pieces_eq]
  rfl

/-- The first words of the broker's own `uno` message. -/
theorem saveCommand_eq (dontTerminateEdit dontSaveIfUnmodified : Bool) :
    ∃ rest, Env.saveCommand dontTerminateEdit dontSaveIfUnmodified =
      ascii "uno" ++ blank :: (ascii ".uno:Save" ++ blank :: rest) := by
  have hstart : ascii "uno .uno:Save \x7b" =
      ascii "uno" ++ blank :: (ascii ".uno:Save" ++ blank :: [123]) := by decide +kernel
  rw [Env.saveCommand, Http.ascii_append, Http.ascii_append, Http.ascii_append, hstart]
  simp only [List.append_assoc, List.cons_append]
  exact ⟨_, rfl⟩

theorem words_saveCommand (dontTerminateEdit dontSaveIfUnmodified : Bool) :
    (words (Env.saveCommand dontTerminateEdit dontSaveIfUnmodified) blank).take 2 =
      [ascii "uno", ascii ".uno:Save"] := by
  obtain ⟨rest, hrest⟩ := saveCommand_eq dontTerminateEdit dontSaveIfUnmodified
  rw [hrest, words_append (by decide), words_append (by decide)]
  rfl

/-- The filter refuses a save. -/
theorem not_mayForward_saveCommand (hviewer : s.IsViewer)
    (dontTerminateEdit dontSaveIfUnmodified : Bool) :
    ¬ s.MayForward (Env.saveCommand dontTerminateEdit dontSaveIfUnmodified) := by
  have hwords := words_saveCommand dontTerminateEdit dontSaveIfUnmodified
  have h0 : (words (Env.saveCommand dontTerminateEdit dontSaveIfUnmodified) blank)[0]? =
      some (ascii "uno") := by
    rw [← List.getElem?_take_of_lt (by decide : 0 < 2), hwords]
    rfl
  have h1 : (words (Env.saveCommand dontTerminateEdit dontSaveIfUnmodified) blank)[1]? =
      some (ascii ".uno:Save") := by
    rw [← List.getElem?_take_of_lt (by decide : 1 < 2), hwords]
    rfl
  have hview : ∀ name ∈ viewNames, ascii "uno" ≠ ascii name := by decide +kernel
  rintro (hfilter | heq | ⟨name, hname, hfirst⟩)
  · simp +decide [filterMessage, equals, h0, h1, hviewer.1, hviewer.2] at hfilter
  · rw [heq, words_dummymsg] at h0
    exact absurd (Option.some.inj h0) (by decide +kernel)
  · rw [h0] at hfirst
    exact hview name hname (Option.some.inj hfirst)

/-- The broker sends a save unless it does not know the session. -/
theorem takes_saveCommand (dontTerminateEdit dontSaveIfUnmodified : Bool) :
    env.takes (Env.saveCommand dontTerminateEdit dontSaveIfUnmodified) = env.isKnown := by
  obtain ⟨rest, hrest⟩ := saveCommand_eq dontTerminateEdit dontSaveIfUnmodified
  have huno : ascii "uno" = [117, 110, 111] := by decide +kernel
  have hurp : ascii "urp " = [117, 114, 112, 32] := by decide +kernel
  have htextinput : ascii "textinput " = [116, 101, 120, 116, 105, 110, 112, 117, 116, 32] := by
    decide +kernel
  have hmouse : ascii "mouse " = [109, 111, 117, 115, 101, 32] := by decide +kernel
  have hkey : ascii "key " = [107, 101, 121, 32] := by decide +kernel
  have huserinactive : ascii "userinactive" =
      [117, 115, 101, 114, 105, 110, 97, 99, 116, 105, 118, 101] := by decide +kernel
  have huseractive : ascii "useractive" = [117, 115, 101, 114, 97, 99, 116, 105, 118, 101] := by
    decide +kernel
  rw [hrest, huno]
  simp [Env.takes, Env.ignores, List.isPrefixOf_cons_cons, hurp, htextinput, hmouse, hkey, huserinactive,
    huseractive]

theorem mayForward_loadMessage (rest : Bytes) : s.MayForward (ascii "load url=" ++ rest) := by
  have hsplit : ascii "load url=" ++ rest = ascii "load" ++ blank :: (ascii "url=" ++ rest) := rfl
  apply mayForward_of_view (List.mem_cons_self : "load" ∈ viewNames)
  rw [hsplit, words_append (by decide)]
  rfl

theorem mayForward_getclipboard : s.MayForward (ascii "getclipboard") :=
  mayForward_of_view (by decide : "getclipboard" ∈ viewNames) (by decide +kernel)

/-- A branch whose messages only show the document. -/
theorem mayForward_of_command {command : Command} (hcommand : Command.ofTokens tokens = some command)
    (hview : ∀ name ∈ command.names, name ∈ viewNames) (hwords : words message blank = tokens) :
    s.MayForward message := by
  obtain ⟨name, hname, hfirst⟩ := Command.name_of_ofTokens hcommand
  rw [← hwords] at hfirst
  exact mayForward_of_view (hview name hname) hfirst

/-- A branch that a viewer may not use. -/
theorem not_mayForward_of_command (hviewer : s.IsViewer) {command : Command}
    (hcommand : Command.ofTokens tokens = some command)
    (hunguarded : ∀ name ∈ command.names, name ∈ unguardedNames)
    (hwords : words message blank = tokens) : ¬ s.MayForward message := by
  obtain ⟨name, hname, hfirst⟩ := Command.name_of_ofTokens hcommand
  rw [← hwords] at hfirst
  exact not_mayForward_of_unguarded hviewer (hunguarded name hname) hfirst

/-! ## The effects of a branch -/

theorem cannotEdit_iff (hviewer : s.IsViewer) :
    Client.CannotEdit (s, effects) ↔ ∀ effect ∈ effects, s.May effect := and_iff_right hviewer

theorem cannotEdit_nil (hviewer : s.IsViewer) : Client.CannotEdit (s, []) :=
  ⟨hviewer, fun _ heffect => absurd heffect List.not_mem_nil⟩

theorem cannotEdit_singleton (hviewer : s.IsViewer) {effect : Effect} (h : s.May effect) :
    Client.CannotEdit (s, [effect]) :=
  (cannotEdit_iff hviewer).mpr (List.forall_mem_singleton.mpr h)

theorem forall_forward_iff : (∀ effect ∈ env.forwardToChild message, s.May effect) ↔
    (env.takes message = true → s.MayForward message) := by
  rw [Env.forwardToChild]
  cases env.takes message with
  | true =>
    rw [if_pos rfl, List.forall_mem_singleton]
    exact ⟨fun h _ => h, fun h => h rfl⟩
  | false => exact iff_of_true (fun _ heffect => absurd heffect List.not_mem_nil) nofun

theorem cannotEdit_forward (hviewer : s.IsViewer) (hmay : s.MayForward message) :
    Client.CannotEdit (s, env.forwardToChild message) :=
  (cannotEdit_iff hviewer).mpr (forall_forward_iff.mpr fun _ => hmay)

theorem forall_forward_iff_of_not (hnot : ¬ s.MayForward message) :
    (∀ effect ∈ env.forwardToChild message, s.May effect) ↔ env.takes message = false := by
  rw [forall_forward_iff, ← Bool.not_eq_true]
  exact ⟨fun h htakes => hnot (h htakes), fun h htakes => absurd htakes h⟩

theorem cannotEdit_forward_iff (hviewer : s.IsViewer) (hnot : ¬ s.MayForward message) :
    Client.CannotEdit (s, env.forwardToChild message) ↔ env.takes message = false :=
  (cannotEdit_iff hviewer).trans (forall_forward_iff_of_not hnot)

/-- A save goes out of a viewer's session only if the broker does not know it. -/
theorem forall_sendUnoSave_iff (hviewer : s.IsViewer) (dontTerminateEdit dontSaveIfUnmodified : Bool) :
    (∀ effect ∈ env.sendUnoSave dontTerminateEdit dontSaveIfUnmodified, s.May effect) ↔
      env.isKnown = false := by
  rw [Env.sendUnoSave, forall_forward_iff_of_not
    (not_mayForward_saveCommand hviewer dontTerminateEdit dontSaveIfUnmodified), takes_saveCommand]

theorem forall_manualSave_iff (hviewer : s.IsViewer) (dontTerminateEdit dontSaveIfUnmodified : Bool) :
    (∀ effect ∈ env.manualSave dontTerminateEdit dontSaveIfUnmodified, s.May effect) ↔
      env.activity = .save ∨ env.isKnown = false := by
  rw [Env.manualSave]
  by_cases hsaving : env.activity = .save
  · rw [if_pos hsaving]
    exact iff_of_true (fun _ heffect => absurd heffect List.not_mem_nil) (.inl hsaving)
  · rw [if_neg hsaving, forall_sendUnoSave_iff hviewer]
    exact (or_iff_right hsaving).symm

theorem forall_startRename_iff (hviewer : s.IsViewer) (filename : Bytes) :
    (∀ effect ∈ env.startRenameFileCommand filename, s.May effect) ↔
      s.isWritable = true ∧ env.isKnown = false := by
  rw [Env.startRenameFileCommand, List.forall_mem_cons, forall_sendUnoSave_iff hviewer]
  rfl

theorem forall_rename_iff (hviewer : s.IsViewer) (filename : Bytes) :
    (∀ effect ∈ env.handleRenameFileCommand filename, s.May effect) ↔
      (filename ≠ [] → env.activity = .none → s.isWritable = true ∧ env.isKnown = false) := by
  rw [Env.handleRenameFileCommand]
  by_cases hempty : filename = []
  · rw [if_pos hempty, List.forall_mem_singleton]
    exact iff_of_true trivial fun hne => absurd hempty hne
  · rw [if_neg hempty]
    by_cases hidle : env.activity = .none
    · have hrenaming : ¬ (env.activity = .rename ∧ env.renameFilename ≠ filename) := by
        rintro ⟨hrename, -⟩
        rw [hidle] at hrename
        cases hrename
      rw [if_neg hrenaming, if_pos hidle, forall_startRename_iff hviewer]
      exact ⟨fun h _ _ => h, fun h => h hempty hidle⟩
    · refine iff_of_true ?_ fun _ hnone => absurd hnone hidle
      rw [if_neg hidle]
      split
      · exact List.forall_mem_singleton.mpr trivial
      · split
        · exact fun _ heffect => absurd heffect List.not_mem_nil
        · exact List.forall_mem_singleton.mpr trivial

theorem forall_pollRename_iff (hviewer : s.IsViewer) (filename : Bytes) :
    (∀ effect ∈ env.pollRename filename, s.May effect) ↔ s.PollHarmless env filename := by
  rw [Env.pollRename, PollHarmless]
  split
  · rename_i hstarts
    rw [forall_startRename_iff hviewer]
    exact ⟨fun h _ _ => h, fun h => h hstarts.1 hstarts.2⟩
  · rename_i hstarts
    exact iff_of_true (fun _ heffect => absurd heffect List.not_mem_nil)
      fun hidle hname => absurd ⟨hidle, hname⟩ hstarts

theorem forall_switch_iff (hviewer : s.IsViewer) (mode : Bytes) :
    (∀ effect ∈ env.switchMode mode, s.May effect) ↔
      (mode = ascii "offline" → env.sessionCount ≤ 1 → env.activity = .none →
        env.isKnown = false) := by
  rw [Env.switchMode]
  by_cases honline : mode = ascii "online"
  · have hne : ascii "online" ≠ ascii "offline" := by decide
    rw [if_pos honline]
    refine iff_of_true ?_ fun hoffline => absurd (honline.symm.trans hoffline) hne
    split
    · exact List.forall_mem_singleton.mpr trivial
    · exact fun _ heffect => absurd heffect List.not_mem_nil
  · rw [if_neg honline]
    by_cases hoffline : mode = ascii "offline"
    · rw [if_pos hoffline]
      by_cases hmany : 1 < env.sessionCount
      · rw [if_pos hmany]
        exact iff_of_true (List.forall_mem_singleton.mpr trivial)
          fun _ hfew => absurd hfew (Nat.not_le_of_lt hmany)
      · rw [if_neg hmany]
        by_cases hidle : env.activity = .none
        · rw [if_pos hidle, List.forall_mem_cons, forall_sendUnoSave_iff hviewer]
          exact ⟨fun h _ _ _ => h.2,
            fun h => ⟨trivial, h hoffline (Nat.le_of_not_lt hmany) hidle⟩⟩
        · rw [if_neg hidle]
          exact iff_of_true (fun _ heffect => absurd heffect List.not_mem_nil)
            fun _ _ hnone => absurd hnone hidle
    · rw [if_neg hoffline]
      exact iff_of_true (fun _ heffect => absurd heffect List.not_mem_nil)
        fun h => absurd h hoffline

/-! ## The chain -/

/-- The session that takes its leave. -/
theorem cannotEdit_removeSession (hviewer : s.IsViewer) : Client.CannotEdit (s, env.removeSession) := by
  rw [cannotEdit_iff hviewer, Env.removeSession, List.forall_mem_append, List.forall_mem_singleton]
  refine ⟨?_, trivial⟩
  split
  · exact forall_forward_iff.mpr fun _ => mayForward_getclipboard
  · exact fun _ heffect => absurd heffect List.not_mem_nil

/-- No lock lets a viewer edit. -/
theorem attemptLock_of_isReadOnly (h : s.isReadOnly = true) : s.attemptLock env = s := by
  simp [attemptLock, Env.attemptLock, h]

section Branches

variable (hviewer : s.IsViewer)

include hviewer

/-- A branch that forwards what only shows the document. -/
theorem cannotEdit_forward_view (hbuffer : words buffer blank = tokens) {command : Command}
    (hcommand : Command.ofTokens tokens = some command) (hnames : ∀ name ∈ command.names, name ∈ viewNames) :
    Client.CannotEdit (s, env.forwardToChild buffer) :=
  cannotEdit_forward hviewer (mayForward_of_command hcommand hnames hbuffer)

/-- A branch that forwards without asking. -/
theorem cannotEdit_forward_unguarded_iff (hbuffer : words buffer blank = tokens) {command : Command}
    (hcommand : Command.ofTokens tokens = some command)
    (hnames : ∀ name ∈ command.names, name ∈ unguardedNames) :
    Client.CannotEdit (s, env.forwardToChild buffer) ↔ env.takes buffer = false :=
  cannotEdit_forward_iff hviewer (not_mayForward_of_command hviewer hcommand hnames hbuffer)

theorem cannotEdit_error (text : Bytes) : Client.CannotEdit (s, [.error text]) :=
  cannotEdit_singleton hviewer trivial

theorem cannotEdit_save_iff :
    Client.CannotEdit (s.handleLoaded env buffer firstLine tokens (some .save)) ↔
      s.LoadedHarmless env buffer firstLine tokens (some .save) := by
  unfold handleLoaded LoadedHarmless
  dsimp only
  cases hwritable : s.isWritable with
  | false => exact iff_of_true (cannotEdit_error hviewer _) nofun
  | true =>
    rw [if_neg (by decide)]
    cases hoptions : saveOptions env tokens with
    | none => exact iff_of_true (cannotEdit_nil hviewer) fun _ hsome => nomatch hsome
    | some options =>
      rw [cannotEdit_iff hviewer, forall_manualSave_iff hviewer]
      exact ⟨fun h _ _ => h, fun h => h rfl rfl⟩

theorem cannotEdit_moveselectedclientparts_iff (hbuffer : words buffer blank = tokens)
    (hcommand : Command.ofTokens tokens = some .moveselectedclientparts) :
    Client.CannotEdit (s.handleLoaded env buffer firstLine tokens (some .moveselectedclientparts)) ↔
      s.LoadedHarmless env buffer firstLine tokens (some .moveselectedclientparts) := by
  unfold handleLoaded LoadedHarmless
  dsimp only
  cases htext : env.isTextDocument with
  | true => exact iff_of_true (cannotEdit_nil hviewer) nofun
  | false =>
    rw [if_neg (by decide)]
    cases hintegers : hasIntegers tokens 2 ["position"] with
    | false => exact iff_of_true (cannotEdit_error hviewer _) nofun
    | true =>
      rw [if_pos rfl, cannotEdit_forward_unguarded_iff hviewer hbuffer hcommand (by decide)]
      exact ⟨fun h _ _ => h, fun h => h rfl rfl⟩

theorem cannotEdit_renamefile_iff :
    Client.CannotEdit (s.handleLoaded env buffer firstLine tokens (some .renamefile)) ↔
      s.LoadedHarmless env buffer firstLine tokens (some .renamefile) := by
  unfold handleLoaded LoadedHarmless
  dsimp only
  unfold renameTarget
  cases hfilename : tokenString (ascii "filename") (token tokens 1) with
  | none => exact iff_of_true (cannotEdit_error hviewer _) nofun
  | some encodedWopiFilename =>
    rw [Option.bind_some]
    dsimp only
    cases env.decoders.uriDecode encodedWopiFilename with
    | none => exact iff_of_true (cannotEdit_nil hviewer) nofun
    | some wopiFilename =>
      rw [cannotEdit_iff hviewer, forall_rename_iff hviewer]
      constructor
      · intro h filename hmem
        obtain rfl := Option.mem_some.mp hmem
        exact h
      · intro h
        exact h wopiFilename rfl

theorem cannotEdit_dialogevent_iff (hline : words firstLine blank = tokens)
    (hcommand : Command.ofTokens tokens = some .dialogevent) :
    Client.CannotEdit (s.handleLoaded env buffer firstLine tokens (some .dialogevent)) ↔
      s.LoadedHarmless env buffer firstLine tokens (some .dialogevent) := by
  unfold handleLoaded LoadedHarmless
  dsimp only
  split
  · rename_i hpassword
    exact iff_of_true (cannotEdit_error hviewer _) (.inl hpassword)
  · rename_i hpassword
    rw [cannotEdit_forward_iff hviewer
      (not_mayForward_of_command hviewer hcommand (by decide) hline)]
    exact (or_iff_right hpassword).symm

/-- The branch has a name that shows the document among those that do not. -/
theorem cannotEdit_formfieldevent_iff (hline : words firstLine blank = tokens)
    (hcommand : Command.ofTokens tokens = some .formfieldevent) :
    Client.CannotEdit (s.handleLoaded env buffer firstLine tokens (some .formfieldevent)) ↔
      s.LoadedHarmless env buffer firstLine tokens (some .formfieldevent) := by
  unfold handleLoaded LoadedHarmless
  dsimp only
  by_cases hsal : equals tokens 0 "sallogoverride" = true
  · have hmay : s.MayForward firstLine := by
      apply mayForward_of_view (by decide : "sallogoverride" ∈ viewNames)
      rw [hline]
      exact eq_of_beq hsal
    exact iff_of_true (cannotEdit_forward hviewer hmay) (.inl hsal)
  · obtain ⟨name, hname, hfirst⟩ := Command.name_of_ofTokens hcommand
    have hmem : name ∈ unguardedNames := by
      rcases List.mem_cons.mp hname with rfl | hname
      · decide
      · rcases List.mem_cons.mp hname with rfl | hname
        · exact absurd (beq_iff_eq.mpr hfirst) hsal
        · rw [List.mem_singleton.mp hname]
          decide
    rw [← hline] at hfirst
    rw [cannotEdit_forward_iff hviewer (not_mayForward_of_unguarded hviewer hmem hfirst)]
    exact (or_iff_right hsal).symm

theorem cannotEdit_switchRequest_iff :
    Client.CannotEdit (s.handleLoaded env buffer firstLine tokens (some .switchRequest)) ↔
      s.LoadedHarmless env buffer firstLine tokens (some .switchRequest) := by
  unfold handleLoaded LoadedHarmless
  dsimp only
  by_cases hlength : tokens.length = 2
  · rw [if_neg (not_not.mpr hlength), cannotEdit_iff hviewer, forall_switch_iff hviewer]
    exact ⟨fun h _ => h, fun h => h hlength⟩
  · rw [if_pos hlength]
    exact iff_of_true (cannotEdit_error hviewer _) fun heq => absurd heq hlength

end Branches

/-- The commands that only look, and whose message goes to the kit as it is. -/
def viewCommands : List Command :=
  [.commandvalues, .renderfont, .clientvisiblearea, .setclientpart, .selectclientpart, .clientzoom,
    .a11ystate, .readonlyclick, .toggletiledumping]

theorem names_viewCommands :
    ∀ command ∈ viewCommands, ∀ name ∈ command.names, name ∈ viewNames := by
  decide

/-- The branches that only look. -/
theorem cannotEdit_view (hviewer : s.IsViewer) (hbuffer : words buffer blank = tokens)
    {command : Command} (hcommand : Command.ofTokens tokens = some command)
    (hview : command ∈ viewCommands) :
    Client.CannotEdit (s.handleLoaded env buffer firstLine tokens (some command)) := by
  have hforward : Client.CannotEdit (s, env.forwardToChild buffer) :=
    cannotEdit_forward_view hviewer hbuffer hcommand (names_viewCommands command hview)
  have hnil := cannotEdit_nil hviewer
  have herror := cannotEdit_error hviewer
  simp only [viewCommands, List.mem_cons, List.not_mem_nil, or_false] at hview
  rcases hview with rfl | rfl | rfl | rfl | rfl | rfl | rfl | rfl | rfl
  all_goals dsimp only [handleLoaded]
  -- a command with a syntax, and one whose answer may be at hand
  · split
    · exact herror _
    · split
      · exact herror _
      · split
        · exact hnil
        · exact hforward
  · split
    · exact herror _
    · split
      · exact hnil
      · exact hforward
  · split
    · exact hforward
    · exact hnil
  -- a text has no parts
  · split
    · exact hnil
    · split
      · exact hforward
      · exact hnil
  · split
    · exact hnil
    · split
      · exact hforward
      · exact herror _
  · split
    · exact hforward
    · exact hnil
  · split
    · exact hforward
    · exact hnil
  · exact hforward
  · exact hforward

/-- The commands that the session or the broker deals with alone. -/
def ownCommands : List Command :=
  [.closedocument, .versionrestore, .tile, .tileprocessed, .removesession, .resetaccesstoken,
    .attemptlock, .partpagerectangles, .ping, .loggingleveloverride, .routetokensanitycheck]

/-- The branches that forward nothing of the client. -/
theorem cannotEdit_own (hviewer : s.IsViewer) {command : Command} (hown : command ∈ ownCommands) :
    Client.CannotEdit (s.handleLoaded env buffer firstLine tokens (some command)) := by
  have hnil := cannotEdit_nil hviewer
  simp only [ownCommands, List.mem_cons, List.not_mem_nil, or_false] at hown
  rcases hown with rfl | rfl | rfl | rfl | rfl | rfl | rfl | rfl | rfl | rfl | rfl
  all_goals dsimp only [handleLoaded]
  -- closing, for the owner and in the face of a conflict
  · split
    · exact cannotEdit_singleton hviewer trivial
    · split
      · exact cannotEdit_singleton hviewer trivial
      · exact hnil
  · split
    · exact cannotEdit_singleton hviewer trivial
    · exact hnil
  · exact cannotEdit_singleton hviewer trivial
  · split
    · exact cannotEdit_singleton hviewer trivial
    · exact hnil
  · split
    · exact cannotEdit_removeSession hviewer
    · exact hnil
  · split
    · exact cannotEdit_error hviewer _
    · exact hnil
  · rw [attemptLock_of_isReadOnly hviewer.1]
    exact hnil
  all_goals exact hnil

/-- The branches that hand the first line on, and the one that asks the filter. -/
theorem cannotEdit_filtered (hviewer : s.IsViewer) (hbuffer : words buffer blank = tokens)
    (hline : words firstLine blank = tokens) :
    Client.CannotEdit (s.handleLoaded env buffer firstLine tokens (some .filtered)) := by
  dsimp only [handleLoaded]
  split
  · rename_i hfilter
    have hsame := s.filterMessage_congr (hbuffer.trans hline.symm)
    exact cannotEdit_forward hviewer (.inl (hsame.trans hfilter))
  · exact cannotEdit_forward hviewer (.inr (.inl rfl))

theorem cannotEdit_traceeventrecording (hviewer : s.IsViewer) (hline : words firstLine blank = tokens)
    (hcommand : Command.ofTokens tokens = some .traceeventrecording) :
    Client.CannotEdit (s.handleLoaded env buffer firstLine tokens (some .traceeventrecording)) := by
  dsimp only [handleLoaded]
  split
  · exact cannotEdit_forward hviewer (mayForward_of_command hcommand (by decide) hline)
  · exact cannotEdit_nil hviewer

/-- **A branch leaves a viewer one exactly if it is harmless.** Most of them are in any case. -/
theorem cannotEdit_handleLoaded_iff (hviewer : s.IsViewer) (hbuffer : words buffer blank = tokens)
    (hline : words firstLine blank = tokens) {command : Option Command}
    (hcommand : Command.ofTokens tokens = command) :
    Client.CannotEdit (s.handleLoaded env buffer firstLine tokens command) ↔
      s.LoadedHarmless env buffer firstLine tokens command := by
  cases command with
  | none => exact iff_of_true (cannotEdit_error hviewer _) trivial
  | some command =>
    by_cases hview : command ∈ viewCommands
    · refine iff_of_true (cannotEdit_view hviewer hbuffer hcommand hview) ?_
      revert hview
      cases command <;> first | exact fun _ => trivial | exact fun h => absurd h (by decide)
    · by_cases hown : command ∈ ownCommands
      · refine iff_of_true (cannotEdit_own hviewer hown) ?_
        revert hown
        cases command <;> first | exact fun _ => trivial | exact fun h => absurd h (by decide)
      · cases command with
        | status =>
          have hmay := mayForward_of_command (s := s) hcommand (by decide) hline
          exact iff_of_true (cannotEdit_forward hviewer hmay) trivial
        | save => exact cannotEdit_save_iff hviewer
        | savetostorage => exact (cannotEdit_iff hviewer).trans List.forall_mem_singleton
        | moveselectedclientparts => exact cannotEdit_moveselectedclientparts_iff hviewer hbuffer hcommand
        | renamefile => exact cannotEdit_renamefile_iff hviewer
        | dialogevent => exact cannotEdit_dialogevent_iff hviewer hline hcommand
        | formfieldevent => exact cannotEdit_formfieldevent_iff hviewer hline hcommand
        | traceeventrecording =>
          exact iff_of_true (cannotEdit_traceeventrecording hviewer hline hcommand) trivial
        | completefunction =>
          exact cannotEdit_forward_unguarded_iff hviewer hbuffer hcommand (by decide)
        | switchRequest => exact cannotEdit_switchRequest_iff hviewer
        | filtered => exact iff_of_true (cannotEdit_filtered hviewer hbuffer hline) trivial
        | blockingcommandstatus =>
          exact cannotEdit_forward_unguarded_iff hviewer hbuffer hcommand (by decide)
        | urp | oxoolclient | versionbar | jserror | load | loadwithpassword =>
          exact iff_of_true (cannotEdit_error hviewer _) trivial
        | _ => exact absurd (by decide) (not_or.mpr ⟨hview, hown⟩)

/-- The last `readonly` of the options decides. -/
theorem isViewer_parseDocOptions_iff (hviewer : s.IsViewer) (decoders : Decoders)
    (tokens : List Bytes) :
    (s.parseDocOptions decoders tokens).1.IsViewer ↔
      (readOnlyValues decoders (docOptions tokens)).getLast? ≠ some (ascii "0") := by
  have hflag := isReadOnly_setOptions decoders (docOptions tokens) s
  obtain ⟨docURL, isReadOnly, hframe⟩ := setOptions_eq decoders (docOptions tokens) s
  have hcomments : (s.setOptions decoders (docOptions tokens)).1.isAllowChangeComments = false := by
    rw [hframe]
    exact hviewer.2
  rw [parseDocOptions, IsViewer, hflag, and_iff_left hcomments, hviewer.1]
  cases (readOnlyValues decoders (docOptions tokens)).getLast? with
  | none => simp
  | some value => simp

/-- **A load leaves a viewer one** unless its options say otherwise. -/
theorem cannotEdit_loadDocument_iff (hviewer : s.IsViewer) :
    Client.CannotEdit (s.loadDocument env tokens) ↔ LoadHarmless env tokens := by
  unfold loadDocument LoadHarmless
  by_cases hlength : tokens.length < 2
  · rw [if_pos hlength]
    exact iff_of_true (cannotEdit_singleton hviewer trivial)
      fun hle => absurd hlength (Nat.not_lt_of_le hle)
  · rw [if_neg hlength]
    have hviewer' := isViewer_parseDocOptions_iff hviewer env.decoders tokens
    cases hparse : s.parseDocOptions env.decoders tokens with
    | mk s' thrown =>
      rw [hparse] at hviewer'
      have hiff : ∀ {effects : List Effect}, (∀ effect ∈ effects, s'.May effect) →
          (Client.CannotEdit (s', effects) ↔ (2 ≤ tokens.length →
            (readOnlyValues env.decoders (docOptions tokens)).getLast? ≠ some (ascii "0"))) :=
        fun heffects => ⟨fun h _ => hviewer'.mp h.1,
          fun h => ⟨hviewer'.mpr (h (Nat.le_of_not_lt hlength)), heffects⟩⟩
      cases thrown with
      | none =>
        apply hiff
        rw [List.append_assoc, List.append_assoc, List.append_assoc]
        exact forall_forward_iff.mpr fun _ => mayForward_loadMessage _
      | some thrown =>
        cases thrown with
        | syntaxException => exact hiff (List.forall_mem_singleton.mpr trivial)
        | invalidArgument => exact hiff fun _ heffect => absurd heffect List.not_mem_nil

theorem cannotEdit_handleCommand_iff (hviewer : s.IsViewer) (hbuffer : words buffer blank = tokens)
    (hline : words firstLine blank = tokens) {command : Option Command}
    (hcommand : Command.ofTokens tokens = command) :
    Client.CannotEdit (s.handleCommand env buffer firstLine tokens command) ↔
      s.CommandHarmless env buffer firstLine tokens command := by
  have herror : ∀ text, Client.CannotEdit (s, [.error text]) := fun text =>
    cannotEdit_singleton hviewer trivial
  have hloaded : Client.CannotEdit
      (if s.docURL = [] then
        (s, [.error (ascii "error: cmd=" ++ token tokens 0 ++ ascii " kind=nodocloaded")])
      else s.handleLoaded env buffer firstLine tokens command) ↔
        (s.docURL ≠ [] → s.LoadedHarmless env buffer firstLine tokens command) := by
    by_cases hurl : s.docURL = []
    · rw [if_pos hurl]
      exact iff_of_true (herror _) fun hne => absurd hurl hne
    · rw [if_neg hurl, cannotEdit_handleLoaded_iff hviewer hbuffer hline hcommand]
      exact ⟨fun h _ => h, fun h => h hurl⟩
  cases command with
  | none => exact hloaded
  | some command =>
    unfold handleCommand CommandHarmless
    cases command with
    | urp =>
      exact cannotEdit_forward_iff hviewer
        (not_mayForward_of_command hviewer hcommand (by decide) hbuffer)
    | oxoolclient =>
      refine iff_of_true ?_ fun _ => trivial
      dsimp only
      split
      · exact herror _
      · split
        · exact cannotEdit_nil hviewer
        · split
          · exact cannotEdit_nil hviewer
          · exact herror _
    | versionbar => exact iff_of_true (cannotEdit_nil hviewer) fun _ => trivial
    | jserror => exact iff_of_true (cannotEdit_nil hviewer) fun _ => trivial
    | load =>
      dsimp only
      by_cases hurl : s.docURL = []
      · rw [if_neg (not_not.mpr hurl), cannotEdit_loadDocument_iff hviewer]
        exact ⟨fun h _ => h, fun h => h hurl⟩
      · rw [if_pos hurl]
        exact iff_of_true (herror _) fun heq => absurd heq hurl
    | loadwithpassword => exact cannotEdit_loadDocument_iff hviewer
    | _ => exact hloaded

/-! ## The extensions -/

theorem not_equals {name other : String} (h : equals tokens 0 name = true)
    (hne : ascii name ≠ ascii other) : ¬ equals tokens 0 other = true := by
  intro hother
  have heq := (eq_of_beq h).symm.trans (eq_of_beq hother)
  exact hne (Option.some.inj heq)

/-- A message for a module starts with its id. -/
theorem moduleForwards_of_equals {name : String} (h : equals tokens 0 name = true)
    (hname : (ascii name).head? ≠ some 60) : moduleForwards env tokens = none := by
  have htoken : token tokens 0 = ascii name := by
    rw [token, eq_of_beq h]
    rfl
  unfold moduleForwards
  split
  · rename_i rest hrest
    rw [htoken] at hrest
    rw [hrest] at hname
    exact absurd rfl hname
  · rfl

/-- What is for an extension is not for a module. -/
theorem extensionHarmless_of_equals {name : String} (h : equals tokens 0 name = true)
    (hname : (ascii name).head? ≠ some 60)
    (htext : equals tokens 0 "writetext" = true →
      env.lokitVersionHas "postWindowExtTextInputEventEnhance" = true → env.takes firstLine = false)
    (hpicture : equals tokens 0 "insertpicture" = true ∨ equals tokens 0 "changepicture" = true →
      env.takes firstLine = false) : s.ExtensionHarmless env firstLine tokens where
  text := htext
  picture := hpicture
  module messages hmessages := by
    rw [moduleForwards_of_equals h hname] at hmessages
    cases hmessages

/-- A message that is neither a text nor a picture nor for a module. -/
theorem extensionHarmless_of_other {name : String} (h : equals tokens 0 name = true)
    (hname : (ascii name).head? ≠ some 60)
    (hother : ∀ other ∈ ["writetext", "insertpicture", "changepicture"], ascii name ≠ ascii other) :
    s.ExtensionHarmless env firstLine tokens := by
  apply extensionHarmless_of_equals h hname
  · exact fun htext => absurd htext (not_equals h (hother _ (by decide)))
  · rintro (hpicture | hpicture)
    · exact absurd hpicture (not_equals h (hother _ (by decide)))
    · exact absurd hpicture (not_equals h (hother _ (by decide)))

section Extensions

variable (hviewer : s.IsViewer) (hline : words firstLine blank = tokens)

include hviewer hline

/-- An extension that does not ask. -/
theorem forall_forward_unguarded_iff {name : String} (hequals : equals tokens 0 name = true)
    (hname : name ∈ unguardedNames) :
    (∀ effect ∈ env.forwardToChild firstLine, s.May effect) ↔ env.takes firstLine = false := by
  apply forall_forward_iff_of_not
  apply not_mayForward_of_unguarded hviewer hname
  rw [hline]
  exact eq_of_beq hequals

omit hviewer in
theorem forall_initunostatus (hinit : equals tokens 0 "initunostatus" = true) :
    ∀ effect ∈ (if !env.lokitVersionHas "initUnoStatus" then
        [.error (ascii "error: cmd=initunostatus kind=unsupported")]
      else if tokens.length ≠ 2 then [.error (ascii "error: cmd=initunostatus kind=syntax")]
      else env.forwardToChild firstLine), s.May effect := by
  have hmay : s.MayForward firstLine := by
    apply mayForward_of_view (by decide : "initunostatus" ∈ viewNames)
    rw [hline]
    exact eq_of_beq hinit
  split
  · exact List.forall_mem_singleton.mpr trivial
  · split
    · exact List.forall_mem_singleton.mpr trivial
    · exact forall_forward_iff.mpr fun _ => hmay

theorem forall_writetext_iff (htext : equals tokens 0 "writetext" = true) :
    (∀ effect ∈ (if env.lokitVersionHas "postWindowExtTextInputEventEnhance" then
        env.forwardToChild firstLine
      else []), s.May effect) ↔ s.ExtensionHarmless env firstLine tokens := by
  have hpicture : equals tokens 0 "insertpicture" = true ∨ equals tokens 0 "changepicture" = true →
      env.takes firstLine = false := by
    rintro (hpicture | hpicture)
    · exact absurd hpicture (not_equals htext (by decide))
    · exact absurd hpicture (not_equals htext (by decide))
  cases hversion : env.lokitVersionHas "postWindowExtTextInputEventEnhance" with
  | true =>
    rw [if_pos rfl, forall_forward_unguarded_iff hviewer hline htext (by decide)]
    exact ⟨fun htakes => extensionHarmless_of_equals htext (by decide) (fun _ _ => htakes) hpicture,
      fun hharmless => hharmless.text htext hversion⟩
  | false =>
    rw [if_neg (by decide)]
    refine iff_of_true (fun _ heffect => absurd heffect List.not_mem_nil) ?_
    apply extensionHarmless_of_equals htext (by decide) _ hpicture
    intro _ hhas
    rw [hversion] at hhas
    cases hhas

theorem forall_picture_iff
    (hpicture : equals tokens 0 "insertpicture" = true ∨ equals tokens 0 "changepicture" = true) :
    (∀ effect ∈ env.forwardToChild firstLine, s.May effect) ↔
      s.ExtensionHarmless env firstLine tokens := by
  obtain ⟨name, hequals, hname, hhead⟩ : ∃ name, equals tokens 0 name = true ∧
      name ∈ unguardedNames ∧ (ascii name).head? ≠ some 60 := by
    rcases hpicture with hequals | hequals
    · exact ⟨_, hequals, by decide, by decide⟩
    · exact ⟨_, hequals, by decide, by decide⟩
  rw [forall_forward_unguarded_iff hviewer hline hequals hname]
  exact ⟨fun htakes => extensionHarmless_of_equals hequals hhead (fun _ _ => htakes) fun _ => htakes,
    fun hharmless => hharmless.picture hpicture⟩

omit hviewer hline in
/-- What a module forwards is what its handler says. -/
theorem forall_module_iff (h : moduleMessage env tokens = some effects)
    (htext : ¬ equals tokens 0 "writetext" = true)
    (hpicture : ¬ (equals tokens 0 "insertpicture" = true ∨ equals tokens 0 "changepicture" = true)) :
    (∀ effect ∈ effects, s.May effect) ↔ s.ExtensionHarmless env firstLine tokens := by
  obtain ⟨messages, hmessages, rfl⟩ := Option.map_eq_some_iff.mp h
  constructor
  · intro hmay
    refine ⟨fun h => absurd h htext, fun h => absurd h hpicture, ?_⟩
    intro messages' hmessages' message hmessage
    obtain rfl := Option.some.inj (hmessages.symm.trans hmessages')
    apply forall_forward_iff.mp
    intro effect heffect
    exact hmay effect (List.mem_flatMap.mpr ⟨message, hmessage, heffect⟩)
  · intro hharmless effect heffect
    obtain ⟨message, hmessage, heffect⟩ := List.mem_flatMap.mp heffect
    exact forall_forward_iff.mpr (hharmless.module messages hmessages message hmessage) effect heffect

end Extensions

/-- **The extensions do what a viewer may do** unless a text, a picture or a module gets through. -/
theorem forall_handleClientMessage_iff (hviewer : s.IsViewer) (hline : words firstLine blank = tokens)
    (h : handleClientMessage env s firstLine tokens = some effects) :
    (∀ effect ∈ effects, s.May effect) ↔ s.ExtensionHarmless env firstLine tokens := by
  unfold handleClientMessage at h
  split at h
  · cases h
  · split at h
    · rename_i hinit
      obtain rfl := Option.some.inj h
      exact iff_of_true (forall_initunostatus hline hinit)
        (extensionHarmless_of_other hinit (by decide) (by decide))
    · split at h
      · rename_i htext
        obtain rfl := Option.some.inj h
        exact forall_writetext_iff hviewer hline htext
      · rename_i htext
        split at h
        · -- a command that the host has disabled
          rename_i huno
          obtain rfl := Option.some.inj h
          have hequals : equals tokens 0 "uno" = true :=
            (Bool.and_eq_true_iff.mp (Bool.and_eq_true_iff.mp huno).1).1
          exact iff_of_true (List.forall_mem_singleton.mpr trivial)
            (extensionHarmless_of_other hequals (by decide) (by decide))
        · split at h
          · rename_i hpicture
            obtain rfl := Option.some.inj h
            exact forall_picture_iff hviewer hline (Bool.or_eq_true_iff.mp hpicture)
          · rename_i hpicture
            exact forall_module_iff h htext fun hor => hpicture (Bool.or_eq_true_iff.mpr hor)

/-! ## The law over a run -/

/-- **A message leaves a viewer one exactly if it is harmless.** -/
theorem cannotEdit_handleInput_iff (hviewer : s.IsViewer) :
    Client.CannotEdit (s.handleInput env buffer) ↔ s.Harmless env buffer := by
  unfold handleInput Harmless
  dsimp only
  by_cases hbroker : env.hasBroker = true
  · rw [if_neg (by simp [hbroker])]
    by_cases htokens : tokenize (buffer.takeWhile (· != Http.lf)) blank = []
    · rw [if_pos htokens]
      exact iff_of_true (cannotEdit_singleton hviewer trivial) fun _ hne => absurd htokens hne
    · rw [if_neg htokens]
      have hline := words_of_tokenize htokens
      have hbuffer := (words_firstLine buffer blank).symm.trans hline
      generalize tokenize (buffer.takeWhile (· != Http.lf)) blank = tokens at *
      cases hlog : equals tokens 0 "DEBUG" || equals tokens 0 "ERROR" ||
          equals tokens 0 "TRACEEVENT" with
      | true => exact iff_of_true (cannotEdit_nil hviewer) nofun
      | false =>
        rw [if_neg (by decide)]
        cases hextension : handleClientMessage env s (buffer.takeWhile (· != Http.lf)) tokens with
        | some effects =>
          rw [if_pos Option.isSome_some]
          dsimp only
          rw [cannotEdit_iff hviewer, forall_handleClientMessage_iff hviewer hline hextension]
          exact ⟨fun h _ _ _ => h, fun h => h hbroker htokens rfl⟩
        | none =>
          rw [if_neg (by simp)]
          dsimp only
          rw [cannotEdit_handleCommand_iff hviewer hbuffer hline rfl]
          exact ⟨fun h _ _ _ => h, fun h => h hbroker htokens rfl⟩
  · rw [if_pos (by simp [hbroker])]
    exact iff_of_true (cannotEdit_nil hviewer) fun h => absurd h hbroker

end ClientSession

/-- **An event leaves a viewer one exactly if it is harmless.** -/
theorem Connection.cannotEdit_act_iff {c : Connection} (h : c.CannotEdit) (event : Event) :
    (c.act event).CannotEdit ↔ c.Harmless event := by
  cases event with
  | message env buffer => exact ClientSession.cannotEdit_handleInput_iff h.1
  | poll env =>
    exact (ClientSession.cannotEdit_iff h.1).trans (ClientSession.forall_pollRename_iff h.1 _)
  | renameOfAnother => exact iff_of_true (ClientSession.cannotEdit_nil h.1) trivial

/-- A broker with one session, an idle document and no modules. -/
def Env.idle : Env where
  hasBroker := true
  hasChildProcess := true
  isKnown := true
  isLoaded := true
  isUnloading := false
  activity := .none
  renameFilename := []
  isDocumentChangedInStorage := false
  sessionCount := 1
  activeSessionCount := 1
  publicUri := ascii "file:///a.odp"
  loadParameters := ([], [])
  isTextDocument := false
  cmdValuesCached := fun _ => false
  fontCached := fun _ => false
  traceEventEnabled := false
  accessibilityEnabled := false
  lokitVersionHas := fun _ => true
  getModuleById := fun _ => none
  lockResult := false
  decoders := ⟨some, fun _ => true⟩
  jsonId := fun _ => none

/-- A viewer without write permission, before the load. -/
def viewer : ClientSession where
  docURL := []
  isWritable := false
  isReadOnly := true
  isAllowChangeComments := false
  isLockFailed := false
  isDocumentOwner := false
  wopiFileInfo := none

end Oxool.Wsd.Input
