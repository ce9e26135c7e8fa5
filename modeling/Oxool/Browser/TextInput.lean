import Mathlib.Data.List.Infix
import Oxool.Lib.Run
import Oxool.Lib.Utf16

/-!
# Typing (`browser/src/layer/marker/TextInput.js`)

What the user types goes into an editable area between two marks, and the browser tells that the
area has changed, not what was typed. `_onInput` compares the area with what it held last, and sends
what the difference comes to: so many characters to remove, and text to add. When the caret is about
to leave what was typed, or a line is broken, the area is emptied and the text stays behind in the
document.

`Editor` is the office as far as it is typed into: it does what the messages say. `Doc` is the same
text as the user sees it, with the part that the area holds apart.

`User` is kept beside the code, from the events alone: which key went down last, what the input was
announced as, what the area held. It never looks at `TextInput`, so that what the code remembers of
the same events (`_newlineHint`, `_deleteHint`, `_ignoreNextBackspace`, `_lastContent`) has to be
proved to be right. `Agrees` says that it is, `Matches` that what is sent is what the user did, and
`inStep_act` that each event keeps both; `typing_follows` is then the run of them.

The arrays of code points are arrays of UTF-16 code units in the code, too. Accessibility support is
off; a blocked user interface is no event. The formula bar, mentions and the focus are not in the
model. Nor is the position of the caret within the area: it is taken to be behind what the area holds,
which `RemovesOutside` asks for where it makes a difference.
-/

set_option autoImplicit false

namespace Oxool.Browser.Typing

/-! ## Messages -/

/-- What is sent over the socket. The code of a key is `none` where the code writes `undefined`. -/
inductive Message where
  | textinput (text : List UInt16)
  | removetextcontext (before after : Nat)
  | key (window up : Bool) (char : Option UInt16) (key : Option Nat)
deriving DecidableEq

/-- A line break, `\n` or `\r`. -/
def isBreak (u : UInt16) : Bool := u == 10 || u == 13

/-- The text around the caret. -/
structure Editor where
  left : List UInt16
  right : List UInt16
deriving DecidableEq

/-- The office types, breaks lines and removes what it is told to. -/
def Editor.apply (e : Editor) : Message → Editor
  | .textinput text => { e with left := e.left ++ text }
  | .removetextcontext before after =>
    ⟨e.left.take (e.left.length - before), e.right.drop after⟩
  | .key _ false (some char) _ =>
    { e with left := e.left ++ [if isBreak char then 10 else char] }
  | .key _ _ _ _ => e

/-! ## The area -/

/-- The editable area: its text, and whether the marks before and after it are there. -/
structure Area where
  content : List UInt16
  preSpace : Bool
  postSpace : Bool
deriving DecidableEq

def Area.initial : Area := ⟨[], true, true⟩

inductive DeleteHint where
  | none
  | delete
  | backspace
deriving DecidableEq

inductive InputType where
  | insertText
  | deleteContentForward
  | deleteContentBackward
  | other
deriving DecidableEq

/-- Where the browser runs. -/
structure Platform where
  mobile : Bool
  tablet : Bool
  desktop : Bool
  spreadsheet : Bool
  gecko : Bool

structure TextInput where
  area : Area
  lastContent : List UInt16
  deleteHint : DeleteHint
  newlineHint : Bool
  linebreakHint : Bool
  ignoreNextBackspace : Bool
  isComposing : Bool
  sent : List Message

namespace TextInput

def new : TextInput where
  area := .initial
  lastContent := []
  deleteHint := .none
  newlineHint := false
  linebreakHint := false
  ignoreNextBackspace := false
  isComposing := false
  sent := []

/-- The keys of `_autoCorrectChars`, with the key codes that go up. -/
def autoCorrectChars : List (UInt16 × Nat) :=
  [(32, 1284), (33, 4353), (34, 4353), (37, 4357), (39, 192), (42, 4360), (44, 1291), (45, 1288),
    (46, 190), (47, 191), (58, 5413), (59, 1317), (63, 4287), (95, 5384)]

/-- The names that every object has a property of. -/
def objectProperties : List (List UInt16) :=
  ["constructor", "toString", "toLocaleString", "valueOf", "hasOwnProperty", "isPrototypeOf",
    "propertyIsEnumerable", "__proto__", "__defineGetter__", "__defineSetter__",
    "__lookupGetter__", "__lookupSetter__"].map fun name => Utf16.encode name.toList

variable (platform : Platform) (window : Bool) (s : TextInput)

def send (m : Message) : TextInput := { s with sent := s.sent ++ [m] }

def emptyArea : TextInput := { s with lastContent := [], area := .initial }

def removeTextContent (before after : Nat) : TextInput := s.send (.removetextcontext before after)

def sendKeyEvent (char : Option UInt16) (key : Option Nat) (up : Bool) : TextInput :=
  s.send (.key window up char key)

/-- A composition; `encodeURIComponent` throws where a surrogate is alone. -/
def sendCompositionEvent (text : List UInt16) : TextInput × Bool :=
  if !platform.mobile && !platform.tablet && objectProperties.contains text then
    ((s.sendKeyEvent window none none false).sendKeyEvent window none none true, true)
  else
    match if platform.mobile || platform.tablet then none
      else autoCorrectChars.find? fun c => text == [c.1] with
    | some (char, key) =>
      ((s.sendKeyEvent window (some char) (some 0) false).sendKeyEvent window (some 0) (some key)
        true, true)
    | none => if Utf16.wellFormed text then (s.send (.textinput text), true) else (s, false)

def sendNewlineEvent : TextInput :=
  let t := s.sendKeyEvent window (some 13) (some (if s.linebreakHint then 5376 else 1280)) false
  { t with newlineHint := false }.emptyArea

/-- The parts of a text after the first, each after a line break. -/
def sendParts : List (List UInt16) → TextInput → TextInput × Bool
  | [], s => (s, true)
  | part :: parts, s =>
    let t := (s.sendKeyEvent window (some 13) (some 1280) false).emptyArea
    if part.length > 0 then
      match t.sendCompositionEvent platform window part with
      | (u, true) => sendParts parts u
      | (u, false) => (u, false)
    else sendParts parts t

def sendText (text : List UInt16) : TextInput × Bool :=
  if text = [10] ∨ text = [13] then (s.sendNewlineEvent window, true)
  else
    match text.splitOnP isBreak with
    | [] => (s, true)
    | part :: parts =>
      if part.length > 0 then
        match s.sendCompositionEvent platform window part with
        | (t, true) => t.sendParts platform window parts
        | (t, false) => (t, false)
      else s.sendParts platform window parts

/-- A digit, from its character code. -/
def isDigit (u : UInt16) : Bool := 48 ≤ u.toNat && u.toNat ≤ 57

def sendNewText (inputType : InputType) (content newText : List UInt16) : TextInput × Bool :=
  match newText with
  | [u] =>
    if platform.spreadsheet && content.length == 1 && inputType == .insertText && isDigit u &&
        platform.desktop then
      (s.sendKeyEvent window (some u) (some (u.toNat + 48)) false, true)
    else s.sendText platform window newText
  | _ => s.sendText platform window newText

/-- How far two contents agree. -/
def matchTo : List UInt16 → List UInt16 → Nat
  | u :: content, v :: lastContent => if u = v then matchTo content lastContent + 1 else 0
  | _, _ => 0

/-- The hint after an event of this type. -/
def hinted (inputType : InputType) : DeleteHint :=
  match s.deleteHint, inputType with
  | .none, .deleteContentForward => .delete
  | .none, .deleteContentBackward => .backspace
  | hint, _ => hint

/-- Is one of the characters that went behind the caret? -/
def removesAfter (content : List UInt16) : Bool :=
  decide (content.length < s.lastContent.length) && s.deleteHint == .delete

/-- What the difference between the area and what it held last comes to. -/
def compare (inputType : InputType) : TextInput :=
  let content := s.area.content
  let m := matchTo content s.lastContent
  let removeAfter := if s.removesAfter content then 1 else 0
  let removeBefore := s.lastContent.length - m - removeAfter
  let t := if 0 < removeBefore ∨ 0 < removeAfter then s.removeTextContent removeBefore removeAfter
    else s
  let t := { t with lastContent := content }
  let newText := content.drop m
  match if newText.length > 0 then t.sendNewText platform window inputType content newText
    else (t, true) with
  | (u, true) => if 0 < removeAfter then u.emptyArea else u
  | (u, false) => u

/-- `_onInput`, with the area as the browser has left it. -/
def onInput (inputType : InputType) (area : Area) : TextInput :=
  let ignoreBackspace := s.ignoreNextBackspace
  let s := { s with
    area := area
    deleteHint := s.hinted inputType
    ignoreNextBackspace := false }
  if s.newlineHint then s.sendNewlineEvent window
  else if !area.preSpace then (if ignoreBackspace then s else s.removeTextContent 1 0).emptyArea
  else if !area.postSpace then (s.removeTextContent 0 1).emptyArea
  else s.compare platform window inputType

/-- Where the selection is when an input is about to happen. -/
structure Selection where
  valid : Bool
  atBeginning : Bool
  atEnd : Bool

def isInitialContent : Bool := s.area == .initial

def handleMisplacedCursorAtBeginning (inputType : InputType) : TextInput :=
  if inputType = .deleteContentBackward then
    { s.removeTextContent 1 0 with ignoreNextBackspace := true }.emptyArea
  else s.emptyArea

def onBeforeInput (inputType : InputType) (selection : Selection) : TextInput :=
  let s := { s with ignoreNextBackspace := false }
  let t := if !selection.valid then s.emptyArea
    else if s.isInitialContent && selection.atBeginning then
      s.handleMisplacedCursorAtBeginning inputType
    else s
  if platform.gecko && selection.atEnd && t.deleteHint == .delete then
    (t.removeTextContent 0 1).emptyArea
  else t

def onKeyDown (keyCode : Nat) (shiftKey : Bool) : TextInput :=
  { s with
    deleteHint := if keyCode = 8 then .backspace else if keyCode = 46 then .delete else .none
    newlineHint := keyCode == 13
    linebreakHint := keyCode == 13 && shiftKey }

/-- `_onKeyUp` of a key that moves the caret or leaves. -/
def onKeyUp : TextInput := if s.isComposing then s else s.emptyArea

/-- `_onCompositionEnd`; does its data end with a newline? -/
def onCompositionEnd (newline : Bool) (area : Area) : TextInput :=
  let s := { s with isComposing := false, newlineHint := s.newlineHint || newline }
  s.onInput platform window .other area

end TextInput

/-! ## What the user sees -/

/-- The text before what the area holds, that, and the text after it. -/
structure Doc where
  before : List UInt16
  area : List UInt16
  after : List UInt16
deriving DecidableEq

/-- What an event is for the user. -/
inductive Edit where
  /-- The area holds something else now. -/
  | change (content : List UInt16)
  | newline
  /-- A character is removed before or after the caret, which leaves the area. -/
  | backspace
  | delete
  | leave
  /-- The caret is elsewhere, or the text is another. -/
  | move (left right : List UInt16)
deriving DecidableEq

/-- Line breaks are one kind of character in the document. -/
def normal (text : List UInt16) : List UInt16 := text.map fun u => if isBreak u then 10 else u

namespace Doc

/-- A text with a line break leaves the area. -/
def edit (d : Doc) : Edit → Doc
  | .change content =>
    if content.any isBreak then ⟨d.before ++ normal content, [], d.after⟩
    else { d with area := content }
  | .newline => ⟨d.before ++ d.area ++ [10], [], d.after⟩
  | .backspace => ⟨(d.before ++ d.area).dropLast, [], d.after⟩
  | .delete => ⟨d.before ++ d.area, [], d.after.drop 1⟩
  | .leave => ⟨d.before ++ d.area, [], d.after⟩
  | .move left right => ⟨left, [], right⟩

/-- The text around the caret, which is behind what the area holds. -/
def editor (d : Doc) : Editor := ⟨d.before ++ d.area, d.after⟩

end Doc

/-! ## Runs -/

open TextInput (Selection)

inductive Event where
  | keydown (keyCode : Nat) (shiftKey : Bool)
  | keyup
  | beforeinput (inputType : InputType) (selection : Selection)
  /-- `input`, or `compositionupdate`, with the area as it is then. -/
  | input (window : Bool) (inputType : InputType) (area : Area)
  | compositionstart
  | compositionend (window newline : Bool) (area : Area)
  /-- The area is emptied: the user clicked, something was undone, the focus came back. -/
  | leave
  /-- The office moves the caret or changes the text when the area is empty. -/
  | move (left right : List UInt16)

/-- What the user has done, and the text that makes. It is kept from the events alone, not from what
`TextInput` remembers of them. -/
structure User where
  doc : Doc
  /-- A line break was asked for, with Enter or at the end of a composition, and no input has come since. -/
  breaksLine : Bool
  /-- On which side of the caret something was to be removed, by the last key or by the first input since. -/
  removes : DeleteHint
  /-- The input that was announced last was to remove what is before the area, and that was done then. -/
  removed : Bool
  composing : Bool

/-- The typing, the office, and the user. -/
structure World where
  input : TextInput
  editor : Editor
  user : User

namespace User

/-- An input: a line is broken, a mark was removed with the character in its place, or the area holds
something else. -/
def inputEdits (u : User) (area : Area) : List Edit :=
  if u.breaksLine then [.newline]
  else if !area.preSpace then [if u.removed then .leave else .backspace]
  else if !area.postSpace then [.delete]
  else [.change area.content]

/-- The user removes what is before the area. -/
def removesBefore (u : User) (inputType : InputType) (selection : Selection) : Bool :=
  selection.valid && u.doc.area == [] && selection.atBeginning && inputType == .deleteContentBackward

/-- What an event is for the text. -/
def edits (platform : Platform) (u : User) : Event → List Edit
  | .keydown _ _ => []
  | .keyup => if u.composing then [] else [.leave]
  | .beforeinput inputType selection =>
    (if !selection.valid then [.leave]
      else if u.doc.area == [] && selection.atBeginning then
        [if u.removesBefore inputType selection then .backspace else .leave]
      else []) ++
    (if platform.gecko && selection.atEnd && u.removes == .delete then [.delete] else [])
  | .input _ _ area => u.inputEdits area
  | .compositionstart => []
  | .compositionend _ newline area => { u with breaksLine := u.breaksLine || newline }.inputEdits area
  | .leave => [.leave]
  | .move left right => if u.doc.area = [] then [.move left right] else []

/-- On which side something is removed, after an input of this type. -/
def removesAfterInput (u : User) (inputType : InputType) : DeleteHint :=
  match u.removes, inputType with
  | .none, .deleteContentForward => .delete
  | .none, .deleteContentBackward => .backspace
  | side, _ => side

/-- What the user has done after an event. -/
def after (platform : Platform) (u : User) (e : Event) : User :=
  let v := { u with doc := (u.edits platform e).foldl Doc.edit u.doc }
  match e with
  | .keydown keyCode _ => { v with
      breaksLine := keyCode == 13
      removes := if keyCode = 8 then .backspace else if keyCode = 46 then .delete else .none }
  | .beforeinput inputType selection => { v with removed := u.removesBefore inputType selection }
  | .input _ inputType _ => { v with
      breaksLine := false
      removes := u.removesAfterInput inputType
      removed := false }
  | .compositionstart => { v with composing := true }
  | .compositionend _ _ _ => { v with breaksLine := false, removed := false, composing := false }
  | .keyup => v
  | .leave => v
  | .move _ _ => v

end User

/-- The typing alone; what it sends from here on. -/
def react (platform : Platform) (s : TextInput) : Event → TextInput
  | .keydown keyCode shiftKey => s.onKeyDown keyCode shiftKey
  | .keyup => s.onKeyUp
  | .beforeinput inputType selection => s.onBeforeInput platform inputType selection
  | .input window inputType area => s.onInput platform window inputType area
  | .compositionstart => { s with isComposing := true }
  | .compositionend window newline area => s.onCompositionEnd platform window newline area
  | .leave => s.emptyArea
  | .move _ _ => s

/-- What an event has the browser send. -/
def messages (platform : Platform) (s : TextInput) (e : Event) : List Message :=
  (react platform s e).sent.drop s.sent.length

def act (platform : Platform) (w : World) (e : Event) : World where
  input := react platform w.input e
  editor :=
    match e with
    | .move left right => if w.user.doc.area = [] then ⟨left, right⟩ else w.editor
    | _ => (messages platform w.input e).foldl Editor.apply w.editor
  user := w.user.after platform e

def World.start (left right : List UInt16) : World where
  input := .new
  editor := ⟨left, right⟩
  user := ⟨⟨left, [], right⟩, false, .none, false, false⟩

/-- The office's text is the one the user sees, and the next input is compared with what the area stands
for. -/
structure Follows (w : World) : Prop where
  editor : w.editor = w.user.doc.editor
  area : w.input.lastContent = w.user.doc.area

/-- What is new can be sent: characters of one code unit each, and no part of it is the name of a
property that every object has, where those are looked up. -/
def Sendable (platform : Platform) (u : User) (area : Area) : Prop :=
  area.content.all (fun u => !Utf16.isSurrogate u) = true ∧
    (platform.mobile = true ∨ platform.tablet = true ∨
      ((area.content.drop (TextInput.matchTo area.content u.doc.area)).splitOnP isBreak).all
        (fun part => !TextInput.objectProperties.contains part) = true)

/-- The caret is behind what the area holds: where the user removes what is behind the caret, that is no
character of the area. -/
def RemovesOutside (u : User) (inputType : InputType) (area : Area) : Prop :=
  u.removesAfterInput inputType = .delete → u.doc.area.length ≤ area.content.length

instance (platform : Platform) (u : User) (area : Area) :
    Decidable (Sendable platform u area) := inferInstanceAs (Decidable (_ ∧ _))

instance (u : User) (inputType : InputType) (area : Area) : Decidable (RemovesOutside u inputType area) :=
  inferInstanceAs (Decidable (_ → _))

def Plain (platform : Platform) (w : World) : Event → Prop
  | .input _ inputType area => Sendable platform w.user area ∧ RemovesOutside w.user inputType area
  | .compositionend _ _ area => Sendable platform w.user area ∧ RemovesOutside w.user .other area
  | _ => True

instance (platform : Platform) (w : World) : (e : Event) → Decidable (Plain platform w e)
  | .input _ inputType area =>
    inferInstanceAs (Decidable (Sendable platform w.user area ∧ RemovesOutside w.user inputType area))
  | .compositionend _ _ area =>
    inferInstanceAs (Decidable (Sendable platform w.user area ∧ RemovesOutside w.user .other area))
  | .keydown _ _ => .isTrue trivial
  | .keyup => .isTrue trivial
  | .beforeinput _ _ => .isTrue trivial
  | .compositionstart => .isTrue trivial
  | .leave => .isTrue trivial
  | .move _ _ => .isTrue trivial

/-! ## What is sent, and what it does -/

def Editor.type (e : Editor) (text : List UInt16) : Editor := { e with left := e.left ++ text }

def Editor.remove (e : Editor) (before after : Nat) : Editor :=
  ⟨e.left.take (e.left.length - before), e.right.drop after⟩

theorem Editor.type_nil (e : Editor) : e.type [] = e := by
  rw [Editor.type, List.append_nil]

/-- From `s` to `t` messages are sent that do `f` to the text, and the area's text is `last` then. -/
def Does (s t : TextInput) (f : Editor → Editor) (last : List UInt16) : Prop :=
  ∃ ms, t.sent = s.sent ++ ms ∧ (∀ e, ms.foldl Editor.apply e = f e) ∧ t.lastContent = last

theorem Does.refl (s : TextInput) : Does s s id s.lastContent :=
  ⟨[], (List.append_nil _).symm, fun _ => rfl, rfl⟩

theorem Does.trans {s t u : TextInput} {f g : Editor → Editor} {last last' : List UInt16}
    (h : Does s t f last) (h' : Does t u g last') : Does s u (g ∘ f) last' := by
  obtain ⟨ms, hsent, hdoes, -⟩ := h
  obtain ⟨ms', hsent', hdoes', hlast'⟩ := h'
  refine ⟨ms ++ ms', by rw [hsent', hsent, List.append_assoc], fun e => ?_, hlast'⟩
  rw [List.foldl_append, hdoes, hdoes']
  rfl

theorem Does.last {s t : TextInput} {f : Editor → Editor} {last : List UInt16}
    (h : Does s t f last) : t.lastContent = last := by
  obtain ⟨ms, -, -, hlast⟩ := h
  exact hlast

theorem Does.congr {s t : TextInput} {f g : Editor → Editor} {last : List UInt16}
    (h : Does s t f last) (hfg : ∀ e, f e = g e) : Does s t g last := by
  obtain ⟨ms, hsent, hdoes, hlast⟩ := h
  exact ⟨ms, hsent, fun e => (hdoes e).trans (hfg e), hlast⟩

namespace TextInput

variable {platform : Platform} (window : Bool)

theorem does_emptyArea (s : TextInput) : Does s s.emptyArea id [] :=
  ⟨[], (List.append_nil _).symm, fun _ => rfl, rfl⟩

theorem does_removeTextContent (s : TextInput) (before after : Nat) :
    Does s (s.removeTextContent before after) (fun e => e.remove before after) s.lastContent :=
  ⟨[.removetextcontext before after], rfl, fun _ => rfl, rfl⟩

/-- A key that types its character. -/
theorem does_sendKeyEvent (s : TextInput) (char : UInt16) (key : Option Nat) :
    Does s (s.sendKeyEvent window (some char) key false)
      (fun e => e.type [if isBreak char then 10 else char]) s.lastContent :=
  ⟨[.key window false (some char) key], rfl, fun _ => rfl, rfl⟩

/-- A key that goes up types nothing. -/
theorem does_sendKeyEvent_up (s : TextInput) (char : Option UInt16) (key : Option Nat) :
    Does s (s.sendKeyEvent window char key true) id s.lastContent := by
  refine ⟨[.key window true char key], rfl, fun e => ?_, rfl⟩
  cases char with
  | none => rfl
  | some char => rfl

theorem does_sendNewlineEvent (s : TextInput) :
    Does s (s.sendNewlineEvent window) (fun e => e.type [10]) [] := by
  have hkey := does_sendKeyEvent window s 13
    (some (if s.linebreakHint then 5376 else 1280))
  refine (hkey.trans (does_emptyArea _)).congr fun e => ?_
  rfl

theorem wellFormed_of_all {text : List UInt16} (h : ∀ u ∈ text, Utf16.isSurrogate u = false) :
    Utf16.wellFormed text = true := by
  induction text with
  | nil => rfl
  | cons u text ih =>
    rw [Utf16.wellFormed_cons (h u List.mem_cons_self)]
    exact ih fun v hv => h v (List.mem_cons_of_mem _ hv)

/-- A part that can be sent, without a line break. -/
def PartSendable (platform : Platform) (part : List UInt16) : Prop :=
  (∀ u ∈ part, Utf16.isSurrogate u = false ∧ isBreak u = false) ∧
    (platform.mobile = true ∨ platform.tablet = true ∨ part ∉ objectProperties)

/-- A composition types its text, also where it is sent as keys. -/
theorem does_sendCompositionEvent (s : TextInput) {part : List UInt16}
    (h : PartSendable platform part) :
    (s.sendCompositionEvent platform window part).2 = true ∧
      Does s (s.sendCompositionEvent platform window part).1 (fun e => e.type part)
        s.lastContent := by
  obtain ⟨hunits, hnames⟩ := h
  have hnot : (!platform.mobile && !platform.tablet && objectProperties.contains part) = false := by
    rcases hnames with hmobile | htablet | hpart
    · rw [hmobile]
      rfl
    · rw [htablet]
      simp
    · simp [hpart]
  rw [sendCompositionEvent, hnot, if_neg Bool.false_ne_true]
  split
  · next char key hfind =>
    have hchar : part = [char] := by
      split at hfind
      · cases hfind
      · simpa using List.find?_some hfind
    have hbreak : isBreak char = false := (hunits char (by rw [hchar]; simp)).2
    refine ⟨rfl, ((does_sendKeyEvent window s char (some 0)).trans
      (does_sendKeyEvent_up window _ (some 0) (some key))).congr fun e => ?_⟩
    simp [hbreak, hchar]
  · rw [if_pos (wellFormed_of_all fun u hu => (hunits u hu).1)]
    exact ⟨rfl, [.textinput part], rfl, fun _ => rfl, rfl⟩

/-- The parts of a text, each after a line break. -/
theorem does_sendParts (parts : List (List UInt16)) (s : TextInput)
    (h : ∀ part ∈ parts, PartSendable platform part) :
    (s.sendParts platform window parts).2 = true ∧
      Does s (s.sendParts platform window parts).1
        (fun e => e.type (parts.flatMap fun part => 10 :: part))
        (if parts = [] then s.lastContent else []) := by
  induction parts generalizing s with
  | nil => exact ⟨rfl, (Does.refl s).congr fun e => (e.type_nil).symm⟩
  | cons part parts ih =>
    have hrest := fun s => ih s fun q hq => h q (List.mem_cons_of_mem _ hq)
    have hbreak := (does_sendKeyEvent window s 13 (some 1280)).trans
      (does_emptyArea _)
    rw [sendParts, if_neg (List.cons_ne_nil _ _)]
    generalize (s.sendKeyEvent window (some 13) (some 1280) false).emptyArea = t at hbreak
    have hlast : t.lastContent = [] := hbreak.last
    split
    · obtain ⟨htrue, hpart⟩ := does_sendCompositionEvent window t
        (h part List.mem_cons_self)
      rw [hlast] at hpart
      generalize t.sendCompositionEvent platform window part = r at htrue hpart
      obtain ⟨u, ok⟩ := r
      simp only at htrue hpart
      subst htrue
      obtain ⟨hok, hdoes⟩ := hrest u
      have hlast' : u.lastContent = [] := hpart.last
      rw [hlast', ite_self] at hdoes
      refine ⟨hok, ((hbreak.trans hpart).trans hdoes).congr fun e => ?_⟩
      simp [Editor.type, isBreak]
    · next hempty =>
      have hnil : part = [] := List.eq_nil_of_length_eq_zero (by omega)
      obtain ⟨hok, hdoes⟩ := hrest t
      rw [hlast, ite_self] at hdoes
      refine ⟨hok, (hbreak.trans hdoes).congr fun e => ?_⟩
      simp [Editor.type, isBreak, hnil]

/-- The parts of a text hold what it holds, but for its line breaks. -/
theorem splitOnP_isBreak (text : List UInt16) : ∃ part parts,
    text.splitOnP isBreak = part :: parts ∧
      normal text = part ++ parts.flatMap (fun part => 10 :: part) ∧
      (∀ q ∈ part :: parts, ∀ u ∈ q, u ∈ text ∧ isBreak u = false) ∧
      (parts = [] ↔ text.any isBreak = false) := by
  induction text with
  | nil => exact ⟨[], [], rfl, rfl, by simp, by simp⟩
  | cons u text ih =>
    obtain ⟨part, parts, hsplit, hnormal, hmem, hparts⟩ := ih
    rw [List.splitOnP_cons_eq_if_modifyHead, hsplit]
    cases hu : isBreak u with
    | true =>
      refine ⟨[], part :: parts, by simp, ?_, ?_, by simp [hu]⟩
      · rw [normal, List.map_cons, if_pos hu, ← normal, hnormal]
        rfl
      · intro q hq v hv
        rcases List.mem_cons.mp hq with rfl | hq
        · cases hv
        · obtain ⟨hvt, hvb⟩ := hmem q hq v hv
          exact ⟨List.mem_cons_of_mem u hvt, hvb⟩
    | false =>
      refine ⟨u :: part, parts, by simp, ?_, ?_, by simp [hu, hparts]⟩
      · rw [normal, List.map_cons, if_neg (by rw [hu]; exact Bool.false_ne_true), ← normal, hnormal]
        rfl
      · intro q hq v hv
        rcases List.mem_cons.mp hq with rfl | hq
        · rcases List.mem_cons.mp hv with rfl | hv
          · exact ⟨List.mem_cons_self, hu⟩
          · obtain ⟨hvt, hvb⟩ := hmem part List.mem_cons_self v hv
            exact ⟨List.mem_cons_of_mem u hvt, hvb⟩
        · obtain ⟨hvt, hvb⟩ := hmem q (List.mem_cons_of_mem _ hq) v hv
          exact ⟨List.mem_cons_of_mem u hvt, hvb⟩

theorem normal_eq {text : List UInt16} (h : text.any isBreak = false) : normal text = text := by
  induction text with
  | nil => rfl
  | cons u text ih =>
    rw [List.any_cons, Bool.or_eq_false_iff] at h
    rw [normal, List.map_cons, if_neg (by rw [h.1]; exact Bool.false_ne_true), ← normal, ih h.2]

theorem normal_append (text more : List UInt16) : normal (text ++ more) = normal text ++ normal more :=
  List.map_append

/-- A text that can be sent. -/
def TextSendable (platform : Platform) (text : List UInt16) : Prop :=
  (∀ u ∈ text, Utf16.isSurrogate u = false) ∧
    (platform.mobile = true ∨ platform.tablet = true ∨
      ∀ part ∈ text.splitOnP isBreak, part ∉ objectProperties)

/-- A text types itself, and empties the area where it has a line break. -/
theorem does_sendText (s : TextInput) {text : List UInt16} (h : TextSendable platform text) :
    (s.sendText platform window text).2 = true ∧
      Does s (s.sendText platform window text).1 (fun e => e.type (normal text))
        (if text.any isBreak = true then [] else s.lastContent) := by
  obtain ⟨part, parts, hsplit, hnormal, hmem, hparts⟩ := splitOnP_isBreak text
  have hsendable : ∀ q ∈ part :: parts, PartSendable platform q := by
    intro q hq
    refine ⟨fun u hu => ⟨h.1 u (hmem q hq u hu).1, (hmem q hq u hu).2⟩, ?_⟩
    rcases h.2 with hmobile | htablet | hnames
    · exact .inl hmobile
    · exact .inr (.inl htablet)
    · exact .inr (.inr (hnames q (hsplit ▸ hq)))
  rw [sendText]
  split
  · next hline =>
    refine ⟨rfl, ?_⟩
    rcases hline with rfl | rfl
    · exact does_sendNewlineEvent window s
    · exact does_sendNewlineEvent window s
  · rw [hsplit, hnormal]
    dsimp only
    have hlast : (if text.any isBreak = true then [] else s.lastContent) =
        if parts = [] then s.lastContent else [] := by
      cases hany : text.any isBreak with
      | true => rw [if_pos rfl, if_neg fun hnil => by simp [hparts.mp hnil] at hany]
      | false => rw [if_neg Bool.false_ne_true, if_pos (hparts.mpr hany)]
    rw [hlast]
    split
    · obtain ⟨htrue, hpart⟩ := does_sendCompositionEvent window s
        (hsendable part List.mem_cons_self)
      generalize s.sendCompositionEvent platform window part = r at htrue hpart
      obtain ⟨t, ok⟩ := r
      simp only at htrue hpart
      subst htrue
      obtain ⟨hok, hdoes⟩ := does_sendParts window parts t
        fun q hq => hsendable q (List.mem_cons_of_mem _ hq)
      have hsame : t.lastContent = s.lastContent := hpart.last
      rw [hsame] at hdoes
      refine ⟨hok, (hpart.trans hdoes).congr fun e => ?_⟩
      simp [Editor.type]
    · next hempty =>
      have hnil : part = [] := List.eq_nil_of_length_eq_zero (by omega)
      rw [hnil, List.nil_append]
      exact does_sendParts window parts s fun q hq => hsendable q (List.mem_cons_of_mem _ hq)

theorem isBreak_of_isDigit {u : UInt16} (h : isDigit u = true) : isBreak u = false := by
  rw [isDigit, Bool.and_eq_true, decide_eq_true_eq, decide_eq_true_eq] at h
  cases hbreak : isBreak u with
  | false => rfl
  | true =>
    rw [isBreak, Bool.or_eq_true, beq_iff_eq, beq_iff_eq] at hbreak
    rcases hbreak with rfl | rfl
    · exact absurd h.1 (by decide)
    · exact absurd h.1 (by decide)

/-- The first digit of a cell is sent as a key, and types the same. -/
theorem does_sendNewText (s : TextInput) (inputType : InputType) (content : List UInt16)
    {newText : List UInt16} (h : TextSendable platform newText) :
    (s.sendNewText platform window inputType content newText).2 = true ∧
      Does s (s.sendNewText platform window inputType content newText).1
        (fun e => e.type (normal newText))
        (if newText.any isBreak = true then [] else s.lastContent) := by
  unfold sendNewText
  split
  · next u =>
    split
    · next hdigit =>
      have hbreak : isBreak u = false := by
        simp only [Bool.and_eq_true] at hdigit
        exact isBreak_of_isDigit hdigit.1.2
      refine ⟨rfl, ?_⟩
      have hkey := does_sendKeyEvent window s u (some (u.toNat + 48))
      simp only [hbreak, normal, List.map_cons, List.map_nil, List.any_cons, List.any_nil,
        Bool.or_false, Bool.false_eq_true, if_false] at hkey ⊢
      exact hkey
    · exact does_sendText window s h
  · exact does_sendText window s h

theorem take_matchTo (content last : List UInt16) :
    content.take (matchTo content last) = last.take (matchTo content last) ∧
      matchTo content last ≤ content.length ∧ matchTo content last ≤ last.length := by
  induction content generalizing last with
  | nil => simp [matchTo]
  | cons u content ih =>
    cases last with
    | nil => simp [matchTo]
    | cons v last =>
      rw [matchTo]
      split
      · next heq =>
        obtain ⟨htake, hle, hle'⟩ := ih last
        simp only [List.take_succ_cons, heq, htake, List.length_cons, Nat.add_le_add_iff_right]
        exact ⟨trivial, hle, hle'⟩
      · simp

/-- What is not compared makes no difference. -/
theorem Does.of_eq {s s' t : TextInput} {f : Editor → Editor} {last : List UInt16}
    (h : Does s' t f last) (hsent : s'.sent = s.sent) : Does s t f last := by
  obtain ⟨ms, hms, hdoes, hlast⟩ := h
  exact ⟨ms, hsent ▸ hms, hdoes, hlast⟩

/-- The difference is removed and typed: all but what the old and the new content begin with. -/
theorem does_compare (s : TextInput) (inputType : InputType)
    (h : TextSendable platform
      (s.area.content.drop (matchTo s.area.content s.lastContent))) :
    Does s (s.compare platform window inputType)
      (fun e => (e.remove (s.lastContent.length - matchTo s.area.content s.lastContent -
          if s.removesAfter s.area.content then 1 else 0)
          (if s.removesAfter s.area.content then 1 else 0)).type
        (normal (s.area.content.drop (matchTo s.area.content s.lastContent))))
      (if s.removesAfter s.area.content ∨
          (s.area.content.drop (matchTo s.area.content s.lastContent)).any isBreak = true then []
        else s.area.content) := by
  rw [compare]
  generalize hafter : (if s.removesAfter s.area.content = true then 1 else 0) = after
  generalize hbefore : s.lastContent.length - matchTo s.area.content s.lastContent - after = before
  generalize hnew : s.area.content.drop (matchTo s.area.content s.lastContent) = newText at h
  have hremove : Does s
      { (if 0 < before ∨ 0 < after then s.removeTextContent before after else s) with
        lastContent := s.area.content }
      (fun e => e.remove before after) s.area.content := by
    by_cases hpos : 0 < before ∨ 0 < after
    · rw [if_pos hpos]
      exact ⟨[.removetextcontext before after], rfl, fun _ => rfl, rfl⟩
    · rw [if_neg hpos]
      have hzero : before = 0 ∧ after = 0 := by omega
      refine ⟨[], (List.append_nil _).symm, fun e => ?_, rfl⟩
      simp only [hzero.1, hzero.2, Editor.remove, Nat.sub_zero, List.take_length, List.drop_zero]
      rfl
  generalize ({ (if 0 < before ∨ 0 < after then s.removeTextContent before after else s) with
    lastContent := s.area.content } : TextInput) = t at hremove
  have htext : (if newText.length > 0 then t.sendNewText platform window inputType s.area.content
        newText else (t, true)).2 = true ∧
      Does t (if newText.length > 0 then t.sendNewText platform window inputType s.area.content
        newText else (t, true)).1 (fun e => e.type (normal newText))
        (if newText.any isBreak = true then [] else s.area.content) := by
    rw [← hremove.last]
    split
    · exact does_sendNewText window t inputType _ h
    · next hempty =>
      have hnil : newText = [] := List.eq_nil_of_length_eq_zero (by omega)
      rw [hnil]
      exact ⟨rfl, (Does.refl t).congr fun e => (e.type_nil).symm⟩
  generalize (if newText.length > 0 then t.sendNewText platform window inputType s.area.content
    newText else (t, true)) = r at htext
  obtain ⟨u, ok⟩ := r
  obtain ⟨htrue, hdoes⟩ := htext
  simp only at htrue hdoes
  subst htrue
  have hall := hremove.trans hdoes
  cases hremoves : s.removesAfter s.area.content with
  | true =>
    rw [hremoves, if_pos rfl] at hafter
    rw [← hafter] at hall ⊢
    rw [if_pos (.inl rfl)]
    exact hall.trans (does_emptyArea u)
  | false =>
    rw [hremoves, if_neg Bool.false_ne_true] at hafter
    rw [← hafter] at hall ⊢
    simp only [Bool.false_eq_true, false_or, Nat.lt_irrefl, if_false]
    exact hall

end TextInput

/-! ## One event -/

open TextInput

/-- What an event has the browser send does to the text what the edits do for the user. -/
structure Matches (s t : TextInput) (l : List Edit) : Prop where
  does : ∀ d : Doc, s.lastContent = d.area → d.area.any isBreak = false →
    ∃ f, Does s t f (l.foldl Doc.edit d).area ∧ f d.editor = (l.foldl Doc.edit d).editor ∧
      (l.foldl Doc.edit d).area.any isBreak = false

theorem Matches.of {s t : TextInput} {l : List Edit} {f : Editor → Editor} {last : List UInt16}
    (h : Does s t f last) (hdoc : ∀ d : Doc, s.lastContent = d.area → d.area.any isBreak = false →
      f d.editor = (l.foldl Doc.edit d).editor ∧ (l.foldl Doc.edit d).area = last ∧
        last.any isBreak = false) : Matches s t l where
  does d hd hline := by
    obtain ⟨heditor, harea, hbreak⟩ := hdoc d hd hline
    exact ⟨f, by rw [harea]; exact h, heditor, by rw [harea]; exact hbreak⟩

theorem Matches.trans {s t u : TextInput} {l l' : List Edit} (h : Matches s t l)
    (h' : Matches t u l') : Matches s u (l ++ l') where
  does d hd hline := by
    obtain ⟨f, hdoes, heditor, hbreak⟩ := h.does d hd hline
    obtain ⟨g, hdoes', heditor', hbreak'⟩ := h'.does _ hdoes.last hbreak
    rw [List.foldl_append]
    refine ⟨g ∘ f, hdoes.trans hdoes', ?_, hbreak'⟩
    rw [Function.comp_apply, heditor, heditor']

theorem matches_nil {s t : TextInput} (hsent : t.sent = s.sent)
    (hlast : t.lastContent = s.lastContent) : Matches s t [] :=
  .of ⟨[], by rw [hsent, List.append_nil], fun _ => rfl, hlast⟩
    fun d hd hline => ⟨rfl, hd.symm, hd ▸ hline⟩

theorem matches_leave (s : TextInput) : Matches s s.emptyArea [.leave] :=
  .of (does_emptyArea s) fun d _ _ => ⟨by simp [Doc.edit, Doc.editor], rfl, rfl⟩

theorem matches_newline (window : Bool) (s : TextInput) :
    Matches s (s.sendNewlineEvent window) [.newline] :=
  .of (does_sendNewlineEvent window s) fun d _ _ =>
    ⟨by simp [Doc.edit, Doc.editor, Editor.type], rfl, rfl⟩

theorem matches_backspace (s : TextInput) :
    Matches s (s.removeTextContent 1 0).emptyArea [.backspace] :=
  .of ((does_removeTextContent s 1 0).trans (does_emptyArea _)) fun d _ _ =>
    ⟨by simp [Doc.edit, Doc.editor, Editor.remove, List.dropLast_eq_take], rfl, rfl⟩

theorem matches_delete (s : TextInput) :
    Matches s (s.removeTextContent 0 1).emptyArea [.delete] :=
  .of ((does_removeTextContent s 0 1).trans (does_emptyArea _)) fun d _ _ =>
    ⟨by simp [Doc.edit, Doc.editor, Editor.remove], rfl, rfl⟩

theorem any_drop_matchTo {content last : List UInt16} (h : last.any isBreak = false) :
    (content.drop (matchTo content last)).any isBreak = content.any isBreak := by
  obtain ⟨htake, -, -⟩ := take_matchTo content last
  have hnone : (content.take (matchTo content last)).any isBreak = false := by
    rw [htake, List.any_eq_false]
    exact fun u hu => List.any_eq_false.mp h u (List.mem_of_mem_take hu)
  conv => rhs; rw [← List.take_append_drop (matchTo content last) content, List.any_append, hnone,
    Bool.false_or]

/-- The text before the caret, when the end of the area is removed and other text typed. -/
theorem take_normal {before content last : List UInt16} (h : last.any isBreak = false) :
    (before ++ last).take ((before ++ last).length - (last.length - matchTo content last)) ++
      normal (content.drop (matchTo content last)) = before ++ normal content := by
  obtain ⟨htake, -, hle⟩ := take_matchTo content last
  have hnone : (last.take (matchTo content last)).any isBreak = false :=
    List.any_eq_false.mpr fun u hu => List.any_eq_false.mp h u (List.mem_of_mem_take hu)
  have hlength : (before ++ last).length - (last.length - matchTo content last) =
      before.length + matchTo content last := by
    rw [List.length_append]
    omega
  rw [hlength, List.take_length_add_append, List.append_assoc]
  congr 1
  conv => rhs; rw [← List.take_append_drop (matchTo content last) content, normal_append, htake,
    normal_eq hnone]

theorem editor_change (d : Doc) (content : List UInt16) :
    (d.edit (.change content)).editor = ⟨d.before ++ normal content, d.after⟩ := by
  cases h : content.any isBreak with
  | false => rw [Doc.edit, if_neg (by rw [h]; exact Bool.false_ne_true), Doc.editor, normal_eq h]
  | true => rw [Doc.edit, if_pos h, Doc.editor, List.append_nil]

variable {platform : Platform}

/-- What the comparison sends is the change of the area. -/
theorem matches_compare (window : Bool) (s : TextInput) (inputType : InputType)
    (h : TextSendable platform (s.area.content.drop (matchTo s.area.content s.lastContent)))
    (houtside : s.removesAfter s.area.content = false) :
    Matches s (s.compare platform window inputType) [.change s.area.content] := by
  refine .of (does_compare window s inputType h) fun d hd hline => ?_
  rw [houtside]
  generalize s.area.content = content
  rw [hd]
  simp only [Bool.false_eq_true, if_false, false_or, List.foldl_cons, List.foldl_nil, any_drop_matchTo hline]
  refine ⟨?_, ?_⟩
  · rw [editor_change, Doc.editor, Editor.remove, Editor.type, Nat.sub_zero, List.drop_zero,
      take_normal hline]
  · cases hany : content.any isBreak with
    | false => simp [Doc.edit, hany]
    | true => simp [Doc.edit, hany]

theorem TextSendable.of_sendable {u : User} {area : Area} (h : Sendable platform u area) :
    TextSendable platform (area.content.drop (matchTo area.content u.doc.area)) := by
  obtain ⟨hunits, hnames⟩ := h
  rw [List.all_eq_true] at hunits
  refine ⟨fun u hu => ?_, hnames.imp_right (Or.imp_right fun hparts part hpart => ?_)⟩
  · rw [← Bool.not_eq_true']
    exact hunits u (List.mem_of_mem_drop hu)
  · rw [List.all_eq_true] at hparts
    simpa using hparts part hpart

/-! ## What is remembered -/

/-- The area holds what it is compared with next, between its marks. -/
def TextInput.Held (s : TextInput) : Prop := s.area = ⟨s.lastContent, true, true⟩

/-- What `TextInput` remembers of the events is what the user has done. -/
structure Agrees (s : TextInput) (u : User) : Prop where
  area : s.lastContent = u.doc.area
  held : s.Held
  line : u.doc.area.any isBreak = false
  breaksLine : s.newlineHint = u.breaksLine
  removes : s.deleteHint = u.removes
  removed : s.ignoreNextBackspace = u.removed
  composing : s.isComposing = u.composing

/-- Sending forgets nothing but that a line was to be broken. -/
structure Quiet (s t : TextInput) : Prop where
  breaksLine : s.newlineHint = false → t.newlineHint = false
  removes : t.deleteHint = s.deleteHint
  removed : t.ignoreNextBackspace = s.ignoreNextBackspace
  composing : t.isComposing = s.isComposing
  held : s.Held → t.Held

theorem Quiet.refl (s : TextInput) : Quiet s s := ⟨id, rfl, rfl, rfl, id⟩

theorem Quiet.trans {s t u : TextInput} (h : Quiet s t) (h' : Quiet t u) : Quiet s u where
  breaksLine hs := h'.breaksLine (h.breaksLine hs)
  removes := h'.removes.trans h.removes
  removed := h'.removed.trans h.removed
  composing := h'.composing.trans h.composing
  held hs := h'.held (h.held hs)

namespace TextInput

theorem quiet_send (s : TextInput) (m : Message) : Quiet s (s.send m) := ⟨id, rfl, rfl, rfl, id⟩

theorem quiet_emptyArea (s : TextInput) : Quiet s s.emptyArea := ⟨id, rfl, rfl, rfl, fun _ => rfl⟩

variable (platform) (window : Bool)

theorem quiet_sendCompositionEvent (s : TextInput) (text : List UInt16) :
    Quiet s (s.sendCompositionEvent platform window text).1 := by
  rw [sendCompositionEvent]
  split
  · exact (quiet_send s _).trans (quiet_send _ _)
  · split
    · exact (quiet_send s _).trans (quiet_send _ _)
    · split
      · exact quiet_send s _
      · exact .refl s

theorem quiet_sendNewlineEvent (s : TextInput) : Quiet s (s.sendNewlineEvent window) :=
  ⟨fun _ => rfl, rfl, rfl, rfl, fun _ => rfl⟩

theorem quiet_sendParts (parts : List (List UInt16)) (s : TextInput) :
    Quiet s (s.sendParts platform window parts).1 := by
  induction parts generalizing s with
  | nil => exact .refl s
  | cons part parts ih =>
    have hbreak : Quiet s (s.sendKeyEvent window (some 13) (some 1280) false).emptyArea :=
      (quiet_send s _).trans (quiet_emptyArea _)
    rw [sendParts]
    generalize (s.sendKeyEvent window (some 13) (some 1280) false).emptyArea = t at hbreak
    have hpart := quiet_sendCompositionEvent platform window t part
    split
    · split
      · next heq =>
        rw [heq] at hpart
        exact (hbreak.trans hpart).trans (ih _)
      · next heq =>
        rw [heq] at hpart
        exact hbreak.trans hpart
    · exact hbreak.trans (ih t)

theorem quiet_sendText (s : TextInput) (text : List UInt16) :
    Quiet s (s.sendText platform window text).1 := by
  rw [sendText]
  split
  · exact quiet_sendNewlineEvent window s
  · split
    · exact .refl s
    · next part parts _ =>
      have hpart := quiet_sendCompositionEvent platform window s part
      split
      · split
        · next heq =>
          rw [heq] at hpart
          exact hpart.trans (quiet_sendParts platform window parts _)
        · next heq =>
          rw [heq] at hpart
          exact hpart
      · exact quiet_sendParts platform window parts s

theorem quiet_sendNewText (s : TextInput) (inputType : InputType) (content newText : List UInt16) :
    Quiet s (s.sendNewText platform window inputType content newText).1 := by
  unfold sendNewText
  split
  · split
    · exact quiet_send s _
    · exact quiet_sendText platform window s _
  · exact quiet_sendText platform window s _

/-- After a comparison the area holds what it is compared with next. -/
theorem quiet_compare (s : TextInput) (inputType : InputType) (hmarks : s.area = ⟨s.area.content, true, true⟩) :
    Quiet { s with lastContent := s.area.content } (s.compare platform window inputType) ∧
      (s.compare platform window inputType).Held := by
  have hheld : ({ s with lastContent := s.area.content } : TextInput).Held := hmarks
  have hquiet : Quiet { s with lastContent := s.area.content } (s.compare platform window inputType) := by
    rw [compare]
    generalize (if s.removesAfter s.area.content = true then 1 else 0) = removeAfter
    generalize s.lastContent.length - matchTo s.area.content s.lastContent - removeAfter = removeBefore
    generalize s.area.content.drop (matchTo s.area.content s.lastContent) = newText
    have hremove : Quiet { s with lastContent := s.area.content }
        { (if 0 < removeBefore ∨ 0 < removeAfter then s.removeTextContent removeBefore removeAfter else s) with
          lastContent := s.area.content } := by
      split
      · exact ⟨id, rfl, rfl, rfl, id⟩
      · exact .refl _
    generalize ({ (if 0 < removeBefore ∨ 0 < removeAfter then s.removeTextContent removeBefore removeAfter
      else s) with lastContent := s.area.content } : TextInput) = t at hremove
    have hnew : Quiet t (if newText.length > 0 then
        t.sendNewText platform window inputType s.area.content newText else (t, true)).1 := by
      split
      · exact quiet_sendNewText platform window t inputType _ _
      · exact .refl t
    split
    · next heq =>
      rw [heq] at hnew
      split
      · exact (hremove.trans hnew).trans (quiet_emptyArea _)
      · exact hremove.trans hnew
    · next heq =>
      rw [heq] at hnew
      exact hremove.trans hnew
  exact ⟨hquiet, hquiet.held hheld⟩

/-- What is remembered after an input. -/
theorem onInput_remembers (s : TextInput) (inputType : InputType) (area : Area) :
    let t := s.onInput platform window inputType area
    t.Held ∧ t.newlineHint = false ∧ t.deleteHint = s.hinted inputType ∧ t.ignoreNextBackspace = false ∧
      t.isComposing = s.isComposing := by
  dsimp only
  rw [onInput]
  cases hnewline : s.newlineHint with
  | true => exact ⟨rfl, rfl, rfl, rfl, rfl⟩
  | false =>
    cases hpre : area.preSpace with
    | false =>
      cases s.ignoreNextBackspace with
      | true => exact ⟨rfl, rfl, rfl, rfl, rfl⟩
      | false => exact ⟨rfl, rfl, rfl, rfl, rfl⟩
    | true =>
      cases hpost : area.postSpace with
      | false => exact ⟨rfl, rfl, rfl, rfl, rfl⟩
      | true =>
        have hmarks : area = ⟨area.content, true, true⟩ := by
          cases area
          simp_all
        obtain ⟨hquiet, hheld⟩ := quiet_compare platform window { s with
          area := area
          deleteHint := s.hinted inputType
          newlineHint := false
          ignoreNextBackspace := false } inputType hmarks
        exact ⟨hheld, hquiet.breaksLine rfl, hquiet.removes, hquiet.removed, hquiet.composing⟩

end TextInput

theorem hinted_eq {s : TextInput} {u : User} (h : s.deleteHint = u.removes) (inputType : InputType) :
    s.hinted inputType = u.removesAfterInput inputType := by
  unfold hinted User.removesAfterInput
  rw [h]

theorem matches_onInput (window : Bool) {s : TextInput} {u : User} (harea : s.lastContent = u.doc.area)
    (hbreaks : s.newlineHint = u.breaksLine) (hremoves : s.deleteHint = u.removes)
    (hremoved : s.ignoreNextBackspace = u.removed) (inputType : InputType) (area : Area)
    (h : Sendable platform u area) (houtside : RemovesOutside u inputType area) :
    Matches s (s.onInput platform window inputType area) (u.inputEdits area) := by
  have hset : Matches s { s with
      area := area
      deleteHint := s.hinted inputType
      ignoreNextBackspace := false } [] := matches_nil rfl rfl
  rw [onInput, User.inputEdits, ← hbreaks, ← hremoved]
  refine hset.trans ?_
  cases s.newlineHint with
  | true => exact matches_newline window _
  | false =>
    cases area.preSpace with
    | false =>
      cases s.ignoreNextBackspace with
      | true => exact matches_leave _
      | false => exact matches_backspace _
    | true =>
      cases area.postSpace with
      | false => exact matches_delete _
      | true =>
        refine matches_compare window _ inputType ?_ ?_
        · dsimp only
          rw [harea]
          exact TextSendable.of_sendable h
        · -- nothing of the area itself was removed with Delete
          rw [removesAfter, Bool.and_eq_false_iff, decide_eq_false_iff_not, beq_eq_false_iff_ne]
          dsimp only
          rw [harea, hinted_eq hremoves]
          by_cases hdelete : u.removesAfterInput inputType = .delete
          · exact .inl (Nat.not_lt.mpr (houtside hdelete))
          · exact .inr hdelete

theorem matches_handleMisplaced (s : TextInput) (inputType : InputType) :
    Matches s (s.handleMisplacedCursorAtBeginning inputType)
      [if inputType == .deleteContentBackward then .backspace else .leave] := by
  rw [handleMisplacedCursorAtBeginning]
  by_cases htype : inputType = .deleteContentBackward
  · rw [if_pos htype, if_pos (beq_iff_eq.mpr htype)]
    exact ⟨(matches_backspace s).does⟩
  · rw [if_neg htype, if_neg (fun h => htype (beq_iff_eq.mp h))]
    exact matches_leave s

/-- A delete at the end, where no input follows. -/
theorem matches_atEnd {s t : TextInput} {u : User} {l : List Edit} (selection : Selection)
    (h : Matches s t l) (hhint : t.deleteHint = u.removes) :
    Matches s (if platform.gecko && selection.atEnd && t.deleteHint == .delete then
        (t.removeTextContent 0 1).emptyArea else t)
      (l ++ if platform.gecko && selection.atEnd && u.removes == .delete then [.delete]
        else []) := by
  rw [hhint]
  refine h.trans ?_
  split
  · exact matches_delete t
  · exact matches_nil rfl rfl

/-- An area that is not compared with anything is as it was at the start. -/
theorem isInitialContent_eq {s : TextInput} {u : User} (h : Agrees s u) :
    s.isInitialContent = (u.doc.area == []) := by
  rw [isInitialContent, h.held, h.area, Area.initial]
  cases u.doc.area with
  | nil => rfl
  | cons c content => rfl

/-- Before an input: what is sent, and what is remembered. -/
theorem react_beforeinput {s : TextInput} {u : User} (h : Agrees s u) (inputType : InputType)
    (selection : Selection) : Matches s (s.onBeforeInput platform inputType selection)
        (u.edits platform (.beforeinput inputType selection)) ∧
      (s.onBeforeInput platform inputType selection).ignoreNextBackspace =
        u.removesBefore inputType selection ∧
      (s.onBeforeInput platform inputType selection).newlineHint = s.newlineHint ∧
      (s.onBeforeInput platform inputType selection).deleteHint = s.deleteHint ∧
      (s.onBeforeInput platform inputType selection).isComposing = s.isComposing ∧
      (s.onBeforeInput platform inputType selection).Held := by
  have hset : Matches s { s with ignoreNextBackspace := false } [] := matches_nil rfl rfl
  have hinitial : isInitialContent { s with ignoreNextBackspace := false } = (u.doc.area == []) := by
    show s.isInitialContent = _
    exact isInitialContent_eq h
  -- where the area stays or is emptied, the rest is the same
  have hend : ∀ t l, Matches s t l → t.deleteHint = s.deleteHint → t.newlineHint = s.newlineHint →
      t.isComposing = s.isComposing → t.Held → t.ignoreNextBackspace = u.removesBefore inputType selection →
      ∀ r, r = (if platform.gecko && selection.atEnd && t.deleteHint == .delete then
          (t.removeTextContent 0 1).emptyArea else t) →
        Matches s r (l ++ if platform.gecko && selection.atEnd && u.removes == .delete then [.delete] else []) ∧
          r.ignoreNextBackspace = u.removesBefore inputType selection ∧ r.newlineHint = s.newlineHint ∧
          r.deleteHint = s.deleteHint ∧ r.isComposing = s.isComposing ∧ r.Held := by
    rintro t l hmatches hdelete hnewline hcomposing hheld hremoved _ rfl
    refine ⟨matches_atEnd selection hmatches (hdelete.trans h.removes), ?_⟩
    split
    · exact ⟨hremoved, hnewline, hdelete, hcomposing, rfl⟩
    · exact ⟨hremoved, hnewline, hdelete, hcomposing, hheld⟩
  rw [User.edits]
  cases hvalid : selection.valid with
  | false =>
    refine hend _ _ (hset.trans (matches_leave _)) rfl rfl rfl rfl ?_ _ ?_
    · rw [User.removesBefore, hvalid]
      rfl
    · rw [onBeforeInput, hvalid]
      rfl
  | true =>
    cases hbegin : (u.doc.area == [] && selection.atBeginning) with
    | false =>
      refine hend _ _ hset rfl rfl rfl h.held ?_ _ ?_
      · rw [User.removesBefore, hvalid, Bool.true_and, hbegin, Bool.false_and]
      · rw [onBeforeInput, hvalid, hinitial, hbegin]
        rfl
    | true =>
      have hremoves : u.removesBefore inputType selection = (inputType == .deleteContentBackward) := by
        rw [User.removesBefore, hvalid, Bool.true_and, hbegin, Bool.true_and]
      rw [hremoves] at hend ⊢
      refine hend _ _ (hset.trans (matches_handleMisplaced _ inputType)) ?_ ?_ ?_ ?_ ?_ _ ?_
      case refine_6 =>
        rw [onBeforeInput, hvalid, hinitial, hbegin]
        rfl
      all_goals
        rw [handleMisplacedCursorAtBeginning]
        by_cases htype : inputType = .deleteContentBackward
      · rw [if_pos htype]
        rfl
      · rw [if_neg htype]
        rfl
      · rw [if_pos htype]
        rfl
      · rw [if_neg htype]
        rfl
      · rw [if_pos htype]
        rfl
      · rw [if_neg htype]
        rfl
      · rw [if_pos htype]
        rfl
      · rw [if_neg htype]
        rfl
      · rw [if_pos htype, htype]
        rfl
      · rw [if_neg htype, beq_eq_false_iff_ne.mpr htype]
        rfl

/-! ## Runs -/

/-- What is sent between `s` and `t` makes of the text what the edits make of it. -/
theorem Matches.apply {s t : TextInput} {l : List Edit} (h : Matches s t l) {d : Doc}
    (harea : s.lastContent = d.area) (hline : d.area.any isBreak = false) :
    (t.sent.drop s.sent.length).foldl Editor.apply d.editor = (l.foldl Doc.edit d).editor ∧
      t.lastContent = (l.foldl Doc.edit d).area ∧ (l.foldl Doc.edit d).area.any isBreak = false := by
  obtain ⟨f, ⟨ms, hsent, hdoes, hlast⟩, heditor, hbreak⟩ := h.does d harea hline
  refine ⟨?_, hlast, hbreak⟩
  rw [hsent, List.drop_left, hdoes, heditor]

/-- The typing and the user agree, and the office has the text that the user sees. -/
structure InStep (w : World) : Prop where
  agrees : Agrees w.input w.user
  editor : w.editor = w.user.doc.editor

theorem inStep_start (left right : List UInt16) : InStep (World.start left right) where
  agrees := ⟨rfl, rfl, rfl, rfl, rfl, rfl, rfl⟩
  editor := by rw [World.start, Doc.editor, List.append_nil]

/-- What is sent is what the user did, and what is remembered is that too. -/
theorem inStep_of_matches {w : World} (hw : InStep w) {e : Event}
    (heditor : (act platform w e).editor =
      (messages platform w.input e).foldl Editor.apply w.editor)
    (hmatches : Matches w.input (react platform w.input e) (w.user.edits platform e))
    (hdoc : (w.user.after platform e).doc =
      (w.user.edits platform e).foldl Doc.edit w.user.doc)
    (hheld : (react platform w.input e).Held)
    (hbreaks : (react platform w.input e).newlineHint = (w.user.after platform e).breaksLine)
    (hremoves : (react platform w.input e).deleteHint = (w.user.after platform e).removes)
    (hremoved : (react platform w.input e).ignoreNextBackspace = (w.user.after platform e).removed)
    (hcomposing : (react platform w.input e).isComposing = (w.user.after platform e).composing) :
    InStep (act platform w e) := by
  obtain ⟨htext, harea, hline⟩ := hmatches.apply hw.agrees.area hw.agrees.line
  rw [← hdoc] at htext harea hline
  exact ⟨⟨harea, hheld, hline, hbreaks, hremoves, hremoved, hcomposing⟩, by
    rw [heditor, hw.editor]
    exact htext⟩

theorem inStep_act {w : World} (hw : InStep w) (e : Event) (he : Plain platform w e) :
    InStep (act platform w e) := by
  have hagrees := hw.agrees
  cases e with
  | keydown keyCode shiftKey =>
    exact inStep_of_matches hw rfl (matches_nil rfl rfl) rfl hagrees.held rfl rfl hagrees.removed
      hagrees.composing
  | keyup =>
    have hkeyup : w.input.onKeyUp = if w.user.composing then w.input else w.input.emptyArea := by
      rw [onKeyUp, hagrees.composing]
    refine inStep_of_matches hw rfl ?_ rfl ?_ ?_ ?_ ?_ ?_
    all_goals
      rw [react, hkeyup]
    · rw [User.edits]
      split
      · exact matches_nil rfl rfl
      · exact matches_leave w.input
    · split
      · exact hagrees.held
      · rfl
    · split <;> exact hagrees.breaksLine
    · split <;> exact hagrees.removes
    · split <;> exact hagrees.removed
    · split <;> exact hagrees.composing
  | beforeinput inputType selection =>
    obtain ⟨hmatches, hremoved, hbreaks, hremoves, hcomposing, hheld⟩ :=
      @react_beforeinput platform _ _ hagrees inputType selection
    exact inStep_of_matches hw rfl hmatches rfl hheld (hbreaks.trans hagrees.breaksLine)
      (hremoves.trans hagrees.removes) hremoved (hcomposing.trans hagrees.composing)
  | input window inputType area =>
    obtain ⟨hheld, hbreaks, hremoves, hremoved, hcomposing⟩ :=
      onInput_remembers platform window w.input inputType area
    exact inStep_of_matches hw rfl
      (matches_onInput window hagrees.area hagrees.breaksLine hagrees.removes hagrees.removed inputType
        area he.1 he.2) rfl hheld hbreaks (hremoves.trans (hinted_eq hagrees.removes inputType)) hremoved
      (hcomposing.trans hagrees.composing)
  | compositionstart =>
    exact inStep_of_matches hw rfl (matches_nil rfl rfl) rfl hagrees.held hagrees.breaksLine
      hagrees.removes hagrees.removed rfl
  | compositionend window newline area =>
    have hset : Matches w.input { w.input with
        isComposing := false
        newlineHint := w.input.newlineHint || newline } [] := matches_nil rfl rfl
    obtain ⟨hheld, hbreaks, hremoves, hremoved, hcomposing⟩ :=
      onInput_remembers platform window { w.input with
        isComposing := false
        newlineHint := w.input.newlineHint || newline } .other area
    have hnewline : (w.input.newlineHint || newline) = (w.user.breaksLine || newline) := by
      rw [hagrees.breaksLine]
    have hinput := matches_onInput window (s := { w.input with
        isComposing := false
        newlineHint := w.input.newlineHint || newline })
      (u := { w.user with breaksLine := w.user.breaksLine || newline }) hagrees.area hnewline
      hagrees.removes hagrees.removed .other area he.1 he.2
    -- the end of a composition is an input of no type that removes
    have hother : w.user.removesAfterInput .other = w.user.removes := by
      unfold User.removesAfterInput
      cases w.user.removes <;> rfl
    exact inStep_of_matches hw rfl (hset.trans hinput) rfl hheld hbreaks
      ((hremoves.trans (hinted_eq hagrees.removes .other)).trans hother) hremoved hcomposing
  | leave =>
    exact inStep_of_matches hw rfl (matches_leave w.input) rfl rfl hagrees.breaksLine hagrees.removes
      hagrees.removed hagrees.composing
  | move left right =>
    by_cases hempty : w.user.doc.area = []
    · have hedits : w.user.edits platform (.move left right) = [.move left right] := by
        rw [User.edits, if_pos hempty]
      have hdoc : (w.user.after platform (.move left right)).doc = ⟨left, [], right⟩ := by
        rw [User.after, hedits]
        rfl
      refine ⟨⟨?_, hagrees.held, ?_, hagrees.breaksLine, hagrees.removes, hagrees.removed,
        hagrees.composing⟩, ?_⟩
      · show w.input.lastContent = (w.user.after platform (.move left right)).doc.area
        rw [hdoc, hagrees.area, hempty]
      · show (w.user.after platform (.move left right)).doc.area.any isBreak = false
        rw [hdoc]
        rfl
      · show (if w.user.doc.area = [] then ⟨left, right⟩ else w.editor) =
          (w.user.after platform (.move left right)).doc.editor
        rw [if_pos hempty, hdoc, Doc.editor, List.append_nil]
    · have hedits : w.user.edits platform (.move left right) = [] := by
        rw [User.edits, if_neg hempty]
      have huser : w.user.after platform (.move left right) = w.user := by
        rw [User.after, hedits]
        rfl
      refine ⟨?_, ?_⟩
      · show Agrees w.input (w.user.after platform (.move left right))
        rw [huser]
        exact hagrees
      · show (if w.user.doc.area = [] then ⟨left, right⟩ else w.editor) =
          (w.user.after platform (.move left right)).doc.editor
        rw [if_neg hempty, huser]
        exact hw.editor

/-- **Typing.** In every run of events in which what is typed can be sent and Delete takes nothing out
of the area itself, the office's text is after every event the text that the user sees, and the area
is compared with what it stands for. -/
theorem typing_follows (platform : Platform) (left right : List UInt16) (es : List Event)
    (h : Run.Meets (act platform) (Plain platform) (World.start left right) es) :
    Run.Always (act platform) Follows (World.start left right) es :=
  Run.always_of_meets (P := Follows) (fun _ (hw : InStep _) => ⟨hw.editor, hw.agrees.area⟩)
    (fun _ e hw he => inStep_act hw e he) (inStep_start left right) h

/-- A desktop browser, in a text document. -/
def desktop : Platform := ⟨false, false, true, false, false⟩

/-- The area, with its marks, holds these characters. -/
def held (text : List UInt16) : Area := ⟨text, true, true⟩

/-- A word is typed and put right, a line is broken, and what was before it is removed. -/
def words : List Event :=
  [.keydown 104 false, .input false .insertText (held [104]), .input false .insertText
    (held [104, 99]), .keydown 8 false, .input false .deleteContentBackward (held [104]),
    .input false .insertText (held [104, 105]), .keydown 13 false,
    .input false .insertText (held [104, 105, 10]), .keydown 8 false,
    .beforeinput .deleteContentBackward ⟨true, true, true⟩,
    .input false .deleteContentBackward ⟨[], false, true⟩, .compositionstart,
    .compositionend false false (held [33]), .keyup, .move [97] [98],
    .input false .insertText (held [99])]

theorem typing_follows_words : Run.Always (act desktop) Follows (World.start [97] [98]) words :=
  typing_follows desktop [97] [98] words (by decide)

end Oxool.Browser.Typing
