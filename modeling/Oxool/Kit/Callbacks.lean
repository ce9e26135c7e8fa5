import Oxool.Kit.Invalidations
import Oxool.Kit.TextInput
import Oxool.Kit.TileBatches
import Oxool.Lib.Run

/-!
# Callbacks on the tile queue (`common/MessageQueue.cpp`)

The office core tells of every change, and a session is to see how things stand in the end. So a new
callback takes an earlier one out of the queue that says the same of an older time: the state of the
same command, the cursor of the same view. Which one that is, the code finds out from the tokens of
the two messages and from the `viewId` of what follows them.

For one put, `put_spec` says what can be missing from the queue afterwards. For a run, each `Key`
has a last message: the last one that was put is the last one of what was handed out and is still
queued, whatever else was put and handed out in between (`Inv.act`).

An exception of the JSON reader leaves the queue as it was, and the callback is not put.
-/

set_option autoImplicit false

namespace Oxool.Kit

open Oxool.Http (Bytes ascii)
open Oxool.Protocol

/-! ## New callbacks -/

/-- A callback of the office core. -/
structure Callback where
  target : Target
  type : Int
  type_int : IsInt32 type
  payload : Bytes

/-- The message that is put on the queue. -/
def Callback.text (c : Callback) : Bytes :=
  ascii "callback" ++ fields blank [c.target.text, decimal c.type, c.payload]

/-- The command that a state is about: the fourth token, up to an equal sign. -/
def unoCommandOf (message : Bytes) : Option Bytes :=
  ((tokenize message blank)[3]?.map extractUnoCommand).filter (· ≠ [])

/-- The states of a command of which each one counts. -/
def isModifiedStatus (message : Bytes) : Prop :=
  (tokenize message blank)[2]? = some (decimal stateChanged) ∧
    unoCommandOf message = some (ascii ".uno:ModifiedStatus")

section ViewId

variable (viewIdOf : Bytes → Option Bytes)

/-- A queued message says what the callback says, of an older time: it is a callback for the same view
and of the same type, and about the same command or the same view where the type is about one. -/
structure Callback.Supersedes (c : Callback) (queued : Bytes) : Prop where
  callback : matchPrefix (ascii "callback") (session queued) = true
  target : (tokenize queued blank)[1]? = some c.target.text
  type : (tokenize queued blank)[2]? = some (decimal c.type)
  command : c.type = stateChanged →
    (unoCommandOf c.text).isSome ∧ unoCommandOf queued = unoCommandOf c.text
  view : c.type ∈ lastOfViewCounts →
    (viewIdOf c.payload).isSome ∧
      extractViewId viewIdOf queued (tokenize queued blank) = viewIdOf c.payload

/-- **What a put does to the others**: it takes out at most one message, one that the callback
supersedes and that is no `ModifiedStatus`, and leaves the others in their order. If it throws, it was
a `viewId` that could not be read, and nothing is changed. -/
structure Callback.KeepsOthers (c : Callback) (q : TileQueue) : Prop where
  thrown : (q.put viewIdOf c.text).2 = true →
    (q.put viewIdOf c.text).1 = q ∧ c.type ∈ lastOfViewCounts ∧
      (viewIdOf c.payload = none ∨
        ∃ m ∈ q.queue, extractViewId viewIdOf m (tokenize m blank) = none)
  put : (q.put viewIdOf c.text).2 = false →
    ∃ front removed back, q.queue = front ++ removed ++ back ∧
      (q.put viewIdOf c.text).1 = { q with queue := front ++ back ++ [c.text] } ∧
      removed.length ≤ 1 ∧ ∀ m ∈ removed, c.Supersedes viewIdOf m ∧ ¬isModifiedStatus m

/-- What the last message of a kind is kept for: a view, a type, and a command or another view where
the type is about one. -/
structure Key where
  target : Bytes
  type : Bytes
  item : Bytes
deriving DecidableEq

/-- What the callback of a type is about. -/
def itemOf (message : Bytes) (type : Int) : Option Bytes :=
  if type = stateChanged then unoCommandOf message
  else if type ∈ lastCounts then some []
  else if type ∈ lastOfViewCounts then extractViewId viewIdOf message (tokenize message blank)
  else none

def keyOf (message : Bytes) : Option Key := do
  guard ((tokenize message blank)[0]? = some (ascii "callback"))
  let target ← (tokenize message blank)[1]?
  let type ← (tokenize message blank)[2]?
  let item ← itemOf viewIdOf message (← i32FromString type)
  return ⟨target, type, item⟩

/-- The messages with a key. -/
def keyed (key : Key) (messages : List Bytes) : List Bytes :=
  messages.filter fun m => keyOf viewIdOf m = some key

/-! ## Runs -/

/-- The queue, with a record of what was put and what was handed out. -/
structure Callbacks where
  queue : TileQueue
  sent : List Bytes
  delivered : List Bytes

namespace Callbacks

def init : Callbacks := ⟨⟨[], [], []⟩, [], []⟩

/-- What the kit does with its queue. Beside the callbacks it puts what the server sends: requests for
tiles, and the messages of the sessions. -/
inductive Action where
  | callback (c : Callback)
  | message (value : Bytes) (h : (tokenize value blank).head? ≠ some (ascii "callback"))
  | pop
  | updateCursorPosition (viewId : Int) (cursorPosition : CursorPosition)
  | removeCursorPosition (viewId : Int)

def put (s : Callbacks) (value : Bytes) : Callbacks :=
  let r := s.queue.put viewIdOf value
  { s with
    queue := r.1
    sent := if r.2 then s.sent else s.sent ++ [value] }

def act (s : Callbacks) : Action → Callbacks
  | .callback c => s.put viewIdOf c.text
  | .message value _ => s.put viewIdOf value
  | .pop =>
    { s with
      queue := s.queue.pop.2
      delivered := s.delivered ++ s.queue.pop.1.toList }
  | .updateCursorPosition viewId cursorPosition =>
    { s with queue := s.queue.updateCursorPosition viewId cursorPosition }
  | .removeCursorPosition viewId => { s with queue := s.queue.removeCursorPosition viewId }

/-- **The final state is kept**: of the messages with a key the last one that was put is the last one
that was handed out, once no such message is queued; until then it is on the queue. -/
structure FinalKept (s : Callbacks) : Prop where
  delivered : ∀ key, keyed viewIdOf key s.queue.queue = [] →
    (keyed viewIdOf key s.delivered).getLast? = (keyed viewIdOf key s.sent).getLast?
  queued : ∀ key, keyed viewIdOf key s.queue.queue ≠ [] →
    (keyed viewIdOf key s.queue.queue).getLast? = (keyed viewIdOf key s.sent).getLast?

end Callbacks

end ViewId

/-! ## The text of a callback -/

namespace Callback

variable (c : Callback)

theorem isToken_target : IsToken blank c.target.text := by
  cases c.target with
  | all => decide
  | view viewId => exact ⟨decimal_ne_nil viewId, decimal_plain⟩

theorem isToken_type : IsToken blank (decimal c.type) := ⟨decimal_ne_nil _, decimal_plain⟩

/-- The three tokens are followed by those of the payload's first line. -/
theorem tokenize_text : tokenize c.text blank =
    ascii "callback" :: c.target.text :: decimal c.type ::
      pieces (· == blank) [] (c.payload.takeWhile (· != Http.lf)) := by
  have hword : IsToken blank (ascii "callback") := by decide
  have hhead : c.text.head? ≠ some 0 := by
    rw [text, List.head?_append_of_ne_nil _ hword.1]
    decide
  have hline : ∀ {t : Bytes}, IsToken blank t → ∀ b ∈ t, (b != Http.lf) = true := by
    intro t ht b hb
    simpa using (ht.2 b hb).2
  have htext : c.text = ascii "callback" ++ blank :: (c.target.text ++ blank ::
      (decimal c.type ++ blank :: c.payload)) := by
    simp [text, fields]
  have htake : c.text.takeWhile (· != Http.lf) = ascii "callback" ++ blank :: (c.target.text ++ blank ::
      (decimal c.type ++ blank :: c.payload.takeWhile (· != Http.lf))) := by
    rw [htext, List.takeWhile_append_of_pos (hline hword), List.takeWhile_cons_of_pos (by decide),
      List.takeWhile_append_of_pos (hline c.isToken_target), List.takeWhile_cons_of_pos (by decide),
      List.takeWhile_append_of_pos (hline c.isToken_type), List.takeWhile_cons_of_pos (by decide)]
  rw [tokenize, if_neg hhead, htake, pieces_append (by decide), pieces_append (by decide),
    pieces_append (by decide), hword.pieces_eq, c.isToken_target.pieces_eq, c.isToken_type.pieces_eq]
  rfl

theorem getFirstToken_text : getFirstToken c.text = ascii "callback" := by
  rw [text, getFirstToken, List.takeWhile_append_of_pos (List.all_eq_true.mp (by decide))]
  rfl

theorem i32FromString_type : i32FromString (decimal c.type) = some c.type := by
  have hread : strtol (decimal c.type ++ []) = some (c.type, false) :=
    strtol_int32 c.type_int (by simp)
  rw [List.append_nil] at hread
  rw [i32FromString, hread]
  exact congrArg some (toInt32_eq c.type_int)

/-- The text in front of the payload. -/
def front : Bytes := ascii "callback" ++ fields blank [c.target.text, decimal c.type] ++ [blank]

theorem text_eq : c.text = c.front ++ c.payload := by
  simp [text, front, fields]

theorem length_front : tokenLengths ((tokenize c.text blank).take 3) + 3 = c.front.length := by
  rw [tokenize_text]
  simp [front, fields, tokenLengths]
  omega

/-- The payload is what stands behind the type. -/
theorem extractViewId_text (viewIdOf : Bytes → Option Bytes) :
    extractViewId viewIdOf c.text (tokenize c.text blank) = viewIdOf c.payload := by
  rw [extractViewId, length_front, substrFrom, text_eq, if_neg (by simp), List.drop_left]
  rfl

/-- A callback is never taken for typing. -/
theorem put_impl_text (queue : List Bytes) : MessageQueue.put_impl queue c.text = queue ++ [c.text] :=
  put_impl_of_target (by rw [tokenize_text]; rfl) queue

end Callback

/-! ## One put -/

section ViewId

variable (viewIdOf : Bytes → Option Bytes) {c : Callback}

/-- What is left of a queue when at most one message was taken out, and which one that was. -/
def TakesOut (P : Bytes → Prop) (queue queue' : List Bytes) : Prop :=
  ∃ front removed back, queue = front ++ removed ++ back ∧ queue' = front ++ back ∧
    removed.length ≤ 1 ∧ ∀ m ∈ removed, P m

theorem TakesOut.none (P : Bytes → Prop) (queue : List Bytes) : TakesOut P queue queue :=
  ⟨queue, [], [], by simp, by simp, by simp, by simp⟩

theorem TakesOut.head {P : Bytes → Prop} {m : Bytes} (h : P m) (queue : List Bytes) :
    TakesOut P (m :: queue) queue :=
  ⟨[], [m], queue, rfl, rfl, by simp, by simpa using h⟩

theorem TakesOut.cons {P : Bytes → Prop} {queue queue' : List Bytes} (h : TakesOut P queue queue')
    (m : Bytes) : TakesOut P (m :: queue) (m :: queue') := by
  obtain ⟨front, removed, back, rfl, rfl, hlength, hall⟩ := h
  exact ⟨m :: front, removed, back, rfl, rfl, hlength, hall⟩

theorem TakesOut.imp {P Q : Bytes → Prop} {queue queue' : List Bytes} (h : TakesOut P queue queue')
    (himp : ∀ m, P m → Q m) : TakesOut Q queue queue' := by
  obtain ⟨front, removed, back, hqueue, hqueue', hlength, hall⟩ := h
  exact ⟨front, removed, back, hqueue, hqueue', hlength, fun m hm => himp m (hall m hm)⟩

theorem takesOut_eraseP (p : Bytes → Bool) (queue : List Bytes) :
    TakesOut (fun m => p m = true) queue (queue.eraseP p) := by
  induction queue with
  | nil => exact .none _ _
  | cons m queue ih =>
    by_cases hm : p m = true
    · rw [List.eraseP_cons_of_pos hm]
      exact .head hm queue
    · rw [List.eraseP_cons_of_neg hm]
      exact ih.cons m

/-- What starts with the word has it at the start of its first token. -/
theorem matchPrefix_session {m : Bytes} (h : matchPrefix (ascii "callback") m = true) :
    matchPrefix (ascii "callback") (session m) = true := by
  rw [matchPrefix, List.isPrefixOf_iff_prefix] at h ⊢
  obtain ⟨rest, rfl⟩ := h
  have hline : (ascii "callback" ++ rest).takeWhile (· != Http.lf) =
      99 :: (ascii "allback" ++ rest.takeWhile (· != Http.lf)) := by
    rw [List.takeWhile_append_of_pos (List.all_eq_true.mp (by decide))]
    rfl
  have hhead := Typing.head_pieces_eq (· == blank) (List.cons_ne_nil 99 [])
    (ascii "allback" ++ rest.takeWhile (· != Http.lf))
  rw [List.takeWhile_append_of_pos (List.all_eq_true.mp (by decide))] at hhead
  rw [session, tokenize, if_neg (by simp [ascii]), hline, pieces, if_neg (by decide), List.nil_append,
    List.headD_eq_head?_getD, hhead, Option.getD_some]
  exact List.prefix_append (ascii "callback") _

/-- The tokens that `isSameCallback` compares. -/
theorem of_isSameCallback {queued : Bytes} (h : isSameCallback (tokenize c.text blank) queued = true) :
    matchPrefix (ascii "callback") (session queued) = true ∧
      (tokenize queued blank)[1]? = some c.target.text ∧
      (tokenize queued blank)[2]? = some (decimal c.type) := by
  rw [c.tokenize_text] at h
  simp only [isSameCallback, Bool.and_eq_true, beq_iff_eq] at h
  obtain ⟨⟨⟨hcallback, -⟩, htarget⟩, htype⟩ := h
  exact ⟨matchPrefix_session hcallback, htarget, htype⟩

/-- A queued state for the same view. -/
theorem of_sameTarget {queued : Bytes}
    (h : sameTarget (tokenize queued blank) (tokenize c.text blank) = true) :
    (tokenize queued blank)[0]? = some (ascii "callback") ∧
      (tokenize queued blank)[1]? = some c.target.text ∧
      (tokenize queued blank)[2]? = some (decimal c.type) := by
  rw [c.tokenize_text, sameTarget, Bool.and_eq_true, beq_iff_eq] at h
  have hget : ∀ i < 3, (tokenize queued blank)[i]? =
      [ascii "callback", c.target.text, decimal c.type][i]? := by
    intro i hi
    rw [← List.getElem?_take_of_lt hi, h.2]
    rfl
  exact ⟨hget 0 (by omega), hget 1 (by omega), hget 2 (by omega)⟩

theorem session_of_getElem? {m word : Bytes} (h : (tokenize m blank)[0]? = some word) :
    session m = word := by
  rw [session, List.headD_eq_head?_getD, List.head?_eq_getElem?, h]
  rfl

/-- The command of a message, for one that names a command. -/
theorem unoCommandOf_eq {m token : Bytes} (h : (tokenize m blank)[3]? = some token)
    (hne : extractUnoCommand token ≠ []) : unoCommandOf m = some (extractUnoCommand token) := by
  rw [unoCommandOf, h, Option.map_some, Option.filter_some, if_pos (by simpa using hne)]

/-- A token is about a command when the command is read from it. -/
theorem extractUnoCommand_of_contains {token command : Bytes}
    (h : containsUnoCommand token command = true) : extractUnoCommand token = command := by
  rw [containsUnoCommand, Bool.and_eq_true, beq_iff_eq] at h
  rw [extractUnoCommand, if_pos h.1, h.2]

/-- A queued state of the same command. -/
theorem supersedes_of_isDuplicateCommand {command queued : Bytes} (htype : c.type = stateChanged)
    (hcommand : unoCommandOf c.text = some command) (hne : command ≠ [])
    (h : isDuplicateCommand command (tokenize c.text blank) queued = true) :
    c.Supersedes viewIdOf queued ∧ unoCommandOf queued = some command := by
  rw [isDuplicateCommand, Bool.and_eq_true] at h
  obtain ⟨hsame, hcontains⟩ := h
  obtain ⟨hword, htarget, hkind⟩ := of_sameTarget hsame
  have hqueued : unoCommandOf queued = some command := by
    split at hcontains
    · cases hcontains
    · rename_i token htoken
      have hread := extractUnoCommand_of_contains hcontains
      rw [unoCommandOf_eq htoken (by rw [hread]; exact hne), hread]
  refine ⟨⟨?_, htarget, hkind, fun _ => ?_, fun hview => ?_⟩, hqueued⟩
  · rw [session_of_getElem? hword]
    decide
  · rw [hcommand, hqueued]
    exact ⟨rfl, rfl⟩
  · rw [htype] at hview
    exact absurd hview (by decide)

/-- A callback of another type is no state of a command. -/
theorem not_isModifiedStatus {queued : Bytes} (hne : c.type ≠ stateChanged)
    (htype : (tokenize queued blank)[2]? = some (decimal c.type)) : ¬isModifiedStatus queued := by
  rintro ⟨hstate, -⟩
  rw [htype, Option.some.injEq] at hstate
  apply hne
  have hread := c.i32FromString_type
  rw [hstate] at hread
  exact (Option.some.inj ((by decide +kernel : i32FromString (decimal stateChanged) =
    some stateChanged).symm.trans hread)).symm

/-- The loop for the callbacks of a view. -/
theorem removeViewCallback_spec {viewId : Bytes} (hview : viewIdOf c.payload = some viewId)
    (hne : c.type ≠ stateChanged) (queue : List Bytes) :
    (removeViewCallback viewIdOf (tokenize c.text blank) viewId queue = none →
      ∃ m ∈ queue, extractViewId viewIdOf m (tokenize m blank) = none) ∧
    ∀ queue', removeViewCallback viewIdOf (tokenize c.text blank) viewId queue = some queue' →
      TakesOut (c.Supersedes viewIdOf) queue queue' := by
  induction queue with
  | nil =>
    refine ⟨fun h => (nomatch h), fun queue' h => ?_⟩
    obtain rfl := Option.some.inj h
    exact .none _ _
  | cons it rest ih =>
    obtain ⟨ihnone, ihsome⟩ := ih
    -- a message that is passed over
    have hpass : ((removeViewCallback viewIdOf (tokenize c.text blank) viewId rest).map (it :: ·) =
          none → ∃ m ∈ it :: rest, extractViewId viewIdOf m (tokenize m blank) = none) ∧
        ∀ queue', (removeViewCallback viewIdOf (tokenize c.text blank) viewId rest).map (it :: ·) =
          some queue' → TakesOut (c.Supersedes viewIdOf) (it :: rest) queue' := by
      constructor
      · intro h
        obtain ⟨m, hm, hread⟩ := ihnone (Option.map_eq_none_iff.mp h)
        exact ⟨m, List.mem_cons_of_mem _ hm, hread⟩
      · intro queue' h
        obtain ⟨rest', hrest, rfl⟩ := Option.map_eq_some_iff.mp h
        exact (ihsome rest' hrest).cons it
    rw [removeViewCallback]
    split
    · rename_i hsame
      obtain ⟨hcallback, htarget, htype⟩ := of_isSameCallback hsame
      split
      · rename_i hread
        exact ⟨fun _ => ⟨it, List.mem_cons_self, hread⟩, fun queue' h => nomatch h⟩
      · rename_i queuedViewId hread
        split
        · rename_i heq
          refine ⟨fun h => (nomatch h), fun queue' h => ?_⟩
          obtain rfl := Option.some.inj h
          refine .head ⟨hcallback, htarget, htype, fun hstate => absurd hstate hne, fun _ => ?_⟩ rest
          rw [hread, hview, heq]
          exact ⟨rfl, rfl⟩
        · exact hpass
    · exact hpass

/-- What `removeCallbackDuplicate` makes of a callback that is no invalidation. -/
theorem removeCallbackDuplicate_spec (hne : c.type ≠ invalidateTiles) (queue : List Bytes) :
    (removeCallbackDuplicate viewIdOf c.text queue = (queue, none) ∧ c.type ∈ lastOfViewCounts ∧
        (viewIdOf c.payload = none ∨ ∃ m ∈ queue, extractViewId viewIdOf m (tokenize m blank) = none)) ∨
      ∃ queue', removeCallbackDuplicate viewIdOf c.text queue = (queue', some c.text) ∧
        TakesOut (fun m => c.Supersedes viewIdOf m ∧ ¬isModifiedStatus m) queue queue' := by
  have htype : (tokenize c.text blank)[2]?.bind i32FromString = some c.type := by
    rw [c.tokenize_text]
    exact c.i32FromString_type
  unfold removeCallbackDuplicate
  dsimp only
  rw [htype]
  dsimp only
  rw [if_neg hne]
  split
  · -- the state of a command
    rename_i hstate
    split
    · exact .inr ⟨queue, rfl, .none _ _⟩
    · rename_i token htoken
      split
      · exact .inr ⟨queue, rfl, .none _ _⟩
      · rename_i hcommand
        obtain ⟨hempty, hmodified⟩ := not_or.mp hcommand
        refine .inr ⟨_, rfl, (takesOut_eraseP _ queue).imp fun m hm => ?_⟩
        obtain ⟨hsupersedes, hread⟩ := supersedes_of_isDuplicateCommand viewIdOf hstate
          (unoCommandOf_eq htoken hempty) hempty hm
        refine ⟨hsupersedes, fun hstatus => hmodified ?_⟩
        exact Option.some.inj (hread.symm.trans hstatus.2)
  · rename_i hstate
    split
    · -- the last one counts
      rename_i hlast
      refine .inr ⟨_, rfl, (takesOut_eraseP _ queue).imp fun m hm => ?_⟩
      obtain ⟨hcallback, htarget, htype'⟩ := of_isSameCallback hm
      refine ⟨⟨hcallback, htarget, htype', fun h => absurd h hstate, fun hview => ?_⟩,
        not_isModifiedStatus hstate htype'⟩
      have hdisjoint : ∀ k ∈ lastCounts, k ∉ lastOfViewCounts := by decide
      exact absurd hview (hdisjoint _ hlast)
    · split
      · -- the last one of each view counts
        rename_i hview
        rw [c.extractViewId_text]
        cases hread : viewIdOf c.payload with
        | none => exact .inl ⟨rfl, hview, .inl rfl⟩
        | some viewId =>
          dsimp only
          obtain ⟨hnone, hsome⟩ := removeViewCallback_spec viewIdOf hread hstate queue
          split
          · rename_i hloop
            exact .inl ⟨rfl, hview, .inr (hnone hloop)⟩
          · rename_i queue' hloop
            exact .inr ⟨queue', rfl, (hsome queue' hloop).imp fun m hm =>
              ⟨hm, not_isModifiedStatus hstate hm.type⟩⟩
      · exact .inr ⟨queue, rfl, .none _ _⟩

theorem put_eq (q : TileQueue) :
    q.put viewIdOf c.text =
      match removeCallbackDuplicate viewIdOf c.text q.queue with
      | (queue', none) => ({ q with queue := queue' }, true)
      | (queue', some newMsg) => ({ q with queue := MessageQueue.put_impl queue' newMsg }, false) := by
  have hne : c.text ≠ [] := by
    rw [Callback.text, ← List.cons_head_tail (l := ascii "callback") (by decide)]
    exact List.cons_ne_nil _ _
  rw [TileQueue.put, if_neg hne]
  dsimp only [TileQueue.put_impl]
  rw [c.getFirstToken_text, if_neg (by decide), if_neg (by decide), if_pos rfl]
  obtain ⟨queue', newMsg⟩ := removeCallbackDuplicate viewIdOf c.text q.queue
  cases newMsg <;> rfl

/-- **One put**: what it takes out is superseded. -/
theorem keepsOthers_of_ne (hne : c.type ≠ invalidateTiles) (q : TileQueue) :
    c.KeepsOthers viewIdOf q := by
  rcases removeCallbackDuplicate_spec viewIdOf hne q.queue with ⟨hremove, hview, hread⟩ |
    ⟨queue', hremove, front, removed, back, hqueue, hqueue', hlength, hall⟩
  · have hput : q.put viewIdOf c.text = (q, true) := by rw [put_eq, hremove]
    exact ⟨fun _ => by rw [hput]; exact ⟨rfl, hview, hread⟩, fun h => by rw [hput] at h; cases h⟩
  · have hput : q.put viewIdOf c.text = ({ q with queue := queue' ++ [c.text] }, false) := by
      rw [put_eq, hremove, ← c.put_impl_text]
    constructor
    · intro h
      rw [hput] at h
      cases h
    · intro _
      rw [hput, hqueue']
      exact ⟨front, removed, back, hqueue, rfl, hlength, hall⟩

/-! ## Keys -/

theorem keyOf_text :
    keyOf viewIdOf c.text = (itemOf viewIdOf c.text c.type).map (⟨c.target.text, decimal c.type, ·⟩) := by
  unfold keyOf
  rw [c.tokenize_text]
  simp only [List.getElem?_cons_zero, List.getElem?_cons_succ, guard_true, Option.bind_eq_bind,
    Option.bind_some, Option.pure_def, c.i32FromString_type]
  rw [Option.map_eq_bind]
  rfl

/-- Only callbacks have a key. -/
theorem keyOf_eq_none {m : Bytes} (h : session m ≠ ascii "callback") : keyOf viewIdOf m = none := by
  have hfirst : (tokenize m blank)[0]? ≠ some (ascii "callback") :=
    fun hfirst => h (session_of_getElem? hfirst)
  unfold keyOf
  rw [guard, if_neg hfirst]
  rfl

/-- What a callback supersedes is no callback, or it has its key. -/
theorem keyOf_of_supersedes {m : Bytes} (h : c.Supersedes viewIdOf m) :
    keyOf viewIdOf m = none ∨ keyOf viewIdOf m = keyOf viewIdOf c.text := by
  by_cases hfirst : (tokenize m blank)[0]? = some (ascii "callback")
  · right
    have hitem : itemOf viewIdOf m c.type = itemOf viewIdOf c.text c.type := by
      unfold itemOf
      split
      · rename_i hstate
        exact (h.command hstate).2
      · split
        · rfl
        · split
          · rename_i hview
            rw [c.extractViewId_text]
            exact (h.view hview).2
          · rfl
    rw [keyOf_text, ← hitem]
    unfold keyOf
    rw [hfirst, h.target, h.type]
    simp only [guard_true, Option.bind_eq_bind, Option.bind_some, Option.pure_def, c.i32FromString_type]
    rw [Option.map_eq_bind]
    rfl
  · left
    unfold keyOf
    rw [guard, if_neg hfirst]
    rfl

section Keyed

variable {viewIdOf} {key : Key} {m : Bytes}

theorem keyed_append (l l' : List Bytes) :
    keyed viewIdOf key (l ++ l') = keyed viewIdOf key l ++ keyed viewIdOf key l' :=
  List.filter_append ..

theorem keyed_singleton_of_ne (h : keyOf viewIdOf m ≠ some key) : keyed viewIdOf key [m] = [] := by
  rw [keyed, List.filter_cons_of_neg (by simpa using h), List.filter_nil]

theorem keyed_singleton (h : keyOf viewIdOf m = some key) : keyed viewIdOf key [m] = [m] := by
  rw [keyed, List.filter_cons_of_pos (by simpa using h), List.filter_nil]

theorem keyed_cons_of_ne (h : keyOf viewIdOf m ≠ some key) (l : List Bytes) :
    keyed viewIdOf key (m :: l) = keyed viewIdOf key l := by
  rw [keyed, List.filter_cons_of_neg (by simpa using h)]
  rfl

theorem keyed_cons_congr {l l' : List Bytes} (h : keyed viewIdOf key l' = keyed viewIdOf key l) :
    keyed viewIdOf key (m :: l') = keyed viewIdOf key (m :: l) := by
  rw [← List.singleton_append, ← List.singleton_append (l := l), keyed_append, keyed_append, h]

/-- What is taken out has another key. -/
theorem TakesOut.keyed_eq {P : Bytes → Prop} {queue queue' : List Bytes} (h : TakesOut P queue queue')
    (hP : ∀ m, P m → keyOf viewIdOf m ≠ some key) :
    keyed viewIdOf key queue' = keyed viewIdOf key queue := by
  obtain ⟨front, removed, back, rfl, rfl, -, hall⟩ := h
  have hremoved : keyed viewIdOf key removed = [] := by
    rw [keyed, List.filter_eq_nil_iff]
    intro m hm
    simpa using hP m (hall m hm)
  rw [keyed_append, keyed_append, keyed_append, hremoved, List.append_nil]

end Keyed

/-! ## What else is put -/

section Others

variable {viewIdOf} {key : Key}

/-- A text that starts with another letter. -/
theorem session_ne_of_head {m : Bytes} (h : m.head? = some 116) : session m ≠ ascii "callback" := by
  cases m with
  | nil => cases h
  | cons b m =>
    obtain rfl : b = 116 := Option.some.inj h
    intro hsession
    have hprefix := Typing.session_isPrefix (by decide : (116 : UInt8) ≠ blank) m
    rw [hsession] at hprefix
    obtain ⟨rest, hrest⟩ := hprefix
    exact absurd (congrArg List.head? hrest) (by simp [ascii])

theorem session_ne_of_tile {m : Bytes} (h : matchPrefix (ascii "tile") m = true) :
    session m ≠ ascii "callback" := by
  rw [matchPrefix, List.isPrefixOf_iff_prefix] at h
  obtain ⟨rest, rfl⟩ := h
  exact session_ne_of_head (by simp [ascii])

/-- A message of another session is put, or joined to one of its session. -/
theorem keyed_put_impl {value : Bytes} (h : session value ≠ ascii "callback") (queue : List Bytes) :
    keyed viewIdOf key (MessageQueue.put_impl queue value) = keyed viewIdOf key queue := by
  have hnone : ∀ {m : Bytes}, session m ≠ ascii "callback" → keyOf viewIdOf m ≠ some key := by
    intro m hm
    rw [keyOf_eq_none viewIdOf hm]
    exact nofun
  have hjoin : ∀ {front back : List Bytes} {queued new : Bytes}, session queued = session value →
      session new = (if (session value).head? = some 0 then [] else session value) →
      keyed viewIdOf key (front ++ back ++ [new]) = keyed viewIdOf key (front ++ queued :: back) := by
    intro front back queued new hqueued hnew
    have hnew' : session new ≠ ascii "callback" := by
      rw [hnew]
      split
      · decide
      · exact h
    rw [keyed_append, keyed_append, keyed_append, keyed_singleton_of_ne (hnone hnew'), List.append_nil,
      keyed_cons_of_ne (hnone (hqueued ▸ h))]
  rcases put_impl_cases queue value with hput | ⟨id, text, queuedText, front, queued, back, -, hid,
    htext, ht, hjoins, hput⟩ | ⟨id, before, after, r, front, queued, back, -, hid, ht, hjoins, hput⟩
  · rw [hput, keyed_append, keyed_singleton_of_ne (hnone h), List.append_nil]
  · obtain ⟨hq, -, hqueued⟩ := of_queuedTextInput hjoins.found
    rw [hput, hjoins.split]
    exact hjoin hq (session_message ht (by decide) (writable_textInput hid (hqueued.append htext)))
  · obtain ⟨hq, -⟩ := of_queuedRemoveText hjoins.found
    rw [hput, hjoins.split]
    exact hjoin hq (session_message ht (by decide) (writable_removeText hid _ _))

/-- What a tile takes the place of starts as it does. -/
theorem session_ne_of_isTileDuplicate {tileMsg queued : Bytes}
    (htile : matchPrefix (ascii "tile") tileMsg = true)
    (h : isTileDuplicate tileMsg queued = true) : session queued ≠ ascii "callback" := by
  rw [matchPrefix, List.isPrefixOf_iff_prefix] at htile
  obtain ⟨rest, rfl⟩ := htile
  rw [isTileDuplicate, Bool.and_eq_true, decide_eq_true_iff, strncmpEq, beq_iff_eq] at h
  obtain ⟨hlength, hsame⟩ := h
  -- the text is compared from its first letter on
  have hpos : ∃ n, newMsgPos (ascii "tile" ++ rest) = n + 1 := by
    have hsearch : search (ascii " ver") (ascii "tile" ++ rest) =
        (search (ascii " ver") (ascii "ile" ++ rest)).map (· + 1) := rfl
    rw [newMsgPos, hsearch]
    cases search (ascii " ver") (ascii "ile" ++ rest) with
    | none => exact ⟨rest.length + 2, by simp [ascii]⟩
    | some i => exact ⟨i, rfl⟩
  obtain ⟨n, hn⟩ := hpos
  cases queued with
  | nil => simp at hlength
  | cons b queued =>
    have hfirst : ((ascii "tile" ++ rest).take (n + 1)).takeWhile (· != 0) =
        116 :: ((ascii "ile" ++ rest).take n).takeWhile (· != 0) := rfl
    rw [hn, hfirst, List.take_succ_cons, List.takeWhile_cons] at hsame
    split at hsame
    · exact session_ne_of_head (congrArg some (List.cons.inj hsame).1.symm)
    · cases hsame

theorem keyed_putTile {tileMsg : Bytes} (h : matchPrefix (ascii "tile") tileMsg = true)
    (queue : List Bytes) : keyed viewIdOf key (putTile queue tileMsg) = keyed viewIdOf key queue := by
  rw [putTile, keyed_put_impl (session_ne_of_tile h)]
  refine (takesOut_eraseP _ queue).keyed_eq fun m hm => ?_
  rw [keyOf_eq_none viewIdOf (session_ne_of_isTileDuplicate h hm)]
  exact nofun

/-- A text that is written for a tile. -/
theorem matchPrefix_serialize (t : TileDesc) :
    matchPrefix (ascii "tile") (t.serialize (ascii "tile")) = true := by
  rw [matchPrefix, List.isPrefixOf_iff_prefix]
  exact List.prefix_append _ _

/-- **What else is put** leaves the callbacks as they are. -/
theorem keyed_put {value : Bytes} (h : session value ≠ ascii "callback") (q : TileQueue) :
    keyed viewIdOf key (q.put viewIdOf value).1.queue = keyed viewIdOf key q.queue := by
  unfold TileQueue.put
  split
  · rfl
  · dsimp only [TileQueue.put_impl]
    split
    · split
      · rfl
      · rename_i tileCombined hparse
        dsimp only
        generalize q.queue = queue
        induction tileCombined.tiles generalizing queue with
        | nil => rfl
        | cons tile tiles ih =>
          rw [List.foldl_cons, ih, keyed_putTile (matchPrefix_serialize tile)]
    · split
      · rename_i hword
        refine keyed_putTile ?_ q.queue
        rw [matchPrefix, List.isPrefixOf_iff_prefix, ← hword]
        exact List.takeWhile_prefix _
      · split
        · -- a first token that ends at a blank is the first token
          rename_i hword
          have hhead := head_tokenize hword (by decide) (by decide)
          rw [List.head?_eq_getElem?] at hhead
          exact absurd (session_of_getElem? hhead) h
        · exact keyed_put_impl h q.queue

/-! ## Invalidations -/

/-- An invalidation has no key. -/
theorem keyOf_of_type {m : Bytes} (h : (tokenize m blank)[2]? = some (decimal invalidateTiles)) :
    keyOf viewIdOf m = none := by
  have htype : i32FromString (decimal invalidateTiles) = some invalidateTiles := by decide +kernel
  have hitem : itemOf viewIdOf m invalidateTiles = none := by
    unfold itemOf
    rw [if_neg (by decide), if_neg (by decide), if_neg (by decide)]
  unfold keyOf
  simp only [h, Option.bind_eq_bind, Option.bind_some, htype, hitem, Option.bind_none,
    Option.bind_fun_none]

/-- What an invalidation is joined with is one. -/
theorem keyed_coalesce (htype : c.type = invalidateTiles) (msg : Invalidation) (queue : List Bytes) :
    keyed viewIdOf key (coalesce (tokenize c.text blank) msg queue).2.2 = keyed viewIdOf key queue := by
  induction queue generalizing msg with
  | nil => rfl
  | cons it rest ih =>
    rw [coalesce]
    split
    · exact keyed_cons_congr (ih msg)
    · rename_i queued hqueued
      have hnone : keyOf viewIdOf it ≠ some key := by
        have hsame : sameTarget (tokenize it blank) (tokenize c.text blank) = true := by
          simp only [queuedInvalidation, Option.bind_eq_bind, Option.bind_eq_some_iff] at hqueued
          obtain ⟨_, hguard, -⟩ := hqueued
          simpa [guard] using hguard
        obtain ⟨-, -, hkind⟩ := of_sameTarget hsame
        rw [htype] at hkind
        rw [keyOf_of_type hkind]
        intro hsome
        cases hsome
      split
      · rw [ih, keyed_cons_of_ne hnone]
      · split
        · exact (ih _).trans (keyed_cons_of_ne hnone rest).symm
        · exact keyed_cons_congr (ih msg)

/-- The joined message has the same three tokens. -/
theorem exists_mergedText {msg : Invalidation} {newMsg : Bytes}
    (h : mergedText c.text (tokenize c.text blank) msg = some newMsg) :
    ∃ payload, newMsg = ({ c with payload := payload } : Callback).text := by
  have htake : c.text.take c.front.length = c.front := by rw [c.text_eq, List.take_left]
  simp only [mergedText, c.length_front, htake, Option.bind_eq_bind, Option.bind_eq_some_iff,
    Option.pure_def, Option.some.injEq] at h
  obtain ⟨rest, -, rfl⟩ := h
  refine ⟨decimal msg.x ++ (ascii ", " ++ (decimal msg.y ++ (ascii ", " ++ (decimal msg.w ++
    (ascii ", " ++ (decimal msg.h ++ (ascii ", " ++ rest))))))), ?_⟩
  rw [Callback.text_eq]
  simp only [List.append_assoc]
  rfl

/-- **An invalidation** leaves the other callbacks as they are. -/
theorem keyed_put_invalidation (htype : c.type = invalidateTiles) (q : TileQueue) :
    keyed viewIdOf key (q.put viewIdOf c.text).1.queue = keyed viewIdOf key q.queue := by
  have hkind : ∀ payload, keyOf viewIdOf ({ c with payload := payload } : Callback).text ≠ some key := by
    intro payload
    rw [keyOf_of_type (by rw [Callback.tokenize_text, ← htype]; rfl)]
    exact nofun
  rw [put_eq]
  have hread : (tokenize c.text blank)[2]?.bind i32FromString = some c.type := by
    rw [c.tokenize_text]
    exact c.i32FromString_type
  unfold removeCallbackDuplicate
  dsimp only
  rw [hread]
  dsimp only
  rw [if_pos htype]
  cases extractRectangle (tokenize c.text blank) with
  | none =>
    dsimp only
    rw [c.put_impl_text, keyed_append, keyed_singleton_of_ne (hkind c.payload), List.append_nil]
  | some msg =>
    dsimp only
    have hcoalesce : keyed viewIdOf key (coalesce (tokenize c.text blank) msg q.queue).2.2 =
        keyed viewIdOf key q.queue := keyed_coalesce htype msg q.queue
    generalize coalesce (tokenize c.text blank) msg q.queue = r at *
    cases hjoined : r.2.1 with
    | false =>
      rw [if_neg Bool.false_ne_true]
      dsimp only
      rw [c.put_impl_text, keyed_append, keyed_singleton_of_ne (hkind c.payload), List.append_nil,
        hcoalesce]
    | true =>
      rw [if_pos rfl]
      cases hmerged : mergedText c.text (tokenize c.text blank) r.1 with
      | none => exact hcoalesce
      | some newMsg =>
        obtain ⟨payload, rfl⟩ := exists_mergedText hmerged
        dsimp only
        rw [Callback.put_impl_text, keyed_append, keyed_singleton_of_ne (hkind payload), List.append_nil,
          hcoalesce]

/-! ## What is handed out -/

theorem keyOf_of_tile {m : Bytes} (h : matchPrefix (ascii "tile") m = true) :
    keyOf viewIdOf m ≠ some key := by
  rw [keyOf_eq_none viewIdOf (session_ne_of_tile h)]
  exact nofun

theorem tile_of_isPlainTile {m : Bytes} (h : isPlainTile m = true) : matchPrefix (ascii "tile") m = true := by
  rw [isPlainTile, Bool.and_eq_true] at h
  exact h.1

/-- The tile to begin with is a tile. -/
theorem isPlainTile_of_prioritize {priority : TileDesc → Int} {highest prioritySoFar : Int}
    {done rest : List Bytes} {prioritized i : Nat}
    (hbest : ∃ m, (done ++ rest)[prioritized]? = some m ∧ isPlainTile m = true)
    (h : prioritize priority highest done.length rest prioritized prioritySoFar = some i) :
    ∃ m, (done ++ rest)[i]? = some m ∧ isPlainTile m = true := by
  induction rest generalizing done prioritized prioritySoFar with
  | nil =>
    obtain rfl := Option.some.inj h
    exact hbest
  | cons it rest ih =>
    have hmove : done ++ it :: rest = (done ++ [it]) ++ rest := by simp
    have hlength : done.length + 1 = (done ++ [it]).length := by simp
    rw [prioritize] at h
    split at h
    · rename_i hplain
      have hhere : ∃ m, (done ++ it :: rest)[done.length]? = some m ∧ isPlainTile m = true :=
        ⟨it, by simp, hplain⟩
      split at h
      · cases h
      · split at h
        · split at h
          · obtain rfl := Option.some.inj h
            exact hhere
          · rw [hlength] at h
            rw [hmove] at hhere ⊢
            exact ih hhere h
        · rw [hlength] at h
          rw [hmove] at hbest ⊢
          exact ih hbest h
    · obtain rfl := Option.some.inj h
      exact hbest

theorem keyed_eraseIdx {queue : List Bytes} {i : Nat} {m : Bytes} (hm : queue[i]? = some m)
    (hne : keyOf viewIdOf m ≠ some key) :
    keyed viewIdOf key (queue.eraseIdx i) = keyed viewIdOf key queue := by
  induction queue generalizing i with
  | nil => rfl
  | cons front rest ih =>
    cases i with
    | zero =>
      obtain rfl : front = m := Option.some.inj hm
      rw [keyed_cons_of_ne hne]
      rfl
    | succ i => exact keyed_cons_congr (ih hm)

/-- The tiles that go with the first one are tiles. -/
theorem keyed_combineTiles (first : TileDesc) (queue : List Bytes) :
    keyed viewIdOf key (combineTiles first queue).2.1 = keyed viewIdOf key queue := by
  induction queue with
  | nil => rfl
  | cons it rest ih =>
    rw [combineTiles]
    split
    · rename_i hplain
      split
      · rfl
      · dsimp only
        split
        · rw [keyed_cons_of_ne (keyOf_of_tile (tile_of_isPlainTile hplain))]
          exact ih
        · exact keyed_cons_congr ih
    · exact keyed_cons_congr ih

theorem keyed_deprioritizePreviews (n : Nat) (queue : List Bytes) :
    keyed viewIdOf key (deprioritizePreviews n queue) = keyed viewIdOf key queue := by
  induction n generalizing queue with
  | zero => cases queue <;> rfl
  | succ n ih =>
    cases queue with
    | nil => rfl
    | cons front rest =>
      rw [deprioritizePreviews]
      split
      · rename_i hpreview
        rw [isPreviewTile, Bool.and_eq_true] at hpreview
        have hne : keyOf viewIdOf front ≠ some key := keyOf_of_tile hpreview.1
        rw [ih, keyed_append, keyed_singleton_of_ne hne, List.append_nil, keyed_cons_of_ne hne]
      · rfl

/-- What is handed out for tiles is no callback. -/
theorem keyed_messageOf (first : TileDesc) (tiles : List TileDesc) :
    keyed viewIdOf key (TileQueue.messageOf first tiles).toList = [] := by
  cases tiles with
  | nil => exact keyed_singleton_of_ne (keyOf_of_tile (matchPrefix_serialize first))
  | cons tile tiles =>
    unfold TileQueue.messageOf
    dsimp only
    cases TileCombined.create first
      (dropDuplicates ((tile :: tiles).length + 1) (first :: tile :: tiles)) with
    | none => rfl
    | some combined =>
      refine keyed_singleton_of_ne (keyOf_of_tile ?_)
      rw [matchPrefix, List.isPrefixOf_iff_prefix]
      have hword : ascii "tile" <+: ascii "tilecombine" := by decide
      exact hword.trans (List.prefix_append _ _)

/-- **A pop** hands out the callback that is next, or none. -/
theorem keyed_pop (q : TileQueue) :
    keyed viewIdOf key q.pop.1.toList ++ keyed viewIdOf key q.pop.2.queue =
      keyed viewIdOf key q.queue := by
  unfold TileQueue.pop
  split
  · rename_i hqueue
    have hempty : keyOf viewIdOf [] ≠ some key := by
      rw [keyOf_eq_none viewIdOf (by decide)]
      exact nofun
    rw [Option.toList_some, keyed_singleton_of_ne hempty, List.nil_append]
  · rename_i front rest hqueue
    unfold TileQueue.get_impl
    split
    · rename_i hplain
      split
      · rfl
      · rename_i prioritized hprioritize
        have hbest : ∃ m, ([] ++ front :: rest)[0]? = some m ∧ isPlainTile m = true :=
          ⟨front, rfl, hplain⟩
        obtain ⟨m, hm, hmplain⟩ := isPlainTile_of_prioritize hbest hprioritize
        rw [List.nil_append] at hm
        have herase : keyed viewIdOf key ((front :: rest).eraseIdx prioritized) =
            keyed viewIdOf key (front :: rest) :=
          keyed_eraseIdx hm (keyOf_of_tile (tile_of_isPlainTile hmplain))
        dsimp only
        split
        · rw [hqueue]
          exact herase
        · rename_i first hread
          have hcombine : keyed viewIdOf key
              (combineTiles first ((front :: rest).eraseIdx prioritized)).2.1 =
              keyed viewIdOf key ((front :: rest).eraseIdx prioritized) :=
            keyed_combineTiles first _
          split
          · rw [hqueue, ← herase]
            exact hcombine
          · rw [hqueue, ← herase, keyed_messageOf, List.nil_append]
            exact hcombine
    · rw [hqueue, Option.toList_some, ← List.singleton_append (l := rest), keyed_append]
      congr 1
      dsimp only
      split
      · exact keyed_deprioritizePreviews _ _
      · rfl

end Others

/-! ## The final state -/

namespace Callbacks

/-- Of the messages with a key, the last one that was put is the last one of all that was handed out
or is queued. -/
def Inv (s : Callbacks) : Prop :=
  ∀ key, (keyed viewIdOf key s.delivered ++ keyed viewIdOf key s.queue.queue).getLast? =
    (keyed viewIdOf key s.sent).getLast?

theorem Inv.finalKept {s : Callbacks} (h : s.Inv viewIdOf) : s.FinalKept viewIdOf := by
  constructor
  · intro key hempty
    rw [← h key, hempty, List.append_nil]
  · intro key hne
    rw [← h key, List.getLast?_append_of_ne_nil _ hne]

/-- A put that leaves the queued messages of a key as they are. -/
theorem getLast?_put_of_ne {s : Callbacks} (h : s.Inv viewIdOf) {value : Bytes} {key : Key}
    (hne : keyOf viewIdOf value ≠ some key)
    (hqueue : keyed viewIdOf key (s.queue.put viewIdOf value).1.queue =
      keyed viewIdOf key s.queue.queue) :
    (keyed viewIdOf key (s.put viewIdOf value).delivered ++
        keyed viewIdOf key (s.put viewIdOf value).queue.queue).getLast? =
      (keyed viewIdOf key (s.put viewIdOf value).sent).getLast? := by
  have hsent : keyed viewIdOf key (s.put viewIdOf value).sent = keyed viewIdOf key s.sent := by
    unfold put
    dsimp only
    split
    · rfl
    · rw [keyed_append, keyed_singleton_of_ne hne, List.append_nil]
  rw [hsent, ← h key, ← hqueue]
  rfl

theorem Inv.callback {s : Callbacks} (h : s.Inv viewIdOf) (c : Callback) :
    (s.put viewIdOf c.text).Inv viewIdOf := by
  intro key
  by_cases htype : c.type = invalidateTiles
  · refine getLast?_put_of_ne viewIdOf h ?_ (keyed_put_invalidation htype s.queue)
    rw [keyOf_of_type (by rw [c.tokenize_text, ← htype]; rfl)]
    exact nofun
  obtain ⟨hthrown, hput⟩ := keepsOthers_of_ne viewIdOf htype s.queue
  cases hthrew : (s.queue.put viewIdOf c.text).2 with
  | true =>
    have hsame : s.put viewIdOf c.text = s := by
      unfold put
      dsimp only
      rw [(hthrown hthrew).1, hthrew]
      rfl
    rw [hsame]
    exact h key
  | false =>
    obtain ⟨front, removed, back, hqueue, hqueue', hlength, hall⟩ := hput hthrew
    by_cases hkey : keyOf viewIdOf c.text = some key
    · -- the callback is the last one with its key, on both sides
      have hlast : keyed viewIdOf key (s.put viewIdOf c.text).queue.queue =
          keyed viewIdOf key (front ++ back) ++ [c.text] := by
        unfold put
        dsimp only
        rw [hqueue']
        dsimp only
        rw [keyed_append, keyed_singleton hkey]
      have hsent : keyed viewIdOf key (s.put viewIdOf c.text).sent =
          keyed viewIdOf key s.sent ++ [c.text] := by
        unfold put
        dsimp only
        rw [hthrew, if_neg Bool.false_ne_true, keyed_append, keyed_singleton hkey]
      rw [hlast, hsent, ← List.append_assoc, List.getLast?_concat, List.getLast?_concat]
    · refine getLast?_put_of_ne viewIdOf h hkey ?_
      have htakes : TakesOut (c.Supersedes viewIdOf) s.queue.queue (front ++ back) :=
        ⟨front, removed, back, hqueue, rfl, hlength, fun m hm => (hall m hm).1⟩
      rw [hqueue']
      dsimp only
      rw [keyed_append, keyed_singleton_of_ne hkey, List.append_nil]
      refine htakes.keyed_eq fun m hm hmkey => ?_
      rcases keyOf_of_supersedes viewIdOf hm with hnone | hsame
      · rw [hnone] at hmkey
        cases hmkey
      · exact hkey (hsame.symm.trans hmkey)

/-- **One step.** -/
theorem Inv.act {s : Callbacks} (h : s.Inv viewIdOf) (a : Action) : (s.act viewIdOf a).Inv viewIdOf := by
  cases a with
  | callback c => exact h.callback viewIdOf c
  | message value hvalue =>
    intro key
    have hsession : session value ≠ ascii "callback" := by
      intro hsession
      apply hvalue
      rw [session, List.headD_eq_head?_getD] at hsession
      cases hhead : (tokenize value blank).head? with
      | none =>
        rw [hhead] at hsession
        exact absurd hsession (by decide)
      | some word =>
        rw [hhead] at hsession
        exact congrArg some hsession
    refine getLast?_put_of_ne viewIdOf h ?_ (keyed_put hsession s.queue)
    rw [keyOf_eq_none viewIdOf hsession]
    intro hnone
    cases hnone
  | pop =>
    intro key
    change (keyed viewIdOf key (s.delivered ++ s.queue.pop.1.toList) ++
      keyed viewIdOf key s.queue.pop.2.queue).getLast? = _
    rw [keyed_append, List.append_assoc, keyed_pop]
    exact h key
  | updateCursorPosition viewId cursorPosition => exact h
  | removeCursorPosition viewId => exact h

theorem inv_init : init.Inv viewIdOf := fun _ => rfl

end Callbacks

/-- What is said of one put holds for every queue and every callback but the invalidations, and every
run keeps the final state. -/
theorem callbacks_finalKept :
    (∀ (c : Callback) (q : TileQueue), c.type ≠ invalidateTiles → c.KeepsOthers viewIdOf q) ∧
      ∀ as : List Callbacks.Action,
        Run.Always (Callbacks.act viewIdOf) (Callbacks.FinalKept viewIdOf) Callbacks.init as := by
  constructor
  · intro c q hne
    exact keepsOthers_of_ne viewIdOf hne q
  · intro as
    exact Run.always_of_inv (fun _ hs => hs.finalKept viewIdOf) (fun _ a hs => hs.act viewIdOf a)
      (Callbacks.inv_init viewIdOf)

end ViewId

/-- The cursor of the third view, at one place and at another. -/
def viewCursor (rectangle : Bytes) : Callback :=
  ⟨.view 1, 24, by decide, ascii "\x7b\"viewId\":\"3\",\"rectangle\":\"" ++ rectangle ++ ascii "\"\x7d"⟩

/-- The `viewId` of these. -/
def thirdView (payload : Bytes) : Option Bytes :=
  if matchPrefix (ascii "\x7b\"viewId\":\"3\"") payload then some (ascii "3") else none

theorem finalKept_viewCursor :
    (thirdView (viewCursor (ascii "0, 0, 0, 9")).payload = some (ascii "3") ∧
      (viewCursor (ascii "5, 0, 0, 9")).KeepsOthers thirdView
        ⟨[(viewCursor (ascii "0, 0, 0, 9")).text], [], []⟩) ∧
      Run.Always (Callbacks.act thirdView) (Callbacks.FinalKept thirdView) Callbacks.init
        [.callback (viewCursor (ascii "0, 0, 0, 9")), .callback (viewCursor (ascii "5, 0, 0, 9")), .pop] :=
  ⟨⟨by decide +kernel, (callbacks_finalKept thirdView).1 _ _ (by decide)⟩,
    (callbacks_finalKept thirdView).2 _⟩

end Oxool.Kit
