import Oxool.Common.Protocol
import Oxool.Lib.Merging

/-!
# The kit's message queue (`common/MessageQueue.hpp`)

`MessageQueue` is a queue of messages in which typing is put together: a `textinput` is joined to an
earlier one of its session that is still queued, and a `removetextcontext` to an earlier one. The
search goes from the back and gives up at a list of commands that must not be passed. What it does
not give up at it passes over, and the joined message takes its place at the end of the queue.

Here is the queue and what one `put` makes of the commands of a session (`commands_put`): if nothing
of the session stands behind the message that is joined to, then two adjacent commands became one.
-/

set_option autoImplicit false

namespace Oxool.Kit

open Oxool.Http (Bytes ascii)
open Oxool.Protocol

/-! ## The queue -/

/-- `StringVector::equals`, for two first tokens. -/
def sameFirst (queuedTokens tokens : List Bytes) : Bool :=
  queuedTokens.head?.isSome && queuedTokens.head? == tokens.head?

/-- No combination is possible past such a message. -/
def isBarrier (commands : List Bytes) (tokens : List Bytes) (queued : Bytes) : Bool :=
  let queuedTokens := tokenize queued blank
  queuedTokens.length == 1 ||
    (sameFirst queuedTokens tokens && commands.any fun c => queuedTokens[1]? == some c)

/-- The loop from the back of the queue, over the queue in reverse: what `take` finds in the first
message it accepts, and the queue without that message. -/
def walkBack {β : Type} (stop : Bytes → Bool) (take : Bytes → Option β) :
    List Bytes → Option (β × List Bytes)
  | [] => none
  | queued :: rest =>
    if stop queued then none
    else
      match take queued with
      | some found => some (found, rest)
      | none => (walkBack stop take rest).map fun r => (r.1, queued :: r.2)

/-- `walkBack` on the queue as it stands. -/
def combine {β : Type} (stop : Bytes → Bool) (take : Bytes → Option β) (queue : List Bytes) :
    Option (β × List Bytes) :=
  (walkBack stop take queue.reverse).map fun r => (r.1, r.2.reverse)

def textInputBarriers : List Bytes :=
  [ascii "key", ascii "mouse", ascii "removetextcontext", ascii "windowkey"]

def removeTextBarriers : List Bytes :=
  [ascii "key", ascii "mouse", ascii "textinput", ascii "windowkey"]

/-- The text of a queued `textinput` of the same session and the same window. -/
def queuedTextInput (tokens : List Bytes) (id queued : Bytes) : Option Bytes :=
  let queuedTokens := tokenize queued blank
  if sameFirst queuedTokens tokens && queuedTokens[1]? == some (ascii "textinput") &&
      getTokenString queuedTokens (ascii "id") == some id then
    getTokenString queuedTokens (ascii "text")
  else none

/-- `combineTextInput`: the new message and the queue without the one it joins. -/
def combineTextInput (queue tokens : List Bytes) : Option (Bytes × List Bytes) := do
  let id ← getTokenString tokens (ascii "id")
  let text ← getTokenString tokens (ascii "text")
  let r ← combine (isBarrier textInputBarriers tokens) (queuedTextInput tokens id) queue
  return (tokens.headD [] ++ ascii " textinput id=" ++ id ++ ascii " text=" ++ r.1 ++ text, r.2)

/-- The counts of a queued `removetextcontext` of the same session and the same window. -/
def queuedRemoveText (tokens : List Bytes) (id queued : Bytes) : Option (Int × Int) :=
  let queuedTokens := tokenize queued blank
  if sameFirst queuedTokens tokens && queuedTokens[1]? == some (ascii "removetextcontext") &&
      getTokenStringFromMessage queued (ascii "id") == some id then do
    let before ← getTokenIntegerFromMessage queued (ascii "before")
    let after ← getTokenIntegerFromMessage queued (ascii "after")
    return (before, after)
  else none

/-- `combineRemoveText`; the sums are sums of `int`s. -/
def combineRemoveText (queue tokens : List Bytes) : Option (Bytes × List Bytes) := do
  let id ← getTokenString tokens (ascii "id")
  let before ← getTokenInteger tokens (ascii "before")
  let after ← getTokenInteger tokens (ascii "after")
  let r ← combine (isBarrier removeTextBarriers tokens) (queuedRemoveText tokens id) queue
  return (tokens.headD [] ++ ascii " removetextcontext id=" ++ id ++
    ascii " before=" ++ decimal (toInt32 (r.1.1 + before)) ++
    ascii " after=" ++ decimal (toInt32 (r.1.2 + after)), r.2)

/-- `MessageQueue::put_impl`. -/
def MessageQueue.put_impl (queue : List Bytes) (value : Bytes) : List Bytes :=
  let tokens := tokenize value blank
  let combined :=
    if tokens[1]? = some (ascii "textinput") then combineTextInput queue tokens
    else if tokens[1]? = some (ascii "removetextcontext") then combineRemoveText queue tokens
    else none
  match combined with
  | some r => r.2 ++ [r.1]
  | none => queue ++ [value]

/-! ## Commands -/

/-- What a session's message says: typing, or anything else. -/
inductive Command
  | textinput (id text : Bytes)
  | removetextcontext (id : Bytes) (before after : Int)
  | other (message : Bytes)
deriving DecidableEq

/-- The session a message belongs to. -/
def session (message : Bytes) : Bytes := (tokenize message blank).headD []

def textInput? (tokens : List Bytes) : Option Command := do
  guard (tokens[1]? = some (ascii "textinput"))
  return .textinput (← getTokenString tokens (ascii "id")) (← getTokenString tokens (ascii "text"))

def removeText? (tokens : List Bytes) : Option Command := do
  guard (tokens[1]? = some (ascii "removetextcontext"))
  return .removetextcontext (← getTokenString tokens (ascii "id"))
    (← getTokenInteger tokens (ascii "before")) (← getTokenInteger tokens (ascii "after"))

def command (message : Bytes) : Command :=
  let tokens := tokenize message blank
  ((textInput? tokens).or (removeText? tokens)).getD (.other message)

/-- What two commands in a row come to, where they can be put together. -/
def mergeCommands : Command → Command → Option Command
  | .textinput id text, .textinput id' text' =>
    if id = id' then some (.textinput id (text ++ text')) else none
  | .removetextcontext id before after, .removetextcontext id' before' after' =>
    if id = id' then some (.removetextcontext id (before + before') (after + after')) else none
  | _, _ => none

/-- The commands of one session. -/
def commandsOf (σ : Bytes) (messages : List Bytes) : List Command :=
  (messages.filter fun m => session m = σ).map command

/-- The message that `combine` joins to: the first from the back that `take` accepts, where nothing
behind it stops the search. -/
structure Joins {β : Type} (stop : Bytes → Bool) (take : Bytes → Option β) (queue front : List Bytes)
    (queued : Bytes) (back : List Bytes) (found : β) : Prop where
  split : queue = front ++ queued :: back
  found : take queued = some found
  passed : ∀ m ∈ back, stop m = false ∧ take m = none

/-- A `put` that joins two commands only where the session has sent nothing in between. The counts
have to fit into an `int`, and the window of the queued message has to stand in its first line. -/
def Harmless (queue : List Bytes) (value : Bytes) : Prop :=
  let tokens := tokenize value blank
  match command value with
  | .textinput id _ =>
    ∀ front queued back text,
      Joins (isBarrier textInputBarriers tokens) (queuedTextInput tokens id) queue front queued back
        text → ∀ m ∈ back, session m ≠ session value
  | .removetextcontext id before after =>
    ∀ front queued back r,
      Joins (isBarrier removeTextBarriers tokens) (queuedRemoveText tokens id) queue front queued back
        r → (∀ m ∈ back, session m ≠ session value) ∧
          getTokenString (tokenize queued blank) (ascii "id") = some id ∧
          IsInt32 (r.1 + before) ∧ IsInt32 (r.2 + after)
  | .other _ => True

/-- A session of the kit. -/
def isChild (σ : Bytes) : Bool := (ascii "child-").isPrefixOf σ

/-! ## What a put does -/

theorem walkBack_eq_some {β : Type} {stop : Bytes → Bool} {take : Bytes → Option β}
    {l rest : List Bytes} {found : β} (h : walkBack stop take l = some (found, rest)) :
    ∃ back queued front, l = back ++ queued :: front ∧ rest = back ++ front ∧
      take queued = some found ∧ ∀ m ∈ back, stop m = false ∧ take m = none := by
  induction l generalizing rest with
  | nil => simp [walkBack] at h
  | cons queued l ih =>
    rw [walkBack] at h
    split at h
    · simp at h
    · rename_i hstop
      cases htake : take queued with
      | some found' =>
        simp only [htake, Option.some.injEq, Prod.mk.injEq] at h
        obtain ⟨rfl, rfl⟩ := h
        exact ⟨[], queued, l, rfl, rfl, htake, by simp⟩
      | none =>
        simp only [htake, Option.map_eq_some_iff] at h
        obtain ⟨⟨found', rest'⟩, hrest, heq⟩ := h
        simp only [Prod.mk.injEq] at heq
        obtain ⟨rfl, rfl⟩ := heq
        obtain ⟨back, q, front, rfl, rfl, hq, hback⟩ := ih hrest
        refine ⟨queued :: back, q, front, rfl, rfl, hq, ?_⟩
        intro m hm
        rcases List.mem_cons.mp hm with rfl | hm
        · exact ⟨by simpa using hstop, htake⟩
        · exact hback m hm

theorem combine_eq_some {β : Type} {stop : Bytes → Bool} {take : Bytes → Option β}
    {queue rest : List Bytes} {found : β} (h : combine stop take queue = some (found, rest)) :
    ∃ front queued back, Joins stop take queue front queued back found ∧ rest = front ++ back := by
  obtain ⟨⟨found', rest'⟩, hwalk, heq⟩ := Option.map_eq_some_iff.mp h
  simp only [Prod.mk.injEq] at heq
  obtain ⟨rfl, rfl⟩ := heq
  obtain ⟨back, queued, front, hsplit, rfl, hfound, hpassed⟩ := walkBack_eq_some hwalk
  refine ⟨front.reverse, queued, back.reverse, ⟨?_, hfound, ?_⟩, by simp⟩
  · rw [List.reverse_eq_iff] at hsplit
    simpa using hsplit
  · exact fun m hm => hpassed m (List.mem_reverse.mp hm)

theorem head_of_isChild {σ : Bytes} (h : isChild σ) : ∃ rest, σ = ascii "child-" ++ rest := by
  obtain ⟨rest, hrest⟩ := List.isPrefixOf_iff_prefix.mp h
  exact ⟨rest, hrest.symm⟩

theorem head_ne_zero {σ : Bytes} (h : isChild σ) : σ.head? ≠ some 0 := by
  obtain ⟨rest, rfl⟩ := head_of_isChild h
  simp [ascii]

theorem command_of_textInput {message : Bytes} {id text : Bytes}
    (h1 : (tokenize message blank)[1]? = some (ascii "textinput"))
    (hid : getTokenString (tokenize message blank) (ascii "id") = some id)
    (htext : getTokenString (tokenize message blank) (ascii "text") = some text) :
    command message = .textinput id text := by
  simp [command, textInput?, h1, hid, htext]

theorem command_of_removeText {message : Bytes} {id : Bytes} {before after : Int}
    (h1 : (tokenize message blank)[1]? = some (ascii "removetextcontext"))
    (hid : getTokenString (tokenize message blank) (ascii "id") = some id)
    (hbefore : getTokenInteger (tokenize message blank) (ascii "before") = some before)
    (hafter : getTokenInteger (tokenize message blank) (ascii "after") = some after) :
    command message = .removetextcontext id before after := by
  have hne : ¬ ascii "removetextcontext" = ascii "textinput" := by decide
  simp [command, textInput?, removeText?, h1, hid, hbefore, hafter, hne]

/-- A session is no field of a message. -/
theorem tokenString_child {name t : Bytes} (hname : (name ++ [equalSign]).head? ≠ some 99)
    (hchild : isChild t) : tokenString name t = none := by
  obtain ⟨rest, rfl⟩ := head_of_isChild hchild
  have hfirst : ascii "child-" ++ rest = 99 :: (ascii "hild-" ++ rest) := rfl
  rw [tokenString, if_neg]
  cases hn : name ++ [equalSign] with
  | nil => simp at hn
  | cons b l =>
    rw [hn, List.head?_cons, ne_eq, Option.some.injEq] at hname
    rw [hfirst, List.isPrefixOf_iff_prefix]
    exact fun hpre => hname (List.cons_prefix_cons.mp hpre).1

/-- The fields of a message that is put together. -/
def Writable (pairs : List (Bytes × Bytes)) : Prop :=
  ∀ p ∈ pairs, Plain blank p.1 ∧ equalSign ∉ p.1 ∧ Plain blank p.2

/-- A message for a session: a word and some fields. -/
def message (t word : Bytes) (pairs : List (Bytes × Bytes)) : Bytes :=
  t ++ fields blank (word :: pairs.map fun p => pair p.1 p.2)

section Message

variable {t word : Bytes} {pairs : List (Bytes × Bytes)} (ht : IsToken blank t)
  (hword : IsToken blank word) (hpairs : Writable pairs)

include ht hword hpairs

theorem tokenize_message (h0 : t.head? ≠ some 0) :
    tokenize (message t word pairs) blank = t :: word :: pairs.map fun p => pair p.1 p.2 := by
  refine tokenize_fields (by decide) h0 ht ?_
  intro u hu
  rcases List.mem_cons.mp hu with rfl | hu
  · exact hword
  · obtain ⟨p, hp, rfl⟩ := List.mem_map.mp hu
    exact isToken_pair (hpairs p hp).1 (hpairs p hp).2.2

/-- A message that starts with NUL has no tokens, and so no session. -/
theorem session_message :
    session (message t word pairs) = if t.head? = some 0 then [] else t := by
  split
  · rename_i h0
    have hhead : (message t word pairs).head? = some 0 := by
      rw [message, List.head?_append_of_ne_nil _ ht.1, h0]
    rw [session, tokenize, if_pos hhead]
    rfl
  · rename_i h0
    rw [session, tokenize_message ht hword hpairs h0]
    rfl

variable (hchild : isChild t)

include hchild

theorem getTokenString_message {name : Bytes} (hname : equalSign ∉ name)
    (hfirst : (name ++ [equalSign]).head? ≠ some 99) (hskip : tokenString name word = none) :
    getTokenString (tokenize (message t word pairs) blank) name = pairs.lookup name := by
  rw [tokenize_message ht hword hpairs (head_ne_zero hchild),
    ← getTokenString_pairs hname fun p hp => (hpairs p hp).2.1, getTokenString, List.findSome?_cons,
    tokenString_child hfirst hchild, List.findSome?_cons, hskip]
  rfl

theorem getTokenInteger_message {name : Bytes} (hname : equalSign ∉ name)
    (hfirst : (name ++ [equalSign]).head? ≠ some 99) (hskip : tokenString name word = none) {n : Int}
    (hn : IsInt32 n) (h : pairs.lookup name = some (decimal n)) :
    getTokenInteger (tokenize (message t word pairs) blank) name = some n := by
  have hint := getTokenInteger_pairs hname (fun p hp => (hpairs p hp).2.1) hn h
  have ht' : tokenInteger name t = none := by rw [tokenInteger, tokenString_child hfirst hchild]; rfl
  have hword' : tokenInteger name word = none := by rw [tokenInteger, hskip]; rfl
  rw [tokenize_message ht hword hpairs (head_ne_zero hchild), getTokenInteger, List.findSome?_cons, ht',
    List.findSome?_cons, hword']
  exact hint

end Message

/-- The parts of a message in which two `textinput`s were joined. -/
theorem textInput_message (t id queuedText text : Bytes) :
    t ++ ascii " textinput id=" ++ id ++ ascii " text=" ++ queuedText ++ text =
      message t (ascii "textinput") [(ascii "id", id), (ascii "text", queuedText ++ text)] := by
  have h1 : ascii " textinput id=" = blank :: ascii "textinput" ++ blank :: (ascii "id" ++ [equalSign]) :=
    rfl
  have h2 : ascii " text=" = blank :: (ascii "text" ++ [equalSign]) := rfl
  simp [message, h1, h2, fields, pair]

theorem removeText_message (t id before after : Bytes) :
    t ++ ascii " removetextcontext id=" ++ id ++ ascii " before=" ++ before ++ ascii " after=" ++ after =
      message t (ascii "removetextcontext")
        [(ascii "id", id), (ascii "before", before), (ascii "after", after)] := by
  have h1 : ascii " removetextcontext id=" =
      blank :: ascii "removetextcontext" ++ blank :: (ascii "id" ++ [equalSign]) := rfl
  have h2 : ascii " before=" = blank :: (ascii "before" ++ [equalSign]) := rfl
  have h3 : ascii " after=" = blank :: (ascii "after" ++ [equalSign]) := rfl
  simp [message, h1, h2, h3, fields, pair]

theorem writable_textInput {id text : Bytes} (hid : Plain blank id) (htext : Plain blank text) :
    Writable [(ascii "id", id), (ascii "text", text)] := by
  intro p hp
  simp only [List.mem_cons, List.not_mem_nil, or_false] at hp
  rcases hp with rfl | rfl
  · exact ⟨(by decide : Plain blank (ascii "id")), (by decide : equalSign ∉ ascii "id"), hid⟩
  · exact ⟨(by decide : Plain blank (ascii "text")), (by decide : equalSign ∉ ascii "text"), htext⟩

theorem writable_removeText {id : Bytes} (hid : Plain blank id) (before after : Int) :
    Writable [(ascii "id", id), (ascii "before", decimal before), (ascii "after", decimal after)] := by
  intro p hp
  simp only [List.mem_cons, List.not_mem_nil, or_false] at hp
  rcases hp with rfl | rfl | rfl
  · exact ⟨(by decide : Plain blank (ascii "id")), (by decide : equalSign ∉ ascii "id"), hid⟩
  · exact ⟨(by decide : Plain blank (ascii "before")), (by decide : equalSign ∉ ascii "before"),
      decimal_plain⟩
  · exact ⟨(by decide : Plain blank (ascii "after")), (by decide : equalSign ∉ ascii "after"),
      decimal_plain⟩

/-- The joined `textinput` is one. -/
theorem command_joined_textInput {t id text : Bytes} (ht : IsToken blank t) (hchild : isChild t)
    (hid : Plain blank id) (htext : Plain blank text) :
    command (message t (ascii "textinput") [(ascii "id", id), (ascii "text", text)]) =
      .textinput id text := by
  have hword : IsToken blank (ascii "textinput") := by decide
  have hpairs := writable_textInput hid htext
  refine command_of_textInput ?_ ?_ ?_
  · rw [tokenize_message ht hword hpairs (head_ne_zero hchild)]
    rfl
  · rw [getTokenString_message ht hword hpairs hchild (by decide) (by decide) rfl]
    rfl
  · rw [getTokenString_message ht hword hpairs hchild (by decide) (by decide) rfl]
    rfl

/-- The joined `removetextcontext` is one. -/
theorem command_joined_removeText {t id : Bytes} {before after : Int} (ht : IsToken blank t)
    (hchild : isChild t) (hid : Plain blank id) (hbefore : IsInt32 before) (hafter : IsInt32 after) :
    command (message t (ascii "removetextcontext")
        [(ascii "id", id), (ascii "before", decimal before), (ascii "after", decimal after)]) =
      .removetextcontext id before after := by
  have hword : IsToken blank (ascii "removetextcontext") := by decide
  have hpairs := writable_removeText hid before after
  refine command_of_removeText ?_ ?_ ?_ ?_
  · rw [tokenize_message ht hword hpairs (head_ne_zero hchild)]
    rfl
  · rw [getTokenString_message ht hword hpairs hchild (by decide) (by decide) rfl]
    rfl
  · exact getTokenInteger_message ht hword hpairs hchild (by decide) (by decide) rfl hbefore rfl
  · exact getTokenInteger_message ht hword hpairs hchild (by decide) (by decide) rfl hafter rfl

theorem isToken_tokenize (m : Bytes) : ∀ t ∈ tokenize m blank, IsToken blank t :=
  fun _ ht => isToken_of_mem_tokenize ht

/-- A message with a second token has a session. -/
theorem isToken_session {value word : Bytes} (h : (tokenize value blank)[1]? = some word) :
    IsToken blank (session value) := by
  cases hv : tokenize value blank with
  | nil => simp [hv] at h
  | cons t tokens =>
    rw [session, hv]
    exact isToken_of_mem_tokenize (s := value) (by simp [hv])

/-- **What a put can do**: the message is added, or it takes the place of the one it is joined to. -/
theorem put_impl_cases (queue : List Bytes) (value : Bytes) :
    MessageQueue.put_impl queue value = queue ++ [value] ∨
      (∃ id text queuedText front queued back, command value = .textinput id text ∧
        Plain blank id ∧ Plain blank text ∧ IsToken blank (session value) ∧
        Joins (isBarrier textInputBarriers (tokenize value blank))
          (queuedTextInput (tokenize value blank) id) queue front queued back queuedText ∧
        MessageQueue.put_impl queue value = front ++ back ++ [message (session value)
          (ascii "textinput") [(ascii "id", id), (ascii "text", queuedText ++ text)]]) ∨
      ∃ id before after r front queued back, command value = .removetextcontext id before after ∧
        Plain blank id ∧ IsToken blank (session value) ∧
        Joins (isBarrier removeTextBarriers (tokenize value blank))
          (queuedRemoveText (tokenize value blank) id) queue front queued back r ∧
        MessageQueue.put_impl queue value = front ++ back ++ [message (session value)
          (ascii "removetextcontext") [(ascii "id", id),
            (ascii "before", decimal (toInt32 (r.1 + before))),
            (ascii "after", decimal (toInt32 (r.2 + after)))]] := by
  by_cases h1 : (tokenize value blank)[1]? = some (ascii "textinput")
  · cases hcombine : combineTextInput queue (tokenize value blank) with
    | none =>
      left
      simp [MessageQueue.put_impl, h1, hcombine]
    | some r =>
      right; left
      have hput : MessageQueue.put_impl queue value = r.2 ++ [r.1] := by
        simp [MessageQueue.put_impl, h1, hcombine]
      simp only [combineTextInput, Option.bind_eq_bind, Option.bind_eq_some_iff, Option.pure_def,
        Option.some.injEq] at hcombine
      obtain ⟨id, hid, text, htext, ⟨queuedText, rest⟩, hjoin, rfl⟩ := hcombine
      obtain ⟨front, queued, back, hjoins, rfl⟩ := combine_eq_some hjoin
      refine ⟨id, text, queuedText, front, queued, back, command_of_textInput h1 hid htext,
        getTokenString_plain (isToken_tokenize value) hid,
        getTokenString_plain (isToken_tokenize value) htext, isToken_session h1, hjoins, ?_⟩
      rw [hput]
      dsimp only
      rw [textInput_message]
      rfl
  · by_cases h2 : (tokenize value blank)[1]? = some (ascii "removetextcontext")
    · cases hcombine : combineRemoveText queue (tokenize value blank) with
      | none =>
        left
        simp only [MessageQueue.put_impl, if_neg h1, if_pos h2, hcombine]
      | some r =>
        right; right
        have hput : MessageQueue.put_impl queue value = r.2 ++ [r.1] := by
          simp only [MessageQueue.put_impl, if_neg h1, if_pos h2, hcombine]
        simp only [combineRemoveText, Option.bind_eq_bind, Option.bind_eq_some_iff, Option.pure_def,
          Option.some.injEq] at hcombine
        obtain ⟨id, hid, before, hbefore, after, hafter, ⟨counts, rest⟩, hjoin, rfl⟩ := hcombine
        obtain ⟨front, queued, back, hjoins, rfl⟩ := combine_eq_some hjoin
        refine ⟨id, before, after, counts, front, queued, back,
          command_of_removeText h2 hid hbefore hafter,
          getTokenString_plain (isToken_tokenize value) hid, isToken_session h2, hjoins, ?_⟩
        rw [hput]
        dsimp only
        rw [removeText_message]
        rfl
    · left
      simp [MessageQueue.put_impl, h1, h2]

/-! ## What a put does to a session -/

theorem session_of_sameFirst {queued value : Bytes}
    (h : sameFirst (tokenize queued blank) (tokenize value blank)) : session queued = session value := by
  rw [sameFirst, Bool.and_eq_true, beq_iff_eq] at h
  rw [session, session, List.headD_eq_head?_getD, List.headD_eq_head?_getD, h.2]

theorem of_queuedTextInput {value id queued text : Bytes}
    (h : queuedTextInput (tokenize value blank) id queued = some text) :
    session queued = session value ∧ command queued = .textinput id text ∧ Plain blank text := by
  rw [queuedTextInput] at h
  split at h
  · rename_i hcond
    simp only [Bool.and_eq_true, beq_iff_eq] at hcond
    exact ⟨session_of_sameFirst hcond.1.1, command_of_textInput hcond.1.2 hcond.2 h,
      getTokenString_plain (isToken_tokenize queued) h⟩
  · simp at h

theorem of_queuedRemoveText {value id queued : Bytes} {r : Int × Int}
    (h : queuedRemoveText (tokenize value blank) id queued = some r) :
    session queued = session value ∧
      (getTokenString (tokenize queued blank) (ascii "id") = some id →
        command queued = .removetextcontext id r.1 r.2) := by
  rw [queuedRemoveText] at h
  split at h
  · rename_i hcond
    simp only [Bool.and_eq_true, beq_iff_eq] at hcond
    simp only [Option.bind_eq_bind, Option.bind_eq_some_iff, Option.pure_def, Option.some.injEq] at h
    obtain ⟨before, hbefore, after, hafter, rfl⟩ := h
    exact ⟨session_of_sameFirst hcond.1.1,
      fun hid => command_of_removeText hcond.1.2 hid hbefore hafter⟩
  · simp at h

theorem commandsOf_append (σ : Bytes) (l l' : List Bytes) :
    commandsOf σ (l ++ l') = commandsOf σ l ++ commandsOf σ l' := by
  simp [commandsOf]

theorem commandsOf_eq_nil {σ : Bytes} {l : List Bytes} (h : ∀ m ∈ l, session m ≠ σ) :
    commandsOf σ l = [] := by
  rw [commandsOf, List.map_eq_nil_iff, List.filter_eq_nil_iff]
  intro m hm
  simpa using h m hm

theorem commandsOf_singleton {σ m : Bytes} (h : session m = σ) : commandsOf σ [m] = [command m] := by
  simp [commandsOf, h]

/-- A message of another session changes nothing. -/
theorem commandsOf_put_of_ne {σ value : Bytes} (hσ : isChild σ) (h : session value ≠ σ)
    (queue : List Bytes) : commandsOf σ (MessageQueue.put_impl queue value) = commandsOf σ queue := by
  have hne : ∀ {m : Bytes}, session m ≠ σ → commandsOf σ [m] = [] := by
    intro m hm
    exact commandsOf_eq_nil fun m' hm' => by rwa [List.mem_singleton.mp hm']
  have hnil : ([] : Bytes) ≠ σ := by
    rintro rfl
    exact absurd hσ (by decide)
  -- the message that is joined to is of the same other session
  have hjoin : ∀ {front back : List Bytes} {queued new : Bytes}, session queued = session value →
      session new = (if (session value).head? = some 0 then [] else session value) →
      commandsOf σ (front ++ back ++ [new]) = commandsOf σ (front ++ queued :: back) := by
    intro front back queued new hqueued hnew
    have hnew' : session new ≠ σ := by
      rw [hnew]
      split
      · exact hnil
      · exact h
    rw [commandsOf_append, hne hnew', List.append_nil, List.append_cons, commandsOf_append,
      commandsOf_append, commandsOf_append, hne (hqueued ▸ h), List.append_nil]
  rcases put_impl_cases queue value with hput | ⟨id, text, queuedText, front, queued, back, -, hid,
    htext, ht, hjoins, hput⟩ | ⟨id, before, after, r, front, queued, back, -, hid, ht, hjoins, hput⟩
  · rw [hput, commandsOf_append, hne h, List.append_nil]
  · obtain ⟨hq, -, hqueued⟩ := of_queuedTextInput hjoins.found
    rw [hput, hjoins.split]
    exact hjoin hq (session_message ht (by decide) (writable_textInput hid (hqueued.append htext)))
  · obtain ⟨hq, -⟩ := of_queuedRemoveText hjoins.found
    rw [hput, hjoins.split]
    exact hjoin hq (session_message ht (by decide) (writable_removeText hid _ _))

/-- The commands of a session when one of its messages, the last, was replaced. -/
theorem commandsOf_replaced {σ queued new : Bytes} {front back : List Bytes}
    (hqueued : session queued = σ) (hnew : session new = σ) (hback : ∀ m ∈ back, session m ≠ σ) :
    commandsOf σ (front ++ queued :: back) = commandsOf σ front ++ [command queued] ∧
      commandsOf σ (front ++ back ++ [new]) = commandsOf σ front ++ [command new] := by
  constructor
  · rw [List.append_cons, commandsOf_append, commandsOf_append, commandsOf_eq_nil hback,
      commandsOf_singleton hqueued, List.append_nil]
  · rw [commandsOf_append, commandsOf_append, commandsOf_eq_nil hback, commandsOf_singleton hnew,
      List.append_nil]

/-- **A harmless put** adds the command to those of its session, or merges it with the last. -/
theorem commandsOf_put {queue : List Bytes} {value : Bytes} (hchild : isChild (session value))
    (hok : Harmless queue value) :
    commandsOf (session value) (MessageQueue.put_impl queue value) =
        commandsOf (session value) queue ++ [command value] ∨
      ∃ l last joined, commandsOf (session value) queue = l ++ [last] ∧
        mergeCommands last (command value) = some joined ∧
        commandsOf (session value) (MessageQueue.put_impl queue value) = l ++ [joined] := by
  rcases put_impl_cases queue value with hput | ⟨id, text, queuedText, front, queued, back, hcommand,
    hid, htext, ht, hjoins, hput⟩ | ⟨id, before, after, r, front, queued, back, hcommand, hid, ht,
    hjoins, hput⟩
  · left
    rw [hput, commandsOf_append, commandsOf_singleton rfl]
  · right
    rw [Harmless, hcommand] at hok
    have hback := hok front queued back queuedText hjoins
    obtain ⟨hq, hqueued, hplain⟩ := of_queuedTextInput hjoins.found
    have hnew := session_message ht (by decide : IsToken blank (ascii "textinput"))
      (writable_textInput hid (hplain.append htext))
    rw [if_neg (head_ne_zero hchild)] at hnew
    obtain ⟨hbefore, hafter⟩ := @commandsOf_replaced _ _ _ front back hq hnew hback
    refine ⟨commandsOf (session value) front, command queued, .textinput id (queuedText ++ text),
      by rw [hjoins.split, hbefore], by rw [hqueued, hcommand, mergeCommands, if_pos rfl], ?_⟩
    rw [hput, hafter, command_joined_textInput ht hchild hid (hplain.append htext)]
  · right
    rw [Harmless, hcommand] at hok
    obtain ⟨hback, hline, hfitBefore, hfitAfter⟩ := hok front queued back r hjoins
    obtain ⟨hq, hqueued⟩ := of_queuedRemoveText hjoins.found
    have hnew := session_message ht (by decide : IsToken blank (ascii "removetextcontext"))
      (writable_removeText hid (toInt32 (r.1 + before)) (toInt32 (r.2 + after)))
    rw [if_neg (head_ne_zero hchild)] at hnew
    obtain ⟨hbefore, hafter⟩ := @commandsOf_replaced _ _ _ front back hq hnew hback
    refine ⟨commandsOf (session value) front, command queued,
      .removetextcontext id (r.1 + before) (r.2 + after), by rw [hjoins.split, hbefore],
      by rw [hqueued hline, hcommand, mergeCommands, if_pos rfl], ?_⟩
    rw [hput, hafter, toInt32_eq hfitBefore, toInt32_eq hfitAfter,
      command_joined_removeText ht hchild hid hfitBefore hfitAfter]

end Oxool.Kit
