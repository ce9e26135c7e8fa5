import Oxool.Kit.TileQueue
import Oxool.Lib.Run

/-!
# What a session typed, from the queue

The commands of a session come out of the queue in the order they were put in, and where two of them
were joined they stood next to each other. That is what the search for a message to join is after:
it is given up at "any interesting messages inbetween that would make it wrong to merge". The list of
these has `key`, `mouse`, `windowkey` and the other kind of typing. It lacks every other command, the
typing into another window among them, and then the text is moved behind what was sent after it.

`sent` and `popped` record what was put and what was handed out. The code never reads them.
-/

set_option autoImplicit false

namespace Oxool.Kit

open Oxool.Http (Bytes ascii)
open Oxool.Protocol

/-! ## Which puts are harmless can be decided -/

/-- The places at which `combine` can find something. -/
theorem forall_joins_iff {β : Type} {stop : Bytes → Bool} {take : Bytes → Option β}
    {queue : List Bytes} {Q : Bytes → List Bytes → β → Prop} :
    (∀ i ∈ List.range queue.length, ∀ found ∈ take (queue.getD i []),
      (∀ m ∈ queue.drop (i + 1), stop m = false ∧ take m = none) →
        Q (queue.getD i []) (queue.drop (i + 1)) found) ↔
    ∀ front queued back found, Joins stop take queue front queued back found →
      Q queued back found := by
  constructor
  · rintro h front queued back found ⟨rfl, hfound, hpassed⟩
    have hget : (front ++ queued :: back).getD front.length [] = queued := by
      simp [List.getD_eq_getElem?_getD]
    have hdrop : (front ++ queued :: back).drop (front.length + 1) = back := by simp
    have := h front.length (by simp) found
    rw [hget, hdrop] at this
    exact this hfound hpassed
  · intro h i hi found hfound hpassed
    have hi' : i < queue.length := List.mem_range.mp hi
    refine h (queue.take i) _ _ found ⟨?_, hfound, hpassed⟩
    rw [List.getD_eq_getElem _ _ hi', List.cons_getElem_drop_succ, List.take_append_drop]

/-- What has to hold of whatever is found can be decided where it can be of one place. -/
def decidableJoins {β : Type} (stop : Bytes → Bool) (take : Bytes → Option β) (queue : List Bytes)
    (Q : Bytes → List Bytes → β → Prop) [∀ queued back found, Decidable (Q queued back found)] :
    Decidable (∀ front queued back found, Joins stop take queue front queued back found →
      Q queued back found) :=
  decidable_of_iff _ forall_joins_iff

instance (queue : List Bytes) (value : Bytes) : Decidable (Harmless queue value) :=
  match h : command value with
  | .textinput id _ =>
    @decidable_of_iff _ _ (by rw [Harmless, h])
      (decidableJoins (isBarrier textInputBarriers (tokenize value blank))
        (queuedTextInput (tokenize value blank) id) queue
        fun _ back _ => ∀ m ∈ back, session m ≠ session value)
  | .removetextcontext id before after =>
    @decidable_of_iff _ _ (by rw [Harmless, h])
      (decidableJoins (isBarrier removeTextBarriers (tokenize value blank))
        (queuedRemoveText (tokenize value blank) id) queue
        fun queued back r => (∀ m ∈ back, session m ≠ session value) ∧
          getTokenString (tokenize queued blank) (ascii "id") = some id ∧
          IsInt32 (r.1 + before) ∧ IsInt32 (r.2 + after))
  | .other _ => .isTrue (by rw [Harmless, h]; trivial)

/-! ## The machine -/

/-- A message of a session. -/
structure SessionMessage where
  text : Bytes
  child : isChild (session text) = true

/-- The queue, with the record. -/
structure Typing where
  queue : TileQueue
  sent : List Bytes
  popped : List Bytes

namespace Typing

inductive Event
  | put (m : SessionMessage)
  | pop

section Run

variable (viewIdOf : Bytes → Option Bytes)

def act (s : Typing) : Event → Typing
  | .put m => { s with queue := (s.queue.put viewIdOf m.text).1, sent := s.sent ++ [m.text] }
  | .pop => { s with queue := s.queue.pop.2, popped := s.popped ++ s.queue.pop.1.toList }

def init : Typing := ⟨⟨[], [], []⟩, [], []⟩

/-- What so many pops hand out. -/
def drain : Nat → TileQueue → List Bytes
  | 0, _ => []
  | n + 1, q => q.pop.1.toList ++ drain n q.pop.2

/-- Drained, the queue has handed out what each session sent, with neighbours merged. -/
def EditsKept (s : Typing) : Prop :=
  ∀ σ, isChild σ = true → Merging mergeCommands (commandsOf σ s.sent)
    (commandsOf σ (s.popped ++ drain s.queue.queue.length s.queue))

/-- What is put is joined only to the last message that its session has on the queue. -/
def JoinsLast (s : Typing) : Event → Prop
  | .put m => Harmless s.queue.queue m.text
  | .pop => True

instance (s : Typing) : (e : Event) → Decidable (s.JoinsLast e)
  | .put m => inferInstanceAs (Decidable (Harmless s.queue.queue m.text))
  | .pop => .isTrue trivial

end Run

/-! ## The queue of session messages -/

/-- The first piece, where there is something of it already. -/
theorem head_pieces_eq (p : UInt8 → Bool) {t : Bytes} (ht : t ≠ []) (l : Bytes) :
    (pieces p t l).head? = some (t ++ l.takeWhile fun b => !p b) := by
  induction l generalizing t with
  | nil => rw [pieces, flush, if_neg ht, List.takeWhile_nil, List.append_nil]; rfl
  | cons b l ih =>
    rw [pieces]
    split
    · rename_i hb
      rw [flush, if_neg ht, List.takeWhile_cons_of_neg (by simp [hb]), List.append_nil]
      rfl
    · rename_i hb
      rw [ih (by simp), List.takeWhile_cons_of_pos (by simp [hb]), List.append_assoc]
      rfl

/-- A message that does not start with a blank starts with its session. -/
theorem session_isPrefix {b : UInt8} (hb : b ≠ blank) (m : Bytes) : session (b :: m) <+: b :: m := by
  rw [session, tokenize]
  split
  · exact List.nil_prefix
  · by_cases hlf : b = Http.lf
    · rw [hlf, List.takeWhile_cons_of_neg (by simp)]
      exact List.nil_prefix
    · have hhead := head_pieces_eq (· == blank) (List.cons_ne_nil b []) (m.takeWhile (· != Http.lf))
      rw [List.takeWhile_cons_of_pos (by simpa using hlf), pieces, if_neg (by simpa using hb),
        List.nil_append, List.headD_eq_head?_getD, hhead, Option.getD_some, List.singleton_append,
        List.cons_prefix_cons]
      exact ⟨rfl, (List.takeWhile_prefix _).trans (List.takeWhile_prefix _)⟩

/-- How the message of a session starts. -/
theorem prefix_of_child {m : Bytes} (h : isChild (session m) = true) :
    m.head? = some blank ∨ ascii "child-" <+: m := by
  cases m with
  | nil => exact absurd h (by decide)
  | cons b m =>
    by_cases hb : b = blank
    · exact .inl (by rw [hb]; rfl)
    · exact .inr ((List.isPrefixOf_iff_prefix.mp h).trans (session_isPrefix hb m))

theorem not_tile_of_child {m : Bytes} (h : isChild (session m) = true) :
    matchPrefix (ascii "tile") m = false := by
  rw [matchPrefix, Bool.eq_false_iff, ne_eq, List.isPrefixOf_iff_prefix]
  rintro ⟨rest, rfl⟩
  rcases prefix_of_child h with hhead | ⟨rest', hrest⟩
  · exact absurd hhead (by simp [ascii, blank])
  · exact absurd (congrArg List.head? hrest) (by simp [ascii])

theorem getFirstToken_of_child {m word : Bytes} (h : isChild (session m) = true) (hword : word ≠ [])
    (hother : ¬ ascii "child-" <+: word) : getFirstToken m ≠ word := by
  rintro rfl
  rcases prefix_of_child h with hhead | ⟨rest, rfl⟩
  · cases m with
    | nil => exact hword rfl
    | cons b m =>
      obtain rfl : b = blank := Option.some.inj hhead
      exact hword rfl
  · apply hother
    have hnone : ∀ b ∈ ascii "child-", (b != blank) = true := List.all_eq_true.mp (by decide)
    rw [getFirstToken, List.takeWhile_append_of_pos hnone]
    exact List.prefix_append _ _

/-- On the kit's queue a session message is put as on any other. -/
theorem queue_put (viewIdOf : Bytes → Option Bytes) (q : TileQueue) (m : SessionMessage) :
    (q.put viewIdOf m.text).1.queue = MessageQueue.put_impl q.queue m.text := by
  have hne : m.text ≠ [] := by
    intro hnil
    have hchild := m.child
    rw [hnil] at hchild
    exact absurd hchild (by decide)
  rw [TileQueue.put, if_neg hne]
  dsimp only
  rw [TileQueue.put_impl, if_neg (getFirstToken_of_child m.child (by decide) (by decide)),
    if_neg (getFirstToken_of_child m.child (by decide) (by decide)),
    if_neg (getFirstToken_of_child m.child (by decide) (by decide))]

/-- A session message that is next is handed out. -/
theorem pop_of_child {q : TileQueue} {front : Bytes} {rest : List Bytes} (hq : q.queue = front :: rest)
    (h : isChild (session front) = true) : q.pop = (some front, { q with queue := rest }) := by
  have hplain : isPlainTile front = false := by rw [isPlainTile, not_tile_of_child h]; rfl
  have hpreview : isPreviewTile front = false := by rw [isPreviewTile, not_tile_of_child h]; rfl
  rw [TileQueue.pop, hq]
  dsimp only
  rw [TileQueue.get_impl, hplain, hpreview]
  rfl

/-- A queue of session messages is drained in its order. -/
theorem drain_eq (queue : List Bytes) (q : TileQueue) (hq : q.queue = queue)
    (h : ∀ m ∈ queue, isChild (session m) = true) : drain queue.length q = queue := by
  induction queue generalizing q with
  | nil => rfl
  | cons front rest ih =>
    rw [List.length_cons, drain, pop_of_child hq (h front List.mem_cons_self),
      ih _ rfl fun m hm => h m (List.mem_cons_of_mem _ hm)]
    rfl

/-- What a put leaves on the queue are session messages. -/
theorem child_put {queue : List Bytes} {value : Bytes} (hvalue : isChild (session value) = true)
    (h : ∀ m ∈ queue, isChild (session m) = true) :
    ∀ m ∈ MessageQueue.put_impl queue value, isChild (session m) = true := by
  have hjoined : ∀ {front back : List Bytes} {queued new : Bytes},
      queue = front ++ queued :: back →
      session new = (if (session value).head? = some 0 then [] else session value) →
      ∀ m ∈ front ++ back ++ [new], isChild (session m) = true := by
    intro front back queued new hsplit hnew m hm
    rw [if_neg (head_ne_zero hvalue)] at hnew
    rw [hsplit] at h
    simp only [List.mem_append, List.mem_singleton] at hm
    rcases hm with (hm | hm) | rfl
    · exact h m (by simp [hm])
    · exact h m (by simp [hm])
    · rw [hnew]
      exact hvalue
  rcases put_impl_cases queue value with hput | ⟨id, text, queuedText, front, queued, back, -, hid,
    htext, ht, hjoins, hput⟩ | ⟨id, before, after, r, front, queued, back, -, hid, ht, hjoins, hput⟩
  · rw [hput]
    intro m hm
    rcases List.mem_append.mp hm with hm | hm
    · exact h m hm
    · rw [List.mem_singleton.mp hm]
      exact hvalue
  · obtain ⟨-, -, hqueued⟩ := of_queuedTextInput hjoins.found
    rw [hput]
    exact hjoined hjoins.split
      (session_message ht (by decide) (writable_textInput hid (hqueued.append htext)))
  · rw [hput]
    exact hjoined hjoins.split (session_message ht (by decide) (writable_removeText hid _ _))

/-! ## Runs -/

/-- The queue is one of session messages, and what was handed out and what is queued is what was
sent, with neighbours merged. -/
structure Inv (s : Typing) : Prop where
  child : ∀ m ∈ s.queue.queue, isChild (session m) = true
  kept : ∀ σ, isChild σ = true →
    Merging mergeCommands (commandsOf σ s.sent) (commandsOf σ (s.popped ++ s.queue.queue))

theorem Inv.editsKept {s : Typing} (h : s.Inv) : s.EditsKept := by
  intro σ hσ
  rw [drain_eq s.queue.queue s.queue rfl h.child]
  exact h.kept σ hσ

theorem inv_init : init.Inv := ⟨by simp [init], fun _ _ => .nil⟩

theorem Inv.act {viewIdOf : Bytes → Option Bytes} {s : Typing} {e : Event} (h : s.Inv)
    (hok : s.JoinsLast e) : (s.act viewIdOf e).Inv := by
  cases e with
  | pop =>
    cases hq : s.queue.queue with
    | nil =>
      have hpop : s.queue.pop = (some [], s.queue) := by rw [TileQueue.pop, hq]
      refine ⟨by rw [Typing.act, hpop]; exact h.child, fun σ hσ => ?_⟩
      have hnone : commandsOf σ [[]] = [] := commandsOf_eq_nil fun m hm => by
        rw [List.mem_singleton.mp hm]
        rintro rfl
        exact absurd hσ (by decide)
      rw [Typing.act, hpop]
      change Merging _ _ (commandsOf σ (s.popped ++ [[]] ++ s.queue.queue))
      rw [commandsOf_append, commandsOf_append, hnone, List.append_nil, ← commandsOf_append]
      exact h.kept σ hσ
    | cons front rest =>
      have hchild := h.child
      rw [hq] at hchild
      have hpop := pop_of_child hq (hchild front List.mem_cons_self)
      refine ⟨?_, fun σ hσ => ?_⟩
      · rw [Typing.act, hpop]
        exact fun m hm => hchild m (List.mem_cons_of_mem _ hm)
      · rw [Typing.act, hpop]
        change Merging _ _ (commandsOf σ (s.popped ++ [front] ++ rest))
        rw [List.append_assoc, List.singleton_append, ← hq]
        exact h.kept σ hσ
  | put m =>
    have hqueue := queue_put viewIdOf s.queue m
    refine ⟨?_, fun σ hσ => ?_⟩
    · rw [Typing.act, hqueue]
      exact child_put m.child h.child
    · have hkept := h.kept σ hσ
      rw [commandsOf_append] at hkept
      rw [Typing.act]
      change Merging _ (commandsOf σ (s.sent ++ [m.text]))
        (commandsOf σ (s.popped ++ (s.queue.put viewIdOf m.text).1.queue))
      rw [hqueue, commandsOf_append, commandsOf_append]
      by_cases hne : session m.text = σ
      · subst hne
        rw [commandsOf_singleton rfl]
        rcases commandsOf_put m.child hok with hput | ⟨l, last, joined, hl, hmerge, hput⟩
        · rw [hput, ← List.append_assoc]
          exact hkept.concat _
        · rw [hl, ← List.append_assoc] at hkept
          rw [hput, ← List.append_assoc]
          exact hkept.concat_merge hmerge
      · have hnone : commandsOf σ [m.text] = [] := commandsOf_eq_nil fun m' hm' => by
          rwa [List.mem_singleton.mp hm']
        rw [commandsOf_put_of_ne hσ hne, hnone, List.append_nil]
        exact hkept

/-- **What every session typed is kept**, in every run in which nothing is joined across a message
of the same session. -/
theorem editsKept_of_joinsLast (viewIdOf : Bytes → Option Bytes) (es : List Event)
    (h : Run.Meets (act viewIdOf) JoinsLast init es) :
    Run.Always (act viewIdOf) EditsKept init es :=
  Run.always_of_meets (fun _ => Inv.editsKept) (fun _ _ hinv hok => hinv.act hok) inv_init h

/-- Two sessions type. The text of the first is joined across a command of the second, and so are
its two deletions. -/
def twoSessions : List Event :=
  [.put ⟨ascii "child-1 textinput id=0 text=a", by decide⟩,
   .put ⟨ascii "child-2 uno .uno:Bold", by decide⟩,
   .put ⟨ascii "child-1 textinput id=0 text=b", by decide⟩,
   .put ⟨ascii "child-1 removetextcontext id=0 before=1 after=0", by decide⟩,
   .pop,
   .put ⟨ascii "child-1 removetextcontext id=0 before=1 after=2", by decide⟩,
   .put ⟨ascii "child-1 uno .uno:Italic", by decide⟩,
   .pop]

theorem editsKept_twoSessions : Run.Always (act fun _ => none) EditsKept init twoSessions :=
  editsKept_of_joinsLast _ _ (by decide +kernel)

/-- A session types, makes the selection bold, and types on. -/
def typeAround : List Event :=
  [.put ⟨ascii "child-1 textinput id=0 text=a", by decide⟩,
   .put ⟨ascii "child-1 uno .uno:Bold", by decide⟩,
   .put ⟨ascii "child-1 textinput id=0 text=b", by decide⟩]

/-- **Text is moved behind a command**: `uno` is none of the messages that the search stops at. -/
theorem not_editsKept : ¬ ∀ (viewIdOf : Bytes → Option Bytes) (es : List Event),
    Run.Always (act viewIdOf) EditsKept init es := by
  intro h
  have hlast := (h (fun _ => none) typeAround).last (ascii "child-1") (by decide)
  have hsent : commandsOf (ascii "child-1") (typeAround.foldl (act fun _ => none) init).sent =
      [.textinput (ascii "0") (ascii "a"), .other (ascii "child-1 uno .uno:Bold"),
        .textinput (ascii "0") (ascii "b")] := by decide +kernel
  have hout : commandsOf (ascii "child-1")
      ((typeAround.foldl (act fun _ => none) init).popped ++
        drain (typeAround.foldl (act fun _ => none) init).queue.queue.length
          (typeAround.foldl (act fun _ => none) init).queue) =
      [.other (ascii "child-1 uno .uno:Bold"), .textinput (ascii "0") (ascii "ab")] := by
    decide +kernel
  rw [hsent, hout] at hlast
  cases hlast with
  | merge hmerge _ => cases hmerge

end Typing

end Oxool.Kit
