import Mathlib.Data.List.Induction
import Mathlib.Data.List.Nodup
import Mathlib.Data.List.TakeWhile
import Oxool.Lib.Run
import Oxool.Tile.TileDesc

/-!
# The queue of a session's outgoing messages (`wsd/SenderQueue.hpp`)

What the server sends to a browser waits in the session's `SenderQueue`. A new message takes the
place of an older one that says the same: a `tile:` of the same tile, a status of the same kind, a
cursor of the same view. A `delta:` is never taken out; but it continues the messages about its tile
back to the last `tile:`, and `deduplicate` takes that one out without a look at what stands behind
it.

`chain` is what a `delta:` enqueued now would continue, read off the record of all messages
enqueued. Two facts about it hold in every run: everything in it has been dequeued or is still queued
(`Inv.held`), and a queued `tile:` is in the chain of its tile (`Inv.newest`). With them a step keeps
the chains intact exactly when the `tile:` it takes out has no `delta:` of its tile behind it.
-/

set_option autoImplicit false

namespace Oxool.Wsd.SenderQueue

/-! ## The queue -/

/-- The commands of which only the newest is kept. -/
inductive SingleCommand
  | statusindicatorsetvalue
  | invalidatecursor
  | setpart
deriving DecidableEq

/-- A message, by its first token. Of a `tile:` and a `delta:` the queue reads the descriptor in the
first line, of an `invalidateviewcursor:` the `viewId` in its JSON. -/
inductive Message
  | tile (desc : TileDesc)
  | delta (desc : TileDesc)
  | single (command : SingleCommand)
  | invalidateviewcursor (viewId : String)
  | other
deriving DecidableEq

/-- A message, with the number of messages enqueued before it. -/
structure Item where
  seq : Nat
  message : Message
deriving DecidableEq

/-- A `tile:` of this tile. -/
def Item.isTileOf (t : TileDesc) (e : Item) : Bool :=
  match e.message with
  | .tile u => t.eq u
  | _ => false

/-- A `delta:` of this tile. -/
def Item.isDeltaOf (t : TileDesc) (e : Item) : Bool :=
  match e.message with
  | .delta u => t.eq u
  | _ => false

/-- The predicate `deduplicate` searches with. -/
def replaces (m : Message) (cur : Item) : Bool :=
  match m with
  | .tile newTile => cur.isTileOf newTile
  | .single command => cur.message == .single command
  | .invalidateviewcursor viewId => cur.message == .invalidateviewcursor viewId
  | _ => false

/-- The first match goes; the new message is always enqueued. -/
def deduplicate (m : Message) (queue : List Item) : List Item := queue.eraseP (replaces m)

/-- The queue of a session. `dequeued` records what was handed to the socket, `history` what was
enqueued. -/
structure State where
  queue : List Item := []
  terminationFlag : Bool := false
  closeFrame : Bool := false
  dequeued : List Item := []
  history : List Item := []
deriving DecidableEq

def State.enqueue (s : State) (m : Message) : State :=
  if s.terminationFlag then s
  else
    let item : Item := ⟨s.history.length, m⟩
    { s with
      queue := deduplicate m s.queue ++ [item]
      history := s.history ++ [item] }

def State.dequeue (s : State) : State :=
  if s.terminationFlag then s
  else
    match s.queue with
    | [] => s
    | item :: queue => { s with queue := queue, dequeued := s.dequeued ++ [item] }

/-- `ClientSession::enqueueSendMessage`. -/
def State.enqueueSendMessage (s : State) (m : Message) : State :=
  if s.closeFrame then s else s.enqueue m

inductive Action
  | enqueueSendMessage (m : Message)
  | dequeue
  | setTerminationFlag
  | close

def State.act (s : State) : Action → State
  | .enqueueSendMessage m => s.enqueueSendMessage m
  | .dequeue => s.dequeue
  | .setTerminationFlag => { s with terminationFlag := true }
  | .close => { s with closeFrame := true }

/-! ## Chains -/

/-- One more message about a tile: a `tile:` starts its chain, a `delta:` continues it. -/
def chainStep (t : TileDesc) (chain : List Item) (e : Item) : List Item :=
  if e.isTileOf t then [e]
  else if e.isDeltaOf t then chain ++ [e]
  else chain

/-- The messages about a tile from its last `tile:` on. -/
def chain (t : TileDesc) (history : List Item) : List Item := history.foldl (chainStep t) []

/-- Every `delta:` in the list comes after all that it depends on: the messages enqueued before it
for its tile, back to its keyframe. -/
def Intact (history l : List Item) : Prop :=
  ∀ before d after, l = before ++ d :: after → ∀ t, d.isDeltaOf t →
    ∀ e ∈ chain t (history.take d.seq), e ∈ before

/-- The chains are intact in what was dequeued, and will be in what is dequeued from here on: no
queued `delta:` has lost a message it depends on. -/
structure Kept (s : State) : Prop where
  dequeued : Intact s.history s.dequeued
  queued : Intact s.history (s.dequeued ++ s.queue)

/-- The message may be enqueued: if it is a `tile:` and takes the place of another, then no `delta:`
of the tile is queued behind that one. -/
def NoneBehind (s : State) (m : Message) : Prop :=
  match m with
  | .tile t => ∀ d ∈ s.queue.dropWhile fun e => !e.isTileOf t, d.isDeltaOf t = false
  | _ => True

/-- Only an enqueue that the queue accepts can break a chain. -/
def Harmless (s : State) : Action → Prop
  | .enqueueSendMessage m => s.closeFrame = false → s.terminationFlag = false → NoneBehind s m
  | _ => True

theorem Item.isTileOf_congr {t u : TileDesc} (h : t.eq u) (e : Item) :
    e.isTileOf t = e.isTileOf u := by
  cases hm : e.message <;> simp [isTileOf, hm, TileDesc.eq_congr h]

theorem Item.isDeltaOf_congr {t u : TileDesc} (h : t.eq u) (e : Item) :
    e.isDeltaOf t = e.isDeltaOf u := by
  cases hm : e.message <;> simp [isDeltaOf, hm, TileDesc.eq_congr h]

/-- Two tiles of which one message is a `tile:` are equal. -/
theorem Item.eq_of_isTileOf {t u : TileDesc} {e : Item} (ht : e.isTileOf t) (hu : e.isTileOf u) :
    t.eq u := by
  cases hm : e.message with
  | tile v =>
    simp only [isTileOf, hm] at ht hu
    obtain ⟨h1, h2⟩ := TileDesc.eq_iff.mp ht
    obtain ⟨h3, h4⟩ := TileDesc.eq_iff.mp hu
    exact TileDesc.eq_iff.mpr ⟨h1.trans h3.symm, h2.trans h4.symm⟩
  | _ => simp [isTileOf, hm] at ht

theorem Item.isDeltaOf_eq_false_of_isTileOf {t u : TileDesc} {e : Item} (h : e.isTileOf t) :
    e.isDeltaOf u = false := by
  cases hm : e.message <;> simp_all [isTileOf, isDeltaOf]

theorem chain_concat (t : TileDesc) (history : List Item) (e : Item) :
    chain t (history ++ [e]) = chainStep t (chain t history) e := by
  rw [chain, List.foldl_append]
  rfl

theorem mem_chainStep {t : TileDesc} {c : List Item} {e x : Item} (h : x ∈ chainStep t c e) :
    x = e ∧ (e.isTileOf t ∨ e.isDeltaOf t) ∨ x ∈ c ∧ e.isTileOf t = false := by
  rw [chainStep] at h
  split at h
  · rename_i ht
    exact .inl ⟨List.mem_singleton.mp h, .inl ht⟩
  · rename_i ht
    split at h
    · rename_i hd
      rcases List.mem_append.mp h with h | h
      · exact .inr ⟨h, by simpa using ht⟩
      · exact .inl ⟨List.mem_singleton.mp h, .inr hd⟩
    · exact .inr ⟨h, by simpa using ht⟩

/-- A chain is made of messages about its tile. -/
theorem mem_chain {t : TileDesc} {history : List Item} {e : Item} (h : e ∈ chain t history) :
    e ∈ history ∧ (e.isTileOf t ∨ e.isDeltaOf t) := by
  induction history using List.reverseRecOn with
  | nil => simp [chain] at h
  | append_singleton history x ih =>
    rw [chain_concat] at h
    rcases mem_chainStep h with ⟨rfl, hx⟩ | ⟨h, -⟩
    · exact ⟨by simp, hx⟩
    · exact ⟨List.mem_append_left _ (ih h).1, (ih h).2⟩

/-- A chain has one `tile:`. -/
theorem chain_tile_unique {t : TileDesc} {history : List Item} {e e' : Item}
    (h : e ∈ chain t history) (h' : e' ∈ chain t history) (he : e.isTileOf t)
    (he' : e'.isTileOf t) : e = e' := by
  induction history using List.reverseRecOn with
  | nil => simp [chain] at h
  | append_singleton history x ih =>
    rw [chain_concat] at h h'
    rcases mem_chainStep h with ⟨rfl, hx⟩ | ⟨h, hx⟩ <;>
      rcases mem_chainStep h' with ⟨rfl, hx'⟩ | ⟨h', hx'⟩
    · rfl
    · simp [he] at hx'
    · simp [he'] at hx
    · exact ih h h'

/-- What is in the chain now and was enqueued by then, was in the chain then. -/
theorem mem_chain_of_append {t : TileDesc} {h₁ h₂ : List Item} {e : Item}
    (h : e ∈ chain t (h₁ ++ h₂)) (he : e ∉ h₂) : e ∈ chain t h₁ := by
  induction h₂ using List.reverseRecOn with
  | nil => simpa using h
  | append_singleton h₂ x ih =>
    rw [← List.append_assoc, chain_concat] at h
    rcases mem_chainStep h with ⟨rfl, -⟩ | ⟨h, -⟩
    · simp at he
    · exact ih h fun hmem => he (List.mem_append_left _ hmem)

/-! ## What holds in every run -/

/-- The messages are numbered as they come. -/
def Numbered (history : List Item) : Prop := history.map Item.seq = List.range history.length

theorem Numbered.concat {history : List Item} (h : Numbered history) {item : Item}
    (hitem : item.seq = history.length) : Numbered (history ++ [item]) := by
  rw [Numbered, List.map_append, h, List.length_append, List.length_singleton, List.range_succ,
    List.map_singleton, hitem]

theorem Numbered.sorted {history l : List Item} (h : Numbered history) (hl : l.Sublist history) :
    l.Pairwise fun e e' => e.seq < e'.seq := by
  have hseqs : (history.map Item.seq).Pairwise (· < ·) := by
    rw [h]
    exact List.pairwise_lt_range
  exact (List.pairwise_map.mp hseqs).sublist hl

theorem Numbered.nodup {history l : List Item} (h : Numbered history) (hl : l.Sublist history) :
    l.Nodup := by
  refine (h.sorted hl).imp ?_
  rintro e _ hlt rfl
  exact Nat.lt_irrefl _ hlt

theorem Numbered.seq_lt {history : List Item} (h : Numbered history) {e : Item}
    (he : e ∈ history) : e.seq < history.length := by
  have hmem : e.seq ∈ history.map Item.seq := List.mem_map_of_mem he
  rw [h] at hmem
  exact List.mem_range.mp hmem

theorem Numbered.take {history : List Item} (h : Numbered history) (n : Nat) :
    Numbered (history.take n) := by
  rw [Numbered, List.map_take, h, List.take_range, List.length_take]

/-- The messages before a number are those with a smaller number. -/
theorem Numbered.mem_take_iff {history : List Item} (h : Numbered history) {e : Item} {n : Nat}
    (hn : n ≤ history.length) : e ∈ history.take n ↔ e ∈ history ∧ e.seq < n := by
  constructor
  · intro he
    have hlt := (h.take n).seq_lt he
    rw [List.length_take] at hlt
    exact ⟨List.mem_of_mem_take he, by omega⟩
  · rintro ⟨he, hlt⟩
    rw [← List.take_append_drop n history, List.mem_append] at he
    rcases he with he | he
    · exact he
    · obtain ⟨i, hi, rfl⟩ := List.mem_iff_getElem.mp he
      rw [List.getElem_drop] at hlt
      have hlen : n + i < history.length := by
        rw [List.length_drop] at hi
        omega
      have hseq : (history.map Item.seq)[n + i]? = some (n + i) := by
        rw [h, List.getElem?_range hlen]
      rw [List.getElem?_map, List.getElem?_eq_getElem hlen] at hseq
      simp only [Option.map_some, Option.some.injEq] at hseq
      omega

/-- What holds in every run, the chains intact or not. -/
structure Inv (s : State) : Prop where
  numbered : Numbered s.history
  sublist : (s.dequeued ++ s.queue).Sublist s.history
  held : ∀ t, ∀ e ∈ chain t s.history, e ∈ s.dequeued ++ s.queue
  newest : ∀ t, ∀ e ∈ s.queue, e.isTileOf t → e ∈ chain t s.history

theorem inv_init : Inv {} := ⟨rfl, List.Sublist.refl _, by simp [chain], by simp⟩

/-- What `deduplicate` does to the queue: nothing, or one message goes. -/
theorem deduplicate_cases (m : Message) (queue : List Item) :
    (deduplicate m queue = queue ∧ ∀ e ∈ queue, replaces m e = false) ∨
      ∃ e front back, queue = front ++ e :: back ∧ deduplicate m queue = front ++ back ∧
        replaces m e ∧ ∀ e' ∈ front, replaces m e' = false := by
  by_cases h : ∃ e ∈ queue, replaces m e
  · obtain ⟨e, he, hm⟩ := h
    obtain ⟨e, front, back, hfront, hm, hq, herase⟩ := List.exists_of_eraseP he hm
    exact .inr ⟨e, front, back, hq, herase, hm, fun e' he' => by simpa using hfront e' he'⟩
  · have hnone : ∀ e ∈ queue, replaces m e = false :=
      fun e he => Bool.eq_false_iff.mpr fun hm => h ⟨e, he, hm⟩
    exact .inl ⟨List.eraseP_of_forall_not fun e he => by simp [hnone e he], hnone⟩

/-- Only a `tile:` takes out a `tile:`, and nothing takes out a `delta:`. -/
theorem of_replaces {m : Message} {e : Item} (h : replaces m e) :
    (∃ t, m = .tile t ∧ e.isTileOf t) ∨ ∀ t, e.isTileOf t = false ∧ e.isDeltaOf t = false := by
  cases m with
  | tile t => exact .inl ⟨t, rfl, h⟩
  | single c =>
    have he : e.message = .single c := by simpa [replaces] using h
    exact .inr fun t => by simp [Item.isTileOf, Item.isDeltaOf, he]
  | invalidateviewcursor v =>
    have he : e.message = .invalidateviewcursor v := by simpa [replaces] using h
    exact .inr fun t => by simp [Item.isTileOf, Item.isDeltaOf, he]
  | delta t => simp [replaces] at h
  | other => simp [replaces] at h

theorem isTileOf_mk {n : Nat} {m : Message} {t : TileDesc} :
    (⟨n, m⟩ : Item).isTileOf t ↔ ∃ u, m = .tile u ∧ t.eq u := by
  cases m <;> simp [Item.isTileOf]

/-- The queue the new message joins keeps every message of a chain, unless the message starts the
chain anew. -/
theorem mem_deduplicate {m : Message} {queue : List Item} {t : TileDesc} {e : Item}
    (he : e ∈ queue) (hchain : e.isTileOf t ∨ e.isDeltaOf t)
    (hm : ∀ u, m = .tile u → t.eq u = false) : e ∈ deduplicate m queue := by
  rcases deduplicate_cases m queue with ⟨hq, -⟩ | ⟨x, front, back, hq, hdedup, hx, -⟩
  · rw [hq]
    exact he
  · rw [hdedup]
    rw [hq, List.mem_append, List.mem_cons] at he
    rcases he with he | rfl | he
    · exact List.mem_append_left _ he
    · exfalso
      rcases of_replaces hx with ⟨u, rfl, hu⟩ | hnone
      · rcases hchain with ht | hd
        · simpa [hm u rfl] using Item.eq_of_isTileOf ht hu
        · simp [Item.isDeltaOf_eq_false_of_isTileOf hu] at hd
      · simp [hnone t] at hchain
    · exact List.mem_append_right _ he

theorem deduplicate_sublist (m : Message) (queue : List Item) :
    (deduplicate m queue).Sublist queue := List.eraseP_sublist

theorem Inv.nodup_queue {s : State} (h : Inv s) : s.queue.Nodup :=
  h.numbered.nodup ((List.sublist_append_right s.dequeued s.queue).trans h.sublist)

/-- No older `tile:` of a tile stays queued beside the new one. -/
theorem Inv.not_isTileOf_deduplicate {s : State} (h : Inv s) {t : TileDesc} {e : Item}
    (he : e ∈ deduplicate (.tile t) s.queue) : e.isTileOf t = false := by
  rw [Bool.eq_false_iff]
  intro ht
  rcases deduplicate_cases (.tile t) s.queue with ⟨hq, hnone⟩ | ⟨x, front, back, hq, hdedup, hx, -⟩
  · rw [hq] at he
    have := hnone e he
    simp [replaces, ht] at this
  · have hxq : x ∈ s.queue := by simp [hq]
    have heq : e ∈ s.queue := (deduplicate_sublist _ _).subset he
    have hsame : e = x := chain_tile_unique (h.newest t e heq ht) (h.newest t x hxq hx) ht hx
    have hnodup := h.nodup_queue
    rw [hq, List.nodup_middle, List.nodup_cons] at hnodup
    rw [hdedup, hsame] at he
    exact hnodup.1 he

theorem Inv.enqueue {s : State} (h : Inv s) (m : Message) : Inv (s.enqueue m) := by
  rw [State.enqueue]
  split
  · exact h
  · have hdedup := deduplicate_sublist m s.queue
    refine ⟨h.numbered.concat rfl, ?_, ?_, ?_⟩
    · rw [← List.append_assoc]
      exact (((List.Sublist.refl _).append hdedup).trans h.sublist).append (List.Sublist.refl _)
    · intro t e he
      rw [chain_concat] at he
      rcases mem_chainStep he with ⟨rfl, -⟩ | ⟨he, ht⟩
      · simp
      · -- a message of the chain that was queued is still queued
        have hm : ∀ u, m = .tile u → t.eq u = false := by
          intro u hu
          rw [Bool.eq_false_iff] at ht ⊢
          exact fun heq => ht (isTileOf_mk.mpr ⟨u, hu, heq⟩)
        rcases List.mem_append.mp (h.held t e he) with hd | hq
        · exact List.mem_append_left _ hd
        · have := mem_deduplicate hq (mem_chain he).2 hm
          simp [this]
    · intro t e he ht
      rw [chain_concat, chainStep]
      rcases List.mem_append.mp he with he | he
      · have hold := h.newest t e ((deduplicate_sublist m s.queue).subset he) ht
        split
        · rename_i hnew
          obtain ⟨u, rfl, heq⟩ := isTileOf_mk.mp hnew
          rw [Item.isTileOf_congr heq, h.not_isTileOf_deduplicate he] at ht
          simp at ht
        · split
          · exact List.mem_append_left _ hold
          · exact hold
      · rw [List.mem_singleton.mp he] at ht ⊢
        simp [ht]

theorem Inv.act {s : State} (h : Inv s) (a : Action) : Inv (s.act a) := by
  cases a with
  | enqueueSendMessage m =>
    simp only [State.act, State.enqueueSendMessage]
    split
    · exact h
    · exact h.enqueue m
  | dequeue =>
    simp only [State.act, State.dequeue]
    split
    · exact h
    · split
      · exact h
      · rename_i item queue hq
        have hlist : s.dequeued ++ [item] ++ queue = s.dequeued ++ s.queue := by simp [hq]
        refine ⟨h.numbered, ?_, ?_, ?_⟩
        · rw [hlist]
          exact h.sublist
        · rw [hlist]
          exact h.held
        · intro t e he ht
          exact h.newest t e (by simp [hq, he]) ht
  | setTerminationFlag => exact ⟨h.numbered, h.sublist, h.held, h.newest⟩
  | close => exact ⟨h.numbered, h.sublist, h.held, h.newest⟩

/-! ## When a step keeps the chains -/

/-- In a list in the order of enqueueing, "before" is a matter of membership. -/
theorem intact_iff {history l : List Item} (h : Numbered history) (hl : l.Sublist history) :
    Intact history l ↔ ∀ d ∈ l, ∀ t, d.isDeltaOf t → ∀ e ∈ chain t (history.take d.seq), e ∈ l := by
  constructor
  · intro hint d hd t ht e he
    obtain ⟨before, after, rfl⟩ := List.append_of_mem hd
    exact List.mem_append_left _ (hint before d after rfl t ht e he)
  · rintro hmem before d after rfl t ht e he
    have hd : d ∈ history := hl.subset (by simp)
    have hlt := ((h.mem_take_iff (Nat.le_of_lt (h.seq_lt hd))).mp (mem_chain he).1).2
    have hsorted := List.pairwise_append.mp (h.sorted hl)
    rcases List.mem_append.mp (hmem d (by simp) t ht e he) with he | he
    · exact he
    · exfalso
      rcases List.mem_cons.mp he with rfl | he
      · exact Nat.lt_irrefl _ hlt
      · have := (List.pairwise_cons.mp hsorted.2.1).1 e he
        omega

/-- Of the two parts of `Kept` the second is the stronger one. -/
theorem kept_iff {s : State} : Kept s ↔ Intact s.history (s.dequeued ++ s.queue) := by
  refine ⟨Kept.queued, fun h => ⟨?_, h⟩⟩
  intro before d after hd t ht e he
  exact h before d (after ++ s.queue) (by simp [hd]) t ht e he

/-- A message that is no longer there is missed by those that depend on it. -/
theorem intact_erase {history front back : List Item} {x : Item} (h : Numbered history)
    (hl : (front ++ x :: back).Sublist history) (hint : Intact history (front ++ x :: back)) :
    Intact history (front ++ back) ↔
      ∀ d ∈ back, ∀ t, d.isDeltaOf t → x ∉ chain t (history.take d.seq) := by
  have hsub : (front ++ back).Sublist (front ++ x :: back) := by simp
  have hx : x ∉ front ++ back := by
    have hnodup := h.nodup hl
    rw [List.nodup_middle, List.nodup_cons] at hnodup
    exact hnodup.1
  rw [intact_iff h (hsub.trans hl)]
  constructor
  · intro hmem d hd t ht hchain
    exact hx (hmem d (by simp [hd]) t ht x hchain)
  · intro hmiss d hd t ht e he
    rcases List.mem_append.mp hd with hfront | hback
    · -- a message in front of it has all it depends on further in front
      obtain ⟨before, after, rfl⟩ := List.append_of_mem hfront
      have := hint before d (after ++ x :: back) (by simp) t ht e he
      simp [this]
    · have hmem := (intact_iff h hl).mp hint d (by simp [hback]) t ht e he
      rw [List.mem_append, List.mem_cons] at hmem
      rcases hmem with hmem | rfl | hmem
      · exact List.mem_append_left _ hmem
      · exact absurd he (hmiss d hback t ht)
      · exact List.mem_append_right _ hmem

theorem dropWhile_of_first {p : Item → Bool} {front back : List Item} {x : Item}
    (hfront : ∀ e ∈ front, p e = true) (hx : p x = false) :
    (front ++ x :: back).dropWhile p = x :: back := by
  rw [List.dropWhile_append_of_pos hfront, List.dropWhile_cons_of_neg (by simp [hx])]

/-- A queued `tile:` is what every `delta:` of its tile behind it continues. -/
theorem Inv.mem_chain_of_behind {s : State} (h : Inv s) {front back : List Item} {x d : Item}
    {t : TileDesc} (hq : s.queue = front ++ x :: back) (hd : d ∈ back) (ht : x.isTileOf t) :
    x ∈ chain t (s.history.take d.seq) := by
  have hqueue : s.queue.Sublist s.history :=
    (List.sublist_append_right s.dequeued s.queue).trans h.sublist
  have hlt : x.seq < d.seq := by
    have hsorted := h.numbered.sorted hqueue
    rw [hq, List.pairwise_append, List.pairwise_cons] at hsorted
    exact hsorted.2.1.1 d hd
  have hchain := h.newest t x (by simp [hq]) ht
  rw [← List.take_append_drop d.seq s.history] at hchain
  refine mem_chain_of_append hchain ?_
  -- it was enqueued before, so it is not among those enqueued since
  have hdlt := h.numbered.seq_lt (hqueue.subset (by simp [hq, hd] : d ∈ s.queue))
  have hx : x ∈ s.history.take d.seq :=
    (h.numbered.mem_take_iff (Nat.le_of_lt hdlt)).mpr ⟨hqueue.subset (by simp [hq]), hlt⟩
  have hnodup := h.numbered.nodup (List.Sublist.refl _)
  rw [← List.take_append_drop d.seq s.history, List.nodup_append] at hnodup
  exact fun hdrop => hnodup.2.2 x hx x hdrop rfl

/-- **What `deduplicate` does to the chains.** -/
theorem intact_deduplicate {s : State} (h : Inv s)
    (hint : Intact s.history (s.dequeued ++ s.queue)) (m : Message) :
    Intact s.history (s.dequeued ++ deduplicate m s.queue) ↔ NoneBehind s m := by
  rcases deduplicate_cases m s.queue with ⟨hq, hnone⟩ | ⟨x, front, back, hq, hdedup, hx, hfront⟩
  · rw [hq]
    refine iff_of_true hint ?_
    cases m with
    | tile t =>
      intro d hd
      have hnil : s.queue.dropWhile (fun e => !e.isTileOf t) = [] := by
        rw [List.dropWhile_eq_nil_iff]
        intro e he
        have := hnone e he
        simpa [replaces] using this
      rw [hnil] at hd
      simp at hd
    | _ => trivial
  · have hlist : s.dequeued ++ s.queue = (s.dequeued ++ front) ++ x :: back := by simp [hq]
    have hsub := h.sublist
    rw [hlist] at hint hsub
    rw [hdedup, ← List.append_assoc, intact_erase h.numbered hsub hint]
    rcases of_replaces hx with ⟨t, rfl, ht⟩ | hother
    · have hbehind : s.queue.dropWhile (fun e => !e.isTileOf t) = x :: back := by
        rw [hq]
        exact dropWhile_of_first (fun e he => by simpa [replaces] using hfront e he) (by simp [ht])
      rw [NoneBehind, hbehind]
      constructor
      · intro hmiss d hd
        rcases List.mem_cons.mp hd with rfl | hd
        · exact Item.isDeltaOf_eq_false_of_isTileOf ht
        · rw [Bool.eq_false_iff]
          intro hdelta
          exact hmiss d hd t hdelta (h.mem_chain_of_behind hq hd ht)
      · intro hnone d hd u hu hchain
        rcases (mem_chain hchain).2 with hxu | hxu
        · have := hnone d (List.mem_cons_of_mem _ hd)
          rw [← Item.isDeltaOf_congr (Item.eq_of_isTileOf hxu ht), hu] at this
          simp at this
        · rw [Item.isDeltaOf_eq_false_of_isTileOf ht] at hxu
          simp at hxu
    · refine iff_of_true ?_ ?_
      · intro d _ t _ hchain
        have := (mem_chain hchain).2
        simp [hother t] at this
      · cases m with
        | tile t =>
          have := (hother t).1
          simp [replaces, this] at hx
        | _ => trivial

/-- A message added at the end misses nothing if the chain it continues is there. -/
theorem intact_concat {history l : List Item} (h : Numbered history) (hl : l.Sublist history)
    {item : Item} (hitem : item.seq = history.length) :
    Intact (history ++ [item]) (l ++ [item]) ↔
      Intact history l ∧ ∀ t, item.isDeltaOf t → ∀ e ∈ chain t history, e ∈ l := by
  rw [intact_iff (h.concat hitem) (hl.append (List.Sublist.refl _)), intact_iff h hl]
  have htake : ∀ n ≤ history.length, (history ++ [item]).take n = history.take n :=
    fun n hn => List.take_append_of_le_length hn
  have hold : ∀ n t, ∀ e ∈ chain t (history.take n), e ∈ l ++ [item] → e ∈ l := by
    intro n t e he hmem
    rcases List.mem_append.mp hmem with hmem | hmem
    · exact hmem
    · have := h.seq_lt (List.mem_of_mem_take (mem_chain he).1)
      rw [List.mem_singleton.mp hmem, hitem] at this
      exact absurd this (Nat.lt_irrefl _)
  constructor
  · intro hmem
    refine ⟨?_, ?_⟩
    · intro d hd t ht e he
      have hseq := Nat.le_of_lt (h.seq_lt (hl.subset hd))
      refine hold d.seq t e he (hmem d (by simp [hd]) t ht e ?_)
      rw [htake _ hseq]
      exact he
    · intro t ht e he
      refine hold history.length t e (by simpa using he) (hmem item (by simp) t ht e ?_)
      rw [hitem, htake _ (Nat.le_refl _), List.take_length]
      exact he
  · rintro ⟨hmem, hnew⟩ d hd t ht e he
    rcases List.mem_append.mp hd with hd | hd
    · rw [htake _ (Nat.le_of_lt (h.seq_lt (hl.subset hd)))] at he
      exact List.mem_append_left _ (hmem d hd t ht e he)
    · rw [List.mem_singleton.mp hd] at ht he
      rw [hitem, htake _ (Nat.le_refl _), List.take_length] at he
      exact List.mem_append_left _ (hnew t ht e he)

theorem kept_enqueue {s : State} (h : Inv s) (hk : Kept s) (hflag : s.terminationFlag = false)
    (m : Message) : Kept (s.enqueue m) ↔ NoneBehind s m := by
  rw [kept_iff] at hk ⊢
  rw [State.enqueue, if_neg (by simp [hflag])]
  have hsub : (s.dequeued ++ deduplicate m s.queue).Sublist s.history :=
    ((List.Sublist.refl _).append (deduplicate_sublist m s.queue)).trans h.sublist
  rw [← List.append_assoc, intact_concat h.numbered hsub rfl, intact_deduplicate h hk]
  refine and_iff_left ?_
  intro t ht e he
  cases m with
  | delta u =>
    have hsame : deduplicate (.delta u) s.queue = s.queue :=
      List.eraseP_of_forall_not (by simp [replaces])
    rw [hsame]
    exact h.held t e he
  | _ => simp [Item.isDeltaOf] at ht

/-- **One step.** The chains stay intact exactly when the step is harmless. -/
theorem kept_act {s : State} (h : Inv s) (hk : Kept s) (a : Action) :
    Kept (s.act a) ↔ Harmless s a := by
  cases a with
  | enqueueSendMessage m =>
    simp only [State.act, State.enqueueSendMessage, Harmless]
    cases hclose : s.closeFrame with
    | true => simpa using hk
    | false =>
      cases hflag : s.terminationFlag with
      | true => simpa [State.enqueue, hflag] using hk
      | false => simpa using kept_enqueue h hk hflag m
  | dequeue =>
    refine iff_of_true ?_ trivial
    rw [kept_iff] at hk ⊢
    simp only [State.act, State.dequeue]
    split
    · exact hk
    · split
      · exact hk
      · rename_i item queue hq
        simpa [hq] using hk
  | setTerminationFlag => exact iff_of_true ⟨hk.dequeued, hk.queued⟩ trivial
  | close => exact iff_of_true ⟨hk.dequeued, hk.queued⟩ trivial

/-- **Delta chains.** In every run of enqueues and dequeues, whatever is dequeued has its chains
intact exactly when no `tile:` took the place of a queued one that had a `delta:` of its tile behind
it. -/
theorem chains_kept (actions : List Action) :
    Run.Always State.act Kept {} actions ↔ Run.Meets State.act Harmless {} actions := by
  have hInv : ∀ (s : State) (a : Action), Inv s → Inv (s.act a) := fun _ a h => h.act a
  refine Run.always_iff_meets hInv (fun _ a h hk => kept_act h hk a) inv_init ?_
  rw [kept_iff]
  intro before d after hnil
  simp at hnil

/-- The tile at the top left, 256 pixels wide. -/
def topLeft : TileDesc :=
  { normalizedViewId := 0
    part := 0
    mode := 0
    width := 256
    height := 256
    tilePosX := 0
    tilePosY := 0
    tileWidth := 3840
    tileHeight := 3840
    ver := 1
    imgSize := 0
    id := -1
    oldWireId := 0
    wireId := 1
    width_pos := TileDesc.usualPixels_pos
    height_pos := TileDesc.usualPixels_pos
    tileWidth_pos := TileDesc.usualTwips_pos
    tileHeight_pos := TileDesc.usualTwips_pos }

/-- A tile, a delta that continues it and the tile anew, before anything is sent: the delta is sent
first. -/
theorem not_chains_kept :
    ¬ ∀ actions : List Action, Run.Always State.act Kept {} actions := by
  intro h
  have hkept := (h [.enqueueSendMessage (.tile topLeft), .enqueueSendMessage (.delta topLeft),
    .enqueueSendMessage (.tile topLeft), .dequeue]).last
  have hmem := hkept.dequeued [] ⟨1, .delta topLeft⟩ [] (by decide +kernel) topLeft
    (by decide +kernel) ⟨0, .tile topLeft⟩ (by decide +kernel)
  simp at hmem

end Oxool.Wsd.SenderQueue
